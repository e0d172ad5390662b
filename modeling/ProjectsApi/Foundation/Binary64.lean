import Mathlib.Data.Nat.Log
import Mathlib.Data.Nat.Digits.Lemmas
import ProjectsApi.Foundation.FixedWidth

/-!
# Natural numbers as doubles

The binary64 number nearest to a natural number, as `strtod` finds it for a text of decimal
digits: 53 significant bits, ties to even, infinity from `2 ^ 1024 - 2 ^ 970` on.
-/

namespace Foundation

/-- Round `n` to a multiple of `2 ^ shift`, in units of it; ties go to the even quotient. -/
def roundShift (n shift : Nat) : Nat :=
  if 2 * (n % 2 ^ shift) < 2 ^ shift then n / 2 ^ shift
  else if 2 * (n % 2 ^ shift) = 2 ^ shift ∧ n / 2 ^ shift % 2 = 0 then n / 2 ^ shift
  else n / 2 ^ shift + 1

/-- The double nearest to `n`; `none` is infinity. -/
def binary64 (n : Nat) : Option Nat :=
  let shift := n.log2 + 1 - 53
  let rounded := roundShift n shift * 2 ^ shift
  if rounded.log2 < 1024 then some rounded else none

theorem roundShift_zero (n : Nat) : roundShift n 0 = n := by
  simp [roundShift, Nat.mod_one]

theorem div_le_roundShift (n shift : Nat) : n / 2 ^ shift ≤ roundShift n shift := by
  unfold roundShift
  split_ifs <;> omega

theorem roundShift_le_succ (n shift : Nat) : roundShift n shift ≤ n / 2 ^ shift + 1 := by
  unfold roundShift
  split_ifs <;> omega

/-- The number of bits that do not fit. -/
def excess (n : Nat) : Nat := n.log2 + 1 - 53

/-- The rounded number, infinite or not. -/
def rounded (n : Nat) : Nat := roundShift n (excess n) * 2 ^ excess n

theorem binary64_eq (n : Nat) :
    binary64 n = if (rounded n).log2 < 1024 then some (rounded n) else none := rfl

theorem rounded_of_lt {n : Nat} (hn : n < 2 ^ 53) : rounded n = n := by
  have hlt : n.log2 < 53 := by
    by_cases h0 : n = 0
    · simp [h0]
    · exact (Nat.log2_lt h0).mpr hn
  have hexcess : excess n = 0 := by
    rw [excess]
    omega
  rw [rounded, hexcess, roundShift_zero, Nat.pow_zero, Nat.mul_one]

theorem two_pow_log2_le_rounded {n : Nat} (hn : 2 ^ 53 ≤ n) : 2 ^ n.log2 ≤ rounded n := by
  have h0 : n ≠ 0 := by omega
  have hlog : 53 ≤ n.log2 := (Nat.le_log2 h0).mpr hn
  have hsplit : 52 + excess n = n.log2 := by
    rw [excess]
    omega
  have hquot : 2 ^ 52 ≤ n / 2 ^ excess n := by
    rw [Nat.le_div_iff_mul_le (by positivity), ← Nat.pow_add, hsplit]
    exact Nat.log2_self_le h0
  calc 2 ^ n.log2 = 2 ^ 52 * 2 ^ excess n := by rw [← Nat.pow_add, hsplit]
    _ ≤ rounded n := Nat.mul_le_mul_right _ (hquot.trans (div_le_roundShift ..))

theorem rounded_le_two_pow {n : Nat} (hn : 2 ^ 53 ≤ n) : rounded n ≤ 2 ^ (n.log2 + 1) := by
  have h0 : n ≠ 0 := by omega
  have hlog : 53 ≤ n.log2 := (Nat.le_log2 h0).mpr hn
  have hsplit : 53 + excess n = n.log2 + 1 := by
    rw [excess]
    omega
  have hquot : n / 2 ^ excess n < 2 ^ 53 := by
    rw [Nat.div_lt_iff_lt_mul (by positivity), ← Nat.pow_add, hsplit]
    exact Nat.lt_log2_self
  calc rounded n ≤ 2 ^ 53 * 2 ^ excess n :=
        Nat.mul_le_mul_right _ ((roundShift_le_succ ..).trans hquot)
    _ = 2 ^ (n.log2 + 1) := by rw [← Nat.pow_add, hsplit]

theorem binary64_of_lt {n : Nat} (hn : n < 2 ^ 53) : binary64 n = some n := by
  rw [binary64_eq, rounded_of_lt hn, if_pos]
  by_cases h0 : n = 0
  · rw [h0]
    decide
  · exact ((Nat.log2_lt h0).mpr hn).trans (by decide)

/-- Rounding does not cross `2 ^ 53` downwards. -/
theorem le_of_binary64_eq_some {n x : Nat} (hn : 2 ^ 53 ≤ n) (h : binary64 n = some x) :
    2 ^ 53 ≤ x := by
  have hlog : 53 ≤ n.log2 := (Nat.le_log2 (by omega)).mpr hn
  rw [binary64_eq] at h
  split at h
  · calc 2 ^ 53 ≤ 2 ^ n.log2 := Nat.pow_le_pow_right (by decide) hlog
      _ ≤ rounded n := two_pow_log2_le_rounded hn
      _ = x := Option.some.inj h
  · cases h

/-- No other number has the double of a number below `2 ^ 53`. -/
theorem binary64_eq_iff {m n : Nat} (hn : n < 2 ^ 53) : binary64 m = binary64 n ↔ m = n := by
  constructor
  · intro h
    rw [binary64_of_lt hn] at h
    by_cases hm : m < 2 ^ 53
    · rw [binary64_of_lt hm] at h
      exact Option.some.inj h
    · have := le_of_binary64_eq_some (Nat.le_of_not_lt hm) h
      omega
  · intro h
    rw [h]

example : binary64 (2 ^ 53 + 1) = binary64 (2 ^ 53) := by decide +kernel

/-! ## Rounding keeps the order -/

theorem roundShift_mono {m n : Nat} (h : m ≤ n) (shift : Nat) :
    roundShift m shift ≤ roundShift n shift := by
  have hquot : m / 2 ^ shift ≤ n / 2 ^ shift := Nat.div_le_div_right h
  rcases Nat.lt_or_eq_of_le hquot with hlt | heq
  · calc roundShift m shift ≤ m / 2 ^ shift + 1 := roundShift_le_succ m shift
      _ ≤ n / 2 ^ shift := hlt
      _ ≤ roundShift n shift := div_le_roundShift n shift
  · -- of one quotient, the greater number has the greater remainder
    have hm := Nat.div_add_mod m (2 ^ shift)
    have hn := Nat.div_add_mod n (2 ^ shift)
    rw [heq] at hm
    have hrest : m % 2 ^ shift ≤ n % 2 ^ shift := by omega
    unfold roundShift
    rw [heq]
    split_ifs <;> omega

theorem log2_mono {m n : Nat} (h : m ≤ n) : m.log2 ≤ n.log2 := by
  by_cases h0 : m = 0
  · rw [h0]
    exact Nat.zero_le _
  · rw [Nat.le_log2 (by omega)]
    exact (Nat.log2_self_le h0).trans h

theorem rounded_mono {m n : Nat} (h : m ≤ n) : rounded m ≤ rounded n := by
  by_cases hn : n < 2 ^ 53
  · rw [rounded_of_lt hn, rounded_of_lt (h.trans_lt hn)]
    exact h
  · have hn : 2 ^ 53 ≤ n := Nat.le_of_not_lt hn
    by_cases hm : m < 2 ^ 53
    · have hlog : 53 ≤ n.log2 := (Nat.le_log2 (by omega)).mpr hn
      calc rounded m = m := rounded_of_lt hm
        _ ≤ 2 ^ 53 := hm.le
        _ ≤ 2 ^ n.log2 := Nat.pow_le_pow_right (by decide) hlog
        _ ≤ rounded n := two_pow_log2_le_rounded hn
    · have hm : 2 ^ 53 ≤ m := Nat.le_of_not_lt hm
      rcases Nat.lt_or_eq_of_le (log2_mono h) with hlt | heq
      · calc rounded m ≤ 2 ^ (m.log2 + 1) := rounded_le_two_pow hm
          _ ≤ 2 ^ n.log2 := Nat.pow_le_pow_right (by decide) hlt
          _ ≤ rounded n := two_pow_log2_le_rounded hn
      · have hexcess : excess m = excess n := by rw [excess, excess, heq]
        rw [rounded, rounded, hexcess]
        exact Nat.mul_le_mul_right _ (roundShift_mono h _)

/-- A number up to a finite one has a double up to its double. -/
theorem exists_binary64_le {m n y : Nat} (h : m ≤ n) (hn : binary64 n = some y) :
    ∃ x, binary64 m = some x ∧ x ≤ y := by
  rw [binary64_eq] at hn
  split at hn
  · rename_i hfinite
    obtain rfl := Option.some.inj hn
    have hle := rounded_mono h
    refine ⟨rounded m, ?_, hle⟩
    rw [binary64_eq, if_pos ((log2_mono hle).trans_lt hfinite)]
  · cases hn

/-! ## Numerals without leading zeros -/

/-- A numeral of decimal digits that does not start with a superfluous zero. -/
def IsCanonical (digits : List Char) : Prop :=
  digits ≠ [] ∧ digits.all Char.isDigit = true ∧ (digits.head? = some '0' → digits = ['0'])

instance (digits : List Char) : Decidable (IsCanonical digits) :=
  inferInstanceAs (Decidable (_ ∧ _ ∧ _))

theorem IsCanonical.isDigit {digits : List Char} (h : IsCanonical digits) :
    ∀ c ∈ digits, c.isDigit = true :=
  List.all_eq_true.mp h.2.1

private theorem toNat_of_isDigit {c : Char} (h : c.isDigit = true) :
    0x30 ≤ c.toNat ∧ c.toNat ≤ 0x39 := by
  simpa [Char.isDigit, Char.le_def, UInt32.le_iff_toNat_le] using h

/-- The value of a numeral, from Mathlib's digits. -/
theorem decimalValue_eq_ofDigits (digits : List Char) :
    decimalValue digits = Nat.ofDigits 10 (digits.reverse.map (fun c => c.toNat - 0x30)) := by
  have hfold : ∀ acc, digits.foldl (fun n c => n * 10 + (c.toNat - 0x30)) acc =
      acc * 10 ^ digits.length +
        Nat.ofDigits 10 (digits.reverse.map (fun c => c.toNat - 0x30)) := by
    induction digits with
    | nil => intro acc; simp
    | cons c digits ih =>
        intro acc
        rw [List.foldl_cons, ih]
        simp only [List.length_cons, List.reverse_cons, List.map_append, List.map_cons,
          List.map_nil, Nat.ofDigits_append, Nat.ofDigits_singleton, List.length_map,
          List.length_reverse]
        ring
  rw [decimalValue, hfold]
  simp

/-- The digits of a numeral, least significant first. -/
private def digitsOf (digits : List Char) : List Nat :=
  digits.reverse.map (fun c => c.toNat - 0x30)

private theorem digitsOf_lt {s : List Char} (hs : IsCanonical s) :
    ∀ d ∈ digitsOf s, d < 10 := by
  intro d hd
  obtain ⟨c, hc, hdc⟩ := List.mem_map.mp hd
  have := toNat_of_isDigit (hs.isDigit c (List.mem_reverse.mp hc))
  omega

private theorem ofNat_digitsOf {s : List Char} (hs : IsCanonical s) :
    ((digitsOf s).map (fun d => Char.ofNat (d + 0x30))).reverse = s := by
  have hchar : ∀ c ∈ s.reverse, Char.ofNat (c.toNat - 0x30 + 0x30) = c := by
    intro c hc
    have := toNat_of_isDigit (hs.isDigit c (List.mem_reverse.mp hc))
    rw [show c.toNat - 0x30 + 0x30 = c.toNat by omega, Char.ofNat_toNat]
  have hmap : (digitsOf s).map (fun d => Char.ofNat (d + 0x30)) = s.reverse := by
    rw [digitsOf, List.map_map]
    exact (List.map_congr_left hchar).trans (List.map_id _)
  rw [hmap, List.reverse_reverse]

/-- Apart from `0` itself, a numeral without leading zeros lists the digits of its value. -/
private theorem IsCanonical.digits_eq {s : List Char} (hs : IsCanonical s) (h0 : s ≠ ['0']) :
    Nat.digits 10 (decimalValue s) = digitsOf s := by
  rw [decimalValue_eq_ofDigits]
  refine Nat.digits_ofDigits 10 (by omega) _ (digitsOf_lt hs) ?_
  intro hne
  obtain ⟨c, rest, rfl⟩ := List.exists_cons_of_ne_nil hs.1
  have hc : c ≠ '0' := fun hc => h0 (hs.2.2 (by simp [hc]))
  have hdigit := toNat_of_isDigit (hs.isDigit c List.mem_cons_self)
  have hcode : c.toNat ≠ 0x30 := fun h => hc (Char.toNat_inj.mp h)
  simp only [List.reverse_cons, List.map_append, List.map_cons, List.map_nil,
    List.getLast_append_singleton]
  omega

private theorem IsCanonical.eq_zero {s : List Char} (hs : IsCanonical s)
    (h : decimalValue s = 0) : s = ['0'] := by
  by_contra h0
  have hdigits := hs.digits_eq h0
  rw [h, Nat.digits_zero, digitsOf, eq_comm, List.map_eq_nil_iff,
    List.reverse_eq_nil_iff] at hdigits
  exact hs.1 hdigits

/-- Two numerals without leading zeros that denote one number are equal. -/
theorem IsCanonical.eq_of_decimalValue {s t : List Char} (hs : IsCanonical s)
    (ht : IsCanonical t) (h : decimalValue s = decimalValue t) : s = t := by
  by_cases hzero : decimalValue s = 0
  · rw [hs.eq_zero hzero, ht.eq_zero (h ▸ hzero)]
  · have hs0 : s ≠ ['0'] := fun hs0 => hzero (by rw [hs0]; rfl)
    have ht0 : t ≠ ['0'] := fun ht0 => hzero (by rw [h, ht0]; rfl)
    rw [← ofNat_digitsOf hs, ← hs.digits_eq hs0, h, ht.digits_eq ht0, ofNat_digitsOf ht]

end Foundation
