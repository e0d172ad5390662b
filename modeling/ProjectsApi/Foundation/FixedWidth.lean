import Mathlib.Data.List.Lex
import Mathlib.Data.Nat.Digits.Defs
import Mathlib.Tactic.IntervalCases
import Mathlib.Tactic.Linarith

/-!
# Fixed-width texts and their order

Zero-padded decimal numerals of one width compare, as texts, like the numbers
they denote; and of two texts cut into fields of equal widths the first field
that differs decides the comparison.  Together these give the order of any
record written as a sequence of fixed-width fields.
-/

namespace Foundation

section Append

variable {α : Type*} [LT α]

/-- With first fields of one length, the first field decides unless equal. -/
theorem append_lt_append_iff {a b x y : List α} (h : a.length = b.length) :
    a ++ x < b ++ y ↔ a < b ∨ a = b ∧ x < y := by
  induction a generalizing b with
  | nil =>
      obtain rfl : b = [] := List.eq_nil_of_length_eq_zero h.symm
      simp
  | cons c a ih =>
      cases b with
      | nil => simp at h
      | cons d b =>
          have hlen : a.length = b.length := by simpa using h
          simp only [List.cons_append, List.cons_lt_cons_iff, ih hlen,
            List.cons.injEq]
          constructor
          · rintro (hcd | ⟨rfl, hab | ⟨rfl, hxy⟩⟩)
            · exact Or.inl (Or.inl hcd)
            · exact Or.inl (Or.inr ⟨rfl, hab⟩)
            · exact Or.inr ⟨⟨rfl, rfl⟩, hxy⟩
          · rintro ((hcd | ⟨rfl, hab⟩) | ⟨⟨rfl, rfl⟩, hxy⟩)
            · exact Or.inl hcd
            · exact Or.inr ⟨rfl, Or.inl hab⟩
            · exact Or.inr ⟨rfl, Or.inr ⟨rfl, hxy⟩⟩

/-- A common prefix is irrelevant to the comparison. -/
theorem append_lt_append_left_iff [Std.Irrefl fun x y : α => x < y] (a x y : List α) :
    a ++ x < a ++ y ↔ x < y := by
  rw [append_lt_append_iff rfl]
  constructor
  · rintro (h | ⟨-, h⟩)
    · exact absurd h (List.lt_irrefl a)
    · exact h
  · exact fun h => Or.inr ⟨rfl, h⟩

/-- A common separator between two fields is irrelevant to the comparison. -/
theorem append_cons_lt_append_cons_iff [Std.Irrefl fun x y : α => x < y]
    {a b x y : List α} (c : α) (h : a.length = b.length) :
    a ++ c :: x < b ++ c :: y ↔ a < b ∨ a = b ∧ x < y := by
  have hc : ¬ c < c := Std.Irrefl.irrefl (r := fun x y : α => x < y) c
  rw [append_lt_append_iff h, List.cons_lt_cons_iff]
  simp [hc]

end Append

/-- Two pairs compare alike if they are ordered alike. -/
theorem cmp_eq_cmp_of_lt_iff {α β : Type*} [LT α] [DecidableLT α] [LT β] [DecidableLT β]
    {a b : α} {x y : β} (h : a < b ↔ x < y) (h' : b < a ↔ y < x) : cmp a b = cmp x y := by
  simp only [cmp, cmpUsing, h, h']

/-- Numbers with a last digit to the base `n` compare by the digits before it, then by it. -/
theorem mul_add_lt_mul_add_iff {n a b r s : Nat} (hr : r < n) (hs : s < n) :
    a * n + r < b * n + s ↔ a < b ∨ a = b ∧ r < s := by
  constructor
  · intro h
    rcases Nat.lt_trichotomy a b with hlt | rfl | hgt
    · exact Or.inl hlt
    · exact Or.inr ⟨rfl, by omega⟩
    · have hle : (b + 1) * n ≤ a * n := Nat.mul_le_mul_right n hgt
      rw [Nat.succ_mul] at hle
      omega
  · rintro (hlt | ⟨rfl, hlt⟩)
    · have hle : (a + 1) * n ≤ b * n := Nat.mul_le_mul_right n hlt
      rw [Nat.succ_mul] at hle
      omega
    · omega

/-! ## Zero-padded decimal numerals -/

/-- The last `width` decimal digits of `n`, most significant first. -/
def decimalDigits : (width : Nat) → Nat → List Char
  | 0, _ => []
  | width + 1, n => Nat.digitChar (n / 10 ^ width % 10) :: decimalDigits width n

@[simp] theorem decimalDigits_length (width n : Nat) :
    (decimalDigits width n).length = width := by
  induction width with
  | zero => rfl
  | succ width ih => simp [decimalDigits, ih]

private theorem digitChar_lt_iff : ∀ a b : Fin 10,
    Nat.digitChar a < Nat.digitChar b ↔ a < b := by
  decide

private theorem digitChar_inj : ∀ a b : Fin 10,
    Nat.digitChar a = Nat.digitChar b ↔ a = b := by
  decide

private theorem digitChar_isDigit : ∀ a : Fin 10, (Nat.digitChar a).isDigit = true := by
  decide

/-- Numerals are made of decimal digits only. -/
theorem isDigit_of_mem_decimalDigits {width n : Nat} {c : Char}
    (h : c ∈ decimalDigits width n) : c.isDigit = true := by
  induction width with
  | zero => simp [decimalDigits] at h
  | succ width ih =>
      rcases List.mem_cons.mp h with rfl | h
      · exact digitChar_isDigit ⟨n / 10 ^ width % 10, Nat.mod_lt _ (by omega)⟩
      · exact ih h

/-- Only the last `width` digits of a number matter. -/
theorem decimalDigits_mod (width n : Nat) {k : Nat} (hk : width ≤ k) :
    decimalDigits width (n % 10 ^ k) = decimalDigits width n := by
  induction width with
  | zero => rfl
  | succ width ih =>
      simp only [decimalDigits, ih (by omega)]
      congr 2
      obtain ⟨m, rfl⟩ := Nat.exists_eq_add_of_le hk
      rw [show 10 ^ (width + 1 + m) = 10 ^ width * (10 * 10 ^ m) by ring,
        Nat.mod_mul_right_div_self, Nat.mod_mul_right_mod]

/-- Numerals of one width compare like the numbers they denote. -/
theorem decimalDigits_lt_iff (width : Nat) {n m : Nat} (hn : n < 10 ^ width)
    (hm : m < 10 ^ width) :
    decimalDigits width n < decimalDigits width m ↔ n < m := by
  induction width generalizing n m with
  | zero =>
      obtain rfl : n = 0 := by simpa using hn
      obtain rfl : m = 0 := by simpa using hm
      simp [decimalDigits]
  | succ width ih =>
      have hpos : 0 < 10 ^ width := Nat.pow_pos (by omega)
      have hhead : ∀ k, k < 10 ^ (width + 1) → k / 10 ^ width < 10 := by
        intro k hk
        rw [Nat.div_lt_iff_lt_mul hpos]
        rwa [pow_succ, mul_comm] at hk
      have hnq := hhead n hn
      have hmq := hhead m hm
      have hlt := digitChar_lt_iff ⟨n / 10 ^ width, hnq⟩ ⟨m / 10 ^ width, hmq⟩
      have heq := digitChar_inj ⟨n / 10 ^ width, hnq⟩ ⟨m / 10 ^ width, hmq⟩
      have htail := ih (Nat.mod_lt n hpos) (Nat.mod_lt m hpos)
      rw [decimalDigits_mod width n le_rfl, decimalDigits_mod width m le_rfl] at htail
      simp only [Fin.mk_lt_mk, Fin.mk.injEq] at hlt heq
      simp only [decimalDigits, List.cons_lt_cons_iff, Nat.mod_eq_of_lt hnq,
        Nat.mod_eq_of_lt hmq, hlt, heq, htail]
      have hnsplit := Nat.div_add_mod n (10 ^ width)
      have hmsplit := Nat.div_add_mod m (10 ^ width)
      have hnr := Nat.mod_lt n hpos
      have hmr := Nat.mod_lt m hpos
      -- the leading digits decide, or they agree and the remaining ones do
      constructor
      · rintro (hq | ⟨hq, hr⟩)
        · calc n < 10 ^ width * (n / 10 ^ width) + 10 ^ width := by omega
            _ = 10 ^ width * (n / 10 ^ width + 1) := by ring
            _ ≤ 10 ^ width * (m / 10 ^ width) := Nat.mul_le_mul_left _ hq
            _ ≤ m := Nat.mul_div_le m (10 ^ width)
        · rw [hq] at hnsplit
          omega
      · intro hnm
        rcases Nat.lt_or_ge (n / 10 ^ width) (m / 10 ^ width) with hq | hq
        · exact Or.inl hq
        · have hq' : n / 10 ^ width = m / 10 ^ width :=
            le_antisymm (Nat.div_le_div_right hnm.le) hq
          refine Or.inr ⟨hq', ?_⟩
          rw [hq'] at hnsplit
          omega

theorem decimalDigits_inj (width : Nat) {n m : Nat} (hn : n < 10 ^ width)
    (hm : m < 10 ^ width) :
    decimalDigits width n = decimalDigits width m ↔ n = m := by
  constructor
  · intro h
    rcases Nat.lt_trichotomy n m with hlt | heq | hlt
    · exact absurd ((decimalDigits_lt_iff width hn hm).mpr hlt) (h ▸ List.lt_irrefl _)
    · exact heq
    · exact absurd ((decimalDigits_lt_iff width hm hn).mpr hlt) (h ▸ List.lt_irrefl _)
  · rintro rfl
    rfl

theorem decimalDigits_order (width : Nat) {n m : Nat} (hn : n < 10 ^ width)
    (hm : m < 10 ^ width) :
    (decimalDigits width n < decimalDigits width m ↔ n < m) ∧
      (decimalDigits width n = decimalDigits width m ↔ n = m) :=
  ⟨decimalDigits_lt_iff width hn hm, decimalDigits_inj width hn hm⟩

/-- The number a decimal numeral denotes. -/
def decimalValue (digits : List Char) : Nat :=
  digits.foldl (fun n c => n * 10 + (c.toNat - 0x30)) 0

private theorem digitChar_value : ∀ a : Fin 10, (Nat.digitChar a).toNat - 0x30 = a := by
  decide

/-- A numeral wide enough denotes its number. -/
theorem decimalValue_decimalDigits (width : Nat) {n : Nat} (hn : n < 10 ^ width) :
    decimalValue (decimalDigits width n) = n := by
  have hfold : ∀ width acc, (decimalDigits width n).foldl
      (fun n c => n * 10 + (c.toNat - 0x30)) acc = acc * 10 ^ width + n % 10 ^ width := by
    intro width
    induction width with
    | zero => intro acc; simp [decimalDigits, Nat.mod_one]
    | succ width ih =>
        intro acc
        have hdigit := digitChar_value ⟨n / 10 ^ width % 10, Nat.mod_lt _ (by omega)⟩
        have hsplit : n % 10 ^ (width + 1) =
            n / 10 ^ width % 10 * 10 ^ width + n % 10 ^ width := by
          rw [pow_succ, Nat.mod_mul, Nat.mul_comm (10 ^ width), Nat.add_comm]
        dsimp only at hdigit
        rw [decimalDigits, List.foldl_cons, hdigit, ih, hsplit]
        ring
  rw [decimalValue, hfold, Nat.zero_mul, Nat.zero_add, Nat.mod_eq_of_lt hn]

end Foundation
