import Mathlib.Algebra.Group.Nat.Defs
import Mathlib.Data.List.DropRight
import Mathlib.Data.List.Basic

/-!
# URL-safe base64

The encoder of `base64.urlsafe_b64encode` and the decoder of
`base64.urlsafe_b64decode` as CPython runs it: the URL-safe characters are
translated to the standard alphabet, and `binascii.a2b_base64` then reads the
text one character at a time in its lenient mode, which skips every character
outside the alphabet and stops at the padding of a full quadruple.

`urlsafeB64decode_repad` is the round trip through a text whose padding was
stripped and added again from the length.
-/

namespace Foundation

/-! ## Encoding -/

/-- The six-bit groups of a byte string, without padding. -/
def sextets : List Nat → List Nat
  | a :: b :: c :: rest =>
      a / 4 :: (a % 4 * 16 + b / 16) :: (b % 16 * 4 + c / 64) :: c % 64 :: sextets rest
  | [a, b] => [a / 4, a % 4 * 16 + b / 16, b % 16 * 4]
  | [a] => [a / 4, a % 4 * 16]
  | [] => []

/-- The URL-safe alphabet. -/
def sextetChar (n : Nat) : Char :=
  if n < 26 then Char.ofNat (0x41 + n)
  else if n < 52 then Char.ofNat (0x61 + (n - 26))
  else if n < 62 then Char.ofNat (0x30 + (n - 52))
  else if n = 62 then '-'
  else '_'

/-- `base64.urlsafe_b64encode`. -/
def urlsafeB64encode (bytes : List Nat) : List Char :=
  (sextets bytes).map sextetChar ++ List.replicate ((3 - bytes.length % 3) % 3) '='

theorem sextets_lt {bytes : List Nat} (h : ∀ b ∈ bytes, b < 256) :
    ∀ s ∈ sextets bytes, s < 64 := by
  fun_induction sextets bytes with
  | case1 a b c rest ih =>
      have ha := h a (by simp)
      have hb := h b (by simp)
      have hc := h c (by simp)
      intro s hs
      simp only [List.mem_cons] at hs
      rcases hs with rfl | rfl | rfl | rfl | hs
      · omega
      · omega
      · omega
      · omega
      · exact ih (fun d hd => h d (by simp [hd])) s hs
  | case2 a b =>
      have ha := h a (by simp)
      have hb := h b (by simp)
      intro s hs
      simp only [List.mem_cons, List.not_mem_nil, or_false] at hs
      omega
  | case3 a =>
      have ha := h a (by simp)
      intro s hs
      simp only [List.mem_cons, List.not_mem_nil, or_false] at hs
      omega
  | case4 => simp

theorem sextets_length (bytes : List Nat) :
    (sextets bytes).length = (4 * bytes.length + 2) / 3 := by
  fun_induction sextets bytes with
  | case1 a b c rest ih =>
      simp only [List.length_cons, ih]
      omega
  | case2 a b => simp
  | case3 a => simp
  | case4 => simp

/-! ## Decoding -/

/-- `_urlsafe_decode_translation`. -/
def urlsafeTranslate (c : Char) : Char :=
  if c = '-' then '+' else if c = '_' then '/' else c

/-- `table_a2b_base64`, with `none` for a character outside the alphabet. -/
def sextet? (c : Char) : Option Nat :=
  if 'A' ≤ c ∧ c ≤ 'Z' then some (c.toNat - 0x41)
  else if 'a' ≤ c ∧ c ≤ 'z' then some (c.toNat - 0x61 + 26)
  else if '0' ≤ c ∧ c ≤ '9' then some (c.toNat - 0x30 + 52)
  else if c = '+' then some 62
  else if c = '/' then some 63
  else none

/-- The loop of `binascii.a2b_base64`: `quad` is the position in the current
quadruple, `left` the bits of it not yet written, `pads` the padding characters
just read.  `none` is a `binascii.Error`. -/
def a2bBase64 (quad left pads : Nat) : List Char → Option (List Nat)
  | [] => if quad = 0 then some [] else none
  | c :: cs =>
      if c = '=' then
        if 2 ≤ quad then
          if 4 ≤ quad + (pads + 1) then some [] else a2bBase64 quad left (pads + 1) cs
        else a2bBase64 quad left pads cs
      else
        match sextet? c with
        | none => a2bBase64 quad left pads cs
        | some v =>
            match quad with
            | 0 => a2bBase64 1 v 0 cs
            | 1 => (a2bBase64 2 (v % 16) 0 cs).map ((left * 4 + v / 16) :: ·)
            | 2 => (a2bBase64 3 (v % 4) 0 cs).map ((left * 16 + v / 4) :: ·)
            | _ => (a2bBase64 0 0 0 cs).map ((left * 64 + v) :: ·)

/-- `base64.urlsafe_b64decode` of a `str`; `none` is a `ValueError`. -/
def urlsafeB64decode (text : List Char) : Option (List Nat) :=
  if text.all fun c => c.toNat < 128 then a2bBase64 0 0 0 (text.map urlsafeTranslate)
  else none

/-! ## Round trip -/

private theorem sextetChar_facts : ∀ n : Fin 64,
    sextet? (urlsafeTranslate (sextetChar n)) = some n.val ∧
      urlsafeTranslate (sextetChar n) ≠ '=' ∧ sextetChar n ≠ '=' ∧
      (sextetChar n).toNat < 128 := by
  decide

theorem sextet?_sextetChar {n : Nat} (h : n < 64) :
    sextet? (urlsafeTranslate (sextetChar n)) = some n :=
  (sextetChar_facts ⟨n, h⟩).1

theorem sextetChar_ne_pad {n : Nat} (h : n < 64) : sextetChar n ≠ '=' :=
  (sextetChar_facts ⟨n, h⟩).2.2.1

theorem sextet?_lt {c : Char} {n : Nat} (h : sextet? c = some n) : n < 64 := by
  unfold sextet? at h
  simp only [Char.le_def, UInt32.le_iff_toNat_le] at h
  change (if 0x41 ≤ c.toNat ∧ c.toNat ≤ 0x5A then some (c.toNat - 0x41)
    else if 0x61 ≤ c.toNat ∧ c.toNat ≤ 0x7A then some (c.toNat - 0x61 + 26)
    else if 0x30 ≤ c.toNat ∧ c.toNat ≤ 0x39 then some (c.toNat - 0x30 + 52) else _) = some n at h
  split_ifs at h <;> · obtain rfl := Option.some.inj h; omega

/-- The decoder writes bytes: the bits it keeps complete the quadruple. -/
theorem a2bBase64_lt {quad left pads : Nat} {cs : List Char} {bytes : List Nat}
    (hleft : left < 4 ^ (4 - quad)) (h : a2bBase64 quad left pads cs = some bytes) :
    ∀ b ∈ bytes, b < 256 := by
  induction cs generalizing quad left pads bytes with
  | nil =>
      unfold a2bBase64 at h
      split_ifs at h
      obtain rfl := Option.some.inj h
      simp
  | cons c cs ih =>
      rw [a2bBase64] at h
      split_ifs at h
      · obtain rfl := Option.some.inj h
        simp
      · exact ih hleft h
      · exact ih hleft h
      · split at h
        · exact ih hleft h
        · rename_i v hv
          have hv := sextet?_lt hv
          split at h
          · exact ih (by omega) h
          · obtain ⟨after, hafter, rfl⟩ := Option.map_eq_some_iff.mp h
            exact List.forall_mem_cons.mpr ⟨by omega, ih (by omega) hafter⟩
          · obtain ⟨after, hafter, rfl⟩ := Option.map_eq_some_iff.mp h
            exact List.forall_mem_cons.mpr ⟨by omega, ih (by omega) hafter⟩
          · rename_i hfirst hsecond hthird
            have hquad : 4 - quad ≤ 1 := by
              have h₀ : quad ≠ 0 := hfirst
              have h₁ : quad ≠ 1 := hsecond
              have h₂ : quad ≠ 2 := hthird
              omega
            have hlast : left < 4 ^ 1 :=
              lt_of_lt_of_le hleft (Nat.pow_le_pow_right (by omega) hquad)
            obtain ⟨after, hafter, rfl⟩ := Option.map_eq_some_iff.mp h
            exact List.forall_mem_cons.mpr ⟨by omega, ih (by omega) hafter⟩

theorem urlsafeB64decode_lt {text : List Char} {bytes : List Nat}
    (h : urlsafeB64decode text = some bytes) : ∀ b ∈ bytes, b < 256 := by
  unfold urlsafeB64decode at h
  split_ifs at h
  exact a2bBase64_lt (by omega) h

/-! One character of the alphabet is read as its six bits, at each position of a quadruple. -/

section Positions

variable {left pads n : Nat} {cs : List Char}

private theorem a2bBase64_first (h : n < 64) :
    a2bBase64 0 left pads (urlsafeTranslate (sextetChar n) :: cs) = a2bBase64 1 n 0 cs := by
  rw [a2bBase64, if_neg (sextetChar_facts ⟨n, h⟩).2.1, sextet?_sextetChar h]
  rfl

private theorem a2bBase64_second (h : n < 64) :
    a2bBase64 1 left pads (urlsafeTranslate (sextetChar n) :: cs) =
      (a2bBase64 2 (n % 16) 0 cs).map ((left * 4 + n / 16) :: ·) := by
  rw [a2bBase64, if_neg (sextetChar_facts ⟨n, h⟩).2.1, sextet?_sextetChar h]
  rfl

private theorem a2bBase64_third (h : n < 64) :
    a2bBase64 2 left pads (urlsafeTranslate (sextetChar n) :: cs) =
      (a2bBase64 3 (n % 4) 0 cs).map ((left * 16 + n / 4) :: ·) := by
  rw [a2bBase64, if_neg (sextetChar_facts ⟨n, h⟩).2.1, sextet?_sextetChar h]
  rfl

private theorem a2bBase64_fourth (h : n < 64) :
    a2bBase64 3 left pads (urlsafeTranslate (sextetChar n) :: cs) =
      (a2bBase64 0 0 0 cs).map ((left * 64 + n) :: ·) := by
  rw [a2bBase64, if_neg (sextetChar_facts ⟨n, h⟩).2.1, sextet?_sextetChar h]
  rfl

end Positions

/-- The padding that completes the last quadruple. -/
def padding (length : Nat) : List Char :=
  List.replicate ((4 - length % 4) % 4) '='

/-! ### Groups and their bytes -/

/-- The bytes of a sequence of groups; a group alone in its quadruple has none. -/
def groupBytes : List Nat → Option (List Nat)
  | x :: y :: z :: w :: rest => (groupBytes rest).map fun bytes =>
      (x * 4 + y / 16) :: (y % 16 * 16 + z / 4) :: (z % 4 * 64 + w) :: bytes
  | [x, y, z] => some [x * 4 + y / 16, y % 16 * 16 + z / 4]
  | [x, y] => some [x * 4 + y / 16]
  | [_] => none
  | [] => some []

/-- The bits of the last group that belong to no byte. -/
def unusedBits : List Nat → Nat
  | _ :: _ :: _ :: _ :: rest => unusedBits rest
  | [_, _, z] => z % 4
  | [_, y] => y % 16
  | _ => 0

/-- The decoder on groups with padding up to a multiple of four. -/
private theorem a2bBase64_groups {groups : List Nat} (h : ∀ s ∈ groups, s < 64) {n : Nat}
    (hn : (groups.length + n) % 4 = 0) :
    a2bBase64 0 0 0 (groups.map (fun s => urlsafeTranslate (sextetChar s)) ++
      List.replicate n '=') = groupBytes groups := by
  fun_induction groupBytes groups with
  | case1 x y z w rest ih =>
      have hrest := ih (fun s hs => h s (by simp [hs])) (by simp at hn; omega)
      simp only [List.map_cons, List.cons_append]
      rw [a2bBase64_first (h x (by simp)), a2bBase64_second (h y (by simp)),
        a2bBase64_third (h z (by simp)), a2bBase64_fourth (h w (by simp)), hrest,
        Option.map_map, Option.map_map]
      rfl
  | case2 x y z =>
      obtain ⟨n, rfl⟩ : ∃ k, n = k + 1 := ⟨n - 1, by simp at hn; omega⟩
      simp only [List.map_cons, List.map_nil, List.cons_append, List.nil_append,
        List.replicate_succ]
      rw [a2bBase64_first (h x (by simp)), a2bBase64_second (h y (by simp)),
        a2bBase64_third (h z (by simp))]
      simp [a2bBase64]
  | case3 x y =>
      obtain ⟨n, rfl⟩ : ∃ k, n = k + 2 := ⟨n - 2, by simp at hn; omega⟩
      simp only [List.map_cons, List.map_nil, List.cons_append, List.nil_append,
        List.replicate_succ]
      rw [a2bBase64_first (h x (by simp)), a2bBase64_second (h y (by simp))]
      simp [a2bBase64]
  | case4 x =>
      -- a group alone in its quadruple: the padding behind it is never complete
      simp only [List.map_cons, List.map_nil, List.cons_append, List.nil_append]
      rw [a2bBase64_first (h x (by simp))]
      clear hn
      induction n with
      | zero => rfl
      | succ n ih => simpa [List.replicate_succ, a2bBase64] using ih
  | case5 =>
      clear hn
      simp only [List.map_nil, List.nil_append]
      induction n with
      | zero => rfl
      | succ n ih => simpa [List.replicate_succ, a2bBase64] using ih

private theorem groupBytes_pair {a n : Nat} (hn : n < 16) :
    groupBytes [a / 4, a % 4 * 16 + n] = some [a] := by
  simp only [groupBytes, Option.some.injEq, List.cons.injEq, and_true]
  omega

private theorem groupBytes_triple {a b n : Nat} (hb : b < 256) (hn : n < 4) :
    groupBytes [a / 4, a % 4 * 16 + b / 16, b % 16 * 4 + n] = some [a, b] := by
  simp only [groupBytes, Option.some.injEq, List.cons.injEq, and_true]
  omega

theorem groupBytes_sextets {bytes : List Nat} (h : ∀ b ∈ bytes, b < 256) :
    groupBytes (sextets bytes) = some bytes := by
  -- three bytes at a time; the last one or two are the shared lemmas without unused bits
  fun_induction sextets bytes with
  | case1 a b c rest ih =>
      have ha := h a (by simp)
      have hb := h b (by simp)
      have hc := h c (by simp)
      rw [groupBytes, ih fun d hd => h d (by simp [hd])]
      simp only [Option.map_some, Option.some.injEq, List.cons.injEq, and_true]
      omega
  | case2 a b => exact groupBytes_triple (n := 0) (h b (by simp)) (by decide)
  | case3 a => exact groupBytes_pair (n := 0) (by decide)
  | case4 => rfl

/-- The groups of an encoding that stops early carry the bytes that are complete. -/
theorem groupBytes_take {bytes : List Nat} (h : ∀ b ∈ bytes, b < 256) (m : Nat)
    (hm : m ≤ (sextets bytes).length) :
    groupBytes ((sextets bytes).take m) =
      if m % 4 = 1 then none else some (bytes.take (3 * m / 4)) := by
  fun_induction sextets bytes generalizing m with
  | case1 a b c rest ih =>
      have ha := h a (by simp)
      have hb := h b (by simp)
      have hc := h c (by simp)
      -- the cut is in the first quadruple or behind it
      match m with
      | 0 => rfl
      | 1 => rfl
      | 2 => exact groupBytes_pair (by omega)
      | 3 => exact groupBytes_triple hb (by omega)
      | m + 4 =>
          have hrest := ih (fun d hd => h d (by simp [hd])) m (by simpa using hm)
          have htake : 3 * (m + 4) / 4 = 3 * m / 4 + 3 := by omega
          simp only [List.take_succ_cons, groupBytes]
          rw [hrest, Nat.add_mod_right, htake]
          split_ifs
          · rfl
          · simp only [Option.map_some, Option.some.injEq, List.take_succ_cons, List.cons.injEq,
              and_true]
            omega
  | case2 a b =>
      have ha := h a (by simp)
      have hb := h b (by simp)
      match m, hm with
      | 0, _ => rfl
      | 1, _ => rfl
      | 2, _ => exact groupBytes_pair (by omega)
      | 3, _ => exact groupBytes_triple (n := 0) hb (by decide)
      | m + 4, hm =>
          simp only [List.length_cons, List.length_nil] at hm
          omega
  | case3 a =>
      have ha := h a (by simp)
      match m, hm with
      | 0, _ => rfl
      | 1, _ => rfl
      | 2, _ => exact groupBytes_pair (n := 0) (by decide)
      | m + 3, hm =>
          simp only [List.length_cons, List.length_nil] at hm
          omega
  | case4 =>
      obtain rfl : m = 0 := by simpa using hm
      rfl

/-- Groups without unused bits are those of their bytes. -/
theorem sextets_of_groupBytes {groups bytes : List Nat} (h : ∀ s ∈ groups, s < 64)
    (hunused : unusedBits groups = 0) (hbytes : groupBytes groups = some bytes) :
    sextets bytes = groups := by
  -- the unused bits are zero, so the bytes give the groups back
  fun_induction groupBytes groups generalizing bytes with
  | case1 x y z w rest ih =>
      have hx := h x (by simp)
      have hy := h y (by simp)
      have hz := h z (by simp)
      have hw := h w (by simp)
      obtain ⟨after, hafter, rfl⟩ := Option.map_eq_some_iff.mp hbytes
      rw [sextets, ih (fun s hs => h s (by simp [hs])) hunused hafter]
      simp only [List.cons.injEq, and_true]
      omega
  | case2 x y z =>
      have hx := h x (by simp)
      have hy := h y (by simp)
      have hz := h z (by simp)
      obtain rfl := Option.some.inj hbytes
      rw [unusedBits] at hunused
      simp only [sextets, List.cons.injEq, and_true]
      omega
  | case3 x y =>
      have hx := h x (by simp)
      have hy := h y (by simp)
      obtain rfl := Option.some.inj hbytes
      rw [unusedBits] at hunused
      simp only [sextets, List.cons.injEq, and_true]
      omega
  | case4 x => cases hbytes
  | case5 =>
      obtain rfl := Option.some.inj hbytes
      rfl

theorem unusedBits_sextets (bytes : List Nat) : unusedBits (sextets bytes) = 0 := by
  fun_induction sextets bytes with
  | case1 a b c rest ih => rwa [unusedBits]
  | case2 a b => simp [unusedBits]
  | case3 a => simp [unusedBits]
  | case4 => rfl

/-- Without its padding, an encoding is just the characters of its groups. -/
theorem rdropWhile_urlsafeB64encode {bytes : List Nat} (h : ∀ b ∈ bytes, b < 256) :
    (urlsafeB64encode bytes).rdropWhile (· == '=') = (sextets bytes).map sextetChar := by
  have hpads : ∀ (n : Nat) (l : List Char),
      (l ++ List.replicate n '=').rdropWhile (· == '=') = l.rdropWhile (· == '=') := by
    intro n l
    induction n with
    | zero => simp
    | succ n ih =>
        rw [List.replicate_succ', ← List.append_assoc, List.rdropWhile_concat_pos _ _ _ (by simp),
          ih]
  rw [urlsafeB64encode, hpads]
  -- the last character of a group is no padding
  rw [List.rdropWhile_eq_self_iff]
  intro hne
  have hmem := List.getLast_mem hne
  obtain ⟨n, hn, hlast⟩ := List.mem_map.mp hmem
  rw [← hlast]
  simpa using sextetChar_ne_pad (sextets_lt h n hn)

/-- The decoder on characters of groups, padded up to a multiple of four. -/
theorem urlsafeB64decode_groups {groups : List Nat} (h : ∀ s ∈ groups, s < 64) {n : Nat}
    (hn : (groups.length + n) % 4 = 0) :
    urlsafeB64decode (groups.map sextetChar ++ List.replicate n '=') = groupBytes groups := by
  -- what the decoder checks before it reads
  have hascii : (groups.map sextetChar ++ List.replicate n '=').all
      (fun c => c.toNat < 128) = true := by
    rw [List.all_append, Bool.and_eq_true, List.all_eq_true, List.all_eq_true]
    constructor
    · intro c hc
      obtain ⟨s, hs, rfl⟩ := List.mem_map.mp hc
      simpa using (sextetChar_facts ⟨s, h s hs⟩).2.2.2
    · intro c hc
      rw [List.eq_of_mem_replicate hc]
      decide
  have htranslate : (List.replicate n '=').map urlsafeTranslate = List.replicate n '=' := by
    simp [urlsafeTranslate]
  rw [urlsafeB64decode, if_pos hascii, List.map_append, htranslate, List.map_map]
  exact a2bBase64_groups h hn

/-- Padding completes a quadruple. -/
theorem length_add_padding (length : Nat) : (length + (4 - length % 4) % 4) % 4 = 0 := by
  omega

/-- Stripping the padding and adding it again from the length loses nothing. -/
theorem urlsafeB64decode_repad {bytes : List Nat} (h : ∀ b ∈ bytes, b < 256) :
    urlsafeB64decode ((sextets bytes).map sextetChar ++ padding (sextets bytes).length) =
      some bytes := by
  rw [padding, urlsafeB64decode_groups (sextets_lt h) (length_add_padding _),
    groupBytes_sextets h]

/-- A proper prefix of an encoding carries a proper prefix of the bytes, or is refused. -/
theorem urlsafeB64decode_take {bytes : List Nat} (h : ∀ b ∈ bytes, b < 256) {m : Nat}
    (hm : m < (sextets bytes).length) :
    urlsafeB64decode (((sextets bytes).map sextetChar).take m ++ padding m) = none ∨
      ∃ k < bytes.length,
        urlsafeB64decode (((sextets bytes).map sextetChar).take m ++ padding m) =
          some (bytes.take k) := by
  have hgroups : ∀ s ∈ (sextets bytes).take m, s < 64 :=
    fun s hs => sextets_lt h s (List.mem_of_mem_take hs)
  have hlength : ((sextets bytes).take m).length = m := by
    rw [List.length_take, min_eq_left hm.le]
  -- the padding fits the length of the prefix, not that of the whole
  rw [← List.map_take, padding, urlsafeB64decode_groups hgroups (by rw [hlength]; omega),
    groupBytes_take h m hm.le]
  rw [sextets_length] at hm
  split_ifs
  · exact Or.inl rfl
  · exact Or.inr ⟨3 * m / 4, by omega, rfl⟩

end Foundation
