import Mathlib.Data.Char
import Mathlib.Data.List.Basic
import Mathlib.Data.String.Basic

/-!
# Texts of code points, and their encodings

A Python `str` is a sequence of code points, which may include surrogates; a
`String` of Lean never does.  Code points and bytes are natural numbers here.
The decoders are those of CPython with the error handler `surrogatepass`: they
accept an encoded surrogate and refuse every other malformed sequence.
-/

namespace Foundation

/-- A sequence of code points, surrogates allowed. -/
abbrev CodePoints : Type := List Nat

/-- The code points of a `String`. -/
def codePoints (s : String) : CodePoints :=
  s.toList.map Char.toNat

@[simp] theorem codePoints_append (s t : String) :
    codePoints (s ++ t) = codePoints s ++ codePoints t := by
  simp [codePoints]

theorem codePoints_injective : Function.Injective codePoints := by
  intro s t h
  apply String.toList_inj.mp
  exact List.map_injective_iff.mpr (fun c d hcd => Char.toNat_inj.mp hcd) h

@[simp] theorem codePoints_inj {s t : String} : codePoints s = codePoints t ↔ s = t :=
  codePoints_injective.eq_iff

@[simp] theorem codePoints_length (s : String) : (codePoints s).length = s.length := by
  rw [codePoints, List.length_map, String.length_toList]

/-- Texts compare by their code points. -/
theorem codePoints_lt_iff {s t : String} : codePoints s < codePoints t ↔ s < t := by
  rw [String.lt_iff_toList_lt, codePoints, codePoints]
  generalize s.toList = cs, t.toList = ds
  induction cs generalizing ds with
  | nil => cases ds <;> simp
  | cons c cs ih =>
      cases ds with
      | nil => simp
      | cons d ds =>
          have hlt : c.toNat < d.toNat ↔ c < d := Iff.rfl
          simp [List.cons_lt_cons_iff, ih, hlt, Char.toNat_inj]

/-- An ASCII character, by cases on its code. -/
theorem forall_ascii {p : Char → Prop} (h : ∀ n : Fin 128, p (Char.ofNat n)) {c : Char}
    (hc : c.toNat < 128) : p c := by
  have hn := h ⟨c.toNat, hc⟩
  rwa [Char.ofNat_toNat] at hn

/-- The letters and digits, by their codes. -/
theorem isAlphanum_iff {c : Char} : c.isAlphanum = true ↔
    (0x41 ≤ c.toNat ∧ c.toNat ≤ 0x5A ∨ 0x61 ≤ c.toNat ∧ c.toNat ≤ 0x7A) ∨
      0x30 ≤ c.toNat ∧ c.toNat ≤ 0x39 := by
  change ((decide ('A'.val ≤ c.val ∧ c.val ≤ 'Z'.val) ||
    (decide ('a'.val ≤ c.val) && decide (c.val ≤ 'z'.val))) ||
      (decide ('0'.val ≤ c.val) && decide (c.val ≤ '9'.val))) = true ↔ _
  simp only [Bool.or_eq_true, Bool.and_eq_true, decide_eq_true_eq, UInt32.le_iff_toNat_le]
  rfl

theorem toNat_lt_of_isAlphanum {c : Char} (h : c.isAlphanum = true) : c.toNat < 128 := by
  rw [isAlphanum_iff] at h
  omega

/-- A Unicode scalar value: a code point that is not a surrogate. -/
def IsScalar (c : Nat) : Prop :=
  c < 0xD800 ∨ 0xE000 ≤ c ∧ c ≤ 0x10FFFF

instance (c : Nat) : Decidable (IsScalar c) :=
  inferInstanceAs (Decidable (_ ∨ _))

theorem isScalar_of_mem_codePoints {s : String} {c : Nat} (h : c ∈ codePoints s) :
    IsScalar c := by
  obtain ⟨d, -, rfl⟩ := List.mem_map.mp h
  rcases d.valid with hlow | ⟨hhigh, hmax⟩
  · exact Or.inl hlow
  · exact Or.inr ⟨hhigh, Nat.le_of_lt_succ hmax⟩

def isHighSurrogate (c : Nat) : Bool := 0xD800 ≤ c && c ≤ 0xDBFF

def isLowSurrogate (c : Nat) : Bool := 0xDC00 ≤ c && c ≤ 0xDFFF

/-- The supplementary code point of a surrogate pair. -/
def joinPair (high low : Nat) : Nat :=
  0x10000 + (high - 0xD800) * 0x400 + (low - 0xDC00)

/-! ## UTF-8 -/

/-- Encoding of a scalar value; a surrogate is a `UnicodeEncodeError`. -/
def utf8EncodeChar (c : Nat) : Option (List Nat) :=
  if c < 0x80 then some [c]
  else if c < 0x800 then some [0xC0 + c / 0x40, 0x80 + c % 0x40]
  else if 0xD800 ≤ c ∧ c ≤ 0xDFFF then none
  else if c < 0x10000 then
    some [0xE0 + c / 0x1000, 0x80 + c / 0x40 % 0x40, 0x80 + c % 0x40]
  else some [0xF0 + c / 0x40000, 0x80 + c / 0x1000 % 0x40, 0x80 + c / 0x40 % 0x40,
    0x80 + c % 0x40]

def utf8Encode (text : CodePoints) : Option (List Nat) :=
  (text.mapM utf8EncodeChar).map List.flatten

/-- ASCII text is its own UTF-8 encoding. -/
theorem utf8Encode_ascii {text : CodePoints} (h : ∀ c ∈ text, c < 0x80) :
    utf8Encode text = some text := by
  have hmap : text.mapM utf8EncodeChar = some (text.map fun c => [c]) := by
    induction text with
    | nil => rfl
    | cons c text ih =>
        have hc : utf8EncodeChar c = some [c] := by
          simp [utf8EncodeChar, h c (by simp)]
        rw [List.mapM_cons, hc, ih (fun d hd => h d (by simp [hd]))]
        rfl
  rw [utf8Encode, hmap, Option.map_some, ← List.flatMap_def, List.flatMap_singleton']

private def isTail (b : Nat) : Bool := 0x80 ≤ b && b ≤ 0xBF

/-- Decoding; `none` is a `UnicodeDecodeError`. -/
def utf8Decode : List Nat → Option CodePoints
  | [] => some []
  | b :: rest =>
      if b < 0x80 then (utf8Decode rest).map (b :: ·)
      else if 0xC2 ≤ b && b ≤ 0xDF then
        match rest with
        | b₁ :: rest =>
            if isTail b₁ then
              (utf8Decode rest).map (((b - 0xC0) * 0x40 + (b₁ - 0x80)) :: ·)
            else none
        | [] => none
      else if 0xE0 ≤ b && b ≤ 0xEF then
        match rest with
        | b₁ :: b₂ :: rest =>
            if isTail b₁ && isTail b₂ && (b != 0xE0 || 0xA0 ≤ b₁) then
              (utf8Decode rest).map
                (((b - 0xE0) * 0x1000 + (b₁ - 0x80) * 0x40 + (b₂ - 0x80)) :: ·)
            else none
        | _ => none
      else if 0xF0 ≤ b && b ≤ 0xF4 then
        match rest with
        | b₁ :: b₂ :: b₃ :: rest =>
            if isTail b₁ && isTail b₂ && isTail b₃ && (b != 0xF0 || 0x90 ≤ b₁) &&
                (b != 0xF4 || b₁ ≤ 0x8F) then
              (utf8Decode rest).map
                (((b - 0xF0) * 0x40000 + (b₁ - 0x80) * 0x1000 + (b₂ - 0x80) * 0x40 +
                  (b₃ - 0x80)) :: ·)
            else none
        | _ => none
      else none

/-- ASCII bytes are their own UTF-8 decoding. -/
theorem utf8Decode_ascii {bytes : List Nat} (h : ∀ b ∈ bytes, b < 0x80) :
    utf8Decode bytes = some bytes := by
  induction bytes with
  | nil => rfl
  | cons b bytes ih =>
      have hb : b < 0x80 := h b (by simp)
      rw [utf8Decode.eq_def]
      simp only [hb, if_pos, ih (fun d hd => h d (by simp [hd])), Option.map_some]

/-! ## UTF-16 and UTF-32 -/

/-- Join the surrogate pairs of a sequence of 16-bit units; lone surrogates pass. -/
def joinUnits : List Nat → CodePoints
  | [] => []
  | [u] => [u]
  | u :: v :: rest =>
      if isHighSurrogate u && isLowSurrogate v then joinPair u v :: joinUnits rest
      else u :: joinUnits (v :: rest)

def units16 (bigEndian : Bool) : List Nat → Option (List Nat)
  | [] => some []
  | [_] => none
  | a :: b :: rest =>
      (units16 bigEndian rest).map ((if bigEndian then a * 0x100 + b else b * 0x100 + a) :: ·)

def utf16Decode (bigEndian : Bool) (bytes : List Nat) : Option CodePoints :=
  (units16 bigEndian bytes).map joinUnits

def utf32Decode (bigEndian : Bool) : List Nat → Option CodePoints
  | [] => some []
  | a :: b :: c :: d :: rest =>
      let code := if bigEndian then ((a * 0x100 + b) * 0x100 + c) * 0x100 + d
        else ((d * 0x100 + c) * 0x100 + b) * 0x100 + a
      if code ≤ 0x10FFFF then (utf32Decode bigEndian rest).map (code :: ·) else none
  | _ => none

/-! ## Decoders give code points -/

/-- A code point: a natural number in the range of Unicode, surrogates included. -/
def IsCodePoint (c : Nat) : Prop := c ≤ 0x10FFFF

theorem IsScalar.isCodePoint {c : Nat} (h : IsScalar c) : IsCodePoint c := by
  unfold IsCodePoint
  obtain hlow | ⟨-, hmax⟩ := h
  · omega
  · exact hmax

theorem joinPair_isCodePoint {u v : Nat} (hu : isHighSurrogate u = true)
    (hv : isLowSurrogate v = true) : IsCodePoint (joinPair u v) := by
  simp only [isHighSurrogate, isLowSurrogate, Bool.and_eq_true, decide_eq_true_eq] at hu hv
  unfold IsCodePoint joinPair
  omega

theorem utf8Decode_isCodePoint {bytes : List Nat} {text : CodePoints}
    (h : utf8Decode bytes = some text) : ∀ c ∈ text, IsCodePoint c := by
  have hcons : ∀ {rest : List Nat} {code : Nat} {text : CodePoints},
      (∀ text, utf8Decode rest = some text → ∀ c ∈ text, IsCodePoint c) → IsCodePoint code →
      (utf8Decode rest).map (code :: ·) = some text → ∀ c ∈ text, IsCodePoint c := by
    intro rest code text ih hcode hmap
    obtain ⟨text', htext', rfl⟩ := Option.map_eq_some_iff.mp hmap
    exact List.forall_mem_cons.mpr ⟨hcode, ih text' htext'⟩
  fun_induction utf8Decode bytes generalizing text with
  | case1 =>
      obtain rfl := Option.some.inj h
      simp
  | case2 b rest hb ih => exact hcons (fun _ => ih) (by unfold IsCodePoint; omega) h
  | case3 b hb hlead b₁ rest htail ih =>
      refine hcons (fun _ => ih) ?_ h
      simp only [Bool.and_eq_true, decide_eq_true_eq, isTail] at hlead htail
      unfold IsCodePoint
      omega
  | case4 => cases h
  | case5 => cases h
  | case6 b hb hlead₂ hlead b₁ b₂ rest htail ih =>
      refine hcons (fun _ => ih) ?_ h
      simp only [Bool.and_eq_true, decide_eq_true_eq, isTail] at hlead htail
      unfold IsCodePoint
      omega
  | case7 => cases h
  | case8 => cases h
  | case9 b hb hlead₂ hlead₃ hlead b₁ b₂ b₃ rest htail ih =>
      refine hcons (fun _ => ih) ?_ h
      simp only [Bool.and_eq_true, Bool.or_eq_true, decide_eq_true_eq, isTail, bne_iff_ne,
        ne_eq] at hlead htail
      unfold IsCodePoint
      omega
  | case10 => cases h
  | case11 => cases h
  | case12 => cases h

theorem joinUnits_isCodePoint {units : List Nat} (h : ∀ u ∈ units, u < 0x10000) :
    ∀ c ∈ joinUnits units, IsCodePoint c := by
  fun_induction joinUnits units with
  | case1 => simp
  | case2 u =>
      have hu := h u (by simp)
      simp [IsCodePoint]
      omega
  | case3 u v rest hpair ih =>
      rw [Bool.and_eq_true] at hpair
      exact List.forall_mem_cons.mpr ⟨joinPair_isCodePoint hpair.1 hpair.2,
        ih fun w hw => h w (by simp [hw])⟩
  | case4 u v rest hpair ih =>
      have hu := h u (by simp)
      refine List.forall_mem_cons.mpr ⟨?_, ih fun w hw => h w (by simp [hw])⟩
      unfold IsCodePoint
      omega

theorem units16_lt {bigEndian : Bool} {bytes units : List Nat} (hbytes : ∀ b ∈ bytes, b < 256)
    (h : units16 bigEndian bytes = some units) : ∀ u ∈ units, u < 0x10000 := by
  fun_induction units16 bigEndian bytes generalizing units with
  | case1 =>
      obtain rfl := Option.some.inj h
      simp
  | case2 => cases h
  | case3 a b rest ih =>
      have ha := hbytes a (by simp)
      have hb := hbytes b (by simp)
      obtain ⟨units', hunits', rfl⟩ := Option.map_eq_some_iff.mp h
      refine List.forall_mem_cons.mpr ⟨?_, ih (fun d hd => hbytes d (by simp [hd])) hunits'⟩
      split_ifs <;> omega

theorem utf16Decode_isCodePoint {bigEndian : Bool} {bytes : List Nat} {text : CodePoints}
    (hbytes : ∀ b ∈ bytes, b < 256) (h : utf16Decode bigEndian bytes = some text) :
    ∀ c ∈ text, IsCodePoint c := by
  obtain ⟨units, hunits, rfl⟩ := Option.map_eq_some_iff.mp h
  exact joinUnits_isCodePoint (units16_lt hbytes hunits)

theorem utf32Decode_isCodePoint {bigEndian : Bool} {bytes : List Nat} {text : CodePoints}
    (h : utf32Decode bigEndian bytes = some text) : ∀ c ∈ text, IsCodePoint c := by
  fun_induction utf32Decode bigEndian bytes generalizing text with
  | case1 =>
      obtain rfl := Option.some.inj h
      simp
  | case2 a b c d rest code hcode =>
      rename_i ih
      obtain ⟨text', htext', rfl⟩ := Option.map_eq_some_iff.mp h
      exact List.forall_mem_cons.mpr ⟨hcode, ih htext'⟩
  | case3 => cases h
  | case4 => cases h

end Foundation
