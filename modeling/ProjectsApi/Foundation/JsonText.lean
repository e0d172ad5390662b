import ProjectsApi.Foundation.JsonRoundTrip

/-!
# Texts that the reader returns, and texts that the writer writes

The reader returns code points only, surrogates included (`loads_isText`).  The writer
writes a text as a sequence of escapes, each for one 16-bit unit (`escapedText_iff`); reading
such a sequence and writing the result gives the same sequence back (`escape_rejoin`).
-/

namespace Foundation.Json

/-- A text of code points. -/
def IsText (text : CodePoints) : Prop := ∀ c ∈ text, IsCodePoint c

theorem IsText.of_suffix {text rest : CodePoints} (h : IsText text) (hrest : rest <:+ text) :
    IsText rest :=
  fun c hc => h c (hrest.subset hc)

/-! ## Decoded bytes -/

theorem decodeText_isText {bytes : List Nat} {text : CodePoints} (hbytes : ∀ b ∈ bytes, b < 256)
    (h : decodeText bytes = some text) : IsText text := by
  have hdrop : ∀ n, ∀ b ∈ bytes.drop n, b < 256 := fun n b hb => hbytes b (List.mem_of_mem_drop hb)
  unfold decodeText at h
  split_ifs at h
  · exact utf32Decode_isCodePoint h
  · exact utf32Decode_isCodePoint h
  · exact utf16Decode_isCodePoint (hdrop 2) h
  · exact utf16Decode_isCodePoint (hdrop 2) h
  · exact utf8Decode_isCodePoint h
  · split at h
    · split_ifs at h
      · exact utf32Decode_isCodePoint h
      · exact utf16Decode_isCodePoint hbytes h
      · exact utf32Decode_isCodePoint h
      · exact utf16Decode_isCodePoint hbytes h
      · exact utf8Decode_isCodePoint h
    · split_ifs at h
      · exact utf16Decode_isCodePoint hbytes h
      · exact utf16Decode_isCodePoint hbytes h
      · exact utf8Decode_isCodePoint h
    · exact utf8Decode_isCodePoint h

/-! ## Scanned strings -/

theorem hexValue_lt {c v : Nat} (h : hexValue c = some v) : v < 16 := by
  unfold hexValue at h
  split_ifs at h <;> · obtain rfl := Option.some.inj h; omega

theorem hex4_lt {a b c d u : Nat} (h : hex4 a b c d = some u) : u < 0x10000 := by
  simp only [hex4, Option.bind_eq_bind, Option.bind_eq_some_iff, Option.pure_def,
    Option.some.injEq] at h
  obtain ⟨x, hx, y, hy, z, hz, w, hw, rfl⟩ := h
  have hx := hexValue_lt hx
  have hy := hexValue_lt hy
  have hz := hexValue_lt hz
  have hw := hexValue_lt hw
  omega

theorem unescape_lt {e u : Nat} (h : unescape e = some u) : u < 0x80 := by
  unfold unescape at h
  split_ifs at h <;> · obtain rfl := Option.some.inj h; omega

/-- The units of a scanned string are code points, and the rest is a suffix of the text. -/
theorem scanUnits_isText {text : CodePoints} (h : IsText text) {units : List (Bool × Nat)}
    {rest : CodePoints} (hscan : scanUnits text = some (units, rest)) :
    (∀ u ∈ units, IsCodePoint u.2) ∧ rest <:+ text := by
  -- one unit more, read from the front of the text
  have hnext : ∀ (read : CodePoints) (unit : Bool × Nat) {after : CodePoints}
      {units : List (Bool × Nat)} {rest : CodePoints}, IsCodePoint unit.2 →
      (∀ {units rest}, scanUnits after = some (units, rest) →
        (∀ u ∈ units, IsCodePoint u.2) ∧ rest <:+ after) →
      ((scanUnits after).map fun r => (unit :: r.1, r.2)) = some (units, rest) →
      (∀ u ∈ units, IsCodePoint u.2) ∧ rest <:+ read ++ after := by
    intro read unit after units rest hunit ih hmap
    obtain ⟨r, hr, heq⟩ := Option.map_eq_some_iff.mp hmap
    obtain ⟨rfl, rfl⟩ := Prod.mk.inj heq
    obtain ⟨hunits, hsuffix⟩ := ih hr
    exact ⟨List.forall_mem_cons.mpr ⟨hunit, hunits⟩, hsuffix.trans (List.suffix_append _ _)⟩
  fun_induction scanUnits text generalizing units rest with
  | case1 => cases hscan
  | case2 text =>
      obtain ⟨rfl, rfl⟩ := Prod.mk.inj (Option.some.inj hscan)
      exact ⟨by simp, List.suffix_cons _ _⟩
  | case3 => cases hscan
  | case4 h₁ h₂ h₃ h₄ text u hhex hquote ih =>
      have hu := hex4_lt hhex
      have hunit : IsCodePoint u := by
        unfold IsCodePoint
        omega
      exact hnext [0x5C, 0x75, h₁, h₂, h₃, h₄] (true, u) hunit
        (ih fun c hc => h c (by simp [hc])) hscan
  | case5 => cases hscan
  | case6 => cases hscan
  | case7 e text hunicode u hescape hquote ih =>
      have hu := unescape_lt hescape
      have hunit : IsCodePoint u := by
        unfold IsCodePoint
        omega
      exact hnext [0x5C, e] (false, u) hunit (ih fun c hc => h c (by simp [hc])) hscan
  | case8 => cases hscan
  | case9 => cases hscan
  | case10 c text hquote hslash hcontrol ih =>
      exact hnext [c] (false, c) (h c (by simp)) (ih fun c hc => h c (by simp [hc])) hscan

theorem joinSurrogates_isText {units : List (Bool × Nat)} (h : ∀ u ∈ units, IsCodePoint u.2) :
    IsText (joinSurrogates units) := by
  fun_induction joinSurrogates units with
  | case1 => simp [IsText]
  | case2 a u => simpa [IsText] using h
  | case3 a u b v rest hpair ih =>
      simp only [Bool.and_eq_true] at hpair
      exact List.forall_mem_cons.mpr ⟨joinPair_isCodePoint hpair.1.2 hpair.2,
        ih fun w hw => h w (by simp [hw])⟩
  | case4 a u b v rest hpair ih =>
      exact List.forall_mem_cons.mpr
        ⟨h (a, u) (by simp), ih fun w hw => h w (List.mem_cons_of_mem _ hw)⟩

theorem scanString_isText {text : CodePoints} (h : IsText text) {value rest : CodePoints}
    (hscan : scanString text = some (value, rest)) : IsText value ∧ rest <:+ text := by
  obtain ⟨r, hr, heq⟩ := Option.map_eq_some_iff.mp hscan
  obtain ⟨rfl, rfl⟩ := Prod.mk.inj heq
  obtain ⟨hunits, hrest⟩ := scanUnits_isText h hr
  exact ⟨joinSurrogates_isText hunits, hrest⟩

/-! ## Scanned values -/

mutual

/-- Every text in a value, keys included, is one of code points. -/
def HasTexts : Json → Prop
  | .null => True
  | .bool _ => True
  | .number _ => True
  | .string value => IsText value
  | .array elements => ElementsHaveTexts elements
  | .object members => MembersHaveTexts members

def ElementsHaveTexts : List Json → Prop
  | [] => True
  | element :: elements => HasTexts element ∧ ElementsHaveTexts elements

def MembersHaveTexts : List (CodePoints × Json) → Prop
  | [] => True
  | (key, value) :: members => (IsText key ∧ HasTexts value) ∧ MembersHaveTexts members

end

theorem membersHaveTexts_iff {members : List (CodePoints × Json)} :
    MembersHaveTexts members ↔ ∀ member ∈ members, IsText member.1 ∧ HasTexts member.2 := by
  induction members with
  | nil => simp [MembersHaveTexts]
  | cons member members ih => rw [MembersHaveTexts, ih, List.forall_mem_cons]

theorem dictOf_haveTexts {members : List (CodePoints × Json)} (h : MembersHaveTexts members) :
    MembersHaveTexts (dictOf members) := by
  rw [membersHaveTexts_iff] at h ⊢
  suffices hfold : ∀ before : List (CodePoints × Json),
      (∀ member ∈ before, IsText member.1 ∧ HasTexts member.2) →
      ∀ member ∈ members.foldl dictInsert before, IsText member.1 ∧ HasTexts member.2 by
    exact hfold [] (by simp)
  induction members with
  | nil => exact fun before hbefore => hbefore
  | cons member members ih =>
      intro before hbefore
      rw [List.forall_mem_cons] at h
      refine ih h.2 _ fun m hm => ?_
      unfold dictInsert at hm
      split_ifs at hm
      · obtain ⟨m', hm', rfl⟩ := List.mem_map.mp hm
        split_ifs
        · exact h.1
        · exact hbefore m' hm'
      · obtain hm | hm := List.mem_append.mp hm
        · exact hbefore m hm
        · rw [List.mem_singleton.mp hm]
          exact h.1

theorem IsText.skipWhitespace {text : CodePoints} (h : IsText text) :
    IsText (skipWhitespace text) :=
  h.of_suffix (List.dropWhile_suffix _)

theorem IsText.tail {text : CodePoints} (h : IsText text) : IsText text.tail :=
  h.of_suffix (List.tail_suffix _)

theorem scanPlain_haveTexts {text : CodePoints} {value : Json} {rest : CodePoints}
    (h : scanPlain text = some (value, rest)) : value.HasTexts ∧ rest <:+ text := by
  unfold scanPlain at h
  split at h
  · rename_i word constant hfind
    obtain ⟨rfl, rfl⟩ := Prod.mk.inj (Option.some.inj h)
    refine ⟨?_, List.drop_suffix _ _⟩
    have hmem := List.mem_of_find?_eq_some hfind
    simp only [constants, List.mem_cons, Prod.mk.injEq, List.not_mem_nil, or_false] at hmem
    obtain ⟨-, rfl⟩ | ⟨-, rfl⟩ | ⟨-, rfl⟩ | ⟨-, rfl⟩ | ⟨-, rfl⟩ | ⟨-, rfl⟩ := hmem <;> trivial
  · obtain ⟨r, hr, heq⟩ := Option.map_eq_some_iff.mp h
    obtain ⟨rfl, rfl⟩ := Prod.mk.inj heq
    refine ⟨trivial, ?_⟩
    unfold scanNumber at hr
    dsimp only at hr
    split_ifs at hr <;>
      · obtain rfl := Option.some.inj hr
        refine (List.drop_suffix _ _).trans ((List.drop_suffix _ _).trans
          ((List.drop_suffix _ _).trans ?_))
        first | exact List.suffix_refl _ | exact List.tail_suffix _

/-- What is read with this fuel has texts, and what is left is a text. -/
private structure ScansTexts (fuel : Nat) : Prop where
  value : ∀ text r, IsText text → scanValue fuel text = some r → r.1.HasTexts ∧ IsText r.2
  members : ∀ text r, IsText text → scanMembers fuel text = some r →
    MembersHaveTexts r.1 ∧ IsText r.2
  elements : ∀ text r, IsText text → scanElements fuel text = some r →
    ElementsHaveTexts r.1 ∧ IsText r.2

private theorem ScansTexts.scanValue_succ {fuel : Nat} (h : ScansTexts fuel) {text : CodePoints}
    {r : Json × CodePoints} (htext : IsText text) (hscan : scanValue (fuel + 1) text = some r) :
    r.1.HasTexts ∧ IsText r.2 := by
  cases text with
  | nil => cases hscan
  | cons c text =>
      have htail : IsText text := htext.tail
      rw [scanValue] at hscan
      dsimp only at hscan
      split_ifs at hscan
      · -- a string
        obtain ⟨read, hread, rfl⟩ := Option.map_eq_some_iff.mp hscan
        obtain ⟨hread, hrest⟩ := scanString_isText htail hread
        exact ⟨hread, htail.of_suffix hrest⟩
      · -- an object, with or without members
        obtain rfl := Option.some.inj hscan
        exact ⟨trivial, htail.skipWhitespace.tail⟩
      · obtain ⟨read, hread, rfl⟩ := Option.map_eq_some_iff.mp hscan
        obtain ⟨hread, hrest⟩ := h.members _ _ htail.skipWhitespace hread
        exact ⟨dictOf_haveTexts hread, hrest⟩
      · -- an array, with or without elements
        obtain rfl := Option.some.inj hscan
        exact ⟨trivial, htail.skipWhitespace.tail⟩
      · obtain ⟨read, hread, rfl⟩ := Option.map_eq_some_iff.mp hscan
        exact h.elements _ _ htail.skipWhitespace hread
      · obtain ⟨hread, hrest⟩ := scanPlain_haveTexts hscan
        exact ⟨hread, htext.of_suffix hrest⟩

private theorem ScansTexts.scanMembers_succ {fuel : Nat} (h : ScansTexts fuel)
    {text : CodePoints} {r : List (CodePoints × Json) × CodePoints} (htext : IsText text)
    (hscan : scanMembers (fuel + 1) text = some r) : MembersHaveTexts r.1 ∧ IsText r.2 := by
  rw [scanMembers] at hscan
  split_ifs at hscan
  -- the key, the colon and the value
  obtain ⟨key, hkey, hscan⟩ := Option.bind_eq_some_iff.mp hscan
  obtain ⟨hkeyText, hafter⟩ := scanString_isText htext.tail hkey
  have hafter := (htext.tail.of_suffix hafter).skipWhitespace
  dsimp only at hscan
  split_ifs at hscan
  obtain ⟨value, hread, hscan⟩ := Option.bind_eq_some_iff.mp hscan
  obtain ⟨hread, hrest⟩ := h.value _ _ hafter.tail.skipWhitespace hread
  split_ifs at hscan
  · obtain rfl := Option.some.inj hscan
    exact ⟨⟨⟨hkeyText, hread⟩, trivial⟩, hrest.skipWhitespace.tail⟩
  · obtain ⟨others, hothers, rfl⟩ := Option.map_eq_some_iff.mp hscan
    obtain ⟨hothers, hend⟩ := h.members _ _ hrest.skipWhitespace.tail.skipWhitespace hothers
    exact ⟨⟨⟨hkeyText, hread⟩, hothers⟩, hend⟩

private theorem ScansTexts.scanElements_succ {fuel : Nat} (h : ScansTexts fuel)
    {text : CodePoints} {r : List Json × CodePoints} (htext : IsText text)
    (hscan : scanElements (fuel + 1) text = some r) : ElementsHaveTexts r.1 ∧ IsText r.2 := by
  rw [scanElements] at hscan
  obtain ⟨value, hread, hscan⟩ := Option.bind_eq_some_iff.mp hscan
  obtain ⟨hread, hrest⟩ := h.value _ _ htext hread
  dsimp only at hscan
  split_ifs at hscan
  · obtain rfl := Option.some.inj hscan
    exact ⟨⟨hread, trivial⟩, hrest.skipWhitespace.tail⟩
  · obtain ⟨others, hothers, rfl⟩ := Option.map_eq_some_iff.mp hscan
    obtain ⟨hothers, hend⟩ := h.elements _ _ hrest.skipWhitespace.tail.skipWhitespace hothers
    exact ⟨⟨hread, hothers⟩, hend⟩

private theorem scansTexts (fuel : Nat) : ScansTexts fuel := by
  induction fuel with
  | zero =>
      constructor <;>
        · intro text r _ hscan
          cases hscan
  | succ fuel ih =>
      exact ⟨fun _ _ => ih.scanValue_succ, fun _ _ => ih.scanMembers_succ,
        fun _ _ => ih.scanElements_succ⟩

/-- `json.loads` of bytes returns texts of code points. -/
theorem loads_haveTexts {bytes : List Nat} (hbytes : ∀ b ∈ bytes, b < 256) {value : Json}
    (h : loads bytes = some value) : value.HasTexts := by
  simp only [loads, Option.bind_eq_bind, Option.bind_eq_some_iff, Option.ite_none_right_eq_some,
    Option.some.injEq] at h
  obtain ⟨text, htext, r, hscan, -, rfl⟩ := h
  exact ((scansTexts _).value _ _ (decodeText_isText hbytes htext).skipWhitespace hscan).1

/-! ## Written texts -/

/-- One escape of the writer: a printable character other than the quotation mark and the
backslash, a short escape, or `\uXXXX` in lower case for a unit without either. -/
def IsEscape (text : CodePoints) : Prop :=
  (∃ c, 0x20 ≤ c ∧ c ≤ 0x7E ∧ c ≠ 0x22 ∧ c ≠ 0x5C ∧ text = [c]) ∨
    (∃ c e, shortEscape c = some e ∧ text = [0x5C, e]) ∨
    ∃ u < 0x10000, shortEscape u = none ∧ ¬ (0x20 ≤ u ∧ u ≤ 0x7E) ∧ text = unicodeEscape u

/-- A sequence of escapes of the writer. -/
def EscapedText (text : CodePoints) : Prop :=
  ∃ escapes : List CodePoints, (∀ e ∈ escapes, IsEscape e) ∧ text = escapes.flatten

theorem shortEscape_eq_none_iff {c : Nat} (h : 0x20 ≤ c) :
    shortEscape c = none ↔ c ≠ 0x22 ∧ c ≠ 0x5C := by
  unfold shortEscape
  split_ifs <;> simp <;> omega

theorem shortEscape_lt {c e : Nat} (h : shortEscape c = some e) : c < 0x80 := by
  unfold shortEscape at h
  split_ifs at h <;> omega

/-- The escapes are those of the 16-bit units. -/
theorem isEscape_iff {text : CodePoints} :
    IsEscape text ↔ ∃ u < 0x10000, text = escapeChar u := by
  constructor
  · intro h
    obtain ⟨c, hlow, hhigh, hquote, hslash, rfl⟩ | ⟨c, e, hshort, rfl⟩ |
      ⟨u, hu, hshort, hprint, rfl⟩ := h
    · have hshort := (shortEscape_eq_none_iff hlow).mpr ⟨hquote, hslash⟩
      refine ⟨c, by omega, ?_⟩
      rw [escapeChar, hshort]
      exact (if_pos ⟨hlow, hhigh⟩).symm
    · have hc := shortEscape_lt hshort
      refine ⟨c, by omega, ?_⟩
      rw [escapeChar, hshort]
    · refine ⟨u, hu, ?_⟩
      rw [escapeChar, hshort]
      simp [hprint, hu]
  · intro h
    obtain ⟨u, hu, rfl⟩ := h
    rw [escapeChar]
    cases hshort : shortEscape u with
    | some e => exact Or.inr (Or.inl ⟨u, e, hshort, rfl⟩)
    | none =>
        by_cases hprint : 0x20 ≤ u ∧ u ≤ 0x7E
        · obtain ⟨hquote, hslash⟩ := (shortEscape_eq_none_iff hprint.1).mp hshort
          exact Or.inl ⟨u, hprint.1, hprint.2, hquote, hslash, if_pos hprint⟩
        · refine Or.inr (Or.inr ⟨u, hu, hshort, hprint, ?_⟩)
          simp [hprint, hu]

/-- The surrogates of a supplementary code point, escaped. -/
theorem escapeChar_joinPair {u v : Nat} (hu : isHighSurrogate u = true)
    (hv : isLowSurrogate v = true) :
    escapeChar (joinPair u v) = escapeChar u ++ escapeChar v := by
  simp only [isHighSurrogate, isLowSurrogate, Bool.and_eq_true, decide_eq_true_eq] at hu hv
  have hunit : ∀ w, 0x80 ≤ w → w < 0x10000 → escapeChar w = unicodeEscape w := by
    intro w hlow hhigh
    have hshort : shortEscape w = none := (shortEscape_eq_none_iff (by omega)).mpr (by omega)
    have hprint : ¬ (0x20 ≤ w ∧ w ≤ 0x7E) := by omega
    simp [escapeChar, hshort, hprint, hhigh]
  have hbig : 0x10000 ≤ joinPair u v := by
    unfold joinPair
    omega
  have hshort : shortEscape (joinPair u v) = none :=
    (shortEscape_eq_none_iff (by omega)).mpr (by omega)
  have hhigh : highSurrogate (joinPair u v) = u := by
    unfold highSurrogate joinPair
    omega
  have hlow : lowSurrogate (joinPair u v) = v := by
    unfold lowSurrogate joinPair
    omega
  rw [hunit u (by omega) (by omega), hunit v (by omega) (by omega), escapeChar, hshort]
  simp [hhigh, hlow, Nat.not_lt.mpr hbig, show ¬ joinPair u v ≤ 0x7E by omega]

theorem EscapedText.append {a b : CodePoints} (ha : EscapedText a) (hb : EscapedText b) :
    EscapedText (a ++ b) := by
  obtain ⟨as, has, rfl⟩ := ha
  obtain ⟨bs, hbs, rfl⟩ := hb
  refine ⟨as ++ bs, ?_, List.flatten_append.symm⟩
  intro e he
  exact (List.mem_append.mp he).elim (has e) (hbs e)

/-- What the writer makes of a text of code points. -/
theorem escapedText_escape {s : CodePoints} (h : IsText s) : EscapedText (escape s) := by
  induction s with
  | nil => exact ⟨[], by simp, rfl⟩
  | cons c s ih =>
      have hunit : ∀ u < 0x10000, EscapedText (escapeChar u) := fun u hu =>
        ⟨[escapeChar u], by simpa using isEscape_iff.mpr ⟨u, hu, rfl⟩, by simp⟩
      have hmax : c ≤ 0x10FFFF := h c (by simp)
      have hc : EscapedText (escapeChar c) := by
        by_cases hbmp : c < 0x10000
        · exact hunit c hbmp
        · -- a supplementary code point is written as its two surrogates
          obtain ⟨hhigh, hlow, hjoin⟩ := surrogates_of_supplementary (not_lt.mp hbmp) hmax
          rw [← hjoin, escapeChar_joinPair hhigh hlow]
          simp only [isHighSurrogate, isLowSurrogate, Bool.and_eq_true, decide_eq_true_eq]
            at hhigh hlow
          exact (hunit _ (by omega)).append (hunit _ (by omega))
      rw [escape, List.flatMap_cons]
      exact hc.append (ih fun d hd => h d (List.mem_cons_of_mem _ hd))

/-- Escaped texts are printable ASCII. -/
theorem escape_ascii {s : CodePoints} (h : IsText s) {u : Nat} (hu : u ∈ escape s) :
    0x20 ≤ u ∧ u < 0x80 := by
  obtain ⟨c, hc, hu⟩ := List.mem_flatMap.mp hu
  exact escapeChar_ascii (h c hc) hu

/-- An escaped text is what the writer makes of a sequence of 16-bit units. -/
theorem escapedText_iff {text : CodePoints} :
    EscapedText text ↔ ∃ units : CodePoints, (∀ u ∈ units, u < 0x10000) ∧ text = escape units := by
  constructor
  · intro h
    obtain ⟨escapes, hescapes, rfl⟩ := h
    induction escapes with
    | nil => exact ⟨[], by simp, rfl⟩
    | cons e escapes ih =>
        rw [List.forall_mem_cons] at hescapes
        obtain ⟨u, hu, rfl⟩ := isEscape_iff.mp hescapes.1
        obtain ⟨units, hunits, heq⟩ := ih hescapes.2
        refine ⟨u :: units, List.forall_mem_cons.mpr ⟨hu, hunits⟩, ?_⟩
        rw [List.flatten_cons, heq]
        rfl
  · intro h
    obtain ⟨units, hunits, rfl⟩ := h
    refine escapedText_escape fun u hu => ?_
    have hu := hunits u hu
    unfold IsCodePoint
    omega

/-- The text the reader returns for a written text. -/
def rejoin (s : CodePoints) : CodePoints := joinSurrogates (s.flatMap writtenUnits)

theorem scanString_rejoin {s : CodePoints} (h : IsText s) (rest : CodePoints) :
    scanString (escape s ++ 0x22 :: rest) = some (rejoin s, rest) := by
  rw [scanString, scanUnits_escape h]
  rfl

/-- Joining the surrogates of 16-bit units does not show in the escaped text. -/
theorem escape_rejoin {units : CodePoints} (h : ∀ u ∈ units, u < 0x10000) :
    escape (rejoin units) = escape units := by
  have hwritten :
      units.flatMap writtenUnits = units.map fun u => ((writtenUnits u).head!.1, u) := by
    rw [List.map_eq_flatMap]
    refine List.flatMap_congr fun u hu => ?_
    unfold writtenUnits
    split_ifs with hplain hbmp
    · rfl
    · rfl
    · exact absurd (h u hu) hbmp
  have hescape : ∀ written : List (Bool × Nat),
      escape (joinSurrogates written) = escape (written.map Prod.snd) := by
    intro written
    fun_induction joinSurrogates written with
    | case1 => rfl
    | case2 => rfl
    | case3 a u b v rest hpair ih =>
        simp only [Bool.and_eq_true] at hpair
        rw [escape] at ih ⊢
        rw [List.flatMap_cons, ih, escapeChar_joinPair hpair.1.2 hpair.2]
        simp [escape]
    | case4 a u b v rest hpair ih =>
        rw [escape] at ih ⊢
        rw [List.flatMap_cons, ih]
        simp [escape]
  rw [rejoin, hwritten, hescape, List.map_map]
  exact congrArg escape (List.map_id units)

end Foundation.Json
