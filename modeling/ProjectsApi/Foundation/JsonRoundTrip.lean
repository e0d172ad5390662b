import ProjectsApi.Foundation.Json

/-!
# Reading back what was written as JSON

`loads_dumps`: a canonical value is read back from its own text.  Strings come
first, one escaped character at a time; then, by induction over the value, the
scanner started on a text that begins with `dumps value` stops right after it.
-/

namespace Foundation.Json

/-! ## Strings -/

private theorem hexValue_hexDigit : ∀ d < 16, hexValue (hexDigit d) = some d := by
  decide

private theorem hexDigit_ascii : ∀ d < 16, 0x20 ≤ hexDigit d ∧ hexDigit d < 0x80 := by
  decide

theorem hex4_hexDigits {u : Nat} (hu : u < 0x10000) :
    hex4 (hexDigit (u / 0x1000)) (hexDigit (u / 0x100 % 16)) (hexDigit (u / 16 % 16))
      (hexDigit (u % 16)) = some u := by
  have h₁ := hexValue_hexDigit (u / 0x1000) (by omega)
  have h₂ := hexValue_hexDigit (u / 0x100 % 16) (by omega)
  have h₃ := hexValue_hexDigit (u / 16 % 16) (by omega)
  have h₄ := hexValue_hexDigit (u % 16) (by omega)
  have hsum : u / 0x1000 * 0x1000 + u / 0x100 % 16 * 0x100 + u / 16 % 16 * 16 + u % 16 = u := by
    omega
  simp only [hex4, h₁, h₂, h₃, h₄, Option.bind_eq_bind, Option.bind_some, hsum]
  rfl

theorem unescape_shortEscape {c e : Nat} (h : shortEscape c = some e) :
    e ≠ 0x75 ∧ unescape e = some c := by
  unfold shortEscape at h
  split_ifs at h <;> cases h <;> subst c <;> decide

theorem shortEscape_ascii {c e : Nat} (h : shortEscape c = some e) : 0x20 ≤ e ∧ e < 0x80 := by
  unfold shortEscape at h
  split_ifs at h <;> cases h <;> decide

/-- The units as which a character is written. -/
def writtenUnits (c : Nat) : List (Bool × Nat) :=
  if (shortEscape c).isSome ∨ 0x20 ≤ c ∧ c ≤ 0x7E then [(false, c)]
  else if c < 0x10000 then [(true, c)]
  else [(true, highSurrogate c), (true, lowSurrogate c)]

theorem scanUnits_unicodeEscape {u : Nat} (hu : u < 0x10000) (rest : CodePoints) :
    scanUnits (unicodeEscape u ++ rest) =
      (scanUnits rest).map fun r => ((true, u) :: r.1, r.2) := by
  simp only [unicodeEscape, List.cons_append, List.nil_append]
  rw [scanUnits.eq_def]
  simp [hex4_hexDigits hu]

theorem scanUnits_escapeChar {c : Nat} (hc : IsCodePoint c) (rest : CodePoints) :
    scanUnits (escapeChar c ++ rest) =
      (scanUnits rest).map fun r => (writtenUnits c ++ r.1, r.2) := by
  have hmax : c ≤ 0x10FFFF := hc
  rw [escapeChar]
  cases hshort : shortEscape c with
  | some e =>
      obtain ⟨hu, hunescape⟩ := unescape_shortEscape hshort
      simp only [List.cons_append, List.nil_append]
      rw [scanUnits.eq_def]
      simp [hu, hunescape, writtenUnits, hshort]
  | none =>
      have hquote : c ≠ 0x22 := by rintro rfl; simp [shortEscape] at hshort
      have hslash : c ≠ 0x5C := by rintro rfl; simp [shortEscape] at hshort
      by_cases hprint : 0x20 ≤ c ∧ c ≤ 0x7E
      · have hlow : ¬ c < 0x20 := by omega
        simp only [hprint, and_self, if_true, List.cons_append, List.nil_append]
        rw [scanUnits.eq_def]
        simp [hquote, hslash, hlow, writtenUnits, hprint]
      · by_cases hbmp : c < 0x10000
        · simp [hprint, hbmp, scanUnits_unicodeEscape, writtenUnits, hshort]
        · have hhigh : highSurrogate c < 0x10000 := by unfold highSurrogate; omega
          have hlow : lowSurrogate c < 0x10000 := by unfold lowSurrogate; omega
          simp only [hprint, hbmp, if_false, List.append_assoc,
            scanUnits_unicodeEscape hhigh, scanUnits_unicodeEscape hlow, writtenUnits, hshort,
            Option.isSome_none, Bool.false_eq_true, or_self]
          cases scanUnits rest <;> rfl

theorem scanUnits_escape {s : CodePoints} (hs : ∀ c ∈ s, IsCodePoint c) (rest : CodePoints) :
    scanUnits (escape s ++ 0x22 :: rest) = some (s.flatMap writtenUnits, rest) := by
  induction s with
  | nil => rw [escape, List.flatMap_nil, List.nil_append, scanUnits.eq_def]; rfl
  | cons c s ih =>
      have ih := ih fun d hd => hs d (List.mem_cons_of_mem _ hd)
      rw [escape] at ih
      rw [escape, List.flatMap_cons, List.append_assoc,
        scanUnits_escapeChar (hs c List.mem_cons_self), ih]
      rfl

private theorem joinSurrogates_cons {a : Bool} {u : Nat} (hu : (a && isHighSurrogate u) = false)
    (rest : List (Bool × Nat)) :
    joinSurrogates ((a, u) :: rest) = u :: joinSurrogates rest := by
  cases rest with
  | nil => rfl
  | cons r rest =>
      rw [joinSurrogates.eq_def]
      have hjoin : (a && r.1 && isHighSurrogate u && isLowSurrogate r.2) = false := by
        cases a <;> simp_all
      simp [hjoin]

/-- The two surrogates of a supplementary code point join to it. -/
theorem surrogates_of_supplementary {c : Nat} (hlow : 0x10000 ≤ c) (hmax : c ≤ 0x10FFFF) :
    isHighSurrogate (highSurrogate c) = true ∧ isLowSurrogate (lowSurrogate c) = true ∧
      joinPair (highSurrogate c) (lowSurrogate c) = c := by
  simp only [isHighSurrogate, isLowSurrogate, Bool.and_eq_true, decide_eq_true_eq]
  unfold joinPair highSurrogate lowSurrogate
  omega

theorem joinSurrogates_writtenUnits {c : Nat} (hc : IsScalar c) (rest : List (Bool × Nat)) :
    joinSurrogates (writtenUnits c ++ rest) = c :: joinSurrogates rest := by
  unfold writtenUnits
  split_ifs with hplain hbmp
  · exact joinSurrogates_cons rfl rest
  · -- a scalar value is no high surrogate
    refine joinSurrogates_cons ?_ rest
    rcases hc with h | h <;> simp [isHighSurrogate] <;> omega
  -- a pair is joined again
  · have hmax : c ≤ 0x10FFFF := by rcases hc with h | h <;> omega
    obtain ⟨hhigh, hlow, hjoin⟩ := surrogates_of_supplementary (not_lt.mp hbmp) hmax
    simp only [List.cons_append, List.nil_append]
    rw [joinSurrogates.eq_def]
    simp [hhigh, hlow, hjoin]

theorem scanString_escape {s : CodePoints} (hs : ∀ c ∈ s, IsScalar c) (rest : CodePoints) :
    scanString (escape s ++ 0x22 :: rest) = some (s, rest) := by
  have hjoin : joinSurrogates (s.flatMap writtenUnits) = s := by
    induction s with
    | nil => rfl
    | cons c s ih =>
        rw [List.flatMap_cons, joinSurrogates_writtenUnits (hs c List.mem_cons_self),
          ih fun d hd => hs d (List.mem_cons_of_mem _ hd)]
  rw [scanString, scanUnits_escape fun c hc => (hs c hc).isCodePoint, Option.map_some, hjoin]

/-! ## Canonical values -/

mutual

/-- The values that `dumps` writes without loss: texts of scalar values, the members
of an object in strictly ascending order of their keys, and no numbers. -/
def Canonical : Json → Prop
  | .null => True
  | .bool _ => True
  | .number _ => False
  | .string value => ∀ c ∈ value, IsScalar c
  | .array elements => CanonicalElements elements
  | .object members =>
      CanonicalMembers members ∧ members.Pairwise fun a b => a.1 < b.1

def CanonicalElements : List Json → Prop
  | [] => True
  | element :: elements => Canonical element ∧ CanonicalElements elements

def CanonicalMembers : List (CodePoints × Json) → Prop
  | [] => True
  | (key, value) :: members =>
      ((∀ c ∈ key, IsScalar c) ∧ Canonical value) ∧ CanonicalMembers members

end

/-- `"key":value` -/
def memberText (member : CodePoints × CodePoints) : CodePoints :=
  quote member.1 ++ 0x3A :: member.2

@[simp] theorem joinComma_nil : joinComma [] = [] := rfl

@[simp] theorem joinComma_singleton (part : CodePoints) : joinComma [part] = part := by
  simp [joinComma]

@[simp] theorem joinComma_cons_cons (a b : CodePoints) (parts : List CodePoints) :
    joinComma (a :: b :: parts) = a ++ 0x2C :: joinComma (b :: parts) := by
  simp [joinComma]

theorem map_fst_dumpsMembers (members : List (CodePoints × Json)) :
    (dumpsMembers members).map Prod.fst = members.map Prod.fst := by
  induction members with
  | nil => rfl
  | cons member members ih => simp [dumpsMembers, ih]

/-- Members in ascending order are written in their own order. -/
theorem dumps_object {members : List (CodePoints × Json)}
    (hsorted : members.Pairwise fun a b => a.1 < b.1) :
    dumps (.object members) =
      0x7B :: (joinComma ((dumpsMembers members).map memberText) ++ [0x7D]) := by
  have hkeys : ((dumpsMembers members).map Prod.fst).Pairwise (· < ·) := by
    rw [map_fst_dumpsMembers]
    exact List.pairwise_map.mpr hsorted
  have hle : (dumpsMembers members).Pairwise fun a b => a.1 ≤ b.1 :=
    (List.pairwise_map.mp hkeys).imp le_of_lt
  rw [dumps, hle.insertionSort_eq]
  rfl

/-- A canonical text begins with neither whitespace nor a closing bracket. -/
theorem dumps_head {value : Json} (h : Canonical value) :
    ∃ c text, dumps value = c :: text ∧ isWhitespace c = false ∧ c ≠ 0x5D := by
  cases value with
  | null => exact ⟨_, _, rfl, rfl, by decide⟩
  | bool value => cases value <;> exact ⟨_, _, rfl, rfl, by decide⟩
  | number => exact h.elim
  | string => exact ⟨_, _, rfl, rfl, by decide⟩
  | array => exact ⟨_, _, rfl, rfl, by decide⟩
  | object => exact ⟨_, _, rfl, rfl, by decide⟩

theorem skipWhitespace_cons {c : Nat} (hc : isWhitespace c = false) (text : CodePoints) :
    skipWhitespace (c :: text) = c :: text := by
  simp [skipWhitespace, hc]

theorem skipWhitespace_dumps {value : Json} (h : Canonical value) (rest : CodePoints) :
    skipWhitespace (dumps value ++ rest) = dumps value ++ rest := by
  obtain ⟨c, text, htext, hc, -⟩ := dumps_head h
  rw [htext, List.cons_append, skipWhitespace_cons hc]

theorem joinComma_dumpsElements_head {element : Json} (h : Canonical element)
    (elements : List Json) (rest : CodePoints) :
    skipWhitespace (joinComma (dumpsElements (element :: elements)) ++ rest) =
        joinComma (dumpsElements (element :: elements)) ++ rest ∧
      (joinComma (dumpsElements (element :: elements)) ++ rest).head? ≠ some 0x5D := by
  obtain ⟨c, text, htext, hc, hbracket⟩ := dumps_head h
  have hjoin : ∃ text', joinComma (dumpsElements (element :: elements)) = c :: text' := by
    cases elements with
    | nil => exact ⟨text, by simp [dumpsElements, htext]⟩
    | cons next elements => exact ⟨_, by rw [dumpsElements, dumpsElements, joinComma_cons_cons,
        htext, List.cons_append]⟩
  obtain ⟨text', hjoin⟩ := hjoin
  rw [hjoin, List.cons_append, skipWhitespace_cons hc]
  exact ⟨rfl, by simpa using hbracket⟩

/-- The dictionary of members with distinct keys keeps them all, in their order. -/
theorem dictOf_of_nodup {members : List (CodePoints × Json)}
    (h : (members.map Prod.fst).Nodup) : dictOf members = members := by
  suffices hfold : ∀ before after : List (CodePoints × Json),
      ((before ++ after).map Prod.fst).Nodup →
        after.foldl dictInsert before = before ++ after by
    exact hfold [] members h
  -- the dictionary read so far, and the members still to come
  intro before after
  induction after generalizing before with
  | nil => simp
  | cons member after ih =>
      intro hnodup
      have hfresh : before.any (fun m => m.1 == member.1) = false := by
        rw [List.any_eq_false]
        intro m hm heq
        rw [List.map_append, List.map_cons, List.nodup_append] at hnodup
        exact hnodup.2.2 _ (List.mem_map_of_mem hm) _ List.mem_cons_self (by simpa using heq)
      rw [List.foldl_cons, dictInsert, hfresh, if_neg Bool.false_ne_true,
        ih _ (by simpa using hnodup)]
      simp

/-! ## The scanner on a written value -/

private theorem scanValue_array {fuel : Nat} {text : CodePoints} {elements : List Json}
    {rest : CodePoints} (hspace : skipWhitespace text = text) (hhead : text.head? ≠ some 0x5D)
    (hscan : scanElements fuel text = some (elements, rest)) :
    scanValue (fuel + 1) (0x5B :: text) = some (.array elements, rest) := by
  simp [scanValue, hspace, hhead, hscan]

private theorem scanElements_last {fuel : Nat} {text : CodePoints} {value : Json}
    {rest : CodePoints} (hvalue : scanValue fuel text = some (value, 0x5D :: rest)) :
    scanElements (fuel + 1) text = some ([value], rest) := by
  have hspace := skipWhitespace_cons (c := 0x5D) rfl rest
  simp [scanElements, hvalue, hspace]

private theorem scanElements_next {fuel : Nat} {text next : CodePoints} {value : Json}
    {elements : List Json} {rest : CodePoints}
    (hvalue : scanValue fuel text = some (value, 0x2C :: next))
    (hspace : skipWhitespace next = next)
    (hscan : scanElements fuel next = some (elements, rest)) :
    scanElements (fuel + 1) text = some (value :: elements, rest) := by
  have hcomma := skipWhitespace_cons (c := 0x2C) rfl next
  simp [scanElements, hvalue, hcomma, hspace, hscan]

theorem scanValue_object {fuel : Nat} {text : CodePoints}
    {members : List (CodePoints × Json)} {rest : CodePoints}
    (hscan : scanMembers fuel (0x22 :: text) = some (members, rest)) :
    scanValue (fuel + 1) (0x7B :: 0x22 :: text) = some (.object (dictOf members), rest) := by
  have hspace := skipWhitespace_cons (c := 0x22) rfl text
  simp [scanValue, hspace, hscan]

theorem scanMembers_last {fuel : Nat} {text after : CodePoints} {key : CodePoints}
    {value : Json} {rest : CodePoints} (hkey : scanString text = some (key, 0x3A :: after))
    (hspace : skipWhitespace after = after)
    (hvalue : scanValue fuel after = some (value, 0x7D :: rest)) :
    scanMembers (fuel + 1) (0x22 :: text) = some ([(key, value)], rest) := by
  have hcolon := skipWhitespace_cons (c := 0x3A) rfl after
  have hbrace := skipWhitespace_cons (c := 0x7D) rfl rest
  simp [scanMembers, hkey, hcolon, hspace, hvalue, hbrace]

theorem scanMembers_next {fuel : Nat} {text after next : CodePoints} {key : CodePoints}
    {value : Json} {members : List (CodePoints × Json)} {rest : CodePoints}
    (hkey : scanString text = some (key, 0x3A :: after))
    (hspace : skipWhitespace after = after)
    (hvalue : scanValue fuel after = some (value, 0x2C :: 0x22 :: next))
    (hscan : scanMembers fuel (0x22 :: next) = some (members, rest)) :
    scanMembers (fuel + 1) (0x22 :: text) = some ((key, value) :: members, rest) := by
  have hcolon := skipWhitespace_cons (c := 0x3A) rfl after
  have hcomma := skipWhitespace_cons (c := 0x2C) rfl (0x22 :: next)
  have hquote := skipWhitespace_cons (c := 0x22) rfl next
  simp [scanMembers, hkey, hcolon, hspace, hvalue, hcomma, hquote, hscan]

mutual

/-- The scanner reads a canonical value and stops right after it. -/
theorem scanValue_dumps : (value : Json) → Canonical value → ∀ (fuel : Nat) (rest : CodePoints),
    (dumps value).length ≤ fuel → scanValue fuel (dumps value ++ rest) = some (value, rest)
  | .null, _, fuel + 1, rest, _ => rfl
  | .bool true, _, fuel + 1, rest, _ => rfl
  | .bool false, _, fuel + 1, rest, _ => rfl
  | .string value, h, fuel + 1, rest, _ => by
      have hscan := scanString_escape h rest
      simp [dumps, quote, scanValue, hscan]
  | .array [], _, fuel + 1, rest, _ => by
      simp [dumps, dumpsElements, scanValue, skipWhitespace, isWhitespace]
  | .array (element :: elements), h, fuel + 1, rest, hfuel => by
      have hscan := scanElements_dumps element elements h fuel rest
        (by simp [dumps] at hfuel; omega)
      obtain ⟨hspace, hhead⟩ := joinComma_dumpsElements_head h.1 elements (0x5D :: rest)
      simp only [dumps, List.cons_append, List.append_assoc, List.nil_append]
      exact scanValue_array hspace hhead hscan
  | .object [], _, fuel + 1, rest, _ => by
      simp [dumps, dumpsMembers, scanValue, skipWhitespace, isWhitespace]
  | .object (member :: members), h, fuel + 1, rest, hfuel => by
      rw [dumps_object h.2] at hfuel ⊢
      obtain ⟨text, htext, hscan⟩ := scanMembers_dumps member members h.1 fuel rest
        (by simp at hfuel; omega)
      -- the keys ascend, so the dictionary is the list that was scanned
      have hkeys : ((member :: members).map Prod.fst).Nodup :=
        (List.pairwise_map.mpr h.2).imp ne_of_lt
      simp only [List.cons_append, List.append_assoc, List.nil_append]
      rw [htext, scanValue_object hscan, dictOf_of_nodup hkeys]

theorem scanElements_dumps : (element : Json) → (elements : List Json) →
    CanonicalElements (element :: elements) → ∀ (fuel : Nat) (rest : CodePoints),
    (joinComma (dumpsElements (element :: elements))).length < fuel →
    scanElements fuel (joinComma (dumpsElements (element :: elements)) ++ 0x5D :: rest) =
      some (element :: elements, rest)
  | element, [], h, fuel + 1, rest, hfuel => by
      rw [dumpsElements, dumpsElements, joinComma_singleton] at hfuel ⊢
      exact scanElements_last (scanValue_dumps element h.1 fuel (0x5D :: rest) (by omega))
  | element, next :: elements, h, fuel + 1, rest, hfuel => by
      have hsplit : joinComma (dumpsElements (element :: next :: elements)) =
          dumps element ++ 0x2C :: joinComma (dumpsElements (next :: elements)) := by
        rw [dumpsElements, dumpsElements, joinComma_cons_cons]
      rw [hsplit, List.length_append, List.length_cons] at hfuel
      rw [hsplit, List.append_assoc, List.cons_append]
      exact scanElements_next (scanValue_dumps element h.1 fuel _ (by omega))
        (joinComma_dumpsElements_head h.2.1 elements (0x5D :: rest)).1
        (scanElements_dumps next elements h.2 fuel rest (by omega))

theorem scanMembers_dumps : (member : CodePoints × Json) → (members : List (CodePoints × Json)) →
    CanonicalMembers (member :: members) → ∀ (fuel : Nat) (rest : CodePoints),
    (joinComma ((dumpsMembers (member :: members)).map memberText)).length < fuel →
    ∃ text, joinComma ((dumpsMembers (member :: members)).map memberText) ++ 0x7D :: rest =
        0x22 :: text ∧
      scanMembers fuel (0x22 :: text) = some (member :: members, rest)
  | (key, value), [], h, fuel + 1, rest, hfuel => by
      have hone : joinComma ((dumpsMembers [(key, value)]).map memberText) =
          0x22 :: (escape key ++ 0x22 :: 0x3A :: dumps value) := by
        simp [dumpsMembers, memberText, quote]
      rw [hone] at hfuel ⊢
      simp only [List.length_cons, List.length_append] at hfuel
      simp only [List.append_assoc, List.cons_append]
      exact ⟨_, rfl, scanMembers_last (scanString_escape h.1.1 _) (skipWhitespace_dumps h.1.2 _)
        (scanValue_dumps value h.1.2 fuel _ (by omega))⟩
  | (key, value), next :: members, h, fuel + 1, rest, hfuel => by
      have hsplit : joinComma ((dumpsMembers ((key, value) :: next :: members)).map memberText) =
          0x22 :: (escape key ++ 0x22 :: 0x3A :: (dumps value ++ 0x2C ::
            joinComma ((dumpsMembers (next :: members)).map memberText))) := by
        simp [dumpsMembers, memberText, quote]
      rw [hsplit] at hfuel ⊢
      simp only [List.length_cons, List.length_append] at hfuel
      obtain ⟨text, htext, hscan⟩ := scanMembers_dumps next members h.2 fuel rest (by omega)
      simp only [List.append_assoc, List.cons_append, htext]
      exact ⟨_, rfl, scanMembers_next (scanString_escape h.1.1 _) (skipWhitespace_dumps h.1.2 _)
        (scanValue_dumps value h.1.2 fuel _ (by omega)) hscan⟩

end

/-! ## Members in any order -/

theorem dumpsMembers_eq_map (members : List (CodePoints × Json)) :
    dumpsMembers members = members.map fun member => (member.1, dumps member.2) := by
  induction members with
  | nil => rfl
  | cons member members ih => rw [dumpsMembers, ih, List.map_cons]

theorem canonicalMembers_iff {members : List (CodePoints × Json)} :
    CanonicalMembers members ↔
      ∀ member ∈ members, (∀ c ∈ member.1, IsScalar c) ∧ Canonical member.2 := by
  induction members with
  | nil => simp [CanonicalMembers]
  | cons member members ih => rw [CanonicalMembers, ih, List.forall_mem_cons]

theorem pairwise_sortByKey {α : Type} (members : List (CodePoints × α)) :
    (members.insertionSort fun a b => a.1 ≤ b.1).Pairwise fun a b => a.1 ≤ b.1 := by
  have htotal : Std.Total fun a b : CodePoints × α => a.1 ≤ b.1 :=
    ⟨fun a b => le_total a.1 b.1⟩
  have htrans : IsTrans (CodePoints × α) fun a b => a.1 ≤ b.1 :=
    ⟨fun a b c hab hbc => le_trans hab hbc⟩
  exact List.pairwise_insertionSort _ _

/-- A dictionary with its members in ascending order. -/
def sortMembers (members : List (CodePoints × Json)) : List (CodePoints × Json) :=
  members.insertionSort fun a b => a.1 ≤ b.1

/-- The order in which a dictionary was filled does not show in its text. -/
theorem dumps_sortMembers (members : List (CodePoints × Json)) :
    dumps (.object (sortMembers members)) = dumps (.object members) := by
  have hmap : dumpsMembers (sortMembers members) =
      (dumpsMembers members).insertionSort fun a b => a.1 ≤ b.1 := by
    rw [dumpsMembers_eq_map, dumpsMembers_eq_map]
    exact List.map_insertionSort _ _ _ _ fun _ _ _ _ => Iff.rfl
  rw [dumps, dumps, hmap, (pairwise_sortByKey _).insertionSort_eq]

theorem canonical_sortMembers {members : List (CodePoints × Json)}
    (hkeys : (members.map Prod.fst).Nodup)
    (hmembers : ∀ member ∈ members, (∀ c ∈ member.1, IsScalar c) ∧ Canonical member.2) :
    Canonical (.object (sortMembers members)) := by
  have hsorted : (sortMembers members).Pairwise fun a b => a.1 ≤ b.1 := pairwise_sortByKey _
  have hperm : (sortMembers members).Perm members := List.perm_insertionSort _ _
  have hnodup : (sortMembers members).Pairwise fun a b => a.1 ≠ b.1 :=
    List.pairwise_map.mp ((hperm.map Prod.fst).nodup_iff.mpr hkeys)
  refine ⟨canonicalMembers_iff.mpr fun member hmember => hmembers member (hperm.mem_iff.mp hmember),
    (hsorted.and hnodup).imp fun h => lt_of_le_of_ne h.1 h.2⟩

/-! ## The round trip -/

theorem escapeChar_ascii {c u : Nat} (hc : IsCodePoint c) (hu : u ∈ escapeChar c) :
    0x20 ≤ u ∧ u < 0x80 := by
  have hunicode : ∀ v < 0x10000, u ∈ unicodeEscape v → 0x20 ≤ u ∧ u < 0x80 := by
    intro v hv hmem
    have h₁ := hexDigit_ascii (v / 0x1000) (by omega)
    have h₂ := hexDigit_ascii (v / 0x100 % 16) (by omega)
    have h₃ := hexDigit_ascii (v / 16 % 16) (by omega)
    have h₄ := hexDigit_ascii (v % 16) (by omega)
    simp only [unicodeEscape, List.mem_cons, List.not_mem_nil, or_false] at hmem
    rcases hmem with rfl | rfl | rfl | rfl | rfl | rfl <;> first | assumption | decide
  have hmax : c ≤ 0x10FFFF := hc
  rw [escapeChar] at hu
  cases hshort : shortEscape c with
  | some e =>
      have he := shortEscape_ascii hshort
      simp only [hshort, List.mem_cons, List.not_mem_nil, or_false] at hu
      rcases hu with rfl | rfl
      · decide
      · exact he
  | none =>
      simp only [hshort] at hu
      split_ifs at hu with hprint hbmp
      · obtain rfl := List.mem_singleton.mp hu
        omega
      · exact hunicode c hbmp hu
      · rcases List.mem_append.mp hu with h | h
        · exact hunicode _ (by unfold highSurrogate; omega) h
        · exact hunicode _ (by unfold lowSurrogate; omega) h

private theorem quote_ascii {s : CodePoints} (hs : ∀ c ∈ s, IsScalar c) {u : Nat}
    (hu : u ∈ quote s) : 0x20 ≤ u ∧ u < 0x80 := by
  rw [quote, List.mem_cons, List.mem_append, List.mem_singleton, escape, List.mem_flatMap] at hu
  rcases hu with rfl | ⟨c, hc, hu⟩ | rfl
  · decide
  · exact escapeChar_ascii (hs c hc).isCodePoint hu
  · decide

private theorem joinComma_ascii {parts : List CodePoints}
    (h : ∀ part ∈ parts, ∀ u ∈ part, 0x20 ≤ u ∧ u < 0x80) :
    ∀ u ∈ joinComma parts, 0x20 ≤ u ∧ u < 0x80 := by
  induction parts with
  | nil => simp
  | cons part parts ih =>
      have ih := ih fun p hp => h p (List.mem_cons_of_mem _ hp)
      have hpart := h part List.mem_cons_self
      cases parts with
      | nil => simpa using hpart
      | cons next parts =>
          intro u hu
          rw [joinComma_cons_cons, List.mem_append, List.mem_cons] at hu
          rcases hu with hu | rfl | hu
          · exact hpart u hu
          · decide
          · exact ih u hu

mutual

/-- A canonical text is printable ASCII. -/
theorem dumps_ascii : (value : Json) → Canonical value →
    ∀ u ∈ dumps value, 0x20 ≤ u ∧ u < 0x80
  | .null, _ => by decide
  | .bool true, _ => by decide
  | .bool false, _ => by decide
  | .string value, h => fun u hu => quote_ascii h hu
  | .array elements, h => by
      intro u hu
      rw [dumps, List.mem_cons, List.mem_append, List.mem_singleton] at hu
      rcases hu with rfl | hu | rfl
      · decide
      · exact joinComma_ascii (dumpsElements_ascii elements h) u hu
      · decide
  | .object members, h => by
      intro u hu
      rw [dumps_object h.2, List.mem_cons, List.mem_append, List.mem_singleton] at hu
      rcases hu with rfl | hu | rfl
      · decide
      · refine joinComma_ascii (fun part hpart => ?_) u hu
        obtain ⟨member, hmember, rfl⟩ := List.mem_map.mp hpart
        exact dumpsMembers_ascii members h.1 member hmember
      · decide

theorem dumpsElements_ascii : (elements : List Json) → CanonicalElements elements →
    ∀ text ∈ dumpsElements elements, ∀ u ∈ text, 0x20 ≤ u ∧ u < 0x80
  | [], _ => by simp [dumpsElements]
  | element :: elements, h => by
      rw [dumpsElements, List.forall_mem_cons]
      exact ⟨dumps_ascii element h.1, dumpsElements_ascii elements h.2⟩

theorem dumpsMembers_ascii : (members : List (CodePoints × Json)) → CanonicalMembers members →
    ∀ member ∈ dumpsMembers members, ∀ u ∈ memberText member, 0x20 ≤ u ∧ u < 0x80
  | [], _ => by simp [dumpsMembers]
  | (key, value) :: members, h => by
      rw [dumpsMembers, List.forall_mem_cons]
      refine ⟨fun u hu => ?_, dumpsMembers_ascii members h.2⟩
      rw [memberText, List.mem_append, List.mem_cons] at hu
      rcases hu with hu | rfl | hu
      · exact quote_ascii h.1.1 hu
      · decide
      · exact dumps_ascii value h.1.2 u hu

end

/-- Bytes of printable ASCII are taken for UTF-8. -/
theorem decodeText_ascii {bytes : List Nat} (h : ∀ b ∈ bytes, 0x20 ≤ b ∧ b < 0x80) :
    decodeText bytes = some bytes := by
  have hutf8 : utf8Decode bytes = some bytes := utf8Decode_ascii fun b hb => (h b hb).2
  cases bytes with
  | nil => exact hutf8
  | cons b₀ bytes =>
      have h₀ := h b₀ List.mem_cons_self
      have hmarks : (0x00 == b₀) = false ∧ (0xFF == b₀) = false ∧ (0xFE == b₀) = false ∧
          (0xEF == b₀) = false := by
        simp only [beq_eq_false_iff_ne]
        omega
      obtain ⟨hzero, hff, hfe, hef⟩ := hmarks
      have hb₀ : b₀ ≠ 0 := by omega
      unfold decodeText
      simp only [List.isPrefixOf, hzero, hff, hfe, hef, Bool.false_and, Bool.false_eq_true,
        if_false]
      match bytes, h, hutf8 with
      | [], _, hutf8 => exact hutf8
      | [b₁], h, hutf8 =>
          have hb₁ : b₁ ≠ 0 := by have := h b₁ (by simp); omega
          simpa [hb₀, hb₁] using hutf8
      | [_, _], _, hutf8 => exact hutf8
      | b₁ :: b₂ :: b₃ :: rest, h, hutf8 =>
          have hb₁ : b₁ ≠ 0 := by have := h b₁ (by simp); omega
          simpa [hb₀, hb₁] using hutf8

/-- `json.loads(json.dumps(value, separators=(",", ":"), sort_keys=True).encode()) == value`. -/
theorem loads_dumps {value : Json} (h : Canonical value) : loads (dumps value) = some value := by
  have hscan := scanValue_dumps value h ((dumps value).length + 1) [] (by omega)
  have hspace := skipWhitespace_dumps h []
  rw [List.append_nil] at hscan hspace
  have hend : skipWhitespace [] = [] := rfl
  simp [loads, decodeText_ascii (dumps_ascii value h), hspace, hscan, hend]

end Foundation.Json
