import ProjectsApi.Foundation.JsonRoundTrip

/-!
# A truncated JSON text is not JSON

`loads_cut`: no text that stops before the end of `dumps value` is accepted.  A cut falls
into one of the parts a text is made of; the parts before it are read as they were written,
and the scanner fails in the part that is cut.
-/

namespace Foundation.Json

/-! ## Cuts -/

/-- The text `p` stops before the end of `whole`. -/
def Cut (p whole : CodePoints) : Prop := ∃ rest, rest ≠ [] ∧ p ++ rest = whole

namespace Cut

variable {p a b : CodePoints} {c : Nat}

theorem nil_right : ¬ Cut p [] := by
  intro h
  obtain ⟨rest, hrest, heq⟩ := h
  exact hrest (List.append_eq_nil_iff.mp heq).2

/-- A cut of two parts falls into the first or into the second. -/
theorem append (h : Cut p (a ++ b)) : Cut p a ∨ ∃ p', p = a ++ p' ∧ Cut p' b := by
  obtain ⟨rest, hrest, heq⟩ := h
  obtain ⟨a', rfl, rfl⟩ | ⟨p', rfl, rfl⟩ := List.append_eq_append_iff.mp heq
  · by_cases ha' : a' = []
    · subst ha'
      exact Or.inr ⟨[], by simp, b, hrest, rfl⟩
    · exact Or.inl ⟨a', ha', rfl⟩
  · exact Or.inr ⟨p', rfl, rest, hrest, rfl⟩

theorem cons (h : Cut p (c :: b)) : p = [] ∨ ∃ p', p = c :: p' ∧ Cut p' b := by
  obtain hnil | ⟨p', rfl, hcut⟩ := append (a := [c]) h
  · obtain ⟨rest, hrest, heq⟩ := hnil
    cases p with
    | nil => exact Or.inl rfl
    | cons d p =>
        obtain ⟨-, htail⟩ := List.cons.inj heq
        exact absurd (List.append_eq_nil_iff.mp htail).2 hrest
  · exact Or.inr ⟨p', rfl, hcut⟩

theorem singleton (h : Cut p [c]) : p = [] := by
  obtain hnil | ⟨p', -, hcut⟩ := h.cons
  · exact hnil
  · exact absurd hcut nil_right

theorem length_lt (h : Cut p a) : p.length < a.length := by
  obtain ⟨rest, hrest, rfl⟩ := h
  have hpos := List.length_pos_of_ne_nil hrest
  rw [List.length_append]
  omega

end Cut

/-! ## Cut strings -/

private theorem scanUnits_nil : scanUnits [] = none := by
  rw [scanUnits.eq_def]

private theorem scanUnits_backslash : scanUnits [0x5C] = none := by
  rw [scanUnits.eq_def]
  rfl

theorem scanUnits_cut_unicodeEscape {u : Nat} {p : CodePoints} (h : Cut p (unicodeEscape u)) :
    scanUnits p = none := by
  obtain rfl | ⟨p₁, rfl, h₁⟩ := h.cons
  · exact scanUnits_nil
  obtain rfl | ⟨p₂, rfl, h₂⟩ := h₁.cons
  · exact scanUnits_backslash
  have hshort := h₂.length_lt
  rw [scanUnits.eq_def]
  rcases p₂ with _ | ⟨_, _ | ⟨_, _ | ⟨_, _ | ⟨_, rest⟩⟩⟩⟩
  · rfl
  · rfl
  · rfl
  · rfl
  · simp only [List.length_cons, List.length_nil] at hshort
    omega

theorem scanUnits_cut_escapeChar {c : Nat} (hc : IsScalar c) {p : CodePoints}
    (h : Cut p (escapeChar c)) : scanUnits p = none := by
  have hmax : c ≤ 0x10FFFF := by rcases hc with h | h <;> omega
  rw [escapeChar] at h
  cases hshort : shortEscape c with
  | some e =>
      rw [hshort] at h
      obtain rfl | ⟨p', rfl, h'⟩ := h.cons
      · exact scanUnits_nil
      · rw [h'.singleton]
        exact scanUnits_backslash
  | none =>
      rw [hshort] at h
      dsimp only at h
      split_ifs at h
      · rw [h.singleton]
        exact scanUnits_nil
      · exact scanUnits_cut_unicodeEscape h
      · obtain hhigh | ⟨p', rfl, hlow⟩ := h.append
        · exact scanUnits_cut_unicodeEscape hhigh
        · have hbound : highSurrogate c < 0x10000 := by unfold highSurrogate; omega
          rw [scanUnits_unicodeEscape hbound, scanUnits_cut_unicodeEscape hlow]
          rfl

/-- A string without its end is not accepted. -/
theorem scanString_cut {s : CodePoints} (hs : ∀ c ∈ s, IsScalar c) {p : CodePoints}
    (h : Cut p (escape s ++ [0x22])) : scanString p = none := by
  suffices hunits : scanUnits p = none by rw [scanString, hunits]; rfl
  induction s generalizing p with
  | nil =>
      rw [h.singleton]
      exact scanUnits_nil
  | cons c s ih =>
      rw [escape, List.flatMap_cons, List.append_assoc] at h
      have hc := hs c List.mem_cons_self
      -- the cut is in the first character or behind it
      obtain hcut | ⟨p', rfl, hcut⟩ := h.append
      · exact scanUnits_cut_escapeChar hc hcut
      · rw [scanUnits_escapeChar hc.isCodePoint,
          ih (fun d hd => hs d (List.mem_cons_of_mem _ hd)) hcut]
        rfl

/-! ## Fuel -/

private theorem bind_mono {α β : Type} {a a' : Option α} {f f' : α → Option β} {b : β}
    (ha : ∀ x, a = some x → a' = some x) (hf : ∀ x, f x = some b → f' x = some b)
    (h : a.bind f = some b) : a'.bind f' = some b := by
  obtain ⟨x, hx, hb⟩ := Option.bind_eq_some_iff.mp h
  rw [ha x hx]
  exact hf x hb

private theorem map_mono {α β : Type} {a a' : Option α} {f : α → β} {b : β}
    (ha : ∀ x, a = some x → a' = some x) (h : a.map f = some b) : a'.map f = some b := by
  obtain ⟨x, hx, rfl⟩ := Option.map_eq_some_iff.mp h
  rw [ha x hx]
  rfl

/-- What a scan accepts it accepts with more fuel. -/
private theorem scan_succ (fuel : Nat) :
    (∀ text r, scanValue fuel text = some r → scanValue (fuel + 1) text = some r) ∧
    (∀ text r, scanMembers fuel text = some r → scanMembers (fuel + 1) text = some r) ∧
    ∀ text r, scanElements fuel text = some r → scanElements (fuel + 1) text = some r := by
  induction fuel with
  | zero =>
      refine ⟨?_, ?_, ?_⟩ <;>
        · intro text r h
          cases h
  | succ fuel ih =>
      obtain ⟨hvalue, hmembers, helements⟩ := ih
      refine ⟨?_, ?_, ?_⟩
      · intro text r h
        cases text with
        | nil => exact h
        | cons c text =>
            rw [scanValue] at h ⊢
            dsimp only at h ⊢
            split_ifs at h ⊢
            · exact h
            · exact h
            · exact map_mono (hmembers _) h
            · exact h
            · exact map_mono (helements _) h
            · exact h
      · intro text r h
        rw [scanMembers] at h ⊢
        split_ifs at h ⊢
        refine bind_mono (fun _ hx => hx) (fun key hkey => ?_) h
        dsimp only at hkey ⊢
        split_ifs at hkey ⊢
        refine bind_mono (hvalue _) (fun value hrest => ?_) hkey
        split_ifs at hrest ⊢
        · exact hrest
        · exact map_mono (hmembers _) hrest
      · intro text r h
        rw [scanElements] at h ⊢
        refine bind_mono (hvalue _) (fun value hrest => ?_) h
        dsimp only at hrest ⊢
        split_ifs at hrest ⊢
        · exact hrest
        · exact map_mono (helements _) hrest

theorem scanValue_mono {fuel fuel' : Nat} (h : fuel ≤ fuel') {text : CodePoints}
    {r : Json × CodePoints} (hscan : scanValue fuel text = some r) :
    scanValue fuel' text = some r := by
  induction h with
  | refl => exact hscan
  | step _ ih => exact (scan_succ _).1 _ _ ih

/-- With any fuel the scanner reads a canonical value right, or gives up. -/
theorem scanValue_dumps_cases {value : Json} (h : Canonical value) (fuel : Nat)
    (rest : CodePoints) : scanValue fuel (dumps value ++ rest) = none ∨
      scanValue fuel (dumps value ++ rest) = some (value, rest) := by
  cases hscan : scanValue fuel (dumps value ++ rest) with
  | none => exact Or.inl rfl
  | some r =>
      have hmore := scanValue_mono (Nat.le_add_right fuel (dumps value).length) hscan
      rw [scanValue_dumps value h _ rest (by omega)] at hmore
      exact Or.inr hmore.symm

/-! ## Cut values -/

/-- A cut text begins as the whole does. -/
theorem skipWhitespace_cut {p text : CodePoints} {c : Nat} (hc : isWhitespace c = false)
    (h : Cut p (c :: text)) : skipWhitespace p = p := by
  obtain rfl | ⟨p', rfl, -⟩ := h.cons
  · rfl
  · exact skipWhitespace_cons hc p'

theorem skipWhitespace_cut_dumps {value : Json} (h : Canonical value) {p text : CodePoints}
    (hcut : Cut p (dumps value ++ text)) : skipWhitespace p = p := by
  obtain ⟨c, rest, hdumps, hc, -⟩ := dumps_head h
  rw [hdumps, List.cons_append] at hcut
  exact skipWhitespace_cut hc hcut

private theorem scanValue_nil (fuel : Nat) : scanValue fuel [] = none := by
  cases fuel <;> rfl

private theorem scanMembers_of_scanString_none {fuel : Nat} {text : CodePoints}
    (h : scanString text = none) : scanMembers fuel (0x22 :: text) = none := by
  cases fuel <;> simp [scanMembers, h]

/-- Members that are cut after the name of one. -/
private theorem scanMembers_of_no_colon {fuel : Nat} {text key : CodePoints}
    (h : scanString text = some (key, [])) : scanMembers fuel (0x22 :: text) = none := by
  cases fuel <;> simp [scanMembers, h, skipWhitespace]

private theorem scanMembers_of_scanValue_none {fuel : Nat} {text key after : CodePoints}
    (hkey : scanString text = some (key, 0x3A :: after)) (hspace : skipWhitespace after = after)
    (hvalue : scanValue fuel after = none) : scanMembers (fuel + 1) (0x22 :: text) = none := by
  have hcolon := skipWhitespace_cons (c := 0x3A) rfl after
  simp [scanMembers, hkey, hcolon, hspace, hvalue]

private theorem scanMembers_of_no_end {fuel : Nat} {text key after : CodePoints} {value : Json}
    (hkey : scanString text = some (key, 0x3A :: after)) (hspace : skipWhitespace after = after)
    (hvalue : scanValue fuel after = some (value, [])) :
    scanMembers (fuel + 1) (0x22 :: text) = none := by
  have hcolon := skipWhitespace_cons (c := 0x3A) rfl after
  have hend : skipWhitespace [] = [] := rfl
  simp [scanMembers, hkey, hcolon, hspace, hvalue, hend]

private theorem scanMembers_of_next_none {fuel : Nat} {text key after next : CodePoints}
    {value : Json} (hkey : scanString text = some (key, 0x3A :: after))
    (hspace : skipWhitespace after = after)
    (hvalue : scanValue fuel after = some (value, 0x2C :: next))
    (hnext : skipWhitespace next = next) (hscan : scanMembers fuel next = none) :
    scanMembers (fuel + 1) (0x22 :: text) = none := by
  have hcolon := skipWhitespace_cons (c := 0x3A) rfl after
  have hcomma := skipWhitespace_cons (c := 0x2C) rfl next
  simp [scanMembers, hkey, hcolon, hspace, hvalue, hcomma, hnext, hscan]

private theorem scanElements_of_scanValue_none {fuel : Nat} {text : CodePoints}
    (h : scanValue fuel text = none) : scanElements (fuel + 1) text = none := by
  simp [scanElements, h]

private theorem scanElements_of_no_end {fuel : Nat} {text : CodePoints} {value : Json}
    (h : scanValue fuel text = some (value, [])) : scanElements (fuel + 1) text = none := by
  have hend : skipWhitespace [] = [] := rfl
  simp [scanElements, h, hend]

private theorem scanElements_of_next_none {fuel : Nat} {text next : CodePoints} {value : Json}
    (hvalue : scanValue fuel text = some (value, 0x2C :: next))
    (hnext : skipWhitespace next = next) (hscan : scanElements fuel next = none) :
    scanElements (fuel + 1) text = none := by
  have hcomma := skipWhitespace_cons (c := 0x2C) rfl next
  simp [scanElements, hvalue, hcomma, hnext, hscan]

/-- A word that is cut is neither a word nor a number. -/
private theorem scanValue_cut_word {word p : CodePoints}
    (hword : word ∈ [codePoints "null", codePoints "true", codePoints "false"])
    (h : Cut p word) (fuel : Nat) : scanValue fuel p = none := by
  have hall : ∀ word ∈ [codePoints "null", codePoints "true", codePoints "false"],
      ∀ n < word.length, (scanPlain (word.take n)).isNone = true ∧
        ∀ c ∈ (word.take n).head?, c ≠ 0x22 ∧ c ≠ 0x7B ∧ c ≠ 0x5B := by decide
  obtain ⟨rest, hrest, rfl⟩ := h
  have hpos := List.length_pos_of_ne_nil hrest
  obtain ⟨hplain, hhead⟩ := hall _ hword p.length (by rw [List.length_append]; omega)
  rw [List.take_left] at hplain hhead
  -- a word begins like no string, object or array, so it is read by `scanPlain`
  match fuel, p with
  | 0, _ => rfl
  | _ + 1, [] => rfl
  | fuel + 1, c :: text =>
      obtain ⟨hquote, hbrace, hbracket⟩ := hhead c rfl
      simpa [scanValue, hquote, hbrace, hbracket] using hplain

/-- A list of elements that is cut, from its first element and what follows that. -/
private theorem scanElements_cut_of_tail {element : Json} (h : Canonical element)
    (helement : ∀ fuel p, Cut p (dumps element) → scanValue fuel p = none)
    {tail : CodePoints}
    (htail : ∀ fuel p, Cut p tail → p = [] ∨ ∃ next, p = 0x2C :: next ∧
      skipWhitespace next = next ∧ scanElements fuel next = none)
    {fuel : Nat} {p : CodePoints} (hcut : Cut p (dumps element ++ tail)) :
    skipWhitespace p = p ∧ p.head? ≠ some 0x5D ∧ scanElements fuel p = none := by
  refine ⟨skipWhitespace_cut_dumps h hcut, ?_, ?_⟩
  · obtain ⟨c, text, hdumps, -, hbracket⟩ := dumps_head h
    rw [hdumps, List.cons_append] at hcut
    obtain rfl | ⟨p', rfl, -⟩ := hcut.cons
    · simp
    · simpa using hbracket
  cases fuel with
  | zero => rfl
  | succ fuel =>
      -- the cut is in the first element, right behind it, or in what follows the comma
      obtain hfirst | ⟨p', rfl, hrest⟩ := hcut.append
      · exact scanElements_of_scanValue_none (helement fuel p hfirst)
      obtain hnone | hvalue := scanValue_dumps_cases h fuel p'
      · exact scanElements_of_scanValue_none hnone
      obtain rfl | ⟨next, rfl, hnext, hscan⟩ := htail fuel p' hrest
      · exact scanElements_of_no_end hvalue
      · exact scanElements_of_next_none hvalue hnext hscan

/-- Members that are cut, from the first of them and what follows that. -/
private theorem scanMembers_cut_of_tail {key : CodePoints} {value : Json}
    (h : (∀ c ∈ key, IsScalar c) ∧ Canonical value)
    (hcutValue : ∀ fuel p, Cut p (dumps value) → scanValue fuel p = none) {tail : CodePoints}
    (htail : ∀ fuel p, Cut p tail → p = [] ∨ ∃ next, p = 0x2C :: next ∧
      skipWhitespace next = next ∧ scanMembers fuel next = none)
    {fuel : Nat} {p : CodePoints}
    (hcut : Cut p (0x22 :: (escape key ++ [0x22] ++ 0x3A :: (dumps value ++ tail)))) :
    skipWhitespace p = p ∧ p.head? ≠ some 0x7D ∧ scanMembers fuel p = none := by
  obtain rfl | ⟨p₁, rfl, h₁⟩ := hcut.cons
  · exact ⟨rfl, by simp, by cases fuel <;> simp [scanMembers]⟩
  refine ⟨skipWhitespace_cons rfl _, by simp, ?_⟩
  -- the cut is in the name, at the colon, in the value or behind it
  obtain hname | ⟨p₂, rfl, h₂⟩ := h₁.append
  · exact scanMembers_of_scanString_none (scanString_cut h.1 hname)
  have hkey : ∀ p, scanString (escape key ++ [0x22] ++ p) = some (key, p) := by
    intro p
    rw [List.append_assoc]
    exact scanString_escape h.1 p
  obtain rfl | ⟨p₃, rfl, h₃⟩ := h₂.cons
  · exact scanMembers_of_no_colon (hkey [])
  have hspace := skipWhitespace_cut_dumps h.2 h₃
  cases fuel with
  | zero => rfl
  | succ fuel =>
      obtain hvalue | ⟨p₄, rfl, h₄⟩ := h₃.append
      · exact scanMembers_of_scanValue_none (hkey _) hspace (hcutValue fuel p₃ hvalue)
      obtain hnone | hvalue := scanValue_dumps_cases h.2 fuel p₄
      · exact scanMembers_of_scanValue_none (hkey _) hspace hnone
      obtain rfl | ⟨next, rfl, hnext, hscan⟩ := htail fuel p₄ h₄
      · exact scanMembers_of_no_end (hkey _) hspace hvalue
      · exact scanMembers_of_next_none (hkey _) hspace hvalue hnext hscan

mutual

/-- The scanner does not accept a canonical text that is cut. -/
theorem scanValue_cut : (value : Json) → Canonical value → ∀ (fuel : Nat) (p : CodePoints),
    Cut p (dumps value) → scanValue fuel p = none
  | .null, _, fuel, p, hcut => scanValue_cut_word (by simp [dumps]) hcut fuel
  | .bool true, _, fuel, p, hcut => scanValue_cut_word (by simp [dumps]) hcut fuel
  | .bool false, _, fuel, p, hcut => scanValue_cut_word (by simp [dumps]) hcut fuel
  | .string value, h, 0, p, hcut => rfl
  | .string value, h, fuel + 1, p, hcut => by
      obtain rfl | ⟨p', rfl, hcut'⟩ := hcut.cons
      · rfl
      · simp [scanValue, scanString_cut h hcut']
  | .array elements, h, 0, p, hcut => rfl
  | .array [], _, fuel + 1, p, hcut => by
      obtain rfl | ⟨p', rfl, hcut'⟩ := hcut.cons
      · rfl
      · rw [dumpsElements, joinComma_nil, List.nil_append] at hcut'
        rw [hcut'.singleton]
        have hnone : scanElements fuel [] = none := by
          cases fuel <;> simp [scanElements, scanValue_nil]
        simp [scanValue, skipWhitespace, hnone]
  | .array (element :: elements), h, fuel + 1, p, hcut => by
      obtain rfl | ⟨p', rfl, hcut'⟩ := hcut.cons
      · rfl
      · obtain ⟨hspace, hhead, hscan⟩ := scanElements_cut element elements h fuel p' hcut'
        simp [scanValue, hspace, hhead, hscan]
  | .object members, h, 0, p, hcut => rfl
  | .object [], _, fuel + 1, p, hcut => by
      obtain rfl | ⟨p', rfl, hcut'⟩ := hcut.cons
      · rfl
      · simp only [dumpsMembers, List.insertionSort_nil, List.map_nil, joinComma_nil,
          List.nil_append] at hcut'
        rw [hcut'.singleton]
        have hnone : scanMembers fuel [] = none := by cases fuel <;> simp [scanMembers]
        simp [scanValue, skipWhitespace, hnone]
  | .object (member :: members), h, fuel + 1, p, hcut => by
      rw [dumps_object h.2] at hcut
      obtain rfl | ⟨p', rfl, hcut'⟩ := hcut.cons
      · rfl
      · obtain ⟨hspace, hhead, hscan⟩ := scanMembers_cut member members h.1 fuel p' hcut'
        simp [scanValue, hspace, hhead, hscan]
  termination_by value => sizeOf value

theorem scanElements_cut : (element : Json) → (elements : List Json) →
    CanonicalElements (element :: elements) → ∀ (fuel : Nat) (p : CodePoints),
    Cut p (joinComma (dumpsElements (element :: elements)) ++ [0x5D]) →
    skipWhitespace p = p ∧ p.head? ≠ some 0x5D ∧ scanElements fuel p = none
  | element, [], h, fuel, p, hcut => by
      rw [dumpsElements, dumpsElements, joinComma_singleton] at hcut
      exact scanElements_cut_of_tail h.1 (scanValue_cut element h.1)
        (fun _ _ hend => Or.inl hend.singleton) hcut
  | element, next :: elements, h, fuel, p, hcut => by
      rw [dumpsElements, dumpsElements, joinComma_cons_cons, List.append_assoc,
        List.cons_append] at hcut
      refine scanElements_cut_of_tail h.1 (scanValue_cut element h.1) ?_ hcut
      intro fuel p hrest
      obtain rfl | ⟨p', rfl, hcut'⟩ := hrest.cons
      · exact Or.inl rfl
      · obtain ⟨hspace, -, hscan⟩ := scanElements_cut next elements h.2 fuel p' hcut'
        exact Or.inr ⟨p', rfl, hspace, hscan⟩
  termination_by element elements => sizeOf element + sizeOf elements

theorem scanMembers_cut : (member : CodePoints × Json) → (members : List (CodePoints × Json)) →
    CanonicalMembers (member :: members) → ∀ (fuel : Nat) (p : CodePoints),
    Cut p (joinComma ((dumpsMembers (member :: members)).map memberText) ++ [0x7D]) →
    skipWhitespace p = p ∧ p.head? ≠ some 0x7D ∧ scanMembers fuel p = none
  | (key, value), [], h, fuel, p, hcut => by
      have hone : joinComma ((dumpsMembers [(key, value)]).map memberText) ++ [0x7D] =
          0x22 :: (escape key ++ [0x22] ++ 0x3A :: (dumps value ++ [0x7D])) := by
        simp [dumpsMembers, memberText, quote]
      rw [hone] at hcut
      exact scanMembers_cut_of_tail h.1 (scanValue_cut value h.1.2)
        (fun _ _ hend => Or.inl hend.singleton) hcut
  | (key, value), next :: members, h, fuel, p, hcut => by
      have hsplit : joinComma ((dumpsMembers ((key, value) :: next :: members)).map memberText) ++
          [0x7D] = 0x22 :: (escape key ++ [0x22] ++ 0x3A :: (dumps value ++ 0x2C ::
            (joinComma ((dumpsMembers (next :: members)).map memberText) ++ [0x7D]))) := by
        simp [dumpsMembers, memberText, quote]
      rw [hsplit] at hcut
      refine scanMembers_cut_of_tail h.1 (scanValue_cut value h.1.2) ?_ hcut
      intro fuel p hrest
      obtain rfl | ⟨p', rfl, hcut'⟩ := hrest.cons
      · exact Or.inl rfl
      · obtain ⟨hspace, -, hscan⟩ := scanMembers_cut next members h.2 fuel p' hcut'
        exact Or.inr ⟨p', rfl, hspace, hscan⟩
  termination_by member members => sizeOf member + sizeOf members

end

/-- A text that stops before the end of a canonical text is not JSON. -/
theorem loads_cut {value : Json} (h : Canonical value) {p : CodePoints}
    (hcut : Cut p (dumps value)) : loads p = none := by
  -- a text of ASCII characters is decoded as UTF-8
  have hascii : ∀ b ∈ p, 0x20 ≤ b ∧ b < 0x80 := by
    intro b hb
    obtain ⟨rest, -, heq⟩ := hcut
    exact dumps_ascii value h b (heq ▸ List.mem_append_left _ hb)
  have hspace : skipWhitespace p = p := by
    obtain ⟨c, text, hdumps, hc, -⟩ := dumps_head h
    exact skipWhitespace_cut hc (hdumps ▸ hcut)
  have hscan := scanValue_cut value h (p.length + 1) p hcut
  simp [loads, decodeText_ascii hascii, hspace, hscan]

end Foundation.Json
