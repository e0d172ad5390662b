import ProjectsApi.Api.CursorCodec
import ProjectsApi.Foundation.JsonPrefix

/-!
# Tokens that were tampered with

A token that is cut short is refused.  A token that is edited may be accepted: the decoders
of base64 and JSON are lenient, so a cursor has more spellings than the one that
`encode_cursor` writes.
-/

namespace ProjectsApi

open Foundation

/-! ## Truncated tokens -/

/-- `encode_cursor` of any dictionary. -/
def encodeCursorJson (key : Json) : Option String :=
  (utf8Encode (Json.dumps key)).map fun raw =>
    String.ofList ((urlsafeB64encode raw).rdropWhile (· == '='))

theorem encodeCursorJson_eq {value : Json} (h : value.Canonical) :
    encodeCursorJson value = some (String.ofList ((sextets value.dumps).map sextetChar)) := by
  have hascii := Json.dumps_ascii _ h
  exact base64Text_ascii fun b hb => (hascii b hb).2

/-- A string-valued attribute: `{"S": text}`, or a plain text. -/
def IsStringAttribute (value : Json) : Prop :=
  ∃ text : String, value = attributeJson (codePoints text) ∨ value = .string (codePoints text)

/-- The dictionary of attributes in the order they were added. -/
def attributesJson (attributes : List (String × Json)) : Json :=
  .object (attributes.map fun attr => (codePoints attr.1, attr.2))

theorem IsStringAttribute.canonical {value : Json} (h : IsStringAttribute value) :
    value.Canonical := by
  obtain ⟨text, rfl | rfl⟩ := h
  · exact attributeJson_canonical fun c hc => isScalar_of_mem_codePoints hc
  · exact fun c hc => isScalar_of_mem_codePoints hc

/-- A proper prefix of a token of a canonical text is refused. -/
theorem decodeCursor_cut {value : Json} (h : value.Canonical) {token p : String}
    (htoken : encodeCursorJson value = some token) (hstart : p.toList <+: token.toList)
    (hne : p ≠ token) (ownerId : String) : decodeCursor p ownerId = .error .invalidCursor := by
  rw [encodeCursorJson_eq h, Option.some_inj] at htoken
  subst htoken
  have hbytes : ∀ b ∈ value.dumps, b < 256 :=
    fun b hb => lt_trans (Json.dumps_ascii _ h b hb).2 (by decide)
  rw [String.toList_ofList] at hstart
  have htake := List.prefix_iff_eq_take.mp hstart
  have hshort : p.toList.length < (sextets value.dumps).length := by
    refine lt_of_le_of_ne (by simpa using hstart.length_le) fun heq => hne ?_
    rw [heq, ← List.length_map (f := sextetChar), List.take_length] at htake
    rw [← htake, String.ofList_toList]
  have hloads : (urlsafeB64decode (p.toList ++ padding p.length)).bind Json.loads = none := by
    rw [← String.length_toList, htake, List.length_take, List.length_map, min_eq_left hshort.le]
    obtain hnone | ⟨k, hk, hsome⟩ := urlsafeB64decode_take hbytes hshort
    · rw [hnone]
      rfl
    · rw [hsome]
      refine Json.loads_cut h ⟨value.dumps.drop k, ?_, List.take_append_drop _ _⟩
      simpa using hk
  unfold decodeCursor
  split_ifs
  · rfl
  · rw [hloads]

/-- Truncated tokens are always rejected. -/
theorem truncated_token_refused {attributes : List (String × Json)}
    (hkeys : (attributes.map Prod.fst).Nodup)
    (hvalues : ∀ attr ∈ attributes, IsStringAttribute attr.2) {token p : String}
    (htoken : encodeCursorJson (attributesJson attributes) = some token)
    (hstart : p.toList <+: token.toList) (hne : p ≠ token) (ownerId : String) :
    decodeCursor p ownerId = .error .invalidCursor := by
  have hcanonical : (Json.object (Json.sortMembers
      (attributes.map fun attr => (codePoints attr.1, attr.2)))).Canonical := by
    refine Json.canonical_sortMembers ?_ ?_
    · rw [List.map_map]
      have hnames := hkeys.map codePoints_injective
      rwa [List.map_map] at hnames
    · intro member hmember
      obtain ⟨attr, hattribute, rfl⟩ := List.mem_map.mp hmember
      exact ⟨fun c hc => isScalar_of_mem_codePoints hc, (hvalues attr hattribute).canonical⟩
  rw [attributesJson, encodeCursorJson, ← Json.dumps_sortMembers] at htoken
  exact decodeCursor_cut hcanonical htoken hstart hne ownerId

/-- Every truncation of one token. -/
theorem truncations_refused :
    ∃ token, encodeCursorJson (attributesJson [("SK", attributeJson (codePoints "META")),
        ("GSI1PK", .string (codePoints "OWNER#key-1"))]) = some token ∧
      ∀ n < token.length,
        decodeCursor (String.ofList (token.toList.take n)) "key-1" = .error .invalidCursor := by
  have htoken : ∃ token, encodeCursorJson (attributesJson
      [("SK", attributeJson (codePoints "META")),
        ("GSI1PK", .string (codePoints "OWNER#key-1"))]) = some token :=
    Option.isSome_iff_exists.mp (by decide +kernel)
  obtain ⟨token, htoken⟩ := htoken
  refine ⟨token, htoken, fun n hn => ?_⟩
  refine truncated_token_refused (by decide) ?_ htoken ?_ ?_ "key-1"
  · intro attr hattr
    simp only [List.mem_cons, List.not_mem_nil, or_false] at hattr
    obtain rfl | rfl := hattr
    · exact ⟨"META", Or.inl rfl⟩
    · exact ⟨"OWNER#key-1", Or.inr rfl⟩
  · rw [String.toList_ofList]
    exact List.take_prefix n _
  · intro heq
    have hlength := congrArg String.length heq
    rw [← String.length_toList, String.toList_ofList, List.length_take,
      String.length_toList] at hlength
    omega

end ProjectsApi
