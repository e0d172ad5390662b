import ProjectsApi.Foundation.Base64
import ProjectsApi.Foundation.JsonRoundTrip
import ProjectsApi.Repository.Items

/-!
# Opaque cursor tokens

A `nextToken` is the URL-safe base64, padding stripped, of the compact JSON of the
raw `LastEvaluatedKey`.  Decoding checks the shape and that the index partition is
the caller's.
-/

namespace ProjectsApi

open Foundation Dynamo

/-! ## Encoding -/

/-- `{"S": value}` -/
def attributeJson (value : CodePoints) : Json :=
  .object [(codePoints "S", .string value)]

/-- The dictionary of a `LastEvaluatedKey`. -/
def cursorJson (key : CursorKey) : Json :=
  .object [(codePoints "GSI1PK", attributeJson key.gsi1pk),
    (codePoints "GSI1SK", attributeJson key.gsi1sk),
    (codePoints "PK", attributeJson key.pk),
    (codePoints "SK", attributeJson key.sk)]

/-- `encode_cursor`; `none` is a `UnicodeEncodeError`. -/
def encodeCursor (key : CursorKey) : Option String :=
  (utf8Encode (Json.dumps (cursorJson key))).map fun raw =>
    String.ofList ((urlsafeB64encode raw).rdropWhile (· == '='))

/-! ## Decoding -/

def maxTokenLength : Nat := 1024

def cursorKeys : List CodePoints :=
  [codePoints "PK", codePoints "SK", codePoints "GSI1PK", codePoints "GSI1SK"]

/-- `set(members) == set(keys)` -/
def sameKeys (members : List (CodePoints × Json)) (keys : List CodePoints) : Bool :=
  members.all (fun member => keys.contains member.1) &&
    keys.all fun key => (members.map Prod.fst).contains key

/-- `members[key]` -/
def memberAt (members : List (CodePoints × Json)) (key : CodePoints) : Option Json :=
  (members.find? fun member => member.1 == key).map Prod.snd

/-- The text of `{"S": text}`, or `none` for a value of any other shape. -/
def attribute? : Json → Option CodePoints
  | .object members =>
      if sameKeys members [codePoints "S"] then
        match memberAt members (codePoints "S") with
        | some (.string value) => some value
        | _ => none
      else none
  | _ => none

/-- The four attributes of a key of the right shape. -/
def cursorKey? : Json → Option CursorKey
  | .object members =>
      if sameKeys members cursorKeys then do
        let pk ← (memberAt members (codePoints "PK")).bind attribute?
        let sk ← (memberAt members (codePoints "SK")).bind attribute?
        let gsi1pk ← (memberAt members (codePoints "GSI1PK")).bind attribute?
        let gsi1sk ← (memberAt members (codePoints "GSI1SK")).bind attribute?
        return { pk := pk, sk := sk, gsi1pk := gsi1pk, gsi1sk := gsi1sk }
      else none
  | _ => none

/-- Return the DynamoDB key encoded in `token`, or raise InvalidCursorError. -/
def decodeCursor (token : String) (ownerId : String) : Except Exn CursorKey :=
  if token = "" ∨ token.length > maxTokenLength then .error .invalidCursor
  else
    match (urlsafeB64decode (token.toList ++ padding token.length)).bind Json.loads with
    | none => .error .invalidCursor
    | some json =>
        match cursorKey? json with
        | none => .error .invalidCursor
        | some key =>
            if key.gsi1pk ≠ codePoints (ownerGsi1pk ownerId) then .error .invalidCursor
            else .ok key

/-- A refused token is refused in one way only. -/
theorem decodeCursor_error {token ownerId : String} {exn : Exn}
    (h : decodeCursor token ownerId = .error exn) : exn = .invalidCursor := by
  unfold decodeCursor at h
  split at h
  · exact (Except.error.inj h).symm
  · split at h
    · exact (Except.error.inj h).symm
    · split at h
      · exact (Except.error.inj h).symm
      · split at h
        · exact (Except.error.inj h).symm
        · cases h

/-- An accepted token belongs to the caller. -/
theorem decodeCursor_ok {token ownerId : String} {key : CursorKey}
    (h : decodeCursor token ownerId = .ok key) :
    key.gsi1pk = codePoints (ownerGsi1pk ownerId) ∧
      ∃ json, (urlsafeB64decode (token.toList ++ padding token.length)).bind Json.loads =
        some json ∧ cursorKey? json = some key := by
  unfold decodeCursor at h
  split at h
  · cases h
  · split at h
    · cases h
    · rename_i json hjson
      split at h
      · cases h
      · rename_i key' hkey
        split at h
        · cases h
        · rename_i howner
          obtain rfl := Except.ok.inj h
          exact ⟨not_not.mp howner, json, hjson, hkey⟩

/-! ## Round trip -/

/-- The attributes of a key are texts of scalar values, as every stored text is. -/
def CursorKey.Scalar (key : CursorKey) : Prop :=
  (∀ c ∈ key.pk, IsScalar c) ∧ (∀ c ∈ key.sk, IsScalar c) ∧
    (∀ c ∈ key.gsi1pk, IsScalar c) ∧ ∀ c ∈ key.gsi1sk, IsScalar c

/-- The members of a cursor stand in the order of their keys. -/
theorem cursorJson_sorted {a b c d : Json} :
    [(codePoints "GSI1PK", a), (codePoints "GSI1SK", b), (codePoints "PK", c),
      (codePoints "SK", d)].Pairwise fun x y => x.1 < y.1 := by
  simp only [List.pairwise_cons, List.mem_cons, forall_eq_or_imp, List.not_mem_nil,
    false_implies, implies_true, and_true, List.Pairwise.nil]
  decide

theorem attributeJson_canonical {value : CodePoints} (h : ∀ c ∈ value, IsScalar c) :
    Json.Canonical (attributeJson value) :=
  ⟨⟨⟨fun _ hc => isScalar_of_mem_codePoints hc, h⟩, trivial⟩, List.pairwise_singleton _ _⟩

theorem cursorJson_canonical {key : CursorKey} (h : key.Scalar) :
    Json.Canonical (cursorJson key) := by
  obtain ⟨hpk, hsk, hgsi1pk, hgsi1sk⟩ := h
  have hname : ∀ text : String, ∀ c ∈ codePoints text, IsScalar c :=
    fun _ _ hc => isScalar_of_mem_codePoints hc
  exact ⟨⟨⟨hname _, attributeJson_canonical hgsi1pk⟩, ⟨hname _, attributeJson_canonical hgsi1sk⟩,
    ⟨hname _, attributeJson_canonical hpk⟩, ⟨hname _, attributeJson_canonical hsk⟩, trivial⟩,
    cursorJson_sorted⟩

theorem attribute?_attributeJson (value : CodePoints) :
    attribute? (attributeJson value) = some value := by
  have hkeys : sameKeys [(codePoints "S", .string value)] [codePoints "S"] = true := by
    simp [sameKeys]
  simp [attribute?, attributeJson, hkeys, memberAt]

theorem cursorKey?_cursorJson (key : CursorKey) : cursorKey? (cursorJson key) = some key := by
  have hkeys : ∀ a b c d : Json, sameKeys [(codePoints "GSI1PK", a), (codePoints "GSI1SK", b),
      (codePoints "PK", c), (codePoints "SK", d)] cursorKeys = true := by
    intro a b c d
    simp [sameKeys, cursorKeys]
  simp [cursorKey?, cursorJson, hkeys, memberAt, attribute?_attributeJson]

/-- The token of an ASCII text. -/
theorem base64Text_ascii {text : CodePoints} (h : ∀ b ∈ text, b < 0x80) :
    (utf8Encode text).map (fun raw =>
        String.ofList ((urlsafeB64encode raw).rdropWhile (· == '='))) =
      some (String.ofList ((sextets text).map sextetChar)) := by
  rw [utf8Encode_ascii h, Option.map_some,
    rdropWhile_urlsafeB64encode fun b hb => lt_trans (h b hb) (by decide)]

theorem encodeCursor_eq {key : CursorKey} (h : key.Scalar) :
    encodeCursor key =
      some (String.ofList ((sextets (Json.dumps (cursorJson key))).map sextetChar)) := by
  have hascii := Json.dumps_ascii _ (cursorJson_canonical h)
  exact base64Text_ascii fun b hb => (hascii b hb).2

/-- A token short enough is read back, by the owner of its partition, as the key it was
made from. -/
theorem decodeCursor_encodeCursor {key : CursorKey} {ownerId token : String} (h : key.Scalar)
    (howner : key.gsi1pk = codePoints (ownerGsi1pk ownerId))
    (hlength : (Json.dumps (cursorJson key)).length ≤ 768)
    (htoken : encodeCursor key = some token) :
    decodeCursor token ownerId = .ok key := by
  rw [encodeCursor_eq h, Option.some_inj] at htoken
  have hascii := Json.dumps_ascii _ (cursorJson_canonical h)
  have hbytes : ∀ b ∈ Json.dumps (cursorJson key), b < 256 :=
    fun b hb => lt_trans (hascii b hb).2 (by decide)
  have hchars : token.toList = (sextets (Json.dumps (cursorJson key))).map sextetChar := by
    rw [← htoken, String.toList_ofList]
  have hlen : token.length = (sextets (Json.dumps (cursorJson key))).length := by
    rw [← String.length_toList, hchars, List.length_map]
  -- a cursor has at least one byte, and at most 768 make at most 1024 characters
  have hcount := sextets_length (Json.dumps (cursorJson key))
  have hhead : 0 < (Json.dumps (cursorJson key)).length := by
    rw [cursorJson, Json.dumps]
    exact Nat.succ_pos _
  have hguard : ¬ (token = "" ∨ token.length > maxTokenLength) := by
    rintro (hempty | hlong)
    · rw [hempty, String.length_empty] at hlen
      omega
    · rw [maxTokenLength] at hlong
      omega
  have hdecode : (urlsafeB64decode (token.toList ++ padding token.length)).bind Json.loads =
      some (cursorJson key) := by
    rw [hchars, hlen, urlsafeB64decode_repad hbytes, Option.bind_some,
      Json.loads_dumps (cursorJson_canonical h)]
  rw [decodeCursor, if_neg hguard, hdecode]
  simp [cursorKey?_cursorJson, howner]

end ProjectsApi
