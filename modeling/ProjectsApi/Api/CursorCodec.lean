import ProjectsApi.Api.Routes
import ProjectsApi.Registry.Encoding
import ProjectsApi.Service.Query

/-!
# The cursor codec, up to its length limit

A token is read back exactly when it has at most 1024 characters.  The key of a stored
project has a fixed number of bytes beside the owner's id, so whether its token is short
enough depends on the length of the escaped owner id alone.
-/

namespace ProjectsApi

open Foundation Dynamo Program

/-! ## Lengths -/

/-- The bytes of a text in ASCII-escaped JSON, without the quotation marks. -/
def escapedLength (text : String) : Nat := (Json.escape (codePoints text)).length

theorem quote_length (s : CodePoints) : (Json.quote s).length = (Json.escape s).length + 2 := by
  simp [Json.quote]

theorem dumps_attributeJson_length (value : CodePoints) :
    (Json.dumps (attributeJson value)).length = 8 + (Json.escape value).length := by
  have hname : (Json.escape (codePoints "S")).length = 1 := by decide
  rw [attributeJson, Json.dumps_object (List.pairwise_singleton _ _)]
  simp [Json.dumpsMembers, Json.dumps, Json.memberText, quote_length, hname]
  omega

/-- A cursor has 65 bytes beside its four escaped texts. -/
theorem dumps_cursorJson_length (key : CursorKey) :
    (Json.dumps (cursorJson key)).length =
      65 + (Json.escape key.pk).length + (Json.escape key.sk).length +
        (Json.escape key.gsi1pk).length + (Json.escape key.gsi1sk).length := by
  have hnames : (Json.escape (codePoints "GSI1PK")).length = 6 ∧
      (Json.escape (codePoints "GSI1SK")).length = 6 ∧ (Json.escape (codePoints "PK")).length = 2 ∧
      (Json.escape (codePoints "SK")).length = 2 := by decide
  obtain ⟨hgsi1pk, hgsi1sk, hpk, hsk⟩ := hnames
  rw [cursorJson, Json.dumps_object cursorJson_sorted]
  simp [Json.dumpsMembers, Json.memberText, quote_length, dumps_attributeJson_length, hgsi1pk,
    hgsi1sk, hpk, hsk]
  omega

/-- The length of a token. -/
theorem encodeCursor_length {key : CursorKey} {token : String} (h : key.Scalar)
    (htoken : encodeCursor key = some token) :
    token.length = (4 * (Json.dumps (cursorJson key)).length + 2) / 3 := by
  rw [encodeCursor_eq h, Option.some_inj] at htoken
  subst htoken
  rw [← String.length_toList, String.toList_ofList, List.length_map, sextets_length]

/-- The characters of a token. -/
def isUrlSafe (c : Char) : Bool := c.isAlphanum || c == '-' || c == '_'

theorem isUrlSafe_sextetChar : ∀ n : Fin 64, isUrlSafe (sextetChar n) = true := by decide

theorem encodeCursor_isUrlSafe {key : CursorKey} {token : String} (h : key.Scalar)
    (htoken : encodeCursor key = some token) : ∀ c ∈ token.toList, isUrlSafe c = true := by
  have hbytes : ∀ b ∈ Json.dumps (cursorJson key), b < 256 := fun b hb =>
    lt_trans (Json.dumps_ascii _ (cursorJson_canonical h) b hb).2 (by decide)
  rw [encodeCursor_eq h, Option.some_inj] at htoken
  subst htoken
  intro c hc
  rw [String.toList_ofList] at hc
  obtain ⟨n, hn, rfl⟩ := List.mem_map.mp hc
  exact isUrlSafe_sextetChar ⟨n, sextets_lt hbytes n hn⟩

/-! ## Exactly the short tokens -/

/-- A token is read back by its owner if it is short enough, and refused otherwise. -/
theorem decodeCursor_token {key : CursorKey} {ownerId token : String} (h : key.Scalar)
    (howner : key.gsi1pk = codePoints (ownerGsi1pk ownerId))
    (htoken : encodeCursor key = some token) :
    decodeCursor token ownerId =
      if token.length ≤ maxTokenLength then .ok key else .error .invalidCursor := by
  have hlength := encodeCursor_length h htoken
  by_cases hshort : token.length ≤ maxTokenLength
  · rw [if_pos hshort]
    rw [maxTokenLength] at hshort
    exact decodeCursor_encodeCursor h howner (by omega) htoken
  · rw [if_neg hshort, decodeCursor, if_pos (Or.inr (not_le.mp hshort))]

/-- The key of four texts in the partition of an owner. -/
def CursorKey.ofTexts (pk sk gsi1sk ownerId : String) : CursorKey where
  pk := codePoints pk
  sk := codePoints sk
  gsi1pk := codePoints (ownerGsi1pk ownerId)
  gsi1sk := codePoints gsi1sk

theorem CursorKey.scalar_ofTexts (pk sk gsi1sk ownerId : String) :
    (CursorKey.ofTexts pk sk gsi1sk ownerId).Scalar :=
  ⟨fun _ hc => isScalar_of_mem_codePoints hc, fun _ hc => isScalar_of_mem_codePoints hc,
    fun _ hc => isScalar_of_mem_codePoints hc, fun _ hc => isScalar_of_mem_codePoints hc⟩

/-! ## Keys of stored projects -/

/-- The key a listing that ends with the project continues from. -/
def Project.cursorKey (p : Project) : CursorKey :=
  CursorKey.ofTexts (projectPk p.projectId) "META" (gsi1sk p) p.ownerId

/-- It is the key of the project's record. -/
theorem itemCursorKey_recordItem [CaseTables] (e : Entry) :
    itemCursorKey (recordItem e) = e.project.cursorKey := by
  simp [itemCursorKey, attributePoints, Item.string?_eq_some_iff.mpr (recordItem_pk e),
    Item.string?_eq_some_iff.mpr (recordItem_sk e),
    Item.string?_eq_some_iff.mpr (recordItem_gsi1pk e),
    Item.string?_eq_some_iff.mpr (recordItem_gsi1sk e), Project.cursorKey, CursorKey.ofTexts]

/-- A character JSON writes as itself. -/
def isPlain (c : Char) : Bool := c.isAlphanum || c ∈ ['#', '_', '-', ':', '+']

theorem escapeChar_of_isPlain {c : Char} (h : isPlain c = true) :
    Json.escapeChar c.toNat = [c.toNat] := by
  have hcode : (0x41 ≤ c.toNat ∧ c.toNat ≤ 0x5A ∨ 0x61 ≤ c.toNat ∧ c.toNat ≤ 0x7A) ∨
      0x30 ≤ c.toNat ∧ c.toNat ≤ 0x39 ∨ c.toNat ∈ [0x23, 0x5F, 0x2D, 0x3A, 0x2B] := by
    rw [isPlain, Bool.or_eq_true, isAlphanum_iff, decide_eq_true_eq] at h
    obtain (h | h) | h := h
    · exact Or.inl h
    · exact Or.inr (Or.inl h)
    · refine Or.inr (Or.inr ?_)
      simp only [List.mem_cons, List.not_mem_nil, or_false] at h
      obtain rfl | rfl | rfl | rfl | rfl := h <;> decide
  have hshort : Json.shortEscape c.toNat = none := by
    simp only [List.mem_cons, List.not_mem_nil, or_false] at hcode
    unfold Json.shortEscape
    split_ifs <;> first | rfl | omega
  have hprint : 0x20 ≤ c.toNat ∧ c.toNat ≤ 0x7E := by
    simp only [List.mem_cons, List.not_mem_nil, or_false] at hcode
    omega
  rw [Json.escapeChar, hshort]
  exact if_pos hprint

theorem escapedLength_of_isPlain {text : String} (h : ∀ c ∈ text.toList, isPlain c = true) :
    escapedLength text = text.length := by
  rw [escapedLength, Json.escape, codePoints, ← String.length_toList]
  generalize text.toList = cs at h
  induction cs with
  | nil => rfl
  | cons c cs ih =>
      rw [List.forall_mem_cons] at h
      rw [List.map_cons, List.flatMap_cons, escapeChar_of_isPlain h.1, List.length_append, ih h.2,
        List.length_singleton, List.length_cons]
      omega

theorem isPlain_of_isLowerHex {c : Char} (h : isLowerHex c = true) : isPlain c = true := by
  simp only [isLowerHex, Bool.or_eq_true, Bool.and_eq_true, decide_eq_true_eq, Char.le_def,
    UInt32.le_iff_toNat_le] at h
  rw [isPlain, Bool.or_eq_true, isAlphanum_iff]
  obtain hdigit | hletter := h
  · exact Or.inl (Or.inr hdigit)
  · refine Or.inl (Or.inl (Or.inr ⟨hletter.1, hletter.2.trans ?_⟩))
    decide

theorem isPlain_of_mem_isoformat {d : Datetime} {c : Char} (h : c ∈ d.isoformat.toList) :
    isPlain c = true := by
  rw [Datetime.isoformat_toList] at h
  obtain hdigit | hmark := Datetime.mem_isoChars h
  · simp [isPlain, Char.isAlphanum, hdigit]
  · simp only [List.mem_cons, List.not_mem_nil, or_false] at hmark
    obtain rfl | rfl | rfl | rfl := hmark <;> rfl

theorem escapedLength_append (a b : String) :
    escapedLength (a ++ b) = escapedLength a + escapedLength b := by
  simp [escapedLength, Json.escape]

/-- A character takes at most twelve bytes. -/
theorem escapedLength_le (text : String) : escapedLength text ≤ 12 * text.length := by
  have hchar : ∀ c, (Json.escapeChar c).length ≤ 12 := by
    intro c
    unfold Json.escapeChar
    split
    · simp
    · split_ifs <;> simp [Json.unicodeEscape]
  rw [escapedLength, Json.escape, ← codePoints_length]
  induction codePoints text with
  | nil => rfl
  | cons c cs ih =>
      have hc := hchar c
      rw [List.flatMap_cons, List.length_append, List.length_cons]
      omega

/-- The cursor of a new project has 189 bytes beside the escaped owner id. -/
theorem dumps_cursorKey_length (name : String) (type : ProjectType) (ownerId : String)
    (now : Datetime) (uuid : Uuid4) :
    (Json.dumps (cursorJson (Project.new name type ownerId now uuid).cursorKey)).length =
      189 + escapedLength ownerId := by
  have hhex : escapedLength uuid.hex = 32 := by
    rw [escapedLength_of_isPlain fun c hc => isPlain_of_isLowerHex (uuid.isLowerHex_hex c hc),
      ← String.length_toList, uuid.length_hex]
  have hid : escapedLength (projectIdPrefix ++ uuid.hex) = 36 := by
    rw [escapedLength_append, hhex]
    rfl
  have hiso : escapedLength now.isoformat = 25 := by
    rw [escapedLength_of_isPlain fun c hc => isPlain_of_mem_isoformat hc,
      ← String.length_toList, Datetime.isoformat_toList, Datetime.isoChars_length]
  have hpk : escapedLength (projectPk (projectIdPrefix ++ uuid.hex)) = 44 := by
    rw [projectPk, escapedLength_append, hid]
    rfl
  have hgsi1sk : escapedLength (gsi1sk (Project.new name type ownerId now uuid)) = 70 := by
    rw [gsi1sk, escapedLength_append, escapedLength_append, escapedLength_append,
      show (Project.new name type ownerId now uuid).projectId = projectIdPrefix ++ uuid.hex
        from rfl,
      show (Project.new name type ownerId now uuid).createdAt = now from rfl, hid, hiso]
    rfl
  have hsk : escapedLength "META" = 4 := rfl
  have howner : escapedLength (ownerGsi1pk ownerId) = 6 + escapedLength ownerId := by
    rw [ownerGsi1pk, escapedLength_append]
    rfl
  rw [dumps_cursorJson_length]
  change 65 + escapedLength (projectPk (projectIdPrefix ++ uuid.hex)) + escapedLength "META" +
    escapedLength (ownerGsi1pk ownerId) +
    escapedLength (gsi1sk (Project.new name type ownerId now uuid)) = _
  omega

/-! ## Tokens handed out -/

section Mints

variable [DatetimeParser]

/-- `list_projects` hands out the token after a page that ends with the key. -/
def Mints (ownerId : String) (key : CursorKey) (token : String) : Prop :=
  ∀ (svc : Service) (t : Table) (limit : Nat) (nextToken : Option String)
    (cursor : Option CursorKey) (items : List Item) (projects : List Project),
    decodeNextToken nextToken ownerId = .ok cursor →
    svc.query (Service.visible t (ProjectRepository.listRequest ownerId limit cursor))
      (ProjectRepository.listRequest ownerId limit cursor) (.ok ⟨items, some key⟩) →
    items.mapM toProject = .ok projects →
    Eval svc.Exec t (listProjects ownerId limit nextToken)
      (.ok { status := 200, body := .page projects (some token) }) t

theorem mints_of_encodeCursor {ownerId : String} {key : CursorKey} {token : String}
    (h : encodeCursor key = some token) : Mints ownerId key token := by
  intro svc t limit nextToken cursor items projects hcursor hquery hitems
  have hlist : Eval svc.Exec t (ProjectRepository.listByOwner ownerId limit cursor)
      (.ok (projects, some key)) t := by
    rw [ProjectRepository.listByOwner, perform_bind]
    refine .call (.query _ hquery) ?_
    change Eval svc.Exec t (.done ((items.mapM toProject).map fun projects =>
      (projects, some key))) _ t
    rw [hitems]
    exact .done _ _
  rw [listProjects, hcursor]
  refine eval_bind_iff.mpr ⟨_, _, hlist, .call (.log _) ?_⟩
  rw [encodeLastKey, h]
  exact .done _ _

/-- A token the codec refuses is refused by the route. -/
theorem listProjects_refused {ownerId token : String}
    (h : decodeCursor token ownerId = .error .invalidCursor) (limit : Nat) :
    listProjects ownerId limit (some token) = .done (.error .invalidCursor) := by
  rw [listProjects, decodeNextToken, h]
  rfl

/-- The codec is exact up to its length limit.  The token of a key is read back by the owner
of its partition if it has at most 1024 characters, and refused otherwise.  The token of a
new project is read back exactly when the escaped owner id has at most 579 bytes, so always
for an id of at most 48 characters; for a longer one `list_projects` hands out a token that
it refuses. -/
theorem cursor_codec_exact [CaseTables] :
    (∀ pk sk gsi1sk ownerId : String, ∃ token,
      encodeCursor (CursorKey.ofTexts pk sk gsi1sk ownerId) = some token ∧
      (∀ c ∈ token.toList, isUrlSafe c = true) ∧
      decodeCursor token ownerId =
        if token.length ≤ 1024 then .ok (CursorKey.ofTexts pk sk gsi1sk ownerId)
        else .error .invalidCursor) ∧
    ∀ (name : String) (type : ProjectType) (ownerId : String) (now : Datetime) (uuid : Uuid4),
      ∃ token,
        encodeCursor (itemCursorKey (projectItem (Project.new name type ownerId now uuid))) =
          some token ∧
        (decodeCursor token ownerId =
            .ok (itemCursorKey (projectItem (Project.new name type ownerId now uuid))) ↔
          escapedLength ownerId ≤ 579) ∧
        (ownerId.length ≤ 48 → decodeCursor token ownerId =
          .ok (itemCursorKey (projectItem (Project.new name type ownerId now uuid)))) ∧
        (579 < escapedLength ownerId →
          Mints ownerId (itemCursorKey (projectItem (Project.new name type ownerId now uuid)))
            token ∧
          ∀ limit, listProjects ownerId limit (some token) = .done (.error .invalidCursor)) := by
  constructor
  -- any key of texts
  · intro pk sk gsi1sk ownerId
    have hscalar := CursorKey.scalar_ofTexts pk sk gsi1sk ownerId
    exact ⟨_, encodeCursor_eq hscalar, encodeCursor_isUrlSafe hscalar (encodeCursor_eq hscalar),
      decodeCursor_token hscalar rfl (encodeCursor_eq hscalar)⟩
  · intro name type ownerId now uuid
    -- the key that a listing hands out after a new project
    have hkey : itemCursorKey (projectItem (Project.new name type ownerId now uuid)) =
        (Project.new name type ownerId now uuid).cursorKey := by
      rw [← recordItem_of_project, itemCursorKey_recordItem]
    have hscalar : (Project.new name type ownerId now uuid).cursorKey.Scalar :=
      CursorKey.scalar_ofTexts _ _ _ _
    obtain ⟨token, htoken⟩ : ∃ token,
        encodeCursor (Project.new name type ownerId now uuid).cursorKey = some token :=
      ⟨_, encodeCursor_eq hscalar⟩
    have hlength := encodeCursor_length hscalar htoken
    rw [dumps_cursorKey_length] at hlength
    have howner : (Project.new name type ownerId now uuid).cursorKey.gsi1pk =
        codePoints (ownerGsi1pk ownerId) := rfl
    have hdecode := decodeCursor_token hscalar howner htoken
    -- the reader's limit, against the length that the token has
    have hiff : decodeCursor token ownerId =
        .ok (Project.new name type ownerId now uuid).cursorKey ↔ escapedLength ownerId ≤ 579 := by
      rw [hdecode, maxTokenLength]
      split_ifs with hshort
      · exact ⟨fun _ => by omega, fun _ => rfl⟩
      · exact ⟨fun h => (by cases h), fun h => absurd h (by omega)⟩
    rw [hkey]
    refine ⟨token, htoken, hiff, fun hshort => hiff.mpr ?_, fun hlong => ?_⟩
    · have hle := escapedLength_le ownerId
      omega
    · have hrefused : decodeCursor token ownerId = .error .invalidCursor := by
        rw [hdecode, maxTokenLength, if_neg (by omega)]
      exact ⟨mints_of_encodeCursor htoken, listProjects_refused hrefused⟩

end Mints

section Instance

open scoped Sample

/-- An owner id of 580 characters. -/
theorem token_of_long_owner_refused :
    ∃ token, Mints (String.ofList (List.replicate 580 'k'))
        (itemCursorKey (projectItem (Project.new "My App" .web
          (String.ofList (List.replicate 580 'k')) sampleTime
          (Uuid4.repeated 'a' (by decide))))) token ∧
      ∀ limit, listProjects (String.ofList (List.replicate 580 'k')) limit (some token) =
        .done (.error .invalidCursor) := by
  have hlong : 579 < escapedLength (String.ofList (List.replicate 580 'k')) := by
    rw [escapedLength_of_isPlain, ← String.length_toList, String.toList_ofList,
      List.length_replicate]
    · decide
    · intro c hc
      rw [String.toList_ofList] at hc
      rw [List.eq_of_mem_replicate hc]
      rfl
  obtain ⟨token, -, -, -, hrefused⟩ := cursor_codec_exact.2 "My App" .web
    (String.ofList (List.replicate 580 'k')) sampleTime (Uuid4.repeated 'a' (by decide))
  exact ⟨token, hrefused hlong⟩

end Instance

end ProjectsApi
