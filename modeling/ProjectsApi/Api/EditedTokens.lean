import ProjectsApi.Api.CursorCodec
import ProjectsApi.Foundation.JsonText

/-!
# Tokens that were edited

Of the accepted spellings of a cursor, exactly one is the token that `encode_cursor` writes:
the one in the URL-safe alphabet, without unused bits, that carries the compact text of a
cursor with the escapes of the writer.
-/

namespace ProjectsApi

open Foundation

/-! ## Spellings -/

/-- `token.rstrip("=")` -/
def stripped (token : String) : String := String.ofList (token.toList.rdropWhile (· == '='))

/-- The six-bit groups of the characters that have one. -/
def tokenGroups (token : String) : List Nat :=
  (stripped token).toList.filterMap fun c => sextet? (urlsafeTranslate c)

/-- The compact text of a cursor, its members in order, around four escaped texts. -/
def compactText (gsi1pk gsi1sk pk sk : CodePoints) : CodePoints :=
  codePoints "\x7b\"GSI1PK\":\x7b\"S\":\"" ++ gsi1pk ++
    codePoints "\"\x7d,\"GSI1SK\":\x7b\"S\":\"" ++ gsi1sk ++
    codePoints "\"\x7d,\"PK\":\x7b\"S\":\"" ++ pk ++
    codePoints "\"\x7d,\"SK\":\x7b\"S\":\"" ++ sk ++ codePoints "\"\x7d\x7d"

/-- The spelling of a token, its padding aside, is the compact one. -/
structure CompactSpelling (token : String) : Prop where
  /-- Every character is one of the URL-safe alphabet. -/
  alphabet : ∀ c ∈ (stripped token).toList, isUrlSafe c = true
  /-- The bits of the last character that belong to no byte are zero. -/
  tight : unusedBits (tokenGroups token) = 0
  /-- The bytes are compact JSON with sorted members and the escapes of `json.dumps`. -/
  compact : ∃ gsi1pk gsi1sk pk sk, Json.EscapedText gsi1pk ∧ Json.EscapedText gsi1sk ∧
    Json.EscapedText pk ∧ Json.EscapedText sk ∧
    groupBytes (tokenGroups token) = some (compactText gsi1pk gsi1sk pk sk)

/-! ## Characters and groups -/

theorem exists_sextetChar {c : Char} (h : isUrlSafe c = true) : ∃ n < 64, sextetChar n = c := by
  have htable : ∀ n : Fin 128, isUrlSafe (Char.ofNat n) = true →
      ∃ m : Fin 64, sextetChar m = Char.ofNat n := by decide +kernel
  have hascii : c.toNat < 128 := by
    simp only [isUrlSafe, Bool.or_eq_true, beq_iff_eq] at h
    obtain (h | rfl) | rfl := h
    · exact toNat_lt_of_isAlphanum h
    · decide
    · decide
  obtain ⟨m, hm⟩ := forall_ascii (p := fun c => isUrlSafe c = true → ∃ m : Fin 64,
    sextetChar m = c) htable hascii h
  exact ⟨m, m.isLt, hm⟩

theorem filterMap_sextetChar {groups : List Nat} (h : ∀ s ∈ groups, s < 64) :
    (groups.map sextetChar).filterMap (fun c => sextet? (urlsafeTranslate c)) = groups := by
  induction groups with
  | nil => rfl
  | cons s groups ih =>
      rw [List.forall_mem_cons] at h
      rw [List.map_cons, List.filterMap_cons_some (f := fun c => sextet? (urlsafeTranslate c))
        (sextet?_sextetChar h.1), ih h.2]

theorem tokenGroups_lt (token : String) : ∀ s ∈ tokenGroups token, s < 64 := by
  intro s hs
  obtain ⟨c, -, hc⟩ := List.mem_filterMap.mp hs
  exact sextet?_lt hc

/-- Characters of the URL-safe alphabet are those of their groups. -/
theorem map_sextetChar_tokenGroups {token : String}
    (h : ∀ c ∈ (stripped token).toList, isUrlSafe c = true) :
    (tokenGroups token).map sextetChar = (stripped token).toList := by
  rw [tokenGroups]
  generalize (stripped token).toList = cs at h
  induction cs with
  | nil => rfl
  | cons c cs ih =>
      rw [List.forall_mem_cons] at h
      obtain ⟨n, hn, rfl⟩ := exists_sextetChar h.1
      rw [List.filterMap_cons_some (f := fun c => sextet? (urlsafeTranslate c))
        (sextet?_sextetChar hn), List.map_cons, ih h.2]

/-- A token is its stripped text and some padding. -/
theorem exists_padding (token : String) :
    ∃ n, token.toList = (stripped token).toList ++ List.replicate n '=' := by
  rw [stripped, String.toList_ofList]
  -- from the end of the token, where the padding is
  induction token.toList using List.reverseRecOn with
  | nil => exact ⟨0, rfl⟩
  | append_singleton cs c ih =>
      by_cases hc : c = '='
      · obtain ⟨n, hn⟩ := ih
        refine ⟨n + 1, ?_⟩
        rw [List.rdropWhile_concat_pos _ _ _ (by simpa using hc), List.replicate_succ',
          ← List.append_assoc, ← hn, hc]
      · exact ⟨0, by rw [List.rdropWhile_concat_neg _ _ _ (by simpa using hc)]; simp⟩

/-- The decoder on a token of the URL-safe alphabet. -/
theorem urlsafeB64decode_token {token : String}
    (h : ∀ c ∈ (stripped token).toList, isUrlSafe c = true) :
    urlsafeB64decode (token.toList ++ padding token.length) = groupBytes (tokenGroups token) := by
  obtain ⟨n, hn⟩ := exists_padding token
  have hlength : token.length = (tokenGroups token).length + n := by
    rw [← String.length_toList, hn, ← map_sextetChar_tokenGroups h]
    simp
  rw [hn, ← map_sextetChar_tokenGroups h, padding, List.append_assoc,
    List.replicate_append_replicate]
  refine urlsafeB64decode_groups (tokenGroups_lt token) ?_
  rw [← Nat.add_assoc, ← hlength]
  exact length_add_padding _

/-! ## The compact text -/

theorem dumps_attributeJson (value : CodePoints) :
    Json.dumps (attributeJson value) =
      codePoints "\x7b\"S\":\"" ++ Json.escape value ++ codePoints "\"\x7d" := by
  rw [attributeJson, Json.dumps_object (List.pairwise_singleton _ _), Json.dumpsMembers,
    Json.dumpsMembers, List.map_singleton, Json.joinComma_singleton, Json.memberText, Json.dumps]
  simp only [Json.quote, List.cons_append, List.append_assoc]
  rfl

/-- The text of a cursor is compact. -/
theorem dumps_cursorJson (key : CursorKey) :
    Json.dumps (cursorJson key) = compactText (Json.escape key.gsi1pk) (Json.escape key.gsi1sk)
      (Json.escape key.pk) (Json.escape key.sk) := by
  rw [cursorJson, Json.dumps_object cursorJson_sorted]
  simp only [Json.dumpsMembers, List.map_cons, List.map_nil, Json.joinComma_cons_cons,
    Json.joinComma_singleton, Json.memberText, dumps_attributeJson, compactText, Json.quote,
    List.cons_append, List.append_assoc]
  rfl

/-- A key of four texts, surrogates allowed. -/
def CursorKey.IsText (key : CursorKey) : Prop :=
  Json.IsText key.gsi1pk ∧ Json.IsText key.gsi1sk ∧ Json.IsText key.pk ∧ Json.IsText key.sk

theorem dumps_cursorJson_ascii {key : CursorKey} (h : key.IsText) :
    ∀ b ∈ Json.dumps (cursorJson key), 0x20 ≤ b ∧ b < 0x80 := by
  obtain ⟨hgsi1pk, hgsi1sk, hpk, hsk⟩ := h
  have hmark : ∀ text ∈ ["\x7b\"GSI1PK\":\x7b\"S\":\"", "\"\x7d,\"GSI1SK\":\x7b\"S\":\"",
      "\"\x7d,\"PK\":\x7b\"S\":\"", "\"\x7d,\"SK\":\x7b\"S\":\"", "\"\x7d\x7d"],
      ∀ b ∈ codePoints text, 0x20 ≤ b ∧ b < 0x80 := by decide +kernel
  intro b hb
  rw [dumps_cursorJson, compactText] at hb
  simp only [List.mem_append] at hb
  obtain (((((((hb | hb) | hb) | hb) | hb) | hb) | hb) | hb) | hb := hb
  · exact hmark _ (by simp) b hb
  · exact Json.escape_ascii hgsi1pk hb
  · exact hmark _ (by simp) b hb
  · exact Json.escape_ascii hgsi1sk hb
  · exact hmark _ (by simp) b hb
  · exact Json.escape_ascii hpk hb
  · exact hmark _ (by simp) b hb
  · exact Json.escape_ascii hsk hb
  · exact hmark _ (by simp) b hb

/-- The token of any key of texts. -/
theorem encodeCursor_of_isText {key : CursorKey} (h : key.IsText) :
    encodeCursor key =
      some (String.ofList ((sextets (Json.dumps (cursorJson key))).map sextetChar)) := by
  have hascii := dumps_cursorJson_ascii h
  exact base64Text_ascii fun b hb => (hascii b hb).2

/-! ## Reading the compact text -/

theorem scanValue_attributeJson {value : CodePoints} (h : Json.IsText value) (fuel : Nat)
    (rest : CodePoints) : Json.scanValue (fuel + 3) (Json.dumps (attributeJson value) ++ rest) =
      some (attributeJson (Json.rejoin value), rest) := by
  have hname := Json.scanString_escape (s := codePoints "S")
    (fun c hc => isScalar_of_mem_codePoints hc)
    (0x3A :: 0x22 :: (Json.escape value ++ 0x22 :: 0x7D :: rest))
  have hstring : Json.scanValue (fuel + 1) (0x22 :: (Json.escape value ++ 0x22 :: 0x7D :: rest)) =
      some (.string (Json.rejoin value), 0x7D :: rest) := by
    rw [Json.scanValue, if_pos rfl, Json.scanString_rejoin h]
    rfl
  have hmembers := Json.scanMembers_last hname (Json.skipWhitespace_cons rfl _) hstring
  have hvalue := Json.scanValue_object hmembers
  rw [dumps_attributeJson]
  simp only [List.append_assoc]
  exact hvalue

/-- The key the reader returns for the text of a key. -/
def CursorKey.rejoin (key : CursorKey) : CursorKey where
  pk := Json.rejoin key.pk
  sk := Json.rejoin key.sk
  gsi1pk := Json.rejoin key.gsi1pk
  gsi1sk := Json.rejoin key.gsi1sk

theorem scanValue_cursorJson {key : CursorKey} (h : key.IsText) (fuel : Nat) :
    Json.scanValue (fuel + 8) (Json.dumps (cursorJson key)) = some (cursorJson key.rejoin, []) := by
  obtain ⟨hgsi1pk, hgsi1sk, hpk, hsk⟩ := h
  have hname : ∀ (name : String) (rest : CodePoints),
      Json.scanString (Json.escape (codePoints name) ++ 0x22 :: rest) =
        some (codePoints name, rest) :=
    fun name rest => Json.scanString_escape (fun c hc => isScalar_of_mem_codePoints hc) rest
  have hspace : ∀ (value rest : CodePoints),
      Json.skipWhitespace (Json.dumps (attributeJson value) ++ rest) =
        Json.dumps (attributeJson value) ++ rest := by
    intro value rest
    rw [dumps_attributeJson]
    exact Json.skipWhitespace_cons rfl _
  -- the members from the last to the first, each with one more unit of fuel
  have hlast := Json.scanMembers_last (hname "SK" _) (hspace key.sk _)
    (scanValue_attributeJson hsk fuel (0x7D :: []))
  have hthird := Json.scanMembers_next (hname "PK" _) (hspace key.pk _)
    (scanValue_attributeJson hpk (fuel + 1) _) hlast
  have hsecond := Json.scanMembers_next (hname "GSI1SK" _) (hspace key.gsi1sk _)
    (scanValue_attributeJson hgsi1sk (fuel + 2) _) hthird
  have hfirst := Json.scanMembers_next (hname "GSI1PK" _) (hspace key.gsi1pk _)
    (scanValue_attributeJson hgsi1pk (fuel + 3) _) hsecond
  have hobject := Json.scanValue_object hfirst
  have hkeys := (List.pairwise_map.mpr (cursorJson_sorted
    (a := attributeJson (Json.rejoin key.gsi1pk))
    (b := attributeJson (Json.rejoin key.gsi1sk)) (c := attributeJson (Json.rejoin key.pk))
    (d := attributeJson (Json.rejoin key.sk)))).imp ne_of_lt
  rw [Json.dictOf_of_nodup hkeys] at hobject
  rw [cursorJson, Json.dumps_object cursorJson_sorted]
  simp only [Json.dumpsMembers, List.map_cons, List.map_nil, Json.joinComma_cons_cons,
    Json.joinComma_singleton, Json.memberText, Json.quote, List.cons_append, List.append_assoc,
    List.nil_append]
  exact hobject

/-- The text of a key is read as a key with the same text. -/
theorem loads_cursorJson {key : CursorKey} (h : key.IsText) :
    Json.loads (Json.dumps (cursorJson key)) = some (cursorJson key.rejoin) := by
  have hascii := dumps_cursorJson_ascii h
  obtain ⟨text, htext⟩ : ∃ text, Json.dumps (cursorJson key) = 0x7B :: text := by
    rw [cursorJson, Json.dumps]
    exact ⟨_, rfl⟩
  have hspace :
      Json.skipWhitespace (Json.dumps (cursorJson key)) = Json.dumps (cursorJson key) := by
    rw [htext]
    exact Json.skipWhitespace_cons rfl _
  have hlong : 65 ≤ (Json.dumps (cursorJson key)).length := by
    rw [dumps_cursorJson_length]
    omega
  have hscan := scanValue_cursorJson h
  generalize Json.dumps (cursorJson key) = bytes at hascii hspace hlong hscan
  -- the length of the text is more fuel than its four members take
  obtain ⟨fuel, hfuel⟩ : ∃ fuel, bytes.length + 1 = fuel + 8 := ⟨bytes.length - 7, by omega⟩
  have hend : Json.skipWhitespace [] = [] := rfl
  simp [Json.loads, Json.decodeText_ascii hascii, hspace, hfuel, hscan, hend]

/-- A text around escaped texts is the text of a key. -/
theorem exists_key_of_compactText {gsi1pk gsi1sk pk sk : CodePoints}
    (hgsi1pk : Json.EscapedText gsi1pk) (hgsi1sk : Json.EscapedText gsi1sk)
    (hpk : Json.EscapedText pk) (hsk : Json.EscapedText sk) :
    ∃ key : CursorKey, key.IsText ∧ compactText gsi1pk gsi1sk pk sk = Json.dumps (cursorJson key) ∧
      Json.dumps (cursorJson key.rejoin) = Json.dumps (cursorJson key) := by
  have htext : ∀ {units : CodePoints}, (∀ u ∈ units, u < 0x10000) → Json.IsText units := by
    intro units hunits u hu
    have hu := hunits u hu
    unfold IsCodePoint
    omega
  obtain ⟨a, ha, rfl⟩ := Json.escapedText_iff.mp hgsi1pk
  obtain ⟨b, hb, rfl⟩ := Json.escapedText_iff.mp hgsi1sk
  obtain ⟨c, hc, rfl⟩ := Json.escapedText_iff.mp hpk
  obtain ⟨d, hd, rfl⟩ := Json.escapedText_iff.mp hsk
  refine ⟨⟨c, d, a, b⟩, ⟨htext ha, htext hb, htext hc, htext hd⟩, ?_, ?_⟩
  · rw [dumps_cursorJson]
  · rw [dumps_cursorJson, dumps_cursorJson]
    simp only [CursorKey.rejoin, Json.escape_rejoin ha, Json.escape_rejoin hb,
      Json.escape_rejoin hc, Json.escape_rejoin hd]

/-! ## Accepted keys -/

theorem isText_of_attribute? {value : Json} (h : value.HasTexts) {text : CodePoints}
    (hattribute : attribute? value = some text) : Json.IsText text := by
  unfold attribute? at hattribute
  split at hattribute
  · rename_i members
    split_ifs at hattribute
    split at hattribute
    · rename_i text' hmember
      obtain rfl := Option.some.inj hattribute
      obtain ⟨member, hfind, hvalue⟩ := Option.map_eq_some_iff.mp hmember
      have htexts := (Json.membersHaveTexts_iff.mp h member (List.mem_of_find?_eq_some hfind)).2
      rw [hvalue] at htexts
      exact htexts
    · cases hattribute
  · cases hattribute

theorem isText_of_cursorKey? {value : Json} (h : value.HasTexts) {key : CursorKey}
    (hkey : cursorKey? value = some key) : key.IsText := by
  unfold cursorKey? at hkey
  split at hkey
  · rename_i members
    have hmember : ∀ {name : CodePoints} {text : CodePoints},
        (memberAt members name).bind attribute? = some text → Json.IsText text := by
      intro name text hbind
      obtain ⟨value, hvalue, hattribute⟩ := Option.bind_eq_some_iff.mp hbind
      obtain ⟨member, hfind, rfl⟩ := Option.map_eq_some_iff.mp hvalue
      exact isText_of_attribute?
        (Json.membersHaveTexts_iff.mp h member (List.mem_of_find?_eq_some hfind)).2 hattribute
    split_ifs at hkey
    rw [Option.bind_eq_bind, Option.bind_eq_some_iff] at hkey
    obtain ⟨pk, hpk, hkey⟩ := hkey
    obtain ⟨sk, hsk, hkey⟩ := Option.bind_eq_some_iff.mp hkey
    obtain ⟨gsi1pk, hgsi1pk, hkey⟩ := Option.bind_eq_some_iff.mp hkey
    obtain ⟨gsi1sk, hgsi1sk, hkey⟩ := Option.bind_eq_some_iff.mp hkey
    obtain rfl := Option.some.inj hkey
    exact ⟨hmember hgsi1pk, hmember hgsi1sk, hmember hpk, hmember hsk⟩
  · cases hkey

/-! ## The one compact spelling -/

/-- The spelling an accepted key is encoded as is compact. -/
theorem compactSpelling_of_encodeCursor {token : String} {key : CursorKey} (h : key.IsText)
    (htoken : encodeCursor key = some (stripped token)) : CompactSpelling token := by
  rw [encodeCursor_of_isText h, Option.some_inj] at htoken
  have hbytes : ∀ b ∈ Json.dumps (cursorJson key), b < 256 :=
    fun b hb => lt_trans (dumps_cursorJson_ascii h b hb).2 (by decide)
  have hgroups : tokenGroups token = sextets (Json.dumps (cursorJson key)) := by
    rw [tokenGroups, ← htoken, String.toList_ofList, filterMap_sextetChar (sextets_lt hbytes)]
  refine ⟨?_, ?_, ?_⟩
  · intro c hc
    rw [← htoken, String.toList_ofList] at hc
    obtain ⟨n, hn, rfl⟩ := List.mem_map.mp hc
    exact isUrlSafe_sextetChar ⟨n, sextets_lt hbytes n hn⟩
  · rw [hgroups]
    exact unusedBits_sextets _
  · refine ⟨_, _, _, _, Json.escapedText_escape h.1, Json.escapedText_escape h.2.1,
      Json.escapedText_escape h.2.2.1, Json.escapedText_escape h.2.2.2, ?_⟩
    rw [hgroups, groupBytes_sextets hbytes, dumps_cursorJson]

/-- A compact spelling is accepted as no other key than the one it is the token of. -/
theorem encodeCursor_of_compactSpelling {token ownerId : String} {key : CursorKey}
    (h : decodeCursor token ownerId = .ok key) (hcompact : CompactSpelling token) :
    encodeCursor key = some (stripped token) := by
  obtain ⟨halphabet, htight, gsi1pk, gsi1sk, pk, sk, hgsi1pk, hgsi1sk, hpk, hsk, hbytes⟩ := hcompact
  obtain ⟨-, json, hloads, hkey⟩ := decodeCursor_ok h
  -- the decoded text is that of some key, which the scanner can only read back
  obtain ⟨written, hwritten, htext, hrejoin⟩ :=
    exists_key_of_compactText hgsi1pk hgsi1sk hpk hsk
  rw [htext] at hbytes
  rw [urlsafeB64decode_token halphabet, hbytes, Option.bind_some, loads_cursorJson hwritten,
    Option.some_inj] at hloads
  rw [← hloads, cursorKey?_cursorJson, Option.some_inj] at hkey
  subst hkey
  have hascii := dumps_cursorJson_ascii hwritten
  rw [encodeCursor, hrejoin, base64Text_ascii fun b hb => (hascii b hb).2,
    sextets_of_groupBytes (tokenGroups_lt token) htight hbytes,
    map_sextetChar_tokenGroups halphabet, String.ofList_toList]

/-- An accepted token, its padding aside, is the token of its key exactly if its spelling is
compact: it has no characters outside the URL-safe alphabet and no unused bits, and its bytes
are the four members in order, without whitespace, repeated members or other escapes. -/
theorem accepted_spelling_iff {token ownerId : String} {key : CursorKey}
    (h : decodeCursor token ownerId = .ok key) :
    encodeCursor key = some (stripped token) ↔ CompactSpelling token := by
  obtain ⟨-, json, hloads, hkey⟩ := decodeCursor_ok h
  obtain ⟨bytes, hbytes, hjson⟩ := Option.bind_eq_some_iff.mp hloads
  have hkeyText :=
    isText_of_cursorKey? (Json.loads_haveTexts (urlsafeB64decode_lt hbytes) hjson) hkey
  exact ⟨compactSpelling_of_encodeCursor hkeyText, encodeCursor_of_compactSpelling h⟩

/-- The token of a short key. -/
def mintedToken : String :=
  "eyJHU0kxUEsiOnsiUyI6Ik9XTkVSI2sifSwiR1NJMVNLIjp7IlMiOiIifSwiUEsiOnsiUyI6IiJ9LCJTSyI6eyJTIjoiIn19"

/-- The minted token has the compact spelling. -/
theorem minted_spelling : CompactSpelling mintedToken := by
  have haccepted : decodeCursor mintedToken "k" = .ok (CursorKey.ofTexts "" "" "" "k") := by
    decide +kernel
  have hminted : encodeCursor (CursorKey.ofTexts "" "" "" "k") = some (stripped mintedToken) := by
    decide +kernel
  exact (accepted_spelling_iff haccepted).mp hminted

/-- With a character that base64 ignores at its end, it is accepted as the same cursor. -/
theorem edited_token_accepted :
    decodeCursor (mintedToken ++ "!") "k" = .ok (CursorKey.ofTexts "" "" "" "k") ∧
      encodeCursor (CursorKey.ofTexts "" "" "" "k") ≠ some (stripped (mintedToken ++ "!")) := by
  decide +kernel

end ProjectsApi
