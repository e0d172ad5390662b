import ProjectsApi.Domain.NameRules
import ProjectsApi.Registry.Operations

/-!
# Name keys

Two accepted names have one key exactly if they have the same words up to the case of ASCII
letters.  The key is the same before and after validation, and the reservation that `delete`
looks up from a stored name is the one that `create` made.
-/

namespace ProjectsApi

open Foundation Dynamo

/-! ## Lower-casing -/

theorem toLower_of_not_ascii {c : Char} (h : ¬ c.toNat < 128) : c.toLower = c := by
  have hupper : ¬ (c.val ≥ 'A'.val ∧ c.val ≤ 'Z'.val) := by
    intro hrange
    have hle : c.toNat ≤ 0x5A := UInt32.le_iff_toNat_le.mp hrange.2
    omega
  exact dif_neg hupper

theorem isSpace_toLower (c : Char) : isSpace c.toLower = isSpace c := by
  by_cases hc : c.toNat < 128
  · exact forall_ascii (p := fun c => isSpace c.toLower = isSpace c) (by decide +kernel) hc
  · rw [toLower_of_not_ascii hc]

theorem toLower_toLower (c : Char) : c.toLower.toLower = c.toLower := by
  by_cases hc : c.toNat < 128
  · exact forall_ascii (p := fun c => c.toLower.toLower = c.toLower) (by decide +kernel) hc
  · rw [toLower_of_not_ascii hc, toLower_of_not_ascii hc]

theorem map_toLower_map_toLower (text : String) :
    (text.map Char.toLower).map Char.toLower = text.map Char.toLower := by
  rw [← String.toList_inj, String.toList_map, String.toList_map, List.map_map]
  exact List.map_congr_left fun c _ => toLower_toLower c

/-- No letter is lower-cased to a hyphen, an underscore or a space. -/
theorem toLower_eq_iff_of_mark {c d : Char} (hd : d ∈ ['-', '_', ' ']) : c.toLower = d ↔ c = d := by
  by_cases hc : c.toNat < 128
  · have hmarks := forall_ascii
      (p := fun c => ['-', '_', ' '].all (fun d => (c.toLower == d) == (c == d)) = true)
      (by decide +kernel) hc
    simpa using List.all_eq_true.mp hmarks d hd
  · rw [toLower_of_not_ascii hc]

/-- Words that differ at most in the case of ASCII letters. -/
def SameUpToCase (v w : List Char) : Prop := v.map Char.toLower = w.map Char.toLower

instance (v w : List Char) : Decidable (SameUpToCase v w) :=
  inferInstanceAs (Decidable (_ = _))

theorem nameWords_map_toLower (name : String) :
    nameWords (name.map Char.toLower) = (nameWords name).map (List.map Char.toLower) := by
  rw [nameWords, String.toList_map]
  exact words_map isSpace_toLower name.toList

theorem map_toLower_joinedName (raw : String) :
    ((joinedName raw).map Char.toLower).toList =
      joinWords ' ' ((nameWords raw).map (List.map Char.toLower)) := by
  rw [String.toList_map, joinedName, String.toList_ofList]
  exact (joinWords_map Char.toLower ' ' (nameWords raw)).symm

/-- Lower-casing ASCII letters keeps a normal form normal. -/
theorem normaliseName_map_toLower {name : String} (h : normaliseName name = name) :
    normaliseName (name.map Char.toLower) = name.map Char.toLower := by
  rw [normaliseName_eq] at h
  rw [normaliseName_eq, ← String.toList_inj, joinedName, String.toList_ofList,
    nameWords_map_toLower, ← map_toLower_joinedName, h]

/-! ## Keys of accepted names -/

theorem IsName.ascii {name : String} (h : IsName name) : ∀ c ∈ name.toList, c.toNat < 128 := by
  intro c hc
  have hchar := h.chars c hc
  simp only [isNameChar, Bool.or_eq_true, beq_iff_eq] at hchar
  obtain ((hletter | rfl) | rfl) | rfl := hchar
  · exact toNat_lt_of_isAlphanum hletter
  · decide
  · decide
  · decide

theorem normaliseName_of_validateName {raw name : String} (h : validateName raw = .ok name) :
    normaliseName name = name := by
  rw [validateName_ok h, normaliseName_idempotent]

theorem nameWords_of_validateName {raw name : String} (h : validateName raw = .ok name) :
    nameWords name = nameWords raw := by
  rw [validateName_ok h, normaliseName_eq, nameWords_joinedName]

section Keys

variable [CaseTables] {a b na nb : String}

theorem nameKey_normaliseName (raw : String) : nameKey (normaliseName raw) = nameKey raw := by
  rw [nameKey, normaliseName_idempotent, nameKey]

/-- The key of an accepted name is the name in lower case. -/
theorem nameKey_of_validateName (h : validateName a = .ok na) :
    nameKey na = na.map Char.toLower := by
  rw [nameKey, normaliseName_of_validateName h,
    CaseTables.lower_ascii na (isName_of_validateName h).ascii]

/-- One key means the same words up to case. -/
theorem nameKey_eq_iff (ha : validateName a = .ok na) (hb : validateName b = .ok nb) :
    nameKey na = nameKey nb ↔ List.Forall₂ SameUpToCase (nameWords a) (nameWords b) := by
  have hwords : List.Forall₂ SameUpToCase (nameWords a) (nameWords b) ↔
      (nameWords a).map (List.map Char.toLower) = (nameWords b).map (List.map Char.toLower) := by
    rw [← List.forall₂_eq_eq_eq, List.forall₂_map_left_iff, List.forall₂_map_right_iff]
    exact Iff.rfl
  rw [nameKey_of_validateName ha, nameKey_of_validateName hb, hwords]
  constructor
  · intro h
    rw [← nameWords_of_validateName ha, ← nameWords_of_validateName hb, ← nameWords_map_toLower,
      ← nameWords_map_toLower, h]
  · intro h
    rw [validateName_ok ha, validateName_ok hb, normaliseName_eq, normaliseName_eq,
      ← String.toList_inj, map_toLower_joinedName, map_toLower_joinedName, h]

/-- Names with one key have their hyphens, underscores and spaces in the same places. -/
theorem marks_of_nameKey_eq (ha : validateName a = .ok na) (hb : validateName b = .ok nb)
    (h : nameKey na = nameKey nb) {d : Char} (hd : d ∈ ['-', '_', ' ']) (i : Nat) :
    na.toList[i]? = some d ↔ nb.toList[i]? = some d := by
  have hmark : ∀ name : String, name.toList[i]? = some d ↔
      (name.map Char.toLower).toList[i]? = some d := by
    intro name
    rw [String.toList_map, List.getElem?_map]
    cases name.toList[i]? with
    | none => simp
    | some c => simpa using (toLower_eq_iff_of_mark hd).symm
  rw [nameKey_of_validateName ha, nameKey_of_validateName hb] at h
  rw [hmark na, hmark nb, h]

theorem nameKey_of_raw (h : validateName a = .ok na) : nameKey a = nameKey na := by
  rw [validateName_ok h, nameKey_normaliseName]

theorem nameKey_nameKey_of_validateName (h : validateName a = .ok na) :
    nameKey (nameKey a) = nameKey a := by
  have hascii : ∀ c ∈ (na.map Char.toLower).toList, c.toNat < 128 := by
    intro c hc
    rw [String.toList_map] at hc
    obtain ⟨d, hd, rfl⟩ := List.mem_map.mp hc
    exact forall_ascii (p := fun c => c.toLower.toNat < 128) (by decide +kernel)
      ((isName_of_validateName h).ascii d hd)
  rw [nameKey_of_raw h, nameKey_of_validateName h, nameKey,
    normaliseName_map_toLower (normaliseName_of_validateName h), CaseTables.lower_ascii _ hascii,
    map_toLower_map_toLower]

/-- What Unicode's tables promise beyond ASCII: lower-casing twice is lower-casing once, and
it neither makes nor removes whitespace. -/
structure CaseTables.Stable : Prop where
  lower_lower : ∀ text, CaseTables.lower (CaseTables.lower text) = CaseTables.lower text
  normalise_lower : ∀ text, normaliseName text = text →
    normaliseName (CaseTables.lower text) = CaseTables.lower text

theorem nameKey_nameKey (h : CaseTables.Stable) (raw : String) :
    nameKey (nameKey raw) = nameKey raw := by
  rw [nameKey, nameKey, h.normalise_lower _ (normaliseName_idempotent raw), h.lower_lower]

/-- The entry of a project after some transitions of the provisioner. -/
def Entry.after (p : Project) (transitions : List (Transition × Datetime)) : Entry :=
  transitions.foldl (fun e tr => tr.1.apply tr.2 e) { project := p }

omit [CaseTables] in
theorem Entry.after_name (p : Project) (transitions : List (Transition × Datetime)) :
    (Entry.after p transitions).project.name = p.name := by
  suffices hfold : ∀ e : Entry,
      (transitions.foldl (fun e tr => tr.1.apply tr.2 e) e).project.name = e.project.name by
    exact hfold { project := p }
  induction transitions with
  | nil => exact fun _ => rfl
  | cons tr transitions ih => exact fun e => (ih _).trans (tr.1.apply_name tr.2 e)

/-- The key identifies the names that differ in the case of ASCII letters or in whitespace
only; names with hyphens, underscores or spaces in different places have different keys.  The
raw text and the validated name have one key, a key is its own key, and `delete` computes the
reservation of a record from the stored name as `create` did. -/
theorem name_key_kernel [DatetimeParser] (ha : validateName a = .ok na)
    (hb : validateName b = .ok nb) :
    (nameKey na = nameKey nb ↔ List.Forall₂ SameUpToCase (nameWords a) (nameWords b)) ∧
      (nameKey na = nameKey nb → ∀ d ∈ ['-', '_', ' '], ∀ i : Nat,
        na.toList[i]? = some d ↔ nb.toList[i]? = some d) ∧
      nameKey a = nameKey na ∧
      nameKey (nameKey a) = nameKey a ∧
      (CaseTables.Stable → ∀ raw, nameKey (nameKey raw) = nameKey raw) ∧
      ∀ (type : ProjectType) (ownerId : String) (now : Datetime) (uuid : Uuid4)
        (transitions : List (Transition × Datetime)) (stored : Project),
        toProject (recordItem (Entry.after (Project.new na type ownerId now uuid) transitions)) =
            .ok stored →
          namePk stored.name = namePk na ∧
            (reservationItem (Project.new na type ownerId now uuid)).lookup "PK" =
              some (.S (namePk stored.name)) := by
  refine ⟨nameKey_eq_iff ha hb, fun h d hd i => marks_of_nameKey_eq ha hb h hd i,
    nameKey_of_raw ha, nameKey_nameKey_of_validateName ha, nameKey_nameKey, ?_⟩
  intro type ownerId now uuid transitions stored hstored
  rw [toProject_recordItem, Except.ok.injEq] at hstored
  have hname : stored.name = na := by
    rw [← hstored, Entry.after_name]
    rfl
  rw [hname]
  refine ⟨rfl, ?_⟩
  rw [reservationItem, Item.lookup_ofList]
  rfl

end Keys

section Instance

open scoped Sample

theorem CaseTables.stable_ascii : CaseTables.Stable where
  lower_lower := map_toLower_map_toLower
  normalise_lower _ h := normaliseName_map_toLower h

/-- Two raw names of one key. -/
theorem name_key_kernel_sample :
    nameKey "My App" = nameKey "MY app" ∧ ∀ raw, nameKey (nameKey raw) = nameKey raw := by
  have ha : validateName " My\tApp" = .ok "My App" := by decide +kernel
  have hb : validateName "MY  app " = .ok "MY app" := by decide +kernel
  have hwords : nameWords " My\tApp" = [['M', 'y'], ['A', 'p', 'p']] ∧
      nameWords "MY  app " = [['M', 'Y'], ['a', 'p', 'p']] := by decide +kernel
  have hsame : List.Forall₂ SameUpToCase (nameWords " My\tApp") (nameWords "MY  app ") := by
    rw [hwords.1, hwords.2]
    exact .cons (by decide) (.cons (by decide) .nil)
  have hkernel := name_key_kernel ha hb
  exact ⟨hkernel.1.mpr hsame, hkernel.2.2.2.2.1 CaseTables.stable_ascii⟩

end Instance

end ProjectsApi
