import ProjectsApi.Registry.Encoding

/-!
# The three writes of the service on the registry

`create`, `delete` and the status transitions as functions on registries, each
with its answer, and the refinement: on a table that encodes a registry, the
conditional write of the code answers like the function and leaves the encoding of
its result.
-/

namespace ProjectsApi

open Foundation Dynamo

namespace Transition

/-- The endpoint a transition records. -/
def endpoint : Transition → Option String
  | complete result => result.endpoint.filter fun endpoint => endpoint ≠ ""
  | _ => none

/-- The failure reason a transition records. -/
def failureReason : Transition → Option String
  | fail reason => some (ProjectStatusStore.boundedReason reason)
  | _ => none

/-- The entry after the transition. -/
def apply (tr : Transition) (now : Datetime) (e : Entry) : Entry where
  project := { e.project with status := tr.target, updatedAt := now }
  endpoint := tr.endpoint.or e.endpoint
  failureReason := tr.failureReason.or e.failureReason

@[simp] theorem apply_projectId (tr : Transition) (now : Datetime) (e : Entry) :
    (tr.apply now e).project.projectId = e.project.projectId := rfl

@[simp] theorem apply_name (tr : Transition) (now : Datetime) (e : Entry) :
    (tr.apply now e).project.name = e.project.name := rfl

theorem apply_nameKey [CaseTables] (tr : Transition) (now : Datetime) (e : Entry) :
    nameKey (tr.apply now e).project.name = nameKey e.project.name := rfl

@[simp] theorem apply_status (tr : Transition) (now : Datetime) (e : Entry) :
    (tr.apply now e).project.status = tr.target := rfl

theorem extra_eq (tr : Transition) :
    tr.extra = optionalAttribute "endpoint" tr.endpoint ++
      optionalAttribute "failureReason" tr.failureReason := by
  cases tr with
  | begin => rfl
  | complete result =>
      simp only [extra, ProjectStatusStore.completeExtra, endpoint, failureReason]
      cases result.endpoint with
      | none => rfl
      | some text => by_cases h : text = "" <;> simp [h, optionalAttribute, Option.filter]
  | fail reason => rfl

/-- What a transition writes under a name. -/
theorem lookup_transitionSets (tr : Transition) (now : Datetime) (name : String) :
    (transitionSets tr.target tr.extra now).lookup name =
      if name = "status" then some (.S tr.target.value)
      else if name = "updatedAt" then some (.S now.isoformat) else tr.extra.lookup name := by
  have hextra := lookup_eq_of_perm tr.extraAttributes.nodup (sortedExtra_perm tr.extra).symm name
  rw [transitionSets, List.lookup_append, ← hextra]
  by_cases hstatus : name = "status"
  · subst hstatus
    simp
  · by_cases hupdated : name = "updatedAt"
    · subst hupdated
      simp [List.lookup_cons]
    · have hs : (name == "status") = false := by simpa using hstatus
      have hu : (name == "updatedAt") = false := by simpa using hupdated
      simp [List.lookup_cons, hs, hu, hstatus, hupdated]

end Transition

/-- A record with another status and timestamp differs in these two attributes. -/
theorem lookup_projectAttributes_update [CaseTables] (p : Project) (status : ProjectStatus)
    (updatedAt : Datetime) (name : String) :
    (projectAttributes { p with status := status, updatedAt := updatedAt }).lookup name =
      if name = "status" then some (.S status.value)
      else if name = "updatedAt" then some (.S updatedAt.isoformat)
      else (projectAttributes p).lookup name := by
  by_cases hstatus : name = "status"
  · subst hstatus
    simp [projectAttributes, List.lookup_cons]
  · by_cases hupdated : name = "updatedAt"
    · subst hupdated
      simp [projectAttributes, List.lookup_cons]
    · have hs : (name == "status") = false := by simpa using hstatus
      have hu : (name == "updatedAt") = false := by simpa using hupdated
      simp only [projectAttributes, List.lookup_cons, hs, hu, hstatus, hupdated, if_false]
      rfl

open scoped Classical

namespace Projects

variable [CaseTables]

/-- What `create` does: refuse a taken name, then a taken id, else file the project. -/
noncomputable def create (R : Projects) (p : Project) : Except ClientError Unit × Projects :=
  if htaken : R.Taken (nameKey p.name) then
    (.error (.transactionCanceled ["ConditionalCheckFailed",
      if (R.find? p.projectId).isSome then "ConditionalCheckFailed" else "None"]), R)
  else if (R.find? p.projectId).isSome then
    (.error (.transactionCanceled ["None", "ConditionalCheckFailed"]), R)
  else (.ok (), R.add { project := p } htaken)

/-- The record is there and the owner's. -/
def OwnedBy (R : Projects) (projectId ownerId : String) : Prop :=
  ∃ e, R.find? projectId = some e ∧ e.project.ownerId = ownerId

/-- The record is there and bears the name. -/
def Named (R : Projects) (projectId name : String) : Prop :=
  ∃ e, R.find? projectId = some e ∧ nameKey e.project.name = nameKey name

/-- What `delete` does with the name it has read: strike the project if it is the
owner's and bears that name. -/
noncomputable def delete (R : Projects) (projectId name ownerId : String) :
    Except ClientError Unit × Projects :=
  if R.OwnedBy projectId ownerId ∧ R.Named projectId name then (.ok (), R.remove projectId)
  else
    (.error (.transactionCanceled
      [if R.OwnedBy projectId ownerId then "None" else "ConditionalCheckFailed",
        if R.Named projectId name then "None" else "ConditionalCheckFailed"]), R)

/-- The record is there in the expected status. -/
def InStatus (R : Projects) (projectId : String) (status : ProjectStatus) : Prop :=
  ∃ e, R.find? projectId = some e ∧ e.project.status = status

/-- The registry after a transition of a project. -/
def move (R : Projects) (tr : Transition) (projectId : String) (now : Datetime) : Projects :=
  R.modify projectId (tr.apply now) (tr.apply_projectId now) (tr.apply_nameKey now)

theorem find?_move (R : Projects) (tr : Transition) (projectId : String) (now : Datetime)
    (id : String) :
    (R.move tr projectId now).find? id =
      if id = projectId then (R.find? projectId).map (tr.apply now) else R.find? id :=
  Registry.find?_modify R projectId id

/-- What a transition does: move the project if it is in the expected status. -/
noncomputable def transition (R : Projects) (tr : Transition) (projectId : String)
    (now : Datetime) : Except ClientError Unit × Projects :=
  if R.InStatus projectId tr.expected then
    (.ok (), R.move tr projectId now)
  else (.error .conditionalCheckFailed, R)

/-! ### What each write can do -/

section Cases

variable (R : Projects)

theorem create_cases (p : Project) :
    (∃ hname : ¬ R.Taken (nameKey p.name), R.find? p.projectId = none ∧
      R.create p = (.ok (), R.add { project := p } hname)) ∨
      ∃ reasons, R.create p = (.error (.transactionCanceled reasons), R) := by
  unfold create
  by_cases htaken : R.Taken (nameKey p.name)
  · rw [dif_pos htaken]
    exact Or.inr ⟨_, rfl⟩
  · rw [dif_neg htaken]
    cases hid : R.find? p.projectId with
    | some e =>
        rw [if_pos (by simp)]
        exact Or.inr ⟨_, rfl⟩
    | none =>
        rw [if_neg (by simp)]
        exact Or.inl ⟨htaken, rfl, rfl⟩

theorem delete_cases (projectId name ownerId : String) :
    (R.OwnedBy projectId ownerId ∧ R.Named projectId name ∧
      R.delete projectId name ownerId = (.ok (), R.remove projectId)) ∨
      ∃ reasons, R.delete projectId name ownerId = (.error (.transactionCanceled reasons), R) := by
  unfold delete
  by_cases hboth : R.OwnedBy projectId ownerId ∧ R.Named projectId name
  · rw [if_pos hboth]
    exact Or.inl ⟨hboth.1, hboth.2, rfl⟩
  · rw [if_neg hboth]
    exact Or.inr ⟨_, rfl⟩

theorem transition_cases (tr : Transition) (projectId : String) (now : Datetime) :
    (R.InStatus projectId tr.expected ∧
      R.transition tr projectId now = (.ok (), R.move tr projectId now)) ∨
      ¬ R.InStatus projectId tr.expected ∧
        R.transition tr projectId now = (.error .conditionalCheckFailed, R) := by
  unfold transition
  by_cases hstatus : R.InStatus projectId tr.expected
  · exact Or.inl ⟨hstatus, if_pos hstatus⟩
  · exact Or.inr ⟨hstatus, if_neg hstatus⟩

end Cases

end Projects

/-! ## Refinement -/

namespace Represents

variable [CaseTables] {R : Projects} {t : Table}

/-- Adding a record and its reservation. -/
theorem add (h : Represents R t) (p : Project) (hname : ¬ R.Taken (nameKey p.name))
    (hid : R.find? p.projectId = none) :
    Represents (R.add { project := p } hname)
      ((t.insert (reservationKey p.name) (reservationItem p)).insert (recordKey p.projectId)
        (projectItem p)) where
  record id := by
    rw [lookup_insert_eq, lookup_insert_eq, Registry.find?_add, h.record]
    by_cases hp : id = p.projectId
    · simp [hp, recordItem_of_project]
    · simp [hp]
  reservation name item := by
    rw [lookup_insert_eq, lookup_insert_eq, if_neg (by simp)]
    simp only [Registry.find?_add]
    by_cases hk : nameKey name = nameKey p.name
    · -- the new reservation, which no other record can own
      rw [if_pos (reservationKey_inj.mpr hk)]
      constructor
      · intro hitem
        exact ⟨p.projectId, { project := p }, by simp, hk.symm, (Option.some.inj hitem).symm⟩
      · rintro ⟨id, e, he, hename, rfl⟩
        split at he
        · obtain rfl := Option.some.inj he
          rfl
        · exact absurd ⟨id, e, he, hename.trans hk⟩ hname
    -- a reservation of another name keeps its owner, as the new id was free
    · rw [if_neg fun heq => hk (reservationKey_inj.mp heq), h.reservation]
      constructor
      · rintro ⟨id, e, he, hename, rfl⟩
        refine ⟨id, e, ?_, hename, rfl⟩
        rw [if_neg, he]
        rintro rfl
        rw [hid] at he
        cases he
      · rintro ⟨id, e, he, hename, rfl⟩
        split at he
        · obtain rfl := Option.some.inj he
          exact absurd hename.symm hk
        · exact ⟨id, e, he, hename, rfl⟩
  -- the two new items have keys of the two kinds
  keys key item hitem := by
    rw [lookup_insert_eq, lookup_insert_eq] at hitem
    split at hitem
    · exact Or.inl ⟨_, ‹_›⟩
    · split at hitem
      · exact Or.inr ⟨_, ‹_›⟩
      · exact h.keys key item hitem

/-- Erasing a record and its reservation. -/
theorem remove (h : Represents R t) {id name : String} {e : Entry} (he : R.find? id = some e)
    (hname : nameKey e.project.name = nameKey name) :
    Represents (R.remove id) ((t.erase (recordKey id)).erase (reservationKey name)) where
  record id' := by
    rw [lookup_erase_eq, lookup_erase_eq, Registry.find?_remove, h.record]
    by_cases hid : id' = id <;> simp [hid]
  reservation name' item := by
    rw [lookup_erase_eq, lookup_erase_eq, if_neg (reservationKey_ne_recordKey id name')]
    simp only [Registry.find?_remove]
    by_cases hk : nameKey name' = nameKey name
    · -- the erased reservation, whose only owner is gone
      rw [if_pos (reservationKey_inj.mpr hk)]
      constructor
      · intro hitem
        cases hitem
      · rintro ⟨id', e', he', hename, -⟩
        split at he'
        · cases he'
        · rename_i hne
          exact absurd (Registry.eq_of_nameOf_eq he' he (hename.trans (hk.trans hname.symm))).1 hne
    -- another name has another owner
    · rw [if_neg fun heq => hk (reservationKey_inj.mp heq), h.reservation]
      constructor
      · rintro ⟨id', e', he', hename, rfl⟩
        refine ⟨id', e', ?_, hename, rfl⟩
        rw [if_neg, he']
        rintro rfl
        rw [he] at he'
        obtain rfl := Option.some.inj he'
        exact hk (hename.symm.trans hname)
      · rintro ⟨id', e', he', hename, rfl⟩
        split at he'
        · cases he'
        · exact ⟨id', e', he', hename, rfl⟩
  keys key item hitem := by
    rw [lookup_erase_eq, lookup_erase_eq] at hitem
    split at hitem
    · cases hitem
    · split at hitem
      · cases hitem
      · exact h.keys key item hitem

/-- What a transition leaves in the record item. -/
theorem lookup_recordItem_apply (tr : Transition) (now : Datetime) (e : Entry) (name : String) :
    (recordItem (tr.apply now e)).lookup name =
      ((transitionSets tr.target tr.extra now).lookup name).or ((recordItem e).lookup name) := by
  rw [tr.lookup_transitionSets, lookup_recordItem, lookup_recordItem]
  simp only [Transition.apply, lookup_projectAttributes_update]
  by_cases hstatus : name = "status"
  · simp [hstatus]
  · by_cases hupdated : name = "updatedAt"
    · simp [hupdated]
    · rw [if_neg hstatus, if_neg hupdated, if_neg hstatus, if_neg hupdated, Transition.extra_eq,
        List.lookup_append]
      by_cases hendpoint : name = "endpoint"
      · subst hendpoint
        cases tr.endpoint <;> cases tr.failureReason <;>
          simp [optionalAttribute, projectAttributes, List.lookup_cons]
      · by_cases hreason : name = "failureReason"
        · subst hreason
          cases tr.endpoint <;> cases tr.failureReason <;>
            simp [optionalAttribute, projectAttributes, List.lookup_cons]
        · -- no transition writes any other attribute
          have hnone : ∀ value : Option String,
              (optionalAttribute "endpoint" value).lookup name = none ∧
                (optionalAttribute "failureReason" value).lookup name = none := by
            intro value
            cases value <;> simp [optionalAttribute, hendpoint, hreason]
          simp [hendpoint, hreason, (hnone _).1, (hnone _).2]

/-- Writing the changed record of a project. -/
theorem move (h : Represents R t) (tr : Transition) (now : Datetime) {id : String} {e : Entry}
    (he : R.find? id = some e) :
    Represents (R.move tr id now)
      (t.insert (recordKey id) (recordItem (tr.apply now e))) where
  record id' := by
    rw [lookup_insert_eq, Projects.find?_move, h.record]
    by_cases hid : id' = id <;> simp [hid, he]
  reservation name item := by
    rw [lookup_insert_eq, if_neg (reservationKey_ne_recordKey id name), h.reservation]
    simp only [Projects.find?_move]
    constructor
    · rintro ⟨id', e', he', hename, rfl⟩
      by_cases hid : id' = id
      · subst hid
        obtain rfl := Option.some.inj (he.symm.trans he')
        exact ⟨id', tr.apply now e, by simp [he], hename, rfl⟩
      · exact ⟨id', e', by simp [hid, he'], hename, rfl⟩
    · rintro ⟨id', e', he', hename, rfl⟩
      split at he'
      · rw [he, Option.map_some] at he'
        obtain rfl := Option.some.inj he'
        exact ⟨id, e, he, hename, rfl⟩
      · exact ⟨id', e', he', hename, rfl⟩
  keys key item hitem := by
    rw [lookup_insert_eq] at hitem
    split at hitem
    · exact Or.inl ⟨_, ‹_›⟩
    · exact h.keys key item hitem

/-! ### The requests -/

omit [CaseTables] in
/-- On items that carry their key, `attribute_not_exists(PK)` is absence. -/
private theorem holds_attributeNotExists {ctx : ExpressionAttributes} {item : Option Item}
    (hpk : ∀ stored, item = some stored → ∃ value, stored.lookup "PK" = some value) :
    (Condition.attributeNotExists "PK").holds ctx item = item.isNone := by
  have halias : isAlias "PK" = false := by decide
  cases item with
  | none => simp [Condition.holds, ExpressionAttributes.read, ExpressionAttributes.resolve, halias]
  | some stored =>
      obtain ⟨value, hvalue⟩ := hpk stored rfl
      simp [Condition.holds, ExpressionAttributes.read, ExpressionAttributes.resolve, halias,
        hvalue]

/-- The conditions of `create`, as statements about the registry. -/
theorem holds_createActions (h : Represents R t) (p : Project) :
    (createActions p).map (TransactItem.holds t) =
      [decide (¬ R.Taken (nameKey p.name)), (R.find? p.projectId).isNone] := by
  have hreserved : ({ write := .put (reservationItem p), condition := .attributeNotExists "PK" } :
      TransactItem).holds t = decide (¬ R.Taken (nameKey p.name)) := by
    rw [TransactItem.holds, Write.key?, key?_reservationItem, Option.bind_some,
      holds_attributeNotExists, ← h.reserved_iff]
    · cases t.lookup (reservationKey p.name) <;> simp
    · intro stored hstored
      obtain ⟨id, e, -, -, rfl⟩ := (h.reservation _ _).mp hstored
      exact ⟨_, reservationItem_pk _⟩
  have hrecord : ({ write := .put (projectItem p), condition := .attributeNotExists "PK" } :
      TransactItem).holds t = (R.find? p.projectId).isNone := by
    rw [TransactItem.holds, Write.key?, key?_projectItem, Option.bind_some,
      holds_attributeNotExists, h.record]
    · cases R.find? p.projectId <;> rfl
    · intro stored hstored
      obtain ⟨e, -, rfl⟩ := h.record_eq_some.mp hstored
      exact ⟨_, recordItem_pk _⟩
  simp only [createActions, List.map_cons, List.map_nil, hreserved, hrecord]

/-- The transaction of `create` refines `Projects.create`. -/
theorem create (h : Represents R t) (p : Project) :
    (transactWriteItems (createActions p) t).1 = (R.create p).1 ∧
      Represents (R.create p).2 (transactWriteItems (createActions p) t).2 := by
  have hwell : (createActions p).all TransactItem.wellFormed = true := by
    simp [createActions, TransactItem.wellFormed, Write.key?, Condition.operands]
  rw [transactWriteItems_of_verdicts hwell (h.holds_createActions p)]
  unfold Projects.create
  by_cases htaken : R.Taken (nameKey p.name)
  · -- the reservation of the name is there already
    rw [dif_pos htaken]
    refine ⟨?_, by simpa [htaken] using h⟩
    cases R.find? p.projectId <;> simp [htaken]
  · rw [dif_neg htaken]
    cases hid : R.find? p.projectId with
    | some e => exact ⟨by simp [htaken], by simpa using h⟩
    | none =>
        refine ⟨by simp [htaken], ?_⟩
        simp only [htaken, not_false_eq_true, decide_true, Option.isNone_none, List.all_cons,
          List.all_nil, id_eq, Bool.and_true, if_true, createActions, List.foldl_cons,
          List.foldl_nil, Write.apply, key?_reservationItem, key?_projectItem, Option.isSome_none,
          Bool.false_eq_true, if_false]
        exact h.add p htaken hid

/-- Whose record it is, as `delete` asks the table. -/
private theorem holds_ownedBy (h : Represents R t) (projectId ownerId : String) :
    ({ write := .delete (recordKey projectId)
       condition := .and (.attributeExists "PK") (.equals "ownerId" ":owner")
       attributes := { values := [(":owner", .S ownerId)] } } : TransactItem).holds t =
      decide (R.OwnedBy projectId ownerId) := by
  have hpk : isAlias "PK" = false := by decide
  have howner : isAlias "ownerId" = false := by decide
  rw [TransactItem.holds, Write.key?, Option.bind_some, h.record]
  cases he : R.find? projectId with
  | none =>
      simp [Condition.holds, ExpressionAttributes.read, ExpressionAttributes.resolve, hpk,
        Projects.OwnedBy, he]
  | some e =>
      simp [Condition.holds, ExpressionAttributes.read, ExpressionAttributes.resolve, hpk,
        howner, Projects.OwnedBy, he]

/-- Whose reservation it is, as `delete` asks the table. -/
private theorem holds_named (h : Represents R t) (projectId name : String) :
    ({ write := .delete (reservationKey name)
       condition := .equals "projectId" ":id"
       attributes := { values := [(":id", .S projectId)] } } : TransactItem).holds t =
      decide (R.Named projectId name) := by
  have hid : isAlias "projectId" = false := by decide
  rw [TransactItem.holds, Write.key?, Option.bind_some]
  cases hstored : t.lookup (reservationKey name) with
  | none =>
      have hfree : ¬ R.Named projectId name := by
        rintro ⟨e, he, hname⟩
        have hitem := (h.reservation name _).mpr ⟨projectId, e, he, hname, rfl⟩
        rw [hstored] at hitem
        cases hitem
      simp [Condition.holds, ExpressionAttributes.read, ExpressionAttributes.resolve, hid, hfree]
  | some item =>
      -- the name has one bearer, so the reservation is the project's or another's
      obtain ⟨id, e, he, hname, rfl⟩ := (h.reservation name item).mp hstored
      have hiff : R.Named projectId name ↔ e.project.projectId = projectId := by
        constructor
        · rintro ⟨e', he', hname'⟩
          obtain ⟨-, rfl⟩ := Registry.eq_of_nameOf_eq he he' (hname.trans hname'.symm)
          exact Projects.projectId_eq he'
        · intro hproject
          exact ⟨e, by rw [← hproject, Projects.projectId_eq he, he], hname⟩
      simp [Condition.holds, ExpressionAttributes.read, ExpressionAttributes.resolve, hid, hiff]

/-- The conditions of `delete`, as statements about the registry. -/
theorem holds_deleteActions (h : Represents R t) (projectId name ownerId : String) :
    (deleteActions projectId name ownerId).map (TransactItem.holds t) =
      [decide (R.OwnedBy projectId ownerId), decide (R.Named projectId name)] := by
  rw [deleteActions, List.map_cons, List.map_cons, List.map_nil, h.holds_ownedBy, h.holds_named]

/-- The transaction of `delete` refines `Projects.delete`. -/
theorem delete (h : Represents R t) (projectId name ownerId : String) :
    (transactWriteItems (deleteActions projectId name ownerId) t).1 =
        (R.delete projectId name ownerId).1 ∧
      Represents (R.delete projectId name ownerId).2
        (transactWriteItems (deleteActions projectId name ownerId) t).2 := by
  have hwell : (deleteActions projectId name ownerId).all TransactItem.wellFormed = true := by
    simp [deleteActions, TransactItem.wellFormed, Write.key?, Condition.operands]
  rw [transactWriteItems_of_verdicts hwell (h.holds_deleteActions projectId name ownerId)]
  simp only [List.all_cons, List.all_nil, id_eq, Bool.and_true, Bool.and_eq_true, decide_eq_true_eq,
    List.map_cons, List.map_nil]
  unfold Projects.delete
  by_cases hboth : R.OwnedBy projectId ownerId ∧ R.Named projectId name
  · rw [if_pos hboth, if_pos hboth]
    refine ⟨rfl, ?_⟩
    obtain ⟨e, he, hname⟩ := hboth.2
    exact h.remove he hname
  · rw [if_neg hboth, if_neg hboth]
    exact ⟨rfl, h⟩

/-- The conditional update of a transition refines `Projects.transition`. -/
theorem transition (h : Represents R t) (tr : Transition) (projectId : String) (now : Datetime) :
    (updateItem (tr.request projectId now) t).1 = (R.transition tr projectId now).1 ∧
      Represents (R.transition tr projectId now).2
        (updateItem (tr.request projectId now) t).2 := by
  have hholds : (tr.request projectId now).conditionHolds t = true ↔
      R.InStatus projectId tr.expected := by
    rw [Transition.request, transitionRequest_conditionHolds]
    simp only [h.record_eq_some]
    constructor
    · rintro ⟨_, ⟨e, he, rfl⟩, hstatus⟩
      rw [recordItem_status, Option.some_inj, AttributeValue.S.injEq] at hstatus
      exact ⟨e, he, ProjectStatus.value_injective hstatus⟩
    · rintro ⟨e, he, hstatus⟩
      exact ⟨_, ⟨e, he, rfl⟩, by rw [recordItem_status, hstatus]⟩
  by_cases hstatus : R.InStatus projectId tr.expected
  · obtain ⟨e, he, -⟩ := id hstatus
    have happly : (tr.request projectId now).apply (some (recordItem e)) =
        recordItem (tr.apply now e) := by
      apply Finmap.ext_lookup
      intro name
      rw [lookup_recordItem_apply, Transition.request,
        transitionRequest_apply _ _ _ _ _ tr.extraAttributes]
    have hkey : (tr.request projectId now).key = recordKey projectId := rfl
    rw [updateItem_of_holds (tr.wellFormed projectId now) (hholds.mpr hstatus), hkey, h.record, he,
      Option.map_some, happly, Projects.transition, if_pos hstatus]
    exact ⟨rfl, h.move tr now he⟩
  · have hfalse : (tr.request projectId now).conditionHolds t = false :=
      Bool.eq_false_iff.mpr fun htrue => hstatus (hholds.mp htrue)
    rw [updateItem_of_not_holds (tr.wellFormed projectId now) hfalse, Projects.transition,
      if_neg hstatus]
    exact ⟨rfl, h⟩

end Represents

end ProjectsApi
