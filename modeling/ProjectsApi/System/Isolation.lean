import ProjectsApi.System.Listing
import ProjectsApi.System.Routes

/-!
# Isolation of owners

What a caller is answered depends on the caller's own projects only: two tables that agree on
them give the same answers, whatever else they hold and whatever ids and tokens the caller
sends, and a delete leaves the items of every other owner alone.
-/

namespace ProjectsApi

open Foundation Dynamo Program

/-! ## Accepted tokens -/

/-- A member `{"S": text}`. -/
def HasAttribute (members : List (CodePoints × Json)) (name : String) (text : CodePoints) :
    Prop :=
  ∃ fields, memberAt members (codePoints name) = some (.object fields) ∧
    (∀ field, field ∈ fields.map Prod.fst ↔ field = codePoints "S") ∧
    memberAt fields (codePoints "S") = some (.string text)

/-- The JSON of a cursor: four string attributes and nothing else. -/
def IsCursorDocument (key : CursorKey) (json : Json) : Prop :=
  ∃ members, json = .object members ∧
    (∀ name, name ∈ members.map Prod.fst ↔ name ∈ cursorKeys) ∧
    HasAttribute members "PK" key.pk ∧ HasAttribute members "SK" key.sk ∧
    HasAttribute members "GSI1PK" key.gsi1pk ∧ HasAttribute members "GSI1SK" key.gsi1sk

theorem mem_of_sameKeys {members : List (CodePoints × Json)} {keys : List CodePoints}
    (h : sameKeys members keys = true) (name : CodePoints) :
    name ∈ members.map Prod.fst ↔ name ∈ keys := by
  rw [sameKeys, Bool.and_eq_true, List.all_eq_true, List.all_eq_true] at h
  constructor
  · intro hname
    obtain ⟨member, hmember, rfl⟩ := List.mem_map.mp hname
    exact List.contains_iff_mem.mp (h.1 member hmember)
  · intro hname
    exact List.contains_iff_mem.mp (h.2 name hname)

theorem hasAttribute_of_bind {members : List (CodePoints × Json)} {name : String}
    {text : CodePoints} (h : (memberAt members (codePoints name)).bind attribute? = some text) :
    HasAttribute members name text := by
  obtain ⟨value, hvalue, hattribute⟩ := Option.bind_eq_some_iff.mp h
  cases value with
  | object fields =>
      rw [attribute?] at hattribute
      split at hattribute
      · rename_i hkeys
        refine ⟨fields, hvalue, fun field => ?_, ?_⟩
        · rw [mem_of_sameKeys hkeys, List.mem_singleton]
        · split at hattribute
          · rename_i text' htext
            rw [htext, Option.some.inj hattribute]
          · cases hattribute
      · cases hattribute
  | _ => cases hattribute

theorem cursorKey?_document {json : Json} {key : CursorKey} (h : cursorKey? json = some key) :
    IsCursorDocument key json := by
  cases json with
  | object members =>
      rw [cursorKey?] at h
      split at h
      · rename_i hkeys
        obtain ⟨pk, hpk, h⟩ := Option.bind_eq_some_iff.mp h
        obtain ⟨sk, hsk, h⟩ := Option.bind_eq_some_iff.mp h
        obtain ⟨gsi1pk, hgsi1pk, h⟩ := Option.bind_eq_some_iff.mp h
        obtain ⟨gsi1sk, hgsi1sk, h⟩ := Option.bind_eq_some_iff.mp h
        obtain rfl := Option.some.inj h
        exact ⟨members, rfl, mem_of_sameKeys hkeys, hasAttribute_of_bind hpk,
          hasAttribute_of_bind hsk, hasAttribute_of_bind hgsi1pk, hasAttribute_of_bind hgsi1sk⟩
      · cases h
  | _ => cases h

/-- A token is accepted for one owner at most. -/
theorem decodeCursor_owner_unique {token ownerId ownerId' : String} {key key' : CursorKey}
    (h : decodeCursor token ownerId = .ok key) (h' : decodeCursor token ownerId' = .ok key') :
    ownerId = ownerId' := by
  obtain ⟨howner, json, hjson, hkey⟩ := decodeCursor_ok h
  obtain ⟨howner', json', hjson', hkey'⟩ := decodeCursor_ok h'
  obtain rfl := Option.some.inj (hjson.symm.trans hjson')
  obtain rfl := Option.some.inj (hkey.symm.trans hkey')
  exact ownerGsi1pk_injective (codePoints_inj.mp (howner.symm.trans howner'))

/-! ## One request of an owner -/

/-- The requests that name projects of the caller. -/
inductive OwnRequest where
  | get (projectId : String)
  | delete (projectId : String)
  | list (limit : Nat) (nextToken : Option String)

/-- The projects a response discloses. -/
def HttpResponse.projects (r : HttpResponse) : List Project :=
  match r.body with
  | .project project => [project]
  | .page items _ => items
  | _ => []

/-- The table keeps every item, record or reservation, of every other owner. -/
def KeepsOthers (ownerId : String) (t t' : Table) : Prop :=
  ∀ key item, t.lookup key = some item → item.lookup "ownerId" ≠ some (.S ownerId) →
    t'.lookup key = some item

/-- The tables hold the same projects of an owner. -/
def AgreeOn (ownerId : String) (t t' : Table) : Prop :=
  ∀ id item, item.lookup "ownerId" = some (.S ownerId) →
    (t.lookup (recordKey id) = some item ↔ t'.lookup (recordKey id) = some item)

/-- A query answers with items of its partition. -/
def Service.Partitioned (svc : Service) : Prop :=
  ∀ items request output, svc.query items request (.ok output) → ∀ item ∈ output.items, item ∈ items

section Owners

variable [CaseTables] [DatetimeParser]

def OwnRequest.route (ownerId : String) : OwnRequest → Action (Except Exn HttpResponse)
  | .get projectId => getProject projectId ownerId
  | .delete projectId => deleteProject projectId ownerId
  | .list limit nextToken => listProjects ownerId limit nextToken

/-! ## The view of an owner -/

/-- What the requests of an owner depend on: the owner's projects and their index partition. -/
structure OwnerView where
  project? : String → Option Project
  partition : Finset Item

/-- The view that a table, which encodes `R`, gives of an owner. -/
def ownerView (R : Projects) (t : Table) (ownerId : String) : OwnerView where
  project? id := ((R.find? id).map Entry.project).filter fun p => p.ownerId = ownerId
  partition := indexPartition t "GSI1PK" "GSI1SK" (ownerGsi1pk ownerId) projectGsi1skPrefix

section View

variable {R R' : Projects} {t t' : Table} {ownerId id : String} {p : Project}

omit [DatetimeParser] in
theorem ownerView_project?_eq_some_iff :
    (ownerView R t ownerId).project? id = some p ↔
      ∃ e, R.find? id = some e ∧ e.project = p ∧ p.ownerId = ownerId := by
  simp only [ownerView, Option.filter_eq_some_iff, Option.map_eq_some_iff, decide_eq_true_eq]
  constructor
  · rintro ⟨⟨e, he, hp⟩, howner⟩
    exact ⟨e, he, hp, howner⟩
  · rintro ⟨e, he, hp, howner⟩
    exact ⟨⟨e, he, hp⟩, howner⟩

omit [DatetimeParser] in
theorem ne_owner_of_ownerView (hnone : (ownerView R t ownerId).project? id = none) {e : Entry}
    (he : R.find? id = some e) : e.project.ownerId ≠ ownerId := by
  intro howner
  have hsome := (ownerView_project?_eq_some_iff (t := t)).mpr ⟨e, he, rfl, howner⟩
  rw [hnone] at hsome
  cases hsome

omit [DatetimeParser] in
/-- An id under which the table has no record of the owner. -/
theorem Represents.ownerView_eq_none (h : Represents R t)
    (hother : ∀ item, t.lookup (recordKey id) = some item →
      item.lookup "ownerId" ≠ some (.S ownerId)) :
    (ownerView R t ownerId).project? id = none := by
  rw [Option.eq_none_iff_forall_ne_some]
  intro p hp
  obtain ⟨e, he, rfl, howner⟩ := ownerView_project?_eq_some_iff.mp hp
  refine hother (recordItem e) (h.record_eq_some.mpr ⟨e, he, rfl⟩) ?_
  rw [recordItem_ownerId, howner]

omit [DatetimeParser] in
/-- The partition of an owner holds the records of the owner's projects. -/
theorem Represents.mem_partition (h : Represents R t) {item : Item} :
    item ∈ (ownerView R t ownerId).partition ↔
      ∃ id e, R.find? id = some e ∧ e.project.ownerId = ownerId ∧ item = recordItem e := by
  -- the partition does not depend on the page that is asked for
  change item ∈ Service.visible t (ProjectRepository.listRequest ownerId 0 none) ↔ _
  exact h.mem_visible

omit [DatetimeParser] in
/-- A record of the owner is a record in every table that agrees on the owner. -/
theorem AgreeOn.record (hagree : AgreeOn ownerId t t') (h : Represents R t)
    (h' : Represents R' t') {e : Entry} (he : R.find? id = some e)
    (howner : e.project.ownerId = ownerId) :
    ∃ e', R'.find? id = some e' ∧ recordItem e = recordItem e' := by
  have hitem : t.lookup (recordKey id) = some (recordItem e) := h.record_eq_some.mpr ⟨e, he, rfl⟩
  have hfield : (recordItem e).lookup "ownerId" = some (.S ownerId) := by
    rw [recordItem_ownerId, howner]
  exact h'.record_eq_some.mp ((hagree id _ hfield).mp hitem)

omit [CaseTables] [DatetimeParser] in
theorem AgreeOn.symm (hagree : AgreeOn ownerId t t') : AgreeOn ownerId t' t :=
  fun id item hitem => (hagree id item hitem).symm

theorem AgreeOn.project? (hagree : AgreeOn ownerId t t') (h : Represents R t)
    (h' : Represents R' t') (hp : (ownerView R t ownerId).project? id = some p) :
    (ownerView R' t' ownerId).project? id = some p := by
  obtain ⟨e, he, rfl, howner⟩ := ownerView_project?_eq_some_iff.mp hp
  obtain ⟨e', he', heq⟩ := hagree.record h h' he howner
  exact ownerView_project?_eq_some_iff.mpr
    ⟨e', he', (project_eq_of_recordItem_eq heq).symm, howner⟩

theorem AgreeOn.mem_partition (hagree : AgreeOn ownerId t t') (h : Represents R t)
    (h' : Represents R' t') {item : Item} (hitem : item ∈ (ownerView R t ownerId).partition) :
    item ∈ (ownerView R' t' ownerId).partition := by
  obtain ⟨id, e, he, howner, rfl⟩ := h.mem_partition.mp hitem
  obtain ⟨e', he', heq⟩ := hagree.record h h' he howner
  have howner' : e'.project.ownerId = ownerId := by
    rw [← project_eq_of_recordItem_eq heq, howner]
  exact h'.mem_partition.mpr ⟨id, e', he', howner', heq⟩

/-- Tables that agree on an owner give the same view of the owner. -/
theorem AgreeOn.ownerView_eq (hagree : AgreeOn ownerId t t') (h : Represents R t)
    (h' : Represents R' t') : ownerView R t ownerId = ownerView R' t' ownerId := by
  have hproject : (ownerView R t ownerId).project? = (ownerView R' t' ownerId).project? := by
    funext id
    ext p
    exact ⟨hagree.project? h h', hagree.symm.project? h' h⟩
  have hpartition : (ownerView R t ownerId).partition = (ownerView R' t' ownerId).partition := by
    ext item
    exact ⟨hagree.mem_partition h h', hagree.symm.mem_partition h' h⟩
  rw [OwnerView.mk.injEq]
  exact ⟨hproject, hpartition⟩

end View

/-! ## What a request ends with -/

/-- What a request of an owner ends with, as far as the owner's view decides it. -/
inductive OwnRequest.Ends (svc : Service) (ownerId : String) (view : OwnerView) :
    OwnRequest → Except Exn HttpResponse → Prop where
  | getInvalid {id : String} (hid : isValidProjectId id = false) :
      Ends svc ownerId view (.get id) (.error (.projectNotFound id))
  | getFault {id : String} {e : ClientError} (hid : isValidProjectId id = true)
      (hfault : svc.readFault e) : Ends svc ownerId view (.get id) (.error (.clientError e))
  | getNone {id : String} (hid : isValidProjectId id = true) (hnone : view.project? id = none) :
      Ends svc ownerId view (.get id) (.error (.projectNotFound id))
  | get {id : String} {p : Project} (hid : isValidProjectId id = true)
      (hsome : view.project? id = some p) :
      Ends svc ownerId view (.get id) (.ok { status := 200, body := .project p })
  | deleteInvalid {id : String} (hid : isValidProjectId id = false) :
      Ends svc ownerId view (.delete id) (.error (.projectNotFound id))
  | deleteReadFault {id : String} {e : ClientError} (hid : isValidProjectId id = true)
      (hfault : svc.readFault e) : Ends svc ownerId view (.delete id) (.error (.clientError e))
  | deleteNone {id : String} (hid : isValidProjectId id = true)
      (hnone : view.project? id = none) :
      Ends svc ownerId view (.delete id) (.error (.projectNotFound id))
  | deleteFault {id : String} {p : Project} {fault : Fault} (hid : isValidProjectId id = true)
      (hsome : view.project? id = some p) (hfault : svc.transactFault fault) :
      Ends svc ownerId view (.delete id) (.error (deleteExn id fault.error))
  | delete {id : String} {p : Project} (hid : isValidProjectId id = true)
      (hsome : view.project? id = some p) :
      Ends svc ownerId view (.delete id) (.ok { status := 204, body := .empty })
  | listInvalid {limit : Nat} {nextToken : Option String} {exn : Exn}
      (htoken : decodeNextToken nextToken ownerId = .error exn) :
      Ends svc ownerId view (.list limit nextToken) (.error exn)
  | list {limit : Nat} {nextToken : Option String} {cursor : Option CursorKey}
      {answer : Except ClientError QueryOutput}
      (htoken : decodeNextToken nextToken ownerId = .ok cursor)
      (hanswer : svc.query view.partition (ProjectRepository.listRequest ownerId limit cursor)
        answer) :
      Ends svc ownerId view (.list limit nextToken) (listResponse cursor answer)

/-! ## One run -/

section Eval

variable {svc : Service} {t t' : Table} {R : Projects} {ownerId id : String}
  {ended : Except Exn HttpResponse}

/-- A project that is not the owner's is not found. -/
theorem Represents.getResponse_of_none (h : Represents R t)
    (hnone : (ownerView R t ownerId).project? id = none) :
    getResponse id ownerId (ProjectRepository.getValue id (.ok (t.lookup (recordKey id)))) =
      .error (.projectNotFound id) := by
  rw [h.getValue_eq, Projects.getResult]
  cases he : R.find? id with
  | none => rfl
  | some e =>
      exact if_pos (ne_owner_of_ownerView hnone he)

theorem Represents.getValue_of_some (h : Represents R t) {p : Project}
    (hsome : (ownerView R t ownerId).project? id = some p) :
    ProjectRepository.getValue id (.ok (t.lookup (recordKey id))) = .ok p ∧
      p.ownerId = ownerId := by
  obtain ⟨e, he, rfl, howner⟩ := ownerView_project?_eq_some_iff.mp hsome
  rw [h.getValue_eq, Projects.getResult, he]
  exact ⟨rfl, howner⟩

theorem Represents.getResponse_of_some (h : Represents R t) {p : Project}
    (hsome : (ownerView R t ownerId).project? id = some p) :
    getResponse id ownerId (ProjectRepository.getValue id (.ok (t.lookup (recordKey id)))) =
      .ok { status := 200, body := .project p } := by
  obtain ⟨hvalue, howner⟩ := h.getValue_of_some hsome
  rw [hvalue]
  exact if_neg (not_not.mpr howner)

/-- `get_project` reads the view of the caller. -/
theorem Represents.eval_getProject_iff (h : Represents R t) :
    Eval svc.Exec t (getProject id ownerId) ended t' ↔
      t' = t ∧ OwnRequest.Ends svc ownerId (ownerView R t ownerId) (.get id) ended := by
  cases hid : isValidProjectId id with
  -- an id of the wrong shape is not even looked up
  | false =>
      have hroute : getProject id ownerId = .done (.error (.projectNotFound id)) := by
        rw [getProject, hid]
        rfl
      rw [hroute, eval_done_iff]
      constructor
      · rintro ⟨rfl, rfl⟩
        exact ⟨rfl, .getInvalid hid⟩
      · rintro ⟨rfl, hends⟩
        cases hends with
        | getInvalid => exact ⟨rfl, rfl⟩
        | getFault hvalid | getNone hvalid | get hvalid => simp [hid] at hvalid
  | true =>
      rw [getProject_eq hid, eval_call_iff]
      constructor
      · rintro ⟨answer, t₁, hexec, hnext⟩
        cases hexec with
        | getItem =>
            obtain ⟨hended, rfl⟩ := eval_done_iff.mp hnext
            refine ⟨rfl, ?_⟩
            -- the answer depends on the view alone
            cases hview : (ownerView R t' ownerId).project? id with
            | none =>
                rw [hended, h.getResponse_of_none hview]
                exact .getNone hid hview
            | some p =>
                rw [hended, h.getResponse_of_some hview]
                exact .get hid hview
        | getItemFault _ hfault =>
            obtain ⟨rfl, rfl⟩ := eval_done_iff.mp hnext
            exact ⟨rfl, .getFault hid hfault⟩
      · rintro ⟨rfl, hends⟩
        cases hends with
        | getInvalid hinvalid => simp [hid] at hinvalid
        | getFault _ hfault => exact ⟨_, _, .getItemFault _ hfault, .done _ _⟩
        | getNone _ hview =>
            refine ⟨_, _, .getItem _, eval_done_iff.mpr ⟨?_, rfl⟩⟩
            rw [h.getResponse_of_none hview]
        | get _ hview =>
            refine ⟨_, _, .getItem _, eval_done_iff.mpr ⟨?_, rfl⟩⟩
            rw [h.getResponse_of_some hview]

/-! ### Deleting -/

omit [DatetimeParser] in
/-- A table that has all records of the others has their items. -/
theorem Represents.keepsOthers (h : Represents R t) (h' : Represents R' t')
    (hkept : ∀ id e, e.project.ownerId ≠ ownerId → R.find? id = some e →
      R'.find? id = some e) : KeepsOthers ownerId t t' := by
  intro key item hitem hother
  rcases h.keys key item hitem with ⟨id, rfl⟩ | ⟨name, rfl⟩
  · obtain ⟨e, he, rfl⟩ := h.record_eq_some.mp hitem
    have hne : e.project.ownerId ≠ ownerId := by
      rintro rfl
      exact hother (recordItem_ownerId e)
    exact h'.record_eq_some.mpr ⟨e, hkept id e hne he, rfl⟩
  · obtain ⟨id, e, he, hname, rfl⟩ := (h.reservation name item).mp hitem
    have hne : e.project.ownerId ≠ ownerId := by
      rintro rfl
      exact hother (reservationItem_ownerId e.project)
    exact (h'.reservation name _).mpr ⟨id, e, hkept id e hne he, hname, rfl⟩

omit [DatetimeParser] in
/-- Deleting a project of the owner leaves the items of all others alone. -/
theorem Represents.keepsOthers_remove (h : Represents R t) {e : Entry}
    (he : R.find? id = some e) (h' : Represents (R.remove id) t') :
    KeepsOthers e.project.ownerId t t' := by
  refine h.keepsOthers h' ?_
  intro id' e' hother he'
  rw [Registry.find?_remove, if_neg, he']
  rintro rfl
  obtain rfl := Option.some.inj (he.symm.trans he')
  exact hother rfl

omit [CaseTables] [DatetimeParser] in
theorem KeepsOthers.refl (ownerId : String) (t : Table) : KeepsOthers ownerId t t :=
  fun _ _ hitem _ => hitem

omit [DatetimeParser] in
/-- The transaction that deletes a stored project of its owner. -/
theorem Represents.exec_deleteOwned (h : Represents R t) {e : Entry}
    (he : R.find? id = some e) {answer : Except ClientError Unit}
    (hexec : svc.Exec t (.transactWriteItems
      (deleteActions id e.project.name e.project.ownerId)) answer t') :
    (answer = .ok () ∨ ∃ fault, svc.transactFault fault ∧ answer = .error fault.error) ∧
      KeepsOthers e.project.ownerId t t' := by
  obtain ⟨hanswer, hrep⟩ := h.delete id e.project.name e.project.ownerId
  rw [Projects.delete_of_owned_named ⟨e, he, rfl⟩ ⟨e, he, rfl⟩] at hanswer hrep
  have hkeeps := h.keepsOthers_remove he hrep
  constructor
  · cases hexec with
    | transactWriteItems => exact Or.inl hanswer
    | transactFault _ hfault => exact Or.inr ⟨_, hfault, rfl⟩
  · rcases hexec.transact_cases with rfl | rfl
    · exact .refl _ _
    · exact hkeeps

/-- `delete_project` of a caller who has the project: one transaction follows the read. -/
theorem Represents.deleteRead_of_some (h : Represents R t) {p : Project}
    (hsome : (ownerView R t ownerId).project? id = some p) :
    ProjectRepository.deleteRead id ownerId
        (ProjectRepository.getValue id (.ok (t.lookup (recordKey id)))) =
      .call (.transactWriteItems (deleteActions id p.name ownerId))
        (ProjectRepository.deleteNext id p.name) := by
  obtain ⟨hvalue, howner⟩ := h.getValue_of_some hsome
  rw [hvalue]
  exact if_neg (not_not.mpr howner)

theorem Represents.deleteRead_of_none (h : Represents R t)
    (hnone : (ownerView R t ownerId).project? id = none) :
    ProjectRepository.deleteRead id ownerId
        (ProjectRepository.getValue id (.ok (t.lookup (recordKey id)))) =
      .done (.error (.projectNotFound id)) := by
  rw [h.getValue_eq, Projects.getResult]
  cases he : R.find? id with
  | none => rfl
  | some e =>
      exact if_pos (ne_owner_of_ownerView hnone he)

/-- What `delete_project` ends with is decided by the view of the caller, and the items of
others stay. -/
theorem Represents.eval_deleteProject (h : Represents R t)
    (heval : Eval svc.Exec t (deleteProject id ownerId) ended t') :
    OwnRequest.Ends svc ownerId (ownerView R t ownerId) (.delete id) ended ∧
      KeepsOthers ownerId t t' := by
  cases hid : isValidProjectId id with
  | false =>
      rw [deleteProject, hid] at heval
      obtain ⟨rfl, rfl⟩ := eval_done_iff.mp heval
      exact ⟨.deleteInvalid hid, .refl _ _⟩
  | true =>
      rw [deleteProject_eq hid, eval_call_iff] at heval
      obtain ⟨answer, t₁, hexec, hnext⟩ := heval
      cases hexec with
      | getItemFault _ hfault =>
          obtain ⟨rfl, rfl⟩ := eval_done_iff.mp hnext
          exact ⟨.deleteReadFault hid hfault, .refl _ _⟩
      | getItem =>
          -- the view decides whether there is anything to delete
          cases hview : (ownerView R t ownerId).project? id with
          | none =>
              rw [h.deleteRead_of_none hview, done_bind, eval_deleteResponse_iff] at hnext
              obtain ⟨rfl, rfl⟩ := hnext
              exact ⟨.deleteNone hid hview, .refl _ _⟩
          | some p =>
              rw [h.deleteRead_of_some hview, call_bind, eval_call_iff] at hnext
              obtain ⟨written, t₂, hwrite, hrest⟩ := hnext
              obtain ⟨e, he, rfl, rfl⟩ := ownerView_project?_eq_some_iff.mp hview
              obtain ⟨hwritten, hkeeps⟩ := h.exec_deleteOwned he hwrite
              rcases hwritten with rfl | ⟨fault, hfault, rfl⟩
              · -- the transaction was applied
                rw [ProjectRepository.deleteNext, done_bind, eval_deleteResponse_iff] at hrest
                obtain ⟨rfl, rfl⟩ := hrest
                exact ⟨.delete hid hview, hkeeps⟩
              · -- the request failed; its writes may have been applied
                rw [ProjectRepository.deleteNext, eval_bind_iff] at hrest
                obtain ⟨result, t₃, hresult, hend⟩ := hrest
                obtain ⟨rfl, rfl⟩ := eval_deleteError_iff.mp hresult
                obtain ⟨rfl, rfl⟩ := eval_deleteResponse_iff.mp hend
                exact ⟨.deleteFault hid hview hfault, hkeeps⟩

/-- Whatever the view of the caller allows can happen. -/
theorem Represents.exists_eval_deleteProject (h : Represents R t)
    (hends : OwnRequest.Ends svc ownerId (ownerView R t ownerId) (.delete id) ended) :
    ∃ t', Eval svc.Exec t (deleteProject id ownerId) ended t' := by
  cases hends with
  | deleteInvalid hid =>
      rw [deleteProject, hid]
      exact ⟨t, .done _ _⟩
  | deleteReadFault hid hfault =>
      rw [deleteProject_eq hid]
      exact ⟨t, .call (.getItemFault _ hfault) (.done _ _)⟩
  | deleteNone hid hview =>
      rw [deleteProject_eq hid]
      refine ⟨t, .call (.getItem _) ?_⟩
      rw [h.deleteRead_of_none hview]
      exact .done _ _
  | @deleteFault _ p fault hid hview hfault =>
      rw [deleteProject_eq hid]
      refine ⟨Service.afterFault fault t
        (transactWriteItems (deleteActions id p.name ownerId) t).2, .call (.getItem _) ?_⟩
      rw [h.deleteRead_of_some hview]
      refine .call (.transactFault _ hfault) ?_
      exact eval_bind_iff.mpr ⟨_, _, eval_deleteError_iff.mpr ⟨rfl, rfl⟩, .done _ _⟩
  | @delete _ p hid hview =>
      obtain ⟨e, he, rfl, rfl⟩ := ownerView_project?_eq_some_iff.mp hview
      obtain ⟨hanswer, -⟩ := h.delete id e.project.name e.project.ownerId
      rw [Projects.delete_of_owned_named ⟨e, he, rfl⟩ ⟨e, he, rfl⟩] at hanswer
      rw [deleteProject_eq hid]
      refine ⟨(transactWriteItems (deleteActions id e.project.name e.project.ownerId) t).2,
        .call (.getItem _) ?_⟩
      rw [h.deleteRead_of_some hview]
      refine .call (.of_transactWriteItems (Prod.ext hanswer rfl)) ?_
      change Eval svc.Exec _ (deleteResponse id (.ok ())) _ _
      exact eval_deleteResponse_iff.mpr ⟨rfl, rfl⟩

/-! ### Listing -/

/-- `list_projects` reads the view of the caller. -/
theorem eval_listProjects_iff {limit : Nat} {nextToken : Option String} :
    Eval svc.Exec t (listProjects ownerId limit nextToken) ended t' ↔
      t' = t ∧
        OwnRequest.Ends svc ownerId (ownerView R t ownerId) (.list limit nextToken) ended := by
  cases htoken : decodeNextToken nextToken ownerId with
  | error exn =>
      have hroute : listProjects ownerId limit nextToken = .done (.error exn) := by
        rw [listProjects, htoken]
        rfl
      rw [hroute, eval_done_iff]
      constructor
      · rintro ⟨rfl, rfl⟩
        exact ⟨rfl, .listInvalid htoken⟩
      · rintro ⟨rfl, hends⟩
        cases hends with
        | listInvalid htoken' =>
            rw [htoken] at htoken'
            obtain rfl := Except.error.inj htoken'
            exact ⟨rfl, rfl⟩
        | list htoken' =>
            rw [htoken] at htoken'
            cases htoken'
  | ok cursor =>
      rw [listProjects_eq htoken, eval_call_iff]
      constructor
      · rintro ⟨answer, t₁, hexec, hnext⟩
        cases hexec with
        | query _ hanswer =>
            obtain ⟨rfl, rfl⟩ := eval_listNext_iff.mp hnext
            exact ⟨rfl, .list htoken hanswer⟩
      · rintro ⟨rfl, hends⟩
        cases hends with
        | listInvalid htoken' =>
            rw [htoken] at htoken'
            cases htoken'
        | list htoken' hanswer =>
            rw [htoken] at htoken'
            obtain rfl := Except.ok.inj htoken'
            exact ⟨_, _, .query _ hanswer, eval_listNext_iff.mpr ⟨rfl, rfl⟩⟩

/-! ### All requests -/

variable {request : OwnRequest}

/-- A run of a route: its end is one that the view allows, and the items of others stay. -/
theorem Represents.eval_route (h : Represents R t)
    (heval : Eval svc.Exec t (request.route ownerId) ended t') :
    request.Ends svc ownerId (ownerView R t ownerId) ended ∧ KeepsOthers ownerId t t' := by
  cases request with
  | get id =>
      obtain ⟨rfl, hends⟩ := h.eval_getProject_iff.mp heval
      exact ⟨hends, .refl _ _⟩
  | delete id => exact h.eval_deleteProject heval
  | list limit nextToken =>
      obtain ⟨rfl, hends⟩ := (eval_listProjects_iff (R := R)).mp heval
      exact ⟨hends, .refl _ _⟩

/-- Every end that the view allows is the end of a run. -/
theorem Represents.exists_eval_route (h : Represents R t)
    (hends : request.Ends svc ownerId (ownerView R t ownerId) ended) :
    ∃ t', Eval svc.Exec t (request.route ownerId) ended t' := by
  cases request with
  | get id => exact ⟨t, h.eval_getProject_iff.mpr ⟨rfl, hends⟩⟩
  | delete id => exact h.exists_eval_deleteProject hends
  | list limit nextToken => exact ⟨t, (eval_listProjects_iff (R := R)).mpr ⟨rfl, hends⟩⟩

end Eval

section Ends

variable {svc : Service} {ownerId id : String} {view : OwnerView} {request : OwnRequest}
  {ended ended' : Except Exn HttpResponse}

omit [CaseTables] in
/-- An id that the view has no project for is not found. -/
theorem OwnRequest.Ends.not_found (hread : ∀ e, ¬ svc.readFault e)
    (hnone : view.project? id = none) (hrequest : request = .get id ∨ request = .delete id)
    (h : request.Ends svc ownerId view ended) : ended = .error (.projectNotFound id) := by
  rcases hrequest with rfl | rfl
  · cases h with
    | getInvalid | getNone => rfl
    | getFault _ hfault => exact absurd hfault (hread _)
    | get _ hsome => rw [hnone] at hsome; cases hsome
  · cases h with
    | deleteInvalid | deleteNone => rfl
    | deleteReadFault _ hfault => exact absurd hfault (hread _)
    | deleteFault _ hsome | delete _ hsome => rw [hnone] at hsome; cases hsome

omit [CaseTables] in
theorem OwnRequest.Ends.get_found (hsvc : svc.Faultless) {p : Project}
    (hid : isValidProjectId id = true) (hsome : view.project? id = some p)
    (h : OwnRequest.Ends svc ownerId view (.get id) ended) :
    ended = .ok { status := 200, body := .project p } := by
  cases h with
  | getInvalid hinvalid => simp [hid] at hinvalid
  | getNone _ hnone => rw [hnone] at hsome; cases hsome
  | getFault _ hfault => exact absurd hfault (hsvc.read _)
  | get _ hsome' => rw [Option.some.inj (hsome'.symm.trans hsome)]

omit [CaseTables] in
theorem OwnRequest.Ends.delete_found (hsvc : svc.Faultless) {p : Project}
    (hid : isValidProjectId id = true) (hsome : view.project? id = some p)
    (h : OwnRequest.Ends svc ownerId view (.delete id) ended) :
    ended = .ok { status := 204, body := .empty } := by
  cases h with
  | deleteInvalid hinvalid => simp [hid] at hinvalid
  | deleteNone _ hnone => rw [hnone] at hsome; cases hsome
  | deleteReadFault _ hfault => exact absurd hfault (hsvc.read _)
  | deleteFault _ _ hfault => exact absurd hfault (hsvc.transact _)
  | delete => rfl

omit [CaseTables] in
theorem OwnRequest.Ends.invalid (hid : isValidProjectId id = false)
    (hrequest : request = .get id ∨ request = .delete id)
    (h : request.Ends svc ownerId view ended) : ended = .error (.projectNotFound id) := by
  rcases hrequest with rfl | rfl
  · cases h with
    | getInvalid => rfl
    | getFault hvalid | getNone hvalid | get hvalid => simp [hid] at hvalid
  · cases h with
    | deleteInvalid => rfl
    | deleteReadFault hvalid | deleteNone hvalid | deleteFault hvalid | delete hvalid =>
        simp [hid] at hvalid

omit [CaseTables] in
/-- Without faults, and with queries that the items decide, a view allows one end. -/
theorem OwnRequest.Ends.unique (hsvc : svc.Faultless) (hquery : svc.Deterministic)
    (h : request.Ends svc ownerId view ended) (h' : request.Ends svc ownerId view ended') :
    ended = ended' := by
  cases request with
  | get id =>
      -- shape of the id, then the project in the view: each leaves one rule
      cases hid : isValidProjectId id with
      | false => rw [h.invalid hid (Or.inl rfl), h'.invalid hid (Or.inl rfl)]
      | true =>
          cases hview : view.project? id with
          | none =>
              rw [h.not_found hsvc.read hview (Or.inl rfl),
                h'.not_found hsvc.read hview (Or.inl rfl)]
          | some p => rw [h.get_found hsvc hid hview, h'.get_found hsvc hid hview]
  | delete id =>
      cases hid : isValidProjectId id with
      | false => rw [h.invalid hid (Or.inr rfl), h'.invalid hid (Or.inr rfl)]
      | true =>
          cases hview : view.project? id with
          | none =>
              rw [h.not_found hsvc.read hview (Or.inr rfl),
                h'.not_found hsvc.read hview (Or.inr rfl)]
          | some p => rw [h.delete_found hsvc hid hview, h'.delete_found hsvc hid hview]
  | list limit nextToken =>
      cases h with
      | listInvalid htoken =>
          cases h' with
          | listInvalid htoken' => exact congrArg _ (Except.error.inj (htoken.symm.trans htoken'))
          | list htoken' => cases htoken.symm.trans htoken'
      | list htoken hanswer =>
          cases h' with
          | listInvalid htoken' => cases htoken.symm.trans htoken'
          | list htoken' hanswer' =>
              obtain rfl := Except.ok.inj (htoken.symm.trans htoken')
              rw [hquery _ _ _ _ hanswer hanswer']

omit [CaseTables] in
/-- What a page shows was read from an item of the page. -/
theorem mem_of_mapM_toProject {items : List Item} {projects : List Project}
    (h : items.mapM toProject = .ok projects) {p : Project} (hp : p ∈ projects) :
    ∃ item ∈ items, toProject item = .ok p := by
  induction items generalizing projects with
  | nil =>
      obtain rfl := Except.ok.inj h
      cases hp
  | cons item items ih =>
      rw [List.mapM_cons] at h
      cases hitem : toProject item with
      | error exn => rw [hitem] at h; cases h
      | ok q =>
          cases hrest : items.mapM toProject with
          | error exn => rw [hitem, hrest] at h; cases h
          | ok rest =>
              rw [hitem, hrest] at h
              obtain rfl := Except.ok.inj h
              rcases List.mem_cons.mp hp with rfl | hmem
              · exact ⟨item, List.mem_cons_self, hitem⟩
              · obtain ⟨i, hi, hread⟩ := ih hrest hmem
                exact ⟨i, List.mem_cons_of_mem _ hi, hread⟩

omit [CaseTables] in
/-- The projects that `list_projects` answers with come from items of its query. -/
theorem listResponse_projects {cursor : Option CursorKey}
    {answer : Except ClientError QueryOutput} {r : HttpResponse}
    (h : listResponse cursor answer = .ok r) {p : Project} (hp : p ∈ r.projects) :
    ∃ output, answer = .ok output ∧ ∃ item ∈ output.items, toProject item = .ok p := by
  cases answer with
  | error e =>
      rw [listResponse] at h
      split at h <;> cases h
  | ok output =>
      rw [listResponse] at h
      cases hitems : output.items.mapM toProject with
      | error exn => rw [hitems] at h; cases h
      | ok projects =>
          rw [hitems] at h
          dsimp only at h
          split at h
          · cases h
          · obtain rfl := Except.ok.inj h
            exact ⟨output, rfl, mem_of_mapM_toProject hitems hp⟩

/-- Every project disclosed is the caller's. -/
theorem OwnRequest.Ends.owned {R : Projects} {t : Table} (hrep : Represents R t)
    (hsvc : svc.Partitioned) {r : HttpResponse}
    (h : request.Ends svc ownerId (ownerView R t ownerId) (.ok r)) :
    ∀ p ∈ r.projects, p.ownerId = ownerId := by
  intro p hp
  generalize hended : (.ok r : Except Exn HttpResponse) = ended at h
  cases h with
  | getInvalid | getFault | getNone | deleteInvalid | deleteReadFault | deleteNone | deleteFault
  | listInvalid => cases hended
  | delete =>
      obtain rfl := Except.ok.inj hended
      cases hp
  | get _ hsome =>
      obtain rfl := Except.ok.inj hended
      obtain rfl := List.mem_singleton.mp hp
      obtain ⟨e, -, -, howner⟩ := ownerView_project?_eq_some_iff.mp hsome
      exact howner
  | list _ hanswer =>
      obtain ⟨output, rfl, item, hitem, hread⟩ := listResponse_projects hended.symm hp
      obtain ⟨id, e, -, howner, rfl⟩ := hrep.mem_partition.mp (hsvc _ _ _ hanswer item hitem)
      rw [toProject_recordItem] at hread
      obtain rfl := Except.ok.inj hread
      exact howner

end Ends

/-! ## Two runs -/

/-- What a response to `ownerId` and the table `after` it show of the table `t`, compared with
a table `t'`: nothing that the owner's projects do not decide. -/
structure Isolated (svc : Service) (ownerId : String) (request : OwnRequest)
    (context context' : RequestContext) (t t' : Table) (r : HttpResponse) (after : Table) :
    Prop where
  /-- The other table can give the same response. -/
  possible : ∃ r' after', Eval svc.Exec t' (respond context' (request.route ownerId)) r' after' ∧
    r'.withoutRequestId = r.withoutRequestId
  /-- Without faults, and with queries that the items decide, it gives no other one. -/
  same : svc.Faultless → svc.Deterministic → ∀ r' after',
    Eval svc.Exec t' (respond context' (request.route ownerId)) r' after' →
    r'.withoutRequestId = r.withoutRequestId
  /-- An id under which the owner has no project is not found, be it another owner's or
  nobody's. -/
  unknown : ∀ id, (request = .get id ∨ request = .delete id) → (∀ e, ¬ svc.readFault e) →
    (∀ item, t.lookup (recordKey id) = some item →
      item.lookup "ownerId" ≠ some (.S ownerId)) →
    r = errorResponse context (.projectNotFound id)
  owned : ∀ p ∈ r.projects, p.ownerId = ownerId
  keeps : KeepsOthers ownerId t after

/-- The token is a cursor of this owner and of no other one. -/
structure TokenOf (ownerId token : String) (key : CursorKey) : Prop where
  document : ∃ json, (urlsafeB64decode (token.toList ++ padding token.length)).bind Json.loads =
    some json ∧ IsCursorDocument key json
  owner : key.gsi1pk = codePoints ("OWNER#" ++ ownerId)
  alone : ∀ ownerId' key', decodeCursor token ownerId' = .ok key' → ownerId' = ownerId

omit [CaseTables] [DatetimeParser] in
theorem tokenOf_of_decodeCursor {token ownerId : String} {key : CursorKey}
    (h : decodeCursor token ownerId = .ok key) : TokenOf ownerId token key := by
  obtain ⟨howner, json, hjson, hkey⟩ := decodeCursor_ok h
  exact ⟨⟨json, hjson, cursorKey?_document hkey⟩, howner,
    fun _ _ h' => decodeCursor_owner_unique h' h⟩

/-- An owner's request in a table that encodes a registry. -/
theorem Represents.isolated {svc : Service} {R R' : Projects} {t t' after : Table}
    {ownerId : String} {request : OwnRequest} {context context' : RequestContext}
    {r : HttpResponse} (hsvc : svc.Partitioned) (h : Represents R t) (h' : Represents R' t')
    (hagree : AgreeOn ownerId t t') (hpath : context.path = context'.path)
    (heval : Eval svc.Exec t (respond context (request.route ownerId)) r after) :
    Isolated svc ownerId request context context' t t' r after := by
  obtain ⟨ended, hroute, rfl⟩ := eval_respond_iff.mp heval
  obtain ⟨hends, hkeeps⟩ := h.eval_route hroute
  have hview := hagree.ownerView_eq h h'
  constructor
  · -- the view of the other table is the same, so the same end is possible there
    have hends' : request.Ends svc ownerId (ownerView R' t' ownerId) ended := hview ▸ hends
    obtain ⟨after', hroute'⟩ := h'.exists_eval_route hends'
    exact ⟨_, after', eval_respond_iff.mpr ⟨ended, hroute', rfl⟩,
      endResponse_withoutRequestId hpath.symm ended⟩
  · intro hfaultless hdeterministic r' after' heval'
    obtain ⟨ended', hroute', rfl⟩ := eval_respond_iff.mp heval'
    have hends' := (h'.eval_route hroute').1
    rw [← hview] at hends'
    rw [hends'.unique hfaultless hdeterministic hends]
    exact endResponse_withoutRequestId hpath.symm ended
  · intro id hrequest hread hother
    rw [hends.not_found hread (h.ownerView_eq_none hother) hrequest]
    rfl
  · intro p hp
    cases ended with
    | ok response => exact hends.owned h hsvc p hp
    | error exn =>
        have hnone : (errorResponse context exn).projects = [] := by cases exn <;> rfl
        rw [endResponse, hnone] at hp
        cases hp
  · exact hkeeps

/-- Owners are isolated.  In two reachable tables that agree on the projects of an owner, the
same request of the owner gets the same response up to the request id; it discloses projects
of the owner only and leaves the items of others alone; and a token accepted for the owner is
a cursor of this owner and of no other one. -/
theorem owners_isolated {svc svc₁ svc₂ : Service} (hsvc : svc.Partitioned)
    {tr₁ tr₂ : List SystemLabel} {w₁ w₂ : SystemWorld}
    (hrun₁ : SystemRun svc₁ (World.idle ∅) tr₁ w₁) (hrun₂ : SystemRun svc₂ (World.idle ∅) tr₂ w₂)
    {ownerId : String} (hagree : AgreeOn ownerId w₁.store w₂.store) :
    (∀ (request : OwnRequest) (context context' : RequestContext) (r : HttpResponse)
      (after : Table), context.path = context'.path →
      Eval svc.Exec w₁.store (respond context (request.route ownerId)) r after →
      Isolated svc ownerId request context context' w₁.store w₂.store r after) ∧
    ∀ token key, decodeCursor token ownerId = .ok key → TokenOf ownerId token key := by
  obtain ⟨R₁, hrep₁⟩ := hrun₁.represents
  obtain ⟨R₂, hrep₂⟩ := hrun₂.represents
  exact ⟨fun request context context' r after hpath heval =>
    hrep₁.isolated hsvc hrep₂ hagree hpath heval, fun token key => tokenOf_of_decodeCursor⟩

end Owners

/-! ## A sample -/

theorem Service.reference_partitioned (outcome : ProvisionRequest → ProvisionOutcome) :
    (Service.reference outcome).Partitioned := by
  intro items request output hanswer item hitem
  obtain rfl := Except.ok.inj hanswer
  exact (mem_queryItems.mp (List.mem_of_mem_take hitem)).1

section Instance

open scoped Sample

/-- Another owner's project and no project at all get the same answer, and no other one. -/
theorem rival_project_is_not_found :
    ∃ tr w r after, SystemRun (Service.reference stubProvision) (World.idle ∅) tr w ∧
      w.store.lookup (recordKey rivalProject.projectId) =
        some (recordItem { project := rivalProject }) ∧
      Eval (Service.reference stubProvision).Exec w.store
        (respond ⟨"/v1/projects/x", "request-1"⟩ (getProject rivalProject.projectId "key-1"))
        r after ∧
      r.status = 404 ∧
      (∃ r' after', Eval (Service.reference stubProvision).Exec ∅
        (respond ⟨"/v1/projects/x", "request-2"⟩ (getProject rivalProject.projectId "key-1"))
        r' after') ∧
      ∀ r' after', Eval (Service.reference stubProvision).Exec ∅
        (respond ⟨"/v1/projects/x", "request-2"⟩ (getProject rivalProject.projectId "key-1"))
        r' after' → r'.withoutRequestId = r.withoutRequestId := by
  obtain ⟨t, hrun, hrep⟩ := Represents.empty.run_create (Service.reference stubProvision)
    (p := rivalProject) (Registry.not_taken_empty _) rfl
  have hitem : t.lookup (recordKey rivalProject.projectId) =
      some (recordItem { project := rivalProject }) := by
    rw [hrep.record, Registry.find?_add, if_pos rfl]
    rfl
  -- the caller has no record in either table
  have hother : ∀ id item, t.lookup (recordKey id) = some item →
      item.lookup "ownerId" ≠ some (.S "key-1") := by
    intro id item hstored
    obtain ⟨e, he, rfl⟩ := hrep.record_eq_some.mp hstored
    rw [Registry.find?_add] at he
    split at he
    · obtain rfl := Option.some.inj he
      rw [recordItem_ownerId]
      decide
    · cases he
  have hagree : AgreeOn "key-1" t ∅ := by
    intro id item howner
    constructor
    · intro hstored
      exact absurd howner (hother id item hstored)
    · intro hstored
      cases hstored
  have hroute : Eval (Service.reference stubProvision).Exec t
      (getProject rivalProject.projectId "key-1")
      (.error (.projectNotFound rivalProject.projectId)) t :=
    hrep.eval_getProject_iff.mpr ⟨rfl, .getNone (isValidProjectId_new _ _ _ _ _)
      (hrep.ownerView_eq_none (hother _))⟩
  have heval := eval_respond_iff.mpr
    ⟨_, hroute, (rfl : endResponse ⟨"/v1/projects/x", "request-1"⟩ _ = _)⟩
  have hisolated := (owners_isolated (Service.reference_partitioned stubProvision) hrun
    (Run.nil : SystemRun (Service.reference stubProvision) (World.idle ∅) [] (World.idle ∅))
    hagree).1 (.get rivalProject.projectId) ⟨"/v1/projects/x", "request-1"⟩
      ⟨"/v1/projects/x", "request-2"⟩ _ _ rfl heval
  obtain ⟨r', after', heval', -⟩ := hisolated.possible
  exact ⟨_, _, _, _, hrun, hitem, heval, rfl, ⟨r', after', heval'⟩,
    hisolated.same (Service.reference_faultless stubProvision)
      (Service.reference_deterministic stubProvision)⟩

end Instance

end ProjectsApi
