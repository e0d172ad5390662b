import ProjectsApi.System.Listing

/-!
# Records read back

Two writers share the record item, `create` and the transitions, and one reader
decodes it.  In every reachable table each record is decoded, with the values passed
to `create` and the status and timestamp written last, by `get` and by the listing
alike.
-/

namespace ProjectsApi

open Foundation Dynamo Program

/-! ## What a history wrote -/

/-- The fields of a project that no transition touches agree. -/
structure SameIdentity (p₀ p : Project) : Prop where
  projectId : p.projectId = p₀.projectId
  name : p.name = p₀.name
  type : p.type = p₀.type
  ownerId : p.ownerId = p₀.ownerId
  createdAt : p.createdAt = p₀.createdAt

theorem SameIdentity.refl (p : Project) : SameIdentity p p := ⟨rfl, rfl, rfl, rfl, rfl⟩

theorem SameIdentity.move {p₀ : Project} {e : Entry} (h : SameIdentity p₀ e.project)
    (tr : Transition) (now : Datetime) : SameIdentity p₀ (tr.apply now e).project :=
  ⟨h.projectId, h.name, h.type, h.ownerId, h.createdAt⟩

section History

variable [CaseTables]

/-- The label is a write of the record `id` that took effect, and wrote this status and
timestamp. -/
inductive WroteRecord (svc : Service) (id : String) :
    SystemLabel → ProjectStatus → Datetime → Prop where
  | create {i : Nat} {c : Call} {p : Project} {answer : Except ClientError Unit}
      (hid : p.projectId = id)
      (htook : svc.TookEffect (.transactWriteItems (createActions p)) answer) :
      WroteRecord svc id (.exec i c (.transactWriteItems (createActions p)) answer)
        p.status p.updatedAt
  | transition {i : Nat} {c : Call} {tr : Transition} {now : Datetime}
      {answer : Except ClientError Unit}
      (htook : svc.TookEffect (.updateItem (tr.request id now)) answer) :
      WroteRecord svc id (.exec i c (.updateItem (tr.request id now)) answer) tr.target now

/-- The label reports a write of the record `id` as applied. -/
inductive ReportedWrite (id : String) : SystemLabel → Prop where
  | create {i : Nat} {c : Call} {p : Project} (hid : p.projectId = id) :
      ReportedWrite id (.exec i c (.transactWriteItems (createActions p)) (.ok ()))
  | transition {i : Nat} {c : Call} {tr : Transition} {now : Datetime} :
      ReportedWrite id (.exec i c (.updateItem (tr.request id now)) (.ok ()))

/-- The history last wrote this status and timestamp into the record `id`. -/
def LastWritten (svc : Service) (tr : List SystemLabel) (id : String) (status : ProjectStatus)
    (updatedAt : Datetime) : Prop :=
  ∃ before l after, tr = before ++ l :: after ∧ WroteRecord svc id l status updatedAt ∧
    ∀ l' ∈ after, ¬ ReportedWrite id l'

/-- The history has a `create` of the project that took effect. -/
def CreatedIn (svc : Service) (tr : List SystemLabel) (p : Project) : Prop :=
  ∃ i c answer, Label.exec i c (.transactWriteItems (createActions p)) answer ∈ tr ∧
    svc.TookEffect (.transactWriteItems (createActions p)) answer

variable {svc : Service} {tr : List SystemLabel} {id : String}

theorem LastWritten.snoc {status : ProjectStatus} {updatedAt : Datetime}
    (h : LastWritten svc tr id status updatedAt) {l : SystemLabel} (hl : ¬ ReportedWrite id l) :
    LastWritten svc (tr ++ [l]) id status updatedAt := by
  obtain ⟨before, l₀, after, rfl, hwrote, hafter⟩ := h
  refine ⟨before, l₀, after ++ [l], by simp, hwrote, fun l' hl' => ?_⟩
  rcases List.mem_append.mp hl' with hmem | hmem
  · exact hafter l' hmem
  · obtain rfl := List.mem_singleton.mp hmem
    exact hl

theorem WroteRecord.last {l : SystemLabel} {status : ProjectStatus} {updatedAt : Datetime}
    (h : WroteRecord svc id l status updatedAt) :
    LastWritten svc (tr ++ [l]) id status updatedAt :=
  ⟨tr, l, [], rfl, h, by simp⟩

theorem CreatedIn.append {p : Project} (h : CreatedIn svc tr p) (tr' : List SystemLabel) :
    CreatedIn svc (tr ++ tr') p := by
  obtain ⟨i, c, answer, hmem, htook⟩ := h
  exact ⟨i, c, answer, List.mem_append_left _ hmem, htook⟩

/-- The history explains an entry: it was created as such, and its status and timestamp
were written last. -/
structure Explains (svc : Service) (tr : List SystemLabel) (id : String) (p : Project) :
    Prop where
  created : ∃ p₀, CreatedIn svc tr p₀ ∧ SameIdentity p₀ p
  written : LastWritten svc tr id p.status p.updatedAt

theorem Explains.snoc {p : Project} (h : Explains svc tr id p) {l : SystemLabel}
    (hl : ¬ ReportedWrite id l) : Explains svc (tr ++ [l]) id p := by
  obtain ⟨⟨p₀, hcreated, heq⟩, hwritten⟩ := h
  exact ⟨⟨p₀, hcreated.append _, heq⟩, hwritten.snoc hl⟩

/-- One operation keeps every entry explained. -/
theorem Effect.explains {R R' : Projects} {i : Nat} {c : Call} {op : Op} {answer : op.Ans}
    (h : ∀ id e, R.find? id = some e → Explains svc tr id e.project)
    (heffect : Effect svc R op answer R') :
    ∀ id e, R'.find? id = some e →
      Explains svc (tr ++ [.exec i c op answer]) id e.project := by
  intro id e he
  cases heffect with
  | nothing hquiet =>
      refine (h id e he).snoc fun hwrite => hquiet ?_
      cases hwrite <;> rfl
  | added p hname hid htook =>
      rw [Registry.find?_add] at he
      split at he
      · rename_i hp
        obtain rfl := Option.some.inj he
        refine ⟨⟨p, ⟨i, c, _, List.mem_append_right _ (List.mem_singleton_self _), htook⟩, .refl p⟩,
          (WroteRecord.create hp.symm htook).last⟩
      · rename_i hne
        refine (h id e he).snoc fun hwrite => hne ?_
        generalize hactions : createActions p = actions at hwrite
        cases hwrite with
        | create hid => rw [projectId_of_createActions hactions, hid]
  | removed projectId name ownerId howned hnamed htook =>
      rw [Registry.find?_remove] at he
      split at he
      · cases he
      · refine (h id e he).snoc fun hwrite => ?_
        generalize hactions : deleteActions projectId name ownerId = actions at hwrite
        cases hwrite with
        | create hid => exact createActions_ne_deleteActions _ _ _ _ hactions.symm
  | moved tr' projectId now hstatus htook =>
      rw [Projects.find?_move] at he
      split at he
      · rename_i hp
        subst hp
        obtain ⟨e₀, he₀, rfl⟩ := Option.map_eq_some_iff.mp he
        obtain ⟨⟨p₀, hcreated, hsame⟩, -⟩ := h id e₀ he₀
        exact ⟨⟨p₀, hcreated.append _, hsame.move tr' now⟩, (WroteRecord.transition htook).last⟩
      · rename_i hne
        refine (h id e he).snoc fun hwrite => hne ?_
        generalize hrequest : tr'.request projectId now = request at hwrite
        cases hwrite with
        | transition => exact (projectId_of_request hrequest).symm

variable [DatetimeParser]

/-- In every reachable world the history explains every stored project. -/
theorem SystemRun.explains {w : SystemWorld} (hrun : SystemRun svc (World.idle ∅) tr w) :
    ∃ R, Represents R w.store ∧ ∀ id e, R.find? id = some e → Explains svc tr id e.project := by
  have hkeep : ∀ {tr : List SystemLabel} {R : Projects} (l : SystemLabel),
      (∀ id, ¬ ReportedWrite id l) →
      (∀ id e, R.find? id = some e → Explains svc tr id e.project) →
      ∀ id e, R.find? id = some e → Explains svc (tr ++ [l]) id e.project :=
    fun l hl h id e he => (h id e he).snoc (hl id)
  exact SystemRun.registry_invariant
    (I := fun tr R _ => ∀ id e, R.find? id = some e → Explains svc tr id e.project)
    (fun id e he => by cases he)
    (fun tr R w i c _ h _ => hkeep _ (fun id hwrite => by cases hwrite) h)
    (fun tr R w i c op next answer R' t' _ _ _ h _ hexec => hexec.effect.explains h)
    (fun tr R w i c r h _ => hkeep _ (fun id hwrite => by cases hwrite) h)
    (fun tr R w i c p h _ => hkeep _ (fun id hwrite => by cases hwrite) h) hrun

/-! ## The record format -/

/-- A record item that reads back as a project of the history. -/
structure ReadsBack (svc : Service) (tr : List SystemLabel) (id : String) (item : Item)
    (p : Project) : Prop where
  decoded : toProject item = .ok p
  projectId : p.projectId = id
  explained : Explains svc tr id p
  entity : item.lookup "entity" = some (.S "PROJECT")
  nameKey : item.lookup "nameKey" = some (.S (nameKey p.name))
  gsi1pk : item.lookup "GSI1PK" = some (.S (ownerGsi1pk p.ownerId))
  gsi1sk : item.lookup "GSI1SK" =
    some (.S ("PROJECT#" ++ p.createdAt.isoformat ++ "#" ++ p.projectId))

theorem readsBack_recordItem {e : Entry} (hid : e.project.projectId = id)
    (h : Explains svc tr id e.project) : ReadsBack svc tr id (recordItem e) e.project where
  decoded := toProject_recordItem e
  projectId := hid
  explained := h
  entity := recordItem_entity e
  nameKey := recordItem_nameKey e
  gsi1pk := recordItem_gsi1pk e
  gsi1sk := recordItem_gsi1sk e

/-! ## The two readers -/

/-- `get` and the listing read the record `id` as the project `p`. -/
structure ReadersAgree (svc : Service) (t : Table) (id : String) (p : Project) : Prop where
  /-- `get` returns it, unless the read fails. -/
  get : ∀ r t', Eval svc.Exec t (ProjectRepository.get id) r t' →
    r = .ok p ∨ ∃ e, svc.readFault e ∧ r = .error (.clientError e)
  /-- What a page has under the id is the same project. -/
  listed : ∀ ownerId limit cursor r t', 1 ≤ limit →
    Eval svc.Exec t (ProjectRepository.listByOwner ownerId limit cursor) r t' →
    ∃ page, r = .ok page ∧ ∀ q ∈ page.1, q.projectId = id → q = p
  /-- The first page of its owner has it, unless it comes after the page's last key. -/
  complete : ∀ limit r t', 1 ≤ limit →
    Eval svc.Exec t (ProjectRepository.listByOwner p.ownerId limit none) r t' →
    ∃ page, r = .ok page ∧ (p ∈ page.1 ∨ ∃ key, page.2 = some key ∧
      codePoints (gsi1sk p) < key.gsi1sk)

section Readers

variable {R : Projects} {t t' : Table} {e : Entry}

/-- `get` of a stored project, read errors included. -/
theorem Represents.eval_get_stored (h : Represents R t) (he : R.find? id = some e)
    {r : Except Exn Project} (heval : Eval svc.Exec t (ProjectRepository.get id) r t') :
    r = .ok e.project ∨ ∃ err, svc.readFault err ∧ r = .error (.clientError err) := by
  rw [ProjectRepository.get, perform_bind, eval_call_iff] at heval
  obtain ⟨answer, t₁, hexec, hnext⟩ := heval
  cases hexec with
  | getItem =>
      rw [h.record, he] at hnext
      simp only [Option.map_some, recordItem_ne_empty, if_false, toProject_recordItem] at hnext
      exact Or.inl (eval_done_iff.mp hnext).1
  | @getItemFault _ err hfault => exact Or.inr ⟨err, hfault, (eval_done_iff.mp hnext).1⟩

theorem Represents.readersAgree (h : Represents R t) (hpages : svc.Pages)
    (he : R.find? id = some e) : ReadersAgree svc t id e.project where
  get r t' heval := h.eval_get_stored he heval
  listed ownerId limit cursor r t' hlimit heval := by
    obtain ⟨-, entries, lastKey, rfl, -, hentries⟩ := h.eval_listByOwner hpages hlimit heval
    refine ⟨_, rfl, fun q hq hid => ?_⟩
    obtain ⟨e', he', rfl⟩ := List.mem_map.mp hq
    have hstored := (hentries e' he').1
    rw [hid, he] at hstored
    rw [Option.some.inj hstored]
  complete limit r t' hlimit heval := by
    obtain ⟨-, entries, lastKey, rfl, hpage, -⟩ := h.eval_listByOwner hpages hlimit heval
    have hcovers : (ProjectRepository.listRequest e.project.ownerId limit none).Covers
        (recordItem e) := fun start hstart => by cases hstart
    refine ⟨_, rfl, ?_⟩
    rcases hpage.mem_or_lt (h.mem_visible.mpr ⟨id, e, he, rfl, rfl⟩) hcovers with
      hmem | ⟨key, hkey, hlt⟩
    · obtain ⟨e', he', heq⟩ := List.mem_map.mp hmem
      exact Or.inl (List.mem_map.mpr ⟨e', he', project_eq_of_recordItem_eq heq⟩)
    · rw [indexPosition_recordItem] at hlt
      exact Or.inr ⟨key, hkey, hlt⟩

omit [DatetimeParser] in
/-- `create` run alone, if it returns, returns its project and stores it. -/
theorem Represents.eval_create_ok (h : Represents R t) {p q : Project}
    (heval : Eval svc.Exec t (ProjectRepository.create p) (.ok q) t') :
    q = p ∧ ∃ R', Represents R' t' ∧ R'.find? p.projectId = some { project := p } := by
  rw [ProjectRepository.create, perform_bind, eval_call_iff] at heval
  obtain ⟨answer, t₁, hexec, hnext⟩ := heval
  obtain ⟨hanswer, hrep⟩ := h.create p
  cases hexec with
  | transactWriteItems =>
      rw [hanswer] at hnext
      rcases R.create_cases p with ⟨hname, -, heq⟩ | ⟨reasons, heq⟩
      · rw [heq] at hnext hrep
        obtain ⟨hq, rfl⟩ := eval_done_iff.mp hnext
        exact ⟨Except.ok.inj hq, _, hrep, by rw [Registry.find?_add, if_pos rfl]⟩
      · rw [heq] at hnext
        cases (eval_done_iff.mp hnext).1
  | transactFault => cases (eval_done_iff.mp hnext).1

end Readers

/-- In every reachable table every record is read back as the project that `create`
wrote, with the status and timestamp written last, by both readers; and `get` right
after a `create` returns the created project. -/
theorem records_read_back {w : SystemWorld} (hpages : svc.Pages)
    (hrun : SystemRun svc (World.idle ∅) tr w) :
    (∀ id item, w.store.lookup (recordKey id) = some item →
      ∃ p, ReadsBack svc tr id item p ∧ ReadersAgree svc w.store id p) ∧
    ∀ p q t', Eval svc.Exec w.store (ProjectRepository.create p) (.ok q) t' →
      q = p ∧ ∀ r t'', Eval svc.Exec t' (ProjectRepository.get p.projectId) r t'' →
        r = .ok p ∨ ∃ e, svc.readFault e ∧ r = .error (.clientError e) := by
  obtain ⟨R, hrep, hexplains⟩ := hrun.explains
  constructor
  · intro id item hitem
    obtain ⟨e, he, rfl⟩ := hrep.record_eq_some.mp hitem
    exact ⟨e.project, readsBack_recordItem (Projects.projectId_eq he) (hexplains id e he),
      hrep.readersAgree hpages he⟩
  · intro p q t' hcreate
    obtain ⟨hq, R', hrep', hstored⟩ := hrep.eval_create_ok hcreate
    exact ⟨hq, fun r t'' hget => hrep'.eval_get_stored hstored hget⟩

end History

section Instance

open scoped Sample

/-- After a delete, a race for the freed name and a transition of the winner. -/
theorem records_read_back_after_race :
    ∃ tr w item p, SystemRun (Service.reference stubProvision) (World.idle ∅) tr w ∧
      Label.ret 0 (.delete earlierProject.projectId "key-2") (.ok Value.unit) ∈ tr ∧
        w.store.lookup (recordKey sampleProject.projectId) = some item ∧
          item.lookup "status" = some (.S "PROVISIONING") ∧
            ReadsBack (Service.reference stubProvision) tr sampleProject.projectId item p ∧
              ReadersAgree (Service.reference stubProvision) w.store sampleProject.projectId
                p := by
  obtain ⟨tr, t, hrun, hdeleted, hitem⟩ := exists_moved_run
  obtain ⟨p, hreads, hagree⟩ :=
    (records_read_back (Service.reference_pages stubProvision) hrun).1 _ _ hitem
  refine ⟨tr, _, _, p, hrun, hdeleted, hitem, ?_, hreads, hagree⟩
  rw [recordItem_status]
  rfl

end Instance

end ProjectsApi
