import ProjectsApi.Service.Query
import ProjectsApi.System.Histories
import ProjectsApi.System.Reachable

/-!
# The repository's methods run alone

Without faults and without other clients, on a table that encodes a registry, each
method of the repository has one result, read off the registry.
-/

namespace ProjectsApi

open Foundation Dynamo Program

/-! ## Errors of the transactions -/

namespace ProjectRepository

@[simp] theorem createError_nameTaken (name reason : String) :
    createError name (.transactionCanceled ["ConditionalCheckFailed", reason]) =
      .projectNameTaken name := by
  simp [createError, isTransactionCanceled, ClientError.transactionCanceled]

variable [CaseTables]

@[simp] theorem deleteError_notFound (projectId name reason : String) :
    deleteError projectId name (.transactionCanceled ["ConditionalCheckFailed", reason]) =
      .done (.error (.projectNotFound projectId)) := by
  simp [deleteError, isTransactionCanceled, ClientError.transactionCanceled]

/-! ## The methods step by step -/

/-- What `create` makes of the answer to its transaction. -/
def createValue (project : Project) : Except ClientError Unit → Except Exn Project
  | .ok () => .ok project
  | .error e => .error (createError project.name e)

theorem create_eq (project : Project) : create project =
    .call (.transactWriteItems (createActions project)) fun answer =>
      .done (createValue project answer) := by
  rw [create, perform_bind]
  congr 1
  funext answer
  cases answer <;> rfl

/-- What `delete` does with the answer to its transaction. -/
def deleteNext (projectId name : String) : Except ClientError Unit → Action (Except Exn Unit)
  | .ok () => .done (.ok ())
  | .error e => deleteError projectId name e

/-- What `delete` does with the project it has read. -/
def deleteRead (projectId ownerId : String) : Except Exn Project → Action (Except Exn Unit)
  | .error exn => .done (.error exn)
  | .ok project =>
      if project.ownerId ≠ ownerId then .done (.error (.projectNotFound projectId))
      else .call (.transactWriteItems (deleteActions projectId project.name ownerId))
        (deleteNext projectId project.name)

variable [DatetimeParser]

/-- What `get` makes of the answer of the table. -/
def getValue (projectId : String) : Except ClientError (Option Item) → Except Exn Project
  | .error e => .error (.clientError e)
  | .ok none => .error (.projectNotFound projectId)
  | .ok (some item) => if item = ∅ then .error (.projectNotFound projectId) else toProject item

omit [CaseTables] in
theorem get_eq (projectId : String) : get projectId =
    .call (.getItem (recordKey projectId)) fun answer => .done (getValue projectId answer) := by
  rw [get, perform_bind]
  congr 1
  funext answer
  rcases answer with e | _ | item
  · rfl
  · rfl
  · simp only [getValue]
    split <;> rfl

theorem delete_eq (projectId ownerId : String) : delete projectId ownerId =
    .call (.getItem (recordKey projectId)) fun answer =>
      deleteRead projectId ownerId (getValue projectId answer) := by
  rw [delete, get_eq, call_bind]
  congr 1

end ProjectRepository

section Alone

variable [CaseTables]

/-! ## Results on the registry -/

namespace Projects

/-- What `create` ends with, and the registry after it. -/
noncomputable def createResult (R : Projects) (p : Project) : Except Exn Project × Projects :=
  (ProjectRepository.createValue p (R.create p).1, (R.create p).2)

/-- What `get` ends with. -/
def getResult (R : Projects) (projectId : String) : Except Exn Project :=
  match R.find? projectId with
  | some e => .ok e.project
  | none => .error (.projectNotFound projectId)

open scoped Classical in
/-- What `delete` ends with, and the registry after it. -/
noncomputable def deleteResult (R : Projects) (projectId ownerId : String) :
    Except Exn Unit × Projects :=
  if R.OwnedBy projectId ownerId then (.ok (), R.remove projectId)
  else (.error (.projectNotFound projectId), R)

variable {R : Projects}

theorem create_of_taken {p : Project} (h : R.Taken (nameKey p.name)) :
    ∃ reason, R.create p =
      (.error (.transactionCanceled ["ConditionalCheckFailed", reason]), R) :=
  ⟨_, dif_pos h⟩

theorem create_of_free {p : Project} (hname : ¬ R.Taken (nameKey p.name))
    (hid : R.find? p.projectId = none) :
    R.create p = (.ok (), R.add { project := p } hname) := by
  rw [create, dif_neg hname, if_neg (by simp [hid])]

theorem createResult_of_taken {p : Project} (h : R.Taken (nameKey p.name)) :
    R.createResult p = (.error (.projectNameTaken p.name), R) := by
  obtain ⟨reason, hcreate⟩ := create_of_taken h
  simp [createResult, hcreate, ProjectRepository.createValue]

theorem createResult_of_free {p : Project} (hname : ¬ R.Taken (nameKey p.name))
    (hid : R.find? p.projectId = none) :
    R.createResult p = (.ok p, R.add { project := p } hname) := by
  rw [createResult, create_of_free hname hid]
  rfl

theorem delete_of_not_owned {projectId name ownerId : String}
    (h : ¬ R.OwnedBy projectId ownerId) :
    ∃ reason, R.delete projectId name ownerId =
      (.error (.transactionCanceled ["ConditionalCheckFailed", reason]), R) := by
  rw [delete, if_neg fun hboth => h hboth.1, if_neg h]
  exact ⟨_, rfl⟩

theorem delete_of_owned_named {projectId name ownerId : String}
    (howned : R.OwnedBy projectId ownerId) (hnamed : R.Named projectId name) :
    R.delete projectId name ownerId = (.ok (), R.remove projectId) := by
  rw [delete, if_pos ⟨howned, hnamed⟩]

end Projects

/-! ## Evaluation -/

section Eval

variable {svc : Service} {R : Projects} {t t' : Table}

/-- The transaction of `create`, without faults. -/
theorem Represents.exec_createValue (h : Represents R t) (hsvc : svc.Faultless) {p : Project}
    {answer : Except ClientError Unit}
    (hexec : svc.Exec t (.transactWriteItems (createActions p)) answer t') :
    ProjectRepository.createValue p answer = (R.createResult p).1 ∧
      Represents (R.createResult p).2 t' := by
  obtain ⟨hanswer, hrep⟩ := h.create p
  rw [← hsvc.exec_transactWriteItems hexec] at hanswer hrep
  exact ⟨congrArg _ hanswer, hrep⟩

/-- The transaction of `delete`, without faults, under the name of the project: the
branch that finds the reservation of another project is never taken. -/
theorem Represents.exec_deleteNext (h : Represents R t) (hsvc : svc.Faultless)
    {projectId ownerId name : String} {answer : Except ClientError Unit}
    (hnamed : R.OwnedBy projectId ownerId → R.Named projectId name)
    (hexec : svc.Exec t (.transactWriteItems (deleteActions projectId name ownerId))
      answer t') :
    ProjectRepository.deleteNext projectId name answer =
        .done (R.deleteResult projectId ownerId).1 ∧
      Represents (R.deleteResult projectId ownerId).2 t' := by
  obtain ⟨hanswer, hrep⟩ := h.delete projectId name ownerId
  rw [← hsvc.exec_transactWriteItems hexec] at hanswer hrep
  obtain rfl : answer = _ := hanswer
  unfold Projects.deleteResult
  by_cases howned : R.OwnedBy projectId ownerId
  · rw [Projects.delete_of_owned_named howned (hnamed howned)] at hrep ⊢
    rw [if_pos howned]
    exact ⟨rfl, hrep⟩
  · obtain ⟨reason, hdelete⟩ := Projects.delete_of_not_owned howned
    rw [hdelete] at hrep ⊢
    rw [if_neg howned]
    exact ⟨ProjectRepository.deleteError_notFound _ _ _, hrep⟩

variable [DatetimeParser]

/-- `get` reads the registry. -/
theorem Represents.getValue_eq (h : Represents R t) (projectId : String) :
    ProjectRepository.getValue projectId (.ok (t.lookup (recordKey projectId))) =
      R.getResult projectId := by
  rw [h.record, Projects.getResult]
  cases R.find? projectId with
  | none => rfl
  | some e => simp [ProjectRepository.getValue, recordItem_ne_empty, toProject_recordItem]

/-- The history of a `create` that runs alone and succeeds. -/
def createRun (p : Project) : List SystemLabel :=
  .invoke 0 (.create p) :: soloLabels 0 (.create p)
    [⟨.transactWriteItems (createActions p), .ok ()⟩] (.ok (.project p))

omit [DatetimeParser] in
@[simp] theorem createdIds_createRun (p : Project) : createdIds (createRun p) = [p.projectId] := by
  simp [createRun, soloLabels, createdIds, createdId]

omit [DatetimeParser] in
theorem callsIn_create {C : Call → Prop} {p : Project} (hp : C (.create p)) :
    CallsIn C (createRun p) :=
  CallsIn.cons hp ((noCalls_soloLabels _ _ _ _).callsIn C)

/-- A free name and a new id: what `create` does to the table. -/
theorem Represents.traced_create (h : Represents R t) (svc : Service) {p : Project}
    (hname : ¬ R.Taken (nameKey p.name)) (hid : R.find? p.projectId = none) :
    ∃ t', Traced svc.Exec t (Call.create p).body
        [⟨.transactWriteItems (createActions p), .ok ()⟩] (.ok (.project p)) t' ∧
      Represents (R.add { project := p } hname) t' := by
  obtain ⟨hanswer, hrep⟩ := h.create p
  rw [Projects.create_of_free hname hid] at hanswer hrep
  have hexec : svc.Exec t (.transactWriteItems (createActions p)) (.ok ())
      (transactWriteItems (createActions p) t).2 :=
    .of_transactWriteItems (Prod.ext hanswer rfl)
  exact ⟨_, .call hexec (.done _ _), hrep⟩

/-- A name that is taken. -/
theorem Represents.traced_create_taken (h : Represents R t) (svc : Service) {p : Project}
    (htaken : R.Taken (nameKey p.name)) :
    ∃ reason t', Traced svc.Exec t (Call.create p).body
        [⟨.transactWriteItems (createActions p),
          .error (.transactionCanceled ["ConditionalCheckFailed", reason])⟩]
        (.error (.projectNameTaken p.name)) t' ∧ Represents R t' := by
  obtain ⟨hanswer, hrep⟩ := h.create p
  obtain ⟨reason, hcreate⟩ := Projects.create_of_taken htaken
  rw [hcreate] at hanswer hrep
  have hexec : svc.Exec t (.transactWriteItems (createActions p))
      (.error (.transactionCanceled ["ConditionalCheckFailed", reason]))
      (transactWriteItems (createActions p) t).2 :=
    .of_transactWriteItems (Prod.ext hanswer rfl)
  exact ⟨reason, _, .call hexec (.done _ _), hrep⟩

/-- `create` run alone, as a run of the system. -/
theorem Represents.run_create (h : Represents R t) (svc : Service) {p : Project}
    (hname : ¬ R.Taken (nameKey p.name)) (hid : R.find? p.projectId = none) :
    ∃ t', SystemRun svc (World.idle t) (createRun p) (World.idle t') ∧
      Represents (R.add { project := p } hname) t' := by
  obtain ⟨t', htraced, hrep⟩ := h.traced_create svc hname hid
  exact ⟨t', Run.of_traced (M := system svc) (w := World.idle t) (c := .create p) 0 rfl htraced,
    hrep⟩

/-- The history of two clients that create one name at once: the second one is told that the
name is taken. -/
def raceRun (p q : Project) (reason : String) : List SystemLabel :=
  .invoke 1 (.create q) :: (createRun p ++ soloLabels 1 (.create q)
    [⟨.transactWriteItems (createActions q),
      .error (.transactionCanceled ["ConditionalCheckFailed", reason])⟩]
    (.error (.projectNameTaken q.name)))

omit [DatetimeParser] in
@[simp] theorem createdIds_raceRun (p q : Project) (reason : String) :
    createdIds (raceRun p q reason) = [q.projectId, p.projectId] := by
  simp [raceRun, createRun, soloLabels, createdIds, createdId]

omit [DatetimeParser] in
theorem callsIn_raceRun {C : Call → Prop} {p q : Project} (reason : String)
    (hp : C (.create p)) (hq : C (.create q)) : CallsIn C (raceRun p q reason) :=
  CallsIn.cons hq ((callsIn_create hp).append ((noCalls_soloLabels _ _ _ _).callsIn C))

/-- Two creates of one name in flight at once. -/
theorem Represents.run_race (h : Represents R t) (svc : Service) {p q : Project}
    (hname : ¬ R.Taken (nameKey p.name)) (hid : R.find? p.projectId = none)
    (hsame : nameKey q.name = nameKey p.name) :
    ∃ reason t', SystemRun svc (World.idle t) (raceRun p q reason) (World.idle t') ∧
      Represents (R.add { project := p } hname) t' := by
  obtain ⟨t₁, hfirst, hrep⟩ := h.traced_create svc hname hid
  have htaken : (R.add { project := p } hname : Projects).Taken (nameKey q.name) := by
    rw [hsame]
    exact Registry.taken_add _ _ _
  obtain ⟨reason, t₂, hsecond, hrep'⟩ := hrep.traced_create_taken svc htaken
  -- the second call is in flight while the first one runs
  let other : Option (Thread Op Op.Ans Call Result) := some ⟨.create q, (Call.create q).body⟩
  have hcreated : SystemRun svc ((World.idle t).setThread 1 other) (createRun p)
      ((World.idle t₁).setThread 1 other) :=
    Run.of_traced (M := system svc) (w := (World.idle t).setThread 1 other) (c := .create p) 0
      rfl hfirst
  have hrefused := Run.of_traced_thread (M := system svc) (i := 1) (c := .create q) hsecond
    (w := World.idle t₁) rfl rfl
  exact ⟨reason, t₂, Run.cons (.invoke (Call.create q) rfl) (hcreated.append hrefused), hrep'⟩

/-- The owner's `delete` run alone, as a run of the system. -/
theorem Represents.run_delete (h : Represents R t) (svc : Service) {id : String} {e : Entry}
    (he : R.find? id = some e) :
    ∃ tr t', SystemRun svc (World.idle t) (.invoke 0 (.delete id e.project.ownerId) :: tr)
        (World.idle t') ∧ NoCalls tr ∧
      Label.ret 0 (.delete id e.project.ownerId) (.ok Value.unit) ∈ tr ∧
        Represents (R.remove id) t' := by
  obtain ⟨hanswer, hrep⟩ := h.delete id e.project.name e.project.ownerId
  rw [Projects.delete_of_owned_named ⟨e, he, rfl⟩ ⟨e, he, rfl⟩] at hanswer hrep
  have hread : ProjectRepository.getValue id (.ok (t.lookup (recordKey id))) = .ok e.project := by
    rw [h.getValue_eq, Projects.getResult, he]
  have heval : Eval svc.Exec t (ProjectRepository.delete id e.project.ownerId) (.ok ())
      (transactWriteItems (deleteActions id e.project.name e.project.ownerId) t).2 := by
    rw [ProjectRepository.delete_eq]
    refine .call (.getItem (recordKey id)) ?_
    rw [hread, ProjectRepository.deleteRead, if_neg (not_not.mpr rfl)]
    exact .call (.of_transactWriteItems (Prod.ext hanswer rfl)) (.done _ _)
  obtain ⟨tr, hrun, hcalls, hret⟩ := Run.of_eval (M := system svc) (w := World.idle t)
    (c := .delete id e.project.ownerId) 0 rfl (eval_map_iff.mpr ⟨_, heval, rfl⟩)
  exact ⟨tr, _, hrun, hcalls, hret, hrep⟩

/-- A transition from the expected status run alone, as a run of the system. -/
theorem Represents.run_transition (h : Represents R t) (svc : Service) (move : Transition)
    {id : String} (hstatus : R.InStatus id move.expected) (now : Datetime) :
    ∃ tr t', SystemRun svc (World.idle t) (.invoke 0 (.transition move id) :: tr)
        (World.idle t') ∧ NoCalls tr ∧ Represents (R.move move id now) t' := by
  obtain ⟨hanswer, hrep⟩ := h.transition move id now
  rw [Projects.transition, if_pos hstatus] at hanswer hrep
  have hexec : svc.Exec t (.updateItem (move.request id now)) (.ok ())
      (updateItem (move.request id now) t).2 := .of_updateItem (Prod.ext hanswer rfl)
  have heval : Eval svc.Exec t (move.run id) (.ok true) (updateItem (move.request id now) t).2 :=
    .call (.now now) (.call hexec (.done _ _))
  obtain ⟨tr, hrun, hcalls, -⟩ := Run.of_eval (M := system svc) (w := World.idle t)
    (c := .transition move id) 0 rfl (eval_map_iff.mpr ⟨_, heval, rfl⟩)
  exact ⟨tr, _, hrun, hcalls, hrep⟩

/-- A delivery run alone, as a run of the system. -/
theorem run_delivery {record : StreamRecord} {r : Except Exn Unit}
    (heval : Eval svc.Exec t (recordHandler record) r t') :
    ∃ tr, SystemRun svc (World.idle t) (.invoke 0 (.recordHandler record) :: tr)
        (World.idle t') ∧ NoCalls tr ∧
      Label.ret 0 (.recordHandler record) (r.map fun _ => Value.unit) ∈ tr :=
  Run.of_eval (M := system svc) (w := World.idle t) (c := .recordHandler record) 0 rfl
    (eval_map_iff.mpr ⟨r, heval, rfl⟩)

end Eval

end Alone

/-! ## A sample -/

section Instance

open scoped Sample

theorem nameKey_sampleProject : nameKey sampleProject.name = "my app" := by decide +kernel

theorem nameKey_rivalProject : nameKey rivalProject.name = "my app" := by decide +kernel

theorem nameKey_earlierProject : nameKey earlierProject.name = "my app" := by decide +kernel

/-- A project is created and deleted, and then two clients race for its name. -/
theorem exists_contended_run :
    ∃ tr t R, SystemRun (Service.reference stubProvision) (World.idle ∅) tr (World.idle t) ∧
      Represents R t ∧ R.find? sampleProject.projectId = some { project := sampleProject } ∧
        Label.ret 0 (.delete earlierProject.projectId "key-2") (.ok Value.unit) ∈ tr ∧
          FreshIds tr ∧ ∀ C : Call → Prop, (∀ p, C (.create p)) →
            (∀ id ownerId, C (.delete id ownerId)) → CallsIn C tr := by
  obtain ⟨t₁, R₁, hcreate, hrep₁, hstored, hunused⟩ : ∃ t R,
      SystemRun (Service.reference stubProvision) (World.idle ∅) (createRun earlierProject)
        (World.idle t) ∧ Represents R t ∧
          R.find? earlierProject.projectId = some { project := earlierProject } ∧
            R.find? sampleProject.projectId = none := by
    obtain ⟨t, hrun, hrep⟩ := Represents.empty.run_create (Service.reference stubProvision)
      (p := earlierProject) (Registry.not_taken_empty _) rfl
    refine ⟨t, _, hrun, hrep, ?_, ?_⟩
    · rw [Registry.find?_add, if_pos rfl]
    · rw [Registry.find?_add, if_neg (by decide +kernel)]
      rfl
  obtain ⟨deleted, t₂, hdelete, hnocalls, hret, hrep₂⟩ :=
    hrep₁.run_delete (Service.reference stubProvision) hstored
  -- its name is free again, under whatever spelling
  have hremoved := Registry.not_taken_remove hstored
  rw [nameKey_earlierProject] at hremoved
  have hfree : ¬ (R₁.remove earlierProject.projectId).Taken (nameKey sampleProject.name) := by
    rw [nameKey_sampleProject]
    exact hremoved
  have hnew : (R₁.remove earlierProject.projectId).find? sampleProject.projectId = none := by
    rw [Registry.find?_remove, hunused, ite_self]
  obtain ⟨reason, t₃, hrace, hrep₃⟩ := hrep₂.run_race (Service.reference stubProvision)
    (p := sampleProject) (q := rivalProject) hfree hnew
    (nameKey_rivalProject.trans nameKey_sampleProject.symm)
  refine ⟨_, t₃, _, (hcreate.append hdelete).append hrace, hrep₃, ?_, ?_, ?_, ?_⟩
  · rw [Registry.find?_add, if_pos rfl]
  · exact List.mem_append_left _ (List.mem_append_right _ (List.mem_cons_of_mem _ hret))
  · have hids : createdIds deleted = [] := createdIds_of_noCalls hnocalls
    rw [FreshIds, createdIds_append, createdIds_append, createdIds_createRun, createdIds_raceRun]
    show ([earlierProject.projectId] ++ createdIds deleted ++ _).Nodup
    rw [hids]
    decide +kernel
  · intro C hcreates hdeletes
    refine ((CallsIn.cons (hcreates _) ?_).append (CallsIn.cons (hdeletes _ _) ?_)).append
      (callsIn_raceRun reason (hcreates _) (hcreates _))
    · exact (noCalls_soloLabels _ _ _ _).callsIn C
    · exact hnocalls.callsIn C

/-- Then the project of the winner is taken up for provisioning. -/
theorem exists_moved_run :
    ∃ tr t, SystemRun (Service.reference stubProvision) (World.idle ∅) tr (World.idle t) ∧
      Label.ret 0 (.delete earlierProject.projectId "key-2") (.ok Value.unit) ∈ tr ∧
        t.lookup (recordKey sampleProject.projectId) = some
          (recordItem (Transition.begin.apply sampleTime { project := sampleProject })) := by
  obtain ⟨tr, t, R, hrun, hrep, hstored, hdeleted, -, -⟩ := exists_contended_run
  obtain ⟨moved, t', hmove, -, hrep'⟩ := hrep.run_transition (Service.reference stubProvision)
    .begin ⟨_, hstored, rfl⟩ sampleTime
  refine ⟨_, t', hrun.append hmove, List.mem_append_left _ hdeleted, ?_⟩
  rw [hrep'.record, Projects.find?_move, if_pos rfl, hstored]
  rfl

end Instance

end ProjectsApi
