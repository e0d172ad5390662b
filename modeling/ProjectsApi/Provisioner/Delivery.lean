import ProjectsApi.Provisioner.Transition

/-!
# One delivery, run alone

What `record_handler` does with the INSERT record of a project when no other client
is at work and no request fails: a record in status CREATED is moved to PROVISIONING,
provisioned, and moved on with the outcome; any other table is left as it is.  The
table may be any table.
-/

namespace ProjectsApi

open Foundation Dynamo Program

/-! ## Stream records -/

/-- The project whose image this is, when the handler goes on to begin it. -/
def imageProject? (image : Item) : Option String :=
  match imageText image "projectId", imageText image "type" with
  | .ok projectId, .ok typeText =>
      if (ProjectType.ofValue? typeText).isSome then some projectId else none
  | _, _ => none

namespace StreamRecord

/-- The project the handler begins on this record. -/
def project? (record : StreamRecord) : Option String :=
  if record.eventName ≠ some "INSERT" then none
  else
    match record.newImage with
    | none => none
    | some image =>
        if image = ∅ then none
        else if image.lookup "entity" ≠ some (.S "PROJECT") then none
        else if image.lookup "status" ≠ some (.S ProjectStatus.created.value) then none
        else imageProject? image

/-- The image has the other attributes a provisioning request is made of. -/
def Complete (record : StreamRecord) : Prop :=
  ∃ image name ownerId, record.newImage = some image ∧
    imageText image "name" = .ok name ∧ imageText image "ownerId" = .ok ownerId

end StreamRecord

/-! ## The record of a new project -/

/-- What the stream delivers for a created project. -/
def insertRecord [CaseTables] (p : Project) : StreamRecord where
  eventName := some "INSERT"
  newImage := some (projectItem p)

/-- The request the handler makes for a project. -/
def Project.provisionRequest (p : Project) : ProvisionRequest where
  projectId := p.projectId
  name := p.name
  type := p.type
  ownerId := p.ownerId

/-- What the handler does with an outcome of `provision`. -/
def recordOutcome (request : ProvisionRequest) : ProvisionOutcome → Action (Except Exn Unit)
  | .result result => recordResult request result
  | .raised text => recordFailure request text

section InsertRecord

variable [CaseTables] (p : Project)

private theorem projectItem_ne_empty : projectItem p ≠ ∅ := by
  intro h
  have hpk : (projectItem p).lookup "PK" = some (.S (projectPk p.projectId)) := by
    simp [projectItem, Item.lookup_ofList, projectAttributes]
  simp [h] at hpk

private theorem projectItem_entity :
    (projectItem p).lookup "entity" = some (.S "PROJECT") := by
  simp [projectItem, Item.lookup_ofList, projectAttributes, List.lookup_cons]

private theorem projectItem_status :
    (projectItem p).lookup "status" = some (.S p.status.value) := by
  simp [projectItem, Item.lookup_ofList, projectAttributes, List.lookup_cons]

private theorem imageText_projectItem :
    imageText (projectItem p) "projectId" = .ok p.projectId ∧
      imageText (projectItem p) "type" = .ok p.type.value ∧
      imageText (projectItem p) "name" = .ok p.name ∧
      imageText (projectItem p) "ownerId" = .ok p.ownerId := by
  refine ⟨?_, ?_, ?_, ?_⟩ <;>
    simp [imageText, projectItem, Item.lookup_ofList, projectAttributes, List.lookup_cons,
      attributeText]

variable {p}

/-- The handler begins the project of an INSERT record. -/
theorem project?_insertRecord (hp : p.status = .created) :
    (insertRecord p).project? = some p.projectId := by
  obtain ⟨hid, htype, -, -⟩ := imageText_projectItem p
  simp [StreamRecord.project?, insertRecord, projectItem_ne_empty, projectItem_entity,
    projectItem_status, hp, imageProject?, hid, htype]

theorem complete_insertRecord : (insertRecord p).Complete := by
  obtain ⟨-, -, hname, howner⟩ := imageText_projectItem p
  exact ⟨_, _, _, rfl, hname, howner⟩

/-- The request of a project can be read off its item. -/
theorem provisionRequest_eq_of_projectItem_eq {p' : Project}
    (h : projectItem p = projectItem p') : p.provisionRequest = p'.provisionRequest := by
  obtain ⟨hid, htype, hname, howner⟩ := imageText_projectItem p
  obtain ⟨hid', htype', hname', howner'⟩ := imageText_projectItem p'
  rw [h] at hid htype hname howner
  rw [Project.provisionRequest, Project.provisionRequest,
    Except.ok.inj (hid.symm.trans hid'), Except.ok.inj (hname.symm.trans hname'),
    Except.ok.inj (howner.symm.trans howner'),
    ProjectType.value_injective (Except.ok.inj (htype.symm.trans htype'))]

/-- The handler on an INSERT record, with the image read. -/
theorem recordHandler_insertRecord (hp : p.status = .created) :
    recordHandler (insertRecord p) = (do
      match ← ProjectStatusStore.begin p.projectId with
      | .error exn => return .error exn
      | .ok false =>
          Action.log (alreadyHandledEntry p.projectId)
          return .ok ()
      | .ok true => recordOutcome p.provisionRequest (← Action.provision p.provisionRequest)) := by
  obtain ⟨hid, htype, hname, howner⟩ := imageText_projectItem p
  simp only [recordHandler, insertRecord, projectItem_ne_empty, projectItem_entity,
    projectItem_status, hp, handleProject, hid, htype, provisionProject, hname, howner,
    ne_eq, not_true_eq_false, if_false, ProjectType.ofValue?_value]
  congr 1
  funext moved
  rcases moved with exn | _ | _
  · rfl
  · rfl
  · change Program.call _ _ = Program.call _ _
    congr 1
    funext outcome
    cases outcome <;> rfl

end InsertRecord

/-! ## Transitions on tables -/

/-- The record under the id is in the status. -/
def InStatusAt (t : Table) (projectId : String) (status : ProjectStatus) : Prop :=
  ∃ item, t.lookup (recordKey projectId) = some item ∧
    item.lookup "status" = some (.S status.value)

/-- The record item after the transition. -/
def Transition.applyItem (tr : Transition) (projectId : String) (now : Datetime) (item : Item) :
    Item :=
  (tr.request projectId now).apply (some item)

theorem Transition.lookup_applyItem (tr : Transition) (projectId : String) (now : Datetime)
    (item : Item) (name : String) :
    (tr.applyItem projectId now item).lookup name =
      ((transitionSets tr.target tr.extra now).lookup name).or (item.lookup name) :=
  transitionRequest_apply _ _ _ _ _ tr.extraAttributes _ _

@[simp] theorem Transition.applyItem_status (tr : Transition) (projectId : String)
    (now : Datetime) (item : Item) :
    (tr.applyItem projectId now item).lookup "status" = some (.S tr.target.value) := by
  rw [tr.lookup_applyItem]
  rfl

/-- The update of a transition on a record in the expected status. -/
theorem updateItem_transition {t : Table} (tr : Transition) {projectId : String} {item : Item}
    (hitem : t.lookup (recordKey projectId) = some item)
    (hstatus : item.lookup "status" = some (.S tr.expected.value)) (now : Datetime) :
    updateItem (tr.request projectId now) t =
      (.ok (), t.insert (recordKey projectId) (tr.applyItem projectId now item)) := by
  have hholds : (tr.request projectId now).conditionHolds t = true :=
    (transitionRequest_conditionHolds _ _ _ _ _ _).mpr ⟨item, hitem, hstatus⟩
  have hkey : (tr.request projectId now).key = recordKey projectId := rfl
  rw [updateItem_of_holds (tr.wellFormed projectId now) hholds, hkey, hitem, Transition.applyItem]

theorem updateItem_transition_refused {t : Table} (tr : Transition) {projectId : String}
    (h : ¬ InStatusAt t projectId tr.expected) (now : Datetime) :
    updateItem (tr.request projectId now) t = (.error .conditionalCheckFailed, t) := by
  refine updateItem_of_not_holds (tr.wellFormed projectId now)
    (Bool.eq_false_iff.mpr fun htrue => ?_)
  exact h ((transitionRequest_conditionHolds _ _ _ _ _ _).mp htrue)

/-! ## Evaluation -/

section Eval

variable {svc : Service} {t t' : Table}

/-- A transition run alone on a record in the expected status. -/
theorem eval_transition (svc : Service) (tr : Transition) {projectId : String} {item : Item}
    (hitem : t.lookup (recordKey projectId) = some item)
    (hstatus : item.lookup "status" = some (.S tr.expected.value)) (now : Datetime) :
    Eval svc.Exec t (tr.run projectId) (.ok true)
      (t.insert (recordKey projectId) (tr.applyItem projectId now item)) :=
  .call (.now now)
    (.call (.of_updateItem (updateItem_transition tr hitem hstatus now)) (.done _ _))

theorem eval_transition_refused (svc : Service) (tr : Transition) {projectId : String}
    (h : ¬ InStatusAt t projectId tr.expected) (now : Datetime) :
    Eval svc.Exec t (tr.run projectId) (.ok false) t :=
  .call (.now now)
    (.call (.of_updateItem (updateItem_transition_refused tr h now)) (.done _ _))

/-- A transition run alone, without faults: it moves the record, or finds it in another
status or missing. -/
theorem eval_transition_cases (hsvc : svc.Faultless) {tr : Transition} {projectId : String}
    {r : Except Exn Bool} (heval : Eval svc.Exec t (tr.run projectId) r t') :
    (∃ item now, t.lookup (recordKey projectId) = some item ∧
      item.lookup "status" = some (.S tr.expected.value) ∧ r = .ok true ∧
      t' = t.insert (recordKey projectId) (tr.applyItem projectId now item)) ∨
    ¬ InStatusAt t projectId tr.expected ∧ r = .ok false ∧ t' = t := by
  obtain ⟨now, t₁, hnow, hrest⟩ := eval_call_iff.mp heval
  obtain rfl := Service.Exec.eq_of_not_writes id hnow
  obtain ⟨answer, t₂, hexec, hnext⟩ := eval_call_iff.mp hrest
  have hanswer : (answer, t₂) = updateItem (tr.request projectId now) t₁ :=
    hsvc.exec_updateItem hexec
  by_cases hstatus : InStatusAt t₁ projectId tr.expected
  · obtain ⟨item, hitem, hin⟩ := hstatus
    rw [updateItem_transition tr hitem hin now] at hanswer
    obtain ⟨rfl, rfl⟩ := Prod.mk.inj hanswer
    obtain ⟨rfl, rfl⟩ := eval_done_iff.mp hnext
    exact Or.inl ⟨item, now, hitem, hin, rfl, rfl⟩
  · rw [updateItem_transition_refused tr hstatus now] at hanswer
    obtain ⟨rfl, rfl⟩ := Prod.mk.inj hanswer
    obtain ⟨rfl, rfl⟩ := eval_done_iff.mp hnext
    exact Or.inr ⟨hstatus, rfl, rfl⟩

/-- The outcome of a project in status PROVISIONING is recorded. -/
theorem eval_recordOutcome (svc : Service) (request : ProvisionRequest) {item : Item}
    (hitem : t.lookup (recordKey request.projectId) = some item)
    (hstatus : item.lookup "status" = some (.S ProjectStatus.provisioning.value))
    (outcome : ProvisionOutcome) (now : Datetime) :
    Eval svc.Exec t (recordOutcome request outcome) (.ok ())
      (t.insert (recordKey request.projectId)
        (outcome.recording.applyItem request.projectId now item)) := by
  cases outcome with
  | result result =>
      have hmoved := eval_transition svc (.complete result) hitem hstatus now
      exact eval_bind_iff.mpr ⟨_, _, hmoved,
        .call (.addMetric _) (.call (.log _) (.done _ _))⟩
  | raised text =>
      have hmoved := eval_transition svc (.fail text) hitem hstatus now
      refine .call (.log _) (.call (.addMetric _) ?_)
      simp only [bind_done]
      exact eval_bind_iff.mpr ⟨_, _, hmoved, .done _ _⟩

/-- Recording an outcome alone, without faults, on a project in status PROVISIONING. -/
theorem eval_recordOutcome_cases (hsvc : svc.Faultless) (request : ProvisionRequest)
    {item : Item} (hitem : t.lookup (recordKey request.projectId) = some item)
    (hstatus : item.lookup "status" = some (.S ProjectStatus.provisioning.value))
    {outcome : ProvisionOutcome} {r : Except Exn Unit}
    (heval : Eval svc.Exec t (recordOutcome request outcome) r t') :
    r = .ok () ∧ ∃ now, t' = t.insert (recordKey request.projectId)
      (outcome.recording.applyItem request.projectId now item) := by
  -- the transition cannot be refused
  have hmoved : ∀ (tr : Transition) {moved : Except Exn Bool} {t₁ : Table},
      tr.expected = .provisioning → Eval svc.Exec t (tr.run request.projectId) moved t₁ →
      moved = .ok true ∧ ∃ now, t₁ = t.insert (recordKey request.projectId)
        (tr.applyItem request.projectId now item) := by
    intro tr moved t₁ htr hrun
    obtain ⟨item', now, hitem', -, rfl, rfl⟩ | ⟨hnot, -⟩ := eval_transition_cases hsvc hrun
    · rw [hitem] at hitem'
      obtain rfl := Option.some.inj hitem'
      exact ⟨rfl, now, rfl⟩
    · exact absurd ⟨item, hitem, htr ▸ hstatus⟩ hnot
  cases outcome with
  | result result =>
      obtain ⟨moved, t₁, hrun, hrest⟩ := eval_bind_iff.mp heval
      rw [Transition.run_complete] at hrun
      obtain ⟨rfl, now, rfl⟩ := hmoved (.complete result) rfl hrun
      obtain ⟨_, t₂, hmetric, hrest⟩ := eval_call_iff.mp hrest
      obtain rfl := Service.Exec.eq_of_not_writes id hmetric
      obtain ⟨_, t₃, hlog, hrest⟩ := eval_call_iff.mp hrest
      obtain rfl := Service.Exec.eq_of_not_writes id hlog
      obtain ⟨rfl, rfl⟩ := eval_done_iff.mp hrest
      exact ⟨rfl, now, rfl⟩
  | raised text =>
      obtain ⟨_, t₁, hlog, hrest⟩ := eval_call_iff.mp heval
      obtain rfl := Service.Exec.eq_of_not_writes id hlog
      obtain ⟨_, t₂, hmetric, hrest₂⟩ := eval_call_iff.mp hrest
      obtain rfl := Service.Exec.eq_of_not_writes id hmetric
      simp only [bind_done] at hrest₂
      obtain ⟨moved, t₃, hrun, hrest⟩ := eval_bind_iff.mp hrest₂
      rw [Transition.run_fail] at hrun
      obtain ⟨rfl, now, rfl⟩ := hmoved (.fail text) rfl hrun
      obtain ⟨rfl, rfl⟩ := eval_done_iff.mp hrest
      exact ⟨rfl, now, rfl⟩

variable [CaseTables] {p : Project}

/-- A delivery that finds the record in status CREATED takes it through to its outcome. -/
theorem eval_deliver (hp : p.status = .created) {item : Item}
    (hitem : t.lookup (recordKey p.projectId) = some item)
    (hstatus : item.lookup "status" = some (.S ProjectStatus.created.value))
    {outcome : ProvisionOutcome} (houtcome : svc.provision p.provisionRequest outcome)
    (now now' : Datetime) :
    Eval svc.Exec t (recordHandler (insertRecord p)) (.ok ())
      (t.insert (recordKey p.projectId) (outcome.recording.applyItem p.projectId now'
        (Transition.begin.applyItem p.projectId now item))) := by
  have hbegin := eval_transition svc .begin hitem hstatus now
  have hrecord := eval_recordOutcome svc p.provisionRequest
    (Finmap.lookup_insert t) (Transition.begin.applyItem_status p.projectId now item) outcome now'
  rw [recordHandler_insertRecord hp]
  refine eval_bind_iff.mpr ⟨_, _, hbegin, .call (.provision _ houtcome) ?_⟩
  rwa [show p.provisionRequest.projectId = p.projectId from rfl, Finmap.insert_insert] at hrecord

/-- A delivery that finds another status, or no record, does nothing. -/
theorem eval_deliver_skip (hp : p.status = .created)
    (h : ¬ InStatusAt t p.projectId .created) (now : Datetime) :
    Eval svc.Exec t (recordHandler (insertRecord p)) (.ok ()) t := by
  have hbegin := eval_transition_refused svc .begin h now
  rw [recordHandler_insertRecord hp]
  exact eval_bind_iff.mpr ⟨_, _, hbegin, .call (.log _) (.done _ _)⟩

/-- A delivery run alone, without faults, does one or the other. -/
theorem eval_deliver_cases (hsvc : svc.Faultless) (hp : p.status = .created)
    {r : Except Exn Unit} (heval : Eval svc.Exec t (recordHandler (insertRecord p)) r t') :
    r = .ok () ∧
      ((∃ item outcome now now', t.lookup (recordKey p.projectId) = some item ∧
        item.lookup "status" = some (.S ProjectStatus.created.value) ∧
        svc.provision p.provisionRequest outcome ∧
        t' = t.insert (recordKey p.projectId) (outcome.recording.applyItem p.projectId now'
          (Transition.begin.applyItem p.projectId now item))) ∨
      ¬ InStatusAt t p.projectId .created ∧ t' = t) := by
  rw [recordHandler_insertRecord hp, Transition.run_begin] at heval
  obtain ⟨moved, t₁, hbegin, hrest⟩ := eval_bind_iff.mp heval
  obtain ⟨item, now, hitem, hstatus, rfl, rfl⟩ | ⟨hnot, rfl, rfl⟩ :=
    eval_transition_cases hsvc hbegin
  · obtain ⟨outcome, t₂, hexec, hrest⟩ := eval_call_iff.mp hrest
    cases hexec with
    | provision _ houtcome =>
        obtain ⟨rfl, now', rfl⟩ := eval_recordOutcome_cases hsvc p.provisionRequest
          (Finmap.lookup_insert t) (Transition.begin.applyItem_status p.projectId now item) hrest
        refine ⟨rfl, Or.inl ⟨item, outcome, now, now', hitem, hstatus, houtcome, ?_⟩⟩
        exact Finmap.insert_insert _
  · obtain ⟨_, t₂, hlog, hend⟩ := eval_call_iff.mp hrest
    obtain rfl := Service.Exec.eq_of_not_writes id hlog
    obtain ⟨rfl, rfl⟩ := eval_done_iff.mp hend
    exact ⟨rfl, Or.inr ⟨hnot, rfl⟩⟩

end Eval

/-! ## Deliveries step by step -/

section Traced

variable [CaseTables] {svc : Service} {t : Table} {p : Project} {item : Item}

/-- What a delivery does up to the answer to `complete`. -/
def completeOps (p : Project) (result : ProvisionResult) (now : Datetime)
    (answer : Except ClientError Unit) : List ((op : Op) × op.Ans) :=
  [⟨.now, now⟩, ⟨.updateItem (Transition.begin.request p.projectId now), .ok ()⟩,
    ⟨.provision p.provisionRequest, .result result⟩, ⟨.now, now⟩,
    ⟨.updateItem ((Transition.complete result).request p.projectId now), answer⟩]

/-- What a delivery does that is refused by `begin`. -/
def refusedOps (p : Project) (now : Datetime) : List ((op : Op) × op.Ans) :=
  [⟨.now, now⟩, ⟨.updateItem (Transition.begin.request p.projectId now),
    .error .conditionalCheckFailed⟩, ⟨.log (alreadyHandledEntry p.projectId), ()⟩]

/-- A delivery whose `complete` fails without effect raises, and leaves the project
PROVISIONING. -/
theorem traced_complete_fails (hp : p.status = .created)
    (hitem : t.lookup (recordKey p.projectId) = some item)
    (hstatus : item.lookup "status" = some (.S ProjectStatus.created.value))
    {result : ProvisionResult} (houtcome : svc.provision p.provisionRequest (.result result))
    {fault : Fault} (hfault : svc.updateFault fault) (happlied : fault.applied = false)
    (hcode : fault.error.code ≠ "ConditionalCheckFailedException") (now : Datetime) :
    Traced svc.Exec t (recordHandler (insertRecord p))
      (completeOps p result now (.error fault.error)) (.error (.clientError fault.error))
      (t.insert (recordKey p.projectId) (Transition.begin.applyItem p.projectId now item)) := by
  let t₁ := t.insert (recordKey p.projectId) (Transition.begin.applyItem p.projectId now item)
  have hfailed : svc.Exec t₁ (.updateItem ((Transition.complete result).request p.projectId now))
      (.error fault.error) t₁ := by
    have hexec : svc.Exec t₁ (.updateItem ((Transition.complete result).request p.projectId now))
        (.error fault.error) (Service.afterFault fault t₁ _) := .updateFault _ hfault
    rwa [Service.afterFault, happlied] at hexec
  have hbegin : updateItem (Transition.begin.request p.projectId now) t = (.ok (), t₁) :=
    updateItem_transition .begin hitem hstatus now
  rw [recordHandler_insertRecord hp]
  refine .call (.now now) (.call (.of_updateItem hbegin)
    (.call (.provision _ houtcome) (.call (.now now) (.call hfailed ?_))))
  simp only [bind_done, hcode, if_false]
  exact .done _ _

/-- A delivery that finds the project in another status returns normally. -/
theorem traced_refused (hp : p.status = .created)
    (h : ¬ InStatusAt t p.projectId .created) (now : Datetime) :
    Traced svc.Exec t (recordHandler (insertRecord p)) (refusedOps p now) (.ok ()) t := by
  have hbegin : updateItem (Transition.begin.request p.projectId now) t =
      (.error .conditionalCheckFailed, t) := updateItem_transition_refused .begin h now
  rw [recordHandler_insertRecord hp]
  exact .call (.now now) (.call (.of_updateItem hbegin) (.call (.log _) (.done _ _)))

end Traced

end ProjectsApi
