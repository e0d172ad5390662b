import ProjectsApi.Provisioner.Delivery
import ProjectsApi.System.Calls

/-!
# The phases of a call

What matters of a call in flight to the projects' life: whether a `create` has yet
to write, and how far a record handler has come.  `Move` is the protocol that ties
the phase of a call to the operations it may perform next, and `Ends` says in which
phases it may return.  Every call keeps to it (`Call.follows`).
-/

namespace ProjectsApi

open Foundation Dynamo Program

/-! ## The protocol -/

/-- How far a call has come. -/
inductive Phase where
  /-- Nothing written; a record handler has not begun its project yet. -/
  | idle
  /-- A `create` before its transaction. -/
  | creating
  /-- `begin` found the project no longer CREATED. -/
  | refused
  /-- The update failed; the handler is about to raise. -/
  | raising
  /-- `begin` moved the project; `provision` has not been called. -/
  | claimed
  /-- `provision` has ended; its outcome is not recorded yet. -/
  | provisioned (outcome : ProvisionOutcome)
  /-- The outcome is recorded. -/
  | recorded
  /-- The project was no longer PROVISIONING when its outcome was to be recorded. -/
  | unrecorded
  deriving DecidableEq

namespace Phase

/-- The handler has begun its project and not recorded an outcome. -/
def Holding : Phase → Prop
  | claimed => True
  | provisioned _ => True
  | _ => False

/-- The phase of a handler after `begin` was answered. -/
def afterBegin : Except ClientError Unit → Phase
  | .ok () => claimed
  | .error e => if e.code = "ConditionalCheckFailedException" then refused else raising

/-- The phase of a handler after `complete` or `fail` was answered. -/
def afterRecording : Except ClientError Unit → Phase
  | .ok () => recorded
  | .error e => if e.code = "ConditionalCheckFailedException" then unrecorded else raising

theorem not_holding_afterRecording (answer : Except ClientError Unit) :
    ¬ (afterRecording answer).Holding := by
  cases answer with
  | ok => exact id
  | error e =>
      rw [afterRecording]
      split <;> exact id

theorem not_holding_afterBegin (e : ClientError) : ¬ (afterBegin (.error e)).Holding := by
  rw [afterBegin]
  split <;> exact id

end Phase

variable [CaseTables]

/-- The moves of a call between its phases. -/
inductive Move : Call → Protocol Op Op.Ans Phase where
  | quiet {c : Call} {q : Phase} {op : Op} (hop : Quiet op) : Move c q op fun _ => q
  | create {p : Project} (hp : p.status = .created) :
      Move (.create p) .creating (.transactWriteItems (createActions p)) fun _ => .idle
  | delete {projectId ownerId name : String} {q : Phase} :
      Move (.delete projectId ownerId) q
        (.transactWriteItems (deleteActions projectId name ownerId)) fun _ => q
  | begin {record : StreamRecord} {projectId : String} {now : Datetime}
      (hproject : record.project? = some projectId) :
      Move (.recordHandler record) .idle (.updateItem (Transition.begin.request projectId now))
        Phase.afterBegin
  | provision {record : StreamRecord} {request : ProvisionRequest}
      (hproject : record.project? = some request.projectId) :
      Move (.recordHandler record) .claimed (.provision request) Phase.provisioned
  | recording {record : StreamRecord} {projectId : String} {now : Datetime}
      (outcome : ProvisionOutcome) (hproject : record.project? = some projectId) :
      Move (.recordHandler record) (.provisioned outcome)
        (.updateItem (outcome.recording.request projectId now)) Phase.afterRecording
  | warn {record : StreamRecord} {projectId : String} {target : ProjectStatus}
      (hproject : record.project? = some projectId) :
      Move (.recordHandler record) .unrecorded (.log (notRecordedEntry target projectId))
        fun _ => .unrecorded

/-- The phases in which a call may return, and what it returns there. -/
def Ends : Call → Phase → Result → Prop
  | .recordHandler record, .idle, _ => record.project? = none
  | .recordHandler record, .claimed, _ => ¬ record.Complete
  | .recordHandler _, .provisioned _, _ => False
  | .recordHandler _, .raising, r => ∃ exn, r = .error exn
  | .recordHandler _, .creating, _ => False
  | .create _, .creating, _ => False
  | _, _, _ => True

/-- The phase a call starts in. -/
def Call.start : Call → Phase
  | .create _ => .creating
  | _ => .idle

/-- The calls a project's life is made of: creates of new projects, reads,
deletes, and record handlers. -/
def Call.Ordinary : Call → Prop
  | .create p => p.status = .created
  | .transition _ _ => False
  | _ => True

/-! ## The handler keeps to the protocol -/

section Handler

variable {record : StreamRecord} {projectId : String}

omit [CaseTables] in
/-- A transition of the store as a step of a protocol: the clock is read, the update
is a move, and its answer decides what is returned. -/
theorem follows_transition {Q : Type} {P : Protocol Op Op.Ans Q} {q : Q}
    {after : Except ClientError Unit → Q} {ends : Q → Except Exn Bool → Prop}
    (tr : Transition) (hquiet : P q .now fun _ => q)
    (hmove : ∀ now, P q (.updateItem (tr.request projectId now)) after)
    (hmoved : ends (after (.ok ())) (.ok true))
    (hrefused : ∀ e : ClientError, e.code = "ConditionalCheckFailedException" →
      ends (after (.error e)) (.ok false))
    (hfailed : ∀ e : ClientError, e.code ≠ "ConditionalCheckFailedException" →
      ends (after (.error e)) (.error (.clientError e))) :
    Follows P ends q (tr.run projectId) := by
  refine Follows.step _ hquiet fun now => Follows.step _ (hmove now) fun answer => ?_
  cases answer with
  | ok => exact hmoved
  | error e =>
      simp only [bind_done]
      split
      · exact hrefused e ‹_›
      · exact hfailed e ‹_›

theorem follows_recordResult {request : ProvisionRequest} {result : ProvisionResult}
    (hproject : record.project? = some request.projectId) :
    Follows (Move (.recordHandler record))
      (fun q r => Ends (.recordHandler record) q (r.map fun _ => Value.unit))
      (.provisioned (.result result)) (recordResult request result) := by
  refine Follows.bind (follows_transition (.complete result) (.quiet .now)
    (fun now => Move.recording (.result result) hproject) ?_ ?_ ?_)
  · exact Follows.step _ (.quiet (.addMetric _)) fun _ =>
      Follows.step _ (.quiet (.log (by simp [provisionedEntry]))) fun _ => trivial
  · intro e he
    rw [Phase.afterRecording, if_pos he]
    exact Follows.step _ (.warn hproject) fun _ => trivial
  · intro e he
    rw [Phase.afterRecording, if_neg he]
    exact ⟨_, rfl⟩

theorem follows_recordFailure {request : ProvisionRequest} {text : String}
    (hproject : record.project? = some request.projectId) :
    Follows (Move (.recordHandler record))
      (fun q r => Ends (.recordHandler record) q (r.map fun _ => Value.unit))
      (.provisioned (.raised text)) (recordFailure request text) := by
  refine Follows.step _ (.quiet (.log (by simp [provisioningFailedEntry]))) fun _ =>
    Follows.step _ (.quiet (.addMetric _)) fun _ => ?_
  simp only [bind_done]
  refine Follows.bind (follows_transition (.fail text) (.quiet .now)
    (fun now => Move.recording (.raised text) hproject) ?_ ?_ ?_)
  · trivial
  · intro e he
    rw [Phase.afterRecording, if_pos he]
    exact Follows.step _ (.warn hproject) fun _ => trivial
  · intro e he
    rw [Phase.afterRecording, if_neg he]
    exact ⟨_, rfl⟩

theorem follows_provisionProject {image : Item} {type : ProjectType}
    (himage : record.newImage = some image) (hproject : record.project? = some projectId) :
    Follows (Move (.recordHandler record))
      (fun q r => Ends (.recordHandler record) q (r.map fun _ => Value.unit))
      .claimed (provisionProject image projectId type) := by
  unfold provisionProject
  -- without a name or an owner the handler raises, and the record is not complete
  cases hname : imageText image "name" with
  | error exn =>
      rintro ⟨image', name, ownerId, himage', hname', -⟩
      obtain rfl := Option.some.inj (himage.symm.trans himage')
      rw [hname] at hname'
      cases hname'
  | ok name =>
      cases howner : imageText image "ownerId" with
      | error exn =>
          rintro ⟨image', name', ownerId, himage', -, howner'⟩
          obtain rfl := Option.some.inj (himage.symm.trans himage')
          rw [howner] at howner'
          cases howner'
      | ok ownerId =>
          refine Follows.step _ (.provision hproject) fun outcome => ?_
          cases outcome with
          | result result => exact follows_recordResult hproject
          | raised text => exact follows_recordFailure hproject

theorem follows_handleProject {image : Item} (himage : record.newImage = some image)
    (hproject : record.project? = imageProject? image) :
    Follows (Move (.recordHandler record))
      (fun q r => Ends (.recordHandler record) q (r.map fun _ => Value.unit))
      .idle (handleProject image) := by
  unfold handleProject
  unfold imageProject? at hproject
  -- an image that cannot be read fails the handler before it begins anything
  cases hid : imageText image "projectId" with
  | error exn =>
      rw [hid] at hproject
      exact hproject
  | ok projectId =>
      cases htype : imageText image "type" with
      | error exn =>
          rw [hid, htype] at hproject
          exact hproject
      | ok typeText =>
          rw [hid, htype] at hproject
          dsimp only at hproject ⊢
          cases hvalue : ProjectType.ofValue? typeText with
          | none =>
              rw [hvalue] at hproject
              exact hproject
          | some type =>
              rw [hvalue] at hproject
              have hbegin : record.project? = some projectId := hproject
              refine Follows.bind (follows_transition .begin (.quiet .now)
                (fun now => .begin hbegin) ?_ ?_ ?_)
              · exact follows_provisionProject himage hbegin
              -- the refusal of another delivery's project is logged and swallowed
              · intro e he
                rw [Phase.afterBegin, if_pos he]
                exact Follows.step _ (.quiet (.log (by simp [alreadyHandledEntry])))
                  fun _ => trivial
              · intro e he
                rw [Phase.afterBegin, if_neg he]
                exact ⟨_, rfl⟩

theorem follows_recordHandler :
    Follows (Move (.recordHandler record))
      (fun q r => Ends (.recordHandler record) q (r.map fun _ => Value.unit))
      .idle (recordHandler record) := by
  have hskip : ∀ fields, record.project? = none →
      Follows (Move (.recordHandler record))
        (fun q r => Ends (.recordHandler record) q (r.map fun _ => Value.unit)) .idle (do
          Action.log (skipEntry fields)
          return .ok () : Action (Except Exn Unit)) :=
    fun fields hnone => Follows.step _ (.quiet (.log (by simp [skipEntry]))) fun _ => hnone
  unfold recordHandler
  split
  · exact hskip _ (by simp [StreamRecord.project?, *])
  · rename_i hevent
    split
    · exact hskip _ (by simp [StreamRecord.project?, *])
    · rename_i image himage
      split
      · exact hskip _ (by simp [StreamRecord.project?, *])
      · split
        · exact hskip _ (by simp [StreamRecord.project?, *])
        · split
          · exact hskip _ (by simp [StreamRecord.project?, *])
          · exact follows_handleProject himage (by simp [StreamRecord.project?, *])

end Handler

/-! ## Every call keeps to the protocol -/

/-- A program of quiet operations stays in its phase. -/
theorem follows_of_allOps_quiet {α : Type} {c : Call} {ends : Phase → α → Prop} {q : Phase}
    {p : Action α} (hp : p.AllOps Quiet) (hends : ∀ r, ends q r) :
    Follows (Move c) ends q p :=
  (hp.mono fun _ => Move.quiet).follows hends

theorem follows_create {p : Project} (hp : p.status = .created) :
    Follows (Move (.create p)) (fun q _ => q = .idle) .creating (ProjectRepository.create p) := by
  refine Follows.step _ (.create hp) fun answer => ?_
  cases answer <;> rfl

variable [DatetimeParser]

theorem follows_delete (projectId ownerId : String) :
    Follows (Move (.delete projectId ownerId)) (fun _ _ => True) .idle
      (ProjectRepository.delete projectId ownerId) := by
  refine Follows.bind (follows_of_allOps_quiet (allOps_get projectId) fun result => ?_)
  cases result with
  | error exn => trivial
  | ok project =>
      dsimp only
      split
      · trivial
      · refine Follows.step _ .delete fun answer => ?_
        cases answer with
        | ok => trivial
        | error e =>
            simp only [bind_done, ProjectRepository.deleteError]
            split_ifs
            · trivial
            · exact Follows.step _ (.quiet (.log (by simp [ProjectRepository.mismatchEntry])))
                fun _ => trivial
            · trivial
            · trivial

/-- Every call of a project's life keeps to the protocol. -/
theorem Call.follows (c : Call) (hc : c.Ordinary) :
    Follows (Move c) (Ends c) c.start c.body := by
  cases c with
  | create p =>
      refine Follows.map ((follows_create hc).mono ?_)
      rintro q r rfl
      trivial
  | get projectId =>
      exact Follows.map (follows_of_allOps_quiet (allOps_get projectId) fun _ => trivial)
  | delete projectId ownerId =>
      exact Follows.map ((follows_delete projectId ownerId).mono fun _ _ _ => trivial)
  | listByOwner ownerId limit cursor =>
      exact Follows.map
        (follows_of_allOps_quiet (allOps_listByOwner ownerId limit cursor) fun _ => trivial)
  | walk ownerId limits =>
      exact Follows.map
        (follows_of_allOps_quiet (allOps_walkFrom ownerId limits none) fun _ => trivial)
  | transition tr projectId => exact hc.elim
  | recordHandler record => exact Follows.map follows_recordHandler

end ProjectsApi
