import ProjectsApi.Lifecycle.Model
import ProjectsApi.System.Histories

/-!
# The stages of one project

Of each project id a lifecycle is in one `Stage`, which says at once what the record
may hold, which call in flight is at work on the project, and which outcomes of
provisioning the history has.  A step leaves the stage of an id or advances it along
`Stage.Leads`, provided that created ids are fresh.
-/

namespace ProjectsApi

open Foundation Dynamo Program

/-! ## What a history says of an id -/

/-- The outcome of a call of `provision` for the id. -/
def outcome? (id : String) : SystemLabel → Option ProvisionOutcome
  | .exec _ _ (.provision request) outcome =>
      if request.projectId = id then some outcome else none
  | _ => none

/-- The outcomes of all calls of `provision` for the id, in order. -/
def outcomes (tr : List SystemLabel) (id : String) : List ProvisionOutcome :=
  tr.filterMap (outcome? id)

theorem outcomes_snoc (tr : List SystemLabel) (l : SystemLabel) (id : String) :
    outcomes (tr ++ [l]) id = outcomes tr id ++ (outcome? id l).toList := by
  rw [outcomes, List.filterMap_append]
  cases h : outcome? id l <;> simp [outcomes, h]

/-! ## What a call is doing to an id -/

/-- The phase of a call that is at work on the project: a `create` yet to write it, or
the handler that has begun it. -/
def roleIn (id : String) : Option (Call × Phase) → Option Phase
  | some (.create p, .creating) => if p.projectId = id then some .creating else none
  | some (.recordHandler record, .claimed) =>
      if record.project? = some id then some .claimed else none
  | some (.recordHandler record, .provisioned outcome) =>
      if record.project? = some id then some (.provisioned outcome) else none
  | _ => none

theorem roleIn_not_holding {id : String} {record : StreamRecord} {q : Phase}
    (hq : ¬ q.Holding) : roleIn id (some (.recordHandler record, q)) = none := by
  cases q with
  | claimed | provisioned => exact absurd trivial hq
  | _ => rfl

theorem roleIn_of_project_ne {id projectId : String} {record : StreamRecord} {q : Phase}
    (hproject : record.project? = some projectId) (hid : id ≠ projectId) :
    roleIn id (some (.recordHandler record, q)) = none := by
  have hne : projectId ≠ id := fun h => hid h.symm
  cases q <;> simp [roleIn, hproject, hne]

theorem roleIn_eq_some {id : String} {slot : Option (Call × Phase)} {q : Phase}
    (h : roleIn id slot = some q) :
    (∃ p, slot = some (.create p, .creating) ∧ p.projectId = id ∧ q = .creating) ∨
      ∃ record, slot = some (.recordHandler record, q) ∧ record.project? = some id ∧
        q.Holding := by
  unfold roleIn at h
  split at h
  · obtain ⟨hid, ⟨⟩⟩ := Option.ite_none_right_eq_some.mp h
    exact Or.inl ⟨_, rfl, hid, rfl⟩
  · obtain ⟨hid, ⟨⟩⟩ := Option.ite_none_right_eq_some.mp h
    exact Or.inr ⟨_, rfl, hid, trivial⟩
  · obtain ⟨hid, ⟨⟩⟩ := Option.ite_none_right_eq_some.mp h
    exact Or.inr ⟨_, rfl, hid, trivial⟩
  · cases h

/-! ## Stages -/

namespace Entry

/-- The provisioner has recorded nothing beside the status. -/
structure Untouched (e : Entry) (status : ProjectStatus) : Prop where
  status : e.project.status = status
  endpoint : e.endpoint = none
  failureReason : e.failureReason = none

/-- The provisioner has recorded the outcome. -/
structure Records (e : Entry) (outcome : ProvisionOutcome) : Prop where
  status : e.project.status = outcome.recording.target
  endpoint : e.endpoint = outcome.recording.endpoint
  failureReason : e.failureReason = outcome.recording.failureReason

/-- A begun project has its status changed only. -/
theorem Untouched.begin {e : Entry} {status : ProjectStatus} (h : e.Untouched status)
    (now : Datetime) : (Transition.begin.apply now e).Untouched .provisioning where
  status := rfl
  endpoint := h.endpoint
  failureReason := h.failureReason

theorem Untouched.recording {e : Entry} {status : ProjectStatus} (h : e.Untouched status)
    (outcome : ProvisionOutcome) (now : Datetime) :
    (outcome.recording.apply now e).Records outcome where
  status := rfl
  endpoint := by simp [Transition.apply, h.endpoint]
  failureReason := by simp [Transition.apply, h.failureReason]

end Entry

/-- How far the life of a project has come, whether or not it was deleted meanwhile. -/
inductive Stage where
  /-- Not created, or its creation was refused. -/
  | absent
  /-- Call `i` is about to write it. -/
  | pending (i : Nat)
  | fresh
  /-- Handler `i` has begun it. -/
  | claimed (i : Nat)
  /-- Handler `i` has called `provision`. -/
  | provisioned (i : Nat) (outcome : ProvisionOutcome)
  | finished (outcome : ProvisionOutcome)
  /-- Begun, and nobody is left to record an outcome. -/
  | lost (outcome : Option ProvisionOutcome)
  deriving DecidableEq

namespace Stage

/-- The call at work on the project. -/
def worker : Stage → Option (Nat × Phase)
  | pending i => some (i, .creating)
  | claimed i => some (i, .claimed)
  | provisioned i outcome => some (i, .provisioned outcome)
  | _ => none

/-- What slot `i` does in this stage. -/
def role (st : Stage) (i : Nat) : Option Phase :=
  st.worker.bind fun worker => if i = worker.1 then some worker.2 else none

/-- The outcomes of the project so far. -/
def outcomes : Stage → List ProvisionOutcome
  | provisioned _ outcome => [outcome]
  | finished outcome => [outcome]
  | lost outcome => outcome.toList
  | _ => []

/-- What the record may hold. -/
def Allows : Stage → Entry → Prop
  | absent, _ => False
  | pending _, _ => False
  | fresh, e => e.Untouched .created
  | claimed _, e => e.Untouched .provisioning
  | provisioned _ _, e => e.Untouched .provisioning
  | finished outcome, e => e.Records outcome
  | lost _, e => e.Untouched .provisioning

/-- The project has been written. -/
def Born : Stage → Prop
  | absent => False
  | pending _ => False
  | _ => True

/-- How stages follow each other. -/
inductive Leads : Stage → Stage → Prop where
  | stays (st : Stage) : Leads st st
  | requested (i : Nat) : Leads absent (pending i)
  | refused (i : Nat) : Leads (pending i) absent
  | created (i : Nat) : Leads (pending i) fresh
  | begun (i : Nat) : Leads fresh (claimed i)
  | begunUnnoticed : Leads fresh (lost none)
  | provision (i : Nat) (outcome : ProvisionOutcome) : Leads (claimed i) (provisioned i outcome)
  | recorded (i : Nat) (outcome : ProvisionOutcome) :
      Leads (provisioned i outcome) (finished outcome)
  | left (i : Nat) : Leads (claimed i) (lost none)
  | leftProvisioned (i : Nat) (outcome : ProvisionOutcome) :
      Leads (provisioned i outcome) (lost (some outcome))

theorem Leads.born {st st' : Stage} (h : Leads st st') (hborn : st.Born) : st'.Born := by
  cases h <;> first | exact hborn | trivial

/-- The roles in the next stage, when at most slot `i` works in this one. -/
theorem role_set {st st' : Stage} {i : Nat} {new : Option Phase}
    (hst : ∀ worker, st.worker = some worker → worker.1 = i)
    (hst' : st'.worker = new.map fun q => (i, q)) (j : Nat) :
    (if j = i then new else st.role j) = st'.role j :=
  heldBy_set hst hst' j

/-- Whoever has a role is the one at work. -/
theorem worker_of_role {st : Stage} {i : Nat} {q : Phase} (h : st.role i = some q) :
    ∀ worker, st.worker = some worker → worker.1 = i := by
  intro worker hworker
  rw [role, hworker, Option.bind_some] at h
  obtain ⟨hi, -⟩ := Option.ite_none_right_eq_some.mp h
  exact hi.symm

/-- Who works on a project determines its stage. -/
theorem eq_of_role_creating {st : Stage} {i : Nat} (h : st.role i = some .creating) :
    st = pending i := by
  cases st <;> simp_all [role, worker]

theorem eq_of_role_claimed {st : Stage} {i : Nat} (h : st.role i = some .claimed) :
    st = claimed i := by
  cases st <;> simp_all [role, worker]

theorem eq_of_role_provisioned {st : Stage} {i : Nat} {outcome : ProvisionOutcome}
    (h : st.role i = some (.provisioned outcome)) : st = provisioned i outcome := by
  cases st <;> simp_all [role, worker]

/-- A record in status CREATED is fresh. -/
theorem eq_fresh {st : Stage} {e : Entry} (h : st.Allows e)
    (hstatus : e.project.status = .created) : st = fresh := by
  cases st with
  | fresh => rfl
  | absent | pending => exact h.elim
  | claimed | provisioned | lost =>
      have hcontra := hstatus.symm.trans h.status
      cases hcontra
  | finished outcome =>
      have hcontra := hstatus.symm.trans h.status
      cases outcome <;> cases hcontra

end Stage

variable [CaseTables]

/-- The role of the call in slot `i` for an id. -/
def Lifecycle.role (s : Lifecycle) (id : String) (i : Nat) : Option Phase :=
  roleIn id (s.calls i)

/-- The roles after one slot was set. -/
theorem Lifecycle.role_setCall (s : Lifecycle) (id : String) (i j : Nat)
    (c : Option (Call × Phase)) :
    (s.setCall i c).role id j = if j = i then roleIn id c else s.role id j := by
  rw [Lifecycle.role, Lifecycle.setCall_calls]
  split <;> rfl

theorem Lifecycle.role_setCall_same {s : Lifecycle} {id : String} {i : Nat}
    {c : Option (Call × Phase)} (h : roleIn id c = s.role id i) (j : Nat) :
    (s.setCall i c).role id j = s.role id j := by
  rw [Lifecycle.role_setCall]
  split
  · subst j
    exact h
  · rfl

/-- The history and the lifecycle agree that the id is in the stage. -/
structure InStage (tr : List SystemLabel) (s : Lifecycle) (id : String) (st : Stage) : Prop where
  created : st ≠ .absent → id ∈ createdIds tr
  outcomes : outcomes tr id = st.outcomes
  entry : ∀ e, s.registry.find? id = some e → st.Allows e
  role : ∀ i, s.role id i = st.role i

namespace InStage

variable {tr : List SystemLabel} {s s' : Lifecycle} {id : String} {st : Stage} {l : SystemLabel}

theorem initial (id : String) : InStage [] Lifecycle.initial id .absent where
  created h := absurd rfl h
  outcomes := rfl
  entry e h := by cases h
  role i := rfl

/-- A step that leaves the record or deletes it, and all roles. -/
theorem stay (h : InStage tr s id st) (hl : outcome? id l = none)
    (hentry : ∀ e, s'.registry.find? id = some e → s.registry.find? id = some e)
    (hrole : ∀ i, s'.role id i = s.role id i) : InStage (tr ++ [l]) s' id st where
  created hst := mem_createdIds_append (h.created hst)
  outcomes := by rw [outcomes_snoc, hl, h.outcomes]; simp
  entry e he := h.entry e (hentry e he)
  role i := (hrole i).trans (h.role i)

/-- A stored project has been written. -/
theorem born (h : InStage tr s id st) {e : Entry} (he : s.registry.find? id = some e) :
    st.Born := by
  have hallows := h.entry e he
  cases st with
  | absent | pending => exact hallows.elim
  | _ => trivial

/-- A step that changes at most the role of slot `i`, where nobody else works. -/
theorem advance {st' : Stage} (h : InStage tr s id st) (i : Nat) (new : Option Phase)
    (hcreated : id ∈ createdIds (tr ++ [l]))
    (houtcomes : st.outcomes ++ (outcome? id l).toList = st'.outcomes)
    (hentry : ∀ e, s'.registry.find? id = some e → st'.Allows e)
    (hrole : ∀ j, s'.role id j = if j = i then new else s.role id j)
    (hst : ∀ worker, st.worker = some worker → worker.1 = i)
    (hst' : st'.worker = new.map fun q => (i, q)) : InStage (tr ++ [l]) s' id st' where
  created _ := hcreated
  outcomes := by rw [outcomes_snoc, h.outcomes, houtcomes]
  entry := hentry
  role j := by rw [hrole, h.role, Stage.role_set hst hst']

/-- The id of a project that some call is at work on was created. -/
theorem mem_createdIds (h : InStage tr s id st) (hst : st ≠ .absent) :
    id ∈ createdIds (tr ++ [l]) :=
  mem_createdIds_append (h.created hst)

end InStage

/-! ## One step -/

section Step

variable {svc : Service} {tr : List SystemLabel} {s s' : Lifecycle} {id : String} {st : Stage}
  {l : SystemLabel}

/-- A call that starts: a `create` of this id is the first of it. -/
theorem InStage.invoke (h : InStage tr s id st) {i : Nat} {c : Call} (hfree : s.calls i = none)
    (hfresh : FreshIds (tr ++ [.invoke i c])) :
    ∃ st', InStage (tr ++ [.invoke i c]) (s.setCall i (some (c, c.start))) id st' ∧
      st.Leads st' := by
  have hnone : s.role id i = none := by rw [Lifecycle.role, hfree]; rfl
  have hstay : roleIn id (some (c, c.start)) = none →
      ∃ st', InStage (tr ++ [.invoke i c]) (s.setCall i (some (c, c.start))) id st' ∧
        st.Leads st' := by
    intro hrole
    exact ⟨st, h.stay rfl (fun _ he => he)
      (Lifecycle.role_setCall_same (hrole.trans hnone.symm)), .stays st⟩
  cases c with
  | create p =>
      by_cases hid : p.projectId = id
      · subst hid
        -- a fresh id was not in use before
        have hst : st = .absent := by
          by_contra hne
          rw [FreshIds, createdIds_invoke_create, List.nodup_append] at hfresh
          exact hfresh.2.2 _ (h.created hne) _ (List.mem_singleton_self _) rfl
        subst hst
        refine ⟨.pending i, h.advance i (some .creating) ?_ rfl ?_ ?_ ?_ rfl,
          .requested i⟩
        · rw [createdIds_invoke_create]
          exact List.mem_append_right _ (List.mem_singleton_self _)
        · intro e he
          exact (h.entry e he).elim
        · intro j
          rw [Lifecycle.role_setCall]
          simp [roleIn, Call.start]
        · intro worker hworker
          cases hworker
      · exact hstay (by simp [roleIn, Call.start, hid])
  | recordHandler record => exact hstay rfl
  | get | delete | listByOwner | walk | transition => exact hstay rfl

/-- A `create` writes its own project or nothing. -/
theorem InStage.create (h : InStage tr s id st) {i : Nat} {p : Project}
    {answer : Except ClientError Unit} {R' : Projects} (hp : p.status = .created)
    (hcall : s.calls i = some (.create p, .creating))
    (hwrote : Wrote svc.transactFault s.registry (s.registry.create p) answer R') :
    ∃ st', InStage (tr ++ [.exec i (.create p) (.transactWriteItems (createActions p)) answer])
      ({ s with registry := R' }.setCall i (some (.create p, .idle))) id st' ∧ st.Leads st' := by
  by_cases hid : p.projectId = id
  · subst hid
    have hcreating : st.role i = some .creating := by
      refine (h.role i).symm.trans ?_
      simp [Lifecycle.role, hcall, roleIn]
    have hworker := Stage.worker_of_role hcreating
    obtain rfl := Stage.eq_of_role_creating hcreating
    have hrole : ∀ j, ({ s with registry := R' }.setCall i (some (.create p, .idle))).role
        p.projectId j = if j = i then none else s.role p.projectId j :=
      fun j => Lifecycle.role_setCall _ _ _ _ _
    obtain ⟨-, rfl⟩ | ⟨-, -, hname, rfl⟩ := hwrote.create_cases
    · -- refused or failed: the id is as if it had never been used
      refine ⟨.absent, ⟨fun hne => absurd rfl hne, ?_, fun e he => h.entry e he, ?_⟩, .refused i⟩
      · rw [outcomes_snoc, h.outcomes]
        rfl
      · intro j
        rw [hrole, h.role]
        exact Stage.role_set hworker rfl j
    -- the project is stored, and its creator is done with it
    · refine ⟨.fresh, h.advance i none (h.mem_createdIds (by simp)) rfl ?_ hrole hworker rfl,
        .created i⟩
      intro e he
      rw [Lifecycle.setCall_registry, Registry.find?_add, if_pos rfl] at he
      obtain rfl := Option.some.inj he
      exact ⟨hp, rfl, rfl⟩
  -- a project with another id
  · have hnone : s.role id i = none := by simp [Lifecycle.role, hcall, roleIn, hid]
    refine ⟨st, h.stay rfl ?_ ?_, .stays st⟩
    · intro e he
      obtain ⟨-, rfl⟩ | ⟨-, -, hname, rfl⟩ := hwrote.create_cases
      · exact he
      · rwa [Lifecycle.setCall_registry, Registry.find?_add, if_neg fun heq => hid heq.symm] at he
    · exact Lifecycle.role_setCall_same (s := { s with registry := R' }) hnone.symm

/-- A `delete` strikes a project or nothing. -/
theorem InStage.delete (h : InStage tr s id st) {i : Nat} {c : Call}
    {projectId name ownerId : String} {answer : Except ClientError Unit} {R' : Projects}
    (hwrote : Wrote svc.transactFault s.registry (s.registry.delete projectId name ownerId)
      answer R') :
    InStage (tr ++ [.exec i c (.transactWriteItems (deleteActions projectId name ownerId))
      answer]) { s with registry := R' } id st := by
  refine h.stay rfl ?_ fun _ => rfl
  intro e he
  obtain ⟨-, rfl⟩ | ⟨-, -, -, rfl⟩ := hwrote.delete_cases
  · exact he
  · rw [Registry.find?_remove] at he
    split at he
    · cases he
    · exact he

/-- `begin` claims a fresh project or does nothing. -/
theorem InStage.begin (h : InStage tr s id st) {i : Nat} {record : StreamRecord}
    {projectId : String} {now : Datetime} {answer : Except ClientError Unit} {R' : Projects}
    (hcall : s.calls i = some (.recordHandler record, .idle))
    (hproject : record.project? = some projectId)
    (hwrote : Wrote svc.updateFault s.registry (s.registry.transition .begin projectId now)
      answer R') :
    ∃ st', InStage (tr ++ [.exec i (.recordHandler record)
        (.updateItem (Transition.begin.request projectId now)) answer])
      ({ s with registry := R' }.setCall i
        (some (.recordHandler record, Phase.afterBegin answer))) id st' ∧ st.Leads st' := by
  have hnone : s.role id i = none := by rw [Lifecycle.role, hcall]; rfl
  have hset := Lifecycle.role_setCall { s with registry := R' } id i
  obtain ⟨hanswer, rfl⟩ | ⟨-, hstatus, rfl⟩ := hwrote.transition_cases
  · -- refused or failed: the handler does not hold the project
    obtain ⟨e, rfl⟩ : ∃ e, answer = .error e := by
      cases answer with
      | ok => exact absurd rfl hanswer
      | error e => exact ⟨e, rfl⟩
    refine ⟨st, h.stay rfl (fun _ he => he) ?_, .stays st⟩
    exact Lifecycle.role_setCall_same
      ((roleIn_not_holding (Phase.not_holding_afterBegin e)).trans hnone.symm)
  · by_cases hid : id = projectId
    · subst hid
      obtain ⟨e, he, hcreated⟩ := hstatus
      have hfresh := h.entry e he
      obtain rfl := Stage.eq_fresh hfresh hcreated
      have hentry : ∀ e', (s.registry.move .begin id now).find? id = some e' →
          e'.Untouched .provisioning := by
        intro e' he'
        rw [Projects.find?_move, if_pos rfl, he, Option.map_some] at he'
        obtain rfl := Option.some.inj he'
        exact hfresh.begin now
      -- a write whose answer is lost leaves the project to nobody
      cases answer with
      | ok =>
          refine ⟨.claimed i, h.advance i (some .claimed) (h.mem_createdIds (by simp)) rfl
            hentry (fun j => ?_) (fun worker hworker => by cases hworker) rfl, .begun i⟩
          rw [hset]
          simp [roleIn, Phase.afterBegin, hproject]
          rfl
      | error e =>
          refine ⟨.lost none, h.advance i none (h.mem_createdIds (by simp)) rfl
            hentry (fun j => ?_) (fun worker hworker => by cases hworker) rfl, .begunUnnoticed⟩
          rw [hset, roleIn_not_holding (Phase.not_holding_afterBegin e)]
          rfl
    -- the record names another project
    · refine ⟨st, h.stay rfl ?_ ?_, .stays st⟩
      · intro e he
        rwa [Lifecycle.setCall_registry, Projects.find?_move, if_neg hid] at he
      · exact Lifecycle.role_setCall_same
          ((roleIn_of_project_ne hproject hid).trans hnone.symm)

/-- A call of `provision` is made by the handler that holds the project. -/
theorem InStage.provision (h : InStage tr s id st) {i : Nat} {record : StreamRecord}
    {request : ProvisionRequest} {outcome : ProvisionOutcome}
    (hcall : s.calls i = some (.recordHandler record, .claimed))
    (hproject : record.project? = some request.projectId) :
    ∃ st', InStage (tr ++ [.exec i (.recordHandler record) (.provision request) outcome])
      (s.setCall i (some (.recordHandler record, .provisioned outcome))) id st' ∧
      st.Leads st' := by
  by_cases hid : id = request.projectId
  · subst hid
    have hclaimed : st.role i = some .claimed := by
      refine (h.role i).symm.trans ?_
      simp [Lifecycle.role, hcall, roleIn, hproject]
    have hworker := Stage.worker_of_role hclaimed
    obtain rfl := Stage.eq_of_role_claimed hclaimed
    -- the call adds the one outcome
    refine ⟨.provisioned i outcome, h.advance i (some (.provisioned outcome))
      (h.mem_createdIds (by simp)) ?_ h.entry (fun j => ?_) hworker rfl, .provision i outcome⟩
    · simp [outcome?, Stage.outcomes]
    · rw [Lifecycle.role_setCall]
      simp [roleIn, hproject]
  · refine ⟨st, h.stay ?_ (fun _ he => he) ?_, .stays st⟩
    · have hne : request.projectId ≠ id := fun heq => hid heq.symm
      simp [outcome?, hne]
    · have hnone : s.role id i = none := by
        rw [Lifecycle.role, hcall]
        exact roleIn_of_project_ne hproject hid
      exact Lifecycle.role_setCall_same
        ((roleIn_of_project_ne hproject hid).trans hnone.symm)

/-- The handler that holds a project records its outcome or loses it. -/
theorem InStage.recording (h : InStage tr s id st) {i : Nat} {record : StreamRecord}
    {projectId : String} {outcome : ProvisionOutcome} {now : Datetime}
    {answer : Except ClientError Unit} {R' : Projects}
    (hcall : s.calls i = some (.recordHandler record, .provisioned outcome))
    (hproject : record.project? = some projectId)
    (hwrote : Wrote svc.updateFault s.registry
      (s.registry.transition outcome.recording projectId now) answer R') :
    ∃ st', InStage (tr ++ [.exec i (.recordHandler record)
        (.updateItem (outcome.recording.request projectId now)) answer])
      ({ s with registry := R' }.setCall i
        (some (.recordHandler record, Phase.afterRecording answer))) id st' ∧ st.Leads st' := by
  have hquit : roleIn id (some (.recordHandler record, Phase.afterRecording answer)) = none :=
    roleIn_not_holding (Phase.not_holding_afterRecording answer)
  by_cases hid : id = projectId
  · subst hid
    have hprovisioned : st.role i = some (.provisioned outcome) := by
      refine (h.role i).symm.trans ?_
      simp [Lifecycle.role, hcall, roleIn, hproject]
    have hworker := Stage.worker_of_role hprovisioned
    obtain rfl := Stage.eq_of_role_provisioned hprovisioned
    have hrole : ∀ j, ({ s with registry := R' }.setCall i
        (some (.recordHandler record, Phase.afterRecording answer))).role id j =
        if j = i then none else s.role id j := by
      intro j
      rw [Lifecycle.role_setCall, hquit]
      rfl
    obtain ⟨-, rfl⟩ | ⟨-, -, rfl⟩ := hwrote.transition_cases
    -- the write was refused or failed, so the outcome is known to nobody any more
    · exact ⟨.lost (some outcome), h.advance i none (h.mem_createdIds (by simp)) rfl h.entry hrole
        hworker rfl, .leftProvisioned i outcome⟩
    · refine ⟨.finished outcome, h.advance i none (h.mem_createdIds (by simp)) rfl ?_ hrole
        hworker rfl, .recorded i outcome⟩
      intro e he
      rw [Lifecycle.setCall_registry, Projects.find?_move, if_pos rfl] at he
      obtain ⟨e₀, he₀, rfl⟩ := Option.map_eq_some_iff.mp he
      exact (h.entry e₀ he₀).recording outcome now
  · have hnone : s.role id i = none := by
      rw [Lifecycle.role, hcall]
      exact roleIn_of_project_ne hproject hid
    refine ⟨st, h.stay rfl ?_ ?_, .stays st⟩
    · intro e he
      obtain ⟨-, rfl⟩ | ⟨-, -, rfl⟩ := hwrote.transition_cases
      · exact he
      · rwa [Lifecycle.setCall_registry, Projects.find?_move, if_neg hid] at he
    · exact Lifecycle.role_setCall_same (hquit.trans hnone.symm)

/-- A call that goes leaves its project behind. -/
theorem InStage.leave (h : InStage tr s id st) (i : Nat) (hl : outcome? id l = none) :
    ∃ st', InStage (tr ++ [l]) (s.setCall i none) id st' ∧ st.Leads st' := by
  have hrole : ∀ j, (s.setCall i none).role id j = if j = i then none else s.role id j :=
    fun j => Lifecycle.role_setCall s id i j none
  have hout : st.outcomes ++ (outcome? id l).toList = st.outcomes := by simp [hl]
  cases hi : s.role id i with
  | none => exact ⟨st, h.stay hl (fun _ he => he) (Lifecycle.role_setCall_same hi.symm), .stays st⟩
  | some q =>
      have hq := (h.role i).symm.trans hi
      have hworker := Stage.worker_of_role hq
      -- only a call that holds the project changes its stage by going
      cases st with
      | absent | fresh | finished | lost => cases hq
      | pending k =>
          obtain rfl := hworker _ rfl
          refine ⟨.absent, ⟨fun hne => absurd rfl hne, ?_, h.entry, fun j => ?_⟩, .refused k⟩
          · rw [outcomes_snoc, h.outcomes, hout]
            rfl
          · rw [hrole, h.role]
            exact Stage.role_set hworker rfl j
      | claimed k =>
          obtain rfl := hworker _ rfl
          exact ⟨.lost none, h.advance k none (h.mem_createdIds (by simp)) hout h.entry hrole
            hworker rfl, .left k⟩
      | provisioned k outcome =>
          obtain rfl := hworker _ rfl
          exact ⟨.lost (some outcome), h.advance k none (h.mem_createdIds (by simp)) hout h.entry
            hrole hworker rfl, .leftProvisioned k outcome⟩

/-- One step leads each id from its stage to the next. -/
theorem InStage.step (h : InStage tr s id st) (hfresh : FreshIds (tr ++ [l]))
    (hstep : LifecycleStep svc s l s') :
    ∃ st', InStage (tr ++ [l]) s' id st' ∧ st.Leads st' := by
  cases hstep with
  | invoke c hfree => exact h.invoke hfree hfresh
  | quiet hcall hop =>
      refine ⟨st, h.stay ?_ (fun _ he => he) fun _ => rfl, .stays st⟩
      cases hop <;> rfl
  | create hp hcall hwrote => exact h.create hp hcall hwrote
  | delete hcall hwrote => exact ⟨st, h.delete hwrote, .stays st⟩
  | begin hcall hproject hwrote => exact h.begin hcall hproject hwrote
  | provision hcall hproject => exact h.provision hcall hproject
  | recording hcall hproject hwrote => exact h.recording hcall hproject hwrote
  | warn => exact ⟨st, h.stay rfl (fun _ he => he) fun _ => rfl, .stays st⟩
  | ret | abandon => exact h.leave _ rfl

end Step

/-! ## Runs -/

variable {svc : Service}

/-- Along a run a written project stays one, in some stage. -/
theorem LifecycleRun.inStage {tr tr' : List SystemLabel} {s s' : Lifecycle} {id : String}
    {st : Stage} (h : InStage tr s id st) (hrun : LifecycleRun svc s tr' s')
    (hfresh : FreshIds (tr ++ tr')) :
    ∃ st', InStage (tr ++ tr') s' id st' ∧ (st.Born → st'.Born) := by
  induction hrun with
  | nil => exact ⟨st, by rwa [List.append_nil], fun hborn => hborn⟩
  | snoc hrun hstep ih =>
      rw [← List.append_assoc] at hfresh ⊢
      obtain ⟨st₁, h₁, hborn₁⟩ := ih hfresh.of_append_left
      obtain ⟨st', h', hleads⟩ := h₁.step hfresh hstep
      exact ⟨st', h', fun hborn => hleads.born (hborn₁ hborn)⟩

/-- After a run from the start every id is in some stage. -/
theorem LifecycleRun.exists_inStage {tr : List SystemLabel} {s : Lifecycle}
    (hrun : LifecycleRun svc Lifecycle.initial tr s) (hfresh : FreshIds tr) (id : String) :
    ∃ st, InStage tr s id st := by
  obtain ⟨st, h, -⟩ := LifecycleRun.inStage (InStage.initial id) hrun hfresh
  exact ⟨st, h⟩

end ProjectsApi
