import ProjectsApi.Lifecycle.Truth

/-!
# Deliveries that return normally

A delivery that returns normally counts as processed and is not made again.  If no other
handler is at work on its project, the project should then be READY, FAILED or deleted.
This holds as long as the updates that record an outcome do not fail.  If the update
that records READY fails, the handler raises, and the delivery made in its place finds
the project PROVISIONING and returns normally.
-/

namespace ProjectsApi

open Foundation Dynamo Program

section Retries

variable [CaseTables]

/-! ## Projects that nobody will move -/

/-- The project is PROVISIONING and no handler is at work on it. -/
def Stuck (s : Lifecycle) (id : String) : Prop :=
  ∃ e, s.registry.find? id = some e ∧ e.project.status = .provisioning ∧
    ∀ i, s.role id i = none

/-- The handler has been told by `begin` whether the project was CREATED. -/
def Phase.Told : Phase → Prop
  | idle => False
  | creating => False
  | raising => False
  | _ => True

/-- An update that records this status for the project failed, and not because of its
condition. -/
def RecordingFailed (id : String) (target : ProjectStatus) (l : SystemLabel) : Prop :=
  ∃ i c tr now e, l = .exec i c (.updateItem (Transition.request tr id now)) (.error e) ∧
    tr.target = target ∧ e.code ≠ "ConditionalCheckFailedException"

omit [CaseTables] in
theorem not_recordingFailed_of_ne {id : String} {target : ProjectStatus} {l : SystemLabel}
    (hl : ∀ i c op answer, l ≠ .exec i c op answer) : ¬ RecordingFailed id target l := by
  intro hfailed
  obtain ⟨i, c, T, now, e, heq, -⟩ := hfailed
  exact hl _ _ _ _ heq

section Step

variable {svc : Service} {tr : List SystemLabel} {s s' : Lifecycle} {l : SystemLabel}
  {p : Project}

/-- A call in flight was started by the step or before. -/
theorem LifecycleStep.call_origin (hstep : LifecycleStep svc s l s') {i : Nat} {c : Call}
    {q' : Phase} (hcall : s'.calls i = some (c, q')) :
    l = .invoke i c ∨ ∃ q, s.calls i = some (c, q) := by
  cases hstep with
  | invoke d hfree =>
      rcases Lifecycle.setCall_origin hcall with ⟨rfl, hset⟩ | hold
      · obtain ⟨rfl, -⟩ := Prod.mk.inj (Option.some.inj hset)
        exact Or.inl rfl
      · exact Or.inr ⟨q', hold⟩
  | create _ hj | begin hj | provision hj | recording hj =>
      -- the slot keeps its call, in another phase
      rcases Lifecycle.setCall_origin hcall with ⟨rfl, hset⟩ | hold
      · obtain ⟨rfl, -⟩ := Prod.mk.inj (Option.some.inj hset)
        exact Or.inr ⟨_, hj⟩
      · exact Or.inr ⟨q', hold⟩
  | ret | abandon =>
      rcases Lifecycle.setCall_origin hcall with ⟨-, hset⟩ | hold
      · cases hset
      · exact Or.inr ⟨q', hold⟩
  | quiet | delete | warn => exact Or.inr ⟨q', hcall⟩

/-- What is known of the project between two steps of its deliveries. -/
structure Settling (tr : List SystemLabel) (s : Lifecycle) (p : Project) : Prop where
  /-- It has been written. -/
  born : ∃ st, InStage tr s p.projectId st ∧ st.Born
  /-- Somebody will move it. -/
  notStuck : ¬ Stuck s p.projectId
  /-- Only its own INSERT record is delivered. -/
  deliveries : ∀ i record q, s.calls i = some (.recordHandler record, q) →
    record.project? = some p.projectId → record = insertRecord p
  /-- It is not CREATED once a handler has been told so. -/
  told : ∀ i q, s.calls i = some (.recordHandler (insertRecord p), q) → q.Told →
    ∀ e, s.registry.find? p.projectId = some e → e.project.status ≠ .created

/-- The steps in question. -/
structure GoodStep (p : Project) (l : SystemLabel) : Prop where
  delivery : ∀ i record, l = .invoke i (.recordHandler record) →
    record.project? = some p.projectId → record = insertRecord p
  notAbandoned : ∀ i, l ≠ .abandon i (.recordHandler (insertRecord p))
  failedWritten : ¬ RecordingFailed p.projectId .failed l
  readyWritten : ¬ RecordingFailed p.projectId .ready l

theorem Settling.deliveries_step (h : Settling tr s p) (hl : GoodStep p l)
    (hstep : LifecycleStep svc s l s') {i : Nat} {record : StreamRecord} {q : Phase}
    (hcall : s'.calls i = some (.recordHandler record, q))
    (hproject : record.project? = some p.projectId) : record = insertRecord p := by
  rcases hstep.call_origin hcall with hinvoke | ⟨q₀, hold⟩
  · exact hl.delivery i record hinvoke hproject
  · exact h.deliveries i record q₀ hold hproject

/-- Only a handler of its INSERT record works on a project that is written already. -/
theorem Settling.handler_of_role (h : Settling tr s p) {i : Nat} {q : Phase}
    (hrole : s.role p.projectId i = some q) :
    s.calls i = some (.recordHandler (insertRecord p), q) ∧ q.Holding := by
  obtain ⟨p', hcall, hid, rfl⟩ | ⟨record, hcall, hproject, hq⟩ := roleIn_eq_some hrole
  · obtain ⟨st, hst, hborn⟩ := h.born
    rw [hst.role] at hrole
    rw [Stage.eq_of_role_creating hrole] at hborn
    exact hborn.elim
  · rw [h.deliveries i record q hcall hproject] at hcall
    exact ⟨hcall, hq⟩

/-- The project as it was, and its workers as they were. -/
theorem Stuck.before {id : String} (h : Stuck s' id)
    (hentry : s'.registry.find? id = s.registry.find? id)
    (hrole : ∀ i, s'.role id i = none → s.role id i = none) : Stuck s id := by
  obtain ⟨e, he, hstatus, hnobody⟩ := h
  exact ⟨e, hentry ▸ he, hstatus, fun i => hrole i (hnobody i)⟩

/-- An update that records an outcome does so, under the good steps, or finds the project
gone. -/
theorem recording_settles (hsvc : svc.Transient) {st : Stage}
    (hst : InStage tr s p.projectId st) (hl : GoodStep p l) {i : Nat} {record : StreamRecord}
    {outcome : ProvisionOutcome} {now : Datetime} {answer : Except ClientError Unit}
    {R' : Projects} (hcall : s.calls i = some (.recordHandler record, .provisioned outcome))
    (hproject : record.project? = some p.projectId)
    (hwrote : Wrote svc.updateFault s.registry
      (s.registry.transition outcome.recording p.projectId now) answer R')
    (hlabel : l = .exec i (.recordHandler record)
      (.updateItem (outcome.recording.request p.projectId now)) answer)
    {e : Entry} (he : R'.find? p.projectId = some e) : e.project.status ≠ .provisioning := by
  have hcases := hwrote.transition_cases
  obtain ⟨hquiet, hR'⟩ | ⟨-, -, hR'⟩ := hcases
  · -- not applied: either the project is gone, or the write failed
    cases answer with
    | ok => exact absurd rfl hquiet
    | error err =>
        by_cases hcode : err.code = "ConditionalCheckFailedException"
        · have hgone := hst.gone_of_refused hsvc hcall hproject hwrote (if_pos hcode)
          rw [hR', hgone] at he
          cases he
        · cases outcome with
          | result result =>
              exact absurd ⟨i, _, _, now, err, hlabel, rfl, hcode⟩ hl.readyWritten
          | raised text =>
              exact absurd ⟨i, _, _, now, err, hlabel, rfl, hcode⟩ hl.failedWritten
  · rw [hR', Projects.find?_move, if_pos rfl] at he
    obtain ⟨e₀, -, rfl⟩ := Option.map_eq_some_iff.mp he
    cases outcome <;> simp [ProvisionOutcome.recording, Transition.target]

/-- No good step leaves the project stuck. -/
theorem Settling.notStuck_step (h : Settling tr s p) (hsvc : svc.Transient) (hl : GoodStep p l)
    (hstep : LifecycleStep svc s l s') : ¬ Stuck s' p.projectId := by
  intro hstuck
  obtain ⟨st, hst, hborn⟩ := h.born
  -- a slot without a role keeps the others' roles
  have hset : ∀ {R : Projects} {i : Nat} {c : Option (Call × Phase)},
      s' = { s with registry := R }.setCall i c → s.role p.projectId i = none →
      R.find? p.projectId = s.registry.find? p.projectId → False := by
    intro R i c hs' hnone hfind
    refine h.notStuck (hstuck.before (by rw [hs']; exact hfind) fun j hj => ?_)
    by_cases hji : j = i
    · rwa [hji]
    · rwa [hs', Lifecycle.role_setCall, if_neg hji] at hj
  -- a call that leaves had no role
  have hleave : ∀ {i : Nat}, s' = s.setCall i none → s.role p.projectId i = none → False :=
    fun hs' hnone => hset (R := s.registry) hs' hnone rfl
  cases hstep with
  | invoke c hfree =>
      exact hset (R := s.registry) rfl (by rw [Lifecycle.role, hfree]; rfl) rfl
  | quiet | warn => exact h.notStuck hstuck
  | @create i q answer R' hq hcall hwrote =>
      by_cases hid : q.projectId = p.projectId
      · -- a project that is written already is not created
        have hrole : st.role i = some .creating := by
          rw [← hst.role, Lifecycle.role, hcall]
          simp [roleIn, hid]
        rw [Stage.eq_of_role_creating hrole] at hborn
        exact hborn
      · refine hset rfl (by simp [Lifecycle.role, hcall, roleIn, hid]) ?_
        obtain ⟨-, rfl⟩ | ⟨-, -, hname, rfl⟩ := hwrote.create_cases
        · rfl
        · rw [Registry.find?_add, if_neg fun heq => hid heq.symm]
  | delete hcall hwrote =>
      obtain ⟨e, he, hstatus, hnobody⟩ := hstuck
      refine h.notStuck ⟨e, ?_, hstatus, hnobody⟩
      obtain ⟨-, rfl⟩ | ⟨-, -, -, rfl⟩ := hwrote.delete_cases
      · exact he
      · rw [Registry.find?_remove] at he
        split at he
        · cases he
        · exact he
  | @begin i record projectId now answer R' hcall hproject hwrote =>
      have hnone : s.role p.projectId i = none := by rw [Lifecycle.role, hcall]; rfl
      obtain ⟨-, hR'⟩ | ⟨htook, -, hR'⟩ := hwrote.transition_cases
      · exact hset rfl hnone (by rw [hR'])
      · by_cases hid : p.projectId = projectId
        · -- the handler has been told, and holds the project
          obtain ⟨e, -, -, hnobody⟩ := hstuck
          have hrole := hnobody i
          rw [Lifecycle.role_setCall, if_pos rfl, hsvc.update_ok htook] at hrole
          simp [roleIn, Phase.afterBegin, hproject, hid] at hrole
        · exact hset rfl hnone (by rw [hR', Projects.find?_move, if_neg hid])
  | @provision i record request outcome hcall hproject =>
      by_cases hid : request.projectId = p.projectId
      · obtain ⟨e, -, -, hnobody⟩ := hstuck
        have hrole := hnobody i
        rw [Lifecycle.role_setCall, if_pos rfl] at hrole
        simp [roleIn, hproject, hid] at hrole
      · refine hset (R := s.registry) rfl ?_ rfl
        simp [Lifecycle.role, hcall, roleIn, hproject, hid]
  | @recording i record projectId outcome now answer R' hcall hproject hwrote =>
      by_cases hid : projectId = p.projectId
      · subst hid
        obtain ⟨e, he, hstatus, -⟩ := hstuck
        exact recording_settles hsvc hst hl hcall hproject hwrote rfl he hstatus
      · refine hset rfl ?_ ?_
        · simp [Lifecycle.role, hcall, roleIn, hproject, hid]
        · obtain ⟨-, rfl⟩ | ⟨-, -, rfl⟩ := hwrote.transition_cases
          · rfl
          · rw [Projects.find?_move, if_neg fun heq => hid heq.symm]
  | @ret i c q r hcall hends =>
      refine hleave rfl ?_
      by_contra hrole
      obtain ⟨q', hrole⟩ := Option.ne_none_iff_exists'.mp hrole
      obtain ⟨hcall', hq'⟩ := h.handler_of_role hrole
      obtain ⟨rfl, rfl⟩ := Prod.mk.inj (Option.some.inj (hcall.symm.trans hcall'))
      -- a handler does not return while it holds its project
      cases q with
      | claimed => exact hends complete_insertRecord
      | provisioned outcome => exact hends
      | _ => exact hq'
  | @abandon i c q hcall =>
      refine hleave rfl ?_
      by_contra hrole
      obtain ⟨q', hrole⟩ := Option.ne_none_iff_exists'.mp hrole
      obtain ⟨hcall', -⟩ := h.handler_of_role hrole
      obtain ⟨rfl, rfl⟩ := Prod.mk.inj (Option.some.inj (hcall.symm.trans hcall'))
      exact hl.notAbandoned i rfl

/-- A handler that has been told was told before, or is told by the answer of `begin`. -/
theorem LifecycleStep.told_origin (hstep : LifecycleStep svc s l s') {i : Nat}
    {record : StreamRecord} {q' : Phase} (hcall : s'.calls i = some (.recordHandler record, q'))
    (hq' : q'.Told) :
    (∃ q, s.calls i = some (.recordHandler record, q) ∧ q.Told) ∨
      ∃ projectId now answer, record.project? = some projectId ∧
        Wrote svc.updateFault s.registry (s.registry.transition .begin projectId now) answer
          s'.registry ∧ q' = Phase.afterBegin answer := by
  cases hstep with
  | invoke c hfree =>
      rcases Lifecycle.setCall_origin hcall with ⟨-, hset⟩ | hold
      · obtain ⟨rfl, rfl⟩ := Prod.mk.inj (Option.some.inj hset)
        exact hq'.elim
      · exact Or.inl ⟨q', hold, hq'⟩
  | begin hcall' hproject hwrote =>
      rcases Lifecycle.setCall_origin hcall with ⟨-, hset⟩ | hold
      · obtain ⟨hrecord, rfl⟩ := Prod.mk.inj (Option.some.inj hset)
        obtain rfl := Call.recordHandler.inj hrecord
        exact Or.inr ⟨_, _, _, hproject, hwrote, rfl⟩
      · exact Or.inl ⟨q', hold, hq'⟩
  | provision hcall' | recording hcall' =>
      -- the handler was in a later phase already
      rcases Lifecycle.setCall_origin hcall with ⟨rfl, hset⟩ | hold
      · obtain ⟨hrecord, -⟩ := Prod.mk.inj (Option.some.inj hset)
        refine Or.inl ⟨_, hrecord ▸ hcall', ?_⟩
        exact trivial
      · exact Or.inl ⟨q', hold, hq'⟩
  | create | ret | abandon =>
      rcases Lifecycle.setCall_origin hcall with ⟨-, hset⟩ | hold
      · cases hset
      · exact Or.inl ⟨q', hold, hq'⟩
  | quiet | delete | warn => exact Or.inl ⟨q', hcall, hq'⟩

/-- What a handler has been told stays true. -/
theorem Settling.told_step (h : Settling tr s p) (hsvc : svc.Transient)
    (hp : p.status = .created) (hstep : LifecycleStep svc s l s') {i : Nat} {q' : Phase}
    (hcall : s'.calls i = some (.recordHandler (insertRecord p), q')) (hq' : q'.Told)
    {e' : Entry} (he' : s'.registry.find? p.projectId = some e') :
    e'.project.status ≠ .created := by
  obtain ⟨st, hst, hborn⟩ := h.born
  -- a status that was not CREATED before the step is not CREATED after it
  have hkeep : (∀ e, s.registry.find? p.projectId = some e → e.project.status ≠ .created) →
      e'.project.status ≠ .created := by
    intro hbefore
    obtain ⟨e, he, hsame | hedge⟩ := hstep.status_of_born hst hborn he'
    · rw [hsame]
      exact hbefore e he
    · exact hedge.target_ne_created
  obtain ⟨q, hold, hq⟩ | ⟨projectId, now, answer, hproject, hwrote, rfl⟩ :=
    hstep.told_origin hcall hq'
  · exact hkeep (h.told i q hold hq)
  · obtain rfl := Option.some.inj ((project?_insertRecord hp).symm.trans hproject)
    cases answer with
    | ok =>
        obtain ⟨hquiet, -⟩ | ⟨-, -, hR'⟩ := hwrote.transition_cases
        · exact absurd rfl hquiet
        · rw [hR', Projects.find?_move, if_pos rfl] at he'
          obtain ⟨e, -, rfl⟩ := Option.map_eq_some_iff.mp he'
          simp [Transition.target]
    | error err =>
        by_cases hcode : err.code = "ConditionalCheckFailedException"
        · refine hkeep fun e he hcreated => hwrote.refused hsvc hcode ⟨e, he, hcreated⟩
        · rw [Phase.afterBegin, if_neg hcode] at hq'
          exact hq'.elim

/-- The rule for one step. -/
theorem Settling.step (h : Settling tr s p) (hsvc : svc.Transient) (hp : p.status = .created)
    (hfresh : FreshIds (tr ++ [l])) (hl : GoodStep p l) (hstep : LifecycleStep svc s l s') :
    Settling (tr ++ [l]) s' p where
  born := by
    obtain ⟨st, hst, hborn⟩ := h.born
    obtain ⟨st', hst', hleads⟩ := hst.step hfresh hstep
    exact ⟨st', hst', hleads.born hborn⟩
  notStuck := h.notStuck_step hsvc hl hstep
  deliveries _ _ _ hcall hproject := h.deliveries_step hl hstep hcall hproject
  told _ _ hcall hq _ he := h.told_step hsvc hp hstep hcall hq he

end Step

/-! ## Runs -/

section Runs

variable {svc : Service} {tr tr' : List SystemLabel} {s s' : Lifecycle} {p : Project}

/-- A call in flight was started by the run. -/
theorem LifecycleRun.invoked (hrun : LifecycleRun svc Lifecycle.initial tr s) {i : Nat}
    {c : Call} {q : Phase} (hcall : s.calls i = some (c, q)) : .invoke i c ∈ tr := by
  induction hrun generalizing q with
  | nil => cases hcall
  | snoc hrun hstep ih =>
      rcases hstep.call_origin hcall with hinvoke | ⟨q₀, hold⟩
      · rw [hinvoke]
        exact List.mem_append_right _ (List.mem_singleton_self _)
      · exact List.mem_append_left _ (ih hold)

/-- A project is settling from its creation on. -/
theorem Settling.initial (hrun : LifecycleRun svc Lifecycle.initial tr s) (hfresh : FreshIds tr)
    {e : Entry} (he : s.registry.find? p.projectId = some e)
    (hstatus : e.project.status = .created)
    (hnone : ∀ i record, .invoke i (.recordHandler record) ∈ tr →
      record.project? ≠ some p.projectId) (hp : p.status = .created) : Settling tr s p where
  born := by
    obtain ⟨st, hst⟩ := LifecycleRun.exists_inStage hrun hfresh p.projectId
    exact ⟨st, hst, hst.born he⟩
  notStuck := by
    intro hstuck
    obtain ⟨e', he', hstatus', -⟩ := hstuck
    rw [he] at he'
    obtain rfl := Option.some.inj he'
    rw [hstatus] at hstatus'
    cases hstatus'
  deliveries i record q hcall hproject :=
    absurd hproject (hnone i record (LifecycleRun.invoked hrun hcall))
  told i q hcall _ _ _ :=
    absurd (project?_insertRecord hp) (hnone i _ (LifecycleRun.invoked hrun hcall))

theorem Settling.run (h : Settling tr s p) (hsvc : svc.Transient) (hp : p.status = .created)
    (hrun : LifecycleRun svc s tr' s') (hfresh : FreshIds (tr ++ tr'))
    (hgood : ∀ l ∈ tr', GoodStep p l) : Settling (tr ++ tr') s' p := by
  induction hrun with
  | nil => rwa [List.append_nil]
  | snoc hrun hstep ih =>
      rw [← List.append_assoc] at hfresh ⊢
      have hbefore := ih hfresh.of_append_left fun l hl => hgood l (List.mem_append_left _ hl)
      exact hbefore.step hsvc hp hfresh
        (hgood _ (List.mem_append_right _ (List.mem_singleton_self _))) hstep

/-- A handler that returns normally has been told whether its project was CREATED. -/
theorem told_of_ends (hp : p.status = .created) {q : Phase} {value : Value}
    (hends : Ends (.recordHandler (insertRecord p)) q (.ok value)) : q.Told := by
  cases q with
  | idle =>
      rw [Ends, project?_insertRecord hp] at hends
      cases hends
  | creating => exact hends.elim
  | raising =>
      obtain ⟨exn, hexn⟩ := hends
      cases hexn
  | _ => trivial

end Runs

/-! ## The system -/

variable [DatetimeParser]

/-- A run in which a project is written and then delivered, any number of times.  Of the
failures of updates it leaves out those of the writes of FAILED. -/
structure Deliveries (svc : Service) (p : Project) (tr : List SystemLabel) (w : SystemWorld)
    (tr' : List SystemLabel) (w' : SystemWorld) : Prop where
  transient : svc.Transient
  /-- The run up to the moment the project is written. -/
  before : SystemRun svc (World.idle ∅) tr w
  new : p.status = .created
  written : w.store.lookup (recordKey p.projectId) = some (projectItem p)
  undelivered : ∀ i record, .invoke i (.recordHandler record) ∈ tr →
    record.project? ≠ some p.projectId
  /-- The run since. -/
  since : SystemRun svc w tr' w'
  delivered : ∀ i record, .invoke i (.recordHandler record) ∈ tr' →
    record.project? = some p.projectId → record = insertRecord p
  notAbandoned : ∀ i, .abandon i (.recordHandler (insertRecord p)) ∉ tr'
  failedWritten : ∀ l ∈ tr', ¬ RecordingFailed p.projectId .failed l
  ordinary : CallsIn Call.Ordinary (tr ++ tr')
  fresh : FreshIds (tr ++ tr')

/-- Every delivery of the project that raised is made again. -/
def Redelivered (p : Project) (tr : List SystemLabel) : Prop :=
  ∀ before i exn after,
    tr = before ++ .ret i (.recordHandler (insertRecord p)) (.error exn) :: after →
      ∃ j, .invoke j (.recordHandler (insertRecord p)) ∈ after

omit [DatetimeParser] in
/-- Deliveries that raised are made again by a later delivery that does not raise. -/
theorem redelivered_append {p : Project} {tr tr' : List SystemLabel} {i : Nat}
    (hinvoke : .invoke i (.recordHandler (insertRecord p)) ∈ tr')
    (hreturns : ∀ j exn, .ret j (.recordHandler (insertRecord p)) (.error exn) ∉ tr') :
    Redelivered p (tr ++ tr') := by
  intro before j exn after heq
  obtain ⟨between, -, htr'⟩ | ⟨between, -, hafter⟩ := List.append_eq_append_iff.mp heq
  · exact absurd (by simp [htr']) (hreturns j exn)
  · cases between with
    | nil =>
        rw [List.nil_append] at hafter
        exact absurd (hafter ▸ List.mem_cons_self ..) (hreturns j exn)
    | cons l between =>
        obtain ⟨-, rfl⟩ := List.cons.inj hafter
        exact ⟨i, List.mem_append_right _ hinvoke⟩

/-- The project is READY, FAILED or deleted. -/
def Settled (t : Table) (id : String) : Prop :=
  t.lookup (recordKey id) = none ∨ storedStatus t id = some .ready ∨
    storedStatus t id = some .failed

omit [DatetimeParser] in
/-- A project is settled unless it is CREATED or PROVISIONING. -/
theorem Represents.settled {R : Projects} {t : Table} (h : Represents R t) {id : String}
    (hstatus : ∀ e, R.find? id = some e →
      e.project.status ≠ .created ∧ e.project.status ≠ .provisioning) : Settled t id := by
  unfold Settled
  rw [h.storedStatus_eq, h.record]
  cases he : R.find? id with
  | none => exact Or.inl rfl
  | some e =>
      obtain ⟨hcreated, hprovisioning⟩ := hstatus e he
      simp only [Option.map_some]
      generalize e.project.status = status at hcreated hprovisioning
      cases status with
      | created => exact absurd rfl hcreated
      | provisioning => exact absurd rfl hprovisioning
      | ready => exact Or.inr (Or.inl rfl)
      | failed => exact Or.inr (Or.inr rfl)

/-- Along the deliveries the project is settling, unless the write of READY fails. -/
theorem Deliveries.settling {svc : Service} {p : Project} {tr tr' : List SystemLabel}
    {w w' : SystemWorld} (h : Deliveries svc p tr w tr' w')
    (hready : ∀ l ∈ tr', ¬ RecordingFailed p.projectId .ready l) {s s' : Lifecycle}
    (hlife : LifecycleRun svc Lifecycle.initial tr s) (hencodes : s.Encodes w)
    (hlife' : LifecycleRun svc s tr' s') : Settling (tr ++ tr') s' p := by
  obtain ⟨e, he, hitem⟩ := hencodes.represents.record_eq_some.mp h.written
  have hstatus : e.project.status = .created := by
    rw [← h.new, ← recordItem_status_iff e, ← hitem, ← recordItem_of_project]
    exact recordItem_status _
  have hinitial : Settling tr s p := Settling.initial hlife h.fresh.of_append_left he hstatus
    h.undelivered h.new
  refine hinitial.run h.transient h.new hlife' h.fresh fun l hl => ?_
  exact {
    delivery := fun j record hinvoke => h.delivered j record (hinvoke ▸ hl)
    notAbandoned := fun j habandon => h.notAbandoned j (habandon ▸ hl)
    failedWritten := h.failedWritten l hl
    readyWritten := hready l hl }

omit [DatetimeParser] in
theorem goodStep_ret (p : Project) (i : Nat) (c : Call) (r : Result) :
    GoodStep p (.ret i c r) where
  delivery j record hl := by cases hl
  notAbandoned j hl := by cases hl
  failedWritten := not_recordingFailed_of_ne fun _ _ _ _ hl => by cases hl
  readyWritten := not_recordingFailed_of_ne fun _ _ _ _ hl => by cases hl

/-- When a delivery returns normally and is the last one at work on its project, the
project is settled, unless the write of READY has failed. -/
theorem settled_after_delivery {svc : Service} {p : Project} {tr tr' : List SystemLabel}
    {w w' w'' : SystemWorld} (h : Deliveries svc p tr w tr' w')
    (hready : ∀ l ∈ tr', ¬ RecordingFailed p.projectId .ready l) {i : Nat} {value : Value}
    (hret : Step (system svc) w' (.ret i (.recordHandler (insertRecord p)) (.ok value)) w'')
    (hlast : ∀ j t, w''.threads j = some t → t.call ≠ .recordHandler (insertRecord p)) :
    Settled w''.store p.projectId := by
  -- the lifecycle up to the write, up to the return, and after it
  obtain ⟨s, hlife, hencodes⟩ :=
    SystemRun.lifecycle Lifecycle.encodes_initial h.ordinary.of_append_left h.before
  obtain ⟨s', hlife', hencodes'⟩ :=
    SystemRun.lifecycle hencodes h.ordinary.of_append_right h.since
  obtain ⟨s'', hstep, hencodes''⟩ := hencodes'.step (fun j c hl => by cases hl) hret
  have hsettling := h.settling hready hlife hencodes hlife'
  have hgood := goodStep_ret p i (.recordHandler (insertRecord p)) (.ok value)
  have hnotStuck := hsettling.notStuck_step h.transient hgood hstep
  refine hencodes''.represents.settled fun e' he' => ⟨?_, fun hprovisioning => ?_⟩
  · -- the handler that returns has been told
    cases hstep with
    | ret hcall hends =>
        exact hsettling.told i _ hcall (told_of_ends h.new hends) e' he'
  · -- nobody is left to move the project
    refine hnotStuck ⟨e', he', hprovisioning, fun j => ?_⟩
    by_contra hrole
    obtain ⟨q, hrole⟩ := Option.ne_none_iff_exists'.mp hrole
    have hafter : Settling (tr ++ tr' ++ [.ret i (.recordHandler (insertRecord p)) (.ok value)])
        s'' p := by
      refine hsettling.step h.transient h.new ?_ hgood hstep
      rw [FreshIds, createdIds_append]
      change (createdIds (tr ++ tr') ++ []).Nodup
      rw [List.append_nil]
      exact h.fresh
    obtain ⟨hcall, -⟩ := hafter.handler_of_role hrole
    obtain ⟨t, ht, hc⟩ := hencodes''.call_iff.mp ⟨_, hcall⟩
    exact hlast j t ht hc

/-- Without faults no update fails to record a status. -/
theorem SystemRun.not_recordingFailed {svc : Service} (hsvc : svc.Faultless)
    {w w' : SystemWorld} {tr : List SystemLabel} (hrun : SystemRun svc w tr w') {id : String}
    {target : ProjectStatus} {l : SystemLabel} (hl : l ∈ tr) : ¬ RecordingFailed id target l := by
  induction hrun with
  | nil => cases hl
  | snoc hrun hstep ih =>
      rcases List.mem_append.mp hl with hbefore | hlast
      · exact ih hbefore
      · obtain rfl := List.mem_singleton.mp hlast
        intro hfailed
        obtain ⟨i, c, T, now, e, rfl, -, hcode⟩ := hfailed
        cases hstep with
        | @exec _ _ _ _ _ t' _ hexec =>
            have hanswer := hsvc.exec_updateItem hexec
            cases hholds : (T.request id now).conditionHolds _ with
            | true =>
                rw [updateItem_of_holds (T.wellFormed id now) hholds] at hanswer
                cases hanswer
            | false =>
                rw [updateItem_of_not_holds (T.wellFormed id now) hholds] at hanswer
                obtain rfl := Except.error.inj (Prod.mk.inj hanswer).1
                exact hcode rfl

end Retries

/-! ## Samples -/

section Instance

open scoped Sample

/-- The sample project written and then delivered in slot 0 only. -/
theorem sample_deliveries {svc : Service} (hsvc : svc.Transient) {t : Table}
    (hbefore : SystemRun svc (World.idle ∅) (createRun sampleProject) (World.idle t))
    (hwritten : t.lookup (recordKey sampleProject.projectId) = some (projectItem sampleProject))
    {tr' : List SystemLabel} {w' : SystemWorld} (hsince : SystemRun svc (World.idle t) tr' w')
    (hlabels : ∀ l ∈ tr', l = .invoke 0 (.recordHandler (insertRecord sampleProject)) ∨
      (∃ op answer, l = .exec 0 (.recordHandler (insertRecord sampleProject)) op answer) ∨
      ∃ r, l = .ret 0 (.recordHandler (insertRecord sampleProject)) r)
    (hfailed : ∀ l ∈ tr', ¬ RecordingFailed sampleProject.projectId .failed l) :
    Deliveries svc sampleProject (createRun sampleProject) (World.idle t) tr' w' where
  transient := hsvc
  before := hbefore
  new := rfl
  written := hwritten
  undelivered i record hinvoke := by simp [createRun, soloLabels] at hinvoke
  since := hsince
  delivered i record hinvoke _ := by
    rcases hlabels _ hinvoke with hl | ⟨op, answer, hl⟩ | ⟨r, hl⟩ <;> cases hl
    rfl
  notAbandoned i habandon := by
    rcases hlabels _ habandon with hl | ⟨op, answer, hl⟩ | ⟨r, hl⟩ <;> cases hl
  failedWritten := hfailed
  ordinary := by
    refine (callsIn_createRun rfl).append fun i c hinvoke => ?_
    rcases hlabels _ hinvoke with hl | ⟨op, answer, hl⟩ | ⟨r, hl⟩ <;> cases hl
    trivial
  fresh := by
    have hnone : createdIds tr' = [] := by
      rw [createdIds, List.filterMap_eq_nil_iff]
      intro l hl
      rcases hlabels l hl with rfl | ⟨op, answer, rfl⟩ | ⟨r, rfl⟩ <;> rfl
    rw [FreshIds, createdIds_append, createdIds_createRun, hnone]
    exact List.nodup_singleton _

/-- A delivery made without faults. -/
theorem settled_after_sample_delivery :
    ∃ tr w tr' w' w'', Deliveries (Service.reference stubProvision) sampleProject tr w tr' w' ∧
      Step (system (Service.reference stubProvision)) w'
        (.ret 0 (.recordHandler (insertRecord sampleProject)) (.ok .unit)) w'' ∧
      Settled w''.store sampleProject.projectId := by
  obtain ⟨t, hbefore, hwritten, hstatus⟩ := sample_written (Service.reference stubProvision)
  have hsvc := Service.reference_faultless stubProvision
  obtain ⟨ops, htraced⟩ := (eval_deliver (p := sampleProject) rfl hwritten hstatus
    (show (Service.reference stubProvision).provision _ (.result {}) from rfl)
    sampleTime sampleTime).traced
  have hrun : SystemRun (Service.reference stubProvision) (World.idle t)
      ((.invoke 0 (.recordHandler (insertRecord sampleProject)) :: ops.map fun x =>
          .exec 0 (.recordHandler (insertRecord sampleProject)) x.1 x.2) ++
        [.ret 0 (.recordHandler (insertRecord sampleProject)) (.ok .unit)]) (World.idle _) :=
    Run.of_traced (M := system (Service.reference stubProvision)) (w := World.idle t)
      (c := .recordHandler (insertRecord sampleProject)) 0 rfl (htraced.map _)
  obtain ⟨w', hmid, hret⟩ := hrun.snoc_inv
  have hdeliveries := sample_deliveries hsvc.transient hbefore hwritten hmid (fun l hl => ?_)
    fun l hl => SystemRun.not_recordingFailed hsvc hmid hl
  · exact ⟨_, _, _, w', _, hdeliveries, hret, settled_after_delivery hdeliveries
      (fun l hl => SystemRun.not_recordingFailed hsvc hmid hl) hret fun j u hu => by cases hu⟩
  · rcases List.mem_cons.mp hl with rfl | hexec
    · exact Or.inl rfl
    · obtain ⟨x, -, rfl⟩ := List.mem_map.mp hexec
      exact Or.inr (Or.inl ⟨_, _, rfl⟩)

/-! ### The gap -/

/-- An update that fails without effect. -/
def serverError : Fault where
  error := { code := "InternalServerError", message := "Internal server error",
             operation := "UpdateItem" }
  applied := false

/-- A service of which every update may fail so. -/
def Service.flaky : Service :=
  { Service.reference stubProvision with updateFault := fun fault => fault = serverError }

theorem Service.flaky_transient : Service.flaky.Transient where
  transact fault hfault := hfault.elim
  update fault hfault := by
    obtain rfl : fault = serverError := hfault
    exact ⟨rfl, by decide⟩

/-- Neither delivery fails to record FAILED. -/
theorem not_recordingFailed_sample {x : (op : Op) × op.Ans} {i : Nat} {c : Call}
    (hx : x ∈ completeOps sampleProject {} sampleTime (.error serverError.error) ++
      refusedOps sampleProject sampleTime) :
    ¬ RecordingFailed sampleProject.projectId .failed (.exec i c x.1 x.2) := by
  intro hfailed
  obtain ⟨j, d, T, now, e, hl, htarget, hcode⟩ := hfailed
  simp only [completeOps, refusedOps, List.cons_append, List.nil_append, List.mem_cons,
    List.not_mem_nil, or_false] at hx
  rcases hx with rfl | rfl | rfl | rfl | rfl | rfl | rfl | rfl <;>
    injection hl with _ _ hop hanswer
  case inr.inl => cases hanswer
  case inr.inr.inr.inr.inl =>
    -- the update that fails would record READY
    have hready := (target_of_request (Op.updateItem.inj hop)).trans htarget
    cases hready
  case inr.inr.inr.inr.inr.inr.inl =>
    obtain rfl := Except.error.inj hanswer
    exact hcode rfl
  all_goals cases hop

/-- The update that records READY fails, the delivery is made again, and it returns
normally with the project PROVISIONING. -/
theorem stuck_after_failed_ready_write :
    ∃ tr w tr' w' w'', Deliveries Service.flaky sampleProject tr w tr' w' ∧
      Redelivered sampleProject tr' ∧
      Step (system Service.flaky) w'
        (.ret 0 (.recordHandler (insertRecord sampleProject)) (.ok .unit)) w'' ∧
      (∀ j, w''.threads j = none) ∧ ¬ Settled w''.store sampleProject.projectId := by
  obtain ⟨t, hbefore, hwritten, hstatus⟩ := sample_written Service.flaky
  let t' := t.insert (recordKey sampleProject.projectId)
    (Transition.begin.applyItem sampleProject.projectId sampleTime (projectItem sampleProject))
  have hstored : t'.lookup (recordKey sampleProject.projectId) = some
      (Transition.begin.applyItem sampleProject.projectId sampleTime
        (projectItem sampleProject)) := Finmap.lookup_insert t
  -- the first delivery raises
  have hfirst := Run.of_traced (M := system Service.flaky) (w := World.idle t)
    (c := .recordHandler (insertRecord sampleProject)) 0 rfl
    ((traced_complete_fails (p := sampleProject) rfl hwritten hstatus
      (show Service.flaky.provision _ (.result {}) from rfl)
      (show Service.flaky.updateFault serverError from rfl) rfl (by decide) sampleTime).map _)
  -- the second finds the project PROVISIONING
  have hnot : ¬ InStatusAt t' sampleProject.projectId .created := by
    intro hcreated
    obtain ⟨item, hitem, hin⟩ := hcreated
    rw [hstored] at hitem
    obtain rfl := Option.some.inj hitem
    rw [Transition.applyItem_status] at hin
    exact absurd hin (by decide)
  have hsecond : SystemRun Service.flaky (World.idle t')
      ((.invoke 0 (.recordHandler (insertRecord sampleProject)) ::
        (refusedOps sampleProject sampleTime).map fun x =>
          .exec 0 (.recordHandler (insertRecord sampleProject)) x.1 x.2) ++
        [.ret 0 (.recordHandler (insertRecord sampleProject)) (.ok .unit)]) (World.idle t') :=
    Run.of_traced (M := system Service.flaky) (w := World.idle t')
      (c := .recordHandler (insertRecord sampleProject)) 0 rfl
      ((traced_refused (p := sampleProject) rfl hnot sampleTime).map _)
  obtain ⟨w', hmid, hret⟩ := hsecond.snoc_inv
  refine ⟨_, _, _, w', _, sample_deliveries Service.flaky_transient hbefore hwritten
    (hfirst.append hmid) ?_ ?_, redelivered_append (List.mem_cons_self ..) ?_, hret,
    fun _ => rfl, ?_⟩
  · intro l hl
    simp only [List.cons_append, List.mem_cons, List.mem_append, mem_soloLabels, List.mem_map] at hl
    rcases hl with rfl | (⟨x, -, rfl⟩ | rfl) | rfl | ⟨x, -, rfl⟩
    · exact Or.inl rfl
    · exact Or.inr (Or.inl ⟨_, _, rfl⟩)
    · exact Or.inr (Or.inr ⟨_, rfl⟩)
    · exact Or.inl rfl
    · exact Or.inr (Or.inl ⟨_, _, rfl⟩)
  · intro l hl
    simp only [List.cons_append, List.mem_cons, List.mem_append, mem_soloLabels, List.mem_map] at hl
    rcases hl with rfl | (⟨x, hx, rfl⟩ | rfl) | rfl | ⟨x, hx, rfl⟩
    · exact not_recordingFailed_of_ne fun _ _ _ _ hl => by cases hl
    · exact not_recordingFailed_sample (List.mem_append_left _ hx)
    · exact not_recordingFailed_of_ne fun _ _ _ _ hl => by cases hl
    · exact not_recordingFailed_of_ne fun _ _ _ _ hl => by cases hl
    · exact not_recordingFailed_sample (List.mem_append_right _ hx)
  · intro j exn hmem
    simp at hmem
  · have hprovisioning : storedStatus t' sampleProject.projectId = some .provisioning := by
      rw [storedStatus, hstored, Option.bind_some,
        Item.string?_eq_some_iff.mpr (Transition.applyItem_status _ _ _ _)]
      rfl
    intro hsettled
    obtain hgone | hready | hfailed := hsettled
    · exact absurd (hstored.symm.trans hgone) (by simp)
    · exact absurd (hprovisioning.symm.trans hready) (by simp)
    · exact absurd (hprovisioning.symm.trans hfailed) (by simp)

end Instance

end ProjectsApi
