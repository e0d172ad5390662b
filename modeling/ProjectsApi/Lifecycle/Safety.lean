import Mathlib.Logic.Relation
import ProjectsApi.Lifecycle.Stages
import ProjectsApi.System.Sequential

/-!
# Safety of the provisioner

Whatever creates, deletes and deliveries of stream records interleave, whatever
updates fail and whatever handlers are abandoned: a stored status moves along
CREATED, PROVISIONING, READY or FAILED only, `provision` is called at most once for
a project, and no update brings a deleted project back.
-/

namespace ProjectsApi

open Foundation Dynamo Program

theorem callsIn_createRun [CaseTables] {p : Project} (hp : p.status = .created) :
    CallsIn Call.Ordinary (createRun p) :=
  callsIn_create hp

/-! ## Statuses -/

/-- The moves of a status. -/
inductive StatusEdge : ProjectStatus → ProjectStatus → Prop where
  | begin : StatusEdge .created .provisioning
  | complete : StatusEdge .provisioning .ready
  | fail : StatusEdge .provisioning .failed

theorem Transition.statusEdge (tr : Transition) : StatusEdge tr.expected tr.target := by
  cases tr with
  | begin => exact .begin
  | complete result => exact .complete
  | fail reason => exact .fail

theorem StatusEdge.target_ne_created {status status' : ProjectStatus}
    (h : StatusEdge status status') : status' ≠ .created := by
  cases h <;> decide

/-- The stored status of a project. -/
def storedStatus (t : Table) (id : String) : Option ProjectStatus :=
  (t.lookup (recordKey id)).bind fun item =>
    (Item.string? item "status").bind ProjectStatus.ofValue?

/-- No transition creates an item. -/
theorem Transition.lookup_updateItem (tr : Transition) (id : String) (now : Datetime) (t : Table)
    (key : Key) :
    ((updateItem (tr.request id now) t).2.lookup key).isSome = (t.lookup key).isSome := by
  cases hholds : (tr.request id now).conditionHolds t with
  | false => rw [updateItem_of_not_holds (tr.wellFormed id now) hholds]
  | true =>
      rw [updateItem_of_holds (tr.wellFormed id now) hholds, lookup_insert_eq]
      obtain ⟨item, hitem, -⟩ := (transitionRequest_conditionHolds _ _ _ _ _ _).mp hholds
      split
      · rename_i hkey
        have hstored : t.lookup key = some item := by rw [hkey]; exact hitem
        rw [hstored]
        rfl
      · rfl

section Provisioner

variable [CaseTables]

theorem Represents.storedStatus_eq {R : Projects} {t : Table} (h : Represents R t) (id : String) :
    storedStatus t id = (R.find? id).map fun e => e.project.status := by
  rw [storedStatus, h.record]
  cases R.find? id with
  | none => rfl
  | some e =>
      rw [Option.map_some, Option.bind_some, Item.string?_eq_some_iff.mpr (recordItem_status e)]
      exact ProjectStatus.ofValue?_value _

/-! ## One step -/

section Step

variable {svc : Service} {s s' : Lifecycle} {l : SystemLabel} {id : String} {e' : Entry}

/-- After a transition is answered each record has its status or the next one. -/
theorem Wrote.status {tr : Transition} {projectId : String} {now : Datetime} {R R' : Projects}
    {answer : Except ClientError Unit}
    (h : Wrote svc.updateFault R (R.transition tr projectId now) answer R')
    (he' : R'.find? id = some e') :
    ∃ e, R.find? id = some e ∧
      (e'.project.status = e.project.status ∨ StatusEdge e.project.status e'.project.status) := by
  obtain ⟨-, rfl⟩ | ⟨-, ⟨e, he, hstatus⟩, rfl⟩ := h.transition_cases
  · exact ⟨e', he', Or.inl rfl⟩
  · rw [Projects.find?_move] at he'
    split at he'
    · subst id
      rw [he, Option.map_some] at he'
      obtain rfl := Option.some.inj he'
      exact ⟨e, he, Or.inr (hstatus ▸ tr.statusEdge)⟩
    · exact ⟨e', he', Or.inl rfl⟩

/-- A record after a step was there before, with the status it has or one edge earlier,
or it has just been created. -/
theorem LifecycleStep.status (hstep : LifecycleStep svc s l s')
    (he' : s'.registry.find? id = some e') :
    (∃ e, s.registry.find? id = some e ∧
      (e'.project.status = e.project.status ∨
        StatusEdge e.project.status e'.project.status)) ∨
      s.registry.find? id = none ∧ e'.project.status = .created ∧
        ∃ i p answer, s.role id i = some .creating ∧ p.projectId = id ∧
          l = .exec i (.create p) (.transactWriteItems (createActions p)) answer := by
  have hsame : s.registry.find? id = some e' →
      ∃ e, s.registry.find? id = some e ∧ (e'.project.status = e.project.status ∨
        StatusEdge e.project.status e'.project.status) :=
    fun he => ⟨e', he, Or.inl rfl⟩
  cases hstep with
  | create hp hcall hwrote =>
      rw [Lifecycle.setCall_registry] at he'
      obtain ⟨-, rfl⟩ | ⟨-, hnone, hname, rfl⟩ := hwrote.create_cases
      · exact Or.inl (hsame he')
      · rw [Registry.find?_add] at he'
        split at he'
        · -- the project that is being created
          subst id
          obtain rfl := Option.some.inj he'
          exact Or.inr ⟨hnone, hp, _, _, _, by simp [Lifecycle.role, hcall, roleIn], rfl, rfl⟩
        · exact Or.inl (hsame he')
  | delete hcall hwrote =>
      obtain ⟨-, rfl⟩ | ⟨-, -, -, rfl⟩ := hwrote.delete_cases
      · exact Or.inl (hsame he')
      · rw [Registry.find?_remove] at he'
        split at he'
        · cases he'
        · exact Or.inl (hsame he')
  | begin hcall hproject hwrote => exact Or.inl (hwrote.status he')
  | recording hcall hproject hwrote => exact Or.inl (hwrote.status he')
  | invoke | quiet | provision | warn | ret | abandon => exact Or.inl (hsame he')

/-- A project written once is never created again. -/
theorem LifecycleStep.status_of_born (hstep : LifecycleStep svc s l s') {tr : List SystemLabel}
    {st : Stage} (hst : InStage tr s id st) (hborn : st.Born)
    (he' : s'.registry.find? id = some e') :
    ∃ e, s.registry.find? id = some e ∧
      (e'.project.status = e.project.status ∨
        StatusEdge e.project.status e'.project.status) := by
  obtain hold | ⟨-, -, i, p, answer, hrole, -⟩ := hstep.status he'
  · exact hold
  · -- the stage would be `pending`
    rw [hst.role] at hrole
    rw [Stage.eq_of_role_creating hrole] at hborn
    exact hborn.elim

end Step

/-! ## Runs -/

section Runs

variable {svc : Service} {tr tr' : List SystemLabel} {s s' : Lifecycle} {id : String}

/-- Along a run the status of a stored project moves along edges, and a project that is
gone stays so. -/
theorem LifecycleRun.status_path {st : Stage} (hst : InStage tr s id st) (hborn : st.Born)
    (hrun : LifecycleRun svc s tr' s') (hfresh : FreshIds (tr ++ tr')) {e' : Entry}
    (he' : s'.registry.find? id = some e') :
    ∃ e, s.registry.find? id = some e ∧
      Relation.ReflTransGen StatusEdge e.project.status e'.project.status := by
  -- the stage reached so far tells that the record is not created once more
  induction hrun generalizing e' with
  | nil => exact ⟨e', he', .refl⟩
  | snoc hrun hstep ih =>
      rw [← List.append_assoc] at hfresh
      obtain ⟨st₁, h₁, hborn₁⟩ := LifecycleRun.inStage hst hrun hfresh.of_append_left
      obtain ⟨e₁, he₁, hedge⟩ := hstep.status_of_born h₁ (hborn₁ hborn) he'
      obtain ⟨e, he, hpath⟩ := ih hfresh.of_append_left he₁
      refine ⟨e, he, ?_⟩
      rcases hedge with heq | hedge
      · rwa [heq]
      · exact hpath.tail hedge

/-- `provision` is called at most once for a project. -/
theorem InStage.outcomes_length {st : Stage} (h : InStage tr s id st) :
    (ProjectsApi.outcomes tr id).length ≤ 1 := by
  rw [h.outcomes]
  cases st with
  | lost outcome => cases outcome <;> simp [Stage.outcomes]
  | _ => simp [Stage.outcomes]

end Runs

/-! ## The system -/

/-- What one step may do to the stored projects. -/
structure SafeStep (w : SystemWorld) (l : SystemLabel) (w' : SystemWorld) : Prop where
  /-- A status moves along an edge. -/
  edge : ∀ id status status', storedStatus w.store id = some status →
    storedStatus w'.store id = some status' → status' = status ∨ StatusEdge status status'
  /-- A new record is in status CREATED, and written by its `create`. -/
  created : ∀ id status', storedStatus w.store id = none →
    storedStatus w'.store id = some status' → status' = .created ∧ ∃ i p answer,
      p.projectId = id ∧ l = .exec i (.create p) (.transactWriteItems (createActions p)) answer
  /-- An update creates no item. -/
  noUpsert : ∀ i c request answer, l = .exec i c (.updateItem request) answer →
    ∀ key, (w'.store.lookup key).isSome = (w.store.lookup key).isSome

variable [DatetimeParser]

theorem Lifecycle.Encodes.safeStep {svc : Service} {s s' : Lifecycle} {w w' : SystemWorld}
    {l : SystemLabel} {tr : List SystemLabel} (hrun : SystemRun svc (World.idle ∅) tr w)
    (h : s.Encodes w) (h' : s'.Encodes w') (hstep : LifecycleStep svc s l s')
    (hworld : Step (system svc) w l w') : SafeStep w l w' where
  edge id status status' hstatus hstatus' := by
    rw [h.represents.storedStatus_eq, Option.map_eq_some_iff] at hstatus
    rw [h'.represents.storedStatus_eq, Option.map_eq_some_iff] at hstatus'
    obtain ⟨e, he, rfl⟩ := hstatus
    obtain ⟨e', he', rfl⟩ := hstatus'
    obtain ⟨e₀, he₀, hedge⟩ | ⟨hnone, -⟩ := hstep.status he'
    · rw [he] at he₀
      obtain rfl := Option.some.inj he₀
      exact hedge
    · rw [he] at hnone
      cases hnone
  created id status' hstatus hstatus' := by
    rw [h.represents.storedStatus_eq, Option.map_eq_none_iff] at hstatus
    rw [h'.represents.storedStatus_eq, Option.map_eq_some_iff] at hstatus'
    obtain ⟨e', he', rfl⟩ := hstatus'
    obtain ⟨e, he, -⟩ | ⟨-, hcreated, i, p, answer, -, hid, hl⟩ := hstep.status he'
    · rw [hstatus] at he
      cases he
    · exact ⟨hcreated, i, p, answer, hid, hl⟩
  noUpsert i c request answer hl key := by
    subst hl
    cases hworld with
    | @exec _ _ _ next _ t' hthread hexec =>
        have hop := (SystemRun.allOps hrun _ _ hthread).1
        -- every update of the system is a transition, which asks for a stored status
        change (t'.lookup key).isSome = (w.store.lookup key).isSome
        rcases hexec.update_cases with rfl | rfl
        · rfl
        · generalize hupdate : Op.updateItem request = op at hop
          cases hop with
          | transition tr projectId now =>
              obtain rfl := Op.updateItem.inj hupdate
              exact tr.lookup_updateItem projectId now w.store key
          | _ => cases hupdate

/-- Safety of the provisioner in every run of creates, deletes and deliveries. -/
theorem provisioner_safety {svc : Service} {tr : List SystemLabel} {w : SystemWorld}
    (hrun : SystemRun svc (World.idle ∅) tr w) (hcalls : CallsIn Call.Ordinary tr)
    (hfresh : FreshIds tr) :
    (∀ id, (outcomes tr id).length ≤ 1) ∧
    ∀ tr₁ l tr₂ w₁ w₂, tr = tr₁ ++ l :: tr₂ → SystemRun svc (World.idle ∅) tr₁ w₁ →
      Step (system svc) w₁ l w₂ → SystemRun svc w₂ tr₂ w →
      SafeStep w₁ l w₂ ∧
      ∀ id status, storedStatus w₁.store id = some status →
        (∀ status', storedStatus w.store id = some status' →
          Relation.ReflTransGen StatusEdge status status') ∧
        (w₂.store.lookup (recordKey id) = none → w.store.lookup (recordKey id) = none) := by
  constructor
  -- the stage of a project has room for one outcome
  · intro id
    obtain ⟨s, hlife, -⟩ := SystemRun.lifecycle Lifecycle.encodes_initial hcalls hrun
    obtain ⟨st, hst⟩ := LifecycleRun.exists_inStage hlife hfresh id
    exact hst.outcomes_length
  · intro tr₁ l tr₂ w₁ w₂ htr hrun₁ hstep hrun₂
    have htr' : tr = (tr₁ ++ [l]) ++ tr₂ := by simp [htr]
    rw [htr'] at hcalls hfresh
    -- the lifecycle along the three parts of the run
    obtain ⟨s₁, hlife₁, hencodes₁⟩ := SystemRun.lifecycle Lifecycle.encodes_initial
      hcalls.of_append_left.of_append_left hrun₁
    obtain ⟨s₂, hlife, hencodes₂⟩ := hencodes₁.step
      (fun i c hl => hcalls i c (by simp [hl])) hstep
    obtain ⟨s, hlife₂, hencodes⟩ := SystemRun.lifecycle hencodes₂ hcalls.of_append_right hrun₂
    refine ⟨hencodes₁.safeStep hrun₁ hencodes₂ hlife hstep, fun id status hstatus => ?_⟩
    rw [hencodes₁.represents.storedStatus_eq, Option.map_eq_some_iff] at hstatus
    obtain ⟨e, he, rfl⟩ := hstatus
    obtain ⟨st₁, hst₁⟩ := LifecycleRun.exists_inStage hlife₁
      hfresh.of_append_left.of_append_left id
    obtain ⟨st₂, hst₂, hleads⟩ := hst₁.step hfresh.of_append_left hlife
    have hborn₂ := hleads.born (hst₁.born he)
    constructor
    -- a status moves along the edges only
    · intro status' hstatus'
      rw [hencodes.represents.storedStatus_eq, Option.map_eq_some_iff] at hstatus'
      obtain ⟨e', he', rfl⟩ := hstatus'
      have hpath := LifecycleRun.status_path hst₁ (hst₁.born he)
        (Run.cons hlife hlife₂) (by simpa using hfresh) he'
      obtain ⟨e₀, he₀, hpath⟩ := hpath
      rw [he] at he₀
      obtain rfl := Option.some.inj he₀
      exact hpath
    -- no later create brings a record back, since its id would be fresh
    · intro hgone
      rw [hencodes₂.represents.record, Option.map_eq_none_iff] at hgone
      rw [hencodes.represents.record, Option.map_eq_none_iff]
      cases he' : s.registry.find? id with
      | none => rfl
      | some e' =>
          obtain ⟨e₂, he₂, -⟩ := LifecycleRun.status_path hst₂ hborn₂ hlife₂ hfresh he'
          rw [hgone] at he₂
          cases he₂

end Provisioner

section Instance

open scoped Sample

/-- The sample project created. -/
theorem sample_written (svc : Service) :
    ∃ t, SystemRun svc (World.idle ∅) (createRun sampleProject) (World.idle t) ∧
      t.lookup (recordKey sampleProject.projectId) = some (projectItem sampleProject) ∧
      (projectItem sampleProject).lookup "status" = some (.S ProjectStatus.created.value) := by
  obtain ⟨t, hrun, hrep⟩ := Represents.empty.run_create svc (p := sampleProject)
    (Registry.not_taken_empty _) rfl
  refine ⟨t, hrun, ?_, ?_⟩
  · rw [hrep.record, Registry.find?_add, if_pos rfl, Option.map_some, recordItem_of_project]
  · rw [← recordItem_of_project, recordItem_status]
    rfl

/-- The sample project created and delivered once. -/
theorem sample_delivery (outcome : ProvisionRequest → ProvisionOutcome) :
    ∃ tr w, SystemRun (Service.reference outcome) (World.idle ∅) tr w ∧
      CallsIn Call.Ordinary tr ∧ FreshIds tr ∧
      w.store.lookup (recordKey sampleProject.projectId) = some
        ((outcome sampleProject.provisionRequest).recording.applyItem sampleProject.projectId
          sampleTime (Transition.begin.applyItem sampleProject.projectId sampleTime
            (projectItem sampleProject))) := by
  obtain ⟨t₁, hrun₁, hitem, hstatus⟩ := sample_written (Service.reference outcome)
  obtain ⟨tr₂, hrun₂, hcalls₂, -⟩ := run_delivery (eval_deliver (p := sampleProject) rfl hitem
    hstatus (show (Service.reference outcome).provision _ (outcome _) from rfl)
    sampleTime sampleTime)
  refine ⟨_, _, hrun₁.append hrun₂, ?_, ?_, Finmap.lookup_insert _⟩
  · exact (callsIn_createRun rfl).append (CallsIn.cons trivial (hcalls₂.callsIn _))
  · rw [FreshIds, createdIds_append, createdIds_createRun]
    change (sampleProject.projectId :: createdIds tr₂).Nodup
    rw [createdIds_of_noCalls hcalls₂]
    exact List.nodup_singleton _

theorem provisioner_safety_on_delivery :
    ∃ tr w, SystemRun (Service.reference stubProvision) (World.idle ∅) tr w ∧
      storedStatus w.store sampleProject.projectId = some .ready ∧
      ∀ id, (outcomes tr id).length ≤ 1 := by
  obtain ⟨tr, w, hrun, hcalls, hfresh, hitem⟩ := sample_delivery stubProvision
  refine ⟨tr, w, hrun, ?_, (provisioner_safety hrun hcalls hfresh).1⟩
  rw [storedStatus, hitem, Option.bind_some,
    Item.string?_eq_some_iff.mpr (Transition.applyItem_status _ _ _ _)]
  rfl

end Instance

end ProjectsApi
