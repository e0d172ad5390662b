import ProjectsApi.Lifecycle.Phases
import ProjectsApi.System.Reachable

/-!
# The life of projects as a transition system

A `Lifecycle` keeps the registry of projects and, of each call in flight, only its
phase.  Its steps are those that matter to a project: a `create`, a `delete`, the
two updates and the provisioning of a handler, the coming and going of calls.  Every
run of the system is a run of it (`SystemRun.lifecycle`), so what holds of all its
runs holds of the code.
-/

namespace ProjectsApi

open Foundation Dynamo Program

variable [CaseTables]

/-- The projects, and the calls in flight with their phases. -/
structure Lifecycle where
  registry : Projects
  calls : Nat → Option (Call × Phase)

namespace Lifecycle

/-- No projects, no calls. -/
def initial : Lifecycle where
  registry := Registry.empty
  calls _ := none

/-- Replace the call in slot `i`. -/
def setCall (s : Lifecycle) (i : Nat) (c : Option (Call × Phase)) : Lifecycle :=
  { s with calls := Function.update s.calls i c }

@[simp] theorem setCall_registry (s : Lifecycle) (i : Nat) (c : Option (Call × Phase)) :
    (s.setCall i c).registry = s.registry := rfl

/-- What slot `j` holds after slot `i` was set. -/
theorem setCall_calls (s : Lifecycle) (i j : Nat) (c : Option (Call × Phase)) :
    (s.setCall i c).calls j = if j = i then c else s.calls j :=
  Function.update_apply _ _ _ _

/-- A call found after slot `i` was set is the new one of that slot, or was there before. -/
theorem setCall_origin {s : Lifecycle} {i j : Nat} {c : Option (Call × Phase)}
    {found : Call × Phase} (h : (s.setCall i c).calls j = some found) :
    i = j ∧ c = some found ∨ s.calls j = some found := by
  rw [setCall_calls] at h
  split at h
  · exact Or.inl ⟨Eq.symm ‹_›, h⟩
  · exact Or.inr h

theorem setCall_self {s : Lifecycle} {i : Nat} {c : Option (Call × Phase)}
    (h : s.calls i = c) : s.setCall i c = s := by
  subst h
  rw [setCall, Function.update_eq_self]

end Lifecycle

/-- The steps of a lifecycle, labelled like those of the system. -/
inductive LifecycleStep (svc : Service) : Lifecycle → SystemLabel → Lifecycle → Prop where
  | invoke {s : Lifecycle} {i : Nat} (c : Call) (hfree : s.calls i = none) (hc : c.Ordinary) :
      LifecycleStep svc s (.invoke i c) (s.setCall i (some (c, c.start)))
  | quiet {s : Lifecycle} {i : Nat} {c : Call} {q : Phase} {op : Op} {answer : op.Ans}
      (hcall : s.calls i = some (c, q)) (hop : Quiet op) :
      LifecycleStep svc s (.exec i c op answer) s
  | create {s : Lifecycle} {i : Nat} {p : Project} {answer : Except ClientError Unit}
      {R' : Projects} (hp : p.status = .created)
      (hcall : s.calls i = some (.create p, .creating))
      (hwrote : Wrote svc.transactFault s.registry (s.registry.create p) answer R') :
      LifecycleStep svc s (.exec i (.create p) (.transactWriteItems (createActions p)) answer)
        ({ s with registry := R' }.setCall i (some (.create p, .idle)))
  | delete {s : Lifecycle} {i : Nat} {projectId ownerId name : String} {q : Phase}
      {answer : Except ClientError Unit} {R' : Projects}
      (hcall : s.calls i = some (.delete projectId ownerId, q))
      (hwrote : Wrote svc.transactFault s.registry (s.registry.delete projectId name ownerId)
        answer R') :
      LifecycleStep svc s (.exec i (.delete projectId ownerId)
        (.transactWriteItems (deleteActions projectId name ownerId)) answer)
        { s with registry := R' }
  | begin {s : Lifecycle} {i : Nat} {record : StreamRecord} {projectId : String}
      {now : Datetime} {answer : Except ClientError Unit} {R' : Projects}
      (hcall : s.calls i = some (.recordHandler record, .idle))
      (hproject : record.project? = some projectId)
      (hwrote : Wrote svc.updateFault s.registry (s.registry.transition .begin projectId now)
        answer R') :
      LifecycleStep svc s (.exec i (.recordHandler record)
        (.updateItem (Transition.begin.request projectId now)) answer)
        ({ s with registry := R' }.setCall i
          (some (.recordHandler record, Phase.afterBegin answer)))
  | provision {s : Lifecycle} {i : Nat} {record : StreamRecord} {request : ProvisionRequest}
      {outcome : ProvisionOutcome} (hcall : s.calls i = some (.recordHandler record, .claimed))
      (hproject : record.project? = some request.projectId)
      (houtcome : svc.provision request outcome) :
      LifecycleStep svc s (.exec i (.recordHandler record) (.provision request) outcome)
        (s.setCall i (some (.recordHandler record, .provisioned outcome)))
  | recording {s : Lifecycle} {i : Nat} {record : StreamRecord} {projectId : String}
      {outcome : ProvisionOutcome} {now : Datetime} {answer : Except ClientError Unit}
      {R' : Projects} (hcall : s.calls i = some (.recordHandler record, .provisioned outcome))
      (hproject : record.project? = some projectId)
      (hwrote : Wrote svc.updateFault s.registry
        (s.registry.transition outcome.recording projectId now) answer R') :
      LifecycleStep svc s (.exec i (.recordHandler record)
        (.updateItem (outcome.recording.request projectId now)) answer)
        ({ s with registry := R' }.setCall i
          (some (.recordHandler record, Phase.afterRecording answer)))
  | warn {s : Lifecycle} {i : Nat} {record : StreamRecord} {projectId : String}
      {target : ProjectStatus} (hcall : s.calls i = some (.recordHandler record, .unrecorded))
      (hproject : record.project? = some projectId) :
      LifecycleStep svc s (.exec i (.recordHandler record)
        (.log (notRecordedEntry target projectId)) ()) s
  | ret {s : Lifecycle} {i : Nat} {c : Call} {q : Phase} {r : Result}
      (hcall : s.calls i = some (c, q)) (hends : Ends c q r) :
      LifecycleStep svc s (.ret i c r) (s.setCall i none)
  | abandon {s : Lifecycle} {i : Nat} {c : Call} {q : Phase}
      (hcall : s.calls i = some (c, q)) :
      LifecycleStep svc s (.abandon i c) (s.setCall i none)

/-- Runs of the lifecycle. -/
abbrev LifecycleRun (svc : Service) : Lifecycle → List SystemLabel → Lifecycle → Prop :=
  Run (LifecycleStep svc)

/-! ## Simulation -/

/-- A world of the system as a lifecycle. -/
structure Lifecycle.Encodes (s : Lifecycle) (w : SystemWorld) : Prop where
  represents : Represents s.registry w.store
  calls : ∃ phase : Nat → Phase, w.Typed Move Ends phase ∧
    ∀ i, s.calls i = (w.threads i).map fun t => (t.call, phase i)

namespace Lifecycle

variable {svc : Service} {s : Lifecycle} {w w' : SystemWorld}

theorem encodes_initial : initial.Encodes (World.idle ∅) where
  represents := Represents.empty
  calls := ⟨fun _ => .idle, World.typed_idle _ _ _ _, fun _ => rfl⟩

/-- The call in flight in a slot. -/
theorem Encodes.call_iff (h : s.Encodes w) {i : Nat} {c : Call} :
    (∃ q, s.calls i = some (c, q)) ↔ ∃ t, w.threads i = some t ∧ t.call = c := by
  obtain ⟨phase, -, hcalls⟩ := h.calls
  rw [hcalls]
  cases w.threads i with
  | none => simp
  | some t => simp

/-- Setting one slot of the world and of the lifecycle alike. -/
theorem Encodes.setCall {R' : Projects} {t' : Table} {phase : Nat → Phase} {i : Nat} {c : Call}
    {q : Phase} {program : Action Result} (hrep : Represents R' t')
    (htyped : w.Typed Move Ends phase)
    (hcalls : ∀ j, s.calls j = (w.threads j).map fun t => (t.call, phase j))
    (hfollows : Follows (Move c) (Ends c) q program) :
    ({ s with registry := R' }.setCall i (some (c, q))).Encodes
      ({ w with store := t' }.setThread i (some ⟨c, program⟩)) where
  represents := hrep
  calls := by
    refine ⟨Function.update phase i q, ?_, fun j => ?_⟩
    · exact World.Typed.setThread (w := { w with store := t' }) htyped i ⟨c, program⟩ q hfollows
    · rw [setCall_calls, World.setThread_threads]
      by_cases hj : j = i
      · subst hj
        simp
      · simp [hj, hcalls]

variable [DatetimeParser]

/-- Every step of the system is one of the lifecycle. -/
theorem Encodes.step (h : s.Encodes w) {l : SystemLabel}
    (hl : ∀ i c, l = .invoke i c → c.Ordinary) (hstep : Step (system svc) w l w') :
    ∃ s', LifecycleStep svc s l s' ∧ s'.Encodes w' := by
  obtain ⟨hrep, phase, htyped, hcalls⟩ := h
  cases hstep with
  | @invoke i c hfree =>
      have hc := hl i c rfl
      exact ⟨_, .invoke c (by rw [hcalls, hfree]; rfl) hc,
        Encodes.setCall hrep htyped hcalls (c.follows hc)⟩
  | @exec i c op next answer t' hthread hexec =>
      have hcall : s.calls i = some (c, phase i) := by rw [hcalls, hthread]; rfl
      obtain ⟨after, hmove, hnext⟩ := htyped.move hthread
      generalize phase i = q at hcall hmove
      cases hmove with
      -- reads and log lines leave the table and the phase as they are
      | quiet hop =>
          obtain rfl : t' = w.store := by
            refine Service.Exec.eq_of_not_writes ?_ hexec
            cases hop <;> exact id
          refine ⟨s, .quiet hcall hop, ?_⟩
          have hencodes := Encodes.setCall (i := i) hrep htyped hcalls (hnext answer)
          rwa [setCall_self hcall] at hencodes
      | create hp =>
          obtain ⟨R', hR', hrep'⟩ := hrep.exec_create hexec
          exact ⟨_, .create hp hcall hR', Encodes.setCall hrep' htyped hcalls (hnext answer)⟩
      | delete =>
          obtain ⟨R', hR', hrep'⟩ := hrep.exec_delete hexec
          refine ⟨_, .delete hcall hR', ?_⟩
          have hencodes := Encodes.setCall (i := i) hrep' htyped hcalls (hnext answer)
          rwa [setCall_self (s := { s with registry := R' }) hcall] at hencodes
      | begin hproject =>
          obtain ⟨R', hR', hrep'⟩ := hrep.exec_transition hexec
          exact ⟨_, .begin hcall hproject hR',
            Encodes.setCall hrep' htyped hcalls (hnext answer)⟩
      | provision hproject =>
          cases hexec with
          | provision _ houtcome =>
              exact ⟨_, .provision hcall hproject houtcome,
                Encodes.setCall hrep htyped hcalls (hnext answer)⟩
      | recording outcome hproject =>
          obtain ⟨R', hR', hrep'⟩ := hrep.exec_transition hexec
          exact ⟨_, .recording hcall hproject hR',
            Encodes.setCall hrep' htyped hcalls (hnext answer)⟩
      | warn hproject =>
          obtain rfl : t' = w.store := Service.Exec.eq_of_not_writes id hexec
          refine ⟨s, .warn hcall hproject, ?_⟩
          have hencodes := Encodes.setCall (i := i) hrep htyped hcalls (hnext answer)
          rwa [setCall_self hcall] at hencodes
  -- a call that ends, either way, is gone from both sides
  | @ret i c r hthread =>
      have hcall : s.calls i = some (c, phase i) := by rw [hcalls, hthread]; rfl
      refine ⟨_, .ret hcall (htyped.returns hthread), hrep, phase, htyped.clearThread i, ?_⟩
      intro j
      rw [setCall_calls, World.setThread_threads]
      split <;> simp [hcalls]
  | @abandon i c program hthread =>
      have hcall : s.calls i = some (c, phase i) := by rw [hcalls, hthread]; rfl
      refine ⟨_, .abandon hcall, hrep, phase, htyped.clearThread i, ?_⟩
      intro j
      rw [setCall_calls, World.setThread_threads]
      split <;> simp [hcalls]

end Lifecycle

/-- Every run of the system is a run of the lifecycle. -/
theorem SystemRun.lifecycle [DatetimeParser] {svc : Service} {s : Lifecycle} {w w' : SystemWorld}
    {tr : List SystemLabel} (hencodes : s.Encodes w) (hcalls : CallsIn Call.Ordinary tr)
    (hrun : SystemRun svc w tr w') :
    ∃ s', LifecycleRun svc s tr s' ∧ s'.Encodes w' := by
  induction hrun with
  | nil => exact ⟨s, .nil, hencodes⟩
  | @snoc tr mid w' l hrun hstep ih =>
      obtain ⟨s₁, hrun₁, hencodes₁⟩ := ih hcalls.of_append_left
      obtain ⟨s', hstep', hencodes'⟩ := hencodes₁.step
        (fun i c hl => hcalls i c (by simp [hl])) hstep
      exact ⟨s', .snoc hrun₁ hstep', hencodes'⟩

end ProjectsApi
