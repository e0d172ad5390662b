import ProjectsApi.Foundation.PhaseRun
import ProjectsApi.Lifecycle.Safety
import ProjectsApi.System.Pagination

/-!
# Acknowledged writes

What a client was told stays true, whatever other clients do and whatever fails meanwhile: a
project whose `create` has returned is stored, and read, until its owner deletes it, and a project
whose `delete` has returned never comes back.  What a call may return is decided by the last
answer of the table that it has seen.
-/

namespace ProjectsApi

open Foundation Dynamo Program

/-! ## What a call returns -/

section Calls

variable [CaseTables] [DatetimeParser]

/-- What the last answer has to do with the result. -/
def LastEnds : Call → Last Op Op.Ans → Result → Prop
  | .create p, last, r => (∃ value, r = .ok value) →
      last = some ⟨.transactWriteItems (createActions p), .ok ()⟩
  | .get projectId, last, r => ∃ answer : Except ClientError (Option Item),
      last = some ⟨.getItem (recordKey projectId), answer⟩ ∧
        r = (ProjectRepository.getValue projectId answer).map .project
  | .delete projectId ownerId, last, r => (∃ value, r = .ok value) →
      ∃ name, last = some ⟨.transactWriteItems (deleteActions projectId name ownerId), .ok ()⟩
  | _, _, _ => True

omit [DatetimeParser] in
theorem last_create (p : Project) :
    Follows (Remembers Op Op.Ans) (fun last (r : Except Exn Project) => (∃ value, r = .ok value) →
      last = some ⟨.transactWriteItems (createActions p), .ok ()⟩) none
      (ProjectRepository.create p) := by
  rw [ProjectRepository.create_eq]
  refine Follows.step _ rfl fun answer => ?_
  cases answer with
  | ok => exact fun _ => rfl
  | error e =>
      rintro ⟨value, hvalue⟩
      cases hvalue

omit [DatetimeParser] in
/-- A failed transaction never ends in a result. -/
theorem last_deleteError (projectId name : String) (e : ClientError) {q : Last Op Op.Ans}
    {ends : Last Op Op.Ans → Except Exn Unit → Prop} (hends : ∀ last exn, ends last (.error exn)) :
    Follows (Remembers Op Op.Ans) ends q (ProjectRepository.deleteError projectId name e) := by
  unfold ProjectRepository.deleteError
  split_ifs
  · exact hends _ _
  · exact Follows.step _ rfl fun _ => hends _ _
  · exact hends _ _
  · exact hends _ _

theorem last_delete (projectId ownerId : String) :
    Follows (Remembers Op Op.Ans) (fun last (r : Except Exn Unit) => (∃ value, r = .ok value) →
      ∃ name, last = some ⟨.transactWriteItems (deleteActions projectId name ownerId), .ok ()⟩)
      none (ProjectRepository.delete projectId ownerId) := by
  rw [ProjectRepository.delete_eq]
  refine Follows.step _ rfl fun answer => ?_
  -- the project was read, or the call ends with an exception
  cases ProjectRepository.getValue projectId answer with
  | error exn =>
      rintro ⟨value, hvalue⟩
      cases hvalue
  | ok project =>
      rw [ProjectRepository.deleteRead]
      split
      · rintro ⟨value, hvalue⟩
        cases hvalue
      · refine Follows.step _ rfl fun answer => ?_
        cases answer with
        | ok => exact fun _ => ⟨_, rfl⟩
        | error e =>
            refine last_deleteError _ _ _ fun last exn => ?_
            rintro ⟨value, hvalue⟩
            cases hvalue

/-- Every call returns what its last answer allows. -/
theorem Call.last (c : Call) : Follows (Remembers Op Op.Ans) (LastEnds c) none c.body := by
  cases c with
  | create p =>
      refine Follows.map ((last_create p).mono ?_)
      rintro last r hends ⟨value, hvalue⟩
      cases r with
      | ok p' => exact hends ⟨p', rfl⟩
      | error exn => cases hvalue
  | get projectId =>
      refine Follows.map ?_
      rw [ProjectRepository.get_eq]
      exact Follows.step _ rfl fun answer => ⟨answer, rfl, rfl⟩
  | delete projectId ownerId =>
      refine Follows.map ((last_delete projectId ownerId).mono ?_)
      rintro last r hends ⟨value, hvalue⟩
      cases r with
      | ok => exact hends ⟨(), rfl⟩
      | error exn => cases hvalue
  | listByOwner | walk | transition | recordHandler =>
      exact follows_remembers _ _ fun _ _ => trivial

end Calls

/-! ## Stored projects -/

section Stored

variable [CaseTables]

/-- The owner has sent the transaction of a `delete`. -/
def DeleteSent (tr : List SystemLabel) (id ownerId : String) : Prop :=
  ∃ i name answer, .exec i (.delete id ownerId)
    (.transactWriteItems (deleteActions id name ownerId)) answer ∈ tr

theorem DeleteSent.append_left {tr : List SystemLabel} {id ownerId : String}
    (h : DeleteSent tr id ownerId) (tr' : List SystemLabel) :
    DeleteSent (tr ++ tr') id ownerId := by
  obtain ⟨i, name, answer, hmem⟩ := h
  exact ⟨i, name, answer, List.mem_append_left _ hmem⟩

theorem DeleteSent.append_right {tr' : List SystemLabel} {id ownerId : String}
    (h : DeleteSent tr' id ownerId) (tr : List SystemLabel) :
    DeleteSent (tr ++ tr') id ownerId := by
  obtain ⟨i, name, answer, hmem⟩ := h
  exact ⟨i, name, answer, List.mem_append_right _ hmem⟩

variable {svc : Service} {s s' : Lifecycle} {l : SystemLabel} {tr : List SystemLabel} {id : String}

/-- A stored project stays what it is, or its owner deletes it. -/
theorem LifecycleStep.kept (hstep : LifecycleStep svc s l s') {e : Entry}
    (he : s.registry.find? id = some e) :
    (∃ e', s'.registry.find? id = some e' ∧ SameIdentity e.project e'.project) ∨
      DeleteSent [l] id e.project.ownerId := by
  have hsame : (∃ e', s.registry.find? id = some e' ∧ SameIdentity e.project e'.project) :=
    ⟨e, he, .refl _⟩
  have hmove : ∀ {tr : Transition} {projectId : String} {now : Datetime} {answer} {R' : Projects},
      Wrote svc.updateFault s.registry (s.registry.transition tr projectId now) answer R' →
        ∃ e', R'.find? id = some e' ∧ SameIdentity e.project e'.project := by
    intro tr projectId now answer R' hwrote
    obtain ⟨-, rfl⟩ | ⟨-, -, rfl⟩ := hwrote.transition_cases
    · exact hsame
    · rw [Projects.find?_move]
      split
      · subst id
        exact ⟨_, by rw [he]; rfl, (SameIdentity.refl e.project).move tr now⟩
      · exact hsame
  cases hstep with
  | create hp hcall hwrote =>
      rw [Lifecycle.setCall_registry]
      obtain ⟨-, rfl⟩ | ⟨-, hnone, hname, rfl⟩ := hwrote.create_cases
      · exact Or.inl hsame
      · rw [Registry.find?_add]
        split
        · rename_i hid
          rw [hid, hnone] at he
          cases he
        · exact Or.inl hsame
  | @delete i projectId ownerId name q answer R' hcall hwrote =>
      obtain ⟨-, rfl⟩ | ⟨-, howned, -, rfl⟩ := hwrote.delete_cases
      · exact Or.inl hsame
      · rw [Registry.find?_remove]
        split
        · subst id
          obtain ⟨e', he', howner⟩ := howned
          obtain rfl := Option.some.inj (he.symm.trans he')
          subst howner
          exact Or.inr ⟨i, name, answer, List.mem_singleton_self _⟩
        · exact Or.inl hsame
  | begin hcall hproject hwrote => exact Or.inl (hmove hwrote)
  | recording hcall hproject hwrote => exact Or.inl (hmove hwrote)
  | invoke | quiet | provision | warn | ret | abandon => exact Or.inl hsame

theorem LifecycleRun.kept (hrun : LifecycleRun svc s tr s') {e : Entry}
    (he : s.registry.find? id = some e) :
    (∃ e', s'.registry.find? id = some e' ∧ SameIdentity e.project e'.project) ∨
      DeleteSent tr id e.project.ownerId := by
  induction hrun with
  | nil => exact Or.inl ⟨e, he, .refl _⟩
  | snoc hrun hstep ih =>
      obtain ⟨e₁, he₁, hsame⟩ | hsent := ih
      · obtain ⟨e₂, he₂, hsame'⟩ | hsent := hstep.kept he₁
        · exact Or.inl ⟨e₂, he₂, hsame.trans hsame'⟩
        · rw [hsame.ownerId] at hsent
          exact Or.inr (hsent.append_right _)
      · exact Or.inr (hsent.append_left _)

/-- A project whose `create` was answered as applied is stored until its owner deletes it. -/
theorem LifecycleRun.created (hrun : LifecycleRun svc Lifecycle.initial tr s) {i : Nat}
    {p : Project} (hcreated : .exec i (.create p) (.transactWriteItems (createActions p))
      (.ok ()) ∈ tr) :
    (∃ e, s.registry.find? p.projectId = some e ∧ SameIdentity p e.project) ∨
      DeleteSent tr p.projectId p.ownerId := by
  obtain ⟨before, after, mid, next, rfl, hbefore, hstep, hafter⟩ := hrun.at_mem hcreated
  have hstored : next.registry.find? p.projectId = some { project := p } := by
    generalize hl : (.exec i (.create p) (.transactWriteItems (createActions p)) (.ok ()) :
      SystemLabel) = l at hstep
    cases hstep with
    | quiet hcall hop => cases hop <;> cases hl
    | create hp hcall hwrote =>
        injection hl with _ hc _ hanswer
        obtain rfl := Call.create.inj hc
        obtain ⟨hquiet, -⟩ | ⟨-, hnone, hname, rfl⟩ := hwrote.create_cases
        · exact absurd hanswer.symm hquiet
        · rw [Lifecycle.setCall_registry, Registry.find?_add, if_pos rfl]
    | delete | begin | recording | invoke | provision | warn | ret | abandon => cases hl
  obtain hkept | hsent := LifecycleRun.kept hafter hstored
  · exact Or.inl hkept
  · have hlater := (hsent.append_right [.exec i (.create p)
      (.transactWriteItems (createActions p)) (.ok ())]).append_right before
    exact Or.inr (by simpa using hlater)

/-- A project whose `delete` was answered as applied is gone for good. -/
theorem LifecycleRun.deleted (hrun : LifecycleRun svc Lifecycle.initial tr s)
    (hfresh : FreshIds tr) {i : Nat} {ownerId name : String}
    (hdeleted : .exec i (.delete id ownerId)
      (.transactWriteItems (deleteActions id name ownerId)) (.ok ()) ∈ tr) :
    s.registry.find? id = none := by
  obtain ⟨before, after, mid, next, rfl, hbefore, hstep, hafter⟩ := hrun.at_mem hdeleted
  have hfresh' : FreshIds (before ++ [.exec i (.delete id ownerId)
      (.transactWriteItems (deleteActions id name ownerId)) (.ok ())] ++ after) := by
    simpa using hfresh
  obtain ⟨st, hst⟩ := LifecycleRun.exists_inStage hbefore hfresh.of_append_left id
  obtain ⟨st', hst', hleads⟩ := hst.step hfresh'.of_append_left hstep
  -- the step strikes a project that was stored, so its id is used up
  have hstruck : st.Born ∧ next.registry.find? id = none := by
    generalize hl : (.exec i (.delete id ownerId)
      (.transactWriteItems (deleteActions id name ownerId)) (.ok ()) : SystemLabel) = l at hstep
    cases hstep with
    | quiet hcall hop => cases hop <;> cases hl
    | delete hcall hwrote =>
        injection hl with _ hc _ hanswer
        obtain ⟨rfl, rfl⟩ := Call.delete.inj hc
        obtain ⟨hquiet, -⟩ | ⟨-, ⟨e, he, -⟩, -, rfl⟩ := hwrote.delete_cases
        · exact absurd hanswer.symm hquiet
        · refine ⟨hst.born he, ?_⟩
          show (mid.registry.remove id).find? id = none
          rw [Registry.find?_remove, if_pos rfl]
    | create | begin | recording | invoke | provision | warn | ret | abandon => cases hl
  obtain ⟨hborn, hnone⟩ := hstruck
  cases he : s.registry.find? id with
  | none => rfl
  | some e =>
      obtain ⟨e₁, he₁, -⟩ :=
        LifecycleRun.status_path hst' (hleads.born hborn) hafter hfresh' he
      rw [hnone] at he₁
      cases he₁

end Stored

/-! ## Calls run alone -/

section Alone

variable [CaseTables] [DatetimeParser]

/-- A read run alone, as a run of the system. -/
theorem Represents.run_get {R : Projects} {t : Table} (h : Represents R t) (svc : Service)
    (id : String) : ∃ tr, SystemRun svc (World.idle t) (.invoke 0 (.get id) :: tr)
      (World.idle t) ∧ NoCalls tr ∧ .ret 0 (.get id) ((R.getResult id).map .project) ∈ tr := by
  refine Run.of_eval (M := system svc) (w := World.idle t) (c := .get id) 0 rfl
    (eval_map_iff.mpr ⟨_, ?_, rfl⟩)
  rw [ProjectRepository.get_eq, ← h.getValue_eq]
  exact .call (.getItem _) (.done _ _)

end Alone

/-! ## Sessions -/

section Sessions

variable [CaseTables] [DatetimeParser] {svc : Service} {tr tr₁ tr₂ : List SystemLabel}
  {w w₁ w₂ : SystemWorld}

/-- A `create` that has returned was answered as applied. -/
theorem SystemRun.create_applied (hrun : SystemRun svc (World.idle ∅) tr w) {i : Nat} {p : Project}
    {value : Value} (hret : .ret i (.create p) (.ok value) ∈ tr) :
    .exec i (.create p) (.transactWriteItems (createActions p)) (.ok ()) ∈ tr := by
  obtain ⟨last, hends, hmem⟩ := Run.ret_last_of_idle (C := fun _ => True)
    (fun c _ => c.last) (fun _ _ _ => trivial) hrun hret
  exact hmem _ (hends ⟨value, rfl⟩)

theorem SystemRun.delete_applied (hrun : SystemRun svc (World.idle ∅) tr w) {i : Nat}
    {id ownerId : String} {value : Value} (hret : .ret i (.delete id ownerId) (.ok value) ∈ tr) :
    ∃ name, .exec i (.delete id ownerId)
      (.transactWriteItems (deleteActions id name ownerId)) (.ok ()) ∈ tr := by
  obtain ⟨last, hends, hmem⟩ := Run.ret_last_of_idle (C := fun _ => True)
    (fun c _ => c.last) (fun _ _ _ => trivial) hrun hret
  obtain ⟨name, hlast⟩ := hends ⟨value, rfl⟩
  exact ⟨name, hmem _ hlast⟩

/-- What a `get` returns was stored at some moment of the call, or the read failed. -/
theorem SystemRun.get_read (hrun₁ : SystemRun svc (World.idle ∅) tr₁ w₁)
    (hrun₂ : SystemRun svc w₁ tr₂ w₂) {j : Nat} {id : String} {r : Result}
    (hfree : w₁.threads j = none) (hret : .ret j (.get id) r ∈ tr₂) :
    (∃ e, r = .error (.clientError e)) ∨ ∃ before after mid, tr₂ = before ++ after ∧
      SystemRun svc w₁ before mid ∧
      r = (ProjectRepository.getValue id (.ok (mid.store.lookup (recordKey id)))).map
        .project := by
  obtain ⟨last, ⟨answer, rfl, rfl⟩, hmem⟩ := Run.ret_last (C := fun _ => True) (fun c _ => c.last)
    (fun _ _ _ => trivial) hrun₁ hrun₂ hfree hret
  obtain ⟨before, after, mid, next, rfl, hbefore, hstep, -⟩ := hrun₂.at_mem (hmem _ rfl)
  cases hstep with
  | exec hthread hexec =>
      cases hexec with
      | getItem => exact Or.inr ⟨before, _, mid, rfl, hbefore, rfl⟩
      | getItemFault => exact Or.inl ⟨_, rfl⟩

omit [CaseTables] in
theorem Stores.getValue_eq {t : Table} {id : String} {q : Project} (h : Stores t id q) :
    ProjectRepository.getValue id (.ok (t.lookup (recordKey id))) = .ok q := by
  obtain ⟨item, hitem, hread⟩ := h
  have hne : item ≠ ∅ := by
    rintro rfl
    cases hread
  rw [hitem, ProjectRepository.getValue, if_neg hne, hread]

/-- A project whose `create` has returned is stored, and read by every later `get` that is
answered, until its owner deletes it. -/
theorem acknowledged_create_kept (hrun₁ : SystemRun svc (World.idle ∅) tr₁ w₁)
    (hrun₂ : SystemRun svc w₁ tr₂ w₂) (hcalls : CallsIn Call.Ordinary (tr₁ ++ tr₂)) {i : Nat}
    {p : Project} {value : Value} (hack : .ret i (.create p) (.ok value) ∈ tr₁) :
    DeleteSent (tr₁ ++ tr₂) p.projectId p.ownerId ∨
      (∃ q, Stores w₂.store p.projectId q ∧ SameIdentity p q) ∧
      ∀ j r, w₁.threads j = none → .ret j (.get p.projectId) r ∈ tr₂ →
        (∃ q, r = .ok (.project q) ∧ SameIdentity p q) ∨ ∃ e, r = .error (.clientError e) := by
  have happlied := hrun₁.create_applied hack
  by_cases hsent : DeleteSent (tr₁ ++ tr₂) p.projectId p.ownerId
  · exact Or.inl hsent
  -- at any moment after the answer the project is stored
  have hstored : ∀ before after mid, tr₂ = before ++ after → SystemRun svc w₁ before mid →
      ∃ q, Stores mid.store p.projectId q ∧ SameIdentity p q := by
    rintro before after mid rfl hbefore
    rw [← List.append_assoc] at hcalls hsent
    obtain ⟨s, hlife, hencodes⟩ := SystemRun.lifecycle Lifecycle.encodes_initial
      hcalls.of_append_left (hrun₁.append hbefore)
    obtain ⟨e, he, hsame⟩ | hearly :=
      LifecycleRun.created hlife (List.mem_append_left _ happlied)
    · exact ⟨e.project, hencodes.represents.stores_iff.mpr ⟨e, he, rfl⟩, hsame⟩
    · exact absurd (hearly.append_left after) hsent
  refine Or.inr ⟨hstored tr₂ [] w₂ (by simp) hrun₂, fun j r hfree hret => ?_⟩
  obtain hfailed | ⟨before, after, mid, htr, hbefore, rfl⟩ := hrun₁.get_read hrun₂ hfree hret
  · exact Or.inr hfailed
  · obtain ⟨q, hq, hsame⟩ := hstored before after mid htr hbefore
    refine Or.inl ⟨q, ?_, hsame⟩
    rw [hq.getValue_eq]
    rfl

/-- A project whose `delete` has returned never comes back, and no later `get` finds it. -/
theorem acknowledged_delete_final (hrun₁ : SystemRun svc (World.idle ∅) tr₁ w₁)
    (hrun₂ : SystemRun svc w₁ tr₂ w₂) (hcalls : CallsIn Call.Ordinary (tr₁ ++ tr₂))
    (hfresh : FreshIds (tr₁ ++ tr₂)) {i : Nat} {id ownerId : String} {value : Value}
    (hack : .ret i (.delete id ownerId) (.ok value) ∈ tr₁) :
    w₂.store.lookup (recordKey id) = none ∧
      ∀ j r, w₁.threads j = none → .ret j (.get id) r ∈ tr₂ →
        r = .error (.projectNotFound id) ∨ ∃ e, r = .error (.clientError e) := by
  obtain ⟨name, happlied⟩ := hrun₁.delete_applied hack
  have hgone : ∀ before after mid, tr₂ = before ++ after → SystemRun svc w₁ before mid →
      mid.store.lookup (recordKey id) = none := by
    rintro before after mid rfl hbefore
    rw [← List.append_assoc] at hcalls hfresh
    obtain ⟨s, hlife, hencodes⟩ := SystemRun.lifecycle Lifecycle.encodes_initial
      hcalls.of_append_left (hrun₁.append hbefore)
    rw [hencodes.represents.record,
      LifecycleRun.deleted hlife hfresh.of_append_left (List.mem_append_left _ happlied)]
    rfl
  refine ⟨hgone tr₂ [] w₂ (by simp) hrun₂, fun j r hfree hret => ?_⟩
  obtain hfailed | ⟨before, after, mid, htr, hbefore, rfl⟩ := hrun₁.get_read hrun₂ hfree hret
  · exact Or.inr hfailed
  · rw [hgone before after mid htr hbefore]
    exact Or.inl rfl

end Sessions

section Instance

open scoped Sample

/-- The sample project created alone. -/
theorem sample_created (svc : Service) :
    ∃ t R, SystemRun svc (World.idle ∅) (createRun sampleProject) (World.idle t) ∧
      Represents R t ∧ R.find? sampleProject.projectId = some { project := sampleProject } := by
  obtain ⟨t, hrun, hrep⟩ := Represents.empty.run_create svc (p := sampleProject)
    (Registry.not_taken_empty _) rfl
  exact ⟨t, _, hrun, hrep, by rw [Registry.find?_add, if_pos rfl]⟩

/-- The sample project is created, and stays stored while it is read. -/
theorem acknowledged_create_kept_on_read :
    ∃ tr w, SystemRun (Service.reference stubProvision) (World.idle ∅)
        (createRun sampleProject ++ tr) w ∧
      (DeleteSent (createRun sampleProject ++ tr) sampleProject.projectId sampleProject.ownerId ∨
        ∃ q, Stores w.store sampleProject.projectId q ∧ SameIdentity sampleProject q) := by
  obtain ⟨t, R, hrun, hrep, -⟩ := sample_created (Service.reference stubProvision)
  obtain ⟨tr, hread, hcalls, -⟩ := hrep.run_get (Service.reference stubProvision)
    sampleProject.projectId
  have hack : .ret 0 (.create sampleProject) (.ok (.project sampleProject)) ∈
      createRun sampleProject := by simp [createRun, soloLabels]
  have hkept := acknowledged_create_kept hrun hread
    ((callsIn_createRun rfl).append (CallsIn.cons trivial (hcalls.callsIn _))) hack
  exact ⟨_, _, hrun.append hread, hkept.imp_right And.left⟩

/-- The sample project is created, deleted and then read. -/
theorem acknowledged_delete_final_on_read :
    ∃ tr₁ tr₂ w, SystemRun (Service.reference stubProvision) (World.idle ∅) (tr₁ ++ tr₂) w ∧
      w.store.lookup (recordKey sampleProject.projectId) = none := by
  obtain ⟨t, R, hrun, hrep, hstored⟩ := sample_created (Service.reference stubProvision)
  obtain ⟨tr, t', hdelete, hcalls, hret, hrep'⟩ :=
    hrep.run_delete (Service.reference stubProvision) hstored
  obtain ⟨tr', hread, hcalls', -⟩ := hrep'.run_get (Service.reference stubProvision)
    sampleProject.projectId
  have hfirst := (callsIn_createRun (p := sampleProject) rfl).append
    (CallsIn.cons (c := .delete sampleProject.projectId sampleProject.ownerId) (i := 0)
      (C := Call.Ordinary) trivial (hcalls.callsIn _))
  have hthen := CallsIn.cons (c := .get sampleProject.projectId) (i := 0) (C := Call.Ordinary)
    trivial (hcalls'.callsIn _)
  have hfresh : FreshIds ((createRun sampleProject ++ .invoke 0
      (.delete sampleProject.projectId sampleProject.ownerId) :: tr) ++
        .invoke 0 (.get sampleProject.projectId) :: tr') := by
    rw [FreshIds, createdIds_append, createdIds_append, createdIds_createRun]
    change (([sampleProject.projectId] ++ createdIds tr) ++ createdIds tr').Nodup
    rw [createdIds_of_noCalls hcalls, createdIds_of_noCalls hcalls']
    exact List.nodup_singleton _
  have hfinal := acknowledged_delete_final (hrun.append hdelete) hread (hfirst.append hthen)
    hfresh (List.mem_append_right _ (List.mem_cons_of_mem _ hret))
  exact ⟨_, _, _, (hrun.append hdelete).append hread, hfinal.1⟩

end Instance

end ProjectsApi
