import ProjectsApi.Foundation.Replay
import ProjectsApi.Provisioner.Delivery
import ProjectsApi.Service.Query

/-!
# Replayed streams

The record handler as a consumer of stream records, run on them one after another
without faults.  Each record of a new project concerns the item of that project alone
and acts on it once, so the order of the records and their repetition do not matter.
-/

namespace ProjectsApi

open Foundation Dynamo Program

/-! ## Records that begin no project -/

/-- The handler on a record without a project to begin: it logs, or raises. -/
theorem recordHandler_of_project?_none {record : StreamRecord} (h : record.project? = none) :
    (∃ entry, recordHandler record = .call (.log entry) fun _ => .done (.ok ())) ∨
      ∃ exn, recordHandler record = .done (.error exn) := by
  unfold recordHandler
  unfold StreamRecord.project? at h
  split_ifs at h ⊢
  · exact Or.inl ⟨_, rfl⟩
  · cases himage : record.newImage with
    | none => exact Or.inl ⟨_, rfl⟩
    | some image =>
        simp only [himage] at h ⊢
        split_ifs at h ⊢
        · exact Or.inl ⟨_, rfl⟩
        · exact Or.inl ⟨_, rfl⟩
        · exact Or.inl ⟨_, rfl⟩
        · right
          unfold imageProject? at h
          unfold handleProject
          cases hid : imageText image "projectId" with
          | error exn => exact ⟨exn, rfl⟩
          | ok projectId =>
              cases htype : imageText image "type" with
              | error exn => exact ⟨exn, rfl⟩
              | ok typeText =>
                  cases hvalue : ProjectType.ofValue? typeText with
                  | none => exact ⟨.valueError typeText, by dsimp only; rw [hvalue]; rfl⟩
                  | some type => simp [hid, htype, hvalue] at h

section Consumer

variable [CaseTables] {svc : Service}

/-- One record processed by the handler, whatever it ends with. -/
def Processes (svc : Service) (t : Table) (record : StreamRecord) (t' : Table) : Prop :=
  ∃ result, Eval svc.Exec t (recordHandler record) result t'

/-- Records processed one after another. -/
abbrev Processing (svc : Service) : Table → List StreamRecord → Table → Prop :=
  Run (Processes svc)

/-- A record with a project to begin is the INSERT of a new project as `create` writes it. -/
def FromCreate (record : StreamRecord) : Prop :=
  record.project? ≠ none → ∃ p, p.status = .created ∧ record = insertRecord p

/-- The item a record is about. -/
def StreamRecord.cell (record : StreamRecord) : Option Key := record.project?.map recordKey

/-- An item that `begin` moves. -/
def BeginReady (item? : Option Item) : Prop :=
  ∃ item, item? = some item ∧ item.lookup "status" = some (.S ProjectStatus.created.value)

/-- A record of a new project takes the item of the project to its outcome. -/
def Delivered (svc : Service) (record : StreamRecord) (before after : Option Item) : Prop :=
  ∃ p item outcome now now', p.status = .created ∧ record = insertRecord p ∧ before = some item ∧
    svc.provision p.provisionRequest outcome ∧
    after = some (outcome.recording.applyItem p.projectId now'
      (Transition.begin.applyItem p.projectId now item))

omit [CaseTables] in
/-- A record without a project leaves the table alone. -/
theorem Processes.eq_of_project?_none {record : StreamRecord} {t t' : Table}
    (hstep : Processes svc t record t') (h : record.project? = none) : t' = t := by
  obtain ⟨result, heval⟩ := hstep
  obtain ⟨entry, hprogram⟩ | ⟨exn, hprogram⟩ := recordHandler_of_project?_none h
  · rw [hprogram] at heval
    obtain ⟨_, t₁, hlog, hdone⟩ := eval_call_iff.mp heval
    obtain rfl := Service.Exec.eq_of_not_writes id hlog
    exact (eval_done_iff.mp hdone).2
  · rw [hprogram] at heval
    exact (eval_done_iff.mp heval).2

theorem cell_insertRecord {p : Project} (hp : p.status = .created) :
    (insertRecord p).cell = some (recordKey p.projectId) := by
  rw [StreamRecord.cell, project?_insertRecord hp]
  rfl

theorem FromCreate.cases {record : StreamRecord} (h : FromCreate record) :
    record.project? = none ∨ ∃ p, p.status = .created ∧ record = insertRecord p ∧
      record.cell = some (recordKey p.projectId) := by
  by_cases hnone : record.project? = none
  · exact Or.inl hnone
  · obtain ⟨p, hp, rfl⟩ := h hnone
    exact Or.inr ⟨p, hp, rfl, cell_insertRecord hp⟩

/-- The handler on the records of a create stream is a consumer of the table's items. -/
theorem recordHandler_consumer (hsvc : svc.Faultless) :
    Consumer (Processes svc) FromCreate (fun (t : Table) key => t.lookup key)
      StreamRecord.cell BeginReady (Delivered svc) where
  ext t t' h := Finmap.ext_lookup h
  frame t record t' key hvalid hstep hcell := by
    obtain hnone | ⟨p, hp, rfl, hkey⟩ := hvalid.cases
    · rw [hstep.eq_of_project?_none hnone]
    · obtain ⟨result, heval⟩ := hstep
      obtain ⟨-, ⟨item, outcome, now, now', -, -, -, rfl⟩ | ⟨-, rfl⟩⟩ :=
        eval_deliver_cases hsvc hp heval
      · have hne : key ≠ recordKey p.projectId := fun heq => hcell (heq ▸ hkey)
        exact Finmap.lookup_insert_of_ne _ hne
      · rfl
  idle t record t' key hvalid hstep hcell hready := by
    obtain hnone | ⟨p, hp, rfl, hkey⟩ := hvalid.cases
    · rw [hstep.eq_of_project?_none hnone]
    · obtain ⟨result, heval⟩ := hstep
      obtain rfl := Option.some.inj (hkey.symm.trans hcell)
      obtain ⟨-, ⟨item, outcome, now, now', hitem, hstatus, -, -⟩ | ⟨-, rfl⟩⟩ :=
        eval_deliver_cases hsvc hp heval
      · exact absurd ⟨item, hitem, hstatus⟩ hready
      · rfl
  advance t record t' key hvalid hstep hcell hready := by
    obtain hnone | ⟨p, hp, rfl, hkey⟩ := hvalid.cases
    · rw [StreamRecord.cell, hnone] at hcell
      cases hcell
    · obtain ⟨result, heval⟩ := hstep
      obtain rfl := Option.some.inj (hkey.symm.trans hcell)
      obtain ⟨-, ⟨item, outcome, now, now', hitem, -, houtcome, rfl⟩ | ⟨hnot, -⟩⟩ :=
        eval_deliver_cases hsvc hp heval
      · exact ⟨p, item, outcome, now, now', hp, rfl, hitem, houtcome, Finmap.lookup_insert t⟩
      · exact absurd hready hnot
  spent record before after heffect := by
    obtain ⟨p, item, outcome, now, now', -, -, -, -, rfl⟩ := heffect
    intro hready
    obtain ⟨item', hitem', hstatus⟩ := hready
    obtain rfl := Option.some.inj hitem'
    rw [Transition.applyItem_status] at hstatus
    cases outcome <;>
      simp [ProvisionOutcome.recording, Transition.target, ProjectStatus.value] at hstatus

/-- Every record can be processed on every table. -/
theorem exists_processes (record : StreamRecord) (hvalid : FromCreate record)
    (hprovision : ∀ request, ∃ outcome, svc.provision request outcome) (t : Table) :
    ∃ t', Processes svc t record t' := by
  obtain hnone | ⟨p, hp, rfl, -⟩ := hvalid.cases
  · obtain ⟨entry, hprogram⟩ | ⟨exn, hprogram⟩ := recordHandler_of_project?_none hnone
    · refine ⟨t, .ok (), ?_⟩
      rw [hprogram]
      exact .call (.log _) (.done _ _)
    · refine ⟨t, .error exn, ?_⟩
      rw [hprogram]
      exact .done _ _
  · by_cases hstatus : InStatusAt t p.projectId .created
    · obtain ⟨item, hitem, hin⟩ := hstatus
      obtain ⟨outcome, houtcome⟩ := hprovision p.provisionRequest
      exact ⟨_, _, eval_deliver hp hitem hin houtcome sampleTime sampleTime⟩
    · exact ⟨_, _, eval_deliver_skip hp hstatus sampleTime⟩

theorem exists_processing (records : List StreamRecord)
    (hvalid : ∀ record ∈ records, FromCreate record)
    (hprovision : ∀ request, ∃ outcome, svc.provision request outcome) (t : Table) :
    ∃ t', Processing svc t records t' := by
  induction records generalizing t with
  | nil => exact ⟨t, Run.nil⟩
  | cons record records ih =>
      obtain ⟨t₁, hstep⟩ := exists_processes record (hvalid record (by simp)) hprovision t
      obtain ⟨t₂, hrun⟩ := ih (fun r hr => hvalid r (by simp [hr])) t₁
      exact ⟨t₂, Run.cons hstep hrun⟩

/-! ## Order and repetition -/

/-- A stream of creates: the records with a project to begin are INSERT records as `create`
writes them, one image for each project.  All other records may occur anywhere. -/
structure CreateStream (records : List StreamRecord) : Prop where
  fromCreate : ∀ record ∈ records, FromCreate record
  oneImage : ∀ p p', insertRecord p ∈ records → insertRecord p' ∈ records →
    p.projectId = p'.projectId → projectItem p = projectItem p'

/-- An item without its `updatedAt`. -/
def withoutUpdatedAt (item? : Option Item) : Option Item := item?.map (Finmap.erase "updatedAt")

omit [CaseTables] in
/-- The time of a transition is visible in `updatedAt` only. -/
theorem Transition.erase_applyItem (tr : Transition) (projectId : String) (now now' : Datetime)
    {item item' : Item} (hitem : item.erase "updatedAt" = item'.erase "updatedAt") :
    (tr.applyItem projectId now item).erase "updatedAt" =
      (tr.applyItem projectId now' item').erase "updatedAt" := by
  refine Finmap.ext_lookup fun name => ?_
  have hname := congrArg (Finmap.lookup name) hitem
  rw [lookup_erase_eq, lookup_erase_eq] at hname ⊢
  by_cases hupdated : name = "updatedAt"
  · rw [if_pos hupdated, if_pos hupdated]
  · rw [if_neg hupdated, if_neg hupdated] at hname ⊢
    rw [tr.lookup_applyItem, tr.lookup_applyItem, hname]
    congr 1
    have hbeq : (name == "updatedAt") = false := by simpa using hupdated
    simp [transitionSets, List.lookup_cons, hbeq]

/-- What two records of one project make of its item differs in `updatedAt` only. -/
theorem Delivered.agree {outcome : ProvisionRequest → ProvisionOutcome}
    (hprovision : ∀ request o, svc.provision request o ↔ o = outcome request)
    {records : List StreamRecord} (hstream : CreateStream records) {record record' : StreamRecord}
    (hmem : record ∈ records) (hmem' : record' ∈ records) {key : Key}
    (hcell : record.cell = some key) (hcell' : record'.cell = some key)
    {before after after' : Option Item} (h : Delivered svc record before after)
    (h' : Delivered svc record' before after') :
    withoutUpdatedAt after = withoutUpdatedAt after' := by
  obtain ⟨p, item, o, now₁, now₂, hp, rfl, rfl, houtcome, rfl⟩ := h
  obtain ⟨p', item', o', now₁', now₂', hp', rfl, hitem, houtcome', rfl⟩ := h'
  obtain rfl := Option.some.inj hitem
  have hids : p.projectId = p'.projectId := by
    rw [cell_insertRecord hp] at hcell
    rw [cell_insertRecord hp', ← hcell] at hcell'
    exact (recordKey_inj.mp (Option.some.inj hcell')).symm
  have hrequest : p.provisionRequest = p'.provisionRequest :=
    provisionRequest_eq_of_projectItem_eq (hstream.oneImage p p' hmem hmem' hids)
  rw [hprovision] at houtcome houtcome'
  obtain rfl : o = o' := by rw [houtcome, houtcome', hrequest]
  rw [← hids]
  exact congrArg some (Transition.erase_applyItem _ _ _ _ (Transition.erase_applyItem _ _ _ _ rfl))

/-- Replay and order independence of the record handler. -/
theorem replay_order_independent (hsvc : svc.Faultless)
    {outcome : ProvisionRequest → ProvisionOutcome}
    (hprovision : ∀ request o, svc.provision request o ↔ o = outcome request)
    {records : List StreamRecord} (hstream : CreateStream records) (t : Table) :
    (∃ t₁, Processing svc t records t₁) ∧
    ∀ t₁, Processing svc t records t₁ →
      (∀ records' t₂, (∀ record, record ∈ records ↔ record ∈ records') →
        Processing svc t records' t₂ →
        ∀ key, withoutUpdatedAt (t₁.lookup key) = withoutUpdatedAt (t₂.lookup key)) ∧
      ∀ more t₂, (∀ record ∈ more, record ∈ records) → Processing svc t₁ more t₂ → t₂ = t₁ := by
  have hconsumer := recordHandler_consumer hsvc
  refine ⟨exists_processing records hstream.fromCreate
    (fun request => ⟨_, (hprovision request _).mpr rfl⟩) t, fun t₁ hrun => ⟨?_, ?_⟩⟩
  · intro records' t₂ hrecords hrun' key
    refine hconsumer.order_independent (fun a b => withoutUpdatedAt a = withoutUpdatedAt b)
      (fun _ => rfl) ?_ hstream.fromCreate hrecords hrun hrun' key
    intro record record' key before after after' hmem hmem' hcell hcell' h h'
    exact h.agree hprovision hstream hmem hmem' hcell hcell' h'
  · exact fun more t₂ hmore hrun' => hconsumer.replay hstream.fromCreate hmore hrun hrun'

end Consumer

section Instance

open scoped Sample

/-- Two creates, a modification and a repetition, from a table with one of the projects. -/
theorem replay_of_sample_stream :
    ∃ t₁, Processing (Service.reference stubProvision)
        (Finmap.singleton (recordKey sampleProject.projectId) (projectItem sampleProject))
        [insertRecord sampleProject, ⟨some "MODIFY", some (projectItem sampleProject)⟩,
          insertRecord rivalProject, insertRecord sampleProject] t₁ ∧
      ∀ t₂, Processing (Service.reference stubProvision) t₁
        [insertRecord rivalProject, insertRecord sampleProject] t₂ → t₂ = t₁ := by
  have hstream : CreateStream [insertRecord sampleProject,
      ⟨some "MODIFY", some (projectItem sampleProject)⟩, insertRecord rivalProject,
      insertRecord sampleProject] := by
    constructor
    · intro record hrecord
      simp only [List.mem_cons, List.not_mem_nil, or_false] at hrecord
      obtain rfl | rfl | rfl | rfl := hrecord
      · exact fun _ => ⟨sampleProject, rfl, rfl⟩
      · exact fun hproject => absurd rfl hproject
      · exact fun _ => ⟨rivalProject, rfl, rfl⟩
      · exact fun _ => ⟨sampleProject, rfl, rfl⟩
    · -- Each record is the one of the project whose id it bears.
      have himage : ∀ p, insertRecord p ∈ [insertRecord sampleProject,
          ⟨some "MODIFY", some (projectItem sampleProject)⟩, insertRecord rivalProject,
          insertRecord sampleProject] →
          projectItem p = projectItem sampleProject ∧ p.projectId = sampleProject.projectId ∨
            projectItem p = projectItem rivalProject ∧ p.projectId = rivalProject.projectId := by
        intro p hp
        simp only [List.mem_cons, List.not_mem_nil, or_false] at hp
        have hsample : insertRecord p = insertRecord sampleProject →
            projectItem p = projectItem sampleProject ∧ p.projectId = sampleProject.projectId := by
          intro h
          have hitem := Option.some.inj (congrArg StreamRecord.newImage h)
          exact ⟨hitem, congrArg ProvisionRequest.projectId
            (provisionRequest_eq_of_projectItem_eq hitem)⟩
        obtain h | h | h | h := hp
        · exact Or.inl (hsample h)
        · exact absurd (Option.some.inj (congrArg StreamRecord.eventName h)) (by decide)
        · have hitem := Option.some.inj (congrArg StreamRecord.newImage h)
          exact Or.inr ⟨hitem, congrArg ProvisionRequest.projectId
            (provisionRequest_eq_of_projectItem_eq hitem)⟩
        · exact Or.inl (hsample h)
      have hne : sampleProject.projectId ≠ rivalProject.projectId := by decide
      intro p p' hp hp' hids
      obtain ⟨hitem, hid⟩ | ⟨hitem, hid⟩ := himage p hp
      · obtain ⟨hitem', -⟩ | ⟨-, hid'⟩ := himage p' hp'
        · rw [hitem, hitem']
        · exact absurd (hid.symm.trans (hids.trans hid')) hne
      · obtain ⟨-, hid'⟩ | ⟨hitem', -⟩ := himage p' hp'
        · exact absurd (hid'.symm.trans (hids.symm.trans hid)) hne
        · rw [hitem, hitem']
  obtain ⟨⟨t₁, hrun⟩, hsame⟩ := replay_order_independent (Service.reference_faultless stubProvision)
    (fun request o => Iff.rfl) hstream
    (Finmap.singleton (recordKey sampleProject.projectId) (projectItem sampleProject))
  exact ⟨t₁, hrun, fun t₂ hmore => (hsame t₁ hrun).2 _ t₂ (by simp) hmore⟩

end Instance

end ProjectsApi
