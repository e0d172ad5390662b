import ProjectsApi.Stream.Records

/-!
# What the stream asks for

The writes of the whole system put many records on the stream: those of new projects and of
their reservations, of transitions and of deletes.  Only the first have a project to begin, so
the provisioner never feeds itself: in every run the records with work are those of the creates
that were written, one for each project.
-/

namespace ProjectsApi

open Foundation Dynamo Program

section Stream

variable [CaseTables]

/-! ## One step -/

section Step

variable {svc : Service} {tr : List SystemLabel} {s s' : Lifecycle} {l : SystemLabel} {id : String}

/-- What a step writes newly is the project of a `create`. -/
theorem LifecycleStep.inserted (hstep : LifecycleStep svc s l s')
    (hnone : s.registry.find? id = none) {e : Entry} (he : s'.registry.find? id = some e) :
    ∃ i p answer, p.status = .created ∧ p.projectId = id ∧ e = { project := p } ∧
      s.calls i = some (.create p, .creating) ∧ Took svc.transactFault answer ∧
      l = .exec i (.create p) (.transactWriteItems (createActions p)) answer := by
  have habsurd : s.registry.find? id ≠ some e := by simp [hnone]
  -- a transition keeps a missing record missing
  have hmove : ∀ {tr : Transition} {projectId : String} {now : Datetime} {answer} {R' : Projects},
      Wrote svc.updateFault s.registry (s.registry.transition tr projectId now) answer R' →
        R'.find? id ≠ some e := by
    intro tr projectId now answer R' hwrote he
    obtain ⟨e₀, he₀, -⟩ := hwrote.status he
    rw [hnone] at he₀
    cases he₀
  cases hstep with
  | @create i p answer R' hp hcall hwrote =>
      rw [Lifecycle.setCall_registry] at he
      obtain ⟨-, rfl⟩ | ⟨htook, -, hname, rfl⟩ := hwrote.create_cases
      · exact absurd he habsurd
      · rw [Registry.find?_add] at he
        split at he
        · subst id
          exact ⟨i, p, answer, hp, rfl, (Option.some.inj he).symm, hcall, htook, rfl⟩
        · exact absurd he habsurd
  | delete hcall hwrote =>
      obtain ⟨-, rfl⟩ | ⟨-, -, -, rfl⟩ := hwrote.delete_cases
      · exact absurd he habsurd
      · rw [Registry.find?_remove] at he
        split at he
        · cases he
        · exact absurd he habsurd
  | begin hcall hproject hwrote => exact absurd he (hmove hwrote)
  | recording hcall hproject hwrote => exact absurd he (hmove hwrote)
  | invoke | quiet | provision | warn | ret | abandon => exact absurd he habsurd

omit [CaseTables] in
theorem ne_of_key {t t' : Table} {key : Key} (h : t.lookup key = none) {item : Item}
    (h' : t'.lookup key = some item) : t.lookup key ≠ t'.lookup key := by
  rw [h, h']
  exact (Option.some_ne_none item).symm

/-- A record with a project to begin is that of a project that is stored anew. -/
theorem Represents.inserted_of_changeRecord {R R' : Projects} {t t' : Table}
    (hrep : Represents R t) (hrep' : Represents R' t') {key : Key} {record : StreamRecord}
    (hrecord : changeRecord (t.lookup key) (t'.lookup key) = some record)
    (hproject : record.project? = some id) :
    ∃ storedId e, key = recordKey storedId ∧ R.find? storedId = none ∧
      R'.find? storedId = some e ∧ record = ⟨some "INSERT", some (recordItem e)⟩ := by
  obtain ⟨item, hbefore, hafter, rfl⟩ := changeRecord_eq_some hrecord hproject
  have hentity := entity_of_project? hproject
  rcases hrep'.keys key item hafter with ⟨storedId, rfl⟩ | ⟨name, rfl⟩
  · obtain ⟨e, he, rfl⟩ := hrep'.record_eq_some.mp hafter
    rw [hrep.record, Option.map_eq_none_iff] at hbefore
    exact ⟨storedId, e, rfl, hbefore, he, rfl⟩
  · -- the entity of a reservation is another one
    obtain ⟨_, e, -, -, rfl⟩ := (hrep'.reservation name item).mp hafter
    simp [reservationItem, Item.lookup_ofList, List.lookup_cons] at hentity

end Step

/-! ## The stream of a run -/

/-- The projects that the stream has asked for, in order. -/
def requested (stream : List StreamRecord) : List String := stream.filterMap StreamRecord.project?

omit [CaseTables] in
theorem mem_requested {stream : List StreamRecord} {id : String} :
    id ∈ requested stream ↔ ∃ record ∈ stream, record.project? = some id := by
  rw [requested, List.mem_filterMap]

/-- The record is that of a `create` of the history that took effect. -/
def FromWrite (svc : Service) (tr : List SystemLabel) (record : StreamRecord) : Prop :=
  ∃ i p answer, p.status = .created ∧ record = insertRecord p ∧ Took svc.transactFault answer ∧
    .exec i (.create p) (.transactWriteItems (createActions p)) answer ∈ tr

/-- The stream agrees with the history and the lifecycle. -/
structure Streams (svc : Service) (tr : List SystemLabel) (s : Lifecycle)
    (stream : List StreamRecord) : Prop where
  /-- Every record with work is that of a `create`. -/
  origin : ∀ record ∈ stream, record.project? ≠ none → FromWrite svc tr record
  /-- Its project has been written, perhaps deleted since. -/
  born : ∀ id ∈ requested stream, ∃ st, InStage tr s id st ∧ st.Born
  /-- No project is asked for twice. -/
  once : (requested stream).Nodup
  /-- Every stored project has been asked for. -/
  complete : ∀ id e, s.registry.find? id = some e → id ∈ requested stream

omit [CaseTables] in
theorem requested_append (stream records : List StreamRecord) :
    requested (stream ++ records) = requested stream ++ requested records :=
  List.filterMap_append

section Run

variable {svc : Service} {tr : List SystemLabel} {s s' : Lifecycle} {l : SystemLabel}
  {stream records : List StreamRecord} {t t' : Table}

theorem FromWrite.append {tr' : List SystemLabel} {record : StreamRecord}
    (h : FromWrite svc tr record) : FromWrite svc (tr ++ tr') record := by
  obtain ⟨i, p, answer, hp, hrecord, htook, hmem⟩ := h
  exact ⟨i, p, answer, hp, hrecord, htook, List.mem_append_left _ hmem⟩

theorem Streams.initial : Streams svc [] Lifecycle.initial [] where
  origin record hrecord := absurd hrecord List.not_mem_nil
  born id hid := absurd hid List.not_mem_nil
  once := List.nodup_nil
  complete id e he := by cases he

/-- What one step publishes and the handler would begin. -/
theorem LifecycleStep.published (hstep : LifecycleStep svc s l s')
    (hrep : Represents s.registry t) (hrep' : Represents s'.registry t') {key : Key}
    {record : StreamRecord} (hrecord : changeRecord (t.lookup key) (t'.lookup key) = some record)
    {id : String} (hproject : record.project? = some id) :
    ∃ i p answer, p.status = .created ∧ p.projectId = id ∧ key = recordKey id ∧
      record = insertRecord p ∧ s.calls i = some (.create p, .creating) ∧
      s'.registry.find? id = some { project := p } ∧ Took svc.transactFault answer ∧
      l = .exec i (.create p) (.transactWriteItems (createActions p)) answer := by
  obtain ⟨storedId, e, rfl, hnone, he, rfl⟩ := hrep.inserted_of_changeRecord hrep' hrecord hproject
  obtain ⟨i, p, answer, hp, rfl, rfl, hcall, htook, hl⟩ := hstep.inserted hnone he
  rw [recordItem_of_project] at hproject ⊢
  obtain rfl := Option.some.inj ((project?_insertRecord hp).symm.trans hproject)
  exact ⟨i, p, answer, hp, rfl, rfl, rfl, hcall, he, htook, hl⟩

/-- One step publishes at most one record for each project. -/
theorem LifecycleStep.requested_nodup (hstep : LifecycleStep svc s l s')
    (hrep : Represents s.registry t) (hrep' : Represents s'.registry t')
    (hrecords : Publishes changeRecord (fun key => t.lookup key) (fun key => t'.lookup key)
      records) : (requested records).Nodup := by
  refine hrecords.nodup_tags ?_
  intro key key' record record' id hchange hchange' hproject hproject'
  obtain ⟨_, _, _, -, -, hkey, -⟩ := hstep.published hrep hrep' hchange hproject
  obtain ⟨_, _, _, -, -, hkey', -⟩ := hstep.published hrep hrep' hchange' hproject'
  rw [hkey, hkey']

/-- A project whose `create` is about to be written has not been asked for. -/
theorem Streams.not_requested (h : Streams svc tr s stream) {i : Nat} {p : Project}
    (hcall : s.calls i = some (.create p, .creating)) : p.projectId ∉ requested stream := by
  intro hmem
  obtain ⟨st, hst, hborn⟩ := h.born _ hmem
  have hrole : st.role i = some .creating := by
    rw [← hst.role, Lifecycle.role, hcall]
    simp [roleIn]
  rw [Stage.eq_of_role_creating hrole] at hborn
  exact hborn

/-- The rule for one step. -/
theorem Streams.step (h : Streams svc tr s stream) (hfresh : FreshIds (tr ++ [l]))
    (hstages : ∀ id, ∃ st, InStage tr s id st) (hstep : LifecycleStep svc s l s')
    (hrep : Represents s.registry t) (hrep' : Represents s'.registry t')
    (hrecords : Publishes changeRecord (fun key => t.lookup key) (fun key => t'.lookup key)
      records) : Streams svc (tr ++ [l]) s' (stream ++ records) where
  origin record hmem hproject := by
    rcases List.mem_append.mp hmem with hold | hnew
    · exact (h.origin record hold hproject).append
    · obtain ⟨id, hid⟩ := Option.ne_none_iff_exists'.mp hproject
      obtain ⟨key, hkey⟩ := hrecords.exists_key hnew
      obtain ⟨i, p, answer, hp, -, -, hrecord, -, -, htook, rfl⟩ :=
        hstep.published hrep hrep' hkey hid
      exact ⟨i, p, answer, hp, hrecord, htook,
        List.mem_append_right _ (List.mem_singleton_self _)⟩
  born id hid := by
    rw [requested_append, List.mem_append] at hid
    rcases hid with hold | hnew
    · obtain ⟨st, hst, hborn⟩ := h.born id hold
      obtain ⟨st', hst', hleads⟩ := hst.step hfresh hstep
      exact ⟨st', hst', hleads.born hborn⟩
    · obtain ⟨record, hrecord, hproject⟩ := mem_requested.mp hnew
      obtain ⟨key, hkey⟩ := hrecords.exists_key hrecord
      obtain ⟨i, p, answer, -, -, -, -, -, hstored, -⟩ := hstep.published hrep hrep' hkey hproject
      obtain ⟨st, hst⟩ := hstages id
      obtain ⟨st', hst', -⟩ := hst.step hfresh hstep
      exact ⟨st', hst', hst'.born hstored⟩
  once := by
    rw [requested_append, List.nodup_append]
    refine ⟨h.once, hstep.requested_nodup hrep hrep' hrecords, ?_⟩
    rintro id hold _ hnew rfl
    obtain ⟨record, hrecord, hproject⟩ := mem_requested.mp hnew
    obtain ⟨key, hkey⟩ := hrecords.exists_key hrecord
    obtain ⟨i, p, answer, -, rfl, -, -, hcall, -⟩ := hstep.published hrep hrep' hkey hproject
    exact h.not_requested hcall hold
  complete id e he := by
    rw [requested_append, List.mem_append]
    cases hbefore : s.registry.find? id with
    | some e₀ => exact Or.inl (h.complete id e₀ hbefore)
    | none =>
        right
        obtain ⟨i, p, answer, hp, rfl, rfl, -⟩ := hstep.inserted hbefore he
        -- the key of the record is new in the table
        have hnone : t.lookup (recordKey p.projectId) = none := by rw [hrep.record, hbefore]; rfl
        have hsome : t'.lookup (recordKey p.projectId) = some (projectItem p) := by
          rw [hrep'.record, he, Option.map_some, recordItem_of_project]
        refine mem_requested.mpr ⟨insertRecord p, ?_, project?_insertRecord hp⟩
        exact hrecords.mem (ne_of_key hnone hsome) (by rw [hnone, hsome]; rfl)

variable [DatetimeParser]

/-- The stream of every run agrees with its lifecycle. -/
theorem StreamRun.streams {s : StreamState} (hrun : StreamRun svc .initial tr s)
    (hcalls : CallsIn Call.Ordinary tr) (hfresh : FreshIds tr) :
    ∃ life, LifecycleRun svc Lifecycle.initial tr life ∧ life.Encodes s.1 ∧
      Streams svc tr life s.2 := by
  induction hrun with
  | nil => exact ⟨_, .nil, Lifecycle.encodes_initial, .initial⟩
  | @snoc tr mid s' l hrun hstep ih =>
      obtain ⟨life, hlife, hencodes, hstreams⟩ := ih hcalls.of_append_left hfresh.of_append_left
      obtain ⟨hworld, records, hrecords, hfeed⟩ := hstep
      obtain ⟨life', hstep', hencodes'⟩ := hencodes.step
        (fun i c hl => hcalls i c (by simp [hl])) hworld
      refine ⟨life', .snoc hlife hstep', hencodes', ?_⟩
      rw [hfeed]
      exact hstreams.step hfresh
        (LifecycleRun.exists_inStage hlife hfresh.of_append_left) hstep' hencodes.represents
        hencodes'.represents hrecords

/-- In every run the stream asks for exactly the projects that were ever written, once each,
with the record of the `create` that wrote it. -/
theorem stream_asks_for_creates {s : StreamState} (hrun : StreamRun svc .initial tr s)
    (hcalls : CallsIn Call.Ordinary tr) (hfresh : FreshIds tr) :
    (∀ record ∈ s.2, record.project? ≠ none → FromWrite svc tr record) ∧
    (requested s.2).Nodup ∧
    ∀ tr₁ tr₂ s₁, tr = tr₁ ++ tr₂ → StreamRun svc .initial tr₁ s₁ → StreamRun svc s₁ tr₂ s →
      ∀ id, s₁.1.store.lookup (recordKey id) ≠ none → id ∈ requested s.2 := by
  obtain ⟨life, hlife, hencodes, hstreams⟩ := hrun.streams hcalls hfresh
  refine ⟨hstreams.origin, hstreams.once, ?_⟩
  intro tr₁ tr₂ s₁ htr hrun₁ hrun₂ id hstored
  subst htr
  -- the record is on the stream at the moment the project is stored, and stays there
  obtain ⟨life₁, -, hencodes₁, hstreams₁⟩ :=
    hrun₁.streams hcalls.of_append_left hfresh.of_append_left
  rw [hencodes₁.represents.record, ne_eq, Option.map_eq_none_iff] at hstored
  obtain ⟨e, he⟩ := Option.ne_none_iff_exists'.mp hstored
  obtain ⟨record, hrecord, hproject⟩ := mem_requested.mp (hstreams₁.complete id e he)
  exact mem_requested.mpr ⟨record, FeedStep.mem_feed hrun₂ hrecord, hproject⟩

end Run

end Stream

section Instance

open scoped Sample

/-- The sample project, created and delivered. -/
theorem stream_of_sample_delivery :
    ∃ tr s, StreamRun (Service.reference stubProvision) .initial tr s ∧
      sampleProject.projectId ∈ requested s.2 ∧ (requested s.2).Nodup := by
  obtain ⟨tr, w, hrun, hcalls, hfresh, hitem⟩ := sample_delivery stubProvision
  obtain ⟨stream, hstream⟩ := hrun.exists_streamRun []
  obtain ⟨-, honce, hcomplete⟩ := stream_asks_for_creates hstream hcalls hfresh
  refine ⟨tr, (w, stream), hstream, ?_, honce⟩
  exact hcomplete tr [] _ (by simp) hstream .nil _ (by rw [hitem]; simp)

end Instance

end ProjectsApi
