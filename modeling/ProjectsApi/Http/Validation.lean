import ProjectsApi.Http.Application

/-!
# Validation problems

A request whose arguments are rejected is answered with one entry per error.  An entry names its
property by the parts of the location without the word `body`: that is the path of the property
unless one of its parts is the word itself (`validation_fields_iff`).
-/

namespace ProjectsApi.Http

open Foundation Foundation.Json Dynamo

/-! ## Paths -/

/-- The dotted path of a property. -/
def fieldPath (path : List LocPart) : String := ".".intercalate (path.map LocPart.str)

/-- The parts of a location that the handler keeps. -/
def withoutBody (loc : List LocPart) : List LocPart := loc.filter fun p => p ≠ .name "body"

/-- `field` of an entry. -/
def entryField : Json → Option Json
  | .object members => members.lookup (codePoints "field")
  | _ => none

theorem toList_fieldPath (path : List LocPart) :
    (fieldPath path).toList = joinWords '.' (path.map fun p => p.str.toList) := by
  rw [fieldPath, String.toList_intercalate, List.map_map]
  rfl

theorem withoutBody_eq_self_iff {path : List LocPart} :
    withoutBody path = path ↔ LocPart.name "body" ∉ path := by
  rw [withoutBody, List.filter_eq_self]
  constructor
  · intro h hmem
    simpa using h _ hmem
  · intro h p hp
    refine decide_eq_true ?_
    rintro rfl
    exact h hp

/-- The kept parts are the path only if all parts are kept. -/
theorem fieldPath_withoutBody_eq_iff {path : List LocPart} :
    fieldPath (withoutBody path) = fieldPath path ↔ LocPart.name "body" ∉ path := by
  rw [← withoutBody_eq_self_iff]
  constructor
  · intro h
    have hjoin := congrArg String.toList h
    rw [toList_fieldPath, toList_fieldPath] at hjoin
    have hsub : (withoutBody path).Sublist path := List.filter_sublist
    obtain heq | ⟨hnone, hempty⟩ := eq_of_joinWords_eq (hsub.map _) hjoin
    · exact hsub.eq_of_length (by simpa using congrArg List.length heq)
    · -- the one part is the empty text, which is kept
      obtain ⟨p, rfl, hp⟩ := List.map_eq_singleton_iff.mp hempty
      refine absurd (List.map_eq_nil_iff.mp hnone) ?_
      have hkept : p ≠ .name "body" := by
        rintro rfl
        exact absurd hp (by decide)
      simp [withoutBody, hkept]
  · intro h
    rw [h]

/-- A position is written with digits. -/
theorem LocPart.str_index_ne_body (position : Int) : (LocPart.index position).str ≠ "body" := by
  have hchars : ∀ c ∈ position.repr.toList, c = '-' ∨ c.isDigit = true := by
    intro c hc
    rw [Int.repr_eq_if] at hc
    split_ifs at hc
    · rw [Nat.toList_repr] at hc
      exact Or.inr (Nat.isDigit_of_mem_toDigits (by decide) (by decide) hc)
    · rw [String.toList_append, Nat.toList_repr] at hc
      rcases List.mem_append.mp hc with hc | hc
      · exact Or.inl (List.mem_singleton.mp hc)
      · exact Or.inr (Nat.isDigit_of_mem_toDigits (by decide) (by decide) hc)
  intro h
  change position.repr = "body" at h
  rw [h] at hchars
  exact absurd (hchars 'b' (by decide)) (by decide)

/-- A dot is no part of a single word, so only the part `body` alone reads `body`. -/
theorem fieldPath_withoutBody_ne_body (loc : List LocPart) :
    fieldPath (withoutBody loc) ≠ "body" := by
  intro h
  have hjoin := congrArg String.toList h
  rw [toList_fieldPath, joinWords_eq_iff (by decide) (by decide)] at hjoin
  obtain ⟨p, hloc, hp⟩ := List.map_eq_singleton_iff.mp hjoin
  have hmem : p ∈ withoutBody loc := by
    rw [hloc]
    exact List.mem_singleton_self p
  have hkept : p ≠ .name "body" := by simpa using (List.mem_filter.mp hmem).2
  cases p with
  | name text => exact hkept (congrArg LocPart.name (String.toList_inj.mp hp))
  | index position => exact LocPart.str_index_ne_body position (String.toList_inj.mp hp)

/-! ## The response -/

/-- The entries of a 400 response. -/
def HasEntries (sent : List Message) (entries : List Json) : Prop :=
  ∃ headers members, sent = [.start 400 headers, .body (.problem members)] ∧
    members.lookup (codePoints "errors") = some (.array entries)

/-- A 400 response has one entry for each path, in order, whose field is the path. -/
def NamesFields (paths : List (List LocPart)) (sent : List Message) : Prop :=
  ∃ entries, HasEntries sent entries ∧
    entries.map entryField = paths.map fun path => some (.string (codePoints (fieldPath path)))

/-- Some entry of a 400 response has this field. -/
def NamesProperty (key : String) (sent : List Message) : Prop :=
  ∃ entries, HasEntries sent entries ∧
    ∃ entry ∈ entries, entryField entry = some (.string (codePoints key))

section Response

variable {path : String} {errors : List FieldError} {rid : RequestId}

/-- There is one entry for each error. -/
theorem hasEntries_iff {entries : List Json} :
    HasEntries (validationResponse path errors rid).messages entries ↔
      entries = errors.map fieldProblem := by
  constructor
  · intro h
    obtain ⟨headers, members, hsent, hlookup⟩ := h
    obtain ⟨-, hrest⟩ := List.cons.inj hsent
    obtain rfl := Content.problem.inj (Message.body.inj (List.cons.inj hrest).1)
    exact (Json.array.inj (Option.some.inj hlookup)).symm
  · rintro rfl
    exact ⟨_, _, rfl, rfl⟩

variable {paths : List (List LocPart)}
  (hloc : errors.map FieldError.loc = paths.map (LocPart.name "body" :: ·))

include hloc

/-- The fields of the entries, in terms of the paths. -/
theorem map_entryField_fieldProblem :
    (errors.map fieldProblem).map entryField =
      paths.map fun path => some (.string (codePoints (fieldPath (withoutBody path)))) := by
  have hfields : ∀ locs : List (List LocPart),
      locs.map (fun loc => some (Json.string (codePoints (fieldPath (withoutBody loc))))) =
        (locs.map withoutBody).map fun loc => some (.string (codePoints (fieldPath loc))) := by
    intro locs
    rw [List.map_map]
    rfl
  calc (errors.map fieldProblem).map entryField
      = (errors.map FieldError.loc).map fun loc =>
          some (.string (codePoints (fieldPath (withoutBody loc)))) := by
        rw [List.map_map, List.map_map]
        rfl
    _ = paths.map fun path => some (.string (codePoints (fieldPath (withoutBody path)))) := by
        rw [hloc, List.map_map]
        rfl

theorem namesFields_iff :
    NamesFields paths (validationResponse path errors rid).messages ↔
      ∀ path ∈ paths, LocPart.name "body" ∉ path := by
  have hfields : NamesFields paths (validationResponse path errors rid).messages ↔
      (errors.map fieldProblem).map entryField =
        paths.map fun path => some (.string (codePoints (fieldPath path))) := by
    constructor
    · intro h
      obtain ⟨entries, hentries, heq⟩ := h
      rwa [hasEntries_iff.mp hentries] at heq
    · intro h
      exact ⟨_, hasEntries_iff.mpr rfl, h⟩
  rw [hfields, map_entryField_fieldProblem hloc, List.map_inj_left]
  simp only [Option.some.injEq, Json.string.injEq, codePoints_inj, fieldPath_withoutBody_eq_iff]

theorem namesProperty_iff {key : String} (hkey : [LocPart.name key] ∈ paths) :
    NamesProperty key (validationResponse path errors rid).messages ↔ key ≠ "body" := by
  have hmem : NamesProperty key (validationResponse path errors rid).messages ↔
      some (.string (codePoints key)) ∈ (errors.map fieldProblem).map entryField := by
    rw [List.mem_map]
    constructor
    · intro h
      obtain ⟨entries, hentries, entry, hentry, heq⟩ := h
      rw [hasEntries_iff.mp hentries] at hentry
      exact ⟨entry, hentry, heq⟩
    · intro h
      obtain ⟨entry, hentry, heq⟩ := h
      exact ⟨_, hasEntries_iff.mpr rfl, entry, hentry, heq⟩
  rw [hmem, map_entryField_fieldProblem hloc, List.mem_map]
  constructor
  · intro h
    obtain ⟨loc, -, hfield⟩ := h
    rintro rfl
    refine fieldPath_withoutBody_ne_body loc (codePoints_injective ?_)
    exact Json.string.inj (Option.some.inj hfield)
  · intro hne
    refine ⟨_, hkey, ?_⟩
    have hkept : withoutBody [LocPart.name key] = [.name key] := by
      rw [withoutBody_eq_self_iff]
      simpa using hne.symm
    rw [hkept, fieldPath, List.map_singleton, String.intercalate_singleton]
    rfl

end Response

/-! ## Runs of rejected requests -/

section Runs

variable [CaseTables] [DatetimeParser] {F : Framework} {isLocal : Bool} {svc : Service}
  {scope : Scope} {w w' : World} {ops : List ((op : AsgiOp) × op.Ans)}

/-- A run whose arguments are rejected ends with the exception. -/
theorem router_rejected {result : Except Raised Response} {endpoint : Endpoint}
    {rejection : Rejection} (h : (router F isLocal scope).Traced (Exec svc scope) w ops result w')
    (hbind : ⟨.bind endpoint, .error rejection⟩ ∈ ops) :
    result = .error (rejection.raised isLocal scope endpoint) := by
  unfold router at h
  cases hrouting : F.routing isLocal scope.method scope.path with
  | methodNotAllowed | notFound =>
      -- no arguments are read
      rw [hrouting] at h
      obtain ⟨rfl, -, -⟩ := Program.traced_done_iff.mp h
      cases hbind
  | redirect =>
      rw [hrouting] at h
      dsimp only at h
      cases hurl : F.redirectUrl scope <;>
        · rw [hurl] at h
          obtain ⟨rfl, -, -⟩ := Program.traced_done_iff.mp h
          cases hbind
  | endpoint endpoint' =>
      rw [hrouting] at h
      simp only [callEndpoint, Program.perform_bind] at h
      obtain ⟨bound, w₁, rest, rfl, -, hrest⟩ := Program.traced_call_iff.mp h
      cases bound with
      | error rejection' =>
          obtain ⟨rfl, rfl, -⟩ := Program.traced_done_iff.mp hrest
          cases List.mem_singleton.mp hbind
          rfl
      | ok arguments =>
          -- the arguments were accepted, and they are read once
          rcases List.mem_cons.mp hbind with heq | hbind
          · cases heq
          · refine absurd hbind ?_
            have hunbound : ∀ x ∈ rest, x.1.Unbound := by
              refine Program.AllOps.of_traced ?_ hrest
              have hrun : (endpoint'.run F isLocal scope arguments).AllOps AsgiOp.Unbound :=
                run_allOps (fun _ _ => trivial) F isLocal scope endpoint' arguments
              refine hrun.bind fun ended => ?_
              cases ended with
              | error raised => trivial
              | ok response =>
                  refine ⟨trivial, fun proceeded => ?_⟩
                  cases proceeded <;> trivial
            exact hunbound _

/-- What the framework raises in a run: the errors of rejected arguments. -/
def Rejected (isLocal : Bool) (scope : Scope) (ops : List ((op : AsgiOp) × op.Ans))
    (errors : List FieldError) : Prop :=
  ∃ endpoint rejection, ⟨.bind endpoint, .error rejection⟩ ∈ ops ∧
    rejection.raised isLocal scope endpoint = .validation errors

variable [RequestUrl]

/-- The client gets the problem of the rejected arguments, if the URL can be read. -/
theorem sent_rejected (hhttp : scope.type = .http) {t : Table} {result : Except Raised Unit}
    {errors : List FieldError}
    (h : (createApp F isLocal scope).Traced (Exec svc scope) (World.fresh t) ops result w)
    (hrejected : Rejected isLocal scope ops errors) :
    (∃ path rid, scope.urlPath = .ok path ∧
        w.sent = (validationResponse path errors rid).messages) ∨
      (¬ scope.HasUrl ∧ w.sent = []) := by
  obtain ⟨endpoint, rejection, hbind, hraised⟩ := hrejected
  obtain ⟨routed, rid, w₁, w₂, first, hanswers, hrouter, hbinds⟩ := traced_createApp hhttp h
  obtain rfl := router_rejected hrouter (hbinds _ _ hbind)
  rw [hraised] at hanswers
  exact hanswers

/-- Each property of a create request other than `name` and `type` is reported with its name as
the path. -/
def ForbidsExtra (keys : List String) (paths : List (List LocPart)) : Prop :=
  ∀ key ∈ keys, key ≠ "name" → key ≠ "type" → [LocPart.name key] ∈ paths

/-- The entries name the properties exactly as far as `body` is no part of a path.  There is a
response if the URL can be read. -/
theorem validation_fields_iff (hhttp : scope.type = .http) {t : Table}
    {result : Except Raised Unit} {errors : List FieldError}
    (h : (createApp F isLocal scope).Traced (Exec svc scope) (World.fresh t) ops result w)
    (hrejected : Rejected isLocal scope ops errors) {paths : List (List LocPart)}
    (hloc : errors.map FieldError.loc = paths.map (LocPart.name "body" :: ·))
    {keys : List String} (hforbid : ForbidsExtra keys paths) :
    (scope.HasUrl →
      (NamesFields paths w.sent ↔ ∀ path ∈ paths, LocPart.name "body" ∉ path) ∧
        ∀ key ∈ keys, key ≠ "name" → key ≠ "type" →
          (NamesProperty key w.sent ↔ key ≠ "body")) ∧
      (¬ scope.HasUrl → w.sent = []) := by
  obtain ⟨path, rid, hurl, hsent⟩ | ⟨hurl, hsent⟩ := sent_rejected hhttp h hrejected
  · refine ⟨fun _ => ?_, fun hnot => absurd ⟨path, hurl⟩ hnot⟩
    rw [hsent]
    refine ⟨namesFields_iff hloc, ?_⟩
    intro key hkey hname htype
    exact namesProperty_iff hloc (hforbid key hkey hname htype)
  · exact ⟨fun h => absurd h hurl, fun _ => hsent⟩

end Runs

/-! ## Two create requests -/

section Instance

open scoped Sample

/-- `POST /v1/projects` -/
def postScope : Scope :=
  { localScope with method := "POST", path := "/v1/projects", identityHeader := some "key-alice" }

/-- The error of a further property. -/
def extraForbidden (key : String) : FieldError :=
  ⟨[.name "body", .name key], "Extra inputs are not permitted"⟩

/-- A create request with one further property. -/
theorem exists_run_extraForbidden (key : String) :
    ∃ ops w, (createApp framework true postScope).Traced (Exec idleService postScope)
        (World.fresh ∅) ops (.ok ()) w ∧ Rejected true postScope ops [extraForbidden key] := by
  have hrouting : framework.routing true postScope.method postScope.path =
      .endpoint .createProject := by decide +kernel
  have hrun : ∃ ops w, (createApp framework true postScope).Traced (Exec idleService postScope)
      (World.fresh ∅) ops (.ok ()) w ∧
        ⟨.bind .createProject, .error (.invalid [extraForbidden key])⟩ ∈ ops := by
    rw [createApp, routes, router, hrouting]
    exact ⟨_, _, .call (.requestId (Uuid4.repeated 'a' (by decide)))
      (.call (.bind .createProject (.error (.invalid [extraForbidden key])))
        (.call (.requestId (Uuid4.repeated 'a' (by decide))) (.call (.send _) (.call (.send _)
          (.call (.route none) (.call (.effect (.log _)) (.done _ _))))))),
      List.mem_cons_of_mem _ List.mem_cons_self⟩
  obtain ⟨ops, w, hrun, hbind⟩ := hrun
  exact ⟨ops, w, hrun, .createProject, _, hbind, rfl⟩

theorem validation_fields_extra :
    ∃ ops w, (createApp framework true postScope).Traced (Exec idleService postScope)
        (World.fresh ∅) ops (.ok ()) w ∧
      NamesFields [[.name "extra"]] w.sent ∧ NamesProperty "extra" w.sent := by
  obtain ⟨ops, w, hrun, hrejected⟩ := exists_run_extraForbidden "extra"
  have hloc : [extraForbidden "extra"].map FieldError.loc =
      [[LocPart.name "extra"]].map (LocPart.name "body" :: ·) := rfl
  have hforbid : ForbidsExtra ["name", "type", "extra"] [[.name "extra"]] := by
    simp [ForbidsExtra]
  obtain ⟨hfields, hproperty⟩ :=
    (validation_fields_iff rfl hrun hrejected hloc hforbid).1 ⟨_, rfl⟩
  exact ⟨ops, w, hrun, hfields.mpr (by decide), (hproperty "extra" (by decide) (by decide)
    (by decide)).mpr (by decide)⟩

/-- A further property with the name `body` gets an entry without a name. -/
theorem body_property_unnamed :
    ∃ ops w, (createApp framework true postScope).Traced (Exec idleService postScope)
        (World.fresh ∅) ops (.ok ()) w ∧
      Rejected true postScope ops [extraForbidden "body"] ∧ NamesProperty "" w.sent ∧
      ¬ NamesFields [[.name "body"]] w.sent ∧ ¬ NamesProperty "body" w.sent := by
  obtain ⟨ops, w, hrun, hrejected⟩ := exists_run_extraForbidden "body"
  obtain ⟨path, rid, -, hsent⟩ | ⟨hurl, -⟩ := sent_rejected rfl hrun hrejected
  swap
  · exact absurd ⟨_, rfl⟩ hurl
  have hloc : [extraForbidden "body"].map FieldError.loc =
      [[LocPart.name "body"]].map (LocPart.name "body" :: ·) := rfl
  refine ⟨ops, w, hrun, hrejected, ?_, ?_, ?_⟩
  · rw [hsent]
    exact ⟨_, hasEntries_iff.mpr rfl, _, List.mem_singleton_self _, rfl⟩
  · rw [hsent, namesFields_iff hloc]
    simp
  · rw [hsent, namesProperty_iff hloc (by simp)]
    simp

end Instance

end ProjectsApi.Http
