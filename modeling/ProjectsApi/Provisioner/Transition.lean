import ProjectsApi.Provisioner.Handler

/-!
# What a status transition does to an item

The update built by `_transition` is accepted by the service, tests the status and
sets the status, the timestamp and the extra attributes, whatever the number of
extras.  The three transitions of the provisioner are then named.
-/

namespace ProjectsApi

open Foundation Dynamo

/-! ## Placeholders -/

private theorem numbered_injective (stem : String) :
    Function.Injective fun i : Nat => stem ++ toString i := by
  intro i j h
  have hlists := congrArg String.toList h
  simp only [String.toList_append] at hlists
  have hdigits : Nat.toDigits 10 i = Nat.toDigits 10 j := by
    simpa [Nat.toString_eq_ofList_toDigits] using List.append_cancel_left hlists
  calc
    i = Nat.ofDigitChars 10 (Nat.toDigits 10 i) 0 := Nat.ofDigitChars_ten_toDigits.symm
    _ = Nat.ofDigitChars 10 (Nat.toDigits 10 j) 0 := by rw [hdigits]
    _ = j := Nat.ofDigitChars_ten_toDigits

private theorem append_ne_of_second {stem other : String} {a b c : Char} {l : List Char}
    (hstem : stem.toList = [a, b]) (hother : other.toList = a :: c :: l) (hbc : b ≠ c)
    (text : String) : stem ++ text ≠ other := by
  intro h
  have hlists := congrArg String.toList h
  rw [String.toList_append, hstem, hother] at hlists
  simp only [List.cons_append, List.cons.injEq] at hlists
  exact hbc hlists.2.1

section Request

variable (projectId : String) (expected target : ProjectStatus)
  (extra : List (String × AttributeValue)) (now : Datetime)

/-- The extra attributes in the order of their placeholders. -/
def sortedExtra : List (String × AttributeValue) :=
  extra.insertionSort fun a b => a.1 ≤ b.1

/-- The attributes a transition sets, in the order it sets them. -/
def transitionSets : List (String × AttributeValue) :=
  [("status", .S target.value), ("updatedAt", .S now.isoformat)] ++ sortedExtra extra

/-- The extras of a transition: distinct attributes, none of them set anyway. -/
structure ExtraAttributes : Prop where
  nodup : (extra.map Prod.fst).Nodup
  status : "status" ∉ extra.map Prod.fst
  updatedAt : "updatedAt" ∉ extra.map Prod.fst

theorem sortedExtra_perm : (sortedExtra extra).Perm extra :=
  List.perm_insertionSort _ _

theorem transitionSets_nodup (hextra : ExtraAttributes extra) :
    ((transitionSets target extra now).map Prod.fst).Nodup := by
  have hperm := (sortedExtra_perm extra).map Prod.fst
  have hstatus : "status" ∉ (sortedExtra extra).map Prod.fst :=
    fun h => hextra.status (hperm.mem_iff.mp h)
  have hupdated : "updatedAt" ∉ (sortedExtra extra).map Prod.fst :=
    fun h => hextra.updatedAt (hperm.mem_iff.mp h)
  simp only [transitionSets, List.cons_append, List.nil_append, List.map_cons, List.nodup_cons,
    List.mem_cons, not_or]
  exact ⟨⟨by decide, hstatus⟩, hupdated, hperm.nodup_iff.mpr hextra.nodup⟩

/-- The numbered extras. -/
private def numbered : List ((String × AttributeValue) × Nat) :=
  (sortedExtra extra).zipIdx

private theorem numbered_snd : (numbered extra).map Prod.snd = List.range extra.length := by
  rw [numbered, List.zipIdx_map_snd, sortedExtra, List.length_insertionSort, List.range_eq_range']

private theorem map_numbered {γ : Type} (f : Nat → γ) :
    (numbered extra).map (fun x => f x.2) = (List.range extra.length).map f := by
  rw [← numbered_snd extra, List.map_map]
  rfl

/-- The aliases of a transition. -/
theorem transitionRequest_aliases :
    (transitionRequest projectId expected target extra now).attributes.names.map Prod.fst =
      ["#s", "#u"] ++ (List.range extra.length).map fun i => "#x" ++ toString i := by
  rw [← map_numbered extra, transitionRequest, List.map_append, List.map_map]
  rfl

/-- The value placeholders of a transition. -/
theorem transitionRequest_placeholders :
    (transitionRequest projectId expected target extra now).attributes.values.map Prod.fst =
      [":expected", ":target", ":now"] ++
        (List.range extra.length).map fun i => ":x" ++ toString i := by
  rw [← map_numbered extra, transitionRequest, List.map_append, List.map_map]
  rfl

theorem transitionRequest_paths :
    (transitionRequest projectId expected target extra now).updates.map Prod.fst =
      ["#s", "#u"] ++ (List.range extra.length).map fun i => "#x" ++ toString i := by
  rw [← map_numbered extra, transitionRequest, List.map_append, List.map_map]
  rfl

theorem transitionRequest_operands :
    (transitionRequest projectId expected target extra now).updates.map Prod.snd =
      [":target", ":now"] ++ (List.range extra.length).map fun i => ":x" ++ toString i := by
  rw [← map_numbered extra, transitionRequest, List.map_append, List.map_map]
  rfl

private theorem nodup_placeholders (stem : String) (n : Nat) :
    ((List.range n).map fun i => stem ++ toString i).Nodup :=
  List.nodup_range.map (numbered_injective stem)

theorem aliases_nodup (n : Nat) :
    (["#s", "#u"] ++ (List.range n).map fun i => "#x" ++ toString i).Nodup := by
  rw [List.nodup_append]
  refine ⟨by decide, nodup_placeholders _ _, ?_⟩
  intro a ha b hb
  obtain ⟨i, -, rfl⟩ := List.mem_map.mp hb
  simp only [List.mem_cons, List.not_mem_nil, or_false] at ha
  rcases ha with rfl | rfl
  · exact (append_ne_of_second (b := 'x') (c := 's') (l := []) rfl rfl (by decide) _).symm
  · exact (append_ne_of_second (b := 'x') (c := 'u') (l := []) rfl rfl (by decide) _).symm

theorem placeholders_nodup (n : Nat) :
    ([":expected", ":target", ":now"] ++
      (List.range n).map fun i => ":x" ++ toString i).Nodup := by
  rw [List.nodup_append]
  refine ⟨by decide, nodup_placeholders _ _, ?_⟩
  intro a ha b hb
  obtain ⟨i, -, rfl⟩ := List.mem_map.mp hb
  simp only [List.mem_cons, List.not_mem_nil, or_false] at ha
  rcases ha with rfl | rfl | rfl
  · exact (append_ne_of_second (b := 'x') (c := 'e') (l := "xpected".toList) rfl rfl
      (by decide) _).symm
  · exact (append_ne_of_second (b := 'x') (c := 't') (l := "arget".toList) rfl rfl
      (by decide) _).symm
  · exact (append_ne_of_second (b := 'x') (c := 'n') (l := "ow".toList) rfl rfl
      (by decide) _).symm

theorem isAlias_numbered (i : Nat) : isAlias ("#x" ++ toString i) = true := by
  rw [isAlias, String.toList_append]
  rfl

/-- Each assignment of the update sets the attribute it stands for. -/
theorem transitionRequest_assigns :
    List.Forall₂
      (fun update set =>
        (transitionRequest projectId expected target extra now).attributes.resolve update.1 =
            some set.1 ∧
          (transitionRequest projectId expected target extra now).attributes.values.lookup
            update.2 = some set.2)
      (transitionRequest projectId expected target extra now).updates
      (transitionSets target extra now) := by
  generalize hr : transitionRequest projectId expected target extra now = r
  have hnames : (r.attributes.names.map Prod.fst).Nodup := by
    rw [← hr, transitionRequest_aliases]
    exact aliases_nodup _
  have hvalues : (r.attributes.values.map Prod.fst).Nodup := by
    rw [← hr, transitionRequest_placeholders]
    exact placeholders_nodup _
  have hresolve : ∀ path name, isAlias path = true → (path, name) ∈ r.attributes.names →
      r.attributes.resolve path = some name := by
    intro path name halias hmem
    rw [ExpressionAttributes.resolve, if_pos halias]
    exact (lookup_eq_some_iff_mem hnames).mpr hmem
  have hvalue : ∀ operand value, (operand, value) ∈ r.attributes.values →
      r.attributes.values.lookup operand = some value :=
    fun operand value hmem => (lookup_eq_some_iff_mem hvalues).mpr hmem
  have hupdates : r.updates = [("#s", ":target"), ("#u", ":now")] ++
      (numbered extra).map fun x => ("#x" ++ toString x.2, ":x" ++ toString x.2) := by
    rw [← hr]
    rfl
  have hsets : transitionSets target extra now =
      [("status", .S target.value), ("updatedAt", .S now.isoformat)] ++
        (numbered extra).map Prod.fst := by
    rw [transitionSets, numbered, List.zipIdx_map_fst]
  rw [hupdates, hsets]
  simp only [List.cons_append, List.nil_append]
  -- the two assignments that are always there, then the numbered ones
  refine .cons ⟨hresolve _ _ rfl ?_, hvalue _ _ ?_⟩
    (.cons ⟨hresolve _ _ rfl ?_, hvalue _ _ ?_⟩ ?_)
  · simp [← hr, transitionRequest]
  · simp [← hr, transitionRequest]
  · simp [← hr, transitionRequest]
  · simp [← hr, transitionRequest]
  -- alias and placeholder of an extra carry the index of its value
  · rw [List.forall₂_map_left_iff, List.forall₂_map_right_iff, List.forall₂_same]
    intro x hx
    constructor
    · refine hresolve _ _ (isAlias_numbered _) ?_
      rw [← hr]
      exact List.mem_append_right _ (List.mem_map.mpr ⟨x, hx, rfl⟩)
    · refine hvalue _ _ ?_
      rw [← hr]
      exact List.mem_append_right _ (List.mem_map.mpr ⟨x, hx, rfl⟩)

/-- The aliases that the expressions use. -/
theorem transitionRequest_usedNames :
    (transitionRequest projectId expected target extra now).usedNames =
      (["#s", "#u"] ++ (List.range extra.length).map fun i => "#x" ++ toString i) ++ ["#s"] := by
  rw [← transitionRequest_paths projectId expected target extra now, UpdateItemRequest.usedNames]
  refine List.filter_eq_self.mpr ?_
  intro path hpath
  rw [transitionRequest_paths, List.mem_append, List.mem_append, List.mem_map] at hpath
  rcases hpath with (hpath | ⟨i, -, rfl⟩) | hpath
  · simp only [List.mem_cons, List.not_mem_nil, or_false] at hpath
    rcases hpath with rfl | rfl <;> rfl
  · exact isAlias_numbered i
  · obtain rfl := List.mem_singleton.mp hpath
    rfl

/-- The placeholders that the expressions use. -/
theorem transitionRequest_usedValues :
    (transitionRequest projectId expected target extra now).usedValues =
      ([":target", ":now"] ++ (List.range extra.length).map fun i => ":x" ++ toString i) ++
        [":expected"] := by
  rw [← transitionRequest_operands projectId expected target extra now]
  rfl

/-- The service accepts every transition. -/
theorem transitionRequest_wellFormed (hextra : ExtraAttributes extra) :
    (transitionRequest projectId expected target extra now).WellFormed := by
  have hassigns := transitionRequest_assigns projectId expected target extra now
  have hnames := transitionRequest_aliases projectId expected target extra now
  have hvalues := transitionRequest_placeholders projectId expected target extra now
  have husedNames := transitionRequest_usedNames projectId expected target extra now
  have husedValues := transitionRequest_usedValues projectId expected target extra now
  generalize transitionRequest projectId expected target extra now = r at *
  have htargets : r.updates.map (fun u => r.attributes.resolve u.1) =
      ((transitionSets target extra now).map Prod.fst).map some := by
    rw [List.map_map]
    exact List.forall₂_eq_eq_eq ▸ List.forall₂_map_left_iff.mpr
      (List.forall₂_map_right_iff.mpr (hassigns.imp fun _ _ h => h.1))
  constructor
  · rw [hnames]
    exact aliases_nodup _
  · rw [hvalues]
    exact placeholders_nodup _
  · -- every alias that is used is defined, and every one defined is used
    intro path hpath
    rw [husedNames] at hpath
    rw [hnames]
    simp only [List.mem_append, List.mem_cons, List.not_mem_nil, or_false] at hpath ⊢
    tauto
  · intro path hpath
    rw [hnames] at hpath
    rw [husedNames]
    exact List.mem_append_left _ hpath
  · -- and so with the placeholders
    intro operand hoperand
    rw [husedValues] at hoperand
    rw [hvalues]
    simp only [List.mem_append, List.mem_cons, List.not_mem_nil, or_false] at hoperand ⊢
    tauto
  · intro operand hoperand
    rw [hvalues] at hoperand
    rw [husedValues]
    simp only [List.mem_append, List.mem_cons, List.not_mem_nil, or_false] at hoperand ⊢
    tauto
  · -- no attribute is set twice
    rw [htargets]
    exact (transitionSets_nodup target extra now hextra).map (Option.some_injective _)

/-- The condition of a transition reads the status alone. -/
theorem transitionRequest_holds (stored : Option Item) :
    (transitionRequest projectId expected target extra now).condition.holds
        (transitionRequest projectId expected target extra now).attributes stored = true ↔
      ∃ item, stored = some item ∧ item.lookup "status" = some (.S expected.value) := by
  have halias : isAlias "#s" = true := by decide
  cases stored with
  | none =>
      simp [transitionRequest, Condition.holds, ExpressionAttributes.read,
        ExpressionAttributes.resolve, halias]
  | some item =>
      cases hstatus : item.lookup "status" <;>
        simp [transitionRequest, Condition.holds, ExpressionAttributes.read,
          ExpressionAttributes.resolve, halias, hstatus]

theorem transitionRequest_conditionHolds (t : Table) :
    (transitionRequest projectId expected target extra now).conditionHolds t = true ↔
      ∃ item, t.lookup (recordKey projectId) = some item ∧
        item.lookup "status" = some (.S expected.value) :=
  transitionRequest_holds projectId expected target extra now _

/-- What a transition leaves in the item. -/
theorem transitionRequest_apply (hextra : ExtraAttributes extra) (item : Item) (name : String) :
    ((transitionRequest projectId expected target extra now).apply (some item)).lookup name =
      ((transitionSets target extra now).lookup name).or (item.lookup name) := by
  have hassigns := transitionRequest_assigns projectId expected target extra now
  generalize transitionRequest projectId expected target extra now = r at *
  have hfold : ∀ item : Item, r.updates.foldl r.assign item =
      (transitionSets target extra now).foldl (fun m set => m.insert set.1 set.2) item := by
    generalize r.updates = updates, transitionSets target extra now = sets at hassigns
    induction hassigns with
    | nil => intro item; rfl
    | cons hset _ ih =>
        intro item
        rw [List.foldl_cons, List.foldl_cons, ih, UpdateItemRequest.assign, hset.1, hset.2]
  rw [UpdateItemRequest.apply, Option.getD_some, hfold,
    lookup_foldl_insert (transitionSets_nodup target extra now hextra)]

end Request

/-! ## The three transitions -/

/-- A transition of `ProjectStatusStore`. -/
inductive Transition where
  | begin
  | complete (result : ProvisionResult)
  | fail (reason : String)
  deriving DecidableEq

namespace Transition

def expected : Transition → ProjectStatus
  | begin => .created
  | complete _ => .provisioning
  | fail _ => .provisioning

def target : Transition → ProjectStatus
  | begin => .provisioning
  | complete _ => .ready
  | fail _ => .failed

def extra : Transition → List (String × AttributeValue)
  | begin => []
  | complete result => ProjectStatusStore.completeExtra result
  | fail reason => ProjectStatusStore.failExtra reason

/-- The conditional update of the transition. -/
def request (tr : Transition) (projectId : String) (now : Datetime) : UpdateItemRequest :=
  transitionRequest projectId tr.expected tr.target tr.extra now

/-- The transition as the store's method runs it. -/
def run (tr : Transition) (projectId : String) : Action (Except Exn Bool) :=
  ProjectStatusStore.transition projectId tr.expected tr.target tr.extra

theorem run_begin (projectId : String) :
    ProjectStatusStore.begin projectId = begin.run projectId := rfl

theorem run_complete (projectId : String) (result : ProvisionResult) :
    ProjectStatusStore.complete projectId result = (complete result).run projectId := rfl

theorem run_fail (projectId reason : String) :
    ProjectStatusStore.fail projectId reason = (fail reason).run projectId := rfl

theorem extraAttributes (tr : Transition) : ExtraAttributes tr.extra := by
  cases tr with
  | begin => constructor <;> simp [extra]
  | complete result =>
      simp only [extra, ProjectStatusStore.completeExtra]
      cases result.endpoint with
      | none => constructor <;> simp
      | some endpoint => dsimp only; split_ifs <;> constructor <;> simp
  | fail reason => constructor <;> simp [extra, ProjectStatusStore.failExtra]

theorem wellFormed (tr : Transition) (projectId : String) (now : Datetime) :
    (tr.request projectId now).WellFormed :=
  transitionRequest_wellFormed _ _ _ _ _ tr.extraAttributes

end Transition

/-- The update that records an outcome of provisioning. -/
def ProvisionOutcome.recording : ProvisionOutcome → Transition
  | result r => .complete r
  | raised text => .fail text

end ProjectsApi
