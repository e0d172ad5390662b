import ProjectsApi.Dynamo.Grammar
import ProjectsApi.Provisioner.Transition

/-!
# The expressions of a transition

`_transition` numbers the extra attributes and joins its assignments to one text, in which only
placeholders connect an attribute with its value.  The text is read back as the update of
`transitionRequest`, so that every attribute gets its own value (`transition_expressions_exact`).
-/

namespace ProjectsApi

open Foundation Dynamo

/-- The variables `names`, `values` and `assignments` of `_transition`. -/
structure TransitionExpressions where
  names : List (String × String)
  values : List (String × AttributeValue)
  assignments : List String

namespace TransitionExpressions

/-- The variables before the loop. -/
def start (expected target : ProjectStatus) (now : Datetime) : TransitionExpressions where
  names := [("#s", "status"), ("#u", "updatedAt")]
  values := [(":expected", .S expected.value), (":target", .S target.value),
    (":now", .S now.isoformat)]
  assignments := ["#s = :target", "#u = :now"]

/-- One round of the loop. -/
def add (e : TransitionExpressions) (x : (String × AttributeValue) × Nat) :
    TransitionExpressions where
  names := setEntry e.names ("#x" ++ toString x.2) x.1.1
  values := setEntry e.values (":x" ++ toString x.2) x.1.2
  assignments := e.assignments ++ ["#x" ++ toString x.2 ++ " = :x" ++ toString x.2]

end TransitionExpressions

section Request

variable (projectId : String) (expected target : ProjectStatus)
  (extra : List (String × AttributeValue)) (now : Datetime)

/-- The variables after the loop over `enumerate(sorted(extra.items()))`. -/
def transitionExpressions : TransitionExpressions :=
  (extra.insertionSort fun a b => a.1 ≤ b.1).zipIdx.foldl TransitionExpressions.add
    (.start expected target now)

/-- What `_transition` calls `update_item` with. -/
def transitionArguments : UpdateItemArguments where
  key := recordKey projectId
  updateExpression :=
    "SET " ++ ", ".intercalate (transitionExpressions expected target extra now).assignments
  conditionExpression := "#s = :expected"
  names := (transitionExpressions expected target extra now).names
  values := (transitionExpressions expected target extra now).values

/-! ## The loop -/

/-- No alias is overwritten. -/
theorem transitionExpressions_names :
    (transitionExpressions expected target extra now).names =
      (transitionRequest projectId expected target extra now).attributes.names := by
  have hloop : ∀ (xs : List ((String × AttributeValue) × Nat)) (e : TransitionExpressions),
      (xs.foldl TransitionExpressions.add e).names =
        xs.foldl (fun names x => setEntry names ("#x" ++ toString x.2) x.1.1) e.names :=
    fun xs e => (List.foldl_hom TransitionExpressions.names fun _ _ => rfl).symm
  have hnodup : ((transitionRequest projectId expected target extra now).attributes.names.map
      Prod.fst).Nodup := by
    rw [transitionRequest_aliases]
    exact aliases_nodup _
  have hset := foldl_setEntry hnodup
  rw [List.foldl_map] at hset
  rw [transitionExpressions, hloop]
  exact hset

/-- No value is overwritten. -/
theorem transitionExpressions_values :
    (transitionExpressions expected target extra now).values =
      (transitionRequest projectId expected target extra now).attributes.values := by
  have hloop : ∀ (xs : List ((String × AttributeValue) × Nat)) (e : TransitionExpressions),
      (xs.foldl TransitionExpressions.add e).values =
        xs.foldl (fun values x => setEntry values (":x" ++ toString x.2) x.1.2) e.values :=
    fun xs e => (List.foldl_hom TransitionExpressions.values fun _ _ => rfl).symm
  have hnodup : ((transitionRequest projectId expected target extra now).attributes.values.map
      Prod.fst).Nodup := by
    rw [transitionRequest_placeholders]
    exact placeholders_nodup _
  have hset := foldl_setEntry hnodup
  rw [List.foldl_map] at hset
  rw [transitionExpressions, hloop]
  exact hset

/-- The assignments are those of the update, as texts. -/
theorem transitionExpressions_assignments :
    (transitionExpressions expected target extra now).assignments =
      (transitionRequest projectId expected target extra now).updates.map assignmentText := by
  have hloop : ∀ (xs : List ((String × AttributeValue) × Nat)) (e : TransitionExpressions),
      (xs.foldl TransitionExpressions.add e).assignments =
        e.assignments ++
          (xs.map fun x => ("#x" ++ toString x.2, ":x" ++ toString x.2)).map assignmentText := by
    intro xs
    induction xs with
    | nil => simp
    | cons x xs ih =>
        intro e
        have htext : "#x" ++ toString x.2 ++ " = :x" ++ toString x.2 =
            assignmentText ("#x" ++ toString x.2, ":x" ++ toString x.2) := by
          have hjoint : (" = :x" : String) = " = " ++ ":x" := rfl
          rw [assignmentText, hjoint]
          simp only [String.append_assoc]
        rw [List.foldl_cons, ih, TransitionExpressions.add, htext]
        simp
  rw [transitionExpressions, hloop, transitionRequest, List.map_append]
  rfl

/-! ## The texts -/

theorem isWordChar_of_isDigit {c : Char} (h : c.isDigit = true) : isWordChar c = true := by
  have hascii : c.toNat < 128 := toNat_lt_of_isAlphanum (by simp [Char.isAlphanum, h])
  have hall : ∀ n : Fin 128, (Char.ofNat n).isDigit = true → isWordChar (Char.ofNat n) = true := by
    decide
  exact forall_ascii (p := fun c => c.isDigit = true → isWordChar c = true) hall hascii h

theorem all_isWordChar_toString (i : Nat) : (toString i).toList.all isWordChar = true := by
  rw [Nat.toString_eq_ofList_toDigits, String.toList_ofList, List.all_eq_true]
  intro c hc
  exact isWordChar_of_isDigit (Nat.isDigit_of_mem_toDigits (by decide) (by decide) hc)

theorem isAssignment_numbered (i : Nat) :
    IsAssignment ("#x" ++ toString i, ":x" ++ toString i) := by
  have hword : ∀ stem : String, stem.toList.all isWordChar = true → stem ≠ "" →
      IsWord (stem ++ toString i) := by
    intro stem hstem hne
    refine ⟨?_, ?_⟩
    · intro hempty
      exact hne (String.append_eq_empty_iff.mp hempty).1
    · rw [String.toList_append, List.all_append, hstem, all_isWordChar_toString]
      rfl
  refine ⟨hword "#x" (by decide) (by decide), hword ":x" (by decide) (by decide), ?_, ?_⟩
  · simp [isPlaceholder]
  · simp [isPlaceholder]

/-- The service reads the request of the transition. -/
theorem transitionArguments_request? :
    (transitionArguments projectId expected target extra now).request? =
      some (transitionRequest projectId expected target extra now) := by
  have hassignments : ∀ u ∈ (transitionRequest projectId expected target extra now).updates,
      IsAssignment u := by
    intro u hu
    rw [transitionRequest] at hu
    rcases List.mem_append.mp hu with hu | hu
    · simp only [List.mem_cons, List.not_mem_nil, or_false] at hu
      rcases hu with rfl | rfl
      · exact ⟨⟨by decide, by decide⟩, ⟨by decide, by decide⟩, by decide, by decide⟩
      · exact ⟨⟨by decide, by decide⟩, ⟨by decide, by decide⟩, by decide, by decide⟩
    · obtain ⟨x, -, rfl⟩ := List.mem_map.mp hu
      exact isAssignment_numbered x.2
  have hupdate :
      parseUpdate (transitionArguments projectId expected target extra now).updateExpression =
        some (transitionRequest projectId expected target extra now).updates := by
    rw [transitionArguments, transitionExpressions_assignments projectId]
    exact parseUpdate_joined (List.append_ne_nil_of_left_ne_nil (by simp) _) hassignments
  have hcondition : parseCondition "#s = :expected" = some (.equals "#s" ":expected") := by decide
  rw [UpdateItemArguments.request?, hupdate, transitionArguments, hcondition,
    transitionExpressions_names projectId, transitionExpressions_values projectId]
  rfl

/-! ## The update -/

/-- What a transition does to an item. -/
structure Transitioned (item item' : Item) : Prop where
  status : item'.lookup "status" = some (.S target.value)
  updatedAt : item'.lookup "updatedAt" = some (.S now.isoformat)
  extras : ∀ entry ∈ extra, item'.lookup entry.1 = some entry.2
  others : ∀ name, name ≠ "status" → name ≠ "updatedAt" → name ∉ extra.map Prod.fst →
    item'.lookup name = item.lookup name

theorem transitionRequest_transitioned (hextra : ExtraAttributes extra) (item : Item) :
    Transitioned target extra now item
      ((transitionRequest projectId expected target extra now).apply (some item)) := by
  have happly := transitionRequest_apply projectId expected target extra now hextra item
  have hnodup := transitionSets_nodup target extra now hextra
  have hset : ∀ {name : String} {value : AttributeValue},
      (name, value) ∈ transitionSets target extra now →
      ((transitionRequest projectId expected target extra now).apply (some item)).lookup name =
        some value := by
    intro name value hmem
    rw [happly, (lookup_eq_some_iff_mem hnodup).mpr hmem, Option.some_or]
  have hperm := sortedExtra_perm extra
  constructor
  · exact hset (by simp [transitionSets])
  · exact hset (by simp [transitionSets])
  -- the sorted extras are the extras
  · intro entry hmem
    exact hset (List.mem_append_right _ (hperm.mem_iff.mpr hmem))
  · intro name hstatus hupdated hnot
    have hnone : (transitionSets target extra now).lookup name = none := by
      rw [List.lookup_eq_none_iff]
      intro set hmem
      rw [bne_iff_ne]
      rintro rfl
      -- an assignment is one of the two constant ones or that of an extra
      rcases List.mem_append.mp hmem with hmem | hmem
      · simp only [List.mem_cons, List.not_mem_nil, or_false] at hmem
        rcases hmem with rfl | rfl
        · exact hstatus rfl
        · exact hupdated rfl
      · exact hnot (List.mem_map_of_mem (hperm.mem_iff.mp hmem))
    rw [happly, hnone, Option.none_or]

/-- The expressions of a transition say what its arguments do: the service reads them as the
request of the transition, in which each placeholder is defined once and used; and it changes an
item exactly if its status is the expected one, as the arguments ask for. -/
theorem transition_expressions_exact (hextra : ExtraAttributes extra) :
    (transitionArguments projectId expected target extra now).request? =
        some (transitionRequest projectId expected target extra now) ∧
      (transitionRequest projectId expected target extra now).WellFormed ∧
      (transitionRequest projectId expected target extra now).attributes.names.length =
        extra.length + 2 ∧
      (transitionRequest projectId expected target extra now).attributes.values.length =
        extra.length + 3 ∧
      ∀ item : Item,
        (item.lookup "status" = some (.S expected.value) →
          ∃ item', (transitionRequest projectId expected target extra now).update? item =
            some item' ∧ Transitioned target extra now item item') ∧
        (item.lookup "status" ≠ some (.S expected.value) →
          (transitionRequest projectId expected target extra now).update? item = none) := by
  have hnames := congrArg List.length
    (transitionRequest_aliases projectId expected target extra now)
  have hvalues := congrArg List.length
    (transitionRequest_placeholders projectId expected target extra now)
  refine ⟨transitionArguments_request? projectId expected target extra now,
    transitionRequest_wellFormed projectId expected target extra now hextra, ?_, ?_, ?_⟩
  · simp only [List.length_map, List.length_append, List.length_cons, List.length_nil,
      List.length_range] at hnames
    omega
  · simp only [List.length_map, List.length_append, List.length_cons, List.length_nil,
      List.length_range] at hvalues
    omega
  · intro item
    have hcondition : (transitionRequest projectId expected target extra now).condition.holds
        (transitionRequest projectId expected target extra now).attributes (some item) = true ↔
          item.lookup "status" = some (.S expected.value) := by
      rw [transitionRequest_holds]
      simp
    constructor
    · intro hstatus
      refine ⟨_, if_pos (hcondition.mpr hstatus), ?_⟩
      exact transitionRequest_transitioned projectId expected target extra now hextra item
    · intro hstatus
      exact if_neg (mt hcondition.mp hstatus)

end Request

/-! ## A transition with two extra attributes -/

def twoExtras : List (String × AttributeValue) :=
  [("failureReason", .S "timeout"), ("endpoint", .S "https://a.example")]

theorem extraAttributes_twoExtras : ExtraAttributes twoExtras :=
  ⟨by decide, by decide, by decide⟩

example : (transitionArguments "prj_a" .provisioning .ready twoExtras sampleTime).updateExpression =
    "SET #s = :target, #u = :now, #x0 = :x0, #x1 = :x1" := by decide +kernel

example : (transitionArguments "prj_a" .provisioning .ready twoExtras sampleTime).names =
    [("#s", "status"), ("#u", "updatedAt"), ("#x0", "endpoint"), ("#x1", "failureReason")] := by
  decide +kernel

/-- An item in status PROVISIONING. -/
def provisioningItem : Item :=
  Item.ofList [("status", .S "PROVISIONING"), ("name", .S "My App")]

theorem transition_two_extras :
    ∃ item', (transitionRequest "prj_a" .provisioning .ready twoExtras sampleTime).update?
        provisioningItem = some item' ∧
      item'.lookup "status" = some (.S "READY") ∧
      item'.lookup "endpoint" = some (.S "https://a.example") ∧
      item'.lookup "failureReason" = some (.S "timeout") ∧
      item'.lookup "name" = some (.S "My App") := by
  obtain ⟨-, -, -, -, hupdate⟩ := transition_expressions_exact "prj_a" .provisioning .ready
    twoExtras sampleTime extraAttributes_twoExtras
  obtain ⟨item', hitem', hdone⟩ := (hupdate provisioningItem).1 (by decide)
  refine ⟨item', hitem', hdone.status, hdone.extras ("endpoint", .S "https://a.example") ?_,
    hdone.extras ("failureReason", .S "timeout") ?_, ?_⟩
  · simp [twoExtras]
  · simp [twoExtras]
  · rw [hdone.others "name" (by decide) (by decide) (by decide)]
    decide

end ProjectsApi
