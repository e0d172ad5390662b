import Mathlib.Data.List.Lex
import Mathlib.Data.List.Sort
import Mathlib.Data.Finset.Dedup
import ProjectsApi.Service.Operations

/-!
# Pages of an index query

`IsPage` is what the service documents of a descending query with a limit and an
exclusive start key; `queryPage` is a query engine that works so.
-/

namespace ProjectsApi

open Foundation Dynamo

/-- The code points of a string attribute. -/
def attributePoints (item : Item) (name : String) : CodePoints :=
  codePoints ((Item.string? item name).getD "")

/-- The place of an item in the order of the index. -/
def indexPosition (item : Item) : CodePoints := attributePoints item "GSI1SK"

/-- The key of an item as a `LastEvaluatedKey`. -/
def itemCursorKey (item : Item) : CursorKey where
  pk := attributePoints item "PK"
  sk := attributePoints item "SK"
  gsi1pk := attributePoints item "GSI1PK"
  gsi1sk := attributePoints item "GSI1SK"

/-- An item comes after the start of a descending query. -/
def QueryRequest.Covers (request : QueryRequest) (item : Item) : Prop :=
  ∀ start, request.exclusiveStartKey = some start → indexPosition item < start.gsi1sk

/-- One page of a descending query of `items`: the first items after the start key, at
most `limit` of them; without a last key nothing is left, and a last key is the key of
the last item. -/
structure IsPage (items : Finset Item) (request : QueryRequest) (output : QueryOutput) :
    Prop where
  length_le : output.items.length ≤ request.limit
  split : ∃ rest, (output.items ++ rest).Pairwise (fun a b => indexPosition b < indexPosition a) ∧
    (∀ item, item ∈ output.items ++ rest ↔ item ∈ items ∧ request.Covers item) ∧
    (output.lastEvaluatedKey = none → rest = [])
  last : ∀ key, output.lastEvaluatedKey = some key →
    ∃ item, output.items.getLast? = some item ∧ key = itemCursorKey item

/-- What a page does not show comes after its last key. -/
theorem IsPage.mem_or_lt {items : Finset Item} {request : QueryRequest} {output : QueryOutput}
    (h : IsPage items request output) {item : Item} (hitem : item ∈ items)
    (hcovers : request.Covers item) :
    item ∈ output.items ∨
      ∃ key, output.lastEvaluatedKey = some key ∧ indexPosition item < key.gsi1sk := by
  obtain ⟨rest, hsorted, hmem, hnone⟩ := h.split
  rcases List.mem_append.mp ((hmem item).mpr ⟨hitem, hcovers⟩) with hshown | hrest
  · exact Or.inl hshown
  · cases hkey : output.lastEvaluatedKey with
    | none => simp [hnone hkey] at hrest
    | some key =>
        obtain ⟨last, hlast, rfl⟩ := h.last key hkey
        exact Or.inr ⟨_, rfl, (List.pairwise_append.mp hsorted).2.2 last
          (List.mem_of_getLast? hlast) item hrest⟩

/-- The items have distinct places in the index. -/
def DistinctPositions (items : Finset Item) : Prop :=
  ∀ a ∈ items, ∀ b ∈ items, indexPosition a = indexPosition b → a = b

/-- The service answers a query of items with distinct places by a page. -/
def Service.Pages (svc : Service) : Prop :=
  ∀ items request answer, DistinctPositions items → 1 ≤ request.limit →
    svc.query items request answer → ∃ output, answer = .ok output ∧ IsPage items request output

/-- The answer to a query depends on the items and the request only. -/
def Service.Deterministic (svc : Service) : Prop :=
  ∀ items request answer answer', svc.query items request answer →
    svc.query items request answer' → answer = answer'

/-! ## A query engine -/

open scoped Classical in
/-- All items after the start key, in descending order. -/
noncomputable def queryItems (items : Finset Item) (request : QueryRequest) : List Item :=
  (items.filter request.Covers).toList.insertionSort fun a b => indexPosition b ≤ indexPosition a

/-- The first `limit` of them, with the key of the last one if more are left. -/
noncomputable def queryPage (items : Finset Item) (request : QueryRequest) : QueryOutput where
  items := (queryItems items request).take request.limit
  lastEvaluatedKey :=
    if (queryItems items request).length ≤ request.limit then none
    else ((queryItems items request).take request.limit).getLast?.map itemCursorKey

theorem mem_queryItems {items : Finset Item} {request : QueryRequest} {item : Item} :
    item ∈ queryItems items request ↔ item ∈ items ∧ request.Covers item := by
  simp [queryItems]

theorem queryItems_nodup (items : Finset Item) (request : QueryRequest) :
    (queryItems items request).Nodup :=
  (List.perm_insertionSort _ _).nodup_iff.mpr (Finset.nodup_toList _)

theorem queryItems_sorted (items : Finset Item) (request : QueryRequest) :
    (queryItems items request).Pairwise fun a b => indexPosition b ≤ indexPosition a := by
  have htotal : Std.Total fun a b : Item => indexPosition b ≤ indexPosition a :=
    ⟨fun a b => le_total _ _⟩
  have htrans : IsTrans Item fun a b => indexPosition b ≤ indexPosition a :=
    ⟨fun a b c hab hbc => le_trans hbc hab⟩
  exact List.pairwise_insertionSort _ _

theorem queryItems_pairwise {items : Finset Item} (hdistinct : DistinctPositions items)
    (request : QueryRequest) :
    (queryItems items request).Pairwise fun a b => indexPosition b < indexPosition a := by
  refine ((queryItems_sorted items request).and (queryItems_nodup items request)).imp_of_mem
    fun {a b} ha hb h => ?_
  refine lt_of_le_of_ne h.1 fun heq => h.2 ?_
  exact hdistinct a (mem_queryItems.mp ha).1 b (mem_queryItems.mp hb).1 heq.symm

/-- The engine lists the items in their descending order. -/
theorem queryItems_eq {items : Finset Item} {request : QueryRequest} {listed : List Item}
    (hsorted : listed.Pairwise fun a b => indexPosition b < indexPosition a)
    (hmem : ∀ item, item ∈ listed ↔ item ∈ items ∧ request.Covers item) :
    queryItems items request = listed := by
  have hnodup : listed.Nodup := hsorted.imp fun {a b} hlt heq => absurd hlt (by simp [heq])
  have hperm : (queryItems items request).Perm listed := by
    rw [List.perm_ext_iff_of_nodup (queryItems_nodup _ _) hnodup]
    intro item
    rw [hmem, mem_queryItems]
  refine hperm.eq_of_pairwise ?_ (queryItems_sorted _ _) (hsorted.imp fun h => h.le)
  -- two listed items at one place are one item
  intro a b ha hb hba hab
  have hdiffer : listed.Pairwise fun a b => indexPosition a ≠ indexPosition b :=
    hsorted.imp fun h => h.ne'
  by_contra hne
  have hsymm : Std.Symm fun a b => indexPosition a ≠ indexPosition b := ⟨fun _ _ h => h.symm⟩
  exact hdiffer.forall (hperm.mem_iff.mp ha) hb hne (le_antisymm hab hba)

/-- The engine answers with pages. -/
theorem queryPage_isPage {items : Finset Item} (hdistinct : DistinctPositions items)
    {request : QueryRequest} (hlimit : 1 ≤ request.limit) :
    IsPage items request (queryPage items request) where
  length_le := List.length_take_le _ _
  split := by
    refine ⟨(queryItems items request).drop request.limit, ?_, ?_, ?_⟩
    · rw [queryPage, List.take_append_drop]
      exact queryItems_pairwise hdistinct request
    · intro item
      rw [queryPage, List.take_append_drop]
      exact mem_queryItems
    · intro hnone
      rw [List.drop_eq_nil_iff]
      by_contra hlong
      simp only [queryPage, hlong, if_false, Option.map_eq_none_iff, List.getLast?_eq_none_iff,
        List.take_eq_nil_iff] at hnone
      rcases hnone with hzero | hempty
      · omega
      · simp [hempty] at hlong
  last key hkey := by
    simp only [queryPage] at hkey ⊢
    split at hkey
    · cases hkey
    · obtain ⟨item, hitem, rfl⟩ := Option.map_eq_some_iff.mp hkey
      exact ⟨item, hitem, rfl⟩

/-! ## A reference service -/

/-- The outcome of the provisioners of `provisioners.py`, which create nothing. -/
def stubProvision (_ : ProvisionRequest) : ProvisionOutcome := .result {}

/-- A service without faults, with this query engine and given provisioners. -/
def Service.reference (outcome : ProvisionRequest → ProvisionOutcome) : Service :=
  Service.reliable (fun items request answer => answer = .ok (queryPage items request)) outcome

theorem Service.reference_faultless (outcome : ProvisionRequest → ProvisionOutcome) :
    (Service.reference outcome).Faultless :=
  Service.reliable_faultless _ _

theorem Service.reference_pages (outcome : ProvisionRequest → ProvisionOutcome) :
    (Service.reference outcome).Pages := by
  rintro items request _ hdistinct hlimit rfl
  exact ⟨_, rfl, queryPage_isPage hdistinct hlimit⟩

theorem Service.reference_deterministic (outcome : ProvisionRequest → ProvisionOutcome) :
    (Service.reference outcome).Deterministic := by
  rintro items request _ _ rfl rfl
  rfl

end ProjectsApi
