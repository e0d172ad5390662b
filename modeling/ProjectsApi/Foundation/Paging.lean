import Mathlib.Data.List.Forall2
import Mathlib.Data.Finset.Card
import Mathlib.Data.Set.Basic
import Mathlib.Order.Basic

/-!
# Paging by key

A listing in descending order of a key is read page by page, and each page starts below
the last key of the page before it.  The collection may change between two pages.  Still
the pages together are strictly descending, and they show every element that the
collection holds all the time (`PagesOf.complete`).
-/

namespace Foundation

variable {α K : Type*} [LinearOrder K]

/-- A place that comes after the start. -/
def Below (start : Option K) (k : K) : Prop :=
  ∀ bound, start = some bound → k < bound

theorem below_none (k : K) : Below none k := by
  intro bound hbound
  cases hbound

theorem Below.trans {start : Option K} {k k' : K} (h : Below start k) (hlt : k' < k) :
    Below start k' :=
  fun bound hbound => lt_trans hlt (h bound hbound)

/-- One page of `S`: its first elements after the start.  Without a next key nothing is
left, and a next key is the key of the last element. -/
structure IsPageOf (pos : α → K) (S : Set α) (limit : Nat) (start : Option K) (items : List α)
    (next : Option K) : Prop where
  length_le : items.length ≤ limit
  sorted : items.Pairwise fun a b => pos b < pos a
  shown : ∀ a ∈ items, a ∈ S ∧ Below start (pos a)
  rest : ∀ a ∈ S, Below start (pos a) → a ∈ items ∨ ∃ k, next = some k ∧ pos a < k
  last : ∀ k, next = some k → ∃ a, items.getLast? = some a ∧ pos a = k

/-- The pages that a client gets which asks for pages of these limits, starting at `start`,
until there is no next key or the limits are used up.  Each page is one of a collection that
satisfies `Now`. -/
inductive PagesOf (pos : α → K) (Now : Set α → Prop) :
    List Nat → Option K → List (List α) → Option K → Prop where
  | last {S : Set α} {limit : Nat} {limits : List Nat} {start : Option K} {items : List α}
      (hnow : Now S) (hpage : IsPageOf pos S limit start items none) :
      PagesOf pos Now (limit :: limits) start [items] none
  | more {S : Set α} {limit : Nat} {limits : List Nat} {start next : Option K} {k : K}
      {items : List α} {pages : List (List α)} (hnow : Now S)
      (hpage : IsPageOf pos S limit start items (some k))
      (hrest : PagesOf pos Now limits (some k) pages next) :
      PagesOf pos Now (limit :: limits) start (items :: pages) next
  | out (k : K) : PagesOf pos Now [] (some k) [] (some k)

section Page

variable {pos : α → K} {S : Set α} {limit : Nat} {start next : Option K} {items : List α}

/-- No element of a page comes after its next key. -/
theorem IsPageOf.le_of_mem (h : IsPageOf pos S limit start items next) {k : K}
    (hnext : next = some k) {a : α} (ha : a ∈ items) : k ≤ pos a := by
  obtain ⟨last, hlast, rfl⟩ := h.last k hnext
  obtain ⟨front, rfl⟩ := List.getLast?_eq_some_iff.mp hlast
  rcases List.mem_append.mp ha with hfront | hmem
  · exact le_of_lt ((List.pairwise_append.mp h.sorted).2.2 a hfront last (by simp))
  · rw [List.mem_singleton.mp hmem]

/-- The next key comes after the start. -/
theorem IsPageOf.below_next (h : IsPageOf pos S limit start items next) {k : K}
    (hnext : next = some k) : Below start k := by
  obtain ⟨last, hlast, rfl⟩ := h.last k hnext
  exact (h.shown last (List.mem_of_getLast? hlast)).2

theorem IsPageOf.length_pos (h : IsPageOf pos S limit start items next) {k : K}
    (hnext : next = some k) : 0 < items.length := by
  obtain ⟨last, hlast, -⟩ := h.last k hnext
  exact List.length_pos_of_mem (List.mem_of_getLast? hlast)

end Page

/-- In a strictly descending list one element at most has a given key. -/
theorem countP_eq_one {pos : α → K} {l : List α} (hsorted : l.Pairwise fun a b => pos b < pos a)
    {p : α → Bool} {a : α} (ha : a ∈ l) (hp : p a = true) {k : K}
    (hkey : ∀ b ∈ l, p b = true → pos b = k) : l.countP p = 1 := by
  have hmem : a ∈ l.filter p := List.mem_filter.mpr ⟨ha, hp⟩
  have hall : ∀ b ∈ l.filter p, pos b = k := by
    intro b hb
    obtain ⟨hb, hpb⟩ := List.mem_filter.mp hb
    exact hkey b hb hpb
  have hpairs := hsorted.filter p
  rw [List.countP_eq_length_filter]
  cases hfilter : l.filter p with
  | nil => rw [hfilter] at hmem; cases hmem
  | cons x xs =>
      cases xs with
      | nil => rfl
      | cons y ys =>
          rw [hfilter] at hall hpairs
          have hlt : pos y < pos x := List.rel_of_pairwise_cons hpairs List.mem_cons_self
          rw [hall x (by simp), hall y (by simp)] at hlt
          exact absurd hlt (lt_irrefl k)

namespace PagesOf

variable {pos : α → K} {Now : Set α → Prop} {limits : List Nat} {start next : Option K}
  {pages : List (List α)}

/-- What the pages show was in the collection, and comes after the start. -/
theorem shown (h : PagesOf pos Now limits start pages next) {a : α} (ha : a ∈ pages.flatten) :
    (∃ S, Now S ∧ a ∈ S) ∧ Below start (pos a) := by
  induction h with
  | out k => cases ha
  | last hnow hpage =>
      rw [List.flatten_singleton] at ha
      obtain ⟨hmem, hbelow⟩ := hpage.shown a ha
      exact ⟨⟨_, hnow, hmem⟩, hbelow⟩
  | more hnow hpage hrest ih =>
      rw [List.flatten_cons] at ha
      rcases List.mem_append.mp ha with hfirst | hlater
      · obtain ⟨hmem, hbelow⟩ := hpage.shown a hfirst
        exact ⟨⟨_, hnow, hmem⟩, hbelow⟩
      · obtain ⟨hmem, hbelow⟩ := ih hlater
        exact ⟨hmem, (hpage.below_next rfl).trans (hbelow _ rfl)⟩

/-- The pages together are strictly descending. -/
theorem sorted (h : PagesOf pos Now limits start pages next) :
    pages.flatten.Pairwise fun a b => pos b < pos a := by
  induction h with
  | out k => exact List.Pairwise.nil
  | last hnow hpage =>
      rw [List.flatten_singleton]
      exact hpage.sorted
  | more hnow hpage hrest ih =>
      rw [List.flatten_cons, List.pairwise_append]
      refine ⟨hpage.sorted, ih, fun a ha b hb => ?_⟩
      -- the next key lies between the page and the pages after it
      exact lt_of_lt_of_le ((hrest.shown hb).2 _ rfl) (hpage.le_of_mem rfl ha)

/-- A page has at most as many elements as it was asked for. -/
theorem lengths (h : PagesOf pos Now limits start pages next) :
    List.Forall₂ (fun page limit => page.length ≤ limit) pages (limits.take pages.length) := by
  induction h with
  | out k => exact List.Forall₂.nil
  | last hnow hpage => exact List.Forall₂.cons hpage.length_le List.Forall₂.nil
  | more hnow hpage hrest ih => exact List.Forall₂.cons hpage.length_le ih

/-- A walk that has ended has shown every place after the start that was occupied all the
time. -/
theorem complete (h : PagesOf pos Now limits start pages next) (hend : next = none)
    {P : α → Prop} {k : K} (hbelow : Below start k)
    (hstay : ∀ S, Now S → ∃ a ∈ S, P a ∧ pos a = k) :
    ∃ a ∈ pages.flatten, P a ∧ pos a = k := by
  induction h with
  | out k' => cases hend
  | last hnow hpage =>
      obtain ⟨a, ha, hP, rfl⟩ := hstay _ hnow
      rcases hpage.rest a ha hbelow with hmem | ⟨k', hnext, -⟩
      · exact ⟨a, by rwa [List.flatten_singleton], hP, rfl⟩
      · cases hnext
  | more hnow hpage hrest ih =>
      obtain ⟨a, ha, hP, rfl⟩ := hstay _ hnow
      rw [List.flatten_cons]
      rcases hpage.rest a ha hbelow with hmem | ⟨k', hnext, hlt⟩
      · exact ⟨a, List.mem_append_left _ hmem, hP, rfl⟩
      · -- it comes after the next key, so a later page shows the place
        have hbelow' : Below (some k') (pos a) := fun bound hbound => by
          rwa [← Option.some.inj hbound]
        obtain ⟨b, hb, hPb, hpos⟩ := ih hend (hnext ▸ hbelow')
        exact ⟨b, List.mem_append_right _ hb, hPb, hpos⟩

/-- Only the last page may be empty, and a walk without an end has used up its limits. -/
theorem length_cases (h : PagesOf pos Now limits start pages next) :
    (next = none ∧ pages.length ≤ pages.flatten.length + 1) ∨
      (pages.length = limits.length ∧ pages.length ≤ pages.flatten.length) := by
  induction h with
  | out k => exact Or.inr ⟨rfl, le_rfl⟩
  | last hnow hpage => exact Or.inl ⟨rfl, by simp⟩
  | more hnow hpage hrest ih =>
      have hpos := hpage.length_pos rfl
      simp only [List.flatten_cons, List.length_append, List.length_cons]
      rcases ih with ⟨hend, hle⟩ | ⟨heq, hle⟩
      · exact Or.inl ⟨hend, by omega⟩
      · exact Or.inr ⟨by omega, by omega⟩

theorem mono {Now' : Set α → Prop} (h : PagesOf pos Now limits start pages next)
    (hsub : ∀ S, Now S → Now' S) : PagesOf pos Now' limits start pages next := by
  induction h with
  | out k => exact .out k
  | last hnow hpage => exact .last (hsub _ hnow) hpage
  | more hnow hpage hrest ih => exact .more (hsub _ hnow) hpage ih

/-- In an unchanging finite collection a walk shows each element once, and ends one page
after its last element at the latest. -/
theorem unchanged [DecidableEq α] {A : Finset α}
    (h : PagesOf pos (fun S => S = {a | a ∈ A}) limits none pages next) :
    pages.length ≤ A.card + 1 ∧ (A.card < limits.length → next = none) ∧
      (next = none → pages.flatten.Nodup ∧ ∀ a, a ∈ pages.flatten ↔ a ∈ A) := by
  have hnodup : pages.flatten.Nodup := h.sorted.imp fun hlt heq => by
    rw [heq] at hlt
    exact lt_irrefl _ hlt
  have hsub : ∀ a ∈ pages.flatten, a ∈ A := by
    intro a ha
    obtain ⟨S, rfl, hmem⟩ := (h.shown ha).1
    exact hmem
  have hcard : pages.flatten.length ≤ A.card := by
    rw [← List.toFinset_card_of_nodup hnodup]
    exact Finset.card_le_card fun a ha => hsub a (List.mem_toFinset.mp ha)
  refine ⟨?_, ?_, fun hend => ⟨hnodup, fun a => ⟨hsub a, fun ha => ?_⟩⟩⟩
  · rcases h.length_cases with ⟨-, hle⟩ | ⟨-, hle⟩ <;> omega
  · intro hlong
    rcases h.length_cases with ⟨hend, -⟩ | ⟨heq, hle⟩
    · exact hend
    · omega
  · obtain ⟨b, hb, rfl, -⟩ := h.complete (P := fun b => b = a) hend (below_none (pos a)) (by
      rintro S rfl
      exact ⟨a, ha, rfl, rfl⟩)
    exact hb

end PagesOf

end Foundation
