import Mathlib.Data.Finmap
import ProjectsApi.Foundation.Transition

/-!
# Change feeds

A store of cells that publishes its changes.  Each step of the store appends to the feed one
record for every cell whose content it changed, in any order.  Every run of the store has a
feed as long as a step changes finitely many cells, and a tag that tells the cell of a record
occurs at most once among the records of a step.
-/

namespace Foundation

universe u v w x

variable {Key : Type u} {Val : Type v} {Rec : Type w} {Tag : Type x}

/-- The records of one step, given the contents of the cells before and after it. -/
def Publishes (record : Option Val → Option Val → Option Rec) (before after : Key → Option Val)
    (records : List Rec) : Prop :=
  ∃ keys : List Key, keys.Nodup ∧ (∀ key, before key ≠ after key → key ∈ keys) ∧
    records = keys.filterMap fun key => record (before key) (after key)

namespace Publishes

variable {record : Option Val → Option Val → Option Rec} {before after : Key → Option Val}
  {records : List Rec}

/-- Every published record is the record of some cell. -/
theorem exists_key (h : Publishes record before after records) {r : Rec} (hr : r ∈ records) :
    ∃ key, record (before key) (after key) = some r := by
  obtain ⟨keys, -, -, rfl⟩ := h
  obtain ⟨key, -, hkey⟩ := List.mem_filterMap.mp hr
  exact ⟨key, hkey⟩

/-- The record of a cell that changed is published. -/
theorem mem (h : Publishes record before after records) {key : Key} {r : Rec}
    (hchange : before key ≠ after key) (hr : record (before key) (after key) = some r) :
    r ∈ records := by
  obtain ⟨keys, -, hkeys, rfl⟩ := h
  exact List.mem_filterMap.mpr ⟨key, hkeys key hchange, hr⟩

/-- A tag that tells the cell is given to one record only. -/
theorem nodup_tags (h : Publishes record before after records) {tag : Rec → Option Tag}
    (htag : ∀ key key' r r' t, record (before key) (after key) = some r →
      record (before key') (after key') = some r' → tag r = some t → tag r' = some t →
        key = key') :
    (records.filterMap tag).Nodup := by
  obtain ⟨keys, hnodup, -, rfl⟩ := h
  rw [List.filterMap_filterMap]
  refine hnodup.filterMap ?_
  intro key key' t ht ht'
  obtain ⟨r, hr, htag₁⟩ := Option.bind_eq_some_iff.mp ht
  obtain ⟨r', hr', htag₂⟩ := Option.bind_eq_some_iff.mp ht'
  exact htag key key' r r' t hr hr' htag₁ htag₂

end Publishes

/-- Two finite maps differ in finitely many cells. -/
theorem exists_publishes [DecidableEq Key] (record : Option Val → Option Val → Option Rec)
    (s s' : Finmap fun _ : Key => Val) :
    ∃ records, Publishes record (fun key => s.lookup key) (fun key => s'.lookup key) records := by
  refine ⟨_, (s.keys ∪ s'.keys).toList, Finset.nodup_toList _, ?_, rfl⟩
  intro key hchange
  rw [Finset.mem_toList, Finset.mem_union, Finmap.mem_keys, Finmap.mem_keys]
  by_contra hnone
  obtain ⟨hs, hs'⟩ := not_or.mp hnone
  apply hchange
  show s.lookup key = s'.lookup key
  rw [Finmap.lookup_eq_none.mpr hs, Finmap.lookup_eq_none.mpr hs']

/-! ## Stores with their feed -/

section Feed

variable {State Label : Type*} (step : State → Label → State → Prop)
  (record : Option Val → Option Val → Option Rec) (read : State → Key → Option Val)

/-- A step of the store, and what it appends to the feed. -/
def FeedStep (s : State × List Rec) (l : Label) (s' : State × List Rec) : Prop :=
  step s.1 l s'.1 ∧
    ∃ records, Publishes record (read s.1) (read s'.1) records ∧ s'.2 = s.2 ++ records

variable {step record read}

/-- The store runs as it does without the feed. -/
theorem FeedStep.run {s s' : State × List Rec} {tr : List Label}
    (h : Run (FeedStep step record read) s tr s') : Run step s.1 tr s'.1 := by
  induction h with
  | nil => exact .nil
  | snoc hrun hstep ih => exact .snoc ih hstep.1

/-- Nothing is taken off the feed. -/
theorem FeedStep.mem_feed {s s' : State × List Rec} {tr : List Label}
    (h : Run (FeedStep step record read) s tr s') {r : Rec} (hr : r ∈ s.2) : r ∈ s'.2 := by
  induction h with
  | nil => exact hr
  | snoc hrun hstep ih =>
      obtain ⟨-, records, -, hfeed⟩ := hstep
      rw [hfeed]
      exact List.mem_append_left _ ih

/-- Every run of the store has a feed. -/
theorem FeedStep.exists_run
    (hrecords : ∀ s s', ∃ records, Publishes record (read s) (read s') records)
    {s s' : State} {tr : List Label} (h : Run step s tr s') (feed : List Rec) :
    ∃ feed', Run (FeedStep step record read) (s, feed) tr (s', feed') := by
  induction h with
  | nil => exact ⟨feed, .nil⟩
  | @snoc tr mid s' l hrun hstep ih =>
      obtain ⟨feed₁, hrun₁⟩ := ih
      obtain ⟨records, hpublishes⟩ := hrecords mid s'
      exact ⟨feed₁ ++ records, .snoc hrun₁ ⟨hstep, records, hpublishes, rfl⟩⟩

end Feed

end Foundation
