import CableSwig.Lib.Fuel
import Mathlib.Data.Finset.Card
import Mathlib.Logic.Relation

/-!
# Breadth-first search

A search with a queue, and a record of what has been queued so that nothing is queued twice.
-/
namespace CableSwig.Lib.BreadthFirst

open CableSwig.Lib.Fuel

variable {α : Type}

structure Search (α : Type) where
  queue : List α
  queued : List α
  result : List α

section Searching

variable [DecidableEq α]

/-- Queue one of the successors, if it has not been queued. -/
def Search.enqueue (s : Search α) (x : α) : Search α :=
  if x ∈ s.queued then s else ⟨s.queue ++ [x], x :: s.queued, s.result ++ [x]⟩

/-- The loop, with fuel for each element that is taken off the queue. -/
def search (next : α → List α) : Nat → Search α → Option (List α)
  | _, ⟨[], _, result⟩ => some result
  | 0, ⟨_ :: _, _, _⟩ => none
  | fuel + 1, ⟨x :: queue, queued, result⟩ =>
    search next fuel ((next x).foldl Search.enqueue ⟨queue, queued, result⟩)

end Searching

/-- All that is reached in as many steps. -/
def reach (next : α → List α) : Nat → α → List α
  | 0, _ => []
  | n + 1, x => x :: (next x).flatMap (reach next n)

theorem mem_reach_trans {next : α → List α} {rank : α → Nat}
    (hrank : ∀ x, ∀ y ∈ next x, rank y < rank x) (n : Nat) (x : α) (hn : rank x < n) :
    ∀ y ∈ reach next n x, ∀ z ∈ next y, z ∈ reach next n x := by
  induction n generalizing x with
  | zero => omega
  | succ n ih =>
    have hinner : ∀ y ∈ next x, ∀ z ∈ reach next n y, z ∈ reach next (n + 1) x := fun y hy z hz =>
      List.mem_cons_of_mem _ (List.mem_flatMap.mpr ⟨y, hy, hz⟩)
    intro y hy z hz
    rcases List.mem_cons.mp hy with rfl | hy
    · -- A successor is the first of what it reaches itself.
      have hlt := hrank y z hz
      refine hinner z hz z ?_
      obtain ⟨m, rfl⟩ : ∃ m, n = m + 1 := ⟨n - 1, by omega⟩
      exact List.mem_cons_self
    · obtain ⟨w, hw, hyw⟩ := List.mem_flatMap.mp hy
      have hlt := hrank x w hw
      exact hinner w hw z (ih w (by omega) y hyw z hz)

variable [DecidableEq α]

/-- What is left to do: the elements that are not queued yet, and the queue. -/
def work (within : List α) (s : Search α) : Nat :=
  (within.toFinset \ s.queued.toFinset).card + s.queue.length

/-- Everything that is queued or found satisfies a property. -/
structure All (P : α → Prop) (s : Search α) : Prop where
  queue : ∀ x ∈ s.queue, P x
  result : ∀ x ∈ s.result, P x

theorem All.enqueue {P : α → Prop} {s : Search α} (h : All P s) {x : α} (hx : P x) :
    All P (s.enqueue x) := by
  rw [Search.enqueue]
  split
  · exact h
  · refine ⟨fun y hy => ?_, fun y hy => ?_⟩
    · rcases List.mem_append.mp hy with hy | hy
      · exact h.queue y hy
      · exact List.mem_singleton.mp hy ▸ hx
    · rcases List.mem_append.mp hy with hy | hy
      · exact h.result y hy
      · exact List.mem_singleton.mp hy ▸ hx

theorem All.enqueueAll {P : α → Prop} {s : Search α} (h : All P s) {xs : List α}
    (hxs : ∀ x ∈ xs, P x) : All P (xs.foldl Search.enqueue s) := by
  induction xs generalizing s with
  | nil => exact h
  | cons x xs ih =>
    exact ih (h.enqueue (hxs x List.mem_cons_self)) fun y hy => hxs y (List.mem_cons_of_mem _ hy)

theorem work_enqueue {within : List α} {s : Search α} {x : α} (hx : x ∈ within) :
    work within (s.enqueue x) ≤ work within s := by
  rw [Search.enqueue]
  split
  · exact le_refl _
  · rename_i hnew
    have hleft : x ∈ within.toFinset \ s.queued.toFinset := by simp [hx, hnew]
    have hlt := Finset.card_erase_lt_of_mem hleft
    simp only [work, List.toFinset_cons, Finset.sdiff_insert, List.length_append,
      List.length_singleton]
    omega

theorem work_enqueueAll {within : List α} {s : Search α} {xs : List α}
    (hxs : ∀ x ∈ xs, x ∈ within) : work within (xs.foldl Search.enqueue s) ≤
      work within s := by
  induction xs generalizing s with
  | nil => exact le_refl _
  | cons x xs ih =>
    have hrest := ih (s := s.enqueue x) fun y hy => hxs y (List.mem_cons_of_mem _ hy)
    exact hrest.trans (work_enqueue (hxs x List.mem_cons_self))

/-- The loop ends within a finite list, with results that have each property which holds of the
start and goes over to successors. -/
theorem search_spec {next : α → List α} {within : List α}
    (hclosed : ∀ x ∈ within, ∀ y ∈ next x, y ∈ within) {P : α → Prop}
    (hP : ∀ x, P x → ∀ y ∈ next x, P y) (fuel : Nat) (s : Search α)
    (hfuel : work within s ≤ fuel) (hs : All (fun x => x ∈ within ∧ P x) s) :
    ∃ result, search next fuel s = some result ∧ ∀ x ∈ result, P x := by
  induction fuel generalizing s with
  | zero =>
    obtain ⟨queue, queued, result⟩ := s
    cases queue with
    | nil => exact ⟨result, rfl, fun x hx => (hs.result x hx).2⟩
    | cons x queue => simp [work] at hfuel
  | succ fuel ih =>
    obtain ⟨queue, queued, result⟩ := s
    cases queue with
    | nil => exact ⟨result, rfl, fun x hx => (hs.result x hx).2⟩
    | cons x queue =>
      obtain ⟨hx, hPx⟩ := hs.queue x List.mem_cons_self
      have hnext : ∀ y ∈ next x, y ∈ within ∧ P y := fun y hy =>
        ⟨hclosed x hx y hy, hP x hPx y hy⟩
      have hwork := work_enqueueAll (s := ⟨queue, queued, result⟩) fun y hy => (hnext y hy).1
      have hrest : All (fun y => y ∈ within ∧ P y) ⟨queue, queued, result⟩ :=
        ⟨fun y hy => hs.queue y (List.mem_cons_of_mem _ hy), hs.result⟩
      refine ih _ (hwork.trans ?_) (hrest.enqueueAll hnext)
      simp only [work, List.length_cons] at hfuel ⊢
      omega

/-- A search from one element, where the successors have a smaller rank. -/
theorem search_from {next : α → List α} {rank : α → Nat}
    (hrank : ∀ x, ∀ y ∈ next x, rank y < rank x) {P : α → Prop}
    (hP : ∀ x, P x → ∀ y ∈ next x, P y) (x : α) (hx : P x) :
    Enough fun fuel => ∃ result, search next fuel ⟨[x], [x], []⟩ = some result ∧
      ∀ y ∈ result, P y := by
  have hclosed := mem_reach_trans hrank (rank x + 1) x (Nat.lt_succ_self _)
  refine ⟨work (reach next (rank x + 1) x) ⟨[x], [x], []⟩, fun fuel hfuel => ?_⟩
  refine search_spec hclosed hP fuel _ hfuel ⟨fun y hy => ?_, fun y hy => by cases hy⟩
  obtain rfl := List.mem_singleton.mp hy
  exact ⟨List.mem_cons_self, hx⟩

/-- More fuel does not change what is found. -/
theorem search_mono {next : α → List α} {result : List α} (fuel k : Nat) (s : Search α)
    (h : search next fuel s = some result) : search next (fuel + k) s = some result := by
  induction fuel generalizing s with
  | zero =>
    obtain ⟨queue, queued, result'⟩ := s
    cases queue with
    | nil =>
      cases k with
      | zero => exact h
      | succ k => exact h
    | cons x queue => cases h
  | succ fuel ih =>
    obtain ⟨queue, queued, result'⟩ := s
    rw [Nat.succ_add]
    cases queue with
    | nil => exact h
    | cons x queue => exact ih _ h

/-- What was found from `start` on: each element once, and not the start. -/
structure FoundOnce (start : α) (s : Search α) : Prop where
  queued_iff : ∀ x, x ∈ s.queued ↔ x = start ∨ x ∈ s.result
  nodup : s.result.Nodup
  start_not_mem : start ∉ s.result

/-- What has been taken off the queue has all of its successors queued. -/
def Expanded (next : α → List α) (s : Search α) : Prop :=
  ∀ x ∈ s.queued, x ∈ s.queue ∨ ∀ y ∈ next x, y ∈ s.queued

theorem FoundOnce.enqueue {start : α} {s : Search α} (h : FoundOnce start s) (x : α) :
    FoundOnce start (s.enqueue x) := by
  rw [Search.enqueue]
  split
  · exact h
  · rename_i hnew
    have hx : ¬ (x = start ∨ x ∈ s.result) := fun hx => hnew ((h.queued_iff x).mpr hx)
    refine ⟨fun y => ?_, ?_, ?_⟩
    · rw [List.mem_cons, h.queued_iff, List.mem_append, List.mem_singleton]
      tauto
    · exact h.nodup.append (List.nodup_singleton x) (by simpa using fun hmem => hx (Or.inr hmem))
    · intro hmem
      rcases List.mem_append.mp hmem with hmem | hmem
      · exact h.start_not_mem hmem
      · exact hx (Or.inl (List.mem_singleton.mp hmem).symm)

theorem FoundOnce.enqueueAll {start : α} {s : Search α} (h : FoundOnce start s) (xs : List α) :
    FoundOnce start (xs.foldl Search.enqueue s) := by
  induction xs generalizing s with
  | nil => exact h
  | cons x xs ih => exact ih (h.enqueue x)

/-- Queueing elements: those that are new go to the queue too. -/
structure Queues (xs : List α) (s s' : Search α) : Prop where
  queued_iff : ∀ x, x ∈ s'.queued ↔ x ∈ s.queued ∨ x ∈ xs
  queue_subset : ∀ x ∈ s.queue, x ∈ s'.queue
  new : ∀ x ∈ s'.queued, x ∈ s.queued ∨ x ∈ s'.queue

theorem queues_enqueue (x : α) (s : Search α) : Queues [x] s (s.enqueue x) := by
  rw [Search.enqueue]
  split
  · rename_i hold
    refine ⟨fun y => ?_, fun y hy => hy, fun y hy => Or.inl hy⟩
    rw [List.mem_singleton]
    exact ⟨Or.inl, fun hy => hy.elim id fun hy => hy ▸ hold⟩
  · refine ⟨fun y => ?_, fun y hy => List.mem_append_left _ hy, fun y hy => ?_⟩
    · rw [List.mem_cons, List.mem_singleton]
      exact or_comm
    · rcases List.mem_cons.mp hy with rfl | hy
      · exact Or.inr (List.mem_append_right _ List.mem_cons_self)
      · exact Or.inl hy

theorem queues_enqueueAll (xs : List α) (s : Search α) :
    Queues xs s (xs.foldl Search.enqueue s) := by
  induction xs generalizing s with
  | nil => exact ⟨fun x => by simp, fun x hx => hx, fun x hx => Or.inl hx⟩
  | cons x xs ih =>
    have hx := queues_enqueue x s
    have hxs := ih (s.enqueue x)
    refine ⟨fun y => ?_, fun y hy => hxs.queue_subset y (hx.queue_subset y hy), fun y hy => ?_⟩
    · rw [List.foldl_cons, hxs.queued_iff, hx.queued_iff, List.mem_singleton, List.mem_cons,
        or_assoc]
    · rcases hxs.new y hy with hy | hy
      · exact (hx.new y hy).imp_right (hxs.queue_subset y)
      · exact Or.inr hy

theorem Expanded.step {next : α → List α} {x : α} {queue queued result : List α}
    (h : Expanded next ⟨x :: queue, queued, result⟩) :
    Expanded next ((next x).foldl Search.enqueue ⟨queue, queued, result⟩) := by
  have hqueues := queues_enqueueAll (next x) ⟨queue, queued, result⟩
  intro y hy
  rcases hqueues.new y hy with hold | hnew
  · rcases h y hold with hqueue | hexpanded
    · rcases List.mem_cons.mp hqueue with rfl | hqueue
      · exact Or.inr fun z hz => (hqueues.queued_iff z).mpr (Or.inr hz)
      · exact Or.inl (hqueues.queue_subset y hqueue)
    · exact Or.inr fun z hz => (hqueues.queued_iff z).mpr (Or.inl (hexpanded z hz))
  · exact Or.inl hnew

omit [DecidableEq α] in
theorem FoundOnce.closed {next : α → List α} {start : α} {queued result : List α}
    (hfound : FoundOnce start ⟨[], queued, result⟩)
    (hexpanded : Expanded next ⟨[], queued, result⟩) :
    ∀ x, x = start ∨ x ∈ result → ∀ y ∈ next x, y = start ∨ y ∈ result := by
  intro x hx y hy
  rcases hexpanded x ((hfound.queued_iff x).mpr hx) with hqueue | hnext
  · cases hqueue
  · exact (hfound.queued_iff y).mp (hnext y hy)

/-- At the end of the loop everything that is queued is expanded. -/
theorem search_complete {next : α → List α} {start : α} {result : List α} (fuel : Nat)
    (s : Search α) (hfound : FoundOnce start s) (hexpanded : Expanded next s)
    (h : search next fuel s = some result) :
    (result.Nodup ∧ start ∉ result) ∧
      ∀ x, x = start ∨ x ∈ result → ∀ y ∈ next x, y = start ∨ y ∈ result := by
  induction fuel generalizing s with
  | zero =>
    obtain ⟨queue, queued, result'⟩ := s
    cases queue with
    | nil =>
      cases h
      exact ⟨⟨hfound.nodup, hfound.start_not_mem⟩, hfound.closed hexpanded⟩
    | cons x queue => cases h
  | succ fuel ih =>
    obtain ⟨queue, queued, result'⟩ := s
    cases queue with
    | nil =>
      cases h
      exact ⟨⟨hfound.nodup, hfound.start_not_mem⟩, hfound.closed hexpanded⟩
    | cons x queue =>
      have hpopped : FoundOnce start ⟨queue, queued, result'⟩ :=
        ⟨hfound.queued_iff, hfound.nodup, hfound.start_not_mem⟩
      exact ih _ (hpopped.enqueueAll (next x)) hexpanded.step h

omit [DecidableEq α] in
theorem rank_lt_of_transGen {next : α → List α} {rank : α → Nat}
    (hrank : ∀ x, ∀ y ∈ next x, rank y < rank x) {x y : α}
    (h : Relation.TransGen (fun a b => b ∈ next a) x y) : rank y < rank x := by
  induction h with
  | single h => exact hrank _ _ h
  | tail _ h ih => exact (hrank _ _ h).trans ih

/-- The search finds what can be reached, each element once. -/
theorem search_exact {next : α → List α} {rank : α → Nat}
    (hrank : ∀ x, ∀ y ∈ next x, rank y < rank x) (x : α) :
    ∃ result, (Enough fun fuel => search next fuel ⟨[x], [x], []⟩ = some result) ∧
      result.Nodup ∧ x ∉ result ∧
      ∀ y, y ∈ result ↔ Relation.TransGen (fun a b => b ∈ next a) x y := by
  have hreached : ∀ y, y = x ∨ Relation.TransGen (fun a b => b ∈ next a) x y →
      ∀ z ∈ next y, z = x ∨ Relation.TransGen (fun a b => b ∈ next a) x z := by
    intro y hy z hz
    rcases hy with rfl | hy
    · exact Or.inr (.single hz)
    · exact Or.inr (hy.tail hz)
  obtain ⟨fuel, hfuel⟩ := search_from hrank hreached x (Or.inl rfl)
  obtain ⟨result, hresult, hsound⟩ := hfuel fuel (Nat.le_refl _)
  have hstart : FoundOnce x ⟨[x], [x], []⟩ := ⟨fun y => by simp, List.nodup_nil, List.not_mem_nil⟩
  obtain ⟨⟨hnodup, hx⟩, hclosed⟩ := search_complete fuel _ hstart (fun y hy => Or.inl hy) hresult
  refine ⟨result, ⟨fuel, fun fuel' hle => ?_⟩, hnodup, hx, fun y => ⟨fun hy => ?_, fun hy => ?_⟩⟩
  · rw [← Nat.add_sub_of_le hle]
    exact search_mono fuel _ _ hresult
  · exact (hsound y hy).resolve_left fun h => hx (h ▸ hy)
  · have hfound : y = x ∨ y ∈ result := by
      induction hy with
      | single h => exact hclosed x (Or.inl rfl) _ h
      | tail _ h ih => exact hclosed _ ih _ h
    have hlt := rank_lt_of_transGen hrank hy
    exact hfound.resolve_left fun h => absurd hlt (h ▸ Nat.lt_irrefl _)

end CableSwig.Lib.BreadthFirst
