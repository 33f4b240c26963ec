import CableSwig.Lib.Fuel
import Mathlib.Data.List.Basic
import Mathlib.Data.List.Infix

/-!
# What is needed comes first

A list in which everything stands behind what it needs, and the recursion that extends such a
list by something and all that it needs.
-/
namespace CableSwig.Lib.PostOrder

open CableSwig.Lib.Fuel

variable {α : Type}

/-- Nothing stands twice in the list, and everything behind what it needs. -/
structure Ordered (needs : α → List α) (l : List α) : Prop where
  nodup : l.Nodup
  before : ∀ before t after, l = before ++ t :: after → ∀ u ∈ needs t, u ∈ before

variable {needs : α → List α}

theorem ordered_nil : Ordered needs [] :=
  ⟨List.nodup_nil, fun before t after h => by simp at h⟩

theorem Ordered.concat {l : List α} (h : Ordered needs l) {t : α} (ht : t ∉ l)
    (hneeds : ∀ u ∈ needs t, u ∈ l) : Ordered needs (l ++ [t]) := by
  refine ⟨List.nodup_append.mpr ⟨h.nodup, List.pairwise_singleton _ t, ?_⟩, ?_⟩
  · intro a ha b hb
    obtain rfl := List.mem_singleton.mp hb
    exact fun hab => ht (hab ▸ ha)
  · intro before s after hsplit u hu
    rcases List.append_eq_append_iff.mp hsplit with ⟨a, rfl, ha⟩ | ⟨a, rfl, ha⟩
    · cases a with
      | nil =>
        obtain ⟨rfl, -⟩ := List.cons.inj ha
        rw [List.append_nil]
        exact hneeds u hu
      | cons x a =>
        have hlen := congrArg List.length ha
        simp at hlen
    · cases a with
      | nil =>
        obtain ⟨rfl, -⟩ := List.cons.inj ha
        rw [List.append_nil] at hneeds
        exact hneeds u hu
      | cons x a =>
        obtain ⟨rfl, rfl⟩ := List.cons.inj ha
        exact h.before before s a rfl u hu

theorem Ordered.mem_of_needs {l : List α} (h : Ordered needs l) {t u : α} (ht : t ∈ l)
    (hu : u ∈ needs t) : u ∈ l := by
  obtain ⟨before, after, rfl⟩ := List.append_of_mem ht
  exact List.mem_append_left _ (h.before before t after rfl u hu)

/-- What a longer list has more than the first one has a rank below the bound. -/
structure Visited (needs : α → List α) (rank : α → Nat) (bound : Nat) (done done' : List α) :
    Prop where
  ordered : Ordered needs done'
  kept : done <+: done'
  bounded : ∀ u ∈ done', u ∈ done ∨ rank u < bound

variable {rank : α → Nat} {bound : Nat} {done done' done'' : List α}

theorem Visited.refl (h : Ordered needs done) : Visited needs rank bound done done :=
  ⟨h, List.prefix_rfl, fun _ hu => Or.inl hu⟩

theorem Visited.trans (h : Visited needs rank bound done done')
    (h' : Visited needs rank bound done' done'') : Visited needs rank bound done done'' := by
  refine ⟨h'.ordered, h.kept.trans h'.kept, fun u hu => ?_⟩
  rcases h'.bounded u hu with hu | hu
  · exact h.bounded u hu
  · exact Or.inr hu

theorem Visited.mono (h : Visited needs rank bound done done') {bound' : Nat}
    (hle : bound ≤ bound') : Visited needs rank bound' done done' :=
  ⟨h.ordered, h.kept, fun u hu => (h.bounded u hu).imp_right fun hlt => hlt.trans_le hle⟩

/-- One visit after the other. -/
theorem foldlM_visits {visit : α → List α → Option (List α)} (ts : List α)
    (hvisit : ∀ t ∈ ts, ∀ done, Ordered needs done →
      ∃ done', visit t done = some done' ∧ Visited needs rank bound done done' ∧ t ∈ done')
    (h : Ordered needs done) :
    ∃ done', ts.foldlM (fun done u => visit u done) done = some done' ∧
      Visited needs rank bound done done' ∧ ∀ t ∈ ts, t ∈ done' := by
  induction ts generalizing done with
  | nil => exact ⟨done, rfl, .refl h, fun t ht => by cases ht⟩
  | cons t ts ih =>
    obtain ⟨done₁, hvisit₁, h₁, hmem₁⟩ := hvisit t List.mem_cons_self done h
    obtain ⟨done₂, hvisit₂, h₂, hmem₂⟩ :=
      ih (fun u hu => hvisit u (List.mem_cons_of_mem _ hu)) h₁.ordered
    refine ⟨done₂, ?_, h₁.trans h₂, fun u hu => ?_⟩
    · rw [List.foldlM_cons, hvisit₁]
      exact hvisit₂
    · rcases List.mem_cons.mp hu with rfl | hu
      · exact h₂.kept.mem hmem₁
      · exact hmem₂ u hu

theorem exists_bound (rank : α → Nat) (ts : List α) : ∃ bound, ∀ t ∈ ts, rank t < bound := by
  induction ts with
  | nil => exact ⟨0, fun t ht => by cases ht⟩
  | cons t ts ih =>
    obtain ⟨bound, hbound⟩ := ih
    refine ⟨max bound (rank t + 1), fun u hu => ?_⟩
    rcases List.mem_cons.mp hu with rfl | hu
    · omega
    · have hlt := hbound u hu
      omega

section Visiting

variable [DecidableEq α]

/-- The list with something at its end, and with what it needs before that, if it is not there. -/
def visit (needs : α → List α) : Nat → α → List α → Option (List α)
  | 0, _, _ => none
  | fuel + 1, t, done =>
    if t ∈ done then some done
    else ((needs t).foldlM (fun done u => visit needs fuel u done) done).map (· ++ [t])

/-- With fuel for its rank a visit ends, and nothing of a greater rank is new. -/
theorem visit_spec (hrank : ∀ t, ∀ u ∈ needs t, rank u < rank t) (fuel : Nat) (t : α)
    (hfuel : rank t < fuel) (done : List α) (h : Ordered needs done) :
    ∃ done', visit needs fuel t done = some done' ∧
      Visited needs rank (rank t + 1) done done' ∧ t ∈ done' := by
  induction fuel generalizing t done with
  | zero => omega
  | succ fuel ih =>
    by_cases ht : t ∈ done
    · exact ⟨done, if_pos ht, .refl h, ht⟩
    · have hneeds : ∀ u ∈ needs t, ∀ done, Ordered needs done →
          ∃ done', visit needs fuel u done = some done' ∧
            Visited needs rank (rank t) done done' ∧ u ∈ done' := by
        intro u hu done hdone
        have hlt := hrank t u hu
        obtain ⟨done', hvisit, hvisited, hmem⟩ := ih u (by omega) done hdone
        exact ⟨done', hvisit, hvisited.mono (by omega), hmem⟩
      obtain ⟨done', hfold, hvisited, hmem⟩ := foldlM_visits (needs t) hneeds h
      have hnew : t ∉ done' := by
        intro ht'
        rcases hvisited.bounded t ht' with ht' | hlt
        · exact ht ht'
        · exact lt_irrefl _ hlt
      refine ⟨done' ++ [t], ?_, ?_, by simp⟩
      · rw [visit, if_neg ht, hfold]
        rfl
      · refine ⟨hvisited.ordered.concat hnew hmem,
          hvisited.kept.trans (List.prefix_append _ _), fun u hu => ?_⟩
        rcases List.mem_append.mp hu with hu | hu
        · exact (hvisited.bounded u hu).imp_right fun hlt => by omega
        · obtain rfl := List.mem_singleton.mp hu
          exact Or.inr (Nat.lt_succ_self _)

/-- Visits of everything in a list. -/
theorem visits_spec (hrank : ∀ t, ∀ u ∈ needs t, rank u < rank t) (ts : List α)
    (h : Ordered needs done) :
    Enough fun fuel => ∃ done', ts.foldlM (fun done t => visit needs fuel t done) done =
      some done' ∧ Ordered needs done' ∧ ∀ t ∈ ts, t ∈ done' := by
  obtain ⟨bound, hbound⟩ := exists_bound rank ts
  refine ⟨bound, fun fuel hfuel => ?_⟩
  have hvisit : ∀ t ∈ ts, ∀ done, Ordered needs done →
      ∃ done', visit needs fuel t done = some done' ∧
        Visited needs rank bound done done' ∧ t ∈ done' := by
    intro t ht done hdone
    have hlt := hbound t ht
    obtain ⟨done', hvisit, hvisited, hmem⟩ := visit_spec hrank fuel t (by omega) done hdone
    exact ⟨done', hvisit, hvisited.mono (by omega), hmem⟩
  obtain ⟨done', hfold, hvisited, hmem⟩ := foldlM_visits ts hvisit h
  exact ⟨done', hfold, hvisited.ordered, hmem⟩

end Visiting

end CableSwig.Lib.PostOrder
