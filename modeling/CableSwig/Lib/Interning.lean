import Mathlib.Data.List.Basic
import Mathlib.Data.List.Nodup
import Mathlib.Data.List.Range
import Mathlib.Tactic.Common

/-!
# Numbering by first occurrence

A table without repetitions grows at its end. What is entered has the place in the table as its
number, and keeps it however the table grows.
-/
namespace CableSwig.Lib.Interning

variable {α β : Type} [DecidableEq α] [DecidableEq β]

def enter (table : List α) (a : α) : List α := if a ∈ table then table else table ++ [a]

def enterAll (table as : List α) : List α := as.foldl enter table

/-- The number that an element of a table has, and that a new one gets. -/
def place (table : List α) (a : α) : Nat := table.idxOf a

/-- The elements of a list in the order in which they first occur. -/
def distinct (as : List α) : List α := enterAll [] as

variable {table : List α} {a b : α}

theorem mem_enter : b ∈ enter table a ↔ b ∈ table ∨ b = a := by
  rw [enter]
  split
  · rename_i h
    exact ⟨Or.inl, fun hb => hb.elim id fun hba => hba ▸ h⟩
  · simp

theorem prefix_enter (table : List α) (a : α) : table <+: enter table a := by
  rw [enter]
  split
  · exact List.prefix_rfl
  · exact List.prefix_append _ _

theorem enter_nodup (h : table.Nodup) (a : α) : (enter table a).Nodup := by
  rw [enter]
  split
  · exact h
  · rename_i ha
    refine List.nodup_append.mpr ⟨h, List.nodup_singleton a, fun b hb c hc hbc => ha ?_⟩
    rwa [← List.mem_singleton.mp hc, ← hbc]

theorem place_of_notMem (h : a ∉ table) : place table a = table.length :=
  List.idxOf_of_notMem h

theorem place_of_prefix {table' : List α} (h : table <+: table') (ha : a ∈ table) :
    place table' a = place table a := by
  obtain ⟨rest, rfl⟩ := h
  exact List.idxOf_append_of_mem ha

theorem place_lt (h : a ∈ table) : place table a < table.length := List.idxOf_lt_length_of_mem h

theorem place_inj (ha : a ∈ table) (h : place table a = place table b) : a = b :=
  (List.idxOf_inj ha).mp h

theorem place_getElem (h : table.Nodup) (i : Nat) (hi : i < table.length) :
    place table table[i] = i :=
  h.idxOf_getElem i hi

/-- A new element gets the next number. -/
theorem place_enter (table : List α) (a : α) : place (enter table a) a = place table a := by
  rw [enter]
  split
  · rfl
  · rename_i ha
    rw [place, List.idxOf_append_of_notMem ha, place_of_notMem ha]
    simp

theorem mem_enterAll (as : List α) : b ∈ enterAll table as ↔ b ∈ table ∨ b ∈ as := by
  induction as generalizing table with
  | nil => simp [enterAll]
  | cons a as ih =>
    have hcons : enterAll table (a :: as) = enterAll (enter table a) as := rfl
    rw [hcons, ih, mem_enter, List.mem_cons, or_assoc]

theorem prefix_enterAll (as : List α) (table : List α) : table <+: enterAll table as := by
  induction as generalizing table with
  | nil => exact List.prefix_rfl
  | cons a as ih => exact (prefix_enter table a).trans (ih (enter table a))

theorem enterAll_nodup (as : List α) (h : table.Nodup) : (enterAll table as).Nodup := by
  induction as generalizing table with
  | nil => exact h
  | cons a as ih => exact ih (enter_nodup h a)

/-- The number that an element is given is the one it has at the end. -/
theorem place_enterAll (table : List α) (a : α) (as : List α) :
    place (enterAll table (a :: as)) a = place table a := by
  have hmem : a ∈ enter table a := mem_enter.mpr (Or.inr rfl)
  have hcons : enterAll table (a :: as) = enterAll (enter table a) as := rfl
  rw [hcons, place_of_prefix (prefix_enterAll as _) hmem, place_enter]

theorem mem_distinct {as : List α} : b ∈ distinct as ↔ b ∈ as := by
  rw [distinct, mem_enterAll]
  simp

theorem distinct_nodup (as : List α) : (distinct as).Nodup := enterAll_nodup as List.nodup_nil

/-- What tells the elements apart does not change where they first occur. -/
theorem distinct_map {f : α → β} {as : List α}
    (hf : ∀ a ∈ as, ∀ b ∈ as, f a = f b → a = b) :
    distinct (as.map f) = (distinct as).map f := by
  have hall : ∀ table : List α, (∀ a ∈ as, ∀ b ∈ table, f a = f b → a = b) →
      enterAll (table.map f) (as.map f) = (enterAll table as).map f := by
    induction as with
    | nil => exact fun _ _ => rfl
    | cons a as ih =>
      intro table htable
      have henter : enter (table.map f) (f a) = (enter table a).map f := by
        have hmem : f a ∈ table.map f ↔ a ∈ table := by
          refine ⟨fun h => ?_, List.mem_map_of_mem⟩
          obtain ⟨b, hb, hba⟩ := List.mem_map.mp h
          rwa [htable a List.mem_cons_self b hb hba.symm]
        rw [enter, enter]
        by_cases ha : a ∈ table
        · rw [if_pos ha, if_pos (hmem.mpr ha)]
        · rw [if_neg ha, if_neg fun h => ha (hmem.mp h), List.map_append, List.map_singleton]
      have hcons : enterAll (table.map f) ((a :: as).map f) =
          enterAll (enter (table.map f) (f a)) (as.map f) := rfl
      rw [hcons, henter]
      refine ih (fun x hx y hy => hf x (List.mem_cons_of_mem _ hx) y (List.mem_cons_of_mem _ hy))
        (enter table a) fun x hx y hy => ?_
      rcases mem_enter.mp hy with hy | rfl
      · exact htable x (List.mem_cons_of_mem _ hx) y hy
      · exact hf x (List.mem_cons_of_mem _ hx) y List.mem_cons_self
  exact hall [] fun _ _ _ hb => absurd hb List.not_mem_nil

/-- The numbers that are given are consecutive. -/
theorem distinct_place (as : List α) :
    distinct (as.map (place (distinct as))) = List.range (distinct as).length := by
  have hinj : ∀ a ∈ as, ∀ b ∈ as, place (distinct as) a = place (distinct as) b → a = b :=
    fun a ha _ _ h => place_inj (mem_distinct.mpr ha) h
  rw [distinct_map hinj]
  apply List.ext_getElem (by simp)
  intro i h1 h2
  rw [List.getElem_map, place_getElem (distinct_nodup as), List.getElem_range]

end CableSwig.Lib.Interning
