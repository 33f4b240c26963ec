import Mathlib.Data.List.Basic
import Mathlib.Data.List.Nodup
import Mathlib.Data.List.Perm.Basic
import Mathlib.Data.List.Range
import Mathlib.Tactic.Common

/-!
# Singly linked chains over recycled cells

A memory of cells is read through the link that each allocated cell carries. A chain
is the list of addresses met from a given link until the null link. What a write does
to a chain is decided by whether the written address is on it.
-/
namespace CableSwig.Lib.LinkedCells

/-- The addresses met from `start`, following `next` to the null link. -/
inductive Chain (next : Nat → Option (Option Nat)) : Option Nat → List Nat → Prop
  | nil : Chain next none []
  | cons {a : Nat} {link : Option Nat} {l : List Nat} :
      next a = some link → Chain next link l → Chain next (some a) (a :: l)

variable {next next' : Nat → Option (Option Nat)} {start : Option Nat} {l : List Nat}

theorem Chain.start_eq (h : Chain next start l) : start = l.head? := by
  cases h <;> rfl

theorem Chain.congr (h : Chain next start l) (heq : ∀ a ∈ l, next' a = next a) :
    Chain next' start l := by
  induction h with
  | nil => exact .nil
  | @cons a link l hnext _ ih =>
    refine .cons ?_ (ih fun b hb => heq b (List.mem_cons_of_mem _ hb))
    rw [heq a List.mem_cons_self, hnext]

/-- Linking a fresh last cell behind the old last cell extends the chain by it. -/
theorem Chain.snoc {e c : Nat} (h : Chain next start l) (hlast : l.getLast? = some e)
    (hnodup : l.Nodup) (hkeep : ∀ a ∈ l, a ≠ e → next' a = next a)
    (hlink : next' e = some (some c)) (hend : next' c = some none) :
    Chain next' start (l ++ [c]) := by
  induction h with
  | nil => simp at hlast
  | @cons a link l hnext hchain ih =>
    obtain ⟨hfresh, hnodup⟩ := List.nodup_cons.mp hnodup
    cases l with
    | nil =>
      obtain rfl : a = e := by simpa using hlast
      exact .cons hlink (.cons hend .nil)
    | cons b l =>
      rw [List.getLast?_cons_cons] at hlast
      have hne : a ≠ e := by
        rintro rfl
        exact hfresh (List.mem_of_getLast? hlast)
      refine .cons ?_ (ih hlast hnodup fun x hx => hkeep x (List.mem_cons_of_mem _ hx))
      rw [hkeep a List.mem_cons_self hne, hnext]

/-- Two chains that share out the allocated addresses `0 … n-1`. -/
def Shares (l l' : List Nat) (n : Nat) : Prop := (l ++ l').Perm (List.range n)

theorem Shares.nodup {l l' : List Nat} {n : Nat} (h : Shares l l' n) : (l ++ l').Nodup :=
  h.nodup_iff.mpr List.nodup_range

theorem Shares.lt_left {l l' : List Nat} {n a : Nat} (h : Shares l l' n) (ha : a ∈ l) : a < n :=
  List.mem_range.mp (h.subset (List.mem_append_left _ ha))

theorem Shares.lt_right {l l' : List Nat} {n a : Nat} (h : Shares l l' n) (ha : a ∈ l') : a < n :=
  List.mem_range.mp (h.subset (List.mem_append_right _ ha))

theorem Shares.disjoint {l l' : List Nat} {n a : Nat} (h : Shares l l' n) (ha : a ∈ l)
    (ha' : a ∈ l') : False :=
  (List.nodup_append.mp h.nodup).2.2 a ha a ha' rfl

/-- A cell taken from the head of the second chain goes to the end of the first. -/
theorem Shares.move_left {l l' : List Nat} {a n : Nat} (h : Shares l (a :: l') n) :
    Shares (l ++ [a]) l' n := by
  unfold Shares at h ⊢
  rwa [List.append_assoc, List.singleton_append]

/-- A cell taken from the head of the first chain goes to the head of the second. -/
theorem Shares.move_right {l l' : List Nat} {a n : Nat} (h : Shares (a :: l) l' n) :
    Shares l (a :: l') n :=
  (@List.perm_middle _ a l l').trans h

/-- A newly allocated cell goes to the end of the first chain. -/
theorem Shares.grow {l l' : List Nat} {n : Nat} (h : Shares l l' n) :
    Shares (l ++ [n]) l' (n + 1) := by
  unfold Shares at h ⊢
  rw [List.range_succ, List.append_assoc, List.singleton_append]
  refine (@List.perm_middle _ n l l').trans ?_
  exact (List.Perm.cons n h).trans (List.perm_append_singleton n _).symm

end CableSwig.Lib.LinkedCells
