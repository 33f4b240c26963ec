import CableSwig.Lib.BreadthFirst
import Mathlib.Data.Fin.VecNotation

/-!
# The superclasses of a class type

`GetAllSuperclasses` collects them with a queue, `IsSubclassOf` asks every parent in turn.
-/
namespace CableSwig.CxxTypes.Superclasses

open CableSwig.Lib.BreadthFirst
open CableSwig.Lib.Fuel

variable {κ : Type}

/-- Class types and their parents. A parent has a smaller rank than the class. -/
structure Hierarchy (κ : Type) where
  parents : κ → List κ
  rank : κ → Nat
  rank_lt : ∀ c, ∀ p ∈ parents c, rank p < rank c

/-- The parents of a class, their parents and so on. -/
def Superclass (h : Hierarchy κ) (c s : κ) : Prop :=
  Relation.TransGen (fun c p => p ∈ h.parents c) c s

variable [DecidableEq κ] (h : Hierarchy κ)

/-- `GetAllSuperclasses`, with fuel for its loop. -/
def getAllSuperclasses (fuel : Nat) (c : κ) : Option (List κ) :=
  search h.parents fuel ⟨[c], [c], []⟩

/-- `IsSubclassOf`: first the parents themselves, then what they are derived from. -/
def isSubclassOf (c superclass : κ) : Bool :=
  (h.parents c).any (fun p => p = superclass) ||
    (h.parents c).attach.any fun p => isSubclassOf p.1 superclass
termination_by h.rank c
decreasing_by exact h.rank_lt c p.1 p.2

theorem isSubclassOf_iff (c s : κ) :
    isSubclassOf h c s = true ↔ s ∈ h.parents c ∨ ∃ p ∈ h.parents c, isSubclassOf h p s = true := by
  rw [isSubclassOf, Bool.or_eq_true, List.any_eq_true, List.any_eq_true]
  simp only [decide_eq_true_eq, List.mem_attach, true_and, Subtype.exists, exists_prop,
    exists_eq_right]

theorem superclass_of_isSubclassOf (s : κ) (n : Nat) : ∀ c, h.rank c < n →
    isSubclassOf h c s = true → Superclass h c s := by
  induction n with
  | zero => intro c hc; exact absurd hc (Nat.not_lt_zero _)
  | succ n ih =>
    intro c hc hs
    rcases (isSubclassOf_iff h c s).mp hs with hs | ⟨p, hp, hs⟩
    · exact .single hs
    · have hlt := h.rank_lt c p hp
      exact .head hp (ih p (by omega) hs)

theorem isSubclassOf_of_superclass {c s : κ} (hs : Superclass h c s) :
    isSubclassOf h c s = true := by
  induction hs using Relation.TransGen.head_induction_on with
  | single hs => exact (isSubclassOf_iff h _ s).mpr (Or.inl hs)
  | head hp _ ih => exact (isSubclassOf_iff h _ s).mpr (Or.inr ⟨_, hp, ih⟩)

/-- Two ways lead from the last class to the first. -/
def diamond : Hierarchy (Bool × Bool) where
  parents
    | (true, true) => [(true, false), (false, true)]
    | (false, false) => []
    | _ => [(false, false)]
  rank c := c.1.toNat + c.2.toNat
  rank_lt := by rintro ⟨_ | _, _ | _⟩ <;> decide

/-- The list has the superclasses, each once, and they are what `IsSubclassOf` finds. -/
theorem superclass_views_agree (c : κ) :
    ∃ result, (Enough fun fuel => getAllSuperclasses h fuel c = some result) ∧
      (∀ s, isSubclassOf h c s = true ↔ s ∈ result) ∧
      (∀ s, s ∈ result ↔ Superclass h c s) ∧ c ∉ result ∧ result.Nodup := by
  obtain ⟨result, hresult, hnodup, hc, hmem⟩ := search_exact h.rank_lt c
  refine ⟨result, hresult, fun s => ?_, hmem, hc, hnodup⟩
  rw [hmem]
  exact ⟨superclass_of_isSubclassOf h s _ c (Nat.lt_succ_self _), isSubclassOf_of_superclass h⟩

theorem superclass_views_agree_diamond :
    ∃ result, (Enough fun fuel =>
        getAllSuperclasses diamond fuel (true, true) = some result) ∧
      (∀ s, isSubclassOf diamond (true, true) s = true ↔ s ∈ result) ∧
      (∀ s, s ∈ result ↔ Superclass diamond (true, true) s) ∧ (true, true) ∉ result ∧
        result.Nodup :=
  superclass_views_agree diamond (true, true)

end CableSwig.CxxTypes.Superclasses
