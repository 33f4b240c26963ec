import Mathlib.Tactic.Common

/-!
# Enough fuel

A property of a function with fuel that holds from some amount on.
-/
namespace CableSwig.Lib.Fuel

def Enough (p : Nat → Prop) : Prop := ∃ bound, ∀ fuel, bound ≤ fuel → p fuel

namespace Enough

variable {p q : Nat → Prop}

theorem mono (h : Enough p) (hpq : ∀ fuel, p fuel → q fuel) : Enough q := by
  obtain ⟨bound, hbound⟩ := h
  exact ⟨bound, fun fuel hfuel => hpq fuel (hbound fuel hfuel)⟩

theorem and (hp : Enough p) (hq : Enough q) : Enough fun fuel => p fuel ∧ q fuel := by
  obtain ⟨m, hm⟩ := hp
  obtain ⟨n, hn⟩ := hq
  exact ⟨max m n, fun fuel hfuel => ⟨hm fuel (by omega), hn fuel (by omega)⟩⟩

/-- A function that passes on all but one unit of its fuel. -/
theorem step (h : Enough p) (hstep : ∀ fuel, p fuel → q (fuel + 1)) : Enough q := by
  obtain ⟨bound, hbound⟩ := h
  refine ⟨bound + 1, fun fuel hfuel => ?_⟩
  obtain ⟨fuel, rfl⟩ : ∃ k, fuel = k + 1 := ⟨fuel - 1, by omega⟩
  exact hstep fuel (hbound fuel (by omega))

theorem of_succ (h : ∀ fuel, q (fuel + 1)) : Enough q :=
  step (p := fun _ => True) ⟨0, fun _ _ => trivial⟩ fun fuel _ => h fuel

theorem exists_fuel (h : Enough p) : ∃ fuel, p fuel := by
  obtain ⟨bound, hbound⟩ := h
  exact ⟨bound, hbound bound (Nat.le_refl bound)⟩

/-- The same fuel for each element of a list. -/
theorem forall_mem {β : Type} {r : β → Nat → Prop} (bs : List β)
    (h : ∀ b ∈ bs, Enough (r b)) : Enough fun fuel => ∀ b ∈ bs, r b fuel := by
  induction bs with
  | nil => exact ⟨0, fun fuel _ b hb => absurd hb List.not_mem_nil⟩
  | cons b bs ih =>
    have hrest := ih fun b' hb' => h b' (List.mem_cons_of_mem _ hb')
    refine ((h b List.mem_cons_self).and hrest).mono ?_
    intro fuel hboth
    exact List.forall_mem_cons.mpr hboth

/-- The results of all elements of a list, with the same fuel. -/
theorem mapM {β γ : Type} {f : Nat → β → Option γ} {P : γ → Prop} (bs : List β)
    (h : ∀ b ∈ bs, Enough fun fuel => ∃ c, f fuel b = some c ∧ P c) :
    Enough fun fuel => ∃ cs, bs.mapM (f fuel) = some cs ∧ ∀ c ∈ cs, P c := by
  induction bs with
  | nil => exact ⟨0, fun fuel _ => ⟨[], rfl, fun c hc => absurd hc List.not_mem_nil⟩⟩
  | cons b bs ih =>
    have hrest := ih fun b' hb' => h b' (List.mem_cons_of_mem _ hb')
    refine ((h b List.mem_cons_self).and hrest).mono ?_
    intro fuel hboth
    obtain ⟨⟨c, hc, hPc⟩, cs, hcs, hPcs⟩ := hboth
    refine ⟨c :: cs, ?_, fun c' hc' => ?_⟩
    · rw [List.mapM_cons, hc, hcs]
      rfl
    · rcases List.mem_cons.mp hc' with rfl | hc'
      · exact hPc
      · exact hPcs c' hc'

end Enough

end CableSwig.Lib.Fuel
