import CableSwig.Executables.SwigTree

/-!
# Classes inside of classes

SWIG cannot handle nested classes. `CreateSwigClassInNamespace` skips a class where the context of
its context has a name of its own.
-/
namespace CableSwig.Executables.NestedClasses

open CableSwig.Executables.ClassGraph
open CableSwig.Executables.SwigTree

variable {κ : Type} [DecidableEq κ]

/-- A class of the two sets, or one that such a class is derived from. -/
def ReachedByPasses (w : Wrapping κ) (c : κ) : Prop :=
  Reached w w.imported c ∨ Reached w w.included c

/-- The tree has no node for a class that is declared in another one. -/
def NestedNeverWrapped (w : Wrapping κ) (moduleName : String) : Prop :=
  ∀ c d, w.context c = .cls d → ∀ n ∈ (w.processClasses moduleName).top, n.swigClass ≠ c

section Processed

variable {w : Wrapping κ} {P : ClassNode κ → Prop} {s s' : State κ} {c : κ}

/-- The loop over the base classes processes nothing else. -/
theorem processParents_processed (moduleName : String) (c : κ) (s : State κ) :
    ∀ p ∈ (w.processParents moduleName c s).processed, Derives w.graph c p ∨ p ∈ s.processed := by
  have hloop : ∀ l : List κ, (∀ q ∈ l, Derives w.graph c q) →
      ∀ p ∈ (l.foldr (w.processParent moduleName c) s).processed,
        Derives w.graph c p ∨ p ∈ s.processed := by
    intro l hl
    induction l with
    | nil => exact fun p hp => Or.inr hp
    | cons q l ih =>
      intro p hp
      have hvisited := processParent_visited w (P := fun _ => True) moduleName c q
        (l.foldr (w.processParent moduleName c) s) (fun _ _ => trivial) (fun _ _ _ => trivial)
      rcases hvisited.processed_eq_or p hp with rfl | hp
      · exact Or.inl (hl p List.mem_cons_self)
      · exact ih (fun r hr => hl r (List.mem_cons_of_mem _ hr)) p hp
  exact hloop _ fun q hq => getAllBaseClasses_iff.mp hq

/-- A pass over a set of classes processes what it reaches. -/
theorem pass_processed {moduleName : String} {visit : κ → State κ → State κ} (l : List κ)
    (hvisit : ∀ c ∈ l, ∀ s, Visited w P s c (visit c s)) (s : State κ) :
    ∀ p ∈ (l.foldl (fun s c => visit c (w.processParents moduleName c s)) s).processed,
      Reached w l p ∨ p ∈ s.processed := by
  induction l generalizing s with
  | nil => exact fun p hp => Or.inr hp
  | cons c l ih =>
    intro p hp
    rcases ih (fun d hd => hvisit d (List.mem_cons_of_mem _ hd)) _ p hp with ⟨d, hd, hp⟩ | hp
    · exact Or.inl ⟨d, List.mem_cons_of_mem _ hd, hp⟩
    · rcases (hvisit c List.mem_cons_self _).processed_eq_or p hp with rfl | hp
      · exact Or.inl ⟨p, List.mem_cons_self, Or.inl rfl⟩
      · rcases processParents_processed moduleName c s p hp with hp | hp
        · exact Or.inl ⟨c, List.mem_cons_self, Or.inr hp⟩
        · exact Or.inr hp

/-- The two passes process the classes that they reach, and no other. -/
theorem processed_iff (w : Wrapping κ) (moduleName : String) (c : κ) :
    c ∈ (w.processClasses moduleName).processed ↔ ReachedByPasses w c := by
  constructor
  · intro hc
    rcases pass_processed (P := fun _ => True) w.included
      (fun d hd s => includeClass_visited w hd moduleName d s fun _ => trivial) _ c hc with hc | hc
    · exact Or.inr hc
    · rcases pass_processed (P := fun _ => True) w.imported
        (fun d _ s => importClass_visited w d s fun _ _ => trivial) _ c hc with hc | hc
      · exact Or.inl hc
      · exact absurd hc List.not_mem_nil
  · intro hc
    obtain ⟨ho, -, hmem⟩ := processImportedClasses_visits w (P := fun _ => True) "cableImport"
      (fun _ _ _ _ _ _ => trivial) (fun _ _ _ _ => trivial) (fun _ _ => trivial) (ordered_start w)
    obtain ⟨-, he, hmem'⟩ := processIncludedClasses_visits w (P := fun _ => True) moduleName
      (fun _ _ _ => trivial) (fun _ _ => trivial) ho
    rcases hc with hc | hc
    · exact he.processed c (hmem c hc)
    · exact hmem' c hc

end Processed

omit [DecidableEq κ] in
theorem skips_nested {w : Wrapping κ} {c d : κ} (h : w.context c = .cls d) :
    w.skips c = true ↔ w.contextName (w.context d) ≠ "::" := by
  have houter : w.outerContext c =
      (some (w.context d)).filter fun context => w.contextName context ≠ "::" := by
    rw [Wrapping.outerContext, h]
    rfl
  rw [Wrapping.skips, houter, h]
  by_cases hname : w.contextName (w.context d) = "::"
  · simp [hname, Option.filter]
  · simp [hname, Option.filter]

/-- Nested classes are left out unless the class around them is in the global namespace. -/
theorem nested_never_wrapped_iff (w : Wrapping κ) (moduleName : String) :
    NestedNeverWrapped w moduleName ↔
      ∀ c d, w.context c = .cls d → ReachedByPasses w c → w.contextName (w.context d) ≠ "::" := by
  have htop := (processClasses_ordered w moduleName).1.top_eq
  have hnode : ∀ c, (∃ n ∈ (w.processClasses moduleName).top, n.swigClass = c) ↔
      ReachedByPasses w c ∧ w.skips c = false := by
    intro c
    rw [← List.mem_map, htop, List.mem_reverse, List.mem_filter, processed_iff]
    simp
  constructor
  · intro h c d hcontext hreached
    by_contra hname
    have hskips : w.skips c = false := by
      rw [← Bool.not_eq_true, skips_nested hcontext]
      exact fun hne => hne hname
    obtain ⟨n, hn, hc⟩ := (hnode c).mpr ⟨hreached, hskips⟩
    exact h c d hcontext n hn hc
  · intro h c d hcontext n hn hc
    obtain ⟨hreached, hskips⟩ := (hnode c).mp ⟨n, hn, hc⟩
    have hskips' := (skips_nested hcontext).mpr (h c d hcontext hreached)
    rw [hskips] at hskips'
    cases hskips'

/-- `struct A { struct B {}; };` with a wrapper typedef for `A::B`. -/
def nestedInGlobal : Wrapping Bool where
  graph :=
    { bases := fun _ => []
      methods := fun _ => []
      rank := fun _ => 0
      rank_lt := by decide }
  context c := if c then .cls false else .namespace []
  name c := if c then "B" else "A"
  qualifiedName c := if c then "A::B" else "A"
  file _ := "A.h"
  included := [true]
  imported := []
  typedefLookup c := if c then some "AB" else none
  findClassGroup _ := none
  findImportTypedef _ := none
  typedef_isSome := by decide

theorem nested_in_global_wrapped : ¬ NestedNeverWrapped nestedInGlobal "Shapes" := by
  intro h
  have hnode : (nestedInGlobal.processClasses "Shapes").top.head? = some
      ⟨"include", "A.h", "Shapes", none, true, "AB", false⟩ := by decide
  exact h true false rfl _ (List.mem_of_mem_head? hnode) rfl

end CableSwig.Executables.NestedClasses
