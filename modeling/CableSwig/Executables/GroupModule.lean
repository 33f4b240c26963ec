import CableSwig.Executables.SwigTree

/-!
# The module of an included class

The pass over the imported classes also reaches included classes, as their bases, and
hands them the module it was given for imported classes. The later pass then finds them
processed.
-/
namespace CableSwig.Executables.GroupModule

open CableSwig.Executables.ClassGraph
open CableSwig.Executables.SwigTree

variable {κ : Type} [DecidableEq κ] (w : Wrapping κ)

/-- The nodes of included classes are under this module. -/
def IncludedUnder (moduleName : String) (s : State κ) : Prop :=
  ∀ n ∈ s.top, n.swigClass ∈ w.included → n.module = moduleName

/-- The first pass alone: the included classes it reaches are under its own module. -/
theorem imported_pass_included (hdisjoint : ∀ c ∈ w.included, c ∉ w.imported) :
    IncludedUnder w "cableImport" (w.processImportedClasses "cableImport" {}) := by
  obtain ⟨-, he, -⟩ := processImportedClasses_visits w
    (P := fun n => n.swigClass ∈ w.included → n.module = "cableImport") "cableImport"
    (fun _ _ _ _ _ _ _ => rfl)
    (fun c hc n hn hin => absurd hc (hdisjoint c (hn ▸ hin)))
    (fun n hn hin => absurd hin hn) (ordered_start w)
  obtain ⟨new, hnew, hP⟩ := he.top
  intro n hn
  rw [hnew, List.nil_append] at hn
  exact hP n hn

/-- The first pass has no node for an included class if it skips those it reaches. -/
theorem imported_pass_none (hdisjoint : ∀ c ∈ w.included, c ∉ w.imported)
    (hskips : ∀ c ∈ w.imported, ∀ p ∈ w.included, Derives w.graph c p → w.skips p = true) :
    ∀ n ∈ (w.processImportedClasses "cableImport" {}).top, n.swigClass ∉ w.included := by
  obtain ⟨ho, he, -⟩ := processImportedClasses_visits w
    (P := fun n => n.swigClass ∈ w.included →
      ∃ c ∈ w.imported, Derives w.graph c n.swigClass) "cableImport"
    (fun _ _ c hc hd _ _ => ⟨c, hc, hd⟩)
    (fun c hc n hn hin => absurd hc (hdisjoint c (hn ▸ hin)))
    (fun n hn hin => absurd hin hn) (ordered_start w)
  obtain ⟨new, hnew, hP⟩ := he.top
  intro n hn hin
  have hmem : n.swigClass ∈ (w.processImportedClasses "cableImport" {}).top.map
      ClassNode.swigClass := List.mem_map_of_mem hn
  rw [ho.top_eq, List.mem_reverse, List.mem_filter] at hmem
  rw [hnew, List.nil_append] at hn
  obtain ⟨c, hc, hd⟩ := hP n hn hin
  rw [hskips c hc _ hin hd] at hmem
  exact absurd hmem.2 (by decide)

/-- The second pass adds nodes for included classes under the module of the group only. -/
theorem included_pass_top {s : State κ} (hs : Ordered w s) (moduleName : String) :
    ∃ new, (w.processIncludedClasses moduleName s).top = s.top ++ new ∧
      ∀ n ∈ new, n.swigClass ∈ w.included → n.module = moduleName := by
  obtain ⟨-, he, -⟩ := processIncludedClasses_visits w
    (P := fun n => n.swigClass ∈ w.included → n.module = moduleName) moduleName
    (fun _ _ _ _ => rfl) (fun n hn hin => absurd hin hn) hs
  exact he.top

theorem imported_pass_ordered :
    Ordered w (w.processImportedClasses "cableImport" {}) ∧
      ∀ p, Reached w w.imported p →
        p ∈ (w.processImportedClasses "cableImport" {}).processed := by
  obtain ⟨ho, -, hmem⟩ := processImportedClasses_visits w (P := fun _ => True) "cableImport"
    (fun _ _ _ _ _ _ => trivial) (fun _ _ _ _ => trivial) (fun _ _ => trivial) (ordered_start w)
  exact ⟨ho, hmem⟩

/-- The included classes have their nodes under the module of the group being wrapped exactly
if that is the import module, or if no imported class derives from an included class that
has a node. -/
theorem included_under_group_module_iff (hdisjoint : ∀ c ∈ w.included, c ∉ w.imported)
    (moduleName : String) :
    IncludedUnder w moduleName (w.processClasses moduleName) ↔
      moduleName = "cableImport" ∨
        ∀ c ∈ w.imported, ∀ p ∈ w.included, Derives w.graph c p → w.skips p = true := by
  obtain ⟨ho, hreached⟩ := imported_pass_ordered w
  obtain ⟨new, hnew, hP⟩ := included_pass_top w ho moduleName
  have hfirst := imported_pass_included w hdisjoint
  constructor
  · intro h
    by_cases hname : moduleName = "cableImport"
    · exact Or.inl hname
    · refine Or.inr fun c hc p hp hd => ?_
      cases hskip : w.skips p with
      | true => rfl
      | false =>
        have hnode : p ∈ (w.processImportedClasses "cableImport" {}).top.map
            ClassNode.swigClass := by
          rw [ho.top_eq, List.mem_reverse, List.mem_filter]
          exact ⟨hreached p ⟨c, hc, Or.inr hd⟩, by simp [hskip]⟩
        obtain ⟨n, hn, rfl⟩ := List.mem_map.mp hnode
        have htop : n ∈ (w.processClasses moduleName).top := by
          rw [Wrapping.processClasses, hnew]
          exact List.mem_append_left _ hn
        exact absurd ((h n htop hp).symm.trans (hfirst n hn hp)) hname
  · intro h n hn hin
    rw [Wrapping.processClasses, hnew] at hn
    rcases List.mem_append.mp hn with hn | hn
    · rcases h with rfl | hskips
      · exact hfirst n hn hin
      · exact absurd hin (imported_pass_none w hdisjoint hskips n hn)
    · exact hP n hn hin

/-- `class B; class A { B* clone(); }; class B : public A {};` with a wrapper typedef for `A`
only: `B` is imported because `A` mentions it. -/
def cloneWrapping : Wrapping Bool where
  graph :=
    { bases := fun c => if c then [false] else []
      methods := fun c => if c then [] else [⟨.pointer (.classType true), []⟩]
      rank := fun c => if c then 1 else 0
      rank_lt := by decide }
  context _ := .namespace []
  name c := if c then "B" else "A"
  qualifiedName c := if c then "B" else "A"
  file c := if c then "B.h" else "A.h"
  included := [false]
  imported := [true]
  typedefLookup c := if c then none else some "A"
  findClassGroup _ := none
  findImportTypedef _ := none
  typedef_isSome := by decide

/-- `A` gets its node under the import module. -/
theorem included_under_import_module :
    ¬IncludedUnder cloneWrapping "Shapes" (cloneWrapping.processClasses "Shapes") := by
  intro h
  have hnode : (cloneWrapping.processClasses "Shapes").top.head? = some
      ⟨"include", "A.h", "cableImport", none, false, "A", false⟩ := by decide
  exact absurd (h _ (List.mem_of_mem_head? hnode) (by decide)) (by decide)

/-- The same classes with a wrapper typedef for `B` only, so that `A` is imported as its base:
`B` gets its node under the module of the group. -/
theorem included_under_group_module_base :
    let w : Wrapping Bool :=
      { cloneWrapping with
        included := [true], imported := [false]
        typedefLookup := fun c => if c then some "B" else none, typedef_isSome := by decide }
    IncludedUnder w "Shapes" (w.processClasses "Shapes") := by
  intro w
  refine (included_under_group_module_iff w (by decide) "Shapes").mpr (Or.inr ?_)
  intro c hc p hp hd
  obtain rfl := List.mem_singleton.mp hc
  rw [← getAllBaseClasses_iff] at hd
  exact absurd hd (by decide +revert)

end CableSwig.Executables.GroupModule
