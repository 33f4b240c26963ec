import CableSwig.Executables.SwigTree
import Mathlib.Data.List.Nodup

/-!
# The bases that a class is given in SWIG

`FindWrappedBases` looks for bases in a group, and above the bases where none of them is in one.
The warnings about gaps are left out.
-/
namespace CableSwig.Executables.WrappedBases

open CableSwig.Executables.ClassGraph
open CableSwig.Executables.SwigTree

variable {κ : Type}

section Finding

variable (w : Wrapping κ) (templateName : String → String)

/-- `FindClassGroup` knows the class. -/
def wrapped (c : κ) : Bool := (w.findClassGroup (w.qualifiedName c)).isSome

/-- The name that is appended for a base. -/
def baseName (c : κ) : String := templateName (w.qualifiedName c)

/-- The loop over the direct parents, with `foundBase`. -/
def directBases (parents : List κ) (bases : List String) : List String × Bool :=
  parents.foldl
    (fun found p => if wrapped w p then (found.1 ++ [baseName w templateName p], true) else found)
    (bases, false)

def findWrappedBases (c : κ) (bases : List String) : List String :=
  let found := directBases w templateName (w.graph.bases c) bases
  if found.2 then found.1
  else (w.graph.bases c).attach.foldl (fun bases p => findWrappedBases p.1 bases) found.1
termination_by w.graph.rank c
decreasing_by exact w.graph.rank_lt c p.1 p.2

/-- The class is the first wrapped one on a path that leads up from `c`. -/
inductive FirstWrapped : κ → κ → Prop
  | base {c b : κ} : b ∈ w.graph.bases c → wrapped w b → FirstWrapped c b
  | above {c p b : κ} : p ∈ w.graph.bases c → wrapped w p = false → FirstWrapped p b →
      FirstWrapped c b

/-- Such a path, as the positions of the bases, on which no class has a wrapped base but the
last one before the end. -/
inductive GapPath : κ → List Nat → κ → Prop
  | base {c b : κ} {i : Nat} : (w.graph.bases c)[i]? = some b → wrapped w b → GapPath c [i] b
  | above {c p b : κ} {i : Nat} {path : List Nat} : (∀ q ∈ w.graph.bases c, wrapped w q = false) →
      (w.graph.bases c)[i]? = some p → GapPath p path b → GapPath c (i :: path) b

end Finding

section Paths

variable {w : Wrapping κ} {templateName : String → String}

/-- One step of the loop over the direct parents. -/
def appendWrapped (w : Wrapping κ) (templateName : String → String) (p : κ)
    (bases : List String) : List String :=
  if wrapped w p then bases ++ [baseName w templateName p] else bases

theorem directBases_eq (parents : List κ) : ∀ bases, directBases w templateName parents bases =
    (parents.foldl (fun bases p => appendWrapped w templateName p bases) bases,
      parents.any (wrapped w)) := by
  suffices hfold : ∀ found : List String × Bool,
      parents.foldl
        (fun found p =>
          if wrapped w p then (found.1 ++ [baseName w templateName p], true) else found)
        found = (parents.foldl (fun bases p => appendWrapped w templateName p bases) found.1,
          found.2 || parents.any (wrapped w)) by
    intro bases
    rw [directBases, hfold, Bool.false_or]
  induction parents with
  | nil => intro found; simp
  | cons p parents ih =>
    intro found
    rw [List.foldl_cons, ih, List.foldl_cons, List.any_cons, appendWrapped]
    cases hp : wrapped w p <;> simp

theorem findWrappedBases_eq (c : κ) (bases : List String) :
    findWrappedBases w templateName c bases =
      if (w.graph.bases c).any (wrapped w) then
        (w.graph.bases c).foldl (fun bases p => appendWrapped w templateName p bases) bases
      else
        (w.graph.bases c).foldl (fun bases p => findWrappedBases w templateName p bases) bases := by
  rw [findWrappedBases, directBases_eq]
  simp only
  split_ifs with hany
  · rfl
  · have hnone :
        (w.graph.bases c).foldl (fun bases p => appendWrapped w templateName p bases) bases =
        bases := by
      have hall : ∀ p ∈ w.graph.bases c, wrapped w p = false := by simpa using hany
      generalize w.graph.bases c = parents at hall
      induction parents with
      | nil => rfl
      | cons p parents ih =>
        rw [List.foldl_cons, appendWrapped, hall p List.mem_cons_self]
        exact ih fun q hq => hall q (List.mem_cons_of_mem _ hq)
    rw [hnone]
    exact List.foldl_attach (f := fun bases p => findWrappedBases w templateName p bases)

/-- A function appends the names of the classes that such paths lead to, each path once. -/
def Appends (w : Wrapping κ) (templateName : String → String) (P : List Nat → κ → Prop)
    (run : List String → List String) : Prop :=
  ∃ found : List (List Nat × κ), (found.map Prod.fst).Nodup ∧
    (∀ path b, (path, b) ∈ found ↔ P path b) ∧
    ∀ bases, run bases = bases ++ found.map fun f => baseName w templateName f.2

/-- A loop over parents goes through the paths that begin at each of them. -/
theorem appends_foldl {Q : κ → List Nat → κ → Prop} {run : κ → List String → List String}
    (parents : List κ) (hrun : ∀ p ∈ parents, Appends w templateName (Q p) (run p)) :
    ∀ k, Appends w templateName
      (fun path b => ∃ i p rest, path = (k + i) :: rest ∧ parents[i]? = some p ∧ Q p rest b)
      (parents.foldl fun bases p => run p bases) := by
  induction parents with
  | nil =>
    intro k
    refine ⟨[], List.nodup_nil, fun path b => ?_, fun bases => by simp⟩
    simp
  | cons q parents ih =>
    intro k
    obtain ⟨found, hnodup, hmem, happend⟩ := hrun q List.mem_cons_self
    obtain ⟨rest, hnodup', hmem', happend'⟩ :=
      ih (fun p hp => hrun p (List.mem_cons_of_mem _ hp)) (k + 1)
    refine ⟨found.map (fun f => (k :: f.1, f.2)) ++ rest, ?_, fun path b => ?_, fun bases => ?_⟩
    · rw [List.map_append, List.map_map]
      refine List.Nodup.append ?_ hnodup' ?_
      · have hcons : found.map (Prod.fst ∘ fun f : List Nat × κ => (k :: f.1, f.2)) =
            (found.map Prod.fst).map (k :: ·) := by rw [List.map_map]; rfl
        rw [hcons]
        exact hnodup.map (List.cons_injective)
      · intro path hpath hpath'
        obtain ⟨f, -, rfl⟩ := List.mem_map.mp hpath
        obtain ⟨⟨path', b⟩, hf', heq⟩ := List.mem_map.mp hpath'
        obtain ⟨i, p, rest', hi, -⟩ := (hmem' path' b).mp hf'
        rw [show path' = k :: f.1 from heq] at hi
        have := (List.cons.inj hi).1
        omega
    · rw [List.mem_append, hmem', List.mem_map]
      constructor
      · intro h
        rcases h with ⟨f, hf, heq⟩ | ⟨i, p, path', rfl, hp, hQ⟩
        · obtain ⟨rfl, rfl⟩ := Prod.mk.inj heq
          exact ⟨0, q, f.1, rfl, rfl, (hmem f.1 f.2).mp hf⟩
        · exact ⟨i + 1, p, path', by rw [Nat.add_assoc, Nat.add_comm 1], hp, hQ⟩
      · intro h
        obtain ⟨i, p, path', rfl, hp, hQ⟩ := h
        cases i with
        | zero =>
          obtain rfl : q = p := Option.some.inj hp
          exact Or.inl ⟨(path', b), (hmem path' b).mpr hQ, rfl⟩
        | succ i =>
          exact Or.inr ⟨i, p, path', by rw [Nat.add_assoc, Nat.add_comm 1], hp, hQ⟩
    · have hrest := happend' (run q bases)
      simp only [List.foldl_cons] at hrest ⊢
      rw [hrest, happend, List.map_append, List.map_map, List.append_assoc]
      rfl

end Paths

/-- The list has the name of the class at the end of each path, once for each path. -/
theorem appends_gap_paths (w : Wrapping κ) (templateName : String → String) (c : κ) :
    Appends w templateName (GapPath w c) (findWrappedBases w templateName c) := by
  induction c using rank_induction w.graph with
  | h c ih =>
    cases hany : (w.graph.bases c).any (wrapped w) with
    | true =>
      have hdirect : ∀ p ∈ w.graph.bases c, Appends w templateName
          (fun rest b => rest = [] ∧ p = b ∧ wrapped w b) (appendWrapped w templateName p) := by
        intro p _
        cases hp : wrapped w p with
        | true =>
          refine ⟨[([], p)], by simp, fun path b => ?_, fun bases => by simp [appendWrapped, hp]⟩
          rw [List.mem_singleton, Prod.mk.injEq]
          constructor
          · intro h
            exact ⟨h.1, h.2.symm, h.2 ▸ hp⟩
          · intro h
            exact ⟨h.1, h.2.1.symm⟩
        | false =>
          refine ⟨[], by simp, fun path b => ?_, fun bases => by simp [appendWrapped, hp]⟩
          refine ⟨fun h => absurd h List.not_mem_nil, fun h => ?_⟩
          obtain ⟨-, rfl, hb⟩ := h
          rw [hp] at hb
          cases hb
      obtain ⟨found, hnodup, hmem, happend⟩ := appends_foldl (w.graph.bases c) hdirect 0
      refine ⟨found, hnodup, fun path b => (hmem path b).trans ?_, fun bases => ?_⟩
      · constructor
        · intro h
          obtain ⟨i, p, rest, rfl, hp, rfl, rfl, hb⟩ := h
          rw [Nat.zero_add]
          exact .base hp hb
        · intro h
          cases h with
          | base hp hb => exact ⟨_, _, [], by rw [Nat.zero_add], hp, rfl, rfl, hb⟩
          | above hnone hp hpath =>
            obtain ⟨q, hq, hwrapped⟩ := List.any_eq_true.mp hany
            rw [hnone q hq] at hwrapped
            cases hwrapped
      · rw [findWrappedBases_eq, if_pos hany]
        exact happend bases
    | false =>
      have hnone : ∀ p ∈ w.graph.bases c, wrapped w p = false := by simpa using hany
      obtain ⟨found, hnodup, hmem, happend⟩ := appends_foldl (w.graph.bases c) ih 0
      refine ⟨found, hnodup, fun path b => (hmem path b).trans ?_, fun bases => ?_⟩
      · constructor
        · intro h
          obtain ⟨i, p, rest, rfl, hp, hpath⟩ := h
          rw [Nat.zero_add]
          exact .above hnone hp hpath
        · intro h
          cases h with
          | base hp hb =>
            rw [hnone _ (List.mem_of_getElem? hp)] at hb
            cases hb
          | above _ hp hpath => exact ⟨_, _, _, by rw [Nat.zero_add], hp, hpath⟩
      · rw [findWrappedBases_eq, if_neg (by simp [hany])]
        exact happend bases

theorem GapPath.firstWrapped {w : Wrapping κ} {c b : κ} {path : List Nat} (h : GapPath w c path b) :
    FirstWrapped w c b := by
  induction h with
  | base hp hb => exact .base (List.mem_of_getElem? hp) hb
  | above hnone hp _ ih =>
    have hmem := List.mem_of_getElem? hp
    exact .above hmem (hnone _ hmem) ih

/-- What is listed are first wrapped classes, and they are those on the paths that go on above a
class only if none of its bases is wrapped. -/
theorem wrapped_bases_listed (w : Wrapping κ) (templateName : String → String) (c : κ) :
    Appends w templateName (GapPath w c) (findWrappedBases w templateName c) ∧
      ∀ path b, GapPath w c path b → FirstWrapped w c b :=
  ⟨appends_gap_paths w templateName c, fun _ _ h => h.firstWrapped⟩

/-- The first wrapped classes are listed, each once. -/
def ListsFirstWrapped (w : Wrapping κ) (templateName : String → String) (c : κ) : Prop :=
  ∃ found : List κ, found.Nodup ∧ (∀ b, b ∈ found ↔ FirstWrapped w c b) ∧
    findWrappedBases w templateName c [] = found.map (baseName w templateName)

/-- `class C {}; class B : public C {}; class A {}; class D : public A, public B {};` where `A` and
`C` are in groups. -/
def mixedBases : Wrapping (Fin 4) where
  graph :=
    { bases := fun c => match c with | 0 => [1, 2] | 1 => [] | 2 => [3] | 3 => []
      methods := fun _ => []
      rank := fun c => match c with | 0 => 2 | 1 => 0 | 2 => 1 | 3 => 0
      rank_lt := by decide }
  context _ := .namespace []
  name c := match c with | 0 => "D" | 1 => "A" | 2 => "B" | 3 => "C"
  qualifiedName c := match c with | 0 => "D" | 1 => "A" | 2 => "B" | 3 => "C"
  file _ := "classes.h"
  included := []
  imported := []
  typedefLookup _ := none
  findClassGroup name := if name = "A" ∨ name = "C" then some "Classes" else none
  findImportTypedef _ := none
  typedef_isSome := by decide

/-- `C` is not listed, because `A` is wrapped. -/
theorem mixed_bases_not_listed : ¬ ListsFirstWrapped mixedBases id 0 := by
  intro h
  obtain ⟨found, -, hmem, hfound⟩ := h
  have hlisted : findWrappedBases mixedBases id 0 [] = ["A"] := by
    rw [findWrappedBases_eq]
    rfl
  have habove : (3 : Fin 4) ∈ found :=
    (hmem 3).mpr (.above (p := 2) (by decide) (by decide) (.base (by decide) (by decide)))
  have hname : "C" ∈ found.map (baseName mixedBases id) := List.mem_map.mpr ⟨3, habove, rfl⟩
  rw [← hfound, hlisted] at hname
  exact absurd hname (by decide)

/-- `class C {}; class A : public C {}; class B : public C {}; class D : public A, public B {};`
where only `C` is in a group. -/
def unwrappedDiamond : Wrapping (Fin 4) where
  graph :=
    { bases := fun c => match c with | 0 => [1, 2] | 1 => [3] | 2 => [3] | 3 => []
      methods := fun _ => []
      rank := fun c => match c with | 0 => 2 | 1 => 1 | 2 => 1 | 3 => 0
      rank_lt := by decide }
  context _ := .namespace []
  name c := match c with | 0 => "D" | 1 => "A" | 2 => "B" | 3 => "C"
  qualifiedName c := match c with | 0 => "D" | 1 => "A" | 2 => "B" | 3 => "C"
  file _ := "classes.h"
  included := []
  imported := []
  typedefLookup _ := none
  findClassGroup name := if name = "C" then some "Classes" else none
  findImportTypedef _ := none
  typedef_isSome := by decide

/-- `C` is listed twice, because it is found above `A` and above `B`. -/
theorem unwrapped_diamond_listed_twice :
    findWrappedBases unwrappedDiamond id 0 [] = ["C", "C"] ∧
      ¬ ListsFirstWrapped unwrappedDiamond id 0 := by
  have habove : ∀ c ∈ [(1 : Fin 4), 2], ∀ bases,
      findWrappedBases unwrappedDiamond id c bases = bases ++ ["C"] := by
    intro c hc bases
    rw [findWrappedBases_eq]
    rcases List.mem_cons.mp hc with rfl | hc
    · rfl
    · obtain rfl := List.mem_singleton.mp hc
      rfl
  have hlisted : findWrappedBases unwrappedDiamond id 0 [] = ["C", "C"] := by
    rw [findWrappedBases_eq, if_neg (by decide)]
    show findWrappedBases unwrappedDiamond id 2 (findWrappedBases unwrappedDiamond id 1 []) = _
    rw [habove 1 (by decide), habove 2 (by decide)]
    rfl
  refine ⟨hlisted, ?_⟩
  rintro ⟨found, hnodup, -, hfound⟩
  rw [hlisted] at hfound
  obtain ⟨first, rest, rfl, hfirst, hrest⟩ := List.map_eq_cons_iff.mp hfound.symm
  obtain ⟨second, rest, rfl, hsecond, -⟩ := List.map_eq_cons_iff.mp hrest
  have hname : ∀ c c' : Fin 4, baseName unwrappedDiamond id c = "C" →
      baseName unwrappedDiamond id c' = "C" → c = c' := by decide
  obtain rfl := hname first second hfirst hsecond
  exact (List.nodup_cons.mp hnodup).1 List.mem_cons_self

/-- A class may be missing from the list, and it may stand there twice. -/
theorem first_wrapped_not_listed_once :
    ¬ ListsFirstWrapped mixedBases id 0 ∧
      findWrappedBases unwrappedDiamond id 0 [] = ["C", "C"] ∧
      ¬ ListsFirstWrapped unwrappedDiamond id 0 :=
  ⟨mixed_bases_not_listed, unwrapped_diamond_listed_twice⟩

end CableSwig.Executables.WrappedBases
