import Mathlib.Logic.Relation
import Mathlib.Data.List.Basic
import Mathlib.Tactic.Common

/-!
# Classes, bases and method types

The part of a source representation that the wrapping decisions read: which classes a
class derives from and which types its methods mention.
-/
namespace CableSwig.Executables.ClassGraph

variable {κ : Type}

/-- The types of Cable, as far as `AddImportClass` looks into them. -/
inductive CableType (κ : Type)
  | reference (target : CableType κ)
  | pointer (target : CableType κ)
  | classType (c : κ)
  | other
deriving DecidableEq, Repr

/-- The `FunctionType` of a method. -/
structure Signature (κ : Type) where
  returns : CableType κ
  arguments : List (CableType κ)
deriving DecidableEq, Repr

/-- An acyclic class graph: a base has a smaller rank than the classes derived from it. -/
structure Classes (κ : Type) where
  bases : κ → List κ
  methods : κ → List (Signature κ)
  rank : κ → Nat
  rank_lt : ∀ c, ∀ b ∈ bases c, rank b < rank c

/-- The bases of a class, its bases' bases and so on. -/
def Derives (g : Classes κ) (c b : κ) : Prop := Relation.TransGen (fun c b => b ∈ g.bases c) c b

/-- `Class::GetAllBaseClasses` for hierarchies at most so deep. -/
def allBases (g : Classes κ) : Nat → κ → List κ
  | 0, _ => []
  | depth + 1, c => g.bases c ++ (g.bases c).flatMap (allBases g depth)

/-- `Class::GetAllBaseClasses`: the bases, and then all bases of each of them. -/
def getAllBaseClasses (g : Classes κ) (c : κ) : List κ := allBases g (g.rank c + 1) c

/-- Induction on the depth of a class in the hierarchy. -/
theorem rank_induction (g : Classes κ) {P : κ → Prop}
    (h : ∀ c, (∀ b ∈ g.bases c, P b) → P c) (c : κ) : P c := by
  suffices hall : ∀ r c, g.rank c < r → P c from hall (g.rank c + 1) c (Nat.lt_succ_self _)
  intro r
  induction r with
  | zero => intro c hc; omega
  | succ r ih =>
    intro c hc
    refine h c fun b hb => ih b ?_
    have hlt := g.rank_lt c b hb
    omega

theorem allBases_eq (g : Classes κ) (c : κ) :
    ∀ {n m : Nat}, g.rank c < n → g.rank c < m → allBases g n c = allBases g m c := by
  induction c using rank_induction g with
  | h c ih =>
    intro n m hn hm
    obtain ⟨n, rfl⟩ : ∃ k, n = k + 1 := ⟨n - 1, by omega⟩
    obtain ⟨m, rfl⟩ : ∃ k, m = k + 1 := ⟨m - 1, by omega⟩
    simp only [allBases]
    congr 1
    refine List.flatMap_congr fun b hb => ?_
    have hlt := g.rank_lt c b hb
    exact ih b hb (by omega) (by omega)

/-- The recursion of `Class::GetAllBaseClasses`. -/
theorem getAllBaseClasses_eq (g : Classes κ) (c : κ) :
    getAllBaseClasses g c = g.bases c ++ (g.bases c).flatMap (getAllBaseClasses g) := by
  unfold getAllBaseClasses
  simp only [allBases]
  congr 1
  refine List.flatMap_congr fun b hb => ?_
  have hlt := g.rank_lt c b hb
  exact allBases_eq g b hlt (Nat.lt_succ_self _)

theorem mem_getAllBaseClasses {g : Classes κ} {c b : κ} :
    b ∈ getAllBaseClasses g c ↔ b ∈ g.bases c ∨ ∃ d ∈ g.bases c, b ∈ getAllBaseClasses g d := by
  rw [getAllBaseClasses_eq, List.mem_append, List.mem_flatMap]

/-- `Class::GetAllBaseClasses` lists the bases at any distance, each possibly many times. -/
theorem getAllBaseClasses_iff {g : Classes κ} {c b : κ} :
    b ∈ getAllBaseClasses g c ↔ Derives g c b := by
  constructor
  · revert b
    induction c using rank_induction g with
    | h c ih =>
      intro b hb
      rcases mem_getAllBaseClasses.mp hb with hb | ⟨d, hd, hb⟩
      · exact .single hb
      · exact (Relation.TransGen.single hd).trans (ih d hd hb)
  · intro h
    induction h using Relation.TransGen.head_induction_on with
    | single h => exact mem_getAllBaseClasses.mpr (Or.inl h)
    | head hd _ ih => exact mem_getAllBaseClasses.mpr (Or.inr ⟨_, hd, ih⟩)

theorem Derives.trans {g : Classes κ} {c b a : κ} (h : Derives g c b) (h' : Derives g b a) :
    Derives g c a := Relation.TransGen.trans h h'

/-- A list in which all bases of a class stand behind it. -/
def BasesLater (g : Classes κ) : List κ → Prop
  | [] => True
  | p :: l => (∀ b, Derives g p b → b ∈ l) ∧ BasesLater g l

theorem BasesLater.append {g : Classes κ} {l l' : List κ} (h : BasesLater g l)
    (h' : BasesLater g l') : BasesLater g (l ++ l') := by
  induction l with
  | nil => exact h'
  | cons p l ih =>
    obtain ⟨hp, hl⟩ := h
    exact ⟨fun b hb => List.mem_append_left _ (hp b hb), ih hl⟩

theorem BasesLater.append_of_mem {g : Classes κ} {l l' : List κ}
    (h : ∀ p ∈ l, ∀ b, Derives g p b → b ∈ l') (h' : BasesLater g l') :
    BasesLater g (l ++ l') := by
  induction l with
  | nil => exact h'
  | cons p l ih =>
    refine ⟨fun b hb => List.mem_append_right _ (h p List.mem_cons_self b hb), ?_⟩
    exact ih fun q hq => h q (List.mem_cons_of_mem _ hq)

/-- `Class::GetAllBaseClasses` puts the bases of a class behind each of its occurrences. -/
theorem getAllBaseClasses_basesLater (g : Classes κ) (c : κ) :
    BasesLater g (getAllBaseClasses g c) := by
  induction c using rank_induction g with
  | h c ih =>
    have hflat : ∀ l : List κ, (∀ d ∈ l, d ∈ g.bases c) →
        BasesLater g (l.flatMap (getAllBaseClasses g)) := by
      intro l hl
      induction l with
      | nil => trivial
      | cons d l ihl =>
        rw [List.flatMap_cons]
        exact (ih d (hl d List.mem_cons_self)).append
          (ihl fun d' hd' => hl d' (List.mem_cons_of_mem _ hd'))
    rw [getAllBaseClasses_eq]
    refine BasesLater.append_of_mem (fun p hp b hb => ?_) (hflat _ fun _ h => h)
    exact List.mem_flatMap.mpr ⟨p, hp, getAllBaseClasses_iff.mpr hb⟩

end CableSwig.Executables.ClassGraph
