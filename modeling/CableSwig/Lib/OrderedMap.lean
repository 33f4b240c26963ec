import Mathlib.Data.List.Sort
import Mathlib.Order.Lattice
import Mathlib.Order.Defs.Unbundled
import Mathlib.Data.Prod.Basic
import Mathlib.Tactic.Common

/-!
# Ordered maps keyed through a comparison

The standard ordered map never asks whether two keys are equal. It takes two keys
for the same one when neither is less than the other, so what it does depends on
the comparison it is given. Under a strict total order that test is equality, and
the orders of pairs and of sequences inherit the property from their components.
-/
namespace CableSwig.Lib.OrderedMap

variable {α β κ ν : Type}

/-- A comparison that is a strict total order. -/
abbrev StrictTotal (less : α → α → Bool) : Prop :=
  IsStrictTotalOrder α (fun a b => less a b = true)

theorem StrictTotal.irrefl {less : α → α → Bool} (h : StrictTotal less) (a : α) :
    less a a = false := by
  have := h.toIrrefl.irrefl a
  simpa using this

theorem StrictTotal.trans {less : α → α → Bool} (h : StrictTotal less) {a b c : α}
    (hab : less a b = true) (hbc : less b c = true) : less a c = true :=
  h.toIsTrans.trans a b c hab hbc

theorem StrictTotal.eq_of_not_less {less : α → α → Bool} (h : StrictTotal less) {a b : α}
    (hab : less a b = false) (hba : less b a = false) : a = b :=
  h.toTrichotomous.trichotomous a b (by simp [hab]) (by simp [hba])

theorem StrictTotal.not_less_trans {less : α → α → Bool} (h : StrictTotal less) {a b c : α}
    (hba : less b a = false) (hcb : less c b = false) : less c a = false := by
  by_contra hca
  rw [Bool.not_eq_false] at hca
  cases hab : less a b with
  | true => exact Bool.false_ne_true (hcb.symm.trans (h.trans hca hab))
  | false =>
    obtain rfl := h.eq_of_not_less hab hba
    exact Bool.false_ne_true (hcb.symm.trans hca)

/-- A list that is sorted by keys. -/
theorem StrictTotal.pairwise_insertionSort {less : α → α → Bool} (h : StrictTotal less)
    (key : β → α) (l : List β) :
    (l.insertionSort fun a b => ¬ less (key b) (key a)).Pairwise
      fun a b => less (key b) (key a) = false := by
  have htotal : Std.Total fun a b : β => ¬ less (key b) (key a) = true := ⟨by
    intro a b
    cases hba : less (key b) (key a) with
    | false => exact Or.inl Bool.false_ne_true
    | true =>
      refine Or.inr fun hab => Bool.false_ne_true ?_
      rw [← h.irrefl (key a)]
      exact h.trans hab hba⟩
  have htrans : IsTrans β fun a b => ¬ less (key b) (key a) = true := ⟨by
    intro a b c hab hbc
    rw [Bool.not_eq_true] at hab hbc ⊢
    exact h.not_less_trans hab hbc⟩
  exact (List.pairwise_insertionSort _ l).imp fun hab => Bool.eq_false_iff.mpr hab

/-- In a list that is sorted by different keys, what stands before an entry has smaller keys. -/
theorem StrictTotal.mem_before_iff {less : α → α → Bool} (h : StrictTotal less) {key : β → α}
    {before after : List β} {a b : β}
    (hsorted : (before ++ a :: after).Pairwise fun a b => less (key b) (key a) = false)
    (hkeys : ((before ++ a :: after).map key).Nodup) (hb : b ∈ before ++ a :: after) :
    b ∈ before ↔ less (key b) (key a) = true := by
  obtain ⟨-, hafter, hbefore⟩ := List.pairwise_append.mp hsorted
  constructor
  · intro hmem
    have hne : key b ≠ key a := by
      rw [List.map_append, List.map_cons] at hkeys
      intro heq
      exact List.disjoint_of_nodup_append hkeys (heq ▸ List.mem_map_of_mem hmem)
        List.mem_cons_self
    by_contra hnot
    exact hne (h.eq_of_not_less (by simpa using hnot) (hbefore b hmem a List.mem_cons_self))
  · intro hless
    rcases List.mem_append.mp hb with hmem | hmem
    · exact hmem
    · rcases List.mem_cons.mp hmem with rfl | hmem
      · simp [h.irrefl] at hless
      · simp [List.rel_of_pairwise_cons hafter hmem] at hless

theorem strictTotal_intro {less : α → α → Bool} (hi : ∀ a, less a a = false)
    (ht : ∀ a b c, less a b = true → less b c = true → less a c = true)
    (he : ∀ a b, less a b = false → less b a = false → a = b) : StrictTotal less where
  irrefl a := by simp [hi a]
  trans a b c := ht a b c
  trichotomous a b hab hba := he a b (by simpa using hab) (by simpa using hba)

/-- The order of a linearly ordered key. -/
def ordLess [LinearOrder α] (a b : α) : Bool := decide (a < b)

theorem ordLess_strictTotal [LinearOrder α] : StrictTotal (ordLess (α := α)) := by
  apply strictTotal_intro
  · intro a; simp [ordLess]
  · intro a b c hab hbc
    simp only [ordLess, decide_eq_true_eq] at hab hbc ⊢
    exact lt_trans hab hbc
  · intro a b hab hba
    simp only [ordLess, decide_eq_false_iff_not, not_lt] at hab hba
    exact le_antisymm hba hab

/-- A comparison pulled back along an injective reading of the key. -/
theorem strictTotal_comap {less : β → β → Bool} (h : StrictTotal less) {f : α → β}
    (hf : Function.Injective f) : StrictTotal (fun a b => less (f a) (f b)) := by
  apply strictTotal_intro
  · intro a; exact h.irrefl _
  · intro a b c; exact h.trans
  · intro a b hab hba; exact hf (h.eq_of_not_less hab hba)

/-- `operator<` of a pair: the first components decide unless neither is less. -/
def pairLess (lessA : α → α → Bool) (lessB : β → β → Bool) (x y : α × β) : Bool :=
  lessA x.1 y.1 || (!lessA y.1 x.1 && lessB x.2 y.2)

theorem pairLess_iff {lessA : α → α → Bool} {lessB : β → β → Bool} (hA : StrictTotal lessA)
    (x y : α × β) :
    pairLess lessA lessB x y = true ↔
      lessA x.1 y.1 = true ∨ (x.1 = y.1 ∧ lessB x.2 y.2 = true) := by
  simp only [pairLess, Bool.or_eq_true, Bool.and_eq_true, Bool.not_eq_true']
  constructor
  · rintro (h | ⟨hyx, h⟩)
    · exact Or.inl h
    · cases hxy : lessA x.1 y.1 with
      | true => exact Or.inl rfl
      | false => exact Or.inr ⟨hA.eq_of_not_less hxy hyx, h⟩
  · rintro (h | ⟨he, h⟩)
    · exact Or.inl h
    · exact Or.inr ⟨by rw [he]; exact hA.irrefl _, h⟩

theorem pairLess_strictTotal {lessA : α → α → Bool} {lessB : β → β → Bool}
    (hA : StrictTotal lessA) (hB : StrictTotal lessB) : StrictTotal (pairLess lessA lessB) := by
  apply strictTotal_intro
  · intro a
    simp [pairLess, hA.irrefl, hB.irrefl]
  · intro a b c hab hbc
    rw [pairLess_iff hA] at hab hbc ⊢
    rcases hab with hab | ⟨hab, hab'⟩
    · rcases hbc with hbc | ⟨hbc, -⟩
      · exact Or.inl (hA.trans hab hbc)
      · exact Or.inl (hbc ▸ hab)
    · rcases hbc with hbc | ⟨hbc, hbc'⟩
      · exact Or.inl (hab ▸ hbc)
      · exact Or.inr ⟨hab.trans hbc, hB.trans hab' hbc'⟩
  · intro a b hab hba
    simp only [pairLess, Bool.or_eq_false_iff, Bool.and_eq_false_iff, Bool.not_eq_false'] at hab hba
    have h1 : a.1 = b.1 := hA.eq_of_not_less hab.1 hba.1
    have h2 : a.2 = b.2 := by
      apply hB.eq_of_not_less
      · exact hab.2.resolve_left (by rw [hba.1]; decide)
      · exact hba.2.resolve_left (by rw [hab.1]; decide)
    exact Prod.ext h1 h2

/-- Lexicographic comparison of two sequences. -/
def lexLess (less : α → α → Bool) : List α → List α → Bool
  | _, [] => false
  | [], _ :: _ => true
  | a :: as, b :: bs => less a b || (!less b a && lexLess less as bs)

theorem lexLess_cons {less : α → α → Bool} (a b : α) (as bs : List α) :
    lexLess less (a :: as) (b :: bs) = pairLess less (lexLess less) (a, as) (b, bs) := rfl

theorem lexLess_strictTotal {less : α → α → Bool} (h : StrictTotal less) :
    StrictTotal (lexLess less) := by
  apply strictTotal_intro
  · intro l
    induction l with
    | nil => rfl
    | cons a as ih => simp [lexLess, h.irrefl, ih]
  · intro x
    induction x with
    | nil =>
      intro y z hxy hyz
      cases z with
      | nil => simp [lexLess] at hyz
      | cons c cs => rfl
    | cons a as ih =>
      intro y z hxy hyz
      cases y with
      | nil => simp [lexLess] at hxy
      | cons b bs =>
        cases z with
        | nil => simp [lexLess] at hyz
        | cons c cs =>
          rw [lexLess_cons, pairLess_iff h] at hxy hyz ⊢
          rcases hxy with hab | ⟨hab, hab'⟩
          · rcases hyz with hbc | ⟨hbc, -⟩
            · exact Or.inl (h.trans hab hbc)
            · exact Or.inl (by rw [← show b = c from hbc]; exact hab)
          · rcases hyz with hbc | ⟨hbc, hbc'⟩
            · exact Or.inl (by rw [show a = b from hab]; exact hbc)
            · exact Or.inr ⟨hab.trans hbc, ih _ _ hab' hbc'⟩
  · intro x
    induction x with
    | nil =>
      intro y hxy _
      cases y with
      | nil => rfl
      | cons b bs => simp [lexLess] at hxy
    | cons a as ih =>
      intro y hxy hyx
      cases y with
      | nil => simp [lexLess] at hyx
      | cons b bs =>
        simp only [lexLess, Bool.or_eq_false_iff, Bool.and_eq_false_iff,
          Bool.not_eq_false'] at hxy hyx
        have hhead : a = b := h.eq_of_not_less hxy.1 hyx.1
        have htail : as = bs := by
          apply ih
          · exact hxy.2.resolve_left (by rw [hyx.1]; decide)
          · exact hyx.2.resolve_left (by rw [hxy.1]; decide)
        rw [hhead, htail]

/-- The entries of a map. Their order carries no information. -/
structure StdMap (κ ν : Type) where
  entries : List (κ × ν)

namespace StdMap

def empty : StdMap κ ν := ⟨[]⟩

/-- `find`: the entry whose key is neither less nor greater than the one sought. -/
def find (less : κ → κ → Bool) (m : StdMap κ ν) (k : κ) : Option ν :=
  (m.entries.find? fun e => !less e.1 k && !less k e.1).map Prod.snd

/-- `insert`: a key that is already there keeps its value. -/
def insert (less : κ → κ → Bool) (m : StdMap κ ν) (k : κ) (v : ν) : StdMap κ ν :=
  match m.find less k with
  | some _ => m
  | none => ⟨(k, v) :: m.entries⟩

/-- Assignment through `operator[]`: a key that is already there gets the new value. -/
def assign (less : κ → κ → Bool) (m : StdMap κ ν) (k : κ) (v : ν) : StdMap κ ν :=
  ⟨(k, v) :: m.entries.filter fun e => less e.1 k || less k e.1⟩

/-- Assignments one after the other. -/
def assignAll (less : κ → κ → Bool) (m : StdMap κ ν) (kvs : List (κ × ν)) : StdMap κ ν :=
  kvs.foldl (fun m e => m.assign less e.1 e.2) m

@[simp] theorem find_empty (less : κ → κ → Bool) (k : κ) :
    (empty : StdMap κ ν).find less k = none := rfl

section Total

variable {less : κ → κ → Bool} (h : StrictTotal less)
include h

theorem find_insert_self {m : StdMap κ ν} {k : κ} (v : ν) (hk : m.find less k = none) :
    (m.insert less k v).find less k = some v := by
  have hins : m.insert less k v = ⟨(k, v) :: m.entries⟩ := by simp only [insert, hk]
  rw [hins]
  simp [find, h.irrefl]

theorem find_insert_of_ne {m : StdMap κ ν} {k k' : κ} (v : ν) (hne : k ≠ k') :
    (m.insert less k v).find less k' = m.find less k' := by
  unfold insert
  cases hk : m.find less k with
  | some _ => rfl
  | none =>
    have hsep : (!less k k' && !less k' k) = false := by
      cases h1 : less k k' with
      | true => rfl
      | false =>
        cases h2 : less k' k with
        | true => rfl
        | false => exact absurd (h.eq_of_not_less h1 h2) hne
    simp only [find, List.find?_cons, hsep]

theorem find_assign_self (m : StdMap κ ν) (k : κ) (v : ν) :
    (m.assign less k v).find less k = some v := by
  simp [find, assign, h.irrefl]

theorem find_assign_of_ne (m : StdMap κ ν) {k k' : κ} (v : ν) (hne : k ≠ k') :
    (m.assign less k v).find less k' = m.find less k' := by
  have hsep : ∀ e : κ × ν, (!less e.1 k' && !less k' e.1) = true →
      (less e.1 k || less k e.1) = true := by
    intro e he
    simp only [Bool.and_eq_true, Bool.not_eq_true'] at he
    have hek : e.1 = k' := h.eq_of_not_less he.1 he.2
    rw [hek]
    cases h1 : less k' k with
    | true => rfl
    | false =>
      cases h2 : less k k' with
      | true => rfl
      | false => exact absurd (h.eq_of_not_less h2 h1) hne
  have hhead : (!less k k' && !less k' k) = false := by
    cases h1 : less k k' with
    | true => rfl
    | false =>
      cases h2 : less k' k with
      | true => rfl
      | false => exact absurd (h.eq_of_not_less h1 h2) hne
  simp only [find, assign, List.find?_cons, hhead, List.find?_filter]
  congr 2
  funext e
  cases he : !less e.1 k' && !less k' e.1 with
  | false => simp
  | true => simp [hsep e he]

theorem find_of_mem {m : StdMap κ ν} (hkeys : (m.entries.map Prod.fst).Nodup) {k : κ} {v : ν}
    (hmem : (k, v) ∈ m.entries) : m.find less k = some v := by
  obtain ⟨entries⟩ := m
  induction entries with
  | nil => cases hmem
  | cons e entries ih =>
    rw [List.map_cons, List.nodup_cons] at hkeys
    rcases List.mem_cons.mp hmem with rfl | hrest
    · simp [find, h.irrefl]
    · have hne : e.1 ≠ k := fun heq =>
        hkeys.1 (heq ▸ List.mem_map_of_mem (f := Prod.fst) hrest)
      have hsep : (!less e.1 k && !less k e.1) = false := by
        by_contra hsame
        simp only [Bool.not_eq_false, Bool.and_eq_true, Bool.not_eq_true'] at hsame
        exact hne (h.eq_of_not_less hsame.1 hsame.2)
      have hfind := ih hkeys.2 hrest
      simpa only [find, List.find?_cons, hsep] using hfind

theorem mem_of_find {m : StdMap κ ν} {k : κ} {v : ν} (hfind : m.find less k = some v) :
    (k, v) ∈ m.entries := by
  obtain ⟨e, he, rfl⟩ := Option.map_eq_some_iff.mp hfind
  have hsame := List.find?_some he
  simp only [Bool.and_eq_true, Bool.not_eq_true'] at hsame
  rw [← h.eq_of_not_less hsame.1 hsame.2]
  exact List.mem_of_find?_eq_some he

theorem nodup_assign {m : StdMap κ ν} (hkeys : (m.entries.map Prod.fst).Nodup) (k : κ) (v : ν) :
    ((m.assign less k v).entries.map Prod.fst).Nodup := by
  rw [assign, List.map_cons, List.nodup_cons]
  refine ⟨fun hmem => ?_, hkeys.sublist (List.filter_sublist.map _)⟩
  obtain ⟨e, he, heq⟩ := List.mem_map.mp hmem
  have hkeep := (List.mem_filter.mp he).2
  simp only [heq, h.irrefl, Bool.or_self, Bool.false_eq_true] at hkeep

theorem find_assignAll_of_not_mem {kvs : List (κ × ν)} {k : κ} (hk : k ∉ kvs.map Prod.fst)
    (m : StdMap κ ν) : (m.assignAll less kvs).find less k = m.find less k := by
  induction kvs generalizing m with
  | nil => rfl
  | cons e kvs ih =>
    rw [List.map_cons, List.mem_cons, not_or] at hk
    exact (ih hk.2 _).trans (find_assign_of_ne h m e.2 (Ne.symm hk.1))

theorem find_assignAll_of_mem {kvs : List (κ × ν)} (hkeys : (kvs.map Prod.fst).Nodup) {k : κ}
    {v : ν} (hmem : (k, v) ∈ kvs) (m : StdMap κ ν) :
    (m.assignAll less kvs).find less k = some v := by
  induction kvs generalizing m with
  | nil => cases hmem
  | cons e kvs ih =>
    rw [List.map_cons, List.nodup_cons] at hkeys
    rcases List.mem_cons.mp hmem with rfl | hrest
    · exact (find_assignAll_of_not_mem h hkeys.1 _).trans (find_assign_self h m k v)
    · exact ih hkeys.2 hrest _

/-- Assignments to different keys can all be found again. -/
theorem find_assignAll_iff {kvs : List (κ × ν)} (hkeys : (kvs.map Prod.fst).Nodup) {k : κ}
    {v : ν} : ((empty : StdMap κ ν).assignAll less kvs).find less k = some v ↔ (k, v) ∈ kvs := by
  constructor
  · intro hfind
    by_cases hk : k ∈ kvs.map Prod.fst
    · obtain ⟨⟨k', v'⟩, hmem, hkey⟩ := List.mem_map.mp hk
      obtain rfl : k' = k := hkey
      rw [find_assignAll_of_mem h hkeys hmem] at hfind
      exact Option.some.inj hfind ▸ hmem
    · rw [find_assignAll_of_not_mem h hk] at hfind
      cases hfind
  · intro hmem
    exact find_assignAll_of_mem h hkeys hmem _

end Total

end StdMap

end CableSwig.Lib.OrderedMap
