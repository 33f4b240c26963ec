import Mathlib.Data.List.Sort
import Mathlib.Data.List.Nodup
import Mathlib.Order.Defs.LinearOrder
import Mathlib.Tactic.Common

/-!
# Search trees as sorted maps

What a self-adjusting search tree shows to its clients: a lookup by key, insertion,
writing through the address of a value that is already there, and a traversal in the
order of the keys. The shape of the tree is not observable.
-/
namespace CableSwig.Lib.SplayTree

variable {κ ν : Type} [LinearOrder κ]

structure Tree (κ ν : Type) [LinearOrder κ] where
  keys : List κ
  lookup : κ → Option ν
  sorted : keys.Pairwise (· < ·)
  mem_keys : ∀ k, k ∈ keys ↔ (lookup k).isSome

namespace Tree

def empty : Tree κ ν where
  keys := []
  lookup _ := none
  sorted := .nil
  mem_keys k := by simp

theorem nodup_keys (t : Tree κ ν) : t.keys.Nodup :=
  t.sorted.imp fun h => ne_of_lt h

theorem mem_keys_of_lookup {t : Tree κ ν} {k : κ} {v : ν} (h : t.lookup k = some v) :
    k ∈ t.keys := by
  rw [t.mem_keys, h]
  rfl

theorem exists_lookup {t : Tree κ ν} {k : κ} (h : k ∈ t.keys) : ∃ v, t.lookup k = some v :=
  Option.isSome_iff_exists.mp ((t.mem_keys k).mp h)

/-- A new key goes to its place among the keys; a key that is there gets the new value. -/
def insert (t : Tree κ ν) (k : κ) (v : ν) : Tree κ ν where
  keys := if k ∈ t.keys then t.keys else t.keys.orderedInsert (· ≤ ·) k
  lookup k' := if k' = k then some v else t.lookup k'
  sorted := by
    split
    · exact t.sorted
    · rename_i hk
      have hle : (t.keys.orderedInsert (· ≤ ·) k).Pairwise (· ≤ ·) :=
        (t.sorted.imp fun h => le_of_lt h).orderedInsert k _
      have hne : (t.keys.orderedInsert (· ≤ ·) k).Nodup :=
        (List.perm_orderedInsert (· ≤ ·) k t.keys).nodup_iff.mpr
          (List.nodup_cons.mpr ⟨hk, t.nodup_keys⟩)
      exact (hle.and hne).imp fun h => lt_of_le_of_ne h.1 h.2
  mem_keys k' := by
    by_cases hk' : k' = k
    · subst hk'
      simp only [if_pos, Option.isSome_some, iff_true]
      split
      · assumption
      · simp [List.mem_orderedInsert]
    · rw [if_neg hk', ← t.mem_keys]
      split
      · rfl
      · simp [List.mem_orderedInsert, hk']

@[simp] theorem lookup_insert (t : Tree κ ν) (k k' : κ) (v : ν) :
    (t.insert k v).lookup k' = if k' = k then some v else t.lookup k' := rfl

theorem keys_insert_of_lookup {t : Tree κ ν} {k : κ} {w : ν} (v : ν) (h : t.lookup k = some w) :
    (t.insert k v).keys = t.keys := by
  simp [insert, mem_keys_of_lookup h]

theorem keys_insert_perm {t : Tree κ ν} {k : κ} (v : ν) (h : t.lookup k = none) :
    (t.insert k v).keys.Perm (k :: t.keys) := by
  have hk : k ∉ t.keys := by rw [t.mem_keys, h]; simp
  simp only [insert, if_neg hk]
  exact List.perm_orderedInsert (· ≤ ·) k t.keys

/-- The entries in the order in which a traversal meets them. -/
def toList (t : Tree κ ν) : List (κ × ν) :=
  t.keys.filterMap fun k => (t.lookup k).map (k, ·)

theorem mem_toList {t : Tree κ ν} {k : κ} {v : ν} :
    (k, v) ∈ t.toList ↔ t.lookup k = some v := by
  simp only [toList, List.mem_filterMap, Option.map_eq_some_iff, Prod.mk.injEq]
  constructor
  · rintro ⟨k', -, v', h, rfl, rfl⟩
    exact h
  · intro h
    exact ⟨k, mem_keys_of_lookup h, v, h, rfl, rfl⟩

theorem map_fst_toList (t : Tree κ ν) : t.toList.map Prod.fst = t.keys := by
  have hkeys : ∀ l : List κ, (∀ k ∈ l, k ∈ t.keys) →
      (l.filterMap fun k => (t.lookup k).map (k, ·)).map Prod.fst = l := by
    intro l hl
    induction l with
    | nil => rfl
    | cons k l ih =>
      obtain ⟨v, hv⟩ := exists_lookup (hl k List.mem_cons_self)
      simp only [List.filterMap_cons, hv, Option.map_some, List.map_cons]
      rw [ih fun k' hk' => hl k' (List.mem_cons_of_mem _ hk')]
  exact hkeys t.keys fun _ h => h

theorem toList_nodup (t : Tree κ ν) : t.toList.Nodup := by
  apply List.Nodup.of_map Prod.fst
  rw [t.map_fst_toList]
  exact t.nodup_keys

/-- A value written over another one stands where the other one stood. -/
theorem insert_insert (t : Tree κ ν) (k : κ) (v w : ν) :
    (t.insert k v).insert k w = t.insert k w := by
  have hk : (t.insert k v).lookup k = some v := by simp
  have hkeys : ((t.insert k v).insert k w).keys = (t.insert k w).keys := by
    rw [keys_insert_of_lookup w hk]
    rfl
  have hlookup : ((t.insert k v).insert k w).lookup = (t.insert k w).lookup := by
    funext k'
    simp only [lookup_insert]
    split <;> rfl
  cases hl : (t.insert k v).insert k w
  cases hr : t.insert k w
  simp_all

theorem toList_insert_perm {t : Tree κ ν} {k : κ} (v : ν) (h : t.lookup k = none) :
    (t.insert k v).toList.Perm ((k, v) :: t.toList) := by
  have hkeep : ∀ k' ∈ t.keys, (t.insert k v).lookup k' = t.lookup k' := by
    intro k' hk'
    have hne : k' ≠ k := by
      rintro rfl
      rw [t.mem_keys, h] at hk'
      simp at hk'
    simp [hne]
  refine ((keys_insert_perm v h).filterMap _).trans ?_
  rw [List.filterMap_cons_some (b := (k, v)) (by simp)]
  refine List.Perm.cons _ (List.Perm.of_eq ?_)
  exact List.filterMap_congr fun k' hk' => by rw [hkeep k' hk']

/-- What does not tell the new value from the old one is unchanged along the traversal. -/
theorem map_toList_insert {β : Type} {t : Tree κ ν} {k : κ} {v w : ν} {f : κ × ν → β}
    (h : t.lookup k = some v) (hf : f (k, w) = f (k, v)) :
    (t.insert k w).toList.map f = t.toList.map f := by
  simp only [toList, keys_insert_of_lookup w h, List.map_filterMap]
  refine List.filterMap_congr fun k' _ => ?_
  rw [lookup_insert]
  split
  · subst_vars
    simp [h, hf]
  · rfl

end Tree

end CableSwig.Lib.SplayTree
