import Mathlib.Data.List.Basic
import Mathlib.Logic.Function.Basic
import Mathlib.Algebra.Group.Int.Defs
import Mathlib.Algebra.Group.Nat.Defs
import Mathlib.Order.Lattice

/-!
# Reference counts

The count in an `Object`, what the members of `SmartPointer` do to it, and the references that
there really are in the course of a history of calls.
-/
namespace CableSwig.Parsers.ReferenceCounting

section Counts

/-- The objects with their counts, and where the smart pointers point to, both by number. There
is nothing where one has been destroyed. -/
structure Heap where
  objects : List (Option Int) := []
  pointers : List (Option (Option Nat)) := []

namespace Heap

variable (h : Heap)

/-- The end of `Register` and `Unregister`: `delete this` where the count is negative. -/
def setCount (o : Nat) (count : Int) : Heap :=
  { h with objects := h.objects.set o (if count < 0 then none else some count) }

/-- There is no result when the object has been destroyed, or the `int` overflows. -/
def register (o : Nat) : Option Heap :=
  match h.objects[o]? with
  | some (some count) => if count + 1 < 2 ^ 31 then some (h.setCount o (count + 1)) else none
  | _ => none

def unregister (o : Nat) : Option Heap :=
  match h.objects[o]? with
  | some (some count) => if -2 ^ 31 ≤ count - 1 then some (h.setCount o (count - 1)) else none
  | _ => none

/-- The object that a smart pointer points to. -/
def pointer (p : Nat) : Option (Option Nat) := h.pointers[p]?.join

/-- `Register` and `Unregister` of a smart pointer. -/
def registerPointee : Option Nat → Option Heap
  | none => some h
  | some o => h.register o

def unregisterPointee : Option Nat → Option Heap
  | none => some h
  | some o => h.unregister o

/-- `SmartPointer(T*)`, and the constructor without arguments for a null pointer. -/
def construct (t : Option Nat) : Option Heap :=
  (h.registerPointee t).map fun h' => { h' with pointers := h'.pointers ++ [some t] }

/-- `SmartPointer(const SmartPointer&)`. -/
def copy (r : Nat) : Option Heap := (h.pointer r).bind h.construct

/-- `~SmartPointer`. -/
def destroy (p : Nat) : Option Heap :=
  (h.pointer p).bind fun t =>
    (h.unregisterPointee t).map fun h' => { h' with pointers := h'.pointers.set p none }

def swap (p r : Nat) : Option Heap :=
  (h.pointer p).bind fun temp => (h.pointer r).map fun t =>
    { h with pointers := (h.pointers.set p (some t)).set r (some temp) }

/-- The assignments construct a pointer, swap with it and destroy it. -/
def assignFrom (constructed : Option Heap) (p : Nat) : Option Heap :=
  (constructed.bind fun h' => h'.swap h.pointers.length p).bind fun h' =>
    h'.destroy h.pointers.length

/-- `operator=(const SmartPointer&)`. -/
def assign (p r : Nat) : Option Heap := h.assignFrom (h.copy r) p

/-- `operator=(T*)`. -/
def assignRaw (p : Nat) (t : Option Nat) : Option Heap := h.assignFrom (h.construct t) p

/-- `New`: the object has no references before the pointer that is returned is constructed. -/
def new : Option Heap :=
  ({ h with objects := h.objects ++ [some 0] }).construct (some h.objects.length)

end Heap

inductive Action
  | new
  | construct (t : Option Nat)
  | copy (r : Nat)
  | assign (p r : Nat)
  | assignRaw (p : Nat) (t : Option Nat)
  | destroy (p : Nat)
  | register (o : Nat)
  | unregister (o : Nat)

def Heap.step (h : Heap) : Action → Option Heap
  | .new => h.new
  | .construct t => h.construct t
  | .copy r => h.copy r
  | .assign p r => h.assign p r
  | .assignRaw p t => h.assignRaw p t
  | .destroy p => h.destroy p
  | .register o => h.register o
  | .unregister o => h.unregister o

def Heap.run : List Action → Heap → Option Heap
  | [], h => some h
  | a :: as, h => (h.step a).bind (run as)

end Counts

section References

/-- The references that there are: the smart pointers, and the calls of `Register` that have no
call of `Unregister` yet. -/
structure References where
  created : Nat := 0
  pointers : List (Option (Option Nat)) := []
  registered : List Nat := []

namespace References

variable (m : References)

def count (o : Nat) : Nat := m.pointers.count (some (some o)) + m.registered.count o

def pointer (p : Nat) : Option (Option Nat) := m.pointers[p]?.join

/-- A pointer to an object may be used while there is a reference to it. -/
def Usable (t : Option Nat) : Prop := ∀ o, t = some o → 0 < m.count o

/-- There may be one reference more. -/
def Room (t : Option Nat) : Prop := ∀ o, t = some o → m.count o + 1 < 2 ^ 31

instance (t : Option Nat) : Decidable (m.Usable t) := by
  unfold Usable
  cases t with
  | none => exact isTrue fun o h => by cases h
  | some o => exact decidable_of_iff (0 < m.count o) (by simp)

instance (t : Option Nat) : Decidable (m.Room t) := by
  unfold Room
  cases t with
  | none => exact isTrue fun o h => by cases h
  | some o => exact decidable_of_iff (m.count o + 1 < 2 ^ 31) (by simp)

def construct (t : Option Nat) : Option References :=
  if m.Room t then some { m with pointers := m.pointers ++ [some t] } else none

/-- The pointer that an assignment constructs is there for a moment only. -/
def assign (p : Nat) (t : Option Nat) : Option References :=
  (m.pointer p).bind fun _ =>
    if m.Room t then some { m with pointers := m.pointers.set p (some t) ++ [none] } else none

/-- The references after an action, where the action is allowed. -/
def step : Action → Option References
  | .new => some { m with
      created := m.created + 1
      pointers := m.pointers ++ [some (some m.created)] }
  | .construct t => if m.Usable t then m.construct t else none
  | .copy r => (m.pointer r).bind m.construct
  | .assign p r => (m.pointer r).bind (m.assign p)
  | .assignRaw p t => if m.Usable t then m.assign p t else none
  | .destroy p => (m.pointer p).map fun _ => { m with pointers := m.pointers.set p none }
  | .register o =>
    if m.Usable (some o) ∧ m.Room (some o) then some { m with registered := o :: m.registered }
    else none
  | .unregister o =>
    if o ∈ m.registered then some { m with registered := m.registered.erase o } else none

def run : List Action → References → Option References
  | [], m => some m
  | a :: as, m => (m.step a).bind (run as)

end References

end References

section Agreement

variable {created : Nat} {count : Nat → Nat} {h : Heap} {m : References}

/-- Each object is there with its count. -/
def Counts (created : Nat) (count : Nat → Nat) (h : Heap) : Prop :=
  h.objects = (List.range created).map fun o => some (count o : Int)

theorem Counts.get (hc : Counts created count h) {o : Nat} (ho : o < created) :
    h.objects[o]? = some (some (count o : Int)) := by
  rw [hc, List.getElem?_map, List.getElem?_range ho]
  rfl

theorem Counts.setCount (hc : Counts created count h) (o n : Nat) :
    Counts created (fun i => if o = i then n else count i) (h.setCount o n) := by
  have hlive : (if (n : Int) < 0 then none else some (n : Int)) = some (n : Int) :=
    if_neg (by omega)
  unfold Counts at hc ⊢
  rw [Heap.setCount, hlive, hc]
  refine List.ext_getElem (by simp) fun i hi hi' => ?_
  rw [List.getElem_set]
  by_cases h : o = i
  · simp [h]
  · simp [h]

/-- The counts after one more reference. -/
theorem registerPointee_counts (hc : Counts created count h) {t : Option Nat}
    (ht : ∀ o, t = some o → o < created ∧ count o + 1 < 2 ^ 31) :
    ∃ h', h.registerPointee t = some h' ∧ h'.pointers = h.pointers ∧
      Counts created (fun o => if t = some o then count o + 1 else count o) h' := by
  cases t with
  | none => exact ⟨h, rfl, rfl, hc⟩
  | some o =>
    obtain ⟨ho, hroom⟩ := ht o rfl
    refine ⟨h.setCount o (count o + 1 : Nat), ?_, rfl, ?_⟩
    · rw [Heap.registerPointee, Heap.register, hc.get ho]
      exact if_pos (by omega)
    · have hset := hc.setCount o (count o + 1)
      have hsame : (fun i => if o = i then count o + 1 else count i) =
          fun i => if some o = some i then count i + 1 else count i := by
        funext i
        by_cases h : o = i <;> simp [h]
      rwa [hsame] at hset

/-- The counts after one reference less. -/
theorem unregisterPointee_counts (hc : Counts created count h) {t : Option Nat}
    (ht : ∀ o, t = some o → o < created ∧ 0 < count o) :
    ∃ h', h.unregisterPointee t = some h' ∧ h'.pointers = h.pointers ∧
      Counts created (fun o => if t = some o then count o - 1 else count o) h' := by
  cases t with
  | none => exact ⟨h, rfl, rfl, hc⟩
  | some o =>
    obtain ⟨ho, hpos⟩ := ht o rfl
    have hcast : (count o : Int) - 1 = (count o - 1 : Nat) := by omega
    refine ⟨h.setCount o (count o - 1 : Nat), ?_, rfl, ?_⟩
    · simp only [Heap.unregisterPointee, Heap.unregister, hc.get ho, hcast]
      exact if_pos (by omega)
    · have hset := hc.setCount o (count o - 1)
      have hsame : (fun i => if o = i then count o - 1 else count i) =
          fun i => if some o = some i then count i - 1 else count i := by
        funext i
        by_cases h : o = i <;> simp [h]
      rwa [hsame] at hset

/-- The count of each object is the number of references to it. -/
structure Agree (m : References) (h : Heap) : Prop where
  pointers : h.pointers = m.pointers
  counts : Counts m.created m.count h
  fresh : ∀ o, m.created ≤ o → m.count o = 0

theorem Agree.pointer_eq (ha : Agree m h) (p : Nat) : h.pointer p = m.pointer p := by
  rw [Heap.pointer, References.pointer, ha.pointers]

theorem Agree.lt_created (ha : Agree m h) {o : Nat} (hpos : 0 < m.count o) : o < m.created := by
  by_contra hge
  rw [ha.fresh o (by omega)] at hpos
  exact absurd hpos (lt_irrefl 0)

theorem count_construct (m : References) (t : Option Nat) (o : Nat) :
    ({ m with pointers := m.pointers ++ [some t] } : References).count o =
      if t = some o then m.count o + 1 else m.count o := by
  simp only [References.count, List.count_append, List.count_singleton]
  by_cases h : t = some o
  · simp [h]
    omega
  · simp [h]

theorem count_destroy {p : Nat} {t : Option Nat} (hp : m.pointer p = some t) (o : Nat) :
    ({ m with pointers := m.pointers.set p none } : References).count o =
      if t = some o then m.count o - 1 else m.count o := by
  obtain ⟨hlt, hget⟩ := List.getElem?_eq_some_iff.mp (Option.join_eq_some_iff.mp hp)
  have hmem : 0 < m.pointers.count (some t) := by
    rw [List.count_pos_iff, ← hget]
    exact List.getElem_mem hlt
  simp only [References.count, List.count_set hlt, hget]
  by_cases h : t = some o
  · subst h
    simp
    omega
  · simp [h]

/-- A reference is counted. -/
theorem count_pos {p o : Nat} (hp : m.pointer p = some (some o)) : 0 < m.count o := by
  have hmem := List.mem_of_getElem? (Option.join_eq_some_iff.mp hp)
  exact Nat.add_pos_left (List.count_pos_iff.mpr hmem) _

theorem construct_agrees (ha : Agree m h) {t : Option Nat} (hlt : ∀ o, t = some o → o < m.created)
    (hroom : m.Room t) :
    ∃ h', h.construct t = some h' ∧ Agree { m with pointers := m.pointers ++ [some t] } h' := by
  obtain ⟨h₁, hregister, hpointers, hcounts⟩ := registerPointee_counts ha.counts (t := t)
    fun o ho => ⟨hlt o ho, hroom o ho⟩
  refine ⟨_, by rw [Heap.construct, hregister]; rfl, ?_, ?_, fun o ho => ?_⟩
  · exact congrArg (· ++ [some t]) (hpointers.trans ha.pointers)
  · have hsame := funext (count_construct m t)
    rw [hsame]
    exact hcounts
  · have hne : t ≠ some o := fun h => absurd (hlt o h) (by exact Nat.not_lt.mpr ho)
    rw [count_construct, if_neg hne]
    exact ha.fresh o ho

theorem destroy_agrees (ha : Agree m h) {p : Nat} {t : Option Nat} (hp : m.pointer p = some t) :
    ∃ h', h.destroy p = some h' ∧ Agree { m with pointers := m.pointers.set p none } h' := by
  obtain ⟨h₁, hunregister, hpointers, hcounts⟩ := unregisterPointee_counts ha.counts (t := t) <| by
    rintro o rfl
    exact ⟨ha.lt_created (count_pos hp), count_pos hp⟩
  refine ⟨{ h₁ with pointers := h₁.pointers.set p none }, ?_, ?_, ?_, fun o ho => ?_⟩
  · rw [Heap.destroy, ha.pointer_eq, hp, Option.bind_some, hunregister]
    rfl
  · exact congrArg (List.set · p none) (hpointers.trans ha.pointers)
  · have hsame := funext (count_destroy hp)
    rw [hsame]
    exact hcounts
  · rw [count_destroy hp, ha.fresh o ho]
    exact ite_self 0

/-- An assignment of a pointer that can be constructed. -/
theorem assign_agrees (ha : Agree m h) {p : Nat} {t u : Option Nat} (hp : m.pointer p = some u)
    (hlt : ∀ o, t = some o → o < m.created) (hroom : m.Room t) :
    ∃ h', h.assignFrom (h.construct t) p = some h' ∧
      Agree { m with pointers := m.pointers.set p (some t) ++ [none] } h' := by
  obtain ⟨h₁, hconstruct, h₁a⟩ := construct_agrees ha hlt hroom
  obtain ⟨hplt, hpget⟩ := List.getElem?_eq_some_iff.mp (Option.join_eq_some_iff.mp hp)
  have hlen : h.pointers.length = m.pointers.length := congrArg List.length ha.pointers
  have htemp : h₁.pointer h.pointers.length = some t := by
    rw [h₁a.pointer_eq, hlen, References.pointer, List.getElem?_concat_length]
    rfl
  have hold : h₁.pointer p = some u := by
    rw [h₁a.pointer_eq, References.pointer, List.getElem?_append_left hplt]
    exact hp
  have hset : ((m.pointers ++ [some t]).set m.pointers.length (some u)).set p (some t) =
      m.pointers.set p (some t) ++ [some u] := by
    rw [List.set_append_right _ _ le_rfl, Nat.sub_self, List.set_append_left _ _ hplt]
    rfl
  have hswap : h₁.swap h.pointers.length p =
      some { h₁ with pointers := m.pointers.set p (some t) ++ [some u] } := by
    rw [Heap.swap, htemp, Option.bind_some, hold, Option.map_some, h₁a.pointers, hlen, hset]
  have hperm : (m.pointers.set p (some t) ++ [some u]).Perm (m.pointers ++ [some t]) := by
    rw [← hset]
    have hi : m.pointers.length < (m.pointers ++ [some t]).length := by simp
    have hj : p < (m.pointers ++ [some t]).length := by
      rw [List.length_append]
      omega
    have hperm := List.set_set_perm hi hj
    rwa [List.getElem_append_left hplt, List.getElem_concat_length rfl, hpget] at hperm
  have h₂a : Agree { m with pointers := m.pointers.set p (some t) ++ [some u] }
      { h₁ with pointers := m.pointers.set p (some t) ++ [some u] } := by
    have hcount : References.count { m with pointers := m.pointers.set p (some t) ++ [some u] } =
        References.count { m with pointers := m.pointers ++ [some t] } := by
      funext o
      rw [References.count, References.count, hperm.count_eq]
    refine ⟨rfl, ?_, ?_⟩
    · rw [hcount]
      exact h₁a.counts
    · rw [hcount]
      exact h₁a.fresh
  have hlast : References.pointer { m with pointers := m.pointers.set p (some t) ++ [some u] }
      h.pointers.length = some u := by
    have hlen' : h.pointers.length = (m.pointers.set p (some t)).length := by
      rw [List.length_set, hlen]
    rw [References.pointer, hlen', List.getElem?_concat_length]
    rfl
  obtain ⟨h₃, hdestroy, h₃a⟩ := destroy_agrees h₂a hlast
  refine ⟨h₃, ?_, ?_⟩
  · rw [Heap.assignFrom, hconstruct, Option.bind_some, hswap, Option.bind_some, hdestroy]
  · have hend : (m.pointers.set p (some t) ++ [some u]).set h.pointers.length none =
        m.pointers.set p (some t) ++ [none] := by
      rw [List.set_append_right _ _ (by rw [List.length_set, hlen]), List.length_set, hlen,
        Nat.sub_self]
      rfl
    rwa [hend] at h₃a

theorem new_agrees (ha : Agree m h) :
    ∃ h', h.new = some h' ∧ Agree { m with
      created := m.created + 1
      pointers := m.pointers ++ [some (some m.created)] } h' := by
  have hlen : h.objects.length = m.created := by
    rw [ha.counts, List.length_map, List.length_range]
  have h₀ : Agree { m with created := m.created + 1 }
      { h with objects := h.objects ++ [some 0] } := by
    refine ⟨ha.pointers, ?_, fun o ho => ha.fresh o (Nat.le_of_succ_le ho)⟩
    have hzero := ha.fresh m.created le_rfl
    have hmap : h.objects = (List.range m.created).map fun o => some (m.count o : Int) := ha.counts
    unfold Counts
    rw [List.range_succ, List.map_append, List.map_singleton, hmap]
    exact congrArg (fun n : Nat => _ ++ [some (n : Int)]) hzero.symm
  rw [Heap.new, hlen]
  refine construct_agrees h₀ (fun o ho => ?_) fun o ho => ?_
  · cases ho
    exact Nat.lt_succ_self _
  · cases ho
    have hzero : References.count { m with created := m.created + 1 } m.created = 0 :=
      ha.fresh m.created le_rfl
    omega

theorem register_agrees (ha : Agree m h) {o : Nat} (ho : o < m.created)
    (hroom : m.Room (some o)) :
    ∃ h', h.register o = some h' ∧ Agree { m with registered := o :: m.registered } h' := by
  obtain ⟨h', hregister, hpointers, hcounts⟩ := registerPointee_counts ha.counts (t := some o)
    fun o' ho' => ⟨Option.some.inj ho' ▸ ho, hroom o' ho'⟩
  have hcount : ∀ i, References.count { m with registered := o :: m.registered } i =
      if some o = some i then m.count i + 1 else m.count i := by
    intro i
    simp only [References.count, List.count_cons]
    by_cases h : o = i
    · simp [h]
      omega
    · simp [h]
  refine ⟨h', hregister, hpointers.trans ha.pointers, ?_, fun i hi => ?_⟩
  · have hsame := funext hcount
    rw [hsame]
    exact hcounts
  · have hne : ¬ some o = some i := fun h => absurd (Option.some.inj h ▸ ho) (Nat.not_lt.mpr hi)
    rw [hcount, if_neg hne]
    exact ha.fresh i hi

theorem unregister_agrees (ha : Agree m h) {o : Nat} (ho : o ∈ m.registered) :
    ∃ h', h.unregister o = some h' ∧
      Agree { m with registered := m.registered.erase o } h' := by
  have hcalls : 0 < m.registered.count o := List.count_pos_iff.mpr ho
  have hpos : 0 < m.count o := Nat.add_pos_right _ hcalls
  obtain ⟨h', hunregister, hpointers, hcounts⟩ := unregisterPointee_counts ha.counts (t := some o)
    fun o' ho' => Option.some.inj ho' ▸ ⟨ha.lt_created hpos, hpos⟩
  have hcount : ∀ i, References.count { m with registered := m.registered.erase o } i =
      if some o = some i then m.count i - 1 else m.count i := by
    intro i
    simp only [References.count, List.count_erase]
    by_cases h : o = i
    · subst h
      simp
      omega
    · simp [h]
  refine ⟨h', hunregister, hpointers.trans ha.pointers, ?_, fun i hi => ?_⟩
  · have hsame := funext hcount
    rw [hsame]
    exact hcounts
  · rw [hcount, ha.fresh i hi]
    exact ite_self 0

/-- Every action keeps the counts right, and uses no object that has been destroyed. -/
theorem step_agrees (ha : Agree m h) {a : Action} {m' : References} (hstep : m.step a = some m') :
    ∃ h', h.step a = some h' ∧ Agree m' h' := by
  have husable : ∀ {t}, m.Usable t → ∀ o, t = some o → o < m.created := fun hu o ho =>
    ha.lt_created (hu o ho)
  have hpointer : ∀ {p t}, m.pointer p = some t → m.Usable t := by
    rintro p t hp o rfl
    exact count_pos hp
  have hconstruct : ∀ {t}, m.Usable t → m.construct t = some m' →
      ∃ h', h.construct t = some h' ∧ Agree m' h' := by
    intro t hu hm
    obtain ⟨hroom, hm⟩ := Option.ite_none_right_eq_some.mp hm
    obtain rfl := Option.some.inj hm
    exact construct_agrees ha (husable hu) hroom
  have hassign : ∀ {p t}, m.Usable t → m.assign p t = some m' →
      ∃ h', h.assignFrom (h.construct t) p = some h' ∧ Agree m' h' := by
    intro p t hu hm
    obtain ⟨u, hp, hm⟩ := Option.bind_eq_some_iff.mp hm
    obtain ⟨hroom, hm⟩ := Option.ite_none_right_eq_some.mp hm
    obtain rfl := Option.some.inj hm
    exact assign_agrees ha hp (husable hu) hroom
  cases a with
  | new =>
    obtain rfl := Option.some.inj hstep
    exact new_agrees ha
  | construct t =>
    obtain ⟨hu, hm⟩ := Option.ite_none_right_eq_some.mp hstep
    exact hconstruct hu hm
  | copy r =>
    obtain ⟨t, hr, hm⟩ := Option.bind_eq_some_iff.mp hstep
    rw [Heap.step, Heap.copy, ha.pointer_eq, hr]
    exact hconstruct (hpointer hr) hm
  | assign p r =>
    obtain ⟨t, hr, hm⟩ := Option.bind_eq_some_iff.mp hstep
    rw [Heap.step, Heap.assign, Heap.copy, ha.pointer_eq, hr]
    exact hassign (hpointer hr) hm
  | assignRaw p t =>
    obtain ⟨hu, hm⟩ := Option.ite_none_right_eq_some.mp hstep
    exact hassign hu hm
  | destroy p =>
    obtain ⟨t, hp, hm⟩ := Option.map_eq_some_iff.mp hstep
    obtain rfl := hm
    exact destroy_agrees ha hp
  | register o =>
    obtain ⟨⟨hu, hroom⟩, hm⟩ := Option.ite_none_right_eq_some.mp hstep
    obtain rfl := Option.some.inj hm
    exact register_agrees ha (husable hu o rfl) hroom
  | unregister o =>
    obtain ⟨ho, hm⟩ := Option.ite_none_right_eq_some.mp hstep
    obtain rfl := Option.some.inj hm
    exact unregister_agrees ha ho

theorem run_agrees (as : List Action) (ha : Agree m h) {m' : References}
    (hrun : References.run as m = some m') : ∃ h', Heap.run as h = some h' ∧ Agree m' h' := by
  induction as generalizing m h with
  | nil =>
    obtain rfl := Option.some.inj hrun
    exact ⟨h, rfl, ha⟩
  | cons a as ih =>
    obtain ⟨m₁, hstep, hrest⟩ := Option.bind_eq_some_iff.mp hrun
    obtain ⟨h₁, hstep₁, h₁a⟩ := step_agrees ha hstep
    obtain ⟨h', hrun', h'a⟩ := ih h₁a hrest
    refine ⟨h', ?_, h'a⟩
    rw [Heap.run, hstep₁]
    exact hrun'

theorem agree_empty : Agree {} {} := ⟨rfl, rfl, fun _ _ => rfl⟩

end Agreement

section Exactness

/-- The references after the first actions of a history, where all of its actions are allowed. -/
theorem run_before {before after : List Action} {m m' : References}
    (hrun : References.run (before ++ after) m = some m') :
    ∃ m₁, References.run before m = some m₁ := by
  induction before generalizing m with
  | nil => exact ⟨m, rfl⟩
  | cons a as ih =>
    obtain ⟨m₁, hstep, hrest⟩ := Option.bind_eq_some_iff.mp hrun
    obtain ⟨m₂, hrun₂⟩ := ih hrest
    refine ⟨m₂, ?_⟩
    rw [References.run, hstep]
    exact hrun₂

/-- At any time in the history the objects that have been destroyed are those without a
reference. -/
def Exact (history : List Action) : Prop :=
  ∀ before after, history = before ++ after →
    ∃ m h, References.run before {} = some m ∧ Heap.run before {} = some h ∧
      ∀ o < m.created, h.objects[o]? = some none ↔ m.count o = 0

/-- No action of the history removes the last reference to an object. -/
def KeepsReferences (history : List Action) : Prop :=
  ∀ before after m, history = before ++ after → References.run before {} = some m →
    ∀ o < m.created, 0 < m.count o

/-- Objects are never used after they have been destroyed or destroyed while there is a
reference, but they are destroyed in time only in a history that removes no last reference. -/
theorem exact_iff (history : List Action) {m : References}
    (hallowed : References.run history {} = some m) :
    (∃ h, Heap.run history {} = some h ∧ ∀ o, 0 < m.count o → ∃ n, h.objects[o]? = some (some n)) ∧
      (Exact history ↔ KeepsReferences history) := by
  constructor
  · obtain ⟨h, hrun, ha⟩ := run_agrees history agree_empty hallowed
    exact ⟨h, hrun, fun o ho => ⟨_, ha.counts.get (ha.lt_created ho)⟩⟩
  constructor
  · rintro hexact before after m₁ hhistory hrun o ho
    obtain ⟨m₂, h, hrun₂, hrunh, hiff⟩ := hexact before after hhistory
    obtain rfl : m₁ = m₂ := Option.some.inj (hrun.symm.trans hrun₂)
    obtain ⟨h', hrunh', ha⟩ := run_agrees before agree_empty hrun
    obtain rfl : h = h' := Option.some.inj (hrunh.symm.trans hrunh')
    refine Nat.pos_of_ne_zero fun hzero => ?_
    have hdestroyed := (hiff o ho).mpr hzero
    rw [ha.counts.get ho] at hdestroyed
    cases hdestroyed
  · rintro hkeeps before after rfl
    obtain ⟨m₁, hrun⟩ := run_before hallowed
    obtain ⟨h, hrunh, ha⟩ := run_agrees before agree_empty hrun
    refine ⟨m₁, h, hrun, hrunh, fun o ho => ?_⟩
    have hpos := hkeeps before after m₁ rfl hrun o ho
    rw [ha.counts.get ho]
    refine iff_of_false (fun h => by cases h) hpos.ne'

/-- A parser that starts an element, keeps it in a second pointer and ends it. -/
def startAndEnd : List Action := [.new, .register 0, .construct (some 0), .unregister 0, .destroy 0]

theorem startAndEnd_exact :
    (∃ h, Heap.run startAndEnd {} = some h ∧
        ∀ o, 0 < References.count ⟨1, [none, some (some 0)], []⟩ o →
          ∃ n, h.objects[o]? = some (some n)) ∧
      (Exact startAndEnd ↔ KeepsReferences startAndEnd) :=
  exact_iff startAndEnd rfl

/-- The last reference is removed, and the object stays. -/
theorem destroyed_pointer_not_exact : ¬ Exact [.new, .destroy 0] := by
  intro hexact
  obtain ⟨m, h, hm, hh, hiff⟩ := hexact [.new, .destroy 0] [] rfl
  obtain rfl : ⟨1, [none], []⟩ = m := Option.some.inj hm
  obtain rfl : ⟨[some 0], [none]⟩ = h := Option.some.inj hh
  have hdestroyed := (hiff 0 (by decide)).mpr rfl
  cases hdestroyed

end Exactness

end CableSwig.Parsers.ReferenceCounting
