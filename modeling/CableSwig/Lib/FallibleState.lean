import Mathlib.Tactic.Common

/-!
# Fallible computations on a state

A computation that fails keeps what it has done to the state so far. One that runs out of
fuel has no outcome. Two judgements go together: what holds of the outcome under an
invariant, and that there is one.
-/
namespace CableSwig.Lib.FallibleState

/-- A computation on states `σ`. -/
def Action (σ α : Type) : Type := σ → Option (Option α × σ)

namespace Action

variable {σ α β : Type}

instance : Monad (Action σ) where
  pure a s := some (some a, s)
  bind m f s :=
    match m s with
    | some (some a, s') => f a s'
    | some (none, s') => some (none, s')
    | none => none

def outOfFuel : Action σ α := fun _ => none

def fail : Action σ α := fun s => some (none, s)

def ofOption : Option α → Action σ α
  | some a => pure a
  | none => fail

/-- A value that the state has. -/
def look (f : σ → α) : Action σ α := fun s => some (some (f s), s)

def update (f : σ → σ) : Action σ Unit := fun s => some (some (), f s)

/-- A failure is ignored. -/
def getD (m : Action σ α) (a : α) : Action σ α :=
  fun s => (m s).map fun outcome => (some (outcome.1.getD a), outcome.2)

theorem bind_eq (m : Action σ α) (f : α → Action σ β) (s : σ) :
    (m >>= f) s =
      match m s with
      | some (some a, s') => f a s'
      | some (none, s') => some (none, s')
      | none => none := rfl

/-- The invariant is kept, and every outcome is as described. -/
def Keeps (I : σ → Prop) (m : Action σ α) (Q : Option α → Prop) : Prop :=
  ∀ s r s', I s → m s = some (r, s') → I s' ∧ Q r

/-- There is an outcome, from every state with the invariant. -/
def Halts (I : σ → Prop) (m : Action σ α) : Prop := ∀ s, I s → ∃ outcome, m s = some outcome

variable {I : σ → Prop} {m : Action σ α} {f : α → Action σ β} {P Q : Option α → Prop}
  {R : Option β → Prop}

theorem Keeps.mono (h : Keeps I m P) (hPQ : ∀ r, P r → Q r) : Keeps I m Q :=
  fun s r s' hs hm => ⟨(h s r s' hs hm).1, hPQ r (h s r s' hs hm).2⟩

theorem Keeps.outOfFuel : Keeps I (Action.outOfFuel : Action σ α) Q :=
  fun _ _ _ _ h => by cases h

theorem Keeps.pure {a : α} (h : Q (some a)) : Keeps I (Pure.pure a) Q := by
  intro s r s' hs hm
  obtain ⟨rfl, rfl⟩ := Prod.mk.inj (Option.some.inj hm)
  exact ⟨hs, h⟩

theorem Keeps.fail (h : Q none) : Keeps I (Action.fail : Action σ α) Q := by
  intro s r s' hs hm
  obtain ⟨rfl, rfl⟩ := Prod.mk.inj (Option.some.inj hm)
  exact ⟨hs, h⟩

theorem Keeps.ofOption {o : Option α} (h : Q o) : Keeps I (Action.ofOption o) Q := by
  cases o with
  | none => exact Keeps.fail h
  | some a => exact Keeps.pure h

theorem Keeps.look {g : σ → α} (h : ∀ s, I s → Q (some (g s))) : Keeps I (Action.look g) Q := by
  intro s r s' hs hm
  obtain ⟨rfl, rfl⟩ := Prod.mk.inj (Option.some.inj hm)
  exact ⟨hs, h s hs⟩

theorem Keeps.update {g : σ → σ} (h : ∀ s, I s → I (g s)) :
    Keeps I (Action.update g) fun r => r = some () := by
  intro s r s' hs hm
  obtain ⟨rfl, rfl⟩ := Prod.mk.inj (Option.some.inj hm)
  exact ⟨h s hs, rfl⟩

theorem Keeps.getD {a : α} (h : Keeps I m P) (hsome : ∀ b, P (some b) → Q (some b))
    (hnone : P none → Q (some a)) : Keeps I (m.getD a) Q := by
  intro s r s' hs hm
  obtain ⟨⟨r', s''⟩, hm', heq⟩ := Option.map_eq_some_iff.mp hm
  obtain ⟨hs', hr⟩ := h s r' s'' hs hm'
  obtain ⟨rfl, rfl⟩ := Prod.mk.inj heq
  refine ⟨hs', ?_⟩
  cases r' with
  | none => exact hnone hr
  | some b => exact hsome b hr

theorem Keeps.bind (hm : Keeps I m P) (hf : ∀ a, P (some a) → Keeps I (f a) R)
    (hnone : P none → R none) : Keeps I (m >>= f) R := by
  intro s r s' hs h
  rw [bind_eq] at h
  cases hms : m s with
  | none => rw [hms] at h; cases h
  | some outcome =>
    obtain ⟨r', s''⟩ := outcome
    obtain ⟨hs'', hr'⟩ := hm s r' s'' hs hms
    rw [hms] at h
    cases r' with
    | none =>
      obtain ⟨rfl, rfl⟩ := Prod.mk.inj (Option.some.inj h)
      exact ⟨hs'', hnone hr'⟩
    | some a => exact hf a hr' s'' r s' hs'' h

theorem Halts.pure {a : α} : Halts I (Pure.pure a : Action σ α) := fun _ _ => ⟨_, rfl⟩

theorem Halts.ofOption {o : Option α} : Halts I (Action.ofOption o) := by
  cases o with
  | none => exact fun _ _ => ⟨_, rfl⟩
  | some a => exact fun _ _ => ⟨_, rfl⟩

theorem Halts.look {g : σ → α} : Halts I (Action.look g) := fun _ _ => ⟨_, rfl⟩

theorem Halts.update {g : σ → σ} : Halts I (Action.update g) := fun _ _ => ⟨_, rfl⟩

theorem Halts.getD {a : α} (h : Halts I m) : Halts I (m.getD a) := by
  intro s hs
  obtain ⟨outcome, houtcome⟩ := h s hs
  exact ⟨_, congrArg (Option.map _) houtcome⟩

theorem Halts.bind (hhalts : Halts I m) (hm : Keeps I m P)
    (hf : ∀ a, P (some a) → Halts I (f a)) : Halts I (m >>= f) := by
  intro s hs
  obtain ⟨⟨r, s'⟩, h⟩ := hhalts s hs
  obtain ⟨hs', hr⟩ := hm s r s' hs h
  rw [bind_eq, h]
  cases r with
  | none => exact ⟨_, rfl⟩
  | some a => exact hf a hr s' hs'

/-- Every result is as described, together with the state it comes with. -/
def Ends (m : Action σ α) (Q : α → σ → Prop) : Prop := ∀ s a s', m s = some (some a, s') → Q a s'

theorem Ends.bind {Q : β → σ → Prop} (h : ∀ a, Ends (f a) Q) : Ends (m >>= f) Q := by
  intro s b s' hm
  rw [bind_eq] at hm
  cases hms : m s with
  | none => rw [hms] at hm; cases hm
  | some outcome =>
    obtain ⟨r, s''⟩ := outcome
    rw [hms] at hm
    cases r with
    | none => cases hm
    | some a => exact h a s'' b s' hm

theorem Ends.fail {Q : α → σ → Prop} : Ends (Action.fail : Action σ α) Q :=
  fun _ _ _ h => by cases h

/-- Two computations that have the same results, from states that are related to states that
are. -/
def Agree (R : σ → σ → Prop) (m m' : Action σ α) : Prop :=
  ∀ s s', R s s' → Option.Rel (fun o o' => o.1 = o'.1 ∧ R o.2 o'.2) (m s) (m' s')

variable {R : σ → σ → Prop} {m m' : Action σ α} {f f' : α → Action σ β}

theorem Agree.exists_some {s s' t : σ} {r : Option α} (h : Agree R m m') (hs : R s s')
    (hm : m s = some (r, t)) : ∃ t', m' s' = some (r, t') ∧ R t t' := by
  have hrel := h s s' hs
  rw [hm] at hrel
  cases hm' : m' s' with
  | none =>
    rw [hm'] at hrel
    cases hrel
  | some outcome =>
    obtain ⟨r', t'⟩ := outcome
    rw [hm'] at hrel
    cases hrel with
    | some hboth =>
      obtain ⟨rfl, ht⟩ := hboth
      exact ⟨t', rfl, ht⟩

theorem Agree.eq_none {s s' : σ} (h : Agree R m m') (hs : R s s') (hm : m s = none) :
    m' s' = none := by
  have hrel := h s s' hs
  rw [hm] at hrel
  generalize m' s' = o at hrel
  cases hrel
  rfl

theorem Agree.pure (a : α) : Agree R (Pure.pure a) (Pure.pure a) :=
  fun _ _ hs => .some ⟨rfl, hs⟩

theorem Agree.outOfFuel : Agree R (Action.outOfFuel : Action σ α) Action.outOfFuel :=
  fun _ _ _ => .none

theorem Agree.fail : Agree R (Action.fail : Action σ α) Action.fail :=
  fun _ _ hs => .some ⟨rfl, hs⟩

theorem Agree.update {g g' : σ → σ} (h : ∀ s s', R s s' → R (g s) (g' s')) :
    Agree R (Action.update g) (Action.update g') :=
  fun s s' hs => .some ⟨rfl, h s s' hs⟩

theorem Agree.bind (hm : Agree R m m') (hf : ∀ a, Agree R (f a) (f' a)) :
    Agree R (m >>= f) (m' >>= f') := by
  intro s s' hs
  rw [bind_eq, bind_eq]
  cases hms : m s with
  | none =>
    rw [hm.eq_none hs hms]
    exact .none
  | some outcome =>
    obtain ⟨r, t⟩ := outcome
    obtain ⟨t', hms', ht⟩ := hm.exists_some hs hms
    rw [hms']
    cases r with
    | none => exact .some ⟨rfl, ht⟩
    | some a => exact hf a t t' ht

end Action

end CableSwig.Lib.FallibleState
