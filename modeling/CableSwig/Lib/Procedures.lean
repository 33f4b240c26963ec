import Mathlib.Tactic.Common

/-!
# Procedures that keep what they have made

Programs that call procedures, use pointers that may be null, and change a state in which the
results of the procedures are kept: a procedure whose result is found there is not run again.
-/
namespace CableSwig.Lib.Procedures

/-- A program that calls procedures with answers `A`, uses pointers `υ` and has effects `ε`. A
procedure that fails has no answer. -/
inductive Program {ι : Type} (A : ι → Type) (υ ε α : Type)
  | ret (a : α)
  | fail
  | use (u : υ) (next : Program A υ ε α)
  | call (i : ι) (next : Option (A i) → Program A υ ε α)
  | effect (e : ε) (next : Program A υ ε α)

namespace Program

variable {ι : Type} {A : ι → Type} {υ ε α β : Type}

section Sequencing

protected def bind : Program A υ ε α → (α → Program A υ ε β) → Program A υ ε β
  | ret a, f => f a
  | fail, _ => fail
  | use u next, f => use u (next.bind f)
  | call i next, f => call i fun answer => (next answer).bind f
  | effect e next, f => effect e (next.bind f)

instance : Monad (Program A υ ε) where
  pure := ret
  bind := Program.bind

/-- The program with its failure as a result. -/
def attempt : Program A υ ε α → Program A υ ε (Option α)
  | ret a => ret (some a)
  | fail => ret none
  | use u next => use u next.attempt
  | call i next => call i fun answer => (next answer).attempt
  | effect e next => effect e next.attempt

def ofOption : Option α → Program A υ ε α
  | some a => ret a
  | none => fail

/-- The answer of a procedure, if it has one. -/
def ask (i : ι) : Program A υ ε (Option (A i)) := call i ret

def perform (e : ε) : Program A υ ε Unit := effect e (ret ())

/-- What a pointer points to. The use is told whether the pointer is null. -/
def deref (u : Bool → υ) : Option α → Program A υ ε α
  | some a => use (u false) (ret a)
  | none => use (u true) fail

end Sequencing

section Asking

/-- All calls of the program are as described, whatever the answers are. -/
def Asks (calls : ι → Prop) : Program A υ ε α → Prop
  | ret _ => True
  | fail => True
  | use _ next => next.Asks calls
  | call i next => calls i ∧ ∀ answer, (next answer).Asks calls
  | effect _ next => next.Asks calls

variable {calls : ι → Prop}

@[simp] theorem asks_pure (a : α) : (pure a : Program A υ ε α).Asks calls := trivial

@[simp] theorem asks_fail : (fail : Program A υ ε α).Asks calls := trivial

@[simp] theorem asks_perform (e : ε) : (perform e : Program A υ ε Unit).Asks calls := trivial

@[simp] theorem asks_ofOption (o : Option α) :
    (ofOption o : Program A υ ε α).Asks calls := by
  cases o <;> trivial

@[simp] theorem asks_ask (i : ι) :
    (ask i : Program A υ ε (Option (A i))).Asks calls ↔ calls i :=
  and_iff_left fun _ => trivial

@[simp] theorem asks_deref (u : Bool → υ) (o : Option α) :
    (deref u o : Program A υ ε α).Asks calls := by
  cases o <;> trivial

theorem Asks.bind {p : Program A υ ε α} {f : α → Program A υ ε β} (hp : p.Asks calls)
    (hf : ∀ a, (f a).Asks calls) : (p >>= f).Asks calls := by
  induction p with
  | ret a => exact hf a
  | fail => trivial
  | use u next ih => exact ih hp
  | call i next ih => exact ⟨hp.1, fun answer => ih answer (hp.2 answer)⟩
  | effect e next ih => exact ih hp

theorem Asks.mono {calls' : ι → Prop} {p : Program A υ ε α} (hp : p.Asks calls)
    (h : ∀ i, calls i → calls' i) : p.Asks calls' := by
  induction p with
  | ret a => trivial
  | fail => trivial
  | use u next ih => exact ih hp
  | call i next ih => exact ⟨h i hp.1, fun answer => ih answer (hp.2 answer)⟩
  | effect e next ih => exact ih hp

theorem asks_ofOption_bind {o : Option α} {f : α → Program A υ ε β}
    (hf : ∀ a, o = some a → (f a).Asks calls) : (ofOption o >>= f).Asks calls := by
  cases o with
  | none => trivial
  | some a => exact hf a rfl

theorem Asks.guarded {p : Program A υ ε α} {guard : Prop} [Decidable guard]
    (hp : p.Asks calls) : (if guard then fail else p).Asks calls := by
  split
  · exact asks_fail
  · exact hp

theorem Asks.attempt {p : Program A υ ε α} (hp : p.Asks calls) :
    p.attempt.Asks calls := by
  induction p with
  | ret a => trivial
  | fail => trivial
  | use u next ih => exact ih hp
  | call i next ih => exact ⟨hp.1, fun answer => ih answer (hp.2 answer)⟩
  | effect e next ih => exact ih hp

end Asking

section Performing

/-- Before the program returns it has had one of these effects. -/
def Performs (effects : ε → Prop) : Program A υ ε α → Prop
  | ret _ => False
  | fail => True
  | use _ next => next.Performs effects
  | call _ next => ∀ answer, (next answer).Performs effects
  | effect e next => effects e ∨ next.Performs effects

variable {effects : ε → Prop}

theorem Performs.bind {p : Program A υ ε α} {f : α → Program A υ ε β} (hp : p.Performs effects) :
    (p >>= f).Performs effects := by
  induction p with
  | ret a => exact hp.elim
  | fail => trivial
  | use u next ih => exact ih hp
  | call i next ih => exact fun answer => ih answer (hp answer)
  | effect e next ih => exact hp.imp_right ih

theorem Performs.then {p : Program A υ ε α} {f : α → Program A υ ε β}
    (hf : ∀ a, (f a).Performs effects) : (p >>= f).Performs effects := by
  induction p with
  | ret a => exact hf a
  | fail => trivial
  | use u next ih => exact ih
  | call i next ih => exact ih
  | effect e next ih => exact Or.inr ih

theorem Performs.guarded {p : Program A υ ε α} {guard : Prop} [Decidable guard]
    (hp : p.Performs effects) : (if guard then fail else p).Performs effects := by
  split
  · trivial
  · exact hp

/-- A failure that is caught must not let the program return. -/
theorem Performs.attempt {p : Program A υ ε α} {f : Option α → Program A υ ε β}
    (hp : p.Performs effects) (hnone : (f none).Performs effects) :
    (p.attempt >>= f).Performs effects := by
  induction p with
  | ret a => exact hp.elim
  | fail => exact hnone
  | use u next ih => exact ih hp
  | call i next ih => exact fun answer => ih answer (hp answer)
  | effect e next ih => exact hp.imp_right ih

end Performing

section Doing

/-- All effects and results of the program are as described, whatever the answers are. -/
def Does (effects : ε → Prop) (results : α → Prop) : Program A υ ε α → Prop
  | ret a => results a
  | fail => True
  | use _ next => next.Does effects results
  | call _ next => ∀ answer, (next answer).Does effects results
  | effect e next => effects e ∧ next.Does effects results

variable {effects : ε → Prop} {P : α → Prop} {Q : β → Prop}

theorem does_ofOption {o : Option α} (h : ∀ a, o = some a → P a) :
    (ofOption o : Program A υ ε α).Does effects P := by
  cases o with
  | none => trivial
  | some a => exact h a rfl

theorem does_ask (i : ι) {results : Option (A i) → Prop} (h : ∀ answer, results answer) :
    (ask i : Program A υ ε (Option (A i))).Does effects results := h

theorem does_deref {u : Bool → υ} {o : Option α} (h : ∀ a, o = some a → P a) :
    (deref u o : Program A υ ε α).Does effects P := by
  cases o with
  | none => trivial
  | some a => exact h a rfl

theorem Does.bind {p : Program A υ ε α} {f : α → Program A υ ε β} (hp : p.Does effects P)
    (hf : ∀ a, P a → (f a).Does effects Q) : (p >>= f).Does effects Q := by
  induction p with
  | ret a => exact hf a hp
  | fail => trivial
  | use u next ih => exact ih hp
  | call i next ih => exact fun answer => ih answer (hp answer)
  | effect e next ih => exact ⟨hp.1, ih hp.2⟩

end Doing

end Program

section Running

inductive Outcome (α : Type)
  | crashed
  | failed
  | returned (a : α)
  deriving Inhabited

/-- How a procedure ends that does not use a null pointer. -/
def Outcome.ofAnswer {α : Type} : Option α → Outcome α
  | none => .failed
  | some a => .returned a

/-- A run with the uses that it has made. -/
structure Run (υ σ α : Type) where
  uses : List υ
  outcome : Outcome α
  state : σ

variable {ι : Type} {A : ι → Type} {υ ε σ α β : Type}

/-- The procedures. What is found for a procedure may be a null pointer, too. -/
structure System (A : ι → Type) (υ ε σ : Type) where
  found : (i : ι) → σ → Option (Option (A i))
  body : (i : ι) → Program A υ ε (A i)
  apply : ε → σ → σ
  isNull : υ → Bool

def Run.after (uses : List υ) (r : Run υ σ α) : Run υ σ α := { r with uses := uses ++ r.uses }

/-- The run goes on where a procedure has ended. -/
def Run.resume (r : Run υ σ β) (next : Option β → σ → Option (Run υ σ α)) :
    Option (Run υ σ α) :=
  match r.outcome with
  | .crashed => some ⟨r.uses, .crashed, r.state⟩
  | .failed => (next none r.state).map (Run.after r.uses)
  | .returned a => (next (some a) r.state).map (Run.after r.uses)

variable (S : System A υ ε σ)

/-- The run of a program, if the procedures that it calls come to an end. -/
def exec (callee : (i : ι) → σ → Option (Run υ σ (A i))) :
    Program A υ ε α → σ → Option (Run υ σ α)
  | .ret a, s => some ⟨[], .returned a, s⟩
  | .fail, s => some ⟨[], .failed, s⟩
  | .use u next, s =>
    if S.isNull u then some ⟨[u], .crashed, s⟩
    else (exec callee next s).map (Run.after [u])
  | .call i next, s =>
    (callee i s).bind fun r => r.resume fun answer => exec callee (next answer)
  | .effect e next, s => exec callee next (S.apply e s)

/-- A procedure, with recursion of at most this depth. -/
def invoke : Nat → (i : ι) → σ → Option (Run υ σ (A i))
  | 0, _, _ => none
  | fuel + 1, i, s =>
    match S.found i s with
    | some answer => some ⟨[], .ofAnswer answer, s⟩
    | none => exec S (invoke fuel) (S.body i) s

end Running

section Rules

variable {ι : Type} {A : ι → Type} {υ ε σ α β : Type} {S : System A υ ε σ}
  {callee : (i : ι) → σ → Option (Run υ σ (A i))} {calls : ι → Prop}

theorem Run.resume_cases {r : Run υ σ β} {next : Option β → σ → Option (Run υ σ α)}
    {r' : Run υ σ α} (h : r.resume next = some r') :
    (r.outcome = .crashed ∧ r' = ⟨r.uses, .crashed, r.state⟩) ∨
    ∃ answer r'', r.outcome = .ofAnswer answer ∧ next answer r.state = some r'' ∧
      r' = r''.after r.uses := by
  unfold Run.resume at h
  cases hr : r.outcome with
  | crashed =>
    rw [hr] at h
    exact Or.inl ⟨rfl, (Option.some.inj h).symm⟩
  | failed =>
    rw [hr] at h
    obtain ⟨r'', hnext, heq⟩ := Option.map_eq_some_iff.mp h
    exact Or.inr ⟨none, r'', rfl, hnext, heq.symm⟩
  | returned a =>
    rw [hr] at h
    obtain ⟨r'', hnext, heq⟩ := Option.map_eq_some_iff.mp h
    exact Or.inr ⟨some a, r'', rfl, hnext, heq.symm⟩

theorem Run.resume_eq {r : Run υ σ β} {answer : Option β} (h : r.outcome = .ofAnswer answer)
    (next : Option β → σ → Option (Run υ σ α)) :
    r.resume next = (next answer r.state).map (Run.after r.uses) := by
  rw [Run.resume, h]
  cases answer <;> rfl

/-- What happens at a call. -/
theorem exec_call_cases {i : ι} {next : Option (A i) → Program A υ ε α} {s : σ} {r' : Run υ σ α}
    (h : exec S callee (.call i next) s = some r') :
    ∃ r, callee i s = some r ∧
      ((r.outcome = .crashed ∧ r' = ⟨r.uses, .crashed, r.state⟩) ∨
      ∃ answer r'', r.outcome = .ofAnswer answer ∧
        exec S callee (next answer) r.state = some r'' ∧ r' = r''.after r.uses) := by
  obtain ⟨r, hr, hresume⟩ := Option.bind_eq_some_iff.mp h
  exact ⟨r, hr, r.resume_cases hresume⟩

/-- What happens at a use. -/
theorem exec_use_cases {u : υ} {next : Program A υ ε α} {s : σ} {r : Run υ σ α}
    (h : exec S callee (.use u next) s = some r) :
    (S.isNull u = true ∧ r = ⟨[u], .crashed, s⟩) ∨
    (S.isNull u = false ∧ ∃ r', exec S callee next s = some r' ∧ r = r'.after [u]) := by
  rw [exec] at h
  cases hu : S.isNull u with
  | true =>
    rw [hu, if_pos rfl] at h
    exact Or.inl ⟨rfl, (Option.some.inj h).symm⟩
  | false =>
    rw [hu, if_neg Bool.false_ne_true] at h
    obtain ⟨r', hr', heq⟩ := Option.map_eq_some_iff.mp h
    exact Or.inr ⟨rfl, r', hr', heq.symm⟩

theorem invoke_cases {fuel : Nat} {i : ι} {s : σ} {r : Run υ σ (A i)}
    (h : invoke S fuel i s = some r) :
    ∃ fuel', fuel = fuel' + 1 ∧
      ((∃ answer, S.found i s = some answer ∧ r = ⟨[], .ofAnswer answer, s⟩) ∨
      (S.found i s = none ∧ exec S (invoke S fuel') (S.body i) s = some r)) := by
  cases fuel with
  | zero => cases h
  | succ fuel =>
    refine ⟨fuel, rfl, ?_⟩
    rw [invoke] at h
    cases hfound : S.found i s with
    | some answer =>
      rw [hfound] at h
      exact Or.inl ⟨answer, rfl, (Option.some.inj h).symm⟩
    | none =>
      rw [hfound] at h
      exact Or.inr ⟨rfl, h⟩

theorem ofAnswer_ne_crashed (answer : Option α) : Outcome.ofAnswer answer ≠ .crashed := by
  cases answer <;> simp [Outcome.ofAnswer]

theorem ofAnswer_injective : Function.Injective (Outcome.ofAnswer (α := α)) := by
  intro answer answer' h
  cases answer <;> cases answer' <;> simp_all [Outcome.ofAnswer]

/-- A program comes to an end if the procedures do that it calls. -/
theorem exec_halts {p : Program A υ ε α} (hp : p.Asks calls)
    (hcallee : ∀ i, calls i → ∀ s, ∃ r, callee i s = some r) (s : σ) :
    ∃ r, exec S callee p s = some r := by
  induction p generalizing s with
  | ret a => exact ⟨_, rfl⟩
  | fail => exact ⟨_, rfl⟩
  | use u next ih =>
    rw [exec]
    split
    · exact ⟨_, rfl⟩
    · obtain ⟨r, hr⟩ := ih hp s
      exact ⟨_, congrArg (Option.map _) hr⟩
  | call i next ih =>
    obtain ⟨r, hr⟩ := hcallee i hp.1 s
    rw [exec, hr, Option.bind_some, Run.resume]
    cases r.outcome with
    | crashed => exact ⟨_, rfl⟩
    | failed =>
      obtain ⟨r', hr'⟩ := ih none (hp.2 none) r.state
      exact ⟨_, congrArg (Option.map _) hr'⟩
    | returned a =>
      obtain ⟨r', hr'⟩ := ih (some a) (hp.2 (some a)) r.state
      exact ⟨_, congrArg (Option.map _) hr'⟩
  | effect e next ih => exact ih hp (S.apply e s)

section Deepening

variable {callee' : (i : ι) → σ → Option (Run υ σ (A i))}

theorem exec_mono (hcallee : ∀ i s r, callee i s = some r → callee' i s = some r)
    {p : Program A υ ε α} {s : σ} {r : Run υ σ α} (h : exec S callee p s = some r) :
    exec S callee' p s = some r := by
  induction p generalizing s r with
  | ret a => exact h
  | fail => exact h
  | use u next ih =>
    rw [exec]
    obtain ⟨hu, rfl⟩ | ⟨hu, r', hr', rfl⟩ := exec_use_cases h
    · rw [hu, if_pos rfl]
    · rw [hu, if_neg Bool.false_ne_true, ih hr', Option.map_some]
  | call i next ih =>
    rw [exec]
    obtain ⟨r₁, hr₁, ⟨hcrashed, rfl⟩ | ⟨answer, r₂, houtcome, hnext, rfl⟩⟩ := exec_call_cases h
    · rw [hcallee i s r₁ hr₁, Option.bind_some, Run.resume, hcrashed]
    · rw [hcallee i s r₁ hr₁, Option.bind_some, Run.resume_eq houtcome, ih answer hnext,
        Option.map_some]
  | effect e next ih => exact ih h

/-- More fuel changes nothing where a procedure comes to an end. -/
theorem invoke_mono {fuel fuel' : Nat} (hle : fuel ≤ fuel') (i : ι) (s : σ) (r : Run υ σ (A i))
    (h : invoke S fuel i s = some r) : invoke S fuel' i s = some r := by
  induction fuel generalizing fuel' i s r with
  | zero => cases h
  | succ fuel ih =>
    obtain ⟨fuel', rfl⟩ := Nat.exists_eq_add_of_le' hle
    have hbelow : fuel ≤ fuel' + fuel := Nat.le_add_left _ _
    show (match S.found i s with
      | some answer => some ⟨[], .ofAnswer answer, s⟩
      | none => exec S (invoke S (fuel' + fuel)) (S.body i) s) = some r
    obtain ⟨fuel₁, hfuel, ⟨answer, hfound, rfl⟩ | ⟨hfound, hexec⟩⟩ := invoke_cases h
    · rw [hfound]
    · obtain rfl := Nat.succ.inj hfuel
      rw [hfound]
      exact exec_mono (ih hbelow) hexec

end Deepening

section Keeping

variable {I : σ → Prop} (hkeeps : ∀ e s, I s → I (S.apply e s))
include hkeeps

theorem exec_keeps (hcallee : ∀ i s r, I s → callee i s = some r → I r.state)
    {p : Program A υ ε α} {s : σ} {r : Run υ σ α} (hs : I s)
    (h : exec S callee p s = some r) : I r.state := by
  induction p generalizing s r with
  | ret a =>
    obtain rfl := Option.some.inj h
    exact hs
  | fail =>
    obtain rfl := Option.some.inj h
    exact hs
  | use u next ih =>
    obtain ⟨-, rfl⟩ | ⟨-, r', hr', rfl⟩ := exec_use_cases h
    · exact hs
    · show I r'.state
      exact ih hs hr'
  | call i next ih =>
    obtain ⟨r₁, hr₁, ⟨-, rfl⟩ | ⟨answer, r₂, -, hnext, rfl⟩⟩ := exec_call_cases h
    · exact hcallee i s r₁ hs hr₁
    · show I r₂.state
      exact ih answer (hcallee i s r₁ hs hr₁) hnext
  | effect e next ih => exact ih (hkeeps e s hs) h

/-- What no effect undoes is not undone by a procedure. -/
theorem invoke_keeps (fuel : Nat) (i : ι) (s : σ) (r : Run υ σ (A i)) (hs : I s)
    (h : invoke S fuel i s = some r) : I r.state := by
  induction fuel generalizing i s r with
  | zero => cases h
  | succ fuel ih =>
    obtain ⟨fuel', hfuel, ⟨answer, hfound, rfl⟩ | ⟨hfound, hexec⟩⟩ := invoke_cases h
    · exact hs
    · obtain rfl := Nat.succ.inj hfuel
      exact exec_keeps hkeeps ih hs hexec

/-- What an effect brings about holds after a program that has it. -/
theorem exec_performs {effects : ε → Prop} (hbrings : ∀ e s, effects e → I (S.apply e s))
    (hcallee : ∀ i s r, I s → callee i s = some r → I r.state) {p : Program A υ ε α}
    (hp : p.Performs effects) {s : σ} {r : Run υ σ α} (h : exec S callee p s = some r)
    {a : α} (hr : r.outcome = .returned a) : I r.state := by
  induction p generalizing s r with
  | ret a => exact hp.elim
  | fail =>
    obtain rfl := Option.some.inj h
    cases hr
  | use u next ih =>
    obtain ⟨-, rfl⟩ | ⟨-, r', hr', rfl⟩ := exec_use_cases h
    · cases hr
    · show I r'.state
      exact ih hp hr' hr
  | call i next ih =>
    obtain ⟨r₁, hr₁, ⟨-, rfl⟩ | ⟨answer, r₂, -, hnext, rfl⟩⟩ := exec_call_cases h
    · cases hr
    · show I r₂.state
      exact ih answer (hp answer) hnext hr
  | effect e next ih =>
    rcases hp with hp | hp
    · exact exec_keeps hkeeps hcallee (hbrings e s hp) h
    · exact ih hp h hr

end Keeping

end Rules

section Denotation

variable {ι : Type} {A : ι → Type} {υ ε σ α β : Type}

/-- How an outcome and the effects before it are continued. -/
def andThen (d : Outcome α × List ε) (f : α → Outcome β × List ε) : Outcome β × List ε :=
  match d.1 with
  | .crashed => (.crashed, d.2)
  | .failed => (.failed, d.2)
  | .returned a => ((f a).1, d.2 ++ (f a).2)

variable (isNull : υ → Bool) (value : (i : ι) → Outcome (A i))

/-- The outcome of a program and its own effects, where the outcomes of the procedures are
given. -/
def denote : Program A υ ε α → Outcome α × List ε
  | .ret a => (.returned a, [])
  | .fail => (.failed, [])
  | .use u next => if isNull u then (.crashed, []) else denote next
  | .call i next =>
    match value i with
    | .crashed => (.crashed, [])
    | .failed => denote (next none)
    | .returned a => denote (next (some a))
  | .effect e next => ((denote next).1, e :: (denote next).2)

/-- The procedures that the program calls. -/
def requests : Program A υ ε α → List ι
  | .ret _ => []
  | .fail => []
  | .use u next => if isNull u then [] else requests next
  | .call i next => i ::
    match value i with
    | .crashed => []
    | .failed => requests (next none)
    | .returned a => requests (next (some a))
  | .effect _ next => requests next

theorem denote_use {u : υ} (h : isNull u = false) (next : Program A υ ε α) :
    denote isNull value (.use u next) = denote isNull value next ∧
      requests isNull value (.use u next) = requests isNull value next := by
  rw [denote, requests, h]
  exact ⟨rfl, rfl⟩

theorem denote_use_eq (u : υ) (next : Program A υ ε α) : denote isNull value (.use u next) =
    if isNull u then (.crashed, []) else denote isNull value next := rfl

theorem denote_call_eq (i : ι) (next : Option (A i) → Program A υ ε α) :
    denote isNull value (.call i next) =
      match value i with
      | .crashed => (.crashed, [])
      | .failed => denote isNull value (next none)
      | .returned a => denote isNull value (next (some a)) := by
  rw [denote]

theorem requests_call_eq (i : ι) (next : Option (A i) → Program A υ ε α) :
    requests isNull value (.call i next) = i ::
      match value i with
      | .crashed => []
      | .failed => requests isNull value (next none)
      | .returned a => requests isNull value (next (some a)) := by
  rw [requests]

theorem denote_effect_eq (e : ε) (next : Program A υ ε α) :
    denote isNull value (.effect e next) =
      ((denote isNull value next).1, e :: (denote isNull value next).2) := rfl

theorem denote_call {i : ι} {answer : Option (A i)} (h : value i = .ofAnswer answer)
    (next : Option (A i) → Program A υ ε α) :
    denote isNull value (.call i next) = denote isNull value (next answer) ∧
      requests isNull value (.call i next) = i :: requests isNull value (next answer) := by
  rw [denote_call_eq, requests_call_eq, h]
  cases answer <;> exact ⟨rfl, rfl⟩

theorem denote_call_crashed {i : ι} (h : value i = .crashed)
    (next : Option (A i) → Program A υ ε α) :
    denote isNull value (.call i next) = (.crashed, []) ∧
      requests isNull value (.call i next) = [i] := by
  rw [denote_call_eq, requests_call_eq, h]
  exact ⟨rfl, rfl⟩

theorem denote_does {effects : ε → Prop} {P : α → Prop} {p : Program A υ ε α}
    (hp : p.Does effects P) :
    (∀ e ∈ (denote isNull value p).2, effects e) ∧
      ∀ a, (denote isNull value p).1 = .returned a → P a := by
  induction p with
  | ret a => exact ⟨fun e he => (by cases he), fun b hb => by cases hb; exact hp⟩
  | fail => exact ⟨fun e he => (by cases he), fun b hb => by cases hb⟩
  | use u next ih =>
    rw [denote_use_eq]
    split
    · exact ⟨by simp, fun b hb => by cases hb⟩
    · exact ih hp
  | call i next ih =>
    rw [denote_call_eq]
    cases value i with
    | crashed => exact ⟨by simp, fun b hb => by cases hb⟩
    | failed => exact ih none (hp none)
    | returned a => exact ih (some a) (hp (some a))
  | effect e next ih =>
    obtain ⟨heffects, hresults⟩ := ih hp.2
    exact ⟨List.forall_mem_cons.mpr ⟨hp.1, heffects⟩, hresults⟩

variable {isNull value}

theorem denote_bind (p : Program A υ ε α) (f : α → Program A υ ε β) :
    denote isNull value (p >>= f) =
      andThen (denote isNull value p) fun a => denote isNull value (f a) := by
  induction p with
  | ret a => rfl
  | fail => rfl
  | use u next ih =>
    show denote isNull value (.use u (next >>= f)) = _
    rw [denote_use_eq, denote_use_eq]
    split
    · rfl
    · exact ih
  | call i next ih =>
    show denote isNull value (.call i fun answer => next answer >>= f) = _
    rw [denote_call_eq, denote_call_eq]
    cases value i with
    | crashed => rfl
    | failed => exact ih none
    | returned a => exact ih (some a)
  | effect e next ih =>
    show denote isNull value (.effect e (next >>= f)) = _
    rw [denote_effect_eq, denote_effect_eq, ih, andThen, andThen]
    cases (denote isNull value next).1 <;> rfl

theorem denote_attempt (p : Program A υ ε α) :
    denote isNull value p.attempt =
      (match (denote isNull value p).1 with
        | .crashed => .crashed
        | .failed => .returned none
        | .returned a => .returned (some a), (denote isNull value p).2) := by
  induction p with
  | ret a => rfl
  | fail => rfl
  | use u next ih =>
    rw [Program.attempt, denote_use_eq, denote_use_eq]
    split
    · rfl
    · exact ih
  | call i next ih =>
    rw [Program.attempt, denote_call_eq, denote_call_eq]
    cases value i with
    | crashed => rfl
    | failed => exact ih none
    | returned a => exact ih (some a)
  | effect e next ih =>
    rw [Program.attempt, denote_effect_eq, denote_effect_eq, ih]

/-- Only the outcomes of the procedures count that the program calls. -/
theorem denote_congr {value' : (i : ι) → Outcome (A i)} {calls : ι → Prop}
    {p : Program A υ ε α} (hp : p.Asks calls) (h : ∀ i, calls i → value i = value' i) :
    denote isNull value p = denote isNull value' p := by
  induction p with
  | ret a => rfl
  | fail => rfl
  | use u next ih =>
    rw [denote_use_eq, denote_use_eq, ih hp]
  | call i next ih =>
    rw [denote_call_eq, denote_call_eq, ← h i hp.1]
    cases value i with
    | crashed => rfl
    | failed => exact ih none (hp.2 none)
    | returned a => exact ih (some a) (hp.2 (some a))
  | effect e next ih => rw [denote_effect_eq, denote_effect_eq, ih hp]

variable (value) in
/-- A program without calls does what it denotes. -/
theorem exec_denote {S : System A υ ε σ} {callee : (i : ι) → σ → Option (Run υ σ (A i))}
    {p : Program A υ ε α} (hp : p.Asks fun _ => False) {s : σ}
    {r : Run υ σ α} (h : exec S callee p s = some r) :
    r.outcome = (denote S.isNull value p).1 ∧
      r.state = (denote S.isNull value p).2.foldl (fun s e => S.apply e s) s := by
  induction p generalizing s r with
  | ret a =>
    obtain rfl := Option.some.inj h
    exact ⟨rfl, rfl⟩
  | fail =>
    obtain rfl := Option.some.inj h
    exact ⟨rfl, rfl⟩
  | use u next ih =>
    rw [denote_use_eq]
    obtain ⟨hu, rfl⟩ | ⟨hu, r', hr', rfl⟩ := exec_use_cases h
    · rw [if_pos hu]
      exact ⟨rfl, rfl⟩
    · rw [if_neg (by simp [hu])]
      show r'.outcome = _ ∧ r'.state = _
      exact ih hp hr'
  | call i next ih => exact hp.1.elim
  | effect e next ih => exact ih hp h

end Denotation

end CableSwig.Lib.Procedures
