import CableSwig.Lib.Procedures

/-!
# Possible outcomes

What the outcome of a program can be, whatever the procedures that it calls find in the state.
-/
namespace CableSwig.Lib.PossibleOutcomes

open CableSwig.Lib.Procedures
open CableSwig.Lib.Procedures.Program

variable {ι : Type} {A : ι → Type} {υ ε σ α β : Type}

section Programs

variable (isNull : υ → Bool) (outcomes : (i : ι) → Outcome (A i) → Prop) (effects : ε → Prop)

/-- All outcomes of the program are as described, if those of the procedures are that it calls. Its
effects are as described, too. -/
def Ends : Program A υ ε α → (Outcome α → Prop) → Prop
  | .ret a, post => post (.returned a)
  | .fail, post => post .failed
  | .use u next, post => if isNull u then post .crashed else Ends next post
  | .call i next, post =>
    (outcomes i .crashed → post .crashed) ∧
      ∀ answer, outcomes i (.ofAnswer answer) → Ends (next answer) post
  | .effect e next, post => effects e ∧ Ends next post

/-- What is asked of the outcome of a program that another one follows. -/
def Followed (f : α → Program A υ ε β) (post : Outcome β → Prop) : Outcome α → Prop
  | .crashed => post .crashed
  | .failed => post .failed
  | .returned a => Ends isNull outcomes effects (f a) post

/-- What is asked of the outcome of a program whose failure is caught. -/
def Caught (post : Outcome (Option α) → Prop) : Outcome α → Prop
  | .crashed => post .crashed
  | .failed => post (.returned none)
  | .returned a => post (.returned (some a))

end Programs

section Rules

theorem bind_assoc {γ : Type} (p : Program A υ ε α) (f : α → Program A υ ε β)
    (g : β → Program A υ ε γ) : p >>= f >>= g = p >>= fun a => f a >>= g := by
  induction p with
  | ret a => rfl
  | fail => rfl
  | use u next ih => exact congrArg (Program.use u) ih
  | call i next ih => exact congrArg (Program.call i) (funext ih)
  | effect e next ih => exact congrArg (Program.effect e) ih

variable {isNull : υ → Bool} {outcomes : (i : ι) → Outcome (A i) → Prop} {effects : ε → Prop}

theorem ends_ask {i : ι} {post : Outcome (Option (A i)) → Prop}
    (hcrashed : outcomes i .crashed → post .crashed)
    (hanswer : ∀ answer, outcomes i (.ofAnswer answer) → post (.returned answer)) :
    Ends isNull outcomes effects (ask i) post := ⟨hcrashed, hanswer⟩

theorem ends_ofOption {o : Option α} {post : Outcome α → Prop}
    (h : post (.ofAnswer o)) : Ends isNull outcomes effects (ofOption o) post := by
  cases o with
  | none => exact h
  | some a => exact h

theorem ends_deref {u : Bool → υ} (hu : ∀ b, isNull (u b) = b) {o : Option α}
    {post : Outcome α → Prop} (hnone : o = none → post .crashed)
    (hsome : ∀ a, o = some a → post (.returned a)) :
    Ends isNull outcomes effects (deref u o) post := by
  cases o with
  | none =>
    show if isNull (u true) then post .crashed else post .failed
    rw [hu, if_pos rfl]
    exact hnone rfl
  | some a =>
    show if isNull (u false) then post .crashed else post (.returned a)
    rw [hu, if_neg Bool.false_ne_true]
    exact hsome a rfl

theorem Ends.mono {p : Program A υ ε α} {post post' : Outcome α → Prop}
    (hp : Ends isNull outcomes effects p post) (h : ∀ o, post o → post' o) :
    Ends isNull outcomes effects p post' := by
  induction p with
  | ret a => exact h _ hp
  | fail => exact h _ hp
  | use u next ih =>
    rw [Ends] at hp ⊢
    split at hp
    · rw [if_pos ‹_›]
      exact h _ hp
    · rw [if_neg ‹_›]
      exact ih hp
  | call i next ih => exact ⟨fun hi => h _ (hp.1 hi), fun answer hi => ih answer (hp.2 answer hi)⟩
  | effect e next ih => exact ⟨hp.1, ih hp.2⟩

theorem Ends.bind {p : Program A υ ε α} {f : α → Program A υ ε β} {post : Outcome β → Prop}
    (hp : Ends isNull outcomes effects p (Followed isNull outcomes effects f post)) :
    Ends isNull outcomes effects (p >>= f) post := by
  induction p with
  | ret a => exact hp
  | fail => exact hp
  | use u next ih =>
    show Ends isNull outcomes effects (.use u (next >>= f)) post
    rw [Ends] at hp ⊢
    split at hp
    · rw [if_pos ‹_›]
      exact hp
    · rw [if_neg ‹_›]
      exact ih hp
  | call i next ih => exact ⟨hp.1, fun answer hi => ih answer (hp.2 answer hi)⟩
  | effect e next ih => exact ⟨hp.1, ih hp.2⟩

theorem Ends.attempt {p : Program A υ ε α} {post : Outcome (Option α) → Prop}
    (hp : Ends isNull outcomes effects p (Caught post)) :
    Ends isNull outcomes effects p.attempt post := by
  induction p with
  | ret a => exact hp
  | fail => exact hp
  | use u next ih =>
    rw [Program.attempt, Ends]
    rw [Ends] at hp
    split at hp
    · rw [if_pos ‹_›]
      exact hp
    · rw [if_neg ‹_›]
      exact ih hp
  | call i next ih => exact ⟨hp.1, fun answer hi => ih answer (hp.2 answer hi)⟩
  | effect e next ih => exact ⟨hp.1, ih hp.2⟩

end Rules

section Runs

variable {S : System A υ ε σ} {callee : (i : ι) → σ → Option (Run υ σ (A i))} {calls : ι → Prop}
  {outcomes : (i : ι) → Outcome (A i) → Prop} {effects : ε → Prop} {I : σ → Prop}

/-- A run of a program has one of its possible outcomes, and keeps what its effects keep. -/
theorem exec_ends (hkeeps : ∀ e s, effects e → I s → I (S.apply e s))
    (hcallee : ∀ i, calls i → ∀ s r, I s → callee i s = some r → I r.state ∧ outcomes i r.outcome)
    {p : Program A υ ε α} (hasks : p.Asks calls) {post : Outcome α → Prop}
    (hp : Ends S.isNull outcomes effects p post) {s : σ} {r : Run υ σ α} (hs : I s)
    (h : exec S callee p s = some r) : I r.state ∧ post r.outcome := by
  induction p generalizing s r with
  | ret a =>
    obtain rfl := Option.some.inj h
    exact ⟨hs, hp⟩
  | fail =>
    obtain rfl := Option.some.inj h
    exact ⟨hs, hp⟩
  | use u next ih =>
    rw [Ends] at hp
    obtain ⟨hu, rfl⟩ | ⟨hu, r', hr', rfl⟩ := exec_use_cases h
    · rw [if_pos hu] at hp
      exact ⟨hs, hp⟩
    · rw [hu, if_neg Bool.false_ne_true] at hp
      show I r'.state ∧ post r'.outcome
      exact ih hasks hp hs hr'
  | call i next ih =>
    obtain ⟨r₁, hr₁, ⟨hcrashed, rfl⟩ | ⟨answer, r₂, houtcome, hnext, rfl⟩⟩ := exec_call_cases h
    · obtain ⟨hs₁, ho⟩ := hcallee i hasks.1 s r₁ hs hr₁
      rw [hcrashed] at ho
      exact ⟨hs₁, hp.1 ho⟩
    · obtain ⟨hs₁, ho⟩ := hcallee i hasks.1 s r₁ hs hr₁
      rw [houtcome] at ho
      show I r₂.state ∧ post r₂.outcome
      exact ih answer (hasks.2 answer) (hp.2 answer ho) hs₁ hnext
  | effect e next ih => exact ih hasks hp.2 (hkeeps e s hp.1 hs) h

end Runs

end CableSwig.Lib.PossibleOutcomes
