import CableSwig.Executables.ClassGraph
import Mathlib.Data.Fintype.Card
import Mathlib.Data.Fin.VecNotation

/-!
# Which classes are imported

`AddClassToBeImported` is a recursive search through base classes and method types. Its
loop over the base classes stops at the first one that is already imported, and then the
classes left in the list depend on the loops that imported it. `Secured` tells from the class
graph and the wrapper typedefs alone which classes are imported in any case.
-/
namespace CableSwig.Executables.ImportClosure

open CableSwig.Executables.ClassGraph

variable {κ : Type}

/-- The class that `AddImportClass` finds behind at most one reference and then one pointer. -/
def importTarget (ct : CableType κ) : Option κ :=
  let ct := match ct with
    | .reference target => target
    | ct => ct
  let ct := match ct with
    | .pointer target => target
    | ct => ct
  match ct with
  | .classType c => some c
  | _ => none

/-- The classes reached from the return and argument types of the methods of a class. -/
def methodClasses (g : Classes κ) (c : κ) : List κ :=
  (g.methods c).flatMap fun m => (m.returns :: m.arguments).filterMap importTarget

section Model

variable [DecidableEq κ] (g : Classes κ)

/-- `AddImportClass`, given `AddClassToBeImported`. -/
def addImportClass (add : κ → List κ → Option (List κ)) (ct : CableType κ) (imported : List κ) :
    Option (List κ) :=
  match importTarget ct with
  | some c => add c imported
  | none => some imported

/-- `AddImportReturnTypesAndArguments`. -/
def addImportReturnTypesAndArguments (add : κ → List κ → Option (List κ)) (c : κ)
    (imported : List κ) : Option (List κ) :=
  (g.methods c).foldlM (fun imported m => do
    let imported ← addImportClass add m.returns imported
    m.arguments.foldlM (fun imported ct => addImportClass add ct imported) imported) imported

/-- The loop of `AddClassToBeImported` over the base classes. -/
def addParents (addTypes : κ → List κ → Option (List κ)) :
    List κ → List κ → Option (List κ)
  | [], imported => some imported
  | p :: parents, imported =>
    if p ∈ imported then some imported  -- stop processing parents
    else do
      let imported ← addTypes p (p :: imported)
      addParents addTypes parents imported

/-- `AddClassToBeImported` on the set of imported classes, for calls nested at most so deep. -/
def addClassToBeImported : Nat → κ → List κ → Option (List κ)
  | 0, _, _ => none
  | depth + 1, c, imported =>
    if c ∈ imported then some imported
    else do
      let addTypes := addImportReturnTypesAndArguments g (addClassToBeImported depth)
      let imported ← addParents addTypes (getAllBaseClasses g c) (c :: imported)
      addTypes c imported

/-- The sets that `DetermineClassesToWrap` fills. -/
structure ClassSets (κ : Type) where
  typedefLookup : List (κ × String) := []
  included : List κ := []
  imported : List κ := []
deriving DecidableEq

/-- One round of the loop over the wrapper typedefs. -/
def wrapTypedef (depth : Nat) (s : ClassSets κ) (td : String × CableType κ) :
    Option (ClassSets κ) :=
  match td.2 with
  | .classType c => do
    let typedefLookup := if c ∈ s.typedefLookup.map Prod.fst then s.typedefLookup
      else s.typedefLookup ++ [(c, td.1)]
    let imported ← addClassToBeImported g depth c s.imported
    pure ⟨typedefLookup, if c ∈ s.included then s.included else s.included ++ [c], imported⟩
  | _ => pure s

/-- `DetermineClassesToWrap` for the members of the wrappers namespace that are typedefs. -/
def determineClassesToWrap (depth : Nat) (typedefs : List (String × CableType κ)) :
    Option (ClassSets κ) := do
  let s ← typedefs.foldlM (wrapTypedef g depth) {}
  pure { s with imported := s.imported.filter fun c => c ∉ s.included }

end Model

/-- The classes of the wrapper typedefs. -/
def wrappedClasses (typedefs : List (String × CableType κ)) : List κ :=
  typedefs.filterMap fun td =>
    match td.2 with
    | .classType c => some c
    | _ => none

/-- Calls of `AddClassToBeImported` in turn. -/
def addAll (add : κ → List κ → Option (List κ)) : List κ → List κ → Option (List κ)
  | [], imported => some imported
  | c :: cs, imported => (add c imported).bind (addAll add cs)

theorem addAll_append (add : κ → List κ → Option (List κ)) (cs cs' imported : List κ) :
    addAll add (cs ++ cs') imported = (addAll add cs imported).bind (addAll add cs') := by
  induction cs generalizing imported with
  | nil => rfl
  | cons c cs ih =>
    simp only [List.cons_append, addAll, Option.bind_assoc]
    congr 1
    funext imported'
    exact ih imported'

theorem foldlM_addImportClass (add : κ → List κ → Option (List κ)) (cts : List (CableType κ))
    (imported : List κ) :
    cts.foldlM (fun imported ct => addImportClass add ct imported) imported =
      addAll add (cts.filterMap importTarget) imported := by
  induction cts generalizing imported with
  | nil => rfl
  | cons ct cts ih =>
    rw [List.foldlM_cons]
    cases hct : importTarget ct with
    | none =>
      simp only [addImportClass, hct, List.filterMap_cons_none hct]
      exact ih imported
    | some c =>
      simp only [addImportClass, hct, List.filterMap_cons_some hct, addAll]
      congr 1
      funext imported'
      exact ih imported'

/-- The types of the methods are visited one after the other. -/
theorem addTypes_eq (g : Classes κ) (add : κ → List κ → Option (List κ)) (c : κ)
    (imported : List κ) :
    addImportReturnTypesAndArguments g add c imported =
      addAll add (methodClasses g c) imported := by
  have hmethods : ∀ (ms : List (Signature κ)) imported,
      ms.foldlM (fun imported m => do
        let imported ← addImportClass add m.returns imported
        m.arguments.foldlM (fun imported ct => addImportClass add ct imported) imported)
        imported =
      addAll add (ms.flatMap fun m => (m.returns :: m.arguments).filterMap importTarget)
        imported := by
    intro ms
    induction ms with
    | nil => intro imported; rfl
    | cons m ms ih =>
      intro imported
      rw [List.foldlM_cons, List.flatMap_cons, addAll_append, ← foldlM_addImportClass,
        List.foldlM_cons]
      congr 1
      funext imported'
      exact ih imported'
  exact hmethods (g.methods c) imported

/-- Classes reached from given ones along base classes and method types. -/
inductive Reached (g : Classes κ) (start : κ → Prop) : κ → Prop
  | start {c : κ} : start c → Reached g start c
  | base {c b : κ} : Reached g start c → Derives g c b → Reached g start b
  | type {c d : κ} : Reached g start c → d ∈ methodClasses g c → Reached g start d

theorem Reached.of_starts {g : Classes κ} {start start' : κ → Prop} {x : κ}
    (h : Reached g start x) (hstarts : ∀ c, start c → Reached g start' c) :
    Reached g start' x := by
  induction h with
  | start hc => exact hstarts _ hc
  | base _ hb ih => exact .base ih hb
  | type _ hd ih => exact .type ih hd

section Inserted

variable {g : Classes κ}

/-- What calls insert is reached from their arguments. -/
def Inserts (g : Classes κ) (start : κ → Prop) (imported imported' : List κ) : Prop :=
  (∀ x ∈ imported, x ∈ imported') ∧ ∀ x ∈ imported', x ∈ imported ∨ Reached g start x

theorem Inserts.refl (start : κ → Prop) (imported : List κ) :
    Inserts g start imported imported := ⟨fun _ h => h, fun _ h => Or.inl h⟩

theorem Inserts.trans {start start' : κ → Prop} {i₁ i₂ i₃ : List κ}
    (h : Inserts g start i₁ i₂) (h' : Inserts g start' i₂ i₃)
    (hstarts : ∀ c, start' c → Reached g start c) : Inserts g start i₁ i₃ := by
  refine ⟨fun x hx => h'.1 x (h.1 x hx), fun x hx => ?_⟩
  rcases h'.2 x hx with hx₂ | hx
  · exact h.2 x hx₂
  · exact Or.inr (hx.of_starts hstarts)

theorem Inserts.cons {start : κ → Prop} {c : κ} (hc : Reached g start c) (imported : List κ) :
    Inserts g start imported (c :: imported) :=
  ⟨fun _ hx => List.mem_cons_of_mem _ hx, fun _ hx =>
    (List.mem_cons.mp hx).elim (fun h => Or.inr (h ▸ hc)) Or.inl⟩

theorem addAll_inserts {add : κ → List κ → Option (List κ)}
    (hadd : ∀ c i i', add c i = some i' → Inserts g (· = c) i i') (cs : List κ) :
    ∀ {i i' : List κ}, addAll add cs i = some i' → Inserts g (· ∈ cs) i i' := by
  induction cs with
  | nil =>
    intro i i' h
    obtain rfl := Option.some.inj h
    exact Inserts.refl _ i
  | cons c cs ih =>
    intro i i' h
    obtain ⟨i₁, h₁, h⟩ := Option.bind_eq_some_iff.mp h
    have hfirst : Inserts g (· ∈ c :: cs) i i₁ :=
      (Inserts.refl _ i).trans (hadd c i i₁ h₁) fun d hd => .start (hd ▸ List.mem_cons_self)
    exact hfirst.trans (ih h) fun d hd => .start (List.mem_cons_of_mem _ hd)

variable [DecidableEq κ]

theorem addParents_inserts {addTypes : κ → List κ → Option (List κ)}
    (htypes : ∀ p i i', addTypes p i = some i' → Inserts g (· ∈ methodClasses g p) i i')
    (parents : List κ) : ∀ {i i' : List κ}, addParents addTypes parents i = some i' →
      Inserts g (· ∈ parents) i i' := by
  induction parents with
  | nil =>
    intro i i' h
    obtain rfl := Option.some.inj h
    exact Inserts.refl _ i
  | cons p parents ih =>
    intro i i' h
    unfold addParents at h
    split at h
    · obtain rfl := Option.some.inj h
      exact Inserts.refl _ i
    · obtain ⟨i₁, h₁, h⟩ := Option.bind_eq_some_iff.mp h
      have hp : Reached g (· ∈ p :: parents) p := .start List.mem_cons_self
      exact ((Inserts.cons hp i).trans (htypes p _ _ h₁) fun d hd => .type hp hd).trans (ih h)
        fun d hd => .start (List.mem_cons_of_mem _ hd)

theorem addClassToBeImported_inserts (depth : Nat) : ∀ (c : κ) (i i' : List κ),
    addClassToBeImported g depth c i = some i' → Inserts g (· = c) i i' := by
  induction depth with
  | zero => intro c i i' h; simp [addClassToBeImported] at h
  | succ depth ih =>
    intro c i i' h
    have htypes : ∀ p i i', addImportReturnTypesAndArguments g (addClassToBeImported g depth) p i =
        some i' → Inserts g (· ∈ methodClasses g p) i i' := by
      intro p i i' h
      rw [addTypes_eq] at h
      exact addAll_inserts ih _ h
    unfold addClassToBeImported at h
    split at h
    · obtain rfl := Option.some.inj h
      exact Inserts.refl _ i
    · obtain ⟨i₁, h₁, h⟩ := Option.bind_eq_some_iff.mp h
      have hc : Reached g (· = c) c := .start rfl
      exact ((Inserts.cons hc i).trans (addParents_inserts htypes _ h₁) fun d hd =>
        .base hc (getAllBaseClasses_iff.mp hd)).trans (htypes c _ _ h) fun d hd => .type hc hd

/-- The types that a method mentions, by the same recursion. -/
theorem addTypes_inserts (depth : Nat) (p : κ) (i i' : List κ)
    (h : addImportReturnTypesAndArguments g (addClassToBeImported g depth) p i = some i') :
    Inserts g (· ∈ methodClasses g p) i i' := by
  rw [addTypes_eq] at h
  exact addAll_inserts (addClassToBeImported_inserts depth) _ h

theorem addClassToBeImported_self {depth : Nat} {c : κ} {i r : List κ}
    (h : addClassToBeImported g depth c i = some r) : c ∈ r := by
  cases depth with
  | zero => simp [addClassToBeImported] at h
  | succ depth =>
    have htypes := addTypes_inserts (g := g) depth
    unfold addClassToBeImported at h
    split at h
    · rename_i hc
      exact Option.some.inj h ▸ hc
    · obtain ⟨i₁, h₁, h⟩ := Option.bind_eq_some_iff.mp h
      have hc : c ∈ i₁ := (addParents_inserts htypes _ h₁).1 c List.mem_cons_self
      exact (htypes c i₁ r h).1 c hc

theorem addAll_self {depth : Nat} (cs : List κ) : ∀ {i r : List κ},
    addAll (addClassToBeImported g depth) cs i = some r → ∀ c ∈ cs, c ∈ r := by
  induction cs with
  | nil => intro i r _ c hc; cases hc
  | cons d cs ih =>
    intro i r h c hc
    obtain ⟨i₁, h₁, hr⟩ := Option.bind_eq_some_iff.mp h
    rcases List.mem_cons.mp hc with rfl | hc
    · exact (addAll_inserts (addClassToBeImported_inserts depth) cs hr).1 c
        (addClassToBeImported_self h₁)
    · exact ih hr c hc

end Inserted

section Preserved

variable {g : Classes κ}

/-- The types of the methods of imported classes are imported, but those of a class whose methods
are still to be looked at. -/
def Scanned (g : Classes κ) (unscanned : κ → Prop) (imported : List κ) : Prop :=
  ∀ x ∈ imported, unscanned x ∨ ∀ d ∈ methodClasses g x, d ∈ imported

theorem Scanned.insert {unscanned : κ → Prop} {i : List κ} (h : Scanned g unscanned i) (p : κ) :
    Scanned g (fun x => x = p ∨ unscanned x) (p :: i) := by
  intro x hx
  rcases List.mem_cons.mp hx with rfl | hx
  · exact Or.inl (Or.inl rfl)
  · exact (h x hx).imp Or.inr fun hd d hmem => List.mem_cons_of_mem p (hd d hmem)

/-- The types of the methods of `p` have been visited. -/
theorem Scanned.scan {unscanned : κ → Prop} {i : List κ} {p : κ}
    (h : Scanned g (fun x => x = p ∨ unscanned x) i) (htypes : ∀ d ∈ methodClasses g p, d ∈ i) :
    Scanned g unscanned i := by
  intro x hx
  rcases h x hx with (rfl | hx) | hd
  · exact Or.inr htypes
  · exact Or.inl hx
  · exact Or.inr hd

variable [DecidableEq κ]

theorem addClassToBeImported_skips {depth : Nat} {c : κ} {i i' : List κ}
    (h : addClassToBeImported g depth c i = some i') (hc : c ∈ i) : i' = i := by
  cases depth with
  | zero => simp [addClassToBeImported] at h
  | succ depth =>
    unfold addClassToBeImported at h
    rw [if_pos hc] at h
    exact (Option.some.inj h).symm

/-- What each call keeps, calls in turn keep. Those for classes that are imported do nothing. -/
theorem addAll_preserves {depth : Nat} {inv : List κ → Prop} (cs : List κ) : ∀ {i i' : List κ},
    (∀ c ∈ cs, c ∈ i ∨
      ∀ j j', addClassToBeImported g depth c j = some j' → inv j → inv j') →
    addAll (addClassToBeImported g depth) cs i = some i' → inv i → inv i' := by
  induction cs with
  | nil =>
    intro i i' _ h hi
    obtain rfl := Option.some.inj h
    exact hi
  | cons c cs ih =>
    intro i i' hadd h hi
    obtain ⟨i₁, h₁, h⟩ := Option.bind_eq_some_iff.mp h
    have hinserts := addClassToBeImported_inserts depth c i i₁ h₁
    refine ih (fun d hd => ?_) h ?_
    · exact (hadd d (List.mem_cons_of_mem _ hd)).imp_left (hinserts.1 d)
    · rcases hadd c List.mem_cons_self with hc | hc
      · rw [addClassToBeImported_skips h₁ hc]
        exact hi
      · exact hc i i₁ h₁ hi

/-- A class that is not imported is inserted, then its bases are gone through, and last the types
of its methods. -/
theorem addClassToBeImported_cases {depth : Nat} {c : κ} {i i' : List κ}
    (h : addClassToBeImported g (depth + 1) c i = some i') : (c ∈ i ∧ i' = i) ∨
      c ∉ i ∧ ∃ i₁, addParents (addImportReturnTypesAndArguments g (addClassToBeImported g depth))
          (getAllBaseClasses g c) (c :: i) = some i₁ ∧
        addImportReturnTypesAndArguments g (addClassToBeImported g depth) c i₁ = some i' := by
  unfold addClassToBeImported at h
  split at h
  · rename_i hc
    exact Or.inl ⟨hc, (Option.some.inj h).symm⟩
  · rename_i hc
    exact Or.inr ⟨hc, Option.bind_eq_some_iff.mp h⟩

theorem addParents_preserves {addTypes : κ → List κ → Option (List κ)} {inv : List κ → Prop}
    (parents : List κ) : ∀ {i i' : List κ},
      (∀ p ∈ parents, ∀ j j', addTypes p (p :: j) = some j' → inv j → inv j') →
      addParents addTypes parents i = some i' → inv i → inv i' := by
  induction parents with
  | nil =>
    intro i i' _ h hi
    obtain rfl := Option.some.inj h
    exact hi
  | cons p parents ih =>
    intro i i' htypes h hi
    unfold addParents at h
    split at h
    · obtain rfl := Option.some.inj h
      exact hi
    · obtain ⟨i₁, h₁, h⟩ := Option.bind_eq_some_iff.mp h
      exact ih (fun q hq => htypes q (List.mem_cons_of_mem _ hq)) h
        (htypes p List.mem_cons_self i i₁ h₁ hi)

theorem addClassToBeImported_scanned (depth : Nat) : ∀ (c : κ) (i i' : List κ)
    (unscanned : κ → Prop), addClassToBeImported g depth c i = some i' →
      Scanned g unscanned i → Scanned g unscanned i' := by
  induction depth with
  | zero => intro c i i' _ h; simp [addClassToBeImported] at h
  | succ depth ih =>
    intro c i i' unscanned h hi
    have htypes : ∀ p i i' (unscanned : κ → Prop),
        addImportReturnTypesAndArguments g (addClassToBeImported g depth) p i = some i' →
        Scanned g (fun x => x = p ∨ unscanned x) i → Scanned g unscanned i' := by
      intro p i i' unscanned h hi
      rw [addTypes_eq] at h
      refine Scanned.scan (p := p) ?_ (addAll_self _ h)
      exact addAll_preserves _ (fun d _ => Or.inr fun j j' => ih d j j' _) h hi
    rcases addClassToBeImported_cases h with ⟨-, rfl⟩ | ⟨-, i₁, h₁, h⟩
    · exact hi
    · refine htypes c i₁ i' _ h ?_
      exact addParents_preserves _ (fun p _ j j' hj hinv => htypes p _ _ _ hj (hinv.insert p)) h₁
        (hi.insert c)

end Preserved

section Depth

variable [DecidableEq κ] {g : Classes κ}

omit [DecidableEq κ] in
/-- A run that returns, returns the same with a greater bound on the depth. -/
theorem addAll_mono {add add' : κ → List κ → Option (List κ)}
    (hadd : ∀ c i r, add c i = some r → add' c i = some r) (cs : List κ) :
    ∀ {i r : List κ}, addAll add cs i = some r → addAll add' cs i = some r := by
  induction cs with
  | nil => intro i r h; exact h
  | cons c cs ih =>
    intro i r h
    obtain ⟨i₁, h₁, h⟩ := Option.bind_eq_some_iff.mp h
    exact Option.bind_eq_some_iff.mpr ⟨i₁, hadd c i i₁ h₁, ih h⟩

theorem addParents_mono {addTypes addTypes' : κ → List κ → Option (List κ)}
    (htypes : ∀ c i r, addTypes c i = some r → addTypes' c i = some r) (parents : List κ) :
    ∀ {i r : List κ}, addParents addTypes parents i = some r →
      addParents addTypes' parents i = some r := by
  induction parents with
  | nil => intro i r h; exact h
  | cons p parents ih =>
    intro i r h
    unfold addParents at h ⊢
    split at h
    · rename_i hp
      rw [if_pos hp, h]
    · rename_i hp
      obtain ⟨i₁, h₁, h⟩ := Option.bind_eq_some_iff.mp h
      rw [if_neg hp]
      exact Option.bind_eq_some_iff.mpr ⟨i₁, htypes p _ i₁ h₁, ih h⟩

theorem addClassToBeImported_succ (depth : Nat) : ∀ (c : κ) (i r : List κ),
    addClassToBeImported g depth c i = some r →
    addClassToBeImported g (depth + 1) c i = some r := by
  induction depth with
  | zero => intro c i r h; simp [addClassToBeImported] at h
  | succ depth ih =>
    intro c i r h
    have htypes : ∀ p i r,
        addImportReturnTypesAndArguments g (addClassToBeImported g depth) p i = some r →
        addImportReturnTypesAndArguments g (addClassToBeImported g (depth + 1)) p i = some r := by
      intro p i r h
      rw [addTypes_eq] at h ⊢
      exact addAll_mono ih _ h
    rw [addClassToBeImported] at h ⊢
    split at h
    · rename_i hc
      rw [if_pos hc, h]
    · rename_i hc
      obtain ⟨i₁, h₁, h⟩ := Option.bind_eq_some_iff.mp h
      rw [if_neg hc]
      exact Option.bind_eq_some_iff.mpr ⟨i₁, addParents_mono htypes _ h₁, htypes c i₁ r h⟩

theorem addClassToBeImported_mono {depth depth' : Nat} (hle : depth ≤ depth') {c : κ}
    {i r : List κ} (h : addClassToBeImported g depth c i = some r) :
    addClassToBeImported g depth' c i = some r := by
  induction hle with
  | refl => exact h
  | step _ ih => exact addClassToBeImported_succ _ c i r ih

variable [Fintype κ]

/-- The classes that are not imported yet. -/
def unvisited (imported : List κ) : Finset κ := Finset.univ.filter (· ∉ imported)

theorem unvisited_card_le {i i' : List κ} (h : ∀ x ∈ i, x ∈ i') :
    (unvisited i').card ≤ (unvisited i).card := by
  refine Finset.card_le_card fun x hx => ?_
  simp only [unvisited, Finset.mem_filter, Finset.mem_univ, true_and] at hx ⊢
  exact fun hi => hx (h x hi)

theorem unvisited_card_lt {c : κ} {i : List κ} (hc : c ∉ i) :
    (unvisited (c :: i)).card < (unvisited i).card := by
  refine Finset.card_lt_card (Finset.ssubset_iff_of_subset (fun x hx => ?_) |>.mpr ⟨c, ?_, ?_⟩)
  · simp only [unvisited, Finset.mem_filter, Finset.mem_univ, true_and, List.mem_cons,
      not_or] at hx ⊢
    exact hx.2
  · simpa [unvisited] using hc
  · simp [unvisited]

theorem addAll_returns {add : κ → List κ → Option (List κ)} {n : Nat}
    (hinserts : ∀ c i i', add c i = some i' → Inserts g (· = c) i i')
    (hadd : ∀ c i, (unvisited i).card < n → ∃ r, add c i = some r) (cs : List κ) :
    ∀ {i : List κ}, (unvisited i).card < n → ∃ r, addAll add cs i = some r := by
  induction cs with
  | nil => intro i _; exact ⟨i, rfl⟩
  | cons c cs ih =>
    intro i hi
    obtain ⟨i₁, h₁⟩ := hadd c i hi
    obtain ⟨r, hr⟩ := ih (Nat.lt_of_le_of_lt (unvisited_card_le (hinserts c i i₁ h₁).1) hi)
    exact ⟨r, Option.bind_eq_some_iff.mpr ⟨i₁, h₁, hr⟩⟩

theorem addParents_returns {addTypes : κ → List κ → Option (List κ)} {n : Nat}
    (hinserts : ∀ p i i', addTypes p i = some i' → Inserts g (· ∈ methodClasses g p) i i')
    (htypes : ∀ p i, (unvisited i).card < n → ∃ r, addTypes p i = some r) (parents : List κ) :
    ∀ {i : List κ}, (unvisited i).card < n → ∃ r, addParents addTypes parents i = some r := by
  induction parents with
  | nil => intro i _; exact ⟨i, rfl⟩
  | cons p parents ih =>
    intro i hi
    unfold addParents
    split
    · exact ⟨i, rfl⟩
    · have hi' : (unvisited (p :: i)).card < n :=
        Nat.lt_of_le_of_lt (unvisited_card_le fun x hx => List.mem_cons_of_mem _ hx) hi
      obtain ⟨i₁, h₁⟩ := htypes p _ hi'
      obtain ⟨r, hr⟩ := ih (Nat.lt_of_le_of_lt (unvisited_card_le (hinserts p _ i₁ h₁).1) hi')
      exact ⟨r, Option.bind_eq_some_iff.mpr ⟨i₁, h₁, hr⟩⟩

/-- The recursion ends: each nested call has one class less to import. -/
theorem addClassToBeImported_returns (depth : Nat) : ∀ (c : κ) (i : List κ),
    (unvisited i).card < depth → ∃ r, addClassToBeImported g depth c i = some r := by
  induction depth with
  | zero => intro c i h; omega
  | succ depth ih =>
    intro c i hi
    have hinserts := addTypes_inserts (g := g) depth
    have htypes : ∀ p i, (unvisited i).card < depth → ∃ r,
        addImportReturnTypesAndArguments g (addClassToBeImported g depth) p i = some r := by
      intro p i hi
      obtain ⟨r, hr⟩ := addAll_returns (addClassToBeImported_inserts depth) ih
        (methodClasses g p) hi
      exact ⟨r, (addTypes_eq g _ p i).trans hr⟩
    unfold addClassToBeImported
    split
    · exact ⟨i, rfl⟩
    · rename_i hc
      have hi' : (unvisited (c :: i)).card < depth := by
        have hlt := unvisited_card_lt hc
        omega
      obtain ⟨i₁, h₁⟩ := addParents_returns hinserts htypes (getAllBaseClasses g c) hi'
      have hsub := (addParents_inserts hinserts _ h₁).1
      obtain ⟨r, hr⟩ := htypes c i₁ (Nat.lt_of_le_of_lt (unvisited_card_le hsub) hi')
      exact ⟨r, Option.bind_eq_some_iff.mpr ⟨i₁, h₁, hr⟩⟩

end Depth

section Sets

variable [DecidableEq κ] {g : Classes κ}

/-- The loop over the typedefs calls `AddClassToBeImported` for their classes in turn. -/
theorem wrapTypedefs_imported (depth : Nat) (typedefs : List (String × CableType κ)) :
    ∀ s : ClassSets κ, (typedefs.foldlM (wrapTypedef g depth) s).map ClassSets.imported =
      addAll (addClassToBeImported g depth) (wrappedClasses typedefs) s.imported := by
  induction typedefs with
  | nil => intro s; rfl
  | cons td typedefs ih =>
    intro s
    obtain ⟨n, ct⟩ := td
    rw [List.foldlM_cons]
    cases ct with
    | classType c =>
      have hcons : wrappedClasses ((n, CableType.classType c) :: typedefs) =
          c :: wrappedClasses typedefs := rfl
      rw [hcons]
      simp only [wrapTypedef, addAll]
      cases addClassToBeImported g depth c s.imported with
      | none => rfl
      | some i => exact ih _
    | reference ct => exact ih s
    | pointer ct => exact ih s
    | other => exact ih s

theorem wrapTypedefs_included (depth : Nat) (typedefs : List (String × CableType κ)) :
    ∀ s s' : ClassSets κ, typedefs.foldlM (wrapTypedef g depth) s = some s' →
      ∀ c, c ∈ s'.included ↔ c ∈ s.included ∨ c ∈ wrappedClasses typedefs := by
  induction typedefs with
  | nil =>
    intro s s' h c
    obtain rfl := Option.some.inj h
    simp [wrappedClasses]
  | cons td typedefs ih =>
    intro s s' h c
    obtain ⟨n, ct⟩ := td
    rw [List.foldlM_cons] at h
    obtain ⟨s₁, h₁, h⟩ := Option.bind_eq_some_iff.mp h
    rw [ih s₁ s' h c]
    cases ct with
    | classType d =>
      have hcons : wrappedClasses ((n, CableType.classType d) :: typedefs) =
          d :: wrappedClasses typedefs := rfl
      obtain ⟨i, -, hs₁⟩ := Option.bind_eq_some_iff.mp h₁
      obtain rfl := Option.some.inj hs₁
      rw [hcons, List.mem_cons]
      by_cases hd : d ∈ s.included
      · simp only [if_pos hd]
        refine ⟨Or.imp_right Or.inr, ?_⟩
        rintro (hc | rfl | hc)
        · exact Or.inl hc
        · exact Or.inl hd
        · exact Or.inr hc
      · simp only [if_neg hd, List.mem_append, List.mem_singleton, or_assoc]
    | reference ct => obtain rfl := Option.some.inj h₁; exact Iff.rfl
    | pointer ct => obtain rfl := Option.some.inj h₁; exact Iff.rfl
    | other => obtain rfl := Option.some.inj h₁; exact Iff.rfl

/-- `DetermineClassesToWrap` ends with these sets. -/
def Determined (g : Classes κ) (typedefs : List (String × CableType κ)) (s : ClassSets κ) :
    Prop :=
  ∃ bound, ∀ depth, bound < depth → determineClassesToWrap g depth typedefs = some s

/-- With a class come its bases at any distance and the classes that its methods mention. -/
def ImportClosed (g : Classes κ) (s : ClassSets κ) : Prop :=
  ∀ c, c ∈ s.included ∨ c ∈ s.imported →
    (∀ b, Derives g c b → b ∈ s.included ∨ b ∈ s.imported) ∧
      ∀ d ∈ methodClasses g c, d ∈ s.included ∨ d ∈ s.imported

/-- What `DetermineClassesToWrap` should fill in: two closed, disjoint sets, the same for
every order of the wrapper typedefs. -/
def ClosesImports (g : Classes κ) (typedefs : List (String × CableType κ)) : Prop :=
  ∃ s, Determined g typedefs s ∧ ImportClosed g s ∧ (∀ c ∈ s.included, c ∉ s.imported) ∧
    ∀ typedefs', typedefs.Perm typedefs' → ∀ s', Determined g typedefs' s' →
      (∀ c, c ∈ s'.included ↔ c ∈ s.included) ∧ ∀ c, c ∈ s'.imported ↔ c ∈ s.imported

theorem determineClassesToWrap_eq_some {depth : Nat} {typedefs : List (String × CableType κ)}
    {s : ClassSets κ} (h : determineClassesToWrap g depth typedefs = some s) :
    ∃ i, addAll (addClassToBeImported g depth) (wrappedClasses typedefs) [] = some i ∧
      (∀ c, c ∈ s.included ↔ c ∈ wrappedClasses typedefs) ∧
      ∀ c, c ∈ s.imported ↔ c ∈ i ∧ c ∉ wrappedClasses typedefs := by
  obtain ⟨s₁, h₁, hs⟩ := Option.bind_eq_some_iff.mp h
  obtain rfl := Option.some.inj hs
  have hincluded : ∀ c, c ∈ s₁.included ↔ c ∈ wrappedClasses typedefs := by
    intro c
    rw [wrapTypedefs_included depth typedefs _ s₁ h₁ c]
    exact or_iff_right (List.not_mem_nil)
  refine ⟨s₁.imported, ?_, hincluded, fun c => ?_⟩
  · have himported := wrapTypedefs_imported (g := g) depth typedefs {}
    rw [h₁] at himported
    exact himported.symm
  · rw [List.mem_filter, ← hincluded c]
    exact and_congr_right fun _ => decide_eq_true_iff

theorem wrapTypedefs_mono {depth depth' : Nat} (hle : depth ≤ depth')
    (typedefs : List (String × CableType κ)) : ∀ {s r : ClassSets κ},
      typedefs.foldlM (wrapTypedef g depth) s = some r →
      typedefs.foldlM (wrapTypedef g depth') s = some r := by
  induction typedefs with
  | nil => intro s r h; exact h
  | cons td typedefs ih =>
    intro s r h
    rw [List.foldlM_cons] at h ⊢
    obtain ⟨s₁, h₁, h⟩ := Option.bind_eq_some_iff.mp h
    refine Option.bind_eq_some_iff.mpr ⟨s₁, ?_, ih h⟩
    unfold wrapTypedef at h₁ ⊢
    split at h₁
    · obtain ⟨i, hi, h₁⟩ := Option.bind_eq_some_iff.mp h₁
      exact Option.bind_eq_some_iff.mpr ⟨i, addClassToBeImported_mono hle hi, h₁⟩
    · exact h₁

theorem determined_of_eq_some {depth : Nat} {typedefs : List (String × CableType κ)}
    {s : ClassSets κ} (h : determineClassesToWrap g depth typedefs = some s) :
    Determined g typedefs s := by
  refine ⟨depth, fun depth' hlt => ?_⟩
  obtain ⟨s₁, h₁, hs⟩ := Option.bind_eq_some_iff.mp h
  exact Option.bind_eq_some_iff.mpr ⟨s₁, wrapTypedefs_mono (Nat.le_of_lt hlt) typedefs h₁, hs⟩

/-- `DetermineClassesToWrap` returns, however the classes depend on each other. -/
theorem determined_exists [Fintype κ] (typedefs : List (String × CableType κ)) :
    ∃ s, Determined g typedefs s := by
  have hcard : (unvisited ([] : List κ)).card < Fintype.card κ + 1 :=
    Nat.lt_succ_of_le (Finset.card_le_univ _)
  obtain ⟨i, hi⟩ := addAll_returns (g := g) (addClassToBeImported_inserts _)
    (addClassToBeImported_returns (g := g) (Fintype.card κ + 1)) (wrappedClasses typedefs) hcard
  have himported := wrapTypedefs_imported (g := g) (Fintype.card κ + 1) typedefs {}
  rw [hi] at himported
  obtain ⟨s, hs, -⟩ := Option.map_eq_some_iff.mp himported
  exact ⟨_, determined_of_eq_some (Option.bind_eq_some_iff.mpr ⟨s, hs, rfl⟩)⟩

theorem Determined.unique {typedefs : List (String × CableType κ)} {s s' : ClassSets κ}
    (h : Determined g typedefs s) (h' : Determined g typedefs s') : s = s' := by
  obtain ⟨b, hb⟩ := h
  obtain ⟨b', hb'⟩ := h'
  have h₁ := hb (b + b' + 1) (by omega)
  have h₂ := hb' (b + b' + 1) (by omega)
  exact Option.some.inj (h₁.symm.trans h₂)

/-- The two sets, through the list of the classes that the calls import. -/
theorem Determined.sets {typedefs : List (String × CableType κ)} {s : ClassSets κ}
    (h : Determined g typedefs s) : ∃ i depth,
      addAll (addClassToBeImported g depth) (wrappedClasses typedefs) [] = some i ∧
      (∀ c, c ∈ s.included ↔ c ∈ wrappedClasses typedefs) ∧
      (∀ c, c ∈ s.imported ↔ c ∈ i ∧ c ∉ wrappedClasses typedefs) ∧
      ∀ c, c ∈ s.included ∨ c ∈ s.imported ↔ c ∈ i := by
  obtain ⟨bound, hbound⟩ := h
  obtain ⟨i, hi, hincluded, himported⟩ :=
    determineClassesToWrap_eq_some (hbound (bound + 1) (Nat.lt_succ_self _))
  refine ⟨i, bound + 1, hi, hincluded, himported, fun c => ?_⟩
  rw [hincluded c, himported c]
  constructor
  · rintro (hc | hc)
    · exact addAll_self _ hi c hc
    · exact hc.1
  · intro hc
    by_cases hw : c ∈ wrappedClasses typedefs
    · exact Or.inl hw
    · exact Or.inr ⟨hc, hw⟩

theorem Determined.disjoint {typedefs : List (String × CableType κ)} {s : ClassSets κ}
    (h : Determined g typedefs s) : ∀ c ∈ s.included, c ∉ s.imported := by
  obtain ⟨i, -, -, hincluded, himported, -⟩ := h.sets
  intro c hc hc'
  exact ((himported c).mp hc').2 ((hincluded c).mp hc)

end Sets

section Condition

/-- The classes that the wrapped ones need, directly or not. -/
def Needed (g : Classes κ) (typedefs : List (String × CableType κ)) (c : κ) : Prop :=
  Reached g (· ∈ wrappedClasses typedefs) c

variable [DecidableEq κ]

/-- The classes that `GetAllBaseClasses` lists ahead of one of the bases. -/
def listedAhead (g : Classes κ) (c b : κ) : List κ :=
  (getAllBaseClasses g c).takeWhile (· ≠ b)

/-- What is imported when the call for `c` comes to the methods of `x`. -/
def importedAt (g : Classes κ) (c x : κ) : List κ :=
  if x = c then [c] else c :: (listedAhead g c x ++ [x])

/-- The call for `c` comes to the methods of `x`, and one of them mentions `d`, while none of `d`,
`b` and `q` need be imported. -/
def Calls (g : Classes κ) (b q c x d : κ) : Prop :=
  d ∈ methodClasses g x ∧ ∀ y ∈ importedAt g c x, y ≠ d ∧ y ≠ b ∧ y ≠ q

/-- The classes for which calls may be made after a leading class is inserted in the loop over
the bases of `c` and before the loop comes to `b`, while `q` is not imported either. -/
inductive CalledWithin (g : Classes κ) (b : κ) (leads : κ → Prop) (q c : κ) : κ → Prop
  | ahead {x d : κ} : x ∈ listedAhead g c b → leads x → Calls g b q c x d →
      CalledWithin g b leads q c d
  | type {y x d : κ} : CalledWithin g b leads q c y → x = y ∨ Derives g y x →
      Calls g b q y x d → CalledWithin g b leads q c d

/-- The classes for which calls may be made while `b` and `q` are not imported, if `b` is imported
with each leading class. -/
inductive CalledBefore (g : Classes κ) (typedefs : List (String × CableType κ)) (b : κ)
    (leads : κ → Prop) (q : κ) : κ → Prop
  | wrapped {c : κ} : c ∈ wrappedClasses typedefs → CalledBefore g typedefs b leads q c
  | within {c d : κ} : CalledBefore g typedefs b leads q c → CalledWithin g b leads q c d →
      CalledBefore g typedefs b leads q d
  | type {y x d : κ} : CalledBefore g typedefs b leads q y → ¬ leads y →
      x = y ∨ Derives g y x → Calls g b q y x d → CalledBefore g typedefs b leads q d

/-- A loop that inserts a leading class `x` goes on to `b`. From `x` to `b` it comes only to
leading ones, each once, and loops that may run within each other do so in one order. -/
structure LeadsTo (g : Classes κ) (typedefs : List (String × CableType κ)) (b : κ)
    (leads : κ → Prop) : Prop where
  derives : ∀ x, leads x → ∀ c, CalledBefore g typedefs b leads x c → c ≠ b →
    x = c ∨ Derives g c x → Derives g c b
  ordered : ∀ c, CalledBefore g typedefs b leads b c → ∃ height : κ → Nat, ∀ y, y ≠ b →
    (y :: listedAhead g y b).Pairwise fun x z => leads x →
      (y = c ∧ CalledBefore g typedefs b leads x c ∨ CalledWithin g b leads x c y) →
      leads z ∧ height z < height x

/-- The classes that are imported wherever the loops over the base classes stop. -/
inductive Secured (g : Classes κ) (typedefs : List (String × CableType κ)) : κ → Prop
  | wrapped {c : κ} : c ∈ wrappedClasses typedefs → Secured g typedefs c
  | type {c d : κ} : Secured g typedefs c → d ∈ methodClasses g c → Secured g typedefs d
  | led {c b : κ} {leads : κ → Prop} : Secured g typedefs c → leads c →
      LeadsTo g typedefs b leads → Secured g typedefs b

end Condition

section Listed

variable [DecidableEq κ] {g : Classes κ} {c b p : κ} {done rest : List κ}

theorem listedAhead_eq (hsplit : getAllBaseClasses g c = done ++ b :: rest) (hdone : b ∉ done) :
    listedAhead g c b = done := by
  have hall : ∀ x ∈ done, decide (x ≠ b) = true :=
    fun x hx => decide_eq_true fun h => hdone (h ▸ hx)
  rw [listedAhead, hsplit, List.takeWhile_append_of_pos hall]
  simp

theorem listedAhead_split (hsplit : getAllBaseClasses g c = done ++ p :: rest) (hdone : b ∉ done)
    (hp : p ≠ b) : ∃ later, listedAhead g c b = done ++ p :: later := by
  have hall : ∀ x ∈ done, decide (x ≠ b) = true :=
    fun x hx => decide_eq_true fun h => hdone (h ▸ hx)
  refine ⟨rest.takeWhile (· ≠ b), ?_⟩
  rw [listedAhead, hsplit, List.takeWhile_append_of_pos hall]
  exact congrArg (done ++ ·) (List.takeWhile_cons_of_pos (decide_eq_true hp))

/-- What holds of the classes up to `b`, one after the other, holds of each class that has been
gone through and the next one. -/
theorem pairwise_listed {R : κ → κ → Prop} (h : (c :: listedAhead g c b).Pairwise R)
    (hsplit : getAllBaseClasses g c = done ++ p :: rest) (hdone : b ∉ done) (hp : p ≠ b) :
    ∀ q ∈ c :: done, R q p := by
  intro q hq
  obtain ⟨later, hahead⟩ := listedAhead_split hsplit hdone hp
  rw [hahead, ← List.cons_append] at h
  exact (List.pairwise_append.mp h).2.2 q hq p List.mem_cons_self

theorem derives_of_listedAhead (h : p ∈ listedAhead g c b) : Derives g c p :=
  getAllBaseClasses_iff.mp ((List.takeWhile_sublist _).mem h)

theorem listedAhead_append (hb : Derives g c b) :
    ∃ rest, getAllBaseClasses g c = listedAhead g c b ++ b :: rest := by
  obtain ⟨ahead, rest, hsplit, hn⟩ :=
    List.eq_append_cons_of_mem ((getAllBaseClasses_iff (g := g)).mpr hb)
  exact ⟨rest, (listedAhead_eq hsplit hn).symm ▸ hsplit⟩

end Listed

section Waiting

variable [DecidableEq κ] {g : Classes κ} {typedefs : List (String × CableType κ)} {b : κ}
  {leads : κ → Prop}

/-- While `b` is not imported, no leading class is but the allowed ones. -/
def Waiting (b : κ) (leads allowed : κ → Prop) (imported : List κ) : Prop :=
  b ∈ imported ∨ ∀ x ∈ imported, leads x → allowed x

omit [DecidableEq κ] in
theorem Waiting.insert {allowed : κ → Prop} {i : List κ} (h : Waiting b leads allowed i)
    {p : κ} (hp : leads p → allowed p) : Waiting b leads allowed (p :: i) := by
  rcases h with hb | h
  · exact Or.inl (List.mem_cons_of_mem _ hb)
  · refine Or.inr fun x hx hleads => ?_
    rcases List.mem_cons.mp hx with rfl | hx
    · exact hp hleads
    · exact h x hx hleads

omit [DecidableEq κ] in
theorem Waiting.mono {allowed allowed' : κ → Prop} {i : List κ} (h : Waiting b leads allowed i)
    (hallowed : ∀ x, allowed x → allowed' x) : Waiting b leads allowed' i :=
  h.imp_right fun h x hx hleads => hallowed x (h x hx hleads)

/-- Calls for a class that keep what is allowed, wherever the known classes are imported. -/
def Keeps (g : Classes κ) (b : κ) (leads : κ → Prop) (depth : Nat) (known : κ → Prop) (d : κ)
    (allowed : κ → Prop) : Prop :=
  ∀ j j', (∀ y, known y → y ∈ j) → addClassToBeImported g depth d j = some j' →
    Waiting b leads allowed j → Waiting b leads allowed j'

theorem keeps_self {depth : Nat} {known allowed : κ → Prop} :
    Keeps g b leads depth known b allowed :=
  fun _ _ _ h _ => Or.inl (addClassToBeImported_self h)

theorem keeps_of_known {depth : Nat} {known allowed : κ → Prop} {d : κ} (hb : known b) :
    Keeps g b leads depth known d allowed :=
  fun j j' hknown h _ => Or.inl ((addClassToBeImported_inserts depth d j j' h).1 b (hknown b hb))

/-- The methods of `x` are looked at by a call for `c` that began with `known`. -/
theorem addTypes_waiting {depth : Nat} {c x : κ} {known allowed : κ → Prop}
    (hcalls : ∀ d ∈ methodClasses g x, (∀ y ∈ importedAt g c x, y ≠ d) →
      Keeps g b leads depth (fun y => known y ∨ y ∈ importedAt g c x) d allowed) {i i' : List κ}
    (hknown : ∀ y, known y → y ∈ i) (hat : ∀ y ∈ importedAt g c x, y ∈ i)
    (h : addImportReturnTypesAndArguments g (addClassToBeImported g depth) x i = some i')
    (hi : Waiting b leads allowed i) : Waiting b leads allowed i' := by
  rw [addTypes_eq] at h
  have hkeeps : (∀ y ∈ i, y ∈ i') ∧ Waiting b leads allowed i' := by
    refine @addAll_preserves _ _ _ _ (fun j => (∀ y ∈ i, y ∈ j) ∧ Waiting b leads allowed j)
      _ _ _ (fun d hd => ?_) h ⟨fun _ hy => hy, hi⟩
    by_cases hdi : d ∈ i
    · exact Or.inl hdi
    refine Or.inr fun j j' hj ⟨hsub, hwaiting⟩ => ⟨fun y hy => ?_, ?_⟩
    · exact (addClassToBeImported_inserts depth d j j' hj).1 y (hsub y hy)
    · refine hcalls d hd (fun y hy hyd => hdi (hyd ▸ hat y hy)) j j' (fun y hy => hsub y ?_) hj
        hwaiting
      exact hy.elim (hknown y) (hat y)
  exact hkeeps.2

/-- What may be allowed: with a class all those that are not below it. -/
def Upward (height : κ → Nat) (allowed : κ → Prop) : Prop :=
  ∀ x z, allowed x → height x ≤ height z → allowed z

/-- What is allowed for the calls that are made from a loop which went through `passed`. -/
def Passed (leads : κ → Prop) (height : κ → Nat) (allowed : κ → Prop) (passed : List κ) (x : κ) :
    Prop := allowed x ∨ ∃ q ∈ passed, leads q ∧ height q ≤ height x

omit [DecidableEq κ] in
theorem Passed.upward {height : κ → Nat} {allowed : κ → Prop} {passed : List κ}
    (h : Upward height allowed) : Upward height (Passed leads height allowed passed) := by
  rintro x z (hx | ⟨q, hq, hleads, hle⟩) hxz
  · exact Or.inl (h x z hx hxz)
  · exact Or.inr ⟨q, hq, hleads, hle.trans hxz⟩

omit [DecidableEq κ] in
/-- A loop that stops at a class listed below those it went through. -/
theorem Waiting.stop {height : κ → Nat} {allowed : κ → Prop} {passed i : List κ} {p : κ}
    (hi : ∀ x ∈ i, leads x → Passed leads height allowed passed x)
    (hallowed : Upward height allowed) (hp : p ∈ i)
    (hbelow : ∀ q ∈ passed, leads q → leads p ∧ height p < height q) :
    Waiting b leads allowed i := by
  refine Or.inr fun x hx hleads => ?_
  rcases hi x hx hleads with hx | ⟨q, hq, hqleads, hle⟩
  · exact hx
  · obtain ⟨hpleads, hlt⟩ := hbelow q hq hqleads
    rcases hi p hp hpleads with hpallowed | ⟨q', hq', hqleads', hle'⟩
    · exact hallowed p x hpallowed (hlt.le.trans hle)
    · exact absurd (hbelow q' hq' hqleads').2 (Nat.not_lt.mpr hle')

section Loop

variable {depth : Nat} {c : κ} {known : κ → Prop} {height : κ → Nat} {allowed : κ → Prop}
  (hderives : ∀ x, leads x → ¬ known x → x = c ∨ Derives g c x → Derives g c b)
  (hordered : (c :: listedAhead g c b).Pairwise fun x z =>
    leads x → ¬ known x → leads z ∧ height z < height x)
  (hallowed : Upward height allowed)
  (hskipped : ¬ leads c → ∀ x, Derives g c x → ∀ d ∈ methodClasses g x,
    (∀ y ∈ importedAt g c x, y ≠ d) →
      Keeps g b leads depth (fun y => known y ∨ y ∈ importedAt g c x) d allowed)
  (hwithin : ∀ x ∈ listedAhead g c b, leads x → ∀ d ∈ methodClasses g x,
    (∀ y ∈ importedAt g c x, y ≠ d) → ∀ allowed : κ → Prop, Upward height allowed →
      Keeps g b leads depth (fun y => known y ∨ y ∈ importedAt g c x) d allowed)

include hordered hallowed hskipped hwithin in
/-- The loop over the bases of `c` inserts the next class `p` and looks at its methods. -/
theorem addTypes_passed {done parents i i₁ : List κ} {p : κ}
    (hsplit : getAllBaseClasses g c = done ++ p :: parents) (hdone : b ∉ done) (hpb : p ≠ b)
    (hknown : ∀ y, known y → y ∈ i) (hpassed : ∀ x ∈ c :: done, x ∈ i ∧ ¬ known x) (hp : p ∉ i)
    (h₁ : addImportReturnTypesAndArguments g (addClassToBeImported g depth) p (p :: i) = some i₁)
    (hi : Waiting b leads (Passed leads height allowed (c :: done)) i) :
    (∀ x ∈ c :: (done ++ [p]), x ∈ i₁ ∧ ¬ known x) ∧
      Waiting b leads (Passed leads height allowed (c :: (done ++ [p]))) i₁ := by
  have hmem : ∀ q, q ∈ c :: (done ++ [p]) ↔ q ∈ c :: done ∨ q = p := by
    intro q
    rw [← List.cons_append, List.mem_append, List.mem_singleton]
  have hinserted : ∀ x ∈ c :: (done ++ [p]), x ∈ p :: i ∧ ¬ known x := by
    intro x hx
    rcases (hmem x).mp hx with hx | rfl
    · exact ⟨List.mem_cons_of_mem _ (hpassed x hx).1, (hpassed x hx).2⟩
    · exact ⟨List.mem_cons_self, fun hx => hp (hknown x hx)⟩
  have hat : importedAt g c p = c :: (done ++ [p]) := by
    have hpc : p ≠ c := fun hpc => hp (hpc ▸ (hpassed c List.mem_cons_self).1)
    have hlist : listedAhead g c p = done :=
      listedAhead_eq hsplit fun hmem => hp (hpassed p (List.mem_cons_of_mem _ hmem)).1
    rw [importedAt, if_neg hpc, hlist]
  refine ⟨fun x hx => (hinserted x hx).imp_left ((addTypes_inserts depth p _ i₁ h₁).1 x), ?_⟩
  refine addTypes_waiting (c := c) (fun d hd hnew => ?_)
    (fun y hy => List.mem_cons_of_mem _ (hknown y hy))
    (fun y hy => (hinserted y (hat ▸ hy)).1) h₁ ?_
  · by_cases hpleads : leads p
    · obtain ⟨later, hahead⟩ := listedAhead_split hsplit hdone hpb
      exact hwithin p (hahead ▸ List.mem_append_right _ List.mem_cons_self) hpleads d hd hnew _
        (Passed.upward hallowed)
    · have hnone : ∀ q ∈ c :: done, ¬ leads q := fun q hq hleads => hpleads
        (pairwise_listed hordered hsplit hdone hpb q hq hleads (hpassed q hq).2).1
      have hbase : Derives g c p := by
        apply getAllBaseClasses_iff.mp
        rw [hsplit]
        exact List.mem_append_right _ List.mem_cons_self
      intro j j' hj hrun hwaiting
      have hskips := hskipped (hnone c List.mem_cons_self) p hbase d hd hnew j j' hj hrun
      refine (hskips (hwaiting.mono fun x hx => hx.resolve_right ?_)).mono fun x => Or.inl
      rintro ⟨q, hq, hleads, -⟩
      rcases (hmem q).mp hq with hq | rfl
      · exact hnone q hq hleads
      · exact hpleads hleads
  · have hpassing : Waiting b leads (Passed leads height allowed (c :: (done ++ [p]))) i :=
      hi.mono fun x => Or.imp_right fun ⟨q, hq, h⟩ => ⟨q, (hmem q).mpr (Or.inl hq), h⟩
    refine hpassing.insert fun hleads => ?_
    exact Or.inr ⟨p, (hmem p).mpr (Or.inr rfl), hleads, le_rfl⟩

include hderives hordered hallowed hskipped hwithin

/-- The loop over the bases of `c`. It stops short of `b` at a class that was allowed before, if
it inserts a leading class. -/
theorem addParents_waiting (parents : List κ) :
    ∀ (done : List κ) {i i' : List κ}, getAllBaseClasses g c = done ++ parents →
      (∀ y, known y → y ∈ i) → (∀ x ∈ c :: done, x ∈ i ∧ ¬ known x) →
      addParents (addImportReturnTypesAndArguments g (addClassToBeImported g depth)) parents i =
        some i' →
      Waiting b leads (Passed leads height allowed (c :: done)) i →
      Waiting b leads allowed i' := by
  induction parents with
  | nil =>
    intro done i i' hsplit _ hpassed h hi
    obtain rfl := Option.some.inj h
    have hlisted : ∀ q ∈ c :: done, q = c ∨ Derives g c q := by
      intro q hq
      refine (List.mem_cons.mp hq).imp_right fun hq => getAllBaseClasses_iff.mp ?_
      rw [hsplit]
      exact List.mem_append_left _ hq
    by_cases hbase : Derives g c b
    · have hmem : b ∈ done := by
        simpa [hsplit] using (getAllBaseClasses_iff (g := g)).mpr hbase
      exact Or.inl (hpassed b (List.mem_cons_of_mem _ hmem)).1
    · refine hi.mono fun x hx => hx.resolve_right ?_
      rintro ⟨q, hq, hleads, -⟩
      exact hbase (hderives q hleads (hpassed q hq).2 (hlisted q hq))
  | cons p parents ih =>
    intro done i i' hsplit hknown hpassed h hi
    have hinserts := addParents_inserts (addTypes_inserts (g := g) depth) _ h
    by_cases hbi : b ∈ i
    · exact Or.inl (hinserts.1 b hbi)
    have hdone : b ∉ done := fun hmem => hbi (hpassed b (List.mem_cons_of_mem _ hmem)).1
    unfold addParents at h
    split at h
    · rename_i hp
      obtain rfl := Option.some.inj h
      refine .stop (hi.resolve_left hbi) hallowed hp fun q hq hleads => ?_
      exact pairwise_listed hordered hsplit hdone (fun hpb => hbi (hpb ▸ hp)) q hq hleads
        (hpassed q hq).2
    · rename_i hp
      obtain ⟨i₁, h₁, h⟩ := Option.bind_eq_some_iff.mp h
      have hsub := (addTypes_inserts depth p _ i₁ h₁).1
      by_cases hpb : p = b
      · refine Or.inl ((addParents_inserts (addTypes_inserts depth) _ h).1 b (hsub b ?_))
        exact hpb ▸ List.mem_cons_self
      obtain ⟨hpassed₁, hi₁⟩ := addTypes_passed hordered hallowed hskipped hwithin hsplit hdone
        hpb hknown hpassed hp h₁ hi
      exact ih (done ++ [p]) (by simpa using hsplit)
        (fun y hy => hsub y (List.mem_cons_of_mem _ (hknown y hy))) hpassed₁ h hi₁

/-- The loop of a class that has just been inserted. -/
theorem addParents_inserted {i i' : List κ} (hknown : ∀ y, known y → y ∈ i) (hc : c ∉ i)
    (h : addParents (addImportReturnTypesAndArguments g (addClassToBeImported g depth))
      (getAllBaseClasses g c) (c :: i) = some i')
    (hi : Waiting b leads allowed i) : Waiting b leads allowed i' := by
  refine addParents_waiting hderives hordered hallowed hskipped hwithin _ [] rfl
    (fun y hy => List.mem_cons_of_mem _ (hknown y hy)) (fun x hx => ?_) h ?_
  · obtain rfl := List.mem_singleton.mp hx
    exact ⟨List.mem_cons_self, fun hx => hc (hknown x hx)⟩
  · refine (hi.mono fun x => Or.inl).insert fun hleads => ?_
    exact Or.inr ⟨c, List.mem_cons_self, hleads, le_rfl⟩

end Loop

theorem importedAt_self (g : Classes κ) (c : κ) : importedAt g c c = [c] := if_pos rfl

/-- The call for `d` comes from the methods of `x`, in a call for `c` that began with `known`. What
it keeps is to be told for the classes only that were not known and have not been inserted since. -/
theorem keeps_of_called {depth : Nat} {c x d : κ} {known allowed : κ → Prop}
    (hd : d ∈ methodClasses g x) (hnew : ∀ y ∈ importedAt g c x, y ≠ d)
    (hkeeps : (∀ q, ¬ (known q ∨ q ∈ importedAt g c x) → ¬ known q ∧ Calls g b q c x d) →
      Keeps g b leads depth (fun y => known y ∨ y ∈ importedAt g c x) d allowed) :
    Keeps g b leads depth (fun y => known y ∨ y ∈ importedAt g c x) d allowed := by
  by_cases hb : b ∈ importedAt g c x
  · exact keeps_of_known (Or.inr hb)
  · refine hkeeps fun q hq => ⟨fun hk => hq (Or.inl hk), hd, fun y hy => ⟨hnew y hy, ?_, ?_⟩⟩
    · exact fun hyb => hb (hyb ▸ hy)
    · exact fun hyq => hq (Or.inr (hyq ▸ hy))

/-- A call from a loop that has inserted a leading class. -/
theorem LeadsTo.within_keeps (hb : LeadsTo g typedefs b leads) {c : κ} {began : κ → Prop}
    (hc : ∀ q, ¬ began q → CalledBefore g typedefs b leads q c) {height : κ → Nat}
    (hordered : ∀ y, y ≠ b → (y :: listedAhead g y b).Pairwise fun x z => leads x →
      (y = c ∧ CalledBefore g typedefs b leads x c ∨ CalledWithin g b leads x c y) →
      leads z ∧ height z < height x)
    (depth : Nat) : ∀ (known : κ → Prop) (d : κ), (∀ q, began q → known q) →
      (∀ q, ¬ known q → CalledWithin g b leads q c d) →
      ∀ allowed : κ → Prop, Upward height allowed → Keeps g b leads depth known d allowed := by
  induction depth with
  | zero => intro known d _ _ allowed _ j j' _ h; simp [addClassToBeImported] at h
  | succ depth ih =>
    intro known d hbegan hd allowed hallowed
    by_cases hdb : d = b
    · exact hdb ▸ keeps_self
    have hcalls : ∀ x, x = d ∨ Derives g d x → ∀ e ∈ methodClasses g x,
        (∀ y ∈ importedAt g d x, y ≠ e) → ∀ allowed : κ → Prop, Upward height allowed →
          Keeps g b leads depth (fun y => known y ∨ y ∈ importedAt g d x) e allowed := by
      intro x hx e he hnew allowed hallowed
      refine keeps_of_called he hnew fun hcall => ?_
      refine ih _ e (fun q hq => Or.inl (hbegan q hq)) (fun q hq => ?_) allowed hallowed
      obtain ⟨hq, hcall⟩ := hcall q hq
      exact .type (hd q hq) hx hcall
    intro j j' hj h hwaiting
    rcases addClassToBeImported_cases h with ⟨-, rfl⟩ | ⟨hdj, j₁, h₁, h⟩
    · exact hwaiting
    · have hunknown : ∀ x, ¬ known x → CalledBefore g typedefs b leads x d :=
        fun x hx => .within (hc x fun hbx => hx (hbegan x hbx)) (hd x hx)
      have hloop := addParents_inserted
        (fun x hleads hx => hb.derives x hleads d (hunknown x hx) hdb)
        ((hordered d hdb).imp fun hxz hleads hx => hxz hleads (Or.inr (hd _ hx))) hallowed
        (fun _ x hx e he hnew => hcalls x (Or.inr hx) e he hnew _ hallowed)
        (fun x hx _ => hcalls x (Or.inr (derives_of_listedAhead hx))) hj hdj h₁ hwaiting
      have hsub := (addParents_inserts (addTypes_inserts depth) _ h₁).1
      refine addTypes_waiting (fun e he hnew => hcalls d (Or.inl rfl) e he hnew _ hallowed)
        (fun y hy => hsub y (List.mem_cons_of_mem _ (hj y hy))) (fun y hy => hsub y ?_) h hloop
      obtain rfl := List.mem_singleton.mp (importedAt_self g d ▸ hy)
      exact List.mem_cons_self

/-- A call while `b` is not imported. -/
theorem LeadsTo.before_keeps (hb : LeadsTo g typedefs b leads) (depth : Nat) :
    ∀ (known : κ → Prop) (d : κ), (∀ q, ¬ known q → CalledBefore g typedefs b leads q d) →
      Keeps g b leads depth known d fun _ => False := by
  induction depth with
  | zero => intro known d _ j j' _ h; simp [addClassToBeImported] at h
  | succ depth ih =>
    intro known d hd
    by_cases hdb : d = b
    · exact hdb ▸ keeps_self
    by_cases hbknown : known b
    · exact keeps_of_known hbknown
    obtain ⟨height, hordered⟩ := hb.ordered d (hd b hbknown)
    have hcalls : ¬ leads d → ∀ x, x = d ∨ Derives g d x → ∀ e ∈ methodClasses g x,
        (∀ y ∈ importedAt g d x, y ≠ e) →
          Keeps g b leads depth (fun y => known y ∨ y ∈ importedAt g d x) e fun _ => False := by
      intro hleads x hx e he hnew
      refine keeps_of_called he hnew fun hcall => ih _ e fun q hq => ?_
      obtain ⟨hq, hcall⟩ := hcall q hq
      exact .type (hd q hq) hleads hx hcall
    have hwithin : ∀ x ∈ listedAhead g d b, leads x → ∀ e ∈ methodClasses g x,
        (∀ y ∈ importedAt g d x, y ≠ e) → ∀ allowed : κ → Prop, Upward height allowed →
          Keeps g b leads depth (fun y => known y ∨ y ∈ importedAt g d x) e allowed := by
      intro x hx hleads e he hnew allowed hallowed
      refine keeps_of_called he hnew fun hcall => ?_
      refine hb.within_keeps hd hordered depth _ e (fun q => Or.inl) (fun q hq => ?_) allowed
        hallowed
      exact .ahead hx hleads (hcall q hq).2
    intro j j' hj h hwaiting
    rcases addClassToBeImported_cases h with ⟨-, rfl⟩ | ⟨hdj, j₁, h₁, h⟩
    · exact hwaiting
    · have hloop := addParents_inserted
        (fun x hleads hx => hb.derives x hleads d (hd x hx) hdb)
        ((hordered d hdb).imp fun hxz hleads hx => hxz hleads (Or.inl ⟨rfl, hd _ hx⟩))
        (fun _ _ hx _ => hx) (fun hleads x hx => hcalls hleads x (Or.inr hx)) hwithin hj hdj h₁
        hwaiting
      have hsub := (addParents_inserts (addTypes_inserts depth) _ h₁).1
      by_cases hleads : leads d
      · have hb₁ : b ∈ j₁ := hloop.resolve_right fun h => h d (hsub d List.mem_cons_self) hleads
        exact Or.inl ((addTypes_inserts depth d j₁ j' h).1 b hb₁)
      · refine addTypes_waiting (hcalls hleads d (Or.inl rfl))
          (fun y hy => hsub y (List.mem_cons_of_mem _ (hj y hy))) (fun y hy => hsub y ?_) h hloop
        obtain rfl := List.mem_singleton.mp (importedAt_self g d ▸ hy)
        exact List.mem_cons_self

end Waiting

section Closed

variable [DecidableEq κ] {g : Classes κ} {typedefs : List (String × CableType κ)} {depth : Nat}
  {cs i : List κ}

/-- With a leading class, what it leads to is imported, in whichever order the typedefs are
visited. -/
theorem LeadsTo.imported {b : κ} {leads : κ → Prop} (hb : LeadsTo g typedefs b leads)
    (hcs : ∀ c ∈ cs, c ∈ wrappedClasses typedefs)
    (h : addAll (addClassToBeImported g depth) cs [] = some i) {c : κ} (hleads : leads c)
    (hc : c ∈ i) : b ∈ i := by
  have hwaiting : Waiting b leads (fun _ => False) i := by
    refine addAll_preserves _ (fun d hd => Or.inr fun j j' => ?_) h
      (Or.inr fun x hx => absurd hx List.not_mem_nil)
    exact hb.before_keeps depth (fun _ => False) d (fun q _ => .wrapped (hcs d hd)) j j'
      fun _ => False.elim
  exact hwaiting.resolve_right fun h => h c hc hleads

/-- A secured class is imported. -/
theorem imported_of_secured (hcs : ∀ c, c ∈ cs ↔ c ∈ wrappedClasses typedefs)
    (h : addAll (addClassToBeImported g depth) cs [] = some i) {x : κ}
    (hx : Secured g typedefs x) : x ∈ i := by
  have hscanned : Scanned g (fun _ => False) i := by
    refine addAll_preserves _ (fun d _ => Or.inr ?_) h fun x hx => absurd hx List.not_mem_nil
    exact fun j j' => addClassToBeImported_scanned depth d j j' _
  induction hx with
  | wrapped hc => exact addAll_self _ h _ ((hcs _).mpr hc)
  | type _ hd ih => exact (hscanned _ ih).resolve_left id _ hd
  | led _ hleads hb ih => exact hb.imported (fun c => (hcs c).mp) h hleads ih

/-- Where every needed class is secured, the calls import the needed classes, in whichever
order the typedefs are visited. -/
theorem imported_iff_needed (hcs : ∀ c, c ∈ cs ↔ c ∈ wrappedClasses typedefs)
    (h : addAll (addClassToBeImported g depth) cs [] = some i)
    (hsecured : ∀ c, Needed g typedefs c → Secured g typedefs c) (c : κ) :
    c ∈ i ↔ Needed g typedefs c := by
  constructor
  · intro hc
    have hinserts := addAll_inserts (addClassToBeImported_inserts depth) _ h
    rcases hinserts.2 c hc with hc | hc
    · exact absurd hc List.not_mem_nil
    · exact hc.of_starts fun d hd => .start ((hcs d).mp hd)
  · exact fun hc => imported_of_secured hcs h (hsecured c hc)

omit [DecidableEq κ] in
theorem wrappedClasses_perm {typedefs typedefs' : List (String × CableType κ)}
    (h : typedefs.Perm typedefs') (c : κ) :
    c ∈ wrappedClasses typedefs' ↔ c ∈ wrappedClasses typedefs :=
  (h.filterMap _).mem_iff.symm

/-- The two sets, for any order of typedefs whose needed classes are all secured. -/
theorem Determined.sets_of_secured {typedefs' : List (String × CableType κ)} {s : ClassSets κ}
    (h : Determined g typedefs' s) (hperm : typedefs.Perm typedefs')
    (hsecured : ∀ c, Needed g typedefs c → Secured g typedefs c) :
    (∀ c, c ∈ s.included ↔ c ∈ wrappedClasses typedefs) ∧
      (∀ c, c ∈ s.imported ↔ Needed g typedefs c ∧ c ∉ wrappedClasses typedefs) ∧
      ∀ c, c ∈ s.included ∨ c ∈ s.imported ↔ Needed g typedefs c := by
  obtain ⟨i, depth, hi, hincluded, himported, hunion⟩ := h.sets
  have hneeded := imported_iff_needed (wrappedClasses_perm hperm) hi hsecured
  refine ⟨fun c => ?_, fun c => ?_, fun c => ?_⟩
  · rw [hincluded c, wrappedClasses_perm hperm c]
  · rw [himported c, hneeded c, wrappedClasses_perm hperm c]
  · rw [hunion c, hneeded c]

end Closed

section SingleBase

variable {g : Classes κ}

/-- Where no class has two bases, a class is followed by the list of its own bases. -/
theorem getAllBaseClasses_chain (hsingle : ∀ c, (g.bases c).length ≤ 1) {p : κ}
    {done rest : List κ} : ∀ {c : κ}, getAllBaseClasses g c = done ++ p :: rest →
      rest = getAllBaseClasses g p := by
  induction done with
  | nil =>
    intro c hsplit
    rw [getAllBaseClasses_eq] at hsplit
    have hlen := hsingle c
    rcases hbases : g.bases c with _ | ⟨q, _ | ⟨q', qs⟩⟩
    · simp [hbases] at hsplit
    · simp only [hbases, List.flatMap_cons, List.flatMap_nil, List.append_nil,
        List.singleton_append, List.nil_append, List.cons.injEq] at hsplit
      exact hsplit.1 ▸ hsplit.2.symm
    · simp [hbases] at hlen
  | cons d done ih =>
    intro c hsplit
    rw [getAllBaseClasses_eq] at hsplit
    have hlen := hsingle c
    rcases hbases : g.bases c with _ | ⟨q, _ | ⟨q', qs⟩⟩
    · simp [hbases] at hsplit
    · simp only [hbases, List.flatMap_cons, List.flatMap_nil, List.append_nil,
        List.cons_append, List.cons.injEq] at hsplit
      exact ih hsplit.2
    · simp [hbases] at hlen

/-- Single inheritance lists the classes in the order of their depth. -/
theorem getAllBaseClasses_pairwise (hsingle : ∀ c, (g.bases c).length ≤ 1) (c : κ) :
    (c :: getAllBaseClasses g c).Pairwise fun x y => g.rank y < g.rank x := by
  induction c using rank_induction g with
  | h c ih =>
    have hlen := hsingle c
    have heq := getAllBaseClasses_eq g c
    rcases hbases : g.bases c with _ | ⟨q, _ | ⟨q', qs⟩⟩
    · simp [heq, hbases]
    · have hq : q ∈ g.bases c := hbases ▸ List.mem_cons_self
      have hrank := g.rank_lt c q hq
      have hpair := ih q hq
      have hlist : getAllBaseClasses g c = q :: getAllBaseClasses g q := by
        simpa [hbases] using heq
      rw [hlist]
      refine List.pairwise_cons.mpr ⟨fun x hx => ?_, hpair⟩
      rcases List.mem_cons.mp hx with rfl | hx
      · exact hrank
      · have hbelow := (List.pairwise_cons.mp hpair).1 x hx
        omega
    · simp [hbases] at hlen

variable [DecidableEq κ]

theorem leadsTo_of_single_base (hsingle : ∀ c, (g.bases c).length ≤ 1)
    (typedefs : List (String × CableType κ)) (b : κ) : LeadsTo g typedefs b (Derives g · b) := by
  refine ⟨fun x hleads c _ _ hx => ?_, fun c _ => ⟨g.rank, fun y _ => ?_⟩⟩
  · rcases hx with rfl | hx
    · exact hleads
    · exact hx.trans hleads
  · have hall : ∀ z ∈ listedAhead g y b, Derives g y b → Derives g z b := by
      intro z hz hb
      obtain ⟨rest, hsplit⟩ := listedAhead_append hb
      obtain ⟨done, later, hahead⟩ := List.append_of_mem hz
      rw [hahead, List.append_assoc, List.cons_append] at hsplit
      apply getAllBaseClasses_iff.mp
      rw [← getAllBaseClasses_chain hsingle hsplit]
      exact List.mem_append_right _ List.mem_cons_self
    have hranks := (getAllBaseClasses_pairwise hsingle y).sublist
      (List.Sublist.cons_cons y (List.takeWhile_sublist (· ≠ b)))
    refine hranks.imp_of_mem fun {x z} hx hz hlt hleads _ => ⟨?_, hlt⟩
    have hb : Derives g y b := by
      rcases List.mem_cons.mp hx with rfl | hx
      · exact hleads
      · exact (derives_of_listedAhead hx).trans hleads
    rcases List.mem_cons.mp hz with rfl | hz
    · exact hb
    · exact hall z hz hb

/-- Without multiple inheritance every needed class is secured. -/
theorem secured_of_single_base (hsingle : ∀ c, (g.bases c).length ≤ 1)
    {typedefs : List (String × CableType κ)} {c : κ} (h : Needed g typedefs c) :
    Secured g typedefs c := by
  induction h with
  | start hc => exact .wrapped hc
  | base _ hb ih => exact .led ih hb (leadsTo_of_single_base hsingle typedefs _)
  | type _ hd ih => exact .type ih hd

end SingleBase

section OneTypedef

variable [DecidableEq κ] {g : Classes κ}

/-- Where the methods import nothing, a loop reaches `b` only past different classes. -/
theorem addParents_nodup {addTypes : κ → List κ → Option (List κ)} {b : κ} (parents : List κ) :
    ∀ {i i' : List κ},
      (∀ p ∈ parents, ∀ i i', addTypes p i = some i' → p ∈ i → i' = i) →
      addParents addTypes parents i = some i' → b ∈ i' → b ∉ i →
      (parents.takeWhile (· ≠ b)).Nodup ∧ ∀ x ∈ parents.takeWhile (· ≠ b), x ∉ i := by
  induction parents with
  | nil =>
    intro i i' _ h hb hn
    obtain rfl := Option.some.inj h
    exact absurd hb hn
  | cons p parents ih =>
    intro i i' htypes h hb hn
    unfold addParents at h
    split at h
    · obtain rfl := Option.some.inj h
      exact absurd hb hn
    · rename_i hp
      obtain ⟨i₁, h₁, h⟩ := Option.bind_eq_some_iff.mp h
      obtain rfl := htypes p List.mem_cons_self _ i₁ h₁ List.mem_cons_self
      by_cases hpb : p = b
      · simp [hpb]
      · rw [List.takeWhile_cons_of_pos (by simpa using hpb)]
        have hn' : b ∉ p :: i := by
          simp only [List.mem_cons, not_or]
          exact ⟨fun h => hpb h.symm, hn⟩
        obtain ⟨hnodup, hfresh⟩ :=
          ih (fun q hq => htypes q (List.mem_cons_of_mem _ hq)) h hb hn'
        refine ⟨List.nodup_cons.mpr ⟨fun hmem => hfresh p hmem List.mem_cons_self, hnodup⟩, ?_⟩
        intro x hx
        rcases List.mem_cons.mp hx with rfl | hx
        · exact hp
        · exact fun hi => hfresh x hx (List.mem_cons_of_mem _ hi)

omit [DecidableEq κ] in
theorem Derives.irrefl (c : κ) : ¬ Derives g c c := by
  have hrank : ∀ {c b : κ}, Derives g c b → g.rank b < g.rank c := by
    intro c b h
    induction h with
    | single hb => exact g.rank_lt _ _ hb
    | tail _ hb ih => exact Nat.lt_trans (g.rank_lt _ _ hb) ih
  exact fun h => Nat.lt_irrefl _ (hrank h)

theorem exists_height {l : List κ} (h : l.Nodup) :
    ∃ height : κ → Nat, l.Pairwise fun x y => height y < height x := by
  refine ⟨fun x => l.length - l.idxOf x, List.pairwise_iff_getElem.mpr fun i j hi hj hij => ?_⟩
  show l.length - l.idxOf l[j] < l.length - l.idxOf l[i]
  rw [h.idxOf_getElem, h.idxOf_getElem]
  omega

/-- Methods that mention their own class only import nothing. -/
theorem addTypes_own {depth : Nat} {p : κ} (hown : ∀ d ∈ methodClasses g p, d = p)
    (i i' : List κ)
    (h : addImportReturnTypesAndArguments g (addClassToBeImported g depth) p i = some i')
    (hp : p ∈ i) : i' = i := by
  rw [addTypes_eq] at h
  have hknown : ∀ d ∈ methodClasses g p, d ∈ i := fun d hd => (hown d hd).symm ▸ hp
  exact @addAll_preserves _ _ _ _ (· = i) _ _ _ (fun d hd => Or.inl (hknown d hd)) h rfl

/-- With one typedef and methods that mention their own class only, as constructors do, a base
is secured if the classes listed ahead of it are different. -/
theorem secured_of_nodup {n : String} {c x : κ}
    (hmethods : ∀ x, Needed g [(n, .classType c)] x → ∀ d ∈ methodClasses g x, d = x)
    (hcx : Derives g c x) (hnodup : (c :: listedAhead g c x).Nodup) :
    Secured g [(n, .classType c)] x := by
  have hwrapped : ∀ y, y ∈ wrappedClasses [(n, CableType.classType c)] ↔ y = c :=
    fun y => List.mem_singleton
  have hself : Needed g [(n, .classType c)] c := .start ((hwrapped c).mpr rfl)
  have hnone : ∀ q y z d, Needed g [(n, .classType c)] z → ¬ Calls g x q y z d := by
    intro q y z d hz hcalls
    have hzat : z ∈ importedAt g y z := by
      unfold importedAt
      split
      · rename_i hzy
        exact hzy ▸ List.mem_cons_self
      · simp
    exact (hcalls.2 z hzat).1 (hmethods z hz d hcalls.1).symm
  have hleads : c ∈ c :: listedAhead g c x := List.mem_cons_self
  have hwithin : ∀ q y, ¬ CalledWithin g x (· ∈ c :: listedAhead g c x) q c y := by
    intro q y hy
    induction hy with
    | ahead hz _ hcalls => exact hnone _ _ _ _ (.base hself (derives_of_listedAhead hz)) hcalls
    | type _ _ _ ih => exact ih
  have hbefore : ∀ q y, CalledBefore g [(n, .classType c)] x (· ∈ c :: listedAhead g c x) q y →
      y = c := by
    intro q y hy
    induction hy with
    | wrapped hy => exact (hwrapped _).mp hy
    | within _ hd ih => exact absurd (ih ▸ hd) (hwithin q _)
    | type _ hnot _ _ ih => exact absurd (ih ▸ hleads) hnot
  refine .led (.wrapped ((hwrapped c).mpr rfl)) hleads ⟨?_, ?_⟩
  · exact fun q _ y hy _ _ => hbefore q y hy ▸ hcx
  · obtain ⟨height, hheight⟩ := exists_height hnodup
    refine fun y hy => ⟨height, fun z _ => ?_⟩
    obtain rfl := hbefore x y hy
    by_cases hzy : z = y
    · subst hzy
      exact hheight.imp_of_mem fun _ hz hlt _ _ => ⟨hz, hlt⟩
    · refine List.pairwise_of_forall fun u v _ hu => ?_
      exact absurd (hu.resolve_left fun h => hzy h.1) (hwithin u z)

/-- There the sets are closed only where the needed classes are secured: nothing but the one loop
imports them. -/
theorem secured_of_closes {n : String} {c : κ}
    (hmethods : ∀ x, Needed g [(n, .classType c)] x → ∀ d ∈ methodClasses g x, d = x)
    (hcloses : ClosesImports g [(n, .classType c)]) {x : κ}
    (hx : Needed g [(n, .classType c)] x) : Secured g [(n, .classType c)] x := by
  have hwrapped : ∀ y, y ∈ wrappedClasses [(n, CableType.classType c)] ↔ y = c :=
    fun y => List.mem_singleton
  have hneeded : ∀ y, Needed g [(n, .classType c)] y → y = c ∨ Derives g c y := by
    intro y hy
    induction hy with
    | start hc => exact Or.inl ((hwrapped _).mp hc)
    | base _ hb ih => exact Or.inr (ih.elim (fun h => h ▸ hb) fun h => h.trans hb)
    | type hy hd ih => exact hmethods _ hy _ hd ▸ ih
  have hself : Needed g [(n, .classType c)] c := .start ((hwrapped c).mpr rfl)
  rcases hneeded x hx with rfl | hcx
  · exact .wrapped ((hwrapped x).mpr rfl)
  obtain ⟨s, hs, hclosed, -⟩ := hcloses
  obtain ⟨i, depth, hi, hincluded, -, hunion⟩ := hs.sets
  have hxi : x ∈ i := by
    refine (hunion x).mp ((hclosed c (Or.inl ?_)).1 x hcx)
    exact (hincluded c).mpr ((hwrapped c).mpr rfl)
  have hordered : (c :: listedAhead g c x).Nodup := by
    obtain ⟨i₁, hrun, hnil⟩ := Option.bind_eq_some_iff.mp hi
    obtain rfl := Option.some.inj hnil
    cases depth with
    | zero => simp [addClassToBeImported] at hrun
    | succ depth =>
      rcases addClassToBeImported_cases hrun with ⟨hc, -⟩ | ⟨-, i₂, hloop, hrest⟩
      · exact absurd hc List.not_mem_nil
      · have hmem := (addParents_inserts (addTypes_inserts depth) _ hloop).1 c List.mem_cons_self
        obtain rfl := addTypes_own (hmethods c hself) _ _ hrest hmem
        have hxc : x ∉ [c] := fun h => Derives.irrefl c (List.mem_singleton.mp h ▸ hcx)
        obtain ⟨hnodup, hfresh⟩ := addParents_nodup _ (fun p hp => addTypes_own
          (hmethods p (.base hself (getAllBaseClasses_iff.mp hp)))) hloop hxi hxc
        exact List.nodup_cons.mpr ⟨fun h => hfresh c h List.mem_cons_self, hnodup⟩
  exact secured_of_nodup hmethods hcx hordered

end OneTypedef

/-- `Both` derives from `Left` and from `Right`, and each of these from a class of its own. Each
class has a constructor that takes a reference to another object of the class. -/
def bothSides : Classes (Fin 5) where
  bases := ![[], [0], [], [2], [1, 3]]
  methods c := [⟨.other, [.reference (.classType c)]⟩]
  rank := ![0, 1, 0, 1, 2]
  rank_lt := by decide

/-- `A` is reached as a base of `B` and of `C`; then `E` is left in the list. -/
def diamond : Classes (Fin 5) where
  bases := ![[], [0], [0, 4], [1, 2], []]
  methods _ := []
  rank := ![0, 1, 1, 2, 0]
  rank_lt := by decide

end CableSwig.Executables.ImportClosure
