import CableSwig.Generators.TclGenerator

/-!
# The types of a wrapper are declared

The search for types and the writing of the wrappers go through the classes each in its own way.
Every `CvType< X >` that is written is the name of a type that the search has added, or of one
that the writer has added before such a type.
-/
namespace CableSwig.Generators.DeclaredTypes

open CableSwig.CxxTypes
open CableSwig.CxxTypes.DeclarationPrinter (Printed)
open CableSwig.CxxTypes.TypeSystem
open CableSwig.Generators.CvTypeWriter
open CableSwig.Generators.TclGenerator
open CableSwig.Lib.BreadthFirst
open CableSwig.Lib.Fuel
open CableSwig.Lib.PostOrder

variable {κ ε α : Type}

section Names

variable {g : Types α} {t : α}

theorem getName_classType {name : String} {copyable : Bool} {ps : List α}
    (h : g.node t = .classType name copyable ps) (isConst : Bool) :
    getName g ⟨t, isConst, false⟩ = qualifiedName isConst name := by
  have hterm : termOf g t = .classType name := by
    rw [termOf]
    split <;> simp_all
  rw [getName, cvTermOf, DeclarationPrinter.getName, hterm]
  cases isConst <;> rfl

theorem getName_enumerationType {name : String} (h : g.node t = .enumerationType name) :
    getName g (unqualified t) = [.name name] := by
  have hterm : termOf g t = .enumerationType name := by
    rw [termOf]
    split <;> simp_all
  rw [getName, cvTermOf, unqualified, DeclarationPrinter.getName, hterm]
  rfl

theorem getName_void (h : g.node t = .fundamentalType .void) :
    getName g (unqualified t) = DeclarationPrinter.text "void" := by
  have hterm : termOf g t = .fundamentalType .void := by
    rw [termOf]
    split <;> simp_all
  rw [getName, cvTermOf, unqualified, DeclarationPrinter.getName, hterm]
  rfl

end Names

section Collected

variable {r : SourceRepresentation κ ε α} {l : List (CvQualifiedType α)}

/-- The unqualified type comes with a qualified one. -/
theorem unqualified_mem {g : Types α} (h : Ordered (firsts g) l) {t : CvQualifiedType α}
    (ht : t ∈ l) : unqualified t.type ∈ l := by
  by_cases hq : (t.isConst || t.isVolatile) = true
  · exact h.mem_of_needs ht (firsts_of_qualified g hq)
  · have heq : unqualified t.type = t := by
      obtain ⟨t, c, v⟩ := t
      cases c <;> cases v <;> simp_all [unqualified]
    rwa [heq]

/-- What a reference refers to comes with it. -/
theorem referenced_mem (h : Ordered (firsts r.toTypes) l) {t : CvQualifiedType α}
    (ht : unqualified (r.getReferenceType t) ∈ l) : t ∈ l := by
  refine h.mem_of_needs ht (List.mem_append_right _ ?_)
  rw [show (unqualified (r.getReferenceType t)).type = r.getReferenceType t from rfl,
    r.referenceType_node]
  exact List.mem_singleton_self t

/-- The types of all these needs are in the list. -/
def Met (l : List (CvQualifiedType α)) (needs : List (Need ε α)) : Prop :=
  ∀ t, Need.cvType t ∈ needs → t ∈ l

theorem Met.of_append_left {a b : List (Need ε α)} (h : Met l (a ++ b)) : Met l a :=
  fun t ht => h t (List.mem_append_left _ ht)

theorem Met.of_append_right {a b : List (Need ε α)} (h : Met l (a ++ b)) : Met l b :=
  fun t ht => h t (List.mem_append_right _ ht)

theorem Met.of_flatMap {β : Type} {f : β → List (Need ε α)} {bs : List β}
    (h : Met l (bs.flatMap f)) {b : β} (hb : b ∈ bs) : Met l (f b) :=
  fun t ht => h t (List.mem_flatMap.mpr ⟨b, hb, ht⟩)

end Collected

section Superclasses

variable (r : SourceRepresentation κ ε α)

theorem parents_rank (g : Types α) (t : α) : ∀ p ∈ parents g t, g.rank p < g.rank t := by
  intro p hp
  refine g.rank_lt t p ?_
  rw [parents] at hp
  cases hnode : g.node t with
  | classType name copyable ps =>
    rw [hnode] at hp
    exact hp
  | _ =>
    rw [hnode] at hp
    cases hp

theorem addSuperclassCvTypesFrom_eq (depth depth' : Nat) (t : α) (hdepth : r.rank t < depth)
    (hdepth' : r.rank t < depth') :
    addSuperclassCvTypesFrom r depth t = addSuperclassCvTypesFrom r depth' t := by
  induction depth generalizing depth' t with
  | zero => omega
  | succ depth ih =>
    obtain ⟨depth', rfl⟩ : ∃ k, depth' = k + 1 := ⟨depth' - 1, by omega⟩
    rw [addSuperclassCvTypesFrom, addSuperclassCvTypesFrom]
    refine congrArg _ (List.flatMap_congr fun p hp => ?_)
    have hlt := parents_rank r.toTypes t p hp
    exact ih depth' p (by omega) (by omega)

/-- The recursion of `AddSuperclassCvTypes`. -/
theorem addSuperclassCvTypes_eq (t : α) : addSuperclassCvTypes r t =
    addClassCvTypes r ⟨t, false, false⟩ ⟨t, true, false⟩ ++
      (parents r.toTypes t).flatMap (addSuperclassCvTypes r) := by
  rw [addSuperclassCvTypes, addSuperclassCvTypesFrom]
  refine congrArg _ (List.flatMap_congr fun p hp => ?_)
  have hlt := parents_rank r.toTypes t p hp
  exact addSuperclassCvTypesFrom_eq r _ _ p (by omega) (by omega)

theorem cvType_of_superclass (t : α) :
    ∀ n ∈ addSuperclassCvTypes r t, ∃ u, n = Need.cvType u := by
  suffices h : ∀ depth t, ∀ n ∈ addSuperclassCvTypesFrom r depth t, ∃ u, n = Need.cvType u from
    h _ t
  intro depth
  induction depth with
  | zero => exact fun t n hn => absurd hn List.not_mem_nil
  | succ depth ih =>
    intro t n hn
    rw [addSuperclassCvTypesFrom] at hn
    rcases List.mem_append.mp hn with hn | hn
    · simp only [addClassCvTypes, addCvReferenceType, addCvPointerType, List.mem_cons,
        List.not_mem_nil, or_false] at hn
      rcases hn with rfl | rfl | rfl | rfl <;> exact ⟨_, rfl⟩
    · obtain ⟨p, -, hn⟩ := List.mem_flatMap.mp hn
      exact ih p n hn

end Superclasses

section Complete

variable {r : SourceRepresentation κ ε α} {l : List (CvQualifiedType α)}

/-- What the conversions and the values of enumerations need is in the list. -/
structure Complete (r : SourceRepresentation κ ε α) (l : List (CvQualifiedType α))
    (needs : List (Need ε α)) : Prop where
  superclasses : ∀ d, Need.derivedToBase d ∈ needs → Met l (addSuperclassCvTypes r d)
  values : ∀ e, Need.enumerationValues e ∈ needs → unqualified (r.enumerationType e) ∈ l

theorem Complete.append {a b : List (Need ε α)} (ha : Complete r l a) (hb : Complete r l b) :
    Complete r l (a ++ b) :=
  ⟨fun d hd => (List.mem_append.mp hd).elim (ha.superclasses d) (hb.superclasses d),
    fun e he => (List.mem_append.mp he).elim (ha.values e) (hb.values e)⟩

theorem Complete.flatMap {β : Type} {f : β → List (Need ε α)} {bs : List β}
    (h : ∀ b ∈ bs, Complete r l (f b)) : Complete r l (bs.flatMap f) := by
  refine ⟨fun d hd => ?_, fun e he => ?_⟩
  · obtain ⟨b, hb, hd⟩ := List.mem_flatMap.mp hd
    exact (h b hb).superclasses d hd
  · obtain ⟨b, hb, he⟩ := List.mem_flatMap.mp he
    exact (h b hb).values e he

/-- Needs that are types only. -/
theorem complete_of_cvTypes {needs : List (Need ε α)} (h : ∀ n ∈ needs, ∃ u, n = .cvType u) :
    Complete r l needs := by
  refine ⟨fun d hd => ?_, fun e he => ?_⟩
  · obtain ⟨u, hu⟩ := h _ hd
    cases hu
  · obtain ⟨u, hu⟩ := h _ he
    cases hu

/-- A class is looked up with its superclasses. -/
theorem complete_superclasses {d : α}
    (h : Met l (addSuperclassCvTypes r d ++ [.derivedToBase d])) :
    Complete r l (addSuperclassCvTypes r d ++ [.derivedToBase d]) := by
  refine (complete_of_cvTypes (cvType_of_superclass r d)).append ⟨fun d' hd => ?_, fun e he => ?_⟩
  · obtain ⟨⟩ := List.mem_singleton.mp hd
    exact h.of_append_left
  · cases List.mem_singleton.mp he

theorem complete_findReturnCvTypes (ho : Ordered (firsts r.toTypes) l) (returns : CableType κ ε α)
    (h : Met l (findReturnCvTypes r returns)) : Complete r l (findReturnCvTypes r returns) := by
  have hself : getCxxType r returns ∈ l :=
    h _ (List.mem_append_left _ (List.mem_append_left _ (List.mem_singleton_self _)))
  refine .append (.append (complete_of_cvTypes fun n hn => ?_) ?_) ?_
  · exact ⟨_, List.mem_singleton.mp hn⟩
  · cases returns with
    | enumerationType e isConst isVolatile =>
      refine ⟨fun d hd => by simp at hd, fun e' he => ?_⟩
      obtain rfl : e' = e := by simpa using he
      exact unqualified_mem ho hself
    | _ => exact complete_of_cvTypes fun n hn => by cases hn
  · have hclass := h.of_append_right
    simp only at hclass ⊢
    cases hnode : r.node (conversionSource r (getCxxType r returns)).type with
    | classType name copyable ps =>
      rw [hnode] at hclass
      exact complete_superclasses hclass
    | _ => exact complete_of_cvTypes fun n hn => by cases hn

theorem complete_findArgumentCvTypes (ho : Ordered (firsts r.toTypes) l)
    (argument : CableType κ ε α) (h : Met l (findArgumentCvTypes r argument)) :
    Complete r l (findArgumentCvTypes r argument) := by
  have hself : getCxxType r argument ∈ l :=
    h _ (List.mem_append_left _ (List.mem_singleton_self _))
  refine .append (complete_of_cvTypes fun n hn => ⟨_, List.mem_singleton.mp hn⟩) ?_
  have hvalues : ∀ e, unqualified (r.enumerationType e) ∈ l →
      Complete r l [Need.enumerationValues e] := by
    intro e he
    refine ⟨fun d hd => by simp at hd, fun e' he' => ?_⟩
    obtain rfl : e' = e := by simpa using he'
    exact he
  split
  · exact hvalues _ (unqualified_mem ho hself)
  · exact hvalues _ (unqualified_mem ho (referenced_mem ho hself))
  · exact complete_of_cvTypes fun n hn => by cases hn

theorem complete_findFunctionCvTypes (ho : Ordered (firsts r.toTypes) l) (f : Function κ ε α)
    (h : Met l (findFunctionCvTypes r f)) : Complete r l (findFunctionCvTypes r f) := by
  refine .append ?_ (.flatMap fun a ha =>
    complete_findArgumentCvTypes ho a (h.of_append_right.of_flatMap ha))
  have hreturns := h.of_append_left
  cases hret : f.functionType.returns with
  | none => exact complete_of_cvTypes fun n hn => by cases hn
  | some returns =>
    rw [hret] at hreturns
    exact complete_findReturnCvTypes ho returns hreturns

/-- The member is a function that anybody may call. -/
def PublicFunction (r : SourceRepresentation κ ε α) (c : κ) (f : Function κ ε α) : Prop :=
  ∃ m ∈ (r.getClass c).members, m.access = .isPublic ∧ m.function = some f

theorem met_findFunctionCvTypes {c : κ} (h : Met l (findClassCvTypes r c)) {f : Function κ ε α}
    (hf : PublicFunction r c f) : Met l (findFunctionCvTypes r f) := by
  obtain ⟨m, hm, hpublic, hfun⟩ := hf
  have hmember := h.of_append_right.of_flatMap hm
  rw [if_pos hpublic, hfun] at hmember
  exact hmember

theorem complete_findClassCvTypes (ho : Ordered (firsts r.toTypes) l) (c : κ)
    (h : Met l (findClassCvTypes r c)) : Complete r l (findClassCvTypes r c) := by
  have hsuper := h.of_append_left
  rw [List.append_assoc] at hsuper
  refine .append ?_ (.flatMap fun m hm => ?_)
  · rw [List.append_assoc]
    refine .append (complete_of_cvTypes fun n hn => ?_)
      (complete_superclasses hsuper.of_append_right)
    simp only [addClassCvTypes, addCvReferenceType, addCvPointerType, List.mem_cons,
      List.not_mem_nil, or_false] at hn
    rcases hn with rfl | rfl | rfl | rfl <;> exact ⟨_, rfl⟩
  · by_cases hpublic : m.access = .isPublic
    · rw [if_pos hpublic]
      cases hfun : m.function with
      | none => exact complete_of_cvTypes fun n hn => by cases hn
      | some f =>
        exact complete_findFunctionCvTypes ho f (met_findFunctionCvTypes h ⟨m, hm, hpublic, hfun⟩)
    · rw [if_neg hpublic]
      exact complete_of_cvTypes fun n hn => by cases hn

/-- What the search needs for the wrapped classes is in the list. -/
theorem complete_findCvTypes (ho : Ordered (firsts r.toTypes) l) (wrappers : ClassWrapperMap κ)
    (h : Met l (findCvTypes r wrappers)) : Complete r l (findCvTypes r wrappers) :=
  .flatMap fun _ hi => complete_findClassCvTypes ho _ (h.of_flatMap hi)

end Complete

section Methods

variable (r : SourceRepresentation κ ε α)

/-- What `FindMethods` finds are public functions, and classes that these return. -/
structure Sound (c : κ) (found : Methods κ ε α) : Prop where
  methods : ∀ e ∈ found.methods, PublicFunction r c e.method
  converters : ∀ e ∈ found.converters, PublicFunction r c e.method
  destructors : ∀ t ∈ found.classesThatNeedDestructor, ∃ f d isConst isVolatile,
    PublicFunction r c f ∧ f.functionType.returns = some (.classType d isConst isVolatile) ∧
      t = r.classType d

theorem sound_addEntries {c : κ} {found : Methods κ ε α} (h : Sound r c found)
    {m : Function κ ε α} (hpublic : PublicFunction r c m) :
    Sound r c (addEntries r c m found) := by
  rw [addEntries]
  split
  · refine ⟨fun e he => ?_, h.converters, h.destructors⟩
    rcases List.mem_append.mp he with he | he
    · exact h.methods e he
    · obtain ⟨i, -, rfl⟩ := List.mem_map.mp he
      exact hpublic
  · split
    · refine ⟨h.methods, fun e he => ?_, h.destructors⟩
      rcases List.mem_append.mp he with he | he
      · exact h.converters e he
      · obtain rfl := List.mem_singleton.mp he
        exact hpublic
    · exact h

variable [DecidableEq κ]

theorem sound_findMethod {c : κ} {copyValid : Bool} {found : Methods κ ε α} (h : Sound r c found)
    {member : Member κ ε α} (hmember : member ∈ (r.getClass c).members) :
    Sound r c (findMethod r c copyValid found member) := by
  rw [findMethod]
  cases hfun : member.function with
  | none => exact h
  | some m =>
    simp only
    split
    · rename_i hcond
      have hpublic : PublicFunction r c m := by
        simp only [Bool.and_eq_true, decide_eq_true_eq] at hcond
        exact ⟨member, hmember, hcond.1.2, hfun⟩
      have hentries := sound_addEntries r h hpublic
      split
      · rename_i d isConst isVolatile hret
        refine ⟨hentries.methods, hentries.converters, fun t ht => ?_⟩
        rcases List.mem_append.mp ht with ht | ht
        · exact hentries.destructors t ht
        · exact ⟨m, d, isConst, isVolatile, hpublic, hret, List.mem_singleton.mp ht⟩
      · exact hentries
    · split
      · exact ⟨h.methods, h.converters, h.destructors⟩
      · exact h

theorem sound_foldl {c : κ} {copyValid : Bool} {members : List (Member κ ε α)}
    (hmembers : ∀ m ∈ members, m ∈ (r.getClass c).members) {found : Methods κ ε α}
    (h : Sound r c found) : Sound r c (members.foldl (findMethod r c copyValid) found) := by
  induction members generalizing found with
  | nil => exact h
  | cons m members ih =>
    exact ih (fun n hn => hmembers n (List.mem_cons_of_mem _ hn))
      (sound_findMethod r h (hmembers m List.mem_cons_self))

/-- `FindMethods` lists public functions, and besides the classes that these return the class
itself. -/
theorem findMethods_spec (c : κ) :
    (∀ e ∈ (findMethods r c).methods, PublicFunction r c e.method) ∧
      (∀ e ∈ (findMethods r c).converters, PublicFunction r c e.method) ∧
      ∀ t ∈ (findMethods r c).classesThatNeedDestructor, t = r.classType c ∨
        ∃ f d isConst isVolatile, PublicFunction r c f ∧
          f.functionType.returns = some (.classType d isConst isVolatile) ∧ t = r.classType d := by
  have hempty : Sound r c {} :=
    ⟨fun e he => absurd he List.not_mem_nil, fun e he => absurd he List.not_mem_nil,
      fun t ht => absurd ht List.not_mem_nil⟩
  have hsound : Sound r c ((r.getClass c).members.foldl
      (findMethod r c (hasPublicCopyConstructor r c)) {}) :=
    sound_foldl r (fun m hm => hm) hempty
  rw [findMethods]
  split
  · refine ⟨hsound.methods, hsound.converters, fun t ht => ?_⟩
    rcases List.mem_append.mp ht with ht | ht
    · exact Or.inr (hsound.destructors t ht)
    · exact Or.inl (List.mem_singleton.mp ht)
  · exact ⟨hsound.methods, hsound.converters, fun t ht => Or.inr (hsound.destructors t ht)⟩

end Methods

section Uses

variable {r : SourceRepresentation κ ε α} {l : List (CvQualifiedType α)}

/-- The name of a type in the list. -/
def NameOf (g : Types α) (l : List (CvQualifiedType α)) (x : Printed) : Prop :=
  ∃ t ∈ l, getName g t = x

/-- Only names of types in the list are used. -/
def UsesOnly (g : Types α) (l : List (CvQualifiedType α)) (out : List Output) : Prop :=
  ∀ x, Output.used x ∈ out → NameOf g l x

variable {g : Types α}

theorem UsesOnly.append {a b : List Output} (ha : UsesOnly g l a) (hb : UsesOnly g l b) :
    UsesOnly g l (a ++ b) :=
  fun x hx => (List.mem_append.mp hx).elim (ha x) (hb x)

theorem UsesOnly.flatMap {β : Type} {f : β → List Output} {bs : List β}
    (h : ∀ b ∈ bs, UsesOnly g l (f b)) : UsesOnly g l (bs.flatMap f) := by
  intro x hx
  obtain ⟨b, hb, hx⟩ := List.mem_flatMap.mp hx
  exact h b hb x hx

theorem usesOnly_nil : UsesOnly g l [] := fun _ hx => absurd hx List.not_mem_nil

theorem UsesOnly.text {out : List Output} (h : UsesOnly g l out) (s : String) :
    UsesOnly g l (.text s :: out) := by
  intro x hx
  rcases List.mem_cons.mp hx with hx | hx
  · cases hx
  · exact h x hx

theorem UsesOnly.name {out : List Output} (h : UsesOnly g l out) (p : Printed) :
    UsesOnly g l (.name p :: out) := by
  intro x hx
  rcases List.mem_cons.mp hx with hx | hx
  · cases hx
  · exact h x hx

theorem UsesOnly.used {out : List Output} (h : UsesOnly g l out) {p : Printed}
    (hp : NameOf g l p) : UsesOnly g l (.used p :: out) := by
  intro x hx
  rcases List.mem_cons.mp hx with hx | hx
  · cases hx
    exact hp
  · exact h x hx

theorem usesOnly_text (s : String) : UsesOnly g l [.text s] := usesOnly_nil.text s

/-- A text for each element. -/
theorem usesOnly_texts {β : Type} (f : β → String) (bs : List β) :
    UsesOnly g l (bs.map fun b => .text (f b)) := by
  intro x hx
  obtain ⟨b, -, hb⟩ := List.mem_map.mp hx
  cases hb

/-- A class that is wrapped, with its types in the list. -/
structure WrappedClass (r : SourceRepresentation κ ε α) (l : List (CvQualifiedType α)) (c : κ) :
    Prop where
  ordered : Ordered (firsts r.toTypes) l
  met : Met l (findClassCvTypes r c)

theorem WrappedClass.classType_mem {c : κ} (h : WrappedClass r l c) (isConst : Bool) :
    (⟨r.classType c, isConst, false⟩ : CvQualifiedType α) ∈ l := by
  refine referenced_mem h.ordered (h.met _ ?_)
  rw [findClassCvTypes]
  refine List.mem_append_left _ (List.mem_append_left _ (List.mem_append_left _ ?_))
  cases isConst
  · exact List.mem_cons_self
  · exact List.mem_cons_of_mem _ List.mem_cons_self

theorem WrappedClass.name {c : κ} (h : WrappedClass r l c) (isConst : Bool) :
    NameOf r.toTypes l (qualifiedName isConst (r.getClass c).qualifiedName) := by
  obtain ⟨copyable, ps, hnode⟩ := r.classType_node c
  exact ⟨_, h.classType_mem isConst, getName_classType hnode isConst⟩

theorem WrappedClass.argument {c : κ} (h : WrappedClass r l c) {f : Function κ ε α}
    (hf : PublicFunction r c f) {argument : CableType κ ε α}
    (ha : argument ∈ f.functionType.arguments) :
    NameOf r.toTypes l (getName r.toTypes (getCxxType r argument)) := by
  have hmet := (met_findFunctionCvTypes h.met hf).of_append_right.of_flatMap ha
  exact ⟨_, hmet _ (List.mem_append_left _ (List.mem_singleton_self _)), rfl⟩

theorem WrappedClass.returns {c : κ} (h : WrappedClass r l c) {f : Function κ ε α}
    (hf : PublicFunction r c f) {returns : CableType κ ε α}
    (hret : f.functionType.returns = some returns) : getCxxType r returns ∈ l := by
  have hmet := (met_findFunctionCvTypes h.met hf).of_append_left
  rw [hret] at hmet
  exact hmet _ (List.mem_append_left _ (List.mem_append_left _ (List.mem_singleton_self _)))

/-- The name under which a result is registered. -/
theorem WrappedClass.returnTypeName {c : κ} (h : WrappedClass r l c) {f : Function κ ε α}
    (hf : PublicFunction r c f) : NameOf r.toTypes l (getReturnTypeName r f) := by
  obtain ⟨m, hm, -, hfun⟩ := id hf
  obtain ⟨returns, hret⟩ := Option.isSome_iff_exists.mp (r.returns_isSome c m hm f hfun)
  have hmem := h.returns hf hret
  rw [getReturnTypeName, hret]
  simp only
  split
  · rename_i hvoid
    rw [returnsVoid, hret] at hvoid
    simp only at hvoid
    cases hnode : r.node (getCxxType r returns).type with
    | fundamentalType id =>
      rw [hnode] at hvoid
      obtain rfl : id = .void := by simpa using hvoid
      exact ⟨_, unqualified_mem h.ordered hmem, getName_void hnode⟩
    | _ =>
      rw [hnode] at hvoid
      cases hvoid
  · exact ⟨_, hmem, rfl⟩

theorem writeArgumentList_usesOnly {c : κ} (h : WrappedClass r l c) {f : Function κ ε α}
    (hf : PublicFunction r c f) (offset count : Nat) :
    UsesOnly r.toTypes l (writeArgumentList r f.functionType offset count) := by
  refine UsesOnly.flatMap fun i _ => ?_
  cases harg : f.functionType.arguments[i]? with
  | none => exact usesOnly_nil
  | some argument =>
    have hname := h.argument hf (List.mem_of_getElem? harg)
    exact (((usesOnly_text _).used hname).text _).text _

theorem writeImplicitArgument_usesOnly (c : κ) (m : Function κ ε α) :
    UsesOnly g l (writeImplicitArgument r c m) :=
  fun x hx => by simp [writeImplicitArgument] at hx

theorem writeReturnBegin_usesOnly (f : Function κ ε α) :
    UsesOnly g l (writeReturnBegin r f) := by
  intro x hx
  rw [writeReturnBegin] at hx
  split at hx
  · cases hx
  · split at hx
    · cases hx
    · simp only at hx
      split at hx <;> simp at hx

theorem writeMethodWrapper_usesOnly {c : κ} (h : WrappedClass r l c) {entry : MethodEntry κ ε α}
    (hf : PublicFunction r c entry.method) (index : Nat) :
    UsesOnly r.toTypes l (writeMethodWrapper r c entry index) := by
  have hargs := writeArgumentList_usesOnly h hf
  have hbegin : UsesOnly r.toTypes l (writeReturnBegin r entry.method) :=
    writeReturnBegin_usesOnly _
  refine UsesOnly.append (UsesOnly.append (fun x hx => by simp at hx) ?_)
    (fun x hx => by simp at hx)
  split
  · exact UsesOnly.append (UsesOnly.append (fun x hx => by simp at hx) (hargs 0 _))
      (fun x hx => by simp at hx)
  · refine UsesOnly.append (UsesOnly.append (UsesOnly.append ?_ (fun x hx => by simp at hx))
      (hargs 1 _)) (fun x hx => by simp at hx)
    split
    · exact UsesOnly.append hbegin (fun x hx => by simp at hx)
    · exact UsesOnly.append (UsesOnly.append (writeImplicitArgument_usesOnly c _) hbegin)
        (fun x hx => by simp at hx)

theorem writeMethodRegistration_usesOnly {c : κ} (h : WrappedClass r l c)
    {entry : MethodEntry κ ε α} (hf : PublicFunction r c entry.method) (index : Nat) :
    UsesOnly r.toTypes l (writeMethodRegistration r entry index) := by
  refine UsesOnly.append (UsesOnly.append (UsesOnly.append ?_ (usesOnly_text _)) ?_)
    (usesOnly_text _)
  · split
    · refine UsesOnly.append (usesOnly_text _) (UsesOnly.flatMap fun i _ => ?_)
      cases harg : entry.method.functionType.arguments[i]? with
      | none => exact usesOnly_nil
      | some argument =>
        have hname := h.argument hf (List.mem_of_getElem? harg)
        exact ((usesOnly_text _).used hname).text _
    · exact usesOnly_nil
  · split
    · exact usesOnly_text _
    · exact ((usesOnly_text _).used (h.returnTypeName hf)).text _

theorem writeConverterRegistration_usesOnly {c : κ} (h : WrappedClass r l c)
    {m : Function κ ε α} (hf : PublicFunction r c m) :
    UsesOnly r.toTypes l (writeConverterRegistration r c m) := by
  intro x hx
  have hused : x = qualifiedName m.isConst (r.getClass c).qualifiedName ∨
      x = getReturnTypeName r m := by simpa [writeConverterRegistration] using hx
  rcases hused with rfl | rfl
  · exact h.name m.isConst
  · exact h.returnTypeName hf

theorem writeClassWrapperRegistration_usesOnly {c : κ} (h : WrappedClass r l c)
    (names : List String) {methods converters : List (MethodEntry κ ε α)}
    (hmethods : ∀ e ∈ methods, PublicFunction r c e.method)
    (hconverters : ∀ e ∈ converters, PublicFunction r c e.method) :
    UsesOnly r.toTypes l (writeClassWrapperRegistration r c names methods converters) := by
  refine UsesOnly.append (UsesOnly.append (UsesOnly.append (UsesOnly.append (UsesOnly.append
    ?_ (usesOnly_texts _ names)) (usesOnly_text _)) ?_) ?_) (usesOnly_text _)
  · exact ((((usesOnly_text _).used (h.name false)).text _).name _).text _
  · refine UsesOnly.flatMap fun entry hentry => ?_
    exact writeMethodRegistration_usesOnly h
      (hmethods _ (List.fst_mem_of_mem_zipIdx hentry)) entry.2
  · exact UsesOnly.flatMap fun entry hentry =>
      writeConverterRegistration_usesOnly h (hconverters entry hentry)

theorem writeClassWrapper_usesOnly [DecidableEq κ] {c : κ} (h : WrappedClass r l c)
    (names : List String) : UsesOnly r.toTypes l (writeClassWrapper r c names) := by
  obtain ⟨hmethods, hconverters, -⟩ := findMethods_spec r c
  refine UsesOnly.append (UsesOnly.append ?_ (UsesOnly.flatMap fun entry hentry => ?_)) ?_
  · exact fun x hx => by simp [writeClassWrapperDefinition] at hx
  · exact writeMethodWrapper_usesOnly h (hmethods _ (List.fst_mem_of_mem_zipIdx hentry)) entry.2
  · exact writeClassWrapperRegistration_usesOnly h names hmethods hconverters

/-- A class with the references and the pointers to it, and those to its superclasses. -/
theorem met_self {t : α} (h : Met l (addSuperclassCvTypes r t)) (isConst : Bool) :
    unqualified (r.getReferenceType ⟨t, isConst, false⟩) ∈ l ∧
      unqualified (r.getPointerType ⟨t, isConst, false⟩) ∈ l := by
  rw [addSuperclassCvTypes_eq] at h
  cases isConst
  · exact ⟨h.of_append_left _ (by simp [addClassCvTypes, addCvReferenceType]),
      h.of_append_left _ (by simp [addClassCvTypes, addCvPointerType])⟩
  · exact ⟨h.of_append_left _ (by simp [addClassCvTypes, addCvReferenceType]),
      h.of_append_left _ (by simp [addClassCvTypes, addCvPointerType])⟩

theorem met_parent {t : α} (h : Met l (addSuperclassCvTypes r t)) :
    ∀ p ∈ parents r.toTypes t, Met l (addSuperclassCvTypes r p) := by
  rw [addSuperclassCvTypes_eq] at h
  exact fun p hp => h.of_append_right.of_flatMap hp

theorem writeDerivedToBase_usesOnly (ho : Ordered (firsts r.toTypes) l) {derived base : α}
    (hderived : Met l (addSuperclassCvTypes r derived))
    (hbase : Met l (addSuperclassCvTypes r base)) :
    UsesOnly r.toTypes l (writeDerivedToBase r derived base) := by
  have hreference : ∀ isConst, UsesOnly r.toTypes l
      (writeReferenceDerivedToBase r ⟨derived, isConst, false⟩ ⟨base, isConst, false⟩) := by
    intro isConst x hx
    have hused : x = getName r.toTypes ⟨derived, isConst, false⟩ ∨
        x = getName r.toTypes (unqualified (r.getReferenceType ⟨base, isConst, false⟩)) := by
      simpa [writeReferenceDerivedToBase] using hx
    rcases hused with rfl | rfl
    · exact ⟨_, referenced_mem ho (met_self hderived isConst).1, rfl⟩
    · exact ⟨_, (met_self hbase isConst).1, rfl⟩
  have hpointer : ∀ isConst, UsesOnly r.toTypes l
      (writePointerDerivedToBase r ⟨derived, isConst, false⟩ ⟨base, isConst, false⟩) := by
    intro isConst x hx
    have hused : x = getName r.toTypes (unqualified (r.getPointerType ⟨derived, isConst, false⟩)) ∨
        x = getName r.toTypes (unqualified (r.getPointerType ⟨base, isConst, false⟩)) := by
      simpa [writePointerDerivedToBase] using hx
    rcases hused with rfl | rfl
    · exact ⟨_, (met_self hderived isConst).2, rfl⟩
    · exact ⟨_, (met_self hbase isConst).2, rfl⟩
  exact UsesOnly.append (UsesOnly.append (UsesOnly.append (hreference false) (hreference true))
    (hpointer false)) (hpointer true)

theorem writeSetDeleteFunction_usesOnly {x : Printed} (h : NameOf g l x) :
    UsesOnly g l (writeSetDeleteFunction x) := by
  intro y hy
  obtain rfl : y = x := by simpa [writeSetDeleteFunction] using hy
  exact h

theorem writeReturnEnumClasses_usesOnly (enumerations : List ε) :
    UsesOnly g l (writeReturnEnumClasses r enumerations) := by
  refine UsesOnly.flatMap fun e _ => UsesOnly.append (UsesOnly.append ?_ ?_) (usesOnly_text _)
  · exact ((((usesOnly_text _).name _).text _).name _).text _
  · exact usesOnly_texts _ _

/-- The name of an enumeration whose type is in the list. -/
theorem enumeration_name {e : ε} (h : unqualified (r.enumerationType e) ∈ l) :
    NameOf r.toTypes l [.name (r.getEnumeration e).qualifiedName] :=
  ⟨_, h, getName_enumerationType (r.enumerationType_node e)⟩

theorem writeEnumValueRegistration_usesOnly {enumerations : List ε}
    (h : ∀ e ∈ enumerations, unqualified (r.enumerationType e) ∈ l) :
    UsesOnly r.toTypes l (writeEnumValueRegistration r enumerations) := by
  refine UsesOnly.flatMap fun e he => UsesOnly.flatMap fun v _ x hx => ?_
  obtain rfl : x = [.name (r.getEnumeration e).qualifiedName] := by simpa using hx
  exact enumeration_name (h e he)

/-- The loop over the superclasses ends, and the handlers use types only that are in each list
with all that the search needs. -/
theorem writeGroupTypeHandlers_usesOnly [DecidableEq α] (r : SourceRepresentation κ ε α)
    (derivedToBase needDestructor : List α) (needValues : List ε) :
    Enough fun fuel => ∃ out, writeGroupTypeHandlers r fuel derivedToBase needDestructor
      needValues = some out ∧ ∀ l, Ordered (firsts r.toTypes) l →
        (∀ d ∈ derivedToBase, Met l (addSuperclassCvTypes r d)) →
        (∀ t ∈ needDestructor, unqualified t ∈ l) →
        (∀ e ∈ needValues, unqualified (r.enumerationType e) ∈ l) →
        UsesOnly r.toTypes l out := by
  have hconversions : Enough fun fuel => ∃ outs, derivedToBase.mapM (fun derived => do
      let superclasses ← getAllSuperclasses r fuel derived
      some (superclasses.flatMap (writeDerivedToBase r derived))) = some outs ∧
      ∀ out ∈ outs, ∀ l, Ordered (firsts r.toTypes) l →
        (∀ d ∈ derivedToBase, Met l (addSuperclassCvTypes r d)) → UsesOnly r.toTypes l out := by
    refine Enough.mapM derivedToBase fun d hd => ?_
    have hsearch := search_from (parents_rank r.toTypes)
      (P := fun t => ∀ l, Met l (addSuperclassCvTypes r d) → Met l (addSuperclassCvTypes r t))
      (fun t ht p hp l hl => met_parent (ht l hl) p hp) d (fun l hl => hl)
    refine hsearch.mono ?_
    intro fuel hfound
    obtain ⟨superclasses, hresult, hsuper⟩ := hfound
    refine ⟨superclasses.flatMap (writeDerivedToBase r d), ?_, fun l ho hderived => ?_⟩
    · rw [getAllSuperclasses, hresult]
      rfl
    · exact UsesOnly.flatMap fun b hb => writeDerivedToBase_usesOnly ho (hderived d hd)
        (hsuper b hb l (hderived d hd))
  refine hconversions.mono ?_
  intro fuel hmap
  obtain ⟨outs, houts, huses⟩ := hmap
  refine ⟨_, by rw [writeGroupTypeHandlers, houts]; rfl, ?_⟩
  intro l ho hderived hdestructor hvalues
  refine UsesOnly.append (UsesOnly.append (UsesOnly.append ?_ (UsesOnly.flatMap fun t ht => ?_))
    (UsesOnly.flatMap fun e he => ?_)) (writeEnumValueRegistration_usesOnly hvalues)
  · intro x hx
    obtain ⟨out, hout, hx⟩ := List.mem_flatten.mp hx
    exact huses out hout l ho hderived x hx
  · exact writeSetDeleteFunction_usesOnly ⟨_, hdestructor t ht, rfl⟩
  · exact writeSetDeleteFunction_usesOnly (enumeration_name (hvalues e he))

end Uses

section Declared

variable {r : SourceRepresentation κ ε α} {g : Types α} {w : Writer α}

theorem writeArgumentFor_usesOnly {l : List (CvQualifiedType α)} (template : String)
    (t : CvQualifiedType α) : UsesOnly g l (writeArgumentFor g template t) :=
  fun x hx => by simp [writeArgumentFor] at hx

theorem writeArgumentAs_usesOnly {l : List (CvQualifiedType α)} (t : CvQualifiedType α) :
    UsesOnly g l (writeArgumentAs g t) := by
  rw [writeArgumentAs]
  cases g.node t.type with
  | pointerType target =>
    simp only
    cases g.node target.type with
    | fundamentalType id =>
      simp only
      split <;> exact writeArgumentFor_usesOnly _ _
    | _ => exact writeArgumentFor_usesOnly _ _
  | referenceType target =>
    simp only
    split <;> split <;> exact writeArgumentFor_usesOnly _ _
  | pointerToMemberType target cls => exact fun x hx => absurd hx List.not_mem_nil
  | functionType returnType arguments => exact fun x hx => absurd hx List.not_mem_nil
  | _ => exact writeArgumentFor_usesOnly _ _

theorem writeClasses_usesOnly {l : List (CvQualifiedType α)} : UsesOnly g l (writeClasses g w) :=
  UsesOnly.flatMap fun t _ => UsesOnly.append
    (UsesOnly.append (fun x hx => by simp at hx) (writeArgumentAs_usesOnly t))
    (fun x hx => by simp at hx)

theorem writeDataDeclarations_usesOnly {l : List (CvQualifiedType α)} :
    UsesOnly g l (writeDataDeclarations g w) :=
  UsesOnly.flatMap fun t _ x hx => by simp at hx

/-- The initializations use types that are initialized themselves. -/
theorem writeInitializations_usesOnly (ho : Ordered (firsts g) w.typeOrdering) :
    UsesOnly g w.typeOrdering ((writeInitializations g w).map (outputOf g)) := by
  intro x hx
  obtain ⟨piece, hpiece, hx⟩ := List.mem_map.mp hx
  obtain ⟨t, ht, hpiece⟩ := List.mem_flatMap.mp hpiece
  cases piece with
  | text s => cases hx
  | assigned u => cases hx
  | used u =>
    obtain ⟨⟩ := hx
    exact ⟨u, ho.mem_of_needs ht (firsts_of_used g hpiece), rfl⟩

/-- The code for a type assigns to it. -/
theorem assigned_mem (g : Types α) (t : CvQualifiedType α) :
    Piece.assigned t ∈ writeInitialization g t := by
  rw [writeInitialization]
  split
  · simp
  · split <;> simp
  all_goals simp

/-- The needs of the search whose types are added. -/
theorem met_findCvTypes {wrappers : ClassWrapperMap κ} {l : List (CvQualifiedType α)}
    (h : ∀ t ∈ cvTypes (findCvTypes r wrappers), t ∈ l) : Met l (findCvTypes r wrappers) :=
  fun t ht => h t (List.mem_filterMap.mpr ⟨_, ht, rfl⟩)

theorem derivedToBase_met [DecidableEq α] {wrappers : ClassWrapperMap κ}
    {l : List (CvQualifiedType α)} (h : Complete r l (findCvTypes r wrappers)) :
    ∀ d ∈ classesForDerivedToBase (findCvTypes r wrappers), Met l (addSuperclassCvTypes r d) := by
  intro d hd
  obtain ⟨n, hn, hsome⟩ := List.mem_filterMap.mp (List.mem_dedup.mp hd)
  cases n <;> simp only [Option.some.injEq, reduceCtorEq] at hsome
  exact h.superclasses d (hsome ▸ hn)

theorem enumerationsThatNeedValues_mem [DecidableEq ε] {wrappers : ClassWrapperMap κ}
    {l : List (CvQualifiedType α)} (h : Complete r l (findCvTypes r wrappers)) :
    ∀ e ∈ enumerationsThatNeedValues (findCvTypes r wrappers),
      unqualified (r.enumerationType e) ∈ l := by
  intro e he
  obtain ⟨n, hn, hsome⟩ := List.mem_filterMap.mp (List.mem_dedup.mp he)
  cases n <;> simp only [Option.some.injEq, reduceCtorEq] at hsome
  exact h.values e (hsome ▸ hn)

variable [DecidableEq κ] [DecidableEq α]

theorem destructors_mem {wrappers : ClassWrapperMap κ} {l : List (CvQualifiedType α)}
    (ho : Ordered (firsts r.toTypes) l) (hmet : Met l (findCvTypes r wrappers)) :
    ∀ t ∈ classesThatNeedDestructor r wrappers, unqualified t ∈ l := by
  intro t ht
  obtain ⟨i, hi, ht⟩ := List.mem_flatMap.mp (List.mem_dedup.mp ht)
  have hclass : WrappedClass r l i.1 := ⟨ho, hmet.of_flatMap hi⟩
  obtain ⟨-, -, hdestructors⟩ := findMethods_spec r i.1
  rcases hdestructors t ht with rfl | ⟨f, d, isConst, isVolatile, hf, hret, rfl⟩
  · exact hclass.classType_mem false
  · exact unqualified_mem ho (hclass.returns hf hret)

variable [DecidableEq ε]

/-- The wrappers are written, with the code for the types, and use types in the list only. -/
theorem writeWrappers_usesOnly (r : SourceRepresentation κ ε α) (wrappers : ClassWrapperMap κ)
    (group : String) :
    Enough fun fuel => ∀ l, Ordered (firsts r.toTypes) l → Met l (findCvTypes r wrappers) →
      ∃ out, writeWrappers r fuel wrappers group (findCvTypes r wrappers) (.of l) = some out ∧
        UsesOnly r.toTypes l out ∧
        (∀ o ∈ writeClasses r.toTypes (.of l), o ∈ out) ∧
        (∀ o ∈ writeDataDeclarations r.toTypes (.of l), o ∈ out) ∧
        ∀ o ∈ (writeInitializations r.toTypes (.of l)).map (outputOf r.toTypes), o ∈ out := by
  refine (writeGroupTypeHandlers_usesOnly r (classesForDerivedToBase (findCvTypes r wrappers))
    (classesThatNeedDestructor r wrappers)
    (enumerationsThatNeedValues (findCvTypes r wrappers))).mono ?_
  intro fuel hhandlers l ho hmet
  obtain ⟨handlers, hresult, huses⟩ := hhandlers
  have hcomplete := complete_findCvTypes ho wrappers hmet
  have hhandlers := huses l ho (derivedToBase_met hcomplete) (destructors_mem ho hmet)
    (enumerationsThatNeedValues_mem hcomplete)
  have hwrappers : UsesOnly r.toTypes l
      (wrappers.flatMap fun i => writeClassWrapper r i.1 i.2) :=
    UsesOnly.flatMap fun i hi => writeClassWrapper_usesOnly ⟨ho, hmet.of_flatMap hi⟩ i.2
  have hinitializations := writeInitializations_usesOnly (w := .of l) ho
  refine ⟨_, by rw [writeWrappers, hresult]; rfl, ?_, ?_, ?_, ?_⟩
  · have htail : UsesOnly r.toTypes l (wrappers.flatMap fun i => [Output.text "  Wrapper< ",
        .name [.name (r.getClass i.1).qualifiedName],
        .text " >::RegisterWithWrapperFacility(wrapperFacility);\n"]) :=
      UsesOnly.flatMap fun i _ x hx => by simp at hx
    exact (((((((((((((usesOnly_text _).append writeClasses_usesOnly).append
      (usesOnly_text _)).append writeDataDeclarations_usesOnly).append
      (writeReturnEnumClasses_usesOnly _)).append (usesOnly_text _)).append hwrappers).append
      (usesOnly_text _)).append hinitializations).append (usesOnly_text _)).append
      hhandlers).append (usesOnly_text _)).append htail).append (usesOnly_text _)
  all_goals
    intro o hmem
    simp only [List.mem_append, hmem, true_or, or_true]

inductive DeclaredShape where
  | shape | circle | color
  deriving DecidableEq

/-- The types of the classes `Shape` and `Circle` and of an enumeration, with references (`true`)
and pointers to them, each with the qualifiers of what it refers to. -/
structure ShapeType where
  derivations : List (Bool × Bool × Bool)
  base : DeclaredShape
  deriving DecidableEq

def shapeNode : ShapeType → TypeNode ShapeType
  | ⟨[], .shape⟩ => .classType "Shape" true []
  | ⟨[], .circle⟩ => .classType "Circle" true [⟨[], .shape⟩]
  | ⟨[], .color⟩ => .enumerationType "Color"
  | ⟨(true, isConst, isVolatile) :: ds, b⟩ => .referenceType ⟨⟨ds, b⟩, isConst, isVolatile⟩
  | ⟨(false, isConst, isVolatile) :: ds, b⟩ => .pointerType ⟨⟨ds, b⟩, isConst, isVolatile⟩

def shapeRank (t : ShapeType) : Nat := t.derivations.length + if t.base = .circle then 1 else 0

theorem shapeRank_lt (t : ShapeType) :
    ∀ u ∈ innerTypes (shapeNode t), shapeRank u < shapeRank t := by
  obtain ⟨ds, b⟩ := t
  match ds with
  | [] => cases b <;> decide
  | (true, _, _) :: ds =>
    intro u hu
    obtain rfl := List.mem_singleton.mp hu
    simp [shapeRank]
  | (false, _, _) :: ds =>
    intro u hu
    obtain rfl := List.mem_singleton.mp hu
    simp [shapeRank]

/-- `class Circle : Shape` with the method `Color blend(Shape const&) const`. -/
def shapes : SourceRepresentation (Fin 2) (Fin 1) ShapeType where
  node := shapeNode
  rank := shapeRank
  rank_lt := shapeRank_lt
  getReferenceType t := ⟨(true, t.isConst, t.isVolatile) :: t.type.derivations, t.type.base⟩
  getPointerType t := ⟨(false, t.isConst, t.isVolatile) :: t.type.derivations, t.type.base⟩
  classType := ![⟨[], .shape⟩, ⟨[], .circle⟩]
  enumerationType _ := ⟨[], .color⟩
  getClass := ![
    { qualifiedName := "Shape", isAbstract := false, baseClasses := [], members := [] },
    { qualifiedName := "Circle", isAbstract := false, baseClasses := [0]
      members := [{
        access := .isPublic
        function := some {
          functionId := .method, name := "blend", context := 1, isStatic := false, isConst := true
          functionType := {
            returns := some (.enumerationType 0 false false)
            arguments := [.referenceType (.classType 0 true false)]
            requiredArguments := 1 } } }] }]
  getEnumeration _ := { qualifiedName := "Color", contextName := "", values := ["red"] }
  classRank := ![0, 1]
  classRank_lt := by decide
  referenceType_node _ := rfl
  pointerType_node _ := rfl
  classType_node c := by
    match c with
    | 0 => exact ⟨true, [], rfl⟩
    | 1 => exact ⟨true, [⟨[], .shape⟩], rfl⟩
  enumerationType_node _ := rfl
  returns_isSome c m hm f hf := by
    match c with
    | 0 => exact absurd hm List.not_mem_nil
    | 1 =>
      obtain rfl := List.mem_singleton.mp hm
      obtain rfl := Option.some.inj hf
      rfl

/-- Each type X for which the wrappers of a group have a use of `CvType< X >` is one that the
same run specializes, defines and initializes `CvType` for. -/
theorem used_types_declared (r : SourceRepresentation κ ε α) (wrappers : ClassWrapperMap κ)
    (group : String) :
    Enough fun fuel => ∃ w out, generateWrappers r fuel wrappers group = some (w, out) ∧
      ∀ x, Output.used x ∈ out → ∃ t ∈ w.typeOrdering, getName r.toTypes t = x ∧
        Output.specialized x ∈ out ∧ Output.defined x ∈ out ∧ Output.assigned x ∈ out := by
  have hadds := addAll_spec r.toTypes (cvTypes (findCvTypes r wrappers))
  refine (hadds.and (writeWrappers_usesOnly r wrappers group)).mono ?_
  intro fuel hboth
  obtain ⟨⟨l, hadd, ho, hmem⟩, hwrite⟩ := hboth
  obtain ⟨out, hout, huses, hclasses, hdata, hinitializations⟩ :=
    hwrite l ho (met_findCvTypes hmem)
  refine ⟨.of l, out, ?_, fun x hx => ?_⟩
  · rw [generateWrappers]
    simp only [hadd, hout, Option.bind_eq_bind, Option.bind_some]
  · obtain ⟨t, ht, rfl⟩ := huses x hx
    refine ⟨t, ht, rfl, hclasses _ ?_, hdata _ ?_, hinitializations _ ?_⟩
    · exact List.mem_flatMap.mpr ⟨t, ht, by simp⟩
    · exact List.mem_flatMap.mpr ⟨t, ht, by simp⟩
    · refine List.mem_map.mpr ⟨.assigned t, ?_, rfl⟩
      exact List.mem_flatMap.mpr ⟨t, ht, assigned_mem r.toTypes t⟩

theorem used_types_declared_shapes : Enough fun fuel =>
    ∃ w out, generateWrappers shapes fuel [(1, ["Circle"])] "shapes" = some (w, out) ∧
      ∀ x, Output.used x ∈ out → ∃ t ∈ w.typeOrdering, getName shapes.toTypes t = x ∧
        Output.specialized x ∈ out ∧ Output.defined x ∈ out ∧ Output.assigned x ∈ out :=
  used_types_declared shapes [(1, ["Circle"])] "shapes"

end Declared

end CableSwig.Generators.DeclaredTypes
