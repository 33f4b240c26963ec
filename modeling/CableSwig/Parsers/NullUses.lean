import CableSwig.Lib.PossibleOutcomes
import CableSwig.Parsers.ElementRequirements

/-!
# How the construction ends

The construction uses no null pointer if no element does that it comes to, and the table tells
which elements do.
-/
namespace CableSwig.Parsers.NullUses

open CableSwig.GccXml.TypeDump
open CableSwig.Lib.Fuel
open CableSwig.Lib.Numerals
open CableSwig.Lib.OrderedMap
open CableSwig.Lib.PossibleOutcomes
open CableSwig.Lib.Procedures
open CableSwig.Lib.Procedures.Program
open CableSwig.Lib.StdString
open CableSwig.Parsers.BasesAttribute (publicIds)
open CableSwig.Parsers.CarriedNumbers (setLength)
open CableSwig.Parsers.ElementRequirements
open CableSwig.Parsers.ElementValues
open CableSwig.Parsers.ElementReferences
open CableSwig.Parsers.RepresentationBuilder
open CableSwig.Parsers.XmlSourceParser

section Origins

variable (p : SourceParser) {α : Type}

def ending : Outcome α → Ending
  | .crashed => .nullUse
  | .failed => .rejected
  | .returned _ => .made

def takesQualifiers (t : SourceType) : Bool := (withQualifiers t ⊥).isSome

/-- What an object has been made for that is found under an id. -/
inductive Origin : Text → SourceObject → Prop
  | element {id : Text} {o : SourceObject} {element : Element}
      (hfind : getSourceElement p id = some element) (hmade : ElementMayEnd p id .made)
      (hname : elementName o = element.name)
      (htype : ∀ t, o.typeOf = some t →
        element.name ∈ typeElements ∧ MayTakeQualifiers p id (takesQualifiers t)) : Origin id o
  | qualified {tid : Text} {t : SourceType} (hqualifiers : qualifiers tid ≠ ⊥)
      (hmade : TypeMayEnd p tid .made) (htakes : MayTakeQualifiers p tid (takesQualifiers t)) :
    Origin tid (.type t)
  | madeUp {id : Text} {t : SourceType} (hfind : (getSourceElement p id).isSome) :
    Origin (typeId id) (.type t)
  | constructorReturn {t : SourceType} : Origin "crt".toList (.type t)

/-- Everything that can be found has been made for something. -/
def Originates (s : Representation) : Prop := ∀ id o, s.getSourceObject id = some o → Origin p id o

/-- The outcomes that the procedures can have. -/
def Outcomes : (i : Procedure) → Outcome (Answer i) → Prop
  | .element element, o =>
    ∀ id, getSourceElement p id = some element →
      ElementMayEnd p id (ending o) ∧ ∀ object, o = .returned object → Origin p id object
  | .type tid, o =>
    TypeMayEnd p tid (ending o) ∧
      ∀ t, o = .returned t → MayTakeQualifiers p tid (takesQualifiers t)
  | .constructorReturn, o => RequirementMayEnd p .constructorReturn (ending o)

def Allowed : Effect → Prop
  | .setSourceObject id o => Origin p id o
  | .change _ => True

/-- The program asks for these things in this order. -/
def Requires (rs : List Requirement) (good : α → Prop) (q : Builder α) : Prop :=
  Ends Use.isNull (Outcomes p) (Allowed p) q fun o =>
    Sequence (RequirementMayEnd p) rs (ending o) ∧ ∀ a, o = .returned a → good a

variable {p}

theorem withQualifiers_isSome (t : SourceType) (quals : CxxTypes.Quals) :
    (withQualifiers t quals).isSome = takesQualifiers t := by
  cases t <;> rfl

theorem takesQualifiers_of_eq {t t' : SourceType} {quals : CxxTypes.Quals}
    (h : withQualifiers t quals = some t') : takesQualifiers t' = true := by
  cases t <;> cases h <;> rfl

theorem originates_apply {e : Effect} {s : Representation} (he : Allowed p e)
    (hs : Originates p s) : Originates p (s.apply e) := by
  cases e with
  | change c => exact hs
  | setSourceObject id object =>
    intro id' o ho
    have hfind : (s.sourceObjects.assign stringLess id object).find stringLess id' = some o := ho
    by_cases heq : id = id'
    · subst heq
      rw [StdMap.find_assign_self stringLess_strictTotal] at hfind
      exact Option.some.inj hfind ▸ he
    · rw [StdMap.find_assign_of_ne stringLess_strictTotal _ _ heq] at hfind
      exact hs id' o hfind

end Origins

section Found

variable {p : SourceParser} {id tid : Text} {o : SourceObject}

theorem qualifiers_crt : qualifiers "crt".toList ≠ ⊥ := by decide

/-- The characters of an id up to the first one that is a qualifier are all, or the id has one. -/
theorem qualifiers_of_unqualified (h : unqualified tid = tid) : qualifiers tid = ⊥ := by
  have hnil : tid.dropWhile (!TypeReader.isQualifier ·) = [] := by
    have happend := List.takeWhile_append_dropWhile (p := (!TypeReader.isQualifier ·)) (l := tid)
    rw [show tid.takeWhile (!TypeReader.isQualifier ·) = tid from h] at happend
    exact List.append_right_eq_self.mp happend
  rw [qualifiers, hnil]
  rfl

theorem Origin.elementMayEnd (h : Origin p id o) {element : Element}
    (hfind : getSourceElement p id = some element) : ElementMayEnd p id .made := by
  cases h with
  | element _ hmade => exact hmade
  | qualified hqualifiers => exact .shadowed hfind (Or.inl hqualifiers)
  | madeUp hfind' => exact .shadowed hfind (Or.inr ⟨_, hfind', rfl⟩)
  | constructorReturn => exact .shadowed hfind (Or.inl qualifiers_crt)

theorem typeOf_eq_none {o : SourceObject} (h : o.typeOf = none) :
    elementName o ∉ typeElements := by
  cases o with
  | ns | nsAlias | var | field => simp [elementName, typeElements, classElements]
  | function kind =>
    cases kind <;> simp [elementName, typeElements, classElements]
  | type | enumeration | cls | typedef => cases h

/-- What is found for a type. -/
theorem Origin.typeMayEnd (h : Origin p tid o) :
    TypeMayEnd p tid (ending (.ofAnswer o.typeOf)) ∧
      ∀ t, o.typeOf = some t → MayTakeQualifiers p tid (takesQualifiers t) := by
  have hambiguous : Ambiguous p tid → TypeMayEnd p tid (ending (.ofAnswer o.typeOf)) ∧
      ∀ t, o.typeOf = some t → MayTakeQualifiers p tid (takesQualifiers t) := by
    refine fun h => ⟨.ambiguous h ?_, fun t _ => .ambiguous h⟩
    cases o.typeOf <;> simp [ending, Outcome.ofAnswer]
  cases h with
  | qualified _ hmade htakes => exact ⟨hmade, fun t ht => Option.some.inj ht ▸ htakes⟩
  | madeUp hfind => exact hambiguous (Or.inr (Or.inr ⟨_, hfind, Or.inl rfl⟩))
  | constructorReturn => exact hambiguous (Or.inl rfl)
  | element hfind hmade hname htype =>
    by_cases hplain : unqualified tid = tid
    · refine ⟨?_, fun t ht => (htype t ht).2⟩
      have hqualifiers := qualifiers_of_unqualified hplain
      have hfind' := hfind
      have hmade' := hmade
      rw [← hplain] at hfind' hmade'
      cases ht : o.typeOf with
      | none =>
        refine .notType hfind' hmade' ?_ (by rw [if_pos hqualifiers]; rfl)
        rw [← hname]
        exact typeOf_eq_none ht
      | some t =>
        refine .type hfind' hmade' (htype t ht).1 ?_ (b := true) rfl
        rw [if_pos hqualifiers]
    · refine hambiguous (Or.inr (Or.inl ⟨?_, hplain⟩))
      rw [hfind]
      rfl

end Found

section Rules

variable {p : SourceParser} {α β : Type} {rs rs' : List Requirement} {good : α → Prop}
  {good' : β → Prop}

theorem Requires.mono {q : Builder α} {good' : α → Prop} (hq : Requires p rs good q)
    (h : ∀ a, good a → good' a) : Requires p rs good' q :=
  Ends.mono hq fun _ ho => ⟨ho.1, fun a ha => h a (ho.2 a ha)⟩

theorem requires_pure {a : α} : Requires p [] (fun _ => True) (pure a) :=
  ⟨.nil, fun _ _ => trivial⟩

theorem Requires.bind {q : Builder α} {f : α → Builder β} (hq : Requires p rs good q)
    (hf : ∀ a, good a → Requires p rs' good' (f a)) :
    Requires p (rs ++ rs') good' (q >>= f) := by
  refine Ends.bind (Ends.mono hq fun o ho => ?_)
  obtain ⟨hsequence, hgood⟩ := ho
  cases o with
  | crashed => exact ⟨hsequence.append_stopped (by simp [ending]), fun a ha => by cases ha⟩
  | failed => exact ⟨hsequence.append_stopped (by simp [ending]), fun a ha => by cases ha⟩
  | returned a =>
    refine Ends.mono (hf a (hgood a rfl)) fun o' ho' => ?_
    exact ⟨hsequence.append ho'.1, ho'.2⟩

theorem Requires.map {q : Builder α} {f : α → β} (hq : Requires p rs good q) :
    Requires p rs (fun _ => True) (q >>= fun a => pure (f a)) := by
  have hpure := hq.bind fun a _ => requires_pure (a := f a)
  rwa [List.append_nil] at hpure

theorem Requires.effect {e : Effect} {q : Builder α} (he : Allowed p e)
    (hq : Requires p rs good q) : Requires p rs good (.effect e q) := ⟨he, hq⟩

theorem requires_fail : Requires p [.holds false] good fail :=
  ⟨sequence_singleton (.holds rfl), fun a ha => by cases ha⟩

theorem requires_ofOption (o : Option α) :
    Requires p [.holds o.isSome] (fun _ => True) (ofOption o) := by
  refine ends_ofOption ⟨sequence_singleton (.holds ?_), fun _ _ => trivial⟩
  cases o <;> rfl

theorem requires_required {value : Option Text} {requirement : Text → Requirement}
    {f : Text → Builder α} (h : ∀ id, value = some id → Requires p [requirement id] good (f id)) :
    Requires p (required value requirement) good (ofOption value >>= f) := by
  cases value with
  | none => exact requires_fail
  | some id => exact h id rfl

theorem requires_file (fid : Text) : Requires p [.file fid] (fun _ => True) (getFile p fid) := by
  refine ends_deref (fun b => rfl) (fun hnone => ⟨?_, fun _ _ => trivial⟩)
    fun a hsome => ⟨?_, fun _ _ => trivial⟩
  · exact sequence_singleton (.file (by rw [hnone]; rfl))
  · exact sequence_singleton (.file (by rw [hsome]; rfl))

theorem requires_location {element : Element} (named : Named) :
    Requires p (locationRequirements element) (fun _ => True) (setLocation p element named) := by
  unfold setLocation locationRequirements
  have hlocation : ∀ loc : Text, Requires p
      (if ':' ∈ loc then [.file (loc.takeWhile (· ≠ ':'))] else []) (fun _ => True)
      (if ':' ∈ loc then do
          let file ← getFile p (loc.takeWhile (· ≠ ':'))
          let lineStr := (loc.dropWhile (· ≠ ':')).tail
          pure { named with file, line := (scanUnsignedLong lineStr).getD named.line }
        else pure named) := by
    intro loc
    split
    · exact (requires_file _).map
    · exact requires_pure
  cases getAttribute element.attributes "location" with
  | none =>
    cases getAttribute element.attributes "file" with
    | none => exact requires_pure
    | some fid =>
      cases getAttribute element.attributes "line" with
      | none => exact requires_pure
      | some line => exact (requires_file fid).map
  | some loc =>
    cases getAttribute element.attributes "file" with
    | none => exact hlocation loc
    | some fid =>
      cases getAttribute element.attributes "line" with
      | none => exact hlocation loc
      | some line => exact (requires_file fid).map

/-- A context that cannot be made is left out. -/
theorem requires_context {element : Element} (access : Access) (named : Named) :
    Requires p ((getAttribute element.attributes "context").toList.map .context) (fun _ => True)
      (setContext p element access named) := by
  unfold setContext getElement
  cases hid : getAttribute element.attributes "context" with
  | none => exact requires_pure
  | some id =>
    cases hfind : getSourceElement p id with
    | none =>
      simp only [Option.bind_some, hfind]
      exact ⟨sequence_singleton (.contextMissing hfind), fun _ _ => trivial⟩
    | some contextElement =>
      simp only [Option.bind_some, hfind]
      have hasked : Requires p [.context id] (fun _ => True)
          (addElementRepresentation contextElement) := by
        refine ends_ask (fun ho => ?_) fun answer ho => ?_
        · exact ⟨sequence_singleton (.context (ho id hfind).1 rfl), fun _ _ => trivial⟩
        · refine ⟨sequence_singleton (.context (ho id hfind).1 ?_), fun _ _ => trivial⟩
          cases answer <;> rfl
      refine hasked.bind fun co _ => ?_
      split
      · exact requires_pure
      · exact requires_pure.effect trivial

theorem requires_named {id : Text} {element : Element} (anonymous : Option String) :
    Requires p (namedRequirements element anonymous.isSome) (fun _ => True)
      (setupNamed p id element anonymous) := by
  have hname : ((getAttribute element.attributes "name").isSome || anonymous.isSome) =
      ((getAttribute element.attributes "name").or (anonymous.map String.toList)).isSome := by
    rw [Option.isSome_or, Option.isSome_map]
  unfold namedRequirements
  rw [hname, List.append_assoc, List.append_assoc]
  refine (requires_ofOption _).bind fun name _ => ?_
  refine (requires_location _).bind fun named _ => ?_
  exact (requires_ofOption _).bind fun access _ => requires_context access named

/-- The type with an id, and whether it takes qualifiers. -/
theorem requires_type (tid : Text) :
    Requires p [.type tid] (fun t => MayTakeQualifiers p tid (takesQualifiers t))
      (requireType tid) := by
  refine Ends.bind (ends_ask (fun ho => ?_) fun answer ho => ?_)
  · exact ⟨sequence_singleton (.type ho.1), fun a ha => by cases ha⟩
  · refine ends_ofOption ⟨sequence_singleton (.type ho.1), fun t ht => ho.2 t ht⟩

theorem requires_target {attributes : Attributes} :
    Requires p (required (getAttribute attributes "type") .type)
      (fun t => ∃ tid, getAttribute attributes "type" = some tid ∧
        MayTakeQualifiers p tid (takesQualifiers t)) (getTarget attributes) :=
  requires_required fun tid htid => (requires_type tid).mono fun _ ht => ⟨tid, htid, ht⟩

/-- What the object of an element is, where it must be of some kind. -/
theorem Origin.cast {id : Text} {o : SourceObject} (h : Origin p id o) {element : Element}
    (hfind : getSourceElement p id = some element) {names : List String}
    {cast : SourceObject → Option α} (hcast : ∀ o, (cast o).isSome ↔ elementName o ∈ names)
    (htype : ∀ t, cast (.type t) = none) :
    RequirementMayEnd p (.element id names) (ending (.ofAnswer (cast o))) := by
  cases h with
  | element hfind' hmade hname =>
    obtain rfl := Option.some.inj (hfind.symm.trans hfind')
    refine .element hfind hmade ?_
    rw [← hname]
    by_cases hmem : elementName o ∈ names
    · obtain ⟨a, ha⟩ := Option.isSome_iff_exists.mp ((hcast o).mpr hmem)
      rw [if_pos hmem, ha]
      rfl
    · have hnone := Option.not_isSome_iff_eq_none.mp (mt (hcast o).mp hmem)
      rw [if_neg hmem, hnone]
      rfl
  | qualified hqualifiers =>
    rw [htype]
    exact .elementShadowed (Or.inl hqualifiers)
  | madeUp hfind' =>
    rw [htype]
    exact .elementShadowed (Or.inr ⟨_, hfind', rfl⟩)
  | constructorReturn =>
    rw [htype]
    exact .elementShadowed (Or.inl qualifiers_crt)

theorem requires_element {id : Text} {element : Element} {names : List String}
    {cast : SourceObject → Option α}
    (hcast : ∀ o, (cast o).isSome ↔ elementName o ∈ names)
    (htype : ∀ t, cast (.type t) = none) (hfind : getSourceElement p id = some element) :
    Requires p [.element id names] (fun _ => True)
      (addElementRepresentation element >>= fun o => ofOption (o.bind cast)) := by
  refine Ends.bind (ends_ask (fun ho => ?_) fun answer ho => ?_)
  · exact ⟨sequence_singleton (.elementStopped (fun h => by cases h) (ho id hfind).1),
      fun _ _ => trivial⟩
  · obtain ⟨hends, horigin⟩ := ho id hfind
    refine ends_ofOption ⟨sequence_singleton ?_, fun _ _ => trivial⟩
    cases answer with
    | none => exact .elementStopped (fun h => by cases h) hends
    | some o => exact (horigin o rfl).cast hfind hcast htype

theorem asClass_isSome (o : SourceObject) : o.asClass.isSome ↔ elementName o ∈ classElements := by
  cases o with
  | cls kind => cases kind <;> simp [SourceObject.asClass, elementName, classElements]
  | function kind => cases kind <;> simp [SourceObject.asClass, elementName, classElements]
  | type t => cases t <;> simp [SourceObject.asClass, elementName, typeElementName, classElements]
  | ns | nsAlias | enumeration | typedef | var | field =>
    simp [SourceObject.asClass, elementName, classElements]

theorem asNamespace_isSome (o : SourceObject) :
    o.asNamespace.isSome ↔ elementName o ∈ ["Namespace"] := by
  cases o with
  | cls kind => cases kind <;> simp [SourceObject.asNamespace, elementName]
  | function kind => cases kind <;> simp [SourceObject.asNamespace, elementName]
  | type t => cases t <;> simp [SourceObject.asNamespace, elementName, typeElementName]
  | ns | nsAlias | enumeration | typedef | var | field =>
    simp [SourceObject.asNamespace, elementName]

/-- The element that an attribute refers to, which must be of some kind. -/
theorem requires_attribute {element : Element} {name : String} {names : List String}
    {cast : SourceObject → Option α} (hcast : ∀ o, (cast o).isSome ↔ elementName o ∈ names)
    (htype : ∀ t, cast (.type t) = none) :
    Requires p (required (getAttribute element.attributes name) fun id => .element id names)
      (fun _ => True) (do
        let e ← ofOption (getElement p element name)
        let o ← addElementRepresentation e
        ofOption (o.bind cast)) := by
  unfold getElement
  cases hid : getAttribute element.attributes name with
  | none => exact requires_fail
  | some id =>
    cases hfind : getSourceElement p id with
    | none =>
      simp only [Option.bind_some, hfind]
      exact ⟨sequence_singleton (.elementMissing hfind), fun _ _ => trivial⟩
    | some e =>
      simp only [Option.bind_some, hfind]
      exact requires_element hcast htype hfind

theorem requires_basetype {element : Element} :
    Requires p (basetypeRequirements element) (fun _ => True) (getBasetype p element) :=
  requires_attribute asClass_isSome fun _ => rfl

theorem requires_arguments (nested : List (String × Attributes)) :
    Requires p (argumentRequirements nested) (fun _ => True) (setupArguments nested) := by
  induction nested with
  | nil => exact requires_pure
  | cons argument nested ih =>
    obtain ⟨name, attributes⟩ := argument
    rw [argumentRequirements, setupArguments]
    split
    · exact requires_target.bind fun argType _ => ih.map
    · split
      · exact ih
      · refine ⟨.stopped (fun h => by cases h) (.holds rfl), fun _ _ => trivial⟩

theorem requires_returns {element : Element} :
    Requires p (returnRequirements element) (fun _ => True) (getReturns element) := by
  unfold returnRequirements getReturns
  cases getAttribute element.attributes "returns" with
  | some returnsId => exact (requires_type returnsId).mono fun _ _ => trivial
  | none =>
    show Requires p (if _ then _ else _) _ (if _ then _ else _)
    split
    · refine Ends.bind (ends_ask (fun ho => ?_) fun answer ho => ?_)
      · exact ⟨sequence_singleton ho, fun _ _ => trivial⟩
      · exact ends_ofOption ⟨sequence_singleton ho, fun _ _ => trivial⟩
    · exact requires_pure

theorem requires_functionType {element : Element} :
    Requires p (functionTypeRequirements element) (fun _ => True) (setupFunctionType element) :=
  requires_returns.bind fun _ _ => (requires_arguments element.nested).map

theorem requires_bases (ids : List Text) :
    Requires p (ids.flatMap fun id => [.inTable id, .element id classElements]) (fun _ => True)
      (setupBases p ids) := by
  induction ids with
  | nil => exact requires_pure
  | cons id ids ih =>
    rw [List.flatMap_cons, List.cons_append, List.singleton_append]
    unfold setupBases
    cases hfind : getSourceElement p id with
    | none =>
      refine ⟨.stopped (fun h => by cases h) (.inTable ?_), fun _ _ => trivial⟩
      rw [hfind]
      rfl
    | some belement =>
      have hinTable : Requires p [.inTable id] (fun b => b = belement)
          (dereference (.baseElement id) (some belement)) := by
        refine ⟨sequence_singleton (.inTable ?_), fun b hb => by cases hb; rfl⟩
        rw [hfind]
        rfl
      refine hinTable.bind fun b hb => ?_
      subst hb
      have hclass := requires_element asClass_isSome (fun _ => rfl) hfind
      have hrest := hclass.bind fun base _ => ih.map (f := (base :: ·))
      rwa [bind_assoc] at hrest

end Rules

section Registering

variable {p : SourceParser} {α : Type} {id : Text} {element : Element}
  {rs rs' : List Requirement}

/-- The rest of the function for an element, which still asks for these things and registers the
object in the end. -/
def Registers (p : SourceParser) (id : Text) (element : Element) (rs : List Requirement)
    (q : Builder SourceObject) : Prop :=
  ∀ before, requirements element = before ++ rs →
    Sequence (RequirementMayEnd p) before .made → Requires p rs (Origin p id) q

theorem Registers.bind {good : α → Prop} {q : Builder α} {f : α → Builder SourceObject}
    (hq : Requires p rs good q) (hf : ∀ a, good a → Registers p id element rs' (f a)) :
    Registers p id element (rs ++ rs') (q >>= f) := by
  intro before hbefore hmade
  refine Ends.bind (Ends.mono hq fun o ho => ?_)
  obtain ⟨hsequence, hgood⟩ := ho
  cases o with
  | crashed => exact ⟨hsequence.append_stopped (fun h => by cases h), fun a ha => by cases ha⟩
  | failed => exact ⟨hsequence.append_stopped (fun h => by cases h), fun a ha => by cases ha⟩
  | returned a =>
    rw [← List.append_assoc] at hbefore
    refine Ends.mono (hf a (hgood a rfl) _ hbefore (hmade.append hsequence)) fun o' ho' => ?_
    exact ⟨hsequence.append ho'.1, ho'.2⟩

theorem Registers.effect {e : Effect} {q : Builder SourceObject} (he : Allowed p e)
    (hq : Registers p id element rs q) : Registers p id element rs (.effect e q) :=
  fun before hbefore hmade => (hq before hbefore hmade).effect he

theorem registers_fail : Registers p id element (.holds false :: rs) fail :=
  fun _ _ _ => ⟨.stopped (fun h => by cases h) (.holds rfl), fun _ ha => by cases ha⟩

theorem Registers.guarded {guard : Prop} [Decidable guard] {b : Bool} (hb : b = !decide guard)
    {q : Builder SourceObject} (hq : Registers p id element rs q) :
    Registers p id element (.holds b :: rs) (if guard then fail else q) := by
  intro before hbefore hmade
  split
  · refine ⟨.stopped (fun h => by cases h) (.holds ?_), fun a ha => by cases ha⟩
    simp [hb, ending, ‹guard›]
  · have hholds : RequirementMayEnd p (.holds b) .made := .holds (by simp [hb, ‹¬ guard›])
    have hrest := hq (before ++ [.holds b]) (by simp [hbefore])
      (hmade.append (sequence_singleton hholds))
    exact Ends.mono hrest fun o ho => ⟨.next hholds ho.1, ho.2⟩

variable (hfind : getSourceElement p id = some element)
include hfind

theorem mayTakeQualifiers_of_name (hname : element.name ≠ "Typedef") : MayTakeQualifiers p id
    (decide (element.name ∉ ["ReferenceType", "FunctionType", "MethodType"])) := by
  by_cases hplain : unqualified id = id
  · exact .type (hplain.symm ▸ hfind) hname rfl
  · refine .ambiguous (Or.inr (Or.inl ⟨?_, hplain⟩))
    rw [hfind]
    rfl

theorem mayTakeQualifiers_of_typedef (hname : element.name = "Typedef") {tid : Text} {b : Bool}
    (htype : getAttribute element.attributes "type" = some tid) (h : MayTakeQualifiers p tid b) :
    MayTakeQualifiers p id b := by
  by_cases hplain : unqualified id = id
  · exact .typedef (hplain.symm ▸ hfind) hname htype h
  · refine .ambiguous (Or.inr (Or.inl ⟨?_, hplain⟩))
    rw [hfind]
    rfl

theorem allowed_typeId (t : SourceType) : Allowed p (.setSourceObject (typeId id) (.type t)) :=
  .madeUp (by rw [hfind]; rfl)

/-- All that an element asks for has been made when its object is registered. -/
theorem registers_register {o : SourceObject} (hname : elementName o = element.name)
    (htype : ∀ t, o.typeOf = some t →
      element.name ∈ typeElements ∧ MayTakeQualifiers p id (takesQualifiers t)) :
    Registers p id element [] (register id o) := by
  intro before hbefore hmade
  rw [List.append_nil] at hbefore
  have horigin : Origin p id o :=
    .element hfind (.construct hfind (hbefore ▸ hmade) rfl) hname htype
  exact ⟨horigin, .nil, fun object hobject => by cases hobject; exact horigin⟩

/-- An object that has no type. -/
theorem registers_plain {o : SourceObject} (hname : elementName o = element.name)
    (htype : o.typeOf = none) : Registers p id element [] (register id o) :=
  registers_register hfind hname fun t ht => by rw [htype] at ht; cases ht

/-- An object that is a type, or whose type is that of its element. -/
theorem registers_type {o : SourceObject} {t : SourceType} (hname : elementName o = element.name)
    (htype : o.typeOf = some t) (helement : element.name ∈ typeElements)
    (htypedef : element.name ≠ "Typedef")
    (htakes : takesQualifiers t =
      decide (element.name ∉ ["ReferenceType", "FunctionType", "MethodType"])) :
    Registers p id element [] (register id o) := by
  refine registers_register hfind hname fun t' ht' => ⟨helement, ?_⟩
  obtain rfl := Option.some.inj (htype.symm.trans ht')
  rw [htakes]
  exact mayTakeQualifiers_of_name hfind htypedef

theorem registers_class {kind : ClassKind} {anonymous : String}
    (hkind : ∀ named isAbstract bases, elementName (.cls kind named isAbstract bases) =
      element.name) (hname : element.name ∈ classElements) :
    Registers p id element (classRequirements element)
      (setupClass p kind anonymous id element) := by
  refine Registers.bind (requires_named (some anonymous)) fun named _ => ?_
  rw [← List.append_nil (baseRequirements element)]
  refine Registers.bind (requires_bases _) fun bases _ => ?_
  refine Registers.effect (allowed_typeId hfind _) ?_
  have helement : element.name ∈ typeElements := List.mem_append_right _ hname
  have hnot : element.name ≠ "Typedef" := by
    rintro h
    simp [h, classElements] at hname
  refine registers_type hfind (hkind _ _ _) rfl helement hnot ?_
  simp only [classElements, List.mem_cons, List.not_mem_nil, or_false] at hname
  rcases hname with h | h | h <;> rw [h] <;> rfl

theorem registers_function {kind : FunctionKind} (anonymous : Option String) {flags : MethodFlags}
    (hkind : ∀ named type, elementName (.function kind named type flags) = element.name) :
    Registers p id element (functionRequirements element anonymous.isSome)
      (setupFunction p kind anonymous flags id element) := by
  refine Registers.bind (requires_named anonymous) fun named _ => ?_
  rw [← List.append_nil (functionTypeRequirements element)]
  refine Registers.bind requires_functionType.map fun ft _ => ?_
  exact Registers.effect (allowed_typeId hfind _) (registers_plain hfind (hkind _ _) rfl)

theorem registers_variable {make : Named → SourceType → SourceObject}
    (hkind : ∀ named type, elementName (make named type) = element.name)
    (htype : ∀ named type, (make named type).typeOf = none) :
    Registers p id element (variableRequirements element) (setupVariable p id element make) := by
  refine Registers.bind (requires_named none) fun named _ => ?_
  rw [← List.append_nil (required _ _)]
  exact Registers.bind requires_target fun type _ =>
    registers_plain hfind (hkind _ _) (htype _ _)

theorem registers_typedef (hname : element.name = "Typedef") :
    Registers p id element (variableRequirements element) (addTypedef p id element) := by
  refine Registers.bind (requires_named none) fun named _ => ?_
  rw [← List.append_nil (required _ _)]
  refine Registers.bind requires_target fun type htakes => ?_
  obtain ⟨tid, htid, htakes⟩ := htakes
  refine registers_register hfind hname.symm fun t ht => ⟨by simp [hname, typeElements], ?_⟩
  obtain rfl : type = t := Option.some.inj ht
  exact mayTakeQualifiers_of_typedef hfind hname htid htakes

theorem registers_namespace (hname : element.name = "Namespace") :
    Registers p id element (namedRequirements element true) (addNamespace p id element) := by
  rw [← List.append_nil (namedRequirements _ _)]
  refine Registers.bind (requires_named (some _)) fun named _ => ?_
  have hregister : Registers p id element [] (register id (.ns named)) :=
    registers_plain hfind hname.symm rfl
  split
  · intro before hbefore hmade
    have hobject := hregister before hbefore hmade
    exact ⟨hobject.1, trivial, hobject.2⟩
  · exact hregister

theorem registers_namespaceAlias (hname : element.name = "NamespaceAlias") :
    Registers p id element (namedRequirements element false ++
      required (getAttribute element.attributes "namespace") fun id => .element id ["Namespace"])
      (addNamespaceAlias p id element) := by
  refine Registers.bind (requires_named none) fun named _ => ?_
  have htarget : Requires p (required (getAttribute element.attributes "namespace") fun id =>
      .element id ["Namespace"]) (fun _ => True) (do
        let nsElement ← ofOption (getElement p element "namespace")
        let nso ← addElementRepresentation nsElement
        ofOption (nso.bind SourceObject.asNamespace)) :=
    requires_attribute asNamespace_isSome fun _ => rfl
  have hregister := Registers.bind htarget fun target _ =>
    registers_plain hfind (o := .nsAlias named target) hname.symm rfl
  rw [List.append_nil] at hregister
  simpa only [bind_assoc] using hregister

theorem registers_arrayType (hname : element.name = "ArrayType") :
    Registers p id element (required (getAttribute element.attributes "type") .target ++
      [.holds ((getAttribute element.attributes "max").bind setLength).isSome])
      (addArrayType id element) := by
  unfold addArrayType
  cases getAttribute element.attributes "type" with
  | none => exact registers_fail
  | some targetId =>
    have htarget : Requires p [.target targetId] (fun _ => True) (getTypeFromId targetId) := by
      refine ends_ask (fun ho => ?_) fun answer ho => ?_
      · exact ⟨sequence_singleton (.target ho.1 rfl), fun _ _ => trivial⟩
      · refine ⟨sequence_singleton (.target ho.1 ?_), fun _ _ => trivial⟩
        cases answer <;> rfl
    show Registers p id element ([.target targetId] ++ _) (getTypeFromId targetId >>= _)
    refine Registers.bind htarget fun target _ => ?_
    cases getAttribute element.attributes "max" with
    | none => exact registers_fail
    | some maxStr =>
      show Registers p id element ([.holds (setLength maxStr).isSome] ++ [])
        (ofOption (setLength maxStr) >>= fun len =>
          register id (.type (.arrayType (target.getD .null) len ⊥)))
      refine Registers.bind (requires_ofOption _) fun len _ => ?_
      exact registers_type hfind hname.symm rfl (by simp [hname, typeElements])
        (by simp [hname]) (by rw [hname]; rfl)

theorem registers_target {t : SourceType → SourceType}
    (hname : ∀ target, typeElementName (t target) = element.name)
    (helement : element.name ∈ typeElements) (htypedef : element.name ≠ "Typedef")
    (htakes : ∀ target, takesQualifiers (t target) =
      decide (element.name ∉ ["ReferenceType", "FunctionType", "MethodType"])) :
    Registers p id element (targetRequirements element)
      (getTarget element.attributes >>= fun target => register id (.type (t target))) := by
  rw [← List.append_nil (targetRequirements element)]
  exact Registers.bind requires_target fun target _ =>
    registers_type hfind (hname target) rfl helement htypedef (htakes target)

theorem registers_functionType (hname : element.name = "FunctionType") :
    Registers p id element (functionTypeRequirements element) (addFunctionType id element) := by
  unfold addFunctionType newFunctionType
  rw [bind_assoc, ← List.append_nil (functionTypeRequirements element)]
  exact Registers.bind requires_functionType fun ft _ => registers_type hfind hname.symm rfl
    (by simp [hname, typeElements]) (by simp [hname]) (by rw [hname]; rfl)

theorem registers_methodType (hname : element.name = "MethodType") :
    Registers p id element (basetypeRequirements element ++ functionTypeRequirements element)
      (addMethodType p id element) := by
  refine Registers.bind requires_basetype fun c _ => ?_
  rw [← List.append_nil (functionTypeRequirements element)]
  exact Registers.bind requires_functionType fun ft _ => registers_type hfind hname.symm rfl
    (by simp [hname, typeElements]) (by simp [hname]) (by rw [hname]; rfl)

theorem registers_offsetType (hname : element.name = "OffsetType") :
    Registers p id element (basetypeRequirements element ++ targetRequirements element)
      (addOffsetType p id element) := by
  refine Registers.bind requires_basetype fun c _ => ?_
  exact registers_target hfind (t := fun mtype => .offsetType c mtype ⊥) (fun _ => hname.symm)
    (by simp [hname, typeElements]) (by simp [hname]) (fun _ => by rw [hname]; rfl)

theorem registers_fundamentalType (hname : element.name = "FundamentalType") :
    Registers p id element [.holds (getAttribute element.attributes "name").isSome]
      (addFundamentalType id element) := by
  rw [← List.append_nil [_]]
  exact Registers.bind (requires_ofOption _) fun name _ => registers_type hfind hname.symm rfl
    (by simp [hname, typeElements]) (by simp [hname]) (by rw [hname]; rfl)

theorem registers_enumeration (hname : element.name = "Enumeration") :
    Registers p id element
      (namedRequirements element false ++ [.holds (setupValues element.nested).isSome])
      (addEnumeration p id element) := by
  refine Registers.bind (requires_named none) fun named _ => ?_
  rw [← List.append_nil [_]]
  refine Registers.bind (requires_ofOption _) fun values _ => ?_
  refine Registers.effect (allowed_typeId hfind _) ?_
  exact registers_type hfind hname.symm rfl (by simp [hname, typeElements]) (by simp [hname])
    (by rw [hname]; rfl)

/-- The functions for the elements ask for what the elements require. -/
theorem registers_construct :
    Registers p id element (requirements element) (construct p id element) := by
  have hclass : ∀ {kind : ClassKind} {anonymous : String}, element.name ∈ classElements →
      (∀ named isAbstract bases, elementName (.cls kind named isAbstract bases) = element.name) →
      Registers p id element (classRequirements element)
        (setupClass p kind anonymous id element) :=
    fun hname hkind => registers_class hfind hkind hname
  unfold construct
  split <;> rename_i h
  · simp only [requirements, h]
    exact registers_namespace hfind h
  · simp only [requirements, h]
    exact registers_namespaceAlias hfind h
  · simp only [requirements, h]
    exact registers_fundamentalType hfind h
  · simp only [requirements, h]
    exact registers_target hfind (fun _ => h.symm) (by simp [h, typeElements]) (by simp [h])
      (fun _ => by rw [h]; rfl)
  · simp only [requirements, h]
    exact registers_target hfind (fun _ => h.symm) (by simp [h, typeElements]) (by simp [h])
      (fun _ => by rw [h]; rfl)
  · simp only [requirements, h]
    exact registers_arrayType hfind h
  · simp only [requirements, h]
    exact registers_functionType hfind h
  · simp only [requirements, h]
    exact registers_methodType hfind h
  · simp only [requirements, h]
    exact registers_offsetType hfind h
  · simp only [requirements, h]
    exact registers_enumeration hfind h
  · simp only [requirements, h]
    exact hclass (by simp [h, classElements]) fun _ _ _ => h.symm
  · simp only [requirements, h]
    exact hclass (by simp [h, classElements]) fun _ _ _ => h.symm
  · simp only [requirements, h]
    exact hclass (by simp [h, classElements]) fun _ _ _ => h.symm
  · simp only [requirements, h]
    exact registers_typedef hfind h
  · simp only [requirements, h]
    exact registers_variable hfind (fun _ _ => h.symm) fun _ _ => rfl
  · simp only [requirements, h]
    exact registers_variable hfind (fun _ _ => h.symm) fun _ _ => rfl
  · simp only [requirements, h]
    exact registers_function hfind none fun _ _ => h.symm
  · simp only [requirements, h]
    refine Registers.guarded ?_ (Registers.guarded ?_ (registers_function hfind none ?_))
    · simp
    · simp
    · exact fun _ _ => h.symm
  · simp only [requirements, h]
    exact registers_function hfind (some _) fun _ _ => h.symm
  · simp only [requirements, h]
    exact registers_function hfind none fun _ _ => h.symm
  · simp only [requirements, h]
    exact registers_function hfind none fun _ _ => h.symm
  · simp only [requirements, h]
    refine Registers.guarded ?_ (registers_function hfind none ?_)
    · simp
    · exact fun _ _ => h.symm
  · simp only [requirements, h]
    exact registers_function hfind none fun _ _ => h.symm
  · unfold requirements
    split
    all_goals first | exact registers_fail | contradiction

end Registering

section Procedures

variable {p : SourceParser} {id tid : Text} {element : Element} {o : SourceObject}

theorem unqualified_unqualified (tid : Text) : unqualified (unqualified tid) = unqualified tid :=
  List.takeWhile_idem

theorem ambiguous_of_unqualified (h : Ambiguous p (unqualified tid)) : Ambiguous p tid := by
  rcases h with hcrt | ⟨-, hne⟩ | ⟨id, hfind, hid⟩
  · have hself := unqualified_unqualified tid
    rw [hcrt] at hself
    exact absurd hself (by decide)
  · exact absurd (unqualified_unqualified tid) hne
  · rw [unqualified_unqualified, or_self_iff] at hid
    exact Or.inr (Or.inr ⟨id, hfind, Or.inr hid⟩)

theorem mayTakeQualifiers_of_unqualified {b : Bool} (h : MayTakeQualifiers p (unqualified tid) b) :
    MayTakeQualifiers p tid b := by
  cases h with
  | ambiguous h => exact .ambiguous (ambiguous_of_unqualified h)
  | typedef hfind hname htype h =>
    rw [unqualified_unqualified] at hfind
    exact .typedef hfind hname htype h
  | type hfind hname hb =>
    rw [unqualified_unqualified] at hfind
    exact .type hfind hname hb

/-- What is found for the id of a type without its qualifiers. -/
theorem Origin.of_unqualified (h : Origin p (unqualified tid) o) :
    (Ambiguous p tid ∧ o.typeOf.isSome) ∨
      ∃ element, getSourceElement p (unqualified tid) = some element ∧
        ElementMayEnd p (unqualified tid) .made ∧ elementName o = element.name ∧
        ∀ t, o.typeOf = some t →
          element.name ∈ typeElements ∧ MayTakeQualifiers p tid (takesQualifiers t) := by
  have hplain := unqualified_unqualified tid
  generalize hkey : unqualified tid = key at h hplain
  cases h with
  | element hfind hmade hname htype =>
    refine Or.inr ⟨_, hfind, hmade, hname, fun t ht => ⟨(htype t ht).1, ?_⟩⟩
    exact mayTakeQualifiers_of_unqualified (hkey.symm ▸ (htype t ht).2)
  | qualified hqualifiers => exact absurd (qualifiers_of_unqualified hplain) hqualifiers
  | madeUp hfind => exact Or.inl ⟨Or.inr (Or.inr ⟨_, hfind, Or.inr hkey⟩), rfl⟩
  | constructorReturn => exact absurd hplain (by decide)

theorem Origin.typeMayEnd_none (h : Origin p (unqualified tid) o) (hnone : o.typeOf = none) :
    TypeMayEnd p tid (if qualifiers tid = ⊥ then .rejected else .nullUse) := by
  rcases h.of_unqualified with ⟨-, hsome⟩ | ⟨element, hfind, hmade, hname, -⟩
  · rw [hnone] at hsome
    cases hsome
  · refine .notType hfind hmade ?_ rfl
    rw [← hname]
    exact typeOf_eq_none hnone

theorem Origin.typeMayEnd_some (h : Origin p (unqualified tid) o) {t : SourceType}
    (ht : o.typeOf = some t) : MayTakeQualifiers p tid (takesQualifiers t) ∧
      TypeMayEnd p tid (if qualifiers tid = ⊥ ∨ takesQualifiers t then .made else .rejected) := by
  rcases h.of_unqualified with ⟨hambiguous, -⟩ | ⟨element, hfind, hmade, -, htype⟩
  · refine ⟨.ambiguous hambiguous, .ambiguous hambiguous ?_⟩
    split <;> simp
  · obtain ⟨helement, htakes⟩ := htype t ht
    refine ⟨htakes, ?_⟩
    by_cases hqualifiers : qualifiers tid = ⊥
    · exact .type (b := true) hfind hmade helement (by rw [if_pos hqualifiers])
        (by rw [if_pos (Or.inl hqualifiers), if_pos rfl])
    · exact .type hfind hmade helement (by rwa [if_neg hqualifiers]) (by simp [hqualifiers])

/-- The end of `GetTypeFromId`, where the element has been made. -/
theorem ends_addQualifiers (h : Origin p (unqualified tid) o) :
    Ends Use.isNull (Outcomes p) (Allowed p) (addQualifiers tid o.typeOf)
      (Outcomes p (.type tid)) := by
  unfold addQualifiers
  cases ht : o.typeOf with
  | none =>
    have hends := h.typeMayEnd_none ht
    split
    · rw [if_pos ‹_›] at hends
      exact ⟨hends, fun t ht => by cases ht⟩
    · rw [if_neg ‹_›] at hends
      exact ⟨hends, fun t ht => by cases ht⟩
  | some t =>
    obtain ⟨htakes, hends⟩ := h.typeMayEnd_some ht
    split
    · rw [if_pos (Or.inl ‹_›)] at hends
      exact ⟨hends, fun t' ht' => by cases ht'; exact htakes⟩
    · have hisSome := withQualifiers_isSome t (qualifiers tid)
      show Ends Use.isNull (Outcomes p) (Allowed p)
        (ofOption (withQualifiers t (qualifiers tid)) >>= fun newType => do
          setSourceObject tid (.type newType)
          pure newType) _
      cases hnew : withQualifiers t (qualifiers tid) with
      | none =>
        have hfalse : takesQualifiers t = false := hisSome.symm.trans (hnew ▸ rfl)
        rw [if_neg (by simpa [hfalse] using ‹_›)] at hends
        exact ⟨hends, fun t ht => by cases ht⟩
      | some newType =>
        have htrue : takesQualifiers t = true := hisSome.symm.trans (hnew ▸ rfl)
        rw [if_pos (Or.inr htrue)] at hends
        rw [htrue] at htakes
        have hnewTakes : MayTakeQualifiers p tid (takesQualifiers newType) := by
          rw [takesQualifiers_of_eq hnew]
          exact htakes
        refine ⟨.qualified ‹_› hends hnewTakes, hends, fun t' ht' => ?_⟩
        cases ht'
        exact hnewTakes

section Calling

variable (hids : IdsMatch p) {fuel : Nat}
  (hcallee : ∀ i, Known p i → ∀ s r, Originates p s →
    invoke (builderSystem p) fuel i s = some r → Originates p r.state ∧ Outcomes p i r.outcome)
include hids hcallee

/-- `GetTypeFromId` of an id that has no object yet. The second time that it asks, it finds what
the element has been registered with. -/
theorem findType_outcome {s : Representation} (hs : Originates p s)
    {r : Run Use Representation SourceType}
    (h : exec (builderSystem p) (invoke (builderSystem p) fuel) (findType p tid) s = some r) :
    Originates p r.state ∧ Outcomes p (.type tid) r.outcome := by
  unfold findType at h
  cases hfind : getSourceElement p (unqualified tid) with
  | none =>
    rw [hfind] at h
    obtain rfl := Option.some.inj h
    exact ⟨hs, .missing hfind, fun t ht => by cases ht⟩
  | some element =>
    rw [hfind] at h
    obtain ⟨r₁, hr₁, hcases⟩ := exec_call_cases h
    obtain ⟨hs₁, ho₁⟩ := hcallee (.element element) ⟨_, hfind⟩ s r₁ hs hr₁
    obtain ⟨hends₁, -⟩ := ho₁ _ hfind
    rcases hcases with ⟨hcrashed, rfl⟩ | ⟨answer, r₂, houtcome, hnext, rfl⟩
    · rw [hcrashed] at hends₁
      exact ⟨hs₁, .stopped (fun h => by cases h) hends₁, fun t ht => by cases ht⟩
    · rw [houtcome] at hends₁
      cases answer with
      | none =>
        obtain rfl := Option.some.inj hnext
        exact ⟨hs₁, .stopped (fun h => by cases h) hends₁, fun t ht => by cases ht⟩
      | some o =>
        have hregistered := registered_of_returned (hids _ _ hfind) hr₁ houtcome
        obtain ⟨object, hobject⟩ := Option.isSome_iff_exists.mp hregistered
        have hfound : (builderSystem p).found (.type (unqualified tid)) r₁.state =
            some object.typeOf := congrArg (Option.map SourceObject.typeOf) hobject
        obtain ⟨r₃, hr₃, hcases₃⟩ := exec_call_cases hnext
        obtain ⟨fuel', -, ⟨answer, hanswer, rfl⟩ | ⟨hnone, -⟩⟩ := invoke_cases hr₃
        · obtain rfl := Option.some.inj (hfound.symm.trans hanswer)
          rcases hcases₃ with ⟨hcrashed, -⟩ | ⟨answer', r₄, houtcome', hnext', rfl⟩
          · exact absurd hcrashed (ofAnswer_ne_crashed _)
          · obtain rfl := ofAnswer_injective houtcome'
            have hasks : (addQualifiers tid object.typeOf).Asks fun _ => False :=
              asks_addQualifiers tid _
            show Originates p r₄.state ∧ Outcomes p (.type tid) r₄.outcome
            exact exec_ends (I := Originates p) (fun e s he hs => originates_apply he hs)
              (fun i hi => hi.elim) hasks (ends_addQualifiers (hs₁ _ _ hobject)) hs₁ hnext'
        · rw [hfound] at hnone
          cases hnone

end Calling

theorem ends_saveAttributes (hfind : getSourceElement p id = some element)
    {o : Outcome SourceObject}
    (h : Sequence (RequirementMayEnd p) (requirements element) (ending o) ∧
      ∀ object, o = .returned object → Origin p id object) :
    Caught (Followed Use.isNull (Outcomes p) (Allowed p) (fun o => saveAttributes id element o)
      fun o => ElementMayEnd p id (ending o) ∧
        ∀ object, o = .returned object → Origin p id object) o := by
  obtain ⟨hsequence, horigin⟩ := h
  have hends : ElementMayEnd p id ((ending o).saved element) := .construct hfind hsequence rfl
  cases o with
  | crashed => exact ⟨hends, fun _ h => by cases h⟩
  | failed =>
    show Ends _ _ _ (saveAttributes id element none) _
    unfold saveAttributes
    simp only [ending, Ending.saved] at hends
    cases hattributes : getAttribute element.attributes "attributes" with
    | none =>
      rw [hattributes, Option.isSome_none, if_neg Bool.false_ne_true] at hends
      exact ⟨hends, fun _ h => by cases h⟩
    | some atts =>
      rw [hattributes, Option.isSome_some, if_pos rfl] at hends
      exact ⟨hends, fun _ h => by cases h⟩
  | returned object =>
    show Ends _ _ _ (saveAttributes id element (some object)) _
    unfold saveAttributes
    cases getAttribute element.attributes "attributes" with
    | none => exact ⟨hends, horigin⟩
    | some atts => exact ⟨trivial, hends, horigin⟩

theorem ends_addElement (hids : IdsMatch p) (hfind : getSourceElement p id = some element) :
    Ends Use.isNull (Outcomes p) (Allowed p) (addElement p element)
      (Outcomes p (.element element)) := by
  have hconstruct : Requires p (requirements element) (Origin p id) (construct p id element) :=
    registers_construct hfind [] rfl .nil
  have hends : Ends Use.isNull (Outcomes p) (Allowed p)
      ((construct p id element).attempt >>= fun o => saveAttributes id element o)
      fun o => ElementMayEnd p id (ending o) ∧
        ∀ object, o = .returned object → Origin p id object :=
    Ends.bind (Ends.attempt (Ends.mono hconstruct fun o ho => ends_saveAttributes hfind ho))
  unfold addElement
  rw [hids id element hfind]
  refine Ends.mono (show Ends _ _ _ (_ >>= _) _ from hends) fun o ho id' hfind' => ?_
  obtain rfl : id = id' := Option.some.inj ((hids _ _ hfind).symm.trans (hids _ _ hfind'))
  exact ho

theorem Origin.constructorReturnMayEnd (h : Origin p "crt".toList o) :
    RequirementMayEnd p .constructorReturn (ending (.ofAnswer o.asType)) := by
  have htype : ∀ t, o = .type t →
      RequirementMayEnd p .constructorReturn (ending (.ofAnswer o.asType)) := by
    rintro t rfl
    exact .constructorReturn
  generalize hkey : "crt".toList = key at h
  cases h with
  | element hfind =>
    cases ho : o.asType with
    | none => exact .constructorTaken (by rw [hkey, hfind]; rfl)
    | some t => exact .constructorReturn
  | qualified => exact htype _ rfl
  | madeUp => exact htype _ rfl
  | constructorReturn => exact htype _ rfl

/-- What a procedure finds is something that it can return. -/
theorem found_outcome (hids : IdsMatch p) {i : Procedure} {s : Representation}
    (hs : Originates p s) {answer : Option (Answer i)}
    (h : (builderSystem p).found i s = some answer) : Outcomes p i (.ofAnswer answer) := by
  cases i with
  | element element =>
    intro id hfind
    have hobject : ((getAttribute element.attributes "id").bind s.getSourceObject).map some =
        some answer := h
    rw [hids id element hfind, Option.bind_some] at hobject
    obtain ⟨o, ho, rfl⟩ := Option.map_eq_some_iff.mp hobject
    exact ⟨(hs id o ho).elementMayEnd hfind, fun _ h => by cases h; exact hs id o ho⟩
  | type tid =>
    obtain ⟨o, ho, rfl⟩ := Option.map_eq_some_iff.mp h
    obtain ⟨hends, htakes⟩ := (hs tid o ho).typeMayEnd
    refine ⟨hends, fun t ht => htakes t ?_⟩
    exact ofAnswer_injective ht
  | constructorReturn =>
    obtain ⟨o, ho, rfl⟩ := Option.map_eq_some_iff.mp h
    exact (hs _ o ho).constructorReturnMayEnd

/-- The procedures end as the table tells. -/
theorem invoke_outcome (hids : IdsMatch p) (fuel : Nat) : ∀ i, Known p i → ∀ s r, Originates p s →
    invoke (builderSystem p) fuel i s = some r → Originates p r.state ∧ Outcomes p i r.outcome := by
  induction fuel with
  | zero => intro i _ s r _ h; cases h
  | succ fuel ih =>
    intro i hi s r hs h
    obtain ⟨fuel', hfuel, ⟨answer, hfound, rfl⟩ | ⟨hfound, hexec⟩⟩ := invoke_cases h
    · exact ⟨hs, found_outcome hids hs hfound⟩
    · obtain rfl := Nat.succ.inj hfuel
      have hasks := asks_body i hi
      cases i with
      | element element =>
        obtain ⟨id, hfind⟩ := hi
        exact exec_ends (I := Originates p) (fun e s he hs => originates_apply he hs) ih hasks
          (ends_addElement hids hfind) hs hexec
      | type tid => exact findType_outcome hids ih hs hexec
      | constructorReturn =>
        refine exec_ends (I := Originates p) (fun e s he hs => originates_apply he hs) ih hasks
          ?_ hs hexec
        exact ⟨.constructorReturn, .constructorReturn⟩

end Procedures

section Loop

variable {p : SourceParser}

/-- How the function for an element of the table can end. -/
def VisitMayEnd (p : SourceParser) (element : Element) (e : Ending) : Prop :=
  ∀ id, getSourceElement p id = some element → ElementMayEnd p id e

/-- The loop ends as the first element does that cannot be made. -/
theorem ends_addElements (elements : List Element) :
    Ends Use.isNull (Outcomes p) (Allowed p) (addElements elements)
      fun o => Sequence (VisitMayEnd p) elements (ending o) := by
  induction elements with
  | nil => exact .nil
  | cons element elements ih =>
    refine ⟨fun ho => .stopped (fun h => by cases h) fun id hfind => (ho id hfind).1,
      fun answer ho => ?_⟩
    cases answer with
    | none => exact .stopped (fun h => by cases h) fun id hfind => (ho id hfind).1
    | some o => exact Ends.mono ih fun o' ho' => .next (fun id hfind => (ho id hfind).1) ho'

theorem runElements_sequence (hids : IdsMatch p) {fuel : Nat} {elements : List Element}
    (helements : ∀ element ∈ elements, ∃ id, getSourceElement p id = some element)
    {r : Run Use Representation Unit} (h : runElements p fuel elements = some r) :
    Sequence (VisitMayEnd p) elements (ending r.outcome) := by
  have hasks : (addElements elements).Asks (Known p) := asks_addElements helements
  have hempty : Originates p {} := fun _ _ h => by cases h
  exact (exec_ends (I := Originates p) (fun e s he hs => originates_apply he hs)
    (invoke_outcome hids fuel) hasks (ends_addElements elements) hempty h).2

/-- The elements that are visited before an element are those with smaller ids. -/
theorem mem_before_iff (hids : IdsMatch p) (hkeys : (p.elementMap.entries.map Prod.fst).Nodup)
    {before after : List Element} {id id' : Text} {element element' : Element}
    (hsplit : elementsInOrder p = before ++ element :: after)
    (hfind : getSourceElement p id = some element)
    (hfind' : getSourceElement p id' = some element') :
    element' ∈ before ↔ stringLess id' id := by
  have hsorted := stringLess_strictTotal.pairwise_insertionSort Prod.fst p.elementMap.entries
  obtain ⟨l₁, l₂, hl, rfl, hl₂⟩ := List.map_eq_append_iff.mp hsplit
  obtain ⟨⟨k, e⟩, l₃, rfl, rfl, -⟩ := List.map_eq_cons_iff.mp hl₂
  have hnodup : ((l₁ ++ (k, e) :: l₃).map Prod.fst).Nodup := by
    rw [← hl]
    exact ((List.perm_insertionSort _ p.elementMap.entries).map Prod.fst).nodup_iff.mpr hkeys
  have hmem : ∀ entry : Text × Element, entry ∈ l₁ ++ (k, e) :: l₃ ↔
      getSourceElement p entry.1 = some entry.2 := by
    intro entry
    rw [← hl, List.mem_insertionSort]
    exact ⟨StdMap.find_of_mem stringLess_strictTotal hkeys,
      StdMap.mem_of_find stringLess_strictTotal⟩
  have hkey : ∀ {key : Text} {e' : Element} {key' : Text}, getSourceElement p key = some e' →
      getSourceElement p key' = some e' → key = key' := fun h h' =>
    Option.some.inj ((hids _ _ h).symm.trans (hids _ _ h'))
  obtain rfl : k = id := hkey ((hmem (k, e)).mp (by simp)) hfind
  have hbefore : (id', element') ∈ l₁ ↔ stringLess id' k :=
    stringLess_strictTotal.mem_before_iff (hl ▸ hsorted) hnodup
      ((hmem (id', element')).mpr hfind')
  rw [← hbefore]
  constructor
  · intro h
    obtain ⟨⟨k', e'⟩, hk', rfl⟩ := List.mem_map.mp h
    obtain rfl : k' = id' := hkey ((hmem (k', e')).mp (List.mem_append_left _ hk')) hfind'
    exact hk'
  · exact fun h => List.mem_map_of_mem h

end Loop

section Construction

variable {p : SourceParser}

theorem not_crashed_of_noNullUse (hids : IdsMatch p)
    (hkeys : (p.elementMap.entries.map Prod.fst).Nodup) {fuel : Nat}
    {r : Run Use Representation Unit} (h : runElements p fuel (elementsInOrder p) = some r)
    (hsafe : NoNullUse p) : r.outcome ≠ .crashed := by
  intro hcrashed
  have hall : ∀ element ∈ elementsInOrder p, ∃ id, getSourceElement p id = some element :=
    fun _ => (mem_elementsInOrder_iff hkeys).mp
  have hsequence := runElements_sequence hids hall h
  rw [hcrashed] at hsequence
  obtain ⟨before, element, after, hsplit, hbefore, hends⟩ := hsequence.split (by simp [ending])
  obtain ⟨id, hfind⟩ := hall element (hsplit ▸ by simp)
  obtain ⟨id', hfind', hless, hnot⟩ := hsafe id (hends id hfind)
  obtain ⟨element', hfind'⟩ := Option.isSome_iff_exists.mp hfind'
  have hmem := (mem_before_iff hids hkeys hsplit hfind hfind').mpr hless
  exact hnot (hbefore element' hmem id' hfind')

theorem noNullUse_of_not_crashed (hids : IdsMatch p) (hacyclic : Acyclic p)
    (hkeys : (p.elementMap.entries.map Prod.fst).Nodup) (hplain : UnambiguousIds p) {fuel : Nat}
    {r : Run Use Representation Unit} (h : runElements p fuel (elementsInOrder p) = some r)
    (hr : r.outcome ≠ .crashed) : NoNullUse p := by
  intro id hends
  by_contra hnone
  push Not at hnone
  have hall : ∀ element ∈ elementsInOrder p, ∃ id, getSourceElement p id = some element :=
    fun _ => (mem_elementsInOrder_iff hkeys).mp
  obtain ⟨element, hfind⟩ := hends.exists_element
  obtain ⟨before, after, hsplit⟩ :=
    List.append_of_mem ((mem_elementsInOrder_iff hkeys).mpr ⟨id, hfind⟩)
  have hvisit : ∀ {id : Text} {element : Element} {e : Ending},
      getSourceElement p id = some element → ElementMayEnd p id e → VisitMayEnd p element e := by
    intro id element e hfind hends id' hfind'
    obtain rfl : id = id' := Option.some.inj ((hids _ _ hfind).symm.trans (hids _ _ hfind'))
    exact hends
  have hbefore : Sequence (VisitMayEnd p) before .made := by
    refine sequence_made fun element' hmem => ?_
    obtain ⟨id', hfind'⟩ := hall element' (hsplit ▸ List.mem_append_left _ hmem)
    have hless := (mem_before_iff hids hkeys hsplit hfind hfind').mp hmem
    exact hvisit hfind' (hnone id' (by rw [hfind']; rfl) hless)
  have hnull : Sequence (VisitMayEnd p) (elementsInOrder p) .nullUse := by
    rw [hsplit]
    exact hbefore.append (.stopped (fun h => by cases h) (hvisit hfind hends))
  have hsequence := runElements_sequence hids hall h
  have heq : ending r.outcome = .nullUse := by
    refine hsequence.unique (fun element helement e e' he he' => ?_) hnull
    obtain ⟨id, hfind⟩ := hall element helement
    exact elementMayEnd_unique hplain hacyclic id e e' (he id hfind) (he' id hfind)
  cases ho : r.outcome with
  | crashed => exact hr ho
  | failed => simp [ho, ending] at heq
  | returned => simp [ho, ending] at heq

theorem finish_eq_crashed_iff (r : Run Use Representation Unit) :
    finish r = .crashed ↔ r.outcome = .crashed := by
  unfold finish
  cases r.outcome with
  | crashed => simp
  | failed => simp
  | returned _ => split_ifs <;> simp

/-- A class whose base class is not in the table. -/
def missingBase : List Event :=
  [.startElement "Class" [("id", ['_', '1']), ("name", ['C']), ("bases", ['_', '2'])],
    .endElement "Class"]

theorem find_missingBase {id : Text} {element : Element}
    (hfind : getSourceElement (parsed missingBase) id = some element) :
    id = ['_', '1'] ∧ element = ⟨"Class", setAttributes [("id", ['_', '1']), ("name", ['C']),
      ("bases", ['_', '2'])], []⟩ :=
  Prod.mk.inj (List.mem_singleton.mp (StdMap.mem_of_find stringLess_strictTotal hfind))

theorem acyclic_missingBase : Acyclic (parsed missingBase) := by
  refine acyclic_of_dangling fun id element hfind id' hmem => ?_
  obtain ⟨-, rfl⟩ := find_missingBase hfind
  obtain rfl : id' = ['_', '2'] := List.mem_singleton.mp hmem
  rfl

theorem unambiguousIds_missingBase : UnambiguousIds (parsed missingBase) := by
  refine ⟨fun id element hfind hshadowed => ?_, fun id element hfind tid htid => ?_⟩
  · obtain ⟨rfl, -⟩ := find_missingBase hfind
    rcases hshadowed with hqualifiers | ⟨id', hfind', hid'⟩
    · exact hqualifiers rfl
    · obtain ⟨element', hfind'⟩ := Option.isSome_iff_exists.mp hfind'
      obtain ⟨rfl, -⟩ := find_missingBase hfind'
      exact absurd hid' (by decide)
  · obtain ⟨-, rfl⟩ := find_missingBase hfind
    cases htid

end Construction

end CableSwig.Parsers.NullUses
