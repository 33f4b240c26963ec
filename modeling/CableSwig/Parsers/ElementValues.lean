import CableSwig.Parsers.ElementReferences

/-!
# What elements become

The objects of the elements, told without the representation that is being built, and what the
functions for the elements do to it.
-/
namespace CableSwig.Parsers.ElementValues

open CableSwig.GccXml.TypeDump
open CableSwig.Lib.Fuel
open CableSwig.Lib.OrderedMap
open CableSwig.Lib.Procedures
open CableSwig.Lib.Procedures.Program
open CableSwig.Lib.StdString
open CableSwig.Parsers.BasesAttribute (publicIds)
open CableSwig.Parsers.ElementReferences
open CableSwig.Parsers.RepresentationBuilder
open CableSwig.Parsers.XmlSourceParser

section Values

/-- The type that is made up for the constructors. -/
def voidType : SourceType := .fundamentalType "void".toList ⊥

/-- How `GetTypeFromId` ends for an id whose element becomes this object. -/
def qualify (tid : Text) (o : SourceObject) : Outcome SourceType × List Effect :=
  denote Use.isNull (fun _ => .failed) (addQualifiers tid o.typeOf)

variable (p : SourceParser) (V : Text → Outcome SourceObject)

/-- The outcomes of the procedures, where those of the elements are given. -/
def valueOf : (i : Procedure) → Outcome (Answer i)
  | .element element =>
    match getAttribute element.attributes "id" with
    | none => .crashed
    | some id => V id
  | .type tid =>
    match getSourceElement p (unqualified tid) with
    | none => .failed
    | some _ =>
      match V (unqualified tid) with
      | .crashed => .crashed
      | .failed => .failed
      | .returned o => (qualify tid o).1
  | .constructorReturn => .returned voidType

/-- The outcome of `AddElementRepresentation` with the effects of its own. -/
def denoteElement (element : Element) : Outcome SourceObject × List Effect :=
  denote Use.isNull (valueOf p V) (addElement p element)

/-- The given outcomes are those that the elements have. -/
def IsValue : Prop :=
  ∀ id element, getSourceElement p id = some element → V id = (denoteElement p V element).1

/-- The outcomes of the elements, with recursion of at most this depth. -/
def elementValue : Nat → Text → Outcome SourceObject
  | 0, _ => .failed
  | fuel + 1, id =>
    match getSourceElement p id with
    | none => .failed
    | some element => (denoteElement p (elementValue fuel) element).1

variable {p V}

theorem valueOf_congr {V' : Text → Outcome SourceObject} (hids : IdsMatch p) {element : Element}
    (h : ∀ id ∈ references element, V id = V' id) (i : Procedure) (hi : CallsOf p element i) :
    valueOf p V i = valueOf p V' i := by
  cases i with
  | element element' =>
    obtain ⟨id, hid, hfind⟩ := hi
    rw [valueOf, valueOf, hids id element' hfind]
    exact h id (List.mem_append_left _ hid)
  | type tid =>
    rw [valueOf, valueOf]
    cases hfind : getSourceElement p (unqualified tid) with
    | none => rfl
    | some element' =>
      have hmem : unqualified tid ∈ references element :=
        List.mem_append_right _ (List.mem_map_of_mem hi)
      simp only [h _ hmem]
  | constructorReturn => rfl

theorem denoteElement_congr {V' : Text → Outcome SourceObject} (hids : IdsMatch p)
    {element : Element} (h : ∀ id ∈ references element, V id = V' id) :
    denoteElement p V element = denoteElement p V' element :=
  denote_congr asks_addElement (valueOf_congr hids h)

/-- Elements that do not refer to themselves have values. -/
theorem exists_values (hids : IdsMatch p) (hacyclic : Acyclic p) : ∃ V, IsValue p V := by
  have hlimit : ∀ id, ∃ o, Enough fun fuel => elementValue p fuel id = o := by
    intro id
    induction id using hacyclic.induction with
    | hstep id ih =>
      cases hfind : getSourceElement p id with
      | none => exact ⟨.failed, .of_succ fun fuel => by rw [elementValue, hfind]⟩
      | some element =>
        have hreferences : ∀ id' ∈ references element,
            ∃ o, Enough fun fuel => elementValue p fuel id' = o :=
          fun id' hid' => ih id' ⟨element, hfind, hid'⟩
        choose! V hV using hreferences
        refine ⟨(denoteElement p V element).1, ?_⟩
        refine (Enough.forall_mem (references element) hV).step fun fuel hfuel => ?_
        simp only [elementValue, hfind]
        rw [denoteElement_congr hids hfuel]
  choose V hV using hlimit
  refine ⟨V, fun id element hfind => ?_⟩
  have hreferences := Enough.forall_mem (references element) fun id' _ => hV id'
  obtain ⟨bound, hbound⟩ := (hV id).and (hreferences.step
    (q := fun fuel => elementValue p fuel id = (denoteElement p V element).1) fun fuel hfuel => by
      simp only [elementValue, hfind]
      rw [denoteElement_congr hids hfuel])
  obtain ⟨hleft, hright⟩ := hbound bound (Nat.le_refl bound)
  rw [← hleft, hright]

end Values

section Descriptions

/-- The elements that an object is made for. Those that are made up have none. -/
def typeElementName : SourceType → String
  | .fundamentalType _ _ => "FundamentalType"
  | .pointerType _ _ => "PointerType"
  | .referenceType _ => "ReferenceType"
  | .arrayType _ _ _ => "ArrayType"
  | .functionType _ _ _ => "FunctionType"
  | .methodType _ _ _ _ => "MethodType"
  | .offsetType _ _ _ => "OffsetType"
  | .null | .classType _ _ | .enumerationType _ _ => ""

def elementName : SourceObject → String
  | .ns _ => "Namespace"
  | .nsAlias _ _ => "NamespaceAlias"
  | .type t => typeElementName t
  | .enumeration _ _ => "Enumeration"
  | .cls .cls _ _ _ => "Class"
  | .cls .struct _ _ _ => "Struct"
  | .cls .union _ _ _ => "Union"
  | .typedef _ _ => "Typedef"
  | .var _ _ _ => "Variable"
  | .field _ _ _ => "Field"
  | .function .function _ _ _ => "Function"
  | .function .method _ _ _ => "Method"
  | .function .constructor _ _ _ => "Constructor"
  | .function .destructor _ _ _ => "Destructor"
  | .function .operatorFunction _ _ _ => "OperatorFunction"
  | .function .operatorMethod _ _ _ => "OperatorMethod"
  | .function .converter _ _ _ => "Converter"

/-- The members that an object has as a `Named` object. -/
def asNamed : SourceObject → Option Named
  | .ns named | .nsAlias named _ | .enumeration named _ | .cls _ named _ _ | .typedef named _
  | .var named _ _ | .field named _ _ | .function _ named _ _ => some named
  | .type _ => none

/-- The object is one for an element of this id and name. -/
structure MadeFor (id : Text) (name : String) (o : SourceObject) : Prop where
  name_eq : elementName o = name
  id_eq : ∀ named, asNamed o = some named → named.id = id

/-- The type that is registered with an object under an id that is made up. -/
def madeUpType : SourceObject → Option SourceType
  | .enumeration named _ => some (.enumerationType named.id ⊥)
  | .cls _ named _ _ => some (.classType named.id ⊥)
  | .function _ _ type _ => some type
  | _ => none

/-- What is registered for an element. -/
def registrations (id : Text) (o : SourceObject) : List (Text × SourceObject) :=
  (madeUpType o).toList.map (fun t => (typeId id, .type t)) ++ [(id, o)]

def registration : Effect → Option (Text × SourceObject)
  | .setSourceObject id o => some (id, o)
  | .change _ => none

def changed : Effect → Option Change
  | .setSourceObject _ _ => none
  | .change c => some c

/-- The id of the element whose function makes a change. -/
def owner : Change → Text
  | .addNamed _ _ _ named => named
  | .setGlobalNamespace id => id
  | .setAttributes id _ => id

def isMember : Change → Bool
  | .addNamed _ _ _ _ => true
  | .setGlobalNamespace _ => false
  | .setAttributes _ _ => false

/-- The members that are added among some effects. -/
def addedMembers (effects : List Effect) : List Change :=
  (effects.filterMap changed).filter isMember

/-- The element is a global namespace, if it has no context. -/
def NamesGlobal (element : Element) : Prop :=
  element.name = "Namespace" ∧ getAttribute element.attributes "name" = some "::".toList

/-- The effect is one of the function for this element. -/
def IsOwn (id : Text) (element : Element) : Effect → Prop
  | .setSourceObject _ _ => True
  | .change c => owner c = id ∧ ∀ id', c = .setGlobalNamespace id' → NamesGlobal element

/-- The outcome and the effects of a function for an element. -/
structure Makes (id : Text) (element : Element) (M : List Change → Prop)
    (d : Outcome SourceObject × List Effect) : Prop where
  returned : ∀ o, d.1 = .returned o → d.2.filterMap registration = registrations id o ∧
    MadeFor id element.name o ∧ M (addedMembers d.2)
  notReturned : (∀ o, d.1 ≠ .returned o) → d.2.filterMap registration = []
  own : ∀ e ∈ d.2, IsOwn id element e

end Descriptions

section Rules

variable {id : Text} {element : Element} {M : List Change → Prop} {α : Type}
  {value : (i : Procedure) → Outcome (Answer i)}

theorem addedMembers_append (effects effects' : List Effect) :
    addedMembers (effects ++ effects') = addedMembers effects ++ addedMembers effects' := by
  simp only [addedMembers, List.filterMap_append, List.filter_append]

theorem makes_failed (effects : List Effect) (hregistration : effects.filterMap registration = [])
    (hown : ∀ e ∈ effects, IsOwn id element e) : Makes id element M (.failed, effects) :=
  ⟨fun _ h => (by cases h), fun _ => hregistration, hown⟩

/-- A program that has no effects goes before. -/
theorem makes_bind {P : α → Prop} {q : Builder α} (hq : q.Does (fun _ => False) P)
    {f : α → Builder SourceObject}
    (hf : ∀ a, P a → Makes id element M (denote Use.isNull value (f a))) :
    Makes id element M (denote Use.isNull value (q >>= f)) := by
  obtain ⟨hsilent, hresult⟩ := denote_does Use.isNull value hq
  have hnil : (denote Use.isNull value q).2 = [] := List.eq_nil_iff_forall_not_mem.mpr hsilent
  rw [denote_bind, andThen]
  cases houtcome : (denote Use.isNull value q).1 with
  | crashed =>
    rw [hnil]
    exact ⟨fun _ h => (by cases h), fun _ => rfl, by simp⟩
  | failed =>
    rw [hnil]
    exact makes_failed [] rfl (by simp)
  | returned a =>
    rw [hnil]
    exact hf a (hresult a houtcome)

/-- The object is registered in the end. -/
theorem makes_register {o : SourceObject} (hmade : MadeFor id element.name o)
    (htype : madeUpType o = none) :
    Makes id element (· = []) (denote Use.isNull value (register id o)) := by
  refine ⟨?_, fun h => absurd rfl (h o), ?_⟩
  · rintro o' h
    obtain rfl : o = o' := by cases h; rfl
    exact ⟨by rw [registrations, htype]; rfl, hmade, rfl⟩
  · intro e he
    obtain rfl := List.mem_singleton.mp he
    trivial

/-- The object is registered in the end, after the type that is made up for it. -/
theorem makes_registerBoth {o : SourceObject} {t : SourceType} (hmade : MadeFor id element.name o)
    (htype : madeUpType o = some t) :
    Makes id element (· = []) (denote Use.isNull value (do
      setSourceObject (typeId id) (.type t)
      register id o)) := by
  refine ⟨?_, fun h => absurd rfl (h o), ?_⟩
  · rintro o' h
    obtain rfl : o = o' := by cases h; rfl
    exact ⟨by rw [registrations, htype]; rfl, hmade, rfl⟩
  · intro e he
    rcases List.mem_cons.mp he with rfl | he
    · trivial
    · obtain rfl := List.mem_singleton.mp he
      trivial

theorem makes_guarded {guard : Prop} [Decidable guard] {q : Builder SourceObject}
    (hq : Makes id element M (denote Use.isNull value q)) :
    Makes id element M (denote Use.isNull value (if guard then fail else q)) := by
  split
  · exact makes_failed [] rfl (by simp)
  · exact hq

end Rules

section Silent

variable {p : SourceParser} {id : Text} {element : Element}

theorem does_getFile (fid : Text) : (getFile p fid).Does (fun _ => False) fun _ => True :=
  does_deref fun _ _ => trivial

theorem does_setLocation (named : Named) :
    (setLocation p element named).Does (fun _ => False) fun named' =>
      named'.id = named.id ∧ named'.name = named.name ∧ named'.context = named.context := by
  unfold setLocation
  split
  · exact (does_getFile _).bind fun _ _ => ⟨rfl, rfl, rfl⟩
  · split
    · exact ⟨rfl, rfl, rfl⟩
    · split
      · exact (does_getFile _).bind fun _ _ => ⟨rfl, rfl, rfl⟩
      · exact ⟨rfl, rfl, rfl⟩

theorem does_requireType (tid : Text) : (requireType tid).Does (fun _ => False) fun _ => True :=
  Does.bind (P := fun _ => True) (does_ask _ fun _ => trivial) fun _ _ =>
    does_ofOption fun _ _ => trivial

theorem does_getTarget (attributes : Attributes) :
    (getTarget attributes).Does (fun _ => False) fun _ => True :=
  Does.bind (P := fun _ => True) (does_ofOption fun _ _ => trivial) fun tid _ =>
    does_requireType tid

theorem does_setupArguments (nested : List (String × Attributes)) :
    (setupArguments nested).Does (fun _ => False) fun _ => True := by
  induction nested with
  | nil => trivial
  | cons argument nested ih =>
    obtain ⟨name, attributes⟩ := argument
    unfold setupArguments
    split
    · exact (does_getTarget attributes).bind fun argType _ => ih.bind fun rest _ => trivial
    · split
      · exact ih
      · trivial

theorem does_setupFunctionType (element : Element) :
    (setupFunctionType element).Does (fun _ => False) fun _ => True := by
  refine Does.bind (P := fun _ => True) ?_ fun returns _ =>
    (does_setupArguments element.nested).bind fun _ _ => trivial
  unfold getReturns
  split
  · exact does_requireType _
  · split
    · exact Does.bind (P := fun _ => True) (does_ask _ fun _ => trivial) fun _ _ =>
        does_ofOption fun _ _ => trivial
    · trivial

theorem does_newFunctionType (element : Element) :
    (newFunctionType element).Does (fun _ => False) fun _ => True :=
  (does_setupFunctionType element).bind fun _ _ => trivial

theorem does_setupBases (ids : List Text) :
    (setupBases p ids).Does (fun _ => False) fun _ => True := by
  induction ids with
  | nil => trivial
  | cons id ids ih =>
    unfold setupBases
    refine Does.bind (P := fun _ => True) (does_deref fun _ _ => trivial) fun belement _ => ?_
    refine Does.bind (P := fun _ => True) (does_ask _ fun _ => trivial) fun bobj _ => ?_
    refine Does.bind (P := fun _ => True) (does_ofOption fun _ _ => trivial) fun base _ => ?_
    exact ih.bind fun bases _ => trivial

theorem does_getBasetype : (getBasetype p element).Does (fun _ => False) fun _ => True := by
  refine Does.bind (P := fun _ => True) (does_ofOption fun _ _ => trivial) fun bte _ => ?_
  refine Does.bind (P := fun _ => True) (does_ask _ fun _ => trivial) fun c _ => ?_
  exact does_ofOption fun _ _ => trivial

end Silent

section Naming

variable {p : SourceParser} {id : Text} {element : Element}
  {value : (i : Procedure) → Outcome (Answer i)}

def outcomeContext : Outcome SourceObject → Option Text
  | .returned co => co.asContext.map ContextObject.owner
  | .failed => none
  | .crashed => none

/-- The context that an element is added to. -/
def contextIn (p : SourceParser) (value : (i : Procedure) → Outcome (Answer i))
    (element : Element) : Option Text :=
  (getElement p element "context").bind fun contextElement =>
    outcomeContext (value (.element contextElement))

/-- The element is made a member of its context, if it has one. -/
def IsMemberOf (p : SourceParser) (value : (i : Procedure) → Outcome (Answer i)) (id : Text)
    (element : Element) (members : List Change) : Prop :=
  ∃ name access, accessOf element = some access ∧
    (∀ name', getAttribute element.attributes "name" = some name' → name = name') ∧
    members = (contextIn p value element).toList.map fun c => .addNamed c name access id

/-- The outcome and the effects of `SetupNamed`. -/
structure Names (p : SourceParser) (value : (i : Procedure) → Outcome (Answer i)) (id : Text)
    (element : Element) (anonymous : Option String) (d : Outcome Named × List Effect) : Prop where
  registration : d.2.filterMap registration = []
  own : ∀ e ∈ d.2, IsOwn id element e
  named : ∀ named, d.1 = .returned named → named.id = id ∧
    (getAttribute element.attributes "name").or (anonymous.map String.toList) = some named.name ∧
    IsMemberOf p value id element (addedMembers d.2)

theorem denote_setContext (value : (i : Procedure) → Outcome (Answer i)) (access : Access)
    (named : Named) :
    (∃ named', denote Use.isNull value (setContext p element access named) =
        (.returned named', (contextIn p value element).toList.map fun c =>
          .change (.addNamed c named.name access named.id)) ∧
      named'.id = named.id ∧ named'.name = named.name) ∨
    denote Use.isNull value (setContext p element access named) = (.crashed, []) := by
  unfold setContext contextIn
  cases getElement p element "context" with
  | none => exact Or.inl ⟨named, rfl, rfl, rfl⟩
  | some contextElement =>
    show (∃ named', denote Use.isNull value (.call (.element contextElement) _) = _ ∧ _) ∨
      denote Use.isNull value (.call (.element contextElement) _) = _
    rw [denote, Option.bind_some]
    cases value (.element contextElement) with
    | crashed => exact Or.inr rfl
    | failed => exact Or.inl ⟨named, rfl, rfl, rfl⟩
    | returned co =>
      -- A namespace, an alias of one and a class are contexts.
      cases co with
      | ns context =>
        exact Or.inl ⟨{ named with context := some context.id }, rfl, rfl, rfl⟩
      | nsAlias context _ =>
        exact Or.inl ⟨{ named with context := some context.id }, rfl, rfl, rfl⟩
      | cls _ context _ _ =>
        exact Or.inl ⟨{ named with context := some context.id }, rfl, rfl, rfl⟩
      | _ => exact Or.inl ⟨named, rfl, rfl, rfl⟩

theorem names_setupNamed (anonymous : Option String) :
    Names p value id element anonymous
      (denote Use.isNull value (setupNamed p id element anonymous)) := by
  have hfailed : Names p value id element anonymous (.failed, []) :=
    ⟨rfl, by simp, fun named h => by cases h⟩
  have hcrashed : Names p value id element anonymous (.crashed, []) :=
    ⟨rfl, by simp, fun named h => by cases h⟩
  unfold setupNamed
  cases hname : (getAttribute element.attributes "name").or (anonymous.map String.toList) with
  | none => exact hfailed
  | some name =>
    show Names p value id element anonymous (denote Use.isNull value
      (setLocation p element { id, name } >>= fun named => _))
    have hlocation : (setLocation p element { id, name }).Does (fun _ => False) _ :=
      does_setLocation _
    obtain ⟨hsilent, hresult⟩ := denote_does Use.isNull value hlocation
    rw [denote_bind, andThen, List.eq_nil_iff_forall_not_mem.mpr hsilent]
    cases houtcome : (denote Use.isNull value (setLocation p element { id, name })).1 with
    | crashed => exact hcrashed
    | failed => exact hfailed
    | returned named =>
      obtain ⟨hid, hname', -⟩ := hresult named houtcome
      cases haccess : accessOf element with
      | none => exact hfailed
      | some access =>
        show Names p value id element anonymous
          (denote Use.isNull value (setContext p element access named))
        rcases denote_setContext value access named with
          ⟨named', hdenote, hid', hname''⟩ | hdenote
        · have hmembers : addedMembers ((contextIn p value element).toList.map fun c =>
              .change (.addNamed c name access id)) =
              (contextIn p value element).toList.map fun c => .addNamed c name access id := by
            cases contextIn p value element <;> rfl
          rw [hdenote, hid, hname']
          refine ⟨?_, ?_, fun named'' h => ?_⟩
          · cases contextIn p value element <;> rfl
          · intro e he
            obtain ⟨c, -, rfl⟩ := List.mem_map.mp he
            exact ⟨rfl, fun id' h => by cases h⟩
          · obtain rfl : named' = named'' := by cases h; rfl
            refine ⟨hid'.trans hid, hname.trans (congrArg some (hname''.trans hname').symm), ?_⟩
            refine ⟨name, access, haccess, fun name' h => ?_, hmembers⟩
            rw [h, Option.some_or, Option.some.injEq] at hname
            exact hname.symm
        · rw [hdenote]
          exact hcrashed

theorem makes_named (anonymous : Option String) {f : Named → Builder SourceObject}
    (hf : ∀ named : Named, named.id = id →
      (getAttribute element.attributes "name").or (anonymous.map String.toList) = some named.name →
      Makes id element (· = []) (denote Use.isNull value (f named))) :
    Makes id element (IsMemberOf p value id element)
      (denote Use.isNull value (setupNamed p id element anonymous >>= f)) := by
  have hnames : Names p value id element anonymous _ := names_setupNamed anonymous
  rw [denote_bind, andThen]
  cases houtcome : (denote Use.isNull value (setupNamed p id element anonymous)).1 with
  | crashed => exact ⟨fun _ h => (by cases h), fun _ => hnames.registration, hnames.own⟩
  | failed => exact makes_failed _ hnames.registration hnames.own
  | returned named =>
    obtain ⟨hid, hname, hmember⟩ := hnames.named named houtcome
    have hrest := hf named hid hname
    refine ⟨fun o ho => ?_, fun hnot => ?_, fun e he => ?_⟩
    · obtain ⟨hregistered, hmade, hnone⟩ := hrest.returned o ho
      refine ⟨?_, hmade, ?_⟩
      · rw [List.filterMap_append, hnames.registration, hregistered, List.nil_append]
      · rw [addedMembers_append, hnone, List.append_nil]
        exact hmember
    · rw [List.filterMap_append, hnames.registration, hrest.notReturned hnot, List.append_nil]
    · rcases List.mem_append.mp he with he | he
      · exact hnames.own e he
      · exact hrest.own e he

end Naming

section Constructing

variable {p : SourceParser} {id : Text} {element : Element}
  {value : (i : Procedure) → Outcome (Answer i)}

/-- What is added to the member maps for an element. -/
def MembersOf (p : SourceParser) (value : (i : Procedure) → Outcome (Answer i)) (id : Text)
    (element : Element) (members : List Change) : Prop :=
  if element.name ∈ namedElements then IsMemberOf p value id element members else members = []

theorem Makes.mono {M M' : List Change → Prop} {d : Outcome SourceObject × List Effect}
    (h : Makes id element M d) (hM : ∀ members, M members → M' members) :
    Makes id element M' d :=
  ⟨fun o ho => ⟨(h.returned o ho).1, (h.returned o ho).2.1, hM _ (h.returned o ho).2.2⟩,
    h.notReturned, h.own⟩

theorem makes_ofNamed {d : Outcome SourceObject × List Effect}
    (hname : element.name ∈ namedElements)
    (h : Makes id element (IsMemberOf p value id element) d) :
    Makes id element (MembersOf p value id element) d := by
  refine h.mono fun members hmembers => ?_
  rw [MembersOf, if_pos hname]
  exact hmembers

theorem makes_ofUnnamed {d : Outcome SourceObject × List Effect}
    (hname : element.name ∉ namedElements) (h : Makes id element (· = []) d) :
    Makes id element (MembersOf p value id element) d := by
  refine h.mono fun members hmembers => ?_
  rw [MembersOf, if_neg hname]
  exact hmembers

theorem makes_function {kind : FunctionKind} (anonymous : Option String) {flags : MethodFlags}
    (hkind : ∀ named type, elementName (.function kind named type flags) = element.name)
    (hname : element.name ∈ namedElements) :
    Makes id element (MembersOf p value id element)
      (denote Use.isNull value (setupFunction p kind anonymous flags id element)) := by
  refine makes_ofNamed hname (makes_named anonymous fun named hid _ => ?_)
  refine makes_bind (does_newFunctionType element) fun ft _ => ?_
  exact makes_registerBoth ⟨hkind named ft, fun named' h => Option.some.inj h ▸ hid⟩ rfl

theorem makes_class {kind : ClassKind} (anonymous : String)
    (hkind : ∀ named isAbstract bases, elementName (.cls kind named isAbstract bases) =
      element.name) (hname : element.name ∈ namedElements) :
    Makes id element (MembersOf p value id element)
      (denote Use.isNull value (setupClass p kind anonymous id element)) := by
  refine makes_ofNamed hname (makes_named _ fun named hid _ => ?_)
  refine makes_bind (does_setupBases _) fun bases _ => ?_
  exact makes_registerBoth ⟨hkind named _ bases, fun named' h => Option.some.inj h ▸ hid⟩ rfl

theorem makes_variable {make : Named → SourceType → SourceObject}
    (hmake : ∀ named type, elementName (make named type) = element.name ∧
      asNamed (make named type) = some named ∧ madeUpType (make named type) = none)
    (hname : element.name ∈ namedElements) :
    Makes id element (MembersOf p value id element)
      (denote Use.isNull value (setupVariable p id element make)) := by
  refine makes_ofNamed hname (makes_named _ fun named hid _ => ?_)
  refine makes_bind (does_getTarget _) fun type _ => ?_
  obtain ⟨hkind, hnamed, htype⟩ := hmake named type
  refine makes_register ⟨hkind, fun named' h => ?_⟩ htype
  rw [hnamed] at h
  exact Option.some.inj h ▸ hid

theorem makes_type {t : SourceType} (h : typeElementName t = element.name)
    (hname : element.name ∉ namedElements) :
    Makes id element (MembersOf p value id element)
      (denote Use.isNull value (register id (.type t))) :=
  makes_ofUnnamed hname (makes_register ⟨h, fun _ h => (by cases h)⟩ rfl)

theorem makes_addNamespace (h : element.name = "Namespace") :
    Makes id element (MembersOf p value id element)
      (denote Use.isNull value (addNamespace p id element)) := by
  refine makes_ofNamed (by simp [h, namedElements]) (makes_named _ fun named hid hname => ?_)
  have hmade : MadeFor id element.name (.ns named) :=
    ⟨h.symm, fun named' h => Option.some.inj h ▸ hid⟩
  cases hglobal : isGlobalNamespace named with
  | false =>
    have hregister : Makes id element (· = [])
        (denote Use.isNull value (register id (.ns named))) := makes_register hmade rfl
    simp only [Bool.false_eq_true, if_false]
    exact hregister
  | true =>
    have hcolons : named.name = "::".toList := by
      simp only [isGlobalNamespace, decide_eq_true_eq] at hglobal
      exact hglobal.1
    have hnames : NamesGlobal element := by
      refine ⟨h, ?_⟩
      cases hattribute : getAttribute element.attributes "name" with
      | none =>
        rw [hattribute, hcolons] at hname
        exact absurd hname (by decide)
      | some name =>
        rw [hattribute, Option.some_or, hcolons] at hname
        exact hname
    simp only [if_true]
    refine ⟨fun o ho => ?_, fun hnot => absurd rfl (hnot (.ns named)), fun e he => ?_⟩
    · obtain rfl : .ns named = o := by cases ho; rfl
      exact ⟨rfl, hmade, rfl⟩
    · rcases List.mem_cons.mp he with rfl | he
      · trivial
      · obtain rfl := List.mem_singleton.mp he
        exact ⟨rfl, fun id' _ => hnames⟩

/-- What the functions for the elements make. -/
theorem makes_construct : Makes id element (MembersOf p value id element)
    (denote Use.isNull value (construct p id element)) := by
  unfold construct
  split <;> rename_i h
  · exact makes_addNamespace h
  · refine makes_ofNamed (by simp [h, namedElements]) (makes_named _ fun named hid _ => ?_)
    refine makes_bind (P := fun _ => True) (does_ofOption fun _ _ => trivial) fun nsElement _ => ?_
    refine makes_bind (P := fun _ => True) (does_ask _ fun _ => trivial) fun nso _ => ?_
    refine makes_bind (P := fun _ => True) (does_ofOption fun _ _ => trivial) fun target _ => ?_
    exact makes_register ⟨h.symm, fun named' h => Option.some.inj h ▸ hid⟩ rfl
  · refine makes_bind (P := fun _ => True) (does_ofOption fun _ _ => trivial) fun name _ => ?_
    exact makes_type h.symm (by simp [h, namedElements, classElements, functionElements])
  · refine makes_bind (does_getTarget _) fun target _ => ?_
    exact makes_type h.symm (by simp [h, namedElements, classElements, functionElements])
  · refine makes_bind (does_getTarget _) fun target _ => ?_
    exact makes_type h.symm (by simp [h, namedElements, classElements, functionElements])
  · refine makes_bind (P := fun _ => True) (does_ofOption fun _ _ => trivial) fun targetId _ => ?_
    refine makes_bind (P := fun _ => True) (does_ask _ fun _ => trivial) fun target _ => ?_
    refine makes_bind (P := fun _ => True) (does_ofOption fun _ _ => trivial) fun maxStr _ => ?_
    refine makes_bind (P := fun _ => True) (does_ofOption fun _ _ => trivial) fun len _ => ?_
    exact makes_type h.symm (by simp [h, namedElements, classElements, functionElements])
  · refine makes_bind (P := fun t => typeElementName t = "FunctionType") ?_ fun type htype => ?_
    · exact (does_setupFunctionType element).bind fun _ _ => rfl
    · exact makes_type (htype.trans h.symm)
        (by simp [h, namedElements, classElements, functionElements])
  · refine makes_bind does_getBasetype fun c _ => ?_
    refine makes_bind (does_setupFunctionType element) fun _ _ => ?_
    exact makes_type h.symm (by simp [h, namedElements, classElements, functionElements])
  · refine makes_bind does_getBasetype fun c _ => ?_
    refine makes_bind (does_getTarget _) fun mtype _ => ?_
    exact makes_type h.symm (by simp [h, namedElements, classElements, functionElements])
  · refine makes_ofNamed (by simp [h, namedElements]) (makes_named _ fun named hid _ => ?_)
    refine makes_bind (P := fun _ => True) (does_ofOption fun _ _ => trivial) fun values _ => ?_
    exact makes_registerBoth ⟨h.symm, fun named' h => Option.some.inj h ▸ hid⟩ rfl
  · exact makes_class _ (fun _ _ _ => h.symm) (by simp [h, namedElements, classElements])
  · exact makes_class _ (fun _ _ _ => h.symm) (by simp [h, namedElements, classElements])
  · exact makes_class _ (fun _ _ _ => h.symm) (by simp [h, namedElements, classElements])
  · exact makes_variable (fun _ _ => ⟨h.symm, rfl, rfl⟩) (by simp [h, namedElements])
  · exact makes_variable (fun _ _ => ⟨h.symm, rfl, rfl⟩) (by simp [h, namedElements])
  · exact makes_variable (fun _ _ => ⟨h.symm, rfl, rfl⟩) (by simp [h, namedElements])
  · exact makes_function _ (fun _ _ => h.symm) (by simp [h, namedElements, functionElements])
  · exact makes_guarded (makes_guarded (makes_function _ (fun _ _ => h.symm)
      (by simp [h, namedElements, functionElements])))
  · exact makes_function _ (fun _ _ => h.symm) (by simp [h, namedElements, functionElements])
  · exact makes_function _ (fun _ _ => h.symm) (by simp [h, namedElements, functionElements])
  · exact makes_function _ (fun _ _ => h.symm) (by simp [h, namedElements, functionElements])
  · exact makes_guarded (makes_function _ (fun _ _ => h.symm)
      (by simp [h, namedElements, functionElements]))
  · exact makes_function _ (fun _ _ => h.symm) (by simp [h, namedElements, functionElements])
  · exact makes_failed [] rfl (by simp)

theorem denote_saveAttributes_none (id : Text) (element : Element)
    (value : (i : Procedure) → Outcome (Answer i)) :
    (denote Use.isNull value (saveAttributes id element none)).2 = [] ∧
      ∀ o, (denote Use.isNull value (saveAttributes id element none)).1 ≠ .returned o := by
  unfold saveAttributes
  cases getAttribute element.attributes "attributes" with
  | none => exact ⟨rfl, fun o h => by cases h⟩
  | some atts => exact ⟨rfl, fun o h => by cases h⟩

theorem denote_saveAttributes_some (id : Text) (element : Element)
    (value : (i : Procedure) → Outcome (Answer i)) (o : SourceObject) :
    ∃ effects, denote Use.isNull value (saveAttributes id element (some o)) =
        (.returned o, effects) ∧ effects.filterMap registration = [] ∧ addedMembers effects = [] ∧
      ∀ e ∈ effects, IsOwn id element e := by
  unfold saveAttributes
  cases getAttribute element.attributes "attributes" with
  | none => exact ⟨[], rfl, rfl, rfl, by simp⟩
  | some atts =>
    refine ⟨[.change (.setAttributes id atts)], rfl, rfl, rfl, fun e he => ?_⟩
    obtain rfl := List.mem_singleton.mp he
    exact ⟨rfl, fun id' h => by cases h⟩

/-- The attributes of an element are set after its object has been made. -/
theorem makes_addElement (hid : getAttribute element.attributes "id" = some id) :
    Makes id element (MembersOf p value id element)
      (denote Use.isNull value (addElement p element)) := by
  have hconstruct : Makes id element (MembersOf p value id element)
      (denote Use.isNull value (construct p id element)) := makes_construct
  unfold addElement
  rw [hid]
  show Makes id element _ (denote Use.isNull value
    ((construct p id element).attempt >>= fun o => saveAttributes id element o))
  rw [denote_bind, denote_attempt, andThen]
  cases houtcome : (denote Use.isNull value (construct p id element)).1 with
  | crashed =>
    refine ⟨fun _ h => (by cases h), fun _ => hconstruct.notReturned ?_, hconstruct.own⟩
    simp [houtcome]
  | failed =>
    obtain ⟨hnil, hnot⟩ := denote_saveAttributes_none id element value
    have hnone := hconstruct.notReturned (by simp [houtcome])
    show Makes id element _ ((denote Use.isNull value (saveAttributes id element none)).1, _)
    rw [hnil, List.append_nil]
    exact ⟨fun o h => absurd h (hnot o), fun _ => hnone, hconstruct.own⟩
  | returned o =>
    obtain ⟨hregistered, hmade, hmembers⟩ := hconstruct.returned o houtcome
    obtain ⟨effects, hdenote, hnone, hnoMember, hown⟩ :=
      denote_saveAttributes_some id element value o
    show Makes id element _ ((denote Use.isNull value (saveAttributes id element (some o))).1,
      _ ++ (denote Use.isNull value (saveAttributes id element (some o))).2)
    rw [hdenote]
    refine ⟨fun o' h => ?_, fun hnot => absurd rfl (hnot o), fun e he => ?_⟩
    · obtain rfl : o = o' := by cases h; rfl
      refine ⟨?_, hmade, ?_⟩
      · rw [List.filterMap_append, hnone, List.append_nil, hregistered]
      · rw [addedMembers_append, hnoMember, List.append_nil]
        exact hmembers
    · rcases List.mem_append.mp he with he | he
      · exact hconstruct.own e he
      · exact hown e he

end Constructing

end CableSwig.Parsers.ElementValues
