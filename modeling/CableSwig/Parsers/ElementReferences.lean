import CableSwig.Lib.Fuel
import CableSwig.Parsers.RepresentationBuilder
import Mathlib.Order.WellFoundedSet

/-!
# What elements refer to

Which elements and types the functions for the elements ask for, and that the construction of the
source representation comes to an end where no element refers to itself.
-/
namespace CableSwig.Parsers.ElementReferences

open CableSwig.GccXml.TypeDump
open CableSwig.Lib.Fuel
open CableSwig.Lib.OrderedMap
open CableSwig.Lib.Procedures
open CableSwig.Lib.Procedures.Program
open CableSwig.Lib.StdString
open CableSwig.Parsers.BasesAttribute (publicIds)
open CableSwig.Parsers.RepresentationBuilder
open CableSwig.Parsers.XmlSourceParser

section References

/-- The elements whose functions use `SetupFunctionType`. -/
def functionElements : List String :=
  ["Function", "Method", "Constructor", "Destructor", "OperatorFunction", "OperatorMethod",
    "Converter"]

def classElements : List String := ["Class", "Struct", "Union"]

/-- The elements whose functions use `SetupNamed`. -/
def namedElements : List String :=
  ["Namespace", "NamespaceAlias", "Enumeration", "Typedef", "Variable", "Field"] ++
    classElements ++ functionElements

/-- The attributes with ids of elements that are read for elements of a name. -/
def elementAttributes (name : String) : List String :=
  (if name ∈ namedElements then ["context"] else []) ++
  (if name = "NamespaceAlias" then ["namespace"] else []) ++
  (if name = "MethodType" ∨ name = "OffsetType" then ["basetype"] else [])

/-- The attributes with ids of types that are read for elements of a name. -/
def typeAttributes (name : String) : List String :=
  (if name ∈ ["PointerType", "ReferenceType", "ArrayType", "OffsetType", "Typedef", "Variable",
    "Field"] then ["type"] else []) ++
  (if name ∈ ["FunctionType", "MethodType"] ++ functionElements then ["returns"] else [])

def argumentTypes (nested : List (String × Attributes)) : List Text :=
  nested.filterMap fun argument =>
    if argument.1 = "Argument" then getAttribute argument.2 "type" else none

/-- The ids of the elements that an element refers to. -/
def elementReferences (element : Element) : List Text :=
  (elementAttributes element.name).filterMap (getAttribute element.attributes) ++
  (if element.name ∈ classElements
    then publicIds ((getAttribute element.attributes "bases").getD []) else [])

/-- The ids of the types that an element refers to. -/
def typeReferences (element : Element) : List Text :=
  (typeAttributes element.name).filterMap (getAttribute element.attributes) ++
  (if element.name ∈ ["FunctionType", "MethodType"] ++ functionElements
    then argumentTypes element.nested else [])

def references (element : Element) : List Text :=
  elementReferences element ++ (typeReferences element).map unqualified

variable (p : SourceParser)

/-- The element with the first id refers to the second id. -/
def RefersTo (id id' : Text) : Prop :=
  ∃ element, getSourceElement p id = some element ∧ id' ∈ references element

/-- No element refers to itself over other elements. -/
def Acyclic : Prop := ∀ id, ¬ Relation.TransGen (RefersTo p) id id

/-- The procedures that are called for an element. -/
def CallsOf (element : Element) : Procedure → Prop
  | .element element' =>
    ∃ id ∈ elementReferences element, getSourceElement p id = some element'
  | .type tid => tid ∈ typeReferences element
  | .constructorReturn => True

end References

section Asking

variable {p : SourceParser} {calls : Procedure → Prop} {id : Text} {element : Element}

theorem asks_register (id : Text) (object : SourceObject) :
    (register id object).Asks calls :=
  (asks_perform _).bind fun _ => asks_pure _

theorem asks_setLocation (named : Named) :
    (setLocation p element named).Asks calls := by
  have hfile : ∀ fid, (getFile p fid).Asks calls :=
    fun fid => asks_deref _ _
  unfold setLocation
  split
  · exact (hfile _).bind fun file => asks_pure _
  · split
    · exact asks_pure _
    · split
      · exact (hfile _).bind fun file => asks_pure _
      · exact asks_pure _

variable (hcontext : ∀ e, getElement p element "context" = some e → calls (.element e))

section Context

include hcontext

theorem asks_setContext (access : Access) (named : Named) :
    (setContext p element access named).Asks calls := by
  unfold setContext
  split
  · exact asks_pure _
  · rename_i contextElement h
    refine ((asks_ask _).mpr (hcontext contextElement h)).bind fun co => ?_
    split
    · exact asks_pure _
    · exact (asks_perform _).bind fun _ => asks_pure _

theorem asks_setupNamed (anonymous : Option String) :
    (setupNamed p id element anonymous).Asks calls := by
  refine (asks_ofOption _).bind fun name => ?_
  refine (asks_setLocation _).bind fun named => ?_
  refine (asks_ofOption _).bind fun access => ?_
  exact asks_setContext hcontext access named

end Context

theorem asks_requireType {tid : Text} (htype : calls (.type tid)) :
    (requireType tid).Asks calls :=
  ((asks_ask _).mpr htype).bind fun _ => asks_ofOption _

theorem asks_getTarget {attributes : Attributes}
    (htype : ∀ tid, getAttribute attributes "type" = some tid → calls (.type tid)) :
    (getTarget attributes).Asks calls :=
  asks_ofOption_bind fun tid htid => asks_requireType (htype tid htid)

theorem asks_setupArguments {nested : List (String × Attributes)}
    (htypes : ∀ tid ∈ argumentTypes nested, calls (.type tid)) :
    (setupArguments nested).Asks calls := by
  induction nested with
  | nil => exact asks_pure _
  | cons argument nested ih =>
    obtain ⟨name, attributes⟩ := argument
    have hsub : argumentTypes nested ⊆ argumentTypes ((name, attributes) :: nested) := by
      intro tid htid
      rw [argumentTypes, List.filterMap_cons]
      split
      · exact htid
      · exact List.mem_cons_of_mem _ htid
    have hrest : ∀ tid ∈ argumentTypes nested, calls (.type tid) :=
      fun tid htid => htypes tid (hsub htid)
    unfold setupArguments
    split
    · rename_i hname
      refine Asks.bind (asks_getTarget fun tid htid => htypes tid ?_) fun argType => ?_
      · simp [argumentTypes, hname, htid]
      · exact (ih hrest).bind fun rest => asks_pure _
    · split
      · exact ih hrest
      · exact asks_fail

section FunctionType

variable
  (hreturns : ∀ tid, getAttribute element.attributes "returns" = some tid → calls (.type tid))
  (harguments : ∀ tid ∈ argumentTypes element.nested, calls (.type tid))
  (hconstructor : calls .constructorReturn)
include hreturns harguments hconstructor

theorem asks_setupFunctionType : (setupFunctionType element).Asks calls := by
  refine Asks.bind ?_ fun returns => (asks_setupArguments harguments).bind fun _ => asks_pure _
  unfold getReturns
  split
  · rename_i returnsId h
    exact asks_requireType (hreturns returnsId h)
  · split
    · exact ((asks_ask _).mpr hconstructor).bind fun returns => asks_ofOption _
    · exact asks_pure _

end FunctionType

theorem asks_setupBases {ids : List Text}
    (hbases : ∀ id ∈ ids, ∀ e, getSourceElement p id = some e → calls (.element e)) :
    (setupBases p ids).Asks calls := by
  induction ids with
  | nil => exact asks_pure _
  | cons id ids ih =>
    have hrest := ih fun id' hid' => hbases id' (List.mem_cons_of_mem _ hid')
    unfold setupBases
    cases h : getSourceElement p id with
    | none => trivial
    | some belement =>
      show (addElementRepresentation belement >>= _ : Builder _).Asks calls
      refine ((asks_ask _).mpr (hbases id List.mem_cons_self belement h)).bind fun bobj => ?_
      refine (asks_ofOption _).bind fun base => ?_
      exact hrest.bind fun bases => asks_pure _

theorem asks_getBasetype
    (hbasetype : ∀ e, getElement p element "basetype" = some e → calls (.element e)) :
    (getBasetype p element).Asks calls :=
  asks_ofOption_bind fun bte hbte =>
    ((asks_ask _).mpr (hbasetype bte hbte)).bind fun _ => asks_ofOption _

end Asking

section Calls

variable {p : SourceParser} {id : Text} {element : Element}

theorem callsOf_element {name : String} {e : Element}
    (hname : name ∈ elementAttributes element.name) (he : getElement p element name = some e) :
    CallsOf p element (.element e) := by
  obtain ⟨id, hid, hfind⟩ := Option.bind_eq_some_iff.mp he
  refine ⟨id, List.mem_append_left _ ?_, hfind⟩
  exact List.mem_filterMap.mpr ⟨name, hname, hid⟩

theorem callsOf_base (hname : element.name ∈ classElements) {id : Text}
    (hid : id ∈ publicIds ((getAttribute element.attributes "bases").getD [])) {e : Element}
    (he : getSourceElement p id = some e) : CallsOf p element (.element e) := by
  refine ⟨id, List.mem_append_right _ ?_, he⟩
  rw [if_pos hname]
  exact hid

theorem callsOf_type {name : String} {tid : Text} (hname : name ∈ typeAttributes element.name)
    (htid : getAttribute element.attributes name = some tid) : CallsOf p element (.type tid) :=
  List.mem_append_left _ (List.mem_filterMap.mpr ⟨name, hname, htid⟩)

theorem callsOf_argument (hname : element.name ∈ ["FunctionType", "MethodType"] ++ functionElements)
    {tid : Text} (htid : tid ∈ argumentTypes element.nested) : CallsOf p element (.type tid) := by
  refine List.mem_append_right _ ?_
  rw [if_pos hname]
  exact htid

theorem asks_named (h : element.name ∈ namedElements) (anonymous : Option String) :
    (setupNamed p id element anonymous).Asks (CallsOf p element) :=
  asks_setupNamed (fun _ => callsOf_element (by simp [elementAttributes, h])) anonymous

theorem asks_target (h : "type" ∈ typeAttributes element.name) :
    (getTarget element.attributes).Asks (CallsOf p element) :=
  asks_getTarget fun _ => callsOf_type h

theorem asks_basetype (h : "basetype" ∈ elementAttributes element.name) :
    (getBasetype p element).Asks (CallsOf p element) :=
  asks_getBasetype fun _ => callsOf_element h

theorem asks_functionType (h : "returns" ∈ typeAttributes element.name) :
    (setupFunctionType element).Asks (CallsOf p element) := by
  have hname : element.name ∈ ["FunctionType", "MethodType"] ++ functionElements := by
    by_contra hnot
    simp only [typeAttributes, if_neg hnot] at h
    split at h <;> simp at h
  apply asks_setupFunctionType
  · exact fun tid => callsOf_type h
  · exact fun tid => callsOf_argument hname
  · trivial

theorem asks_function (h : element.name ∈ functionElements) (kind : FunctionKind)
    (anonymous : Option String) (flags : MethodFlags) :
    (setupFunction p kind anonymous flags id element).Asks (CallsOf p element) := by
  refine (asks_named (by simp [namedElements, h]) anonymous).bind fun named => ?_
  have htype : (setupFunctionType element).Asks (CallsOf p element) :=
    asks_functionType (by simp [typeAttributes, h])
  refine Asks.bind (htype.bind fun _ => asks_pure _) fun ft => ?_
  exact (asks_perform _).bind fun _ => asks_register id _

theorem asks_class (h : element.name ∈ classElements) (kind : ClassKind) (anonymous : String) :
    (setupClass p kind anonymous id element).Asks (CallsOf p element) := by
  refine (asks_named (by simp [namedElements, h]) _).bind fun named => ?_
  refine (asks_setupBases fun id hid e => callsOf_base h hid).bind fun bases => ?_
  exact (asks_perform _).bind fun _ => asks_register id _

theorem asks_variable (h : element.name ∈ ["Typedef", "Variable", "Field"])
    (make : Named → SourceType → SourceObject) :
    (setupVariable p id element make).Asks (CallsOf p element) := by
  simp only [List.mem_cons, List.not_mem_nil, or_false] at h
  refine Asks.bind (asks_named ?_ none) fun named => ?_
  · rcases h with h | h | h <;> simp [h, namedElements]
  · refine Asks.bind (asks_target ?_) fun type => asks_register id _
    rcases h with h | h | h <;> simp [h, typeAttributes]

theorem asks_addNamespace (h : element.name = "Namespace") :
    (addNamespace p id element).Asks (CallsOf p element) := by
  refine (asks_named (by simp [h, namedElements]) _).bind fun named => ?_
  refine (asks_perform _).bind fun _ => ?_
  split
  · exact (asks_perform _).bind fun _ => asks_pure _
  · exact asks_pure _

theorem asks_addNamespaceAlias (h : element.name = "NamespaceAlias") :
    (addNamespaceAlias p id element).Asks (CallsOf p element) := by
  refine (asks_named (by simp [h, namedElements]) _).bind fun named => ?_
  refine asks_ofOption_bind fun nsElement hns => ?_
  refine Asks.bind ((asks_ask _).mpr ?_) fun nso => ?_
  · exact callsOf_element (by simp [h, elementAttributes]) hns
  · exact (asks_ofOption _).bind fun target => asks_register id _

theorem asks_addArrayType (h : element.name = "ArrayType") :
    (addArrayType id element).Asks (CallsOf p element) := by
  refine asks_ofOption_bind fun targetId htargetId => ?_
  refine Asks.bind ((asks_ask _).mpr ?_) fun target => ?_
  · exact callsOf_type (by simp [h, typeAttributes]) htargetId
  · refine (asks_ofOption _).bind fun maxStr => ?_
    exact (asks_ofOption _).bind fun len => asks_register id _

theorem asks_addEnumeration (h : element.name = "Enumeration") :
    (addEnumeration p id element).Asks (CallsOf p element) := by
  refine (asks_named (by simp [h, namedElements]) _).bind fun named => ?_
  refine (asks_ofOption _).bind fun values => ?_
  exact (asks_perform _).bind fun _ => asks_register id _

/-- The functions for the elements call and use what the elements refer to. -/
theorem asks_construct : (construct p id element).Asks (CallsOf p element) := by
  unfold construct
  split <;> rename_i h
  · exact asks_addNamespace h
  · exact asks_addNamespaceAlias h
  · exact (asks_ofOption _).bind fun name => asks_register id _
  · exact (asks_target (by simp [h, typeAttributes])).bind fun target => asks_register id _
  · exact (asks_target (by simp [h, typeAttributes])).bind fun target => asks_register id _
  · exact asks_addArrayType h
  · have htype : (setupFunctionType element).Asks (CallsOf p element) :=
      asks_functionType (by simp [h, typeAttributes])
    exact Asks.bind (htype.bind fun _ => asks_pure _) fun type => asks_register id _
  · refine (asks_basetype (by simp [h, elementAttributes])).bind fun c => ?_
    exact (asks_functionType (by simp [h, typeAttributes])).bind fun _ => asks_register id _
  · refine (asks_basetype (by simp [h, elementAttributes])).bind fun c => ?_
    exact (asks_target (by simp [h, typeAttributes])).bind fun mtype => asks_register id _
  · exact asks_addEnumeration h
  · exact asks_class (by simp [h, classElements]) _ _
  · exact asks_class (by simp [h, classElements]) _ _
  · exact asks_class (by simp [h, classElements]) _ _
  · exact asks_variable (by simp [h]) _
  · exact asks_variable (by simp [h]) _
  · exact asks_variable (by simp [h]) _
  · exact asks_function (by simp [h, functionElements]) _ _ _
  · exact (asks_function (by simp [h, functionElements]) _ _ _).guarded.guarded
  · exact asks_function (by simp [h, functionElements]) _ _ _
  · exact asks_function (by simp [h, functionElements]) _ _ _
  · exact asks_function (by simp [h, functionElements]) _ _ _
  · exact (asks_function (by simp [h, functionElements]) _ _ _).guarded
  · exact asks_function (by simp [h, functionElements]) _ _ _
  · exact asks_fail

theorem asks_addElement : (addElement p element).Asks (CallsOf p element) := by
  refine Asks.bind (asks_deref _ _) fun id => ?_
  refine Asks.bind asks_construct.attempt fun o => ?_
  unfold saveAttributes
  split
  · exact asks_ofOption _
  · refine Asks.bind (asks_deref _ _) fun object => ?_
    exact (asks_perform _).bind fun _ => asks_pure _

theorem asks_addQualifiers {calls : Procedure → Prop} (tid : Text) (type : Option SourceType) :
    (addQualifiers tid type).Asks calls := by
  unfold addQualifiers
  split
  · exact asks_ofOption _
  · refine Asks.bind (asks_deref _ _) fun unqualifiedType => ?_
    refine (asks_ofOption _).bind fun newType => ?_
    exact (asks_perform _).bind fun _ => asks_pure _

theorem asks_findType {calls : Procedure → Prop} {tid : Text}
    (helement : ∀ e, getSourceElement p (unqualified tid) = some e → calls (.element e))
    (htype : calls (.type (unqualified tid))) :
    (findType p tid).Asks calls := by
  refine asks_ofOption_bind fun typeElement htypeElement => ?_
  refine ((asks_ask _).mpr (helement typeElement htypeElement)).bind fun o => ?_
  refine (asks_ofOption _).bind fun _ => ?_
  exact ((asks_ask _).mpr htype).bind fun type => asks_addQualifiers tid type

end Calls

section Registering

variable {p : SourceParser} {id : Text} {element : Element}

/-- The effect sets the object with this id. -/
def Sets (id : Text) : Effect → Prop
  | .setSourceObject id' _ => id' = id
  | .change _ => False

theorem performs_register (object : SourceObject) : (register id object).Performs (Sets id) :=
  Or.inl rfl

theorem performs_setupVariable (make : Named → SourceType → SourceObject) :
    (setupVariable p id element make).Performs (Sets id) :=
  Performs.then fun _ => Performs.then fun _ => performs_register _

theorem performs_setupClass (kind : ClassKind) (anonymous : String) :
    (setupClass p kind anonymous id element).Performs (Sets id) :=
  Performs.then fun _ => Performs.then fun _ => Performs.then fun _ => performs_register _

theorem performs_setupFunction (kind : FunctionKind) (anonymous : Option String)
    (flags : MethodFlags) :
    (setupFunction p kind anonymous flags id element).Performs (Sets id) :=
  Performs.then fun _ => Performs.then fun _ => Performs.then fun _ => performs_register _

/-- An element that is constructed is registered under its id. -/
theorem performs_construct : (construct p id element).Performs (Sets id) := by
  unfold construct
  split
  · exact Performs.then fun named => Performs.bind (Or.inl rfl)
  · refine Performs.then fun _ => Performs.then fun _ => ?_
    exact Performs.then fun _ => Performs.then fun _ => performs_register _
  · exact Performs.then fun _ => performs_register _
  · exact Performs.then fun _ => performs_register _
  · exact Performs.then fun _ => performs_register _
  · refine Performs.then fun _ => Performs.then fun _ => ?_
    exact Performs.then fun _ => Performs.then fun _ => performs_register _
  · exact Performs.then fun _ => performs_register _
  · exact Performs.then fun _ => Performs.then fun _ => performs_register _
  · exact Performs.then fun _ => Performs.then fun _ => performs_register _
  · exact Performs.then fun _ => Performs.then fun _ => Performs.then fun _ => performs_register _
  · exact performs_setupClass _ _
  · exact performs_setupClass _ _
  · exact performs_setupClass _ _
  · exact performs_setupVariable _
  · exact performs_setupVariable _
  · exact performs_setupVariable _
  · exact performs_setupFunction _ _ _
  · exact (performs_setupFunction _ _ _).guarded.guarded
  · exact performs_setupFunction _ _ _
  · exact performs_setupFunction _ _ _
  · exact performs_setupFunction _ _ _
  · exact (performs_setupFunction _ _ _).guarded
  · exact performs_setupFunction _ _ _
  · trivial

theorem performs_addElement (hid : getAttribute element.attributes "id" = some id) :
    (addElement p element).Performs (Sets id) := by
  unfold addElement
  rw [hid]
  refine Performs.attempt performs_construct ?_
  unfold saveAttributes
  split
  · trivial
  · trivial

theorem getSourceObject_apply (effect : Effect) (r : Representation)
    (h : (r.getSourceObject id).isSome) : ((r.apply effect).getSourceObject id).isSome := by
  cases effect with
  | change c => exact h
  | setSourceObject id' object =>
    show ((r.sourceObjects.assign stringLess id' object).find stringLess id).isSome
    by_cases hid : id' = id
    · rw [hid, StdMap.find_assign_self stringLess_strictTotal]
      rfl
    · rw [StdMap.find_assign_of_ne stringLess_strictTotal _ _ hid]
      exact h

end Registering

section Table

variable {p : SourceParser}

/-- The elements are in the table under their own ids. -/
def IdsMatch (p : SourceParser) : Prop :=
  ∀ id element, getSourceElement p id = some element →
    getAttribute element.attributes "id" = some id

theorem startNested_elementMap (p : SourceParser) (name : String) (parentOk : String → Bool)
    (atts : Attributes) : (p.startNested name parentOk atts).elementMap = p.elementMap := by
  unfold SourceParser.startNested
  split
  · rfl
  · split <;> rfl

theorem startFile_elementMap (p : SourceParser) (atts : Attributes) :
    (p.startFile atts).elementMap = p.elementMap := by
  unfold SourceParser.startFile
  split <;> rfl

theorem startElement_elementMap (p : SourceParser) (name : String) (atts : Attributes) :
    (p.startElement name atts).elementMap = p.elementMap := by
  simp only [SourceParser.startElement, apply_ite SourceParser.elementMap, startNested_elementMap,
    SourceParser.startArgument, SourceParser.startEllipsis, SourceParser.startEnumValue,
    SourceParser.startBase, startFile_elementMap, SourceParser.startUnknown,
    SourceParser.startOther, ite_self]

/-- What holds of a table that only ever gets elements under their own ids. -/
theorem run_elementMap {P : StdMap Text Element → Prop}
    (hassign : ∀ m id element, getAttribute element.attributes "id" = some id → P m →
      P (m.assign stringLess id element))
    {events : List Event} {p' : SourceParser} (hp : P p.elementMap)
    (h : SourceParser.run events p = some p') : P p'.elementMap := by
  induction events generalizing p with
  | nil =>
    obtain rfl := Option.some.inj h
    exact hp
  | cons event events ih =>
    obtain ⟨p₁, hp₁, hrest⟩ := Option.bind_eq_some_iff.mp h
    refine ih ?_ hrest
    cases event with
    | startElement name atts =>
      obtain rfl := Option.some.inj hp₁
      rwa [startElement_elementMap]
    | endElement name =>
      rw [SourceParser.handle, SourceParser.endElement] at hp₁
      split_ifs at hp₁
      · obtain rfl := Option.some.inj hp₁
        exact hp
      · unfold SourceParser.endOther at hp₁
        split at hp₁
        · cases hp₁
        · split at hp₁
          · obtain rfl := Option.some.inj hp₁
            exact hp
          · rename_i element _ _ id hid
            obtain rfl := Option.some.inj hp₁
            exact hassign _ id element hid hp
      · obtain rfl := Option.some.inj hp₁
        exact hp

theorem idsMatch_run {events : List Event} (h : SourceParser.run events {} = some p) :
    IdsMatch p := by
  refine run_elementMap (P := fun m => ∀ id element, m.find stringLess id = some element →
    getAttribute element.attributes "id" = some id) ?_ (fun id element hfind => by cases hfind) h
  intro m id element hid hm id' element' hfind
  by_cases heq : id = id'
  · subst heq
    rw [StdMap.find_assign_self stringLess_strictTotal] at hfind
    exact Option.some.inj hfind ▸ hid
  · rw [StdMap.find_assign_of_ne stringLess_strictTotal _ _ heq] at hfind
    exact hm id' element' hfind

theorem nodup_run {events : List Event} (h : SourceParser.run events {} = some p) :
    (p.elementMap.entries.map Prod.fst).Nodup :=
  run_elementMap (P := fun m => (m.entries.map Prod.fst).Nodup)
    (fun _ id element _ hm => StdMap.nodup_assign stringLess_strictTotal hm id element)
    (p := {}) List.nodup_nil h

/-- The elements that are visited are those of the table. -/
theorem mem_elementsInOrder_iff (hkeys : (p.elementMap.entries.map Prod.fst).Nodup)
    {element : Element} :
    element ∈ elementsInOrder p ↔ ∃ id, getSourceElement p id = some element := by
  simp only [elementsInOrder, List.mem_map, List.mem_insertionSort, Prod.exists,
    exists_eq_right]
  refine exists_congr fun id => ⟨?_, ?_⟩
  · exact StdMap.find_of_mem stringLess_strictTotal hkeys
  · exact StdMap.mem_of_find stringLess_strictTotal

theorem finite_ids (p : SourceParser) : {id | (getSourceElement p id).isSome}.Finite := by
  refine (p.elementMap.entries.map Prod.fst).finite_toSet.subset fun id hid => ?_
  obtain ⟨element, helement⟩ := Option.isSome_iff_exists.mp hid
  exact List.mem_map.mpr ⟨_, StdMap.mem_of_find stringLess_strictTotal helement, rfl⟩

/-- Induction over what elements refer to. -/
theorem Acyclic.induction (h : Acyclic p) {P : Text → Prop}
    (hstep : ∀ id, (∀ id', RefersTo p id id' → P id') → P id) (id : Text) : P id := by
  have hstrict : IsStrictOrder Text fun a b => Relation.TransGen (RefersTo p) b a :=
    { irrefl := fun a ha => h a ha
      trans := fun a b c hab hbc => hbc.trans hab }
  have hwf : {id | (getSourceElement p id).isSome}.WellFoundedOn
      fun a b => Relation.TransGen (RefersTo p) b a := (finite_ids p).wellFoundedOn
  have hmissing (id : Text) (hid : getSourceElement p id = none) : P id :=
    hstep id fun id' ⟨element, helement, _⟩ => absurd helement (by simp [hid])
  cases hid : getSourceElement p id with
  | none => exact hmissing id hid
  | some element =>
    have hmem : (getSourceElement p id).isSome := by simp [hid]
    refine hwf.induction hmem fun y _ ih => ?_
    refine hstep y fun id' hrefers => ?_
    cases hid' : getSourceElement p id' with
    | none => exact hmissing id' hid'
    | some element' => exact ih id' (by simp [hid']) (.single hrefers)

end Table

section Halting

variable {p : SourceParser}

/-- The procedure comes to an end, whatever has been made before. -/
def Halts (p : SourceParser) (fuel : Nat) (i : Procedure) : Prop :=
  ∀ s, ∃ r, invoke (builderSystem p) fuel i s = some r

/-- An element that has an object is registered under its id. -/
theorem registered_of_returned {fuel : Nat} {id : Text} {element : Element}
    (hid : getAttribute element.attributes "id" = some id) {s : Representation}
    {r : Run Use Representation SourceObject}
    (h : invoke (builderSystem p) fuel (.element element) s = some r) {o : SourceObject}
    (ho : r.outcome = .returned o) : (r.state.getSourceObject id).isSome := by
  obtain ⟨fuel', -, ⟨answer, hfound, rfl⟩ | ⟨-, hexec⟩⟩ := invoke_cases h
  · have hobject : ((getAttribute element.attributes "id").bind s.getSourceObject).map some =
        some answer := hfound
    rw [hid, Option.bind_some] at hobject
    obtain ⟨object, hobject, -⟩ := Option.map_eq_some_iff.mp hobject
    exact Option.isSome_iff_exists.mpr ⟨object, hobject⟩
  · have hperforms : (addElement p element).Performs (Sets id) := performs_addElement hid
    refine exec_performs (I := fun r => (r.getSourceObject id).isSome) ?_ ?_ ?_ hperforms hexec ho
    · exact fun effect s => getSourceObject_apply effect s
    · intro effect s hsets
      cases effect with
      | change c => exact hsets.elim
      | setSourceObject id' object =>
        obtain rfl : id' = id := hsets
        show ((s.sourceObjects.assign stringLess id' object).find stringLess id').isSome
        rw [StdMap.find_assign_self stringLess_strictTotal]
        rfl
    · exact invoke_keeps (fun effect s => getSourceObject_apply effect s) fuel'

/-- The type of an id, where the element that it refers to is constructed in the end. -/
theorem halts_type (hids : IdsMatch p) {tid : Text}
    (helement : ∀ element, getSourceElement p (unqualified tid) = some element →
      Enough fun fuel => Halts p fuel (.element element)) :
    Enough fun fuel => Halts p fuel (.type tid) := by
  have hbelow : Enough fun fuel => 1 ≤ fuel ∧
      ∀ element, getSourceElement p (unqualified tid) = some element →
        Halts p fuel (.element element) := by
    cases hfind : getSourceElement p (unqualified tid) with
    | none => exact ⟨1, fun fuel hfuel => ⟨hfuel, by simp⟩⟩
    | some element =>
      refine (Enough.and ⟨1, fun fuel hfuel => hfuel⟩ (helement element hfind)).mono ?_
      rintro fuel ⟨hfuel, hhalts⟩
      exact ⟨hfuel, fun element' h => Option.some.inj h ▸ hhalts⟩
  refine hbelow.step fun fuel hhalts s => ?_
  obtain ⟨hfuel, hhalts⟩ := hhalts
  obtain ⟨fuel, rfl⟩ : ∃ k, fuel = k + 1 := ⟨fuel - 1, by omega⟩
  rw [invoke]
  cases hfound : (builderSystem p).found (.type tid) s with
  | some answer => exact ⟨_, rfl⟩
  | none =>
    show ∃ r, exec (builderSystem p) (invoke (builderSystem p) (fuel + 1)) (findType p tid) s =
      some r
    unfold findType
    cases hfind : getSourceElement p (unqualified tid) with
    | none => exact ⟨_, rfl⟩
    | some element =>
      obtain ⟨r, hr⟩ := hhalts element hfind s
      show ∃ r, (invoke (builderSystem p) (fuel + 1) (.element element) s).bind _ = some r
      rw [hr, Option.bind_some, Run.resume]
      cases houtcome : r.outcome with
      | crashed => exact ⟨_, rfl⟩
      | failed => exact ⟨_, rfl⟩
      | returned o =>
        -- The second look finds what the element has been registered with.
        have hregistered := registered_of_returned (hids _ _ hfind) hr houtcome
        obtain ⟨object, hobject⟩ := Option.isSome_iff_exists.mp hregistered
        have hfoundType : (builderSystem p).found (.type (unqualified tid)) r.state =
            some object.typeOf := congrArg (Option.map SourceObject.typeOf) hobject
        have hinvoke : invoke (builderSystem p) (fuel + 1) (.type (unqualified tid)) r.state =
            some ⟨[], .ofAnswer object.typeOf, r.state⟩ := by rw [invoke, hfoundType]
        have hasks : (addQualifiers tid object.typeOf).Asks fun _ => False :=
          asks_addQualifiers tid _
        obtain ⟨r', hr'⟩ : ∃ r', exec (builderSystem p) (invoke (builderSystem p) (fuel + 1))
            (addQualifiers tid object.typeOf) r.state = some r' :=
          exec_halts hasks (fun i hi => hi.elim) _
        show ∃ r₁, (Option.bind
          (invoke (builderSystem p) (fuel + 1) (.type (unqualified tid)) r.state)
          fun r₂ => r₂.resume fun type => exec (builderSystem p) _ (addQualifiers tid type)).map _ =
            some r₁
        rw [hinvoke, Option.bind_some, Run.resume_eq rfl, hr']
        exact ⟨_, rfl⟩

theorem halts_constructorReturn : Enough fun fuel => Halts p fuel .constructorReturn := by
  refine .of_succ fun fuel s => ?_
  rw [invoke]
  split
  · exact ⟨_, rfl⟩
  · exact ⟨_, rfl⟩

/-- Every element comes to an end. -/
theorem halts_element (hids : IdsMatch p) (hacyclic : Acyclic p) (id : Text) :
    ∀ element, getSourceElement p id = some element →
      Enough fun fuel => Halts p fuel (.element element) := by
  induction id using hacyclic.induction with
  | hstep id ih =>
    intro element helement
    have helements : Enough fun fuel => ∀ id' ∈ elementReferences element, ∀ element',
        getSourceElement p id' = some element' → Halts p fuel (.element element') := by
      refine Enough.forall_mem _ fun id' hid' => ?_
      cases hfind : getSourceElement p id' with
      | none => exact ⟨0, fun fuel _ element' h => by cases h⟩
      | some element' =>
        have hrefers : RefersTo p id id' := ⟨element, helement, List.mem_append_left _ hid'⟩
        refine (ih id' hrefers element' hfind).mono fun fuel hfuel element'' h => ?_
        exact Option.some.inj h ▸ hfuel
    have htypes : Enough fun fuel => ∀ tid ∈ typeReferences element, Halts p fuel (.type tid) := by
      refine Enough.forall_mem _ fun tid htid => halts_type hids fun element' hfind => ?_
      have hrefers : RefersTo p id (unqualified tid) :=
        ⟨element, helement, List.mem_append_right _ (List.mem_map_of_mem htid)⟩
      exact ih _ hrefers element' hfind
    have hall := (helements.and htypes).and (halts_constructorReturn (p := p))
    refine hall.step fun fuel hbelow s => ?_
    obtain ⟨⟨helements, htypes⟩, hconstructor⟩ := hbelow
    rw [invoke]
    split
    · exact ⟨_, rfl⟩
    · refine exec_halts asks_addElement (fun i hi => ?_) s
      cases i with
      | element element' =>
        obtain ⟨id', hid', hfind⟩ := hi
        exact helements id' hid' element' hfind
      | type tid => exact htypes tid hi
      | constructorReturn => exact hconstructor

/-- The procedures that the table can ask for. -/
def Known (p : SourceParser) : Procedure → Prop
  | .element element => ∃ id, getSourceElement p id = some element
  | _ => True

theorem known_of_callsOf {element : Element} {i : Procedure} (h : CallsOf p element i) :
    Known p i := by
  cases i with
  | element element' =>
    obtain ⟨id, -, hfind⟩ := h
    exact ⟨id, hfind⟩
  | type tid => trivial
  | constructorReturn => trivial

theorem asks_body (i : Procedure) (hi : Known p i) :
    (body p i).Asks (Known p) := by
  cases i with
  | element element =>
    obtain ⟨id, hfind⟩ := hi
    exact asks_addElement.mono fun i => known_of_callsOf
  | type tid => exact asks_findType (fun element hfind => ⟨_, hfind⟩) trivial
  | constructorReturn => exact (asks_perform _).bind fun _ => asks_pure _

theorem asks_addElements {calls : Procedure → Prop} {elements : List Element}
    (h : ∀ element ∈ elements, calls (.element element)) :
    (addElements elements).Asks calls := by
  induction elements with
  | nil => exact asks_pure _
  | cons element elements ih =>
    have hrest := ih fun element' h' => h element' (List.mem_cons_of_mem _ h')
    refine Asks.bind ((asks_ask _).mpr (h element List.mem_cons_self)) fun o => ?_
    exact (asks_ofOption _).bind fun _ => hrest

/-- The loop over any elements of the table comes to an end. -/
theorem runElements_halts (hids : IdsMatch p) (hacyclic : Acyclic p) {elements : List Element}
    (h : ∀ element ∈ elements, ∃ id, getSourceElement p id = some element) :
    Enough fun fuel => ∃ r, runElements p fuel elements = some r := by
  have hbelow : Enough fun fuel => ∀ element ∈ elements, Halts p fuel (.element element) := by
    refine Enough.forall_mem _ fun element helement => ?_
    obtain ⟨id, hfind⟩ := h element helement
    exact halts_element hids hacyclic id element hfind
  refine hbelow.mono fun fuel hfuel => ?_
  have hasks : (addElements elements).Asks (fun i => ∃ element ∈ elements, i = .element element)
      := asks_addElements fun element helement => ⟨element, helement, rfl⟩
  refine exec_halts hasks ?_ _
  rintro i ⟨element, helement, rfl⟩
  exact hfuel element helement

end Halting

section Documents

/-- The parser after the events of a document. -/
def parsed (events : List Event) : SourceParser := (SourceParser.run events {}).getD {}

variable {p : SourceParser}

/-- A table whose elements do not refer to each other. -/
theorem acyclic_of_dangling (h : ∀ id element, getSourceElement p id = some element →
    ∀ id' ∈ references element, getSourceElement p id' = none) : Acyclic p := by
  have hlast : ∀ id id' id'', RefersTo p id id' → ¬ RefersTo p id' id'' := by
    rintro id id' id'' ⟨element, helement, hmem⟩ ⟨element', helement', -⟩
    rw [h id element helement id' hmem] at helement'
    cases helement'
  intro id hcycle
  obtain ⟨id', hfirst, hrest⟩ := Relation.TransGen.head'_iff.mp hcycle
  rcases Relation.ReflTransGen.cases_head hrest with rfl | ⟨id'', hsecond, -⟩
  · exact hlast id' id' id' hfirst hfirst
  · exact hlast id id' id'' hfirst hsecond

end Documents

end CableSwig.Parsers.ElementReferences
