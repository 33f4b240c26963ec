import CableSwig.Parsers.ElementValues

/-!
# What elements require

What the function for an element asks of the table, in the order in which it asks, and how the
construction of an element can end by that. Nothing here is told by running the functions.
-/
namespace CableSwig.Parsers.ElementRequirements

open CableSwig.GccXml.TypeDump
open CableSwig.Lib.OrderedMap
open CableSwig.Lib.StdString
open CableSwig.Parsers.BasesAttribute (publicIds)
open CableSwig.Parsers.CarriedNumbers (setLength)
open CableSwig.Parsers.ElementReferences
open CableSwig.Parsers.RepresentationBuilder
open CableSwig.Parsers.XmlSourceParser

section Requirements

/-- One thing that a function for an element asks for. -/
inductive Requirement
  | holds (condition : Bool)
  | file (fid : Text)
  | context (id : Text)
  | element (id : Text) (names : List String)
  | inTable (id : Text)
  | type (tid : Text)
  /-- A type whose absence is reported only. -/
  | target (tid : Text)
  | constructorReturn

/-- An attribute that must be there, and what is asked for with its value. -/
def required (value : Option Text) (requirement : Text → Requirement) : List Requirement :=
  match value with
  | none => [.holds false]
  | some id => [requirement id]

def locationRequirements (element : Element) : List Requirement :=
  match getAttribute element.attributes "file", getAttribute element.attributes "line" with
  | some fid, some _ => [.file fid]
  | _, _ =>
    match getAttribute element.attributes "location" with
    | none => []
    | some loc => if ':' ∈ loc then [.file (loc.takeWhile (· ≠ ':'))] else []

/-- An element that is anonymous may have no name, if it is of a kind for which there is one. -/
def namedRequirements (element : Element) (anonymous : Bool) : List Requirement :=
  [.holds ((getAttribute element.attributes "name").isSome || anonymous)] ++
    locationRequirements element ++ [.holds (accessOf element).isSome] ++
    (getAttribute element.attributes "context").toList.map .context

def argumentRequirements : List (String × Attributes) → List Requirement
  | [] => []
  | (name, attributes) :: nested =>
    (if name = "Argument" then required (getAttribute attributes "type") .type
      else if name = "Ellipsis" then [] else [.holds false]) ++ argumentRequirements nested

def returnRequirements (element : Element) : List Requirement :=
  match getAttribute element.attributes "returns" with
  | some returnsId => [.type returnsId]
  | none =>
    if element.name = "Constructor" ∨ element.name = "Destructor" then [.constructorReturn] else []

def functionTypeRequirements (element : Element) : List Requirement :=
  returnRequirements element ++ argumentRequirements element.nested

def baseRequirements (element : Element) : List Requirement :=
  (publicIds ((getAttribute element.attributes "bases").getD [])).flatMap fun id =>
    [.inTable id, .element id classElements]

def classRequirements (element : Element) : List Requirement :=
  namedRequirements element true ++ baseRequirements element

def variableRequirements (element : Element) : List Requirement :=
  namedRequirements element false ++ required (getAttribute element.attributes "type") .type

def functionRequirements (element : Element) (anonymous : Bool) : List Requirement :=
  namedRequirements element anonymous ++ functionTypeRequirements element

def basetypeRequirements (element : Element) : List Requirement :=
  required (getAttribute element.attributes "basetype") fun id => .element id classElements

def targetRequirements (element : Element) : List Requirement :=
  required (getAttribute element.attributes "type") .type

/-- Two attributes that must not both be set. -/
def exclusive (element : Element) (name name' : String) : Requirement :=
  .holds !(isOne element name && isOne element name')

/-- What the function for an element asks for. -/
def requirements (element : Element) : List Requirement :=
  match element.name with
  | "Namespace" => namedRequirements element true
  | "NamespaceAlias" => namedRequirements element false ++
      required (getAttribute element.attributes "namespace") fun id => .element id ["Namespace"]
  | "FundamentalType" => [.holds (getAttribute element.attributes "name").isSome]
  | "PointerType" => targetRequirements element
  | "ReferenceType" => targetRequirements element
  | "ArrayType" => required (getAttribute element.attributes "type") .target ++
      [.holds ((getAttribute element.attributes "max").bind setLength).isSome]
  | "FunctionType" => functionTypeRequirements element
  | "MethodType" => basetypeRequirements element ++ functionTypeRequirements element
  | "OffsetType" => basetypeRequirements element ++ targetRequirements element
  | "Enumeration" => namedRequirements element false ++ [.holds (setupValues element.nested).isSome]
  | "Class" => classRequirements element
  | "Struct" => classRequirements element
  | "Union" => classRequirements element
  | "Typedef" => variableRequirements element
  | "Variable" => variableRequirements element
  | "Field" => variableRequirements element
  | "Function" => functionRequirements element false
  | "Method" => [exclusive element "const" "static", exclusive element "virtual" "static"] ++
      functionRequirements element false
  | "Constructor" => functionRequirements element true
  | "Destructor" => functionRequirements element false
  | "OperatorFunction" => functionRequirements element false
  | "OperatorMethod" => exclusive element "const" "static" :: functionRequirements element false
  | "Converter" => functionRequirements element false
  | _ => [.holds false]

end Requirements

section Endings

/-- How a construction ends: with an object, with a null pointer that is returned, or with the use
of a null pointer. -/
inductive Ending
  | made | rejected | nullUse
  deriving DecidableEq

/-- The ending of what goes on where nothing has been made. -/
def Ending.reported : Ending → Ending
  | .rejected => .made
  | e => e

/-- The ending of an element where its function has ended so. Its `attributes` are set unseen. -/
def Ending.saved (element : Element) : Ending → Ending
  | .rejected =>
    if (getAttribute element.attributes "attributes").isSome then .nullUse else .rejected
  | e => e

/-- Things that are done one after the other, up to the first one that is not made. -/
inductive Sequence {β : Type} (may : β → Ending → Prop) : List β → Ending → Prop
  | nil : Sequence may [] .made
  | stopped {b : β} {bs : List β} {e : Ending} (he : e ≠ .made) (h : may b e) :
    Sequence may (b :: bs) e
  | next {b : β} {bs : List β} {e : Ending} (h : may b .made) (hrest : Sequence may bs e) :
    Sequence may (b :: bs) e

/-- The elements whose objects are types, or have one. -/
def typeElements : List String :=
  ["FundamentalType", "PointerType", "ReferenceType", "ArrayType", "FunctionType", "MethodType",
    "OffsetType", "Typedef", "Enumeration"] ++ classElements

variable (p : SourceParser)

/-- The id of an element that is also that of a qualified type, or one that is made up. -/
def Shadowed (id : Text) : Prop :=
  qualifiers id ≠ ⊥ ∨ ∃ id', (getSourceElement p id').isSome ∧ id = typeId id'

/-- The id of a type for which an object can be there that has been made for something else. -/
def Ambiguous (tid : Text) : Prop :=
  tid = "crt".toList ∨ ((getSourceElement p tid).isSome ∧ unqualified tid ≠ tid) ∨
    ∃ id, (getSourceElement p id).isSome ∧ (tid = typeId id ∨ unqualified tid = typeId id)

/-- Whether the type of an id takes qualifiers. That of a typedef is the one it stands for. -/
inductive MayTakeQualifiers : Text → Bool → Prop
  | ambiguous {tid : Text} {b : Bool} (h : Ambiguous p tid) : MayTakeQualifiers tid b
  | typedef {tid tid' : Text} {b : Bool} {element : Element}
      (hfind : getSourceElement p (unqualified tid) = some element)
      (hname : element.name = "Typedef")
      (htype : getAttribute element.attributes "type" = some tid') (h : MayTakeQualifiers tid' b) :
    MayTakeQualifiers tid b
  | type {tid : Text} {b : Bool} {element : Element}
      (hfind : getSourceElement p (unqualified tid) = some element)
      (hname : element.name ≠ "Typedef")
      (hb : b = decide (element.name ∉ ["ReferenceType", "FunctionType", "MethodType"])) :
    MayTakeQualifiers tid b

mutual

/-- How `AddElementRepresentation` can end for the element with an id. -/
inductive ElementMayEnd : Text → Ending → Prop
  | shadowed {id : Text} {element : Element} (hfind : getSourceElement p id = some element)
      (h : Shadowed p id) : ElementMayEnd id .made
  | construct {id : Text} {e e' : Ending} {element : Element}
      (hfind : getSourceElement p id = some element)
      (h : Sequence RequirementMayEnd (requirements element) e') (he : e = e'.saved element) :
    ElementMayEnd id e

/-- How `GetTypeFromId` can end for an id. -/
inductive TypeMayEnd : Text → Ending → Prop
  | ambiguous {tid : Text} {e : Ending} (h : Ambiguous p tid) (he : e ≠ .nullUse) :
    TypeMayEnd tid e
  | missing {tid : Text} (hfind : getSourceElement p (unqualified tid) = none) :
    TypeMayEnd tid .rejected
  | stopped {tid : Text} {e : Ending} (he : e ≠ .made) (h : ElementMayEnd (unqualified tid) e) :
    TypeMayEnd tid e
  | notType {tid : Text} {e : Ending} {element : Element}
      (hfind : getSourceElement p (unqualified tid) = some element)
      (h : ElementMayEnd (unqualified tid) .made) (hname : element.name ∉ typeElements)
      (he : e = if qualifiers tid = ⊥ then .rejected else .nullUse) : TypeMayEnd tid e
  | type {tid : Text} {e : Ending} {b : Bool} {element : Element}
      (hfind : getSourceElement p (unqualified tid) = some element)
      (h : ElementMayEnd (unqualified tid) .made) (hname : element.name ∈ typeElements)
      (hb : if qualifiers tid = ⊥ then b = true else MayTakeQualifiers p tid b)
      (he : e = if b then .made else .rejected) : TypeMayEnd tid e

/-- How what is asked for can end. -/
inductive RequirementMayEnd : Requirement → Ending → Prop
  | holds {condition : Bool} {e : Ending} (he : e = if condition then .made else .rejected) :
    RequirementMayEnd (.holds condition) e
  | file {fid : Text} {e : Ending}
      (he : e = if (p.fileMap.find stringLess fid).isSome then .made else .nullUse) :
    RequirementMayEnd (.file fid) e
  | contextMissing {id : Text} (hfind : getSourceElement p id = none) :
    RequirementMayEnd (.context id) .made
  | context {id : Text} {e e' : Ending} (h : ElementMayEnd id e') (he : e = e'.reported) :
    RequirementMayEnd (.context id) e
  | elementMissing {id : Text} {names : List String} (hfind : getSourceElement p id = none) :
    RequirementMayEnd (.element id names) .rejected
  | elementStopped {id : Text} {names : List String} {e : Ending} (he : e ≠ .made)
      (h : ElementMayEnd id e) : RequirementMayEnd (.element id names) e
  | element {id : Text} {names : List String} {e : Ending} {element : Element}
      (hfind : getSourceElement p id = some element) (h : ElementMayEnd id .made)
      (he : e = if element.name ∈ names then .made else .rejected) :
    RequirementMayEnd (.element id names) e
  | elementShadowed {id : Text} {names : List String} (h : Shadowed p id) :
    RequirementMayEnd (.element id names) .rejected
  | inTable {id : Text} {e : Ending}
      (he : e = if (getSourceElement p id).isSome then .made else .nullUse) :
    RequirementMayEnd (.inTable id) e
  | type {tid : Text} {e : Ending} (h : TypeMayEnd tid e) : RequirementMayEnd (.type tid) e
  | target {tid : Text} {e e' : Ending} (h : TypeMayEnd tid e') (he : e = e'.reported) :
    RequirementMayEnd (.target tid) e
  | constructorReturn : RequirementMayEnd .constructorReturn .made
  | constructorTaken (h : (getSourceElement p "crt".toList).isSome) :
    RequirementMayEnd .constructorReturn .rejected

end

/-- The elements are visited in the order of their ids. No element that can come to use a null
pointer is visited, as an element before it cannot be made. -/
def NoNullUse : Prop :=
  ∀ id, ElementMayEnd p id .nullUse →
    ∃ id', (getSourceElement p id').isSome ∧ stringLess id' id ∧ ¬ ElementMayEnd p id' .made

/-- No id is also that of something else. -/
structure UnambiguousIds : Prop where
  elements : ∀ id element, getSourceElement p id = some element → ¬ Shadowed p id
  types : ∀ id element, getSourceElement p id = some element →
    ∀ tid ∈ typeReferences element, ¬ Ambiguous p tid

end Endings

section Sequences

variable {β : Type} {may : β → Ending → Prop} {bs bs' : List β} {e e' : Ending}

theorem Sequence.append (h : Sequence may bs .made) (h' : Sequence may bs' e) :
    Sequence may (bs ++ bs') e := by
  induction bs with
  | nil => exact h'
  | cons b bs ih =>
    cases h with
    | stopped he => exact absurd rfl he
    | next h hrest => exact .next h (ih hrest)

theorem Sequence.append_stopped (h : Sequence may bs e) (he : e ≠ .made) :
    Sequence may (bs ++ bs') e := by
  induction bs with
  | nil =>
    cases h
    exact absurd rfl he
  | cons b bs ih =>
    cases h with
    | stopped he h => exact .stopped he h
    | next h hrest => exact .next h (ih hrest)

theorem sequence_made (h : ∀ b ∈ bs, may b .made) : Sequence may bs .made := by
  induction bs with
  | nil => exact .nil
  | cons b bs ih =>
    obtain ⟨hb, hbs⟩ := List.forall_mem_cons.mp h
    exact .next hb (ih hbs)

theorem sequence_singleton {b : β} (h : may b e) : Sequence may [b] e := by
  by_cases he : e = .made
  · subst he
    exact .next h .nil
  · exact .stopped he h

theorem Sequence.unique (hmay : ∀ b ∈ bs, ∀ e e', may b e → may b e' → e = e')
    (h : Sequence may bs e) (h' : Sequence may bs e') : e = e' := by
  induction h with
  | nil =>
    cases h'
    rfl
  | stopped he h =>
    cases h' with
    | stopped he' h' => exact hmay _ List.mem_cons_self _ _ h h'
    | next h' => exact absurd (hmay _ List.mem_cons_self _ _ h h') he
  | next h hrest ih =>
    cases h' with
    | stopped he' h' => exact absurd (hmay _ List.mem_cons_self _ _ h' h) he'
    | next h' hrest' => exact ih (fun b hb => hmay b (List.mem_cons_of_mem _ hb)) hrest'

/-- The things before the one that is not made have been made. -/
theorem Sequence.split (h : Sequence may bs e) (he : e ≠ .made) :
    ∃ before b after, bs = before ++ b :: after ∧ (∀ b' ∈ before, may b' .made) ∧ may b e := by
  induction h with
  | nil => exact absurd rfl he
  | stopped _ h => exact ⟨[], _, _, rfl, by simp, h⟩
  | next h _ ih =>
    obtain ⟨before, b, after, rfl, hbefore, hb⟩ := ih he
    exact ⟨_ :: before, b, after, rfl, List.forall_mem_cons.mpr ⟨h, hbefore⟩, hb⟩

end Sequences

section Unique

variable {p : SourceParser} {element : Element}

/-- What is asked for is something that the element refers to. -/
def Asked (element : Element) : Requirement → Prop
  | .context id | .element id _ => id ∈ elementReferences element
  | .type tid | .target tid => tid ∈ typeReferences element
  | _ => True

theorem asked_required {value : Option Text} {requirement : Text → Requirement}
    (h : ∀ id, value = some id → Asked element (requirement id)) :
    ∀ r ∈ required value requirement, Asked element r := by
  cases value with
  | none => simp [required, Asked]
  | some id => simpa [required] using h id rfl

theorem mem_elementReferences {name : String} {id : Text}
    (hname : name ∈ elementAttributes element.name)
    (hid : getAttribute element.attributes name = some id) : id ∈ elementReferences element :=
  List.mem_append_left _ (List.mem_filterMap.mpr ⟨name, hname, hid⟩)

theorem mem_typeReferences {name : String} {tid : Text}
    (hname : name ∈ typeAttributes element.name)
    (htid : getAttribute element.attributes name = some tid) : tid ∈ typeReferences element :=
  List.mem_append_left _ (List.mem_filterMap.mpr ⟨name, hname, htid⟩)

theorem asked_location : ∀ r ∈ locationRequirements element, Asked element r := by
  unfold locationRequirements
  split
  · simp [Asked]
  · split
    · simp
    · split <;> simp [Asked]

theorem asked_named (h : element.name ∈ namedElements) (anonymous : Bool) :
    ∀ r ∈ namedRequirements element anonymous, Asked element r := by
  simp only [namedRequirements, List.forall_mem_append]
  refine ⟨⟨⟨by simp [Asked], asked_location⟩, by simp [Asked]⟩, fun r hr => ?_⟩
  obtain ⟨id, hid, rfl⟩ := List.mem_map.mp hr
  exact mem_elementReferences (by simp [elementAttributes, h]) (Option.mem_toList.mp hid)

theorem asked_target (h : "type" ∈ typeAttributes element.name) :
    ∀ r ∈ targetRequirements element, Asked element r :=
  asked_required fun _ => mem_typeReferences h

theorem asked_basetype (h : "basetype" ∈ elementAttributes element.name) :
    ∀ r ∈ basetypeRequirements element, Asked element r :=
  asked_required fun _ => mem_elementReferences h

theorem asked_arguments {nested : List (String × Attributes)}
    (h : ∀ tid ∈ argumentTypes nested, tid ∈ typeReferences element) :
    ∀ r ∈ argumentRequirements nested, Asked element r := by
  induction nested with
  | nil => simp [argumentRequirements]
  | cons argument nested ih =>
    obtain ⟨name, attributes⟩ := argument
    simp only [argumentRequirements, List.forall_mem_append]
    refine ⟨?_, ih fun tid htid => h tid ?_⟩
    · split_ifs with hname
      · refine asked_required fun tid htid => h tid ?_
        simp [argumentTypes, hname, htid]
      · simp
      · simp [Asked]
    · rw [argumentTypes, List.filterMap_cons]
      split
      · exact htid
      · exact List.mem_cons_of_mem _ htid

theorem asked_functionType
    (h : element.name ∈ ["FunctionType", "MethodType"] ++ functionElements) :
    ∀ r ∈ functionTypeRequirements element, Asked element r := by
  simp only [functionTypeRequirements, List.forall_mem_append]
  refine ⟨?_, asked_arguments fun tid htid => ?_⟩
  · unfold returnRequirements
    split
    · rename_i returnsId hreturns
      have hmem : returnsId ∈ typeReferences element := by
        refine mem_typeReferences ?_ hreturns
        rw [typeAttributes, if_pos h]
        simp
      simpa [Asked] using hmem
    · split <;> simp [Asked]
  · rw [typeReferences, if_pos h]
    exact List.mem_append_right _ htid

theorem asked_bases (h : element.name ∈ classElements) :
    ∀ r ∈ baseRequirements element, Asked element r := by
  intro r hr
  obtain ⟨id, hid, hr⟩ := List.mem_flatMap.mp hr
  rcases List.mem_pair.mp hr with rfl | rfl
  · trivial
  · refine List.mem_append_right _ ?_
    rw [if_pos h]
    exact hid

theorem asked_class (h : element.name ∈ classElements) :
    ∀ r ∈ classRequirements element, Asked element r :=
  List.forall_mem_append.mpr ⟨asked_named (by simp [namedElements, h]) _, asked_bases h⟩

theorem asked_variable (h : element.name ∈ namedElements)
    (h' : "type" ∈ typeAttributes element.name) :
    ∀ r ∈ variableRequirements element, Asked element r :=
  List.forall_mem_append.mpr ⟨asked_named h _, asked_target h'⟩

theorem asked_function (h : element.name ∈ functionElements) (anonymous : Bool) :
    ∀ r ∈ functionRequirements element anonymous, Asked element r :=
  List.forall_mem_append.mpr
    ⟨asked_named (by simp [namedElements, h]) _, asked_functionType (by simp [h])⟩

/-- An element asks for nothing but what it refers to. -/
theorem asked_requirements : ∀ r ∈ requirements element, Asked element r := by
  unfold requirements
  split <;> rename_i h
  · exact asked_named (by simp [h, namedElements]) _
  · refine List.forall_mem_append.mpr ⟨asked_named (by simp [h, namedElements]) _, ?_⟩
    exact asked_required fun _ => mem_elementReferences (by simp [h, elementAttributes])
  · simp [Asked]
  · exact asked_target (by simp [h, typeAttributes])
  · exact asked_target (by simp [h, typeAttributes])
  · refine List.forall_mem_append.mpr ⟨?_, by simp [Asked]⟩
    exact asked_required fun _ => mem_typeReferences (by simp [h, typeAttributes])
  · exact asked_functionType (by simp [h])
  · exact List.forall_mem_append.mpr
      ⟨asked_basetype (by simp [h, elementAttributes]), asked_functionType (by simp [h])⟩
  · exact List.forall_mem_append.mpr
      ⟨asked_basetype (by simp [h, elementAttributes]), asked_target (by simp [h, typeAttributes])⟩
  · exact List.forall_mem_append.mpr
      ⟨asked_named (by simp [h, namedElements]) _, by simp [Asked]⟩
  · exact asked_class (by simp [h, classElements])
  · exact asked_class (by simp [h, classElements])
  · exact asked_class (by simp [h, classElements])
  · exact asked_variable (by simp [h, namedElements]) (by simp [h, typeAttributes])
  · exact asked_variable (by simp [h, namedElements]) (by simp [h, typeAttributes])
  · exact asked_variable (by simp [h, namedElements]) (by simp [h, typeAttributes])
  · exact asked_function (by simp [h, functionElements]) _
  · refine List.forall_mem_append.mpr ⟨by simp [exclusive, Asked], ?_⟩
    exact asked_function (by simp [h, functionElements]) _
  · exact asked_function (by simp [h, functionElements]) _
  · exact asked_function (by simp [h, functionElements]) _
  · exact asked_function (by simp [h, functionElements]) _
  · refine List.forall_mem_cons.mpr ⟨trivial, ?_⟩
    exact asked_function (by simp [h, functionElements]) _
  · exact asked_function (by simp [h, functionElements]) _
  · simp [Asked]

theorem ElementMayEnd.exists_element {id : Text} {e : Ending} (h : ElementMayEnd p id e) :
    ∃ element, getSourceElement p id = some element := by
  cases h with
  | shadowed hfind => exact ⟨_, hfind⟩
  | construct hfind => exact ⟨_, hfind⟩

theorem mayTakeQualifiers_unique (hids : UnambiguousIds p) (hacyclic : Acyclic p) (id : Text) :
    ∀ tid b b', unqualified tid = id → ¬ Ambiguous p tid → MayTakeQualifiers p tid b →
      MayTakeQualifiers p tid b' → b = b' := by
  induction id using hacyclic.induction with
  | hstep id ih =>
    rintro tid b b' rfl hnot h h'
    cases h with
    | ambiguous h => exact absurd h hnot
    | typedef hfind hname htype h =>
      rename_i tid₁ element
      cases h' with
      | ambiguous h' => exact absurd h' hnot
      | typedef hfind' _ htype' h' =>
        obtain rfl := Option.some.inj (hfind.symm.trans hfind')
        obtain rfl := Option.some.inj (htype.symm.trans htype')
        have hmem : tid₁ ∈ typeReferences element :=
          mem_typeReferences (by simp [hname, typeAttributes]) htype
        have hrefers : RefersTo p (unqualified tid) (unqualified tid₁) :=
          ⟨element, hfind, List.mem_append_right _ (List.mem_map_of_mem hmem)⟩
        exact ih _ hrefers _ _ _ rfl (hids.types _ _ hfind _ hmem) h h'
      | type hfind' hname' =>
        obtain rfl := Option.some.inj (hfind.symm.trans hfind')
        exact absurd hname hname'
    | type hfind hname hb =>
      cases h' with
      | ambiguous h' => exact absurd h' hnot
      | typedef hfind' hname' =>
        obtain rfl := Option.some.inj (hfind.symm.trans hfind')
        exact absurd hname' hname
      | type hfind' _ hb' =>
        obtain rfl := Option.some.inj (hfind.symm.trans hfind')
        rw [hb, hb']

theorem typeMayEnd_unique {tid : Text} (hnot : ¬ Ambiguous p tid)
    (htakes : ∀ b b', MayTakeQualifiers p tid b → MayTakeQualifiers p tid b' → b = b')
    (helement : ∀ e e', ElementMayEnd p (unqualified tid) e →
      ElementMayEnd p (unqualified tid) e' → e = e') {e e' : Ending}
    (h : TypeMayEnd p tid e) (h' : TypeMayEnd p tid e') : e = e' := by
  cases h with
  | ambiguous h => exact absurd h hnot
  | missing hfind =>
    cases h' with
    | ambiguous h' => exact absurd h' hnot
    | missing => rfl
    | stopped he' h' =>
      obtain ⟨element, hfind'⟩ := h'.exists_element
      simp [hfind] at hfind'
    | notType hfind' => simp [hfind] at hfind'
    | type hfind' => simp [hfind] at hfind'
  | stopped he h =>
    cases h' with
    | ambiguous h' => exact absurd h' hnot
    | missing hfind' =>
      obtain ⟨element, hfind⟩ := h.exists_element
      simp [hfind] at hfind'
    | stopped _ h' => exact helement _ _ h h'
    | notType _ h' => exact absurd (helement _ _ h h') he
    | type _ h' => exact absurd (helement _ _ h h') he
  | notType hfind h hname he =>
    cases h' with
    | ambiguous h' => exact absurd h' hnot
    | missing hfind' => simp [hfind] at hfind'
    | stopped he' h' => exact absurd (helement _ _ h' h) he'
    | notType _ _ _ he' => rw [he, he']
    | type hfind' _ hname' =>
      obtain rfl := Option.some.inj (hfind.symm.trans hfind')
      exact absurd hname' hname
  | type hfind h hname hb he =>
    cases h' with
    | ambiguous h' => exact absurd h' hnot
    | missing hfind' => simp [hfind] at hfind'
    | stopped he' h' => exact absurd (helement _ _ h' h) he'
    | notType hfind' _ hname' =>
      obtain rfl := Option.some.inj (hfind.symm.trans hfind')
      exact absurd hname hname'
    | type _ _ _ hb' he' =>
      rw [he, he']
      split at hb
      · rw [if_pos ‹_›] at hb'
        rw [hb, hb']
      · rw [if_neg ‹_›] at hb'
        rw [htakes _ _ hb hb']

variable (hids : UnambiguousIds p) (hacyclic : Acyclic p)
include hids hacyclic

/-- A requirement of an element ends in one way only, if the elements do that it refers to. -/
theorem requirementMayEnd_unique {id : Text} (hfind : getSourceElement p id = some element)
    (helements : ∀ id ∈ references element, ∀ e e', ElementMayEnd p id e →
      ElementMayEnd p id e' → e = e') {r : Requirement} (hr : Asked element r) {e e' : Ending}
    (h : RequirementMayEnd p r e) (h' : RequirementMayEnd p r e') : e = e' := by
  have htypes : ∀ tid ∈ typeReferences element, ∀ e e', TypeMayEnd p tid e →
      TypeMayEnd p tid e' → e = e' := by
    intro tid htid e e' h h'
    have hnot := hids.types _ _ hfind tid htid
    have hmem : unqualified tid ∈ references element :=
      List.mem_append_right _ (List.mem_map_of_mem htid)
    refine typeMayEnd_unique hnot (fun b b' hb hb' => ?_) (helements _ hmem) h h'
    exact mayTakeQualifiers_unique hids hacyclic _ tid b b' rfl hnot hb hb'
  have hcalled : ∀ id ∈ elementReferences element, ∀ e e', ElementMayEnd p id e →
      ElementMayEnd p id e' → e = e' := fun id hid => helements id (List.mem_append_left _ hid)
  cases h with
  | holds he =>
    cases h' with
    | holds he' => rw [he, he']
  | file he =>
    cases h' with
    | file he' => rw [he, he']
  | contextMissing hmissing =>
    cases h' with
    | contextMissing => rfl
    | context h' =>
      obtain ⟨element, hfind'⟩ := h'.exists_element
      simp [hmissing] at hfind'
  | context h he =>
    cases h' with
    | contextMissing hmissing =>
      obtain ⟨element, hfind'⟩ := h.exists_element
      simp [hmissing] at hfind'
    | context h' he' => rw [he, he', hcalled _ hr _ _ h h']
  | elementMissing hmissing =>
    cases h' with
    | elementMissing => rfl
    | elementStopped _ h' =>
      obtain ⟨element, hfind'⟩ := h'.exists_element
      simp [hmissing] at hfind'
    | element hfind' => simp [hmissing] at hfind'
    | elementShadowed => rfl
  | elementStopped he h =>
    obtain ⟨element', hfind'⟩ := h.exists_element
    cases h' with
    | elementMissing hmissing => simp [hmissing] at hfind'
    | elementStopped _ h' => exact hcalled _ hr _ _ h h'
    | element _ h' => exact absurd (hcalled _ hr _ _ h h') he
    | elementShadowed h' => exact absurd h' (hids.elements _ _ hfind')
  | element hfound h he =>
    cases h' with
    | elementMissing hmissing => simp [hmissing] at hfound
    | elementStopped he' h' => exact absurd (hcalled _ hr _ _ h' h) he'
    | element hfound' _ he' =>
      obtain rfl := Option.some.inj (hfound.symm.trans hfound')
      rw [he, he']
    | elementShadowed h' => exact absurd h' (hids.elements _ _ hfound)
  | elementShadowed h =>
    cases h' with
    | elementMissing => rfl
    | elementStopped _ h' =>
      obtain ⟨element', hfind'⟩ := h'.exists_element
      exact absurd h (hids.elements _ _ hfind')
    | element hfound => exact absurd h (hids.elements _ _ hfound)
    | elementShadowed => rfl
  | inTable he =>
    cases h' with
    | inTable he' => rw [he, he']
  | type h =>
    cases h' with
    | type h' => exact htypes _ hr _ _ h h'
  | target h he =>
    cases h' with
    | target h' he' => rw [he, he', htypes _ hr _ _ h h']
  | constructorReturn =>
    cases h' with
    | constructorReturn => rfl
    | constructorTaken h' =>
      obtain ⟨element', hfind'⟩ := Option.isSome_iff_exists.mp h'
      exact absurd (Or.inl (by decide)) (hids.elements _ _ hfind')
  | constructorTaken h =>
    obtain ⟨element', hfind'⟩ := Option.isSome_iff_exists.mp h
    exact absurd (Or.inl (by decide)) (hids.elements _ _ hfind')

/-- Where no id is that of something else, the table tells how the construction of an element
ends. -/
theorem elementMayEnd_unique (id : Text) : ∀ e e', ElementMayEnd p id e → ElementMayEnd p id e' →
    e = e' := by
  induction id using hacyclic.induction with
  | hstep id ih =>
    intro e e' h h'
    cases h with
    | shadowed hfind h => exact absurd h (hids.elements _ _ hfind)
    | construct hfind h he =>
      cases h' with
      | shadowed hfind' h' => exact absurd h' (hids.elements _ _ hfind')
      | construct hfind' h' he' =>
        obtain rfl := Option.some.inj (hfind.symm.trans hfind')
        have hreferences := fun id' hid' => ih id' ⟨_, hfind, hid'⟩
        rw [he, he', h.unique (fun r hr _ _ => requirementMayEnd_unique hids hacyclic hfind
          hreferences (asked_requirements r hr)) h']

end Unique

section Guarded

variable {p : SourceParser}

/-- What is not checked on the way to a null pointer is there: files and base classes are in the
table, what is referred to with qualifiers is a type, and no `attributes` are set. -/
structure Guarded (p : SourceParser) (element : Element) : Prop where
  file : ∀ fid, .file fid ∈ requirements element → (p.fileMap.find stringLess fid).isSome
  inTable : ∀ id, .inTable id ∈ requirements element → (getSourceElement p id).isSome
  type : ∀ tid ∈ typeReferences element, qualifiers tid ≠ ⊥ →
    ∀ element', getSourceElement p (unqualified tid) = some element' →
      element'.name ∈ typeElements
  attributes : getAttribute element.attributes "attributes" = none

theorem Ending.reported_eq_nullUse {e : Ending} (h : e.reported = .nullUse) : e = .nullUse := by
  cases e with
  | made | rejected => cases h
  | nullUse => rfl

theorem Guarded.type_not_nullUse {element : Element} (h : Guarded p element) {tid : Text}
    (htid : tid ∈ typeReferences element)
    (helement : ¬ ElementMayEnd p (unqualified tid) .nullUse) : ¬ TypeMayEnd p tid .nullUse := by
  intro hend
  cases hend with
  | ambiguous _ he => exact he rfl
  | stopped _ hend => exact helement hend
  | notType hfind _ hname he =>
    by_cases hquals : qualifiers tid = ⊥
    · rw [if_pos hquals] at he
      cases he
    · exact hname (h.type tid htid hquals _ hfind)
  | type _ _ _ _ he => split at he <;> cases he

theorem Guarded.requirement_not_nullUse {element : Element} (h : Guarded p element)
    (hreferences : ∀ id ∈ references element, ¬ ElementMayEnd p id .nullUse) {r : Requirement}
    (hr : r ∈ requirements element) : ¬ RequirementMayEnd p r .nullUse := by
  have hasked := asked_requirements r hr
  have htypes : ∀ tid ∈ typeReferences element, ¬ TypeMayEnd p tid .nullUse := fun tid htid =>
    h.type_not_nullUse htid
      (hreferences _ (List.mem_append_right _ (List.mem_map_of_mem htid)))
  have hcalled : ∀ id ∈ elementReferences element, ¬ ElementMayEnd p id .nullUse :=
    fun id hid => hreferences id (List.mem_append_left _ hid)
  intro hend
  cases hend with
  | holds he => split at he <;> cases he
  | file he =>
    rw [if_pos (h.file _ hr)] at he
    cases he
  | context hend he => exact hcalled _ hasked (Ending.reported_eq_nullUse he.symm ▸ hend)
  | elementStopped _ hend => exact hcalled _ hasked hend
  | element _ _ he => split at he <;> cases he
  | inTable he =>
    rw [if_pos (h.inTable _ hr)] at he
    cases he
  | type hend => exact htypes _ hasked hend
  | target hend he => exact htypes _ hasked (Ending.reported_eq_nullUse he.symm ▸ hend)

/-- A table of guarded elements leads to no use of a null pointer. -/
theorem noNullUse_of_guarded (hacyclic : Acyclic p)
    (h : ∀ id element, getSourceElement p id = some element → Guarded p element) :
    NoNullUse p := by
  have hnone : ∀ id, ¬ ElementMayEnd p id .nullUse := by
    intro id
    induction id using hacyclic.induction with
    | hstep id ih =>
      intro hend
      cases hend with
      | @construct _ _ e _ hfind hsequence he =>
        have hguarded := h _ _ hfind
        have hnull : e = .nullUse := by
          cases e with
          | made => cases he
          | rejected => simp [Ending.saved, hguarded.attributes] at he
          | nullUse => rfl
        subst hnull
        obtain ⟨before, r, after, hsplit, -, hr⟩ := hsequence.split (by simp)
        refine hguarded.requirement_not_nullUse (fun id' hid' => ih id' ⟨_, hfind, hid'⟩) ?_ hr
        exact hsplit ▸ List.mem_append_right _ List.mem_cons_self
  exact fun id hend => absurd hend (hnone id)

end Guarded

end CableSwig.Parsers.ElementRequirements
