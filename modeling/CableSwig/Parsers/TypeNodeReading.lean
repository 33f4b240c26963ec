import CableSwig.Parsers.DeclarationReading

/-!
# Reading the elements of types

The object that the parser makes of a type node, from the element with all attributes.
-/
namespace CableSwig.Parsers.TypeNodeReading

open CableSwig.GccXml.DeclarationAttributes
open CableSwig.GccXml.DeclarationDump
open CableSwig.GccXml.EscapeString
open CableSwig.GccXml.TypeDump (Element getAttribute nodeId)
open CableSwig.Lib.Numerals
open CableSwig.Lib.Procedures
open CableSwig.Lib.Procedures.Program
open CableSwig.Lib.StdString
open CableSwig.Parsers.CarriedNumbers
open CableSwig.Parsers.DeclarationReading
open CableSwig.Parsers.ElementValues
open CableSwig.Parsers.ElementReferences
open CableSwig.Parsers.RepresentationBuilder
open CableSwig.Parsers.XmlSourceParser (SourceParser)

section Objects

variable (types : TypeRef → SourceType)

/-- The types and names of the arguments of a function type, which have no declarations. -/
def argumentsFor (argTypes : List ArgType) : List SourceType × ArgumentNames :=
  collected types (printedArguments [] argTypes)

/-- The type for a type node. What is printed of the qualifiers of `this` is not read. -/
def typeFor : TypeShape → SourceType
  | .fundamental name => .fundamentalType (name.getD []) ⊥
  | .pointer target => .pointerType (types target) ⊥
  | .reference target => .referenceType (types target)
  | .array length element => .arrayType (types element) (readLength length) ⊥
  | .function returns argTypes _ =>
    .functionType (types returns) (argumentsFor types argTypes).1 (argumentsFor types argTypes).2
  | .method basetype returns _ argTypes _ =>
    .methodType (nodeId basetype) (types returns) (argumentsFor types argTypes).1
      (argumentsFor types argTypes).2
  | .offset basetype type => .offsetType (nodeId basetype) (types type) ⊥

/-- The types that a type node refers to. -/
def shapeRefs : TypeShape → List TypeRef
  | .fundamental _ => []
  | .pointer target | .reference target => [target]
  | .array _ element => [element]
  | .function returns argTypes _ | .method _ returns _ argTypes _ =>
    returns :: argTypes.map ArgType.value
  | .offset _ type => [type]

def shapeBasetype : TypeShape → Option Nat
  | .method basetype _ _ _ _ | .offset basetype _ => some basetype
  | _ => none

def nodeChanges (t : TypeNode) : List Change :=
  if t.attributes = [] then []
  else [.setAttributes (nodeId t.index) (attributesText t.attributes)]

/-- Everything that the parser looks up for a type node is there. Some fundamental types have no
names; these are not read. -/
structure ResolvedType (p : SourceParser) (V : Text → Outcome SourceObject)
    (types : TypeRef → SourceType) (t : TypeNode) : Prop where
  attributes : Printable (attributesText t.attributes)
  name : ∀ n, t.shape = .fundamental n → ∃ name, n = some name ∧ Printable name
  type : ∀ ref ∈ shapeRefs t.shape,
    valueOf p V (.type (xmlPrintTypeIdref ref)) = .returned (types ref)
  basetype : ∀ c ∈ shapeBasetype t.shape, IsClass p V (nodeId c)

end Objects

section Reading

variable {p : SourceParser} {V : Text → Outcome SourceObject} {types : TypeRef → SourceType}
  {e : Element} {t : TypeNode}

/-- The digits have nothing to escape. -/
theorem simple_arrayMax (length : Option Nat) : Simple (arrayMax length) := by
  cases length with
  | none => exact simple_of_all (by decide)
  | some length =>
    have hhexadecimal : ∀ n, Simple (Nat.toDigits 16 n) :=
      simple_toDigits (by decide) (by decide)
    rw [arrayMax, xmlPrintMax, ppIntegerConstant]
    refine Simple.append ?_ (simple_of_all (by decide))
    split
    · exact simple_decimal _
    · refine Simple.append (Simple.append (simple_of_all (by decide)) (hhexadecimal _)) ?_
      intro c hc
      rcases List.mem_append.mp hc with hc | hc
      · exact simple_of_all (s := ['0']) (by decide) c
          (List.mem_singleton.mpr (List.eq_of_mem_replicate hc))
      · exact hhexadecimal _ c hc

theorem mem_printedArguments_nil {a : Option Parm × ArgType} {tls : List ArgType}
    (h : a ∈ printedArguments [] tls) : a.1 = none ∧ a.2 ∈ tls := by
  induction tls with
  | nil => cases h
  | cons tl tls ih =>
    rcases List.mem_cons.mp h with rfl | h
    · exact ⟨rfl, List.mem_cons_self⟩
    · exact ⟨(ih h).1, List.mem_cons_of_mem _ (ih h).2⟩

variable (he : Carries e (xmlOutputTypeNode t)) (ht : ResolvedType p V types t)
include he

theorem carries_shape {n : String}
    (h : n ∉ ["id", "attributes", "const", "volatile", "size", "align"]) :
    getAttribute e.attributes n =
      (getAttribute (shapeAttributes t.shape) n).map attributeValue := by
  rw [he.attributes, getAttribute_shape t h]

include ht

theorem yields_target {ref : TypeRef} (hmem : ref ∈ shapeRefs t.shape)
    (hattribute : getAttribute (shapeAttributes t.shape) "type" = some (xmlPrintTypeIdref ref)) :
    Yields (valueOf p V) (getTarget e.attributes) (types ref) [] := by
  refine yields_getTarget ?_ (ht.type ref hmem)
  rw [carries_shape he (by decide), hattribute, Option.map_some,
    attributeValue_simple (simple_typeIdref _)]

/-- The types of the arguments, with what is returned. -/
theorem yields_functionType {returns : TypeRef} {argTypes : List ArgType} {voidTerminated : Bool}
    (hrefs : ∀ ref ∈ returns :: argTypes.map ArgType.value, ref ∈ shapeRefs t.shape)
    (hattribute : getAttribute (shapeAttributes t.shape) "returns" =
      some (xmlPrintTypeIdref returns))
    (hnested : (xmlOutputTypeNode t).nested = outputArgTypes argTypes voidTerminated) :
    Yields (valueOf p V) (setupFunctionType e) (types returns, argumentsFor types argTypes) [] := by
  have hreturns : Yields (valueOf p V) (getReturns e) (types returns) [] := by
    have hcarried : getAttribute e.attributes "returns" = some (xmlPrintTypeIdref returns) := by
      rw [carries_shape he (by decide), hattribute, Option.map_some,
        attributeValue_simple (simple_typeIdref _)]
    rw [getReturns, hcarried]
    exact yields_requireType (ht.type returns (hrefs _ List.mem_cons_self))
  have harguments : Yields (valueOf p V) (setupArguments e.nested) (argumentsFor types argTypes)
      [] := by
    have hcarried := he.nested
    rw [hnested] at hcarried
    refine yields_setupArguments voidTerminated (outputArguments_eq [] argTypes) hcarried
      (fun a ha => ?_) fun a ha => ht.type _ (hrefs _ ?_)
    · obtain ⟨hnone, -⟩ := mem_printedArguments_nil ha
      rw [argumentName, argumentAttributes, hnone]
      exact ⟨fun t ht => (by cases ht), fun c hc => (by cases hc)⟩
    · obtain ⟨hnone, hmem⟩ := mem_printedArguments_nil ha
      rw [argumentType, hnone]
      exact List.mem_cons_of_mem _ (List.mem_map_of_mem hmem)
  exact hreturns.then (harguments.then (yields_pure _))

omit ht in
/-- The class that the `basetype` attribute refers to. -/
theorem yields_getBasetype (hids : IdsMatch p) {c : Nat} (hc : IsClass p V (nodeId c))
    (hattribute : getAttribute (shapeAttributes t.shape) "basetype" = some (nodeId c)) :
    Yields (valueOf p V) (getBasetype p e) (nodeId c) [] := by
  have hcarried : getAttribute e.attributes "basetype" = some (nodeId c) := by
    rw [carries_shape he (by decide), hattribute, Option.map_some,
      attributeValue_simple (simple_nodeId _)]
  obtain ⟨element, o, hfind, hvalue, hasClass⟩ := hc
  obtain ⟨helement, hyields⟩ := yields_element hids hcarried hfind hvalue
  exact (yields_ofOption helement).then (hyields.then (yields_ofOption hasClass))

theorem yields_typeNode (hids : IdsMatch p) :
    Yields (valueOf p V) (construct p (nodeId t.index) e) (.type (typeFor types t.shape)) [] := by
  have hname : e.name = t.shape.name := he.name
  cases hshape : t.shape with
  | fundamental n =>
    obtain ⟨name, rfl, hprintable⟩ := ht.name n hshape
    have hcarried : getAttribute e.attributes "name" = some name := by
      rw [carries_shape he (by decide), hshape, shapeAttributes, getAttribute_printed, if_pos rfl,
        Option.map_some, Option.map_some, attributeValue_escape hprintable]
    simp only [construct, hname, hshape, TypeShape.name]
    exact (yields_ofOption hcarried).then (yields_register _ _)
  | pointer target =>
    simp only [construct, hname, hshape, TypeShape.name]
    refine (yields_target he ht ?_ ?_).then (yields_register _ _)
    · simp [hshape, shapeRefs]
    · rw [hshape]; rfl
  | reference target =>
    simp only [construct, hname, hshape, TypeShape.name]
    refine (yields_target he ht ?_ ?_).then (yields_register _ _)
    · simp [hshape, shapeRefs]
    · rw [hshape]; rfl
  | array length element =>
    have hshapeAttribute : ∀ {n v},
        getAttribute (shapeAttributes (.array length element)) n = some v →
        n ∉ ["id", "attributes", "const", "volatile", "size", "align"] →
        getAttribute e.attributes n = some (attributeValue v) := by
      intro n v hv hn
      rw [carries_shape he hn, hshape, hv, Option.map_some]
    have htype := hshapeAttribute (n := "type") rfl (by decide)
    have hmax := hshapeAttribute (n := "max") rfl (by decide)
    rw [attributeValue_simple (simple_typeIdref _)] at htype
    rw [attributeValue_simple (simple_arrayMax _)] at hmax
    have helement : valueOf p V (.type (xmlPrintTypeIdref element)) = .returned (types element) :=
      ht.type element (by simp [hshape, shapeRefs])
    simp only [construct, hname, hshape, TypeShape.name]
    refine (yields_ofOption htype).then ((yields_ask helement).then ?_)
    exact (yields_ofOption hmax).then
      ((yields_ofOption (setLength_arrayMax length)).then (yields_register _ _))
  | function returns argTypes voidTerminated =>
    have hsetup : Yields (valueOf p V) (setupFunctionType e)
        (types returns, argumentsFor types argTypes) [] :=
      yields_functionType he ht (by simp [hshape, shapeRefs]) (by rw [hshape]; rfl)
        (show _ = outputArgTypes argTypes voidTerminated by simp only [xmlOutputTypeNode, hshape])
    simp only [construct, hname, hshape, TypeShape.name]
    refine Yields.then (a := typeFor types (.function returns argTypes voidTerminated)) ?_
      (yields_register _ _)
    exact hsetup.then (yields_pure _)
  | method basetype returns quals argTypes voidTerminated =>
    have hsetup : Yields (valueOf p V) (setupFunctionType e)
        (types returns, argumentsFor types argTypes) [] :=
      yields_functionType he ht (by simp [hshape, shapeRefs]) (by rw [hshape]; rfl)
        (show _ = outputArgTypes argTypes voidTerminated by simp only [xmlOutputTypeNode, hshape])
    have hclass : IsClass p V (nodeId basetype) :=
      ht.basetype basetype (by simp [hshape, shapeBasetype])
    have hbasetype := yields_getBasetype he hids hclass (by rw [hshape]; rfl)
    simp only [construct, hname, hshape, TypeShape.name]
    exact hbasetype.then (hsetup.then (yields_register _ _))
  | offset basetype type =>
    have hclass : IsClass p V (nodeId basetype) :=
      ht.basetype basetype (by simp [hshape, shapeBasetype])
    have hbasetype := yields_getBasetype he hids hclass (by rw [hshape]; rfl)
    simp only [construct, hname, hshape, TypeShape.name]
    refine hbasetype.then ((yields_target he ht ?_ ?_).then (yields_register _ _))
    · simp [hshape, shapeRefs]
    · rw [hshape]; rfl

/-- The object is the type node, and the changes are those for it. -/
theorem denoteElement_typeNode (hids : IdsMatch p) :
    (denoteElement p V e).1 = .returned (.type (typeFor types t.shape)) ∧
      (denoteElement p V e).2.filterMap changed = nodeChanges t := by
  have hid : getAttribute e.attributes "id" = some (nodeId t.index) := by
    rw [he.attributes, getAttribute_typeNode_id, Option.map_some,
      attributeValue_simple (simple_nodeId _)]
  have hattributes : getAttribute e.attributes "attributes" =
      if t.attributes = [] then none else some (attributesText t.attributes) := by
    rw [he.attributes, getAttribute_typeNode_attributes, attributeTexts_eq]
    split
    · rfl
    · rw [Option.map_some, attributeValue_escape ht.attributes]
  have hadd := yields_addElement hid hattributes (yields_typeNode he ht hids)
  exact ⟨hadd.returned, hadd.changes⟩

end Reading

end CableSwig.Parsers.TypeNodeReading
