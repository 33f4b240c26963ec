import CableSwig.CxxTypes.Terms
import CableSwig.Lib.StdString
import CableSwig.Parsers.CarriedNumbers
import Mathlib.Order.BooleanAlgebra.Basic

/-!
# Type elements of a dump

How a type and the types it is made of stand in the document: one element for each node,
and references between them that carry the qualifiers a typedef does not already have.
-/
namespace CableSwig.GccXml.TypeDump

open CableSwig.CxxTypes
open CableSwig.Lib.StdString
open CableSwig.Parsers.CarriedNumbers (arrayMax)

section Trees

mutual

/-- The tree node of a type, without top-level qualifiers. A pointer to a member function is a
pointer to a method type, the qualifiers of which are those of `this`. An array has the number of
its elements, if it has a domain. -/
inductive Tree
  | fundamentalType (id : FundamentalId)
  | classType (name : String)
  | enumerationType (name : String)
  | pointerType (target : CvTree)
  | referenceType (target : CvTree)
  | arrayType (element : CvTree) (length : Option Nat)
  | functionType (returns : CvTree) (arguments : List CvTree)
  | methodType (basetype : String) (returns : CvTree) (arguments : List CvTree) (quals : Quals)
  | offsetType (basetype : String) (member : CvTree)
  | typedef (name : String) (original : CvTree)

/-- A type with the qualifiers that it is given here. -/
inductive CvTree
  | mk (type : Tree) (quals : Quals)

end

mutual

/-- The qualifiers that a node has without being given any. -/
def Tree.cpTypeQuals : Tree → Quals
  | .arrayType element _ => element.cpTypeQuals
  | .typedef _ original => original.cpTypeQuals
  | _ => ⊥

/-- `cp_type_quals`, which looks through arrays. -/
def CvTree.cpTypeQuals : CvTree → Quals
  | .mk type quals => quals ⊔ type.cpTypeQuals

end

mutual

/-- The node behind all typedefs. -/
def Tree.mainVariant : Tree → Tree
  | .typedef _ original => original.mainVariant
  | t => t

def CvTree.mainVariant : CvTree → Tree
  | .mk type _ => type.mainVariant

end

def CvTree.type : CvTree → Tree
  | .mk type _ => type

def Tree.isMethodType : Tree → Bool
  | .methodType _ _ _ _ => true
  | _ => false

def Tree.isOffsetType : Tree → Bool
  | .offsetType _ _ => true
  | _ => false

/-- Qualifiers for references and functions are an error, or dropped. -/
def Tree.takesQuals : Tree → Bool
  | .referenceType _ | .functionType _ _ | .methodType _ _ _ _ => false
  | _ => true

mutual

def Tree.WellFormed : Tree → Prop
  | .fundamentalType _ | .classType _ | .enumerationType _ => True
  | .pointerType target => target.WellFormedPointee
  | .referenceType target => target.WellFormed
  | .arrayType element _ => element.WellFormed
  | .functionType returns arguments => returns.WellFormed ∧ WellFormedList arguments
  | .methodType _ returns arguments _ => returns.WellFormed ∧ WellFormedList arguments
  | .offsetType _ member => member.WellFormed
  | .typedef _ original => original.WellFormed

/-- No reference and no function is qualified. -/
def CvTree.WellFormedPointee : CvTree → Prop
  | .mk type quals => type.WellFormed ∧ (type.mainVariant.takesQuals = false → quals = ⊥)

/-- Only a pointer has a method type. -/
def CvTree.WellFormed : CvTree → Prop
  | .mk type quals => type.mainVariant.isMethodType = false ∧ type.WellFormed ∧
    (type.mainVariant.takesQuals = false → quals = ⊥)

def WellFormedList : List CvTree → Prop
  | [] => True
  | t :: ts => t.WellFormed ∧ WellFormedList ts

end

/-- The number of elements, which is 0 where it is not known. -/
def arrayBound (length : Option Nat) : Nat := length.getD 0

mutual

/-- The type that a node stands for, where a method type stands for the pointer to it. -/
def Tree.meaning : Tree → CvTerm
  | .fundamentalType id => .mk (.fundamentalType id) false false
  | .classType name => .mk (.classType name) false false
  | .enumerationType name => .mk (.enumerationType name) false false
  | .pointerType target =>
    if target.mainVariant.isMethodType then target.meaning
    else .mk (.pointerType target.meaning) false false
  | .referenceType target => .mk (.referenceType target.meaning) false false
  | .arrayType element length => .mk (.arrayType element.meaning (arrayBound length)) false false
  | .functionType returns arguments =>
    .mk (.functionType returns.meaning (meanings arguments)) false false
  | .methodType basetype returns arguments quals =>
    .mk (.pointerToMemberType
      (.mk (.functionType returns.meaning (meanings arguments)) quals.1 quals.2) basetype)
      false false
  | .offsetType basetype member => .mk (.pointerToMemberType member.meaning basetype) false false
  | .typedef _ original => original.meaning

def CvTree.meaning : CvTree → CvTerm
  | .mk type quals => type.meaning.moreQualified quals.1 quals.2

def meanings : List CvTree → List CvTerm
  | [] => []
  | t :: ts => t.meaning :: meanings ts

end

end Trees

section Elements

/-- An element of the document with the elements nested in it. -/
structure Element where
  name : String
  attributes : List (String × Text)
  nested : List (String × List (String × Text)) := []

/-- `GetAttribute`. -/
def getAttribute (attributes : List (String × Text)) (name : String) : Option Text :=
  (attributes.find? fun a => a.1 = name).map Prod.snd

/-- `xml_print_id_attribute`, where `%d` prints an index that is below `2 ^ 31`. -/
def nodeId (index : Nat) : Text := '_' :: Nat.toDigits 10 index

/-- The elements by the ids that were printed for them. -/
structure Document where
  element : Text → Option Element
  isNodeId : ∀ id e, element id = some e → ∃ index, id = nodeId index

/-- The document with these elements under these indices. -/
def documentOf (elements : List (Nat × Element)) : Document where
  element id := (elements.find? fun e => nodeId e.1 = id).map Prod.snd
  isNodeId id e h := by
    obtain ⟨found, hfound, -⟩ := Option.map_eq_some_iff.mp h
    have hid := List.find?_some hfound
    exact ⟨found.1, (of_decide_eq_true hid).symm⟩

/-- The reference that `xml_print_type_idref` prints. -/
def idref (index : Nat) (quals : Quals) : Text :=
  nodeId index ++ ((if quals.1 then ['c'] else []) ++ (if quals.2 then ['v'] else []))

/-- The qualifiers that `xml_get_idref` leaves to the reference. -/
def xmlGetIdref : CvTree → Quals
  | .mk (.typedef name original) quals =>
    (CvTree.mk (.typedef name original) quals).cpTypeQuals \ original.cpTypeQuals
  | t => t.cpTypeQuals

/-- The name that the compiler gives to a fundamental type. -/
def fundamentalName : FundamentalId → String
  | .unsignedChar => "unsigned char"
  | .unsignedShortInt => "short unsigned int"
  | .unsignedInt => "unsigned int"
  | .unsignedLongInt => "long unsigned int"
  | .unsignedLongLongInt => "long long unsigned int"
  | .signedChar => "signed char"
  | .char => "char"
  | .shortInt => "short int"
  | .int => "int"
  | .longInt => "long int"
  | .longLongInt => "long long int"
  | .wChar_t => "wchar_t"
  | .bool => "bool"
  | .float => "float"
  | .double => "double"
  | .longDouble => "long double"
  | .complexFloat => "complex float"
  | .complexDouble => "complex double"
  | .complexLongDouble => "complex long double"
  | .void => "void"

def xmlOutputFundamentalType (id : FundamentalId) : Element where
  name := "FundamentalType"
  attributes := [("name", (fundamentalName id).toList)]

def xmlOutputPointerType (type : Text) : Element where
  name := "PointerType"
  attributes := [("type", type)]

def xmlOutputReferenceType (type : Text) : Element where
  name := "ReferenceType"
  attributes := [("type", type)]

def xmlOutputArrayType (length : Option Nat) (type : Text) : Element where
  name := "ArrayType"
  attributes := [("min", ['0']), ("max", arrayMax length), ("type", type)]

def xmlOutputArgument (type : Text) : String × List (String × Text) :=
  ("Argument", [("type", type)])

def xmlOutputFunctionType (returns : Text) (arguments : List Text) : Element where
  name := "FunctionType"
  attributes := [("returns", returns)]
  nested := arguments.map xmlOutputArgument

def xmlOutputMethodType (basetype returns : Text) (quals : Quals) (arguments : List Text) :
    Element where
  name := "MethodType"
  attributes := [("basetype", basetype), ("returns", returns)] ++
    (if quals.1 then [("const", ['1'])] else []) ++ (if quals.2 then [("volatile", ['1'])] else [])
  nested := arguments.map xmlOutputArgument

def xmlOutputOffsetType (basetype type : Text) : Element where
  name := "OffsetType"
  attributes := [("basetype", basetype), ("type", type)]

def xmlOutputTypedef (name : String) (type : Text) : Element where
  name := "Typedef"
  attributes := [("name", name.toList), ("type", type)]

/-- The elements of classes. -/
def recordNames : List String := ["Class", "Struct", "Union"]

variable (doc : Document) (qualifiedName : Text → String)

/-- The element of the class with this qualified name. -/
def WrittenClass (name : String) (index : Nat) : Prop :=
  (∃ element, doc.element (nodeId index) = some element ∧ element.name ∈ recordNames) ∧
    qualifiedName (nodeId index) = name

mutual

/-- The document has the element of the node under this index, and all elements it needs. -/
def Written : Tree → Nat → Prop
  | .fundamentalType id, index => doc.element (nodeId index) = some (xmlOutputFundamentalType id)
  | .classType name, index => WrittenClass doc qualifiedName name index
  | .enumerationType name, index =>
    (∃ element, doc.element (nodeId index) = some element ∧ element.name = "Enumeration") ∧
      qualifiedName (nodeId index) = name
  | .pointerType target, index =>
    ∃ type, WrittenRef target type ∧ doc.element (nodeId index) = some (xmlOutputPointerType type)
  | .referenceType target, index =>
    ∃ type, WrittenRef target type ∧ doc.element (nodeId index) = some (xmlOutputReferenceType type)
  -- `build_cplus_array_type` moves the qualifiers of the element to the array.
  | .arrayType element length, index =>
    ∃ e, WrittenNode element e ∧
      doc.element (nodeId index) = some (xmlOutputArrayType length (idref e ⊥))
  | .functionType returns arguments, index =>
    ∃ type types, WrittenRef returns type ∧ WrittenRefs arguments types ∧
      doc.element (nodeId index) = some (xmlOutputFunctionType type types)
  | .methodType basetype returns arguments quals, index =>
    ∃ c type types, WrittenClass doc qualifiedName basetype c ∧ WrittenRef returns type ∧
      WrittenRefs arguments types ∧
      doc.element (nodeId index) = some (xmlOutputMethodType (nodeId c) type quals types)
  | .offsetType basetype member, index =>
    ∃ c type, WrittenClass doc qualifiedName basetype c ∧ WrittenRef member type ∧
      doc.element (nodeId index) = some (xmlOutputOffsetType (nodeId c) type)
  | .typedef name original, index =>
    ∃ type, WrittenRef original type ∧
      doc.element (nodeId index) = some (xmlOutputTypedef name type)

/-- The reference to the type is this text, and the document has all elements it needs. -/
def WrittenRef : CvTree → Text → Prop
  | .mk type quals, ref =>
    ∃ index, Written type index ∧ ref = idref index (xmlGetIdref (.mk type quals))

/-- The same without the qualifiers of the type. -/
def WrittenNode : CvTree → Nat → Prop
  | .mk type _, index => Written type index

def WrittenRefs : List CvTree → List Text → Prop
  | [], refs => refs = []
  | t :: ts, refs => ∃ ref rest, refs = ref :: rest ∧ WrittenRef t ref ∧ WrittenRefs ts rest

end

end Elements

end CableSwig.GccXml.TypeDump
