import CableSwig.GccXml.EscapeString
import CableSwig.GccXml.FileQueue
import CableSwig.GccXml.OutputFunctions
import CableSwig.GccXml.TypeDump
import CableSwig.Lib.StringReplace
import CableSwig.Parsers.BasesAttribute
import CableSwig.Parsers.CarriedNumbers

/-!
# Elements of a document

What the output functions of xml.c print for declarations and types, with all attributes. A
reference comes with the index that `xml_add_node` has returned for it.
-/
namespace CableSwig.GccXml.DeclarationDump

open CableSwig.CxxTypes (Quals)
open CableSwig.GccXml.EscapeString
open CableSwig.GccXml.FileQueue (fileId)
open CableSwig.GccXml.OutputFunctions (FunctionTag)
open CableSwig.GccXml.TypeDump
open CableSwig.Lib.Numerals
open CableSwig.Lib.StdString
open CableSwig.Lib.StringReplace (findText)
open CableSwig.Parsers.BasesAttribute (BaseBinfo nAccess writtenId xmlOutputBases)
open CableSwig.Parsers.CarriedNumbers (IntegerCst arrayMax xmlOutputInit xmlPrintOffset)

section Trees

/-- What `xml_get_idref` finds for a type. -/
structure TypeRef where
  index : Nat
  quals : Quals := ⊥
  isRestrict : Bool := false

/-- One `__attribute__`. Of an argument that is no string constant nothing is printed. -/
structure Attribute where
  purpose : Text
  arguments : List (Option Text) := []

/-- `CP_DECL_CONTEXT`. -/
structure Context where
  index : Nat
  isType : Bool

/-- What is printed alike for declarations of all kinds. `assemblerName` is there if it is not the
name. -/
structure Decl where
  index : Nat
  name : Option Text := none
  context : Option Context := none
  isPrivate : Bool := false
  isProtected : Bool := false
  assemblerName : Option Text := none
  sourceFile : Nat := 0
  sourceLine : Nat := 0
  artificial : Bool := false
  attributes : List Attribute := []

structure NamespaceDecl extends Decl where
  complete : Bool := true
  allDecls : List Nat := []

/-- A namespace with `DECL_NAMESPACE_ALIAS`, and the one at the end of the chain. -/
structure NamespaceAlias extends Decl where
  realNamespace : Nat

structure TypedefDecl extends Decl where
  type : TypeRef

/-- `PARM_DECL`. The type behind an invisible reference stands in its place. -/
structure Parm where
  artificial : Bool := false
  name : Option Text := none
  type : Option TypeRef := none
  sourceFile : Nat := 0
  sourceLine : Nat := 0
  attributes : List Attribute := []

/-- An entry of `TYPE_ARG_TYPES` with the default argument. -/
structure ArgType where
  value : TypeRef
  purpose : Option Text := none

/-- `FUNCTION_DECL`. Only a member function with `this` is `const` or virtual. -/
structure FunctionDecl extends Decl where
  tag : FunctionTag
  anonymousClass : Bool := false
  returns : TypeRef
  nonconverting : Bool := false
  nonstaticMember : Bool := false
  constMemfunc : Bool := false
  isVirtual : Bool := false
  pureVirtual : Bool := false
  overrides : List Nat := []
  thisStatic : Bool := false
  raises : Option (List TypeRef) := none
  endline : Option Nat := none
  reallyExtern : Bool := false
  declaredInline : Bool := false
  typeAttributes : List Attribute := []
  befriending : List (Option Nat) := []
  arguments : List Parm := []
  argTypes : List ArgType := []
  voidTerminated : Bool := true
  const_nonstatic : constMemfunc = true → nonstaticMember = true
  virtual_nonstatic : isVirtual = true → nonstaticMember = true

structure VarDecl extends Decl where
  type : TypeRef
  initial : Option Text := none
  thisStatic : Bool := false
  external : Bool := false

structure FieldDecl extends Decl where
  type : TypeRef
  bitFieldType : Option TypeRef := none
  size : Option Nat := none
  byteOffset : IntegerCst
  bitOffset : IntegerCst
  isMutable : Bool := false

structure BaseLink extends BaseBinfo where
  isVirtual : Bool := false
  offset : Int := 0

inductive RecordTag
  | cls | struct | union
  deriving DecidableEq

/-- A class with the declaration that names it. A union has no base classes. -/
structure RecordType extends Decl where
  tag : RecordTag
  anonymous : Bool := false
  pureVirtuals : Bool := false
  completeType : Bool := true
  size : Option Nat := none
  align : Nat := 8
  befriending : List (Option Nat) := []
  complete : Bool := true
  members : List Nat := []
  accesses : Bool := true
  bases : List (Option BaseLink) := []
  union_bases : tag = .union → bases = []

structure EnumeralType extends Decl where
  size : Option Nat := none
  align : Nat := 8
  values : List (Text × IntegerCst) := []

/-- What a type node holds. A method type comes without `this`, and an array with the number of its
elements, if it has a domain. -/
inductive TypeShape
  | fundamental (name : Option Text)
  | pointer (target : TypeRef)
  | reference (target : TypeRef)
  | array (length : Option Nat) (element : TypeRef)
  | function (returns : TypeRef) (argTypes : List ArgType) (voidTerminated : Bool)
  | method (basetype : Nat) (returns : TypeRef) (thisQuals : Quals) (argTypes : List ArgType)
      (voidTerminated : Bool)
  | offset (basetype : Nat) (type : TypeRef)

structure TypeNode where
  index : Nat
  attributes : List Attribute := []
  size : Option Nat := none
  align : Nat := 8
  shape : TypeShape

inductive Declaration
  | namespaceDecl (d : NamespaceDecl)
  | namespaceAlias (d : NamespaceAlias)
  | typedef (d : TypedefDecl)
  | function (d : FunctionDecl)
  | var (d : VarDecl)
  | field (d : FieldDecl)
  | record (d : RecordType)
  | enumeral (d : EnumeralType)

def Declaration.decl : Declaration → Decl
  | .namespaceDecl d => d.toDecl
  | .namespaceAlias d => d.toDecl
  | .typedef d => d.toDecl
  | .function d => d.toDecl
  | .var d => d.toDecl
  | .field d => d.toDecl
  | .record d => d.toDecl
  | .enumeral d => d.toDecl

end Trees

section Attributes

abbrev Attributes := List (String × Text)

/-- An attribute that is printed if there is something to print. -/
def printed (name : String) (value : Option Text) : Attributes :=
  value.toList.map fun v => (name, v)

/-- An attribute that is printed as one, or not at all. -/
def flag (name : String) (value : Bool) : Attributes := if value then [(name, ['1'])] else []

/-- `%d` of a line. -/
def lineText (sourceLine : Nat) : Text := decimal (toInt sourceLine)

/-- `xml_print_location_attribute`. -/
def xmlPrintLocationAttribute (sourceFile sourceLine : Nat) : Attributes :=
  [("location", fileId sourceFile ++ ':' :: lineText sourceLine), ("file", fileId sourceFile),
    ("line", lineText sourceLine)]

/-- `xml_print_id_attribute`. -/
def xmlPrintIdAttribute (d : Decl) : Attributes := [("id", nodeId d.index)]

/-- `xml_get_encoded_string`. -/
def xmlGetEncodedString (id : Option Text) : Text := (id.map xmlEscapeString).getD []

/-- `xml_print_name_attribute`. -/
def xmlPrintNameAttribute (name : Option Text) : Attributes := [("name", xmlGetEncodedString name)]

/-- `xml_print_mangled_attribute`. -/
def xmlPrintMangledAttribute (d : Decl) : Attributes :=
  printed "mangled" (d.assemblerName.map xmlEscapeString)

/-- The name without what the compiler adds to the names of constructors. -/
def withoutInternal (name : Text) : Text :=
  match findText " *INTERNAL* ".toList name 0 with
  | none => name
  | some i => name.take i

/-- `xml_print_demangled_attribute`, given `cplus_demangle`. -/
def xmlPrintDemangledAttribute (demangle : Text → Option Text) (d : Decl) : Attributes :=
  printed "demangled" ((d.assemblerName.bind fun name =>
    demangle (withoutInternal (xmlEscapeString name))).map xmlEscapeString)

/-- `xml_print_type_idref`. -/
def xmlPrintTypeIdref (t : TypeRef) : Text :=
  idref t.index t.quals ++ if t.isRestrict then ['r'] else []

/-- The access that is printed in a class. -/
def accessText (d : Decl) : Text :=
  if d.isPrivate then "private".toList
  else if d.isProtected then "protected".toList
  else "public".toList

/-- `xml_print_context_attribute`. -/
def xmlPrintContextAttribute (d : Decl) : Attributes :=
  match d.context with
  | none => []
  | some context =>
    ("context", nodeId context.index) ::
      if context.isType then [("access", accessText d)] else []

/-- `%u` of a size, if it is known. -/
def xmlPrintSizeAttribute (size : Option Nat) : Attributes :=
  printed "size" (size.map unsignedDecimal)

def xmlPrintAlignAttribute (align : Nat) : Attributes := [("align", decimal (toInt align))]

/-- The ids that are not zero, each with a blank after it. -/
def idList (indices : List Nat) : Text :=
  (indices.filter (· ≠ 0)).flatMap fun index => nodeId index ++ [' ']

/-- `xml_print_virtual_method_attributes`. -/
def xmlPrintVirtualMethodAttributes (d : FunctionDecl) : Attributes :=
  flag "virtual" d.isVirtual ++ flag "pure_virtual" d.pureVirtual ++
    printed "overrides" (if d.isVirtual then some (idList d.overrides) else none)

/-- `xml_print_throw_attribute`. -/
def xmlPrintThrowAttribute (raises : Option (List TypeRef)) : Attributes :=
  printed "throw" (raises.map fun types => [' '].intercalate (types.map xmlPrintTypeIdref))

/-- What is printed for one `__attribute__`. -/
def attributeText (a : Attribute) : Text :=
  xmlEscapeString a.purpose ++
    if a.arguments = [] then []
    else
      '(' :: [','].intercalate (a.arguments.map fun arg => xmlEscapeString (arg.getD [])) ++ [')']

/-- What is printed for attributes, if there are any. -/
def attributeTexts (attributes : List Attribute) : Option Text :=
  if attributes = [] then none else some ([' '].intercalate (attributes.map attributeText))

/-- `xml_print_attributes_attribute`. -/
def xmlPrintAttributesAttribute (attributes1 attributes2 : List Attribute) : Attributes :=
  printed "attributes" (attributeTexts (attributes1 ++ attributes2))

/-- `xml_print_befriending_attribute`, where templates have no index. -/
def xmlPrintBefriendingAttribute (befriending : List (Option Nat)) : Attributes :=
  if befriending.reduceOption = [] then []
  else [("befriending", [' '].intercalate (befriending.reduceOption.map nodeId))]

end Attributes

section Elements

variable (demangle : Text → Option Text)

/-- `xml_output_namespace_decl`, for a real namespace. -/
def xmlOutputNamespaceDecl (d : NamespaceDecl) : Element where
  name := "Namespace"
  attributes := xmlPrintIdAttribute d.toDecl ++ printed "name" (d.name.map xmlEscapeString) ++
    xmlPrintContextAttribute d.toDecl ++ xmlPrintAttributesAttribute d.attributes [] ++
    printed "members" (if d.complete then some (idList d.allDecls) else none) ++
    xmlPrintMangledAttribute d.toDecl ++ xmlPrintDemangledAttribute demangle d.toDecl

/-- `xml_output_namespace_decl`, for an alias. -/
def xmlOutputNamespaceAlias (d : NamespaceAlias) : Element where
  name := "NamespaceAlias"
  attributes := xmlPrintIdAttribute d.toDecl ++ xmlPrintNameAttribute d.name ++
    xmlPrintContextAttribute d.toDecl ++ [("namespace", nodeId d.realNamespace)] ++
    xmlPrintMangledAttribute d.toDecl ++ xmlPrintDemangledAttribute demangle d.toDecl

/-- `xml_output_typedef`. -/
def xmlOutputTypedef (d : TypedefDecl) : Element where
  name := "Typedef"
  attributes := xmlPrintIdAttribute d.toDecl ++ xmlPrintNameAttribute d.name ++
    [("type", xmlPrintTypeIdref d.type)] ++ xmlPrintContextAttribute d.toDecl ++
    xmlPrintLocationAttribute d.sourceFile d.sourceLine ++
    xmlPrintAttributesAttribute d.attributes []

/-- The type of an argument and where it stands. Without a declaration it is the type from the
list. -/
def argumentTypeAttributes (pd : Option Parm) (tl : ArgType) : Attributes :=
  match pd with
  | none => [("type", xmlPrintTypeIdref tl.value)]
  | some pd =>
    match pd.type with
    | none => [("type", xmlPrintTypeIdref tl.value)]
    | some type =>
      ("type", xmlPrintTypeIdref type) :: xmlPrintLocationAttribute pd.sourceFile pd.sourceLine

/-- `xml_output_argument`. -/
def xmlOutputArgument (pd : Option Parm) (tl : ArgType) : Option (String × Attributes) :=
  if pd.any Parm.artificial then none
  else some ("Argument", printed "name" ((pd.bind Parm.name).map xmlEscapeString) ++
    argumentTypeAttributes pd tl ++ printed "default" (tl.purpose.map xmlEscapeString) ++
    xmlPrintAttributesAttribute ((pd.map Parm.attributes).getD []) [])

/-- The loop over the argument types, beside which the arguments may run out. -/
def outputArguments : List Parm → List ArgType → List (String × Attributes)
  | _, [] => []
  | [], tl :: tls => (xmlOutputArgument none tl).toList ++ outputArguments [] tls
  | pd :: pds, tl :: tls => (xmlOutputArgument (some pd) tl).toList ++ outputArguments pds tls

/-- The names of the elements for functions. -/
def tagName : FunctionTag → String
  | .constructor => "Constructor"
  | .destructor => "Destructor"
  | .converter => "Converter"
  | .operatorMethod => "OperatorMethod"
  | .operatorFunction => "OperatorFunction"
  | .method => "Method"
  | .function => "Function"

/-- The attributes that depend on the kind of function. -/
def kindAttributes (d : FunctionDecl) : Attributes :=
  let returns := [("returns", xmlPrintTypeIdref d.returns)]
  let isConst := flag "const" d.constMemfunc
  let staticMethod := flag "static" (!d.nonstaticMember)
  let artificial := flag "artificial" d.artificial
  match d.tag with
  | .constructor => flag "explicit" d.nonconverting ++ artificial
  | .destructor => xmlPrintVirtualMethodAttributes d ++ artificial
  | .converter => returns ++ isConst ++ xmlPrintVirtualMethodAttributes d
  | .operatorMethod =>
    returns ++ isConst ++ xmlPrintVirtualMethodAttributes d ++ staticMethod ++ artificial
  | .operatorFunction | .function => returns ++ flag "static" d.thisStatic
  | .method => returns ++ isConst ++ xmlPrintVirtualMethodAttributes d ++ staticMethod

/-- `xml_output_function_decl`. The name of an operator is what `xml_reverse_opname_lookup` gives
for it. -/
def xmlOutputFunctionDecl (d : FunctionDecl) : Element where
  name := tagName d.tag
  attributes := xmlPrintIdAttribute d.toDecl ++
    (if d.tag = .constructor ∧ d.anonymousClass then [] else xmlPrintNameAttribute d.name) ++
    kindAttributes d ++ xmlPrintThrowAttribute d.raises ++ xmlPrintContextAttribute d.toDecl ++
    xmlPrintMangledAttribute d.toDecl ++ xmlPrintDemangledAttribute demangle d.toDecl ++
    xmlPrintLocationAttribute d.sourceFile d.sourceLine ++
    printed "endline" (d.endline.map lineText) ++
    flag "extern" d.reallyExtern ++ flag "inline" d.declaredInline ++
    xmlPrintAttributesAttribute d.attributes d.typeAttributes ++
    xmlPrintBefriendingAttribute d.befriending
  nested :=
    let skip := if d.nonstaticMember then 1 else 0
    outputArguments (d.arguments.drop skip) (d.argTypes.drop skip) ++
      if d.voidTerminated then [] else [("Ellipsis", [])]

/-- `xml_output_var_decl`. -/
def xmlOutputVarDecl (d : VarDecl) : Element where
  name := "Variable"
  attributes := xmlPrintIdAttribute d.toDecl ++ xmlPrintNameAttribute d.name ++
    [("type", xmlPrintTypeIdref d.type)] ++ printed "init" (d.initial.map xmlEscapeString) ++
    xmlPrintContextAttribute d.toDecl ++ xmlPrintMangledAttribute d.toDecl ++
    xmlPrintDemangledAttribute demangle d.toDecl ++
    xmlPrintLocationAttribute d.sourceFile d.sourceLine ++ flag "static" d.thisStatic ++
    flag "extern" d.external ++ flag "artificial" d.artificial ++
    xmlPrintAttributesAttribute d.attributes []

/-- `xml_output_field_decl`. -/
def xmlOutputFieldDecl (d : FieldDecl) : Element where
  name := "Field"
  attributes := xmlPrintIdAttribute d.toDecl ++ xmlPrintNameAttribute d.name ++
    printed "bits" ((d.bitFieldType.bind fun _ => d.size).map unsignedDecimal) ++
    [("type", xmlPrintTypeIdref (d.bitFieldType.getD d.type))] ++
    printed "offset" (xmlPrintOffset d.byteOffset d.bitOffset) ++
    xmlPrintContextAttribute d.toDecl ++ xmlPrintMangledAttribute d.toDecl ++
    xmlPrintDemangledAttribute demangle d.toDecl ++ flag "mutable" d.isMutable ++
    xmlPrintLocationAttribute d.sourceFile d.sourceLine ++
    xmlPrintAttributesAttribute d.attributes []

def RecordTag.name : RecordTag → String
  | .cls => "Class"
  | .struct => "Struct"
  | .union => "Union"

/-- The element for a base class. -/
def outputBase (accesses : Bool) (b : BaseLink) : String × Attributes :=
  ("Base", [("type", writtenId b.id),
    ("access", match nAccess accesses b.toBaseBinfo with
      | .protectedAccess => "protected".toList
      | .privateAccess => "private".toList
      | .publicAccess => "public".toList),
    ("virtual", if b.isVirtual then ['1'] else ['0']), ("offset", decimal (toInt b.offset))])

/-- `xml_output_record_type`. -/
def xmlOutputRecordType (d : RecordType) : Element where
  name := d.tag.name
  attributes := xmlPrintIdAttribute d.toDecl ++
    (if d.anonymous then [] else xmlPrintNameAttribute d.name) ++
    xmlPrintContextAttribute d.toDecl ++ flag "abstract" d.pureVirtuals ++
    flag "incomplete" (!d.completeType) ++ xmlPrintMangledAttribute d.toDecl ++
    xmlPrintDemangledAttribute demangle d.toDecl ++
    xmlPrintLocationAttribute d.sourceFile d.sourceLine ++ flag "artificial" d.artificial ++
    xmlPrintAttributesAttribute d.attributes [] ++ xmlPrintSizeAttribute d.size ++
    xmlPrintAlignAttribute d.align ++ xmlPrintBefriendingAttribute d.befriending ++
    if d.complete ∧ d.completeType then
      [("members", idList d.members),
        ("bases", xmlOutputBases d.accesses (d.bases.map fun b => b.map BaseLink.toBaseBinfo))]
    else []
  nested := if d.complete ∧ d.completeType then d.bases.reduceOption.map (outputBase d.accesses)
    else []

/-- `xml_output_enumeral_type`, for values that are integer constants. -/
def xmlOutputEnumeralType (d : EnumeralType) : Element where
  name := "Enumeration"
  attributes := xmlPrintIdAttribute d.toDecl ++ xmlPrintNameAttribute d.name ++
    xmlPrintContextAttribute d.toDecl ++ xmlPrintLocationAttribute d.sourceFile d.sourceLine ++
    xmlPrintAttributesAttribute d.attributes [] ++ flag "artificial" d.artificial ++
    xmlPrintSizeAttribute d.size ++ xmlPrintAlignAttribute d.align
  nested := d.values.map fun v =>
    ("EnumValue", [("name", xmlEscapeString v.1), ("init", xmlOutputInit v.2)])

/-- The attributes between the id and those for attributes and sizes. -/
def shapeAttributes : TypeShape → Attributes
  | .fundamental name => printed "name" (name.map xmlEscapeString)
  | .pointer target | .reference target => [("type", xmlPrintTypeIdref target)]
  | .array length element =>
    [("min", ['0']), ("max", arrayMax length), ("type", xmlPrintTypeIdref element)]
  | .function returns _ _ => [("returns", xmlPrintTypeIdref returns)]
  | .method basetype returns _ _ _ =>
    [("basetype", nodeId basetype), ("returns", xmlPrintTypeIdref returns)]
  | .offset basetype type => [("basetype", nodeId basetype), ("type", xmlPrintTypeIdref type)]

/-- The attributes after those for attributes. -/
def endAttributes (t : TypeNode) : Attributes :=
  match t.shape with
  | .function _ _ _ => []
  | .method _ _ quals _ _ => flag "const" quals.1 ++ flag "volatile" quals.2
  | _ => xmlPrintSizeAttribute t.size ++ xmlPrintAlignAttribute t.align

/-- The elements for the arguments of a function type. -/
def outputArgTypes (argTypes : List ArgType) (voidTerminated : Bool) :
    List (String × Attributes) :=
  outputArguments [] argTypes ++ if voidTerminated then [] else [("Ellipsis", [])]

def TypeShape.name : TypeShape → String
  | .fundamental _ => "FundamentalType"
  | .pointer _ => "PointerType"
  | .reference _ => "ReferenceType"
  | .array _ _ => "ArrayType"
  | .function _ _ _ => "FunctionType"
  | .method _ _ _ _ _ => "MethodType"
  | .offset _ _ => "OffsetType"

/-- `xml_output_fundamental_type`, `xml_output_pointer_type` and those for the other types. -/
def xmlOutputTypeNode (t : TypeNode) : Element where
  name := t.shape.name
  attributes := ("id", nodeId t.index) :: (shapeAttributes t.shape ++
    xmlPrintAttributesAttribute t.attributes [] ++ endAttributes t)
  nested :=
    match t.shape with
    | .function _ argTypes voidTerminated | .method _ _ _ argTypes voidTerminated =>
      outputArgTypes argTypes voidTerminated
    | _ => []

/-- The part of `xml_dump_tree_node` for declarations, classes and enumerations. -/
def xmlOutput : Declaration → Element
  | .namespaceDecl d => xmlOutputNamespaceDecl demangle d
  | .namespaceAlias d => xmlOutputNamespaceAlias demangle d
  | .typedef d => xmlOutputTypedef d
  | .function d => xmlOutputFunctionDecl demangle d
  | .var d => xmlOutputVarDecl demangle d
  | .field d => xmlOutputFieldDecl demangle d
  | .record d => xmlOutputRecordType demangle d
  | .enumeral d => xmlOutputEnumeralType d

/-- `xml_output_cv_qualified_type`, for a type that is not its own main variant. Without
qualifiers nothing is printed. -/
def xmlOutputCvQualifiedType (t : TypeRef) : Option Element :=
  if t.quals = ⊥ ∧ t.isRestrict = false then none
  else some {
    name := "CvQualifiedType"
    attributes := ("id", xmlPrintTypeIdref t) :: ("type", nodeId t.index) ::
      (flag "const" t.quals.1 ++ flag "volatile" t.quals.2 ++ flag "restrict" t.isRestrict) }

/-- The element of `xml_dump_files` for a file. The name is kept in the encoded form. -/
def xmlDumpFile (index : Nat) (name : Text) : Element where
  name := "File"
  attributes := [("id", fileId index), ("name", xmlEscapeString name)]

end Elements

section Dumps

/-- A node with an element that can be referred to. -/
inductive Entry
  | declaration (d : Declaration)
  | typeNode (t : TypeNode)

def Entry.index : Entry → Nat
  | .declaration d => d.decl.index
  | .typeNode t => t.index

/-- What `xml_dump_tree_node` and `xml_dump_files` have elements for. -/
inductive Item
  | entry (e : Entry)
  | cvQualified (t : TypeRef)
  | file (index : Nat) (name : Text)

variable (demangle : Text → Option Text)

def Entry.output : Entry → Element
  | .declaration d => xmlOutput demangle d
  | .typeNode t => xmlOutputTypeNode t

def Item.output : Item → Option Element
  | .entry e => some (e.output demangle)
  | .cvQualified t => xmlOutputCvQualifiedType t
  | .file index name => some (xmlDumpFile index name)

end Dumps

section Values

/-- A tab and the end of a line, which may have two characters, become blanks. -/
def normalizeBlanks : Text → Text
  | [] => []
  | '\r' :: '\n' :: s => ' ' :: normalizeBlanks s
  | c :: s => (if c = '\t' ∨ c = '\n' ∨ c = '\r' then ' ' else c) :: normalizeBlanks s

/-- What the XML parser reports as the value of an attribute: white space has become blanks, and
entities are replaced. -/
def attributeValue (v : Text) : Text := replaceEntities 0 (normalizeBlanks v)

def attributeValues (attributes : Attributes) : Attributes :=
  attributes.map fun a => (a.1, attributeValue a.2)

end Values

end CableSwig.GccXml.DeclarationDump
