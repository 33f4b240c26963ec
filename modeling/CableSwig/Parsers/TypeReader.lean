import CableSwig.GccXml.TypeDump
import CableSwig.Lib.FallibleState

/-!
# Reading types

`GetTypeFromId` and the functions that add the type elements of a document to the source
representation, and `CreateCxxType` of the objects they make.
-/
namespace CableSwig.Parsers.TypeReader

open CableSwig.CxxTypes
open CableSwig.GccXml.TypeDump
open CableSwig.Lib.StdString
open CableSwig.Lib.FallibleState
open CableSwig.Parsers.CarriedNumbers (setLength)

/-- A `Type` object with its const and volatile flags, or a null pointer. A class or an
enumeration is known by its qualified name. -/
inductive SourceType
  | null
  | fundamentalType (typeName : Text) (quals : Quals)
  | pointerType (target : SourceType) (quals : Quals)
  | referenceType (target : SourceType)
  | arrayType (target : SourceType) (length : Nat) (quals : Quals)
  | classType (c : String) (quals : Quals)
  | enumerationType (e : String) (quals : Quals)
  | functionType (returns : SourceType) (arguments : List SourceType)
  | methodType (c : String) (returns : SourceType) (arguments : List SourceType) (quals : Quals)
  | offsetType (c : String) (memberType : SourceType) (quals : Quals)

/-- The objects that type elements are turned into. -/
inductive SourceObject
  | type (t : SourceType)
  | typedef (type : SourceType)
  | cls (name : String)
  | enumeration (name : String)

/-- The objects of the source representation by their ids. -/
abbrev Objects := Text → Option SourceObject

abbrev Reading := Action Objects

/-- The type that `GetTypeFromId` finds in an existing object. -/
def typeOf : SourceObject → SourceType
  | .type t => t
  | .typedef t => t
  | .cls name => .classType name ⊥
  | .enumeration name => .enumerationType name ⊥

def setSourceObject (id : Text) (object : SourceObject) : Reading Unit :=
  Action.update fun objects => Function.update objects id (some object)

/-- The copy of a type with these qualifiers. Some types do not take any. -/
def withQualifiers (type : SourceType) (quals : Quals) : Option SourceType :=
  match type with
  | .fundamentalType typeName _ => some (.fundamentalType typeName quals)
  | .pointerType target _ => some (.pointerType target quals)
  | .arrayType target length _ => some (.arrayType target length quals)
  | .classType c _ => some (.classType c quals)
  | .offsetType c memberType _ => some (.offsetType c memberType quals)
  | .enumerationType e _ => some (.enumerationType e quals)
  | .functionType _ _ | .methodType _ _ _ _ | .referenceType _ | .null => none

/-- The characters that `find_first_of` looks for. -/
def isQualifier (c : Char) : Bool := c ∈ ['c', 'v', 'r']

section Elements

variable (doc : Document) (qualifiedName : Text → String)
  (getTypeFromId : Text → Reading SourceType)
  (addElementRepresentation : Text → Element → Reading SourceObject)

/-- `SetSourceObject` for the element itself. -/
def register (id : Text) (object : SourceObject) : Reading SourceObject := do
  setSourceObject id object
  pure object

def addFundamentalType (id : Text) (element : Element) : Reading SourceObject := do
  let name ← Action.ofOption (getAttribute element.attributes "name")
  register id (.type (.fundamentalType name ⊥))

/-- The type that the `type` attribute refers to. -/
def getTarget (attributes : List (String × Text)) : Reading SourceType := do
  let targetId ← Action.ofOption (getAttribute attributes "type")
  getTypeFromId targetId

def addPointerType (id : Text) (element : Element) : Reading SourceObject := do
  let target ← getTarget getTypeFromId element.attributes
  register id (.type (.pointerType target ⊥))

def addReferenceType (id : Text) (element : Element) : Reading SourceObject := do
  let target ← getTarget getTypeFromId element.attributes
  register id (.type (.referenceType target))

def addArrayType (id : Text) (element : Element) : Reading SourceObject := do
  let targetId ← Action.ofOption (getAttribute element.attributes "type")
  -- An invalid target is reported, but does not end the function.
  let target ← (getTypeFromId targetId).getD .null
  let maxStr ← Action.ofOption (getAttribute element.attributes "max")
  let length ← Action.ofOption (setLength maxStr)
  register id (.type (.arrayType target length ⊥))

/-- The arguments that `SetupFunctionType` reads. -/
def setupArguments : List (String × List (String × Text)) → Reading (List SourceType)
  | [] => pure []
  | (name, attributes) :: nested => do
    if name = "Argument" then
      let argument ← getTarget getTypeFromId attributes
      let arguments ← setupArguments nested
      pure (argument :: arguments)
    else if name = "Ellipsis" then setupArguments nested
    else Action.fail

/-- The type that the `returns` attribute refers to. A missing one is reported only. -/
def getReturns (attributes : List (String × Text)) : Reading SourceType :=
  match getAttribute attributes "returns" with
  | some returnsId => getTypeFromId returnsId
  | none => pure .null

/-- `SetupFunctionType`. -/
def setupFunctionType (element : Element) : Reading (SourceType × List SourceType) := do
  let returns ← getReturns getTypeFromId element.attributes
  let arguments ← setupArguments getTypeFromId element.nested
  pure (returns, arguments)

def addFunctionType (id : Text) (element : Element) : Reading SourceObject := do
  let (returns, arguments) ← setupFunctionType getTypeFromId element
  register id (.type (.functionType returns arguments))

/-- The class that the `basetype` attribute refers to. -/
def getBasetype (element : Element) : Reading String := do
  let basetype ← Action.ofOption (getAttribute element.attributes "basetype")
  let bte ← Action.ofOption (doc.element basetype)
  match ← addElementRepresentation basetype bte with
  | .cls name => pure name
  | _ => Action.fail

def addMethodType (id : Text) (element : Element) : Reading SourceObject := do
  let c ← getBasetype doc addElementRepresentation element
  let (returns, arguments) ← setupFunctionType getTypeFromId element
  register id (.type (.methodType c returns arguments ⊥))

def addOffsetType (id : Text) (element : Element) : Reading SourceObject := do
  let c ← getBasetype doc addElementRepresentation element
  let mtype ← getTarget getTypeFromId element.attributes
  register id (.type (.offsetType c mtype ⊥))

def addTypedef (id : Text) (element : Element) : Reading SourceObject := do
  let type ← getTarget getTypeFromId element.attributes
  register id (.typedef type)

/-- The dispatch of `AddElementRepresentation`, for the elements of types. The ids made up for
the types of classes and enumerations are left out, as nothing refers to them. -/
def constructElement (id : Text) (element : Element) : Reading SourceObject :=
  match element.name with
  | "FundamentalType" => addFundamentalType id element
  | "PointerType" => addPointerType getTypeFromId id element
  | "ReferenceType" => addReferenceType getTypeFromId id element
  | "ArrayType" => addArrayType getTypeFromId id element
  | "FunctionType" => addFunctionType getTypeFromId id element
  | "MethodType" => addMethodType doc getTypeFromId addElementRepresentation id element
  | "OffsetType" => addOffsetType doc getTypeFromId addElementRepresentation id element
  | "Enumeration" => register id (.enumeration (qualifiedName id))
  | "Class" | "Struct" | "Union" => register id (.cls (qualifiedName id))
  | "Typedef" => addTypedef getTypeFromId id element
  | _ => Action.fail

/-- `AddElementRepresentation`. -/
def addElement (id : Text) (element : Element) : Reading SourceObject := do
  match ← Action.look fun objects => objects id with
  | some object => pure object
  | none => constructElement doc qualifiedName getTypeFromId addElementRepresentation id element

/-- `GetTypeFromId`. -/
def getType (tid : Text) : Reading SourceType := do
  match ← Action.look fun objects => objects tid with
  | some object => pure (typeOf object)
  | none =>
    let id := tid.takeWhile (!isQualifier ·)
    let cv := tid.dropWhile (!isQualifier ·)
    let typeElement ← Action.ofOption (doc.element id)
    let _ ← addElementRepresentation id typeElement
    let type ← getTypeFromId id
    let quals : Quals := ('c' ∈ cv, 'v' ∈ cv)
    if quals = ⊥ then pure type
    else
      let newType ← Action.ofOption (withQualifiers type quals)
      setSourceObject tid (.type newType)
      pure newType

end Elements

section Recursion

variable (doc : Document) (qualifiedName : Text → String)

mutual

/-- `GetTypeFromId`, with recursion of at most this depth. -/
def getTypeFromId : Nat → Text → Reading SourceType
  | 0, _ => Action.outOfFuel
  | fuel + 1, tid => getType doc (getTypeFromId fuel) (addElementRepresentation fuel) tid

/-- `AddElementRepresentation`, with recursion of at most this depth. -/
def addElementRepresentation : Nat → Text → Element → Reading SourceObject
  | 0, _, _ => Action.outOfFuel
  | fuel + 1, id, element =>
    addElement doc qualifiedName (getTypeFromId fuel) (addElementRepresentation fuel) id element

end

/-- The loop of `ConstructSourceRepresentation`. -/
def constructSourceRepresentation (fuel : Nat) : List Text → Reading Unit
  | [] => pure ()
  | id :: ids => do
    let element ← Action.ofOption (doc.element id)
    let _ ← addElementRepresentation doc qualifiedName fuel id element
    constructSourceRepresentation fuel ids

end Recursion

section CxxTypes

/-- The names that `FundamentalType::CreateCxxType` knows. -/
def fundamentalTypeNames : List (String × FundamentalId) :=
  [("unsigned char", .unsignedChar), ("unsigned short", .unsignedShortInt),
    ("short unsigned int", .unsignedShortInt), ("unsigned int", .unsignedInt),
    ("unsigned long", .unsignedLongInt), ("long unsigned int", .unsignedLongInt),
    ("unsigned long long", .unsignedLongLongInt),
    ("long long unsigned int", .unsignedLongLongInt), ("signed char", .signedChar),
    ("char", .char), ("short", .shortInt), ("signed short", .shortInt), ("short int", .shortInt),
    ("int", .int), ("signed int", .int), ("long", .longInt), ("signed long", .longInt),
    ("long int", .longInt), ("long long", .longLongInt), ("long long int", .longLongInt),
    ("wchar_t", .wChar_t), ("bool", .bool), ("float", .float), ("double", .double),
    ("long double", .longDouble), ("complex float", .complexFloat),
    ("complex double", .complexDouble), ("complex long double", .complexLongDouble),
    ("void", .void)]

def fundamentalTypeId (name : Text) : Option FundamentalId :=
  (fundamentalTypeNames.find? fun row => row.1.toList = name).map Prod.snd

/-- The target is a `MethodType` or an `OffsetType`. -/
def isMemberTarget : SourceType → Bool
  | .methodType _ _ _ _ | .offsetType _ _ _ => true
  | _ => false

mutual

/-- `CreateCxxType`, as the type that the created object stands for. -/
def createCxxType : SourceType → Option CvTerm
  | .null => none
  | .fundamentalType typeName quals =>
    (fundamentalTypeId typeName).map fun id => .mk (.fundamentalType id) quals.1 quals.2
  | .pointerType target quals => do
    let t ← createCxxType target
    if isMemberTarget target then pure (t.moreQualified quals.1 quals.2)
    else pure (.mk (.pointerType t) quals.1 quals.2)
  | .referenceType target => do
    let t ← createCxxType target
    pure (.mk (.referenceType t) false false)
  | .arrayType target length quals => do
    let t ← createCxxType target
    pure (.mk (.arrayType (t.moreQualified quals.1 quals.2) length) false false)
  | .classType c quals => some (.mk (.classType c) quals.1 quals.2)
  | .enumerationType e quals => some (.mk (.enumerationType e) quals.1 quals.2)
  | .functionType returns arguments => do
    let r ← createCxxType returns
    let args ← createCxxTypes arguments
    pure (.mk (.functionType r args) false false)
  | .methodType c returns arguments quals => do
    let r ← createCxxType returns
    let args ← createCxxTypes arguments
    pure (.mk (.pointerToMemberType (.mk (.functionType r args) quals.1 false) c) false false)
  | .offsetType c memberType quals => do
    let t ← createCxxType memberType
    pure (.mk (.pointerToMemberType (t.moreQualified quals.1 quals.2) c) false false)

def createCxxTypes : List SourceType → Option (List CvTerm)
  | [] => some []
  | t :: ts => do
    let first ← createCxxType t
    let rest ← createCxxTypes ts
    pure (first :: rest)

end

end CxxTypes

end CableSwig.Parsers.TypeReader
