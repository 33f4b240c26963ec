import CableSwig.Lib.Procedures
import CableSwig.Parsers.BasesAttribute
import CableSwig.Parsers.CarriedNumbers
import CableSwig.Parsers.TypeReader
import CableSwig.Parsers.XmlSourceParser
import Mathlib.Data.List.Sort

/-!
# Building the source representation

`AddElementRepresentation` and `GetTypeFromId` with all that they call, which turn the table of
elements into objects on demand, and the loop of `ConstructSourceRepresentation`.
-/
namespace CableSwig.Parsers.RepresentationBuilder

open CableSwig.CxxTypes
open CableSwig.GccXml.TypeDump
open CableSwig.Lib.Numerals
open CableSwig.Lib.OrderedMap
open CableSwig.Lib.Procedures
open CableSwig.Lib.Procedures.Program
open CableSwig.Lib.StdString
open CableSwig.Parsers.BasesAttribute (publicIds)
open CableSwig.Parsers.CarriedNumbers (parseOffset setLength)
open CableSwig.Parsers.TypeReader (isQualifier)
open CableSwig.Parsers.XmlSourceParser

section Objects

/-- What `AddArgument` has collected. -/
structure ArgumentNames where
  names : List Text
  attributes : List Text
  required : Nat

/-- A `Type` object, or a null pointer. Classes and enumerations are known by the ids of their
elements. -/
inductive SourceType
  | null
  | fundamentalType (typeName : Text) (quals : Quals)
  | pointerType (target : SourceType) (quals : Quals)
  | referenceType (target : SourceType)
  | arrayType (target : SourceType) (length : Nat) (quals : Quals)
  | classType (c : Text) (quals : Quals)
  | enumerationType (e : Text) (quals : Quals)
  | functionType (returns : SourceType) (types : List SourceType) (arguments : ArgumentNames)
  | methodType (c : Text) (returns : SourceType) (types : List SourceType)
      (arguments : ArgumentNames)
  | offsetType (c : Text) (memberType : SourceType) (quals : Quals)

/-- `Context::Access`. -/
inductive Access
  | Public | Protected | Private
  deriving DecidableEq

/-- The members of a `Named` object, which is known by the id of its element. -/
structure Named where
  id : Text
  name : Text
  file : Text := []
  line : Nat := 0
  context : Option Text := none

inductive ClassKind
  | cls | struct | union
  deriving DecidableEq

inductive FunctionKind
  | function | method | constructor | destructor | operatorFunction | operatorMethod | converter
  deriving DecidableEq

structure MethodFlags where
  isConst : Bool := false
  isStatic : Bool := false
  isVirtual : Bool := false
  isPureVirtual : Bool := false

inductive SourceObject
  | ns (named : Named)
  | nsAlias (named : Named) (target : Text)
  | type (t : SourceType)
  | enumeration (named : Named) (values : List (Text × Int))
  | cls (kind : ClassKind) (named : Named) (isAbstract : Bool) (bases : List Text)
  | typedef (named : Named) (type : SourceType)
  | var (named : Named) (initializer : Text) (type : SourceType)
  | field (named : Named) (offset : Int) (type : SourceType)
  | function (kind : FunctionKind) (named : Named) (type : SourceType) (flags : MethodFlags)

/-- A `Context`, with the context that its `AddNamed` adds members to. -/
structure ContextObject where
  id : Text
  owner : Text

namespace SourceObject

/-- The cast to `Context`. The `AddNamed` of an alias is that of the namespace. -/
def asContext : SourceObject → Option ContextObject
  | .ns named => some ⟨named.id, named.id⟩
  | .nsAlias named target => some ⟨named.id, target⟩
  | .cls _ named _ _ => some ⟨named.id, named.id⟩
  | _ => none

/-- The cast to `Namespace`. -/
def asNamespace : SourceObject → Option Text
  | .ns named => some named.id
  | _ => none

/-- The cast to `Class`. -/
def asClass : SourceObject → Option Text
  | .cls _ named _ _ => some named.id
  | _ => none

/-- The cast to `Type`. -/
def asType : SourceObject → Option SourceType
  | .type t => some t
  | _ => none

/-- The type that `GetTypeFromId` makes of an object that is there already. -/
def typeOf : SourceObject → Option SourceType
  | .type t => some t
  | .typedef _ t => some t
  | .cls _ named _ _ => some (.classType named.id ⊥)
  | .enumeration named _ => some (.enumerationType named.id ⊥)
  | _ => none

end SourceObject

/-- An entry of the member map of a context, or one of the other things that are set while the
objects are made. -/
inductive Change
  | addNamed (context name : Text) (access : Access) (named : Text)
  | setGlobalNamespace (id : Text)
  | setAttributes (id atts : Text)
  deriving DecidableEq

/-- The objects by their ids, and the changes in the order in which they were made. -/
structure Representation where
  sourceObjects : StdMap Text SourceObject := .empty
  changes : List Change := []

/-- The member map of a context. Members of one name are in the order in which they were added. -/
def Representation.memberMap (r : Representation) (context : Text) :
    List (Text × Access × Text) :=
  r.changes.filterMap fun
    | .addNamed c name access named => if c = context then some (name, access, named) else none
    | _ => none

/-- `m_GlobalNamespaceId`. -/
def Representation.globalNamespaceId (r : Representation) : Text :=
  (r.changes.foldl fun id change =>
    match change with
    | .setGlobalNamespace id' => id'
    | _ => id) []

/-- `GetAttributes` of the object of an element. -/
def Representation.attributes (r : Representation) (id : Text) : Text :=
  (r.changes.foldl fun atts change =>
    match change with
    | .setAttributes id' atts' => if id' = id then atts' else atts
    | _ => atts) []

end Objects

section Programs

/-- The places where a pointer is used unseen. -/
inductive Site
  | elementId
  | sourceFile (fid : Text)
  | baseElement (id : Text)
  | attributes (id : Text)
  | qualified (tid : Text)

structure Use where
  site : Site
  isNull : Bool

inductive Effect
  | setSourceObject (id : Text) (object : SourceObject)
  | change (c : Change)

/-- The functions that call each other. -/
inductive Procedure
  | element (element : Element)
  | type (tid : Text)
  | constructorReturn

/-- What a procedure returns, unless it is a null pointer. -/
def Answer : Procedure → Type
  | .element _ => SourceObject
  | .type _ => SourceType
  | .constructorReturn => SourceType

abbrev Builder := Program Answer Use Effect

def addElementRepresentation (element : Element) : Builder (Option SourceObject) :=
  Program.ask (A := Answer) (.element element)

def getTypeFromId (tid : Text) : Builder (Option SourceType) :=
  Program.ask (A := Answer) (.type tid)

def getConstructorReturnType : Builder (Option SourceType) :=
  Program.ask (A := Answer) .constructorReturn

def setSourceObject (id : Text) (object : SourceObject) : Builder Unit :=
  perform (.setSourceObject id object)

def dereference {α : Type} (site : Site) : Option α → Builder α :=
  deref fun isNull => ⟨site, isNull⟩

end Programs

section Builders

variable (p : SourceParser)

def getSourceElement (id : Text) : Option Element := p.elementMap.find stringLess id

/-- `GetElement`. -/
def getElement (element : Element) (name : String) : Option Element :=
  (getAttribute element.attributes name).bind (getSourceElement p)

/-- `SetFile` of what `GetSourceFile` gives, which copies the text. -/
def getFile (fid : Text) : Builder Text :=
  dereference (.sourceFile fid) (p.fileMap.find stringLess fid)

/-- The location, from `file` and `line` or from a `location` of the form `fid:line`. What is not
a number is only warned of. -/
def setLocation (element : Element) (named : Named) : Builder Named :=
  match getAttribute element.attributes "file", getAttribute element.attributes "line" with
  | some fid, some line => do
    let file ← getFile p fid
    pure { named with file, line := (scanUnsignedLong line).getD named.line }
  | _, _ =>
    match getAttribute element.attributes "location" with
    | none => pure named
    | some loc =>
      if ':' ∈ loc then do
        let file ← getFile p (loc.takeWhile (· ≠ ':'))
        let lineStr := (loc.dropWhile (· ≠ ':')).tail
        pure { named with file, line := (scanUnsignedLong lineStr).getD named.line }
      else pure named

def accessOf (element : Element) : Option Access :=
  match getAttribute element.attributes "access" with
  | none => some .Public
  | some a =>
    if a = "public".toList then some .Public
    else if a = "protected".toList then some .Protected
    else if a = "private".toList then some .Private
    else none

/-- The last part of `SetupNamed`. A context that cannot be made is left out. -/
def setContext (element : Element) (access : Access) (named : Named) : Builder Named :=
  match getElement p element "context" with
  | none => pure named
  | some contextElement => do
    let co ← addElementRepresentation contextElement
    match co.bind SourceObject.asContext with
    | none => pure named
    | some context => do
      perform (.change (.addNamed context.owner named.name access named.id))
      pure { named with context := some context.id }

/-- `SetupNamed`. Some kinds of objects have a name when they are anonymous. -/
def setupNamed (id : Text) (element : Element) (anonymous : Option String) : Builder Named := do
  let name ← ofOption ((getAttribute element.attributes "name").or (anonymous.map String.toList))
  let named ← setLocation p element { id, name }
  let access ← ofOption (accessOf element)
  setContext p element access named

/-- `SetSourceObject` for the element itself. -/
def register (id : Text) (object : SourceObject) : Builder SourceObject := do
  setSourceObject id object
  pure object

/-- The type with an id, which must not be null. -/
def requireType (tid : Text) : Builder SourceType := do
  let type ← getTypeFromId tid
  ofOption type

/-- The type that the `type` attribute refers to. -/
def getTarget (attributes : Attributes) : Builder SourceType := do
  let tid ← ofOption (getAttribute attributes "type")
  requireType tid

/-- A missing `returns` attribute is reported only, but for constructors and destructors. -/
def getReturns (element : Element) : Builder SourceType :=
  match getAttribute element.attributes "returns" with
  | some returnsId => requireType returnsId
  | none =>
    if element.name = "Constructor" ∨ element.name = "Destructor" then do
      let returns ← getConstructorReturnType
      ofOption returns
    else pure .null

/-- `AddArgument`, before the arguments that follow. -/
def addArgument (argType : SourceType) (attributes : Attributes)
    (rest : List SourceType × ArgumentNames) : List SourceType × ArgumentNames :=
  (argType :: rest.1,
    { names := (getAttribute attributes "name").getD [] :: rest.2.names
      attributes := (getAttribute attributes "attributes").getD [] :: rest.2.attributes
      required := rest.2.required + if (getAttribute attributes "default").isNone then 1 else 0 })

/-- The loop of `SetupFunctionType`. -/
def setupArguments : List (String × Attributes) → Builder (List SourceType × ArgumentNames)
  | [] => pure ([], ⟨[], [], 0⟩)
  | (name, attributes) :: nested =>
    if name = "Argument" then do
      let argType ← getTarget attributes
      let rest ← setupArguments nested
      pure (addArgument argType attributes rest)
    else if name = "Ellipsis" then setupArguments nested
    else fail

def setupFunctionType (element : Element) :
    Builder (SourceType × List SourceType × ArgumentNames) := do
  let returns ← getReturns element
  let arguments ← setupArguments element.nested
  pure (returns, arguments)

def newFunctionType (element : Element) : Builder SourceType := do
  let (returns, types, arguments) ← setupFunctionType element
  pure (.functionType returns types arguments)

/-- The loop of `SetupClass`, over the ids that are cut out of the attribute. -/
def setupBases : List Text → Builder (List Text)
  | [] => pure []
  | id :: ids => do
    let belement ← dereference (.baseElement id) (getSourceElement p id)
    let bobj ← addElementRepresentation belement
    let base ← ofOption (bobj.bind SourceObject.asClass)
    let bases ← setupBases ids
    pure (base :: bases)

def isOne (element : Element) (name : String) : Bool :=
  getAttribute element.attributes name = some ['1']

/-- The id that is made up for the type of an element. -/
def typeId (id : Text) : Text := id ++ ['_', 't']

def setupClass (kind : ClassKind) (anonymous : String) (id : Text) (element : Element) :
    Builder SourceObject := do
  let named ← setupNamed p id element (some anonymous)
  let bases ← setupBases p (publicIds ((getAttribute element.attributes "bases").getD []))
  setSourceObject (typeId id) (.type (.classType named.id ⊥))
  register id (.cls kind named (isOne element "abstract") bases)

/-- `SetupVariable`, for what is made of the name and the type. -/
def setupVariable (id : Text) (element : Element) (make : Named → SourceType → SourceObject) :
    Builder SourceObject := do
  let named ← setupNamed p id element none
  let type ← getTarget element.attributes
  register id (make named type)

def isGlobalNamespace (named : Named) : Bool :=
  named.name = "::".toList ∧ named.context.isNone

def addNamespace (id : Text) (element : Element) : Builder SourceObject := do
  let named ← setupNamed p id element (some "\x7banonymous-namespace\x7d")
  setSourceObject id (.ns named)
  if isGlobalNamespace named then
    perform (.change (.setGlobalNamespace id))
  pure (.ns named)

def addNamespaceAlias (id : Text) (element : Element) : Builder SourceObject := do
  let named ← setupNamed p id element none
  let nsElement ← ofOption (getElement p element "namespace")
  let nso ← addElementRepresentation nsElement
  let target ← ofOption (nso.bind SourceObject.asNamespace)
  register id (.nsAlias named target)

def addFundamentalType (id : Text) (element : Element) : Builder SourceObject := do
  let name ← ofOption (getAttribute element.attributes "name")
  register id (.type (.fundamentalType name ⊥))

def addPointerType (id : Text) (element : Element) : Builder SourceObject := do
  let target ← getTarget element.attributes
  register id (.type (.pointerType target ⊥))

def addReferenceType (id : Text) (element : Element) : Builder SourceObject := do
  let target ← getTarget element.attributes
  register id (.type (.referenceType target))

def addArrayType (id : Text) (element : Element) : Builder SourceObject := do
  let targetId ← ofOption (getAttribute element.attributes "type")
  -- An invalid target is reported, but does not end the function.
  let target ← getTypeFromId targetId
  let maxStr ← ofOption (getAttribute element.attributes "max")
  let len ← ofOption (setLength maxStr)
  register id (.type (.arrayType (target.getD .null) len ⊥))

def addFunctionType (id : Text) (element : Element) : Builder SourceObject := do
  let type ← newFunctionType element
  register id (.type type)

/-- The class that the `basetype` attribute refers to. -/
def getBasetype (element : Element) : Builder Text := do
  let bte ← ofOption (getElement p element "basetype")
  let c ← addElementRepresentation bte
  ofOption (c.bind SourceObject.asClass)

def addMethodType (id : Text) (element : Element) : Builder SourceObject := do
  let c ← getBasetype p element
  let (returns, types, arguments) ← setupFunctionType element
  register id (.type (.methodType c returns types arguments))

def addOffsetType (id : Text) (element : Element) : Builder SourceObject := do
  let c ← getBasetype p element
  let mtype ← getTarget element.attributes
  register id (.type (.offsetType c mtype ⊥))

/-- The values of an enumeration. -/
def setupValues : List (String × Attributes) → Option (List (Text × Int))
  | [] => some []
  | (name, attributes) :: nested =>
    if name = "EnumValue" then do
      let valueName ← getAttribute attributes "name"
      let initStr ← getAttribute attributes "init"
      let init ← scanInt initStr
      let values ← setupValues nested
      pure ((valueName, init) :: values)
    else none

def addEnumeration (id : Text) (element : Element) : Builder SourceObject := do
  let named ← setupNamed p id element none
  -- The name of an anonymous enumeration is left empty, but it is a member under the other name.
  let name := if named.name.head? = some '.' then [] else named.name
  let values ← ofOption (setupValues element.nested)
  setSourceObject (typeId id) (.type (.enumerationType named.id ⊥))
  register id (.enumeration { named with name } values)

def addClass : Text → Element → Builder SourceObject :=
  setupClass p .cls "\x7banonymous-class\x7d"

def addStruct : Text → Element → Builder SourceObject :=
  setupClass p .struct "\x7banonymous-struct\x7d"

def addUnion : Text → Element → Builder SourceObject :=
  setupClass p .union "\x7banonymous-union\x7d"

def addTypedef (id : Text) (element : Element) : Builder SourceObject :=
  setupVariable p id element .typedef

def addVariable (id : Text) (element : Element) : Builder SourceObject :=
  setupVariable p id element
    fun named => .var named ((getAttribute element.attributes "init").getD [])

def addField (id : Text) (element : Element) : Builder SourceObject :=
  setupVariable p id element
    fun named => .field named (parseOffset (getAttribute element.attributes "offset"))

/-- The functions that add a function, which differ in its kind and in the flags that they set. -/
def setupFunction (kind : FunctionKind) (anonymous : Option String) (flags : MethodFlags)
    (id : Text) (element : Element) : Builder SourceObject := do
  let named ← setupNamed p id element anonymous
  let ft ← newFunctionType element
  setSourceObject (typeId id) (.type ft)
  register id (.function kind named ft flags)

def addFunction : Text → Element → Builder SourceObject :=
  setupFunction p .function none {}

def addMethod (id : Text) (element : Element) : Builder SourceObject :=
  let flags : MethodFlags :=
    { isConst := isOne element "const"
      isStatic := isOne element "static"
      isVirtual := isOne element "virtual"
      isPureVirtual := isOne element "pure_virtual" }
  if flags.isConst ∧ flags.isStatic then fail
  else if flags.isVirtual ∧ flags.isStatic then fail
  else setupFunction p .method none flags id element

def addConstructor : Text → Element → Builder SourceObject :=
  setupFunction p .constructor (some "\x7banonymous-constructor\x7d") {}

def addDestructor : Text → Element → Builder SourceObject :=
  setupFunction p .destructor none {}

def addOperatorFunction : Text → Element → Builder SourceObject :=
  setupFunction p .operatorFunction none {}

def addOperatorMethod (id : Text) (element : Element) : Builder SourceObject :=
  let flags : MethodFlags :=
    { isConst := isOne element "const", isStatic := isOne element "static" }
  if flags.isConst ∧ flags.isStatic then fail
  else setupFunction p .operatorMethod none flags id element

def addConverter (id : Text) (element : Element) : Builder SourceObject :=
  setupFunction p .converter none { isConst := isOne element "const" } id element

/-- The dispatch of `AddElementRepresentation`. -/
def construct (id : Text) (element : Element) : Builder SourceObject :=
  match element.name with
  | "Namespace" => addNamespace p id element
  | "NamespaceAlias" => addNamespaceAlias p id element
  | "FundamentalType" => addFundamentalType id element
  | "PointerType" => addPointerType id element
  | "ReferenceType" => addReferenceType id element
  | "ArrayType" => addArrayType id element
  | "FunctionType" => addFunctionType id element
  | "MethodType" => addMethodType p id element
  | "OffsetType" => addOffsetType p id element
  | "Enumeration" => addEnumeration p id element
  | "Class" => addClass p id element
  | "Struct" => addStruct p id element
  | "Union" => addUnion p id element
  | "Typedef" => addTypedef p id element
  | "Variable" => addVariable p id element
  | "Field" => addField p id element
  | "Function" => addFunction p id element
  | "Method" => addMethod p id element
  | "Constructor" => addConstructor p id element
  | "Destructor" => addDestructor p id element
  | "OperatorFunction" => addOperatorFunction p id element
  | "OperatorMethod" => addOperatorMethod p id element
  | "Converter" => addConverter p id element
  | _ => fail

/-- The end of `AddElementRepresentation`, where the object may be null. -/
def saveAttributes (id : Text) (element : Element) (o : Option SourceObject) :
    Builder SourceObject :=
  match getAttribute element.attributes "attributes" with
  | none => ofOption o
  | some atts => do
    let object ← dereference (.attributes id) o
    perform (.change (.setAttributes id atts))
    pure object

/-- `AddElementRepresentation` of an element that has no object yet. -/
def addElement (element : Element) : Builder SourceObject := do
  let id ← dereference .elementId (getAttribute element.attributes "id")
  let o ← (construct p id element).attempt
  saveAttributes id element o

/-- The copy of a type with these qualifiers. Some types do not take any. -/
def withQualifiers (type : SourceType) (quals : Quals) : Option SourceType :=
  match type with
  | .fundamentalType typeName _ => some (.fundamentalType typeName quals)
  | .pointerType target _ => some (.pointerType target quals)
  | .arrayType target length _ => some (.arrayType target length quals)
  | .classType c _ => some (.classType c quals)
  | .offsetType c memberType _ => some (.offsetType c memberType quals)
  | .enumerationType e _ => some (.enumerationType e quals)
  | .functionType _ _ _ | .methodType _ _ _ _ | .referenceType _ | .null => none

/-- The id of a type without the qualifiers. -/
def unqualified (tid : Text) : Text := tid.takeWhile (!isQualifier ·)

def qualifiers (tid : Text) : Quals :=
  let cv := tid.dropWhile (!isQualifier ·)
  ('c' ∈ cv, 'v' ∈ cv)

/-- The end of `GetTypeFromId`. -/
def addQualifiers (tid : Text) (type : Option SourceType) : Builder SourceType :=
  if qualifiers tid = ⊥ then ofOption type
  else do
    let unqualifiedType ← dereference (.qualified tid) type
    let newType ← ofOption (withQualifiers unqualifiedType (qualifiers tid))
    setSourceObject tid (.type newType)
    pure newType

/-- `GetTypeFromId` of an id that has no object yet. -/
def findType (tid : Text) : Builder SourceType := do
  let typeElement ← ofOption (getSourceElement p (unqualified tid))
  let o ← addElementRepresentation typeElement
  let _ ← ofOption o
  let type ← getTypeFromId (unqualified tid)
  addQualifiers tid type

/-- `GetConstructorReturnType`, the first time. -/
def addConstructorReturnType : Builder SourceType := do
  let type : SourceType := .fundamentalType "void".toList ⊥
  setSourceObject "crt".toList (.type type)
  pure type

end Builders

section Construction

variable (p : SourceParser)

namespace Representation

def getSourceObject (r : Representation) (id : Text) : Option SourceObject :=
  r.sourceObjects.find stringLess id

def apply (r : Representation) : Effect → Representation
  | .setSourceObject id object =>
    { r with sourceObjects := r.sourceObjects.assign stringLess id object }
  | .change c => { r with changes := r.changes ++ [c] }

/-- What a procedure finds before it makes anything. -/
def found (r : Representation) : (i : Procedure) → Option (Option (Answer i))
  | .element element =>
    ((getAttribute element.attributes "id").bind r.getSourceObject).map some
  | .type tid => (r.getSourceObject tid).map SourceObject.typeOf
  | .constructorReturn => (r.getSourceObject "crt".toList).map SourceObject.asType

end Representation

def body : (i : Procedure) → Builder (Answer i)
  | .element element => addElement p element
  | .type tid => findType p tid
  | .constructorReturn => addConstructorReturnType

/-- The functions of the parser on the representation that they build. -/
def builderSystem : System Answer Use Effect Representation where
  found i r := r.found i
  body := body p
  apply effect r := r.apply effect
  isNull := Use.isNull

/-- The loop of `ConstructSourceRepresentation`. -/
def addElements : List Element → Builder Unit
  | [] => pure ()
  | element :: elements => do
    let o ← addElementRepresentation element
    let _ ← ofOption o
    addElements elements

/-- The elements in the order of their ids. -/
def elementsInOrder : List Element :=
  (p.elementMap.entries.insertionSort fun a b => ¬ stringLess b.1 a.1).map Prod.snd

/-- The run of the loop over these elements, with recursion of at most this depth. -/
def runElements (fuel : Nat) (elements : List Element) : Option (Run Use Representation Unit) :=
  exec (builderSystem p) (invoke (builderSystem p) fuel) (addElements elements) {}

mutual

/-- The type as `CreateCxxType` sees it. -/
def SourceType.plain : SourceType → TypeReader.SourceType
  | .null => .null
  | .fundamentalType typeName quals => .fundamentalType typeName quals
  | .pointerType target quals => .pointerType target.plain quals
  | .referenceType target => .referenceType target.plain
  | .arrayType target length quals => .arrayType target.plain length quals
  | .classType c quals => .classType (String.ofList c) quals
  | .enumerationType e quals => .enumerationType (String.ofList e) quals
  | .functionType returns types _ => .functionType returns.plain (plainTypes types)
  | .methodType c returns types _ =>
    .methodType (String.ofList c) returns.plain (plainTypes types) ⊥
  | .offsetType c memberType quals => .offsetType (String.ofList c) memberType.plain quals

def plainTypes : List SourceType → List TypeReader.SourceType
  | [] => []
  | t :: ts => t.plain :: plainTypes ts

end

/-- `CreateCxxTypes`, which succeeds if all types can be created. -/
def Representation.createCxxTypes (r : Representation) : Bool :=
  r.sourceObjects.entries.all fun entry =>
    match entry.2.asType with
    | none => true
    | some t => (TypeReader.createCxxType t.plain).isSome

/-- What `ConstructSourceRepresentation` does after the loop, which has ended in a crash where a
null pointer is used and has failed where a null pointer is returned. -/
def finish (r : Run Use Representation Unit) : Outcome Representation :=
  match r.outcome with
  | .crashed => .crashed
  | .failed => .failed
  | .returned _ => if r.state.createCxxTypes then .returned r.state else .failed

def constructSourceRepresentation (fuel : Nat) : Option (Outcome Representation) :=
  (runElements p fuel (elementsInOrder p)).map finish

/-- `GetSourceRepresentation`, the first time that it is called. -/
def getSourceRepresentation (fuel : Nat) : Option (Outcome Representation) :=
  if p.sourceParseError ∨ p.elementMap.entries = [] then some .failed
  else constructSourceRepresentation p fuel

end Construction

end CableSwig.Parsers.RepresentationBuilder
