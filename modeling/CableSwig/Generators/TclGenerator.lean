import CableSwig.CxxTypes.DeclarationPrinter
import CableSwig.Generators.CvTypeWriter
import CableSwig.Lib.BreadthFirst
import Mathlib.Data.List.Dedup

/-!
# The Tcl generator

What `TclGenerator` collects from the wrapped classes, and the wrappers that it writes for them.
The comments of the wrappers are left out, and the headers and the package, which no group has.
-/
namespace CableSwig.Generators.TclGenerator

open CableSwig.CxxTypes
open CableSwig.CxxTypes.DeclarationPrinter (Printed text)
open CableSwig.CxxTypes.TypeSystem
open CableSwig.Generators.CvTypeWriter
open CableSwig.Lib.BreadthFirst

variable {κ ε α : Type}

section Names

/-- The type as a term. A class that a pointer to member points into is known by its name. -/
def termOf (g : Types α) (t : α) : TypeTerm :=
  match _hnode : g.node t with
  | .arrayType e length => .arrayType (.mk (termOf g e.type) e.isConst e.isVolatile) length
  | .classType name _ _ => .classType name
  | .enumerationType name => .enumerationType name
  | .functionType r arguments =>
    .functionType (.mk (termOf g r.type) r.isConst r.isVolatile)
      (arguments.attach.map fun ⟨a, _⟩ => .mk (termOf g a.type) a.isConst a.isVolatile)
  | .fundamentalType id => .fundamentalType id
  | .pointerType p => .pointerType (.mk (termOf g p.type) p.isConst p.isVolatile)
  | .pointerToMemberType p c =>
    .pointerToMemberType (.mk (termOf g p.type) p.isConst p.isVolatile)
      (match g.node c with
        | .classType name _ _ => name
        | _ => "")
  | .referenceType r => .referenceType (.mk (termOf g r.type) r.isConst r.isVolatile)
termination_by g.rank t
decreasing_by
  all_goals
    apply g.rank_lt
    rw [_hnode]
    simp_all [innerTypes]
    try exact Or.inr ⟨_, ‹_›, rfl⟩

def cvTermOf (g : Types α) (t : CvQualifiedType α) : CvTerm :=
  .mk (termOf g t.type) t.isConst t.isVolatile

/-- `GetName`. -/
def getName (g : Types α) (t : CvQualifiedType α) : Printed :=
  DeclarationPrinter.getName (cvTermOf g t)

end Names

section Source

/-- A type of the source, as far as the generator tells them apart. -/
inductive CableType (κ ε α : Type)
  | classType (c : κ) (isConst isVolatile : Bool)
  | enumerationType (e : ε) (isConst isVolatile : Bool)
  | referenceType (target : CableType κ ε α)
  | other (cxxType : CvQualifiedType α)

/-- `Function::FunctionIdType`. -/
inductive FunctionId
  | function | method | constructor | destructor | converter | operatorMethod | operatorFunction
  deriving DecidableEq

structure FunctionType (κ ε α : Type) where
  returns : Option (CableType κ ε α)
  arguments : List (CableType κ ε α)
  requiredArguments : Nat

structure Function (κ ε α : Type) where
  functionId : FunctionId
  name : String
  context : κ
  functionType : FunctionType κ ε α
  isStatic : Bool
  isConst : Bool

/-- `Method::SafeDownCast` succeeds. -/
def Function.isMethod (f : Function κ ε α) : Bool :=
  match f.functionId with
  | .function => false
  | .operatorFunction => false
  | _ => true

/-- `GetCallName`. -/
def Function.callName (f : Function κ ε α) : String :=
  match f.functionId with
  | .operatorMethod => "operator " ++ f.name
  | .operatorFunction => "operator " ++ f.name
  | _ => f.name

/-- `Context::Access`. -/
inductive Access
  | isPublic | isProtected | isPrivate
  deriving DecidableEq

/-- A member of a class, with its function if it is one. -/
structure Member (κ ε α : Type) where
  access : Access
  function : Option (Function κ ε α)

structure Class (κ ε α : Type) where
  qualifiedName : String
  isAbstract : Bool
  baseClasses : List κ
  members : List (Member κ ε α)

structure Enumeration where
  qualifiedName : String
  contextName : String
  values : List String

/-- A source representation whose types have been created: each function has its types then. -/
structure SourceRepresentation (κ ε α : Type) extends Types α where
  getReferenceType : CvQualifiedType α → α
  getPointerType : CvQualifiedType α → α
  classType : κ → α
  enumerationType : ε → α
  getClass : κ → Class κ ε α
  getEnumeration : ε → Enumeration
  classRank : κ → Nat
  classRank_lt : ∀ c, ∀ b ∈ (getClass c).baseClasses, classRank b < classRank c
  referenceType_node : ∀ t, node (getReferenceType t) = .referenceType t
  pointerType_node : ∀ t, node (getPointerType t) = .pointerType t
  classType_node : ∀ c, ∃ copyable parents,
    node (classType c) = .classType (getClass c).qualifiedName copyable parents
  enumerationType_node : ∀ e, node (enumerationType e) =
    .enumerationType (getEnumeration e).qualifiedName
  returns_isSome : ∀ c, ∀ m ∈ (getClass c).members, ∀ f, m.function = some f →
    f.functionType.returns.isSome = true

variable (r : SourceRepresentation κ ε α)

/-- `GetCxxType`. -/
def getCxxType : CableType κ ε α → CvQualifiedType α
  | .classType c isConst isVolatile => ⟨r.classType c, isConst, isVolatile⟩
  | .enumerationType e isConst isVolatile => ⟨r.enumerationType e, isConst, isVolatile⟩
  | .referenceType target => ⟨r.getReferenceType (getCxxType target), false, false⟩
  | .other cxxType => cxxType

/-- `GetMoreQualifiedType`. -/
def moreQualified (t : CvQualifiedType α) (isConst isVolatile : Bool) : CvQualifiedType α :=
  ⟨t.type, t.isConst || isConst, t.isVolatile || isVolatile⟩

/-- The parents of a class type. -/
def parents (g : Types α) (t : α) : List α :=
  match g.node t with
  | .classType _ _ parents => parents
  | _ => []

/-- `IsCopyConstructor`. -/
def isCopyConstructor [DecidableEq κ] (c : κ) (m : Function κ ε α) : Bool :=
  match m.functionId, m.functionType.arguments with
  | .constructor, [.referenceType (.classType d _ _)] => m.context = c && d = c
  | _, _ => false

/-- `HasPublicCopyConstructor`, with fuel for the depth of the bases. -/
def hasPublicCopyConstructorFrom [DecidableEq κ] : Nat → κ → Bool
  | 0, _ => false
  | depth + 1, c =>
    ((r.getClass c).members.any fun m =>
      match m.function with
      | some f => f.functionId = .constructor && m.access = .isPublic && isCopyConstructor c f
      | none => false) &&
    (r.getClass c).baseClasses.all fun b => hasPublicCopyConstructorFrom depth b

def hasPublicCopyConstructor [DecidableEq κ] (c : κ) : Bool :=
  hasPublicCopyConstructorFrom r (r.classRank c + 1) c

end Source

section Finding

/-- What the search for types does: it adds to the `CvTypeWriter` and to the sets. -/
inductive Need (ε α : Type)
  | cvType (t : CvQualifiedType α)
  | derivedToBase (t : α)
  | enumerationReturn (e : ε)
  | enumerationValues (e : ε)

variable (r : SourceRepresentation κ ε α)

/-- `AddCvReferenceType`. -/
def addCvReferenceType (target : CvQualifiedType α) : Need ε α :=
  .cvType (unqualified (r.getReferenceType target))

/-- `AddCvPointerType`. -/
def addCvPointerType (target : CvQualifiedType α) : Need ε α :=
  .cvType (unqualified (r.getPointerType target))

/-- The references and the pointers to a class and to the const class. -/
def addClassCvTypes (self constSelf : CvQualifiedType α) : List (Need ε α) :=
  [addCvReferenceType r self, addCvReferenceType r constSelf, addCvPointerType r self,
    addCvPointerType r constSelf]

/-- `AddSuperclassCvTypes`, with fuel for the depth of the parents. -/
def addSuperclassCvTypesFrom : Nat → α → List (Need ε α)
  | 0, _ => []
  | depth + 1, t =>
    addClassCvTypes r ⟨t, false, false⟩ ⟨t, true, false⟩ ++
      (parents r.toTypes t).flatMap fun p => addSuperclassCvTypesFrom depth p

def addSuperclassCvTypes (t : α) : List (Need ε α) :=
  addSuperclassCvTypesFrom r (r.rank t + 1) t

/-- The type whose class gets derived-to-base conversions when something of the type is
returned. -/
def conversionSource (returnType : CvQualifiedType α) : CvQualifiedType α :=
  match r.node returnType.type with
  | .referenceType referencedType => referencedType
  | .pointerType pointedToType => pointedToType
  | _ => returnType

/-- `FindReturnCvTypes`. -/
def findReturnCvTypes (returns : CableType κ ε α) : List (Need ε α) :=
  let returnType := getCxxType r returns
  [.cvType returnType] ++
  (match returns with
    | .enumerationType e _ _ => [.enumerationReturn e, .enumerationValues e]
    | _ => []) ++
  let cvType := conversionSource r returnType
  match r.node cvType.type with
  | .classType _ _ _ => addSuperclassCvTypes r cvType.type ++ [.derivedToBase cvType.type]
  | _ => []

/-- `FindArgumentCvTypes`. -/
def findArgumentCvTypes (argument : CableType κ ε α) : List (Need ε α) :=
  [.cvType (getCxxType r argument)] ++
  match argument with
  | .enumerationType e _ _ => [.enumerationValues e]
  | .referenceType (.enumerationType e _ _) => [.enumerationValues e]
  | _ => []

/-- `FindFunctionCvTypes`. -/
def findFunctionCvTypes (f : Function κ ε α) : List (Need ε α) :=
  (match f.functionType.returns with
    | some returns => findReturnCvTypes r returns
    | none => []) ++
  f.functionType.arguments.flatMap (findArgumentCvTypes r)

/-- `FindClassCvTypes`. -/
def findClassCvTypes (c : κ) : List (Need ε α) :=
  let cvClass : CvQualifiedType α := ⟨r.classType c, false, false⟩
  addClassCvTypes r cvClass (moreQualified cvClass true false) ++
  addSuperclassCvTypes r cvClass.type ++ [.derivedToBase cvClass.type] ++
  (r.getClass c).members.flatMap fun m =>
    if m.access = .isPublic then
      match m.function with
      | some f => findFunctionCvTypes r f
      | none => []
    else []

/-- The wrapped classes with their names. -/
abbrev ClassWrapperMap (κ : Type) := List (κ × List String)

/-- `FindCvTypes`. -/
def findCvTypes (wrappers : ClassWrapperMap κ) : List (Need ε α) :=
  wrappers.flatMap fun i => findClassCvTypes r i.1

/-- The calls of `CvTypeWriter::Add`. -/
def cvTypes (needs : List (Need ε α)) : List (CvQualifiedType α) :=
  needs.filterMap fun
    | .cvType t => some t
    | _ => none

variable [DecidableEq α] [DecidableEq ε]

def classesForDerivedToBase (needs : List (Need ε α)) : List α :=
  (needs.filterMap fun
    | .derivedToBase t => some t
    | _ => none).dedup

def enumerationsThatNeedReturn (needs : List (Need ε α)) : List ε :=
  (needs.filterMap fun
    | .enumerationReturn e => some e
    | _ => none).dedup

def enumerationsThatNeedValues (needs : List (Need ε α)) : List ε :=
  (needs.filterMap fun
    | .enumerationValues e => some e
    | _ => none).dedup

end Finding

section Writing

/-- What is written: text, names, and the occurrences of `CvType< X >`. The line that
specializes it, the definition of its member and the assignment to it are told apart from the
other ones. -/
inductive Output
  | text (s : String)
  | name (n : Printed)
  | specialized (x : Printed)
  | defined (x : Printed)
  | assigned (x : Printed)
  | used (x : Printed)

def outputOf (g : Types α) : Piece α → Output
  | .text s => .text s
  | .assigned t => .assigned (getName g t)
  | .used t => .used (getName g t)

variable (r : SourceRepresentation κ ε α)

/-- The name of a class or an enumeration, and with a const before it. -/
def qualifiedName (isConst : Bool) (n : String) : Printed :=
  if isConst then DeclarationPrinter.text "const " ++ [.name n] else [.name n]

def writeArgumentFor (g : Types α) (template : String) (t : CvQualifiedType α) : List Output :=
  [.text ("typedef " ++ template ++ "< "), .name (getName g t), .text " > ArgumentFor; "]

/-- `WriteArgumentAs`. -/
def writeArgumentAs (g : Types α) (cvType : CvQualifiedType α) : List Output :=
  match g.node cvType.type with
  | .arrayType elementType _ => writeArgumentFor g "ArgumentAsPointerTo_array" elementType
  | .classType _ _ _ => writeArgumentFor g "ArgumentAsInstanceOf" cvType
  | .enumerationType _ => writeArgumentFor g "ArgumentAsInstanceOf" cvType
  | .fundamentalType _ => writeArgumentFor g "ArgumentAsInstanceOf" cvType
  | .pointerType target =>
    match g.node target.type with
    | .functionType _ _ => writeArgumentFor g "ArgumentAsPointerToFunction" target
    | .pointerType _ => writeArgumentFor g "ArgumentAsPointerTo_array" target
    | .enumerationType _ => writeArgumentFor g "ArgumentAsPointerTo_array" target
    | .fundamentalType id =>
      if id = .void then writeArgumentFor g "ArgumentAsPointerTo" target
      else writeArgumentFor g "ArgumentAsPointerTo_array" target
    | _ => writeArgumentFor g "ArgumentAsPointerTo" target
  | .pointerToMemberType _ _ => []
  | .referenceType target =>
    let isCopyable := match g.node target.type with
      | .classType _ copyable _ => copyable
      | _ => true
    if target.isConst && !target.isVolatile && isCopyable then
      writeArgumentFor g "ArgumentAsReferenceTo_const" (unqualified target.type)
    else writeArgumentFor g "ArgumentAsReferenceTo" target
  | .functionType _ _ => []

/-- `WriteClasses`. -/
def writeClasses (g : Types α) (w : Writer α) : List Output :=
  w.typeOrdering.flatMap fun t =>
    [Output.text "template <> struct ", .specialized (getName g t),
      .text "   \x7b static CvQualifiedType type; typedef ",
      .name (DeclarationPrinter.generateDeclaration (cvTermOf g (unqualified t.type))
        (DeclarationPrinter.text "NoCv")), .text "; "] ++
    writeArgumentAs g t ++ [Output.text "\x7d;\n"]

/-- `WriteDataDeclarations`. -/
def writeDataDeclarations (g : Types α) (w : Writer α) : List Output :=
  w.typeOrdering.flatMap fun t =>
    [Output.text "CvQualifiedType ", .defined (getName g t), .text "::type;\n"]

/-- A method with the number of arguments that it is called with. -/
structure MethodEntry (κ ε α : Type) where
  method : Function κ ε α
  argumentCount : Nat

/-- What `FindMethods` finds. -/
structure Methods (κ ε α : Type) where
  methods : List (MethodEntry κ ε α) := []
  converters : List (MethodEntry κ ε α) := []
  classesThatNeedDestructor : List α := []
  hasPublicDestructor : Bool := true

/-- The entries for a public method. -/
def addEntries (c : κ) (m : Function κ ε α) (found : Methods κ ε α) : Methods κ ε α :=
  let ft := m.functionType
  if m.functionId = .method || m.functionId = .operatorMethod ||
      (m.functionId = .constructor && !(r.getClass c).isAbstract) then
    -- One entry for each allowed number of arguments.
    { found with methods := found.methods ++
        (List.range' ft.requiredArguments
          (ft.arguments.length + 1 - ft.requiredArguments)).map fun i => ⟨m, i⟩ }
  else if m.functionId = .converter then
    { found with converters := found.converters ++ [⟨m, 0⟩] }
  else found

/-- One round of the loop in `FindMethods`. -/
def findMethod [DecidableEq κ] (c : κ) (copyValid : Bool) (found : Methods κ ε α)
    (member : Member κ ε α) : Methods κ ε α :=
  match member.function with
  | none => found
  | some m =>
    if m.isMethod && member.access = .isPublic && (copyValid || !isCopyConstructor c m) then
      let found := addEntries r c m found
      -- A temporary of class type must have a public destructor.
      match m.functionType.returns with
      | some (.classType d _ _) =>
        { found with
          classesThatNeedDestructor := found.classesThatNeedDestructor ++ [r.classType d] }
      | _ => found
    else if m.isMethod && member.access ≠ .isPublic && m.functionId = .destructor then
      { found with hasPublicDestructor := false }
    else found

/-- `FindMethods`. -/
def findMethods [DecidableEq κ] (c : κ) : Methods κ ε α :=
  let found := (r.getClass c).members.foldl (findMethod r c (hasPublicCopyConstructor r c)) {}
  if found.hasPublicDestructor then
    { found with
      classesThatNeedDestructor := found.classesThatNeedDestructor ++ [r.classType c] }
  else found

/-- `GetOperatorName`. -/
def getOperatorName (name : String) : String :=
  match name with
  | "=" => "assign"
  | "+" => "plus"
  | "+=" => "aplus"
  | "-" => "minus"
  | "-=" => "aminus"
  | "*" => "multiply"
  | "*=" => "amultiply"
  | "/" => "divide"
  | "/=" => "adivide"
  | _ => ""

/-- `WriteMethodName`. -/
def writeMethodName (m : Function κ ε α) (index : Nat) : String :=
  let stName := if m.isStatic then "Static" else ""
  let mtName := match m.functionId with
    | .constructor => "Constructor"
    | .operatorMethod => "Operator"
    | _ => "Method"
  let fName := match m.functionId with
    | .operatorMethod => getOperatorName m.name
    | _ => m.name
  stName ++ mtName ++ "_" ++ toString index ++ "_" ++ fName

/-- `ReturnsVoid`. -/
def returnsVoid (f : Function κ ε α) : Bool :=
  match f.functionType.returns with
  | none => true
  | some rt =>
    match r.node (getCxxType r rt).type with
    | .fundamentalType id => id = .void
    | _ => false

/-- `GetReturnTypeName`. -/
def getReturnTypeName (f : Function κ ε α) : Printed :=
  match f.functionType.returns with
  | none => DeclarationPrinter.text "void"
  | some rt =>
    if returnsVoid r f then DeclarationPrinter.text "void" else getName r.toTypes (getCxxType r rt)

/-- `WriteImplicitArgument`. -/
def writeImplicitArgument (c : κ) (m : Function κ ε α) : List Output :=
  let implicit := qualifiedName m.isConst (r.getClass c).qualifiedName
  [Output.text "  ", .name implicit, .text "& instance = ArgumentAsReferenceTo< ", .name implicit,
    .text " >(wrapperFacility)(arguments[0]);\n"]

/-- `WriteReturnBegin`. -/
def writeReturnBegin (f : Function κ ε α) : List Output :=
  match f.functionType.returns with
  | none => []
  | some rt =>
    if returnsVoid r f then []
    else
      let cvType := getCxxType r rt
      match r.node cvType.type with
      | .pointerType targetType =>
        [Output.text "  ReturnPointerTo< ", .name (getName r.toTypes targetType),
          .text " >::From(\n"]
      | .referenceType targetType =>
        [Output.text "  ReturnReferenceTo< ", .name (getName r.toTypes targetType),
          .text " >::From(\n"]
      | .enumerationType _ =>
        [Output.text "  ReturnEnum< ", .name (getName r.toTypes cvType), .text " >::From(\n"]
      | _ => [Output.text "  Return< ", .name (getName r.toTypes cvType), .text " >::From(\n"]

/-- `WriteReturnEnd`. -/
def writeReturnEnd (f : Function κ ε α) : String :=
  if returnsVoid r f then ");\n  Return<void>::From(wrapperFacility"
  else "), wrapperFacility"

/-- `WriteArgumentList`. Each number below `count` is that of an argument. -/
def writeArgumentList (ft : FunctionType κ ε α) (offset count : Nat) : List Output :=
  (List.range count).flatMap fun i =>
    match ft.arguments[i]? with
    | some argument =>
      [Output.text (if i > 0 then "," else ""), .text "\n    ",
        .used (getName r.toTypes (getCxxType r argument)),
        .text ("::ArgumentFor(wrapperFacility)(arguments[" ++ toString (i + offset) ++ "])")]
    | none => []

/-- `WriteMethodWrapper`. -/
def writeMethodWrapper (c : κ) (entry : MethodEntry κ ε α) (index : Nat) : List Output :=
  let m := entry.method
  let cName : Printed := [.name (r.getClass c).qualifiedName]
  let argParm := if entry.argumentCount = 0 && (m.isStatic || m.functionId = .constructor) then ""
    else " arguments"
  [Output.text "void\nWrapper< ", .name cName, .text (" >\n::" ++ writeMethodName m index ++
    "(const WrapperFacility* wrapperFacility, const Arguments&" ++ argParm ++ ")\n\x7b\n")] ++
  (if m.functionId = .constructor then
    [Output.text "  Return< ", .name cName, .text " >::FromConstructor(new ", .name cName,
      .text "("] ++ writeArgumentList r m.functionType 0 entry.argumentCount ++
    [Output.text "), wrapperFacility);\n"]
  else
    (if m.isStatic then
      writeReturnBegin r m ++ [Output.text "  ", .name cName, .text "::"]
    else writeImplicitArgument r c m ++ writeReturnBegin r m ++ [Output.text "  instance."]) ++
    [Output.text (m.callName ++ "(")] ++ writeArgumentList r m.functionType 1 entry.argumentCount ++
    [Output.text (writeReturnEnd r m ++ ");\n")]) ++
  [Output.text "\x7d\n\n"]

/-- `WriteMethodRegistration`. -/
def writeMethodRegistration (entry : MethodEntry κ ε α) (index : Nat) : List Output :=
  let m := entry.method
  (if entry.argumentCount > 0 then
    [Output.text "  \x7b\n  Method::ParameterTypes parameterTypes;\n"] ++
    (List.range entry.argumentCount).flatMap fun i =>
      match m.functionType.arguments[i]? with
      | some argument =>
        [Output.text "  parameterTypes.push_back(",
          .used (getName r.toTypes (getCxxType r argument)), .text "::type.GetType());\n"]
      | none => []
  else []) ++
  [Output.text "  wrapper->AddFunction(\n"] ++
  (if m.functionId = .constructor then
    [Output.text ("    new Constructor(wrapperFacility, &Wrapper::" ++ writeMethodName m index ++
      ",\n                    wrappedTypeRepresentation, \"" ++ m.name ++ "\"")]
  else
    let wft := if m.isStatic then "StaticMethod" else "Method"
    let indent := if m.isStatic then "      " else ""
    [Output.text ("    new " ++ wft ++ "(wrapperFacility, &Wrapper::" ++ writeMethodName m index ++
      ",\n               " ++ indent ++ "wrappedTypeRepresentation, \"" ++ m.name ++ "\", " ++
      (if m.isStatic then "" else flag m.isConst ++ ", ") ++
      flag (m.functionId = .operatorMethod) ++ ",\n               " ++ indent),
      .used (getReturnTypeName r m), .text "::type"]) ++
  [Output.text (if entry.argumentCount > 0 then ",\n      parameterTypes));\n  \x7d\n"
    else "));\n")]

/-- `WriteConverterRegistration`. -/
def writeConverterRegistration (c : κ) (m : Function κ ε α) : List Output :=
  let sourceType := qualifiedName m.isConst (r.getClass c).qualifiedName
  let returnTypeName := getReturnTypeName r m
  [Output.text "  wrapperFacility->SetConversion(\n    ", .used sourceType, .text "::type,\n    ",
    .used returnTypeName,
    .text "::type.GetType(),\n    Converter::ConversionOperator< ", .name sourceType,
    .text ", \n                                   ", .name returnTypeName,
    .text " >::GetConversionFunction());\n"]

/-- `WriteClassWrapperDefinition`. -/
def writeClassWrapperDefinition (c : κ) (names : List String)
    (methods : List (MethodEntry κ ε α)) : List Output :=
  let cName : Printed := [.name (r.getClass c).qualifiedName]
  [Output.text "/**\n * Class wrapper definition for\n *   ", .name cName,
    .text "\n *\n * Wrapped names are:\n"] ++
  names.map (fun n => Output.text (" *   " ++ n ++ "\n")) ++
  [Output.text " */\ntemplate <>\nstruct Wrapper< ", .name cName,
    .text " >\n\x7b\n  // Prototypes for method wrappers.\n"] ++
  methods.zipIdx.map (fun entry => Output.text ("  static void " ++
    writeMethodName entry.1.method entry.2 ++ "(const WrapperFacility*, const Arguments&);\n")) ++
  [Output.text ("\n  // Function to register these wrappers with a WrapperFacility.\n" ++
    "  static void RegisterWithWrapperFacility(WrapperFacility*);\n\x7d;\n\n")]

/-- `WriteClassWrapperRegistration`. -/
def writeClassWrapperRegistration (c : κ) (names : List String)
    (methods converters : List (MethodEntry κ ε α)) : List Output :=
  let cName : Printed := [.name (r.getClass c).qualifiedName]
  [Output.text "void\nWrapper< ", .name cName,
    .text (" >\n::RegisterWithWrapperFacility(WrapperFacility* wrapperFacility)\n\x7b\n" ++
      "  // Get the ClassType representation for the wrapped class.\n" ++
      "  const ClassType* wrappedTypeRepresentation =\n    ClassType::SafeDownCast("),
    .used cName,
    .text ("::type.GetType());\n\n" ++
      "  // Ask the WrapperFacility to create a ClassWrapper for this type.\n" ++
      "  ClassWrapper* wrapper =\n" ++
      "    wrapperFacility->CreateClassWrapper(wrappedTypeRepresentation);\n\n" ++
      "  // If no ClassWrapper is given, then a wrapper for this class has\n" ++
      "  // already been registered.\n  if(!wrapper) \x7b return; \x7d\n\n" ++
      "  // Register commands for the class.\n")] ++
  names.map (fun n => Output.text ("  wrapper->AddInterpreterClassCommand(\"" ++ n ++ "\");\n")) ++
  [Output.text ("\n  // Register constructor, method, conversion, and enumeration wrappers.\n")] ++
  methods.zipIdx.flatMap (fun entry => writeMethodRegistration r entry.1 entry.2) ++
  converters.flatMap (fun entry => writeConverterRegistration r c entry.method) ++
  [Output.text "\x7d\n\n"]

/-- `WriteClassWrapper`. -/
def writeClassWrapper [DecidableEq κ] (c : κ) (names : List String) : List Output :=
  let found := findMethods r c
  writeClassWrapperDefinition r c names found.methods ++
  found.methods.zipIdx.flatMap (fun entry => writeMethodWrapper r c entry.1 entry.2) ++
  writeClassWrapperRegistration r c names found.methods found.converters

/-- `WriteReturnEnumClasses`. -/
def writeReturnEnumClasses (enumerations : List ε) : List Output :=
  enumerations.flatMap fun e =>
    let typeName : Printed := [.name (r.getEnumeration e).qualifiedName]
    let scope := (r.getEnumeration e).contextName
    let scope := if scope = "::" then "" else scope
    [Output.text "\ntemplate <>\nstruct ReturnEnum< ", .name typeName,
      .text " >\n\x7b\n  static void From(const ", .name typeName,
      .text ("& result,\n                   const WrapperFacility* wrapperFacility)\n" ++
        "    \x7b\n    const char* name=0;\n    switch (result)\n      \x7b\n")] ++
    (r.getEnumeration e).values.map (fun v => Output.text ("      case " ++ scope ++ "::" ++ v ++
      ": name = \"" ++ scope ++ "::" ++ v ++ "\"; break;\n")) ++
    [Output.text ("      \x7d\n    Tcl_SetObjResult(wrapperFacility->GetInterpreter(),\n" ++
      "                     Tcl_NewStringObj(const_cast<char*>(name), -1));\n    \x7d\n\x7d;\n")]

/-- `WriteEnumValueRegistration`. -/
def writeEnumValueRegistration (enumerations : List ε) : List Output :=
  enumerations.flatMap fun e =>
    let typeName : Printed := [.name (r.getEnumeration e).qualifiedName]
    let scope := (r.getEnumeration e).contextName
    let scope := if scope = "::" then scope else scope ++ "::"
    (r.getEnumeration e).values.flatMap fun v =>
      [Output.text ("  wrapperFacility->SetEnumerationConstant(\n    \"" ++ scope ++ v ++
        "\", new "), .name typeName, .text ("(" ++ scope ++ v ++ "),\n    "), .used typeName,
        .text "::type.GetType());\n"]

/-- `WriteReferenceDerivedToBase`. -/
def writeReferenceDerivedToBase (derivedType baseType : CvQualifiedType α) : List Output :=
  let baseRef := unqualified (r.getReferenceType baseType)
  let name := getName r.toTypes
  [Output.text "  wrapperFacility->SetConversion(\n    ", .used (name derivedType),
    .text "::type,\n    ", .used (name baseRef),
    .text "::type.GetType(),\n    Converter::ReferenceDerivedToBase< ",
    .name (name derivedType), .text ", \n                                       ",
    .name (name baseType), .text " >::GetConversionFunction());\n"]

/-- `WritePointerDerivedToBase`. -/
def writePointerDerivedToBase (derivedType baseType : CvQualifiedType α) : List Output :=
  let derivedPtr := unqualified (r.getPointerType derivedType)
  let basePtr := unqualified (r.getPointerType baseType)
  let name := getName r.toTypes
  [Output.text "  wrapperFacility->SetConversion(\n    ", .used (name derivedPtr),
    .text "::type,\n    ", .used (name basePtr),
    .text "::type.GetType(),\n    Converter::PointerDerivedToBase< ",
    .name (name derivedType), .text ", \n                                     ",
    .name (name baseType), .text " >::GetConversionFunction());\n"]

/-- `SetDeleteFunction` for a type. -/
def writeSetDeleteFunction (typeName : Printed) : List Output :=
  [Output.text "  wrapperFacility->SetDeleteFunction(", .used typeName,
    .text "::type.GetType(), &OldObjectOf< ", .name typeName, .text " >::Delete);\n"]

variable [DecidableEq α]

/-- `GetAllSuperclasses`, with fuel for its loop. -/
def getAllSuperclasses (fuel : Nat) (t : α) : Option (List α) :=
  search (parents r.toTypes) fuel ⟨[t], [t], []⟩

/-- The conversions from a class to one of its superclasses. -/
def writeDerivedToBase (derived base : α) : List Output :=
  let dt : CvQualifiedType α := ⟨derived, false, false⟩
  let dtc : CvQualifiedType α := ⟨derived, true, false⟩
  let bt : CvQualifiedType α := ⟨base, false, false⟩
  let btc : CvQualifiedType α := ⟨base, true, false⟩
  writeReferenceDerivedToBase r dt bt ++ writeReferenceDerivedToBase r dtc btc ++
  writePointerDerivedToBase r dt bt ++ writePointerDerivedToBase r dtc btc

/-- `WriteGroupTypeHandlers`. -/
def writeGroupTypeHandlers (fuel : Nat) (derivedToBase needDestructor : List α)
    (needValues : List ε) : Option (List Output) := do
  let conversions ← derivedToBase.mapM fun derived => do
    let superclasses ← getAllSuperclasses r fuel derived
    some (superclasses.flatMap (writeDerivedToBase r derived))
  some (conversions.flatten ++
    needDestructor.flatMap (fun t =>
      writeSetDeleteFunction (getName r.toTypes (unqualified t))) ++
    needValues.flatMap (fun e =>
      writeSetDeleteFunction [.name (r.getEnumeration e).qualifiedName]) ++
    writeEnumValueRegistration r needValues)

variable [DecidableEq κ] [DecidableEq ε]

/-- The classes that need a destructor, which are found while the wrappers are written. -/
def classesThatNeedDestructor (wrappers : ClassWrapperMap κ) : List α :=
  (wrappers.flatMap fun i => (findMethods r i.1).classesThatNeedDestructor).dedup

/-- `WriteWrappers`. -/
def writeWrappers (fuel : Nat) (wrappers : ClassWrapperMap κ) (group : String)
    (needs : List (Need ε α)) (w : Writer α) : Option (List Output) := do
  let handlers ← writeGroupTypeHandlers r fuel (classesForDerivedToBase needs)
    (classesThatNeedDestructor r wrappers) (enumerationsThatNeedValues needs)
  some ([Output.text ("\nnamespace _cable_tcl_\n\x7b\n" ++
      "// Hide everything in an anonymous namespace.\n" ++
      "namespace\n\x7b\n// Specializations will encapsulate wrappers.\n" ++
      "template <typename> struct Wrapper;\n\n" ++
      "// Define a CvType specialization for each type used in this wrapper group.\n")] ++
    writeClasses r.toTypes w ++ [Output.text "\n"] ++ writeDataDeclarations r.toTypes w ++
    writeReturnEnumClasses r (enumerationsThatNeedReturn needs) ++ [Output.text "\n"] ++
    wrappers.flatMap (fun i => writeClassWrapper r i.1 i.2) ++
    [Output.text "void InitializeGroupTypeRepresentations()\n\x7b\n"] ++
    (writeInitializations r.toTypes w).map (outputOf r.toTypes) ++
    [Output.text ("\x7d\nvoid InitializeGroupTypeHandlers(" ++
      "WrapperFacility* wrapperFacility)\n\x7b\n")] ++
    handlers ++
    [Output.text ("\x7d\n\x7d // anonymous namespace\n\nvoid Wrapper_" ++ group ++
      "_Initialize(Tcl_Interp* interp)\n\x7b\n" ++
      "  // Get the WrapperFacility for this interpreter.\n" ++
      "  WrapperFacility* wrapperFacility = " ++
      "WrapperFacility::GetForInterpreter(interp);\n\n" ++
      "  // Make sure the global group stuff has been initialized.\n" ++
      "  static bool initialized = false;\n  if(!initialized)\n    \x7b\n" ++
      "    InitializeGroupTypeRepresentations();\n    initialized = true;\n    \x7d\n\n" ++
      "  // Initialize interpreter-specific stuff for this group.\n" ++
      "  InitializeGroupTypeHandlers(wrapperFacility);\n\n" ++
      "  // Register this group's wrappers with the WrapperFacility.\n")] ++
    wrappers.flatMap (fun i => [Output.text "  Wrapper< ",
      .name [.name (r.getClass i.1).qualifiedName],
      .text " >::RegisterWithWrapperFacility(wrapperFacility);\n"]) ++
    [Output.text "\x7d\n\n\x7d // namespace _cable_tcl_\n"])

/-- `GenerateWrappers` for a group, from its configuration on. -/
def generateWrappers (fuel : Nat) (wrappers : ClassWrapperMap κ) (group : String) :
    Option (Writer α × List Output) := do
  let needs := findCvTypes r wrappers
  let w ← addAll r.toTypes fuel (cvTypes needs) {}
  let out ← writeWrappers r fuel wrappers group needs w
  some (w, out)

end Writing

end CableSwig.Generators.TclGenerator
