import CableSwig.Executables.SwigTypeString
import CableSwig.Parsers.ElementValues

/-!
# Wrapping the methods of a class

`CreateSwigClass` makes the node of a class and has `CreateSwigMethod` add one node for each method,
first the private methods and last the public ones.
-/
namespace CableSwig.Executables.ClassWrapping

open CableSwig.CxxTypes
open CableSwig.Executables.SwigTypeString
open CableSwig.Executables.TemplateName
open CableSwig.Lib.Fuel
open CableSwig.Lib.StdString
open CableSwig.Parsers
open CableSwig.Parsers.ElementValues (asNamed)
open CableSwig.Parsers.RepresentationBuilder
open CableSwig.Parsers.XmlSourceParser (stringLess)

section Names

/-- A name behind the qualified name of its context. -/
def nameIn (context name : Text) : Text :=
  (if context = "::".toList then [] else context ++ "::".toList) ++ name

mutual

/-- The type with names of classes and enumerations in place of their ids. -/
def withNames (names : Text → Option Text) : SourceType → Option TypeReader.SourceType
  | .null => some .null
  | .fundamentalType typeName quals => some (.fundamentalType typeName quals)
  | .pointerType target quals => do
    let target ← withNames names target
    pure (.pointerType target quals)
  | .referenceType target => do
    let target ← withNames names target
    pure (.referenceType target)
  | .arrayType target length quals => do
    let target ← withNames names target
    pure (.arrayType target length quals)
  | .classType c quals => do
    let name ← names c
    pure (.classType (String.ofList name) quals)
  | .enumerationType e quals => do
    let name ← names e
    pure (.enumerationType (String.ofList name) quals)
  | .functionType returns types _ => do
    let returns ← withNames names returns
    let types ← allWithNames names types
    pure (.functionType returns types)
  | .methodType c returns types _ => do
    let name ← names c
    let returns ← withNames names returns
    let types ← allWithNames names types
    pure (.methodType (String.ofList name) returns types ⊥)
  | .offsetType c memberType quals => do
    let name ← names c
    let memberType ← withNames names memberType
    pure (.offsetType (String.ofList name) memberType quals)

def allWithNames (names : Text → Option Text) :
    List SourceType → Option (List TypeReader.SourceType)
  | [] => some []
  | t :: ts => do
    let t ← withNames names t
    let ts ← allWithNames names ts
    pure (t :: ts)

end

variable (s : Representation)

def getQualifiedName : Nat → Named → Option Text
  | 0, _ => none
  | fuel + 1, named =>
    match named.context with
    | none => some named.name
    | some context => do
      let object ← s.getSourceObject context
      let context ← asNamed object
      let name ← getQualifiedName fuel context
      pure (nameIn name named.name)

/-- The qualified name of the object under an id. -/
def qualifiedName (fuel : Nat) (id : Text) : Option Text := do
  let object ← s.getSourceObject id
  let named ← asNamed object
  getQualifiedName s fuel named

/-- `GetCxxType`, which `CreateCxxTypes` has made. -/
def getCxxType (fuel : Nat) (type : SourceType) : Option CvTerm := do
  let type ← withNames (qualifiedName s fuel) type
  TypeReader.createCxxType type

end Names

section Nodes

/-- A node for a method, with the attributes that are set. The types of the parameters stand for the
chain of parameters. -/
structure MethodNode where
  nodeType : String
  file : Text
  line : Nat
  name : Text
  storage : Option String := none
  isAbstract : Option String := none
  access : String
  throws : String := "std::exception"
  decl : Text := []
  parms : List Text := []
  featureNew : Option String := none
  type : Option Text := none

inductive SwigNode
  | access (kind : String)
  | method (m : MethodNode)

/-- The node of a class, with the calls of `Swig_symbol_add` in its scope. -/
structure SwigClass where
  name : Text
  scopeName : Text
  kind : String := "class"
  allowsTypedef : String := "1"
  children : List SwigNode := []
  symbols : List (Text × MethodNode) := []
  abstract : List MethodNode := []
  baselist : List String := []
  noassign : Bool := false

/-- What is set before classes are wrapped, with the bases that `FindWrappedBases` finds. -/
structure Settings where
  wrapLanguage : String
  nativeStringName : Text
  wrappedBases : Text → List String

/-- `SwigType_isfunction`. -/
def isFunction (t : Text) : Bool :=
  functionPrefix.isPrefixOf
    (if ['q', '('].isPrefixOf t then (t.dropWhile (· ≠ '.')).tail else t)

/-- The test of `pure_abstract` for one node. -/
def abstractMethod : SwigNode → Option MethodNode
  | .access _ => none
  | .method n =>
    if n.nodeType = "cdecl" then
      if isFunction n.decl ∧ n.isAbstract = some "1" then some n else none
    else if n.nodeType = "destructor" ∧ n.isAbstract = some "1" then some n
    else none

/-- `pure_abstract`. -/
def pureAbstract (nodes : List SwigNode) : List MethodNode := nodes.filterMap abstractMethod

end Nodes

section Methods

/-- What is read of a `Method` object. -/
structure Method where
  functionId : FunctionKind
  named : Named
  flags : MethodFlags
  returns : SourceType
  arguments : List SourceType

/-- The cast to `Method`, which operators and converters that are members pass too. -/
def asMethod : SourceObject → Option Method
  | .function kind named (.functionType returns types _) flags =>
    if kind = .function ∨ kind = .operatorFunction then none
    else some ⟨kind, named, flags, returns, types⟩
  | _ => none

def getCallName (mth : Method) : Text :=
  if mth.functionId = .operatorMethod then "operator ".toList ++ mth.named.name
  else mth.named.name

def accessName : Access → String
  | .Public => "public"
  | .Protected => "protected"
  | .Private => "private"

variable (w : Settings) (s : Representation) (fuel : Nat)

/-- `ToSwigType` of the type that was created for a type. -/
def swigTypeOf (type : SourceType) : Option Text := do
  let t ← getCxxType s fuel type
  toSwigType fuel w.nativeStringName t

/-- A class that is declared in a class. -/
def isNested (c : Text) : Bool :=
  ((((s.getSourceObject c).bind asNamed).bind Named.context).bind s.getSourceObject).any
    fun context => context.asClass.isSome

/-- The return type is a nested class. -/
def returnsNested (mth : Method) : Bool :=
  match mth.returns with
  | .classType c _ => isNested s c
  | _ => false

/-- The tests that end `CreateSwigMethod` before a node is made. -/
def skipsMethod (mth : Method) (access : Access) : Bool :=
  mth.functionId = .converter || returnsNested s mth ||
    (mth.functionId = .destructor && access = .Public)

/-- The text of a declaration with one more parameter. -/
def addParam (allParams argName : Text) : Text :=
  (if allParams.length > 0 then allParams ++ [',', ' '] else allParams) ++ argName

/-- The loop over the arguments, which links the parameters and writes their types one after the
other. -/
def createParms : List SourceType → List Text × Text → Option (List Text × Text)
  | [], done => some done
  | argument :: arguments, (parms, allParams) => do
    let argName ← swigTypeOf w s fuel argument
    createParms arguments (parms ++ [argName], addParam allParams argName)

/-- The node as it is first made, for the three kinds of methods. -/
def newNode (mth : Method) (className cname : Text) (access : Access) : MethodNode :=
  let file := mth.named.file
  let line := mth.named.line
  let access := accessName access
  if mth.functionId = .constructor then
    { nodeType := "constructor", file, line, access, name := className }
  else if mth.functionId = .destructor then
    { nodeType := "destructor", file, line, access, name := '~' :: cname }
  else
    let m : MethodNode := { nodeType := "cdecl", file, line, access, name := getCallName mth }
    let m :=
      if mth.flags.isVirtual then
        { m with
          storage := some "virtual"
          isAbstract := if mth.flags.isPureVirtual then some "1" else none }
      else m
    if mth.flags.isStatic then { m with storage := some "static" } else m

/-- The name under which a method is added to the scope of its class. -/
def symbolName (mth : Method) (cname : Text) : Text :=
  let name :=
    if mth.functionId = .constructor then cname
    else if mth.functionId = .destructor then cname
    else getCallName mth
  let name := if name = "print".toList ∧ w.wrapLanguage = "python" then "Print".toList else name
  if name = "New".toList ∧ w.wrapLanguage = "java" then cname ++ "_New".toList else name

def createSwigMethod (mth : Method) (cname : Text) (access : Access) (sc : SwigClass) :
    Option SwigClass :=
  if skipsMethod s mth access then some sc
  else do
    let m := newNode mth sc.name cname access
    let (parms, allParams) ← createParms w s fuel mth.arguments ([], [])
    let decl := (if mth.flags.isConst then constPrefix else []) ++ functionPrefix ++ allParams ++
      [')', '.']
    let m := { m with decl, parms }
    let m ←
      if mth.functionId = .constructor then some { m with featureNew := some "1" }
      else if mth.functionId = .destructor then some m
      else do
        let type ← swigTypeOf w s fuel mth.returns
        pure { m with type := some type }
    pure { sc with
      children := sc.children ++ [.method m]
      symbols := sc.symbols ++ [(symbolName w mth cname, m)] }

/-- The members of a context in the order of its member map. -/
def membersInOrder (c : Text) : List (Text × Access × Text) :=
  (s.memberMap c).insertionSort fun a b => ¬ stringLess b.1 a.1

/-- The loop over the members for one access, behind the node of the access. -/
def addMethods (c cname : Text) (access : Access) (sc : SwigClass) : Option SwigClass :=
  (membersInOrder s c).foldlM
    (fun sc member =>
      match (s.getSourceObject member.2.2).bind asMethod with
      | some mth =>
        if member.2.1 = access then createSwigMethod w s fuel mth cname access sc else some sc
      | none => some sc)
    { sc with children := sc.children ++ [.access (accessName access)] }

def getClassName (named : Named) (td : Option Text) : Option Text :=
  match td with
  | some td => some td
  | none =>
    if '<' ∈ named.name then templateName fuel w.nativeStringName named.name else some named.name

/-- The names of the scope and of the node, which both are the qualified name of a nested class. -/
def namesFor (c : Text) (named : Named) (typedefName actualName : Text) : Option (Text × Text) :=
  if isNested s c then (getQualifiedName s fuel named).map fun name => (name, name)
  else some (typedefName, actualName)

def createSwigClass (c : Text) (td : Option Text) : Option SwigClass := do
  let object ← s.getSourceObject c
  let named ← asNamed object
  let typedefName ← getClassName w fuel named td
  let actualName ← templateName fuel w.nativeStringName named.name
  let names ← namesFor s fuel c named typedefName actualName
  let sc : SwigClass := { name := names.2, scopeName := names.1 }
  let sc ← addMethods w s fuel c names.1 .Private sc
  let sc ← addMethods w s fuel c names.1 .Protected sc
  let sc ← addMethods w s fuel c names.1 .Public sc
  pure { sc with
    abstract := pureAbstract sc.children
    baselist := w.wrappedBases c
    noassign := s.memberMap c = [] }

end Methods

section Results

variable (w : Settings) (s : Representation)

/-- What is written in front of the types of the parameters and behind them. -/
def declOf (isConst : Bool) (parms : List Text) : Text :=
  (if isConst then constPrefix else []) ++ functionPrefix ++ parms.foldl addParam [] ++ [')', '.']

/-- The node for a method, if the types have these texts. -/
def methodNode (text : SourceType → Text) (className cname : Text) (mth : Method)
    (access : Access) : MethodNode :=
  { newNode mth className cname access with
    decl := declOf mth.flags.isConst (mth.arguments.map text)
    parms := mth.arguments.map text
    featureNew := if mth.functionId = .constructor then some "1" else none
    type :=
      if mth.functionId = .constructor ∨ mth.functionId = .destructor then none
      else some (text mth.returns) }

/-- The method that a member is, if a node is made for it in the loop for one access. -/
def wrappedMethod (access : Access) (member : Text × Access × Text) : Option Method :=
  ((s.getSourceObject member.2.2).bind asMethod).filter
    fun mth => member.2.1 = access && ! skipsMethod s mth access

def wrappedMethods (c : Text) (access : Access) : List Method :=
  (membersInOrder s c).filterMap (wrappedMethod s access)

/-- The types of a method have these texts. -/
def HasTexts (fuel : Nat) (text : SourceType → Text) (mth : Method) : Prop :=
  ∀ t ∈ mth.returns :: mth.arguments, swigTypeOf w s fuel t = some (text t)

variable {w s} {fuel : Nat} {text : SourceType → Text}

theorem createParms_eq (arguments : List SourceType)
    (h : ∀ t ∈ arguments, swigTypeOf w s fuel t = some (text t)) :
    ∀ parms allParams, createParms w s fuel arguments (parms, allParams) =
      some (parms ++ arguments.map text, (arguments.map text).foldl addParam allParams) := by
  induction arguments with
  | nil =>
    intro parms allParams
    rw [createParms, List.map_nil, List.append_nil]
    rfl
  | cons argument arguments ih =>
    intro parms allParams
    have hrest := ih fun t ht => h t (List.mem_cons_of_mem _ ht)
    rw [createParms, h argument List.mem_cons_self, Option.bind_eq_bind, Option.bind_some, hrest,
      List.append_assoc, List.map_cons]
    rfl

@[simp] theorem newNode_featureNew (mth : Method) (className cname : Text) (access : Access) :
    (newNode mth className cname access).featureNew = none := by
  unfold newNode
  split_ifs <;> rfl

@[simp] theorem newNode_type (mth : Method) (className cname : Text) (access : Access) :
    (newNode mth className cname access).type = none := by
  unfold newNode
  split_ifs <;> rfl

theorem createSwigMethod_eq {mth : Method} {cname : Text} {access : Access} {sc : SwigClass}
    (hskip : skipsMethod s mth access = false) (h : HasTexts w s fuel text mth) :
    createSwigMethod w s fuel mth cname access sc = some { sc with
      children := sc.children ++ [.method (methodNode text sc.name cname mth access)]
      symbols := sc.symbols ++
        [(symbolName w mth cname, methodNode text sc.name cname mth access)] } := by
  have hparms := createParms_eq mth.arguments (fun t ht => h t (List.mem_cons_of_mem _ ht)) [] []
  rw [List.nil_append] at hparms
  rw [createSwigMethod, if_neg (by rw [hskip]; exact Bool.false_ne_true), hparms]
  simp only [Option.bind_eq_bind, Option.bind_some, methodNode, declOf]
  by_cases hconstructor : mth.functionId = .constructor
  · simp [hconstructor]
  · by_cases hdestructor : mth.functionId = .destructor
    · simp [hdestructor]
    · rw [h mth.returns List.mem_cons_self]
      simp [hconstructor, hdestructor]

/-- The node of a class behind the nodes for some methods. -/
def SwigClass.addAll (sc : SwigClass) (w : Settings) (text : SourceType → Text) (cname : Text)
    (access : Access) (methods : List Method) : SwigClass :=
  { sc with
    children := sc.children ++ methods.map fun mth =>
      .method (methodNode text sc.name cname mth access)
    symbols := sc.symbols ++ methods.map fun mth =>
      (symbolName w mth cname, methodNode text sc.name cname mth access) }

/-- The loop adds the methods of its access that are not skipped, in the order of the members. -/
theorem foldlM_members {cname : Text} {access : Access} (members : List (Text × Access × Text)) :
    ∀ sc : SwigClass,
    (∀ mth ∈ members.filterMap (wrappedMethod s access), HasTexts w s fuel text mth) →
    members.foldlM
      (fun sc member =>
        match (s.getSourceObject member.2.2).bind asMethod with
        | some mth =>
          if member.2.1 = access then createSwigMethod w s fuel mth cname access sc else some sc
        | none => some sc) sc =
      some (sc.addAll w text cname access (members.filterMap (wrappedMethod s access))) := by
  induction members with
  | nil =>
    intro sc _
    simp [SwigClass.addAll]
  | cons member members ih =>
    intro sc htexts
    have hskipped : wrappedMethod s access member = none →
        (match (s.getSourceObject member.2.2).bind asMethod with
          | some mth =>
            if member.2.1 = access then createSwigMethod w s fuel mth cname access sc else some sc
          | none => some sc) = some sc := by
      intro hnone
      cases hmth : (s.getSourceObject member.2.2).bind asMethod with
      | none => rfl
      | some mth =>
        by_cases haccess : member.2.1 = access
        · have hskip : skipsMethod s mth access = true := by
            simpa [wrappedMethod, hmth, haccess, Option.filter_eq_none_iff] using hnone
          simp only [if_pos haccess]
          rw [createSwigMethod, if_pos hskip]
        · exact if_neg haccess
    cases hwrapped : wrappedMethod s access member with
    | none =>
      rw [List.filterMap_cons_none hwrapped] at htexts ⊢
      rw [List.foldlM_cons, hskipped hwrapped]
      exact ih sc htexts
    | some mth =>
      rw [List.filterMap_cons_some hwrapped] at htexts ⊢
      obtain ⟨hmth, hkept⟩ := Option.filter_eq_some_iff.mp hwrapped
      simp only [Bool.and_eq_true, decide_eq_true_eq, Bool.not_eq_true'] at hkept
      have hcreated : createSwigMethod w s fuel mth cname access sc = some _ :=
        createSwigMethod_eq hkept.2 (htexts mth List.mem_cons_self)
      rw [List.foldlM_cons, hmth]
      simp only [if_pos hkept.1]
      rw [hcreated]
      refine (ih _ fun mth' hmth' => htexts mth' (List.mem_cons_of_mem _ hmth')).trans ?_
      simp [SwigClass.addAll]

theorem addMethods_eq {c cname : Text} {access : Access} {sc : SwigClass}
    (h : ∀ mth ∈ wrappedMethods s c access, HasTexts w s fuel text mth) :
    addMethods w s fuel c cname access sc =
      some ({ sc with children := sc.children ++ [SwigNode.access (accessName access)] }.addAll w
        text cname access (wrappedMethods s c access)) :=
  foldlM_members (membersInOrder s c) _ h

/-- The order in which the accesses come. -/
def accessOrder : List Access := [.Private, .Protected, .Public]

/-- A method that has no body. Destructors are never marked. -/
def isPure (mth : Method) : Bool :=
  mth.functionId ≠ .constructor && mth.functionId ≠ .destructor && mth.flags.isVirtual &&
    mth.flags.isPureVirtual

/-- Behind the qualifier, if there is one, the declaration of a method is a function. -/
theorem isFunction_declOf (isConst : Bool) (parms : List Text) :
    isFunction (declOf isConst parms) = true := by
  have hprefix : ∀ rest : Text, functionPrefix.isPrefixOf (functionPrefix ++ rest) = true :=
    fun rest => List.isPrefixOf_iff_prefix.mpr (List.prefix_append functionPrefix rest)
  unfold isFunction declOf
  rw [List.append_assoc, List.append_assoc]
  cases isConst with
  | false => exact hprefix _
  | true => exact hprefix _

/-- Of the nodes for methods, `pure_abstract` takes those for methods without a body. -/
theorem abstractMethod_methodNode (className cname : Text) (mth : Method) (access : Access) :
    abstractMethod (.method (methodNode text className cname mth access)) =
      if isPure mth then some (methodNode text className cname mth access) else none := by
  have hfunction : isFunction (methodNode text className cname mth access).decl = true :=
    isFunction_declOf _ _
  rw [abstractMethod, hfunction]
  by_cases hconstructor : mth.functionId = .constructor
  · simp [methodNode, newNode, isPure, hconstructor]
  · by_cases hdestructor : mth.functionId = .destructor
    · simp [methodNode, newNode, isPure, hdestructor]
    · cases hvirtual : mth.flags.isVirtual <;> cases hpure : mth.flags.isPureVirtual <;>
        cases hstatic : mth.flags.isStatic <;>
        simp [methodNode, newNode, isPure, hconstructor, hdestructor, hvirtual, hpure, hstatic]

@[simp] theorem pureAbstract_append (nodes nodes' : List SwigNode) :
    pureAbstract (nodes ++ nodes') = pureAbstract nodes ++ pureAbstract nodes' :=
  List.filterMap_append

@[simp] theorem pureAbstract_access (kind : String) (nodes : List SwigNode) :
    pureAbstract (.access kind :: nodes) = pureAbstract nodes := rfl

@[simp] theorem pureAbstract_methods (className cname : Text) (access : Access)
    (methods : List Method) :
    pureAbstract (methods.map fun mth => .method (methodNode text className cname mth access)) =
      (methods.filter isPure).map fun mth => methodNode text className cname mth access := by
  rw [pureAbstract, List.filterMap_map, ← List.filterMap_eq_filter, List.map_filterMap]
  congr 1
  funext mth
  show abstractMethod (.method (methodNode text className cname mth access)) = _
  rw [abstractMethod_methodNode]
  cases hpure : isPure mth <;> simp [Option.guard, hpure]

/-- In Python nothing is added under the name of the keyword. -/
theorem symbolName_python (hpython : w.wrapLanguage = "python") (mth : Method) (cname : Text) :
    symbolName w mth cname ≠ "print".toList := by
  have hjava : ¬ "python" = "java" := by decide
  unfold symbolName
  rw [hpython]
  generalize (if mth.functionId = .constructor then cname else _) = name
  simp only [and_true, hjava, and_false, if_false]
  by_cases hprint : name = "print".toList
  · rw [if_pos hprint]
    decide
  · rwa [if_neg hprint]

theorem symbolName_java (hjava : w.wrapLanguage = "java") (mth : Method) (cname : Text) :
    symbolName w mth cname ≠ "New".toList := by
  have hlonger : cname ++ "_New".toList ≠ "New".toList := by
    intro heq
    have hlength := congrArg List.length heq
    rw [List.length_append] at hlength
    have hfour : "_New".toList.length = 4 := rfl
    have hthree : "New".toList.length = 3 := rfl
    omega
  unfold symbolName
  simp only [hjava, and_true]
  split_ifs with hnew
  all_goals first | exact hlonger | assumption

/-- The names of the scope and of the node of a class. -/
def classNames (s : Representation) (c typedefName actualName qualified : Text) : Text × Text :=
  if isNested s c then (qualified, qualified) else (typedefName, actualName)

/-- The nodes for the methods of one access. -/
def methodNodes (text : SourceType → Text) (className cname : Text) (access : Access)
    (methods : List Method) : List MethodNode :=
  methods.map fun mth => methodNode text className cname mth access

theorem createSwigClass_eq {c : Text} {td : Option Text} {named : Named}
    {typedefName actualName qualified cname className : Text}
    (hnamed : (s.getSourceObject c).bind asNamed = some named)
    (htypedef : getClassName w fuel named td = some typedefName)
    (hactual : templateName fuel w.nativeStringName named.name = some actualName)
    (hqualified : getQualifiedName s fuel named = some qualified)
    (hnames : classNames s c typedefName actualName qualified = (cname, className))
    (htexts : ∀ access, ∀ mth ∈ wrappedMethods s c access, HasTexts w s fuel text mth) :
    createSwigClass w s fuel c td = some {
      name := className
      scopeName := cname
      children := accessOrder.flatMap fun access =>
        SwigNode.access (accessName access) ::
          (methodNodes text className cname access (wrappedMethods s c access)).map .method
      symbols := accessOrder.flatMap fun access => (wrappedMethods s c access).map fun mth =>
        (symbolName w mth cname, methodNode text className cname mth access)
      abstract := accessOrder.flatMap fun access =>
        methodNodes text className cname access ((wrappedMethods s c access).filter isPure)
      baselist := w.wrappedBases c
      noassign := s.memberMap c = [] } := by
  obtain ⟨object, hobject, hnamed⟩ := Option.bind_eq_some_iff.mp hnamed
  have hnames : namesFor s fuel c named typedefName actualName = some (cname, className) := by
    rw [← hnames, namesFor, classNames, hqualified]
    split_ifs <;> rfl
  simp only [createSwigClass, hobject, hnamed, htypedef, hactual, hnames, Option.bind_eq_bind,
    Option.bind_some, addMethods_eq (htexts _)]
  simp [SwigClass.addAll, accessOrder, methodNodes, Function.comp_def]

end Results

end CableSwig.Executables.ClassWrapping
