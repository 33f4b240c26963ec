import Mathlib.Data.List.Basic
import Mathlib.Tactic.Common

/-!
# What the output functions of xml.c refer to

A tree node carries the data that decides which nodes its output function asks for.
Each function below lists the calls of `xml_add_node` in the order in which its source
makes them; the text printed around the indices is left out. `xml_add_node` then says
which nodes are really added.
-/
namespace CableSwig.GccXml.OutputFunctions

variable {τ : Type}

/-- `PARM_DECL`. `behindReference` is the type behind an invisible reference. -/
structure Parm (τ : Type) where
  artificial : Bool := false
  type : Option τ := none
  behindReference : Option τ := none

/-- `NAMESPACE_DECL`. An alias comes with the namespace at the end of its chain of aliases. -/
structure NamespaceDecl (τ : Type) where
  context : Option τ := none
  realNamespace : Option τ := none
  allDecls : List τ := []

structure TypeDecl (τ : Type) where
  name : Option String := none
  context : Option τ := none
  originalType : Option τ := none
  type : τ
  implicitTypedef : Bool := false

/-- `FUNCTION_DECL` with its `FUNCTION_TYPE` or `METHOD_TYPE`. The void terminator of the
argument types is left out, and `declError` is known once synthesis was tried. -/
structure FunctionDecl (τ : Type) where
  constructor : Bool := false
  destructor : Bool := false
  overloadedOperator : Bool := false
  conversion : Bool := false
  assignmentOperator : Bool := false
  functionMember : Bool := false
  nonstaticMember : Bool := false
  virtual : Bool := false
  cloned : Bool := false
  declError : Bool := false
  context : Option τ := none
  returnType : τ
  raises : List τ := []
  befriending : List τ := []
  arguments : List (Parm τ) := []
  argTypes : List τ := []

/-- `VAR_DECL` and `FIELD_DECL`. -/
structure DataDecl (τ : Type) where
  context : Option τ := none
  type : τ
  bitFieldType : Option τ := none

structure RecordType (τ : Type) where
  complete : Bool := true
  isTemplate : Bool := false
  ptrMemFunc : Option τ := none
  polymorphic : Bool := false
  context : Option τ := none
  fields : List τ := []
  methods : List τ := []
  bases : List τ := []
  befriending : List τ := []

/-- What a type node holds beside its name and qualifiers. -/
inductive TypeShape (τ : Type)
  | record (r : RecordType τ)
  | array (element : τ)
  | pointer (target : τ)
  | reference (target : τ)
  | function (returns : τ) (args : List τ)
  | method (basetype returns : τ) (args : List τ)
  | offset (basetype type : τ)
  | enumeral
  | fundamental
  | dependent
  | other

structure TypeNode (τ : Type) where
  mainVariant : τ
  name : Option τ := none
  isConst : Bool := false
  isVolatile : Bool := false
  isRestrict : Bool := false
  shape : TypeShape τ

/-- `TEMPLATE_DECL`. An instantiation comes with its `TYPE_NAME` and with whether a template
parameter was found among its arguments. -/
structure TemplateDecl (τ : Type) where
  type : Option τ := none
  specializations : List τ := []
  instantiations : List (τ × Bool) := []

inductive TreeNode (τ : Type)
  | namespaceDecl (d : NamespaceDecl τ)
  | typeDecl (d : TypeDecl τ)
  | functionDecl (d : FunctionDecl τ)
  | varDecl (d : DataDecl τ)
  | fieldDecl (d : DataDecl τ)
  | type (t : TypeNode τ)
  | overload (functions : List τ)
  | treeList (value : List τ)
  | templateDecl (d : TemplateDecl τ)
  | constDecl
  | other

/-- The trees of a translation unit. `sourceLine` is `DECL_SOURCE_LINE` where `DECL_P`, and
`overridesHere` is `look_for_overrides_here`. -/
structure Trees (τ : Type) where
  tree : τ → TreeNode τ
  sourceLine : τ → Option Nat
  artificial : τ → Bool
  globalNamespace : τ
  overridesHere : τ → τ → Option τ

/-- Calls with a node and the `complete` argument. -/
abbrev Calls (τ : Type) := List (τ × Bool)

section Add

variable [DecidableEq τ] (g : Trees τ)

def Trees.asType (n : τ) : Option (TypeNode τ) :=
  match g.tree n with
  | .type t => some t
  | _ => none

def Trees.asTypeDecl (n : τ) : Option (TypeDecl τ) :=
  match g.tree n with
  | .typeDecl d => some d
  | _ => none

def Trees.isTemplateDecl (n : τ) : Bool :=
  match g.tree n with
  | .templateDecl _ => true
  | _ => false

def Trees.isFunctionDecl (n : τ) : Bool :=
  match g.tree n with
  | .functionDecl _ => true
  | _ => false

/-- `CP_DECL_CONTEXT`. -/
def Trees.cpDeclContext (context : Option τ) : τ := context.getD g.globalNamespace

/-- The typedef points to its own name in the same context. -/
def namesItself (td : TypeDecl τ) : Bool :=
  td.originalType.isNone &&
    match (g.asType td.type).bind fun t => t.name.bind g.asTypeDecl with
    | some own => td.name == own.name && td.context == own.context
    | none => false

/-- `xml_add_typedef`, given `xml_add_node`. -/
def xmlAddTypedef (add : τ → Bool → Option (Calls τ × Bool)) (n : τ) (td : TypeDecl τ)
    (complete : Bool) : Option (Calls τ × Bool) :=
  if namesItself g td then do
    let (calls, _) ← add td.type complete
    pure (calls, false)
  else do
    let t := td.originalType.getD td.type
    let t := ((g.asType t).map TypeNode.mainVariant).getD t
    let (calls, listed) ← add t complete
    pure (if listed then (calls ++ [(n, complete)], true) else (calls, false))

/-- `xml_find_self_typedef_name`. -/
def xmlFindSelfTypedefName (rt : τ) : Option String := do
  let t ← g.asType rt
  match t.shape with
  | .record r => do
    let field ← r.fields.find? fun f =>
      (g.asTypeDecl f).any (fun d => d.type == rt) && g.artificial f
    (← g.asTypeDecl field).name
  | _ => none

/-- The test that tells a class or enumeration declaration from a typedef to it. -/
def declaresType (n : τ) (td : TypeDecl τ) (t : TypeNode τ) : Bool :=
  td.implicitTypedef ||
    ((match t.shape with
      | .record r => td.context == r.context
      | _ => false) &&
      xmlFindSelfTypedefName g td.type == td.name && t.name == some n)

/-- `xml_add_type_decl`, given `xml_add_node`. -/
def xmlAddTypeDecl (add : τ → Bool → Option (Calls τ × Bool)) (n : τ) (td : TypeDecl τ)
    (complete : Bool) : Option (Calls τ × Bool) :=
  match g.asType td.type with
  | none => pure ([(n, complete)], true)
  | some t =>
    match t.shape with
    | .array _ | .pointer _ | .reference _ | .function .. | .fundamental | .dependent =>
      xmlAddTypedef g add n td complete
    | .record r =>
      if r.ptrMemFunc.isSome then xmlAddTypedef g add n td complete
      else if declaresType g n td t then add td.type complete
      else xmlAddTypedef g add n td complete
    | .enumeral =>
      if declaresType g n td t then add td.type complete
      else xmlAddTypedef g add n td complete
    | .method .. | .offset .. | .other => pure ([(n, complete)], true)

/-- A node for each of several calls of `xml_add_node`. -/
def addAll (add : τ → Bool → Option (Calls τ × Bool)) (complete : Bool) :
    List τ → Option (Calls τ)
  | [] => pure []
  | n :: ns => do
    let (calls, _) ← add n complete
    pure (calls ++ (← addAll add complete ns))

/-- The templates among the members of a class template. -/
def memberTemplates (td : TemplateDecl τ) : List (TemplateDecl τ) :=
  match (td.type.bind g.asType).map TypeNode.shape with
  | some (.record r) => r.fields.filterMap fun f =>
      match g.tree f with
      | .templateDecl d => some d
      | _ => none
  | _ => []

/-- `xml_add_template_decl`, given `xml_add_node`, for templates nested at most so deep. -/
def xmlAddTemplateDecl (add : τ → Bool → Option (Calls τ × Bool)) :
    Nat → TemplateDecl τ → Bool → Option (Calls τ)
  | 0, _, _ => none
  | depth + 1, td, complete => do
    let specializations ← addAll add complete (td.specializations.filter g.isFunctionDecl)
    let instantiations ← addAll add complete
      ((td.instantiations.filter fun i => (g.asTypeDecl i.1).isSome && !i.2).map Prod.fst)
    let members ← if complete then
        (memberTemplates g td).mapM fun m => xmlAddTemplateDecl add depth m true
      else pure []
    pure (specializations ++ instantiations ++ members.flatten)

/-- `xml_add_node`: the calls of `xml_add_node_real` it comes to, and whether it returns an
index, for typedefs, overloads and templates nested at most so deep. -/
def xmlAddNode : Nat → τ → Bool → Option (Calls τ × Bool)
  | 0, _, _ => none
  | depth + 1, n, complete =>
    match g.tree n with
    | .namespaceDecl _ => pure ([(n, complete)], true)
    | node =>
      if g.sourceLine n = some 0 then pure ([], false)
      else match node with
      | .functionDecl fd =>
        if fd.declError then pure ([], false) else pure ([(n, complete)], true)
      | .typeDecl td => xmlAddTypeDecl g (xmlAddNode depth) n td complete
      | .treeList fns | .overload fns => do
        pure (← addAll (xmlAddNode depth) complete fns, false)
      | .templateDecl td => do
        pure (← xmlAddTemplateDecl g (xmlAddNode depth) (depth + 1) td complete, false)
      | .type t =>
        match t.shape with
        | .record r =>
          match r.ptrMemFunc with
          | some fnType => xmlAddNode depth fnType complete
          | none => if r.isTemplate then pure ([], false) else pure ([(n, complete)], true)
        | _ => pure ([(n, complete)], true)
      | .constDecl => pure ([], false)
      | _ => pure ([(n, complete)], true)

/-- The classes that `xml_print_overrides` walks. -/
def polymorphicBases (type : τ) : List τ :=
  match (g.asType type).map TypeNode.shape with
  | some (.record r) => r.bases.filter fun b =>
      match (g.asType b).map TypeNode.shape with
      | some (.record rb) => rb.polymorphic
      | _ => false
  | _ => []

/-- `xml_print_overrides` and `xml_print_overrides_r`: the functions referred to, for class
hierarchies at most so deep. -/
def xmlPrintOverrides : Nat → τ → τ → Option (List τ)
  | 0, _, _ => none
  | depth + 1, type, fndecl => do
    let found ← (polymorphicBases g type).mapM fun basetype =>
      match g.overridesHere basetype fndecl with
      | some fn => pure [fn]
      | none => xmlPrintOverrides depth basetype fndecl
    pure found.flatten

end Add

/-- A translation unit: no chain of typedefs, overloads or templates and no class hierarchy
is deeper than `depth`, and only functions are overridden. -/
structure TreeGraph (τ : Type) [DecidableEq τ] extends Trees τ where
  depth : Nat
  add_isSome : ∀ n complete, (xmlAddNode toTrees depth n complete).isSome
  overrides_isSome : ∀ type fndecl, (xmlPrintOverrides toTrees depth type fndecl).isSome
  overridesHere_isFunctionDecl : ∀ type fndecl fn, overridesHere type fndecl = some fn →
    toTrees.isFunctionDecl fn

section Output

variable [DecidableEq τ] (g : TreeGraph τ)

def TreeGraph.addNode (n : τ) (complete : Bool) : Calls τ × Bool :=
  (xmlAddNode g.toTrees g.depth n complete).get (g.add_isSome n complete)

def TreeGraph.overridden (type fndecl : τ) : List τ :=
  (xmlPrintOverrides g.toTrees g.depth type fndecl).get (g.overrides_isSome type fndecl)

/-- `xml_print_context_attribute`. -/
def printContextAttribute (n : τ) (context : Option τ) : Calls τ :=
  if n ≠ g.globalNamespace then [(g.cpDeclContext context, false)] else []

/-- `xml_get_idref`: the calls, and whether a qualifier is left for the reference. -/
def getIdref (t : τ) (complete : Bool) : Calls τ × Bool :=
  match g.asType t with
  | none => ([], false)
  | some ty =>
    match ty.name with
    | none => ([(ty.mainVariant, complete)], ty.isConst || ty.isVolatile || ty.isRestrict)
    | some name =>
      let calls := [(ty.mainVariant, complete), (name, complete)]
      match (g.addNode name complete).2, (g.asTypeDecl name).bind fun td => g.asType td.type with
      | true, some own =>
        (calls, (ty.isConst && !own.isConst) || (ty.isVolatile && !own.isVolatile) ||
          (ty.isRestrict && !own.isRestrict))
      | _, _ => (calls, ty.isConst || ty.isVolatile || ty.isRestrict)

/-- `xml_print_type_idref`, to which `xml_print_type_attribute` and
`xml_print_returns_attribute` come down. -/
def printTypeIdref (t : τ) (complete : Bool) : Calls τ :=
  let (calls, qualified) := getIdref g t complete
  if qualified then calls ++ [(t, complete)] else calls

/-- `xml_print_base_type_attribute`. -/
def printBaseTypeAttribute (t : τ) (complete : Bool) : Calls τ := [(t, complete)]

/-- `xml_print_throw_attribute`. -/
def printThrowAttribute (raises : List τ) (complete : Bool) : Calls τ :=
  raises.flatMap fun t => printTypeIdref g t complete

/-- `xml_print_befriending_attribute`. -/
def printBefriendingAttribute (befriending : List τ) : Calls τ :=
  (befriending.filter fun f => !g.isTemplateDecl f).map (·, false)

/-- `xml_output_namespace_decl`. -/
def outputNamespaceDecl (n : τ) (ns : NamespaceDecl τ) (complete : Bool) : Calls τ :=
  match ns.realNamespace with
  | none => printContextAttribute g n ns.context ++
      if complete then ns.allDecls.map (·, true) else []
  | some real => printContextAttribute g n ns.context ++ [(real, false)]

/-- `xml_output_typedef`. -/
def outputTypedef (n : τ) (td : TypeDecl τ) (complete : Bool) : Calls τ :=
  printTypeIdref g (td.originalType.getD td.type) complete ++ printContextAttribute g n td.context

/-- `xml_output_argument`. -/
def outputArgument (pd : Option (Parm τ)) (argType : τ) (complete : Bool) : Calls τ :=
  match pd with
  | none => printTypeIdref g argType complete
  | some pd =>
    if pd.artificial then []
    else match pd.type with
      | some t => printTypeIdref g (pd.behindReference.getD t) complete
      | none => printTypeIdref g argType complete

/-- The loop over the argument types, along which the declared arguments may run out. -/
def outputArguments (complete : Bool) : List (Parm τ) → List τ → Calls τ
  | _, [] => []
  | [], t :: ts => outputArgument g none t complete ++ outputArguments complete [] ts
  | pd :: pds, t :: ts =>
    outputArgument g (some pd) t complete ++ outputArguments complete pds ts

inductive FunctionTag
  | constructor | destructor | converter | operatorMethod | operatorFunction | method | function
deriving DecidableEq, Repr

def FunctionDecl.tag (fd : FunctionDecl τ) : FunctionTag :=
  if fd.constructor then .constructor
  else if fd.destructor then .destructor
  else if fd.overloadedOperator then
    if fd.conversion then .converter
    else if fd.functionMember then .operatorMethod
    else .operatorFunction
  else if fd.functionMember then .method
  else .function

def FunctionTag.doReturns : FunctionTag → Bool
  | .constructor | .destructor => false
  | _ => true

def FunctionTag.doVirtual : FunctionTag → Bool
  | .destructor | .converter | .operatorMethod | .method => true
  | _ => false

/-- The functions that the `overrides` attribute of a function refers to. -/
def overriddenBy (n : τ) (fd : FunctionDecl τ) : List τ :=
  if fd.tag.doVirtual && fd.virtual then g.overridden (g.cpDeclContext fd.context) n else []

/-- `xml_print_virtual_method_attributes`: an overridden function is always asked for as
complete. -/
def printVirtualMethodAttributes (n : τ) (fd : FunctionDecl τ) : Calls τ :=
  (overriddenBy g n fd).map (·, true)

/-- `xml_output_function_decl`. -/
def outputFunctionDecl (n : τ) (fd : FunctionDecl τ) (complete : Bool) : Calls τ :=
  let skip := if fd.nonstaticMember then 1 else 0
  (if fd.tag.doReturns then printTypeIdref g fd.returnType complete else []) ++
    printVirtualMethodAttributes g n fd ++
    printThrowAttribute g fd.raises complete ++
    printContextAttribute g n fd.context ++
    printBefriendingAttribute g fd.befriending ++
    outputArguments g complete (fd.arguments.drop skip) (fd.argTypes.drop skip)

/-- `xml_output_var_decl`. -/
def outputVarDecl (n : τ) (vd : DataDecl τ) (complete : Bool) : Calls τ :=
  printTypeIdref g vd.type complete ++ printContextAttribute g n vd.context

/-- `xml_output_field_decl`. -/
def outputFieldDecl (n : τ) (fd : DataDecl τ) (complete : Bool) : Calls τ :=
  printTypeIdref g (fd.bitFieldType.getD fd.type) complete ++
    printContextAttribute g n fd.context

/-- The fields listed among the members of `rt`: no compiler-generated ones, and not the
typedef by which a class names itself. -/
def isMemberField (rt field : τ) : Bool :=
  match g.tree field with
  | .typeDecl td => !(g.artificial field && !td.implicitTypedef) && td.type != rt
  | _ => !g.artificial field

/-- The methods listed: no clones, and of the compiler-generated ones only constructors,
destructors and assignments. -/
def isMemberMethod (func : τ) : Bool :=
  match g.tree func with
  | .functionDecl fd =>
    !(g.artificial func && !fd.constructor && !fd.destructor && !fd.assignmentOperator) &&
      !fd.cloned
  | _ => !g.artificial func

/-- `xml_output_record_type`; `name` is the `TYPE_NAME` of the type. -/
def outputRecordType (rt : τ) (name : Option τ) (r : RecordType τ) (complete : Bool) : Calls τ :=
  let context := (name.bind g.asTypeDecl).bind TypeDecl.context
  let bases := r.bases.map (·, true)
  printContextAttribute g (name.getD rt) context ++
    printBefriendingAttribute g r.befriending ++
    if complete && r.complete then
      (r.fields.filter (isMemberField g rt)).map (·, true) ++
        (r.methods.filter (isMemberMethod g)).map (·, true) ++ bases ++ bases
    else []

/-- `xml_output_function_type`. -/
def outputFunctionType (returns : τ) (args : List τ) (complete : Bool) : Calls τ :=
  printTypeIdref g returns complete ++ outputArguments g complete [] args

/-- `xml_output_method_type`; the implicit argument has been skipped. -/
def outputMethodType (basetype returns : τ) (args : List τ) (complete : Bool) : Calls τ :=
  printBaseTypeAttribute basetype complete ++ printTypeIdref g returns complete ++
    outputArguments g complete [] args

/-- `xml_output_pointer_type` and `xml_output_reference_type`. -/
def outputPointerType (target : τ) : Calls τ := printTypeIdref g target false

/-- `xml_output_offset_type`. -/
def outputOffsetType (basetype type : τ) (complete : Bool) : Calls τ :=
  printBaseTypeAttribute basetype complete ++ printTypeIdref g type complete

/-- `xml_output_array_type`. -/
def outputArrayType (element : τ) (complete : Bool) : Calls τ := printTypeIdref g element complete

/-- `xml_output_enumeral_type`. -/
def outputEnumeralType (t : τ) (name : Option τ) : Calls τ :=
  printContextAttribute g (name.getD t) ((name.bind g.asTypeDecl).bind TypeDecl.context)

/-- `xml_output_cv_qualified_type`. -/
def outputCvQualifiedType (n : τ) (t : TypeNode τ) (complete : Bool) : Calls τ :=
  if n = t.mainVariant then
    match t.shape with
    | .record r => outputRecordType g n t.name r complete
    | .array element => outputArrayType g element complete
    | .pointer target | .reference target => outputPointerType g target
    | .function returns args => outputFunctionType g returns args complete
    | .method basetype returns args => outputMethodType g basetype returns args complete
    | .offset basetype type => outputOffsetType g basetype type complete
    | .enumeral => outputEnumeralType g n t.name
    | .fundamental | .dependent | .other => []
  else (getIdref g n complete).1

/-- `xml_dump_tree_node`. -/
def dumpTreeNode (n : τ) (complete : Bool) : Calls τ :=
  match g.tree n with
  | .namespaceDecl d => outputNamespaceDecl g n d complete
  | .typeDecl d => outputTypedef g n d complete
  | .functionDecl d => outputFunctionDecl g n d complete
  | .varDecl d => outputVarDecl g n d complete
  | .fieldDecl d => outputFieldDecl g n d complete
  | .type t =>
    match t.shape with
    | .dependent | .other => []
    | _ => outputCvQualifiedType g n t complete
  | _ => []

/-- The calls of `xml_add_node_real` made while a node is dumped. -/
def realCalls (n : τ) (complete : Bool) : Calls τ :=
  (dumpTreeNode g n complete).flatMap fun c => (g.addNode c.1 c.2).1

end Output

section Flags

/-- Every call listed in a result has this `complete` argument. -/
def Flagged (complete : Bool) (result : Option (Calls τ × Bool)) : Prop :=
  ∀ calls listed, result = some (calls, listed) → ∀ c ∈ calls, c.2 = complete

theorem flagged_self (n : τ) (complete : Bool) :
    Flagged complete (some ([(n, complete)], true)) := by
  intro calls listed h c hc
  obtain ⟨rfl, -⟩ := Prod.mk.inj (Option.some.inj h)
  rw [List.mem_singleton.mp hc]

theorem flagged_nil (complete : Bool) : Flagged complete (some (([] : Calls τ), false)) := by
  intro calls listed h c hc
  obtain ⟨rfl, -⟩ := Prod.mk.inj (Option.some.inj h)
  simp at hc

theorem addAll_flag {add : τ → Bool → Option (Calls τ × Bool)} {complete : Bool}
    (hadd : ∀ n, Flagged complete (add n complete)) {ns : List τ} {calls : Calls τ}
    (h : addAll add complete ns = some calls) : ∀ c ∈ calls, c.2 = complete := by
  induction ns generalizing calls with
  | nil =>
    obtain rfl : [] = calls := by simpa [addAll] using h
    simp
  | cons n ns ih =>
    simp only [addAll, Option.bind_eq_bind, Option.bind_eq_some_iff, Option.pure_def,
      Option.some.injEq] at h
    obtain ⟨⟨first, listed⟩, hfirst, rest, hrest, rfl⟩ := h
    intro c hc
    rcases List.mem_append.mp hc with hc | hc
    · exact hadd n first listed hfirst c hc
    · exact ih hrest c hc

/-- The elements of what `mapM` collects come from its argument. -/
theorem mem_of_mapM {α β : Type} {f : α → Option β} {as : List α} {bs : List β}
    (h : as.mapM f = some bs) {b : β} (hb : b ∈ bs) : ∃ a ∈ as, f a = some b := by
  induction as generalizing bs with
  | nil =>
    obtain rfl : [] = bs := by simpa using h
    simp at hb
  | cons a as ih =>
    simp only [List.mapM_cons, Option.pure_def, Option.bind_eq_bind, Option.bind_eq_some_iff,
      Option.some.injEq] at h
    obtain ⟨b', hb', bs', hbs', rfl⟩ := h
    rcases List.mem_cons.mp hb with rfl | hb
    · exact ⟨a, List.mem_cons_self, hb'⟩
    · obtain ⟨a', ha', hab⟩ := ih hbs' hb
      exact ⟨a', List.mem_cons_of_mem _ ha', hab⟩

variable [DecidableEq τ] {g : Trees τ}

theorem xmlAddTypedef_flag {add : τ → Bool → Option (Calls τ × Bool)} {complete : Bool}
    (hadd : ∀ n, Flagged complete (add n complete)) (n : τ) (td : TypeDecl τ) :
    Flagged complete (xmlAddTypedef g add n td complete) := by
  intro calls listed h
  unfold xmlAddTypedef at h
  split at h
  · simp only [Option.bind_eq_bind, Option.bind_eq_some_iff, Option.pure_def,
      Option.some.injEq, Prod.mk.injEq] at h
    obtain ⟨⟨first, b⟩, hfirst, rfl, -⟩ := h
    exact hadd _ _ _ hfirst
  · simp only [Option.bind_eq_bind, Option.bind_eq_some_iff, Option.pure_def,
      Option.some.injEq] at h
    obtain ⟨⟨first, b⟩, hfirst, heq⟩ := h
    have hcalls := hadd _ _ _ hfirst
    cases b with
    | false =>
      obtain ⟨rfl, -⟩ := Prod.mk.inj heq
      exact hcalls
    | true =>
      obtain ⟨rfl, -⟩ := Prod.mk.inj heq
      intro c hc
      rcases List.mem_append.mp hc with hc | hc
      · exact hcalls c hc
      · rw [List.mem_singleton.mp hc]

theorem xmlAddTypeDecl_flag {add : τ → Bool → Option (Calls τ × Bool)} {complete : Bool}
    (hadd : ∀ n, Flagged complete (add n complete)) (n : τ) (td : TypeDecl τ) :
    Flagged complete (xmlAddTypeDecl g add n td complete) := by
  unfold xmlAddTypeDecl
  split
  · exact flagged_self n complete
  · split
    case h_7 =>
      split
      · exact xmlAddTypedef_flag hadd n td
      · split
        · exact hadd _
        · exact xmlAddTypedef_flag hadd n td
    case h_8 =>
      split
      · exact hadd _
      · exact xmlAddTypedef_flag hadd n td
    all_goals first
      | exact xmlAddTypedef_flag hadd n td
      | exact flagged_self n complete

omit [DecidableEq τ] in
theorem xmlAddTemplateDecl_flag {add : τ → Bool → Option (Calls τ × Bool)}
    (hadd : ∀ complete n, Flagged complete (add n complete)) (depth : Nat) :
    ∀ {td : TemplateDecl τ} {complete : Bool} {calls : Calls τ},
      xmlAddTemplateDecl g add depth td complete = some calls → ∀ c ∈ calls, c.2 = complete := by
  induction depth with
  | zero =>
    intro td complete calls h
    simp [xmlAddTemplateDecl] at h
  | succ depth ih =>
    intro td complete calls h
    simp only [xmlAddTemplateDecl, Option.bind_eq_bind, Option.bind_eq_some_iff] at h
    obtain ⟨specializations, hs, instantiations, hi, h⟩ := h
    intro c hc
    have hmembers : ∃ members, calls = specializations ++ instantiations ++ members ∧
        ∀ c ∈ members, c.2 = complete := by
      cases complete with
      | false => exact ⟨[], by simpa using h.symm, by simp⟩
      | true =>
        rw [if_pos rfl, Option.bind_eq_some_iff] at h
        obtain ⟨members, hm, heq⟩ := h
        refine ⟨members.flatten, (Option.some.inj heq).symm, fun c hc => ?_⟩
        obtain ⟨l, hl, hcl⟩ := List.mem_flatten.mp hc
        obtain ⟨m, -, hml⟩ := mem_of_mapM hm hl
        exact ih hml c hcl
    obtain ⟨members, rfl, hm⟩ := hmembers
    rcases List.mem_append.mp hc with hc | hc
    · rcases List.mem_append.mp hc with hc | hc
      · exact addAll_flag (hadd complete) hs c hc
      · exact addAll_flag (hadd complete) hi c hc
    · exact hm c hc

/-- `xml_add_node` passes its `complete` argument on to every node it adds. -/
theorem xmlAddNode_flag (depth : Nat) :
    ∀ (complete : Bool) (n : τ), Flagged complete (xmlAddNode g depth n complete) := by
  induction depth with
  | zero =>
    intro complete n calls listed h
    simp [xmlAddNode] at h
  | succ depth ih =>
    intro complete n
    have hoverload : ∀ fns : List τ,
        Flagged complete ((addAll (xmlAddNode g depth) complete fns).map (·, false)) := by
      intro fns calls listed h
      obtain ⟨calls', hcalls, heq⟩ := Option.map_eq_some_iff.mp h
      obtain ⟨rfl, -⟩ := Prod.mk.inj heq
      exact addAll_flag (ih complete) hcalls
    have htemplate : ∀ td : TemplateDecl τ, Flagged complete
        ((xmlAddTemplateDecl g (xmlAddNode g depth) (depth + 1) td complete).map (·, false)) := by
      intro td calls listed h
      obtain ⟨calls', hcalls, heq⟩ := Option.map_eq_some_iff.mp h
      obtain ⟨rfl, -⟩ := Prod.mk.inj heq
      exact xmlAddTemplateDecl_flag ih (depth + 1) hcalls
    have hmap : ∀ o : Option (Calls τ),
        (o >>= fun calls => pure (calls, false)) = o.map (·, false) := by
      intro o
      cases o <;> rfl
    unfold xmlAddNode
    split
    · exact flagged_self n complete
    · split
      · exact flagged_nil complete
      · split
        · split
          · exact flagged_nil complete
          · exact flagged_self n complete
        · exact xmlAddTypeDecl_flag (ih complete) n _
        · rw [hmap]
          exact hoverload _
        · rw [hmap]
          exact hoverload _
        · rw [hmap]
          exact htemplate _
        · split
          · split
            · exact ih complete _
            · split
              · exact flagged_nil complete
              · exact flagged_self n complete
          · exact flagged_self n complete
        · exact flagged_nil complete
        · exact flagged_self n complete

end Flags

section Incomplete

variable [DecidableEq τ] (g : TreeGraph τ)

theorem addNode_flag (n : τ) (complete : Bool) : ∀ c ∈ (g.addNode n complete).1, c.2 = complete :=
  xmlAddNode_flag g.depth complete n _ _ (Option.some_get (g.add_isSome n complete)).symm

/-- The functions that a node refers to as overridden. -/
def overriddenFunctions (n : τ) : List τ :=
  match g.tree n with
  | .functionDecl fd => overriddenBy g n fd
  | _ => []

theorem getIdref_flag (t : τ) (complete : Bool) :
    ∀ c ∈ (getIdref g t complete).1, c.2 = complete := by
  unfold getIdref
  split
  · simp
  · split
    · simp
    · simp only
      split <;> simp

theorem printTypeIdref_flag (t : τ) (complete : Bool) :
    ∀ c ∈ printTypeIdref g t complete, c.2 = complete := by
  intro c hc
  simp only [printTypeIdref] at hc
  split at hc
  · rcases List.mem_append.mp hc with hc | hc
    · exact getIdref_flag g t complete c hc
    · rw [List.mem_singleton.mp hc]
  · exact getIdref_flag g t complete c hc

theorem printContextAttribute_flag (n : τ) (context : Option τ) :
    ∀ c ∈ printContextAttribute g n context, c.2 = false := by
  unfold printContextAttribute
  split <;> simp

theorem printBefriendingAttribute_flag (befriending : List τ) :
    ∀ c ∈ printBefriendingAttribute g befriending, c.2 = false := by
  intro c hc
  obtain ⟨f, -, rfl⟩ := List.mem_map.mp hc
  rfl

theorem printThrowAttribute_flag (raises : List τ) (complete : Bool) :
    ∀ c ∈ printThrowAttribute g raises complete, c.2 = complete := by
  intro c hc
  obtain ⟨t, -, hct⟩ := List.mem_flatMap.mp hc
  exact printTypeIdref_flag g t complete c hct

theorem outputArgument_flag (pd : Option (Parm τ)) (argType : τ) (complete : Bool) :
    ∀ c ∈ outputArgument g pd argType complete, c.2 = complete := by
  unfold outputArgument
  split
  · exact printTypeIdref_flag g _ complete
  · split
    · simp
    · split <;> exact printTypeIdref_flag g _ complete

theorem outputArguments_flag (complete : Bool) (pds : List (Parm τ)) (ts : List τ) :
    ∀ c ∈ outputArguments g complete pds ts, c.2 = complete := by
  induction ts generalizing pds with
  | nil =>
    cases pds <;> simp [outputArguments]
  | cons t ts ih =>
    cases pds with
    | nil =>
      intro c hc
      rcases List.mem_append.mp hc with hc | hc
      · exact outputArgument_flag g none t complete c hc
      · exact ih [] c hc
    | cons pd pds =>
      intro c hc
      rcases List.mem_append.mp hc with hc | hc
      · exact outputArgument_flag g (some pd) t complete c hc
      · exact ih pds c hc

theorem outputNamespaceDecl_incomplete (n : τ) (ns : NamespaceDecl τ) :
    ∀ c ∈ outputNamespaceDecl g n ns false, c.2 = false := by
  unfold outputNamespaceDecl
  split
  · rw [List.forall_mem_append]
    exact ⟨printContextAttribute_flag g n _, by simp⟩
  · rw [List.forall_mem_append]
    exact ⟨printContextAttribute_flag g n _, by simp⟩

theorem outputTypedef_incomplete (n : τ) (td : TypeDecl τ) :
    ∀ c ∈ outputTypedef g n td false, c.2 = false := by
  unfold outputTypedef
  rw [List.forall_mem_append]
  exact ⟨printTypeIdref_flag g _ false, printContextAttribute_flag g n _⟩

theorem outputVarDecl_incomplete (n : τ) (vd : DataDecl τ) :
    ∀ c ∈ outputVarDecl g n vd false, c.2 = false := by
  unfold outputVarDecl
  rw [List.forall_mem_append]
  exact ⟨printTypeIdref_flag g _ false, printContextAttribute_flag g n _⟩

theorem outputFieldDecl_incomplete (n : τ) (fd : DataDecl τ) :
    ∀ c ∈ outputFieldDecl g n fd false, c.2 = false := by
  unfold outputFieldDecl
  rw [List.forall_mem_append]
  exact ⟨printTypeIdref_flag g _ false, printContextAttribute_flag g n _⟩

theorem outputRecordType_incomplete (rt : τ) (name : Option τ) (r : RecordType τ) :
    ∀ c ∈ outputRecordType g rt name r false, c.2 = false := by
  simp only [outputRecordType, List.forall_mem_append]
  exact ⟨⟨printContextAttribute_flag g _ _, printBefriendingAttribute_flag g _⟩, by simp⟩

theorem outputCvQualifiedType_incomplete (n : τ) (t : TypeNode τ) :
    ∀ c ∈ outputCvQualifiedType g n t false, c.2 = false := by
  unfold outputCvQualifiedType
  split
  · split
    · exact outputRecordType_incomplete g n _ _
    · exact printTypeIdref_flag g _ false
    · exact printTypeIdref_flag g _ false
    · exact printTypeIdref_flag g _ false
    · simp only [outputFunctionType, List.forall_mem_append]
      exact ⟨printTypeIdref_flag g _ false, outputArguments_flag g false _ _⟩
    · simp only [outputMethodType, List.forall_mem_append]
      exact ⟨⟨by simp [printBaseTypeAttribute], printTypeIdref_flag g _ false⟩,
        outputArguments_flag g false _ _⟩
    · simp only [outputOffsetType, List.forall_mem_append]
      exact ⟨by simp [printBaseTypeAttribute], printTypeIdref_flag g _ false⟩
    · exact printContextAttribute_flag g _ _
    all_goals simp
  · exact getIdref_flag g n false

/-- A function dumped as incomplete asks for a complete node only where it overrides one. -/
theorem outputFunctionDecl_incomplete (n : τ) (fd : FunctionDecl τ) (m : τ) :
    (m, true) ∈ outputFunctionDecl g n fd false ↔ m ∈ overriddenBy g n fd := by
  have hno : ∀ {calls : Calls τ}, (∀ c ∈ calls, c.2 = false) → (m, true) ∉ calls :=
    fun h hm => Bool.noConfusion (h _ hm)
  have hreturns : (m, true) ∉
      (if fd.tag.doReturns then printTypeIdref g fd.returnType false else []) := by
    split
    · exact hno (printTypeIdref_flag g _ false)
    · simp
  simp only [outputFunctionDecl, List.mem_append, hreturns,
    hno (printThrowAttribute_flag g _ false), hno (printContextAttribute_flag g n _),
    hno (printBefriendingAttribute_flag g _), hno (outputArguments_flag g false _ _),
    printVirtualMethodAttributes, false_or, or_false, List.mem_map, Prod.mk.injEq, and_true,
    exists_eq_right]

/-- Of all output functions, called for an incomplete node, only the one that prints the
overridden functions asks for complete nodes. -/
theorem dumpTreeNode_incomplete (n m : τ) :
    (m, true) ∈ dumpTreeNode g n false ↔ m ∈ overriddenFunctions g n := by
  have hno : ∀ {calls : Calls τ}, (∀ c ∈ calls, c.2 = false) →
      ((m, true) ∈ calls ↔ m ∈ ([] : List τ)) := by
    intro calls h
    simp only [List.not_mem_nil, iff_false]
    exact fun hm => Bool.noConfusion (h _ hm)
  unfold dumpTreeNode overriddenFunctions
  cases g.tree n with
  | namespaceDecl d => exact hno (outputNamespaceDecl_incomplete g n d)
  | typeDecl d => exact hno (outputTypedef_incomplete g n d)
  | functionDecl d => exact outputFunctionDecl_incomplete g n d m
  | varDecl d => exact hno (outputVarDecl_incomplete g n d)
  | fieldDecl d => exact hno (outputFieldDecl_incomplete g n d)
  | type t =>
    simp only
    split
    · simp
    · simp
    · exact hno (outputCvQualifiedType_incomplete g n t)
  | overload _ => simp
  | treeList _ => simp
  | templateDecl _ => simp
  | constDecl => simp
  | other => simp

/-- A function is added as itself or not at all. -/
theorem addNode_function {fn : τ} (hfn : g.isFunctionDecl fn) {complete : Bool} {c : τ × Bool}
    (hc : c ∈ (g.addNode fn complete).1) : c = (fn, complete) := by
  have hcalls : xmlAddNode g.toTrees g.depth fn complete = some (g.addNode fn complete) :=
    (Option.some_get (g.add_isSome fn complete)).symm
  unfold Trees.isFunctionDecl at hfn
  split at hfn
  · rename_i fd hfd
    cases hdepth : g.depth with
    | zero =>
      rw [hdepth] at hcalls
      simp [xmlAddNode] at hcalls
    | succ depth =>
      rw [hdepth] at hcalls
      simp only [xmlAddNode, hfd] at hcalls
      split at hcalls
      · rw [← Option.some.inj hcalls] at hc
        simp at hc
      · split at hcalls
        · rw [← Option.some.inj hcalls] at hc
          simp at hc
        · rw [← Option.some.inj hcalls] at hc
          exact List.mem_singleton.mp hc
  · exact absurd hfn (by decide)

theorem xmlPrintOverrides_functions (depth : Nat) :
    ∀ {type fndecl : τ} {fns : List τ}, xmlPrintOverrides g.toTrees depth type fndecl = some fns →
      ∀ fn ∈ fns, g.isFunctionDecl fn := by
  induction depth with
  | zero =>
    intro type fndecl fns h
    simp [xmlPrintOverrides] at h
  | succ depth ih =>
    intro type fndecl fns h fn hfn
    simp only [xmlPrintOverrides, Option.bind_eq_bind, Option.bind_eq_some_iff] at h
    obtain ⟨found, hfound, heq⟩ := h
    obtain rfl := Option.some.inj heq
    obtain ⟨l, hl, hfnl⟩ := List.mem_flatten.mp hfn
    obtain ⟨basetype, -, hbase⟩ := mem_of_mapM hfound hl
    split at hbase
    · rename_i fn' hhere
      obtain rfl := Option.some.inj hbase
      rw [List.mem_singleton.mp hfnl]
      exact g.overridesHere_isFunctionDecl _ _ _ hhere
    · exact ih hbase fn hfnl

theorem overriddenFunctions_functions {n fn : τ} (h : fn ∈ overriddenFunctions g n) :
    g.isFunctionDecl fn := by
  unfold overriddenFunctions at h
  split at h
  · unfold overriddenBy at h
    split at h
    · exact xmlPrintOverrides_functions g g.depth
        (Option.some_get (g.overrides_isSome _ _)).symm fn h
    · simp at h
  · simp at h

/-- The same, for the nodes that are really added. -/
theorem realCalls_incomplete {n m : τ} (h : (m, true) ∈ realCalls g n false) :
    m ∈ overriddenFunctions g n := by
  obtain ⟨⟨fn, complete⟩, hcall, hm⟩ := List.mem_flatMap.mp h
  obtain rfl : true = complete := addNode_flag g fn complete _ hm
  have hfn := (dumpTreeNode_incomplete g n fn).mp hcall
  obtain ⟨rfl, -⟩ := Prod.mk.inj (addNode_function g (overriddenFunctions_functions g hfn) hm)
  exact hfn

end Incomplete

end CableSwig.GccXml.OutputFunctions
