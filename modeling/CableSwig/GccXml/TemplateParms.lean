import Mathlib.Data.List.ReduceOption
import Mathlib.Tactic.Common

/-!
# Template-dependent trees

`xml_find_template_parm` searches a type or an expression for what an instantiation would replace.
-/
namespace CableSwig.GccXml.TemplateParms

section Trees

/-- The codes for which the search is over at once. -/
inductive DependentCode
  | templateTypeParm | templateTemplateParm | templateParmIndex | typenameType
  | boundTemplateTemplateParm | constDecl | varDecl | functionDecl | overload | fieldDecl
  | scopeRef | castExpr

inductive FunctionTypeCode
  | methodType | functionType

inductive ClassCode
  | unionType | qualUnionType | recordType

inductive TargetCode
  | referenceType | pointerType

/-- Fundamental types without anything below them, and template declarations. -/
inductive ClosedCode
  | booleanType | enumeralType | langType | realType | voidType | templateDecl

inductive UnaryCode
  | alignofExpr | sizeofExpr | addrExpr | convertExpr | nopExpr | negateExpr | bitNotExpr
  | truthNotExpr | predecrementExpr | preincrementExpr | postdecrementExpr | postincrementExpr

inductive BinaryCode
  | compoundExpr | initExpr | modifyExpr | plusExpr | minusExpr | multExpr | truncDivExpr
  | truncModExpr | minExpr | maxExpr | lshiftExpr | rshiftExpr | bitIorExpr | bitXorExpr
  | bitAndExpr | truthAndifExpr | truthOrifExpr | ltExpr | leExpr | gtExpr | geExpr | eqExpr
  | neExpr | exactDivExpr

/-- Trees of the codes that the function handles, with the trees that they hold. A pointer may be
null. The nodes of a chained list are a list here, without the void node that ends argument types,
and a class is one for pointers to member functions, an instance of a template, or plain. -/
inductive Tree
  | treeVec (elements : List (Option Tree))
  | treeList (purpose value : Option Tree)
  | dependent (code : DependentCode)
  | functionType (code : FunctionTypeCode) (type : Option Tree) (argTypes : List Tree)
  | ptrmemfunc (fnType : Option Tree)
  | templateClass (code : ClassCode) (args : Option Tree)
  | plainClass (code : ClassCode) (type : Option Tree)
  | target (code : TargetCode) (type : Option Tree)
  | arrayType (type domain : Option Tree)
  | integerType (minValue maxValue : Option Tree)
  | complexType (type : Option Tree)
  | closed (code : ClosedCode)
  | indirectRef (type operand : Option Tree)
  | componentRef (type object field : Option Tree)
  | offsetType (basetype type : Option Tree)
  | ptrmemCst (type cls member : Option Tree)
  | unary (code : UnaryCode) (type operand : Option Tree)
  | binary (code : BinaryCode) (type operand0 operand1 : Option Tree)
  | condExpr (type operand0 operand1 operand2 : Option Tree)
  | typeofType (expr : Option Tree)
  | callExpr (type : Option Tree) (function : Tree) (arguments : List Tree)
  | templateIdExpr (type : Option Tree) (template : Tree) (arguments : List (Option Tree))
  | integerCst (type : Option Tree)
  | staticCastExpr (type operand : Option Tree)

end Trees

section Search

mutual

def xmlFindTemplateParm : Tree → Bool
  | .treeVec elements => findInVec elements
  | .treeList purpose value => findIn purpose || findIn value
  | .dependent _ => true
  | .functionType _ type argTypes => findIn type || findInList argTypes
  | .ptrmemfunc fnType => findIn fnType
  | .templateClass _ args => findIn args
  | .plainClass _ type => findIn type
  | .target _ type => findIn type
  | .arrayType type _ => findIn type
  | .indirectRef type _ => findIn type
  | .componentRef type _ _ => findIn type
  | .offsetType basetype type => findIn basetype || findIn type
  | .ptrmemCst _ cls member => findIn cls || findIn member
  | .closed _ => false
  | .complexType _ => false
  | .integerType _ _ => false
  | .unary _ _ operand => findIn operand
  | .binary _ _ operand0 operand1 => findIn operand0 || findIn operand1
  | .condExpr _ operand0 operand1 operand2 =>
    findIn operand0 || findIn operand1 || findIn operand2
  | .typeofType expr => findIn expr
  | .callExpr _ function arguments => xmlFindTemplateParm function || findInList arguments
  | .templateIdExpr _ template arguments => xmlFindTemplateParm template || findInVec arguments
  | .integerCst _ => false
  | .staticCastExpr _ _ => false

/-- A null pointer has nothing in it. -/
def findIn : Option Tree → Bool
  | none => false
  | some t => xmlFindTemplateParm t

/-- The loops over a chained list. -/
def findInList : List Tree → Bool
  | [] => false
  | t :: ts => xmlFindTemplateParm t || findInList ts

/-- The loops over a vector. -/
def findInVec : List (Option Tree) → Bool
  | [] => false
  | t :: ts => findIn t || findInVec ts

end

end Search

section Places

namespace Tree

def isDependent : Tree → Bool
  | .dependent _ => true
  | _ => false

/-- The trees that the function looks into. -/
def searched : Tree → List Tree
  | .treeVec elements => elements.reduceOption
  | .treeList purpose value => [purpose, value].reduceOption
  | .functionType _ type argTypes => [type].reduceOption ++ argTypes
  | .ptrmemfunc fnType => [fnType].reduceOption
  | .templateClass _ args => [args].reduceOption
  | .plainClass _ type => [type].reduceOption
  | .target _ type => [type].reduceOption
  | .arrayType type _ => [type].reduceOption
  | .indirectRef type _ => [type].reduceOption
  | .componentRef type _ _ => [type].reduceOption
  | .offsetType basetype type => [basetype, type].reduceOption
  | .ptrmemCst _ cls member => [cls, member].reduceOption
  | .unary _ _ operand => [operand].reduceOption
  | .binary _ _ operand0 operand1 => [operand0, operand1].reduceOption
  | .condExpr _ operand0 operand1 operand2 => [operand0, operand1, operand2].reduceOption
  | .typeofType expr => [expr].reduceOption
  | .callExpr _ function arguments => function :: arguments
  | .templateIdExpr _ template arguments => template :: arguments.reduceOption
  | .dependent _ | .closed _ | .complexType _ | .integerType _ _ | .integerCst _
  | .staticCastExpr _ _ => []

/-- The trees that the function passes by: the type and the operand of a `static_cast`, what is
dereferenced, the object and the field of a member access, the bounds of an array or an integer
type, the parts of a complex type, and the types of expressions. -/
def passedBy : Tree → List Tree
  | .arrayType _ domain => [domain].reduceOption
  | .integerType minValue maxValue => [minValue, maxValue].reduceOption
  | .complexType type => [type].reduceOption
  | .indirectRef _ operand => [operand].reduceOption
  | .componentRef _ object field => [object, field].reduceOption
  | .ptrmemCst type _ _ => [type].reduceOption
  | .unary _ type _ => [type].reduceOption
  | .binary _ type _ _ => [type].reduceOption
  | .condExpr type _ _ _ => [type].reduceOption
  | .callExpr type _ _ => [type].reduceOption
  | .templateIdExpr type _ _ => [type].reduceOption
  | .integerCst type => [type].reduceOption
  | .staticCastExpr type operand => [type, operand].reduceOption
  | _ => []

/-- The trees that stand directly below a tree. -/
def children (t : Tree) : List Tree := t.searched ++ t.passedBy

end Tree

/-- A dependent leaf occurs at the node or below it. -/
inductive Dependent : Tree → Prop
  | here {t : Tree} : t.isDependent → Dependent t
  | inside {t c : Tree} : c ∈ t.children → Dependent c → Dependent t

/-- A dependent leaf occurs in a place that is not passed by. -/
inductive Exposed : Tree → Prop
  | here {t : Tree} : t.isDependent → Exposed t
  | inside {t c : Tree} : c ∈ t.searched → Exposed c → Exposed t

theorem findInList_eq (ts : List Tree) : findInList ts = ts.any xmlFindTemplateParm := by
  induction ts with
  | nil => simp [findInList]
  | cons t ts ih => simp [findInList, ih]

theorem findInList_reduceOption (os : List (Option Tree)) :
    findInList os.reduceOption = findInVec os := by
  induction os with
  | nil => simp [findInVec, findInList, List.reduceOption]
  | cons o os ih => cases o <;> simp [findInVec, findIn, findInList, ih]

/-- The search of a node is a test of its code and the search of the trees that it looks into. -/
theorem xmlFindTemplateParm_eq (t : Tree) :
    xmlFindTemplateParm t = (t.isDependent || t.searched.any xmlFindTemplateParm) := by
  cases t
  all_goals simp only [xmlFindTemplateParm, Tree.isDependent, Tree.searched, List.any_append,
    List.any_cons, List.any_nil, ← findInList_eq, findInList_reduceOption, findInVec,
    Bool.false_or, Bool.or_false, Bool.or_assoc]

theorem sizeOf_lt_of_some_mem {c : Tree} {os : List (Option Tree)} (h : some c ∈ os) :
    sizeOf c < sizeOf os := by
  have hlt := List.sizeOf_lt_of_mem h
  simp only [Option.some.sizeOf_spec] at hlt
  omega

theorem sizeOf_children {t c : Tree} (h : c ∈ t.children) : sizeOf c < sizeOf t := by
  rw [Tree.children, List.mem_append] at h
  cases t
  all_goals simp only [Tree.searched, Tree.passedBy, List.reduceOption_mem_iff, List.mem_append,
    List.mem_cons, List.not_mem_nil, or_false, false_or] at h
  case treeVec elements =>
    have hlt := sizeOf_lt_of_some_mem h
    simp only [Tree.treeVec.sizeOf_spec]
    omega
  case functionType code type argTypes =>
    rcases h with rfl | h
    · simp
      omega
    · have hlt := List.sizeOf_lt_of_mem h
      simp only [Tree.functionType.sizeOf_spec]
      omega
  case callExpr type function arguments =>
    rcases h with (rfl | h) | rfl
    · simp only [Tree.callExpr.sizeOf_spec]
      omega
    · have hlt := List.sizeOf_lt_of_mem h
      simp only [Tree.callExpr.sizeOf_spec]
      omega
    · simp
      omega
  case templateIdExpr type template arguments =>
    rcases h with (rfl | h) | rfl
    · simp only [Tree.templateIdExpr.sizeOf_spec]
      omega
    · have hlt := sizeOf_lt_of_some_mem h
      simp only [Tree.templateIdExpr.sizeOf_spec]
      omega
    · simp
      omega
  all_goals repeat' rcases h with h | h
  all_goals simp
  all_goals omega

end Places

section Detection

/-- What is found is what is exposed. -/
theorem xmlFindTemplateParm_iff (n : Nat) : ∀ t : Tree, sizeOf t < n →
    (xmlFindTemplateParm t = true ↔ Exposed t) := by
  induction n with
  | zero => intro t hn; exact absurd hn (Nat.not_lt_zero _)
  | succ n ih =>
    intro t hn
    have hbelow : ∀ c ∈ t.searched, xmlFindTemplateParm c = true ↔ Exposed c := by
      intro c hc
      have hlt := sizeOf_children (List.mem_append_left t.passedBy hc)
      exact ih c (by omega)
    rw [xmlFindTemplateParm_eq, Bool.or_eq_true, List.any_eq_true]
    constructor
    · intro h
      rcases h with h | ⟨c, hc, h⟩
      · exact .here h
      · exact .inside hc ((hbelow c hc).mp h)
    · intro h
      cases h with
      | here h => exact Or.inl h
      | inside hc h => exact Or.inr ⟨_, hc, (hbelow _ hc).mpr h⟩

theorem Exposed.dependent {t : Tree} (h : Exposed t) : Dependent t := by
  induction h with
  | here h => exact .here h
  | inside hc _ ih => exact .inside (List.mem_append_left _ hc) ih

/-- The search tells whether a tree is dependent. -/
def Detects (t : Tree) : Prop := xmlFindTemplateParm t = true ↔ Dependent t

/-- The search is right unless all the dependent leaves are in places that it passes by. -/
theorem detects_iff (t : Tree) : Detects t ↔ (Dependent t → Exposed t) := by
  have hfound := xmlFindTemplateParm_iff _ t (Nat.lt_succ_self _)
  constructor
  · intro h hdependent
    exact hfound.mp (h.mpr hdependent)
  · intro h
    exact ⟨fun hfind => (hfound.mp hfind).dependent, fun hdependent => hfound.mpr (h hdependent)⟩

/-- The arguments of `A<static_cast<int>(N)>` in a template with a parameter `N`. -/
def staticCastArguments : Tree :=
  .treeVec [some (.staticCastExpr (some (.integerType none none))
    (some (.dependent .templateParmIndex)))]

theorem static_cast_not_detected : ¬ Detects staticCastArguments := by
  intro h
  have hoperand : Dependent (.dependent .templateParmIndex) := .here rfl
  have hcast : Dependent (.staticCastExpr (some (.integerType none none))
      (some (.dependent .templateParmIndex))) :=
    .inside (List.mem_append_right _ (List.mem_cons_of_mem _ List.mem_cons_self)) hoperand
  have hdependent : Dependent staticCastArguments :=
    .inside (List.mem_append_left _ List.mem_cons_self) hcast
  have hfound := h.mpr hdependent
  simp [staticCastArguments, xmlFindTemplateParm, findInVec, findIn] at hfound

end Detection

end CableSwig.GccXml.TemplateParms
