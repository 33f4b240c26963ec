import CableSwig.CxxTypes.Terms
import CableSwig.Lib.OrderedMap
import Mathlib.Data.String.Basic
import Mathlib.Logic.Function.Basic

/-!
# The type factory

Every type is allocated once and kept in the map of its representation, keyed by
its components. A component type is known by its address, so the maps compare
addresses; `new` may return any address that is not in use. The section on terms
reads an address back as the type term it stands for.
-/
namespace CableSwig.CxxTypes.TypeSystem

open CableSwig.Lib.OrderedMap

/-- A `Type` pointer under its two flags. -/
structure CvQualifiedType (α : Type) where
  type : α
  isConst : Bool
  isVolatile : Bool
  deriving DecidableEq

namespace CvQualifiedType

variable {α : Type}

/-- `operator==`. `Type::Equal` compares the pointers. -/
def equal [DecidableEq α] (l r : CvQualifiedType α) : Bool :=
  decide (l.type = r.type) && (l.isConst == r.isConst && l.isVolatile == r.isVolatile)

/-- The integer that `operator<` makes of the two flags. -/
def flags (t : CvQualifiedType α) : Nat :=
  ((if t.isConst then 1 else 0) <<< 1) ||| (if t.isVolatile then 1 else 0)

/-- `operator<`. `Type::Less` compares the pointers. -/
def less [LinearOrder α] (l r : CvQualifiedType α) : Bool :=
  if ordLess l.type r.type then true
  else if ordLess r.type l.type then false
  else decide (l.flags < r.flags)

theorem equal_iff [DecidableEq α] (l r : CvQualifiedType α) : l.equal r = true ↔ l = r := by
  cases l
  cases r
  simp [equal]

theorem flags_inj {l r : CvQualifiedType α} (h : l.flags = r.flags) :
    l.isConst = r.isConst ∧ l.isVolatile = r.isVolatile := by
  obtain ⟨_, lc, lv⟩ := l
  obtain ⟨_, rc, rv⟩ := r
  revert h
  cases lc <;> cases lv <;> cases rc <;> cases rv <;> simp [flags]

theorem less_eq_pairLess [LinearOrder α] (l r : CvQualifiedType α) :
    l.less r = pairLess ordLess ordLess (l.type, l.flags) (r.type, r.flags) := by
  unfold less pairLess
  cases h1 : ordLess l.type r.type <;> cases h2 : ordLess r.type l.type <;> simp [ordLess]

theorem less_strictTotal [LinearOrder α] :
    StrictTotal (less : CvQualifiedType α → CvQualifiedType α → Bool) := by
  have hinj : Function.Injective (fun t : CvQualifiedType α => (t.type, t.flags)) := by
    intro l r h
    simp only [Prod.mk.injEq] at h
    obtain ⟨hc, hv⟩ := flags_inj h.2
    cases l
    cases r
    simp_all
  have h := strictTotal_comap (pairLess_strictTotal ordLess_strictTotal ordLess_strictTotal) hinj
  simpa only [← less_eq_pairLess] using h

end CvQualifiedType

/-- An allocated type object with its members. -/
inductive TypeNode (α : Type)
  | arrayType (elementType : CvQualifiedType α) (length : Nat)
  | classType (name : String) (copyable : Bool) (parents : List α)
  | enumerationType (name : String)
  | functionType (returnType : CvQualifiedType α) (arguments : List (CvQualifiedType α))
  | fundamentalType (id : FundamentalId)
  | pointerType (pointedToType : CvQualifiedType α)
  | pointerToMemberType (pointedToType : CvQualifiedType α) (classType : α)
  | referenceType (referencedType : CvQualifiedType α)

/-- The key type of each of the eight maps. -/
abbrev Key (α : Type) : RepresentationType → Type
  | .arrayType => CvQualifiedType α × Nat
  | .classType => String
  | .enumerationType => String
  | .functionType => CvQualifiedType α × List (CvQualifiedType α)
  | .fundamentalType => FundamentalId
  | .pointerType => CvQualifiedType α
  | .pointerToMemberType => CvQualifiedType α × α
  | .referenceType => CvQualifiedType α

/-- A key together with the map it belongs to. -/
abbrev MapKey (α : Type) := (k : RepresentationType) × Key α k

variable {α : Type}

/-- The comparison each map is instantiated with. -/
def keyLess [LinearOrder α] : (k : RepresentationType) → Key α k → Key α k → Bool
  | .arrayType => pairLess CvQualifiedType.less ordLess
  | .classType => ordLess
  | .enumerationType => ordLess
  | .functionType => pairLess CvQualifiedType.less (lexLess CvQualifiedType.less)
  | .fundamentalType => fun a b => ordLess a.ctorIdx b.ctorIdx
  | .pointerType => CvQualifiedType.less
  | .pointerToMemberType => pairLess CvQualifiedType.less ordLess
  | .referenceType => CvQualifiedType.less

theorem fundamentalId_ctorIdx_injective : Function.Injective FundamentalId.ctorIdx := by
  intro a b h
  cases a <;> cases b <;> first | rfl | exact absurd h (by decide)

theorem keyLess_strictTotal [LinearOrder α] (k : RepresentationType) :
    StrictTotal (keyLess (α := α) k) := by
  have hcv := CvQualifiedType.less_strictTotal (α := α)
  cases k with
  | arrayType => exact pairLess_strictTotal hcv ordLess_strictTotal
  | classType => exact ordLess_strictTotal
  | enumerationType => exact ordLess_strictTotal
  | functionType => exact pairLess_strictTotal hcv (lexLess_strictTotal hcv)
  | fundamentalType => exact strictTotal_comap ordLess_strictTotal fundamentalId_ctorIdx_injective
  | pointerType => exact hcv
  | pointerToMemberType => exact pairLess_strictTotal hcv ordLess_strictTotal
  | referenceType => exact hcv

/-- The map and the key an object is stored under. -/
def TypeNode.key : TypeNode α → MapKey α
  | .arrayType e n => ⟨.arrayType, (e, n)⟩
  | .classType name _ _ => ⟨.classType, name⟩
  | .enumerationType name => ⟨.enumerationType, name⟩
  | .functionType r as => ⟨.functionType, (r, as)⟩
  | .fundamentalType id => ⟨.fundamentalType, id⟩
  | .pointerType t => ⟨.pointerType, t⟩
  | .pointerToMemberType t c => ⟨.pointerToMemberType, (t, c)⟩
  | .referenceType t => ⟨.referenceType, t⟩

/-- `ClassType::MergeClassInformation`. No other class of type has it. -/
def TypeNode.mergeClassInformation (isCopyable : Bool) (parents : List α) :
    TypeNode α → TypeNode α
  | .classType name copyable ps =>
      .classType name (isCopyable || copyable)
        (if parents.length > ps.length then parents else ps)
  | n => n

@[simp] theorem TypeNode.key_mergeClassInformation (c : Bool) (ps : List α) (n : TypeNode α) :
    (n.mergeClassInformation c ps).key = n.key := by
  cases n <;> rfl

/-- The objects at their addresses, and the eight maps. -/
structure Factory (α : Type) where
  heap : α → Option (TypeNode α)
  maps : (k : RepresentationType) → StdMap (Key α k) α

def Factory.empty : Factory α := ⟨fun _ => none, fun _ => StdMap.empty⟩

section Calls

variable [LinearOrder α]

/-- The body shared by the eight `Get*Type` members: look the key up, return what is
there after `merge`, or else store `node` at the address `new` returned. -/
def intern (ts : Factory α) (key : MapKey α) (node : TypeNode α)
    (merge : TypeNode α → TypeNode α) (new : α) : Factory α × α :=
  match (ts.maps key.1).find (keyLess key.1) key.2 with
  | some p => (⟨Function.update ts.heap p ((ts.heap p).map merge), ts.maps⟩, p)
  | none =>
      (⟨Function.update ts.heap new (some node),
        Function.update ts.maps key.1 ((ts.maps key.1).insert (keyLess key.1) key.2 new)⟩, new)

def getArrayType (ts : Factory α) (elementType : CvQualifiedType α) (length : Nat) :
    α → Factory α × α :=
  intern ts ⟨.arrayType, (elementType, length)⟩ (.arrayType elementType length) id

def getClassType (ts : Factory α) (name : String) (isCopyable : Bool) (parents : List α) :
    α → Factory α × α :=
  intern ts ⟨.classType, name⟩ (.classType name isCopyable parents)
    (TypeNode.mergeClassInformation isCopyable parents)

def getEnumerationType (ts : Factory α) (name : String) : α → Factory α × α :=
  intern ts ⟨.enumerationType, name⟩ (.enumerationType name) id

def getFunctionType (ts : Factory α) (returnType : CvQualifiedType α)
    (arguments : List (CvQualifiedType α)) : α → Factory α × α :=
  intern ts ⟨.functionType, (returnType, arguments)⟩ (.functionType returnType arguments) id

def getFundamentalType (ts : Factory α) (id' : FundamentalId) : α → Factory α × α :=
  intern ts ⟨.fundamentalType, id'⟩ (.fundamentalType id') id

def getPointerType (ts : Factory α) (type : CvQualifiedType α) : α → Factory α × α :=
  intern ts ⟨.pointerType, type⟩ (.pointerType type) id

def getPointerToMemberType (ts : Factory α) (type : CvQualifiedType α) (cls : α) :
    α → Factory α × α :=
  intern ts ⟨.pointerToMemberType, (type, cls)⟩ (.pointerToMemberType type cls) id

def getReferenceType (ts : Factory α) (type : CvQualifiedType α) : α → Factory α × α :=
  intern ts ⟨.referenceType, type⟩ (.referenceType type) id

end Calls

/-- A call of one of the eight members, with its arguments. -/
inductive Call (α : Type)
  | getArrayType (elementType : CvQualifiedType α) (length : Nat)
  | getClassType (name : String) (isCopyable : Bool) (parents : List α)
  | getEnumerationType (name : String)
  | getFunctionType (returnType : CvQualifiedType α) (arguments : List (CvQualifiedType α))
  | getFundamentalType (id : FundamentalId)
  | getPointerType (type : CvQualifiedType α)
  | getPointerToMemberType (type : CvQualifiedType α) (cls : α)
  | getReferenceType (type : CvQualifiedType α)

/-- Execute a call; `new` is the address an allocation would return. -/
def Call.run [LinearOrder α] (ts : Factory α) : Call α → α → Factory α × α
  | .getArrayType e n => TypeSystem.getArrayType ts e n
  | .getClassType name c ps => TypeSystem.getClassType ts name c ps
  | .getEnumerationType name => TypeSystem.getEnumerationType ts name
  | .getFunctionType r as => TypeSystem.getFunctionType ts r as
  | .getFundamentalType id' => TypeSystem.getFundamentalType ts id'
  | .getPointerType t => TypeSystem.getPointerType ts t
  | .getPointerToMemberType t c => TypeSystem.getPointerToMemberType ts t c
  | .getReferenceType t => TypeSystem.getReferenceType ts t

/-- The object a call builds when the key is new. -/
def Call.node : Call α → TypeNode α
  | .getArrayType e n => .arrayType e n
  | .getClassType name c ps => .classType name c ps
  | .getEnumerationType name => .enumerationType name
  | .getFunctionType r as => .functionType r as
  | .getFundamentalType id' => .fundamentalType id'
  | .getPointerType t => .pointerType t
  | .getPointerToMemberType t c => .pointerToMemberType t c
  | .getReferenceType t => .referenceType t

/-- What a call does to the object it finds. -/
def Call.merge : Call α → TypeNode α → TypeNode α
  | .getClassType _ c ps => TypeNode.mergeClassInformation c ps
  | _ => id

/-- Every member is `intern` at its own key, object and merge. -/
theorem run_eq_intern [LinearOrder α] (ts : Factory α) (c : Call α) (new : α) :
    c.run ts new = intern ts c.node.key c.node c.merge new := by
  cases c <;> rfl

@[simp] theorem key_merge (c : Call α) (n : TypeNode α) : (c.merge n).key = n.key := by
  cases c <;> simp [Call.merge]

/-- The addresses a key mentions. -/
def MapKey.components : MapKey α → List α
  | ⟨.arrayType, (e, _)⟩ => [e.type]
  | ⟨.classType, _⟩ => []
  | ⟨.enumerationType, _⟩ => []
  | ⟨.functionType, (r, as)⟩ => r.type :: as.map (·.type)
  | ⟨.fundamentalType, _⟩ => []
  | ⟨.pointerType, t⟩ => [t.type]
  | ⟨.pointerToMemberType, (t, c)⟩ => [t.type, c]
  | ⟨.referenceType, t⟩ => [t.type]

/-- The address holds a `ClassType`. -/
def IsClass (heap : α → Option (TypeNode α)) (p : α) : Prop :=
  ∃ name copyable parents, heap p = some (.classType name copyable parents)

/-- A well-typed call: the types it is given came from this factory, the class of a
member pointer is a class, and the allocator returns an address that is not in use. -/
structure Call.Valid (ts : Factory α) (c : Call α) (new : α) : Prop where
  components : ∀ p ∈ c.node.key.components, (ts.heap p).isSome
  classType : ∀ t cls, c = .getPointerToMemberType t cls → IsClass ts.heap cls
  fresh : ts.heap new = none

end CableSwig.CxxTypes.TypeSystem
