import Mathlib.Tactic.Common

/-!
# C++ type terms

What the type library represents, as a term. Every component that the library
stores as a `CvQualifiedType` is a term with its two flags. A class or an
enumeration is nothing but its name here: the copyable flag and the parent list
of a class do not belong to the type it denotes.
-/
namespace CableSwig.CxxTypes

/-- `FundamentalType::Id`, in the order of the source. -/
inductive FundamentalId
  | unsignedChar | unsignedShortInt | unsignedInt | unsignedLongInt
  | unsignedLongLongInt | signedChar | char | shortInt | int | longInt
  | longLongInt | wChar_t | bool | float | double | longDouble
  | complexFloat | complexDouble | complexLongDouble | void
  deriving DecidableEq, Repr

/-- `enum RepresentationType`, without the value for an undefined type. -/
inductive RepresentationType
  | arrayType | classType | enumerationType | pointerType
  | pointerToMemberType | referenceType | fundamentalType | functionType
  deriving DecidableEq, Repr

mutual

inductive TypeTerm
  | arrayType (elementType : CvTerm) (length : Nat)
  | classType (name : String)
  | enumerationType (name : String)
  | functionType (returnType : CvTerm) (arguments : List CvTerm)
  | fundamentalType (id : FundamentalId)
  | pointerType (pointedToType : CvTerm)
  | pointerToMemberType (pointedToType : CvTerm) (classType : String)
  | referenceType (referencedType : CvTerm)

/-- A type under its two cv-qualifiers. -/
inductive CvTerm
  | mk (type : TypeTerm) (isConst isVolatile : Bool)

end

/-- The const and the volatile qualifier. -/
abbrev Quals := Bool × Bool

namespace CvTerm

def type : CvTerm → TypeTerm
  | mk t _ _ => t

def isConst : CvTerm → Bool
  | mk _ c _ => c

def isVolatile : CvTerm → Bool
  | mk _ _ v => v

@[simp] theorem type_mk (t : TypeTerm) (c v : Bool) : (mk t c v).type = t := rfl
@[simp] theorem isConst_mk (t : TypeTerm) (c v : Bool) : (mk t c v).isConst = c := rfl
@[simp] theorem isVolatile_mk (t : TypeTerm) (c v : Bool) : (mk t c v).isVolatile = v := rfl

/-- `CvQualifiedType::GetMoreQualifiedType`. -/
def moreQualified (t : CvTerm) (c v : Bool) : CvTerm :=
  mk t.type (t.isConst || c) (t.isVolatile || v)

end CvTerm

end CableSwig.CxxTypes
