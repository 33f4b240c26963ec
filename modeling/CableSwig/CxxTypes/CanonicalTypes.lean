import CableSwig.CxxTypes.Terms
import Mathlib.Order.BooleanAlgebra.Basic

/-!
# Qualified arrays

The library lets an array have qualifiers of its own. They mean the same as qualifiers on the
elements, where the canonical form of a type has them. Two types are the same if their shapes
and their innermost qualifiers are.
-/
namespace CableSwig.CxxTypes.CanonicalTypes

section Canonical

mutual

/-- The type with these qualifiers, where those of an array are moved to its elements. -/
def canonicalType : TypeTerm → Bool → Bool → CvTerm
  | .arrayType elementType length => fun c v =>
    .mk (.arrayType (canonicalMore elementType c v) length) false false
  | .classType name => fun c v => .mk (.classType name) c v
  | .enumerationType name => fun c v => .mk (.enumerationType name) c v
  | .functionType returnType arguments => fun c v =>
    .mk (.functionType (canonicalMore returnType false false) (canonicalArguments arguments)) c v
  | .fundamentalType id => fun c v => .mk (.fundamentalType id) c v
  | .pointerType t => fun c v => .mk (.pointerType (canonicalMore t false false)) c v
  | .pointerToMemberType t classType => fun c v =>
    .mk (.pointerToMemberType (canonicalMore t false false) classType) c v
  | .referenceType t => fun c v => .mk (.referenceType (canonicalMore t false false)) c v

/-- The type with qualifiers added to its own. -/
def canonicalMore : CvTerm → Bool → Bool → CvTerm
  | .mk type c v => fun isConst isVolatile =>
    canonicalType type (isConst || c) (isVolatile || v)

def canonicalArguments : List CvTerm → List CvTerm
  | [] => []
  | t :: arguments => canonicalMore t false false :: canonicalArguments arguments

end

/-- Qualifiers on an array are qualifiers on its elements. -/
def canonical (t : CvTerm) : CvTerm := canonicalMore t false false

end Canonical

section Shapes

mutual

/-- The qualifiers on the elements of a type that is an array. -/
def elementQuals : TypeTerm → Quals
  | .arrayType elementType _ => topQuals elementType
  | _ => ⊥

/-- The qualifiers of a type, looking through arrays. -/
def topQuals : CvTerm → Quals
  | .mk type c v => (c, v) ⊔ elementQuals type

end

mutual

def eraseType : TypeTerm → TypeTerm
  | .arrayType elementType length => .arrayType (erase elementType) length
  | t => t

/-- The type without the qualifiers that `topQuals` finds. -/
def erase : CvTerm → CvTerm
  | .mk type _ _ => .mk (eraseType type) false false

end

mutual

def spreadType : TypeTerm → Quals → CvTerm
  | .arrayType elementType length => fun q =>
    .mk (.arrayType (spread elementType q) length) false false
  | t => fun q => .mk t q.1 q.2

/-- The type with these qualifiers, on the elements of an array. -/
def spread : CvTerm → Quals → CvTerm
  | .mk type _ _ => fun q => spreadType type q

end

mutual

theorem topQuals_canonicalType : ∀ (t : TypeTerm) (c v : Bool),
    topQuals (canonicalType t c v) = (c, v) ⊔ elementQuals t
  | .arrayType elementType _, c, v => by
    rw [canonicalType, topQuals, elementQuals, topQuals_canonicalMore, elementQuals]
    exact bot_sup_eq _
  | .classType _, _, _ => rfl
  | .enumerationType _, _, _ => rfl
  | .functionType _ _, _, _ => rfl
  | .fundamentalType _, _, _ => rfl
  | .pointerType _, _, _ => rfl
  | .pointerToMemberType _ _, _, _ => rfl
  | .referenceType _, _, _ => rfl

theorem topQuals_canonicalMore : ∀ (t : CvTerm) (c v : Bool),
    topQuals (canonicalMore t c v) = (c, v) ⊔ topQuals t
  | .mk type c' v', c, v => by
    rw [canonicalMore, topQuals_canonicalType, topQuals, ← sup_assoc]
    rfl

end

mutual

theorem spread_canonicalType : ∀ (t : TypeTerm) (c v : Bool),
    spread (erase (canonicalType t c v)) ((c, v) ⊔ elementQuals t) = canonicalType t c v
  | .arrayType elementType _, c, v => by
    simp only [canonicalType, erase, eraseType, spread, spreadType, elementQuals]
    rw [spread_canonicalMore]
  | .classType _, _, _ => by
    simp [canonicalType, erase, eraseType, spread, spreadType, elementQuals]
  | .enumerationType _, _, _ => by
    simp [canonicalType, erase, eraseType, spread, spreadType, elementQuals]
  | .functionType _ _, _, _ => by
    simp [canonicalType, erase, eraseType, spread, spreadType, elementQuals]
  | .fundamentalType _, _, _ => by
    simp [canonicalType, erase, eraseType, spread, spreadType, elementQuals]
  | .pointerType _, _, _ => by
    simp [canonicalType, erase, eraseType, spread, spreadType, elementQuals]
  | .pointerToMemberType _ _, _, _ => by
    simp [canonicalType, erase, eraseType, spread, spreadType, elementQuals]
  | .referenceType _, _, _ => by
    simp [canonicalType, erase, eraseType, spread, spreadType, elementQuals]

theorem spread_canonicalMore : ∀ (t : CvTerm) (c v : Bool),
    spread (erase (canonicalMore t c v)) ((c, v) ⊔ topQuals t) = canonicalMore t c v
  | .mk type c' v', c, v => by
    have h := spread_canonicalType type (c || c') (v || v')
    rw [canonicalMore, topQuals, ← sup_assoc]
    exact h

end

mutual

theorem erase_canonicalType : ∀ (t : TypeTerm) (c v c' v' : Bool),
    erase (canonicalType t c v) = erase (canonicalType t c' v')
  | .arrayType elementType _, c, v, c', v' => by
    simp only [canonicalType, erase, eraseType]
    rw [erase_canonicalMore elementType c v c' v']
  | .classType _, _, _, _, _ => rfl
  | .enumerationType _, _, _, _, _ => rfl
  | .functionType _ _, _, _, _, _ => rfl
  | .fundamentalType _, _, _, _, _ => rfl
  | .pointerType _, _, _, _, _ => rfl
  | .pointerToMemberType _ _, _, _, _, _ => rfl
  | .referenceType _, _, _, _, _ => rfl

theorem erase_canonicalMore : ∀ (t : CvTerm) (c v c' v' : Bool),
    erase (canonicalMore t c v) = erase (canonicalMore t c' v')
  | .mk type _ _, _, _, _, _ => erase_canonicalType type _ _ _ _

end

/-- The type apart from its qualifiers. -/
def shape (t : CvTerm) : CvTerm := erase (canonical t)

theorem shape_mk (type : TypeTerm) (c v : Bool) :
    shape (.mk type c v) = erase (canonicalType type false false) :=
  erase_canonicalType type _ _ _ _

theorem shape_moreQualified (t : CvTerm) (c v : Bool) : shape (t.moreQualified c v) = shape t := by
  obtain ⟨type, c', v'⟩ := t
  rw [CvTerm.moreQualified, shape_mk, shape_mk]
  rfl

theorem topQuals_moreQualified (t : CvTerm) (c v : Bool) :
    topQuals (t.moreQualified c v) = topQuals t ⊔ (c, v) := by
  obtain ⟨type, c', v'⟩ := t
  change ((c', v') ⊔ (c, v) : Quals) ⊔ elementQuals type = ((c', v') ⊔ elementQuals type) ⊔ (c, v)
  rw [sup_right_comm]

theorem shape_arrayType (t : CvTerm) (length : Nat) (c v : Bool) :
    shape (.mk (.arrayType t length) c v) = .mk (.arrayType (shape t) length) false false := by
  rw [shape_mk]
  rfl

/-- The same canonical type means the same shape with the same qualifiers. -/
theorem canonical_eq_iff {s t : CvTerm} :
    canonical s = canonical t ↔ shape s = shape t ∧ topQuals s = topQuals t := by
  have htop : ∀ t, topQuals (canonical t) = topQuals t := fun t =>
    (topQuals_canonicalMore t false false).trans (bot_sup_eq _)
  have hspread : ∀ t, spread (shape t) (topQuals t) = canonical t := by
    intro t
    have h := spread_canonicalMore t false false
    rwa [show ((false, false) : Quals) ⊔ topQuals t = topQuals t from bot_sup_eq _] at h
  constructor
  · intro h
    refine ⟨congrArg erase h, ?_⟩
    rw [← htop s, h, htop t]
  · rintro ⟨hshape, hquals⟩
    rw [← hspread s, hshape, hquals, hspread t]

end Shapes

end CableSwig.CxxTypes.CanonicalTypes
