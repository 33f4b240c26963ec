import CableSwig.CxxTypes.CanonicalTypes
import CableSwig.Parsers.TypeReading

/-!
# Which types come through the dump

The type that is created for a written type is the same type exactly if its qualifiers, and
those of the types it is made of, are all on the references that count.
-/
namespace CableSwig.Parsers.TypeRoundTrip

open CableSwig.CxxTypes
open CableSwig.CxxTypes.CanonicalTypes
open CableSwig.GccXml.TypeDump
open CableSwig.Lib.StdString
open CableSwig.Lib.Fuel
open CableSwig.Parsers.CarriedNumbers (readLength readLength_eq_iff)
open CableSwig.Parsers.TypeReader
open CableSwig.Parsers.TypeReading

section Condition

mutual

/-- The qualifiers on the references to a node, where those to it itself are `f`. For an array
the references to its elements count too, and for a pointer to a data member none. -/
def carried : Tree → Quals → Quals
  | .arrayType element _, f => carriedNode element ⊔ f
  | .typedef _ original, f => carriedBehind original f
  | .referenceType _, _ | .functionType _ _, _ | .methodType _ _ _ _, _ | .offsetType _ _, _ => ⊥
  | _, f => f

def carriedNode : CvTree → Quals
  | .mk type _ => carried type (nodeFlags type)

def carriedBehind : CvTree → Quals → Quals
  | .mk type _, f => carried type f

end

/-- The qualifiers on the references to a type. -/
def carriedRef : CvTree → Quals
  | .mk type quals => carried type (flags (.mk type quals))

/-- A length comes through, if there is one. The index before the first element and those with the
sign bit of a `long` do not. -/
def FaithfulLength (length : Option Nat) : Prop := ∀ n ∈ length, 1 ≤ n ∧ n ≤ 2 ^ 63

mutual

/-- Apart from its qualifiers, the type with these flags comes through. -/
def Faithful : Tree → Quals → Prop
  | .fundamentalType _, _ | .classType _, _ | .enumerationType _, _ => True
  | .pointerType target, _ => target.mainVariant.isOffsetType = false ∧ FaithfulRef target
  | .referenceType target, _ => FaithfulRef target
  | .arrayType element length, _ => FaithfulLength length ∧ FaithfulNode element
  | .functionType returns arguments, _ => FaithfulRef returns ∧ FaithfulRefs arguments
  | .methodType _ returns arguments quals, _ =>
    quals = ⊥ ∧ FaithfulRef returns ∧ FaithfulRefs arguments
  | .offsetType _ member, f => FaithfulShape member ∧ carriedRef member ⊔ f = member.cpTypeQuals
  | .typedef _ original, f => FaithfulBehind original f

/-- The type comes through. -/
def FaithfulRef : CvTree → Prop
  | .mk type quals =>
    Faithful type (flags (.mk type quals)) ∧
      carried type (flags (.mk type quals)) = (CvTree.mk type quals).cpTypeQuals

def FaithfulShape : CvTree → Prop
  | .mk type quals => Faithful type (flags (.mk type quals))

def FaithfulNode : CvTree → Prop
  | .mk type _ => Faithful type (nodeFlags type)

def FaithfulBehind : CvTree → Quals → Prop
  | .mk type _, f => Faithful type f

def FaithfulRefs : List CvTree → Prop
  | [] => True
  | t :: ts => FaithfulRef t ∧ FaithfulRefs ts

end

end Condition

section Meaning

theorem cpTypeQuals_eq_bot : ∀ t : Tree, t.WellFormed → t.mainVariant.takesQuals = false →
    t.cpTypeQuals = ⊥
  | .referenceType _, _, _ => rfl
  | .functionType _ _, _, _ => rfl
  | .methodType _ _ _ _, _, _ => rfl
  | .typedef _ (.mk type quals), ht, htakes => by
    obtain ⟨-, ht, hquals⟩ := ht
    have htype := cpTypeQuals_eq_bot type ht htakes
    rw [Tree.cpTypeQuals, CvTree.cpTypeQuals, hquals htakes, htype]
    exact bot_sup_eq _

theorem cvCpTypeQuals_eq_bot {t : CvTree} (ht : t.WellFormedPointee)
    (htakes : t.mainVariant.takesQuals = false) : t.cpTypeQuals = ⊥ := by
  obtain ⟨type, quals⟩ := t
  rw [CvTree.cpTypeQuals, ht.2 htakes, cpTypeQuals_eq_bot type ht.1 htakes]
  exact bot_sup_eq _

theorem takesQuals_of_isMethodType {t : Tree} (h : t.isMethodType = true) :
    t.takesQuals = false := by
  cases t with
  | methodType c returns arguments quals => rfl
  | _ => cases h

mutual

theorem topQuals_meaning : ∀ t : Tree, t.WellFormed → topQuals t.meaning = t.cpTypeQuals
  | .fundamentalType _, _ => rfl
  | .classType _, _ => rfl
  | .enumerationType _, _ => rfl
  | .pointerType target, ht => by
    rw [Tree.meaning]
    split
    · rename_i hmethod
      rw [topQuals_cvMeaning target ht,
        cvCpTypeQuals_eq_bot ht (takesQuals_of_isMethodType hmethod)]
      rfl
    · rfl
  | .referenceType _, _ => rfl
  | .arrayType element _, ht => by
    have h := topQuals_cvMeaning element (wellFormedPointee_of_wellFormed ht)
    rw [Tree.meaning, topQuals, elementQuals, h, Tree.cpTypeQuals]
    exact bot_sup_eq _
  | .functionType _ _, _ => rfl
  | .methodType _ _ _ _, _ => rfl
  | .offsetType _ _, _ => rfl
  | .typedef _ original, ht => topQuals_cvMeaning original (wellFormedPointee_of_wellFormed ht)

theorem topQuals_cvMeaning : ∀ t : CvTree, t.WellFormedPointee →
    topQuals t.meaning = t.cpTypeQuals
  | .mk type quals, ht => by
    rw [CvTree.meaning, topQuals_moreQualified, topQuals_meaning type ht.1, CvTree.cpTypeQuals,
      sup_comm]

end

end Meaning

section Creation

/-- The type is created, has these qualifiers, and has the shape of the meaning under this
condition. -/
def Creates (type : SourceType) (quals : Quals) (meaning : CvTerm) (condition : Prop) : Prop :=
  ∃ c, createCxxType type = some c ∧ topQuals c = quals ∧ (shape c = shape meaning ↔ condition)

theorem fundamentalTypeId_fundamentalName (id : FundamentalId) :
    fundamentalTypeId (fundamentalName id).toList = some id := by
  cases id <;> rfl

theorem readLength_eq_arrayBound_iff (length : Option Nat) :
    readLength length = arrayBound length ↔ FaithfulLength length := by
  cases length with
  | none => exact iff_of_true rfl (fun n hn => by cases hn)
  | some length =>
    refine (readLength_eq_iff length).trans ⟨fun h n hn => ?_, fun h => h length rfl⟩
    exact Option.some.inj hn ▸ h

/-- The nodes that `PointerType` does not make a pointer to. -/
def isMemberNode (t : Tree) : Bool := t.isMethodType || t.isOffsetType

theorem isMemberTarget_readType : ∀ (t : Tree) (f : Quals),
    isMemberTarget (readType t f) = isMemberNode t.mainVariant
  | .fundamentalType _, _ => rfl
  | .classType _, _ => rfl
  | .enumerationType _, _ => rfl
  | .pointerType _, _ => rfl
  | .referenceType _, _ => rfl
  | .arrayType _ _, _ => rfl
  | .functionType _ _, _ => rfl
  | .methodType _ _ _ _, _ => rfl
  | .offsetType _ _, _ => rfl
  | .typedef _ (.mk type _), f => isMemberTarget_readType type f

theorem isMemberTarget_readRef : ∀ t : CvTree,
    isMemberTarget (readRef t) = isMemberNode t.mainVariant
  | .mk type _ => isMemberTarget_readType type _

theorem carried_eq_bot : ∀ (t : Tree) (f : Quals), isMemberNode t.mainVariant = true →
    carried t f = ⊥
  | .methodType _ _ _ _, _, _ => rfl
  | .offsetType _ _, _, _ => rfl
  | .typedef _ (.mk type _), f, h => carried_eq_bot type f h

theorem createCxxType_offsetType : ∀ (t : Tree) (f : Quals) {c : CvTerm},
    t.mainVariant.isOffsetType = true → createCxxType (readType t f) = some c →
    ∃ member cls, c = .mk (.pointerToMemberType member cls) false false
  | .offsetType cls member, f, c, _, hc => by
    simp only [readType, createCxxType, Option.bind_eq_bind, Option.pure_def,
      Option.bind_eq_some_iff, Option.some.injEq] at hc
    obtain ⟨t, -, rfl⟩ := hc
    exact ⟨_, _, rfl⟩
  | .typedef _ (.mk type _), f, _, h, hc => createCxxType_offsetType type f h hc

theorem carriedRef_eq_bot : ∀ t : CvTree, isMemberNode t.mainVariant = true → carriedRef t = ⊥
  | .mk type _, h => carried_eq_bot type _ h

theorem createCxxType_readRef_offsetType : ∀ (t : CvTree) {c : CvTerm},
    t.mainVariant.isOffsetType = true → createCxxType (readRef t) = some c →
    ∃ member cls, c = .mk (.pointerToMemberType member cls) false false
  | .mk type _, _, h, hc => createCxxType_offsetType type _ h hc

theorem faithfulRef_iff (t : CvTree) :
    FaithfulRef t ↔ FaithfulShape t ∧ carriedRef t = t.cpTypeQuals := by
  cases t
  rfl

/-- The created type is the meaning exactly if the type comes through. -/
theorem canonical_eq_iff_faithfulRef {t : CvTree} (ht : t.WellFormedPointee) {c : CvTerm}
    (hquals : topQuals c = carriedRef t) (hshape : shape c = shape t.meaning ↔ FaithfulShape t) :
    canonical c = canonical t.meaning ↔ FaithfulRef t := by
  rw [canonical_eq_iff, faithfulRef_iff, hshape, hquals, topQuals_cvMeaning t ht]

/-- A pointer, given what is created for its target. -/
theorem creates_pointer {target : CvTree} (ht : target.WellFormedPointee) (f : Quals) {c : CvTerm}
    (hc : createCxxType (readRef target) = some c) (hquals : topQuals c = carriedRef target)
    (hshape : shape c = shape target.meaning ↔ FaithfulShape target) :
    Creates (readType (.pointerType target) f) (carried (.pointerType target) f)
      (Tree.pointerType target).meaning (Faithful (.pointerType target) f) := by
  have hmember := isMemberTarget_readRef target
  rcases hm : isMemberNode target.mainVariant with _ | _
  · rw [hm] at hmember
    obtain ⟨hmethod, hoffset⟩ := Bool.or_eq_false_iff.mp hm
    refine ⟨.mk (.pointerType c) f.1 f.2, ?_, sup_bot_eq f, ?_⟩
    · simp [readType, createCxxType, hc, hmember]
    · have h := canonical_eq_iff_faithfulRef ht hquals hshape
      rw [Tree.meaning, if_neg (by simp [hmethod]), shape_mk, shape_mk, Faithful, ← h]
      simp [canonicalType, erase, eraseType, canonical, hoffset]
  · rw [hm] at hmember
    have hcarried : carriedRef target = ⊥ := carriedRef_eq_bot target hm
    refine ⟨c.moreQualified f.1 f.2, ?_, ?_, ?_⟩
    · simp [readType, createCxxType, hc, hmember]
    · rw [topQuals_moreQualified, hquals, hcarried]
      exact bot_sup_eq _
    · rw [shape_moreQualified, Tree.meaning, Faithful]
      split
      · rename_i hmethod
        have hoffset : target.mainVariant.isOffsetType = false := by
          cases h : target.mainVariant <;> simp_all [Tree.isMethodType, Tree.isOffsetType]
        rw [hshape, faithfulRef_iff, hcarried,
          cvCpTypeQuals_eq_bot ht (takesQuals_of_isMethodType hmethod)]
        simp [hoffset]
      · rename_i hmethod
        have hoffset : target.mainVariant.isOffsetType = true := by
          simpa [isMemberNode, hmethod] using hm
        obtain ⟨member, cls, rfl⟩ := createCxxType_readRef_offsetType target hoffset hc
        rw [shape_mk, shape_mk]
        simp [canonicalType, erase, eraseType, hoffset]

mutual

theorem creates_node : ∀ (t : Tree) (f : Quals), t.WellFormed →
    Creates (readType t f) (carried t f) t.meaning (Faithful t f)
  | .fundamentalType id, f, _ => by
    refine ⟨.mk (.fundamentalType id) f.1 f.2, ?_, sup_bot_eq f, ?_⟩
    · rw [readType, createCxxType, fundamentalTypeId_fundamentalName]
      rfl
    · exact iff_of_true rfl trivial
  | .classType name, f, _ => ⟨_, rfl, sup_bot_eq f, iff_of_true rfl trivial⟩
  | .enumerationType name, f, _ => ⟨_, rfl, sup_bot_eq f, iff_of_true rfl trivial⟩
  | .pointerType target, f, ht => by
    obtain ⟨c, hc, hquals, hshape⟩ := creates_ref target ht
    exact creates_pointer ht f hc hquals hshape
  | .referenceType target, f, ht => by
    have ht := wellFormedPointee_of_wellFormed ht
    obtain ⟨c, hc, hquals, hshape⟩ := creates_ref target ht
    refine ⟨.mk (.referenceType c) false false, ?_, rfl, ?_⟩
    · simp [readType, createCxxType, hc]
    · have h := canonical_eq_iff_faithfulRef ht hquals hshape
      rw [Tree.meaning, shape_mk, shape_mk, Faithful, ← h]
      simp [canonicalType, erase, eraseType, canonical]
  | .arrayType element length, f, ht => by
    obtain ⟨c, hc, hquals, hshape⟩ := creates_nodeRef element (wellFormedPointee_of_wellFormed ht)
    refine ⟨.mk (.arrayType (c.moreQualified f.1 f.2) (readLength length)) false false, ?_, ?_, ?_⟩
    · simp [readType, createCxxType, hc]
    · rw [topQuals, elementQuals, topQuals_moreQualified, hquals]
      exact bot_sup_eq _
    · rw [Tree.meaning, shape_arrayType, shape_arrayType, shape_moreQualified, Faithful, ← hshape,
        ← readLength_eq_arrayBound_iff]
      simp [and_comm]
  | .functionType returns arguments, f, ht => by
    obtain ⟨r, hr, hquals, hshape⟩ := creates_ref returns (wellFormedPointee_of_wellFormed ht.1)
    obtain ⟨args, hargs, hrest⟩ := creates_refs arguments ht.2
    refine ⟨.mk (.functionType r args) false false, ?_, rfl, ?_⟩
    · simp [readType, createCxxType, hr, hargs]
    · have h := canonical_eq_iff_faithfulRef (wellFormedPointee_of_wellFormed ht.1) hquals hshape
      rw [Tree.meaning, shape_mk, shape_mk, Faithful, ← h, ← hrest]
      simp [canonicalType, erase, eraseType, canonical]
  | .methodType cls returns arguments quals, f, ht => by
    obtain ⟨r, hr, hquals, hshape⟩ := creates_ref returns (wellFormedPointee_of_wellFormed ht.1)
    obtain ⟨args, hargs, hrest⟩ := creates_refs arguments ht.2
    refine ⟨.mk (.pointerToMemberType (.mk (.functionType r args) false false) cls) false false,
      ?_, rfl, ?_⟩
    · simp [readType, createCxxType, hr, hargs]
    · have h := canonical_eq_iff_faithfulRef (wellFormedPointee_of_wellFormed ht.1) hquals hshape
      have hbot : (false = quals.1 ∧ false = quals.2) ↔ quals = ⊥ := by
        rw [Prod.ext_iff, eq_comm (a := false), eq_comm (a := false)]
        rfl
      rw [Tree.meaning, shape_mk, shape_mk, Faithful, ← h, ← hrest, ← hbot]
      simp only [canonicalType, erase, eraseType, canonical, canonicalMore, Bool.false_or]
      simp only [CvTerm.mk.injEq, TypeTerm.pointerToMemberType.injEq, TypeTerm.functionType.injEq]
      tauto
  | .offsetType cls member, f, ht => by
    have ht := wellFormedPointee_of_wellFormed ht
    obtain ⟨c, hc, hquals, hshape⟩ := creates_ref member ht
    refine ⟨.mk (.pointerToMemberType (c.moreQualified f.1 f.2) cls) false false, ?_, rfl, ?_⟩
    · simp [readType, createCxxType, hc]
    · have h : canonical (c.moreQualified f.1 f.2) = canonical member.meaning ↔
          FaithfulShape member ∧ carriedRef member ⊔ f = member.cpTypeQuals := by
        rw [canonical_eq_iff, shape_moreQualified, topQuals_moreQualified, hshape, hquals,
          topQuals_cvMeaning member ht]
      rw [Tree.meaning, shape_mk, shape_mk, Faithful, ← h]
      simp [canonicalType, erase, eraseType, canonical]
  | .typedef _ original, f, ht =>
    creates_behind original f (wellFormedPointee_of_wellFormed ht)

theorem creates_ref : ∀ t : CvTree, t.WellFormedPointee →
    Creates (readRef t) (carriedRef t) t.meaning (FaithfulShape t)
  | .mk type quals, ht => by
    obtain ⟨c, hc, hquals, hshape⟩ := creates_node type (flags (.mk type quals)) ht.1
    refine ⟨c, hc, hquals, ?_⟩
    rw [CvTree.meaning, shape_moreQualified]
    exact hshape

theorem creates_nodeRef : ∀ t : CvTree, t.WellFormedPointee →
    Creates (readNode t) (carriedNode t) t.meaning (FaithfulNode t)
  | .mk type quals, ht => by
    obtain ⟨c, hc, hquals, hshape⟩ := creates_node type (nodeFlags type) ht.1
    refine ⟨c, hc, hquals, ?_⟩
    rw [CvTree.meaning, shape_moreQualified]
    exact hshape

theorem creates_behind : ∀ (t : CvTree) (f : Quals), t.WellFormedPointee →
    Creates (readBehind t f) (carriedBehind t f) t.meaning (FaithfulBehind t f)
  | .mk type quals, f, ht => by
    obtain ⟨c, hc, hquals, hshape⟩ := creates_node type f ht.1
    refine ⟨c, hc, hquals, ?_⟩
    rw [CvTree.meaning, shape_moreQualified]
    exact hshape

theorem creates_refs : ∀ ts : List CvTree, WellFormedList ts →
    ∃ cs, createCxxTypes (readRefs ts) = some cs ∧
      (canonicalArguments cs = canonicalArguments (meanings ts) ↔ FaithfulRefs ts)
  | [], _ => ⟨[], rfl, iff_of_true rfl trivial⟩
  | t :: ts, ht => by
    have htfirst := wellFormedPointee_of_wellFormed ht.1
    obtain ⟨c, hc, hquals, hshape⟩ := creates_ref t htfirst
    obtain ⟨cs, hcs, hrest⟩ := creates_refs ts ht.2
    refine ⟨c :: cs, by simp [readRefs, createCxxTypes, hc, hcs], ?_⟩
    have hfirst := canonical_eq_iff_faithfulRef htfirst hquals hshape
    rw [canonicalArguments, meanings, canonicalArguments, List.cons.injEq, FaithfulRefs, hrest]
    exact and_congr_left fun _ => hfirst

end

end Creation

section Result

variable (doc : Document) (qualifiedName : Text → String)

/-- With these objects at hand, the reference is read as an object that stands for the type. -/
def ReadsBack (objects : Objects) (ref : Text) (t : CvTree) : Prop :=
  Enough fun fuel => ∃ type objects' c,
    getTypeFromId doc qualifiedName fuel ref objects = some (some type, objects') ∧
      createCxxType type = some c ∧ canonical c = canonical t.meaning

/-- The objects that reading these elements leaves. -/
def ReadBefore (objects : Objects) : Prop :=
  ∃ depth ids r,
    constructSourceRepresentation doc qualifiedName depth ids (fun _ => none) = some (r, objects)

variable {doc qualifiedName}

/-- Every written type is read and created, and is the same type exactly if it comes through. -/
theorem getTypeFromId_creates {t : CvTree} (ht : t.WellFormed) {ref : Text}
    (hw : WrittenRef doc qualifiedName t ref) {objects : Objects}
    (hobjects : ReadBefore doc qualifiedName objects) :
    ∃ c, createCxxType (readRef t) = some c ∧
      (canonical c = canonical t.meaning ↔ FaithfulRef t) ∧
      Enough fun fuel => ∃ objects', getTypeFromId doc qualifiedName fuel ref objects =
        some (some (readRef t), objects') := by
  have htpointee := wellFormedPointee_of_wellFormed ht
  obtain ⟨depth, ids, r, hobjects⟩ := hobjects
  obtain ⟨c, hc, hquals, hshape⟩ := creates_ref t htpointee
  exact ⟨c, hc, canonical_eq_iff_faithfulRef htpointee hquals hshape,
    getTypeFromId_written ht hw hobjects⟩

theorem readsBack_of_faithfulRef {t : CvTree} (ht : t.WellFormed) {ref : Text}
    (hw : WrittenRef doc qualifiedName t ref) {objects : Objects}
    (hobjects : ReadBefore doc qualifiedName objects) (h : FaithfulRef t) :
    ReadsBack doc qualifiedName objects ref t := by
  obtain ⟨c, hc, hiff, hread⟩ := getTypeFromId_creates ht hw hobjects
  refine hread.mono fun fuel ⟨objects', hget⟩ => ?_
  exact ⟨readRef t, objects', c, hget, hc, hiff.mpr h⟩

theorem faithfulRef_of_readsBack {t : CvTree} (ht : t.WellFormed) {ref : Text}
    (hw : WrittenRef doc qualifiedName t ref) {objects : Objects}
    (hobjects : ReadBefore doc qualifiedName objects)
    (h : ReadsBack doc qualifiedName objects ref t) : FaithfulRef t := by
  obtain ⟨c, hc, hiff, hread⟩ := getTypeFromId_creates ht hw hobjects
  obtain ⟨fuel, ⟨type, objects₁, c', hget', hc', hcanonical⟩, objects₂, hget⟩ :=
    (h.and hread).exists_fuel
  obtain ⟨rfl, -⟩ : type = readRef t ∧ objects₁ = objects₂ := by
    simpa using hget'.symm.trans hget
  obtain rfl := Option.some.inj (hc'.symm.trans hc)
  exact hiff.mp hcanonical

/-- Whatever was read before, a written type is read back exactly if it comes through. -/
theorem readsBack_iff {t : CvTree} (ht : t.WellFormed) {ref : Text}
    (hw : WrittenRef doc qualifiedName t ref) {objects : Objects}
    (hobjects : ReadBefore doc qualifiedName objects) :
    ReadsBack doc qualifiedName objects ref t ↔ FaithfulRef t :=
  ⟨faithfulRef_of_readsBack ht hw hobjects, readsBack_of_faithfulRef ht hw hobjects⟩

/-- `const int` under this name. -/
def constInt (name : String) : CvTree :=
  .mk (.typedef name (.mk (.fundamentalType .int) (true, false))) ⊥

/-- `ci *const`. -/
def constPointer : CvTree := .mk (.pointerType (constInt "ci")) (true, false)

def constPointerDocument : Document :=
  documentOf [(1, xmlOutputFundamentalType .int),
    (2, xmlOutputTypedef "ci" (idref 1 (true, false))),
    (3, xmlOutputPointerType (idref 2 ⊥))]

theorem constPointer_reads_back :
    ReadsBack constPointerDocument (fun _ => "") (fun _ => none) (idref 3 (true, false))
      constPointer := by
  have hwf : constPointer.WellFormed := ⟨rfl, ⟨⟨rfl, trivial, nofun⟩, nofun⟩, nofun⟩
  have hint : WrittenRef constPointerDocument (fun _ => "") (constInt "ci") (idref 2 ⊥) :=
    ⟨2, ⟨idref 1 (true, false), ⟨1, rfl, rfl⟩, rfl⟩, rfl⟩
  have hw : WrittenRef constPointerDocument (fun _ => "") constPointer (idref 3 (true, false)) :=
    ⟨3, ⟨idref 2 ⊥, hint, rfl⟩, rfl⟩
  refine (readsBack_iff hwf hw ⟨0, [], some (), rfl⟩).mpr ?_
  exact ⟨⟨rfl, trivial, rfl⟩, rfl⟩

/-- `void (A::*)() const`. -/
def constMethodPointer : CvTree :=
  .mk (.pointerType (.mk (.methodType "A" (.mk (.fundamentalType .void) ⊥) [] (true, false)) ⊥)) ⊥

def constMethodPointerDocument : Document :=
  documentOf [(1, xmlOutputFundamentalType .void), (2, ⟨"Class", [], []⟩),
    (3, xmlOutputMethodType (nodeId 2) (idref 1 ⊥) (true, false) []),
    (4, xmlOutputPointerType (idref 3 ⊥))]

/-- The element of the method type has the qualifier, but it is not read. -/
theorem constMethodPointer_not_readsBack :
    constMethodPointer.WellFormed ∧
      WrittenRef constMethodPointerDocument (fun _ => "A") constMethodPointer (idref 4 ⊥) ∧
      ReadBefore constMethodPointerDocument (fun _ => "A") (fun _ => none) ∧
      ¬ ReadsBack constMethodPointerDocument (fun _ => "A") (fun _ => none) (idref 4 ⊥)
        constMethodPointer := by
  have hwf : constMethodPointer.WellFormed :=
    ⟨rfl, ⟨⟨⟨rfl, trivial, nofun⟩, trivial⟩, fun _ => rfl⟩, nofun⟩
  have hclass : WrittenClass constMethodPointerDocument (fun _ => "A") "A" 2 :=
    ⟨⟨_, rfl, List.mem_cons_self⟩, rfl⟩
  have hmethod : Written constMethodPointerDocument (fun _ => "A")
      (.methodType "A" (.mk (.fundamentalType .void) ⊥) [] (true, false)) 3 :=
    ⟨2, idref 1 ⊥, [], hclass, ⟨1, rfl, rfl⟩, rfl, rfl⟩
  have hw : WrittenRef constMethodPointerDocument (fun _ => "A") constMethodPointer (idref 4 ⊥) :=
    ⟨4, ⟨idref 3 ⊥, ⟨3, hmethod, rfl⟩, rfl⟩, rfl⟩
  have hbefore : ReadBefore constMethodPointerDocument (fun _ => "A") (fun _ => none) :=
    ⟨0, [], some (), rfl⟩
  refine ⟨hwf, hw, hbefore, fun h => ?_⟩
  obtain ⟨⟨-, ⟨hquals, -⟩, -⟩, -⟩ := faithfulRef_of_readsBack hwf hw hbefore h
  cases hquals

end Result

end CableSwig.Parsers.TypeRoundTrip
