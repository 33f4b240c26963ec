import CableSwig.Parsers.TypeReader
import CableSwig.Lib.Fuel

/-!
# What is read for a written type

Whatever has been read before, `GetTypeFromId` finds for the reference to a written type one
object, which is made of the tree with the qualifiers of its references.
-/
namespace CableSwig.Parsers.TypeReading

open CableSwig.CxxTypes
open CableSwig.GccXml.TypeDump
open CableSwig.Lib.StdString
open CableSwig.Lib.FallibleState
open CableSwig.Lib.FallibleState.Action
open CableSwig.Lib.Fuel
open CableSwig.Parsers.CarriedNumbers (readLength setLength setLength_arrayMax)
open CableSwig.Parsers.TypeReader

section Specification

mutual

/-- The flags of the type that is found under the id of a node. -/
def nodeFlags : Tree → Quals
  | .typedef _ original => flags original
  | _ => ⊥

/-- The flags of the type that a reference is read as: the qualifiers on the reference, where
there are any. -/
def flags : CvTree → Quals
  | .mk type quals =>
    if xmlGetIdref (.mk type quals) = ⊥ then nodeFlags type else xmlGetIdref (.mk type quals)

end

mutual

/-- The type that is read for a node, with these flags. -/
def readType : Tree → Quals → SourceType
  | .fundamentalType id, f => .fundamentalType (fundamentalName id).toList f
  | .classType name, f => .classType name f
  | .enumerationType name, f => .enumerationType name f
  | .pointerType target, f => .pointerType (readRef target) f
  | .referenceType target, _ => .referenceType (readRef target)
  | .arrayType element length, f => .arrayType (readNode element) (readLength length) f
  | .functionType returns arguments, _ => .functionType (readRef returns) (readRefs arguments)
  | .methodType c returns arguments _, _ =>
    .methodType c (readRef returns) (readRefs arguments) ⊥
  | .offsetType c member, f => .offsetType c (readRef member) f
  | .typedef _ original, f => readBehind original f

/-- The type that is read for a reference. -/
def readRef : CvTree → SourceType
  | .mk type quals => readType type (flags (.mk type quals))

/-- The type that is read for a reference without qualifiers. -/
def readNode : CvTree → SourceType
  | .mk type _ => readType type (nodeFlags type)

def readBehind : CvTree → Quals → SourceType
  | .mk type _, f => readType type f

def readRefs : List CvTree → List SourceType
  | [] => []
  | t :: ts => readRef t :: readRefs ts

end

/-- The object of a node. -/
def objectOf : Tree → SourceObject
  | .classType name => .cls name
  | .enumerationType name => .enumeration name
  | .typedef _ original => .typedef (readRef original)
  | t => .type (readType t ⊥)

theorem typeOf_objectOf (t : Tree) : typeOf (objectOf t) = readType t (nodeFlags t) := by
  cases t with
  | typedef name original => cases original; rfl
  | _ => rfl

theorem withQualifiers_eq : ∀ (t : Tree) (f g : Quals), t.mainVariant.takesQuals = true →
    withQualifiers (readType t f) g = some (readType t g)
  | .fundamentalType _, _, _, _ => rfl
  | .classType _, _, _, _ => rfl
  | .enumerationType _, _, _, _ => rfl
  | .pointerType _, _, _, _ => rfl
  | .referenceType _, _, _, h => by cases h
  | .arrayType _ _, _, _, _ => rfl
  | .functionType _ _, _, _, h => by cases h
  | .methodType _ _ _ _, _, _, h => by cases h
  | .offsetType _ _, _, _, _ => rfl
  | .typedef _ (.mk type _), f, g, h => withQualifiers_eq type f g h

theorem takesQuals_of_withQualifiers : ∀ (t : Tree) (f g : Quals) (type : SourceType),
    withQualifiers (readType t f) g = some type → t.mainVariant.takesQuals = true
  | .fundamentalType _, _, _, _, _ => rfl
  | .classType _, _, _, _, _ => rfl
  | .enumerationType _, _, _, _, _ => rfl
  | .pointerType _, _, _, _, _ => rfl
  | .referenceType _, _, _, _, h => by cases h
  | .arrayType _ _, _, _, _, _ => rfl
  | .functionType _ _, _, _, _, h => by cases h
  | .methodType _ _ _ _, _, _, _, h => by cases h
  | .offsetType _ _, _, _, _, _ => rfl
  | .typedef _ (.mk t _), f, g, type, h => takesQuals_of_withQualifiers t f g type h

/-- Nothing is left to the reference where nothing can take it. -/
theorem xmlGetIdref_eq_bot {type : Tree} {quals : Quals}
    (htakes : type.mainVariant.takesQuals = false) (hquals : quals = ⊥) :
    xmlGetIdref (.mk type quals) = ⊥ := by
  subst hquals
  cases type with
  | typedef name original => simp [xmlGetIdref, CvTree.cpTypeQuals, Tree.cpTypeQuals]
  | referenceType target => simp [xmlGetIdref, CvTree.cpTypeQuals, Tree.cpTypeQuals]
  | functionType returns arguments => simp [xmlGetIdref, CvTree.cpTypeQuals, Tree.cpTypeQuals]
  | methodType c returns arguments quals =>
    simp [xmlGetIdref, CvTree.cpTypeQuals, Tree.cpTypeQuals]
  | _ => cases htakes

end Specification

section References

theorem not_isQualifier_nodeId (index : Nat) : ∀ c ∈ nodeId index, isQualifier c = false := by
  intro c hc
  obtain rfl | hc := List.mem_cons.mp hc
  · rfl
  · have hdigit := Nat.isDigit_of_mem_toDigits (by decide) (by decide) hc
    simp only [isQualifier, decide_eq_false_iff_not]
    intro h
    simp only [List.mem_cons, List.not_mem_nil, or_false] at h
    obtain rfl | rfl | rfl := h <;> simp [Char.isDigit] at hdigit

def qualifierText (quals : Quals) : Text :=
  (if quals.1 then ['c'] else []) ++ (if quals.2 then ['v'] else [])

theorem idref_eq (index : Nat) (quals : Quals) :
    idref index quals = nodeId index ++ qualifierText quals := rfl

theorem idref_bot (index : Nat) : idref index ⊥ = nodeId index := List.append_nil _

theorem takeWhile_idref (index : Nat) (quals : Quals) :
    (idref index quals).takeWhile (!isQualifier ·) = nodeId index := by
  have hall : ∀ c ∈ nodeId index, (!isQualifier c) = true := by
    intro c hc
    simp [not_isQualifier_nodeId index c hc]
  rw [idref_eq, List.takeWhile_append_of_pos hall]
  obtain ⟨c, v⟩ := quals
  cases c <;> cases v <;> exact List.append_nil _

theorem dropWhile_idref (index : Nat) (quals : Quals) :
    (idref index quals).dropWhile (!isQualifier ·) = qualifierText quals := by
  have hall : ∀ c ∈ nodeId index, (!isQualifier c) = true := by
    intro c hc
    simp [not_isQualifier_nodeId index c hc]
  rw [idref_eq, List.dropWhile_append_of_pos hall]
  obtain ⟨c, v⟩ := quals
  cases c <;> cases v <;> rfl

theorem mem_qualifierText (quals : Quals) :
    (decide ('c' ∈ qualifierText quals), decide ('v' ∈ qualifierText quals)) = quals := by
  obtain ⟨c, v⟩ := quals
  cases c <;> cases v <;> rfl

theorem nodeId_injective {m n : Nat} (h : nodeId m = nodeId n) : m = n := by
  have hdigits := congrArg (fun ds => Nat.ofDigitChars 10 ds 0) (List.cons.inj h).2
  simpa [Nat.ofDigitChars_ten_toDigits] using hdigits

theorem idref_injective {m n : Nat} {q r : Quals} (h : idref m q = idref n r) :
    m = n ∧ q = r := by
  have hid := takeWhile_idref m q
  rw [h, takeWhile_idref] at hid
  have hquals := dropWhile_idref m q
  rw [h, dropWhile_idref] at hquals
  have hq := mem_qualifierText q
  rw [← hquals, mem_qualifierText] at hq
  exact ⟨(nodeId_injective hid).symm, hq.symm⟩

end References

section Outcomes

variable (doc : Document) (qualifiedName : Text → String)

/-- Every object is the one that its key was written for. -/
structure Consistent (objects : Objects) : Prop where
  node : ∀ (t : Tree) index, t.WellFormed → Written doc qualifiedName t index →
    ∀ object, objects (nodeId index) = some object → object = objectOf t
  reference : ∀ (t : Tree) index quals, t.WellFormed → Written doc qualifiedName t index →
    quals ≠ ⊥ → ∀ object, objects (idref index quals) = some object →
      object = .type (readType t quals)

theorem consistent_empty : Consistent doc qualifiedName fun _ => none :=
  ⟨(fun _ _ _ _ _ h => by cases h), (fun _ _ _ _ _ _ _ h => by cases h)⟩

/-- The outcome of `AddElementRepresentation`. -/
def ReadsNode (id : Text) (r : Option SourceObject) : Prop :=
  ∀ (t : Tree) index, t.WellFormed → Written doc qualifiedName t index → id = nodeId index →
    r = some (objectOf t)

/-- The outcome of `GetTypeFromId`. -/
def ReadsRef (tid : Text) (r : Option SourceType) : Prop :=
  ∀ (t : Tree) index quals, t.WellFormed → Written doc qualifiedName t index →
    (t.mainVariant.takesQuals = false → quals = ⊥) → tid = idref index quals →
    r = some (readType t (if quals = ⊥ then nodeFlags t else quals))

variable {doc qualifiedName}

theorem readRef_of_reads {tid : Text} {r : Option SourceType}
    (h : ReadsRef doc qualifiedName tid r) {t : CvTree} (ht : t.WellFormedPointee)
    (hw : WrittenRef doc qualifiedName t tid) : r = some (readRef t) := by
  obtain ⟨type, quals⟩ := t
  obtain ⟨index, hw, rfl⟩ := hw
  exact h type index _ ht.1 hw (fun htakes => xmlGetIdref_eq_bot htakes (ht.2 htakes)) rfl

theorem readNode_of_reads {index : Nat} {r : Option SourceType}
    (h : ReadsRef doc qualifiedName (idref index ⊥) r) {t : CvTree} (ht : t.WellFormedPointee)
    (hw : WrittenNode doc qualifiedName t index) : r = some (readNode t) := by
  obtain ⟨type, quals⟩ := t
  have hr := h type index ⊥ ht.1 hw (fun _ => rfl) rfl
  rwa [if_pos rfl] at hr

theorem wellFormedPointee_of_wellFormed {t : CvTree} (ht : t.WellFormed) :
    t.WellFormedPointee := by
  obtain ⟨type, quals⟩ := t
  exact ht.2

/-- The names of the element of a node. -/
def elementNames : Tree → List String
  | .fundamentalType _ => ["FundamentalType"]
  | .classType _ => recordNames
  | .enumerationType _ => ["Enumeration"]
  | .pointerType _ => ["PointerType"]
  | .referenceType _ => ["ReferenceType"]
  | .arrayType _ _ => ["ArrayType"]
  | .functionType _ _ => ["FunctionType"]
  | .methodType _ _ _ _ => ["MethodType"]
  | .offsetType _ _ => ["OffsetType"]
  | .typedef _ _ => ["Typedef"]

theorem element_of_written {t : Tree} {index : Nat} (hw : Written doc qualifiedName t index) :
    ∃ e, doc.element (nodeId index) = some e ∧ e.name ∈ elementNames t := by
  cases t with
  | fundamentalType id => exact ⟨_, hw, List.mem_singleton.mpr rfl⟩
  | classType name => exact hw.1
  | enumerationType name =>
    obtain ⟨⟨e, he, hname⟩, -⟩ := hw
    exact ⟨e, he, List.mem_singleton.mpr hname⟩
  | pointerType target =>
    obtain ⟨type, -, he⟩ := hw
    exact ⟨_, he, List.mem_singleton.mpr rfl⟩
  | referenceType target =>
    obtain ⟨type, -, he⟩ := hw
    exact ⟨_, he, List.mem_singleton.mpr rfl⟩
  | arrayType element length =>
    obtain ⟨e, -, he⟩ := hw
    exact ⟨_, he, List.mem_singleton.mpr rfl⟩
  | functionType returns arguments =>
    obtain ⟨type, types, -, -, he⟩ := hw
    exact ⟨_, he, List.mem_singleton.mpr rfl⟩
  | methodType c returns arguments quals =>
    obtain ⟨_, type, types, -, -, -, he⟩ := hw
    exact ⟨_, he, List.mem_singleton.mpr rfl⟩
  | offsetType c member =>
    obtain ⟨_, type, -, -, he⟩ := hw
    exact ⟨_, he, List.mem_singleton.mpr rfl⟩
  | typedef name original =>
    obtain ⟨type, -, he⟩ := hw
    exact ⟨_, he, List.mem_singleton.mpr rfl⟩

/-- The element under an id tells which nodes can be written there. -/
theorem name_mem {t : Tree} {index : Nat} (hw : Written doc qualifiedName t index) {e : Element}
    (he : doc.element (nodeId index) = some e) {name : String} (hname : e.name = name) :
    name ∈ elementNames t := by
  obtain ⟨e', he', hmem⟩ := element_of_written hw
  obtain rfl := Option.some.inj (he.symm.trans he')
  exact hname ▸ hmem

theorem register_keeps {index : Nat} {object : SourceObject}
    (h : ReadsNode doc qualifiedName (nodeId index) (some object)) :
    Keeps (Consistent doc qualifiedName) (register (nodeId index) object)
      (ReadsNode doc qualifiedName (nodeId index)) := by
  refine (Keeps.update ?_).bind (fun _ _ => Keeps.pure h) fun h => by cases h
  intro objects hobjects
  refine ⟨fun t m ht hw object' hlookup => ?_, fun t m quals ht hw hquals object' hlookup => ?_⟩
  · by_cases hid : nodeId m = nodeId index
    · rw [hid, Function.update_self] at hlookup
      exact (Option.some.inj hlookup).symm.trans (Option.some.inj (h t m ht hw hid.symm))
    · rw [Function.update_of_ne hid] at hlookup
      exact hobjects.node t m ht hw object' hlookup
  · have hid : idref m quals ≠ nodeId index := by
      intro heq
      rw [← idref_bot] at heq
      exact hquals (idref_injective heq).2
    rw [Function.update_of_ne hid] at hlookup
    exact hobjects.reference t m quals ht hw hquals object' hlookup

variable {getTypeFromId : Text → Reading SourceType}
  {addElementRepresentation : Text → Element → Reading SourceObject}

/-- What is assumed of `GetTypeFromId` below. -/
def GetsTypes (doc : Document) (qualifiedName : Text → String)
    (getTypeFromId : Text → Reading SourceType) : Prop :=
  ∀ tid, Keeps (Consistent doc qualifiedName) (getTypeFromId tid) (ReadsRef doc qualifiedName tid)

/-- What is assumed of `AddElementRepresentation` below. -/
def AddsElements (doc : Document) (qualifiedName : Text → String)
    (addElementRepresentation : Text → Element → Reading SourceObject) : Prop :=
  ∀ id e, doc.element id = some e →
    Keeps (Consistent doc qualifiedName) (addElementRepresentation id e)
      (ReadsNode doc qualifiedName id)

/-- The outcome for a `type` attribute. -/
def ReadsAttribute (doc : Document) (qualifiedName : Text → String) (value : Option Text)
    (r : Option SourceType) : Prop :=
  ∀ (t : CvTree) ref, value = some ref → t.WellFormedPointee →
    WrittenRef doc qualifiedName t ref → r = some (readRef t)

theorem getTarget_keeps (hget : GetsTypes doc qualifiedName getTypeFromId)
    (attributes : List (String × Text)) :
    Keeps (Consistent doc qualifiedName) (getTarget getTypeFromId attributes)
      (ReadsAttribute doc qualifiedName (getAttribute attributes "type")) := by
  refine (Keeps.ofOption (Q := fun r => r = getAttribute attributes "type") rfl).bind
    (fun targetId htarget => ?_) fun hnone t ref href => ?_
  · refine (hget targetId).mono fun r hr t ref href ht hw => ?_
    obtain rfl := Option.some.inj (htarget.trans href)
    exact readRef_of_reads hr ht hw
  · cases hnone.trans href

theorem addFundamentalType_keeps {index : Nat} {e : Element}
    (he : doc.element (nodeId index) = some e) (hname : e.name = "FundamentalType") :
    Keeps (Consistent doc qualifiedName) (addFundamentalType (nodeId index) e)
      (ReadsNode doc qualifiedName (nodeId index)) := by
  have hinv : ∀ (t : Tree) m, Written doc qualifiedName t m → nodeId index = nodeId m →
      ∃ id, t = .fundamentalType id ∧
        getAttribute e.attributes "name" = some (fundamentalName id).toList := by
    intro t m hw hid
    rw [hid] at he
    have hmem := name_mem hw he hname
    cases t with
    | fundamentalType id =>
      obtain rfl := Option.some.inj (he.symm.trans hw)
      exact ⟨id, rfl, rfl⟩
    | _ => simp [elementNames, recordNames] at hmem
  refine (Keeps.ofOption (Q := fun r => r = getAttribute e.attributes "name") rfl).bind
    (fun name hattr => register_keeps fun t m _ hw hid => ?_) fun hnone t m _ hw hid => ?_
  · obtain ⟨id, rfl, hattr'⟩ := hinv t m hw hid
    obtain rfl := Option.some.inj (hattr.trans hattr')
    rfl
  · obtain ⟨id, rfl, hattr'⟩ := hinv t m hw hid
    cases hnone.trans hattr'

/-- An element with one `type` attribute, which is read for the node that it was written for. -/
theorem register_target_keeps (hget : GetsTypes doc qualifiedName getTypeFromId) {index : Nat}
    {e : Element} {make : SourceType → SourceObject}
    (hinv : ∀ (t : Tree) m, Written doc qualifiedName t m → nodeId index = nodeId m →
      ∃ target ref, (t.WellFormed → target.WellFormedPointee) ∧
        objectOf t = make (readRef target) ∧ WrittenRef doc qualifiedName target ref ∧
        getAttribute e.attributes "type" = some ref) :
    Keeps (Consistent doc qualifiedName)
      (getTarget getTypeFromId e.attributes >>= fun target =>
        register (nodeId index) (make target))
      (ReadsNode doc qualifiedName (nodeId index)) := by
  refine (getTarget_keeps hget e.attributes).bind
    (fun target htarget => register_keeps fun t m ht hw hid => ?_) fun hnone t m ht hw hid => ?_
  · obtain ⟨target', ref, hwf, hobject, href, hattr⟩ := hinv t m hw hid
    obtain rfl := Option.some.inj (htarget target' ref hattr (hwf ht) href)
    rw [hobject]
  · obtain ⟨target', ref, hwf, -, href, hattr⟩ := hinv t m hw hid
    cases hnone target' ref hattr (hwf ht) href

theorem addPointerType_keeps (hget : GetsTypes doc qualifiedName getTypeFromId) {index : Nat}
    {e : Element} (he : doc.element (nodeId index) = some e) (hname : e.name = "PointerType") :
    Keeps (Consistent doc qualifiedName) (addPointerType getTypeFromId (nodeId index) e)
      (ReadsNode doc qualifiedName (nodeId index)) := by
  refine register_target_keeps hget fun t m hw hid => ?_
  rw [hid] at he
  have hmem := name_mem hw he hname
  cases t with
  | pointerType target =>
    obtain ⟨ref, href, hw⟩ := hw
    obtain rfl := Option.some.inj (he.symm.trans hw)
    exact ⟨target, ref, id, rfl, href, rfl⟩
  | _ => simp [elementNames, recordNames] at hmem

theorem addReferenceType_keeps (hget : GetsTypes doc qualifiedName getTypeFromId) {index : Nat}
    {e : Element} (he : doc.element (nodeId index) = some e) (hname : e.name = "ReferenceType") :
    Keeps (Consistent doc qualifiedName) (addReferenceType getTypeFromId (nodeId index) e)
      (ReadsNode doc qualifiedName (nodeId index)) := by
  refine register_target_keeps hget fun t m hw hid => ?_
  rw [hid] at he
  have hmem := name_mem hw he hname
  cases t with
  | referenceType target =>
    obtain ⟨ref, href, hw⟩ := hw
    obtain rfl := Option.some.inj (he.symm.trans hw)
    exact ⟨target, ref, wellFormedPointee_of_wellFormed, rfl, href, rfl⟩
  | _ => simp [elementNames, recordNames] at hmem

theorem addTypedef_keeps (hget : GetsTypes doc qualifiedName getTypeFromId) {index : Nat}
    {e : Element} (he : doc.element (nodeId index) = some e) (hname : e.name = "Typedef") :
    Keeps (Consistent doc qualifiedName) (addTypedef getTypeFromId (nodeId index) e)
      (ReadsNode doc qualifiedName (nodeId index)) := by
  refine register_target_keeps hget fun t m hw hid => ?_
  rw [hid] at he
  have hmem := name_mem hw he hname
  cases t with
  | typedef name original =>
    obtain ⟨ref, href, hw⟩ := hw
    obtain rfl := Option.some.inj (he.symm.trans hw)
    exact ⟨original, ref, wellFormedPointee_of_wellFormed, rfl, href, rfl⟩
  | _ => simp [elementNames, recordNames] at hmem

theorem addArrayType_keeps (hget : GetsTypes doc qualifiedName getTypeFromId) {index : Nat}
    {e : Element} (he : doc.element (nodeId index) = some e) (hname : e.name = "ArrayType") :
    Keeps (Consistent doc qualifiedName) (addArrayType getTypeFromId (nodeId index) e)
      (ReadsNode doc qualifiedName (nodeId index)) := by
  have hinv : ∀ (t : Tree) m, Written doc qualifiedName t m → nodeId index = nodeId m →
      ∃ element length n, t = .arrayType element length ∧
        WrittenNode doc qualifiedName element n ∧ e = xmlOutputArrayType length (idref n ⊥) := by
    intro t m hw hid
    rw [hid] at he
    have hmem := name_mem hw he hname
    cases t with
    | arrayType element length =>
      obtain ⟨n, helement, hw⟩ := hw
      exact ⟨element, length, n, rfl, helement, Option.some.inj (he.symm.trans hw)⟩
    | _ => simp [elementNames, recordNames] at hmem
  refine (Keeps.ofOption (Q := fun r => r = getAttribute e.attributes "type") rfl).bind
    (fun targetId hattr => ?_) fun hnone t m ht hw hid => ?_
  · refine ((hget targetId).getD (a := .null) (Q := fun r => ∃ r',
      ReadsRef doc qualifiedName targetId r' ∧ r = some (r'.getD .null))
      (fun b hb => ⟨some b, hb, rfl⟩) fun hnone => ⟨none, hnone, rfl⟩).bind
      (fun target htarget => ?_) fun h => by obtain ⟨_, -, h⟩ := h; cases h
    refine (Keeps.ofOption (Q := fun r => r = getAttribute e.attributes "max") rfl).bind
      (fun maxStr hmaxStr => ?_) fun hnone t m ht hw hid => ?_
    · refine (Keeps.ofOption (Q := fun r => r = setLength maxStr) rfl).bind
        (fun len hlength => register_keeps fun t m ht hw hid => ?_) fun hnone t m ht hw hid => ?_
      · obtain ⟨element, length, n, rfl, helement, rfl⟩ := hinv t m hw hid
        obtain rfl := Option.some.inj hattr
        obtain rfl := Option.some.inj hmaxStr
        rw [setLength_arrayMax] at hlength
        obtain rfl := Option.some.inj hlength
        obtain ⟨r', hr', hdefault⟩ := htarget
        obtain rfl := readNode_of_reads hr' (wellFormedPointee_of_wellFormed ht) helement
        obtain rfl := Option.some.inj hdefault
        rfl
      · obtain ⟨element, length, n, rfl, helement, rfl⟩ := hinv t m hw hid
        obtain rfl := Option.some.inj hmaxStr
        rw [setLength_arrayMax] at hnone
        cases hnone
    · obtain ⟨element, length, n, rfl, helement, rfl⟩ := hinv t m hw hid
      cases hnone
  · obtain ⟨element, length, n, rfl, helement, rfl⟩ := hinv t m hw hid
    cases hnone

/-- The outcome for the nested elements of a function type. -/
def ReadsArguments (doc : Document) (qualifiedName : Text → String)
    (nested : List (String × List (String × Text))) (r : Option (List SourceType)) : Prop :=
  ∀ (ts : List CvTree) refs, nested = refs.map xmlOutputArgument → WellFormedList ts →
    WrittenRefs doc qualifiedName ts refs → r = some (readRefs ts)

theorem setupArguments_keeps (hget : GetsTypes doc qualifiedName getTypeFromId)
    (nested : List (String × List (String × Text))) :
    Keeps (Consistent doc qualifiedName) (setupArguments getTypeFromId nested)
      (ReadsArguments doc qualifiedName nested) := by
  induction nested with
  | nil =>
    refine Keeps.pure fun ts refs hrefs _ hw => ?_
    obtain rfl := List.map_eq_nil_iff.mp hrefs.symm
    cases ts with
    | nil => rfl
    | cons t ts =>
      obtain ⟨_, _, h, -⟩ := hw
      cases h
  | cons argument nested ih =>
    obtain ⟨name, attributes⟩ := argument
    have hinv : ∀ (ts : List CvTree) refs,
        (name, attributes) :: nested = refs.map xmlOutputArgument →
        WrittenRefs doc qualifiedName ts refs → ∃ t rest ref refs', ts = t :: rest ∧
          name = "Argument" ∧ getAttribute attributes "type" = some ref ∧
          nested = refs'.map xmlOutputArgument ∧ WrittenRef doc qualifiedName t ref ∧
          WrittenRefs doc qualifiedName rest refs' := by
      intro ts refs hrefs hw
      cases refs with
      | nil => cases hrefs
      | cons ref refs =>
        obtain ⟨hargument, hnested⟩ := List.cons.inj hrefs
        cases hargument
        cases ts with
        | nil => cases hw
        | cons t ts =>
          obtain ⟨_, _, heq, href, hw⟩ := hw
          obtain ⟨rfl, rfl⟩ := List.cons.inj heq
          exact ⟨t, ts, ref, refs, rfl, rfl, rfl, hnested, href, hw⟩
    rw [setupArguments]
    by_cases hname : name = "Argument"
    · rw [if_pos hname]
      refine (getTarget_keeps hget attributes).bind (fun first hfirst => ?_)
        fun hnone ts refs hrefs ht hw => ?_
      · refine ih.bind (fun arguments harguments => Keeps.pure fun ts refs hrefs ht hw => ?_)
          fun hnone ts refs hrefs ht hw => ?_
        · obtain ⟨t, rest, ref, refs', rfl, -, hattr, hnested, href, hw⟩ := hinv ts refs hrefs hw
          have hread := hfirst t ref hattr (wellFormedPointee_of_wellFormed ht.1) href
          obtain rfl := Option.some.inj hread
          obtain rfl := Option.some.inj (harguments rest refs' hnested ht.2 hw)
          rfl
        · obtain ⟨t, rest, ref, refs', rfl, -, -, hnested, -, hw⟩ := hinv ts refs hrefs hw
          cases hnone rest refs' hnested ht.2 hw
      · obtain ⟨t, rest, ref, refs', rfl, -, hattr, -, href, -⟩ := hinv ts refs hrefs hw
        cases hnone t ref hattr (wellFormedPointee_of_wellFormed ht.1) href
    · have hvacuous : ∀ r, ReadsArguments doc qualifiedName ((name, attributes) :: nested) r := by
        intro r ts refs hrefs _ hw
        obtain ⟨-, -, -, -, -, hargument, -⟩ := hinv ts refs hrefs hw
        exact absurd hargument hname
      rw [if_neg hname]
      split
      · exact ih.mono fun r _ => hvacuous r
      · exact Keeps.fail (hvacuous none)

/-- The outcome of `SetupFunctionType`. -/
def ReadsFunction (doc : Document) (qualifiedName : Text → String) (e : Element)
    (r : Option (SourceType × List SourceType)) : Prop :=
  ∀ (t : CvTree) (ts : List CvTree) ref refs, getAttribute e.attributes "returns" = some ref →
    e.nested = refs.map xmlOutputArgument → t.WellFormed → WellFormedList ts →
    WrittenRef doc qualifiedName t ref → WrittenRefs doc qualifiedName ts refs →
    r = some (readRef t, readRefs ts)

theorem getReturns_keeps (hget : GetsTypes doc qualifiedName getTypeFromId)
    (attributes : List (String × Text)) :
    Keeps (Consistent doc qualifiedName) (getReturns getTypeFromId attributes)
      (ReadsAttribute doc qualifiedName (getAttribute attributes "returns")) := by
  unfold getReturns
  split
  · rename_i returnsId hattr
    rw [hattr]
    refine (hget returnsId).mono fun r hr t ref href ht hw => ?_
    obtain rfl := Option.some.inj href
    exact readRef_of_reads hr ht hw
  · rename_i hattr
    rw [hattr]
    exact Keeps.pure fun t ref href => by cases href

theorem setupFunctionType_keeps (hget : GetsTypes doc qualifiedName getTypeFromId)
    (e : Element) :
    Keeps (Consistent doc qualifiedName) (setupFunctionType getTypeFromId e)
      (ReadsFunction doc qualifiedName e) := by
  refine (getReturns_keeps hget e.attributes).bind (fun returns hr => ?_)
    fun hnone t ts ref refs hattr _ ht _ hw _ => ?_
  · refine (setupArguments_keeps hget e.nested).bind (fun arguments harguments =>
      Keeps.pure fun t ts ref refs hattr hnested ht hts hw hws => ?_)
      fun hnone t ts ref refs _ hnested _ hts _ hws => ?_
    · obtain rfl := Option.some.inj (hr t ref hattr (wellFormedPointee_of_wellFormed ht) hw)
      obtain rfl := Option.some.inj (harguments ts refs hnested hts hws)
      rfl
    · cases hnone ts refs hnested hts hws
  · cases hnone t ref hattr (wellFormedPointee_of_wellFormed ht) hw

theorem addFunctionType_keeps (hget : GetsTypes doc qualifiedName getTypeFromId) {index : Nat}
    {e : Element} (he : doc.element (nodeId index) = some e) (hname : e.name = "FunctionType") :
    Keeps (Consistent doc qualifiedName) (addFunctionType getTypeFromId (nodeId index) e)
      (ReadsNode doc qualifiedName (nodeId index)) := by
  have hinv : ∀ (t : Tree) m, Written doc qualifiedName t m → nodeId index = nodeId m →
      ∃ returns arguments ref refs, t = .functionType returns arguments ∧
        WrittenRef doc qualifiedName returns ref ∧ WrittenRefs doc qualifiedName arguments refs ∧
        e = xmlOutputFunctionType ref refs := by
    intro t m hw hid
    rw [hid] at he
    have hmem := name_mem hw he hname
    cases t with
    | functionType returns arguments =>
      obtain ⟨ref, refs, href, hrefs, hw⟩ := hw
      exact ⟨_, _, ref, refs, rfl, href, hrefs, Option.some.inj (he.symm.trans hw)⟩
    | _ => simp [elementNames, recordNames] at hmem
  refine (setupFunctionType_keeps hget e).bind
    (fun function hfunction => register_keeps fun t m ht hw hid => ?_)
    fun hnone t m ht hw hid => ?_
  · obtain ⟨returns, arguments, ref, refs, rfl, href, hrefs, rfl⟩ := hinv t m hw hid
    have hread := hfunction returns arguments ref refs rfl rfl ht.1 ht.2 href hrefs
    obtain rfl := Option.some.inj hread
    rfl
  · obtain ⟨returns, arguments, ref, refs, rfl, href, hrefs, rfl⟩ := hinv t m hw hid
    cases hnone returns arguments ref refs rfl rfl ht.1 ht.2 href hrefs

/-- The outcome for a `basetype` attribute. -/
def ReadsBasetype (doc : Document) (qualifiedName : Text → String) (value : Option Text)
    (r : Option String) : Prop :=
  ∀ name index, value = some (nodeId index) → WrittenClass doc qualifiedName name index →
    r = some name

theorem getBasetype_keeps (hadd : AddsElements doc qualifiedName addElementRepresentation)
    (e : Element) :
    Keeps (Consistent doc qualifiedName) (getBasetype doc addElementRepresentation e)
      (ReadsBasetype doc qualifiedName (getAttribute e.attributes "basetype")) := by
  refine (Keeps.ofOption (Q := fun r => r = getAttribute e.attributes "basetype") rfl).bind
    (fun basetype hbasetype => ?_) fun hnone name index hattr _ => ?_
  · rw [← hbasetype]
    refine (Keeps.ofOption (Q := fun r => r = doc.element basetype) rfl).bind
      (fun bte hbte => ?_) fun hnone name index hattr hw => ?_
    · refine (hadd basetype bte hbte.symm).bind (fun object hobject => ?_)
        fun hnone name index hattr hw => ?_
      · have hclass : ∀ name index, some basetype = some (nodeId index) →
            WrittenClass doc qualifiedName name index → object = .cls name := by
          intro name index hattr hw
          exact Option.some.inj (hobject (.classType name) index trivial hw (Option.some.inj hattr))
        split
        · refine Keeps.pure fun name index hattr hw => ?_
          cases hclass name index hattr hw
          rfl
        · rename_i hno
          refine Keeps.fail fun name index hattr hw => ?_
          exact absurd (hclass name index hattr hw) (hno name)
      · cases hnone (.classType name) index trivial hw (Option.some.inj hattr)
    · obtain ⟨⟨bte, hbte, -⟩, -⟩ := hw
      rw [Option.some.inj hattr, hbte] at hnone
      cases hnone
  · cases hnone.trans hattr

theorem getAttribute_methodType (basetype returns : Text) (quals : Quals)
    (arguments : List Text) :
    getAttribute (xmlOutputMethodType basetype returns quals arguments).attributes "basetype" =
        some basetype ∧
      getAttribute (xmlOutputMethodType basetype returns quals arguments).attributes "returns" =
        some returns := by
  obtain ⟨c, v⟩ := quals
  cases c <;> cases v <;> exact ⟨rfl, rfl⟩

theorem addMethodType_keeps (hget : GetsTypes doc qualifiedName getTypeFromId)
    (hadd : AddsElements doc qualifiedName addElementRepresentation) {index : Nat} {e : Element}
    (he : doc.element (nodeId index) = some e) (hname : e.name = "MethodType") :
    Keeps (Consistent doc qualifiedName)
      (addMethodType doc getTypeFromId addElementRepresentation (nodeId index) e)
      (ReadsNode doc qualifiedName (nodeId index)) := by
  have hinv : ∀ (t : Tree) m, Written doc qualifiedName t m → nodeId index = nodeId m →
      ∃ name returns arguments quals c ref refs, t = .methodType name returns arguments quals ∧
        WrittenClass doc qualifiedName name c ∧ WrittenRef doc qualifiedName returns ref ∧
        WrittenRefs doc qualifiedName arguments refs ∧
        e = xmlOutputMethodType (nodeId c) ref quals refs := by
    intro t m hw hid
    rw [hid] at he
    have hmem := name_mem hw he hname
    cases t with
    | methodType name returns arguments quals =>
      obtain ⟨c, ref, refs, hc, href, hrefs, hw⟩ := hw
      exact ⟨_, _, _, _, c, ref, refs, rfl, hc, href, hrefs, Option.some.inj (he.symm.trans hw)⟩
    | _ => simp [elementNames, recordNames] at hmem
  refine (getBasetype_keeps hadd e).bind (fun c hc => ?_) fun hnone t m ht hw hid => ?_
  · refine (setupFunctionType_keeps hget e).bind
      (fun function hfunction => register_keeps fun t m ht hw hid => ?_)
      fun hnone t m ht hw hid => ?_
    · obtain ⟨name, returns, arguments, quals, b, ref, refs, rfl, hb, href, hrefs, rfl⟩ :=
        hinv t m hw hid
      obtain ⟨hbasetype, hreturns⟩ := getAttribute_methodType (nodeId b) ref quals refs
      obtain rfl := Option.some.inj (hc name b hbasetype hb)
      have hread := hfunction returns arguments ref refs hreturns rfl ht.1 ht.2 href hrefs
      obtain rfl := Option.some.inj hread
      rfl
    · obtain ⟨name, returns, arguments, quals, b, ref, refs, rfl, hb, href, hrefs, rfl⟩ :=
        hinv t m hw hid
      obtain ⟨-, hreturns⟩ := getAttribute_methodType (nodeId b) ref quals refs
      cases hnone returns arguments ref refs hreturns rfl ht.1 ht.2 href hrefs
  · obtain ⟨name, returns, arguments, quals, b, ref, refs, rfl, hb, href, hrefs, rfl⟩ :=
      hinv t m hw hid
    obtain ⟨hbasetype, -⟩ := getAttribute_methodType (nodeId b) ref quals refs
    cases hnone name b hbasetype hb

theorem addOffsetType_keeps (hget : GetsTypes doc qualifiedName getTypeFromId)
    (hadd : AddsElements doc qualifiedName addElementRepresentation) {index : Nat} {e : Element}
    (he : doc.element (nodeId index) = some e) (hname : e.name = "OffsetType") :
    Keeps (Consistent doc qualifiedName)
      (addOffsetType doc getTypeFromId addElementRepresentation (nodeId index) e)
      (ReadsNode doc qualifiedName (nodeId index)) := by
  have hinv : ∀ (t : Tree) m, Written doc qualifiedName t m → nodeId index = nodeId m →
      ∃ name member c ref, t = .offsetType name member ∧
        WrittenClass doc qualifiedName name c ∧ WrittenRef doc qualifiedName member ref ∧
        e = xmlOutputOffsetType (nodeId c) ref := by
    intro t m hw hid
    rw [hid] at he
    have hmem := name_mem hw he hname
    cases t with
    | offsetType name member =>
      obtain ⟨c, ref, hc, href, hw⟩ := hw
      exact ⟨_, _, c, ref, rfl, hc, href, Option.some.inj (he.symm.trans hw)⟩
    | _ => simp [elementNames, recordNames] at hmem
  refine (getBasetype_keeps hadd e).bind (fun c hc => ?_) fun hnone t m ht hw hid => ?_
  · refine (getTarget_keeps hget e.attributes).bind
      (fun mtype hmtype => register_keeps fun t m ht hw hid => ?_) fun hnone t m ht hw hid => ?_
    · obtain ⟨name, member, b, ref, rfl, hb, href, rfl⟩ := hinv t m hw hid
      obtain rfl := Option.some.inj (hc name b rfl hb)
      have hread := hmtype member ref rfl (wellFormedPointee_of_wellFormed ht) href
      obtain rfl := Option.some.inj hread
      rfl
    · obtain ⟨name, member, b, ref, rfl, hb, href, rfl⟩ := hinv t m hw hid
      cases hnone member ref rfl (wellFormedPointee_of_wellFormed ht) href
  · obtain ⟨name, member, b, ref, rfl, hb, href, rfl⟩ := hinv t m hw hid
    cases hnone name b rfl hb

theorem enumeration_keeps {index : Nat} {e : Element}
    (he : doc.element (nodeId index) = some e) (hname : e.name = "Enumeration") :
    Keeps (Consistent doc qualifiedName)
      (register (nodeId index) (.enumeration (qualifiedName (nodeId index))))
      (ReadsNode doc qualifiedName (nodeId index)) := by
  refine register_keeps fun t m _ hw hid => ?_
  rw [hid] at he
  have hmem := name_mem hw he hname
  cases t with
  | enumerationType name =>
    obtain ⟨-, rfl⟩ := hw
    rw [hid]
    rfl
  | _ => simp [elementNames, recordNames] at hmem

theorem class_keeps {index : Nat} {e : Element} (he : doc.element (nodeId index) = some e)
    {name : String} (hname : e.name = name) (hrecord : name ∈ recordNames) :
    Keeps (Consistent doc qualifiedName)
      (register (nodeId index) (.cls (qualifiedName (nodeId index))))
      (ReadsNode doc qualifiedName (nodeId index)) := by
  refine register_keeps fun t m _ hw hid => ?_
  rw [hid] at he
  have hmem := name_mem hw he hname
  cases t with
  | classType name =>
    obtain ⟨-, rfl⟩ := hw
    rw [hid]
    rfl
  | _ =>
    obtain rfl := List.mem_singleton.mp hmem
    simp [recordNames] at hrecord

theorem constructElement_keeps (hget : GetsTypes doc qualifiedName getTypeFromId)
    (hadd : AddsElements doc qualifiedName addElementRepresentation) {index : Nat} {e : Element}
    (he : doc.element (nodeId index) = some e) :
    Keeps (Consistent doc qualifiedName)
      (constructElement doc qualifiedName getTypeFromId addElementRepresentation (nodeId index) e)
      (ReadsNode doc qualifiedName (nodeId index)) := by
  unfold constructElement
  split
  · exact addFundamentalType_keeps he ‹_›
  · exact addPointerType_keeps hget he ‹_›
  · exact addReferenceType_keeps hget he ‹_›
  · exact addArrayType_keeps hget he ‹_›
  · exact addFunctionType_keeps hget he ‹_›
  · exact addMethodType_keeps hget hadd he ‹_›
  · exact addOffsetType_keeps hget hadd he ‹_›
  · exact enumeration_keeps he ‹_›
  · exact class_keeps he ‹_› (by simp [recordNames])
  · exact class_keeps he ‹_› (by simp [recordNames])
  · exact class_keeps he ‹_› (by simp [recordNames])
  · exact addTypedef_keeps hget he ‹_›
  · refine Keeps.fail fun t m _ hw hid => ?_
    have hmem := name_mem hw (hid ▸ he) rfl
    cases t <;> simp [elementNames, recordNames] at hmem <;> simp_all

theorem addElement_keeps (hget : GetsTypes doc qualifiedName getTypeFromId)
    (hadd : AddsElements doc qualifiedName addElementRepresentation) :
    AddsElements doc qualifiedName
      (addElement doc qualifiedName getTypeFromId addElementRepresentation) := by
  intro id e he
  obtain ⟨index, rfl⟩ := doc.isNodeId id e he
  refine (Keeps.look (Q := fun r => ∃ existing, r = some existing ∧ ∀ object,
      existing = some object → ReadsNode doc qualifiedName (nodeId index) (some object))
    fun objects hobjects => ⟨_, rfl, fun object h t m ht hw hid => ?_⟩).bind
    (fun existing hexisting => ?_) fun h => by obtain ⟨_, h, -⟩ := h; cases h
  · rw [hobjects.node t m ht hw object (hid ▸ h)]
  · obtain ⟨_, heq, hexisting⟩ := hexisting
    obtain rfl := Option.some.inj heq
    cases existing with
    | some object => exact Keeps.pure (hexisting object rfl)
    | none => exact constructElement_keeps hget hadd he

theorem reference_keeps {tid : Text} {type : SourceType}
    (h : ∀ (t : Tree) index quals, t.WellFormed → Written doc qualifiedName t index →
      tid = idref index quals → quals ≠ ⊥ ∧ type = readType t quals) :
    Keeps (Consistent doc qualifiedName)
      (setSourceObject tid (.type type) >>= fun _ => pure type)
      (ReadsRef doc qualifiedName tid) := by
  have hreads : ReadsRef doc qualifiedName tid (some type) := by
    intro t index quals ht hw _ hid
    obtain ⟨hquals, rfl⟩ := h t index quals ht hw hid
    rw [if_neg hquals]
  refine (Keeps.update ?_).bind (fun _ _ => Keeps.pure hreads) fun h => by cases h
  intro objects hobjects
  refine ⟨fun t m ht hw object hlookup => ?_, fun t m quals ht hw hquals object hlookup => ?_⟩
  · have hid : nodeId m ≠ tid := by
      intro heq
      rw [← idref_bot] at heq
      exact (h t m ⊥ ht hw heq.symm).1 rfl
    rw [Function.update_of_ne hid] at hlookup
    exact hobjects.node t m ht hw object hlookup
  · by_cases hid : idref m quals = tid
    · rw [hid, Function.update_self] at hlookup
      rw [← (h t m quals ht hw hid.symm).2]
      exact (Option.some.inj hlookup).symm
    · rw [Function.update_of_ne hid] at hlookup
      exact hobjects.reference t m quals ht hw hquals object hlookup

theorem getType_keeps (hget : GetsTypes doc qualifiedName getTypeFromId)
    (hadd : AddsElements doc qualifiedName addElementRepresentation) :
    GetsTypes doc qualifiedName (getType doc getTypeFromId addElementRepresentation) := by
  intro tid
  refine (Keeps.look (Q := fun r => ∃ existing, r = some existing ∧ ∀ object,
      existing = some object → ReadsRef doc qualifiedName tid (some (typeOf object)))
    fun objects hobjects => ⟨_, rfl, fun object h t m quals ht hw _ hid => ?_⟩).bind
    (fun existing hexisting => ?_) fun h => by obtain ⟨_, h, -⟩ := h; cases h
  · subst hid
    by_cases hquals : quals = ⊥
    · subst hquals
      rw [idref_bot] at h
      rw [hobjects.node t m ht hw object h, typeOf_objectOf, if_pos rfl]
    · rw [hobjects.reference t m quals ht hw hquals object h, if_neg hquals]
      rfl
  · obtain ⟨_, heq, hexisting⟩ := hexisting
    obtain rfl := Option.some.inj heq
    cases existing with
    | some object => exact Keeps.pure (hexisting object rfl)
    | none =>
      dsimp only
      refine (Keeps.ofOption (Q := fun r => r = doc.element _) rfl).bind
        (fun typeElement helement => ?_) fun hnone t m quals _ hw _ hid => ?_
      · refine (hadd _ _ helement.symm).bind (fun _ _ => ?_) fun hnone t m quals ht hw _ hid => ?_
        · refine (hget _).bind (fun type htype => ?_) fun hnone t m quals ht hw _ hid => ?_
          · have htype' : ∀ (t : Tree) m quals, t.WellFormed → Written doc qualifiedName t m →
                tid = idref m quals → type = readType t (nodeFlags t) := by
              intro t m quals ht hw hid
              have h := htype t m ⊥ ht hw (fun _ => rfl)
                (by rw [hid, takeWhile_idref, idref_bot])
              rw [if_pos rfl] at h
              exact Option.some.inj h
            have hcv : ∀ m quals, tid = idref m quals →
                ((decide ('c' ∈ tid.dropWhile (!isQualifier ·)),
                  decide ('v' ∈ tid.dropWhile (!isQualifier ·))) : Quals) = quals := by
              intro m quals hid
              rw [hid, dropWhile_idref, mem_qualifierText]
            split
            · rename_i hbot
              refine Keeps.pure fun t m quals ht hw _ hid => ?_
              rw [hcv m quals hid] at hbot
              rw [if_pos hbot, htype' t m quals ht hw hid]
            · rename_i hbot
              refine (Keeps.ofOption (Q := fun r => r = withQualifiers type _) rfl).bind
                (fun newType hnew => reference_keeps fun t m quals ht hw hid => ?_)
                fun hnone t m quals ht hw htakes hid => ?_
              · rw [hcv m quals hid] at hbot hnew
                rw [htype' t m quals ht hw hid] at hnew
                have htakes := takesQuals_of_withQualifiers t _ _ _ hnew.symm
                rw [withQualifiers_eq t _ _ htakes] at hnew
                exact ⟨hbot, Option.some.inj hnew⟩
              · rw [hcv m quals hid] at hbot hnone
                have htakes' : t.mainVariant.takesQuals = true := by
                  by_contra h
                  exact hbot (htakes (Bool.not_eq_true _ ▸ h))
                rw [htype' t m quals ht hw hid, withQualifiers_eq t _ _ htakes'] at hnone
                cases hnone
          · cases hnone t m ⊥ ht hw (fun _ => rfl) (by rw [hid, takeWhile_idref, idref_bot])
        · cases hnone t m ht hw (by rw [hid, takeWhile_idref])
      · obtain ⟨e, he, -⟩ := element_of_written hw
        rw [hid, takeWhile_idref, he] at hnone
        cases hnone

variable (doc qualifiedName)

/-- Whatever the depth, the functions keep the objects consistent. -/
theorem reading_keeps (fuel : Nat) :
    GetsTypes doc qualifiedName (TypeReader.getTypeFromId doc qualifiedName fuel) ∧
      AddsElements doc qualifiedName
        (TypeReader.addElementRepresentation doc qualifiedName fuel) := by
  induction fuel with
  | zero => exact ⟨fun _ => Keeps.outOfFuel, fun _ _ _ => Keeps.outOfFuel⟩
  | succ fuel ih => exact ⟨getType_keeps ih.1 ih.2, addElement_keeps ih.1 ih.2⟩

theorem constructSourceRepresentation_keeps (fuel : Nat) (ids : List Text) :
    Keeps (Consistent doc qualifiedName)
      (constructSourceRepresentation doc qualifiedName fuel ids) fun _ => True := by
  induction ids with
  | nil => exact Keeps.pure trivial
  | cons id ids ih =>
    refine (Keeps.ofOption (Q := fun r => r = doc.element id) rfl).bind
      (fun element helement => ?_) fun _ => trivial
    exact ((reading_keeps doc qualifiedName fuel).2 id element helement.symm).bind
      (fun _ _ => ih) fun _ => trivial

end Outcomes

section Termination

/-- A result of `AddElementRepresentation` is registered for its element. -/
def Registers (id : Text) (m : Reading SourceObject) : Prop :=
  Ends m fun _ objects => (objects id).isSome

theorem register_registers (id : Text) (object : SourceObject) :
    Registers id (register id object) := by
  intro objects o objects' h
  cases h
  simp [Function.update_self]

theorem constructElement_registers (doc : Document) (qualifiedName : Text → String)
    (getTypeFromId : Text → Reading SourceType)
    (addElementRepresentation : Text → Element → Reading SourceObject) (id : Text)
    (e : Element) :
    Registers id
      (constructElement doc qualifiedName getTypeFromId addElementRepresentation id e) := by
  have hregister : ∀ object, Registers id (register id object) := register_registers id
  unfold constructElement
  split
  · exact Ends.bind fun _ => hregister _
  · exact Ends.bind fun _ => hregister _
  · exact Ends.bind fun _ => hregister _
  · exact Ends.bind fun _ => Ends.bind fun _ => Ends.bind fun _ => Ends.bind fun _ => hregister _
  · exact Ends.bind fun _ => hregister _
  · exact Ends.bind fun _ => Ends.bind fun _ => hregister _
  · exact Ends.bind fun _ => Ends.bind fun _ => hregister _
  · exact hregister _
  · exact hregister _
  · exact hregister _
  · exact hregister _
  · exact Ends.bind fun _ => hregister _
  · exact Ends.fail

theorem addElementRepresentation_registers (doc : Document) (qualifiedName : Text → String)
    (fuel : Nat) (id : Text) (e : Element) :
    Registers id (addElementRepresentation doc qualifiedName fuel id e) := by
  cases fuel with
  | zero => exact fun _ _ _ h => by cases h
  | succ fuel =>
    intro objects o objects' h
    rw [addElementRepresentation, addElement, bind_eq] at h
    cases hid : objects id with
    | some object =>
      simp only [Action.look, hid] at h
      cases h
      rw [hid]
      rfl
    | none =>
      simp only [Action.look, hid] at h
      exact constructElement_registers doc qualifiedName _ _ id e objects o objects' h

theorem getTypeFromId_existing (doc : Document) (qualifiedName : Text → String) (fuel : Nat)
    {id : Text} {objects : Objects} (hid : (objects id).isSome) :
    ∃ outcome, getTypeFromId doc qualifiedName (fuel + 1) id objects = some outcome := by
  obtain ⟨object, hid⟩ := Option.isSome_iff_exists.mp hid
  rw [getTypeFromId, getType, bind_eq]
  simp only [Action.look, hid]
  exact ⟨_, rfl⟩

variable {doc : Document} {qualifiedName : Text → String}

theorem getType_halts {fuel : Nat} {index : Nat} {quals : Quals}
    (hhalts : ∀ e, doc.element (nodeId index) = some e → Halts (Consistent doc qualifiedName)
      (addElementRepresentation doc qualifiedName (fuel + 1) (nodeId index) e)) :
    Halts (Consistent doc qualifiedName)
      (getTypeFromId doc qualifiedName (fuel + 2) (idref index quals)) := by
  obtain ⟨hget, hadd⟩ := reading_keeps doc qualifiedName (fuel + 1)
  refine Halts.bind Halts.look (Keeps.look (Q := fun _ => True) fun _ _ => trivial)
    fun existing _ => ?_
  cases existing with
  | some object => exact Halts.pure
  | none =>
    dsimp only
    rw [takeWhile_idref]
    refine Halts.bind Halts.ofOption (Keeps.ofOption (Q := fun r => r = doc.element _) rfl)
      fun e he => ?_
    intro objects hobjects
    obtain ⟨⟨r, objects'⟩, h⟩ := hhalts e he.symm objects hobjects
    have hobjects' := (hadd _ e he.symm objects r objects' hobjects h).1
    rw [bind_eq, h]
    cases r with
    | none => exact ⟨_, rfl⟩
    | some object =>
      have hid := addElementRepresentation_registers doc qualifiedName (fuel + 1) (nodeId index) e
        objects object objects' h
      obtain ⟨⟨r', objects''⟩, h'⟩ := getTypeFromId_existing doc qualifiedName fuel hid
      dsimp only
      rw [bind_eq, h']
      cases r' with
      | none => exact ⟨_, rfl⟩
      | some type =>
        dsimp only
        split
        · exact ⟨_, rfl⟩
        · cases withQualifiers type _ with
          | none => exact ⟨_, rfl⟩
          | some newType => exact ⟨_, rfl⟩

/-- With enough fuel, `AddElementRepresentation` halts for the node. -/
def NodeHalts (doc : Document) (qualifiedName : Text → String) (index : Nat) : Prop :=
  Enough fun fuel => ∀ e, doc.element (nodeId index) = some e →
    Halts (Consistent doc qualifiedName)
      (addElementRepresentation doc qualifiedName fuel (nodeId index) e)

/-- With enough fuel, `GetTypeFromId` halts for the reference. -/
def RefHalts (doc : Document) (qualifiedName : Text → String) (ref : Text) : Prop :=
  Enough fun fuel => Halts (Consistent doc qualifiedName) (getTypeFromId doc qualifiedName fuel ref)

theorem NodeHalts.ref {index : Nat} (h : NodeHalts doc qualifiedName index) (quals : Quals) :
    RefHalts doc qualifiedName (idref index quals) := by
  have hnext : Enough fun fuel => ∀ e, doc.element (nodeId index) = some e →
      Halts (Consistent doc qualifiedName)
        (addElementRepresentation doc qualifiedName (fuel + 1) (nodeId index) e) := by
    obtain ⟨bound, hbound⟩ := h
    exact ⟨bound, fun fuel hfuel => hbound (fuel + 1) (by omega)⟩
  exact (hnext.step (q := fun fuel => Halts (Consistent doc qualifiedName)
    (getTypeFromId doc qualifiedName (fuel + 1) (idref index quals)))
    fun fuel h => getType_halts h).step fun fuel h => h

theorem NodeHalts.of_construct {index : Nat} {e : Element}
    (he : doc.element (nodeId index) = some e)
    (h : Enough fun fuel => Halts (Consistent doc qualifiedName)
      (constructElement doc qualifiedName (getTypeFromId doc qualifiedName fuel)
        (addElementRepresentation doc qualifiedName fuel) (nodeId index) e)) :
    NodeHalts doc qualifiedName index := by
  refine h.step fun fuel h e' he' => ?_
  obtain rfl := Option.some.inj (he.symm.trans he')
  refine Halts.bind Halts.look (Keeps.look (Q := fun _ => True) fun _ _ => trivial)
    fun existing _ => ?_
  cases existing with
  | some object => exact Halts.pure
  | none => exact h

theorem register_halts (id : Text) (object : SourceObject) :
    Halts (Consistent doc qualifiedName) (register id object) := fun _ _ => ⟨_, rfl⟩

theorem enough_always {p : Nat → Prop} (h : ∀ fuel, p fuel) : Enough p := ⟨0, fun fuel _ => h fuel⟩

theorem class_halts {name : String} {index : Nat}
    (hw : WrittenClass doc qualifiedName name index) : NodeHalts doc qualifiedName index := by
  obtain ⟨⟨e, he, hname⟩, -⟩ := hw
  refine NodeHalts.of_construct he (enough_always fun fuel => ?_)
  have hregister : Halts (Consistent doc qualifiedName)
      (register (nodeId index) (.cls (qualifiedName (nodeId index)))) := register_halts _ _
  simp only [recordNames, List.mem_cons, List.not_mem_nil, or_false] at hname
  unfold constructElement
  obtain hname | hname | hname := hname
  · rw [hname]
    exact hregister
  · rw [hname]
    exact hregister
  · rw [hname]
    exact hregister

section Calls

variable {fuel : Nat} {e : Element}

theorem getTarget_halts {attributes : List (String × Text)} {ref : Text}
    (hattr : getAttribute attributes "type" = some ref)
    (h : Halts (Consistent doc qualifiedName) (getTypeFromId doc qualifiedName fuel ref)) :
    Halts (Consistent doc qualifiedName)
      (getTarget (getTypeFromId doc qualifiedName fuel) attributes) := by
  unfold getTarget
  rw [hattr]
  exact h

/-- What is read for the `type` attribute does not matter for halting. -/
theorem target_halts {β : Type} {ref : Text} (hattr : getAttribute e.attributes "type" = some ref)
    (h : Halts (Consistent doc qualifiedName) (getTypeFromId doc qualifiedName fuel ref))
    {f : SourceType → Reading β} (hf : ∀ type, Halts (Consistent doc qualifiedName) (f type)) :
    Halts (Consistent doc qualifiedName)
      (getTarget (getTypeFromId doc qualifiedName fuel) e.attributes >>= f) :=
  Halts.bind (getTarget_halts hattr h) (getTarget_keeps (reading_keeps doc qualifiedName fuel).1 _)
    fun type _ => hf type

theorem basetype_halts {β : Type} {name : String} {index : Nat}
    (hattr : getAttribute e.attributes "basetype" = some (nodeId index))
    (hw : WrittenClass doc qualifiedName name index)
    (h : ∀ e, doc.element (nodeId index) = some e → Halts (Consistent doc qualifiedName)
      (addElementRepresentation doc qualifiedName fuel (nodeId index) e))
    {f : String → Reading β} (hf : ∀ c, Halts (Consistent doc qualifiedName) (f c)) :
    Halts (Consistent doc qualifiedName)
      (getBasetype doc (addElementRepresentation doc qualifiedName fuel) e >>= f) := by
  obtain ⟨hget, hadd⟩ := reading_keeps doc qualifiedName fuel
  refine Halts.bind ?_ (getBasetype_keeps hadd e) fun c _ => hf c
  obtain ⟨⟨bte, hbte, -⟩, -⟩ := hw
  unfold getBasetype
  rw [hattr]
  refine Halts.bind Halts.ofOption (Keeps.ofOption (Q := fun r => r = some (nodeId index)) rfl)
    fun basetype hbasetype => ?_
  obtain rfl := Option.some.inj hbasetype
  rw [hbte]
  refine Halts.bind Halts.ofOption (Keeps.ofOption (Q := fun r => r = some bte) rfl)
    fun bte' hbte' => ?_
  obtain rfl := Option.some.inj hbte'
  refine Halts.bind (h bte' hbte) (hadd _ _ hbte) fun object _ => ?_
  split
  · exact Halts.pure
  · exact fun _ _ => ⟨_, rfl⟩

theorem setupFunctionType_halts {β : Type} {ref : Text}
    (hattr : getAttribute e.attributes "returns" = some ref)
    (h : Halts (Consistent doc qualifiedName) (getTypeFromId doc qualifiedName fuel ref))
    (harguments : Halts (Consistent doc qualifiedName)
      (setupArguments (getTypeFromId doc qualifiedName fuel) e.nested))
    {f : SourceType × List SourceType → Reading β}
    (hf : ∀ r, Halts (Consistent doc qualifiedName) (f r)) :
    Halts (Consistent doc qualifiedName)
      (setupFunctionType (getTypeFromId doc qualifiedName fuel) e >>= f) := by
  obtain ⟨hget, hadd⟩ := reading_keeps doc qualifiedName fuel
  refine Halts.bind ?_ (setupFunctionType_keeps hget e) fun r _ => hf r
  have hreturns : Halts (Consistent doc qualifiedName)
      (getReturns (getTypeFromId doc qualifiedName fuel) e.attributes) := by
    unfold getReturns
    rw [hattr]
    exact h
  refine Halts.bind hreturns (getReturns_keeps hget _) fun returns _ => ?_
  exact Halts.bind harguments (setupArguments_keeps hget _) fun _ _ => Halts.pure

end Calls

mutual

theorem node_halts : ∀ (t : Tree) index, Written doc qualifiedName t index →
    NodeHalts doc qualifiedName index
  | .fundamentalType id, index, hw =>
    NodeHalts.of_construct hw (enough_always fun _ _ _ => ⟨_, rfl⟩)
  | .classType name, index, hw => class_halts hw
  | .enumerationType name, index, hw => by
    obtain ⟨⟨e, he, hname⟩, -⟩ := hw
    refine NodeHalts.of_construct he (enough_always fun fuel => ?_)
    unfold constructElement
    rw [hname]
    exact register_halts _ _
  | .pointerType target, index, hw => by
    obtain ⟨ref, href, he⟩ := hw
    exact NodeHalts.of_construct he ((ref_halts target ref href).mono fun fuel h =>
      target_halts rfl h fun _ => register_halts _ _)
  | .referenceType target, index, hw => by
    obtain ⟨ref, href, he⟩ := hw
    exact NodeHalts.of_construct he ((ref_halts target ref href).mono fun fuel h =>
      target_halts rfl h fun _ => register_halts _ _)
  | .arrayType element length, index, hw => by
    obtain ⟨n, hn, he⟩ := hw
    refine NodeHalts.of_construct he ((nodeRef_halts element n hn).mono fun fuel h => ?_)
    obtain ⟨hget, -⟩ := reading_keeps doc qualifiedName fuel
    refine Halts.bind Halts.ofOption (Keeps.ofOption (Q := fun r => r = some (idref n ⊥)) rfl)
      fun targetId htarget => ?_
    obtain rfl := Option.some.inj htarget
    refine Halts.bind h.getD ((hget _).getD (Q := fun _ => True) (fun _ _ => trivial)
      fun _ => trivial) fun target _ => ?_
    refine Halts.bind Halts.ofOption (Keeps.ofOption (Q := fun _ => True) trivial)
      fun maxStr _ => ?_
    exact Halts.bind Halts.ofOption (Keeps.ofOption (Q := fun _ => True) trivial)
      fun length _ => register_halts _ _
  | .functionType returns arguments, index, hw => by
    obtain ⟨ref, refs, href, hrefs, he⟩ := hw
    exact NodeHalts.of_construct he
      (((ref_halts returns ref href).and (refs_halts arguments refs hrefs)).mono
        fun fuel h => setupFunctionType_halts rfl h.1 h.2 fun _ => register_halts _ _)
  | .methodType c returns arguments quals, index, hw => by
    obtain ⟨b, ref, refs, hb, href, hrefs, he⟩ := hw
    obtain ⟨hbasetype, hreturns⟩ := getAttribute_methodType (nodeId b) ref quals refs
    exact NodeHalts.of_construct he (((class_halts hb).and
      ((ref_halts returns ref href).and (refs_halts arguments refs hrefs))).mono
        fun fuel h => basetype_halts hbasetype hb h.1 fun _ =>
          setupFunctionType_halts hreturns h.2.1 h.2.2 fun _ => register_halts _ _)
  | .offsetType c member, index, hw => by
    obtain ⟨b, ref, hb, href, he⟩ := hw
    exact NodeHalts.of_construct he (((class_halts hb).and (ref_halts member ref href)).mono
      fun fuel h => basetype_halts rfl hb h.1 fun _ =>
        target_halts rfl h.2 fun _ => register_halts _ _)
  | .typedef name original, index, hw => by
    obtain ⟨ref, href, he⟩ := hw
    exact NodeHalts.of_construct he ((ref_halts original ref href).mono fun fuel h =>
      target_halts rfl h fun _ => register_halts _ _)

theorem ref_halts : ∀ (t : CvTree) ref, WrittenRef doc qualifiedName t ref →
    RefHalts doc qualifiedName ref
  | .mk type quals, ref, hw => by
    obtain ⟨index, hw, rfl⟩ := hw
    exact (node_halts type index hw).ref _

theorem nodeRef_halts : ∀ (t : CvTree) index, WrittenNode doc qualifiedName t index →
    RefHalts doc qualifiedName (idref index ⊥)
  | .mk type _, index, hw => (node_halts type index hw).ref ⊥

theorem refs_halts : ∀ (ts : List CvTree) refs, WrittenRefs doc qualifiedName ts refs →
    Enough fun fuel => Halts (Consistent doc qualifiedName)
      (setupArguments (getTypeFromId doc qualifiedName fuel) (refs.map xmlOutputArgument))
  | [], refs, hw => by
    obtain rfl := hw
    exact enough_always fun _ => Halts.pure
  | t :: ts, refs, hw => by
    obtain ⟨ref, rest, rfl, href, hrest⟩ := hw
    refine ((ref_halts t ref href).and (refs_halts ts rest hrest)).mono fun fuel h => ?_
    obtain ⟨hget, -⟩ := reading_keeps doc qualifiedName fuel
    refine Halts.bind (getTarget_halts rfl h.1) (getTarget_keeps hget _) fun _ _ => ?_
    exact Halts.bind h.2 (setupArguments_keeps hget _) fun _ _ => Halts.pure

end

end Termination

section Result

variable {doc : Document} {qualifiedName : Text → String}

/-- Whatever was read before, the reference to a written type is read as the type made of its
tree. -/
theorem getTypeFromId_written {t : CvTree} (ht : t.WellFormed) {ref : Text}
    (hw : WrittenRef doc qualifiedName t ref) {depth : Nat} {ids : List Text} {r : Option Unit}
    {objects : Objects}
    (hobjects : constructSourceRepresentation doc qualifiedName depth ids (fun _ => none) =
      some (r, objects)) :
    Enough fun fuel => ∃ objects', getTypeFromId doc qualifiedName fuel ref objects =
      some (some (readRef t), objects') := by
  have hconsistent := (constructSourceRepresentation_keeps doc qualifiedName depth ids _ _ _
    (consistent_empty doc qualifiedName) hobjects).1
  refine (ref_halts t ref hw).mono fun fuel h => ?_
  obtain ⟨⟨result, objects'⟩, hresult⟩ := h objects hconsistent
  have hread := ((reading_keeps doc qualifiedName fuel).1 ref objects result objects' hconsistent
    hresult).2
  rw [readRef_of_reads hread (wellFormedPointee_of_wellFormed ht) hw] at hresult
  exact ⟨objects', hresult⟩

end Result

end CableSwig.Parsers.TypeReading
