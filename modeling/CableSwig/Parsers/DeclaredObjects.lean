import CableSwig.Parsers.DumpReading
import CableSwig.Parsers.TypeRoundTrip

/-!
# The objects as they were declared

The classes of Cable have no room for all that a document says. `declaredEntry` is the object for
a node with its qualities, numbers, types and base classes as they were declared, and `Lossless`
tells of which nodes nothing is lost that such an object can hold.
-/
namespace CableSwig.Parsers.DeclaredObjects

open CableSwig.CxxTypes (Quals)
open CableSwig.GccXml.DeclarationAttributes
open CableSwig.GccXml.DeclarationDump
open CableSwig.GccXml.OutputFunctions (FunctionTag)
open CableSwig.GccXml.TypeDump (arrayBound nodeId)
open CableSwig.Lib.Fuel
open CableSwig.Lib.Numerals
open CableSwig.Lib.StdString
open CableSwig.Parsers.BasesAttribute (BaseBinfo nAccess publicBases writtenId)
open CableSwig.Parsers.CarriedNumbers
open CableSwig.Parsers.DeclarationReading
open CableSwig.Parsers.DumpReading
open CableSwig.Parsers.DumpReferences
open CableSwig.Parsers.DumpTable
open CableSwig.Parsers.RepresentationBuilder
open CableSwig.Parsers.TypeNodeReading
open CableSwig.Parsers.TypeRoundTrip (FaithfulLength readLength_eq_arrayBound_iff)
open CableSwig.Parsers.XmlSourceParser (SourceParser)

section Declared

/-- The value of an `INTEGER_CST` with both its words. -/
def constantValue (t : IntegerCst) : Int := t.high * 2 ^ 64 + t.low

def isMember : FunctionTag → Bool
  | .operatorFunction | .function => false
  | _ => true

/-- The qualities of a function. Outside a class `static` is about the linkage. -/
def declaredFlags (d : FunctionDecl) : MethodFlags where
  isConst := d.constMemfunc
  isStatic := if isMember d.tag then !d.nonstaticMember else d.thisStatic
  isVirtual := d.isVirtual
  isPureVirtual := d.pureVirtual

/-- The base classes with any access. -/
def declaredBases (d : RecordType) : List Text :=
  d.bases.reduceOption.map fun b => writtenId b.id

variable (types : TypeRef → SourceType) (files : Text → Text)

/-- The object for a declaration with all that was declared. -/
def declaredObject (d : Declaration) : SourceObject :=
  let named := namedFor files d
  match d with
  | .namespaceDecl _ => .ns named
  | .namespaceAlias d => .nsAlias named (nodeId d.realNamespace)
  | .typedef d => .typedef named (types d.type)
  | .function d => .function (functionKind d.tag) named (functionType types d) (declaredFlags d)
  | .var d => .var named (d.initial.getD []) (types d.type)
  | .field d =>
    .field named (constantValue d.byteOffset * 8 + constantValue d.bitOffset)
      (types (d.bitFieldType.getD d.type))
  | .record d => .cls (classKind d.tag) named d.pureVirtuals (declaredBases d)
  | .enumeral d => .enumeration { named with name := enumerationName named.name }
      (d.values.map fun v => (v.1, constantValue v.2))

/-- The type for a type node. A `MethodType` of Cable has no qualifiers. -/
def declaredType : TypeShape → SourceType
  | .fundamental name => .fundamentalType (name.getD []) ⊥
  | .pointer target => .pointerType (types target) ⊥
  | .reference target => .referenceType (types target)
  | .array length element => .arrayType (types element) (arrayBound length) ⊥
  | .function returns argTypes _ =>
    .functionType (types returns) (argumentsFor types argTypes).1 (argumentsFor types argTypes).2
  | .method basetype returns _ argTypes _ =>
    .methodType (nodeId basetype) (types returns) (argumentsFor types argTypes).1
      (argumentsFor types argTypes).2
  | .offset basetype type => .offsetType (nodeId basetype) (types type) ⊥

def declaredEntry : Entry → SourceObject
  | .declaration d => declaredObject types files d
  | .typeNode t => .type (declaredType types t.shape)

/-- The qualifiers that a type has itself. -/
def ownQuals : SourceType → Quals
  | .fundamentalType _ quals | .pointerType _ quals | .arrayType _ _ quals | .classType _ quals
  | .enumerationType _ quals | .offsetType _ _ quals => quals
  | .null | .referenceType _ | .functionType _ _ _ | .methodType _ _ _ _ => ⊥

/-- A type with more qualifiers: those that it has already stay. -/
def cvQualified (quals : Quals) (type : SourceType) : Option SourceType :=
  if quals = ⊥ then some type else withQualifiers type (ownQuals type ⊔ quals)

end Declared

section Conditions

/-- A function that has no qualities but those that the parser reads for its kind, and no
ellipsis. -/
structure LosslessFunction (d : FunctionDecl) : Prop where
  const : d.constMemfunc = true →
    d.tag = .method ∨ d.tag = .operatorMethod ∨ d.tag = .converter
  static : (declaredFlags d).isStatic = true → d.tag = .method ∨ d.tag = .operatorMethod
  isVirtual : d.isVirtual = true → d.tag = .method
  pureVirtual : d.pureVirtual = true → d.tag = .method
  ellipsis : d.voidTerminated = true

def LosslessShape : TypeShape → Prop
  | .array length _ => FaithfulLength length
  | .function _ _ voidTerminated => voidTerminated = true
  | .method _ _ thisQuals _ voidTerminated => thisQuals = ⊥ ∧ voidTerminated = true
  | _ => True

/-- A node that an object can hold: the qualities are those for the kind of function, the values
of enumerators fit into `int`, the offset of a field is known, the base classes are public and
written, and the types have the length and qualifiers that the parser reads. -/
def Lossless : Entry → Prop
  | .declaration (.function d) => LosslessFunction d
  | .declaration (.field d) => d.byteOffset.high = 0 ∧ d.bitOffset.high = 0
  | .declaration (.enumeral d) =>
    ∀ v ∈ d.values, -2 ^ 31 ≤ constantValue v.2 ∧ constantValue v.2 < 2 ^ 31
  | .declaration (.record d) =>
    (∀ b ∈ d.bases.reduceOption, nAccess d.accesses b.toBaseBinfo = .publicAccess) ∧
      ((d.complete = true ∧ d.completeType = true) ∨ d.bases.reduceOption = [])
  | .declaration _ => True
  | .typeNode t => LosslessShape t.shape

variable (items : List Item)

/-- A type with no qualifiers of its own, also behind typedefs. -/
inductive Unqualified : Entry → Prop
  | typeNode (t : TypeNode) : Unqualified (.typeNode t)
  | record (d : RecordType) : Unqualified (.declaration (.record d))
  | enumeral (d : EnumeralType) : Unqualified (.declaration (.enumeral d))
  | typedef (d : TypedefDecl) {target : Entry} (hmem : target ∈ entries items)
      (hindex : target.index = d.type.index) (hquals : d.type.quals = ⊥)
      (h : Unqualified target) : Unqualified (.declaration (.typedef d))

/-- A reference without `restrict`, and with qualifiers only for a type that has none itself. -/
structure LosslessRef (t : TypeRef) (target : Entry) : Prop where
  isRestrict : t.isRestrict = false
  quals : t.quals ≠ ⊥ → Unqualified items target

/-- A reference means the declared type of the node, and the qualifiers of the reference with
it. -/
def MeansDeclared (types : TypeRef → SourceType) (files : Text → Text) : Prop :=
  ∀ entry ∈ entries items, ∀ t ∈ followedTypes entry, ∀ target ∈ entries items,
    target.index = t.index → Lossless target → LosslessRef items t target →
      (declaredEntry types files target).typeOf.bind (cvQualified t.quals) = some (types t)

end Conditions

section Kept

variable {types : TypeRef → SourceType} {files : Text → Text}

theorem functionFlags_eq {d : FunctionDecl} (h : LosslessFunction d) :
    functionFlags d = declaredFlags d := by
  obtain ⟨hconst, hstatic, hvirtual, hpure, -⟩ := h
  unfold functionFlags
  unfold declaredFlags at hstatic ⊢
  cases htag : d.tag <;> simp_all [isMember]

/-- The lower word tells the value of an `int`. -/
theorem toInt_low {t : IntegerCst} (h : -2 ^ 31 ≤ constantValue t ∧ constantValue t < 2 ^ 31) :
    toInt t.low = constantValue t := by
  have hmod : (t.low : Int) % ((2 ^ 32 : Nat) : Int) =
      constantValue t % ((2 ^ 32 : Nat) : Int) := by
    rw [constantValue]
    omega
  have hint : toInt t.low = toInt (constantValue t) := by
    rw [toInt, toInt, Int.bmod_def, Int.bmod_def, hmod]
  rw [hint, (toInt_eq_self_iff _).mpr h]

theorem fieldOffset_eq {d : FieldDecl} (h : d.byteOffset.high = 0 ∧ d.bitOffset.high = 0) :
    fieldOffset d = constantValue d.byteOffset * 8 + constantValue d.bitOffset := by
  rw [fieldOffset, hostIntegerp, hostIntegerp, if_pos (by simp [h]), constantValue, constantValue,
    h.1, h.2]
  omega

theorem recordBases_eq {d : RecordType}
    (h : ∀ b ∈ d.bases.reduceOption, nAccess d.accesses b.toBaseBinfo = .publicAccess)
    (hwritten : (d.complete = true ∧ d.completeType = true) ∨ d.bases.reduceOption = []) :
    recordBases d = declaredBases d := by
  have hlinks : (d.bases.map fun b => b.map BaseLink.toBaseBinfo).reduceOption =
      d.bases.reduceOption.map BaseLink.toBaseBinfo := List.reduceOption_map
  have hpublic : publicBases d.accesses (d.bases.map fun b => b.map BaseLink.toBaseBinfo) =
      declaredBases d := by
    rw [publicBases, hlinks, List.filter_eq_self.mpr, List.map_map]
    · rfl
    · rintro b hb
      obtain ⟨link, hlink, rfl⟩ := List.mem_map.mp hb
      exact decide_eq_true (h link hlink)
  rw [recordBases]
  rcases hwritten with hwritten | hnone
  · rw [if_pos hwritten, hpublic]
  · rw [hpublic, declaredBases, hnone]
    exact ite_self _

theorem typeFor_eq {shape : TypeShape} (h : LosslessShape shape) :
    typeFor types shape = declaredType types shape := by
  cases shape with
  | array length element =>
    rw [typeFor, declaredType, (readLength_eq_arrayBound_iff length).mpr h]
  | fundamental | pointer | reference | function | method | offset => rfl

/-- The object that is read for a lossless node is the declared one. -/
theorem entryObject_eq_declared {entry : Entry} (h : Lossless entry) :
    entryObject types files entry = declaredEntry types files entry := by
  cases entry with
  | typeNode t => exact congrArg SourceObject.type (typeFor_eq h)
  | declaration d =>
    show objectFor types files d = declaredObject types files d
    cases d with
    | function d => simp only [objectFor, declaredObject, functionFlags_eq h]
    | field d => simp only [objectFor, declaredObject, fieldOffset_eq h]
    | record d => simp only [objectFor, declaredObject, recordBases_eq h.1 h.2]
    | enumeral d =>
      have hvalues : (d.values.map fun v => (v.1, toInt v.2.low)) =
          d.values.map fun v => (v.1, constantValue v.2) :=
        List.map_congr_left fun v hv => by rw [toInt_low (h v hv)]
      simp only [objectFor, declaredObject, hvalues]
    | namespaceDecl | namespaceAlias | typedef | var => rfl

end Kept

section Meaning

variable {types : TypeRef → SourceType} {items : List Item} {rank : Text → Nat}
  (h : WellFormedDump items rank) (hdenotes : Denotes types (fileName items) items)
include h hdenotes

theorem ownQuals_unqualified {target : Entry} (hmem : target ∈ entries items)
    (hunqualified : Unqualified items target) :
    ∀ type, (entryObject types (fileName items) target).typeOf = some type →
      ownQuals type = ⊥ := by
  induction hunqualified with
  | typeNode t =>
    intro type htype
    obtain rfl := Option.some.inj htype
    cases t.shape <;> rfl
  | record d | enumeral d =>
    intro type htype
    obtain rfl := Option.some.inj htype
    rfl
  | @typedef d next hnext hindex hquals _ ih =>
    intro type htype
    obtain rfl := Option.some.inj htype
    obtain ⟨next', hnext', hindex', hbind⟩ := hdenotes _ hmem d.type List.mem_cons_self
    obtain rfl := entry_eq h hnext' hnext (hindex'.trans hindex.symm)
    obtain ⟨type, htypeOf, hqualified⟩ := Option.bind_eq_some_iff.mp hbind
    rw [qualifiedType, if_pos hquals] at hqualified
    obtain rfl := Option.some.inj hqualified
    exact ih hnext' _ htypeOf

/-- What the references mean that lose nothing. -/
theorem meansDeclared_of_denotes : MeansDeclared items types (fileName items) := by
  intro entry hentry t ht target htarget hindex hlossless href
  obtain ⟨target', htarget', hindex', hbind⟩ := hdenotes entry hentry t ht
  obtain rfl := entry_eq h htarget' htarget (hindex'.trans hindex.symm)
  rw [← entryObject_eq_declared hlossless]
  obtain ⟨type, htypeOf, hqualified⟩ := Option.bind_eq_some_iff.mp hbind
  rw [htypeOf, Option.bind_some]
  unfold qualifiedType at hqualified
  unfold cvQualified
  by_cases hbot : t.quals = ⊥
  · rw [if_pos hbot] at hqualified ⊢
    exact hqualified
  · have hown : ownQuals type = ⊥ :=
      ownQuals_unqualified h hdenotes htarget' (href.quals hbot) type htypeOf
    rw [if_neg hbot] at hqualified
    rw [if_neg hbot, hown, bot_sup_eq]
    exact hqualified

end Meaning

section Reading

variable {demangle : Text → Option Text} {items : List Item} {rank : Text → Nat}

theorem lossless_fieldOfClass : ∀ entry ∈ entries fieldOfClass, Lossless entry := by
  refine List.forall_mem_cons.mpr ⟨trivial, List.forall_mem_cons.mpr ⟨⟨?_, Or.inr rfl⟩,
    List.forall_mem_cons.mpr ⟨trivial, List.forall_mem_cons.mpr ⟨trivial,
      List.forall_mem_singleton.mpr ⟨rfl, rfl⟩⟩⟩⟩⟩
  exact fun b hb => absurd hb List.not_mem_nil

end Reading

end CableSwig.Parsers.DeclaredObjects
