import CableSwig.Executables.ClassWrapping
import CableSwig.Parsers.DeclaredObjects

/-!
# From a dump to the nodes of classes

The node that `CreateSwigClass` makes for a class of a dump has a node for each method that was
declared in the class, except for those that are skipped.
-/
namespace CableSwig.Executables.DumpWrapping

open CableSwig.CxxTypes
open CableSwig.Executables.ClassWrapping
open CableSwig.Executables.SwigTypeString
open CableSwig.Executables.TemplateName
open CableSwig.GccXml.DeclarationAttributes
open CableSwig.GccXml.DeclarationDump
open CableSwig.GccXml.OutputFunctions (FunctionTag)
open CableSwig.GccXml.TypeDump (nodeId)
open CableSwig.Lib.Fuel
open CableSwig.Lib.StdString
open CableSwig.Parsers
open CableSwig.Parsers.ConstructionOrder
open CableSwig.Parsers.DeclaredObjects
open CableSwig.Parsers.DeclarationReading
open CableSwig.Parsers.DumpReading
open CableSwig.Parsers.DumpReferences
open CableSwig.Parsers.DumpTable
open CableSwig.Parsers.ElementValues
open CableSwig.Parsers.RepresentationBuilder
open CableSwig.Parsers.TypeNodeReading
open CableSwig.Parsers.TypeReading (nodeId_injective)
open CableSwig.Parsers.XmlSourceParser (SourceParser stringLess stringLess_strictTotal)

section Declared

/-- The name of the object for a declaration. -/
def objectName : Declaration → Text
  | .enumeral d => enumerationName (memberName (.enumeral d))
  | d => memberName d

/-- The names of the contexts of a declaration and its own, from the outside in. -/
inductive QualifiedName (items : List Item) : Nat → Text → Prop
  | outermost {d : Declaration} : .declaration d ∈ entries items → d.decl.context = none →
      QualifiedName items d.decl.index (objectName d)
  | inside {d : Declaration} {c : Context} {context : Text} : .declaration d ∈ entries items →
      d.decl.context = some c → QualifiedName items c.index context →
      QualifiedName items d.decl.index (nameIn context (objectName d))

mutual

/-- The type with these names in place of the ids. -/
def called (names : Text → Text) : SourceType → TypeReader.SourceType
  | .null => .null
  | .fundamentalType typeName quals => .fundamentalType typeName quals
  | .pointerType target quals => .pointerType (called names target) quals
  | .referenceType target => .referenceType (called names target)
  | .arrayType target length quals => .arrayType (called names target) length quals
  | .classType c quals => .classType (String.ofList (names c)) quals
  | .enumerationType e quals => .enumerationType (String.ofList (names e)) quals
  | .functionType returns types _ => .functionType (called names returns) (allCalled names types)
  | .methodType c returns types _ =>
    .methodType (String.ofList (names c)) (called names returns) (allCalled names types) ⊥
  | .offsetType c memberType quals =>
    .offsetType (String.ofList (names c)) (called names memberType) quals

def allCalled (names : Text → Text) : List SourceType → List TypeReader.SourceType
  | [] => []
  | t :: ts => called names t :: allCalled names ts

end

mutual

/-- The ids of the classes and enumerations in a type. -/
def classIds : SourceType → List Text
  | .null | .fundamentalType _ _ => []
  | .pointerType target _ | .referenceType target | .arrayType target _ _ => classIds target
  | .classType c _ => [c]
  | .enumerationType e _ => [e]
  | .functionType returns types _ => classIds returns ++ allClassIds types
  | .methodType c returns types _ => c :: (classIds returns ++ allClassIds types)
  | .offsetType c memberType _ => c :: classIds memberType

def allClassIds : List SourceType → List Text
  | [] => []
  | t :: ts => classIds t ++ allClassIds ts

end

/-- The type that stands for the objects, with these names of classes and enumerations. -/
def cxxTerm (names : Text → Text) (type : SourceType) : Option CvTerm :=
  TypeReader.createCxxType (called names type)

/-- What `ToSwigType` gives for a type. -/
def typeText (w : Settings) (names : Text → Text) (type : SourceType) : Text :=
  ((cxxTerm names type).map (swigText w.nativeStringName)).getD []

variable (items : List Item)

/-- A record that is declared in a record. -/
def nestedRecord (c : Text) : Bool :=
  (entries items).any fun
    | .declaration (.record r) => nodeId r.index = c && r.context.any fun context =>
      (entries items).any fun
        | .declaration (.record outer) => outer.index = context.index
        | _ => false
    | _ => false

variable (types : TypeRef → SourceType) (names : Text → Text)

def returnsNestedRecord (d : FunctionDecl) : Bool :=
  d.tag.doReturns && match types d.returns with
    | .classType c _ => nestedRecord items c
    | _ => false

/-- The functions that are wrapped: methods, but no converters, no public destructors, and nothing
that returns a nested class. -/
def isWrapped (d : FunctionDecl) : Bool :=
  match d.tag with
  | .method | .operatorMethod => ! returnsNestedRecord items types d
  | .constructor => true
  | .destructor => declaredAccess d.toDecl ≠ .Public
  | .converter | .operatorFunction | .function => false

/-- A function that can be wrapped, if it does not return a nested class. -/
def isWrappable (d : FunctionDecl) : Bool :=
  match d.tag with
  | .method | .operatorMethod | .constructor => true
  | .destructor => declaredAccess d.toDecl ≠ .Public
  | .converter | .operatorFunction | .function => false

/-- A function whose qualities the parser reads: `virtual` is only read for methods, and only
virtual methods can be marked as abstract. -/
structure ShowsQualities (d : FunctionDecl) : Prop where
  const : d.constMemfunc = true → d.tag = .method ∨ d.tag = .operatorMethod
  isVirtual : d.isVirtual = true → d.tag ≠ .operatorMethod
  pureVirtual : d.pureVirtual = true → d.tag = .method ∧ d.isVirtual = true

def isPureVirtual : Entry → Bool
  | .declaration (.function d) => d.pureVirtual
  | _ => false

variable (w : Settings)

/-- The node for a function of a class, as it was declared. -/
def declaredNode (className cname : Text) (d : FunctionDecl) : MethodNode where
  nodeType :=
    match d.tag with
    | .constructor => "constructor"
    | .destructor => "destructor"
    | _ => "cdecl"
  file := (namedFor (fileName items) (.function d)).file
  line := (namedFor (fileName items) (.function d)).line
  name :=
    match d.tag with
    | .constructor => className
    | .destructor => '~' :: cname
    | .operatorMethod => "operator ".toList ++ memberName (.function d)
    | _ => memberName (.function d)
  storage :=
    match d.tag with
    | .constructor | .destructor => none
    | _ => if d.nonstaticMember then if d.isVirtual then some "virtual" else none else some "static"
  isAbstract := if d.pureVirtual then some "1" else none
  access := accessName (declaredAccess d.toDecl)
  decl := declOf d.constMemfunc
    ((functionArguments d).map fun a => typeText w names (types (argumentType a)))
  parms := (functionArguments d).map fun a => typeText w names (types (argumentType a))
  featureNew := if d.tag = .constructor then some "1" else none
  type := if d.tag.doReturns then some (typeText w names (types d.returns)) else none

/-- The node for an entry that is a function with this access. -/
def declaredMethod (className cname : Text) (access : Access) : Entry → Option MethodNode
  | .declaration (.function d) =>
    if declaredAccess d.toDecl = access ∧ isWrapped items types d then
      some (declaredNode items types names w className cname d)
    else none
  | _ => none

/-- The name of the scope of a class and of its node. -/
def declaredNames (r : RecordType) (td : Option Text) : Text × Text :=
  let name := memberName (.record r)
  if nestedRecord items (nodeId r.index) then (names (nodeId r.index), names (nodeId r.index))
  else
    (td.getD (if '<' ∈ name then translatedText w.nativeStringName name else name),
      translatedText w.nativeStringName name)

/-- The entry is declared in this context. -/
def isDeclaredIn (index : Nat) : Entry → Bool
  | .declaration d => d.decl.context.any fun c => c.index = index
  | .typeNode _ => false

def entryName : Entry → Text
  | .declaration d => memberName d
  | .typeNode _ => []

end Declared

section Types

variable {f : Text → Option Text} {names : Text → Text}

mutual

/-- Only the names of the classes and enumerations in the type matter. -/
theorem withNames_eq : ∀ t : SourceType, (∀ id ∈ classIds t, f id = some (names id)) →
    withNames f t = some (called names t)
  | .null, _ => rfl
  | .fundamentalType _ _, _ => rfl
  | .pointerType target _, h => by
    rw [withNames, withNames_eq target h]
    rfl
  | .referenceType target, h => by
    rw [withNames, withNames_eq target h]
    rfl
  | .arrayType target _ _, h => by
    rw [withNames, withNames_eq target h]
    rfl
  | .classType c _, h => by
    rw [withNames, h c List.mem_cons_self]
    rfl
  | .enumerationType e _, h => by
    rw [withNames, h e List.mem_cons_self]
    rfl
  | .functionType returns types _, h => by
    obtain ⟨hreturns, htypes⟩ := List.forall_mem_append.mp h
    rw [withNames, withNames_eq returns hreturns, allWithNames_eq types htypes]
    rfl
  | .methodType c returns types _, h => by
    obtain ⟨hc, hrest⟩ := List.forall_mem_cons.mp h
    obtain ⟨hreturns, htypes⟩ := List.forall_mem_append.mp hrest
    rw [withNames, hc, withNames_eq returns hreturns, allWithNames_eq types htypes]
    rfl
  | .offsetType c memberType _, h => by
    obtain ⟨hc, hmember⟩ := List.forall_mem_cons.mp h
    rw [withNames, hc, withNames_eq memberType hmember]
    rfl

theorem allWithNames_eq : ∀ ts : List SourceType, (∀ id ∈ allClassIds ts, f id = some (names id)) →
    allWithNames f ts = some (allCalled names ts)
  | [], _ => rfl
  | t :: ts, h => by
    obtain ⟨ht, hts⟩ := List.forall_mem_append.mp h
    rw [allWithNames, withNames_eq t ht, allWithNames_eq ts hts]
    rfl

end

theorem isSome_both {α β γ : Type} {a : Option α} {b : Option β} {g : α → β → γ} :
    (a.bind fun x => b.bind fun y => some (g x y)).isSome ↔ a.isSome ∧ b.isSome := by
  cases a <;> cases b <;> simp

mutual

/-- Whether a type can be created does not depend on the names. -/
theorem isSome_cxxTerm : ∀ t : SourceType, (cxxTerm names t).isSome ↔ Creatable t
  | .null => Iff.rfl
  | .fundamentalType _ _ => Iff.rfl
  | .pointerType target _ => by
    have ih := isSome_cxxTerm target
    unfold cxxTerm at ih ⊢
    rw [creatable_pointer, ← ih, called, TypeReader.createCxxType]
    cases TypeReader.createCxxType (called names target) with
    | none => exact Iff.rfl
    | some t =>
      show (if _ then _ else _ : Option _).isSome = true ↔ _
      split <;> exact Iff.rfl
  | .referenceType target => by
    have ih := isSome_cxxTerm target
    unfold cxxTerm at ih ⊢
    rw [creatable_reference, ← ih, called, TypeReader.createCxxType]
    cases TypeReader.createCxxType (called names target) <;> exact Iff.rfl
  | .arrayType target _ _ => by
    have ih := isSome_cxxTerm target
    unfold cxxTerm at ih ⊢
    rw [creatable_array, ← ih, called, TypeReader.createCxxType]
    cases TypeReader.createCxxType (called names target) <;> exact Iff.rfl
  | .classType _ _ => Iff.rfl
  | .enumerationType _ _ => Iff.rfl
  | .functionType returns types _ => by
    have ih := isSome_cxxTerm returns
    have ihs := isSome_cxxTerms types
    unfold cxxTerm Creatable at ih ⊢
    rw [called, SourceType.plain, TypeReader.createCxxType, TypeReader.createCxxType]
    exact isSome_both.trans ((and_congr ih ihs).trans isSome_both.symm)
  | .methodType c returns types _ => by
    have ih := isSome_cxxTerm returns
    have ihs := isSome_cxxTerms types
    unfold cxxTerm Creatable at ih ⊢
    rw [called, SourceType.plain, TypeReader.createCxxType, TypeReader.createCxxType]
    exact isSome_both.trans ((and_congr ih ihs).trans isSome_both.symm)
  | .offsetType _ memberType _ => by
    have ih := isSome_cxxTerm memberType
    unfold cxxTerm at ih ⊢
    rw [creatable_offset, ← ih, called, TypeReader.createCxxType]
    cases TypeReader.createCxxType (called names memberType) <;> exact Iff.rfl

theorem isSome_cxxTerms : ∀ ts : List SourceType,
    (TypeReader.createCxxTypes (allCalled names ts)).isSome ↔
      (TypeReader.createCxxTypes (plainTypes ts)).isSome
  | [] => Iff.rfl
  | t :: ts => by
    have ih := isSome_cxxTerm t
    have ihs := isSome_cxxTerms ts
    unfold cxxTerm Creatable at ih
    rw [allCalled, plainTypes, TypeReader.createCxxTypes, TypeReader.createCxxTypes]
    exact isSome_both.trans ((and_congr ih ihs).trans isSome_both.symm)

end

end Types

section Objects

variable {types : TypeRef → SourceType} {items : List Item} {rank : Text → Nat}
  {s : Representation}

/-- The objects of a representation are those for the entries of a dump. -/
def HasObjects (s : Representation) (types : TypeRef → SourceType) (items : List Item) : Prop :=
  ∀ entry ∈ entries items,
    s.getSourceObject (nodeId entry.index) = some (entryObject types (fileName items) entry)

/-- What the object for a declaration is called, and where it is. -/
def objectNamed (items : List Item) (d : Declaration) : Named :=
  { namedFor (fileName items) d with name := objectName d }

theorem asNamed_objectFor (d : Declaration) :
    asNamed (objectFor types (fileName items) d) = some (objectNamed items d) := by
  cases d <;> rfl

/-- The declaration that a declaration is in, which is dumped before. -/
theorem context_entry (h : WellFormedDump items rank) {d : Declaration}
    (hd : .declaration d ∈ entries items) {c : Context} (hc : d.decl.context = some c) :
    ∃ outer, .declaration outer ∈ entries items ∧ outer.decl.index = c.index ∧
      rank (nodeId c.index) < rank (nodeId d.decl.index) := by
  have hwf : WellFormedDeclaration items d := h.entry _ hd
  have hfollowed : nodeId c.index ∈ followed (.declaration d) := by
    apply List.mem_append_left
    apply List.mem_append_left
    rw [hc]
    exact List.mem_cons_self
  obtain ⟨target, htarget, hid, hscope⟩ := hwf.context c hc
  have hindex : target.index = c.index := nodeId_injective hid
  have hless := h.descends _ hd _ hfollowed
  rcases hscope with hscope | hscope
  · obtain ⟨outer⟩ := hscope
    exact ⟨_, htarget, hindex, hless⟩
  · obtain ⟨outer⟩ := hscope
    exact ⟨_, htarget, hindex, hless⟩

/-- `GetQualifiedName` comes to an end at the outermost context. -/
theorem exists_qualifiedName (h : WellFormedDump items rank) (hs : HasObjects s types items)
    {d : Declaration} (hd : .declaration d ∈ entries items) : ∃ name,
    QualifiedName items d.decl.index name ∧
      Enough fun fuel => getQualifiedName s fuel (objectNamed items d) = some name := by
  induction hrank : rank (nodeId d.decl.index) using Nat.strong_induction_on generalizing d with
  | _ n ih =>
    cases hcontext : d.decl.context with
    | none =>
      refine ⟨_, .outermost hd hcontext, Enough.of_succ fun fuel => ?_⟩
      have hnone : (objectNamed items d).context = none := by
        show d.decl.context.map _ = none
        rw [hcontext]
        rfl
      rw [getQualifiedName, hnone]
      rfl
    | some c =>
      obtain ⟨outer, houter, hindex, hless⟩ := context_entry h hd hcontext
      rw [hrank, ← hindex] at hless
      obtain ⟨context, hqualified, henough⟩ := ih _ hless houter rfl
      rw [hindex] at hqualified
      refine ⟨_, .inside hd hcontext hqualified, henough.step fun fuel hfuel => ?_⟩
      have hsome : (objectNamed items d).context = some (nodeId outer.decl.index) := by
        show d.decl.context.map _ = _
        rw [hcontext, hindex]
        rfl
      have hobject : s.getSourceObject (nodeId outer.decl.index) =
          some (objectFor types (fileName items) outer) := hs _ houter
      rw [getQualifiedName, hsome]
      simp only [hobject, asNamed_objectFor, hfuel, Option.bind_eq_bind, Option.bind_some]
      rfl

/-- These are the names that the objects of a dump have. -/
structure Names (s : Representation) (items : List Item) (names : Text → Text) : Prop where
  qualified : ∀ d, .declaration d ∈ entries items →
    QualifiedName items d.decl.index (names (nodeId d.decl.index))
  found : ∀ d, .declaration d ∈ entries items → Enough fun fuel =>
    getQualifiedName s fuel (objectNamed items d) = some (names (nodeId d.decl.index))

theorem exists_names (h : WellFormedDump items rank) (hs : HasObjects s types items) :
    ∃ names, Names s items names := by
  have hname : ∀ id, ∃ name, ∀ d, .declaration d ∈ entries items → nodeId d.decl.index = id →
      QualifiedName items d.decl.index name ∧
        Enough fun fuel => getQualifiedName s fuel (objectNamed items d) = some name := by
    intro id
    by_cases hid : ∃ d, .declaration d ∈ entries items ∧ nodeId d.decl.index = id
    · obtain ⟨d, hd, rfl⟩ := hid
      obtain ⟨name, hname⟩ := exists_qualifiedName h hs hd
      refine ⟨name, fun d' hd' hindex => ?_⟩
      have hsame : Entry.declaration d' = .declaration d :=
        entry_eq h hd' hd (nodeId_injective hindex)
      obtain rfl := Entry.declaration.inj hsame
      exact hname
    · exact ⟨[], fun d hd hindex => absurd ⟨d, hd, hindex⟩ hid⟩
  choose names hnames using hname
  exact ⟨names, fun d hd => (hnames _ d hd rfl).1, fun d hd => (hnames _ d hd rfl).2⟩

/-- A class or an enumeration that is dumped. -/
def Declared (items : List Item) (id : Text) : Prop :=
  ∃ d, .declaration d ∈ entries items ∧ nodeId d.decl.index = id

theorem mem_allClassIds {id : Text} : ∀ {ts : List SourceType}, id ∈ allClassIds ts →
    ∃ t ∈ ts, id ∈ classIds t
  | t :: ts, h => by
    rcases List.mem_append.mp h with h | h
    · exact ⟨t, List.mem_cons_self, h⟩
    · obtain ⟨t', ht', hid⟩ := mem_allClassIds h
      exact ⟨t', List.mem_cons_of_mem _ ht', hid⟩

theorem classIds_withQualifiers {type type' : SourceType} {quals : Quals}
    (h : withQualifiers type quals = some type') : classIds type' = classIds type := by
  cases type with
  | null | referenceType | functionType | methodType => cases h
  | fundamentalType | pointerType | arrayType | classType | enumerationType | offsetType =>
    obtain rfl := Option.some.inj h
    rfl

/-- A class that a member pointer or a method type refers to. -/
theorem declared_basetype (h : WellFormedDump items rank) {t : TypeNode}
    (ht : .typeNode t ∈ entries items) {c : Nat} (hc : shapeBasetype t.shape = some c) :
    Declared items (nodeId c) := by
  have hwf : WellFormedType items t := h.entry _ ht
  obtain ⟨target, htarget, hid, hrecord⟩ := hwf.basetype c hc
  obtain ⟨r⟩ := hrecord
  exact ⟨_, htarget, hid⟩

theorem declared_of_below (h : WellFormedDump items rank) {entry : Entry}
    (hentry : entry ∈ entries items)
    (hbelow : ∀ t ∈ followedTypes entry, ∀ id ∈ classIds (types t), Declared items id)
    {type : SourceType} (htype : (entryObject types (fileName items) entry).typeOf = some type) :
    ∀ id ∈ classIds type, Declared items id := by
  cases entry with
  | declaration d =>
    cases d with
    | typedef d =>
      obtain rfl := Option.some.inj htype
      exact hbelow _ List.mem_cons_self
    | record d | enumeral d =>
      obtain rfl := Option.some.inj htype
      exact List.forall_mem_singleton.mpr ⟨_, hentry, rfl⟩
    | namespaceDecl | namespaceAlias | function | var | field => cases htype
  | typeNode t =>
    have hargs : ∀ argTypes : List ArgType, (∀ ref ∈ argTypes.map ArgType.value,
        ∀ id ∈ classIds (types ref), Declared items id) →
        ∀ id ∈ allClassIds (argumentsFor types argTypes).1, Declared items id := by
      intro argTypes hrefs id hid
      obtain ⟨type, htype, hid⟩ := mem_allClassIds hid
      obtain ⟨a, ha, rfl⟩ := List.mem_map.mp htype
      obtain ⟨hnone, hvalue⟩ := mem_printedArguments_nil ha
      rw [argumentType, hnone] at hid
      exact hrefs _ (List.mem_map_of_mem hvalue) id hid
    have hbase : ∀ c, shapeBasetype t.shape = some c → Declared items (nodeId c) :=
      fun c hc => declared_basetype h hentry hc
    obtain rfl := Option.some.inj htype
    have hrefs : ∀ ref ∈ shapeRefs t.shape, ∀ id ∈ classIds (types ref), Declared items id := hbelow
    cases hshape : t.shape with
    | fundamental n => exact fun id hid => absurd hid List.not_mem_nil
    | pointer target => exact hrefs target (by simp [hshape, shapeRefs])
    | reference target => exact hrefs target (by simp [hshape, shapeRefs])
    | array max element => exact hrefs element (by simp [hshape, shapeRefs])
    | offset basetype type =>
      have hc := hbase basetype (by rw [hshape]; rfl)
      have htype := hrefs type (by simp [hshape, shapeRefs])
      exact List.forall_mem_cons.mpr ⟨hc, htype⟩
    | function returns argTypes voidTerminated =>
      rw [hshape] at hrefs
      obtain ⟨hreturns, hrest⟩ := List.forall_mem_cons.mp hrefs
      exact List.forall_mem_append.mpr ⟨hreturns, hargs argTypes hrest⟩
    | method basetype returns quals argTypes voidTerminated =>
      have hc := hbase basetype (by rw [hshape]; rfl)
      rw [hshape] at hrefs
      obtain ⟨hreturns, hrest⟩ := List.forall_mem_cons.mp hrefs
      have hall := List.forall_mem_append.mpr ⟨hreturns, hargs argTypes hrest⟩
      exact List.forall_mem_cons.mpr ⟨hc, hall⟩

theorem declared_types (h : WellFormedDump items rank)
    (hdenotes : Denotes types (fileName items) items) {entry : Entry}
    (hentry : entry ∈ entries items) :
    ∀ t ∈ followedTypes entry, ∀ id ∈ classIds (types t), Declared items id :=
  types_induction (P := fun type => ∀ id ∈ classIds type, Declared items id) h hdenotes
    (fun _ hentry hbelow _ => declared_of_below h hentry hbelow)
    (fun _ _ _ hquals hids => classIds_withQualifiers hquals ▸ hids) hentry

/-- A class type is that of a record. -/
theorem record_of_classType (h : WellFormedDump items rank)
    (hdenotes : Denotes types (fileName items) items) {entry : Entry}
    (hentry : entry ∈ entries items) : ∀ t ∈ followedTypes entry, ∀ c quals,
      types t = .classType c quals →
        ∃ r, .declaration (.record r) ∈ entries items ∧ nodeId r.index = c := by
  refine types_induction (P := fun type => ∀ c quals, type = .classType c quals →
    ∃ r, .declaration (.record r) ∈ entries items ∧ nodeId r.index = c) h hdenotes ?_ ?_ hentry
  · intro entry hentry hbelow type htype c quals heq
    subst heq
    cases entry with
    | declaration d =>
      cases d with
      | typedef d => exact hbelow _ List.mem_cons_self c quals (Option.some.inj htype)
      | record r =>
        have hid : nodeId r.index = c := (SourceType.classType.inj (Option.some.inj htype)).1
        exact ⟨r, hentry, hid⟩
      | enumeral | namespaceDecl | namespaceAlias | function | var | field => cases htype
    | typeNode t =>
      have hshape : typeFor types t.shape = .classType c quals := Option.some.inj htype
      cases hcase : t.shape <;> rw [hcase] at hshape <;> cases hshape
  · intro type quals type' hqualified htype c quals' heq
    subst heq
    cases type with
    | classType c' quals'' =>
      obtain ⟨rfl, -⟩ := SourceType.classType.inj (Option.some.inj hqualified)
      exact htype _ _ rfl
    | null | referenceType | functionType | methodType | fundamentalType | pointerType
    | arrayType | enumerationType | offsetType => cases hqualified

theorem nestedRecord_iff (h : WellFormedDump items rank) {r : RecordType}
    (hr : .declaration (.record r) ∈ entries items) : nestedRecord items (nodeId r.index) ↔
      ∃ c outer, r.context = some c ∧ .declaration (.record outer) ∈ entries items ∧
        outer.index = c.index := by
  constructor
  · intro hnested
    obtain ⟨entry, hentry, htrue⟩ := List.any_eq_true.mp hnested
    split at htrue
    · rename_i r'
      obtain ⟨hid, hcontext⟩ := Bool.and_eq_true_iff.mp htrue
      have hsame : Entry.declaration (.record r') = .declaration (.record r) :=
        entry_eq h hentry hr (nodeId_injective (of_decide_eq_true hid))
      obtain rfl := Declaration.record.inj (Entry.declaration.inj hsame)
      obtain ⟨c, hc, hany⟩ := (Option.any_eq_true _ _).mp hcontext
      obtain ⟨entry', hentry', htrue'⟩ := List.any_eq_true.mp hany
      split at htrue'
      · rename_i outer
        exact ⟨c, outer, hc, hentry', of_decide_eq_true htrue'⟩
      · cases htrue'
    · cases htrue
  · rintro ⟨c, outer, hc, houter, hindex⟩
    refine List.any_eq_true.mpr ⟨_, hr, ?_⟩
    simp only [decide_true, Bool.true_and, hc, Option.any_some]
    exact List.any_eq_true.mpr ⟨_, houter, decide_eq_true hindex⟩

/-- The source object of a record tells whether the record is nested. -/
theorem isNested_record (h : WellFormedDump items rank) (hs : HasObjects s types items)
    {r : RecordType} (hr : .declaration (.record r) ∈ entries items) :
    isNested s (nodeId r.index) = nestedRecord items (nodeId r.index) := by
  have hobject : s.getSourceObject (nodeId r.index) =
      some (objectFor types (fileName items) (.record r)) := hs _ hr
  have hcontext : (objectNamed items (.record r)).context = r.context.map fun c => nodeId c.index :=
    rfl
  apply Bool.eq_iff_iff.mpr
  rw [nestedRecord_iff h hr, isNested, hobject, Option.bind_some, asNamed_objectFor,
    Option.bind_some, hcontext]
  cases hc : r.context with
  | none => simp
  | some c =>
    obtain ⟨outer, houter, hindex, -⟩ := context_entry h hr hc
    have houterObject : s.getSourceObject (nodeId c.index) =
        some (objectFor types (fileName items) outer) := hindex ▸ hs _ houter
    rw [Option.map_some, Option.bind_some, houterObject, Option.any_some]
    constructor
    · intro hclass
      cases outer with
      | record outer => exact ⟨c, outer, rfl, houter, hindex⟩
      | namespaceDecl | namespaceAlias | typedef | function | var | field | enumeral =>
        cases hclass
    · rintro ⟨c', outer', hc', houter', hindex'⟩
      obtain rfl := Option.some.inj hc'
      have hsame : Entry.declaration outer = .declaration (.record outer') :=
        entry_eq h houter houter' (hindex.trans hindex'.symm)
      obtain rfl := Entry.declaration.inj hsame
      rfl

end Objects

section Methods

variable {types : TypeRef → SourceType} {items : List Item} {rank : Text → Nat}
  {s : Representation} {names : Text → Text} {w : Settings}

/-- The method that is read for a function. -/
def readMethod (types : TypeRef → SourceType) (items : List Item) (d : FunctionDecl) : Method where
  functionId := functionKind d.tag
  named := namedFor (fileName items) (.function d)
  flags := functionFlags d
  returns := if d.tag.doReturns then types d.returns else voidType
  arguments := (functionArguments d).map fun a => types (argumentType a)

/-- The node for the method that is read is the one for the function. -/
theorem methodNode_readMethod {d : FunctionDecl} (hwrapped : isWrapped items types d = true)
    (hshows : ShowsQualities d) (className cname : Text) :
    methodNode (typeText w names) className cname (readMethod types items d)
      (declaredAccess d.toDecl) = declaredNode items types names w className cname d := by
  have harguments : (readMethod types items d).arguments.map (typeText w names) =
      (functionArguments d).map fun a => typeText w names (types (argumentType a)) := List.map_map
  unfold methodNode
  rw [harguments]
  unfold newNode declaredNode readMethod functionFlags getCallName
  cases htag : d.tag with
  | constructor | destructor =>
    have hconst : d.constMemfunc = false := by simpa [htag] using hshows.const
    have hpure : d.pureVirtual = false := by simpa [htag] using hshows.pureVirtual
    simp [functionKind, FunctionTag.doReturns, hconst, hpure, namedFor]
  | operatorMethod =>
    have hvirtual : d.isVirtual = false := by simpa [htag] using hshows.isVirtual
    have hpure : d.pureVirtual = false := by simpa [htag] using hshows.pureVirtual
    cases hthis : d.nonstaticMember <;>
      simp [functionKind, FunctionTag.doReturns, hvirtual, hpure, namedFor]
  | method =>
    have hpure : d.pureVirtual = true → d.isVirtual = true := fun h => (hshows.pureVirtual h).2
    cases hthis : d.nonstaticMember with
    | false =>
      have hvirtual : d.isVirtual = false := by simpa [hthis] using d.virtual_nonstatic
      have hbody : d.pureVirtual = false := by simpa [hvirtual] using hpure
      simp [functionKind, FunctionTag.doReturns, hvirtual, hbody, namedFor]
    | true =>
      cases hvirtual : d.isVirtual with
      | false =>
        have hbody : d.pureVirtual = false := by simpa [hvirtual] using hpure
        simp [functionKind, FunctionTag.doReturns, hbody, namedFor]
      | true => simp [functionKind, FunctionTag.doReturns, namedFor]
  | converter | operatorFunction | function => simp [isWrapped, htag] at hwrapped

/-- Of the methods that are read, those without a body are the pure virtual ones. -/
theorem isPure_readMethod {d : FunctionDecl} (hshows : ShowsQualities d) :
    isPure (readMethod types items d) = d.pureVirtual := by
  have hpure := hshows.pureVirtual
  unfold isPure readMethod functionFlags
  cases htag : d.tag with
  | method =>
    cases hbody : d.pureVirtual with
    | false => simp [functionKind]
    | true => simp [functionKind, (hpure hbody).2]
  | constructor | destructor | converter | operatorMethod | operatorFunction | function =>
    have hbody : d.pureVirtual = false := by simpa [htag] using hpure
    simp [functionKind, hbody]

/-- Where all classes are known, a type that can be created has its text. -/
theorem swigTypeOf_total (hs : HasObjects s types items) (hnames : Names s items names)
    {type : SourceType} (hids : ∀ id ∈ classIds type, Declared items id)
    (hcreatable : Creatable type) :
    Enough fun fuel => swigTypeOf w s fuel type = some (typeText w names type) := by
  have hsome : (cxxTerm names type).isSome := (isSome_cxxTerm type).mpr hcreatable
  obtain ⟨term, hterm⟩ := Option.isSome_iff_exists.mp hsome
  have hfound : Enough fun fuel => ∀ id ∈ classIds type,
      qualifiedName s fuel id = some (names id) := by
    refine Enough.forall_mem (classIds type) fun id hid => ?_
    obtain ⟨d, hd, rfl⟩ := hids id hid
    refine (hnames.found d hd).mono fun fuel hfuel => ?_
    have hobject : s.getSourceObject (nodeId d.decl.index) =
        some (objectFor types (fileName items) d) := hs _ hd
    simp only [qualifiedName, hobject, asNamed_objectFor, Option.bind_eq_bind, Option.bind_some]
    exact hfuel
  refine (hfound.and (toSwigType_total w.nativeStringName term)).mono fun fuel hfuel => ?_
  have hcxx : getCxxType s fuel type = some term := by
    rw [getCxxType, withNames_eq type hfuel.1]
    exact hterm
  rw [swigTypeOf, hcxx, typeText, hterm]
  exact hfuel.2

/-- The types of a function that is read are known and can be created. -/
theorem hasTexts_readMethod (h : WellFormedDump items rank) (hs : HasObjects s types items)
    (hdenotes : Denotes types (fileName items) items) (hnames : Names s items names)
    {d : FunctionDecl} (hd : .declaration (.function d) ∈ entries items) :
    Enough fun fuel => HasTexts w s fuel (typeText w names) (readMethod types items d) := by
  have href : ∀ t ∈ typeRefs (.function d), Enough fun fuel =>
      swigTypeOf w s fuel (types t) = some (typeText w names (types t)) := fun t ht =>
    swigTypeOf_total hs hnames (declared_types h hdenotes hd t ht)
      (creatable_types_of_entry h hdenotes hd t ht)
  refine Enough.forall_mem _ fun type htype => ?_
  rcases List.mem_cons.mp htype with rfl | htype
  · have hreturns : (readMethod types items d).returns =
        if d.tag.doReturns then types d.returns else voidType := rfl
    rw [hreturns]
    split
    · rename_i hreturns
      apply href
      rw [typeRefs, if_pos hreturns]
      exact List.mem_cons_self
    · have hnone : ∀ id ∈ classIds voidType, Declared items id :=
        fun id hid => absurd hid List.not_mem_nil
      exact swigTypeOf_total hs hnames hnone creatable_void
  · obtain ⟨a, ha, rfl⟩ := List.mem_map.mp htype
    apply href
    exact List.mem_append_right _ (List.mem_map_of_mem ha)

theorem returnsNested_readMethod (h : WellFormedDump items rank) (hs : HasObjects s types items)
    (hdenotes : Denotes types (fileName items) items) {d : FunctionDecl}
    (hd : .declaration (.function d) ∈ entries items) :
    returnsNested s (readMethod types items d) = returnsNestedRecord items types d := by
  unfold returnsNested returnsNestedRecord readMethod
  cases hreturns : d.tag.doReturns with
  | false => rfl
  | true =>
    have href : d.returns ∈ typeRefs (.function d) := by
      rw [typeRefs, if_pos hreturns]
      exact List.mem_cons_self
    rw [if_pos rfl, Bool.true_and]
    cases htype : types d.returns with
    | classType c quals =>
      obtain ⟨r, hr, rfl⟩ := record_of_classType h hdenotes hd _ href c quals htype
      exact isNested_record h hs hr
    | null | fundamentalType | pointerType | referenceType | arrayType | enumerationType
    | functionType | methodType | offsetType => rfl

/-- Of the declarations in a class, the loop for one access takes the functions that are wrapped and
have that access. -/
theorem wrappedMethod_entry (h : WellFormedDump items rank) (hs : HasObjects s types items)
    (hdenotes : Denotes types (fileName items) items) {d : Declaration}
    (hd : .declaration d ∈ entries items) (access : Access) :
    wrappedMethod s access (memberName d, declaredAccess d.decl, nodeId d.decl.index) =
      match d with
      | .function f =>
        if declaredAccess f.toDecl = access ∧ isWrapped items types f then
          some (readMethod types items f)
        else none
      | _ => none := by
  have hobject : s.getSourceObject (nodeId d.decl.index) =
      some (objectFor types (fileName items) d) := hs _ hd
  rw [wrappedMethod, hobject, Option.bind_some]
  cases d with
  | namespaceDecl | namespaceAlias | typedef | var | field | record | enumeral => rfl
  | function f =>
    have hnested := returnsNested_readMethod h hs hdenotes hd
    have hmethod : asMethod (objectFor types (fileName items) (.function f)) =
        if f.tag = .operatorFunction ∨ f.tag = .function then none
        else some (readMethod types items f) := by
      show (if _ then none else _) = _
      unfold readMethod
      cases f.tag <;> rfl
    have hskips : skipsMethod s (readMethod types items f) access =
        (f.tag = .converter || returnsNestedRecord items types f ||
          (f.tag = .destructor && access = .Public)) := by
      rw [skipsMethod, hnested]
      unfold readMethod
      cases f.tag <;> rfl
    have hnoReturn : f.tag.doReturns = false → returnsNestedRecord items types f = false := by
      intro hfalse
      rw [returnsNestedRecord, hfalse, Bool.false_and]
    show Option.filter (fun mth => declaredAccess f.toDecl = access && ! skipsMethod s mth access)
      (asMethod _) = _
    rw [hmethod]
    cases htag : f.tag with
    | operatorFunction | function => simp [isWrapped, htag]
    | converter => simp [Option.filter, hskips, isWrapped, htag]
    | constructor =>
      have hfalse := hnoReturn (by rw [htag]; rfl)
      simp [Option.filter, hskips, isWrapped, htag, hfalse]
    | destructor =>
      have hfalse := hnoReturn (by rw [htag]; rfl)
      by_cases haccess : declaredAccess f.toDecl = access
      · subst haccess
        simp [Option.filter, hskips, isWrapped, htag, hfalse]
      · simp [Option.filter, haccess]
    | method | operatorMethod => simp [Option.filter, hskips, isWrapped, htag]

end Methods

section Results

variable {types : TypeRef → SourceType} {items : List Item} {rank : Text → Nat}
  {s : Representation} {names : Text → Text} {w : Settings}

/-- The nodes for methods among the nodes below a class. -/
def methodsOf (children : List SwigNode) : List MethodNode :=
  children.filterMap fun
    | .access _ => none
    | .method m => some m

/-- What the node of a class is to be: behind the node of each access come the nodes for the
functions of the class that are wrapped and have this access, in the order of their names. The
abstract ones are those that were declared pure virtual. -/
structure WrapsRecord (items : List Item) (types : TypeRef → SourceType) (names : Text → Text)
    (w : Settings) (r : RecordType) (td : Option Text) (sc : SwigClass) : Prop where
  classNames : (sc.scopeName, sc.name) = declaredNames items names w r td
  children : ∃ members : List Entry,
    members.Perm ((entries items).filter (isDeclaredIn r.index)) ∧
    members.Pairwise (fun a b => stringLess (entryName b) (entryName a) = false) ∧
    (sc.children = accessOrder.flatMap fun access =>
      SwigNode.access (accessName access) ::
        (members.filterMap
          (declaredMethod items types names w sc.name sc.scopeName access)).map .method) ∧
    sc.abstract = accessOrder.flatMap fun access =>
      (members.filter isPureVirtual).filterMap
        (declaredMethod items types names w sc.name sc.scopeName access)
  symbols : sc.symbols.map Prod.snd = methodsOf sc.children
  python : w.wrapLanguage = "python" → ∀ symbol ∈ sc.symbols, symbol.1 ≠ "print".toList
  java : w.wrapLanguage = "java" → ∀ symbol ∈ sc.symbols, symbol.1 ≠ "New".toList
  noassign : sc.noassign ↔ ∀ entry ∈ entries items, isDeclaredIn r.index entry = false

def memberTriple : Entry → Text × Access × Text
  | .declaration d => (memberName d, declaredAccess d.decl, nodeId d.decl.index)
  | .typeNode t => ([], .Public, nodeId t.index)

theorem memberOf_eq (index : Nat) (entry : Entry) : memberOf (nodeId index) entry =
    if isDeclaredIn index entry then some (memberTriple entry) else none := by
  cases entry with
  | typeNode t => rfl
  | declaration d =>
    rw [memberOf, isDeclaredIn]
    cases d.decl.context with
    | none => rfl
    | some c =>
      by_cases hc : c.index = index
      · simp [hc, memberTriple]
      · have hne : nodeId c.index ≠ nodeId index := fun heq => hc (nodeId_injective heq)
        simp [hc, hne]

theorem filterMap_memberOf (index : Nat) (l : List Entry) :
    l.filterMap (memberOf (nodeId index)) = (l.filter (isDeclaredIn index)).map memberTriple := by
  induction l with
  | nil => rfl
  | cons entry l ih =>
    cases hdeclared : isDeclaredIn index entry with
    | true =>
      have hsome : memberOf (nodeId index) entry = some (memberTriple entry) := by
        rw [memberOf_eq, if_pos hdeclared]
      rw [List.filterMap_cons_some hsome, List.filter_cons_of_pos hdeclared, ih, List.map_cons]
    | false =>
      have hnone : memberOf (nodeId index) entry = none := by
        rw [memberOf_eq, if_neg (by simp [hdeclared])]
      rw [List.filterMap_cons_none hnone, List.filter_cons_of_neg (by simp [hdeclared]), ih]

/-- The members in their order are the declarations in the class. -/
theorem exists_members (index : Nat)
    (hperm : (s.memberMap (nodeId index)).Perm ((entries items).filterMap
      (memberOf (nodeId index)))) : ∃ members : List Entry,
    members.Perm ((entries items).filter (isDeclaredIn index)) ∧
      membersInOrder s (nodeId index) = members.map memberTriple := by
  have hsorted := (List.perm_insertionSort (fun a b : Text × Access × Text =>
    ¬ stringLess b.1 a.1) (s.memberMap (nodeId index))).trans hperm
  rw [filterMap_memberOf] at hsorted
  have hcomp := congrFun (congrFun (List.eq_map_comp_perm memberTriple) (membersInOrder s
    (nodeId index))) ((entries items).filter (isDeclaredIn index))
  obtain ⟨members, heq, hmembers⟩ := hcomp.mpr hsorted
  exact ⟨members, hmembers, heq⟩

/-- The method that is read for an entry, if a node is made for it in the loop for one access. -/
def readEntry (types : TypeRef → SourceType) (items : List Item) (access : Access) :
    Entry → Option Method
  | .declaration (.function f) =>
    if declaredAccess f.toDecl = access ∧ isWrapped items types f then
      some (readMethod types items f)
    else none
  | _ => none

/-- The functions of a class that can be wrapped have no other qualities than are read. -/
def ShowsAll (items : List Item) (index : Nat) : Prop :=
  ∀ d, .declaration (.function d) ∈ entries items →
    isDeclaredIn index (.declaration (.function d)) → isWrappable d → ShowsQualities d

theorem isWrappable_of_isWrapped {d : FunctionDecl} (h : isWrapped items types d = true) :
    isWrappable d = true := by
  unfold isWrapped at h
  unfold isWrappable
  cases htag : d.tag <;> simp_all

theorem declaredMethod_eq {index : Nat} (hshows : ShowsAll items index) {entry : Entry}
    (hentry : entry ∈ entries items) (hdeclared : isDeclaredIn index entry)
    (className cname : Text) (access : Access) :
    declaredMethod items types names w className cname access entry =
      (readEntry types items access entry).map fun mth =>
        methodNode (typeText w names) className cname mth access := by
  unfold declaredMethod readEntry
  split
  · rename_i f
    by_cases hwrapped : declaredAccess f.toDecl = access ∧ isWrapped items types f
    · have hquality := hshows f hentry hdeclared (isWrappable_of_isWrapped hwrapped.2)
      rw [if_pos hwrapped, if_pos hwrapped, Option.map_some, ← hwrapped.1,
        methodNode_readMethod hwrapped.2 hquality]
    · rw [if_neg hwrapped, if_neg hwrapped]
      rfl
  · rfl

/-- The nodes of the methods without a body are those of the pure virtual functions. -/
theorem pureNodes_eq {index : Nat} (hshows : ShowsAll items index) {members : List Entry}
    (hmembers : ∀ entry ∈ members, entry ∈ entries items ∧ isDeclaredIn index entry)
    (className cname : Text) (access : Access) :
    methodNodes (typeText w names) className cname access
        ((members.filterMap (readEntry types items access)).filter isPure) =
      (members.filter isPureVirtual).filterMap
        (declaredMethod items types names w className cname access) := by
  rw [methodNodes, List.filter_filterMap, List.map_filterMap, List.filterMap_filter]
  refine List.filterMap_congr fun entry hentry => ?_
  obtain ⟨hmem, hdeclared⟩ := hmembers entry hentry
  rw [declaredMethod_eq hshows hmem hdeclared]
  unfold readEntry
  split
  · rename_i f
    by_cases hwrapped : declaredAccess f.toDecl = access ∧ isWrapped items types f
    · have hquality := hshows f hmem hdeclared (isWrappable_of_isWrapped hwrapped.2)
      rw [if_pos hwrapped, Option.filter_some, isPure_readMethod hquality, isPureVirtual]
      cases f.pureVirtual <;> rfl
    · rw [if_neg hwrapped]
      simp
  · simp

/-- The loop for one access finds the functions of that access among the declarations. -/
theorem wrappedMethods_eq (h : WellFormedDump items rank) (hs : HasObjects s types items)
    (hdenotes : Denotes types (fileName items) items) {index : Nat} {members : List Entry}
    (hperm : members.Perm ((entries items).filter (isDeclaredIn index)))
    (horder : membersInOrder s (nodeId index) = members.map memberTriple) (access : Access) :
    wrappedMethods s (nodeId index) access = members.filterMap (readEntry types items access) := by
  rw [wrappedMethods, horder, List.filterMap_map]
  refine List.filterMap_congr fun entry hentry => ?_
  obtain ⟨hmem, hdeclared⟩ := List.mem_filter.mp (hperm.mem_iff.mp hentry)
  cases entry with
  | typeNode t => cases hdeclared
  | declaration d =>
    refine (wrappedMethod_entry h hs hdenotes hmem access).trans ?_
    cases d <;> rfl

theorem hasTexts_readEntry (h : WellFormedDump items rank) (hs : HasObjects s types items)
    (hdenotes : Denotes types (fileName items) items) (hnames : Names s items names)
    {entry : Entry} (hentry : entry ∈ entries items) :
    Enough fun fuel => ∀ access, ∀ mth ∈ readEntry types items access entry,
      HasTexts w s fuel (typeText w names) mth := by
  unfold readEntry
  split
  · rename_i f
    have htexts : Enough fun fuel =>
        HasTexts w s fuel (typeText w names) (readMethod types items f) :=
      hasTexts_readMethod h hs hdenotes hnames hentry
    refine htexts.mono fun fuel hfuel access mth hmth => ?_
    split at hmth
    · obtain rfl := Option.some.inj hmth
      exact hfuel
    · cases hmth
  · exact ⟨0, fun fuel _ access mth hmth => by cases hmth⟩

theorem getClassName_total (named : Named) (td : Option Text) : Enough fun fuel =>
    getClassName w fuel named td = some (td.getD (if '<' ∈ named.name then
      translatedText w.nativeStringName named.name else named.name)) := by
  cases td with
  | some td => exact ⟨0, fun _ _ => rfl⟩
  | none =>
    by_cases htemplate : '<' ∈ named.name
    · refine (templateName_total w.nativeStringName named.name).mono fun fuel hfuel => ?_
      rw [Option.getD_none, if_pos htemplate, ← hfuel]
      exact if_pos htemplate
    · refine ⟨0, fun fuel _ => ?_⟩
      rw [Option.getD_none, if_neg htemplate]
      exact if_neg htemplate

theorem methodsOf_sections (accesses : List Access) (nodes : Access → List MethodNode) :
    methodsOf (accesses.flatMap fun access =>
      SwigNode.access (accessName access) :: (nodes access).map .method) =
        accesses.flatMap nodes := by
  rw [methodsOf, List.filterMap_flatMap]
  congr 1
  funext access
  rw [List.filterMap_cons_none rfl, List.filterMap_map]
  exact List.filterMap_some

/-- The node of a class of a dump is as it is to be. -/
theorem wraps_record (h : WellFormedDump items rank) (hs : HasObjects s types items)
    (hdenotes : Denotes types (fileName items) items) (hnames : Names s items names)
    (hmembers : ∀ context, (s.memberMap context).Perm ((entries items).filterMap
      (memberOf context)))
    {r : RecordType} (hr : .declaration (.record r) ∈ entries items)
    (hshows : ShowsAll items r.index) (td : Option Text) :
    Enough fun fuel => ∃ sc, createSwigClass w s fuel (nodeId r.index) td = some sc ∧
      WrapsRecord items types names w r td sc := by
  obtain ⟨members, hperm, horder⟩ := exists_members r.index (hmembers _)
  have hwrapped := wrappedMethods_eq h hs hdenotes hperm horder
  have hobject : s.getSourceObject (nodeId r.index) =
      some (objectFor types (fileName items) (.record r)) := hs _ hr
  have hnamed : (s.getSourceObject (nodeId r.index)).bind asNamed =
      some (objectNamed items (.record r)) := by
    rw [hobject, Option.bind_some, asNamed_objectFor]
  have htexts : Enough fun fuel => ∀ access, ∀ mth ∈ wrappedMethods s (nodeId r.index) access,
      HasTexts w s fuel (typeText w names) mth := by
    have hall : Enough fun fuel => ∀ entry ∈ members, ∀ access, ∀ mth ∈ readEntry types items access
        entry, HasTexts w s fuel (typeText w names) mth := by
      refine Enough.forall_mem members fun entry hentry => ?_
      exact hasTexts_readEntry h hs hdenotes hnames (List.mem_filter.mp (hperm.mem_iff.mp hentry)).1
    refine hall.mono fun fuel hfuel access mth hmth => ?_
    rw [hwrapped access] at hmth
    obtain ⟨entry, hentry, hread⟩ := List.mem_filterMap.mp hmth
    exact hfuel entry hentry access mth hread
  have hcalls := (getClassName_total (w := w) (objectNamed items (.record r)) td).and
    ((templateName_total w.nativeStringName (memberName (.record r))).and (hnames.found _ hr))
  refine (htexts.and hcalls).mono fun fuel hfuel => ?_
  obtain ⟨htexts, htypedef, hactual, hqualified⟩ := hfuel
  obtain ⟨⟨cname, className⟩, hclassNames⟩ : ∃ pair,
      declaredNames items names w r td = pair := ⟨_, rfl⟩
  have hsame := hclassNames
  rw [declaredNames, ← isNested_record h hs hr] at hsame
  refine ⟨_, createSwigClass_eq hnamed htypedef hactual hqualified hsame htexts, ?_⟩
  have hmembersOf : ∀ entry ∈ members, entry ∈ entries items ∧ isDeclaredIn r.index entry :=
    fun entry hentry => List.mem_filter.mp (hperm.mem_iff.mp hentry)
  have hnodes : ∀ access, methodNodes (typeText w names) className cname access
      (wrappedMethods s (nodeId r.index) access) =
        members.filterMap (declaredMethod items types names w className cname access) := by
    intro access
    rw [hwrapped access, methodNodes, List.map_filterMap]
    refine List.filterMap_congr fun entry hentry => ?_
    obtain ⟨hmem, hdeclared⟩ := hmembersOf entry hentry
    exact (declaredMethod_eq hshows hmem hdeclared className cname access).symm
  constructor
  case classNames => exact hclassNames.symm
  case children =>
    refine ⟨members, hperm, ?_, ?_, ?_⟩
    · have hsorted : (membersInOrder s (nodeId r.index)).Pairwise
          fun a b => stringLess b.1 a.1 = false :=
        stringLess_strictTotal.pairwise_insertionSort Prod.fst _
      rw [horder, List.pairwise_map] at hsorted
      refine hsorted.imp fun {a b} hab => ?_
      cases a <;> cases b <;> exact hab
    · simp only [hnodes]
    · simp only [hwrapped, pureNodes_eq hshows hmembersOf]
  case symbols =>
    rw [methodsOf_sections, List.map_flatMap]
    simp only [List.map_map, methodNodes]
    rfl
  case python =>
    intro hpython symbol hsymbol
    obtain ⟨access, -, hsymbol⟩ := List.mem_flatMap.mp hsymbol
    obtain ⟨mth, -, rfl⟩ := List.mem_map.mp hsymbol
    exact symbolName_python hpython mth cname
  case java =>
    intro hjava symbol hsymbol
    obtain ⟨access, -, hsymbol⟩ := List.mem_flatMap.mp hsymbol
    obtain ⟨mth, -, rfl⟩ := List.mem_map.mp hsymbol
    exact symbolName_java hjava mth cname
  case noassign =>
    have hempty : s.memberMap (nodeId r.index) = [] ↔
        (entries items).filter (isDeclaredIn r.index) = [] := by
      have hlist := hmembers (nodeId r.index)
      rw [filterMap_memberOf] at hlist
      rw [← List.map_eq_nil_iff (f := memberTriple)]
      constructor
      · intro hnil
        exact List.nil_perm.mp (hnil ▸ hlist)
      · intro hnil
        exact List.perm_nil.mp (hnil ▸ hlist)
    show decide _ = true ↔ _
    rw [decide_eq_true_iff, hempty, List.filter_eq_nil_iff]
    simp

end Results

section Examples

theorem noBases (h : RecordTag.cls = .union) : ([] : List (Option BaseLink)) = [] := by
  cases h

/-- A class in the global namespace with a pure virtual method that takes an int and returns it. -/
def pureMethodOfClass : List Item :=
  [.entry (.declaration (.namespaceDecl { index := 1, name := some "::".toList })),
    .entry (.declaration (.record
      { index := 2, name := some "Shape".toList, context := some ⟨1, false⟩, sourceLine := 3
        tag := .cls, members := [4], pureVirtuals := true, union_bases := noBases })),
    .entry (.typeNode { index := 3, shape := .fundamental (some "int".toList) }),
    .entry (.declaration (.function
      { index := 4, name := some "area".toList, context := some ⟨2, true⟩, sourceLine := 4
        tag := .method, returns := { index := 3 }, nonstaticMember := true, constMemfunc := true
        isVirtual := true, pureVirtual := true
        arguments := [{ name := some "this".toList }, { name := some "unit".toList }]
        argTypes := [⟨{ index := 5 }, none⟩, ⟨{ index := 3 }, none⟩]
        const_nonstatic := fun _ => rfl, virtual_nonstatic := fun _ => rfl })),
    .file 0 "shape.h".toList]

theorem wellFormed_pureMethodOfClass : WellFormedDump pureMethodOfClass
    fun id => (["_1", "_2", "_3", "_4"].map String.toList).idxOf id := by
  have hns : Present pureMethodOfClass IsScope (nodeId 1) :=
    ⟨_, List.mem_cons_self, rfl, Or.inl (.namespaceDecl _)⟩
  have hrecord : Present pureMethodOfClass IsScope (nodeId 2) :=
    ⟨_, List.mem_cons_of_mem _ List.mem_cons_self, rfl, Or.inr (.record _)⟩
  have hfile : ∃ name, (0, name) ∈ files pureMethodOfClass := ⟨_, List.mem_cons_self⟩
  have hname : ("int", CxxTypes.FundamentalId.int) ∈ TypeReader.fundamentalTypeNames := by decide
  have hnil : Printable (attributesText []) := fun c hc => (by cases hc)
  have hint : .typeNode { index := 3, shape := .fundamental (some "int".toList) } ∈
      entries pureMethodOfClass :=
    List.mem_cons_of_mem _ (List.mem_cons_of_mem _ List.mem_cons_self)
  refine ⟨⟨by decide, List.nodup_singleton _⟩, List.cons_ne_nil _ _, ?_, ?_, ?_, by decide⟩
  · have hprintable : Printable "shape.h".toList := printable_of_all (by decide)
    exact List.forall_mem_singleton.mpr hprintable
  · refine List.forall_mem_cons.mpr ⟨?_, List.forall_mem_cons.mpr ⟨?_, List.forall_mem_cons.mpr
      ⟨?_, List.forall_mem_singleton.mpr ?_⟩⟩⟩
    · exact ⟨printable_texts (by decide), fun h => (by cases h), fun h => (by cases h),
        fun c h => (by cases h), fun a h => (by cases h), fun r h => (by cases h),
        fun f h => (by cases h)⟩
    · refine ⟨printable_texts (by decide), fun _ => (by decide), fun _ => hfile, fun c h => ?_,
        fun a h => (by cases h), fun r h => ?_, fun f h => (by cases h)⟩
      · exact Option.some.inj h ▸ hns
      · cases h
        exact fun id hid => (by cases hid)
    · refine ⟨hnil, fun n h => ?_, fun c h => (by cases h)⟩
      cases h
      exact ⟨_, hname, rfl⟩
    · refine ⟨printable_texts (by decide), fun _ => (by decide), fun _ => hfile, fun c h => ?_,
        fun a h => (by cases h), fun r h => (by cases h), fun f h => (by cases h)⟩
      exact Option.some.inj h ▸ hrecord
  · refine List.forall_mem_cons.mpr ⟨?_, List.forall_mem_cons.mpr ⟨?_, List.forall_mem_cons.mpr
      ⟨?_, List.forall_mem_singleton.mpr ?_⟩⟩⟩
    · exact fun t ht => (by cases ht)
    · exact fun t ht => (by cases ht)
    · exact fun t ht => (by cases ht)
    · intro t ht
      have heq : t = { index := 3 } := by
        rcases List.mem_cons.mp ht with heq | ht
        · exact heq
        · exact List.mem_singleton.mp ht
      subst heq
      exact ⟨_, hint, rfl, .typeNode _, fun h => absurd rfl h⟩

theorem showsAll_pureMethodOfClass (index : Nat) : ShowsAll pureMethodOfClass index := by
  have hall : ∀ d, .declaration (.function d) ∈ entries pureMethodOfClass →
      d.tag = .method ∧ d.isVirtual = true := by
    intro d hd
    simp only [entries, pureMethodOfClass, List.filterMap_cons, List.filterMap_nil,
      List.mem_cons, List.not_mem_nil, or_false, Entry.declaration.injEq, reduceCtorEq,
      Declaration.function.injEq, false_or] at hd
    subst hd
    exact ⟨rfl, rfl⟩
  intro d hd _ _
  obtain ⟨htag, hvirtual⟩ := hall d hd
  exact ⟨fun _ => Or.inl htag, fun _ => by simp [htag], fun _ => ⟨htag, hvirtual⟩⟩

end Examples

section Wrapping

variable {demangle : Text → Option Text} {items : List Item} {rank : Text → Nat}

/-- In the representation that is read from the document for a well-formed dump, `CreateSwigClass`
returns for each class and each typedef, and its node has one node for each method that was declared
in the class and is not skipped, behind the node of the declared access, with the declared name and
the declared types in their order; the abstract methods are those that are pure virtual. The
parser does not read all qualities of operators and destructors: where a class has such that
matter here, nothing is said of its node. -/
theorem dump_class_wrapped (h : WellFormedDump items rank)
    (rootAttributes : XmlSourceParser.Attributes) :
    ∃ p s types names,
      SourceParser.run (dumpDocument demangle rootAttributes items).events
        (SourceParser.prepare {}) = some p ∧
      (Enough fun fuel => getSourceRepresentation p fuel = some (.returned s)) ∧
      MeansDeclared items types (fileName items) ∧
      Denotes types (fileName items) items ∧
      (∀ d, .declaration d ∈ entries items →
        QualifiedName items d.decl.index (names (nodeId d.decl.index))) ∧
      (∀ entry ∈ entries items, ∀ t ∈ followedTypes entry, (cxxTerm names (types t)).isSome) ∧
      ∀ w r td, .declaration (.record r) ∈ entries items → ShowsAll items r.index →
        Enough fun fuel => ∃ sc, createSwigClass w s fuel (nodeId r.index) td = some sc ∧
          WrapsRecord items types names w r td sc := by
  obtain ⟨V, s, hV, hreturned, hbuilt⟩ := exists_representation demangle h
  have hdenotes := denotes_dump h hV
  have hs : HasObjects s (typesOf (dumpTable demangle items) V) items :=
    fun entry hentry => object_dump h hV hbuilt hentry
  obtain ⟨names, hnames⟩ := exists_names h hs
  refine ⟨_, s, _, names, run_dump h rootAttributes, hreturned,
    meansDeclared_of_denotes h hdenotes, hdenotes, hnames.qualified, ?_, ?_⟩
  · intro entry hentry t ht
    exact (isSome_cxxTerm _).mpr (creatable_types_of_entry h hdenotes hentry t ht)
  · intro w r td hr hshows
    exact wraps_record h hs hdenotes hnames (members_dump h hV hbuilt).1 hr hshows td

theorem dump_class_wrapped_pureMethod : ∃ p s types names,
    SourceParser.run (dumpDocument (fun _ => none) [] pureMethodOfClass).events
      (SourceParser.prepare {}) = some p ∧
    (Enough fun fuel => getSourceRepresentation p fuel = some (.returned s)) ∧
    MeansDeclared pureMethodOfClass types (fileName pureMethodOfClass) ∧
    (∀ d, .declaration d ∈ entries pureMethodOfClass →
      QualifiedName pureMethodOfClass d.decl.index (names (nodeId d.decl.index))) ∧
    (∀ entry ∈ entries pureMethodOfClass, ∀ t ∈ followedTypes entry,
      (cxxTerm names (types t)).isSome) ∧
    ∀ w r td, .declaration (.record r) ∈ entries pureMethodOfClass → Enough fun fuel => ∃ sc,
      createSwigClass w s fuel (nodeId r.index) td = some sc ∧
        WrapsRecord pureMethodOfClass types names w r td sc := by
  obtain ⟨p, s, types, names, hrun, hreturned, hmeans, -, hnames, hcreated, hwraps⟩ :=
    @dump_class_wrapped (fun _ => none) _ _ wellFormed_pureMethodOfClass []
  exact ⟨p, s, types, names, hrun, hreturned, hmeans, hnames, hcreated, fun w r td hr =>
    hwraps w r td hr (showsAll_pureMethodOfClass r.index)⟩

end Wrapping

end CableSwig.Executables.DumpWrapping
