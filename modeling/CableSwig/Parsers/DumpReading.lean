import CableSwig.Parsers.DumpReferences

/-!
# Reading a dump

The source representation of a document that was written for a well-formed set of nodes: the
construction succeeds, every node has its object, and every context has its members.
-/
namespace CableSwig.Parsers.DumpReading

open CableSwig.CxxTypes (Quals)
open CableSwig.GccXml.DeclarationAttributes
open CableSwig.GccXml.DeclarationDump
open CableSwig.GccXml.FileQueue (fileId)
open CableSwig.GccXml.TypeDump (Element getAttribute nodeId)
open CableSwig.Lib.Fuel
open CableSwig.Lib.OrderedMap
open CableSwig.Lib.Procedures
open CableSwig.Lib.Procedures.Program
open CableSwig.Lib.StdString
open CableSwig.Parsers.ConstructionOrder
open CableSwig.Parsers.ConstructionProcedures (registers_self)
open CableSwig.Parsers.ConstructionSteps
open CableSwig.Parsers.DeclarationReading
open CableSwig.Parsers.DumpReferences
open CableSwig.Parsers.DumpTable
open CableSwig.Parsers.ElementValues
open CableSwig.Parsers.ElementReferences
open CableSwig.Parsers.RepresentationBuilder
open CableSwig.Parsers.TypeNodeReading
open CableSwig.Parsers.TypeReader (fundamentalTypeNames)
open CableSwig.Parsers.TypeReading (nodeId_injective not_isQualifier_nodeId)
open CableSwig.Parsers.XmlSourceParser (SourceParser stringLess stringLess_strictTotal)

section Objects

/-- The name that the dump has for a file. -/
def fileName (items : List Item) (fid : Text) : Text :=
  (((files items).find? fun f => fileId f.1 = fid).map Prod.snd).getD []

variable (types : TypeRef → SourceType) (names : Text → Text)

/-- The object for an entry. -/
def entryObject : Entry → SourceObject
  | .declaration d => objectFor types names d
  | .typeNode t => .type (typeFor types t.shape)

def entryChanges : Entry → List Change
  | .declaration d => changesFor names d
  | .typeNode t => nodeChanges t

/-- The qualifiers of a reference replace those of the type, if there are any. -/
def qualifiedType (quals : Quals) (type : SourceType) : Option SourceType :=
  if quals = ⊥ then some type else withQualifiers type quals

/-- Every reference means the type of the entry that it refers to, with its qualifiers. -/
def Denotes (items : List Item) : Prop :=
  ∀ entry ∈ entries items, ∀ t ∈ followedTypes entry, ∃ target ∈ entries items,
    target.index = t.index ∧
      (entryObject types names target).typeOf.bind (qualifiedType t.quals) = some (types t)

end Objects

section Conditions

variable (items : List Item)

/-- The id is that of an entry of some kind. -/
def Present (kind : Entry → Prop) (id : Text) : Prop :=
  ∃ target ∈ entries items, nodeId target.index = id ∧ kind target

inductive IsNamespace : Entry → Prop
  | namespaceDecl (d : NamespaceDecl) : IsNamespace (.declaration (.namespaceDecl d))

inductive IsRecord : Entry → Prop
  | record (d : RecordType) : IsRecord (.declaration (.record d))

def IsScope (entry : Entry) : Prop := IsNamespace entry ∨ IsRecord entry

/-- An entry that a type can refer to. -/
inductive IsType : Entry → Prop
  | typedef (d : TypedefDecl) : IsType (.declaration (.typedef d))
  | record (d : RecordType) : IsType (.declaration (.record d))
  | enumeral (d : EnumeralType) : IsType (.declaration (.enumeral d))
  | typeNode (t : TypeNode) : IsType (.typeNode t)

def takesQualifiers : TypeShape → Bool
  | .fundamental _ | .pointer _ | .array _ _ | .offset _ _ => true
  | .reference _ | .function _ _ _ | .method _ _ _ _ _ => false

/-- A type that a reference can add qualifiers to. There are no qualified references, functions
and methods. -/
inductive Qualifiable : Entry → Prop
  | typeNode (t : TypeNode) (h : takesQualifiers t.shape = true) : Qualifiable (.typeNode t)
  | record (d : RecordType) : Qualifiable (.declaration (.record d))
  | enumeral (d : EnumeralType) : Qualifiable (.declaration (.enumeral d))
  | typedef (d : TypedefDecl) {target : Entry} (hmem : target ∈ entries items)
      (hindex : target.index = d.type.index) (h : Qualifiable target) :
      Qualifiable (.declaration (.typedef d))

/-- What holds for a declaration that the compiler dumps. -/
structure WellFormedDeclaration (d : Declaration) : Prop where
  printable : ∀ t ∈ texts d, Printable t
  line : isLocated d → d.decl.sourceLine < 2 ^ 31
  file : isLocated d → ∃ name, (d.decl.sourceFile, name) ∈ files items
  context : ∀ c, d.decl.context = some c → Present items IsScope (nodeId c.index)
  realNamespace : ∀ a, d = .namespaceAlias a → Present items IsNamespace (nodeId a.realNamespace)
  base : ∀ r, d = .record r → ∀ id ∈ recordBases r, Present items IsRecord id
  offset : ∀ f, d = .field f → f.byteOffset.low * 8 + f.bitOffset.low < 2 ^ 31

/-- What holds for a type. The fundamental types are those that the parser knows. -/
structure WellFormedType (t : TypeNode) : Prop where
  attributes : Printable (attributesText t.attributes)
  name : ∀ n, t.shape = .fundamental n → ∃ row ∈ fundamentalTypeNames, n = some row.1.toList
  basetype : ∀ c ∈ shapeBasetype t.shape, Present items IsRecord (nodeId c)

def WellFormedEntry : Entry → Prop
  | .declaration d => WellFormedDeclaration items d
  | .typeNode t => WellFormedType items t

/-- The nodes that are dumped hang together: what a node refers to is dumped, and no node refers
back to itself over others. -/
structure WellFormedDump (rank : Text → Nat) : Prop where
  distinct : DistinctIds items
  nonempty : entries items ≠ []
  printable : ∀ f ∈ files items, Printable f.2
  entry : ∀ entry ∈ entries items, WellFormedEntry items entry
  type : ∀ entry ∈ entries items, ∀ t ∈ followedTypes entry, ∃ target ∈ entries items,
    target.index = t.index ∧ IsType target ∧ (t.quals ≠ ⊥ → Qualifiable items target)
  descends : ∀ entry ∈ entries items, ∀ id ∈ followed entry, rank id < rank (nodeId entry.index)

end Conditions

section Types

variable {types : TypeRef → SourceType} {names : Text → Text}

theorem IsScope.asContext {entry : Entry} (h : IsScope entry) :
    (entryObject types names entry).asContext =
      some ⟨nodeId entry.index, nodeId entry.index⟩ := by
  rcases h with h | h
  · cases h
    rfl
  · cases h
    rfl

theorem IsNamespace.asNamespace {entry : Entry} (h : IsNamespace entry) :
    (entryObject types names entry).asNamespace = some (nodeId entry.index) := by
  cases h
  rfl

theorem IsRecord.asClass {entry : Entry} (h : IsRecord entry) :
    (entryObject types names entry).asClass = some (nodeId entry.index) := by
  cases h
  rfl

theorem IsType.typeOf {entry : Entry} (h : IsType entry) :
    ∃ type, (entryObject types names entry).typeOf = some type := by
  cases h <;> exact ⟨_, rfl⟩

/-- A type that takes other qualifiers as well. -/
theorem withQualifiers_again {type type' : SourceType} {quals : Quals}
    (h : withQualifiers type quals = some type') (quals' : Quals) :
    ∃ type'', withQualifiers type' quals' = some type'' := by
  cases type with
  | fundamentalType | pointerType | arrayType | classType | enumerationType | offsetType =>
    obtain rfl := Option.some.inj h
    exact ⟨_, rfl⟩
  | null | referenceType | functionType | methodType => cases h

theorem qualify_returned {tid : Text} {o : SourceObject} {type type' : SourceType}
    (htype : o.typeOf = some type) (hqualified : qualifiedType (qualifiers tid) type = some type') :
    (qualify tid o).1 = .returned type' := by
  unfold qualify addQualifiers
  rw [htype]
  unfold qualifiedType at hqualified
  by_cases hbot : qualifiers tid = ⊥
  · rw [if_pos hbot] at hqualified
    rw [if_pos hbot]
    exact congrArg Outcome.returned (Option.some.inj hqualified)
  · rw [if_neg hbot] at hqualified
    rw [if_neg hbot]
    show (denote Use.isNull _ (ofOption (withQualifiers type (qualifiers tid)) >>= _)).1 = _
    rw [hqualified]
    rfl

/-- Where there are qualifiers, the type has been copied with them. -/
theorem qualify_inv {tid : Text} {o : SourceObject} {type' : SourceType}
    (hqualifiers : qualifiers tid ≠ ⊥) (h : (qualify tid o).1 = .returned type') :
    ∃ type, o.typeOf = some type ∧ withQualifiers type (qualifiers tid) = some type' := by
  unfold qualify addQualifiers at h
  rw [if_neg hqualifiers] at h
  cases htype : o.typeOf with
  | none =>
    rw [htype] at h
    cases h
  | some type =>
    rw [htype] at h
    cases hqualified : withQualifiers type (qualifiers tid) with
    | none =>
      have h : (denote Use.isNull _ (ofOption (withQualifiers type (qualifiers tid)) >>= _)).1 =
        .returned type' := h
      rw [hqualified] at h
      cases h
    | some newType =>
      have h : (denote Use.isNull _ (ofOption (withQualifiers type (qualifiers tid)) >>= _)).1 =
        .returned type' := h
      rw [hqualified] at h
      exact ⟨type, rfl, hqualified.trans (congrArg some (Outcome.returned.inj h))⟩

end Types

section Tables

variable (demangle : Text → Option Text) (items : List Item)

/-- The parser after it has read the document. -/
def dumpTable : SourceParser := tableOf demangle items {}

variable {demangle items} {rank : Text → Nat} (h : WellFormedDump items rank)
include h

theorem run_dump (rootAttributes : Attributes) :
    SourceParser.run (dumpDocument demangle rootAttributes items).events (SourceParser.prepare {}) =
      some (dumpTable demangle items) := run_dumpDocument rootAttributes h.printable

theorem find_dump {id : Text} {e : Element} :
    getSourceElement (dumpTable demangle items) id = some e ↔
      ∃ entry ∈ entries items, nodeId entry.index = id ∧ kept (entry.output demangle) = e :=
  find_elementMap h.distinct

theorem find_entry {entry : Entry} (hentry : entry ∈ entries items) :
    getSourceElement (dumpTable demangle items) (nodeId entry.index) =
      some (kept (entry.output demangle)) := (find_dump h).mpr ⟨entry, hentry, rfl, rfl⟩

theorem entry_eq {entry entry' : Entry} (hentry : entry ∈ entries items)
    (hentry' : entry' ∈ entries items) (hindex : entry.index = entry'.index) : entry = entry' :=
  List.inj_on_of_nodup_map h.distinct.entries hentry hentry' hindex

theorem idsMatch_dump : IdsMatch (dumpTable demangle items) :=
  idsMatch_run (run_dump h [])

theorem plainIds_dump : PlainIds (dumpTable demangle items) := by
  have hplain : ∀ id e, getSourceElement (dumpTable demangle items) id = some e →
      ∃ index, id = nodeId index := by
    intro id e hfind
    obtain ⟨entry, -, hid, -⟩ := (find_dump h).mp hfind
    exact ⟨entry.index, hid.symm⟩
  refine ⟨fun id e hfind => ?_, fun id e hfind => ?_, fun id e id' e' hfind hfind' heq => ?_⟩
  · obtain ⟨index, rfl⟩ := hplain id e hfind
    exact List.cons_ne_nil _ _
  · obtain ⟨index, rfl⟩ := hplain id e hfind
    exact not_isQualifier_nodeId index
  · obtain ⟨index, rfl⟩ := hplain id e hfind
    have hmem : 't' ∈ nodeId index := by
      rw [heq]
      exact List.mem_append_right _ (by decide)
    rcases List.mem_cons.mp hmem with hc | hc
    · exact absurd hc (by decide)
    · exact absurd (Nat.isDigit_of_mem_toDigits (by omega) (by omega) hc) (by decide)

/-- Whatever an entry refers to is there. -/
theorem followed_present {entry : Entry} (hentry : entry ∈ entries items) {id : Text}
    (hid : id ∈ followed entry) : ∃ target ∈ entries items, nodeId target.index = id := by
  have hof : ∀ {kind : Entry → Prop}, Present items kind id →
      ∃ target ∈ entries items, nodeId target.index = id := by
    rintro kind ⟨target, htarget, hindex, -⟩
    exact ⟨target, htarget, hindex⟩
  rcases List.mem_append.mp hid with hid | hid
  · have hwf := h.entry entry hentry
    cases entry with
    | declaration d =>
      have hwf : WellFormedDeclaration items d := hwf
      rcases List.mem_append.mp hid with hid | hid
      · obtain ⟨c, hc, rfl⟩ := List.mem_map.mp hid
        exact hof (hwf.context c (Option.mem_toList.mp hc))
      · cases d with
        | namespaceAlias a =>
          obtain rfl := List.mem_singleton.mp hid
          exact hof (hwf.realNamespace a rfl)
        | record r => exact hof (hwf.base r rfl id hid)
        | namespaceDecl | typedef | function | var | field | enumeral => cases hid
    | typeNode t =>
      have hwf : WellFormedType items t := hwf
      obtain ⟨c, hc, rfl⟩ := List.mem_map.mp hid
      exact hof (hwf.basetype c (Option.mem_toList.mp hc))
  · obtain ⟨t, ht, rfl⟩ := List.mem_map.mp hid
    obtain ⟨target, htarget, hindex, -⟩ := h.type entry hentry t ht
    exact ⟨target, htarget, congrArg nodeId hindex⟩

theorem references_dump {id id' : Text}
    (hrefers : RefersTo (dumpTable demangle items) id id') :
    ∃ entry ∈ entries items, nodeId entry.index = id ∧ id' ∈ followed entry := by
  obtain ⟨e, hfind, hid'⟩ := hrefers
  obtain ⟨entry, hentry, hid, rfl⟩ := (find_dump h).mp hfind
  exact ⟨entry, hentry, hid, references_subset (carries_entry demangle entry) hid'⟩

theorem referencesExist_dump : ReferencesExist (dumpTable demangle items) := by
  intro id e hfind id' hid'
  obtain ⟨entry, hentry, -, hfollowed⟩ := references_dump h ⟨e, hfind, hid'⟩
  obtain ⟨target, htarget, rfl⟩ := followed_present h hentry hfollowed
  rw [find_entry h htarget]
  rfl

theorem acyclic_dump : Acyclic (dumpTable demangle items) := by
  have hstep : ∀ id id', RefersTo (dumpTable demangle items) id id' → rank id' < rank id := by
    intro id id' hrefers
    obtain ⟨entry, hentry, rfl, hfollowed⟩ := references_dump h hrefers
    exact h.descends entry hentry id' hfollowed
  have hreaches : ∀ id id', Relation.TransGen (RefersTo (dumpTable demangle items)) id id' →
      rank id' < rank id := by
    intro id id' hreach
    induction hreach with
    | single hrefers => exact hstep _ _ hrefers
    | tail _ hrefers ih => exact (hstep _ _ hrefers).trans ih
  exact fun id hcycle => Nat.lt_irrefl _ (hreaches id id hcycle)

theorem fileName_eq {index : Nat} {name : Text} (hfile : (index, name) ∈ files items) :
    fileName items (fileId index) = name := by
  have hsome : ((files items).find? fun f => fileId f.1 = fileId index).isSome :=
    List.find?_isSome.mpr ⟨(index, name), hfile, decide_eq_true rfl⟩
  obtain ⟨f, hf⟩ := Option.isSome_iff_exists.mp hsome
  have hkey : fileId f.1 = fileId index := by simpa using List.find?_some hf
  have hsame : f = (index, name) :=
    List.inj_on_of_nodup_map h.distinct.files (List.mem_of_find?_eq_some hf) hfile hkey
  rw [fileName, hf, hsame]
  rfl

end Tables

section Values

theorem printable_texts {ts : List Text} (h : ts.all (·.all isPrintable) = true) :
    ∀ t ∈ ts, Printable t :=
  fun t ht => printable_of_all (List.all_eq_true.mp h t ht)

theorem printable_fundamental : ∀ row ∈ fundamentalTypeNames, Printable row.1.toList := by
  have hall : (fundamentalTypeNames.map fun row => row.1.toList).all (·.all isPrintable) =
      true := by decide
  exact fun row hrow => printable_texts hall _ (List.mem_map_of_mem hrow)

variable (p : SourceParser) (V : Text → Outcome SourceObject)

/-- The types that references mean, as they are read. -/
def typesOf (t : TypeRef) : SourceType :=
  match valueOf p V (.type (xmlPrintTypeIdref t)) with
  | .returned type => type
  | _ => .null

/-- The entry has been read, and its type takes qualifiers where there can be some. -/
structure Valued (items : List Item) (entry : Entry) : Prop where
  value : V (nodeId entry.index) =
    .returned (entryObject (typesOf p V) (fileName items) entry)
  qualifiable : Qualifiable items entry → ∀ type,
    (entryObject (typesOf p V) (fileName items) entry).typeOf = some type →
      ∀ quals, ∃ type', withQualifiers type quals = some type'

variable {p V} {demangle : Text → Option Text} {items : List Item} {rank : Text → Nat}

/-- What a reference means, once the entry that it refers to has been read. -/
theorem valueOf_typeIdref {t : TypeRef} {target : Entry} {e : Element}
    (hfind : getSourceElement p (nodeId target.index) = some e) (hindex : target.index = t.index)
    (htype : IsType target) (hqualifiable : t.quals ≠ ⊥ → Qualifiable items target)
    (htarget : Valued p V items target) :
    valueOf p V (.type (xmlPrintTypeIdref t)) = .returned (typesOf p V t) ∧
      (entryObject (typesOf p V) (fileName items) target).typeOf.bind (qualifiedType t.quals) =
        some (typesOf p V t) := by
  obtain ⟨type, htypeOf⟩ : ∃ type,
      (entryObject (typesOf p V) (fileName items) target).typeOf = some type := htype.typeOf
  have hqualified : ∃ type', qualifiedType t.quals type = some type' := by
    unfold qualifiedType
    by_cases hbot : t.quals = ⊥
    · exact ⟨type, if_pos hbot⟩
    · obtain ⟨type', htype'⟩ := htarget.qualifiable (hqualifiable hbot) type htypeOf t.quals
      exact ⟨type', by rw [if_neg hbot, htype']⟩
  obtain ⟨type', htype'⟩ := hqualified
  have hvalue : valueOf p V (.type (xmlPrintTypeIdref t)) = .returned type' := by
    have hobject := htarget.value
    rw [hindex] at hfind hobject
    simp only [valueOf, unqualified_typeIdref, hfind, hobject]
    exact qualify_returned htypeOf (by rw [qualifiers_typeIdref]; exact htype')
  have htypes : typesOf p V t = type' := by
    rw [typesOf, hvalue]
  rw [htypes, htypeOf]
  exact ⟨hvalue, htype'⟩

variable (h : WellFormedDump items rank) (hV : IsValue (dumpTable demangle items) V)
include h

/-- What an entry refers to has been read, so that it can be read itself. -/
theorem resolved_declaration {d : Declaration} (hentry : .declaration d ∈ entries items)
    (hbelow : ∀ id ∈ followed (.declaration d), ∀ target ∈ entries items,
      nodeId target.index = id → Valued (dumpTable demangle items) V items target) :
    Resolved (dumpTable demangle items) V (typesOf (dumpTable demangle items) V)
      (fileName items) d := by
  have hwf : WellFormedDeclaration items d := h.entry _ hentry
  have hpresent : ∀ {kind : Entry → Prop} {id : Text}, Present items kind id →
      id ∈ followedNodes (.declaration d) → ∃ target, kind target ∧ nodeId target.index = id ∧
        getSourceElement (dumpTable demangle items) id =
          some (kept (target.output demangle)) ∧
        V id = .returned (entryObject (typesOf (dumpTable demangle items) V)
          (fileName items) target) := by
    rintro kind id ⟨target, htarget, rfl, hkind⟩ hid
    exact ⟨target, hkind, rfl, find_entry h htarget,
      (hbelow _ (List.mem_append_left _ hid) target htarget rfl).value⟩
  refine ⟨hwf.printable, hwf.line, ?_, ?_, ?_, ?_, ?_, hwf.offset⟩
  · intro hlocated
    obtain ⟨name, hname⟩ := hwf.file hlocated
    rw [fileName_eq h hname]
    exact find_fileMap h.distinct hname
  · intro c hc
    obtain ⟨target, hscope, hid, hfind, hvalue⟩ :=
      hpresent (hwf.context c hc) (List.mem_append_left _ (by simp [hc]))
    exact ⟨_, _, hfind, hvalue, hid ▸ hscope.asContext⟩
  · intro t ht
    obtain ⟨target, htarget, hindex, htype, hqualifiable⟩ := h.type _ hentry t ht
    have hmem : nodeId target.index ∈ followed (.declaration d) := by
      rw [hindex]
      exact List.mem_append_right _ (List.mem_map_of_mem (f := fun t => nodeId t.index) ht)
    exact (valueOf_typeIdref (find_entry h htarget) hindex htype hqualifiable
      (hbelow _ hmem target htarget rfl)).1
  · rintro a rfl
    obtain ⟨target, hnamespace, hid, hfind, hvalue⟩ :=
      hpresent (hwf.realNamespace a rfl) (List.mem_append_right _ List.mem_cons_self)
    exact ⟨_, _, hfind, hvalue, hid ▸ hnamespace.asNamespace⟩
  · rintro r rfl id hid
    obtain ⟨target, hrecord, hid', hfind, hvalue⟩ :=
      hpresent (hwf.base r rfl id hid) (List.mem_append_right _ hid)
    exact ⟨_, _, hfind, hvalue, hid' ▸ hrecord.asClass⟩

theorem resolved_typeNode {t : TypeNode} (hentry : .typeNode t ∈ entries items)
    (hbelow : ∀ id ∈ followed (.typeNode t), ∀ target ∈ entries items,
      nodeId target.index = id → Valued (dumpTable demangle items) V items target) :
    ResolvedType (dumpTable demangle items) V (typesOf (dumpTable demangle items) V) t := by
  have hwf : WellFormedType items t := h.entry _ hentry
  refine ⟨hwf.attributes, ?_, ?_, ?_⟩
  · intro n hn
    obtain ⟨row, hrow, rfl⟩ := hwf.name n hn
    exact ⟨_, rfl, printable_fundamental row hrow⟩
  · intro ref href
    obtain ⟨target, htarget, hindex, htype, hqualifiable⟩ := h.type _ hentry ref href
    have hmem : nodeId target.index ∈ followed (.typeNode t) := by
      rw [hindex]
      exact List.mem_append_right _ (List.mem_map_of_mem (f := fun t => nodeId t.index) href)
    exact (valueOf_typeIdref (find_entry h htarget) hindex htype hqualifiable
      (hbelow _ hmem target htarget rfl)).1
  · intro c hc
    obtain ⟨target, htarget, hid, hrecord⟩ := hwf.basetype c hc
    have hmem : nodeId c ∈ followed (.typeNode t) :=
      List.mem_append_left _ (List.mem_map_of_mem (Option.mem_toList.mpr hc))
    have hvalue := (hbelow _ hmem target htarget hid).value
    have hfind : getSourceElement (dumpTable demangle items) (nodeId target.index) = _ :=
      find_entry h htarget
    rw [hid] at hvalue hfind
    exact ⟨_, _, hfind, hvalue, hid ▸ hrecord.asClass⟩

include hV

/-- An entry that only refers to entries that have been read is read itself. -/
theorem valued_of_below {entry : Entry} (hentry : entry ∈ entries items)
    (hbelow : ∀ id ∈ followed entry, ∀ target ∈ entries items,
      nodeId target.index = id → Valued (dumpTable demangle items) V items target) :
    Valued (dumpTable demangle items) V items entry := by
  have hids : IdsMatch (dumpTable demangle items) := idsMatch_dump h
  refine ⟨(hV _ _ (find_entry h hentry)).trans ?_, ?_⟩
  · cases entry with
    | declaration d =>
      exact (denoteElement_declaration hids (carries_entry demangle (.declaration d))
        (resolved_declaration h hentry hbelow)).1
    | typeNode t =>
      exact (denoteElement_typeNode (carries_entry demangle (.typeNode t))
        (resolved_typeNode h hentry hbelow) hids).1
  · intro hqualifiable type htype quals
    cases hqualifiable with
    | typeNode t hshape =>
      obtain rfl := Option.some.inj htype
      cases hcase : t.shape with
      | fundamental | pointer | array | offset => exact ⟨_, rfl⟩
      | reference | function | method => simp [hcase, takesQualifiers] at hshape
    | record d | enumeral d =>
      obtain rfl := Option.some.inj htype
      exact ⟨_, rfl⟩
    | typedef d hmem hindex hqualifiable =>
      -- The type of the typedef is the one of what it refers to, perhaps with other qualifiers.
      obtain rfl := Option.some.inj htype
      obtain ⟨target, htarget, hindex', htype', hqualifiable'⟩ :=
        h.type _ hentry d.type List.mem_cons_self
      obtain rfl := entry_eq h htarget hmem (hindex'.trans hindex.symm)
      have hid : nodeId target.index ∈ followed (.declaration (.typedef d)) := by
        rw [hindex]
        exact List.mem_append_right _ List.mem_cons_self
      have hvalued := hbelow _ hid target hmem rfl
      obtain ⟨-, hbind⟩ := valueOf_typeIdref (find_entry h htarget) hindex htype' hqualifiable'
        hvalued
      obtain ⟨type, htypeOf, hqualified⟩ := Option.bind_eq_some_iff.mp hbind
      unfold qualifiedType at hqualified
      split at hqualified
      · obtain rfl := Option.some.inj hqualified
        exact hvalued.qualifiable hqualifiable _ htypeOf quals
      · exact withQualifiers_again hqualified quals

/-- All entries are read: the induction is on the rank, which falls with every reference. -/
theorem valued_entry {entry : Entry} (hentry : entry ∈ entries items) :
    Valued (dumpTable demangle items) V items entry := by
  induction hrank : rank (nodeId entry.index) using Nat.strong_induction_on
    generalizing entry with
  | _ n ih =>
    refine valued_of_below h hV hentry fun id hid target htarget hindex => ?_
    have hless := h.descends entry hentry id hid
    rw [← hindex, hrank] at hless
    exact ih _ hless htarget rfl

/-- Every reference means the type of the entry that it refers to. -/
theorem denotes_dump :
    Denotes (typesOf (dumpTable demangle items) V) (fileName items) items := by
  intro entry hentry t ht
  obtain ⟨target, htarget, hindex, htype, hqualifiable⟩ := h.type entry hentry t ht
  exact ⟨target, htarget, hindex, (valueOf_typeIdref (find_entry h htarget) hindex htype
    hqualifiable (valued_entry h hV htarget)).2⟩

/-- What the function for an element of the dump makes. -/
theorem denoteElement_entry {entry : Entry} (hentry : entry ∈ entries items) :
    (denoteElement (dumpTable demangle items) V (kept (entry.output demangle))).2.filterMap
      changed = entryChanges (fileName items) entry := by
  have hids : IdsMatch (dumpTable demangle items) := idsMatch_dump h
  cases entry with
  | declaration d =>
    exact (denoteElement_declaration hids (carries_entry demangle (.declaration d))
      (resolved_declaration h hentry fun id _ target htarget _ => valued_entry h hV htarget)).2
  | typeNode t =>
    exact (denoteElement_typeNode (carries_entry demangle (.typeNode t))
      (resolved_typeNode h hentry fun id _ target htarget _ => valued_entry h hV htarget) hids).2

end Values

section Creating

/-- `CreateCxxType` succeeds. -/
def Creatable (type : SourceType) : Prop := (TypeReader.createCxxType type.plain).isSome

variable {type target : SourceType} {quals : Quals}

theorem creatable_pointer : Creatable (.pointerType target quals) ↔ Creatable target := by
  show ((TypeReader.createCxxType target.plain).bind fun t =>
    if TypeReader.isMemberTarget target.plain then some (t.moreQualified quals.1 quals.2)
    else some (.mk (.pointerType t) quals.1 quals.2)).isSome = true ↔ _
  unfold Creatable
  cases TypeReader.createCxxType target.plain with
  | none => exact Iff.rfl
  | some t =>
    rw [Option.bind_some]
    split <;> exact Iff.rfl

theorem creatable_reference : Creatable (.referenceType target) ↔ Creatable target := by
  show ((TypeReader.createCxxType target.plain).bind _).isSome = true ↔ _
  unfold Creatable
  cases TypeReader.createCxxType target.plain <;> exact Iff.rfl

theorem creatable_array {length : Nat} :
    Creatable (.arrayType target length quals) ↔ Creatable target := by
  show ((TypeReader.createCxxType target.plain).bind _).isSome = true ↔ _
  unfold Creatable
  cases TypeReader.createCxxType target.plain <;> exact Iff.rfl

theorem creatable_offset {c : Text} :
    Creatable (.offsetType c target quals) ↔ Creatable target := by
  show ((TypeReader.createCxxType target.plain).bind _).isSome = true ↔ _
  unfold Creatable
  cases TypeReader.createCxxType target.plain <;> exact Iff.rfl

theorem creatable_types {types : List SourceType} (h : ∀ t ∈ types, Creatable t) :
    ∃ ts, TypeReader.createCxxTypes (plainTypes types) = some ts := by
  induction types with
  | nil => exact ⟨[], rfl⟩
  | cons t types ih =>
    obtain ⟨ht, hrest⟩ := List.forall_mem_cons.mp h
    obtain ⟨first, hfirst⟩ := Option.isSome_iff_exists.mp ht
    obtain ⟨rest, hrest⟩ := ih hrest
    refine ⟨first :: rest, ?_⟩
    show ((TypeReader.createCxxType t.plain).bind fun first =>
      (TypeReader.createCxxTypes (plainTypes types)).bind fun rest => some (first :: rest)) = _
    rw [hfirst, hrest]
    rfl

theorem creatable_function {returns : SourceType} {types : List SourceType}
    {arguments : ArgumentNames} (hreturns : Creatable returns) (h : ∀ t ∈ types, Creatable t) :
    Creatable (.functionType returns types arguments) := by
  obtain ⟨r, hr⟩ := Option.isSome_iff_exists.mp hreturns
  obtain ⟨ts, hts⟩ := creatable_types h
  show ((TypeReader.createCxxType returns.plain).bind fun r =>
    (TypeReader.createCxxTypes (plainTypes types)).bind _).isSome = true
  rw [hr, hts]
  rfl

theorem creatable_method {c : Text} {returns : SourceType} {types : List SourceType}
    {arguments : ArgumentNames} (hreturns : Creatable returns) (h : ∀ t ∈ types, Creatable t) :
    Creatable (.methodType c returns types arguments) := by
  obtain ⟨r, hr⟩ := Option.isSome_iff_exists.mp hreturns
  obtain ⟨ts, hts⟩ := creatable_types h
  show ((TypeReader.createCxxType returns.plain).bind fun r =>
    (TypeReader.createCxxTypes (plainTypes types)).bind _).isSome = true
  rw [hr, hts]
  rfl

theorem creatable_fundamental {row : String × CxxTypes.FundamentalId}
    (h : row ∈ fundamentalTypeNames) : Creatable (.fundamentalType row.1.toList quals) := by
  have hsome : (fundamentalTypeNames.find? fun r => r.1.toList = row.1.toList).isSome :=
    List.find?_isSome.mpr ⟨row, h, decide_eq_true rfl⟩
  obtain ⟨found, hfound⟩ := Option.isSome_iff_exists.mp hsome
  show ((TypeReader.fundamentalTypeId row.1.toList).map _).isSome = true
  rw [TypeReader.fundamentalTypeId, hfound]
  rfl

theorem creatable_void : Creatable voidType := by
  have hmem : ("void", CxxTypes.FundamentalId.void) ∈ fundamentalTypeNames := by decide
  exact creatable_fundamental hmem

/-- Other qualifiers make no difference. -/
theorem creatable_withQualifiers {type' : SourceType} (h : withQualifiers type quals = some type')
    (htype : Creatable type) : Creatable type' := by
  cases type with
  | fundamentalType typeName quals' =>
    obtain rfl := Option.some.inj h
    have htype : ((TypeReader.fundamentalTypeId typeName).map _).isSome = true := htype
    show ((TypeReader.fundamentalTypeId typeName).map _).isSome = true
    rwa [Option.isSome_map] at htype ⊢
  | pointerType target quals' =>
    obtain rfl := Option.some.inj h
    exact creatable_pointer.mpr (creatable_pointer.mp htype)
  | arrayType target length quals' =>
    obtain rfl := Option.some.inj h
    exact creatable_array.mpr (creatable_array.mp htype)
  | offsetType c memberType quals' =>
    obtain rfl := Option.some.inj h
    exact creatable_offset.mpr (creatable_offset.mp htype)
  | classType | enumerationType =>
    obtain rfl := Option.some.inj h
    rfl
  | null | referenceType | functionType | methodType => cases h

variable {types : TypeRef → SourceType} {items : List Item} {rank : Text → Nat}
  (h : WellFormedDump items rank) (hdenotes : Denotes types (fileName items) items)
include h

/-- The type of an entry can be created where those of what it refers to can be. -/
theorem creatable_of_below {entry : Entry} (hentry : entry ∈ entries items)
    (hbelow : ∀ t ∈ followedTypes entry, Creatable (types t)) {type : SourceType}
    (htype : (entryObject types (fileName items) entry).typeOf = some type) : Creatable type := by
  cases entry with
  | declaration d =>
    cases d with
    | typedef d =>
      obtain rfl := Option.some.inj htype
      exact hbelow _ List.mem_cons_self
    | record d | enumeral d =>
      obtain rfl := Option.some.inj htype
      rfl
    | namespaceDecl | namespaceAlias | function | var | field => cases htype
  | typeNode t =>
    have hwf : WellFormedType items t := h.entry _ hentry
    have hargs : ∀ argTypes : List ArgType, (∀ ref ∈ argTypes.map ArgType.value,
        Creatable (types ref)) → ∀ type ∈ (argumentsFor types argTypes).1, Creatable type := by
      intro argTypes hrefs type hmem
      obtain ⟨a, ha, rfl⟩ := List.mem_map.mp hmem
      obtain ⟨hnone, hvalue⟩ := mem_printedArguments_nil ha
      rw [argumentType, hnone]
      exact hrefs _ (List.mem_map_of_mem hvalue)
    obtain rfl := Option.some.inj htype
    have hrefs : ∀ ref ∈ shapeRefs t.shape, Creatable (types ref) := hbelow
    cases hshape : t.shape with
    | fundamental n =>
      obtain ⟨row, hrow, rfl⟩ := hwf.name n hshape
      exact creatable_fundamental hrow
    | pointer target =>
      exact creatable_pointer.mpr (hrefs target (by simp [hshape, shapeRefs]))
    | reference target =>
      exact creatable_reference.mpr (hrefs target (by simp [hshape, shapeRefs]))
    | array length element =>
      exact creatable_array.mpr (hrefs element (by simp [hshape, shapeRefs]))
    | offset basetype type =>
      exact creatable_offset.mpr (hrefs type (by simp [hshape, shapeRefs]))
    | function returns argTypes voidTerminated =>
      rw [hshape] at hrefs
      obtain ⟨hreturns, hrest⟩ := List.forall_mem_cons.mp hrefs
      exact creatable_function hreturns (hargs argTypes hrest)
    | method basetype returns quals argTypes voidTerminated =>
      rw [hshape] at hrefs
      obtain ⟨hreturns, hrest⟩ := List.forall_mem_cons.mp hrefs
      exact creatable_method hreturns (hargs argTypes hrest)

include hdenotes

/-- What holds for the type of an entry where it holds for the types that the entry refers to, and
stays with other qualifiers, holds for all types that are referred to. The induction is on the rank
again. -/
theorem types_induction {P : SourceType → Prop}
    (hentries : ∀ entry ∈ entries items, (∀ t ∈ followedTypes entry, P (types t)) →
      ∀ type, (entryObject types (fileName items) entry).typeOf = some type → P type)
    (hquals : ∀ type quals type', withQualifiers type quals = some type' → P type → P type')
    {entry : Entry} (hentry : entry ∈ entries items) : ∀ t ∈ followedTypes entry, P (types t) := by
  induction hrank : rank (nodeId entry.index) using Nat.strong_induction_on
    generalizing entry with
  | _ n ih =>
    intro t ht
    obtain ⟨target, htarget, hindex, hbind⟩ := hdenotes entry hentry t ht
    obtain ⟨type, htype, hqualified⟩ := Option.bind_eq_some_iff.mp hbind
    have hless : rank (nodeId target.index) < n := by
      rw [← hrank, hindex]
      exact h.descends entry hentry _
        (List.mem_append_right _ (List.mem_map_of_mem (f := fun t => nodeId t.index) ht))
    have hholds : P type := hentries target htarget (ih _ hless htarget rfl) type htype
    unfold qualifiedType at hqualified
    split at hqualified
    · exact Option.some.inj hqualified ▸ hholds
    · exact hquals _ _ _ hqualified hholds

/-- All types that are referred to can be created. -/
theorem creatable_types_of_entry {entry : Entry} (hentry : entry ∈ entries items) :
    ∀ t ∈ followedTypes entry, Creatable (types t) :=
  types_induction h hdenotes (fun _ hentry hbelow _ => creatable_of_below h hentry hbelow)
    (fun _ _ _ => creatable_withQualifiers) hentry

/-- Nothing in the objects for the entries is in the way of `CreateCxxTypes`. -/
theorem canCreateType_entry {entry : Entry} (hentry : entry ∈ entries items) :
    canCreateType (entryObject types (fileName items) entry) = true := by
  cases entry with
  | declaration d => cases d <;> rfl
  | typeNode t =>
    exact creatable_of_below h hentry (creatable_types_of_entry h hdenotes hentry) rfl

theorem canCreateType_madeUp {entry : Entry} (hentry : entry ∈ entries items) {type : SourceType}
    (htype : madeUpType (entryObject types (fileName items) entry) = some type) :
    Creatable type := by
  cases entry with
  | declaration d =>
    cases d with
    | function d =>
      obtain rfl := Option.some.inj htype
      have hrefs := creatable_types_of_entry h hdenotes hentry
      refine creatable_function ?_ fun type hmem => ?_
      · split
        · rename_i hreturns
          exact hrefs d.returns (by simp [followedTypes, typeRefs, hreturns])
        · exact creatable_void
      · obtain ⟨a, ha, rfl⟩ := List.mem_map.mp hmem
        exact hrefs _ (List.mem_append_right _ (List.mem_map_of_mem ha))
    | record d | enumeral d =>
      obtain rfl := Option.some.inj htype
      rfl
    | namespaceDecl | namespaceAlias | typedef | var | field => cases htype
  | typeNode t => cases htype

end Creating

section Examples

/-- A class in the global namespace with a field that is a pointer to const int. -/
def fieldOfClass : List Item :=
  [.entry (.declaration (.namespaceDecl { index := 1, name := some "::".toList })),
    .entry (.declaration (.record
      { index := 2, name := some "C".toList, context := some ⟨1, false⟩, sourceLine := 3
        tag := .cls, members := [5], union_bases := fun h => by cases h })),
    .entry (.typeNode { index := 3, shape := .fundamental (some "int".toList) }),
    .cvQualified { index := 3, quals := (true, false) },
    .entry (.typeNode
      { index := 4, shape := .pointer { index := 3, quals := (true, false) } }),
    .entry (.declaration (.field
      { index := 5, name := some "p".toList, context := some ⟨2, true⟩, isPrivate := true
        sourceLine := 4, type := { index := 4 }, byteOffset := ⟨0, 0⟩, bitOffset := ⟨0, 0⟩ })),
    .file 0 "c.h".toList]

theorem wellFormed_fieldOfClass : WellFormedDump fieldOfClass
    fun id => (["_1", "_2", "_3", "_4", "_5"].map String.toList).idxOf id := by
  have hns : Present fieldOfClass IsScope (nodeId 1) :=
    ⟨_, List.mem_cons_self, rfl, Or.inl (.namespaceDecl _)⟩
  have hrecord : Present fieldOfClass IsScope (nodeId 2) :=
    ⟨_, List.mem_cons_of_mem _ List.mem_cons_self, rfl, Or.inr (.record _)⟩
  have hfile : ∃ name, (0, name) ∈ files fieldOfClass := ⟨_, List.mem_cons_self⟩
  have hname : ("int", CxxTypes.FundamentalId.int) ∈ fundamentalTypeNames := by decide
  have hnil : Printable (attributesText []) := fun c hc => (by cases hc)
  have hint : .typeNode { index := 3, shape := .fundamental (some "int".toList) } ∈
      entries fieldOfClass := List.mem_cons_of_mem _ (List.mem_cons_of_mem _ List.mem_cons_self)
  have hpointer : .typeNode
      { index := 4, shape := .pointer { index := 3, quals := (true, false) } } ∈
      entries fieldOfClass :=
    List.mem_cons_of_mem _ (List.mem_cons_of_mem _ (List.mem_cons_of_mem _ List.mem_cons_self))
  refine ⟨⟨by decide, List.nodup_singleton _⟩, List.cons_ne_nil _ _, ?_, ?_, ?_, by decide⟩
  · have hprintable : Printable "c.h".toList := printable_of_all (by decide)
    exact List.forall_mem_singleton.mpr hprintable
  · refine List.forall_mem_cons.mpr ⟨?_, List.forall_mem_cons.mpr ⟨?_, List.forall_mem_cons.mpr
      ⟨?_, List.forall_mem_cons.mpr ⟨?_, List.forall_mem_cons.mpr ⟨?_, by simp⟩⟩⟩⟩⟩
    · exact ⟨printable_texts (by decide), fun h => (by cases h), fun h => (by cases h),
        fun c h => (by cases h), fun a h => (by cases h), fun r h => (by cases h),
        fun f h => (by cases h)⟩
    · refine ⟨printable_texts (by decide), fun _ => (by decide), fun _ => hfile, fun c h => ?_,
        fun a h => (by cases h), fun r h => ?_, fun f h => (by cases h)⟩
      · exact Option.some.inj h ▸ hns
      · cases h
        exact fun id hid => (by cases hid)
    · refine ⟨hnil, fun n h => ?_, fun c h => (by cases h)⟩
      cases h
      exact ⟨_, hname, rfl⟩
    · exact ⟨hnil, fun n h => (by cases h), fun c h => (by cases h)⟩
    · refine ⟨printable_texts (by decide), fun _ => (by decide), fun _ => hfile, fun c h => ?_,
        fun a h => (by cases h), fun r h => (by cases h), fun f h => ?_⟩
      · exact Option.some.inj h ▸ hrecord
      · cases h
        decide
  · refine List.forall_mem_cons.mpr ⟨?_, List.forall_mem_cons.mpr ⟨?_, List.forall_mem_cons.mpr
      ⟨?_, List.forall_mem_cons.mpr ⟨?_, List.forall_mem_cons.mpr ⟨?_, by simp⟩⟩⟩⟩⟩
    · exact fun t ht => (by cases ht)
    · exact fun t ht => (by cases ht)
    · exact fun t ht => (by cases ht)
    · exact List.forall_mem_singleton.mpr ⟨_, hint, rfl, .typeNode _, fun _ => .typeNode _ rfl⟩
    · exact List.forall_mem_singleton.mpr ⟨_, hpointer, rfl, .typeNode _, fun h => absurd rfl h⟩

end Examples

section Results

variable {demangle : Text → Option Text} {items : List Item} {rank : Text → Nat}
  (h : WellFormedDump items rank) {V : Text → Outcome SourceObject}
  (hV : IsValue (dumpTable demangle items) V)
include h hV

/-- Whatever is registered in the construction can be created. -/
theorem canCreateType_granted {id : Text} {o : SourceObject}
    (hgranted : Granted (dumpTable demangle items) V id o) : canCreateType o = true := by
  have hdenotes := denotes_dump h hV
  have hentry : ∀ {id e o}, getSourceElement (dumpTable demangle items) id = some e →
      V id = .returned o → ∃ entry ∈ entries items,
        o = entryObject (typesOf (dumpTable demangle items) V) (fileName items) entry := by
    intro id e o hfind hvalue
    obtain ⟨entry, hentry, rfl, -⟩ := (find_dump h).mp hfind
    have hread := (valued_entry h hV hentry).value
    rw [hvalue] at hread
    exact ⟨entry, hentry, Outcome.returned.inj hread⟩
  cases hgranted with
  | element hfind hvalue =>
    obtain ⟨entry, hmem, rfl⟩ := hentry hfind hvalue
    exact canCreateType_entry h hdenotes hmem
  | madeUp hfind hvalue htype =>
    obtain ⟨entry, hmem, rfl⟩ := hentry hfind hvalue
    exact canCreateType_madeUp h hdenotes hmem htype
  | qualified hqualifiers hfind hvalue =>
    simp only [valueOf, hfind] at hvalue
    cases hobject : V (unqualified id) with
    | crashed => simp [hobject] at hvalue
    | failed => simp [hobject] at hvalue
    | returned o =>
      simp only [hobject] at hvalue
      obtain ⟨entry, hmem, rfl⟩ := hentry hfind hobject
      obtain ⟨type, htype, hqualified⟩ := qualify_inv hqualifiers hvalue
      exact creatable_withQualifiers hqualified (creatable_of_below h hmem
        (creatable_types_of_entry h hdenotes hmem) htype)
  | constructorReturn => exact creatable_void

variable (demangle) in
omit hV in
/-- The construction for a dump succeeds. -/
theorem exists_representation : ∃ V s, IsValue (dumpTable demangle items) V ∧
    (Enough fun fuel =>
      getSourceRepresentation (dumpTable demangle items) fuel = some (.returned s)) ∧
    Built (dumpTable demangle items) V s := by
  have hids : IdsMatch (dumpTable demangle items) := idsMatch_dump h
  obtain ⟨V, hV⟩ := exists_values hids (acyclic_dump h)
  have hall : ∀ e, e ∈ elementsInOrder (dumpTable demangle items) ↔
      ∃ id, getSourceElement (dumpTable demangle items) id = some e := fun e =>
    mem_elementsInOrder_iff (nodup_run (run_dump h []))
  obtain ⟨r, hr, hlooped, hunique⟩ := exists_run hids (plainIds_dump h) (referencesExist_dump h)
    (acyclic_dump h) hV fun e => (hall e).mp
  have houtcome : r.outcome = .returned () := by
    refine hlooped.returned.mpr fun e he => ?_
    obtain ⟨id, hfind⟩ := (hall e).mp he
    obtain ⟨entry, hentry, rfl, -⟩ := (find_dump h).mp hfind
    rw [valueOf, hids _ e hfind]
    exact ⟨_, (valued_entry h hV hentry).value⟩
  have hcreate : r.state.createCxxTypes = true := (createCxxTypes_iff hunique).mpr fun id o ho =>
    canCreateType_granted h hV (hlooped.consistent.granted id o ho)
  have hfinish : finish r = .returned r.state :=
    finish_eq_returned_iff.mpr ⟨houtcome, hcreate, rfl⟩
  have hnonempty : (dumpTable demangle items).elementMap.entries ≠ [] := by
    obtain ⟨entry, hentry⟩ := List.exists_mem_of_ne_nil _ h.nonempty
    exact List.ne_nil_of_mem (StdMap.mem_of_find stringLess_strictTotal (find_entry h hentry))
  refine ⟨V, r.state, hV, hr.mono fun fuel hfuel => ?_, built_of_looped hids hall hlooped houtcome⟩
  have herror : ¬ ((dumpTable demangle items).sourceParseError = true ∨
      (dumpTable demangle items).elementMap.entries = []) :=
    not_or.mpr ⟨Bool.false_ne_true, hnonempty⟩
  rw [getSourceRepresentation, if_neg herror, constructSourceRepresentation, hfuel,
    Option.map_some, hfinish]

end Results

section Reading

variable {demangle : Text → Option Text} {items : List Item} {rank : Text → Nat}

/-- The object under the id of an entry is the one for the entry. -/
theorem object_dump (h : WellFormedDump items rank) {V : Text → Outcome SourceObject}
    {s : Representation} (hV : IsValue (dumpTable demangle items) V)
    (hbuilt : Built (dumpTable demangle items) V s) {entry : Entry}
    (hentry : entry ∈ entries items) : s.getSourceObject (nodeId entry.index) =
      some (entryObject (typesOf (dumpTable demangle items) V) (fileName items) entry) := by
  have hfind : getSourceElement (dumpTable demangle items) (nodeId entry.index) = _ :=
    find_entry h hentry
  refine (hbuilt.objects _ _).mpr ⟨_, _, hfind, List.mem_append_left _ ?_⟩
  exact registers_self (idsMatch_dump h) hV hfind (valued_entry h hV hentry).value

end Reading

section Members

/-- The member of a context that a declaration is. -/
def memberOf (context : Text) : Entry → Option (Text × Access × Text)
  | .declaration d =>
    if d.decl.context.map (fun c => nodeId c.index) = some context then
      some (memberName d, declaredAccess d.decl, nodeId d.decl.index)
    else none
  | .typeNode _ => none

def entryAttributes : Entry → List Attribute
  | .declaration d => printedAttributes d
  | .typeNode t => t.attributes

/-- A namespace that has the name of the global one, and no context. -/
def isGlobal : Entry → Bool
  | .declaration (.namespaceDecl d) => d.name = some "::".toList ∧ d.context.isNone
  | _ => false

variable {names : Text → Text}

theorem globalChanges_eq (d : Declaration) : globalChanges names d =
    if isGlobal (.declaration d) then [.setGlobalNamespace (nodeId d.decl.index)] else [] := by
  cases d with
  | namespaceDecl d =>
    have hsame : isGlobalNamespace (namedFor names (.namespaceDecl d)) =
        isGlobal (.declaration (.namespaceDecl d)) := by
      have hname : memberName (.namespaceDecl d) = "::".toList ↔ d.name = some "::".toList := by
        show (d.name.getD _) = _ ↔ _
        cases d.name with
        | none =>
          have hne : ¬ "\x7banonymous-namespace\x7d".toList = "::".toList := by decide
          exact iff_of_false hne (by simp)
        | some name => simp
      have hcontext : (namedFor names (.namespaceDecl d)).context.isNone = d.context.isNone :=
        Option.isNone_map
      simp only [isGlobalNamespace, isGlobal, hcontext]
      exact decide_eq_decide.mpr (and_congr_left fun _ => hname)
    rw [globalChanges, hsame]
    rfl
  | namespaceAlias | typedef | function | var | field | record | enumeral => rfl

/-- What a declaration changes, one after the other. -/
theorem mem_changesFor {d : Declaration} {c : Change} (hc : c ∈ changesFor names d) :
    (∃ context, d.decl.context = some context ∧
      c = .addNamed (nodeId context.index) (memberName d) (declaredAccess d.decl)
        (nodeId d.decl.index)) ∨
    (isGlobal (.declaration d) ∧ c = .setGlobalNamespace (nodeId d.decl.index)) ∨
    c = .setAttributes (nodeId d.decl.index) (attributesText (printedAttributes d)) := by
  rcases List.mem_append.mp hc with hc | hc
  · rcases List.mem_append.mp hc with hc | hc
    · obtain ⟨context, hcontext, rfl⟩ := List.mem_map.mp hc
      exact Or.inl ⟨context, Option.mem_toList.mp hcontext, rfl⟩
    · rw [globalChanges_eq, List.mem_ite_nil_right, List.mem_singleton] at hc
      exact Or.inr (Or.inl hc)
  · unfold attributeChanges at hc
    rw [List.mem_ite_nil_left, List.mem_singleton] at hc
    exact Or.inr (Or.inr hc.2)

theorem owner_entryChanges {entry : Entry} {c : Change} (hc : c ∈ entryChanges names entry) :
    owner c = nodeId entry.index := by
  cases entry with
  | declaration d =>
    rcases mem_changesFor hc with ⟨context, -, rfl⟩ | ⟨-, rfl⟩ | rfl <;> rfl
  | typeNode t =>
    have hc : c ∈ nodeChanges t := hc
    unfold nodeChanges at hc
    split at hc
    · cases hc
    · exact List.mem_singleton.mp hc ▸ rfl

theorem entryOf_entryChanges (context : Text) (entry : Entry) :
    (entryChanges names entry).filterMap (entryOf context) = (memberOf context entry).toList := by
  cases entry with
  | declaration d =>
    have hglobal : (globalChanges names d).filterMap (entryOf context) = [] := by
      rw [globalChanges_eq]
      split <;> rfl
    have hattributes : (attributeChanges d).filterMap (entryOf context) = [] := by
      unfold attributeChanges
      split <;> rfl
    rw [entryChanges, changesFor, List.filterMap_append, List.filterMap_append, hglobal,
      hattributes, List.append_nil, List.append_nil, memberChanges, memberOf]
    cases d.decl.context with
    | none => rfl
    | some c =>
      by_cases hc : nodeId c.index = context
      · simp [entryOf, hc]
      · simp [entryOf, hc]
  | typeNode t =>
    show (nodeChanges t).filterMap (entryOf context) = []
    unfold nodeChanges
    split <;> rfl

/-- The attributes that a change saves for an element. -/
def savedOf (id : Text) : Change → Option Text
  | .addNamed _ _ _ _ => none
  | .setGlobalNamespace _ => none
  | .setAttributes id' atts => if id' = id then some atts else none

theorem attributes_eq_foldl (s : Representation) (id : Text) :
    s.attributes id = (s.changes.filterMap (savedOf id)).foldl (fun _ atts => atts) [] := by
  refine Eq.trans ?_ List.foldl_filterMap.symm
  show List.foldl _ [] s.changes = _
  congr 1
  funext atts c
  cases c with
  | addNamed | setGlobalNamespace => rfl
  | setAttributes id' atts' => by_cases hid : id' = id <;> simp [savedOf, hid]

/-- The attributes that are saved, which are none if nothing is printed. -/
theorem attributes_entryChanges (entry : Entry) :
    Representation.attributes { changes := entryChanges names entry } (nodeId entry.index) =
      attributesText (entryAttributes entry) := by
  have hsaved : ∀ (id : Text) (attributes : List Attribute),
      List.foldl (fun _ atts => atts) [] (List.filterMap (savedOf id)
        (if attributes = [] then [] else [.setAttributes id (attributesText attributes)])) =
      attributesText attributes := by
    intro id attributes
    by_cases hempty : attributes = []
    · rw [if_pos hempty, hempty]
      rfl
    · simp [hempty, savedOf]
  rw [attributes_eq_foldl]
  cases entry with
  | declaration d =>
    have hmember : (memberChanges d).filterMap (savedOf (nodeId d.decl.index)) = [] := by
      unfold memberChanges
      cases d.decl.context <;> rfl
    have hglobal : (globalChanges names d).filterMap (savedOf (nodeId d.decl.index)) = [] := by
      rw [globalChanges_eq]
      split <;> rfl
    show ((changesFor names d).filterMap (savedOf (nodeId d.decl.index))).foldl _ [] = _
    rw [changesFor, List.filterMap_append, List.filterMap_append, hmember, hglobal, List.nil_append]
    exact hsaved _ _
  | typeNode t => exact hsaved _ _

theorem mem_globalIds {entry : Entry} {id : Text}
    (hid : id ∈ (entryChanges names entry).filterMap globalIdOf) :
    isGlobal entry ∧ id = nodeId entry.index := by
  obtain ⟨c, hc, hcid⟩ := List.mem_filterMap.mp hid
  cases entry with
  | declaration d =>
    rcases mem_changesFor hc with ⟨context, -, rfl⟩ | ⟨hglobal, rfl⟩ | rfl
    · cases hcid
    · exact ⟨hglobal, (Option.some.inj hcid).symm⟩
    · cases hcid
  | typeNode t =>
    have hc : c ∈ nodeChanges t := hc
    unfold nodeChanges at hc
    split at hc
    · cases hc
    · rw [List.mem_singleton.mp hc] at hcid
      cases hcid

theorem setGlobal_mem {entry : Entry} (h : isGlobal entry = true) :
    .setGlobalNamespace (nodeId entry.index) ∈ entryChanges names entry := by
  cases entry with
  | declaration d =>
    refine List.mem_append_left _ (List.mem_append_right _ ?_)
    rw [globalChanges_eq, if_pos h]
    exact List.mem_cons_self
  | typeNode t => cases h

/-- The last of some values that are all the same. -/
theorem foldl_same {l : List Text} {id init : Text} (hne : l ≠ []) (hall : ∀ a ∈ l, a = id) :
    l.foldl (fun _ a => a) init = id := by
  rw [List.eq_replicate_of_mem hall] at hne ⊢
  cases l with
  | nil => exact absurd rfl hne
  | cons a l =>
    rw [List.length_cons, List.replicate_succ', List.foldl_append]
    rfl

/-- Among the changes for some entries, those of one entry are its own. -/
theorem filter_owner {l : List Entry} (hnodup : (l.map Entry.index).Nodup) {entry : Entry}
    (hentry : entry ∈ l) :
    (l.flatMap (entryChanges names)).filter (fun c => owner c = nodeId entry.index) =
      entryChanges names entry := by
  have hother : ∀ {e e' : Entry}, e.index ≠ e'.index →
      (entryChanges names e').filter (fun c => owner c = nodeId e.index) = [] := by
    intro e e' hne
    refine List.filter_eq_nil_iff.mpr fun c hc howner => hne ?_
    rw [owner_entryChanges hc] at howner
    exact (nodeId_injective (of_decide_eq_true howner)).symm
  induction l with
  | nil => cases hentry
  | cons e l ih =>
    rw [List.map_cons, List.nodup_cons] at hnodup
    rw [List.flatMap_cons, List.filter_append]
    rcases List.mem_cons.mp hentry with rfl | hrest
    · have hself : (entryChanges names entry).filter (fun c => owner c = nodeId entry.index) =
          entryChanges names entry :=
        List.filter_eq_self.mpr fun c hc => decide_eq_true (owner_entryChanges hc)
      have hnil : (l.flatMap (entryChanges names)).filter
          (fun c => owner c = nodeId entry.index) = [] := by
        rw [List.filter_flatMap]
        refine List.flatMap_eq_nil_iff.mpr fun e' he' => hother fun heq => hnodup.1 ?_
        rw [heq]
        exact List.mem_map_of_mem he'
      rw [hself, hnil, List.append_nil]
    · have hne : entry.index ≠ e.index := fun heq =>
        hnodup.1 (heq ▸ List.mem_map_of_mem hrest)
      rw [hother hne, List.nil_append]
      exact ih hnodup.2 hrest

variable {demangle : Text → Option Text} {items : List Item} {rank : Text → Nat}
  (h : WellFormedDump items rank) {V : Text → Outcome SourceObject} {s : Representation}
  (hV : IsValue (dumpTable demangle items) V) (hbuilt : Built (dumpTable demangle items) V s)
include h hV hbuilt

theorem ownChanges_entry {entry : Entry} (hentry : entry ∈ entries items) :
    ownChanges s (nodeId entry.index) = entryChanges (fileName items) entry := by
  rw [hbuilt.changes _ _ (find_entry h hentry)]
  exact denoteElement_entry h hV hentry

/-- The changes are those of the entries, in some order. -/
theorem changes_dump :
    s.changes.Perm ((entries items).flatMap (entryChanges (fileName items))) := by
  refine changes_perm (s := { changes := (entries items).flatMap _ }) fun id => ?_
  by_cases hid : ∃ entry ∈ entries items, nodeId entry.index = id
  · obtain ⟨entry, hentry, rfl⟩ := hid
    rw [ownChanges_entry h hV hbuilt hentry]
    exact (filter_owner h.distinct.entries hentry).symm
  · have hmissing : getSourceElement (dumpTable demangle items) id = none := by
      refine Option.eq_none_iff_forall_not_mem.mpr fun e he => hid ?_
      obtain ⟨entry, hentry, hindex, -⟩ := (find_dump h).mp he
      exact ⟨entry, hentry, hindex⟩
    rw [hbuilt.missing hmissing]
    refine (List.filter_eq_nil_iff.mpr fun c hc howner => hid ?_).symm
    obtain ⟨entry, hentry, hchange⟩ := List.mem_flatMap.mp hc
    exact ⟨entry, hentry, (owner_entryChanges hchange).symm.trans (of_decide_eq_true howner)⟩

/-- The context of each declaration has it as a member, with the name and access that were
declared, and has no other members. The attributes are those of the nodes, and the global namespace
is the one of the dump. -/
theorem members_dump :
    (∀ context, (s.memberMap context).Perm ((entries items).filterMap (memberOf context))) ∧
    (∀ entry ∈ entries items,
      s.attributes (nodeId entry.index) = attributesText (entryAttributes entry)) ∧
    ∀ entry ∈ entries items, isGlobal entry →
      (∀ entry' ∈ entries items, isGlobal entry' → entry' = entry) →
        s.globalNamespaceId = nodeId entry.index := by
  have hperm := changes_dump h hV hbuilt
  refine ⟨fun context => ?_, fun entry hentry => ?_, fun entry hentry hglobal honly => ?_⟩
  · rw [memberMap_eq]
    refine (hperm.filterMap (entryOf context)).trans (List.Perm.of_eq ?_)
    rw [List.filterMap_flatMap]
    simp only [entryOf_entryChanges]
    exact (List.filterMap_eq_flatMap_toList _ _).symm
  · rw [ConstructionOrder.attributes_eq, ownChanges_entry h hV hbuilt hentry]
    exact attributes_entryChanges entry
  · have hids := hperm.filterMap globalIdOf
    rw [globalNamespaceId_eq]
    refine foldl_same (fun hnil => ?_) fun id hid => ?_
    · rw [hnil] at hids
      have hmem : nodeId entry.index ∈
          ((entries items).flatMap (entryChanges (fileName items))).filterMap globalIdOf :=
        List.mem_filterMap.mpr ⟨.setGlobalNamespace (nodeId entry.index),
          List.mem_flatMap.mpr ⟨entry, hentry, setGlobal_mem hglobal⟩, rfl⟩
      rw [hids.symm.eq_nil] at hmem
      cases hmem
    · have hid' := hids.mem_iff.mp hid
      rw [List.filterMap_flatMap] at hid'
      obtain ⟨entry', hentry', hmem⟩ := List.mem_flatMap.mp hid'
      obtain ⟨hglobal', rfl⟩ := mem_globalIds hmem
      rw [honly entry' hentry' hglobal']

end Members

section Membership

variable {demangle : Text → Option Text} {items : List Item} {rank : Text → Nat}

/-- In the representation that is read from the document for a well-formed dump, every context has
as members exactly the declarations that were declared in it, each once and with its name and
access; the attributes of each node are saved, and the global namespace is found. -/
theorem dump_members (h : WellFormedDump items rank) (rootAttributes : Attributes) :
    ∃ p s,
      SourceParser.run (dumpDocument demangle rootAttributes items).events
        (SourceParser.prepare {}) = some p ∧
      (Enough fun fuel => getSourceRepresentation p fuel = some (.returned s)) ∧
      (∀ context, (s.memberMap context).Perm ((entries items).filterMap (memberOf context))) ∧
      (∀ entry ∈ entries items,
        s.attributes (nodeId entry.index) = attributesText (entryAttributes entry)) ∧
      ∀ entry ∈ entries items, isGlobal entry →
        (∀ entry' ∈ entries items, isGlobal entry' → entry' = entry) →
          s.globalNamespaceId = nodeId entry.index := by
  obtain ⟨V, s, hV, hreturned, hbuilt⟩ := exists_representation demangle h
  exact ⟨_, s, run_dump h rootAttributes, hreturned, members_dump h hV hbuilt⟩

theorem dump_members_fieldOfClass : ∃ p s,
    SourceParser.run (dumpDocument (fun _ => none) [] fieldOfClass).events
      (SourceParser.prepare {}) = some p ∧
    (Enough fun fuel => getSourceRepresentation p fuel = some (.returned s)) ∧
    (∀ context,
      (s.memberMap context).Perm ((entries fieldOfClass).filterMap (memberOf context))) ∧
    (∀ entry ∈ entries fieldOfClass,
      s.attributes (nodeId entry.index) = attributesText (entryAttributes entry)) ∧
    ∀ entry ∈ entries fieldOfClass, isGlobal entry →
      (∀ entry' ∈ entries fieldOfClass, isGlobal entry' → entry' = entry) →
        s.globalNamespaceId = nodeId entry.index :=
  dump_members wellFormed_fieldOfClass []

end Membership

end CableSwig.Parsers.DumpReading
