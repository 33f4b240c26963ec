import CableSwig.Parsers.DeclarationReading
import CableSwig.Parsers.ElementTable
import CableSwig.Parsers.TypeReading

/-!
# The table of a dump

The document that is written for some nodes, and the table that the event handlers make of it: one
element for each node, under its id and with what was printed for it, and the name of each file.
-/
namespace CableSwig.Parsers.DumpTable

open CableSwig.GccXml.DeclarationAttributes
open CableSwig.GccXml.DeclarationDump
open CableSwig.GccXml.EscapeString
open CableSwig.GccXml.FileQueue (fileId)
open CableSwig.GccXml.TypeDump (Element getAttribute nodeId)
open CableSwig.Lib.OrderedMap
open CableSwig.Lib.StdString
open CableSwig.Parsers.DeclarationReading
open CableSwig.Parsers.ElementTable
open CableSwig.Parsers.TypeReading (nodeId_injective)
open CableSwig.Parsers.XmlSourceParser (Event SourceParser setAttributes stringLess
  stringLess_strictTotal)
open CableSwig.Parsers.XmlSourceParser.SourceParser

section Documents

variable (demangle : Text → Option Text)

/-- An element with the attributes that an XML parser reports. -/
def elementNode (e : Element) : Node :=
  .mk e.name (attributeValues e.attributes)
    (e.nested.map fun n => .mk n.1 (attributeValues n.2) [])

/-- The document that `do_xml_output` writes, where the attributes of the root are not read. -/
def dumpDocument (rootAttributes : Attributes) (items : List Item) : Node :=
  .mk "GCC_XML" rootAttributes ((items.filterMap (Item.output demangle)).map elementNode)

def entries (items : List Item) : List Entry :=
  items.filterMap fun
    | .entry e => some e
    | _ => none

def files (items : List Item) : List (Nat × Text) :=
  items.filterMap fun
    | .file index name => some (index, name)
    | _ => none

/-- The element as it is kept in the table. -/
def kept (w : Element) : Element where
  name := w.name
  attributes := setAttributes (attributeValues w.attributes)
  nested := w.nested.map fun n => (n.1, setAttributes (attributeValues n.2))

def elementRow (entry : Entry) : Text × Element :=
  (nodeId entry.index, kept (entry.output demangle))

def fileRow (f : Nat × Text) : Text × Text := (fileId f.1, f.2)

/-- The parser after it has read a dump. -/
def tableOf (items : List Item) (p : SourceParser) : SourceParser :=
  { p with
    elementMap := p.elementMap.assignAll stringLess ((entries items).map (elementRow demangle))
    fileMap := p.fileMap.assignAll stringLess ((files items).map fileRow) }

end Documents

section Attributes

theorem getAttribute_filter_ne {name n : String} (h : name ≠ n) (atts : Attributes) :
    getAttribute (atts.filter fun b => b.1 ≠ name) n = getAttribute atts n := by
  induction atts with
  | nil => rfl
  | cons a atts ih =>
    rw [List.filter_cons, getAttribute_cons]
    by_cases ha : a.1 = name
    · have hne : ¬ a.1 = n := fun han => h (ha ▸ han)
      rw [if_neg (by simpa using ha), if_neg hne]
      exact ih
    · rw [if_pos (by simpa using ha), getAttribute_cons, ih]

/-- Each attribute replaces what has been set under its name. -/
theorem getAttribute_setAttributes (atts : Attributes) (n : String) :
    getAttribute (setAttributes atts) n = getAttribute atts.reverse n := by
  suffices h : ∀ m : Attributes,
      getAttribute (atts.foldl (fun m a => a :: m.filter fun b => b.1 ≠ a.1) m) n =
        (getAttribute atts.reverse n).or (getAttribute m n) by
    have hnil := h []
    rwa [getAttribute_nil, Option.or_none] at hnil
  induction atts with
  | nil => intro m; rfl
  | cons a atts ih =>
    intro m
    rw [List.foldl_cons, ih, List.reverse_cons, getAttribute_append, Option.or_assoc]
    congr 1
    rw [getAttribute_cons, getAttribute_cons, getAttribute_nil]
    by_cases ha : a.1 = n
    · rw [if_pos ha, if_pos ha, Option.some_or]
    · rw [if_neg ha, if_neg ha, Option.none_or, getAttribute_filter_ne ha]

/-- Attributes of different names are all kept. -/
theorem getAttribute_reverse {atts : Attributes} (h : (atts.map Prod.fst).Nodup) (n : String) :
    getAttribute atts.reverse n = getAttribute atts n := by
  induction atts with
  | nil => rfl
  | cons a atts ih =>
    rw [List.map_cons, List.nodup_cons] at h
    rw [List.reverse_cons, getAttribute_append, ih h.2, getAttribute_cons, getAttribute_cons,
      getAttribute_nil]
    by_cases ha : a.1 = n
    · have hnone : getAttribute atts n = none := by
        refine Option.map_eq_none_iff.mpr (List.find?_eq_none.mpr fun b hb hbn => h.1 ?_)
        rw [ha, ← of_decide_eq_true hbn]
        exact List.mem_map_of_mem hb
      rw [if_pos ha, if_pos ha, hnone, Option.none_or]
    · rw [if_neg ha, if_neg ha, Option.or_none]

theorem getAttribute_kept {atts : Attributes} (h : (atts.map Prod.fst).Nodup) (n : String) :
    getAttribute (setAttributes (attributeValues atts)) n =
      (getAttribute atts n).map attributeValue := by
  have hnames : ((attributeValues atts).map Prod.fst).Nodup := by
    rw [attributeValues, List.map_map]
    exact h
  rw [getAttribute_setAttributes, getAttribute_reverse hnames, getAttribute_values]

/-- What is kept of an element carries what was written. -/
theorem carries_kept {w : Element} (h : (w.attributes.map Prod.fst).Nodup)
    (hnested : ∀ n ∈ w.nested, (n.2.map Prod.fst).Nodup) : Carries (kept w) w := by
  refine ⟨rfl, getAttribute_kept h, ?_⟩
  refine List.forall₂_map_left_iff.mpr (List.forall₂_same.mpr fun n hn => ⟨rfl, ?_⟩)
  exact getAttribute_kept (hnested n hn)

variable (demangle : Text → Option Text)

theorem nodup_output (entry : Entry) :
    ((entry.output demangle).attributes.map Prod.fst).Nodup := by
  cases entry with
  | declaration d => exact nodup_xmlOutput demangle d
  | typeNode t => exact nodup_typeNode t

theorem nodup_output_nested (entry : Entry) :
    ∀ n ∈ (entry.output demangle).nested, (n.2.map Prod.fst).Nodup := by
  cases entry with
  | declaration d => exact nodup_nested demangle d
  | typeNode t => exact nodup_typeNode_nested t

theorem carries_entry (entry : Entry) :
    Carries (kept (entry.output demangle)) (entry.output demangle) :=
  carries_kept (nodup_output demangle entry) (nodup_output_nested demangle entry)

theorem getAttribute_kept_id (entry : Entry) :
    getAttribute (kept (entry.output demangle)).attributes "id" = some (nodeId entry.index) := by
  rw [(carries_entry demangle entry).attributes]
  cases entry with
  | declaration d =>
    rw [Entry.output, getAttribute_xmlOutput_id, Option.map_some,
      attributeValue_simple (simple_nodeId _)]
    rfl
  | typeNode t =>
    rw [Entry.output, getAttribute_typeNode_id, Option.map_some,
      attributeValue_simple (simple_nodeId _)]
    rfl

end Attributes

section Handlers

variable {p : SourceParser} {e : Element} {name : String} {atts : Attributes}

/-- The start of an element that stands in another one. -/
theorem startElement_nested (hnesting : p.unknownElementNesting = 0)
    (hcurrent : p.currentElement = some e) (haccepts : Accepts e.name name) :
    p.startElement name atts =
      { p with
        currentElement := some { e with nested := e.nested ++ [(name, setAttributes atts)] } } := by
  have hzero : ¬ p.unknownElementNesting ≠ 0 := fun h => h hnesting
  have hstart : ∀ (name : String) (parentOk : String → Bool), parentOk e.name = true →
      p.startNested name parentOk atts = { p with
        currentElement := some { e with nested := e.nested ++ [(name, setAttributes atts)] } } := by
    intro name parentOk hok
    simp only [startNested, hcurrent, hok, if_true]
  rw [startElement, if_neg hzero]
  rcases haccepts with rfl | rfl | ⟨rfl, hname⟩ | ⟨rfl, hname⟩
  · simp only [String.reduceEq, if_false, if_true]
    exact hstart "Argument" (fun _ => true) rfl
  · simp only [String.reduceEq, if_false, if_true]
    exact hstart "Ellipsis" (fun _ => true) rfl
  · simp only [String.reduceEq, if_false, if_true]
    exact hstart "EnumValue" (fun parent => parent = "Enumeration") (decide_eq_true hname)
  · simp only [String.reduceEq, if_false, if_true]
    exact hstart "Base" (fun parent => parent = "Class" ∨ parent = "Struct")
      (decide_eq_true hname)

/-- The events of the elements in another one. -/
theorem run_nested (hnesting : p.unknownElementNesting = 0) (hcurrent : p.currentElement = some e)
    {nested : List (String × Attributes)} (haccepts : ∀ n ∈ nested, Accepts e.name n.1) :
    run (eventsOf (nested.map fun n => .mk n.1 (attributeValues n.2) [])) p =
      some { p with
        currentElement := some { e with
          nested := e.nested ++
            nested.map fun n => (n.1, setAttributes (attributeValues n.2)) } } := by
  induction nested generalizing p e with
  | nil =>
    obtain ⟨fileMap, elementMap, nesting, error, current⟩ := p
    obtain rfl : current = some e := hcurrent
    rw [List.map_nil, List.map_nil, List.append_nil]
    rfl
  | cons n nested ih =>
    obtain ⟨hn, hrest⟩ := List.forall_mem_cons.mp haccepts
    have hnot : n.1 ∉ otherElements := by
      rcases hn with h | h | ⟨h, -⟩ | ⟨h, -⟩ <;> simp [h, otherElements]
    have hstart : p.startElement n.1 (attributeValues n.2) = _ :=
      startElement_nested hnesting hcurrent hn
    have hend : ({ p with
        currentElement := some { e with
          nested := e.nested ++ [(n.1, setAttributes (attributeValues n.2))] } } :
        SourceParser).endElement n.1 = some _ := endElement_plain hnesting hnot
    rw [List.map_cons, eventsOf, run_append, Node.events, eventsOf, List.nil_append, run, handle,
      hstart, Option.bind_some, run, handle, hend, Option.bind_some, run, Option.bind_some,
      List.map_cons, List.append_cons _ _ (nested.map _)]
    exact ih (p := { p with
      currentElement := some { e with
        nested := e.nested ++ [(n.1, setAttributes (attributeValues n.2))] } }) hnesting rfl hrest

/-- A top-level element with what stands in it. -/
theorem run_element (hnesting : p.unknownElementNesting = 0) (hcurrent : p.currentElement = none)
    {w : Element} (hname : w.name ∈ otherElements) (haccepts : ∀ n ∈ w.nested, Accepts w.name n.1)
    {id : Text} (hid : getAttribute (kept w).attributes "id" = some id) :
    run (elementNode w).events p =
      some { p with elementMap := p.elementMap.assign stringLess id (kept w) } := by
  have hstart : p.startElement w.name (attributeValues w.attributes) = _ :=
    startElement_other hnesting hcurrent hname
  have hchildren := run_nested (p := p.startOther w.name (attributeValues w.attributes)) hnesting
    rfl haccepts
  rw [elementNode, Node.events, run, handle, hstart, Option.bind_some, run_append, hchildren,
    Option.bind_some, run, handle, endElement, if_neg fun h => h hnesting, if_pos hname,
    endOther_eq (e := kept w) rfl]
  obtain ⟨fileMap, elementMap, nesting, error, current⟩ := p
  obtain rfl : current = none := hcurrent
  simp only [Option.bind_some, keep, record, hid, startOther, Option.isNone_some, Bool.or_false]
  rfl

end Handlers

section Reading

variable (demangle : Text → Option Text)

theorem output_name (entry : Entry) : (entry.output demangle).name ∈ otherElements := by
  cases entry with
  | declaration d =>
    cases d with
    | function d => cases h : d.tag <;> simp [Entry.output, xmlOutput, xmlOutputFunctionDecl, h,
        tagName, otherElements]
    | record d => cases h : d.tag <;> simp [Entry.output, xmlOutput, xmlOutputRecordType, h,
        RecordTag.name, otherElements]
    | namespaceDecl | namespaceAlias | typedef | var | field | enumeral =>
      simp [Entry.output, xmlOutput, xmlOutputNamespaceDecl, xmlOutputNamespaceAlias,
        xmlOutputTypedef, xmlOutputVarDecl, xmlOutputFieldDecl, xmlOutputEnumeralType,
        otherElements]
  | typeNode t =>
    cases h : t.shape <;>
      simp [Entry.output, xmlOutputTypeNode, h, TypeShape.name, otherElements]

theorem outputArguments_name (pds : List Parm) (tls : List ArgType) :
    ∀ n ∈ outputArguments pds tls, n.1 = "Argument" := by
  have hargument : ∀ pd tl, ∀ n ∈ xmlOutputArgument pd tl, n.1 = "Argument" := by
    intro pd tl n hn
    rw [xmlOutputArgument] at hn
    split at hn
    · cases hn
    · exact Option.some.inj hn ▸ rfl
  induction tls generalizing pds with
  | nil => intro n hn; cases pds <;> cases hn
  | cons tl tls ih =>
    intro n hn
    cases pds with
    | nil =>
      rcases List.mem_append.mp hn with hn | hn
      · exact hargument _ _ n (Option.mem_toList.mp hn)
      · exact ih [] n hn
    | cons pd pds =>
      rcases List.mem_append.mp hn with hn | hn
      · exact hargument _ _ n (Option.mem_toList.mp hn)
      · exact ih pds n hn

theorem ellipsis_name {c : Bool} {n : String × Attributes}
    (h : n ∈ if c then [] else [("Ellipsis", [])]) : n.1 = "Ellipsis" := by
  cases c with
  | true => cases h
  | false => exact List.mem_singleton.mp h ▸ rfl

/-- Nothing stands in an element that does not belong there. -/
theorem output_accepts (entry : Entry) :
    ∀ n ∈ (entry.output demangle).nested, Accepts (entry.output demangle).name n.1 := by
  intro n hn
  have harguments : ∀ pds tls (c : Bool), n ∈ outputArguments pds tls ++
      (if c then [] else [("Ellipsis", [])]) → Accepts (entry.output demangle).name n.1 := by
    intro pds tls c hn
    rcases List.mem_append.mp hn with hn | hn
    · exact Or.inl (outputArguments_name pds tls n hn)
    · exact Or.inr (Or.inl (ellipsis_name hn))
  cases entry with
  | declaration d =>
    cases d with
    | function d => exact harguments _ _ d.voidTerminated hn
    | enumeral d =>
      obtain ⟨v, -, rfl⟩ := List.mem_map.mp hn
      exact Or.inr (Or.inr (Or.inl ⟨rfl, rfl⟩))
    | record d =>
      have hn : n ∈ if d.complete ∧ d.completeType then
        d.bases.reduceOption.map (outputBase d.accesses) else [] := hn
      split at hn
      · obtain ⟨b, hb, rfl⟩ := List.mem_map.mp hn
        refine Or.inr (Or.inr (Or.inr ⟨rfl, ?_⟩))
        show d.tag.name = "Class" ∨ d.tag.name = "Struct"
        cases htag : d.tag with
        | cls => exact Or.inl rfl
        | struct => exact Or.inr rfl
        | union =>
          rw [d.union_bases htag] at hb
          cases hb
      · cases hn
    | namespaceDecl | namespaceAlias | typedef | var | field => cases hn
  | typeNode t =>
    have hn : n ∈ (xmlOutputTypeNode t).nested := hn
    unfold xmlOutputTypeNode at hn
    cases hshape : t.shape with
    | function returns argTypes voidTerminated =>
      rw [hshape] at hn
      exact harguments _ _ voidTerminated hn
    | method basetype returns quals argTypes voidTerminated =>
      rw [hshape] at hn
      exact harguments _ _ voidTerminated hn
    | fundamental | pointer | reference | array | offset => rw [hshape] at hn; cases hn

variable {demangle} {p : SourceParser}

/-- An element that is only skipped. -/
theorem run_cvQualified (hnesting : p.unknownElementNesting = 0)
    (hcurrent : p.currentElement = none) {w : Element} (hname : w.name = "CvQualifiedType")
    (hnested : w.nested = []) : run (elementNode w).events p = some p := by
  have hzero : ¬ p.unknownElementNesting ≠ 0 := fun h => h hnesting
  have hstart : p.startElement "CvQualifiedType" (attributeValues w.attributes) = p := by
    simp [startElement, hnesting, hcurrent]
  have hend : p.endElement "CvQualifiedType" = some p :=
    endElement_plain hnesting (by simp [otherElements])
  rw [elementNode, hnested, hname, Node.events, run, handle, hstart, Option.bind_some]
  exact congrArg (Option.bind · (run [])) hend

theorem run_file (hnesting : p.unknownElementNesting = 0) (hcurrent : p.currentElement = none)
    (index : Nat) {name : Text} (hprintable : Printable name) :
    run (elementNode (xmlDumpFile index name)).events p =
      some { p with fileMap := p.fileMap.assign stringLess (fileId index) name } := by
  have hnames : ((xmlDumpFile index name).attributes.map Prod.fst).Nodup :=
    (by decide : ["id", "name"].Nodup)
  have hid : getAttribute (setAttributes (attributeValues (xmlDumpFile index name).attributes))
      "id" = some (fileId index) := by
    rw [getAttribute_kept hnames, xmlDumpFile, getAttribute_cons, if_pos rfl, Option.map_some,
      attributeValue_simple (simple_fileId _)]
  have hname : getAttribute (setAttributes (attributeValues (xmlDumpFile index name).attributes))
      "name" = some name := by
    have hne : ¬ ("id" : String) = "name" := by decide
    rw [getAttribute_kept hnames, xmlDumpFile, getAttribute_cons, if_neg hne,
      getAttribute_cons, if_pos rfl, Option.map_some, attributeValue_escape hprintable]
  have hstart : p.startElement "File" (attributeValues (xmlDumpFile index name).attributes) =
      { p with fileMap := p.fileMap.assign stringLess (fileId index) name } := by
    simp [startElement, hnesting, hcurrent, startFile, hid, hname]
  have hend : ({ p with fileMap := p.fileMap.assign stringLess (fileId index) name } :
      SourceParser).endElement "File" = some _ :=
    endElement_plain hnesting (by simp [otherElements])
  show run ([.startElement "File" _] ++ [.endElement "File"]) p = _
  rw [run_append, run, handle, hstart]
  exact congrArg (Option.bind · (run [])) hend

/-- The events of one item. -/
theorem run_item (hnesting : p.unknownElementNesting = 0) (hcurrent : p.currentElement = none)
    {item : Item} (hprintable : ∀ f ∈ files [item], Printable f.2) {w : Element}
    (hw : item.output demangle = some w) :
    run (elementNode w).events p = some (tableOf demangle [item] p) := by
  cases item with
  | entry e =>
    obtain rfl := Option.some.inj hw
    exact run_element hnesting hcurrent (output_name demangle e) (output_accepts demangle e)
      (getAttribute_kept_id demangle e)
  | cvQualified t =>
    rw [Item.output, xmlOutputCvQualifiedType] at hw
    split at hw
    · cases hw
    · obtain rfl := Option.some.inj hw
      exact run_cvQualified hnesting hcurrent rfl rfl
  | file index name =>
    obtain rfl := Option.some.inj hw
    exact run_file hnesting hcurrent index (hprintable (index, name) List.mem_cons_self)

theorem tableOf_append (items items' : List Item) (p : SourceParser) :
    tableOf demangle (items ++ items') p = tableOf demangle items' (tableOf demangle items p) := by
  simp only [tableOf, entries, files, List.filterMap_append, List.map_append, StdMap.assignAll,
    List.foldl_append]

theorem run_items (hnesting : p.unknownElementNesting = 0) (hcurrent : p.currentElement = none)
    {items : List Item} (hprintable : ∀ f ∈ files items, Printable f.2) :
    run (eventsOf ((items.filterMap (Item.output demangle)).map elementNode)) p =
      some (tableOf demangle items p) := by
  induction items generalizing p with
  | nil => rfl
  | cons item items ih =>
    have happend : files (item :: items) = files [item] ++ files items :=
      List.filterMap_append (l := [item])
    rw [happend] at hprintable
    have hrest := fun f hf => hprintable f (List.mem_append_right _ hf)
    rw [List.filterMap_cons]
    cases hw : item.output demangle with
    | none =>
      have hsame : tableOf demangle [item] p = p := by
        cases item with
        | cvQualified t => rfl
        | entry | file => cases hw
      have hcons : tableOf demangle ([item] ++ items) p = _ := tableOf_append [item] items p
      rw [hsame] at hcons
      exact (ih hnesting hcurrent hrest).trans (congrArg some hcons.symm)
    | some w =>
      have hitem := run_item hnesting hcurrent
        (fun f hf => hprintable f (List.mem_append_left _ hf)) hw
      rw [List.map_cons, eventsOf, run_append, hitem, Option.bind_some]
      exact (ih (p := tableOf demangle [item] p) hnesting hcurrent hrest).trans
        (congrArg some (tableOf_append [item] items p).symm)

/-- What the handlers make of a dump. -/
theorem run_dumpDocument (rootAttributes : Attributes) {items : List Item}
    (hprintable : ∀ f ∈ files items, Printable f.2) :
    run (dumpDocument demangle rootAttributes items).events (prepare {}) =
      some (tableOf demangle items {}) := by
  have hitems : run (eventsOf ((items.filterMap (Item.output demangle)).map elementNode))
      (prepare {}) = _ := run_items rfl rfl hprintable
  rw [dumpDocument, Node.events, run, handle]
  show run (_ ++ [.endElement "GCC_XML"]) (prepare {}) = _
  rw [run_append, hitems]
  rfl

end Reading

section Lookups

variable {demangle : Text → Option Text} {items : List Item}

/-- The ids of the elements are different, and those of the files. -/
structure DistinctIds (items : List Item) : Prop where
  entries : ((entries items).map Entry.index).Nodup
  files : ((files items).map fun f => fileId f.1).Nodup

variable (h : DistinctIds items)
include h

theorem find_elementMap {id : Text} {e : Element} :
    (tableOf demangle items {}).elementMap.find stringLess id = some e ↔
      ∃ entry ∈ entries items, nodeId entry.index = id ∧ kept (entry.output demangle) = e := by
  have hkeys : (((entries items).map (elementRow demangle)).map Prod.fst).Nodup := by
    rw [List.map_map]
    have hmap := h.entries.map (f := nodeId) fun _ _ => nodeId_injective
    rwa [List.map_map] at hmap
  refine (StdMap.find_assignAll_iff stringLess_strictTotal hkeys).trans ?_
  rw [List.mem_map]
  simp only [elementRow, Prod.mk.injEq]

theorem find_fileMap {index : Nat} {name : Text} (hfile : (index, name) ∈ files items) :
    (tableOf demangle items {}).fileMap.find stringLess (fileId index) = some name := by
  have hkeys : (((files items).map fileRow).map Prod.fst).Nodup := by
    rw [List.map_map]
    exact h.files
  exact StdMap.find_assignAll_of_mem stringLess_strictTotal hkeys
    (List.mem_map_of_mem (f := fileRow) hfile) .empty

end Lookups

end CableSwig.Parsers.DumpTable
