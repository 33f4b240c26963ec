import CableSwig.GccXml.DeclarationDump

/-!
# The attributes of declarations

What is found under a name among the attributes that the output functions print, and the values
that an XML parser reports for them.
-/
namespace CableSwig.GccXml.DeclarationAttributes

open CableSwig.GccXml.DeclarationDump
open CableSwig.GccXml.EscapeString
open CableSwig.GccXml.FileQueue (fileId)
open CableSwig.GccXml.OutputFunctions (FunctionTag)
open CableSwig.GccXml.TypeDump (Element getAttribute idref nodeId)
open CableSwig.Lib.Numerals
open CableSwig.Lib.StdString
open CableSwig.Parsers.BasesAttribute (xmlOutputBases)
open CableSwig.Parsers.CarriedNumbers (xmlPrintOffset)

section Lookup

variable {n name : String}

theorem getAttribute_nil (n : String) : getAttribute [] n = none := rfl

theorem getAttribute_cons (a : String × Text) (atts : Attributes) (n : String) :
    getAttribute (a :: atts) n = if a.1 = n then some a.2 else getAttribute atts n := by
  unfold getAttribute
  rw [List.find?_cons]
  by_cases h : a.1 = n <;> simp [h]

theorem getAttribute_append (atts atts' : Attributes) (n : String) :
    getAttribute (atts ++ atts') n = (getAttribute atts n).or (getAttribute atts' n) := by
  unfold getAttribute
  rw [List.find?_append, Option.map_or]

theorem getAttribute_printed (name : String) (value : Option Text) (n : String) :
    getAttribute (printed name value) n = if name = n then value else none := by
  cases value with
  | none => simp [printed, getAttribute]
  | some v =>
    show getAttribute [(name, v)] n = _
    rw [getAttribute_cons, getAttribute_nil]

theorem getAttribute_flag (name : String) (value : Bool) (n : String) :
    getAttribute (flag name value) n = if name = n ∧ value then some ['1'] else none := by
  cases value with
  | false => simp [flag, getAttribute]
  | true =>
    show getAttribute [(name, ['1'])] n = _
    rw [getAttribute_cons, getAttribute_nil]
    simp

theorem getAttribute_ite (c : Prop) [Decidable c] (atts atts' : Attributes) (n : String) :
    getAttribute (if c then atts else atts') n =
      if c then getAttribute atts n else getAttribute atts' n :=
  apply_ite (getAttribute · n) c atts atts'

theorem getAttribute_values (atts : Attributes) (n : String) :
    getAttribute (attributeValues atts) n = (getAttribute atts n).map attributeValue := by
  induction atts with
  | nil => rfl
  | cons a atts ih =>
    rw [attributeValues, List.map_cons, getAttribute_cons, getAttribute_cons]
    by_cases h : a.1 = n
    · rw [if_pos h, if_pos h, Option.map_some]
    · rw [if_neg h, if_neg h]
      exact ih

end Lookup

section Printers

variable {n : String}

theorem getAttribute_id (d : Decl) (n : String) :
    getAttribute (xmlPrintIdAttribute d) n = if "id" = n then some (nodeId d.index) else none := by
  rw [xmlPrintIdAttribute, getAttribute_cons, getAttribute_nil]

theorem getAttribute_name (name : Option Text) (n : String) :
    getAttribute (xmlPrintNameAttribute name) n =
      if "name" = n then some (xmlGetEncodedString name) else none := by
  rw [xmlPrintNameAttribute, getAttribute_cons, getAttribute_nil]

theorem getAttribute_location (sourceFile sourceLine : Nat) (n : String) :
    getAttribute (xmlPrintLocationAttribute sourceFile sourceLine) n =
      if "location" = n then some (fileId sourceFile ++ ':' :: lineText sourceLine)
      else if "file" = n then some (fileId sourceFile)
      else if "line" = n then some (lineText sourceLine) else none := by
  simp only [xmlPrintLocationAttribute, getAttribute_cons, getAttribute_nil]

theorem getAttribute_context (d : Decl) (n : String) :
    getAttribute (xmlPrintContextAttribute d) n =
      if "context" = n then d.context.map fun c => nodeId c.index
      else if "access" = n then (d.context.filter Context.isType).map fun _ => accessText d
      else none := by
  unfold xmlPrintContextAttribute
  cases d.context with
  | none => simp [getAttribute_nil]
  | some c =>
    rw [getAttribute_cons, Option.map_some]
    cases hc : c.isType with
    | false =>
      rw [if_neg Bool.false_ne_true, getAttribute_nil, Option.filter_some_neg (by simp [hc]),
        Option.map_none, ite_self]
    | true =>
      rw [if_pos rfl, getAttribute_cons, getAttribute_nil, Option.filter_some_pos hc,
        Option.map_some]

theorem getAttribute_attributes (attributes1 attributes2 : List Attribute) (n : String) :
    getAttribute (xmlPrintAttributesAttribute attributes1 attributes2) n =
      if "attributes" = n then attributeTexts (attributes1 ++ attributes2) else none := by
  rw [xmlPrintAttributesAttribute, getAttribute_printed]

theorem getAttribute_mangled (d : Decl) (h : n ≠ "mangled") :
    getAttribute (xmlPrintMangledAttribute d) n = none := by
  rw [xmlPrintMangledAttribute, getAttribute_printed, if_neg h.symm]

theorem getAttribute_demangled (demangle : Text → Option Text) (d : Decl) (h : n ≠ "demangled") :
    getAttribute (xmlPrintDemangledAttribute demangle d) n = none := by
  rw [xmlPrintDemangledAttribute, getAttribute_printed, if_neg h.symm]

theorem getAttribute_throw (raises : Option (List TypeRef)) (h : n ≠ "throw") :
    getAttribute (xmlPrintThrowAttribute raises) n = none := by
  rw [xmlPrintThrowAttribute, getAttribute_printed, if_neg h.symm]

theorem getAttribute_befriending (befriending : List (Option Nat)) (h : n ≠ "befriending") :
    getAttribute (xmlPrintBefriendingAttribute befriending) n = none := by
  unfold xmlPrintBefriendingAttribute
  split
  · rfl
  · rw [getAttribute_cons, if_neg h.symm, getAttribute_nil]

theorem getAttribute_virtual (d : FunctionDecl) (h : n ≠ "overrides") :
    getAttribute (xmlPrintVirtualMethodAttributes d) n =
      if n = "virtual" ∧ d.isVirtual ∨ n = "pure_virtual" ∧ d.pureVirtual then some ['1']
      else none := by
  rw [xmlPrintVirtualMethodAttributes, getAttribute_append, getAttribute_append, getAttribute_flag,
    getAttribute_flag, getAttribute_printed, if_neg h.symm, Option.or_none]
  by_cases hvirtual : n = "virtual"
  · subst hvirtual
    cases d.isVirtual <;> simp
  · by_cases hpure : n = "pure_virtual"
    · subst hpure
      cases d.pureVirtual <;> simp
    · simp [hvirtual, hpure, Ne.symm hvirtual, Ne.symm hpure]

end Printers

section Escaping

/-- A character that may stand in a document, and is not taken for a blank. -/
def isPrintable (c : Char) : Bool := ' ' ≤ c ∧ c ≠ '\uFFFE' ∧ c ≠ '\uFFFF'

/-- The text has only characters that an XML parser reports as they are. -/
def Printable (s : Text) : Prop := ∀ c ∈ s, isPrintable c = true

theorem printable_of_all {s : Text} (h : s.all isPrintable = true) : Printable s :=
  List.all_eq_true.mp h

theorem normalizeBlanks_printable {s : Text} (h : Printable s) : normalizeBlanks s = s := by
  induction s with
  | nil => rfl
  | cons c s ih =>
    have hc := h c List.mem_cons_self
    have hblank : ∀ x : Char, isPrintable x = false → c ≠ x := by
      rintro x hx rfl
      rw [hx] at hc
      cases hc
    have hreturn := hblank '\r' (by decide)
    rw [normalizeBlanks.eq_3 c s fun _ heq => absurd heq hreturn,
      if_neg (by simp [hreturn, hblank '\t' (by decide), hblank '\n' (by decide)]),
      ih fun d hd => h d (List.mem_cons_of_mem _ hd)]

theorem xmlEscapeString_append (s t : Text) :
    xmlEscapeString (s ++ t) = xmlEscapeString s ++ xmlEscapeString t := by
  unfold xmlEscapeString
  induction s with
  | nil => rfl
  | cons c s ih =>
    rw [List.cons_append, copyLoop, copyLoop, ih]
    cases entityOf c with
    | none => rfl
    | some entity => exact (List.append_assoc _ _ _).symm

/-- Nothing is escaped where nothing has to be. -/
theorem xmlEscapeString_eq_self {s : Text} (h : ∀ c ∈ s, entityOf c = none) :
    xmlEscapeString s = s := by
  unfold xmlEscapeString
  induction s with
  | nil => rfl
  | cons c s ih =>
    rw [copyLoop_plain (h c List.mem_cons_self)]
    exact congrArg (c :: ·) (ih fun d hd => h d (List.mem_cons_of_mem _ hd))

/-- The texts with something plain between them, escaped one by one or together. -/
theorem intercalate_escape {sep : Text} (hsep : ∀ c ∈ sep, entityOf c = none) (ts : List Text) :
    sep.intercalate (ts.map xmlEscapeString) = xmlEscapeString (sep.intercalate ts) := by
  induction ts with
  | nil => rfl
  | cons t ts ih =>
    cases ts with
    | nil => simp [List.intercalate]
    | cons t' ts =>
      rw [List.map_cons, List.map_cons, List.intercalate_cons_cons, ← List.map_cons, ih,
        List.intercalate_cons_cons, xmlEscapeString_append, xmlEscapeString_append,
        xmlEscapeString_eq_self hsep]

theorem printable_escape {s : Text} (h : Printable s) : Printable (xmlEscapeString s) := by
  unfold xmlEscapeString
  induction s with
  | nil => exact h
  | cons c s ih =>
    have htail : Printable s := fun d hd => h d (List.mem_cons_of_mem _ hd)
    intro d hd
    rcases entityOf_cases c with ⟨entity, hentity, hmem⟩ | ⟨hnone, -⟩
    · rw [copyLoop_entity hentity] at hd
      rcases List.mem_append.mp hd with hd | hd
      · have hall : ∀ e ∈ entities, e.2.all isPrintable = true := by decide
        exact printable_of_all (hall _ hmem) d hd
      · exact ih htail d hd
    · rw [copyLoop_plain hnone] at hd
      rcases List.mem_cons.mp hd with rfl | hd
      · exact h d List.mem_cons_self
      · exact ih htail d hd

/-- What is escaped is read back. -/
theorem attributeValue_escape {s : Text} (h : Printable s) :
    attributeValue (xmlEscapeString s) = s := by
  rw [attributeValue, normalizeBlanks_printable (printable_escape h), read_back]

/-- A text of letters, digits and the like is reported as it is. -/
def Simple (s : Text) : Prop :=
  ∀ c ∈ s, entityOf c = none ∧ isPrintable c = true

theorem attributeValue_simple {s : Text} (h : Simple s) : attributeValue s = s := by
  have hescape := xmlEscapeString_eq_self fun c hc => (h c hc).1
  have hvalue := attributeValue_escape fun c hc => (h c hc).2
  rwa [hescape] at hvalue

theorem Simple.append {s t : Text} (hs : Simple s) (ht : Simple t) : Simple (s ++ t) := by
  intro c hc
  rcases List.mem_append.mp hc with hc | hc
  · exact hs c hc
  · exact ht c hc

theorem Simple.cons {c : Char} {s : Text} (hc : Simple [c]) (hs : Simple s) : Simple (c :: s) :=
  hc.append hs

theorem simple_of_all {s : Text}
    (h : s.all (fun c => (entityOf c).isNone && isPrintable c) = true) : Simple s := by
  intro c hc
  have hc := List.all_eq_true.mp h c hc
  simpa using hc

/-- The digits of a number, decimal or hexadecimal. -/
theorem simple_toDigits {base : Nat} (hbase : 1 < base) (hle : base ≤ 16) (n : Nat) :
    Simple (Nat.toDigits base n) := by
  intro c hc
  obtain ⟨d, hd, rfl⟩ := exists_digitChar hbase hc
  have hall : ((List.range 16).map Nat.digitChar).all
      (fun c => (entityOf c).isNone && isPrintable c) = true := by decide
  have hmem : Nat.digitChar d ∈ (List.range 16).map Nat.digitChar :=
    List.mem_map_of_mem (List.mem_range.mpr (by omega))
  exact simple_of_all hall _ hmem

theorem simple_digits (n : Nat) : Simple (Nat.toDigits 10 n) :=
  simple_toDigits (by decide) (by decide) n

theorem simple_nodeId (index : Nat) : Simple (nodeId index) :=
  Simple.cons (simple_of_all (by decide)) (simple_digits index)

theorem simple_decimal (v : Int) : Simple (decimal v) := by
  rw [decimal, Int.repr_eq_if]
  split
  · rw [Nat.toList_repr]
    exact simple_digits _
  · rw [String.toList_append, Nat.toList_repr]
    exact Simple.append (simple_of_all (by decide)) (simple_digits _)

theorem simple_fileId (index : Nat) : Simple (fileId index) :=
  Simple.cons (simple_of_all (by decide)) (simple_decimal _)

theorem simple_typeIdref (t : TypeRef) : Simple (xmlPrintTypeIdref t) := by
  refine Simple.append (Simple.append (simple_nodeId _) (Simple.append ?_ ?_)) ?_
  · split <;> exact simple_of_all (by decide)
  · split <;> exact simple_of_all (by decide)
  · split <;> exact simple_of_all (by decide)

theorem simple_accessText (d : Decl) : Simple (accessText d) := by
  unfold accessText
  split
  · exact simple_of_all (by decide)
  · split <;> exact simple_of_all (by decide)

end Escaping

section AttributeLists

/-- The text for one `__attribute__` before it is escaped. -/
def plainAttributeText (a : Attribute) : Text :=
  a.purpose ++
    if a.arguments = [] then []
    else '(' :: [','].intercalate (a.arguments.map fun arg => arg.getD []) ++ [')']

/-- The text for all attributes. -/
def attributesText (attributes : List Attribute) : Text :=
  [' '].intercalate (attributes.map plainAttributeText)

theorem attributeText_eq (a : Attribute) :
    attributeText a = xmlEscapeString (plainAttributeText a) := by
  have harguments : (a.arguments.map fun arg => xmlEscapeString (arg.getD [])) =
      (a.arguments.map fun arg => arg.getD []).map xmlEscapeString := by
    rw [List.map_map]
    rfl
  have hcomma : ∀ c ∈ [','], entityOf c = none := List.forall_mem_singleton.mpr rfl
  rw [attributeText, plainAttributeText, xmlEscapeString_append, harguments,
    intercalate_escape hcomma]
  split
  · rfl
  · rw [List.cons_append, List.cons_append]
    show _ = _ ++ '(' :: xmlEscapeString (_ ++ [')'])
    rw [xmlEscapeString_append]
    rfl

theorem attributeTexts_eq (attributes : List Attribute) :
    attributeTexts attributes =
      if attributes = [] then none else some (xmlEscapeString (attributesText attributes)) := by
  have htexts : attributes.map attributeText =
      (attributes.map plainAttributeText).map xmlEscapeString := by
    rw [List.map_map]
    exact List.map_congr_left fun a _ => attributeText_eq a
  have hblank : ∀ c ∈ [' '], entityOf c = none := List.forall_mem_singleton.mpr rfl
  rw [attributeTexts, htexts, intercalate_escape hblank, attributesText]

end AttributeLists

section Declarations

/-- Namespaces have no location. -/
def isLocated : Declaration → Bool
  | .namespaceDecl _ | .namespaceAlias _ => false
  | _ => true

/-- The name that is printed. Some kinds of declarations have none. -/
def printedName : Declaration → Option Text
  | .namespaceDecl d => d.name
  | .function d => if d.tag = .constructor ∧ d.anonymousClass then none else some (d.name.getD [])
  | .record d => if d.anonymous then none else some (d.name.getD [])
  | d => some (d.decl.name.getD [])

/-- The attributes of a declaration that are printed. -/
def printedAttributes : Declaration → List Attribute
  | .namespaceAlias _ => []
  | .function d => d.attributes ++ d.typeAttributes
  | d => d.decl.attributes

variable (demangle : Text → Option Text)

theorem xmlGetEncodedString_eq (name : Option Text) :
    xmlGetEncodedString name = xmlEscapeString (name.getD []) := by
  cases name <;> rfl

/-- Attributes of other names than those of one kind of function. -/
theorem getAttribute_kind (d : FunctionDecl) {n : String}
    (h : n ∉ ["returns", "const", "virtual", "pure_virtual", "overrides", "static", "artificial",
      "explicit"]) : getAttribute (kindAttributes d) n = none := by
  simp only [List.mem_cons, List.not_mem_nil, or_false, not_or] at h
  obtain ⟨hreturns, hconst, hvirtual, hpure, hoverrides, hstatic, hartificial, hexplicit⟩ := h
  unfold kindAttributes
  cases d.tag <;>
    simp only [getAttribute_append, getAttribute_cons, getAttribute_nil, getAttribute_flag,
      getAttribute_virtual d hoverrides, Ne.symm hreturns, Ne.symm hconst, hvirtual, hpure,
      Ne.symm hstatic, Ne.symm hartificial, Ne.symm hexplicit, false_and, or_false, if_false,
      Option.or_none]

/-- The attributes that all kinds of declarations have, as far as they are printed. -/
def sharedAttributes (d : Declaration) : Attributes :=
  xmlPrintIdAttribute d.decl ++ printed "name" ((printedName d).map xmlEscapeString) ++
    xmlPrintContextAttribute d.decl ++
    (if isLocated d then xmlPrintLocationAttribute d.decl.sourceFile d.decl.sourceLine else []) ++
    printed "attributes" (attributeTexts (printedAttributes d))

def sharedNames : List String :=
  ["id", "name", "context", "access", "location", "file", "line", "attributes"]

/-- The other attributes have other names. -/
theorem getAttribute_xmlOutput (d : Declaration) {n : String} (h : n ∈ sharedNames) :
    getAttribute (xmlOutput demangle d).attributes n = getAttribute (sharedAttributes d) n := by
  simp only [sharedNames, List.mem_cons, List.not_mem_nil, or_false] at h
  rcases h with rfl | rfl | rfl | rfl | rfl | rfl | rfl | rfl <;> cases d <;>
    simp [-Option.or_some, sharedAttributes, xmlOutput, xmlOutputNamespaceDecl,
      xmlOutputNamespaceAlias, xmlOutputTypedef, xmlOutputFunctionDecl, xmlOutputVarDecl,
      xmlOutputFieldDecl, xmlOutputRecordType, xmlOutputEnumeralType, getAttribute_append,
      getAttribute_cons, getAttribute_nil, getAttribute_ite, getAttribute_printed,
      getAttribute_flag, getAttribute_id, getAttribute_name, getAttribute_location,
      getAttribute_context, getAttribute_attributes, getAttribute_mangled, getAttribute_demangled,
      getAttribute_throw, getAttribute_befriending, getAttribute_kind, xmlPrintSizeAttribute,
      xmlPrintAlignAttribute, xmlGetEncodedString_eq, Declaration.decl, printedName, isLocated,
      printedAttributes]
  · split <;> rfl
  · split <;> rfl
  · rfl

section Shared

variable (d : Declaration)

theorem getAttribute_xmlOutput_id :
    getAttribute (xmlOutput demangle d).attributes "id" = some (nodeId d.decl.index) := by
  cases d <;> rfl

theorem getAttribute_xmlOutput_name :
    getAttribute (xmlOutput demangle d).attributes "name" =
      (printedName d).map xmlEscapeString := by
  rw [getAttribute_xmlOutput demangle d (by decide)]
  cases hlocated : isLocated d <;>
    simp [-Option.or_some, sharedAttributes, hlocated, getAttribute_append, getAttribute_id,
      getAttribute_printed, getAttribute_context, getAttribute_location]

theorem getAttribute_xmlOutput_context :
    getAttribute (xmlOutput demangle d).attributes "context" =
      d.decl.context.map fun c => nodeId c.index := by
  rw [getAttribute_xmlOutput demangle d (by decide)]
  cases hlocated : isLocated d <;>
    simp [-Option.or_some, sharedAttributes, hlocated, getAttribute_append, getAttribute_id,
      getAttribute_printed, getAttribute_context, getAttribute_location]

theorem getAttribute_xmlOutput_access :
    getAttribute (xmlOutput demangle d).attributes "access" =
      (d.decl.context.filter Context.isType).map fun _ => accessText d.decl := by
  rw [getAttribute_xmlOutput demangle d (by decide)]
  cases hlocated : isLocated d <;>
    simp [-Option.or_some, sharedAttributes, hlocated, getAttribute_append, getAttribute_id,
      getAttribute_printed, getAttribute_context, getAttribute_location]

theorem getAttribute_xmlOutput_location :
    getAttribute (xmlOutput demangle d).attributes "location" =
      if isLocated d then
        some (fileId d.decl.sourceFile ++ ':' :: lineText d.decl.sourceLine)
      else none := by
  rw [getAttribute_xmlOutput demangle d (by decide)]
  cases hlocated : isLocated d <;>
    simp [-Option.or_some, sharedAttributes, hlocated, getAttribute_append, getAttribute_id,
      getAttribute_printed, getAttribute_context, getAttribute_location]

theorem getAttribute_xmlOutput_file :
    getAttribute (xmlOutput demangle d).attributes "file" =
      if isLocated d then some (fileId d.decl.sourceFile) else none := by
  rw [getAttribute_xmlOutput demangle d (by decide)]
  cases hlocated : isLocated d <;>
    simp [-Option.or_some, sharedAttributes, hlocated, getAttribute_append, getAttribute_id,
      getAttribute_printed, getAttribute_context, getAttribute_location]

theorem getAttribute_xmlOutput_line :
    getAttribute (xmlOutput demangle d).attributes "line" =
      if isLocated d then some (lineText d.decl.sourceLine) else none := by
  rw [getAttribute_xmlOutput demangle d (by decide)]
  cases hlocated : isLocated d <;>
    simp [-Option.or_some, sharedAttributes, hlocated, getAttribute_append, getAttribute_id,
      getAttribute_printed, getAttribute_context, getAttribute_location]

theorem getAttribute_xmlOutput_attributes :
    getAttribute (xmlOutput demangle d).attributes "attributes" =
      attributeTexts (printedAttributes d) := by
  rw [getAttribute_xmlOutput demangle d (by decide)]
  cases hlocated : isLocated d <;>
    simp [-Option.or_some, sharedAttributes, hlocated, getAttribute_append, getAttribute_id,
      getAttribute_printed, getAttribute_context, getAttribute_location]

end Shared

section Kinds

theorem getAttribute_typedef_type (d : TypedefDecl) :
    getAttribute (xmlOutputTypedef d).attributes "type" = some (xmlPrintTypeIdref d.type) := by
  simp [-Option.or_some, xmlOutputTypedef, getAttribute_append, getAttribute_cons, getAttribute_id,
    getAttribute_name]

theorem getAttribute_var_type (d : VarDecl) :
    getAttribute (xmlOutputVarDecl demangle d).attributes "type" =
      some (xmlPrintTypeIdref d.type) := by
  simp [-Option.or_some, xmlOutputVarDecl, getAttribute_append, getAttribute_cons, getAttribute_id,
    getAttribute_name]

theorem getAttribute_var_init (d : VarDecl) :
    getAttribute (xmlOutputVarDecl demangle d).attributes "init" =
      d.initial.map xmlEscapeString := by
  simp [-Option.or_some, xmlOutputVarDecl, getAttribute_append, getAttribute_cons,
    getAttribute_id, getAttribute_name, getAttribute_printed, getAttribute_context,
    getAttribute_mangled, getAttribute_demangled, getAttribute_location, getAttribute_flag,
    getAttribute_attributes]

theorem getAttribute_field_type (d : FieldDecl) :
    getAttribute (xmlOutputFieldDecl demangle d).attributes "type" =
      some (xmlPrintTypeIdref (d.bitFieldType.getD d.type)) := by
  simp [-Option.or_some, xmlOutputFieldDecl, getAttribute_append, getAttribute_cons,
    getAttribute_id, getAttribute_name, getAttribute_printed]

theorem getAttribute_field_offset (d : FieldDecl) :
    getAttribute (xmlOutputFieldDecl demangle d).attributes "offset" =
      xmlPrintOffset d.byteOffset d.bitOffset := by
  simp [-Option.or_some, xmlOutputFieldDecl, getAttribute_append, getAttribute_cons,
    getAttribute_id, getAttribute_name, getAttribute_printed, getAttribute_context,
    getAttribute_mangled, getAttribute_demangled, getAttribute_location, getAttribute_flag,
    getAttribute_attributes]

theorem getAttribute_alias_namespace (d : NamespaceAlias) :
    getAttribute (xmlOutputNamespaceAlias demangle d).attributes "namespace" =
      some (nodeId d.realNamespace) := by
  simp [-Option.or_some, xmlOutputNamespaceAlias, getAttribute_append, getAttribute_cons,
    getAttribute_id, getAttribute_name, getAttribute_context]

theorem getAttribute_record_abstract (d : RecordType) :
    getAttribute (xmlOutputRecordType demangle d).attributes "abstract" =
      if d.pureVirtuals then some ['1'] else none := by
  simp [-Option.or_some, xmlOutputRecordType, getAttribute_append, getAttribute_cons,
    getAttribute_nil, getAttribute_ite, getAttribute_id, getAttribute_name, getAttribute_printed,
    getAttribute_context, getAttribute_mangled, getAttribute_demangled, getAttribute_location,
    getAttribute_flag, getAttribute_attributes, getAttribute_befriending, xmlPrintSizeAttribute,
    xmlPrintAlignAttribute]

/-- The text that is printed for the base classes, if any is. -/
theorem getAttribute_record_bases (d : RecordType) :
    getAttribute (xmlOutputRecordType demangle d).attributes "bases" =
      if d.complete ∧ d.completeType then
        some (xmlOutputBases d.accesses (d.bases.map fun b => b.map BaseLink.toBaseBinfo))
      else none := by
  simp [-Option.or_some, xmlOutputRecordType, getAttribute_append, getAttribute_cons,
    getAttribute_nil, getAttribute_ite, getAttribute_id, getAttribute_name, getAttribute_printed,
    getAttribute_context, getAttribute_mangled, getAttribute_demangled, getAttribute_location,
    getAttribute_flag, getAttribute_attributes, getAttribute_befriending, xmlPrintSizeAttribute,
    xmlPrintAlignAttribute]

/-- The attributes of one kind of function are among those of that kind. -/
theorem getAttribute_function (d : FunctionDecl) {n : String}
    (h : n ∈ ["returns", "const", "static", "virtual", "pure_virtual"]) :
    getAttribute (xmlOutputFunctionDecl demangle d).attributes n =
      getAttribute (kindAttributes d) n := by
  simp only [List.mem_cons, List.not_mem_nil, or_false] at h
  rcases h with rfl | rfl | rfl | rfl | rfl <;>
    simp [-Option.or_some, xmlOutputFunctionDecl, getAttribute_append, getAttribute_nil,
      getAttribute_ite, getAttribute_id, getAttribute_name, getAttribute_printed,
      getAttribute_throw, getAttribute_context, getAttribute_mangled, getAttribute_demangled,
      getAttribute_location, getAttribute_flag, getAttribute_attributes,
      getAttribute_befriending]

theorem getAttribute_function_returns (d : FunctionDecl) :
    getAttribute (xmlOutputFunctionDecl demangle d).attributes "returns" =
      if d.tag.doReturns then some (xmlPrintTypeIdref d.returns) else none := by
  rw [getAttribute_function demangle d (by decide), kindAttributes]
  cases d.tag <;>
    simp [-Option.or_some, getAttribute_append, getAttribute_cons, getAttribute_flag,
      getAttribute_virtual, FunctionTag.doReturns]

theorem getAttribute_function_const (d : FunctionDecl)
    (h : d.tag = .method ∨ d.tag = .operatorMethod ∨ d.tag = .converter) :
    getAttribute (xmlOutputFunctionDecl demangle d).attributes "const" =
      if d.constMemfunc then some ['1'] else none := by
  rw [getAttribute_function demangle d (by decide), kindAttributes]
  rcases h with htag | htag | htag <;>
    simp [-Option.or_some, htag, getAttribute_append, getAttribute_cons, getAttribute_flag,
      getAttribute_virtual]

theorem getAttribute_function_static (d : FunctionDecl)
    (h : d.tag = .method ∨ d.tag = .operatorMethod) :
    getAttribute (xmlOutputFunctionDecl demangle d).attributes "static" =
      if !d.nonstaticMember then some ['1'] else none := by
  rw [getAttribute_function demangle d (by decide), kindAttributes]
  rcases h with htag | htag <;>
    simp [-Option.or_some, htag, getAttribute_append, getAttribute_cons, getAttribute_flag,
      getAttribute_virtual]

theorem getAttribute_function_virtual (d : FunctionDecl) (h : d.tag = .method) :
    getAttribute (xmlOutputFunctionDecl demangle d).attributes "virtual" =
      if d.isVirtual then some ['1'] else none := by
  rw [getAttribute_function demangle d (by decide), kindAttributes, h]
  simp [-Option.or_some, getAttribute_append, getAttribute_cons, getAttribute_flag,
    getAttribute_virtual]

theorem getAttribute_function_pureVirtual (d : FunctionDecl) (h : d.tag = .method) :
    getAttribute (xmlOutputFunctionDecl demangle d).attributes "pure_virtual" =
      if d.pureVirtual then some ['1'] else none := by
  rw [getAttribute_function demangle d (by decide), kindAttributes, h]
  simp [-Option.or_some, getAttribute_append, getAttribute_cons, getAttribute_flag,
    getAttribute_virtual]

end Kinds

section Arguments

/-- The arguments that are printed: those that the compiler has made are left out. -/
def printedArguments : List Parm → List ArgType → List (Option Parm × ArgType)
  | _, [] => []
  | [], tl :: tls => (none, tl) :: printedArguments [] tls
  | pd :: pds, tl :: tls =>
    if pd.artificial then printedArguments pds tls
    else (some pd, tl) :: printedArguments pds tls

def argumentType (a : Option Parm × ArgType) : TypeRef := (a.1.bind Parm.type).getD a.2.value

def argumentName (a : Option Parm × ArgType) : Option Text := a.1.bind Parm.name

def argumentAttributes (a : Option Parm × ArgType) : List Attribute :=
  (a.1.map Parm.attributes).getD []

/-- The element for an argument has its name, type, default and attributes. -/
structure IsArgument (a : Option Parm × ArgType) (n : String × Attributes) : Prop where
  element : n.1 = "Argument"
  name : getAttribute n.2 "name" = (argumentName a).map xmlEscapeString
  type : getAttribute n.2 "type" = some (xmlPrintTypeIdref (argumentType a))
  default : getAttribute n.2 "default" = a.2.purpose.map xmlEscapeString
  attributes : getAttribute n.2 "attributes" = attributeTexts (argumentAttributes a)

theorem getAttribute_argumentType (a : Option Parm × ArgType) {n : String}
    (h : n ∈ ["name", "type", "default", "attributes"]) :
    getAttribute (argumentTypeAttributes a.1 a.2) n =
      if "type" = n then some (xmlPrintTypeIdref (argumentType a)) else none := by
  have hlocation : ∀ sourceFile sourceLine,
      getAttribute (xmlPrintLocationAttribute sourceFile sourceLine) n = none := by
    simp only [List.mem_cons, List.not_mem_nil, or_false] at h
    rcases h with rfl | rfl | rfl | rfl <;> simp [getAttribute_location]
  obtain ⟨pd, tl⟩ := a
  cases pd with
  | none => exact getAttribute_cons _ _ _
  | some pd =>
    simp only [argumentTypeAttributes, argumentType, Option.bind_some]
    cases pd.type with
    | none => exact getAttribute_cons _ _ _
    | some type => simp only [getAttribute_cons, hlocation, Option.getD_some]

theorem isArgument_xmlOutput {pd : Option Parm} {tl : ArgType}
    (h : pd.any Parm.artificial = false) :
    ∃ n, xmlOutputArgument pd tl = some n ∧ IsArgument (pd, tl) n := by
  have htype := fun {n} => getAttribute_argumentType (pd, tl) (n := n)
  refine ⟨_, by rw [xmlOutputArgument, if_neg (by simp [h])], rfl, ?_, ?_, ?_, ?_⟩ <;>
    simp [-Option.or_some, getAttribute_append, getAttribute_printed, getAttribute_attributes,
      htype, argumentName, argumentAttributes]

theorem outputArguments_eq (pds : List Parm) (tls : List ArgType) :
    List.Forall₂ IsArgument (printedArguments pds tls) (outputArguments pds tls) := by
  induction tls generalizing pds with
  | nil => cases pds <;> exact .nil
  | cons tl tls ih =>
    cases pds with
    | nil =>
      obtain ⟨n, hn, hargument⟩ :
          ∃ n, xmlOutputArgument none tl = some n ∧ IsArgument (none, tl) n :=
        isArgument_xmlOutput rfl
      rw [printedArguments, outputArguments, hn]
      exact .cons hargument (ih [])
    | cons pd pds =>
      rw [printedArguments, outputArguments]
      cases hpd : pd.artificial with
      | true =>
        rw [if_pos rfl, xmlOutputArgument, if_pos (by simpa using hpd)]
        exact ih pds
      | false =>
        obtain ⟨n, hn, hargument⟩ :
            ∃ n, xmlOutputArgument (some pd) tl = some n ∧ IsArgument (some pd, tl) n :=
          isArgument_xmlOutput (by simpa using hpd)
        rw [if_neg Bool.false_ne_true, hn]
        exact .cons hargument (ih pds)

end Arguments

end Declarations

section TypeNodes

variable (t : TypeNode)

theorem getAttribute_typeNode_id :
    getAttribute (xmlOutputTypeNode t).attributes "id" = some (nodeId t.index) := rfl

/-- What is printed after the attributes has other names. -/
theorem getAttribute_end {n : String} (h : n ∉ ["const", "volatile", "size", "align"]) :
    getAttribute (endAttributes t) n = none := by
  simp only [List.mem_cons, List.not_mem_nil, or_false, not_or] at h
  obtain ⟨hconst, hvolatile, hsize, halign⟩ := h
  unfold endAttributes
  split <;>
    simp [getAttribute_append, getAttribute_flag, getAttribute_printed, getAttribute_cons,
      getAttribute_nil, xmlPrintSizeAttribute, xmlPrintAlignAttribute, Ne.symm hconst,
      Ne.symm hvolatile, Ne.symm hsize, Ne.symm halign]

/-- The attributes by which the types are told apart stand before the others. -/
theorem getAttribute_shape {n : String}
    (h : n ∉ ["id", "attributes", "const", "volatile", "size", "align"]) :
    getAttribute (xmlOutputTypeNode t).attributes n = getAttribute (shapeAttributes t.shape) n := by
  simp only [List.mem_cons, List.not_mem_nil, or_false, not_or] at h
  obtain ⟨hid, hattributes, hrest⟩ := h
  have hend : getAttribute (endAttributes t) n = none := getAttribute_end t (by simpa using hrest)
  rw [xmlOutputTypeNode, getAttribute_cons, if_neg (Ne.symm hid), getAttribute_append,
    getAttribute_append, hend, getAttribute_attributes, if_neg (Ne.symm hattributes),
    Option.or_none, Option.or_none]

theorem getAttribute_typeNode_attributes :
    getAttribute (xmlOutputTypeNode t).attributes "attributes" = attributeTexts t.attributes := by
  have hend : getAttribute (endAttributes t) "attributes" = none :=
    getAttribute_end t (by decide)
  have hshape : getAttribute (shapeAttributes t.shape) "attributes" = none := by
    cases t.shape <;>
      simp [shapeAttributes, getAttribute_printed, getAttribute_cons, getAttribute_nil]
  have hid : ¬ ("id" : String) = "attributes" := by decide
  rw [xmlOutputTypeNode, getAttribute_cons, if_neg hid, getAttribute_append, getAttribute_append,
    hend, hshape, getAttribute_attributes, if_pos rfl, List.append_nil, Option.none_or,
    Option.or_none]

end TypeNodes

section Distinct

/-- The names of some attributes are among these, each once, in this order. -/
abbrev NamesIn (atts : Attributes) (names : List String) : Prop := (atts.map Prod.fst).Sublist names

theorem NamesIn.append {atts atts' : Attributes} {names names' : List String}
    (h : NamesIn atts names) (h' : NamesIn atts' names') :
    NamesIn (atts ++ atts') (names ++ names') := by
  unfold NamesIn
  rw [List.map_append]
  exact List.Sublist.append h h'

theorem namesIn_nil (names : List String) : NamesIn [] names := List.nil_sublist _

theorem namesIn_printed (name : String) (value : Option Text) :
    NamesIn (printed name value) [name] := by
  cases value with
  | none => exact namesIn_nil _
  | some v => exact List.Sublist.refl _

theorem namesIn_flag (name : String) (value : Bool) : NamesIn (flag name value) [name] := by
  cases value with
  | false => exact namesIn_nil _
  | true => exact List.Sublist.refl _

theorem namesIn_context (d : Decl) :
    NamesIn (xmlPrintContextAttribute d) ["context", "access"] := by
  unfold xmlPrintContextAttribute
  cases d.context with
  | none => exact namesIn_nil _
  | some c =>
    refine List.Sublist.cons_cons _ ?_
    cases c.isType with
    | false => exact namesIn_nil _
    | true => exact List.Sublist.refl _

theorem namesIn_attributes (attributes1 attributes2 : List Attribute) :
    NamesIn (xmlPrintAttributesAttribute attributes1 attributes2) ["attributes"] :=
  namesIn_printed _ _

theorem namesIn_befriending (befriending : List (Option Nat)) :
    NamesIn (xmlPrintBefriendingAttribute befriending) ["befriending"] := by
  unfold xmlPrintBefriendingAttribute
  split
  · exact namesIn_nil _
  · exact List.Sublist.refl _

theorem namesIn_virtual (d : FunctionDecl) :
    NamesIn (xmlPrintVirtualMethodAttributes d) ["virtual", "pure_virtual", "overrides"] :=
  ((namesIn_flag _ _).append (namesIn_flag _ _)).append (namesIn_printed _ _)

theorem NamesIn.mono {atts : Attributes} {names names' : List String} (h : NamesIn atts names)
    (hnames : names.Sublist names') : NamesIn atts names' := h.trans hnames

theorem namesIn_kind (d : FunctionDecl) : NamesIn (kindAttributes d) ["explicit", "returns",
    "const", "virtual", "pure_virtual", "overrides", "static", "artificial"] := by
  have hreturns : NamesIn [("returns", xmlPrintTypeIdref d.returns)] ["returns"] :=
    List.Sublist.refl _
  have hreturnsConst := hreturns.append (namesIn_flag "const" d.constMemfunc)
  have hvirtual := hreturnsConst.append (namesIn_virtual d)
  unfold kindAttributes
  cases d.tag with
  | constructor => exact ((namesIn_flag _ _).append (namesIn_flag _ _)).mono (by decide)
  | destructor => exact ((namesIn_virtual d).append (namesIn_flag _ _)).mono (by decide)
  | converter => exact hvirtual.mono (by decide)
  | operatorMethod =>
    exact ((hvirtual.append (namesIn_flag _ _)).append (namesIn_flag _ _)).mono (by decide)
  | method => exact (hvirtual.append (namesIn_flag _ _)).mono (by decide)
  | operatorFunction | function =>
    exact (hreturns.append (namesIn_flag _ _)).mono (by decide)

theorem namesIn_optionalName (c : Prop) [Decidable c] (name : Option Text) :
    NamesIn (if c then [] else xmlPrintNameAttribute name) ["name"] := by
  split
  · exact namesIn_nil _
  · exact List.Sublist.refl _

theorem namesIn_id (d : Decl) : NamesIn (xmlPrintIdAttribute d) ["id"] := List.Sublist.refl _

theorem namesIn_name (name : Option Text) : NamesIn (xmlPrintNameAttribute name) ["name"] :=
  List.Sublist.refl _

theorem namesIn_one (name : String) (value : Text) : NamesIn [(name, value)] [name] :=
  List.Sublist.refl _

theorem namesIn_location (sourceFile sourceLine : Nat) :
    NamesIn (xmlPrintLocationAttribute sourceFile sourceLine) ["location", "file", "line"] :=
  List.Sublist.refl _

/-- No attribute of an element is printed twice. -/
theorem nodup_xmlOutput (demangle : Text → Option Text) (d : Declaration) :
    ((xmlOutput demangle d).attributes.map Prod.fst).Nodup := by
  suffices h : ∃ names : List String,
      NamesIn (xmlOutput demangle d).attributes names ∧ names.Nodup by
    obtain ⟨names, hnames, hnodup⟩ := h
    exact hnodup.sublist hnames
  cases d with
  | namespaceDecl d =>
    refine ⟨_, ((((((namesIn_id _).append (namesIn_printed _ _)).append (namesIn_context _)).append
      (namesIn_attributes _ _)).append (namesIn_printed _ _)).append (namesIn_printed _ _)).append
      (namesIn_printed _ _), by decide⟩
  | namespaceAlias d =>
    refine ⟨_, (((((namesIn_id _).append (namesIn_name _)).append (namesIn_context _)).append
      (namesIn_one _ _)).append (namesIn_printed _ _)).append (namesIn_printed _ _), by decide⟩
  | typedef d =>
    refine ⟨_, (((((namesIn_id _).append (namesIn_name _)).append (namesIn_one _ _)).append
      (namesIn_context _)).append (namesIn_location _ _)).append (namesIn_attributes _ _),
      by decide⟩
  | function d =>
    refine ⟨_, ((((((((((((namesIn_id _).append (namesIn_optionalName _ _)).append
      (namesIn_kind d)).append (namesIn_printed _ _)).append (namesIn_context _)).append
      (namesIn_printed _ _)).append (namesIn_printed _ _)).append (namesIn_location _ _)).append
      (namesIn_printed _ _)).append (namesIn_flag _ _)).append (namesIn_flag _ _)).append
      (namesIn_attributes _ _)).append (namesIn_befriending _), by decide⟩
  | var d =>
    refine ⟨_, (((((((((((namesIn_id _).append (namesIn_name _)).append (namesIn_one _ _)).append
      (namesIn_printed _ _)).append (namesIn_context _)).append (namesIn_printed _ _)).append
      (namesIn_printed _ _)).append (namesIn_location _ _)).append (namesIn_flag _ _)).append
      (namesIn_flag _ _)).append (namesIn_flag _ _)).append (namesIn_attributes _ _), by decide⟩
  | field d =>
    refine ⟨_, ((((((((((namesIn_id _).append (namesIn_name _)).append (namesIn_printed _ _)).append
      (namesIn_one _ _)).append (namesIn_printed _ _)).append (namesIn_context _)).append
      (namesIn_printed _ _)).append (namesIn_printed _ _)).append (namesIn_flag _ _)).append
      (namesIn_location _ _)).append (namesIn_attributes _ _), by decide⟩
  | record d =>
    have hend : NamesIn (if d.complete ∧ d.completeType then
        [("members", idList d.members),
          ("bases", xmlOutputBases d.accesses (d.bases.map fun b => b.map BaseLink.toBaseBinfo))]
        else []) ["members", "bases"] := by
      split
      · exact List.Sublist.refl _
      · exact namesIn_nil _
    refine ⟨_, (((((((((((((namesIn_id _).append (namesIn_optionalName _ _)).append
      (namesIn_context _)).append (namesIn_flag _ _)).append (namesIn_flag _ _)).append
      (namesIn_printed _ _)).append (namesIn_printed _ _)).append (namesIn_location _ _)).append
      (namesIn_flag _ _)).append (namesIn_attributes _ _)).append (namesIn_printed _ _)).append
      (namesIn_one _ _)).append (namesIn_befriending _)).append hend, by decide⟩
  | enumeral d =>
    refine ⟨_, (((((((namesIn_id _).append (namesIn_name _)).append (namesIn_context _)).append
      (namesIn_location _ _)).append (namesIn_attributes _ _)).append (namesIn_flag _ _)).append
      (namesIn_printed _ _)).append (namesIn_one _ _), by decide⟩

/-- The same for the elements nested in it. -/
theorem nodup_outputArguments (pds : List Parm) (tls : List ArgType) :
    ∀ n ∈ outputArguments pds tls, (n.2.map Prod.fst).Nodup := by
  have hargument : ∀ pd tl, ∀ n ∈ xmlOutputArgument pd tl, (n.2.map Prod.fst).Nodup := by
    intro pd tl n hn
    rw [xmlOutputArgument] at hn
    split at hn
    · cases hn
    · obtain rfl := Option.some.inj hn
      have htype : NamesIn (argumentTypeAttributes pd tl) ["type", "location", "file", "line"] := by
        cases pd with
        | none => exact (namesIn_one _ _).mono (by decide)
        | some pd =>
          simp only [argumentTypeAttributes]
          cases pd.type with
          | none => exact (namesIn_one _ _).mono (by decide)
          | some type => exact List.Sublist.refl _
      exact List.Nodup.sublist ((((namesIn_printed _ _).append htype).append
        (namesIn_printed _ _)).append (namesIn_attributes _ _)) (by decide)
  induction tls generalizing pds with
  | nil => intro n hn; cases pds <;> cases hn
  | cons tl tls ih =>
    intro n hn
    cases pds with
    | nil =>
      rcases List.mem_append.mp hn with hn | hn
      · exact hargument _ _ n (Option.mem_toList.mp hn)
      · exact ih [] n hn
    | cons pd pds =>
      rcases List.mem_append.mp hn with hn | hn
      · exact hargument _ _ n (Option.mem_toList.mp hn)
      · exact ih pds n hn

theorem nodup_ellipsis {c : Bool} {n : String × Attributes}
    (h : n ∈ if c then [] else [("Ellipsis", [])]) : (n.2.map Prod.fst).Nodup := by
  cases c with
  | true => cases h
  | false =>
    obtain rfl := List.mem_singleton.mp h
    exact List.nodup_nil

theorem nodup_nested (demangle : Text → Option Text) (d : Declaration) :
    ∀ n ∈ (xmlOutput demangle d).nested, (n.2.map Prod.fst).Nodup := by
  intro n hn
  cases d with
  | function d =>
    rcases List.mem_append.mp hn with hn | hn
    · exact nodup_outputArguments _ _ n hn
    · exact nodup_ellipsis hn
  | record d =>
    have hn : n ∈ if d.complete ∧ d.completeType then
      d.bases.reduceOption.map (outputBase d.accesses) else [] := hn
    split at hn
    · obtain ⟨b, -, rfl⟩ := List.mem_map.mp hn
      exact (by decide : ["type", "access", "virtual", "offset"].Nodup)
    · cases hn
  | enumeral d =>
    obtain ⟨v, -, rfl⟩ := List.mem_map.mp hn
    exact (by decide : ["name", "init"].Nodup)
  | namespaceDecl | namespaceAlias | typedef | var | field => cases hn

theorem namesIn_shape (shape : TypeShape) :
    NamesIn (shapeAttributes shape) ["name", "min", "max", "basetype", "returns", "type"] := by
  cases shape with
  | fundamental name => exact (namesIn_printed _ _).mono (by decide)
  | pointer target | reference target => exact (namesIn_one _ _).mono (by decide)
  | array max element =>
    exact NamesIn.mono (List.Sublist.refl ["min", "max", "type"]) (by decide)
  | function returns argTypes voidTerminated => exact (namesIn_one _ _).mono (by decide)
  | method basetype returns quals argTypes voidTerminated =>
    exact NamesIn.mono (List.Sublist.refl ["basetype", "returns"]) (by decide)
  | offset basetype type =>
    exact NamesIn.mono (List.Sublist.refl ["basetype", "type"]) (by decide)

theorem namesIn_end (t : TypeNode) :
    NamesIn (endAttributes t) ["const", "volatile", "size", "align"] := by
  unfold endAttributes
  split
  · exact namesIn_nil _
  · exact ((namesIn_flag _ _).append (namesIn_flag _ _)).mono (by decide)
  · exact ((namesIn_printed _ _).append (namesIn_one _ _)).mono (by decide)

theorem nodup_typeNode (t : TypeNode) : ((xmlOutputTypeNode t).attributes.map Prod.fst).Nodup := by
  have hnames := (namesIn_one "id" (nodeId t.index)).append
    (((namesIn_shape t.shape).append (namesIn_attributes t.attributes [])).append (namesIn_end t))
  exact List.Nodup.sublist hnames (by decide)

theorem nodup_typeNode_nested (t : TypeNode) :
    ∀ n ∈ (xmlOutputTypeNode t).nested, (n.2.map Prod.fst).Nodup := by
  intro n hn
  unfold xmlOutputTypeNode at hn
  cases hshape : t.shape with
  | function returns argTypes voidTerminated =>
    rw [hshape] at hn
    rcases List.mem_append.mp hn with hn | hn
    · exact nodup_outputArguments _ _ n hn
    · exact nodup_ellipsis hn
  | method basetype returns quals argTypes voidTerminated =>
    rw [hshape] at hn
    rcases List.mem_append.mp hn with hn | hn
    · exact nodup_outputArguments _ _ n hn
    · exact nodup_ellipsis hn
  | fundamental | pointer | reference | array | offset => rw [hshape] at hn; cases hn

end Distinct

end CableSwig.GccXml.DeclarationAttributes
