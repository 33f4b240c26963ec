import CableSwig.GccXml.DeclarationAttributes
import CableSwig.Parsers.ConstructionOrder

/-!
# Reading the elements of declarations

The object that the parser makes of a declaration: from the element that was written for it come
its kind, name, location, context, access, types and those of its flags that are read.
-/
namespace CableSwig.Parsers.DeclarationReading

open CableSwig.GccXml.DeclarationAttributes
open CableSwig.GccXml.DeclarationDump
open CableSwig.GccXml.EscapeString
open CableSwig.GccXml.FileQueue (fileId)
open CableSwig.GccXml.OutputFunctions (FunctionTag)
open CableSwig.GccXml.TypeDump (Element getAttribute nodeId)
open CableSwig.Lib.Numerals
open CableSwig.Lib.OrderedMap
open CableSwig.Lib.Procedures
open CableSwig.Lib.Procedures.Program
open CableSwig.Lib.StdString
open CableSwig.Parsers.BasesAttribute (publicBases publicIds publicIds_xmlOutputBases
  xmlOutputBases)
open CableSwig.Parsers.CarriedNumbers
open CableSwig.Parsers.ElementValues
open CableSwig.Parsers.ElementReferences
open CableSwig.Parsers.RepresentationBuilder
open CableSwig.Parsers.XmlSourceParser (SourceParser stringLess)

section Objects

variable (types : TypeRef → SourceType) (files : Text → Text)

/-- The access of a member. Only in a class it is printed. -/
def declaredAccess (d : Decl) : Access :=
  if d.context.any Context.isType then
    if d.isPrivate then .Private else if d.isProtected then .Protected else .Public
  else .Public

/-- The name of what has none. -/
def anonymousName : Declaration → String
  | .namespaceDecl _ => "\x7banonymous-namespace\x7d"
  | .record d =>
    match d.tag with
    | .cls => "\x7banonymous-class\x7d"
    | .struct => "\x7banonymous-struct\x7d"
    | .union => "\x7banonymous-union\x7d"
  | _ => "\x7banonymous-constructor\x7d"

/-- The name under which a declaration is a member of its context. -/
def memberName (d : Declaration) : Text := (printedName d).getD (anonymousName d).toList

def namedFor (d : Declaration) : Named where
  id := nodeId d.decl.index
  name := memberName d
  file := if isLocated d then files (fileId d.decl.sourceFile) else []
  line := if isLocated d then d.decl.sourceLine else 0
  context := d.decl.context.map fun c => nodeId c.index

def functionKind : FunctionTag → FunctionKind
  | .constructor => .constructor
  | .destructor => .destructor
  | .converter => .converter
  | .operatorMethod => .operatorMethod
  | .operatorFunction => .operatorFunction
  | .method => .method
  | .function => .function

/-- What the parser keeps of the qualities of a function depends on its kind. -/
def functionFlags (d : FunctionDecl) : MethodFlags :=
  match d.tag with
  | .method =>
    { isConst := d.constMemfunc, isStatic := !d.nonstaticMember, isVirtual := d.isVirtual
      isPureVirtual := d.pureVirtual }
  | .operatorMethod => { isConst := d.constMemfunc, isStatic := !d.nonstaticMember }
  | .converter => { isConst := d.constMemfunc }
  | .constructor | .destructor | .operatorFunction | .function => {}

/-- The arguments of a function that are printed, without `this`. -/
def functionArguments (d : FunctionDecl) : List (Option Parm × ArgType) :=
  let skip := if d.nonstaticMember then 1 else 0
  printedArguments (d.arguments.drop skip) (d.argTypes.drop skip)

def functionType (d : FunctionDecl) : SourceType :=
  .functionType (if d.tag.doReturns then types d.returns else voidType)
    ((functionArguments d).map fun a => types (argumentType a))
    { names := (functionArguments d).map fun a => (argumentName a).getD []
      attributes := (functionArguments d).map fun a => attributesText (argumentAttributes a)
      required := (functionArguments d).countP fun a => a.2.purpose.isNone }

def classKind : RecordTag → ClassKind
  | .cls => .cls
  | .struct => .struct
  | .union => .union

/-- The ids of the public base classes of a class that is complete. -/
def recordBases (d : RecordType) : List Text :=
  if d.complete ∧ d.completeType then
    publicBases d.accesses (d.bases.map fun b => b.map BaseLink.toBaseBinfo)
  else []

/-- The offset of a field in bits, if it is known. -/
def fieldOffset (d : FieldDecl) : Int :=
  if hostIntegerp d.byteOffset ∧ hostIntegerp d.bitOffset then
    (d.byteOffset.low * 8 + d.bitOffset.low : Nat)
  else 0

/-- An anonymous enumeration has no name. -/
def enumerationName (name : Text) : Text := if name.head? = some '.' then [] else name

/-- The object for a declaration. -/
def objectFor (d : Declaration) : SourceObject :=
  let named := namedFor files d
  match d with
  | .namespaceDecl _ => .ns named
  | .namespaceAlias d => .nsAlias named (nodeId d.realNamespace)
  | .typedef d => .typedef named (types d.type)
  | .function d => .function (functionKind d.tag) named (functionType types d) (functionFlags d)
  | .var d => .var named (d.initial.getD []) (types d.type)
  | .field d => .field named (fieldOffset d) (types (d.bitFieldType.getD d.type))
  | .record d => .cls (classKind d.tag) named d.pureVirtuals (recordBases d)
  | .enumeral d => .enumeration { named with name := enumerationName named.name }
      (d.values.map fun v => (v.1, toInt v.2.low))

/-- The context of a declaration gets a member. -/
def memberChanges (d : Declaration) : List Change :=
  d.decl.context.toList.map fun c =>
    .addNamed (nodeId c.index) (memberName d) (declaredAccess d.decl) (nodeId d.decl.index)

/-- A global namespace is set. -/
def globalChanges : Declaration → List Change
  | .namespaceDecl d =>
    if isGlobalNamespace (namedFor files (.namespaceDecl d)) then
      [.setGlobalNamespace (nodeId d.index)]
    else []
  | _ => []

/-- The attributes are saved. -/
def attributeChanges (d : Declaration) : List Change :=
  if printedAttributes d = [] then []
  else [.setAttributes (nodeId d.decl.index) (attributesText (printedAttributes d))]

/-- What is changed for a declaration. -/
def changesFor (d : Declaration) : List Change :=
  memberChanges d ++ globalChanges files d ++ attributeChanges d

end Objects

section Conditions

/-- The types that a declaration refers to, as far as the parser reads them. -/
def typeRefs : Declaration → List TypeRef
  | .namespaceDecl _ | .namespaceAlias _ | .record _ | .enumeral _ => []
  | .typedef d => [d.type]
  | .function d =>
    (if d.tag.doReturns then [d.returns] else []) ++ (functionArguments d).map argumentType
  | .var d => [d.type]
  | .field d => [d.bitFieldType.getD d.type]

/-- The texts that are printed, also those that the parser does not read. -/
def texts (d : Declaration) : List Text :=
  (printedName d).toList ++ [attributesText (printedAttributes d)] ++
    d.decl.assemblerName.toList ++
    match d with
    | .function d =>
      (functionArguments d).flatMap fun a =>
        (argumentName a).toList ++ [attributesText (argumentAttributes a)] ++
          a.2.purpose.toList
    | .var d => d.initial.toList
    | .enumeral d => d.values.map Prod.fst
    | _ => []

/-- A class, of which the table of the parser has the element. -/
def IsClass (p : SourceParser) (V : Text → Outcome SourceObject) (id : Text) : Prop :=
  ∃ element o, getSourceElement p id = some element ∧ V id = .returned o ∧ o.asClass = some id

/-- Everything that the parser looks up for a declaration is there, and the numbers are small
enough to be printed as an `int`. -/
structure Resolved (p : SourceParser) (V : Text → Outcome SourceObject)
    (types : TypeRef → SourceType) (files : Text → Text) (d : Declaration) : Prop where
  printable : ∀ t ∈ texts d, Printable t
  line : isLocated d → d.decl.sourceLine < 2 ^ 31
  file : isLocated d →
    p.fileMap.find stringLess (fileId d.decl.sourceFile) = some (files (fileId d.decl.sourceFile))
  context : ∀ c, d.decl.context = some c → ∃ element o,
    getSourceElement p (nodeId c.index) = some element ∧ V (nodeId c.index) = .returned o ∧
      o.asContext = some ⟨nodeId c.index, nodeId c.index⟩
  type : ∀ t ∈ typeRefs d, valueOf p V (.type (xmlPrintTypeIdref t)) = .returned (types t)
  realNamespace : ∀ a, d = .namespaceAlias a → ∃ element o,
    getSourceElement p (nodeId a.realNamespace) = some element ∧
      V (nodeId a.realNamespace) = .returned o ∧ o.asNamespace = some (nodeId a.realNamespace)
  base : ∀ r, d = .record r → ∀ id ∈ recordBases r, IsClass p V id
  offset : ∀ f, d = .field f → f.byteOffset.low * 8 + f.bitOffset.low < 2 ^ 31

/-- An element has the attributes that were written, as an XML parser reports them. -/
structure Carries (e w : Element) : Prop where
  name : e.name = w.name
  attributes : ∀ n, getAttribute e.attributes n = (getAttribute w.attributes n).map attributeValue
  nested : List.Forall₂ (fun a b => a.1 = b.1 ∧
    ∀ n, getAttribute a.2 n = (getAttribute b.2 n).map attributeValue) e.nested w.nested

end Conditions

section Yields

variable {α β : Type} {value : (i : Procedure) → Outcome (Answer i)} {a : α} {b : β}
  {cs cs' : List Change}

/-- The program returns this and makes these changes. -/
structure Yields (value : (i : Procedure) → Outcome (Answer i)) (q : Builder α) (a : α)
    (cs : List Change) : Prop where
  returned : (denote Use.isNull value q).1 = .returned a
  changes : (denote Use.isNull value q).2.filterMap changed = cs

theorem yields_pure (a : α) : Yields value (pure a) a [] := ⟨rfl, rfl⟩

theorem Yields.bind {q : Builder α} {f : α → Builder β} (hq : Yields value q a cs)
    (hf : Yields value (f a) b cs') : Yields value (q >>= f) b (cs ++ cs') := by
  have hbind : denote Use.isNull value (q >>= f) =
      andThen (denote Use.isNull value q) fun a => denote Use.isNull value (f a) := denote_bind q f
  rw [andThen, hq.returned] at hbind
  refine ⟨?_, ?_⟩
  · rw [hbind]
    exact hf.returned
  · rw [hbind, List.filterMap_append, hq.changes, hf.changes]

/-- The program goes on after one that changes nothing. -/
theorem Yields.then {q : Builder α} {f : α → Builder β} (hq : Yields value q a [])
    (hf : Yields value (f a) b cs) : Yields value (q >>= f) b cs := hq.bind hf

/-- The program goes on and changes nothing more. -/
theorem Yields.followed {q : Builder α} {f : α → Builder β} (hq : Yields value q a cs)
    (hf : Yields value (f a) b []) : Yields value (q >>= f) b cs :=
  List.append_nil cs ▸ hq.bind hf

theorem yields_ofOption {o : Option α} (h : o = some a) : Yields value (ofOption o) a [] := by
  subst h
  exact ⟨rfl, rfl⟩

theorem yields_ask {i : Procedure} {answer : Answer i} (h : value i = .returned answer) :
    Yields value (ask i) (some answer) [] := by
  have hanswer : value i = .ofAnswer (some answer) := h
  have hcall : denote Use.isNull value (ask i : Builder (Option (Answer i))) =
      (.returned (some answer), []) := (denote_call _ _ hanswer _).1
  exact ⟨congrArg Prod.fst hcall, congrArg (fun d => d.2.filterMap changed) hcall⟩

theorem yields_dereference {site : Site} {o : Option α} (h : o = some a) :
    Yields value (dereference site o) a [] := by
  subst h
  exact ⟨rfl, rfl⟩

theorem yields_change (c : Change) : Yields value (perform (.change c)) () [c] := ⟨rfl, rfl⟩

theorem yields_setSourceObject (id : Text) (o : SourceObject) :
    Yields value (setSourceObject id o) () [] := ⟨rfl, rfl⟩

theorem yields_register (id : Text) (o : SourceObject) : Yields value (register id o) o [] :=
  (yields_setSourceObject id o).then (yields_pure o)

end Yields

section Naming

variable {p : SourceParser} {V : Text → Outcome SourceObject} {types : TypeRef → SourceType}
  {files : Text → Text} {demangle : Text → Option Text} {d : Declaration} {e : Element}

theorem scanUnsignedLong_lineText {n : Nat} (h : n < 2 ^ 31) :
    scanUnsignedLong (lineText n) = some n := by
  have hint : toInt (n : Int) = n := (toInt_eq_self_iff _).mpr (by omega)
  have hread : readDecimal (decimal (n : Int) ++ []) = some (n : Int) :=
    readDecimal_decimal (n : Int) (by simp)
  rw [List.append_nil] at hread
  have habs : (n : Int).natAbs < 2 ^ 64 := by omega
  rw [scanUnsignedLong, lineText, hint, hread, Option.map_some, if_pos habs]
  exact congrArg some (by omega)

variable (he : Carries e (xmlOutput demangle d)) (hd : Resolved p V types files d)
include he

theorem carries_id : getAttribute e.attributes "id" = some (nodeId d.decl.index) := by
  rw [he.attributes, getAttribute_xmlOutput_id, Option.map_some,
    attributeValue_simple (simple_nodeId _)]

theorem carries_access : accessOf e = some (declaredAccess d.decl) := by
  unfold accessOf declaredAccess
  rw [he.attributes, getAttribute_xmlOutput_access]
  cases d.decl.context with
  | none => rfl
  | some c =>
    cases hc : c.isType with
    | false =>
      rw [Option.filter_some_neg (by simp [hc]), Option.any_some, hc]
      rfl
    | true =>
      rw [Option.filter_some_pos hc, Option.map_some, Option.map_some, Option.any_some, hc,
        if_pos rfl, attributeValue_simple (simple_accessText _)]
      unfold accessText
      cases d.decl.isPrivate with
      | true => rfl
      | false => cases d.decl.isProtected <;> rfl

include hd

theorem carries_name :
    getAttribute e.attributes "name" = printedName d := by
  rw [he.attributes, getAttribute_xmlOutput_name]
  cases hname : printedName d with
  | none => rfl
  | some name =>
    have hmem : name ∈ texts d := by simp [texts, hname]
    rw [Option.map_some, Option.map_some, attributeValue_escape (hd.printable name hmem)]

theorem carries_attributes : getAttribute e.attributes "attributes" =
    if printedAttributes d = [] then none else some (attributesText (printedAttributes d)) := by
  rw [he.attributes, getAttribute_xmlOutput_attributes, attributeTexts_eq]
  by_cases h : printedAttributes d = []
  · rw [if_pos h, if_pos h]
    rfl
  · have hmem : attributesText (printedAttributes d) ∈ texts d := by simp [texts]
    rw [if_neg h, if_neg h, Option.map_some, attributeValue_escape (hd.printable _ hmem)]

theorem yields_setLocation :
    Yields (valueOf p V) (setLocation p e { id := nodeId d.decl.index, name := memberName d })
      { namedFor files d with context := none } [] := by
  have hfile := he.attributes "file"
  have hline := he.attributes "line"
  have hlocation := he.attributes "location"
  rw [getAttribute_xmlOutput_file] at hfile
  rw [getAttribute_xmlOutput_line] at hline
  rw [getAttribute_xmlOutput_location] at hlocation
  cases hlocated : isLocated d with
  | false =>
    simp only [hlocated, Bool.false_eq_true, if_false, Option.map_none] at hfile hline hlocation
    simp only [setLocation, hfile, hline, hlocation, namedFor, hlocated, Bool.false_eq_true,
      if_false]
    exact yields_pure _
  | true =>
    simp only [hlocated, if_true, Option.map_some, attributeValue_simple (simple_fileId _),
      attributeValue_simple (simple_decimal _), lineText] at hfile hline
    simp only [setLocation, hfile, hline, namedFor, hlocated, if_true]
    refine (yields_dereference (hd.file hlocated)).then ?_
    have hscan := scanUnsignedLong_lineText (hd.line hlocated)
    rw [lineText] at hscan
    rw [hscan]
    exact yields_pure _

variable (hids : IdsMatch p)
include hids

omit he hd in
/-- What is looked up under an attribute that is the id of an element. -/
theorem yields_element {name : String} {index : Nat} {element : Element} {o : SourceObject}
    (hattribute : getAttribute e.attributes name = some (nodeId index))
    (hfind : getSourceElement p (nodeId index) = some element)
    (hvalue : V (nodeId index) = .returned o) :
    getElement p e name = some element ∧
      Yields (valueOf p V) (addElementRepresentation element) (some o) [] := by
  refine ⟨?_, ?_⟩
  · rw [getElement, hattribute, Option.bind_some, hfind]
  · refine yields_ask ?_
    rw [valueOf, hids _ element hfind]
    exact hvalue

theorem yields_setContext (named : Named) (hid : named.id = nodeId d.decl.index)
    (hname : named.name = memberName d) (hcontext : named.context = none) :
    Yields (valueOf p V) (setContext p e (declaredAccess d.decl) named)
      { named with context := d.decl.context.map fun c => nodeId c.index } (memberChanges d) := by
  have hattribute := he.attributes "context"
  rw [getAttribute_xmlOutput_context, Option.map_map] at hattribute
  unfold setContext memberChanges
  cases hc : d.decl.context with
  | none =>
    rw [hc] at hattribute
    rw [getElement, hattribute]
    obtain ⟨id, name, file, line, context⟩ := named
    obtain rfl : context = none := hcontext
    exact yields_pure _
  | some c =>
    rw [hc, Option.map_some, Function.comp_apply, attributeValue_simple (simple_nodeId _)]
      at hattribute
    obtain ⟨element, o, hfind, hvalue, hasContext⟩ := hd.context c hc
    obtain ⟨helement, hyields⟩ := yields_element hids hattribute hfind hvalue
    rw [helement]
    refine hyields.then ?_
    simp only [Option.bind_some, hasContext, hname, hid]
    exact (yields_change _).bind (yields_pure _)

theorem yields_setupNamed {anonymous : Option String}
    (hanonymous : printedName d = none → anonymous = some (anonymousName d)) :
    Yields (valueOf p V) (setupNamed p (nodeId d.decl.index) e anonymous) (namedFor files d)
      (memberChanges d) := by
  have hname : (getAttribute e.attributes "name").or (anonymous.map String.toList) =
      some (memberName d) := by
    rw [carries_name he hd, memberName]
    cases hprinted : printedName d with
    | none => rw [hanonymous hprinted]; rfl
    | some name => rfl
  unfold setupNamed
  refine (yields_ofOption hname).then ?_
  refine (yields_setLocation he hd).then ?_
  refine (yields_ofOption (carries_access he)).then ?_
  exact yields_setContext he hd hids _ rfl rfl rfl

end Naming

section Types

variable {value : (i : Procedure) → Outcome (Answer i)} {types : TypeRef → SourceType}

theorem yields_requireType {t : TypeRef}
    (h : value (.type (xmlPrintTypeIdref t)) = .returned (types t)) :
    Yields value (requireType (xmlPrintTypeIdref t)) (types t) [] :=
  (yields_ask h).then (yields_ofOption rfl)

theorem yields_getTarget {attributes : XmlSourceParser.Attributes} {t : TypeRef}
    (hattribute : getAttribute attributes "type" = some (xmlPrintTypeIdref t))
    (h : value (.type (xmlPrintTypeIdref t)) = .returned (types t)) :
    Yields value (getTarget attributes) (types t) [] :=
  (yields_ofOption hattribute).then (yields_requireType h)

/-- The attributes of a nested element, as an XML parser reports them. -/
def CarriesNested (a b : String × Attributes) : Prop :=
  a.1 = b.1 ∧ ∀ n, getAttribute a.2 n = (getAttribute b.2 n).map attributeValue

/-- What `AddArgument` collects for some arguments. -/
def collected (types : TypeRef → SourceType) (args : List (Option Parm × ArgType)) :
    List SourceType × ArgumentNames :=
  (args.map fun a => types (argumentType a),
    { names := args.map fun a => (argumentName a).getD []
      attributes := args.map fun a => attributesText (argumentAttributes a)
      required := args.countP fun a => a.2.purpose.isNone })

theorem addArgument_collected {a : Option Parm × ArgType} {args : List (Option Parm × ArgType)}
    {n w : String × Attributes} (hargument : IsArgument a w) (hcarries : CarriesNested n w)
    (hname : ∀ t ∈ argumentName a, Printable t)
    (hattributes : Printable (attributesText (argumentAttributes a))) :
    addArgument (types (argumentType a)) n.2 (collected types args) =
      collected types (a :: args) := by
  have hnameValue : (getAttribute n.2 "name").getD [] = (argumentName a).getD [] := by
    rw [hcarries.2, hargument.name]
    cases hargumentName : argumentName a with
    | none => rfl
    | some t =>
      rw [Option.map_some, Option.map_some, attributeValue_escape (hname t hargumentName)]
  have hattributesValue : (getAttribute n.2 "attributes").getD [] =
      attributesText (argumentAttributes a) := by
    rw [hcarries.2, hargument.attributes, attributeTexts_eq]
    by_cases h : argumentAttributes a = []
    · rw [if_pos h, h]
      rfl
    · rw [if_neg h, Option.map_some, attributeValue_escape hattributes, Option.getD_some]
  have hdefault : (getAttribute n.2 "default").isNone = a.2.purpose.isNone := by
    rw [hcarries.2, hargument.default]
    cases a.2.purpose <;> rfl
  simp only [addArgument, collected, hnameValue, hattributesValue, hdefault, List.map_cons,
    List.countP_cons]

/-- The arguments are read in their order. An ellipsis after them is passed over. -/
theorem yields_setupArguments (ellipsis : Bool) {args : List (Option Parm × ArgType)}
    {ws nested : List (String × Attributes)} (hargs : List.Forall₂ IsArgument args ws)
    (hnested : List.Forall₂ CarriesNested nested
      (ws ++ if ellipsis then [] else [("Ellipsis", [])]))
    (hprintable : ∀ a ∈ args, (∀ t ∈ argumentName a, Printable t) ∧
      Printable (attributesText (argumentAttributes a)))
    (htypes : ∀ a ∈ args,
      value (.type (xmlPrintTypeIdref (argumentType a))) = .returned (types (argumentType a))) :
    Yields value (setupArguments nested) (collected types args) [] := by
  induction args generalizing ws nested with
  | nil =>
    obtain rfl := List.forall₂_nil_left_iff.mp hargs
    rw [List.nil_append] at hnested
    cases ellipsis with
    | true =>
      obtain rfl := List.forall₂_nil_right_iff.mp hnested
      exact yields_pure _
    | false =>
      obtain ⟨n, rest, hn, hrest, rfl⟩ := List.forall₂_cons_right_iff.mp hnested
      obtain rfl := List.forall₂_nil_right_iff.mp hrest
      obtain ⟨name, attributes⟩ := n
      obtain rfl : name = "Ellipsis" := hn.1
      exact yields_pure _
  | cons a args ih =>
    obtain ⟨w, ws', hargument, hrest, rfl⟩ := List.forall₂_cons_left_iff.mp hargs
    obtain ⟨n, nested', hn, hnested', rfl⟩ := List.forall₂_cons_right_iff.mp hnested
    obtain ⟨hprint, hprint'⟩ := List.forall_mem_cons.mp hprintable
    obtain ⟨htype, htypes'⟩ := List.forall_mem_cons.mp htypes
    obtain ⟨name, attributes⟩ := n
    obtain rfl : name = "Argument" := hn.1.trans hargument.element
    have hattribute : getAttribute attributes "type" =
        some (xmlPrintTypeIdref (argumentType a)) := by
      rw [hn.2, hargument.type, Option.map_some, attributeValue_simple (simple_typeIdref _)]
    unfold setupArguments
    rw [if_pos rfl, ← addArgument_collected hargument hn hprint.1 hprint.2]
    refine (yields_getTarget hattribute htype).then ?_
    exact (ih hrest hnested' hprint' htypes').then (yields_pure _)

end Types

section Kinds

variable {p : SourceParser} {V : Text → Outcome SourceObject} {types : TypeRef → SourceType}
  {files : Text → Text} {demangle : Text → Option Text} {e : Element}

section Functions

variable {d : FunctionDecl} (he : Carries e (xmlOutputFunctionDecl demangle d))
  (hd : Resolved p V types files (.function d))
include he hd

theorem yields_getReturns : Yields (valueOf p V) (getReturns e)
    (if d.tag.doReturns then types d.returns else voidType) [] := by
  have hattribute := he.attributes "returns"
  rw [getAttribute_function_returns] at hattribute
  unfold getReturns
  cases hreturns : d.tag.doReturns with
  | true =>
    rw [hreturns, if_pos rfl, Option.map_some, attributeValue_simple (simple_typeIdref _)]
      at hattribute
    rw [hattribute]
    refine yields_requireType (hd.type _ ?_)
    simp [typeRefs, hreturns]
  | false =>
    rw [hreturns, if_neg Bool.false_ne_true, Option.map_none] at hattribute
    have hname : e.name = "Constructor" ∨ e.name = "Destructor" := by
      rw [he.name]
      show tagName d.tag = _ ∨ tagName d.tag = _
      cases htag : d.tag <;> simp_all [FunctionTag.doReturns, tagName]
    simp only [hattribute, hname, if_true]
    have hreturn : valueOf p V .constructorReturn = .returned voidType := rfl
    exact (yields_ask hreturn).then (yields_ofOption rfl)

theorem yields_newFunctionType :
    Yields (valueOf p V) (newFunctionType e) (functionType types d) [] := by
  have harguments : Yields (valueOf p V) (setupArguments e.nested)
      (collected types (functionArguments d)) [] := by
    refine yields_setupArguments d.voidTerminated (outputArguments_eq _ _) he.nested
      (fun a ha => ⟨fun t ht => hd.printable t ?_, hd.printable _ ?_⟩) fun a ha => hd.type _ ?_
    · refine List.mem_append_right _ (List.mem_flatMap.mpr ⟨a, ha, ?_⟩)
      exact List.mem_append_left _ (List.mem_append_left _ (Option.mem_toList.mpr ht))
    · refine List.mem_append_right _ (List.mem_flatMap.mpr ⟨a, ha, ?_⟩)
      exact List.mem_append_left _ (List.mem_append_right _ (List.mem_singleton.mpr rfl))
    · exact List.mem_append_right _ (List.mem_map_of_mem ha)
  have hsetup : Yields (valueOf p V) (setupFunctionType e)
      (if d.tag.doReturns then types d.returns else voidType,
        collected types (functionArguments d)) [] :=
    (yields_getReturns he hd).then (harguments.then (yields_pure _))
  exact hsetup.then (yields_pure _)

variable (hids : IdsMatch p)
include hids

/-- An anonymous name is only needed for a constructor. -/
theorem yields_setupFunction {kind : FunctionKind} {anonymous : Option String}
    {flags : MethodFlags}
    (hanonymous : d.tag = .constructor → anonymous = some "\x7banonymous-constructor\x7d") :
    Yields (valueOf p V) (setupFunction p kind anonymous flags (nodeId d.index) e)
      (.function kind (namedFor files (.function d)) (functionType types d) flags)
      (memberChanges (.function d)) := by
  have hprinted : printedName (.function d) = none → d.tag = .constructor := by
    intro h
    by_contra htag
    simp [printedName, htag] at h
  have hnamed : Yields (valueOf p V) (setupNamed p (nodeId d.index) e anonymous)
      (namedFor files (.function d)) (memberChanges (.function d)) :=
    yields_setupNamed (d := .function d) he hd hids fun h => hanonymous (hprinted h)
  unfold setupFunction
  refine hnamed.followed ?_
  refine (yields_newFunctionType he hd).then ?_
  exact (yields_setSourceObject _ _).then (yields_register _ _)

omit hd hids in
theorem isOne_carried {n : String} {c : Bool}
    (h : getAttribute (xmlOutputFunctionDecl demangle d).attributes n =
      if c then some ['1'] else none) : isOne e n = c := by
  rw [isOne, he.attributes, h]
  cases c <;> rfl

theorem yields_function : Yields (valueOf p V) (construct p (nodeId d.index) e)
    (objectFor types files (.function d)) (memberChanges (.function d)) := by
  have hname : e.name = tagName d.tag := he.name
  have hobject : objectFor types files (.function d) = .function (functionKind d.tag)
    (namedFor files (.function d)) (functionType types d) (functionFlags d) := rfl
  have hconst : d.constMemfunc = true → d.nonstaticMember = true := d.const_nonstatic
  have hvirtual : d.isVirtual = true → d.nonstaticMember = true := d.virtual_nonstatic
  rw [hobject]
  cases htag : d.tag with
  | constructor =>
    simp only [construct, hname, htag, tagName, functionFlags]
    exact yields_setupFunction he hd hids fun _ => rfl
  | destructor | operatorFunction | function =>
    simp only [construct, hname, htag, tagName, functionFlags]
    exact yields_setupFunction he hd hids fun h => by simp [htag] at h
  | converter =>
    have hone := isOne_carried he (getAttribute_function_const demangle d (by simp [htag]))
    simp only [construct, hname, htag, tagName, functionFlags, addConverter, hone]
    exact yields_setupFunction he hd hids fun h => by simp [htag] at h
  | operatorMethod =>
    have hone := isOne_carried he (getAttribute_function_const demangle d (by simp [htag]))
    have hstatic := isOne_carried he (getAttribute_function_static demangle d (by simp [htag]))
    simp only [construct, hname, htag, tagName, functionFlags, addOperatorMethod, hone, hstatic]
    rw [if_neg fun h => by simp [hconst h.1] at h]
    exact yields_setupFunction he hd hids fun h => by simp [htag] at h
  | method =>
    have hone := isOne_carried he (getAttribute_function_const demangle d (by simp [htag]))
    have hstatic := isOne_carried he (getAttribute_function_static demangle d (by simp [htag]))
    have hvirtualOne := isOne_carried he (getAttribute_function_virtual demangle d htag)
    have hpure := isOne_carried he (getAttribute_function_pureVirtual demangle d htag)
    simp only [construct, hname, htag, tagName, functionFlags, addMethod, hone, hstatic,
      hvirtualOne, hpure]
    rw [if_neg fun h => by simp [hconst h.1] at h, if_neg fun h => by simp [hvirtual h.1] at h]
    exact yields_setupFunction he hd hids fun h => by simp [htag] at h

end Functions

variable (hids : IdsMatch p)
include hids

theorem yields_setupVariable {d : Declaration} {t : TypeRef}
    {make : Named → SourceType → SourceObject} (he : Carries e (xmlOutput demangle d))
    (hd : Resolved p V types files d) (hname : printedName d ≠ none) (hmem : t ∈ typeRefs d)
    (hattribute : getAttribute (xmlOutput demangle d).attributes "type" =
      some (xmlPrintTypeIdref t)) :
    Yields (valueOf p V) (setupVariable p (nodeId d.decl.index) e make)
      (make (namedFor files d) (types t)) (memberChanges d) := by
  have hcarried : getAttribute e.attributes "type" = some (xmlPrintTypeIdref t) := by
    rw [he.attributes, hattribute, Option.map_some, attributeValue_simple (simple_typeIdref _)]
  unfold setupVariable
  refine (yields_setupNamed he hd hids fun h => absurd h hname).followed ?_
  exact (yields_getTarget hcarried (hd.type t hmem)).then (yields_register _ _)

theorem yields_typedef {d : TypedefDecl} (he : Carries e (xmlOutput demangle (.typedef d)))
    (hd : Resolved p V types files (.typedef d)) :
    Yields (valueOf p V) (construct p (nodeId d.index) e) (objectFor types files (.typedef d))
      (memberChanges (.typedef d)) := by
  have hname : e.name = "Typedef" := he.name
  simp only [construct, hname]
  exact yields_setupVariable hids he hd (by simp [printedName]) List.mem_cons_self
    (getAttribute_typedef_type d)

theorem yields_var {d : VarDecl} (he : Carries e (xmlOutput demangle (.var d)))
    (hd : Resolved p V types files (.var d)) :
    Yields (valueOf p V) (construct p (nodeId d.index) e) (objectFor types files (.var d))
      (memberChanges (.var d)) := by
  have hname : e.name = "Variable" := he.name
  have hinit : (getAttribute e.attributes "init").getD [] = d.initial.getD [] := by
    have hattribute := he.attributes "init"
    rw [show getAttribute (xmlOutput demangle (.var d)).attributes "init" = _ from
      getAttribute_var_init demangle d] at hattribute
    rw [hattribute]
    cases hinitial : d.initial with
    | none => rfl
    | some t =>
      have hmem : t ∈ texts (.var d) := by simp [texts, hinitial]
      rw [Option.map_some, Option.map_some, attributeValue_escape (hd.printable t hmem)]
  simp only [construct, hname, addVariable, hinit]
  exact yields_setupVariable hids he hd (by simp [printedName]) List.mem_cons_self
    (getAttribute_var_type demangle d)

omit hids in
theorem parseOffset_printed {d : FieldDecl}
    (h : d.byteOffset.low * 8 + d.bitOffset.low < 2 ^ 31) :
    parseOffset ((xmlPrintOffset d.byteOffset d.bitOffset).map attributeValue) =
      fieldOffset d := by
  unfold xmlPrintOffset fieldOffset
  by_cases hhost : hostIntegerp d.byteOffset ∧ hostIntegerp d.bitOffset
  · have hmod : (d.byteOffset.low * 8 + d.bitOffset.low) % 2 ^ 64 =
        d.byteOffset.low * 8 + d.bitOffset.low := Nat.mod_eq_of_lt (by omega)
    rw [if_pos hhost, if_pos hhost, Option.map_some, hmod, unsignedDecimal,
      attributeValue_simple (simple_digits _)]
    exact parseOffset_decimal h
  · rw [if_neg hhost, if_neg hhost]
    rfl

theorem yields_field {d : FieldDecl} (he : Carries e (xmlOutput demangle (.field d)))
    (hd : Resolved p V types files (.field d)) :
    Yields (valueOf p V) (construct p (nodeId d.index) e) (objectFor types files (.field d))
      (memberChanges (.field d)) := by
  have hname : e.name = "Field" := he.name
  have hoffset : parseOffset (getAttribute e.attributes "offset") = fieldOffset d := by
    rw [he.attributes, show getAttribute (xmlOutput demangle (.field d)).attributes "offset" = _
      from getAttribute_field_offset demangle d]
    exact parseOffset_printed (hd.offset d rfl)
  simp only [construct, hname, addField, hoffset]
  exact yields_setupVariable hids he hd (by simp [printedName]) List.mem_cons_self
    (getAttribute_field_type demangle d)

theorem yields_namespace {d : NamespaceDecl}
    (he : Carries e (xmlOutput demangle (.namespaceDecl d)))
    (hd : Resolved p V types files (.namespaceDecl d)) :
    Yields (valueOf p V) (construct p (nodeId d.index) e)
      (objectFor types files (.namespaceDecl d))
      (memberChanges (.namespaceDecl d) ++ globalChanges files (.namespaceDecl d)) := by
  have hname : e.name = "Namespace" := he.name
  simp only [construct, hname]
  unfold addNamespace
  refine (yields_setupNamed (d := .namespaceDecl d) he hd hids fun _ => rfl).bind ?_
  refine (yields_setSourceObject _ _).then ?_
  simp only [globalChanges]
  by_cases hglobal : isGlobalNamespace (namedFor files (.namespaceDecl d)) = true
  · rw [if_pos hglobal, if_pos hglobal]
    exact (yields_change _).followed (yields_pure _)
  · rw [if_neg hglobal, if_neg hglobal]
    exact yields_pure _

theorem yields_alias {d : NamespaceAlias} (he : Carries e (xmlOutput demangle (.namespaceAlias d)))
    (hd : Resolved p V types files (.namespaceAlias d)) :
    Yields (valueOf p V) (construct p (nodeId d.index) e)
      (objectFor types files (.namespaceAlias d)) (memberChanges (.namespaceAlias d)) := by
  have hname : e.name = "NamespaceAlias" := he.name
  have hattribute : getAttribute e.attributes "namespace" = some (nodeId d.realNamespace) := by
    rw [he.attributes, show getAttribute (xmlOutput demangle (.namespaceAlias d)).attributes
      "namespace" = _ from getAttribute_alias_namespace demangle d, Option.map_some,
      attributeValue_simple (simple_nodeId _)]
  obtain ⟨element, o, hfind, hvalue, hasNamespace⟩ := hd.realNamespace d rfl
  obtain ⟨helement, hyields⟩ := yields_element hids hattribute hfind hvalue
  simp only [construct, hname]
  unfold addNamespaceAlias
  refine (yields_setupNamed (d := .namespaceAlias d) he hd hids fun h => ?_).followed ?_
  · simp [printedName] at h
  refine (yields_ofOption helement).then (hyields.then ?_)
  exact (yields_ofOption hasNamespace).then (yields_register _ _)

/-- The bases are asked for one by one. -/
theorem yields_setupBases {ids : List Text} (h : ∀ id ∈ ids, IsClass p V id) :
    Yields (valueOf p V) (setupBases p ids) ids [] := by
  induction ids with
  | nil => exact yields_pure _
  | cons id ids ih =>
    obtain ⟨⟨element, o, hfind, hvalue, hasClass⟩, hrest⟩ := List.forall_mem_cons.mp h
    have hask : valueOf p V (.element element) = .returned o := by
      rw [valueOf, hids _ element hfind]
      exact hvalue
    unfold setupBases
    refine (yields_dereference hfind).then ((yields_ask hask).then ?_)
    refine (yields_ofOption hasClass).then ?_
    exact (ih hrest).then (yields_pure _)

omit hids in
theorem simple_xmlOutputBases (accesses : Bool) (links : List (Option BasesAttribute.BaseBinfo)) :
    Simple (xmlOutputBases accesses links) := by
  induction links with
  | nil => exact fun c hc => absurd hc List.not_mem_nil
  | cons link links ih =>
    cases link with
    | none => exact ih
    | some binfo =>
      have hid : Simple (BasesAttribute.writtenId binfo.id) := by
        refine Simple.cons (simple_of_all (by decide)) ?_
        rw [Int.toString_eq_repr]
        exact simple_decimal binfo.id
      refine Simple.append (Simple.append ?_ hid) (Simple.cons (simple_of_all (by decide)) ih)
      cases BasesAttribute.nAccess accesses binfo <;> exact simple_of_all (by decide)

omit hids in
/-- The public base classes are cut out of the attribute again. -/
theorem publicIds_carried {d : RecordType} (he : Carries e (xmlOutput demangle (.record d))) :
    publicIds ((getAttribute e.attributes "bases").getD []) = recordBases d := by
  rw [he.attributes, show getAttribute (xmlOutput demangle (.record d)).attributes "bases" = _ from
    getAttribute_record_bases demangle d, recordBases]
  by_cases hcomplete : d.complete ∧ d.completeType
  · rw [if_pos hcomplete, if_pos hcomplete, Option.map_some,
      attributeValue_simple (simple_xmlOutputBases _ _), Option.getD_some,
      publicIds_xmlOutputBases]
  · rw [if_neg hcomplete, if_neg hcomplete]
    rfl

theorem yields_record {d : RecordType} (he : Carries e (xmlOutput demangle (.record d)))
    (hd : Resolved p V types files (.record d)) :
    Yields (valueOf p V) (construct p (nodeId d.index) e) (objectFor types files (.record d))
      (memberChanges (.record d)) := by
  have hname : e.name = d.tag.name := he.name
  have habstract : isOne e "abstract" = d.pureVirtuals := by
    rw [isOne, he.attributes, show getAttribute (xmlOutput demangle (.record d)).attributes
      "abstract" = _ from getAttribute_record_abstract demangle d]
    cases d.pureVirtuals <;> rfl
  have hbases := publicIds_carried he
  have hsetup : ∀ anonymous, anonymous = anonymousName (.record d) →
      Yields (valueOf p V) (setupClass p (classKind d.tag) anonymous (nodeId d.index) e)
        (objectFor types files (.record d)) (memberChanges (.record d)) := by
    rintro anonymous rfl
    unfold setupClass
    refine (yields_setupNamed (d := .record d) he hd hids fun _ => rfl).followed ?_
    rw [hbases, habstract]
    refine (yields_setupBases hids (hd.base d rfl)).then ?_
    exact (yields_setSourceObject _ _).then (yields_register _ _)
  cases htag : d.tag with
  | cls | struct | union =>
    rw [htag] at hsetup
    simp only [construct, hname, htag, RecordTag.name]
    exact hsetup _ (by simp [anonymousName, htag])

omit hids in
theorem setupValues_cons {attributes : Attributes} {nested : List (String × Attributes)}
    {name initText : Text} {init : Int} {values : List (Text × Int)}
    (hname : getAttribute attributes "name" = some name)
    (hinit : getAttribute attributes "init" = some initText) (hscan : scanInt initText = some init)
    (hrest : setupValues nested = some values) :
    setupValues (("EnumValue", attributes) :: nested) = some ((name, init) :: values) := by
  rw [setupValues, if_pos rfl, hname, hinit, hrest]
  simp only [Option.bind_eq_bind, Option.bind_some, hscan, Option.pure_def]

omit hids in
theorem setupValues_eq {values : List (Text × IntegerCst)} {nested : List (String × Attributes)}
    (hnested : List.Forall₂ CarriesNested nested (values.map fun v =>
      ("EnumValue", [("name", xmlEscapeString v.1), ("init", xmlOutputInit v.2)])))
    (hprintable : ∀ v ∈ values, Printable v.1) :
    setupValues nested = some (values.map fun v => (v.1, toInt v.2.low)) := by
  induction values generalizing nested with
  | nil =>
    obtain rfl := List.forall₂_nil_right_iff.mp hnested
    rfl
  | cons v values ih =>
    obtain ⟨n, nested', hn, hrest, rfl⟩ := List.forall₂_cons_right_iff.mp hnested
    obtain ⟨hv, hvalues⟩ := List.forall_mem_cons.mp hprintable
    obtain ⟨name, attributes⟩ := n
    obtain rfl : name = "EnumValue" := hn.1
    have hname : getAttribute attributes "name" = some v.1 := by
      rw [hn.2, getAttribute_cons, if_pos rfl, Option.map_some, attributeValue_escape hv]
    have hinit : getAttribute attributes "init" = some (decimal (toInt v.2.low)) := by
      have hne : ¬ ("name" : String) = "init" := by decide
      rw [hn.2, getAttribute_cons, if_neg hne, getAttribute_cons, if_pos rfl, Option.map_some,
        xmlOutputInit, attributeValue_simple (simple_decimal _)]
    rw [List.map_cons]
    exact setupValues_cons hname hinit (scanInt_decimal (toInt_bounds _)) (ih hrest hvalues)

theorem yields_enumeral {d : EnumeralType} (he : Carries e (xmlOutput demangle (.enumeral d)))
    (hd : Resolved p V types files (.enumeral d)) :
    Yields (valueOf p V) (construct p (nodeId d.index) e) (objectFor types files (.enumeral d))
      (memberChanges (.enumeral d)) := by
  have hname : e.name = "Enumeration" := he.name
  have hvalues := setupValues_eq he.nested fun v hv => hd.printable v.1
    (List.mem_append_right _ (List.mem_map_of_mem hv))
  simp only [construct, hname]
  unfold addEnumeration
  refine (yields_setupNamed (d := .enumeral d) he hd hids fun h => ?_).followed ?_
  · simp [printedName] at h
  refine (yields_ofOption hvalues).then ?_
  exact (yields_setSourceObject _ _).then (yields_register _ _)

end Kinds

section Elements

/-- The attributes of an element are saved after its object has been made. -/
theorem yields_addElement {p : SourceParser} {value : (i : Procedure) → Outcome (Answer i)}
    {e : Element} {id : Text} {attributes : List Attribute} {o : SourceObject} {cs : List Change}
    (hid : getAttribute e.attributes "id" = some id)
    (hattributes : getAttribute e.attributes "attributes" =
      if attributes = [] then none else some (attributesText attributes))
    (hconstruct : Yields value (construct p id e) o cs) :
    Yields value (addElement p e) o (cs ++
      if attributes = [] then [] else [.setAttributes id (attributesText attributes)]) := by
  have hattempt : Yields value (construct p id e).attempt (some o) cs := by
    have hdenote : denote Use.isNull value (construct p id e).attempt =
        (.returned (some o), (denote Use.isNull value (construct p id e)).2) := by
      rw [denote_attempt, hconstruct.returned]
    exact ⟨congrArg Prod.fst hdenote, by rw [hdenote]; exact hconstruct.changes⟩
  have hsave : Yields value (saveAttributes id e (some o)) o
      (if attributes = [] then [] else [.setAttributes id (attributesText attributes)]) := by
    rw [saveAttributes, hattributes]
    by_cases h : attributes = []
    · rw [if_pos h, if_pos h]
      exact yields_ofOption rfl
    · rw [if_neg h, if_neg h]
      exact (yields_dereference rfl).then ((yields_change _).followed (yields_pure _))
  exact (yields_dereference hid).then (hattempt.bind hsave)

variable {p : SourceParser} {V : Text → Outcome SourceObject} {types : TypeRef → SourceType}
  {files : Text → Text} {demangle : Text → Option Text} {e : Element} {d : Declaration}
  (hids : IdsMatch p) (he : Carries e (xmlOutput demangle d)) (hd : Resolved p V types files d)
include hids he hd

/-- What the function for the element of a declaration makes. -/
theorem yields_construct :
    Yields (valueOf p V) (construct p (nodeId d.decl.index) e) (objectFor types files d)
      (memberChanges d ++ globalChanges files d) := by
  cases d with
  | namespaceDecl d => exact yields_namespace hids he hd
  | namespaceAlias d => exact (List.append_nil _).symm ▸ yields_alias hids he hd
  | typedef d => exact (List.append_nil _).symm ▸ yields_typedef hids he hd
  | function d => exact (List.append_nil _).symm ▸ yields_function he hd hids
  | var d => exact (List.append_nil _).symm ▸ yields_var hids he hd
  | field d => exact (List.append_nil _).symm ▸ yields_field hids he hd
  | record d => exact (List.append_nil _).symm ▸ yields_record hids he hd
  | enumeral d => exact (List.append_nil _).symm ▸ yields_enumeral hids he hd

/-- The object is the declaration, and the changes are those for it. -/
theorem denoteElement_declaration :
    (denoteElement p V e).1 = .returned (objectFor types files d) ∧
      (denoteElement p V e).2.filterMap changed = changesFor files d := by
  have hadd := yields_addElement (carries_id he) (carries_attributes he hd)
    (yields_construct hids he hd)
  exact ⟨hadd.returned, hadd.changes⟩

end Elements

end CableSwig.Parsers.DeclarationReading
