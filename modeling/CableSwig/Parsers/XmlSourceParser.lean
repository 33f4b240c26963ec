import CableSwig.GccXml.TypeDump
import CableSwig.Lib.OrderedMap
import Mathlib.Data.Char

/-!
# The handlers of XML events

`StartElement` and `EndElement` of `XMLSourceParser`, with the handlers that they dispatch to.
-/
namespace CableSwig.Parsers.XmlSourceParser

open CableSwig.GccXml.TypeDump
open CableSwig.Lib.OrderedMap
open CableSwig.Lib.StdString

abbrev Attributes := List (String × Text)

/-- The order of the maps that are keyed by `String`. -/
def stringLess : Text → Text → Bool := lexLess ordLess

theorem stringLess_strictTotal : StrictTotal stringLess := lexLess_strictTotal ordLess_strictTotal

/-- `SetAttributes`: each assignment replaces what the name had before. -/
def setAttributes (atts : Attributes) : Attributes :=
  atts.foldl (fun attributeMap a => a :: attributeMap.filter fun b => b.1 ≠ a.1) []

/-- The members that events change. The nesting is an `unsigned int`. -/
structure SourceParser where
  fileMap : StdMap Text Text := .empty
  elementMap : StdMap Text Element := .empty
  unknownElementNesting : UInt32 := 0
  sourceParseError : Bool := false
  currentElement : Option Element := none

inductive Event
  | startElement (name : String) (atts : Attributes)
  | endElement (name : String)

namespace SourceParser

section Handlers

variable (p : SourceParser)

/-- The handlers of elements that stand in another one. `parentOk` is the check of the name of
the current element. -/
def startNested (name : String) (parentOk : String → Bool) (atts : Attributes) : SourceParser :=
  match p.currentElement with
  | none => { p with sourceParseError := true }
  | some e =>
    if parentOk e.name then
      { p with
        currentElement := some { e with nested := e.nested ++ [(name, setAttributes atts)] } }
    else { p with sourceParseError := true }

def startArgument (atts : Attributes) : SourceParser :=
  p.startNested "Argument" (fun _ => true) atts

def startEllipsis (atts : Attributes) : SourceParser :=
  p.startNested "Ellipsis" (fun _ => true) atts

def startEnumValue (atts : Attributes) : SourceParser :=
  p.startNested "EnumValue" (fun parent => parent = "Enumeration") atts

def startBase (atts : Attributes) : SourceParser :=
  p.startNested "Base" (fun parent => parent = "Class" ∨ parent = "Struct") atts

def startFile (atts : Attributes) : SourceParser :=
  match getAttribute (setAttributes atts) "id", getAttribute (setAttributes atts) "name" with
  | some id, some name => { p with fileMap := p.fileMap.assign stringLess id name }
  | _, _ => p

def startOther (name : String) (atts : Attributes) : SourceParser :=
  { p with currentElement := some ⟨name, setAttributes atts, []⟩ }

/-- `EndOther`, which uses the current element unseen. -/
def endOther : Option SourceParser :=
  match p.currentElement with
  | none => none
  | some element =>
    match getAttribute element.attributes "id" with
    | none => some { p with currentElement := none, sourceParseError := true }
    | some id => some
      { p with currentElement := none, elementMap := p.elementMap.assign stringLess id element }

end Handlers

/-- The elements that are handled by `StartOther` and `EndOther`. -/
def otherElements : List String :=
  ["Namespace", "NamespaceAlias", "FundamentalType", "PointerType", "ReferenceType", "ArrayType",
    "FunctionType", "MethodType", "OffsetType", "Enumeration", "Class", "Struct", "Union",
    "Typedef", "Variable", "Field", "Function", "Method", "Constructor", "Destructor",
    "OperatorFunction", "OperatorMethod", "Converter"]

section Dispatch

variable (p : SourceParser)

/-- The element is ignored, and what is in it. -/
def startUnknown : SourceParser :=
  { p with unknownElementNesting := p.unknownElementNesting + 1, sourceParseError := true }

def startElement (name : String) (atts : Attributes) : SourceParser :=
  if p.unknownElementNesting ≠ 0 then
    { p with unknownElementNesting := p.unknownElementNesting + 1 }
  else if name = "GCC_XML" then p
  else if name = "Argument" then p.startArgument atts
  else if name = "Ellipsis" then p.startEllipsis atts
  else if name = "EnumValue" then p.startEnumValue atts
  else if name = "Base" then p.startBase atts
  else if p.currentElement.isSome then p.startUnknown
  else if name = "File" then p.startFile atts
  else if name = "Unimplemented" then p
  else if name = "CvQualifiedType" then p
  else if name ∈ otherElements then p.startOther name atts
  else p.startUnknown

/-- A null pointer is used where there is no result. -/
def endElement (name : String) : Option SourceParser :=
  if p.unknownElementNesting ≠ 0 then
    some { p with unknownElementNesting := p.unknownElementNesting - 1 }
  else if name ∈ otherElements then p.endOther
  else some p

def handle : Event → Option SourceParser
  | .startElement name atts => some (p.startElement name atts)
  | .endElement name => p.endElement name

end Dispatch

/-- The handlers of a sequence of events, one after the other. -/
def run : List Event → SourceParser → Option SourceParser
  | [], p => some p
  | e :: es, p => (p.handle e).bind (run es)

/-- What `ParseStream` resets before it reads. -/
def prepare (p : SourceParser) : SourceParser :=
  { p with sourceParseError := false, unknownElementNesting := 0 }

theorem run_append (es es' : List Event) (p : SourceParser) :
    run (es ++ es') p = (run es p).bind (run es') := by
  induction es generalizing p with
  | nil => rfl
  | cons e es ih =>
    rw [List.cons_append, run, run, Option.bind_assoc]
    exact congrArg (Option.bind (p.handle e)) (funext ih)

end SourceParser

end CableSwig.Parsers.XmlSourceParser
