import CableSwig.Parsers.ElementTable

/-!
# Parsing again after an error

A stream that is not well formed ends after some of its events. What the parser has left then
decides how it takes the next stream.
-/
namespace CableSwig.Parsers.ParseAgain

open CableSwig.GccXml.TypeDump
open CableSwig.Lib.OrderedMap
open CableSwig.Lib.StdString
open CableSwig.Parsers.XmlSourceParser
open CableSwig.Parsers.XmlSourceParser.SourceParser
open CableSwig.Parsers.ElementTable

section Streams

/-- What has been read of a document when an error stops the parser: elements, and perhaps one
that is still open. -/
inductive Cut
  | ends (done : List Node)
  | within (done : List Node) (name : String) (atts : Attributes) (rest : Cut)

namespace Cut

def events : Cut → List Event
  | .ends done => eventsOf done
  | .within done name atts rest => eventsOf done ++ .startElement name atts :: rest.events

def depth : Cut → Nat
  | .ends done => depthOf done
  | .within done _ _ rest => max (depthOf done) (rest.depth + 1)

/-- The top-level element that is open. -/
def opened : Cut → Option String
  | .ends _ => none
  | .within _ name _ rest =>
    match inside none name with
    | some none => rest.opened
    | some (some e) => some e
    | none => none

/-- The top-level elements that have been kept. -/
def kept : Cut → List Element
  | .ends done => topLevelOf (visibleIn none done)
  | .within done name _ rest => topLevelOf (visibleIn none done) ++
    match inside none name with
    | some none => rest.kept
    | some (some _) => []
    | none => []

end Cut

inductive Content
  | complete (root : Node)
  | stopped (read : Cut)

namespace Content

def depth : Content → Nat
  | .complete root => root.depth
  | .stopped read => read.depth

def kept : Content → List Element
  | .complete root => topLevelOf (root.visible none)
  | .stopped read => read.kept

def opened : Content → Option String
  | .complete _ => none
  | .stopped read => read.opened

def events : Content → List Event
  | .complete root => root.events
  | .stopped read => read.events

def isStopped : Content → Bool
  | .complete _ => false
  | .stopped _ => true

end Content

/-- A stream. Expat counts the open elements in an `int`. -/
structure Stream where
  content : Content
  depth_lt : content.depth < 2 ^ 31

/-- `Parse`: whether there was no error, and the parser that is left. -/
def parse (p : SourceParser) (s : Stream) : Option (Bool × SourceParser) :=
  (run s.content.events (prepare p)).map fun p' =>
    (!s.content.isStopped && !p'.sourceParseError, p')

/-- One `Parse` after the other. -/
def parseAll : List Stream → SourceParser → Option SourceParser
  | [], p => some p
  | s :: ss, p => (parse p s).bind fun r => parseAll ss r.2

/-- The parser takes the stream as a fresh parser does. -/
def ActsFresh (p : SourceParser) (s : Stream) : Prop :=
  ∃ r p' r₀ p₀, parse p s = some (r, p') ∧ parse {} s = some (r₀, p₀) ∧ r = r₀ ∧
    ∀ id e, p₀.elementMap.find stringLess id = some e → p'.elementMap.find stringLess id = some e

end Streams

section Depth

mutual

theorem depth_visible : ∀ (n : Node) (parent : Option String), ∀ v ∈ n.visible parent,
    v.2.depth ≤ n.depth
  | .mk name atts children, parent, v, hv => by
    rw [Node.visible] at hv
    rcases List.mem_cons.mp hv with rfl | hv
    · exact le_rfl
    · cases hin : inside parent name with
      | none =>
        rw [hin] at hv
        cases hv
      | some parent' =>
        rw [hin] at hv
        have h := depth_visibleIn children parent' v hv
        rw [Node.depth]
        omega

theorem depth_visibleIn : ∀ (ns : List Node) (parent : Option String),
    ∀ v ∈ visibleIn parent ns, v.2.depth ≤ depthOf ns
  | n :: ns, parent, v, hv => by
    rw [depthOf]
    rcases List.mem_append.mp hv with hv | hv
    · exact (depth_visible n parent v hv).trans (le_max_left _ _)
    · exact (depth_visibleIn ns parent v hv).trans (le_max_right _ _)

end

theorem shallow_visible {n : Node} (h : n.depth < 2 ^ 32) (parent : Option String) :
    Shallow (n.visible parent) := fun v hv _ => (depth_visible n parent v hv).trans_lt h

theorem shallow_visibleIn {ns : List Node} (h : depthOf ns < 2 ^ 32) (parent : Option String) :
    Shallow (visibleIn parent ns) := fun v hv _ => (depth_visibleIn ns parent v hv).trans_lt h

end Depth

section Runs

/-- What has been read in an unknown element leaves no trace but the count. -/
theorem run_skippedCut : ∀ (c : Cut) (p : SourceParser) (d : Nat), 0 < d →
    d + c.depth < 2 ^ 32 → p.unknownElementNesting = UInt32.ofNat d →
    ∃ p', run c.events p = some p' ∧ p'.elementMap = p.elementMap ∧
      p'.currentElement = p.currentElement
  | .ends done, p, d, hpos, hlt, hd => ⟨p, run_skippedIn done p d hpos hlt hd, rfl, rfl⟩
  | .within done name atts rest, p, d, hpos, hlt, hd => by
    rw [Cut.depth] at hlt
    have hdone := run_skippedIn done p d hpos (by omega) hd
    have hne : p.unknownElementNesting ≠ 0 := hd ▸ ofNat_ne_zero hpos (by omega)
    have hstart : p.startElement name atts =
        { p with unknownElementNesting := UInt32.ofNat (d + 1) } := by
      rw [startElement, if_pos hne, hd, UInt32.ofNat_add]
      rfl
    obtain ⟨p', hrun, helements, hcurrent⟩ := run_skippedCut rest
      { p with unknownElementNesting := UInt32.ofNat (d + 1) } (d + 1) (by omega) (by omega) rfl
    refine ⟨p', ?_, helements, hcurrent⟩
    rw [Cut.events, run_append, hdone, Option.bind_some, run, handle, hstart, Option.bind_some,
      hrun]

/-- What has been read outside unknown elements. -/
theorem run_cut : ∀ (c : Cut) (p : SourceParser) (parent : Option String),
    p.unknownElementNesting = 0 → p.currentElement.map Element.name = parent →
    c.depth < 2 ^ 32 →
    ∃ p', run c.events p = some p' ∧
      p'.elementMap = (if parent = none then c.kept else []).foldl record p.elementMap ∧
      p'.currentElement.map Element.name = parent.or c.opened
  | .ends done, p, parent, hnesting, hparent, hlt => by
    obtain ⟨p', hrun, h⟩ := run_nodes done p parent hnesting hparent
      (shallow_visibleIn hlt parent)
    refine ⟨p', hrun, ?_, ?_⟩
    · rw [h.elements]
      cases parent with
      | none => rfl
      | some e => rw [topLevelOf_visibleIn_some]; rfl
    · rw [h.current, Option.map_map, ← hparent]
      cases p.currentElement <;> rfl
  | .within done name atts rest, p, parent, hnesting, hparent, hlt => by
    rw [Cut.depth] at hlt
    obtain ⟨p₁, hdone, h₁⟩ := run_nodes done p parent hnesting hparent
      (shallow_visibleIn (by omega) parent)
    have hparent₁ : p₁.currentElement.map Element.name = parent := by
      rw [h₁.current, Option.map_map, ← hparent]
      rfl
    have hrun : ∀ p₂ p', p₁.startElement name atts = p₂ → run rest.events p₂ = some p' →
        run (Cut.within done name atts rest).events p = some p' := by
      intro p₂ p' hstart hrest
      rw [Cut.events, run_append, hdone, Option.bind_some, run, handle, hstart,
        Option.bind_some, hrest]
    have hdone₁ : p₁.elementMap = (if parent = none then topLevelOf (visibleIn none done) else
        []).foldl record p.elementMap := by
      rw [h₁.elements]
      cases parent with
      | none => rfl
      | some e => rw [topLevelOf_visibleIn_some]; rfl
    rcases inside_cases parent name with ⟨hin, hname⟩ | ⟨rfl, hother, hin⟩ | ⟨hin, hnested, hnone⟩
    · have h₂ : Built [(parent, .mk name atts [])] p₁ (p₁.startElement name atts) :=
        built_transparent h₁.nesting hparent₁ hname
      have hparent₂ : (p₁.startElement name atts).currentElement.map Element.name = parent := by
        rw [h₂.current, Option.map_map, ← hparent₁]
        rfl
      obtain ⟨p', hrest, helements, hcurrent⟩ := run_cut rest _ parent h₂.nesting hparent₂
        (by omega)
      have hnot : topLevelOf [(parent, .mk name atts [])] = [] := by
        have hif : ¬ (parent = none ∧ name ∈ otherElements) := by
          rintro ⟨-, hother⟩
          rcases hname with h | ⟨-, h⟩
          · exact not_other_of_nested h hother
          · exact not_other_of_plain h hother
        simp [topLevelOf, Node.name, hif]
      have hsame : (p₁.startElement name atts).elementMap = p₁.elementMap := by
        rw [h₂.elements, hnot]
        rfl
      refine ⟨p', hrun _ p' rfl hrest, ?_, ?_⟩
      · rw [helements, hsame, hdone₁]
        cases parent with
        | none => rw [if_pos rfl, if_pos rfl, if_pos rfl, Cut.kept, hin, List.foldl_append]
        | some e => rfl
      · rw [hcurrent]
        cases parent with
        | none => rw [Option.none_or, Option.none_or, Cut.opened, hin]
        | some e => rfl
    · have hcurrent₁ : p₁.currentElement = none := Option.map_eq_none_iff.mp hparent₁
      have hstart : p₁.startElement name atts = p₁.startOther name atts :=
        startElement_other h₁.nesting hcurrent₁ hother
      obtain ⟨p', hrest, helements, hcurrent⟩ := run_cut rest (p₁.startOther name atts) (some name)
        h₁.nesting rfl (by omega)
      refine ⟨p', hrun _ p' hstart hrest, ?_, ?_⟩
      · rw [helements, if_neg (by simp), if_pos rfl, Cut.kept, hin, List.append_nil]
        exact hdone₁
      · rw [hcurrent, Cut.opened, hin]
        rfl
    · have hstart : p₁.startElement name atts = p₁.startUnknown :=
        startElement_unknown h₁.nesting hnested fun h => hnone (by rw [← hparent₁, h]; rfl)
      have hone : p₁.startUnknown.unknownElementNesting = UInt32.ofNat 1 := by
        rw [startUnknown, h₁.nesting]
        rfl
      obtain ⟨p', hrest, helements, hcurrent⟩ := run_skippedCut rest p₁.startUnknown 1
        (by omega) (by omega) hone
      refine ⟨p', hrun _ p' hstart hrest, ?_, ?_⟩
      · rw [helements]
        refine hdone₁.trans ?_
        cases parent with
        | none => rw [if_pos rfl, if_pos rfl, Cut.kept, hin, List.append_nil]
        | some e => rfl
      · rw [hcurrent]
        refine hparent₁.trans ?_
        cases parent with
        | none => rw [Cut.opened, hin]; rfl
        | some e => rfl

/-- What has been read of a stream, whole or not. -/
theorem run_content (s : Stream) (p : SourceParser) (parent : Option String)
    (hnesting : p.unknownElementNesting = 0)
    (hparent : p.currentElement.map Element.name = parent) :
    ∃ p', run s.content.events p = some p' ∧
      p'.elementMap = (if parent = none then s.content.kept else []).foldl record p.elementMap ∧
      p'.currentElement.map Element.name = parent.or s.content.opened ∧
      ∀ root, s.content = .complete root →
        (p'.sourceParseError = true ↔
          p.sourceParseError = true ∨ ∃ v ∈ root.visible parent, Wrong v) := by
  have hlt := s.depth_lt
  cases hcontent : s.content with
  | stopped read =>
    rw [hcontent, Content.depth] at hlt
    obtain ⟨p', hrun, helements, hcurrent⟩ := run_cut read p parent hnesting hparent (by omega)
    exact ⟨p', hrun, helements, hcurrent, fun root h => by cases h⟩
  | complete root =>
    rw [hcontent, Content.depth] at hlt
    obtain ⟨p', hrun, h⟩ := run_node root p parent hnesting hparent
      (shallow_visible (by omega) parent)
    refine ⟨p', hrun, ?_, ?_, ?_⟩
    · rw [h.elements]
      cases parent with
      | none => rfl
      | some e =>
        have hnone : topLevelOf (root.visible (some e)) = [] := by
          have hin := topLevelOf_visibleIn_some e [root]
          rwa [visibleIn, visibleIn, List.append_nil] at hin
        rw [hnone]
        rfl
    · rw [h.current, Option.map_map, ← hparent]
      cases p.currentElement <;> rfl
    · rintro root' hroot
      cases hroot
      exact h.error

end Runs

section Histories

/-- What a history of streams leaves in the parser: the name of the element that is open, and the
elements that have been put into the table. -/
structure Left where
  openName : Option String := none
  elements : List Element := []

/-- As long as an element is open nothing more is put into the table. -/
def Left.after (l : Left) (s : Stream) : Left :=
  match l.openName with
  | none => ⟨s.content.opened, l.elements ++ s.content.kept⟩
  | some name => ⟨some name, l.elements⟩

/-- The parser has nothing else of what was read before. -/
structure Holds (p : SourceParser) (l : Left) : Prop where
  current : p.currentElement.map Element.name = l.openName
  elements : p.elementMap = l.elements.foldl record .empty

theorem parse_holds {p : SourceParser} {l : Left} (h : Holds p l) (s : Stream) :
    ∃ p', parse p s = some (!s.content.isStopped && !p'.sourceParseError, p') ∧
      Holds p' (l.after s) ∧
      ∀ root, s.content = .complete root →
        (p'.sourceParseError = true ↔ ∃ v ∈ root.visible l.openName, Wrong v) := by
  obtain ⟨p', hrun, helements, hcurrent, herror⟩ :=
    run_content s (prepare p) l.openName rfl h.current
  refine ⟨p', by rw [parse, hrun]; rfl, ?_, fun root hroot => ?_⟩
  · have hmap : (prepare p).elementMap = l.elements.foldl record .empty := h.elements
    rw [hmap] at helements
    cases hopen : l.openName with
    | none =>
      rw [hopen] at helements hcurrent
      refine ⟨?_, ?_⟩
      · simp only [Left.after, hopen]
        exact hcurrent
      · simp only [Left.after, hopen, List.foldl_append]
        exact helements
    | some name =>
      rw [hopen] at helements hcurrent
      refine ⟨?_, ?_⟩
      · simp only [Left.after, hopen]
        exact hcurrent
      · simp only [Left.after, hopen]
        exact helements
  · rw [herror root hroot]
    exact or_iff_right (by simp [prepare])

theorem parseAll_holds (ss : List Stream) {p : SourceParser} {l : Left} (h : Holds p l) :
    ∃ p', parseAll ss p = some p' ∧ Holds p' (ss.foldl Left.after l) := by
  induction ss generalizing p l with
  | nil => exact ⟨p, rfl, h⟩
  | cons s ss ih =>
    obtain ⟨p₁, hparse, h₁, -⟩ := parse_holds h s
    obtain ⟨p', hall, h'⟩ := ih h₁
    refine ⟨p', ?_, h'⟩
    rw [parseAll, hparse]
    exact hall

/-- What was left cannot be seen in the next stream: no element is open, or each element of the
stream was read before and the stream has an error in the open element exactly if it has one
by itself. -/
def Harmless (l : Left) (s : Stream) : Prop :=
  ∀ name, l.openName = some name →
    (∀ id e, lastWithId id s.content.kept = some e → lastWithId id l.elements = some e) ∧
    ∀ root, s.content = .complete root →
      ((∃ v ∈ root.visible (some name), Wrong v) ↔ ∃ v ∈ root.visible none, Wrong v)

theorem lastWithId_append (id : Text) (es es' : List Element) :
    lastWithId id (es ++ es') = (lastWithId id es').or (lastWithId id es) := by
  rw [lastWithId, List.reverse_append, List.find?_append]
  rfl

theorem holds_fresh : Holds {} {} := ⟨rfl, rfl⟩

theorem Holds.find_eq {p : SourceParser} {l : Left} (h : Holds p l) (id : Text) :
    p.elementMap.find stringLess id = lastWithId id l.elements := by
  rw [h.elements, find_foldl_record]
  exact Option.or_none

theorem actsFresh_iff {p : SourceParser} {l : Left} (h : Holds p l) (s : Stream) :
    ActsFresh p s ↔ Harmless l s := by
  obtain ⟨p', hparse, h', herror⟩ := parse_holds h s
  obtain ⟨p₀, hparse₀, h₀, herror₀⟩ := parse_holds holds_fresh s
  have hkept : ∀ id, p₀.elementMap.find stringLess id = lastWithId id s.content.kept := by
    intro id
    rw [h₀.find_eq]
    rfl
  have hacts : ActsFresh p s ↔
      ((!s.content.isStopped && !p'.sourceParseError) =
        (!s.content.isStopped && !p₀.sourceParseError)) ∧
      ∀ id e, lastWithId id s.content.kept = some e →
        lastWithId id (l.after s).elements = some e := by
    constructor
    · rintro ⟨r, q, r₀, q₀, hq, hq₀, hr, hfind⟩
      rw [hparse] at hq
      rw [hparse₀] at hq₀
      cases hq
      cases hq₀
      refine ⟨hr, fun id e he => ?_⟩
      rw [← h'.find_eq]
      exact hfind id e ((hkept id).trans he)
    · rintro ⟨hr, hfind⟩
      refine ⟨_, p', _, p₀, hparse, hparse₀, hr, fun id e he => ?_⟩
      rw [h'.find_eq]
      exact hfind id e ((hkept id).symm.trans he)
  have hresult : ((!s.content.isStopped && !p'.sourceParseError) =
      (!s.content.isStopped && !p₀.sourceParseError)) ↔ ∀ root, s.content = .complete root →
        ((∃ v ∈ root.visible l.openName, Wrong v) ↔ ∃ v ∈ root.visible none, Wrong v) := by
    cases hcontent : s.content with
    | stopped read =>
      refine iff_of_true rfl fun root hroot => ?_
      cases hroot
    | complete root =>
      have hwrong := herror root hcontent
      have hwrong₀ : p₀.sourceParseError = true ↔ ∃ v ∈ root.visible none, Wrong v :=
        herror₀ root hcontent
      have hsame : ((∃ v ∈ root.visible l.openName, Wrong v) ↔ ∃ v ∈ root.visible none, Wrong v) ↔
          p'.sourceParseError = p₀.sourceParseError := by
        rw [← hwrong, ← hwrong₀]
        exact Bool.eq_iff_iff.symm
      have hnot : ((!Content.isStopped (.complete root) && !p'.sourceParseError) =
          (!Content.isStopped (.complete root) && !p₀.sourceParseError)) ↔
            p'.sourceParseError = p₀.sourceParseError := by
        rw [Content.isStopped, Bool.not_false, Bool.true_and, Bool.true_and]
        exact Bool.not_inj_iff
      rw [hnot, ← hsame]
      constructor
      · rintro hiff root' hroot'
        cases hroot'
        exact hiff
      · intro hall
        exact hall root rfl
  rw [hacts, hresult, Harmless]
  cases hopen : l.openName with
  | none =>
    refine iff_of_true ⟨fun root _ => Iff.rfl, fun id e he => ?_⟩ fun name hname => by cases hname
    have helements : (l.after s).elements = l.elements ++ s.content.kept := by
      rw [Left.after, hopen]
    rw [helements, lastWithId_append, he]
    rfl
  | some name =>
    have helements : (l.after s).elements = l.elements := by
      rw [Left.after, hopen]
    rw [helements]
    constructor
    · rintro ⟨hwrong, hfind⟩ name' hname'
      cases hname'
      exact ⟨hfind, hwrong⟩
    · intro hall
      exact (hall name rfl).symm

/-- After a history of streams, whole or not, the parser takes the next stream as a fresh parser
does exactly if what was left is harmless. -/
theorem next_parse_fresh_iff (history : List Stream) (s : Stream) :
    ∃ p, parseAll history {} = some p ∧
      (ActsFresh p s ↔ Harmless (history.foldl Left.after {}) s) := by
  obtain ⟨p, hall, h⟩ := parseAll_holds history holds_fresh
  exact ⟨p, hall, actsFresh_iff h s⟩

/-- A stream that stops in an open namespace. -/
def stoppedNamespace : Stream :=
  ⟨.stopped (.within [] "GCC_XML" [] (.within [] "Namespace" [("id", ['a'])] (.ends []))),
    by decide⟩

def wholeNamespace : Stream :=
  ⟨.complete (.mk "GCC_XML" [] [.mk "Namespace" [("id", ['b'])] []]), by decide⟩

/-- The namespace that was open is still the current element of the next document. -/
theorem stoppedNamespace_not_fresh :
    ¬ ∃ p, parseAll [stoppedNamespace] {} = some p ∧ ActsFresh p wholeNamespace := by
  rintro ⟨p, hall, hfresh⟩
  obtain ⟨p', hall', h'⟩ := parseAll_holds [stoppedNamespace] holds_fresh
  obtain rfl : p' = p := Option.some.inj (hall'.symm.trans hall)
  have hharmless := (actsFresh_iff h' wholeNamespace).mp hfresh
  have hbound := (hharmless "Namespace" (by decide)).1 ['b'] ⟨"Namespace", [("id", ['b'])], []⟩ rfl
  cases hbound

end Histories

end CableSwig.Parsers.ParseAgain
