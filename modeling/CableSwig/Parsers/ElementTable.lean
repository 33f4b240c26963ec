import CableSwig.Parsers.XmlSourceParser
import Mathlib.Data.List.Induction

/-!
# The element table of a document

What the event handlers make of the elements of a document, told from the elements themselves:
which of them stand outside unknown elements, which become entries of the table and with what
nested in them, and which are errors.
-/
namespace CableSwig.Parsers.ElementTable

open CableSwig.GccXml.TypeDump
open CableSwig.Lib.OrderedMap
open CableSwig.Lib.StdString
open CableSwig.Parsers.XmlSourceParser
open CableSwig.Parsers.XmlSourceParser.SourceParser

section Documents

/-- An element of a document with the elements in it. -/
inductive Node
  | mk (name : String) (atts : Attributes) (children : List Node)

def Node.name : Node → String
  | .mk name _ _ => name

def Node.atts : Node → Attributes
  | .mk _ atts _ => atts

def Node.children : Node → List Node
  | .mk _ _ children => children

mutual

/-- The events of an element. -/
def Node.events : Node → List Event
  | .mk name atts children => .startElement name atts :: (eventsOf children ++ [.endElement name])

def eventsOf : List Node → List Event
  | [] => []
  | n :: ns => n.events ++ eventsOf ns

end

mutual

/-- The number of elements that are open at a time. -/
def Node.depth : Node → Nat
  | .mk _ _ children => depthOf children + 1

def depthOf : List Node → Nat
  | [] => 0
  | n :: ns => max n.depth (depthOf ns)

end

/-- The elements that stand in a top-level element. -/
def nestedElements : List String := ["Argument", "Ellipsis", "EnumValue", "Base"]

/-- The top-level elements that are not kept in the table. -/
def plainElements : List String := ["File", "Unimplemented", "CvQualifiedType"]

/-- The top-level element that is open inside an element with this name, where `parent` is the
one that is open outside. There is no result for an unknown element. -/
def inside (parent : Option String) (name : String) : Option (Option String) :=
  if name = "GCC_XML" ∨ name ∈ nestedElements then some parent
  else if parent.isSome then none
  else if name ∈ plainElements then some none
  else if name ∈ otherElements then some (some name)
  else none

mutual

/-- The elements outside unknown elements, with the names of the top-level elements that they
stand in. -/
def Node.visible (parent : Option String) : Node → List (Option String × Node)
  | .mk name atts children => (parent, .mk name atts children) ::
    match inside parent name with
    | some parent' => visibleIn parent' children
    | none => []

def visibleIn (parent : Option String) : List Node → List (Option String × Node)
  | [] => []
  | n :: ns => n.visible parent ++ visibleIn parent ns

end

/-- The element is nested in a top-level element of this name. -/
def Accepts (parent name : String) : Prop :=
  name = "Argument" ∨ name = "Ellipsis" ∨ (name = "EnumValue" ∧ parent = "Enumeration") ∨
    (name = "Base" ∧ (parent = "Class" ∨ parent = "Struct"))

instance (parent name : String) : Decidable (Accepts parent name) := by
  unfold Accepts
  infer_instance

/-- The elements that are nested in a top-level element of this name. -/
def nestedOf (parent : String) (vs : List (Option String × Node)) : List (String × Attributes) :=
  vs.filterMap fun v =>
    if Accepts parent v.2.name then some (v.2.name, setAttributes v.2.atts) else none

/-- The element as it is kept in the table. -/
def Node.element (n : Node) : Element :=
  ⟨n.name, setAttributes n.atts, nestedOf n.name (visibleIn (some n.name) n.children)⟩

/-- The top-level elements that are kept in the table. -/
def topLevelOf (vs : List (Option String × Node)) : List Element :=
  vs.filterMap fun v =>
    if v.1 = none ∧ v.2.name ∈ otherElements then some v.2.element else none

/-- The last of the elements with this id. -/
def lastWithId (id : Text) (es : List Element) : Option Element :=
  es.reverse.find? fun e => getAttribute e.attributes "id" = some id

/-- The errors that are found in an element. -/
inductive Wrong : Option String × Node → Prop
  | unknown {parent : Option String} {n : Node}
      (h : n.name ∉ "GCC_XML" :: (nestedElements ++ plainElements ++ otherElements)) :
      Wrong (parent, n)
  | outside {n : Node} (h : n.name = "Argument" ∨ n.name = "Ellipsis") : Wrong (none, n)
  | enumValue {parent : Option String} {n : Node} (h : n.name = "EnumValue")
      (hparent : parent ≠ some "Enumeration") : Wrong (parent, n)
  | base {parent : Option String} {n : Node} (h : n.name = "Base")
      (hclass : parent ≠ some "Class") (hstruct : parent ≠ some "Struct") : Wrong (parent, n)
  | within {parent : String} {n : Node} (h : n.name ∉ "GCC_XML" :: nestedElements) :
      Wrong (some parent, n)
  | noId {n : Node} (h : n.name ∈ otherElements)
      (hid : getAttribute (setAttributes n.atts) "id" = none) : Wrong (none, n)

end Documents

section Effects

/-- The table with one more element, if it has an id. -/
def record (m : StdMap Text Element) (e : Element) : StdMap Text Element :=
  match getAttribute e.attributes "id" with
  | none => m
  | some id => m.assign stringLess id e

theorem find_foldl_record (es : List Element) (m : StdMap Text Element) (id : Text) :
    (es.foldl record m).find stringLess id = (lastWithId id es).or (m.find stringLess id) := by
  induction es using List.reverseRecOn with
  | nil => rfl
  | append_singleton es e ih =>
    rw [List.foldl_append, List.foldl_cons, List.foldl_nil]
    have hlast : lastWithId id (es ++ [e]) =
        (if getAttribute e.attributes "id" = some id then some e else lastWithId id es) := by
      simp only [lastWithId, List.reverse_append, List.reverse_cons, List.reverse_nil,
        List.nil_append, List.singleton_append, List.find?_cons]
      by_cases h : getAttribute e.attributes "id" = some id <;> simp [h]
    rw [hlast]
    cases hid : getAttribute e.attributes "id" with
    | none =>
      rw [record, hid, if_neg (by simp)]
      exact ih
    | some id' =>
      simp only [record, hid, Option.some.injEq]
      by_cases h : id' = id
      · rw [if_pos h, h, StdMap.find_assign_self stringLess_strictTotal]
        rfl
      · rw [if_neg h, StdMap.find_assign_of_ne stringLess_strictTotal _ _ h]
        exact ih

/-- The parser after the handlers have seen these elements. -/
structure Built (vs : List (Option String × Node)) (p p' : SourceParser) : Prop where
  nesting : p'.unknownElementNesting = 0
  error : p'.sourceParseError = true ↔ p.sourceParseError = true ∨ ∃ v ∈ vs, Wrong v
  elements : p'.elementMap = (topLevelOf vs).foldl record p.elementMap
  current : p'.currentElement =
    p.currentElement.map fun e => { e with nested := e.nested ++ nestedOf e.name vs }

theorem Built.append {vs vs' : List (Option String × Node)} {p p' p'' : SourceParser}
    (h : Built vs p p') (h' : Built vs' p' p'') : Built (vs ++ vs') p p'' := by
  refine ⟨h'.nesting, ?_, ?_, ?_⟩
  · rw [h'.error, h.error, or_assoc]
    simp only [List.mem_append, or_and_right, exists_or]
  · rw [h'.elements, h.elements, topLevelOf, topLevelOf, topLevelOf, List.filterMap_append,
      List.foldl_append]
  · rw [h'.current, h.current, Option.map_map]
    refine Option.map_congr fun e _ => ?_
    simp only [Function.comp_apply, nestedOf, List.filterMap_append, List.append_assoc]

theorem built_start {parent : Option String} {n : Node} {p p' : SourceParser}
    (hnesting : p'.unknownElementNesting = 0) (helements : p'.elementMap = p.elementMap)
    (herror : p'.sourceParseError = true ↔ p.sourceParseError = true ∨ Wrong (parent, n))
    (hother : parent = none → n.name ∉ otherElements)
    (hcurrent : p'.currentElement = p.currentElement.map fun e =>
      { e with nested := e.nested ++ nestedOf e.name [(parent, n)] }) :
    Built [(parent, n)] p p' := by
  refine ⟨hnesting, ?_, ?_, hcurrent⟩
  · rw [herror]
    simp
  · have htop : topLevelOf [(parent, n)] = [] := by
      have hif : ¬ (parent = none ∧ n.name ∈ otherElements) := fun h => hother h.1 h.2
      simp [topLevelOf, hif]
    rw [htop, helements]
    rfl

end Effects

section Names

theorem not_other_of_nested {name : String} (h : name ∈ "GCC_XML" :: nestedElements) :
    name ∉ otherElements := by
  simp only [nestedElements, List.mem_cons, List.not_mem_nil, or_false] at h
  rcases h with rfl | rfl | rfl | rfl | rfl <;> simp [otherElements]

theorem not_other_of_plain {name : String} (h : name ∈ plainElements) : name ∉ otherElements := by
  simp only [plainElements, List.mem_cons, List.not_mem_nil, or_false] at h
  rcases h with rfl | rfl | rfl <;> simp [otherElements]

theorem not_nested_of_plain {name : String} (h : name ∈ plainElements) :
    name ∉ "GCC_XML" :: nestedElements := by
  simp only [plainElements, List.mem_cons, List.not_mem_nil, or_false] at h
  rcases h with rfl | rfl | rfl <;> simp [nestedElements]

/-- The three ways in which the handlers go on from an element. -/
theorem inside_cases (parent : Option String) (name : String) :
    (inside parent name = some parent ∧
      (name ∈ "GCC_XML" :: nestedElements ∨ parent = none ∧ name ∈ plainElements)) ∨
    (parent = none ∧ name ∈ otherElements ∧ inside parent name = some (some name)) ∨
    (inside parent name = none ∧ name ∉ "GCC_XML" :: nestedElements ∧
      (parent = none → name ∉ plainElements ∧ name ∉ otherElements)) := by
  by_cases hnested : name ∈ "GCC_XML" :: nestedElements
  · refine Or.inl ⟨?_, Or.inl hnested⟩
    rw [inside, if_pos (List.mem_cons.mp hnested)]
  · have hif := fun h => hnested (List.mem_cons.mpr h)
    cases parent with
    | some parent =>
      refine Or.inr (Or.inr ⟨?_, hnested, fun h => by cases h⟩)
      rw [inside, if_neg hif, if_pos Option.isSome_some]
    | none =>
      by_cases hplain : name ∈ plainElements
      · refine Or.inl ⟨?_, Or.inr ⟨rfl, hplain⟩⟩
        rw [inside, if_neg hif, if_neg (by simp), if_pos hplain]
      · by_cases hother : name ∈ otherElements
        · refine Or.inr (Or.inl ⟨rfl, hother, ?_⟩)
          rw [inside, if_neg hif, if_neg (by simp), if_neg hplain, if_pos hother]
        · refine Or.inr (Or.inr ⟨?_, hnested, fun _ => ⟨hplain, hother⟩⟩)
          rw [inside, if_neg hif, if_neg (by simp), if_neg hplain, if_neg hother]

variable {parent : Option String} {n : Node}

/-- What is wrong with an element that stands in top-level elements. -/
theorem wrong_nested_iff (h : n.name ∈ nestedElements) :
    Wrong (parent, n) ↔ ∀ e, parent = some e → ¬ Accepts e n.name := by
  have hname := h
  simp only [nestedElements, List.mem_cons, List.not_mem_nil, or_false] at hname
  constructor
  · rintro hwrong e rfl haccepts
    cases hwrong with
    | unknown hunknown => exact hunknown (by simp [h])
    | enumValue henum hparent => rcases haccepts with h | h | h | h <;> simp_all
    | base hbase hclass hstruct => rcases haccepts with h | h | h | h <;> simp_all
    | within hwithin => exact hwithin (List.mem_cons_of_mem _ h)
  · intro hno
    rcases hname with hname | hname | hname | hname
    · cases parent with
      | none => exact .outside (Or.inl hname)
      | some e => exact absurd (Or.inl hname) (hno e rfl)
    · cases parent with
      | none => exact .outside (Or.inr hname)
      | some e => exact absurd (Or.inr (Or.inl hname)) (hno e rfl)
    · refine .enumValue hname fun hparent => hno _ hparent ?_
      exact Or.inr (Or.inr (Or.inl ⟨hname, rfl⟩))
    · refine .base hname (fun hparent => hno _ hparent ?_) fun hparent => hno _ hparent ?_
      · exact Or.inr (Or.inr (Or.inr ⟨hname, Or.inl rfl⟩))
      · exact Or.inr (Or.inr (Or.inr ⟨hname, Or.inr rfl⟩))

theorem not_wrong_root (h : n.name = "GCC_XML") : ¬ Wrong (parent, n) := by
  intro hwrong
  cases hwrong with
  | unknown hunknown => exact hunknown (by simp [h])
  | outside houtside => simp [h] at houtside
  | enumValue henum => simp [h] at henum
  | base hbase => simp [h] at hbase
  | within hwithin => exact hwithin (by simp [h])
  | noId hother => simp [h, otherElements] at hother

theorem not_wrong_plain (h : n.name ∈ plainElements) : ¬ Wrong (none, n) := by
  intro hwrong
  cases hwrong with
  | unknown hunknown => exact hunknown (by simp [h])
  | outside houtside =>
    refine not_nested_of_plain h (List.mem_cons_of_mem _ ?_)
    rcases houtside with h | h <;> simp [h, nestedElements]
  | enumValue henum => simp [henum, plainElements] at h
  | base hbase => simp [hbase, plainElements] at h
  | noId hother => exact not_other_of_plain h hother

theorem wrong_other_iff (h : n.name ∈ otherElements) :
    Wrong (none, n) ↔ getAttribute (setAttributes n.atts) "id" = none := by
  constructor
  · intro hwrong
    cases hwrong with
    | unknown hunknown => exact absurd (by simp [h]) hunknown
    | outside houtside => rcases houtside with hn | hn <;> simp [hn, otherElements] at h
    | enumValue henum => simp [henum, otherElements] at h
    | base hbase => simp [hbase, otherElements] at h
    | noId _ hid => exact hid
  · exact .noId h

theorem wrong_unknown (hnested : n.name ∉ "GCC_XML" :: nestedElements)
    (hnone : parent = none → n.name ∉ plainElements ∧ n.name ∉ otherElements) :
    Wrong (parent, n) := by
  cases parent with
  | some parent => exact .within hnested
  | none =>
    refine .unknown fun h => ?_
    simp only [List.mem_cons, List.mem_append] at h hnested
    rcases h with h | (h | h) | h
    · exact hnested (Or.inl h)
    · exact hnested (Or.inr h)
    · exact (hnone rfl).1 h
    · exact (hnone rfl).2 h

end Names

section Machine

theorem ofNat_ne_zero {d : Nat} (hpos : 0 < d) (hlt : d < 2 ^ 32) : UInt32.ofNat d ≠ 0 := by
  intro h
  have hmod := congrArg UInt32.toNat h
  rw [UInt32.toNat_ofNat_of_lt' hlt] at hmod
  exact absurd hmod hpos.ne'

mutual

/-- An element in an unknown element is skipped. -/
theorem run_skipped : ∀ (n : Node) (p : SourceParser) (d : Nat), 0 < d → d + n.depth < 2 ^ 32 →
    p.unknownElementNesting = UInt32.ofNat d → run n.events p = some p
  | .mk name atts children, p, d, hpos, hlt, hd => by
    rw [Node.depth] at hlt
    have hne : p.unknownElementNesting ≠ 0 := hd ▸ ofNat_ne_zero hpos (by omega)
    have hne' : UInt32.ofNat (d + 1) ≠ 0 := ofNat_ne_zero (by omega) (by omega)
    have hstart : p.startElement name atts =
        { p with unknownElementNesting := UInt32.ofNat (d + 1) } := by
      rw [startElement, if_pos hne, hd, UInt32.ofNat_add]
      rfl
    have hend : ({ p with unknownElementNesting := UInt32.ofNat (d + 1) }).endElement name =
        some p := by
      have hback : UInt32.ofNat (d + 1) - 1 = p.unknownElementNesting := by
        rw [hd, UInt32.ofNat_add]
        exact UInt32.add_sub_cancel _ _
      simp only [endElement, if_pos hne', hback]
    have hchildren := run_skippedIn children _ (d + 1) (by omega) (by omega)
      (rfl : ({ p with unknownElementNesting := UInt32.ofNat (d + 1) }).unknownElementNesting = _)
    rw [Node.events, run, handle, hstart, Option.bind_some, run_append, hchildren,
      Option.bind_some, run, handle, hend]
    rfl

theorem run_skippedIn : ∀ (ns : List Node) (p : SourceParser) (d : Nat), 0 < d →
    d + depthOf ns < 2 ^ 32 → p.unknownElementNesting = UInt32.ofNat d →
    run (eventsOf ns) p = some p
  | [], _, _, _, _, _ => rfl
  | n :: ns, p, d, hpos, hlt, hd => by
    rw [depthOf] at hlt
    have hnode := run_skipped n p d hpos (by omega) hd
    rw [eventsOf, run_append, hnode, Option.bind_some]
    exact run_skippedIn ns p d hpos (by omega) hd

end

variable {p : SourceParser} {parent : Option String} {name : String} {atts : Attributes}
  {children : List Node}

/-- A handler of elements that stand in another one. -/
theorem built_startNested (hnesting : p.unknownElementNesting = 0)
    (hparent : p.currentElement.map Element.name = parent) (hname : name ∈ nestedElements)
    {parentOk : String → Bool} (hok : ∀ e, parentOk e = true ↔ Accepts e name) :
    Built [(parent, .mk name atts children)] p (p.startNested name parentOk atts) := by
  have hnot := not_other_of_nested (List.mem_cons_of_mem _ hname)
  have hwrong : Wrong (parent, .mk name atts children) ↔ ∀ e, parent = some e → ¬ Accepts e name :=
    wrong_nested_iff hname
  unfold startNested
  cases hcurrent : p.currentElement with
  | none =>
    rw [hcurrent] at hparent
    obtain rfl : none = parent := hparent
    refine built_start hnesting rfl ?_ (fun _ => hnot) (by rw [hcurrent]; rfl)
    exact iff_of_true rfl (Or.inr (hwrong.mpr fun e h => by cases h))
  | some e =>
    rw [hcurrent] at hparent
    obtain rfl : some e.name = parent := hparent
    by_cases haccepts : Accepts e.name name
    · simp only [(hok e.name).mpr haccepts, if_true]
      refine built_start hnesting rfl ?_ (fun _ => hnot) ?_
      · have hright : ¬ Wrong (some e.name, .mk name atts children) := fun h =>
          hwrong.mp h e.name rfl haccepts
        exact (or_iff_left hright).symm
      · simp [hcurrent, nestedOf, Node.name, Node.atts, haccepts]
    · have hno : parentOk e.name = false :=
        Bool.eq_false_iff.mpr fun h => haccepts ((hok e.name).mp h)
      simp only [hno, Bool.false_eq_true, if_false]
      refine built_start hnesting rfl ?_ (fun _ => hnot) ?_
      · refine iff_of_true rfl (Or.inr (hwrong.mpr ?_))
        intro e' he'
        rw [← Option.some.inj he']
        exact haccepts
      · simp [hcurrent, nestedOf, Node.name, haccepts]

/-- The start of an element that is not kept itself. -/
theorem built_transparent (hnesting : p.unknownElementNesting = 0)
    (hparent : p.currentElement.map Element.name = parent)
    (h : name ∈ "GCC_XML" :: nestedElements ∨ parent = none ∧ name ∈ plainElements) :
    Built [(parent, .mk name atts children)] p (p.startElement name atts) := by
  have hzero : ¬ p.unknownElementNesting ≠ 0 := fun h => h hnesting
  rw [startElement, if_neg hzero]
  rcases h with h | ⟨rfl, h⟩
  · rcases List.mem_cons.mp h with rfl | hnested
    · refine built_start hnesting rfl ?_ (fun _ => not_other_of_nested h) ?_
      · exact (or_iff_left (not_wrong_root rfl)).symm
      · simp [nestedOf, Node.name, Accepts]
    · have hn := hnested
      simp only [nestedElements, List.mem_cons, List.not_mem_nil, or_false] at hn
      rcases hn with rfl | rfl | rfl | rfl
      · simp only [String.reduceEq, if_false, if_true, startArgument]
        exact built_startNested hnesting hparent hnested fun e => by simp [Accepts]
      · simp only [String.reduceEq, if_false, if_true, startEllipsis]
        exact built_startNested hnesting hparent hnested fun e => by simp [Accepts]
      · simp only [String.reduceEq, if_false, if_true, startEnumValue]
        exact built_startNested hnesting hparent hnested fun e => by simp [Accepts]
      · simp only [String.reduceEq, if_false, if_true, startBase]
        exact built_startNested hnesting hparent hnested fun e => by simp [Accepts]
  · have hnone : p.currentElement = none := Option.map_eq_none_iff.mp hparent
    have hright : ¬ Wrong (none, .mk name atts children) := not_wrong_plain h
    have hnot := not_other_of_plain h
    simp only [plainElements, List.mem_cons, List.not_mem_nil, or_false] at h
    rcases h with rfl | rfl | rfl
    · simp only [String.reduceEq, if_false, if_true, hnone, Option.isSome_none,
        Bool.false_eq_true, startFile]
      split
      · refine built_start hnesting rfl (or_iff_left hright).symm (fun _ => hnot) ?_
        simp [hnone]
      · exact built_start hnesting rfl (or_iff_left hright).symm (fun _ => hnot) (by simp [hnone])
    · simp only [String.reduceEq, if_false, if_true, hnone, Option.isSome_none,
        Bool.false_eq_true]
      exact built_start hnesting rfl (or_iff_left hright).symm (fun _ => hnot) (by simp [hnone])
    · simp only [String.reduceEq, if_false, if_true, hnone, Option.isSome_none,
        Bool.false_eq_true]
      exact built_start hnesting rfl (or_iff_left hright).symm (fun _ => hnot) (by simp [hnone])

/-- The start of an element that is kept in the table. -/
theorem startElement_other (hnesting : p.unknownElementNesting = 0)
    (hcurrent : p.currentElement = none) (h : name ∈ otherElements) :
    p.startElement name atts = p.startOther name atts := by
  have hzero : ¬ p.unknownElementNesting ≠ 0 := fun h => h hnesting
  have hne : ∀ x, x ∈ "GCC_XML" :: (nestedElements ++ plainElements) → name ≠ x := by
    rintro x hx rfl
    rw [← List.cons_append, List.mem_append] at hx
    exact hx.elim (fun hx => not_other_of_nested hx h) fun hx => not_other_of_plain hx h
  rw [startElement, if_neg hzero, if_neg (hne _ (by simp)),
    if_neg (hne _ (by simp [nestedElements])), if_neg (hne _ (by simp [nestedElements])),
    if_neg (hne _ (by simp [nestedElements])), if_neg (hne _ (by simp [nestedElements])),
    if_neg (by simp [hcurrent]), if_neg (hne _ (by simp [plainElements])),
    if_neg (hne _ (by simp [plainElements])), if_neg (hne _ (by simp [plainElements])), if_pos h]

/-- The start of an unknown element. -/
theorem startElement_unknown (hnesting : p.unknownElementNesting = 0)
    (h : name ∉ "GCC_XML" :: nestedElements)
    (hnone : p.currentElement = none → name ∉ plainElements ∧ name ∉ otherElements) :
    p.startElement name atts = p.startUnknown := by
  have hzero : ¬ p.unknownElementNesting ≠ 0 := fun h => h hnesting
  have hne : ∀ x, x ∈ "GCC_XML" :: nestedElements → name ≠ x := by
    rintro x hx rfl
    exact h hx
  rw [startElement, if_neg hzero, if_neg (hne _ (by simp)),
    if_neg (hne _ (by simp [nestedElements])), if_neg (hne _ (by simp [nestedElements])),
    if_neg (hne _ (by simp [nestedElements])), if_neg (hne _ (by simp [nestedElements]))]
  cases hcurrent : p.currentElement with
  | some e => exact if_pos rfl
  | none =>
    obtain ⟨hplain, hother⟩ := hnone hcurrent
    have hne' : ∀ x, x ∈ plainElements → name ≠ x := by
      rintro x hx rfl
      exact hplain hx
    rw [if_neg (by simp), if_neg (hne' _ (by simp [plainElements])),
      if_neg (hne' _ (by simp [plainElements])), if_neg (hne' _ (by simp [plainElements])),
      if_neg hother]

theorem endElement_plain (hnesting : p.unknownElementNesting = 0) (h : name ∉ otherElements) :
    p.endElement name = some p := by
  rw [endElement, if_neg fun hne => hne hnesting, if_neg h]

/-- The parser after a top-level element has been kept in the table, if it has an id. -/
def keep (p : SourceParser) (e : Element) : SourceParser :=
  { p with
    currentElement := none
    elementMap := record p.elementMap e
    sourceParseError := p.sourceParseError || (getAttribute e.attributes "id").isNone }

theorem keep_error (p : SourceParser) (e : Element) : (keep p e).sourceParseError = true ↔
    p.sourceParseError = true ∨ getAttribute e.attributes "id" = none := by
  simp [keep]

theorem endOther_eq {e : Element} (h : p.currentElement = some e) :
    p.endOther = some (keep p e) := by
  rw [endOther, h]
  cases hid : getAttribute e.attributes "id" with
  | none => simp [keep, record, hid]
  | some id => simp [keep, record, hid]

mutual

/-- The elements in a top-level element stand in no other one. -/
theorem visible_some (e : String) : ∀ (n : Node), ∀ v ∈ n.visible (some e), v.1 = some e
  | .mk name atts children, v, hv => by
    rw [Node.visible] at hv
    rcases List.mem_cons.mp hv with rfl | hv
    · rfl
    · rcases inside_cases (some e) name with ⟨hin, -⟩ | ⟨hnone, -⟩ | ⟨hin, -⟩
      · rw [hin] at hv
        exact visibleIn_some e children v hv
      · cases hnone
      · rw [hin] at hv
        cases hv

theorem visibleIn_some (e : String) : ∀ (ns : List Node), ∀ v ∈ visibleIn (some e) ns,
    v.1 = some e
  | n :: ns, v, hv => by
    rcases List.mem_append.mp hv with hv | hv
    · exact visible_some e n v hv
    · exact visibleIn_some e ns v hv

end

theorem topLevelOf_visibleIn_some (e : String) (ns : List Node) :
    topLevelOf (visibleIn (some e) ns) = [] := by
  rw [topLevelOf, List.filterMap_eq_nil_iff]
  intro v hv
  rw [visibleIn_some e ns v hv, if_neg (by simp)]

/-- No unknown element has so many elements in it that the count of them overflows. -/
def Shallow (vs : List (Option String × Node)) : Prop :=
  ∀ v ∈ vs, inside v.1 v.2.name = none → v.2.depth < 2 ^ 32

mutual

/-- The handlers of an element that stands outside unknown elements. -/
theorem run_node : ∀ (n : Node) (p : SourceParser) (parent : Option String),
    p.unknownElementNesting = 0 → p.currentElement.map Element.name = parent →
    Shallow (n.visible parent) →
    ∃ p', run n.events p = some p' ∧ Built (n.visible parent) p p'
  | .mk name atts children, p, parent, hnesting, hparent, hshallow => by
    rw [Node.visible] at hshallow
    have hself := hshallow _ List.mem_cons_self
    have hrun : ∀ p₁ p₂, p.startElement name atts = p₁ → run (eventsOf children) p₁ = some p₂ →
        run (Node.mk name atts children).events p = p₂.endElement name := by
      intro p₁ p₂ hstart hchildren
      rw [Node.events, run, handle, hstart, Option.bind_some, run_append, hchildren,
        Option.bind_some, run, handle]
      cases p₂.endElement name <;> rfl
    rcases inside_cases parent name with ⟨hin, hname⟩ | ⟨rfl, hother, hin⟩ | ⟨hin, hnested, hnone⟩
    · rw [hin] at hshallow
      have h₁ : Built [(parent, .mk name atts children)] p (p.startElement name atts) :=
        built_transparent hnesting hparent hname
      have hparent₁ : (p.startElement name atts).currentElement.map Element.name = parent := by
        rw [h₁.current, Option.map_map, ← hparent]
        rfl
      obtain ⟨p₂, hchildren, h₂⟩ := run_nodes children _ parent h₁.nesting hparent₁ fun v hv =>
        hshallow v (List.mem_cons_of_mem _ hv)
      refine ⟨p₂, ?_, ?_⟩
      · have hnot : name ∉ otherElements := by
          rcases hname with h | ⟨-, h⟩
          · exact not_other_of_nested h
          · exact not_other_of_plain h
        rw [hrun _ _ rfl hchildren, endElement_plain h₂.nesting hnot]
      · rw [Node.visible, hin]
        exact h₁.append h₂
    · rw [hin] at hshallow
      have hcurrent : p.currentElement = none := Option.map_eq_none_iff.mp hparent
      have hstart : p.startElement name atts = p.startOther name atts :=
        startElement_other hnesting hcurrent hother
      obtain ⟨p₂, hchildren, h₂⟩ := run_nodes children (p.startOther name atts) (some name)
        hnesting rfl fun v hv => hshallow v (List.mem_cons_of_mem _ hv)
      have hcurrent₂ : p₂.currentElement = some (Node.mk name atts children).element := h₂.current
      refine ⟨keep p₂ (Node.mk name atts children).element, ?_, ?_⟩
      · rw [hrun _ _ hstart hchildren, endElement, if_neg fun hne => hne h₂.nesting, if_pos hother,
          endOther_eq hcurrent₂]
      · have hwrong := wrong_other_iff (n := .mk name atts children) hother
        rw [Node.visible, hin]
        refine ⟨h₂.nesting, ?_, ?_, by rw [hcurrent]; rfl⟩
        · rw [keep_error, h₂.error, List.exists_mem_cons_iff, hwrong, or_right_comm, or_assoc]
          exact Iff.rfl
        · have htop : topLevelOf ((none, .mk name atts children) ::
              visibleIn (some name) children) = [(Node.mk name atts children).element] := by
            have hnil := topLevelOf_visibleIn_some name children
            rw [topLevelOf] at hnil
            rw [topLevelOf, List.filterMap_cons, if_pos ⟨rfl, hother⟩, hnil]
          have hsame : p₂.elementMap = p.elementMap := by
            rw [h₂.elements, topLevelOf_visibleIn_some]
            rfl
          rw [htop, keep, hsame]
          rfl
    · have hstart : p.startElement name atts = p.startUnknown :=
        startElement_unknown hnesting hnested fun h => hnone (by rw [← hparent, h]; rfl)
      have hdepth := hself hin
      rw [Node.depth] at hdepth
      have hone : p.startUnknown.unknownElementNesting = UInt32.ofNat 1 := by
        rw [startUnknown, hnesting]
        rfl
      have hchildren := run_skippedIn children p.startUnknown 1 (by omega) (by omega) hone
      refine ⟨{ p.startUnknown with unknownElementNesting := 0 }, ?_, ?_⟩
      · have hne : p.startUnknown.unknownElementNesting ≠ 0 := by
          rw [hone]
          decide
        rw [hrun _ _ hstart hchildren, endElement, if_pos hne, hone]
        rfl
      · rw [Node.visible, hin]
        refine built_start rfl rfl ?_ (fun h => (hnone h).2) ?_
        · exact iff_of_true rfl (Or.inr (wrong_unknown hnested hnone))
        · have hno : ∀ e, ¬ Accepts e name := by
            rintro e (h | h | ⟨h, -⟩ | ⟨h, -⟩) <;> simp [h, nestedElements] at hnested
          simp [startUnknown, nestedOf, Node.name, hno]

theorem run_nodes : ∀ (ns : List Node) (p : SourceParser) (parent : Option String),
    p.unknownElementNesting = 0 → p.currentElement.map Element.name = parent →
    Shallow (visibleIn parent ns) →
    ∃ p', run (eventsOf ns) p = some p' ∧ Built (visibleIn parent ns) p p'
  | [], p, parent, hnesting, hparent, hshallow => by
    refine ⟨p, rfl, hnesting, ?_, rfl, ?_⟩
    · simp [visibleIn]
    · simp [visibleIn, nestedOf]
  | n :: ns, p, parent, hnesting, hparent, hshallow => by
    obtain ⟨p₁, hrun₁, h₁⟩ := run_node n p parent hnesting hparent fun v hv =>
      hshallow v (List.mem_append_left _ hv)
    have hparent₁ : p₁.currentElement.map Element.name = parent := by
      rw [h₁.current, Option.map_map, ← hparent]
      rfl
    obtain ⟨p₂, hrun₂, h₂⟩ := run_nodes ns p₁ parent h₁.nesting hparent₁ fun v hv =>
      hshallow v (List.mem_append_right _ hv)
    refine ⟨p₂, ?_, h₁.append h₂⟩
    rw [eventsOf, run_append, hrun₁, Option.bind_some, hrun₂]

end

end Machine

section Result

/-- A fresh parser makes of the document the table with the elements that stand outside unknown
ones, and has an error exactly if one of these is wrong. -/
def BuildsTable (root : Node) : Prop :=
  ∃ p, run root.events (prepare {}) = some p ∧ p.currentElement = none ∧
    p.unknownElementNesting = 0 ∧
    (∀ id, p.elementMap.find stringLess id = lastWithId id (topLevelOf (root.visible none))) ∧
    (p.sourceParseError = true ↔ ∃ v ∈ root.visible none, Wrong v)

theorem document_builds_table (root : Node) (hshallow : Shallow (root.visible none)) :
    BuildsTable root := by
  obtain ⟨p, hrun, h⟩ := run_node root (prepare {}) none rfl rfl hshallow
  refine ⟨p, hrun, h.current, h.nesting, fun id => ?_, ?_⟩
  · rw [h.elements, find_foldl_record]
    exact Option.or_none
  · rw [h.error]
    exact or_iff_right (by simp [prepare])

/-- A function with an argument, and a namespace in an unknown element. -/
def unknownNamespace : Node :=
  .mk "GCC_XML" [] [.mk "Function" [("id", ['f'])] [.mk "Argument" [("type", ['t'])] []],
    .mk "Other" [] [.mk "Namespace" [("id", ['n'])] []]]

theorem unknownNamespace_builds_table : BuildsTable unknownNamespace :=
  document_builds_table unknownNamespace (by
    have hvisible : ∀ v ∈ unknownNamespace.visible none,
        inside v.1 v.2.name = none → v.2.depth < 2 ^ 32 := by decide
    exact hvisible)

/-- A namespace that stands in this many unknown elements. -/
def buried : Nat → Node
  | 0 => .mk "Namespace" [("id", ['n'])] []
  | n + 1 => .mk "x" [] [buried n]

theorem run_buried : ∀ (n d : Nat) (p : SourceParser), 0 < d → d + n = 2 ^ 32 →
    p.unknownElementNesting = UInt32.ofNat d → p.currentElement = none →
    ∃ p', run (buried n).events p = some p' ∧ p'.unknownElementNesting = 0 ∧
      (p'.elementMap.find stringLess ['n']).isSome := by
  intro n
  induction n with
  | zero =>
    intro d p _ hd hnesting hcurrent
    obtain rfl : d = 2 ^ 32 := hd
    have hstart : p.startElement "Namespace" [("id", ['n'])] =
        p.startOther "Namespace" [("id", ['n'])] :=
      startElement_other hnesting hcurrent (by simp [otherElements])
    have hend : (p.startOther "Namespace" [("id", ['n'])]).endElement "Namespace" =
        some (keep (p.startOther "Namespace" [("id", ['n'])]) (buried 0).element) := by
      rw [endElement, if_neg fun hne => hne hnesting, if_pos (by simp [otherElements])]
      exact endOther_eq rfl
    refine ⟨keep (p.startOther "Namespace" [("id", ['n'])]) (buried 0).element, ?_, hnesting, ?_⟩
    · rw [buried, Node.events, eventsOf, List.nil_append, run, handle, hstart, Option.bind_some,
        run, handle, hend]
      rfl
    · have hself := StdMap.find_assign_self stringLess_strictTotal p.elementMap ['n']
        (buried 0).element
      exact Option.isSome_iff_exists.mpr ⟨_, hself⟩
  | succ n ih =>
    intro d p hpos hd hnesting hcurrent
    have hne : p.unknownElementNesting ≠ 0 := hnesting ▸ ofNat_ne_zero hpos (by omega)
    obtain ⟨p', hrun, hnesting', hfind⟩ := ih (d + 1)
      { p with unknownElementNesting := UInt32.ofNat (d + 1) } (by omega) (by omega) rfl hcurrent
    refine ⟨p', ?_, hnesting', hfind⟩
    have hstart : p.startElement "x" [] =
        { p with unknownElementNesting := UInt32.ofNat (d + 1) } := by
      rw [startElement, if_pos hne, hnesting, UInt32.ofNat_add]
      rfl
    have hend : p'.endElement "x" = some p' :=
      endElement_plain hnesting' (by simp [otherElements])
    rw [buried, Node.events, eventsOf, eventsOf, List.append_nil, run, handle, hstart,
      Option.bind_some, run_append, hrun, Option.bind_some, run, handle, hend]
    rfl

/-- With so many elements the count is zero again, and the namespace gets into the table. -/
theorem buried_not_builds_table : ¬ BuildsTable (buried (2 ^ 32)) := by
  rintro ⟨p, hrun, -, -, htable, -⟩
  have hstart : (prepare {}).startElement "x" [] = (prepare {}).startUnknown :=
    startElement_unknown rfl (by simp [nestedElements]) fun _ => by
      simp [plainElements, otherElements]
  obtain ⟨p', hrun', hnesting', hfind⟩ := run_buried (2 ^ 32 - 1) 1 (prepare {}).startUnknown
    (by omega) (by omega) rfl rfl
  have hend : p'.endElement "x" = some p' :=
    endElement_plain hnesting' (by simp [otherElements])
  have hevents : (buried (2 ^ 32)).events =
      .startElement "x" [] :: ((buried (2 ^ 32 - 1)).events ++ [.endElement "x"]) := by
    rw [show (2 : Nat) ^ 32 = 2 ^ 32 - 1 + 1 by omega, buried, Node.events, eventsOf, eventsOf,
      List.append_nil]
    rfl
  rw [hevents, run, handle, hstart, Option.bind_some, run_append, hrun', Option.bind_some, run,
    handle, hend] at hrun
  obtain rfl : p' = p := Option.some.inj hrun
  rw [htable, show (2 : Nat) ^ 32 = 2 ^ 32 - 1 + 1 by omega, buried, Node.visible] at hfind
  cases hfind

end Result

end CableSwig.Parsers.ElementTable
