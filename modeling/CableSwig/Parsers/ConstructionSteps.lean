import CableSwig.Parsers.ElementValues

/-!
# Steps of the construction

What can be found in the representation while it is built, and what the functions for the elements
have done to it at any point.
-/
namespace CableSwig.Parsers.ConstructionSteps

open CableSwig.GccXml.TypeDump
open CableSwig.Lib.Fuel
open CableSwig.Lib.OrderedMap
open CableSwig.Lib.Procedures
open CableSwig.Lib.Procedures.Program
open CableSwig.Lib.StdString
open CableSwig.Parsers.ElementValues
open CableSwig.Parsers.ElementReferences
open CableSwig.Parsers.RepresentationBuilder
open CableSwig.Parsers.TypeReader (isQualifier)
open CableSwig.Parsers.XmlSourceParser

section Keys

/-- The characters of an id have no meaning for types. -/
def Plain (id : Text) : Prop := ∀ c ∈ id, isQualifier c = false

/-- Ids that are not taken for qualified types, nor for the ids that are made up. -/
structure PlainIds (p : SourceParser) : Prop where
  ne_nil : ∀ id element, getSourceElement p id = some element → id ≠ []
  plain : ∀ id element, getSourceElement p id = some element → Plain id
  ne_typeId : ∀ id element id' element', getSourceElement p id = some element →
    getSourceElement p id' = some element' → id ≠ typeId id'

/-- Everything that an element refers to is in the table. -/
def ReferencesExist (p : SourceParser) : Prop :=
  ∀ id element, getSourceElement p id = some element →
    ∀ id' ∈ references element, (getSourceElement p id').isSome

theorem unqualified_plain {id : Text} (h : Plain id) : unqualified id = id :=
  List.takeWhile_eq_self_iff.mpr fun c hc => by simp [h c hc]

theorem qualifiers_plain {id : Text} (h : Plain id) : qualifiers id = ⊥ := by
  have hnil : id.dropWhile (!isQualifier ·) = [] :=
    List.dropWhile_eq_nil_iff.mpr fun c hc => by simp [h c hc]
  rw [qualifiers, hnil]
  rfl

theorem plain_typeId {id : Text} (h : Plain id) : Plain (typeId id) := by
  intro c hc
  rcases List.mem_append.mp hc with hc | hc
  · exact h c hc
  · rcases List.mem_pair.mp hc with rfl | rfl <;> rfl

theorem not_plain_crt : ¬ Plain "crt".toList := fun h => absurd (h 'c' (by decide)) (by decide)

theorem typeId_injective {id id' : Text} (h : typeId id = typeId id') : id = id' :=
  List.append_cancel_right h

end Keys

section Granting

variable (p : SourceParser) (V : Text → Outcome SourceObject)

/-- What can be found under an id while the representation is built. -/
inductive Granted : Text → SourceObject → Prop
  | element {id : Text} {element : Element} {o : SourceObject}
      (hfind : getSourceElement p id = some element) (hvalue : V id = .returned o) : Granted id o
  | madeUp {id : Text} {element : Element} {o : SourceObject} {t : SourceType}
      (hfind : getSourceElement p id = some element) (hvalue : V id = .returned o)
      (htype : madeUpType o = some t) : Granted (typeId id) (.type t)
  | qualified {tid : Text} {element : Element} {t : SourceType} (hqualifiers : qualifiers tid ≠ ⊥)
      (hfind : getSourceElement p (unqualified tid) = some element)
      (hvalue : valueOf p V (.type tid) = .returned t) : Granted tid (.type t)
  | constructorReturn : Granted "crt".toList (.type voidType)

variable {p V}

section Functional

variable (hplain : PlainIds p) {id : Text} {o : SourceObject} (h : Granted p V id o)
include hplain h

/-- What is found under the id of an element is its object. -/
theorem Granted.of_element {element : Element} (hfind : getSourceElement p id = some element) :
    V id = .returned o := by
  have hid := hplain.plain _ _ hfind
  generalize hkey : id = key at h
  cases h with
  | element hfind' hvalue => exact hkey ▸ hvalue
  | madeUp hfind' hvalue htype => exact absurd hkey (hplain.ne_typeId _ _ _ _ hfind hfind')
  | qualified hqualifiers => exact absurd (qualifiers_plain (hkey ▸ hid)) hqualifiers
  | constructorReturn => exact absurd (hkey ▸ hid) not_plain_crt

theorem Granted.of_madeUp {id' : Text} {element : Element} (hkey : id = typeId id')
    (hfind : getSourceElement p id' = some element) :
    ∃ o' t, V id' = .returned o' ∧ madeUpType o' = some t ∧ o = .type t := by
  have hid := plain_typeId (hplain.plain _ _ hfind)
  cases h with
  | element hfind' => exact absurd hkey (hplain.ne_typeId _ _ _ _ hfind' hfind)
  | madeUp hfind' hvalue htype =>
    obtain rfl := typeId_injective hkey
    exact ⟨_, _, hvalue, htype, rfl⟩
  | qualified hqualifiers => exact absurd (qualifiers_plain (hkey ▸ hid)) hqualifiers
  | constructorReturn => exact absurd (hkey ▸ hid) not_plain_crt

omit hplain h in
theorem valueOf_type_plain (hid : Plain id) {element : Element}
    (hfind : getSourceElement p id = some element) (hvalue : V id = .returned o) :
    valueOf p V (.type id) = .ofAnswer o.typeOf := by
  simp only [valueOf, unqualified_plain hid, hfind, hvalue, qualify, addQualifiers,
    qualifiers_plain hid, if_true]
  cases o.typeOf <;> rfl

/-- What is found under the id of a type is what `GetTypeFromId` makes of it. -/
theorem Granted.of_type {element : Element}
    (hfind : getSourceElement p (unqualified id) = some element) :
    valueOf p V (.type id) = .ofAnswer o.typeOf := by
  cases h with
  | element hfind' hvalue =>
    exact valueOf_type_plain (hplain.plain _ _ hfind') hfind' hvalue
  | madeUp hfind' =>
    rw [unqualified_plain (plain_typeId (hplain.plain _ _ hfind'))] at hfind
    exact absurd rfl (hplain.ne_typeId _ _ _ _ hfind hfind')
  | qualified hqualifiers hfind' hvalue => exact hvalue
  | constructorReturn => exact absurd rfl (hplain.ne_nil _ _ hfind)

theorem Granted.of_qualified (hqualifiers : qualifiers id ≠ ⊥) {element : Element}
    (hfind : getSourceElement p (unqualified id) = some element) :
    ∃ t, valueOf p V (.type id) = .returned t ∧ o = .type t := by
  cases h with
  | element hfind' => exact absurd (qualifiers_plain (hplain.plain _ _ hfind')) hqualifiers
  | madeUp hfind' =>
    exact absurd (qualifiers_plain (plain_typeId (hplain.plain _ _ hfind'))) hqualifiers
  | qualified _ hfind' hvalue => exact ⟨_, hvalue, rfl⟩
  | constructorReturn => exact absurd rfl (hplain.ne_nil _ _ hfind)

theorem Granted.of_crt (hkey : id = "crt".toList) : o = .type voidType := by
  cases h with
  | element hfind => exact absurd (hkey ▸ hplain.plain _ _ hfind) not_plain_crt
  | madeUp hfind => exact absurd (hkey ▸ plain_typeId (hplain.plain _ _ hfind)) not_plain_crt
  | qualified hqualifiers hfind =>
    subst hkey
    exact absurd rfl (hplain.ne_nil _ _ hfind)
  | constructorReturn => rfl

/-- Nothing is found under an id but one object. -/
theorem Granted.functional {o' : SourceObject} (h' : Granted p V id o') : o = o' := by
  cases h' with
  | element hfind hvalue =>
    have hvalue' := h.of_element hplain hfind
    rw [hvalue] at hvalue'
    exact (Outcome.returned.inj hvalue').symm
  | madeUp hfind hvalue htype =>
    obtain ⟨o₁, t, hvalue', htype', rfl⟩ := h.of_madeUp hplain rfl hfind
    rw [hvalue] at hvalue'
    obtain rfl := Outcome.returned.inj hvalue'
    rw [htype] at htype'
    rw [Option.some.inj htype']
  | qualified hqualifiers hfind hvalue =>
    obtain ⟨t, hvalue', rfl⟩ := h.of_qualified hplain hqualifiers hfind
    rw [hvalue] at hvalue'
    rw [Outcome.returned.inj hvalue']
  | constructorReturn => exact h.of_crt hplain rfl

end Functional

/-- What a procedure registers, whoever calls it. -/
def granted (p : SourceParser) (V : Text → Outcome SourceObject) :
    Procedure → List (Text × SourceObject)
  | .element element =>
    match getAttribute element.attributes "id" with
    | none => []
    | some id =>
      match V id with
      | .returned o => [(id, o)]
      | _ => []
  | .type tid =>
    if qualifiers tid = ⊥ then []
    else
      match valueOf p V (.type tid) with
      | .returned t => [(tid, .type t)]
      | _ => []
  | .constructorReturn => [("crt".toList, .type voidType)]

/-- What is registered for an element and for what its function calls. -/
def grants (p : SourceParser) (V : Text → Outcome SourceObject) (element : Element) :
    List (Text × SourceObject) :=
  (denoteElement p V element).2.filterMap registration ++
    (requests Use.isNull (valueOf p V) (addElement p element)).flatMap (granted p V)

variable (hids : IdsMatch p) (hV : IsValue p V)

section

include hids

include hV

theorem registration_cases {id : Text} {element : Element}
    (hfind : getSourceElement p id = some element) {g : Text × SourceObject}
    (hg : g ∈ (denoteElement p V element).2.filterMap registration) :
    Granted p V g.1 g.2 ∧ (g.1 = id ∨ g.1 = typeId id) := by
  have hmakes : Makes id element _ (denoteElement p V element) :=
    makes_addElement (hids id element hfind)
  cases hvalue : (denoteElement p V element).1 with
  | crashed =>
    rw [hmakes.notReturned (by simp [hvalue])] at hg
    cases hg
  | failed =>
    rw [hmakes.notReturned (by simp [hvalue])] at hg
    cases hg
  | returned o =>
    have hreturned : V id = .returned o := (hV id element hfind).trans hvalue
    rw [(hmakes.returned o hvalue).1] at hg
    rcases List.mem_append.mp hg with hg | hg
    · obtain ⟨t, ht, rfl⟩ := List.mem_map.mp hg
      exact ⟨.madeUp hfind hreturned (Option.mem_toList.mp ht), Or.inr rfl⟩
    · obtain rfl := List.mem_singleton.mp hg
      exact ⟨.element hfind hreturned, Or.inl rfl⟩

end

end Granting

section States

variable (p : SourceParser) (V : Text → Outcome SourceObject)

/-- Everything in the representation is there for an element of the table. -/
structure Consistent (s : Representation) : Prop where
  granted : ∀ id o, s.getSourceObject id = some o → Granted p V id o
  grants : ∀ id o, s.getSourceObject id = some o →
    ∃ id' element, getSourceElement p id' = some element ∧ (id, o) ∈ grants p V element
  owners : ∀ c ∈ s.changes, ∃ element, getSourceElement p (owner c) = some element

/-- The changes that were made for an element. -/
def ownChanges (s : Representation) (id : Text) : List Change :=
  s.changes.filter fun c => owner c = id

/-- All has been done for an element, or nothing. -/
structure Settled (s : Representation) (id : Text) (element : Element) : Prop where
  present : ∀ o, s.getSourceObject id = some o →
    ownChanges s id = (denoteElement p V element).2.filterMap changed ∧
      ∀ g ∈ grants p V element, s.getSourceObject g.1 = some g.2
  absent : s.getSourceObject id = none → ownChanges s id = []

/-- Nothing has gone from a state to a later one, and nothing has been done for elements but
these. -/
structure Advances (touched : Text → Prop) (s s' : Representation) : Prop where
  keeps : ∀ id o, s.getSourceObject id = some o → s'.getSourceObject id = some o
  frame : ∀ id element, getSourceElement p id = some element → ¬ touched id →
    s'.getSourceObject id = s.getSourceObject id ∧ ownChanges s' id = ownChanges s id

variable {p V} {touched touched' : Text → Prop} {s s' s'' : Representation}

theorem Advances.refl : Advances p touched s s := ⟨fun _ _ h => h, fun _ _ _ _ => ⟨rfl, rfl⟩⟩

theorem Advances.trans (h : Advances p touched s s') (h' : Advances p touched s' s'') :
    Advances p touched s s'' := by
  refine ⟨fun id o ho => h'.keeps id o (h.keeps id o ho), fun id element hfind hnot => ?_⟩
  obtain ⟨hobject, hchanges⟩ := h.frame id element hfind hnot
  obtain ⟨hobject', hchanges'⟩ := h'.frame id element hfind hnot
  exact ⟨hobject'.trans hobject, hchanges'.trans hchanges⟩

theorem Advances.mono (h : Advances p touched s s') (hsub : ∀ id, touched id → touched' id) :
    Advances p touched' s s' :=
  ⟨h.keeps, fun id element hfind hnot => h.frame id element hfind fun ht => hnot (hsub id ht)⟩

/-- An element stays settled where nothing is done for it. -/
theorem Settled.advances {id : Text} {element : Element} (h : Settled p V s id element)
    (hadvances : Advances p touched s s') (hfind : getSourceElement p id = some element)
    (hnot : ¬ touched id) : Settled p V s' id element := by
  obtain ⟨hobject, hchanges⟩ := hadvances.frame id element hfind hnot
  refine ⟨fun o ho => ?_, fun hnone => ?_⟩
  · rw [hobject] at ho
    obtain ⟨hown, hgrants⟩ := h.present o ho
    exact ⟨hchanges.trans hown, fun g hg => hadvances.keeps _ _ (hgrants g hg)⟩
  · rw [hobject] at hnone
    exact hchanges.trans (h.absent hnone)

theorem getSourceObject_set (s : Representation) (id : Text) (o : SourceObject) :
    (s.apply (.setSourceObject id o)).getSourceObject id = some o :=
  StdMap.find_assign_self stringLess_strictTotal _ _ _

theorem getSourceObject_set_of_ne (s : Representation) {id id' : Text} (o : SourceObject)
    (h : id ≠ id') :
    (s.apply (.setSourceObject id o)).getSourceObject id' = s.getSourceObject id' :=
  StdMap.find_assign_of_ne stringLess_strictTotal _ _ h

section Registering

variable (hplain : PlainIds p) (hs : Consistent p V s) {id : Text} {o : SourceObject}
  (hgranted : Granted p V id o)
include hs hgranted

theorem register_consistent (hgrants : ∃ id' element, getSourceElement p id' = some element ∧
    (id, o) ∈ grants p V element) : Consistent p V (s.apply (.setSourceObject id o)) := by
  have hcases : ∀ id' o', (s.apply (.setSourceObject id o)).getSourceObject id' = some o' →
      (id = id' ∧ o = o') ∨ s.getSourceObject id' = some o' := by
    intro id' o' ho'
    by_cases hid : id = id'
    · subst hid
      rw [getSourceObject_set] at ho'
      exact Or.inl ⟨rfl, Option.some.inj ho'⟩
    · rw [getSourceObject_set_of_ne s o hid] at ho'
      exact Or.inr ho'
  refine ⟨fun id' o' ho' => ?_, fun id' o' ho' => ?_, hs.owners⟩
  · obtain ⟨rfl, rfl⟩ | ho := hcases id' o' ho'
    · exact hgranted
    · exact hs.granted id' o' ho
  · obtain ⟨rfl, rfl⟩ | ho := hcases id' o' ho'
    · exact hgrants
    · exact hs.grants id' o' ho

include hplain

/-- A registration only puts again what is there already. -/
theorem register_advances
    (htouched : ∀ element, getSourceElement p id = some element → touched id) :
    Advances p touched s (s.apply (.setSourceObject id o)) := by
  refine ⟨fun id' o' ho' => ?_, fun id' element hfind hnot => ⟨?_, rfl⟩⟩
  · by_cases hid : id = id'
    · subst hid
      rw [getSourceObject_set, hgranted.functional hplain (hs.granted id o' ho')]
    · rw [getSourceObject_set_of_ne s o hid]
      exact ho'
  · refine getSourceObject_set_of_ne s o fun hid => hnot ?_
    subst hid
    exact htouched element hfind

end Registering

theorem change_step (s : Representation) (c : Change) (id : Text) :
    ownChanges (s.apply (.change c)) id =
      ownChanges s id ++ if owner c = id then [c] else [] := by
  show (s.changes ++ [c]).filter _ = _
  rw [List.filter_append, ownChanges]
  by_cases h : owner c = id <;> simp [h]

end States

section Procedures

variable (p : SourceParser) (V : Text → Outcome SourceObject)

/-- No element fails. -/
def AllReturned : Prop :=
  ∀ id element, getSourceElement p id = some element → ∃ o, V id = .returned o

/-- Some elements are settled, unless one fails. -/
def SettledIn (within : Text → Prop) (s : Representation) : Prop :=
  AllReturned p V → ∀ id element, getSourceElement p id = some element → within id →
    Settled p V s id element

/-- The elements that may be constructed by a procedure. -/
def Touches : Procedure → Text → Prop
  | .element element, id =>
    ∃ id', getAttribute element.attributes "id" = some id' ∧
      Relation.ReflTransGen (RefersTo p) id' id
  | .type tid, id => Relation.ReflTransGen (RefersTo p) (unqualified tid) id
  | .constructorReturn, _ => False

/-- A state in which a procedure is called. -/
structure Ready (i : Procedure) (s : Representation) : Prop where
  consistent : Consistent p V s
  settled : SettledIn p V (Touches p i) s
  asked : ∀ g ∈ granted p V i, ∃ id element, getSourceElement p id = some element ∧
    g ∈ grants p V element

/-- What a procedure has done. -/
structure Done (i : Procedure) (s : Representation) (r : Run Use Representation (Answer i)) :
    Prop where
  outcome : r.outcome = valueOf p V i
  consistent : Consistent p V r.state
  advances : Advances p (Touches p i) s r.state
  settled : SettledIn p V (Touches p i) r.state
  gives : ∀ g ∈ granted p V i, r.state.getSourceObject g.1 = some g.2

/-- The program is a part of the function for an element. -/
structure Fits {α : Type} (id : Text) (element : Element) (q : Builder α) : Prop where
  registers : ∀ g ∈ (denote Use.isNull (valueOf p V) q).2.filterMap registration,
    Granted p V g.1 g.2 ∧ (g.1 = id ∨ g.1 = typeId id) ∧ g ∈ grants p V element
  changes : ∀ c ∈ (denote Use.isNull (valueOf p V) q).2.filterMap changed, owner c = id
  calls : ∀ i ∈ requests Use.isNull (valueOf p V) q, ∀ g ∈ granted p V i, g ∈ grants p V element

/-- An element and what it refers to, over other elements. -/
def Below (id id' : Text) : Prop :=
  id' = id ∨ Relation.TransGen (RefersTo p) id id'

/-- What such a part has done. -/
structure Progress {α : Type} (id : Text) (q : Builder α) (s : Representation)
    (r : Run Use Representation α) : Prop where
  outcome : r.outcome = (denote Use.isNull (valueOf p V) q).1
  consistent : Consistent p V r.state
  advances : Advances p (Below p id) s r.state
  settled : SettledIn p V (Relation.TransGen (RefersTo p) id) r.state
  changes : ownChanges r.state id =
    ownChanges s id ++ (denote Use.isNull (valueOf p V) q).2.filterMap changed
  registered : ∀ g ∈ (denote Use.isNull (valueOf p V) q).2.filterMap registration,
    r.state.getSourceObject g.1 = some g.2
  requested : ∀ i ∈ requests Use.isNull (valueOf p V) q, ∀ g ∈ granted p V i,
    r.state.getSourceObject g.1 = some g.2

variable {p V}

theorem touches_below {id : Text} {element : Element} (hids : IdsMatch p)
    (hfind : getSourceElement p id = some element) {i : Procedure} (hi : CallsOf p element i)
    {id' : Text} (h : Touches p i id') : Relation.TransGen (RefersTo p) id id' := by
  cases i with
  | element element' =>
    obtain ⟨id₁, hid₁, hfind₁⟩ := hi
    obtain ⟨id₂, hid₂, hreach⟩ := h
    rw [hids id₁ element' hfind₁] at hid₂
    obtain rfl := Option.some.inj hid₂
    exact .head' ⟨element, hfind, List.mem_append_left _ hid₁⟩ hreach
  | type tid =>
    exact .head' ⟨element, hfind, List.mem_append_right _ (List.mem_map_of_mem hi)⟩ h
  | constructorReturn => exact h.elim

theorem Fits.of_eq {α : Type} {id : Text} {element : Element} {q q' : Builder α}
    (h : Fits p V id element q)
    (hdenote : denote Use.isNull (valueOf p V) q = denote Use.isNull (valueOf p V) q')
    (hrequests : requests Use.isNull (valueOf p V) q' ⊆ requests Use.isNull (valueOf p V) q) :
    Fits p V id element q' :=
  ⟨hdenote ▸ h.registers, hdenote ▸ h.changes, fun i hi => h.calls i (hrequests hi)⟩

theorem Fits.effect {α : Type} {id : Text} {element : Element} {e : Effect} {q : Builder α}
    (h : Fits p V id element (.effect e q)) : Fits p V id element q := by
  refine ⟨fun g hg => h.registers g ?_, fun c hc => h.changes c ?_, h.calls⟩
  · rw [denote, List.filterMap_cons]
    split
    · exact hg
    · exact List.mem_cons_of_mem _ hg
  · rw [denote, List.filterMap_cons]
    split
    · exact hc
    · exact List.mem_cons_of_mem _ hc

section Steps

variable {α : Type} {id : Text} {element : Element} (hids : IdsMatch p) (hplain : PlainIds p)
  (hacyclic : Acyclic p) (hfind : getSourceElement p id = some element) {s : Representation}
include hfind

section Calling

include hids hacyclic

/-- Calls do nothing for the element itself. -/
theorem call_step {i : Procedure} (hi : CallsOf p element i)
    {r : Run Use Representation (Answer i)} (hdone : Done p V i s r)
    (hbelow : SettledIn p V (Relation.TransGen (RefersTo p) id) s) :
    ownChanges r.state id = ownChanges s id ∧ Advances p (Below p id) s r.state ∧
      (SettledIn p V (Relation.TransGen (RefersTo p) id) r.state) := by
  have htouches : ∀ id', Touches p i id' → Relation.TransGen (RefersTo p) id id' :=
    fun id' => touches_below hids hfind hi
  refine ⟨?_, ?_, fun hall id' element' hfind' hreach => ?_⟩
  · exact (hdone.advances.frame id element hfind fun ht => hacyclic id (htouches id ht)).2
  · exact hdone.advances.mono fun id' ht => Or.inr (htouches id' ht)
  · by_cases ht : Touches p i id'
    · exact hdone.settled hall id' element' hfind' ht
    · exact (hbelow hall id' element' hfind' hreach).advances hdone.advances hfind' ht

end Calling

include hplain

/-- The effects of the function for an element are for this element. -/
theorem effect_step (hs : Consistent p V s) {e : Effect} {q : Builder α}
    (hfits : Fits p V id element (.effect e q)) :
    Consistent p V (s.apply e) ∧ Advances p (· = id) s (s.apply e) ∧
      ownChanges (s.apply e) id = ownChanges s id ++ [e].filterMap changed ∧
      ∀ g, registration e = some g → (s.apply e).getSourceObject g.1 = some g.2 := by
  cases e with
  | setSourceObject key o =>
    obtain ⟨hgranted, hkey, hgrants⟩ := hfits.registers (key, o) (by simp [denote, registration])
    refine ⟨register_consistent hs hgranted ⟨id, element, hfind, hgrants⟩, ?_, ?_, ?_⟩
    · refine register_advances hplain hs hgranted fun element' hfind' => ?_
      rcases hkey with hkey | hkey
      · exact hkey
      · exact absurd hkey (hplain.ne_typeId _ _ _ _ hfind' hfind)
    · exact (List.append_nil _).symm
    · rintro g hg
      obtain rfl := Option.some.inj hg
      exact getSourceObject_set s key o
  | change c =>
    have howner : owner c = id := hfits.changes c (by simp [denote, changed])
    refine ⟨⟨hs.granted, hs.grants, fun c' hc' => ?_⟩,
      ⟨fun _ _ h => h, fun id' element' hfind' hne => ⟨rfl, ?_⟩⟩, ?_, ?_⟩
    · rcases List.mem_append.mp hc' with hc' | hc'
      · exact hs.owners c' hc'
      · obtain rfl := List.mem_singleton.mp hc'
        exact ⟨element, howner ▸ hfind⟩
    · rw [change_step, if_neg fun heq => hne (heq.symm.trans howner), List.append_nil]
    · rw [change_step, if_pos howner]
      rfl
    · exact fun g hg => by cases hg

end Steps

section Progressing

variable {α : Type} {id : Text} {s s₁ : Representation} {q q' : Builder α}
  {r : Run Use Representation α}

theorem Progress.start {q : Builder α} {o : Outcome α}
    (hdenote : denote Use.isNull (valueOf p V) q = (o, []))
    (hrequests : ∀ i ∈ requests Use.isNull (valueOf p V) q, ∀ g ∈ granted p V i,
      s₁.getSourceObject g.1 = some g.2)
    (hs : Consistent p V s₁) (hadvances : Advances p (Below p id) s s₁)
    (hbelow : SettledIn p V (Relation.TransGen (RefersTo p) id) s₁)
    (hown : ownChanges s₁ id = ownChanges s id) (uses : List Use) :
    Progress p V id q s ⟨uses, o, s₁⟩ := by
  refine ⟨by rw [hdenote], hs, hadvances, hbelow, ?_, ?_, hrequests⟩
  · rw [hdenote, List.filterMap_nil, List.append_nil]
    exact hown
  · rw [hdenote]
    exact fun g hg => by cases hg

/-- What remains of a program has been done from a later state on. -/
theorem Progress.continue (h : Progress p V id q' s₁ r)
    (hdenote : denote Use.isNull (valueOf p V) q = denote Use.isNull (valueOf p V) q')
    (hadvances : Advances p (Below p id) s s₁) (hown : ownChanges s₁ id = ownChanges s id)
    (hrequests : ∀ i ∈ requests Use.isNull (valueOf p V) q,
      i ∈ requests Use.isNull (valueOf p V) q' ∨
        ∀ g ∈ granted p V i, s₁.getSourceObject g.1 = some g.2) (uses : List Use) :
    Progress p V id q s (r.after uses) := by
  refine ⟨?_, h.consistent, hadvances.trans h.advances, h.settled, ?_, ?_, ?_⟩
  · rw [hdenote]
    exact h.outcome
  · rw [hdenote, ← hown]
    exact h.changes
  · rw [hdenote]
    exact h.registered
  · intro i hi g hg
    rcases hrequests i hi with hi' | hgives
    · exact h.requested i hi' g hg
    · exact h.advances.keeps _ _ (hgives g hg)

end Progressing

section Running

variable (hids : IdsMatch p) (hplain : PlainIds p) (hacyclic : Acyclic p)
include hids hplain hacyclic

/-- A part of the function for an element does what it denotes, and the elements that it asks for
are constructed once. -/
theorem exec_progress {α : Type} {id : Text} {element : Element}
    (hfind : getSourceElement p id = some element)
    {callee : (i : Procedure) → Representation → Option (Run Use Representation (Answer i))}
    (hcallee : ∀ i, CallsOf p element i → ∀ s r, Ready p V i s → callee i s = some r →
      Done p V i s r)
    {q : Builder α} (hq : q.Asks (CallsOf p element))
    (hfits : Fits p V id element q) {s : Representation} {r : Run Use Representation α}
    (hs : Consistent p V s)
    (hbelow : SettledIn p V (Relation.TransGen (RefersTo p) id) s)
    (h : exec (builderSystem p) callee q s = some r) : Progress p V id q s r := by
  induction q generalizing s r with
  | ret a =>
    obtain rfl := Option.some.inj h
    exact .start rfl (by simp [requests]) hs .refl hbelow rfl []
  | fail =>
    obtain rfl := Option.some.inj h
    exact .start rfl (by simp [requests]) hs .refl hbelow rfl []
  | use u next ih =>
    obtain ⟨hu, rfl⟩ | ⟨hu, r', hr', rfl⟩ := exec_use_cases h
    · have hnull : u.isNull = true := hu
      refine .start ?_ ?_ hs .refl hbelow rfl [u]
      · rw [denote, if_pos hnull]
      · rw [requests, if_pos hnull]
        exact fun i hi => by cases hi
    · obtain ⟨hdenote, hrequests⟩ := denote_use Use.isNull (valueOf p V) hu next
      have hrest := ih hq (hfits.of_eq hdenote (hrequests ▸ List.Subset.refl _)) hs hbelow hr'
      exact hrest.continue hdenote .refl rfl (fun i hi => Or.inl (hrequests ▸ hi)) [u]
  | call i next ih =>
    obtain ⟨r₁, hr₁, hcases⟩ := exec_call_cases h
    have hready : Ready p V i s := by
      refine ⟨hs, fun hall id' element' hfind' ht => ?_, fun g hg => ?_⟩
      · exact hbelow hall id' element' hfind' (touches_below hids hfind hq.1 ht)
      · refine ⟨id, element, hfind, hfits.calls i ?_ g hg⟩
        rw [requests]
        exact List.mem_cons_self
    have hdone : Done p V i s r₁ := hcallee i hq.1 s r₁ hready hr₁
    obtain ⟨hown, hadvances, hbelow₁⟩ := call_step hids hacyclic hfind hq.1 hdone hbelow
    rcases hcases with ⟨hcrashed, rfl⟩ | ⟨answer, r₂, houtcome, hnext, rfl⟩
    · obtain ⟨hdenote, hrequests⟩ :=
        denote_call_crashed Use.isNull (valueOf p V) (hdone.outcome.symm.trans hcrashed) next
      refine .start hdenote ?_ hdone.consistent hadvances hbelow₁ hown _
      intro j hj
      rw [hrequests, List.mem_singleton] at hj
      exact hj ▸ hdone.gives
    · obtain ⟨hdenote, hrequests⟩ :=
        denote_call Use.isNull (valueOf p V) (hdone.outcome.symm.trans houtcome) next
      have hfits' := hfits.of_eq hdenote (by rw [hrequests]; exact List.subset_cons_self _ _)
      have hrest := ih answer (hq.2 answer) hfits' hdone.consistent hbelow₁ hnext
      refine hrest.continue hdenote hadvances hown (fun j hj => ?_) _
      rw [hrequests] at hj
      rcases List.mem_cons.mp hj with rfl | hj
      · exact Or.inr hdone.gives
      · exact Or.inl hj
  | effect e next ih =>
    obtain ⟨hconsistent, hadvances, hown, hset⟩ := effect_step hplain hfind hs hfits
    have hself : ∀ id', Relation.TransGen (RefersTo p) id id' → ¬ id' = id :=
      fun id' hreach heq => hacyclic id (heq ▸ hreach)
    have hrest := ih hq hfits.effect hconsistent (fun hall id' element' hfind' hreach =>
      (hbelow hall id' element' hfind' hreach).advances hadvances hfind' (hself id' hreach)) h
    refine ⟨hrest.outcome, hrest.consistent, ?_, hrest.settled, ?_, ?_, hrest.requested⟩
    · exact (hadvances.mono fun id' => Or.inl).trans hrest.advances
    · rw [hrest.changes, hown, denote, List.append_assoc, ← List.filterMap_append,
        List.singleton_append]
    · intro g hg
      rw [denote, List.filterMap_cons] at hg
      split at hg
      · exact hrest.registered g hg
      · rename_i g' hg'
        rcases List.mem_cons.mp hg with rfl | hg
        · exact hrest.advances.keeps _ _ (hset g hg')
        · exact hrest.registered g hg

end Running

end Procedures

end CableSwig.Parsers.ConstructionSteps
