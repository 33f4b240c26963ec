import CableSwig.Parsers.ConstructionSteps

/-!
# What the procedures of the construction do

Whenever an element or a type is asked for, it is made or found as if nothing had been made before,
and every element that this takes has been constructed once.
-/
namespace CableSwig.Parsers.ConstructionProcedures

open CableSwig.GccXml.TypeDump
open CableSwig.Lib.Fuel
open CableSwig.Lib.OrderedMap
open CableSwig.Lib.Procedures
open CableSwig.Lib.Procedures.Program
open CableSwig.Lib.StdString
open CableSwig.Parsers.ConstructionSteps
open CableSwig.Parsers.ElementValues
open CableSwig.Parsers.ElementReferences
open CableSwig.Parsers.RepresentationBuilder
open CableSwig.Parsers.XmlSourceParser

section Procedures

/-- What the procedure is called for is in the table. -/
def Resolves (p : SourceParser) : Procedure → Prop
  | .element element => ∃ id, getSourceElement p id = some element
  | .type tid => ∃ element, getSourceElement p (unqualified tid) = some element
  | .constructorReturn => True

variable {p : SourceParser} {V : Text → Outcome SourceObject} {id : Text} {element : Element}
  {s : Representation}

theorem resolves_of_callsOf (hreferences : ReferencesExist p)
    (hfind : getSourceElement p id = some element) {i : Procedure} (hi : CallsOf p element i) :
    Resolves p i := by
  cases i with
  | element element' =>
    obtain ⟨id', -, hfind'⟩ := hi
    exact ⟨id', hfind'⟩
  | type tid =>
    have hmem : unqualified tid ∈ references element :=
      List.mem_append_right _ (List.mem_map_of_mem hi)
    exact Option.isSome_iff_exists.mp (hreferences id element hfind _ hmem)
  | constructorReturn => trivial

section Found

variable (hplain : PlainIds p) (hids : IdsMatch p)
include hplain hids

/-- A procedure that finds its object leaves everything as it is. -/
theorem done_found {i : Procedure} (hi : Resolves p i) (hready : Ready p V i s)
    {answer : Option (Answer i)} (hfound : (builderSystem p).found i s = some answer) :
    Done p V i s ⟨[], .ofAnswer answer, s⟩ := by
  suffices h : Outcome.ofAnswer answer = valueOf p V i ∧
      ∀ g ∈ granted p V i, s.getSourceObject g.1 = some g.2 from
    ⟨h.1, hready.consistent, .refl, hready.settled, h.2⟩
  cases i with
  | element element =>
    obtain ⟨id, hfind⟩ := hi
    have hobject : ((getAttribute element.attributes "id").bind s.getSourceObject).map some =
        some answer := hfound
    rw [hids id element hfind, Option.bind_some] at hobject
    obtain ⟨o, ho, rfl⟩ := Option.map_eq_some_iff.mp hobject
    have hvalue : V id = .returned o :=
      (hready.consistent.granted id o ho).of_element hplain hfind
    simp only [valueOf, granted, hids id element hfind, hvalue, List.mem_singleton]
    exact ⟨rfl, fun g hg => hg ▸ ho⟩
  | type tid =>
    obtain ⟨element, hfind⟩ := hi
    obtain ⟨o, ho, rfl⟩ := Option.map_eq_some_iff.mp hfound
    have hgranted := hready.consistent.granted tid o ho
    refine ⟨(hgranted.of_type hplain hfind).symm, fun g hg => ?_⟩
    simp only [granted] at hg
    split_ifs at hg with hqualifiers
    · cases hg
    · obtain ⟨t, ht, rfl⟩ := hgranted.of_qualified hplain hqualifiers hfind
      rw [ht] at hg
      obtain rfl := List.mem_singleton.mp hg
      exact ho
  | constructorReturn =>
    obtain ⟨o, ho, rfl⟩ := Option.map_eq_some_iff.mp hfound
    obtain rfl := (hready.consistent.granted _ o ho).of_crt hplain rfl
    refine ⟨rfl, fun g hg => ?_⟩
    obtain rfl := List.mem_singleton.mp hg
    exact ho

end Found

section Making

variable (hids : IdsMatch p) (hV : IsValue p V) (hfind : getSourceElement p id = some element)
include hids hV hfind

/-- An element that returns is registered under its id. -/
theorem registers_self {o : SourceObject} (hvalue : V id = .returned o) :
    (id, o) ∈ (denoteElement p V element).2.filterMap registration := by
  have hmakes : Makes id element _ (denoteElement p V element) :=
    makes_addElement (hids id element hfind)
  rw [(hmakes.returned o ((hV id element hfind).symm.trans hvalue)).1]
  exact List.mem_append_right _ List.mem_cons_self

theorem grants_of_granted {g : Text × SourceObject} (hg : g ∈ granted p V (.element element)) :
    g ∈ grants p V element := by
  simp only [granted, hids id element hfind] at hg
  cases hvalue : V id with
  | crashed => simp [hvalue] at hg
  | failed => simp [hvalue] at hg
  | returned o =>
    simp only [hvalue, List.mem_singleton] at hg
    exact hg ▸ List.mem_append_left _ (registers_self hids hV hfind hvalue)

theorem fits_addElement : Fits p V id element (addElement p element) := by
  refine ⟨fun g hg => ?_, fun c hc => ?_, fun i hi g hg => ?_⟩
  · obtain ⟨hgranted, hkey⟩ := registration_cases hids hV hfind hg
    exact ⟨hgranted, hkey, List.mem_append_left _ hg⟩
  · have hmakes : Makes id element _ (denoteElement p V element) :=
      makes_addElement (hids id element hfind)
    obtain ⟨e, he, hchange⟩ := List.mem_filterMap.mp hc
    have hown := hmakes.own e he
    cases e with
    | setSourceObject => cases hchange
    | change c' =>
      obtain rfl := Option.some.inj hchange
      exact hown.1
  · exact List.mem_append_right _ (List.mem_flatMap.mpr ⟨i, hi, hg⟩)

/-- All has been done for an element after its function. -/
theorem settled_of_progress (hall : AllReturned p V) {r : Run Use Representation SourceObject}
    (h : Progress p V id (addElement p element) s r) (hown : ownChanges s id = []) :
    Settled p V r.state id element := by
  obtain ⟨o, ho⟩ := hall id element hfind
  refine ⟨fun _ _ => ⟨?_, fun g hg => ?_⟩, fun hnone => ?_⟩
  · rw [h.changes, hown, List.nil_append]
    rfl
  · rcases List.mem_append.mp hg with hg | hg
    · exact h.registered g hg
    · obtain ⟨i, hi, hg⟩ := List.mem_flatMap.mp hg
      exact h.requested i hi g hg
  · have hsome := h.registered _ (registers_self hids hV hfind ho)
    rw [hnone] at hsome
    cases hsome

/-- The function for an element does what the procedure is called for. -/
theorem done_of_progress (hready : Ready p V (.element element) s)
    (hnone : s.getSourceObject id = none) {r : Run Use Representation SourceObject}
    (h : Progress p V id (addElement p element) s r) : Done p V (.element element) s r := by
  have hvalue : valueOf p V (.element element) = V id := by rw [valueOf, hids id element hfind]
  have htouches : ∀ id', Touches p (.element element) id' ↔ Below p id id' := by
    intro id'
    simp only [Touches, hids id element hfind, Option.some.injEq, exists_eq_left', Below,
      Relation.reflTransGen_iff_eq_or_transGen]
  refine ⟨?_, h.consistent, ?_, fun hall id' element' hfind' ht => ?_, fun g hg => ?_⟩
  · rw [hvalue, hV id element hfind]
    exact h.outcome
  · exact h.advances.mono fun id' => (htouches id').mpr
  · rcases (htouches id').mp ht with rfl | hreach
    · obtain rfl := Option.some.inj (hfind.symm.trans hfind')
      have hsettled := hready.settled hall id' element hfind ht
      exact settled_of_progress hids hV hfind hall h (hsettled.absent hnone)
    · exact h.settled hall id' element' hfind' hreach
  · simp only [granted, hids id element hfind] at hg
    cases hreturned : V id with
    | crashed => simp [hreturned] at hg
    | failed => simp [hreturned] at hg
    | returned o =>
      simp only [hreturned, List.mem_singleton] at hg
      subst hg
      exact h.registered _ (registers_self hids hV hfind hreturned)

end Making

section Types

variable {tid : Text}

theorem valueOf_type (hfind : getSourceElement p (unqualified tid) = some element)
    {o : SourceObject} (hvalue : V (unqualified tid) = .returned o) :
    valueOf p V (.type tid) = (qualify tid o).1 := by
  simp only [valueOf, hfind, hvalue]
  rfl

/-- The type of an element that does not return does not return. -/
theorem valueOf_type_of_not_returned
    (hfind : getSourceElement p (unqualified tid) = some element) :
    (V (unqualified tid) = .crashed → valueOf p V (.type tid) = .crashed) ∧
      (V (unqualified tid) = .failed → valueOf p V (.type tid) = .failed) := by
  refine ⟨fun h => ?_, fun h => ?_⟩
  · simp only [valueOf, hfind, h]
  · simp only [valueOf, hfind, h]

theorem granted_type_of_not_returned (h : ∀ t, valueOf p V (.type tid) ≠ .returned t) :
    granted p V (.type tid) = [] := by
  simp only [granted]
  split_ifs
  · rfl
  · cases hvalue : valueOf p V (.type tid) with
    | crashed => rfl
    | failed => rfl
    | returned t => exact absurd hvalue (h t)

/-- Only types with qualifiers are registered under the id that is asked for. -/
theorem qualify_cases (tid : Text) (o : SourceObject) :
    ((qualify tid o).2 = [] ∧ (qualifiers tid = ⊥ ∨ ∀ t, (qualify tid o).1 ≠ .returned t)) ∨
    ∃ t, qualifiers tid ≠ ⊥ ∧
      qualify tid o = (.returned t, [.setSourceObject tid (.type t)]) := by
  unfold qualify addQualifiers
  split_ifs with hqualifiers
  · refine Or.inl ⟨?_, Or.inl hqualifiers⟩
    cases o.typeOf <;> rfl
  · cases o.typeOf with
    | none => exact Or.inl ⟨rfl, Or.inr fun t h => by cases h⟩
    | some type =>
      cases hnew : withQualifiers type (qualifiers tid) with
      | none =>
        refine Or.inl ⟨?_, Or.inr fun t h => ?_⟩
        · simp [dereference, deref, hnew, ofOption, denote, Bind.bind, Program.bind]
        · simp [dereference, deref, hnew, ofOption, denote, Bind.bind, Program.bind] at h
      | some newType =>
        refine Or.inr ⟨newType, hqualifiers, ?_⟩
        simp [dereference, deref, hnew, ofOption, denote, Bind.bind, Program.bind, setSourceObject,
          perform, Pure.pure]

/-- The end of `GetTypeFromId`. -/
theorem done_addQualifiers (hplain : PlainIds p)
    (hfind : getSourceElement p (unqualified tid) = some element) {o : SourceObject}
    (hvalue : V (unqualified tid) = .returned o)
    {s₁ : Representation} (hready : Ready p V (.type tid) s) (hs : Consistent p V s₁)
    (hadvances : Advances p (Touches p (.type tid)) s s₁)
    (hsettled : SettledIn p V (Touches p (.type tid)) s₁) {r : Run Use Representation SourceType}
    (houtcome : r.outcome = (qualify tid o).1)
    (hstate : r.state = (qualify tid o).2.foldl (fun s e => (builderSystem p).apply e s) s₁) :
    Done p V (.type tid) s r := by
  have htype : valueOf p V (.type tid) = (qualify tid o).1 := valueOf_type hfind hvalue
  rcases qualify_cases tid o with ⟨hnil, hnone⟩ | ⟨t, hqualifiers, hqualify⟩
  · rw [hnil, List.foldl_nil] at hstate
    have hgranted : granted p V (.type tid) = [] := by
      rcases hnone with hqualifiers | hnot
      · simp only [granted, if_pos hqualifiers]
      · exact granted_type_of_not_returned (htype ▸ hnot)
    refine ⟨houtcome.trans htype.symm, hstate ▸ hs, hstate ▸ hadvances, hstate ▸ hsettled, ?_⟩
    rw [hgranted]
    exact fun g hg => by cases hg
  · rw [hqualify] at hstate houtcome htype
    have hvalueOf : granted p V (.type tid) = [(tid, .type t)] := by
      simp only [granted, if_neg hqualifiers, htype]
    have hgranted : Granted p V tid (.type t) := .qualified hqualifiers hfind htype
    have hmissing : ∀ element, getSourceElement p tid = some element → False :=
      fun element' hfind' => hqualifiers (qualifiers_plain (hplain.plain _ _ hfind'))
    have hstep : Advances p (fun _ => False) s₁ r.state := by
      rw [hstate]
      exact register_advances hplain hs hgranted hmissing
    refine ⟨houtcome.trans htype.symm, ?_, ?_, fun hall id' element' hfind' ht => ?_, ?_⟩
    · rw [hstate]
      refine register_consistent hs hgranted (hready.asked (tid, .type t) ?_)
      rw [hvalueOf]
      exact List.mem_cons_self
    · exact hadvances.trans (hstep.mono fun _ => False.elim)
    · exact (hsettled hall id' element' hfind' ht).advances hstep hfind' not_false
    · rw [hvalueOf]
      intro g hg
      obtain rfl := List.mem_singleton.mp hg
      rw [hstate]
      exact getSourceObject_set s₁ tid _

theorem touches_typeElement (hids : IdsMatch p)
    (hfind : getSourceElement p (unqualified tid) = some element) :
    Touches p (.element element) = Touches p (.type tid) := by
  funext id'
  simp only [Touches, hids _ _ hfind, Option.some.injEq, exists_eq_left']

theorem touches_unqualified (hplain : PlainIds p)
    (hfind : getSourceElement p (unqualified tid) = some element) :
    Touches p (.type (unqualified tid)) = Touches p (.type tid) := by
  funext id'
  simp only [Touches, unqualified_plain (hplain.plain _ _ hfind)]

/-- A type whose element does not return. -/
theorem done_type_of_not_returned (hids : IdsMatch p)
    (hfind : getSourceElement p (unqualified tid) = some element)
    {r : Run Use Representation SourceObject} (h : Done p V (.element element) s r)
    {o : Outcome SourceType} (ho : o = valueOf p V (.type tid)) (hnot : ∀ t, o ≠ .returned t) :
    Done p V (.type tid) s ⟨r.uses, o, r.state⟩ := by
  have htouches := touches_typeElement hids hfind
  refine ⟨ho, h.consistent, htouches ▸ h.advances, htouches ▸ h.settled, ?_⟩
  rw [granted_type_of_not_returned (ho ▸ hnot)]
  exact fun g hg => absurd hg List.not_mem_nil

section Asking

variable (hids : IdsMatch p) (hplain : PlainIds p)
  (hfind : getSourceElement p (unqualified tid) = some element)
  {callee : (i : Procedure) → Representation → Option (Run Use Representation (Answer i))}
  (hcallee : ∀ i, Resolves p i → ∀ s r, Ready p V i s → callee i s = some r → Done p V i s r)
include hids hplain hfind hcallee

omit hplain in
/-- The first call of `GetTypeFromId`. -/
theorem done_typeElement (hV : IsValue p V) (hready : Ready p V (.type tid) s)
    {r : Run Use Representation SourceObject} (h : callee (.element element) s = some r) :
    Done p V (.element element) s r := by
  refine hcallee (.element element) ⟨_, hfind⟩ s r ⟨hready.consistent, ?_, fun g hg => ?_⟩ h
  · rw [touches_typeElement hids hfind]
    exact hready.settled
  · exact ⟨_, element, hfind, grants_of_granted hids hV hfind hg⟩

omit hids in
/-- The second call, which has nothing to register. -/
theorem done_unqualified (hs : Consistent p V s)
    (hsettled : SettledIn p V (Touches p (.type tid)) s) {r : Run Use Representation SourceType}
    (h : callee (.type (unqualified tid)) s = some r) :
    Done p V (.type (unqualified tid)) s r := by
  have hunqualified : Plain (unqualified tid) := hplain.plain _ _ hfind
  have hresolves : Resolves p (.type (unqualified tid)) :=
    ⟨element, by rw [unqualified_plain hunqualified]; exact hfind⟩
  refine hcallee _ hresolves _ _ ⟨hs, ?_, fun g hg => ?_⟩ h
  · rw [touches_unqualified hplain hfind]
    exact hsettled
  · simp only [granted, if_pos (qualifiers_plain hunqualified)] at hg
    cases hg

/-- `GetTypeFromId` of an id that has no object yet. The second time that it asks, the element has
been constructed. -/
theorem done_findType (hV : IsValue p V) (hready : Ready p V (.type tid) s)
    {r : Run Use Representation SourceType}
    (h : exec (builderSystem p) callee (findType p tid) s = some r) :
    Done p V (.type tid) s r := by
  unfold findType at h
  rw [hfind] at h
  obtain ⟨r₁, hr₁, hcases⟩ := exec_call_cases h
  have hdone₁ : Done p V (.element element) s r₁ :=
    done_typeElement hids hfind hcallee hV hready hr₁
  have houtcome₁ : r₁.outcome = V (unqualified tid) := by
    rw [hdone₁.outcome, valueOf, hids _ _ hfind]
  obtain ⟨hcrashes, hfails⟩ := valueOf_type_of_not_returned (V := V) hfind
  rcases hcases with ⟨hcrashed, rfl⟩ | ⟨answer, r₂, houtcome, hnext, rfl⟩
  · have hvalue := hcrashes (houtcome₁.symm.trans hcrashed)
    exact done_type_of_not_returned hids hfind hdone₁ hvalue.symm fun t h => by cases h
  · cases answer with
    | none =>
      obtain rfl := Option.some.inj hnext
      have hvalue := hfails (houtcome₁.symm.trans houtcome)
      have hdone := done_type_of_not_returned hids hfind hdone₁ hvalue.symm fun t h => by cases h
      rwa [← List.append_nil r₁.uses] at hdone
    | some o =>
      have hvalue : V (unqualified tid) = .returned o := houtcome₁.symm.trans houtcome
      have htouches := touches_unqualified hplain hfind
      have hsettled₁ : SettledIn p V (Touches p (.type tid)) r₁.state :=
        touches_typeElement hids hfind ▸ hdone₁.settled
      obtain ⟨r₃, hr₃, hcases⟩ := exec_call_cases hnext
      have hdone₃ : Done p V (.type (unqualified tid)) r₁.state r₃ :=
        done_unqualified hplain hfind hcallee hdone₁.consistent hsettled₁ hr₃
      have houtcome₃ : r₃.outcome = .ofAnswer o.typeOf :=
        hdone₃.outcome.trans (valueOf_type_plain (hplain.plain _ _ hfind) hfind hvalue)
      rcases hcases with ⟨hcrashed, rfl⟩ | ⟨answer, r₄, houtcome, hnext, rfl⟩
      · exact absurd (houtcome₃.symm.trans hcrashed) (ofAnswer_ne_crashed _)
      · obtain rfl := ofAnswer_injective (houtcome₃.symm.trans houtcome)
        have hadvances₁ : Advances p (Touches p (.type tid)) s r₁.state :=
          touches_typeElement hids hfind ▸ hdone₁.advances
        have hasks : (addQualifiers tid o.typeOf).Asks fun _ => False :=
          asks_addQualifiers tid _
        obtain ⟨hresult, hstate⟩ := exec_denote (fun _ => .failed) hasks hnext
        exact done_addQualifiers hplain hfind hvalue hready hdone₃.consistent
          (hadvances₁.trans (htouches ▸ hdone₃.advances)) (htouches ▸ hdone₃.settled)
          hresult hstate

end Asking

end Types

/-- The type that is made up for the constructors is registered once. -/
theorem done_constructorReturn (hplain : PlainIds p) (hready : Ready p V .constructorReturn s) :
    Done p V .constructorReturn s
      ⟨[], .returned voidType, s.apply (.setSourceObject "crt".toList (.type voidType))⟩ := by
  have hgranted : Granted p V "crt".toList (.type voidType) := .constructorReturn
  have hmissing : ∀ element, getSourceElement p "crt".toList = some element → False :=
    fun element hfind => not_plain_crt (hplain.plain _ _ hfind)
  refine ⟨rfl, ?_, ?_, fun hall id element hfind ht => ht.elim, fun g hg => ?_⟩
  · exact register_consistent hready.consistent hgranted (hready.asked _ List.mem_cons_self)
  · exact register_advances hplain hready.consistent hgranted
      fun element hfind => (hmissing element hfind).elim
  · obtain rfl := List.mem_singleton.mp hg
    exact getSourceObject_set s _ _

/-- Every procedure does what it is called for. -/
theorem invoke_done (hids : IdsMatch p) (hplain : PlainIds p) (hreferences : ReferencesExist p)
    (hacyclic : Acyclic p) (hV : IsValue p V) (fuel : Nat) :
    ∀ i, Resolves p i → ∀ s r, Ready p V i s → invoke (builderSystem p) fuel i s = some r →
      Done p V i s r := by
  induction fuel with
  | zero => exact fun i hi s r hready h => by cases h
  | succ fuel ih =>
    intro i hi s r hready h
    obtain ⟨fuel', hfuel, ⟨answer, hfound, rfl⟩ | ⟨hfound, hexec⟩⟩ := invoke_cases h
    · exact done_found hplain hids hi hready hfound
    · obtain rfl := Nat.succ.inj hfuel
      cases i with
      | element element =>
        obtain ⟨id, hfind⟩ := hi
        have hnone : s.getSourceObject id = none := by
          have hobject : ((getAttribute element.attributes "id").bind s.getSourceObject).map some =
            none := hfound
          rwa [hids id element hfind, Option.bind_some, Option.map_eq_none_iff] at hobject
        refine done_of_progress hids hV hfind hready hnone ?_
        refine exec_progress hids hplain hacyclic hfind (fun i hi => ?_)
          asks_addElement (fits_addElement hids hV hfind)
          hready.consistent (fun hall id' element' hfind' hreach => ?_) hexec
        · exact ih i (resolves_of_callsOf hreferences hfind hi)
        · exact hready.settled hall id' element' hfind'
            ⟨id, hids id element hfind, hreach.to_reflTransGen⟩
      | type tid =>
        obtain ⟨element, hfind⟩ := hi
        exact done_findType hids hplain hfind ih hV hready hexec
      | constructorReturn =>
        obtain rfl := Option.some.inj hexec
        exact done_constructorReturn hplain hready

end Procedures

end CableSwig.Parsers.ConstructionProcedures
