import CableSwig.Parsers.ConstructionProcedures

/-!
# The order of the construction

The construction visits the elements in some order and each element when it is asked for. What the
representation holds in the end does not depend on that order, and nothing is made twice.
-/
namespace CableSwig.Parsers.ConstructionOrder

open CableSwig.GccXml.TypeDump
open CableSwig.Lib.Fuel
open CableSwig.Lib.OrderedMap
open CableSwig.Lib.Procedures
open CableSwig.Lib.Procedures.Program
open CableSwig.Lib.StdString
open CableSwig.Parsers.ConstructionProcedures
open CableSwig.Parsers.ConstructionSteps
open CableSwig.Parsers.ElementValues
open CableSwig.Parsers.ElementReferences
open CableSwig.Parsers.RepresentationBuilder
open CableSwig.Parsers.XmlSourceParser

section Loop

variable (p : SourceParser) (V : Text → Outcome SourceObject)

def Everywhere (_ : Text) : Prop := True

/-- What the loop over some elements has done. -/
structure Looped (elements : List Element) (s : Representation)
    (r : Run Use Representation Unit) : Prop where
  consistent : Consistent p V r.state
  settled : SettledIn p V Everywhere r.state
  keeps : ∀ id o, s.getSourceObject id = some o → r.state.getSourceObject id = some o
  returned : r.outcome = .returned () ↔
    ∀ element ∈ elements, ∃ o, valueOf p V (.element element) = .returned o
  present : r.outcome = .returned () → ∀ element ∈ elements,
    ∀ g ∈ granted p V (.element element), r.state.getSourceObject g.1 = some g.2

variable {p V} {s : Representation}

theorem Done.settled_everywhere {i : Procedure} {r : Run Use Representation (Answer i)}
    (h : Done p V i s r) (hs : SettledIn p V Everywhere s) :
    SettledIn p V Everywhere r.state := by
  intro hall id element hfind _
  by_cases ht : Touches p i id
  · exact h.settled hall id element hfind ht
  · exact (hs hall id element hfind trivial).advances h.advances hfind ht

variable (hids : IdsMatch p) (hplain : PlainIds p) (hreferences : ReferencesExist p)
  (hacyclic : Acyclic p) (hV : IsValue p V)
include hids hV

theorem ready_element {id : Text} {element : Element}
    (hfind : getSourceElement p id = some element) (hs : Consistent p V s)
    (hsettled : SettledIn p V Everywhere s) : Ready p V (.element element) s := by
  refine ⟨hs, fun hall id' element' hfind' _ => hsettled hall id' element' hfind' trivial, ?_⟩
  exact fun g hg => ⟨id, element, hfind, grants_of_granted hids hV hfind hg⟩

include hplain hreferences hacyclic

/-- The loop over any elements of the table. -/
theorem exec_addElements {fuel : Nat} {elements : List Element}
    (helements : ∀ element ∈ elements, ∃ id, getSourceElement p id = some element)
    {r : Run Use Representation Unit} (hs : Consistent p V s)
    (hsettled : SettledIn p V Everywhere s)
    (h : exec (builderSystem p) (invoke (builderSystem p) fuel) (addElements elements) s = some r) :
    Looped p V elements s r := by
  induction elements generalizing s r with
  | nil =>
    obtain rfl := Option.some.inj h
    exact ⟨hs, hsettled, fun _ _ h => h, by simp, by simp⟩
  | cons element elements ih =>
    obtain ⟨id, hfind⟩ := helements element List.mem_cons_self
    obtain ⟨r₁, hr₁, hcases⟩ := exec_call_cases h
    have hdone : Done p V (.element element) s r₁ :=
      invoke_done hids hplain hreferences hacyclic hV fuel (.element element) ⟨id, hfind⟩ s r₁
        (ready_element hids hV hfind hs hsettled) hr₁
    have hsettled₁ := Done.settled_everywhere hdone hsettled
    have hstop : ∀ {uses : List Use} {o : Outcome Unit}, o ≠ .returned () →
        (∀ o', valueOf p V (.element element) ≠ .returned o') →
        Looped p V (element :: elements) s ⟨uses, o, r₁.state⟩ := by
      refine fun ho hnot => ⟨hdone.consistent, hsettled₁, hdone.advances.keeps, ?_, ?_⟩
      · refine iff_of_false ho fun hall => ?_
        obtain ⟨o', ho'⟩ := hall element List.mem_cons_self
        exact hnot o' ho'
      · exact fun ho' => absurd ho' ho
    rcases hcases with ⟨hcrashed, rfl⟩ | ⟨answer, r₂, houtcome, hnext, rfl⟩
    · exact hstop (by simp) fun o' ho' => by simp [hdone.outcome, ho'] at hcrashed
    · cases answer with
      | none =>
        obtain rfl := Option.some.inj hnext
        refine hstop (by simp) fun o' ho' => ?_
        rw [hdone.outcome, ho'] at houtcome
        cases houtcome
      | some o =>
        have hvalue : valueOf p V (.element element) = .returned o :=
          hdone.outcome.symm.trans houtcome
        have hrest := ih (fun element' h' => helements element' (List.mem_cons_of_mem _ h'))
          hdone.consistent hsettled₁ hnext
        refine ⟨hrest.consistent, hrest.settled, ?_, ?_, fun ho => ?_⟩
        · exact fun id' o' ho' => hrest.keeps id' o' (hdone.advances.keeps id' o' ho')
        · rw [List.forall_mem_cons]
          exact hrest.returned.trans (and_iff_right ⟨o, hvalue⟩).symm
        · rw [List.forall_mem_cons]
          exact ⟨fun g hg => hrest.keeps _ _ (hdone.gives g hg), hrest.present ho⟩

end Loop

section Changes

/-- What a change adds to the member map of a context. -/
def entryOf (context : Text) : Change → Option (Text × Access × Text)
  | .addNamed c name access named => if c = context then some (name, access, named) else none
  | .setGlobalNamespace _ => none
  | .setAttributes _ _ => none

def globalIdOf : Change → Option Text
  | .addNamed _ _ _ _ => none
  | .setGlobalNamespace id => some id
  | .setAttributes _ _ => none

variable {s s' : Representation}

theorem memberMap_eq (s : Representation) (context : Text) :
    s.memberMap context = s.changes.filterMap (entryOf context) := by
  unfold Representation.memberMap
  congr 1
  funext c
  cases c <;> rfl

/-- The members of an element are among its own changes. -/
theorem memberMap_filter (s : Representation) (context id : Text) :
    (s.memberMap context).filter (fun m => m.2.2 = id) =
      ((ownChanges s id).filter isMember).filterMap (entryOf context) := by
  rw [memberMap_eq, ownChanges, List.filter_filterMap, List.filterMap_filter, List.filterMap_filter]
  congr 1
  funext c
  cases c with
  | addNamed c name access named =>
    by_cases hc : c = context
    · by_cases hid : named = id <;> simp [entryOf, owner, isMember, hc, hid]
    · simp [entryOf, owner, isMember, hc]
  | setGlobalNamespace id' => simp [entryOf, isMember]
  | setAttributes id' atts => simp [entryOf, isMember]

theorem attributes_eq (s : Representation) (id : Text) :
    s.attributes id = Representation.attributes { changes := ownChanges s id } id := by
  refine Eq.trans ?_ List.foldl_filter.symm
  show List.foldl _ [] s.changes = _
  congr 1
  funext atts c
  cases c with
  | addNamed => simp
  | setGlobalNamespace => simp
  | setAttributes id' atts' =>
    by_cases hid : id' = id <;> simp [owner, hid]

theorem globalNamespaceId_eq (s : Representation) :
    s.globalNamespaceId = (s.changes.filterMap globalIdOf).foldl (fun _ id => id) [] := by
  refine Eq.trans ?_ List.foldl_filterMap.symm
  show List.foldl _ [] s.changes = _
  congr 1
  funext id c
  cases c <;> rfl

/-- Changes that are the same for each element are the same up to their order. -/
theorem changes_perm (h : ∀ id, ownChanges s' id = ownChanges s id) :
    s'.changes.Perm s.changes := by
  refine List.perm_iff_count.mpr fun c => ?_
  have hown : ∀ s : Representation, (ownChanges s (owner c)).count c = s.changes.count c :=
    fun s => List.count_filter (by simp)
  rw [← hown s', ← hown s, h]

/-- Lists of the same values are equal where all values are equal. -/
theorem eq_of_perm_of_constant {l l' : List Text} (hperm : l'.Perm l)
    (h : ∀ a ∈ l, ∀ b ∈ l, a = b) : l' = l := by
  cases l with
  | nil => exact hperm.eq_nil
  | cons a l =>
    have hreplicate : a :: l = List.replicate (a :: l).length a :=
      List.eq_replicate_of_mem fun b hb => h b hb a List.mem_cons_self
    rw [hreplicate] at hperm ⊢
    exact List.perm_replicate.mp hperm

end Changes

section Building

variable (p : SourceParser) (V : Text → Outcome SourceObject)

/-- The representation when every element has been constructed. -/
structure Built (s : Representation) : Prop where
  returned : AllReturned p V
  objects : ∀ id o, s.getSourceObject id = some o ↔
    ∃ id' element, getSourceElement p id' = some element ∧ (id, o) ∈ grants p V element
  changes : ∀ id element, getSourceElement p id = some element →
    ownChanges s id = (denoteElement p V element).2.filterMap changed
  owners : ∀ c ∈ s.changes, ∃ element, getSourceElement p (owner c) = some element

/-- Two representations with the same members, up to their order, and otherwise the same. -/
structure SameRepresentation (s s' : Representation) : Prop where
  objects : ∀ id, s'.getSourceObject id = s.getSourceObject id
  members : ∀ context, (s'.memberMap context).Perm (s.memberMap context)
  attributes : ∀ id, s'.attributes id = s.attributes id
  globalNamespaceId : s'.globalNamespaceId = s.globalNamespaceId

/-- At most one element is a global namespace, if it has no context. -/
def OneGlobalNamespace : Prop :=
  ∀ id element id' element', getSourceElement p id = some element →
    getSourceElement p id' = some element' → NamesGlobal element → NamesGlobal element' → id = id'

variable {p V} {s s' : Representation} (hids : IdsMatch p)

theorem Built.missing (h : Built p V s) {id : Text} (hfind : getSourceElement p id = none) :
    ownChanges s id = [] := by
  refine List.filter_eq_nil_iff.mpr fun c hc howner => ?_
  obtain ⟨element, helement⟩ := h.owners c hc
  rw [of_decide_eq_true howner, hfind] at helement
  cases helement

theorem Built.ownChanges_eq (h : Built p V s) (h' : Built p V s') (id : Text) :
    ownChanges s' id = ownChanges s id := by
  cases hfind : getSourceElement p id with
  | none => rw [h.missing hfind, h'.missing hfind]
  | some element => rw [h.changes id element hfind, h'.changes id element hfind]

include hids

theorem built_of_looped {elements : List Element}
    (helements : ∀ element, element ∈ elements ↔ ∃ id, getSourceElement p id = some element)
    {r : Run Use Representation Unit} (h : Looped p V elements s r)
    (hr : r.outcome = .returned ()) : Built p V r.state := by
  have hall : AllReturned p V := by
    intro id element hfind
    obtain ⟨o, ho⟩ := h.returned.mp hr element ((helements element).mpr ⟨id, hfind⟩)
    rw [valueOf, hids id element hfind] at ho
    exact ⟨o, ho⟩
  have hpresent : ∀ id element, getSourceElement p id = some element →
      ownChanges r.state id = (denoteElement p V element).2.filterMap changed ∧
        ∀ g ∈ grants p V element, r.state.getSourceObject g.1 = some g.2 := by
    intro id element hfind
    obtain ⟨o, ho⟩ := hall id element hfind
    refine (h.settled hall id element hfind trivial).present o ?_
    refine h.present hr element ((helements element).mpr ⟨id, hfind⟩) (id, o) ?_
    simp only [granted, hids id element hfind, ho, List.mem_singleton]
  refine ⟨hall, fun id o => ⟨h.consistent.grants id o, ?_⟩, ?_, h.consistent.owners⟩
  · rintro ⟨id', element, hfind, hg⟩
    exact (hpresent id' element hfind).2 (id, o) hg
  · exact fun id element hfind => (hpresent id element hfind).1

/-- The changes that set the global namespace are those of one element. -/
theorem Built.globalIds (h : Built p V s) (hglobal : OneGlobalNamespace p) :
    ∀ a ∈ s.changes.filterMap globalIdOf, ∀ b ∈ s.changes.filterMap globalIdOf, a = b := by
  have hnames : ∀ a ∈ s.changes.filterMap globalIdOf,
      ∃ element, getSourceElement p a = some element ∧ NamesGlobal element := by
    intro a ha
    obtain ⟨c, hc, hglobalId⟩ := List.mem_filterMap.mp ha
    cases c with
    | addNamed => cases hglobalId
    | setAttributes => cases hglobalId
    | setGlobalNamespace id =>
      obtain rfl := Option.some.inj hglobalId
      obtain ⟨element, hfind⟩ := h.owners _ hc
      have hown : .setGlobalNamespace id ∈ ownChanges s id :=
        List.mem_filter.mpr ⟨hc, decide_eq_true rfl⟩
      rw [h.changes id element hfind] at hown
      obtain ⟨e, he, hchanged⟩ := List.mem_filterMap.mp hown
      have hmakes : Makes id element _ (denoteElement p V element) :=
        makes_addElement (hids id element hfind)
      have heffect := hmakes.own e he
      cases e with
      | setSourceObject => cases hchanged
      | change c =>
        obtain rfl := Option.some.inj hchanged
        exact ⟨element, hfind, heffect.2 id rfl⟩
  intro a ha b hb
  obtain ⟨element, hfind, hglobalA⟩ := hnames a ha
  obtain ⟨element', hfind', hglobalB⟩ := hnames b hb
  exact hglobal a element b element' hfind hfind' hglobalA hglobalB

theorem Built.same (h : Built p V s) (h' : Built p V s') (hglobal : OneGlobalNamespace p) :
    SameRepresentation s s' := by
  have hchanges := changes_perm (h.ownChanges_eq h')
  refine ⟨fun id => ?_, fun context => ?_, fun id => ?_, ?_⟩
  · refine Option.ext fun o => ?_
    exact (h'.objects id o).trans (h.objects id o).symm
  · rw [memberMap_eq, memberMap_eq]
    exact hchanges.filterMap _
  · rw [attributes_eq s', attributes_eq s, h.ownChanges_eq h']
  · rw [globalNamespaceId_eq, globalNamespaceId_eq,
      eq_of_perm_of_constant (hchanges.filterMap _) (h.globalIds hids hglobal)]

end Building

section Completeness

/-- The elements whose objects have member maps that the elements in them are added to. -/
def contextElements : List String := "Namespace" :: classElements

theorem asContext_of_madeFor {id : Text} {name : String} {o : SourceObject}
    (h : MadeFor id name o) (hname : name ∈ contextElements) : o.asContext = some ⟨id, id⟩ := by
  obtain ⟨rfl, hid⟩ := h
  simp only [contextElements, classElements] at hname
  cases o with
  | ns named | cls kind named isAbstract bases =>
    exact congrArg (fun id => some (ContextObject.mk id id)) (hid named rfl)
  | type t => cases t <;> simp [elementName, typeElementName] at hname
  | function kind named type flags => cases kind <;> simp [elementName] at hname
  | nsAlias | enumeration | typedef | var | field => simp [elementName] at hname

/-- Every element has been constructed, and is a member of its context once. -/
structure Complete (p : SourceParser) (s : Representation) : Prop where
  objects : ∀ id element, getSourceElement p id = some element →
    ∃ o, s.getSourceObject id = some o ∧ MadeFor id element.name o
  members : ∀ id element contextId contextElement, getSourceElement p id = some element →
    element.name ∈ namedElements → getAttribute element.attributes "context" = some contextId →
    getSourceElement p contextId = some contextElement → contextElement.name ∈ contextElements →
    ∃ name access, accessOf element = some access ∧
      (∀ name', getAttribute element.attributes "name" = some name' → name = name') ∧
      ∀ c, (s.memberMap c).filter (fun m => m.2.2 = id) =
        if contextId = c then [(name, access, id)] else []

variable {p : SourceParser} {V : Text → Outcome SourceObject} {s : Representation}
  (hids : IdsMatch p) (hV : IsValue p V)
include hids hV

theorem Built.complete (h : Built p V s) : Complete p s := by
  have hmakes : ∀ id element o, getSourceElement p id = some element → V id = .returned o →
      MadeFor id element.name o ∧ MembersOf p (valueOf p V) id element
        (addedMembers (denoteElement p V element).2) := by
    intro id element o hfind ho
    have hmakes : Makes id element _ (denoteElement p V element) :=
      makes_addElement (hids id element hfind)
    exact (hmakes.returned o ((hV id element hfind).symm.trans ho)).2
  refine ⟨fun id element hfind => ?_, ?_⟩
  · obtain ⟨o, ho⟩ := h.returned id element hfind
    refine ⟨o, (h.objects id o).mpr ⟨id, element, hfind, ?_⟩, (hmakes id element o hfind ho).1⟩
    exact List.mem_append_left _ (registers_self hids hV hfind ho)
  · intro id element contextId contextElement hfind hname hcontext hfindContext hcontextName
    obtain ⟨o, ho⟩ := h.returned id element hfind
    obtain ⟨co, hco⟩ := h.returned contextId contextElement hfindContext
    have hmembers := (hmakes id element o hfind ho).2
    rw [MembersOf, if_pos hname] at hmembers
    obtain ⟨name, access, haccess, hnames, hadded⟩ := hmembers
    have hin : contextIn p (valueOf p V) element = some contextId := by
      have hmade := (hmakes contextId contextElement co hfindContext hco).1
      rw [contextIn, getElement, hcontext, Option.bind_some, hfindContext, Option.bind_some,
        valueOf, hids contextId contextElement hfindContext]
      simp only [hco]
      exact congrArg (Option.map ContextObject.owner) (asContext_of_madeFor hmade hcontextName)
    refine ⟨name, access, haccess, hnames, fun c => ?_⟩
    rw [memberMap_filter, h.changes id element hfind]
    show (addedMembers (denoteElement p V element).2).filterMap (entryOf c) = _
    rw [hadded, hin]
    by_cases hc : contextId = c <;> simp [entryOf, hc]

end Completeness

section Types

def UniqueIds (s : Representation) : Prop :=
  (s.sourceObjects.entries.map Prod.fst).Nodup

theorem uniqueIds_apply (e : Effect) (s : Representation) (h : UniqueIds s) :
    UniqueIds (s.apply e) := by
  cases e with
  | setSourceObject id o => exact StdMap.nodup_assign stringLess_strictTotal h id o
  | change c => exact h

def canCreateType (o : SourceObject) : Bool :=
  match o.asType with
  | none => true
  | some t => (TypeReader.createCxxType t.plain).isSome

variable {s s' : Representation}

theorem createCxxTypes_iff (h : UniqueIds s) :
    s.createCxxTypes = true ↔ ∀ id o, s.getSourceObject id = some o → canCreateType o = true := by
  refine List.all_eq_true.trans ⟨fun hall id o ho => ?_, fun hall entry hentry => ?_⟩
  · exact hall (id, o) (StdMap.mem_of_find stringLess_strictTotal ho)
  · exact hall entry.1 entry.2 (StdMap.find_of_mem stringLess_strictTotal h hentry)

theorem SameRepresentation.createCxxTypes_eq (h : SameRepresentation s s')
    (hs : UniqueIds s) (hs' : UniqueIds s') :
    s'.createCxxTypes = s.createCxxTypes := by
  refine Bool.eq_iff_iff.mpr ?_
  rw [createCxxTypes_iff hs, createCxxTypes_iff hs']
  simp only [h.objects]

theorem finish_eq_returned_iff {r : Run Use Representation Unit} :
    finish r = .returned s ↔
      r.outcome = .returned () ∧ r.state.createCxxTypes = true ∧ r.state = s := by
  unfold finish
  cases r.outcome with
  | crashed => simp
  | failed => simp
  | returned => split_ifs with h <;> simp [h]

end Types

section Order

variable {p : SourceParser} {V : Text → Outcome SourceObject}

/-- The construction that visits the elements in this order. -/
def constructInOrder (p : SourceParser) (fuel : Nat) (elements : List Element) :
    Option (Outcome Representation) := (runElements p fuel elements).map finish

/-- The loop over the elements of a table. -/
theorem exists_run (hids : IdsMatch p) (hplain : PlainIds p) (hreferences : ReferencesExist p)
    (hacyclic : Acyclic p) (hV : IsValue p V) {elements : List Element}
    (helements : ∀ element ∈ elements, ∃ id, getSourceElement p id = some element) :
    ∃ r, (Enough fun fuel => runElements p fuel elements = some r) ∧ Looped p V elements {} r ∧
      UniqueIds r.state := by
  obtain ⟨fuel, hfuel⟩ := runElements_halts hids hacyclic helements
  obtain ⟨r, hr⟩ := hfuel fuel (Nat.le_refl fuel)
  refine ⟨r, ⟨fuel, fun fuel' hle => exec_mono (invoke_mono hle) hr⟩, ?_, ?_⟩
  · have hempty : Consistent p V {} :=
      ⟨fun _ _ h => (by cases h), fun _ _ h => (by cases h), fun _ h => (by cases h)⟩
    have hsettled : SettledIn p V Everywhere {} :=
      fun _ _ _ _ _ => ⟨fun _ h => (by cases h), fun _ => rfl⟩
    exact exec_addElements hids hplain hreferences hacyclic hV helements hempty hsettled hr
  · refine exec_keeps uniqueIds_apply (invoke_keeps uniqueIds_apply fuel) ?_ hr
    exact List.nodup_nil

/-- The construction comes to an end and its result is complete, and visiting the elements in
another order leads to the same result. -/
theorem construction_complete {events : List Event}
    (hrun : SourceParser.run events {} = some p) (hplain : PlainIds p)
    (hreferences : ReferencesExist p) (hacyclic : Acyclic p) (hglobal : OneGlobalNamespace p) :
    ∃ result built, (Enough fun fuel => getSourceRepresentation p fuel = some result ∧
        constructSourceRepresentation p fuel = some built) ∧
      (∀ s, result = .returned s → built = .returned s) ∧
      (∀ s, built = .returned s → Complete p s) ∧
      ∀ elements, elements.Perm (elementsInOrder p) →
        ∃ other, (Enough fun fuel => constructInOrder p fuel elements = some other) ∧
          ((∃ s, other = .returned s) ↔ ∃ s, built = .returned s) ∧
          ∀ s s', built = .returned s → other = .returned s' → SameRepresentation s s' := by
  have hids := idsMatch_run hrun
  obtain ⟨V, hV⟩ := exists_values hids hacyclic
  have hall : ∀ element, element ∈ elementsInOrder p ↔ ∃ id, getSourceElement p id = some element :=
    fun element => mem_elementsInOrder_iff (nodup_run hrun)
  obtain ⟨r, hr, hlooped, hunique⟩ := exists_run hids hplain hreferences hacyclic hV
    fun element => (hall element).mp
  have hbuilt : r.outcome = .returned () → Built p V r.state := built_of_looped hids hall hlooped
  refine ⟨if p.sourceParseError ∨ p.elementMap.entries = [] then .failed else finish r, finish r,
    ?_, fun s hs => ?_, fun s hs => ?_, fun elements hperm => ?_⟩
  · refine hr.mono fun fuel hfuel => ?_
    have hconstruct : constructSourceRepresentation p fuel = some (finish r) :=
      congrArg (Option.map finish) hfuel
    refine ⟨?_, hconstruct⟩
    rw [getSourceRepresentation, hconstruct]
    split_ifs <;> rfl
  · split_ifs at hs
    exact hs
  · obtain ⟨houtcome, -, rfl⟩ := finish_eq_returned_iff.mp hs
    exact (hbuilt houtcome).complete hids hV
  · have hall' : ∀ element, element ∈ elements ↔ ∃ id, getSourceElement p id = some element :=
      fun element => hperm.mem_iff.trans (hall element)
    obtain ⟨r', hr', hlooped', hunique'⟩ := exists_run hids hplain hreferences hacyclic hV
      fun element => (hall' element).mp
    have hsame : r.outcome = .returned () → r'.outcome = .returned () →
        SameRepresentation r.state r'.state := fun h h' =>
      (hbuilt h).same hids (built_of_looped hids hall' hlooped' h') hglobal
    have houtcome : r'.outcome = .returned () ↔ r.outcome = .returned () := by
      rw [hlooped.returned, hlooped'.returned]
      simp only [hall, hall']
    refine ⟨finish r', hr'.mono fun fuel hfuel => congrArg (Option.map finish) hfuel, ?_, ?_⟩
    · simp only [finish_eq_returned_iff, exists_and_left, exists_eq', and_true]
      rw [houtcome]
      refine and_congr_right fun h => ?_
      rw [(hsame h (houtcome.mpr h)).createCxxTypes_eq hunique hunique']
    · intro s s' hs hs'
      obtain ⟨h, -, rfl⟩ := finish_eq_returned_iff.mp hs
      obtain ⟨h', -, rfl⟩ := finish_eq_returned_iff.mp hs'
      exact hsame h h'

end Order

section Tables

/-- Every element refers to elements only that have been added before it. -/
def InOrder (p : SourceParser) : Prop :=
  ∀ entry ∈ p.elementMap.entries, ∀ id ∈ references entry.2,
    (getSourceElement p id).isSome ∧
      (p.elementMap.entries.map Prod.fst).idxOf entry.1 <
        (p.elementMap.entries.map Prod.fst).idxOf id

instance (p : SourceParser) : Decidable (InOrder p) := by unfold InOrder; infer_instance

variable {p : SourceParser} {s : Representation}

theorem referencesExist_of_inOrder (h : InOrder p) : ReferencesExist p :=
  fun id element hfind id' hid' =>
    (h (id, element) (StdMap.mem_of_find stringLess_strictTotal hfind) id' hid').1

theorem acyclic_of_inOrder (h : InOrder p) : Acyclic p := by
  have hstep : ∀ id id', RefersTo p id id' → (p.elementMap.entries.map Prod.fst).idxOf id <
      (p.elementMap.entries.map Prod.fst).idxOf id' := by
    rintro id id' ⟨element, hfind, hid'⟩
    exact (h (id, element) (StdMap.mem_of_find stringLess_strictTotal hfind) id' hid').2
  have hreaches : ∀ id id', Relation.TransGen (RefersTo p) id id' →
      (p.elementMap.entries.map Prod.fst).idxOf id <
        (p.elementMap.entries.map Prod.fst).idxOf id' := by
    intro id id' hreach
    induction hreach with
    | single hrefers => exact hstep _ _ hrefers
    | tail _ hrefers ih => exact ih.trans (hstep _ _ hrefers)
  exact fun id hcycle => Nat.lt_irrefl _ (hreaches id id hcycle)

theorem plainIds_of_entries (h : ∀ entry ∈ p.elementMap.entries, entry.1 ≠ [] ∧
    entry.1.all (!TypeReader.isQualifier ·) ∧
      ∀ entry' ∈ p.elementMap.entries, entry.1 ≠ typeId entry'.1) : PlainIds p := by
  have hmem : ∀ {id element}, getSourceElement p id = some element →
      (id, element) ∈ p.elementMap.entries := StdMap.mem_of_find stringLess_strictTotal
  refine ⟨fun id element hfind => ?_, fun id element hfind => ?_, ?_⟩
  · exact (h _ (hmem hfind)).1
  · intro c hc
    simpa using List.all_eq_true.mp (h _ (hmem hfind)).2.1 c hc
  · exact fun id element id' element' hfind hfind' => (h _ (hmem hfind)).2.2 _ (hmem hfind')

/-- An element of a table, as a document has it. -/
def elementEvents (name id value : String) (atts : Attributes) : List Event :=
  [.startElement name (("id", id.toList) :: ("name", value.toList) :: atts), .endElement name]

/-- A class in the global namespace. -/
def classInNamespace : List Event :=
  elementEvents "Namespace" "_1" "::" [] ++
    elementEvents "Class" "_2" "C" [("context", "_1".toList), ("access", "private".toList)]

theorem construction_complete_classInNamespace :
    ∃ result built, (Enough fun fuel =>
        getSourceRepresentation (parsed classInNamespace) fuel = some result ∧
        constructSourceRepresentation (parsed classInNamespace) fuel = some built) ∧
      (∀ s, result = .returned s → built = .returned s) ∧
      (∀ s, built = .returned s → Complete (parsed classInNamespace) s) ∧
      ∀ elements, elements.Perm (elementsInOrder (parsed classInNamespace)) →
        ∃ other, (Enough fun fuel =>
            constructInOrder (parsed classInNamespace) fuel elements = some other) ∧
          ((∃ s, other = .returned s) ↔ ∃ s, built = .returned s) ∧
          ∀ s s', built = .returned s → other = .returned s' → SameRepresentation s s' := by
  have hinOrder : InOrder (parsed classInNamespace) := by decide
  refine construction_complete (show SourceParser.run classInNamespace {} = some _ from rfl)
    (plainIds_of_entries (by decide)) (referencesExist_of_inOrder hinOrder)
    (acyclic_of_inOrder hinOrder) ?_
  have hnames : ∀ id element, getSourceElement (parsed classInNamespace) id = some element →
      NamesGlobal element → id = "_1".toList := by
    intro id element hfind hnames
    rcases List.mem_pair.mp (StdMap.mem_of_find stringLess_strictTotal hfind) with h | h
    · obtain ⟨rfl, rfl⟩ := Prod.mk.inj h
      exact absurd hnames.1 (by decide)
    · exact (Prod.mk.inj h).1
  intro id element id' element' hfind hfind' hglobal hglobal'
  rw [hnames id element hfind hglobal, hnames id' element' hfind' hglobal']

/-- The context of a class is an alias. -/
def classInAlias : List Event :=
  elementEvents "Namespace" "_1" "n" [] ++
    elementEvents "NamespaceAlias" "_2" "a" [("namespace", "_1".toList)] ++
    elementEvents "Class" "_3" "C" [("context", "_2".toList)]

example : (runElements (parsed classInAlias) 3 (elementsInOrder (parsed classInAlias))).map
    (fun r => (r.state.memberMap "_1".toList, r.state.memberMap "_2".toList)) =
      some ([("C".toList, .Public, "_3".toList)], []) := rfl

/-- The id of a namespace is the one that is made up for the type of a class. -/
def madeUpId : List Event :=
  elementEvents "Class" "_1" "C" [] ++ elementEvents "Namespace" "_1_t" "n" [] ++
    elementEvents "Class" "_2" "D" [("context", "_1_t".toList)]

/-- The id of a namespace is also that of a type with qualifiers. -/
def qualifiedId : List Event :=
  elementEvents "FundamentalType" "_1" "int" [] ++
    elementEvents "PointerType" "_1a" "" [("type", "_1c".toList)] ++
    elementEvents "Namespace" "_1c" "n" [] ++
    elementEvents "Class" "_2" "D" [("context", "_1c".toList)]

/-- The id of a type, with qualifiers, is the one that is made up for the constructors. -/
def emptyId : List Event :=
  elementEvents "FundamentalType" "" "int" [] ++
    elementEvents "PointerType" "_1" "" [("type", "crt".toList)] ++
    elementEvents "Constructor" "_2" "C" []

def twoGlobalNamespaces : List Event :=
  elementEvents "Namespace" "_1" "::" [] ++ elementEvents "Namespace" "_2" "::" []

/-- A member that has not been added. -/
theorem not_complete_of_missing {id contextId : Text} {element contextElement : Element}
    (hfind : getSourceElement p id = some element) (hname : element.name ∈ namedElements)
    (hcontext : getAttribute element.attributes "context" = some contextId)
    (hfindContext : getSourceElement p contextId = some contextElement)
    (hcontextName : contextElement.name ∈ contextElements) (hmissing : s.memberMap contextId = []) :
    ¬ Complete p s := by
  intro h
  obtain ⟨name, access, -, -, hmembers⟩ :=
    h.members id element contextId contextElement hfind hname hcontext hfindContext hcontextName
  have hone := hmembers contextId
  rw [hmissing, if_pos rfl] at hone
  cases hone

/-- The references of the document exist and do not lead back, but the result is not complete. -/
def Incomplete (events : List Event) : Prop :=
  ∃ p, SourceParser.run events {} = some p ∧ ReferencesExist p ∧ Acyclic p ∧
    ∃ fuel s, getSourceRepresentation p fuel = some (.returned s) ∧ ¬ Complete p s

/-- The references of the document exist and do not lead back, but the result is another one in
another order. -/
def OrderMatters (events : List Event) : Prop :=
  ∃ p, SourceParser.run events {} = some p ∧ ReferencesExist p ∧ Acyclic p ∧
    ∃ fuel elements s s', elements.Perm (elementsInOrder p) ∧
      constructSourceRepresentation p fuel = some (.returned s) ∧
      constructInOrder p fuel elements = some (.returned s') ∧ ¬ SameRepresentation s s'

/-- The qualifiers of the type that a function returns. -/
def returnQualifiers : Option SourceObject → CxxTypes.Quals
  | some (.function _ _ (.functionType (.fundamentalType _ quals) _ _) _) => quals
  | _ => ⊥

theorem incomplete_of_special_ids :
    Incomplete madeUpId ∧ Incomplete qualifiedId ∧ OrderMatters emptyId ∧
      OrderMatters twoGlobalNamespaces := by
  have hmadeUp : InOrder (parsed madeUpId) := by decide
  have hqualified : InOrder (parsed qualifiedId) := by decide
  have hempty : InOrder (parsed emptyId) := by decide
  have hglobals : InOrder (parsed twoGlobalNamespaces) := by decide
  refine ⟨⟨_, rfl, referencesExist_of_inOrder hmadeUp, acyclic_of_inOrder hmadeUp, ?_⟩,
    ⟨_, rfl, referencesExist_of_inOrder hqualified, acyclic_of_inOrder hqualified, ?_⟩,
    ⟨_, rfl, referencesExist_of_inOrder hempty, acyclic_of_inOrder hempty, ?_⟩,
    ⟨_, rfl, referencesExist_of_inOrder hglobals, acyclic_of_inOrder hglobals, ?_⟩⟩
  · refine ⟨2, _, rfl, not_complete_of_missing (show getSourceElement _ "_2".toList = _ from rfl)
      ?_ rfl rfl ?_ rfl⟩
    · decide
    · decide
  · refine ⟨3, _, rfl, not_complete_of_missing (show getSourceElement _ "_2".toList = _ from rfl)
      ?_ rfl rfl ?_ rfl⟩
    · decide
    · decide
  · refine ⟨4, (elementsInOrder (parsed emptyId)).reverse, _, _, List.reverse_perm _, rfl, rfl, ?_⟩
    intro h
    exact absurd (congrArg returnQualifiers (h.objects "_2".toList)) (by decide)
  · refine ⟨4, (elementsInOrder (parsed twoGlobalNamespaces)).reverse, _, _, List.reverse_perm _,
      rfl, rfl, ?_⟩
    exact fun h => absurd h.globalNamespaceId (by decide)

end Tables

end CableSwig.Parsers.ConstructionOrder
