import CableSwig.GccXml.DumpLoop
import CableSwig.GccXml.OutputFunctions
import Mathlib.Data.Fintype.Card
import Mathlib.Data.Set.Card

/-!
# Complete nodes asked for while incomplete ones are dumped

Output functions pass on the completeness of the node they print, with one exception:
`xml_print_overrides_r` always asks for a complete function. Whether the second run of
the dump loop keeps to incomplete nodes therefore depends on which functions the
virtual functions met in it override.
-/
namespace CableSwig.GccXml.IncompletePhase

open CableSwig.Lib.SplayTree
open CableSwig.GccXml.DumpQueue
open CableSwig.GccXml.DumpLoop
open CableSwig.GccXml.OutputFunctions

variable {τ : Type} [LinearOrder τ]

/-- The dump of a translation unit from the declarations chosen to start with. -/
def dumper (g : TreeGraph τ) (starts : List τ) : Dumper τ where
  starts := starts.flatMap fun n => (g.addNode n true).1
  callback _ n complete := realCalls g n complete

section Reach

variable (g : TreeGraph τ) (starts : List τ)

/-- Nodes asked for as complete by a starting point or by the output function of such a node. -/
inductive MetComplete : τ → Prop
  | start {n : τ} : (n, true) ∈ (dumper g starts).starts → MetComplete n
  | member {t n : τ} : MetComplete t → (n, true) ∈ realCalls g t true → MetComplete n

/-- Nodes asked for at all, when those not met as complete are dumped as incomplete. -/
inductive Met : τ → Prop
  | start {n : τ} {b : Bool} : (n, b) ∈ (dumper g starts).starts → Met n
  | complete {t n : τ} {b : Bool} : MetComplete g starts t → (n, b) ∈ realCalls g t true → Met n
  | incomplete {t n : τ} {b : Bool} : Met t → ¬MetComplete g starts t →
      (n, b) ∈ realCalls g t false → Met n

/-- The functions overridden by virtual functions that are only met as incomplete are
themselves met as complete. -/
def OverriddenComplete : Prop :=
  ∀ t, Met g starts t → ¬MetComplete g starts t → ∀ fn ∈ overriddenFunctions g t,
    MetComplete g starts fn

/-- From `r₁` to `r₂`, every call of `xml_add_node` with `complete = 1` was on a node dumped
complete before, the diagnostic was not issued, and no node was dumped twice. -/
structure Clean (r₁ r₂ : Run τ) : Prop where
  calls : ∀ e ∈ r₂.info.file.drop r₁.info.file.length, ∀ n,
    (n, true) ∈ dumpTreeNode g e.node e.complete →
    ∃ e₁ ∈ r₁.info.file, e₁.node = n ∧ e₁.complete = true
  errors : r₂.info.errors = []
  nodup : (r₂.info.file.map Element.node).Nodup

/-- The second run of the dump loop ends and was clean. -/
def SecondRunClean : Prop :=
  ∃ r₁ refs r₂, (∃ bound, ∀ fuel, bound < fuel →
      dumpComplete (dumper g starts) fuel = some (r₁, refs) ∧
      xmlDump (dumper g starts) fuel r₁ = some r₂) ∧ Clean g r₁ r₂

end Reach

theorem MetComplete.met {g : TreeGraph τ} {starts : List τ} {n : τ}
    (h : MetComplete g starts n) : Met g starts n := by
  cases h with
  | start h => exact .start h
  | member ht h => exact .complete ht h

section Phases

variable [Fintype τ] (g : TreeGraph τ) (starts : List τ)

open Classical in
/-- Nodes are bounded by the graph, and complete dumps by what is met as complete. -/
noncomputable def discipline : Discipline τ where
  toDumper := dumper g starts
  nodes := Finset.univ.filter (Met g starts)
  full := MetComplete g starts
  starts_mem c hc := by
    have hmet : Met g starts c.1 := .start (b := c.2) hc
    refine ⟨by simpa using hmet, fun hcc => .start ?_⟩
    rwa [show (c.1, true) = c from Prod.ext rfl hcc.symm]
  callback_mem xdi t _ hfull c hc := by
    have hmet : Met g starts c.1 := .complete (b := c.2) hfull hc
    refine ⟨by simpa using hmet, fun hcc => .member hfull ?_⟩
    rwa [show (c.1, true) = c from Prod.ext rfl hcc.symm]

variable {g starts}

theorem mem_nodes {t : τ} : t ∈ (discipline g starts).nodes ↔ Met g starts t := by
  simp [discipline]

theorem card_nodes : (discipline g starts).nodes.card = {t | Met g starts t}.ncard := by
  rw [← Set.ncard_coe_finset]
  congr 1
  ext t
  exact mem_nodes

variable {refs : List (Reference τ)} {due : τ → Prop} {ts : List τ} {r : Run τ}

theorem isComplete_of_call (h : Ready (discipline g starts) refs due ts r) {n : τ}
    {c : Reference τ} (hc : c ∈ callsMade refs r.info) (hn : Reference.call c = (n, true)) :
    IsComplete r.info n := by
  obtain ⟨rfl, hcc⟩ := Prod.mk.inj hn
  obtain ⟨dn, hdn, -⟩ := h.indexed.asked c hc
  exact ⟨dn, hdn, (h.indexed.complete_iff _ dn hdn).mpr ⟨c, hc, rfl, hcc⟩⟩

theorem mem_keys_of_call (h : Ready (discipline g starts) refs due ts r) {n : τ} {b : Bool}
    {c : Reference τ} (hc : c ∈ callsMade refs r.info) (hn : Reference.call c = (n, b)) :
    n ∈ r.info.dumpNodes.keys := by
  obtain ⟨rfl, -⟩ := Prod.mk.inj hn
  obtain ⟨dn, hdn, -⟩ := h.indexed.asked c hc
  exact Tree.mem_keys_of_lookup hdn

/-- An element of the file made the calls of its output function. -/
theorem call_of_element (h : Ready (discipline g starts) refs due ts r) {e : Element τ}
    (he : e ∈ r.info.file) {n : τ} {b : Bool} (hn : (n, b) ∈ realCalls g e.node e.complete) :
    ∃ c ∈ callsMade refs r.info, Reference.call c = (n, b) := by
  obtain ⟨info, -, hmap⟩ := h.written e he
  have hmem : (n, b) ∈ e.references.map Reference.call := by
    rw [hmap]
    exact hn
  obtain ⟨c, hc, hcall⟩ := List.mem_map.mp hmem
  exact ⟨c, List.mem_append_right _ (List.mem_flatMap.mpr ⟨e, he, hc⟩), hcall⟩

omit [Fintype τ] in
theorem call_of_start (hrefs : refs.map Reference.call = (dumper g starts).starts)
    {n : τ} {b : Bool} (hn : (n, b) ∈ (dumper g starts).starts) :
    ∃ c ∈ callsMade refs r.info, Reference.call c = (n, b) := by
  rw [← hrefs] at hn
  obtain ⟨c, hc, hcall⟩ := List.mem_map.mp hn
  exact ⟨c, List.mem_append_left _ hc, hcall⟩

/-- The first run dumps as complete exactly the nodes met as complete: by induction on how
a node was met. -/
theorem isComplete_iff_metComplete (h : Ready (discipline g starts) refs due ts r)
    (hrefs : refs.map Reference.call = (dumper g starts).starts)
    (hfile : ∀ e ∈ r.info.file, e.complete = true)
    (hdumped : ∀ n, IsComplete r.info n ↔ n ∈ r.info.file.map Element.node) (n : τ) :
    IsComplete r.info n ↔ MetComplete g starts n := by
  constructor
  · exact fun hn => h.full_of_isComplete hn
  · intro hn
    induction hn with
    | start hn =>
      obtain ⟨c, hc, hcall⟩ := call_of_start (r := r) hrefs hn
      exact isComplete_of_call h hc hcall
    | @member t n _ hn ih =>
      obtain ⟨e, he, rfl⟩ := List.mem_map.mp ((hdumped t).mp ih)
      rw [← hfile e he] at hn
      obtain ⟨c, hc, hcall⟩ := call_of_element h he hn
      rw [hfile e he] at hcall
      exact isComplete_of_call h hc hcall

/-- What the first run leaves to the second one. -/
structure Between (g : TreeGraph τ) (starts : List τ) (refs : List (Reference τ)) (ts : List τ)
    (r : Run τ) : Prop where
  ready : Ready (discipline g starts) refs (dueIn r.info) ts r
  phase : r.info.requireComplete = false
  starts_eq : refs.map Reference.call = (dumper g starts).starts
  complete_iff : ∀ n, IsComplete r.info n ↔ MetComplete g starts n

variable (g starts) in
theorem dumpComplete_between (hfew : (discipline g starts).nodes.card < 2 ^ 32) :
    ∃ r refs ts, (∀ fuel, (discipline g starts).nodes.card < fuel →
        dumpComplete (dumper g starts) fuel = some (r, refs)) ∧ Between g starts refs ts r ∧
      (∀ e ∈ r.info.file, e.complete = true) ∧
      ∀ n, MetComplete g starts n ↔ n ∈ r.info.file.map Element.node := by
  obtain ⟨r, refs, ts, hrun, hrefs, h, hphase, hfile, hdumped⟩ :=
    dumpComplete_ready (discipline g starts) hfew
  have hiff := isComplete_iff_metComplete h hrefs hfile hdumped
  exact ⟨r, refs, ts, hrun, ⟨h, hphase, hrefs, hiff⟩, hfile,
    fun n => (hiff n).symm.trans (hdumped n)⟩

/-- In a finished second run every node met has been dumped: by induction on how it was met. -/
theorem dumped_of_met {r₁ r₂ : Run τ} (h₁ : Between g starts refs ts r₁)
    (h : Finished (discipline g starts) refs r₁ r₂) {t : τ} (ht : Met g starts t) :
    t ∈ r₂.info.file.map Element.node := by
  have hcomplete : ∀ n, IsComplete r₂.info n ↔ MetComplete g starts n :=
    fun n => (h.isComplete_iff h₁.phase n).trans (h₁.complete_iff n)
  have hdumped : ∀ n ∈ r₂.info.dumpNodes.keys, n ∈ r₂.info.file.map Element.node := by
    intro n hn
    obtain ⟨dn, hdn⟩ := Tree.exists_lookup hn
    have hmem := (h.ready.scheduled.mem_iff n dn hdn).mpr
      (Or.inr (h.requireComplete.trans h₁.phase))
    rwa [List.append_nil] at hmem
  have helement : ∀ e ∈ r₂.info.file, (e.complete = true ↔ MetComplete g starts e.node) := by
    intro e he
    have hw := (h.ready.scheduled.written e he).2
    rw [← hcomplete]
    constructor
    · exact fun hc => ⟨_, hw, hc⟩
    · rintro ⟨dn, hdn, hc⟩
      rw [hw, Option.some.injEq] at hdn
      rwa [← hdn] at hc
  induction ht with
  | start hn =>
    obtain ⟨c, hc, hcall⟩ := call_of_start (r := r₂) h₁.starts_eq hn
    exact hdumped _ (mem_keys_of_call h.ready hc hcall)
  | @complete t n b ht hn =>
    obtain ⟨dn, hdn, hc⟩ := (hcomplete t).mpr ht
    obtain ⟨e, he, rfl⟩ := List.mem_map.mp (hdumped t (Tree.mem_keys_of_lookup hdn))
    rw [← (helement e he).mpr ht] at hn
    obtain ⟨c, hc, hcall⟩ := call_of_element h.ready he hn
    exact hdumped _ (mem_keys_of_call h.ready hc hcall)
  | @incomplete t n b _ ht hn ih =>
    obtain ⟨e, he, rfl⟩ := List.mem_map.mp ih
    have hinc : e.complete = false := by
      rw [← Bool.not_eq_true, helement e he]
      exact ht
    rw [← hinc] at hn
    obtain ⟨c, hc, hcall⟩ := call_of_element h.ready he hn
    exact hdumped _ (mem_keys_of_call h.ready hc hcall)

/-- A node met as incomplete whose overridden functions are complete keeps the discipline. -/
theorem obeys_of_overridden {t : τ} (hcomplete : ∀ n, IsComplete r.info n ↔ MetComplete g starts n)
    (ht : Met g starts t) (hnot : ¬MetComplete g starts t)
    (hover : ∀ fn ∈ overriddenFunctions g t, MetComplete g starts fn) :
    Obeys (discipline g starts) r t := by
  intro _ xdi c hc
  refine ⟨mem_nodes.mpr (.incomplete (b := c.2) ht hnot hc), fun hcc => ?_⟩
  rw [hcomplete]
  have hc : (c.1, true) ∈ realCalls g t false := by
    rw [← hcc]
    exact hc
  exact hover c.1 (realCalls_incomplete g hc)

/-- A finished second run was clean if the overridden functions were complete. -/
theorem clean_of_finished {r₁ r₂ : Run τ} (h₁ : Between g starts refs ts r₁)
    (hdumped : ∀ n, MetComplete g starts n ↔ n ∈ r₁.info.file.map Element.node)
    (hfile : ∀ e ∈ r₁.info.file, e.complete = true)
    (h : Finished (discipline g starts) refs r₁ r₂) (hover : OverriddenComplete g starts) :
    Clean g r₁ r₂ := by
  have hnodup : (r₂.info.file.map Element.node).Nodup := by
    have := h.ready.scheduled.nodup
    rwa [List.append_nil] at this
  refine ⟨?_, h.ready.errors, hnodup⟩
  obtain ⟨es, hes, hinc⟩ := h.elements
  intro e he n hn
  rw [hes, List.drop_left] at he
  rw [hinc e he, h₁.phase, dumpTreeNode_incomplete] at hn
  have hmem : e ∈ r₂.info.file := by
    rw [hes]
    exact List.mem_append_right _ he
  have hmet : Met g starts e.node := mem_nodes.mp
    (h.ready.indexed.bounded _ (Tree.mem_keys_of_lookup (h.ready.scheduled.written e hmem).2))
  have hnot : ¬MetComplete g starts e.node := by
    rw [hdumped]
    intro hmem₁
    rw [hes, List.map_append, List.nodup_append] at hnodup
    exact hnodup.2.2 _ hmem₁ _ (List.mem_map_of_mem he) rfl
  obtain ⟨e₁, he₁, hnode⟩ := List.mem_map.mp ((hdumped n).mp (hover e.node hmet hnot n hn))
  exact ⟨e₁, he₁, hnode, hfile e₁ he₁⟩

/-- A second run that ends has either kept the discipline or dumped a virtual function with an
overridden function that was never met as complete: by induction on its rounds. -/
theorem finished_or_violated (fuel : Nat) : ∀ {ts : List τ} {r r₂ : Run τ},
    Between g starts refs ts r → xmlDump (dumper g starts) fuel r = some r₂ →
    Finished (discipline g starts) refs r r₂ ∨
      ∃ e ∈ r₂.info.file.drop r.info.file.length, e.complete = false ∧
        ∃ fn ∈ overriddenFunctions g e.node, ¬MetComplete g starts fn := by
  induction fuel with
  | zero =>
    intro ts r r₂ _ hrun
    simp [xmlDump] at hrun
  | succ fuel ih =>
    intro ts r r₂ h hrun
    cases ts with
    | nil =>
      have hdone := xmlDump_done h.ready (Nat.zero_lt_succ fuel)
      obtain rfl := Option.some.inj (hdone.symm.trans hrun)
      exact Or.inl ⟨h.ready, rfl, fun _ _ => Iff.rfl, [], by simp, by simp⟩
    | cons t ts =>
      obtain ⟨dn, hdn⟩ := Tree.exists_lookup (h.ready.scheduled.known t (by simp))
      have hwaits := h.ready.scheduled.waits t List.mem_cons_self dn hdn
      have hdnc : dn.complete = false := by
        rw [← Bool.not_eq_true, hwaits]
        exact not_not_intro h.phase
      have hmet : Met g starts t := mem_nodes.mp
        (h.ready.indexed.bounded t (Tree.mem_keys_of_lookup hdn))
      have hnot : ¬MetComplete g starts t := by
        rw [← h.complete_iff]
        rintro ⟨dn', hdn', hc⟩
        rw [hdn, Option.some.injEq] at hdn'
        rw [← hdn', hdnc] at hc
        exact absurd hc (by decide)
      by_cases hover : ∀ fn ∈ overriddenFunctions g t, MetComplete g starts fn
      · obtain ⟨r₁, ts₁, e, hround, h₁, hfile, -, hec, hphase, hcomplete⟩ :=
          xmlDump_round h.ready (obeys_of_overridden h.complete_iff hmet hnot hover)
        have hrun₁ : xmlDump (dumper g starts) fuel r₁ = some r₂ := (hround fuel).symm.trans hrun
        have hbetween : Between g starts refs ts₁ r₁ :=
          ⟨h₁, hphase.trans h.phase, h.starts_eq,
            fun n => (hcomplete h.phase n).trans (h.complete_iff n)⟩
        rcases ih hbetween hrun₁ with hfin | ⟨e', he', hviolated⟩
        · obtain ⟨es, hes, hesc⟩ := hfin.elements
          refine Or.inl ⟨hfin.ready, hfin.requireComplete.trans hphase, fun hp n => ?_,
            e :: es, ?_, ?_⟩
          · exact (hfin.isComplete_iff (hphase.trans hp) n).trans (hcomplete hp n)
          · rw [hes, hfile, List.append_assoc, List.singleton_append]
          · intro e' he'
            rcases List.mem_cons.mp he' with rfl | he'
            · exact hec
            · rw [hesc e' he', hphase]
        · refine Or.inr ⟨e', ?_, hviolated⟩
          obtain ⟨es, hes⟩ := xmlDump_prefix fuel hrun₁
          rw [hes, List.drop_left] at he'
          rw [hes, hfile, List.append_assoc, List.drop_left]
          exact List.mem_append_right _ he'
      · rw [not_forall] at hover
        obtain ⟨fn, hfn⟩ := hover
        rw [Classical.not_imp] at hfn
        obtain ⟨dq, link, q, hqueue, htake, -⟩ := Queue.takeEntry_holds h.ready.scheduled.holds
        obtain ⟨cell, q', dn', r₁, htake', hdn', htree, hrest⟩ := xmlDump_succ hqueue hrun
        obtain ⟨rfl, rfl⟩ := Prod.mk.inj (Option.some.inj (htake.symm.trans htake'))
        obtain rfl := Option.some.inj (hdn.symm.trans hdn')
        obtain ⟨references, hfile⟩ := xmlDumpTreeNode_file htree
        obtain ⟨es, hes⟩ := xmlDump_prefix fuel hrest
        refine Or.inr ⟨⟨t, dn.index, dn.complete, references⟩, ?_, hdnc, fn, hfn⟩
        rw [hes, hfile, List.append_assoc]
        simp [Run.to]

/-- A clean second run shows that the overridden functions were complete. -/
theorem overriddenComplete_of_clean (hfew : (discipline g starts).nodes.card < 2 ^ 32)
    (h : SecondRunClean g starts) : OverriddenComplete g starts := by
  obtain ⟨r₁, refs, r₂, ⟨bound, hrun⟩, hclean⟩ := h
  obtain ⟨r, refs', ts, hrun', h₁, -, hdumped⟩ := dumpComplete_between g starts hfew
  let fuel := bound + (discipline g starts).nodes.card + 1
  obtain ⟨hcomplete, hdump⟩ := hrun fuel (by omega)
  obtain ⟨rfl, rfl⟩ := Prod.mk.inj
    (Option.some.inj (hcomplete.symm.trans (hrun' fuel (by omega))))
  have hno : ∀ e ∈ r₂.info.file.drop r₁.info.file.length, e.complete = false →
      ∀ fn ∈ overriddenFunctions g e.node, MetComplete g starts fn := by
    intro e he hinc fn hfn
    rw [← dumpTreeNode_incomplete, ← hinc] at hfn
    obtain ⟨e₁, he₁, rfl, -⟩ := hclean.calls e he fn hfn
    exact (hdumped _).mpr (List.mem_map_of_mem he₁)
  rcases finished_or_violated fuel h₁ hdump with hfin | ⟨e, he, hinc, fn, hfn, hviolated⟩
  · intro t ht hnot fn hfn
    obtain ⟨e, he, rfl⟩ := List.mem_map.mp (dumped_of_met h₁ hfin ht)
    obtain ⟨es, hes, hesc⟩ := hfin.elements
    rw [hes] at he
    rcases List.mem_append.mp he with he | he
    · exact absurd ((hdumped _).mpr (List.mem_map_of_mem he)) hnot
    · refine hno e ?_ ((hesc e he).trans h₁.phase) fn hfn
      rw [hes, List.drop_left]
      exact he
  · exact absurd (hno e he hinc fn hfn) hviolated

variable (g starts) in
/-- The second run of the dump loop ends and never asks for a node that is not yet dumped
complete, exactly if no virtual function met only as incomplete overrides a function that
is not met as complete. There must be an index for each node that is met. -/
theorem second_run_clean_iff (hfew : {t | Met g starts t}.ncard < 2 ^ 32) :
    SecondRunClean g starts ↔ OverriddenComplete g starts := by
  rw [← card_nodes] at hfew
  refine ⟨overriddenComplete_of_clean hfew, fun hover => ?_⟩
  obtain ⟨r₁, refs, ts, hrun, h₁, hfile, hdumped⟩ := dumpComplete_between g starts hfew
  obtain ⟨r₂, hdump, hfin⟩ := xmlDump_finished (discipline g starts).nodes.card
    (Nat.sub_le _ _) h₁.ready (by
      intro t ht hnot
      rw [h₁.complete_iff] at hnot
      exact obeys_of_overridden h₁.complete_iff (mem_nodes.mp ht) hnot
        (hover t (mem_nodes.mp ht) hnot))
  exact ⟨r₁, refs, r₂, ⟨_, fun fuel hf => ⟨hrun fuel hf, hdump fuel hf⟩⟩,
    clean_of_finished h₁ hdumped hfile hfin hover⟩

end Phases

/-- The dump of `class G; struct A { virtual void f(); }; struct B : A { virtual void f() {
struct L { friend class ::G; }; } };` started at `G`. The friend leads to `L`, the context of
`L` to `B::f`, and what `B::f` overrides to `A::f`. -/
def localFriendTrees : Trees (Fin 14) where
  tree n := List.getD
    [ .namespaceDecl { allDecls := [2, 10, 7] },
      .type { mainVariant := 1, name := some 2,
              shape := .record { complete := false, context := some 0, befriending := [3] } },
      .typeDecl { context := some 0, type := 1, implicitTypedef := true },
      .type { mainVariant := 3, name := some 4, shape := .record { context := some 5 } },
      .typeDecl { context := some 5, type := 3, implicitTypedef := true },
      .functionDecl { functionMember := true, nonstaticMember := true, virtual := true,
                      context := some 6, returnType := 11, argTypes := [13] },
      .type { mainVariant := 6, name := some 7,
              shape := .record { polymorphic := true, context := some 0, methods := [5],
                                 bases := [9] } },
      .typeDecl { context := some 0, type := 6, implicitTypedef := true },
      .functionDecl { functionMember := true, nonstaticMember := true, virtual := true,
                      context := some 9, returnType := 11, argTypes := [13] },
      .type { mainVariant := 9, name := some 10,
              shape := .record { polymorphic := true, context := some 0, methods := [8] } },
      .typeDecl { context := some 0, type := 9, implicitTypedef := true },
      .type { mainVariant := 11, name := some 12, shape := .fundamental },
      .typeDecl { type := 11 },
      .type { mainVariant := 13, shape := .pointer 6 } ] n.val .other
  sourceLine n := if n.val = 12 then some 0 else some 1
  artificial n := n.val = 12
  globalNamespace := 0
  overridesHere type fndecl := if type.val = 9 ∧ fndecl.val = 5 then some 8 else none

def localFriend : TreeGraph (Fin 14) where
  toTrees := localFriendTrees
  depth := 3
  add_isSome := by decide
  overrides_isSome := by decide
  overridesHere_isFunctionDecl := by decide

theorem few_localFriend : {t | Met localFriend [2] t}.ncard < 2 ^ 32 := by
  have hcard := Set.ncard_le_card {t | Met localFriend [2] t}
  rw [Nat.card_eq_fintype_card, Fintype.card_fin] at hcard
  omega

theorem second_run_clean_iff_localFriend :
    SecondRunClean localFriend [2] ↔ OverriddenComplete localFriend [2] :=
  second_run_clean_iff localFriend [2] few_localFriend

theorem metComplete_localFriend {n : Fin 14} (h : MetComplete localFriend [2] n) : n = 1 := by
  have hstart : ∀ n, (n, true) ∈ (dumper localFriend [2]).starts → n = 1 := by decide
  have hmember : ∀ n, (n, true) ∉ realCalls localFriend 1 true := by decide
  induction h with
  | start h => exact hstart _ h
  | @member t n _ hn ih =>
    subst ih
    exact absurd hn (hmember n)

/-- `A::f` is asked for as complete while `B::f` is dumped as incomplete. -/
theorem second_run_not_clean : ¬SecondRunClean localFriend [2] := by
  intro h
  have hG : MetComplete localFriend [2] 1 := .start (by decide)
  have hL : Met localFriend [2] 3 := .complete (b := false) hG (by decide)
  have hBf : Met localFriend [2] 5 :=
    .incomplete (b := false) hL (fun h => absurd (metComplete_localFriend h) (by decide))
      (by decide)
  have hfew := few_localFriend
  rw [← card_nodes] at hfew
  have hAf := overriddenComplete_of_clean hfew h 5 hBf
    (fun h => absurd (metComplete_localFriend h) (by decide)) 8 (by decide)
  exact absurd (metComplete_localFriend hAf) (by decide)

example : (doXmlOutput (dumper localFriend [2]) 10).map (fun r => r.1.info.errors) =
    some ["XML dump bug: complete node added during incomplete phase.\n"] := by decide

end CableSwig.GccXml.IncompletePhase
