import CableSwig.GccXml.DumpLoop
import Mathlib.Data.Fintype.Basic

/-!
# Every referenced node is dumped exactly once

The two runs of the dump loop together, for any reference graph whose incomplete nodes
only ask for incomplete ones, as long as there are indices for all nodes.
-/
namespace CableSwig.GccXml.ReferencesDumped

open CableSwig.Lib.SplayTree
open CableSwig.GccXml.DumpQueue
open CableSwig.GccXml.DumpLoop

variable {τ : Type} [LinearOrder τ]

/-- A dump over finitely many nodes, in which the output functions of incomplete nodes
only ask for incomplete ones. -/
structure ReferenceGraph (τ : Type) [LinearOrder τ] extends Dumper τ where
  nodes : Finset τ
  starts_mem : ∀ c ∈ starts, c.1 ∈ nodes
  callback_mem : ∀ xdi, ∀ t ∈ nodes, ∀ complete, ∀ c ∈ callback xdi t complete, c.1 ∈ nodes
  callback_incomplete : ∀ xdi t, ∀ c ∈ callback xdi t false, c.2 = false

/-- Any node may be asked for as complete. -/
def ReferenceGraph.discipline (g : ReferenceGraph τ) : Discipline τ where
  toDumper := g.toDumper
  nodes := g.nodes
  full _ := True
  starts_mem c hc := ⟨g.starts_mem c hc, fun _ => trivial⟩
  callback_mem xdi t ht _ c hc := ⟨g.callback_mem xdi t ht true c hc, fun _ => trivial⟩

/-- The whole output terminates with nothing waiting and every node due. -/
theorem doXmlOutput_ready (g : ReferenceGraph τ) (hfew : g.nodes.card < 2 ^ 32) :
    ∃ r starts, (∀ fuel, g.nodes.card < fuel → doXmlOutput g.toDumper fuel = some (r, starts)) ∧
      starts.map Reference.call = g.starts ∧ Ready g.discipline starts (fun _ => True) [] r := by
  obtain ⟨r₁, starts, ts, hcomplete, hmap, h₁, hphase, -, -⟩ :=
    dumpComplete_ready g.discipline hfew
  obtain ⟨r₂, hdump, hfin⟩ := xmlDump_finished g.nodes.card (Nat.sub_le _ _) h₁ (by
    intro t ht _ _ xdi c hc
    refine ⟨g.callback_mem xdi t ht false c hc, fun hcc => ?_⟩
    rw [g.callback_incomplete xdi t c hc] at hcc
    exact absurd hcc (by decide))
  refine ⟨r₂, starts, fun fuel hf => ?_, hmap, ?_⟩
  · have hcomplete : dumpComplete g.toDumper fuel = some (r₁, starts) := hcomplete fuel hf
    have hdump : xmlDump g.toDumper fuel r₁ = some r₂ := hdump fuel hf
    simp only [doXmlOutput, hcomplete, Option.bind_eq_bind, Option.bind_some, hdump]
    rfl
  · have hdue : dueIn r₂.info = fun _ => True := by
      funext t
      simp [dueIn, hfin.requireComplete, hphase]
    exact hdue ▸ hfin.ready

/-- When nothing waits and every node is due, the file has one element for each entry of the
splay tree. -/
theorem file_perm_toList {g : Discipline τ} {starts : List (Reference τ)} {r : Run τ}
    (h : Ready g starts (fun _ => True) [] r) :
    (r.info.file.map fun e => (e.node, DumpNode.mk e.index e.complete)).Perm
      r.info.dumpNodes.toList := by
  have hnodup : (r.info.file.map Element.node).Nodup := by
    have := h.scheduled.nodup
    rwa [List.append_nil] at this
  rw [List.perm_ext_iff_of_nodup _ r.info.dumpNodes.toList_nodup]
  · rintro ⟨t, dn⟩
    rw [Tree.mem_toList, List.mem_map]
    constructor
    · rintro ⟨e, he, heq⟩
      obtain ⟨rfl, rfl⟩ := Prod.mk.inj heq
      exact (h.scheduled.written e he).2
    · intro ht
      have hmem := (h.scheduled.mem_iff t dn ht).mpr (Or.inr trivial)
      rw [List.append_nil] at hmem
      obtain ⟨e, he, rfl⟩ := List.mem_map.mp hmem
      have hw := (h.scheduled.written e he).2
      rw [ht, Option.some.injEq] at hw
      exact ⟨e, he, by rw [hw]⟩
  · apply List.Nodup.of_map Prod.fst
    rwa [List.map_map]

/-- No two elements of the file have one index. -/
theorem file_index_nodup {g : Discipline τ} {starts : List (Reference τ)} {r : Run τ}
    (h : Ready g starts (fun _ => True) [] r) : (r.info.file.map Element.index).Nodup := by
  have hperm : (r.info.file.map Element.index).Perm
      (List.range' 1 r.info.dumpNodes.toList.length) := by
    refine List.Perm.trans ?_ h.indexed.indices
    have hmap := (file_perm_toList h).map fun n => n.2.index
    rwa [List.map_map] at hmap
  exact hperm.nodup_iff.mpr (List.nodup_range' 1 (by decide))

/-- What the output is to be. The indices are `1 … next_index - 1`, each node that was given one
is dumped exactly once and as complete as it was asked for, each reference names exactly one
element of the file, and the links were well formed all along. -/
structure DumpedOnce (d : Dumper τ) (starts : List (Reference τ)) (r : Run τ) : Prop where
  starts_eq : starts.map Reference.call = d.starts
  calls : ∀ e ∈ r.info.file, ∃ info ∈ r.visited,
    e.references.map Reference.call = d.callback info e.node e.complete
  indices : (r.info.dumpNodes.toList.map fun n => n.2.index).Perm
    (List.range' 1 r.info.lastIndex)
  dumped : (r.info.file.map fun e => (e.node, DumpNode.mk e.index e.complete)).Perm
    r.info.dumpNodes.toList
  complete : ∀ e ∈ r.info.file, e.complete = true ↔
    ∃ c ∈ callsMade starts r.info, c.node = e.node ∧ c.complete = true
  referenced : ∀ c ∈ callsMade starts r.info, ∃ e ∈ r.info.file, e.node = c.node ∧
    e.index = c.index ∧ ∀ e' ∈ r.info.file, e'.index = c.index → e' = e
  wellFormed : ∀ info ∈ r.visited, info.toQueue.WellFormed

/-- `do_xml_output` terminates, and its output is as it is to be. -/
def ReferencesDumpedOnce (d : Dumper τ) : Prop :=
  ∃ r starts, (∃ bound, ∀ fuel, bound < fuel → doXmlOutput d fuel = some (r, starts)) ∧
    DumpedOnce d starts r

theorem referenced_nodes_dumped_once (g : ReferenceGraph τ) (hfew : g.nodes.card < 2 ^ 32) :
    ReferencesDumpedOnce g.toDumper := by
  obtain ⟨r, starts, hrun, hstarts, h⟩ := doXmlOutput_ready g hfew
  refine ⟨r, starts, ⟨_, hrun⟩, hstarts, h.written, ?_, file_perm_toList h, ?_, ?_, h.traced.1⟩
  · rw [h.indexed.lastIndex_eq]
    exact h.indexed.indices
  · exact fun e he => h.indexed.complete_iff _ _ (h.scheduled.written e he).2
  · intro c hc
    obtain ⟨dn, hdn, hidx⟩ := h.indexed.asked c hc
    obtain ⟨e, he, heq⟩ :=
      List.mem_map.mp ((file_perm_toList h).symm.subset (Tree.mem_toList.mpr hdn))
    obtain ⟨hnode, rfl⟩ := Prod.mk.inj heq
    refine ⟨e, he, hnode, hidx, fun e' he' he'' => ?_⟩
    exact List.inj_on_of_nodup_map (file_index_nodup h) he' he (he''.trans hidx.symm)

/-- A class that is met as incomplete first: a start refers to it, and to a class that it is a
base of. -/
def baseMetEarly : ReferenceGraph (Fin 6) where
  starts := [(0, true)]
  callback _ t complete :=
    match t, complete with
    | 0, true => [(1, false), (2, true)]
    | 2, true => [(1, true)]
    | 1, true => [(3, false)]
    | 3, false => [(0, false), (4, false), (5, false)]
    | _, _ => []
  nodes := Finset.univ
  starts_mem _ _ := Finset.mem_univ _
  callback_mem _ _ _ _ _ _ := Finset.mem_univ _
  callback_incomplete _ := by decide

theorem referenced_nodes_dumped_once_baseMetEarly :
    ReferencesDumpedOnce baseMetEarly.toDumper :=
  referenced_nodes_dumped_once baseMetEarly (show Finset.card _ < _ by decide)

/-- The indices are those of an `unsigned int`, so there are fewer than `2 ^ 32` nodes that the
dump starts with. -/
theorem DumpedOnce.starts_lt {d : Dumper τ} {starts : List (Reference τ)} {r : Run τ}
    (h : DumpedOnce d starts r) {ns : List τ} (hnodup : ns.Nodup)
    (hns : ∀ n ∈ ns, ∃ complete, (n, complete) ∈ d.starts) : ns.length < 2 ^ 32 := by
  have hnode : ∀ n ∈ ns, n ∈ r.info.file.map Element.node := by
    intro n hn
    obtain ⟨complete, hmem⟩ := hns n hn
    rw [← h.starts_eq] at hmem
    obtain ⟨c, hc, hcall⟩ := List.mem_map.mp hmem
    obtain ⟨e, he, hnode, -⟩ := h.referenced c (List.mem_append_left _ hc)
    have hcnode : c.node = n := congrArg Prod.fst hcall
    exact List.mem_map.mpr ⟨e, he, hnode.trans hcnode⟩
  have hle := (List.subperm_of_subset hnodup hnode).length_le
  have hlength := h.dumped.length_eq
  have hindices := h.indices.length_eq
  have hlast : r.info.lastIndex < 2 ^ 32 := Nat.mod_lt _ (by decide)
  rw [List.length_map] at hle hlength hindices
  rw [List.length_range'] at hindices
  omega

/-- A dump that starts with this many nodes. -/
def separateNodes (count : Nat) : ReferenceGraph Nat where
  starts := (List.range count).map fun n => (n, true)
  callback _ _ _ := []
  nodes := Finset.range count
  starts_mem c hc := by
    obtain ⟨n, hn, rfl⟩ := List.mem_map.mp hc
    exact Finset.mem_range.mpr (List.mem_range.mp hn)
  callback_mem _ _ _ _ _ hc := absurd hc List.not_mem_nil
  callback_incomplete _ _ _ hc := absurd hc List.not_mem_nil

theorem separateNodes_lt (count : Nat)
    (h : ReferencesDumpedOnce (separateNodes count).toDumper) : count < 2 ^ 32 := by
  obtain ⟨r, starts, -, h⟩ := h
  have hlt := h.starts_lt List.nodup_range
    fun n hn => ⟨true, List.mem_map_of_mem (f := fun n => (n, true)) hn⟩
  rwa [List.length_range] at hlt

/-- There is no index for the last node. -/
theorem separateNodes_not_dumped_once :
    ¬ ReferencesDumpedOnce (separateNodes (2 ^ 32)).toDumper :=
  fun h => absurd (separateNodes_lt _ h) (Nat.lt_irrefl _)

end CableSwig.GccXml.ReferencesDumped
