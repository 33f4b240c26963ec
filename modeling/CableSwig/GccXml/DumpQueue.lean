import Mathlib.Algebra.Order.Ring.Int
import CableSwig.Lib.LinkedCells
import CableSwig.Lib.SplayTree

/-!
# The dump queue of xml.c

Tree nodes met by the dump are given an index and a place on a queue of cells. The
cells are recycled through a free list. The dump nodes sit in a splay tree keyed by
the tree node, and the address of a dump node is named here by that key.

What an output function prints is not modelled in this module. It enters through the
calls of `xml_add_node_real` that it makes.
-/
namespace CableSwig.GccXml.DumpQueue

open CableSwig.Lib.LinkedCells
open CableSwig.Lib.SplayTree

variable {τ : Type}

/-- `struct xml_dump_node`. -/
structure DumpNode where
  index : Nat
  complete : Bool
deriving DecidableEq, Repr

/-- `struct xml_dump_queue`. -/
structure QueueCell (τ : Type) where
  treeNode : τ
  dumpNode : τ
  next : Option Nat
deriving DecidableEq, Repr

/-- The fields of `struct xml_dump_info` through which the cells are reached, and the
cells allocated so far. -/
structure Queue (τ : Type) where
  queue : Option Nat
  queueEnd : Option Nat
  queueFree : Option Nat
  cells : List (QueueCell τ)
deriving DecidableEq, Repr

/-- One call of `xml_add_node_real` with the index it returned. -/
structure Reference (τ : Type) where
  node : τ
  complete : Bool
  index : Nat
deriving DecidableEq, Repr

/-- An element of the output file, with the references its output function asked for. -/
structure Element (τ : Type) where
  node : τ
  index : Nat
  complete : Bool
  references : List (Reference τ)
deriving DecidableEq, Repr

/-- `struct xml_dump_info`, with the diagnostics issued so far. -/
structure DumpInfo (τ : Type) [LinearOrder τ] extends Queue τ where
  file : List (Element τ)
  requireComplete : Bool
  nextIndex : Nat
  dumpNodes : Tree τ DumpNode
  errors : List String

/-- `next_index - 1`, which is an `unsigned int` like `next_index`. -/
def DumpInfo.lastIndex [LinearOrder τ] (xdi : DumpInfo τ) : Nat :=
  (xdi.nextIndex + (2 ^ 32 - 1)) % 2 ^ 32

namespace Queue

/-- The first half of `xml_queue_node`: a free cell if there is one, else a new one. -/
def obtainEntry (q : Queue τ) (t dn : τ) : Option (Nat × Queue τ) :=
  match q.queueFree with
  | some dq => do
    let cell ← q.cells[dq]?
    pure (dq, { q with queueFree := cell.next, cells := q.cells.set dq ⟨t, dn, none⟩ })
  | none => pure (q.cells.length, { q with cells := q.cells ++ [⟨t, dn, none⟩] })

/-- The second half of `xml_queue_node`: the cell goes to the end of the queue. -/
def appendEntry (q : Queue τ) (dq : Nat) : Option (Queue τ) :=
  match q.queueEnd with
  | none => pure { q with queue := some dq, queueEnd := some dq }
  | some e => do
    let last ← q.cells[e]?
    pure { q with cells := q.cells.set e { last with next := some dq }, queueEnd := some dq }

/-- `xml_queue_node`. -/
def xmlQueueNode (q : Queue τ) (t dn : τ) : Option (Queue τ) := do
  let (dq, q) ← q.obtainEntry t dn
  q.appendEntry dq

/-- The part of the loop of `xml_dump` that moves the first cell to the free list. -/
def takeEntry (q : Queue τ) (dq : Nat) : Option (QueueCell τ × Queue τ) := do
  let cell ← q.cells[dq]?
  let q := { q with queue := cell.next }
  let q := if q.queue = none then { q with queueEnd := none } else q
  pure (cell, { q with cells := q.cells.set dq { cell with next := q.queueFree },
                       queueFree := some dq })

/-- The link that a cell carries. -/
def next (q : Queue τ) (a : Nat) : Option (Option Nat) := q.cells[a]?.map QueueCell.next

/-- The links are well formed and the queue holds these tree nodes in this order: the
queue and the free list are chains that share out the cells, and `queue_end` is the
last cell of the queue. -/
def Holds (q : Queue τ) (ts : List τ) : Prop :=
  ∃ qs fs, Chain q.next q.queue qs ∧ q.queueEnd = qs.getLast? ∧ Chain q.next q.queueFree fs ∧
    Shares qs fs q.cells.length ∧
    List.Forall₂ (fun a t => ∃ link, q.cells[a]? = some ⟨t, t, link⟩) qs ts

def WellFormed (q : Queue τ) : Prop := ∃ ts, q.Holds ts

end Queue

section Run

variable [LinearOrder τ]

/-- `xml_get_dump_node`: a node met for the first time gets index 0. -/
def xmlGetDumpNode (xdi : DumpInfo τ) (t : τ) : DumpInfo τ × DumpNode :=
  match xdi.dumpNodes.lookup t with
  | some dn => (xdi, dn)
  | none => ({ xdi with dumpNodes := xdi.dumpNodes.insert t ⟨0, false⟩ }, ⟨0, false⟩)

/-- `xml_add_node_real`. The index 0 means that the node is new, also where `next_index` has come
back to 0. -/
def xmlAddNodeReal (xdi : DumpInfo τ) (n : τ) (complete : Bool) : Option (DumpInfo τ × Nat) :=
  match xmlGetDumpNode xdi n with
  | (xdi, dn) =>
    if dn.index ≠ 0 then
      if complete && !dn.complete then do
        let q ← xdi.toQueue.xmlQueueNode n n
        pure ({ xdi with toQueue := q, dumpNodes := xdi.dumpNodes.insert n ⟨dn.index, true⟩ },
          dn.index)
      else pure (xdi, dn.index)
    else do
      let index := xdi.nextIndex
      let q ← if complete || !xdi.requireComplete then xdi.toQueue.xmlQueueNode n n
        else pure xdi.toQueue
      let errors := if !xdi.requireComplete && complete then
        xdi.errors ++ ["XML dump bug: complete node added during incomplete phase.\n"]
        else xdi.errors
      pure ({ xdi with toQueue := q, nextIndex := (index + 1) % 2 ^ 32, errors := errors,
                       dumpNodes := xdi.dumpNodes.insert n ⟨index, complete⟩ }, index)

/-- `xml_queue_incomplete_dump_nodes`, as called for one entry of the splay tree. -/
def xmlQueueIncompleteDumpNodes (xdi : DumpInfo τ) (n : τ × DumpNode) : Option (DumpInfo τ) :=
  if !n.2.complete then do
    let q ← xdi.toQueue.xmlQueueNode n.1 n.1
    pure { xdi with toQueue := q }
  else pure xdi

/-- The nodes the dump starts from, and the calls each output function makes. -/
structure Dumper (τ : Type) [LinearOrder τ] where
  starts : List (τ × Bool)
  callback : DumpInfo τ → τ → Bool → List (τ × Bool)

/-- A dump under way, with the states it went through. -/
structure Run (τ : Type) [LinearOrder τ] where
  info : DumpInfo τ
  visited : List (DumpInfo τ)

def Run.to (r : Run τ) (info : DumpInfo τ) : Run τ := ⟨info, r.visited ++ [info]⟩

/-- The calls in turn. -/
def xmlAddNodes (r : Run τ) : List (τ × Bool) → Option (Run τ × List (Reference τ))
  | [] => pure (r, [])
  | (n, complete) :: calls => do
    let (info, index) ← xmlAddNodeReal r.info n complete
    let (r, references) ← xmlAddNodes (r.to info) calls
    pure (r, ⟨n, complete, index⟩ :: references)

/-- `xml_dump_tree_node`: the element appears with everything it refers to. -/
def xmlDumpTreeNode (d : Dumper τ) (r : Run τ) (t : τ) (dn : DumpNode) : Option (Run τ) := do
  let (r, references) ← xmlAddNodes r (d.callback r.info t dn.complete)
  pure (r.to { r.info with file := r.info.file ++ [⟨t, dn.index, dn.complete, references⟩] })

/-- `xml_dump`, for at most so many rounds of its loop. -/
def xmlDump (d : Dumper τ) : Nat → Run τ → Option (Run τ)
  | 0, _ => none
  | fuel + 1, r =>
    match r.info.queue with
    | none => pure r
    | some dq => do
      let (cell, q) ← r.info.toQueue.takeEntry dq
      let r := r.to { r.info with toQueue := q }
      let dn ← r.info.dumpNodes.lookup cell.dumpNode
      let r ← xmlDumpTreeNode d r cell.treeNode dn
      xmlDump d fuel r

/-- `splay_tree_foreach` with `xml_queue_incomplete_dump_nodes`. -/
def queueIncomplete : List (τ × DumpNode) → Run τ → Option (Run τ)
  | [], r => pure r
  | n :: ns, r => do
    let info ← xmlQueueIncompleteDumpNodes r.info n
    queueIncomplete ns (r.to info)

def prepareDump : DumpInfo τ where
  queue := none
  queueEnd := none
  queueFree := none
  cells := []
  file := []
  requireComplete := true
  nextIndex := 1
  dumpNodes := .empty
  errors := []

/-- `do_xml_output` up to its second run of the loop: the state reached, and what the
starting points were given. -/
def dumpComplete (d : Dumper τ) (fuel : Nat) : Option (Run τ × List (Reference τ)) := do
  let (r, starts) ← xmlAddNodes ⟨prepareDump, [prepareDump]⟩ d.starts
  let r ← xmlDump d fuel r
  let r ← queueIncomplete r.info.dumpNodes.toList r
  pure (r.to { r.info with requireComplete := false }, starts)

/-- `do_xml_output`. -/
def doXmlOutput (d : Dumper τ) (fuel : Nat) : Option (Run τ × List (Reference τ)) := do
  let (r, starts) ← dumpComplete d fuel
  let r ← xmlDump d fuel r
  pure (r, starts)

end Run

namespace Queue

theorem holds_prepare : (⟨none, none, none, []⟩ : Queue τ).Holds [] :=
  ⟨[], [], .nil, rfl, .nil, List.Perm.refl _, .nil⟩

/-- The queued tree nodes are read off the cells, whatever happens to their links. -/
theorem entries_congr {cells cells' : List (QueueCell τ)} {qs : List Nat} {ts : List τ}
    (h : List.Forall₂ (fun a t => ∃ link, cells[a]? = some ⟨t, t, link⟩) qs ts)
    (hkeep : ∀ a ∈ qs, ∀ t link, cells[a]? = some ⟨t, t, link⟩ →
      ∃ link', cells'[a]? = some ⟨t, t, link'⟩) :
    List.Forall₂ (fun a t => ∃ link, cells'[a]? = some ⟨t, t, link⟩) qs ts := by
  induction h with
  | nil => exact .nil
  | @cons a t qs ts hat _ ih =>
    obtain ⟨link, hlink⟩ := hat
    exact .cons (hkeep a List.mem_cons_self t link hlink)
      (ih fun b hb => hkeep b (List.mem_cons_of_mem _ hb))

theorem queue_eq_none_iff {q : Queue τ} {ts : List τ} (h : q.Holds ts) :
    q.queue = none ↔ ts = [] := by
  obtain ⟨qs, fs, hqs, -, -, -, hts⟩ := h
  rw [hqs.start_eq, List.head?_eq_none_iff]
  constructor
  · rintro rfl
    cases hts
    rfl
  · rintro rfl
    cases hts
    rfl

/-- The cell obtained is on neither chain any more, and the queued cells are untouched. -/
theorem obtainEntry_spec {q : Queue τ} {qs fs : List Nat} (t dn : τ)
    (hfs : Chain q.next q.queueFree fs) (hshares : Shares qs fs q.cells.length) :
    ∃ dq q' fs', q.obtainEntry t dn = some (dq, q') ∧ q'.queue = q.queue ∧
      q'.queueEnd = q.queueEnd ∧ Chain q'.next q'.queueFree fs' ∧
      Shares (qs ++ [dq]) fs' q'.cells.length ∧ (∀ a ∈ qs, q'.cells[a]? = q.cells[a]?) ∧
      q'.cells[dq]? = some ⟨t, dn, none⟩ := by
  cases hfree : q.queueFree with
  | none =>
    obtain rfl : fs = [] := by
      rw [hfree] at hfs
      cases hfs
      rfl
    refine ⟨q.cells.length, { q with cells := q.cells ++ [⟨t, dn, none⟩] }, [], ?_, rfl, rfl,
      ?_, ?_, ?_, ?_⟩
    · simp only [obtainEntry, hfree]
      rfl
    · rw [hfree]
      exact .nil
    · simpa using hshares.grow
    · intro a ha
      exact List.getElem?_append_left (hshares.lt_left ha)
    · simp
  | some dq =>
    rw [hfree] at hfs
    cases hfs with
    | @cons _ link fs hnext hfs =>
      obtain ⟨cell, hcell, rfl⟩ := Option.map_eq_some_iff.mp hnext
      have hlt : dq < q.cells.length := hshares.lt_right List.mem_cons_self
      have hkeep : ∀ a, a ≠ dq →
          (q.cells.set dq ⟨t, dn, none⟩)[a]? = q.cells[a]? :=
        fun a ha => List.getElem?_set_ne ha.symm
      have hfresh : dq ∉ fs := (List.nodup_cons.mp (List.nodup_append.mp hshares.nodup).2.1).1
      refine ⟨dq, { q with queueFree := cell.next, cells := q.cells.set dq ⟨t, dn, none⟩ }, fs,
        ?_, rfl, rfl, ?_, ?_, ?_, ?_⟩
      · simp only [obtainEntry, hfree, hcell]
        rfl
      · refine hfs.congr fun a ha => ?_
        simp only [next]
        rw [hkeep a (fun h => hfresh (h ▸ ha))]
      · simpa using hshares.move_left
      · intro a ha
        exact hkeep a fun h => hshares.disjoint ha (h ▸ List.mem_cons_self)
      · simp [hlt]

/-- `xml_queue_node` never follows a dangling link, and puts the node behind the others. -/
theorem xmlQueueNode_holds {q : Queue τ} {ts : List τ} (h : q.Holds ts) (t : τ) :
    ∃ q', q.xmlQueueNode t t = some q' ∧ q'.Holds (ts ++ [t]) := by
  obtain ⟨qs, fs, hqs, hend, hfs, hshares, hts⟩ := h
  obtain ⟨dq, q₁, fs₁, hobtain, hqueue, hend₁, hfs₁, hshares₁, hkeep, hdq⟩ :=
    obtainEntry_spec t t hfs hshares
  have hqs₁ : Chain q₁.next q₁.queue qs := by
    rw [hqueue]
    refine hqs.congr fun a ha => ?_
    simp only [next]
    rw [hkeep a ha]
  have hts₁ : List.Forall₂ (fun a t => ∃ link, q₁.cells[a]? = some ⟨t, t, link⟩) qs ts :=
    entries_congr hts fun a ha t link hlink => ⟨link, by rw [hkeep a ha, hlink]⟩
  have hend₁ : q₁.queueEnd = qs.getLast? := hend₁.trans hend
  have hnodup : (qs ++ [dq]).Nodup := (List.nodup_append.mp hshares₁.nodup).1
  have hnot : dq ∉ qs := fun hmem => (List.nodup_append.mp hnodup).2.2 _ hmem _ (by simp) rfl
  have hsteps : q.xmlQueueNode t t = q₁.appendEntry dq := by
    simp only [xmlQueueNode, hobtain]
    rfl
  rw [hsteps]
  cases hlast : qs.getLast? with
  | none =>
    obtain rfl : qs = [] := List.getLast?_eq_none_iff.mp hlast
    cases hts
    refine ⟨{ q₁ with queue := some dq, queueEnd := some dq }, ?_, [dq], fs₁, ?_, rfl, hfs₁,
      hshares₁, ?_⟩
    · simp only [appendEntry, hend₁]
      rfl
    · refine .cons ?_ .nil
      simp only [next, hdq, Option.map_some]
    · exact .cons ⟨none, hdq⟩ .nil
  | some e =>
    rw [hlast] at hend₁
    have he : e ∈ qs := List.mem_of_getLast? hlast
    have hlt : e < q₁.cells.length := hshares₁.lt_left (List.mem_append_left _ he)
    obtain ⟨last, hcell⟩ : ∃ last, q₁.cells[e]? = some last := ⟨_, List.getElem?_eq_getElem hlt⟩
    have hset : ∀ a, a ≠ e → (q₁.cells.set e { last with next := some dq })[a]? = q₁.cells[a]? :=
      fun a ha => List.getElem?_set_ne ha.symm
    have hsete : (q₁.cells.set e { last with next := some dq })[e]? =
        some { last with next := some dq } := by simp [hlt]
    have hdqe : dq ≠ e := fun h => hnot (h ▸ he)
    refine ⟨{ q₁ with cells := q₁.cells.set e { last with next := some dq },
                      queueEnd := some dq }, ?_, qs ++ [dq], fs₁, ?_, by simp, ?_, ?_, ?_⟩
    · simp only [appendEntry, hend₁, hcell]
      rfl
    · refine hqs₁.snoc hlast (List.nodup_append.mp hnodup).1 (fun a _ ha => ?_) ?_ ?_
      · simp only [next]
        rw [hset a ha]
      · simp only [next, hsete, Option.map_some]
      · simp only [next]
        rw [hset dq hdqe, hdq]
        rfl
    · refine hfs₁.congr fun a ha => ?_
      simp only [next]
      rw [hset a fun h => hshares₁.disjoint (List.mem_append_left _ he) (h ▸ ha)]
    · simpa using hshares₁
    · refine List.rel_append (entries_congr hts₁ fun a _ t link hlink => ?_) (.cons ?_ .nil)
      · by_cases ha : a = e
        · subst ha
          rw [hcell, Option.some.injEq] at hlink
          exact ⟨some dq, by rw [hsete, hlink]⟩
        · exact ⟨link, by rw [hset a ha, hlink]⟩
      · exact ⟨none, by rw [hset dq hdqe, hdq]⟩

/-- The loop of `xml_dump` finds the node that was queued first. -/
theorem takeEntry_holds {q : Queue τ} {t : τ} {ts : List τ} (h : q.Holds (t :: ts)) :
    ∃ dq link q', q.queue = some dq ∧ q.takeEntry dq = some (⟨t, t, link⟩, q') ∧
      q'.Holds ts := by
  obtain ⟨qs, fs, hqs, hend, hfs, hshares, hts⟩ := h
  cases hts with
  | @cons dq _ qs _ hdq hts =>
    obtain ⟨link, hdq⟩ := hdq
    have hqueue : q.queue = some dq := hqs.start_eq
    rw [hqueue] at hqs
    cases hqs with
    | @cons _ link' _ hnext hqs =>
      obtain rfl : link = link' := by
        simp only [next, hdq, Option.map_some, Option.some.injEq] at hnext
        exact hnext
      have hlt : dq < q.cells.length := hshares.lt_left List.mem_cons_self
      have hset : ∀ c a, a ≠ dq → (q.cells.set dq c)[a]? = q.cells[a]? :=
        fun c a ha => List.getElem?_set_ne ha.symm
      have hnot : dq ∉ qs :=
        (List.nodup_cons.mp (List.nodup_append.mp hshares.nodup).1).1
      let cells := q.cells.set dq ⟨t, t, q.queueFree⟩
      refine ⟨dq, link, ⟨link, if link = none then none else q.queueEnd, some dq, cells⟩, hqueue,
        ?_, qs, dq :: fs, ?_, ?_, ?_, ?_, ?_⟩
      · simp only [takeEntry, hdq]
        cases link <;> rfl
      · refine hqs.congr fun a ha => ?_
        simp only [next, cells]
        rw [hset _ a fun h => hnot (h ▸ ha)]
      · have hlink := hqs.start_eq
        cases qs with
        | nil =>
          obtain rfl : link = none := hlink
          rfl
        | cons b qs =>
          obtain rfl : link = some b := hlink
          simpa only [reduceCtorEq, if_false, List.getLast?_cons_cons] using hend
      · refine .cons ?_ (hfs.congr fun a ha => ?_)
        · simp [next, cells, hlt]
        · simp only [next, cells]
          rw [hset _ a fun h => hshares.disjoint List.mem_cons_self (h ▸ ha)]
      · simpa [cells] using hshares.move_right
      · refine entries_congr hts fun a ha t' link' hlink' => ⟨link', ?_⟩
        simp only [cells]
        rw [hset _ a fun h => hnot (h ▸ ha), hlink']

end Queue

section Output

variable [LinearOrder τ] {d : Dumper τ}

theorem xmlAddNodeReal_file {info info' : DumpInfo τ} {n : τ} {complete : Bool} {index : Nat}
    (h : xmlAddNodeReal info n complete = some (info', index)) : info'.file = info.file := by
  have hget : (xmlGetDumpNode info n).1.file = info.file := by
    unfold xmlGetDumpNode
    split <;> rfl
  unfold xmlAddNodeReal at h
  split at h
  rename_i xdi dn hdn
  rw [hdn] at hget
  split at h
  · split at h
    · simp only [Option.bind_eq_bind, Option.bind_eq_some_iff, Option.pure_def,
        Option.some.injEq, Prod.mk.injEq] at h
      obtain ⟨q, -, rfl, -⟩ := h
      exact hget
    · simp only [Option.pure_def, Option.some.injEq, Prod.mk.injEq] at h
      obtain ⟨rfl, -⟩ := h
      exact hget
  · obtain ⟨q, errors, heq⟩ : ∃ q errors,
        ({ xdi with toQueue := q, nextIndex := (xdi.nextIndex + 1) % 2 ^ 32, errors := errors,
                    dumpNodes := xdi.dumpNodes.insert n ⟨xdi.nextIndex, complete⟩ },
          xdi.nextIndex) = (info', index) := by
      simp only [Option.bind_eq_bind, Option.pure_def] at h
      split at h
      all_goals
        obtain ⟨q, -, heq⟩ := Option.bind_eq_some_iff.mp h
        exact ⟨q, _, Option.some.inj heq⟩
    obtain ⟨rfl, -⟩ := Prod.mk.inj heq
    exact hget

/-- Calls write nothing themselves. -/
theorem xmlAddNodes_file (cs : List (τ × Bool)) : ∀ {r r' : Run τ} {references},
    xmlAddNodes r cs = some (r', references) → r'.info.file = r.info.file := by
  induction cs with
  | nil =>
    intro r r' references h
    obtain ⟨rfl, -⟩ := Prod.mk.inj (Option.some.inj h)
    rfl
  | cons c cs ih =>
    intro r r' references h
    simp only [xmlAddNodes, Option.bind_eq_bind, Option.bind_eq_some_iff] at h
    obtain ⟨⟨info, index⟩, hadd, ⟨r₁, refs⟩, hrest, heq⟩ := h
    obtain ⟨rfl, -⟩ := Prod.mk.inj (Option.some.inj heq)
    exact (ih hrest).trans (xmlAddNodeReal_file hadd)

/-- A node that is dumped gets an element at the end of the file. -/
theorem xmlDumpTreeNode_file {r r' : Run τ} {t : τ} {dn : DumpNode}
    (h : xmlDumpTreeNode d r t dn = some r') :
    ∃ references, r'.info.file = r.info.file ++ [⟨t, dn.index, dn.complete, references⟩] := by
  simp only [xmlDumpTreeNode, Option.bind_eq_bind, Option.bind_eq_some_iff] at h
  obtain ⟨⟨r₁, references⟩, hadd, heq⟩ := h
  obtain rfl := Option.some.inj heq
  exact ⟨references, by simp only [Run.to, xmlAddNodes_file _ hadd]⟩

/-- One round of the loop, if it comes to an end. -/
theorem xmlDump_succ {fuel : Nat} {r r' : Run τ} {dq : Nat} (hqueue : r.info.queue = some dq)
    (h : xmlDump d (fuel + 1) r = some r') :
    ∃ cell q dn r₁, r.info.toQueue.takeEntry dq = some (cell, q) ∧
      r.info.dumpNodes.lookup cell.dumpNode = some dn ∧
      xmlDumpTreeNode d (r.to { r.info with toQueue := q }) cell.treeNode dn = some r₁ ∧
      xmlDump d fuel r₁ = some r' := by
  simp only [xmlDump, hqueue, Option.bind_eq_bind, Option.bind_eq_some_iff] at h
  obtain ⟨⟨cell, q⟩, htake, dn, hdn, r₁, htree, hrest⟩ := h
  exact ⟨cell, q, dn, r₁, htake, hdn, htree, hrest⟩

/-- The loop only appends to the file. -/
theorem xmlDump_prefix (fuel : Nat) : ∀ {r r' : Run τ}, xmlDump d fuel r = some r' →
    ∃ es, r'.info.file = r.info.file ++ es := by
  induction fuel with
  | zero =>
    intro r r' h
    simp [xmlDump] at h
  | succ fuel ih =>
    intro r r' h
    cases hqueue : r.info.queue with
    | none =>
      simp only [xmlDump, hqueue] at h
      obtain rfl := Option.some.inj h
      exact ⟨[], by simp⟩
    | some dq =>
      obtain ⟨cell, q, dn, r₁, -, -, htree, hrest⟩ := xmlDump_succ hqueue h
      obtain ⟨references, hfile⟩ := xmlDumpTreeNode_file htree
      obtain ⟨es, hes⟩ := ih hrest
      exact ⟨_, by rw [hes, hfile, List.append_assoc]; rfl⟩

end Output

end CableSwig.GccXml.DumpQueue
