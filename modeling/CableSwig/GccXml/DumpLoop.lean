import CableSwig.GccXml.DumpQueue
import Mathlib.Data.Finset.Card

/-!
# The dump loop

The splay tree, the queue and the output file are kept in step by one invariant. It
holds for both runs of the dump loop: what differs is which nodes are due, namely
the complete ones in the first run and all of them in the second.
-/
namespace CableSwig.GccXml.DumpLoop

open CableSwig.Lib.SplayTree
open CableSwig.GccXml.DumpQueue

variable {τ : Type} [LinearOrder τ]

/-- A dump that meets finitely many nodes and, as long as only complete nodes are dumped,
asks for complete dumps of `full` nodes only. -/
structure Discipline (τ : Type) [LinearOrder τ] extends Dumper τ where
  nodes : Finset τ
  full : τ → Prop
  starts_mem : ∀ c ∈ starts, c.1 ∈ nodes ∧ (c.2 = true → full c.1)
  callback_mem : ∀ xdi, ∀ t ∈ nodes, full t → ∀ c ∈ callback xdi t true,
    c.1 ∈ nodes ∧ (c.2 = true → full c.1)

def Reference.call (c : Reference τ) : τ × Bool := (c.node, c.complete)

/-- The splay tree records the calls made so far: each node asked for has an index, the
indices are consecutive from 1, of which there are enough, and the complete nodes are those some
call wanted complete. -/
structure Indexed (nodes : Finset τ) (calls : List (Reference τ)) (info : DumpInfo τ) : Prop where
  few : nodes.card < 2 ^ 32
  indices : (info.dumpNodes.toList.map fun e => e.2.index).Perm
    (List.range' 1 info.dumpNodes.toList.length)
  next_eq : info.nextIndex = (info.dumpNodes.toList.length + 1) % 2 ^ 32
  bounded : ∀ t ∈ info.dumpNodes.keys, t ∈ nodes
  asked : ∀ c ∈ calls, ∃ dn, info.dumpNodes.lookup c.node = some dn ∧ dn.index = c.index
  complete_iff : ∀ t dn, info.dumpNodes.lookup t = some dn →
    (dn.complete = true ↔ ∃ c ∈ calls, c.node = t ∧ c.complete = true)

/-- The nodes `dumped` so far and the nodes waiting in the queue are, without repetition,
the complete nodes and those that are `due` although they are incomplete. -/
structure Scheduled (due : τ → Prop) (dumped waiting : List τ) (info : DumpInfo τ) : Prop where
  holds : info.toQueue.Holds waiting
  nodup : (dumped ++ waiting).Nodup
  known : ∀ t ∈ dumped ++ waiting, t ∈ info.dumpNodes.keys
  mem_iff : ∀ t dn, info.dumpNodes.lookup t = some dn →
    (t ∈ dumped ++ waiting ↔ dn.complete = true ∨ due t)
  waits : ∀ t ∈ waiting, ∀ dn, info.dumpNodes.lookup t = some dn →
    (dn.complete = true ↔ ¬ due t)
  written : ∀ e ∈ info.file, e.node ∈ dumped ∧
    info.dumpNodes.lookup e.node = some ⟨e.index, e.complete⟩

theorem Indexed.index_ne_zero {nodes : Finset τ} {calls : List (Reference τ)} {info : DumpInfo τ}
    (h : Indexed nodes calls info) {t : τ} {dn : DumpNode}
    (ht : info.dumpNodes.lookup t = some dn) : dn.index ≠ 0 := by
  have hmem : dn.index ∈ info.dumpNodes.toList.map fun e => e.2.index :=
    List.mem_map.mpr ⟨(t, dn), Tree.mem_toList.mpr ht, rfl⟩
  have hrange := h.indices.subset hmem
  rw [List.mem_range'_1] at hrange
  omega

/-- There are at least as many nodes as entries, with one more that has none yet. -/
theorem Indexed.length_le {nodes : Finset τ} {calls : List (Reference τ)} {info : DumpInfo τ}
    (h : Indexed nodes calls info) (new : List τ) (hnew : ∀ t ∈ new, t ∈ nodes)
    (hnodup : (new ++ info.dumpNodes.keys).Nodup) :
    new.length + info.dumpNodes.toList.length ≤ nodes.card := by
  have hsub : (new ++ info.dumpNodes.keys).toFinset ⊆ nodes := by
    intro t ht
    rcases List.mem_append.mp (List.mem_toFinset.mp ht) with ht | ht
    · exact hnew t ht
    · exact h.bounded t ht
  have hcard := Finset.card_le_card hsub
  rwa [List.toFinset_card_of_nodup hnodup, List.length_append, ← Tree.map_fst_toList,
    List.length_map] at hcard

/-- A node that is met for the first time gets the next index. -/
theorem Indexed.nextIndex_eq {nodes : Finset τ} {calls : List (Reference τ)} {info : DumpInfo τ}
    (h : Indexed nodes calls info) {n : τ} (hn : n ∈ nodes)
    (hl : info.dumpNodes.lookup n = none) :
    info.nextIndex = info.dumpNodes.toList.length + 1 := by
  have hnot : n ∉ info.dumpNodes.keys := by
    intro hmem
    obtain ⟨v, hv⟩ := Tree.exists_lookup hmem
    rw [hl] at hv
    cases hv
  have hcard := h.length_le [n] (by simpa using hn)
    (List.nodup_cons.mpr ⟨hnot, info.dumpNodes.nodup_keys⟩)
  have hfew := h.few
  rw [List.length_singleton] at hcard
  rw [h.next_eq]
  omega

theorem Indexed.lastIndex_eq {nodes : Finset τ} {calls : List (Reference τ)} {info : DumpInfo τ}
    (h : Indexed nodes calls info) : info.lastIndex = info.dumpNodes.toList.length := by
  have hcard := h.length_le [] (by simp) info.dumpNodes.nodup_keys
  have hfew := h.few
  rw [List.length_nil] at hcard
  rw [DumpInfo.lastIndex, h.next_eq]
  omega

/-- The node has been asked for as complete. -/
def IsComplete (info : DumpInfo τ) (n : τ) : Prop :=
  ∃ dn, info.dumpNodes.lookup n = some dn ∧ dn.complete = true

/-- What is due in a state where only `require_complete` tells the two phases apart. -/
def dueIn (info : DumpInfo τ) : τ → Prop := fun _ => info.requireComplete = false

/-- What calls made in state `info` leave behind: `new` nodes are queued, and the dump nodes
of those that were dumped or queued before are the same. -/
structure Added (nodes : Finset τ) (dumped waiting new : List τ) (calls : List (Reference τ))
    (info info' : DumpInfo τ) : Prop where
  indexed : Indexed nodes calls info'
  scheduled : Scheduled (dueIn info') dumped (waiting ++ new) info'
  kept : ∀ t ∈ dumped ++ waiting, info'.dumpNodes.lookup t = info.dumpNodes.lookup t
  file : info'.file = info.file
  requireComplete : info'.requireComplete = info.requireComplete
  errors : info'.errors = info.errors

theorem Scheduled.mem_of_isComplete {due : τ → Prop} {dumped waiting : List τ}
    {info : DumpInfo τ} (h : Scheduled due dumped waiting info) {n : τ}
    (hn : IsComplete info n) : n ∈ dumped ++ waiting := by
  obtain ⟨dn, hdn, hc⟩ := hn
  exact (h.mem_iff n dn hdn).mpr (Or.inl hc)

theorem Added.isComplete {nodes : Finset τ} {dumped waiting new : List τ}
    {calls : List (Reference τ)} {info info' : DumpInfo τ}
    (h : Added nodes dumped waiting new calls info info')
    (hs : Scheduled (dueIn info) dumped waiting info) {n : τ} (hn : IsComplete info n) :
    IsComplete info' n := by
  have hkept := h.kept n (hs.mem_of_isComplete hn)
  obtain ⟨dn, hdn, hc⟩ := hn
  exact ⟨dn, hkept.trans hdn, hc⟩

/-- In the second run no node becomes complete. -/
theorem Added.isComplete_iff {nodes : Finset τ} {dumped waiting new : List τ}
    {calls : List (Reference τ)} {info info' : DumpInfo τ}
    (h : Added nodes dumped waiting new calls info info')
    (hs : Scheduled (dueIn info) dumped waiting info) (hphase : info.requireComplete = false)
    (n : τ) : IsComplete info' n ↔ IsComplete info n := by
  refine ⟨fun hn => ?_, h.isComplete hs⟩
  have hmem := h.scheduled.mem_of_isComplete hn
  obtain ⟨dn, hdn, hc⟩ := hn
  rw [← List.append_assoc] at hmem
  rcases List.mem_append.mp hmem with hmem | hmem
  · exact ⟨dn, (h.kept n hmem).symm.trans hdn, hc⟩
  · have hwaits := h.scheduled.waits n (List.mem_append_right _ hmem) dn hdn
    exact absurd (h.requireComplete.trans hphase) (hwaits.mp hc)

section AddNode

variable {nodes : Finset τ} {dumped waiting : List τ} {calls : List (Reference τ)}
  {info : DumpInfo τ} {n : τ} {complete : Bool}

/-- A node that was asked for as incomplete and is now wanted complete. -/
theorem xmlAddNodeReal_upgrade {dn : DumpNode} {q : Queue τ}
    (hl : info.dumpNodes.lookup n = some dn) (hidx : dn.index ≠ 0) (hdn : dn.complete = false)
    (hq : info.toQueue.xmlQueueNode n n = some q) :
    xmlAddNodeReal info n true =
      some ({ info with toQueue := q,
                        dumpNodes := info.dumpNodes.insert n ⟨dn.index, true⟩ }, dn.index) := by
  simp only [xmlAddNodeReal, xmlGetDumpNode, hl, if_pos hidx, hdn, hq]
  rfl

/-- A node met for the first time. -/
theorem xmlAddNodeReal_new {q : Queue τ} (hl : info.dumpNodes.lookup n = none)
    (hq : (if complete || !info.requireComplete then info.toQueue.xmlQueueNode n n
      else pure info.toQueue) = some q) :
    xmlAddNodeReal info n complete =
      some ({ info with
              toQueue := q
              nextIndex := (info.nextIndex + 1) % 2 ^ 32
              errors := if !info.requireComplete && complete then
                info.errors ++ ["XML dump bug: complete node added during incomplete phase.\n"]
                else info.errors
              dumpNodes := info.dumpNodes.insert n ⟨info.nextIndex, complete⟩ },
        info.nextIndex) := by
  simp only [xmlAddNodeReal, xmlGetDumpNode, hl, ne_eq, not_true_eq_false, if_false,
    Tree.insert_insert]
  split at hq
  · rename_i hqueue
    rw [if_pos hqueue, hq]
    rfl
  · rename_i hqueue
    rw [if_neg hqueue, hq]
    rfl

/-- A node that has its index and need not be upgraded. -/
theorem addNode_known (hi : Indexed nodes calls info)
    (hs : Scheduled (dueIn info) dumped waiting info) {dn : DumpNode}
    (hn : info.dumpNodes.lookup n = some dn) (hup : (complete && !dn.complete) = false) :
    xmlAddNodeReal info n complete = some (info, dn.index) ∧
      Added nodes dumped waiting [] (calls ++ [⟨n, complete, dn.index⟩]) info info := by
  refine ⟨?_, ⟨⟨hi.few, hi.indices, hi.next_eq, hi.bounded, ?_, ?_⟩, by rwa [List.append_nil],
    fun _ _ => rfl, rfl, rfl, rfl⟩⟩
  · simp only [xmlAddNodeReal, xmlGetDumpNode, hn, if_pos (hi.index_ne_zero hn), hup]
    rfl
  · intro c hc
    rcases List.mem_append.mp hc with hc | hc
    · exact hi.asked c hc
    · obtain rfl := List.mem_singleton.mp hc
      exact ⟨dn, hn, rfl⟩
  · intro t dn' ht
    rw [hi.complete_iff t dn' ht]
    constructor
    · rintro ⟨c, hc, hct⟩
      exact ⟨c, List.mem_append_left _ hc, hct⟩
    · rintro ⟨c, hc, rfl, hcc⟩
      rcases List.mem_append.mp hc with hc | hc
      · exact ⟨c, hc, rfl, hcc⟩
      · obtain rfl := List.mem_singleton.mp hc
        rw [hn, Option.some.injEq] at ht
        subst ht
        have hcc : complete = true := hcc
        rw [← hi.complete_iff n dn hn]
        simpa [hcc] using hup

/-- A call that writes a dump node: the records of the calls follow the write. -/
theorem indexed_write (hi : Indexed nodes calls info) (hn : n ∈ nodes) {info' : DumpInfo τ}
    (dn : DumpNode) (htree : info'.dumpNodes = info.dumpNodes.insert n dn)
    (hindices : (info'.dumpNodes.toList.map fun e => e.2.index).Perm
      (List.range' 1 info'.dumpNodes.toList.length))
    (hnext : info'.nextIndex = (info'.dumpNodes.toList.length + 1) % 2 ^ 32)
    (hkeep : ∀ dn', info.dumpNodes.lookup n = some dn' → dn'.index = dn.index)
    (hcomplete : dn.complete = true ↔
      (∃ dn', info.dumpNodes.lookup n = some dn' ∧ dn'.complete = true) ∨ complete = true)
    (hnew : info.dumpNodes.lookup n = none → ∀ c ∈ calls, c.node ≠ n) :
    Indexed nodes (calls ++ [⟨n, complete, dn.index⟩]) info' := by
  refine ⟨hi.few, hindices, hnext, ?_, ?_, ?_⟩
  · intro t ht
    obtain ⟨v, hv⟩ := Tree.exists_lookup ht
    rw [htree, Tree.lookup_insert] at hv
    by_cases htn : t = n
    · rwa [htn]
    · rw [if_neg htn] at hv
      exact hi.bounded t (Tree.mem_keys_of_lookup hv)
  · intro c hc
    rw [htree, Tree.lookup_insert]
    rcases List.mem_append.mp hc with hc | hc
    · obtain ⟨dn', hdn', hidx⟩ := hi.asked c hc
      by_cases hcn : c.node = n
      · rw [if_pos hcn]
        exact ⟨dn, rfl, by rw [← hidx, hkeep dn' (hcn ▸ hdn')]⟩
      · rw [if_neg hcn]
        exact ⟨dn', hdn', hidx⟩
    · obtain rfl := List.mem_singleton.mp hc
      exact ⟨dn, by simp, rfl⟩
  · intro t dn' ht
    rw [htree, Tree.lookup_insert] at ht
    by_cases htn : t = n
    · subst htn
      rw [if_pos rfl, Option.some.injEq] at ht
      subst ht
      rw [hcomplete]
      constructor
      · rintro (⟨dn', hdn', hc⟩ | hc)
        · obtain ⟨c, hc, hct⟩ := (hi.complete_iff t dn' hdn').mp hc
          exact ⟨c, List.mem_append_left _ hc, hct⟩
        · exact ⟨_, List.mem_append_right _ List.mem_cons_self, rfl, hc⟩
      · rintro ⟨c, hc, hct, hcc⟩
        rcases List.mem_append.mp hc with hc | hc
        · left
          cases hl : info.dumpNodes.lookup t with
          | none => exact absurd hct (hnew hl c hc)
          | some dn' => exact ⟨dn', rfl, (hi.complete_iff _ _ hl).mpr ⟨c, hc, hct, hcc⟩⟩
        · obtain rfl := List.mem_singleton.mp hc
          exact Or.inr hcc
    · rw [if_neg htn] at ht
      rw [hi.complete_iff t dn' ht]
      constructor
      · rintro ⟨c, hc, hct⟩
        exact ⟨c, List.mem_append_left _ hc, hct⟩
      · rintro ⟨c, hc, hct, hcc⟩
        rcases List.mem_append.mp hc with hc | hc
        · exact ⟨c, hc, hct, hcc⟩
        · obtain rfl := List.mem_singleton.mp hc
          exact absurd hct.symm htn

/-- A node that was on no list is written, and queued if it is complete or due. -/
theorem scheduled_write (hs : Scheduled (dueIn info) dumped waiting info)
    {info' : DumpInfo τ} (dn : DumpNode) {new : List τ}
    (htree : info'.dumpNodes = info.dumpNodes.insert n dn)
    (hfile : info'.file = info.file) (hphase : info'.requireComplete = info.requireComplete)
    (hholds : info'.toQueue.Holds (waiting ++ new)) (hfresh : n ∉ dumped ++ waiting)
    (hnew : new = if dn.complete = true ∨ info.requireComplete = false then [n] else [])
    (hcomplete : dn.complete = true ↔ dn.complete = true ∧ info.requireComplete = true) :
    Scheduled (dueIn info') dumped (waiting ++ new) info' := by
  have hnew_mem : ∀ t, t ∈ new ↔ t = n ∧ (dn.complete = true ∨ info.requireComplete = false) := by
    intro t
    rw [hnew]
    split
    · rename_i h
      simp [h]
    · rename_i h
      simp [h]
  have hmem : ∀ t, t ∈ dumped ++ (waiting ++ new) ↔ t ∈ dumped ++ waiting ∨ t ∈ new := by
    intro t
    rw [← List.append_assoc, List.mem_append]
  have hother : ∀ t, t ≠ n → info'.dumpNodes.lookup t = info.dumpNodes.lookup t := by
    intro t ht
    rw [htree, Tree.lookup_insert, if_neg ht]
  have hself : info'.dumpNodes.lookup n = some dn := by simp [htree]
  refine ⟨hholds, ?_, ?_, ?_, ?_, ?_⟩
  · rw [← List.append_assoc, List.nodup_append]
    refine ⟨hs.nodup, ?_, ?_⟩
    · rw [hnew]
      split <;> simp
    · intro a ha b hb hab
      obtain rfl := ((hnew_mem b).mp hb).1
      exact hfresh (hab ▸ ha)
  · intro t ht
    by_cases htn : t = n
    · subst htn
      exact Tree.mem_keys_of_lookup hself
    · rcases (hmem t).mp ht with ht | ht
      · obtain ⟨dn', hdn'⟩ := Tree.exists_lookup (hs.known t ht)
        exact Tree.mem_keys_of_lookup ((hother t htn).trans hdn')
      · exact absurd ((hnew_mem t).mp ht).1 htn
  · intro t dn' ht
    rw [hmem]
    by_cases htn : t = n
    · subst htn
      rw [hself, Option.some.injEq] at ht
      subst ht
      rw [hnew_mem]
      simp only [dueIn, hphase, true_and]
      exact ⟨fun h => h.resolve_left hfresh, Or.inr⟩
    · rw [hother t htn] at ht
      rw [hs.mem_iff t dn' ht, hnew_mem]
      simp [htn, dueIn, hphase]
  · intro t ht dn' hdn'
    rcases List.mem_append.mp ht with ht | ht
    · have htn : t ≠ n := by
        rintro rfl
        exact hfresh (List.mem_append_right _ ht)
      rw [hother t htn] at hdn'
      simpa only [dueIn, hphase] using hs.waits t ht dn' hdn'
    · obtain ⟨rfl, hor⟩ := (hnew_mem t).mp ht
      rw [hself, Option.some.injEq] at hdn'
      subst hdn'
      simp only [dueIn, hphase, Bool.not_eq_false]
      constructor
      · exact fun h => (hcomplete.mp h).2
      · exact fun h => hor.resolve_right (by rw [h]; decide)
  · intro e he
    rw [hfile] at he
    obtain ⟨hd, hl⟩ := hs.written e he
    have hne : e.node ≠ n := by
      intro h
      exact hfresh (List.mem_append_left _ (h ▸ hd))
    exact ⟨hd, by rw [hother _ hne, hl]⟩

/-- `xml_add_node_real` never fails and keeps the records in step. -/
theorem xmlAddNodeReal_added (hi : Indexed nodes calls info)
    (hs : Scheduled (dueIn info) dumped waiting info) (hn : n ∈ nodes)
    (hphase : info.requireComplete = false → complete = true → IsComplete info n) :
    ∃ info' index new, xmlAddNodeReal info n complete = some (info', index) ∧
      Added nodes dumped waiting new (calls ++ [⟨n, complete, index⟩]) info info' := by
  have hkept : n ∉ dumped ++ waiting → ∀ dn, ∀ t ∈ dumped ++ waiting,
      (info.dumpNodes.insert n dn).lookup t = info.dumpNodes.lookup t := by
    intro hfresh dn t ht
    rw [Tree.lookup_insert, if_neg fun h : t = n => hfresh (h ▸ ht)]
  have hphase' : ¬IsComplete info n → complete = true → info.requireComplete = true := by
    intro hn hc
    cases hr : info.requireComplete with
    | true => rfl
    | false => exact absurd (hphase hr hc) hn
  obtain ⟨q', hq', hholds⟩ := Queue.xmlQueueNode_holds hs.holds n
  cases hl : info.dumpNodes.lookup n with
  | some dn =>
    cases hup : complete && !dn.complete with
    | false =>
      obtain ⟨hcall, hadded⟩ := addNode_known hi hs hl hup
      exact ⟨info, dn.index, [], hcall, hadded⟩
    | true =>
      obtain ⟨rfl, hdn⟩ : complete = true ∧ dn.complete = false := by simpa using hup
      have hfirst : info.requireComplete = true := by
        refine hphase' ?_ rfl
        rintro ⟨dn', hdn', hc⟩
        rw [hl, Option.some.injEq] at hdn'
        rw [← hdn', hdn] at hc
        exact absurd hc (by decide)
      have hfresh : n ∉ dumped ++ waiting := by
        rw [hs.mem_iff n dn hl]
        simp [hdn, dueIn, hfirst]
      refine ⟨_, _, [n], xmlAddNodeReal_upgrade hl (hi.index_ne_zero hl) hdn hq', ?_⟩
      refine ⟨?_, ?_, hkept hfresh _, rfl, rfl, rfl⟩
      · have hmap := Tree.map_toList_insert (f := fun e : τ × DumpNode => e.2.index)
          (w := ⟨dn.index, true⟩) hl rfl
        have hlength := congrArg List.length hmap
        rw [List.length_map, List.length_map] at hlength
        refine indexed_write hi hn ⟨dn.index, true⟩ rfl ?_ ?_ ?_ (by simp) ?_
        · rw [hlength]
          exact (List.Perm.of_eq hmap).trans hi.indices
        · rw [hlength]
          exact hi.next_eq
        · intro dn' hdn'
          rw [hl, Option.some.injEq] at hdn'
          rw [← hdn']
        · simp [hl]
      · exact scheduled_write hs ⟨dn.index, true⟩ rfl rfl rfl hholds hfresh (by simp)
          (by simp [hfirst])
  | none =>
    have hphase' : complete = true → info.requireComplete = true := by
      refine hphase' ?_
      rintro ⟨dn, hdn, -⟩
      rw [hl] at hdn
      simp at hdn
    have hfresh : n ∉ dumped ++ waiting := by
      intro hmem
      obtain ⟨v, hv⟩ := Tree.exists_lookup (hs.known n hmem)
      rw [hl] at hv
      simp at hv
    have hbug : (!info.requireComplete && complete) = false := by
      cases hc : complete with
      | true => rw [hphase' hc]; rfl
      | false => simp
    obtain ⟨q, new, hq, hnew, hholds⟩ : ∃ q new,
        (if complete || !info.requireComplete then info.toQueue.xmlQueueNode n n
          else pure info.toQueue) = some q ∧
        new = (if complete = true ∨ info.requireComplete = false then [n] else []) ∧
        q.Holds (waiting ++ new) := by
      by_cases hqueue : complete = true ∨ info.requireComplete = false
      · exact ⟨q', [n], by rw [if_pos (by simpa using hqueue), hq'], by rw [if_pos hqueue], hholds⟩
      · exact ⟨info.toQueue, [], by rw [if_neg (by simpa using hqueue)]; rfl,
          by rw [if_neg hqueue], by simpa using hs.holds⟩
    refine ⟨_, _, new, xmlAddNodeReal_new hl hq, ?_⟩
    refine ⟨?_, ?_, hkept hfresh _, rfl, rfl, by simp [hbug]⟩
    · have hnext := hi.nextIndex_eq hn hl
      have hperm := Tree.toList_insert_perm (⟨info.nextIndex, complete⟩ : DumpNode) hl
      have hlength := hperm.length_eq
      rw [List.length_cons] at hlength
      refine indexed_write hi hn ⟨info.nextIndex, complete⟩ rfl ?_ ?_ (by simp [hl])
        (by simp [hl]) ?_
      · rw [hlength, List.range'_1_concat]
        refine (hperm.map _).trans ?_
        rw [List.map_cons, Nat.add_comm 1, ← hnext]
        exact (List.Perm.cons _ hi.indices).trans (List.perm_append_singleton _ _).symm
      · rw [hlength, hnext]
      · intro _ c hc hcn
        obtain ⟨dn, hdn, -⟩ := hi.asked c hc
        rw [hcn, hl] at hdn
        simp at hdn
    · exact scheduled_write hs ⟨info.nextIndex, complete⟩ rfl rfl rfl hholds hfresh hnew
        ⟨fun h => ⟨h, hphase' h⟩, And.left⟩

end AddNode

/-- The queue was well formed in every state of the run, the present one included. -/
def Traced (r : Run τ) : Prop :=
  (∀ info ∈ r.visited, info.toQueue.WellFormed) ∧ r.info ∈ r.visited

theorem Traced.to {r : Run τ} (h : Traced r) {info : DumpInfo τ}
    (hinfo : info.toQueue.WellFormed) : Traced (r.to info) := by
  refine ⟨fun i hi => ?_, List.mem_append_right _ List.mem_cons_self⟩
  rcases List.mem_append.mp hi with hi | hi
  · exact h.1 i hi
  · obtain rfl := List.mem_singleton.mp hi
    exact hinfo

theorem visited_to {r : Run τ} {info i : DumpInfo τ} (h : i ∈ r.visited) :
    i ∈ (r.to info).visited := List.mem_append_left _ h

/-- A whole sequence of calls, by induction on the calls. -/
theorem xmlAddNodes_added {nodes : Finset τ} {dumped : List τ} (cs : List (τ × Bool))
    (hcs : ∀ c ∈ cs, c.1 ∈ nodes) :
    ∀ {waiting : List τ} {calls : List (Reference τ)} {r : Run τ},
      Indexed nodes calls r.info → Scheduled (dueIn r.info) dumped waiting r.info → Traced r →
      (r.info.requireComplete = false → ∀ c ∈ cs, c.2 = true → IsComplete r.info c.1) →
      ∃ r' references new, xmlAddNodes r cs = some (r', references) ∧
        references.map Reference.call = cs ∧
        Added nodes dumped waiting new (calls ++ references) r.info r'.info ∧ Traced r' ∧
        ∀ info ∈ r.visited, info ∈ r'.visited := by
  induction cs with
  | nil =>
    intro waiting calls r hi hs ht _
    refine ⟨r, [], [], rfl, rfl, ?_, ht, fun _ h => h⟩
    exact ⟨by rwa [List.append_nil], by rwa [List.append_nil], fun _ _ => rfl, rfl, rfl, rfl⟩
  | cons c cs ih =>
    intro waiting calls r hi hs ht hphase
    obtain ⟨n, complete⟩ := c
    obtain ⟨info, index, new, hcall, hadded⟩ :=
      xmlAddNodeReal_added hi hs (hcs _ List.mem_cons_self)
        fun h => hphase h _ List.mem_cons_self
    obtain ⟨r', references, new', hcalls, hmap, hadded', ht', hvisited⟩ :=
      ih (fun c hc => hcs c (List.mem_cons_of_mem _ hc)) (r := r.to info) hadded.indexed
        hadded.scheduled (ht.to ⟨_, hadded.scheduled.holds⟩)
        (fun h c hc hcc => hadded.isComplete hs
          (hphase (hadded.requireComplete ▸ h) c (List.mem_cons_of_mem _ hc) hcc))
    refine ⟨r', ⟨n, complete, index⟩ :: references, new ++ new', ?_, ?_, ?_, ht', ?_⟩
    · simp only [xmlAddNodes, hcall, Option.bind_eq_bind, Option.bind_some, hcalls]
      rfl
    · rw [List.map_cons, hmap]
      rfl
    · refine ⟨?_, ?_, ?_, ?_, ?_, ?_⟩
      · simpa using hadded'.indexed
      · simpa using hadded'.scheduled
      · intro t ht
        rw [hadded'.kept t (by rw [← List.append_assoc]; exact List.mem_append_left _ ht)]
        exact hadded.kept t ht
      · exact hadded'.file.trans hadded.file
      · exact hadded'.requireComplete.trans hadded.requireComplete
      · exact hadded'.errors.trans hadded.errors
    · exact fun i h => hvisited i (visited_to h)

/-- What the starting points and the elements written so far have asked for. -/
def callsMade (starts : List (Reference τ)) (info : DumpInfo τ) : List (Reference τ) :=
  starts ++ info.file.flatMap Element.references

/-- The state between two rounds of the loop: the nodes dumped are those in the file. -/
structure Ready (g : Discipline τ) (starts : List (Reference τ)) (due : τ → Prop)
    (waiting : List τ) (r : Run τ) : Prop where
  indexed : Indexed g.nodes (callsMade starts r.info) r.info
  scheduled : Scheduled due (r.info.file.map Element.node) waiting r.info
  traced : Traced r
  full : ∀ c ∈ callsMade starts r.info, c.complete = true → g.full c.node
  written : ∀ e ∈ r.info.file, ∃ info ∈ r.visited,
    e.references.map Reference.call = g.callback info e.node e.complete
  errors : r.info.errors = []

theorem Ready.full_of_isComplete {g : Discipline τ} {starts : List (Reference τ)}
    {due : τ → Prop} {waiting : List τ} {r : Run τ} (h : Ready g starts due waiting r) {n : τ}
    (hn : IsComplete r.info n) : g.full n := by
  obtain ⟨dn, hdn, hc⟩ := hn
  obtain ⟨c, hc, rfl, hcc⟩ := (h.indexed.complete_iff n dn hdn).mp hc
  exact h.full c hc hcc

section Loop

variable {g : Discipline τ} {starts : List (Reference τ)} {r : Run τ}

theorem xmlDump_done {due : τ → Prop} {m fuel : Nat} (h : Ready g starts due [] r)
    (hf : m < fuel) : xmlDump g.toDumper fuel r = some r := by
  obtain ⟨fuel, rfl⟩ : ∃ k, fuel = k + 1 := ⟨fuel - 1, by omega⟩
  simp only [xmlDump, (Queue.queue_eq_none_iff h.scheduled.holds).mpr rfl]
  rfl

/-- In the second run, an incomplete node asks for complete dumps of complete nodes only. -/
def Obeys (g : Discipline τ) (r : Run τ) (t : τ) : Prop :=
  r.info.requireComplete = false → ∀ xdi, ∀ c ∈ g.callback xdi t false,
    c.1 ∈ g.nodes ∧ (c.2 = true → IsComplete r.info c.1)

/-- One round of the loop of `xml_dump` dumps the first node of the queue. -/
theorem xmlDump_round {t : τ} {ts : List τ} (h : Ready g starts (dueIn r.info) (t :: ts) r)
    (hobeys : Obeys g r t) :
    ∃ r' ts' e, (∀ fuel, xmlDump g.toDumper (fuel + 1) r = xmlDump g.toDumper fuel r') ∧
      Ready g starts (dueIn r'.info) ts' r' ∧ r'.info.file = r.info.file ++ [e] ∧
      e.node = t ∧ e.complete = r.info.requireComplete ∧
      r'.info.requireComplete = r.info.requireComplete ∧
      (r.info.requireComplete = false → ∀ n, IsComplete r'.info n ↔ IsComplete r.info n) := by
  obtain ⟨dq, link, q, hqueue, htake, hholds⟩ := Queue.takeEntry_holds h.scheduled.holds
  have htmem : t ∈ r.info.file.map Element.node ++ t :: ts := by simp
  obtain ⟨dn, hdn⟩ := Tree.exists_lookup (h.scheduled.known t htmem)
  have hwaits := h.scheduled.waits t List.mem_cons_self dn hdn
  let r₁ : Run τ := r.to { r.info with toQueue := q }
  have hi₁ : Indexed g.nodes (callsMade starts r.info) r₁.info :=
    ⟨h.indexed.few, h.indexed.indices, h.indexed.next_eq, h.indexed.bounded, h.indexed.asked,
      h.indexed.complete_iff⟩
  have hmiddle : r.info.file.map Element.node ++ t :: ts =
      (r.info.file.map Element.node ++ [t]) ++ ts := by simp
  have hs₁ : Scheduled (dueIn r₁.info) (r.info.file.map Element.node ++ [t]) ts r₁.info := by
    refine ⟨hholds, ?_, ?_, ?_, ?_, ?_⟩
    · rw [← hmiddle]
      exact h.scheduled.nodup
    · rw [← hmiddle]
      exact h.scheduled.known
    · rw [← hmiddle]
      exact h.scheduled.mem_iff
    · exact fun t' ht' => h.scheduled.waits t' (List.mem_cons_of_mem _ ht')
    · exact fun e he => ⟨List.mem_append_left _ (h.scheduled.written e he).1,
        (h.scheduled.written e he).2⟩
  have hnode : t ∈ g.nodes := h.indexed.bounded t (Tree.mem_keys_of_lookup hdn)
  have hfull : dn.complete = true → g.full t := fun hc => h.full_of_isComplete ⟨dn, hdn, hc⟩
  have hcomplete : dn.complete = r.info.requireComplete := by
    rw [Bool.eq_iff_iff, hwaits, dueIn, Bool.not_eq_false]
  have hcallback : ∀ c ∈ g.callback r₁.info t dn.complete,
      c.1 ∈ g.nodes ∧ (c.2 = true → g.full c.1) := by
    intro c hc
    cases hphase : r.info.requireComplete with
    | true =>
      rw [hcomplete, hphase] at hc
      exact g.callback_mem r₁.info t hnode (hfull (hcomplete.trans hphase)) c hc
    | false =>
      rw [hcomplete, hphase] at hc
      obtain ⟨hmem, hcc⟩ := hobeys hphase r₁.info c hc
      exact ⟨hmem, fun hct => h.full_of_isComplete (hcc hct)⟩
  obtain ⟨r₂, references, new, hcalls, hmap, hadded, ht₂, hvisited⟩ :=
    xmlAddNodes_added (g.callback r₁.info t dn.complete) (fun c hc => (hcallback c hc).1)
      hi₁ hs₁ (h.traced.to ⟨_, hholds⟩) (by
        intro hphase c hc
        rw [hcomplete, show r.info.requireComplete = false from hphase] at hc
        exact (hobeys hphase r₁.info c hc).2)
  -- the dump node that was read before the calls is still the one in the tree
  have hdn₂ : r₂.info.dumpNodes.lookup t = some dn := (hadded.kept t (by simp)).trans hdn
  let element : Element τ := ⟨t, dn.index, dn.complete, references⟩
  have hfile₂ : r₂.info.file = r.info.file := hadded.file
  have hcallsMade : callsMade starts { r₂.info with file := r₂.info.file ++ [element] } =
      callsMade starts r.info ++ references := by
    simp [callsMade, hfile₂, element]
  refine ⟨r₂.to { r₂.info with file := r₂.info.file ++ [element] }, ts ++ new, element,
    ?_, ?_, ?_, rfl, hcomplete, hadded.requireComplete, ?_⟩
  · intro fuel
    have hdump : xmlDumpTreeNode g.toDumper r₁ t dn =
        some (r₂.to { r₂.info with file := r₂.info.file ++ [element] }) := by
      simp only [xmlDumpTreeNode, hcalls, Option.bind_eq_bind, Option.bind_some]
      rfl
    have hdn₁ : r₁.info.dumpNodes.lookup t = some dn := hdn
    simp only [xmlDump, hqueue, htake, Option.bind_eq_bind, Option.bind_some]
    rw [show r.to { r.info with toQueue := q } = r₁ from rfl, hdn₁, Option.bind_some, hdump,
      Option.bind_some]
  · refine ⟨?_, ?_, ht₂.to ⟨_, hadded.scheduled.holds⟩, ?_, ?_, ?_⟩
    · simp only [Run.to]
      rw [hcallsMade]
      exact ⟨hadded.indexed.few, hadded.indexed.indices, hadded.indexed.next_eq,
        hadded.indexed.bounded, hadded.indexed.asked, hadded.indexed.complete_iff⟩
    · have hdumped : (r₂.info.file ++ [element]).map Element.node =
          r.info.file.map Element.node ++ [t] := by
        rw [hfile₂]
        simp [element]
      refine ⟨hadded.scheduled.holds, ?_, ?_, ?_, hadded.scheduled.waits, ?_⟩
      · simp only [Run.to, hdumped]
        exact hadded.scheduled.nodup
      · simp only [Run.to, hdumped]
        exact hadded.scheduled.known
      · simp only [Run.to, hdumped]
        exact hadded.scheduled.mem_iff
      · intro e he
        simp only [Run.to, hdumped] at he ⊢
        rcases List.mem_append.mp he with he | he
        · exact hadded.scheduled.written e he
        · obtain rfl := List.mem_singleton.mp he
          exact ⟨by simp [element], hdn₂⟩
    · intro c hc hcc
      have hc : c ∈ callsMade starts r.info ++ references := by
        rw [← hcallsMade]
        exact hc
      rcases List.mem_append.mp hc with hc | hc
      · exact h.full c hc hcc
      · have hcall : (c.node, c.complete) ∈ g.callback r₁.info t dn.complete := by
          rw [← hmap]
          exact List.mem_map_of_mem (f := Reference.call) hc
        exact (hcallback _ hcall).2 hcc
    · intro e he
      rcases List.mem_append.mp he with he | he
      · rw [hfile₂] at he
        obtain ⟨info, hinfo, hcall⟩ := h.written e he
        exact ⟨info, visited_to (hvisited info (visited_to hinfo)), hcall⟩
      · obtain rfl := List.mem_singleton.mp he
        exact ⟨r₁.info, visited_to (hvisited _ (List.mem_append_right _ List.mem_cons_self)), hmap⟩
    · exact hadded.errors.trans h.errors
  · simp only [Run.to, hfile₂]
  · exact fun hphase => hadded.isComplete_iff hs₁ hphase

/-- Fewer nodes have been dumped than there are, as long as one is waiting. -/
theorem Ready.dumped_lt {due : τ → Prop} {t : τ} {ts : List τ}
    (h : Ready g starts due (t :: ts) r) : r.info.file.length < g.nodes.card := by
  have hsub : ∀ t' ∈ r.info.file.map Element.node ++ t :: ts, t' ∈ g.nodes :=
    fun t' ht' => h.indexed.bounded t' (h.scheduled.known t' ht')
  have hcard : (r.info.file.map Element.node ++ t :: ts).length ≤ g.nodes.card := by
    rw [← List.toFinset_card_of_nodup h.scheduled.nodup]
    exact Finset.card_le_card fun t' ht' => hsub t' (List.mem_toFinset.mp ht')
  simp only [List.length_append, List.length_map, List.length_cons] at hcard
  omega

/-- In the second run the node at the head of the queue is incomplete. -/
theorem Ready.obeys_head {t : τ} {ts : List τ} (h : Ready g starts (dueIn r.info) (t :: ts) r)
    (hobeys : ∀ t ∈ g.nodes, ¬IsComplete r.info t → Obeys g r t) : Obeys g r t := by
  intro hphase
  obtain ⟨dn, hdn⟩ := Tree.exists_lookup (h.scheduled.known t (by simp))
  have hwaits := h.scheduled.waits t List.mem_cons_self dn hdn
  refine hobeys t (h.indexed.bounded t (Tree.mem_keys_of_lookup hdn)) ?_ hphase
  rintro ⟨dn', hdn', hc⟩
  rw [hdn, Option.some.injEq] at hdn'
  rw [← hdn'] at hc
  exact hwaits.mp hc hphase

/-- What a finished run of the loop leaves behind. -/
structure Finished (g : Discipline τ) (starts : List (Reference τ)) (r r' : Run τ) : Prop where
  ready : Ready g starts (dueIn r'.info) [] r'
  requireComplete : r'.info.requireComplete = r.info.requireComplete
  isComplete_iff : r.info.requireComplete = false →
    ∀ n, IsComplete r'.info n ↔ IsComplete r.info n
  elements : ∃ es, r'.info.file = r.info.file ++ es ∧
    ∀ e ∈ es, e.complete = r.info.requireComplete

/-- `xml_dump` empties the queue, by induction on the number of nodes not dumped yet. -/
theorem xmlDump_finished : ∀ (m : Nat) {ts : List τ} {r : Run τ},
    g.nodes.card - r.info.file.length ≤ m → Ready g starts (dueIn r.info) ts r →
    (∀ t ∈ g.nodes, ¬IsComplete r.info t → Obeys g r t) →
    ∃ r', (∀ fuel, m < fuel → xmlDump g.toDumper fuel r = some r') ∧ Finished g starts r r' := by
  intro m
  induction m with
  | zero =>
    intro ts r hm h _
    cases ts with
    | nil =>
      exact ⟨r, fun fuel hf => xmlDump_done h hf, h, rfl, fun _ _ => Iff.rfl, [], by simp, by simp⟩
    | cons t ts =>
      have := h.dumped_lt
      omega
  | succ m ih =>
    intro ts r hm h hobeys
    cases ts with
    | nil =>
      exact ⟨r, fun fuel hf => xmlDump_done h (Nat.zero_lt_of_lt hf), h, rfl,
        fun _ _ => Iff.rfl, [], by simp, by simp⟩
    | cons t ts =>
      obtain ⟨r₁, ts₁, e, hround, h₁, hfile, -, hec, hphase, hcomplete⟩ :=
        xmlDump_round h (h.obeys_head hobeys)
      obtain ⟨r', hrun, h', hphase', hcomplete', es, hfile', hes⟩ := ih
        (by rw [hfile, List.length_append, List.length_singleton]; omega) h₁ (by
          intro t' ht' hnot hp xdi c hc
          rw [hphase] at hp
          rw [hcomplete hp] at hnot ⊢
          exact hobeys t' ht' hnot hp xdi c hc)
      refine ⟨r', fun fuel hf => ?_, h', hphase'.trans hphase, ?_, e :: es, ?_, ?_⟩
      · obtain ⟨fuel, rfl⟩ : ∃ k, fuel = k + 1 := ⟨fuel - 1, by omega⟩
        rw [hround, hrun fuel (by omega)]
      · exact fun hp n => (hcomplete' (hphase.trans hp) n).trans (hcomplete hp n)
      · rw [hfile', hfile, List.append_assoc, List.singleton_append]
      · intro e' he'
        rcases List.mem_cons.mp he' with rfl | he'
        · exact hec
        · rw [hes e' he', hphase]

/-- Only the queue changes, so the calls and the file are accounted for as before. -/
theorem Ready.requeue {due due' : τ → Prop} {ts ts' : List τ} (h : Ready g starts due ts r)
    {q : Queue τ} (hs : Scheduled due' (r.info.file.map Element.node) ts'
      { r.info with toQueue := q }) :
    Ready g starts due' ts' (r.to { r.info with toQueue := q }) := by
  refine ⟨?_, hs, h.traced.to ⟨_, hs.holds⟩, h.full, ?_, h.errors⟩
  · exact ⟨h.indexed.few, h.indexed.indices, h.indexed.next_eq, h.indexed.bounded,
      h.indexed.asked, h.indexed.complete_iff⟩
  · intro e he
    obtain ⟨info, hinfo, hcall⟩ := h.written e he
    exact ⟨info, visited_to hinfo, hcall⟩

/-- One entry of the splay tree is looked at: it is due from now on. -/
theorem queueIncomplete_step {done : List τ} {ts : List τ} {n : τ} {dn : DumpNode}
    (h : Ready g starts (· ∈ done) ts r) (hts : ∀ t ∈ ts, t ∈ done)
    (hn : r.info.dumpNodes.lookup n = some dn) (hfresh : n ∉ done) :
    ∃ q ts', xmlQueueIncompleteDumpNodes r.info (n, dn) = some { r.info with toQueue := q } ∧
      Ready g starts (· ∈ done ++ [n]) ts' (r.to { r.info with toQueue := q }) ∧
      ∀ t ∈ ts', t ∈ done ++ [n] := by
  have hnmem := h.scheduled.mem_iff n dn hn
  cases hdn : dn.complete with
  | true =>
    refine ⟨r.info.toQueue, ts, ?_, ?_, fun t ht => List.mem_append_left _ (hts t ht)⟩
    · simp only [xmlQueueIncompleteDumpNodes, hdn, Bool.not_true, Bool.false_eq_true, if_false]
      rfl
    · refine h.requeue ⟨h.scheduled.holds, h.scheduled.nodup, h.scheduled.known, ?_, ?_,
        h.scheduled.written⟩
      · intro t dn' ht
        rw [h.scheduled.mem_iff t dn' ht, List.mem_append, List.mem_singleton]
        constructor
        · rintro (hc | hd)
          · exact Or.inl hc
          · exact Or.inr (Or.inl hd)
        · rintro (hc | hd | rfl)
          · exact Or.inl hc
          · exact Or.inr hd
          · have ht : r.info.dumpNodes.lookup t = some dn' := ht
            rw [hn, Option.some.injEq] at ht
            exact Or.inl (ht ▸ hdn)
      · intro t ht dn' hdn'
        rw [h.scheduled.waits t ht dn' hdn']
        have htn : t ≠ n := fun he => hfresh (he ▸ hts t ht)
        simp [htn]
  | false =>
    have hnot : n ∉ r.info.file.map Element.node ++ ts := by
      rw [hnmem]
      simp [hdn, hfresh]
    obtain ⟨q, hq, hholds⟩ := Queue.xmlQueueNode_holds h.scheduled.holds n
    have happ : ∀ t, t ∈ r.info.file.map Element.node ++ (ts ++ [n]) ↔
        t ∈ r.info.file.map Element.node ++ ts ∨ t = n := by
      intro t
      rw [← List.append_assoc, List.mem_append, List.mem_singleton]
    refine ⟨q, ts ++ [n], ?_, ?_, ?_⟩
    · simp only [xmlQueueIncompleteDumpNodes, hdn, Bool.not_false, if_true, hq]
      rfl
    · refine h.requeue ⟨hholds, ?_, ?_, ?_, ?_, h.scheduled.written⟩
      · rw [← List.append_assoc, List.nodup_append]
        refine ⟨h.scheduled.nodup, by simp, ?_⟩
        intro a ha b hb hab
        rw [List.mem_singleton.mp hb] at hab
        exact hnot (hab ▸ ha)
      · intro t ht
        rcases (happ t).mp ht with ht | rfl
        · exact h.scheduled.known t ht
        · exact Tree.mem_keys_of_lookup hn
      · intro t dn' ht
        rw [happ, h.scheduled.mem_iff t dn' ht, List.mem_append, List.mem_singleton, or_assoc]
      · intro t ht dn' hdn'
        rcases List.mem_append.mp ht with ht | ht
        · rw [h.scheduled.waits t ht dn' hdn']
          simp [hts t ht]
        · obtain rfl := List.mem_singleton.mp ht
          have hdn' : r.info.dumpNodes.lookup t = some dn' := hdn'
          rw [hn, Option.some.injEq] at hdn'
          simp [← hdn', hdn]
    · intro t ht
      rcases List.mem_append.mp ht with ht | ht
      · exact List.mem_append_left _ (hts t ht)
      · exact List.mem_append_right _ ht

/-- The walk over the splay tree, by induction on the entries still ahead of it. -/
theorem queueIncomplete_ready (ns : List (τ × DumpNode)) :
    ∀ {done : List τ} {ts : List τ} {r : Run τ},
      r.info.dumpNodes.keys = done ++ ns.map Prod.fst →
      (∀ e ∈ ns, r.info.dumpNodes.lookup e.1 = some e.2) →
      Ready g starts (· ∈ done) ts r → (∀ t ∈ ts, t ∈ done) →
      ∃ r' ts', queueIncomplete ns r = some r' ∧ r'.info.dumpNodes = r.info.dumpNodes ∧
        r'.info.file = r.info.file ∧ Ready g starts (· ∈ r.info.dumpNodes.keys) ts' r' := by
  induction ns with
  | nil =>
    intro done ts r hkeys _ h _
    rw [List.map_nil, List.append_nil] at hkeys
    exact ⟨r, ts, rfl, rfl, rfl, by rwa [hkeys]⟩
  | cons e ns ih =>
    intro done ts r hkeys hns h hts
    obtain ⟨n, dn⟩ := e
    have hfresh : n ∉ done := by
      intro hmem
      have hnodup := r.info.dumpNodes.nodup_keys
      rw [hkeys] at hnodup
      exact (List.nodup_append.mp hnodup).2.2 n hmem n (by simp) rfl
    obtain ⟨q, ts₁, hstep, h₁, hts₁⟩ :=
      queueIncomplete_step h hts (hns _ List.mem_cons_self) hfresh
    obtain ⟨r', ts', hrun, hnodes, hfile, h'⟩ := @ih (done ++ [n]) _
      (r.to { r.info with toQueue := q }) (by simpa [Run.to] using hkeys)
      (fun e he => hns e (List.mem_cons_of_mem _ he)) h₁ hts₁
    refine ⟨r', ts', ?_, hnodes, hfile, h'⟩
    simp only [queueIncomplete, hstep, Option.bind_eq_bind, Option.bind_some, hrun]

/-- Between the two runs of the loop every node becomes due. -/
theorem ready_second {ts : List τ} (h : Ready g starts (· ∈ r.info.dumpNodes.keys) ts r) :
    Ready g starts (dueIn { r.info with requireComplete := false }) ts
      (r.to { r.info with requireComplete := false }) := by
  have hdue : ∀ t dn, r.info.dumpNodes.lookup t = some dn →
      (t ∈ r.info.dumpNodes.keys ↔ dueIn { r.info with requireComplete := false } t) := by
    intro t dn ht
    simp [dueIn, Tree.mem_keys_of_lookup ht]
  refine ⟨?_, ?_, h.traced.to ⟨_, h.scheduled.holds⟩, h.full, ?_, h.errors⟩
  · exact ⟨h.indexed.few, h.indexed.indices, h.indexed.next_eq, h.indexed.bounded,
      h.indexed.asked, h.indexed.complete_iff⟩
  · refine ⟨h.scheduled.holds, h.scheduled.nodup, h.scheduled.known, ?_, ?_, h.scheduled.written⟩
    · intro t dn ht
      exact (h.scheduled.mem_iff t dn ht).trans (or_congr_right (hdue t dn ht))
    · intro t ht dn hdn
      exact (h.scheduled.waits t ht dn hdn).trans (not_congr (hdue t dn hdn))
  · intro e he
    obtain ⟨info, hinfo, hcall⟩ := h.written e he
    exact ⟨info, visited_to hinfo, hcall⟩

end Loop

/-- The state the dump starts from. -/
theorem ready_prepare (g : Discipline τ) (hfew : g.nodes.card < 2 ^ 32) :
    Indexed g.nodes [] (prepareDump (τ := τ)) ∧
      Scheduled (dueIn (prepareDump (τ := τ))) [] [] (prepareDump (τ := τ)) ∧
      Traced ⟨prepareDump (τ := τ), [prepareDump]⟩ := by
  refine ⟨⟨hfew, ?_, rfl, ?_, ?_, ?_⟩, ⟨Queue.holds_prepare, ?_, ?_, ?_, ?_, ?_⟩, ?_, ?_⟩
  · simp [prepareDump, Tree.toList, Tree.empty]
  · simp [prepareDump, Tree.empty]
  · simp
  · simp [prepareDump, Tree.empty]
  · simp
  · simp
  · simp [prepareDump, Tree.empty]
  · simp
  · simp [prepareDump]
  · intro info hinfo
    obtain rfl := List.mem_singleton.mp hinfo
    exact ⟨[], Queue.holds_prepare⟩
  · exact List.mem_cons_self

/-- The first run of the loop terminates, dumping complete nodes only, and leaves exactly
the incomplete ones in the queue. -/
theorem dumpComplete_ready (g : Discipline τ) (hfew : g.nodes.card < 2 ^ 32) :
    ∃ r starts ts, (∀ fuel, g.nodes.card < fuel →
        dumpComplete g.toDumper fuel = some (r, starts)) ∧
      starts.map Reference.call = g.starts ∧ Ready g starts (dueIn r.info) ts r ∧
      r.info.requireComplete = false ∧ (∀ e ∈ r.info.file, e.complete = true) ∧
      ∀ n, IsComplete r.info n ↔ n ∈ r.info.file.map Element.node := by
  obtain ⟨hi₀, hs₀, ht₀⟩ := ready_prepare g hfew
  obtain ⟨r₁, starts, new, hadd, hmap, hadded, ht₁, -⟩ :=
    xmlAddNodes_added g.starts (fun c hc => (g.starts_mem c hc).1) hi₀ hs₀ ht₀
      (fun h => by simp [prepareDump] at h)
  have hfile : r₁.info.file = [] := hadded.file
  have hcalls : callsMade starts r₁.info = starts := by simp [callsMade, hfile]
  have h₁ : Ready g starts (dueIn r₁.info) new r₁ := by
    refine ⟨?_, ?_, ht₁, ?_, by simp [hfile], hadded.errors⟩
    · rw [hcalls]
      simpa using hadded.indexed
    · simpa [hfile] using hadded.scheduled
    · intro c hc hcc
      rw [hcalls] at hc
      refine (g.starts_mem (c.node, c.complete) ?_).2 hcc
      rw [← hmap]
      exact List.mem_map_of_mem (f := Reference.call) hc
  have hfirst : r₁.info.requireComplete = true := hadded.requireComplete
  obtain ⟨r₂, hdump₂, hfin⟩ := xmlDump_finished g.nodes.card (Nat.sub_le _ _) h₁ (by
    intro t _ _ hphase
    rw [hfirst] at hphase
    exact absurd hphase (by decide))
  obtain ⟨es, hfile₂, hes⟩ := hfin.elements
  have hdue : dueIn r₂.info = (· ∈ ([] : List τ)) := by
    funext t
    simp [dueIn, hfin.requireComplete, hfirst]
  have h₂ : Ready g starts (· ∈ ([] : List τ)) [] r₂ := hdue ▸ hfin.ready
  obtain ⟨r₃, ts₃, hqueue, hnodes, hfile₃, h₃⟩ := queueIncomplete_ready r₂.info.dumpNodes.toList
    (by rw [Tree.map_fst_toList, List.nil_append]) (fun e he => Tree.mem_toList.mp he) h₂ (by simp)
  rw [← hnodes] at h₃
  refine ⟨r₃.to { r₃.info with requireComplete := false }, starts, ts₃, fun fuel hf => ?_, hmap,
    ready_second h₃, rfl, ?_, ?_⟩
  · simp only [dumpComplete, hadd, Option.bind_eq_bind, Option.bind_some, hdump₂ fuel hf, hqueue]
    rfl
  · intro e he
    have he : e ∈ r₃.info.file := he
    rw [hfile₃, hfile₂, hfile, List.nil_append] at he
    rw [hes e he, hfirst]
  · intro n
    have hmem : n ∈ r₃.info.file.map Element.node ↔ n ∈ r₂.info.file.map Element.node ++ [] := by
      rw [hfile₃, List.append_nil]
    simp only [Run.to]
    rw [hmem]
    constructor
    · rintro ⟨dn, hdn, hc⟩
      have hdn : r₂.info.dumpNodes.lookup n = some dn := by rw [← hnodes]; exact hdn
      exact (h₂.scheduled.mem_iff n dn hdn).mpr (Or.inl hc)
    · intro hn
      obtain ⟨dn, hdn⟩ := Tree.exists_lookup (h₂.scheduled.known n hn)
      have hc := (h₂.scheduled.mem_iff n dn hdn).mp hn
      exact ⟨dn, by rw [← hdn, ← hnodes], hc.resolve_right (by simp)⟩

end CableSwig.GccXml.DumpLoop
