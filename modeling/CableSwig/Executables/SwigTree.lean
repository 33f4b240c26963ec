import CableSwig.Executables.ClassGraph

/-!
# The class nodes of the SWIG parse tree

`ProcessImportedClasses` and `ProcessIncludedClasses` walk the two sets of classes and
have `CreateSwigClassInNamespace` append one include or import node for each class. The
set of processed classes is kept here as the list of its insertions, newest first.
-/
namespace CableSwig.Executables.SwigTree

open CableSwig.Executables.ClassGraph

variable {κ : Type}

/-- A context of a declaration. A namespace is given by the names that lead to it from the
global namespace, innermost first. -/
inductive Context (κ : Type)
  | namespace (path : List String)
  | cls (c : κ)
deriving DecidableEq, Repr

/-- What the two passes read: the sets of classes in the order in which they are walked,
with a wrapper typedef for each included class, and the tables of the index files. -/
structure Wrapping (κ : Type) where
  graph : Classes κ
  context : κ → Context κ
  name : κ → String
  qualifiedName : κ → String
  file : κ → String
  included : List κ
  imported : List κ
  typedefLookup : κ → Option String
  findClassGroup : String → Option String
  findImportTypedef : String → Option String
  typedef_isSome : ∀ c ∈ included, (typedefLookup c).isSome

/-- The include or import node that holds the node of a class. -/
structure ClassNode (κ : Type) where
  kind : String
  file : String
  module : String
  namespaceNode : Option String
  swigClass : κ
  typedefName : String
  ignored : Bool
deriving DecidableEq, Repr

/-- The tree below `top` and the sets that `CreateSwigClassInNamespace` writes. -/
structure State (κ : Type) where
  top : List (ClassNode κ) := []
  processed : List κ := []
  namespacesToUse : List String := []
  errors : List (κ × String) := []

namespace Wrapping

variable (w : Wrapping κ)

/-- `GetName` of a context. -/
def contextName : Context κ → String
  | .namespace [] => "::"
  | .namespace (n :: _) => n
  | .cls c => w.name c

/-- `GetContext` of a context. -/
def contextOf : Context κ → Option (Context κ)
  | .namespace [] => none
  | .namespace (_ :: outer) => some (.namespace outer)
  | .cls c => some (w.context c)

/-- The context around that of the class, where it has a name of its own. -/
def outerContext (c : κ) : Option (Context κ) :=
  (w.contextOf (w.context c)).filter fun context => w.contextName context ≠ "::"

/-- `CreateSwigClassInNamespace` skips the class as a nested one. -/
def skips (c : κ) : Bool :=
  match w.outerContext c, w.context c with
  | some _, .cls _ => true
  | _, _ => false

/-- The namespace node around a class that is not in the global namespace. -/
def namespaceNode (c : κ) : Option String :=
  match w.context c with
  | .namespace (n :: _) => some n
  | _ => none

/-- The node that `CreateSwigClassInNamespace` appends. -/
def classNode (c : κ) (td swigtype moduleName : String) : ClassNode κ where
  kind := swigtype
  file := w.file c
  module := moduleName
  namespaceNode := w.namespaceNode c
  swigClass := c
  typedefName := td
  ignored := match w.contextOf (w.context c) with
    | some (.cls _) => true
    | _ => false

variable [DecidableEq κ]

/-- `CreateSwigClassInNamespace`, with whether a class node was returned. -/
def createSwigClassInNamespace (c : κ) (td swigtype moduleName : String) (s : State κ) :
    State κ × Bool :=
  if c ∈ s.processed then (s, false)
  else
    let s := { s with processed := c :: s.processed }
    if w.skips c then (s, false)
    else
      let s := match w.outerContext c with
        | some context => { s with
            namespacesToUse := s.namespacesToUse ++ [w.contextName context] }
        | none => s
      ({ s with top := s.top ++ [w.classNode c td swigtype moduleName] }, true)

/-- `feature:ignore` set on the class node created last. -/
def setIgnored (s : State κ) : State κ :=
  match s.top.reverse with
  | [] => s
  | n :: ns => { s with top := ns.reverse ++ [{ n with ignored := true }] }

/-- A class of the group being wrapped; `reporter` is the class at whose line a missing
typedef is reported. -/
def includeClass (moduleName : String) (reporter c : κ) (s : State κ) : State κ :=
  match w.typedefLookup c with
  | some td => (w.createSwigClassInNamespace c td "include" moduleName s).1
  | none => { s with errors := s.errors ++ [(reporter, "no typedef found in map")] }

/-- A class of another group is imported under its module, and one that is in no group is
included under its file and ignored. -/
def importClass (c : κ) (s : State κ) : State κ :=
  match w.findClassGroup (w.qualifiedName c) with
  | some group =>
    -- `FindImportTypedef` falls back to the name that it is asked for.
    let cname := (w.findImportTypedef (w.qualifiedName c)).getD (w.qualifiedName c)
    (w.createSwigClassInNamespace c cname "import" group s).1
  | none =>
    let (s, created) := w.createSwigClassInNamespace c (w.name c) "include" (w.file c) s
    if created then setIgnored s else s

/-- The body of the loops over the base classes. -/
def processParent (moduleName : String) (c p : κ) (s : State κ) : State κ :=
  if p ∈ w.included then w.includeClass moduleName c p s else w.importClass p s

/-- The loops over the base classes, from the last to the first. -/
def processParents (moduleName : String) (c : κ) (s : State κ) : State κ :=
  (getAllBaseClasses w.graph c).foldr (w.processParent moduleName c) s

/-- `ProcessImportedClasses`. -/
def processImportedClasses (moduleName : String) (s : State κ) : State κ :=
  w.imported.foldl (fun s c => w.importClass c (w.processParents moduleName c s)) s

/-- `ProcessIncludedClasses`. -/
def processIncludedClasses (moduleName : String) (s : State κ) : State κ :=
  w.included.foldl (fun s c => w.includeClass moduleName c c (w.processParents moduleName c s)) s

/-- The two passes as `ProcessSource` runs them: the first one under the module that it
makes for imported classes. -/
def processClasses (moduleName : String) : State κ :=
  w.processIncludedClasses moduleName (w.processImportedClasses "cableImport" {})

end Wrapping

/-- What one visit of a class does: nothing if it was processed before, else it is processed,
and unless it is skipped a node for it, of the kind `P`, goes to the end of the tree. -/
inductive Visited (w : Wrapping κ) (P : ClassNode κ → Prop) (s : State κ) (c : κ) (s' : State κ) :
    Prop
  | seen : c ∈ s.processed → s'.processed = s.processed → s'.top = s.top → Visited w P s c s'
  | skipped : c ∉ s.processed → w.skips c = true → s'.processed = c :: s.processed →
      s'.top = s.top → Visited w P s c s'
  | created (n : ClassNode κ) : c ∉ s.processed → w.skips c = false →
      s'.processed = c :: s.processed → s'.top = s.top ++ [n] → n.swigClass = c → P n →
      Visited w P s c s'

section Visits

variable [DecidableEq κ] (w : Wrapping κ) {P : ClassNode κ → Prop}

theorem create_visited (c : κ) (td swigtype moduleName : String) (s : State κ)
    (hP : P (w.classNode c td swigtype moduleName)) :
    Visited w P s c (w.createSwigClassInNamespace c td swigtype moduleName s).1 := by
  unfold Wrapping.createSwigClassInNamespace
  split
  · rename_i hc
    exact .seen hc rfl rfl
  · rename_i hc
    simp only
    split
    · rename_i hskip
      exact .skipped hc hskip rfl rfl
    · rename_i hskip
      refine .created _ hc (by simpa using hskip) ?_ ?_ rfl hP
      all_goals split <;> rfl

omit [DecidableEq κ] in
theorem setIgnored_append (s : State κ) (top : List (ClassNode κ)) (n : ClassNode κ)
    (h : s.top = top ++ [n]) :
    (Wrapping.setIgnored s).top = top ++ [{ n with ignored := true }] ∧
      (Wrapping.setIgnored s).processed = s.processed := by
  simp [Wrapping.setIgnored, h]

/-- A class of the group has its node under the module of the pass. -/
theorem includeClass_visited {c : κ} (hc : c ∈ w.included) (moduleName : String) (reporter : κ)
    (s : State κ) (hP : ∀ td, P (w.classNode c td "include" moduleName)) :
    Visited w P s c (w.includeClass moduleName reporter c s) := by
  obtain ⟨td, htd⟩ := Option.isSome_iff_exists.mp (w.typedef_isSome c hc)
  simp only [Wrapping.includeClass, htd]
  exact create_visited w c td "include" moduleName s (hP td)

/-- Any other class has its node under some module. -/
theorem importClass_visited (c : κ) (s : State κ) (hP : ∀ n : ClassNode κ, n.swigClass = c → P n) :
    Visited w P s c (w.importClass c s) := by
  unfold Wrapping.importClass
  split
  · exact create_visited w c _ "import" _ s (hP _ rfl)
  · have hvisited := create_visited w c (w.name c) "include" (w.file c) s (P := P) (hP _ rfl)
    cases hcreated : w.createSwigClassInNamespace c (w.name c) "include" (w.file c) s with
    | mk s' created =>
      rw [hcreated] at hvisited
      cases created with
      | false => exact hvisited
      | true =>
        simp only [if_true]
        unfold Wrapping.createSwigClassInNamespace at hcreated
        split at hcreated
        · simp at hcreated
        · simp only at hcreated
          split at hcreated
          · simp at hcreated
          · rename_i hseen hskip
            cases hvisited with
            | seen hc _ _ => exact absurd hc hseen
            | skipped _ hs _ _ => exact absurd hs hskip
            | created n hc hs hprocessed htop hn _ =>
              obtain ⟨htop', hprocessed'⟩ := setIgnored_append s' s.top n htop
              exact .created _ hc hs (hprocessed'.trans hprocessed) htop' hn (hP _ hn)

/-- The body of the loops over the base classes. -/
theorem processParent_visited (moduleName : String) (c p : κ) (s : State κ)
    (hin : p ∈ w.included → ∀ td, P (w.classNode p td "include" moduleName))
    (hout : p ∉ w.included → ∀ n : ClassNode κ, n.swigClass = p → P n) :
    Visited w P s p (w.processParent moduleName c p s) := by
  unfold Wrapping.processParent
  split
  · rename_i hp
    exact includeClass_visited w hp moduleName c s (hin hp)
  · rename_i hp
    exact importClass_visited w p s (hout hp)

end Visits

/-- The processed classes stand behind those derived from them, no class is processed twice,
and the tree has a node for each one that is not skipped, in the order of processing. -/
structure Ordered (w : Wrapping κ) (s : State κ) : Prop where
  nodup : s.processed.Nodup
  later : BasesLater w.graph s.processed
  top_eq : s.top.map ClassNode.swigClass = (s.processed.filter fun c => !w.skips c).reverse

theorem ordered_start (w : Wrapping κ) : Ordered w {} := ⟨List.nodup_nil, trivial, rfl⟩

variable {w : Wrapping κ} {P : ClassNode κ → Prop} {s s' : State κ} {c : κ}

theorem Visited.mem (h : Visited w P s c s') : c ∈ s'.processed := by
  cases h with
  | seen hc hp _ => exact hp ▸ hc
  | skipped _ _ hp _ => rw [hp]; exact List.mem_cons_self
  | created _ _ _ hp _ _ _ => rw [hp]; exact List.mem_cons_self

theorem Visited.subset (h : Visited w P s c s') : ∀ p ∈ s.processed, p ∈ s'.processed := by
  intro p hmem
  cases h with
  | seen _ hp _ => exact hp ▸ hmem
  | skipped _ _ hp _ => rw [hp]; exact List.mem_cons_of_mem _ hmem
  | created _ _ _ hp _ _ _ => rw [hp]; exact List.mem_cons_of_mem _ hmem

theorem Visited.processed_eq_or (h : Visited w P s c s') :
    ∀ p ∈ s'.processed, p = c ∨ p ∈ s.processed := by
  intro p hp
  cases h with
  | seen _ hprocessed _ => exact Or.inr (hprocessed ▸ hp)
  | skipped _ _ hprocessed _ => exact List.mem_cons.mp (hprocessed ▸ hp)
  | created _ _ _ hprocessed _ _ _ => exact List.mem_cons.mp (hprocessed ▸ hp)

theorem Visited.top_prefix (h : Visited w P s c s') :
    ∃ new, s'.top = s.top ++ new ∧ ∀ n ∈ new, P n := by
  cases h with
  | seen _ _ ht => exact ⟨[], by rw [ht, List.append_nil], by simp⟩
  | skipped _ _ _ ht => exact ⟨[], by rw [ht, List.append_nil], by simp⟩
  | created n _ _ _ ht _ hP => exact ⟨[n], ht, by simpa using hP⟩

/-- A visit made when the bases of the class have been processed keeps the order. -/
theorem Visited.ordered (h : Visited w P s c s') (hs : Ordered w s)
    (hbases : ∀ b, Derives w.graph c b → b ∈ s.processed) : Ordered w s' := by
  cases h with
  | seen _ hp ht => exact ⟨hp ▸ hs.nodup, hp ▸ hs.later, by rw [ht, hp]; exact hs.top_eq⟩
  | skipped hc hskip hp ht =>
    refine ⟨?_, ?_, ?_⟩
    · rw [hp]; exact List.nodup_cons.mpr ⟨hc, hs.nodup⟩
    · rw [hp]; exact ⟨hbases, hs.later⟩
    · rw [ht, hp, List.filter_cons_of_neg (by simp [hskip])]
      exact hs.top_eq
  | created n hc hskip hp ht hn _ =>
    refine ⟨?_, ?_, ?_⟩
    · rw [hp]; exact List.nodup_cons.mpr ⟨hc, hs.nodup⟩
    · rw [hp]; exact ⟨hbases, hs.later⟩
    · rw [ht, hp, List.filter_cons_of_pos (by simp [hskip]), List.reverse_cons, List.map_append,
        hs.top_eq, List.map_singleton, hn]

/-- Several visits: what was processed stays so, and the tree only grows by such nodes. -/
structure Extends (P : ClassNode κ → Prop) (s s' : State κ) : Prop where
  processed : ∀ p ∈ s.processed, p ∈ s'.processed
  top : ∃ new, s'.top = s.top ++ new ∧ ∀ n ∈ new, P n

theorem Extends.refl (P : ClassNode κ → Prop) (s : State κ) : Extends P s s :=
  ⟨fun _ h => h, [], by simp, by simp⟩

theorem Extends.trans {s'' : State κ} (h : Extends P s s') (h' : Extends P s' s'') :
    Extends P s s'' := by
  obtain ⟨new, hnew, hP⟩ := h.top
  obtain ⟨new', hnew', hP'⟩ := h'.top
  refine ⟨fun p hp => h'.processed p (h.processed p hp), new ++ new', ?_, ?_⟩
  · rw [hnew', hnew, List.append_assoc]
  · intro n hn
    rcases List.mem_append.mp hn with hn | hn
    · exact hP n hn
    · exact hP' n hn

theorem Visited.extends (h : Visited w P s c s') : Extends P s s' := ⟨h.subset, h.top_prefix⟩

/-- The loop over the base classes, by induction on the list from its end. -/
theorem foldr_visits {visit : κ → State κ → State κ} (l : List κ)
    (hvisit : ∀ p ∈ l, ∀ s, Visited w P s p (visit p s)) (hl : BasesLater w.graph l)
    (hs : Ordered w s) :
    Ordered w (l.foldr visit s) ∧ Extends P s (l.foldr visit s) ∧
      ∀ p ∈ l, p ∈ (l.foldr visit s).processed := by
  induction l with
  | nil => exact ⟨hs, Extends.refl P s, by simp⟩
  | cons p l ih =>
    obtain ⟨hp, hl⟩ := hl
    obtain ⟨ho, he, hmem⟩ := ih (fun q hq => hvisit q (List.mem_cons_of_mem _ hq)) hl
    have hv := hvisit p List.mem_cons_self (l.foldr visit s)
    refine ⟨hv.ordered ho fun b hb => hmem b (hp b hb), he.trans hv.extends, ?_⟩
    intro q hq
    rcases List.mem_cons.mp hq with rfl | hq
    · exact hv.mem
    · exact hv.subset q (hmem q hq)

/-- A pass over a set of classes, each visited after its bases, by induction on the set. -/
theorem foldl_visits {parents : κ → State κ → State κ} {visit : κ → State κ → State κ}
    (l : List κ)
    (hparents : ∀ c ∈ l, ∀ s, Ordered w s → Ordered w (parents c s) ∧ Extends P s (parents c s) ∧
      ∀ b, Derives w.graph c b → b ∈ (parents c s).processed)
    (hvisit : ∀ c ∈ l, ∀ s, Visited w P s c (visit c s)) :
    ∀ {s : State κ}, Ordered w s →
      Ordered w (l.foldl (fun s c => visit c (parents c s)) s) ∧
      Extends P s (l.foldl (fun s c => visit c (parents c s)) s) ∧
      ∀ c ∈ l, c ∈ (l.foldl (fun s c => visit c (parents c s)) s).processed ∧
        ∀ b, Derives w.graph c b →
          b ∈ (l.foldl (fun s c => visit c (parents c s)) s).processed := by
  induction l with
  | nil => intro s hs; exact ⟨hs, Extends.refl P s, by simp⟩
  | cons c l ih =>
    intro s hs
    obtain ⟨ho, he, hb⟩ := hparents c List.mem_cons_self s hs
    have hv := hvisit c List.mem_cons_self (parents c s)
    obtain ⟨ho', he', hmem⟩ := ih (fun d hd => hparents d (List.mem_cons_of_mem _ hd))
      (fun d hd => hvisit d (List.mem_cons_of_mem _ hd)) (hv.ordered ho hb)
    refine ⟨ho', (he.trans hv.extends).trans he', ?_⟩
    intro d hd
    rcases List.mem_cons.mp hd with rfl | hd
    · exact ⟨he'.processed _ hv.mem,
        fun b hd => he'.processed b (hv.subset b (hb b hd))⟩
    · exact hmem d hd

section Passes

variable [DecidableEq κ] (w : Wrapping κ) {P : ClassNode κ → Prop} (moduleName : String)

theorem processParents_visits (c : κ)
    (hin : ∀ p ∈ w.included, Derives w.graph c p →
      ∀ td, P (w.classNode p td "include" moduleName))
    (hout : ∀ n : ClassNode κ, n.swigClass ∉ w.included → P n) (s : State κ) (hs : Ordered w s) :
    Ordered w (w.processParents moduleName c s) ∧ Extends P s (w.processParents moduleName c s) ∧
      ∀ b, Derives w.graph c b → b ∈ (w.processParents moduleName c s).processed := by
  obtain ⟨ho, he, hmem⟩ := foldr_visits (w := w) (P := P) (getAllBaseClasses w.graph c)
    (fun p hp s => processParent_visited w moduleName c p s
      (fun h => hin p h (getAllBaseClasses_iff.mp hp)) (fun h n hn => hout n (hn ▸ h)))
    (getAllBaseClasses_basesLater w.graph c) hs
  exact ⟨ho, he, fun b hb => hmem b (getAllBaseClasses_iff.mpr hb)⟩

/-- The classes that a pass over this set of classes reaches. -/
def Reached (l : List κ) (p : κ) : Prop := ∃ c ∈ l, c = p ∨ Derives w.graph c p

theorem processImportedClasses_visits
    (hin : ∀ p ∈ w.included, ∀ c ∈ w.imported, Derives w.graph c p →
      ∀ td, P (w.classNode p td "include" moduleName))
    (himported : ∀ c ∈ w.imported, ∀ n : ClassNode κ, n.swigClass = c → P n)
    (hout : ∀ n : ClassNode κ, n.swigClass ∉ w.included → P n) {s : State κ} (hs : Ordered w s) :
    Ordered w (w.processImportedClasses moduleName s) ∧
      Extends P s (w.processImportedClasses moduleName s) ∧
      ∀ p, Reached w w.imported p → p ∈ (w.processImportedClasses moduleName s).processed := by
  obtain ⟨ho, he, hmem⟩ := foldl_visits (w := w) (P := P) w.imported
    (fun c hc s hs => processParents_visits w moduleName c
      (fun p hp hd => hin p hp c hc hd) hout s hs)
    (fun c hc s => importClass_visited w c s (himported c hc)) hs
  refine ⟨ho, he, ?_⟩
  rintro p ⟨c, hc, rfl | hd⟩
  · exact (hmem c hc).1
  · exact (hmem c hc).2 p hd

theorem processIncludedClasses_visits
    (hin : ∀ p ∈ w.included, ∀ td, P (w.classNode p td "include" moduleName))
    (hout : ∀ n : ClassNode κ, n.swigClass ∉ w.included → P n) {s : State κ} (hs : Ordered w s) :
    Ordered w (w.processIncludedClasses moduleName s) ∧
      Extends P s (w.processIncludedClasses moduleName s) ∧
      ∀ p, Reached w w.included p → p ∈ (w.processIncludedClasses moduleName s).processed := by
  obtain ⟨ho, he, hmem⟩ := foldl_visits (w := w) (P := P) w.included
    (fun c _ s hs => processParents_visits w moduleName c (fun p hp _ => hin p hp) hout s hs)
    (fun c hc s => includeClass_visited w hc moduleName c s (hin c hc)) hs
  refine ⟨ho, he, ?_⟩
  rintro p ⟨c, hc, rfl | hd⟩
  · exact (hmem c hc).1
  · exact (hmem c hc).2 p hd

/-- After both passes every class of the two sets has been processed, in order. -/
theorem processClasses_ordered :
    Ordered w (w.processClasses moduleName) ∧
      ∀ c, c ∈ w.included ∨ c ∈ w.imported → c ∈ (w.processClasses moduleName).processed := by
  obtain ⟨ho, -, hmem⟩ := processImportedClasses_visits w (P := fun _ => True) "cableImport"
    (fun _ _ _ _ _ _ => trivial) (fun _ _ _ _ => trivial) (fun _ _ => trivial) (ordered_start w)
  obtain ⟨ho', he', hmem'⟩ := processIncludedClasses_visits w (P := fun _ => True) moduleName
    (fun _ _ _ => trivial) (fun _ _ => trivial) ho
  refine ⟨ho', ?_⟩
  rintro c (hc | hc)
  · exact hmem' c ⟨c, hc, Or.inl rfl⟩
  · exact he'.processed c (hmem c ⟨c, hc, Or.inl rfl⟩)

end Passes

theorem skips_namespace {path : List String} (h : w.context c = .namespace path) :
    w.skips c = false := by
  unfold Wrapping.skips
  rw [h]
  split <;> simp_all

/-- In an ordered state, the nodes of the bases that are not skipped come before a node. -/
theorem Ordered.base_before (h : Ordered w s) {pre post : List (ClassNode κ)} {n : ClassNode κ}
    (htop : s.top = pre ++ n :: post) {b : κ} (hb : Derives w.graph n.swigClass b)
    (hskip : w.skips b = false) : ∃ n' ∈ pre, n'.swigClass = b := by
  have hlist : ∀ l : List κ, BasesLater w.graph l → ∀ pre' post',
      (l.filter fun c => !w.skips c).reverse = pre' ++ n.swigClass :: post' →
      l.Nodup → b ∈ pre' := by
    intro l
    induction l with
    | nil => intro _ pre' post' hl; simp at hl
    | cons c l ih =>
      rintro ⟨hc, hl⟩ pre' post' heq hnodup
      obtain ⟨-, hnodup⟩ := List.nodup_cons.mp hnodup
      cases hs : w.skips c with
      | true =>
        rw [List.filter_cons_of_neg (by simp [hs])] at heq
        exact ih hl pre' post' heq hnodup
      | false =>
        rw [List.filter_cons_of_pos (by simp [hs]), List.reverse_cons] at heq
        rcases List.eq_nil_or_concat post' with rfl | ⟨post', d, rfl⟩
        · obtain ⟨rfl, hcn⟩ := List.append_inj' heq rfl
          obtain rfl : c = n.swigClass := by simpa using hcn
          simp only [List.mem_reverse, List.mem_filter, hskip, Bool.not_false, and_true]
          exact hc b hb
        · rw [List.concat_eq_append, ← List.cons_append, ← List.append_assoc] at heq
          exact ih hl pre' post' (List.append_inj' heq rfl).1 hnodup
  have heq : (s.processed.filter fun c => !w.skips c).reverse =
      pre.map ClassNode.swigClass ++ n.swigClass :: post.map ClassNode.swigClass := by
    rw [← h.top_eq, htop, List.map_append, List.map_cons]
  exact List.mem_map.mp (hlist s.processed h.later _ _ heq h.nodup)

/-- The two passes append at most one node for a class, one for each included or imported
class whose context is a namespace, and before each node the nodes of its bases, direct or
indirect, that are not skipped. -/
theorem bases_before_derived [DecidableEq κ] (w : Wrapping κ) (moduleName : String) :
    ((w.processClasses moduleName).top.map ClassNode.swigClass).Nodup ∧
      (∀ c, c ∈ w.included ∨ c ∈ w.imported → ∀ path, w.context c = .namespace path →
        ∃ n ∈ (w.processClasses moduleName).top, n.swigClass = c) ∧
      ∀ pre n post, (w.processClasses moduleName).top = pre ++ n :: post →
        ∀ b, Derives w.graph n.swigClass b → w.skips b = false → ∃ n' ∈ pre, n'.swigClass = b := by
  obtain ⟨h, hmem⟩ := processClasses_ordered w moduleName
  refine ⟨?_, ?_, fun pre n post htop b hb hskip => h.base_before htop hb hskip⟩
  · rw [h.top_eq, (List.reverse_perm _).nodup_iff]
    exact h.nodup.filter _
  · intro c hc path hpath
    have htop : c ∈ (w.processClasses moduleName).top.map ClassNode.swigClass := by
      rw [h.top_eq, List.mem_reverse, List.mem_filter]
      exact ⟨hmem c hc, by simp [skips_namespace hpath]⟩
    exact List.mem_map.mp htop

end CableSwig.Executables.SwigTree
