import CableSwig.CxxTypes.TypeSystem

/-!
# One address for each type

The eight maps taken together are a bijection between addresses and keys. Read
through the denotation of addresses it becomes a bijection between the addresses
handed out and the type terms asked for, which is what lets every client compare
types by comparing pointers.
-/
namespace CableSwig.CxxTypes.HashConsing

open CableSwig.Lib.OrderedMap
open CableSwig.CxxTypes.TypeSystem

variable {α : Type}

/-- A qualified pointer, once it is known what its address stands for. -/
def cvTermOf (den : α → Option TypeTerm) (t : CvQualifiedType α) : Option CvTerm :=
  (den t.type).map fun term => .mk term t.isConst t.isVolatile

/-- The term a key stands for, once it is known what addresses stand for. -/
def termOf (den : α → Option TypeTerm) : MapKey α → Option TypeTerm
  | ⟨.arrayType, (e, n)⟩ => (cvTermOf den e).map (.arrayType · n)
  | ⟨.classType, name⟩ => some (.classType name)
  | ⟨.enumerationType, name⟩ => some (.enumerationType name)
  | ⟨.functionType, (r, as)⟩ =>
      (cvTermOf den r).bind fun r' => (as.mapM (cvTermOf den)).map (.functionType r')
  | ⟨.fundamentalType, id⟩ => some (.fundamentalType id)
  | ⟨.pointerType, t⟩ => (cvTermOf den t).map .pointerType
  | ⟨.pointerToMemberType, (t, c)⟩ =>
      (cvTermOf den t).bind fun t' =>
        match den c with
        | some (.classType name) => some (.pointerToMemberType t' name)
        | _ => none
  | ⟨.referenceType, t⟩ => (cvTermOf den t).map .referenceType

/-- The term below an address, unfolding at most so many objects. -/
def denote (heap : α → Option (TypeNode α)) : Nat → α → Option TypeTerm
  | 0, _ => none
  | n + 1, p => (heap p).bind fun node => termOf (denote heap n) node.key

def Denotes (heap : α → Option (TypeNode α)) (p : α) (t : TypeTerm) : Prop :=
  ∃ n, denote heap n p = some t

/-- The type term that a call asks for. -/
def Asked (heap : α → Option (TypeNode α)) (c : Call α) (t : TypeTerm) : Prop :=
  ∃ n, termOf (denote heap n) c.node.key = some t

/-- `den'` knows everything that `den` knows. -/
def Extends (den den' : α → Option TypeTerm) : Prop :=
  ∀ p t, den p = some t → den' p = some t

theorem cvTermOf_some {den : α → Option TypeTerm} {t : CvQualifiedType α} {c : CvTerm} :
    cvTermOf den t = some c ↔
      ∃ term, den t.type = some term ∧ c = .mk term t.isConst t.isVolatile := by
  rw [cvTermOf, Option.map_eq_some_iff]
  exact ⟨fun ⟨term, h, hc⟩ => ⟨term, h, hc.symm⟩, fun ⟨term, h, hc⟩ => ⟨term, h, hc.symm⟩⟩

theorem cvTermOf_mono {den den' : α → Option TypeTerm} (h : Extends den den')
    {t : CvQualifiedType α} {c : CvTerm} (ht : cvTermOf den t = some c) :
    cvTermOf den' t = some c := by
  rw [cvTermOf_some] at ht ⊢
  obtain ⟨term, hterm, hc⟩ := ht
  exact ⟨term, h _ _ hterm, hc⟩

theorem mapM_cvTermOf_mono {den den' : α → Option TypeTerm} (h : Extends den den')
    {as : List (CvQualifiedType α)} {ts : List CvTerm} (ht : as.mapM (cvTermOf den) = some ts) :
    as.mapM (cvTermOf den') = some ts := by
  induction as generalizing ts with
  | nil => simpa using ht
  | cons a as ih =>
    simp only [List.mapM_cons, Option.pure_def, Option.bind_eq_bind, Option.bind_eq_some_iff,
      Option.some.injEq] at ht ⊢
    obtain ⟨c, hc, cs, hcs, rfl⟩ := ht
    exact ⟨c, cvTermOf_mono h hc, cs, ih hcs, rfl⟩

/-- One case for each representation: a key keeps its term when more addresses are known. -/
theorem termOf_mono {den den' : α → Option TypeTerm} (h : Extends den den') {key : MapKey α}
    {t : TypeTerm} (ht : termOf den key = some t) : termOf den' key = some t := by
  obtain ⟨k, x⟩ := key
  cases k with
  | arrayType =>
    simp only [termOf, Option.map_eq_some_iff] at ht ⊢
    obtain ⟨c, hc, rfl⟩ := ht
    exact ⟨c, cvTermOf_mono h hc, rfl⟩
  | classType => exact ht
  | enumerationType => exact ht
  | functionType =>
    simp only [termOf, Option.bind_eq_some_iff, Option.map_eq_some_iff] at ht ⊢
    obtain ⟨r, hr, as, has, rfl⟩ := ht
    exact ⟨r, cvTermOf_mono h hr, as, mapM_cvTermOf_mono h has, rfl⟩
  | fundamentalType => exact ht
  | pointerType =>
    simp only [termOf, Option.map_eq_some_iff] at ht ⊢
    obtain ⟨c, hc, rfl⟩ := ht
    exact ⟨c, cvTermOf_mono h hc, rfl⟩
  | pointerToMemberType =>
    simp only [termOf, Option.bind_eq_some_iff] at ht ⊢
    obtain ⟨c, hc, ht⟩ := ht
    refine ⟨c, cvTermOf_mono h hc, ?_⟩
    split at ht
    · rename_i name hname
      rw [h _ _ hname]
      exact ht
    · simp at ht
  | referenceType =>
    simp only [termOf, Option.map_eq_some_iff] at ht ⊢
    obtain ⟨c, hc, rfl⟩ := ht
    exact ⟨c, cvTermOf_mono h hc, rfl⟩

/-- Two readings that never give one term to different addresses. -/
def Separates (den den' : α → Option TypeTerm) : Prop :=
  ∀ p q t, den p = some t → den' q = some t → p = q

theorem cvTermOf_inj {den den' : α → Option TypeTerm} (h : Separates den den')
    {t t' : CvQualifiedType α} {c : CvTerm} (ht : cvTermOf den t = some c)
    (ht' : cvTermOf den' t' = some c) : t = t' := by
  rw [cvTermOf_some] at ht ht'
  obtain ⟨term, hterm, rfl⟩ := ht
  obtain ⟨term', hterm', he⟩ := ht'
  simp only [CvTerm.mk.injEq] at he
  obtain ⟨rfl, hc, hv⟩ := he
  have hp : t.type = t'.type := h _ _ _ hterm hterm'
  cases t
  cases t'
  simp only [TypeSystem.CvQualifiedType.mk.injEq]
  exact ⟨hp, hc, hv⟩

theorem mapM_cvTermOf_inj {den den' : α → Option TypeTerm} (h : Separates den den')
    {as as' : List (CvQualifiedType α)} {ts : List CvTerm}
    (ht : as.mapM (cvTermOf den) = some ts) (ht' : as'.mapM (cvTermOf den') = some ts) :
    as = as' := by
  induction as generalizing as' ts with
  | nil =>
    obtain rfl : ts = [] := by simpa using ht.symm
    cases as' with
    | nil => rfl
    | cons a' as' =>
      simp [List.mapM_cons, Option.bind_eq_some_iff] at ht'
  | cons a as ih =>
    simp only [List.mapM_cons, Option.pure_def, Option.bind_eq_bind, Option.bind_eq_some_iff,
      Option.some.injEq] at ht
    obtain ⟨c, hc, cs, hcs, rfl⟩ := ht
    cases as' with
    | nil => simp at ht'
    | cons a' as' =>
      simp only [List.mapM_cons, Option.pure_def, Option.bind_eq_bind, Option.bind_eq_some_iff,
        Option.some.injEq, List.cons.injEq] at ht'
      obtain ⟨c', hc', cs', hcs', rfl, rfl⟩ := ht'
      rw [cvTermOf_inj h hc hc', ih hcs hcs']

/-- The map a term is kept in. -/
def representation : TypeTerm → RepresentationType
  | .arrayType _ _ => .arrayType
  | .classType _ => .classType
  | .enumerationType _ => .enumerationType
  | .functionType _ _ => .functionType
  | .fundamentalType _ => .fundamentalType
  | .pointerType _ => .pointerType
  | .pointerToMemberType _ _ => .pointerToMemberType
  | .referenceType _ => .referenceType

theorem representation_of_termOf {den : α → Option TypeTerm} {key : MapKey α} {t : TypeTerm}
    (ht : termOf den key = some t) : representation t = key.1 := by
  obtain ⟨k, x⟩ := key
  cases k with
  | pointerToMemberType =>
    simp only [termOf, Option.bind_eq_some_iff] at ht
    obtain ⟨c, -, ht⟩ := ht
    split at ht
    · obtain rfl := Option.some.inj ht
      rfl
    · simp at ht
  | functionType =>
    simp only [termOf, Option.bind_eq_some_iff, Option.map_eq_some_iff] at ht
    obtain ⟨_, -, _, -, rfl⟩ := ht
    rfl
  | arrayType | pointerType | referenceType =>
    simp only [termOf, Option.map_eq_some_iff] at ht
    obtain ⟨_, -, rfl⟩ := ht
    rfl
  | classType | enumerationType | fundamentalType =>
    obtain rfl := Option.some.inj ht
    rfl

/-- No key forgets a component: equal terms come from equal keys. -/
theorem termOf_inj {den den' : α → Option TypeTerm} (h : Separates den den') {key key' : MapKey α}
    {t : TypeTerm} (ht : termOf den key = some t) (ht' : termOf den' key' = some t) :
    key = key' := by
  have hk := (representation_of_termOf ht).symm.trans (representation_of_termOf ht')
  obtain ⟨k, x⟩ := key
  obtain ⟨k', x'⟩ := key'
  obtain rfl : k = k' := hk
  congr 1
  cases k with
  | arrayType =>
    simp only [termOf, Option.map_eq_some_iff] at ht ht'
    obtain ⟨c, hc, rfl⟩ := ht
    obtain ⟨c', hc', he⟩ := ht'
    simp only [TypeTerm.arrayType.injEq] at he
    obtain ⟨rfl, hn⟩ := he
    exact Prod.ext (cvTermOf_inj h hc hc') hn.symm
  | classType =>
    simp only [termOf, Option.some.injEq] at ht ht'
    exact TypeTerm.classType.inj (ht.trans ht'.symm)
  | enumerationType =>
    simp only [termOf, Option.some.injEq] at ht ht'
    exact TypeTerm.enumerationType.inj (ht.trans ht'.symm)
  | functionType =>
    simp only [termOf, Option.bind_eq_some_iff, Option.map_eq_some_iff] at ht ht'
    obtain ⟨r, hr, as, has, rfl⟩ := ht
    obtain ⟨r', hr', as', has', he⟩ := ht'
    simp only [TypeTerm.functionType.injEq] at he
    obtain ⟨rfl, rfl⟩ := he
    exact Prod.ext (cvTermOf_inj h hr hr') (mapM_cvTermOf_inj h has has')
  | fundamentalType =>
    simp only [termOf, Option.some.injEq] at ht ht'
    exact TypeTerm.fundamentalType.inj (ht.trans ht'.symm)
  | pointerType =>
    simp only [termOf, Option.map_eq_some_iff] at ht ht'
    obtain ⟨c, hc, rfl⟩ := ht
    obtain ⟨c', hc', he⟩ := ht'
    obtain rfl := TypeTerm.pointerType.inj he
    exact cvTermOf_inj h hc hc'
  | pointerToMemberType =>
    simp only [termOf, Option.bind_eq_some_iff] at ht ht'
    obtain ⟨c, hc, ht⟩ := ht
    obtain ⟨c', hc', ht'⟩ := ht'
    split at ht
    · rename_i name hname
      split at ht'
      · rename_i name' hname'
        obtain rfl := Option.some.inj ht
        have he := Option.some.inj ht'
        simp only [TypeTerm.pointerToMemberType.injEq] at he
        obtain ⟨rfl, rfl⟩ := he
        exact Prod.ext (cvTermOf_inj h hc hc') (h _ _ _ hname hname')
      · simp at ht'
    · simp at ht
  | referenceType =>
    simp only [termOf, Option.map_eq_some_iff] at ht ht'
    obtain ⟨c, hc, rfl⟩ := ht
    obtain ⟨c', hc', he⟩ := ht'
    obtain rfl := TypeTerm.referenceType.inj he
    exact cvTermOf_inj h hc hc'

/-- Every object of `heap` is still in `heap'`, under the same key. -/
def Keeps (heap heap' : α → Option (TypeNode α)) : Prop :=
  ∀ p node, heap p = some node → ∃ node', heap' p = some node' ∧ node'.key = node.key

theorem denote_mono {heap heap' : α → Option (TypeNode α)} (h : Keeps heap heap') {n m : Nat}
    (hnm : n ≤ m) : Extends (denote heap n) (denote heap' m) := by
  induction n generalizing m with
  | zero => intro p t ht; simp [denote] at ht
  | succ n ih =>
    intro p t ht
    obtain ⟨m, rfl⟩ : ∃ k, m = k + 1 := ⟨m - 1, by omega⟩
    simp only [denote, Option.bind_eq_some_iff] at ht ⊢
    obtain ⟨node, hnode, ht⟩ := ht
    obtain ⟨node', hnode', hkey⟩ := h p node hnode
    refine ⟨node', hnode', ?_⟩
    rw [hkey]
    exact termOf_mono (ih (by omega)) ht

theorem keeps_refl (heap : α → Option (TypeNode α)) : Keeps heap heap :=
  fun _ node h => ⟨node, h, rfl⟩

theorem denotes_keeps {heap heap' : α → Option (TypeNode α)} (h : Keeps heap heap') {p : α}
    {t : TypeTerm} (hd : Denotes heap p t) : Denotes heap' p t := by
  obtain ⟨n, hn⟩ := hd
  exact ⟨n, denote_mono h (Nat.le_refl n) p t hn⟩

theorem asked_keeps {heap heap' : α → Option (TypeNode α)} (h : Keeps heap heap') {c : Call α}
    {t : TypeTerm} (ha : Asked heap c t) : Asked heap' c t := by
  obtain ⟨n, hn⟩ := ha
  exact ⟨n, termOf_mono (denote_mono h (Nat.le_refl n)) hn⟩

/-- An address denotes at most one term, however deep it is unfolded. -/
theorem denotes_unique {heap : α → Option (TypeNode α)} {p : α} {t t' : TypeTerm}
    (h : Denotes heap p t) (h' : Denotes heap p t') : t = t' := by
  obtain ⟨n, hn⟩ := h
  obtain ⟨m, hm⟩ := h'
  have h1 := denote_mono (keeps_refl heap) (Nat.le_max_left n m) p t hn
  have h2 := denote_mono (keeps_refl heap) (Nat.le_max_right n m) p t' hm
  exact Option.some.inj (h1.symm.trans h2)

theorem asked_unique {heap : α → Option (TypeNode α)} {c : Call α} {t t' : TypeTerm}
    (h : Asked heap c t) (h' : Asked heap c t') : t = t' := by
  obtain ⟨n, hn⟩ := h
  obtain ⟨m, hm⟩ := h'
  have h1 := termOf_mono (denote_mono (keeps_refl heap) (Nat.le_max_left n m)) hn
  have h2 := termOf_mono (denote_mono (keeps_refl heap) (Nat.le_max_right n m)) hm
  exact Option.some.inj (h1.symm.trans h2)

/-- What is known of an address is what is known of the key of its object. -/
theorem denotes_iff_key {heap : α → Option (TypeNode α)} {p : α} {node : TypeNode α}
    (hp : heap p = some node) (t : TypeTerm) :
    Denotes heap p t ↔ ∃ n, termOf (denote heap n) node.key = some t := by
  constructor
  · rintro ⟨n, hn⟩
    cases n with
    | zero => simp [denote] at hn
    | succ n => exact ⟨n, by simpa [denote, hp] using hn⟩
  · rintro ⟨n, hn⟩
    exact ⟨n + 1, by simpa [denote, hp] using hn⟩

theorem denote_class {heap : α → Option (TypeNode α)} {p : α} {name : String} {c : Bool}
    {ps : List α} (h : heap p = some (.classType name c ps)) (n : Nat) :
    denote heap (n + 1) p = some (.classType name) := by
  simp [denote, h, TypeNode.key, termOf]

/-- A merge leaves all but the copyable flag and the parents of a class. -/
theorem merge_eq_or_class (c : Call α) (node : TypeNode α) :
    c.merge node = node ∨ ∃ name copyable parents copyable' parents',
      node = .classType name copyable parents ∧
        c.merge node = .classType name copyable' parents' := by
  cases c with
  | getClassType name cp ps =>
    cases node with
    | classType n cp' ps' => exact Or.inr ⟨n, cp', ps', _, _, rfl, rfl⟩
    | _ => exact Or.inl rfl
  | _ => exact Or.inl rfl

section Ordered

variable [LinearOrder α]

/-- The maps find exactly the allocated objects, and each object stands for a type. -/
structure WellFormed (ts : Factory α) : Prop where
  stored : ∀ (key : MapKey α) p, (ts.maps key.1).find (keyLess key.1) key.2 = some p ↔
    ∃ node, ts.heap p = some node ∧ node.key = key
  denotes : ∀ p node, ts.heap p = some node → ∃ t, Denotes ts.heap p t

theorem wellFormed_empty : WellFormed (Factory.empty : Factory α) where
  stored key p := by simp [Factory.empty]
  denotes p node h := by simp [Factory.empty] at h

/-- Equal terms sit at equal addresses, by induction on the depth of the first. -/
theorem denote_separates {ts : Factory α} (hw : WellFormed ts) (n m : Nat) :
    Separates (denote ts.heap n) (denote ts.heap m) := by
  induction n generalizing m with
  | zero => intro p q t hp _; simp [denote] at hp
  | succ n ih =>
    intro p q t hp hq
    cases m with
    | zero => simp [denote] at hq
    | succ m =>
      simp only [denote, Option.bind_eq_some_iff] at hp hq
      obtain ⟨np, hnp, htp⟩ := hp
      obtain ⟨nq, hnq, htq⟩ := hq
      have hkey : np.key = nq.key := termOf_inj (ih m) htp htq
      have hfp := (hw.stored np.key p).mpr ⟨np, hnp, rfl⟩
      have hfq := (hw.stored np.key q).mpr ⟨nq, hnq, hkey.symm⟩
      exact Option.some.inj (hfp.symm.trans hfq)

/-- What `intern` does: it returns the object stored under the key after `merge`, or
stores the new object under it. -/
theorem intern_cases {ts : Factory α} (hw : WellFormed ts) (key : MapKey α) (node : TypeNode α)
    (merge : TypeNode α → TypeNode α) (new : α) :
    (∃ p old, ts.heap p = some old ∧ old.key = key ∧
      intern ts key node merge new = (⟨Function.update ts.heap p (some (merge old)), ts.maps⟩, p)) ∨
    ((ts.maps key.1).find (keyLess key.1) key.2 = none ∧
      intern ts key node merge new =
        (⟨Function.update ts.heap new (some node),
          Function.update ts.maps key.1 ((ts.maps key.1).insert (keyLess key.1) key.2 new)⟩,
          new)) := by
  cases hf : (ts.maps key.1).find (keyLess key.1) key.2 with
  | some p =>
    obtain ⟨old, hold, hkey⟩ := (hw.stored key p).mp hf
    refine Or.inl ⟨p, old, hold, hkey, ?_⟩
    simp only [intern, hf, hold, Option.map_some]
  | none =>
    refine Or.inr ⟨rfl, ?_⟩
    simp only [intern, hf]

/-- A call changes no object but by merging class information into it. -/
theorem run_keeps_objects {ts : Factory α} (hw : WellFormed ts) {c : Call α} {new : α}
    (hv : c.Valid ts new) {p : α} {node : TypeNode α} (hp : ts.heap p = some node) :
    (c.run ts new).1.heap p = some node ∨ (c.run ts new).1.heap p = some (c.merge node) := by
  rw [run_eq_intern]
  rcases intern_cases hw c.node.key c.node c.merge new with ⟨q, old, hq, -, he⟩ | ⟨-, he⟩
  · rw [he]
    by_cases hpq : p = q
    · subst hpq
      obtain rfl := Option.some.inj (hp.symm.trans hq)
      exact Or.inr (by simp)
    · exact Or.inl (by simpa [hpq] using hp)
  · rw [he]
    have hne : p ≠ new := by
      rintro rfl
      rw [hv.fresh] at hp
      simp at hp
    exact Or.inl (by simpa [hne] using hp)

theorem run_keeps {ts : Factory α} (hw : WellFormed ts) {c : Call α} {new : α}
    (hv : c.Valid ts new) : Keeps ts.heap (c.run ts new).1.heap := by
  intro p node hp
  rcases run_keeps_objects hw hv hp with h | h
  · exact ⟨node, h, rfl⟩
  · exact ⟨c.merge node, h, key_merge c node⟩

theorem cvTermOf_exists {ts : Factory α} (hw : WellFormed ts) {t : CvQualifiedType α}
    (h : (ts.heap t.type).isSome) : ∃ n c, cvTermOf (denote ts.heap n) t = some c := by
  obtain ⟨node, hnode⟩ := Option.isSome_iff_exists.mp h
  obtain ⟨term, n, hn⟩ := hw.denotes _ _ hnode
  exact ⟨n, _, cvTermOf_some.mpr ⟨term, hn, rfl⟩⟩

theorem mapM_cvTermOf_exists {ts : Factory α} (hw : WellFormed ts)
    (as : List (CvQualifiedType α)) (h : ∀ a ∈ as, (ts.heap a.type).isSome) :
    ∃ n cs, as.mapM (cvTermOf (denote ts.heap n)) = some cs := by
  induction as with
  | nil => exact ⟨0, [], rfl⟩
  | cons a as ih =>
    obtain ⟨n, c, hc⟩ := cvTermOf_exists hw (h a (by simp))
    obtain ⟨m, cs, hcs⟩ := ih (fun b hb => h b (by simp [hb]))
    have hk := keeps_refl ts.heap
    refine ⟨max n m, c :: cs, ?_⟩
    simp only [List.mapM_cons, Option.pure_def, Option.bind_eq_bind, Option.bind_eq_some_iff]
    exact ⟨c, cvTermOf_mono (denote_mono hk (Nat.le_max_left n m)) hc, cs,
      mapM_cvTermOf_mono (denote_mono hk (Nat.le_max_right n m)) hcs, rfl⟩

/-- A well-typed call asks for a type. -/
theorem valid_asked {ts : Factory α} (hw : WellFormed ts) {c : Call α} {new : α}
    (hv : c.Valid ts new) : ∃ t, Asked ts.heap c t := by
  have hcomp := hv.components
  cases c with
  | getArrayType e len =>
    obtain ⟨n, c, hc⟩ := cvTermOf_exists hw (hcomp e.type (by simp [Call.node, TypeNode.key,
      MapKey.components]))
    exact ⟨.arrayType c len, n, by simp [Call.node, TypeNode.key, termOf, hc]⟩
  | getClassType name cp ps => exact ⟨.classType name, 0, rfl⟩
  | getEnumerationType name => exact ⟨.enumerationType name, 0, rfl⟩
  | getFunctionType r as =>
    obtain ⟨n, c, hc⟩ := cvTermOf_exists hw (hcomp r.type (by simp [Call.node, TypeNode.key,
      MapKey.components]))
    obtain ⟨m, cs, hcs⟩ := mapM_cvTermOf_exists hw as (fun a ha => hcomp a.type (by
      simp only [Call.node, TypeNode.key, MapKey.components, List.mem_cons, List.mem_map]
      exact Or.inr ⟨a, ha, rfl⟩))
    have hk := keeps_refl ts.heap
    have hr := cvTermOf_mono (denote_mono hk (Nat.le_max_left n m)) hc
    have has := mapM_cvTermOf_mono (denote_mono hk (Nat.le_max_right n m)) hcs
    exact ⟨.functionType c cs, max n m, by simp [Call.node, TypeNode.key, termOf, hr, has]⟩
  | getFundamentalType id' => exact ⟨.fundamentalType id', 0, rfl⟩
  | getPointerType t =>
    obtain ⟨n, c, hc⟩ := cvTermOf_exists hw (hcomp t.type (by simp [Call.node, TypeNode.key,
      MapKey.components]))
    exact ⟨.pointerType c, n, by simp [Call.node, TypeNode.key, termOf, hc]⟩
  | getPointerToMemberType t cls =>
    obtain ⟨n, c, hc⟩ := cvTermOf_exists hw (hcomp t.type (by simp [Call.node, TypeNode.key,
      MapKey.components]))
    obtain ⟨name, cp, ps, hcls⟩ := hv.classType t cls rfl
    have hk := keeps_refl ts.heap
    have ht := cvTermOf_mono (denote_mono hk (Nat.le_succ n)) hc
    exact ⟨.pointerToMemberType c name, n + 1, by
      simp [Call.node, TypeNode.key, termOf, ht, denote_class hcls]⟩
  | getReferenceType t =>
    obtain ⟨n, c, hc⟩ := cvTermOf_exists hw (hcomp t.type (by simp [Call.node, TypeNode.key,
      MapKey.components]))
    exact ⟨.referenceType c, n, by simp [Call.node, TypeNode.key, termOf, hc]⟩

/-- The object at the returned address has the key of the call. -/
theorem run_returned {ts : Factory α} (hw : WellFormed ts) (c : Call α) (new : α) :
    ∃ node, (c.run ts new).1.heap (c.run ts new).2 = some node ∧ node.key = c.node.key := by
  rw [run_eq_intern]
  rcases intern_cases hw c.node.key c.node c.merge new with ⟨p, old, -, hkey, he⟩ | ⟨-, he⟩
  · rw [he]
    exact ⟨c.merge old, by simp, (key_merge c old).trans hkey⟩
  · rw [he]
    exact ⟨c.node, by simp, rfl⟩

/-- A returned address denotes what was asked for. -/
theorem run_denotes {ts : Factory α} (hw : WellFormed ts) {c : Call α} {new : α}
    (hv : c.Valid ts new) {t : TypeTerm} (ha : Asked ts.heap c t) :
    Denotes (c.run ts new).1.heap (c.run ts new).2 t := by
  obtain ⟨node, hnode, hkey⟩ := run_returned hw c new
  rw [denotes_iff_key hnode, hkey]
  exact asked_keeps (run_keeps hw hv) ha

theorem find_update {maps : (k : RepresentationType) → StdMap (Key α k) α} {key key' : MapKey α}
    (new : α) (hne : key ≠ key') :
    ((Function.update maps key.1 ((maps key.1).insert (keyLess key.1) key.2 new)) key'.1).find
      (keyLess key'.1) key'.2 = (maps key'.1).find (keyLess key'.1) key'.2 := by
  obtain ⟨k, x⟩ := key
  obtain ⟨k', x'⟩ := key'
  by_cases hk : k = k'
  · subst hk
    have hx : x ≠ x' := fun hx => hne (by rw [hx])
    simp only [Function.update_self]
    exact StdMap.find_insert_of_ne (keyLess_strictTotal k) new hx
  · simp [Function.update_of_ne (Ne.symm hk)]

theorem run_wellFormed {ts : Factory α} (hw : WellFormed ts) {c : Call α} {new : α}
    (hv : c.Valid ts new) : WellFormed (c.run ts new).1 := by
  have hkeeps := run_keeps hw hv
  obtain ⟨t, ha⟩ := valid_asked hw hv
  have hret := run_denotes hw hv ha
  rw [run_eq_intern] at hkeeps hret ⊢
  rcases intern_cases hw c.node.key c.node c.merge new with ⟨p, old, hp, hkey, he⟩ | ⟨hnone, he⟩
  · rw [he] at hkeeps hret ⊢
    constructor
    · intro key q
      rw [hw.stored key q]
      by_cases hq : q = p
      · subst hq
        simp only [Function.update_self, Option.some.injEq, exists_eq_left', key_merge]
        simp [hp]
      · simp [hq]
    · intro q node hq
      by_cases hqp : q = p
      · exact ⟨t, hqp ▸ hret⟩
      · simp only [ne_eq, hqp, not_false_eq_true, Function.update_of_ne] at hq
        obtain ⟨t', ht'⟩ := hw.denotes q node hq
        exact ⟨t', denotes_keeps hkeeps ht'⟩
  · rw [he] at hkeeps hret ⊢
    constructor
    · intro key q
      by_cases hk : c.node.key = key
      · subst hk
        simp only [Function.update_self]
        rw [StdMap.find_insert_self (keyLess_strictTotal _) new hnone]
        constructor
        · intro h
          obtain rfl := Option.some.inj h
          exact ⟨c.node, by simp, rfl⟩
        · rintro ⟨node, hnode, hkey⟩
          by_cases hq : q = new
          · rw [hq]
          · simp only [ne_eq, hq, not_false_eq_true, Function.update_of_ne] at hnode
            have := (hw.stored c.node.key q).mpr ⟨node, hnode, hkey⟩
            rw [hnone] at this
            simp at this
      · rw [find_update new hk, hw.stored key q]
        by_cases hq : q = new
        · subst hq
          simp [hv.fresh, hk]
        · simp [hq]
    · intro q node hq
      by_cases hqn : q = new
      · exact ⟨t, hqn ▸ hret⟩
      · simp only [ne_eq, hqn, not_false_eq_true, Function.update_of_ne] at hq
        obtain ⟨t', ht'⟩ := hw.denotes q node hq
        exact ⟨t', denotes_keeps hkeeps ht'⟩

/-- One executed call: what it asked for, and the address it returned. -/
structure CallRecord (α : Type) where
  call : Call α
  asked : TypeTerm
  pointer : α

/-- The factories reachable from the empty one, with the calls that led there. -/
inductive History : Factory α → List (CallRecord α) → Prop
  | start : History Factory.empty []
  | call {ts : Factory α} {records : List (CallRecord α)} (c : Call α) (new : α)
      (asked : TypeTerm) : History ts records → c.Valid ts new → Asked ts.heap c asked →
      History (c.run ts new).1 (records ++ [⟨c, asked, (c.run ts new).2⟩])

theorem history_wellFormed {ts : Factory α} {records : List (CallRecord α)}
    (h : History ts records) : WellFormed ts := by
  induction h with
  | start => exact wellFormed_empty
  | call c new asked _ hv _ ih => exact run_wellFormed ih hv

/-- Later calls leave every address denoting what it was asked for. -/
theorem history_denotes {ts : Factory α} {records : List (CallRecord α)}
    (h : History ts records) : ∀ r ∈ records, Denotes ts.heap r.pointer r.asked := by
  induction h with
  | start => simp
  | call c new asked hist hv ha ih =>
    have hw := history_wellFormed hist
    intro r hr
    rcases List.mem_append.mp hr with hold | hnew
    · exact denotes_keeps (run_keeps hw hv) (ih r hold)
    · simp only [List.mem_singleton] at hnew
      subst hnew
      exact run_denotes hw hv ha

/-- Two calls return one address exactly when they asked for one type term. -/
theorem history_pointer_eq_iff {ts : Factory α} {records : List (CallRecord α)}
    (h : History ts records) {r₁ r₂ : CallRecord α} (h₁ : r₁ ∈ records) (h₂ : r₂ ∈ records) :
    r₁.pointer = r₂.pointer ↔ r₁.asked = r₂.asked := by
  have hden := history_denotes h
  constructor
  · intro hp
    exact denotes_unique (hden r₁ h₁) (hp ▸ hden r₂ h₂)
  · intro ht
    obtain ⟨n, hn⟩ := hden r₁ h₁
    obtain ⟨m, hm⟩ := hden r₂ h₂
    exact denote_separates (history_wellFormed h) n m _ _ _ hn (ht ▸ hm)

/-- Pointer equality decides type equality. Two calls of a history return one address
exactly when they asked for one type term; an address goes on denoting the term it was
asked for and nothing else; the next call is always for some term and changes no object
beyond the class information of a class; and the comparison that the maps use is a strict
total order whose ties are the equal qualified pointers. -/
theorem types_are_hash_consed {ts : Factory α} {records : List (CallRecord α)}
    (h : History ts records) :
    (∀ r₁ ∈ records, ∀ r₂ ∈ records, r₁.pointer = r₂.pointer ↔ r₁.asked = r₂.asked) ∧
    (∀ r ∈ records, ∀ t, Denotes ts.heap r.pointer t ↔ t = r.asked) ∧
    (∀ (c : Call α) (new : α), c.Valid ts new →
      (∃! t, Asked ts.heap c t) ∧
      ∀ p node, ts.heap p = some node → ∃ node', (c.run ts new).1.heap p = some node' ∧
        (node' = node ∨ ∃ name copyable parents copyable' parents',
          node = .classType name copyable parents ∧
            node' = .classType name copyable' parents')) ∧
    StrictTotal (CvQualifiedType.less : CvQualifiedType α → CvQualifiedType α → Bool) ∧
    (∀ l r : CvQualifiedType α,
      l.equal r = true ↔ l.less r = false ∧ r.less l = false) := by
  have hw := history_wellFormed h
  have hden := history_denotes h
  refine ⟨?_, ?_, ?_, CvQualifiedType.less_strictTotal, ?_⟩
  · exact fun r₁ h₁ r₂ h₂ => history_pointer_eq_iff h h₁ h₂
  · intro r hr t
    exact ⟨fun ht => denotes_unique ht (hden r hr), fun ht => ht ▸ hden r hr⟩
  · intro c new hv
    obtain ⟨t, ha⟩ := valid_asked hw hv
    refine ⟨⟨t, ha, fun t' ha' => asked_unique ha' ha⟩, ?_⟩
    intro p node hp
    rcases run_keeps_objects hw hv hp with hsame | hmerged
    · exact ⟨node, hsame, Or.inl rfl⟩
    · exact ⟨c.merge node, hmerged, merge_eq_or_class c node⟩
  · intro l r
    have ho := CvQualifiedType.less_strictTotal (α := α)
    rw [CvQualifiedType.equal_iff]
    constructor
    · rintro rfl
      exact ⟨ho.irrefl l, ho.irrefl l⟩
    · rintro ⟨h1, h2⟩
      exact ho.eq_of_not_less h1 h2

end Ordered

/-- `int`, then `const int*`, then a class asked for twice with different information. -/
theorem types_are_hash_consed_run :
    ∃ (ts : Factory Nat) (records : List (CallRecord Nat)), History ts records ∧
      records.map (·.pointer) = [7, 3, 9, 9] ∧
      ∀ r₁ ∈ records, ∀ r₂ ∈ records, r₁.pointer = r₂.pointer ↔ r₁.asked = r₂.asked := by
  have h1 := History.call (.getFundamentalType .int) 7 (.fundamentalType .int)
    (History.start (α := Nat)) ⟨by simp [Call.node, TypeNode.key, MapKey.components],
      by simp, rfl⟩ ⟨0, rfl⟩
  have h2 := History.call (.getPointerType ⟨7, true, false⟩) 3
    (.pointerType (.mk (.fundamentalType .int) true false)) h1
    ⟨by simp [Call.node, TypeNode.key, MapKey.components, Call.run, getFundamentalType, intern,
        Factory.empty], by simp, rfl⟩ ⟨1, rfl⟩
  have h3 := History.call (.getClassType "A" false []) 9 (.classType "A") h2
    ⟨by simp [Call.node, TypeNode.key, MapKey.components], by simp, rfl⟩ ⟨0, rfl⟩
  have h4 := History.call (.getClassType "A" true [9]) 4 (.classType "A") h3
    ⟨by simp [Call.node, TypeNode.key, MapKey.components], by simp, rfl⟩ ⟨0, rfl⟩
  exact ⟨_, _, h4, rfl, (types_are_hash_consed h4).1⟩

end CableSwig.CxxTypes.HashConsing
