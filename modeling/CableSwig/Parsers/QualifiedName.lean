import CableSwig.CxxTypes.HashConsing
import CableSwig.Lib.StdString
import Mathlib.Data.Fin.VecNotation

/-!
# Qualified names

Classes and enumerations are interned under the name that `Named::GetQualifiedName` puts
together along the context chain, after the parser has set the name of each element.
-/
namespace CableSwig.Parsers.QualifiedName

open CableSwig.CxxTypes
open CableSwig.CxxTypes.TypeSystem
open CableSwig.CxxTypes.HashConsing
open CableSwig.Lib.StdString

/-- The elements that `AddElementRepresentation` turns into a `Named`. -/
inductive ElementName
  | namespace | namespaceAlias | enumeration | cls | struct | union | typedef | variable | field
  | function | method | constructor | destructor | operatorFunction | operatorMethod | converter
deriving DecidableEq, Repr

/-- What `SetupNamed` reads of an element to name it. -/
structure Element (ι : Type) where
  element : ElementName
  name : Option Text
  context : Option ι
deriving DecidableEq

namespace Element

variable {ι : Type} (e : Element ι)

/-- The name that `SetupNamed` sets. Without one, only some elements get a name. -/
def setupNamed : Option Text :=
  match e.name, e.element with
  | some n, _ => some n
  | none, .namespace => some "\x7banonymous-namespace\x7d".toList
  | none, .struct => some "\x7banonymous-struct\x7d".toList
  | none, .union => some "\x7banonymous-union\x7d".toList
  | none, .cls => some "\x7banonymous-class\x7d".toList
  | none, .constructor => some "\x7banonymous-constructor\x7d".toList
  | none, _ => none

/-- `GetName` once the element is added: `AddEnumeration` drops compiler-made names. -/
def getName : Text :=
  match e.element, e.setupNamed.getD [] with
  | .enumeration, '.' :: _ => []
  | _, n => n

/-- `Context::SafeDownCast` succeeds. -/
def isContext : Bool :=
  e.element ∈ [.namespace, .namespaceAlias, .cls, .struct, .union]

/-- `Class::SafeDownCast` succeeds. -/
def isClass : Bool := e.element ∈ [.cls, .struct, .union]

def isEnumeration : Bool := e.element = .enumeration

/-- The name can be a part of the qualified name of a class or an enumeration. -/
def isQualifying : Bool := e.isContext || e.isEnumeration

/-- `Namespace::IsGlobalNamespace`. -/
def isGlobalNamespace : Bool :=
  e.element = .namespace ∧ e.name = some "::".toList ∧ e.context.isNone

end Element

/-- The elements of a dump by their ids. Contexts do not form a cycle, `SetupNamed` finds a
name for every element, and the names of contexts and enumerations are those of C++: only the
global namespace starts with a colon, and a colon elsewhere stands inside template arguments,
where no name ends. -/
structure ElementTable (ι : Type) where
  element : ι → Element ι
  rank : ι → Nat
  context_lt : ∀ i c, (element i).context = some c → rank c < rank i
  named : ∀ i, (element i).setupNamed.isSome
  name_start : ∀ i n, (element i).isQualifying = true → (element i).name = some n →
    (element i).isGlobalNamespace = true ∨ ∃ c r, n = c :: r ∧ c ≠ ':' ∧ c ≠ '{'
  name_end : ∀ i j n m, (element i).isQualifying = true → (element j).isQualifying = true →
    (element i).name = some n → (element j).name = some m → ¬ n ++ [':'] <+: m

namespace ElementTable

variable {ι : Type} (t : ElementTable ι)

/-- The context that `SetupNamed` sets. -/
def contextOf (i : ι) : Option ι := (t.element i).context.filter fun c => (t.element c).isContext

/-- A recursion into the context, for contexts at most so deep. -/
def alongContextsAt {β : Type} [Inhabited β] (f : ι → Option (ι × β) → β) : Nat → ι → β
  | 0, _ => default
  | depth + 1, i => f i ((t.contextOf i).map fun c => (c, alongContextsAt f depth c))

/-- A recursion into the context. -/
def alongContexts {β : Type} [Inhabited β] (f : ι → Option (ι × β) → β) (i : ι) : β :=
  t.alongContextsAt f (t.rank i + 1) i

/-- `GetQualifiedName`. -/
def getQualifiedName : ι → Text :=
  t.alongContexts fun i context =>
    match context with
    | some (_, name) =>
      (if name = "::".toList then [] else name ++ "::".toList) ++ (t.element i).getName
    | none => (t.element i).getName

/-- The names along the context chain, from outside in. The chain starts inside the global
namespace, or inside an element that is no context, such as a function. -/
def scopePath : ι → List Text :=
  t.alongContexts fun i context =>
    match context with
    | some (c, path) =>
      (if (t.element c).isGlobalNamespace then [] else path) ++ [(t.element i).getName]
    | none => [(t.element i).getName]

end ElementTable

section Names

variable {ι : Type} (t : ElementTable ι)

theorem contextOf_eq_some {i c : ι} (h : t.contextOf i = some c) :
    (t.element i).context = some c ∧ (t.element c).isContext = true := by
  rw [ElementTable.contextOf, Option.filter_eq_some_iff] at h
  exact h

theorem context_rank_lt {i c : ι} (h : t.contextOf i = some c) : t.rank c < t.rank i :=
  t.context_lt i c (contextOf_eq_some t h).1

/-- Induction along the contexts. -/
theorem context_induction {P : ι → Prop}
    (h : ∀ i, (∀ c, t.contextOf i = some c → P c) → P i) (i : ι) : P i := by
  suffices hall : ∀ r i, t.rank i < r → P i from hall (t.rank i + 1) i (Nat.lt_succ_self _)
  intro r
  induction r with
  | zero => intro i hi; omega
  | succ r ih =>
    intro i hi
    refine h i fun c hc => ih c ?_
    have hlt := context_rank_lt t hc
    omega

theorem alongContextsAt_eq {β : Type} [Inhabited β] (f : ι → Option (ι × β) → β) (i : ι) :
    ∀ {n m : Nat}, t.rank i < n → t.rank i < m →
      t.alongContextsAt f n i = t.alongContextsAt f m i := by
  induction i using context_induction t with
  | h i ih =>
    intro n m hn hm
    obtain ⟨n, rfl⟩ : ∃ k, n = k + 1 := ⟨n - 1, by omega⟩
    obtain ⟨m, rfl⟩ : ∃ k, m = k + 1 := ⟨m - 1, by omega⟩
    simp only [ElementTable.alongContextsAt]
    cases hc : t.contextOf i with
    | none => rfl
    | some c =>
      have hlt := context_rank_lt t hc
      simp only [Option.map_some, ih c hc (show t.rank c < n by omega) (show t.rank c < m by omega)]

theorem alongContexts_eq {β : Type} [Inhabited β] (f : ι → Option (ι × β) → β) (i : ι) :
    t.alongContexts f i = f i ((t.contextOf i).map fun c => (c, t.alongContexts f c)) := by
  rw [ElementTable.alongContexts, ElementTable.alongContextsAt]
  cases hc : t.contextOf i with
  | none => rfl
  | some c =>
    have hlt := context_rank_lt t hc
    simp only [Option.map_some, ElementTable.alongContexts,
      alongContextsAt_eq t f c hlt (show t.rank c < t.rank c + 1 by omega)]

theorem getQualifiedName_of_none {i : ι} (h : t.contextOf i = none) :
    t.getQualifiedName i = (t.element i).getName := by
  rw [ElementTable.getQualifiedName, alongContexts_eq, h]
  rfl

theorem getQualifiedName_of_some {i c : ι} (h : t.contextOf i = some c) :
    t.getQualifiedName i = (if t.getQualifiedName c = "::".toList then []
      else t.getQualifiedName c ++ "::".toList) ++ (t.element i).getName := by
  rw [ElementTable.getQualifiedName, alongContexts_eq, h]
  rfl

theorem scopePath_of_none {i : ι} (h : t.contextOf i = none) :
    t.scopePath i = [(t.element i).getName] := by
  rw [ElementTable.scopePath, alongContexts_eq, h]
  rfl

theorem scopePath_of_some {i c : ι} (h : t.contextOf i = some c) :
    t.scopePath i = (if (t.element c).isGlobalNamespace then [] else t.scopePath c) ++
      [(t.element i).getName] := by
  rw [ElementTable.scopePath, alongContexts_eq, h]
  rfl

theorem scopePath_ne_nil (i : ι) : t.scopePath i ≠ [] := by
  cases h : t.contextOf i with
  | none =>
    rw [scopePath_of_none t h]
    exact List.cons_ne_nil _ _
  | some c =>
    rw [scopePath_of_some t h]
    exact List.append_ne_nil_of_right_ne_nil _ (List.cons_ne_nil _ _)

/-- What an element can be called: nothing, a name that the parser made up, or the name that
it was given. -/
def IsName (n : Text) : Prop :=
  n = [] ∨ (∃ r, n = '{' :: r ∧ ':' ∉ n) ∨
    ∃ i, (t.element i).isQualifying = true ∧ (t.element i).isGlobalNamespace = false ∧
      (t.element i).name = some n

theorem setupNamed_cases (i : ι) : (t.element i).name = (t.element i).setupNamed ∨
    ∃ r, (t.element i).setupNamed = some ('{' :: r) ∧ ':' ∉ '{' :: r := by
  have hnamed := t.named i
  unfold Element.setupNamed at hnamed ⊢
  split
  · rename_i hname
    exact Or.inl hname
  · exact Or.inr ⟨_, rfl, by decide⟩
  · exact Or.inr ⟨_, rfl, by decide⟩
  · exact Or.inr ⟨_, rfl, by decide⟩
  · exact Or.inr ⟨_, rfl, by decide⟩
  · exact Or.inr ⟨_, rfl, by decide⟩
  · rename_i hname _ _ _ _ _
    exact Or.inl hname

theorem isQualifying_of_isContext {e : Element ι} (h : e.isContext = true) :
    e.isQualifying = true := by rw [Element.isQualifying, h, Bool.true_or]

theorem setupNamed_isName {i : ι} (hqualifying : (t.element i).isQualifying = true)
    (hi : (t.element i).isGlobalNamespace = false) {n : Text}
    (h : (t.element i).setupNamed = some n) : IsName t n := by
  rcases setupNamed_cases t i with hname | ⟨r, hr, hcolon⟩
  · exact Or.inr (Or.inr ⟨i, hqualifying, hi, hname.trans h⟩)
  · obtain rfl := Option.some.inj (h.symm.trans hr)
    exact Or.inr (Or.inl ⟨r, rfl, hcolon⟩)

theorem getName_cases (i : ι) : (t.element i).setupNamed = some (t.element i).getName ∨
    (t.element i).isContext = false ∧ (t.element i).getName = [] := by
  obtain ⟨n, hn⟩ := Option.isSome_iff_exists.mp (t.named i)
  unfold Element.getName
  rw [hn, Option.getD_some]
  split
  · rename_i hkind
    exact Or.inr ⟨by simp [Element.isContext, hkind], rfl⟩
  · exact Or.inl rfl

theorem getName_isName {i : ι} (hqualifying : (t.element i).isQualifying = true)
    (hi : (t.element i).isGlobalNamespace = false) : IsName t (t.element i).getName := by
  rcases getName_cases t i with h | ⟨-, h⟩
  · exact setupNamed_isName t hqualifying hi h
  · exact Or.inl h

/-- A name of an element other than the global namespace does not start with a colon. -/
theorem isName_start {n : Text} (h : IsName t n) : ∀ r, n ≠ ':' :: r := by
  intro r hr
  rcases h with rfl | ⟨r', rfl, -⟩ | ⟨i, hqualifying, hi, hname⟩
  · cases hr
  · cases hr
  · rcases t.name_start i n hqualifying hname with h | ⟨c, r', rfl, hc, -⟩
    · rw [hi] at h
      cases h
    · exact hc (List.cons.inj hr).1

/-- No name goes on as another one with a colon. -/
theorem isName_end {n m : Text} (hn : IsName t n) (hm : IsName t m) : ¬ n ++ [':'] <+: m := by
  rintro ⟨s, hs⟩
  rcases hn with rfl | ⟨r, rfl, -⟩ | ⟨i, hqi, -, hi⟩
  · exact isName_start t hm s hs.symm
  · rcases hm with rfl | ⟨r', -, hcolon⟩ | ⟨j, hqj, hj, hname⟩
    · cases hs
    · exact hcolon (by rw [← hs]; simp)
    · rcases t.name_start j m hqj hname with h | ⟨c, r', rfl, -, hc⟩
      · rw [hj] at h
        cases h
      · exact hc (List.cons.inj hs).1.symm
  · rcases hm with rfl | ⟨r', -, hcolon⟩ | ⟨j, hqj, -, hj⟩
    · simp at hs
    · exact hcolon (by rw [← hs]; simp)
    · exact t.name_end i j n m hqi hqj hi hj ⟨s, hs⟩

theorem isGlobalNamespace_iff {e : Element ι} : e.isGlobalNamespace = true ↔
    e.element = .namespace ∧ e.name = some "::".toList ∧ e.context = none := by
  simp [Element.isGlobalNamespace]

theorem getQualifiedName_global {c : ι} (h : (t.element c).isGlobalNamespace = true) :
    t.getQualifiedName c = "::".toList := by
  obtain ⟨hkind, hname, hcontext⟩ := isGlobalNamespace_iff.mp h
  have hnone : t.contextOf c = none := by rw [ElementTable.contextOf, hcontext]; rfl
  rw [getQualifiedName_of_none t hnone]
  simp [Element.getName, Element.setupNamed, hkind, hname]

/-- Only the global namespace is called `::`. -/
theorem getQualifiedName_start (c : ι) : (t.element c).isContext = true →
    (t.element c).isGlobalNamespace = false →
      ∃ a r, t.getQualifiedName c = a :: r ∧ a ≠ ':' := by
  have hown : ∀ i, (t.element i).isContext = true → (t.element i).isGlobalNamespace = false →
      ∃ a r, (t.element i).getName = a :: r ∧ a ≠ ':' := by
    intro i hcontext hi
    rcases getName_cases t i with h | ⟨hn, -⟩
    · rcases setupNamed_cases t i with hname | ⟨r, hr, -⟩
      · have hqualifying := isQualifying_of_isContext hcontext
        rcases t.name_start i _ hqualifying (hname.trans h) with hg | ⟨a, r, hr, ha, -⟩
        · rw [hi] at hg
          cases hg
        · exact ⟨a, r, hr, ha⟩
      · exact ⟨'{', r, Option.some.inj (h.symm.trans hr), by decide⟩
    · rw [hcontext] at hn
      cases hn
  induction c using context_induction t with
  | h i ih =>
    intro hcontext hi
    cases hc : t.contextOf i with
    | none =>
      rw [getQualifiedName_of_none t hc]
      exact hown i hcontext hi
    | some c =>
      rw [getQualifiedName_of_some t hc]
      split
      · exact hown i hcontext hi
      · rename_i hne
        cases hg : (t.element c).isGlobalNamespace with
        | true => exact absurd (getQualifiedName_global t hg) hne
        | false =>
          obtain ⟨a, r, hr, ha⟩ := ih c hc (contextOf_eq_some t hc).2 hg
          exact ⟨a, r ++ "::".toList ++ (t.element i).getName, by rw [hr]; rfl, ha⟩

/-- The qualified name is the names of the context chain, joined. -/
theorem getQualifiedName_eq_intercalate (i : ι) :
    t.getQualifiedName i = "::".toList.intercalate (t.scopePath i) := by
  induction i using context_induction t with
  | h i ih =>
    cases hc : t.contextOf i with
    | none =>
      rw [getQualifiedName_of_none t hc, scopePath_of_none t hc, List.intercalate_singleton]
    | some c =>
      rw [getQualifiedName_of_some t hc, scopePath_of_some t hc]
      cases hg : (t.element c).isGlobalNamespace with
      | true =>
        rw [if_pos (getQualifiedName_global t hg), if_pos rfl, List.nil_append, List.nil_append,
          List.intercalate_singleton]
      | false =>
        obtain ⟨a, r, hr, ha⟩ := getQualifiedName_start t c (contextOf_eq_some t hc).2 hg
        have hne : t.getQualifiedName c ≠ "::".toList := by
          intro h
          exact ha (List.cons.inj (hr.symm.trans h)).1
        rw [if_neg hne, if_neg Bool.false_ne_true, intercalate_concat _ _ _ (scopePath_ne_nil t c),
          ih c hc]

theorem scopePath_isName (i : ι) : (t.element i).isQualifying = true →
    (t.element i).isGlobalNamespace = false → ∀ n ∈ t.scopePath i, IsName t n := by
  induction i using context_induction t with
  | h i ih =>
    intro hqualifying hi n hn
    cases hc : t.contextOf i with
    | none =>
      rw [scopePath_of_none t hc, List.mem_singleton] at hn
      exact hn ▸ getName_isName t hqualifying hi
    | some c =>
      rw [scopePath_of_some t hc, List.mem_append, List.mem_singleton] at hn
      rcases hn with hn | hn
      · cases hg : (t.element c).isGlobalNamespace with
        | true => simp [hg] at hn
        | false =>
          exact ih c hc (isQualifying_of_isContext (contextOf_eq_some t hc).2) hg n
            (by simpa [hg] using hn)
      · exact hn ▸ getName_isName t hqualifying hi

/-- Two elements have one qualified name exactly when their chains have the same names. -/
theorem getQualifiedName_inj {i j : ι} (hqi : (t.element i).isQualifying = true)
    (hqj : (t.element j).isQualifying = true) (hi : (t.element i).isGlobalNamespace = false)
    (hj : (t.element j).isGlobalNamespace = false) :
    t.getQualifiedName i = t.getQualifiedName j ↔ t.scopePath i = t.scopePath j := by
  rw [getQualifiedName_eq_intercalate, getQualifiedName_eq_intercalate]
  constructor
  · exact intercalate_injective (fun n m => isName_end t) _ _ (scopePath_isName t i hqi hi)
      (scopePath_isName t j hqj hj) (scopePath_ne_nil t i) (scopePath_ne_nil t j)
  · exact fun h => by rw [h]

end Names

section Types

variable {ι : Type} (t : ElementTable ι)

/-- The calls of the type system that `CreateCxxType` makes for a class or an enumeration. -/
inductive CreatesType {α : Type} (i : ι) : Call α → Prop
  | classType (isCopyable : Bool) (parents : List α) : (t.element i).isClass = true →
      CreatesType i (.getClassType (String.ofList (t.getQualifiedName i)) isCopyable parents)
  | enumerationType : (t.element i).isEnumeration = true →
      CreatesType i (.getEnumerationType (String.ofList (t.getQualifiedName i)))

/-- Whatever else is asked of the type system, different classes and enumerations are given
different types. -/
def SeparateTypes : Prop :=
  ∀ i j, i ≠ j → ∀ {α : Type} [LinearOrder α] {ts : Factory α} {records : List (CallRecord α)},
    History ts records → ∀ r ∈ records, ∀ r' ∈ records,
      CreatesType t i r.call → CreatesType t j r'.call → r.pointer ≠ r'.pointer

/-- Two different classes, and two different enumerations, never have the same names along
their context chains. -/
def SeparatePaths : Prop :=
  ∀ i j, i ≠ j → (t.element i).isClass = true ∧ (t.element j).isClass = true ∨
      (t.element i).isEnumeration = true ∧ (t.element j).isEnumeration = true →
    t.scopePath i ≠ t.scopePath j

theorem history_asked {α : Type} [LinearOrder α] {ts : Factory α}
    {records : List (CallRecord α)} (h : History ts records) :
    ∀ r ∈ records, ∃ heap, Asked heap r.call r.asked := by
  induction h with
  | start => simp
  | call c new asked _ _ ha ih =>
    intro r hr
    rcases List.mem_append.mp hr with hold | hnew
    · exact ih r hold
    · rw [List.mem_singleton.mp hnew]
      exact ⟨_, ha⟩

/-- The type term that is interned for a class or an enumeration. -/
def typeTerm (i : ι) : TypeTerm :=
  if (t.element i).isClass then .classType (String.ofList (t.getQualifiedName i))
  else .enumerationType (String.ofList (t.getQualifiedName i))

theorem enumeration_not_class {e : Element ι} (h : e.isEnumeration = true) :
    e.isClass = false := by
  have hkind : e.element = .enumeration := by simpa [Element.isEnumeration] using h
  simp [Element.isClass, hkind]

theorem asked_eq_typeTerm {α : Type} [LinearOrder α] {ts : Factory α}
    {records : List (CallRecord α)} (h : History ts records) {r : CallRecord α}
    (hr : r ∈ records) {i : ι} (hc : CreatesType t i r.call) : r.asked = typeTerm t i := by
  obtain ⟨heap, n, hn⟩ := history_asked h r hr
  rw [typeTerm]
  cases hcall : r.call with
  | getClassType name isCopyable parents =>
    rw [hcall] at hn hc
    cases hc with
    | classType _ _ hclass =>
      rw [if_pos hclass]
      exact (Option.some.inj hn).symm
  | getEnumerationType name =>
    rw [hcall] at hn hc
    cases hc with
    | enumerationType henum =>
      rw [if_neg (by rw [enumeration_not_class henum]; exact Bool.false_ne_true)]
      exact (Option.some.inj hn).symm
  | _ =>
    rw [hcall] at hc
    cases hc

theorem kind_of_creates {α : Type} {i : ι} {c : Call α} (h : CreatesType t i c) :
    (t.element i).isClass = true ∨ (t.element i).isEnumeration = true := by
  cases h with
  | classType _ _ h => exact Or.inl h
  | enumerationType h => exact Or.inr h

theorem isGlobalNamespace_of_creates {α : Type} {i : ι} {c : Call α}
    (h : CreatesType t i c) : (t.element i).isGlobalNamespace = false := by
  have hkind : (t.element i).element ≠ .namespace := by
    intro hn
    rcases kind_of_creates t h with h | h
    · simp [Element.isClass, hn] at h
    · simp [Element.isEnumeration, hn] at h
  simp [Element.isGlobalNamespace, hkind]

theorem isQualifying_of_creates {α : Type} {i : ι} {c : Call α} (h : CreatesType t i c) :
    (t.element i).isQualifying = true := by
  rcases kind_of_creates t h with h | h
  · have hkind : (t.element i).element ∈ [.cls, .struct, .union] := by
      simpa only [Element.isClass, decide_eq_true_eq] using h
    have hcontext : (t.element i).isContext = true :=
      decide_eq_true (List.mem_cons_of_mem _ (List.mem_cons_of_mem _ hkind))
    exact isQualifying_of_isContext hcontext
  · rw [Element.isQualifying, h, Bool.or_true]

theorem typeTerm_eq_iff {i j : ι} (hqi : (t.element i).isQualifying = true)
    (hqj : (t.element j).isQualifying = true) (hi : (t.element i).isGlobalNamespace = false)
    (hj : (t.element j).isGlobalNamespace = false) :
    typeTerm t i = typeTerm t j ↔
      (t.element i).isClass = (t.element j).isClass ∧ t.scopePath i = t.scopePath j := by
  have hname : String.ofList (t.getQualifiedName i) = String.ofList (t.getQualifiedName j) ↔
      t.scopePath i = t.scopePath j := by
    rw [String.ofList_inj, getQualifiedName_inj t hqi hqj hi hj]
  unfold typeTerm
  cases (t.element i).isClass <;> cases (t.element j).isClass <;> simp [hname]

/-- A factory in which the types of two elements have been created. -/
theorem history_of_two (i j : ι)
    (h : (t.element i).isClass = true ∧ (t.element j).isClass = true ∨
      (t.element i).isEnumeration = true ∧ (t.element j).isEnumeration = true) :
    ∃ (ts : Factory Nat) (records : List (CallRecord Nat)) (r r' : CallRecord Nat),
      History ts records ∧ r ∈ records ∧ r' ∈ records ∧ CreatesType t i r.call ∧
        CreatesType t j r'.call := by
  rcases h with ⟨hi, hj⟩ | ⟨hi, hj⟩
  · have h1 := History.call (.getClassType (String.ofList (t.getQualifiedName i)) true []) 0
      (.classType (String.ofList (t.getQualifiedName i))) (History.start (α := Nat))
      ⟨by simp [Call.node, TypeNode.key, MapKey.components], by simp, rfl⟩ ⟨0, rfl⟩
    have h2 := History.call (.getClassType (String.ofList (t.getQualifiedName j)) true []) 1
      (.classType (String.ofList (t.getQualifiedName j))) h1
      ⟨by simp [Call.node, TypeNode.key, MapKey.components], by simp, rfl⟩ ⟨0, rfl⟩
    exact ⟨_, _, _, _, h2, List.mem_cons_self, List.mem_cons_of_mem _ List.mem_cons_self,
      .classType _ _ hi, .classType _ _ hj⟩
  · have h1 := History.call (.getEnumerationType (String.ofList (t.getQualifiedName i))) 0
      (.enumerationType (String.ofList (t.getQualifiedName i))) (History.start (α := Nat))
      ⟨by simp [Call.node, TypeNode.key, MapKey.components], by simp, rfl⟩ ⟨0, rfl⟩
    have h2 := History.call (.getEnumerationType (String.ofList (t.getQualifiedName j))) 1
      (.enumerationType (String.ofList (t.getQualifiedName j))) h1
      ⟨by simp [Call.node, TypeNode.key, MapKey.components], by simp, rfl⟩ ⟨0, rfl⟩
    exact ⟨_, _, _, _, h2, List.mem_cons_self, List.mem_cons_of_mem _ List.mem_cons_self,
      .enumerationType hi, .enumerationType hj⟩

theorem separatePaths_of_separateTypes (h : SeparateTypes t) : SeparatePaths t := by
  intro i j hij hkind hpath
  obtain ⟨ts, records, r, r', hhistory, hr, hr', hi, hj⟩ := history_of_two t i j hkind
  refine h i j hij hhistory r hr r' hr' hi hj ((history_pointer_eq_iff hhistory hr hr').mpr ?_)
  rw [asked_eq_typeTerm t hhistory hr hi, asked_eq_typeTerm t hhistory hr' hj,
    typeTerm_eq_iff t (isQualifying_of_creates t hi) (isQualifying_of_creates t hj)
      (isGlobalNamespace_of_creates t hi) (isGlobalNamespace_of_creates t hj)]
  refine ⟨?_, hpath⟩
  rcases hkind with ⟨hi, hj⟩ | ⟨hi, hj⟩
  · rw [hi, hj]
  · rw [enumeration_not_class hi, enumeration_not_class hj]

/-- Different classes and enumerations are given different types exactly where no two
classes, and no two enumerations, have the same names along their context chains. -/
theorem separate_types_iff : SeparateTypes t ↔ SeparatePaths t := by
  refine ⟨separatePaths_of_separateTypes t, ?_⟩
  intro h i j hij α _ ts records hhistory r hr r' hr' hi hj hpointer
  have hasked := (history_pointer_eq_iff hhistory hr hr').mp hpointer
  rw [asked_eq_typeTerm t hhistory hr hi, asked_eq_typeTerm t hhistory hr' hj,
    typeTerm_eq_iff t (isQualifying_of_creates t hi) (isQualifying_of_creates t hj)
      (isGlobalNamespace_of_creates t hi) (isGlobalNamespace_of_creates t hj)] at hasked
  refine h i j hij ?_ hasked.2
  rcases kind_of_creates t hi with hi | hi
  · exact Or.inl ⟨hi, hasked.1 ▸ hi⟩
  · rcases kind_of_creates t hj with hj | hj
    · have hclass := enumeration_not_class hi
      rw [hasked.1, hj] at hclass
      cases hclass
    · exact Or.inr ⟨hi, hj⟩

end Types

/-- The global namespace and two anonymous structs in it. -/
def anonymousStructs : ElementTable (Fin 3) where
  element := ![⟨.namespace, some "::".toList, none⟩, ⟨.struct, none, some 0⟩,
    ⟨.struct, none, some 0⟩]
  rank := ![0, 1, 1]
  context_lt := by decide
  named := by decide
  name_start := by
    intro i n _ hn
    match i, hn with
    | 0, _ => exact Or.inl (by decide)
    | 1, hn => cases hn
    | 2, hn => cases hn
  name_end := by
    intro i j n m _ _ hn hm
    match i, j, hn, hm with
    | 0, 0, rfl, rfl => decide
    | 0, 1, _, hm => cases hm
    | 0, 2, _, hm => cases hm
    | 1, _, hn, _ => cases hn
    | 2, _, hn, _ => cases hn

/-- Both structs are interned under one name. -/
theorem anonymous_structs_share_type : ¬ SeparateTypes anonymousStructs := by
  intro h
  exact separatePaths_of_separateTypes anonymousStructs h 1 2 (by decide) (Or.inl (by decide))
    (by decide)

end CableSwig.Parsers.QualifiedName
