import Mathlib.Data.List.Basic
import Mathlib.Data.List.Infix
import Mathlib.Tactic.Common

/-!
# Searching and replacing

The first place of a word in a list, and the list with one word put in place of another one, from
left to right.
-/
namespace CableSwig.Lib.StringReplace

variable {α : Type} {word s t : List α}

section Separation

/-- No occurrence reaches over the place where two lists are joined. -/
def Separate (word s t : List α) : Prop :=
  ∀ u, u <:+ s → u ≠ [] → word <+: u ++ t → word <+: u

theorem separate_nil : Separate word s [] := by
  intro u _ _ hu
  rwa [List.append_nil] at hu

/-- A word does not reach over a place at which something stands that it does not have. -/
theorem separate_of_not_mem {c : α} (hc : c ∉ word) : Separate word s (c :: t) := by
  intro u _ _ hu
  rcases List.prefix_or_prefix_of_prefix hu (List.prefix_append u (c :: t)) with hu' | ⟨v, rfl⟩
  · exact hu'
  · cases v with
    | nil => exact ⟨[], by rw [List.append_nil, List.append_nil]⟩
    | cons x v =>
      have hx := (List.cons_prefix_cons.mp ((List.prefix_append_right_inj u).mp hu)).1
      exact absurd (by simp [hx]) hc

/-- A word of one character never does. -/
theorem separate_singleton (c : α) : Separate [c] s t := by
  intro u _ hne hu
  obtain ⟨x, u, rfl⟩ := List.exists_cons_of_ne_nil hne
  rw [List.cons_append, List.cons_prefix_cons] at hu
  rw [hu.1]
  exact ⟨u, rfl⟩

/-- A word that starts with nothing of the first list does not. -/
theorem separate_of_head {c : α} {w : List α} (hc : c ∉ s) : Separate (c :: w) s t := by
  intro u hu hne hword
  obtain ⟨x, u, rfl⟩ := List.exists_cons_of_ne_nil hne
  rw [List.cons_append, List.cons_prefix_cons] at hword
  exact absurd (hu.mem (hword.1 ▸ List.mem_cons_self)) hc

/-- A word stands on one side of a character that it does not have. -/
theorem infix_append_cons {c : α} (hc : c ∉ word) :
    word <:+: s ++ c :: t ↔ word <:+: s ∨ word <:+: t := by
  constructor
  · intro h
    rcases List.infix_append_iff.mp h with h | h | ⟨u, v, rfl, hu, hv⟩
    · exact Or.inl h
    · rcases List.infix_cons_iff.mp h with h | h
      · cases word with
        | nil => exact Or.inl (List.nil_infix)
        | cons x w =>
          have hx := (List.cons_prefix_cons.mp h).1
          exact absurd (hx ▸ List.mem_cons_self) hc
      · exact Or.inr h
    · cases v with
      | nil =>
        rw [List.append_nil]
        exact Or.inl hu.isInfix
      | cons x v =>
        have hx := (List.cons_prefix_cons.mp hv).1
        exact absurd (List.mem_append_right u (hx ▸ List.mem_cons_self)) hc
  · intro h
    rcases h with h | h
    · exact h.trans (List.prefix_append _ _).isInfix
    · exact h.trans ((List.suffix_cons _ _).trans (List.suffix_append _ _)).isInfix

end Separation

variable [DecidableEq α]

section Searching

/-- The first position at which the word stands. -/
def occurrence (word : List α) : List α → Option Nat
  | [] => if word = [] then some 0 else none
  | c :: s => if word <+: c :: s then some 0 else (occurrence word s).map (· + 1)

/-- `find` of a string, from a position on. -/
def findText (word s : List α) (pos : Nat) : Option Nat :=
  if pos ≤ s.length then (occurrence word (s.drop pos)).map (pos + ·) else none

theorem findText_append (word done rest : List α) :
    findText word (done ++ rest) done.length = (occurrence word rest).map (done.length + ·) := by
  rw [findText, if_pos (by simp), List.drop_left]

/-- The first occurrence and what stands around it. -/
theorem occurrence_eq_some {i : Nat} (h : occurrence word s = some i) :
    ∃ a r, s = a ++ (word ++ r) ∧ a.length = i ∧
      ∀ u, u <:+ a → u ≠ [] → ¬ word <+: u ++ (word ++ r) := by
  induction s generalizing i with
  | nil =>
    obtain ⟨rfl, hi⟩ := Option.ite_none_right_eq_some.mp h
    refine ⟨[], [], rfl, Option.some.inj hi, fun u hu hne => ?_⟩
    exact absurd (List.suffix_nil.mp hu) hne
  | cons c s ih =>
    rw [occurrence] at h
    by_cases hword : word <+: c :: s
    · rw [if_pos hword] at h
      obtain ⟨r, hr⟩ := hword
      refine ⟨[], r, hr.symm, Option.some.inj h, fun u hu hne => ?_⟩
      exact absurd (List.suffix_nil.mp hu) hne
    · rw [if_neg hword] at h
      obtain ⟨j, hj, rfl⟩ := Option.map_eq_some_iff.mp h
      obtain ⟨a, r, rfl, rfl, hnot⟩ := ih hj
      refine ⟨c :: a, r, rfl, rfl, fun u hu hne => ?_⟩
      rcases List.suffix_cons_iff.mp hu with rfl | hu
      · exact hword
      · exact hnot u hu hne

theorem occurrence_eq_none (h : occurrence word s = none) (u : List α) (hu : u <:+ s) :
    ¬ word <+: u := by
  induction s with
  | nil =>
    rw [List.suffix_nil.mp hu]
    intro hword
    rw [occurrence, if_pos (List.prefix_nil.mp hword)] at h
    cases h
  | cons c s ih =>
    rw [occurrence] at h
    by_cases hword : word <+: c :: s
    · rw [if_pos hword] at h
      cases h
    · rw [if_neg hword, Option.map_eq_none_iff] at h
      rcases List.suffix_cons_iff.mp hu with rfl | hu
      · exact hword
      · exact ih h hu

theorem occurrence_isSome_iff : (occurrence word s).isSome ↔ word <:+: s := by
  constructor
  · intro h
    obtain ⟨i, hi⟩ := Option.isSome_iff_exists.mp h
    obtain ⟨a, r, rfl, -, -⟩ := occurrence_eq_some hi
    exact ⟨a, r, by rw [List.append_assoc]⟩
  · intro h
    obtain ⟨u, hu, hsuffix⟩ := List.infix_iff_prefix_suffix.mp h
    cases hi : occurrence word s with
    | some i => rfl
    | none => exact absurd hu (occurrence_eq_none hi u hsuffix)

end Searching

section Replacing

/-- The list with `new` put in place of `word`. The number counts what is left of an occurrence
that has been replaced. -/
def replaceFrom (word new : List α) : Nat → List α → List α
  | _, [] => []
  | 0, c :: s =>
    if word <+: c :: s then new ++ replaceFrom word new (word.length - 1) s
    else c :: replaceFrom word new 0 s
  | n + 1, _ :: s => replaceFrom word new n s

def replaceAll (word new s : List α) : List α := replaceFrom word new 0 s

variable {new : List α}

theorem replaceFrom_eq (n : Nat) (s : List α) :
    replaceFrom word new n s = replaceAll word new (s.drop n) := by
  induction n generalizing s with
  | zero => rfl
  | succ n ih =>
    cases s with
    | nil => rfl
    | cons c s => exact ih s

theorem mem_replaceFrom {c : α} (s : List α) :
    ∀ n, c ∈ replaceFrom word new n s → c ∈ new ∨ c ∈ s := by
  induction s with
  | nil =>
    intro n h
    cases n <;> cases h
  | cons x s ih =>
    intro n h
    cases n with
    | zero =>
      rw [replaceFrom] at h
      split_ifs at h
      · rcases List.mem_append.mp h with h | h
        · exact Or.inl h
        · exact (ih _ h).imp_right (List.mem_cons_of_mem _)
      · rcases List.mem_cons.mp h with rfl | h
        · exact Or.inr List.mem_cons_self
        · exact (ih _ h).imp_right (List.mem_cons_of_mem _)
    | succ n => exact (ih n h).imp_right (List.mem_cons_of_mem _)

theorem replaceAll_nil : replaceAll word new [] = [] := rfl

theorem replaceAll_cons_of_not {c : α} (h : ¬ word <+: c :: s) :
    replaceAll word new (c :: s) = c :: replaceAll word new s := if_neg h

theorem replaceAll_word (hword : word ≠ []) (r : List α) :
    replaceAll word new (word ++ r) = new ++ replaceAll word new r := by
  obtain ⟨c, w, rfl⟩ := List.exists_cons_of_ne_nil hword
  have hbegins : c :: w <+: c :: (w ++ r) := ⟨r, rfl⟩
  rw [List.cons_append, replaceAll, replaceFrom, if_pos hbegins, replaceFrom_eq,
    List.length_cons, Nat.add_sub_cancel, List.drop_left]

/-- What stands before the occurrences is kept. -/
theorem replaceAll_append_of_not (h : ∀ u, u <:+ s → u ≠ [] → ¬ word <+: u ++ t) :
    replaceAll word new (s ++ t) = s ++ replaceAll word new t := by
  induction s with
  | nil => rfl
  | cons c s ih =>
    have hhere : ¬ word <+: c :: (s ++ t) := h (c :: s) List.suffix_rfl (List.cons_ne_nil c s)
    have hthere := ih fun u hu hne => h u (hu.trans (List.suffix_cons c s)) hne
    rw [List.cons_append, replaceAll_cons_of_not hhere, hthere]
    rfl

theorem replaceAll_of_not (h : ∀ u, u <:+ s → u ≠ [] → ¬ word <+: u) :
    replaceAll word new s = s := by
  have hnil : replaceAll word new (s ++ []) = s ++ replaceAll word new [] :=
    replaceAll_append_of_not <| by
      intro u hu hne
      rw [List.append_nil]
      exact h u hu hne
  rwa [List.append_nil, replaceAll_nil, List.append_nil] at hnil

theorem replaceAll_append (hword : word ≠ []) :
    ∀ s : List α, Separate word s t →
      replaceAll word new (s ++ t) = replaceAll word new s ++ replaceAll word new t
  | [], _ => rfl
  | c :: s, h => by
    by_cases hhere : word <+: c :: s
    · obtain ⟨r, hr⟩ := hhere
      have hlen : r.length < s.length + 1 := by
        have hlen := congrArg List.length hr
        rw [List.length_append, List.length_cons] at hlen
        have hpos := List.length_pos_of_ne_nil hword
        omega
      have hrest := replaceAll_append hword r fun u hu hne hu' =>
        h u (hu.trans (hr ▸ List.suffix_append word r)) hne hu'
      rw [← hr, List.append_assoc, replaceAll_word hword, replaceAll_word hword, hrest,
        List.append_assoc]
    · have hover : ¬ word <+: c :: (s ++ t) := fun hover =>
        hhere (h (c :: s) List.suffix_rfl (List.cons_ne_nil c s) hover)
      have hrest := replaceAll_append hword s fun u hu hne hu' =>
        h u (hu.trans (List.suffix_cons c s)) hne hu'
      rw [List.cons_append, replaceAll_cons_of_not hover, replaceAll_cons_of_not hhere, hrest]
      rfl
termination_by s => s.length

end Replacing

section Cutting

/-- The list is cut at the occurrences of a word that do not overlap, from left to right. -/
inductive Cut (word : List α) : List α → List (List α) → Prop
  | last {s : List α} (hnone : ∀ u, u <:+ s → ¬ word <+: u) : Cut word s [s]
  | next {a r : List α} {pieces : List (List α)}
      (hfirst : ∀ u, u <:+ a → u ≠ [] → ¬ word <+: u ++ (word ++ r))
      (hrest : Cut word r pieces) : Cut word (a ++ (word ++ r)) (a :: pieces)

variable {pieces : List (List α)}

omit [DecidableEq α] in
theorem Cut.ne_nil (h : Cut word s pieces) : pieces ≠ [] := by
  cases h <;> exact List.cons_ne_nil _ _

omit [DecidableEq α] in
/-- The pieces with the word between them are the list. -/
theorem Cut.intercalate_eq (h : Cut word s pieces) : word.intercalate pieces = s := by
  induction h with
  | last => exact List.intercalate_singleton
  | next _ hrest ih =>
    obtain ⟨b, pieces, rfl⟩ := List.exists_cons_of_ne_nil hrest.ne_nil
    rw [List.intercalate_cons_cons, ih, List.append_assoc]

/-- The pieces with another word between them are the list with that word put in. -/
theorem Cut.replaceAll_eq (hword : word ≠ []) (h : Cut word s pieces) (new : List α) :
    replaceAll word new s = new.intercalate pieces := by
  induction h with
  | last hnone => rw [List.intercalate_singleton, replaceAll_of_not fun u hu _ => hnone u hu]
  | next hfirst hrest ih =>
    obtain ⟨b, pieces, rfl⟩ := List.exists_cons_of_ne_nil hrest.ne_nil
    rw [replaceAll_append_of_not hfirst, replaceAll_word hword, ih, List.intercalate_cons_cons,
      List.append_assoc]

theorem exists_cut (hword : word ≠ []) (s : List α) : ∃ pieces, Cut word s pieces := by
  induction hlen : s.length using Nat.strong_induction_on generalizing s with
  | _ n ih =>
    cases hfind : occurrence word s with
    | none => exact ⟨[s], .last (occurrence_eq_none hfind)⟩
    | some i =>
      obtain ⟨a, r, rfl, -, hfirst⟩ := occurrence_eq_some hfind
      have hpos := List.length_pos_of_ne_nil hword
      have hshort : r.length < n := by
        rw [← hlen, List.length_append, List.length_append]
        omega
      obtain ⟨pieces, hrest⟩ := ih r.length hshort r rfl
      exact ⟨a :: pieces, .next hfirst hrest⟩

end Cutting

end CableSwig.Lib.StringReplace
