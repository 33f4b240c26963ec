import Mathlib.Algebra.Group.Nat.Defs
import Mathlib.Data.List.Basic
import Mathlib.Data.List.DropRight
import Mathlib.Data.List.TakeWhile
import Mathlib.Tactic.Common

/-!
# Strings and lines of the standard library

Searching and cutting a string by positions, where the position that means "none" takes
part in unsigned arithmetic, and reading lines into a buffer of a fixed size.
-/
namespace CableSwig.Lib.StdString

abbrev Text := List Char

/-- The position that `find` returns where there is none, the greatest `size_t`. -/
def npos : Nat := 2 ^ 64 - 1

/-- Addition of `size_t`. -/
def addSize (a b : Nat) : Nat := (a + b) % 2 ^ 64

/-- Subtraction of `size_t`. -/
def subSize (a b : Nat) : Nat := (a + (2 ^ 64 - b)) % 2 ^ 64

/-- `string::find` of one character from a position on. -/
def find (s : Text) (c : Char) (pos : Nat) : Nat :=
  if pos ≤ s.length then
    if c ∈ s.drop pos then pos + (s.drop pos).findIdx (· = c) else npos
  else npos

/-- `string::find_first_not_of`. -/
def findFirstNotOf (s set : Text) : Nat :=
  if s.all (· ∈ set) then npos else s.findIdx (· ∉ set)

/-- `string::find_last_not_of`. -/
def findLastNotOf (s set : Text) : Nat :=
  if s.all (· ∈ set) then npos else s.length - 1 - s.reverse.findIdx (· ∉ set)

/-- `string::rfind` of one character. -/
def rfind (s : Text) (c : Char) : Nat :=
  if c ∈ s then s.length - 1 - s.reverse.findIdx (· = c) else npos

/-- `string::find_first_of` from a position on. -/
def findFirstOf (s set : Text) (pos : Nat) : Nat :=
  if (s.drop pos).any (· ∈ set) then pos + (s.drop pos).findIdx (· ∈ set) else npos

/-- `string::substr`. -/
def substr (s : Text) (pos count : Nat) : Text := (s.drop pos).take count

/-- The blanks of the C locale. -/
def isSpace (c : Char) : Bool :=
  c = ' ' || c = '\t' || c = '\n' || c = '\x0b' || c = '\x0c' || c = '\r'

theorem addSize_eq {a b : Nat} (h : a + b ≤ npos) : addSize a b = a + b := by
  unfold npos at h
  rw [addSize, Nat.mod_eq_of_lt (by omega)]

theorem subSize_eq {a b : Nat} (hb : b ≤ a) (ha : a ≤ npos) : subSize a b = a - b := by
  unfold npos at ha
  unfold subSize
  omega

theorem forall_mem_of_all {p : Char → Prop} [DecidablePred p] {s : Text}
    (h : s.all (p ·) = true) : ∀ c ∈ s, p c := by
  simpa using h

/-- The first place where a test holds. -/
theorem findIdx_append_first {p : Char → Bool} {a r : Text} {c : Char}
    (ha : ∀ x ∈ a, p x = false) (hc : p c = true) : (a ++ c :: r).findIdx p = a.length := by
  induction a with
  | nil => simp [List.findIdx_cons, hc]
  | cons x a ih =>
    have hx : p x = false := ha x List.mem_cons_self
    rw [List.cons_append, List.findIdx_cons, hx, cond_false, List.length_cons,
      ih fun y hy => ha y (List.mem_cons_of_mem _ hy)]

theorem findIdx_append_cons {a r : Text} {c : Char} (h : c ∉ a) :
    (a ++ c :: r).findIdx (· = c) = a.length :=
  findIdx_append_first (fun _ hx => decide_eq_false fun hxc => h (hxc ▸ hx))
    (decide_eq_true rfl)

theorem find_eq {s b a r : Text} {c : Char} (hs : s = b ++ (a ++ c :: r)) (h : c ∉ a) :
    find s c b.length = b.length + a.length := by
  subst hs
  have hle : b.length ≤ (b ++ (a ++ c :: r)).length := by simp
  have hmem : c ∈ (b ++ (a ++ c :: r)).drop b.length := by simp
  rw [find, if_pos hle, if_pos hmem, List.drop_left, findIdx_append_cons h]

theorem find_first {s a r : Text} {c : Char} (hs : s = a ++ c :: r) (h : c ∉ a) :
    find s c 0 = a.length := by
  have hfind := find_eq (b := []) hs h
  rwa [List.length_nil, Nat.zero_add] at hfind

theorem find_eq_npos {s b a : Text} {c : Char} (hs : s = b ++ a) (h : c ∉ a) :
    find s c b.length = npos := by
  subst hs
  have hmem : c ∉ (b ++ a).drop b.length := by rwa [List.drop_left]
  rw [find, if_neg hmem, ite_self]

theorem find_npos {s : Text} (hs : s.length < npos) (c : Char) : find s c npos = npos := by
  rw [find, if_neg (Nat.not_le.mpr hs)]

theorem find_eq_npos_iff {s : Text} (hs : s.length < npos) (c : Char) :
    find s c 0 = npos ↔ c ∉ s := by
  rw [find, if_pos (Nat.zero_le _), List.drop_zero]
  split
  · rename_i hmem
    have hlt : s.findIdx (· = c) < s.length :=
      List.findIdx_lt_length_of_exists ⟨c, hmem, by simp⟩
    refine ⟨fun h => ?_, fun h => absurd hmem h⟩
    omega
  · rename_i hmem
    exact ⟨fun _ => hmem, fun _ => rfl⟩

theorem rfind_eq {s a r : Text} {c : Char} (hs : s = a ++ c :: r) (h : c ∉ r) :
    rfind s c = a.length := by
  have hmem : c ∈ s := hs ▸ List.mem_append_right a List.mem_cons_self
  have hreverse : s.reverse = r.reverse ++ c :: a.reverse := by simp [hs]
  have hidx : s.reverse.findIdx (· = c) = r.length := by
    rw [hreverse, findIdx_append_cons (fun hc => h (List.mem_reverse.mp hc)), List.length_reverse]
  have hlen := congrArg List.length hs
  rw [List.length_append, List.length_cons] at hlen
  rw [rfind, if_pos hmem, hidx]
  omega

theorem findFirstOf_eq {s set b a r : Text} {c : Char} (hs : s = b ++ (a ++ c :: r))
    (ha : ∀ x ∈ a, x ∉ set) (hc : c ∈ set) :
    findFirstOf s set b.length = b.length + a.length := by
  have ha' : ∀ x ∈ a, decide (x ∈ set) = false := by simpa using ha
  have hany : (a ++ c :: r).any (· ∈ set) = true := by simp [hc]
  rw [findFirstOf, hs, List.drop_left, if_pos hany,
    findIdx_append_first ha' (decide_eq_true hc)]

theorem findFirstOf_eq_npos {s set b a : Text} (hs : s = b ++ a) (ha : ∀ x ∈ a, x ∉ set) :
    findFirstOf s set b.length = npos := by
  have hany : ¬ a.any (· ∈ set) = true := by simpa using ha
  rw [findFirstOf, hs, List.drop_left, if_neg hany]

theorem substr_eq {s b a r : Text} (hs : s = b ++ (a ++ r)) :
    substr s b.length a.length = a := by
  subst hs
  rw [substr, List.drop_left, List.take_left]

/-- The text between two positions. -/
theorem substr_between {s b c r : Text} {x y : Char} (hs : s = b ++ x :: (c ++ y :: r))
    (hlen : s.length < npos) :
    substr s (addSize b.length 1)
      (subSize (subSize (b.length + 1 + c.length) b.length) 1) = c := by
  have hlength := congrArg List.length hs
  simp only [List.length_append, List.length_cons] at hlength
  have hsub : substr s (b ++ [x]).length c.length = c := substr_eq (r := y :: r) (by simp [hs])
  rw [List.length_append, List.length_singleton] at hsub
  have hwidth : subSize (b.length + 1 + c.length) b.length = c.length + 1 := by
    rw [subSize_eq (by omega) (by omega)]
    omega
  rw [hwidth, subSize_eq (by omega) (by omega), Nat.add_sub_cancel, addSize_eq (by omega)]
  exact hsub

theorem substr_rest {s b a : Text} {count : Nat} (hs : s = b ++ a) (h : a.length ≤ count) :
    substr s b.length count = a := by
  subst hs
  rw [substr, List.drop_left, List.take_of_length_le h]

section Stripping

/-- A text without the characters of a set at its two ends. -/
def strip (set s : Text) : Text := (s.dropWhile (· ∈ set)).rdropWhile (· ∈ set)

variable {set s : Text}

theorem rdropWhile_append {b : Text} (hb : ∀ c ∈ b, c ∈ set) (a : Text) :
    (a ++ b).rdropWhile (· ∈ set) = a.rdropWhile (· ∈ set) := by
  have hreverse : ∀ c ∈ b.reverse, decide (c ∈ set) = true := by simpa using hb
  rw [List.rdropWhile, List.reverse_append, List.dropWhile_append_of_pos hreverse,
    ← List.rdropWhile]

theorem strip_append {a b : Text} (ha : ∀ c ∈ a, c ∈ set) (hb : ∀ c ∈ b, c ∈ set) :
    strip set (a ++ (s ++ b)) = strip set s := by
  have hfirst : ∀ c ∈ a, decide (c ∈ set) = true := by simpa using ha
  rw [strip, List.dropWhile_append_of_pos hfirst, List.dropWhile_append]
  split
  · rename_i hempty
    rw [strip, List.isEmpty_iff.mp hempty, List.dropWhile_eq_nil_iff.mpr (by simpa using hb)]
  · exact rdropWhile_append hb _

theorem exists_strip (set s : Text) :
    ∃ a b, s = a ++ (strip set s ++ b) ∧ (∀ c ∈ a, c ∈ set) ∧ ∀ c ∈ b, c ∈ set := by
  refine ⟨s.takeWhile (· ∈ set), (s.dropWhile (· ∈ set)).rtakeWhile (· ∈ set), ?_, ?_, ?_⟩
  · rw [strip, List.rdropWhile_append_rtakeWhile, List.takeWhile_append_dropWhile]
  · intro c hc
    simpa using List.mem_takeWhile_imp hc
  · intro c hc
    simpa using List.mem_rtakeWhile_imp hc

theorem strip_eq_nil_iff : strip set s = [] ↔ s.all (· ∈ set) = true := by
  constructor
  · intro h
    obtain ⟨a, b, hs, ha, hb⟩ := exists_strip set s
    rw [h, List.nil_append] at hs
    refine List.all_eq_true.mpr fun c hc => decide_eq_true ?_
    rw [hs] at hc
    rcases List.mem_append.mp hc with hc | hc
    · exact ha c hc
    · exact hb c hc
  · intro h
    have hall : ∀ c ∈ s, decide (c ∈ set) = true := by simpa using h
    rw [strip, List.dropWhile_eq_nil_iff.mpr hall, List.rdropWhile_nil]

theorem strip_head {c : Char} {t : Text} (h : strip set s = c :: t) : c ∉ set := by
  obtain ⟨r, hr⟩ := List.rdropWhile_prefix (· ∈ set) (s.dropWhile (· ∈ set))
  rw [← strip, h, List.cons_append] at hr
  have hne : s.dropWhile (· ∈ set) ≠ [] := hr ▸ List.cons_ne_nil _ _
  have hhead := List.head_dropWhile_not (· ∈ set) hne
  simpa [← hr] using hhead

theorem strip_last {c : Char} {t : Text} (h : strip set s = t ++ [c]) : c ∉ set := by
  have hlast : ∀ hne, ¬ decide ((strip set s).getLast hne ∈ set) = true := fun hne =>
    List.rdropWhile_last_not (· ∈ set) (s.dropWhile (· ∈ set)) hne
  simpa [h] using hlast (by simp [h])

theorem findFirstNotOf_eq {a r : Text} {c : Char} (hs : s = a ++ c :: r)
    (ha : ∀ x ∈ a, x ∈ set) (hc : c ∉ set) : findFirstNotOf s set = a.length := by
  have hall : ¬ s.all (· ∈ set) = true := by simp [hs, hc]
  have ha' : ∀ x ∈ a, decide (x ∉ set) = false := by simpa using ha
  rw [findFirstNotOf, if_neg hall, hs]
  exact findIdx_append_first ha' (decide_eq_true hc)

theorem findLastNotOf_eq {a r : Text} {c : Char} (hs : s = a ++ c :: r)
    (hr : ∀ x ∈ r, x ∈ set) (hc : c ∉ set) : findLastNotOf s set = a.length := by
  have hall : ¬ s.all (· ∈ set) = true := by simp [hs, hc]
  have hr' : ∀ x ∈ r.reverse, decide (x ∉ set) = false := by simpa using hr
  have hreverse : s.reverse = r.reverse ++ c :: a.reverse := by simp [hs]
  have hidx : s.reverse.findIdx (· ∉ set) = r.length := by
    rw [hreverse, findIdx_append_first hr' (decide_eq_true hc), List.length_reverse]
  have hlen := congrArg List.length hs
  rw [List.length_append, List.length_cons] at hlen
  rw [findLastNotOf, if_neg hall, hidx]
  omega

/-- Cutting a string at its first and its last position without a character of the set. -/
theorem substr_strip (hs : s.length < npos) (h : strip set s ≠ []) :
    findFirstNotOf s set ≠ npos ∧ findLastNotOf s set ≠ npos ∧
      substr s (findFirstNotOf s set)
        (addSize (subSize (findLastNotOf s set) (findFirstNotOf s set)) 1) = strip set s := by
  obtain ⟨a, b, heq, ha, hb⟩ := exists_strip set s
  have hlen := congrArg List.length heq
  rw [List.length_append, List.length_append] at hlen
  have hfirst : findFirstNotOf s set = a.length := by
    obtain ⟨c, t, ht⟩ := List.exists_cons_of_ne_nil h
    exact findFirstNotOf_eq (r := t ++ b) (by rw [← List.cons_append, ← ht, ← heq]) ha
      (strip_head ht)
  obtain ⟨t, c, ht⟩ := (List.eq_nil_or_concat' (strip set s)).resolve_left h
  have htlen : (strip set s).length = t.length + 1 := by simp [ht]
  have hlast : findLastNotOf s set = (a ++ t).length := by
    refine findLastNotOf_eq ?_ hb (strip_last ht)
    conv_lhs => rw [heq, ht]
    simp
  rw [List.length_append] at hlast
  rw [hfirst, hlast]
  refine ⟨by omega, by omega, ?_⟩
  rw [subSize_eq (by omega) (by omega), Nat.add_sub_cancel_left, addSize_eq (by omega), ← htlen]
  exact substr_eq heq

end Stripping

/-- What an input stream has left, and its two flags. -/
structure Stream where
  rest : Text
  eof : Bool := false
  fail : Bool := false
deriving DecidableEq, Repr

/-- `istream::getline` into a buffer of `n` characters. -/
def getline (n : Nat) (fin : Stream) : Text × Stream :=
  if fin.eof || fin.fail then ([], { fin with fail := true })
  else
    let line := fin.rest.takeWhile (· ≠ '\n')
    if line.length < n then
      match fin.rest.drop line.length with
      | _ :: rest => (line, { fin with rest })
      | [] => (line, { fin with rest := [], eof := true, fail := line = [] })
    else (line.take (n - 1), { fin with rest := fin.rest.drop (n - 1), fail := true })

/-- What keeps the loop below going round. -/
def Stream.measure (fin : Stream) : Nat :=
  if fin.fail then 0 else if fin.eof then 1 else fin.rest.length + 2

theorem getline_measure (n : Nat) (fin : Stream) (h : fin.fail = false) :
    (getline n fin).2.measure < fin.measure := by
  obtain ⟨rest, eof, fail⟩ := fin
  obtain rfl : fail = false := h
  cases eof with
  | true => simp [getline, Stream.measure]
  | false =>
    simp only [getline, Bool.or_self, Bool.false_eq_true, if_false]
    split
    · split
      · rename_i heq
        have hlen := congrArg List.length heq
        simp only [List.length_drop, List.length_cons] at hlen
        simp only [Stream.measure, Bool.false_eq_true, if_false]
        omega
      · simp only [Stream.measure, Bool.false_eq_true, if_false, if_true]
        split <;> omega
    · simp [Stream.measure]

/-- The buffers of `while (fin) { fin.getline(buffer, n); … }`. -/
def buffers (n : Nat) (fin : Stream) : List Text :=
  if _ : fin.fail then []
  else (getline n fin).1 :: buffers n (getline n fin).2
termination_by fin.measure
decreasing_by exact getline_measure n fin (Bool.eq_false_iff.mpr ‹_›)

/-- A file of lines that each end with a newline. -/
def ofLines (lines : List Text) : Text := lines.flatMap fun l => l ++ ['\n']

/-- The lines that `getline` reaches: it fails on the first one that its buffer cannot hold. -/
def reached {α : Type} (fits : α → Prop) [DecidablePred fits] : List α → List α
  | [] => []
  | l :: ls => if fits l then l :: reached fits ls else [l]

theorem takeWhile_line {l rest : Text} (h : '\n' ∉ l) :
    (l ++ '\n' :: rest).takeWhile (· ≠ '\n') = l := by
  induction l with
  | nil => simp
  | cons c l ih =>
    have hc : c ≠ '\n' := fun hc => h (hc ▸ List.mem_cons_self)
    rw [List.cons_append, List.takeWhile_cons_of_pos (by simpa using hc),
      ih fun hl => h (List.mem_cons_of_mem _ hl)]

theorem buffers_fail (n : Nat) (rest : Text) (eof : Bool) :
    buffers n ⟨rest, eof, true⟩ = [] := by
  rw [buffers, dif_pos rfl]

/-- Reading a file of lines: each line is cut to the buffer, the file ends at the first one
that does not fit, and the end of the file leaves an empty buffer. -/
theorem buffers_ofLines (n : Nat) (hn : 0 < n) (lines : List Text) (h : ∀ l ∈ lines, '\n' ∉ l) :
    ∃ tail, (tail = [] ∨ tail = [[]]) ∧ buffers n ⟨ofLines lines, false, false⟩ =
      (reached (fun l => l.length < n) lines).map (List.take (n - 1)) ++ tail := by
  induction lines with
  | nil =>
    refine ⟨[[]], Or.inr rfl, ?_⟩
    have hget : getline n ⟨[], false, false⟩ = ([], ⟨[], true, true⟩) := by
      simp [getline, hn]
    have hnil : ofLines [] = [] := rfl
    rw [hnil, buffers, dif_neg Bool.false_ne_true, hget, buffers_fail]
    rfl
  | cons l lines ih =>
    have hl : '\n' ∉ l := h l List.mem_cons_self
    have hcons : ofLines (l :: lines) = l ++ '\n' :: ofLines lines := by simp [ofLines]
    rw [hcons, buffers, dif_neg Bool.false_ne_true]
    have hline : (l ++ '\n' :: ofLines lines).takeWhile (· ≠ '\n') = l := takeWhile_line hl
    by_cases hfits : l.length < n
    · have hget : getline n ⟨l ++ '\n' :: ofLines lines, false, false⟩ =
          (l, ⟨ofLines lines, false, false⟩) := by
        simp only [getline, Bool.or_self, Bool.false_eq_true, if_false, hline, if_pos hfits,
          List.drop_left]
      obtain ⟨tail, htail, hbuffers⟩ := ih fun l' hl' => h l' (List.mem_cons_of_mem _ hl')
      refine ⟨tail, htail, ?_⟩
      have htake : l.take (n - 1) = l := List.take_of_length_le (by omega)
      rw [hget, hbuffers, reached, if_pos hfits, List.map_cons, htake, List.cons_append]
    · have hget : getline n ⟨l ++ '\n' :: ofLines lines, false, false⟩ =
          (l.take (n - 1), ⟨(l ++ '\n' :: ofLines lines).drop (n - 1), false, true⟩) := by
        simp only [getline, Bool.or_self, Bool.false_eq_true, if_false, hline, if_neg hfits]
      refine ⟨[], Or.inl rfl, ?_⟩
      rw [hget, buffers_fail, reached, if_neg hfits]
      rfl

/-- The buffers of `while (fin.getline(buffer, n)) { … }`. -/
def linesRead (n : Nat) (fin : Stream) : List Text :=
  if _ : fin.fail then []
  else if (getline n fin).2.fail then []
  else (getline n fin).1 :: linesRead n (getline n fin).2
termination_by fin.measure
decreasing_by exact getline_measure n fin (Bool.eq_false_iff.mpr ‹_›)

/-- The lines of a file. The last one need not end with a newline. -/
def lines : Text → List Text
  | [] => []
  | c :: rest =>
    if c = '\n' then [] :: lines rest
    else match lines rest with
      | [] => [[c]]
      | l :: ls => (c :: l) :: ls

theorem lines_cons {l : Text} (h : '\n' ∉ l) (rest : Text) :
    lines (l ++ '\n' :: rest) = l :: lines rest := by
  induction l with
  | nil => rw [List.nil_append, lines, if_pos rfl]
  | cons c l ih =>
    have hc : c ≠ '\n' := fun hc => h (hc ▸ List.mem_cons_self)
    rw [List.cons_append, lines, if_neg hc, ih fun hl => h (List.mem_cons_of_mem _ hl)]

theorem lines_last {l : Text} (h : '\n' ∉ l) (hl : l ≠ []) : lines l = [l] := by
  induction l with
  | nil => exact absurd rfl hl
  | cons c l ih =>
    have hc : c ≠ '\n' := fun hc => h (hc ▸ List.mem_cons_self)
    rw [lines, if_neg hc]
    cases l with
    | nil => rfl
    | cons d l => rw [ih (fun hl => h (List.mem_cons_of_mem _ hl)) (List.cons_ne_nil _ _)]

/-- A text begins with a line, which a newline or the end of the text follows. -/
theorem exists_line (s : Text) : ∃ l, '\n' ∉ l ∧ (s = l ∨ ∃ rest, s = l ++ '\n' :: rest) := by
  induction s with
  | nil => exact ⟨[], List.not_mem_nil, Or.inl rfl⟩
  | cons c s ih =>
    by_cases hc : c = '\n'
    · exact ⟨[], List.not_mem_nil, Or.inr ⟨s, by rw [hc, List.nil_append]⟩⟩
    · obtain ⟨l, hl, hs⟩ := ih
      refine ⟨c :: l, fun h => ?_, ?_⟩
      · rcases List.mem_cons.mp h with h | h
        · exact hc h.symm
        · exact hl h
      · rcases hs with rfl | ⟨rest, rfl⟩
        · exact Or.inl rfl
        · exact Or.inr ⟨rest, rfl⟩

theorem takeWhile_last {l : Text} (h : '\n' ∉ l) : l.takeWhile (· ≠ '\n') = l := by
  refine List.takeWhile_eq_self_iff.mpr fun c hc => ?_
  exact decide_eq_true fun hnl => h (hnl ▸ hc)

/-- The loop reads the lines up to the first one that its buffer cannot hold. -/
theorem linesRead_eq (n : Nat) (hn : 0 < n) (s : Text) :
    linesRead n ⟨s, false, false⟩ = (lines s).takeWhile fun l => l.length < n := by
  induction hlen : s.length using Nat.strongRecOn generalizing s with
  | ind len ih =>
    obtain ⟨l, hl, hs⟩ := exists_line s
    rw [linesRead, dif_neg Bool.false_ne_true]
    rcases hs with rfl | ⟨rest, rfl⟩
    · by_cases hnil : s = []
      · subst hnil
        have hfail : (getline n ⟨[], false, false⟩).2.fail = true := by simp [getline, hn]
        rw [if_pos hfail]
        rfl
      · rw [lines_last hl hnil]
        by_cases hfits : s.length < n
        · have hget : getline n ⟨s, false, false⟩ = (s, ⟨[], true, false⟩) := by
            simp only [getline, Bool.or_self, Bool.false_eq_true, if_false, takeWhile_last hl,
              if_pos hfits, List.drop_length, decide_eq_false hnil]
          have hend : (getline n ⟨[], true, false⟩).2.fail = true := by simp [getline]
          rw [hget, if_neg Bool.false_ne_true, linesRead, dif_neg Bool.false_ne_true,
            if_pos hend, List.takeWhile_cons_of_pos (by simpa using hfits), List.takeWhile_nil]
        · have hfail : (getline n ⟨s, false, false⟩).2.fail = true := by
            simp only [getline, Bool.or_self, Bool.false_eq_true, if_false, takeWhile_last hl,
              if_neg hfits]
          rw [if_pos hfail, List.takeWhile_cons_of_neg (by simpa using hfits)]
    · have hline : (l ++ '\n' :: rest).takeWhile (· ≠ '\n') = l := takeWhile_line hl
      rw [lines_cons hl]
      by_cases hfits : l.length < n
      · have hget : getline n ⟨l ++ '\n' :: rest, false, false⟩ =
            (l, ⟨rest, false, false⟩) := by
          simp only [getline, Bool.or_self, Bool.false_eq_true, if_false, hline, if_pos hfits,
            List.drop_left]
        have hrest := ih rest.length (by simp at hlen; omega) rest rfl
        rw [hget, if_neg Bool.false_ne_true, hrest,
          List.takeWhile_cons_of_pos (by simpa using hfits)]
      · have hfail : (getline n ⟨l ++ '\n' :: rest, false, false⟩).2.fail = true := by
          simp only [getline, Bool.or_self, Bool.false_eq_true, if_false, hline, if_neg hfits]
        rw [if_pos hfail, List.takeWhile_cons_of_neg (by simpa using hfits)]

section Joined

variable {α : Type}

theorem intercalate_concat (sep : List α) (p : List (List α)) (n : List α) (hp : p ≠ []) :
    sep.intercalate (p ++ [n]) = sep.intercalate p ++ sep ++ n := by
  induction p with
  | nil => exact absurd rfl hp
  | cons m p ih =>
    cases p with
    | nil => simp [List.intercalate_cons_cons, List.intercalate_singleton]
    | cons m' p =>
      have ih := ih (List.cons_ne_nil _ _)
      simp only [List.cons_append] at ih ⊢
      rw [List.intercalate_cons_cons, ih, List.intercalate_cons_cons]
      simp only [List.append_assoc]

/-- Two names that do not go on with the separator end at the same place. -/
theorem append_cons_inj {n m r s : List α} {c : α} (hn : ¬ n ++ [c] <+: m)
    (hm : ¬ m ++ [c] <+: n) (h : n ++ c :: r = m ++ c :: s) : n = m ∧ r = s := by
  rcases List.append_eq_append_iff.mp h with ⟨a, rfl, ha⟩ | ⟨a, rfl, ha⟩
  · cases a with
    | nil => exact ⟨by simp, (List.cons.inj ha).2⟩
    | cons x a =>
      obtain ⟨rfl, -⟩ := List.cons.inj ha
      exact absurd ⟨a, by simp⟩ hn
  · cases a with
    | nil => exact ⟨by simp, (List.cons.inj ha).2.symm⟩
    | cons x a =>
      obtain ⟨rfl, -⟩ := List.cons.inj ha
      exact absurd ⟨a, by simp⟩ hm

/-- Joined names can be told apart where no name goes on as another one with the character
that starts the separator. -/
theorem intercalate_injective {names : List α → Prop} {c : α} {sep : List α}
    (hnames : ∀ n m, names n → names m → ¬ n ++ [c] <+: m) (p : List (List α)) :
    ∀ q : List (List α), (∀ n ∈ p, names n) → (∀ n ∈ q, names n) → p ≠ [] → q ≠ [] →
      (c :: sep).intercalate p = (c :: sep).intercalate q → p = q := by
  induction p with
  | nil => exact fun q _ _ hp => absurd rfl hp
  | cons n p ih =>
    intro q hp hq _ hq0 h
    cases q with
    | nil => exact absurd rfl hq0
    | cons m q =>
      have hn := hp n List.mem_cons_self
      have hm := hq m List.mem_cons_self
      cases p with
      | nil =>
        cases q with
        | nil =>
          rw [List.intercalate_singleton, List.intercalate_singleton] at h
          rw [h]
        | cons m' q =>
          rw [List.intercalate_singleton, List.intercalate_cons_cons] at h
          exact absurd ⟨sep ++ (c :: sep).intercalate (m' :: q), by simp [h]⟩ (hnames m n hm hn)
      | cons n' p =>
        cases q with
        | nil =>
          rw [List.intercalate_singleton, List.intercalate_cons_cons] at h
          exact absurd ⟨sep ++ (c :: sep).intercalate (n' :: p), by simp [← h]⟩
            (hnames n m hn hm)
        | cons m' q =>
          rw [List.intercalate_cons_cons, List.intercalate_cons_cons, List.append_assoc,
            List.append_assoc, List.cons_append, List.cons_append] at h
          obtain ⟨rfl, hrest⟩ := append_cons_inj (hnames n m hn hm) (hnames m n hm hn) h
          have htail := ih (m' :: q) (fun x hx => hp x (List.mem_cons_of_mem _ hx))
            (fun x hx => hq x (List.mem_cons_of_mem _ hx)) (List.cons_ne_nil _ _)
            (List.cons_ne_nil _ _) (List.append_cancel_left hrest)
          rw [htail]

end Joined

end CableSwig.Lib.StdString
