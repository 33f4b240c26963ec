import CableSwig.Lib.StdString

/-!
# Taking a flag string apart

`gxFlagsParser` splits a text into arguments at its blanks. Quotes keep blanks together and a
backslash keeps the character after it, inside of quotes too.
-/
namespace CableSwig.GxFront.FlagsParser

open CableSwig.Lib.StdString

section Parser

inductive Quoted
  | no | single | double
  deriving DecidableEq

/-- One argument and the text after it. After a backslash at the end of the text the loop goes on
behind the end: `none`. -/
def parseArg : Quoted → Text → Option (Text × Text)
  | _, [] => some ([], [])
  | quoted, c :: s =>
    if quoted = .no ∧ isSpace c then some ([], c :: s)
    else if c = '\\' then
      match s with
      | [] => none
      | d :: s => (parseArg quoted s).map fun r => (d :: r.1, r.2)
    else if (quoted = .single ∧ c = '\'') ∨ (quoted = .double ∧ c = '"') then parseArg .no s
    else if quoted = .no ∧ c = '\'' then parseArg .single s
    else if quoted = .no ∧ c = '"' then parseArg .double s
    else (parseArg quoted s).map fun r => (c :: r.1, r.2)

theorem parseArg_length (quoted : Quoted) (s : Text) :
    ∀ r, parseArg quoted s = some r → r.2.length ≤ s.length := by
  fun_induction parseArg quoted s with
  | case1 | case2 => intro r h; cases h; simp
  | case3 => intro r h; cases h
  | case4 _ d s _ ih | case8 _ c s _ _ _ _ _ ih =>
    intro r h
    obtain ⟨r', hr', rfl⟩ := Option.map_eq_some_iff.mp h
    have := ih r' hr'
    simp only [List.length_cons]
    omega
  | case5 _ _ _ _ _ _ ih | case6 _ _ _ _ _ _ _ ih | case7 _ _ _ _ _ _ _ _ ih =>
    intro r h
    have := ih r h
    simp only [List.length_cons]
    omega

/-- The first character of an argument is never left. -/
theorem parseArg_consumes {c : Char} {s arg rest : Text} (hc : isSpace c = false)
    (h : parseArg .no (c :: s) = some (arg, rest)) : rest.length ≤ s.length := by
  rw [parseArg.eq_def] at h
  simp only [hc, Bool.false_eq_true, and_false, if_false] at h
  split_ifs at h
  · cases s with
    | nil => cases h
    | cons d s =>
      obtain ⟨r, hr, hrest⟩ := Option.map_eq_some_iff.mp h
      have hlen := parseArg_length _ _ _ hr
      cases hrest
      exact Nat.le_succ_of_le hlen
  · exact parseArg_length _ _ _ h
  · exact parseArg_length _ _ _ h
  · exact parseArg_length _ _ _ h
  · obtain ⟨r, hr, hrest⟩ := Option.map_eq_some_iff.mp h
    cases hrest
    exact parseArg_length _ _ _ hr

/-- The arguments in a text. -/
def commandLineParse : Text → Option (List Text)
  | [] => some []
  | c :: s =>
    if _hc : isSpace c then commandLineParse s
    else
      match _h : parseArg .no (c :: s) with
      | none => none
      | some (arg, rest) => (commandLineParse rest).map (arg :: ·)
termination_by s => s.length
decreasing_by
  · exact Nat.lt_succ_self _
  · exact Nat.lt_succ_of_le (parseArg_consumes (by simpa using _hc) _h)

/-- Without the changed compiler the wrapper option is not known and becomes `-I`. -/
def addFlag (native : Bool) (flag : Text) : Text :=
  if !native && substr flag 0 9 = "-iwrapper".toList then
    "-I".toList ++ substr flag 9 (flag.length - 9)
  else flag

def parse (native : Bool) (flags : Text) : Option (List Text) :=
  (commandLineParse flags).map fun argv => argv.map (addFlag native)

end Parser

section Words

/-- What can follow an argument: the end or a blank. -/
def Tail (s : Text) : Prop := s = [] ∨ ∃ t, s = ' ' :: t

/-- The characters that are stored as they are. -/
def Quoted.stores : Quoted → Char → Bool
  | .no, c => !isSpace c && c ≠ '\\' && c ≠ '\'' && c ≠ '"'
  | .single, c => c ≠ '\\' && c ≠ '\''
  | .double, c => c ≠ '\\' && c ≠ '"'

variable {q : Quoted} {a s t word arg : Text} {native : Bool}

theorem parseArg_tail (h : Tail t) : parseArg .no t = some ([], t) := by
  rcases h with rfl | ⟨s, rfl⟩
  · rfl
  · rw [parseArg.eq_def]
    exact if_pos ⟨rfl, rfl⟩

theorem parseArg_stores {c : Char} (h : q.stores c) :
    parseArg q (c :: s) = (parseArg q s).map fun r => (c :: r.1, r.2) := by
  rw [parseArg.eq_def]
  cases q <;> simp_all [Quoted.stores]

theorem parseArg_append (h : ∀ c ∈ a, q.stores c) :
    parseArg q (a ++ s) = (parseArg q s).map fun r => (a ++ r.1, r.2) := by
  induction a with
  | nil => simp
  | cons c a ih =>
    have hrest := ih fun d hd => h d (List.mem_cons_of_mem _ hd)
    rw [List.cons_append, parseArg_stores (h c List.mem_cons_self), hrest, Option.map_map]
    rfl

/-- A word of a flag string that is read as one argument, whatever follows it. -/
def Reads (word arg : Text) : Prop :=
  (∃ c w, word = c :: w ∧ isSpace c = false) ∧
    ∀ t, Tail t → parseArg .no (word ++ t) = some (arg, t)

theorem commandLineParse_blank : commandLineParse (' ' :: s) = commandLineParse s := by
  rw [commandLineParse]
  rfl

theorem commandLineParse_word {c : Char} {w : Text} (hc : isSpace c = false) :
    commandLineParse (c :: w) =
      (parseArg .no (c :: w)).bind fun r => (commandLineParse r.2).map (r.1 :: ·) := by
  rw [commandLineParse, dif_neg (by simp [hc])]
  split
  · next h => rw [h]; rfl
  · next arg rest h => rw [h]; rfl

theorem commandLineParse_reads (h : Reads word arg) (ht : Tail t) :
    commandLineParse (word ++ t) = (commandLineParse t).map (arg :: ·) := by
  obtain ⟨⟨c, w, rfl, hc⟩, hword⟩ := h
  rw [List.cons_append, commandLineParse_word hc, ← List.cons_append, hword t ht]
  rfl

/-- Words with a blank between them. -/
def joined (words : List Text) : Text := [' '].intercalate words

theorem joined_cons (word : Text) (words : List Text) :
    joined (word :: words) = word ++ (if words = [] then [] else ' ' :: joined words) := by
  cases words with
  | nil => simp [joined]
  | cons w words => simp [joined, List.intercalate_cons_cons]

theorem joined_append (as bs : List Text) (h : as ≠ []) :
    joined (as ++ bs) = joined as ++ (if bs = [] then [] else ' ' :: joined bs) := by
  induction as with
  | nil => exact absurd rfl h
  | cons a as ih =>
    cases as with
    | nil => rw [List.singleton_append, joined_cons, joined_cons, if_pos rfl, List.append_nil]
    | cons a' as =>
      have ih := ih (List.cons_ne_nil _ _)
      rw [List.cons_append, joined_cons, if_neg (by simp), ih, joined_cons a,
        if_neg (List.cons_ne_nil _ _)]
      simp

/-- A part of a flag string that is read as some arguments, whatever follows it. -/
def Parses (s : Text) (args : List Text) : Prop :=
  ∀ t, Tail t → commandLineParse (s ++ t) = (commandLineParse t).map (args ++ ·)

theorem parses_nil : Parses [] [] := fun t _ => by simp

theorem Parses.eq {args : List Text} (h : Parses s args) : commandLineParse s = some args := by
  have hs := h [] (Or.inl rfl)
  rw [List.append_nil, commandLineParse, Option.map_some, List.append_nil] at hs
  exact hs

theorem Parses.append {args args' : List Text} (h : Parses s args) (h' : Parses t args') :
    Parses (s ++ ' ' :: t) (args ++ args') := by
  intro u hu
  rw [List.append_assoc, List.cons_append, h _ (Or.inr ⟨_, rfl⟩), commandLineParse_blank, h' u hu,
    Option.map_map]
  simp only [Function.comp_def, List.append_assoc]

theorem parses_reads (h : Reads word arg) : Parses word [arg] := fun _ ht =>
  commandLineParse_reads h ht

theorem parses_joined {words args : List Text} (h : List.Forall₂ Reads words args) :
    Parses (joined words) args := by
  induction h with
  | nil => exact parses_nil
  | @cons word arg words args hword hwords ih =>
    rw [joined_cons]
    split_ifs with hnil
    · rw [hnil] at hwords
      cases hwords
      rw [List.append_nil]
      exact parses_reads hword
    · exact (parses_reads hword).append ih

end Words

section Quotes

variable {q state : Quoted} {a e t word : Text} {r : Text × Text}

/-- The quote that opens and closes. -/
def Quoted.mark : Quoted → Char
  | .no => ' '
  | .single => '\''
  | .double => '"'

/-- The characters that a parser may drop. -/
def isQuoting (c : Char) : Bool := c = '\\' || c = '\'' || c = '"'

/-- What the parser does with one character: the argument ends, the character after a backslash
is stored, a quote is dropped, or the character is stored. -/
theorem parseArg_cases {c : Char} {s : Text} (h : parseArg state (c :: s) = some r) :
    (isSpace c ∧ r.1 = []) ∨
    (c = '\\' ∧ ∃ d s' r', s = d :: s' ∧ parseArg state s' = some r' ∧ r.1 = d :: r'.1) ∨
    (isQuoting c ∧ ∃ state', (state = .no ∨ state' = .no) ∧ parseArg state' s = some r) ∨
    (state.stores c ∧ ∃ r', parseArg state s = some r' ∧ r.1 = c :: r'.1) := by
  rw [parseArg.eq_def] at h
  simp only at h
  split_ifs at h with hstop hslash hclose hsingle hdouble
  · cases h
    exact Or.inl ⟨hstop.2, rfl⟩
  · cases s with
    | nil => cases h
    | cons d s =>
      obtain ⟨r', hr', rfl⟩ := Option.map_eq_some_iff.mp h
      exact Or.inr (Or.inl ⟨hslash, d, s, r', rfl, hr', rfl⟩)
  · refine Or.inr (Or.inr (Or.inl ⟨?_, .no, Or.inr rfl, h⟩))
    rcases hclose with ⟨-, rfl⟩ | ⟨-, rfl⟩ <;> rfl
  · obtain ⟨rfl, rfl⟩ := hsingle
    exact Or.inr (Or.inr (Or.inl ⟨rfl, .single, Or.inl rfl, h⟩))
  · obtain ⟨rfl, rfl⟩ := hdouble
    exact Or.inr (Or.inr (Or.inl ⟨rfl, .double, Or.inl rfl, h⟩))
  · obtain ⟨r', hr', rfl⟩ := Option.map_eq_some_iff.mp h
    refine Or.inr (Or.inr (Or.inr ⟨?_, r', hr', rfl⟩))
    cases state <;> simp_all [Quoted.stores]

theorem mark_quoting (h : q ≠ .no) : isQuoting q.mark = true ∧ q.mark ≠ '\\' := by
  cases q
  · exact absurd rfl h
  · exact ⟨rfl, by decide⟩
  · exact ⟨rfl, by decide⟩

theorem isSpace_of_quoting {c : Char} (h : isQuoting c) : isSpace c = false := by
  simp only [isQuoting, Bool.or_eq_true, decide_eq_true_eq] at h
  rcases h with (rfl | rfl) | rfl <;> rfl

theorem stores_mark (hq : q ≠ .no) (h : state.stores q.mark) :
    state ≠ .no ∧ state ≠ q := by
  cases q <;> cases state <;> first | exact absurd rfl hq | exact absurd h (by decide) |
    exact ⟨by decide, by decide⟩

theorem parseArg_quote (hq : q ≠ .no) (s : Text) :
    parseArg .no (q.mark :: s) = parseArg q s ∧
      parseArg q (q.mark :: s) = parseArg .no s := by
  rw [parseArg.eq_def .no (q.mark :: s), parseArg.eq_def q (q.mark :: s)]
  cases q
  · exact absurd rfl hq
  · exact ⟨rfl, rfl⟩
  · exact ⟨rfl, rfl⟩

theorem reads_plain (ha : a ≠ []) (h : ∀ c ∈ a, Quoted.no.stores c) : Reads a a := by
  refine ⟨?_, fun t ht => ?_⟩
  · obtain ⟨c, w, rfl⟩ := List.exists_cons_of_ne_nil ha
    have hc := h c List.mem_cons_self
    simp only [Quoted.stores, Bool.and_eq_true, Bool.not_eq_true'] at hc
    exact ⟨c, w, rfl, hc.1.1.1⟩
  · rw [parseArg_append h, parseArg_tail ht]
    simp

/-- A quoted word that the quotes do not end too early. -/
theorem reads_quoted (hq : q ≠ .no) (ha : ∀ c ∈ a, Quoted.no.stores c)
    (hword : ∀ c ∈ word, q.stores c) :
    Reads (a ++ q.mark :: (word ++ [q.mark])) (a ++ word) := by
  refine ⟨?_, fun t ht => ?_⟩
  · cases a with
    | nil => exact ⟨_, _, rfl, isSpace_of_quoting (mark_quoting hq).1⟩
    | cons c a =>
      have hc := ha c List.mem_cons_self
      simp only [Quoted.stores, Bool.and_eq_true, Bool.not_eq_true'] at hc
      exact ⟨c, _, rfl, hc.1.1.1⟩
  · rw [List.append_assoc, parseArg_append ha, List.cons_append, (parseArg_quote hq _).1,
      List.append_assoc, parseArg_append hword, List.singleton_append, (parseArg_quote hq _).2,
      parseArg_tail ht]
    simp

theorem parseArg_rest_ne (ht : Tail t) (he : e ≠ []) (hquoting : ∀ c ∈ e, isQuoting c)
    (h : parseArg state t = some r) : r.1 ≠ e := by
  obtain ⟨x, e, rfl⟩ := List.exists_cons_of_ne_nil he
  have hx := isSpace_of_quoting (hquoting x List.mem_cons_self)
  rcases ht with rfl | ⟨s, rfl⟩
  · rw [parseArg] at h
    cases h
    exact List.cons_ne_nil _ _ ∘ Eq.symm
  · intro hr
    rcases parseArg_cases h with ⟨-, hnil⟩ | ⟨hslash, -⟩ | ⟨hblank, -⟩ | ⟨-, r', -, hcons⟩
    · rw [hnil] at hr
      cases hr
    · cases hslash
    · cases hblank
    · rw [hcons] at hr
      obtain ⟨rfl, -⟩ := List.cons.inj hr
      cases hx

/-- A parser that has dropped characters never catches up: the text up to the closing quote is
too short for what is still missing, and the missing characters are not in what follows. -/
theorem parseArg_ne (hq : q ≠ .no) (ht : Tail t) :
    ∀ (n : Nat) (word e : Text) (state : Quoted) (r : Text × Text), word.length = n → e ≠ [] →
      (∀ c ∈ e, isQuoting c) → (state ≠ .no → state ≠ q → 2 ≤ e.length) →
      parseArg state (word ++ q.mark :: t) = some r → r.1 ≠ e ++ word := by
  intro n
  induction n using Nat.strong_induction_on with
  | _ n ih =>
    intro word e state r hn he hquoting hother h hr
    obtain ⟨x, e, rfl⟩ := List.exists_cons_of_ne_nil he
    have hrest : ∀ c ∈ e, isQuoting c := fun c hc => hquoting c (List.mem_cons_of_mem _ hc)
    cases word with
    | nil =>
      rw [List.nil_append] at h
      rw [List.append_nil] at hr
      rcases parseArg_cases h with ⟨hspace, -⟩ | ⟨hslash, -⟩ | ⟨-, state', -, h'⟩ |
        ⟨hstores, r', h', hcons⟩
      · rw [isSpace_of_quoting (mark_quoting hq).1] at hspace
        cases hspace
      · exact (mark_quoting hq).2 hslash
      · exact parseArg_rest_ne ht he hquoting h' hr
      · obtain ⟨hno, hne⟩ := stores_mark hq hstores
        have hlen := hother hno hne
        have he' : e ≠ [] := by
          intro hnil
          rw [hnil] at hlen
          simp at hlen
        rw [hcons] at hr
        exact parseArg_rest_ne ht he' hrest h' (List.cons.inj hr).2
    | cons c word =>
      rw [List.cons_append] at h
      have hlt : word.length < n := by
        rw [← hn]
        exact Nat.lt_succ_self _
      rcases parseArg_cases h with ⟨-, hnil⟩ | ⟨rfl, d, s', r', hs, h', hcons⟩ |
        ⟨hc, state', -, h'⟩ | ⟨hstores, r', h', hcons⟩
      · rw [hnil] at hr
        cases hr
      · rw [hcons, List.cons_append] at hr
        obtain ⟨rfl, hr'⟩ := List.cons.inj hr
        cases word with
        | nil =>
          obtain ⟨-, rfl⟩ := List.cons.inj hs
          refine parseArg_rest_ne ht (e := e ++ ['\\']) (by simp) ?_ h' hr'
          intro c hc
          rcases List.mem_append.mp hc with hc | hc
          · exact hrest c hc
          · rw [List.mem_singleton.mp hc]
            rfl
        | cons d' word =>
          obtain ⟨rfl, rfl⟩ := List.cons.inj hs
          refine ih word.length (by simp at hlt; omega) word (e ++ ['\\', d']) state r' rfl
            (by simp) ?_ ?_ h' (by simpa using hr')
          · intro c hc
            rcases List.mem_append.mp hc with hc | hc
            · exact hrest c hc
            · rcases List.mem_cons.mp hc with rfl | hc
              · rfl
              · rw [List.mem_singleton.mp hc]
                exact hquoting d' List.mem_cons_self
          · simp
      · refine ih word.length hlt word (x :: e ++ [c]) state' r rfl (by simp) ?_ ?_ h'
          (by simpa using hr)
        · intro c' hc'
          rcases List.mem_append.mp hc' with hc' | hc'
          · exact hquoting c' hc'
          · rw [List.mem_singleton.mp hc']
            exact hc
        · simp
      · rw [hcons, List.cons_append] at hr
        obtain ⟨rfl, hr'⟩ := List.cons.inj hr
        refine ih word.length hlt word (e ++ [c]) state r' rfl (by simp) ?_ ?_ h'
          (by simpa using hr')
        · intro c' hc'
          rcases List.mem_append.mp hc' with hc' | hc'
          · exact hrest c' hc'
          · rw [List.mem_singleton.mp hc']
            exact hquoting c List.mem_cons_self
        · simpa using hother

/-- A word in quotes with the quote or a backslash in it does not come back. -/
theorem parseArg_quoted_ne (hq : q ≠ .no) (ht : Tail t)
    (hbad : ∃ c ∈ word, q.stores c = false)
    (h : parseArg q (word ++ q.mark :: t) = some r) : r.1 ≠ word := by
  induction word generalizing r with
  | nil =>
    obtain ⟨c, hc, -⟩ := hbad
    cases hc
  | cons c word ih =>
    intro hr
    rcases parseArg_cases h with ⟨-, hnil⟩ | ⟨rfl, d, s', r', hs, h', hcons⟩ |
      ⟨hc, state', hstate, h'⟩ | ⟨hstores, r', h', hcons⟩
    · rw [hnil] at hr
      cases hr
    · rw [hcons] at hr
      obtain ⟨rfl, hr'⟩ := List.cons.inj hr
      cases word with
      | nil => exact (mark_quoting hq).2 (List.cons.inj hs).1
      | cons d word =>
        obtain ⟨rfl, rfl⟩ := List.cons.inj hs
        refine parseArg_ne hq ht _ word ['\\'] q r' rfl (by simp) ?_ ?_ h' hr'
        · intro c hc
          rw [List.mem_singleton.mp hc]
          rfl
        · exact fun _ hne => absurd rfl hne
    · have hno : state' = .no := hstate.resolve_left hq
      refine parseArg_ne hq ht _ word [c] state' r rfl (by simp) ?_ ?_ h' hr
      · intro c' hc'
        rwa [List.mem_singleton.mp hc']
      · exact fun hne => absurd hno hne
    · rw [hcons] at hr
      refine ih ?_ h' (List.cons.inj hr).2
      obtain ⟨c', hc', hbad⟩ := hbad
      rcases List.mem_cons.mp hc' with rfl | hc'
      · rw [hstores] at hbad
        cases hbad
      · exact ⟨c', hc', hbad⟩

end Quotes

end CableSwig.GxFront.FlagsParser
