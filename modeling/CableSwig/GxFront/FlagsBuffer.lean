import CableSwig.GxFront.FlagsParser
import Mathlib.Data.List.Induction

/-!
# The memory that the flag scanner touches

`gxFlagsCommandLineParseInternal` walks over a terminated string with a pointer and writes the
arguments into one buffer. A pointer is what the array still holds from it on, so that nothing can
be read through the empty one.
-/
namespace CableSwig.GxFront.FlagsBuffer

open CableSwig.Lib.StdString
open CableSwig.GxFront.FlagsParser

section Scanner

def nul : Char := '\x00'

/-- A string without its terminator. -/
structure CString where
  text : Text
  nul_not_mem : nul ∉ text

/-- The array that the string is in. -/
def CString.array (s : CString) : Text := s.text ++ [nul]

/-- An `int` that is incremented, unless it overflows. -/
def increment (n : Nat) : Option Nat := if n + 1 < 2147483648 then some (n + 1) else none

def skipWhitespace : Text → Option Text
  | [] => none
  | c :: p => if c ≠ nul ∧ isSpace c then skipWhitespace p else some (c :: p)

/-- The loop over one argument, with what has been written so far. -/
def scanArgument : Quoted → Text → Text → Option (Text × Text)
  | _, [], _ => none
  | quoted, c :: p, out =>
    if c = nul ∨ (quoted = .no ∧ isSpace c) then some (c :: p, out)
    else if c = '\\' then
      match p with
      | [] => none
      -- The header of the loop moves on from the character that was stored, or from the terminator.
      | d :: p => scanArgument quoted p (if d ≠ nul then out ++ [d] else out)
    else if (quoted = .single ∧ c = '\'') ∨ (quoted = .double ∧ c = '"') then
      scanArgument .no p out
    else if quoted = .no ∧ c = '\'' then scanArgument .single p out
    else if quoted = .no ∧ c = '"' then scanArgument .double p out
    else scanArgument quoted p (out ++ [c])

theorem skipWhitespace_length (p : Text) :
    ∀ p', skipWhitespace p = some p' → p'.length ≤ p.length := by
  fun_induction skipWhitespace p with
  | case1 => intro p' h; cases h
  | case2 c p _ ih =>
    intro p' h
    exact Nat.le_succ_of_le (ih p' h)
  | case3 c p _ =>
    intro p' h
    cases h
    exact Nat.le_refl _

theorem scanArgument_length (quoted : Quoted) (p out : Text) :
    ∀ r, scanArgument quoted p out = some r → r.1.length ≤ p.length := by
  fun_induction scanArgument quoted p out with
  | case1 | case3 => intro r h; cases h
  | case2 =>
    intro r h
    cases h
    exact Nat.le_refl _
  | case4 quoted out d p _ ih =>
    intro r h
    have := ih r h
    simp only [List.length_cons]
    omega
  | case5 _ _ _ _ _ _ _ ih | case6 _ _ _ _ _ _ _ _ ih | case7 _ _ _ _ _ _ _ _ _ ih
  | case8 _ _ _ _ _ _ _ _ _ ih =>
    intro r h
    exact Nat.le_succ_of_le (ih r h)

/-- An argument and the blanks behind it have at least one character. -/
theorem scanArgument_consumes {c : Char} {p p' out : Text} {r : Text × Text} (hc : c ≠ nul)
    (h : scanArgument .no (c :: p) out = some r) (hskip : skipWhitespace r.1 = some p') :
    p'.length ≤ p.length := by
  have hskipped := skipWhitespace_length _ _ hskip
  rw [scanArgument.eq_def] at h
  simp only [hc, false_or, true_and] at h
  split_ifs at h with hspace
  · cases h
    rw [skipWhitespace, if_pos ⟨hc, hspace⟩] at hskip
    exact skipWhitespace_length _ _ hskip
  · cases p with
    | nil => cases h
    | cons d p => exact hskipped.trans (Nat.le_succ_of_le (scanArgument_length _ _ _ r h))
  all_goals exact hskipped.trans (scanArgument_length _ _ _ r h)

/-- The outer loop: the buffer and the number of arguments in it. -/
def scanLoop : Text → Text → Nat → Option (Text × Nat)
  | [], _, _ => none
  | c :: p, out, n =>
    if _hc : c = nul then some (out, n)
    else
      match _h : scanArgument .no (c :: p) out with
      | none => none
      | some (p', out') =>
        match increment n, _hskip : skipWhitespace p' with
        | some n', some p'' => scanLoop p'' (out' ++ [nul]) n'
        | _, _ => none
termination_by p => p.length
decreasing_by exact Nat.lt_succ_of_le (scanArgument_consumes _hc _h _hskip)

/-- `gxFlagsCommandLineParseInternal`. -/
def gxFlagsCommandLineParseInternal (array : Text) : Option (Text × Nat) :=
  (skipWhitespace array).bind fun p => scanLoop p [] 0

end Scanner

section Splitting

/-- The argument that begins here and what is behind its terminator. -/
def readArgument : Text → Option (Text × Text)
  | [] => none
  | c :: buffer =>
    if c = nul then some ([], buffer)
    else (readArgument buffer).map fun r => (c :: r.1, r.2)

/-- The loop that copies the arguments, and the part of the buffer that it does not reach. -/
def splitLoop : Nat → Text → Option (List Text × Text)
  | 0, buffer => some ([], buffer)
  | argc + 1, buffer =>
    (readArgument buffer).bind fun r =>
      (splitLoop argc r.2).map fun rest => (r.1 :: rest.1, rest.2)

/-- The buffer in which the arguments stand one after the other. -/
def bufferOf (argv : List Text) : Text := argv.flatMap fun a => a ++ [nul]

/-- What the scan and the splitting are relied on for. -/
structure StaysInBounds (s : CString) (buffer : Text) (argc : Nat) (argv : List Text) : Prop where
  scanned : gxFlagsCommandLineParseInternal s.array = some (buffer, argc)
  fits : buffer.length ≤ s.text.length + 1
  terminated : buffer = bufferOf argv
  no_nul : ∀ a ∈ argv, nul ∉ a
  counted : argc = argv.length
  -- One more pointer is allocated.
  allocated : (increment argc).isSome
  split : splitLoop argc buffer = some (argv, [])

end Splitting

section Refinement

variable {quoted : Quoted} {s out : Text} {r : Text × Text}

/-- The rest of a text behind an argument, which is made of characters of the text. -/
structure Splits (s : Text) (r : Text × Text) : Prop where
  rest_suffix : r.2 <:+ s
  rest_blank : r.2 = [] ∨ ∃ c t, r.2 = c :: t ∧ isSpace c
  subset : ∀ c ∈ r.1, c ∈ s
  length_le : r.1.length + r.2.length ≤ s.length

theorem Splits.drop {c : Char} (h : Splits s r) : Splits (c :: s) r where
  rest_suffix := h.rest_suffix.trans (List.suffix_cons _ _)
  rest_blank := h.rest_blank
  subset d hd := List.mem_cons_of_mem _ (h.subset d hd)
  length_le := Nat.le_succ_of_le h.length_le

theorem Splits.keep {c : Char} (h : Splits s r) : Splits (c :: s) (c :: r.1, r.2) where
  rest_suffix := h.rest_suffix.trans (List.suffix_cons _ _)
  rest_blank := h.rest_blank
  subset d hd := by
    rcases List.mem_cons.mp hd with rfl | hd
    · exact List.mem_cons_self
    · exact List.mem_cons_of_mem _ (h.subset d hd)
  length_le := by
    have hle := h.length_le
    simp only [List.length_cons]
    omega

theorem parseArg_splits (quoted : Quoted) (s : Text) :
    ∀ r, parseArg quoted s = some r → Splits s r := by
  fun_induction parseArg quoted s with
  | case1 =>
    intro r h
    cases h
    exact ⟨List.suffix_refl _, Or.inl rfl, fun c hc => hc, Nat.le_refl _⟩
  | case2 quoted c s hspace =>
    intro r h
    cases h
    exact ⟨List.suffix_refl _, Or.inr ⟨c, s, rfl, hspace.2⟩,
      fun d hd => absurd hd List.not_mem_nil, by simp⟩
  | case3 => intro r h; cases h
  | case4 _ d s _ ih =>
    intro r h
    obtain ⟨r', hr', rfl⟩ := Option.map_eq_some_iff.mp h
    exact (ih r' hr').keep.drop
  | case5 _ _ _ _ _ _ ih | case6 _ _ _ _ _ _ _ ih | case7 _ _ _ _ _ _ _ _ ih =>
    intro r h
    exact (ih r h).drop
  | case8 _ c s _ _ _ _ _ ih =>
    intro r h
    obtain ⟨r', hr', rfl⟩ := Option.map_eq_some_iff.mp h
    exact (ih r' hr').keep

theorem not_nul_cons {c : Char} {s : Text} (h : nul ∉ c :: s) : c ≠ nul ∧ nul ∉ s := by
  rw [List.mem_cons, not_or] at h
  exact ⟨Ne.symm h.1, h.2⟩

theorem scanArgument_eq (quoted : Quoted) (s : Text) : ∀ out, nul ∉ s →
    scanArgument quoted (s ++ [nul]) out =
      (parseArg quoted s).map fun r => (r.2 ++ [nul], out ++ r.1) := by
  fun_induction parseArg quoted s with
  | case1 =>
    intro out h
    simp [scanArgument]
  | case2 quoted c s hspace =>
    intro out h
    have hcond : c = nul ∨ quoted = .no ∧ isSpace c := Or.inr hspace
    rw [List.cons_append, scanArgument.eq_def]
    simp only [if_pos hcond, Option.map_some, List.append_nil, List.cons_append]
  | case3 quoted hspace =>
    intro out h
    have hne : ¬ ('\\' = nul ∨ quoted = .no ∧ isSpace '\\') := by
      exact fun h => h.elim (by decide) hspace
    simp only [List.singleton_append, scanArgument, if_neg hne]
    rfl
  | case4 quoted d s hspace ih =>
    intro out h
    have hd : d ≠ nul := fun hd => h (by simp [hd])
    have hs : nul ∉ s := fun hs => h (by simp [hs])
    have hne : ¬ ('\\' = nul ∨ quoted = .no ∧ isSpace '\\') := by
      exact fun h => h.elim (by decide) hspace
    simp only [List.cons_append, scanArgument, if_neg hne, if_pos, if_pos hd]
    rw [ih _ hs, Option.map_map]
    simp only [Function.comp_def, List.append_assoc, List.singleton_append]
  | case5 quoted c s hspace hback hclose ih =>
    intro out h
    obtain ⟨hc, hs⟩ := not_nul_cons h
    rw [List.cons_append, scanArgument.eq_def]
    simp only [hc, false_or, if_neg hspace, if_neg hback, if_pos hclose]
    exact ih out hs
  | case6 quoted c s hspace hback hclose hsingle ih =>
    intro out h
    obtain ⟨hc, hs⟩ := not_nul_cons h
    rw [List.cons_append, scanArgument.eq_def]
    simp only [hc, false_or, if_neg hspace, if_neg hback, if_neg hclose, if_pos hsingle]
    exact ih out hs
  | case7 quoted c s hspace hback hclose hsingle hdouble ih =>
    intro out h
    obtain ⟨hc, hs⟩ := not_nul_cons h
    rw [List.cons_append, scanArgument.eq_def]
    simp only [hc, false_or, if_neg hspace, if_neg hback, if_neg hclose, if_neg hsingle,
      if_pos hdouble]
    exact ih out hs
  | case8 quoted c s hspace hback hclose hsingle hdouble ih =>
    intro out h
    obtain ⟨hc, hs⟩ := not_nul_cons h
    rw [List.cons_append, scanArgument.eq_def]
    simp only [hc, false_or, if_neg hspace, if_neg hback, if_neg hclose, if_neg hsingle,
      if_neg hdouble]
    rw [ih _ hs, Option.map_map]
    simp only [Function.comp_def, List.append_assoc, List.singleton_append]

theorem skipWhitespace_cons {c : Char} (hc : isSpace c) (p : Text) :
    skipWhitespace (c :: p) = skipWhitespace p := by
  have hnul : c ≠ nul := by
    intro h
    rw [h] at hc
    cases hc
  rw [skipWhitespace, if_pos ⟨hnul, hc⟩]

theorem scanLoop_cons {c : Char} (hc : c ≠ nul) (p out : Text) (n : Nat) :
    scanLoop (c :: p) out n = (scanArgument .no (c :: p) out).bind fun r =>
      (increment n).bind fun n' =>
        (skipWhitespace r.1).bind fun p' => scanLoop p' (r.2 ++ [nul]) n' := by
  rw [scanLoop, dif_neg hc]
  split
  · next h => rw [h]; rfl
  · next p' out' h =>
    rw [h, Option.bind_some]
    split
    · next hn hskip => rw [hn, hskip]; rfl
    · next hnone =>
      cases hn : increment n with
      | none => rfl
      | some n' =>
        cases hskip : skipWhitespace p' with
        | none => rfl
        | some p'' => exact absurd hskip (hnone n' p'' hn)

/-- The loop over the arguments, from behind the blanks before the next one. -/
theorem scanLoop_eq (k : Nat) : ∀ s : Text, s.length < k → nul ∉ s → ∀ out n, n < 2147483648 →
    (skipWhitespace (s ++ [nul])).bind (fun p => scanLoop p out n) =
      (commandLineParse s).bind fun argv =>
        if n + argv.length < 2147483648 then some (out ++ bufferOf argv, n + argv.length)
        else none := by
  induction k with
  | zero => intro s hk; exact absurd hk (Nat.not_lt_zero _)
  | succ k ih =>
    intro s hk hs out n hn
    cases s with
    | nil =>
      rw [List.nil_append, commandLineParse, skipWhitespace, if_neg (by simp), Option.bind_some,
        scanLoop, dif_pos rfl]
      simp [hn, bufferOf]
    | cons c s =>
      have hc : c ≠ nul := fun hc => hs (by simp [hc])
      have hs' : nul ∉ s := fun h => hs (List.mem_cons_of_mem _ h)
      have hlen : s.length < k := Nat.lt_of_succ_lt_succ hk
      cases hspace : isSpace c with
      | true =>
        rw [List.cons_append, skipWhitespace_cons hspace, ih s hlen hs' out n hn, commandLineParse,
          dif_pos hspace]
      | false =>
        have hskip : skipWhitespace (c :: s ++ [nul]) = some (c :: s ++ [nul]) := by
          rw [List.cons_append, skipWhitespace, if_neg (by simp [hspace])]
        have hscan := scanArgument_eq .no (c :: s) out hs
        rw [List.cons_append] at hscan hskip
        rw [commandLineParse_word hspace, List.cons_append, hskip, Option.bind_some,
          scanLoop_cons hc, hscan]
        cases hparse : parseArg .no (c :: s) with
        | none => rfl
        | some r =>
          have hsplits := parseArg_splits _ _ _ hparse
          have hrest : nul ∉ r.2 := fun h => hs (hsplits.rest_suffix.subset h)
          have hshort : r.2.length < k := Nat.lt_of_le_of_lt (parseArg_consumes hspace hparse) hlen
          have hstep := ih r.2 hshort hrest (out ++ r.1 ++ [nul]) (n + 1)
          simp only [Option.map_some, Option.bind_some]
          by_cases hfit : n + 1 < 2147483648
          · rw [increment, if_pos hfit, Option.bind_some, hstep hfit, Option.bind_map]
            refine congrArg (Option.bind _) (funext fun argv => ?_)
            have hcount : n + 1 + argv.length = n + (r.1 :: argv).length := by
              rw [List.length_cons]
              omega
            simp only [Function.comp_apply, hcount, bufferOf, List.flatMap_cons, List.append_assoc]
          · have hover : ∀ argv : List Text, ¬ n + (r.1 :: argv).length < 2147483648 := by
              intro argv
              rw [List.length_cons]
              omega
            rw [increment, if_neg hfit, Option.bind_map]
            cases commandLineParse r.2 with
            | none => rfl
            | some argv => rw [Option.bind_some, Function.comp_apply, if_neg (hover argv)]; rfl

end Refinement

section Splitting

theorem readArgument_append (a buffer : Text) (ha : nul ∉ a) :
    readArgument (a ++ [nul] ++ buffer) = some (a, buffer) := by
  induction a with
  | nil => rfl
  | cons c a ih =>
    have hc : c ≠ nul := fun hc => ha (by simp [hc])
    have ha' : nul ∉ a := fun h => ha (List.mem_cons_of_mem _ h)
    rw [List.cons_append, List.cons_append, readArgument, if_neg hc, ih ha']
    rfl

/-- The splitting ends where the buffer does. -/
theorem splitLoop_bufferOf (argv : List Text) (h : ∀ a ∈ argv, nul ∉ a) :
    splitLoop argv.length (bufferOf argv) = some (argv, []) := by
  induction argv with
  | nil => rfl
  | cons a argv ih =>
    have hrest := ih fun b hb => h b (List.mem_cons_of_mem _ hb)
    rw [List.length_cons, splitLoop, bufferOf, List.flatMap_cons,
      readArgument_append a _ (h a List.mem_cons_self), Option.bind_some]
    rw [bufferOf] at hrest
    rw [hrest]
    rfl

/-- Every argument is delimited by what is not stored of it. -/
theorem commandLineParse_fits (k : Nat) : ∀ s : Text, s.length < k → ∀ argv,
    commandLineParse s = some argv →
    (bufferOf argv).length ≤ s.length + 1 ∧ ∀ a ∈ argv, ∀ c ∈ a, c ∈ s := by
  induction k with
  | zero => intro s hk; exact absurd hk (Nat.not_lt_zero _)
  | succ k ih =>
    intro s hk argv h
    cases s with
    | nil =>
      rw [commandLineParse] at h
      cases h
      exact ⟨by simp [bufferOf], fun a ha => absurd ha List.not_mem_nil⟩
    | cons c s =>
      have hlen : s.length < k := Nat.lt_of_succ_lt_succ hk
      cases hspace : isSpace c with
      | true =>
        rw [commandLineParse, dif_pos hspace] at h
        obtain ⟨hfits, hsubset⟩ := ih s hlen argv h
        exact ⟨hfits.trans (Nat.le_succ _),
          fun a ha d hd => List.mem_cons_of_mem _ (hsubset a ha d hd)⟩
      | false =>
        rw [commandLineParse_word hspace] at h
        obtain ⟨r, hr, h⟩ := Option.bind_eq_some_iff.mp h
        obtain ⟨rest, hrest, rfl⟩ := Option.map_eq_some_iff.mp h
        have hsplits := parseArg_splits _ _ _ hr
        have hconsumes := parseArg_consumes hspace hr
        have hle := hsplits.length_le
        have hshort : r.2.length < k := Nat.lt_of_le_of_lt hconsumes hlen
        have hbuffer : (bufferOf (r.1 :: rest)).length =
            r.1.length + 1 + (bufferOf rest).length := by
          simp only [bufferOf, List.flatMap_cons, List.length_append, List.length_singleton]
        obtain ⟨-, hsubset⟩ := ih r.2 hshort rest hrest
        refine ⟨?_, ?_⟩
        · rw [hbuffer]
          rcases hsplits.rest_blank with hnil | ⟨d, t, ht, hd⟩
          · rw [hnil, commandLineParse] at hrest
            cases hrest
            rw [bufferOf, List.flatMap_nil, List.length_nil]
            omega
          · -- The blank behind the argument makes room for its terminator.
            rw [ht, List.length_cons] at hle hshort
            rw [ht, commandLineParse, dif_pos hd] at hrest
            have hfits := (ih t (Nat.lt_of_succ_lt hshort) rest hrest).1
            omega
        · intro a ha d hd
          rcases List.mem_cons.mp ha with rfl | ha
          · exact hsplits.subset d hd
          · exact hsplits.rest_suffix.subset (hsubset a ha d hd)

end Splitting

section Places

/-- Where the scan is: between two arguments, in one, or behind a backslash. -/
inductive Place
  | between
  | within (quoted : Quoted)
  | escaped (quoted : Quoted)
  deriving DecidableEq

def Place.isEscaped : Place → Bool
  | .escaped _ => true
  | _ => false

def charPlace (quoted : Quoted) (c : Char) : Place :=
  if c = '\\' then .escaped quoted
  else if (quoted = .single ∧ c = '\'') ∨ (quoted = .double ∧ c = '"') then .within .no
  else if quoted = .no ∧ c = '\'' then .within .single
  else if quoted = .no ∧ c = '"' then .within .double
  else .within quoted

def Place.next : Place → Char → Place
  | .between, c => if isSpace c then .between else charPlace .no c
  | .within quoted, c => if quoted = .no ∧ isSpace c then .between else charPlace quoted c
  | .escaped quoted, _ => .within quoted

def Place.endsEscaped (place : Place) (s : Text) : Bool := (s.foldl Place.next place).isEscaped

/-- The number of arguments that begin in the text. -/
def Place.argumentsIn : Place → Text → Nat
  | _, [] => 0
  | place, c :: s =>
    (if place = .between ∧ isSpace c = false then 1 else 0) + (place.next c).argumentsIn s

/-- The backslashes at the end of the text. -/
def trailingBackslashes (s : Text) : Nat := (s.reverse.takeWhile (· = '\\')).length

theorem next_isEscaped (place : Place) (c : Char) :
    (place.next c).isEscaped = (!place.isEscaped && c = '\\') := by
  have hchar : ∀ quoted, (charPlace quoted c).isEscaped = decide (c = '\\') := by
    intro quoted
    unfold charPlace
    split_ifs with hback
    all_goals simp_all [Place.isEscaped]
  cases place with
  | between =>
    cases hc : isSpace c with
    | true =>
      have hne : c ≠ '\\' := fun h => by rw [h] at hc; cases hc
      simp [Place.next, hc, Place.isEscaped, hne]
    | false => simpa [Place.next, hc, Place.isEscaped] using hchar .no
  | within quoted =>
    by_cases hc : quoted = .no ∧ isSpace c
    · have hne : c ≠ '\\' := fun h => by rw [h] at hc; cases hc.2
      simp [Place.next, hc, Place.isEscaped, hne]
    · rw [Place.next, if_neg hc, hchar]
      rfl
  | escaped quoted => rfl

theorem endsEscaped_eq (place : Place) (hplace : place.isEscaped = false) (s : Text) :
    place.endsEscaped s = decide (trailingBackslashes s % 2 = 1) := by
  induction s using List.reverseRecOn with
  | nil => simpa [Place.endsEscaped, trailingBackslashes] using hplace
  | append_singleton s c ih =>
    have hlast : place.endsEscaped (s ++ [c]) = (!place.endsEscaped s && c = '\\') := by
      rw [Place.endsEscaped, List.foldl_append]
      exact next_isEscaped _ c
    have htrailing : trailingBackslashes (s ++ [c]) =
        if c = '\\' then trailingBackslashes s + 1 else 0 := by
      rw [trailingBackslashes, List.reverse_append, List.reverse_singleton, List.singleton_append,
        List.takeWhile_cons]
      by_cases hc : c = '\\'
      · simp [hc, trailingBackslashes]
      · simp [hc]
    rw [hlast, ih, htrailing]
    by_cases hc : c = '\\'
    · rw [if_pos hc]
      by_cases hodd : trailingBackslashes s % 2 = 1
      · have heven : (trailingBackslashes s + 1) % 2 ≠ 1 := by omega
        simp [hodd, heven]
      · have hnext : (trailingBackslashes s + 1) % 2 = 1 := by omega
        simp [hc, hodd, hnext]
    · simp [hc]

/-- From an argument on, the scan is where it is at the beginning of what follows it. -/
structure SamePlace (quoted : Quoted) (s : Text) (r : Text × Text) : Prop where
  ends : (Place.within quoted).endsEscaped s = Place.between.endsEscaped r.2
  arguments : (Place.within quoted).argumentsIn s = Place.between.argumentsIn r.2

theorem SamePlace.step {quoted quoted' : Quoted} {c : Char} {s a : Text} {r : Text × Text}
    (h : SamePlace quoted' s r) (hnext : (Place.within quoted).next c = .within quoted') :
    SamePlace quoted (c :: s) (a, r.2) where
  ends := by
    rw [Place.endsEscaped, List.foldl_cons, hnext]
    exact h.ends
  arguments := by
    rw [Place.argumentsIn, hnext, h.arguments]
    simp

/-- A reading that goes on after a character, with what the character adds to the argument. -/
theorem place_step {quoted quoted' : Quoted} {c : Char} {s : Text} {o : Option (Text × Text)}
    (f : Text → Text) (hnext : (Place.within quoted).next c = .within quoted')
    (ih : (o = none → (Place.within quoted').endsEscaped s = true) ∧
      ∀ r, o = some r → SamePlace quoted' s r) :
    (o.map (Prod.map f id) = none → (Place.within quoted).endsEscaped (c :: s) = true) ∧
      ∀ r, o.map (Prod.map f id) = some r → SamePlace quoted (c :: s) r := by
  refine ⟨fun h => ?_, fun r h => ?_⟩
  · rw [Place.endsEscaped, List.foldl_cons, hnext]
    exact ih.1 (Option.map_eq_none_iff.mp h)
  · obtain ⟨r', hr', rfl⟩ := Option.map_eq_some_iff.mp h
    exact (ih.2 r' hr').step hnext

theorem next_char {quoted : Quoted} {c : Char} (h : ¬ (quoted = .no ∧ isSpace c)) :
    (Place.within quoted).next c = charPlace quoted c := if_neg h

theorem parseArg_place (quoted : Quoted) (s : Text) :
    (parseArg quoted s = none → (Place.within quoted).endsEscaped s = true) ∧
      ∀ r, parseArg quoted s = some r → SamePlace quoted s r := by
  fun_induction parseArg quoted s with
  | case1 quoted =>
    refine ⟨fun h => (by cases h), fun r h => ?_⟩
    cases h
    exact ⟨rfl, rfl⟩
  | case2 quoted c s hspace =>
    refine ⟨fun h => (by cases h), fun r h => ?_⟩
    cases h
    have hnext : (Place.within quoted).next c = .between := if_pos hspace
    have hbetween : Place.between.next c = .between := if_pos hspace.2
    refine ⟨?_, ?_⟩
    · rw [Place.endsEscaped, List.foldl_cons, hnext, Place.endsEscaped, List.foldl_cons, hbetween]
    · rw [Place.argumentsIn, hnext, Place.argumentsIn, hbetween, hspace.2]
      simp
  | case3 quoted hspace =>
    refine ⟨fun _ => ?_, fun r h => by cases h⟩
    rw [Place.endsEscaped, List.foldl_cons, next_char hspace]
    rfl
  | case4 quoted d s hspace ih =>
    have hnext : ((Place.within quoted).next '\\').next d = .within quoted := by
      rw [next_char hspace]
      rfl
    refine ⟨fun h => ?_, fun r h => ?_⟩
    · rw [Place.endsEscaped, List.foldl_cons, List.foldl_cons, hnext]
      exact ih.1 (Option.map_eq_none_iff.mp h)
    · obtain ⟨r', hr', rfl⟩ := Option.map_eq_some_iff.mp h
      have hsame := ih.2 r' hr'
      refine ⟨?_, ?_⟩
      · rw [Place.endsEscaped, List.foldl_cons, List.foldl_cons, hnext]
        exact hsame.ends
      · rw [Place.argumentsIn, Place.argumentsIn, hnext, hsame.arguments, next_char hspace]
        simp [charPlace]
  | case5 quoted c s hspace hback hclose ih =>
    have hnext : (Place.within quoted).next c = .within .no := by
      rw [next_char hspace, charPlace, if_neg hback, if_pos hclose]
    simpa using place_step id hnext ih
  | case6 quoted c s hspace hback hclose hsingle ih =>
    have hnext : (Place.within quoted).next c = .within .single := by
      rw [next_char hspace, charPlace, if_neg hback, if_neg hclose, if_pos hsingle]
    simpa using place_step id hnext ih
  | case7 quoted c s hspace hback hclose hsingle hdouble ih =>
    have hnext : (Place.within quoted).next c = .within .double := by
      rw [next_char hspace, charPlace, if_neg hback, if_neg hclose, if_neg hsingle, if_pos hdouble]
    simpa using place_step id hnext ih
  | case8 quoted c s hspace hback hclose hsingle hdouble ih =>
    have hnext : (Place.within quoted).next c = .within quoted := by
      rw [next_char hspace, charPlace, if_neg hback, if_neg hclose, if_neg hsingle, if_neg hdouble]
    exact place_step (c :: ·) hnext ih

/-- An argument begins. -/
theorem between_cons {c : Char} (hc : isSpace c = false) (s : Text) :
    Place.between.endsEscaped (c :: s) = (Place.within .no).endsEscaped (c :: s) ∧
      Place.between.argumentsIn (c :: s) = (Place.within .no).argumentsIn (c :: s) + 1 := by
  have hnext : Place.between.next c = (Place.within .no).next c := by simp [Place.next, hc]
  refine ⟨?_, ?_⟩
  · rw [Place.endsEscaped, List.foldl_cons, hnext]
    rfl
  · rw [Place.argumentsIn, hnext, Place.argumentsIn, hc]
    simp [Nat.add_comm]

theorem commandLineParse_place (k : Nat) : ∀ s : Text, s.length < k →
    (commandLineParse s = none ↔ Place.between.endsEscaped s = true) ∧
      ∀ argv, commandLineParse s = some argv → argv.length = Place.between.argumentsIn s := by
  induction k with
  | zero => intro s hk; exact absurd hk (Nat.not_lt_zero _)
  | succ k ih =>
    intro s hk
    cases s with
    | nil =>
      rw [commandLineParse]
      refine ⟨by simp [Place.endsEscaped, Place.isEscaped], fun argv h => ?_⟩
      cases h
      rfl
    | cons c s =>
      have hlen : s.length < k := Nat.lt_of_succ_lt_succ hk
      cases hspace : isSpace c with
      | true =>
        have hnext : Place.between.next c = .between := if_pos hspace
        have hends : Place.between.endsEscaped (c :: s) = Place.between.endsEscaped s := by
          rw [Place.endsEscaped, List.foldl_cons, hnext, Place.endsEscaped]
        have harguments : Place.between.argumentsIn (c :: s) = Place.between.argumentsIn s := by
          rw [Place.argumentsIn, hnext, hspace]
          simp
        rw [commandLineParse, dif_pos hspace, hends, harguments]
        exact ih s hlen
      | false =>
        obtain ⟨hends, harguments⟩ := between_cons hspace s
        obtain ⟨hnone, hsome⟩ := parseArg_place .no (c :: s)
        rw [commandLineParse_word hspace, hends, harguments]
        cases hparse : parseArg .no (c :: s) with
        | none => exact ⟨by simp [hnone hparse], fun argv h => by cases h⟩
        | some r =>
          have hsame := hsome r hparse
          have hshort : r.2.length < k := Nat.lt_of_le_of_lt (parseArg_consumes hspace hparse) hlen
          obtain ⟨hrest, hcount⟩ := ih r.2 hshort
          rw [Option.bind_some, Option.map_eq_none_iff, hsame.ends, hsame.arguments]
          refine ⟨hrest, fun argv h => ?_⟩
          obtain ⟨rest, hargs, rfl⟩ := Option.map_eq_some_iff.mp h
          rw [List.length_cons, hcount rest hargs]

end Places

/-- The scan and the splitting stay in bounds unless a backslash escapes the terminator or the
arguments are more than the `int` counts. -/
theorem stays_in_bounds_iff (s : CString) :
    (∃ buffer argc argv, StaysInBounds s buffer argc argv) ↔
      trailingBackslashes s.text % 2 = 0 ∧
        Place.between.argumentsIn s.text + 1 < 2147483648 := by
  have hscan := scanLoop_eq _ s.text (Nat.lt_succ_self _) s.nul_not_mem [] 0 (by decide)
  obtain ⟨hnone, hcount⟩ := commandLineParse_place _ s.text (Nat.lt_succ_self _)
  have hends := endsEscaped_eq .between rfl s.text
  constructor
  · intro h
    obtain ⟨buffer, argc, argv, h⟩ := h
    have hscanned : some (buffer, argc) = _ := h.scanned.symm.trans hscan
    obtain ⟨argv', hargv', hfit⟩ := Option.bind_eq_some_iff.mp hscanned.symm
    have heven : trailingBackslashes s.text % 2 ≠ 1 := by
      intro hodd
      rw [hnone.mpr (hends.trans (decide_eq_true hodd))] at hargv'
      cases hargv'
    have hlength := hcount argv' hargv'
    split_ifs at hfit with hlt
    cases hfit
    have hallocated := h.allocated
    rw [increment, Nat.zero_add] at hallocated
    refine ⟨by omega, ?_⟩
    rw [← hlength]
    by_contra hover
    rw [if_neg hover] at hallocated
    cases hallocated
  · intro h
    obtain ⟨heven, hfit⟩ := h
    cases hparse : commandLineParse s.text with
    | none =>
      have hodd := hends.symm.trans (hnone.mp hparse)
      have hodd := of_decide_eq_true hodd
      omega
    | some argv =>
      have hlength := hcount argv hparse
      obtain ⟨hfits, hsubset⟩ := commandLineParse_fits _ s.text (Nat.lt_succ_self _) argv hparse
      have hnul : ∀ a ∈ argv, nul ∉ a := fun a ha h => s.nul_not_mem (hsubset a ha _ h)
      have hlt : 0 + argv.length < 2147483648 := by omega
      have hincrement : argv.length + 1 < 2147483648 := by omega
      rw [hparse, Option.bind_some, if_pos hlt, List.nil_append, Nat.zero_add] at hscan
      refine ⟨bufferOf argv, argv.length, argv, hscan, hfits, rfl, hnul, rfl, ?_,
        splitLoop_bufferOf argv hnul⟩
      rw [increment, if_pos hincrement]
      rfl

/-- Here the header of the loop moves on from the terminator. -/
def oneBackslash : CString where
  text := ['\\']
  nul_not_mem := by decide

theorem one_backslash_out_of_bounds :
    ¬ ∃ buffer argc argv, StaysInBounds oneBackslash buffer argc argv := by
  intro h
  obtain ⟨buffer, argc, argv, h⟩ := h
  have hnone : gxFlagsCommandLineParseInternal oneBackslash.array = none := by
    have hscan : scanArgument .no ['\\', nul] [] = none := by decide
    have hskip : skipWhitespace ['\\', nul] = some ['\\', nul] := by decide
    have hne : '\\' ≠ nul := by decide
    change (skipWhitespace ['\\', nul]).bind _ = none
    rw [hskip, Option.bind_some, scanLoop_cons hne, hscan]
    rfl
  rw [h.scanned] at hnone
  cases hnone

end CableSwig.GxFront.FlagsBuffer
