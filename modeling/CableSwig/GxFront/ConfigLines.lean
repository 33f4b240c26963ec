import CableSwig.GxFront.Configure

/-!
# The lines of the configuration file

`ParseConfigLine` strips blanks in front of the key and on both sides of the value. It keeps the
ones between the key and the equals sign, and it looks for a pair of quotes in a value whose
length it takes before stripping.
-/
namespace CableSwig.GxFront.ConfigLines

open CableSwig.GxFront.Configure
open CableSwig.Lib.StdString

section Line

/-- A value without the double quotes around it, where it begins with one and ends with
another. -/
def dequote (value : Text) : Text :=
  if value.head? = some quote ∧ value.tail.getLast? = some quote then value.tail.dropLast
  else value

/-- What a line with a key and a value says, whatever blanks there are. -/
def assigned (key value : Text) : Option (Text × Text) :=
  if key.head? = some '#' then none else some (key, dequote (strip configBlanks value))

/-- The value that `ParseConfigLine` takes from what follows the equals sign. A lone quote counts
as a pair of them where there is a blank next to it. -/
def lineValue (rawValue : Text) : Text :=
  if strip configBlanks rawValue = [quote] ∧ 2 ≤ rawValue.length then []
  else dequote (strip configBlanks rawValue)

theorem dequote_singleton (c : Char) : dequote [c] = [c] := by simp [dequote]

/-- The test of the first and the last character, and the cut by positions. -/
theorem substr_dequote {rawValue : Text} (hlen : rawValue.length < npos)
    (hne : strip configBlanks rawValue ≠ []) :
    (if 2 ≤ rawValue.length && (strip configBlanks rawValue).head? = some quote &&
        (strip configBlanks rawValue).getLast? = some quote then
      substr (strip configBlanks rawValue) 1 (subSize (strip configBlanks rawValue).length 2)
    else strip configBlanks rawValue) = lineValue rawValue := by
  obtain ⟨a, b, heq, -, -⟩ := exists_strip configBlanks rawValue
  have hle := congrArg List.length heq
  obtain ⟨c, t, ht⟩ := List.exists_cons_of_ne_nil hne
  rw [List.length_append, List.length_append, ht, List.length_cons] at hle
  rw [lineValue, ht]
  cases t with
  | nil =>
    by_cases hc : c = quote
    · subst hc
      by_cases h2 : 2 ≤ rawValue.length
      · simp [h2, substr]
      · simp [h2, dequote_singleton]
    · simp [hc, dequote_singleton]
  | cons d t =>
    have h2 : 2 ≤ rawValue.length := by
      rw [List.length_cons] at hle
      omega
    have hcount : subSize (c :: d :: t).length 2 = (d :: t).length - 1 := by
      simp only [List.length_cons] at hle ⊢
      rw [subSize_eq (by omega) (by omega)]
      omega
    have hsub : substr (c :: d :: t) 1 ((d :: t).length - 1) = (d :: t).dropLast := by
      rw [substr, List.drop_succ_cons, List.drop_zero, List.dropLast_eq_take]
    rw [hcount, hsub]
    simp [h2, dequote]

/-- A line with a key that does not begin with a blank. -/
theorem parseConfigLine_eq {line before key rawValue : Text}
    (hline : line = before ++ (key ++ '=' :: rawValue)) (hlen : line.length < npos)
    (hbefore : ∀ c ∈ before, c ∈ configBlanks) (hkey : '=' ∉ key)
    (hhead : ∀ c ∈ key.head?, c ∉ configBlanks) :
    parseConfigLine line =
      if key.head? = some '#' then none else some (key, lineValue rawValue) := by
  have hlength := congrArg List.length hline
  simp only [List.length_append, List.length_cons] at hlength
  have heq : '=' ∉ configBlanks := by decide
  obtain ⟨c, rest, hrest, hc⟩ : ∃ c rest, key ++ '=' :: rawValue = c :: rest ∧
      c ∉ configBlanks := by
    cases key with
    | nil => exact ⟨'=', rawValue, rfl, heq⟩
    | cons c key => exact ⟨c, key ++ '=' :: rawValue, rfl, hhead c rfl⟩
  have hfirst : findFirstNotOf line configBlanks = before.length :=
    findFirstNotOf_eq (by rw [hline, hrest]) hbefore hc
  have hcomment : (line.drop before.length).head? = some '#' ↔ key.head? = some '#' := by
    rw [hline, List.drop_left]
    cases key <;> simp
  have hfind : find line '=' before.length = before.length + key.length := find_eq hline hkey
  have hsubkey : substr line before.length (subSize (before.length + key.length) before.length) =
      key := by
    rw [subSize_eq (by omega) (by omega), Nat.add_sub_cancel_left]
    exact substr_eq hline
  have hsubvalue : substr line (addSize (before.length + key.length) 1) npos = rawValue := by
    have hpos : before.length + key.length + 1 = (before ++ (key ++ ['='])).length := by
      simp only [List.length_append, List.length_singleton]
      omega
    rw [addSize_eq (by omega), hpos]
    exact substr_rest (by simp [hline]) (by omega)
  have hvalue : rawValue.length < npos := by omega
  unfold parseConfigLine
  simp only [hfirst, hcomment, hfind, hsubkey, hsubvalue]
  rw [if_neg (by omega)]
  by_cases hhash : key.head? = some '#'
  · rw [if_pos hhash, if_pos hhash]
  · rw [if_neg hhash, if_neg hhash, if_neg (by omega)]
    by_cases hne : strip configBlanks rawValue = []
    · have hnpos : findFirstNotOf rawValue configBlanks = npos := by
        rw [findFirstNotOf, if_pos (strip_eq_nil_iff.mp hne)]
      rw [hnpos, decide_eq_true rfl, Bool.true_or, if_pos rfl, lineValue, hne]
      rfl
    · obtain ⟨hf, hl, hstrip⟩ := substr_strip hvalue hne
      rw [hstrip, if_neg (by simp [hf, hl]), ← substr_dequote hvalue hne]
      split <;> rfl

end Line

section Insensitive

/-- The blanks in a line around its key, its equals sign and its value. -/
structure Blanks where
  beforeKey : Text
  afterKey : Text
  beforeValue : Text
  afterValue : Text
  blank : ∀ c ∈ beforeKey ++ afterKey ++ beforeValue ++ afterValue, c ∈ configBlanks

/-- The text between the equals sign and the end of the line. -/
def Blanks.around (b : Blanks) (value : Text) : Text := b.beforeValue ++ (value ++ b.afterValue)

def Blanks.line (b : Blanks) (key value : Text) : Text :=
  b.beforeKey ++ (key ++ (b.afterKey ++ '=' :: b.around value))

/-- A key as the settings have it. -/
def IsKey (key : Text) : Prop := ∀ c ∈ key, c ∉ configBlanks ∧ c ≠ '=' ∧ c ≠ quote

/-- The blanks change nothing, and the line says what it says without them. -/
def Insensitive (b : Blanks) (key value : Text) : Prop :=
  parseConfigLine (b.line key value) = parseConfigLine (key ++ '=' :: value) ∧
    parseConfigLine (b.line key value) = assigned key value

instance (b : Blanks) (key value : Text) : Decidable (Insensitive b key value) :=
  inferInstanceAs (Decidable (_ ∧ _))

theorem Blanks.strip_around (b : Blanks) (value : Text) :
    strip configBlanks (b.around value) = strip configBlanks value :=
  strip_append (fun c hc => b.blank c (by simp [hc])) (fun c hc => b.blank c (by simp [hc]))

theorem Blanks.length_around (b : Blanks) (value : Text) :
    value.length ≤ (b.around value).length := by
  rw [around, List.length_append, List.length_append]
  omega

/-- The key that is taken from a line goes on to the equals sign. -/
theorem parseConfigLine_line {b : Blanks} {key value : Text} (hkey : IsKey key)
    (hlen : (b.line key value).length < npos) :
    parseConfigLine (b.line key value) =
      if key.head? = some '#' then none
      else some (key ++ (if key = [] then [] else b.afterKey), lineValue (b.around value)) := by
  have hafter : ∀ c ∈ b.afterKey, c ∈ configBlanks := fun c hc => b.blank c (by simp [hc])
  have hbefore : ∀ c ∈ b.beforeKey, c ∈ configBlanks := fun c hc => b.blank c (by simp [hc])
  have heq : '=' ∉ configBlanks := by decide
  cases key with
  | nil =>
    -- The blanks on both sides of an empty key are the ones in front of the line.
    have hboth : ∀ c ∈ b.beforeKey ++ b.afterKey, c ∈ configBlanks := by
      intro c hc
      rcases List.mem_append.mp hc with hc | hc
      · exact hbefore c hc
      · exact hafter c hc
    have hline : b.line [] value =
        (b.beforeKey ++ b.afterKey) ++ ([] ++ '=' :: b.around value) := by
      simp [Blanks.line]
    rw [parseConfigLine_eq hline hlen hboth List.not_mem_nil (by simp)]
    simp
  | cons c key =>
    have hline : b.line (c :: key) value =
        b.beforeKey ++ ((c :: key ++ b.afterKey) ++ '=' :: b.around value) := by
      simp [Blanks.line]
    have hnoeq : '=' ∉ c :: key ++ b.afterKey := by
      intro h
      rcases List.mem_append.mp h with h | h
      · exact (hkey _ h).2.1 rfl
      · exact heq (hafter _ h)
    have hhead : ∀ d ∈ (c :: key ++ b.afterKey).head?, d ∉ configBlanks := by
      intro d hd
      obtain rfl : c = d := by simpa using hd
      exact (hkey c List.mem_cons_self).1
    rw [parseConfigLine_eq hline hlen hbefore hnoeq hhead]
    simp

/-- Without any blanks. -/
theorem parseConfigLine_key {key value : Text} (hkey : IsKey key)
    (hlen : (key ++ '=' :: value).length < npos) :
    parseConfigLine (key ++ '=' :: value) =
      if key.head? = some '#' then none else some (key, lineValue value) := by
  have hline : key ++ '=' :: value = [] ++ (key ++ '=' :: value) := rfl
  have hnoeq : '=' ∉ key := fun h => (hkey _ h).2.1 rfl
  apply parseConfigLine_eq hline hlen (by simp) hnoeq
  exact fun c hc => (hkey c (List.mem_of_mem_head? hc)).1

theorem lineValue_eq_iff (rawValue : Text) :
    lineValue rawValue = dequote (strip configBlanks rawValue) ↔
      ¬ (strip configBlanks rawValue = [quote] ∧ 2 ≤ rawValue.length) := by
  rw [lineValue]
  split
  · rename_i h
    rw [h.1, dequote_singleton]
    simp [h.2]
  · rename_i h
    exact ⟨fun _ => h, fun _ => rfl⟩

/-- Blanks do not matter where the key has none behind it and the value is not a single quote
that has one next to it. -/
theorem insensitive_iff (b : Blanks) (key value : Text) (hkey : IsKey key)
    (hlen : (b.line key value).length < npos) :
    Insensitive b key value ↔ key.head? = some '#' ∨ ((b.afterKey = [] ∨ key = []) ∧
      ¬ (strip configBlanks value = [quote] ∧ 2 ≤ (b.around value).length)) := by
  have hlen' : (key ++ '=' :: value).length < npos := by
    have hle := b.length_around value
    simp only [Blanks.line, List.length_append, List.length_cons] at hlen ⊢
    omega
  rw [Insensitive, parseConfigLine_line hkey hlen, parseConfigLine_key hkey hlen', assigned]
  by_cases hhash : key.head? = some '#'
  · simp [hhash]
  · have hvalue := lineValue_eq_iff (b.around value)
    rw [b.strip_around] at hvalue
    have hkeys : (key ++ (if key = [] then [] else b.afterKey) = key) ↔
        b.afterKey = [] ∨ key = [] := by
      by_cases hnil : key = [] <;> simp [hnil]
    simp only [hhash, if_false, false_or, Option.some.injEq, Prod.mk.injEq, hkeys, hvalue]
    constructor
    · exact fun h => h.2
    · intro h
      refine ⟨⟨h.1, ?_⟩, h⟩
      have hless : ¬ (strip configBlanks value = [quote] ∧ 2 ≤ value.length) := fun h2 =>
        h.2 ⟨h2.1, le_trans h2.2 (b.length_around value)⟩
      rw [hvalue.mpr h.2, (lineValue_eq_iff value).mpr hless]

/-- Two settings as one may write them, with blanks around the equals sign. -/
theorem insensitive_iff_root :
    (Insensitive ⟨[' '], [], "\t ".toList, ['\r'], forall_mem_of_all (by decide)⟩
        "GCCXML_ROOT".toList (quote :: "/usr share".toList ++ [quote]) ↔ True) ∧
      (Insensitive ⟨[' '], [' '], [' '], ['\r'], forall_mem_of_all (by decide)⟩
        "GCCXML_ROOT".toList "/usr".toList ↔ False) :=
  ⟨(insensitive_iff _ _ _ (forall_mem_of_all (by decide)) (by decide)).trans (by decide),
    (insensitive_iff _ _ _ (forall_mem_of_all (by decide)) (by decide)).trans (by decide)⟩

/-- The blank between the key and the equals sign makes it a key of no setting, and the blank
behind a quote takes the quote away. -/
theorem insensitive_failures :
    ¬ Insensitive ⟨[], [' '], [' '], [], forall_mem_of_all (by decide)⟩
        "GCCXML_ROOT".toList "/usr".toList ∧
      ¬ Insensitive ⟨[], [], [], [' '], forall_mem_of_all (by decide)⟩
        "GCCXML_ROOT".toList [quote] := by
  decide

end Insensitive

end CableSwig.GxFront.ConfigLines
