import CableSwig.GccXml.TypeDump
import CableSwig.Lib.Fuel
import CableSwig.Lib.StringReplace
import CableSwig.Parsers.TypeReader
import Mathlib.Data.List.Chain

/-!
# Names of templates for the wrapper generator

`TemplateName` with the replacements that it is made of, and the class names that the compiler
spells.
-/
namespace CableSwig.Executables.TemplateName

open CableSwig.CxxTypes
open CableSwig.GccXml.TypeDump
open CableSwig.Lib.Fuel
open CableSwig.Lib.StdString
open CableSwig.Lib.StringReplace
open CableSwig.Parsers.TypeReader

section Source

/-- The loop of `ReplaceString` and `ReduceCommaSpace`. The search goes on `next` characters
behind the start of what has been put in. -/
def replaceLoop (replace new : Text) (next : Nat) : Nat → Text → Option Nat → Option Text
  | _, source, none => some source
  | 0, _, some _ => none
  | fuel + 1, source, some start =>
    let rest := source.drop (start + replace.length)
    let source := source.take start ++ new ++ rest
    replaceLoop replace new next fuel source (findText replace source (start + next))

def reduceCommaSpace (fuel : Nat) (source : Text) : Option Text :=
  replaceLoop [',', ' '] [','] 0 fuel source (findText [',', ' '] source 0)

def replaceString (fuel : Nat) (source replace new : Text) : Option Text :=
  replaceLoop replace new new.length fuel source (findText replace source 0)

def templateName (fuel : Nat) (nativeStringName s : Text) : Option Text := do
  let name := if nativeStringName.length > 0 ∧ s = nativeStringName then "std::string".toList else s
  let name ← replaceString fuel name ['<'] ['<', '(']
  let name ← replaceString fuel name ['>'] [')', '>']
  let name ← replaceString fuel name ['>', ' ', ')'] ['>', ')']
  let name ← reduceCommaSpace fuel name
  let name ← replaceString fuel name "short unsigned int".toList "unsigned short".toList
  replaceString fuel name "long unsigned int".toList "unsigned long".toList

end Source

section Names

/-- The characters between names. -/
def delimiters : Text := "<>(),:".toList

/-- The characters that no plain name has. -/
def special : Text := ' ' :: delimiters

/-- A name without template arguments or scope. -/
structure Identifier where
  text : Text
  ne_nil : text ≠ []
  plain : ∀ c ∈ text, c ∉ special

inductive ClassName
  | plain (name : Identifier)
  | fundamental (id : FundamentalId)
  | template (name : Identifier) (args : List ClassName)
  | qualified (scope name : ClassName)

/-- The spelling of a list of arguments. -/
def argumentList (comma : Text) : List Text → Text
  | [] => []
  | [a] => a
  | a :: b :: l => a ++ comma ++ argumentList comma (b :: l)

/-- The compiler makes the name of a class itself, with a comma between the arguments. It prints
a type among the arguments as in its messages, where a blank stands behind the comma. -/
def separator : Bool → Text
  | false => [',']
  | true => [',', ' ']

mutual

/-- The spelling of a class or of a type among arguments, with a blank between two closing
brackets. -/
def ClassName.spelled (nested : Bool) : ClassName → Text
  | .plain name => name.text
  | .fundamental id => (fundamentalName id).toList
  | .template name args =>
    let list := argumentList (separator nested) (spelledArguments args)
    name.text ++ ['<'] ++ list ++ if list.getLast? = some '>' then [' ', '>'] else ['>']
  | .qualified scope name => scope.spelled nested ++ [':', ':'] ++ name.spelled nested

def spelledArguments : List ClassName → List Text
  | [] => []
  | n :: ns => n.spelled true :: spelledArguments ns

end

/-- The spelling of the compiler. -/
def ClassName.spelling (n : ClassName) : Text := n.spelled false

example : (ClassName.template ⟨"pair".toList, by decide, forall_mem_of_all (by decide)⟩
    [.fundamental .int, .template ⟨"B".toList, by decide, forall_mem_of_all (by decide)⟩
      [.fundamental .char, .fundamental .int]]).spelling = "pair<int,B<char, int> >".toList := by
  decide

/-- The names of the integer types that are changed. -/
def swigName : FundamentalId → Text
  | .unsignedShortInt => "unsigned short".toList
  | .unsignedLongInt => "unsigned long".toList
  | id => (fundamentalName id).toList

mutual

/-- The spelling that is intended. -/
def ClassName.translation : ClassName → Text
  | .plain name => name.text
  | .fundamental id => swigName id
  | .template name args =>
    name.text ++ ['<', '('] ++ argumentList [','] (translations args) ++ [')', '>']
  | .qualified scope name => scope.translation ++ [':', ':'] ++ name.translation

def translations : List ClassName → List Text
  | [] => []
  | n :: ns => n.translation :: translations ns

end

mutual

/-- The fundamental types in a name. -/
def ClassName.fundamentals : ClassName → List FundamentalId
  | .plain _ => []
  | .fundamental id => [id]
  | .template _ args => fundamentalsOf args
  | .qualified scope name => scope.fundamentals ++ name.fundamentals

def fundamentalsOf : List ClassName → List FundamentalId
  | [] => []
  | n :: ns => n.fundamentals ++ fundamentalsOf ns

end

/-- What the translation of a name is to be: the intended one, in which each fundamental type is
still the same, and of no other name. -/
structure Intended (n : ClassName) : Prop where
  translated : Enough fun fuel => templateName fuel [] n.spelling = some n.translation
  same : ∀ id ∈ n.fundamentals, fundamentalTypeId (swigName id) = some id
  distinct : ∀ m : ClassName,
    (Enough fun fuel => templateName fuel [] m.spelling = some n.translation) →
      m.spelling = n.spelling

end Names

section Loops

variable {replace new : Text} {next : Nat}

theorem replaceLoop_none (fuel : Nat) (source : Text) :
    replaceLoop replace new next fuel source none = some source := by
  cases fuel <;> rfl

/-- The loop does what goes on from one occurrence to the next in the same way. -/
theorem replaceLoop_spec (result : Text → Text) (hnext : next ≤ new.length)
    (hshort : new.length - next < replace.length)
    (hnone : ∀ s, occurrence replace s = none → result s = s)
    (hsome : ∀ a r, (∀ u, u <:+ a → u ≠ [] → ¬ replace <+: u ++ (replace ++ r)) →
      result (a ++ (replace ++ r)) = a ++ new.take next ++ result (new.drop next ++ r)) (n : Nat) :
    ∀ done rest : Text, rest.length ≤ n → Enough fun fuel =>
      replaceLoop replace new next fuel (done ++ rest)
        (findText replace (done ++ rest) done.length) = some (done ++ result rest) := by
  have hstop : ∀ done rest : Text, occurrence replace rest = none → Enough fun fuel =>
      replaceLoop replace new next fuel (done ++ rest)
        (findText replace (done ++ rest) done.length) = some (done ++ result rest) := by
    intro done rest hfind
    rw [findText_append, hfind, Option.map_none, hnone rest hfind]
    exact ⟨0, fun fuel _ => replaceLoop_none fuel (done ++ rest)⟩
  induction n with
  | zero =>
    intro done rest hlen
    obtain rfl := List.length_eq_zero_iff.mp (Nat.le_zero.mp hlen)
    refine hstop done [] (if_neg ?_)
    rintro rfl
    exact Nat.not_lt_zero _ hshort
  | succ n ih =>
    intro done rest hlen
    cases hfind : occurrence replace rest with
    | none => exact hstop done rest hfind
    | some i =>
      obtain ⟨a, r, rfl, rfl, hnot⟩ := occurrence_eq_some hfind
      simp only [List.length_append] at hlen
      have hrest := ih (done ++ a ++ new.take next) (new.drop next ++ r) <| by
        rw [List.length_append, List.length_drop]
        omega
      have htake : (done ++ (a ++ (replace ++ r))).take (done.length + a.length) = done ++ a := by
        rw [← List.append_assoc, ← List.length_append, List.take_left]
      have hdrop : (done ++ (a ++ (replace ++ r))).drop
          (done.length + a.length + replace.length) = r := by
        rw [← List.append_assoc, ← List.append_assoc, ← List.length_append, ← List.length_append,
          List.drop_left]
      have hsource : done ++ a ++ new ++ r =
          done ++ a ++ new.take next ++ (new.drop next ++ r) := by
        rw [List.append_assoc _ _ (_ ++ _), ← List.append_assoc (new.take next),
          List.take_append_drop, List.append_assoc _ new r]
      have hpos : done.length + a.length + next = (done ++ a ++ new.take next).length := by
        rw [List.length_append, List.length_append, List.length_take, Nat.min_eq_left hnext]
      refine hrest.step fun fuel hfuel => ?_
      rw [findText_append, hfind, Option.map_some, replaceLoop, htake, hdrop, hsource, hpos, hfuel,
        hsome a r hnot]
      simp only [List.append_assoc]

theorem replaceString_eq (replace new s : Text) (hreplace : replace ≠ []) :
    Enough fun fuel => replaceString fuel s replace new = some (replaceAll replace new s) := by
  have hpos := List.length_pos_of_ne_nil hreplace
  refine replaceLoop_spec (replaceAll replace new) le_rfl (by omega) (fun s hs => ?_)
    (fun a r hnot => ?_) s.length [] s le_rfl
  · exact replaceAll_of_not fun u hu _ => occurrence_eq_none hs u hu
  · rw [replaceAll_append_of_not hnot, replaceAll_word hreplace, List.take_length,
      List.drop_length, List.append_assoc]
    rfl

/-- The text without the blanks behind commas. -/
def reduceCommas : Bool → Text → Text
  | _, [] => []
  | after, c :: s =>
    if after = true ∧ c = ' ' then reduceCommas true s else c :: reduceCommas (c = ',') s

theorem reduceCommas_true {s : Text} (h : s.head? ≠ some ' ') :
    reduceCommas true s = reduceCommas false s := by
  cases s with
  | nil => rfl
  | cons c s =>
    have hc : c ≠ ' ' := fun hc => h (congrArg some hc)
    rw [reduceCommas, reduceCommas, if_neg fun h => hc h.2, if_neg (by simp)]

theorem reduceCommas_append_of_not {s t : Text}
    (h : ∀ u, u <:+ s → u ≠ [] → ¬ [',', ' '] <+: u ++ t) :
    reduceCommas false (s ++ t) = s ++ reduceCommas false t := by
  induction s with
  | nil => rfl
  | cons c s ih =>
    have hthere := ih fun u hu hne => h u (hu.trans (List.suffix_cons c s)) hne
    rw [List.cons_append, reduceCommas, if_neg (by simp), List.cons_append, ← hthere]
    by_cases hc : c = ','
    · have hhead : (s ++ t).head? ≠ some ' ' := by
        intro hhead
        obtain ⟨rest, hrest⟩ := List.head?_eq_some_iff.mp hhead
        refine h (c :: s) List.suffix_rfl (List.cons_ne_nil c s) ?_
        rw [List.cons_append, hrest, hc]
        exact ⟨rest, rfl⟩
      rw [decide_eq_true hc, reduceCommas_true hhead]
    · rw [decide_eq_false hc]

theorem reduceCommaSpace_eq (s : Text) :
    Enough fun fuel => reduceCommaSpace fuel s = some (reduceCommas false s) := by
  refine replaceLoop_spec (reduceCommas false) (Nat.zero_le _) (by decide)
    (fun s hs => ?_) (fun a r hnot => ?_) s.length [] s le_rfl
  · have hnil := reduceCommas_append_of_not (s := s) (t := []) fun u hu _ => by
      rw [List.append_nil]
      exact occurrence_eq_none hs u hu
    rwa [List.append_nil, reduceCommas, List.append_nil] at hnil
  · rw [reduceCommas_append_of_not hnot]
    have hcomma : reduceCommas false ([',', ' '] ++ r) = reduceCommas false (',' :: r) := rfl
    rw [hcomma]
    simp

/-- What the replacements make of a name. -/
def translatedText (nativeStringName s : Text) : Text :=
  let name := if nativeStringName.length > 0 ∧ s = nativeStringName then "std::string".toList else s
  let name := replaceAll ['<'] ['<', '('] name
  let name := replaceAll ['>'] [')', '>'] name
  let name := replaceAll ['>', ' ', ')'] ['>', ')'] name
  let name := reduceCommas false name
  let name := replaceAll "short unsigned int".toList "unsigned short".toList name
  replaceAll "long unsigned int".toList "unsigned long".toList name

/-- The function comes to an end for every name. -/
theorem templateName_total (nativeStringName s : Text) : Enough fun fuel =>
    templateName fuel nativeStringName s = some (translatedText nativeStringName s) := by
  let name₀ :=
    if nativeStringName.length > 0 ∧ s = nativeStringName then "std::string".toList else s
  let name₁ := replaceAll ['<'] ['<', '('] name₀
  let name₂ := replaceAll ['>'] [')', '>'] name₁
  let name₃ := replaceAll ['>', ' ', ')'] ['>', ')'] name₂
  let name₄ := reduceCommas false name₃
  let name₅ := replaceAll "short unsigned int".toList "unsigned short".toList name₄
  have h₁ := replaceString_eq ['<'] ['<', '('] name₀ (by decide)
  have h₂ := replaceString_eq ['>'] [')', '>'] name₁ (by decide)
  have h₃ := replaceString_eq ['>', ' ', ')'] ['>', ')'] name₂ (by decide)
  have h₄ := reduceCommaSpace_eq name₃
  have h₅ := replaceString_eq "short unsigned int".toList "unsigned short".toList name₄ (by decide)
  have h₆ := replaceString_eq "long unsigned int".toList "unsigned long".toList name₅ (by decide)
  refine (((((h₁.and h₂).and h₃).and h₄).and h₅).and h₆).mono ?_
  intro fuel hall
  obtain ⟨⟨⟨⟨⟨h₁, h₂⟩, h₃⟩, h₄⟩, h₅⟩, h₆⟩ := hall
  rw [templateName]
  simp only [Option.bind_eq_bind]
  rw [h₁, Option.bind_some, h₂, Option.bind_some, h₃, Option.bind_some, h₄, Option.bind_some, h₅,
    Option.bind_some, h₆]
  rfl

end Loops

section Tokens

inductive Token
  | word (name : Identifier)
  | fundamental (id : FundamentalId)
  | scope
  | opening
  | closing
  | comma (nested : Bool)

def Token.IsName : Token → Prop
  | .word _ | .fundamental _ => True
  | _ => False

def Token.isClosing : Token → Bool
  | .closing => true
  | _ => false

mutual

def ClassName.tokens (nested : Bool) : ClassName → List Token
  | .plain name => [.word name]
  | .fundamental id => [.fundamental id]
  | .template name args => .word name :: .opening :: (argumentTokens nested args ++ [.closing])
  | .qualified scope name => scope.tokens nested ++ .scope :: name.tokens nested

def argumentTokens (nested : Bool) : List ClassName → List Token
  | [] => []
  | [n] => n.tokens true
  | n :: m :: ns => n.tokens true ++ .comma nested :: argumentTokens nested (m :: ns)

end

/-- How tokens are spelled, and what stands between two closing brackets. -/
structure Style where
  fundamental : FundamentalId → Text
  opening : Text
  closing : Text
  comma : Bool → Text
  between : Text

def Style.token (st : Style) : Token → Text
  | .word name => name.text
  | .fundamental id => st.fundamental id
  | .scope => [':', ':']
  | .opening => st.opening
  | .closing => st.closing
  | .comma nested => st.comma nested

/-- The spelling of tokens, where the flag says that a closing bracket stands before them. -/
def Style.spell (st : Style) : Bool → List Token → Text
  | _, [] => []
  | after, t :: l =>
    (if after ∧ t.isClosing then st.between else []) ++ (st.token t ++ st.spell t.isClosing l)

/-- Names are separated by other tokens. -/
def Separated (l : List Token) : Prop := l.IsChain fun a b => ¬ (a.IsName ∧ b.IsName)

def endsClosing (l : List Token) (after : Bool) : Bool :=
  (l.getLast?.map Token.isClosing).getD after

theorem spell_append (st : Style) (l l' : List Token) (after : Bool) :
    st.spell after (l ++ l') = st.spell after l ++ st.spell (endsClosing l after) l' := by
  induction l generalizing after with
  | nil => rfl
  | cons t l ih =>
    have hends : endsClosing (t :: l) after = endsClosing l t.isClosing := by
      cases l <;> rfl
    rw [List.cons_append, Style.spell, Style.spell, ih, hends]
    simp only [List.append_assoc]

/-- The spelling of the compiler. -/
def gccStyle : Style where
  fundamental id := (fundamentalName id).toList
  opening := ['<']
  closing := ['>']
  comma := separator
  between := [' ']

/-- The spelling after each replacement. -/
def openedStyle : Style := { gccStyle with opening := ['<', '('] }

def closedStyle : Style := { openedStyle with closing := [')', '>'] }

def joinedStyle : Style := { closedStyle with between := [] }

/-- The spelling without blanks, with these names of the fundamental types. -/
def namedStyle (fundamental : FundamentalId → Text) : Style :=
  { joinedStyle with comma := fun _ => [','], fundamental }

/-- The names that the last two replacements leave. -/
def shortName : FundamentalId → Text
  | .unsignedShortInt => "unsigned short".toList
  | id => (fundamentalName id).toList

def longName : FundamentalId → Text
  | .unsignedLongInt => "unsigned long".toList
  | .unsignedLongLongInt => "long unsigned long".toList
  | id => shortName id

theorem endsClosing_append (l : List Token) (t : Token) (after : Bool) :
    endsClosing (l ++ [t]) after = t.isClosing := by
  rw [endsClosing, List.getLast?_concat]
  rfl

theorem not_mem_special {name : Identifier} {c : Char} (hc : c ∈ special) : c ∉ name.text :=
  fun h => name.plain c h hc

/-- The names of fundamental types have letters and blanks only. -/
theorem fundamental_plain (id : FundamentalId) : (fundamentalName id).toList ≠ [] ∧
    ∀ c ∈ (fundamentalName id).toList, c ∉ delimiters := by
  cases id <;> exact ⟨List.cons_ne_nil _ _, forall_mem_of_all (by decide)⟩

theorem not_mem_fundamental {id : FundamentalId} {c : Char} (hc : c ∈ delimiters) :
    c ∉ (fundamentalName id).toList :=
  fun h => (fundamental_plain id).2 c h hc

/-- The blank between two closing brackets is where the spelling so far ends with one. -/
theorem getLast_spell (l : List Token) :
    (gccStyle.spell false l).getLast? = some '>' ↔ endsClosing l false = true := by
  induction l using List.reverseRecOn with
  | nil => simp [Style.spell, endsClosing]
  | append_singleton l t ih =>
    have hne : gccStyle.token t ≠ [] := by
      cases t with
      | word name => exact name.ne_nil
      | fundamental id => exact (fundamental_plain id).1
      | scope | opening | closing => exact List.cons_ne_nil _ _
      | comma nested => cases nested <;> exact List.cons_ne_nil _ _
    have hlast : (gccStyle.spell false (l ++ [t])).getLast? = (gccStyle.token t).getLast? := by
      have hone : gccStyle.spell (endsClosing l false) [t] =
          (if endsClosing l false ∧ t.isClosing then gccStyle.between else []) ++
            gccStyle.token t := by
        rw [Style.spell, Style.spell, List.append_nil]
      rw [spell_append, hone, ← List.append_assoc, List.getLast?_append_of_ne_nil _ hne]
    rw [hlast, endsClosing_append]
    cases t with
    | word name =>
      refine iff_of_false (fun h => ?_) Bool.false_ne_true
      exact not_mem_special (by decide) (List.mem_of_getLast? h)
    | fundamental id =>
      refine iff_of_false (fun h => ?_) Bool.false_ne_true
      exact not_mem_fundamental (by decide) (List.mem_of_getLast? h)
    | scope | opening | closing => decide
    | comma nested => cases nested <;> decide

mutual

theorem spelled_eq (nested : Bool) : ∀ n : ClassName,
    n.spelled nested = gccStyle.spell false (n.tokens nested)
  | .plain name => by
    simp [ClassName.spelled, ClassName.tokens, Style.spell, Style.token]
  | .fundamental id => by
    simp [ClassName.spelled, ClassName.tokens, Style.spell, Style.token, gccStyle]
  | .template name args => by
    have hlast := getLast_spell (argumentTokens nested args)
    simp only [ClassName.spelled, ClassName.tokens, argumentList_spelled, Style.spell,
      spell_append, hlast]
    cases hends : endsClosing (argumentTokens nested args) false <;>
      simp [hends, Style.token, Token.isClosing, gccStyle]
  | .qualified scope name => by
    simp [ClassName.spelled, ClassName.tokens, spelled_eq nested scope, spelled_eq nested name,
      spell_append, Style.spell, Style.token, Token.isClosing]

theorem argumentList_spelled (nested : Bool) : ∀ ns : List ClassName,
    argumentList (separator nested) (spelledArguments ns) =
      gccStyle.spell false (argumentTokens nested ns)
  | [] => rfl
  | [n] => spelled_eq true n
  | n :: m :: ns => by
    have hrest := argumentList_spelled nested (m :: ns)
    rw [spelledArguments] at hrest
    rw [spelledArguments, spelledArguments, argumentList, hrest, argumentTokens, spell_append,
      spelled_eq true n, Style.spell]
    simp [Style.token, Token.isClosing, gccStyle]

end

mutual

theorem translation_eq (nested : Bool) : ∀ n : ClassName,
    n.translation = (namedStyle swigName).spell false (n.tokens nested)
  | .plain name => by
    simp [ClassName.translation, ClassName.tokens, Style.spell, Style.token]
  | .fundamental id => by
    simp [ClassName.translation, ClassName.tokens, Style.spell, Style.token, namedStyle]
  | .template name args => by
    simp only [ClassName.translation, ClassName.tokens, argumentList_translations nested,
      Style.spell, spell_append]
    simp [Style.token, Token.isClosing, namedStyle, joinedStyle, closedStyle,
      openedStyle]
  | .qualified scope name => by
    simp [ClassName.translation, ClassName.tokens, translation_eq nested scope,
      translation_eq nested name, spell_append, Style.spell, Style.token, Token.isClosing]

theorem argumentList_translations (nested : Bool) : ∀ ns : List ClassName,
    argumentList [','] (translations ns) =
      (namedStyle swigName).spell false (argumentTokens nested ns)
  | [] => rfl
  | [n] => translation_eq true n
  | n :: m :: ns => by
    have hrest := argumentList_translations nested (m :: ns)
    rw [translations] at hrest
    rw [translations, translations, argumentList, hrest, argumentTokens, spell_append,
      translation_eq true n, Style.spell]
    simp [Style.token, Token.isClosing, namedStyle]

end

mutual

theorem separated_tokens (nested : Bool) : ∀ n : ClassName, Separated (n.tokens nested)
  | .plain _ | .fundamental _ => List.isChain_singleton _
  | .template name args => by
    have hargs := separated_argumentTokens nested args
    have hclosing : Separated (argumentTokens nested args ++ [.closing]) :=
      List.isChain_append.mpr ⟨hargs, List.isChain_singleton _, by simp [Token.IsName]⟩
    rw [ClassName.tokens]
    refine List.isChain_cons.mpr ⟨by simp [Token.IsName], ?_⟩
    exact List.isChain_cons.mpr ⟨by simp [Token.IsName], hclosing⟩
  | .qualified scope name => by
    rw [ClassName.tokens]
    refine List.isChain_append.mpr ⟨separated_tokens nested scope, ?_, by simp [Token.IsName]⟩
    exact List.isChain_cons.mpr ⟨by simp [Token.IsName], separated_tokens nested name⟩

theorem separated_argumentTokens (nested : Bool) : ∀ ns : List ClassName,
    Separated (argumentTokens nested ns)
  | [] => List.isChain_nil
  | [n] => separated_tokens true n
  | n :: m :: ns => by
    have hrest := separated_argumentTokens nested (m :: ns)
    rw [argumentTokens]
    refine List.isChain_append.mpr ⟨separated_tokens true n, ?_, by simp [Token.IsName]⟩
    exact List.isChain_cons.mpr ⟨by simp [Token.IsName], hrest⟩

end

/-- The commas say whether they stand among the arguments of an argument. -/
def Leveled : Nat → List Token → Prop
  | _, [] => True
  | depth, .opening :: l => Leveled (depth + 1) l
  | depth, .closing :: l => Leveled (depth - 1) l
  | depth, .comma nested :: l => nested = decide (1 < depth) ∧ Leveled depth l
  | depth, .word _ :: l | depth, .fundamental _ :: l | depth, .scope :: l => Leveled depth l

mutual

theorem leveled_tokens (rest : List Token) : ∀ (n : ClassName) (depth : Nat),
    Leveled depth rest → Leveled depth (n.tokens (decide (0 < depth)) ++ rest)
  | .plain _, _, h | .fundamental _, _, h => h
  | .template name args, depth, h => by
    have hargs := leveled_argumentTokens (.closing :: rest) args depth h
    rw [ClassName.tokens, List.cons_append, List.cons_append, List.append_assoc]
    exact hargs
  | .qualified scope name, depth, h => by
    have hname : Leveled depth (.scope :: (name.tokens (decide (0 < depth)) ++ rest)) :=
      leveled_tokens rest name depth h
    rw [ClassName.tokens, List.append_assoc]
    exact leveled_tokens _ scope depth hname

theorem leveled_argumentTokens (rest : List Token) : ∀ (ns : List ClassName) (depth : Nat),
    Leveled (depth + 1) rest →
      Leveled (depth + 1) (argumentTokens (decide (0 < depth)) ns ++ rest)
  | [], _, h => h
  | [n], depth, h => by
    have harg := leveled_tokens rest n (depth + 1) h
    rwa [decide_eq_true (Nat.succ_pos depth)] at harg
  | n :: m :: ns, depth, h => by
    have hrest := leveled_argumentTokens rest (m :: ns) depth h
    have hcomma : Leveled (depth + 1) (.comma (decide (0 < depth)) ::
        (argumentTokens (decide (0 < depth)) (m :: ns) ++ rest)) :=
      ⟨decide_eq_decide.mpr (by omega), hrest⟩
    have harg := leveled_tokens _ n (depth + 1) hcomma
    rw [decide_eq_true (Nat.succ_pos depth)] at harg
    rw [argumentTokens, List.append_assoc]
    exact harg

end

end Tokens

section Steps

variable {word new : Text} {st st' : Style}

/-- A replacement in each token is one in the spelling, where no occurrence reaches over the end
of a token. -/
theorem replaceAll_spell (hword : word ≠ [])
    (htoken : ∀ t, replaceAll word new (st.token t) = st'.token t)
    (hbetween : replaceAll word new st.between = st'.between)
    (hseparate : ∀ t l, Separated (t :: l) →
      Separate word (st.token t) (st.spell t.isClosing l))
    (hseparateBetween : ∀ s, Separate word st.between s) :
    ∀ (l : List Token) (after : Bool), Separated l →
      replaceAll word new (st.spell after l) = st'.spell after l
  | [], _, _ => rfl
  | t :: l, after, hl => by
    have hrest := replaceAll_spell hword htoken hbetween hseparate hseparateBetween l t.isClosing
      (List.isChain_cons.mp hl).2
    rw [Style.spell, Style.spell]
    by_cases hclosing : after = true ∧ t.isClosing = true
    · rw [if_pos hclosing, if_pos hclosing, replaceAll_append hword _ (hseparateBetween _),
        replaceAll_append hword _ (hseparate t l hl), hbetween, htoken, hrest]
    · rw [if_neg hclosing, if_neg hclosing, List.nil_append, List.nil_append,
        replaceAll_append hword _ (hseparate t l hl), htoken, hrest]

/-- A word with a character that a text does not have does not stand in it. -/
theorem replaceAll_of_not_mem {c : Char} {s : Text} (hc : c ∈ word) (hs : c ∉ s) :
    replaceAll word new s = s :=
  replaceAll_of_not fun _ hu _ hbegins => hs (hu.mem (hbegins.mem hc))

theorem replace_opening (l : List Token) (after : Bool) (hl : Separated l) :
    replaceAll ['<'] ['<', '('] (gccStyle.spell after l) = openedStyle.spell after l := by
  refine replaceAll_spell (List.cons_ne_nil _ _) (fun t => ?_) (by decide)
    (fun t l _ => separate_singleton _) (fun s => separate_singleton _) l after hl
  cases t with
  | word name => exact replaceAll_of_not_mem List.mem_cons_self (not_mem_special (by decide))
  | fundamental id =>
    exact replaceAll_of_not_mem List.mem_cons_self (not_mem_fundamental (by decide))
  | scope | opening | closing => decide
  | comma nested => cases nested <;> decide

theorem replace_closing (l : List Token) (after : Bool) (hl : Separated l) :
    replaceAll ['>'] [')', '>'] (openedStyle.spell after l) = closedStyle.spell after l := by
  refine replaceAll_spell (List.cons_ne_nil _ _) (fun t => ?_) (by decide)
    (fun t l _ => separate_singleton _) (fun s => separate_singleton _) l after hl
  cases t with
  | word name => exact replaceAll_of_not_mem List.mem_cons_self (not_mem_special (by decide))
  | fundamental id =>
    exact replaceAll_of_not_mem List.mem_cons_self (not_mem_fundamental (by decide))
  | scope | opening | closing => decide
  | comma nested => cases nested <;> decide

/-- The first character of a token that is not a closing bracket. -/
theorem closedStyle_token_head {t : Token} (ht : t.isClosing = false) :
    ∃ c s, closedStyle.token t = c :: s ∧ c ≠ ' ' := by
  cases t with
  | word name =>
    obtain ⟨c, s, hs⟩ := List.exists_cons_of_ne_nil name.ne_nil
    refine ⟨c, s, hs, ?_⟩
    rintro rfl
    exact not_mem_special (by decide) (hs ▸ List.mem_cons_self : ' ' ∈ name.text)
  | fundamental id => cases id <;> exact ⟨_, _, rfl, by decide⟩
  | closing => cases ht
  | scope | opening => exact ⟨_, _, rfl, by decide⟩
  | comma nested => cases nested <;> exact ⟨_, _, rfl, by decide⟩

theorem closedStyle_token_not_mem {t : Token} (ht : t.isClosing = false) :
    '>' ∉ closedStyle.token t := by
  cases t with
  | word name => exact not_mem_special (by decide)
  | fundamental id => exact not_mem_fundamental (by decide)
  | closing => cases ht
  | scope | opening => decide
  | comma nested => cases nested <;> decide

theorem joinedStyle_token (t : Token) : joinedStyle.token t = closedStyle.token t := by
  cases t <;> rfl

/-- The third replacement, behind a closing bracket too. -/
theorem join_closing (l : List Token) :
    replaceAll ['>', ' ', ')'] ['>', ')'] (closedStyle.spell false l) =
      joinedStyle.spell false l ∧
    replaceAll ['>', ' ', ')'] ['>', ')'] ('>' :: closedStyle.spell true l) =
      '>' :: joinedStyle.spell true l := by
  induction l with
  | nil => exact ⟨rfl, rfl⟩
  | cons t l ih =>
    cases ht : t.isClosing with
    | true =>
      obtain rfl : t = .closing := by cases t <;> first | rfl | cases ht
      constructor
      · have hspell : closedStyle.spell false (.closing :: l) =
            ')' :: '>' :: closedStyle.spell true l := rfl
        rw [hspell, replaceAll_cons_of_not (by simp), ih.2]
        rfl
      · have hspell : '>' :: closedStyle.spell true (.closing :: l) =
            ['>', ' ', ')'] ++ '>' :: closedStyle.spell true l := rfl
        rw [hspell, replaceAll_word (by simp), ih.2]
        rfl
    | false =>
      have hnone : ∀ after : Bool, closedStyle.spell after (t :: l) =
          closedStyle.token t ++ closedStyle.spell false l := by
        intro after
        rw [Style.spell, ht, if_neg (by simp), List.nil_append]
      have hnone' : ∀ after : Bool, joinedStyle.spell after (t :: l) =
          closedStyle.token t ++ joinedStyle.spell false l := by
        intro after
        rw [Style.spell, ht, if_neg (by simp), List.nil_append, joinedStyle_token]
      have htoken : replaceAll ['>', ' ', ')'] ['>', ')'] (closedStyle.spell false (t :: l)) =
          joinedStyle.spell false (t :: l) := by
        rw [hnone, hnone', replaceAll_append_of_not, ih.1]
        intro u hu hne hbegins
        obtain ⟨x, u, rfl⟩ := List.exists_cons_of_ne_nil hne
        rw [List.cons_append, List.cons_prefix_cons] at hbegins
        exact closedStyle_token_not_mem ht (hu.mem (hbegins.1 ▸ List.mem_cons_self))
      refine ⟨htoken, ?_⟩
      obtain ⟨c, s, hcs, hc⟩ := closedStyle_token_head ht
      have hnot : ¬ ['>', ' ', ')'] <+: '>' :: closedStyle.spell true (t :: l) := by
        rw [hnone, hcs, List.cons_append, List.cons_prefix_cons, List.cons_prefix_cons]
        exact fun h => hc h.2.1.symm
      rw [replaceAll_cons_of_not hnot, hnone, hnone', ← hnone false, htoken, hnone']

theorem spell_joined (hbetween : st.between = []) (after : Bool) (t : Token) (l : List Token) :
    st.spell after (t :: l) = st.token t ++ st.spell t.isClosing l := by
  rw [Style.spell, hbetween, ite_self, List.nil_append]

theorem joinedStyle_head (l : List Token) (after : Bool) :
    (joinedStyle.spell after l).head? ≠ some ' ' := by
  cases l with
  | nil => simp [Style.spell]
  | cons t l =>
    rw [spell_joined rfl]
    cases ht : t.isClosing with
    | true =>
      obtain rfl : t = .closing := by cases t <;> first | rfl | cases ht
      simp [Style.token, joinedStyle, closedStyle]
    | false =>
      obtain ⟨c, s, hcs, hc⟩ := closedStyle_token_head ht
      rw [joinedStyle_token, hcs]
      simpa using hc

theorem reduce_commas (l : List Token) (after : Bool) :
    reduceCommas false (joinedStyle.spell after l) =
      (namedStyle gccStyle.fundamental).spell after l := by
  induction l generalizing after with
  | nil => rfl
  | cons t l ih =>
    rw [spell_joined rfl, spell_joined rfl, ← ih]
    have hnone : ',' ∉ joinedStyle.token t → reduceCommas false
        (joinedStyle.token t ++ joinedStyle.spell t.isClosing l) =
          joinedStyle.token t ++ reduceCommas false (joinedStyle.spell t.isClosing l) := by
      intro hnot
      refine reduceCommas_append_of_not fun u hu hne hbegins => ?_
      obtain ⟨x, u, rfl⟩ := List.exists_cons_of_ne_nil hne
      rw [List.cons_append, List.cons_prefix_cons] at hbegins
      exact hnot (hu.mem (hbegins.1 ▸ List.mem_cons_self))
    cases t with
    | word name => exact hnone (not_mem_special (by decide))
    | fundamental id => exact hnone (not_mem_fundamental (by decide))
    | scope | opening | closing => exact hnone (by decide)
    | comma nested =>
      have hhead := reduceCommas_true (joinedStyle_head l false)
      cases nested <;> exact congrArg (',' :: ·) hhead

/-- A name ends where its spelling does. -/
theorem spell_after_name {fundamental : FundamentalId → Text} {t : Token} {l : List Token}
    (hl : Separated (t :: l)) (ht : t.IsName) (after : Bool) :
    (namedStyle fundamental).spell after l = [] ∨
      ∃ c s, (namedStyle fundamental).spell after l = c :: s ∧ c ∈ delimiters := by
  cases l with
  | nil => exact Or.inl rfl
  | cons t' l =>
    refine Or.inr ?_
    have hnot := (List.isChain_cons.mp hl).1 t' rfl
    rw [spell_joined rfl]
    cases t' with
    | word _ | fundamental _ => exact absurd ⟨ht, trivial⟩ hnot
    | scope | opening | closing | comma => exact ⟨_, _, rfl, by decide⟩

theorem token_other {fundamental : FundamentalId → Text} {t : Token} (ht : ¬ t.IsName) :
    ∀ c ∈ (namedStyle fundamental).token t, c ∈ delimiters := by
  cases t with
  | word _ | fundamental _ => exact absurd trivial ht
  | scope => exact forall_mem_of_all (s := [':', ':']) (by decide)
  | opening => exact forall_mem_of_all (s := ['<', '(']) (by decide)
  | closing => exact forall_mem_of_all (s := [')', '>']) (by decide)
  | comma => exact forall_mem_of_all (s := [',']) (by decide)

/-- A replacement in the names of fundamental types. -/
theorem replace_names {c : Char} {w : Text} {fundamental fundamental' : FundamentalId → Text}
    (hblank : ' ' ∈ c :: w) (hends : ∀ x ∈ delimiters, x ∉ c :: w)
    (hnames : ∀ id, replaceAll (c :: w) new (fundamental id) = fundamental' id) (l : List Token)
    (after : Bool) (hl : Separated l) :
    replaceAll (c :: w) new ((namedStyle fundamental).spell after l) =
      (namedStyle fundamental').spell after l := by
  have hother : ∀ {t : Token}, ¬ t.IsName → c ∉ (namedStyle fundamental).token t :=
    fun ht h => hends c (token_other ht c h) List.mem_cons_self
  have hkeep : ∀ {t : Token}, ¬ t.IsName → replaceAll (c :: w) new
      ((namedStyle fundamental).token t) = (namedStyle fundamental).token t :=
    fun ht => replaceAll_of_not_mem List.mem_cons_self (hother ht)
  refine replaceAll_spell (List.cons_ne_nil _ _) (fun t => ?_) rfl (fun t l hl => ?_)
    (fun s u hu hne => absurd (List.suffix_nil.mp hu) hne) l after hl
  · cases t with
    | word name => exact replaceAll_of_not_mem hblank (not_mem_special List.mem_cons_self)
    | fundamental id => exact hnames id
    | scope | opening | closing | comma => exact hkeep not_false
  · have hname : t.IsName → Separate (c :: w) ((namedStyle fundamental).token t)
        ((namedStyle fundamental).spell t.isClosing l) := by
      intro ht
      rcases spell_after_name hl ht t.isClosing with hnil | ⟨x, s, hs, hx⟩
      · rw [hnil]
        exact separate_nil
      · rw [hs]
        exact separate_of_not_mem (hends x hx)
    cases t with
    | word name => exact hname trivial
    | fundamental id => exact hname trivial
    | scope | opening | closing | comma => exact separate_of_head (hother not_false)

/-- What the function makes of a name. -/
theorem templateName_eq (n : ClassName) :
    Enough fun fuel => templateName fuel [] n.spelling =
      some ((namedStyle longName).spell false (n.tokens false)) := by
  have hl := separated_tokens false n
  have hshort : ∀ id, replaceAll "short unsigned int".toList "unsigned short".toList
      (gccStyle.fundamental id) = shortName id := fun id => by cases id <;> decide
  have hlong : ∀ id, replaceAll "long unsigned int".toList "unsigned long".toList
      (shortName id) = longName id := fun id => by cases id <;> decide
  have hs := replace_names (c := 's') (w := "hort unsigned int".toList) (by decide)
    (forall_mem_of_all (by decide)) hshort (n.tokens false) false hl
  have hg := replace_names (c := 'l') (w := "ong unsigned int".toList) (by decide)
    (forall_mem_of_all (by decide)) hlong (n.tokens false) false hl
  have hshort' : "short unsigned int".toList = 's' :: "hort unsigned int".toList := rfl
  have hlong' : "long unsigned int".toList = 'l' :: "ong unsigned int".toList := rfl
  have htext : translatedText [] (gccStyle.spell false (n.tokens false)) =
      (namedStyle longName).spell false (n.tokens false) := by
    rw [translatedText, if_neg (by simp), replace_opening _ _ hl, replace_closing _ _ hl,
      (join_closing _).1, reduce_commas, hshort', hs, hlong', hg]
  rw [ClassName.spelling, spelled_eq, ← htext]
  exact templateName_total [] (gccStyle.spell false (n.tokens false))

end Steps

section Results

mutual

theorem mem_tokens (id : FundamentalId) (nested : Bool) : ∀ n : ClassName,
    .fundamental id ∈ n.tokens nested ↔ id ∈ n.fundamentals
  | .plain _ => by simp [ClassName.tokens, ClassName.fundamentals]
  | .fundamental _ => by simp [ClassName.tokens, ClassName.fundamentals]
  | .template _ args => by
    simp [ClassName.tokens, ClassName.fundamentals, mem_argumentTokens id nested args]
  | .qualified scope name => by
    simp [ClassName.tokens, ClassName.fundamentals, mem_tokens id nested scope,
      mem_tokens id nested name]

theorem mem_argumentTokens (id : FundamentalId) (nested : Bool) : ∀ ns : List ClassName,
    .fundamental id ∈ argumentTokens nested ns ↔ id ∈ fundamentalsOf ns
  | [] => by simp [argumentTokens, fundamentalsOf]
  | [n] => by simp [argumentTokens, fundamentalsOf, mem_tokens id true n]
  | n :: m :: ns => by
    have hrest := mem_argumentTokens id nested (m :: ns)
    rw [fundamentalsOf] at hrest
    simp [argumentTokens, fundamentalsOf, mem_tokens id true n, hrest]

end

variable {f g : FundamentalId → Text}

theorem spell_congr (l : List Token) (h : ∀ id, .fundamental id ∈ l → f id = g id)
    (after : Bool) : (namedStyle f).spell after l = (namedStyle g).spell after l := by
  induction l generalizing after with
  | nil => rfl
  | cons t l ih =>
    have htoken : (namedStyle f).token t = (namedStyle g).token t := by
      cases t with
      | fundamental id => exact h id List.mem_cons_self
      | word _ | scope | opening | closing | comma => rfl
    rw [spell_joined rfl, spell_joined rfl, htoken,
      ih fun id hid => h id (List.mem_cons_of_mem _ hid)]

/-- With a shorter name the spelling is shorter. -/
theorem length_spell (l : List Token) (h : ∀ id, (f id).length ≤ (g id).length) (after : Bool) :
    ((namedStyle f).spell after l).length ≤ ((namedStyle g).spell after l).length ∧
      ∀ id, .fundamental id ∈ l → (f id).length < (g id).length →
        ((namedStyle f).spell after l).length < ((namedStyle g).spell after l).length := by
  induction l generalizing after with
  | nil => exact ⟨le_rfl, fun id hid => absurd hid List.not_mem_nil⟩
  | cons t l ih =>
    obtain ⟨hle, hlt⟩ := ih t.isClosing
    have htoken : ((namedStyle f).token t).length ≤ ((namedStyle g).token t).length := by
      cases t with
      | fundamental id => exact h id
      | word _ | scope | opening | closing | comma => exact le_rfl
    rw [spell_joined rfl, spell_joined rfl, List.length_append, List.length_append]
    refine ⟨by omega, fun id hid hshort => ?_⟩
    rcases List.mem_cons.mp hid with rfl | hid
    · have hhere : ((namedStyle f).token (.fundamental id)).length <
          ((namedStyle g).token (.fundamental id)).length := hshort
      omega
    · have hthere := hlt id hid hshort
      omega

/-- The spelling is the intended one where there is no `long long unsigned int`. -/
theorem spell_longName_iff (n : ClassName) :
    (namedStyle longName).spell false (n.tokens false) = n.translation ↔
      .unsignedLongLongInt ∉ n.fundamentals := by
  rw [translation_eq false, ← mem_tokens _ false]
  constructor
  · intro heq hmem
    have hle : ∀ id, (longName id).length ≤ (swigName id).length := fun id => by
      cases id <;> decide
    have hlt := (length_spell (n.tokens false) hle false).2 _ hmem (by decide)
    rw [heq] at hlt
    exact lt_irrefl _ hlt
  · intro hnot
    refine spell_congr (n.tokens false) (fun id hid => ?_) false
    cases id with
    | unsignedLongLongInt => exact absurd hid hnot
    | _ => rfl

def fundamentalIds : List FundamentalId :=
  [.unsignedChar, .unsignedShortInt, .unsignedInt, .unsignedLongInt, .unsignedLongLongInt,
    .signedChar, .char, .shortInt, .int, .longInt, .longLongInt, .wChar_t, .bool, .float, .double,
    .longDouble, .complexFloat, .complexDouble, .complexLongDouble, .void]

theorem longName_injective {id id' : FundamentalId} (h : longName id = longName id') :
    id = id' := by
  have hfind : ∀ i, fundamentalIds.find? (fun j => longName j = longName i) = some i := fun i => by
    cases i <;> decide
  have hid := hfind id
  rw [h, hfind id'] at hid
  exact (Option.some.inj hid).symm

/-- Names that come out the same were spelled the same. -/
theorem name_token_eq {t t' : Token} (ht : t.IsName) (ht' : t'.IsName)
    (h : (namedStyle longName).token t = (namedStyle longName).token t') :
    gccStyle.token t = gccStyle.token t' := by
  have hblank : ∀ id, ' ' ∉ longName id → longName id = (fundamentalName id).toList := fun id => by
    cases id <;> decide
  have hword : ∀ (name : Identifier) (id : FundamentalId), name.text = longName id →
      name.text = (fundamentalName id).toList := by
    intro name id hname
    rw [hname]
    refine hblank id fun hmem => ?_
    exact @not_mem_special name _ List.mem_cons_self (hname ▸ hmem)
  cases t with
  | word name =>
    cases t' with
    | word name' => exact h
    | fundamental id => exact hword name id h
    | scope | opening | closing | comma => cases ht'
  | fundamental id =>
    cases t' with
    | word name => exact (hword name id h.symm).symm
    | fundamental id' => rw [longName_injective h]
    | scope | opening | closing | comma => cases ht'
  | scope | opening | closing | comma => cases ht

theorem name_token_plain {t : Token} (ht : t.IsName) :
    (namedStyle longName).token t ≠ [] ∧
      ∀ c ∈ (namedStyle longName).token t, c ∉ delimiters := by
  cases t with
  | word name => exact ⟨name.ne_nil, fun c hc hd => name.plain c hc (List.mem_cons_of_mem _ hd)⟩
  | fundamental id => cases id <;> exact ⟨List.cons_ne_nil _ _, forall_mem_of_all (by decide)⟩
  | scope | opening | closing | comma => cases ht

theorem append_delimited_inj {x y r s : Text} (hx : ∀ c ∈ x, c ∉ delimiters)
    (hy : ∀ c ∈ y, c ∉ delimiters) (hr : r = [] ∨ ∃ c u, r = c :: u ∧ c ∈ delimiters)
    (hs : s = [] ∨ ∃ c u, s = c :: u ∧ c ∈ delimiters) (h : x ++ r = y ++ s) : x = y ∧ r = s := by
  have htake : ∀ {z t : Text}, (∀ c ∈ z, c ∉ delimiters) →
      (t = [] ∨ ∃ c u, t = c :: u ∧ c ∈ delimiters) →
      (z ++ t).takeWhile (· ∉ delimiters) = z := by
    intro z t hz ht
    rw [List.takeWhile_append_of_pos (by simpa using hz)]
    rcases ht with rfl | ⟨c, u, rfl, hc⟩
    · exact List.append_nil z
    · rw [List.takeWhile_cons_of_neg (by simpa using hc), List.append_nil]
  have hxy : x = y := by
    rw [← htake hx hr, h, htake hy hs]
  subst hxy
  exact ⟨rfl, List.append_cancel_left h⟩

theorem token_ne_nil (t : Token) : (namedStyle longName).token t ≠ [] := by
  cases t with
  | word name => exact name.ne_nil
  | fundamental id => cases id <;> exact List.cons_ne_nil _ _
  | scope | opening | closing | comma => exact List.cons_ne_nil _ _

/-- Tokens of which at least one is not a name are told apart by their first characters. -/
theorem other_token_eq {t t' : Token} {r s : Text} (ht : ¬ (t.IsName ∧ t'.IsName))
    (hcomma : ∀ nested nested', t = .comma nested → t' = .comma nested' → nested = nested')
    (h : (namedStyle longName).token t ++ r = (namedStyle longName).token t' ++ s) : t = t' := by
  have hhead : ∀ {u u' : Token} {r s : Text}, u.IsName → ¬ u'.IsName →
      (namedStyle longName).token u ++ r ≠ (namedStyle longName).token u' ++ s := by
    intro u u' r s hu hu' heq
    obtain ⟨hne, hplain⟩ := name_token_plain hu
    obtain ⟨c, x, hc⟩ := List.exists_cons_of_ne_nil hne
    obtain ⟨c', x', hc'⟩ := List.exists_cons_of_ne_nil (token_ne_nil u')
    rw [hc, hc', List.cons_append, List.cons_append] at heq
    refine hplain c (hc ▸ List.mem_cons_self) ?_
    rw [(List.cons.inj heq).1]
    exact token_other hu' c' (hc' ▸ List.mem_cons_self)
  by_cases hname : t.IsName
  · exact absurd h (hhead hname fun hname' => ht ⟨hname, hname'⟩)
  by_cases hname' : t'.IsName
  · exact absurd h.symm (hhead hname' hname)
  have hfirst := congrArg List.head? h
  rw [List.head?_append_of_ne_nil _ (token_ne_nil t),
    List.head?_append_of_ne_nil _ (token_ne_nil t')] at hfirst
  cases t with
  | word _ | fundamental _ => exact absurd trivial hname
  | scope | opening | closing | comma =>
    cases t' with
    | word _ | fundamental _ => exact absurd trivial hname'
    | scope | opening | closing | comma =>
      first
        | rfl
        | exact congrArg _ (hcomma _ _ rfl rfl)
        | simp [Style.token, namedStyle, joinedStyle, closedStyle, openedStyle] at hfirst

theorem Leveled.comma_eq {depth : Nat} {t t' : Token} {l l' : List Token}
    (h : Leveled depth (t :: l)) (h' : Leveled depth (t' :: l')) (nested nested' : Bool)
    (ht : t = .comma nested) (ht' : t' = .comma nested') : nested = nested' := by
  subst ht ht'
  exact h.1.trans h'.1.symm

theorem Leveled.tail_name {depth : Nat} {t : Token} {l : List Token} (h : Leveled depth (t :: l))
    (ht : t.IsName) : Leveled depth l := by
  cases t with
  | word _ | fundamental _ => exact h
  | scope | opening | closing | comma => cases ht

theorem Leveled.tail_same {depth : Nat} {t : Token} {l l' : List Token}
    (h : Leveled depth (t :: l)) (h' : Leveled depth (t :: l')) :
    ∃ depth', Leveled depth' l ∧ Leveled depth' l' := by
  cases t with
  | word _ | fundamental _ | scope => exact ⟨depth, h, h'⟩
  | opening => exact ⟨depth + 1, h, h'⟩
  | closing => exact ⟨depth - 1, h, h'⟩
  | comma _ => exact ⟨depth, h.2, h'.2⟩

/-- What comes out determines what was there. -/
theorem spell_injective (l : List Token) : ∀ (l' : List Token) (depth : Nat) (after : Bool),
    Separated l → Separated l' → Leveled depth l → Leveled depth l' →
      (namedStyle longName).spell after l = (namedStyle longName).spell after l' →
      gccStyle.spell after l = gccStyle.spell after l' := by
  induction l with
  | nil =>
    intro l' depth after _ _ _ _ h
    cases l' with
    | nil => rfl
    | cons t' l' =>
      rw [spell_joined rfl] at h
      exact absurd (List.append_eq_nil_iff.mp h.symm).1 (token_ne_nil t')
  | cons t l ih =>
    intro l' depth after hl hl' hd hd' h
    cases l' with
    | nil =>
      rw [spell_joined rfl] at h
      exact absurd (List.append_eq_nil_iff.mp h).1 (token_ne_nil t)
    | cons t' l' =>
      rw [spell_joined rfl, spell_joined rfl] at h
      have hrest := (List.isChain_cons.mp hl).2
      have hrest' := (List.isChain_cons.mp hl').2
      have hnext : (∃ depth', Leveled depth' l ∧ Leveled depth' l') ∧
          t.isClosing = t'.isClosing ∧ gccStyle.token t = gccStyle.token t' ∧
          (namedStyle longName).spell t.isClosing l =
            (namedStyle longName).spell t'.isClosing l' := by
        by_cases hnames : t.IsName ∧ t'.IsName
        · obtain ⟨ht, ht'⟩ := hnames
          have hopen : ∀ {u : Token}, u.IsName → u.isClosing = false := by
            intro u hu
            cases u <;> first | rfl | cases hu
          obtain ⟨htoken, hspell⟩ := append_delimited_inj (name_token_plain ht).2
            (name_token_plain ht').2 (spell_after_name hl ht _) (spell_after_name hl' ht' _) h
          exact ⟨⟨depth, hd.tail_name ht, hd'.tail_name ht'⟩, (hopen ht).trans (hopen ht').symm,
            name_token_eq ht ht' htoken, hspell⟩
        · obtain rfl := other_token_eq hnames (hd.comma_eq hd') h
          exact ⟨hd.tail_same hd', rfl, rfl, List.append_cancel_left h⟩
      obtain ⟨⟨depth', hdepth, hdepth'⟩, hclosing, htoken, hspell⟩ := hnext
      rw [hclosing] at hspell
      have hsame := ih l' depth' t'.isClosing hrest hrest' hdepth hdepth' hspell
      rw [Style.spell, Style.spell, hclosing, htoken, hsame]

theorem templateName_unique {n : ClassName} {s : Text}
    (h : Enough fun fuel => templateName fuel [] n.spelling = some s) :
    (namedStyle longName).spell false (n.tokens false) = s := by
  obtain ⟨fuel, hout, hs⟩ := ((templateName_eq n).and h).exists_fuel
  exact Option.some.inj (hout.symm.trans hs)

/-- The name comes out as it is intended exactly if it has no `long long unsigned int`. -/
theorem intended_iff (n : ClassName) : Intended n ↔ .unsignedLongLongInt ∉ n.fundamentals := by
  rw [← spell_longName_iff]
  constructor
  · intro h
    exact templateName_unique h.translated
  · intro h
    refine ⟨h ▸ templateName_eq n, fun id _ => by cases id <;> decide, fun m hm => ?_⟩
    have hlevel : ∀ k : ClassName, Leveled 0 (k.tokens false) := fun k => by
      simpa using leveled_tokens [] k 0 trivial
    rw [ClassName.spelling, ClassName.spelling, spelled_eq, spelled_eq]
    refine spell_injective _ _ 0 _ (separated_tokens false m) (separated_tokens false n)
      (hlevel m) (hlevel n) ?_
    rw [templateName_unique hm, h]

/-- In the name of a template with this argument the end of the type is replaced. -/
theorem longLong_not_intended : ¬ Intended (.template ⟨"A".toList, by decide,
    forall_mem_of_all (by decide)⟩ [.fundamental .unsignedLongLongInt]) := by
  intro h
  have hnot := (spell_longName_iff _).mp (templateName_unique h.translated)
  exact hnot List.mem_cons_self

end Results

end CableSwig.Executables.TemplateName
