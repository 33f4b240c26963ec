import CableSwig.CxxTypes.CanonicalTypes
import CableSwig.CxxTypes.DeclaratorParser

/-!
# Printed declarations read back

The printer is followed on syntax trees: the text it writes has the tokens of a valid tree,
and the tree means the name and the type that were printed.
-/
namespace CableSwig.CxxTypes.DeclarationRoundTrip

open CableSwig.CxxTypes.CanonicalTypes
open CableSwig.CxxTypes.DeclarationPrinter CableSwig.CxxTypes.DeclaratorGrammar
open CableSwig.CxxTypes.DeclaratorParser

section WellFormed

def IsArray : TypeTerm → Prop
  | .arrayType _ _ => True
  | _ => False

def IsFunction : TypeTerm → Prop
  | .functionType _ _ => True
  | _ => False

def IsReference : TypeTerm → Prop
  | .referenceType _ => True
  | _ => False

def IsVoid : TypeTerm → Prop
  | .fundamentalType .void => True
  | _ => False

/-- The type of a const member function. -/
def IsConstFunction (t : CvTerm) : Prop := IsFunction t.type ∧ t.isConst = true

variable (kind : String → NameKind)

mutual

/-- The rules of C++ about what a type can be made of. -/
def WellFormedType : TypeTerm → Prop
  | .arrayType elementType _ =>
    ¬ IsFunction elementType.type ∧ ¬ IsReference elementType.type ∧ ¬ IsVoid elementType.type ∧
      WellFormed elementType
  | .classType name => kind name = .classType
  | .enumerationType name => kind name = .enumerationType
  | .functionType returnType arguments =>
    ¬ IsArray returnType.type ∧ ¬ IsFunction returnType.type ∧ WellFormed returnType ∧
      WellFormedArguments arguments
  | .fundamentalType _ => True
  | .pointerType t => ¬ IsReference t.type ∧ ¬ IsConstFunction t ∧ WellFormed t
  | .pointerToMemberType t classType => kind classType = .classType ∧ WellFormed t
  | .referenceType t => ¬ IsReference t.type ∧ ¬ IsConstFunction t ∧ WellFormed t

/-- No function is volatile, and references have no qualifiers. -/
def WellFormed : CvTerm → Prop
  | .mk type c v =>
    WellFormedType type ∧ (IsFunction type → v = false) ∧
      (IsReference type → c = false ∧ v = false)

def WellFormedArguments : List CvTerm → Prop
  | [] => True
  | t :: arguments =>
    ¬ IsVoid t.type ∧ ¬ IsConstFunction t ∧ WellFormed t ∧ WellFormedArguments arguments

end

end WellFormed

section Trees

def cvQualifiers (c v : Bool) : List CvQualifier :=
  (if c then [.const] else []) ++ (if v then [.volatile] else [])

def words : FundamentalId → List TypeWord
  | .unsignedChar => [.unsigned, .char]
  | .unsignedShortInt => [.unsigned, .short]
  | .unsignedInt => [.unsigned, .int]
  | .unsignedLongInt => [.unsigned, .long]
  | .unsignedLongLongInt => [.unsigned, .long, .long]
  | .signedChar => [.signed, .char]
  | .char => [.char]
  | .shortInt => [.short]
  | .int => [.int]
  | .longInt => [.long]
  | .longLongInt => [.long, .long]
  | .wChar_t => [.wcharT]
  | .bool => [.bool]
  | .float => [.float]
  | .double => [.double]
  | .longDouble => [.long, .double]
  | .complexFloat => [.complexFloat]
  | .complexDouble => [.complexDouble]
  | .complexLongDouble => [.complexLongDouble]
  | .void => [.void]

/-- The declarator of a function that is declared, not one behind another declarator. -/
def declareFunction (parameters : Parameters) (c : Bool) : Declarator → Declarator
  | .empty => .group (.function .empty parameters [])
  | d => .function d parameters (cvQualifiers c false)

mutual

/-- The tree of the text that `generate` writes around the text of a declarator. -/
def declare : TypeTerm → Bool → Declarator → Bool → Bool → List Specifier × Declarator
  | .arrayType elementType length => fun declaration d c v =>
    declareMore elementType (.array (if declaration then d else .group d) length) c v
  | .classType name => fun _ d c v => ((cvQualifiers c v).map .cv ++ [.named name], d)
  | .enumerationType name => fun _ d c v => ((cvQualifiers c v).map .cv ++ [.named name], d)
  | .functionType returnType arguments => fun declaration d c _ =>
    declareMore returnType (if declaration then declareFunction (declareArguments arguments) c d
      else .function (.group d) (declareArguments arguments) (cvQualifiers c false)) false false
  | .fundamentalType id => fun _ d c v => ((cvQualifiers c v).map .cv ++ (words id).map .word, d)
  | .pointerType t => fun _ d c v => declareMore t (.pointer (cvQualifiers c v) d) false false
  | .pointerToMemberType t classType => fun _ d c v =>
    declareMore t (.memberPointer classType (cvQualifiers c v) d) false false
  | .referenceType t => fun _ d _ _ => declareMore t (.reference d) false false

def declareMore : CvTerm → Declarator → Bool → Bool → List Specifier × Declarator
  | .mk type c v => fun d isConst isVolatile =>
    declare type false d (isConst || c) (isVolatile || v)

def declareArgument : CvTerm → List Specifier × Declarator
  | .mk type c v => declare type true .empty c v

def declareArguments : List CvTerm → Parameters
  | [] => .nil
  | t :: arguments =>
    .cons (declareArgument t).1 (declareArgument t).2 (declareArguments arguments)

end

end Trees

section Lexing

/-- No word goes on here. -/
def EndsWord (s : Printed) : Prop := ∀ c rest, s = .char c :: rest → isWordChar c = false

/-- No token goes on here. -/
def Breaks (s : Printed) : Prop :=
  ∀ c rest, s = .char c :: rest → isWordChar c = false ∧ c ≠ ':' ∧ c ≠ '&'

theorem Breaks.endsWord {s : Printed} (h : Breaks s) : EndsWord s :=
  fun c rest hs => (h c rest hs).1

theorem breaks_nil : Breaks [] := fun _ _ h => by cases h

theorem breaks_char {c : Char} (hc : isWordChar c = false ∧ c ≠ ':' ∧ c ≠ '&') (s : Printed) :
    Breaks (.char c :: s) := by
  intro c' rest h
  cases h
  exact hc

theorem lexFrom_endsWord {s : Printed} (h : EndsWord s) (w : List Char) :
    lexFrom w s = endWord w ++ lex s := by
  unfold lex
  fun_cases lexFrom w s with
  | case1 => simp [lexFrom, endWord]
  | case2 n s => simp [lexFrom, endWord]
  | case3 s => simp [lexFrom, endWord]
  | case4 s => simp [lexFrom, endWord]
  | case5 c s hscope hand hc => exact absurd (h c s rfl) (by simp [hc])
  | case6 s hscope hand hc => simp [lexFrom, hc, endWord]
  | case7 c s hscope hand hc hs =>
    rw [lexFrom.eq_5 [] c s hscope hand, if_neg hc, if_neg hs]
    simp [endWord]

theorem lexFrom_append {s : Printed} (h : Breaks s) (w : List Char) (front : Printed) :
    lexFrom w (front ++ s) = lexFrom w front ++ lex s := by
  have hnext : ∀ {front : Printed} {c c' : Char} {rest : Printed}, c' = ':' ∨ c' = '&' →
      (∀ rest, front = .char c' :: rest → c = c' → False) →
      front ++ s = .char c' :: rest → c = c' → False := by
    intro front c c' rest hc' hfront heq hcc'
    cases front with
    | nil =>
      obtain ⟨-, hcolon, hand⟩ := h c' rest heq
      exact hc'.elim hcolon hand
    | cons x front =>
      obtain ⟨rfl, -⟩ := List.cons.inj heq
      exact hfront front rfl hcc'
  fun_induction lexFrom w front with
  | case1 w => exact lexFrom_endsWord h.endsWord w
  | case2 w n front ih => rw [List.cons_append, lexFrom, ih, List.append_assoc]; rfl
  | case3 w front ih => simp only [List.cons_append]; rw [lexFrom, ih, List.append_assoc]; rfl
  | case4 w front ih => simp only [List.cons_append]; rw [lexFrom, ih, List.append_assoc]; rfl
  | case5 w c front hscope hand hc ih =>
    rw [List.cons_append, lexFrom.eq_5 w c _ (fun _ => hnext (.inl rfl) hscope)
      (fun _ => hnext (.inr rfl) hand), if_pos hc, ih]
  | case6 w front hscope hand hc ih =>
    rw [List.cons_append, lexFrom.eq_5 w ' ' _ (fun _ => hnext (.inl rfl) hscope)
      (fun _ => hnext (.inr rfl) hand), if_neg hc, if_pos rfl, ih, List.append_assoc]
  | case7 w c front hscope hand hc hs ih =>
    rw [List.cons_append, lexFrom.eq_5 w c _ (fun _ => hnext (.inl rfl) hscope)
      (fun _ => hnext (.inr rfl) hand), if_neg hc, if_neg hs, ih, List.append_assoc]
    rfl

theorem lex_append {s : Printed} (h : Breaks s) (front : Printed) :
    lex (front ++ s) = lex front ++ lex s := lexFrom_append h [] front

theorem lex_reference {s : Printed} (h : ∀ rest, s ≠ .char '&' :: rest) :
    lex (.char '&' :: s) = .punct '&' :: lex s := by
  rw [lex, lexFrom.eq_5 [] '&' s (fun _ _ h => by cases h) (fun rest heq _ => h rest heq)]
  rfl

theorem lexFrom_word (w : List Char) {x : List Char} (hx : ∀ c ∈ x, isWordChar c = true)
    (s : Printed) : lexFrom w (x.map .char ++ s) = lexFrom (w ++ x) s := by
  induction x generalizing w with
  | nil => simp
  | cons c x ih =>
    have hc := hx c List.mem_cons_self
    have hne : c ≠ ':' ∧ c ≠ '&' := ⟨(by rintro rfl; cases hc), (by rintro rfl; cases hc)⟩
    rw [List.map_cons, List.cons_append, lexFrom.eq_5 w c _ (fun _ _ h => hne.1 h)
      (fun _ _ h => hne.2 h), if_pos hc, ih _ fun c' h => hx c' (List.mem_cons_of_mem _ h)]
    simp

theorem lex_identifier {x : List Char} (hne : x ≠ []) (hx : ∀ c ∈ x, isWordChar c = true)
    {s : Printed} (hs : EndsWord s) : lex (x.map .char ++ s) = .word x :: lex s := by
  rw [lex, lexFrom_word [] hx, lexFrom_endsWord hs]
  cases x with
  | nil => exact absurd rfl hne
  | cons c x => rfl

theorem endsWord_prepare (outer : Printed) : EndsWord (prepareOuterStringForPostfix outer) := by
  intro c rest h
  unfold prepareOuterStringForPostfix at h
  split at h
  · split at h
    · cases h
      rfl
    · rename_i first hfirst hword
      subst h
      cases hfirst
      have hword' : isWordChar c = false ∧ c ≠ ':' := by simpa using hword
      exact hword'.1
  · rename_i hfirst
    subst h
    cases hfirst

theorem lex_prepare (outer : Printed) : lex (prepareOuterStringForPostfix outer) = lex outer := by
  unfold prepareOuterStringForPostfix
  split
  · split
    · rfl
    · rfl
  · rfl

theorem lexFrom_prepare (w : List Char) (outer : Printed) :
    lexFrom w (prepareOuterStringForPostfix outer) = endWord w ++ lex outer := by
  rw [lexFrom_endsWord (endsWord_prepare outer), lex_prepare]

theorem prepare_head {outer : Printed} (h : ∀ rest, outer ≠ .char '&' :: rest) (rest : Printed) :
    prepareOuterStringForPostfix outer ≠ .char '&' :: rest := by
  unfold prepareOuterStringForPostfix
  split
  · split
    · simp
    · exact h rest
  · exact h rest

theorem lex_leftCv (c v : Bool) (s : Printed) :
    lex (getLeftCvString c v ++ s) = (cvQualifiers c v).map CvQualifier.token ++ lex s := by
  cases c <;> cases v <;> rfl

theorem lex_rightCv (c v : Bool) (outer : Printed) :
    lex (getRightCvString c v ++ prepareOuterStringForPostfix outer) =
      (cvQualifiers c v).map CvQualifier.token ++ lex outer := by
  cases c <;> cases v
  · exact lex_prepare outer
  · exact lexFrom_prepare "volatile".toList outer
  · exact lexFrom_prepare "const".toList outer
  · exact congrArg (keyword "const" :: ·) (lexFrom_prepare "volatile".toList outer)

theorem lex_fundamental (id : FundamentalId) (outer : Printed) :
    lex (text (fundamentalTypeName id) ++ prepareOuterStringForPostfix outer) =
      (words id).flatMap TypeWord.tokens ++ lex outer := by
  cases id with
  | unsignedChar => exact congrArg (keyword "unsigned" :: ·) (lexFrom_prepare "char".toList outer)
  | unsignedShortInt =>
    exact congrArg (keyword "unsigned" :: ·) (lexFrom_prepare "short".toList outer)
  | unsignedInt => exact congrArg (keyword "unsigned" :: ·) (lexFrom_prepare "int".toList outer)
  | unsignedLongInt =>
    exact congrArg (keyword "unsigned" :: ·) (lexFrom_prepare "long".toList outer)
  | unsignedLongLongInt =>
    exact congrArg ([keyword "unsigned", keyword "long"] ++ ·) (lexFrom_prepare "long".toList outer)
  | signedChar => exact congrArg (keyword "signed" :: ·) (lexFrom_prepare "char".toList outer)
  | char => exact lexFrom_prepare "char".toList outer
  | shortInt => exact lexFrom_prepare "short".toList outer
  | int => exact lexFrom_prepare "int".toList outer
  | longInt => exact lexFrom_prepare "long".toList outer
  | longLongInt => exact congrArg (keyword "long" :: ·) (lexFrom_prepare "long".toList outer)
  | wChar_t => exact lexFrom_prepare "wchar_t".toList outer
  | bool => exact lexFrom_prepare "bool".toList outer
  | float => exact lexFrom_prepare "float".toList outer
  | double => exact lexFrom_prepare "double".toList outer
  | longDouble => exact congrArg (keyword "long" :: ·) (lexFrom_prepare "double".toList outer)
  | complexFloat => exact congrArg (TypeWord.complexFloat.tokens ++ ·) (lex_prepare outer)
  | complexDouble => exact congrArg (TypeWord.complexDouble.tokens ++ ·) (lex_prepare outer)
  | complexLongDouble => exact congrArg (TypeWord.complexLongDouble.tokens ++ ·) (lex_prepare outer)
  | void => exact lexFrom_prepare "void".toList outer

theorem lex_length (length : Nat) :
    lex (text "[" ++ generateLengthString length ++ text "]") =
      [.punct '[', .word (Nat.toDigits 10 length), .punct ']'] := by
  have hdigits : ∀ c ∈ Nat.toDigits 10 length, isWordChar c = true := by
    intro c hc
    have hdigit := Nat.isDigit_of_mem_toDigits (by decide) (by decide) hc
    simp only [Char.isDigit, Bool.and_eq_true, decide_eq_true_eq] at hdigit
    have hrange : '0' ≤ c ∧ c ≤ '9' := hdigit
    simp [isWordChar, hrange]
  have hclosing : EndsWord (text "]") := (breaks_char (by decide) []).endsWord
  have hword := lex_identifier Nat.toDigits_ne_nil hdigits hclosing
  rw [List.append_assoc]
  exact congrArg (Token.punct '[' :: ·) hword

end Lexing

section Printing

variable {kind : String → NameKind}

/-- All tokens of a declaration. -/
def declarationTokens (tree : List Specifier × Declarator) : List Token :=
  tree.1.flatMap Specifier.tokens ++ tree.2.tokens

/-- What holds of the text and the declarator of the name that is declared. -/
structure Declared (type : TypeTerm) (c : Bool) (outer : Printed) (d : Declarator) : Prop where
  empty_iff : outer = [] ↔ d = .empty
  head_ne : ∀ rest, outer ≠ .char '&' :: rest
  isConst_eq : outer = [] → IsFunction type → c = false

theorem declareFunction_eq {d : Declarator} (h : d ≠ .empty) (parameters : Parameters) (c : Bool) :
    declareFunction parameters c d = .function d parameters (cvQualifiers c false) := by
  cases d with
  | empty => exact absurd rfl h
  | _ => rfl

theorem breaks_closing (s : Printed) : Breaks (text ")" ++ s) := breaks_char (by decide) s

theorem breaks_opening (s : Printed) : Breaks (text "(" ++ s) := breaks_char (by decide) s

theorem breaks_bracket (s : Printed) : Breaks (text "[" ++ s) := breaks_char (by decide) s

theorem cv_tokens (qualifiers : List CvQualifier) (specifiers : List Specifier) :
    (qualifiers.map Specifier.cv ++ specifiers).flatMap Specifier.tokens =
      qualifiers.map CvQualifier.token ++ specifiers.flatMap Specifier.tokens := by
  induction qualifiers with
  | nil => rfl
  | cons q qualifiers ih => exact congrArg (q.token :: ·) ih

theorem word_tokens (ws : List TypeWord) :
    (ws.map Specifier.word).flatMap Specifier.tokens = ws.flatMap TypeWord.tokens := by
  induction ws with
  | nil => rfl
  | cons w ws ih => exact congrArg (w.tokens ++ ·) ih

theorem lex_named (name : String) (outer : Printed) (c v : Bool) :
    lex (getLeftCvString c v ++ .name name :: prepareOuterStringForPostfix outer) =
      ((cvQualifiers c v).map Specifier.cv ++ [Specifier.named name]).flatMap Specifier.tokens ++
        lex outer := by
  rw [lex_leftCv, cv_tokens, List.append_assoc, ← lex_prepare outer]
  rfl

theorem lex_call (front : Printed) {arguments : Printed} {ts : List Token} (c : Bool)
    (harguments : lex arguments = ts) :
    lex (front ++ text "(" ++ arguments ++ text ")" ++ getRightCvString c false) =
      lex front ++ .punct '(' ::
        (ts ++ .punct ')' :: (cvQualifiers c false).map CvQualifier.token) := by
  have hright : lex (text ")" ++ getRightCvString c false) =
      .punct ')' :: (cvQualifiers c false).map CvQualifier.token := by
    cases c <;> rfl
  have hinner : lex (arguments ++ (text ")" ++ getRightCvString c false)) =
      ts ++ .punct ')' :: (cvQualifiers c false).map CvQualifier.token := by
    rw [lex_append (breaks_closing _), harguments, hright]
  simp only [List.append_assoc]
  rw [lex_append (breaks_opening _), ← hinner]
  rfl

theorem lex_group {outer : Printed} {ts : List Token} (houter : lex outer = ts) :
    lex (text "(" ++ outer ++ text ")") = .punct '(' :: (ts ++ [.punct ')']) := by
  have hinner := lex_append (breaks_closing []) outer
  rw [houter] at hinner
  exact congrArg (Token.punct '(' :: ·) hinner

theorem lex_indexed {outer : Printed} {ts : List Token} (houter : lex outer = ts)
    (length : Nat) :
    lex (outer ++ text "[" ++ generateLengthString length ++ text "]") =
      ts ++ [.punct '[', .word (Nat.toDigits 10 length), .punct ']'] := by
  rw [List.append_assoc, List.append_assoc, lex_append (breaks_bracket _), houter,
    ← List.append_assoc, lex_length]

theorem lex_spaced {arguments : Printed} {ts : List Token} (harguments : lex arguments = ts) :
    lex (text " " ++ arguments ++ text " ") = ts := by
  have hend : lex (arguments ++ text " ") = lex arguments ++ lex (text " ") :=
    lex_append (breaks_char (by decide) []) arguments
  rw [harguments] at hend
  rw [← List.append_nil ts]
  exact hend

mutual

/-- The text has the tokens of the tree. -/
theorem lex_generate : ∀ (type : TypeTerm), WellFormedType kind type →
    ∀ (declaration : Bool) (outer : Printed) (d : Declarator) (c v : Bool),
      lex outer = d.tokens → (declaration = true → Declared type c outer d) →
      (IsReference type → ∀ rest, outer ≠ .char '&' :: rest) →
      lex (generate type declaration outer c v) =
        declarationTokens (declare type declaration d c v)
  | .arrayType elementType length, ht, declaration, outer, d, c, v, houter, hdecl, _ => by
    obtain ⟨-, hreference, -, ht⟩ := ht
    rw [generate, declare]
    refine lex_generateCv elementType ht _ _ c v ?_ fun h => absurd h hreference
    cases declaration with
    | true => exact lex_indexed houter length
    | false => exact lex_indexed (lex_group houter) length
  | .classType name, _, _, outer, d, c, v, houter, _, _ => by
    rw [generate, declare, declarationTokens, ← houter]
    exact lex_named name outer c v
  | .enumerationType name, _, _, outer, d, c, v, houter, _, _ => by
    rw [generate, declare, declarationTokens, ← houter]
    exact lex_named name outer c v
  | .fundamentalType id, _, _, outer, d, c, v, houter, _, _ => by
    simp only [generate, declare, declarationTokens, List.append_assoc]
    rw [lex_leftCv, lex_fundamental, houter, cv_tokens, word_tokens, List.append_assoc]
  | .functionType returnType arguments, ht, declaration, outer, d, c, v, houter, hdecl, _ => by
    obtain ⟨-, -, ht, harguments⟩ := ht
    have harguments := (lex_arguments arguments harguments).1
    cases declaration with
    | false =>
      rw [generate, declare]
      refine lex_generateCv returnType ht _ _ false false ?_ fun _ rest h => by cases h
      have hcall := lex_call (text "(" ++ outer ++ text ")") c (lex_spaced harguments)
      rw [lex_group houter] at hcall
      simp only [List.append_assoc] at hcall ⊢
      exact hcall
    | true =>
      obtain ⟨hempty, hhead, hconst⟩ := hdecl rfl
      by_cases houter' : outer = []
      · obtain rfl := hempty.mp houter'
        obtain rfl := hconst houter' trivial
        simp only [generate, declare, if_pos, houter']
        refine lex_generateCv returnType ht _ _ false false ?_ fun _ rest h => by cases h
        have hcall := lex_group (lex_call [] false harguments)
        simp only [List.append_assoc] at hcall ⊢
        exact hcall
      · have hne : d ≠ .empty := fun h => houter' (hempty.mpr h)
        simp only [generate, declare, if_pos, if_neg houter', declareFunction_eq hne]
        refine lex_generateCv returnType ht _ _ false false ?_ fun _ rest h => ?_
        · rw [lex_call _ c harguments, houter]
          rfl
        · obtain ⟨x, outer, rfl⟩ := List.exists_cons_of_ne_nil houter'
          obtain ⟨rfl, -⟩ := List.cons.inj h
          exact hhead outer rfl
  | .pointerType t, ht, _, outer, d, c, v, houter, _, _ => by
    rw [generate, declare]
    refine lex_generateCv t ht.2.2 _ _ false false ?_ fun _ rest h => by cases h
    have hright := lex_rightCv c v outer
    rw [houter] at hright
    rw [Declarator.tokens, ← hright, List.append_assoc]
    rfl
  | .pointerToMemberType t classType, ht, _, outer, d, c, v, houter, _, _ => by
    rw [generate, declare]
    refine lex_generateCv t ht.2 _ _ false false ?_ fun _ rest h => by cases h
    have hright := lex_rightCv c v outer
    rw [houter] at hright
    rw [Declarator.tokens, ← hright, List.append_assoc]
    rfl
  | .referenceType t, ht, _, outer, d, c, v, houter, _, hreference => by
    rw [generate, declare]
    refine lex_generateCv t ht.2.2 _ _ false false ?_ fun h => absurd h ht.1
    rw [Declarator.tokens, ← houter, ← lex_prepare outer]
    exact lex_reference (prepare_head (hreference trivial))

theorem lex_generateCv : ∀ (t : CvTerm), WellFormed kind t →
    ∀ (outer : Printed) (d : Declarator) (c v : Bool), lex outer = d.tokens →
      (IsReference t.type → ∀ rest, outer ≠ .char '&' :: rest) →
      lex (generateCv t outer c v) = declarationTokens (declareMore t d c v)
  | .mk type c' v', ht, outer, d, c, v, houter, hreference =>
    lex_generate type ht.1 false outer d (c || c') (v || v') houter (fun h => by cases h) hreference

theorem lex_arguments : ∀ (arguments : List CvTerm), WellFormedArguments kind arguments →
    lex (generateArgumentString arguments) = (declareArguments arguments).tokens ∧
      lex (generateMoreArguments arguments) = (declareArguments arguments).moreTokens
  | [], _ => ⟨rfl, rfl⟩
  | .mk type c v :: arguments, ht => by
    obtain ⟨-, hconst, ht, harguments⟩ := ht
    have hmore := (lex_arguments arguments harguments).2
    have hdeclared : Declared type c [] .empty :=
      ⟨Iff.intro (fun _ => rfl) fun _ => rfl, (fun _ h => by cases h),
        (fun _ h => by simpa [IsConstFunction, h] using hconst)⟩
    have hfirst := lex_generate type ht.1 true [] .empty c v rfl (fun _ => hdeclared)
      fun _ rest h => by cases h
    have hbreaks : Breaks (generateMoreArguments arguments) := by
      cases arguments with
      | nil => exact breaks_nil
      | cons t arguments => exact breaks_char (by decide) _
    have hall : lex (generate type true [] c v ++ generateMoreArguments arguments) =
        (declareArguments (.mk type c v :: arguments)).tokens := by
      rw [lex_append hbreaks, hfirst, hmore, declareArguments, Parameters.tokens,
        declarationTokens, List.append_assoc]
      rfl
    refine ⟨hall, ?_⟩
    rw [generateMoreArguments, List.append_assoc]
    exact congrArg (Token.punct ',' :: ·) hall

end

end Printing

section Reading

variable {kind : String → NameKind}

/-- The type that a tree stands for. -/
def treeType (kind : String → NameKind) (tree : List Specifier × Declarator) : Option CvTerm :=
  (specifiersType kind tree.1).bind (tree.2.typeOf kind)

theorem const_mem_cvQualifiers (c v : Bool) :
    decide (CvQualifier.const ∈ cvQualifiers c v) = c := by
  cases c <;> cases v <;> rfl

theorem volatile_mem_cvQualifiers (c v : Bool) :
    decide (CvQualifier.volatile ∈ cvQualifiers c v) = v := by
  cases c <;> cases v <;> rfl

theorem specifiersType_eq (c v : Bool) {specifiers : List Specifier}
    (h : ∀ s ∈ specifiers, s.isCv = false) :
    specifiersType kind ((cvQualifiers c v).map .cv ++ specifiers) =
      (simpleType kind specifiers).map fun type => .mk type c v := by
  have hfilter : ((cvQualifiers c v).map Specifier.cv ++ specifiers).filter (fun s => !s.isCv) =
      specifiers := by
    have hself : specifiers.filter (fun s => !s.isCv) = specifiers :=
      List.filter_eq_self.mpr fun s hs => by simp [h s hs]
    cases c <;> cases v <;> simpa [cvQualifiers, Specifier.isCv] using hself
  have hmem : ∀ q, Specifier.cv q ∈ (cvQualifiers c v).map Specifier.cv ++ specifiers ↔
      q ∈ cvQualifiers c v := by
    intro q
    have hnot : Specifier.cv q ∉ specifiers := fun hq => by cases h _ hq
    simp [hnot]
  simp only [specifiersType, hfilter, hmem, const_mem_cvQualifiers, volatile_mem_cvQualifiers]
  cases simpleType kind specifiers <;> rfl

theorem specifiersType_words (id : FundamentalId) (c v : Bool) :
    specifiersType kind ((cvQualifiers c v).map .cv ++ (words id).map .word) =
      some (.mk (.fundamentalType id) c v) := by
  rw [specifiersType_eq c v]
  · cases id <;> rfl
  · intro s hs
    obtain ⟨w, -, rfl⟩ := List.mem_map.mp hs
    rfl

theorem specifiersType_named (name : String) (c v : Bool) :
    specifiersType kind ((cvQualifiers c v).map .cv ++ [.named name]) =
      match kind name with
      | .classType => some (.mk (.classType name) c v)
      | .enumerationType => some (.mk (.enumerationType name) c v) := by
  rw [specifiersType_eq c v]
  · rw [simpleType]
    cases kind name <;> rfl
  · intro s hs
    obtain rfl := List.mem_singleton.mp hs
    rfl

theorem isVoid_canonical {t : CvTerm} {c v : Bool}
    (h : canonical t = .mk (.fundamentalType .void) c v) : IsVoid t.type := by
  obtain ⟨type, c', v'⟩ := t
  cases type with
  | fundamentalType id => cases h; trivial
  | _ => cases h

theorem types_of_isVoid {parameters : Parameters} (h : parameters.isVoid = true) :
    parameters.types kind = some [.mk (.fundamentalType .void) false false] := by
  unfold Parameters.isVoid at h
  split at h
  · rfl
  · cases h

theorem isVoid_declareArguments {arguments : List CvTerm}
    (hvoid : WellFormedArguments kind arguments)
    (htypes : (declareArguments arguments).types kind = some (canonicalArguments arguments)) :
    (declareArguments arguments).isVoid = false := by
  by_contra h
  rw [types_of_isVoid (Bool.not_eq_false _ ▸ h)] at htypes
  cases arguments with
  | nil => cases htypes
  | cons t arguments =>
    rw [canonicalArguments] at htypes
    obtain ⟨ht, -⟩ := List.cons.inj (Option.some.inj htypes)
    exact hvoid.1 (isVoid_canonical ht.symm)

theorem typeOf_function {parameters : Parameters} {arguments : List CvTerm}
    (hvoid : parameters.isVoid = false) (htypes : parameters.types kind = some arguments)
    (d : Declarator) (c v : Bool) (t : CvTerm) :
    (Declarator.function d parameters (cvQualifiers c v)).typeOf kind t =
      d.typeOf kind (.mk (.functionType t arguments) c v) := by
  simp [Declarator.typeOf, hvoid, htypes, const_mem_cvQualifiers, volatile_mem_cvQualifiers]

mutual

theorem treeType_declare : ∀ (type : TypeTerm), WellFormedType kind type →
    ∀ (declaration : Bool) (d : Declarator) (c v : Bool), (IsFunction type → v = false) →
      (IsReference type → c = false ∧ v = false) →
      (declaration = true → d = .empty → IsFunction type → c = false) →
      treeType kind (declare type declaration d c v) = d.typeOf kind (canonicalType type c v)
  | .arrayType elementType length, ht, declaration, d, c, v, _, _, _ => by
    obtain ⟨hfunction, hreference, -, ht⟩ := ht
    have helement := fun d => treeType_declareMore elementType ht d c v
      (fun h => absurd h hfunction) fun h => absurd h hreference
    cases declaration with
    | true => exact helement _
    | false => exact helement _
  | .classType name, ht, _, d, c, v, _, _, _ => by
    have hkind : kind name = .classType := ht
    simp [declare, treeType, specifiersType_named, hkind, canonicalType]
  | .enumerationType name, ht, _, d, c, v, _, _, _ => by
    have hkind : kind name = .enumerationType := ht
    simp [declare, treeType, specifiersType_named, hkind, canonicalType]
  | .fundamentalType id, _, _, d, c, v, _, _, _ => by
    simp [declare, treeType, specifiersType_words, canonicalType]
  | .functionType returnType arguments, ht, declaration, d, c, v, hvolatile, _, hconst => by
    obtain ⟨-, -, ht, harguments⟩ := ht
    obtain rfl := hvolatile trivial
    have hreturn := fun d => treeType_declareMore returnType ht d false false (fun _ => rfl)
      fun _ => ⟨rfl, rfl⟩
    have htypes := types_declareArguments arguments harguments
    have hfunction := typeOf_function (isVoid_declareArguments harguments htypes) htypes
    cases declaration with
    | false => exact (hreturn _).trans (hfunction _ c false _)
    | true =>
      simp only [declare, if_pos, hreturn]
      by_cases hd : d = .empty
      · subst hd
        obtain rfl := hconst rfl rfl trivial
        exact hfunction .empty false false _
      · rw [declareFunction_eq hd]
        exact hfunction d c false _
  | .pointerType t, ht, _, d, c, v, _, _, _ => by
    rw [declare, treeType_declareMore t ht.2.2 _ false false (fun _ => rfl) fun _ => ⟨rfl, rfl⟩,
      Declarator.typeOf, const_mem_cvQualifiers, volatile_mem_cvQualifiers]
    rfl
  | .pointerToMemberType t classType, ht, _, d, c, v, _, _, _ => by
    have hkind : kind classType = .classType := ht.1
    rw [declare, treeType_declareMore t ht.2 _ false false (fun _ => rfl) fun _ => ⟨rfl, rfl⟩,
      Declarator.typeOf, hkind, const_mem_cvQualifiers, volatile_mem_cvQualifiers]
    rfl
  | .referenceType t, ht, _, d, c, v, _, hreference, _ => by
    obtain ⟨rfl, rfl⟩ := hreference trivial
    rw [declare, treeType_declareMore t ht.2.2 _ false false (fun _ => rfl) fun _ => ⟨rfl, rfl⟩,
      Declarator.typeOf]
    rfl

theorem treeType_declareMore : ∀ (t : CvTerm), WellFormed kind t →
    ∀ (d : Declarator) (c v : Bool), (IsFunction t.type → v = false) →
      (IsReference t.type → c = false ∧ v = false) →
      treeType kind (declareMore t d c v) = d.typeOf kind (canonicalMore t c v)
  | .mk type c' v', ht, d, c, v, hvolatile, hreference => by
    obtain ⟨ht, hvolatile', hreference'⟩ := ht
    refine treeType_declare type ht false d (c || c') (v || v') ?_ ?_ fun h => by cases h
    · intro h
      rw [hvolatile h, hvolatile' h]
      rfl
    · intro h
      obtain ⟨rfl, rfl⟩ := hreference h
      exact hreference' h

theorem types_declareArguments : ∀ (arguments : List CvTerm), WellFormedArguments kind arguments →
    (declareArguments arguments).types kind = some (canonicalArguments arguments)
  | [], _ => rfl
  | .mk type c v :: arguments, ht => by
    obtain ⟨-, hconst, ⟨ht, hvolatile, hreference⟩, harguments⟩ := ht
    have hmore := types_declareArguments arguments harguments
    have hfirst := treeType_declare type ht true .empty c v hvolatile hreference
      fun _ _ h => by simpa [IsConstFunction, h] using hconst
    obtain ⟨specifiersT, hspecifiers, hd⟩ := Option.bind_eq_some_iff.mp hfirst
    simp [declareArguments, declareArgument, Parameters.types, hspecifiers, hd, hmore,
      canonicalArguments, canonicalMore]

end

end Reading

section Valid

/-- A tree that the grammar allows. -/
def ValidTree (tree : List Specifier × Declarator) : Prop := tree.1 ≠ [] ∧ tree.2.Valid

theorem valid_declareFunction {d : Declarator} (hd : d.Valid) (hdirect : d.IsDirect)
    {parameters : Parameters} (hparameters : parameters.Valid) (c : Bool) :
    (declareFunction parameters c d).Valid := by
  by_cases hempty : d = .empty
  · subst hempty
    exact ⟨by simp, trivial, trivial, hparameters⟩
  · rw [declareFunction_eq hempty]
    exact ⟨hdirect, hd, hparameters⟩

mutual

theorem valid_declare : ∀ (type : TypeTerm) (declaration : Bool) (d : Declarator) (c v : Bool),
    d.Valid → (declaration = true → d.IsDirect) → (declaration = false → d ≠ .empty) →
    ValidTree (declare type declaration d c v)
  | .arrayType elementType length, declaration, d, c, v, hd, hdirect, hne => by
    cases declaration with
    | true => exact valid_declareMore elementType _ c v ⟨hdirect rfl, hd⟩ (by simp)
    | false => exact valid_declareMore elementType _ c v ⟨trivial, hne rfl, hd⟩ (by simp)
  | .classType name, _, d, c, v, hd, _, _ => ⟨by simp [declare], hd⟩
  | .enumerationType name, _, d, c, v, hd, _, _ => ⟨by simp [declare], hd⟩
  | .fundamentalType id, _, d, c, v, hd, _, _ => by
    refine ⟨?_, hd⟩
    cases id <;> simp [declare, words]
  | .functionType returnType arguments, declaration, d, c, v, hd, hdirect, hne => by
    have hparameters := valid_declareArguments arguments
    cases declaration with
    | true =>
      refine valid_declareMore returnType _ false false
        (valid_declareFunction hd (hdirect rfl) hparameters c) ?_
      cases d <;> simp [declareFunction]
    | false =>
      exact valid_declareMore returnType _ false false ⟨trivial, ⟨hne rfl, hd⟩, hparameters⟩
        (by simp)
  | .pointerType t, _, d, c, v, hd, _, _ => valid_declareMore t _ false false hd (by simp)
  | .pointerToMemberType t classType, _, d, c, v, hd, _, _ =>
    valid_declareMore t _ false false hd (by simp)
  | .referenceType t, _, d, c, v, hd, _, _ => valid_declareMore t _ false false hd (by simp)

theorem valid_declareMore : ∀ (t : CvTerm) (d : Declarator) (c v : Bool), d.Valid → d ≠ .empty →
    ValidTree (declareMore t d c v)
  | .mk type c' v', d, c, v, hd, hne =>
    valid_declare type false d (c || c') (v || v') hd (fun h => by cases h) fun _ => hne

theorem valid_declareArguments : ∀ (arguments : List CvTerm), (declareArguments arguments).Valid
  | [] => trivial
  | .mk type c v :: arguments => by
    have hfirst := valid_declare type true .empty c v trivial (fun _ => trivial)
      fun h => by cases h
    exact ⟨hfirst.1, hfirst.2, valid_declareArguments arguments⟩

end

mutual

theorem name_declare : ∀ (type : TypeTerm) (declaration : Bool) (d : Declarator) (c v : Bool),
    (declare type declaration d c v).2.name = d.name
  | .arrayType elementType length, declaration, d, c, v => by
    cases declaration with
    | true => exact name_declareMore elementType _ c v
    | false => exact name_declareMore elementType _ c v
  | .classType _, _, _, _, _ => rfl
  | .enumerationType _, _, _, _, _ => rfl
  | .fundamentalType _, _, _, _, _ => rfl
  | .functionType returnType arguments, declaration, d, c, v => by
    have hreturn := fun d => name_declareMore returnType d false false
    cases declaration with
    | true =>
      refine (hreturn _).trans ?_
      cases d <;> rfl
    | false => exact hreturn _
  | .pointerType t, _, _, _, _ => name_declareMore t _ false false
  | .pointerToMemberType t _, _, _, _, _ => name_declareMore t _ false false
  | .referenceType t, _, _, _, _ => name_declareMore t _ false false

theorem name_declareMore : ∀ (t : CvTerm) (d : Declarator) (c v : Bool),
    (declareMore t d c v).2.name = d.name
  | .mk type c' v', d, c, v => name_declare type false d (c || c') (v || v')

end

end Valid

section RoundTrip

variable {kind : String → NameKind}

/-- An identifier, or no name at all. -/
def IsName (name : List Char) : Prop := name = [] ∨ IsIdentifier name

def nameDeclarator : List Char → Declarator
  | [] => .empty
  | name => .identifier name

/-- The tree of a declaration. -/
def declarationTree (t : CvTerm) (name : List Char) : List Specifier × Declarator :=
  declare t.type true (nameDeclarator name) t.isConst t.isVolatile

theorem valid_nameDeclarator {name : List Char} (hname : IsName name) :
    (nameDeclarator name).Valid ∧ (nameDeclarator name).IsDirect := by
  cases name with
  | nil => exact ⟨trivial, trivial⟩
  | cons c name => exact ⟨hname.resolve_left (by simp), trivial⟩

theorem name_nameDeclarator (name : List Char) : (nameDeclarator name).name = name := by
  cases name <;> rfl

theorem typeOf_nameDeclarator (name : List Char) (t : CvTerm) :
    (nameDeclarator name).typeOf kind t = some t := by
  cases name <;> rfl

theorem lex_name {name : List Char} (hname : IsName name) :
    lex (name.map .char) = (nameDeclarator name).tokens := by
  cases name with
  | nil => rfl
  | cons c name =>
    obtain ⟨hne, hword, -⟩ := hname.resolve_left (by simp)
    have h := lex_identifier hne hword breaks_nil.endsWord
    rwa [List.append_nil] at h

theorem declared_name {name : List Char} (hname : IsName name) {type : TypeTerm} {c : Bool}
    (hconst : IsFunction type → c = true → name ≠ []) :
    Declared type c (name.map .char) (nameDeclarator name) := by
  cases name with
  | nil => exact ⟨Iff.intro (fun _ => rfl) fun _ => rfl, (fun _ h => by cases h),
      fun _ h => by simpa using hconst h⟩
  | cons c' name =>
    refine ⟨by simp [nameDeclarator], fun rest h => ?_, fun h => by cases h⟩
    obtain ⟨hc, -⟩ := List.cons.inj h
    cases hc
    obtain ⟨-, hword, -⟩ := hname.resolve_left (by simp)
    cases hword _ List.mem_cons_self

theorem lex_generateDeclaration {t : CvTerm} (ht : WellFormed kind t) {name : List Char}
    (hname : IsName name) (hconst : IsConstFunction t → name ≠ []) :
    lex (generateDeclaration t (name.map .char)) = declarationTokens (declarationTree t name) := by
  obtain ⟨type, c, v⟩ := t
  have hdeclared := declared_name hname fun hf hc => hconst ⟨hf, hc⟩
  exact lex_generate type ht.1 true _ _ c v (lex_name hname) (fun _ => hdeclared)
    fun _ => hdeclared.head_ne

theorem treeType_declarationTree {t : CvTerm} (ht : WellFormed kind t) {name : List Char}
    (hconst : IsConstFunction t → name ≠ []) :
    treeType kind (declarationTree t name) = some (canonical t) := by
  obtain ⟨type, c, v⟩ := t
  have h := treeType_declare type ht.1 true (nameDeclarator name) c v ht.2.1 ht.2.2 ?_
  · rw [typeOf_nameDeclarator] at h
    simpa [canonical, canonicalMore, declarationTree] using h
  · intro _ hempty hf
    cases name with
    | nil => simpa [IsConstFunction, hf] using hconst
    | cons c' name => cases hempty

theorem reads_generateDeclaration {t : CvTerm} (ht : WellFormed kind t) {name : List Char}
    (hname : IsName name) (hconst : IsConstFunction t → name ≠ []) (name' : List Char)
    (t' : CvTerm) :
    Reads kind (generateDeclaration t (name.map .char)) name' t' ↔
      name' = name ∧ t' = canonical t := by
  have hlex := lex_generateDeclaration ht hname hconst
  have htype := treeType_declarationTree ht hconst
  obtain ⟨hvalid, hdirect⟩ := valid_nameDeclarator hname
  obtain ⟨hne, htree⟩ := valid_declare t.type true (nameDeclarator name) t.isConst t.isVolatile
    hvalid (fun _ => hdirect) fun h => by cases h
  have hnameTree : (declarationTree t name).2.name = name :=
    (name_declare _ _ _ _ _).trans (name_nameDeclarator name)
  constructor
  · rintro ⟨specifiers, d, -, hd, htokens, hdname, hdtype⟩
    obtain ⟨rfl, rfl⟩ := tokens_injective hd htree (htokens.symm.trans hlex)
    exact ⟨hdname.symm.trans hnameTree, Option.some.inj (hdtype.symm.trans htype)⟩
  · rintro ⟨rfl, rfl⟩
    exact ⟨_, _, hne, htree, hlex, hnameTree, htype⟩

/-- A printed declaration is read back as the declared name and type, and nothing else. No other
name or type is printed as the same text. -/
theorem declaration_reads_back {t : CvTerm} (ht : WellFormed kind t) {name : List Char}
    (hname : IsName name) (hconst : IsConstFunction t → name ≠ []) :
    (∀ name' t', Reads kind (generateDeclaration t (name.map .char)) name' t' ↔
      name' = name ∧ t' = canonical t) ∧
    (name = [] → getName t = generateDeclaration t (name.map .char)) ∧
    ∀ t' name', WellFormed kind t' → IsName name' → (IsConstFunction t' → name' ≠ []) →
      generateDeclaration t' (name'.map .char) = generateDeclaration t (name.map .char) →
      name' = name ∧ canonical t' = canonical t := by
  refine ⟨reads_generateDeclaration ht hname hconst, ?_, ?_⟩
  · rintro rfl
    exact getName_eq t
  · intro t' name' ht' hname' hconst' heq
    have hself := (reads_generateDeclaration ht' hname' hconst' _ _).mpr ⟨rfl, rfl⟩
    rw [heq] at hself
    exact (reads_generateDeclaration ht hname hconst _ _).mp hself

/-- A pointer to a const member function that takes an array of const numbers by reference. -/
def memberFunctionPointer : CvTerm :=
  .mk (.pointerToMemberType (.mk (.functionType (.mk (.fundamentalType .int) false false)
    [.mk (.referenceType (.mk (.arrayType (.mk (.fundamentalType .char) false false) 3) true false))
      false false]) true false) "A") false false

theorem memberFunctionPointer_reads_back :
    Reads (fun _ => .classType)
      (text "int(" ++ .name "A" :: text "::* x)( const char(&)[3] ) const") ['x']
      (canonical memberFunctionPointer) := by
  have ht : WellFormed (fun _ => .classType) memberFunctionPointer := by
    simp [memberFunctionPointer, WellFormed, WellFormedType, WellFormedArguments, IsConstFunction,
      IsFunction, IsReference, IsVoid, IsArray]
  have hname : IsName ['x'] := .inr (by decide)
  exact ((declaration_reads_back ht hname (fun _ => by simp)).1 _ _).mpr ⟨rfl, rfl⟩

end RoundTrip

end CableSwig.CxxTypes.DeclarationRoundTrip
