import CableSwig.CxxTypes.DeclarationPrinter

/-!
# The declarator grammar

Declarations as C++ reads them: text is cut into tokens, a syntax tree yields its tokens
from left to right, and a declarator turns the type before it into that of the declared name.
-/
namespace CableSwig.CxxTypes.DeclaratorGrammar

open CableSwig.CxxTypes.DeclarationPrinter

/-- A token. Words are keywords, identifiers and numbers. -/
inductive Token
  | word (w : List Char)
  | name (n : String)
  | scope
  | andAnd
  | punct (c : Char)
deriving DecidableEq, Repr

/-- The word read so far, if there is one. -/
def endWord : List Char → List Token
  | [] => []
  | c :: w => [.word (c :: w)]

/-- The tokens of a text, each as long as it can be, with a word begun before it. -/
def lexFrom (w : List Char) : Printed → List Token
  | [] => endWord w
  | .name n :: s => endWord w ++ .name n :: lexFrom [] s
  | .char ':' :: .char ':' :: s => endWord w ++ .scope :: lexFrom [] s
  | .char '&' :: .char '&' :: s => endWord w ++ .andAnd :: lexFrom [] s
  | .char c :: s =>
    if isWordChar c then lexFrom (w ++ [c]) s
    else if c = ' ' then endWord w ++ lexFrom [] s
    else endWord w ++ .punct c :: lexFrom [] s

def lex (s : Printed) : List Token := lexFrom [] s

inductive CvQualifier
  | const | volatile
deriving DecidableEq, Repr

/-- The words that fundamental types are made of. -/
inductive TypeWord
  | unsigned | signed | short | long | int | char | wcharT | bool | float | double | void
  | complexFloat | complexDouble | complexLongDouble
deriving DecidableEq, Repr

/-- One of the specifiers before a declarator. -/
inductive Specifier
  | cv (q : CvQualifier)
  | word (w : TypeWord)
  | named (n : String)
deriving DecidableEq, Repr

mutual

/-- A declarator, concrete or abstract. -/
inductive Declarator
  | empty
  | identifier (x : List Char)
  | group (d : Declarator)
  | pointer (cv : List CvQualifier) (d : Declarator)
  | reference (d : Declarator)
  | memberPointer (classType : String) (cv : List CvQualifier) (d : Declarator)
  | array (d : Declarator) (length : Nat)
  | function (d : Declarator) (parameters : Parameters) (cv : List CvQualifier)

/-- The parameters of a function declarator. -/
inductive Parameters
  | nil
  | cons (specifiers : List Specifier) (d : Declarator) (rest : Parameters)

end

section Tokens

def keyword (s : String) : Token := .word s.toList

def CvQualifier.token : CvQualifier → Token
  | .const => keyword "const"
  | .volatile => keyword "volatile"

/-- The tokens of a class template of the standard library and its argument. -/
def complexOf (argument : List Token) : List Token :=
  [keyword "std", .scope, keyword "complex", .punct '<'] ++ argument ++ [.punct '>']

def TypeWord.tokens : TypeWord → List Token
  | .unsigned => [keyword "unsigned"]
  | .signed => [keyword "signed"]
  | .short => [keyword "short"]
  | .long => [keyword "long"]
  | .int => [keyword "int"]
  | .char => [keyword "char"]
  | .wcharT => [keyword "wchar_t"]
  | .bool => [keyword "bool"]
  | .float => [keyword "float"]
  | .double => [keyword "double"]
  | .void => [keyword "void"]
  | .complexFloat => complexOf [keyword "float"]
  | .complexDouble => complexOf [keyword "double"]
  | .complexLongDouble => complexOf [keyword "long", keyword "double"]

def Specifier.tokens : Specifier → List Token
  | .cv q => [q.token]
  | .word w => w.tokens
  | .named n => [.name n]

mutual

/-- The tokens that a declarator stands for. -/
def Declarator.tokens : Declarator → List Token
  | .empty => []
  | .identifier x => [.word x]
  | .group d => .punct '(' :: (d.tokens ++ [.punct ')'])
  | .pointer cv d => .punct '*' :: (cv.map CvQualifier.token ++ d.tokens)
  | .reference d => .punct '&' :: d.tokens
  | .memberPointer classType cv d =>
    .name classType :: .scope :: .punct '*' :: (cv.map CvQualifier.token ++ d.tokens)
  | .array d length =>
    d.tokens ++ [.punct '[', .word (Nat.toDigits 10 length), .punct ']']
  | .function d parameters cv =>
    d.tokens ++ .punct '(' :: (parameters.tokens ++ .punct ')' :: cv.map CvQualifier.token)

def Parameters.tokens : Parameters → List Token
  | .nil => []
  | .cons specifiers d rest =>
    specifiers.flatMap Specifier.tokens ++ (d.tokens ++ rest.moreTokens)

/-- The tokens of the parameters behind the first one. -/
def Parameters.moreTokens : Parameters → List Token
  | .nil => []
  | .cons specifiers d rest => .punct ',' ::
    (specifiers.flatMap Specifier.tokens ++ (d.tokens ++ rest.moreTokens))

end

/-- The keywords that can stand before a declarator. -/
def keywords : List (List Char) :=
  ["const", "volatile", "unsigned", "signed", "short", "long", "int", "char", "wchar_t",
    "bool", "float", "double", "void"].map String.toList

def IsIdentifier (x : List Char) : Prop :=
  x ≠ [] ∧ (∀ c ∈ x, isWordChar c = true) ∧ (∀ c ∈ x.head?, c.isDigit = false) ∧ x ∉ keywords

/-- Character by character, not over all characters there are. -/
instance (x : List Char) : Decidable (IsIdentifier x) :=
  decidable_of_iff (x ≠ [] ∧ x.all isWordChar = true ∧ x.head?.all (!·.isDigit) = true ∧
    x ∉ keywords) (by simp [IsIdentifier, List.all_eq_true, Option.all_eq_true])

/-- A declarator that does not start with a pointer operator. -/
def Declarator.IsDirect : Declarator → Prop
  | .pointer _ _ | .reference _ | .memberPointer _ _ _ => False
  | _ => True

mutual

/-- The conditions of the grammar: brackets and parameters follow a direct declarator, and
parentheses group something. -/
def Declarator.Valid : Declarator → Prop
  | .empty => True
  | .identifier x => IsIdentifier x
  | .group d => d ≠ .empty ∧ d.Valid
  | .pointer _ d => d.Valid
  | .reference d => d.Valid
  | .memberPointer _ _ d => d.Valid
  | .array d _ => d.IsDirect ∧ d.Valid
  | .function d parameters _ => d.IsDirect ∧ d.Valid ∧ parameters.Valid

def Parameters.Valid : Parameters → Prop
  | .nil => True
  | .cons specifiers d rest => specifiers ≠ [] ∧ d.Valid ∧ rest.Valid

end

end Tokens

section Meaning

inductive NameKind
  | classType | enumerationType
deriving DecidableEq, Repr

/-- The types that words stand for, in any order. -/
def fundamentalTypes : List (List TypeWord × FundamentalId) :=
  [([.char], .char), ([.signed, .char], .signedChar), ([.unsigned, .char], .unsignedChar),
    ([.short], .shortInt), ([.short, .int], .shortInt), ([.signed, .short], .shortInt),
    ([.signed, .short, .int], .shortInt), ([.unsigned, .short], .unsignedShortInt),
    ([.unsigned, .short, .int], .unsignedShortInt), ([.int], .int), ([.signed], .int),
    ([.signed, .int], .int), ([.unsigned], .unsignedInt), ([.unsigned, .int], .unsignedInt),
    ([.long], .longInt), ([.long, .int], .longInt), ([.signed, .long], .longInt),
    ([.signed, .long, .int], .longInt), ([.unsigned, .long], .unsignedLongInt),
    ([.unsigned, .long, .int], .unsignedLongInt), ([.long, .long], .longLongInt),
    ([.long, .long, .int], .longLongInt), ([.signed, .long, .long], .longLongInt),
    ([.signed, .long, .long, .int], .longLongInt),
    ([.unsigned, .long, .long], .unsignedLongLongInt),
    ([.unsigned, .long, .long, .int], .unsignedLongLongInt), ([.wcharT], .wChar_t),
    ([.bool], .bool), ([.float], .float), ([.double], .double), ([.long, .double], .longDouble),
    ([.complexFloat], .complexFloat), ([.complexDouble], .complexDouble),
    ([.complexLongDouble], .complexLongDouble), ([.void], .void)]

def fundamentalOf (words : List TypeWord) : Option FundamentalId :=
  (fundamentalTypes.find? fun row => row.1.isPerm words).map Prod.snd

def Specifier.isCv : Specifier → Bool
  | .cv _ => true
  | _ => false

def Specifier.word? : Specifier → Option TypeWord
  | .word w => some w
  | _ => none

/-- The type of the specifiers that are no qualifiers. -/
def simpleType (kind : String → NameKind) : List Specifier → Option TypeTerm
  | [.named n] =>
    match kind n with
    | .classType => some (.classType n)
    | .enumerationType => some (.enumerationType n)
  | specifiers => do
    let words ← specifiers.mapM Specifier.word?
    let id ← fundamentalOf words
    pure (.fundamentalType id)

/-- The type before the declarator. -/
def specifiersType (kind : String → NameKind) (specifiers : List Specifier) : Option CvTerm := do
  let type ← simpleType kind (specifiers.filter fun s => !s.isCv)
  pure (.mk type (Specifier.cv .const ∈ specifiers) (Specifier.cv .volatile ∈ specifiers))

/-- A single unnamed `void` stands for no parameters. -/
def Parameters.isVoid : Parameters → Bool
  | .cons [.word .void] .empty .nil => true
  | _ => false

variable (kind : String → NameKind)

mutual

/-- The type of the declared name, from the type before the declarator. -/
def Declarator.typeOf : Declarator → CvTerm → Option CvTerm
  | .empty => fun t => some t
  | .identifier _ => fun t => some t
  | .group d => fun t => d.typeOf t
  | .pointer cv d => fun t =>
    d.typeOf (.mk (.pointerType t) (CvQualifier.const ∈ cv) (CvQualifier.volatile ∈ cv))
  | .reference d => fun t => d.typeOf (.mk (.referenceType t) false false)
  | .memberPointer classType cv d => fun t =>
    match kind classType with
    | .classType => d.typeOf (.mk (.pointerToMemberType t classType) (CvQualifier.const ∈ cv)
        (CvQualifier.volatile ∈ cv))
    | .enumerationType => none
  | .array d length => fun t => d.typeOf (.mk (.arrayType t length) false false)
  | .function d parameters cv => fun t => do
    let arguments ← if parameters.isVoid then some [] else parameters.types
    d.typeOf (.mk (.functionType t arguments) (CvQualifier.const ∈ cv)
      (CvQualifier.volatile ∈ cv))

def Parameters.types : Parameters → Option (List CvTerm)
  | .nil => some []
  | .cons specifiers d rest => do
    let t ← specifiersType kind specifiers
    let argument ← d.typeOf t
    let arguments ← rest.types
    pure (argument :: arguments)

end

/-- The name that is declared, empty in an abstract declarator. -/
def Declarator.name : Declarator → List Char
  | .empty => []
  | .identifier x => x
  | .group d => d.name
  | .pointer _ d => d.name
  | .reference d => d.name
  | .memberPointer _ _ d => d.name
  | .array d _ => d.name
  | .function d _ _ => d.name

/-- The text is a declaration of the name with the type. -/
def Reads (s : Printed) (name : List Char) (t : CvTerm) : Prop :=
  ∃ (specifiers : List Specifier) (d : Declarator), specifiers ≠ [] ∧ d.Valid ∧
    lex s = specifiers.flatMap Specifier.tokens ++ d.tokens ∧ d.name = name ∧
    (specifiersType kind specifiers).bind (d.typeOf kind) = some t

end Meaning

end CableSwig.CxxTypes.DeclaratorGrammar
