import CableSwig.CxxTypes.Terms

/-!
# Printing declarations

`GenerateName` and `GenerateDeclaration` build a declaration from the inside out: each
constructor puts its part of the declarator around the text for the outer types.
-/
namespace CableSwig.CxxTypes.DeclarationPrinter

/-- A piece of printed text. The name of a class or an enumeration is one piece. -/
inductive Symbol
  | char (c : Char)
  | name (n : String)
deriving DecidableEq, Repr

abbrev Printed := List Symbol

def text (s : String) : Printed := s.toList.map Symbol.char

/-- `GetLeftCvString`. -/
def getLeftCvString : Bool → Bool → Printed
  | true, true => text "const volatile "
  | true, false => text "const "
  | false, true => text "volatile "
  | false, false => []

/-- `GetRightCvString`. -/
def getRightCvString : Bool → Bool → Printed
  | true, true => text " const volatile"
  | true, false => text " const"
  | false, true => text " volatile"
  | false, false => []

/-- The first character of the text. -/
def firstChar : Printed → Option Char
  | [] => none
  | .char c :: _ => some c
  | .name n :: _ => n.toList.head?

/-- A character that can be part of an identifier or a number. -/
def isWordChar (c : Char) : Bool :=
  ('A' ≤ c && c ≤ 'Z') || ('a' ≤ c && c ≤ 'z') || ('0' ≤ c && c ≤ '9') || c = '_'

/-- `PrepareOuterStringForPostfix`. -/
def prepareOuterStringForPostfix (outer : Printed) : Printed :=
  match firstChar outer with
  | some first => if isWordChar first || first = ':' then .char ' ' :: outer else outer
  | none => outer

/-- `fundamentalTypeNames`. -/
def fundamentalTypeName : FundamentalId → String
  | .unsignedChar => "unsigned char"
  | .unsignedShortInt => "unsigned short"
  | .unsignedInt => "unsigned int"
  | .unsignedLongInt => "unsigned long"
  | .unsignedLongLongInt => "unsigned long long"
  | .signedChar => "signed char"
  | .char => "char"
  | .shortInt => "short"
  | .int => "int"
  | .longInt => "long"
  | .longLongInt => "long long"
  | .wChar_t => "wchar_t"
  | .bool => "bool"
  | .float => "float"
  | .double => "double"
  | .longDouble => "long double"
  | .complexFloat => "std::complex<float>"
  | .complexDouble => "std::complex<double>"
  | .complexLongDouble => "std::complex<long double>"
  | .void => "void"

/-- `GenerateLengthString`. -/
def generateLengthString (length : Nat) : Printed := (Nat.toDigits 10 length).map Symbol.char

mutual

/-- `GenerateName`, and `GenerateDeclaration` where `declaration` is set. The two differ for
arrays and functions only. -/
def generate : TypeTerm → Bool → Printed → Bool → Bool → Printed
  | .arrayType elementType length => fun declaration outer isConst isVolatile =>
    let outerString := (if declaration then outer else text "(" ++ outer ++ text ")") ++
      text "[" ++ generateLengthString length ++ text "]"
    generateCv elementType outerString isConst isVolatile
  | .classType name => fun _ outer isConst isVolatile =>
    getLeftCvString isConst isVolatile ++ .name name :: prepareOuterStringForPostfix outer
  | .enumerationType name => fun _ outer isConst isVolatile =>
    getLeftCvString isConst isVolatile ++ .name name :: prepareOuterStringForPostfix outer
  | .fundamentalType id => fun _ outer isConst isVolatile =>
    getLeftCvString isConst isVolatile ++ text (fundamentalTypeName id) ++
      prepareOuterStringForPostfix outer
  | .functionType returnType arguments => fun declaration outer isConst _ =>
    let argumentString := generateArgumentString arguments
    let outerString := if declaration then
        if outer = [] then
          text "((" ++ argumentString ++ text "))" ++ getRightCvString isConst false
        else outer ++ text "(" ++ argumentString ++ text ")" ++ getRightCvString isConst false
      else text "(" ++ outer ++ text ")( " ++ argumentString ++ text " )" ++
        getRightCvString isConst false
    generateCv returnType outerString false false
  | .pointerType pointedToType => fun _ outer isConst isVolatile =>
    let outerString := text "*" ++ getRightCvString isConst isVolatile ++
      prepareOuterStringForPostfix outer
    generateCv pointedToType outerString false false
  | .pointerToMemberType pointedToType classType => fun _ outer isConst isVolatile =>
    let outerString := .name classType :: text "::*" ++ getRightCvString isConst isVolatile ++
      prepareOuterStringForPostfix outer
    generateCv pointedToType outerString false false
  | .referenceType referencedType => fun _ outer _ _ =>
    let outerString := text "&" ++ prepareOuterStringForPostfix outer
    generateCv referencedType outerString false false

/-- `CvQualifiedType::GenerateName`. -/
def generateCv : CvTerm → Printed → Bool → Bool → Printed
  | .mk type c v => fun outer isConst isVolatile =>
    generate type false outer (isConst || c) (isVolatile || v)

/-- `GetName` of a `CvQualifiedType`. -/
def getName : CvTerm → Printed
  | .mk type c v => generate type true [] c v

/-- `GenerateArgumentString`. -/
def generateArgumentString : List CvTerm → Printed
  | [] => []
  | argument :: arguments =>
    getName argument ++ generateMoreArguments arguments

/-- The loop of `GenerateArgumentString`. -/
def generateMoreArguments : List CvTerm → Printed
  | [] => []
  | argument :: arguments =>
    text ", " ++ getName argument ++ generateMoreArguments arguments

end

/-- `CvQualifiedType::GenerateDeclaration`. -/
def generateDeclaration (t : CvTerm) (name : Printed) : Printed :=
  generate t.type true name t.isConst t.isVolatile

theorem getName_eq (t : CvTerm) : getName t = generateDeclaration t [] := by
  cases t
  rfl

example : generateDeclaration (.mk (.pointerType (.mk (.arrayType (.mk (.fundamentalType .int)
    true false) 3) false false)) false false) (text "x") = text "const int(* x)[3]" := by decide

end CableSwig.CxxTypes.DeclarationPrinter
