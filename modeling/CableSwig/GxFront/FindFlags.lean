import CableSwig.Lib.StdString
import CableSwig.Lib.StringReplace

/-!
# The flags that simulate a GCC

`FindFlagsGCC` asks a compiler for its predefined macros and for its include paths, and writes one
flag string from both answers. The answers are texts here.
-/
namespace CableSwig.GxFront.FindFlags

open CableSwig.Lib.StdString
open CableSwig.Lib.StringReplace

/-- What the program asks for: the answers to the two runs of the compiler, empty where a run
fails, the place of the support headers, and the home directories. -/
structure System where
  macroReport : Text
  verboseReport : Text
  supportPath : Text
  getEnvHome : Option Text
  getpwnam : Text → Option Text

section SystemTools

/-- The pieces of a text. A separator that stands where a piece starts belongs to the piece. -/
def pieces (sep : Char) : Text → List Text
  | [] => [[]]
  | c :: s =>
    match _h : s.dropWhile (· ≠ sep) with
    | [] => [c :: s]
    | _ :: rest => (c :: s.takeWhile (· ≠ sep)) :: pieces sep rest
termination_by s => s.length
decreasing_by
  have hlen := List.length_dropWhile_le (· ≠ sep) s
  rw [_h] at hlen
  simp only [List.length_cons] at hlen ⊢
  omega

def splitString (s : Text) (sep : Char) : List Text := if s = [] then [] else pieces sep s

def contains (word s : Text) : Bool := (occurrence word s).isSome

/-- A backslash that does not escape a blank becomes a slash. -/
def convertSlashes : Text → Text
  | [] => []
  | c :: s => (if c = '\\' ∧ s.head? ≠ some ' ' then '/' else c) :: convertSlashes s

/-- `~` and `~/` are the home directory, `~user` the one of a user. -/
def expandHome (sys : System) (path : Text) : Text :=
  match path with
  | '~' :: rest =>
    if rest.head? = some '/' ∨ rest = [] then
      match sys.getEnvHome with
      | some home => home ++ rest
      | none => path
    else
      match sys.getpwnam (rest.takeWhile (· ≠ '/')) with
      | some dir => dir ++ rest.dropWhile (· ≠ '/')
      | none => path
  | _ => path

/-- One slash at the end goes away, except in `c:/`. -/
def dropTrailingSlash (path : Text) : Text :=
  if 1 < path.length ∧ path.getLast? = some '/' ∧ ¬ (path.length = 3 ∧ path[1]? = some ':') then
    path.dropLast
  else path

def convertToUnixSlashes (sys : System) (path : Text) : Text :=
  let slashed := convertSlashes path
  let single := if contains "//".toList path.tail then replaceAll "//".toList ['/'] slashed
    else slashed
  dropTrailingSlash (expandHome sys single)

end SystemTools

section Macros

/-- An Apple extension that gccxml does not know. -/
def blocks : Text := "__BLOCKS__".toList

def gnuc : Text := "__GNUC__".toList

def gnucMinor : Text := "__GNUC_MINOR__".toList

/-- `[A-Za-z_][A-Za-z0-9_()]*` -/
def isMacroName : Text → Bool
  | [] => false
  | c :: s => (c.isAlpha || c = '_') && s.all fun d => d.isAlphanum || d = '_' || d = '(' || d = ')'

/-- A name, a blank and the rest. -/
def nameAndValue (s : Text) : Option (Text × Text) :=
  match s.dropWhile (· ≠ ' ') with
  | [] => none
  | _ :: value =>
    if isMacroName (s.takeWhile (· ≠ ' ')) then some (s.takeWhile (· ≠ ' '), value) else none

/-- A match of `#define ([A-Za-z_][A-Za-z0-9_()]*) (.*)` at the start of a text. -/
def defineAt (s : Text) : Option (Text × Text) :=
  if "#define ".toList <+: s then nameAndValue (s.drop 8) else none

/-- The first match in a text. -/
def findDefine : Text → Option (Text × Text)
  | [] => none
  | c :: s =>
    match defineAt (c :: s) with
    | some m => some m
    | none => findDefine s

def digitsValue (s : Text) : Nat :=
  (s.takeWhile Char.isDigit).foldl (fun n c => 10 * n + (c.toNat - '0'.toNat)) 0

/-- The number at the start of a text, after blanks. -/
def atoi (s : Text) : Int :=
  match s.dropWhile isSpace with
  | '-' :: digits => -(digitsValue digits : Int)
  | '+' :: digits => digitsValue digits
  | digits => digitsValue digits

structure Found where
  macros : Text := []
  major : Int := -1
  minor : Int := -1

def addMacro (found : Found) (name value : Text) : Found where
  macros := (if found.macros = [] then "-D".toList else found.macros ++ " -D".toList) ++
    name ++ "='".toList ++ value ++ "'".toList
  major := if found.major = -1 ∧ name = gnuc then atoi value else found.major
  minor := if found.minor = -1 ∧ name = gnucMinor then atoi value else found.minor

/-- One line of the report. -/
def readMacro (found : Found) (line : Text) : Found :=
  match findDefine line with
  | none => found
  | some (name, value) =>
    if name = blocks then found else addMacro found name value

def findMacros (sys : System) : Found := (splitString sys.macroReport '\n').foldl readMacro {}

end Macros

section Includes

structure Includes where
  collecting : Bool := false
  text : Text := []

/-- The path on a line of the list. -/
def includePath (sys : System) (line : Text) : Text :=
  convertToUnixSlashes sys (line.dropWhile (· = ' '))

def pathFlag (path : Text) : Text :=
  if contains "/Frameworks".toList path then "-F".toList else "-isystem".toList

def addPath (text path : Text) : Text :=
  (if text = [] then [] else text ++ [' ']) ++ pathFlag path ++ "\"".toList ++ path ++ "\"".toList

/-- One line of the report. The list of paths goes on to the first line that does not start with a
blank or a slash. -/
def readInclude (sys : System) (includes : Includes) (line : Text) : Includes :=
  if includes.collecting then
    if line.head? = some ' ' ∨ line.head? = some '/' then
      { includes with text := addPath includes.text (includePath sys line) }
    else { includes with collecting := false }
  else if contains "#include <...".toList line then { includes with collecting := true }
  else includes

def findIncludes (sys : System) : Text :=
  ((splitString sys.verboseReport '\n').foldl (readInclude sys) {}).text

end Includes

section Flags

structure Version where
  major : Int
  minor : Int
  deriving DecidableEq

/-- The GCC 4.0 of RedHat with the headers of 3.4. -/
def effectiveVersion (found : Found) (includes : Text) : Version :=
  if found.major = 4 ∧ contains "c++/3.4".toList includes then ⟨3, 4⟩
  else ⟨found.major, found.minor⟩

def number (n : Int) : Text := (toString n).toList

def wrapper (supportPath directory includes : Text) : Text :=
  "-iwrapper".toList ++ '"' :: (supportPath ++ '/' :: (directory ++ '"' :: ' ' :: includes))

/-- The include flags with the wrapper headers in front of them. -/
def wrapped (supportPath : Text) (version : Version) (includes : Text) : Text :=
  if version.major < 3 then
    let includes := wrapper supportPath "2.95".toList includes
    if version.minor = 96 then wrapper supportPath "2.96".toList includes else includes
  else if 4 ≤ version.major then
    wrapper supportPath (number version.major ++ ".".toList ++ number version.minor) includes
  else if 4 ≤ version.minor then wrapper supportPath "3.4".toList includes
  else if version.minor = 3 then wrapper supportPath "3.3".toList includes
  else if version.minor = 2 then wrapper supportPath "3.2".toList includes
  else if version.minor = 1 then wrapper supportPath "3.1".toList includes
  else if version.minor = 0 then wrapper supportPath "3.0".toList includes
  else includes

def special (version : Version) : Text :=
  if 4 ≤ version.major ∨ (version.major = 3 ∧ 3 ≤ version.minor) then
    "-include".toList ++ ' ' :: '"' :: ("gccxml_builtins.h".toList ++ ['"'])
  else []

def addFlags (flags more : Text) : Text :=
  if more = [] then flags else if flags = [] then more else flags ++ ' ' :: more

/-- The flag string. `none` where a version number is not found or the string is empty. -/
def findFlags (sys : System) : Option Text :=
  let found := findMacros sys
  if found.major = -1 ∨ found.minor = -1 then none
  else
    let includes := findIncludes sys
    let version := effectiveVersion found includes
    let flags := addFlags (addFlags found.macros (wrapped sys.supportPath version includes))
      (special version)
    if flags = [] then none else some flags

end Flags

end CableSwig.GxFront.FindFlags
