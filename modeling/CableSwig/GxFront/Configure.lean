import CableSwig.Lib.StdString

/-!
# The settings of the front end

`gxConfiguration` takes its settings from the command line, the environment and a configuration
file, each one where no earlier source has given it. What it prints is left out.
-/
namespace CableSwig.GxFront.Configure

open CableSwig.Lib.StdString

/-- The settings with a value of their own. The name of the configuration file is not one. -/
inductive Setting
  | compiler | cxxflags | executable | cpp | root | flags | userFlags
  deriving DecidableEq

/-- The name of a setting in the environment and in the configuration file. -/
def Setting.key : Setting → Text
  | .compiler => "GCCXML_COMPILER".toList
  | .cxxflags => "GCCXML_CXXFLAGS".toList
  | .executable => "GCCXML_EXECUTABLE".toList
  | .cpp => "GCCXML_CPP".toList
  | .root => "GCCXML_ROOT".toList
  | .flags => "GCCXML_FLAGS".toList
  | .userFlags => "GCCXML_USER_FLAGS".toList

structure Configuration where
  config : Text := []
  settings : Setting → Text := fun _ => []
  haveCxxflags : Bool := false
  arguments : List Text := []
  helpFlag : Bool := false
  versionFlag : Bool := false
  printFlag : Bool := false
  preprocessFlag : Bool := false
  debugFlag : Bool := false
  manFlag : Bool := false
  copyrightFlag : Bool := false
  helpHTMLFlag : Bool := false

/-- What is outside of the program: the environment, the files that are there, and the contents
of those that can be opened. The last two come from `FindRoots`. -/
structure System where
  getEnv : Text → Option Text
  fileExists : Text → Bool
  file : Text → Option Text
  collapseDirectory : Text → Text
  dataRoot : Text
  runningInBuildTree : Bool

namespace Configuration

/-- Assign to a setting. There is a flag for `cxxflags`. -/
def set (s : Setting) (value : Text) (c : Configuration) : Configuration :=
  { c with
    settings := fun t => if t = s then value else c.settings t
    haveCxxflags := c.haveCxxflags || s = .cxxflags }

/-- The test that comes before a setting is taken from somewhere. -/
def has (c : Configuration) (s : Setting) : Bool :=
  if s = .cxxflags then c.haveCxxflags else !(c.settings s).isEmpty

/-- Take a value for a setting, if there is none yet. -/
def offer (s : Setting) (value : Text) (c : Configuration) : Configuration :=
  if c.has s then c else c.set s value

end Configuration

section CommandLine

/-- The blanks that `ReadArgumentFile` strips. -/
def argumentBlanks : Text := " \t".toList

/-- The options in an argument file. -/
def readArguments (content : Text) : List Text :=
  (lines content).filterMap fun option =>
    let first := findFirstNotOf option argumentBlanks
    let last := findLastNotOf option argumentBlanks
    if first ≠ npos && last ≠ npos then
      let option := substr option first (addSize (subSize last first) 1)
      if option.head? ≠ some '#' then some option else none
    else none

/-- `ReadArgumentFile`. -/
def readArgumentFile (sys : System) (fname : Text) (c : Configuration) : Option Configuration :=
  (sys.file fname).map fun content => { c with arguments := c.arguments ++ readArguments content }

/-- The setting that an option is for. -/
def settingOption (arg : Text) : Option Setting :=
  if arg = "--gccxml-compiler".toList then some .compiler
  else if arg = "--gccxml-cxxflags".toList then some .cxxflags
  else if arg = "--gccxml-executable".toList then some .executable
  else if arg = "--gccxml-cpp".toList then some .cpp
  else if arg = "--gccxml-root".toList then some .root
  else none

/-- The other options that take an argument. -/
inductive OtherOption
  | config | gccOptions | output
  deriving DecidableEq

def otherOption (arg : Text) : Option OtherOption :=
  if arg = "--gccxml-config".toList then some .config
  else if arg = "--gccxml-gcc-options".toList then some .gccOptions
  else if arg = "-o".toList then some .output
  else none

/-- An option without argument, or something that is passed on. -/
def processFlag (arg : Text) (c : Configuration) : Configuration :=
  if arg = "--help".toList then { c with helpFlag := true }
  else if arg = "--version".toList then { c with versionFlag := true }
  else if arg = "--print".toList then { c with printFlag := true }
  else if arg = "--preprocess".toList || arg = "-E".toList then { c with preprocessFlag := true }
  else if arg = "--debug".toList then { c with debugFlag := true }
  else if arg = "--man".toList then { c with manFlag := true }
  else if arg = "--copyright".toList then { c with copyrightFlag := true }
  else if arg = "--help-html".toList then { c with helpHTMLFlag := true }
  -- "-c" is accepted and ignored.
  else if arg = "-c".toList then c
  else { c with arguments := c.arguments ++ [arg] }

def processOther (sys : System) (option : OtherOption) (value : Text) (c : Configuration) :
    Option Configuration :=
  match option with
  | .config => some { c with config := value }
  | .gccOptions => readArgumentFile sys value c
  | .output => some { c with arguments := c.arguments ++ ["-fxml=".toList ++ value] }

/-- `ProcessCommandLine`. An option that requires an argument fails at the end of the line. -/
def processCommandLine (sys : System) : List Text → Configuration → Option Configuration
  | [], c => some c
  | arg :: rest, c =>
    match settingOption arg, otherOption arg, rest with
    | some _, _, [] => none
    | some s, _, value :: rest => processCommandLine sys rest (c.set s value)
    | none, some _, [] => none
    | none, some option, value :: rest =>
      (processOther sys option value c).bind (processCommandLine sys rest)
    | none, none, rest => processCommandLine sys rest (processFlag arg c)
termination_by args => args.length

end CommandLine

section Environment

/-- One of the checks in `CheckEnvironment` and `CheckCxxEnvironment`. -/
def checkVariable (sys : System) (s : Setting) (name : Text) (c : Configuration) : Configuration :=
  match sys.getEnv name with
  | some value => c.offer s value
  | none => c

/-- `CheckEnvironment`. -/
def checkEnvironment (sys : System) (c : Configuration) : Configuration :=
  let c := if c.config = [] then { c with config := (sys.getEnv "GCCXML_CONFIG".toList).getD [] }
    else c
  let c := checkVariable sys .compiler "GCCXML_COMPILER".toList c
  let c := checkVariable sys .cxxflags "GCCXML_CXXFLAGS".toList c
  let c := checkVariable sys .executable "GCCXML_EXECUTABLE".toList c
  let c := checkVariable sys .cpp "GCCXML_CPP".toList c
  let c := checkVariable sys .root "GCCXML_ROOT".toList c
  let c := checkVariable sys .flags "GCCXML_FLAGS".toList c
  checkVariable sys .userFlags "GCCXML_USER_FLAGS".toList c

/-- `CheckCxxEnvironment`. -/
def checkCxxEnvironment (sys : System) (c : Configuration) : Configuration :=
  let c := checkVariable sys .compiler "CXX".toList c
  checkVariable sys .cxxflags "CXXFLAGS".toList c

end Environment

section ConfigFile

/-- The double quote. -/
def quote : Char := Char.ofNat 34

/-- The blanks that `ParseConfigLine` strips. -/
def configBlanks : Text := " \t\r".toList

/-- `ParseConfigLine`, with the key and the value of a setting. -/
def parseConfigLine (line : Text) : Option (Text × Text) :=
  let lpos := findFirstNotOf line configBlanks
  -- Comments and blank lines are ignored.
  if lpos = npos then none
  else if (line.drop lpos).head? = some '#' then none
  else
    let rpos := find line '=' lpos
    if rpos = npos then none
    else
      let key := substr line lpos (subSize rpos lpos)
      let rawValue := substr line (addSize rpos 1) npos
      let lpos := findFirstNotOf rawValue configBlanks
      let rpos := findLastNotOf rawValue configBlanks
      if lpos = npos || rpos = npos then some (key, [])
      else
        let strippedValue := substr rawValue lpos (addSize (subSize rpos lpos) 1)
        if 2 ≤ rawValue.length && strippedValue.head? = some quote &&
            strippedValue.getLast? = some quote then
          some (key, substr strippedValue 1 (subSize strippedValue.length 2))
        else some (key, strippedValue)

/-- The setting with a key. -/
def settingOfKey (key : Text) : Option Setting :=
  if key = "GCCXML_COMPILER".toList then some .compiler
  else if key = "GCCXML_CXXFLAGS".toList then some .cxxflags
  else if key = "GCCXML_EXECUTABLE".toList then some .executable
  else if key = "GCCXML_CPP".toList then some .cpp
  else if key = "GCCXML_ROOT".toList then some .root
  else if key = "GCCXML_FLAGS".toList then some .flags
  else if key = "GCCXML_USER_FLAGS".toList then some .userFlags
  else none

/-- The character that ends a C string. -/
def nul : Char := Char.ofNat 0

/-- What a line of the configuration file says. -/
def lineSetting (line : Text) : Option (Setting × Text) :=
  match parseConfigLine (line.takeWhile (· ≠ nul)) with
  | some (key, value) => (settingOfKey key).map fun s => (s, value)
  | none => none

/-- One round of the loop in `ReadConfigFile`. -/
def readConfigLine (c : Configuration) (buf : Text) : Configuration :=
  match lineSetting buf with
  | some (s, value) => c.offer s value
  | none => c

/-- The size of the buffer for a line. -/
def bufferSize : Nat := 4096

/-- `ReadConfigFile`. -/
def readConfigFile (sys : System) (c : Configuration) : Option Configuration :=
  if !sys.fileExists c.config then none
  else (sys.file c.config).map fun content =>
    (linesRead bufferSize ⟨content, false, false⟩).foldl readConfigLine c

/-- `FindConfigFile`. -/
def findConfigFile (sys : System) : Option Text :=
  let home := (sys.getEnv "HOME".toList).getD []
  let homeConfig := sys.collapseDirectory (home ++ "/.gccxml/config".toList)
  let dataConfig := sys.dataRoot ++ "/gccxml_config".toList
  if !sys.runningInBuildTree && home ≠ [] && sys.fileExists homeConfig then some homeConfig
  else if sys.fileExists dataConfig then some dataConfig
  else none

/-- `CheckConfigFile`. -/
def checkConfigFile (sys : System) (c : Configuration) : Option Configuration :=
  if c.config = [] then
    match findConfigFile sys with
    | some config => readConfigFile sys { c with config := config }
    | none => some c
  else readConfigFile sys c

end ConfigFile

/-- `Configure` up to the search for defaults. Nothing has been assigned to `checkedEnvironment`
where it is declared. -/
def configure (sys : System) (checkedEnvironment : Bool) (args : List Text) :
    Option Configuration := do
  let c ← processCommandLine sys args {}
  let (c, checkedEnvironment) :=
    if c.config = [] then (checkEnvironment sys c, true) else (c, checkedEnvironment)
  let c ← checkConfigFile sys c
  let c := if !checkedEnvironment then checkEnvironment sys c else c
  some (checkCxxEnvironment sys c)

end CableSwig.GxFront.Configure
