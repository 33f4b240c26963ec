import CableSwig.GxFront.Configure
import Mathlib.Data.Bool.Basic

/-!
# Which source a setting comes from

The sources that give a setting, in the order of their precedence, against those that `Configure`
looks at. It misses the lines of the configuration file from the first one on that its buffer
cannot hold, and may miss the environment if the file has been named on the command line.
-/
namespace CableSwig.GxFront.SettingPrecedence

open CableSwig.Lib.StdString
open CableSwig.GxFront.Configure

section Sources

/-- Any value settles `cxxflags`, and each non-empty one another setting. -/
def provides (s : Setting) (value : Text) : Bool := s = .cxxflags || value ≠ []

def firstProvided (s : Setting) (values : List Text) : Option Text := values.find? (provides s)

/-- The first value that settles the setting. -/
def outcome (s : Setting) (values : List Text) : Text := (firstProvided s values).getD []

def takesArgument (arg : Text) : Bool := (settingOption arg).isSome || (otherOption arg).isSome

/-- The options of a command line that take an argument, with their arguments. -/
def optionsWithValues : List Text → List (Text × Text)
  | arg :: value :: rest =>
    if takesArgument arg then (arg, value) :: optionsWithValues rest
    else optionsWithValues (value :: rest)
  | _ => []

/-- The arguments of the options for a setting. -/
def optionValues (s : Setting) (args : List Text) : List Text :=
  (optionsWithValues args).filterMap fun o => if settingOption o.1 = some s then some o.2 else none

/-- The value of a setting on the command line is the last one. -/
def commandLineValue (s : Setting) (args : List Text) : List Text :=
  (optionValues s args).getLast?.toList

/-- The configuration files that are named on the command line. -/
def configValues (args : List Text) : List Text :=
  (optionsWithValues args).filterMap fun o =>
    if settingOption o.1 = none ∧ otherOption o.1 = some .config then some o.2 else none

/-- The configuration file that the command line names, if it is not empty. -/
def commandLineConfig (args : List Text) : Text := (configValues args).getLast?.getD []

def environmentValue (sys : System) (s : Setting) : List Text := (sys.getEnv s.key).toList

/-- `CXX` and `CXXFLAGS`. -/
def fallbackValue (sys : System) : Setting → List Text
  | .compiler => (sys.getEnv "CXX".toList).toList
  | .cxxflags => (sys.getEnv "CXXFLAGS".toList).toList
  | _ => []

/-- The values that lines of a configuration file have for a setting. -/
def lineValues (s : Setting) (ls : List Text) : List Text :=
  ls.filterMap fun l => (lineSetting l).bind fun o => if o.1 = s then some o.2 else none

/-- The line gives the setting. -/
def isLineFor (s : Setting) (l : Text) : Bool := (lineSetting l).any fun o => o.1 = s

/-- The configuration file that is named on the command line or in the environment. -/
def configName (sys : System) (args : List Text) : Text :=
  if commandLineConfig args ≠ [] then commandLineConfig args
  else (sys.getEnv "GCCXML_CONFIG".toList).getD []

/-- The file with a name, or the one that is found if the name is empty. -/
def configFileName (sys : System) (name : Text) : Option Text :=
  if name = [] then findConfigFile sys else some name

/-- The lines of the configuration file, none if there is no file. -/
def configLinesOf (sys : System) (name : Text) : List Text :=
  match configFileName sys name with
  | some name => lines ((sys.file name).getD [])
  | none => []

def configLines (sys : System) (args : List Text) : List Text :=
  configLinesOf sys (configName sys args)

/-- The values for a setting, in the order of precedence, where the configuration file has these
lines. -/
def sources (sys : System) (args ls : List Text) (s : Setting) : List Text :=
  commandLineValue s args ++
    (if commandLineConfig args ≠ [] then lineValues s ls ++ environmentValue sys s
    else environmentValue sys s ++ lineValues s ls) ++
    fallbackValue sys s

/-- `Configure` obtains for each setting the value of the first source that provides one, whatever
`checkedEnvironment` holds when it is declared, and whatever lines for other settings the
configuration file has, in whatever places. -/
structure Precedence (sys : System) (args : List Text) : Prop where
  accepted : ∀ checked checked', (configure sys checked args).isSome =
    (configure sys checked' args).isSome
  settings : ∀ checked c, configure sys checked args = some c → ∀ s ls,
    ls.filter (isLineFor s) = (configLines sys args).filter (isLineFor s) →
      c.settings s = outcome s (sources sys args ls s)

theorem lineValues_filter (s : Setting) (ls : List Text) :
    lineValues s (ls.filter (isLineFor s)) = lineValues s ls := by
  induction ls with
  | nil => rfl
  | cons l ls ih =>
    by_cases hl : isLineFor s l = true
    · rw [List.filter_cons_of_pos hl]
      simp only [lineValues, List.filterMap_cons] at ih ⊢
      rw [ih]
    · rw [List.filter_cons_of_neg hl, ih, lineValues, lineValues]
      refine (List.filterMap_cons_none ?_).symm
      cases hset : lineSetting l with
      | none => rfl
      | some o => simpa [isLineFor, hset] using hl

/-- The lines for other settings do not matter. -/
theorem sources_congr (sys : System) (args : List Text) {s : Setting} {ls ls' : List Text}
    (h : ls.filter (isLineFor s) = ls'.filter (isLineFor s)) :
    sources sys args ls s = sources sys args ls' s := by
  rw [sources, sources, ← lineValues_filter s ls, ← lineValues_filter s ls', h]

end Sources

section CommandLine

theorem optionsWithValues_setting {arg : Text} {s : Setting} (h : settingOption arg = some s)
    (value : Text) (rest : List Text) :
    optionsWithValues (arg :: value :: rest) = (arg, value) :: optionsWithValues rest := by
  rw [optionsWithValues, if_pos (by rw [takesArgument, h]; rfl)]

theorem optionsWithValues_other {arg : Text} {o : OtherOption} (h : otherOption arg = some o)
    (value : Text) (rest : List Text) :
    optionsWithValues (arg :: value :: rest) = (arg, value) :: optionsWithValues rest := by
  rw [optionsWithValues, if_pos (by rw [takesArgument, h]; exact Bool.or_true _)]

theorem optionsWithValues_flag {arg : Text} (h : settingOption arg = none)
    (h' : otherOption arg = none) (rest : List Text) :
    optionsWithValues (arg :: rest) = optionsWithValues rest := by
  cases rest with
  | nil => rfl
  | cons value rest =>
    rw [optionsWithValues, if_neg (by rw [takesArgument, h, h']; exact Bool.false_ne_true)]

/-- A state with the values of the options after another one. -/
structure After (args : List Text) (c c' : Configuration) : Prop where
  config : c'.config = (configValues args).getLast?.getD c.config
  settings : ∀ s, c'.settings s = (optionValues s args).getLast?.getD (c.settings s)
  haveCxxflags : c'.haveCxxflags = (c.haveCxxflags || !(optionValues .cxxflags args).isEmpty)

theorem After.of_set {arg value : Text} {rest : List Text} {s : Setting} {c c' : Configuration}
    (hs : settingOption arg = some s) (h : After rest (c.set s value) c') :
    After (arg :: value :: rest) c c' := by
  have hconfig : configValues (arg :: value :: rest) = configValues rest := by
    rw [configValues, optionsWithValues_setting hs, List.filterMap_cons_none (by simp [hs])]
    rfl
  have hvalues : ∀ t, optionValues t (arg :: value :: rest) =
      (if s = t then [value] else []) ++ optionValues t rest := by
    intro t
    rw [optionValues, optionsWithValues_setting hs]
    by_cases hst : s = t
    · rw [List.filterMap_cons_some (by simp [hs, hst]; rfl), if_pos hst]
      rfl
    · rw [List.filterMap_cons_none (by simp [hs, hst]), if_neg hst]
      rfl
  refine ⟨?_, fun t => ?_, ?_⟩
  · rw [hconfig, h.config]
    rfl
  · rw [hvalues, h.settings]
    by_cases hst : s = t
    · subst hst
      rw [if_pos rfl, List.singleton_append, List.getLast?_cons, Option.getD_some]
      simp [Configuration.set]
    · rw [if_neg hst, List.nil_append]
      simp [Configuration.set, Ne.symm hst]
  · rw [hvalues, h.haveCxxflags]
    by_cases hst : s = .cxxflags
    · simp [Configuration.set, hst]
    · simp [Configuration.set, hst]

theorem After.of_other {sys : System} {arg value : Text} {rest : List Text} {o : OtherOption}
    {c d c' : Configuration} (hs : settingOption arg = none) (ho : otherOption arg = some o)
    (hd : processOther sys o value c = some d) (h : After rest d c') :
    After (arg :: value :: rest) c c' := by
  have hvalues : ∀ t, optionValues t (arg :: value :: rest) = optionValues t rest := by
    intro t
    rw [optionValues, optionsWithValues_other ho, List.filterMap_cons_none (by simp [hs])]
    rfl
  have hconfig : configValues (arg :: value :: rest) =
      (if o = .config then [value] else []) ++ configValues rest := by
    rw [configValues, optionsWithValues_other ho]
    by_cases hc : o = .config
    · rw [List.filterMap_cons_some (by simp [hs, ho, hc]; rfl), if_pos hc]
      rfl
    · rw [List.filterMap_cons_none (by simp [hs, ho, hc]), if_neg hc]
      rfl
  have hkept : d.settings = c.settings ∧ d.haveCxxflags = c.haveCxxflags ∧
      d.config = if o = .config then value else c.config := by
    cases o with
    | config =>
      obtain rfl := Option.some.inj hd
      exact ⟨rfl, rfl, rfl⟩
    | gccOptions =>
      obtain ⟨content, -, rfl⟩ := Option.map_eq_some_iff.mp hd
      exact ⟨rfl, rfl, rfl⟩
    | output =>
      obtain rfl := Option.some.inj hd
      exact ⟨rfl, rfl, rfl⟩
  obtain ⟨hsettings, hflag, hname⟩ := hkept
  refine ⟨?_, fun t => ?_, ?_⟩
  · rw [hconfig, h.config, hname]
    by_cases hc : o = .config
    · rw [if_pos hc, if_pos hc, List.singleton_append, List.getLast?_cons, Option.getD_some]
    · rw [if_neg hc, if_neg hc, List.nil_append]
  · rw [hvalues, h.settings, hsettings]
  · rw [hvalues, h.haveCxxflags, hflag]

/-- What options without arguments leave alone. -/
def Kept (c c' : Configuration) : Prop :=
  c'.config = c.config ∧ c'.settings = c.settings ∧ c'.haveCxxflags = c.haveCxxflags

theorem processFlag_kept (arg : Text) (c : Configuration) : Kept c (processFlag arg c) := by
  rw [processFlag]
  iterate 9 refine iteInduction (fun _ => ⟨rfl, rfl, rfl⟩) fun _ => ?_
  exact ⟨rfl, rfl, rfl⟩

theorem After.of_flag {arg : Text} {rest : List Text} {c c' : Configuration}
    (hs : settingOption arg = none) (ho : otherOption arg = none)
    (h : After rest (processFlag arg c) c') : After (arg :: rest) c c' := by
  obtain ⟨hconfig, hsettings, hflag⟩ := processFlag_kept arg c
  have hoptions := optionsWithValues_flag hs ho rest
  refine ⟨?_, fun t => ?_, ?_⟩
  · rw [configValues, hoptions, ← hconfig]
    exact h.config
  · rw [optionValues, hoptions, ← hsettings]
    exact h.settings t
  · rw [optionValues, hoptions, ← hflag]
    exact h.haveCxxflags

theorem processCommandLine_after (sys : System) (args : List Text) (c c' : Configuration)
    (h : processCommandLine sys args c = some c') : After args c c' := by
  fun_induction processCommandLine sys args c with
  | case1 c =>
    obtain rfl := Option.some.inj h
    exact ⟨rfl, fun _ => rfl, (Bool.or_false _).symm⟩
  | case2 => cases h
  | case3 arg c s value rest hs ih => exact .of_set hs (ih h)
  | case4 => cases h
  | case5 arg c o value rest ho hs ih =>
    obtain ⟨d, hd, h⟩ := Option.bind_eq_some_iff.mp h
    exact .of_other hs ho hd (ih d h)
  | case6 arg rest c ho hs ih => exact .of_flag hs ho (ih h)

end CommandLine

section Reads

/-- The settings are the outcomes of the values that have been read, in their order. -/
structure Reads (c : Configuration) (values : Setting → List Text) : Prop where
  settings : ∀ s, c.settings s = outcome s (values s)
  has : ∀ s, c.has s = (firstProvided s (values s)).isSome

theorem Reads.congr {c : Configuration} {values values' : Setting → List Text}
    (h : Reads c values) (heq : ∀ s, values s = values' s) : Reads c values' :=
  (funext heq : values = values') ▸ h

theorem firstProvided_append (s : Setting) (l l' : List Text) :
    firstProvided s (l ++ l') = (firstProvided s l).or (firstProvided s l') := by
  rw [firstProvided, List.find?_append, firstProvided, firstProvided]

theorem firstProvided_singleton (s : Setting) (value : Text) :
    firstProvided s [value] = if provides s value then some value else none := by
  rw [firstProvided, List.find?_singleton]

/-- The settings after the command line. -/
theorem Reads.of_commandLine {args : List Text} {c : Configuration} (h : After args {} c) :
    Reads c fun s => commandLineValue s args := by
  have hsettings : ∀ s, c.settings s = outcome s (commandLineValue s args) := by
    intro s
    rw [h.settings, commandLineValue]
    cases hlast : (optionValues s args).getLast? with
    | none => rfl
    | some value =>
      rw [Option.toList_some, outcome, firstProvided_singleton]
      split
      · rfl
      · rename_i hprovides
        have hempty : value = [] := by
          by_contra hne
          exact hprovides (by simp [provides, hne])
        rw [hempty]
        rfl
  refine ⟨hsettings, fun s => ?_⟩
  rw [Configuration.has, hsettings, outcome, commandLineValue]
  by_cases hs : s = .cxxflags
  · rw [if_pos hs, h.haveCxxflags, hs]
    cases hlast : (optionValues .cxxflags args).getLast? with
    | none =>
      rw [List.getLast?_eq_none_iff.mp hlast]
      rfl
    | some value =>
      have hne : optionValues .cxxflags args ≠ [] := fun hnil => by simp [hnil] at hlast
      rw [Option.toList_some, firstProvided_singleton, if_pos (by simp [provides])]
      simpa using hne
  · rw [if_neg hs]
    cases hlast : (optionValues s args).getLast? with
    | none => rfl
    | some value =>
      rw [Option.toList_some, firstProvided_singleton]
      by_cases hne : value = []
      · simp [provides, hs, hne]
      · simp [provides, hne]

theorem Reads.offer {c : Configuration} {values : Setting → List Text} (h : Reads c values)
    (s : Setting) (value : Text) :
    Reads (c.offer s value) fun t => values t ++ if s = t then [value] else [] := by
  have hhas := h.has s
  rw [Configuration.offer]
  split
  · rename_i hc
    rw [hc] at hhas
    obtain ⟨first, hfirst⟩ := Option.isSome_iff_exists.mp hhas.symm
    have hsame : ∀ t, firstProvided t (values t ++ if s = t then [value] else []) =
        firstProvided t (values t) := by
      intro t
      by_cases hst : s = t
      · subst hst
        rw [firstProvided_append, hfirst, Option.some_or]
      · rw [if_neg hst, List.append_nil]
    exact ⟨fun t => by rw [h.settings, outcome, outcome, hsame], fun t => by rw [h.has, hsame]⟩
  · rename_i hc
    rw [Bool.eq_false_iff.mpr hc] at hhas
    have hnone : firstProvided s (values s) = none := by
      cases hfirst : firstProvided s (values s) with
      | none => rfl
      | some first => rw [hfirst] at hhas; cases hhas
    refine ⟨fun t => ?_, fun t => ?_⟩
    · by_cases hst : s = t
      · subst hst
        rw [outcome, firstProvided_append, hnone, Option.none_or, if_pos rfl,
          firstProvided_singleton]
        by_cases hp : provides s value = true
        · simp [Configuration.set, hp]
        · have hempty : value = [] := by
            by_contra hne
            exact hp (by simp [provides, hne])
          simp only [hempty, Configuration.set, if_true]
          split <;> rfl
      · rw [if_neg hst, List.append_nil, ← h.settings]
        simp [Configuration.set, Ne.symm hst]
    · by_cases hst : s = t
      · subst hst
        rw [firstProvided_append, hnone, Option.none_or, if_pos rfl, firstProvided_singleton]
        by_cases hcxx : s = .cxxflags
        · simp [Configuration.has, Configuration.set, provides, hcxx]
        · by_cases hne : value = []
          · simp [Configuration.has, Configuration.set, provides, hcxx, hne]
          · simp [Configuration.has, Configuration.set, provides, hcxx, hne]
      · rw [if_neg hst, List.append_nil, ← h.has]
        by_cases hcxx : t = .cxxflags
        · subst hcxx
          simp [Configuration.has, Configuration.set, hst]
        · simp [Configuration.has, Configuration.set, hcxx, Ne.symm hst]

theorem Reads.checkVariable {c : Configuration} {values : Setting → List Text}
    (h : Reads c values) (sys : System) (s : Setting) (name : Text) :
    Reads (checkVariable sys s name c) fun t =>
      values t ++ if s = t then (sys.getEnv name).toList else [] := by
  rw [Configure.checkVariable]
  cases sys.getEnv name with
  | none => simpa using h
  | some value => exact h.offer s value

theorem Reads.with_config {c : Configuration} {values : Setting → List Text} (h : Reads c values)
    (config : Text) : Reads { c with config := config } values :=
  ⟨h.settings, h.has⟩

theorem Reads.checkEnvironment {c : Configuration} {values : Setting → List Text}
    (h : Reads c values) (sys : System) :
    Reads (checkEnvironment sys c) fun s => values s ++ environmentValue sys s := by
  have hconfig : Reads (if c.config = [] then
      { c with config := (sys.getEnv "GCCXML_CONFIG".toList).getD [] } else c) values := by
    split
    · exact h.with_config _
    · exact h
  have hall := ((((((hconfig.checkVariable sys .compiler Setting.compiler.key).checkVariable sys
    .cxxflags Setting.cxxflags.key).checkVariable sys .executable
    Setting.executable.key).checkVariable sys .cpp Setting.cpp.key).checkVariable sys .root
    Setting.root.key).checkVariable sys .flags Setting.flags.key).checkVariable sys .userFlags
    Setting.userFlags.key
  refine hall.congr fun s => ?_
  cases s <;> simp [environmentValue]

theorem Reads.checkCxxEnvironment {c : Configuration} {values : Setting → List Text}
    (h : Reads c values) (sys : System) :
    Reads (checkCxxEnvironment sys c) fun s => values s ++ fallbackValue sys s := by
  have hall := (h.checkVariable sys .compiler "CXX".toList).checkVariable sys .cxxflags
    "CXXFLAGS".toList
  refine hall.congr fun s => ?_
  cases s <;> simp [fallbackValue]

theorem Reads.readConfigLine {c : Configuration} {values : Setting → List Text}
    (h : Reads c values) (line : Text) :
    Reads (readConfigLine c line) fun s => values s ++ lineValues s [line] := by
  rw [Configure.readConfigLine]
  cases hline : lineSetting line with
  | none =>
    exact h.congr fun s => by simp [lineValues, hline]
  | some o =>
    obtain ⟨t, value⟩ := o
    refine (h.offer t value).congr fun s => ?_
    by_cases hts : t = s <;> simp [lineValues, hline, hts]

theorem Reads.readConfigLines {c : Configuration} {values : Setting → List Text}
    (h : Reads c values) (ls : List Text) :
    Reads (ls.foldl Configure.readConfigLine c) fun s => values s ++ lineValues s ls := by
  induction ls generalizing c values with
  | nil => exact h.congr fun s => by simp [lineValues]
  | cons line ls ih =>
    refine (ih (h.readConfigLine line)).congr fun s => ?_
    rw [List.append_assoc, lineValues, lineValues, ← List.filterMap_append]
    rfl

end Reads

section Configuring

variable (sys : System) (args : List Text)

/-- The lines that the loop in `ReadConfigFile` gets to. -/
def linesReached : List Text := (configLines sys args).takeWhile fun l => l.length < bufferSize

/-- The lines from the first one on that does not fit into the buffer. -/
def linesLeft : List Text := (configLines sys args).dropWhile fun l => l.length < bufferSize

/-- The values that `Configure` has read for certain before it may check the environment. -/
def earlierValues (s : Setting) : List Text :=
  commandLineValue s args ++ (if commandLineConfig args ≠ [] then [] else environmentValue sys s) ++
    lineValues s (linesReached sys args)

/-- The state after the configuration file. -/
def beforeEnvironment : Option Configuration := do
  let c ← processCommandLine sys args {}
  checkConfigFile sys (if c.config = [] then checkEnvironment sys c else c)

theorem configure_eq (checked : Bool) : configure sys checked args =
    (beforeEnvironment sys args).map fun c => checkCxxEnvironment sys
      (if commandLineConfig args ≠ [] ∧ checked = false then checkEnvironment sys c else c) := by
  rw [configure, beforeEnvironment]
  cases hc : processCommandLine sys args {} with
  | none => rfl
  | some c =>
    have hconfig : c.config = commandLineConfig args :=
      (processCommandLine_after sys args {} c hc).config
    simp only [Option.bind_eq_bind, Option.bind_some, hconfig]
    by_cases hnamed : commandLineConfig args = []
    · rw [if_pos hnamed, if_pos hnamed]
      cases checkConfigFile sys (checkEnvironment sys c) <;> simp [hnamed]
    · rw [if_neg hnamed, if_neg hnamed]
      cases checked <;> cases checkConfigFile sys c <;> simp [hnamed]

theorem checkEnvironment_config (c : Configuration) : (checkEnvironment sys c).config =
    if c.config = [] then (sys.getEnv "GCCXML_CONFIG".toList).getD [] else c.config := by
  have hoffer : ∀ s value (d : Configuration), (d.offer s value).config = d.config := by
    intro s value d
    rw [Configuration.offer]
    split <;> rfl
  have hcheck : ∀ s name (d : Configuration), (checkVariable sys s name d).config = d.config := by
    intro s name d
    rw [Configure.checkVariable]
    split
    · exact hoffer _ _ _
    · rfl
  simp only [checkEnvironment, hcheck]
  split <;> rfl

theorem Reads.readConfigFile {sys : System} {c c' : Configuration} {values : Setting → List Text}
    (h : Reads c values) (hread : readConfigFile sys c = some c') :
    Reads c' fun s => values s ++ lineValues s
      ((lines ((sys.file c.config).getD [])).takeWhile fun l => l.length < bufferSize) := by
  rw [Configure.readConfigFile] at hread
  split at hread
  · cases hread
  · obtain ⟨content, hcontent, rfl⟩ := Option.map_eq_some_iff.mp hread
    rw [hcontent, Option.getD_some, ← linesRead_eq bufferSize (by decide)]
    exact h.readConfigLines _

theorem Reads.checkConfigFile {sys : System} {c c' : Configuration}
    {values : Setting → List Text} (h : Reads c values)
    (hcheck : checkConfigFile sys c = some c') :
    Reads c' fun s => values s ++ lineValues s
      ((configLinesOf sys c.config).takeWhile fun l => l.length < bufferSize) := by
  rw [Configure.checkConfigFile] at hcheck
  rw [configLinesOf, configFileName]
  by_cases hempty : c.config = []
  · rw [if_pos hempty] at hcheck ⊢
    cases hfind : findConfigFile sys with
    | none =>
      rw [hfind] at hcheck
      obtain rfl := Option.some.inj hcheck
      exact h.congr fun s => by simp [lineValues]
    | some config =>
      rw [hfind] at hcheck
      exact (h.with_config config).readConfigFile hcheck
  · rw [if_neg hempty] at hcheck ⊢
    exact h.readConfigFile hcheck

/-- The settings after the configuration file. -/
theorem beforeEnvironment_reads {c : Configuration} (h : beforeEnvironment sys args = some c) :
    Reads c (earlierValues sys args) := by
  obtain ⟨d, hd, hcheck⟩ := Option.bind_eq_some_iff.mp h
  have hafter := processCommandLine_after sys args {} d hd
  have hconfig : d.config = commandLineConfig args := hafter.config
  have hreads := Reads.of_commandLine hafter
  by_cases hnamed : commandLineConfig args = []
  · rw [if_pos (hconfig.trans hnamed)] at hcheck
    have hname := checkEnvironment_config sys d
    rw [if_pos (hconfig.trans hnamed)] at hname
    refine ((hreads.checkEnvironment sys).checkConfigFile hcheck).congr fun s => ?_
    rw [hname, earlierValues, linesReached, configLines, configName, if_neg (not_not.mpr hnamed),
      if_neg (not_not.mpr hnamed)]
  · rw [if_neg (by rwa [hconfig])] at hcheck
    refine (hreads.checkConfigFile hcheck).congr fun s => ?_
    rw [hconfig, earlierValues, linesReached, configLines, configName, if_pos hnamed,
      if_pos hnamed, List.append_nil]

/-- The settings that `Configure` obtains. -/
theorem configure_reads {checked : Bool} {c : Configuration}
    (h : configure sys checked args = some c) : Reads c fun s =>
      earlierValues sys args s ++
        (if commandLineConfig args ≠ [] ∧ checked = false then environmentValue sys s else []) ++
        fallbackValue sys s := by
  rw [configure_eq] at h
  obtain ⟨d, hd, rfl⟩ := Option.map_eq_some_iff.mp h
  have hreads := beforeEnvironment_reads sys args hd
  split
  · exact (hreads.checkEnvironment sys).checkCxxEnvironment sys
  · refine (hreads.checkCxxEnvironment sys).congr fun s => ?_
    rw [List.append_nil]

end Configuring

section Exactly

variable (sys : System) (args : List Text)

/-- The command line is accepted, and the configuration file can be read if there is one. -/
structure Accepted : Prop where
  commandLine : (processCommandLine sys args {}).isSome = true
  configFile : ∀ name, configFileName sys (configName sys args) = some name →
    sys.fileExists name = true ∧ (sys.file name).isSome = true

/-- The sources that `Configure` may miss make no difference for a setting: it has a value from
an earlier one, or they give none but the one that the setting has anyway. -/
def Unaffected (s : Setting) : Prop :=
  (firstProvided s (earlierValues sys args s)).isSome = true ∨
    (∀ v, firstProvided s (lineValues s (linesLeft sys args)) = some v →
      v = outcome s (fallbackValue sys s)) ∧
    (commandLineConfig args ≠ [] → ∀ v, firstProvided s (environmentValue sys s) = some v →
      v = outcome s (fallbackValue sys s))

theorem lineValues_split (s : Setting) : lineValues s (configLines sys args) =
    lineValues s (linesReached sys args) ++ lineValues s (linesLeft sys args) := by
  rw [linesReached, linesLeft, lineValues, lineValues, lineValues, ← List.filterMap_append,
    List.takeWhile_append_dropWhile]

theorem checkConfigFile_isSome (c : Configuration) : (checkConfigFile sys c).isSome = true ↔
    ∀ name, configFileName sys c.config = some name →
      sys.fileExists name = true ∧ (sys.file name).isSome = true := by
  have hread : ∀ d : Configuration, (readConfigFile sys d).isSome = true ↔
      sys.fileExists d.config = true ∧ (sys.file d.config).isSome = true := by
    intro d
    rw [readConfigFile]
    cases sys.fileExists d.config <;> simp
  rw [checkConfigFile, configFileName]
  split
  · cases findConfigFile sys with
    | none => simp
    | some config => simp [hread]
  · simp [hread]

theorem isSome_iff_accepted (checked : Bool) :
    (configure sys checked args).isSome = true ↔ Accepted sys args := by
  rw [configure_eq, Option.isSome_map, beforeEnvironment]
  cases hd : processCommandLine sys args {} with
  | none =>
    have hnot : ¬ Accepted sys args := fun h => by simpa [hd] using h.commandLine
    simpa using hnot
  | some d =>
    have hconfig : d.config = commandLineConfig args :=
      (processCommandLine_after sys args {} d hd).config
    have hname : (if d.config = [] then checkEnvironment sys d else d).config =
        configName sys args := by
      rw [configName, hconfig]
      by_cases hnamed : commandLineConfig args = []
      · rw [if_pos hnamed, if_neg (not_not.mpr hnamed), checkEnvironment_config,
          if_pos (hconfig.trans hnamed)]
      · rw [if_neg hnamed, if_pos hnamed, hconfig]
    rw [Option.bind_eq_bind, Option.bind_some, checkConfigFile_isSome, hname]
    exact ⟨fun h => ⟨by rw [hd]; rfl, h⟩, fun h => h.configFile⟩

/-- For one setting the values that are read have the outcome of the sources exactly if it is
unaffected. -/
theorem outcome_eq_iff (s : Setting) :
    (∀ checked, outcome s (earlierValues sys args s ++
        (if commandLineConfig args ≠ [] ∧ checked = false then environmentValue sys s else []) ++
        fallbackValue sys s) = outcome s (sources sys args (configLines sys args) s)) ↔
      Unaffected sys args s := by
  rw [Bool.forall_bool, sources, Unaffected, lineValues_split, earlierValues]
  by_cases hnamed : commandLineConfig args = []
  · simp only [hnamed, ne_eq, not_true, false_and, if_false, List.append_nil, outcome,
      firstProvided_append, false_implies, and_true, and_self]
    generalize firstProvided s (commandLineValue s args) = command
    generalize firstProvided s (environmentValue sys s) = environment
    generalize firstProvided s (lineValues s (linesReached sys args)) = reached
    generalize firstProvided s (lineValues s (linesLeft sys args)) = left
    generalize firstProvided s (fallbackValue sys s) = fallback
    cases command <;> cases environment <;> cases reached <;> cases left <;> simp [eq_comm]
  · simp only [hnamed, ne_eq, not_false_iff, true_and, if_true, List.append_nil, outcome,
      firstProvided_append, true_implies, Bool.true_eq_false, if_false]
    generalize firstProvided s (commandLineValue s args) = command
    generalize firstProvided s (environmentValue sys s) = environment
    generalize firstProvided s (lineValues s (linesReached sys args)) = reached
    generalize firstProvided s (lineValues s (linesLeft sys args)) = left
    generalize firstProvided s (fallbackValue sys s) = fallback
    cases command <;> cases environment <;> cases reached <;> cases left <;> simp [eq_comm]
    -- Neither a line that is left nor the environment may give another value.
    constructor
    · exact fun h => ⟨h.2, h.1.trans h.2⟩
    · exact fun h => ⟨h.2.trans h.1.symm, h.1⟩

/-- The settings have the precedence of their sources exactly if none is affected. -/
theorem precedence_iff :
    Precedence sys args ↔ (Accepted sys args → ∀ s, Unaffected sys args s) := by
  constructor
  · intro h haccepted s
    refine (outcome_eq_iff sys args s).mp fun checked => ?_
    obtain ⟨c, hc⟩ := Option.isSome_iff_exists.mp
      ((isSome_iff_accepted sys args checked).mpr haccepted)
    rw [← h.settings checked c hc s _ rfl]
    exact ((configure_reads sys args hc).settings s).symm
  · intro h
    refine ⟨fun checked checked' => ?_, fun checked c hc s ls hls => ?_⟩
    · rw [Bool.eq_iff_iff, isSome_iff_accepted, isSome_iff_accepted]
    · have haccepted := (isSome_iff_accepted sys args checked).mp (by rw [hc]; rfl)
      rw [(configure_reads sys args hc).settings s, sources_congr sys args hls]
      exact (outcome_eq_iff sys args s).mpr (h haccepted s) checked

/-- `GCCXML_COMPILER` is set, and the file `f` is empty. -/
def compilerInEnvironment : System where
  getEnv name := if name = Setting.compiler.key then some "gcc".toList else none
  fileExists name := name = "f".toList
  file name := if name = "f".toList then some [] else none
  collapseDirectory := id
  dataRoot := []
  runningInBuildTree := false

/-- With the file named on the command line the compiler may get lost. -/
theorem named_config_not_precedence :
    ¬ Precedence compilerInEnvironment ["--gccxml-config".toList, "f".toList] := by
  intro h
  have haccepted : Accepted compilerInEnvironment ["--gccxml-config".toList, "f".toList] := by
    refine ⟨?_, fun name hname => ?_⟩
    · simp [processCommandLine, settingOption, otherOption, processOther]
    · have hfile : configFileName compilerInEnvironment (configName compilerInEnvironment
          ["--gccxml-config".toList, "f".toList]) = some "f".toList := by decide
      obtain rfl := Option.some.inj (hfile.symm.trans hname)
      decide
  obtain ⟨c, hc⟩ := Option.isSome_iff_exists.mp ((isSome_iff_accepted _ _ true).mpr haccepted)
  have hread := (configure_reads _ _ hc).settings .compiler
  rw [h.settings true c hc .compiler _ rfl] at hread
  exact absurd hread (by decide)

end Exactly

end CableSwig.GxFront.SettingPrecedence
