import CableSwig.GxFront.FlagsReport
import Mathlib.Data.List.Forall2

/-!
# The flag string comes back

The arguments that the flags parser takes from the flag string of a GCC.
-/
namespace CableSwig.GxFront.FlagsRoundTrip

open CableSwig.Lib.StdString
open CableSwig.Lib.StringReplace
open CableSwig.GxFront.FindFlags
open CableSwig.GxFront.FlagsParser
open CableSwig.GxFront.FlagsReport

section Specification

/-- The directories with the headers for a version. GCC 2.96 has two. -/
def wrapperDirectories (v : Version) : List Text :=
  if v.major < 3 then (if v.minor = 96 then ["2.96".toList] else []) ++ ["2.95".toList]
  else if 4 ≤ v.major then [number v.major ++ ".".toList ++ number v.minor]
  else if 4 ≤ v.minor then ["3.4".toList]
  else if v.minor = 3 then ["3.3".toList]
  else if v.minor = 2 then ["3.2".toList]
  else if v.minor = 1 then ["3.1".toList]
  else if v.minor = 0 then ["3.0".toList]
  else []

def hasBuiltins (v : Version) : Bool := 4 ≤ v.major || (v.major = 3 && 3 ≤ v.minor)

/-- The version that the compiler reports. A GCC 4 with the C++ headers of GCC 3.4 counts as one
of these. -/
def reportedVersion (sys : System) (r : Report) : Version :=
  let v : Version := ⟨(r.lookup gnuc).getD (-1),
    (r.lookup gnucMinor).getD (-1)⟩
  if v.major = 4 ∧ ∃ p ∈ r.paths, "c++/3.4".toList <:+: includePath sys p.path then ⟨3, 4⟩ else v

/-- The compiler has the wrapper option if it is the changed one. -/
def wrapperOption (native : Bool) : Text := if native then "-iwrapper".toList else "-I".toList

def macroArguments (ms : List Macro) : List Text :=
  (ms.filter fun m => m.name ≠ blocks).map fun m =>
    "-D".toList ++ m.name ++ '=' :: m.value

def wrapperArguments (native : Bool) (supportPath : Text) (v : Version) : List Text :=
  (wrapperDirectories v).map fun d => wrapperOption native ++ (supportPath ++ '/' :: d)

def pathArguments (ps : List Path) : List Text := ps.map fun p => pathFlag p.path ++ p.path

def builtinArguments (v : Version) : List Text :=
  if hasBuiltins v then ["-include".toList, "gccxml_builtins.h".toList] else []

/-- What the simulated compiler is to be called with. -/
def arguments (native : Bool) (sys : System) (r : Report) : List Text :=
  macroArguments r.macros ++ (wrapperArguments native sys.supportPath (reportedVersion sys r) ++
    (pathArguments r.paths ++ builtinArguments (reportedVersion sys r)))

/-- The two answers are those of a GCC, and home directories are paths without double quotes and
backslashes, as the reported ones are. -/
structure Answers (sys : System) (r : Report) : Prop where
  macros : sys.macroReport = r.macroReport
  verbose : sys.verboseReport = r.verboseReport
  wellFormed : r.WellFormed
  home : ∀ h, sys.getEnvHome = some h → ∀ c ∈ h, c ≠ '"' ∧ c ≠ '\\'
  homes : ∀ user dir, sys.getpwnam user = some dir → ∀ c ∈ dir, c ≠ '"' ∧ c ≠ '\\'

/-- The flags are the same after they have been written and read. -/
def Survives (native : Bool) (sys : System) (r : Report) : Prop :=
  ∃ flags, findFlags sys = some flags ∧ parse native flags = some (arguments native sys r)

/-- What the encoding can stand: macro names of the form that is looked for, bodies without single
quotes and backslashes, and paths that the clean-up leaves alone. -/
structure Safe (sys : System) (r : Report) : Prop where
  macros : ∀ m ∈ r.macros, m.name ≠ blocks →
    isMacroName m.name ∧ ∀ c ∈ m.value, c ≠ '\'' ∧ c ≠ '\\'
  supportPath : ∀ c ∈ sys.supportPath, c ≠ '"' ∧ c ≠ '\\'
  paths : ∀ p ∈ r.paths, includePath sys p.path = p.path

end Specification

section Characters

theorem stores_double {c : Char} (h : c ≠ '"' ∧ c ≠ '\\') : Quoted.double.stores c := by
  simp [Quoted.stores, h.1, h.2]

theorem stores_single {c : Char} (h : c ≠ '\'' ∧ c ≠ '\\') : Quoted.single.stores c := by
  simp [Quoted.stores, h.1, h.2]

/-- The characters that end a word or are not stored. -/
theorem not_stores {c : Char} (h : Quoted.no.stores c = false) :
    c ∈ [' ', '\t', '\n', '\x0b', '\x0c', '\r', '\\', '\'', '"'] := by
  simp only [Quoted.stores, isSpace] at h
  simp only [List.mem_cons, List.not_mem_nil, or_false]
  by_contra hc
  simp only [not_or] at hc
  simp [hc] at h

theorem macroName_chars {name : Text} (h : isMacroName name) :
    ∀ c ∈ name, (c.isAlphanum || c = '_' || c = '(' || c = ')') = true := by
  cases name with
  | nil => cases h
  | cons c s =>
    simp only [isMacroName, Bool.and_eq_true, List.all_eq_true] at h
    intro d hd
    rcases List.mem_cons.mp hd with rfl | hd
    · have hd := h.1
      simp only [Bool.or_eq_true, decide_eq_true_eq] at hd
      rcases hd with hd | rfl
      · simp [Char.isAlphanum, hd]
      · decide
    · exact h.2 d hd

theorem stores_macroName {name : Text} (h : isMacroName name) :
    ∀ c ∈ name, Quoted.no.stores c := by
  intro c hc
  by_contra hstores
  have hmem := not_stores (Bool.not_eq_true _ ▸ hstores)
  have hno : ∀ d ∈ [' ', '\t', '\n', '\x0b', '\x0c', '\r', '\\', '\'', '"'],
      (d.isAlphanum || d = '_' || d = '(' || d = ')') = false :=
    forall_mem_of_all (by decide)
  have hchar := macroName_chars h c hc
  rw [hno c hmem] at hchar
  cases hchar

/-- A number has digits and a sign. -/
theorem stores_number (n : Int) : ∀ c ∈ number n, c ≠ '"' ∧ c ≠ '\\' := by
  have hdigits : ∀ k : Nat, ∀ c ∈ k.repr.toList, c ≠ '"' ∧ c ≠ '\\' := by
    intro k c hc
    rw [Nat.toList_repr] at hc
    have hdigit := Nat.isDigit_of_mem_toDigits (by decide) (by decide) hc
    constructor <;> intro h <;> rw [h] at hdigit <;> exact absurd hdigit (by decide)
  intro c hc
  cases n with
  | ofNat k => exact hdigits k c hc
  | negSucc k =>
    have hnumber : number (Int.negSucc k) = "-".toList ++ (k + 1).repr.toList :=
      String.toList_append
    rw [hnumber] at hc
    rcases List.mem_append.mp hc with hc | hc
    · exact forall_mem_of_all (p := fun c => c ≠ '"' ∧ c ≠ '\\') (by decide) c hc
    · exact hdigits (k + 1) c hc

end Characters

section Versions

theorem infix_joined {word : Text} (hne : word ≠ []) (hblank : ' ' ∉ word) (words : List Text) :
    word <:+: joined words ↔ ∃ w ∈ words, word <:+: w := by
  induction words with
  | nil => simp [joined, hne]
  | cons w words ih =>
    rw [joined_cons]
    split_ifs with hnil
    · simp [hnil]
    · rw [infix_append_cons hblank, ih]
      simp

theorem infix_pathChunk {word path : Text} (hne : word ≠ []) (hquote : '"' ∉ word)
    (hflag : ¬ word <:+: pathFlag path) : word <:+: pathChunk path ↔ word <:+: path := by
  have hend : ¬ word <:+: ([] : Text) := fun h => hne (List.infix_nil.mp h)
  rw [pathChunk, infix_append_cons hquote, infix_append_cons hquote, or_iff_left hend,
    or_iff_right hflag]

/-- The version that the front end works with is the one that is reported, where the macros are
taken from the report. -/
theorem effectiveVersion_report {sys : System} {r : Report} (h : Answers sys r)
    (hmajor : (findMacros sys).major = (r.lookup gnuc).getD (-1))
    (hminor : (findMacros sys).minor = (r.lookup gnucMinor).getD (-1)) :
    effectiveVersion (findMacros sys) (findIncludes sys) = reportedVersion sys r := by
  have hcontains : contains "c++/3.4".toList (findIncludes sys) ↔
      ∃ p ∈ r.paths, "c++/3.4".toList <:+: includePath sys p.path := by
    have hflag : ∀ path, ¬ "c++/3.4".toList <:+: pathFlag path := by
      intro path
      rw [pathFlag]
      split_ifs <;> decide
    rw [findIncludes_report h.wellFormed h.verbose, contains, occurrence_isSome_iff,
      infix_joined (by decide) (by decide)]
    constructor
    · intro hw
      obtain ⟨w, hw, hword⟩ := hw
      obtain ⟨p, hp, rfl⟩ := List.mem_map.mp hw
      exact ⟨p, hp, (infix_pathChunk (by decide) (by decide) (hflag _)).mp hword⟩
    · intro hp
      obtain ⟨p, hp, hword⟩ := hp
      exact ⟨_, List.mem_map_of_mem hp,
        (infix_pathChunk (by decide) (by decide) (hflag _)).mpr hword⟩
  rw [effectiveVersion, reportedVersion, hmajor, hminor]
  simp only [hcontains]

end Versions

section Words

theorem reads_macro {name value : Text} (hname : isMacroName name)
    (hvalue : ∀ c ∈ value, c ≠ '\'' ∧ c ≠ '\\') :
    Reads (macroChunk name value) ("-D".toList ++ name ++ '=' :: value) := by
  have hplain : ∀ c ∈ "-D".toList ++ name ++ ['='], Quoted.no.stores c := by
    intro c hc
    rcases List.mem_append.mp hc with hc | hc
    · rcases List.mem_append.mp hc with hc | hc
      · exact List.all_eq_true.mp (by decide) c hc
      · exact stores_macroName hname c hc
    · exact List.all_eq_true.mp (by decide) c hc
  have hreads := reads_quoted (q := .single) (by decide) hplain
    fun c hc => stores_single (hvalue c hc)
  simpa [macroChunk, Quoted.mark] using hreads

theorem reads_path {path : Text} (hpath : ∀ c ∈ path, c ≠ '"' ∧ c ≠ '\\') :
    Reads (pathChunk path) (pathFlag path ++ path) := by
  have hplain : ∀ c ∈ pathFlag path, Quoted.no.stores c := by
    rw [pathFlag]
    split_ifs <;> exact List.all_eq_true.mp (by decide)
  exact reads_quoted (q := .double) (by decide) hplain fun c hc => stores_double (hpath c hc)

def wrapperChunk (supportPath directory : Text) : Text :=
  "-iwrapper".toList ++ '"' :: (supportPath ++ '/' :: directory ++ ['"'])

theorem reads_wrapper {supportPath directory : Text}
    (hpath : ∀ c ∈ supportPath ++ '/' :: directory, c ≠ '"' ∧ c ≠ '\\') :
    Reads (wrapperChunk supportPath directory)
      ("-iwrapper".toList ++ (supportPath ++ '/' :: directory)) := by
  have hplain : ∀ c ∈ "-iwrapper".toList, Quoted.no.stores c := List.all_eq_true.mp (by decide)
  have hreads := reads_quoted (q := .double) (by decide) hplain
    fun c hc => stores_double (hpath c hc)
  exact hreads

theorem wrapper_eq (supportPath directory includes : Text) :
    wrapper supportPath directory includes =
      wrapperChunk supportPath directory ++ ' ' :: includes := by
  unfold wrapper wrapperChunk
  generalize "-iwrapper".toList = option
  simp

theorem wrapped_eq (supportPath includes : Text) (v : Version) :
    wrapped supportPath v includes =
      (wrapperDirectories v).foldr (wrapper supportPath) includes := by
  rw [wrapped, wrapperDirectories]
  split_ifs <;> rfl

/-- Every directory of wrapper headers has a plain name. -/
theorem wrapperDirectories_plain (v : Version) :
    ∀ d ∈ wrapperDirectories v, ∀ c ∈ d, c ≠ '"' ∧ c ≠ '\\' := by
  have hnumbers : ∀ d ∈ [number v.major ++ ".".toList ++ number v.minor], ∀ c ∈ d,
      c ≠ '"' ∧ c ≠ '\\' := by
    intro d hd c hc
    rw [List.mem_singleton.mp hd] at hc
    rcases List.mem_append.mp hc with hc | hc
    · rcases List.mem_append.mp hc with hc | hc
      · exact stores_number _ c hc
      · exact forall_mem_of_all (p := fun c => c ≠ '"' ∧ c ≠ '\\') (by decide) c hc
    · exact stores_number _ c hc
  have hfixed : ∀ ds : List Text, (ds.all fun d => d.all fun c => c ≠ '"' && c ≠ '\\') = true →
      ∀ d ∈ ds, ∀ c ∈ d, c ≠ '"' ∧ c ≠ '\\' := by
    intro ds hds d hd c hc
    simpa using List.all_eq_true.mp (List.all_eq_true.mp hds d hd) c hc
  rw [wrapperDirectories]
  split_ifs
  all_goals first | exact hnumbers | exact hfixed _ (by decide)

theorem parses_wrapped {supportPath includes : Text} {args : List Text} (v : Version)
    (hpath : ∀ c ∈ supportPath, c ≠ '"' ∧ c ≠ '\\') (h : Parses includes args) :
    Parses (wrapped supportPath v includes)
      (wrapperArguments true supportPath v ++ args) := by
  have hplain := wrapperDirectories_plain v
  rw [wrapped_eq, wrapperArguments]
  generalize wrapperDirectories v = directories at hplain
  induction directories with
  | nil => exact h
  | cons d ds ih =>
    have hword : ∀ c ∈ supportPath ++ '/' :: d, c ≠ '"' ∧ c ≠ '\\' := by
      intro c hc
      rcases List.mem_append.mp hc with hc | hc
      · exact hpath c hc
      · rcases List.mem_cons.mp hc with rfl | hc
        · decide
        · exact hplain d List.mem_cons_self c hc
    have hrest := ih fun d' hd' => hplain d' (List.mem_cons_of_mem _ hd')
    rw [List.foldr_cons, wrapper_eq]
    exact (parses_reads (reads_wrapper hword)).append hrest

theorem parses_builtins (v : Version) : Parses (FindFlags.special v) (builtinArguments v) := by
  have hflag : Reads "-include".toList "-include".toList :=
    reads_plain (by decide) (List.all_eq_true.mp (by decide))
  have hfile : Reads ('"' :: ("gccxml_builtins.h".toList ++ ['"'])) "gccxml_builtins.h".toList :=
    reads_quoted (q := .double) (a := []) (by decide) (fun c hc => absurd hc (by simp))
      (List.all_eq_true.mp (by decide))
  have hcond : hasBuiltins v = true ↔ 4 ≤ v.major ∨ (v.major = 3 ∧ 3 ≤ v.minor) := by
    simp [hasBuiltins]
  rw [FindFlags.special, builtinArguments, ite_congr (propext hcond) (fun _ => rfl) fun _ => rfl]
  split_ifs
  · exact (parses_reads hflag).append (parses_reads hfile)
  · exact parses_nil

theorem commandLineParse_addFlags {a b : Text} {args : List Text} (ha : Parses a args) :
    commandLineParse (addFlags a b) = (commandLineParse b).map (args ++ ·) := by
  rw [addFlags]
  split_ifs with hb hnil
  · rw [hb, ha.eq, commandLineParse, Option.map_some, List.append_nil]
  · have hargs := ha.eq
    rw [hnil, commandLineParse] at hargs
    cases hargs
    simp
  · rw [ha _ (Or.inr ⟨_, rfl⟩), commandLineParse_blank]

theorem addFlags_assoc (a b c : Text) : addFlags (addFlags a b) c = addFlags a (addFlags b c) := by
  unfold addFlags
  split_ifs <;> simp_all

theorem addFlags_joined {ws vs : List Text} (h : ∀ w ∈ ws ++ vs, w ≠ []) :
    addFlags (joined ws) (joined vs) = joined (ws ++ vs) := by
  have hws := joined_eq_nil fun w hw => h w (List.mem_append_left _ hw)
  have hvs := joined_eq_nil fun w hw => h w (List.mem_append_right _ hw)
  rw [addFlags]
  split_ifs with hv hw
  · rw [hvs.mp hv, List.append_nil]
  · rw [hws.mp hw, List.nil_append]
  · rw [joined_append _ _ fun hnil => hw (hws.mpr hnil), if_neg fun hnil => hv (hvs.mpr hnil)]

end Words

section Reading

variable {sys : System} {r : Report}

theorem accepted_append (as bs : List Text) : accepted (as ++ bs) = accepted as ++ accepted bs := by
  rw [accepted, List.filterMap_append, List.filter_append]
  rfl

theorem accepted_line {m : Macro} (h : isMacroName m.name) :
    accepted [m.line] = if m.name ≠ blocks then [(m.name, m.value)] else [] := by
  rw [accepted, List.filterMap_cons_some (findDefine_line h), List.filterMap_nil, List.filter_cons,
    List.filter_nil]
  exact if_congr decide_eq_true_iff rfl rfl

theorem accepted_macros {ms : List Macro}
    (h : ∀ m ∈ ms, m.name ≠ blocks → isMacroName m.name) :
    accepted (ms.map Macro.line) =
      (ms.filter fun m => m.name ≠ blocks).map fun m => (m.name, m.value) := by
  induction ms with
  | nil => rfl
  | cons m ms ih =>
    have hrest := ih fun m' hm' => h m' (List.mem_cons_of_mem _ hm')
    have hname : isMacroName m.name := by
      by_cases hblocks : m.name = blocks
      · rw [hblocks]
        decide
      · exact h m List.mem_cons_self hblocks
    rw [List.map_cons, ← List.singleton_append, accepted_append, accepted_line hname, hrest,
      List.filter_cons]
    by_cases hblocks : m.name = blocks
    · rw [if_neg (not_not_intro hblocks), if_neg fun h => absurd hblocks (of_decide_eq_true h)]
      rfl
    · rw [if_pos hblocks, if_pos (decide_eq_true hblocks)]
      rfl

/-- Where each name has the form that is looked for, the macro with a name is the reported one. -/
theorem find_accepted {ms : List Macro} {key : Text} (hkey : key ≠ blocks)
    (h : ∀ m ∈ ms, m.name ≠ blocks → isMacroName m.name) :
    (accepted (ms.map Macro.line)).find? (fun d => d.1 = key) =
      (ms.find? fun m => m.name = key).map fun m => (m.name, m.value) := by
  rw [accepted_macros h, List.find?_map, List.find?_filter]
  refine congrArg (fun p => (ms.find? p).map _) (funext fun m => ?_)
  by_cases hm : m.name = key
  · simp [hm, hkey]
  · simp [hm]

/-- The version numbers are the reported ones, where the names are safe. -/
theorem findMacros_version (h : Answers sys r)
    (hnames : ∀ m ∈ r.macros, m.name ≠ blocks → isMacroName m.name) :
    r.lookup gnuc = some (findMacros sys).major ∧
      r.lookup gnucMinor = some (findMacros sys).minor := by
  have hnumber : ∀ {get : Found → Int} {key : Text}, key ≠ blocks →
      (∀ f (d : Text × Text), get (addMacro f d.1 d.2) =
        if get f = -1 ∧ decide (d.1 = key) = true then atoi d.2 else get f) →
      get {} = -1 → (∃ v, r.lookup key = some v ∧ 0 ≤ v ∧ v < 2147483648) →
      r.lookup key = some (get (findMacros sys)) := by
    intro get key hkey hstep hstart hv
    obtain ⟨v, hv, hpos, -⟩ := hv
    obtain ⟨m, hm, hmv⟩ := Option.map_eq_some_iff.mp hv
    have hfind := find_accepted hkey hnames
    rw [hm, Option.map_some] at hfind
    have htake := (foldl_number (fun d : Text × Text => atoi d.2) hstep
      (accepted (r.macros.map Macro.line)) {}).2 hstart _ hfind (by simp only; omega)
    rw [hv, findMacros_report h.macros, htake, hmv]
  refine ⟨hnumber (by decide) (fun f d => ?_) rfl h.wellFormed.major,
    hnumber (by decide) (fun f d => ?_) rfl h.wellFormed.minor⟩
  · simp only [addMacro, decide_eq_true_eq]
  · simp only [addMacro, decide_eq_true_eq]

theorem findFlags_eq_some (flags : Text) :
    findFlags sys = some flags ↔ (findMacros sys).major ≠ -1 ∧ (findMacros sys).minor ≠ -1 ∧
      flags ≠ [] ∧ flags = addFlags (findMacros sys).macros
        (addFlags (wrapped sys.supportPath
          (effectiveVersion (findMacros sys) (findIncludes sys)) (findIncludes sys))
          (FindFlags.special (effectiveVersion (findMacros sys) (findIncludes sys)))) := by
  unfold findFlags
  rw [← addFlags_assoc]
  simp only
  split_ifs with hversion hnil
  · simp only [false_iff, not_and]
    exact fun hmajor hminor => absurd hversion (not_or.mpr ⟨hmajor, hminor⟩)
  · simp only [false_iff, not_and]
    exact fun _ _ hne hflags => hne (hflags.trans hnil)
  · obtain ⟨hmajor, hminor⟩ := not_or.mp hversion
    rw [Option.some_inj]
    constructor
    · intro hflags
      exact ⟨hmajor, hminor, fun h => hnil (hflags.trans h), hflags.symm⟩
    · exact fun hflags => hflags.2.2.2.symm

/-- The clean-up puts nothing into a path that ends its quotes. -/
theorem includePath_plain (h : Answers sys r) {path : Text}
    (hpath : ∀ c ∈ path, c ≠ '"' ∧ c ≠ '\\') :
    ∀ c ∈ includePath sys path, c ≠ '"' ∧ c ≠ '\\' := by
  have hslash : ('/' : Char) ≠ '"' ∧ ('/' : Char) ≠ '\\' := by decide
  have hconvert : ∀ s : Text, (∀ c ∈ s, c ≠ '"' ∧ c ≠ '\\') →
      ∀ c ∈ convertSlashes s, c ≠ '"' ∧ c ≠ '\\' := by
    intro s
    induction s with
    | nil => exact fun hs => hs
    | cons d s ih =>
      intro hs c hc
      rw [convertSlashes] at hc
      rcases List.mem_cons.mp hc with rfl | hc
      · split_ifs
        · exact hslash
        · exact hs d List.mem_cons_self
      · exact ih (fun c hc => hs c (List.mem_cons_of_mem _ hc)) c hc
  have hexpand : ∀ s : Text, (∀ c ∈ s, c ≠ '"' ∧ c ≠ '\\') →
      ∀ c ∈ expandHome sys s, c ≠ '"' ∧ c ≠ '\\' := by
    intro s hs
    unfold expandHome
    split
    · next rest =>
      have hrest : ∀ c ∈ rest, c ≠ '"' ∧ c ≠ '\\' := fun c hc => hs c (List.mem_cons_of_mem _ hc)
      split_ifs
      · split
        · next home hhome =>
          intro c hc
          exact (List.mem_append.mp hc).elim (h.home home hhome c) (hrest c)
        · exact hs
      · split
        · next dir hdir =>
          intro c hc
          rcases List.mem_append.mp hc with hc | hc
          · exact h.homes _ dir hdir c hc
          · exact hrest c ((List.dropWhile_sublist _).mem hc)
        · exact hs
    · exact hs
  have hdrop : ∀ s : Text, ∀ c ∈ dropTrailingSlash s, c ∈ s := by
    intro s c hc
    rw [dropTrailingSlash] at hc
    split_ifs at hc
    · exact (List.dropLast_sublist _).mem hc
    · exact hc
  intro c hc
  rw [includePath, convertToUnixSlashes] at hc
  refine hexpand _ ?_ c (hdrop _ c hc)
  have hline := hconvert (path.dropWhile (· = ' '))
    fun c hc => hpath c ((List.dropWhile_sublist _).mem hc)
  split_ifs
  · intro c hc
    rcases mem_replaceFrom _ _ hc with hc | hc
    · rw [List.mem_singleton.mp hc]
      exact hslash
    · exact hline c hc
  · exact hline

theorem reads_macros {ms : List Macro}
    (hsafe : ∀ m ∈ ms, m.name ≠ blocks →
      isMacroName m.name ∧ ∀ c ∈ m.value, c ≠ '\'' ∧ c ≠ '\\') :
    List.Forall₂ Reads ((accepted (ms.map Macro.line)).map fun d => macroChunk d.1 d.2)
      (macroArguments ms) := by
  rw [accepted_macros fun m hm hne => (hsafe m hm hne).1, macroArguments, List.map_map,
    List.forall₂_map_left_iff, List.forall₂_map_right_iff, List.forall₂_same]
  intro m hm
  obtain ⟨hm, hne⟩ := List.mem_filter.mp hm
  obtain ⟨hname, hvalue⟩ := hsafe m hm (of_decide_eq_true hne)
  exact reads_macro hname hvalue

theorem parses_macros (h : Answers sys r)
    (hsafe : ∀ m ∈ r.macros, m.name ≠ blocks →
      isMacroName m.name ∧ ∀ c ∈ m.value, c ≠ '\'' ∧ c ≠ '\\') :
    Parses (findMacros sys).macros (macroArguments r.macros) := by
  rw [findMacros_macros h.macros]
  exact parses_joined (reads_macros hsafe)

theorem macroArguments_ne {v : Int} (h : r.lookup gnuc = some v) :
    macroArguments r.macros ≠ [] := by
  obtain ⟨m, hm, -⟩ := Option.map_eq_some_iff.mp h
  have hname := List.find?_some hm
  rw [decide_eq_true_iff] at hname
  have hkept : m ∈ r.macros.filter fun m => m.name ≠ blocks := by
    refine List.mem_filter.mpr ⟨List.mem_of_find?_eq_some hm, decide_eq_true ?_⟩
    rw [hname]
    decide
  exact List.ne_nil_of_mem (List.mem_map_of_mem hkept)

/-- The arguments for the paths as they are after the clean-up. -/
def cleanArguments (sys : System) (ps : List Path) : List Text :=
  ps.map fun p => pathFlag (includePath sys p.path) ++ includePath sys p.path

theorem parses_includes (h : Answers sys r) :
    Parses (findIncludes sys) (cleanArguments sys r.paths) := by
  rw [findIncludes_report h.wellFormed h.verbose, cleanArguments]
  refine parses_joined ?_
  rw [List.forall₂_map_left_iff, List.forall₂_map_right_iff, List.forall₂_same]
  intro p _
  refine reads_path (includePath_plain h fun c hc => ?_)
  obtain ⟨hquote, hslash, -⟩ := p.plain c hc
  exact ⟨hquote, hslash⟩

/-- Where the macros and the place of the support headers are safe, only the clean-up of the paths
stands between the arguments and what is read. -/
theorem commandLineParse_flags (h : Answers sys r)
    (hsafe : ∀ m ∈ r.macros, m.name ≠ blocks →
      isMacroName m.name ∧ ∀ c ∈ m.value, c ≠ '\'' ∧ c ≠ '\\')
    (hpath : ∀ c ∈ sys.supportPath, c ≠ '"' ∧ c ≠ '\\') :
    ∃ flags, findFlags sys = some flags ∧ commandLineParse flags =
      some (macroArguments r.macros ++
        (wrapperArguments true sys.supportPath (reportedVersion sys r) ++
          (cleanArguments sys r.paths ++ builtinArguments (reportedVersion sys r)))) := by
  obtain ⟨hmajor, hminor⟩ := findMacros_version h fun m hm hne => (hsafe m hm hne).1
  obtain ⟨major, hmajor', hmajor0, -⟩ := h.wellFormed.major
  obtain ⟨minor, hminor', hminor0, -⟩ := h.wellFormed.minor
  have hversion := effectiveVersion_report h (by rw [hmajor]; rfl) (by rw [hminor]; rfl)
  have hM := parses_macros h hsafe
  have hW := parses_wrapped (reportedVersion sys r) hpath (parses_includes h)
  have hS := (parses_builtins (reportedVersion sys r)).eq
  rw [hmajor] at hmajor'
  rw [hminor] at hminor'
  have hread := commandLineParse_addFlags (b := addFlags
    (wrapped sys.supportPath (reportedVersion sys r) (findIncludes sys))
    (FindFlags.special (reportedVersion sys r))) hM
  rw [commandLineParse_addFlags hW, hS, Option.map_some, Option.map_some,
    List.append_assoc] at hread
  refine ⟨_, (findFlags_eq_some _).mpr ⟨?_, ?_, ?_, rfl⟩, ?_⟩
  · rw [Option.some.inj hmajor']
    omega
  · rw [Option.some.inj hminor']
    omega
  · rw [hversion]
    intro hnil
    rw [hnil, commandLineParse, Option.some_inj] at hread
    exact macroArguments_ne hmajor (List.append_eq_nil_iff.mp hread.symm).1
  · rw [hversion]
    exact hread

end Reading

section Options

variable {native : Bool}

theorem addFlag_other {flag : Text} (h : ¬ "-iw".toList <+: flag) : addFlag native flag = flag := by
  rw [addFlag, if_neg]
  intro hwrapper
  rw [Bool.and_eq_true, decide_eq_true_iff] at hwrapper
  have hstart : "-iw".toList <+: "-iwrapper".toList := by decide
  rw [← hwrapper.2] at hstart
  exact h (hstart.trans (List.take_prefix 9 flag))

theorem addFlag_second {c : Char} {s : Text} (hc : c ≠ 'i') :
    addFlag native ('-' :: c :: s) = '-' :: c :: s := by
  refine addFlag_other fun h => ?_
  exact hc (List.cons_prefix_cons.mp (List.cons_prefix_cons.mp h).2).1.symm

theorem addFlag_macro (name value : Text) :
    addFlag native ("-D".toList ++ name ++ '=' :: value) = "-D".toList ++ name ++ '=' :: value :=
  addFlag_second (by decide)

theorem addFlag_path (path : Text) :
    addFlag native (pathFlag path ++ path) = pathFlag path ++ path := by
  rw [pathFlag]
  split_ifs
  · exact addFlag_second (by decide)
  · refine addFlag_other fun h => ?_
    have hthird := (List.cons_prefix_cons.mp
      (List.cons_prefix_cons.mp (List.cons_prefix_cons.mp h).2).2).1
    exact absurd hthird (by decide)

theorem addFlag_wrapper (directory : Text) :
    addFlag native ("-iwrapper".toList ++ directory) = wrapperOption native ++ directory := by
  have htake : substr ("-iwrapper".toList ++ directory) 0 9 = "-iwrapper".toList :=
    List.take_left' (by decide)
  have hdrop : substr ("-iwrapper".toList ++ directory) 9
      (("-iwrapper".toList ++ directory).length - 9) = directory := by
    rw [substr, List.drop_left' (by decide)]
    exact List.take_of_length_le (by simp)
  rw [addFlag, wrapperOption, htake, hdrop]
  cases native <;> simp

theorem addFlag_arguments (sys : System) (r : Report) (paths : List Path) :
    (macroArguments r.macros ++ (wrapperArguments true sys.supportPath (reportedVersion sys r) ++
      (cleanArguments sys paths ++ builtinArguments (reportedVersion sys r)))).map
        (addFlag native) =
    macroArguments r.macros ++ (wrapperArguments native sys.supportPath (reportedVersion sys r) ++
      (cleanArguments sys paths ++ builtinArguments (reportedVersion sys r))) := by
  have hmacros : (macroArguments r.macros).map (addFlag native) = macroArguments r.macros := by
    rw [macroArguments, List.map_map]
    exact List.map_congr_left fun m _ => addFlag_macro m.name m.value
  have hwrappers : (wrapperArguments true sys.supportPath (reportedVersion sys r)).map
      (addFlag native) = wrapperArguments native sys.supportPath (reportedVersion sys r) := by
    rw [wrapperArguments, List.map_map]
    exact List.map_congr_left fun d _ => addFlag_wrapper _
  have hpaths : (cleanArguments sys paths).map (addFlag native) = cleanArguments sys paths := by
    rw [cleanArguments, List.map_map]
    exact List.map_congr_left fun p _ => addFlag_path _
  have hbuiltins : ∀ v, (builtinArguments v).map (addFlag native) = builtinArguments v := by
    intro v
    rw [builtinArguments]
    split_ifs
    · cases native <;> decide
    · rfl
  rw [List.map_append, List.map_append, List.map_append, hmacros, hwrappers, hpaths, hbuiltins]

/-- An argument for a path says which path it is. -/
theorem pathFlag_append_inj {p q : Text} (h : pathFlag p ++ p = pathFlag q ++ q) : p = q := by
  unfold pathFlag at h
  split_ifs at h
  · exact List.append_cancel_left h
  · cases (List.cons.inj (List.cons.inj h).2).1
  · cases (List.cons.inj (List.cons.inj h).2).1
  · exact List.append_cancel_left h

theorem survives_iff_paths {sys : System} {r : Report} (h : Answers sys r)
    (hsafe : ∀ m ∈ r.macros, m.name ≠ blocks →
      isMacroName m.name ∧ ∀ c ∈ m.value, c ≠ '\'' ∧ c ≠ '\\')
    (hpath : ∀ c ∈ sys.supportPath, c ≠ '"' ∧ c ≠ '\\') :
    Survives native sys r ↔ ∀ p ∈ r.paths, includePath sys p.path = p.path := by
  obtain ⟨flags, hflags, hread⟩ := commandLineParse_flags h hsafe hpath
  have hparse := congrArg (Option.map fun argv => argv.map (addFlag native)) hread
  rw [Option.map_some, addFlag_arguments] at hparse
  have hsurvives : Survives native sys r ↔
      cleanArguments sys r.paths = pathArguments r.paths := by
    constructor
    · intro hs
      obtain ⟨flags', hflags', hargs⟩ := hs
      cases hflags.symm.trans hflags'
      have heq := Option.some.inj (hparse.symm.trans hargs)
      exact List.append_cancel_right (List.append_cancel_left (List.append_cancel_left heq))
    · intro heq
      rw [heq] at hparse
      exact ⟨flags, hflags, hparse⟩
  rw [hsurvives, cleanArguments, pathArguments, List.map_inj_left]
  constructor
  · exact fun hp p hmem => pathFlag_append_inj (hp p hmem)
  · intro hp p hmem
    rw [hp p hmem]

end Options

section Failures

variable {native : Bool} {sys : System} {r : Report}

theorem exists_first {α : Type} {P : α → Prop} (as : List α) (h : ¬ ∀ a ∈ as, P a) :
    ∃ before a after, as = before ++ a :: after ∧ (∀ b ∈ before, P b) ∧ ¬ P a := by
  induction as with
  | nil => exact absurd (fun a ha => absurd ha List.not_mem_nil) h
  | cons a as ih =>
    by_cases ha : P a
    · have hrest : ¬ ∀ b ∈ as, P b := by
        intro hall
        refine h fun b hb => ?_
        rcases List.mem_cons.mp hb with rfl | hb
        · exact ha
        · exact hall b hb
      obtain ⟨before, b, after, rfl, hbefore, hb⟩ := ih hrest
      refine ⟨a :: before, b, after, rfl, fun c hc => ?_, hb⟩
      rcases List.mem_cons.mp hc with rfl | hc
      · exact ha
      · exact hbefore c hc
    · exact ⟨[], a, as, rfl, fun b hb => absurd hb List.not_mem_nil, ha⟩

theorem first_argument {c : Char} {s x : Text} {xs : List Text} (hs : s.head? = some c)
    (hc : isSpace c = false) (h : commandLineParse s = some (x :: xs)) :
    ∃ r, parseArg .no s = some r ∧ r.1 = x := by
  obtain ⟨w, rfl⟩ := List.head?_eq_some_iff.mp hs
  rw [commandLineParse_word hc] at h
  obtain ⟨r, hr, hrest⟩ := Option.bind_eq_some_iff.mp h
  obtain ⟨args, -, hargs⟩ := Option.map_eq_some_iff.mp hrest
  exact ⟨r, hr, (List.cons.inj hargs).1⟩

/-- The rest of a flag string, after the macros. -/
def NoMacro (s : Text) : Prop := s = [] ∨ ∃ c t, (c = 'i' ∨ c = 'F') ∧ s = '-' :: c :: t

theorem noMacro_first {s x : Text} {xs : List Text} (h : NoMacro s) :
    commandLineParse s ≠ some (('-' :: 'D' :: x) :: xs) := by
  intro hparse
  rcases h with rfl | ⟨c, t, hc, rfl⟩
  · rw [commandLineParse] at hparse
    cases hparse
  · obtain ⟨r, hr, hfirst⟩ := first_argument rfl (by decide) hparse
    have hstores : ∀ d ∈ ['-', c], Quoted.no.stores d := by
      rcases hc with rfl | rfl <;> exact List.all_eq_true.mp (by decide)
    have hplain := parseArg_append (s := t) hstores
    rw [List.cons_append, List.singleton_append, hr] at hplain
    obtain ⟨r', -, hr'⟩ := Option.map_eq_some_iff.mp hplain.symm
    rw [← hr'] at hfirst
    have hsecond := (List.cons.inj (List.cons.inj hfirst).2).1
    rcases hc with rfl | rfl <;> cases hsecond

theorem noMacro_append {a : Text} (b : Text) (ha : a ≠ []) (h : NoMacro a) : NoMacro (a ++ b) := by
  obtain ⟨c, t, hc, rfl⟩ := h.resolve_left ha
  exact Or.inr ⟨c, t ++ b, hc, rfl⟩

theorem noMacro_addFlags {a b : Text} (ha : NoMacro a) (hb : NoMacro b) :
    NoMacro (addFlags a b) := by
  rw [addFlags]
  split_ifs with _ hnil
  · exact ha
  · exact hb
  · exact noMacro_append _ hnil ha

theorem noMacro_includes (h : Answers sys r) : NoMacro (findIncludes sys) := by
  rw [findIncludes_report h.wellFormed h.verbose]
  cases r.paths with
  | nil => exact Or.inl (by simp [joined])
  | cons p ps =>
    rw [List.map_cons, joined_cons, pathChunk, List.append_assoc]
    have hflag : ∃ c t, (c = 'i' ∨ c = 'F') ∧
        pathFlag (includePath sys p.path) = '-' :: c :: t := by
      rw [pathFlag]
      split_ifs
      · exact ⟨'F', [], Or.inr rfl, by decide⟩
      · exact ⟨'i', "system".toList, Or.inl rfl, by decide⟩
    obtain ⟨c, t, hc, hflag⟩ := hflag
    rw [hflag]
    exact Or.inr ⟨c, _, hc, rfl⟩

theorem noMacro_wrapped {includes : Text} (v : Version) (h : NoMacro includes) :
    NoMacro (wrapped sys.supportPath v includes) := by
  rw [wrapped_eq]
  cases wrapperDirectories v with
  | nil => exact h
  | cons d ds => exact Or.inr ⟨'i', _, Or.inl rfl, rfl⟩

theorem noMacro_special (v : Version) : NoMacro (FindFlags.special v) := by
  rw [FindFlags.special]
  split_ifs
  · exact Or.inr ⟨'i', _, Or.inl rfl, rfl⟩
  · exact Or.inl rfl

theorem addFlags_append (word : Text) {t : Text} (more : Text) (hne : word ≠ []) (ht : Tail t) :
    ∃ t', Tail t' ∧ addFlags (word ++ t) more = word ++ t' := by
  rw [addFlags]
  split_ifs with hmore hnil
  · exact ⟨t, ht, rfl⟩
  · exact absurd (List.append_eq_nil_iff.mp hnil).1 hne
  · refine ⟨t ++ ' ' :: more, ?_, List.append_assoc _ _ _⟩
    rcases ht with rfl | ⟨s, rfl⟩
    · exact Or.inr ⟨_, rfl⟩
    · exact Or.inr ⟨_, rfl⟩

theorem addFlags_word (word : Text) (words : List Text) (more : Text) (hne : word ≠ []) :
    ∃ t, Tail t ∧ addFlags (joined (word :: words)) more = word ++ t := by
  rw [joined_cons]
  refine addFlags_append word more hne ?_
  split_ifs
  · exact Or.inl rfl
  · exact Or.inr ⟨_, rfl⟩

/-- A macro in the flags has another name, or a body that its quotes do not hold. -/
theorem macroChunk_first {name value name' value' t : Text} {xs : List Text}
    (hname' : isMacroName name') (hequal : '=' ∉ name) (ht : Tail t)
    (hbad : name' ≠ name ∨ (value' = value ∧ ∃ c ∈ value, Quoted.single.stores c = false)) :
    commandLineParse (macroChunk name' value' ++ t) ≠
      some (("-D".toList ++ name ++ '=' :: value) :: xs) := by
  intro hparse
  have hstores := stores_macroName hname'
  have hequal' : '=' ∉ name' := fun h => absurd (macroName_chars hname' _ h) (by decide)
  have hplain : ∀ c ∈ "-D".toList ++ name' ++ ['='], Quoted.no.stores c := by
    intro c hc
    rcases List.mem_append.mp hc with hc | hc
    · rcases List.mem_append.mp hc with hc | hc
      · exact List.all_eq_true.mp (by decide) c hc
      · exact hstores c hc
    · exact List.all_eq_true.mp (by decide) c hc
  have htext : macroChunk name' value' ++ t = "-D".toList ++ name' ++ ['='] ++
      Quoted.single.mark :: (value' ++ Quoted.single.mark :: t) := by
    simp [macroChunk, Quoted.mark]
  obtain ⟨r, hr, hfirst⟩ := first_argument (c := '-') rfl (by decide) hparse
  rw [htext, parseArg_append hplain, (parseArg_quote (by decide) _).1] at hr
  obtain ⟨r', hr', rfl⟩ := Option.map_eq_some_iff.mp hr
  have hsplit : name' ++ '=' :: r'.1 = name ++ '=' :: value := by
    simpa using hfirst
  obtain ⟨hnames, hvalues⟩ := append_cons_inj (fun h => hequal (h.subset (by simp)))
    (fun h => hequal' (h.subset (by simp))) hsplit
  rcases hbad with hne | ⟨rfl, hbad⟩
  · exact hne hnames
  · exact parseArg_quoted_ne (by decide) ht hbad hr' hvalues

theorem addFlag_macro_inj {flag s : Text} (h : addFlag native flag = '-' :: 'D' :: s) :
    flag = '-' :: 'D' :: s := by
  rw [addFlag] at h
  split_ifs at h
  · exact absurd (List.cons.inj (List.cons.inj h).2).1 (by decide)
  · exact h

/-- What a survival says about the arguments that come after the first ones. -/
theorem survives_tail {flags : Text} {front : List Text} {rest : Option (List Text)}
    {arg : Text} {args : List Text} (hs : Survives native sys r)
    (hflags : findFlags sys = some flags)
    (hread : commandLineParse flags = rest.map (front ++ ·))
    (hfront : front.map (addFlag native) = front)
    (hargs : arguments native sys r = front ++ arg :: args) :
    ∃ x xs, rest = some (x :: xs) ∧ addFlag native x = arg := by
  obtain ⟨flags', hflags', hparse⟩ := hs
  cases hflags.symm.trans hflags'
  rw [parse, hread, Option.map_map, hargs] at hparse
  obtain ⟨raw, hraw, heq⟩ := Option.map_eq_some_iff.mp hparse
  rw [Function.comp_apply, List.map_append, hfront] at heq
  obtain ⟨x, xs, rfl, hx, -⟩ := List.map_eq_cons_iff.mp (List.append_cancel_left heq)
  exact ⟨x, xs, hraw, hx⟩

theorem macroArguments_addFlag (ms : List Macro) :
    (macroArguments ms).map (addFlag native) = macroArguments ms := by
  rw [macroArguments, List.map_map]
  exact List.map_congr_left fun m _ => addFlag_macro m.name m.value

/-- An unsafe macro is left out, or comes with another name, or has another body. -/
theorem bad_macro_first (m : Macro) (after : List Macro) {rest : Text} {xs : List Text}
    (hblocks : m.name ≠ blocks)
    (hbad : ¬ (isMacroName m.name ∧ ∀ c ∈ m.value, c ≠ '\'' ∧ c ≠ '\\')) (hrest : NoMacro rest) :
    commandLineParse (addFlags
      (joined ((accepted ((m :: after).map Macro.line)).map fun d => macroChunk d.1 d.2)) rest) ≠
        some (("-D".toList ++ m.name ++ '=' :: m.value) :: xs) := by
  have hequal : '=' ∉ m.name := fun hmem => (m.name_chars _ hmem).2.2 rfl
  cases hds : accepted ((m :: after).map Macro.line) with
  | nil =>
    have hnil : addFlags (joined (([] : List (Text × Text)).map fun d => macroChunk d.1 d.2)) rest =
        rest := by
      rw [addFlags]
      split_ifs with hr
      · rw [hr]
        rfl
      · rfl
      · exact absurd rfl ‹_›
    rw [hnil]
    exact noMacro_first hrest
  | cons d ds =>
    have hname : isMacroName d.1 := accepted_name (hds ▸ List.mem_cons_self)
    obtain ⟨t, ht, hword⟩ := addFlags_word (macroChunk d.1 d.2)
      (ds.map fun d => macroChunk d.1 d.2) rest (by simp [macroChunk])
    rw [List.map_cons, hword]
    refine macroChunk_first hname hequal ht ?_
    by_cases hm : isMacroName m.name
    · rw [List.map_cons, ← List.singleton_append, accepted_append, accepted_line hm, if_pos hblocks,
        List.singleton_append] at hds
      obtain ⟨rfl, -⟩ := List.cons.inj hds
      refine Or.inr ⟨rfl, ?_⟩
      by_contra hstores
      refine hbad ⟨hm, fun c hc => ?_⟩
      have hc' : Quoted.single.stores c = true := by
        by_contra hfalse
        exact hstores ⟨c, hc, Bool.not_eq_true _ ▸ hfalse⟩
      simp only [Quoted.stores, Bool.and_eq_true, decide_eq_true_eq] at hc'
      exact ⟨hc'.2, hc'.1⟩
    · exact Or.inl fun heq => hm (heq ▸ hname)

/-- Each macro of flags that survive is safe: the first one that is not would be read as
something else. -/
theorem macros_of_survives (h : Answers sys r) (hs : Survives native sys r) :
    ∀ m ∈ r.macros, m.name ≠ blocks →
      isMacroName m.name ∧ ∀ c ∈ m.value, c ≠ '\'' ∧ c ≠ '\\' := by
  by_contra hall
  obtain ⟨before, m, after, hmacros, hbefore, hm⟩ := exists_first r.macros hall
  obtain ⟨hblocks, hbad⟩ := Classical.not_imp.mp hm
  obtain ⟨flags, hflags, -⟩ := id hs
  obtain ⟨-, -, -, hform⟩ := (findFlags_eq_some flags).mp hflags
  have hreads := reads_macros hbefore
  have hline : r.macros.map Macro.line =
      before.map Macro.line ++ (m :: after).map Macro.line := by
    rw [hmacros, List.map_append]
  have hwords : ∀ w ∈ (accepted (before.map Macro.line)).map (fun d => macroChunk d.1 d.2) ++
      (accepted ((m :: after).map Macro.line)).map (fun d => macroChunk d.1 d.2), w ≠ [] := by
    intro w hw
    rw [← List.map_append] at hw
    obtain ⟨d, -, rfl⟩ := List.mem_map.mp hw
    simp [macroChunk]
  have hother : NoMacro (addFlags
      (wrapped sys.supportPath (effectiveVersion (findMacros sys) (findIncludes sys))
        (findIncludes sys))
      (FindFlags.special (effectiveVersion (findMacros sys) (findIncludes sys)))) :=
    noMacro_addFlags (noMacro_wrapped _ (noMacro_includes h)) (noMacro_special _)
  generalize addFlags (wrapped _ _ _) _ = rest at hform hother
  have hread : commandLineParse flags = (commandLineParse (addFlags
      (joined ((accepted ((m :: after).map Macro.line)).map fun d => macroChunk d.1 d.2))
        rest)).map (macroArguments before ++ ·) := by
    rw [hform, findMacros_macros h.macros, hline, accepted_append, List.map_append,
      ← addFlags_joined hwords, addFlags_assoc, commandLineParse_addFlags (parses_joined hreads)]
  have hargs : arguments native sys r = macroArguments before ++
      ("-D".toList ++ m.name ++ '=' :: m.value) :: (macroArguments after ++
        (wrapperArguments native sys.supportPath (reportedVersion sys r) ++
          (pathArguments r.paths ++ builtinArguments (reportedVersion sys r)))) := by
    rw [arguments, hmacros, macroArguments, List.filter_append, List.map_append, List.filter_cons,
      if_pos (decide_eq_true hblocks), List.map_cons, List.append_assoc]
    rfl
  obtain ⟨x, xs, hfirst, hx⟩ := survives_tail hs hflags hread (macroArguments_addFlag before) hargs
  rw [addFlag_macro_inj hx] at hfirst
  exact bad_macro_first m after hblocks hbad hother hfirst

theorem wrapperDirectories_ne {v : Version} (h : 0 ≤ v.minor) : wrapperDirectories v ≠ [] := by
  rw [wrapperDirectories]
  split_ifs
  all_goals first | exact List.cons_ne_nil _ _ | omega

theorem reportedVersion_minor (h : Answers sys r) : 0 ≤ (reportedVersion sys r).minor := by
  obtain ⟨v, hv, hpos, -⟩ := h.wellFormed.minor
  rw [reportedVersion]
  simp only
  split_ifs
  · decide
  · rw [hv]
    exact hpos

theorem wrapperChunk_first {supportPath directory t x : Text} {xs : List Text} (ht : Tail t)
    (hbad : ∃ c ∈ supportPath, Quoted.double.stores c = false)
    (h : commandLineParse (wrapperChunk supportPath directory ++ t) = some (x :: xs)) :
    addFlag native x ≠ wrapperOption native ++ (supportPath ++ '/' :: directory) := by
  have hplain : ∀ c ∈ "-iwrapper".toList, Quoted.no.stores c := List.all_eq_true.mp (by decide)
  have htext : wrapperChunk supportPath directory ++ t = "-iwrapper".toList ++
      Quoted.double.mark :: (supportPath ++ '/' :: directory ++ Quoted.double.mark :: t) := by
    unfold wrapperChunk
    generalize "-iwrapper".toList = option
    simp [Quoted.mark]
  obtain ⟨r, hr, rfl⟩ := first_argument (c := '-') rfl (by decide) h
  rw [htext, parseArg_append hplain, (parseArg_quote (by decide) _).1] at hr
  obtain ⟨r', hr', rfl⟩ := Option.map_eq_some_iff.mp hr
  rw [addFlag_wrapper]
  intro heq
  obtain ⟨c, hc, hstores⟩ := hbad
  exact parseArg_quoted_ne (by decide) ht ⟨c, List.mem_append_left _ hc, hstores⟩ hr'
    (List.append_cancel_left heq)

/-- The place of the support headers is safe where the flags survive. -/
theorem supportPath_of_survives (h : Answers sys r) (hs : Survives native sys r) :
    ∀ c ∈ sys.supportPath, c ≠ '"' ∧ c ≠ '\\' := by
  have hsafe := macros_of_survives h hs
  obtain ⟨hmajor, hminor⟩ := findMacros_version h fun m hm hne => (hsafe m hm hne).1
  have hversion := effectiveVersion_report h (by rw [hmajor]; rfl) (by rw [hminor]; rfl)
  obtain ⟨flags, hflags, -⟩ := id hs
  obtain ⟨-, -, -, hform⟩ := (findFlags_eq_some flags).mp hflags
  obtain ⟨d, ds, hdirectories⟩ :=
    List.exists_cons_of_ne_nil (wrapperDirectories_ne (reportedVersion_minor h))
  have hread := commandLineParse_addFlags (b := addFlags
    (wrapped sys.supportPath (reportedVersion sys r) (findIncludes sys))
    (FindFlags.special (reportedVersion sys r))) (parses_macros h hsafe)
  rw [← hversion, ← hform] at hread
  rw [hversion, wrapped_eq, hdirectories, List.foldr_cons, wrapper_eq] at hread
  have hargs : arguments native sys r = macroArguments r.macros ++
      (wrapperOption native ++ (sys.supportPath ++ '/' :: d)) ::
        (ds.map (fun d => wrapperOption native ++ (sys.supportPath ++ '/' :: d)) ++
          (pathArguments r.paths ++ builtinArguments (reportedVersion sys r))) := by
    rw [arguments, wrapperArguments, hdirectories]
    rfl
  obtain ⟨x, xs, hfirst, hx⟩ :=
    survives_tail hs hflags hread (macroArguments_addFlag r.macros) hargs
  obtain ⟨t, ht, hwrapped⟩ := addFlags_append (wrapperChunk sys.supportPath d)
    (FindFlags.special (reportedVersion sys r))
    (List.append_ne_nil_of_right_ne_nil _ (List.cons_ne_nil _ _))
    (Or.inr ⟨ds.foldr (wrapper sys.supportPath) (findIncludes sys), rfl⟩)
  rw [hwrapped] at hfirst
  intro c hc
  by_contra hbad
  refine wrapperChunk_first ht ⟨c, hc, ?_⟩ hfirst hx
  by_contra hstores
  simp only [Quoted.stores, Bool.not_eq_false, Bool.and_eq_true, decide_eq_true_eq] at hstores
  exact hbad ⟨hstores.2, hstores.1⟩

end Failures

/-- The flags survive exactly where the macros, the place of the support headers and the paths
are such that the quotes hold them. -/
theorem survives_iff (native : Bool) (sys : System) (r : Report) (h : Answers sys r) :
    Survives native sys r ↔ Safe sys r := by
  constructor
  · intro hs
    have hmacros := macros_of_survives h hs
    have hpath := supportPath_of_survives h hs
    exact ⟨hmacros, hpath, (survives_iff_paths h hmacros hpath).mp hs⟩
  · intro hsafe
    exact (survives_iff_paths h hsafe.macros hsafe.supportPath).mpr hsafe.paths

section Example

/-- `#define Q 'a'`, the body of which has quotes. -/
def quoteMacro : Macro where
  name := ['Q']
  value := ['\'', 'a', '\'']
  name_ne := by decide
  name_chars := forall_mem_of_all (by decide)
  value_line := by decide

/-- A GCC 4.1 with one path and some macros of its own. -/
def gccReport (ms : List Macro) : Report where
  macros := ⟨gnuc, ['4'], by decide, forall_mem_of_all (by decide), by decide⟩ ::
    ⟨gnucMinor, ['1'], by decide, forall_mem_of_all (by decide), by decide⟩ :: ms
  paths := [⟨"/usr".toList, forall_mem_of_all (by decide)⟩]
  before := []
  after := "End of search list.".toList

def gccSystem (ms : List Macro) : System where
  macroReport := (gccReport ms).macroReport
  verboseReport := (gccReport ms).verboseReport
  supportPath := "/GCC".toList
  getEnvHome := none
  getpwnam := fun _ => none

theorem answers_gcc (ms : List Macro) : Answers (gccSystem ms) (gccReport ms) where
  macros := rfl
  verbose := rfl
  wellFormed :=
    { major := ⟨4, rfl, by decide, by decide⟩
      minor := ⟨1, rfl, by decide, by decide⟩
      before_line := Or.inl rfl
      before_list := by
        show ¬ "#include <...".toList <:+: ([] : Text)
        decide
      after_line := by
        show "End of search list.".toList.head? ≠ _ ∧ "End of search list.".toList.head? ≠ _
        decide
      after_list := by
        show ¬ "#include <...".toList <:+: "End of search list.".toList
        decide }
  home := fun h hh => by cases hh
  homes := fun user dir hd => by cases hd

theorem quote_does_not_survive :
    Answers (gccSystem [quoteMacro]) (gccReport [quoteMacro]) ∧
      ¬ Survives false (gccSystem [quoteMacro]) (gccReport [quoteMacro]) := by
  refine ⟨answers_gcc _, fun hs => ?_⟩
  have hsafe := macros_of_survives (answers_gcc _) hs quoteMacro
    (List.mem_cons_of_mem _ (List.mem_cons_of_mem _ List.mem_cons_self)) (by decide)
  exact absurd (hsafe.2 '\'' List.mem_cons_self).1 (by decide)

theorem plain_flags_survive :
    Survives false (gccSystem []) (gccReport []) := by
  refine (survives_iff false (gccSystem []) (gccReport []) (answers_gcc [])).mpr ?_
  refine ⟨fun m hm hne => ?_, forall_mem_of_all (by decide), by decide⟩
  rcases List.mem_cons.mp hm with rfl | hm
  · exact ⟨by decide, forall_mem_of_all (by decide)⟩
  · rw [List.mem_singleton.mp hm]
    exact ⟨by decide, forall_mem_of_all (by decide)⟩

end Example

end CableSwig.GxFront.FlagsRoundTrip
