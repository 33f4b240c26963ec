import CableSwig.Lib.FallibleState
import CableSwig.Lib.Fuel
import CableSwig.Lib.StdString

/-!
# The group and the package of a configuration

`CableSwig`, `cidx` and `TclGenerator` each have their own copy of the code that reads the
variables of the `_cable_` namespace. A name is what stands between the first and the last quote
of an initializer, and the list of groups is cut at its commas and braces.
-/
namespace CableSwig.Executables.GroupList

open CableSwig.Lib.FallibleState
open CableSwig.Lib.Fuel
open CableSwig.Lib.StdString

structure Variable where
  initializer : Text
  file : Text

/-- The first declaration that has a name. -/
inductive Declaration
  | variable (v : Variable)
  | other

/-- The declarations in `_cable_`. -/
abbrev ConfigNamespace := Text → Option Declaration

/-- What has been read of the configuration, and what has been written to the error stream. -/
structure Reading where
  groupName : Text := []
  groupsNames : List Text := []
  packageName : Text := []
  packageVersion : Text := []
  configFile : Text := []
  cerr : List Text := []

/-- An error ends the reading. -/
def error {α : Type} (report : Text → Text) (message : Text) : Action Reading α := do
  .update fun s => { s with cerr := s.cerr ++ [report message] }
  .fail

/-- `ParseName`. -/
def parseName (name : Text) : Option Text :=
  let l := find name '"' 0
  let r := rfind name '"'
  if l ≠ npos && r ≠ npos && l < r then
    some (substr name (addSize l 1) (subSize (subSize r l) 1))
  else none

section Groups

/-- The characters at which a list of groups is cut. -/
def terminators : Text := [',', '\x7d']

/-- The loop over a list of groups, from a position on. -/
def groupsLoop (report : Text → Text) (gl : Text) : Nat → Nat → Action Reading Unit
  | 0, _ => .outOfFuel
  | fuel + 1, lpos =>
    if lpos ≠ npos && lpos < gl.length then
      let rpos := findFirstOf gl terminators lpos
      match if rpos = npos then none else parseName (substr gl lpos (subSize rpos lpos)) with
      | none => error report "Error parsing groups list.".toList
      | some result => do
        .update fun s => { s with groupsNames := s.groupsNames ++ [result] }
        groupsLoop report gl fuel (addSize rpos 1)
    else pure ()

def readGroups (report : Text → Text) (fuel : Nat) (gl : Text) : Action Reading Unit :=
  groupsLoop report gl fuel (find gl '"' 0)

end Groups

section Readers

variable (report : Text → Text)

/-- What is there under a name. -/
def findVariable (cns : ConfigNamespace) (name : Text) : Action Reading (Option Variable) :=
  match cns name with
  | none => pure none
  | some (.variable v) => pure (some v)
  | some .other =>
    error report ("Identifier _cable_::".toList ++ name ++ " is not a variable.".toList)

structure Variables where
  group : Option Variable
  groups : Option Variable
  package : Option Variable
  packageVersion : Option Variable

def findVariables (cns : ConfigNamespace) : Action Reading Variables := do
  let group ← findVariable report cns "group".toList
  let groups ← findVariable report cns "groups".toList
  let package ← findVariable report cns "package".toList
  let packageVersion ← findVariable report cns "package_version".toList
  pure ⟨group, groups, package, packageVersion⟩

/-- Take a name from the initializer of a variable, if there is the variable. -/
def readName (message : Text) (hold : Text → Text → Reading → Reading) :
    Option Variable → Action Reading Unit
  | none => pure ()
  | some v =>
    match parseName v.initializer with
    | none => error report message
    | some result => .update (hold v.file result)

/-- The part of the readers behind the search for the variables. Not every one of them holds on
to the name of the configuration file. -/
def readVariables (holdFile : Bool) (fuel : Nat) (vs : Variables) : Action Reading Unit := do
  readName report "Error parsing group name.".toList (fun file name s =>
    { s with groupName := name, configFile := if holdFile then file else s.configFile }) vs.group
  readName report "Error parsing package name.".toList (fun _ name s =>
    { s with packageName := name }) vs.package
  readName report "Error parsing package version string.".toList (fun _ name s =>
    { s with packageVersion := name }) vs.packageVersion
  match vs.groups with
  | none => pure ()
  | some v => readGroups report fuel v.initializer

def readInformation (holdFile : Bool) (fuel : Nat) (cns : ConfigNamespace) :
    Action Reading Variables := do
  let vs ← findVariables report cns
  readVariables report holdFile fuel vs
  pure vs

end Readers

section Copies

/-- A line on the error stream. -/
def cerrLine (message : Text) : Text := message ++ ['\n']

/-- The loop in `CableSwig::GetGroupAndPackageInformation`. -/
def cableSwigGroups : Nat → Text → Action Reading Unit := readGroups cerrLine

/-- `CableSwig::GetGroupAndPackageInformation`. -/
def cableSwigGetGroupAndPackageInformation (fuel : Nat) (cns : ConfigNamespace) :
    Action Reading Unit := do
  let _ ← readInformation cerrLine true fuel cns

/-- The loop in `GetGroupAndPackageInformation` of `cidx`. -/
def cidxGroups : Nat → Text → Action Reading Unit := readGroups cerrLine

/-- `GetGroupAndPackageInformation` of `cidx`. -/
def cidxGetGroupAndPackageInformation (fuel : Nat) (cns : ConfigNamespace) :
    Action Reading Unit := do
  let _ ← readInformation cerrLine false fuel cns

/-- What an error message says besides the message: the source line it comes from, and the
object. -/
structure ErrorPlace where
  line : Text → Text
  pointer : Text

/-- `cableErrorMacro` in `TclGenerator`. -/
def cableErrorMacro (place : ErrorPlace) (message : Text) : Text :=
  "ERROR: In ".toList ++ place.line message ++ "\nTclGenerator (".toList ++ place.pointer ++
    "): ".toList ++ message ++ "\n\n".toList

/-- The loop in `TclGenerator::FindConfiguration`. -/
def tclGroups (place : ErrorPlace) : Nat → Text → Action Reading Unit :=
  readGroups (cableErrorMacro place)

/-- What the global namespace has under `_cable_`. -/
inductive GlobalDeclaration
  | configNamespace (cns : ConfigNamespace)
  | other

/-- The checks in `TclGenerator::FindConfiguration` behind the reading. The result is whether to
write a group and whether to write a package. -/
def checkVariables (report : Text → Text) (vs : Variables) : Action Reading (Bool × Bool) :=
  if vs.groups.isSome && vs.package.isNone then
    error report "Groups listed with no package.".toList
  else if vs.package.isSome && vs.groups.isNone then
    error report "Package requested with no groups listed.".toList
  else if vs.packageVersion.isSome && vs.package.isNone then
    error report "Package version specified with no package.".toList
  else if vs.group.isNone && vs.package.isNone && vs.groups.isNone then
    error report "No configuration given.".toList
  else pure (vs.group.isSome, vs.package.isSome)

/-- `TclGenerator::FindConfiguration` up to the wrappers. -/
def findConfiguration (place : ErrorPlace) (fuel : Nat) (found : Option GlobalDeclaration) :
    Action Reading (Bool × Bool) :=
  let report := cableErrorMacro place
  match found with
  | none => error report "Could not find _cable_ namespace in input.\n".toList
  | some .other => error report "Identifier _cable_ is not a namespace.".toList
  | some (.configNamespace cns) => do
    let vs ← readInformation report true fuel cns
    checkVariables report vs

end Copies

section Agreement

/-- The same names, whatever has been reported and whatever the file is. -/
def SameNames (s s' : Reading) : Prop :=
  s.groupName = s'.groupName ∧ s.groupsNames = s'.groupsNames ∧
    s.packageName = s'.packageName ∧ s.packageVersion = s'.packageVersion

variable (report report' : Text → Text)

theorem error_agree {α : Type} (message : Text) :
    Action.Agree SameNames (error report message : Action Reading α) (error report' message) := by
  apply Action.Agree.bind
  · apply Action.Agree.update
    exact fun _ _ h => h
  · exact fun _ => .fail

theorem groupsLoop_agree (gl : Text) (fuel lpos : Nat) :
    Action.Agree SameNames (groupsLoop report gl fuel lpos) (groupsLoop report' gl fuel lpos) := by
  induction fuel generalizing lpos with
  | zero => exact .outOfFuel
  | succ fuel ih =>
    rw [groupsLoop, groupsLoop]
    split
    · dsimp only
      split
      · exact error_agree report report' _
      · rename_i result _
        refine (Action.Agree.update fun s s' h => ?_).bind fun _ => ih _
        exact ⟨h.1, congrArg (· ++ [result]) h.2.1, h.2.2⟩
    · exact .pure ()

theorem findVariable_agree (cns : ConfigNamespace) (name : Text) :
    Action.Agree SameNames (findVariable report cns name) (findVariable report' cns name) := by
  rw [findVariable, findVariable]
  split
  · exact .pure none
  · exact .pure (some _)
  · exact error_agree report report' _

theorem findVariables_agree (cns : ConfigNamespace) :
    Action.Agree SameNames (findVariables report cns) (findVariables report' cns) := by
  have hfind := findVariable_agree report report' cns
  refine (hfind _).bind fun group => (hfind _).bind fun groups => ?_
  exact (hfind _).bind fun package => (hfind _).bind fun packageVersion => .pure _

theorem readName_agree (message : Text) {hold hold' : Text → Text → Reading → Reading}
    (h : ∀ file name s s', SameNames s s' → SameNames (hold file name s) (hold' file name s'))
    (v : Option Variable) :
    Action.Agree SameNames (readName report message hold v) (readName report' message hold' v) := by
  cases v with
  | none => exact .pure ()
  | some v =>
    rw [readName, readName]
    split
    · exact error_agree report report' message
    · exact .update (h _ _)

/-- The copies read the same variables and the same names from them. -/
theorem readInformation_agree (holdFile holdFile' : Bool) (fuel : Nat) (cns : ConfigNamespace) :
    Action.Agree SameNames (readInformation report holdFile fuel cns)
      (readInformation report' holdFile' fuel cns) := by
  refine (findVariables_agree report report' cns).bind fun vs => ?_
  refine Action.Agree.bind ?_ fun _ => .pure vs
  refine (readName_agree report report' _ ?_ vs.group).bind fun _ => ?_
  · exact fun _ name s s' h => ⟨rfl, h.2⟩
  refine (readName_agree report report' _ ?_ vs.package).bind fun _ => ?_
  · exact fun _ name s s' h => ⟨h.1, h.2.1, rfl, h.2.2.2⟩
  refine (readName_agree report report' _ ?_ vs.packageVersion).bind fun _ => ?_
  · exact fun _ name s s' h => ⟨h.1, h.2.1, h.2.2.1, rfl⟩
  cases vs.groups with
  | none => exact .pure ()
  | some v => exact groupsLoop_agree report report' v.initializer fuel _

theorem getGroupAndPackageInformation_agree (fuel : Nat) (cns : ConfigNamespace) :
    Action.Agree SameNames (cableSwigGetGroupAndPackageInformation fuel cns)
      (cidxGetGroupAndPackageInformation fuel cns) :=
  (readInformation_agree cerrLine cerrLine true false fuel cns).bind fun _ => .pure ()

theorem checkVariables_some {vs : Variables} {s t : Reading} {flags : Bool × Bool}
    (h : checkVariables report vs s = some (some flags, t)) : t = s := by
  rw [checkVariables] at h
  split at h
  · cases h
  split at h
  · cases h
  split at h
  · cases h
  split at h
  · cases h
  · exact (Prod.mk.inj (Option.some.inj h)).2.symm

/-- The names in a configuration that `TclGenerator` accepts are those that the others read. -/
theorem findConfiguration_agree {place : ErrorPlace} {fuel : Nat} {cns : ConfigNamespace}
    {s s' t : Reading} {flags : Bool × Bool} (hs : SameNames s s')
    (h : findConfiguration place fuel (some (.configNamespace cns)) s = some (some flags, t)) :
    ∃ t', cableSwigGetGroupAndPackageInformation fuel cns s' = some (some (), t') ∧
      SameNames t t' := by
  have hagree := readInformation_agree (cableErrorMacro place) cerrLine true true fuel cns
  simp only [findConfiguration, Action.bind_eq] at h
  cases hread : readInformation (cableErrorMacro place) true fuel cns s with
  | none =>
    rw [hread] at h
    cases h
  | some outcome =>
    obtain ⟨r, u⟩ := outcome
    rw [hread] at h
    cases r with
    | none => cases h
    | some vs =>
      obtain rfl := checkVariables_some _ h
      obtain ⟨t', hread', hsame⟩ := hagree.exists_some hs hread
      refine ⟨t', ?_, hsame⟩
      rw [cableSwigGetGroupAndPackageInformation, Action.bind_eq, hread']
      rfl

end Agreement

section Names

theorem exists_last {c : Char} {s : Text} (h : c ∈ s) : ∃ a r, s = a ++ c :: r ∧ c ∉ r := by
  obtain ⟨a, r, hs, ha⟩ := List.eq_append_cons_of_mem (List.mem_reverse.mpr h)
  refine ⟨r.reverse, a.reverse, ?_, fun hc => ha (List.mem_reverse.mp hc)⟩
  rw [← List.reverse_reverse s, hs]
  simp

theorem parseName_quoted {t x n y : Text} (ht : t = x ++ '"' :: (n ++ '"' :: y))
    (hlen : t.length < npos) (hx : '"' ∉ x) (hy : '"' ∉ y) : parseName t = some n := by
  have hlength := congrArg List.length ht
  simp only [List.length_append, List.length_cons] at hlength
  have hl : find t '"' 0 = x.length := find_first ht hx
  have ht' : t = (x ++ '"' :: n) ++ '"' :: y := by simp [ht]
  have hr : rfind t '"' = x.length + 1 + n.length := by
    rw [rfind_eq ht' hy, List.length_append, List.length_cons]
    omega
  simp only [parseName, hl, hr]
  rw [if_pos, substr_between ht hlen]
  simp only [Bool.and_eq_true, decide_eq_true_eq]
  omega

/-- The name is what stands between the first and the last quote. -/
theorem parseName_eq_some {t n : Text} (hlen : t.length < npos) (h : parseName t = some n) :
    ∃ x y, '"' ∉ x ∧ '"' ∉ y ∧ t = x ++ '"' :: (n ++ '"' :: y) := by
  by_cases hmem : '"' ∈ t
  · obtain ⟨x, u, ht, hx⟩ := List.eq_append_cons_of_mem hmem
    by_cases hu : '"' ∈ u
    · obtain ⟨m, y, rfl, hy⟩ := exists_last hu
      rw [parseName_quoted ht hlen hx hy] at h
      obtain rfl := Option.some.inj h
      exact ⟨x, y, hx, hy, ht⟩
    · -- The only quote is the first one and the last one.
      have hl : find t '"' 0 = x.length := find_first ht hx
      have hr : rfind t '"' = x.length := rfind_eq ht hu
      rw [parseName, if_neg (by simp [hl, hr])] at h
      cases h
  · have hl : find t '"' 0 = npos := (find_eq_npos_iff hlen '"').mpr hmem
    rw [parseName, if_neg (by simp [hl])] at h
    cases h

end Names

section Pieces

/-- A piece of a list of groups, with the comma or the brace that ends it. -/
structure Piece where
  before : Text
  name : Text
  after : Text
  terminator : Char
  noQuote : '"' ∉ before ∧ '"' ∉ after
  uncut : ∀ c ∈ before ++ '"' :: (name ++ '"' :: after), c ∉ terminators
  ends : terminator ∈ terminators

/-- The piece without what ends it. -/
def Piece.body (p : Piece) : Text := p.before ++ '"' :: (p.name ++ '"' :: p.after)

def Piece.text (p : Piece) : Text := p.body ++ [p.terminator]

variable {report : Text → Text} {gl b : Text}

/-- What the loop leaves: the names it has found, and its message where it has failed. -/
def Reading.found (report : Text → Text) (r : Option Unit) (names : List Text) (s : Reading) :
    Reading :=
  { s with
    groupsNames := s.groupsNames ++ names
    cerr := if r = none then s.cerr ++ [report "Error parsing groups list.".toList] else s.cerr }

theorem Reading.found_found (r : Option Unit) (n : Text) (names : List Text) (s : Reading) :
    (s.found report (some ()) [n]).found report r names = s.found report r (n :: names) := by
  simp only [found, reduceCtorEq, if_false, List.append_assoc, List.singleton_append]

theorem groupsLoop_end (hgl : gl = b) (fuel : Nat) (s : Reading) :
    groupsLoop report gl (fuel + 1) b.length s = some (some (), s.found report (some ()) []) := by
  subst hgl
  have hnot : ¬ (gl.length ≠ npos && gl.length < gl.length) = true := by simp
  rw [groupsLoop, if_neg hnot]
  simp [pure, Reading.found]

/-- The loop goes on behind what ends a piece. -/
theorem groupsLoop_piece {t r : Text} {d : Char} (hgl : gl = b ++ (t ++ d :: r))
    (hlen : gl.length < npos) (ht : ∀ c ∈ t, c ∉ terminators) (hd : d ∈ terminators)
    (fuel : Nat) (s : Reading) :
    groupsLoop report gl (fuel + 1) b.length s =
      match parseName t with
      | none => some (none, s.found report none [])
      | some n => groupsLoop report gl fuel (b ++ (t ++ [d])).length
          (s.found report (some ()) [n]) := by
  have hlength := congrArg List.length hgl
  simp only [List.length_append, List.length_cons] at hlength
  have hlt : (b.length ≠ npos && b.length < gl.length) = true := by
    simp only [Bool.and_eq_true, decide_eq_true_eq]
    omega
  have hrpos : findFirstOf gl terminators b.length = b.length + t.length :=
    findFirstOf_eq hgl ht hd
  have hcount : subSize (b.length + t.length) b.length = t.length := by
    rw [subSize_eq (by omega) (by omega), Nat.add_sub_cancel_left]
  have hnext : addSize (b.length + t.length) 1 = (b ++ (t ++ [d])).length := by
    rw [addSize_eq (by omega)]
    simp only [List.length_append, List.length_singleton]
    omega
  have hsub : substr gl b.length t.length = t := substr_eq hgl
  rw [groupsLoop, if_pos hlt]
  simp only [hrpos, hcount, hsub, hnext]
  rw [if_neg (by omega)]
  cases parseName t with
  | none => simp [error, Action.bind_eq, Action.update, Action.fail, Reading.found]
  | some n => simp [Action.bind_eq, Action.update, Reading.found]

/-- Nothing ends the last piece. -/
theorem groupsLoop_unended {t : Text} (hgl : gl = b ++ t) (hlen : gl.length < npos)
    (hne : t ≠ []) (ht : ∀ c ∈ t, c ∉ terminators) (fuel : Nat) (s : Reading) :
    groupsLoop report gl (fuel + 1) b.length s = some (none, s.found report none []) := by
  have hlength := congrArg List.length hgl
  rw [List.length_append] at hlength
  have hpos : 0 < t.length := List.length_pos_iff.mpr hne
  have hlt : (b.length ≠ npos && b.length < gl.length) = true := by
    simp only [Bool.and_eq_true, decide_eq_true_eq]
    omega
  have hrpos : findFirstOf gl terminators b.length = npos := findFirstOf_eq_npos hgl ht
  rw [groupsLoop, if_pos hlt, hrpos]
  simp [error, Action.bind_eq, Action.update, Action.fail, Reading.found]

theorem Piece.body_uncut (p : Piece) : ∀ c ∈ p.body, c ∉ terminators := p.uncut

theorem Piece.parseName_body (p : Piece) (hlen : p.body.length < npos) :
    parseName p.body = some p.name :=
  parseName_quoted rfl hlen p.noQuote.1 p.noQuote.2

/-- The names of all pieces, to the end of the string. -/
theorem groupsLoop_pieces (ps : List Piece) :
    ∀ b, gl = b ++ ps.flatMap Piece.text → gl.length < npos → ∀ s,
      Enough fun fuel => groupsLoop report gl fuel b.length s =
        some (some (), s.found report (some ()) (ps.map Piece.name)) := by
  induction ps with
  | nil =>
    intro b hgl _ s
    rw [List.flatMap_nil, List.append_nil] at hgl
    exact Enough.of_succ fun fuel => groupsLoop_end hgl fuel s
  | cons p ps ih =>
    intro b hgl hlen s
    have hcut : gl = b ++ (p.body ++ p.terminator :: ps.flatMap Piece.text) := by
      simp [hgl, Piece.text]
    have hbody : p.body.length < npos := by
      rw [hcut, List.length_append, List.length_append] at hlen
      omega
    have hrest : gl = (b ++ (p.body ++ [p.terminator])) ++ ps.flatMap Piece.text := by
      simp [hcut]
    refine (ih _ hrest hlen (s.found report (some ()) [p.name])).step fun fuel h => ?_
    rw [groupsLoop_piece hcut hlen p.body_uncut p.ends, p.parseName_body hbody]
    rw [Reading.found_found] at h
    exact h

/-- A text is cut at its first terminator, if there is one. -/
theorem exists_terminator (r : Text) :
    (∀ c ∈ r, c ∉ terminators) ∨
      ∃ t d r', r = t ++ d :: r' ∧ (∀ c ∈ t, c ∉ terminators) ∧ d ∈ terminators := by
  induction r with
  | nil => exact Or.inl fun c hc => absurd hc List.not_mem_nil
  | cons c r ih =>
    by_cases hc : c ∈ terminators
    · exact Or.inr ⟨[], c, r, rfl, fun x hx => absurd hx List.not_mem_nil, hc⟩
    · rcases ih with h | ⟨t, d, r', rfl, ht, hd⟩
      · exact Or.inl (List.forall_mem_cons.mpr ⟨hc, h⟩)
      · exact Or.inr ⟨c :: t, d, r', rfl, List.forall_mem_cons.mpr ⟨hc, ht⟩, hd⟩

/-- Whatever the string is, the loop takes pieces from it until one is missing. -/
theorem groupsLoop_every (r : Text) (hr : r.length < npos) :
    ∃ (ps : List Piece) (rest : Text), r = ps.flatMap Piece.text ++ rest ∧
      ∀ report gl b, gl = b ++ r → gl.length < npos → ∀ s, Enough fun fuel =>
        groupsLoop report gl fuel b.length s =
          some (if rest = [] then some () else none,
            s.found report (if rest = [] then some () else none) (ps.map Piece.name)) := by
  induction hn : r.length using Nat.strong_induction_on generalizing r with
  | _ n ih =>
    by_cases hne : r = []
    · refine ⟨[], [], hne, fun report gl b hgl _ s => ?_⟩
      rw [hne, List.append_nil] at hgl
      exact Enough.of_succ fun fuel => groupsLoop_end hgl fuel s
    · rcases exists_terminator r with hall | ⟨t, d, r', rfl, ht, hd⟩
      · refine ⟨[], r, rfl, fun report gl b hgl hlen s => Enough.of_succ fun fuel => ?_⟩
        rw [groupsLoop_unended hgl hlen hne hall, if_neg hne]
        rfl
      · have hlength : (t ++ d :: r').length = t.length + (r'.length + 1) := by
          rw [List.length_append, List.length_cons]
        cases hname : parseName t with
        | none =>
          refine ⟨[], t ++ d :: r', rfl, fun report gl b hgl hlen s => ?_⟩
          refine Enough.of_succ fun fuel => ?_
          rw [groupsLoop_piece hgl hlen ht hd, hname, if_neg hne]
          rfl
        | some m =>
          obtain ⟨x, y, hx, hy, rfl⟩ := parseName_eq_some (by omega) hname
          obtain ⟨ps, rest, hps, hloop⟩ := ih r'.length (by omega) r' (by omega) rfl
          refine ⟨⟨x, m, y, d, ⟨hx, hy⟩, ht, hd⟩ :: ps, rest, ?_, ?_⟩
          · simp [hps, Piece.text, Piece.body]
          · intro report gl b hgl hlen s
            have hrest : gl = (b ++ ((x ++ '"' :: (m ++ '"' :: y)) ++ [d])) ++ r' := by
              simp [hgl]
            refine (hloop report gl _ hrest hlen (s.found report (some ()) [m])).step ?_
            intro fuel h
            rw [groupsLoop_piece hgl hlen ht hd, hname]
            rw [Reading.found_found] at h
            exact h

end Pieces

section Lists

variable {report : Text → Text} {gl : Text}

theorem readGroups_unquoted (h : '"' ∉ gl) (hlen : gl.length < npos) (s : Reading) :
    Enough fun fuel => readGroups report fuel gl s =
      some (some (), s.found report (some ()) []) := by
  refine Enough.of_succ fun fuel => ?_
  rw [readGroups, (find_eq_npos_iff hlen '"').mpr h, groupsLoop, if_neg (by simp)]
  simp only [pure, Reading.found, reduceCtorEq, if_false, List.append_nil]

/-- The loop starts at the first quote. -/
theorem readGroups_quoted {skipped u : Text} (hgl : gl = skipped ++ '"' :: u)
    (h : '"' ∉ skipped) (fuel : Nat) :
    readGroups report fuel gl = groupsLoop report gl fuel skipped.length := by
  rw [readGroups, find_first hgl h]

/-- A piece from its first quote on. -/
def Piece.fromQuote (p : Piece) : Piece where
  before := []
  name := p.name
  after := p.after
  terminator := p.terminator
  noQuote := ⟨List.not_mem_nil, p.noQuote.2⟩
  uncut := fun c hc => p.uncut c (List.mem_append_right _ hc)
  ends := p.ends

theorem Piece.text_eq (p : Piece) : p.text = p.before ++ p.fromQuote.text := by
  simp [text, body, fromQuote]

theorem readGroups_pieces {skipped : Text} {ps : List Piece}
    (hgl : gl = skipped ++ ps.flatMap Piece.text) (h : '"' ∉ skipped) (hlen : gl.length < npos)
    (s : Reading) :
    Enough fun fuel => readGroups report fuel gl s =
      some (some (), s.found report (some ()) (ps.map Piece.name)) := by
  cases ps with
  | nil =>
    rw [List.flatMap_nil, List.append_nil] at hgl
    exact readGroups_unquoted (hgl ▸ h) hlen s
  | cons p ps =>
    have hstart : gl = (skipped ++ p.before) ++ (p.fromQuote :: ps).flatMap Piece.text := by
      simp [hgl, p.text_eq]
    have hquote : gl = (skipped ++ p.before) ++
        '"' :: (p.name ++ '"' :: (p.after ++ p.terminator :: ps.flatMap Piece.text)) := by
      simp [hstart, Piece.text, Piece.body, Piece.fromQuote]
    have hskipped : '"' ∉ skipped ++ p.before := by
      intro hmem
      rcases List.mem_append.mp hmem with hmem | hmem
      · exact h hmem
      · exact p.noQuote.1 hmem
    have hloop : Enough fun fuel => groupsLoop report gl fuel (skipped ++ p.before).length s =
        some (some (), s.found report (some ()) (p.name :: ps.map Piece.name)) :=
      groupsLoop_pieces (p.fromQuote :: ps) _ hstart hlen s
    refine hloop.mono fun fuel hfound => ?_
    rw [readGroups_quoted hquote hskipped]
    exact hfound

theorem readGroups_every (gl : Text) (hlen : gl.length < npos) :
    ∃ (skipped : Text) (ps : List Piece) (rest : Text),
      gl = skipped ++ (ps.flatMap Piece.text ++ rest) ∧ '"' ∉ skipped ∧
      ∀ report s, Enough fun fuel => readGroups report fuel gl s =
        some (if rest = [] then some () else none,
          s.found report (if rest = [] then some () else none) (ps.map Piece.name)) := by
  by_cases hmem : '"' ∈ gl
  · obtain ⟨skipped, u, hgl, hskipped⟩ := List.eq_append_cons_of_mem hmem
    have hlength := congrArg List.length hgl
    rw [List.length_append] at hlength
    obtain ⟨ps, rest, hps, hloop⟩ := groupsLoop_every ('"' :: u) (by omega)
    refine ⟨skipped, ps, rest, by rw [hgl, hps], hskipped, fun report s => ?_⟩
    refine (hloop report gl skipped hgl hlen s).mono fun fuel h => ?_
    rw [readGroups_quoted hgl hskipped]
    exact h
  · refine ⟨gl, [], [], by simp, hmem, fun report s => ?_⟩
    rw [if_pos rfl]
    exact readGroups_unquoted hmem hlen s

/-- A text without quotes, commas and braces. -/
def Plain (t : Text) : Prop := ∀ c ∈ t, c ∉ ['"', ',', '\x7b', '\x7d']

/-- A list of groups as an initializer, each name in quotes behind its prefix. -/
def rendered (groups : List (Text × Text)) : Text :=
  '\x7b' :: ([','].intercalate (groups.map fun g => g.1 ++ '"' :: (g.2 ++ ['"'])) ++ ['\x7d'])

/-- The piece for a prefix and a name. -/
def Piece.ofGroup (g : Text × Text) (h : Plain g.1 ∧ Plain g.2) (d : Char)
    (hd : d ∈ terminators) : Piece where
  before := g.1
  name := g.2
  after := []
  terminator := d
  noQuote := ⟨fun hc => h.1 _ hc (by simp), List.not_mem_nil⟩
  uncut := by
    intro c hc hterm
    have hplain : c ∈ ['"', ',', '\x7b', '\x7d'] := by
      rcases List.mem_cons.mp hterm with rfl | hc'
      · simp
      · rw [List.mem_singleton.mp hc']
        simp
    have hquote : '"' ∉ terminators := by decide
    simp only [List.mem_append, List.mem_cons, List.not_mem_nil, or_false] at hc
    rcases hc with hc | rfl | hc | rfl
    · exact h.1 c hc hplain
    · exact hquote hterm
    · exact h.2 c hc hplain
    · exact hquote hterm
  ends := hd

theorem exists_pieces (groups : List (Text × Text))
    (h : ∀ g ∈ groups, Plain g.1 ∧ Plain g.2) (hne : groups ≠ []) :
    ∃ ps : List Piece, ps.map Piece.name = groups.map Prod.snd ∧
      [','].intercalate (groups.map fun g => g.1 ++ '"' :: (g.2 ++ ['"'])) ++ ['\x7d'] =
        ps.flatMap Piece.text := by
  induction groups with
  | nil => exact absurd rfl hne
  | cons g groups ih =>
    have hg := h g List.mem_cons_self
    cases groups with
    | nil =>
      refine ⟨[Piece.ofGroup g hg '\x7d' (by decide)], rfl, ?_⟩
      simp [List.intercalate_singleton, Piece.ofGroup, Piece.text, Piece.body]
    | cons g' groups =>
      obtain ⟨ps, hnames, hps⟩ := ih (fun x hx => h x (List.mem_cons_of_mem _ hx))
        (List.cons_ne_nil _ _)
      refine ⟨Piece.ofGroup g hg ',' (by decide) :: ps, ?_, ?_⟩
      · rw [List.map_cons, List.map_cons, hnames]
        rfl
      · rw [List.map_cons] at hps
        rw [List.map_cons, List.map_cons, List.intercalate_cons_cons, List.append_assoc, hps]
        simp [Piece.ofGroup, Piece.text, Piece.body]

theorem readGroups_rendered (groups : List (Text × Text))
    (h : ∀ g ∈ groups, Plain g.1 ∧ Plain g.2) (hlen : (rendered groups).length < npos)
    (s : Reading) :
    Enough fun fuel => readGroups report fuel (rendered groups) s =
      some (some (), s.found report (some ()) (groups.map Prod.snd)) := by
  cases groups with
  | nil => exact readGroups_unquoted (by decide) hlen s
  | cons g groups =>
    obtain ⟨ps, hnames, hps⟩ := exists_pieces (g :: groups) h (List.cons_ne_nil _ _)
    have hgl : rendered (g :: groups) = ['\x7b'] ++ ps.flatMap Piece.text := by
      rw [rendered, hps]
      rfl
    rw [← hnames]
    exact readGroups_pieces hgl (by decide) hlen s

/-- The three copies of the loop, each with the way in which it reports errors. -/
def readers (place : ErrorPlace) : List ((Text → Text) × (Nat → Text → Action Reading Unit)) :=
  [(cerrLine, cableSwigGroups), (cerrLine, cidxGroups),
    (cableErrorMacro place, tclGroups place)]

theorem readers_eq {place : ErrorPlace}
    {reader : (Text → Text) × (Nat → Text → Action Reading Unit)} (h : reader ∈ readers place) :
    reader.2 = readGroups reader.1 := by
  simp only [readers, List.mem_cons, List.not_mem_nil, or_false] at h
  rcases h with rfl | rfl | rfl
  · rfl
  · rfl
  · rfl

/-- Lists of groups are read back by each of the readers. Any string is cut into pieces up to
the place where none follows, and the names in them are what all the readers return. -/
theorem groups_read (place : ErrorPlace) :
    (∀ groups : List (Text × Text), (∀ g ∈ groups, Plain g.1 ∧ Plain g.2) →
      (rendered groups).length < npos → ∀ reader ∈ readers place, ∀ s, Enough fun fuel =>
        reader.2 fuel (rendered groups) s =
          some (some (), s.found reader.1 (some ()) (groups.map Prod.snd))) ∧
    ∀ gl : Text, gl.length < npos → ∃ (skipped : Text) (ps : List Piece) (rest : Text),
      gl = skipped ++ (ps.flatMap Piece.text ++ rest) ∧ '"' ∉ skipped ∧
      ∀ reader ∈ readers place, ∀ s, Enough fun fuel => reader.2 fuel gl s =
        some (if rest = [] then some () else none,
          s.found reader.1 (if rest = [] then some () else none) (ps.map Piece.name)) := by
  constructor
  · intro groups h hlen reader hreader s
    rw [readers_eq hreader]
    exact readGroups_rendered groups h hlen s
  · intro gl hlen
    obtain ⟨skipped, ps, rest, hgl, hskipped, hread⟩ := readGroups_every gl hlen
    refine ⟨skipped, ps, rest, hgl, hskipped, fun reader hreader s => ?_⟩
    rw [readers_eq hreader]
    exact hread reader.1 s

/-- A list with casts in it, and one that no brace closes. -/
theorem groups_read_casts :
    (∀ reader ∈ readers ⟨fun _ => [], []⟩, ∀ s, Enough fun fuel =>
      reader.2 fuel (rendered [([], "Shapes".toList), (" (char*)".toList, "Bases".toList)]) s =
        some (some (), s.found reader.1 (some ()) ["Shapes".toList, "Bases".toList])) ∧
    ∃ (skipped : Text) (ps : List Piece) (rest : Text),
      "\x7b\"Shapes\", \"Bases\"".toList = skipped ++ (ps.flatMap Piece.text ++ rest) ∧
      '"' ∉ skipped ∧ ∀ reader ∈ readers ⟨fun _ => [], []⟩, ∀ s, Enough fun fuel =>
        reader.2 fuel "\x7b\"Shapes\", \"Bases\"".toList s =
          some (if rest = [] then some () else none,
            s.found reader.1 (if rest = [] then some () else none) (ps.map Piece.name)) := by
  have hplain : ∀ g ∈ [(([] : Text), "Shapes".toList), (" (char*)".toList, "Bases".toList)],
      Plain g.1 ∧ Plain g.2 := by
    refine List.forall_mem_cons.mpr ⟨?_, List.forall_mem_singleton.mpr ?_⟩
    · exact ⟨fun c hc => absurd hc List.not_mem_nil, forall_mem_of_all (by decide)⟩
    · exact ⟨forall_mem_of_all (by decide), forall_mem_of_all (by decide)⟩
  exact ⟨(groups_read ⟨fun _ => [], []⟩).1 _ hplain (by decide),
    (groups_read ⟨fun _ => [], []⟩).2 _ (by decide)⟩

end Lists

end CableSwig.Executables.GroupList
