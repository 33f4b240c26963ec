import CableSwig.Lib.OrderedMap
import CableSwig.Lib.StdString
import Mathlib.Data.Char

/-!
# Index files

`cidx` writes one line for each wrapped class or enumeration. `CableSwig` reads the index
files that its master index files name and keeps, for each qualified name, the group and
the typedef of the last line that it split.
-/
namespace CableSwig.Executables.IndexFile

open CableSwig.Lib.OrderedMap
open CableSwig.Lib.StdString

/-- What the typedefs of the wrappers and renames namespaces stand for. -/
inductive TypedefTarget
  | classType (qualifiedName : Text)
  | enumerationType (qualifiedName : Text)
  | other
deriving DecidableEq, Repr

/-- The qualified name that is written for a typedef. -/
def TypedefTarget.qualifiedName? : TypedefTarget → Option Text
  | .classType q => some q
  | .enumerationType q => some q
  | .other => none

/-- A line of an index file without the brace that closes it. -/
def openText (qualifiedName typedefName group : Text) : Text :=
  '{' :: (qualifiedName ++ '}' :: ' ' :: '{' :: (typedefName ++ '}' :: ' ' :: '{' :: group))

/-- `DetermineClassesToWrap` of `cidx`: what it writes for the typedefs of the namespaces. -/
def determineClassesToWrap (group : Text) (typedefs : List (Text × TypedefTarget)) : Text :=
  typedefs.flatMap fun td =>
    match td.2 with
    | .classType q => openText q td.1 group ++ ['}', '\n']
    | .enumerationType q => openText q td.1 group ++ ['}', '\n']
    | .other => []

/-- The order of the maps that are keyed by a string. -/
def textLess : Text → Text → Bool := lexLess ordLess

theorem textLess_strictTotal : StrictTotal textLess := lexLess_strictTotal ordLess_strictTotal

/-- What `ReadMasterIndexFile` fills in, and what it writes to the error stream. -/
structure IndexState where
  classGroupLookup : StdMap Text Text := .empty
  importTypedefLookup : StdMap Text Text := .empty
  loaders : List Text := []
  cerr : List Text := []

/-- `FindClassGroup`. -/
def findClassGroup (m : IndexState) (className : Text) : Option Text :=
  m.classGroupLookup.find textLess className

/-- `FindImportTypedef`: whether a typedef was found, and the name to use. -/
def findImportTypedef (m : IndexState) (className : Text) : Bool × Text :=
  match m.importTypedefLookup.find textLess className with
  | some typeName => (true, typeName)
  | none => (false, className)

/-- The text between two positions. -/
def between (s : Text) (p1 p2 : Nat) : Text :=
  substr s (addSize p1 1) (subSize (subSize p2 p1) 1)

/-- The next pair of braces from a position on: what they enclose and where they close. -/
def nextField (s : Text) (p2 : Nat) : Text × Nat :=
  let p1 := find s '{' p2
  let p2 := find s '}' p1
  (between s p1 p2, p2)

/-- The three fields that `ParseIndexInformation` takes from a line. -/
def splitIndexLine (s : Text) : Option (Text × Text × Text) :=
  let p1 := find s '{' 0
  if p1 = npos then none
  else
    let p2 := find s '}' 0
    let qualifiedName := between s p1 p2
    let (typeDef, p2) := nextField s p2
    let (package, _) := nextField s p2
    some (qualifiedName, typeDef, package)

/-- `ParseIndexInformation`. -/
def parseIndexInformation (m : IndexState) (s : Text) : IndexState :=
  match splitIndexLine s with
  | none => m
  | some (qualifiedName, typeDef, package) => { m with
      classGroupLookup := m.classGroupLookup.assign textLess qualifiedName package
      cerr := if (m.importTypedefLookup.find textLess qualifiedName).isSome then
          m.cerr ++ ["Warning ".toList ++ qualifiedName ++ " seems to be wrapped twice.\n".toList]
        else m.cerr
      importTypedefLookup := m.importTypedefLookup.assign textLess qualifiedName typeDef }

/-- The character that ends a C string. -/
def nul : Char := Char.ofNat 0

/-- The C string in a buffer. -/
def cString (buffer : Text) : Text := buffer.takeWhile (· ≠ nul)

/-- The size of the buffer that lines are read into. -/
def bufferSize : Nat := 5000

/-- The loop of `ReadMasterIndexFile` over one index file. -/
def readIndexFile (content : Text) (m : IndexState) : IndexState :=
  (buffers bufferSize ⟨content, false, false⟩).foldl
    (fun m buffer => parseIndexInformation m (cString buffer)) m

/-- The message for a file that is not there. -/
def cannotOpen (name : Text) : Text := "error can not open ".toList ++ name ++ ['\n']

/-- The loop of `ReadMasterIndexFile` over the lines of one master index file. -/
def readMasterLines (file : Text → Option Text) : List Text → IndexState → IndexState × Bool
  | [], m => (m, true)
  | buffer :: rest, m =>
    match cString buffer with
    | [] => readMasterLines file rest m
    | c :: cs =>
      if c = '%' then
        if (c :: cs).take 12 = "%JavaLoader=".toList then
          readMasterLines file rest { m with loaders := m.loaders ++ [(c :: cs).drop 12] }
        else readMasterLines file rest m
      else match file (c :: cs) with
        | none => ({ m with cerr := m.cerr ++ [cannotOpen (c :: cs)] }, false)
        | some content => readMasterLines file rest (readIndexFile content m)

/-- `ReadMasterIndexFile`, with the result that it returns. -/
def readMasterIndexFile (file : Text → Option Text) : List Text → IndexState → IndexState × Bool
  | [], m => (m, true)
  | master :: masters, m =>
    match file master with
    | none => ({ m with cerr := m.cerr ++ [cannotOpen master] }, false)
    | some content =>
      match readMasterLines file (buffers bufferSize ⟨content, false, false⟩) m with
      | (m, false) => (m, false)
      | (m, true) => readMasterIndexFile file masters m

/-- The last record for a name. -/
def lastFor (q : Text) (records : List (Text × Text × Text)) : Option (Text × Text) :=
  (records.reverse.find? fun r => r.1 = q).map Prod.snd

/-- The lookups after these records were added, in this order. -/
def Recorded (records : List (Text × Text × Text)) (m m' : IndexState) : Prop :=
  ∀ q, findClassGroup m' q = ((lastFor q records).map Prod.snd).or (findClassGroup m q) ∧
    m'.importTypedefLookup.find textLess q =
      ((lastFor q records).map Prod.fst).or (m.importTypedefLookup.find textLess q)

theorem Recorded.refl (m : IndexState) : Recorded [] m m := fun _ => ⟨rfl, rfl⟩

theorem lastFor_append (q : Text) (l l' : List (Text × Text × Text)) :
    lastFor q (l ++ l') = (lastFor q l').or (lastFor q l) := by
  simp only [lastFor, List.reverse_append, List.find?_append, Option.map_or]

theorem Recorded.trans {l l' : List (Text × Text × Text)} {m m' m'' : IndexState}
    (h : Recorded l m m') (h' : Recorded l' m' m'') : Recorded (l ++ l') m m'' := by
  intro q
  obtain ⟨hgroup, htypedef⟩ := h q
  obtain ⟨hgroup', htypedef'⟩ := h' q
  rw [lastFor_append, Option.map_or, Option.map_or, Option.or_assoc, Option.or_assoc, ← hgroup,
    ← htypedef]
  exact ⟨hgroup', htypedef'⟩

/-- A line adds the record that it splits into. -/
theorem parseIndexInformation_recorded (m : IndexState) (s : Text) :
    Recorded (splitIndexLine s).toList m (parseIndexInformation m s) := by
  intro q
  unfold parseIndexInformation
  cases hsplit : splitIndexLine s with
  | none => exact ⟨rfl, rfl⟩
  | some r =>
    obtain ⟨k, t, g⟩ := r
    by_cases hk : k = q
    · subst hk
      simp [findClassGroup, lastFor, StdMap.find_assign_self textLess_strictTotal]
    · simp [findClassGroup, lastFor, hk, StdMap.find_assign_of_ne textLess_strictTotal]

theorem foldl_recorded (lines : List Text) : ∀ m : IndexState,
    Recorded (lines.filterMap splitIndexLine) m (lines.foldl parseIndexInformation m) := by
  induction lines with
  | nil => exact Recorded.refl
  | cons s lines ih =>
    intro m
    have hcons : (s :: lines).filterMap splitIndexLine =
        (splitIndexLine s).toList ++ lines.filterMap splitIndexLine := by
      cases h : splitIndexLine s with
      | none => simp [h]
      | some r => simp [h]
    rw [hcons]
    exact (parseIndexInformation_recorded m s).trans (ih _)

/-- A line leaves the lookups alone, whatever they hold, just where it has no opening brace. -/
theorem parseIndexInformation_unchanged_iff (s : Text) (hs : s.length < npos) :
    (∀ m q, findClassGroup (parseIndexInformation m s) q = findClassGroup m q ∧
      findImportTypedef (parseIndexInformation m s) q = findImportTypedef m q) ↔ '{' ∉ s := by
  rw [← find_eq_npos_iff hs]
  constructor
  · intro h
    by_contra hn
    cases hsplit : splitIndexLine s with
    | none => simp [splitIndexLine, hn] at hsplit
    | some r =>
      obtain ⟨hgroup, -⟩ := parseIndexInformation_recorded {} s r.1
      rw [(h {} r.1).1, hsplit] at hgroup
      simp [findClassGroup, lastFor] at hgroup
  · intro h m q
    have hsplit : splitIndexLine s = none := by rw [splitIndexLine, if_pos h]
    simp only [parseIndexInformation, hsplit, and_self]

section Split

variable {s a b c r : Text}

theorem nextField_closed (hs : s = b ++ (a ++ '{' :: (c ++ '}' :: r))) (ha : '{' ∉ a)
    (hc : '}' ∉ c) (hlen : s.length < npos) :
    nextField s b.length = (c, b.length + a.length + 1 + c.length) := by
  have hp1 : find s '{' b.length = b.length + a.length := find_eq hs ha
  have hba : s = (b ++ a) ++ (('{' :: c) ++ '}' :: r) := by rw [hs]; simp
  have hp2 : find s '}' (b.length + a.length) = b.length + a.length + 1 + c.length := by
    have h := find_eq hba (c := '}') (by simpa using hc)
    rw [List.length_append, List.length_cons] at h
    omega
  have hfield := substr_between hba hlen
  rw [List.length_append] at hfield
  simp only [nextField, hp1, hp2, between]
  rw [hfield]

theorem nextField_open (hs : s = b ++ (a ++ '{' :: c)) (ha : '{' ∉ a) (hc : '}' ∉ c)
    (hlen : s.length < npos) : nextField s b.length = (c, npos) := by
  have hp1 : find s '{' b.length = b.length + a.length := find_eq hs ha
  have hba : s = (b ++ a) ++ '{' :: c := by rw [hs]; simp
  have hp2 : find s '}' (b.length + a.length) = npos := by
    have h := find_eq_npos hba (c := '}') (by simpa using hc)
    rwa [List.length_append] at h
  have hl : s.length = b.length + a.length + 1 + c.length := by rw [hs]; simp; omega
  have hbac : s = (b ++ a ++ ['{']) ++ c := by rw [hs]; simp
  have hwidth : c.length ≤ subSize (subSize npos (b.length + a.length)) 1 := by
    have hrest : subSize npos (b.length + a.length) = npos - (b.length + a.length) :=
      subSize_eq (by omega) le_rfl
    rw [hrest, subSize_eq (by omega) (by omega)]
    omega
  have hfield := substr_rest hbac hwidth
  have hlen' : (b ++ a ++ ['{']).length = b.length + a.length + 1 := by
    simp [Nat.add_assoc]
  rw [hlen'] at hfield
  simp only [nextField, hp1, hp2, between]
  rw [addSize_eq (by omega), hfield]

/-- Past the last field the positions wrap around and the whole line is taken. -/
theorem nextField_npos (hlen : s.length < npos) : nextField s npos = (s, npos) := by
  have hzero : addSize npos 1 = 0 := by decide
  have hall : subSize (subSize npos npos) 1 = npos := by decide
  simp only [nextField, find_npos hlen, between, hzero, hall]
  rw [substr, List.drop_zero, List.take_of_length_le (Nat.le_of_lt hlen)]

theorem nextField_none (hs : s = b ++ a) (ha : '{' ∉ a) (hlen : s.length < npos) :
    nextField s b.length = (s, npos) := by
  have hp1 : find s '{' b.length = npos := find_eq_npos hs ha
  have hnpos := nextField_npos hlen
  rw [nextField, find_npos hlen] at hnpos
  simp only [nextField, hp1]
  exact hnpos

/-- A line that starts with a brace is split into three fields, each from where the one
before it closes. -/
theorem splitIndexLine_brace (hs : s = '{' :: r) :
    splitIndexLine s = some ((nextField s 0).1, (nextField s (nextField s 0).2).1,
      (nextField s (nextField s (nextField s 0).2).2).1) := by
  have hp1 : find s '{' 0 = 0 := find_first (a := []) hs List.not_mem_nil
  have hne : ¬ 0 = npos := by decide
  simp only [splitIndexLine, nextField, hp1, if_neg hne]

end Split

end CableSwig.Executables.IndexFile
