import CableSwig.Executables.IndexFile
import Mathlib.Data.List.TakeWhile

/-!
# Reading index files back

A line is split at its first closing brace and cut to the buffer, so it reads back for the
names and lengths that allow both.
-/
namespace CableSwig.Executables.IndexRoundTrip

open CableSwig.Lib.OrderedMap
open CableSwig.Lib.StdString
open CableSwig.Executables.IndexFile

/-- A wrapped class or enumeration. Its qualified name is any text of one line; the typedef
and the group are names. -/
structure IndexEntry where
  qualifiedName : Text
  typedefName : Text
  group : Text
  oneLine : ∀ c ∈ qualifiedName ++ typedefName ++ group, c ≠ '\n' ∧ c ≠ nul
  names : ∀ c ∈ typedefName ++ group, c ≠ '{' ∧ c ≠ '}'

namespace IndexEntry

variable (e : IndexEntry)

/-- The line without its closing brace. -/
def openLine : Text := openText e.qualifiedName e.typedefName e.group

/-- The line that `cidx` writes. -/
def line : Text := e.openLine ++ ['}']

/-- The record that the line stands for. -/
def record : Text × Text × Text := (e.qualifiedName, e.typedefName, e.group)

theorem typedefName_ok : '{' ∉ e.typedefName ∧ '}' ∉ e.typedefName :=
  ⟨fun h => (e.names _ (List.mem_append_left _ h)).1 rfl,
    fun h => (e.names _ (List.mem_append_left _ h)).2 rfl⟩

theorem group_ok : '{' ∉ e.group ∧ '}' ∉ e.group :=
  ⟨fun h => (e.names _ (List.mem_append_right _ h)).1 rfl,
    fun h => (e.names _ (List.mem_append_right _ h)).2 rfl⟩

end IndexEntry

section Split

/-- A line that reaches into the third field gives its first two, and the third as far as it
goes. -/
theorem split_openText {q t g : Text} (hq : '}' ∉ q) (ht : '}' ∉ t) (hg : '}' ∉ g) {z : Text}
    (hz : z = [] ∨ z = ['}']) (hlen : (openText q t g ++ z).length < npos) :
    splitIndexLine (openText q t g ++ z) = some (q, t, g) := by
  have h1 := nextField_closed (s := openText q t g ++ z) (b := []) (a := []) (c := q)
    (r := ' ' :: '{' :: (t ++ '}' :: ' ' :: '{' :: (g ++ z))) (by simp [openText])
    List.not_mem_nil hq hlen
  have h2 := nextField_closed (s := openText q t g ++ z) (b := '{' :: q) (a := ['}', ' '])
    (c := t) (r := ' ' :: '{' :: (g ++ z)) (by simp [openText]) (by decide) ht hlen
  have h3 : (nextField (openText q t g ++ z) ('{' :: (q ++ '}' :: ' ' :: '{' :: t)).length).1 =
      g := by
    rcases hz with rfl | rfl
    · rw [nextField_open (a := ['}', ' ']) (c := g) (by simp [openText]) (by decide) hg hlen]
    · rw [nextField_closed (a := ['}', ' ']) (c := g) (r := []) (by simp [openText]) (by decide)
        hg hlen]
  have hp1 : ([] : Text).length + ([] : Text).length + 1 + q.length = ('{' :: q).length := by
    simp [Nat.add_comm]
  have hp2 : ('{' :: q).length + ['}', ' '].length + 1 + t.length =
      ('{' :: (q ++ '}' :: ' ' :: '{' :: t)).length := by simp; omega
  rw [hp1] at h1
  rw [hp2] at h2
  have h1' : nextField (openText q t g ++ z) 0 = (q, ('{' :: q).length) := h1
  rw [splitIndexLine_brace (s := openText q t g ++ z) rfl, h1', h2, h3]

/-- The first field ends at the first closing brace. -/
theorem split_name {s r : Text} (hs : s = '{' :: r) (hlen : s.length < npos) {k t g : Text}
    (h : splitIndexLine s = some (k, t, g)) : '}' ∉ k := by
  rw [splitIndexLine_brace hs] at h
  obtain ⟨rfl, -⟩ := Prod.mk.inj (Option.some.inj h)
  by_cases hmem : '}' ∈ r
  · obtain ⟨c, r', hr, hc⟩ := List.eq_append_cons_of_mem hmem
    have h1 := nextField_closed (s := s) (b := []) (a := []) (by rw [hs, hr]; rfl)
      List.not_mem_nil hc hlen
    have h1' : (nextField s 0).1 = c := congrArg Prod.fst h1
    rw [h1']
    exact hc
  · have h1 := nextField_open (s := s) (b := []) (a := []) (by rw [hs]; rfl)
      List.not_mem_nil hmem hlen
    have h1' : (nextField s 0).1 = r := congrArg Prod.fst h1
    rw [h1']
    exact hmem

theorem prefix_append_cases {α : Type} {x a b : List α} (h : x <+: a ++ b) :
    x <+: a ∨ ∃ y, x = a ++ y ∧ y <+: b := by
  rcases List.prefix_or_prefix_of_prefix h (List.prefix_append a b) with h' | ⟨y, rfl⟩
  · exact Or.inl h'
  · exact Or.inr ⟨y, rfl, (List.prefix_append_right_inj a).mp h⟩

/-- A beginning of a field and what follows it stops in the field, or before the next one, or
inside the next one. -/
theorem field_prefix_cases {x q r : Text} (h : x <+: q ++ '}' :: ' ' :: '{' :: r) :
    x <+: q ∨ (∃ a, x = q ++ '}' :: a ∧ '{' ∉ '}' :: a) ∨
      ∃ y, x = q ++ '}' :: ' ' :: '{' :: y ∧ y <+: r := by
  rcases prefix_append_cases h with h | ⟨y, rfl, hy⟩
  · exact Or.inl h
  · rcases List.prefix_cons_iff.mp hy with rfl | ⟨z, rfl, hz⟩
    · exact Or.inl (by simp)
    · rcases List.prefix_cons_iff.mp hz with rfl | ⟨w, rfl, hw⟩
      · exact Or.inr (Or.inl ⟨[], rfl, by decide⟩)
      · rcases List.prefix_cons_iff.mp hw with rfl | ⟨v, rfl, hv⟩
        · exact Or.inr (Or.inl ⟨[' '], rfl, by decide⟩)
        · exact Or.inr (Or.inr ⟨v, rfl, hv⟩)

theorem not_mem_of_isPrefix {x q : Text} {c : Char} (h : x <+: q) (hq : c ∉ q) : c ∉ x :=
  fun hx => hq (h.subset hx)

/-- A line that is cut within its first two fields is taken for the group as a whole. -/
theorem split_cut {q t g x : Text} (hq : '}' ∉ q) (ht : '}' ∉ t) (hg : '}' ∉ g)
    (hx : x <+: openText q t g) (hne : x ≠ []) (hlen : x.length < npos) :
    ∃ k t' g', splitIndexLine x = some (k, t', g') ∧ k = q.take (x.length - 1) ∧
      (g' = x ∨ x = openText k t' g') := by
  rcases List.prefix_cons_iff.mp hx with rfl | ⟨y, rfl, hy⟩
  · exact absurd rfl hne
  have hnpos := nextField_npos hlen
  have hsplit := splitIndexLine_brace (s := '{' :: y) rfl
  have htake : ∀ a : Text, q = q.take (('{' :: (q ++ a)).length - 1) := by
    intro a
    rw [List.take_of_length_le (by simp)]
  rcases field_prefix_cases hy with hy | ⟨a, rfl, ha⟩ | ⟨w, rfl, hw⟩
  · have h1 : nextField ('{' :: y) 0 = (y, npos) :=
      nextField_open (s := '{' :: y) (b := []) (a := []) rfl List.not_mem_nil
        (not_mem_of_isPrefix hy hq) hlen
    simp only [h1, hnpos] at hsplit
    exact ⟨y, _, _, hsplit, List.prefix_iff_eq_take.mp hy, Or.inl rfl⟩
  · have h1 := nextField_closed (s := '{' :: (q ++ '}' :: a)) (b := []) (a := []) (c := q)
      (r := a) rfl List.not_mem_nil hq hlen
    have h2 := nextField_none (s := '{' :: (q ++ '}' :: a)) (b := '{' :: q) (a := '}' :: a) rfl
      ha hlen
    have hp : ([] : Text).length + ([] : Text).length + 1 + q.length = ('{' :: q).length := by
      simp [Nat.add_comm]
    have h1' : nextField ('{' :: (q ++ '}' :: a)) 0 = (q, ('{' :: q).length) := hp ▸ h1
    rw [h1'] at hsplit
    simp only [h2, hnpos] at hsplit
    exact ⟨q, _, _, hsplit, htake ('}' :: a), Or.inl rfl⟩
  · have h1 := nextField_closed (s := '{' :: (q ++ '}' :: ' ' :: '{' :: w)) (b := []) (a := [])
      (c := q) (r := ' ' :: '{' :: w) rfl List.not_mem_nil hq hlen
    have hp : ([] : Text).length + ([] : Text).length + 1 + q.length = ('{' :: q).length := by
      simp [Nat.add_comm]
    have h1' : nextField ('{' :: (q ++ '}' :: ' ' :: '{' :: w)) 0 = (q, ('{' :: q).length) :=
      hp ▸ h1
    rcases field_prefix_cases hw with hw | ⟨a, rfl, ha⟩ | ⟨v, rfl, hv⟩
    · have h2 := nextField_open (s := '{' :: (q ++ '}' :: ' ' :: '{' :: w)) (b := '{' :: q)
        (a := ['}', ' ']) (c := w) rfl (by decide) (not_mem_of_isPrefix hw ht) hlen
      simp only [h1', h2, hnpos] at hsplit
      exact ⟨q, _, _, hsplit, htake _, Or.inl rfl⟩
    · have h2 := nextField_closed (s := '{' :: (q ++ '}' :: ' ' :: '{' :: (t ++ '}' :: a)))
        (b := '{' :: q) (a := ['}', ' ']) (c := t) (r := a) rfl (by decide) ht hlen
      have hp' : ('{' :: q).length + ['}', ' '].length + 1 + t.length =
          ('{' :: (q ++ '}' :: ' ' :: '{' :: t)).length := by
        simp
        omega
      have h3 := nextField_none (s := '{' :: (q ++ '}' :: ' ' :: '{' :: (t ++ '}' :: a)))
        (b := '{' :: (q ++ '}' :: ' ' :: '{' :: t)) (a := '}' :: a) (by simp) ha hlen
      rw [hp'] at h2
      simp only [h1', h2, h3] at hsplit
      exact ⟨q, _, _, hsplit, htake _, Or.inl rfl⟩
    · have hfull := split_openText hq ht (not_mem_of_isPrefix hv hg) (z := []) (Or.inl rfl)
        (by simpa [openText] using hlen)
      rw [List.append_nil] at hfull
      exact ⟨q, t, v, hfull, htake _, Or.inr rfl⟩

end Split

/-- A line of an index file: one that `cidx` wrote, or any other text. -/
inductive IndexLine
  | entry (e : IndexEntry)
  | other (text : Text) (oneLine : ∀ c ∈ text, c ≠ '\n' ∧ c ≠ nul)

namespace IndexLine

def text : IndexLine → Text
  | .entry e => e.line
  | .other t _ => t

def entry? : IndexLine → Option IndexEntry
  | .entry e => some e
  | .other _ _ => none

/-- What the buffer holds once `getline` has stopped. -/
def buffer (l : IndexLine) : Text := l.text.take (bufferSize - 1)

/-- The line leaves room for the end of the string. -/
abbrev Fits (l : IndexLine) : Prop := l.text.length < bufferSize

theorem oneLine (l : IndexLine) : ∀ c ∈ l.text, c ≠ '\n' ∧ c ≠ nul := by
  cases l with
  | other t h => exact h
  | entry e =>
    intro c hc
    have hbrace : ∀ c ∈ ['{', '}', ' '], c ≠ '\n' ∧ c ≠ nul := forall_mem_of_all (by decide)
    have hmem : c ∈ ['{', '}', ' '] ∨ c ∈ e.qualifiedName ++ e.typedefName ++ e.group := by
      simp only [text, IndexEntry.line, IndexEntry.openLine, openText, List.mem_append,
        List.mem_cons, List.cons_append, List.not_mem_nil, or_false] at hc ⊢
      grind
    exact hmem.elim (hbrace c) (e.oneLine c)

end IndexLine

/-- A line of a master index file, with the lines of the index file that it may name. -/
structure MasterLine where
  text : Text
  lines : List IndexLine
  oneLine : ∀ c ∈ text, c ≠ '\n' ∧ c ≠ nul
  fits : text.length < bufferSize

/-- Blank lines and those for loaders name no file. -/
def MasterLine.namesFile (l : MasterLine) : Bool :=
  match l.text with
  | [] => false
  | c :: _ => c ≠ '%'

/-- Index files, the master index files that name them, and where to find them all. -/
structure WrittenIndex where
  masters : List (Text × List MasterLine)
  file : Text → Option Text
  master_file : ∀ m ∈ masters, file m.1 = some (ofLines (m.2.map MasterLine.text))
  index_file : ∀ m ∈ masters, ∀ l ∈ m.2, l.namesFile = true →
    file l.text = some (ofLines (l.lines.map IndexLine.text))

namespace WrittenIndex

variable (w : WrittenIndex)

/-- The index files in the order in which they are read. -/
def indexFiles : List (List IndexLine) :=
  ((w.masters.flatMap Prod.snd).filter MasterLine.namesFile).map MasterLine.lines

/-- Everything that was written. -/
def lines : List IndexLine := w.indexFiles.flatten

/-- The lines that are read, whole or cut. -/
def reachedLines : List IndexLine := w.indexFiles.flatMap (reached IndexLine.Fits)

end WrittenIndex

section Reading

theorem reached_map {α β : Type} (f : α → β) (fits : β → Prop) [DecidablePred fits] (l : List α) :
    reached fits (l.map f) = (reached (fun a => fits (f a)) l).map f := by
  induction l with
  | nil => rfl
  | cons a l ih =>
    rw [List.map_cons, reached, reached]
    split
    · rw [ih, List.map_cons]
    · rfl

theorem reached_of_all {α : Type} (fits : α → Prop) [DecidablePred fits] {l : List α}
    (h : ∀ a ∈ l, fits a) : reached fits l = l := by
  induction l with
  | nil => rfl
  | cons a l ih =>
    rw [reached, if_pos (h a List.mem_cons_self), ih fun b hb => h b (List.mem_cons_of_mem _ hb)]

theorem cString_of_oneLine {t : Text} (h : ∀ c ∈ t, c ≠ nul) : cString t = t :=
  List.takeWhile_eq_self_iff.mpr fun c hc => by simpa using h c hc

theorem readIndexFile_recorded (ls : List IndexLine) (m : IndexState) :
    Recorded ((reached IndexLine.Fits ls).filterMap fun l => splitIndexLine l.buffer) m
      (readIndexFile (ofLines (ls.map IndexLine.text)) m) := by
  obtain ⟨tail, htail, hbuffers⟩ := buffers_ofLines bufferSize (by decide)
    (ls.map IndexLine.text) (by
      intro t ht hn
      obtain ⟨l, -, rfl⟩ := List.mem_map.mp ht
      exact (l.oneLine _ hn).1 rfl)
  rw [reached_map, List.map_map] at hbuffers
  have hfold : readIndexFile (ofLines (ls.map IndexLine.text)) m =
      (((reached IndexLine.Fits ls).map IndexLine.buffer) ++ tail).foldl
        parseIndexInformation m := by
    have hcString : ∀ b ∈ (reached IndexLine.Fits ls).map IndexLine.buffer ++ tail,
        cString b = b := by
      intro b hb
      refine cString_of_oneLine fun c hc => ?_
      rcases List.mem_append.mp hb with hb | hb
      · obtain ⟨l, -, rfl⟩ := List.mem_map.mp hb
        exact (l.oneLine c (List.mem_of_mem_take hc)).2
      · rcases htail with rfl | rfl
        · cases hb
        · rw [List.mem_singleton.mp hb] at hc
          cases hc
    rw [readIndexFile, hbuffers]
    exact List.foldl_ext _ _ m fun m b hb => by rw [hcString b hb]
  have hrecords : (((reached IndexLine.Fits ls).map IndexLine.buffer) ++ tail).filterMap
      splitIndexLine = (reached IndexLine.Fits ls).filterMap fun l => splitIndexLine l.buffer := by
    have hempty : tail.filterMap splitIndexLine = [] := by
      rcases htail with rfl | rfl <;> rfl
    rw [List.filterMap_append, hempty, List.append_nil, List.filterMap_map]
    rfl
  rw [hfold, ← hrecords]
  exact foldl_recorded _ m

/-- The records that the lines of a master index file lead to. -/
def masterRecords (ls : List MasterLine) : List (Text × Text × Text) :=
  (ls.filter MasterLine.namesFile).flatMap fun l =>
    (reached IndexLine.Fits l.lines).filterMap fun l => splitIndexLine l.buffer

theorem readMasterLines_recorded (file : Text → Option Text) (ls : List MasterLine)
    (hfile : ∀ l ∈ ls, l.namesFile = true →
      file l.text = some (ofLines (l.lines.map IndexLine.text)))
    {z : List Text} (hz : z = [] ∨ z = [[]]) :
    ∀ m, ∃ m', readMasterLines file (ls.map MasterLine.text ++ z) m = (m', true) ∧
      Recorded (masterRecords ls) m m' := by
  induction ls with
  | nil =>
    intro m
    refine ⟨m, ?_, Recorded.refl m⟩
    rcases hz with rfl | rfl <;> rfl
  | cons l ls ih =>
    intro m
    have ih := ih fun l' hl' => hfile l' (List.mem_cons_of_mem _ hl')
    have hfile := hfile l List.mem_cons_self
    have hcString : cString l.text = l.text := cString_of_oneLine fun c hc => (l.oneLine c hc).2
    rw [List.map_cons, List.cons_append, readMasterLines, hcString]
    cases htext : l.text with
    | nil =>
      have hnames : l.namesFile = false := by rw [MasterLine.namesFile, htext]
      have hrecords : masterRecords (l :: ls) = masterRecords ls := by
        rw [masterRecords, List.filter_cons_of_neg (by simp [hnames])]
        rfl
      rw [hrecords]
      exact ih m
    | cons c cs =>
      by_cases hc : c = '%'
      · have hnames : l.namesFile = false := by simp [MasterLine.namesFile, htext, hc]
        have hrecords : masterRecords (l :: ls) = masterRecords ls := by
          rw [masterRecords, List.filter_cons_of_neg (by simp [hnames])]
          rfl
        simp only [if_pos hc]
        rw [hrecords]
        split
        · exact ih { m with loaders := m.loaders ++ [(c :: cs).drop 12] }
        · exact ih m
      · have hnames : l.namesFile = true := by simp [MasterLine.namesFile, htext, hc]
        have hrecords : masterRecords (l :: ls) =
            ((reached IndexLine.Fits l.lines).filterMap fun l => splitIndexLine l.buffer) ++
              masterRecords ls := by
          rw [masterRecords, List.filter_cons_of_pos hnames]
          rfl
        have hopen := hfile hnames
        rw [htext] at hopen
        simp only [if_neg hc, hopen]
        obtain ⟨m', hread, hrecorded⟩ := ih (readIndexFile (ofLines (l.lines.map IndexLine.text)) m)
        refine ⟨m', hread, ?_⟩
        rw [hrecords]
        exact (readIndexFile_recorded l.lines m).trans hrecorded

theorem readMasterIndexFile_recorded (w : WrittenIndex) :
    ∃ m, readMasterIndexFile w.file (w.masters.map Prod.fst) {} = (m, true) ∧
      Recorded (w.reachedLines.filterMap fun l => splitIndexLine l.buffer) {} m := by
  have hmasters : ∀ masters : List (Text × List MasterLine), (∀ m ∈ masters, m ∈ w.masters) →
      ∀ s, ∃ s', readMasterIndexFile w.file (masters.map Prod.fst) s = (s', true) ∧
        Recorded (masterRecords (masters.flatMap Prod.snd)) s s' := by
    intro masters
    induction masters with
    | nil => exact fun _ s => ⟨s, rfl, Recorded.refl s⟩
    | cons m masters ih =>
      intro hsub s
      have hm := hsub m List.mem_cons_self
      obtain ⟨tail, htail, hbuffers⟩ := buffers_ofLines bufferSize (by decide)
        (m.2.map MasterLine.text) (by
          intro t ht hn
          obtain ⟨l, -, rfl⟩ := List.mem_map.mp ht
          exact (l.oneLine _ hn).1 rfl)
      have hall : ∀ t ∈ m.2.map MasterLine.text, t.length < bufferSize := by
        intro t ht
        obtain ⟨l, -, rfl⟩ := List.mem_map.mp ht
        exact l.fits
      have htake : (m.2.map MasterLine.text).map (List.take (bufferSize - 1)) =
          m.2.map MasterLine.text :=
        (List.map_congr_left fun t ht =>
          List.take_of_length_le (Nat.le_sub_one_of_lt (hall t ht))).trans (List.map_id _)
      rw [reached_of_all _ hall, htake] at hbuffers
      obtain ⟨s₁, hread₁, hrecorded₁⟩ :=
        readMasterLines_recorded w.file m.2 (w.index_file m hm) htail s
      obtain ⟨s₂, hread₂, hrecorded₂⟩ :=
        ih (fun m' hm' => hsub m' (List.mem_cons_of_mem _ hm')) s₁
      refine ⟨s₂, ?_, ?_⟩
      · rw [List.map_cons, readMasterIndexFile, w.master_file m hm]
        simp only [hbuffers, hread₁, hread₂]
      · rw [List.flatMap_cons, masterRecords, List.filter_append, List.flatMap_append]
        exact hrecorded₁.trans hrecorded₂
  have hrecords : (w.reachedLines.filterMap fun l => splitIndexLine l.buffer) =
      masterRecords (w.masters.flatMap Prod.snd) := by
    rw [WrittenIndex.reachedLines, WrittenIndex.indexFiles, List.flatMap_map,
      List.filterMap_flatMap]
    rfl
  rw [hrecords]
  exact hmasters w.masters (fun _ h => h) {}

end Reading

section RoundTrip

/-- The last entry for a name. -/
def lastEntry (q : Text) (es : List IndexEntry) : Option IndexEntry :=
  es.reverse.find? fun e => e.qualifiedName = q

namespace WrittenIndex

variable (w : WrittenIndex)

/-- The written entries, and those whose lines are read, whole or cut. -/
def entries : List IndexEntry := w.lines.filterMap IndexLine.entry?

def reachedEntries : List IndexEntry := w.reachedLines.filterMap IndexLine.entry?

/-- Reading succeeds, a lookup finds the last entry that was written for the name and nothing
where there is none, and a line that is no entry changes no lookup. -/
def RoundTrips : Prop :=
  ∃ m, readMasterIndexFile w.file (w.masters.map Prod.fst) {} = (m, true) ∧
    (∀ q, findClassGroup m q = (lastEntry q w.entries).map IndexEntry.group ∧
      findImportTypedef m q = match lastEntry q w.entries with
        | some e => (true, e.typedefName)
        | none => (false, q)) ∧
    ∀ l ∈ w.lines, l.entry? = none → ∀ m q,
      findClassGroup (parseIndexInformation m l.buffer) q = findClassGroup m q ∧
        findImportTypedef (parseIndexInformation m l.buffer) q = findImportTypedef m q

/-- A line that is no entry has no opening brace within the buffer. No written name has a
closing brace, and the last line for a name that is read begins, up to the end of the buffer,
as the last line that was written for it. -/
def ReadsBack : Prop :=
  (∀ l ∈ w.lines, l.entry? = none → '{' ∉ l.buffer) ∧
    ∀ e ∈ w.entries, '}' ∉ e.qualifiedName ∧ ∃ e' f,
      lastEntry e.qualifiedName w.reachedEntries = some e' ∧
      lastEntry e.qualifiedName w.entries = some f ∧
      e'.openLine.take (bufferSize - 1) = f.openLine

end WrittenIndex

theorem buffer_length_lt (l : IndexLine) : l.buffer.length < npos := by
  have hle : l.buffer.length ≤ bufferSize - 1 := List.length_take_le _ _
  have hlt : bufferSize - 1 < npos := by decide
  omega

/-- What an entry is split into once it has gone through the buffer. -/
def bufferRecord (e : IndexEntry) : Option (Text × Text × Text) :=
  splitIndexLine (IndexLine.entry e).buffer

theorem buffer_cases (e : IndexEntry) :
    (bufferSize - 1 ≤ e.openLine.length ∧
        (IndexLine.entry e).buffer = e.openLine.take (bufferSize - 1)) ∨
      e.openLine.length ≤ bufferSize - 2 ∧ e.openLine.take (bufferSize - 1) = e.openLine ∧
        (IndexLine.entry e).buffer = e.line := by
  have hline : e.line.length = e.openLine.length + 1 := by
    rw [IndexEntry.line, List.length_append, List.length_singleton]
  have hsize : bufferSize - 1 = bufferSize - 2 + 1 := rfl
  by_cases h : e.line.length ≤ bufferSize - 1
  · exact Or.inr ⟨by omega, List.take_of_length_le (by omega), List.take_of_length_le h⟩
  · have hle : bufferSize - 1 ≤ e.openLine.length := by omega
    exact Or.inl ⟨hle, List.take_append_of_le_length hle⟩

theorem mem_openLine_take (e : IndexEntry) : '{' ∈ e.openLine.take (bufferSize - 1) := by
  have hsize : bufferSize - 1 = bufferSize - 2 + 1 := rfl
  rw [hsize, IndexEntry.openLine, openText, List.take_succ_cons]
  exact List.mem_cons_self

theorem bufferRecord_name {e : IndexEntry} {k t g : Text} (h : bufferRecord e = some (k, t, g)) :
    '}' ∉ k :=
  split_name (s := (IndexLine.entry e).buffer) (r := (IndexLine.entry e).buffer.tail) rfl
    (buffer_length_lt _) h

/-- What an entry is split into, where its name has no closing brace. -/
theorem bufferRecord_eq {e : IndexEntry} (hq : '}' ∉ e.qualifiedName) :
    ∃ k t g, bufferRecord e = some (k, t, g) ∧
      k = e.qualifiedName.take (bufferSize - 2) ∧
      (g = e.openLine.take (bufferSize - 1) ∨
        e.openLine.take (bufferSize - 1) = openText k t g) := by
  have hlen := buffer_length_lt (.entry e)
  rcases buffer_cases e with ⟨hle, hbuffer⟩ | ⟨hle, htake, hbuffer⟩
  · rw [hbuffer] at hlen
    obtain ⟨k, t, g, hsplit, hk, hg⟩ := split_cut hq e.typedefName_ok.2 e.group_ok.2
      (List.take_prefix (bufferSize - 1) e.openLine)
      (List.ne_nil_of_mem (mem_openLine_take e)) hlen
    refine ⟨k, t, g, ?_, ?_, hg⟩
    · rw [bufferRecord, hbuffer]
      exact hsplit
    · rw [hk, List.length_take, Nat.min_eq_left hle]
      rfl
  · rw [hbuffer] at hlen
    refine ⟨e.qualifiedName, e.typedefName, e.group, ?_, ?_, Or.inr htake⟩
    · rw [bufferRecord, hbuffer]
      exact split_openText hq e.typedefName_ok.2 e.group_ok.2 (Or.inr rfl) hlen
    · refine (List.take_of_length_le ?_).symm
      simp only [IndexEntry.openLine, openText, List.length_cons, List.length_append] at hle
      omega

/-- A buffer that begins as the line of an entry is split into that entry. -/
theorem bufferRecord_of_openLine {e f : IndexEntry} (hq : '}' ∉ f.qualifiedName)
    (h : e.openLine.take (bufferSize - 1) = f.openLine) : bufferRecord e = some f.record := by
  have hlen := buffer_length_lt (.entry e)
  rcases buffer_cases e with ⟨hle, hbuffer⟩ | ⟨hle, htake, hbuffer⟩
  · rw [h] at hbuffer
    rw [hbuffer] at hlen
    have hsplit := split_openText hq f.typedefName_ok.2 f.group_ok.2 (z := []) (Or.inl rfl)
      (by rw [List.append_nil]; exact hlen)
    rw [List.append_nil] at hsplit
    rw [bufferRecord, hbuffer]
    exact hsplit
  · have hline : e.line = f.openLine ++ ['}'] := by rw [IndexEntry.line, ← htake, h]
    rw [hbuffer, hline] at hlen
    rw [bufferRecord, hbuffer, hline]
    exact split_openText hq f.typedefName_ok.2 f.group_ok.2 (Or.inr rfl) hlen

/-- An entry whose buffer gives the record of another begins as the line of that one. -/
theorem openLine_of_bufferRecord {e f : IndexEntry} (hq : '}' ∉ e.qualifiedName)
    (h : bufferRecord e = some f.record) : e.openLine.take (bufferSize - 1) = f.openLine := by
  obtain ⟨k, t, g, hrecord, -, hg⟩ := bufferRecord_eq hq
  rw [h] at hrecord
  obtain ⟨rfl, hrest⟩ := Prod.mk.inj (Option.some.inj hrecord)
  obtain ⟨rfl, rfl⟩ := Prod.mk.inj hrest
  rcases hg with hg | hg
  · exact absurd (hg ▸ mem_openLine_take e) f.group_ok.1
  · exact hg

theorem name_length_of_openLine {e f : IndexEntry}
    (h : e.openLine.take (bufferSize - 1) = f.openLine) :
    f.qualifiedName.length ≤ bufferSize - 2 := by
  have hle : f.openLine.length ≤ bufferSize - 1 := h ▸ List.length_take_le _ _
  have hsize : bufferSize - 1 = bufferSize - 2 + 1 := rfl
  simp only [IndexEntry.openLine, openText, List.length_cons, List.length_append] at hle
  omega

theorem lastEntry_mem {q : Text} {es : List IndexEntry} {e : IndexEntry}
    (h : lastEntry q es = some e) : e ∈ es ∧ e.qualifiedName = q :=
  ⟨List.mem_reverse.mp (List.mem_of_find?_eq_some h), by simpa using List.find?_some h⟩

theorem lastEntry_exists {e : IndexEntry} {es : List IndexEntry} (h : e ∈ es) :
    ∃ f, lastEntry e.qualifiedName es = some f := by
  refine Option.isSome_iff_exists.mp (List.find?_isSome.mpr ⟨e, List.mem_reverse.mpr h, ?_⟩)
  simp

/-- Where each entry is recorded under its own name, the last record for a name comes from
the last entry for it. -/
theorem lastFor_bufferRecord {es : List IndexEntry}
    (h : ∀ e ∈ es, ∃ t g, bufferRecord e = some (e.qualifiedName, t, g)) (q : Text) :
    lastFor q (es.filterMap bufferRecord) =
      (lastEntry q es).bind fun e => (bufferRecord e).map Prod.snd := by
  have hfind : ∀ l : List IndexEntry, (∀ e ∈ l, e ∈ es) →
      ((l.filterMap bufferRecord).find? fun r => r.1 = q).map Prod.snd =
        (l.find? fun e => e.qualifiedName = q).bind fun e => (bufferRecord e).map Prod.snd := by
    intro l
    induction l with
    | nil => exact fun _ => rfl
    | cons e l ih =>
      intro hl
      obtain ⟨t, g, he⟩ := h e (hl e List.mem_cons_self)
      rw [List.filterMap_cons_some he, List.find?_cons, List.find?_cons]
      cases decide (e.qualifiedName = q) with
      | true => simp [he]
      | false => exact ih fun e' he' => hl e' (List.mem_cons_of_mem _ he')
  rw [lastFor, ← List.filterMap_reverse]
  exact hfind _ fun e he => List.mem_reverse.mp he

/-- The lookups come out as written just where the lines that are read allow it. -/
theorem lookups_iff {read written : List IndexEntry} (hsub : ∀ e ∈ read, e ∈ written) :
    (∀ q, lastFor q (read.filterMap bufferRecord) =
        (lastEntry q written).map fun f => (f.typedefName, f.group)) ↔
      ∀ e ∈ written, '}' ∉ e.qualifiedName ∧ ∃ e' f,
        lastEntry e.qualifiedName read = some e' ∧ lastEntry e.qualifiedName written = some f ∧
        e'.openLine.take (bufferSize - 1) = f.openLine := by
  have hkeys : (∀ e ∈ written, '}' ∉ e.qualifiedName) →
      (∀ e ∈ written, e.qualifiedName.length ≤ bufferSize - 2) →
      ∀ e ∈ read, ∃ t g, bufferRecord e = some (e.qualifiedName, t, g) := by
    intro hnames hshort e he
    obtain ⟨k, t, g, hrecord, hk, -⟩ := bufferRecord_eq (hnames e (hsub e he))
    rw [List.take_of_length_le (hshort e (hsub e he))] at hk
    exact ⟨t, g, hk ▸ hrecord⟩
  constructor
  · intro h
    have hfound : ∀ e ∈ written, ∃ e' f, e' ∈ read ∧
        lastEntry e.qualifiedName written = some f ∧ bufferRecord e' = some f.record := by
      intro e he
      obtain ⟨f, hf⟩ := lastEntry_exists he
      have hlast := h e.qualifiedName
      rw [hf] at hlast
      obtain ⟨r, hr, hrf⟩ := Option.map_eq_some_iff.mp hlast
      obtain ⟨e', he', hrecord⟩ :=
        List.mem_filterMap.mp (List.mem_reverse.mp (List.mem_of_find?_eq_some hr))
      have hname : r.1 = e.qualifiedName := by simpa using List.find?_some hr
      have hvalue : r.2 = (f.typedefName, f.group) := hrf
      refine ⟨e', f, he', hf, ?_⟩
      rw [hrecord, IndexEntry.record, (lastEntry_mem hf).2, ← hname, ← hvalue]
    have hnames : ∀ e ∈ written, '}' ∉ e.qualifiedName := by
      intro e he
      obtain ⟨e', f, -, hf, hrecord⟩ := hfound e he
      rw [← (lastEntry_mem hf).2]
      exact bufferRecord_name hrecord
    have hshort : ∀ e ∈ written, e.qualifiedName.length ≤ bufferSize - 2 := by
      intro e he
      obtain ⟨e', f, he', hf, hrecord⟩ := hfound e he
      rw [← (lastEntry_mem hf).2]
      exact name_length_of_openLine (openLine_of_bufferRecord (hnames e' (hsub e' he')) hrecord)
    have hlast := lastFor_bufferRecord (hkeys hnames hshort)
    intro e he
    refine ⟨hnames e he, ?_⟩
    obtain ⟨f, hf⟩ := lastEntry_exists he
    have hq := h e.qualifiedName
    rw [hlast, hf] at hq
    obtain ⟨e', he', hvalue⟩ := Option.bind_eq_some_iff.mp hq
    obtain ⟨r, hr, hrf⟩ := Option.map_eq_some_iff.mp hvalue
    obtain ⟨t, g, hrecord⟩ := hkeys hnames hshort e' (lastEntry_mem he').1
    refine ⟨e', f, he', hf, openLine_of_bufferRecord (hnames e' (hsub _ (lastEntry_mem he').1)) ?_⟩
    rw [hrecord] at hr
    obtain rfl := Option.some.inj hr
    have hpair : (t, g) = (f.typedefName, f.group) := hrf
    rw [hrecord, IndexEntry.record, (lastEntry_mem hf).2, (lastEntry_mem he').2, hpair]
  · intro h q
    have hnames : ∀ e ∈ written, '}' ∉ e.qualifiedName := fun e he => (h e he).1
    have hshort : ∀ e ∈ written, e.qualifiedName.length ≤ bufferSize - 2 := by
      intro e he
      obtain ⟨-, e', f, -, hf, hopen⟩ := h e he
      rw [← (lastEntry_mem hf).2]
      exact name_length_of_openLine hopen
    rw [lastFor_bufferRecord (hkeys hnames hshort)]
    cases hw : lastEntry q written with
    | none =>
      cases hr : lastEntry q read with
      | none => rfl
      | some e =>
        obtain ⟨he, hq⟩ := lastEntry_mem hr
        obtain ⟨f, hf⟩ := lastEntry_exists (hsub e he)
        rw [hq, hw] at hf
        cases hf
    | some f =>
      obtain ⟨hf, hq⟩ := lastEntry_mem hw
      obtain ⟨hbrace, e', f', hr, hw', hopen⟩ := h f hf
      rw [hq] at hr hw'
      obtain rfl := Option.some.inj (hw.symm.trans hw')
      rw [hr, Option.bind_some, bufferRecord_of_openLine hbrace hopen]
      rfl

theorem reached_sublist {α : Type} (fits : α → Prop) [DecidablePred fits] (l : List α) :
    ∀ a ∈ reached fits l, a ∈ l := by
  induction l with
  | nil => exact fun _ h => h
  | cons b l ih =>
    intro a ha
    rw [reached] at ha
    split at ha
    · exact (List.mem_cons.mp ha).elim (fun h => h ▸ List.mem_cons_self)
        fun h => List.mem_cons_of_mem _ (ih a h)
    · exact List.mem_singleton.mp ha ▸ List.mem_cons_self

theorem reachedLines_subset (w : WrittenIndex) : ∀ l ∈ w.reachedLines, l ∈ w.lines := by
  intro l hl
  obtain ⟨ls, hls, hl⟩ := List.mem_flatMap.mp hl
  exact List.mem_flatten.mpr ⟨ls, hls, reached_sublist _ ls l hl⟩

theorem reachedEntries_subset (w : WrittenIndex) : ∀ e ∈ w.reachedEntries, e ∈ w.entries := by
  intro e he
  obtain ⟨l, hl, he⟩ := List.mem_filterMap.mp he
  exact List.mem_filterMap.mpr ⟨l, reachedLines_subset w l hl, he⟩

/-- Where other lines have no brace within the buffer, only entries leave records. -/
theorem records_eq (w : WrittenIndex)
    (h : ∀ l ∈ w.lines, l.entry? = none → '{' ∉ l.buffer) :
    (w.reachedLines.filterMap fun l => splitIndexLine l.buffer) =
      w.reachedEntries.filterMap bufferRecord := by
  rw [WrittenIndex.reachedEntries, List.filterMap_filterMap]
  refine List.filterMap_congr fun l hl => ?_
  cases l with
  | entry e => rfl
  | other t ht =>
    have hbrace := h _ (reachedLines_subset w _ hl) rfl
    have hnpos := (find_eq_npos_iff (buffer_length_lt _) '{').mpr hbrace
    rw [splitIndexLine, if_pos hnpos]
    rfl

/-- What the lookups return, from the records. -/
theorem lookups_eq {records : List (Text × Text × Text)} {m : IndexState}
    (h : Recorded records {} m) (q : Text) (f : Option IndexEntry) :
    (findClassGroup m q = f.map IndexEntry.group ∧ findImportTypedef m q = match f with
        | some e => (true, e.typedefName)
        | none => (false, q)) ↔
      lastFor q records = f.map fun e => (e.typedefName, e.group) := by
  obtain ⟨hgroup, htypedef⟩ := h q
  have hempty : findClassGroup {} q = none ∧
      (({} : IndexState).importTypedefLookup.find textLess q) = none := ⟨rfl, rfl⟩
  rw [hempty.1, Option.or_none] at hgroup
  rw [hempty.2, Option.or_none] at htypedef
  rw [hgroup, findImportTypedef, htypedef]
  cases lastFor q records with
  | none => cases f <;> simp
  | some r =>
    cases f with
    | none => simp
    | some e => simp [Prod.ext_iff, and_comm]

theorem otherLines_iff (w : WrittenIndex) :
    (∀ l ∈ w.lines, l.entry? = none → ∀ m q,
      findClassGroup (parseIndexInformation m l.buffer) q = findClassGroup m q ∧
        findImportTypedef (parseIndexInformation m l.buffer) q = findImportTypedef m q) ↔
      ∀ l ∈ w.lines, l.entry? = none → '{' ∉ l.buffer :=
  forall₃_congr fun l _ _ => parseIndexInformation_unchanged_iff l.buffer (buffer_length_lt l)

theorem readsBack_of_roundTrips {w : WrittenIndex} (h : w.RoundTrips) : w.ReadsBack := by
  obtain ⟨m, hread, hlookups, hlines⟩ := h
  obtain ⟨m', hread', hrecorded⟩ := readMasterIndexFile_recorded w
  obtain rfl : m = m' := (Prod.mk.inj (hread.symm.trans hread')).1
  have hbraces := (otherLines_iff w).mp hlines
  rw [records_eq w hbraces] at hrecorded
  refine ⟨hbraces, (lookups_iff (reachedEntries_subset w)).mp fun q => ?_⟩
  exact (lookups_eq hrecorded q _).mp (hlookups q)

theorem roundTrips_of_readsBack {w : WrittenIndex} (h : w.ReadsBack) : w.RoundTrips := by
  obtain ⟨hbraces, hentries⟩ := h
  obtain ⟨m, hread, hrecorded⟩ := readMasterIndexFile_recorded w
  rw [records_eq w hbraces] at hrecorded
  refine ⟨m, hread, fun q => ?_, (otherLines_iff w).mpr hbraces⟩
  exact (lookups_eq hrecorded q _).mpr ((lookups_iff (reachedEntries_subset w)).mpr hentries q)

/-- Index files read back as they were written exactly where names have no closing brace,
the lines that decide a lookup are read far enough, and no other line has an opening brace. -/
theorem index_files_round_trip_iff (w : WrittenIndex) : w.RoundTrips ↔ w.ReadsBack :=
  ⟨readsBack_of_roundTrips, roundTrips_of_readsBack⟩

/-- In particular they read back where every line fits into the buffer. -/
theorem roundTrips_of_fits {w : WrittenIndex} (hfits : ∀ l ∈ w.lines, l.Fits)
    (hnames : ∀ e ∈ w.entries, '}' ∉ e.qualifiedName)
    (hother : ∀ l ∈ w.lines, l.entry? = none → '{' ∉ l.buffer) : w.RoundTrips := by
  have hreached : w.reachedLines = w.lines := by
    rw [WrittenIndex.reachedLines, WrittenIndex.lines, List.flatten_eq_flatMap]
    refine List.flatMap_congr fun ls hls => ?_
    exact reached_of_all _ fun l hl => hfits l (List.mem_flatten.mpr ⟨ls, hls, hl⟩)
  have hentries : w.reachedEntries = w.entries := by
    rw [WrittenIndex.reachedEntries, WrittenIndex.entries, hreached]
  refine roundTrips_of_readsBack ⟨hother, fun e he => ⟨hnames e he, ?_⟩⟩
  obtain ⟨f, hf⟩ := lastEntry_exists he
  refine ⟨f, f, hentries ▸ hf, hf, List.take_of_length_le ?_⟩
  obtain ⟨l, hl, hlf⟩ := List.mem_filterMap.mp (lastEntry_mem hf).1
  cases l with
  | other t ht => cases hlf
  | entry f' =>
    obtain rfl := Option.some.inj hlf
    have hlt := hfits _ hl
    simp only [IndexLine.Fits, IndexLine.text, IndexEntry.line, List.length_append] at hlt
    omega

/-- A class in an anonymous namespace. -/
def anonymousEntry : IndexEntry where
  qualifiedName := "\x7banonymous-namespace\x7d::A".toList
  typedefName := ['A']
  group := ['G']
  oneLine := forall_mem_of_all (by decide)
  names := forall_mem_of_all (by decide)

/-- A master index file that names one index file, with a line for that class. -/
def anonymousIndex : WrittenIndex where
  masters := [(['m'], [⟨['i'], [.entry anonymousEntry], forall_mem_of_all (by decide), by decide⟩])]
  file name := if name = ['m'] then some (ofLines [['i']])
    else if name = ['i'] then some (ofLines [anonymousEntry.line]) else none
  master_file := by
    intro m hm
    obtain rfl := List.mem_singleton.mp hm
    rfl
  index_file := by
    intro m hm l hl _
    obtain rfl := List.mem_singleton.mp hm
    obtain rfl := List.mem_singleton.mp hl
    rfl

/-- The name is taken to end at the brace that closes `anonymous-namespace`. -/
theorem anonymous_name_not_found : ¬ anonymousIndex.RoundTrips := by
  intro h
  have hmem : anonymousEntry ∈ anonymousIndex.entries := List.mem_singleton.mpr rfl
  exact ((readsBack_of_roundTrips h).2 anonymousEntry hmem).1 (by decide)

end RoundTrip

/-- `cidx` writes the lines of the entries that its typedefs stand for. -/
theorem determineClassesToWrap_eq (group : Text) (typedefs : List (Text × TypedefTarget)) :
    ∀ es : List IndexEntry, (typedefs.filterMap fun td =>
        td.2.qualifiedName?.map fun q => (q, td.1, group)) =
          es.map IndexEntry.record →
      determineClassesToWrap group typedefs = ofLines (es.map IndexEntry.line) := by
  induction typedefs with
  | nil =>
    intro es h
    cases es with
    | nil => rfl
    | cons e es => cases h
  | cons td typedefs ih =>
    intro es h
    obtain ⟨t, target⟩ := td
    have hwrite : ∀ q, (q, t, group) :: (typedefs.filterMap fun td =>
        td.2.qualifiedName?.map fun q => (q, td.1, group)) =
          es.map IndexEntry.record →
        openText q t group ++ ['}', '\n'] ++ determineClassesToWrap group typedefs =
          ofLines (es.map IndexEntry.line) := by
      intro q hq
      cases es with
      | nil => cases hq
      | cons e es =>
        obtain ⟨he, hes⟩ := List.cons.inj hq
        obtain ⟨rfl, hrest⟩ := Prod.mk.inj he
        obtain ⟨rfl, rfl⟩ := Prod.mk.inj hrest
        rw [ih es hes]
        simp [ofLines, IndexEntry.line, IndexEntry.openLine]
    cases target with
    | classType q => exact hwrite q h
    | enumerationType q => exact hwrite q h
    | other => exact ih es h

end CableSwig.Executables.IndexRoundTrip
