import CableSwig.Lib.StdString
import Mathlib.Data.List.ReduceOption
import Mathlib.Tactic.Common

/-!
# The `bases` attribute of a class

How `xml_output_record_type` writes the base classes of a class into one attribute, and the loop of
`SetupClass` that reads them.
-/
namespace CableSwig.Parsers.BasesAttribute

open CableSwig.Lib.StdString

section Writing

inductive Access
  | publicAccess | protectedAccess | privateAccess
  deriving DecidableEq

/-- A base class, with what `xml_add_node` gives for its type. -/
structure BaseBinfo where
  access : Access
  id : Int

/-- A class without a vector of accesses inherits publicly. -/
def nAccess (accesses : Bool) (binfo : BaseBinfo) : Access :=
  if accesses then binfo.access else .publicAccess

def accessText : Access → Text
  | .protectedAccess => "protected:".toList
  | .privateAccess => "private:".toList
  | .publicAccess => []

/-- `_%d`. -/
def writtenId (id : Int) : Text := '_' :: (toString id).toList

/-- The value of the attribute, for the base links of a class. -/
def xmlOutputBases (accesses : Bool) : List (Option BaseBinfo) → Text
  | [] => []
  | none :: links => xmlOutputBases accesses links
  | some binfo :: links =>
    accessText (nAccess accesses binfo) ++ writtenId binfo.id ++
      ' ' :: xmlOutputBases accesses links

end Writing

section Reading

inductive Failure (ε : Type)
  | outOfRange
  | noBaseClass (id : Text)
  | building (error : ε)

/-- What `SetupClass` does to the source representation, unless it fails. -/
abbrev Setup (σ ε : Type) : Type → Type := StateT σ (Except (Failure ε))

variable {σ ε element object κ : Type} (getSourceElement : Text → Option element)
  (addElementRepresentation : Option element → StateT σ (Except ε) (Option object))
  (safeDownCast : Option object → Option κ)

/-- `find_first_of`, which has no result where `npos` is returned. -/
def findFirstOf (s : Text) (c : Char) (pos : Nat) : Option Nat :=
  ((s.drop pos).findIdx? (· = c)).map (pos + ·)

def findFirstNotOf (s : Text) (c : Char) (pos : Nat) : Option Nat :=
  ((s.drop pos).findIdx? (· ≠ c)).map (pos + ·)

/-- `substr(l, r-l)`. To start or end behind the end of the string is an error here, as is a
difference that would wrap. -/
def cutOut (s : Text) (l r : Nat) : Setup σ ε Text :=
  if l ≤ r ∧ r ≤ s.length then pure (substr s l (r - l)) else throw .outOfRange

/-- The class of the element of an id. -/
def baseClass (id : Text) : Setup σ ε κ := fun representation =>
  match addElementRepresentation (getSourceElement id) representation with
  | .error error => .error (.building error)
  | .ok (bobj, representation) =>
    match safeDownCast bobj with
    | some base => .ok (base, representation)
    | none => .error (.noBaseClass id)

/-- A position that is looked for, or the end. -/
theorem getD_findIdx {p : Char → Bool} {s : Text} {pos : Nat} (h : pos ≤ s.length) :
    (((s.drop pos).findIdx? p).map (pos + ·)).getD s.length = pos + (s.drop pos).findIdx p := by
  rw [List.findIdx_eq_getD_findIdx?]
  cases (s.drop pos).findIdx? p with
  | none => rw [Option.map_none, Option.getD_none, Option.getD_none, List.length_drop]; omega
  | some i => rfl

theorem getD_le {p : Char → Bool} {s : Text} {pos : Nat} (h : pos ≤ s.length) :
    (((s.drop pos).findIdx? p).map (pos + ·)).getD s.length ≤ s.length := by
  have hle : (s.drop pos).findIdx p ≤ (s.drop pos).length := List.findIdx_le_length
  rw [List.length_drop] at hle
  rw [getD_findIdx h]
  omega

/-- The scan gets on, whether it stands on a blank or not. -/
theorem scan_progress {s : Text} {l r : Nat} (h : l < s.length)
    (hr : r = (findFirstOf s ' ' l).getD s.length) :
    l < (findFirstNotOf s ' ' r).getD s.length ∧ r ≤ s.length ∧
      (findFirstNotOf s ' ' r).getD s.length ≤ s.length := by
  have hrs : r ≤ s.length := by rw [hr]; exact getD_le h.le
  refine ⟨?_, hrs, getD_le hrs⟩
  rw [findFirstOf, getD_findIdx h.le, List.drop_eq_getElem_cons h, List.findIdx_cons] at hr
  rw [findFirstNotOf, getD_findIdx hrs]
  by_cases hc : s[l] = ' '
  · obtain rfl : r = l := by simpa [hc] using hr
    rw [List.drop_eq_getElem_cons h, List.findIdx_cons]
    simp [hc]
  · simp only [hc, decide_false, cond_false] at hr
    omega

/-- The loop over the attribute, from position `l` and with the bases added so far. -/
def scanBases (s : Text) (l : Nat) (bases : List κ) : Setup σ ε (List κ) :=
  if l < s.length then do
    let r := (findFirstOf s ' ' l).getD s.length
    let id ← cutOut s l r
    let bases ←
      if ':' ∈ id then pure bases
      else do
        let base ← baseClass getSourceElement addElementRepresentation safeDownCast id
        pure (bases ++ [base])
    scanBases s ((findFirstNotOf s ' ' r).getD s.length) bases
  else pure bases
termination_by s.length - l
decreasing_by
  have hprogress := scan_progress ‹_› rfl
  omega

/-- The bases that a class is given. A scan that would start from `npos` has nothing to do. -/
def setupBases (s : Text) : Setup σ ε (List κ) :=
  match findFirstNotOf s ' ' 0 with
  | none => pure []
  | some l => scanBases getSourceElement addElementRepresentation safeDownCast s l []

end Reading

section Words

/-- The stretches between blanks. -/
def words (s : Text) : List Text := (s.splitOn ' ').filter (· ≠ [])

/-- The words that are ids without an access. -/
def publicIds (s : Text) : List Text := (words s).filter (':' ∉ ·)

theorem words_nil : words [] = [] := rfl

theorem words_blank (s : Text) : words (' ' :: s) = words s := by
  have hblank : (' ' == ' ') = true := rfl
  have hsplit := List.splitOn_append_cons_of_beq [] s hblank
  rw [List.nil_append, List.splitOn_nil] at hsplit
  rw [words, hsplit]
  rfl

theorem words_blanks {gap : Text} (h : ∀ c ∈ gap, c = ' ') (s : Text) :
    words (gap ++ s) = words s := by
  induction gap with
  | nil => rfl
  | cons c gap ih =>
    obtain rfl := h c List.mem_cons_self
    rw [List.cons_append, words_blank]
    exact ih fun d hd => h d (List.mem_cons_of_mem _ hd)

theorem words_word {w : Text} (hw : ' ' ∉ w) (hne : w ≠ []) (s : Text) :
    words (w ++ ' ' :: s) = w :: words s := by
  rw [words, List.splitOn_append_cons_of_beq w s rfl, List.splitOn_eq_singleton hw,
    List.filter_append]
  simp [hne, words]

theorem words_last {w : Text} (hw : ' ' ∉ w) (hne : w ≠ []) : words w = [w] := by
  rw [words, List.splitOn_eq_singleton hw]
  simp [hne]

end Words

section Scanning

variable {σ ε element object κ : Type} (getSourceElement : Text → Option element)
  (addElementRepresentation : Option element → StateT σ (Except ε) (Option object))
  (safeDownCast : Option object → Option κ)

theorem findIdx_stretch {p : Char → Bool} {w t : Text} (hw : ∀ c ∈ w, p c = false)
    (ht : ∀ c ∈ t.head?, p c = true) : (w ++ t).findIdx p = w.length := by
  induction w with
  | nil =>
    cases t with
    | nil => rfl
    | cons c t => simp [List.findIdx_cons, ht c rfl]
  | cons c w ih =>
    rw [List.cons_append, List.findIdx_cons, hw c List.mem_cons_self, cond_false,
      ih fun d hd => hw d (List.mem_cons_of_mem _ hd), List.length_cons]

/-- What does not start with a blank is a word with the blanks behind it, and a rest of the same
kind. -/
theorem exists_word (rest : Text) : ∃ w gap rest', rest = w ++ (gap ++ rest') ∧ ' ' ∉ w ∧
    (∀ c ∈ gap, c = ' ') ∧ (∀ c ∈ rest'.head?, c ≠ ' ') ∧
    (∀ c ∈ (gap ++ rest').head?, c = ' ') := by
  refine ⟨rest.takeWhile (· ≠ ' '), (rest.dropWhile (· ≠ ' ')).takeWhile (· = ' '),
    (rest.dropWhile (· ≠ ' ')).dropWhile (· = ' '), ?_, ?_, ?_, ?_, ?_⟩
  · rw [List.takeWhile_append_dropWhile, List.takeWhile_append_dropWhile]
  · intro h
    simpa using List.mem_takeWhile_imp h
  · intro c hc
    simpa using List.mem_takeWhile_imp hc
  · intro c hc
    have hhead := List.head?_dropWhile_not (· = ' ') (rest.dropWhile (· ≠ ' '))
    rw [Option.mem_def.mp hc] at hhead
    simpa using hhead
  · intro c hc
    rw [List.takeWhile_append_dropWhile] at hc
    have hhead := List.head?_dropWhile_not (· ≠ ' ') rest
    rw [Option.mem_def.mp hc] at hhead
    simpa using hhead

theorem publicIds_word {w gap rest : Text} (hw : ' ' ∉ w) (hne : w ≠ [])
    (hgap : ∀ c ∈ gap, c = ' ') (hrest : ∀ c ∈ rest.head?, c ≠ ' ')
    (hend : ∀ c ∈ (gap ++ rest).head?, c = ' ') :
    publicIds (w ++ (gap ++ rest)) =
      if ':' ∈ w then publicIds rest else w :: publicIds rest := by
  have hwords : words (w ++ (gap ++ rest)) = w :: words rest := by
    cases gap with
    | nil =>
      cases rest with
      | nil => rw [List.append_nil, List.append_nil, words_last hw hne, words_nil]
      | cons c rest => exact absurd (hend c rfl) (hrest c rfl)
    | cons c gap =>
      obtain rfl := hgap c List.mem_cons_self
      rw [List.cons_append, words_word hw hne,
        words_blanks fun d hd => hgap d (List.mem_cons_of_mem _ hd)]
  rw [publicIds, hwords]
  by_cases hcolon : ':' ∈ w
  · simp [hcolon, publicIds]
  · simp [hcolon, publicIds]

/-- One iteration, from the start of a word to the start of the next one. -/
theorem scanBases_word {before w gap rest : Text} (hw : ' ' ∉ w) (hne : w ≠ [])
    (hgap : ∀ c ∈ gap, c = ' ') (hrest : ∀ c ∈ rest.head?, c ≠ ' ')
    (hend : ∀ c ∈ (gap ++ rest).head?, c = ' ') (bases : List κ) :
    scanBases getSourceElement addElementRepresentation safeDownCast
        (before ++ (w ++ (gap ++ rest))) before.length bases =
      (do
        let bases ←
          if ':' ∈ w then pure bases
          else do
            let base ← baseClass getSourceElement addElementRepresentation safeDownCast w
            pure (bases ++ [base])
        scanBases getSourceElement addElementRepresentation safeDownCast
          ((before ++ (w ++ gap)) ++ rest) (before ++ (w ++ gap)).length bases) := by
  have hpos : 0 < w.length := List.length_pos_of_ne_nil hne
  have hlt : before.length < (before ++ (w ++ (gap ++ rest))).length := by
    simp only [List.length_append]
    omega
  have hr : (findFirstOf (before ++ (w ++ (gap ++ rest))) ' ' before.length).getD
      (before ++ (w ++ (gap ++ rest))).length = before.length + w.length := by
    rw [findFirstOf, getD_findIdx hlt.le, List.drop_left, findIdx_stretch]
    · intro c hc
      exact decide_eq_false fun h => hw (h ▸ hc)
    · intro c hc
      exact decide_eq_true (hend c hc)
  have hcut : (cutOut (before ++ (w ++ (gap ++ rest))) before.length
      (before.length + w.length) : Setup σ ε Text) = pure w := by
    have hinside : before.length ≤ before.length + w.length ∧
        before.length + w.length ≤ (before ++ (w ++ (gap ++ rest))).length := by
      simp only [List.length_append]
      omega
    rw [cutOut, if_pos hinside, Nat.add_sub_cancel_left, substr, List.drop_left, List.take_left]
  have hnext : (findFirstNotOf (before ++ (w ++ (gap ++ rest))) ' '
      (before.length + w.length)).getD (before ++ (w ++ (gap ++ rest))).length =
        (before ++ (w ++ gap)).length := by
    have hle : before.length + w.length ≤ (before ++ (w ++ (gap ++ rest))).length := by
      simp only [List.length_append]
      omega
    rw [findFirstNotOf, getD_findIdx hle, ← List.length_append, ← List.append_assoc,
      List.drop_left, findIdx_stretch]
    · simp only [List.length_append]
      omega
    · intro c hc
      simp [hgap c hc]
    · intro c hc
      simp [hrest c hc]
  rw [scanBases, if_pos hlt]
  simp only [hr, hcut, hnext, pure_bind]
  rw [List.append_assoc before, List.append_assoc w]

/-- The loop adds the classes of the public ids in their order. -/
theorem scanBases_eq (n : Nat) : ∀ (before rest : Text) (bases : List κ), rest.length < n →
    (∀ c ∈ rest.head?, c ≠ ' ') →
    scanBases getSourceElement addElementRepresentation safeDownCast
        (before ++ rest) before.length bases =
      (do
        let more ← (publicIds rest).mapM
          (baseClass getSourceElement addElementRepresentation safeDownCast)
        pure (bases ++ more)) := by
  induction n with
  | zero => intro before rest bases hn; exact absurd hn (Nat.not_lt_zero _)
  | succ n ih =>
    intro before rest bases hn hhead
    obtain ⟨w, gap, rest', hsplit, hw, hgap, hrest', hend⟩ := exists_word rest
    by_cases hne : w = []
    · -- What starts with no word is empty.
      have hempty : rest = [] := by
        rw [hne, List.nil_append] at hsplit
        rw [← hsplit] at hend
        cases rest with
        | nil => rfl
        | cons c rest => exact absurd (hend c rfl) (hhead c rfl)
      rw [hempty, scanBases, if_neg (by simp)]
      simp [publicIds, words_nil]
    · have hpos : 0 < w.length := List.length_pos_of_ne_nil hne
      have hlen : rest'.length < n := by
        have hl := congrArg List.length hsplit
        simp only [List.length_append] at hl
        omega
      rw [hsplit, scanBases_word _ _ _ hw hne hgap hrest' hend,
        publicIds_word hw hne hgap hrest' hend]
      simp only [ih _ _ _ hlen hrest']
      by_cases hcolon : ':' ∈ w
      · rw [if_pos hcolon, if_pos hcolon, pure_bind]
      · rw [if_neg hcolon, if_neg hcolon, List.mapM_cons]
        simp only [bind_assoc, pure_bind, List.append_assoc, List.singleton_append]

theorem exists_blanks (s : Text) : ∃ gap rest, s = gap ++ rest ∧ (∀ c ∈ gap, c = ' ') ∧
    ∀ c ∈ rest.head?, c ≠ ' ' := by
  refine ⟨s.takeWhile (· = ' '), s.dropWhile (· = ' '), ?_, ?_, ?_⟩
  · rw [List.takeWhile_append_dropWhile]
  · intro c hc
    simpa using List.mem_takeWhile_imp hc
  · intro c hc
    have hhead := List.head?_dropWhile_not (· = ' ') s
    rw [Option.mem_def.mp hc] at hhead
    simpa using hhead

/-- Whatever the attribute is, the public ids in it give the bases. -/
theorem setupBases_eq (s : Text) :
    setupBases getSourceElement addElementRepresentation safeDownCast s =
      (publicIds s).mapM (baseClass getSourceElement addElementRepresentation safeDownCast) := by
  obtain ⟨gap, rest, hs, hgap, hrest⟩ := exists_blanks s
  have hids : publicIds s = publicIds rest := by rw [hs, publicIds, words_blanks hgap, publicIds]
  have hstart : (findFirstNotOf s ' ' 0).getD s.length = gap.length := by
    rw [findFirstNotOf, getD_findIdx (Nat.zero_le _), List.drop_zero, Nat.zero_add, hs,
      findIdx_stretch]
    · intro c hc
      simp [hgap c hc]
    · intro c hc
      simp [hrest c hc]
  have hscan := scanBases_eq getSourceElement addElementRepresentation safeDownCast _ gap rest []
    (Nat.lt_succ_self _) hrest
  simp only [List.nil_append, bind_pure, ← hs] at hscan
  rw [hids, ← hscan, setupBases, ← hstart]
  cases hfirst : findFirstNotOf s ' ' 0 with
  | none =>
    rw [Option.getD_none, scanBases, if_neg (lt_irrefl _)]
  | some l => rw [Option.getD_some]

end Scanning

section RoundTrip

variable {σ ε element object κ : Type} (getSourceElement : Text → Option element)
  (addElementRepresentation : Option element → StateT σ (Except ε) (Option object))
  (safeDownCast : Option object → Option κ)

/-- The ids of the public bases, in the order of the base links. -/
def publicBases (accesses : Bool) (links : List (Option BaseBinfo)) : List Text :=
  (links.reduceOption.filter fun binfo => nAccess accesses binfo = .publicAccess).map
    fun binfo => writtenId binfo.id

theorem digits_plain (n : Nat) : ∀ c ∈ Nat.toDigits 10 n, c ≠ ' ' ∧ c ≠ ':' := by
  intro c hc
  have hdigit := Nat.isDigit_of_mem_toDigits (by decide) (by decide) hc
  constructor
  · intro h
    rw [h] at hdigit
    exact absurd hdigit (by decide)
  · intro h
    rw [h] at hdigit
    exact absurd hdigit (by decide)

theorem writtenId_plain (id : Int) : ∀ c ∈ writtenId id, c ≠ ' ' ∧ c ≠ ':' := by
  intro c hc
  rcases List.mem_cons.mp hc with rfl | hc
  · decide
  · rw [Int.toString_eq_repr, Int.repr_eq_if] at hc
    split at hc
    · exact digits_plain _ c (by simpa [Nat.repr] using hc)
    · rw [String.toList_append, List.mem_append] at hc
      rcases hc with hc | hc
      · obtain rfl : c = '-' := by simpa using hc
        decide
      · exact digits_plain _ c (by simpa [Nat.repr] using hc)

theorem accessText_blank (a : Access) : ' ' ∉ accessText a := by
  cases a <;> decide

/-- Only the accesses that are not public are written, with a colon. -/
theorem accessText_colon (a : Access) : ':' ∈ accessText a ↔ a ≠ .publicAccess := by
  cases a <;> decide

theorem publicBases_some (accesses : Bool) (binfo : BaseBinfo) (links : List (Option BaseBinfo)) :
    publicBases accesses (some binfo :: links) =
      if nAccess accesses binfo = .publicAccess then
        writtenId binfo.id :: publicBases accesses links
      else publicBases accesses links := by
  rw [publicBases, List.reduceOption_cons_of_some, List.filter_cons]
  split
  · next h => rw [if_pos (of_decide_eq_true h), List.map_cons, publicBases]
  · next h => rw [if_neg (fun hpublic => h (decide_eq_true hpublic)), publicBases]

/-- What is written for a class is read as the ids of its public bases. -/
theorem publicIds_xmlOutputBases (accesses : Bool) (links : List (Option BaseBinfo)) :
    publicIds (xmlOutputBases accesses links) = publicBases accesses links := by
  induction links with
  | nil => rfl
  | cons link links ih =>
    cases link with
    | none => exact ih
    | some binfo =>
      have hblank : ' ' ∉ accessText (nAccess accesses binfo) ++ writtenId binfo.id := by
        intro h
        rcases List.mem_append.mp h with h | h
        · exact accessText_blank _ h
        · exact (writtenId_plain binfo.id ' ' h).1 rfl
      have hcolon : ':' ∈ accessText (nAccess accesses binfo) ++ writtenId binfo.id ↔
          nAccess accesses binfo ≠ .publicAccess := by
        rw [List.mem_append, accessText_colon, or_iff_left_iff_imp]
        exact fun h => absurd rfl (writtenId_plain binfo.id ':' h).2
      have hids : publicIds (xmlOutputBases accesses (some binfo :: links)) =
          if ':' ∈ accessText (nAccess accesses binfo) ++ writtenId binfo.id then
            publicIds (xmlOutputBases accesses links)
          else (accessText (nAccess accesses binfo) ++ writtenId binfo.id) ::
            publicIds (xmlOutputBases accesses links) := by
        rw [xmlOutputBases, publicIds, words_word hblank (by simp [writtenId]), List.filter_cons,
          publicIds]
        simp only [decide_eq_true_eq, ite_not]
      rw [hids, ih, publicBases_some]
      by_cases hpublic : nAccess accesses binfo = .publicAccess
      · rw [if_neg (fun h => hcolon.mp h hpublic), if_pos hpublic, hpublic]
        rfl
      · rw [if_pos (hcolon.mpr hpublic), if_neg hpublic]

theorem baseClass_inside (id : Text) (representation : σ) :
    baseClass getSourceElement addElementRepresentation safeDownCast id representation ≠
      .error .outOfRange := by
  intro h
  unfold baseClass at h
  split at h
  · cases h
  · split at h
    · cases h
    · cases h

theorem mapM_inside {f : Text → Setup σ ε κ}
    (hf : ∀ id representation, f id representation ≠ .error .outOfRange) (ids : List Text) :
    ∀ representation, (ids.mapM f) representation ≠ .error .outOfRange := by
  induction ids with
  | nil =>
    intro representation h
    cases h
  | cons id ids ih =>
    intro representation h
    rw [List.mapM_cons] at h
    cases hid : f id representation with
    | error e =>
      simp only [bind, StateT.bind, hid, Except.bind] at h
      cases h
      exact hf id representation hid
    | ok base =>
      cases hids : ids.mapM f base.2 with
      | error e =>
        simp only [bind, StateT.bind, hid, hids, Except.bind] at h
        cases h
        exact ih base.2 hids
      | ok bases =>
        simp only [bind, StateT.bind, hid, hids, Except.bind] at h
        cases h

/-- The classes of the public bases are added in the order in which the bases are written. Whatever
the attribute is, the scan comes to its end and gives the classes of the public ids, and nothing
is read from behind the end. -/
theorem bases_round_trip :
    (∀ accesses links,
      setupBases getSourceElement addElementRepresentation safeDownCast
          (xmlOutputBases accesses links) =
        (publicBases accesses links).mapM
          (baseClass getSourceElement addElementRepresentation safeDownCast)) ∧
    ∀ s, setupBases getSourceElement addElementRepresentation safeDownCast s =
        (publicIds s).mapM (baseClass getSourceElement addElementRepresentation safeDownCast) ∧
      ∀ representation,
        setupBases getSourceElement addElementRepresentation safeDownCast s representation ≠
          .error .outOfRange := by
  refine ⟨?_, ?_⟩
  · intro accesses links
    rw [setupBases_eq, publicIds_xmlOutputBases]
  · intro s
    rw [setupBases_eq]
    refine ⟨rfl, ?_⟩
    exact mapM_inside
      (baseClass_inside getSourceElement addElementRepresentation safeDownCast) (publicIds s)

end RoundTrip

end CableSwig.Parsers.BasesAttribute
