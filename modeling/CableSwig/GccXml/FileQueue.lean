import CableSwig.GccXml.EscapeString
import CableSwig.Lib.Fuel
import CableSwig.Lib.Interning
import CableSwig.Lib.LinkedCells
import CableSwig.Lib.Numerals
import CableSwig.Lib.SplayTree
import Mathlib.Data.Char
import Mathlib.Data.List.Lex

/-!
# The file queue of xml.c

The source file of each declaration gets an index when it is met for the first time. A splay tree
goes from the identifier of the escaped name to the index, and a queue of cells keeps the files in
order for `xml_dump_files`. The index is an `unsigned int`.
-/
namespace CableSwig.GccXml.FileQueue

open CableSwig.GccXml.EscapeString
open CableSwig.Lib.Fuel
open CableSwig.Lib.Interning
open CableSwig.Lib.LinkedCells
open CableSwig.Lib.Numerals
open CableSwig.Lib.SplayTree
open CableSwig.Lib.StdString

variable {τ : Type}

/-- The identifier nodes of the compiler: there is one for each text. -/
structure Identifiers (τ : Type) where
  getIdentifier : Text → τ
  identifierPointer : τ → Text
  pointer_identifier : ∀ text, identifierPointer (getIdentifier text) = text

/-- `xml_get_encoded_identifier_from_string`. -/
def xmlGetEncodedIdentifierFromString (ids : Identifiers τ) (inStr : Text) : τ :=
  ids.getIdentifier (xmlEscapeString inStr)

theorem encodedIdentifier_inj {ids : Identifiers τ} {n m : Text}
    (h : xmlGetEncodedIdentifierFromString ids n = xmlGetEncodedIdentifierFromString ids m) :
    n = m := by
  have hescape := congrArg ids.identifierPointer h
  rw [xmlGetEncodedIdentifierFromString, xmlGetEncodedIdentifierFromString,
    ids.pointer_identifier, ids.pointer_identifier] at hescape
  rw [← read_back n, hescape, read_back]

/-- `struct xml_file_queue`. The node of the splay tree is named by its key. -/
structure FileCell (τ : Type) where
  treeNode : τ
  next : Option Nat

/-- The fields of `struct xml_dump_info` for the files, and the cells allocated so far. -/
structure Files (τ : Type) [LinearOrder τ] where
  fileIndex : Nat
  fileQueue : Option Nat
  fileQueueEnd : Option Nat
  fileNodes : Tree τ Nat
  cells : List (FileCell τ)

/-- An element that `xml_dump_files` writes. -/
structure FileElement where
  index : Nat
  name : Text
deriving DecidableEq, Repr

/-- What `f%d` prints for an index. -/
def fileId (index : Nat) : Text := 'f' :: decimal (toInt index)

def FileElement.text (e : FileElement) : Text :=
  "  <File id=\"".toList ++ fileId e.index ++ "\" name=\"".toList ++ e.name ++ "\"/>\n".toList

/-- The attributes for a file and a line. -/
def locationText (sourceFile sourceLine : Nat) : Text :=
  let line := decimal (toInt sourceLine)
  " location=\"".toList ++ fileId sourceFile ++ [':'] ++ line ++ "\" file=\"".toList ++
    fileId sourceFile ++ "\" line=\"".toList ++ line ++ "\"".toList

variable [LinearOrder τ]

namespace Files

/-- As `do_xml_output` sets it up. -/
def start : Files τ where
  fileIndex := 0
  fileQueue := none
  fileQueueEnd := none
  fileNodes := .empty
  cells := []

/-- The end of `xml_queue_file`: a new cell goes to the end of the queue. -/
def append (q : Files τ) (t : τ) : Option (Files τ) :=
  let fq := q.cells.length
  match q.fileQueueEnd with
  | none => some { q with
      fileQueue := some fq
      fileQueueEnd := some fq
      cells := q.cells ++ [⟨t, none⟩] }
  | some e => do
    let last ← q.cells[e]?
    some { q with
      fileQueueEnd := some fq
      cells := q.cells.set e { last with next := some fq } ++ [⟨t, none⟩] }

/-- `xml_queue_file`. -/
def xmlQueueFile (ids : Identifiers τ) (q : Files τ) (filename : Text) :
    Option (Files τ × Nat) :=
  let t := xmlGetEncodedIdentifierFromString ids filename
  match q.fileNodes.lookup t with
  | some value => some (q, value)
  | none => do
    let index := q.fileIndex
    let q ← { q with
      fileIndex := (index + 1) % 2 ^ 32
      fileNodes := q.fileNodes.insert t index : Files τ }.append t
    some (q, index)

/-- `xml_print_location_attribute`. -/
def xmlPrintLocationAttribute (ids : Identifiers τ) (q : Files τ) (sourceFile : Text)
    (sourceLine : Nat) : Option (Files τ × Text) := do
  let (q, file) ← q.xmlQueueFile ids sourceFile
  some (q, locationText file sourceLine)

/-- The loop of `xml_dump_files`. -/
def dumpLoop (ids : Identifiers τ) (q : Files τ) : Nat → Option Nat → Option (List FileElement)
  | _, none => some []
  | 0, some _ => none
  | fuel + 1, some fq => do
    let cell ← q.cells[fq]?
    let value ← q.fileNodes.lookup cell.treeNode
    let rest ← dumpLoop ids q fuel cell.next
    some (⟨value, ids.identifierPointer cell.treeNode⟩ :: rest)

/-- `xml_dump_files`. -/
def xmlDumpFiles (ids : Identifiers τ) (fuel : Nat) (q : Files τ) : Option Text :=
  (q.dumpLoop ids fuel q.fileQueue).map fun elements => elements.flatMap FileElement.text

/-- The indices that are returned for a sequence of names. -/
def queueFiles (ids : Identifiers τ) : List Text → Files τ → Option (Files τ × List Nat)
  | [], q => some (q, [])
  | filename :: names, q => do
    let (q, index) ← q.xmlQueueFile ids filename
    let (q, indices) ← queueFiles ids names q
    some (q, index :: indices)

/-- The attributes for a sequence of declarations, each in a file and on a line. -/
def printLocations (ids : Identifiers τ) :
    List (Text × Nat) → Files τ → Option (Files τ × List Text)
  | [], q => some (q, [])
  | (file, line) :: decls, q => do
    let (q, text) ← q.xmlPrintLocationAttribute ids file line
    let (q, texts) ← printLocations ids decls q
    some (q, text :: texts)

/-- The link that a cell carries. -/
def next (q : Files τ) (a : Nat) : Option (Option Nat) := q.cells[a]?.map FileCell.next

/-- The queue holds these names in this order: its cells are linked in the order in which they
were allocated, and the tree has the place of each name. -/
structure Holds (ids : Identifiers τ) (q : Files τ) (names : List Text) : Prop where
  chain : Chain q.next q.fileQueue (List.range names.length)
  last : q.fileQueueEnd = (List.range names.length).getLast?
  nodes : q.cells.map FileCell.treeNode = names.map (xmlGetEncodedIdentifierFromString ids)
  index : q.fileIndex = names.length % 2 ^ 32
  lookup : ∀ n, q.fileNodes.lookup (xmlGetEncodedIdentifierFromString ids n) =
    if n ∈ names then some (place names n % 2 ^ 32) else none
  nodup : names.Nodup

end Files

section Steps

variable {ids : Identifiers τ} {q : Files τ} {names : List Text}

theorem start_holds : (Files.start : Files τ).Holds ids [] where
  chain := .nil
  last := rfl
  nodes := rfl
  index := rfl
  lookup _ := rfl
  nodup := List.nodup_nil

/-- A new cell is linked behind the last one. -/
theorem append_links {n : Nat} (hchain : Chain q.next q.fileQueue (List.range n))
    (hlast : q.fileQueueEnd = (List.range n).getLast?) (hlen : q.cells.length = n) (t : τ) :
    ∃ q', q.append t = some q' ∧ Chain q'.next q'.fileQueue (List.range (n + 1)) ∧
      q'.fileQueueEnd = (List.range (n + 1)).getLast? ∧
      q'.cells.map FileCell.treeNode = q.cells.map FileCell.treeNode ++ [t] ∧
      q'.fileIndex = q.fileIndex ∧ q'.fileNodes = q.fileNodes := by
  cases n with
  | zero =>
    have hend : q.fileQueueEnd = none := hlast
    have hcells : q.cells = [] := List.length_eq_zero_iff.mp hlen
    have happend : q.append t = some { q with
        fileQueue := some 0
        fileQueueEnd := some 0
        cells := [⟨t, none⟩] } := by
      simp [Files.append, hend, hcells]
    refine ⟨_, happend, .cons rfl .nil, rfl, ?_, rfl, rfl⟩
    rw [hcells]
    rfl
  | succ m =>
    have hend : q.fileQueueEnd = some m := by rw [hlast, List.range_succ, List.getLast?_concat]
    have hm : m < q.cells.length := by omega
    have happend : q.append t = some { q with
        fileQueueEnd := some (m + 1)
        cells := q.cells.set m ⟨q.cells[m].treeNode, some (m + 1)⟩ ++ [⟨t, none⟩] } := by
      simp [Files.append, hend, hlen]
    refine ⟨_, happend, ?_, ?_, ?_, rfl, rfl⟩
    · rw [List.range_succ (n := m + 1)]
      apply hchain.snoc (e := m)
      · rw [List.range_succ, List.getLast?_concat]
      · exact List.nodup_range
      · intro a ha hne
        have hlt : a < q.cells.length := by rw [hlen]; exact List.mem_range.mp ha
        simp [Files.next, List.getElem?_append_left, hlt, List.getElem_set_ne hne.symm]
      · simp [Files.next, List.getElem?_append_left, hm]
      · simp [Files.next, ← hlen]
    · rw [List.range_succ, List.getLast?_concat]
    · have hset : (q.cells.map FileCell.treeNode).set m q.cells[m].treeNode =
          q.cells.map FileCell.treeNode := by
        rw [← List.map_set, List.set_getElem_self]
      rw [List.map_append, List.map_set, hset]
      rfl

/-- Entering a name in the table of names. -/
theorem xmlQueueFile_eq (h : q.Holds ids names) (n : Text) :
    ∃ q', q.xmlQueueFile ids n = some (q', place names n % 2 ^ 32) ∧
      q'.Holds ids (enter names n) := by
  have hlookup := h.lookup n
  rw [enter]
  split at hlookup
  · rename_i hn
    refine ⟨q, ?_, by rwa [if_pos hn]⟩
    rw [Files.xmlQueueFile, hlookup]
  · rename_i hn
    have hlen : q.cells.length = names.length := by
      have hnodes := congrArg List.length h.nodes
      simpa using hnodes
    have hidx : place names n = names.length := place_of_notMem hn
    obtain ⟨q', happend, hchain, hlast, hnodes, hindex, htree⟩ :=
      append_links (q := { q with
        fileIndex := (q.fileIndex + 1) % 2 ^ 32
        fileNodes := q.fileNodes.insert (xmlGetEncodedIdentifierFromString ids n) q.fileIndex })
        h.chain h.last hlen (xmlGetEncodedIdentifierFromString ids n)
    refine ⟨q', ?_, ?_⟩
    · rw [Files.xmlQueueFile, hlookup, hidx, ← h.index]
      simp only [happend]
      rfl
    · rw [if_neg hn]
      have hlength : (names ++ [n]).length = names.length + 1 := by simp
      refine ⟨?_, ?_, ?_, ?_, fun m => ?_, ?_⟩
      · rw [hlength]
        exact hchain
      · rw [hlength]
        exact hlast
      · rw [hnodes, h.nodes, List.map_append]
        rfl
      · rw [hindex, hlength, h.index]
        simp
      · rw [htree, Tree.lookup_insert]
        by_cases hm : m = n
        · have hplace : place (names ++ [n]) n = names.length := by
            have henter := place_enter names n
            rwa [enter, if_neg hn, hidx] at henter
          rw [hm, if_pos rfl, if_pos (by simp), hplace, h.index]
        · have hmem : m ∈ names ++ [n] ↔ m ∈ names := by simp [hm]
          rw [if_neg fun heq => hm (encodedIdentifier_inj heq), h.lookup]
          by_cases hmn : m ∈ names
          · rw [if_pos hmn, if_pos (hmem.mpr hmn), place_of_prefix (List.prefix_append _ _) hmn]
          · rw [if_neg hmn, if_neg fun h => hmn (hmem.mp h)]
      · have hnodup := enter_nodup h.nodup n
        rwa [enter, if_neg hn] at hnodup

end Steps

section Runs

variable {ids : Identifiers τ} {q : Files τ}

theorem queueFiles_eq (names : List Text) :
    ∀ (q : Files τ) table, q.Holds ids table → ∃ q', Files.queueFiles ids names q =
      some (q', names.map fun n => place (enterAll table names) n % 2 ^ 32) ∧
        q'.Holds ids (enterAll table names) := by
  induction names with
  | nil => exact fun q table h => ⟨q, rfl, h⟩
  | cons n names ih =>
    intro q table h
    obtain ⟨q₁, hqueue, h₁⟩ := xmlQueueFile_eq h n
    obtain ⟨q', hrest, h'⟩ := ih q₁ (enter table n) h₁
    refine ⟨q', ?_, h'⟩
    rw [Files.queueFiles, hqueue, List.map_cons, place_enterAll]
    have hcons : enterAll table (n :: names) = enterAll (enter table n) names := rfl
    simp [hrest, hcons]

/-- Following the links. The tree has the index of each cell. -/
theorem dumpLoop_eq {table : List Text} (h : q.Holds ids table) {start : Option Nat}
    {cells : List Nat} (hchain : Chain q.next start cells) :
    ∀ names, List.Forall₂ (fun a n => table[a]? = some n) cells names →
      Enough fun fuel => q.dumpLoop ids fuel start =
        some (names.map fun n => ⟨place table n % 2 ^ 32, xmlEscapeString n⟩) := by
  induction hchain with
  | nil =>
    intro names hnames
    cases hnames
    exact ⟨0, fun fuel _ => by cases fuel <;> rfl⟩
  | @cons a link cells hnext _ ih =>
    intro names hnames
    cases hnames with
    | @cons _ n _ names hn hrest =>
      obtain ⟨cell, hcell, hlink⟩ := Option.map_eq_some_iff.mp hnext
      have hnode : cell.treeNode = xmlGetEncodedIdentifierFromString ids n := by
        have hmap := congrArg (·[a]?) h.nodes
        simpa [List.getElem?_map, hcell, hn] using hmap
      have hlookup := h.lookup n
      rw [if_pos (List.mem_of_getElem? hn), ← hnode] at hlookup
      have hname : ids.identifierPointer cell.treeNode = xmlEscapeString n := by
        rw [hnode, xmlGetEncodedIdentifierFromString, ids.pointer_identifier]
      refine (ih names hrest).step fun fuel hfuel => ?_
      rw [← hlink] at hfuel
      simp [Files.dumpLoop, hcell, hlookup, hname, hfuel]

theorem xmlDumpFiles_eq {table : List Text} (h : q.Holds ids table) :
    Enough fun fuel => q.xmlDumpFiles ids fuel = some ((table.map fun n =>
      FileElement.mk (place table n % 2 ^ 32) (xmlEscapeString n)).flatMap FileElement.text) := by
  have hall : List.Forall₂ (fun a n => table[a]? = some n) (List.range table.length) table := by
    rw [List.forall₂_iff_get]
    refine ⟨by simp, fun i h1 h2 => ?_⟩
    simp
  refine (dumpLoop_eq h h.chain table hall).mono fun fuel hfuel => ?_
  rw [Files.xmlDumpFiles, hfuel, Option.map_some]

end Runs

section Consistency

/-- The indices that are handed out for a sequence of names, and the elements that are written
for the files. -/
structure Consistent (names : List Text) (indices : List Nat) (elements : List FileElement) :
    Prop where
  length : indices.length = names.length
  same : ∀ p ∈ names.zip indices, ∀ p' ∈ names.zip indices, p.2 = p'.2 ↔ p.1 = p'.1
  consecutive : distinct indices = List.range (distinct names).length
  increasing : elements.map FileElement.index = List.range (distinct names).length
  once : elements.map FileElement.name = (distinct names).map xmlEscapeString
  written : ∀ p ∈ names.zip indices, ⟨p.2, xmlEscapeString p.1⟩ ∈ elements

def FileIdsConsistent (ids : Identifiers τ) (names : List Text) : Prop :=
  ∃ q indices elements, Files.queueFiles ids names .start = some (q, indices) ∧
    (Enough fun fuel => q.xmlDumpFiles ids fuel = some (elements.flatMap FileElement.text)) ∧
    Consistent names indices elements

theorem mem_zip_map {f : Text → Nat} {names : List Text} {p : Text × Nat} :
    p ∈ names.zip (names.map f) ↔ p.1 ∈ names ∧ p.2 = f p.1 := by
  rw [← List.map_prod_left_eq_zip, List.mem_map]
  constructor
  · rintro ⟨n, hn, rfl⟩
    exact ⟨hn, rfl⟩
  · rintro ⟨hn, hp⟩
    exact ⟨p.1, hn, Prod.ext rfl hp.symm⟩

/-- The run from the start. -/
theorem queueFiles_start (ids : Identifiers τ) (names : List Text) :
    ∃ q, Files.queueFiles ids names .start =
      some (q, names.map fun n => place (distinct names) n % 2 ^ 32) ∧
        q.Holds ids (distinct names) :=
  queueFiles_eq names .start [] start_holds

theorem consistent_of_few (ids : Identifiers τ) {names : List Text}
    (hfew : (distinct names).length ≤ 2 ^ 32) : FileIdsConsistent ids names := by
  obtain ⟨q, hrun, hholds⟩ := queueFiles_start ids names
  have hplace : ∀ n ∈ distinct names, place (distinct names) n % 2 ^ 32 =
      place (distinct names) n := fun n hn =>
    Nat.mod_eq_of_lt (Nat.lt_of_lt_of_le (place_lt hn) hfew)
  have hindices : (names.map fun n => place (distinct names) n % 2 ^ 32) =
      names.map (place (distinct names)) :=
    List.map_congr_left fun n hn => hplace n (mem_distinct.mpr hn)
  have helements : ((distinct names).map fun n =>
      FileElement.mk (place (distinct names) n % 2 ^ 32) (xmlEscapeString n)) =
      (distinct names).map fun n => ⟨place (distinct names) n, xmlEscapeString n⟩ :=
    List.map_congr_left fun n hn => by rw [hplace n hn]
  have hdump := xmlDumpFiles_eq hholds
  rw [helements] at hdump
  rw [hindices] at hrun
  refine ⟨q, _, _, hrun, hdump, ?_, ?_, ?_, ?_, ?_, ?_⟩
  · rw [List.length_map]
  · intro p hp p' hp'
    obtain ⟨hmem, hindex⟩ := mem_zip_map.mp hp
    obtain ⟨-, hindex'⟩ := mem_zip_map.mp hp'
    rw [hindex, hindex']
    exact ⟨place_inj (mem_distinct.mpr hmem), fun h => by rw [h]⟩
  · exact distinct_place names
  · apply List.ext_getElem (by simp)
    intro i h1 h2
    simp [place_getElem (distinct_nodup names)]
  · simp
  · intro p hp
    obtain ⟨hmem, hindex⟩ := mem_zip_map.mp hp
    exact List.mem_map.mpr ⟨p.1, mem_distinct.mpr hmem, by rw [hindex]⟩

theorem printLocations_eq (ids : Identifiers τ) (decls : List (Text × Nat)) (q : Files τ) :
    Files.printLocations ids decls q =
      (Files.queueFiles ids (decls.map Prod.fst) q).map fun r =>
        (r.1, List.zipWith locationText r.2 (decls.map Prod.snd)) := by
  induction decls generalizing q with
  | nil => rfl
  | cons d decls ih =>
    obtain ⟨file, line⟩ := d
    simp only [Files.printLocations, Files.queueFiles, Files.xmlPrintLocationAttribute,
      List.map_cons]
    cases q.xmlQueueFile ids file with
    | none => rfl
    | some r =>
      have ih := ih r.1
      cases hrest : Files.queueFiles ids (decls.map Prod.fst) r.1 with
      | none =>
        rw [hrest] at ih
        simp [hrest, ih]
      | some r' =>
        rw [hrest] at ih
        simp [hrest, ih]

/-- The locations of declarations have the ids of the files that are written at the end. -/
theorem locations_consistent (ids : Identifiers τ) (decls : List (Text × Nat))
    (hfew : (distinct (decls.map Prod.fst)).length ≤ 2 ^ 32) :
    ∃ q indices elements, Files.printLocations ids decls .start =
        some (q, List.zipWith locationText indices (decls.map Prod.snd)) ∧
      (Enough fun fuel => q.xmlDumpFiles ids fuel = some (elements.flatMap FileElement.text)) ∧
      Consistent (decls.map Prod.fst) indices elements := by
  obtain ⟨q, indices, elements, hrun, hdump, hconsistent⟩ := consistent_of_few ids hfew
  refine ⟨q, indices, elements, ?_, hdump, hconsistent⟩
  rw [printLocations_eq, hrun, Option.map_some]

/-- The file after 2^32 others gets the index of the first one. -/
theorem not_consistent_of_many (ids : Identifiers τ) {names : List Text}
    (hmany : 2 ^ 32 < (distinct names).length) : ¬ FileIdsConsistent ids names := by
  rintro ⟨q, indices, elements, hrun, -, h⟩
  obtain ⟨q', hrun', -⟩ := queueFiles_start ids names
  obtain ⟨-, rfl⟩ := Prod.mk.inj (Option.some.inj (hrun.symm.trans hrun'))
  have hzero : 0 < (distinct names).length := by omega
  have hpair : ∀ i (hi : i < (distinct names).length), i % 2 ^ 32 = 0 →
      ((distinct names)[i], 0) ∈
        names.zip (names.map fun n => place (distinct names) n % 2 ^ 32) := by
    intro i hi hmod
    refine mem_zip_map.mpr ⟨mem_distinct.mp (List.getElem_mem hi), ?_⟩
    rw [place_getElem (distinct_nodup names) i hi, hmod]
  have heq := (h.same _ (hpair 0 hzero rfl) _ (hpair (2 ^ 32) hmany (Nat.mod_self _))).mp rfl
  have hplaces := congrArg (place (distinct names)) heq
  rw [place_getElem (distinct_nodup names), place_getElem (distinct_nodup names)] at hplaces
  omega

/-- The ids are consistent as long as the counter has a number for each name. -/
theorem file_ids_consistent_iff (ids : Identifiers τ) (names : List Text) :
    FileIdsConsistent ids names ↔ (distinct names).length ≤ 2 ^ 32 := by
  refine ⟨fun h => ?_, consistent_of_few ids⟩
  by_contra hmany
  exact not_consistent_of_many ids (Nat.lt_of_not_le hmany) h

/-- Identifier nodes that are their texts. -/
def textIdentifiers : Identifiers Text := ⟨id, id, fun _ => rfl⟩

/-- The files 0, 1 and so on to 2^32. -/
def numberedFiles : List Text := (List.range (2 ^ 32 + 1)).map unsignedDecimal

theorem numberedFiles_not_consistent : ¬ FileIdsConsistent textIdentifiers numberedFiles := by
  have hinj : Function.Injective unsignedDecimal := by
    intro m n h
    have hread := congrArg (fun digits => Nat.ofDigitChars 10 digits 0) h
    simpa [unsignedDecimal] using hread
  have hnodup : numberedFiles.Nodup := List.nodup_range.map hinj
  have hsubset : numberedFiles ⊆ distinct numberedFiles := fun n hn => mem_distinct.mpr hn
  have hle := (List.subperm_of_subset hnodup hsubset).length_le
  have hlength : numberedFiles.length = 2 ^ 32 + 1 := by
    rw [numberedFiles, List.length_map, List.length_range]
  exact not_consistent_of_many textIdentifiers (by omega)

end Consistency

end CableSwig.GccXml.FileQueue
