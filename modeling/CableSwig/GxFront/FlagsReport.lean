import CableSwig.GxFront.FindFlags
import CableSwig.GxFront.FlagsParser

/-!
# What a GCC reports

A list of macros and a list of paths as the compiler prints them, and what `FindFlagsGCC` finds in
the two texts.
-/
namespace CableSwig.GxFront.FlagsReport

open CableSwig.Lib.StdString
open CableSwig.Lib.StringReplace
open CableSwig.GxFront.FindFlags
open CableSwig.GxFront.FlagsParser (joined joined_append joined_cons)

/-- A predefined macro. A function-like one has its parameters in the name. -/
structure Macro where
  name : Text
  value : Text
  name_ne : name ≠ []
  name_chars : ∀ c ∈ name, c ≠ ' ' ∧ c ≠ '\n' ∧ c ≠ '='
  value_line : '\n' ∉ value

def Macro.line (m : Macro) : Text := "#define ".toList ++ m.name ++ ' ' :: m.value

/-- A path without double quotes and backslashes. -/
structure Path where
  path : Text
  plain : ∀ c ∈ path, c ≠ '"' ∧ c ≠ '\\' ∧ c ≠ '\n'

/-- The line before the list of paths. -/
def startLine : Text := "#include <...> search starts here:".toList

/-- The answers of a GCC. The list of paths stands between two other parts of the second one. -/
structure Report where
  macros : List Macro
  paths : List Path
  before : Text
  after : Text

namespace Report

def macroReport (r : Report) : Text := ofLines (r.macros.map Macro.line)

def verboseReport (r : Report) : Text :=
  r.before ++ (startLine ++ '\n' :: (ofLines (r.paths.map fun p => ' ' :: p.path) ++ r.after))

/-- The number that a macro stands for. -/
def lookup (r : Report) (name : Text) : Option Int :=
  (r.macros.find? fun m => m.name = name).map fun m => atoi m.value

/-- The compiler says which version it is, and the list of paths can be found. -/
structure WellFormed (r : Report) : Prop where
  major : ∃ v, r.lookup gnuc = some v ∧ 0 ≤ v ∧ v < 2147483648
  minor : ∃ v, r.lookup gnucMinor = some v ∧ 0 ≤ v ∧ v < 2147483648
  before_line : r.before = [] ∨ r.before.getLast? = some '\n'
  before_list : ¬ "#include <...".toList <:+: r.before
  after_line : r.after.head? ≠ some ' ' ∧ r.after.head? ≠ some '/'
  after_list : ¬ "#include <...".toList <:+: r.after

end Report

section Pieces

variable {c : Char} {l rest : Text}

theorem pieces_line (h : '\n' ∉ l) :
    pieces '\n' (c :: l ++ '\n' :: rest) = (c :: l) :: pieces '\n' rest := by
  have hl : ∀ x ∈ l, decide (x ≠ '\n') = true := fun x hx => by
    simpa using fun hn : x = '\n' => h (hn ▸ hx)
  rw [List.cons_append, pieces]
  split
  · next hdrop =>
    rw [List.dropWhile_append_of_pos hl] at hdrop
    simp at hdrop
  · next x rest' hdrop =>
    rw [List.dropWhile_append_of_pos hl, List.dropWhile_cons_of_neg (by simp)] at hdrop
    rw [takeWhile_line h, (List.cons.inj hdrop).2]

theorem pieces_last (h : '\n' ∉ l) : pieces '\n' (c :: l) = [c :: l] := by
  have hl : ∀ x ∈ l, decide (x ≠ '\n') = true := fun x hx => by
    simpa using fun hn : x = '\n' => h (hn ▸ hx)
  rw [pieces]
  split
  · rfl
  · next x rest' hdrop =>
    rw [List.dropWhile_eq_nil_iff.mpr hl] at hdrop
    cases hdrop

theorem pieces_ofLines {lines : List Text} (h : ∀ l ∈ lines, l ≠ [] ∧ '\n' ∉ l) :
    pieces '\n' (ofLines lines ++ rest) = lines ++ pieces '\n' rest := by
  induction lines with
  | nil => rfl
  | cons l lines ih =>
    obtain ⟨hne, hl⟩ := h l List.mem_cons_self
    obtain ⟨c, l, rfl⟩ := List.exists_cons_of_ne_nil hne
    have hrest := ih fun l' hl' => h l' (List.mem_cons_of_mem _ hl')
    have htext : ofLines ((c :: l) :: lines) ++ rest =
        c :: l ++ '\n' :: (ofLines lines ++ rest) := by
      simp [ofLines]
    rw [htext, pieces_line fun hn => hl (List.mem_cons_of_mem _ hn), hrest, List.cons_append]

theorem infix_of_mem_pieces {s piece : Text} (h : piece ∈ pieces '\n' s) : piece <:+: s := by
  induction hn : s.length using Nat.strong_induction_on generalizing s with
  | _ n ih =>
    cases s with
    | nil =>
      rw [pieces, List.mem_singleton] at h
      rw [h]
    | cons c s =>
      obtain ⟨l, hl, rfl | ⟨rest, rfl⟩⟩ := exists_line s
      · rw [pieces_last hl, List.mem_singleton] at h
        rw [h]
      · rw [← List.cons_append, pieces_line hl] at h
        rw [← List.cons_append]
        rcases List.mem_cons.mp h with rfl | h
        · exact List.infix_append' [] _ _
        · have hrest := ih rest.length (by simp at hn; omega) h rfl
          exact hrest.trans ((List.suffix_cons _ _).trans (List.suffix_append _ _)).isInfix

end Pieces

section Words

def addWord (text word : Text) : Text := if text = [] then word else text ++ ' ' :: word

theorem joined_eq_nil {words : List Text} (h : ∀ w ∈ words, w ≠ []) :
    joined words = [] ↔ words = [] := by
  cases words with
  | nil => simp [joined]
  | cons w words =>
    have hw := h w List.mem_cons_self
    rw [joined_cons]
    simp [hw]

theorem foldl_addWord (words : List Text) :
    ∀ done : List Text, (∀ w ∈ done ++ words, w ≠ []) →
      words.foldl addWord (joined done) = joined (done ++ words) := by
  induction words with
  | nil => simp
  | cons w words ih =>
    intro done h
    have hstep : addWord (joined done) w = joined (done ++ [w]) := by
      have hdone : ∀ w ∈ done, w ≠ [] := fun w hw => h w (List.mem_append_left _ hw)
      rw [addWord, ite_congr (propext (joined_eq_nil hdone)) (fun _ => rfl) fun _ => rfl]
      split_ifs with hnil
      · rw [hnil, List.nil_append, joined_cons, if_pos rfl, List.append_nil]
      · rw [joined_append _ _ hnil, if_neg (List.cons_ne_nil _ _), joined_cons, if_pos rfl,
          List.append_nil]
    rw [List.foldl_cons, hstep, ih (done ++ [w]) (by simpa using h), List.append_assoc]
    rfl

end Words

section Includes

def pathChunk (path : Text) : Text := pathFlag path ++ '"' :: (path ++ ['"'])

theorem pathChunk_ne (path : Text) : pathChunk path ≠ [] := by simp [pathChunk]

theorem addPath_eq (text path : Text) : addPath text path = addWord text (pathChunk path) := by
  rw [addPath, addWord, pathChunk]
  split_ifs <;> simp

variable {sys : System}

theorem readInclude_path (text line : Text) :
    readInclude sys ⟨true, text⟩ (' ' :: line) =
      ⟨true, addWord text (pathChunk (includePath sys line))⟩ := by
  have hhead : (' ' :: line).head? = some ' ' := rfl
  rw [readInclude, if_pos rfl, if_pos (Or.inl hhead), addPath_eq]
  rfl

/-- Lines in which the list does not start are passed over. -/
theorem foldl_pass {lines : List Text} {text : Text}
    (h : ∀ l ∈ lines, ¬ "#include <...".toList <:+: l) :
    lines.foldl (readInclude sys) ⟨false, text⟩ = ⟨false, text⟩ := by
  induction lines with
  | nil => rfl
  | cons l lines ih =>
    have hl : contains "#include <...".toList l = false := by
      rw [contains, ← Bool.not_eq_true, occurrence_isSome_iff]
      exact h l List.mem_cons_self
    rw [List.foldl_cons, readInclude, if_neg Bool.false_ne_true, hl, if_neg Bool.false_ne_true]
    exact ih fun l' hl' => h l' (List.mem_cons_of_mem _ hl')

theorem readInclude_start {line text : Text} (h : "#include <...".toList <:+: line) :
    readInclude sys ⟨false, text⟩ line = ⟨true, text⟩ := by
  have hcontains : contains "#include <...".toList line = true := occurrence_isSome_iff.mpr h
  rw [readInclude, if_neg Bool.false_ne_true, if_pos hcontains]

/-- The list starts at its line, even where an empty line comes before it. -/
theorem foldl_before {before rest text : Text}
    (hline : before = [] ∨ before.getLast? = some '\n')
    (hlist : ¬ "#include <...".toList <:+: before) :
    (pieces '\n' (before ++ (startLine ++ '\n' :: rest))).foldl (readInclude sys) ⟨false, text⟩ =
      (pieces '\n' rest).foldl (readInclude sys) ⟨true, text⟩ := by
  have hstart : "#include <...".toList <:+: startLine := by decide
  have hnl : '\n' ∉ startLine := by decide
  induction hn : before.length using Nat.strong_induction_on generalizing before with
  | _ n ih =>
    cases before with
    | nil =>
      have hpieces : pieces '\n' ([] ++ (startLine ++ '\n' :: rest)) =
          startLine :: pieces '\n' rest :=
        pieces_line fun hmem => hnl (List.mem_cons_of_mem _ hmem)
      rw [hpieces, List.foldl_cons, readInclude_start hstart]
    | cons c s =>
      have hlast : (c :: s).getLast? = some '\n' := hline.resolve_left (List.cons_ne_nil _ _)
      obtain ⟨l, hl, rfl | ⟨s', rfl⟩⟩ := exists_line s
      · obtain rfl : s = [] := by
          by_contra hs
          obtain ⟨d, s, rfl⟩ := List.exists_cons_of_ne_nil hs
          rw [List.getLast?_cons_cons] at hlast
          exact hl (List.mem_of_getLast? hlast)
        rw [List.singleton_append, ← List.cons_append, pieces_line hnl, List.foldl_cons,
          readInclude_start (hstart.trans (List.suffix_cons _ _).isInfix)]
      · have htext : c :: (l ++ '\n' :: s') ++ (startLine ++ '\n' :: rest) =
            c :: l ++ '\n' :: (s' ++ (startLine ++ '\n' :: rest)) := by
          simp
        have hpiece : ¬ "#include <...".toList <:+: c :: l := by
          intro h
          exact hlist (h.trans (List.prefix_append (c :: l) ('\n' :: s')).isInfix)
        have hrest : ¬ "#include <...".toList <:+: s' := by
          intro h
          refine hlist (h.trans ?_)
          rw [← List.cons_append]
          exact ((List.suffix_cons _ _).trans (List.suffix_append _ _)).isInfix
        have hline' : s' = [] ∨ s'.getLast? = some '\n' := by
          cases s' with
          | nil => exact Or.inl rfl
          | cons d s' =>
            refine Or.inr ?_
            rw [← List.cons_append, List.getLast?_append] at hlast
            simpa using hlast
        have hpass : [c :: l].foldl (readInclude sys) ⟨false, text⟩ = ⟨false, text⟩ := by
          refine foldl_pass fun l' hl' => ?_
          rwa [List.mem_singleton.mp hl']
        rw [List.foldl_cons, List.foldl_nil] at hpass
        rw [htext, pieces_line hl, List.foldl_cons, hpass]
        exact ih s'.length (by simp at hn; omega) hline' hrest rfl

theorem foldl_paths (paths : List Path) :
    ∀ text, (paths.map fun p => ' ' :: p.path).foldl (readInclude sys) ⟨true, text⟩ =
      ⟨true, (paths.map fun p => pathChunk (includePath sys p.path)).foldl addWord text⟩ := by
  induction paths with
  | nil => exact fun text => rfl
  | cons p paths ih =>
    intro text
    rw [List.map_cons, List.foldl_cons, readInclude_path, ih, List.map_cons, List.foldl_cons]

/-- The list ends where the second part of the answer starts. -/
theorem foldl_after {after text : Text}
    (hline : after.head? ≠ some ' ' ∧ after.head? ≠ some '/')
    (hlist : ¬ "#include <...".toList <:+: after) :
    ((pieces '\n' after).foldl (readInclude sys) ⟨true, text⟩).text = text := by
  have hrest : ∀ l ∈ pieces '\n' after, ¬ "#include <...".toList <:+: l := by
    intro l hl hword
    exact hlist (hword.trans (infix_of_mem_pieces hl))
  have hhead : ∃ first more, pieces '\n' after = first :: more ∧ first.head? = after.head? := by
    cases after with
    | nil => exact ⟨[], [], by rw [pieces], rfl⟩
    | cons c s =>
      rw [pieces]
      split <;> exact ⟨_, _, rfl, rfl⟩
  obtain ⟨first, more, hpieces, hfirst⟩ := hhead
  rw [hpieces] at hrest ⊢
  rw [← hfirst] at hline
  rw [List.foldl_cons, readInclude, if_pos rfl, if_neg (not_or.mpr hline),
    foldl_pass fun l hl => hrest l (List.mem_cons_of_mem _ hl)]

theorem findIncludes_report {r : Report} (hr : r.WellFormed)
    (hsys : sys.verboseReport = r.verboseReport) :
    findIncludes sys = joined (r.paths.map fun p => pathChunk (includePath sys p.path)) := by
  have hlines : ∀ l ∈ r.paths.map (fun p => ' ' :: p.path), l ≠ [] ∧ '\n' ∉ l := by
    intro l hl
    obtain ⟨p, -, rfl⟩ := List.mem_map.mp hl
    refine ⟨List.cons_ne_nil _ _, fun hmem => ?_⟩
    rcases List.mem_cons.mp hmem with h | h
    · cases h
    · exact (p.plain _ h).2.2 rfl
  have hwords : ∀ w ∈ ([] : List Text) ++ r.paths.map (fun p => pathChunk (includePath sys p.path)),
      w ≠ [] := by
    intro w hw
    obtain ⟨p, -, rfl⟩ := List.mem_map.mp hw
    exact pathChunk_ne _
  have hne : r.verboseReport ≠ [] := by simp [Report.verboseReport]
  rw [findIncludes, hsys, splitString, if_neg hne, Report.verboseReport,
    foldl_before hr.before_line hr.before_list, pieces_ofLines hlines, List.foldl_append,
    foldl_paths, foldl_after hr.after_line hr.after_list]
  exact foldl_addWord _ [] hwords

end Includes

section Macros

def macroChunk (name value : Text) : Text :=
  "-D".toList ++ name ++ '=' :: '\'' :: (value ++ ['\''])

/-- The macros that the front end takes from the report. -/
def accepted (lines : List Text) : List (Text × Text) :=
  (lines.filterMap findDefine).filter fun d => d.1 ≠ blocks

theorem defineAt_name {s name value : Text} (h : defineAt s = some (name, value)) :
    isMacroName name = true := by
  rw [defineAt] at h
  split_ifs at h
  rw [nameAndValue] at h
  split at h
  · cases h
  · split_ifs at h with hname
    cases h
    exact hname

theorem findDefine_name {s name value : Text} (h : findDefine s = some (name, value)) :
    isMacroName name = true := by
  induction s with
  | nil => cases h
  | cons c s ih =>
    rw [findDefine] at h
    split at h
    · next m hm =>
      cases h
      exact defineAt_name hm
    · exact ih h

theorem accepted_name {lines : List Text} {d : Text × Text} (h : d ∈ accepted lines) :
    isMacroName d.1 = true := by
  obtain ⟨line, -, hline⟩ := List.mem_filterMap.mp (List.mem_filter.mp h).1
  exact findDefine_name hline

/-- The line of a macro is read as it was written, where the name is one that the front end
knows. -/
theorem findDefine_line {m : Macro} (h : isMacroName m.name) :
    findDefine m.line = some (m.name, m.value) := by
  have hname : ∀ c ∈ m.name, decide (c ≠ ' ') = true := fun c hc => by
    simpa using (m.name_chars c hc).1
  have hline : m.line = "#define ".toList ++ (m.name ++ ' ' :: m.value) := List.append_assoc _ _ _
  have hdefine : defineAt m.line = some (m.name, m.value) := by
    rw [hline, defineAt, if_pos (List.prefix_append _ _), List.drop_left' (by decide), nameAndValue,
      List.dropWhile_append_of_pos hname, List.takeWhile_append_of_pos hname,
      List.dropWhile_cons_of_neg (by simp), List.takeWhile_cons_of_neg (by simp), List.append_nil]
    exact if_pos h
  obtain ⟨c, s, hcons⟩ : ∃ c s, m.line = c :: s := by
    rw [hline]
    exact ⟨'#', _, rfl⟩
  rw [hcons] at hdefine ⊢
  rw [findDefine, hdefine]

theorem foldl_readMacro (lines : List Text) :
    ∀ found, lines.foldl readMacro found =
      (accepted lines).foldl (fun f d => addMacro f d.1 d.2) found := by
  induction lines with
  | nil => exact fun found => rfl
  | cons line lines ih =>
    intro found
    rw [List.foldl_cons, ih, accepted, accepted, readMacro]
    cases hline : findDefine line with
    | none => rw [List.filterMap_cons_none hline]
    | some d =>
      rw [List.filterMap_cons_some hline]
      by_cases hd : d.1 = blocks
      · rw [List.filter_cons, if_neg fun h => absurd hd (of_decide_eq_true h)]
        exact congrArg (List.foldl _ · _) (if_pos hd)
      · rw [List.filter_cons, if_pos (decide_eq_true hd), List.foldl_cons]
        exact congrArg (List.foldl _ · _) (if_neg hd)

theorem findMacros_report {sys : System} {r : Report} (hsys : sys.macroReport = r.macroReport) :
    findMacros sys = (accepted (r.macros.map Macro.line)).foldl
      (fun f d => addMacro f d.1 d.2) {} := by
  have hlines : ∀ l ∈ r.macros.map Macro.line, l ≠ [] ∧ '\n' ∉ l := by
    intro l hl
    obtain ⟨m, -, rfl⟩ := List.mem_map.mp hl
    refine ⟨List.cons_ne_nil _ _, fun hmem => ?_⟩
    rcases List.mem_append.mp hmem with h | h
    · rcases List.mem_append.mp h with h | h
      · exact absurd h (by decide)
      · exact (m.name_chars _ h).2.1 rfl
    · rcases List.mem_cons.mp h with h | h
      · cases h
      · exact m.value_line h
  rw [findMacros, hsys, splitString, ← foldl_readMacro, Report.macroReport]
  split_ifs with hnil
  · cases hmacros : r.macros with
    | nil => rfl
    | cons m macros =>
      rw [hmacros] at hnil
      simp [ofLines] at hnil
  · have hpieces : pieces '\n' (ofLines _ ++ []) = _ := pieces_ofLines hlines
    rw [List.append_nil] at hpieces
    rw [hpieces, List.foldl_append, pieces]
    rfl

theorem addMacro_macros (found : Found) (name value : Text) :
    (addMacro found name value).macros = addWord found.macros (macroChunk name value) := by
  rw [addMacro, addWord, macroChunk]
  split_ifs <;> simp

theorem foldl_macros (ds : List (Text × Text)) (found : Found) :
    (ds.foldl (fun f d => addMacro f d.1 d.2) found).macros =
      (ds.map fun d => macroChunk d.1 d.2).foldl addWord found.macros := by
  induction ds generalizing found with
  | nil => rfl
  | cons d ds ih => rw [List.foldl_cons, ih, addMacro_macros, List.map_cons, List.foldl_cons]

theorem findMacros_macros {sys : System} {r : Report} (hsys : sys.macroReport = r.macroReport) :
    (findMacros sys).macros =
      joined ((accepted (r.macros.map Macro.line)).map fun d => macroChunk d.1 d.2) := by
  rw [findMacros_report hsys, foldl_macros]
  refine foldl_addWord _ [] fun w hw => ?_
  obtain ⟨d, -, rfl⟩ := List.mem_map.mp hw
  simp [macroChunk]

/-- A number that is taken from the first element that has it. -/
theorem foldl_number {σ β : Type} {step : σ → β → σ} {get : σ → Int} {has : β → Bool}
    (val : β → Int)
    (hstep : ∀ s b, get (step s b) = if get s = -1 ∧ has b then val b else get s) (bs : List β) :
    ∀ s, (get s ≠ -1 → get (bs.foldl step s) = get s) ∧
      (get s = -1 → ∀ b, bs.find? has = some b → val b ≠ -1 →
        get (bs.foldl step s) = val b) := by
  induction bs with
  | nil =>
    intro s
    refine ⟨fun _ => rfl, fun _ b hb => ?_⟩
    cases hb
  | cons b bs ih =>
    intro s
    obtain ⟨hkeep, htake⟩ := ih (step s b)
    rw [List.foldl_cons]
    refine ⟨fun hs => ?_, fun hs b' hb' hval => ?_⟩
    · have hget : get (step s b) = get s := by rw [hstep, if_neg fun h => hs h.1]
      rw [hkeep (by rwa [hget]), hget]
    · rcases Bool.eq_false_or_eq_true (has b) with hb | hb
      · rw [List.find?_cons_of_pos hb] at hb'
        cases hb'
        have hget : get (step s b) = val b := by rw [hstep, if_pos ⟨hs, hb⟩]
        rw [hkeep (by rwa [hget]), hget]
      · rw [List.find?_cons_of_neg (by simp [hb])] at hb'
        have hget : get (step s b) = -1 := by rw [hstep, if_neg (by simp [hb]), hs]
        exact htake hget b' hb' hval

end Macros

end CableSwig.GxFront.FlagsReport
