import CableSwig.Executables.TemplateName

/-!
# What the replacements do to a text

`ReplaceString` and `ReduceCommaSpace` edit a text while they search it. What has been put in is
never searched for the pattern again, and the blanks behind a comma go one at a time.
-/
namespace CableSwig.Executables.ReplacementLaws

open CableSwig.Executables.TemplateName
open CableSwig.Lib.Fuel
open CableSwig.Lib.StdString
open CableSwig.Lib.StringReplace

section Commas

/-- The second text is the first one without the blanks that directly follow a comma. -/
inductive CommasReduced : Text → Text → Prop
  | nil : CommasReduced [] []
  | comma (n : Nat) {s t : Text} (hhead : s.head? ≠ some ' ') (hrest : CommasReduced s t) :
      CommasReduced (',' :: (List.replicate n ' ' ++ s)) (',' :: t)
  | other {c : Char} {s t : Text} (hc : c ≠ ',') (hrest : CommasReduced s t) :
      CommasReduced (c :: s) (c :: t)

theorem reduceCommas_blanks (n : Nat) (s : Text) :
    reduceCommas true (List.replicate n ' ' ++ s) = reduceCommas true s := by
  induction n with
  | zero => rfl
  | succ n ih =>
    rw [List.replicate_succ, List.cons_append, reduceCommas, if_pos ⟨rfl, rfl⟩]
    exact ih

/-- A text is split behind its first blanks. -/
theorem exists_blanks (s : Text) :
    ∃ n r, s = List.replicate n ' ' ++ r ∧ r.head? ≠ some ' ' := by
  induction s with
  | nil => exact ⟨0, [], rfl, by simp⟩
  | cons c s ih =>
    by_cases hc : c = ' '
    · obtain ⟨n, r, rfl, hhead⟩ := ih
      exact ⟨n + 1, r, by rw [List.replicate_succ, List.cons_append, hc], hhead⟩
    · exact ⟨0, c :: s, rfl, by simpa using hc⟩

theorem commasReduced_reduceCommas (s : Text) : CommasReduced s (reduceCommas false s) := by
  induction hlen : s.length using Nat.strong_induction_on generalizing s with
  | _ n ih =>
    cases s with
    | nil => exact .nil
    | cons c s =>
      rw [List.length_cons] at hlen
      rw [reduceCommas, if_neg (by simp)]
      by_cases hc : c = ','
      · obtain ⟨k, r, rfl, hhead⟩ := exists_blanks s
        rw [List.length_append] at hlen
        rw [hc, decide_eq_true rfl, reduceCommas_blanks, reduceCommas_true hhead]
        exact .comma k hhead (ih r.length (by omega) r rfl)
      · rw [decide_eq_false hc]
        exact .other hc (ih s.length (by omega) s rfl)

theorem CommasReduced.head?_eq {s t : Text} (h : CommasReduced s t) : t.head? = s.head? := by
  cases h <;> rfl

theorem CommasReduced.not_infix {s t : Text} (h : CommasReduced s t) : ¬ [',', ' '] <:+: t := by
  induction h with
  | nil => decide
  | comma n hhead hrest ih =>
    intro hinfix
    rcases List.infix_cons_iff.mp hinfix with hprefix | hinfix
    · obtain ⟨r, hr⟩ := (List.cons_prefix_cons.mp hprefix).2
      refine hhead ?_
      rw [← hrest.head?_eq, ← hr]
      rfl
    · exact ih hinfix
  | other hc _ ih =>
    intro hinfix
    rcases List.infix_cons_iff.mp hinfix with hprefix | hinfix
    · exact hc (List.cons_prefix_cons.mp hprefix).1.symm
    · exact ih hinfix

end Commas

section Laws

/-- `ReplaceString` puts the new text between the pieces into which the pattern cuts the source,
and `ReduceCommaSpace` takes the blanks behind commas out of it. -/
theorem replacements_end :
    (∀ source replace : Text, replace ≠ [] → ∃ pieces, Cut replace source pieces ∧
      source = replace.intercalate pieces ∧ ∀ new : Text, Enough fun fuel =>
        replaceString fuel source replace new = some (new.intercalate pieces)) ∧
    ∀ source : Text, ∃ result, (Enough fun fuel => reduceCommaSpace fuel source = some result) ∧
      CommasReduced source result ∧ ¬ [',', ' '] <:+: result := by
  refine ⟨fun source replace hreplace => ?_, fun source => ?_⟩
  · obtain ⟨pieces, hcut⟩ := exists_cut hreplace source
    refine ⟨pieces, hcut, hcut.intercalate_eq.symm, fun new => ?_⟩
    rw [← hcut.replaceAll_eq hreplace]
    exact replaceString_eq replace new source hreplace
  · have hreduced := commasReduced_reduceCommas source
    exact ⟨_, reduceCommaSpace_eq source, hreduced, hreduced.not_infix⟩

/-- A pattern that its own replacement contains, and one that overlaps itself. -/
theorem replacements_end_contained :
    (∃ pieces, Cut ['a'] "banana".toList pieces ∧
      "banana".toList = ['a'].intercalate pieces ∧ ∀ new : Text, Enough fun fuel =>
        replaceString fuel "banana".toList ['a'] new = some (new.intercalate pieces)) ∧
    ∃ pieces, Cut "aa".toList "aaab".toList pieces ∧
      "aaab".toList = "aa".toList.intercalate pieces ∧ ∀ new : Text, Enough fun fuel =>
        replaceString fuel "aaab".toList "aa".toList new = some (new.intercalate pieces) :=
  ⟨replacements_end.1 "banana".toList ['a'] (by decide),
    replacements_end.1 "aaab".toList "aa".toList (by decide)⟩

example : replaceString 9 "banana".toList ['a'] "aa".toList = some "baanaanaa".toList := by decide

example : reduceCommaSpace 9 "f<a,  b, c >".toList = some "f<a,b,c >".toList := by decide

end Laws

end CableSwig.Executables.ReplacementLaws
