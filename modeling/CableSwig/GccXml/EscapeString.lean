import CableSwig.Lib.StdString
import Mathlib.Algebra.Order.Ring.Int

/-!
# Escaping text for XML

`xml_escape_string` counts in a first loop how much longer the text gets, allocates, and copies in
a second loop.
-/
namespace CableSwig.GccXml.EscapeString

open CableSwig.Lib.StdString

section Loops

def xmlAmpersand : Text := "&amp;".toList
def xmlLessThan : Text := "&lt;".toList
def xmlGreaterThan : Text := "&gt;".toList
def xmlSingleQuote : Text := "&apos;".toList
def xmlDoubleQuote : Text := "&quot;".toList

/-- The cases of the `switch` in both loops. -/
def entityOf (c : Char) : Option Text :=
  if c = '&' then some xmlAmpersand
  else if c = '<' then some xmlLessThan
  else if c = '>' then some xmlGreaterThan
  else if c = '\'' then some xmlSingleQuote
  else if c = '"' then some xmlDoubleQuote
  else none

/-- What an `int` holds after an assignment. -/
def storeInt (n : Int) : Int := Int.bmod n 4294967296

/-- The counting loop. The sum is a `size_t`, but it is stored in an `int`. -/
def countLoop : Text → Int → Int
  | [], lengthIncrease => lengthIncrease
  | c :: s, lengthIncrease =>
    match entityOf c with
    | some entity => countLoop s (storeInt (lengthIncrease + (entity.length - 1)))
    | none => countLoop s lengthIncrease

/-- The argument of `xmalloc`, a `size_t`. -/
def allocated (s : Text) : Nat :=
  ((s.length + countLoop s 0 + 1) % 18446744073709551616).toNat

/-- The copying loop. -/
def copyLoop : Text → Text
  | [] => []
  | c :: s =>
    match entityOf c with
    | some entity => entity ++ copyLoop s
    | none => c :: copyLoop s

def xmlEscapeString (s : Text) : Text := copyLoop s

/-- The bytes that the copying loop writes, with the terminator. -/
def written (s : Text) : Nat := (copyLoop s ++ ['\x00']).length

end Loops

section Reading

/-- The entities that XML predefines. -/
def entities : List (Char × Text) :=
  [('&', xmlAmpersand), ('<', xmlLessThan), ('>', xmlGreaterThan), ('\'', xmlSingleQuote),
    ('"', xmlDoubleQuote)]

def entityAt (t : Text) : Option (Char × Text) := entities.find? fun e => e.2.isPrefixOf t

/-- One pass from left to right that replaces entities; `skip` characters belong to the one
replaced last. -/
def replaceEntities : Nat → Text → Text
  | _, [] => []
  | skip + 1, _ :: t => replaceEntities skip t
  | 0, c :: t =>
    match entityAt (c :: t) with
    | some e => e.1 :: replaceEntities (e.2.length - 1) t
    | none => c :: replaceEntities 0 t

/-- What a reader of XML relies on, and what the heap relies on. -/
structure EscapesExactly (s : Text) : Prop where
  no_raw : ∀ c ∈ xmlEscapeString s, c ∉ "<>'\"".toList
  ampersand : ∀ t, '&' :: t <:+ xmlEscapeString s → ∃ e ∈ entities, e.2 <+: '&' :: t
  read_back : replaceEntities 0 (xmlEscapeString s) = s
  allocated_eq : allocated s = written s

end Reading

section Copy

theorem entityOf_cases (c : Char) :
    (∃ entity, entityOf c = some entity ∧ (c, entity) ∈ entities) ∨
      entityOf c = none ∧ c ∉ "&<>'\"".toList := by
  by_cases h : c ∈ "&<>'\"".toList
  · left
    rcases (by simpa using h : c = '&' ∨ c = '<' ∨ c = '>' ∨ c = '\'' ∨ c = '"') with
      rfl | rfl | rfl | rfl | rfl
    all_goals exact ⟨_, rfl, by decide⟩
  · refine Or.inr ⟨?_, h⟩
    have hne : c ≠ '&' ∧ c ≠ '<' ∧ c ≠ '>' ∧ c ≠ '\'' ∧ c ≠ '"' := by simpa using h
    simp [entityOf, hne]

theorem copyLoop_entity {c : Char} {entity : Text} (h : entityOf c = some entity) (s : Text) :
    copyLoop (c :: s) = entity ++ copyLoop s := by
  simp only [copyLoop, h]

theorem copyLoop_plain {c : Char} (h : entityOf c = none) (s : Text) :
    copyLoop (c :: s) = c :: copyLoop s := by
  simp only [copyLoop, h]

/-- An entity has no raw character, and no ampersand but the first. -/
theorem entity_plain {e : Char × Text} (h : e ∈ entities) :
    ∃ t, e.2 = '&' :: t ∧ '&' ∉ t ∧ ∀ c ∈ e.2, c ∉ "<>'\"".toList := by
  have hall : ∀ e ∈ entities, e.2.head? = some '&' ∧ '&' ∉ e.2.tail ∧
      e.2.all (fun c => !("<>'\"".toList.contains c)) = true := by decide
  obtain ⟨hhead, htail, hraw⟩ := hall e h
  obtain ⟨t, ht⟩ := List.head?_eq_some_iff.mp hhead
  refine ⟨t, ht, by simpa [ht] using htail, fun c hc => ?_⟩
  simpa using List.all_eq_true.mp hraw c hc

theorem no_raw (s : Text) : ∀ c ∈ xmlEscapeString s, c ∉ "<>'\"".toList := by
  unfold xmlEscapeString
  induction s with
  | nil => intro c hc; cases hc
  | cons d s ih =>
    intro c hc
    rcases entityOf_cases d with ⟨entity, hentity, hmem⟩ | ⟨hnone, hd⟩
    · obtain ⟨t, -, -, hraw⟩ := entity_plain hmem
      rw [copyLoop_entity hentity] at hc
      rcases List.mem_append.mp hc with hc | hc
      · exact hraw c hc
      · exact ih c hc
    · rw [copyLoop_plain hnone] at hc
      rcases List.mem_cons.mp hc with rfl | hc
      · exact fun h => hd (List.mem_cons_of_mem _ h)
      · exact ih c hc

theorem ampersand (s : Text) :
    ∀ t, '&' :: t <:+ xmlEscapeString s → ∃ e ∈ entities, e.2 <+: '&' :: t := by
  unfold xmlEscapeString
  induction s with
  | nil =>
    intro t ht
    cases List.suffix_nil.mp ht
  | cons d s ih =>
    intro t ht
    rcases entityOf_cases d with ⟨entity, hentity, hmem⟩ | ⟨hnone, hd⟩
    · obtain ⟨r, rfl, hr, -⟩ := entity_plain hmem
      rw [copyLoop_entity hentity, List.cons_append] at ht
      rcases List.suffix_cons_iff.mp ht with heq | ht
      · refine ⟨_, hmem, ?_⟩
        rw [heq]
        exact List.prefix_append _ _
      · -- The other characters of the entity are no ampersands.
        obtain ⟨l, hl⟩ := ht
        rcases List.append_eq_append_iff.mp hl with ⟨m, rfl, hm⟩ | ⟨m, -, hm⟩
        · cases m with
          | nil => exact ih t ⟨[], by simpa using hm⟩
          | cons a m =>
            obtain ⟨rfl, -⟩ := List.cons.inj hm
            exact absurd (by simp) hr
        · exact ih t ⟨m, hm.symm⟩
    · rw [copyLoop_plain hnone] at ht
      rcases List.suffix_cons_iff.mp ht with heq | ht
      · obtain ⟨rfl, -⟩ := List.cons.inj heq
        exact absurd (by decide) hd
      · exact ih t ht

end Copy

section ReadBack

theorem replaceEntities_skip (a t : Text) :
    replaceEntities a.length (a ++ t) = replaceEntities 0 t := by
  induction a with
  | nil => rfl
  | cons c a ih => exact ih

/-- No entity starts another one, whatever follows. -/
theorem entityAt_entity {e : Char × Text} (h : e ∈ entities) (t : Text) :
    entityAt (e.2 ++ t) = some e := by
  rcases (by simpa [entities] using h : e = ('&', xmlAmpersand) ∨ e = ('<', xmlLessThan) ∨
    e = ('>', xmlGreaterThan) ∨ e = ('\'', xmlSingleQuote) ∨ e = ('"', xmlDoubleQuote)) with
    rfl | rfl | rfl | rfl | rfl
  all_goals rfl

theorem entityAt_plain {c : Char} (h : c ≠ '&') (t : Text) : entityAt (c :: t) = none := by
  refine List.find?_eq_none.mpr fun e he => ?_
  obtain ⟨r, hr, -⟩ := entity_plain he
  simp [hr, List.isPrefixOf, Ne.symm h]

theorem read_back (s : Text) : replaceEntities 0 (xmlEscapeString s) = s := by
  unfold xmlEscapeString
  induction s with
  | nil => rfl
  | cons d s ih =>
    rcases entityOf_cases d with ⟨entity, hentity, hmem⟩ | ⟨hnone, hd⟩
    · have hat := entityAt_entity hmem (copyLoop s)
      obtain ⟨r, hr, -⟩ := entity_plain hmem
      obtain rfl : entity = '&' :: r := hr
      rw [copyLoop_entity hentity]
      rw [List.cons_append] at hat ⊢
      simp only [replaceEntities, hat, List.length_cons, Nat.add_sub_cancel]
      rw [replaceEntities_skip, ih]
    · have hne : d ≠ '&' := fun h => hd (by simp [h])
      rw [copyLoop_plain hnone, replaceEntities, entityAt_plain hne]
      exact congrArg (d :: ·) ih

end ReadBack

section Allocation

/-- By how much the text gets longer. -/
def lengthIncrease (s : Text) : Nat :=
  (s.map fun c => ((entityOf c).map fun entity => entity.length - 1).getD 0).sum

theorem entity_length {e : Char × Text} (h : e ∈ entities) : 0 < e.2.length ∧ e.2.length ≤ 6 := by
  revert e
  decide

theorem lengthIncrease_entity {c : Char} {entity : Text} (h : entityOf c = some entity) (s : Text) :
    lengthIncrease (c :: s) = entity.length - 1 + lengthIncrease s := by
  simp [lengthIncrease, h]

theorem lengthIncrease_plain {c : Char} (h : entityOf c = none) (s : Text) :
    lengthIncrease (c :: s) = lengthIncrease s := by
  simp [lengthIncrease, h]

theorem length_copyLoop (s : Text) : (copyLoop s).length = s.length + lengthIncrease s := by
  induction s with
  | nil => rfl
  | cons d s ih =>
    rcases entityOf_cases d with ⟨entity, hentity, hmem⟩ | ⟨hnone, -⟩
    · have hlen := entity_length hmem
      rw [copyLoop_entity hentity, lengthIncrease_entity hentity, List.length_append, ih,
        List.length_cons]
      simp only at hlen
      omega
    · rw [copyLoop_plain hnone, lengthIncrease_plain hnone, List.length_cons, List.length_cons, ih]
      omega

theorem lengthIncrease_le (s : Text) : lengthIncrease s ≤ 5 * s.length := by
  induction s with
  | nil => exact Nat.le_refl _
  | cons d s ih =>
    rcases entityOf_cases d with ⟨entity, hentity, hmem⟩ | ⟨hnone, -⟩
    · have hlen := entity_length hmem
      rw [lengthIncrease_entity hentity, List.length_cons]
      simp only at hlen
      omega
    · rw [lengthIncrease_plain hnone, List.length_cons]
      omega

/-- The counting loop has the sum, up to what the `int` loses. -/
theorem countLoop_eq (s : Text) : ∀ n, storeInt n = n →
    countLoop s n = storeInt (n + lengthIncrease s) := by
  induction s with
  | nil =>
    intro n hn
    simpa [countLoop, lengthIncrease] using hn.symm
  | cons d s ih =>
    intro n hn
    rcases entityOf_cases d with ⟨entity, hentity, hmem⟩ | ⟨hnone, -⟩
    · have hlen := (entity_length hmem).1
      have hidem : ∀ k, storeInt (storeInt k) = storeInt k := fun k => Int.bmod_bmod
      have hsum : (lengthIncrease (d :: s) : Int) = (entity.length - 1) + lengthIncrease s := by
        rw [lengthIncrease_entity hentity]
        simp only at hlen
        omega
      simp only [countLoop, hentity]
      rw [ih _ (hidem _), hsum, ← Int.add_assoc]
      exact Int.bmod_add_bmod
    · simp only [countLoop, hnone]
      rw [ih n hn, lengthIncrease_plain hnone]

theorem allocated_eq_iff (s : Text) : allocated s = written s ↔
    lengthIncrease s < 2147483648 ∧ s.length + lengthIncrease s + 1 < 18446744073709551616 := by
  have hle := lengthIncrease_le s
  have hcount := countLoop_eq s 0 rfl
  have hwritten : written s = s.length + lengthIncrease s + 1 := by
    rw [written, List.length_append, length_copyLoop]
    rfl
  rw [hwritten, allocated, hcount]
  simp only [storeInt, Int.bmod]
  constructor
  · intro h
    split at h <;> omega
  · intro h
    split <;> omega

end Allocation

/-- The escaped text is always right; the memory for it is when the two sizes fit. -/
theorem escapes_exactly_iff (s : Text) : EscapesExactly s ↔
    lengthIncrease s < 2147483648 ∧ s.length + lengthIncrease s + 1 < 18446744073709551616 := by
  constructor
  · intro h
    exact (allocated_eq_iff s).mp h.allocated_eq
  · intro h
    exact ⟨no_raw s, ampersand s, read_back s, (allocated_eq_iff s).mpr h⟩

/-- A text of so many quotes that their entities take up more than an `int` can count. -/
def manyQuotes : Text := List.replicate 429496730 '"'

theorem many_quotes_not_escaped : ¬ EscapesExactly manyQuotes := by
  intro h
  have hlength : ∀ n, lengthIncrease (List.replicate n '"') = 5 * n := by
    intro n
    induction n with
    | zero => rfl
    | succ n ih =>
      have hentity : entityOf '"' = some xmlDoubleQuote := rfl
      rw [List.replicate_succ, lengthIncrease_entity hentity, ih]
      exact (Nat.mul_succ 5 n ▸ Nat.add_comm 5 _)
  have hfits := ((allocated_eq_iff manyQuotes).mp h.allocated_eq).1
  rw [manyQuotes, hlength] at hfits
  omega

end CableSwig.GccXml.EscapeString
