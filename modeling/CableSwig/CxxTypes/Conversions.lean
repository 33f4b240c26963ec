import CableSwig.CxxTypes.Terms

/-!
# Qualification conversions

`IsValidQualificationConversion` walks down two pointer types in step, with a flag that says
whether everything passed so far is const in the target.
-/
namespace CableSwig.CxxTypes.Conversions

section Equality

mutual

/-- `Type::Equal`. A type is allocated once, so that types are equal as terms where their pointers
are. -/
def equal : TypeTerm → TypeTerm → Bool
  | .arrayType s m, .arrayType t n => cvEqual s t && m == n
  | .classType m, .classType n => m == n
  | .enumerationType m, .enumerationType n => m == n
  | .functionType s ss, .functionType t ts => cvEqual s t && argumentsEqual ss ts
  | .fundamentalType i, .fundamentalType j => decide (i = j)
  | .pointerType s, .pointerType t => cvEqual s t
  | .pointerToMemberType s c, .pointerToMemberType t d => cvEqual s t && c == d
  | .referenceType s, .referenceType t => cvEqual s t
  | _, _ => false

def cvEqual : CvTerm → CvTerm → Bool
  | .mk s c v, .mk t d w => equal s t && (c == d && v == w)

def argumentsEqual : List CvTerm → List CvTerm → Bool
  | [], [] => true
  | s :: ss, t :: ts => cvEqual s t && argumentsEqual ss ts
  | _, _ => false

end

mutual

theorem equal_iff : ∀ s t : TypeTerm, equal s t = true ↔ s = t
  | .arrayType s m, t => by cases t <;> simp [equal, cvEqual_iff s]
  | .classType _, t => by cases t <;> simp [equal]
  | .enumerationType _, t => by cases t <;> simp [equal]
  | .functionType s ss, t => by cases t <;> simp [equal, cvEqual_iff s, argumentsEqual_iff ss]
  | .fundamentalType _, t => by cases t <;> simp [equal]
  | .pointerType s, t => by cases t <;> simp [equal, cvEqual_iff s]
  | .pointerToMemberType s _, t => by cases t <;> simp [equal, cvEqual_iff s]
  | .referenceType s, t => by cases t <;> simp [equal, cvEqual_iff s]

theorem cvEqual_iff : ∀ s t : CvTerm, cvEqual s t = true ↔ s = t
  | .mk s c v, .mk t d w => by simp [cvEqual, equal_iff s t]

theorem argumentsEqual_iff : ∀ ss ts : List CvTerm, argumentsEqual ss ts = true ↔ ss = ts
  | [], ts => by cases ts <;> simp [argumentsEqual]
  | s :: ss, ts => by
    cases ts with
    | nil => simp [argumentsEqual]
    | cons t ts => simp [argumentsEqual, cvEqual_iff s t, argumentsEqual_iff ss ts]

end

end Equality

section Walk

def isPointerType : TypeTerm → Bool
  | .pointerType _ => true
  | _ => false

def isPointerToMemberType : TypeTerm → Bool
  | .pointerToMemberType _ _ => true
  | _ => false

/-- `GetPointedToType` of the `PointerType` that the type is cast to, unless the cast fails. A
pointer to member is a `PointerType` too. -/
def pointedToType : TypeTerm → Option CvTerm
  | .pointerType t => some t
  | .pointerToMemberType t _ => some t
  | _ => none

/-- `GetClassType` of the `PointerToMemberType` that the type is cast to. -/
def memberClass : TypeTerm → Option String
  | .pointerToMemberType _ c => some c
  | _ => none

/-- The condition on the two types. Nothing is cast unless both are pointers to members. -/
def sameConstructor (t1 t2 : TypeTerm) : Option Bool :=
  if isPointerType t1 && isPointerType t2 then some true
  else if isPointerToMemberType t1 && isPointerToMemberType t2 then do
    let c1 ← memberClass t1
    let c2 ← memberClass t2
    some (c1 == c2)
  else some false

theorem sizeOf_pointedToType {t : TypeTerm} {d : CvTerm} (h : pointedToType t = some d) :
    sizeOf d.type < sizeOf t := by
  obtain ⟨type, c, v⟩ := d
  cases t <;> cases h <;> simp <;> omega

/-- The loop, or none where a cast throws. -/
def walk (t1 t2 : TypeTerm) (allConst : Bool) : Option Bool :=
  if equal t1 t2 then some true
  else
    (sameConstructor t1 t2).bind fun same =>
      if same then
        match _h : pointedToType t1, pointedToType t2 with
        | some deRef1, some deRef2 =>
          if (deRef1.isConst && !deRef2.isConst) || (deRef1.isVolatile && !deRef2.isVolatile) then
            some false
          else if ((deRef1.isConst != deRef2.isConst) ||
              (deRef1.isVolatile != deRef2.isVolatile)) &&
              !allConst then
            some false
          else walk deRef1.type deRef2.type (if deRef2.isConst then allConst else false)
        | _, _ => none
      else some false
termination_by sizeOf t1
decreasing_by exact sizeOf_pointedToType _h

def isValidQualificationConversion (fromType toType : TypeTerm) : Option Bool :=
  walk fromType toType true

end Walk

section Rule

/-- A level below a pointer: the class, if the pointer is one to members, and the qualifiers of what
it points to. -/
abbrev Level := Option String × Quals

/-- The levels of a type from 1 on. -/
def levels : TypeTerm → List Level
  | .pointerType (.mk t c v) => (none, (c, v)) :: levels t
  | .pointerToMemberType (.mk t c v) cls => (some cls, (c, v)) :: levels t
  | _ => []

/-- The type below all pointers. -/
def base : TypeTerm → TypeTerm
  | .pointerType (.mk t _ _) => base t
  | .pointerToMemberType (.mk t _ _) _ => base t
  | t => t

/-- Types with the same constructors at each level and the same type below them. -/
structure Similar (t1 t2 : TypeTerm) : Prop where
  constructors : (levels t1).map Prod.fst = (levels t2).map Prod.fst
  base_eq : base t1 = base t2

/-- The qualifiers of one level are included in those of another one. -/
def Included (l m : Level) : Prop := (l.2.1 = true → m.2.1 = true) ∧ (l.2.2 = true → m.2.2 = true)

/-- The rule of 4.4/4 for types that are similar. -/
structure QualificationConversion (t1 t2 : TypeTerm) : Prop where
  similar : Similar t1 t2
  included : ∀ (j : Nat) l m, (levels t1)[j]? = some l → (levels t2)[j]? = some m → Included l m
  const_before : ∀ (j : Nat) l m, (levels t1)[j]? = some l → (levels t2)[j]? = some m → l.2 ≠ m.2 →
    ∀ k < j, ∀ n, (levels t2)[k]? = some n → n.2.1 = true

/-- The rule for the rest of the levels, where the flag stands for those before. -/
structure RuleBelow (allConst : Bool) (ls ms : List Level) : Prop where
  constructors : ls.map Prod.fst = ms.map Prod.fst
  included : ∀ (j : Nat) l m, ls[j]? = some l → ms[j]? = some m → Included l m
  const_before : ∀ (j : Nat) l m, ls[j]? = some l → ms[j]? = some m → l.2 ≠ m.2 →
    allConst = true ∧ ∀ k < j, ∀ n, ms[k]? = some n → n.2.1 = true

variable {allConst : Bool} {l m : Level} {ls ms : List Level}

theorem ruleBelow_refl (ls : List Level) : RuleBelow allConst ls ls := by
  refine ⟨rfl, fun j l m hl hm => ?_, fun j l m hl hm hne => ?_⟩
  · obtain rfl := Option.some.inj (hl.symm.trans hm)
    exact ⟨id, id⟩
  · obtain rfl := Option.some.inj (hl.symm.trans hm)
    exact absurd rfl hne

/-- One step of the walk. -/
theorem ruleBelow_cons : RuleBelow allConst (l :: ls) (m :: ms) ↔
    l.1 = m.1 ∧ Included l m ∧ (l.2 ≠ m.2 → allConst = true) ∧
      RuleBelow (if m.2.1 then allConst else false) ls ms := by
  constructor
  · intro h
    obtain ⟨hfst, hrest⟩ := List.cons.inj h.constructors
    refine ⟨hfst, h.included 0 l m rfl rfl, fun hne => (h.const_before 0 l m rfl rfl hne).1, hrest,
      fun j l' m' hl hm => h.included (j + 1) l' m' hl hm, fun j l' m' hl hm hne => ?_⟩
    obtain ⟨hall, hconst⟩ := h.const_before (j + 1) l' m' hl hm hne
    refine ⟨?_, fun k hk n hn => hconst (k + 1) (Nat.succ_lt_succ hk) n hn⟩
    rw [if_pos (hconst 0 (Nat.succ_pos j) m rfl)]
    exact hall
  · intro h
    obtain ⟨hfst, hincluded, hdiffer, hrest⟩ := h
    refine ⟨?_, fun j l' m' hl hm => ?_, fun j l' m' hl hm hne => ?_⟩
    · rw [List.map_cons, List.map_cons, hfst, hrest.constructors]
    · cases j with
      | zero =>
        obtain rfl := Option.some.inj hl
        obtain rfl := Option.some.inj hm
        exact hincluded
      | succ j => exact hrest.included j l' m' hl hm
    · cases j with
      | zero =>
        obtain rfl := Option.some.inj hl
        obtain rfl := Option.some.inj hm
        exact ⟨hdiffer hne, fun k hk => absurd hk (Nat.not_lt_zero k)⟩
      | succ j =>
        obtain ⟨hall, hconst⟩ := hrest.const_before j l' m' hl hm hne
        have hm : m.2.1 = true := by
          by_contra hnot
          rw [if_neg hnot] at hall
          cases hall
        rw [if_pos hm] at hall
        refine ⟨hall, fun k hk n hn => ?_⟩
        cases k with
        | zero =>
          obtain rfl := Option.some.inj hn
          exact hm
        | succ k => exact hconst k (Nat.lt_of_succ_lt_succ hk) n hn

theorem qualificationConversion_iff {t1 t2 : TypeTerm} : QualificationConversion t1 t2 ↔
    RuleBelow true (levels t1) (levels t2) ∧ base t1 = base t2 := by
  constructor
  · intro h
    exact ⟨⟨h.similar.constructors, h.included,
      fun j l m hl hm hne => ⟨rfl, h.const_before j l m hl hm hne⟩⟩, h.similar.base_eq⟩
  · intro h
    obtain ⟨hrule, hbase⟩ := h
    exact ⟨⟨hrule.constructors, hbase⟩, hrule.included,
      fun j l m hl hm hne => (hrule.const_before j l m hl hm hne).2⟩

end Rule

section Steps

variable {t1 t2 : TypeTerm} {allConst : Bool}

/-- What is not a pointer of one of the two kinds has nothing below it. -/
structure NoPointer (t : TypeTerm) : Prop where
  not_pointer : isPointerType t = false
  not_member : isPointerToMemberType t = false
  levels_eq : levels t = []
  base_eq : base t = t

theorem pointer_cases (t : TypeTerm) : (∃ d, t = .pointerType d) ∨
    (∃ d cls, t = .pointerToMemberType d cls) ∨ NoPointer t := by
  cases t with
  | pointerType d => exact Or.inl ⟨d, rfl⟩
  | pointerToMemberType d cls => exact Or.inr (Or.inl ⟨d, cls, rfl⟩)
  | _ => exact Or.inr (Or.inr ⟨rfl, rfl, by simp [levels], by simp [base]⟩)

theorem levels_pointer (d : CvTerm) :
    levels (.pointerType d) = (none, (d.isConst, d.isVolatile)) :: levels d.type := by
  obtain ⟨t, c, v⟩ := d
  rw [levels]
  rfl

theorem levels_member (d : CvTerm) (cls : String) : levels (.pointerToMemberType d cls) =
    (some cls, (d.isConst, d.isVolatile)) :: levels d.type := by
  obtain ⟨t, c, v⟩ := d
  rw [levels]
  rfl

theorem base_pointer (d : CvTerm) : base (.pointerType d) = base d.type := by
  obtain ⟨t, c, v⟩ := d
  rw [base]
  rfl

theorem base_member (d : CvTerm) (cls : String) :
    base (.pointerToMemberType d cls) = base d.type := by
  obtain ⟨t, c, v⟩ := d
  rw [base]
  rfl

/-- The walk gives the answer of the rule, without a failing cast. -/
def Answers (allConst : Bool) (t1 t2 : TypeTerm) : Prop :=
  ∃ b, walk t1 t2 allConst = some b ∧
    (b = true ↔ RuleBelow allConst (levels t1) (levels t2) ∧ base t1 = base t2)

/-- The two tests of a step, before the rest of the walk answers. -/
theorem tests_iff (l m : Level) (allConst b : Bool) {rest : Prop} (hrest : b = true ↔ rest) :
    ∃ b', (if (l.2.1 && !m.2.1) || (l.2.2 && !m.2.2) then some false
        else if ((l.2.1 != m.2.1) || (l.2.2 != m.2.2)) && !allConst then some false
        else some b) = some b' ∧
      (b' = true ↔ Included l m ∧ (l.2 ≠ m.2 → allConst = true) ∧ rest) := by
  obtain ⟨lc, c1, v1⟩ := l
  obtain ⟨mc, c2, v2⟩ := m
  unfold Included
  cases c1 <;> cases c2 <;> cases v1 <;> cases v2 <;> cases allConst <;> simp [hrest]

/-- The body of the loop, below two pointers with the same constructor. -/
theorem answers_step {d1 d2 : CvTerm} {constructor : Option String}
    (hsame : sameConstructor t1 t2 = some true) (hne : equal t1 t2 = false)
    (hd1 : pointedToType t1 = some d1) (hd2 : pointedToType t2 = some d2)
    (hl1 : levels t1 = (constructor, (d1.isConst, d1.isVolatile)) :: levels d1.type)
    (hl2 : levels t2 = (constructor, (d2.isConst, d2.isVolatile)) :: levels d2.type)
    (hb1 : base t1 = base d1.type) (hb2 : base t2 = base d2.type)
    (ih : ∀ allConst, Answers allConst d1.type d2.type) : Answers allConst t1 t2 := by
  obtain ⟨b, hb, hiff⟩ := ih (if d2.isConst then allConst else false)
  rw [Answers, hl1, hl2, hb1, hb2, ruleBelow_cons, walk, if_neg (by simp [hne]), hsame,
    Option.bind_some, if_pos rfl]
  split
  · next e1 e2 he1 he2 =>
    obtain rfl := Option.some.inj (hd1.symm.trans he1)
    obtain rfl := Option.some.inj (hd2.symm.trans he2)
    obtain ⟨b', hb', hiff'⟩ := tests_iff (constructor, (d1.isConst, d1.isVolatile))
      (constructor, (d2.isConst, d2.isVolatile)) allConst b hiff
    rw [hb]
    exact ⟨b', hb', hiff'.trans (by simp only [true_and, and_assoc])⟩
  · next hnone => exact absurd hd2 (hnone d1 d2 hd1)

/-- Where the constructors differ, there is nothing to compare. -/
theorem answers_different (hsame : sameConstructor t1 t2 = some false) (hne : equal t1 t2 = false)
    (hnot : ¬ ((levels t1).map Prod.fst = (levels t2).map Prod.fst ∧ base t1 = base t2)) :
    Answers allConst t1 t2 := by
  refine ⟨false, ?_, by simp, fun h => absurd ⟨h.1.constructors, h.2⟩ hnot⟩
  rw [walk, if_neg (by simp [hne]), hsame]
  rfl

theorem answers (n : Nat) : ∀ t1 t2 allConst, sizeOf t1 < n → Answers allConst t1 t2 := by
  induction n with
  | zero => intro t1 t2 allConst hn; exact absurd hn (Nat.not_lt_zero _)
  | succ n ih =>
    intro t1 t2 allConst hn
    cases heq : equal t1 t2 with
    | true =>
      obtain rfl := (equal_iff t1 t2).mp heq
      exact ⟨true, by rw [walk, if_pos heq], fun _ => ⟨ruleBelow_refl _, rfl⟩, fun _ => rfl⟩
    | false =>
      have hne : t1 ≠ t2 := fun h => by
        rw [(equal_iff t1 t2).mpr h] at heq
        cases heq
      have hbelow : ∀ d1 d2, pointedToType t1 = some d1 → ∀ allConst,
          Answers allConst d1.type d2 := by
        intro d1 d2 hd1 allConst
        have hlt := sizeOf_pointedToType hd1
        exact ih d1.type d2 allConst (by omega)
      rcases pointer_cases t1 with ⟨d1, rfl⟩ | ⟨d1, cls1, rfl⟩ | h1
      · rcases pointer_cases t2 with ⟨d2, rfl⟩ | ⟨d2, cls2, rfl⟩ | h2
        · exact answers_step rfl heq rfl rfl (levels_pointer d1) (levels_pointer d2)
            (base_pointer d1) (base_pointer d2) (hbelow d1 d2.type rfl)
        · exact answers_different rfl heq (by simp [levels_pointer, levels_member])
        · exact answers_different (by simp [sameConstructor, h2.not_pointer, isPointerToMemberType])
            heq (by simp [levels_pointer, h2.levels_eq])
      · rcases pointer_cases t2 with ⟨d2, rfl⟩ | ⟨d2, cls2, rfl⟩ | h2
        · exact answers_different rfl heq (by simp [levels_pointer, levels_member])
        · by_cases hcls : cls1 = cls2
          · subst hcls
            exact answers_step (by simp [sameConstructor, isPointerType, isPointerToMemberType,
              memberClass]) heq rfl rfl (levels_member d1 cls1) (levels_member d2 cls1)
              (base_member d1 cls1) (base_member d2 cls1) (hbelow d1 d2.type rfl)
          · exact answers_different (by simp [sameConstructor, isPointerType,
              isPointerToMemberType, memberClass, hcls]) heq (by simp [levels_member, hcls])
        · exact answers_different (by simp [sameConstructor, h2.not_member, isPointerType])
            heq (by simp [levels_member, h2.levels_eq])
      · have hsame : sameConstructor t1 t2 = some false := by
          simp [sameConstructor, h1.not_pointer, h1.not_member]
        refine answers_different hsame heq fun h => ?_
        rw [h1.levels_eq, h1.base_eq] at h
        rcases pointer_cases t2 with ⟨d2, rfl⟩ | ⟨d2, cls2, rfl⟩ | h2
        · simp [levels_pointer] at h
        · simp [levels_member] at h
        · exact hne (h.2.trans h2.base_eq)

end Steps

section Relation

theorem qualificationConversion_refl (t : TypeTerm) : QualificationConversion t t :=
  qualificationConversion_iff.mpr ⟨ruleBelow_refl _, rfl⟩

/-- Similar types have the same number of levels. -/
theorem Similar.level {t1 t2 : TypeTerm} (h : Similar t1 t2) {j : Nat} {l : Level}
    (hl : (levels t1)[j]? = some l) : ∃ m, (levels t2)[j]? = some m := by
  have hlength := congrArg List.length h.constructors
  rw [List.length_map, List.length_map] at hlength
  obtain ⟨hj, -⟩ := List.getElem?_eq_some_iff.mp hl
  exact ⟨_, List.getElem?_eq_getElem (hlength ▸ hj)⟩

theorem qualificationConversion_trans {t1 t2 t3 : TypeTerm} (h : QualificationConversion t1 t2)
    (h' : QualificationConversion t2 t3) : QualificationConversion t1 t3 := by
  refine ⟨⟨h.similar.constructors.trans h'.similar.constructors,
    h.similar.base_eq.trans h'.similar.base_eq⟩, fun j l n hl hn => ?_, fun j l n hl hn hne => ?_⟩
  · obtain ⟨m, hm⟩ := h.similar.level hl
    have hlm := h.included j l m hl hm
    have hmn := h'.included j m n hm hn
    exact ⟨fun hc => hmn.1 (hlm.1 hc), fun hv => hmn.2 (hlm.2 hv)⟩
  · obtain ⟨m, hm⟩ := h.similar.level hl
    intro k hk n' hn'
    by_cases hdiffer : m.2 = n.2
    · -- The first conversion made the difference, and the second one kept its const.
      have hlm : l.2 ≠ m.2 := fun heq => hne (heq.trans hdiffer)
      obtain ⟨hj, -⟩ := List.getElem?_eq_some_iff.mp hm
      have hkm := List.getElem?_eq_getElem (Nat.lt_trans hk hj)
      exact (h'.included k _ n' hkm hn').1 (h.const_before j l m hl hm hlm k hk _ hkm)
    · exact h'.const_before j m n hm hn hdiffer k hk n' hn'

end Relation

/-- The function decides the rule of the standard, and so gives a preorder. -/
theorem qualification_conversion_standard :
    (∀ t1 t2, ∃ b, isValidQualificationConversion t1 t2 = some b ∧
      (b = true ↔ QualificationConversion t1 t2)) ∧
    (∀ t, isValidQualificationConversion t t = some true) ∧
    ∀ t1 t2 t3, isValidQualificationConversion t1 t2 = some true →
      isValidQualificationConversion t2 t3 = some true →
      isValidQualificationConversion t1 t3 = some true := by
  have hdecides : ∀ t1 t2, ∃ b, isValidQualificationConversion t1 t2 = some b ∧
      (b = true ↔ QualificationConversion t1 t2) := by
    intro t1 t2
    rw [qualificationConversion_iff]
    exact answers _ t1 t2 true (Nat.lt_succ_self _)
  have htrue : ∀ t1 t2, isValidQualificationConversion t1 t2 = some true ↔
      QualificationConversion t1 t2 := by
    intro t1 t2
    obtain ⟨b, hb, hiff⟩ := hdecides t1 t2
    rw [hb, ← hiff]
    exact Option.some_inj
  refine ⟨hdecides, fun t => (htrue t t).mpr (qualificationConversion_refl t),
    fun t1 t2 t3 h12 h23 => ?_⟩
  exact (htrue t1 t3).mpr
    (qualificationConversion_trans ((htrue t1 t2).mp h12) ((htrue t2 t3).mp h23))

end CableSwig.CxxTypes.Conversions
