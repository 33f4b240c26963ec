import CableSwig.CxxTypes.DeclarationPrinter
import CableSwig.Executables.TemplateName

/-!
# SWIG type strings

`ToSwigType` writes a type as a string, and the grammar of such strings reads it as a tree.
-/
namespace CableSwig.Executables.SwigTypeString

open CableSwig.CxxTypes
open CableSwig.CxxTypes.DeclarationPrinter
open CableSwig.Executables.TemplateName
open CableSwig.Lib.Fuel
open CableSwig.Lib.StdString

section Encoder

def constPrefix : Text := "q(const).".toList
def pointerPrefix : Text := "p.".toList
def referencePrefix : Text := "r.".toList
def functionPrefix : Text := "f(".toList

/-- The text that has been printed. -/
def flatten (printed : Printed) : Text :=
  printed.flatMap fun
    | .char c => [c]
    | .name n => n.toList

/-- `Type::Name`. -/
def name (type : TypeTerm) : Text := flatten (generateDeclaration (.mk type false false) [])

variable (fuel : Nat) (nativeStringName : Text)

mutual

def toSwigType : CvTerm → Option Text
  | .mk (.pointerType pointedToType) isConst _ => do
    let n ← toSwigType pointedToType
    pure ((if isConst then constPrefix else []) ++ pointerPrefix ++ n)
  | .mk (.referenceType referencedType) _ _ => do
    let n ← toSwigType referencedType
    pure (referencePrefix ++ n)
  | .mk (.functionType returnType arguments) _ _ => do
    let args ← toSwigTypes arguments
    let n ← toSwigType returnType
    pure (functionPrefix ++ args ++ [')', '.'] ++ n)
  | .mk type isConst _ => do
    let n ← templateName fuel nativeStringName (name type)
    pure ((if isConst then constPrefix else []) ++ n)

/-- The arguments of a function, separated by commas. -/
def toSwigTypes : List CvTerm → Option Text
  | [] => pure []
  | argument :: arguments => do
    let n ← toSwigType argument
    let more ← moreSwigTypes arguments
    pure (n ++ more)

def moreSwigTypes : List CvTerm → Option Text
  | [] => pure []
  | argument :: arguments => do
    let n ← toSwigType argument
    let more ← moreSwigTypes arguments
    pure (',' :: n ++ more)

end

end Encoder

section Grammar

/-- What a type string denotes. A leaf is nothing but a name. -/
inductive SwigType
  | leaf (name : Text)
  | pointer (target : SwigType)
  | reference (target : SwigType)
  | const (type : SwigType)
  | function (arguments : List SwigType) (returns : SwigType)

/-- The rest of a text that has a prefix. -/
def behind (start s : Text) : Option Text :=
  if start.isPrefixOf s then some (s.drop start.length) else none

/-- A text at the front of the first argument. -/
def pushText (a : Text) : List Text → List Text
  | [] => []
  | b :: bs => (a ++ b) :: bs

/-- The texts between commas up to the parenthesis that closes the list, and what is behind it.
Commas in `depth` pairs of parentheses separate nothing. -/
def splitArguments : Nat → Text → Option (List Text × Text)
  | _, [] => none
  | depth, c :: s =>
    if c = '(' then (splitArguments (depth + 1) s).map (Prod.map (pushText [c]) id)
    else if c = ')' then
      if depth = 0 then some ([[]], s)
      else (splitArguments (depth - 1) s).map (Prod.map (pushText [c]) id)
    else if c = ',' ∧ depth = 0 then (splitArguments 0 s).map (Prod.map (List.cons []) id)
    else (splitArguments depth s).map (Prod.map (pushText [c]) id)

/-- A list without a character has no arguments. -/
def argumentTexts : List Text → List Text
  | [[]] => []
  | as => as

/-- The reading of a text that is shorter than the bound. -/
def decodeWithin : Nat → Text → Option SwigType
  | 0, _ => none
  | bound + 1, s =>
    match behind pointerPrefix s, behind referencePrefix s, behind constPrefix s,
      behind functionPrefix s with
    | some rest, _, _, _ => (decodeWithin bound rest).map .pointer
    | none, some rest, _, _ => (decodeWithin bound rest).map .reference
    | none, none, some rest, _ => (decodeWithin bound rest).map .const
    | none, none, none, some rest => do
      let (as, rest) ← splitArguments 0 rest
      let rest ← behind ['.'] rest
      let arguments ← (argumentTexts as).mapM (decodeWithin bound)
      let returns ← decodeWithin bound rest
      pure (.function arguments returns)
    | none, none, none, none => some (.leaf s)

def decode (s : Text) : Option SwigType := decodeWithin (s.length + 1) s

end Grammar

section Trees

variable (nativeStringName : Text)

/-- The qualifiers and the name of a type that is no pointer, reference or function. -/
def withConst (isConst : Bool) (type : SwigType) : SwigType :=
  if isConst then .const type else type

mutual

/-- The tree of a type. -/
def swigTree : CvTerm → SwigType
  | .mk (.pointerType pointedToType) isConst _ =>
    withConst isConst (.pointer (swigTree pointedToType))
  | .mk (.referenceType referencedType) _ _ => .reference (swigTree referencedType)
  | .mk (.functionType returnType arguments) _ _ =>
    .function (swigTrees arguments) (swigTree returnType)
  | .mk type isConst _ => withConst isConst (.leaf (translatedText nativeStringName (name type)))

def swigTrees : List CvTerm → List SwigType
  | [] => []
  | argument :: arguments => swigTree argument :: swigTrees arguments

end

mutual

/-- Built from fundamental types, classes, enumerations, `const`, pointers, references and
functions. Functions and references have no qualifiers, and nothing is volatile. -/
def Covered : CvTerm → Prop
  | .mk (.fundamentalType _) _ isVolatile => ¬ isVolatile
  | .mk (.classType _) _ isVolatile => ¬ isVolatile
  | .mk (.enumerationType _) _ isVolatile => ¬ isVolatile
  | .mk (.pointerType pointedToType) _ isVolatile => ¬ isVolatile ∧ Covered pointedToType
  | .mk (.referenceType referencedType) isConst isVolatile =>
    ¬ isConst ∧ ¬ isVolatile ∧ Covered referencedType
  | .mk (.functionType returnType arguments) isConst isVolatile =>
    ¬ isConst ∧ ¬ isVolatile ∧ CoveredAll arguments ∧ Covered returnType
  | .mk (.arrayType _ _) _ _ => False
  | .mk (.pointerToMemberType _ _) _ _ => False

def CoveredAll : List CvTerm → Prop
  | [] => True
  | argument :: arguments => Covered argument ∧ CoveredAll arguments

end

mutual

/-- A property of the names of all leaves, which may depend on whether they stand in the arguments
of a function. -/
def AllLeaves (P : Bool → Text → Prop) (inArguments : Bool) : CvTerm → Prop
  | .mk (.pointerType pointedToType) _ _ => AllLeaves P inArguments pointedToType
  | .mk (.referenceType referencedType) _ _ => AllLeaves P inArguments referencedType
  | .mk (.functionType returnType arguments) _ _ =>
    AllLeavesOf P arguments ∧ AllLeaves P inArguments returnType
  | .mk type _ _ => P inArguments (name type)

def AllLeavesOf (P : Bool → Text → Prop) : List CvTerm → Prop
  | [] => True
  | argument :: arguments => AllLeaves P true argument ∧ AllLeavesOf P arguments

end

/-- Each parenthesis that is closed has been opened, and `depth` of them are open at the start. -/
def balanced : Nat → Text → Bool
  | depth, [] => depth = 0
  | depth, c :: s =>
    if c = '(' then balanced (depth + 1) s
    else if c = ')' then 0 < depth && balanced (depth - 1) s
    else balanced depth s

/-- A text with balanced parentheses and no comma outside them. -/
def enclosed : Nat → Text → Bool
  | depth, [] => depth = 0
  | depth, c :: s =>
    if c = '(' then enclosed (depth + 1) s
    else if c = ')' then 0 < depth && enclosed (depth - 1) s
    else if c = ',' ∧ depth = 0 then false
    else enclosed depth s

/-- A text that does not start like a type that is no leaf. -/
def startsPlain (s : Text) : Bool :=
  ! pointerPrefix.isPrefixOf s && ! referencePrefix.isPrefixOf s && ! constPrefix.isPrefixOf s &&
    ! functionPrefix.isPrefixOf s

/-- A name that the grammar reads as a leaf where it stands. -/
def readable (inArguments : Bool) (s : Text) : Bool :=
  startsPlain s && (! inArguments || (s ≠ [] && enclosed 0 s))

end Trees

section Reading

theorem behind_append (start s : Text) : behind start (start ++ s) = some s := by
  rw [behind, if_pos (List.isPrefixOf_iff_prefix.mpr (List.prefix_append start s)), List.drop_left]

theorem behind_eq_none {start s : Text} (h : (! start.isPrefixOf s) = true) :
    behind start s = none := by
  rw [behind, if_neg (by rw [Bool.not_eq_true'] at h; rw [h]; exact Bool.false_ne_true)]

theorem decodeWithin_pointer (bound : Nat) (s : Text) :
    decodeWithin (bound + 1) (pointerPrefix ++ s) = (decodeWithin bound s).map .pointer := by
  rw [decodeWithin, behind_append]

theorem decodeWithin_reference (bound : Nat) (s : Text) :
    decodeWithin (bound + 1) (referencePrefix ++ s) = (decodeWithin bound s).map .reference := by
  have hpointer : behind pointerPrefix (referencePrefix ++ s) = none := rfl
  rw [decodeWithin, hpointer, behind_append]

theorem decodeWithin_const (bound : Nat) (s : Text) :
    decodeWithin (bound + 1) (constPrefix ++ s) = (decodeWithin bound s).map .const := by
  have hpointer : behind pointerPrefix (constPrefix ++ s) = none := rfl
  have hreference : behind referencePrefix (constPrefix ++ s) = none := rfl
  rw [decodeWithin, hpointer, hreference, behind_append]

theorem decodeWithin_function (bound : Nat) (s : Text) :
    decodeWithin (bound + 1) (functionPrefix ++ s) = (do
      let (as, rest) ← splitArguments 0 s
      let rest ← behind ['.'] rest
      let arguments ← (argumentTexts as).mapM (decodeWithin bound)
      let returns ← decodeWithin bound rest
      pure (.function arguments returns)) := by
  have hpointer : behind pointerPrefix (functionPrefix ++ s) = none := rfl
  have hreference : behind referencePrefix (functionPrefix ++ s) = none := rfl
  have hconst : behind constPrefix (functionPrefix ++ s) = none := rfl
  rw [decodeWithin, hpointer, hreference, hconst, behind_append]

theorem decodeWithin_leaf (bound : Nat) {s : Text} (h : startsPlain s = true) :
    decodeWithin (bound + 1) s = some (.leaf s) := by
  simp only [startsPlain, Bool.and_eq_true] at h
  obtain ⟨⟨⟨hpointer, hreference⟩, hconst⟩, hfunction⟩ := h
  rw [decodeWithin, behind_eq_none hpointer, behind_eq_none hreference, behind_eq_none hconst,
    behind_eq_none hfunction]

theorem pushText_comp (c : Char) (a : Text) (r : List Text × Text) :
    Prod.map (pushText [c]) id (Prod.map (pushText a) id r) =
      Prod.map (pushText (c :: a)) id r := by
  obtain ⟨as, rest⟩ := r
  cases as <;> rfl

/-- An enclosed text is read as a part of one argument. -/
theorem splitArguments_append (a : Text) : ∀ (depth : Nat) (s : Text), enclosed depth a = true →
    splitArguments depth (a ++ s) = (splitArguments 0 s).map (Prod.map (pushText a) id) := by
  induction a with
  | nil =>
    intro depth s h
    obtain rfl : depth = 0 := by simpa [enclosed] using h
    have hid : Prod.map (pushText []) id = (id : List Text × Text → List Text × Text) := by
      funext r
      obtain ⟨as, rest⟩ := r
      cases as <;> rfl
    rw [hid, Option.map_id, id, List.nil_append]
  | cons c a ih =>
    intro depth s h
    rw [enclosed] at h
    rw [List.cons_append, splitArguments]
    have hcomp : ∀ o : Option (List Text × Text),
        (o.map (Prod.map (pushText a) id)).map (Prod.map (pushText [c]) id) =
          o.map (Prod.map (pushText (c :: a)) id) := by
      intro o
      rw [Option.map_map]
      exact congrArg (o.map ·) (funext fun r => pushText_comp c a r)
    split
    · next hopen =>
      rw [if_pos hopen] at h
      rw [ih _ s h, hcomp]
    · next hopen =>
      rw [if_neg hopen] at h
      split
      · next hclose =>
        rw [if_pos hclose, Bool.and_eq_true, decide_eq_true_eq] at h
        rw [if_neg (by omega), ih _ s h.2, hcomp]
      · next hclose =>
        rw [if_neg hclose] at h
        split
        · next hcomma =>
          rw [if_pos hcomma] at h
          cases h
        · next hcomma =>
          rw [if_neg hcomma] at h
          rw [ih _ s h, hcomp]

theorem enclosed_append (a : Text) : ∀ (k depth : Nat) (s : Text), enclosed k a = true →
    enclosed (depth + k) (a ++ s) = enclosed depth s := by
  induction a with
  | nil =>
    intro k depth s h
    obtain rfl : k = 0 := by simpa [enclosed] using h
    rfl
  | cons c a ih =>
    intro k depth s h
    rw [enclosed] at h
    rw [List.cons_append, enclosed]
    split
    · next hopen =>
      rw [if_pos hopen] at h
      exact ih (k + 1) depth s h
    · next hopen =>
      rw [if_neg hopen] at h
      split
      · next hclose =>
        rw [if_pos hclose, Bool.and_eq_true, decide_eq_true_eq] at h
        rw [decide_eq_true (by omega), Bool.true_and, Nat.add_sub_assoc h.1]
        exact ih (k - 1) depth s h.2
      · next hclose =>
        rw [if_neg hclose] at h
        split at h
        · cases h
        · next hcomma =>
          rw [if_neg fun hc => hcomma ⟨hc.1, by omega⟩]
          exact ih k depth s h

end Reading

section Arguments

/-- The arguments of a function as they are written. -/
def joinArguments : List Text → Text
  | [] => []
  | a :: as => a ++ as.flatMap fun b => ',' :: b

/-- The list is read as it was written. -/
theorem splitArguments_more (as : List Text) (rest : Text) (h : ∀ a ∈ as, enclosed 0 a = true) :
    splitArguments 0 (as.flatMap (fun b => ',' :: b) ++ ')' :: rest) = some ([] :: as, rest) := by
  induction as with
  | nil => rfl
  | cons a as ih =>
    have hcomma : ∀ s, splitArguments 0 (',' :: s) =
        (splitArguments 0 s).map (Prod.map (List.cons []) id) := fun s => by simp [splitArguments]
    rw [List.flatMap_cons, List.cons_append, List.cons_append, hcomma, List.append_assoc,
      splitArguments_append a 0 _ (h a List.mem_cons_self),
      ih fun b hb => h b (List.mem_cons_of_mem _ hb)]
    simp [pushText]

theorem splitArguments_join (as : List Text) (rest : Text) (h : ∀ a ∈ as, enclosed 0 a = true)
    (hne : ∀ a ∈ as, a ≠ []) :
    (splitArguments 0 (joinArguments as ++ ')' :: rest)).map (Prod.map argumentTexts id) =
      some (as, rest) := by
  cases as with
  | nil => rfl
  | cons a as =>
    rw [joinArguments, List.append_assoc, splitArguments_append a 0 _ (h a List.mem_cons_self),
      splitArguments_more as rest fun b hb => h b (List.mem_cons_of_mem _ hb)]
    have hlist : argumentTexts (a :: as) = a :: as := by
      unfold argumentTexts
      split
      · next heq => exact absurd (List.cons.inj heq).1 (hne a List.mem_cons_self)
      · rfl
    simp [pushText, hlist]

theorem length_le_join {a : Text} {as : List Text} (h : a ∈ as) :
    a.length ≤ (joinArguments as).length := by
  cases as with
  | nil => cases h
  | cons b as =>
    rw [joinArguments, List.length_append]
    rcases List.mem_cons.mp h with rfl | h
    · exact Nat.le_add_right _ _
    · have hle := (List.sublist_flatten_of_mem
        (List.mem_map_of_mem (f := fun b => ',' :: b) h)).length_le
      rw [List.length_cons, ← List.flatMap_def] at hle
      omega

theorem exists_of_forall₂ {α β : Type} {R : α → β → Prop} {as : List α} {bs : List β}
    (h : List.Forall₂ R as bs) : ∀ a ∈ as, ∃ b, R a b := by
  induction h with
  | nil => intro a ha; cases ha
  | cons hab _ ih =>
    intro a ha
    rcases List.mem_cons.mp ha with rfl | ha
    · exact ⟨_, hab⟩
    · exact ih a ha

theorem mapM_eq_some {α β : Type} {R : α → β → Prop} {f : α → Option β} {as : List α}
    {bs : List β} (h : List.Forall₂ R as bs) (hf : ∀ a ∈ as, ∀ b, R a b → f a = some b) :
    as.mapM f = some bs := by
  induction h with
  | nil => rfl
  | cons hab _ ih =>
    rw [List.mapM_cons, hf _ List.mem_cons_self _ hab,
      ih fun a ha => hf a (List.mem_cons_of_mem _ ha)]
    rfl

end Arguments

section Reads

/-- A text that the grammar reads as the type, and that a list of arguments can hold if it has
to. -/
structure Reads (inArguments : Bool) (s : Text) (type : SwigType) : Prop where
  decodes : ∀ bound, s.length < bound → decodeWithin bound s = some type
  inside : inArguments = true → s ≠ [] ∧ enclosed 0 s = true

namespace Reads

variable {inArguments : Bool} {s : Text} {type : SwigType}

/-- A prefix that is made of one type more. -/
theorem ofPrefix {start : Text} {f : SwigType → SwigType} (h : Reads inArguments s type)
    (hstart : 0 < start.length) (henclosed : enclosed 0 start = true)
    (hdecode : ∀ bound, decodeWithin (bound + 1) (start ++ s) = (decodeWithin bound s).map f) :
    Reads inArguments (start ++ s) (f type) where
  decodes := by
    intro bound hbound
    rw [List.length_append] at hbound
    obtain ⟨bound, rfl⟩ := Nat.exists_eq_succ_of_ne_zero (Nat.ne_zero_of_lt hbound)
    rw [hdecode, h.decodes bound (by omega), Option.map_some]
  inside := by
    intro hin
    refine ⟨?_, ?_⟩
    · intro hnil
      exact (h.inside hin).1 (List.append_eq_nil_iff.mp hnil).2
    · exact (enclosed_append start 0 0 s henclosed).trans (h.inside hin).2

theorem leaf (h : readable inArguments s = true) : Reads inArguments s (.leaf s) := by
  rw [readable, Bool.and_eq_true] at h
  refine ⟨?_, ?_⟩
  · intro bound hbound
    obtain ⟨bound, rfl⟩ := Nat.exists_eq_succ_of_ne_zero (Nat.ne_zero_of_lt hbound)
    exact decodeWithin_leaf bound h.1
  · intro hin
    simpa [hin] using h.2

theorem pointer (h : Reads inArguments s type) :
    Reads inArguments (pointerPrefix ++ s) (.pointer type) :=
  h.ofPrefix (by decide) (by decide) fun bound => decodeWithin_pointer bound s

theorem reference (h : Reads inArguments s type) :
    Reads inArguments (referencePrefix ++ s) (.reference type) :=
  h.ofPrefix (by decide) (by decide) fun bound => decodeWithin_reference bound s

theorem const (h : Reads inArguments s type) (isConst : Bool) :
    Reads inArguments ((if isConst then constPrefix else []) ++ s) (withConst isConst type) := by
  cases isConst with
  | false => exact h
  | true => exact h.ofPrefix (by decide) (by decide) fun bound => decodeWithin_const bound s

/-- The commas between the arguments stand inside the parentheses of the function. -/
theorem enclosed_more {as : List Text} (h : ∀ a ∈ as, enclosed 0 a = true) (t : Text) :
    enclosed 1 (as.flatMap (fun b => ',' :: b) ++ t) = enclosed 1 t := by
  induction as with
  | nil => rfl
  | cons a as ih =>
    have hcomma : ∀ u, enclosed 1 (',' :: u) = enclosed 1 u := fun u => by simp [enclosed]
    rw [List.flatMap_cons, List.cons_append, List.cons_append, hcomma, List.append_assoc]
    exact (enclosed_append a 0 1 _ (h a List.mem_cons_self)).trans
      (ih fun b hb => h b (List.mem_cons_of_mem _ hb))

theorem enclosed_join {as : List Text} (h : ∀ a ∈ as, enclosed 0 a = true) (t : Text) :
    enclosed 1 (joinArguments as ++ t) = enclosed 1 t := by
  cases as with
  | nil => rfl
  | cons a as =>
    rw [joinArguments, List.append_assoc]
    exact (enclosed_append a 0 1 _ (h a List.mem_cons_self)).trans
      (enclosed_more (fun b hb => h b (List.mem_cons_of_mem _ hb)) t)

theorem function {as : List Text} {arguments : List SwigType}
    (has : List.Forall₂ (Reads true) as arguments) (h : Reads inArguments s type) :
    Reads inArguments (functionPrefix ++ joinArguments as ++ [')', '.'] ++ s)
      (.function arguments type) := by
  have hinside : ∀ a ∈ as, a ≠ [] ∧ enclosed 0 a = true := by
    intro a ha
    obtain ⟨argument, hargument⟩ := exists_of_forall₂ has a ha
    exact hargument.inside rfl
  have hjoin := splitArguments_join as ('.' :: s) (fun a ha => (hinside a ha).2)
    fun a ha => (hinside a ha).1
  have htext : functionPrefix ++ joinArguments as ++ [')', '.'] ++ s =
      functionPrefix ++ (joinArguments as ++ ')' :: '.' :: s) := by
    simp only [List.append_assoc, List.cons_append, List.nil_append]
  rw [htext]
  refine ⟨?_, ?_⟩
  · intro bound hbound
    obtain ⟨bound, rfl⟩ := Nat.exists_eq_succ_of_ne_zero (Nat.ne_zero_of_lt hbound)
    simp only [List.length_append, List.length_cons] at hbound
    have harguments : as.mapM (decodeWithin bound) = some arguments := by
      refine mapM_eq_some has ?_
      intro a ha argument hargument
      have hle := length_le_join ha
      exact hargument.decodes bound (by omega)
    obtain ⟨⟨texts, rest⟩, hsplit, heq⟩ := Option.map_eq_some_iff.mp hjoin
    obtain ⟨htexts, hrest⟩ := Prod.mk.inj heq
    rw [decodeWithin_function, hsplit]
    simp only [Option.bind_eq_bind, Option.bind_some]
    rw [htexts, harguments]
    rw [id] at hrest
    rw [hrest]
    have hdot : behind ['.'] ('.' :: s) = some s := behind_append ['.'] s
    rw [hdot, Option.bind_some, Option.bind_some, h.decodes bound (by omega), Option.bind_some]
    rfl
  · intro hin
    refine ⟨by simp [functionPrefix], ?_⟩
    have hopen : ∀ t, enclosed 0 (functionPrefix ++ t) = enclosed 1 t := fun t => rfl
    have hclose : enclosed 1 (')' :: '.' :: s) = enclosed 0 s := rfl
    rw [hopen, enclosed_join fun a ha => (hinside a ha).2, hclose]
    exact (h.inside hin).2

end Reads

end Reads

section Results

variable (nativeStringName : Text)

mutual

/-- What the encoder writes. -/
def swigText : CvTerm → Text
  | .mk (.pointerType pointedToType) isConst _ =>
    (if isConst then constPrefix else []) ++ (pointerPrefix ++ swigText pointedToType)
  | .mk (.referenceType referencedType) _ _ => referencePrefix ++ swigText referencedType
  | .mk (.functionType returnType arguments) _ _ =>
    functionPrefix ++ joinArguments (swigTexts arguments) ++ [')', '.'] ++ swigText returnType
  | .mk type isConst _ =>
    (if isConst then constPrefix else []) ++ translatedText nativeStringName (name type)

def swigTexts : List CvTerm → List Text
  | [] => []
  | argument :: arguments => swigText argument :: swigTexts arguments

end

theorem toSwigType_leaf {type : TypeTerm} {isConst isVolatile : Bool}
    (h : ∀ fuel, toSwigType fuel nativeStringName (.mk type isConst isVolatile) = do
      let n ← templateName fuel nativeStringName (name type)
      pure ((if isConst then constPrefix else []) ++ n)) :
    Enough fun fuel => toSwigType fuel nativeStringName (.mk type isConst isVolatile) =
      some ((if isConst then constPrefix else []) ++
        translatedText nativeStringName (name type)) := by
  refine (templateName_total nativeStringName (name type)).mono ?_
  intro fuel hname
  rw [h, hname]
  rfl

mutual

theorem toSwigType_total : ∀ t : CvTerm,
    Enough fun fuel => toSwigType fuel nativeStringName t = some (swigText nativeStringName t)
  | .mk (.pointerType pointedToType) isConst isVolatile => by
    refine (toSwigType_total pointedToType).mono ?_
    intro fuel h
    rw [toSwigType, h, swigText, ← List.append_assoc]
    rfl
  | .mk (.referenceType referencedType) isConst isVolatile => by
    refine (toSwigType_total referencedType).mono ?_
    intro fuel h
    rw [toSwigType, h, swigText]
    rfl
  | .mk (.functionType returnType arguments) isConst isVolatile => by
    refine ((toSwigTypes_total arguments).and (toSwigType_total returnType)).mono ?_
    intro fuel hboth
    obtain ⟨⟨harguments, -⟩, hreturns⟩ := hboth
    rw [toSwigType, harguments, hreturns, swigText]
    rfl
  | .mk (.classType n) isConst isVolatile => toSwigType_leaf nativeStringName fun _ => rfl
  | .mk (.enumerationType n) isConst isVolatile => toSwigType_leaf nativeStringName fun _ => rfl
  | .mk (.fundamentalType id) isConst isVolatile => toSwigType_leaf nativeStringName fun _ => rfl
  | .mk (.arrayType t length) isConst isVolatile => toSwigType_leaf nativeStringName fun _ => rfl
  | .mk (.pointerToMemberType t c) isConst isVolatile =>
    toSwigType_leaf nativeStringName fun _ => rfl

theorem toSwigTypes_total : ∀ ts : List CvTerm, Enough fun fuel =>
    toSwigTypes fuel nativeStringName ts = some (joinArguments (swigTexts nativeStringName ts)) ∧
      moreSwigTypes fuel nativeStringName ts =
        some ((swigTexts nativeStringName ts).flatMap fun s => ',' :: s)
  | [] => ⟨0, fun _ _ => ⟨rfl, rfl⟩⟩
  | t :: ts => by
    refine ((toSwigType_total t).and (toSwigTypes_total ts)).mono ?_
    intro fuel hboth
    obtain ⟨ht, -, hts⟩ := hboth
    rw [toSwigTypes, moreSwigTypes, ht, hts]
    exact ⟨rfl, rfl⟩

end

/-- The leaves are names that the grammar takes for leaves. -/
def ReadableLeaves (t : CvTerm) : Prop :=
  AllLeaves (fun inArguments n => readable inArguments (translatedText nativeStringName n) = true)
    false t

mutual

theorem swigText_reads : ∀ (t : CvTerm) (inArguments : Bool), Covered t →
    AllLeaves (fun inArguments n =>
      readable inArguments (translatedText nativeStringName n) = true) inArguments t →
    Reads inArguments (swigText nativeStringName t) (swigTree nativeStringName t)
  | .mk (.pointerType pointedToType) isConst _, b, hcovered, hleaves =>
    (swigText_reads pointedToType b hcovered.2 hleaves).pointer.const isConst
  | .mk (.referenceType referencedType) _ _, b, hcovered, hleaves =>
    (swigText_reads referencedType b hcovered.2.2 hleaves).reference
  | .mk (.functionType returnType arguments) _ _, b, hcovered, hleaves =>
    .function (swigTexts_read arguments hcovered.2.2.1 hleaves.1)
      (swigText_reads returnType b hcovered.2.2.2 hleaves.2)
  | .mk (.classType _) isConst _, _, _, hleaves => (Reads.leaf hleaves).const isConst
  | .mk (.enumerationType _) isConst _, _, _, hleaves => (Reads.leaf hleaves).const isConst
  | .mk (.fundamentalType _) isConst _, _, _, hleaves => (Reads.leaf hleaves).const isConst
  | .mk (.arrayType _ _) _ _, _, hcovered, _ => absurd hcovered id
  | .mk (.pointerToMemberType _ _) _ _, _, hcovered, _ => absurd hcovered id

theorem swigTexts_read : ∀ ts : List CvTerm, CoveredAll ts →
    AllLeavesOf (fun inArguments n =>
      readable inArguments (translatedText nativeStringName n) = true) ts →
    List.Forall₂ (Reads true) (swigTexts nativeStringName ts) (swigTrees nativeStringName ts)
  | [], _, _ => .nil
  | t :: ts, hcovered, hleaves =>
    .cons (swigText_reads t true hcovered.1 hleaves.1) (swigTexts_read ts hcovered.2 hleaves.2)

end

/-- The encoder comes to an end with a string that is read as the tree of the type. -/
def Decodes (t : CvTerm) : Prop :=
  ∃ s, (Enough fun fuel => toSwigType fuel nativeStringName t = some s) ∧
    decode s = some (swigTree nativeStringName t)

theorem decode_swigText {t : CvTerm} (hcovered : Covered t)
    (hleaves : ReadableLeaves nativeStringName t) :
    decode (swigText nativeStringName t) = some (swigTree nativeStringName t) :=
  (swigText_reads nativeStringName t false hcovered hleaves).decodes _ (Nat.lt_succ_self _)

theorem eq_swigText {t : CvTerm} {s : Text}
    (h : Enough fun fuel => toSwigType fuel nativeStringName t = some s) :
    s = swigText nativeStringName t := by
  obtain ⟨fuel, htotal, hs⟩ := ((toSwigType_total nativeStringName t).and h).exists_fuel
  exact Option.some.inj (hs.symm.trans htotal)

/-- Types with readable leaves are decoded, so that two of them which differ in more than leaves of
the same translation are written differently. -/
theorem swig_type_decodes {t : CvTerm} (hcovered : Covered t)
    (hleaves : ReadableLeaves nativeStringName t) :
    Decodes nativeStringName t ∧ ∀ u : CvTerm, Covered u → ReadableLeaves nativeStringName u →
      swigTree nativeStringName t ≠ swigTree nativeStringName u →
      ∀ s, (Enough fun fuel => toSwigType fuel nativeStringName t = some s) →
        ¬ Enough fun fuel => toSwigType fuel nativeStringName u = some s := by
  have hdecode := decode_swigText nativeStringName hcovered hleaves
  refine ⟨⟨_, toSwigType_total nativeStringName t, hdecode⟩, ?_⟩
  intro u hcovered' hleaves' hne s hs hs'
  have hdecode' := decode_swigText nativeStringName hcovered' hleaves'
  rw [← eq_swigText nativeStringName hs] at hdecode
  rw [← eq_swigText nativeStringName hs', hdecode] at hdecode'
  exact hne (Option.some.inj hdecode')

/-- A const pointer to a function that takes a const `A<int, 2>` by reference. -/
def callback : CvTerm :=
  .mk (.pointerType (.mk (.functionType (.mk (.fundamentalType .void) false false)
    [.mk (.referenceType (.mk (.classType "A<int, 2>") true false)) false false,
      .mk (.fundamentalType .int) false false]) false false)) true false

theorem callback_decodes : Decodes [] callback := by
  have hclass : readable true (translatedText [] (name (.classType "A<int, 2>"))) = true := by
    decide
  have hint : readable true (translatedText [] (name (.fundamentalType .int))) = true := by decide
  have hvoid : readable false (translatedText [] (name (.fundamentalType .void))) = true := by
    decide
  have hcovered : Covered callback := by simp [callback, Covered, CoveredAll]
  have hleaves : ReadableLeaves [] callback := ⟨⟨hclass, hint, trivial⟩, hvoid⟩
  exact (swig_type_decodes [] hcovered hleaves).1

/-- All parentheses in the names of leaves are balanced. -/
def BalancedLeaves (t : CvTerm) : Prop := AllLeaves (fun _ n => balanced 0 n = true) false t

/-- A type with balanced leaves that is not decoded. -/
structure Misread (t : CvTerm) : Prop where
  covered : Covered t
  balanced : BalancedLeaves t
  not_decodes : ¬ Decodes [] t

/-- A function with one argument, which is a class. -/
def taking (name : String) : CvTerm :=
  .mk (.functionType (.mk (.fundamentalType .void) false false)
    [.mk (.classType name) false false]) false false

theorem misread_of {t : CvTerm} (hcovered : Covered t) (hbalanced : BalancedLeaves t)
    (h : decode (swigText [] t) ≠ some (swigTree [] t)) : Misread t := by
  refine ⟨hcovered, hbalanced, ?_⟩
  intro hdecodes
  obtain ⟨s, hs, hdecode⟩ := hdecodes
  rw [eq_swigText [] hs] at hdecode
  exact h hdecode

/-- The angle bracket of a character gets a parenthesis, a comma may stand between no parentheses, a
name may be empty, and may start like a pointer. -/
theorem balanced_leaves_misread : Misread (taking "A<'<'>") ∧ Misread (taking "a,b") ∧
    Misread (taking "") ∧ Misread (.mk (.classType "p.x") false false) := by
  have hcovered : ∀ n, Covered (taking n) := fun n => by simp [taking, Covered, CoveredAll]
  have hbalanced : ∀ n, balanced 0 (name (.classType n)) = true → BalancedLeaves (taking n) :=
    fun n h => ⟨⟨h, trivial⟩, rfl⟩
  refine ⟨?_, ?_, ?_, ?_⟩
  · refine misread_of (hcovered _) (hbalanced _ (by decide)) ?_
    have hdecode : decode (swigText [] (taking "A<'<'>")) = none := rfl
    rw [hdecode]
    intro h
    cases h
  · refine misread_of (hcovered _) (hbalanced _ (by decide)) ?_
    have hdecode : decode (swigText [] (taking "a,b")) =
        some (.function [.leaf "a".toList, .leaf "b".toList] (.leaf "void".toList)) := rfl
    rw [hdecode]
    intro h
    cases h
  · refine misread_of (hcovered _) (hbalanced _ (by decide)) ?_
    have hdecode : decode (swigText [] (taking "")) =
        some (.function [] (.leaf "void".toList)) := rfl
    rw [hdecode]
    intro h
    cases h
  · refine misread_of (by simp [Covered]) (by decide : balanced 0 "p.x".toList = true) ?_
    have hdecode : decode (swigText [] (.mk (.classType "p.x") false false)) =
        some (.pointer (.leaf ['x'])) := rfl
    rw [hdecode]
    intro h
    cases h

end Results

end CableSwig.Executables.SwigTypeString
