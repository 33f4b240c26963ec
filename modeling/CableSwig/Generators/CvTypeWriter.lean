import CableSwig.CxxTypes.TypeSystem
import CableSwig.Lib.PostOrder
import Mathlib.Data.Fin.VecNotation

/-!
# The table of types of a wrapper

`CvTypeWriter` collects the types that a wrapper uses, each with the types that it is made of, and
writes the code that initializes them in the order in which they have been collected.
-/
namespace CableSwig.Generators.CvTypeWriter

open CableSwig.CxxTypes
open CableSwig.CxxTypes.TypeSystem
open CableSwig.Lib.Fuel
open CableSwig.Lib.PostOrder

variable {α : Type}

section Types

/-- The types that a type is made of, and the parents of a class. -/
def innerTypes : TypeNode α → List α
  | .arrayType elementType _ => [elementType.type]
  | .classType _ _ parents => parents
  | .enumerationType _ => []
  | .functionType returnType arguments => returnType.type :: arguments.map CvQualifiedType.type
  | .fundamentalType _ => []
  | .pointerType pointedToType => [pointedToType.type]
  | .pointerToMemberType pointedToType classType => [pointedToType.type, classType]
  | .referenceType referencedType => [referencedType.type]

/-- The types with what their objects hold. The rank says that no type is made of itself and no
class is its own ancestor. -/
structure Types (α : Type) where
  node : α → TypeNode α
  rank : α → Nat
  rank_lt : ∀ t, ∀ u ∈ innerTypes (node t), rank u < rank t

/-- `GetCvQualifiedType(false, false)`. -/
def unqualified (t : α) : CvQualifiedType α := ⟨t, false, false⟩

end Types

section Adding

variable [DecidableEq α]

/-- The types that have been added, as a set and in their order. -/
structure Writer (α : Type) where
  typesAdded : List (CvQualifiedType α) := []
  typeOrdering : List (CvQualifiedType α) := []

/-- `AddFunctionTypes`. -/
def addFunctionTypes (add : CvQualifiedType α → Writer α → Option (Writer α))
    (returnType : CvQualifiedType α) (arguments : List (CvQualifiedType α)) (w : Writer α) :
    Option (Writer α) := do
  let w ← add returnType w
  arguments.foldlM (fun w arg => add arg w) w

/-- `Add`, with fuel for its recursion. -/
def add (g : Types α) : Nat → CvQualifiedType α → Writer α → Option (Writer α)
  | 0, _, _ => none
  | fuel + 1, cvType, w =>
    -- If the type has already been added to the list, we are done.
    if cvType ∈ w.typesAdded then some w
    else do
      let type := cvType.type
      -- The cv-unqualified version comes first.
      let w ← if cvType.isConst || cvType.isVolatile then add g fuel (unqualified type) w
        else some w
      let w ← match g.node type with
        | .arrayType elementType _ => add g fuel elementType w
        | .classType _ _ parents =>
          if !cvType.isConst && !cvType.isVolatile then
            parents.foldlM (fun w p => add g fuel (unqualified p) w) w
          else some w
        | .enumerationType _ => some w
        | .functionType returnType arguments =>
          addFunctionTypes (add g fuel) returnType arguments w
        | .fundamentalType _ => some w
        | .pointerType pointedToType => add g fuel pointedToType w
        | .pointerToMemberType pointedToType classType => do
          let w ← add g fuel pointedToType w
          add g fuel (unqualified classType) w
        | .referenceType referencedType => add g fuel referencedType w
      some ⟨cvType :: w.typesAdded, w.typeOrdering ++ [cvType]⟩

/-- A sequence of calls of `Add`. -/
def addAll (g : Types α) (fuel : Nat) (calls : List (CvQualifiedType α)) (w : Writer α) :
    Option (Writer α) :=
  calls.foldlM (fun w cvType => add g fuel cvType w) w

end Adding

section Writing

/-- What is written: text, the type that a line assigns to, and the types that it takes. These
are written as `CvType< name >::type`. -/
inductive Piece (α : Type)
  | text (s : String)
  | assigned (cvType : CvQualifiedType α)
  | used (cvType : CvQualifiedType α)

def fundamentalIdName : FundamentalId → String
  | .unsignedChar => "UnsignedChar"
  | .unsignedShortInt => "UnsignedShortInt"
  | .unsignedInt => "UnsignedInt"
  | .unsignedLongInt => "UnsignedLongInt"
  | .unsignedLongLongInt => "UnsignedLongLongInt"
  | .signedChar => "SignedChar"
  | .char => "Char"
  | .shortInt => "ShortInt"
  | .int => "Int"
  | .longInt => "LongInt"
  | .longLongInt => "LongLongInt"
  | .wChar_t => "WChar_t"
  | .bool => "Bool"
  | .float => "Float"
  | .double => "Double"
  | .longDouble => "LongDouble"
  | .complexFloat => "ComplexFloat"
  | .complexDouble => "ComplexDouble"
  | .complexLongDouble => "ComplexLongDouble"
  | .void => "Void"

def flag (b : Bool) : String := if b then "true" else "false"

/-- The two flags as they end most of the calls. -/
def flags (cvType : CvQualifiedType α) : String :=
  ", " ++ flag cvType.isConst ++ ", " ++ flag cvType.isVolatile

/-- `WriteInitialization`. -/
def writeInitialization (g : Types α) (cvType : CvQualifiedType α) : List (Piece α) :=
  match g.node cvType.type with
  | .arrayType elementType length =>
    [.text "  ", .assigned cvType, .text " = TypeInfo::GetArrayType(", .used elementType,
      .text (", " ++ toString length ++ ");\n")]
  | .classType name copyable parents =>
    if !cvType.isConst && !cvType.isVolatile && !parents.isEmpty then
      [.text "  \x7b\n  ClassTypes parents;\n"] ++
      (parents.flatMap fun p =>
        [.text "  parents.push_back(ClassType::SafeDownCast(", .used (unqualified p),
          .text ".GetType()));\n"]) ++
      [.text "  ", .assigned cvType, .text (" = TypeInfo::GetClassType(\"" ++ name ++ "\"" ++
        flags cvType ++ ", " ++ flag copyable ++ ", parents);\n"), .text "  \x7d\n"]
    else
      [.text "  ", .assigned cvType, .text (" = TypeInfo::GetClassType(\"" ++ name ++ "\"" ++
        flags cvType ++ ", " ++ flag copyable ++ ");\n")]
  | .enumerationType name =>
    [.text "  ", .assigned cvType, .text (" = TypeInfo::GetEnumerationType(\"" ++ name ++ "\"" ++
      flags cvType ++ ");\n")]
  | .fundamentalType id =>
    [.text "  ", .assigned cvType, .text (" = TypeInfo::GetFundamentalType(FundamentalType::" ++
      fundamentalIdName id ++ flags cvType ++ ");\n")]
  | .functionType returnType arguments =>
    [.text "  \x7b\n  CvQualifiedTypes argumentTypes;\n"] ++
    (arguments.flatMap fun arg =>
      [.text "  argumentTypes.push_back(", .used arg, .text ");\n"]) ++
    [.text "  ", .assigned cvType, .text " = TypeInfo::GetFunctionType(", .used returnType,
      .text (", argumentTypes" ++ flags cvType ++ ");\n  \x7d\n")]
  | .pointerType pointedToType =>
    [.text "  ", .assigned cvType, .text " = TypeInfo::GetPointerType(", .used pointedToType,
      .text (flags cvType ++ ");\n")]
  | .pointerToMemberType pointedToType classType =>
    [.text "  ", .assigned cvType, .text " = TypeInfo::GetPointerToMemberType(",
      .used pointedToType, .text ", ClassType::SafeDownCast(", .used (unqualified classType),
      .text (".GetType())" ++ flags cvType ++ ");\n")]
  | .referenceType referencedType =>
    [.text "  ", .assigned cvType, .text " = TypeInfo::GetReferenceType(", .used referencedType,
      .text ");\n"]

/-- `WriteInitializations`. -/
def writeInitializations (g : Types α) (w : Writer α) : List (Piece α) :=
  w.typeOrdering.flatMap (writeInitialization g)

/-- The types that have to be there before a type is initialized. -/
inductive Mentions (g : Types α) (cvType : CvQualifiedType α) : CvQualifiedType α → Prop
  | written {u : CvQualifiedType α} (h : Piece.used u ∈ writeInitialization g cvType) :
      Mentions g cvType u
  | parent {name : String} {copyable : Bool} {parents : List α} {p : α}
      (h : g.node cvType.type = .classType name copyable parents) (hp : p ∈ parents) :
      Mentions g cvType (unqualified p)
  | unqualified (h : cvType.isConst = true ∨ cvType.isVolatile = true) :
      Mentions g cvType (unqualified cvType.type)

end Writing

section Order

/-- What `Add` adds before a type. -/
def firsts (g : Types α) (cvType : CvQualifiedType α) : List (CvQualifiedType α) :=
  (if cvType.isConst || cvType.isVolatile then [unqualified cvType.type] else []) ++
  match g.node cvType.type with
  | .arrayType elementType _ => [elementType]
  | .classType _ _ parents =>
    if !cvType.isConst && !cvType.isVolatile then parents.map unqualified else []
  | .enumerationType _ => []
  | .functionType returnType arguments => returnType :: arguments
  | .fundamentalType _ => []
  | .pointerType pointedToType => [pointedToType]
  | .pointerToMemberType pointedToType classType => [pointedToType, unqualified classType]
  | .referenceType referencedType => [referencedType]

/-- The rank of a type, where a qualified one is above the unqualified one. -/
def cvRank (g : Types α) (cvType : CvQualifiedType α) : Nat :=
  2 * g.rank cvType.type + if cvType.isConst || cvType.isVolatile then 1 else 0

theorem innerTypes_of_firsts (g : Types α) {t u : CvQualifiedType α} (hu : u ∈ firsts g t) :
    ((t.isConst || t.isVolatile) = true ∧ u = unqualified t.type) ∨
      u.type ∈ innerTypes (g.node t.type) := by
  rcases List.mem_append.mp hu with hu | hu
  · by_cases hq : (t.isConst || t.isVolatile) = true
    · rw [if_pos hq] at hu
      exact Or.inl ⟨hq, List.mem_singleton.mp hu⟩
    · rw [if_neg hq] at hu
      cases hu
  · right
    cases hnode : g.node t.type with
    | arrayType e n =>
      rw [hnode] at hu
      obtain rfl := List.mem_singleton.mp hu
      exact List.mem_singleton_self _
    | classType name copyable parents =>
      simp only [hnode] at hu
      by_cases hq : (!t.isConst && !t.isVolatile) = true
      · rw [if_pos hq] at hu
        obtain ⟨p, hp, rfl⟩ := List.mem_map.mp hu
        exact hp
      · rw [if_neg hq] at hu
        cases hu
    | enumerationType name =>
      rw [hnode] at hu
      cases hu
    | functionType r args =>
      simp only [hnode] at hu
      rcases List.mem_cons.mp hu with rfl | hu
      · exact List.mem_cons_self
      · exact List.mem_cons_of_mem _ (List.mem_map_of_mem hu)
    | fundamentalType id =>
      rw [hnode] at hu
      cases hu
    | pointerType target =>
      rw [hnode] at hu
      obtain rfl := List.mem_singleton.mp hu
      exact List.mem_singleton_self _
    | pointerToMemberType target cls =>
      simp only [hnode] at hu
      rcases List.mem_cons.mp hu with rfl | hu
      · exact List.mem_cons_self
      · obtain rfl := List.mem_singleton.mp hu
        exact List.mem_cons_of_mem _ (List.mem_singleton_self _)
    | referenceType target =>
      rw [hnode] at hu
      obtain rfl := List.mem_singleton.mp hu
      exact List.mem_singleton_self _

theorem cvRank_lt (g : Types α) (t : CvQualifiedType α) : ∀ u ∈ firsts g t,
    cvRank g u < cvRank g t := by
  intro u hu
  rcases innerTypes_of_firsts g hu with ⟨hq, rfl⟩ | hinner
  · rw [cvRank, cvRank, if_pos hq]
    simp [unqualified]
  · have hlt := g.rank_lt t.type u.type hinner
    rw [cvRank, cvRank]
    split <;> split <;> omega

/-- The set and the list hold the same types. -/
def Writer.of (l : List (CvQualifiedType α)) : Writer α := ⟨l.reverse, l⟩

theorem foldlM_of {visit : CvQualifiedType α → List (CvQualifiedType α) →
      Option (List (CvQualifiedType α))} {add : CvQualifiedType α → Writer α → Option (Writer α)}
    (h : ∀ t l, add t (.of l) = (visit t l).map .of) (ts l : List (CvQualifiedType α)) :
    ts.foldlM (fun w t => add t w) (.of l) =
      (ts.foldlM (fun l t => visit t l) l).map .of := by
  induction ts generalizing l with
  | nil => rfl
  | cons t ts ih =>
    rw [List.foldlM_cons, List.foldlM_cons, h]
    cases visit t l with
    | none => rfl
    | some l' => exact ih l'

theorem firsts_of_qualified (g : Types α) {t : CvQualifiedType α}
    (hq : (t.isConst || t.isVolatile) = true) : unqualified t.type ∈ firsts g t := by
  rw [firsts, if_pos hq]
  exact List.mem_append_left _ (List.mem_singleton_self _)

theorem firsts_of_parent (g : Types α) {t : CvQualifiedType α}
    (hq : ¬ (t.isConst || t.isVolatile) = true) {name : String} {copyable : Bool}
    {parents : List α} {p : α} (hnode : g.node t.type = .classType name copyable parents)
    (hp : p ∈ parents) : unqualified p ∈ firsts g t := by
  have hunqualified : (!t.isConst && !t.isVolatile) = true := by
    rw [← Bool.not_or, Bool.eq_false_iff.mpr hq]
    rfl
  rw [firsts, if_neg hq, List.nil_append, hnode]
  simp only [hunqualified, if_true]
  exact List.mem_map_of_mem hp

/-- The code that initializes a type takes what is added before it. -/
theorem firsts_of_used (g : Types α) {t u : CvQualifiedType α}
    (hu : Piece.used u ∈ writeInitialization g t) : u ∈ firsts g t := by
  have hinner : ∀ {l : List (CvQualifiedType α)}, u ∈ l →
      u ∈ (if (t.isConst || t.isVolatile) = true then [unqualified t.type] else []) ++ l :=
    fun h => List.mem_append_right _ h
  rw [writeInitialization] at hu
  cases hnode : g.node t.type with
  | classType name copyable parents =>
    simp only [hnode] at hu
    split at hu
    · rename_i hq
      have hparent : ∃ p ∈ parents, u = unqualified p := by simpa using hu
      obtain ⟨p, hp, rfl⟩ := hparent
      refine firsts_of_parent g (fun h => ?_) hnode hp
      rw [← Bool.not_or, h] at hq
      cases hq
    · simp at hu
  | arrayType e n =>
    obtain rfl : u = e := by simpa [hnode] using hu
    rw [firsts, hnode]
    exact hinner (List.mem_singleton_self _)
  | enumerationType name => simp [hnode] at hu
  | fundamentalType id => simp [hnode] at hu
  | functionType r args =>
    have hused : u ∈ args ∨ u = r := by simpa [hnode] using hu
    rw [firsts, hnode]
    rcases hused with hargs | rfl
    · exact hinner (List.mem_cons_of_mem _ hargs)
    · exact hinner List.mem_cons_self
  | pointerType target =>
    obtain rfl : u = target := by simpa [hnode] using hu
    rw [firsts, hnode]
    exact hinner (List.mem_singleton_self _)
  | pointerToMemberType target cls =>
    have hused : u = target ∨ u = unqualified cls := by simpa [hnode] using hu
    rw [firsts, hnode]
    rcases hused with rfl | rfl
    · exact hinner List.mem_cons_self
    · exact hinner (List.mem_cons_of_mem _ (List.mem_singleton_self _))
  | referenceType target =>
    obtain rfl : u = target := by simpa [hnode] using hu
    rw [firsts, hnode]
    exact hinner (List.mem_singleton_self _)

/-- What a type mentions stands before it where what is added first does. -/
theorem before_of_mentions {g : Types α} {l before after : List (CvQualifiedType α)}
    (h : Ordered (firsts g) l) {t u : CvQualifiedType α} (hl : l = before ++ t :: after)
    (hu : Mentions g t u) : u ∈ before := by
  cases hu with
  | written hused => exact h.before before t after hl u (firsts_of_used g hused)
  | unqualified hq =>
    exact h.before before t after hl _ (firsts_of_qualified g (by simpa using hq))
  | parent hnode hp =>
    by_cases hq : (t.isConst || t.isVolatile) = true
    · -- The parents come before the unqualified class, which comes before this one.
      have hmem := h.before before t after hl _ (firsts_of_qualified g hq)
      obtain ⟨before', after', rfl⟩ := List.append_of_mem hmem
      have hl' : l = before' ++ unqualified t.type :: (after' ++ t :: after) := by
        rw [hl, List.append_assoc, List.cons_append]
      have hparent := firsts_of_parent g (t := unqualified t.type) Bool.false_ne_true hnode hp
      exact List.mem_append_left _ (h.before _ _ _ hl' _ hparent)
    · exact h.before before t after hl _ (firsts_of_parent g hq hnode hp)

variable [DecidableEq α]

theorem add_succ (g : Types α) (fuel : Nat) (t : CvQualifiedType α) (w : Writer α) :
    add g (fuel + 1) t w = if t ∈ w.typesAdded then some w
      else ((firsts g t).foldlM (fun w u => add g fuel u w) w).map fun w =>
        ⟨t :: w.typesAdded, w.typeOrdering ++ [t]⟩ := by
  rw [add]
  refine if_congr Iff.rfl rfl ?_
  rw [firsts, List.foldlM_append]
  by_cases hq : (t.isConst || t.isVolatile) = true
  · have hnot : ¬ (!t.isConst && !t.isVolatile) = true := by
      rw [← Bool.not_or, hq]
      exact Bool.false_ne_true
    simp only [if_pos hq, if_neg hnot]
    cases g.node t.type <;>
      simp only [addFunctionTypes, Option.map_eq_bind, Function.comp_def,
        Option.bind_eq_bind, Option.bind_assoc, List.foldlM_cons, List.foldlM_nil,
        Option.pure_def, Option.bind_some]
  · have hunqualified : (!t.isConst && !t.isVolatile) = true := by
      rw [← Bool.not_or, Bool.eq_false_iff.mpr hq]
      rfl
    simp only [if_neg hq, if_pos hunqualified]
    cases g.node t.type <;>
      simp only [addFunctionTypes, Option.map_eq_bind, Function.comp_def,
        Option.bind_eq_bind, Option.bind_assoc, List.foldlM_cons, List.foldlM_nil,
        List.foldlM_map, Option.pure_def, Option.bind_some]

/-- `Add` is a visit of the type. -/
theorem add_of (g : Types α) (fuel : Nat) (t : CvQualifiedType α) (l : List (CvQualifiedType α)) :
    add g fuel t (.of l) = (visit (firsts g) fuel t l).map .of := by
  induction fuel generalizing t l with
  | zero => rfl
  | succ fuel ih =>
    rw [add_succ, visit]
    by_cases ht : t ∈ l
    · have hadded : t ∈ (Writer.of l).typesAdded := List.mem_reverse.mpr ht
      rw [if_pos ht, if_pos hadded]
      rfl
    · have hadded : t ∉ (Writer.of l).typesAdded := fun h => ht (List.mem_reverse.mp h)
      rw [if_neg ht, if_neg hadded, foldlM_of ih, Option.map_map, Option.map_map]
      refine Option.map_congr fun l' _ => ?_
      simp [Writer.of]

/-- Calls of `Add` end with a list in which everything stands behind what is added before it. -/
theorem addAll_spec (g : Types α) (calls : List (CvQualifiedType α)) :
    Enough fun fuel => ∃ l, addAll g fuel calls {} = some (.of l) ∧ Ordered (firsts g) l ∧
      ∀ t ∈ calls, t ∈ l := by
  have hvisits := visits_spec (cvRank_lt g) calls (ordered_nil : Ordered (firsts g) [])
  refine hvisits.mono ?_
  rintro fuel ⟨l, hfold, hordered, hmem⟩
  have hadd := foldlM_of (add_of g fuel) calls []
  rw [hfold] at hadd
  exact ⟨l, hadd, hordered, hmem⟩

inductive ArgumentType where
  | base | derived | result | pointer | function
  deriving DecidableEq

/-- `class D : B` and the type `int (D const*)`. -/
def pointerArgument : Types ArgumentType where
  node
    | .base => .classType "B" true []
    | .derived => .classType "D" true [.base]
    | .result => .fundamentalType .int
    | .pointer => .pointerType ⟨.derived, true, false⟩
    | .function => .functionType ⟨.result, false, false⟩ [⟨.pointer, false, false⟩]
  rank
    | .base | .result => 0
    | .derived => 1
    | .pointer => 2
    | .function => 3
  rank_lt t := by cases t <;> decide

/-- Calls of `Add` end, and leave each type once, behind all that it mentions. -/
theorem types_in_dependency_order (g : Types α) (calls : List (CvQualifiedType α)) :
    Enough fun fuel => ∃ w, addAll g fuel calls {} = some w ∧ w.typeOrdering.Nodup ∧
      (∀ t ∈ calls, t ∈ w.typeOrdering) ∧
      ∀ before t after, w.typeOrdering = before ++ t :: after →
        ∀ u, Mentions g t u → u ∈ before := by
  refine (addAll_spec g calls).mono ?_
  rintro fuel ⟨l, hadd, hordered, hmem⟩
  exact ⟨.of l, hadd, hordered.nodup, hmem, fun before t after hl u hu =>
    before_of_mentions hordered hl hu⟩

theorem types_in_dependency_order_pointerArgument : Enough fun fuel =>
    ∃ w, addAll pointerArgument fuel [⟨.function, false, false⟩] {} = some w ∧
      w.typeOrdering.Nodup ∧
      (∀ t ∈ [(⟨.function, false, false⟩ : CvQualifiedType ArgumentType)], t ∈ w.typeOrdering) ∧
      ∀ before t after, w.typeOrdering = before ++ t :: after →
        ∀ u, Mentions pointerArgument t u → u ∈ before :=
  types_in_dependency_order pointerArgument [⟨.function, false, false⟩]

end Order

end CableSwig.Generators.CvTypeWriter
