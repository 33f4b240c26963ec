import CableSwig.Lib.StdString
import Mathlib.Algebra.Group.Int.Defs
import Mathlib.Algebra.Order.Group.Unbundled.Int

/-!
# Numbers in texts

Printing and scanning numbers in the formats of the standard library, where `int` has 32 bits and
`long` has 64.
-/
namespace CableSwig.Lib.Numerals

open CableSwig.Lib.StdString

section Formats

/-- `%ld`. -/
def decimal (v : Int) : Text := v.repr.toList

/-- `%lu`. -/
def unsignedDecimal (n : Nat) : Text := Nat.toDigits 10 n

def readDigits (s : Text) : Option Nat :=
  match s.takeWhile Char.isDigit with
  | [] => none
  | digits => some (Nat.ofDigitChars 10 digits 0)

/-- The number at the start of a text, after blanks and a sign. -/
def readDecimal (s : Text) : Option Int :=
  match s.dropWhile isSpace with
  | '-' :: t => (readDigits t).map fun n => -(n : Int)
  | '+' :: t => (readDigits t).map Int.ofNat
  | t => (readDigits t).map Int.ofNat

/-- The conversion of a longer number to `int`. -/
def toInt (v : Int) : Int := v.bmod (2 ^ 32)

/-- `strtol` stops at the bounds of `long`. -/
def clampLong (v : Int) : Int := max (-2 ^ 63) (min v (2 ^ 63 - 1))

/-- `sscanf` with `%d`. -/
def scanInt (s : Text) : Option Int := (readDecimal s).map fun v => toInt (clampLong v)

/-- `sscanf` with `%lu`, which takes a sign and stops at the bound of `unsigned long`. -/
def scanUnsignedLong (s : Text) : Option Nat :=
  (readDecimal s).map fun v => if v.natAbs < 2 ^ 64 then (v % 2 ^ 64).toNat else 2 ^ 64 - 1

def atoi (s : Text) : Int := toInt (clampLong ((readDecimal s).getD 0))

end Formats

section ReadingBack

theorem toInt_eq_self_iff (v : Int) : toInt v = v ↔ -2 ^ 31 ≤ v ∧ v < 2 ^ 31 := by
  constructor
  · intro h
    have hle := Int.le_bmod (x := v) (m := 2 ^ 32) (by decide)
    have hlt := Int.bmod_lt (x := v) (m := 2 ^ 32) (by decide)
    rw [toInt] at h
    omega
  · intro h
    exact Int.bmod_eq_of_le (by omega) (by omega)

theorem toInt_bounds (v : Int) : -2 ^ 31 ≤ toInt v ∧ toInt v < 2 ^ 31 := by
  have hle := Int.le_bmod (x := v) (m := 2 ^ 32) (by decide)
  have hlt := Int.bmod_lt (x := v) (m := 2 ^ 32) (by decide)
  rw [toInt]
  omega

theorem clampLong_of_bounds {v : Int} (h : -2 ^ 63 ≤ v ∧ v < 2 ^ 63) : clampLong v = v := by
  rw [clampLong]
  omega

theorem isDigit_toDigits {n : Nat} {c : Char} (h : c ∈ Nat.toDigits 10 n) : c.isDigit = true :=
  Nat.isDigit_of_mem_toDigits (by decide) (by decide) h

theorem exists_digitChar {base n : Nat} (hbase : 1 < base) {c : Char}
    (h : c ∈ Nat.toDigits base n) : ∃ d < base, c = Nat.digitChar d := by
  induction n using Nat.strong_induction_on with
  | _ n ih =>
    rw [Nat.toDigits_eq_if hbase] at h
    split at h
    · next hlt => exact ⟨n, hlt, List.mem_singleton.mp h⟩
    · next hle =>
      rcases List.mem_append.mp h with h | h
      · exact ih (n / base) (Nat.div_lt_self (by omega) hbase) h
      · exact ⟨n % base, Nat.mod_lt n (by omega), List.mem_singleton.mp h⟩

theorem readDigits_toDigits (n : Nat) {rest : Text} (hrest : ∀ c ∈ rest.head?, ¬ c.isDigit) :
    readDigits (Nat.toDigits 10 n ++ rest) = some n := by
  have hnone : rest.takeWhile Char.isDigit = [] := by
    cases rest with
    | nil => rfl
    | cons c rest => rw [List.takeWhile_cons_of_neg (hrest c rfl)]
  have htake : (Nat.toDigits 10 n ++ rest).takeWhile Char.isDigit = Nat.toDigits 10 n := by
    rw [List.takeWhile_append_of_pos fun c hc => isDigit_toDigits hc, hnone, List.append_nil]
  rw [readDigits, htake]
  split
  · next h => exact absurd h Nat.toDigits_ne_nil
  · rw [Nat.ofDigitChars_ten_toDigits]

theorem isSpace_of_isDigit {c : Char} (h : c.isDigit = true) : isSpace c = false := by
  rw [Bool.eq_false_iff]
  intro hspace
  simp only [isSpace, Bool.or_eq_true, decide_eq_true_eq] at hspace
  rcases hspace with ((((rfl | rfl) | rfl) | rfl) | rfl) | rfl
  all_goals exact absurd h (by decide)

theorem readDecimal_digits {c : Char} {s : Text} (hc : c.isDigit = true) :
    readDecimal (c :: s) = (readDigits (c :: s)).map Int.ofNat := by
  have hspace : (c :: s).dropWhile isSpace = c :: s := by
    rw [List.dropWhile_cons_of_neg (by rw [isSpace_of_isDigit hc]; decide)]
  rw [readDecimal, hspace]
  split
  · next h =>
    obtain rfl := (List.cons.inj h).1
    exact absurd hc (by decide)
  · next h =>
    obtain rfl := (List.cons.inj h).1
    exact absurd hc (by decide)
  · rfl

/-- A printed number is read back, whatever follows that is no digit. -/
theorem readDecimal_decimal (v : Int) {rest : Text} (hrest : ∀ c ∈ rest.head?, ¬ c.isDigit) :
    readDecimal (decimal v ++ rest) = some v := by
  rw [decimal, Int.repr_eq_if]
  split
  · next h =>
    rw [Nat.toList_repr]
    have hread := readDigits_toDigits v.toNat hrest
    cases hdigits : Nat.toDigits 10 v.toNat with
    | nil => exact absurd hdigits Nat.toDigits_ne_nil
    | cons c ds =>
      have hc : c.isDigit = true := isDigit_toDigits (n := v.toNat) (hdigits ▸ List.mem_cons_self)
      rw [hdigits] at hread
      rw [List.cons_append, readDecimal_digits hc, ← List.cons_append, hread, Option.map_some,
        Int.ofNat_eq_natCast, Int.toNat_of_nonneg h]
  · next h =>
    rw [String.toList_append, Nat.toList_repr, List.append_assoc]
    have hspace : ('-' :: (Nat.toDigits 10 (-v).toNat ++ rest)).dropWhile isSpace =
        '-' :: (Nat.toDigits 10 (-v).toNat ++ rest) := rfl
    change readDecimal ('-' :: (Nat.toDigits 10 (-v).toNat ++ rest)) = some v
    rw [readDecimal, hspace]
    have hneg : -((-v).toNat : Int) = v := by omega
    simp only [readDigits_toDigits _ hrest]
    exact congrArg some hneg

end ReadingBack

end CableSwig.Lib.Numerals
