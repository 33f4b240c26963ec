import CableSwig.Lib.Numerals

/-!
# Numbers in a dump

The values of enumerators, the lengths of arrays and the offsets of fields, from the constants of
the compiler through the texts of attributes to the members that hold them in the end.
-/
namespace CableSwig.Parsers.CarriedNumbers

open CableSwig.Lib.Numerals
open CableSwig.Lib.StdString

section Writing

/-- An `INTEGER_CST` has two words, the lower one without a sign. -/
structure IntegerCst where
  low : Nat
  high : Int

/-- A constant of a type in which the value fits. -/
def integerCst (v : Int) : IntegerCst where
  low := (v % 2 ^ 64).toNat
  high := v / 2 ^ 64

/-- A constant of `sizetype`, which `force_fit_type` extends by its sign although the type is
unsigned. -/
def sizeCst (v : Int) : IntegerCst where
  low := (v % 2 ^ 64).toNat
  high := if (v % 2 ^ 64).toNat < 2 ^ 63 then 0 else -1

/-- `host_integerp`, for a number that is not to be negative. -/
def hostIntegerp (t : IntegerCst) : Bool := t.high = 0

/-- The `init` attribute of an `EnumValue`, which is printed from an `int`. -/
def xmlOutputInit (t : IntegerCst) : Text := decimal (toInt t.low)

/-- `pp_c_integer_constant`, for a type that is unsigned and not one of the `long` types. -/
def ppIntegerConstant (t : IntegerCst) : Text :=
  (if t.high = 0 then decimal ((t.low : Int).bmod (2 ^ 64))
    else ['0', 'x'] ++ Nat.toDigits 16 (t.high % 2 ^ 64).toNat ++
      (Nat.toDigits 16 t.low).leftpad 16 '0') ++ ['u']

/-- The `max` attribute of an array with a domain, which is printed as an expression. Its digits
have nothing to escape. -/
def xmlPrintMax (maxValue : IntegerCst) : Text := ppIntegerConstant maxValue

/-- The `max` attribute of an array with this many elements, which is empty without a domain. -/
def arrayMax : Option Nat → Text
  | none => []
  | some length => xmlPrintMax (sizeCst (length - 1))

/-- The `offset` attribute of a field, if it has one. -/
def xmlPrintOffset (byteOfs bitOfs : IntegerCst) : Option Text :=
  if hostIntegerp byteOfs ∧ hostIntegerp bitOfs then
    some (unsignedDecimal ((byteOfs.low * 8 + bitOfs.low) % 2 ^ 64))
  else none

end Writing

section Reading

/-- What `AddEnumeration` adds for an `init` attribute. -/
def addEnumValue (initStr : Text) : Option Int := scanInt initStr

/-- The length that `AddArrayType` makes of a `max` attribute. -/
def setLength (maxStr : Text) : Option Nat :=
  if maxStr.length > 0 then (scanUnsignedLong maxStr).map fun max => (max + 1) % 2 ^ 64
  else some 0

/-- The offset of a new field is zero until `AddField` parses one. -/
def parseOffset : Option Text → Int
  | some offset => atoi offset
  | none => 0

end Reading

section Carrying

/-- The numbers that are carried, as they are in the program: the value of an enumerator, the
length of an array, and the offset of a field in bytes with the bits left over. -/
inductive Number
  | enumerator (value : Int)
  | arrayLength (length : Nat)
  | fieldOffset (byteOfs bitOfs : Nat)

namespace Number

def value : Number → Int
  | enumerator value => value
  | arrayLength length => length
  | fieldOffset byteOfs bitOfs => byteOfs * 8 + bitOfs

/-- What is written, read and stored for a number, unless an error is reported. -/
def stored : Number → Option Int
  | enumerator value => addEnumValue (xmlOutputInit (integerCst value))
  | arrayLength length => (setLength (xmlPrintMax (sizeCst (length - 1)))).map Int.ofNat
  | fieldOffset byteOfs bitOfs =>
    some (parseOffset (xmlPrintOffset (sizeCst byteOfs) (integerCst bitOfs)))

/-- The member that holds the number can represent the value. -/
def Representable : Number → Prop
  | enumerator value => -2 ^ 31 ≤ value ∧ value < 2 ^ 31
  | arrayLength length => length < 2 ^ 64
  | fieldOffset byteOfs bitOfs => byteOfs * 8 + bitOfs < 2 ^ 31

/-- The value is stored as it was, or an error is reported because it cannot be. -/
def CarriedWithoutLoss (n : Number) : Prop :=
  n.stored = some n.value ∨ n.stored = none ∧ ¬ n.Representable

/-- An enumerator is an `int`, an array has at least one element and not more than half of what
`unsigned long` counts, and an offset is an `int`. -/
def Small : Number → Prop
  | enumerator value => -2 ^ 31 ≤ value ∧ value < 2 ^ 31
  | arrayLength length => 1 ≤ length ∧ length ≤ 2 ^ 63
  | fieldOffset byteOfs bitOfs => byteOfs * 8 + bitOfs < 2 ^ 31

end Number

theorem scanInt_decimal {v : Int} (h : -2 ^ 31 ≤ v ∧ v < 2 ^ 31) :
    scanInt (decimal v) = some v := by
  have hread : readDecimal (decimal v ++ []) = some v := readDecimal_decimal v (by simp)
  rw [List.append_nil] at hread
  rw [scanInt, hread, Option.map_some, clampLong_of_bounds (by omega),
    (toInt_eq_self_iff v).mpr h]

theorem stored_enumerator (value : Int) :
    (Number.enumerator value).stored = some (toInt value) := by
  have hlow : (((value % 2 ^ 64).toNat : Nat) : Int) = value % 2 ^ 64 :=
    Int.toNat_of_nonneg (by omega)
  have hmod : value % 2 ^ 64 % ((2 ^ 32 : Nat) : Int) = value % ((2 ^ 32 : Nat) : Int) := by omega
  have hint : toInt (value % 2 ^ 64) = toInt value := by
    rw [toInt, toInt, Int.bmod_def, Int.bmod_def, hmod]
  rw [Number.stored, addEnumValue, xmlOutputInit, integerCst, hlow, hint]
  exact scanInt_decimal (toInt_bounds value)

/-- The suffix is no digit, so what was printed in decimal digits is read back. -/
theorem scanUnsignedLong_decimal {n : Nat} (h : n < 2 ^ 64) :
    scanUnsignedLong (decimal n ++ ['u']) = some n := by
  have hread : readDecimal (decimal n ++ ['u']) = some (n : Int) :=
    readDecimal_decimal n (by simp)
  have hval :
      (if (n : Int).natAbs < 2 ^ 64 then ((n : Int) % 2 ^ 64).toNat else 2 ^ 64 - 1) = n := by
    rw [if_pos (by omega)]
    omega
  rw [scanUnsignedLong, hread, Option.map_some, hval]

/-- Of hexadecimal digits the leading zero is all that is read. -/
theorem scanUnsignedLong_hexadecimal (s : Text) :
    scanUnsignedLong ('0' :: 'x' :: s) = some 0 := by
  have hread : readDecimal ('0' :: 'x' :: s) = some 0 := by
    rw [readDecimal_digits (by decide)]
    rfl
  rw [scanUnsignedLong, hread]
  rfl

/-- The length that is read for an array. Where the index before it has the sign bit of the lower
word, it is written in hexadecimal digits, and read as 0. -/
def readLength : Option Nat → Nat
  | none => 0
  | some length =>
    if (((length : Int) - 1) % 2 ^ 64).toNat < 2 ^ 63 then
      (((length : Int) - 1) % 2 ^ 64).toNat + 1
    else 1

theorem readLength_eq_iff (length : Nat) :
    readLength (some length) = length ↔ 1 ≤ length ∧ length ≤ 2 ^ 63 := by
  rw [readLength]
  split <;> omega

theorem setLength_xmlPrintMax (length : Nat) :
    setLength (xmlPrintMax (sizeCst (length - 1))) = some (readLength (some length)) := by
  rw [xmlPrintMax, ppIntegerConstant, sizeCst, readLength]
  split
  · next h =>
    have hlow : ((((length : Int) - 1) % 2 ^ 64).toNat : Int).bmod (2 ^ 64) =
        ((((length : Int) - 1) % 2 ^ 64).toNat : Int) := Int.bmod_eq_of_le (by omega) (by omega)
    rw [if_pos rfl, hlow, setLength, if_pos (by simp), scanUnsignedLong_decimal (by omega),
      Option.map_some, Nat.mod_eq_of_lt (by omega)]
  · rw [if_neg (by simp), setLength, if_pos (by simp)]
    simp only [List.cons_append, List.nil_append, scanUnsignedLong_hexadecimal]
    rfl

/-- `AddArrayType` on what has been written for an array. -/
theorem setLength_arrayMax (length : Option Nat) :
    setLength (arrayMax length) = some (readLength length) := by
  cases length with
  | none => rfl
  | some length => exact setLength_xmlPrintMax length

theorem stored_arrayLength (length : Nat) :
    (Number.arrayLength length).stored = some (readLength (some length) : Int) := by
  rw [Number.stored, setLength_xmlPrintMax]
  rfl

theorem parseOffset_decimal {n : Nat} (h : n < 2 ^ 31) :
    parseOffset (some (unsignedDecimal n)) = n := by
  have hrepr : unsignedDecimal n = decimal n ++ [] := by
    rw [unsignedDecimal, decimal, Int.repr_eq_if, if_pos (Int.natCast_nonneg n), Int.toNat_natCast,
      Nat.toList_repr, List.append_nil]
  rw [parseOffset, atoi, hrepr, readDecimal_decimal n (by simp), Option.getD_some,
    clampLong_of_bounds (by omega), (toInt_eq_self_iff _).mpr (by omega)]

/-- Whatever is written for an offset, an `int` is stored. -/
theorem parseOffset_bounds (offset : Option Text) :
    -2 ^ 31 ≤ parseOffset offset ∧ parseOffset offset < 2 ^ 31 := by
  cases offset with
  | none => decide
  | some s => exact toInt_bounds _

theorem stored_fieldOffset {byteOfs bitOfs : Nat} (h : byteOfs * 8 + bitOfs < 2 ^ 31) :
    (Number.fieldOffset byteOfs bitOfs).stored = some ((byteOfs * 8 + bitOfs : Nat) : Int) := by
  have hbyte : (sizeCst byteOfs).low = byteOfs ∧ (sizeCst byteOfs).high = 0 := by
    rw [sizeCst]
    refine ⟨by dsimp only; omega, if_pos (by omega)⟩
  have hbit : (integerCst bitOfs).low = bitOfs ∧ (integerCst bitOfs).high = 0 := by
    rw [integerCst]
    refine ⟨by dsimp only; omega, by dsimp only; omega⟩
  rw [Number.stored, xmlPrintOffset, hostIntegerp, hostIntegerp, hbyte.1, hbyte.2, hbit.1, hbit.2,
    if_pos ⟨by decide, by decide⟩, Nat.mod_eq_of_lt (by omega), parseOffset_decimal h]

theorem carried_iff_of_stored {n : Number} {v : Int} (h : n.stored = some v) :
    n.CarriedWithoutLoss ↔ v = n.value := by
  rw [Number.CarriedWithoutLoss, h]
  simp

/-- A number is carried without loss exactly when it is small. -/
theorem carried_without_loss_iff (n : Number) : n.CarriedWithoutLoss ↔ n.Small := by
  cases n with
  | enumerator value =>
    rw [carried_iff_of_stored (stored_enumerator value)]
    exact toInt_eq_self_iff value
  | arrayLength length =>
    rw [carried_iff_of_stored (stored_arrayLength length), Number.value, Number.Small,
      Int.natCast_inj]
    exact readLength_eq_iff length
  | fieldOffset byteOfs bitOfs =>
    have hvalue : (Number.fieldOffset byteOfs bitOfs).value = (byteOfs * 8 + bitOfs : Nat) := by
      rw [Number.value]
      omega
    constructor
    · intro h
      have hbounds := parseOffset_bounds (xmlPrintOffset (sizeCst byteOfs) (integerCst bitOfs))
      rw [carried_iff_of_stored rfl, hvalue] at h
      rw [Number.Small]
      omega
    · intro h
      rw [carried_iff_of_stored (stored_fieldOffset h), hvalue]

/-- The first value of `unsigned int` that is no `int` becomes negative. -/
theorem large_enumerator_changed : ¬ (Number.enumerator 2147483648).CarriedWithoutLoss := by
  intro h
  rw [carried_iff_of_stored (stored_enumerator 2147483648)] at h
  exact absurd ((toInt_eq_self_iff 2147483648).mp h).2 (by decide)

end Carrying

end CableSwig.Parsers.CarriedNumbers
