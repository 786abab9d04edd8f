/-!
Contract: what a YAML scalar without quotes stands for.

Owns:
- the spellings of null and of the booleans;
- integers in four bases, and numbers with a fraction or an exponent;
- the runs of digits that are texts although they look like numbers.

Does not own: where a scalar ends in a file, or how one is quoted.
-/

namespace Solfege.Yaml

/-- What a scalar without quotes stands for. -/
inductive Scalar where
  | null
  | boolean (value : Bool)
  | integer (value : Int)
  | real
  | text
deriving DecidableEq, Repr

namespace Scalar

/-! ### Null and booleans -/

def isNull (written : String) : Bool :=
  ["", "~", "null", "Null", "NULL"].contains written

def boolean? (written : String) : Option Bool :=
  if ["true", "True", "TRUE"].contains written then
    some true
  else if ["false", "False", "FALSE"].contains written then
    some false
  else
    none

/-! ### Integers -/

/-- The value of a digit in bases up to sixteen. -/
def digitValue (character : Char) : Nat :=
  if character.isDigit then
    character.toNat - '0'.toNat
  else if 'a' ≤ character && character ≤ 'f' then
    character.toNat - 'a'.toNat + 10
  else
    character.toNat - 'A'.toNat + 10

def isDigitOf (base : Nat) (character : Char) : Bool :=
  (character.isDigit || ('a' ≤ character && character ≤ 'f') ||
    ('A' ≤ character && character ≤ 'F')) && digitValue character < base

/-- The number that a nonempty run of digits spells. -/
def digits? (base : Nat) (characters : List Char) : Option Nat :=
  if characters.isEmpty || !characters.all (isDigitOf base) then
    none
  else
    some (characters.foldl (fun value digit => base * value + digitValue digit) 0)

/-- Whether a run of decimal digits begins with a zero that it does not need. -/
def isPadded : List Char → Bool
  | '0' :: second :: rest => (second :: rest).all Char.isDigit
  | _ => false

/-- The number that an integer without its sign spells. -/
def magnitude? : List Char → Option Nat
  | '0' :: 'x' :: rest => digits? 16 rest
  | '0' :: 'o' :: rest => digits? 8 rest
  | '0' :: 'b' :: rest => digits? 2 rest
  | characters => if isPadded characters then none else digits? 10 characters

/-- The integer that a scalar without a minus sign spells, of any size. -/
def natural? : List Char → Option Nat
  | '+' :: rest => magnitude? rest
  | characters => magnitude? characters

/-- The integer that a scalar spells, of any size. -/
def integer? : List Char → Option Int
  | '-' :: rest => (magnitude? rest).map fun value => -Int.ofNat value
  | characters => (natural? characters).map Int.ofNat

/-- Whether an integer has at most 128 bits, with or without a sign. Others are numbers
of the other sort. -/
def isWithinWords (value : Int) : Bool :=
  value.natAbs ≤ Nat.pow 2 127 || (0 ≤ value && value.natAbs < Nat.pow 2 128)

/-! ### Other numbers -/

/-- A scalar without the sign in front of it. -/
def withoutSign : List Char → List Char
  | '+' :: rest => rest
  | '-' :: rest => rest
  | characters => characters

/-- A decimal number, as digits before and behind the point and a power of ten. -/
structure Decimal where
  whole : List Char
  fraction : List Char
  exponent : Int

/-- Reads the exponent of a decimal number, which may be missing. -/
def exponent? : List Char → Option Int
  | [] => some 0
  | mark :: rest =>
      if mark = 'e' || mark = 'E' then
        (digits? 10 (withoutSign rest)).map fun value =>
          if rest.head? = some '-' then -Int.ofNat value else Int.ofNat value
      else
        none

/-- Reads a decimal number without sign. A digit must stand before or behind the point. -/
def decimal? (characters : List Char) : Option Decimal :=
  let whole := characters.takeWhile Char.isDigit
  let behind := characters.dropWhile Char.isDigit
  let (fraction, suffix) :=
    match behind with
    | '.' :: rest => (rest.takeWhile Char.isDigit, rest.dropWhile Char.isDigit)
    | _ => ([], behind)
  if whole.isEmpty && fraction.isEmpty then
    none
  else
    (exponent? suffix).map fun exponent => ⟨whole, fraction, exponent⟩

/-- The least number that is too large for a double: half a step above the largest one. -/
def doubleBound : Nat := Nat.pow 2 1024 - Nat.pow 2 970

/-- Whether the nearest double to a decimal number is finite. Only numbers of 309 digits
need a comparison; shorter ones are finite and longer ones are not. -/
def Decimal.isFinite (number : Decimal) : Bool :=
  let digits := (number.whole ++ number.fraction).dropWhile fun digit => digit = '0'
  let exponent := number.exponent - number.fraction.length
  let size := digits.length + exponent
  let value := digits.foldl (fun value digit => 10 * value + digitValue digit) 0
  if digits.isEmpty || size < 309 then
    true
  else if 309 < size then
    false
  else if exponent < 0 then
    value < doubleBound * Nat.pow 10 exponent.natAbs
  else
    value * Nat.pow 10 exponent.natAbs < doubleBound

/-- Whether a scalar spells a number that is no integer: an infinity, not a number, or a
decimal number that a double can come near to. -/
def isReal (written : String) : Bool :=
  [".inf", ".Inf", ".INF", "+.inf", "+.Inf", "+.INF", "-.inf", "-.Inf", "-.INF",
    ".nan", ".NaN", ".NAN"].contains written ||
  match decimal? (withoutSign written.toList) with
  | some number => number.isFinite
  | none => false

/-! ### All scalars -/

/-- Whether a scalar is a run of decimal digits, perhaps signed, that is a text because
of the zero in front of it. -/
def isPaddedText (written : String) : Bool :=
  isPadded (withoutSign written.toList)

/-- What a scalar without quotes stands for. -/
def resolve (written : String) : Scalar :=
  if isNull written then
    null
  else
    match boolean? written with
    | some value => boolean value
    | none =>
        match (integer? written.toList).filter isWithinWords with
        | some value => integer value
        | none => if !isPaddedText written && isReal written then real else text

end Scalar

end Solfege.Yaml
