/-!
# Numerals

Decimal, octal and hexadecimal numbers as characters. Patterns hold decimal numbers (bounds, group
numbers, back references), octal and hexadecimal ones only inside escapes; output holds decimal and
hexadecimal ones.

The decimal readers and writers are the core functions `Nat.ofDigitChars` and `Nat.toDigits`, so
that their inverse law comes from the library: `decimalValue_decimal`.
-/

set_option autoImplicit false

namespace RegexDialects

/-! ## Decimal -/

/-- The largest number a pattern may state: numbers have 32 bits. -/
def maxNumber : Nat := 4294967295

/-- The decimal digits of `n`, without leading zeros. -/
def decimal (n : Nat) : List Char :=
  Nat.toDigits 10 n

/-- The number written by a run of decimal digits, leading zeros allowed. -/
def decimalValue (digits : List Char) : Nat :=
  Nat.ofDigitChars 10 digits 0

theorem decimalValue_decimal (n : Nat) : decimalValue (decimal n) = n :=
  Nat.ofDigitChars_toDigits (by decide) (by decide)

/-- The decimal digits a text starts with. -/
def digitRun (text : List Char) : List Char :=
  text.takeWhile Char.isDigit

/-- What follows the decimal digits a text starts with. -/
def afterDigits (text : List Char) : List Char :=
  text.dropWhile Char.isDigit

theorem digitRun_append_afterDigits (text : List Char) :
    digitRun text ++ afterDigits text = text :=
  List.takeWhile_append_dropWhile

theorem afterDigits_suffix (text : List Char) : afterDigits text <:+ text :=
  List.dropWhile_suffix _

/-! ## Octal and hexadecimal -/

/-- The value of an octal digit. -/
def octalDigit? (c : Char) : Option Nat :=
  if '0' ≤ c ∧ c ≤ '7' then some (c.toNat - '0'.toNat) else none

/-- The value of a hexadecimal digit of either case. -/
def hexDigit? (c : Char) : Option Nat :=
  if '0' ≤ c ∧ c ≤ '9' then some (c.toNat - '0'.toNat)
  else if 'a' ≤ c ∧ c ≤ 'f' then some (c.toNat - 'a'.toNat + 10)
  else if 'A' ≤ c ∧ c ≤ 'F' then some (c.toNat - 'A'.toNat + 10)
  else none

/-- The number whose digits, most significant first, are `digits` in base `base`. -/
def ofDigitValues (base : Nat) (digits : List Nat) : Nat :=
  digits.foldl (fun n d => n * base + d) 0

/-- The hexadecimal digits of `n` in lower case, without leading zeros. -/
def hex (n : Nat) : List Char :=
  Nat.toDigits 16 n

/-- `digits`, filled up with zeros in front to at least `width` of them. -/
def padZeros (width : Nat) (digits : List Char) : List Char :=
  List.replicate (width - digits.length) '0' ++ digits

/-- The character with the code point `n`, if there is one: surrogates are none. -/
def charOfNat? (n : Nat) : Option Char :=
  if h : n.isValidChar then some (Char.ofNatAux n h) else none

end RegexDialects
