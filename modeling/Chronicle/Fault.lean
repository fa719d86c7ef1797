import Chronicle.Number.Writing
import Chronicle.Text.Quoted
import Chronicle.Text.Utf8

/-!
# Faults

A fault is a failure below the interpreted program: a number that does not fit where it has to go, a
text that is no number, a part of a node that is not there.  Faults are causes; `Fault.message`
words them and `Fault.nature` groups them by what a caller may do about them.
-/

set_option autoImplicit false

namespace Chronicle

-- powers of naturals and integers are repeated products
attribute [local instance (high)] instPowNat

/-- Causes of failure below the interpreted program. -/
inductive Fault where
  /-- An integer too long to be written in decimal. -/
  | writtenDigits
  /-- A decimal numeral too long to be read as an integer. -/
  | readDigits (count : Nat)
  /-- The number that is none, where an integer is needed. -/
  | nanToInteger
  /-- An infinity, where an integer is needed. -/
  | infinityToInteger
  /-- An integer beyond the largest double. -/
  | integerToFloat
  /-- A quotient of integers beyond the largest double. -/
  | quotientToFloat
  /-- A length or position beyond what a sequence can have. -/
  | indexSize
  /-- A repetition longer than a text can be. -/
  | textSize
  /-- A code beyond the last character. -/
  | characterCode
  /-- A text that is no integer in a base; base zero is the base its first characters name. -/
  | integerText (base : Nat) (text : String)
  /-- A text that is no decimal number. -/
  | decimalText (text : String)
  /-- A number of repetitions that is negative, infinite or no number. -/
  | repeatCount (count : String)
  /-- A number of places outside zero to a hundred. -/
  | fixedPlaces (places : String)
  /-- A base outside two to thirty-six, or a number that is no integer. -/
  | radix (base : String)
  /-- Bytes that are no text. -/
  | undecodable (flaw : Utf8.Flaw)
  /-- A part that is not of the form that has the property asked for. -/
  | noProperty
  /-- A part that is not of the form that an operation needs. -/
  | wrongForm
  /-- A part that is missing from a list. -/
  | noElement
  /-- A value that contains itself. -/
  | endlessNesting
  /-- An unlimited run that went on beyond every bound. -/
  | endlessRun
  deriving DecidableEq, Repr

/-- The wording of a flaw: where it is, and its byte if it has only one. -/
def Utf8.Flaw.message (f : Flaw) : String :=
  let range :=
    if f.more == 0 then
      "byte 0x" ++ String.ofList (Text.hexDigits 2 f.byte.toNat) ++ " in position " ++
        Number.intText f.position
    else
      "bytes in position " ++ Number.intText f.position ++ "-" ++
        Number.intText ↑(f.position + f.more)
  "'utf-8' codec can't decode " ++ range ++ ": " ++ f.reason.message

namespace Fault

/-- What a caller may do about a fault. -/
inductive Nature where
  /-- A value outside the domain of an operation. -/
  | value
  /-- A result outside the range of a representation. -/
  | range
  /-- An operand of the wrong form. -/
  | form
  /-- A property that the operand does not have. -/
  | property
  /-- An element that a list does not have. -/
  | element
  /-- A bound of the interpreter itself. -/
  | bound
  deriving DecidableEq, Repr

/-- The nature of a fault. -/
def nature : Fault → Nature
  | writtenDigits | readDigits _ | nanToInteger | characterCode | integerText .. | decimalText _
  | repeatCount _ | fixedPlaces _ | radix _ | undecodable _ => .value
  | infinityToInteger | integerToFloat | quotientToFloat | indexSize | textSize => .range
  | wrongForm => .form
  | noProperty => .property
  | noElement => .element
  | endlessNesting | endlessRun => .bound

/-- The most digits of a decimal numeral that is read or written as an integer. -/
def digitLimit : Nat := 4300

/-- The wording of a fault. -/
def message : Fault → String
  | writtenDigits =>
    "Exceeds the limit (4300 digits) for integer string conversion; " ++
      "use sys.set_int_max_str_digits() to increase the limit"
  | readDigits count =>
    "Exceeds the limit (4300 digits) for integer string conversion: value has " ++
      Number.intText count ++ " digits; use sys.set_int_max_str_digits() to increase the limit"
  | nanToInteger => "cannot convert float NaN to integer"
  | infinityToInteger => "cannot convert float infinity to integer"
  | integerToFloat => "int too large to convert to float"
  | quotientToFloat => "integer division result too large for a float"
  | indexSize => "cannot fit 'int' into an index-sized integer"
  | textSize => "repeated string is too long"
  | characterCode => "chr() arg not in range(0x110000)"
  | integerText base text =>
    "invalid literal for int() with base " ++ Number.intText base ++ ": " ++
      String.ofList ((Text.quoted text).toList.take 200)
  | decimalText text => "could not convert string to float: " ++ Text.quoted text
  | repeatCount count => "Invalid repeat count: " ++ count
  | fixedPlaces places => "toFixed() digits out of range: " ++ places
  | radix base => "Unsupported radix conversion: " ++ base
  | undecodable flaw => flaw.message
  | noProperty => "no such property"
  | wrongForm => "wrong form of operand"
  | noElement => "no such element"
  | endlessNesting => "a value contains itself"
  | endlessRun => "the run does not end"

end Fault

/-- The decimal numeral of an integer, if it is not too long to be written. -/
def Number.writeInt (n : Int) : Except Fault String :=
  if n.natAbs < 10 ^ Fault.digitLimit then .ok (Number.intText n) else .error .writtenDigits

end Chronicle
