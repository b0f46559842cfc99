import NetState.Text.Blank

namespace NetState.Text

/-- The value of a digit in `radix`, which is at most sixteen. -/
def digit? (radix : Nat) (c : Char) : Option Nat :=
  let value :=
    if '0' ≤ c ∧ c ≤ '9' then some (c.toNat - '0'.toNat)
    else if 'a' ≤ c ∧ c ≤ 'f' then some (c.toNat - 'a'.toNat + 10)
    else if 'A' ≤ c ∧ c ≤ 'F' then some (c.toNat - 'A'.toNat + 10)
    else none
  value.filter (· < radix)

/-- The number whose digits follow those of `high`, most significant first. -/
def digitsAfter? (radix high : Nat) : List Char → Option Nat
  | [] => some high
  | c :: rest => (digit? radix c).bind fun value => digitsAfter? radix (high * radix + value) rest

/-- The number written by one or more digits. -/
def digits? (radix : Nat) (text : List Char) : Option Nat :=
  if text.isEmpty then none else digitsAfter? radix 0 text

/-- The number a numeral stands for, if it is below `limit`. -/
def numeral? (radix limit : Nat) (text : List Char) : Option Nat :=
  let digits := match text with
    | '+' :: rest => rest
    | _ => text
  (digits? radix digits).filter (· < limit)

def numeralUInt8? (text : List Char) : Option UInt8 :=
  (numeral? 10 UInt8.size text).map UInt8.ofNat

def numeralUInt32? (text : List Char) : Option UInt32 :=
  (numeral? 10 UInt32.size text).map UInt32.ofNat

/-- The decimal text of a number. -/
def decimal (n : Nat) : List Char :=
  Nat.toDigits 10 n

/-- The hexadecimal text of a number, in lower case. -/
def hexadecimal (n : Nat) : List Char :=
  Nat.toDigits 16 n

/-- The decimal text of an integer, with a minus sign if it is negative. -/
def signed (n : Int) : List Char :=
  if n < 0 then '-' :: decimal n.natAbs else decimal n.natAbs

end NetState.Text
