import NetState.Ip.Basic
import NetState.Text.Numeral

/-!
The text of addresses.

Version 4 is four decimal numbers below 256 without leading zeros, joined by dots. Version 6 is
eight groups of up to four hexadecimal digits joined by colons, where two colons stand for one or
more zero groups and the last two groups may be written as a version 4 address. The printer uses
lower case and writes two colons for the longest run of at least two zero groups, the first such run
if there are several; addresses that map version 4 end in dotted form and no others do.
-/

namespace NetState.Ip

open NetState.Text

/-- The text of four octets, dotted. -/
def dotted (bits : BitVec 32) : List Char :=
  let octet (k : Nat) := decimal (bits.toNat >>> (8 * k) % 256)
  octet 3 ++ '.' :: octet 2 ++ '.' :: octet 1 ++ '.' :: octet 0

/-- The eight 16-bit groups of a version 6 address, first to last. -/
def groups (bits : BitVec 128) : List Nat :=
  (List.range 8).map fun k => bits.toNat >>> (16 * (7 - k)) % 65536

/-- Groups in hexadecimal, joined by colons. -/
def joinGroups : List Nat → List Char
  | [] => []
  | [group] => hexadecimal group
  | group :: rest => hexadecimal group ++ ':' :: joinGroups rest

/-- A run of groups: where it starts and how many there are. -/
structure Run where
  start : Nat
  length : Nat
  deriving DecidableEq, Repr

/-- The longest run of zero groups at `index` or later, or `best` if none is longer, where `current`
is the run of zeros that ends at `index`. -/
def longestZeros (index : Nat) (current best : Run) : List Nat → Run
  | [] => best
  | group :: rest =>
    if group = 0 then
      let grown : Run := ⟨if current.length = 0 then index else current.start, current.length + 1⟩
      longestZeros (index + 1) grown (if best.length < grown.length then grown else best) rest
    else longestZeros (index + 1) ⟨0, 0⟩ best rest

/-- The text of a version 6 address that maps no version 4 address. -/
def compressed (parts : List Nat) : List Char :=
  let zeros := longestZeros 0 ⟨0, 0⟩ ⟨0, 0⟩ parts
  if 1 < zeros.length then
    joinGroups (parts.take zeros.start) ++ ':' :: ':' ::
      joinGroups (parts.drop (zeros.start + zeros.length))
  else joinGroups parts

/-- The version 4 address that a version 6 address maps, if it does. -/
def mapped? (bits : BitVec 128) : Option (BitVec 32) :=
  if bits.toNat >>> 32 = 0xFFFF then some (BitVec.ofNat 32 bits.toNat) else none

def chars : Ip → List Char
  | v4 bits => dotted bits
  | v6 bits =>
    match mapped? bits with
    | some inner => "::ffff:".toList ++ dotted inner
    | none => compressed (groups bits)

/-- The text of an address. -/
def text (address : Ip) : String :=
  String.ofList address.chars

/-- A number of one to `most` digits at the start of a text, and what follows it. Fewer or more
digits in a row than that are refused. -/
def readDigits? (radix most : Nat) (text : List Char) : Option (List Char × Nat × List Char) :=
  let digits := text.takeWhile fun c => (digit? radix c).isSome
  if digits.isEmpty || most < digits.length then none
  else (digits? radix digits).map fun value => (digits, value, text.drop digits.length)

/-- One octet in decimal, without a leading zero unless it is zero. -/
def readOctet? (text : List Char) : Option (Nat × List Char) :=
  (readDigits? 10 3 text).bind fun (digits, value, rest) =>
    if 255 < value || (1 < digits.length && digits.head? == some '0') then none
    else some (value, rest)

/-- What follows the mark at the start of a text. -/
def skip? (mark : Char) : List Char → Option (List Char)
  | [] => none
  | c :: rest => if c = mark then some rest else none

/-- A dotted address at the start of a text, and what follows it. -/
def readDotted? (text : List Char) : Option (BitVec 32 × List Char) := do
  let (a, text) ← readOctet? text
  let (b, text) ← readOctet? (← skip? '.' text)
  let (c, text) ← readOctet? (← skip? '.' text)
  let (d, text) ← readOctet? (← skip? '.' text)
  return (BitVec.ofNat 32 (((a * 256 + b) * 256 + c) * 256 + d), text)

/-- One group in hexadecimal. -/
def readGroup? (text : List Char) : Option (Nat × List Char) :=
  (readDigits? 16 4 text).map fun (_, value, rest) => (value, rest)

/-- Groups read at the start of a text. -/
structure Groups where
  /-- The groups read, first to last. -/
  values : List Nat
  /-- Whether the last two were written as a version 4 address. -/
  embedded : Bool
  rest : List Char

/-- At most `limit` groups joined by colons, the first of them preceded by a colon unless `first`.
A dotted address ends them and counts as two; where a colon has no group after it the text from that
colon on is left. -/
def readGroups (first : Bool) : (limit : Nat) → List Char → Groups
  | 0, text => ⟨[], false, text⟩
  | limit + 1, text =>
    let after := if first then some text else skip? ':' text
    match if 1 ≤ limit then after.bind readDotted? else none with
    | some (bits, rest) => ⟨[bits.toNat / 65536, bits.toNat % 65536], true, rest⟩
    | none =>
      match after.bind readGroup? with
      | none => ⟨[], false, text⟩
      | some (group, rest) =>
        let more := readGroups false limit rest
        ⟨group :: more.values, more.embedded, more.rest⟩

/-- The address with the given groups. -/
def ofGroups (parts : List Nat) : BitVec 128 :=
  BitVec.ofNat 128 (parts.foldl (fun value group => value * 65536 + group) 0)

/-- A version 6 address at the start of a text, and what follows it. The zeros that two colons stand
for fill the groups up to eight. -/
def readV6? (text : List Char) : Option (BitVec 128 × List Char) :=
  let front := readGroups true 8 text
  if front.values.length = 8 then some (ofGroups front.values, front.rest)
  else if front.embedded then none
  else
    ((skip? ':' front.rest).bind (skip? ':')).map fun text =>
      let back := readGroups true (7 - front.values.length) text
      let zeros := List.replicate (8 - front.values.length - back.values.length) 0
      (ofGroups (front.values ++ zeros ++ back.values), back.rest)

/-- The address a text spells, if it spells one and nothing else. -/
def ofChars? (text : List Char) : Option Ip :=
  match readDotted? text with
  | some (bits, rest) => if rest.isEmpty then some (v4 bits) else none
  | none =>
    match readV6? text with
    | some (bits, rest) => if rest.isEmpty then some (v6 bits) else none
    | none => none

def ofText? (text : String) : Option Ip :=
  ofChars? text.toList

end NetState.Ip
