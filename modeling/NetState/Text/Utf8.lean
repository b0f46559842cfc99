import NetState.Bytes
import NetState.Text.Numeral

namespace NetState.Text.Utf8

/-- What keeps an octet string from being text: at octet `index` a sequence starts of which `length`
octets are no beginning of a character followed by more, or which the string ends within. -/
inductive Flaw where
  | invalid (index length : Nat)
  | incomplete (index : Nat)
  deriving DecidableEq, Repr

def Flaw.message : Flaw → String
  | .invalid index length =>
    "invalid utf-8 sequence of " ++ toString length ++ " bytes from index " ++ toString index
  | .incomplete index => "incomplete utf-8 byte sequence from index " ++ toString index

def encode (text : String) : Bytes :=
  text.toList.flatMap String.utf8EncodeChar

/-- Whether an octet is one of those that continue a sequence. -/
def isContinuation (octet : UInt8) : Bool :=
  0x80 ≤ octet && octet ≤ 0xBF

/-- Whether `second` may follow the leading octet `first` of a longer sequence: overlong forms,
surrogates and code points past the last one are ruled out here. -/
def secondFits (first second : UInt8) : Bool :=
  isContinuation second &&
    (first != 0xE0 || 0xA0 ≤ second) &&
    (first != 0xED || second ≤ 0x9F) &&
    (first != 0xF0 || 0x90 ≤ second) &&
    (first != 0xF4 || second ≤ 0x8F)

/-- The character a sequence stands for: the low bits of the leading octet, whose count depends on
the length, and six bits of each other one. -/
def assemble (first : UInt8) (others : Bytes) : Char :=
  let low := first.toNat % match others.length with
    | 0 => 0x80
    | 1 => 0x20
    | 2 => 0x10
    | _ => 0x08
  Char.ofNat (others.foldl (fun value octet => value * 64 + octet.toNat % 64) low)

/-- The characters from octet `index` on, after those already read, which come in reverse. -/
def decodeFrom (index : Nat) (seen : List Char) : Bytes → Except Flaw (List Char)
  | [] => .ok seen.reverse
  | b₀ :: r₀ =>
    if b₀ < 0x80 then decodeFrom (index + 1) (assemble b₀ [] :: seen) r₀
    else if b₀ < 0xC2 || 0xF4 < b₀ then .error (.invalid index 1)
    else match r₀ with
      | [] => .error (.incomplete index)
      | b₁ :: r₁ =>
        if !secondFits b₀ b₁ then .error (.invalid index 1)
        else if b₀ < 0xE0 then decodeFrom (index + 2) (assemble b₀ [b₁] :: seen) r₁
        else match r₁ with
          | [] => .error (.incomplete index)
          | b₂ :: r₂ =>
            if !isContinuation b₂ then .error (.invalid index 2)
            else if b₀ < 0xF0 then decodeFrom (index + 3) (assemble b₀ [b₁, b₂] :: seen) r₂
            else match r₂ with
              | [] => .error (.incomplete index)
              | b₃ :: r₃ =>
                if !isContinuation b₃ then .error (.invalid index 3)
                else decodeFrom (index + 4) (assemble b₀ [b₁, b₂, b₃] :: seen) r₃

/-- The text an octet string spells, or the first thing wrong with it. -/
def decode (bytes : Bytes) : Except Flaw String :=
  (decodeFrom 0 [] bytes).map String.ofList

/-- The number of octets a text takes. -/
def length (text : String) : Nat :=
  (encode text).length

end NetState.Text.Utf8
