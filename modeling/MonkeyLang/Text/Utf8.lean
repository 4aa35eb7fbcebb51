import MonkeyLang.Text.Quoted

/-! Strict UTF-8. A byte sequence is either the encoding of a list of characters, or it has a first flaw: a byte
that starts nothing, bytes that cannot go on as they do, or an end in the middle of a character. -/

namespace MonkeyLang.Text.Utf8

inductive Reason
  | invalidStart
  | invalidContinuation
  | unexpectedEnd
deriving DecidableEq

def Reason.text : Reason → String
  | .invalidStart => "invalid start byte"
  | .invalidContinuation => "invalid continuation byte"
  | .unexpectedEnd => "unexpected end of data"

/-- The first flaw: where its bytes start, how many they are, and the first of them. -/
structure Flaw where
  reason : Reason
  position : Nat
  count : Nat
  byte : UInt8
deriving DecidableEq

/-- A flaw of one byte names the byte, a longer one the range it fills. -/
def Flaw.message (flaw : Flaw) : String :=
  let place :=
    if flaw.count = 1 then
      "byte 0x" ++ String.ofList (hexadecimal 2 flaw.byte.toNat) ++ " in position " ++ toString flaw.position
    else "bytes in position " ++ toString flaw.position ++ "-" ++ toString (flaw.position + flaw.count - 1)
  "'utf-8' codec can't decode " ++ place ++ ": " ++ flaw.reason.text

/-- One character read from the front of the bytes, or the flaw there with the number of its bytes. -/
inductive Step
  | done
  | char (c : Char) (width : Nat)
  | flaw (reason : Reason) (count : Nat)

def isContinuation (b : UInt8) : Bool := 0x80 ≤ b && b ≤ 0xBF

/-- The second byte of a longer character, bounded below against encodings that are too long and above
against surrogates and code points past the last one. -/
def isSecond (first second : UInt8) : Bool :=
  isContinuation second && !(first == 0xE0 && second < 0xA0) && !(first == 0xED && 0xA0 ≤ second) &&
    !(first == 0xF0 && second < 0x90) && !(first == 0xF4 && 0x90 ≤ second)

/-- The number of bytes that a character with this first byte has; none if no character has it. -/
def width? (first : UInt8) : Option Nat :=
  if first < 0x80 then some 1
  else if first < 0xC2 then none
  else if first < 0xE0 then some 2
  else if first < 0xF0 then some 3
  else if first < 0xF5 then some 4
  else none

/-- How many of the bytes after the first one go on with the character, at most as many as it needs. -/
def continued (first : UInt8) (needed : Nat) (rest : List UInt8) : Nat :=
  match rest with
  | [] => 0
  | second :: others =>
    if needed = 0 || !isSecond first second then 0
    else 1 + ((others.take (needed - 1)).takeWhile isContinuation).length

/-- The bits of the first byte that belong to the code point. -/
def leadingBits (first : UInt8) (width : Nat) : Nat :=
  match width with
  | 2 => first.toNat % 32
  | 3 => first.toNat % 16
  | 4 => first.toNat % 8
  | _ => first.toNat

/-- The code point of a character with this first byte and these others, each of which adds six bits. -/
def codePoint (first : UInt8) (width : Nat) (others : List UInt8) : Nat :=
  others.foldl (fun n b => n * 64 + b.toNat % 64) (leadingBits first width)

def step : List UInt8 → Step
  | [] => .done
  | first :: rest =>
    match width? first with
    | none => .flaw .invalidStart 1
    | some width =>
      let found := continued first (width - 1) rest
      if found = width - 1 then .char (Char.ofNat (codePoint first width (rest.take found))) width
      else if found = rest.length then .flaw .unexpectedEnd (found + 1)
      else .flaw .invalidContinuation (found + 1)

/-- Reads characters from the bytes, which start at the given position of the whole; `read` holds the characters
before them, the last one first. -/
def decodeFrom (position : Nat) (read : List Char) (bytes : List UInt8) : Except Flaw (List Char) :=
  match bytes with
  | [] => .ok read.reverse
  | first :: rest =>
    match step (first :: rest) with
    | .done => .ok read.reverse
    | .char c width => decodeFrom (position + width) (c :: read) (rest.drop (width - 1))
    | .flaw reason count => .error ⟨reason, position, count, first⟩
termination_by bytes.length
decreasing_by simp only [List.length_drop, List.length_cons]; omega

/-- The text that the bytes encode, or their first flaw. -/
def decode (bytes : List UInt8) : Except Flaw (List Char) := decodeFrom 0 [] bytes

end MonkeyLang.Text.Utf8

namespace MonkeyLang.Text

/-- Every line ends in a line feed: a carriage return, with or without a line feed after it, becomes one. -/
def unifyNewlines : List Char → List Char
  | '\r' :: '\n' :: rest => '\n' :: unifyNewlines rest
  | '\r' :: rest => '\n' :: unifyNewlines rest
  | c :: rest => c :: unifyNewlines rest
  | [] => []

end MonkeyLang.Text
