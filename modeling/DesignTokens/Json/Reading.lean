import DesignTokens.Number.Numeral
import DesignTokens.Json.Document

/-!
# Reading JSON texts

`Text.ofBytes` reads the strict grammar of RFC 8259 from UTF-8 bytes: no byte order mark, no
comments, no control characters inside quotes, nothing but blanks behind the document.  It never
fails; what is wrong is recorded in the `Document` at the place where it is found.

A reading step returns the bytes that are left, or `none` once a flaw makes it impossible to go on.
-/

namespace DesignTokens.Json

namespace Reading

abbrev Bytes := List UInt8

/-- The byte of an ASCII character. -/
def byte (c : Char) : UInt8 := c.toNat.toUInt8

def isBlank (b : UInt8) : Bool := b == 0x20 || b == 0x0A || b == 0x09 || b == 0x0D

def skipBlanks (bytes : Bytes) : Bytes := bytes.dropWhile isBlank

/-! ## Quoted texts -/

def hexDigit? (b : UInt8) : Option Nat :=
  if 0x30 ≤ b && b ≤ 0x39 then some (b.toNat - 0x30)
  else if 0x41 ≤ b && b ≤ 0x46 then some (b.toNat - 0x41 + 10)
  else if 0x61 ≤ b && b ≤ 0x66 then some (b.toNat - 0x61 + 10)
  else none

/-- The number that four hexadecimal digits write. -/
def hexValue? (a b c d : UInt8) : Option Nat := do
  let a ← hexDigit? a
  let b ← hexDigit? b
  let c ← hexDigit? c
  let d ← hexDigit? d
  return ((a * 16 + b) * 16 + c) * 16 + d

/-- The character that a backslash and one more character write. -/
def escaped? (b : UInt8) : Option UInt8 :=
  if b == byte '"' || b == byte '\\' || b == byte '/' then some b
  else if b == byte 'b' then some 0x08
  else if b == byte 'f' then some 0x0C
  else if b == byte 'n' then some 0x0A
  else if b == byte 'r' then some 0x0D
  else if b == byte 't' then some 0x09
  else none

def isHighSurrogate (unit : Nat) : Bool := 0xD800 ≤ unit && unit < 0xDC00

def isLowSurrogate (unit : Nat) : Bool := 0xDC00 ≤ unit && unit < 0xE000

/-- The character of two surrogates. -/
def joinSurrogates (high low : Nat) : Nat := 0x10000 + (high - 0xD800) * 0x400 + (low - 0xDC00)

/-- Bytes, last first, with one more character behind them. -/
def pushChar (code : Nat) (reversed : Bytes) : Bytes :=
  (String.singleton (Char.ofNat code)).toUTF8.toList.reverse ++ reversed

/-- A wanted text, from behind its opening quote.  `reversed` holds what is read of it, last byte
first.  A surrogate counts only as the first or second of a pair, and the bytes have to be UTF-8. -/
def wantedText (reversed : Bytes) : Bytes → Except Flaw (String × Bytes)
  | [] => .error .ended
  | b :: rest =>
    if b == byte '"' then
      match String.fromUTF8? ⟨reversed.reverse.toArray⟩ with
      | some content => .ok (content, rest)
      | none => .error .malformed
    else if b == byte '\\' then
      match rest with
      | [] => .error .ended
      | e :: rest =>
        if e == byte 'u' then
          match rest with
          | h1 :: h2 :: h3 :: h4 :: rest =>
            match hexValue? h1 h2 h3 h4 with
            | none => .error .malformed
            | some unit =>
              if isLowSurrogate unit then .error .malformed
              else if isHighSurrogate unit then
                match rest with
                | [] => .error .ended
                | s :: rest =>
                  if s != byte '\\' then .error .malformed
                  else match rest with
                    | [] => .error .ended
                    | u :: rest =>
                      if u != byte 'u' then .error .malformed
                      else match rest with
                        | l1 :: l2 :: l3 :: l4 :: rest =>
                          match hexValue? l1 l2 l3 l4 with
                          | none => .error .malformed
                          | some low =>
                            if isLowSurrogate low then
                              wantedText (pushChar (joinSurrogates unit low) reversed) rest
                            else .error .malformed
                        | _ => .error .ended
              else wantedText (pushChar unit reversed) rest
          | _ => .error .ended
        else match escaped? e with
          | some c => wantedText (c :: reversed) rest
          | none => .error .malformed
    else if b < 0x20 then .error .malformed
    else wantedText (b :: reversed) rest

/-- What follows a text that is passed over, from behind its opening quote. -/
def passedText : Bytes → Except Flaw Bytes
  | [] => .error .ended
  | b :: rest =>
    if b == byte '"' then .ok rest
    else if b == byte '\\' then
      match rest with
      | [] => .error .ended
      | e :: rest =>
        if e == byte 'u' then
          match rest with
          | h1 :: h2 :: h3 :: h4 :: rest =>
            if (hexValue? h1 h2 h3 h4).isSome then passedText rest else .error .malformed
          | _ => .error .ended
        else if (escaped? e).isSome then passedText rest
        else .error .malformed
    else if b < 0x20 then .error .malformed
    else passedText rest

/-- A quoted text from behind its opening quote, and what follows it. -/
def quoted (bytes : Bytes) : Token String × Option Bytes :=
  match wantedText [] bytes, passedText bytes with
  | .ok (content, rest), _ => (.sound content, some rest)
  | .error _, .ok rest => (.spoiled, some rest)
  | .error kept, .error skipped => (.broken kept skipped, none)

/-! ## Numbers -/

def isDigit (b : UInt8) : Bool := 0x30 ≤ b && b ≤ 0x39

/-- The value of a run of digits. -/
def digitsValue (digits : Bytes) : Nat :=
  digits.foldl (fun value b => value * 10 + (b.toNat - 0x30)) 0

/-- The digits of a whole part, which has no leading zero.  An error holds what follows the place
where a digit is missing or out of place. -/
def wholePart (bytes : Bytes) : Except Bytes (Bytes × Bytes) :=
  let digits := bytes.takeWhile isDigit
  let rest := bytes.dropWhile isDigit
  match digits with
  | [] => .error rest
  | first :: others =>
    if first == byte '0' && !others.isEmpty then .error (others ++ rest) else .ok (digits, rest)

/-- The digits of a fraction, if there is one. -/
def fractionPart (bytes : Bytes) : Except Bytes (Bytes × Bytes) :=
  match bytes with
  | b :: tail =>
    if b == byte '.' then
      let digits := tail.takeWhile isDigit
      let rest := tail.dropWhile isDigit
      if digits.isEmpty then .error rest else .ok (digits, rest)
    else .ok ([], bytes)
  | [] => .ok ([], [])

/-- The exponent, if there is one. -/
def exponentPart (bytes : Bytes) : Except Bytes (Option Int × Bytes) :=
  match bytes with
  | b :: tail =>
    if b == byte 'e' || b == byte 'E' then
      let (negative, digitsOn) := match tail with
        | s :: more => if s == byte '-' then (true, more) else if s == byte '+' then (false, more)
          else (false, tail)
        | [] => (false, [])
      let digits := digitsOn.takeWhile isDigit
      let rest := digitsOn.dropWhile isDigit
      if digits.isEmpty then .error rest
      else
        let power : Int := digitsValue digits
        .ok (some (if negative then -power else power), rest)
    else .ok (none, bytes)
  | [] => .ok (none, [])

/-- The number of its parts.  A number beyond the range is spoiled. -/
def numberOf (negative : Bool) (whole fraction : Bytes) (power : Option Int) : Token Number :=
  let digits := digitsValue (whole ++ fraction)
  if !negative && fraction.isEmpty && power.isNone && digits < Nat.pow 2 64 then
    .sound (.natural digits)
  else
    match Binary64.ofDecimal negative ⟨digits, power.getD 0 - fraction.length⟩ with
    | .finite s m h => .sound (.real (.finite s m h))
    | _ => .spoiled

/-- A number and what follows it. -/
def number (bytes : Bytes) : Token Number × Option Bytes :=
  let (negative, unsigned) := match bytes with
    | b :: rest => if b == byte '-' then (true, rest) else (false, bytes)
    | [] => (false, [])
  let parts : Except Bytes (Token Number × Bytes) := do
    let (whole, rest) ← wholePart unsigned
    let (fraction, rest) ← fractionPart rest
    let (power, rest) ← exponentPart rest
    return (numberOf negative whole fraction power, rest)
  match parts with
  | .ok (token, rest) => (token, some rest)
  | .error [] => (.broken .ended .malformed, none)
  | .error (_ :: _) => (.broken .malformed .malformed, none)

/-! ## Words -/

/-- What follows an expected run of bytes. -/
def expect : Bytes → Bytes → Except Flaw Bytes
  | [], bytes => .ok bytes
  | _ :: _, [] => .error .ended
  | w :: word, b :: bytes => if w == b then expect word bytes else .error .malformed

/-- A word that stands for a document. -/
def word (letters : List Char) (meaning : Document) (bytes : Bytes) : Document × Option Bytes :=
  match expect (letters.map byte) bytes with
  | .ok rest => (meaning, some rest)
  | .error flaw => (.unreadable flaw, none)

/-! ## Documents -/

/-- What stands behind an item: another one, or the end. -/
inductive Separator where
  | next (rest : Bytes)
  | last (ending : Ending) (rest : Option Bytes)

def separator (close : UInt8) (bytes : Bytes) : Separator :=
  match skipBlanks bytes with
  | [] => .last (.flawed .ended) none
  | b :: rest =>
    if b == close then .last .closed (some rest)
    else if b == byte ',' then
      match skipBlanks rest with
      | [] => .last (.afterComma .ended) none
      | c :: rest =>
        if c == close then .last (.afterComma .malformed) none else .next (c :: rest)
    else .last (.flawed .malformed) none

mutual

/-- A document and what follows it.  Two units of fuel for each byte suffice. -/
def document : Nat → Bytes → Document × Option Bytes
  | 0, _ => (.absent, none)
  | fuel + 1, bytes =>
    match skipBlanks bytes with
    | [] => (.absent, none)
    | b :: rest =>
      if b == byte '"' then
        let (token, rest) := quoted rest
        (.text token, rest)
      else if b == byte '-' || isDigit b then
        let (token, rest) := number (b :: rest)
        (.number token, rest)
      else if b == byte '[' then
        match skipBlanks rest with
        | [] => (.array [] (.flawed .ended), none)
        | c :: rest =>
          if c == byte ']' then (.array [] .closed, some rest)
          else
            let (items, ending, rest) := items fuel (c :: rest)
            (.array items ending, rest)
      else if b == byte '{' then
        match skipBlanks rest with
        | [] => (.object [] (.flawed .ended), none)
        | c :: rest =>
          if c == byte '}' then (.object [] .closed, some rest)
          else if c == byte '"' then
            let (members, ending, rest) := members fuel (c :: rest)
            (.object members ending, rest)
          else (.object [] (.flawed .malformed), none)
      else if b == byte 'n' then word ['u', 'l', 'l'] .null rest
      else if b == byte 't' then word ['r', 'u', 'e'] (.bool true) rest
      else if b == byte 'f' then word ['a', 'l', 's', 'e'] (.bool false) rest
      else (.unreadable .malformed, none)

/-- The items of an array from the first byte of one of them. -/
def items : Nat → Bytes → List Document × Ending × Option Bytes
  | 0, _ => ([], .flawed .ended, none)
  | fuel + 1, bytes =>
    match document fuel bytes with
    | (item, none) => ([item], .closed, none)
    | (item, some rest) =>
      match separator (byte ']') rest with
      | .last ending rest => ([item], ending, rest)
      | .next rest =>
        let (others, ending, rest) := items fuel rest
        (item :: others, ending, rest)

/-- The members of an object from the first byte of a name. -/
def members : Nat → Bytes → List (Token String × Document) × Ending × Option Bytes
  | 0, _ => ([], .flawed .ended, none)
  | _ + 1, [] => ([], .afterComma .ended, none)
  | fuel + 1, b :: bytes =>
    if b != byte '"' then ([], .afterComma .malformed, none)
    else
      match quoted bytes with
      | (name, none) => ([(name, .absent)], .closed, none)
      | (name, some rest) =>
        match skipBlanks rest with
        | [] => ([(name, .absent)], .closed, none)
        | c :: rest =>
          if c != byte ':' then ([(name, .unreadable .malformed)], .closed, none)
          else
            match document fuel rest with
            | (item, none) => ([(name, item)], .closed, none)
            | (item, some rest) =>
              match separator (byte '}') rest with
              | .last ending rest => ([(name, item)], ending, rest)
              | .next rest =>
                let (others, ending, rest) := members fuel rest
                ((name, item) :: others, ending, rest)

end

end Reading

/-- What a text of UTF-8 bytes holds. -/
def Text.ofBytes (bytes : List UInt8) : Text :=
  let (found, rest) := Reading.document (2 * bytes.length + 2) bytes
  ⟨found, match rest with
    | some rest => !(Reading.skipBlanks rest).isEmpty
    | none => false⟩

/-- What a text holds. -/
def Text.ofString (text : String) : Text := .ofBytes text.toUTF8.toList

end DesignTokens.Json
