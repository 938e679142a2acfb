import DesignTokens.Number.Notation
import DesignTokens.Json.Value

/-!
# Writing JSON texts

A value is written piece by piece, and a receiver that fails keeps the pieces before the failure, so
how a text is cut into pieces is part of what is written.  Marks, line breaks, each step of
indentation, each number and each word are pieces of their own; in a quoted text so is each escape
and each run of characters between escapes.

`pretty` has one item or member on a line, indented by two blanks for each container around it;
`compact` has no blanks at all.
-/

namespace DesignTokens.Json

/-- The text of a number. -/
def Number.text : Number → String
  | .natural n => String.ofList (NumberStyle.digitsOf n)
  | .real x => NumberStyle.json.text x

/-- The hexadecimal digit of a number below sixteen. -/
def hexDigit (n : Nat) : Char := Nat.digitChar n

/-- How a character is escaped, if it is. -/
def escape? (c : Char) : Option String :=
  if c = '"' then some "\\\""
  else if c = '\\' then some "\\\\"
  else if c = '\x08' then some "\\b"
  else if c = '\x0C' then some "\\f"
  else if c = '\n' then some "\\n"
  else if c = '\r' then some "\\r"
  else if c = '\t' then some "\\t"
  else if c.toNat < 0x20 then
    some (String.ofList ['\\', 'u', '0', '0', hexDigit (c.toNat / 16), hexDigit (c.toNat % 16)])
  else none

/-- A run of characters as a piece, unless it is empty. -/
def runPiece (run : List Char) : List String :=
  if run.isEmpty then [] else [String.ofList run.reverse]

/-- The pieces of a text between its quotes; `run` is the run under way, last character first. -/
def textPieces (run : List Char) : List Char → List String
  | [] => runPiece run
  | c :: rest =>
    match escape? c with
    | some escape => runPiece run ++ escape :: textPieces [] rest
    | none => textPieces (c :: run) rest

/-- The pieces of a quoted text. -/
def quotedPieces (text : String) : List String :=
  "\"" :: textPieces [] text.toList ++ ["\""]

/-- A line break and the indentation inside `depth` containers. -/
def breakPieces (mark : String) (depth : Nat) : List String :=
  mark :: List.replicate depth "  "

mutual

/-- The pieces of a value inside `depth` containers. -/
def pieces (depth : Nat) : Json → List String
  | .null => ["null"]
  | .bool b => [if b then "true" else "false"]
  | .number n => [n.text]
  | .text s => quotedPieces s
  | .array [] => ["[", "]"]
  | .array (item :: rest) =>
    "[" :: breakPieces "\n" (depth + 1) ++ pieces (depth + 1) item ++ itemPieces (depth + 1) rest
      ++ breakPieces "\n" depth ++ ["]"]
  | .object [] => ["\x7b", "\x7d"]
  | .object ((name, item) :: rest) =>
    "\x7b" :: breakPieces "\n" (depth + 1) ++ quotedPieces name ++ [": "] ++ pieces (depth + 1) item
      ++ memberPieces (depth + 1) rest ++ breakPieces "\n" depth ++ ["\x7d"]

/-- The pieces of the items behind the first. -/
def itemPieces (depth : Nat) : List Json → List String
  | [] => []
  | item :: rest => breakPieces ",\n" depth ++ pieces depth item ++ itemPieces depth rest

/-- The pieces of the members behind the first. -/
def memberPieces (depth : Nat) : List (String × Json) → List String
  | [] => []
  | (name, item) :: rest =>
    breakPieces ",\n" depth ++ quotedPieces name ++ [": "] ++ pieces depth item
      ++ memberPieces depth rest

end

/-- A value on several lines. -/
def pretty (value : Json) : String := String.join (value.pieces 0)

mutual

/-- The pieces of a value on one line. -/
def compactPieces : Json → List String
  | .null => ["null"]
  | .bool b => [if b then "true" else "false"]
  | .number n => [n.text]
  | .text s => quotedPieces s
  | .array items => "[" :: compactItems true items ++ ["]"]
  | .object members => "\x7b" :: compactMembers true members ++ ["\x7d"]

def compactItems (first : Bool) : List Json → List String
  | [] => []
  | item :: rest => (if first then [] else [","]) ++ compactPieces item ++ compactItems false rest

def compactMembers (first : Bool) : List (String × Json) → List String
  | [] => []
  | (name, item) :: rest =>
    (if first then [] else [","]) ++ quotedPieces name ++ [":"] ++ compactPieces item
      ++ compactMembers false rest

end

/-- A value on one line. -/
def compact (value : Json) : String := String.join value.compactPieces

end DesignTokens.Json
