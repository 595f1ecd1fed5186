/-
Tokens as a JSON document, laid out with an indentation of two spaces.
-/
import Scriptlet.Token.Basic

namespace Scriptlet.Json

/-- A JSON document, as far as token lists need one. -/
inductive Document where
  | null
  | natural (value : Nat)
  | number (value : Float)
  | string (text : String)
  | array (items : List Document)
  | object (members : List (String × Document))

/-- JSON numbers always have a point or a power of ten; the power takes over
where the leading digit stands sixteen or more places before the point, or six
or more behind it. -/
def numberFormat : Decimal.NumberFormat where
  exact _ := false
  exactTail := ""
  signedZero := true
  plain e := decide (-5 ≤ e) && decide (e < 16)
  plainTail := ".0"
  tie := .toEven
  infinity := "null"
  negativeInfinity := "null"
  notANumber := "null"

/-- One character inside a JSON string. -/
def escape (c : Char) : String :=
  if c = '"' then "\\\""
  else if c = '\\' then "\\\\"
  else if c = '\x08' then "\\b"
  else if c = '\x0c' then "\\f"
  else if c = '\n' then "\\n"
  else if c = '\r' then "\\r"
  else if c = '\t' then "\\t"
  else if c.toNat < 0x20 then
    "\\u00" ++ String.ofList [Nat.digitChar (c.toNat / 16), Nat.digitChar (c.toNat % 16)]
  else c.toString

def quoted (text : String) : String :=
  "\"" ++ String.join (text.toList.map escape) ++ "\""

/-- A line break followed by the indentation of the given depth. -/
def newline (depth : Nat) : String :=
  "\n" ++ String.ofList (List.replicate (2 * depth) ' ')

mutual

/-- Each member of a list or an object stands on a line of its own. -/
def Document.render (depth : Nat) : Document → String
  | .null => "null"
  | .natural value => toString value
  | .number value => numberFormat.write value
  | .string text => quoted text
  | .array [] => "[]"
  | .array (item :: items) =>
      "[" ++ newline (depth + 1) ++ item.render (depth + 1) ++ renderItems (depth + 1) items ++
        newline depth ++ "]"
  | .object [] => "\x7b\x7d"
  | .object ((key, value) :: members) =>
      "\x7b" ++ newline (depth + 1) ++ quoted key ++ ": " ++ value.render (depth + 1) ++
        renderMembers (depth + 1) members ++ newline depth ++ "\x7d"

def renderItems (depth : Nat) : List Document → String
  | [] => ""
  | item :: items =>
      "," ++ newline depth ++ item.render depth ++ renderItems depth items

def renderMembers (depth : Nat) : List (String × Document) → String
  | [] => ""
  | (key, value) :: members =>
      "," ++ newline depth ++ quoted key ++ ": " ++ value.render depth ++
        renderMembers depth members

end

end Scriptlet.Json

namespace Scriptlet

/-- Kinds without a value are strings, the others one-member objects. -/
def Kind.toJson : Kind → Json.Document
  | .string text => .object [("STRING", .string text)]
  | .number value => .object [("NUMBER", .number value)]
  | kind => .string kind.name

def Token.toJson (token : Token) : Json.Document :=
  .object [("token_type", token.kind.toJson), ("lexeme", .string token.lexeme),
    ("line", .natural token.line)]

/-- A whole token list as JSON text. -/
def tokensToJson (tokens : List Token) : String :=
  (Json.Document.array (tokens.map Token.toJson)).render 0

end Scriptlet
