/-
# Writing JSON

Values are written without space between tokens.  In strings the quotation mark, the
backslash and the control characters are escaped, the usual five of them by a letter and the
others by four hexadecimal digits; all other characters stand for themselves.
-/
import FleetAgent.Json.Value
import FleetAgent.Text.Hex

namespace FleetAgent.Json

/-- The written form of a character inside a string. -/
def escapeChar (c : Char) : List Char :=
  if c = '"' then ['\\', '"']
  else if c = '\\' then ['\\', '\\']
  else if c = '\x08' then ['\\', 'b']
  else if c = '\x0c' then ['\\', 'f']
  else if c = '\n' then ['\\', 'n']
  else if c = '\r' then ['\\', 'r']
  else if c = '\t' then ['\\', 't']
  else if c.toNat < 0x20 then
    ['\\', 'u', '0', '0', Text.Hex.digit (c.toNat / 16), Text.Hex.digit (c.toNat % 16)]
  else [c]

/-- A string between quotation marks. -/
def quote (s : String) : List Char :=
  '"' :: s.toList.flatMap escapeChar ++ ['"']

namespace Value

mutual

/-- The written form of a value. -/
def chars : Value → List Char
  | null => ['n', 'u', 'l', 'l']
  | bool true => ['t', 'r', 'u', 'e']
  | bool false => ['f', 'a', 'l', 's', 'e']
  | number n => n.chars
  | string s => quote s
  | array items => '[' :: itemsChars items
  | object members => '\x7b' :: membersChars members

/-- The items of an array, each followed by a comma or the closing bracket. -/
def itemsChars : List Value → List Char
  | [] => [']']
  | [v] => v.chars ++ [']']
  | v :: vs => v.chars ++ ',' :: itemsChars vs

/-- The members of an object, each followed by a comma or the closing brace. -/
def membersChars : List (String × Value) → List Char
  | [] => ['\x7d']
  | [(name, v)] => quote name ++ ':' :: v.chars ++ ['\x7d']
  | (name, v) :: ms => quote name ++ ':' :: v.chars ++ ',' :: membersChars ms

end

/-- The written form of a value. -/
def render (v : Value) : String :=
  String.ofList v.chars

end Value

end FleetAgent.Json
