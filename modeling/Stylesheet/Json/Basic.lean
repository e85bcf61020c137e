/-!
# JSON values

A JSON value whose objects keep their fields in the order they were
given, and its compact text. Strings are written with the short escapes
where JSON has one, the other controls as `\u00xx`, and everything else
as it is.
-/

namespace Stylesheet

/-- **A JSON value.** Numbers are kept as they are written. -/
inductive Json where
  /-- The null value. -/
  | null
  /-- A truth value. -/
  | bool (value : Bool)
  /-- A number, by its text. -/
  | num (text : String)
  /-- A string. -/
  | str (value : String)
  /-- An array. -/
  | arr (items : List Json)
  /-- An object, its fields in order. -/
  | obj (fields : List (String × Json))
  deriving Repr, Inhabited

namespace Json

/-- A natural number. -/
def nat (n : Nat) : Json := .num (toString n)

/-- An integer. -/
def int (n : Int) : Json := .num (toString n)

/-- A value that may be missing, null without it. -/
def ofOption (value : Option Json) : Json := value.getD .null

/-- A string that may be missing. -/
def ofText? (value : Option String) : Json := ofOption (value.map .str)

/-- An object with one field, the form of a tagged choice. -/
def tagged (tag : String) (value : Json) : Json := .obj [(tag, value)]

/-- A hexadecimal digit. -/
def hexDigit (n : Nat) : Char := (Nat.toDigits 16 n).headD '0'

/-- **A character inside a string.** -/
def escapeChar (c : Char) : String :=
  if c = '"' then "\\\""
  else if c = '\\' then "\\\\"
  else if c = '\n' then "\\n"
  else if c = '\r' then "\\r"
  else if c = '\t' then "\\t"
  else if c = '\x08' then "\\b"
  else if c = '\x0c' then "\\f"
  else if c.toNat < 0x20 then
    "\\u00" ++ String.ofList [hexDigit (c.toNat / 16), hexDigit (c.toNat % 16)]
  else String.singleton c

/-- A string in quotes. -/
def quote (s : String) : String := "\"" ++ String.join (s.toList.map escapeChar) ++ "\""

/-- **The compact text of a value.** -/
def render : Json → String
  | .null => "null"
  | .bool value => if value then "true" else "false"
  | .num text => text
  | .str value => quote value
  | .arr items => "[" ++ ",".intercalate (renderItems items) ++ "]"
  | .obj fields => "\x7b" ++ ",".intercalate (renderFields fields) ++ "\x7d"
where
  /-- The texts of the items of an array. -/
  renderItems : List Json → List String
    | [] => []
    | item :: items => render item :: renderItems items
  /-- The texts of the fields of an object. -/
  renderFields : List (String × Json) → List String
    | [] => []
    | (name, value) :: fields => (quote name ++ ":" ++ render value) :: renderFields fields

end Json

end Stylesheet
