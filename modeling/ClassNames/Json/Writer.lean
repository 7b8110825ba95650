import ClassNames.Text.Hex

/-!
# Writing JSON

Strings, arrays and objects without blanks.  In a string the quote, the backslash
and the control characters are escaped, by a letter where there is one, and all
else is written as it is.
-/

namespace ClassNames.Json

/-- A character as it stands inside a string. -/
def escape (c : Char) : List Char :=
  match c with
  | '"' => ['\\', '"']
  | '\\' => ['\\', '\\']
  | '\x08' => ['\\', 'b']
  | '\x0c' => ['\\', 'f']
  | '\n' => ['\\', 'n']
  | '\r' => ['\\', 'r']
  | '\t' => ['\\', 't']
  | c => if c.toNat < 0x20 then '\\' :: 'u' :: Text.fourHexDigits c.toNat else [c]

/-- A string with its quotes. -/
def writeString (text : String) : List Char :=
  '"' :: text.toList.flatMap escape ++ ['"']

/-- An array of written values. -/
def writeArray (items : List (List Char)) : List Char :=
  '[' :: [','].intercalate items ++ [']']

/-- An object of names with written values. -/
def writeObject (members : List (String × List Char)) : List Char :=
  let written := members.map fun (name, value) => writeString name ++ ':' :: value
  '{' :: [','].intercalate written ++ ['}']

end ClassNames.Json
