import ClassNames.Text.Hex
import ClassNames.Yaml.Place
import ClassNames.Yaml.Token

/-!
# Anchors, tags and directives

What may stand before a node or before a document.  Of a tag only its handle matters
later on; the rest of it is checked to be a URI whose escapes spell out UTF-8.
-/

namespace ClassNames.Yaml

def isUriChar (c : Char) : Bool :=
  isNameChar c || ";/?:@&=+$.!~*'()".contains c

/-- May stand in a URI that no flow collection can cut off. -/
def isFreeUriChar (c : Char) : Bool :=
  isUriChar c || c == ',' || c == '[' || c == ']'

/-- The number of octets that follow the first octet of a character. -/
def continuations? (octet : Nat) : Option Nat :=
  if octet < 0x80 then some 0
  else if 0xc0 ≤ octet ∧ octet < 0xe0 then some 1
  else if 0xe0 ≤ octet ∧ octet < 0xf0 then some 2
  else if 0xf0 ≤ octet ∧ octet < 0xf8 then some 3
  else none

/-- The number of octets that are missing after one more. -/
def missingAfter? (missing octet : Nat) : Option Nat :=
  if missing = 0 then continuations? octet
  else if 0x80 ≤ octet ∧ octet < 0xc0 then some (missing - 1)
  else none

/-- The text after a URI, while octets of an escaped character are missing. -/
def skipUri (allowed : Char → Bool) (missing : Nat) : List Place → Option (List Place)
  | [] => if missing = 0 then some [] else none
  | place :: rest =>
    if place.char = '%' then
      match rest with
      | high :: low :: after => do
        let octet ← Text.hexValue? [high.char, low.char]
        skipUri allowed (← missingAfter? missing octet) after
      | _ => none
    else if missing ≠ 0 then none
    else if allowed place.char then skipUri allowed 0 rest
    else some (place :: rest)

/-- The text after a URI that is not empty. -/
def skipUri? (allowed : Char → Bool) (text : List Place) : Option (List Place) := do
  let rest ← skipUri allowed 0 text
  guard (rest.length < text.length)
  return rest

/-- The text after one character that has to be the given one. -/
def expect (c : Char) : List Place → Option (List Place)
  | place :: rest => if place.char = c then some rest else none
  | [] => none

/-- Reads a tag after its exclamation mark: the handle if it has to be declared. -/
def readTag (inFlow : Bool) (text : List Place) :
    Option (Option String × List Place) := do
  let (name, afterName) := takeChars isNameChar text
  let (handle?, rest) ←
    if nextIs (· == '<') text then do
      let rest ← skipUri? isFreeUriChar text.tail
      pure (none, ← expect '>' rest)
    else if nextIs (· == '!') afterName then do
      let rest ← skipUri? isUriChar afterName.tail
      pure (some (String.ofList ('!' :: name ++ ['!'])), rest)
    else do
      pure (none, ← skipUri isUriChar 0 afterName)
  guard (atGap rest || (inFlow && nextIs (· == ',') rest))
  return (handle?, rest)

/-- Reads the name of an anchor or an alias after its sign. -/
def readName (text : List Place) : Option (String × List Place) := do
  let (name, rest) := takeChars isNameChar text
  guard (!name.isEmpty && (atGap rest || nextIs ("?:,]\x7d%@\x60".contains ·) rest))
  return (String.ofList name, rest)

/-- Reads a number of at most nine digits. -/
def readNumber (text : List Place) : Option (Nat × List Place) := do
  let (digits, rest) := takeChars Char.isDigit text
  guard (!digits.isEmpty && digits.length ≤ 9)
  return (digits.foldl (fun number c => 10 * number + (c.toNat - '0'.toNat)) 0, rest)

/-- Reads the handle that a directive declares: one exclamation mark, or two with or
without a name between them. -/
def readHandle (text : List Place) : Option (String × List Place) := do
  let afterSign ← expect '!' text
  let (name, rest) := takeChars isNameChar afterSign
  match expect '!' rest with
  | some rest => return (String.ofList ('!' :: name ++ ['!']), rest)
  | none => if name.isEmpty then return ("!", rest) else none

/-- Reads a directive after its percent sign, with the line that it fills. -/
def readDirective (text : List Place) : Option (Directive × List Place) := do
  let (name, text) := takeChars isNameChar text
  guard (atGap text)
  let text := skip isBlank text
  let (directive, rest) ← match String.ofList name with
    | "YAML" => do
      let (major, text) ← readNumber text
      let (minor, text) ← readNumber (← expect '.' text)
      pure (.version major minor, text)
    | "TAG" => do
      let (handle, text) ← readHandle text
      guard (nextIs isBlank text)
      let text ← skipUri? isFreeUriChar (skip isBlank text)
      guard (atGap text)
      pure (.tag handle, text)
    | _ => none
  return (directive, ← restOfLine? rest)

end ClassNames.Yaml
