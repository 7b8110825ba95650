import ClassNames.Text.Hex
import ClassNames.Yaml.Place

/-!
# Quoted scalars

Between single quotes only a quote has to be written in a special way, twice.
Between double quotes a backslash starts an escape, and one before a line break joins
the lines.  The marker of a document may not stand inside of quotes.
-/

namespace ClassNames.Yaml

/-- Reads up to the closing single quote, after the given gap in reverse order.  A quote
inside is written twice. -/
def readSingleQuoted (gap : List Char) : List Place → Option (List Char × List Place)
  | [] => none
  | place :: rest =>
    if isGap place.char then readSingleQuoted (place.char :: gap) rest
    else if atDocumentMarker (place :: rest) then none
    else if place.char = '\'' then
      match rest with
      | next :: after =>
        if next.char = '\'' then do
          let (text, after) ← readSingleQuoted [] after
          return (foldGap gap.reverse ++ '\'' :: text, after)
        else some (foldGap gap.reverse, rest)
      | [] => some (foldGap gap.reverse, [])
    else do
      let (text, after) ← readSingleQuoted [] rest
      return (foldGap gap.reverse ++ place.char :: text, after)

/-- The character that an escape of one letter stands for. -/
def letterEscape? : Char → Option Char
  | '0' => some '\x00'
  | 'a' => some '\x07'
  | 'b' => some '\x08'
  | 't' | '\t' => some '\t'
  | 'n' => some '\n'
  | 'v' => some '\x0b'
  | 'f' => some '\x0c'
  | 'r' => some '\r'
  | 'e' => some '\x1b'
  | ' ' => some ' '
  | '"' => some '"'
  | '/' => some '/'
  | '\\' => some '\\'
  | 'N' => some '\x85'
  | '_' => some '\xa0'
  | 'L' => some '\u2028'
  | 'P' => some '\u2029'
  | _ => none

/-- The number of hexadecimal digits after the letter of an escape. -/
def hexEscapeLength? : Char → Option Nat
  | 'x' => some 2
  | 'u' => some 4
  | 'U' => some 8
  | _ => none

/-- The character with the given code in hexadecimal digits. -/
def charOfHex? (length : Nat) (digits : List Char) : Option Char := do
  guard (digits.length = length)
  let code ← Text.hexValue? digits
  if code.isValidChar then some (Char.ofNat code) else none

/-- The character of the escape whose letter is given, and the text after it. -/
def readEscape? (letter : Char) (rest : List Place) : Option (Char × List Place) :=
  match hexEscapeLength? letter with
  | some length =>
    (charOfHex? length (charsOf (rest.take length))).map (·, rest.drop length)
  | none => (letterEscape? letter).map (·, rest)

theorem length_le_of_readEscape? {letter c : Char} {rest after : List Place}
    (h : readEscape? letter rest = some (c, after)) : after.length ≤ rest.length := by
  unfold readEscape? at h
  split at h
  · obtain ⟨_, _, heq⟩ := Option.map_eq_some_iff.mp h
    cases heq
    simp
  · obtain ⟨_, _, heq⟩ := Option.map_eq_some_iff.mp h
    cases heq
    simp

/-- A gap in reverse order, which may start with an escaped line break.  Then only the
later line breaks are kept. -/
def joinGap (escaped : Bool) (gap : List Char) : List Char :=
  if escaped then gap.reverse.filter isBreak else foldGap gap.reverse

/-- Reads up to the closing double quote, after the given gap in reverse order.  The flag
says that the gap starts with an escaped line break. -/
def readDoubleQuoted (escaped : Bool) (gap : List Char) (text : List Place) :
    Option (List Char × List Place) :=
  match text with
  | [] => none
  | place :: rest =>
    if isGap place.char then readDoubleQuoted escaped (place.char :: gap) rest
    else if atDocumentMarker (place :: rest) then none
    else if place.char = '"' then some (joinGap escaped gap, rest)
    else if place.char = '\\' then
      match rest with
      | [] => none
      | letter :: after =>
        if isBreak letter.char then do
          let (text, after) ← readDoubleQuoted true [] after
          return (joinGap escaped gap ++ text, after)
        else
          match h : readEscape? letter.char after with
          | none => none
          | some (c, after) => do
            have := length_le_of_readEscape? h
            let (text, after) ← readDoubleQuoted false [] after
            return (joinGap escaped gap ++ c :: text, after)
    else do
      let (text, after) ← readDoubleQuoted false [] rest
      return (joinGap escaped gap ++ place.char :: text, after)
termination_by text.length
decreasing_by all_goals simp only [List.length_cons] at *; omega

end ClassNames.Yaml
