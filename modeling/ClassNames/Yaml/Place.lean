/-!
# Places in a YAML text

YAML reads its structure off the columns, so a text is turned into a list of places
first: every character with its line, its column and its offset.  Line breaks in all
their spellings are one place each, and all but the two Unicode separators are
written as a line feed.

A plain or quoted scalar may go over several lines.  What separates its words is
folded: blanks on one line are kept, a single line break becomes a space, and of
several line breaks the first one is left out.
-/

namespace ClassNames.Yaml

/-- A character and where it stands, counted from zero. -/
structure Place where
  char : Char
  line : Nat
  /-- The number of characters before it on its line. -/
  column : Nat
  /-- The number of bytes before it in the text, in UTF-8. -/
  offset : Nat
deriving DecidableEq, Repr

/-- May stand at the start of a line between two tokens, where it takes a column but
means nothing. -/
def byteOrderMark : Char := '\ufeff'

/-- May stand in a text: printable, or a tab, line feed, carriage return or next
line. -/
def isAllowed (c : Char) : Bool :=
  c == '\t' || c == '\n' || c == '\r' || c == '\x85' ||
    (' ' ≤ c && c ≤ '~') || ('\xa0' ≤ c && c ≤ '\ufffd') || 0x10000 ≤ c.toNat

def isBlank (c : Char) : Bool :=
  c == ' ' || c == '\t'

/-- Ends a line.  The other spellings of a break are gone from a list of places. -/
def isBreak (c : Char) : Bool :=
  c == '\n' || c == '\u2028' || c == '\u2029'

/-- Separates words. -/
def isGap (c : Char) : Bool :=
  isBlank c || isBreak c

/-- A gap between two words on one or more lines. -/
def foldGap (gap : List Char) : List Char :=
  match gap.filter isBreak with
  | [] => gap
  | ['\n'] => [' ']
  | '\n' :: more => more
  | breaks => breaks

/-- May stand in the name of an anchor, a tag handle or a directive. -/
def isNameChar (c : Char) : Bool :=
  c.isAlphanum || c == '_' || c == '-'

/-- The places of a text that starts at the given line, column and offset. -/
def locate (line column offset : Nat) : List Char → List Place
  | [] => []
  | '\r' :: '\n' :: rest => ⟨'\n', line, column, offset⟩ :: locate (line + 1) 0 (offset + 2) rest
  | c :: rest =>
    let char := if c = '\r' ∨ c = '\x85' then '\n' else c
    let next := offset + c.utf8Size
    ⟨char, line, column, offset⟩ ::
      if isBreak char then locate (line + 1) 0 next rest else locate line (column + 1) next rest

/-- The places of a document.  Nothing if a character is not allowed. -/
def places? (source : String) : Option (List Place) :=
  if source.toList.all isAllowed then some (locate 0 0 0 source.toList) else none

/-- The characters at the given places. -/
def charsOf (text : List Place) : List Char :=
  text.map Place.char

/-- The next character satisfies the condition.  At the end there is none. -/
def nextIs (condition : Char → Bool) (text : List Place) : Bool :=
  text.head?.any (condition ·.char)

/-- The next character separates words, or there is none. -/
def atGap (text : List Place) : Bool :=
  text.head?.all (isGap ·.char)

/-- The next character ends a line, or there is none. -/
def atLineEnd (text : List Place) : Bool :=
  text.head?.all (isBreak ·.char)

/-- A line starts here with three times the given character and a gap. -/
def atMarker (sign : Char) : List Place → Bool
  | first :: second :: third :: rest =>
    first.column == 0 && first.char == sign && second.char == sign && third.char == sign &&
      atGap rest
  | _ => false

/-- The marker of a document's start or end stands here. -/
def atDocumentMarker (text : List Place) : Bool :=
  atMarker '-' text || atMarker '.' text

/-- The text after all places at its start that satisfy the condition. -/
def skip (condition : Char → Bool) (text : List Place) : List Place :=
  text.dropWhile (condition ·.char)

theorem length_lt_of_skip {condition : Char → Bool} {text rest : List Place}
    {place : Place} (h : skip condition text = place :: rest) : rest.length < text.length := by
  have hsublist := (List.dropWhile_sublist (condition ·.char) (l := text)).length_le
  rw [show text.dropWhile (condition ·.char) = place :: rest from h] at hsublist
  exact Nat.lt_of_succ_le hsublist

/-- The characters at the start that satisfy the condition, and the text after
them. -/
def takeChars (condition : Char → Bool) (text : List Place) : List Char × List Place :=
  (charsOf (text.takeWhile (condition ·.char)), skip condition text)

/-- The text after blanks and a comment, which have to fill the line. -/
def restOfLine? (text : List Place) : Option (List Place) :=
  let text := skip isBlank text
  let text := if nextIs (· == '#') text then skip (!isBreak ·) text else text
  if atLineEnd text then some text.tail else none

end ClassNames.Yaml
