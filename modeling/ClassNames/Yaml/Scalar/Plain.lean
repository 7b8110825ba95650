import ClassNames.Yaml.Place

/-!
# Plain scalars

A scalar without quotes ends where something else can begin: at a colon with a gap
after it, at a comment, at a sign of the flow collection around it, or on a line that
starts before its margin.
-/

namespace ClassNames.Yaml

/-- Opens or closes a flow collection or separates its entries. -/
def isFlowSign (c : Char) : Bool :=
  c == ',' || c == '[' || c == ']' || c == '{' || c == '}'

/-- What surrounds a plain scalar: whether it is inside a flow collection, and the
least column in which it may go on after a line break. -/
structure Surroundings where
  inFlow : Bool
  margin : Nat

/-- A plain scalar: its text, whether the gap after it holds a line break, and the
text after that gap. -/
structure PlainScalar where
  text : List Char
  endsLine : Bool
  rest : List Place

/-- A colon inside a flow collection with a sign right after it belongs neither to a
scalar nor to a pair. -/
def isStrayColon (around : Surroundings) (c : Char) (rest : List Place) : Bool :=
  around.inFlow && c == ':' && nextIs (fun next => next == '?' || isFlowSign next) rest

/-- The scalar ends before this place.  The gap is the one before the place. -/
def endsPlain (around : Surroundings) (gap : List Char) (place : Place)
    (rest : List Place) : Bool :=
  (place.char == '#' && !gap.isEmpty) || atDocumentMarker (place :: rest) ||
    (!around.inFlow && !gap.isEmpty && place.column < around.margin) ||
    (place.char == ':' && atGap rest) || (around.inFlow && isFlowSign place.char)

/-- Reads a plain scalar after the given gap, which is kept in reverse order.  In a gap
with a line break, a tab may not stand before the margin. -/
def readPlain (around : Surroundings) (gap : List Char) :
    List Place → Option PlainScalar
  | [] => some ⟨[], gap.any isBreak, []⟩
  | place :: rest =>
    if isGap place.char then
      if place.char = '\t' ∧ gap.any isBreak ∧ place.column < around.margin then none
      else readPlain around (place.char :: gap) rest
    else if isStrayColon around place.char rest then none
    else if endsPlain around gap place rest then
      some ⟨[], gap.any isBreak, place :: rest⟩
    else do
      let scalar ← readPlain around [] rest
      return { scalar with text := foldGap gap.reverse ++ place.char :: scalar.text }

end ClassNames.Yaml
