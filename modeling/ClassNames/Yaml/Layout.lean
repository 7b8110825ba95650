import ClassNames.Yaml.Property
import ClassNames.Yaml.Scalar.Block
import ClassNames.Yaml.Scalar.Plain
import ClassNames.Yaml.Scalar.Quoted

/-!
# Reading the layout

The tokens of a text.  Block collections start where something stands farther right
than the collection around it, and end where something stands farther left.

Whether a node is a key is known only when the colon after it comes.  So what may
turn out to be a key leaves an empty chunk among the tokens, and the colon puts the
sign of a key there, after the start of a block mapping if the key opens one.  A key
has to be on one line with its colon and start at most 1024 bytes before it.
-/

namespace ClassNames.Yaml

/-- Tokens in chunks, the newest first.  A chunk can be filled after others have
followed it. -/
structure Chunks where
  newestFirst : List (List Token)
  count : Nat

namespace Chunks

def empty : Chunks := ⟨[], 0⟩

def push (chunks : Chunks) (chunk : List Token) : Chunks :=
  ⟨chunk :: chunks.newestFirst, chunks.count + 1⟩

/-- Puts tokens into the chunk that has the given number of chunks before it. -/
def fill (chunks : Chunks) (before : Nat) (chunk : List Token) : Chunks :=
  { chunks with newestFirst := chunks.newestFirst.set (chunks.count - 1 - before) chunk }

def tokens (chunks : Chunks) : List Token :=
  chunks.newestFirst.reverse.flatten

end Chunks

/-- A node that may turn out to be a key. -/
structure Candidate where
  /-- The number of chunks before the one left empty for the sign of the key. -/
  before : Nat
  /-- Where the node starts. -/
  place : Place
  /-- Nothing but a key may start here. -/
  required : Bool

/-- A text that is read in part. -/
structure Layout where
  rest : List Place
  chunks : Chunks
  /-- The columns of the open block collections, innermost first. -/
  columns : List Nat
  /-- A key may start here. -/
  keyAllowed : Bool
  /-- The candidate of the innermost flow collection, or of the block around all. -/
  candidate? : Option Candidate
  /-- The candidates around each of the open flow collections, innermost first. -/
  outer : List (Option Candidate)

namespace Layout

def ofText (text : List Place) : Layout :=
  ⟨text, .empty, [], true, none, []⟩

def inFlow (layout : Layout) : Bool :=
  !layout.outer.isEmpty

/-- The least column inside of the innermost block collection. -/
def margin (layout : Layout) : Nat :=
  match layout.columns with
  | [] => 0
  | column :: _ => column + 1

def push (layout : Layout) (token : Token) : Layout :=
  { layout with chunks := layout.chunks.push [token] }

/-- Goes on at the given text. -/
def goTo (layout : Layout) (rest : List Place) : Layout :=
  { layout with rest }

def allowKey (layout : Layout) (keyAllowed : Bool) : Layout :=
  { layout with keyAllowed }

/-- The text after blanks, comments and line breaks, with the answer whether a key
may start there.  A tab counts as a blank only where no key may start, and a byte
order mark only at the start of a line. -/
def skipSpace (inFlow keyAllowed inComment : Bool) : List Place → Bool × List Place
  | [] => (keyAllowed, [])
  | place :: rest =>
    if isBreak place.char then skipSpace inFlow (keyAllowed || !inFlow) false rest
    else if inComment || place.char == '#' then skipSpace inFlow keyAllowed true rest
    else if place.char == ' ' || (place.char == '\t' && (inFlow || !keyAllowed)) ||
        (place.char == byteOrderMark && place.column == 0) then
      skipSpace inFlow keyAllowed false rest
    else (keyAllowed, place :: rest)

/-- Goes on at the next token. -/
def toNextToken (layout : Layout) : Layout :=
  let (keyAllowed, rest) := skipSpace layout.inFlow layout.keyAllowed false layout.rest
  { layout with keyAllowed, rest }

/-- The candidate cannot be a key any more at the given place. -/
def Candidate.isStale (candidate : Candidate) (place : Place) : Bool :=
  candidate.place.line < place.line || candidate.place.offset + 1024 < place.offset

/-- Drops the candidate if it is stale.  A required one may not be dropped. -/
def dropStale? (place : Place) : Option Candidate → Option (Option Candidate)
  | none => some none
  | some candidate =>
    if Candidate.isStale candidate place then
      if candidate.required then none else some none
    else some (some candidate)

/-- Drops all stale candidates. -/
def dropAllStale? (layout : Layout) (place : Place) : Option Layout := do
  return { layout with
    candidate? := ← dropStale? place layout.candidate?
    outer := ← layout.outer.mapM (dropStale? place) }

/-- Drops the candidate. -/
def dropCandidate? (layout : Layout) : Option Layout :=
  if layout.candidate?.any Candidate.required then none
  else some { layout with candidate? := none }

/-- Makes what starts at the given place a candidate, if a key may start there. -/
def addCandidate? (layout : Layout) (place : Place) : Option Layout :=
  if layout.keyAllowed then do
    let layout ← layout.dropCandidate?
    let required := !layout.inFlow && layout.columns.head? == some place.column
    return { layout with
      chunks := layout.chunks.push []
      candidate? := some ⟨layout.chunks.count, place, required⟩ }
  else some layout

/-- Ends the block collections whose column satisfies the condition.  Inside of a flow
collection none ends. -/
def closeBlocks (layout : Layout) (closes : Nat → Bool) : Layout :=
  if layout.inFlow then layout
  else
    { layout with
      chunks := layout.chunks.push
        ((layout.columns.takeWhile closes).map fun _ => .blockEnd)
      columns := layout.columns.dropWhile closes }

def closeAllBlocks (layout : Layout) : Layout :=
  layout.closeBlocks fun _ => true

/-- A block collection would start at the column. -/
def opensAt (layout : Layout) (column : Nat) : Bool :=
  !layout.inFlow && layout.columns.head?.all (· < column)

/-- Starts a block collection at the column of the place, if one would start there.
Only where a key may start, it may. -/
def openBlock? (layout : Layout) (start : Token) (place : Place) : Option Layout :=
  if layout.inFlow then some layout
  else if !layout.keyAllowed then none
  else if layout.opensAt place.column then
    some { layout.push start with columns := place.column :: layout.columns }
  else some layout

/-! ## One token -/

def readDirectiveLine? (layout : Layout) (rest : List Place) : Option Layout := do
  let layout ← layout.closeAllBlocks.dropCandidate?
  let (directive, rest) ← readDirective rest
  return (layout.push (.directive directive)).allowKey false |>.goTo rest

def readMarker? (layout : Layout) (token : Token) : Option Layout := do
  let layout ← layout.closeAllBlocks.dropCandidate?
  return (layout.push token).allowKey false |>.goTo (layout.rest.drop 3)

def openFlow? (layout : Layout) (token : Token) (place : Place) (rest : List Place) :
    Option Layout := do
  let layout ← layout.addCandidate? place
  return { (layout.push token).allowKey true |>.goTo rest with
    candidate? := none
    outer := layout.candidate? :: layout.outer }

def closeFlow? (layout : Layout) (token : Token) (rest : List Place) : Option Layout := do
  let layout ← layout.dropCandidate?
  let layout := (layout.push token).allowKey false |>.goTo rest
  match layout.outer with
  | candidate? :: outer => return { layout with candidate?, outer }
  | [] => return layout

def readSeparator? (layout : Layout) (rest : List Place) : Option Layout := do
  let layout ← layout.dropCandidate?
  return (layout.push .separator).allowKey true |>.goTo rest

def readEntry? (layout : Layout) (place : Place) (rest : List Place) : Option Layout := do
  let layout ← layout.openBlock? .sequenceStart place
  let layout ← layout.dropCandidate?
  return (layout.push .entry).allowKey true |>.goTo rest

def readKey? (layout : Layout) (place : Place) (rest : List Place) : Option Layout := do
  let layout ← layout.openBlock? .mappingStart place
  let layout ← layout.dropCandidate?
  return (layout.push .key).allowKey (!layout.inFlow) |>.goTo rest

/-- Makes the candidate a key. -/
def fillCandidate (layout : Layout) (candidate : Candidate) : Layout :=
  let column := candidate.place.column
  let filled := { layout with candidate? := none, keyAllowed := false }
  if layout.opensAt column then
    { filled with
      chunks := layout.chunks.fill candidate.before [.mappingStart, .key]
      columns := column :: layout.columns }
  else { filled with chunks := layout.chunks.fill candidate.before [.key] }

def readValue? (layout : Layout) (place : Place) (rest : List Place) : Option Layout := do
  match layout.candidate? with
  | some candidate => return ((layout.fillCandidate candidate).push .value).goTo rest
  | none =>
    let layout ← layout.openBlock? .mappingStart place
    return (layout.push .value).allowKey (!layout.inFlow) |>.goTo rest

/-- Reads something that may be or start a key, and after which no key may start. -/
def readNode? (layout : Layout) (place : Place) (content : Option (Token × List Place)) :
    Option Layout := do
  let layout ← layout.addCandidate? place
  let (token, rest) ← content
  return (layout.push token).allowKey false |>.goTo rest

def readBlock? (layout : Layout) (folded : Bool) (rest : List Place) : Option Layout := do
  let layout ← layout.dropCandidate?
  let (text, rest) ← readBlock folded layout.margin rest
  return (layout.push (.scalar (String.ofList text) false)).allowKey true |>.goTo rest

def readPlain? (layout : Layout) (place : Place) : Option Layout := do
  let layout ← layout.addCandidate? place
  let scalar ← readPlain ⟨layout.inFlow, layout.margin⟩ [] layout.rest
  return (layout.push (.scalar (String.ofList scalar.text) true)).allowKey scalar.endsLine
    |>.goTo scalar.rest

def quotedToken (content : Option (List Char × List Place)) : Option (Token × List Place) :=
  content.map fun (text, rest) => (.scalar (String.ofList text) false, rest)

/-- Reads the token that starts at the given place, which the given text follows. -/
def readToken? (layout : Layout) (place : Place) (rest : List Place) : Option Layout :=
  if place.column = 0 ∧ place.char = '%' then layout.readDirectiveLine? rest
  else if atMarker '-' layout.rest then layout.readMarker? .documentStart
  else if atMarker '.' layout.rest then layout.readMarker? .documentEnd
  else
    match place.char with
    | '[' => layout.openFlow? .flowSequenceStart place rest
    | '{' => layout.openFlow? .flowMappingStart place rest
    | ']' => layout.closeFlow? .flowSequenceEnd rest
    | '}' => layout.closeFlow? .flowMappingEnd rest
    | ',' => layout.readSeparator? rest
    | '-' => if atGap rest then layout.readEntry? place rest else layout.readPlain? place
    | '?' =>
      if layout.inFlow || atGap rest then layout.readKey? place rest
      else layout.readPlain? place
    | ':' =>
      if layout.inFlow || atGap rest then layout.readValue? place rest
      else layout.readPlain? place
    | '*' => layout.readNode? place ((readName rest).map fun (name, rest) => (.alias name, rest))
    | '&' => layout.readNode? place ((readName rest).map fun (name, rest) => (.anchor name, rest))
    | '!' =>
      layout.readNode? place
        ((readTag layout.inFlow rest).map fun (handle?, rest) => (.tag handle?, rest))
    | '\'' => layout.readNode? place (quotedToken (readSingleQuoted [] rest))
    | '"' => layout.readNode? place (quotedToken (readDoubleQuoted false [] rest))
    | '|' => if layout.inFlow then none else layout.readBlock? false rest
    | '>' => if layout.inFlow then none else layout.readBlock? true rest
    | '#' | '%' | '@' | '\x60' => none
    | c => if isGap c then none else layout.readPlain? place

/-- Reads all tokens.  Every token takes at least one character, so as many rounds as
there are characters, and one more for the end, are enough. -/
def readTokens? : Nat → Layout → Option (List Token)
  | 0, _ => none
  | rounds + 1, layout => do
    let layout := layout.toNextToken
    match layout.rest with
    | [] => do
      let layout ← layout.closeAllBlocks.dropCandidate?
      return layout.chunks.tokens
    | place :: rest =>
      let layout ← layout.dropAllStale? place
      (← (layout.closeBlocks (place.column < ·)).readToken? place rest).readTokens? rounds

end Layout

/-- The tokens of a document. -/
def tokens? (source : String) : Option (List Token) := do
  let text ← places? source
  (Layout.ofText text).readTokens? (text.length + 1)

end ClassNames.Yaml
