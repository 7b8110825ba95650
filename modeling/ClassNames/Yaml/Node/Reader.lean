import Std.Data.ExtTreeMap
import ClassNames.Yaml.Layout
import ClassNames.Yaml.Node

/-!
# Reading nodes

The tree of the only document in a text, by recursive descent over its tokens.  An
anchor takes the number of different names that were bound before it, and an alias
the number that its name has at that point.  Where two anchors take one number, the
later one stands for it.
-/

namespace ClassNames.Yaml.Node

/-- Tokens that are read in part. -/
structure Reader where
  rest : List Token
  /-- The handles that tags may use without a declaration of their own. -/
  handles : List String
  /-- The numbers of the names of anchors. -/
  anchors : Std.ExtTreeMap String Nat

abbrev Reading := StateT Reader Option

/-- The next token, which stays. -/
def peek : Reading (Option Token) := do
  return (← get).rest.head?

/-- Passes over one token. -/
def advance : Reading Unit :=
  modify fun reader => { reader with rest := reader.rest.tail }

/-- Passes over the token if it comes next. -/
def accept (token : Token) : Reading Bool := do
  if (← peek) = some token then
    advance
    return true
  else return false

/-- The next token is one of the given ones. -/
def comes (tokens : List Token) : Reading Bool := do
  return (← peek).any (· ∈ tokens)

/-- Numbers an anchor. -/
def bind (name : String) : Reading Nat := do
  let reader ← get
  let number := reader.anchors.size
  set { reader with anchors := reader.anchors.insert name number }
  return number

/-- The number of an alias. -/
def numberOf (name : String) : Reading Nat := do
  (← get).anchors[name]?

def readAnchor? : Reading (Option String) := do
  match ← peek with
  | some (.anchor name) => do
    advance
    return some name
  | _ => return none

/-- Passes over a tag if one comes next, whose handle has to be declared. -/
def readTag? : Reading Bool := do
  match ← peek with
  | some (.tag handle?) => do
    advance
    guard (handle?.all (· ∈ (← get).handles))
    return true
  | _ => return false

/-- The anchor before a node, and whether there is an anchor or a tag.  They stand in
either order. -/
def readProperties : Reading (Option String × Bool) := do
  match ← readAnchor? with
  | some name => do
    discard readTag?
    return (some name, true)
  | none =>
    if ← readTag? then return (← readAnchor?, true)
    else return (none, false)

/-- Where a node stands.  Block collections start only outside of flow collections,
and a sequence as a value in a block mapping needs no indentation. -/
inductive Position where
  | flow
  | block
  | blockValue
deriving DecidableEq

mutual

/-- Reads a node. -/
def read : Nat → Position → Reading Node
  | 0, _ => failure
  | fuel + 1, position => do
    match ← peek with
    | some (.alias name) => do
      advance
      return .alias (← numberOf name)
    | _ => do
      let (anchor?, marked) ← readProperties
      match anchor? with
      | some name => do
        let number ← bind name
        return .anchored number (← readContent fuel position marked)
      | none => readContent fuel position marked

/-- Reads a node after its anchor and its tag.  A node that has one of them may be
void. -/
def readContent : Nat → Position → Bool → Reading Node
  | 0, _, _ => failure
  | fuel + 1, position, marked => do
    match ← peek, position with
    | some .entry, .blockValue => return .sequence (← readEntries fuel)
    | some (.scalar text plain), _ => do
      advance
      return .scalar text plain
    | some .flowSequenceStart, _ => do
      advance
      return .sequence (← readFlowItems fuel true)
    | some .flowMappingStart, _ => do
      advance
      return .mapping (← readFlowMembers fuel true)
    | some .sequenceStart, .block | some .sequenceStart, .blockValue => do
      advance
      return .sequence (← readItems fuel)
    | some .mappingStart, .block | some .mappingStart, .blockValue => do
      advance
      return .mapping (← readMembers fuel)
    | _, _ => do
      guard marked
      return void

/-- Reads a node, which is void if one of the given tokens comes next. -/
def readUnless : Nat → List Token → Position → Reading Node
  | 0, _, _ => failure
  | fuel + 1, ends, position => do
    if ← comes ends then return void else read fuel position

/-- Reads the entries of a block sequence up to its end. -/
def readItems : Nat → Reading (List Node)
  | 0 => failure
  | fuel + 1 => do
    if ← accept .entry then
      let item ← readUnless fuel [.entry, .blockEnd] .block
      return item :: (← readItems fuel)
    else
      guard (← accept .blockEnd)
      return []

/-- Reads the entries of a sequence without indentation. -/
def readEntries : Nat → Reading (List Node)
  | 0 => failure
  | fuel + 1 => do
    if ← accept .entry then
      let item ← readUnless fuel [.entry, .key, .value, .blockEnd] .block
      return item :: (← readEntries fuel)
    else return []

/-- Reads the members of a block mapping up to its end. -/
def readMembers : Nat → Reading (List (Node × Node))
  | 0 => failure
  | fuel + 1 => do
    if ← accept .key then
      let key ← readUnless fuel [.key, .value, .blockEnd] .blockValue
      let value ←
        if ← accept .value then readUnless fuel [.key, .value, .blockEnd] .blockValue
        else pure void
      return (key, value) :: (← readMembers fuel)
    else
      guard (← accept .blockEnd)
      return []

/-- Reads the entries of a flow sequence up to its end.  A pair among them is a
mapping of its own. -/
def readFlowItems : Nat → Bool → Reading (List Node)
  | 0, _ => failure
  | fuel + 1, first => do
    if ← accept .flowSequenceEnd then return []
    else
      unless first do guard (← accept .separator)
      if ← accept .key then
        let pair ← readFlowPair fuel
        return .mapping [pair] :: (← readFlowItems fuel false)
      else if ← accept .flowSequenceEnd then return []
      else
        let item ← read fuel .flow
        return item :: (← readFlowItems fuel false)

/-- Reads a pair in a flow sequence after the sign of its key.  A token that leaves
the key void is passed over. -/
def readFlowPair : Nat → Reading (Node × Node)
  | 0 => failure
  | fuel + 1 => do
    let key ←
      if ← comes [.value, .separator, .flowSequenceEnd] then do
        advance
        pure void
      else read fuel .flow
    if ← accept .value then
      return (key, ← readUnless fuel [.separator, .flowSequenceEnd] .flow)
    else return (key, void)

/-- Reads the members of a flow mapping up to its end.  A member without the sign of
a key has no value. -/
def readFlowMembers : Nat → Bool → Reading (List (Node × Node))
  | 0, _ => failure
  | fuel + 1, first => do
    if ← accept .flowMappingEnd then return []
    else
      unless first do guard (← accept .separator)
      if ← accept .key then
        let key ← readUnless fuel [.value, .separator, .flowMappingEnd] .flow
        let value ←
          if ← accept .value then readUnless fuel [.separator, .flowMappingEnd] .flow
          else pure void
        return (key, value) :: (← readFlowMembers fuel false)
      else if ← accept .flowMappingEnd then return []
      else
        let key ← read fuel .flow
        return (key, void) :: (← readFlowMembers fuel false)

end

/-! ## Documents -/

/-- Only these versions are read. -/
def isVersion (major minor : Nat) : Bool :=
  major == 1 && (minor == 1 || minor == 2)

/-- Reads the directives of a document.  The version is given once and a handle
declared once. -/
def readDirectives : Nat → Bool → List String → Reading (List String)
  | 0, _, _ => failure
  | fuel + 1, versioned, declared => do
    match ← peek with
    | some (.directive (.version major minor)) => do
      guard (!versioned && isVersion major minor)
      advance
      readDirectives fuel true declared
    | some (.directive (.tag handle)) => do
      guard (handle ∉ declared)
      advance
      readDirectives fuel versioned (handle :: declared)
    | _ => return declared

def isDirective : Token → Bool
  | .directive _ => true
  | _ => false

/-- The document ends before the token. -/
def endsDocument (token : Token) : Bool :=
  isDirective token || token == .documentStart || token == .documentEnd

/-- Reads a document.  Directives need a marker of the document's start after them.
A text without tokens is a void document. -/
def readDocument (fuel : Nat) : Reading Node := do
  match ← peek with
  | none => return void
  | some token =>
    if isDirective token || token == .documentStart then
      let declared ← readDirectives fuel false []
      modify fun reader => { reader with handles := declared ++ reader.handles }
      guard (← accept .documentStart)
      match ← peek with
      | none => return void
      | some token => if endsDocument token then return void else read fuel .block
    else read fuel .block

/-- The only document in a sequence of tokens.  Markers of the document's end may
follow it.  No node takes more rounds than three for each token. -/
def ofTokens? (tokens : List Token) : Option Node := do
  let (document, reader) ←
    (readDocument (3 * tokens.length + 3)).run ⟨tokens, ["!!"], ∅⟩
  guard (reader.rest.all (· == .documentEnd))
  return document

/-- The only document in a text. -/
def ofText? (source : String) : Option Node := do
  ofTokens? (← tokens? source)

end ClassNames.Yaml.Node
