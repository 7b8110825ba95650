import ClassNames.Json.Token

/-!
# JSON values and nodes

A value is data, with the members of an object in the order of its text.  A node is the
tree of a JSON text.  It is built in one pass over the tokens with a stack of the arrays
and objects that are still open, and every state of the pass says what may come next.
-/

namespace ClassNames.Json

inductive Value where
  | null
  | bool (flag : Bool)
  | number (value : Float)
  | string (text : String)
  | array (items : List Value)
  | object (members : List (String × Value))
deriving Inhabited

/-- Null, false, zero, a number that is none and the empty text are false; every
array and every object is true. -/
def Value.isTruthy : Value → Bool
  | .null => false
  | .bool flag => flag
  | .number value => !(value == 0 || value.isNaN)
  | .string text => !text.isEmpty
  | .array _ | .object _ => true

/-- A value with its strings as they are written and without its scalars. -/
inductive Node where
  | scalar
  | string (pieces : List Piece)
  | array (items : List Node)
  | object (members : List (List Piece × Node))
deriving Inhabited

namespace Node

/-- An array or object around the place where a value is missing, with what comes
before that place in reverse order. -/
inductive Outer where
  | array (items : List Node)
  | object (members : List (List Piece × Node)) (name : List Piece)

/-- What may come next, inside of the open arrays and objects, innermost first. -/
inductive State where
  | value (outer : List Outer)
  | firstItem (outer : List Outer)
  | afterItem (outer : List Outer) (items : List Node)
  | firstKey (outer : List Outer)
  | key (outer : List Outer) (members : List (List Piece × Node))
  | colon (outer : List Outer) (members : List (List Piece × Node)) (name : List Piece)
  | afterMember (outer : List Outer) (members : List (List Piece × Node))
  | finished (node : Node)

/-- A value is complete. -/
def State.complete (node : Node) : List Outer → State
  | [] => .finished node
  | .array items :: outer => .afterItem outer (node :: items)
  | .object members name :: outer => .afterMember outer ((name, node) :: members)

/-- A token where a value has to come. -/
def State.ofValue? (outer : List Outer) : Token → Option State
  | .scalar => some (.complete .scalar outer)
  | .string pieces => some (.complete (.string pieces) outer)
  | .openBracket => some (.firstItem outer)
  | .openBrace => some (.firstKey outer)
  | _ => none

/-- The state after one more token, if the token may come. -/
def State.next? : State → Token → Option State
  | .value outer, token => State.ofValue? outer token
  | .firstItem outer, .closeBracket => some (.complete (.array []) outer)
  | .firstItem outer, token => State.ofValue? (.array [] :: outer) token
  | .afterItem outer items, .comma => some (.value (.array items :: outer))
  | .afterItem outer items, .closeBracket => some (.complete (.array items.reverse) outer)
  | .firstKey outer, .closeBrace => some (.complete (.object []) outer)
  | .firstKey outer, .string name => some (.colon outer [] name)
  | .key outer members, .string name => some (.colon outer members name)
  | .colon outer members name, .colon => some (.value (.object members name :: outer))
  | .afterMember outer members, .comma => some (.key outer members)
  | .afterMember outer members, .closeBrace =>
    some (.complete (.object members.reverse) outer)
  | _, _ => none

/-- The only value in a sequence of tokens. -/
def ofTokens? (tokens : List Token) : Option Node :=
  match tokens.foldlM State.next? (.value []) with
  | some (.finished node) => some node
  | _ => none

/-- The only value in a text. -/
def ofText? (text : String) : Option Node := do
  ofTokens? (← tokens? text.toList)

end Node

end ClassNames.Json
