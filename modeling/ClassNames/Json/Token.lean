import ClassNames.Text.Hex

/-!
# JSON tokens

A JSON text is a sequence of symbols, strings and scalars with blanks between them.
A string is kept as the pieces it is written with, because an escape names a UTF-16
unit, and only pieces whose surrogates come in pairs stand for a text.
-/

namespace ClassNames.Json

/-- A part of a written string: a character, or a UTF-16 unit given by number. -/
inductive Piece where
  | char (c : Char)
  | unit (code : Nat)
deriving DecidableEq, Repr

inductive Token where
  | openBrace
  | closeBrace
  | openBracket
  | closeBracket
  | colon
  | comma
  | string (pieces : List Piece)
  /-- A number, `true`, `false` or `null`. -/
  | scalar
deriving DecidableEq, Repr

def isHighSurrogate (code : Nat) : Bool :=
  0xd800 ≤ code && code ≤ 0xdbff

def isLowSurrogate (code : Nat) : Bool :=
  0xdc00 ≤ code && code ≤ 0xdfff

/-- The characters that the pieces stand for.  A high surrogate has to be followed
by a low one, and both together are one character. -/
def textOfPieces? : List Piece → Option (List Char)
  | [] => some []
  | .char c :: rest => (textOfPieces? rest).map (c :: ·)
  | .unit high :: .unit low :: rest =>
    if isHighSurrogate high then
      if isLowSurrogate low then
        (textOfPieces? rest).map
          (Char.ofNat (0x10000 + (high - 0xd800) * 0x400 + (low - 0xdc00)) :: ·)
      else none
    else if isLowSurrogate high then none
    else (textOfPieces? (.unit low :: rest)).map (Char.ofNat high :: ·)
  | .unit code :: rest =>
    if isHighSurrogate code || isLowSurrogate code then none
    else (textOfPieces? rest).map (Char.ofNat code :: ·)

/-- The character that an escape of one letter stands for. -/
def shortEscape? : Char → Option Char
  | '"' => some '"'
  | '\\' => some '\\'
  | '/' => some '/'
  | 'b' => some '\x08'
  | 'f' => some '\x0c'
  | 'n' => some '\n'
  | 'r' => some '\r'
  | 't' => some '\t'
  | _ => none

/-- The pieces up to the closing quote, and the text after it.  Control characters
have to be escaped. -/
def readString : List Char → Option (List Piece × List Char)
  | '"' :: rest => some ([], rest)
  | '\\' :: 'u' :: a :: b :: c :: d :: rest => do
    let code ← Text.hexValue? [a, b, c, d]
    let (pieces, after) ← readString rest
    return (.unit code :: pieces, after)
  | '\\' :: letter :: rest => do
    let c ← shortEscape? letter
    let (pieces, after) ← readString rest
    return (.char c :: pieces, after)
  | c :: rest =>
    if c.toNat < 0x20 ∨ c = '\\' then none
    else do
      let (pieces, after) ← readString rest
      return (.char c :: pieces, after)
  | [] => none

def isBlank (c : Char) : Bool :=
  c == ' ' || c == '\n' || c == '\t' || c == '\r'

def symbol? : Char → Option Token
  | '{' => some .openBrace
  | '}' => some .closeBrace
  | '[' => some .openBracket
  | ']' => some .closeBracket
  | ':' => some .colon
  | ',' => some .comma
  | _ => none

/-- Belongs to a scalar: neither blank nor a symbol nor a quote. -/
def isScalarChar (c : Char) : Bool :=
  !isBlank c && (symbol? c).isNone && c != '"'

/-- Nothing, or an `e` of either case, a sign and digits. -/
def isExponent : List Char → Bool
  | [] => true
  | e :: rest =>
    let digits := match rest with
      | '+' :: digits | '-' :: digits => digits
      | digits => digits
    (e == 'e' || e == 'E') && !digits.isEmpty && digits.all Char.isDigit

/-- An exponent, or a point and digits before one. -/
def isFraction : List Char → Bool
  | '.' :: rest =>
    !(rest.takeWhile Char.isDigit).isEmpty && isExponent (rest.dropWhile Char.isDigit)
  | rest => isExponent rest

/-- A number has an optional minus sign, digits without a leading zero, and maybe a
fraction and an exponent. -/
def isNumber (word : List Char) : Bool :=
  let unsigned := match word with
    | '-' :: rest => rest
    | rest => rest
  match unsigned with
  | '0' :: rest => isFraction rest
  | rest =>
    !(rest.takeWhile Char.isDigit).isEmpty && isFraction (rest.dropWhile Char.isDigit)

def isScalar (word : List Char) : Bool :=
  isNumber word || word == "true".toList || word == "false".toList || word == "null".toList

theorem length_lt_of_readString {text after : List Char} {pieces : List Piece}
    (h : readString text = some (pieces, after)) : after.length < text.length := by
  fun_induction readString text generalizing pieces after with
  | case1 rest =>
    cases h
    simp
  | case2 a b c d rest ih =>
    simp only [Option.bind_eq_bind, Option.bind_eq_some_iff] at h
    obtain ⟨code, _, ⟨found, tail⟩, hread, hsome⟩ := h
    cases hsome
    have := ih hread
    simp only [List.length_cons]
    omega
  | case3 letter rest _ ih =>
    simp only [Option.bind_eq_bind, Option.bind_eq_some_iff] at h
    obtain ⟨c, _, ⟨found, tail⟩, hread, hsome⟩ := h
    cases hsome
    have := ih hread
    simp only [List.length_cons]
    omega
  | case4 c rest _ _ _ hbad => simp at h
  | case5 c rest _ _ _ hgood ih =>
    simp only [Option.bind_eq_bind, Option.bind_eq_some_iff] at h
    obtain ⟨⟨found, tail⟩, hread, hsome⟩ := h
    cases hsome
    have := ih hread
    simp only [List.length_cons]
    omega
  | case6 => simp at h

/-- The tokens of a text, or nothing if a part of it is no token. -/
def tokens? (text : List Char) : Option (List Token) :=
  match text with
  | [] => some []
  | c :: rest =>
    if isBlank c then tokens? rest
    else if let some token := symbol? c then (tokens? rest).map (token :: ·)
    else if c = '"' then
      match h : readString rest with
      | none => none
      | some (pieces, after) =>
        have := length_lt_of_readString h
        (tokens? after).map (.string pieces :: ·)
    else if isScalar (c :: rest.takeWhile isScalarChar) then
      have := (List.dropWhile_sublist isScalarChar (l := rest)).length_le
      (tokens? (rest.dropWhile isScalarChar)).map (.scalar :: ·)
    else none
termination_by text.length

end ClassNames.Json
