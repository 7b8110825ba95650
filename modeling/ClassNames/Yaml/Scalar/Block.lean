import ClassNames.Yaml.Place

/-!
# Block scalars

A block holds the lines that are indented as far as its first one, or as its header
says.  It keeps their breaks, or folds those between lines that follow one another
without more indentation.
-/

namespace ClassNames.Yaml

/-- What happens to the line breaks at the end of a block. -/
inductive Chomping where
  /-- The last line keeps its break. -/
  | clip
  /-- No break is kept. -/
  | strip
  /-- All breaks are kept. -/
  | keep
deriving DecidableEq, Repr

/-- The first line of a block: how it is chomped, and its indentation if given. -/
structure BlockHeader where
  chomping : Chomping
  increment? : Option Nat
deriving DecidableEq, Repr

def chomping? : Char → Option Chomping
  | '+' => some .keep
  | '-' => some .strip
  | _ => none

/-- The digit of an indentation; zero is none. -/
def increment? (c : Char) : Option Nat :=
  if '1' ≤ c ∧ c ≤ '9' then some (c.toNat - '0'.toNat) else none

/-- Reads the signs of a header, in either order.  What is no sign ends it. -/
def readHeader : List Place → BlockHeader × List Place
  | [] => (⟨.clip, none⟩, [])
  | first :: rest =>
    let after := rest.head?.map Place.char
    match chomping? first.char, increment? first.char with
    | some chomping, _ =>
      match after.bind increment? with
      | some increment => (⟨chomping, some increment⟩, rest.tail)
      | none => (⟨chomping, none⟩, rest)
    | none, some increment =>
      match after.bind chomping? with
      | some chomping => (⟨chomping, some increment⟩, rest.tail)
      | none => (⟨.clip, some increment⟩, rest)
    | none, none => (⟨.clip, none⟩, first :: rest)

/-- The empty lines before a line of a block: their breaks, the widest indentation
among them and the line, and the text from the line on. -/
structure Leading where
  breaks : List Char
  widest : Nat
  rest : List Place

/-- The place is before the given column, or no column is given. -/
def isBefore (indent? : Option Nat) (place : Place) : Bool :=
  indent?.all (place.column < ·)

/-- Reads empty lines and the indentation of the line after them, which is all of
its spaces or those up to the given column.  There, a tab is no indentation. -/
def readLeading (indent? : Option Nat) : List Place → Option Leading
  | [] => some ⟨[], 0, []⟩
  | place :: rest =>
    if isBefore indent? place && place.char == ' ' then readLeading indent? rest
    else if isBefore indent? place && place.char == '\t' then none
    else if isBreak place.char then do
      let leading ← readLeading indent? rest
      return ⟨place.char :: leading.breaks, max place.column leading.widest, leading.rest⟩
    else some ⟨[], place.column, place :: rest⟩

theorem length_le_of_readLeading {indent? : Option Nat} {text : List Place}
    {leading : Leading} (h : readLeading indent? text = some leading) :
    leading.rest.length ≤ text.length := by
  fun_induction readLeading indent? text generalizing leading with
  | case1 =>
    cases h
    simp
  | case2 place rest _ ih =>
    have := ih h
    simp only [List.length_cons]
    omega
  | case3 => simp at h
  | case4 place rest _ _ _ ih =>
    simp only [Option.bind_eq_bind, Option.bind_eq_some_iff] at h
    obtain ⟨inner, hinner, hsome⟩ := h
    cases hsome
    have := ih hinner
    simp only [List.length_cons]
    omega
  | case5 =>
    cases h
    simp

/-- The breaks between a line and the next one, or the end of the block. -/
structure Pending where
  /-- The break of the last line. -/
  lineBreak : List Char
  /-- The breaks of the empty lines after it. -/
  emptyLines : List Char
  /-- The last line starts with a blank. -/
  afterBlank : Bool

/-- The breaks before a line.  Folding replaces the single break between two lines
that do not start with a blank by a space, and leaves it out before empty lines. -/
def Pending.join (folded : Bool) (pending : Pending) (startsBlank : Bool) : List Char :=
  if folded && pending.lineBreak == ['\n'] && !pending.afterBlank && !startsBlank then
    if pending.emptyLines.isEmpty then [' '] else pending.emptyLines
  else pending.lineBreak ++ pending.emptyLines

/-- Reads the lines of a block that start in the column of its indentation. -/
def readLines (folded : Bool) (indent : Nat) (pending : Pending) (text : List Place) :
    Option (List Char × Pending × List Place) :=
  match text with
  | [] => some ([], pending, [])
  | first :: after =>
    if first.column ≠ indent then some ([], pending, first :: after)
    else
      let startsBlank := isBlank first.char
      let line := (takeChars (!isBreak ·) (first :: after)).1
      let before := pending.join folded startsBlank
      match hafter : skip (!isBreak ·) after with
      | [] => some (before ++ line, ⟨[], [], startsBlank⟩, [])
      | lineBreak :: following =>
        match h : readLeading (some indent) following with
        | none => none
        | some leading => do
          have := length_lt_of_skip hafter
          have := length_le_of_readLeading h
          let (more, last, rest) ←
            readLines folded indent ⟨[lineBreak.char], leading.breaks, startsBlank⟩ leading.rest
          return (before ++ line ++ more, last, rest)
termination_by text.length
decreasing_by
  simp only [List.length_cons] at *
  omega

/-- The breaks that are kept at the end of a block. -/
def Pending.chomp (chomping : Chomping) (pending : Pending) : List Char :=
  match chomping with
  | .strip => []
  | .clip => pending.lineBreak
  | .keep => pending.lineBreak ++ pending.emptyLines

/-- Reads a block after its sign.  The margin is the least column that is inside of
the collections around the block. -/
def readBlock (folded : Bool) (margin : Nat) (text : List Place) :
    Option (List Char × List Place) := do
  let (header, text) := readHeader text
  let text ← restOfLine? text
  let given? := header.increment?.map (margin - 1 + ·)
  let leading ← readLeading given? text
  let indent := given?.getD (max leading.widest (max margin 1))
  let (lines, pending, rest) ← readLines folded indent ⟨[], leading.breaks, false⟩ leading.rest
  return (lines ++ pending.chomp header.chomping, rest)

end ClassNames.Yaml
