import ClassNames.Json.Node
import ClassNames.Json.Writer

/-!
# Written JSON is read back

Reading is one pass over the tokens with a stack of what is still open, so what is
written for a value has to be looked at where it stands.  In front of any text and
inside of any open arrays and objects, a written string, array or object has the one
effect of completing the value that it stands for.  The whole text of a document is the
case where nothing is open and nothing follows.
-/

namespace ClassNames.Json

/-- The piece that a written character is read back as.  Only a control character
without a letter of its own comes back as a number. -/
def pieceOf (c : Char) : Piece :=
  if c.toNat < 0x20 ∧ c ∉ ['\x08', '\x0c', '\n', '\r', '\t'] then .unit c.toNat else .char c

def piecesOf (text : String) : List Piece := text.toList.map pieceOf

/-! ## Pieces stand for the text -/

theorem textOfPieces?_unit_cons {code : Nat} (hhigh : isHighSurrogate code = false)
    (hlow : isLowSurrogate code = false) (pieces : List Piece) :
    textOfPieces? (.unit code :: pieces) =
      (textOfPieces? pieces).map (Char.ofNat code :: ·) := by
  rw [textOfPieces?.eq_def]
  split <;> simp_all

theorem textOfPieces?_pieceOf_cons (c : Char) (pieces : List Piece) :
    textOfPieces? (pieceOf c :: pieces) = (textOfPieces? pieces).map (c :: ·) := by
  unfold pieceOf
  split
  case isTrue hcode =>
    have hhigh : isHighSurrogate c.toNat = false := by
      simp only [isHighSurrogate, Bool.and_eq_false_iff, decide_eq_false_iff_not]
      omega
    have hlow : isLowSurrogate c.toNat = false := by
      simp only [isLowSurrogate, Bool.and_eq_false_iff, decide_eq_false_iff_not]
      omega
    rw [textOfPieces?_unit_cons hhigh hlow, Char.ofNat_toNat]
  case isFalse => rw [textOfPieces?]

theorem textOfPieces?_piecesOf (text : String) :
    textOfPieces? (piecesOf text) = some text.toList := by
  unfold piecesOf
  induction text.toList with
  | nil => rfl
  | cons c chars ih => rw [List.map_cons, textOfPieces?_pieceOf_cons, ih, Option.map_some]

/-! ## Strings -/

/-- Inside a string, what is written is read as the pieces. -/
def ReadsAs (written : List Char) (pieces : List Piece) : Prop :=
  ∀ rest found after, readString rest = some (found, after) →
    readString (written ++ rest) = some (pieces ++ found, after)

theorem readsAs_nil : ReadsAs [] [] := by
  intro rest found after hrest
  exact hrest

theorem ReadsAs.append {left right : List Char} {leftPieces rightPieces : List Piece}
    (hleft : ReadsAs left leftPieces) (hright : ReadsAs right rightPieces) :
    ReadsAs (left ++ right) (leftPieces ++ rightPieces) := by
  intro rest found after hrest
  rw [List.append_assoc, List.append_assoc]
  exact hleft _ _ _ (hright _ _ _ hrest)

theorem readsAs_letter {letter c : Char} (hletter : shortEscape? letter = some c) :
    ReadsAs ['\\', letter] [.char c] := by
  intro rest found after hrest
  have hu : letter ≠ 'u' := by
    rintro rfl
    cases hletter
  simp [readString, hletter, hu, hrest]

theorem readsAs_code {code : Nat} (hcode : code < 65536) :
    ReadsAs ('\\' :: 'u' :: Text.fourHexDigits code) [.unit code] := by
  intro rest found after hrest
  have hvalue := Text.hexValue?_fourHexDigits hcode
  simp only [Text.fourHexDigits, List.map_cons, List.map_nil] at hvalue
  simp [Text.fourHexDigits, readString, hvalue, hrest]

theorem readsAs_plain {c : Char} (hquote : c ≠ '"') (hslash : c ≠ '\\')
    (hcontrol : ¬ c.toNat < 0x20) : ReadsAs [c] [.char c] := by
  intro rest found after hrest
  simp [readString, hslash, hcontrol, hrest]

theorem readsAs_escape (c : Char) : ReadsAs (escape c) [pieceOf c] := by
  unfold escape
  split
  case h_8 hquote hslash hback hfeed hline hreturn htab =>
    have hlong : c ∉ ['\x08', '\x0c', '\n', '\r', '\t'] := by
      simp only [List.mem_cons, List.not_mem_nil, or_false, not_or]
      exact ⟨hback, hfeed, hline, hreturn, htab⟩
    by_cases hcontrol : c.toNat < 0x20
    · rw [if_pos hcontrol, pieceOf, if_pos ⟨hcontrol, hlong⟩]
      exact readsAs_code (by omega)
    · rw [if_neg hcontrol, pieceOf, if_neg fun hcode => hcontrol hcode.1]
      exact readsAs_plain hquote hslash hcontrol
  all_goals exact readsAs_letter rfl

theorem readsAs_flatMap_escape (text : List Char) :
    ReadsAs (text.flatMap escape) (text.map pieceOf) := by
  induction text with
  | nil => exact readsAs_nil
  | cons c text ih => exact (readsAs_escape c).append ih

/-- A written string is read up to its closing quote, whatever follows. -/
theorem readString_escaped (text : String) (rest : List Char) :
    readString (text.toList.flatMap escape ++ '"' :: rest) = some (piecesOf text, rest) := by
  have hclose : readString ('"' :: rest) = some ([], rest) := by rw [readString]
  simpa [piecesOf] using readsAs_flatMap_escape text.toList _ _ _ hclose

/-! ## Tokens -/

theorem tokens?_symbol {c : Char} {token : Token} (hsymbol : symbol? c = some token)
    (rest : List Char) : tokens? (c :: rest) = (tokens? rest).map (token :: ·) := by
  have hblank : isBlank c = false := by
    revert hsymbol
    unfold symbol?
    split <;> simp [isBlank]
  rw [tokens?]
  simp [hblank, hsymbol]

theorem tokens?_quote {rest after : List Char} {pieces : List Piece}
    (hread : readString rest = some (pieces, after)) :
    tokens? ('"' :: rest) = (tokens? after).map (.string pieces :: ·) := by
  have hblank : isBlank '"' = false := rfl
  have hsymbol : symbol? '"' = none := rfl
  rw [tokens?]
  simp only [hblank, hsymbol, Bool.false_eq_true, if_false, if_true]
  split
  case h_1 hnone =>
    rw [hread] at hnone
    cases hnone
  case h_2 hsome =>
    rw [hread] at hsome
    cases hsome
    rfl

theorem tokens?_writeString (text : String) (rest : List Char) :
    tokens? (writeString text ++ rest) =
      (tokens? rest).map (.string (piecesOf text) :: ·) := by
  rw [← tokens?_quote (readString_escaped text rest)]
  simp [writeString]

theorem intercalate_cons (separator : Char) (first : List Char) (others : List (List Char)) :
    [separator].intercalate (first :: others) =
      first ++ others.flatMap (separator :: ·) := by
  induction others generalizing first with
  | nil => simp
  | cons second others ih =>
    rw [List.intercalate_cons_cons, ih, List.flatMap_cons, List.append_assoc]
    rfl

namespace Node

/-! ## Texts in a state -/

/-- The state after a text, if all of it may come. -/
def State.read? (state : State) (text : List Char) : Option State :=
  (tokens? text).bind fun tokens => tokens.foldlM State.next? state

theorem State.read?_nil (state : State) : state.read? [] = some state := by
  simp [read?, tokens?]

theorem State.read?_token {text rest : List Char} {token : Token} {state next : State}
    (htoken : tokens? text = (tokens? rest).map (token :: ·))
    (hnext : state.next? token = some next) : state.read? text = next.read? rest := by
  unfold read?
  rw [htoken, Option.bind_map]
  cases tokens? rest with
  | none => rfl
  | some tokens => simp [hnext]

theorem State.read?_symbol (c : Char) {token : Token} {state next : State}
    (hsymbol : symbol? c = some token) (hnext : state.next? token = some next)
    (rest : List Char) : state.read? (c :: rest) = next.read? rest :=
  read?_token (tokens?_symbol hsymbol rest) hnext

theorem State.read?_writeString (text : String) {state next : State}
    (hnext : state.next? (.string (piecesOf text)) = some next) (rest : List Char) :
    state.read? (writeString text ++ rest) = next.read? rest :=
  read?_token (tokens?_writeString text rest) hnext

/-- If one more entry after a comma only adds to those before it, a row of them does.
The entries before are kept in reverse order. -/
theorem State.read?_entries {Item Entry : Type} {write : Item → List Char}
    {entry : Item → Entry} {during : List Entry → State}
    (hentry : ∀ before item rest, (during before).read? (',' :: (write item ++ rest)) =
      (during (entry item :: before)).read? rest)
    (items : List Item) (before : List Entry) (rest : List Char) :
    (during before).read? ((items.map write).flatMap (',' :: ·) ++ rest) =
      (during ((items.map entry).reverse ++ before)).read? rest := by
  induction items generalizing before with
  | nil => rfl
  | cons item items ih =>
    simp only [List.map_cons, List.flatMap_cons, List.append_assoc, List.cons_append]
    rw [hentry, ih, List.reverse_cons, List.append_assoc, List.singleton_append]

/-! ## Written values -/

/-- A value may come, inside of the open arrays and objects.  The first item of an
array may come in two states, one of which also allows the end of the array. -/
inductive State.Awaits : State → List Outer → Prop
  | value (outer : List Outer) : Awaits (.value outer) outer
  | firstItem (outer : List Outer) : Awaits (.firstItem outer) (.array [] :: outer)

theorem State.Awaits.next? {state : State} {outer : List Outer} (hawaits : state.Awaits outer)
    {token : Token} (htoken : token ≠ .closeBracket) :
    state.next? token = State.ofValue? outer token := by
  cases hawaits with
  | value => rw [State.next?]
  | firstItem outer =>
    rw [State.next?]
    exact htoken

/-- Wherever a value may come, the text completes this one. -/
def Writes (written : List Char) (node : Node) : Prop :=
  ∀ {state : State} {outer : List Outer}, state.Awaits outer → ∀ rest,
    state.read? (written ++ rest) = (State.complete node outer).read? rest

theorem writes_string (text : String) :
    Writes (writeString text) (.string (piecesOf text)) := by
  intro state outer hawaits rest
  exact State.read?_writeString text (hawaits.next? (by simp)) rest

theorem writes_array {Item : Type} {write : Item → List Char} {node : Item → Node}
    (hitem : ∀ item, Writes (write item) (node item)) (items : List Item) :
    Writes (writeArray (items.map write)) (.array (items.map node)) := by
  intro state outer hawaits rest
  have hopen := State.read?_symbol '[' rfl (hawaits.next? (by simp))
  have hcomma (before : List Node) (item : Item) (rest : List Char) :
      (State.afterItem outer before).read? (',' :: (write item ++ rest)) =
        (State.afterItem outer (node item :: before)).read? rest := by
    rw [State.read?_symbol ',' rfl rfl, hitem item (.value _), State.complete]
  cases items with
  | nil => exact (hopen _).trans (State.read?_symbol ']' rfl rfl rest)
  | cons item items =>
    simp only [writeArray, List.map_cons, intercalate_cons, List.cons_append,
      List.append_assoc, List.nil_append]
    rw [hopen, hitem item (.firstItem outer), State.complete,
      State.read?_entries hcomma, State.read?_symbol ']' rfl rfl]
    simp

section Object

variable {Value : Type} {write : Value → List Char} {node : Value → Node}

/-- One member, where its name may come. -/
theorem read?_member (hvalue : ∀ value, Writes (write value) (node value)) (name : String)
    (value : Value) {state : State} {outer : List Outer} {before : List (List Piece × Node)}
    (hname : state.next? (.string (piecesOf name)) =
      some (.colon outer before (piecesOf name))) (rest : List Char) :
    state.read? (writeString name ++ ':' :: (write value ++ rest)) =
      (State.afterMember outer ((piecesOf name, node value) :: before)).read? rest := by
  rw [State.read?_writeString name hname, State.read?_symbol ':' rfl rfl,
    hvalue value (.value _), State.complete]

theorem writes_object (hvalue : ∀ value, Writes (write value) (node value))
    (members : List (String × Value)) :
    Writes (writeObject (members.map fun (name, value) => (name, write value)))
      (.object (members.map fun (name, value) => (piecesOf name, node value))) := by
  intro state outer hawaits rest
  have hopen := State.read?_symbol '{' rfl (hawaits.next? (by simp))
  have hcomma (before : List (List Piece × Node)) (member : String × Value)
      (rest : List Char) :
      (State.afterMember outer before).read?
          (',' :: (writeString member.1 ++ ':' :: write member.2 ++ rest)) =
        (State.afterMember outer ((piecesOf member.1, node member.2) :: before)).read?
          rest := by
    rw [List.append_assoc, List.cons_append, State.read?_symbol ',' rfl rfl,
      read?_member hvalue _ _ rfl]
  cases members with
  | nil => exact (hopen _).trans (State.read?_symbol '}' rfl rfl rest)
  | cons member members =>
    simp only [writeObject, List.map_cons, List.map_map, Function.comp_def, intercalate_cons,
      List.cons_append, List.append_assoc, List.nil_append]
    rw [hopen, read?_member hvalue _ _ rfl, State.read?_entries hcomma,
      State.read?_symbol '}' rfl rfl]
    simp

end Object

/-- A written value alone is a text with just this value. -/
theorem ofText?_of_writes {written : List Char} {node : Node} (hwrites : Writes written node) :
    ofText? (String.ofList written) = some node := by
  have hread : (State.value []).read? written = some (.finished node) := by
    simpa [State.complete, State.read?_nil] using hwrites (.value []) []
  unfold State.read? at hread
  rw [Option.bind_eq_some_iff] at hread
  obtain ⟨tokens, htokens, hfold⟩ := hread
  simp [ofText?, ofTokens?, htokens, hfold]

end Node

end ClassNames.Json
