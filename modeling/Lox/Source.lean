import Lox.Diagnostic

/-!
# Source texts

A source is cut into segments: blanks, tokens, and characters that make no token. Each cut takes
the longest piece of its class, and no character is lost. `Source.items` keeps the tokens and the
lexical problems in their order, with line numbers, and closes with the one end token.
-/

namespace Lox

namespace Source

/-! ### Classes of characters -/

/-- The characters that separate tokens without meaning anything. -/
def isSpace (c : Char) : Bool := c == ' ' || c == '\r' || c == '\t' || c == '\n'

/-- ASCII letters and the underscore start a word. -/
def isLetter (c : Char) : Bool := c.isAlpha || c == '_'

def isWordChar (c : Char) : Bool := isLetter c || c.isDigit

/-! ### Segments -/

/-- What a piece of a source is. -/
inductive Class where
  /-- A run of spaces, or a comment without the newline that ends it. -/
  | blank
  | token (kind : Token.Kind)
  /-- One character that starts no token. -/
  | unexpected (c : Char)
  /-- A string that runs to the end of the source. -/
  | unterminated
  deriving DecidableEq

/-- A piece of a source with what it is. -/
structure Segment where
  text : List Char
  cls : Class
  deriving DecidableEq

/-- The kind of a word. -/
def wordKind (word : List Char) : Token.Kind :=
  match Keyword.ofSpelling? (String.ofList word) with
  | some k => .keyword k
  | none => .identifier

/-- Digits, and after a point more digits when at least one follows. -/
def numberText (cs : List Char) : List Char :=
  let whole := cs.takeWhile Char.isDigit
  match cs.dropWhile Char.isDigit with
  | '.' :: rest =>
    let fraction := rest.takeWhile Char.isDigit
    -- A point with no digit after it is left to the next segment.
    if fraction = [] then whole else whole ++ '.' :: fraction
  | _ => whole

/-- The value of a number literal. -/
def numberValue (text : List Char) : Float :=
  Number.ofParts (text.takeWhile Char.isDigit) ((text.dropWhile Char.isDigit).drop 1) 0

/-- The symbol at the start of the characters, the longer one of two. -/
def symbol? : List Char → Option Symbol
  | '(' :: _ => some .leftParen
  | ')' :: _ => some .rightParen
  | '\x7b' :: _ => some .leftBrace
  | '\x7d' :: _ => some .rightBrace
  | ',' :: _ => some .comma
  | '.' :: _ => some .dot
  | '-' :: _ => some .minus
  | '+' :: _ => some .plus
  | ';' :: _ => some .semicolon
  | '/' :: _ => some .slash
  | '*' :: _ => some .star
  | '!' :: '=' :: _ => some .bangEqual
  | '!' :: _ => some .bang
  | '=' :: '=' :: _ => some .equalEqual
  | '=' :: _ => some .equal
  | '<' :: '=' :: _ => some .lessEqual
  | '<' :: _ => some .less
  | '>' :: '=' :: _ => some .greaterEqual
  | '>' :: _ => some .greater
  | _ => none

/-- A string from its opening quote on. -/
def stringSegment (body : List Char) : Segment :=
  let text := body.takeWhile (· != '"')
  match body.dropWhile (· != '"') with
  | _ :: _ => ⟨'"' :: (text ++ ['"']), .token (.string (String.ofList text))⟩
  | [] => ⟨'"' :: text, .unterminated⟩

/-- The first segment of the characters `c :: rest`. -/
def firstSegment (c : Char) (rest : List Char) : Segment :=
  if isSpace c then ⟨c :: rest.takeWhile isSpace, .blank⟩
  -- A comment; a slash alone is a symbol.
  else if c = '/' ∧ rest.head? = some '/' then ⟨c :: rest.takeWhile (· != '\n'), .blank⟩
  else if c = '"' then stringSegment rest
  else if c.isDigit then
    let text := numberText (c :: rest)
    ⟨text, .token (.number (numberValue text))⟩
  else if isLetter c then
    let text := c :: rest.takeWhile isWordChar
    ⟨text, .token (wordKind text)⟩
  else
    match symbol? (c :: rest) with
    | some s => ⟨s.spelling.toList, .token (.symbol s)⟩
    | none => ⟨[c], .unexpected c⟩

/-! ### Every segment is a piece of the source -/

/-- A segment is not empty, so cutting it off leaves less. -/
theorem firstSegment_text_ne_nil (c : Char) (rest : List Char) :
    (firstSegment c rest).text ≠ [] := by
  unfold firstSegment
  split
  · simp
  split
  · simp
  split
  · unfold stringSegment
    split <;> simp
  split
  case isTrue digit =>
    -- The digit itself is part of the number.
    simp only [numberText, List.takeWhile_cons, digit, if_true]
    split
    · split <;> simp
    · simp
  split
  · simp
  split
  case h_1 s _ => cases s <;> decide
  · simp

/-- The symbol that is found is what the characters start with. -/
theorem spelling_prefix_of_symbol? {cs : List Char} {s : Symbol} (found : symbol? cs = some s) :
    s.spelling.toList <+: cs := by
  unfold symbol? at found
  split at found <;> simp only [Option.some.injEq, reduceCtorEq] at found <;> subst found <;>
    exact ⟨_, rfl⟩

/-- Digits, a point and digits taken from the front are the front. -/
theorem numberText_isPrefix (cs : List Char) : numberText cs <+: cs := by
  have cut := List.takeWhile_append_dropWhile (p := Char.isDigit) (l := cs)
  unfold numberText
  split
  case h_1 rest after =>
    dsimp only
    split
    · exact List.takeWhile_prefix _
    · rw [after] at cut
      refine ⟨rest.dropWhile Char.isDigit, ?_⟩
      simp only [List.append_assoc, List.cons_append, List.takeWhile_append_dropWhile]
      exact cut
  case h_2 => exact List.takeWhile_prefix _

/-- A string is what the characters after its quote start with. -/
theorem stringSegment_isPrefix (body : List Char) : (stringSegment body).text <+: '"' :: body := by
  have cut := List.takeWhile_append_dropWhile (p := (· != '"')) (l := body)
  unfold stringSegment
  split
  case h_1 quote rest after =>
    have closing : quote = '"' := by
      have stop := List.head_dropWhile_not (· != '"') (l := body) (by simp [after])
      simpa [after] using stop
    refine ⟨rest, ?_⟩
    rw [after, closing] at cut
    simp only [List.cons_append, List.append_assoc, List.nil_append]
    rw [cut]
  case h_2 => exact List.cons_prefix_cons.mpr ⟨rfl, List.takeWhile_prefix _⟩

/-- A segment is what the characters start with. -/
theorem firstSegment_isPrefix (c : Char) (rest : List Char) :
    (firstSegment c rest).text <+: c :: rest := by
  have run (p : Char → Bool) : c :: rest.takeWhile p <+: c :: rest :=
    List.cons_prefix_cons.mpr ⟨rfl, List.takeWhile_prefix _⟩
  unfold firstSegment
  split
  · exact run _
  split
  · exact run _
  split
  case isTrue quote => exact quote ▸ stringSegment_isPrefix rest
  split
  · exact numberText_isPrefix _
  split
  · exact run _
  split
  case h_1 found => exact spelling_prefix_of_symbol? found
  · exact List.cons_prefix_cons.mpr ⟨rfl, List.nil_prefix⟩

/-! ### Cutting a source -/

/-- The segments of the characters, after those already cut off. -/
def segmentsFrom (done : Array Segment) : List Char → Array Segment
  | [] => done
  | c :: rest =>
    let segment := firstSegment c rest
    segmentsFrom (done.push segment) ((c :: rest).drop segment.text.length)
termination_by cs => cs.length
decreasing_by
  have := List.length_pos_iff.mpr (firstSegment_text_ne_nil c rest)
  simp only [List.length_drop, List.length_cons]
  omega

/-- The segments of a source, in order. -/
def segments (source : String) : List Segment := (segmentsFrom #[] source.toList).toList

theorem flatMap_text_segmentsFrom (done : Array Segment) (cs : List Char) :
    (segmentsFrom done cs).toList.flatMap Segment.text =
      done.toList.flatMap Segment.text ++ cs := by
  fun_induction segmentsFrom done cs with
  | case1 done => simp
  | case2 done c rest segment ih =>
    have cut := List.prefix_iff_eq_append.mp (firstSegment_isPrefix c rest)
    rw [ih, Array.toList_push, List.flatMap_append, List.append_assoc]
    simpa using cut

/-- The segments of a source make up the source. -/
theorem flatMap_text_segments (source : String) :
    (segments source).flatMap Segment.text = source.toList := by
  simp [segments, flatMap_text_segmentsFrom]

/-! ### Items -/

/-- What the readers of a source see. -/
inductive Item where
  | token (t : Token)
  | problem (line : Nat) (cause : LexicalError)
  deriving DecidableEq

/-- The number of line ends in a piece of text. -/
def newlines (text : List Char) : Nat := text.count '\n'

/-- The item of a segment that ends on the given line; a blank has none. -/
def Segment.item? (line : Nat) (segment : Segment) : Option Item :=
  match segment.cls with
  | .blank => none
  | .token kind => some (.token ⟨kind, String.ofList segment.text, line⟩)
  | .unexpected c => some (.problem line (.unexpectedCharacter c))
  | .unterminated => some (.problem line .unterminatedString)

/-- The items of segments of which the first starts on the given line, and the end token. -/
def itemsFrom (line : Nat) (done : Array Item) : List Segment → Array Item
  | [] => done.push (.token ⟨.eof, "", line⟩)
  | segment :: rest =>
    let line := line + newlines segment.text
    -- A string may hold line ends, so the line is that of the segment's end.
    match segment.item? line with
    | some item => itemsFrom line (done.push item) rest
    | none => itemsFrom line done rest

/-- The items of a source: tokens and lexical problems in order, and one end token last. -/
def items (source : String) : List Item := (itemsFrom 1 #[] (segments source)).toList

def Item.token? : Item → Option Token
  | .token t => some t
  | .problem _ _ => none

def Item.diagnostic? : Item → Option Diagnostic
  | .token _ => none
  | .problem line cause => some (.lexical line cause)

/-- The tokens of a source, ending with the end token. -/
def tokens (source : String) : List Token := (items source).filterMap Item.token?

/-- The lexical problems of a source. -/
def problems (source : String) : List Diagnostic := (items source).filterMap Item.diagnostic?

end Source

end Lox
