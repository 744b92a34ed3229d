import Lox.Source

/-!
# The scanner

A cursor that walks over the bytes of a source and gives one item at a time. Bytes are looked at one by
one, as the characters of their value; a byte beyond ASCII is compared with nothing but such bounds as a
quote or a line end. Cutting text out of the source is only possible on the boundaries of characters;
a scanner that tries to cut elsewhere breaks off, which is the outer `none` of its results.
-/

namespace Lox

open Source (Item)

/-- The text between two places in a source, which must lie on the boundaries of characters. -/
def slice? (source : String) (first last : Nat) : Option String :=
  if valid : first ≤ last ∧ (⟨first⟩ : String.Pos.Raw).IsValid source ∧
      (⟨last⟩ : String.Pos.Raw).IsValid source then
    some (source.extract (source.pos ⟨first⟩ valid.2.1) (source.pos ⟨last⟩ valid.2.2))
  else none

/-- The first character of the text from a place on, which must lie on the boundary of characters;
there is none at the end. -/
def charFrom? (source : String) (place : Nat) : Option (Option Char) :=
  if valid : (⟨place⟩ : String.Pos.Raw).IsValid source then
    let p := source.pos ⟨place⟩ valid
    some (if within : p ≠ source.endPos then some (p.get within) else none)
  else none

structure Scanner where
  source : String
  /-- Where the piece starts that is being scanned. -/
  start : Nat
  /-- The next byte to look at. -/
  cursor : Nat
  line : Nat
  /-- Whether the end token has been given. -/
  finished : Bool

namespace Scanner

def new (source : String) : Scanner := ⟨source, 0, 0, 1, false⟩

/-- The byte at a place, as a character, and the null character past the end. -/
def byteAt (source : String) (place : Nat) : Char :=
  if within : place < source.utf8ByteSize then
    Char.ofUInt8 (source.getUTF8Byte ⟨place⟩ within)
  else '\x00'

def atEnd (s : Scanner) : Bool := s.source.utf8ByteSize ≤ s.cursor

def peek (s : Scanner) : Char := byteAt s.source s.cursor

def peekNext (s : Scanner) : Char := byteAt s.source (s.cursor + 1)

def bump (s : Scanner) : Scanner := { s with cursor := s.cursor + 1 }

/-- The piece that has been scanned. -/
def lexeme? (s : Scanner) : Option String := slice? s.source s.start s.cursor

/-- The first place from the given one on that is the end or holds a byte that fails the test. -/
def passOver (source : String) (test : Char → Bool) (place : Nat) : Nat :=
  if place < source.utf8ByteSize ∧ test (byteAt source place) then
    passOver source test (place + 1)
  else place
termination_by source.utf8ByteSize - place

/-- Passes over the bytes that satisfy a test. -/
def passing (s : Scanner) (test : Char → Bool) : Scanner :=
  { s with cursor := passOver s.source test s.cursor }

/-- What has been found from `start` up to the cursor. -/
inductive Found where
  /-- A space or a comment. -/
  | nothing
  | token (kind : Token.Kind)
  | problem (cause : LexicalError)

/-- The longer of two symbols if the next byte goes on with it, or the shorter. -/
def either (s : Scanner) (expected : Char) (longer shorter : Symbol) : Found × Scanner :=
  if s.peek = expected then (.token (.symbol longer), s.bump) else (.token (.symbol shorter), s)

/-- Goes to the quote that closes a string, or to the end, and counts the lines on the way. -/
def toQuote (s : Scanner) : Scanner :=
  if s.cursor < s.source.utf8ByteSize ∧ s.peek ≠ '"' then
    toQuote { s with
      cursor := s.cursor + 1
      line := if s.peek = '\n' then s.line + 1 else s.line }
  else s
termination_by s.source.utf8ByteSize - s.cursor

/-- A string whose opening quote has been passed. -/
def string (s : Scanner) : Option (Found × Scanner) :=
  let s := s.toQuote
  if s.atEnd then some (.problem .unterminatedString, s)
  else
    let s := s.bump
    -- The text stands between the quotes.
    (slice? s.source (s.start + 1) (s.cursor - 1)).map fun text => (.token (.string text), s)

/-- A number whose first digit has been passed. -/
def number (s : Scanner) : Option (Found × Scanner) :=
  let s := s.passing Char.isDigit
  -- A point with no digit after it is left alone.
  let s := if s.peek = '.' ∧ s.peekNext.isDigit then s.bump.passing Char.isDigit else s
  s.lexeme?.map fun text => (.token (.number (Source.numberValue text.toList)), s)

/-- A word whose first letter has been passed. -/
def word (s : Scanner) : Option (Found × Scanner) :=
  let s := s.passing Source.isWordChar
  s.lexeme?.map fun text => (.token (Source.wordKind text.toList), s)

/-- Passes a whole character that starts no token, of which `first` is the first byte. -/
def unexpected (s : Scanner) (first : Char) : Option (Found × Scanner) :=
  (charFrom? s.source s.start).map fun c? =>
    let c := c?.getD first
    (.problem (.unexpectedCharacter c), { s with cursor := s.start + c.utf8Size })

/-- Scans a space, a comment, a token or a problem from `start`, where the cursor is, on. -/
def scanToken (s : Scanner) : Option (Found × Scanner) :=
  let first := s.peek
  let s := s.bump
  match first with
  | '(' => some (.token (.symbol .leftParen), s)
  | ')' => some (.token (.symbol .rightParen), s)
  | '\x7b' => some (.token (.symbol .leftBrace), s)
  | '\x7d' => some (.token (.symbol .rightBrace), s)
  | ',' => some (.token (.symbol .comma), s)
  | '.' => some (.token (.symbol .dot), s)
  | '-' => some (.token (.symbol .minus), s)
  | '+' => some (.token (.symbol .plus), s)
  | ';' => some (.token (.symbol .semicolon), s)
  | '*' => some (.token (.symbol .star), s)
  | '!' => some (s.either '=' .bangEqual .bang)
  | '=' => some (s.either '=' .equalEqual .equal)
  | '<' => some (s.either '=' .lessEqual .less)
  | '>' => some (s.either '=' .greaterEqual .greater)
  | '/' =>
    if s.peek = '/' then
      -- The line end itself is left, to be counted.
      some (.nothing, s.passing (· != '\n'))
    else some (.token (.symbol .slash), s)
  | ' ' | '\r' | '\t' => some (.nothing, s)
  | '\n' => some (.nothing, { s with line := s.line + 1 })
  | '"' => s.string
  | first =>
    if first.isDigit then s.number
    else if Source.isLetter first then s.word
    else s.unexpected first

/-! ### Scanning goes on -/

theorem le_passOver (source : String) (test : Char → Bool) (place : Nat) :
    place ≤ passOver source test place := by
  fun_induction passOver source test place with
  | case1 place _ ih => omega
  | case2 => exact Nat.le_refl _

/-- A scanner of the same source that has come further. -/
structure Further (s s' : Scanner) : Prop where
  source : s'.source = s.source
  cursor : s.cursor ≤ s'.cursor

theorem Further.refl (s : Scanner) : Further s s := ⟨rfl, Nat.le_refl _⟩

theorem Further.trans {s₁ s₂ s₃ : Scanner} (first : Further s₁ s₂) (next : Further s₂ s₃) :
    Further s₁ s₃ :=
  ⟨next.source.trans first.source, Nat.le_trans first.cursor next.cursor⟩

theorem further_bump (s : Scanner) : Further s s.bump := ⟨rfl, Nat.le_succ _⟩

theorem further_passing (s : Scanner) (test : Char → Bool) : Further s (s.passing test) :=
  ⟨rfl, le_passOver ..⟩

theorem further_toQuote (s : Scanner) : Further s s.toQuote := by
  fun_induction toQuote s with
  | case1 s _ ih => exact ⟨ih.source, Nat.le_of_succ_le ih.cursor⟩
  | case2 s => exact .refl s

theorem further_either {s s' : Scanner} {expected : Char} {longer shorter : Symbol}
    {found : Found} (ran : s.either expected longer shorter = (found, s')) : Further s s' := by
  unfold either at ran
  split at ran
  · cases ran
    exact further_bump s
  · cases ran
    exact .refl s

theorem further_string {s s' : Scanner} {found : Found} (ran : s.string = some (found, s')) :
    Further s s' := by
  unfold string at ran
  dsimp only at ran
  split at ran
  · cases ran
    exact further_toQuote s
  · obtain ⟨text, -, same⟩ := Option.map_eq_some_iff.mp ran
    cases same
    exact (further_toQuote s).trans (further_bump _)

theorem further_number {s s' : Scanner} {found : Found} (ran : s.number = some (found, s')) :
    Further s s' := by
  unfold number at ran
  obtain ⟨text, -, same⟩ := Option.map_eq_some_iff.mp ran
  cases same
  have whole := further_passing s Char.isDigit
  split
  · exact whole.trans ((further_bump _).trans (further_passing _ _))
  · exact whole

theorem further_word {s s' : Scanner} {found : Found} (ran : s.word = some (found, s')) :
    Further s s' := by
  unfold word at ran
  obtain ⟨text, -, same⟩ := Option.map_eq_some_iff.mp ran
  cases same
  exact further_passing s _

/-- A whole character is at least a byte. -/
theorem further_unexpected {s s' : Scanner} {first : Char} {found : Found}
    (here : s.cursor = s.start + 1) (ran : s.unexpected first = some (found, s')) :
    Further s s' := by
  unfold unexpected at ran
  obtain ⟨c?, -, same⟩ := Option.map_eq_some_iff.mp ran
  cases same
  have size := Char.utf8Size_pos (c?.getD first)
  exact ⟨rfl, by simp only [here]; omega⟩

/-- Whatever is found, the cursor has moved on. -/
theorem further_scanToken {s s' : Scanner} {found : Found} (here : s.cursor = s.start)
    (ran : s.scanToken = some (found, s')) : Further s.bump s' := by
  unfold scanToken at ran
  dsimp only at ran
  split at ran
  case h_11 | h_12 | h_13 | h_14 =>
    exact further_either (Option.some.inj ran)
  case h_15 =>
    split at ran
    · cases ran
      exact further_passing ..
    · cases ran
      exact .refl _
  case h_19 =>
    cases ran
    exact ⟨rfl, Nat.le_refl _⟩
  case h_20 => exact further_string ran
  case h_21 =>
    split at ran
    · exact further_number ran
    split at ran
    · exact further_word ran
    · exact further_unexpected (congrArg (· + 1) here) ran
  all_goals
    cases ran
    exact .refl _

/-! ### Items -/

/-- A new piece starts at the cursor. -/
def restart (s : Scanner) : Scanner := { s with start := s.cursor }

/-- The next item, past any spaces and comments. -/
def seek (s : Scanner) : Option (Option Item × Scanner) :=
  if _ : s.atEnd then
    some (some (.token ⟨.eof, "", s.line⟩), { s with finished := true })
  else
    match _ : s.restart.scanToken with
    | none => none
    | some (.nothing, s') => seek s'
    | some (.token kind, s') =>
      s'.lexeme?.map fun text => (some (.token ⟨kind, text, s'.line⟩), s')
    | some (.problem cause, s') => some (some (.problem s'.line cause), s')
termination_by s.source.utf8ByteSize - s.cursor
decreasing_by
  rename_i ended ran
  have further := further_scanToken (s := s.restart) rfl ran
  have moved : s.cursor + 1 ≤ s'.cursor := further.cursor
  have same : s'.source = s.source := further.source
  simp only [atEnd, decide_eq_true_eq] at ended
  rw [same]
  omega

/-- The next item of a scanner, or nothing once the end token has been given. -/
def next (s : Scanner) : Option (Option Item × Scanner) :=
  if s.finished then some (none, s) else s.seek

/-- The items that a scanner has yet to give, at most. -/
def left (s : Scanner) : Nat :=
  if s.finished then 0 else s.source.utf8ByteSize - s.cursor + 1

/-- An item that is sought lies further on, unless it is the end. -/
theorem left_of_seek {s s' : Scanner} {item : Option Item} (ran : s.seek = some (item, s')) :
    s'.left < s.source.utf8ByteSize - s.cursor + 1 := by
  have bound (s' : Scanner) : s'.left ≤ s'.source.utf8ByteSize - s'.cursor + 1 := by
    unfold left
    split <;> omega
  have found {s : Scanner} {found : Found} {s' : Scanner} (ended : ¬ s.atEnd)
      (ran : s.restart.scanToken = some (found, s')) :
      s'.left < s.source.utf8ByteSize - s.cursor + 1 := by
    have further := further_scanToken (s := s.restart) rfl ran
    have moved : s.cursor + 1 ≤ s'.cursor := further.cursor
    have same : s'.source = s.source := further.source
    simp only [atEnd, decide_eq_true_eq] at ended
    have bound := bound s'
    rw [same] at bound
    omega
  fun_induction seek s with
  | case1 s ended =>
    cases ran
    exact Nat.succ_pos _
  | case2 => cases ran
  | case3 s ended s₁ scanned ih =>
    have later := ih ran
    have further := further_scanToken (s := s.restart) rfl scanned
    have moved : s.cursor + 1 ≤ s₁.cursor := further.cursor
    have same : s₁.source = s.source := further.source
    rw [same] at later
    omega
  | case4 s ended kind s₁ scanned =>
    obtain ⟨text, -, same⟩ := Option.map_eq_some_iff.mp ran
    cases same
    exact found ended scanned
  | case5 s ended cause s₁ scanned =>
    cases ran
    exact found ended scanned

/-- All items of a scanner, after those already given. -/
def itemsFrom (done : Array Item) (s : Scanner) : Option (Array Item) :=
  match _ : s.next with
  | none => none
  | some (none, _) => some done
  | some (some item, s') => itemsFrom (done.push item) s'
termination_by s.left
decreasing_by
  rename_i ran
  unfold next at ran
  split at ran
  · cases ran
  · rename_i going
    have bound : s.left = s.source.utf8ByteSize - s.cursor + 1 := if_neg going
    rw [bound]
    exact left_of_seek ran

/-- The items of a source, or nothing if the scanner breaks off. -/
def items? (source : String) : Option (List Item) := (itemsFrom #[] (new source)).map Array.toList

end Scanner

end Lox
