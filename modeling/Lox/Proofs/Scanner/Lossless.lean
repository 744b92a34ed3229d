import Lox.Proofs.Scanner.Pieces

/-!
# Scanning loses nothing

The items of a scanner, with the text skipped before each of them, make up the source. Every place where
it cuts lies on the boundary of characters, so that no cut fails, and the end token comes once, last.
-/

namespace Lox

namespace Scanner

open Source

/-- Spaces, and comments up to the end of their line or of the source, before the text `later`. -/
inductive Skippable : List Char → List Char → Prop
  | none (later : List Char) : Skippable [] later
  | space {c : Char} {cs later : List Char} (space : c ∈ [' ', '\t', '\r', '\n'])
    (rest : Skippable cs later) : Skippable (c :: cs) later
  | comment {body cs later : List Char} (inline : '\n' ∉ body)
    (ends : cs ++ later = [] ∨ (cs ++ later).head? = some '\n') (rest : Skippable cs later) :
    Skippable ('/' :: '/' :: (body ++ cs)) later

/-- An item with the text it stands for and the text that is skipped before it. -/
structure Cut where
  skipped : List Char
  span : List Char
  item : Item

/-- What an item stands for when the text `later` follows: a token for its lexeme, a problem for one
character that starts nothing, or for a string that does not end. -/
def Stands (span later : List Char) : Item → Prop
  | .token t => t.kind ≠ .eof ∧ span ≠ [] ∧ t.lexeme = String.ofList span
  | .problem _ (.unexpectedCharacter c) => span = [c] ∧ StartsNothing c
  | .problem _ .unterminatedString =>
    ∃ body, span = '"' :: body ∧ '"' ∉ body ∧ later = []

theorem Stands.span_ne_nil {span later : List Char} {item : Item} (stands : Stands span later item) :
    span ≠ [] := by
  match item, stands with
  | .token _, stands => exact stands.2.1
  | .problem _ (.unexpectedCharacter _), ⟨single, _⟩ => exact single ▸ List.cons_ne_nil _ _
  | .problem _ .unterminatedString, ⟨_, quoted, _⟩ => exact quoted ▸ List.cons_ne_nil _ _

structure Cut.Proper (cut : Cut) (later : List Char) : Prop where
  skipped : Skippable cut.skipped (cut.span ++ later)
  stands : Stands cut.span later cut.item

/-- Asking a scanner for items gives these, and cuts the source there. -/
inductive Gives : Scanner → List Cut → Scanner → Prop
  | done (s : Scanner) : Gives s [] s
  | cut {s s' s'' : Scanner} {cut : Cut} {cuts : List Cut}
    (next : s.next = some (some cut.item, s'))
    (skipped : slice? s.source s.cursor s'.start = some (String.ofList cut.skipped))
    (span : slice? s.source s'.start s'.cursor = some (String.ofList cut.span))
    (rest : Gives s' cuts s'') : Gives s (cut :: cuts) s''

/-- The text that cuts were made in. -/
def Cut.text (cuts : List Cut) : List Char := cuts.flatMap fun cut => cut.skipped ++ cut.span

/-- A run of a scanner to its end: it gives the items of the cuts, and skips the blank text before it gives
the end token, once. Together they are the text that was left. -/
structure Run (s : Scanner) (left : List Char) (cuts : List Cut) (blank : List Char)
    (last ended : Scanner) (line : Nat) : Prop where
  gives : Gives s cuts last
  ends : last.next = some (some (.token ⟨.eof, "", line⟩), ended)
  rest : ended.next = some (none, ended)
  final : ended.cursor = s.source.utf8ByteSize
  skipped : slice? s.source last.cursor ended.cursor = some (String.ofList blank)
  lossless : left = Cut.text cuts ++ blank
  skippable : Skippable blank []
  proper : ∀ before cut after, cuts = before ++ cut :: after → cut.Proper (Cut.text after ++ blank)

/-! ### Pieces and what they stand for -/

/-- A symbol that a character starts is found, though perhaps a longer one. -/
theorem symbol?_ne_none (y : Symbol) (c : Char) (rest : List Char)
    (starts : y.spelling.toList.head? = some c) : symbol? (c :: rest) ≠ none := by
  by_cases equal : rest.head? = some '='
  · obtain ⟨more, rfl⟩ := List.head?_eq_some_iff.mp equal
    rw [symbol?_equal]
    cases y <;> simp [Symbol.spelling] at starts <;> subst starts <;> rintro ⟨⟩
  · rw [symbol?_other c equal]
    cases y <;> simp [Symbol.spelling] at starts <;> subst starts <;> rintro ⟨⟩

/-- The pieces of `c :: rest` that are tokens. -/
inductive TokenPiece : Char → List Char → Segment → Prop
  | string {body more : List Char} (closed : '"' ∉ body) :
    TokenPiece '"' (body ++ '"' :: more)
      ⟨'"' :: (body ++ ['"']), .token (.string (String.ofList body))⟩
  | number {c : Char} {rest : List Char} (digit : c.isDigit) :
    TokenPiece c rest ⟨numberText (c :: rest), .token (.number (numberValue (numberText (c :: rest))))⟩
  | word {c : Char} {rest : List Char} (letter : isLetter c) :
    TokenPiece c rest
      ⟨c :: rest.takeWhile isWordChar, .token (wordKind (c :: rest.takeWhile isWordChar))⟩
  | symbol {c : Char} {rest : List Char} {y : Symbol} (quote : c ≠ '"') (digit : ¬ c.isDigit)
    (letter : ¬ isLetter c) (alone : ¬ (c = '/' ∧ rest.head? = some '/'))
    (found : symbol? (c :: rest) = some y) : TokenPiece c rest ⟨y.spelling.toList, .token (.symbol y)⟩

theorem TokenPiece.kind {c : Char} {rest : List Char} {segment : Segment}
    (token : TokenPiece c rest segment) : ∃ kind, segment.cls = .token kind ∧ kind ≠ .eof := by
  cases token with
  | word letter =>
    refine ⟨_, rfl, ?_⟩
    unfold wordKind
    split <;> rintro ⟨⟩
  | string | number | symbol => exact ⟨_, rfl, nofun⟩

/-- The pieces that there are. -/
theorem piece_cases (c : Char) (rest : List Char) :
    (isSpace c ∧ piece c rest = ⟨[c], .blank⟩) ∨
    (∃ more, c = '/' ∧ rest = '/' :: more ∧
      piece c rest = ⟨'/' :: '/' :: more.takeWhile (· != '\n'), .blank⟩) ∨
    TokenPiece c rest (piece c rest) ∨
    (c = '"' ∧ '"' ∉ rest ∧ piece c rest = ⟨'"' :: rest, .unterminated⟩) ∨
    (StartsNothing c ∧ piece c rest = ⟨[c], .unexpected c⟩) := by
  by_cases space : isSpace c
  · exact .inl ⟨space, if_pos space⟩
  have segment : piece c rest = firstSegment c rest := if_neg space
  rw [segment, firstSegment, if_neg space]
  by_cases comment : c = '/' ∧ rest.head? = some '/'
  · obtain ⟨more, again⟩ := List.head?_eq_some_iff.mp comment.2
    rw [if_pos comment, comment.1, again]
    exact .inr (.inl ⟨more, rfl, rfl, by simp⟩)
  rw [if_neg comment]
  by_cases quote : c = '"'
  · subst quote
    rw [if_pos rfl, stringSegment]
    have cut := List.takeWhile_append_dropWhile (p := (· != '"')) (l := rest)
    have closed : '"' ∉ rest.takeWhile (· != '"') := fun among => by
      have passes := List.all_eq_true.mp List.all_takeWhile _ among
      simp at passes
    cases left : rest.dropWhile (· != '"') with
    | cons q more =>
      have stops := List.head_dropWhile_not (· != '"') (l := rest) (by simp [left])
      simp only [left, List.head_cons, bne_eq_false_iff_eq] at stops
      rw [left, stops] at cut
      refine .inr (.inr (.inl ?_))
      have string : TokenPiece '"' (_ ++ '"' :: more) _ := .string closed
      rwa [cut] at string
    | nil =>
      rw [left, List.append_nil] at cut
      exact .inr (.inr (.inr (.inl ⟨rfl, cut ▸ closed, by rw [cut]⟩)))
  rw [if_neg quote]
  by_cases digit : c.isDigit
  · rw [if_pos digit]
    exact .inr (.inr (.inl (.number digit)))
  rw [if_neg digit]
  by_cases letter : isLetter c
  · rw [if_pos letter]
    exact .inr (.inr (.inl (.word letter)))
  rw [if_neg letter]
  cases found : symbol? (c :: rest) with
  | some y => exact .inr (.inr (.inl (.symbol quote digit letter comment found)))
  | none =>
    refine .inr (.inr (.inr (.inr ⟨⟨?_, quote, ?_, ?_, fun y starts => ?_⟩, rfl⟩)))
    · simpa using space
    · simpa using digit
    · simpa using letter
    · exact symbol?_ne_none y c rest starts found

theorem skippable_piece {c : Char} {rest : List Char} (blank : (piece c rest).cls = .blank)
    {cs later : List Char} (whole : (piece c rest).text ++ (cs ++ later) = c :: rest)
    (skipped : Skippable cs later) : Skippable ((piece c rest).text ++ cs) later := by
  rcases piece_cases c rest with ⟨space, single⟩ | ⟨more, rfl, rfl, comment⟩ |
    token | ⟨-, -, string⟩ | ⟨-, unexpected⟩
  · rw [single]
    refine .space ?_ skipped
    simp only [isSpace, Bool.or_eq_true, beq_iff_eq] at space
    rcases space with ((rfl | rfl) | rfl) | rfl <;> simp
  · rw [comment] at whole ⊢
    have cut := List.takeWhile_append_dropWhile (p := (· != '\n')) (l := more)
    have same : cs ++ later = more.dropWhile (· != '\n') := by
      have whole : more.takeWhile (· != '\n') ++ (cs ++ later) = more := by simpa using whole
      exact List.append_cancel_left (whole.trans cut.symm)
    refine .comment (fun among => ?_) ?_ skipped
    · have passes := List.all_eq_true.mp List.all_takeWhile _ among
      simp at passes
    · rw [same]
      cases ends : more.dropWhile (· != '\n') with
      | nil => exact .inl rfl
      | cons d after =>
        have stops := List.head_dropWhile_not (· != '\n') (l := more) (by simp [ends])
        right
        simpa [ends] using stops
  · obtain ⟨kind, cls, -⟩ := token.kind
    rw [cls] at blank
    cases blank
  · rw [string] at blank
    cases blank
  · rw [unexpected] at blank
    cases blank

theorem stands_piece {c : Char} {rest later : List Char} {line : Nat} {item : Item}
    (whole : (piece c rest).text ++ later = c :: rest)
    (made : (piece c rest).item? line = some item) : Stands (piece c rest).text later item := by
  rcases piece_cases c rest with ⟨-, single⟩ | ⟨more, rfl, rfl, comment⟩ |
    token | ⟨rfl, unclosed, string⟩ | ⟨starts, unexpected⟩
  · rw [single] at made
    cases made
  · rw [comment] at made
    cases made
  · obtain ⟨kind, cls, notEnd⟩ := token.kind
    rw [Segment.item?, cls] at made
    cases made
    exact ⟨notEnd, piece_text_ne_nil c rest, rfl⟩
  · rw [string] at made whole ⊢
    cases made
    exact ⟨rest, rfl, unclosed, by simpa using whole⟩
  · rw [unexpected] at made ⊢
    cases made
    exact ⟨rfl, starts⟩

/-- A cut as it is made where the skipped text starts on the given line: its item is that of the first piece
after what is skipped, on the line on which that piece ends. -/
structure Cut.Made (line : Nat) (cut : Cut) (later : List Char) : Prop where
  skipped : Skippable cut.skipped (cut.span ++ later)
  piece : ∃ c rest, cut.span ++ later = c :: rest ∧ (piece c rest).text = cut.span ∧
    (piece c rest).item? (line + newlines (cut.skipped ++ cut.span)) = some cut.item

theorem Cut.Made.proper {line : Nat} {cut : Cut} {later : List Char} (made : cut.Made line later) :
    cut.Proper later := by
  obtain ⟨c, rest, whole, text, item⟩ := made.piece
  have stands := stands_piece (text.symm ▸ whole) item
  rw [text] at stands
  exact ⟨made.skipped, stands⟩

theorem newlines_append (cs ds : List Char) : newlines (cs ++ ds) = newlines cs + newlines ds :=
  List.count_append

variable {source : String}

/-- What is left after a piece. -/
theorem piece_append_drop (c : Char) (rest : List Char) :
    (piece c rest).text ++ (c :: rest).drop (piece c rest).text.length = c :: rest :=
  List.prefix_iff_eq_append.mp (piece_isPrefix c rest)

theorem foundOf_nothing {cls : Source.Class} (found : foundOf cls = .nothing) : cls = .blank := by
  cases cls <;> first | rfl | cases found

theorem foundOf_token {cls : Source.Class} {kind : Token.Kind} (found : foundOf cls = .token kind) :
    cls = .token kind := by
  cases cls <;> cases found
  rfl

theorem foundOf_problem {cls : Source.Class} {cause : LexicalError} (found : foundOf cls = .problem cause) :
    (∃ c, cls = .unexpected c ∧ cause = .unexpectedCharacter c) ∨
      cls = .unterminated ∧ cause = .unterminatedString := by
  cases cls <;> cases found
  · exact .inl ⟨_, rfl, rfl⟩
  · exact .inr ⟨rfl, rfl⟩

/-- What seeking gives where the text `cs` is left: the end token if that can be skipped, or else the
item that comes next, with a cut of the text. -/
theorem seek_cases {pre cs : List Char} (text : source.toList = pre ++ cs) (start line : Nat) :
    (∃ line' start', Skippable cs [] ∧ line' = line + newlines cs ∧
      itemsAt line cs = [.token ⟨.eof, "", line'⟩] ∧
      seek ⟨source, start, width pre, line, false⟩ = some (some (.token ⟨.eof, "", line'⟩),
        ⟨source, start', width source.toList, line', true⟩)) ∨
    ∃ (cut : Cut) (rest : List Char) (line' : Nat), cs = cut.skipped ++ (cut.span ++ rest) ∧
      cut.Made line rest ∧ line' = line + newlines (cut.skipped ++ cut.span) ∧
      itemsAt line cs = cut.item :: itemsAt line' rest ∧
      seek ⟨source, start, width pre, line, false⟩ = some (some cut.item,
        ⟨source, width (pre ++ cut.skipped), width (pre ++ cut.skipped ++ cut.span), line',
          false⟩) := by
  induction length : cs.length using Nat.strongRecOn generalizing pre cs start line with
  | _ n ih =>
    cases cs with
    | nil =>
      rw [List.append_nil] at text
      refine .inl ⟨line, start, .none [], rfl, itemsAt_nil line, ?_⟩
      rw [seek, dif_pos]
      · rw [text]
      · simp [atEnd, utf8ByteSize_eq, text]
    | cons c rest =>
      have going : ¬ atEnd ⟨source, start, width pre, line, false⟩ = true := by
        have size := Char.utf8Size_pos c
        simp only [atEnd, utf8ByteSize_eq, text, width_append, width_cons, decide_eq_true_eq]
        omega
      have ran : scanToken (restart ⟨source, start, width pre, line, false⟩) =
          scanned source pre line (piece c rest) := scanToken_eq text line
      have whole := piece_append_drop c rest
      have progress := List.length_pos_iff.mpr (piece_text_ne_nil c rest)
      have items := itemsAt_cons line c rest
      generalize (c :: rest).drop (piece c rest).text.length = after at whole items
      have text' : source.toList = pre ++ (piece c rest).text ++ after := by
        rw [text, List.append_assoc, whole]
      have found {item : Item} (made : (piece c rest).item? (line + newlines (piece c rest).text) =
          some item) : Cut.Made line ⟨[], (piece c rest).text, item⟩ after :=
        ⟨.none _, c, rest, whole, rfl, made⟩
      rw [seek, dif_neg going]
      split
      · rename_i broken
        rw [ran] at broken
        cases broken
      · rename_i s' scan
        rw [ran] at scan
        obtain ⟨nothing, rfl⟩ := Prod.mk.inj (Option.some.inj scan)
        have blank := foundOf_nothing nothing
        have none : (piece c rest).item? (line + newlines (piece c rest).text) = none := by
          rw [Segment.item?, blank]
        have shorter : after.length < n := by
          have := congrArg List.length whole
          simp only [List.length_append] at this
          omega
        rw [none, Option.toList_none, List.nil_append] at items
        rw [items]
        rcases ih _ shorter text' (width pre) (line + newlines (piece c rest).text) rfl with
          ⟨line', start', skipped, counted, last, sought⟩ |
          ⟨cut, more, line', split, made, counted, first, sought⟩
        · refine .inl ⟨line', start', ?_, ?_, last, sought⟩
          · rw [← whole]
            exact skippable_piece blank (by rw [List.append_nil, whole]) skipped
          · rw [counted, ← whole, newlines_append, Nat.add_assoc]
        · -- what was skipped is skipped before the cut that comes next
          have lines : line + newlines ((piece c rest).text ++ cut.skipped ++ cut.span) =
              line + newlines (piece c rest).text + newlines (cut.skipped ++ cut.span) := by
            rw [List.append_assoc, newlines_append, Nat.add_assoc]
          refine .inr ⟨⟨(piece c rest).text ++ cut.skipped, cut.span, cut.item⟩, more, line', ?_,
            ⟨?_, ?_⟩, counted.trans lines.symm, first, ?_⟩
          · rw [← whole, split, List.append_assoc]
          · exact skippable_piece blank (split ▸ whole) made.skipped
          · rw [lines]
            exact made.piece
          · simpa only [List.append_assoc] using sought
      · rename_i kind s' scan
        rw [ran] at scan
        obtain ⟨token, rfl⟩ := Prod.mk.inj (Option.some.inj scan)
        have made : (piece c rest).item? (line + newlines (piece c rest).text) =
            some (.token ⟨kind, String.ofList (piece c rest).text,
              line + newlines (piece c rest).text⟩) := by
          rw [Segment.item?, foundOf_token token]
        rw [made] at items
        refine .inr ⟨_, after, _, whole.symm, found made, rfl, items, ?_⟩
        simp only [lexeme?, slice?_eq text', Option.map_some, List.append_nil, List.nil_append]
      · rename_i cause s' scan
        rw [ran] at scan
        obtain ⟨problem, rfl⟩ := Prod.mk.inj (Option.some.inj scan)
        have made : (piece c rest).item? (line + newlines (piece c rest).text) =
            some (.problem (line + newlines (piece c rest).text) cause) := by
          rcases foundOf_problem problem with ⟨d, unexpected, rfl⟩ | ⟨unterminated, rfl⟩
          · rw [Segment.item?, unexpected]
          · rw [Segment.item?, unterminated]
        rw [made] at items
        refine .inr ⟨_, after, _, whole.symm, found made, rfl, items, ?_⟩
        simp only [List.append_nil, List.nil_append]

/-! ### Whole runs -/

/-- Each cut is made where the ones before it end. -/
def CutsMade (line : Nat) (cuts : List Cut) (blank : List Char) : Prop :=
  ∀ before cut after, cuts = before ++ cut :: after →
    cut.Made (line + newlines (Cut.text before)) (Cut.text after ++ blank)

theorem CutsMade.cons {line : Nat} {cut : Cut} {cuts : List Cut} {blank : List Char}
    (first : cut.Made line (Cut.text cuts ++ blank))
    (rest : CutsMade (line + newlines (cut.skipped ++ cut.span)) cuts blank) :
    CutsMade line (cut :: cuts) blank := by
  intro before cut' after at'
  cases before with
  | nil =>
    cases at'
    exact first
  | cons _ before =>
    cases at'
    have made := rest before cut' after rfl
    have text : Cut.text (cut :: before) = cut.skipped ++ cut.span ++ Cut.text before :=
      List.flatMap_cons
    rwa [text, newlines_append, ← Nat.add_assoc]

theorem exists_run {pre cs : List Char} (text : source.toList = pre ++ cs) (start line : Nat) :
    ∃ cuts blank last ended line',
      Run ⟨source, start, width pre, line, false⟩ cs cuts blank last ended line' ∧
      CutsMade line cuts blank ∧ line' = line + newlines cs ∧
      itemsAt line cs = cuts.map Cut.item ++ [.token ⟨.eof, "", line'⟩] := by
  induction length : cs.length using Nat.strongRecOn generalizing pre cs start line with
  | _ n ih =>
    rcases seek_cases text start line with ⟨line', start', skipped, counted, items, sought⟩ |
      ⟨cut, rest, line', split, made, counted, items, sought⟩
    · refine ⟨[], cs, _, _, line', ⟨.done _, sought, rfl, ?_, ?_, rfl, skipped, ?_⟩, ?_, counted,
        items⟩
      · exact (utf8ByteSize_eq source).symm
      · rw [text]
        exact slice?_eq (by rw [text, List.append_nil])
      · intro before cut after none
        cases before <;> cases none
      · intro before cut after none
        cases before <;> cases none
    · have progress := List.length_pos_iff.mpr made.proper.stands.span_ne_nil
      have shorter : rest.length < n := by
        rw [← length, split]
        simp only [List.length_append]
        omega
      have text' : source.toList = pre ++ cut.skipped ++ cut.span ++ rest := by
        rw [text, split]
        simp only [List.append_assoc]
      obtain ⟨cuts, blank, last, ended, line'', run, cutsMade, lines, later⟩ :=
        ih _ shorter text' (width (pre ++ cut.skipped)) line' rfl
      have whole : CutsMade line (cut :: cuts) blank :=
        .cons (run.lossless ▸ made) (counted ▸ cutsMade)
      refine ⟨cut :: cuts, blank, last, ended, line'',
        ⟨.cut sought ?_ ?_ run.gives, run.ends, run.rest, run.final, run.skipped, ?_, run.skippable,
          fun before cut after at' => (whole before cut after at').proper⟩, whole, ?_, ?_⟩
      · exact slice?_eq (text'.trans (List.append_assoc ..))
      · exact slice?_eq text'
      · rw [split, run.lossless]
        simp [Cut.text]
      · rw [lines, counted, split, newlines_append, newlines_append, newlines_append]
        omega
      · rw [items, later]
        rfl

theorem itemsFrom_of_gives {s last ended : Scanner} {cuts : List Cut} {item : Item}
    (gives : Gives s cuts last) (ends : last.next = some (some item, ended))
    (rest : ended.next = some (none, ended)) (done : Array Item) :
    itemsFrom done s = some (done ++ (cuts.map Cut.item).toArray ++ #[item]) := by
  induction gives generalizing done with
  | done s =>
    unfold itemsFrom
    split <;> rename_i ran <;> rw [ends] at ran <;> cases ran
    unfold itemsFrom
    split <;> rename_i ran <;> rw [rest] at ran <;> cases ran
    simp
  | cut next _ _ _ ih =>
    unfold itemsFrom
    split <;> rename_i ran <;> rw [next] at ran <;> cases ran
    rw [ih ends]
    simp

theorem exists_run_new (source : String) :
    ∃ cuts blank last ended line, Run (new source) source.toList cuts blank last ended line ∧
      CutsMade 1 cuts blank ∧ line = 1 + newlines source.toList ∧
      items? source = some (cuts.map Cut.item ++ [.token ⟨.eof, "", line⟩]) ∧
      items source = cuts.map Cut.item ++ [.token ⟨.eof, "", line⟩] := by
  obtain ⟨cuts, blank, last, ended, line, run, made, lines, items⟩ :=
    exists_run (List.nil_append source.toList).symm 0 1
  refine ⟨cuts, blank, last, ended, line, run, made, lines, ?_, items⟩
  have given : itemsFrom #[] (new source) = _ := itemsFrom_of_gives run.gives run.ends run.rest #[]
  rw [items?, given]
  simp

/-- The cursor that walks over bytes finds what cutting the characters finds. -/
theorem items?_eq (source : String) : items? source = some (items source) := by
  obtain ⟨cuts, blank, last, ended, line, -, -, -, given, items⟩ := exists_run_new source
  rw [given, items]

/-- A scanner run to its end gives finitely many items and then nothing any more. The pieces of the
source that they stand for, and what is skipped between them, make up the source, and it was possible
to cut it there. -/
theorem scanning_is_lossless (source : String) :
    ∃ cuts blank last ended line, Run (new source) source.toList cuts blank last ended line ∧
      items? source = some (cuts.map Cut.item ++ [.token ⟨.eof, "", line⟩]) := by
  obtain ⟨cuts, blank, last, ended, line, run, -, -, given, -⟩ := exists_run_new source
  exact ⟨cuts, blank, last, ended, line, run, given⟩

end Scanner

end Lox
