import Lox.Proofs.Scanner.Lexemes

/-!
# Tokens are the longest lexemes

Each piece that the scanner cuts off as a token is the longest lexeme at its place, and its kind is the one
that this lexeme has. A problem is only found where the text goes on with nothing that the scanner could take.
-/

namespace Lox

namespace Scanner

open Source

/-! ### Kinds -/

/-- The shape that the first character of a lexeme tells. -/
def firstShape (cs : List Char) : Option Shape := cs.head?.map shapeAt

theorem IsWord.shape {cs : List Char} (word : IsWord cs) : firstShape cs = some .word := by
  have ⟨c, rest, same, _⟩ := word
  subst same
  exact congrArg some (shapeAt_letter word.first)

theorem IsNumber.shape {cs : List Char} (number : IsNumber cs) : firstShape cs = some .number := by
  obtain ⟨c, rest, rfl⟩ := List.exists_cons_of_ne_nil (IsLexeme.ne_nil (.inr (.inl number)))
  exact congrArg some (shapeAt_digit number.first)

theorem symbol_shape (y : Symbol) : firstShape y.spelling.toList = some .mark := by
  cases y <;> decide

theorem string_shape (cs : List Char) : firstShape ('"' :: cs) = some .string := rfl

/-- Texts with other first shapes differ. -/
theorem ne_of_shapes {cs ds : List Char} {a b : Shape} (first : firstShape cs = some a)
    (second : firstShape ds = some b) (differ : a ≠ b) : cs ≠ ds := by
  rintro rfl
  exact differ (Option.some.inj (first.symm.trans second))

theorem Symbol.spelling_injective {y y' : Symbol} (same : y.spelling.toList = y'.spelling.toList) :
    y = y' := by
  revert same
  cases y <;> cases y' <;> decide

theorem hasKind_symbol (y : Symbol) : HasKind (.symbol y) y.spelling.toList where
  symbol y' := ⟨by rintro ⟨⟩; rfl, fun same => by rw [Symbol.spelling_injective same]⟩
  keyword k := iff_of_false nofun (ne_of_shapes (symbol_shape y) (keyword_isWord k).shape (by decide))
  identifier := iff_of_false nofun fun both =>
    ne_of_shapes (symbol_shape y) both.1.shape (by decide) rfl
  string text := iff_of_false nofun (ne_of_shapes (symbol_shape y) (string_shape _) (by decide))
  number value := iff_of_false nofun fun both =>
    ne_of_shapes (symbol_shape y) both.1.shape (by decide) rfl

theorem hasKind_string (text : String) : HasKind (.string text) ('"' :: (text.toList ++ ['"'])) where
  symbol y := iff_of_false nofun (ne_of_shapes (string_shape _) (symbol_shape y) (by decide))
  keyword k := iff_of_false nofun (ne_of_shapes (string_shape _) (keyword_isWord k).shape (by decide))
  identifier := iff_of_false nofun fun both =>
    ne_of_shapes (string_shape _) both.1.shape (by decide) rfl
  string text' := by
    rw [List.cons.injEq, List.append_cancel_right_eq, String.toList_inj, Token.Kind.string.injEq]
    exact ⟨fun same => ⟨rfl, same⟩, And.right⟩
  number value := iff_of_false nofun fun both =>
    ne_of_shapes (string_shape _) both.1.shape (by decide) rfl

theorem hasKind_number {cs : List Char} (number : IsNumber cs) :
    HasKind (.number (numberValue cs)) cs where
  symbol y := iff_of_false nofun (ne_of_shapes number.shape (symbol_shape y) (by decide))
  keyword k := iff_of_false nofun (ne_of_shapes number.shape (keyword_isWord k).shape (by decide))
  identifier := iff_of_false nofun fun both => ne_of_shapes number.shape both.1.shape (by decide) rfl
  string text := iff_of_false nofun (ne_of_shapes number.shape (string_shape _) (by decide))
  number value := by
    rw [Token.Kind.number.injEq]
    exact ⟨fun same => ⟨number, same.symm⟩, fun both => both.2.symm⟩

/-- A word is a keyword if it is spelt as one, or else an identifier. -/
theorem wordKind_cases (cs : List Char) :
    (∃ k : Keyword, wordKind cs = .keyword k ∧ cs = k.spelling.toList) ∨
      wordKind cs = .identifier ∧ ∀ k : Keyword, cs ≠ k.spelling.toList := by
  unfold wordKind
  split
  · rename_i k found
    rw [Keyword.ofSpelling?_eq_some_iff] at found
    exact .inl ⟨k, rfl, by rw [found, String.toList_ofList]⟩
  · rename_i none
    refine .inr ⟨rfl, fun k spelt => ?_⟩
    rw [spelt, String.ofList_toList, Keyword.ofSpelling?_eq_some_iff.mpr rfl] at none
    cases none

theorem hasKind_word {cs : List Char} (word : IsWord cs) : HasKind (wordKind cs) cs := by
  have other {kind : Token.Kind} (ne : ∀ k, kind ≠ .keyword k) (ne' : kind ≠ .identifier) :
      wordKind cs ≠ kind := by
    rintro rfl
    rcases wordKind_cases cs with ⟨k, same, -⟩ | ⟨same, -⟩
    · exact ne k same
    · exact ne' same
  constructor
  case symbol =>
    exact fun y => iff_of_false (other nofun nofun)
      (ne_of_shapes word.shape (symbol_shape y) (by decide))
  case keyword =>
    intro k
    rcases wordKind_cases cs with ⟨k', kind, spelt⟩ | ⟨kind, unreserved⟩
    · rw [kind, spelt, Token.Kind.keyword.injEq, String.toList_inj]
      refine ⟨fun same => same ▸ rfl, fun same => ?_⟩
      have found := Keyword.ofSpelling?_eq_some_iff.mpr same
      exact Option.some.inj (found.symm.trans (Keyword.ofSpelling?_eq_some_iff.mpr rfl))
    · rw [kind]
      exact iff_of_false nofun (unreserved k)
  case identifier =>
    rcases wordKind_cases cs with ⟨k, kind, spelt⟩ | ⟨kind, unreserved⟩
    · rw [kind]
      exact iff_of_false nofun fun both => both.2 k spelt
    · exact iff_of_true kind ⟨word, unreserved⟩
  case string =>
    exact fun text => iff_of_false (other nofun nofun)
      (ne_of_shapes word.shape (string_shape _) (by decide))
  case number =>
    exact fun value => iff_of_false (other nofun nofun) fun both =>
      ne_of_shapes word.shape both.1.shape (by decide) rfl

/-! ### What a piece tells -/

/-- What the class of a piece tells of the text that starts with it. -/
def Fits (text cs : List Char) : Source.Class → Prop
  | .blank => True
  | .token kind => IsLongest text cs ∧ HasKind kind cs ∧ ¬ ['/', '/'] <+: text
  | .unexpected _ | .unterminated => StartsWithNone text

theorem IsMark.exists_symbol {cs : List Char} (mark : IsMark cs) :
    ∃ y : Symbol, y.spelling.toList = cs := by
  simp only [IsMark, List.mem_cons, List.not_mem_nil, or_false] at mark
  rcases mark with rfl | rfl | rfl | rfl | rfl | rfl | rfl | rfl | rfl | rfl | rfl | rfl | rfl | rfl |
    rfl | rfl | rfl | rfl | rfl
  exacts [⟨.leftParen, rfl⟩, ⟨.rightParen, rfl⟩, ⟨.leftBrace, rfl⟩, ⟨.rightBrace, rfl⟩, ⟨.comma, rfl⟩,
    ⟨.dot, rfl⟩, ⟨.minus, rfl⟩, ⟨.plus, rfl⟩, ⟨.semicolon, rfl⟩, ⟨.star, rfl⟩, ⟨.bang, rfl⟩,
    ⟨.bangEqual, rfl⟩, ⟨.equal, rfl⟩, ⟨.equalEqual, rfl⟩, ⟨.less, rfl⟩, ⟨.lessEqual, rfl⟩, ⟨.greater, rfl⟩,
    ⟨.greaterEqual, rfl⟩, ⟨.slash, rfl⟩]

/-- Only a comment starts with two slashes. -/
theorem not_comment {c : Char} {rest : List Char} (alone : ¬ (c = '/' ∧ rest.head? = some '/')) :
    ¬ ['/', '/'] <+: c :: rest := by
  rintro ⟨more, same⟩
  cases same
  exact alone ⟨rfl, rfl⟩

theorem TokenPiece.fits {c : Char} {rest : List Char} {segment : Segment}
    (token : TokenPiece c rest segment) : Fits (c :: rest) segment.text segment.cls := by
  have differs {d : Char} (shape : shapeAt d ≠ .mark) : ¬ (d = '/' ∧ rest.head? = some '/') := by
    rintro ⟨rfl, -⟩
    exact shape (by decide)
  cases token with
  | @string body more closed =>
    have kind := hasKind_string (String.ofList body)
    rw [String.toList_ofList] at kind
    exact ⟨string_isLongest closed more, kind, not_comment (differs (by decide))⟩
  | number digit =>
    have longest := number_isLongest digit rest
    have number : IsNumber (numberText (c :: rest)) := by
      have lexeme := longest.lexeme
      obtain ⟨cs, same, -⟩ := lexeme.exists_cons longest.starts
      rw [same] at lexeme ⊢
      have number := lexeme.of_shape
      rwa [shapeAt_digit digit] at number
    exact ⟨longest, hasKind_number number, not_comment (differs (by rw [shapeAt_digit digit]; decide))⟩
  | word letter =>
    have longest := word_isLongest letter rest
    have word := longest.lexeme.of_shape
    rw [shapeAt_letter letter] at word
    exact ⟨longest, hasKind_word word, not_comment (differs (by rw [shapeAt_letter letter]; decide))⟩
  | @symbol _ _ y quote digit letter alone found =>
    have shape : shapeAt c = .mark := by rw [shapeAt, if_neg quote, if_neg digit, if_neg letter]
    exact ⟨symbol_isLongest shape found, hasKind_symbol y, not_comment alone⟩

/-- A string without a closing quote is no lexeme, and neither does it start with one. -/
theorem unclosed_startsWithNone {rest : List Char} (unclosed : '"' ∉ rest) :
    StartsWithNone ('"' :: rest) where
  lexeme cs lexeme starts := by
    obtain ⟨cs, rfl, more, rfl⟩ := lexeme.exists_cons starts
    obtain ⟨body, -, same⟩ : IsString ('"' :: cs) := lexeme.of_shape
    obtain ⟨-, rfl⟩ := List.cons.inj same
    exact unclosed (by simp)
  space c space starts := by
    obtain ⟨rfl, -⟩ := List.cons_prefix_cons.mp starts
    simp at space
  comment := not_comment fun both => absurd both.1 (by decide)

theorem StartsNothing.startsWithNone {c : Char} (starts : StartsNothing c) (rest : List Char) :
    StartsWithNone (c :: rest) where
  lexeme cs lexeme within := by
    have shape : shapeAt c = .mark := by
      rw [shapeAt, if_neg starts.quote, if_neg (by rw [starts.digit]; decide),
        if_neg (by rw [starts.letter]; decide)]
    obtain ⟨cs, rfl, -⟩ := lexeme.exists_cons within
    have mark := lexeme.of_shape
    rw [shape] at mark
    obtain ⟨y, spelt⟩ := IsMark.exists_symbol mark
    exact starts.symbol y (by rw [spelt]; rfl)
  space d space within := by
    obtain ⟨rfl, -⟩ := List.cons_prefix_cons.mp within
    have none := starts.space
    simp only [List.mem_cons, List.not_mem_nil, or_false] at space
    rcases space with rfl | rfl | rfl | rfl <;> cases none
  comment := not_comment fun both => starts.symbol .slash (by rw [both.1]; rfl)

theorem piece_fits (c : Char) (rest : List Char) :
    Fits (c :: rest) (piece c rest).text (piece c rest).cls := by
  rcases piece_cases c rest with ⟨-, single⟩ | ⟨more, -, -, comment⟩ | token |
    ⟨rfl, unclosed, string⟩ | ⟨starts, unexpected⟩
  · rw [single]
    trivial
  · rw [comment]
    trivial
  · exact token.fits
  · rw [string]
    exact unclosed_startsWithNone unclosed
  · rw [unexpected]
    exact starts.startsWithNone rest

/-! ### What the items of a source tell -/

/-- What an item tells of the text `span` that it stands for when the text `later` follows: a token is the
longest lexeme there and has its kind, and a slash is not followed by another; a problem is where the text
starts with no lexeme, no whitespace and no comment. -/
def Classifies (span later : List Char) : Item → Prop
  | .token t => t.lexeme = String.ofList span ∧ IsLongest (span ++ later) span ∧ HasKind t.kind span ∧
      (t.kind = .symbol .slash → later.head? ≠ some '/')
  | .problem _ _ => StartsWithNone (span ++ later)

theorem Cut.Made.classifies {line : Nat} {cut : Cut} {later : List Char} (made : cut.Made line later) :
    Classifies cut.span later cut.item := by
  obtain ⟨c, rest, whole, text, item⟩ := made.piece
  have fits := piece_fits c rest
  rw [← whole, text] at fits
  unfold Segment.item? at item
  split at item
  · cases item
  · rename_i kind cls
    rw [cls] at fits
    obtain ⟨longest, hasKind, alone⟩ := fits
    rw [← Option.some.inj item]
    refine ⟨congrArg String.ofList text, longest, hasKind, fun slash again => alone ?_⟩
    obtain ⟨more, rfl⟩ := List.head?_eq_some_iff.mp again
    rw [(hasKind.symbol .slash).mp slash]
    exact ⟨more, rfl⟩
  · rename_i d cls
    rw [cls] at fits
    rw [← Option.some.inj item]
    exact fits
  · rename_i cls
    rw [cls] at fits
    rw [← Option.some.inj item]
    exact fits

/-- Each token that the scanner gives is the longest lexeme that the source goes on with at its place, and its
kind is that of this lexeme: a keyword for exactly the reserved words, an identifier for all other words, a
string with the text between its quotes. A slash is not followed by another. A character is only called
unexpected where the source goes on with no lexeme, no whitespace and no comment. -/
theorem tokens_are_longest_lexemes (source : String) :
    ∃ cuts blank last ended line, Run (new source) source.toList cuts blank last ended line ∧
      items? source = some (cuts.map Cut.item ++ [.token ⟨.eof, "", line⟩]) ∧
      ∀ before cut after, cuts = before ++ cut :: after →
        Classifies cut.span (Cut.text after ++ blank) cut.item := by
  obtain ⟨cuts, blank, last, ended, line, run, made, -, given, -⟩ := exists_run_new source
  exact ⟨cuts, blank, last, ended, line, run, given, fun before cut after at' =>
    (made before cut after at').classifies⟩

end Scanner

end Lox
