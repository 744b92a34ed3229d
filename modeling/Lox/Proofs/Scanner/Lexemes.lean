import Lox.Proofs.Scanner.Lossless

/-!
# Lexemes

What the lexemes of the language are, apart from any way to find them: marks, numbers, words and strings. The
scanner looks one or two characters ahead, and still each token that it gives stands for the longest lexeme
that the text goes on with; where it gives a problem, the text goes on with no lexeme at all. The first
character of a lexeme tells which shape it has, so only lexemes of that shape need to be compared.
-/

namespace Lox

namespace Scanner

open Source

/-! ### The lexemes of the language -/

def IsLetter (c : Char) : Prop := ('a' ≤ c ∧ c ≤ 'z') ∨ ('A' ≤ c ∧ c ≤ 'Z') ∨ c = '_'

def IsDigit (c : Char) : Prop := '0' ≤ c ∧ c ≤ '9'

/-- Punctuation marks and operators. -/
def IsMark (cs : List Char) : Prop :=
  cs ∈ [['('], [')'], ['\x7b'], ['\x7d'], [','], ['.'], ['-'], ['+'], [';'], ['*'], ['!'], ['!', '='],
    ['='], ['=', '='], ['<'], ['<', '='], ['>'], ['>', '='], ['/']]

/-- Digits, which may be followed by a point and digits. -/
def IsNumber (cs : List Char) : Prop :=
  ∃ whole, whole ≠ [] ∧ (∀ c ∈ whole, IsDigit c) ∧
    (cs = whole ∨ ∃ fraction, fraction ≠ [] ∧ (∀ c ∈ fraction, IsDigit c) ∧
      cs = whole ++ '.' :: fraction)

/-- A letter and then letters and digits. -/
def IsWord (cs : List Char) : Prop :=
  ∃ c rest, cs = c :: rest ∧ IsLetter c ∧ ∀ d ∈ rest, IsLetter d ∨ IsDigit d

/-- Characters between two quotes, none of which is a quote. -/
def IsString (cs : List Char) : Prop := ∃ body, '"' ∉ body ∧ cs = '"' :: (body ++ ['"'])

def IsLexeme (cs : List Char) : Prop := IsMark cs ∨ IsNumber cs ∨ IsWord cs ∨ IsString cs

/-- The text starts with this lexeme and with none that goes on further. -/
structure IsLongest (text cs : List Char) : Prop where
  lexeme : IsLexeme cs
  starts : cs <+: text
  longest : ∀ other, IsLexeme other → other <+: text → other <+: cs

/-- The text starts with no lexeme, no whitespace and no comment. -/
structure StartsWithNone (text : List Char) : Prop where
  lexeme : ∀ cs, IsLexeme cs → ¬ cs <+: text
  space : ∀ c ∈ [' ', '\t', '\r', '\n'], ¬ [c] <+: text
  comment : ¬ ['/', '/'] <+: text

/-- The kind of a token is told by its lexeme, with the text between the quotes for a string. -/
structure HasKind (kind : Token.Kind) (lexeme : List Char) : Prop where
  symbol : ∀ y : Symbol, kind = .symbol y ↔ lexeme = y.spelling.toList
  keyword : ∀ k : Keyword, kind = .keyword k ↔ lexeme = k.spelling.toList
  identifier : kind = .identifier ↔ IsWord lexeme ∧ ∀ k : Keyword, lexeme ≠ k.spelling.toList
  string : ∀ text, kind = .string text ↔ lexeme = '"' :: (text.toList ++ ['"'])
  number : ∀ value, kind = .number value ↔ IsNumber lexeme ∧ value = numberValue lexeme

/-! ### Shapes -/

theorem isLetter_iff {c : Char} : isLetter c ↔ IsLetter c := by
  simp only [isLetter, Char.isAlpha, Char.isUpper, Char.isLower, IsLetter, Bool.or_eq_true,
    Bool.and_eq_true, decide_eq_true_eq, beq_iff_eq]
  exact ⟨fun h => by tauto, fun h => by tauto⟩

theorem isDigit_iff {c : Char} : c.isDigit ↔ IsDigit c := by
  simp only [Char.isDigit, IsDigit, Bool.and_eq_true, decide_eq_true_eq]
  exact Iff.rfl

theorem isWordChar_iff {c : Char} : isWordChar c ↔ IsLetter c ∨ IsDigit c := by
  rw [isWordChar, Bool.or_eq_true, isLetter_iff, isDigit_iff]

/-- The shapes of lexemes. -/
inductive Shape where
  | mark | number | word | string
  deriving DecidableEq

/-- The shape of the lexemes that start with a character, marks being those with no other. -/
def shapeAt (c : Char) : Shape :=
  if c = '"' then .string else if c.isDigit then .number else if isLetter c then .word else .mark

theorem shapeAt_digit {c : Char} (digit : c.isDigit) : shapeAt c = .number := by
  have other : c ≠ '"' := by
    rintro rfl
    cases digit
  rw [shapeAt, if_neg other, if_pos digit]

theorem shapeAt_letter {c : Char} (letter : isLetter c) : shapeAt c = .word := by
  have other : c ≠ '"' := by
    rintro rfl
    cases letter
  have nodigit : ¬ c.isDigit := by
    intro digit
    rw [isDigit_iff] at digit
    rw [isLetter_iff] at letter
    obtain ⟨above, below⟩ := digit
    rcases letter with ⟨from_, _⟩ | ⟨from_, _⟩ | rfl
    · exact absurd (Char.le_trans from_ below) (by decide)
    · exact absurd (Char.le_trans from_ below) (by decide)
    · exact absurd below (by decide)
  rw [shapeAt, if_neg other, if_neg nodigit, if_pos letter]

theorem IsMark.shape {c : Char} {cs : List Char} (mark : IsMark (c :: cs)) : shapeAt c = .mark := by
  simp only [IsMark, List.mem_cons, List.not_mem_nil, or_false, List.cons.injEq] at mark
  rcases mark with h | h | h | h | h | h | h | h | h | h | h | h | h | h | h | h | h | h | h <;>
    (rw [h.1]; decide)

theorem IsNumber.first {c : Char} {cs : List Char} (number : IsNumber (c :: cs)) : c.isDigit := by
  obtain ⟨whole, some, digits, same⟩ := number
  obtain ⟨d, more, rfl⟩ := List.exists_cons_of_ne_nil some
  have first : c = d := by
    rcases same with same | ⟨fraction, -, -, same⟩
    · exact (List.cons.inj same).1
    · exact (List.cons.inj same).1
  rw [isDigit_iff, first]
  exact digits d List.mem_cons_self

theorem IsWord.first {c : Char} {cs : List Char} (word : IsWord (c :: cs)) : isLetter c := by
  obtain ⟨d, rest, same, letter, -⟩ := word
  rw [isLetter_iff, (List.cons.inj same).1]
  exact letter

theorem IsString.first {c : Char} {cs : List Char} (string : IsString (c :: cs)) : c = '"' := by
  obtain ⟨body, -, same⟩ := string
  exact (List.cons.inj same).1

theorem IsLexeme.ne_nil {cs : List Char} (lexeme : IsLexeme cs) : cs ≠ [] := by
  rintro rfl
  rcases lexeme with mark | ⟨whole, some, -, same | ⟨fraction, -, -, same⟩⟩ | ⟨c, rest, same, -⟩ |
    ⟨body, -, same⟩
  · simp [IsMark] at mark
  · exact some same.symm
  · exact some (List.append_eq_nil_iff.mp same.symm).1
  · cases same
  · cases same

/-- The shape of a lexeme is told by its first character. -/
theorem IsLexeme.of_shape {c : Char} {cs : List Char} (lexeme : IsLexeme (c :: cs)) :
    match shapeAt c with
    | .mark => IsMark (c :: cs)
    | .number => IsNumber (c :: cs)
    | .word => IsWord (c :: cs)
    | .string => IsString (c :: cs) := by
  rcases lexeme with mark | number | word | string
  · rw [mark.shape]
    exact mark
  · rw [shapeAt_digit number.first]
    exact number
  · rw [shapeAt_letter word.first]
    exact word
  · cases string.first
    exact string

theorem symbol_isMark (y : Symbol) : IsMark y.spelling.toList := by
  cases y <;> simp [IsMark, Symbol.spelling]

theorem keyword_isWord (k : Keyword) : IsWord k.spelling.toList := by
  have letters (cs : List Char) (some : cs ≠ []) (all : cs.all isLetter) : IsWord cs := by
    obtain ⟨c, rest, rfl⟩ := List.exists_cons_of_ne_nil some
    rw [List.all_cons, Bool.and_eq_true, List.all_eq_true] at all
    exact ⟨c, rest, rfl, isLetter_iff.mp all.1, fun d member => .inl (isLetter_iff.mp (all.2 d member))⟩
  exact letters _ (by cases k <;> decide) (by cases k <;> decide)

/-! ### The longest lexeme -/

/-- Characters that all pass a test are no more than those that are taken. -/
theorem isPrefix_takeWhile {test : Char → Bool} {cs text : List Char} (starts : cs <+: text)
    (all : ∀ c ∈ cs, test c) : cs <+: text.takeWhile test := by
  obtain ⟨more, rfl⟩ := starts
  rw [List.takeWhile_append_of_pos all]
  exact List.prefix_append _ _

theorem takeWhile_stops {p : Char → Bool} {cs : List Char} {c : Char} (all : ∀ d ∈ cs, p d)
    (stop : p c = false) (more : List Char) :
    (cs ++ c :: more).takeWhile p = cs ∧ (cs ++ c :: more).dropWhile p = c :: more := by
  rw [List.takeWhile_append_of_pos all, List.dropWhile_append_of_pos all]
  simp [stop]

/-- A lexeme at the start of a text is of the shape that the first character tells. -/
theorem IsLexeme.exists_cons {c : Char} {rest other : List Char} (lexeme : IsLexeme other)
    (starts : other <+: c :: rest) : ∃ cs, other = c :: cs ∧ cs <+: rest := by
  obtain ⟨d, cs, rfl⟩ := List.exists_cons_of_ne_nil lexeme.ne_nil
  obtain ⟨rfl, within⟩ := List.cons_prefix_cons.mp starts
  exact ⟨cs, rfl, within⟩

theorem string_isLongest {body : List Char} (closed : '"' ∉ body) (more : List Char) :
    IsLongest ('"' :: (body ++ '"' :: more)) ('"' :: (body ++ ['"'])) := by
  refine ⟨.inr (.inr (.inr ⟨body, closed, rfl⟩)), by simp, fun other lexeme starts => ?_⟩
  obtain ⟨cs, rfl, within⟩ := lexeme.exists_cons starts
  obtain ⟨body', closed', same⟩ : IsString ('"' :: cs) := lexeme.of_shape
  -- both strings end at the first quote
  have unquoted {ds : List Char} (none : '"' ∉ ds) : ∀ d ∈ ds, (d != '"') = true := fun d member =>
    bne_iff_ne.mpr fun quote => none (quote ▸ member)
  obtain ⟨after, whole⟩ := within
  rw [(List.cons.inj same).2, List.append_assoc, List.singleton_append] at whole
  have first := (takeWhile_stops (unquoted closed') (bne_self_eq_false '"') after).1
  have second := (takeWhile_stops (unquoted closed) (bne_self_eq_false '"') more).1
  rw [whole, second] at first
  rw [same, first]

theorem word_isLongest {c : Char} (letter : isLetter c) (rest : List Char) :
    IsLongest (c :: rest) (c :: rest.takeWhile isWordChar) := by
  have all : ∀ d ∈ rest.takeWhile isWordChar, isWordChar d := List.all_eq_true.mp List.all_takeWhile
  refine ⟨.inr (.inr (.inl ⟨c, _, rfl, isLetter_iff.mp letter, fun d member =>
      isWordChar_iff.mp (all d member)⟩)),
    List.cons_prefix_cons.mpr ⟨rfl, List.takeWhile_prefix _⟩, fun other lexeme starts => ?_⟩
  obtain ⟨cs, rfl, within⟩ := lexeme.exists_cons starts
  have word := lexeme.of_shape
  rw [shapeAt_letter letter] at word
  obtain ⟨_, _, same, -, others⟩ := word
  cases same
  exact List.cons_prefix_cons.mpr ⟨rfl, isPrefix_takeWhile within fun d member =>
    isWordChar_iff.mpr (others d member)⟩

/-- The text of a number has a fraction only if a digit follows the point. -/
theorem numberText_cases (cs : List Char) :
    (∃ more, cs.dropWhile Char.isDigit = '.' :: more ∧ more.takeWhile Char.isDigit ≠ [] ∧
      numberText cs = cs.takeWhile Char.isDigit ++ '.' :: more.takeWhile Char.isDigit) ∨
    ((∀ more, cs.dropWhile Char.isDigit = '.' :: more → more.takeWhile Char.isDigit = []) ∧
      numberText cs = cs.takeWhile Char.isDigit) := by
  unfold numberText
  split
  · rename_i more after
    dsimp only
    split
    · rename_i none
      exact .inr ⟨fun _ same => (List.cons.inj (after.symm.trans same)).2 ▸ none, rfl⟩
    · rename_i some
      exact .inl ⟨more, after, some, rfl⟩
  · rename_i stops
    exact .inr ⟨fun more after => absurd after (stops more), rfl⟩

theorem number_isLongest {c : Char} (digit : c.isDigit) (rest : List Char) :
    IsLongest (c :: rest) (numberText (c :: rest)) := by
  have all (cs : List Char) : ∀ d ∈ cs.takeWhile Char.isDigit, IsDigit d := fun d member =>
    isDigit_iff.mp (List.all_eq_true.mp List.all_takeWhile d member)
  have some : (c :: rest).takeWhile Char.isDigit ≠ [] := by simp [digit]
  refine ⟨.inr (.inl ⟨_, some, all _, ?_⟩), numberText_isPrefix _, fun other lexeme starts => ?_⟩
  · rcases numberText_cases (c :: rest) with ⟨more, -, fraction, same⟩ | ⟨-, same⟩
    · exact .inr ⟨_, fraction, all more, same⟩
    · exact .inl same
  obtain ⟨cs, rfl, -⟩ := lexeme.exists_cons starts
  have number := lexeme.of_shape
  rw [shapeAt_digit digit] at number
  obtain ⟨whole, -, digits, same | ⟨fraction, present, digits', same⟩⟩ := number
  · rw [same] at starts ⊢
    have first := isPrefix_takeWhile starts fun d member => isDigit_iff.mpr (digits d member)
    rcases numberText_cases (c :: rest) with ⟨more, -, -, text⟩ | ⟨-, text⟩
    · rw [text]
      exact first.trans (List.prefix_append _ _)
    · rw [text]
      exact first
  · -- the digits before the point are all that there are, and the point is followed by one
    rw [same] at starts ⊢
    obtain ⟨after, cut⟩ := starts
    rw [List.append_assoc, List.cons_append] at cut
    obtain ⟨taken, left⟩ := takeWhile_stops (p := Char.isDigit) (c := '.')
      (fun d member => isDigit_iff.mpr (digits d member)) (by decide) (fraction ++ after)
    rw [cut] at taken left
    have fits : fraction <+: (fraction ++ after).takeWhile Char.isDigit :=
      isPrefix_takeWhile (List.prefix_append _ _) fun d member => isDigit_iff.mpr (digits' d member)
    rcases numberText_cases (c :: rest) with ⟨more, dropped, -, text⟩ | ⟨stops, text⟩
    · obtain ⟨-, rfl⟩ := List.cons.inj (dropped.symm.trans left)
      rw [text, taken]
      exact (List.prefix_append_right_inj whole).mpr (List.cons_prefix_cons.mpr ⟨rfl, fits⟩)
    · rw [stops _ left, List.prefix_nil] at fits
      exact absurd fits present

/-- A mark of two characters is one that an equals sign ends. -/
theorem IsMark.cases {c : Char} {cs : List Char} (mark : IsMark (c :: cs)) :
    cs = [] ∨ cs = ['='] ∧ ∃ y, symbol? [c, '='] = some y ∧ y.spelling.toList = [c, '='] := by
  simp only [IsMark, List.mem_cons, List.not_mem_nil, or_false, List.cons.injEq] at mark
  rcases mark with h | h | h | h | h | h | h | h | h | h | h | h | h | h | h | h | h | h | h <;>
    obtain ⟨rfl, rfl⟩ := h <;> simp [symbol?, Symbol.spelling]

theorem symbol_isLongest {c : Char} {rest : List Char} {y : Symbol} (shape : shapeAt c = .mark)
    (found : symbol? (c :: rest) = some y) : IsLongest (c :: rest) y.spelling.toList := by
  refine ⟨.inl (symbol_isMark y), spelling_prefix_of_symbol? found, fun other lexeme starts => ?_⟩
  obtain ⟨cs, rfl, within⟩ := lexeme.exists_cons starts
  have mark := lexeme.of_shape
  rw [shape] at mark
  rcases mark.cases with rfl | ⟨rfl, longer, made, spelt⟩
  · -- a mark of one character is what every mark at this place starts with
    obtain ⟨d, more, spelling⟩ := List.exists_cons_of_ne_nil (IsLexeme.ne_nil (.inl (symbol_isMark y)))
    have first := spelling_prefix_of_symbol? found
    rw [spelling] at first ⊢
    rw [(List.cons_prefix_cons.mp first).1]
    exact List.cons_prefix_cons.mpr ⟨rfl, List.nil_prefix⟩
  · obtain ⟨more, rfl⟩ := within
    rw [List.singleton_append, symbol?_equal, made] at found
    cases found
    rw [spelt]

end Scanner

end Lox
