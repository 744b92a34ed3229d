import Lox.Proofs.Scanner.Classification

/-!
# Lexemes that are written apart

A lexeme with whitespace behind it is found again as it is: no lexeme but a string holds whitespace, and a
string ends at its closing quote. So tokens that are written down with whitespace and comments between them are
scanned as the same tokens, on other lines.
-/

namespace Lox

/-- What a token shows apart from its line. -/
def Token.unplaced (t : Token) : Token.Kind × String := (t.kind, t.lexeme)

namespace Scanner

open Source

/-- Whitespace, and comments with the newline that ends them. -/
inductive Filler : List Char → Prop
  | nil : Filler []
  | space {c : Char} {cs : List Char} (space : c ∈ [' ', '\t', '\r', '\n']) (rest : Filler cs) :
    Filler (c :: cs)
  | comment {body cs : List Char} (inline : '\n' ∉ body) (rest : Filler cs) :
    Filler ('/' :: '/' :: (body ++ '\n' :: cs))

/-- What keeps two lexemes apart: a filler that starts with whitespace. -/
def IsSeparator (cs : List Char) : Prop :=
  ∃ c rest, cs = c :: rest ∧ c ∈ [' ', '\t', '\r', '\n'] ∧ Filler cs

theorem isSpace_iff {c : Char} : isSpace c ↔ c ∈ [' ', '\t', '\r', '\n'] := by
  simp only [isSpace, Bool.or_eq_true, beq_iff_eq, List.mem_cons, List.not_mem_nil, or_false]
  tauto

/-! ### Lexemes before whitespace -/

/-- Whitespace stands in no lexeme but a string. -/
theorem IsLexeme.spaceless {cs : List Char} (lexeme : IsLexeme cs) (unquoted : ¬ IsString cs) {c : Char}
    (space : isSpace c) : c ∉ cs := by
  rw [isSpace_iff] at space
  have blank : isWordChar c = false := by
    simp only [List.mem_cons, List.not_mem_nil, or_false] at space
    rcases space with rfl | rfl | rfl | rfl <;> rfl
  have plain (d : Char) (inside : IsLetter d ∨ IsDigit d) : d ≠ c := by
    rintro rfl
    rw [← isWordChar_iff, blank] at inside
    cases inside
  intro member
  rcases lexeme with mark | ⟨whole, -, digits, same | ⟨fraction, -, digits', same⟩⟩ |
    ⟨first, rest, same, letter, others⟩ | string
  · obtain ⟨y, rfl⟩ := IsMark.exists_symbol mark
    have printed : y.spelling.toList.any isSpace = false := by cases y <;> rfl
    rw [← isSpace_iff] at space
    exact List.any_eq_false.mp printed c member space
  · rw [same] at member
    exact plain c (.inr (digits c member)) rfl
  · rw [same, List.mem_append, List.mem_cons] at member
    rcases member with member | rfl | member
    · exact plain c (.inr (digits c member)) rfl
    · exact absurd space (by decide)
    · exact plain c (.inr (digits' c member)) rfl
  · rw [same, List.mem_cons] at member
    rcases member with rfl | member
    · exact plain c (.inl letter) rfl
    · exact plain c (others c member) rfl
  · exact unquoted string

/-- The first character tells whether a lexeme is a string. -/
theorem IsLexeme.isString_iff {c : Char} {cs ds : List Char} (first : IsLexeme (c :: cs))
    (next : IsLexeme (c :: ds)) : IsString (c :: cs) ↔ IsString (c :: ds) := by
  have quoted {es : List Char} (lexeme : IsLexeme (c :: es)) : IsString (c :: es) ↔ c = '"' := by
    constructor
    · exact IsString.first
    · rintro rfl
      exact lexeme.of_shape
  rw [quoted first, quoted next]

/-- A lexeme is the longest one where whitespace follows it. -/
theorem IsLexeme.isLongest {cs : List Char} (lexeme : IsLexeme cs) {c : Char} (space : isSpace c)
    (later : List Char) : IsLongest (cs ++ c :: later) cs := by
  by_cases string : IsString cs
  · obtain ⟨body, closed, rfl⟩ := string
    have longest := string_isLongest closed (c :: later)
    simpa using longest
  refine ⟨lexeme, List.prefix_append _ _, fun other lexeme' starts => ?_⟩
  obtain ⟨d, ds, rfl⟩ := List.exists_cons_of_ne_nil lexeme.ne_nil
  obtain ⟨es, rfl, -⟩ := lexeme'.exists_cons starts
  have none := lexeme'.spaceless (fun quoted => string ((lexeme.isString_iff lexeme').mpr quoted)) space
  rcases List.prefix_or_prefix_of_prefix starts (List.prefix_append (d :: ds) (c :: later)) with
    shorter | ⟨more, longer⟩
  · exact shorter
  -- what is longer has the whitespace in it, unless it is no longer
  cases more with
  | nil =>
    rw [List.append_nil] at longer
    rw [longer]
  | cons e more =>
    rw [← longer, List.prefix_append_right_inj] at starts
    rw [← longer, (List.cons_prefix_cons.mp starts).1] at none
    simp at none

/-- A lexeme has at most one kind that a token of a source can have. -/
theorem HasKind.unique {kind kind' : Token.Kind} {cs : List Char} (has : HasKind kind cs)
    (has' : HasKind kind' cs) (inner : kind ≠ .eof) : kind' = kind := by
  cases kind with
  | symbol y => exact (has'.symbol y).mpr ((has.symbol y).mp rfl)
  | keyword k => exact (has'.keyword k).mpr ((has.keyword k).mp rfl)
  | identifier => exact has'.identifier.mpr (has.identifier.mp rfl)
  | string text => exact (has'.string text).mpr ((has.string text).mp rfl)
  | number value => exact (has'.number value).mpr ((has.number value).mp rfl)
  | eof => exact absurd rfl inner

theorem IsLongest.unique {text cs ds : List Char} (longest : IsLongest text cs)
    (longest' : IsLongest text ds) : cs = ds :=
  (longest'.longest cs longest.lexeme longest.starts).eq_of_length_le
    (longest.longest ds longest'.lexeme longest'.starts).length_le

/-- The longest lexeme at the front is cut off as a token, unless a comment starts there. -/
theorem piece_of_longest {c : Char} {rest cs : List Char} {kind : Token.Kind}
    (longest : IsLongest (c :: rest) (c :: cs)) (has : HasKind kind (c :: cs)) (inner : kind ≠ .eof)
    (alone : ¬ ['/', '/'] <+: c :: rest) : piece c rest = ⟨c :: cs, .token kind⟩ := by
  have fits := piece_fits c rest
  have starts (none : StartsWithNone (c :: rest)) : False := none.lexeme _ longest.lexeme longest.starts
  rcases piece_cases c rest with ⟨blank, -⟩ | ⟨more, rfl, rfl, -⟩ | token |
    ⟨-, -, unterminated⟩ | ⟨-, unexpected⟩
  · -- no lexeme starts with whitespace
    have quoted : IsString (c :: cs) := by
      by_contra unquoted
      exact longest.lexeme.spaceless unquoted blank List.mem_cons_self
    cases quoted.first
    cases blank
  · exact absurd (List.prefix_append ['/', '/'] more) alone
  · obtain ⟨kind', cls, -⟩ := token.kind
    rw [cls] at fits
    obtain ⟨longest', has', -⟩ := fits
    have text := longest'.unique longest
    rw [text] at has'
    generalize piece c rest = segment at cls text
    obtain ⟨_, _⟩ := segment
    cases cls
    cases text
    rw [has.unique has' inner]
  · rw [unterminated] at fits
    exact (starts fits).elim
  · rw [unexpected] at fits
    exact (starts fits).elim

/-- A token that is written with whitespace behind it is cut off as it is. -/
theorem piece_of_lexeme {c w : Char} {cs : List Char} {kind : Token.Kind} (lexeme : IsLexeme (c :: cs))
    (has : HasKind kind (c :: cs)) (inner : kind ≠ .eof) (space : isSpace w) (later : List Char) :
    piece c (cs ++ w :: later) = ⟨c :: cs, .token kind⟩ := by
  refine piece_of_longest (lexeme.isLongest space later) has inner fun comment => ?_
  rw [List.cons_prefix_cons] at comment
  obtain ⟨rfl, comment⟩ := comment
  -- no lexeme starts with two slashes
  have mark : IsMark ('/' :: cs) := lexeme.of_shape
  rcases mark.cases with rfl | ⟨rfl, -⟩
  · cases (List.cons_prefix_cons.mp comment).1
    cases space
  · cases (List.cons_prefix_cons.mp comment).1

/-! ### Tokens with separators between them -/

/-- A filler has no items. -/
theorem itemsAt_filler {cs : List Char} (filler : Filler cs) (line : Nat) (later : List Char) :
    itemsAt line (cs ++ later) = itemsAt (line + newlines cs) later := by
  induction filler generalizing line with
  | nil => rfl
  | @space c cs space _ ih =>
    rw [List.cons_append, itemsAt_space (isSpace_iff.mpr space), ih, newlines_cons c cs, Nat.add_assoc]
  | @comment body cs inline _ ih =>
    -- the comment is cut off first, and then the newline that ends it
    have within (d : Char) (member : d ∈ body) : (d != '\n') = true := by
      rw [bne_iff_ne]
      rintro rfl
      exact inline member
    have cut : (body ++ '\n' :: (cs ++ later)).takeWhile (· != '\n') = body :=
      (takeWhile_stops within rfl _).1
    have comment : piece '/' ('/' :: (body ++ '\n' :: (cs ++ later))) = ⟨'/' :: '/' :: body, .blank⟩ := by
      simp [piece, firstSegment, isSpace, cut]
    have whole : '/' :: '/' :: (body ++ '\n' :: cs) ++ later =
        '/' :: '/' :: (body ++ '\n' :: (cs ++ later)) := by simp
    have lines : newlines ('/' :: '/' :: (body ++ '\n' :: cs)) =
        newlines ('/' :: '/' :: body) + newlines ['\n'] + newlines cs := by
      rw [Nat.add_assoc, ← newlines_append, ← newlines_append]
      simp
    rw [whole, itemsAt_cons, comment]
    simp only [Segment.item?, Option.toList_none, List.nil_append, List.length_cons,
      List.drop_succ_cons, List.drop_left]
    rw [itemsAt_space rfl, ih, lines, ← Nat.add_assoc, ← Nat.add_assoc]

/-- The lexemes of tokens, each behind its separator. The end token has no text, so the separator before it
stands after all lexemes. -/
def spread (separators : List (List Char)) (tokens : List Token) : List Char :=
  (separators.zip tokens).flatMap fun p => p.1 ++ p.2.lexeme.toList

theorem spread_cons (separator : List Char) (separators : List (List Char)) (t : Token)
    (tokens : List Token) : spread (separator :: separators) (t :: tokens) =
      separator ++ (t.lexeme.toList ++ spread separators tokens) := by
  simp [spread]

/-- A token as it is scanned: its lexeme is one of the language, and has its kind. -/
structure IsScanned (t : Token) : Prop where
  inner : t.kind ≠ .eof
  lexeme : IsLexeme t.lexeme.toList
  kind : HasKind t.kind t.lexeme.toList

/-- Tokens that are written apart are found again, by induction on the tokens: whitespace follows the first
one since a separator does. -/
theorem itemsAt_spread {tokens : List Token} (scanned : ∀ t ∈ tokens, IsScanned t)
    {separators : List (List Char)} (apart : ∀ s ∈ separators, IsSeparator s) {end_ : Token}
    (ended : end_.kind = .eof) (empty : end_.lexeme = "")
    (count : separators.length = (tokens ++ [end_]).length) (line : Nat) :
    ∃ tokens' : List Token, itemsAt line (spread separators (tokens ++ [end_])) = tokens'.map Item.token ∧
      tokens'.map Token.unplaced = (tokens ++ [end_]).map Token.unplaced := by
  induction tokens generalizing separators line with
  | nil =>
    obtain ⟨separator, rfl⟩ := List.length_eq_one_iff.mp count
    obtain ⟨_, _, -, -, filler⟩ := apart separator List.mem_cons_self
    refine ⟨[⟨.eof, "", line + newlines separator⟩], ?_, ?_⟩
    · rw [List.nil_append, spread_cons, empty, itemsAt_filler filler]
      exact itemsAt_nil _
    · simp [Token.unplaced, ended, empty]
  | cons t tokens ih =>
    match separators, count with
    | [_], count => simp at count
    | separator :: next :: others, count =>
      obtain ⟨_, _, -, -, filler⟩ := apart separator List.mem_cons_self
      obtain ⟨w, blank, rfl, space, -⟩ := apart next (List.mem_cons_of_mem _ List.mem_cons_self)
      have ⟨inner, lexeme, kind⟩ := scanned t List.mem_cons_self
      obtain ⟨c, cs, text⟩ := List.exists_cons_of_ne_nil lexeme.ne_nil
      obtain ⟨later, rest⟩ : ∃ later, spread ((w :: blank) :: others) (tokens ++ [end_]) = w :: later := by
        cases tokens <;> exact ⟨_, spread_cons _ _ _ _⟩
      rw [text] at lexeme kind
      have cut := piece_of_lexeme lexeme kind inner (isSpace_iff.mpr space) later
      let line' := line + newlines separator + newlines (c :: cs)
      obtain ⟨tokens', items, same⟩ := ih (fun t member => scanned t (List.mem_cons_of_mem _ member))
        (fun s member => apart s (List.mem_cons_of_mem _ member)) (Nat.succ.inj count) line'
      refine ⟨⟨t.kind, t.lexeme, line'⟩ :: tokens', ?_, ?_⟩
      · rw [List.cons_append, spread_cons, itemsAt_filler filler, text, rest, List.cons_append,
          itemsAt_cons, cut, List.map_cons, ← items, rest, ← String.ofList_toList (s := t.lexeme), text]
        simp [Segment.item?, line']
      · rw [List.map_cons, same]
        rfl

/-- The tokens of a source without a problem are scanned ones, and an end token. -/
theorem scanned_of_items {source : String} {tokens : List Token}
    (scanned : items? source = some (tokens.map Item.token)) :
    ∃ front end_, tokens = front ++ [end_] ∧ (∀ t ∈ front, IsScanned t) ∧ end_.kind = .eof ∧
      end_.lexeme = "" := by
  obtain ⟨cuts, blank, -, -, line, -, made, -, given, -⟩ := exists_run_new source
  rw [scanned, Option.some.injEq, List.map_eq_append_iff] at given
  obtain ⟨front, ending, rfl, items, last⟩ := given
  obtain ⟨end_, rfl, last⟩ := List.map_eq_singleton_iff.mp last
  cases last
  refine ⟨front, _, rfl, fun t member => ?_, rfl, rfl⟩
  have given : Item.token t ∈ cuts.map Cut.item := items ▸ List.mem_map_of_mem member
  obtain ⟨cut, among, item⟩ := List.mem_map.mp given
  obtain ⟨before, after, at_⟩ := List.append_of_mem among
  have stands := (made before cut after at_).proper.stands
  have classifies := (made before cut after at_).classifies
  rw [item] at stands classifies
  obtain ⟨lexeme, longest, has, -⟩ := classifies
  have span : t.lexeme.toList = cut.span := by rw [lexeme, String.toList_ofList]
  exact ⟨stands.1, span ▸ longest.lexeme, span ▸ has⟩

/-- The tokens of a source that scans without a problem, written down again with separators between them and
around them, scan without a problem as the same tokens on other lines. -/
theorem rescanning_is_identity {source : String} {tokens : List Token}
    (scanned : items? source = some (tokens.map Item.token)) {separators : List (List Char)}
    (count : separators.length = tokens.length) (apart : ∀ s ∈ separators, IsSeparator s) :
    ∃ tokens' : List Token,
      items? (String.ofList (spread separators tokens)) = some (tokens'.map Item.token) ∧
        tokens'.map Token.unplaced = tokens.map Token.unplaced := by
  obtain ⟨front, end_, rfl, each, ended, empty⟩ := scanned_of_items scanned
  obtain ⟨tokens', items, same⟩ := itemsAt_spread each apart ended empty count 1
  refine ⟨tokens', ?_, same⟩
  rw [items?_eq, items_eq, String.toList_ofList, items]

end Scanner

end Lox
