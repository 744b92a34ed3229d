import Lox.Proofs.Scanner.Lossless
import Lox.Proofs.Scope.Resuming

/-!
# Sources one after the other

A line end keeps two sources apart: no token and no comment goes on behind it. So the tokens of two sources
with a line end between them are those of the first one, without the end token, and those of the second
one, on later lines.
-/

namespace Lox

namespace Source

/-- The item on another line. -/
def Item.reline (f : Nat → Nat) : Item → Item
  | .token t => .token (t.reline f)
  | .problem line cause => .problem (f line) cause

/-- Characters that start on a later line have the same items, on later lines. -/
theorem itemsAt_add (k line : Nat) (cs : List Char) :
    itemsAt (line + k) cs = (itemsAt line cs).map (Item.reline (· + k)) := by
  induction length : cs.length using Nat.strongRecOn generalizing cs line with
  | _ n ih =>
    cases cs with
    | nil =>
      rw [itemsAt_nil, itemsAt_nil]
      rfl
    | cons c rest =>
      have progress := List.length_pos_iff.mpr (piece_text_ne_nil c rest)
      have shorter : ((c :: rest).drop (piece c rest).text.length).length < n := by
        rw [← length, List.length_drop, List.length_cons]
        omega
      have item (segment : Segment) (line : Nat) :
          segment.item? (line + k) = (segment.item? line).map (Item.reline (· + k)) := by
        obtain ⟨text, cls⟩ := segment
        cases cls <;> rfl
      rw [itemsAt_cons, itemsAt_cons, Nat.add_right_comm, ih _ shorter _ _ rfl, item, List.map_append]
      congr 1
      cases (piece c rest).item? (line + newlines (piece c rest).text) <;> rfl

/-! ### A line end ends every piece -/

section

variable {test : Char → Bool} (rest later : List Char)

theorem takeWhile_join (stops : test '\n' = false) :
    (rest ++ '\n' :: later).takeWhile test = rest.takeWhile test := by
  induction rest with
  | nil => simp [stops]
  | cons c rest ih => simp only [List.cons_append, List.takeWhile_cons, ih]

theorem dropWhile_join (stops : test '\n' = false) :
    (rest ++ '\n' :: later).dropWhile test = rest.dropWhile test ++ '\n' :: later := by
  induction rest with
  | nil => simp [stops]
  | cons c rest ih =>
    simp only [List.cons_append, List.dropWhile_cons, ih]
    split <;> rfl

/-- Characters that have been stopped at already are not affected by what follows. -/
theorem takeWhile_append_of_stopped (stopped : rest.dropWhile test ≠ []) :
    (rest ++ later).takeWhile test = rest.takeWhile test ∧
      (rest ++ later).dropWhile test = rest.dropWhile test ++ later := by
  induction rest with
  | nil => exact absurd rfl stopped
  | cons c rest ih =>
    rw [List.dropWhile_cons] at stopped
    simp only [List.cons_append, List.takeWhile_cons, List.dropWhile_cons]
    split
    · rename_i passes
      rw [if_pos passes] at stopped
      exact ⟨congrArg _ (ih stopped).1, (ih stopped).2⟩
    · exact ⟨rfl, rfl⟩

theorem numberText_join (cs : List Char) :
    numberText (cs ++ '\n' :: later) = numberText cs := by
  unfold numberText
  rw [takeWhile_join _ _ rfl, dropWhile_join _ _ rfl]
  cases cs.dropWhile Char.isDigit with
  | nil => rfl
  | cons point fraction =>
    rw [List.cons_append]
    by_cases dot : point = '.'
    · subst dot
      have digits : (fraction ++ '\n' :: later).takeWhile Char.isDigit =
          fraction.takeWhile Char.isDigit := takeWhile_join _ _ rfl
      change (if (fraction ++ '\n' :: later).takeWhile Char.isDigit = [] then _ else _) = _
      rw [digits]
      rfl
    · -- what follows the digits is no part of the number
      simp [dot]

theorem symbol?_join (c : Char) : symbol? (c :: (rest ++ '\n' :: later)) = symbol? (c :: rest) := by
  cases rest with
  | nil => exact symbol?_other c (by simp)
  | cons d rest =>
    by_cases equal : d = '='
    · subst equal
      rw [List.cons_append, symbol?_equal, symbol?_equal c rest]
    · have differs (more : List Char) : (d :: more).head? ≠ some '=' := by simpa using equal
      exact (symbol?_other c (differs _)).trans (symbol?_other c (differs _)).symm

theorem stringSegment_join (closed : (stringSegment rest).cls ≠ .unterminated) :
    stringSegment (rest ++ '\n' :: later) = stringSegment rest := by
  have stopped : rest.dropWhile (· != '"') ≠ [] := by
    intro none
    rw [stringSegment, none] at closed
    exact closed rfl
  obtain ⟨before, after⟩ := takeWhile_append_of_stopped rest ('\n' :: later) stopped
  rw [stringSegment, stringSegment, before, after]
  cases left : rest.dropWhile (· != '"') with
  | nil => exact absurd left stopped
  | cons quote more => rfl

/-- No piece goes on behind a line end, except a string. -/
theorem piece_join (c : Char) (closed : (piece c rest).cls ≠ .unterminated) :
    piece c (rest ++ '\n' :: later) = piece c rest := by
  have slash : (rest ++ '\n' :: later).head? = some '/' ↔ rest.head? = some '/' := by
    cases rest <;> simp
  have comment : (rest ++ '\n' :: later).takeWhile (· != '\n') = rest.takeWhile (· != '\n') :=
    takeWhile_join rest later rfl
  have word : (rest ++ '\n' :: later).takeWhile isWordChar = rest.takeWhile isWordChar :=
    takeWhile_join rest later rfl
  have number := numberText_join later (c :: rest)
  rw [List.cons_append] at number
  unfold piece at closed ⊢
  split
  · rfl
  rename_i space
  rw [if_neg space, firstSegment, if_neg space] at closed
  simp only [firstSegment, if_neg space, slash, comment, word, number, symbol?_join]
  split
  · rfl
  rename_i noComment
  rw [if_neg noComment] at closed
  split
  · rename_i quote
    rw [if_pos quote] at closed
    exact stringSegment_join rest later closed
  · rfl

end

/-! ### Two sources -/

/-- A piece without a problem is skipped or makes a token. -/
theorem tokens_of_piece {c : Char} {rest : List Char} {line : Nat}
    (clean : ((piece c rest).item? line).toList.filterMap Item.diagnostic? = []) :
    ∃ ts : List Token, (∀ t ∈ ts, t.kind ≠ .eof) ∧
      ((piece c rest).item? line).toList = ts.map Item.token := by
  rcases Scanner.piece_cases c rest with ⟨_, blank⟩ | ⟨_, _, _, blank⟩ | token |
    ⟨_, _, string⟩ | ⟨_, unexpected⟩
  · exact ⟨[], nofun, by rw [blank]; rfl⟩
  · exact ⟨[], nofun, by rw [blank]; rfl⟩
  · obtain ⟨kind, token, inner⟩ := token.kind
    refine ⟨[⟨kind, String.ofList (piece c rest).text, line⟩], ?_, ?_⟩
    · intro t member
      rw [List.mem_singleton.mp member]
      exact inner
    · rw [Segment.item?, token]
      rfl
  · rw [Segment.item?, string] at clean
    cases clean
  · rw [Segment.item?, unexpected] at clean
    cases clean

/-- Characters without problems are tokens and an end token. With a line end and more behind them they are
the same tokens, and the items of the rest follow. -/
theorem itemsAt_join (line : Nat) (cs : List Char)
    (clean : (itemsAt line cs).filterMap Item.diagnostic? = []) :
    ∃ ts : List Token, (∀ t ∈ ts, t.kind ≠ .eof) ∧
      itemsAt line cs = ts.map .token ++ [.token ⟨.eof, "", line + newlines cs⟩] ∧
      ∀ later, itemsAt line (cs ++ '\n' :: later) =
        ts.map .token ++ itemsAt (line + newlines cs + 1) later := by
  induction length : cs.length using Nat.strongRecOn generalizing cs line with
  | _ n ih =>
    cases cs with
    | nil => exact ⟨[], nofun, itemsAt_nil line, fun later => itemsAt_space rfl line later⟩
    | cons c rest =>
      have progress := List.length_pos_iff.mpr (piece_text_ne_nil c rest)
      have whole := Scanner.piece_append_drop c rest
      have items := itemsAt_cons line c rest
      -- what is left after the first piece
      generalize left : (c :: rest).drop (piece c rest).text.length = after at whole items
      have shorter : after.length < n := by
        have := congrArg List.length whole
        simp only [List.length_append] at this
        omega
      have lines : newlines (c :: rest) = newlines (piece c rest).text + newlines after := by
        rw [← whole]
        exact List.count_append
      rw [items, List.filterMap_append] at clean
      obtain ⟨first, others⟩ := List.append_eq_nil_iff.mp clean
      obtain ⟨ts, inner, alone, joined⟩ := ih _ shorter _ after others rfl
      have closed : (piece c rest).cls ≠ .unterminated := by
        intro unterminated
        rw [Segment.item?, unterminated] at first
        cases first
      have behind (later : List Char) : itemsAt line ((c :: rest) ++ '\n' :: later) =
          ((piece c rest).item? (line + newlines (piece c rest).text)).toList ++
            itemsAt (line + newlines (piece c rest).text) (after ++ '\n' :: later) := by
        rw [List.cons_append, itemsAt_cons, piece_join rest later c closed, ← List.cons_append,
          List.drop_append_of_le_length (piece_isPrefix c rest).length_le, left]
      have ended : line + newlines (piece c rest).text + newlines after =
          line + newlines (c :: rest) := by rw [lines, Nat.add_assoc]
      rw [ended] at alone joined
      obtain ⟨ts', inner', made⟩ := tokens_of_piece first
      refine ⟨ts' ++ ts, fun t member => ?_, ?_, fun later => ?_⟩
      · rcases List.mem_append.mp member with member | member
        · exact inner' t member
        · exact inner t member
      · rw [items, made, alone, List.map_append, List.append_assoc]
      · rw [behind, made, joined, List.map_append, List.append_assoc]

/-- The number of lines that a source takes up with the line end behind it. -/
def height (source : String) : Nat := newlines source.toList + 1

/-- The tokens of two sources with a line end between them. -/
theorem tokens_join {source : String} (clean : problems source = []) :
    ∃ (ts : List Token) (line : Nat), (∀ t ∈ ts, t.kind ≠ .eof) ∧
      tokens source = ts ++ [⟨.eof, "", line⟩] ∧
      ∀ later, tokens (source ++ "\n" ++ later) =
          ts ++ (tokens later).map (Token.reline (· + height source)) ∧
        problems (source ++ "\n" ++ later) =
          (problems later).map (Diagnostic.reline (· + height source)) := by
  obtain ⟨ts, inner, alone, joined⟩ := itemsAt_join 1 source.toList clean
  have taken (ts : List Token) : (ts.map Item.token).filterMap Item.token? = ts := by
    rw [List.filterMap_map]
    exact List.filterMap_some
  have harmless (ts : List Token) : (ts.map Item.token).filterMap Item.diagnostic? = [] := by
    rw [List.filterMap_map]
    exact List.filterMap_eq_nil_iff.mpr fun _ _ => rfl
  refine ⟨ts, 1 + newlines source.toList, inner, ?_, fun later => ?_⟩
  · rw [tokens, items_eq, alone, List.filterMap_append, taken]
    rfl
  · have items : items (source ++ "\n" ++ later) =
        ts.map Item.token ++ (items later).map (Item.reline (· + height source)) := by
      have text : (source ++ "\n" ++ later).toList = source.toList ++ '\n' :: later.toList := by simp
      rw [items_eq, text, joined, Nat.add_assoc, itemsAt_add, items_eq]
      rfl
    rw [tokens, problems, items, List.filterMap_append, List.filterMap_append, taken, harmless,
      tokens, problems, List.filterMap_map, List.filterMap_map, List.map_filterMap, List.map_filterMap]
    constructor
    · congr 2
      funext item
      cases item <;> rfl
    · rw [List.nil_append]
      congr 1
      funext item
      cases item <;> rfl

end Source

end Lox
