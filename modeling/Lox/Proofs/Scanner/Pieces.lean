import Lox.Proofs.Scanner.Bytes
import Lox.Proofs.Source.Items

/-!
# The scanner cuts off pieces

What one round of the scanner finds from a place between two characters is the first piece of the
characters that follow, and it leaves the cursor at the end of that piece. A test that tells no two bytes
beyond ASCII apart takes or leaves wide characters as a whole.
-/

namespace Lox

namespace Scanner

open Source

/-- The test does not look at bytes beyond ASCII. -/
def Blind (test : Char → Bool) : Prop :=
  ∀ a b : Char, 128 ≤ a.toNat → 128 ≤ b.toNat → test a = test b

theorem Blind.wide {test : Char → Bool} (blind : Blind test) {c b : Char}
    (wide : c.utf8Size ≠ 1) (byte : 128 ≤ b.toNat) : test b = test c := by
  refine blind b c byte (Nat.le_of_not_lt fun small => ?_)
  exact wide (Char.utf8Size_eq_one_iff.mpr (UInt32.le_iff_toNat_le.mpr (Nat.le_of_lt_succ small)))

theorem blind_ne {d : Char} (ascii : d.toNat < 128) : Blind (· != d) := by
  intro a b ha hb
  have differs {c : Char} (wide : 128 ≤ c.toNat) : (c != d) = true := by
    simp only [bne_iff_ne, ne_eq]
    rintro rfl
    omega
  exact (differs ha).trans (differs hb).symm

/-- No bound in ASCII holds beyond it. -/
theorem not_le_of_wide {c d : Char} (wide : 128 ≤ c.toNat) (ascii : d.toNat < 128) :
    ¬ c.val ≤ d.val := by
  intro below
  have below : c.toNat ≤ d.toNat := UInt32.le_iff_toNat_le.mp below
  omega

theorem isDigit_wide {c : Char} (wide : 128 ≤ c.toNat) : c.isDigit = false := by
  have above : ¬ c.val ≤ '9'.val := not_le_of_wide wide (by decide)
  rw [Char.isDigit, decide_eq_false above, Bool.and_false]

theorem isLetter_wide {c : Char} (wide : 128 ≤ c.toNat) : isLetter c = false := by
  have upper : c.isUpper = false := by
    have above : ¬ c.val ≤ 'Z'.val := not_le_of_wide wide (by decide)
    exact decide_eq_false fun both => above both.2
  have lower : c.isLower = false := by
    have above : ¬ c.val ≤ 'z'.val := not_le_of_wide wide (by decide)
    rw [Char.isLower, decide_eq_false above, Bool.and_false]
  have underscore : (c == '_') = false := by
    refine beq_eq_false_iff_ne.mpr ?_
    rintro rfl
    exact absurd wide (by decide)
  rw [isLetter, Char.isAlpha, upper, lower, underscore]
  rfl

theorem isWordChar_wide {c : Char} (wide : 128 ≤ c.toNat) : isWordChar c = false := by
  rw [isWordChar, isLetter_wide wide, isDigit_wide wide]
  rfl

theorem blind_of_wide {test : Char → Bool} (stops : ∀ c : Char, 128 ≤ c.toNat → test c = false) :
    Blind test := fun a b ha hb => (stops a ha).trans (stops b hb).symm

section

variable {source : String} {pre : List Char}

/-- Bytes are passed over up to the first character that fails the test. -/
theorem passOver_eq {test : Char → Bool} (blind : Blind test) {cs : List Char}
    (text : source.toList = pre ++ cs) :
    passOver source test (width pre) = width (pre ++ cs.takeWhile test) := by
  have size := utf8ByteSize_eq source
  induction cs generalizing pre with
  | nil =>
    rw [text, List.append_nil] at size
    rw [passOver, if_neg (by omega)]
    simp
  | cons c rest ih =>
    have text' : source.toList = (pre ++ [c]) ++ rest := by rw [text]; simp
    rw [text, width_append, width_cons] at size
    have positive := c.utf8Size_pos
    by_cases ascii : c.utf8Size = 1
    · have byte := byteAt_ascii text ascii
      rw [passOver, byte]
      by_cases passes : test c
      · rw [if_pos ⟨by omega, passes⟩]
        have next := ih text'
        rw [width_append, width_cons, width_nil, ascii] at next
        rw [next]
        simp [passes]
      · rw [if_neg (fun both => passes both.2)]
        simp [passes]
    · have bytes {i : Nat} (within : i < c.utf8Size) : test (byteAt source (width pre + i)) = test c :=
        blind.wide ascii (byteAt_wide text ascii within)
      by_cases passes : test c
      · -- the bytes of the character are passed over one by one
        have run (k : Nat) (few : k ≤ c.utf8Size) :
            passOver source test (width pre) = passOver source test (width pre + k) := by
          induction k with
          | zero => rfl
          | succ k step =>
            rw [step (by omega), passOver, if_pos ⟨by omega, (bytes (by omega)).trans passes⟩]
            rfl
        have next := ih text'
        rw [width_append, width_cons, width_nil] at next
        rw [run c.utf8Size (Nat.le_refl _), ← Nat.add_zero (width pre + _), Nat.add_assoc, next]
        simp [passes]
      · have first := bytes positive
        rw [Nat.add_zero] at first
        rw [passOver, if_neg (fun both => passes (first ▸ both.2))]
        simp [passes]

theorem toQuote_eq {cs : List Char} (text : source.toList = pre ++ cs) (start line : Nat)
    (finished : Bool) :
    toQuote ⟨source, start, width pre, line, finished⟩ =
      ⟨source, start, width (pre ++ cs.takeWhile (· != '"')),
        line + newlines (cs.takeWhile (· != '"')), finished⟩ := by
  have size := utf8ByteSize_eq source
  induction cs generalizing pre line with
  | nil =>
    rw [text, List.append_nil] at size
    rw [toQuote, if_neg (fun both => by have := both.1; simp only at this; omega)]
    simp [newlines]
  | cons c rest ih =>
    have text' : source.toList = (pre ++ [c]) ++ rest := by rw [text]; simp
    rw [text, width_append, width_cons] at size
    have positive := c.utf8Size_pos
    by_cases ascii : c.utf8Size = 1
    · have byte := byteAt_ascii text ascii
      rw [toQuote]
      simp only [peek, byte]
      by_cases quote : c = '"'
      · rw [if_neg (fun both => both.2 quote)]
        simp [quote, newlines]
      · rw [if_pos ⟨by omega, quote⟩]
        have next := ih text' (if c = '\n' then line + 1 else line)
        rw [width_append, width_cons, width_nil, ascii] at next
        rw [next]
        have counted : (if c = '\n' then line + 1 else line) = line + newlines [c] := by
          by_cases ends : c = '\n' <;> simp [ends, newlines]
        rw [List.takeWhile_cons_of_pos (by simpa using quote), newlines_cons, counted]
        simp [Nat.add_assoc]
    · -- no byte of the character is a quote or ends a line
      have bytes {i : Nat} (within : i < c.utf8Size) {a : Char} (small : a.toNat < 128) :
          byteAt source (width pre + i) ≠ a := by
        rintro rfl
        have := byteAt_wide text ascii within
        omega
      have differs {a : Char} (small : a.toNat < 128) : c ≠ a := by
        rintro rfl
        exact ascii (Char.utf8Size_eq_one_iff.mpr
          (UInt32.le_iff_toNat_le.mpr (Nat.le_of_lt_succ small)))
      have run (k : Nat) (few : k ≤ c.utf8Size) :
          toQuote ⟨source, start, width pre, line, finished⟩ =
            toQuote ⟨source, start, width pre + k, line, finished⟩ := by
        induction k with
        | zero => rfl
        | succ k step =>
          rw [step (by omega), toQuote,
            if_pos ⟨by simp only; omega, bytes (by omega) (by decide)⟩]
          have same : peek ⟨source, start, width pre + k, line, finished⟩ ≠ '\n' :=
            bytes (by omega) (by decide)
          simp only [if_neg same, Nat.add_assoc]
      have next := ih text' line
      rw [width_append, width_cons, width_nil] at next
      rw [run c.utf8Size (Nat.le_refl _), ← Nat.add_zero (width pre + _), Nat.add_assoc, next]
      have same : newlines [c] = 0 := by
        rw [newlines, List.count_eq_zero, List.mem_singleton]
        exact (differs (by decide)).symm
      rw [List.takeWhile_cons_of_pos (by simpa using differs (by decide)), newlines_cons, same]
      simp

theorem peek_eq_iff {cs : List Char} (text : source.toList = pre ++ cs) {a : Char}
    (ascii : a.toNat < 128) (present : a ≠ '\x00') :
    byteAt source (width pre) = a ↔ cs.head? = some a := by
  cases cs with
  | nil =>
    rw [List.append_nil] at text
    rw [byteAt_end text]
    exact ⟨fun same => absurd same.symm present, nofun⟩
  | cons c rest =>
    rw [List.head?_cons, Option.some_inj]
    by_cases narrow : c.utf8Size = 1
    · rw [byteAt_ascii text narrow]
    · have byte := byteAt_wide text narrow c.utf8Size_pos
      rw [Nat.add_zero] at byte
      constructor
      · rintro rfl
        omega
      · rintro rfl
        refine absurd (Char.utf8Size_eq_one_iff.mpr (UInt32.le_iff_toNat_le.mpr ?_)) narrow
        exact Nat.le_of_lt_succ ascii

/-! ### What is found -/

/-- What the scanner finds where a piece of the given class is. -/
def foundOf : Source.Class → Found
  | .blank => .nothing
  | .token kind => .token kind
  | .unexpected c => .problem (.unexpectedCharacter c)
  | .unterminated => .problem .unterminatedString

/-- The scanner after a piece that starts after `pre`. -/
def scanned (source : String) (pre : List Char) (line : Nat) (segment : Segment) :
    Option (Found × Scanner) :=
  some (foundOf segment.cls, ⟨source, width pre, width (pre ++ segment.text),
    line + newlines segment.text, false⟩)

/-- Characters that pass a test that line ends fail stand on one line. -/
theorem newlines_takeWhile {test : Char → Bool} (inline : test '\n' = false) (cs : List Char) :
    newlines (cs.takeWhile test) = 0 := by
  refine List.count_eq_zero.mpr fun among => ?_
  have passes := List.all_eq_true.mp List.all_takeWhile _ among
  rw [inline] at passes
  cases passes

theorem newlines_single {c : Char} (inline : c ≠ '\n') : newlines [c] = 0 := by
  refine List.count_eq_zero.mpr fun among => ?_
  exact inline (List.mem_singleton.mp among).symm

theorem string_eq {rest : List Char} (text : source.toList = pre ++ '"' :: rest) (line : Nat) :
    string ⟨source, width pre, width pre + 1, line, false⟩ =
      scanned source pre line (stringSegment rest) := by
  have text' : source.toList = (pre ++ ['"']) ++ rest := by rw [text]; simp
  have quoteWidth : width (pre ++ ['"']) = width pre + 1 := by
    rw [width_append]
    rfl
  have moved := toQuote_eq text' (width pre) line false
  rw [quoteWidth] at moved
  have cut := List.takeWhile_append_dropWhile (p := (· != '"')) (l := rest)
  have size := utf8ByteSize_eq source
  unfold string stringSegment
  rw [moved]
  dsimp only
  cases left : rest.dropWhile (· != '"') with
  | nil =>
    rw [left, List.append_nil] at cut
    rw [text'] at size
    rw [cut, if_pos (by simp only [atEnd, decide_eq_true_eq]; omega), scanned, newlines_cons,
      newlines_single (by decide), Nat.zero_add, List.append_assoc]
    rfl
  | cons q more =>
    -- the quote that closes the string is there
    rw [left] at cut
    have body : source.toList = pre ++ ['"'] ++ rest.takeWhile (· != '"') ++ (q :: more) := by
      rw [text', List.append_assoc (pre ++ _), cut]
    have positive := q.utf8Size_pos
    rw [body, width_append, width_cons] at size
    have slice := slice?_eq body
    rw [quoteWidth] at slice
    rw [if_neg (by simp only [atEnd, decide_eq_true_eq]; omega)]
    simp only [bump, Nat.add_sub_cancel, slice, Option.map_some, scanned, foundOf]
    have oneQuote : newlines ['"'] = 0 := newlines_single (by decide)
    have quoteSize : '"'.utf8Size = 1 := by decide
    rw [newlines_cons, oneQuote]
    simp [newlines, quoteSize, Nat.add_assoc]

theorem word_eq {c : Char} {rest : List Char} (text : source.toList = pre ++ c :: rest)
    (ascii : c.utf8Size = 1) (line : Nat) (letter : isLetter c) :
    word ⟨source, width pre, width pre + 1, line, false⟩ =
      scanned source pre line
        ⟨c :: rest.takeWhile isWordChar, .token (wordKind (c :: rest.takeWhile isWordChar))⟩ := by
  have text' : source.toList = (pre ++ [c]) ++ rest := by rw [text]; simp
  have moved := passOver_eq (blind_of_wide fun _ => isWordChar_wide) text'
  have firstWidth : width (pre ++ [c]) = width pre + 1 := by simp [ascii]
  have whole : source.toList =
      pre ++ c :: rest.takeWhile isWordChar ++ rest.dropWhile isWordChar := by
    rw [text]
    simp [List.takeWhile_append_dropWhile]
  have oneLine : newlines (c :: rest.takeWhile isWordChar) = 0 := by
    rw [newlines_cons, newlines_takeWhile rfl, newlines_single]
    rintro rfl
    cases letter
  rw [firstWidth, List.append_assoc, List.singleton_append] at moved
  unfold word passing lexeme?
  dsimp only
  rw [moved, slice?_eq whole, Option.map_some, String.toList_ofList, scanned, oneLine]
  rfl

/-- A digit is next in the bytes when it is next in the characters. -/
theorem isDigit_byteAt {cs : List Char} (text : source.toList = pre ++ cs) :
    (byteAt source (width pre)).isDigit = !(cs.takeWhile Char.isDigit).isEmpty := by
  cases cs with
  | nil =>
    rw [List.append_nil] at text
    rw [byteAt_end text]
    rfl
  | cons c rest =>
    by_cases narrow : c.utf8Size = 1
    · rw [byteAt_ascii text narrow]
      cases digit : c.isDigit <;> simp [digit]
    · have byte := byteAt_wide text narrow c.utf8Size_pos
      rw [Nat.add_zero] at byte
      have same := (blind_of_wide fun _ => isDigit_wide).wide narrow byte
      rw [isDigit_wide byte] at same
      rw [isDigit_wide byte]
      simp [← same]

theorem numberText_inline (cs : List Char) : newlines (numberText cs) = 0 := by
  have whole (cs : List Char) : newlines (cs.takeWhile Char.isDigit) = 0 :=
    newlines_takeWhile rfl cs
  unfold numberText
  split
  · dsimp only
    split
    · exact whole cs
    · rename_i r _ _
      have fraction := whole r
      have first := whole cs
      simp only [newlines, List.count_append, List.count_cons] at first fraction ⊢
      simp [first, fraction]
  · exact whole cs

theorem number_eq {c : Char} {rest : List Char} (text : source.toList = pre ++ c :: rest)
    (ascii : c.utf8Size = 1) (line : Nat) (digit : c.isDigit) :
    number ⟨source, width pre, width pre + 1, line, false⟩ =
      scanned source pre line
        ⟨numberText (c :: rest), .token (.number (numberValue (numberText (c :: rest))))⟩ := by
  have text' : source.toList = (pre ++ [c]) ++ rest := by rw [text]; simp
  have firstWidth : width (pre ++ [c]) = width pre + 1 := by simp [ascii]
  have moved := passOver_eq (blind_of_wide fun _ => isDigit_wide) text'
  rw [firstWidth] at moved
  have cut := List.takeWhile_append_dropWhile (p := Char.isDigit) (l := rest)
  have after : source.toList =
      (pre ++ [c] ++ rest.takeWhile Char.isDigit) ++ rest.dropWhile Char.isDigit := by
    rw [text', List.append_assoc (pre ++ [c]), cut]
  -- the scanner stops where the text of the number ends
  have close (ended : List Char) (left : List Char) (whole : source.toList = pre ++ ended ++ left)
      (same : ended = numberText (c :: rest)) :
      (lexeme? ⟨source, width pre, width (pre ++ ended), line, false⟩).map
        (fun text => (Found.token (.number (numberValue text.toList)),
          (⟨source, width pre, width (pre ++ ended), line, false⟩ : Scanner))) =
        scanned source pre line
          ⟨numberText (c :: rest), .token (.number (numberValue (numberText (c :: rest))))⟩ := by
    subst same
    simp only [lexeme?, slice?_eq whole, Option.map_some, String.toList_ofList, scanned, foundOf,
      numberText_inline, Nat.add_zero]
  have wholeText : (c :: rest).takeWhile Char.isDigit = c :: rest.takeWhile Char.isDigit := by
    simp [digit]
  have wholeLeft : (c :: rest).dropWhile Char.isDigit = rest.dropWhile Char.isDigit := by
    simp [digit]
  have point := peek_eq_iff after (a := '.') (by decide) (by decide)
  have pointWidth : width (pre ++ [c] ++ rest.takeWhile Char.isDigit ++ ['.']) =
      width (pre ++ [c] ++ rest.takeWhile Char.isDigit) + 1 := by
    rw [width_append]
    rfl
  unfold number passing
  simp only [peek, peekNext, bump]
  rw [moved]
  by_cases pointed : ∃ more, rest.dropWhile Char.isDigit = '.' :: more ∧
      more.takeWhile Char.isDigit ≠ []
  · obtain ⟨more, left, some⟩ := pointed
    rw [left] at after point
    have afterPoint : source.toList =
        (pre ++ [c] ++ rest.takeWhile Char.isDigit ++ ['.']) ++ more := by
      rw [after]
      simp
    have next := isDigit_byteAt afterPoint
    have fraction := passOver_eq (blind_of_wide fun _ => isDigit_wide) afterPoint
    rw [pointWidth] at next fraction
    have digitNext : (!(more.takeWhile Char.isDigit).isEmpty) = true := by simpa using some
    have goes : byteAt source (width (pre ++ [c] ++ rest.takeWhile Char.isDigit)) = '.' ∧
        (byteAt source (width (pre ++ [c] ++ rest.takeWhile Char.isDigit) + 1)).isDigit = true :=
      ⟨point.mpr rfl, next.trans digitNext⟩
    simp only [goes, and_self, if_true, fraction]
    have text'' : numberText (c :: rest) =
        c :: rest.takeWhile Char.isDigit ++ '.' :: more.takeWhile Char.isDigit := by
      rw [numberText, wholeText, wholeLeft, left]
      exact if_neg some
    have result := close _ (more.dropWhile Char.isDigit) ?_ text''.symm
    · simpa using result
    · rw [afterPoint]
      simp [List.takeWhile_append_dropWhile]
  · have stops : ¬(byteAt source (width (pre ++ [c] ++ rest.takeWhile Char.isDigit)) = '.' ∧
        (byteAt source (width (pre ++ [c] ++ rest.takeWhile Char.isDigit) + 1)).isDigit) := by
      rintro ⟨isPoint, digitNext⟩
      obtain ⟨more, left⟩ : ∃ more, rest.dropWhile Char.isDigit = '.' :: more := by
        have first := point.mp isPoint
        cases left : rest.dropWhile Char.isDigit with
        | nil => rw [left] at first; cases first
        | cons d more =>
          rw [left] at first
          cases first
          exact ⟨more, rfl⟩
      have afterPoint : source.toList =
          (pre ++ [c] ++ rest.takeWhile Char.isDigit ++ ['.']) ++ more := by
        rw [after, left]
        simp
      have next := isDigit_byteAt afterPoint
      rw [pointWidth, digitNext] at next
      exact pointed ⟨more, left, by simpa using next⟩
    simp only [stops, if_false]
    have text'' : numberText (c :: rest) = c :: rest.takeWhile Char.isDigit := by
      rw [numberText, wholeText, wholeLeft]
      split
      · rename_i more left
        exact if_pos (Decidable.not_not.mp fun some => pointed ⟨more, left, some⟩)
      · rfl
    have result := close _ (rest.dropWhile Char.isDigit) ?_ text''.symm
    · simpa using result
    · rw [after]
      simp

/-- Characters that stand neither between tokens nor at the start of one. -/
structure StartsNothing (c : Char) : Prop where
  space : isSpace c = false
  quote : c ≠ '"'
  digit : c.isDigit = false
  letter : isLetter c = false
  symbol (y : Symbol) : y.spelling.toList.head? ≠ some c

theorem piece_unexpected {c : Char} (starts : StartsNothing c) (rest : List Char) :
    piece c rest = ⟨[c], .unexpected c⟩ := by
  have slash : c ≠ '/' := by
    rintro rfl
    exact starts.symbol .slash rfl
  have none : symbol? (c :: rest) = none := by
    cases found : symbol? (c :: rest) with
    | none => rfl
    | some y =>
      have spelt := spelling_prefix_of_symbol? found
      cases spelling : y.spelling.toList with
      | nil => cases y <;> simp [Symbol.spelling] at spelling
      | cons d more =>
        rw [spelling, List.cons_prefix_cons] at spelt
        exact absurd (by rw [spelling, spelt.1]; rfl) (starts.symbol y)
  simp [piece, firstSegment, starts.space, slash, starts.quote, starts.digit, starts.letter, none]

theorem unexpected_eq {c : Char} {rest : List Char} (text : source.toList = pre ++ c :: rest)
    (line : Nat) (inline : c ≠ '\n') (first : Char) :
    unexpected ⟨source, width pre, width pre + 1, line, false⟩ first =
      scanned source pre line ⟨[c], .unexpected c⟩ := by
  simp [unexpected, charFrom?_eq text, scanned, foundOf, newlines_single inline]

/-- A symbol that may be longer. -/
theorem either_eq {c : Char} {rest : List Char} (text : source.toList = pre ++ c :: rest)
    (ascii : c.utf8Size = 1) (inline : c ≠ '\n') (line : Nat) {longer shorter : Symbol}
    (long : longer.spelling.toList = [c, '=']) (short : shorter.spelling.toList = [c])
    (symbol : piece c rest =
      if rest.head? = some '=' then ⟨longer.spelling.toList, .token (.symbol longer)⟩
      else ⟨shorter.spelling.toList, .token (.symbol shorter)⟩) :
    some (either ⟨source, width pre, width pre + 1, line, false⟩ '=' longer shorter) =
      scanned source pre line (piece c rest) := by
  have text' : source.toList = (pre ++ [c]) ++ rest := by rw [text]; simp
  have next := peek_eq_iff text' (a := '=') (by decide) (by decide)
  have firstWidth : width (pre ++ [c]) = width pre + 1 := by simp [ascii]
  rw [firstWidth] at next
  have equalSize : '='.utf8Size = 1 := by decide
  rw [symbol]
  unfold either
  simp only [peek, next]
  by_cases goes : rest.head? = some '='
  · have oneLine : newlines [c, '='] = 0 := by
      rw [newlines_cons, newlines_single inline, newlines_single (by decide)]
    simp [goes, scanned, long, oneLine, foundOf, bump, ascii, equalSize]
  · simp [goes, scanned, short, newlines_single inline, foundOf, ascii]

/-- A piece of one ASCII character. -/
theorem single_eq {c : Char} (ascii : c.utf8Size = 1) (line : Nat) (cls : Source.Class) :
    scanned source pre line ⟨[c], cls⟩ =
      some (foundOf cls, ⟨source, width pre, width pre + 1, line + newlines [c], false⟩) := by
  simp [scanned, ascii]

/-- One round of the scanner cuts off one piece. -/
theorem scanToken_eq {c : Char} {rest : List Char} (text : source.toList = pre ++ c :: rest)
    (line : Nat) : scanToken ⟨source, width pre, width pre, line, false⟩ =
      scanned source pre line (piece c rest) := by
  by_cases ascii : c.utf8Size = 1
  · have byte := byteAt_ascii text ascii
    unfold scanToken
    simp only [peek, byte, bump]
    split
    case h_11 | h_12 | h_13 | h_14 =>
      refine either_eq text ascii (by decide) line (by decide) (by decide) ?_
      cases rest with
      | nil => rfl
      | cons d rest =>
        by_cases equal : d = '='
        · subst equal
          rfl
        · simp [piece, firstSegment, isSpace, isLetter, symbol?, equal]
    case h_15 =>
      have text' : source.toList = (pre ++ ['/']) ++ rest := by rw [text]; simp
      have next := peek_eq_iff text' (a := '/') (by decide) (by decide)
      have firstWidth : width (pre ++ ['/']) = width pre + 1 := by simp [ascii]
      have comment := passOver_eq (blind_ne (d := '\n') (by decide)) text'
      rw [firstWidth] at next comment
      by_cases goes : rest.head? = some '/'
      · have oneLine : newlines ('/' :: rest.takeWhile (· != '\n')) = 0 := by
          rw [newlines_cons, newlines_takeWhile rfl, newlines_single (by decide)]
        have comments : piece '/' rest = ⟨'/' :: rest.takeWhile (· != '\n'), .blank⟩ := by
          simp [piece, firstSegment, isSpace, goes]
        simp [next, goes, passing, comment, comments, scanned, oneLine, foundOf]
      · have slash : piece '/' rest = ⟨['/'], .token (.symbol .slash)⟩ := by
          simp [piece, firstSegment, isSpace, goes, isLetter, symbol?, Symbol.spelling]
        simp only [next, goes, if_false, slash]
        exact (single_eq ascii line (.token _)).symm
    case h_16 | h_17 | h_18 | h_19 => exact (single_eq ascii line .blank).symm
    case h_20 => exact string_eq text line
    case h_21 =>
      have space : isSpace c = false := by
        simp only [isSpace, Bool.or_eq_false_iff, beq_eq_false_iff_ne]
        refine ⟨⟨⟨?_, ?_⟩, ?_⟩, ?_⟩ <;> assumption
      have symbol (y : Symbol) : y.spelling.toList.head? ≠ some c := by
        intro starts
        cases y <;> simp [Symbol.spelling] at starts <;>
          exact absurd starts.symm (by assumption)
      have quote : c ≠ '"' := by assumption
      have slash : c ≠ '/' := by assumption
      split
      · rename_i digit
        have segment : piece c rest = ⟨numberText (c :: rest),
            .token (.number (numberValue (numberText (c :: rest))))⟩ := by
          simp [piece, firstSegment, space, slash, quote, digit]
        rw [segment]
        exact number_eq text ascii line digit
      · rename_i digit
        have digit : c.isDigit = false := by simpa using digit
        split
        · rename_i letter
          have segment : piece c rest = ⟨c :: rest.takeWhile isWordChar,
              .token (wordKind (c :: rest.takeWhile isWordChar))⟩ := by
            simp [piece, firstSegment, space, slash, quote, digit, letter]
          rw [segment]
          exact word_eq text ascii line letter
        · rename_i letter
          have letter : isLetter c = false := by simpa using letter
          rw [piece_unexpected ⟨space, quote, digit, letter, symbol⟩]
          exact unexpected_eq text line (by assumption) c
    all_goals exact (single_eq ascii line (.token _)).symm
  · have byte := byteAt_wide text ascii c.utf8Size_pos
    rw [Nat.add_zero] at byte
    have differs {a : Char} (small : a.toNat < 128) : c ≠ a := by
      rintro rfl
      exact ascii (Char.utf8Size_eq_one_iff.mpr
        (UInt32.le_iff_toNat_le.mpr (Nat.le_of_lt_succ small)))
    have symbol (y : Symbol) : y.spelling.toList.head? ≠ some c := by
      intro starts
      cases y <;> simp [Symbol.spelling] at starts <;>
        exact absurd starts.symm (differs (by decide))
    have space : isSpace c = false := by
      simp only [isSpace, Bool.or_eq_false_iff, beq_eq_false_iff_ne]
      exact ⟨⟨⟨differs (by decide), differs (by decide)⟩, differs (by decide)⟩, differs (by decide)⟩
    have same {test : Char → Bool} (stops : ∀ a : Char, 128 ≤ a.toNat → test a = false) :
        test c = false := ((blind_of_wide stops).wide ascii byte).symm.trans (stops _ byte)
    rw [piece_unexpected ⟨space, differs (by decide), same fun _ => isDigit_wide,
      same fun _ => isLetter_wide, symbol⟩]
    unfold scanToken
    simp only [peek, bump]
    split
    case h_21 =>
      rw [if_neg (by rw [isDigit_wide byte]; exact Bool.false_ne_true),
        if_neg (by rw [isLetter_wide byte]; exact Bool.false_ne_true)]
      exact unexpected_eq text line (differs (by decide)) _
    -- the byte is none of the ASCII characters that are looked for
    all_goals
      rename_i is
      rw [is] at byte
      exact absurd byte (by decide)

end

end Scanner

end Lox
