import Lox.Proofs.Number.Notation
import Lox.Proofs.Scanner.Rescanning
import Lox.Session

/-!
# Printed numbers are read back

The text of a finite number is an expression again: a number literal, behind a minus sign if the number has its
sign bit set. Its value is the number that was printed, bit for bit.
-/

namespace Lox

open Binary64 Number Source

/-! ### The tokens of a printed number -/

section

variable {whole fraction cs : List Char}

theorem Number.IsPositional.isNumber (written : IsPositional whole fraction cs) : Scanner.IsNumber cs := by
  have digit (c : Char) (among : c ∈ whole ++ fraction) : Scanner.IsDigit c :=
    Scanner.isDigit_iff.mp (written.digits c among)
  exact ⟨whole, written.before, fun c among => digit c (List.mem_append_left _ among),
    .inr ⟨fraction, written.after, fun c among => digit c (List.mem_append_right _ among), written.text⟩⟩

/-- A number with a point is scanned as one token. -/
theorem itemsAt_positional (written : IsPositional whole fraction cs) (line : Nat) :
    itemsAt line cs = [.token ⟨.number (numberValue cs), String.ofList cs, line⟩, .token ⟨.eof, "", line⟩] := by
  have number := written.isNumber
  have lexeme : Scanner.IsLexeme cs := .inr (.inl number)
  obtain ⟨c, rest, rfl⟩ := List.exists_cons_of_ne_nil lexeme.ne_nil
  have whole : Scanner.IsLongest (c :: rest) (c :: rest) := ⟨lexeme, List.prefix_rfl, fun _ _ starts => starts⟩
  have cut : piece c rest = ⟨c :: rest, .token (.number (numberValue (c :: rest)))⟩ := by
    refine Scanner.piece_of_longest whole (Scanner.hasKind_number number) nofun fun comment => ?_
    have digit := number.first
    rw [← (List.cons_prefix_cons.mp comment).1] at digit
    cases digit
  have inline : newlines (c :: rest) = 0 := by
    rw [newlines, List.count_eq_zero]
    exact lexeme.spaceless (fun string => by
      have digit := number.first
      cases string.first
      cases digit) rfl
  rw [itemsAt_cons, cut]
  simp [Segment.item?, inline, itemsAt_nil]

end

/-- The minus sign in front is a token of its own. -/
theorem itemsAt_minus (line : Nat) (cs : List Char) :
    itemsAt line ('-' :: cs) = .token ⟨.symbol .minus, "-", line⟩ :: itemsAt line cs := by
  have cut : piece '-' cs = ⟨['-'], .token (.symbol .minus)⟩ := by
    unfold piece firstSegment
    rfl
  rw [itemsAt_cons, cut]
  rfl

/-! ### Reading and evaluating -/

theorem soleExpression_number (value : Float) (lexeme : String) (line line' : Nat) (id : NodeId) :
    Grammar.soleExpression [⟨.number value, lexeme, line⟩, ⟨.eof, "", line'⟩] id =
      ⟨some (.literal (.number value)), [], id⟩ := by
  rfl

theorem soleExpression_negated (value : Float) (lexeme : String) (line line' line'' : Nat) (id : NodeId) :
    Grammar.soleExpression [⟨.symbol .minus, "-", line⟩, ⟨.number value, lexeme, line'⟩, ⟨.eof, "", line''⟩] id =
      ⟨some (.unary ⟨.symbol .minus, "-", line⟩ (.literal (.number value))), [], id⟩ := by
  rfl

/-- Evaluating the text of a finite number gives the number, and does nothing else. -/
theorem evaluate_text {x : Float} {negative : Bool} {m : Nat} {e : Int}
    (finite : ofFloat x = .finite negative m e) (s : Session) (fuel : Nat) :
    s.evaluate (fuel + 2) (text x) = (.ok (.number x), s) := by
  obtain ⟨proper, same⟩ := eq_of_ofFloat finite
  obtain ⟨whole, fraction, written, value⟩ := magnitude_reads_back proper
  have scanned := itemsAt_positional written 1
  have chars := text_of_finite finite
  rw [value] at scanned
  generalize Float.ofBits (pattern m e).toUInt64 = magnitude at same scanned
  cases negative with
  | true =>
    have all : items (text x) = [.token ⟨.symbol .minus, "-", 1⟩,
        .token ⟨.number magnitude, String.ofList (program.magnitude m e), 1⟩, .token ⟨.eof, "", 1⟩] := by
      rw [items_eq, chars]
      exact (itemsAt_minus 1 _).trans (congrArg _ scanned)
    unfold Session.evaluate soleExpression tokens problems
    rw [all]
    dsimp only [List.filterMap, Item.token?, Item.diagnostic?]
    rw [soleExpression_negated, same]
    rfl
  | false =>
    have all : items (text x) = [.token ⟨.number magnitude, String.ofList (program.magnitude m e), 1⟩,
        .token ⟨.eof, "", 1⟩] := by
      rw [items_eq, chars]
      exact scanned
    unfold Session.evaluate soleExpression tokens problems
    rw [all]
    dsimp only [List.filterMap, Item.token?, Item.diagnostic?]
    rw [soleExpression_number, same]
    rfl

/-- The text of a finite number is digits, a point and digits, behind a minus sign if the sign bit is set. What
is behind the sign is scanned as one number, and the value of the whole is the number that was printed, so
different numbers have different texts. A natural has a zero behind the point and, below `2 ^ 53`, its own
digits before it: it makes no difference whether they come from the natural or from the shortest decimal. -/
theorem printed_numbers_read_back {x : Float} {negative : Bool} {m : Nat} {e : Int}
    (finite : ofFloat x = .finite negative m e) :
    ∃ whole fraction : List Char,
      (text x).toList = (if negative then ['-'] else []) ++ (whole ++ '.' :: fraction) ∧
      whole ≠ [] ∧ fraction ≠ [] ∧ (∀ c ∈ whole ++ fraction, Scanner.IsDigit c) ∧
      (∃ value, let number := String.ofList (whole ++ '.' :: fraction)
        Scanner.items? number = some [.token ⟨.number value, number, 1⟩, .token ⟨.eof, "", 1⟩]) ∧
      (∀ (s : Session) (fuel : Nat), s.evaluate (fuel + 2) (text x) = (.ok (.number x), s)) ∧
      (∀ y negative' m' e', ofFloat y = .finite negative' m' e' → text x = text y → x = y) ∧
      ∀ n : Nat, Binary64.value m e = n → fraction = ['0'] ∧ (n < 2 ^ 53 → whole = digitChars n) := by
  have proper := (eq_of_ofFloat finite).1
  obtain ⟨whole, fraction, written, -⟩ := magnitude_reads_back proper
  have chars := text_of_finite finite
  refine ⟨whole, fraction, ?_, written.before, written.after,
    fun c among => Scanner.isDigit_iff.mp (written.digits c among), ?_, evaluate_text finite, ?_, ?_⟩
  · rw [chars, written.text]
  · rw [← written.text]
    refine ⟨numberValue (program.magnitude m e), ?_⟩
    dsimp only
    rw [Scanner.items?_eq, items_eq, String.toList_ofList, itemsAt_positional written]
  · intro y negative' m' e' finite' same
    -- evaluating the one text in any session gives both numbers
    let s := Session.start .unlimited fun _ => 0
    have one := evaluate_text finite s 0
    rw [same, evaluate_text finite' s 0] at one
    cases one
    rfl
  · intro n natural
    obtain ⟨digits, written', own⟩ := magnitude_of_natural proper natural
    obtain ⟨rfl, rfl⟩ := written.unique written'
    exact ⟨rfl, own⟩

/-- `-1000000000000000.0`, whose pattern is the one of `10 ^ 15` with the sign bit set. -/
theorem negated_power_reads_back :
    let x := -Float.ofBits 0x430C6BF526340000
    ofFloat x = .finite true (8 * 10 ^ 15) (-3) ∧
      (text x).toList = '-' :: (digitChars (10 ^ 15) ++ ['.', '0']) ∧
      ∀ (s : Session) (fuel : Nat), s.evaluate (fuel + 2) (text x) = (.ok (.number x), s) := by
  have finite : ofFloat (-Float.ofBits 0x430C6BF526340000) = .finite true (8 * 10 ^ 15) (-3) := by
    have small : (Float.ofBits 0x430C6BF526340000).toBits = 0x430C6BF526340000 :=
      toBits_ofBits (by decide)
    rw [ofFloat, toBits_neg (by rw [small]; decide), small]
    decide
  have natural : Binary64.value (8 * 10 ^ 15) (-3) = (10 ^ 15 : Nat) := by
    rw [Binary64.value]
    norm_num
  obtain ⟨whole, fraction, chars, -, -, -, -, evaluates, -, naturals⟩ := printed_numbers_read_back finite
  obtain ⟨rfl, own⟩ := naturals _ natural
  rw [own (by decide)] at chars
  exact ⟨finite, chars, evaluates⟩

end Lox
