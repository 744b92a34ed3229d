import Lox.Proofs.Scanner.Lossless

/-!
# The lines of items

The line of an item counts the newlines of the source up to the end of the text that the item stands for. A
newline is counted once, by whichever piece it is in, and so a comment leaves the one that ends it to be
counted as a space.
-/

namespace Lox

/-- The line that an item is reported on. -/
def Source.Item.line : Source.Item → Nat
  | .token t => t.line
  | .problem line _ => line

namespace Scanner

open Source

theorem item?_line {line : Nat} {segment : Segment} {item : Item}
    (made : segment.item? line = some item) : item.line = line := by
  unfold Segment.item? at made
  split at made <;> cases made <;> rfl

/-- The counter has been raised by the newlines up to the end of the cut. -/
theorem Cut.Made.line {line : Nat} {cut : Cut} {later : List Char} (made : cut.Made line later) :
    cut.item.line = line + newlines (cut.skipped ++ cut.span) := by
  obtain ⟨c, rest, -, -, item⟩ := made.piece
  exact item?_line item

theorem StartsNothing.inline {c : Char} (starts : StartsNothing c) : newlines [c] = 0 := by
  apply newlines_single
  rintro rfl
  have space := starts.space
  contradiction

/-- No later item is on an earlier line, by induction on the cuts: each starts where the one before it has
ended. -/
theorem CutsMade.ordered {line : Nat} {cuts : List Cut} {blank : List Char}
    (made : CutsMade line cuts blank) (end_ : Item)
    (ends : end_.line = line + newlines (Cut.text cuts ++ blank)) :
    (cuts.map Cut.item ++ [end_]).Pairwise (fun first next => first.line ≤ next.line) ∧
      ∀ item ∈ cuts.map Cut.item ++ [end_], line ≤ item.line := by
  induction cuts generalizing line with
  | nil =>
    refine ⟨List.pairwise_singleton _ _, fun item member => ?_⟩
    rw [List.mem_singleton.mp member, ends]
    exact Nat.le_add_right _ _
  | cons cut cuts ih =>
    have first : cut.item.line = line + newlines (cut.skipped ++ cut.span) := (made [] cut cuts rfl).line
    have text : Cut.text (cut :: cuts) = cut.skipped ++ cut.span ++ Cut.text cuts := List.flatMap_cons
    have others : CutsMade cut.item.line cuts blank := fun before cut' later at' => by
      have made := made (cut :: before) cut' later (congrArg (cut :: ·) at')
      have text : Cut.text (cut :: before) = cut.skipped ++ cut.span ++ Cut.text before :=
        List.flatMap_cons
      rwa [text, newlines_append, ← Nat.add_assoc, ← first] at made
    obtain ⟨ordered, after⟩ := ih others (by
      rw [ends, first, text, List.append_assoc, newlines_append, Nat.add_assoc])
    refine ⟨List.pairwise_cons.mpr ⟨after, ordered⟩, fun item member => ?_⟩
    rcases List.mem_cons.mp member with rfl | member
    · rw [first]
      exact Nat.le_add_right _ _
    · have later := after item member
      omega

/-- The line that an item has, where `before` is all text before the one that the item stands for: that of
the end of a token, that of an unexpected character, and that of the end of the source for a string that
does not end. -/
def OnLine (source before span : List Char) : Item → Prop
  | .token t => t.line = 1 + newlines (before ++ span)
  | .problem line (.unexpectedCharacter _) => line = 1 + newlines before
  | .problem line .unterminatedString => line = 1 + newlines source

theorem CutsMade.onLine {cuts : List Cut} {blank : List Char} (made : CutsMade 1 cuts blank)
    {before after : List Cut} {cut : Cut} (at' : cuts = before ++ cut :: after) :
    OnLine (Cut.text cuts ++ blank) (Cut.text before ++ cut.skipped) cut.span cut.item := by
  have here := made before cut after at'
  have line : cut.item.line = 1 + newlines (Cut.text before ++ cut.skipped ++ cut.span) := by
    rw [here.line, List.append_assoc, newlines_append (Cut.text before), Nat.add_assoc]
  have stands := here.proper.stands
  obtain ⟨skipped, span, item⟩ := cut
  match item, stands with
  | .token t, _ => exact line
  | .problem _ (.unexpectedCharacter c), ⟨single, starts⟩ =>
    -- the character is no newline, so it makes no difference whether it is counted
    cases single
    rw [newlines_append, starts.inline] at line
    exact line
  | .problem _ .unterminatedString, ⟨_, _, _, nothing⟩ =>
    -- the string takes all the text that is left
    have whole : Cut.text cuts ++ blank = Cut.text before ++ skipped ++ span := by
      rw [at', Cut.text, List.flatMap_append, List.flatMap_cons, List.append_assoc, List.append_assoc]
      change Cut.text before ++ (skipped ++ span ++ (Cut.text after ++ blank)) = _
      rw [nothing, List.append_nil, List.append_assoc]
    rw [OnLine, whole]
    exact line

/-- Lines are right everywhere. The line of a token is one more than the newlines of the source before the
end of its lexeme, that of an unexpected character is one more than the newlines before it, that of a string
without end and that of the end token are one more than all newlines of the source. Items come in the order
of their lines. -/
theorem lines_count_newlines (source : String) :
    ∃ cuts blank last ended line, Run (new source) source.toList cuts blank last ended line ∧
      items? source = some (cuts.map Cut.item ++ [.token ⟨.eof, "", line⟩]) ∧
      (∀ before cut after, cuts = before ++ cut :: after →
        OnLine source.toList (Cut.text before ++ cut.skipped) cut.span cut.item) ∧
      line = 1 + newlines source.toList ∧
      List.Pairwise (fun first next : Item => first.line ≤ next.line)
        (cuts.map Cut.item ++ [.token ⟨.eof, "", line⟩]) := by
  obtain ⟨cuts, blank, last, ended, line, run, made, counted, given, -⟩ := exists_run_new source
  have lossless := run.lossless
  refine ⟨cuts, blank, last, ended, line, run, given, fun before cut after at' => ?_, counted, ?_⟩
  · rw [lossless]
    exact made.onLine at'
  · rw [lossless] at counted
    exact (made.ordered (.token ⟨.eof, "", line⟩) counted).1

end Scanner

end Lox
