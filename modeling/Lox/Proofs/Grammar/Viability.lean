import Lox.Proofs.Grammar.Acceptance
import Lox.Proofs.Grammar.PredictPrograms

/-!
# The earliest wrong token

A word is viable if a program of the loose grammar starts with it. The first problem that unwinds stands at the
first token that makes the tokens up to it not viable, and without such a token no problem unwinds.
-/

namespace Lox

namespace Grammar

open Rule

/-- Whether a program may start with the word, as far as the loose grammar goes. -/
def Viable (w : List Token.Kind) : Prop := ∃ v, w ++ v ∈ Category.program.words

/-- What a viable word starts with is viable. -/
theorem Viable.initial {us ts : List Token} (viable : Viable (wordOf ts)) (front : us <+: ts) :
    Viable (wordOf us) := by
  obtain ⟨ws, rfl⟩ := front
  obtain ⟨v, member⟩ := viable
  rw [wordOf_append, List.append_assoc] at member
  exact ⟨wordOf ws ++ v, member⟩

/-- The front of a sentence of the strict grammar is viable. -/
theorem Derives.viable {v w : List Token.Kind} (sentence : Sentence .program (v ++ w)) : Viable v :=
  ⟨w, sentence.loose⟩

theorem words_program :
    Category.program.words = (Phrase.many (.the .declaration)).words * single .eof := by
  rw [Category.words_eq]
  simp only [looseProduction, production, Phrase.words_seq, Phrase.words_oneOf]

theorem program_diagnostics (tokens : List Token) (firstId : NodeId) :
    (program tokens firstId).diagnostics =
      reports (declarations (depthFor tokens) .eof [] (State.start tokens firstId)) := by
  unfold program
  cases declarations (depthFor tokens) .eof [] (State.start tokens firstId) <;> rfl

theorem Rule.FirstUnwinding.find? {d : Diagnostic} {ds : List Diagnostic} (unwinds : d.unwinds)
    (first : FirstUnwinding #[] d ds) : ds.find? Diagnostic.unwinds = some d := by
  obtain ⟨notes, more, rfl, harmless⟩ := first
  have none : notes.find? Diagnostic.unwinds = none :=
    List.find?_eq_none.mpr fun d member => by simp [harmless d member]
  rw [Array.toList_empty, List.nil_append, List.find?_append, none, Option.none_or,
    List.find?_cons_of_pos unwinds]

section

variable {tokens : List Token} {last : Token} {firstId : NodeId}

theorem program_predicted (ended : last.kind = .eof) :
    Outcome (Phrase.many (.the .declaration)).words (single .eof) (State.start (tokens ++ [last]) firstId)
      (declarations (depthFor (tokens ++ [last])) .eof [] (State.start (tokens ++ [last]) firstId)) := by
  have closed : (State.start (tokens ++ [last]) firstId).Closed := by
    simp [State.Closed, State.kinds, State.start, ended]
  have deep : 32 * (tokens ++ [last]).length + 19 ≤ depthFor (tokens ++ [last]) := by
    rw [depthFor]
    omega
  exact (programs_predict _).declarations .eof [] rfl (by decide) _ deep _ closed (Nat.le_refl _) _
    (starts_single .eof).heads

/-- Either nothing unwinds and the tokens are a program of the loose grammar, or the first problem that unwinds
stands at the first token that does not go on with one. -/
theorem program_verdict (ended : last.kind = .eof) (only : ∀ t ∈ tokens, t.kind ≠ .eof) :
    (∀ d ∈ (program (tokens ++ [last]) firstId).diagnostics, d.unwinds = false) ∧
        Viable (wordOf (tokens ++ [last])) ∨
      ∃ before t after cause, tokens ++ [last] = before ++ t :: after ∧
        (program (tokens ++ [last]) firstId).diagnostics.find? Diagnostic.unwinds =
          some (.atToken t cause) ∧
        Viable (wordOf before) ∧ ¬ Viable (wordOf (before ++ [t])) := by
  have outcome := @program_predicted tokens last firstId ended
  rw [program_diagnostics]
  generalize ran : declarations _ _ _ _ = result at outcome
  cases outcome with
  | @taken statements s u left closed word noted onward =>
    have left : tokens ++ [last] = u ++ s.rest := left
    -- something is left, so the end token has not been taken
    have inner : ∀ t ∈ u, t.kind ≠ .eof := by
      have front : u <+: tokens := by
        refine List.prefix_of_prefix_length_le ⟨s.rest, left.symm⟩ (List.prefix_append tokens [last]) ?_
        have length := congrArg List.length left
        rw [closed.rest_eq] at length
        simp only [List.length_append, List.length_cons, List.length_nil] at length
        omega
      exact fun t member => only t (front.subset member)
    have stopped : s.head.kind = .eof := by simpa using declarations_stop ran
    obtain ⟨rfl, -⟩ := split_of_stopped only ended left inner stopped
    obtain ⟨notes, same, harmless⟩ := noted
    refine .inl ⟨fun d member => harmless d ?_, [], ?_⟩
    · rw [reports, same] at member
      simpa [State.start] using member
    · rw [words_program, List.append_nil, wordOf_append, wordOf_cons, wordOf_nil, ended]
      exact Language.append_mem_mul word rfl
  | @stuck _ before after t cause left unwinds viable dead reported =>
    refine .inr ⟨before, t, after, cause, left, reported.find? unwinds, ?_, ?_⟩
    · obtain ⟨v, member⟩ := viable
      refine ⟨v ++ [.eof], ?_⟩
      rw [words_program, ← List.append_assoc]
      exact Language.append_mem_mul member rfl
    · rintro ⟨v, member⟩
      rw [words_program, wordOf_append, List.append_assoc] at member
      exact dead v member

/-- If there is a problem that unwinds, the first one stands at the first token with which the tokens are not
viable any more, be it the end token. There is none exactly if the tokens are viable up to the end. -/
theorem problem_at_earliest_wrong_token (ended : last.kind = .eof) (only : ∀ t ∈ tokens, t.kind ≠ .eof) :
    (∀ d, (program (tokens ++ [last]) firstId).diagnostics.find? Diagnostic.unwinds = some d →
      ∃ before t after cause, tokens ++ [last] = before ++ t :: after ∧ d = .atToken t cause ∧
        (∀ u, u <+: before → Viable (wordOf u)) ∧ ¬ Viable (wordOf (before ++ [t]))) ∧
    ((∀ d ∈ (program (tokens ++ [last]) firstId).diagnostics, d.unwinds = false) ↔
      ∀ u, u <+: tokens ++ [last] → Viable (wordOf u)) := by
  rcases @program_verdict tokens last firstId ended only with
    ⟨harmless, viable⟩ | ⟨before, t, after, cause, split, found, viable, dead⟩
  · refine ⟨fun d found => ?_, fun _ u front => viable.initial front, fun _ => harmless⟩
    have unwinds := List.find?_some found
    rw [harmless d (List.mem_of_find?_eq_some found)] at unwinds
    cases unwinds
  · refine ⟨fun d found' => ?_, fun harmless => ?_, fun all => ?_⟩
    · rw [found] at found'
      cases found'
      exact ⟨before, t, after, cause, split, rfl, fun u front => viable.initial front, dead⟩
    · have unwinds := List.find?_some found
      rw [harmless _ (List.mem_of_find?_eq_some found)] at unwinds
      cases unwinds
    · refine absurd (all (before ++ [t]) ⟨after, ?_⟩) dead
      rw [split, List.append_assoc, List.singleton_append]

end

/-- The sum `a +` that the end of the source cuts off: without the end it could be gone on with. -/
theorem cut_off_sum_ends_too_early :
    (∀ t ∈ tokensOf [.identifier, .symbol .plus], t.kind ≠ .eof) ∧
      Viable [.identifier, .symbol .plus] ∧ ¬ Viable [.identifier, .symbol .plus, .eof] := by
  have only : ∀ t ∈ tokensOf [.identifier, .symbol .plus], t.kind ≠ .eof := by simp [tokensOf]
  have found : (program (tokensOf [.identifier, .symbol .plus] ++ [⟨.eof, "", 2⟩]) 0).diagnostics.find?
      Diagnostic.unwinds = some (.atToken ⟨.eof, "", 2⟩ .noExpression) := by decide +kernel
  obtain ⟨before, t, after, cause, split, same, viable, dead⟩ :=
    (problem_at_earliest_wrong_token rfl only).1 _ found
  have line : t.line = 2 := (congrArg Diagnostic.line same).symm
  -- the end alone is on the second line
  have whole : before = tokensOf [.identifier, .symbol .plus] ∧ t = ⟨.eof, "", 2⟩ := by
    simp only [tokensOf, List.map_cons, List.map_nil, List.cons_append, List.nil_append,
      List.cons_eq_append_iff, List.nil_eq_append_iff, List.cons.injEq] at split ⊢
    grind only
  obtain ⟨rfl, rfl⟩ := whole
  exact ⟨only, viable _ List.prefix_rfl, dead⟩

end Grammar

end Lox
