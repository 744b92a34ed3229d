import Lox.Proofs.Descent.Depth
import Lox.Proofs.Descent.Programs
import Lox.Proofs.Grammar.ReadPrograms

/-!
# Reading comes to an end within the slice

From the start of any tokens among which there is an end token, the descent comes to an end, at the first end
token if it reads a program, and finds what the grammar's rules find. No bound on its depth is needed for that:
the depth that the tokens allow for is never gone beyond. On the way it looks at no token past the first end
token, and at none before the first token.
-/

namespace Lox

namespace Descent

open Grammar (State Rule depthFor)

variable {tokens : List Token}

/-- A cursor before the first of the tokens left represents a state in which an end token is left. -/
theorem represents_rest {s : State} (ended : ∃ t ∈ s.rest, t.kind = .eof) :
    Represents ⟨s.rest, 0, s.nextId, s.problems, []⟩ s := by
  refine ⟨rfl, rfl, rfl, Nat.zero_le _, List.findIdx_lt_length_of_exists ?_⟩
  obtain ⟨t, member, eof⟩ := ended
  exact ⟨t, member, decide_eq_true eof⟩

/-- A cursor represents one state at most. -/
theorem Represents.unique {c : Cursor} {s s' : State} (at_ : Represents c s) (at_' : Represents c s') :
    s = s' := by
  cases s
  cases s'
  rw [State.mk.injEq]
  exact ⟨at_.rest.trans at_'.rest.symm, at_.nextId.trans at_'.nextId.symm,
    at_.problems.trans at_'.problems.symm⟩

/-- The bound on the depth of the grammar's rules does nothing else than cut readings off: a declaration is read
in the same way within any two bounds that leave enough depth for the tokens left. -/
theorem declaration_depth {s : State} (ended : ∃ t ∈ s.rest, t.kind = .eof) (started : s.head.kind ≠ .eof)
    {n m : Nat} (enough : Enough s 17 n) (enough' : Enough s 17 m) :
    Grammar.declaration n s = Grammar.declaration m s := by
  have at_ := represents_rest ended
  have deeper {n m : Nat} (le : n ≤ m) (enough : Enough s 17 n) :
      Grammar.declaration n s = Grammar.declaration m s := by
    obtain ⟨a, s₁, c₁, ran, goes, at₁⟩ := (programs_follow n).declaration at_ started enough
    obtain ⟨a', s₂, c₂, ran', goes', at₂⟩ :=
      (programs_follow m).declaration at_ started (Nat.le_trans enough le)
    have same := (declaration_deepens le).same _ _ goes.ran
    rw [goes'.ran] at same
    cases same
    rw [ran, ran', at₁.unique at₂]
  rcases Nat.le_total n m with le | le
  · exact deeper le enough
  · exact (deeper le enough').symm

/-- There is enough depth for any rule at the start. -/
theorem enough_start (tokens : List Token) (firstId : NodeId) {base : Nat} (small : base ≤ 32) :
    Enough (State.start tokens firstId) base (depthFor tokens) := by
  change 32 * tokens.length + base ≤ 32 * (tokens.length + 1)
  omega

/-- What is logged from the start on lies between the first token and the first end token. -/
theorem orderly_log {c : Cursor} {s : State} {firstId : NodeId}
    (moves : Moves (Cursor.start tokens firstId) c) (at_ : Represents c s) :
    Orderly 0 (endOf tokens) c.log := by
  obtain ⟨same, -, events, log, ordered, between, sound⟩ := moves
  have all : c.log = events := log.trans (List.append_nil _)
  have inside := at_.inside
  rw [same] at inside
  subst all
  exact ⟨ordered, fun e member => ⟨Nat.zero_le _, Nat.le_trans (between e member).2 inside⟩, sound⟩

/-- The descent through a program, and through one expression, comes to an end with what the grammar's rules
find, and to the same end whatever larger depth it may go to. A program is read up to the first end token. The
position never goes back or past the first end token, no token before the first one is looked at, and each pass
of a loop over declarations takes a token. -/
theorem reading_ends_within_slice (tokens : List Token) (firstId : NodeId)
    (ended : ∃ t ∈ tokens, t.kind = .eof) :
    (∃ statements c,
        (∀ n ≥ depthFor tokens, program n (Cursor.start tokens firstId) = some (statements, c)) ∧
        Grammar.program tokens firstId = ⟨statements, c.problems.toList, c.nextId⟩ ∧
        c.current = endOf tokens ∧ Orderly 0 (endOf tokens) c.log) ∧
      ∃ outcome c,
        (∀ n ≥ depthFor tokens,
          (singleExpression n).run (Cursor.start tokens firstId) = some (outcome, c)) ∧
        Grammar.soleExpression tokens firstId = (match outcome with
          | .ok e => ⟨some e, c.problems.toList, c.nextId⟩
          | .error d => ⟨none, c.problems.toList ++ [d], c.nextId⟩) ∧
        Orderly 0 (endOf tokens) c.log := by
  have start : Represents (Cursor.start tokens firstId) (State.start tokens firstId) :=
    represents_rest (s := State.start tokens firstId) ended
  constructor
  · obtain ⟨statements, s, c, ran, ⟨goes, moves⟩, at_⟩ :=
      (programs_follow _).declarations none [] nofun start (enough_start tokens firstId (by decide))
    refine ⟨statements, c, fun n le => (program_deepens le).same _ _ goes, ?_, ?_,
      orderly_log moves at_⟩
    · rw [Grammar.program, ← at_.problems, ← at_.nextId]
      rw [Option.getD_none] at ran
      rw [ran]
    · have stopped : s.head.kind = .eof := by simpa using Grammar.declarations_stop ran
      have reached := at_.head_eof_iff.mp stopped
      rwa [moves.tokens] at reached
  · obtain ⟨c, ⟨goes, moves⟩, at_⟩ := singleExpression_follows start
      (enough_start tokens firstId (by decide))
    refine ⟨_, c, fun n le => (singleExpression_deepens le).same _ _ goes, ?_, orderly_log moves at_⟩
    rw [Grammar.soleExpression, ← at_.problems, ← at_.nextId]
    cases Grammar.singleExpression tokens (State.start tokens firstId) <;> rfl

/-- Three closing braces, two of them after an end token. -/
def strayBraces : List Token :=
  [⟨.symbol .rightBrace, "", 1⟩, ⟨.eof, "", 1⟩, ⟨.symbol .rightBrace, "", 1⟩,
    ⟨.symbol .rightBrace, "", 1⟩, ⟨.eof, "", 1⟩]

/-- Recovery from the first brace stops at the end token after it. -/
theorem stray_braces_end_within_slice : (∃ t ∈ strayBraces, t.kind = .eof) ∧
    ∃ c, (∀ n ≥ depthFor strayBraces, program n (Cursor.start strayBraces 0) = some ([], c)) ∧
      c.current = 1 := by
  have ended : ∃ t ∈ strayBraces, t.kind = .eof := ⟨⟨.eof, "", 1⟩, by decide, rfl⟩
  obtain ⟨statements, c, ran, agrees, reached, -⟩ := (reading_ends_within_slice strayBraces 0 ended).1
  have empty : statements = [] := by
    have read : (Grammar.program strayBraces 0).result = [] := List.isEmpty_iff.mp (by decide +kernel)
    rwa [agrees] at read
  subst empty
  exact ⟨ended, c, ran, reached.trans (by decide)⟩

end Descent

end Lox
