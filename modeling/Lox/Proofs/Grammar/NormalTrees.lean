import Lox.Proofs.Grammar.Acceptance
import Lox.Proofs.Grammar.Rereading
import Lox.Proofs.Grammar.SentenceTrees

/-!
# Expressions and their trees

Reading an expression and writing a normal tree down undo each other: tokens are read as a tree exactly
when the tree is normal and the tokens are its own. A normal tree is read back since the rules make it
again, and tokens that are read are a sentence, so they have a normal tree, which is what they are read
as.
-/

namespace Lox

namespace Grammar

open Rule

variable {tokens : List Token} {last : Token} {firstId : NodeId} {e e' : Expr}

/-- The tokens are read as one expression without a problem, and it is this one but for the identities
of its nodes. -/
def ReadsAs (tokens : List Token) (firstId : NodeId) (e : Expr) : Prop :=
  ∃ r, (soleExpression tokens firstId).result = some r ∧
    (soleExpression tokens firstId).diagnostics = [] ∧ r.Alike e

theorem ReadsAs.alike (read : ReadsAs tokens firstId e) (also : ReadsAs tokens firstId e') :
    e.Alike e' := by
  obtain ⟨r, result, -, alike⟩ := read
  obtain ⟨r', result', -, alike'⟩ := also
  cases Option.some_inj.mp (result.symm.trans result')
  exact Eq.trans (Eq.symm alike) alike'

/-- The tokens are those of the tree, in the order of the source, and an end token. -/
def IsWritten (e : Expr) (tokens : List Token) : Prop :=
  Traced (e.frontier ++ [.bare .eof]) tokens

theorem isWritten_iff (ended : last.kind = .eof) :
    IsWritten e (tokens ++ [last]) ↔ Traced e.frontier tokens := by
  constructor
  · intro written
    obtain ⟨u, _, split, agree, ending⟩ := traced_append_iff.mp written
    obtain ⟨_, _, rfl, -, none⟩ := traced_cons_iff.mp ending
    cases none
    rwa [(List.append_inj' split rfl).1]
  · intro agree
    exact traced_append_iff.mpr
      ⟨tokens, [last], rfl, agree, .cons (Trace.agrees_bare_iff.mpr ended) .nil⟩

/-- A normal tree is what its tokens are read as. -/
theorem readsAs_of_normal (normal : e.Normal) (agree : Traced e.frontier tokens)
    (ended : last.kind = .eof) : ReadsAs (tokens ++ [last]) firstId e := by
  have gives : Gives (singleExpression (tokens ++ [last])) (tokens ++ []) [last] (·.Alike e) := by
    have deep : 32 * tokens.length + 15 ≤ depthFor (tokens ++ [last]) := by
      rw [depthFor, List.length_append, List.length_singleton]
      omega
    have ends : EndsExpression (nextKind [last]) := by
      rw [nextKind_cons, ended]
      exact ⟨⟨by rintro ⟨⟩, by rintro ⟨⟩, fun level _ => by cases level <;> rfl⟩, by rintro ⟨⟩⟩
    unfold singleExpression
    refine .bind ((isReread_of_normal e normal).expression tokens agree _ _ deep ends)
      fun r alike => .atEnd ?_
    rw [List.nil_append, nextKind_cons, decide_eq_true ended]
    exact .pure alike
  obtain ⟨r, nextId, ran, alike⟩ := gives firstId #[]
  rw [List.append_nil] at ran
  refine ⟨r, ?_, ?_, alike⟩
  · rw [soleExpression, State.start, ran]
  · rw [soleExpression, State.start, ran]

/-- Tokens that are read as an expression without a problem are a sentence. -/
theorem sentence_of_readsAs (only : ∀ t ∈ tokens, t.kind ≠ .eof) (ended : last.kind = .eof)
    (read : ReadsAs (tokens ++ [last]) firstId e) : Sentence .expression (tokens.map (·.kind)) := by
  obtain ⟨r, result, clean, -⟩ := read
  unfold soleExpression at result clean
  cases ran : singleExpression (tokens ++ [last]) (State.start (tokens ++ [last]) firstId) with
  | error d s =>
    rw [ran] at result
    cases result
  | ok _ s =>
    rw [ran] at clean
    have clean : s.problems = #[] := Array.toList_eq_nil_iff.mp clean
    obtain ⟨_, s₁, ranFirst, ranNext⟩ := bind_eq_ok ran
    have ranNext : (if s₁.atEnd then pure _ else fail _ : Rule Expr) s₁ = .ok _ s := ranNext
    split at ranNext
    · rename_i stopped
      cases ranNext
      obtain ⟨v, left, sentence⟩ := expression_reads _ _ _ _ ranFirst clean
      have inner : ∀ t ∈ v, t.kind ≠ .eof := by
        intro t among isEnd
        exact sentence.endless (by rintro ⟨⟩) (isEnd ▸ List.mem_map_of_mem among)
      have stopped : s.head.kind = .eof := of_decide_eq_true stopped
      obtain ⟨rfl, -⟩ := split_of_stopped only ended left inner stopped
      exact sentence
    · cases ranNext

/-- What tokens are read as is a normal tree, and its tokens are they. -/
theorem normal_of_readsAs (only : ∀ t ∈ tokens, t.kind ≠ .eof) (ended : last.kind = .eof)
    (read : ReadsAs (tokens ++ [last]) firstId e) : e.Normal ∧ Traced e.frontier tokens := by
  obtain ⟨f, normal, -, agree⟩ :=
    expression_hasTree (sentence_of_readsAs only ended read) tokens rfl
  have also : ReadsAs (tokens ++ [last]) firstId f := readsAs_of_normal normal agree ended
  have alike : e.Alike f := read.alike also
  exact ⟨alike.normal.mpr normal, alike.frontier ▸ agree⟩

/-- Before an end token, tokens are read as one expression, without a problem, exactly when they are the
tokens of a normal tree, and it is that tree. There is at most one, identities aside. So reading undoes
writing: every normal tree is what its own tokens are read as. -/
theorem expressions_are_normal_trees (ended : last.kind = .eof) (only : ∀ t ∈ tokens, t.kind ≠ .eof)
    (firstId : NodeId) :
    (∀ e, ReadsAs (tokens ++ [last]) firstId e ↔ e.Normal ∧ IsWritten e (tokens ++ [last])) ∧
    (∀ e e', e.Normal → IsWritten e (tokens ++ [last]) → e'.Normal →
      IsWritten e' (tokens ++ [last]) → e.Alike e') ∧
    ∀ e, e.Normal → ReadsAs ((e.frontier ++ [.bare .eof]).map Trace.token) firstId e := by
  have exactly (e : Expr) :
      ReadsAs (tokens ++ [last]) firstId e ↔ e.Normal ∧ IsWritten e (tokens ++ [last]) := by
    rw [isWritten_iff ended]
    constructor
    · exact normal_of_readsAs only ended
    · rintro ⟨normal, agree⟩
      exact readsAs_of_normal normal agree ended
  refine ⟨exactly, ?_, ?_⟩
  · intro e e' normal written normal' written'
    exact ((exactly e).mpr ⟨normal, written⟩).alike ((exactly e').mpr ⟨normal', written'⟩)
  · intro e normal
    rw [List.map_append]
    exact readsAs_of_normal normal (traced_map_token _) rfl

/-- `x.y = a - b - f(c, d)`, with a line break before `f`. -/
def storedDifference : List Token :=
  [⟨.identifier, "x", 1⟩, ⟨.symbol .dot, ".", 1⟩, ⟨.identifier, "y", 1⟩, ⟨.symbol .equal, "=", 1⟩,
    ⟨.identifier, "a", 1⟩, ⟨.symbol .minus, "-", 1⟩, ⟨.identifier, "b", 1⟩, ⟨.symbol .minus, "-", 1⟩,
    ⟨.identifier, "f", 2⟩, ⟨.symbol .leftParen, "(", 2⟩, ⟨.identifier, "c", 2⟩,
    ⟨.symbol .comma, ",", 2⟩, ⟨.identifier, "d", 2⟩, ⟨.symbol .rightParen, ")", 2⟩]

/-- The second difference is of the first one and the call, and all of it is assigned. -/
def storedDifferenceTree : Expr :=
  .set (.variable ⟨"x", 1⟩ 0) ⟨"y", 1⟩
    (.binary (.binary (.variable ⟨"a", 1⟩ 1) ⟨.symbol .minus, "-", 1⟩ (.variable ⟨"b", 1⟩ 2))
      ⟨.symbol .minus, "-", 1⟩
      (.call (.variable ⟨"f", 2⟩ 3) 2 [.variable ⟨"c", 2⟩ 4, .variable ⟨"d", 2⟩ 5]))

theorem differences_group_to_the_left :
    (∀ t ∈ storedDifference, t.kind ≠ .eof) ∧
      ReadsAs (storedDifference ++ [⟨.eof, "", 2⟩]) 0 storedDifferenceTree ∧
      ∀ e, e.Normal → IsWritten e (storedDifference ++ [⟨.eof, "", 2⟩]) →
        e.Alike storedDifferenceTree := by
  have only : ∀ t ∈ storedDifference, t.kind ≠ .eof := by simp [storedDifference]
  have normal : storedDifferenceTree.Normal := by
    simp [storedDifferenceTree, Expr.Normal, argumentsNormal, Joins, Expr.precedence, levelOf?,
      Level.precedence, Level.tightness, Level.joins, maxArity]
  have written : IsWritten storedDifferenceTree (storedDifference ++ [⟨.eof, "", 2⟩]) := by
    simp [IsWritten, storedDifferenceTree, storedDifference, Expr.frontier, argumentsFrontier]
  obtain ⟨exactly, unique, -⟩ :=
    @expressions_are_normal_trees storedDifference ⟨.eof, "", 2⟩ rfl only 0
  exact ⟨only, (exactly _).mpr ⟨normal, written⟩, fun e normal' written' =>
    unique e _ normal' written' normal written⟩

end Grammar

end Lox
