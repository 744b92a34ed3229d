import Lox.Proofs.Descent.Termination
import Lox.Proofs.Grammar.Breaking
import Lox.Proofs.Grammar.Framing
import Lox.Proofs.Grammar.Joining
import Lox.Proofs.Grammar.Renumbering

/-!
# Recovery loses only the broken statement

Between two programs that are read without a problem stands a statement that is not read as a declaration. It
ends with its only semicolon, and nothing in it lets recovery go on sooner or reading go on past the semicolon.
Then one failure is reported, at a token of the statement, and both programs are read as before.
-/

namespace Lox

namespace Grammar

open Rule

/-- All tokens before the end token are read as one declaration. -/
def IsDeclaration (tokens : List Token) (last : Token) : Prop :=
  ∃ a s, declaration (depthFor (tokens ++ [last])) (State.start (tokens ++ [last]) 0) = .ok (some a) s ∧
    s.rest = [last]

/-- A statement that is not read as a declaration, and within which recovery does not stop. -/
structure BrokenStatement (tokens : List Token) (last : Token) : Prop where
  /-- It ends with its only semicolon. -/
  closed : ∃ v semi, tokens = v ++ [semi] ∧ semi.kind = .symbol .semicolon ∧
    ∀ t ∈ v, t.kind ≠ .symbol .semicolon
  noLeftBrace : ∀ t ∈ tokens, t.kind ≠ .symbol .leftBrace
  noRightBrace : ∀ t ∈ tokens, t.kind ≠ .symbol .rightBrace
  noFor : ∀ t ∈ tokens, t.kind ≠ .keyword .for
  inner : ∀ t ∈ tokens, t.kind ≠ .eof
  noElse : ∀ t ∈ tokens.head?, t.kind ≠ .keyword .else
  /-- No word after the first starts a statement. -/
  noStart : ∀ t ∈ tokens.tail, startsStatement t.kind = false
  unread : ¬ IsDeclaration tokens last

/-- What a rule reads depends neither on identities that have been handed out nor on problems that have been
noted. -/
theorem run_from_start {α : Type} {x : Rule α} [Frames x] {g : α → α} {free : NodeId}
    (shifts : Shifts free g x x) (rest : List Token) (ps : Array Diagnostic) :
    x ⟨rest, free, ps⟩ = framed ps (shifted free g (x (.start rest 0))) := by
  have same : (⟨rest, free, ps⟩ : State) = ((State.start rest 0).shift free).after ps := by
    simp [State.start, State.shift, State.after]
  have frames := Frames.frame (x := x) ps ((State.start rest 0).shift free)
  rwa [shifts (.start rest 0), ← same] at frames

section

variable {tokens : List Token} {last : Token} (inner : ∀ t ∈ tokens, t.kind ≠ .eof)
  (ended : last.kind = .eof)

include inner ended

/-- A declaration that is read anywhere within a large enough bound is one. -/
theorem isDeclaration_of_ok {n : Nat} {free : NodeId} {ps : Array Diagnostic} {a : Stmt} {s : State}
    (begun : tokens ≠ []) (enough : 32 * (tokens ++ [last]).length + 17 ≤ n)
    (ran : declaration n ⟨tokens ++ [last], free, ps⟩ = .ok (some a) s) (stopped : s.rest = [last]) :
    IsDeclaration tokens last := by
  have started : (State.head ⟨tokens ++ [last], free, ps⟩).kind ≠ .eof := by
    obtain ⟨t, rest, rfl⟩ := List.exists_cons_of_ne_nil begun
    exact inner t List.mem_cons_self
  have deep : Descent.Enough ⟨tokens ++ [last], free, ps⟩ 17 (depthFor (tokens ++ [last])) :=
    Descent.enough_start (tokens ++ [last]) 0 (by decide)
  rw [Descent.declaration_depth ⟨last, by simp, ended⟩ started enough deep,
    run_from_start (declaration_shifts free (depthFor (tokens ++ [last])))] at ran
  cases read : declaration (depthFor (tokens ++ [last])) (.start (tokens ++ [last]) 0) with
  | ok b s' =>
    rw [read] at ran
    cases b with
    | none => cases ran
    | some b =>
      cases ran
      exact ⟨b, s', read, stopped⟩
  | error d s' =>
    rw [read] at ran
    cases ran

/-- A program without problems is read so at the end of any other one. -/
theorem declarations_of_clean_later (clean : (program (tokens ++ [last]) 0).diagnostics = [])
    (free : NodeId) (ps : Array Diagnostic) (done : List Stmt) {m : Nat}
    (enough : depthFor (tokens ++ [last]) ≤ m) :
    ∃ free', declarations m .eof done ⟨tokens ++ [last], free, ps⟩ =
      .ok (done.reverse ++ (program (tokens ++ [last]) 0).result.map (Stmt.renumber (· + free)))
        ⟨[last], free', ps⟩ := by
  obtain ⟨-, s, ran, left, unnoted, -⟩ := declarations_of_clean inner ended clean
  have moved := run_from_start
    (declarations_shifts free (depthFor (tokens ++ [last])) .eof []) (tokens ++ [last]) ps
  rw [ran] at moved
  have beside : Beside id [last] ⟨tokens ++ [last], free, ps⟩ ⟨tokens ++ [last], free, ps⟩ :=
    ⟨⟨tokens, last, rfl, congrArg (· ++ [last]) (List.map_id tokens).symm, inner, ended⟩, rfl, rfl⟩
  have unnoted : ((s.shift free).after ps).problems = ps := by
    simp [State.after, State.shift, unnoted]
  have read := declarations_to_end ended beside moved unnoted (left ▸ Nat.one_pos) enough done
  rw [unnoted, ← relineStatements_eq_map, relineStatements_id] at read
  exact ⟨_, read⟩

end

namespace BrokenStatement

variable {broken : List Token} {last : Token} (is : BrokenStatement broken last)

include is

theorem begun : broken ≠ [] := by
  obtain ⟨v, semi, rfl, -, -⟩ := is.closed
  simp

theorem head_append (r : List Token) : (broken ++ r).headD default ∈ broken.head? := by
  obtain ⟨t, rest, rfl⟩ := List.exists_cons_of_ne_nil is.begun
  exact rfl

/-- Whatever comes after it, a broken statement is left out as a whole, and one failure in it is noted. -/
theorem left_out (ended : last.kind = .eof) {n : Nat} (enough : 32 * (broken ++ [last]).length + 17 ≤ n)
    (free : NodeId) (ps : Array Diagnostic) :
    ∃ t ∈ broken, ∃ cause free' ps', cause.unwinds ∧ Noted ps ps' ∧
      ∀ r, nextKind r ≠ .keyword .else →
        declaration n ⟨broken ++ r, free, ps⟩ = .ok none ⟨r, free', ps'.push (.atToken t cause)⟩ := by
  have begun := is.begun
  obtain ⟨v, semi, rfl, semicolon, single⟩ := is.closed
  have plain : AllPlain v := fun t member =>
    have member' := List.mem_append_left [semi] member
    ⟨is.inner t member', single t member, is.noLeftBrace t member', is.noRightBrace t member',
      is.noFor t member'⟩
  have noStart : ∀ t ∈ v.tail, startsStatement t.kind = false := by
    intro t member
    refine is.noStart t ?_
    cases v with
    | nil => cases member
    | cons _ _ => exact List.mem_append_left [semi] member
  obtain ⟨n, rfl⟩ := Nat.exists_eq_add_one_of_ne_zero (show n ≠ 0 by omega)
  have flat (r : List Token) : v ++ [semi] ++ r = v ++ semi :: r := List.append_assoc v [semi] r
  have stops : Stops semi .past (bareDeclaration n) v free ps := bareDeclaration_stops semicolon plain
  rcases stops with succeeds | breaks
  · -- a statement that is read up to its semicolon is a declaration
    obtain ⟨a, free', ps', ran⟩ := declaration_succeeds succeeds
    have alone := ran [last] (by simp [nextKind, ended])
    rw [← flat] at alone
    exact absurd (isDeclaration_of_ok is.inner ended begun enough alone rfl) is.unread
  · obtain ⟨t, member, cause, free', ps', unwinds, noted, ran⟩ :=
      declaration_breaks_off semicolon breaks noStart
    refine ⟨t, member, cause, free', ps', unwinds, noted, fun r noElse => ?_⟩
    rw [flat]
    exact ran r noElse

end BrokenStatement

/-- A declaration that gives nothing leaves no statement. -/
theorem declarations_of_none {n : Nat} {done : List Stmt} {s s' : State} (started : s.head.kind ≠ .eof)
    (ran : declaration n s = .ok none s') :
    declarations (n + 1) .eof done s = declarations n .eof done s' := by
  rw [declarations_end_succ, if_neg started]
  exact bind_of_ok ran

section

variable {first broken next : List Token} {last : Token} {firstId : NodeId}

/-- The first program is read, then one round goes to the broken statement, then the second program is read. -/
theorem program_around (ended : last.kind = .eof) (inner : ∀ t ∈ first, t.kind ≠ .eof)
    (clean : (program (first ++ [last]) firstId).diagnostics = []) (is : BrokenStatement broken last)
    (inner' : ∀ t ∈ next, t.kind ≠ .eof) (clean' : (program (next ++ [last]) 0).diagnostics = []) :
    ∃ t ∈ broken, ∃ cause notes free free', cause.unwinds ∧ (∀ d ∈ notes, d.unwinds = false) ∧
      program (first ++ broken ++ next ++ [last]) firstId =
        { result := (program (first ++ [last]) firstId).result ++
            (program (next ++ [last]) 0).result.map (Stmt.renumber (· + free))
          diagnostics := notes ++ [.atToken t cause]
          nextId := free' } := by
  obtain ⟨-, s₁, ran, left, unnoted, -⟩ := declarations_of_clean inner ended clean
  obtain ⟨noElse, -⟩ := declarations_of_clean inner' ended clean'
  -- the first program, in front of the rest
  let tail := broken ++ (next ++ [last])
  have beside : Beside id tail (.start (first ++ [last]) firstId) (.start (first ++ tail) firstId) :=
    ⟨⟨first, last, rfl, congrArg (· ++ tail) (List.map_id first).symm, inner, ended⟩, rfl, rfl⟩
  have next_ := is.head_append (next ++ [last])
  obtain ⟨m, _, spent, rfl, further⟩ := declarations_front (is.noElse _ next_) beside ran unnoted
    (left ▸ Nat.one_pos) (32 * (broken ++ next).length)
  -- the first program has used one level for each declaration, and its tokens are worth more than that
  have deep : depthFor (first ++ tail) =
        32 * (broken ++ next).length + depthFor (first ++ [last]) ∧
      32 * (broken ++ [last]).length + 17 ≤ 32 * (broken ++ next).length + m ∧
      depthFor (next ++ [last]) ≤ 32 * (broken ++ next).length + m := by
    have begun := List.length_pos_iff.mpr is.begun
    simp only [State.start, depthFor, List.length_append, List.length_singleton, tail] at spent ⊢
    omega
  obtain ⟨t, member, cause, free, ps, unwinds, ⟨notes, same, unfailing⟩, lost⟩ :=
    is.left_out ended deep.2.1 s₁.nextId s₁.problems
  obtain ⟨free', later⟩ := declarations_of_clean_later inner' ended clean' free
    (ps.push (.atToken t cause)) (program (first ++ [last]) firstId).result.reverse deep.2.2
  have started : (State.head ⟨tail, s₁.nextId, s₁.problems⟩).kind ≠ .eof :=
    is.inner _ (List.mem_of_mem_head? next_)
  -- one round for the broken statement, and the rounds of the second program
  have joint := further []
  rw [← deep.1, declarations_of_none started (lost (next ++ [last]) noElse), List.append_nil,
    ← relineStatements_eq_map, relineStatements_id, later, List.reverse_reverse] at joint
  refine ⟨t, member, cause, notes, free, free', unwinds, unfailing, ?_⟩
  rw [List.append_assoc, List.append_assoc, program, joint]
  dsimp only
  rw [Array.toList_push, same, unnoted, List.nil_append]

/-- Of two programs without problems and a broken statement between them, only the broken statement is lost: the
statements of both programs are read, the later ones with other identities, and there is one failure, at a
token of the broken statement. -/
theorem recovery_loses_one_statement (ended : last.kind = .eof) (inner : ∀ t ∈ first, t.kind ≠ .eof)
    (clean : (program (first ++ [last]) firstId).diagnostics = []) (is : BrokenStatement broken last)
    (inner' : ∀ t ∈ next, t.kind ≠ .eof) (clean' : (program (next ++ [last]) 0).diagnostics = []) :
    let whole := program (first ++ broken ++ next ++ [last]) firstId
    (∃ k, whole.result = (program (first ++ [last]) firstId).result ++
        (program (next ++ [last]) 0).result.map (Stmt.renumber (· + k))) ∧
      ∃ t ∈ broken, ∃ cause, whole.diagnostics.filter Diagnostic.unwinds = [.atToken t cause] := by
  obtain ⟨t, member, cause, notes, free, free', unwinds, unfailing, read⟩ :=
    program_around ended inner clean is inner' clean'
  dsimp only
  rw [read]
  refine ⟨⟨free, rfl⟩, t, member, cause, ?_⟩
  have quiet : notes.filter Diagnostic.unwinds = [] :=
    List.filter_eq_nil_iff.mpr fun d among => by simp [unfailing d among]
  have failure : (Diagnostic.atToken t cause).unwinds = true := unwinds
  rw [List.filter_append, quiet, List.nil_append, List.filter_cons_of_pos failure, List.filter_nil]

end

/-- `a;` -/
def nameStatement : List Token := [⟨.identifier, "a", 1⟩, ⟨.symbol .semicolon, ";", 1⟩]

/-- `a + ;`, a sum that lacks its second operand. -/
def halfSum : List Token := [⟨.identifier, "a", 2⟩, ⟨.symbol .plus, "+", 2⟩, ⟨.symbol .semicolon, ";", 2⟩]

/-- `print a;` -/
def namePrinted : List Token :=
  [⟨.keyword .print, "print", 3⟩, ⟨.identifier, "a", 3⟩, ⟨.symbol .semicolon, ";", 3⟩]

theorem halfSum_broken : BrokenStatement halfSum ⟨.eof, "", 3⟩ where
  closed := ⟨[⟨.identifier, "a", 2⟩, ⟨.symbol .plus, "+", 2⟩], ⟨.symbol .semicolon, ";", 2⟩, rfl, rfl,
    by decide⟩
  noLeftBrace := by decide
  noRightBrace := by decide
  noFor := by decide
  inner := by decide
  noElse := by decide
  noStart := by decide
  unread := by
    rintro ⟨a, s, ran, -⟩
    have fails : (Descent.outcome (declaration (depthFor (halfSum ++ [⟨.eof, "", 3⟩]))
        (.start (halfSum ++ [⟨.eof, "", 3⟩]) 0))).toOption.join.isNone = true := by decide +kernel
    rw [ran] at fails
    cases fails

/-- Of the three statements the one in the middle is lost. -/
theorem half_sum_is_lost : BrokenStatement halfSum ⟨.eof, "", 3⟩ ∧
    (program (nameStatement ++ [⟨.eof, "", 3⟩]) 0).diagnostics = [] ∧
    (program (namePrinted ++ [⟨.eof, "", 3⟩]) 0).diagnostics = [] ∧
    (program (nameStatement ++ halfSum ++ namePrinted ++ [⟨.eof, "", 3⟩]) 0).result.length = 2 ∧
    ∃ t ∈ halfSum, ∃ cause,
      (program (nameStatement ++ halfSum ++ namePrinted ++ [⟨.eof, "", 3⟩]) 0).diagnostics.filter
        Diagnostic.unwinds = [.atToken t cause] := by
  have clean : (program (nameStatement ++ [⟨.eof, "", 3⟩]) 0).diagnostics = [] :=
    List.isEmpty_iff.mp (by decide +kernel)
  have clean' : (program (namePrinted ++ [⟨.eof, "", 3⟩]) 0).diagnostics = [] :=
    List.isEmpty_iff.mp (by decide +kernel)
  have ended : (⟨.eof, "", 3⟩ : Token).kind = .eof := rfl
  obtain ⟨⟨k, read⟩, lost⟩ :=
    recovery_loses_one_statement ended (by decide) clean halfSum_broken (by decide) clean'
  refine ⟨halfSum_broken, clean, clean', ?_, lost⟩
  rw [read, List.length_append, List.length_map]
  decide +kernel

end Grammar

end Lox
