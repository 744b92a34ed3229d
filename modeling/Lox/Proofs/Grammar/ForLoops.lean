import Lox.Proofs.Grammar.Regular

/-!
# What `for` loops are read as

Whatever the tokens are, the rule for `for` loops returns a loop that starts with a declaration or an
expression, if with anything, and whose body declares nothing.
-/

namespace Lox

/-- A statement that a loop can start with. -/
def Stmt.StartsLoop : Stmt → Prop
  | .var _ _ | .expression _ => True
  | _ => False

/-- Parts that a `for` loop can have, apart from its expressions. -/
structure IsForLoop (initializer : Option Stmt) (body : Stmt) : Prop where
  starts : ∀ s ∈ initializer, s.StartsLoop
  silent : body.declared? = none

namespace Grammar

open Rule

theorem forInitializer_startsLoop (n : Nat) :
    Returns (forInitializer n) fun initializer => ∀ s ∈ initializer, s.StartsLoop := by
  have given {x : Rule Stmt} (read : Returns x Stmt.StartsLoop) :
      Returns (do return some (← x)) fun initializer => ∀ s ∈ initializer, s.StartsLoop :=
    read.bind fun s starts => .pure fun _ same => Option.some.inj same ▸ starts
  have declaration : Returns (variableDeclaration n) Stmt.StartsLoop := by
    unfold variableDeclaration
    refine .after fun declared => .after fun initialized => ?_
    have rest (initializer : Option Expr) : Returns (do
        let _ ← expect (.symbol .semicolon) .openVariableDeclaration
        return .var declared initializer) Stmt.StartsLoop := .after fun _ => .pure trivial
    exact .ite (.after rest) (.after rest)
  unfold forInitializer
  refine .after fun empty => .ite (.pure nofun) (.after fun declares => .ite ?_ ?_)
  · exact given declaration
  · exact given (.after fun value => .after fun _ => .pure trivial)

/-- The parts of a `for` loop, in the order in which they are read. -/
def forParts : Nat → Rule (Option Stmt × Option Expr × Option Expr × Stmt)
  | 0 => fail .noForClauses
  | n + 1 => do
    let _ ← expect (.symbol .leftParen) .noForClauses
    let initializer ← forInitializer n
    let condition ← optionalValue n (.symbol .semicolon)
    let _ ← expect (.symbol .semicolon) .openLoopCondition
    let increment ← optionalValue n (.symbol .rightParen)
    let _ ← expect (.symbol .rightParen) .openForClauses
    let body ← statement n
    return (initializer, condition, increment, body)

theorem forStatement_eq (n : Nat) : forStatement n = (do
    let (initializer, condition, increment, body) ← forParts n
    return .forLoop initializer condition increment body) := by
  cases n with
  | zero => rfl
  | succ n => simp only [forStatement, forParts, bind_assoc, pure_bind]

theorem forParts_isForLoop (n : Nat) :
    Returns (forParts n) fun (initializer, _, _, body) => IsForLoop initializer body := by
  cases n with
  | zero => exact .fail _
  | succ n =>
    unfold forParts
    refine .after fun _ => (forInitializer_startsLoop n).bind fun initializer starts => ?_
    refine .after fun condition => .after fun _ => .after fun increment => .after fun _ => ?_
    exact (programs_regular n).statement.bind fun body branch => .pure ⟨starts, branch.2⟩

/-- What a `for` loop is read as is put together from the parts that have been read. -/
theorem forStatement_reads {n : Nat} {s s' : State} {loop : Stmt}
    (read : forStatement n s = .ok loop s') :
    ∃ initializer condition increment body,
      forParts n s = .ok (initializer, condition, increment, body) s' ∧ IsForLoop initializer body ∧
        loop = .forLoop initializer condition increment body := by
  rw [forStatement_eq] at read
  obtain ⟨⟨initializer, condition, increment, body⟩, s₁, parts, built⟩ := bind_eq_ok read
  cases built
  exact ⟨initializer, condition, increment, body, parts, forParts_isForLoop n _ _ _ parts, rfl⟩

end Grammar

end Lox
