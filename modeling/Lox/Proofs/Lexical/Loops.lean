import Lox.Proofs.Grammar.ForLoops
import Lox.Proofs.Lexical.Fuel
import Lox.Proofs.Scope.Scoped

/-!
# Loops as they are written

A `for` loop is read as a `while` loop with up to two blocks around its parts. Lexical evaluation can also
carry it out as it is written: one scope for the initializer, and then rounds that are all in this scope. The
blocks declare nothing of their own, and so both come to the same.
-/

namespace Lox.Lexical

open Lexical.Run

/-! ### The direct loop -/

/-- Whether a loop goes on. Without a condition it always does. -/
def goesOn (n : Nat) (ρ : Env) : Option Expr → Run Bool
  | none => pure true
  | some condition => do
    let value ← evaluate n ρ condition
    pure value.isTruthy

/-- Evaluates the increment of a loop and drops its value. -/
def advance (n : Nat) (ρ : Env) : Option Expr → Run Unit
  | none => pure ()
  | some increment => do
    let _ ← evaluate n ρ increment
    pure ()

/-- The rounds of a loop, each of which finds the same names at the same locations. A body that returns ends
the loop before the increment is evaluated. -/
def rounds : Nat → Env → Option Expr → Option Expr → Stmt → Run Flow
  | 0, _, _, _, _ => throw .outOfFuel
  | n + 1, ρ, condition, increment, body => do
    if ← goesOn n ρ condition then
      let (_, flow) ← execute n ρ body
      match flow with
      | .return value => pure (.return value)
      | .next _ => do
        advance n ρ increment
        rounds n ρ condition increment body
    else pure (.next .nil)

/-- A `for` loop. Its initializer runs once, in a scope of its own that the rounds share. -/
def forLoop (n : Nat) (ρ : Env) (initializer : Option Stmt) (condition increment : Option Expr)
    (body : Stmt) : Run Flow :=
  match initializer with
  | none => rounds n ρ condition increment body
  | some s => do
    let inside ← openScope ρ []
    let (inside, _) ← execute n inside s
    rounds n inside condition increment body

/-- The variable that a loop declares has one location, a new one, in which all rounds find it. -/
theorem forLoop_var (ρ : Env) (name : Name) (value : Option Expr) (condition increment : Option Expr)
    (body : Stmt) (μ : State) : ∃ inside : Env, inside.find? name.text = some ⟨μ.cells.size⟩ ∧
      ∀ n, forLoop (n + 1) ρ (some (.var name value)) condition increment body μ = (do
        let first ← evaluateOptional n inside value
        define inside name.text first
        rounds (n + 1) inside condition increment body) { μ with cells := μ.cells.push .nil } := by
  obtain ⟨names, same⟩ : ∃ names, ρ.enter = .inner names := by cases ρ <;> exact ⟨_, rfl⟩
  refine ⟨.inner (names.insert name.text ⟨μ.cells.size⟩), Table.get?_insert_self _ _ _, fun n => ?_⟩
  change (execute (n + 1) ρ.enter (.var name value) >>= fun r =>
    rounds (n + 1) r.1 condition increment body) μ = _
  rw [same]
  simp only [execute, bind_assoc, pure_bind]
  rfl

/-! ### Statements that declare nothing -/

/-- What a statement comes to, apart from the names for those after it. -/
def flowOf (n : Nat) (ρ : Env) (s : Stmt) : Run Flow := Prod.snd <$> execute n ρ s

/-- What a loop or block goes on with after a statement that has not returned. -/
def unlessReturned (next : Run Flow) : Flow → Run Flow
  | .return value => pure (.return value)
  | .next _ => next

theorem unlessReturned_bind (first next : Run Flow) (flow : Flow) :
    unlessReturned first flow >>= unlessReturned next =
      unlessReturned (first >>= unlessReturned next) flow := by
  cases flow <;> rfl

theorem below_unlessReturned {x y : Run Flow} (next : Below x y) (flow : Flow) :
    Below (unlessReturned x flow) (unlessReturned y flow) := by
  cases flow with
  | «return» value => exact .refl _
  | next value => exact next

theorem executeWhile_succ (n : Nat) (ρ : Env) (condition : Expr) (body : Stmt) :
    executeWhile (n + 1) ρ condition body = (do
      let test ← evaluate n ρ condition
      if test.isTruthy then flowOf n ρ body >>= unlessReturned (executeWhile n ρ condition body)
      else pure (.next .nil)) := by
  simp only [executeWhile, flowOf, bind_map_left]
  rfl

theorem rounds_succ (n : Nat) (ρ : Env) (condition increment : Option Expr) (body : Stmt) :
    rounds (n + 1) ρ condition increment body = (do
      if ← goesOn n ρ condition then
        flowOf n ρ body >>= unlessReturned (do
          advance n ρ increment
          rounds n ρ condition increment body)
      else pure (.next .nil)) := by
  simp only [rounds, flowOf, bind_map_left]
  rfl

/-- What declares nothing gives its names on to the statements after it. -/
theorem execute_silent {L : List Lookup} {Γ : Scopes} (n : Nat) (ρ : Env) {s : Stmt} (code : s.Scoped L Γ)
    (silent : s.declared? = none) :
    execute n ρ s = flowOf n ρ s >>= fun flow => pure (ρ, flow) := by
  induction n generalizing s with
  | zero => rfl
  | succ n ih =>
    cases s with
    | expression value | print value | block body | «while» condition body | «return» line value =>
      simp only [flowOf, execute, map_bind, map_pure, bind_assoc, pure_bind]
    | ifElse condition thenBranch elseBranch =>
      obtain ⟨-, ⟨code, silent⟩, other⟩ := Stmt.scoped_ifElse code
      simp only [flowOf, execute, map_bind, bind_assoc]
      refine bind_congr fun test => ?_
      split
      · exact ih code silent
      · cases elseBranch with
        | none => simp only [map_pure, pure_bind]
        | some s => exact ih (other s rfl).1 (other s rfl).2
    | var name initializer | function d | class_ name superclass methods => cases silent

/-- Within the bound `n`, a scope without names is as good as none. -/
structure Opens (n : Nat) : Prop where
  evaluate : ∀ e, evaluate n (.inner ∅) e = evaluate n .top e
  evaluateAll : ∀ expressions, evaluateAll n (.inner ∅) expressions = evaluateAll n .top expressions
  evaluateOptional : ∀ e, evaluateOptional n (.inner ∅) e = evaluateOptional n .top e
  execute : ∀ {L Γ s}, s.Scoped L Γ → s.declared? = none → flowOf n (.inner ∅) s = flowOf n .top s
  executeWhile : ∀ {L Γ condition body}, body.Scoped L Γ → body.declared? = none →
    executeWhile n (.inner ∅) condition body = executeWhile n .top condition body

theorem opens (n : Nat) : Opens n := by
  induction n with
  | zero => constructor <;> intros <;> rfl
  | succ n ih =>
    constructor
    case evaluate =>
      intro e
      cases e with
      | literal | «variable» | this | super => rfl
      | grouping inner => exact ih.evaluate inner
      | unary operator right => simp only [evaluate, ih.evaluate]
      | binary left operator right => simp only [evaluate, ih.evaluate]
      | logical left operator right => simp only [evaluate, ih.evaluate]
      | assign name value id =>
        simp only [evaluate, ih.evaluate]
        rfl
      | call callee line arguments => simp only [evaluate, ih.evaluate, ih.evaluateAll]
      | get object name => simp only [evaluate, ih.evaluate]
      | set object name value => simp only [evaluate, ih.evaluate]
    case evaluateAll =>
      intro expressions
      cases expressions with
      | nil => rfl
      | cons e rest => simp only [evaluateAll, ih.evaluate, ih.evaluateAll]
    case evaluateOptional =>
      intro e
      cases e with
      | none => rfl
      | some e => exact ih.evaluate e
    case execute =>
      intro L Γ s code silent
      cases s with
      | expression value | print value | «return» line value =>
        simp only [flowOf, execute, map_bind, map_pure, ih.evaluate, ih.evaluateOptional]
      | block body => simp only [flowOf, execute, map_bind, map_pure]; rfl
      | «while» condition body =>
        rw [Stmt.Scoped] at code
        simp only [flowOf, execute, map_bind, map_pure, ih.executeWhile code.2.1 code.2.2]
      | ifElse condition thenBranch elseBranch =>
        obtain ⟨-, ⟨code, silent⟩, other⟩ := Stmt.scoped_ifElse code
        simp only [flowOf, execute, map_bind, ih.evaluate]
        refine bind_congr fun test => ?_
        split
        · exact ih.execute code silent
        · cases elseBranch with
          | none => simp only [map_pure]
          | some s => exact ih.execute (other s rfl).1 (other s rfl).2
      | var name initializer | function d | class_ name superclass methods => cases silent
    case executeWhile =>
      intro L Γ condition body code silent
      rw [executeWhile_succ, executeWhile_succ, ih.evaluate, ih.executeWhile code silent,
        ih.execute code silent]

/-- In the scope of a block, a statement that declares nothing comes to what it comes to outside. -/
theorem flowOf_enter {L : List Lookup} {Γ : Scopes} (n : Nat) (ρ : Env) {s : Stmt} (code : s.Scoped L Γ)
    (silent : s.declared? = none) : flowOf n ρ.enter s = flowOf n ρ s := by
  cases ρ with
  | top => exact (opens n).execute code silent
  | inner names => rfl

theorem evaluate_enter (n : Nat) (ρ : Env) (e : Expr) : evaluate n ρ.enter e = evaluate n ρ e := by
  cases ρ with
  | top => exact (opens n).evaluate e
  | inner names => rfl

/-! ### Rounds -/

/-- The test of the `while` loop that a `for` loop is read as. -/
def testOf (condition : Option Expr) : Expr := condition.getD (.literal (.bool true))

/-- The body of the `while` loop that a `for` loop is read as. -/
def stepOf (increment : Option Expr) (body : Stmt) : Stmt :=
  match increment with
  | some e => .block [body, .expression e]
  | none => body

theorem execute_le {n k : Nat} (less : n ≤ k) (ρ : Env) (s : Stmt) :
    Below (execute n ρ s) (execute k ρ s) :=
  below_of_le (fun n => (deepens n).execute ρ s) less

theorem flowOf_le {n k : Nat} (less : n ≤ k) (ρ : Env) (s : Stmt) : Below (flowOf n ρ s) (flowOf k ρ s) := by
  simp only [flowOf, map_eq_pure_bind]
  exact (execute_le less ρ s).andThen _

theorem evaluate_le {n k : Nat} (less : n ≤ k) (ρ : Env) (e : Expr) :
    Below (evaluate n ρ e) (evaluate k ρ e) :=
  below_of_le (fun n => (deepens n).evaluate ρ e) less

section

variable {n : Nat} {ρ : Env} {condition increment : Option Expr} {body : Stmt}

theorem test_below {x y z : Run Flow} (next : Below x y) :
    Below (do if (← evaluate n ρ (testOf condition)).isTruthy then x else z)
      (do if ← goesOn n ρ condition then y else z) := by
  cases condition with
  | none =>
    cases n with
    | zero => exact .outOfFuel _
    | succ n => exact next
  | some e =>
    rw [goesOn, bind_assoc]
    refine .after _ fun value => ?_
    rw [pure_bind]
    split
    · exact next
    · exact .refl z

theorem test_above {k : Nat} (less : n ≤ k) {x y z : Run Flow} (next : Below x y) :
    Below (do if ← goesOn n ρ condition then x else z)
      (do if (← evaluate (k + 1) ρ (testOf condition)).isTruthy then y else z) := by
  cases condition with
  | none => exact next
  | some e =>
    rw [goesOn, bind_assoc]
    refine (evaluate_le (Nat.le_succ_of_le less) ρ e).bind fun value => ?_
    rw [pure_bind]
    split
    · exact next
    · exact .refl z

theorem flowOf_block (n : Nat) (ρ : Env) (body : List Stmt) :
    flowOf (n + 1) ρ (.block body) = executeAll n ρ.enter body := by
  simp only [flowOf, execute, openScope, declareAll, pure_bind, map_bind, map_pure, bind_pure]

theorem executeAll_cons {L : List Lookup} {Γ : Scopes} (code : body.Scoped L Γ)
    (silent : body.declared? = none) (n : Nat) (ρ : Env) (rest : List Stmt) :
    executeAll (n + 1) ρ (body :: rest) = flowOf n ρ body >>= unlessReturned (executeAll n ρ rest) := by
  rw [executeAll, execute_silent n ρ code silent, bind_assoc]
  simp only [pure_bind]
  rfl

/-- The increment is the last statement of its block. -/
theorem executeAll_increment (n : Nat) (ρ : Env) (e : Expr) :
    executeAll (n + 2) ρ.enter [.expression e] = evaluate n ρ e >>= fun _ => pure (.next .nil) := by
  rw [← evaluate_enter n ρ e]
  simp only [executeAll, execute, bind_assoc, pure_bind]

variable {L : List Lookup} {Γ : Scopes} (code : body.Scoped L Γ) (silent : body.declared? = none)

include code silent

theorem flowOf_step (n : Nat) (ρ : Env) (e : Expr) :
    flowOf (n + 3) ρ (stepOf (some e) body) =
      flowOf (n + 1) ρ body >>= unlessReturned (executeAll (n + 1) ρ.enter [.expression e]) := by
  rw [stepOf, flowOf_block, executeAll_cons code silent, flowOf_enter (n + 1) ρ code silent]

/-- A round of the `while` loop is a round of the direct loop. -/
theorem step_below {W W' : Run Flow} (next : Below W W') :
    Below (flowOf n ρ (stepOf increment body) >>= unlessReturned W)
      (flowOf n ρ body >>= unlessReturned (do advance n ρ increment; W')) := by
  cases increment with
  | none => exact .after _ (below_unlessReturned next)
  | some e =>
    match n with
    | 0 | 1 | 2 => exact fun μ => .inl ⟨μ, rfl⟩
    | n + 3 =>
      rw [flowOf_step code silent, bind_assoc]
      refine (flowOf_le (Nat.le_add_right (n + 1) 2) ρ body).bind fun flow => ?_
      rw [unlessReturned_bind]
      refine below_unlessReturned ?_ flow
      cases n with
      | zero => exact fun μ => .inl ⟨μ, rfl⟩
      | succ n =>
        simp only [unlessReturned, executeAll_increment, advance, bind_assoc, pure_bind]
        exact (evaluate_le (by omega) ρ e).bind fun _ => next

theorem step_above {W W' : Run Flow} (next : Below W W') :
    Below (flowOf n ρ body >>= unlessReturned (do advance n ρ increment; W))
      (flowOf (n + 4) ρ (stepOf increment body) >>= unlessReturned W') := by
  cases increment with
  | none => exact (flowOf_le (Nat.le_add_right n 4) ρ body).bind (below_unlessReturned next)
  | some e =>
    rw [flowOf_step code silent, bind_assoc]
    refine (flowOf_le (Nat.le_add_right n 2) ρ body).bind fun flow => ?_
    rw [unlessReturned_bind]
    refine below_unlessReturned ?_ flow
    simp only [unlessReturned, executeAll_increment, advance, bind_assoc, pure_bind]
    exact .after _ fun _ => next

theorem while_below (n : Nat) (ρ : Env) :
    Below (executeWhile n ρ (testOf condition) (stepOf increment body))
      (rounds n ρ condition increment body) := by
  induction n with
  | zero => exact .outOfFuel _
  | succ n ih =>
    rw [executeWhile_succ, rounds_succ]
    exact test_below (step_below code silent ih)

theorem while_above (n : Nat) (ρ : Env) :
    Below (rounds n ρ condition increment body)
      (executeWhile (n + 4) ρ (testOf condition) (stepOf increment body)) := by
  induction n with
  | zero => exact .outOfFuel _
  | succ n ih =>
    rw [executeWhile_succ, rounds_succ]
    exact test_above (Nat.le_add_right n 3) (step_above code silent ih)

end

/-! ### Whole loops -/

/-- A statement that a loop can start with does not return. -/
theorem bind_startsLoop {s : Stmt} (starts : s.StartsLoop) (n : Nat) (ρ : Env) (next : Env → Run Flow) :
    (execute n ρ s >>= fun r => unlessReturned (next r.1) r.2) = execute n ρ s >>= fun r => next r.1 := by
  cases n with
  | zero => rfl
  | succ n =>
    cases s with
    | var name initializer | expression value =>
      simp only [execute, bind_assoc, pure_bind, unlessReturned]
    | _ => cases starts

/-- A loop is the last statement of its block. -/
theorem executeAll_while (n : Nat) (ρ : Env) (condition : Expr) (body : Stmt) :
    executeAll (n + 2) ρ [.while condition body] =
      executeWhile n ρ condition body >>= unlessReturned (pure (.next .nil)) := by
  simp only [executeAll, execute, bind_assoc, pure_bind]
  rfl

section

variable {condition increment : Option Expr} {body : Stmt}

theorem flowOf_forLoop_none (n : Nat) (ρ : Env) :
    flowOf (n + 1) ρ (.forLoop none condition increment body) =
      executeWhile n ρ (testOf condition) (stepOf increment body) := by
  simp only [flowOf, Stmt.forLoop, execute, map_bind, map_pure, bind_pure]
  rfl

theorem flowOf_forLoop_some {s : Stmt} (starts : s.StartsLoop) (n : Nat) (ρ : Env) :
    flowOf (n + 2) ρ (.forLoop (some s) condition increment body) =
      execute n ρ.enter s >>= fun r =>
        executeAll n r.1 [.while (testOf condition) (stepOf increment body)] := by
  have block : Stmt.forLoop (some s) condition increment body =
      .block [s, .while (testOf condition) (stepOf increment body)] := rfl
  rw [block, flowOf_block, ← bind_startsLoop starts n ρ.enter (executeAll n · _)]
  rfl

theorem rounds_deepens (n : Nat) (ρ : Env) :
    Below (rounds n ρ condition increment body) (rounds (n + 1) ρ condition increment body) := by
  induction n with
  | zero => exact .outOfFuel _
  | succ n ih =>
    have test : Below (goesOn n ρ condition) (goesOn (n + 1) ρ condition) := by
      cases condition with
      | none => exact .refl _
      | some e => exact (evaluate_le (Nat.le_succ n) ρ e).andThen _
    have step : Below (advance n ρ increment) (advance (n + 1) ρ increment) := by
      cases increment with
      | none => exact .refl _
      | some e => exact (evaluate_le (Nat.le_succ n) ρ e).andThen _
    rw [rounds_succ, rounds_succ]
    refine test.bind fun goes => ?_
    split
    · exact (flowOf_le (Nat.le_succ n) ρ body).bind (below_unlessReturned (step.bind fun _ => ih))
    · exact .refl _

theorem rounds_le {n k : Nat} (less : n ≤ k) (ρ : Env) :
    Below (rounds n ρ condition increment body) (rounds k ρ condition increment body) :=
  below_of_le (rounds_deepens · ρ) less

/-- Rounds that have not returned have no value. -/
theorem rounds_settled (n : Nat) (ρ : Env) :
    rounds n ρ condition increment body >>= unlessReturned (pure (.next .nil)) =
      rounds n ρ condition increment body := by
  induction n with
  | zero => rfl
  | succ n ih =>
    rw [rounds_succ, bind_assoc]
    refine bind_congr fun goes => ?_
    split
    · rw [bind_assoc]
      refine bind_congr fun flow => ?_
      rw [unlessReturned_bind]
      simp only [bind_assoc, ih]
    · rfl

variable {L : List Lookup} {Γ : Scopes} (code : body.Scoped L Γ) (silent : body.declared? = none)

include code silent

/-- The blocks that a `for` loop is read as come to what the direct loop comes to within the same bound. -/
theorem forLoop_below {initializer : Option Stmt} (starts : ∀ s ∈ initializer, s.StartsLoop) (n : Nat)
    (ρ : Env) : Below (flowOf n ρ (.forLoop initializer condition increment body))
      (forLoop n ρ initializer condition increment body) := by
  cases initializer with
  | none =>
    cases n with
    | zero => exact fun μ => .inl ⟨μ, rfl⟩
    | succ n =>
      rw [flowOf_forLoop_none]
      exact (while_below code silent n ρ).trans (rounds_le (Nat.le_succ n) ρ)
  | some s =>
    match n with
    | 0 | 1 => exact fun μ => .inl ⟨μ, rfl⟩
    | n + 2 =>
      rw [flowOf_forLoop_some (starts s rfl)]
      refine (execute_le (Nat.le_add_right n 2) ρ.enter s).bind fun r => ?_
      match n with
      | 0 | 1 => exact fun μ => .inl ⟨μ, rfl⟩
      | n + 2 =>
        change Below _ (rounds (n + 4) r.1 condition increment body)
        rw [executeAll_while, ← rounds_settled]
        exact ((while_below code silent n r.1).trans (rounds_le (Nat.le_add_right n 4) r.1)).andThen _

/-- What the direct loop comes to, the blocks come to within a bound that leaves room for them. -/
theorem forLoop_above {initializer : Option Stmt} (starts : ∀ s ∈ initializer, s.StartsLoop) (n : Nat)
    (ρ : Env) : Below (forLoop n ρ initializer condition increment body)
      (flowOf (n + 8) ρ (.forLoop initializer condition increment body)) := by
  cases initializer with
  | none =>
    refine Below.trans ?_ (flowOf_le (Nat.le_add_right (n + 5) 3) ρ _)
    rw [flowOf_forLoop_none]
    exact while_above code silent n ρ
  | some s =>
    rw [flowOf_forLoop_some (starts s rfl)]
    refine (execute_le (Nat.le_add_right n 6) ρ.enter s).bind fun r => ?_
    change Below (rounds n r.1 condition increment body) _
    rw [executeAll_while, ← rounds_settled]
    exact (while_above code silent n r.1).andThen _

end

end Lox.Lexical
