import Lox.Proofs.Lexical.Evaluation

/-!
# Larger bounds

The bound on the depth of evaluation decides only whether a run comes to its end. A run that does not use its
bound up goes the same way under every larger one.
-/

namespace Lox.Lexical

variable {α β : Type}

/-- The run has halted because its bound was used up. -/
def OutOfFuel {σ : Type} (r : EStateM.Result Halt σ α) : Prop := ∃ μ, r = .error .outOfFuel μ

namespace Run

/-- The second run does what the first one does, unless the first uses its bound up. -/
def Below (x y : Run α) : Prop := ∀ μ, OutOfFuel (x μ) ∨ y μ = x μ

namespace Below

theorem refl (x : Run α) : Below x x := fun _ => .inr rfl

theorem trans {x y z : Run α} (first : Below x y) (next : Below y z) : Below x z := by
  intro μ
  rcases first μ with out | same
  · exact .inl out
  · rcases next μ with out | same'
    · exact .inl (same ▸ out)
    · exact .inr (same'.trans same)

/-- A run without any bound left is below all runs. -/
theorem outOfFuel (x : Run α) : Below (throw .outOfFuel) x := fun μ => .inl ⟨μ, rfl⟩

theorem bind {x y : Run α} {f h : α → Run β} (first : Below x y) (next : ∀ a, Below (f a) (h a)) :
    Below (x >>= f) (y >>= h) := by
  intro μ
  change OutOfFuel (EStateM.bind x f μ) ∨ EStateM.bind y h μ = EStateM.bind x f μ
  unfold EStateM.bind
  rcases first μ with ⟨μ', out⟩ | same
  · rw [out]
    exact .inl ⟨μ', rfl⟩
  · rw [same]
    cases x μ with
    | ok a μ' => exact next a μ'
    | error halt μ' => exact .inr rfl

/-- What the runs go on with is the same. -/
theorem andThen {x y : Run α} (first : Below x y) (f : α → Run β) : Below (x >>= f) (y >>= f) :=
  first.bind fun a => .refl (f a)

/-- What the runs begin with is the same. -/
theorem after (x : Run α) {f h : α → Run β} (next : ∀ a, Below (f a) (h a)) :
    Below (x >>= f) (x >>= h) :=
  (refl x).bind next

theorem nested {x y : Run α} (within : Below x y) (line : Nat) :
    Below (Run.nested line x) (Run.nested line y) := by
  intro μ
  unfold Run.nested
  split
  · exact .inr rfl
  · rcases within { μ with callDepth := μ.callDepth + 1 } with ⟨μ', out⟩ | same
    · rw [out]
      exact .inl ⟨_, rfl⟩
    · rw [same]
      exact .inr rfl

end Below

end Run

open Lexical.Run

/-- Evaluations within the bound `n` are below those within the next one. -/
structure Deepens (n : Nat) : Prop where
  evaluate : ∀ ρ e, Below (evaluate n ρ e) (evaluate (n + 1) ρ e)
  evaluateAll : ∀ ρ expressions, Below (evaluateAll n ρ expressions) (evaluateAll (n + 1) ρ expressions)
  call : ∀ callee line arguments,
    Below (call n callee line arguments) (call (n + 1) callee line arguments)
  callClosure : ∀ closure arguments,
    Below (callClosure n closure arguments) (callClosure (n + 1) closure arguments)
  construct : ∀ c arguments, Below (construct n c arguments) (construct (n + 1) c arguments)
  execute : ∀ ρ s, Below (execute n ρ s) (execute (n + 1) ρ s)
  evaluateOptional : ∀ ρ e, Below (evaluateOptional n ρ e) (evaluateOptional (n + 1) ρ e)
  evaluateSuperclass : ∀ ρ e, Below (evaluateSuperclass n ρ e) (evaluateSuperclass (n + 1) ρ e)
  executeWhile : ∀ ρ condition body,
    Below (executeWhile n ρ condition body) (executeWhile (n + 1) ρ condition body)
  executeAll : ∀ ρ body, Below (executeAll n ρ body) (executeAll (n + 1) ρ body)

section

variable {n : Nat} (ih : Deepens n)

include ih

private theorem evaluate_deepens (ρ : Env) (e : Expr) :
    Below (evaluate (n + 1) ρ e) (evaluate (n + 2) ρ e) := by
  cases e with
  | literal value => exact .refl _
  | grouping inner => exact ih.evaluate ρ inner
  | unary operator right => exact (ih.evaluate ρ right).andThen _
  | binary left operator right =>
    exact (ih.evaluate ρ left).bind fun _ => (ih.evaluate ρ right).andThen _
  | logical left operator right =>
    refine (ih.evaluate ρ left).bind fun value => ?_
    split
    · exact .refl _
    · exact ih.evaluate ρ right
  | «variable» name id => exact .refl _
  | assign name value id => exact (ih.evaluate ρ value).andThen _
  | call callee line arguments =>
    exact (ih.evaluate ρ callee).bind fun callee => (ih.evaluateAll ρ arguments).bind fun values =>
      ih.call callee line values
  | get object name => exact (ih.evaluate ρ object).andThen _
  | set object name value =>
    refine (ih.evaluate ρ object).bind fun object => ?_
    cases object with
    | instance_ i => exact (ih.evaluate ρ value).andThen _
    | _ => exact .refl _
  | this keyword id => exact .refl _
  | super keyword method id => exact .refl _

private theorem evaluateAll_deepens (ρ : Env) (expressions : List Expr) :
    Below (evaluateAll (n + 1) ρ expressions) (evaluateAll (n + 2) ρ expressions) := by
  cases expressions with
  | nil => exact .refl _
  | cons e rest => exact (ih.evaluate ρ e).bind fun _ => (ih.evaluateAll ρ rest).andThen _

private theorem call_deepens (callee : Value) (line : Nat) (arguments : List Value) :
    Below (call (n + 1) callee line arguments) (call (n + 2) callee line arguments) := by
  cases callee with
  | function f =>
    refine .after _ fun found => ?_
    cases found with
    | none => exact .refl _
    | some closure => exact .after _ fun _ => (ih.callClosure closure arguments).nested line
  | class_ c => exact .after _ fun _ => .after _ fun _ => (ih.construct c arguments).nested line
  | _ => exact .refl _

private theorem callClosure_deepens (closure : Closure) (arguments : List Value) :
    Below (callClosure (n + 1) closure arguments) (callClosure (n + 2) closure arguments) :=
  .after _ fun ρ => (ih.executeAll ρ closure.declaration.body).andThen _

private theorem construct_deepens (c : ClassId) (arguments : List Value) :
    Below (construct (n + 1) c arguments) (construct (n + 2) c arguments) := by
  refine .after _ fun i => .after _ fun initializer => ?_
  cases initializer with
  | none => exact .refl _
  | some method => exact .after _ fun closure => (ih.callClosure closure arguments).andThen _

private theorem execute_deepens (ρ : Env) (s : Stmt) :
    Below (execute (n + 1) ρ s) (execute (n + 2) ρ s) := by
  cases s with
  | expression value => exact (ih.evaluate ρ value).andThen _
  | print value => exact (ih.evaluate ρ value).andThen _
  | var name initializer => exact .after _ fun ρ => (ih.evaluateOptional ρ initializer).andThen _
  | block body => exact .after _ fun inside => (ih.executeAll inside body).andThen _
  | ifElse condition thenBranch elseBranch =>
    refine (ih.evaluate ρ condition).bind fun test => ?_
    split
    · exact ih.execute ρ thenBranch
    · cases elseBranch with
      | none => exact .refl _
      | some s => exact ih.execute ρ s
  | «while» condition body => exact (ih.executeWhile ρ condition body).andThen _
  | function d => exact .refl _
  | «return» line value => exact (ih.evaluateOptional ρ value).andThen _
  | class_ name superclass methods => exact (ih.evaluateSuperclass ρ superclass).andThen _

private theorem evaluateOptional_deepens (ρ : Env) (e : Option Expr) :
    Below (evaluateOptional (n + 1) ρ e) (evaluateOptional (n + 2) ρ e) := by
  cases e with
  | none => exact .refl _
  | some e => exact ih.evaluate ρ e

private theorem evaluateSuperclass_deepens (ρ : Env) (e : Option Expr) :
    Below (evaluateSuperclass (n + 1) ρ e) (evaluateSuperclass (n + 2) ρ e) := by
  cases e with
  | none => exact .refl _
  | some e => exact (ih.evaluate ρ e).andThen _

private theorem executeWhile_deepens (ρ : Env) (condition : Expr) (body : Stmt) :
    Below (executeWhile (n + 1) ρ condition body) (executeWhile (n + 2) ρ condition body) := by
  refine (ih.evaluate ρ condition).bind fun test => ?_
  split
  · refine (ih.execute ρ body).bind fun (_, flow) => ?_
    cases flow with
    | «return» value => exact .refl _
    | next value => exact ih.executeWhile ρ condition body
  · exact .refl _

private theorem executeAll_deepens (ρ : Env) (body : List Stmt) :
    Below (executeAll (n + 1) ρ body) (executeAll (n + 2) ρ body) := by
  cases body with
  | nil => exact .refl _
  | cons s rest =>
    refine (ih.execute ρ s).bind fun (ρ', flow) => ?_
    cases flow with
    | «return» value => exact .refl _
    | next value => exact ih.executeAll ρ' rest

end

/-- By induction on the bound, with a case for each function of the evaluation. -/
theorem deepens (n : Nat) : Deepens n := by
  induction n with
  | zero => constructor <;> intros <;> exact .outOfFuel _
  | succ n ih =>
    exact {
      evaluate := evaluate_deepens ih
      evaluateAll := evaluateAll_deepens ih
      call := call_deepens ih
      callClosure := callClosure_deepens ih
      construct := construct_deepens ih
      execute := execute_deepens ih
      evaluateOptional := evaluateOptional_deepens ih
      evaluateSuperclass := evaluateSuperclass_deepens ih
      executeWhile := executeWhile_deepens ih
      executeAll := executeAll_deepens ih }

/-- A run that is below the one within the next bound is below those within all larger ones. -/
theorem below_of_le {x : Nat → Run α} (deeper : ∀ n, Below (x n) (x (n + 1))) {n k : Nat} (less : n ≤ k) :
    Below (x n) (x k) := by
  induction less with
  | refl => exact .refl _
  | step _ ih => exact ih.trans (deeper _)

end Lox.Lexical
