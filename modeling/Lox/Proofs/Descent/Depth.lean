import Lox.Proofs.Descent.Rules

/-!
# A deeper bound changes nothing

Once a walk comes to an end within a bound on its depth, it comes to the same end within any larger bound: the
bound cuts walks off and does nothing else. So what a walk does within some bound is what it does without one.
-/

namespace Lox

namespace Descent

open Grammar (Level)

/-- Where the first walk comes to an end, the second comes to the same. -/
class Deepens {α : Type} (w w' : Walk α) : Prop where
  same : ∀ c r, w c = some r → w' c = some r

namespace Deepens

variable {α β : Type}

instance (priority := low) refl (w : Walk α) : Deepens w w := ⟨fun _ _ ran => ran⟩

theorem trans {w₁ w₂ w₃ : Walk α} (first : Deepens w₁ w₂) (next : Deepens w₂ w₃) : Deepens w₁ w₃ :=
  ⟨fun c r ran => next.same c r (first.same c r ran)⟩

/-- A walk that is cut off at once has no end to compare. -/
theorem tooDeep (w : Walk α) : Deepens Descent.tooDeep w := ⟨nofun⟩

instance bind {w w' : Walk α} {f f' : α → Walk β} [Deepens w w'] [∀ a, Deepens (f a) (f' a)] :
    Deepens (w >>= f) (w' >>= f') := by
  refine ⟨fun c r ran => ?_⟩
  obtain ⟨⟨a, c₁⟩, first, next⟩ := Option.bind_eq_some_iff.mp ran
  exact Option.bind_eq_some_iff.mpr ⟨(a, c₁), same c _ first, same c₁ r next⟩

instance ite {p : Prop} [Decidable p] {w w' v v' : Walk α} [Deepens w w'] [Deepens v v'] :
    Deepens (if p then w else v) (if p then w' else v') := by
  split <;> assumption

/-! ### Walks that may fail -/

instance run_bind {x x' : Attempt α} {f f' : α → Attempt β} [Deepens x.run x'.run]
    [∀ a, Deepens (f a).run (f' a).run] : Deepens (x >>= f).run (x' >>= f').run := by
  have (outcome : Except Diagnostic α) :
      Deepens (ExceptT.bindCont f outcome) (ExceptT.bindCont f' outcome) := by
    cases outcome with
    | ok a => exact inferInstanceAs (Deepens (f a).run (f' a).run)
    | error d => exact .refl _
  exact inferInstanceAs (Deepens (x.run >>= ExceptT.bindCont f) (x'.run >>= ExceptT.bindCont f'))

instance run_ite {p : Prop} [Decidable p] {x x' y y' : Attempt α} [Deepens x.run x'.run]
    [Deepens y.run y'.run] :
    Deepens (if p then x else y : Attempt α).run (if p then x' else y' : Attempt α).run := by
  split <;> assumption

instance run_liftM {w w' : Walk α} [Deepens w w'] :
    Deepens (liftM w : Attempt α).run (liftM w' : Attempt α).run :=
  inferInstanceAs (Deepens (w >>= fun a => pure (Except.ok a : Except Diagnostic α))
    (w' >>= fun a => pure (Except.ok a)))

instance run_map {x x' : Attempt α} (f : α → β) [Deepens x.run x'.run] :
    Deepens (f <$> x).run (f <$> x').run := by
  rw [← bind_pure_comp, ← bind_pure_comp]
  infer_instance

/-- What comes after an attempt is compared for each result of the attempt. -/
theorem after {x : Attempt α} {f f' : α → Attempt β} (next : ∀ a, Deepens (f a).run (f' a).run) :
    Deepens (x >>= f).run (x >>= f').run := run_bind

theorem run_tooDeep (x : Attempt α) : Deepens (liftM (Descent.tooDeep : Walk α) : Attempt α).run x.run :=
  ⟨nofun⟩

end Deepens

/-! ### The rules -/

instance skip_deepens (n : Nat) : Deepens (skip n) (skip (n + 1)) := by
  induction n with
  | zero => exact .tooDeep _
  | succ n ih =>
    rw [skip, skip]
    infer_instance

instance recovering_deepens {α : Type} {x x' : Attempt α} (n : Nat) [Deepens x.run x'.run] :
    Deepens (recovering n x) (recovering (n + 1) x') := by
  have (outcome : Except Diagnostic α) : Deepens
      (match outcome with
        | .ok a => pure (some a)
        | .error d => do
          report d
          synchronize n
          return none : Walk (Option α))
      (match outcome with
        | .ok a => pure (some a)
        | .error d => do
          report d
          synchronize (n + 1)
          return none) := by
    unfold synchronize
    cases outcome <;> infer_instance
  rw [recovering, recovering]
  infer_instance

/-- What the rules for expressions come to within the bound `n`, they come to within the next. -/
structure ExpressionsDeepen (n : Nat) : Prop where
  expression : Deepens (expression n).run (expression (n + 1)).run
  joined (level) : Deepens (joined n level).run (joined (n + 1) level).run
  operand (level) : Deepens (operand n level).run (operand (n + 1) level).run
  joinedFrom (level left) : Deepens (joinedFrom n level left).run (joinedFrom (n + 1) level left).run
  prefixed : Deepens (prefixed n).run (prefixed (n + 1)).run
  suffixes (object) : Deepens (suffixes n object).run (suffixes (n + 1) object).run
  arguments (done) : Deepens (arguments n done).run (arguments (n + 1) done).run
  primary : Deepens (primary n).run (primary (n + 1)).run

/-- By induction on the bound. A rule within it and within the next one differ in the bounds of the rules that
they call. -/
theorem expressions_deepen (n : Nat) : ExpressionsDeepen n := by
  induction n with
  | zero => constructor <;> intros <;> exact .run_tooDeep _
  | succ n ih =>
    obtain ⟨expression_n, joined_n, operand_n, joinedFrom_n, prefixed_n, suffixes_n, arguments_n,
      primary_n⟩ := ih
    constructor
    case expression =>
      rw [expression, expression]
      infer_instance
    case joined =>
      intro level
      rw [joined, joined]
      infer_instance
    case operand =>
      intro level
      rw [operand, operand]
      cases level.tighter? <;> infer_instance
    case joinedFrom =>
      intro level left
      rw [joinedFrom, joinedFrom]
      infer_instance
    case prefixed =>
      rw [prefixed, prefixed]
      infer_instance
    case suffixes =>
      intro object
      rw [suffixes, suffixes]
      infer_instance
    case arguments =>
      intro done
      rw [arguments, arguments]
      infer_instance
    case primary =>
      rw [primary, primary]
      -- what the next token is compared with one after the other
      iterate 9
        refine .after fun _ => ?_
        split
        · infer_instance
      infer_instance

section Statements

variable (n : Nat)

instance expression_deepens : Deepens (expression n).run (expression (n + 1)).run :=
  (expressions_deepen n).expression

instance optionalValue_deepens (stop : Token.Kind) :
    Deepens (optionalValue n stop).run (optionalValue (n + 1) stop).run := by
  rw [optionalValue, optionalValue]
  infer_instance

instance variableDeclaration_deepens :
    Deepens (variableDeclaration n).run (variableDeclaration (n + 1)).run := by
  rw [variableDeclaration, variableDeclaration]
  infer_instance

instance expressionStatement_deepens :
    Deepens (expressionStatement n).run (expressionStatement (n + 1)).run := by
  rw [expressionStatement, expressionStatement]
  infer_instance

instance printStatement_deepens : Deepens (printStatement n).run (printStatement (n + 1)).run := by
  rw [printStatement, printStatement]
  infer_instance

instance returnStatement_deepens : Deepens (returnStatement n).run (returnStatement (n + 1)).run := by
  rw [returnStatement, returnStatement]
  infer_instance

instance parameters_deepens (done : List Name) :
    Deepens (parameters n done).run (parameters (n + 1) done).run := by
  induction n generalizing done with
  | zero => exact .run_tooDeep _
  | succ n ih =>
    rw [parameters, parameters]
    infer_instance

instance forInitializer_deepens : Deepens (forInitializer n).run (forInitializer (n + 1)).run := by
  rw [forInitializer, forInitializer]
  infer_instance

end Statements

/-- What the rules for programs come to within the bound `n`, they come to within the next. -/
structure ProgramsDeepen (n : Nat) : Prop where
  declaration : Deepens (declaration n) (declaration (n + 1))
  classDeclaration : Deepens (classDeclaration n).run (classDeclaration (n + 1)).run
  methods (done) : Deepens (methods n done).run (methods (n + 1) done).run
  function (kind) : Deepens (function n kind).run (function (n + 1) kind).run
  statement : Deepens (statement n).run (statement (n + 1)).run
  forStatement : Deepens (forStatement n).run (forStatement (n + 1)).run
  ifStatement : Deepens (ifStatement n).run (ifStatement (n + 1)).run
  whileStatement : Deepens (whileStatement n).run (whileStatement (n + 1)).run
  block : Deepens (block n).run (block (n + 1)).run
  declarations (closing done) :
    Deepens (declarations n closing done) (declarations (n + 1) closing done)

/-- By induction on the bound. -/
theorem programs_deepen (n : Nat) : ProgramsDeepen n := by
  induction n with
  | zero =>
    constructor
    case declaration => exact .tooDeep _
    case declarations => exact fun _ _ => .tooDeep _
    all_goals intros; exact .run_tooDeep _
  | succ n ih =>
    obtain ⟨declaration_n, classDeclaration_n, methods_n, function_n, statement_n, forStatement_n,
      ifStatement_n, whileStatement_n, block_n, declarations_n⟩ := ih
    constructor
    case declaration =>
      rw [declaration, declaration]
      infer_instance
    case classDeclaration =>
      rw [classDeclaration, classDeclaration]
      infer_instance
    case methods =>
      intro done
      rw [methods, methods]
      infer_instance
    case function =>
      intro kind
      rw [function, function]
      -- too long for one search for an instance
      exact .after fun functionName => .after fun _ => inferInstance
    case statement =>
      rw [statement, statement]
      -- too long for one search for an instance
      iterate 4
        refine .after fun _ => ?_
        split
        · infer_instance
      infer_instance
    case forStatement =>
      rw [forStatement, forStatement]
      infer_instance
    case ifStatement =>
      rw [ifStatement, ifStatement]
      infer_instance
    case whileStatement =>
      rw [whileStatement, whileStatement]
      infer_instance
    case block =>
      rw [block, block]
      infer_instance
    case declarations =>
      intro closing done
      rw [declarations, declarations]
      infer_instance

/-! ### Any larger bound -/

/-- A family of walks each of which comes to what the one before comes to. -/
theorem Deepens.of_le {α : Type} {w : Nat → Walk α} (steps : ∀ n, Deepens (w n) (w (n + 1))) {n m : Nat}
    (le : n ≤ m) : Deepens (w n) (w m) := by
  induction le with
  | refl => exact .refl _
  | step _ ih => exact ih.trans (steps _)

theorem program_deepens {n m : Nat} (le : n ≤ m) : Deepens (program n) (program m) :=
  .of_le (fun n => (programs_deepen n).declarations none []) le

theorem singleExpression_deepens {n m : Nat} (le : n ≤ m) :
    Deepens (singleExpression n).run (singleExpression m).run := by
  refine .of_le (w := fun n => (singleExpression n).run) (fun n => ?_) le
  rw [singleExpression, singleExpression]
  infer_instance

theorem declaration_deepens {n m : Nat} (le : n ≤ m) : Deepens (declaration n) (declaration m) :=
  .of_le (fun n => (programs_deepen n).declaration) le


end Descent

end Lox
