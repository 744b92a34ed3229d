import Lox.Reading

/-!
# Properties of all rules

Many a property is one of every rule of the grammar because the rules for single tokens have it and composition
preserves it. That is shown here once, for all such properties.
-/

namespace Lox

namespace Grammar

namespace Rule

/-- A property that the rules for single tokens have and composition preserves. -/
class Compositional (P : (α : Type) → Rule α → Prop) : Prop where
  pure {α : Type} (a : α) : P α (pure a)
  bind {α β : Type} {x : Rule α} {f : α → Rule β} : P α x → (∀ a, P β (f a)) → P β (x >>= f)
  recover {α : Type} {x : Rule α} : P α x → P (Option α) (recover x)
  fail {α : Type} (cause : SyntaxError) : P α (fail cause)
  peek : P Token peek
  atEnd : P Bool atEnd
  sees (kind : Token.Kind) : P Bool (sees kind)
  accept (kind : Token.Kind) : P Bool (accept kind)
  expect (kind : Token.Kind) (missing : SyntaxError) : P Token (expect kind missing)
  take : P Unit take
  note (d : Diagnostic) : P Unit (note d)
  freshId : P NodeId freshId

/-- A rule with the property. -/
class Has (P : (α : Type) → Rule α → Prop) {α : Type} (x : Rule α) : Prop where
  has : P α x

section

variable {P : (α : Type) → Rule α → Prop} [Compositional P] {α β : Type}

instance (a : α) : Has P (pure a) := ⟨Compositional.pure a⟩

theorem Has.bind {x : Rule α} {f : α → Rule β} (first : Has P x) (next : ∀ a, Has P (f a)) :
    Has P (x >>= f) := ⟨Compositional.bind first.has fun a => (next a).has⟩

instance {x : Rule α} {f : α → Rule β} [Has P x] [∀ a, Has P (f a)] : Has P (x >>= f) :=
  .bind inferInstance inferInstance

instance {x : Rule α} {f : α → β} [Has P x] : Has P (f <$> x) :=
  inferInstanceAs (Has P (x >>= fun a => pure (f a)))

instance {c : Prop} [Decidable c] {x y : Rule α} [Has P x] [Has P y] :
    Has P (if c then x else y) := by
  split <;> infer_instance

instance {x : Rule α} [first : Has P x] : Has P (recover x) := ⟨Compositional.recover first.has⟩

instance (cause : SyntaxError) : Has P (fail cause : Rule α) := ⟨Compositional.fail cause⟩

instance : Has P peek := ⟨Compositional.peek⟩

instance : Has P atEnd := ⟨Compositional.atEnd⟩

instance (kind : Token.Kind) : Has P (sees kind) := ⟨Compositional.sees kind⟩

instance (kind : Token.Kind) : Has P (accept kind) := ⟨Compositional.accept kind⟩

instance (kind : Token.Kind) (missing : SyntaxError) : Has P (expect kind missing) :=
  ⟨Compositional.expect kind missing⟩

instance : Has P take := ⟨Compositional.take⟩

instance (d : Diagnostic) : Has P (note d) := ⟨Compositional.note d⟩

instance : Has P freshId := ⟨Compositional.freshId⟩

instance (missing : SyntaxError) : Has P (name missing) := by
  unfold name
  infer_instance

end

end Rule

section Rules

variable {P : (α : Type) → Rule α → Prop} [Rule.Compositional P]

open Rule

/-! ### The rules for expressions -/

/-- Within the bound `n`, the rules for expressions have the property. -/
private structure ExpressionsHave (P : (α : Type) → Rule α → Prop) (n : Nat) : Prop where
  expression : Has P (expression n)
  joined (level : Level) : Has P (joined n level)
  operand (level : Level) : Has P (operand n level)
  joinedFrom (level : Level) (left : Expr) : Has P (joinedFrom n level left)
  prefixed : Has P (prefixed n)
  suffixes (object : Expr) : Has P (suffixes n object)
  arguments (done : List Expr) : Has P (arguments n done)
  primary : Has P (primary n)

private theorem expressions_have (n : Nat) : ExpressionsHave P n := by
  induction n with
  | zero => constructor <;> intros <;> exact inferInstanceAs (Has P (fail _))
  | succ n ih =>
    obtain ⟨_, _, _, _, _, _, _, _⟩ := ih
    constructor
    case expression =>
      unfold expression
      -- what an assignment becomes depends on its target
      refine .bind inferInstance fun target => ?_
      cases target <;> infer_instance
    case operand =>
      intro level
      unfold operand
      split <;> infer_instance
    case primary =>
      unfold primary
      refine .bind inferInstance fun t => ?_
      split <;> infer_instance
    case joined =>
      intro level
      unfold joined
      infer_instance
    case joinedFrom =>
      intro level left
      unfold joinedFrom
      infer_instance
    case prefixed =>
      unfold prefixed
      infer_instance
    case suffixes =>
      intro object
      unfold suffixes
      -- too long for one search for an instance
      refine .bind inferInstance fun called => ?_
      split <;> infer_instance
    case arguments =>
      intro done
      unfold arguments
      infer_instance


section

variable (n : Nat)

instance : Has P (expression n) := (expressions_have n).expression

instance (level : Level) : Has P (joined n level) := (expressions_have n).joined level

instance (level : Level) : Has P (operand n level) := (expressions_have n).operand level

instance (level : Level) (left : Expr) : Has P (joinedFrom n level left) :=
  (expressions_have n).joinedFrom level left

instance : Has P (prefixed n) := (expressions_have n).prefixed

instance (object : Expr) : Has P (suffixes n object) :=
  (expressions_have n).suffixes object

instance (done : List Expr) : Has P (arguments n done) :=
  (expressions_have n).arguments done

instance : Has P (primary n) := (expressions_have n).primary

/-! ### The rules for programs -/

instance (stop : Token.Kind) : Has P (optionalValue n stop) := by
  unfold optionalValue
  infer_instance

instance : Has P (variableDeclaration n) := by
  unfold variableDeclaration
  infer_instance

instance : Has P (expressionStatement n) := by
  unfold expressionStatement
  infer_instance

instance : Has P (printStatement n) := by
  unfold printStatement
  infer_instance

instance (line : Nat) : Has P (returnStatement n line) := by
  unfold returnStatement
  infer_instance

instance (done : List Name) : Has P (parameters n done) := by
  induction n generalizing done with
  | zero => exact inferInstanceAs (Has P (fail _))
  | succ n ih =>
    unfold parameters
    infer_instance

instance : Has P (forInitializer n) := by
  unfold forInitializer
  infer_instance

instance : Has P superclass := by
  unfold superclass
  infer_instance

end

/-- Within the bound `n`, the rules for programs have the property. -/
private structure ProgramsHave (P : (α : Type) → Rule α → Prop) (n : Nat) : Prop where
  declaration : Has P (declaration n)
  classDeclaration : Has P (classDeclaration n)
  methods (done : List FunctionDecl) : Has P (methods n done)
  function (kind : FunctionKind) : Has P (function n kind)
  statement : Has P (statement n)
  forStatement : Has P (forStatement n)
  ifStatement : Has P (ifStatement n)
  whileStatement : Has P (whileStatement n)
  block : Has P (block n)
  declarations (stop : Token.Kind) (done : List Stmt) : Has P (declarations n stop done)

private theorem programs_have (n : Nat) : ProgramsHave P n := by
  induction n with
  | zero =>
    have failed (α : Type) (cause : SyntaxError) : Has P (fail cause : Rule α) := inferInstance
    constructor
    case declaration => exact inferInstanceAs (Has P (recover (fail _)))
    all_goals intros; exact failed _ _
  | succ n ih =>
    obtain ⟨_, _, _, _, _, _, _, _, _, _⟩ := ih
    constructor
    case declaration =>
      unfold declaration
      infer_instance
    case classDeclaration =>
      unfold classDeclaration
      infer_instance
    case methods =>
      intro done
      unfold methods
      infer_instance
    case function =>
      intro kind
      unfold function
      -- too long for one search for an instance
      refine .bind inferInstance fun functionName => .bind inferInstance fun _ => ?_
      refine .bind inferInstance fun empty => ?_
      split <;> infer_instance
    case statement =>
      unfold statement
      refine .bind inferInstance fun t => ?_
      split <;> infer_instance
    case forStatement =>
      unfold forStatement
      -- too long for one search for an instance
      refine .bind inferInstance fun _ => .bind inferInstance fun initializer => ?_
      infer_instance
    case ifStatement =>
      unfold ifStatement
      infer_instance
    case whileStatement =>
      unfold whileStatement
      infer_instance
    case block =>
      unfold block
      infer_instance
    case declarations =>
      intro stop done
      unfold declarations
      refine .bind inferInstance fun stopped => .bind inferInstance fun ended => ?_
      split
      · infer_instance
      · -- a declaration that has failed gives nothing
        refine .bind inferInstance fun s => ?_
        split <;> infer_instance

section

variable (n : Nat)

instance : Has P (declaration n) := (programs_have n).declaration

instance : Has P (classDeclaration n) := (programs_have n).classDeclaration

instance (done : List FunctionDecl) : Has P (methods n done) :=
  (programs_have n).methods done

instance (kind : FunctionKind) : Has P (function n kind) := (programs_have n).function kind

instance : Has P (statement n) := (programs_have n).statement

instance : Has P (forStatement n) := (programs_have n).forStatement

instance : Has P (ifStatement n) := (programs_have n).ifStatement

instance : Has P (whileStatement n) := (programs_have n).whileStatement

instance : Has P (block n) := (programs_have n).block

instance (stop : Token.Kind) (done : List Stmt) : Has P (declarations n stop done) :=
  (programs_have n).declarations stop done

end

end Rules

end Grammar

end Lox
