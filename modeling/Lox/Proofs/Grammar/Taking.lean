import Lox.Proofs.Grammar.MirrorPrograms

/-!
# Rules take tokens

A rule for expressions that succeeds has taken a token, but for those that go on from a tree. A declaration
takes a token whether or not it succeeds.
-/

namespace Lox

namespace Grammar

open Rule

/-- A rule that has taken a token when it succeeds from the state. -/
def TakesFrom {α : Type} (x : Rule α) (s : State) : Prop :=
  ∀ a s', x s = .ok a s' → s'.rest.length < s.rest.length

theorem takesFrom_take {α : Type} {f : Unit → Rule α} {s : State} (more : s.head.kind ≠ .eof)
    (_ : Advances (f ())) : TakesFrom (take >>= f) s := by
  intro a s' ran
  obtain ⟨_, s₁, first, next⟩ := bind_eq_ok ran
  cases first
  refine Nat.lt_of_le_of_lt (Advances.ok next).rest.length_le ?_
  rw [State.rest_eq_cons more]
  exact Nat.lt_succ_self _

theorem takes_peek {α : Type} {f : Token → Rule α} (each : ∀ s, TakesFrom (f s.head) s) :
    Takes (peek >>= f) := ⟨each⟩

section

variable (n : Nat)

instance : Takes (primary n) := by
  cases n with
  | zero => exact inferInstanceAs (Takes (fail _))
  | succ n =>
    unfold primary
    refine takes_peek fun s => ?_
    have more {kind : Token.Kind} [Inner kind] (seen : s.head.kind = kind) : s.head.kind ≠ .eof :=
      Inner.ne_of_eq seen
    split
    case h_10 => exact fun a s' ran => by cases ran
    all_goals exact takesFrom_take (more ‹_›) inferInstance

instance : Takes (prefixed n) := by
  induction n with
  | zero => exact inferInstanceAs (Takes (fail _))
  | succ n ih =>
    unfold prefixed
    refine takes_peek fun s => ?_
    split
    · rename_i operator
      refine takesFrom_take (fun eof => ?_) inferInstance
      rw [eof] at operator
      cases operator
    · exact Takes.fewer s

/-- Within the bound `n`, the rules that start with an operand take a token. -/
private structure OperandsTake (n : Nat) : Prop where
  joined (level : Level) : Takes (joined n level)
  operand (level : Level) : Takes (operand n level)

private theorem operands_take (n : Nat) : OperandsTake n := by
  induction n with
  | zero => constructor <;> intros <;> exact inferInstanceAs (Takes (fail _))
  | succ n ih =>
    obtain ⟨_, _⟩ := ih
    constructor
    case joined =>
      intro level
      unfold joined
      infer_instance
    case operand =>
      intro level
      unfold operand
      split <;> infer_instance

instance (level : Level) : Takes (joined n level) := (operands_take n).joined level

instance (level : Level) : Takes (operand n level) := (operands_take n).operand level

instance : Takes (expression n) := by
  cases n with
  | zero => exact inferInstanceAs (Takes (fail _))
  | succ n =>
    unfold expression
    refine .bind inferInstance fun target => ?_
    cases target <;> infer_instance

end

/-! ### Declarations take tokens -/

theorem synchronize_length_lt {t : Token} {rest : List Token} (more : t.kind ≠ .eof) :
    (synchronize (t :: rest)).length < (t :: rest).length := by
  rw [synchronize, if_neg more]
  exact Nat.lt_succ_of_le (nextStatement_suffix _ _).length_le

theorem Rule.recover_ok {α : Type} {x : Rule α} {s s' : State} {a : α} (ran : x s = .ok a s') :
    recover x s = .ok (some a) s' := by
  simp only [recover, ran]

theorem Rule.recover_error {α : Type} {x : Rule α} {s s' : State} {d : Diagnostic}
    (ran : x s = .error d s') :
    recover x s = .ok none { s'.note d with rest := synchronize s'.rest } := by
  simp only [recover, ran]
  rfl

/-- A rule that is recovered from takes a token also if it fails: at the end it has taken one before, and
elsewhere the token that it fails at is skipped. -/
theorem Rule.recover_takes {α : Type} {x : Rule α} [Advances x] [Takes x] {s s' : State}
    {result : Option α} (started : s.head.kind ≠ .eof) (ran : recover x s = .ok result s') :
    s'.rest.length < s.rest.length := by
  cases left : x s with
  | ok a s₁ =>
    rw [recover_ok left] at ran
    cases ran
    exact Takes.fewer s a s' left
  | error d s₁ =>
    rw [recover_error left] at ran
    cases ran
    have onward := Advances.onward (x := x) s
    rw [left] at onward
    have taken : s₁.rest.length ≤ s.rest.length := onward.rest.length_le
    by_cases ended : s₁.head.kind = .eof
    · refine Nat.lt_of_le_of_lt (synchronize_suffix _).length_le (Nat.lt_of_le_of_ne taken fun same => ?_)
      have unmoved : s₁.rest = s.rest := onward.rest.eq_of_length same
      rw [State.head, unmoved] at ended
      exact started ended
    · refine Nat.lt_of_lt_of_le ?_ taken
      change (synchronize s₁.rest).length < _
      rw [State.rest_eq_cons ended]
      exact synchronize_length_lt ended

/-- A declaration that is not at the end takes a token, also if it fails. -/
theorem declaration_takes {n : Nat} {s s' : State} {result : Option Stmt} (started : s.head.kind ≠ .eof)
    (ran : declaration n s = .ok result s') : s'.rest.length < s.rest.length := by
  cases n with
  | zero => exact recover_takes (x := fail .noExpression) started ran
  | succ n =>
    unfold declaration at ran
    exact recover_takes started ran

/-- One round of reading declarations. -/
theorem declarations_succ (n : Nat) (stop : Token.Kind) (done : List Stmt) (s : State) :
    declarations (n + 1) stop done s =
      if s.head.kind = stop ∨ s.head.kind = .eof then .ok done.reverse s
      else (declaration n >>= fun result => declarations n stop (result.toList ++ done)) s := by
  conv => lhs; unfold declarations
  change (if (decide (s.head.kind = stop) || s.atEnd) = true then pure done.reverse else _ :
    Rule (List Stmt)) s = _
  by_cases finished : s.head.kind = stop ∨ s.head.kind = .eof
  · rw [if_pos finished, if_pos (by simpa [State.atEnd] using finished)]
    rfl
  · rw [if_neg finished, if_neg (by simpa [State.atEnd] using finished)]
    refine congrFun (congrArg (declaration n >>= ·) (funext fun result => ?_)) s
    cases result <;> rfl

end Grammar

end Lox
