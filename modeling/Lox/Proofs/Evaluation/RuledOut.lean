import Lox.Eval
import Lox.Proofs.Syntax.WellFormed

/-!
# Faults that resolution rules out

The faults that stand for a mistake of the resolver or the parser and not of the program: a distance that
leads nowhere, a name that is not bound where it was found, `super` outside a method, an operator that is
none. An operator of a well-formed tree brings about none of them.
-/

namespace Lox

/-- A fault that no program with well-scoped trees can bring about. -/
def Fault.RuledOut : Fault → Prop
  | .chainTooShort _ | .unboundInFrame _ | .superNotClass | .superOutsideClass
  | .superOutsideMethod | .invalidPrefixOperator _ | .invalidOperator _ => True
  | .undefinedVariable name => ¬ IsPlain name
  | _ => False

/-- A halt for a fault that is ruled out. -/
def Halt.RuledOut : Halt → Prop
  | .runtime e => e.fault.RuledOut
  | _ => False

/-! ### Operators -/

theorem applyPrefix_possible {operator : Token} (valid : Grammar.isPrefixOperator operator.kind)
    {value : Value} {cause : Fault} (failed : applyPrefix operator value = .error cause) :
    ¬ cause.RuledOut := by
  unfold applyPrefix at failed
  split at failed
  · cases failed
  · split at failed
    · cases failed
    · cases failed
      exact id
  · rename_i noBang noMinus
    unfold Grammar.isPrefixOperator at valid
    split at valid
    · exact absurd ‹_› noBang
    · exact absurd ‹_› noMinus
    · cases valid

theorem applyToNumbers_possible {operator : Token} (valid : isBinaryOperator operator.kind)
    (noEqual : operator.kind ≠ .symbol .equalEqual) (noUnequal : operator.kind ≠ .symbol .bangEqual)
    (noPlus : operator.kind ≠ .symbol .plus) (x y : Float) :
    ∃ value, applyToNumbers operator x y = .ok value := by
  obtain ⟨kind, lexeme, line⟩ := operator
  cases kind with
  | symbol s =>
    cases s
    case equalEqual => exact absurd rfl noEqual
    case bangEqual => exact absurd rfl noUnequal
    case plus => exact absurd rfl noPlus
    all_goals first | exact ⟨_, rfl⟩ | cases valid
  | _ => cases valid

theorem applyBinary_possible {operator : Token} (valid : isBinaryOperator operator.kind)
    {left right : Value} {cause : Fault} (failed : applyBinary operator left right = .error cause) :
    ¬ cause.RuledOut := by
  unfold applyBinary at failed
  split at failed
  · cases failed
  · cases failed
  · split at failed <;> cases failed
    exact id
  · rename_i noEqual noUnequal noPlus
    split at failed
    · rename_i x y
      obtain ⟨value, applied⟩ := applyToNumbers_possible valid noEqual noUnequal noPlus x y
      rw [applied] at failed
      cases failed
    · cases failed
      exact id
end Lox
