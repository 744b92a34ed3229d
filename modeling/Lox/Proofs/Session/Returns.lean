import Mathlib
import Lox.Proofs.Evaluation.Returning
import Lox.Proofs.Heap.Declared

/-!
# Returns stay in their bodies

The walk over a program rejects a `return` outside every body and a returned value in an initializer. This is
what the evaluation relies on: at top level nothing returns, a body returns only by a `return` of its own,
which is the last that is done in it, and no value that an initializer returns is lost.
-/

namespace Lox

open Run

/-- Of an initializer that a session comes to, nothing but `nil` is ever returned. -/
theorem Session.ComesTo.initializer_returns_nil {sink : Sink} {clock : Nat → Float}
    {requests : List Request} {r : Request} {k : Nat} {m : Machine} {closure : Closure}
    {arguments : List Value}
    (comes : ((Session.start sink clock).afterAll requests).ComesTo r k m (.callClosure closure arguments))
    (initializer : closure.isInitializer) {n : Nat} {m₁ m₂ : Machine} {v : Value}
    (ran : executeAll n closure.declaration.body m₁ = .ok (.return v) m₂) : v = .nil := by
  have accepts {source : String} {firstId : NodeId} {program : Accepted}
      (accepted : (Source.accept source firstId).1 = .ok program) :
      ∀ p ∈ statementFunctions program.statements, FunctionDecl.ReturnsWell p :=
    (Source.accept_returns accepted).2
  have kind := (comes.meets accepts (Session.meets_afterAll accepts sink clock requests)).1
  obtain ⟨_, n', _, line, value, _, -, member, done, -⟩ := (returning n).executeAll ran
  have valueless : value = none := kind _ (.head _) initializer (line, value) member
  subst valueless
  cases n' <;> cases done
  rfl

/-- Returns are sound. No statement of an accepted program returns at top level, wherever it is carried out.
A body that returns a value ends with a `return` that stands in it, which has evaluated this value, and
begins no statement, test or rest of the body after that: its course lists all that blocks, branches, loops
and lists of statements begin. And whatever a session has been asked before, the
initializers that it comes to return nothing but `nil`. -/
theorem returns_are_sound :
    (∀ source firstId program, (Source.accept source firstId).1 = .ok program →
      ∀ s ∈ program.statements, ∀ n m flow m', execute n s m = .ok flow m' → ∃ v, flow = .next v) ∧
    (∀ n body m v m', executeAll n body m = .ok (.return v) m' →
      ∃ earlier k m₁ line value m₂,
        (Task.executeAll body).course n m = earlier ++ [⟨k + 1, m₁, .execute (.return line value)⟩] ∧
        (line, value) ∈ statementReturns body ∧ evaluateOptional k value m₁ = .ok v m₂ ∧
        m₂.Elsewhere m') ∧
    (∀ n m m' t t', t.isControl → ((m', t') ∈ t.parts n m ↔ Task.Begins n m t m' t')) ∧
    (∀ sink clock requests r k m closure arguments,
      ((Session.start sink clock).afterAll requests).ComesTo r k m (.callClosure closure arguments) →
      closure.isInitializer → ∀ n m₁ v m₂,
        executeAll n closure.declaration.body m₁ = .ok (.return v) m₂ → v = .nil) := by
  refine ⟨fun source firstId program accepted s member n m flow m' done => ?_,
    fun n body m v m' done => (returning n).executeAll done,
    fun n m m' t t' => Task.mem_parts_iff,
    fun sink clock requests r k m closure arguments comes initializer n m₁ v m₂ ran =>
      comes.initializer_returns_nil initializer ran⟩
  refine falls_through ?_ done
  have none := (Source.accept_returns accepted).1
  rw [List.eq_nil_iff_forall_not_mem] at none ⊢
  exact fun r inside => none r (mem_statementReturns member inside)

namespace LoopReturn

/-- A loop without end that returns from a block in it, and a statement after it. -/
def body : List Stmt :=
  [.while (.literal (.bool true)) (.block [.return 1 (some (.literal (.bool false)))]),
    .print (.literal .nil)]

def machine : Machine := (Session.start .unlimited fun _ => 0).machine

end LoopReturn

open LoopReturn in
/-- The `return` is the last that is done. -/
theorem return_ends_its_body : ∃ earlier k m line value,
    (Task.executeAll body).course 9 machine = earlier ++ [⟨k + 1, m, .execute (.return line value)⟩] ∧
      (line, value) ∈ statementReturns body := by
  have ran : executeAll 9 body machine =
      .ok (.return (.bool false)) (finalMachine (executeAll 9 body machine)) := by cbv
  obtain ⟨-, ends, -⟩ := returns_are_sound
  obtain ⟨earlier, k, m, line, value, -, course, member, -⟩ := ends 9 body machine _ _ ran
  exact ⟨earlier, k, m, line, value, course, member⟩

end Lox
