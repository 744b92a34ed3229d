import Lox.Proofs.Heap.Growth
import Lox.Proofs.Lexical.Programs

/-!
# The course of a request

A request comes to tasks, each on the machine that has come about by then. What holds of every change that
an evaluation makes, holds from the session before the request on, through every task that it comes to, to
the session after it.
-/

namespace Lox

namespace Session

/-- The session, asked for the request, comes to carry the task out on the machine within a bound. A source
that is not accepted comes to nothing, and neither does a check. -/
inductive ComesTo (s : Session) : Request → Nat → Machine → Task → Prop
  | run {fuel : Nat} {source : String} {program : Accepted} {k : Nat} {m : Machine} {t : Task}
    (accepted : (Source.accept source s.nextId).1 = .ok program)
    (reaches : ProgramReaches fuel (s.machine.recordAll program.bindings) program.statements k m t) :
    ComesTo s (.run fuel source) k m t
  | evaluate {fuel : Nat} {source : String} {e : Expr} {k : Nat} {m : Machine} {t : Task}
    (read : (Source.soleExpression source s.nextId).toExcept = .ok e)
    (reaches : Task.Reaches fuel s.machine (.evaluate e) k m t) :
    ComesTo s (.evaluate fuel source) k m t

/-! ### What a request leaves behind -/

theorem perform_snd {α : Type} (m : Machine) (nextId : NodeId) (run : Run α) :
    (perform m nextId run).2 = ⟨finalMachine (run m), nextId⟩ := by
  unfold perform
  cases run m <;> rfl

variable {s : Session}

/-- An accepted program is run with its bindings on record. -/
theorem after_run_of_accepted {source : String} {program : Accepted}
    (accepted : (Source.accept source s.nextId).1 = .ok program) (fuel : Nat) :
    (s.after (.run fuel source)).machine =
      finalMachine (runProgram fuel program.statements (s.machine.recordAll program.bindings)) := by
  unfold after Session.run
  dsimp only
  rw [accepted]
  exact congrArg Session.machine (perform_snd _ _ _)

theorem after_run_of_rejected {source : String} {diagnostics : List Diagnostic}
    (rejected : (Source.accept source s.nextId).1 = .error diagnostics) (fuel : Nat) :
    (s.after (.run fuel source)).machine = s.machine := by
  unfold after Session.run
  dsimp only
  rw [rejected]

theorem after_evaluate_of_read {source : String} {e : Expr}
    (read : (Source.soleExpression source s.nextId).toExcept = .ok e) (fuel : Nat) :
    (s.after (.evaluate fuel source)).machine = finalMachine (Lox.evaluate fuel e s.machine) := by
  unfold after Session.evaluate
  dsimp only
  rw [read]
  exact congrArg Session.machine (perform_snd _ _ _)

theorem after_evaluate_of_rejected {source : String} {diagnostics : List Diagnostic}
    (rejected : (Source.soleExpression source s.nextId).toExcept = .error diagnostics)
    (fuel : Nat) : (s.after (.evaluate fuel source)).machine = s.machine := by
  unfold after Session.evaluate
  dsimp only
  rw [rejected]

/-! ### From the session before to the session after -/

section

variable {R : Machine → Machine → Prop} (E : Evolution R)
  (records : ∀ (m : Machine) (bindings : List Binding), R m (m.recordAll bindings))

include E records

/-- A request goes along with the relation, whatever becomes of it. -/
theorem evolves (s : Session) (r : Request) : R s.machine (s.after r).machine := by
  cases r with
  | run fuel source =>
    cases verdict : (Source.accept source s.nextId).1 with
    | error diagnostics =>
      rw [after_run_of_rejected verdict]
      exact E.refl _
    | ok program =>
      rw [after_run_of_accepted verdict]
      exact E.trans (records _ _) (E.closed.runProgram fuel _ _)
  | evaluate fuel source =>
    cases read : (Source.soleExpression source s.nextId).toExcept with
    | error diagnostics =>
      rw [after_evaluate_of_rejected read]
      exact E.refl _
    | ok e =>
      rw [after_evaluate_of_read read]
      exact E.closed.task fuel (.evaluate e) _
  | check source =>
    rw [after, check_machine]
    exact E.refl _

/-- What a request comes to lies between the session before it and the session after it. -/
theorem ComesTo.within {r : Request} {k : Nat} {m : Machine} {t : Task} (comes : s.ComesTo r k m t) :
    R s.machine m ∧ R m (finalMachine (t.perform k m)) ∧
      R (finalMachine (t.perform k m)) (s.after r).machine := by
  cases comes with
  | run accepted reaches =>
    obtain ⟨before, within, after⟩ := E.within_program reaches
    rw [after_run_of_accepted accepted]
    exact ⟨E.trans (records _ _) before, within, after⟩
  | evaluate read reaches =>
    rw [after_evaluate_of_read read]
    exact ⟨E.before_of_reaches reaches, E.closed.task k t m, E.after_of_reaches reaches⟩

theorem evolves_all (s : Session) (requests : List Request) :
    R s.machine (s.afterAll requests).machine := by
  unfold afterAll
  induction requests generalizing s with
  | nil => exact E.refl _
  | cons r rest ih => exact E.trans (evolves E records s r) (ih (s.after r))

end

/-! ### The heap -/

/-- Recording distances leaves the store as it is. -/
theorem grows_recordAll (m : Machine) (bindings : List Binding) :
    m.store.Grows (m.recordAll bindings).store := by
  rw [Lexical.recordAll_eq]
  exact .refl _

/-- The heap only grows in the course of a request. -/
theorem ComesTo.grows {r : Request} {k : Nat} {m : Machine} {t : Task} (comes : s.ComesTo r k m t) :
    s.machine.store.Grows m.store ∧ m.store.Grows (finalMachine (t.perform k m)).store ∧
      (finalMachine (t.perform k m)).store.Grows (s.after r).machine.store :=
  comes.within heap_evolution grows_recordAll

/-- In every session the global frame is there and links to no other. -/
theorem global_root (sink : Sink) (clock : Nat → Float) (requests : List Request) :
    let m := ((Session.start sink clock).afterAll requests).machine
    ∃ frame, m.store.frameAt? m.globals = some frame ∧ frame.enclosing = none := by
  have grows := evolves_all heap_evolution grows_recordAll (Session.start sink clock) requests
  have globals := (afterAll_footing (Session.start sink clock) requests).globals
  obtain ⟨frame, found, link, -⟩ := grows.frames (Store.frameAt?_addFrame_self ∅ _ none)
  exact ⟨frame, by rw [globals]; exact found, link⟩

/-! ### The place -/

/-- What a request comes to stands among the same globals, and has the distances on record that are on
record from then on. -/
theorem ComesTo.place {r : Request} {k : Nat} {m : Machine} {t : Task} (comes : s.ComesTo r k m t) :
    m.globals = s.machine.globals ∧ m.distances = (s.after r).machine.distances := by
  cases comes with
  | run accepted reaches =>
    obtain ⟨⟨globals, -⟩, ⟨-, within⟩, ⟨-, after⟩⟩ := place_evolution.within_program reaches
    rw [after_run_of_accepted accepted, after, within]
    rw [Lexical.recordAll_eq] at globals
    exact ⟨globals, rfl⟩
  | @evaluate fuel _ e k m t read reaches =>
    obtain ⟨globals, before⟩ := place_evolution.before_of_reaches reaches
    obtain ⟨-, whole⟩ := place_evolution.closed.task fuel (.evaluate e) s.machine
    rw [after_evaluate_of_read read, before]
    exact ⟨globals, whole.symm⟩

end Session

end Lox
