import Lox.Proofs.Evaluation.Induction
import Lox.Session

/-!
# Restoration of the place of evaluation

An evaluation moves the current frame into blocks, calls and classes and counts the calls in
progress. However it ends, with a value, a `return`, a fault at any depth or an error of the sink,
it leaves the machine in the frame and at the depth that it found, with the same global frame and
the same distances. So a session stands at top level between any two requests.
-/

namespace Lox

/-- The machine that a run leaves behind, whether it gives a value or halts. -/
def finalMachine {α : Type} : EStateM.Result Halt Machine α → Machine
  | .ok _ m => m
  | .error _ m => m

/-- Two machines that agree on the current and the global frame and on the depth of calls. -/
structure Machine.SameFooting (m m' : Machine) : Prop where
  current : m'.current = m.current
  globals : m'.globals = m.globals
  callDepth : m'.callDepth = m.callDepth

theorem Machine.SameFooting.trans {m₁ m₂ m₃ : Machine} (first : m₁.SameFooting m₂)
    (second : m₂.SameFooting m₃) : m₁.SameFooting m₃ :=
  ⟨second.current.trans first.current, second.globals.trans first.globals,
    second.callDepth.trans first.callDepth⟩

/-- Two machines that also agree on the distances of names. -/
structure Machine.SamePlace (m m' : Machine) : Prop extends m.SameFooting m' where
  distances : m'.distances = m.distances

theorem Machine.SamePlace.refl (m : Machine) : m.SamePlace m := ⟨⟨rfl, rfl, rfl⟩, rfl⟩

theorem Machine.SamePlace.trans {m₁ m₂ m₃ : Machine} (first : m₁.SamePlace m₂)
    (second : m₂.SamePlace m₃) : m₁.SamePlace m₃ :=
  ⟨first.toSameFooting.trans second.toSameFooting, second.distances.trans first.distances⟩

namespace Run

variable {α β : Type}

/-- A run that leaves every machine at the place where it found it. -/
def Restores (x : Run α) : Prop := ∀ m : Machine, m.SamePlace (finalMachine (x m))

/-! ### Composition -/

theorem Restores.bind {x : Run α} {f : α → Run β} (first : Restores x)
    (next : ∀ a, Restores (f a)) : Restores (x >>= f) := by
  intro m
  have moved := first m
  change m.SamePlace (finalMachine (EStateM.bind x f m))
  unfold EStateM.bind
  cases result : x m with
  | ok a m' =>
    rw [result] at moved
    exact moved.trans (next a m')
  -- nothing follows a run that has halted
  | error halt m' =>
    rw [result] at moved
    exact moved

/-- The frame before is current again, also after a halt, and the body leaves the rest in place. -/
theorem Restores.inFrame {body : Run α} (within : Restores body) (frame : FrameId) :
    Restores (inFrame frame body) := by
  intro m
  have moved := within { m with current := frame }
  unfold Run.inFrame
  dsimp only
  cases result : body { m with current := frame } with
  | ok a m' =>
    rw [result] at moved
    exact ⟨⟨rfl, moved.globals, moved.callDepth⟩, moved.distances⟩
  | error halt m' =>
    rw [result] at moved
    exact ⟨⟨rfl, moved.globals, moved.callDepth⟩, moved.distances⟩

/-- The depth is raised for the body only. A call that is too deep moves nothing. -/
theorem Restores.nested {body : Run α} (within : Restores body) (line : Nat) :
    Restores (nested line body) := by
  intro m
  unfold Run.nested
  split
  · exact .refl m
  · have moved := within { m with callDepth := m.callDepth + 1 }
    cases result : body { m with callDepth := m.callDepth + 1 } with
    | ok a m' =>
      rw [result] at moved
      -- the body has left the raised depth, which is lowered by one again
      have depth : m'.callDepth = m.callDepth + 1 := moved.callDepth
      exact ⟨⟨moved.current, moved.globals, by simp [finalMachine, depth]⟩, moved.distances⟩
    | error halt m' =>
      rw [result] at moved
      have depth : m'.callDepth = m.callDepth + 1 := moved.callDepth
      exact ⟨⟨moved.current, moved.globals, by simp [finalMachine, depth]⟩, moved.distances⟩

/-! ### Steps that stay in place -/

/-- The steps leave a machine in place, and so do the operations composed of them. -/
theorem Restores.steps : StepClosed fun _ => Restores where
  pure _ m := .refl m
  fault _ _ _ m := .refl m
  ask _ m := .refl m
  onStore _ _ := ⟨⟨rfl, rfl, rfl⟩, rfl⟩
  bind := Restores.bind
  inFrame := Restores.inFrame

theorem restores_print (value : Value) : Restores (print value) := by
  intro m
  unfold print
  dsimp only
  split <;> exact ⟨⟨rfl, rfl, rfl⟩, rfl⟩

theorem restores_flush : Restores flush := by
  intro m
  unfold flush
  split <;> exact .refl m

/-- All that an evaluation is made of leaves a machine in place. -/
theorem Restores.closed : EvalClosed fun _ => Restores where
  toStepClosed := Restores.steps
  exhausted _ m := .refl m
  nested := Restores.nested
  print := restores_print
  readClock _ := ⟨⟨rfl, rfl, rfl⟩, rfl⟩
  flush := restores_flush

end Run

/-! ### Evaluations -/

open Run

/-- Every task leaves the machine in place. -/
theorem Task.restores (n : Nat) (t : Task) : Restores (t.perform n) := Restores.closed.task n t

/-- Statements at top level leave the machine in place. -/
theorem runFrom_restores (fuel : Nat) (last : Value) (statements : List Stmt) :
    Restores (runFrom fuel last statements) :=
  Restores.closed.runFrom fuel last statements

theorem runProgram_restores (fuel : Nat) (statements : List Stmt) :
    Restores (runProgram fuel statements) :=
  Restores.closed.runProgram fuel statements

/-! ### Sessions -/

/-- Something that a session is asked to do, with a bound on the depth of evaluation. -/
inductive Request where
  | run (fuel : Nat) (source : String)
  | evaluate (fuel : Nat) (source : String)
  | check (source : String)

namespace Session

/-- The session after a request, whether it was met or failed. -/
def after (s : Session) : Request → Session
  | .run fuel source => (s.run fuel source).2
  | .evaluate fuel source => (s.evaluate fuel source).2
  | .check source => (s.check source).2

/-- The session after requests in order. -/
def afterAll (s : Session) (requests : List Request) : Session := requests.foldl after s

/-- Whatever an evaluation does, the session stays where the evaluation began. -/
private theorem perform_footing {α : Type} {run : Run α} (restores : Restores run) (m : Machine)
    (nextId : NodeId) : m.SameFooting (perform m nextId run).2.machine := by
  have moved := restores m
  unfold perform
  split <;> rename_i result <;> rw [result] at moved <;> exact moved.toSameFooting

private theorem recordAll_footing (m : Machine) (bindings : List Binding) :
    m.SameFooting (m.recordAll bindings) := by
  unfold Machine.recordAll
  induction bindings generalizing m with
  | nil => exact ⟨rfl, rfl, rfl⟩
  | cons b rest ih =>
    have first : m.SameFooting (m.record b) := ⟨rfl, rfl, rfl⟩
    exact first.trans (ih (m.record b))

theorem run_footing (fuel : Nat) (s : Session) (source : String) :
    s.machine.SameFooting (s.run fuel source).2.machine := by
  unfold run
  dsimp only
  split
  · exact ⟨rfl, rfl, rfl⟩
  · exact (recordAll_footing s.machine _).trans (perform_footing (runProgram_restores fuel _) _ _)

theorem evaluate_footing (fuel : Nat) (s : Session) (source : String) :
    s.machine.SameFooting (s.evaluate fuel source).2.machine := by
  unfold evaluate
  dsimp only
  split
  · exact ⟨rfl, rfl, rfl⟩
  · exact perform_footing (Task.restores fuel (.evaluate _)) _ _

/-- A request leaves a session in the frame and at the depth where it found it. -/
theorem after_footing (s : Session) (r : Request) :
    s.machine.SameFooting (s.after r).machine := by
  cases r with
  | run fuel source => exact run_footing fuel s source
  | evaluate fuel source => exact evaluate_footing fuel s source
  | check source =>
    rw [after, check_machine]
    exact ⟨rfl, rfl, rfl⟩

theorem afterAll_footing (s : Session) (requests : List Request) :
    s.machine.SameFooting (s.afterAll requests).machine := by
  unfold afterAll
  induction requests generalizing s with
  | nil => exact ⟨rfl, rfl, rfl⟩
  | cons r rest ih => exact (after_footing s r).trans (ih (s.after r))

end Session

/-- However a statement, a block in a given frame, an expression or a call ends, the current frame,
the global frame, the depth of calls and the distances are what they were. So a session always stands
in the global frame at depth zero when it takes the next request, also after failed ones. -/
theorem place_restored_on_every_exit :
    (∀ (n : Nat) (m : Machine),
      (∀ s, m.SamePlace (finalMachine (execute n s m))) ∧
      (∀ frame body, m.SamePlace (finalMachine (inFrame frame (executeAll n body) m))) ∧
      (∀ e, m.SamePlace (finalMachine (evaluate n e m))) ∧
      (∀ callee line arguments, m.SamePlace (finalMachine (call n callee line arguments m)))) ∧
    (∀ (s : Session) (r : Request), s.machine.SameFooting (s.after r).machine) ∧
    ∀ (sink : Sink) (clock : Nat → Float) (requests : List Request),
      let m := ((Session.start sink clock).afterAll requests).machine
      m.current = m.globals ∧ m.callDepth = 0 := by
  refine ⟨fun n m => ⟨fun s => ?_, fun frame body => ?_, fun e => ?_, fun callee line args => ?_⟩,
    Session.after_footing, fun sink clock requests => ?_⟩
  · exact Task.restores n (.execute s) m
  · exact Restores.inFrame (Task.restores n (.executeAll body)) frame m
  · exact Task.restores n (.evaluate e) m
  · exact Task.restores n (.call callee line args) m
  · -- a session starts in the global frame at depth zero, and no request moves it
    have footing := Session.afterAll_footing (Session.start sink clock) requests
    exact ⟨footing.current.trans footing.globals.symm, footing.callDepth⟩

end Lox
