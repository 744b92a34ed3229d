import Lox.Proofs.Evaluation.Evolution
import Lox.Proofs.Evaluation.Halting

/-!
# Evaluations whose output is cut

A sink that has room for so many bytes and one that never fails are in step as long as what has been printed
fits. The first print that does not fit fails, and nothing catches its error: the evaluation halts there,
having printed as much of the other one's text as there is room for.
-/

namespace Lox

/-! ### What a sink keeps -/

/-- The second sink works as the first one does, and has taken the same bytes before any others. -/
structure Sink.Takes (sink sink' : Sink) : Prop where
  failure? : sink'.failure? = sink.failure?
  flushFails : sink'.flushFails = sink.flushFails
  more : ∃ bytes, sink'.written = sink.written ++ bytes

namespace Sink

theorem Takes.refl (sink : Sink) : sink.Takes sink :=
  ⟨rfl, rfl, .empty, ByteArray.append_empty.symm⟩

theorem Takes.trans {sink₁ sink₂ sink₃ : Sink} (first : sink₁.Takes sink₂)
    (next : sink₂.Takes sink₃) : sink₁.Takes sink₃ := by
  obtain ⟨bytes, taken⟩ := first.more
  obtain ⟨bytes', taken'⟩ := next.more
  refine ⟨next.failure?.trans first.failure?, next.flushFails.trans first.flushFails,
    bytes ++ bytes', ?_⟩
  rw [taken', taken, ByteArray.append_assoc]

theorem takes_write (sink : Sink) (bytes : ByteArray) : sink.Takes (sink.write bytes).2 := by
  unfold write
  split
  · exact ⟨rfl, rfl, bytes, rfl⟩
  · exact ⟨rfl, rfl, _, rfl⟩

/-- A sink that takes everything. -/
structure Unfailing (sink : Sink) : Prop where
  failure? : sink.failure? = roomFailure? none
  flushFails : sink.flushFails = false

theorem Unfailing.takes {sink sink' : Sink} (unfailing : sink.Unfailing)
    (takes : sink.Takes sink') : sink'.Unfailing :=
  ⟨takes.failure?.trans unfailing.failure?, takes.flushFails.trans unfailing.flushFails⟩

/-- The sink with room for so many bytes in all. -/
def limit (room : Nat) (sink : Sink) : Sink := { sink with failure? := roomFailure? (some room) }

theorem Unfailing.write {sink : Sink} (unfailing : sink.Unfailing) (bytes : ByteArray) :
    sink.write bytes =
      (none, { sink with written := sink.written ++ bytes, writes := sink.writes + 1 }) := by
  unfold Sink.write
  rw [unfailing.failure?]
  rfl

/-- What fits is taken. -/
theorem write_limit_of_le {room : Nat} {sink : Sink} {bytes : ByteArray}
    (fits : sink.written.size + bytes.size ≤ room) :
    (sink.limit room).write bytes = (none,
      limit room { sink with written := sink.written ++ bytes, writes := sink.writes + 1 }) := by
  simp only [Sink.write, limit, roomFailure?, if_pos fits]

/-- Of what does not fit, the part that does is taken. -/
theorem write_limit_of_lt {room : Nat} {sink : Sink} {bytes : ByteArray}
    (fits : sink.written.size ≤ room) (beyond : room < sink.written.size + bytes.size) :
    ∃ sink', (sink.limit room).write bytes = (some .full, sink') ∧
      sink'.written = (sink.written ++ bytes).extract 0 room := by
  simp only [Sink.write, limit, roomFailure?, if_neg (Nat.not_le.mpr beyond)]
  refine ⟨_, rfl, ?_⟩
  have whole : sink.written.extract 0 room = sink.written := by
    rw [← Nat.max_eq_left fits, ByteArray.extract_zero_max_size]
  rw [ByteArray.extract_append, whole, Nat.zero_sub]

end Sink

/-- The sink takes more and more in the course of an evaluation. -/
theorem sink_evolution : Evolution fun m m' => m.sink.Takes m'.sink where
  trans := .trans
  elsewhere := by
    rintro m _ ⟨_, _, rfl⟩
    exact .refl m.sink
  store m _ _ := .refl m.sink
  write m := m.sink.takes_write
  readClock m := .refl m.sink

/-! ### In step until the first print that fails -/

/-- The machine with room for so many bytes in its sink. -/
def Machine.limit (room : Nat) (m : Machine) : Machine := { m with sink := m.sink.limit room }

namespace Run

variable {α β : Type} {room : Nat}

/-- How an evaluation with limited room ends where the one that has all the room ends so. -/
inductive Truncated (room : Nat) (result : EStateM.Result Halt Machine α) :
    EStateM.Result Halt Machine α → Prop
  | whole (fits : (finalMachine result).sink.written.size ≤ room) :
    Truncated room result (onMachine (.limit room) result)
  | cut {m' : Machine} (beyond : room < (finalMachine result).sink.written.size)
    (taken : m'.sink.written = (finalMachine result).sink.written.extract 0 room) :
    Truncated room result (.error (.sink .full) m')

/-- Limited room only truncates what the run prints. -/
structure Truncates (room : Nat) (x : Run α) : Prop where
  takes : Evolves (fun m m' => m.sink.Takes m'.sink) x
  inStep : ∀ m : Machine, m.sink.Unfailing → m.sink.written.size ≤ room →
    Truncated room (x m) (x (m.limit room))

/-- What is printed on changes nothing in what has been cut. -/
theorem extract_of_takes {sink sink' : Sink} (takes : sink.Takes sink')
    (beyond : room < sink.written.size) :
    room < sink'.written.size ∧ sink'.written.extract 0 room = sink.written.extract 0 room := by
  obtain ⟨bytes, taken⟩ := takes.more
  have none : bytes.extract (0 - sink.written.size) (room - sink.written.size) = .empty :=
    ByteArray.extract_eq_empty_iff.mpr (by omega)
  rw [taken, ByteArray.size_append, ByteArray.extract_append, none, ByteArray.append_empty]
  exact ⟨by omega, rfl⟩

theorem Truncates.bind {x : Run α} {f : α → Run β} (first : Truncates room x)
    (next : ∀ a, Truncates room (f a)) : Truncates room (x >>= f) := by
  refine ⟨sink_evolution.bind first.takes fun a => (next a).takes, fun m unfailing fits => ?_⟩
  have takes := first.takes m
  have inStep := first.inStep m unfailing fits
  cases ran : x m with
  | ok a m₁ =>
    rw [ran] at takes inStep
    rw [bind_of_ok ran]
    generalize other : x (m.limit room) = result at inStep
    cases inStep with
    | whole fits₁ =>
      rw [bind_of_ok other]
      exact (next a).inStep m₁ (unfailing.takes takes) fits₁
    | cut beyond taken =>
      -- what follows in the other run makes no difference to what has been cut
      obtain ⟨beyond', same⟩ := extract_of_takes ((next a).takes m₁) beyond
      rw [bind_of_error other]
      exact .cut beyond' (taken.trans same.symm)
  | error halt m₁ =>
    rw [ran] at inStep
    rw [bind_of_error ran]
    generalize other : x (m.limit room) = result at inStep
    cases inStep with
    | whole fits₁ =>
      rw [bind_of_error other]
      exact .whole fits₁
    | cut beyond taken =>
      rw [bind_of_error other]
      exact .cut beyond taken

/-- Moving a machine after the evaluation leaves its output as it is. -/
theorem Truncated.onMachine {result result' : EStateM.Result Halt Machine α}
    (truncated : Truncated room result result') {f : Machine → Machine}
    (same : ∀ m : Machine, (f m).sink = m.sink)
    (commutes : ∀ m : Machine, f (m.limit room) = (f m).limit room) :
    Truncated room (onMachine f result) (onMachine f result') := by
  have printed : (finalMachine (Run.onMachine f result)).sink = (finalMachine result).sink := by
    cases result <;> exact same _
  cases truncated with
  | whole fits =>
    have moved : Run.onMachine f (Run.onMachine (.limit room) result) =
        Run.onMachine (.limit room) (Run.onMachine f result) := by
      cases result <;> simp only [Run.onMachine, commutes]
    rw [moved]
    exact .whole (by rwa [printed])
  | cut beyond taken =>
    rw [← printed] at beyond taken
    exact .cut beyond (by rwa [same])

theorem Truncates.inFrame {body : Run α} (within : Truncates room body) (frame : FrameId) :
    Truncates room (inFrame frame body) := by
  refine ⟨sink_evolution.closed.inFrame within.takes frame, fun m unfailing fits => ?_⟩
  rw [inFrame_eq, inFrame_eq]
  exact (within.inStep { m with current := frame } unfailing fits).onMachine (fun _ => rfl)
    fun _ => rfl

theorem Truncates.nested {body : Run α} (within : Truncates room body) (line : Nat) :
    Truncates room (nested line body) := by
  refine ⟨sink_evolution.closed.nested within.takes line, fun m unfailing fits => ?_⟩
  by_cases shallow : m.callDepth < maxCallDepth
  · rw [nested_eq shallow, nested_eq (show (m.limit room).callDepth < maxCallDepth from shallow)]
    exact (within.inStep { m with callDepth := m.callDepth + 1 } unfailing fits).onMachine
      (fun _ => rfl) fun _ => rfl
  · rw [nested_eq_fault shallow,
      nested_eq_fault (show ¬ (m.limit room).callDepth < maxCallDepth from shallow)]
    exact .whole fits

/-- Both sinks take what fits. What does not is where the limited one fails. -/
theorem truncates_print (value : Value) : Truncates room (print value) := by
  refine ⟨sink_evolution.closed.print value, fun m unfailing fits => ?_⟩
  have whole := unfailing.write (m.store.text value ++ "\n").toUTF8
  rw [print, print, whole, show (m.limit room).store = m.store from rfl,
    show (m.limit room).sink = m.sink.limit room from rfl]
  generalize (m.store.text value ++ "\n").toUTF8 = bytes
  by_cases inside : m.sink.written.size + bytes.size ≤ room
  · rw [Sink.write_limit_of_le inside]
    exact .whole (ByteArray.size_append ▸ inside)
  · have beyond := Nat.not_le.mp inside
    obtain ⟨sink', failed, taken⟩ := Sink.write_limit_of_lt fits beyond
    rw [failed]
    exact .cut (ByteArray.size_append ▸ beyond) taken

theorem truncates_flush : Truncates room flush := by
  refine ⟨sink_evolution.closed.flush, fun m unfailing fits => ?_⟩
  have flushed : ∀ m : Machine, m.sink.flushFails = false → flush m = .ok () m := by
    intro m flushes
    unfold flush Sink.flush
    rw [flushes]
    rfl
  rw [flushed m unfailing.flushFails, flushed (m.limit room) unfailing.flushFails]
  exact .whole fits

/-- All that an evaluation is made of. What does not print does the same with less room. -/
theorem Truncates.closed (room : Nat) : EvalClosed fun _ => Truncates room where
  pure a := ⟨sink_evolution.closed.pure a, fun _ _ fits => .whole fits⟩
  fault cause line shallow :=
    ⟨sink_evolution.closed.fault cause line shallow, fun _ _ fits => .whole fits⟩
  ask {_ f} inward := ⟨sink_evolution.closed.ask inward, fun m _ fits => by
    have same : f (m.limit room) = f m := inward m _
    rw [ask_eq same]
    exact .whole fits⟩
  onStore becomes := ⟨sink_evolution.closed.onStore becomes, fun _ _ fits => .whole fits⟩
  bind := Truncates.bind
  inFrame := Truncates.inFrame
  exhausted α := ⟨sink_evolution.closed.exhausted α, fun _ _ fits => .whole fits⟩
  nested := Truncates.nested
  print := truncates_print
  readClock := ⟨sink_evolution.closed.readClock, fun _ _ fits => .whole fits⟩
  flush := truncates_flush

end Run

open Run

/-- The sink of a program fails only where a `print` that the program comes to does, and this is where the
program ends. -/
theorem reaches_print_of_runProgram {e : SinkError} {fuel : Nat} {statements : List Stmt}
    {m m' : Machine} (flushes : m.sink.flushFails = false)
    (failed : runProgram fuel statements m = .error (.sink e) m') :
    ∃ n m₁ t m₂, ProgramReaches fuel m statements (n + 1) m₁ t ∧
      t.HaltsPrinting (.sink e) n m₁ m₂ ∧ m₂.Elsewhere m' := by
  rcases bind_halted failed with early | ⟨last, m₁, ended, rest⟩
  · exact reaches_print_of_runFrom early
  · -- the flush at the end does not fail, since the sink works as it did at the start
    have takes := sink_evolution.closed.runFrom fuel .nil statements m
    rw [ended] at takes
    have flushed : flush m₁ = .ok () m₁ := by
      unfold flush Sink.flush
      rw [show m₁.sink.flushFails = false from takes.flushFails.trans flushes]
      rfl
    rw [bind_of_ok flushed] at rest
    cases rest

/-- A sink that fails only truncates. Of the text that a program prints to a sink that takes everything, one
with room for so many bytes takes as many from the start. If that is all of the text, nothing else differs
either. If not, the program fails with the error of the sink at a `print` that it comes to, and nothing is
done after this `print` has failed. -/
theorem full_sink_truncates (fuel room : Nat) (statements : List Stmt) (m : Machine) :
    let begun : Machine := { m with sink := .start (some room) false }
    let whole := runProgram fuel statements { m with sink := .unlimited }
    let cut := runProgram fuel statements begun
    let text := (finalMachine whole).sink.written
    (finalMachine cut).sink.written = text.extract 0 (min room text.size) ∧
    if text.size ≤ room then cut = onMachine (.limit room) whole
    else ∃ m', cut = .error (.sink .full) m' ∧
      ∃ n m₁ t m₂, ProgramReaches fuel begun statements (n + 1) m₁ t ∧
        t.HaltsPrinting (.sink .full) n m₁ m₂ ∧ m₂.Elsewhere m' := by
  intro begun whole cut text
  have truncated : Truncated room whole cut :=
    ((Truncates.closed room).runProgram fuel statements).inStep { m with sink := .unlimited }
      ⟨rfl, rfl⟩ (Nat.zero_le room)
  clear_value whole
  generalize reached : cut = result at truncated
  cases truncated with
  | whole fits =>
    have written : (finalMachine (onMachine (.limit room) whole)).sink.written = text := by
      cases whole <;> rfl
    rw [if_pos fits, written, Nat.min_eq_right fits, ByteArray.extract_zero_size]
    exact ⟨rfl, rfl⟩
  | cut beyond taken =>
    rw [if_neg (Nat.not_le.mpr beyond), Nat.min_eq_left (Nat.le_of_lt beyond)]
    exact ⟨taken, _, rfl, reaches_print_of_runProgram rfl reached⟩

end Lox
