import Lox.Proofs.Evaluation.Restoration
import Lox.Proofs.Lexical.Programs

/-!
# Sessions and the lexical machine

The invariant of sessions: the machine of a session stands for a lexical machine, all look-ups made so
far have their outcome on record, and nothing is on record for identities that have not been handed out.
Every run keeps it, whether it is rejected, halts or comes to its end, and a run of an accepted program
has the outcome that the lexical machine has.
-/

namespace Lox

namespace Lexical

/-- Runs a program that has been accepted on the lexical machine. -/
def runAccepted (fuel : Nat) (program : Accepted) (μ : State) : Except Failure Value × State :=
  match runProgram fuel program.statements μ with
  | .ok value μ => (.ok value, μ)
  | .error halt μ => (.error (.halted halt), μ)

end Lexical

namespace Session

open Lexical

structure Standing (L : List Lookup) (cells : List Slot) (s : Session) (μ : State) : Prop where
  agree : Agree L s.machine.globals cells s.machine μ
  current : s.machine.current = s.machine.globals
  known : ∀ l ∈ L, l.id < s.nextId
  fresh : ∀ i, s.nextId ≤ i → s.machine.distances[i]? = none

theorem Standing.start (sink : Sink) (clock : Nat → Float) :
    Standing [] [] (Session.start sink clock) (State.start sink clock) where
  agree := .start sink clock
  current := rfl
  known := nofun
  fresh := fun _ _ => Std.TreeMap.getElem?_emptyc

variable {L : List Lookup} {cells : List Slot} {s : Session} {μ : State}

/-- The machine with the look-ups of an accepted program on record, before the program begins. -/
structure Begun (L : List Lookup) (cells : List Slot) (s : Session) (μ : State)
    (program : Accepted) : Prop where
  agree : Agree L s.machine.globals cells (s.machine.recordAll program.bindings) μ
  current : (s.machine.recordAll program.bindings).current = s.machine.globals
  code : statementsScoped L [] program.statements

theorem Standing.begin (standing : Standing L cells s μ) {source : String} {program : Accepted}
    (accepted : (Source.accept source s.nextId).1 = .ok program) :
    ∃ L', Begun L' cells s μ program ∧ (∀ l ∈ L', l.id < (Source.accept source s.nextId).2) ∧
      s.nextId ≤ (Source.accept source s.nextId).2 ∧
      ∀ i, (Source.accept source s.nextId).2 ≤ i →
        (s.machine.recordAll program.bindings).distances[i]? = none := by
  obtain ⟨new, code, bindings, numbered⟩ := Source.accept_scoped accepted
  have record : s.machine.OnRecord L s.nextId :=
    ⟨standing.agree.distances, standing.known, standing.fresh⟩
  have recorded := record.record numbered
  rw [← bindings] at recorded
  refine ⟨L ++ new, ⟨?_, ?_, ?_⟩, recorded.known, numbered.range, recorded.fresh⟩
  · rw [bindings]
    exact standing.agree.record standing.known standing.fresh numbered
  · rw [recordAll_eq]
    exact standing.current
  · exact statementsScoped_mono (fun l member => List.mem_append_right _ member) _ code

/-- The invariant when a run ends, with what the run has come to. -/
theorem Standing.run (standing : Standing L cells s μ) (fuel : Nat) (source : String) :
    ∃ L' cells' μ', Standing L' cells' (s.run fuel source).2 μ' ∧
      (∀ halt, (s.run fuel source).1 = .error (.halted halt) → ¬ halt.RuledOut) ∧
      ∀ program, (Source.accept source s.nextId).1 = .ok program →
        runAccepted fuel program μ = ((s.run fuel source).1, μ') := by
  unfold Session.run
  dsimp only
  cases accepted : (Source.accept source s.nextId).1 with
  | error diagnostics =>
    have range : s.nextId ≤ (Source.accept source s.nextId).2 :=
      (Source.program_isRead source s.nextId).2.range
    -- the machine is as it was, and the identities of the rejected source are gone
    refine ⟨L, cells, μ, ⟨standing.agree, standing.current, fun l member => ?_, fun i above => ?_⟩,
      by rintro _ ⟨⟩, by rintro _ ⟨⟩⟩
    · exact Nat.lt_of_lt_of_le (standing.known l member) range
    · exact standing.fresh i (Nat.le_trans range above)
  | ok program =>
    obtain ⟨L', begun, known, _, fresh⟩ := standing.begin accepted
    have outcome := runProgram_simulates fuel program.statements begun.agree begun.current begun.code
    have place := runProgram_restores fuel program.statements (s.machine.recordAll program.bindings)
    -- the invariant on the machine that the run leaves behind
    have stands {cells' : List Slot} {m' : Machine} {μ' : State}
        (same : (s.machine.recordAll program.bindings).SamePlace m')
        (agree : Agree L' s.machine.globals cells' m' μ') :
        Standing L' cells' ⟨m', (Source.accept source s.nextId).2⟩ μ' := by
      have globals : m'.globals = s.machine.globals := agree.globals
      refine ⟨globals.symm ▸ agree, ?_, known, fun i above => ?_⟩
      · exact same.current.trans (begun.current.trans globals.symm)
      · change m'.distances[i]? = none
        rw [same.distances]
        exact fresh i above
    unfold execute perform
    dsimp only
    rcases outcome.cases with ⟨value, m', value', μ', cells', left, right, _, agree, same⟩ |
      ⟨halt, m', μ', cells', left, right, possible, _, agree⟩
    · rw [left] at place ⊢
      rw [Equal] at same
      refine ⟨L', cells', μ', stands place agree, by rintro _ ⟨⟩, fun program' same' => ?_⟩
      cases same'
      rw [runAccepted, right, same]
    · rw [left] at place ⊢
      refine ⟨L', cells', μ', stands place agree, fun halt' same => ?_, fun program' same => ?_⟩
      · cases same
        exact possible
      · cases same
        rw [runAccepted, right]

end Session

end Lox
