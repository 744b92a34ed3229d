import Mathlib
import Lox.Proofs.Grammar.Renumbering
import Lox.Proofs.Scope.Renumbering
import Lox.Session

/-!
# Rejection

A source is rejected before any of it runs, with diagnostics that its text alone decides: neither the
machine nor the identities handed out before have a part in them. A rejected source leaves the machine
as it was, and checking a source foretells whether running it will reject it.
-/

namespace Lox

/-- Whether a source is accepted, and the diagnostics if it is not, do not depend on the first node
identity. -/
theorem Source.accept_error_iff (source : String) (firstId : NodeId)
    (diagnostics : List Diagnostic) :
    (Source.accept source firstId).1 = .error diagnostics ↔
      Source.check source = .error diagnostics := by
  unfold Source.check Source.accept
  -- from other identities on, the same tree is read under new identities
  rw [Source.program_shift source firstId]
  dsimp only
  cases (Source.program source 0).diagnostics with
  | cons d rest => simp [bind, Except.bind]
  | nil =>
    dsimp only
    -- the walk finds the same problems under the new identities
    rw [Resolution.ofProgram_renumber, Resolution.bindings?_renumber]
    cases (Resolution.ofProgram (Source.program source 0).result).bindings? <;>
      simp [bind, Except.bind, Except.map, pure, Except.pure]

namespace Session

/-- An evaluation rejects nothing. -/
private theorem perform_ne_rejected {α : Type} (m : Machine) (nextId : NodeId) (run : Run α)
    (diagnostics : List Diagnostic) :
    (perform m nextId run).1 ≠ .error (.rejected diagnostics) := by
  unfold perform
  split <;> simp

/-- Running rejects a source exactly when it is not accepted. -/
theorem run_rejected_iff (fuel : Nat) (s : Session) (source : String)
    (diagnostics : List Diagnostic) :
    (s.run fuel source).1 = .error (.rejected diagnostics) ↔
      Source.check source = .error diagnostics := by
  rw [← Source.accept_error_iff source s.nextId]
  unfold run
  dsimp only
  cases (Source.accept source s.nextId).1 with
  | error others => simp
  | ok program =>
    constructor
    · intro rejected
      exact absurd rejected (perform_ne_rejected _ _ _ _)
    · simp

/-- A rejected source does nothing to the machine. -/
theorem run_rejected_machine {fuel : Nat} {s : Session} {source : String}
    {diagnostics : List Diagnostic}
    (rejected : (s.run fuel source).1 = .error (.rejected diagnostics)) :
    (s.run fuel source).2.machine = s.machine := by
  have refused := (Source.accept_error_iff source s.nextId diagnostics).mpr
    ((run_rejected_iff fuel s source diagnostics).mp rejected)
  unfold run
  simp only [refused]

/-- In any session, checking a source gives the verdict on its text. -/
theorem check_verdict (s : Session) (source : String) :
    (s.check source).1 = (Source.check source).mapError Failure.rejected := by
  have same := Source.accept_error_iff source s.nextId
  unfold check
  dsimp only
  cases accepted : (Source.accept source s.nextId).1 with
  | error diagnostics =>
    rw [(same diagnostics).mp accepted]
    rfl
  | ok program =>
    cases verdict : Source.check source with
    | ok _ => rfl
    | error diagnostics =>
      rw [(same diagnostics).mpr verdict] at accepted
      contradiction

end Session

/-- A source is rejected atomically and by its text alone. In every session, a run that rejects leaves
the whole machine as it was, and so does every check. Running in one session rejects a source with
certain diagnostics exactly when checking it in any other does, for these are the diagnostics of the
verdict on the text. So a source that was checked and accepted is not rejected when it is run next. -/
theorem rejection_decided_by_source (source : String) :
    (∀ (fuel : Nat) (s : Session) (diagnostics : List Diagnostic),
      (s.run fuel source).1 = .error (.rejected diagnostics) →
        (s.run fuel source).2.machine = s.machine) ∧
    (∀ s : Session, (s.check source).2.machine = s.machine ∧
      (s.check source).1 = (Source.check source).mapError Failure.rejected) ∧
    (∀ (fuel : Nat) (s t : Session) (diagnostics : List Diagnostic),
      (s.run fuel source).1 = .error (.rejected diagnostics) ↔
        (t.check source).1 = .error (.rejected diagnostics)) ∧
    ∀ (fuel : Nat) (s : Session), (s.check source).1 = .ok () →
      ∀ diagnostics, ((s.check source).2.run fuel source).1 ≠ .error (.rejected diagnostics) := by
  have checked_iff (t : Session) (diagnostics : List Diagnostic) :
      (t.check source).1 = .error (.rejected diagnostics) ↔
        Source.check source = .error diagnostics := by
    rw [Session.check_verdict]
    cases Source.check source <;> simp [Except.mapError]
  refine ⟨fun fuel s diagnostics => Session.run_rejected_machine,
    fun s => ⟨Session.check_machine s source, Session.check_verdict s source⟩,
    fun fuel s t diagnostics => ?_, fun fuel s passed diagnostics rejected => ?_⟩
  · rw [checked_iff, Session.run_rejected_iff]
  · -- a check hands identities out, which the verdict does not depend on
    have refused := (Session.run_rejected_iff fuel _ source diagnostics).mp rejected
    rw [(checked_iff s diagnostics).mpr refused] at passed
    contradiction

/-- A `return` at top level is rejected and does nothing, and a `print` that passes the check is not
rejected. -/
theorem rejection_of_stray_return :
    let s := Session.start .unlimited fun _ => 0
    let stray : List Diagnostic := [.scoping 1 "return" .returnAtTopLevel]
    ((s.run 1 "return;").1 = .error (.rejected stray) ∧
      (s.run 1 "return;").2.machine = s.machine) ∧
    (s.check "print nil;").1 = .ok () ∧
      ((s.check "print nil;").2.run 1 "print nil;").1 ≠ .error (.rejected stray) := by
  intro s stray
  have refused : (s.run 1 "return;").1 = .error (.rejected stray) :=
    (Session.run_rejected_iff 1 s "return;" stray).mpr (by cbv)
  have passed : (s.check "print nil;").1 = .ok () := by
    rw [Session.check_verdict, show Source.check "print nil;" = .ok () by cbv]
    rfl
  exact ⟨⟨refused, (rejection_decided_by_source "return;").1 1 s stray refused⟩, passed,
    (rejection_decided_by_source "print nil;").2.2.2 1 s passed stray⟩

end Lox
