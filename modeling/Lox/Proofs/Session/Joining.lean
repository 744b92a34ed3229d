import Lox.Proofs.Grammar.Joining
import Lox.Proofs.Scope.Resuming
import Lox.Proofs.Session.Acceptance
import Lox.Proofs.Session.Rejection
import Lox.Proofs.Source.Joining

/-!
# Acceptance of joined sources

Two sources that are accepted each on its own are accepted as one source, the second one starting on a
line of its own. It stands for the statements of both, those of the second one further down, and their
nodes are numbered as if the sources had been read in turn.
-/

namespace Lox

/-- A source that passes the check is accepted from every first identity on. -/
theorem Source.accepted_of_check {source : String} (passed : Source.check source = .ok ())
    (firstId : NodeId) : ∃ program, (Source.accept source firstId).1 = .ok program := by
  cases verdict : (Source.accept source firstId).1 with
  | ok program => exact ⟨program, rfl⟩
  | error diagnostics =>
    have refused := (Source.accept_error_iff source firstId diagnostics).mp verdict
    rw [passed] at refused
    cases refused

theorem Source.check_of_accepted {source : String} {firstId : NodeId} {program : Accepted}
    (accepted : (Source.accept source firstId).1 = .ok program) : Source.check source = .ok () := by
  cases verdict : Source.check source with
  | ok _ => rfl
  | error diagnostics =>
    rw [← Source.accept_error_iff source firstId, accepted] at verdict
    cases verdict

/-- A source without lexical problems is read as its tokens are. -/
private theorem Source.program_of_clean {source : String} (clean : problems source = [])
    (firstId : NodeId) : Source.program source firstId = Grammar.program (tokens source) firstId := by
  rw [Source.program, clean, List.nil_append]

/-- The statements of two sources in one, and the next free identity. -/
private theorem Source.program_join {source later : String} {firstId : NodeId}
    (clean : (Source.program source firstId).diagnostics = [])
    (clean' : (Source.program later (Source.program source firstId).nextId).diagnostics = []) :
    Source.program (source ++ "\n" ++ later) firstId =
      let one := Source.program source firstId
      let other := Source.program later one.nextId
      ⟨one.result ++ other.result.map (Stmt.reline (· + height source)), [], other.nextId⟩ := by
  have lexical : problems source = [] := (List.append_eq_nil_iff.mp clean).1
  have lexical' : problems later = [] := (List.append_eq_nil_iff.mp clean').1
  obtain ⟨ts, line, only, alone, joined⟩ := tokens_join lexical
  obtain ⟨ts', line', only', alone', -⟩ := tokens_join lexical'
  obtain ⟨together, problems⟩ := joined later
  rw [lexical', List.map_nil] at problems
  rw [program_of_clean lexical, alone] at clean
  rw [program_of_clean lexical, program_of_clean lexical', alone, alone'] at clean'
  dsimp only
  rw [program_of_clean problems, together, program_of_clean lexical, alone, program_of_clean lexical',
    alone']
  exact Grammar.program_append only rfl clean only' rfl clean' (· + height source)

/-- Two accepted sources are accepted as one, with the statements and bindings of both. -/
theorem Source.accept_join {source later : String} {firstId : NodeId} {program program' : Accepted}
    (accepted : (Source.accept source firstId).1 = .ok program)
    (accepted' : (Source.accept later (Source.accept source firstId).2).1 = .ok program') :
    Source.accept (source ++ "\n" ++ later) firstId =
      (.ok ⟨program.statements ++ program'.statements.map (Stmt.reline (· + height source)),
          program.bindings ++ program'.bindings⟩,
        (Source.accept later (Source.accept source firstId).2).2) := by
  obtain ⟨clean, statements, bindings⟩ := accept_eq_ok.mp accepted
  obtain ⟨clean', statements', bindings'⟩ := accept_eq_ok.mp accepted'
  have together := program_join clean clean'
  refine Prod.ext (accept_eq_ok.mpr ⟨?_, ?_, ?_⟩) ?_
  · rw [together]
  · rw [together, statements, statements']
    rfl
  · rw [together]
    exact Resolution.bindings?_append _ bindings bindings'
  · change (Source.program _ _).nextId = _
    rw [together]
    rfl

end Lox
