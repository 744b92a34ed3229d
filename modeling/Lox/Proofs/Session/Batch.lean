import Mathlib
import Lox.Proofs.Evaluation.Moved
import Lox.Proofs.Evaluation.Restoration
import Lox.Proofs.Lexical.Programs
import Lox.Proofs.Session.Acceptance
import Lox.Proofs.Session.Joining

/-!
# Sources in one and in turn

Running two sources in turn comes to the same as running them as one source. The two ways differ in the
distances that are on record while the first source runs, in the lines that the second one stands on, and
in a flush between them. The code of the first source, which may run again later, has no nodes of the
second one, since the code in a session has only identities that were handed out before.
-/

namespace Lox

/-! ### The code in a session -/

namespace Session

theorem recordAll_store (m : Machine) (bindings : List Binding) :
    (m.recordAll bindings).store = m.store := by
  rw [Lexical.recordAll_eq]

/-- The change that records the distances of more nodes. -/
private def recorded (m : Machine) (bindings : List Binding) : Change :=
  ⟨id, (m.recordAll bindings).distances, rfl⟩

/-- What is on record afterwards depends on what was on record before alone. -/
theorem recordAll_distances {m m' : Machine} (same : m'.distances = m.distances)
    (bindings : List Binding) :
    (m'.recordAll bindings).distances = (m.recordAll bindings).distances := by
  unfold Machine.recordAll
  induction bindings generalizing m m' with
  | nil => exact same
  | cons b rest ih =>
    have recorded : (m'.record b).distances = (m.record b).distances := by
      rw [Machine.record, Machine.record, same]
    exact ih recorded

private theorem recorded_machine {m m' : Machine} (same : m'.distances = m.distances)
    (bindings : List Binding) : (recorded m bindings).machine m' = m'.recordAll bindings := by
  rw [Change.machine, recorded, Store.reline_id, Lexical.recordAll_eq m' bindings,
    recordAll_distances same]

/-- The distances of nodes that a machine has no code with make no difference to it. -/
private theorem recorded_suits {b : NodeId} {m : Machine} {bindings : List Binding}
    (below : m.store.Below b) (others : ∀ x ∈ bindings, b ≤ x.1) :
    (recorded m bindings).Suits b m := by
  refine ⟨fun i inside => m.distances_recordAll_of_notMem fun x member same => ?_, below⟩
  exact absurd (others x member) (Nat.not_le.mpr (same ▸ inside))

/-- An evaluation of code with identities below the bound leaves only such code behind. -/
private theorem perform_below {α : Type} {b : NodeId} {run run' : Run α} {m : Machine}
    (follows : Run.Follows (recorded m []) b Eq run run') (below : m.store.Below b)
    (nextId : NodeId) :
    (perform m nextId run).2.machine.store.Below b := by
  unfold perform
  rcases (follows m (recorded_suits below nofun)).cases with ⟨_, _, _, one, _, _, suits⟩ |
    ⟨_, _, one, _, suits⟩
  · rw [one]
    exact suits.below
  · rw [one]
    exact suits.below

theorem run_below {s : Session} (below : s.machine.store.Below s.nextId) (fuel : Nat)
    (source : String) :
    (s.run fuel source).2.machine.store.Below (s.run fuel source).2.nextId := by
  have range : s.nextId ≤ (Source.accept source s.nextId).2 :=
    (Source.program_isRead source s.nextId).2.range
  unfold run
  dsimp only
  cases accepted : (Source.accept source s.nextId).1 with
  | error diagnostics => exact below.mono range
  | ok program =>
    have ids := Source.accept_ids accepted
    have follows := runProgram_moves (recorded (s.machine.recordAll program.bindings) []) _ fuel
      program.statements fun i member => (ids.bounds i member).2
    have stored : (s.machine.recordAll program.bindings).store.Below
        (Source.accept source s.nextId).2 := by
      rw [recordAll_store]
      exact below.mono range
    have after := perform_below follows stored (Source.accept source s.nextId).2
    unfold execute
    unfold perform at after ⊢
    dsimp only at after ⊢
    split at after <;> exact after

theorem evaluate_below {s : Session} (below : s.machine.store.Below s.nextId) (fuel : Nat)
    (source : String) :
    (s.evaluate fuel source).2.machine.store.Below (s.evaluate fuel source).2.nextId := by
  obtain ⟨range, read⟩ := Source.soleExpression_isRead source s.nextId
  unfold evaluate
  dsimp only
  split
  · exact below.mono range
  · rename_i e found
    have result := (Reading.toExcept_eq_ok.mp found).1
    have follows := (moves (recorded s.machine []) _ fuel).evaluate e fun i member =>
      ((read e result).numbered.bounds i member).2
    have after := perform_below follows (below.mono range)
      (Source.soleExpression source s.nextId).nextId
    unfold perform at after ⊢
    split at after <;> exact after

/-- The code that a session keeps has only identities that have been handed out. -/
theorem afterAll_below {s : Session} (below : s.machine.store.Below s.nextId)
    (requests : List Request) :
    (s.afterAll requests).machine.store.Below (s.afterAll requests).nextId := by
  unfold afterAll
  induction requests generalizing s with
  | nil => exact below
  | cons r rest ih =>
    refine ih ?_
    cases r with
    | run fuel source => exact run_below below fuel source
    | evaluate fuel source => exact evaluate_below below fuel source
    | check source =>
      have range : s.nextId ≤ (Source.accept source s.nextId).2 :=
        (Source.program_isRead source s.nextId).2.range
      unfold after check
      dsimp only
      split <;> exact below.mono range

theorem start_below (sink : Sink) (clock : Nat → Float) :
    (start sink clock).machine.store.Below 0 := (Store.Below.empty 0).of_same rfl rfl

end Session

/-! ### A program in two parts -/

section

variable {fuel : Nat} {first next : List Stmt} {start last : Value} {halt : Halt} {m m' : Machine}

/-- The second part begins where the first one has ended. -/
theorem runFrom_append_of_ok (ran : runFrom fuel start first m = .ok last m') :
    runFrom fuel start (first ++ next) m = runFrom fuel last next m' := by
  induction first generalizing start m with
  | nil =>
    cases ran
    rfl
  | cons s rest ih =>
    change EStateM.bind (execute fuel s) (fun flow => runFrom fuel flow.value rest) m = _ at ran
    change EStateM.bind (execute fuel s) (fun flow => runFrom fuel flow.value (rest ++ next)) m = _
    unfold EStateM.bind at ran ⊢
    cases done : execute fuel s m with
    | ok flow m₁ =>
      rw [done] at ran
      exact ih ran
    | error halt m₁ =>
      rw [done] at ran
      cases ran

/-- Nothing follows a part that has halted. -/
theorem runFrom_append_of_error (ran : runFrom fuel start first m = .error halt m') :
    runFrom fuel start (first ++ next) m = .error halt m' := by
  induction first generalizing start m with
  | nil => cases ran
  | cons s rest ih =>
    change EStateM.bind (execute fuel s) (fun flow => runFrom fuel flow.value rest) m = _ at ran
    change EStateM.bind (execute fuel s) (fun flow => runFrom fuel flow.value (rest ++ next)) m = _
    unfold EStateM.bind at ran ⊢
    cases done : execute fuel s m with
    | ok flow m₁ =>
      rw [done] at ran
      exact ih ran
    | error halt' m₁ =>
      rw [done] at ran
      exact ran

/-- What a program comes to is decided by its statements and the flush after them. -/
theorem runProgram_eq (fuel : Nat) (statements : List Stmt) (m : Machine) :
    runProgram fuel statements m =
      match runFrom fuel .nil statements m with
      | .ok last m' =>
        match m'.sink.flush with
        | none => .ok last m'
        | some e => .error (.sink e) m'
      | .error halt m' => .error halt m' := by
  have flushed (last : Value) (m' : Machine) : (Run.flush >>= fun _ => pure last : Run Value) m' =
      match m'.sink.flush with
      | none => .ok last m'
      | some e => .error (.sink e) m' := by
    change EStateM.bind Run.flush (fun _ => pure last) m' = _
    unfold EStateM.bind Run.flush
    cases m'.sink.flush <;> rfl
  change EStateM.bind (runFrom fuel .nil statements)
    (fun last => Run.flush >>= fun _ => pure last) m = _
  unfold EStateM.bind
  cases runFrom fuel .nil statements m with
  | error halt m' => rfl
  | ok last m' => exact flushed last m'

/-- A program with a statement does not depend on the value left before it. -/
theorem runFrom_of_ne_nil (nonempty : next ≠ []) (start last : Value) :
    runFrom fuel start next = runFrom fuel last next := by
  cases next with
  | nil => exact absurd rfl nonempty
  | cons s rest => rfl

theorem Session.perform_append_of_ok (ran : runFrom fuel .nil first m = .ok last m')
    (nonempty : next ≠ []) (nextId : NodeId) :
    perform m nextId (runProgram fuel (first ++ next)) =
      perform m' nextId (runProgram fuel next) := by
  rw [perform, perform, runProgram_eq, runProgram_eq, runFrom_append_of_ok ran,
    runFrom_of_ne_nil nonempty last .nil]

end

/-! ### Up to lines -/

/-- The halt with its line left out. -/
def Halt.unlined (halt : Halt) : Halt := halt.reline fun _ => 0

def Failure.unlined : Failure → Failure
  | .rejected diagnostics => .rejected diagnostics
  | .halted halt => .halted halt.unlined

/-- The machine with the lines of all its code left out. -/
def Machine.unlined (m : Machine) : Machine := { m with store := m.store.reline fun _ => 0 }

/-- Two runs end with the same value or the same message up to its line, and leave the same session
behind up to the lines of its code: the same frames and instances, functions and classes with the same
code, and the same output. -/
structure SameButLines (one other : Except Failure Value × Session) : Prop where
  result : one.1.mapError Failure.unlined = other.1.mapError Failure.unlined
  machine : one.2.machine.unlined = other.2.machine.unlined
  nextId : one.2.nextId = other.2.nextId

namespace Session

/-- The change that leaves all lines out and keeps the distances on record. -/
private def lineless (m : Machine) : Change := ⟨fun _ => 0, m.distances, rfl⟩

private theorem lineless_machine {m m' : Machine} (kept : m'.distances = m.distances) :
    (lineless m).machine m' = m'.unlined :=
  congrArg (fun distances => { m'.unlined with distances }) kept.symm

/-- An evaluation comes, up to lines, to what the code without lines comes to on the machine without
lines. -/
theorem perform_unlined {α : Type} {b : NodeId} {m : Machine} {run bare : Run α}
    (follows : Run.Follows ⟨fun _ => 0, m.distances, rfl⟩ b Eq run bare) (restores : Run.Restores run)
    (below : m.store.Below b) (nextId : NodeId) :
    perform m.unlined nextId bare =
      let outcome := perform m nextId run
      (outcome.1.mapError Failure.unlined, ⟨outcome.2.machine.unlined, outcome.2.nextId⟩) := by
  have suits : (lineless m).Suits b m := ⟨fun _ _ => rfl, below⟩
  have place := restores m
  unfold perform
  rw [← lineless_machine rfl]
  rcases Change.Mirrors.cases (follows m suits) with ⟨value, _, m₁, one, other, rfl, -⟩ |
    ⟨halt, m₁, one, other, -⟩
  all_goals
    rw [one] at place ⊢
    have kept : m₁.distances = m.distances := place.distances
    change bare ((lineless m).machine m) = _ at other
    rw [other]
    change _ = ((_, ⟨m₁.unlined, nextId⟩) : Except Failure α × Session)
    rw [← lineless_machine kept]
    rfl

/-- Programs that differ in their lines alone come to the same, up to lines, on one machine. -/
theorem perform_sameButLines {b : NodeId} {m : Machine} {statements statements' : List Stmt}
    (below : m.store.Below b) (code : IdsBelow b (statementIds statements))
    (code' : IdsBelow b (statementIds statements'))
    (same : relineStatements (fun _ => 0) statements = relineStatements (fun _ => 0) statements')
    (fuel : Nat) (nextId : NodeId) :
    SameButLines (perform m nextId (runProgram fuel statements))
      (perform m nextId (runProgram fuel statements')) := by
  -- both programs do what the one without lines does on the machine without lines
  have one := perform_unlined (runProgram_moves _ b fuel statements code)
    (runProgram_restores fuel statements) below nextId
  have other := perform_unlined (runProgram_moves _ b fuel statements' code')
    (runProgram_restores fuel statements') below nextId
  rw [same, other] at one
  exact ⟨congrArg Prod.fst one.symm, congrArg (·.2.machine) one.symm, congrArg (·.2.nextId) one.symm⟩

/-! ### The two ways -/

theorem run_of_accepted {s : Session} {source : String} {program : Accepted}
    (accepted : (Source.accept source s.nextId).1 = .ok program) (fuel : Nat) :
    s.run fuel source = perform (s.machine.recordAll program.bindings)
      (Source.accept source s.nextId).2 (runProgram fuel program.statements) := by
  unfold run
  dsimp only
  rw [accepted]
  rfl

/-- The nodes that an accepted source has bindings of are among those that it takes. -/
theorem accept_bindings {source : String} {firstId : NodeId} {program : Accepted}
    (accepted : (Source.accept source firstId).1 = .ok program) :
    ∀ x ∈ program.bindings, firstId ≤ x.1 := by
  obtain ⟨L, -, bindings, numbered⟩ := Source.accept_scoped accepted
  rw [bindings]
  intro x bound
  obtain ⟨l, member, bound⟩ := List.mem_filterMap.mp bound
  obtain ⟨d, depth, rfl⟩ := Option.map_eq_some_iff.mp bound
  exact (numbered.bounds l.id (List.mem_map.mpr ⟨l, member, rfl⟩)).1

section

variable {s : Session} {source later : String} {program program' : Accepted}

/-- What the first source comes to, and that the first part of both in one comes to the same, on a machine
that has the distances of the second source on record already. -/
private theorem run_first (below : s.machine.store.Below s.nextId)
    (accepted : (Source.accept source s.nextId).1 = .ok program)
    (accepted' : (Source.accept later (Source.accept source s.nextId).2).1 = .ok program')
    (fuel : Nat) :
    let m := (s.machine.recordAll program.bindings).recordAll program'.bindings
    let free := (Source.accept source s.nextId).2
    (∃ last m₁, s.run fuel source = (.ok last, ⟨m₁, free⟩) ∧ m₁.store.Below free ∧
      runFrom fuel .nil program.statements m = .ok last (m₁.recordAll program'.bindings)) ∨
    (s.run fuel source).1 = .error (.halted (.sink .flush)) ∨
    ∃ halt m₁, s.run fuel source = (.error (.halted halt), ⟨m₁, free⟩) ∧
      runFrom fuel .nil program.statements m = .error halt (m₁.recordAll program'.bindings) := by
  intro m free
  have ids := Source.accept_ids accepted
  have stored : (s.machine.recordAll program.bindings).store.Below free := by
    rw [recordAll_store]
    exact below.mono ids.range
  let c := recorded (s.machine.recordAll program.bindings) program'.bindings
  have mirrors := runFrom_moves c free fuel .nil program.statements
    (fun i member => (ids.bounds i member).2) _ (recorded_suits stored (accept_bindings accepted'))
  -- the code of the first source stays on its lines
  rw [recorded_machine rfl, show relineStatements c.line program.statements = program.statements from
    relineStatements_id program.statements] at mirrors
  have place := runFrom_restores fuel .nil program.statements (s.machine.recordAll program.bindings)
  rw [run_of_accepted accepted, perform, runProgram_eq]
  rcases mirrors.cases with ⟨last, _, m₁, one, other, rfl, suits⟩ | ⟨halt, m₁, one, other, -⟩
  · rw [one] at place ⊢
    have moved : c.machine m₁ = m₁.recordAll program'.bindings := recorded_machine place.distances _
    rw [moved] at other
    dsimp only
    cases flushed : m₁.sink.flush with
    | none => exact .inl ⟨last, m₁, rfl, suits.below, other⟩
    | some e =>
      unfold Sink.flush at flushed
      split at flushed
      · cases flushed
        exact .inr (.inl rfl)
      · cases flushed
  · rw [one] at place ⊢
    have moved : c.machine m₁ = m₁.recordAll program'.bindings := recorded_machine place.distances _
    rw [moved, show halt.reline c.line = halt from halt.reline_id] at other
    exact .inr (.inr ⟨halt, m₁, rfl, other⟩)

/-- What two accepted sources in one run on: the statements and bindings of both. -/
private theorem run_join (accepted : (Source.accept source s.nextId).1 = .ok program)
    (accepted' : (Source.accept later (Source.accept source s.nextId).2).1 = .ok program')
    (fuel : Nat) :
    s.run fuel (source ++ "\n" ++ later) =
      perform ((s.machine.recordAll program.bindings).recordAll program'.bindings)
        (Source.accept later (Source.accept source s.nextId).2).2
        (runProgram fuel (program.statements ++
          program'.statements.map (Stmt.reline (· + Source.height source)))) := by
  have joined := Source.accept_join accepted accepted'
  rw [run_of_accepted (congrArg Prod.fst joined), joined, Machine.recordAll, List.foldl_append]
  rfl

/-- The statements of the second source keep their identities in both in one. -/
private theorem join_ids (accepted : (Source.accept source s.nextId).1 = .ok program)
    (accepted' : (Source.accept later (Source.accept source s.nextId).2).1 = .ok program') :
    IdsBelow (Source.accept later (Source.accept source s.nextId).2).2
      (statementIds (program'.statements.map (Stmt.reline (· + Source.height source)))) := by
  have joined := Source.accept_join accepted accepted'
  have together := Source.accept_ids (congrArg Prod.fst joined)
  rw [joined] at together
  intro i member
  refine (together.bounds i ?_).2
  rw [statementIds_eq_flatMap] at member ⊢
  rw [List.flatMap_append]
  exact List.mem_append_right _ member

/-- If the first source ends, both in one go on as the second source does after it. -/
private theorem run_join_of_ended (below : s.machine.store.Below s.nextId)
    (accepted : (Source.accept source s.nextId).1 = .ok program)
    (accepted' : (Source.accept later (Source.accept source s.nextId).2).1 = .ok program')
    (nonempty : program'.statements ≠ []) (fuel : Nat) {value : Value}
    (ended : (s.run fuel source).1 = .ok value) :
    SameButLines (s.run fuel (source ++ "\n" ++ later))
      ((s.run fuel source).2.run fuel later) := by
  rcases run_first below accepted accepted' fuel with ⟨last, m₁, one, stored, other⟩ | flushed |
    ⟨halt, m₁, one, -⟩
  · have ids := Source.accept_ids accepted'
    have nonempty' : program'.statements.map (Stmt.reline (· + Source.height source)) ≠ [] :=
      fun none => nonempty (List.map_eq_nil_iff.mp none)
    rw [one, run_join accepted accepted', perform_append_of_ok other nonempty',
      run_of_accepted (s := ⟨m₁, _⟩) accepted']
    -- both go on with the second source on one machine, where it stands on different lines
    refine perform_sameButLines ?_ (join_ids accepted accepted')
      (fun i member => (ids.bounds i member).2) ?_ fuel _
    · rw [recordAll_store]
      exact stored.mono ids.range
    · rw [← relineStatements_eq_map, relineStatements_reline]
      rfl
  · rw [flushed] at ended
    cases ended
  · rw [one] at ended
    cases ended

/-- If the first source halts, so do both in one, and nothing of the second one is done. -/
private theorem run_join_of_halted (below : s.machine.store.Below s.nextId)
    (accepted : (Source.accept source s.nextId).1 = .ok program)
    (accepted' : (Source.accept later (Source.accept source s.nextId).2).1 = .ok program')
    (fuel : Nat) {halt : Halt} (halted : (s.run fuel source).1 = .error (.halted halt))
    (early : halt ≠ .sink .flush) :
    (s.run fuel (source ++ "\n" ++ later)).1 = .error (.halted halt) ∧
      (s.run fuel (source ++ "\n" ++ later)).2.machine =
        (s.run fuel source).2.machine.recordAll program'.bindings := by
  rcases run_first below accepted accepted' fuel with ⟨last, m₁, one, -⟩ | flushed |
    ⟨halt', m₁, one, other⟩
  · rw [one] at halted
    cases halted
  · rw [flushed] at halted
    cases halted
    exact absurd rfl early
  · rw [one] at halted ⊢
    cases halted
    rw [run_join accepted accepted', perform, runProgram_eq, runFrom_append_of_error other]
    exact ⟨rfl, rfl⟩

end

end Session

/-- Running two accepted sources in turn agrees with running both as one, in every session. Both in one
are accepted. If the first source ends, the one run comes to what the second source comes to after it: the
same value or the same message up to its line, the same output, and the same globals and objects up to the
lines of their code. If the first source halts, other than by the flush at its end, the one run halts with
the same message and has done the same. -/
theorem batch_agrees_with_turns (source later : String) (passed : Source.check source = .ok ())
    (passed' : Source.check later = .ok ()) (nonempty : (Source.program later 0).result ≠ [])
    (sink : Sink) (clock : Nat → Float) (requests : List Request) (fuel : Nat) :
    let s := (Session.start sink clock).afterAll requests
    let first := s.run fuel source
    let batch := s.run fuel (source ++ "\n" ++ later)
    Source.check (source ++ "\n" ++ later) = .ok () ∧
    (∀ value, first.1 = .ok value → SameButLines batch (first.2.run fuel later)) ∧
    ∀ halt, first.1 = .error (.halted halt) → halt ≠ .sink .flush →
      batch.1 = .error (.halted halt) ∧
        batch.2.machine = { first.2.machine with distances := batch.2.machine.distances } := by
  intro s first batch
  have below : s.machine.store.Below s.nextId :=
    Session.afterAll_below (Session.start_below sink clock) requests
  obtain ⟨program, accepted⟩ := Source.accepted_of_check passed s.nextId
  obtain ⟨program', accepted'⟩ :=
    Source.accepted_of_check passed' (Source.accept source s.nextId).2
  have joined := Source.accept_join accepted accepted'
  refine ⟨Source.check_of_accepted (congrArg Prod.fst joined), fun value ended => ?_,
    fun halt halted early => ?_⟩
  · refine Session.run_join_of_ended below accepted accepted' ?_ fuel ended
    rw [(Source.accept_eq_ok.mp accepted').2.1, Source.program_shift]
    exact fun none => nonempty (List.map_eq_nil_iff.mp none)
  · obtain ⟨same, machine⟩ := Session.run_join_of_halted below accepted accepted' fuel halted early
    refine ⟨same, ?_⟩
    rw [show batch.2.machine = _ from machine]
    exact Lexical.recordAll_eq _ program'.bindings

/-- A function that is declared in the first source and called in the second one finds the global of the
second one either way. -/
theorem later_global_found_either_way :
    let s := Session.start .unlimited fun _ => 0
    let first := s.run 4 "fun f()\x7breturn a;\x7d"
    first.1 = .ok .nil ∧
      SameButLines (s.run 4 ("fun f()\x7breturn a;\x7d" ++ "\n" ++ "var a=true;f();"))
        (first.2.run 4 "var a=true;f();") := by
  have ended : ((Session.start .unlimited fun _ => 0).run 4 "fun f()\x7breturn a;\x7d").1 =
      .ok .nil := by cbv
  have agrees := batch_agrees_with_turns "fun f()\x7breturn a;\x7d" "var a=true;f();" (by cbv) (by cbv)
    (by cbv; rintro ⟨⟩) .unlimited (fun _ => 0) [] 4
  exact ⟨ended, agrees.2.1 .nil ended⟩

end Lox
