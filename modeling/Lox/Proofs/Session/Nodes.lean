import Lox.Proofs.Session.Course

/-!
# Nodes and their distances

Whatever a session is asked to read, each tree gets node identities that no tree before has. So a program
that is run adds distances for its own nodes only, a distance that is on record stays as it is, and none is
ever recorded for a node of an expression that is evaluated alone: its variables are global.
-/

namespace Lox

/-- The bindings of an accepted program are of nodes of its own. -/
theorem Source.accept_nodes {source : String} {firstId : NodeId} {program : Accepted}
    (accepted : (Source.accept source firstId).1 = .ok program) :
    ∀ b ∈ program.bindings, b.1 ∈ statementIds (Source.program source firstId).result := by
  intro b member
  obtain ⟨-, -, resolved⟩ := Source.accept_eq_ok.mp accepted
  unfold Resolution.bindings? at resolved
  split at resolved
  · injection resolved with bindings
    rw [← bindings] at member
    have node := (Lookup.bindings_sublist _).subset (List.mem_map_of_mem member)
    exact (Resolution.ofProgram_lookups _).subset node
  · cases resolved

namespace Session

/-! ### Identities -/

/-- The identities of the nodes in the tree that is read for a request, accepted or not. -/
def treeIds (s : Session) : Request → List NodeId
  | .run _ source | .check source => statementIds (Source.program source s.nextId).result
  | .evaluate _ source => optionalIds (Source.soleExpression source s.nextId).result

/-- The identities of the nodes in all trees that are read for the requests in order. -/
def allTreeIds (s : Session) : List Request → List NodeId
  | [] => []
  | r :: rest => s.treeIds r ++ (s.after r).allTreeIds rest

variable {s : Session}

theorem after_nextId (s : Session) (r : Request) :
    (s.after r).nextId = match r with
      | .run _ source | .check source => (Source.program source s.nextId).nextId
      | .evaluate _ source => (Source.soleExpression source s.nextId).nextId := by
  cases r with
  | run fuel source =>
    unfold after Session.run
    dsimp only
    split
    · rfl
    · exact congrArg Session.nextId (perform_snd _ _ _)
  | evaluate fuel source =>
    unfold after Session.evaluate
    dsimp only
    split
    · rfl
    · exact congrArg Session.nextId (perform_snd _ _ _)
  | check source =>
    unfold after Session.check
    dsimp only
    split <;> rfl

/-- A tree has different identities, all of them handed out for the request. -/
theorem treeIds_numbered (s : Session) (r : Request) :
    Numbered s.nextId (s.after r).nextId (s.treeIds r) := by
  rw [after_nextId]
  cases r with
  | run fuel source => exact (Source.program_isRead source s.nextId).2
  | check source => exact (Source.program_isRead source s.nextId).2
  | evaluate fuel source =>
    obtain ⟨range, read⟩ := Source.soleExpression_isRead source s.nextId
    change Numbered s.nextId (Source.soleExpression source s.nextId).nextId
      (optionalIds (Source.soleExpression source s.nextId).result)
    cases result : (Source.soleExpression source s.nextId).result with
    | none => exact .nil range
    | some e => exact (read e result).numbered

/-- The trees of a session have different identities, by induction on the requests. -/
theorem allTreeIds_numbered (s : Session) (requests : List Request) :
    Numbered s.nextId (s.afterAll requests).nextId (s.allTreeIds requests) := by
  induction requests generalizing s with
  | nil => exact .nil (Nat.le_refl _)
  | cons r rest ih => exact (s.treeIds_numbered r).append (ih (s.after r))

/-! ### Distances -/

/-- Nothing is on record for identities that have not been handed out. -/
def Unassigned (s : Session) : Prop := ∀ i, s.nextId ≤ i → s.machine.distances[i]? = none

/-- Only a run changes what is on record, and only for nodes of its own tree. -/
theorem distances_after {r : Request} {i : NodeId}
    (other : (∃ fuel source, r = .run fuel source) → i ∉ s.treeIds r) :
    (s.after r).machine.distances[i]? = s.machine.distances[i]? := by
  cases r with
  | run fuel source =>
    cases verdict : (Source.accept source s.nextId).1 with
    | error diagnostics => rw [after_run_of_rejected verdict]
    | ok program =>
      have kept := (runProgram_restores fuel program.statements
        (s.machine.recordAll program.bindings)).distances
      rw [after_run_of_accepted verdict, kept]
      refine s.machine.distances_recordAll_of_notMem fun b member same => ?_
      exact other ⟨fuel, source, rfl⟩ (same ▸ Source.accept_nodes verdict b member)
  | evaluate fuel source =>
    cases read : (Source.soleExpression source s.nextId).toExcept with
    | error diagnostics => rw [after_evaluate_of_rejected read]
    | ok e =>
      have kept := (Task.restores fuel (.evaluate e) s.machine).distances
      rw [after_evaluate_of_read read]
      exact congrArg (·[i]?) kept
  | check source => rw [after, check_machine]

/-- Nodes that have been read keep what is on record for them, whatever comes later. -/
theorem distances_afterAll {i : NodeId} (old : i < s.nextId) (requests : List Request) :
    (s.afterAll requests).machine.distances[i]? = s.machine.distances[i]? := by
  unfold afterAll
  induction requests generalizing s with
  | nil => rfl
  | cons r rest ih =>
    have numbered := s.treeIds_numbered r
    refine (ih (Nat.lt_of_lt_of_le old numbered.range)).trans (distances_after fun _ member => ?_)
    exact absurd (numbered.bounds i member).1 (Nat.not_le.mpr old)

theorem Unassigned.after (unassigned : Unassigned s) (r : Request) : Unassigned (s.after r) := by
  intro i free
  have numbered := s.treeIds_numbered r
  rw [distances_after fun _ member => absurd (numbered.bounds i member).2 (Nat.not_lt.mpr free)]
  exact unassigned i (Nat.le_trans numbered.range free)

theorem unassigned_afterAll (sink : Sink) (clock : Nat → Float) (requests : List Request) :
    Unassigned ((Session.start sink clock).afterAll requests) := by
  have start : Unassigned (Session.start sink clock) := fun _ _ => Std.TreeMap.getElem?_emptyc
  revert start
  unfold afterAll
  generalize Session.start sink clock = s
  induction requests generalizing s with
  | nil => exact id
  | cons r rest ih => exact fun unassigned => ih (s.after r) (unassigned.after r)

end Session

/-! ### Global variables -/

/-- What a frame that links to no other finds under a name is what it binds itself. -/
theorem Store.holder_of_root {s : Store} {g : FrameId} {frame : Frame}
    (found : s.frameAt? g = some frame) (root : frame.enclosing = none) (name : String) :
    s.holder g name = match s.binding? g name with
      | some _ => .ok g
      | none => .error (.undefinedVariable name) := by
  rw [holder, holder?, binding?, found]
  dsimp only [Option.bind_some]
  rw [root, Table.contains]
  cases frame.bindings.get? name <;> rfl

/-- A node stands for a global variable: its name is read and assigned in the global frame itself. -/
structure Machine.IsGlobal (m : Machine) (g : FrameId) (i : NodeId) : Prop where
  reads : ∀ (n : Nat) (name : Name), evaluate (n + 1) (.variable name i) m =
    match m.store.binding? g name.text with
    | some a => .ok a m
    | none => .error (.runtime ⟨.undefinedVariable name.text, name.line⟩) m
  assigns : ∀ (n : Nat) (name : Name) (value : Expr) (a : Value) (m' : Machine),
    evaluate n value m = .ok a m' → evaluate (n + 1) (.assign name value i) m =
      match m'.store.binding? g name.text with
      | some _ => .ok a { m' with store := m'.store.define g name.text a }
      | none => .error (.runtime ⟨.undefinedVariable name.text, name.line⟩) m'

section

variable {m : Machine} {i : NodeId} {frame : Frame}
  (found : m.store.frameAt? m.globals = some frame) (root : frame.enclosing = none)
  (free : m.distances[i]? = none)

include found root free

private theorem evaluate_global (n : Nat) (name : Name) : evaluate (n + 1) (.variable name i) m =
    match m.store.binding? m.globals name.text with
    | some a => .ok a m
    | none => .error (.runtime ⟨.undefinedVariable name.text, name.line⟩) m := by
  have holder := Store.holder_of_root found root name.text
  have lookUp : m.lookUp i name.text = m.store.get m.globals name.text := by
    rw [Machine.lookUp, free]
  rw [evaluate]
  cases bound : m.store.binding? m.globals name.text with
  | none =>
    rw [bound] at holder
    refine Run.read_of_error ?_ name.line
    rw [lookUp, Store.get, holder]
    rfl
  | some a =>
    rw [bound] at holder
    refine Run.read_of_ok ?_ name.line
    rw [lookUp, Store.get, holder]
    change m.store.bound m.globals name.text = _
    rw [Store.bound, bound]

private theorem assign_global (name : Name) (a : Value) : Run.assign i name a m =
    match m.store.binding? m.globals name.text with
    | some _ => .ok () { m with store := m.store.define m.globals name.text a }
    | none => .error (.runtime ⟨.undefinedVariable name.text, name.line⟩) m := by
  have holder := Store.holder_of_root found root name.text
  have target : m.target i name.text = m.store.holder m.globals name.text := by
    rw [Machine.target, free]
  rw [Run.assign]
  cases bound : m.store.binding? m.globals name.text with
  | none =>
    rw [bound] at holder
    exact Run.bind_of_error (Run.read_of_error (target.trans holder) name.line) _
  | some _ =>
    rw [bound] at holder
    exact Run.bind_of_ok (Run.read_of_ok (target.trans holder) name.line) _

/-- A node without a distance stands for a global variable. -/
theorem Machine.isGlobal : m.IsGlobal m.globals i := by
  refine ⟨evaluate_global found root free, fun n name value a m' done => ?_⟩
  -- the value has been evaluated among the same globals
  obtain ⟨globals, distances⟩ := place_evolution.of_ok (.evaluate value) done
  obtain ⟨frame', found', link, -⟩ := (heap_evolution.of_ok (.evaluate value) done).frames found
  rw [← globals] at found' ⊢
  rw [← distances] at free
  have assigned := assign_global found' (link.trans root) free name a
  rw [evaluate, Run.bind_of_ok done]
  cases bound : m'.store.binding? m'.globals name.text with
  | none =>
    rw [bound] at assigned
    exact Run.bind_of_error assigned _
  | some _ =>
    rw [bound] at assigned
    exact Run.bind_of_ok assigned _

end

/-! ### Sessions -/

/-- Nodes keep their distances. The trees that are read in a session, accepted or not, have different node
identities, all of them. A request that is no run records nothing, and a run records distances for nodes of
its own tree only, which had none. From then on the distance of a node of this tree or of one before never
changes, neither in the course of the request nor for the rest of the session. The nodes of an expression
that is evaluated alone never get any, and throughout the evaluation they stand for global variables. -/
theorem nodes_keep_their_distances (sink : Sink) (clock : Nat → Float) (requests : List Request)
    (r : Request) (later : List Request) :
    let start := Session.start sink clock
    let s := start.afterAll requests
    (start.allTreeIds (requests ++ r :: later)).Nodup ∧
    (∀ i, (s.after r).machine.distances[i]? ≠ s.machine.distances[i]? →
      (∃ fuel source, r = .run fuel source) ∧ i ∈ s.treeIds r ∧ s.machine.distances[i]? = none) ∧
    (∀ i ∈ start.allTreeIds (requests ++ [r]),
      (∀ k m t, s.ComesTo r k m t → m.distances[i]? = (s.after r).machine.distances[i]?) ∧
      ((s.after r).afterAll later).machine.distances[i]? = (s.after r).machine.distances[i]?) ∧
    ∀ fuel source, r = .evaluate fuel source → ∀ i ∈ s.treeIds r,
      s.machine.distances[i]? = none ∧
      ((s.after r).afterAll later).machine.distances[i]? = none ∧
      ∀ k m t, s.ComesTo r k m t → m.IsGlobal s.machine.globals i := by
  intro start s
  have unassigned : s.Unassigned := Session.unassigned_afterAll sink clock requests
  have numbered := s.treeIds_numbered r
  -- a node of the tree has nothing on record before the tree is read
  have free : ∀ i ∈ s.treeIds r, s.machine.distances[i]? = none :=
    fun i member => unassigned i (numbered.bounds i member).1
  refine ⟨(start.allTreeIds_numbered _).distinct, fun i changed => ?_, fun i member =>
    ⟨fun k m t comes => ?_, ?_⟩, ?_⟩
  · have own : (∃ fuel source, r = .run fuel source) ∧ i ∈ s.treeIds r := by
      by_contra other
      exact changed (Session.distances_after fun runs member => other ⟨runs, member⟩)
    exact ⟨own.1, own.2, free i own.2⟩
  · rw [comes.place.2]
  · have old := ((start.allTreeIds_numbered (requests ++ [r])).bounds i member).2
    have last : start.afterAll (requests ++ [r]) = s.after r := List.foldl_append
    rw [last] at old
    exact Session.distances_afterAll old later
  · rintro fuel source rfl i member
    have kept : (s.after (.evaluate fuel source)).machine.distances[i]? = none :=
      (Session.distances_after fun ⟨_, _, same⟩ => nomatch same).trans (free i member)
    refine ⟨free i member, ?_, fun k m t comes => ?_⟩
    · exact (Session.distances_afterAll (numbered.bounds i member).2 later).trans kept
    · obtain ⟨globals, distances⟩ := comes.place
      obtain ⟨frame, found, root⟩ := Session.global_root sink clock requests
      obtain ⟨frame', found', link, -⟩ := comes.grows.1.frames found
      rw [← distances] at kept
      have isGlobal := Machine.isGlobal (globals.symm ▸ found') (link.trans root) kept
      rwa [globals] at isGlobal

end Lox
