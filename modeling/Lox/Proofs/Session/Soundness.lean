import Mathlib
import Lox.Proofs.Lexical.Reached
import Lox.Proofs.Session.Standing

/-!
# Soundness of resolution

Whatever has been run before, and whatever became of it, an accepted program finds each name where the
walk over it has said: at every node that it comes to, the recorded distance leads to a frame, and what is
read there is bound there. So no run halts with a fault that would be a mistake of the walk.
-/

namespace Lox

/-- What a recorded distance promises of the frames when a task is carried out within `n + 1`. -/
def Task.Resolved (n : Nat) (m : Machine) : Task → Prop
  | .evaluate (.variable name id) => ∀ d, m.distances[id]? = some d →
      ∃ frame value, m.store.ancestor? m.current d = some frame ∧
        m.store.binding? frame name.text = some value
  | .evaluate (.assign _ value id) => ∀ d, m.distances[id]? = some d →
      (m.store.ancestor? m.current d).isSome ∧
        ∀ a m', Lox.evaluate n value m = .ok a m' → (m'.store.ancestor? m'.current d).isSome
  | .evaluate (.this keyword id) => ∃ d frame i, m.distances[id]? = some d ∧
      m.store.ancestor? m.current d = some frame ∧
        m.store.binding? frame keyword.text = some (.instance_ i)
  | .evaluate (.super keyword _ id) => ∃ d frame c inner i, m.distances[id]? = some (d + 1) ∧
      (m.store.ancestor? m.current (d + 1) = some frame ∧
        m.store.binding? frame keyword.text = some (.class_ c)) ∧
      m.store.ancestor? m.current d = some inner ∧
        m.store.binding? inner Keyword.this.spelling = some (.instance_ i)
  | .callClosure closure arguments => closure.isInitializer → ∀ frame m₁ flow m₂,
      Run.callFrame closure arguments m = .ok frame m₁ →
      Run.inFrame frame (Lox.executeAll n closure.declaration.body) m₁ = .ok flow m₂ →
        ∃ i, Run.callResult closure flow m₂ = .ok (.instance_ i) m₂
  | _ => True

namespace Lexical

variable {L : List Lookup} {g : FrameId} {n : Nat} {m : Machine}

/-- A name in the open scopes has the frame that its depth leads to. -/
theorem Here.ancestor? {Γ : Scopes} {name : String} {d : Nat} (here : Here L g m Γ)
    (inside : Γ.depth name = some d) : (m.store.ancestor? m.current d).isSome := by
  obtain ⟨cells, μ, ρ, sited⟩ := here
  obtain ⟨frame, _, reached, _⟩ := sited.placed.local_ inside
  rw [reached]
  rfl

/-- A name in the open scopes that can be read is bound in the frame that its depth leads to. -/
theorem Here.getAt {Γ : Scopes} {name : String} {d : Nat} (here : Here L g m Γ)
    (held : Γ.Holds name d) :
    ∃ frame value, m.store.ancestor? m.current d = some frame ∧
      m.store.binding? frame name = some value ∧ Fits name value := by
  obtain ⟨cells, μ, ρ, sited⟩ := here
  obtain ⟨frame, value, reached, bound, _, fits⟩ := sited.placed.getAt sited.agree held
  exact ⟨frame, value, reached, bound, fits⟩

/-- The outcome of a look-up is on record wherever the machine stands. -/
theorem Here.recorded {Γ : Scopes} {l : Lookup} (here : Here L g m Γ) (found : l ∈ L) :
    m.distances[l.id]? = l.depth := by
  obtain ⟨cells, μ, ρ, sited⟩ := here
  exact sited.agree.distances l found

/-- An initializer that has ended gives the instance that it is bound to. -/
theorem callResult_of_ready {closure : Lox.Closure} {arguments : List Value} {frame : FrameId}
    {m₁ m₂ : Machine} {flow : Flow} (ready : Ready L g m (.callClosure closure arguments))
    (initializer : closure.isInitializer)
    (opened : Lox.Run.callFrame closure arguments m = .ok frame m₁)
    (ran : Lox.Run.inFrame frame (Lox.executeAll n closure.declaration.body) m₁ = .ok flow m₂) :
    ∃ i, Lox.Run.callResult closure flow m₂ = .ok (.instance_ i) m₂ := by
  obtain ⟨cells, μ, closure', agree, both, arity⟩ := ready
  -- the frame that the closure is bound in is still there when its body has ended
  obtain ⟨cells₁, μ₁, ρ, later₁, agree₁, _, Γ, sited, code⟩ :=
    (matches_callFrame agree both arity).of_ok opened
  have body := Matches.inFrame ((simulates L g n).executeAll sited.inFrame code)
  obtain ⟨cells₂, μ₂, _, later₂, agree₂, _⟩ := body.of_ok ran
  obtain ⟨i, received, _⟩ := ((both.mono later₁).mono later₂).receiver agree₂ initializer
  refine ⟨i, ?_⟩
  unfold Lox.Run.callResult
  rw [if_pos initializer]
  change Lox.Run.ofExcept _ (m₂.store.getAt closure.frame 0 Keyword.this.spelling) m₂ = _
  rw [received]
  rfl

/-- A task that is ready finds what the recorded distances promise. -/
theorem Ready.resolved {t : Task} (ready : Ready L g m t) (n : Nat) : t.Resolved n m := by
  match t with
  | .evaluate (.variable name id) =>
    obtain ⟨Γ, here, code⟩ := ready
    rw [Expr.Scoped] at code
    obtain ⟨_, readable, found⟩ := code
    intro d recorded
    have inside : Γ.depth name.text = some d := (here.recorded found).symm.trans recorded
    obtain ⟨frame, value, reached, bound, _⟩ := here.getAt ⟨inside, readable⟩
    exact ⟨frame, value, reached, bound⟩
  | .evaluate (.assign name value id) =>
    obtain ⟨Γ, here, code⟩ := ready
    rw [Expr.Scoped] at code
    obtain ⟨_, code, found⟩ := code
    intro d recorded
    -- the frame is reached before the value is evaluated, and again after it
    have inside : Γ.depth name.text = some d := (here.recorded found).symm.trans recorded
    exact ⟨here.ancestor? inside, fun a m' done => (here.evaluate code done).ancestor? inside⟩
  | .evaluate (.this keyword id) =>
    obtain ⟨Γ, here, code⟩ := ready
    rw [Expr.Scoped] at code
    obtain ⟨spelt, d, held, found⟩ := code
    obtain ⟨frame, value, reached, bound, fits⟩ := here.getAt held
    obtain ⟨i, rfl⟩ := fits.1 rfl
    exact ⟨d, frame, i, here.recorded found, reached, spelt ▸ bound⟩
  | .evaluate (.super keyword method id) =>
    obtain ⟨Γ, here, code⟩ := ready
    rw [Expr.Scoped] at code
    obtain ⟨spelt, d, this, super, found⟩ := code
    obtain ⟨frame, value, reached, bound, fits⟩ := here.getAt super
    obtain ⟨c, rfl⟩ := fits.2 rfl
    obtain ⟨inner, receiver, reached', bound', fits'⟩ := here.getAt this
    obtain ⟨i, rfl⟩ := fits'.1 rfl
    exact ⟨d, frame, c, inner, i, here.recorded found, ⟨reached, spelt ▸ bound⟩, reached', bound'⟩
  | .callClosure closure arguments =>
    exact fun initializer frame m₁ flow m₂ opened ran =>
      callResult_of_ready ready initializer opened ran
  | .evaluate (.literal _) | .evaluate (.grouping _) | .evaluate (.unary _ _)
  | .evaluate (.binary _ _ _) | .evaluate (.logical _ _ _) | .evaluate (.call _ _ _)
  | .evaluate (.get _ _) | .evaluate (.set _ _ _) | .evaluateAll _ | .call _ _ _
  | .construct _ _ | .execute _ | .evaluateOptional _ | .evaluateSuperclass _
  | .executeWhile _ _ | .executeAll _ => trivial

/-- All tasks that well-scoped statements come to at top level are ready, by induction on the statements
that have ended before. -/
theorem ready_of_programReaches {cells : List Slot} {μ : State} {fuel k : Nat} {m' : Machine}
    {statements : List Stmt} {t : Task} (reaches : ProgramReaches fuel m statements k m' t)
    (agree : Agree L g cells m μ) (current : m.current = g)
    (code : statementsScoped L [] statements) : Ready L g m' t := by
  induction reaches generalizing cells μ with
  | first reaches =>
    rw [statementsScoped] at code
    exact ready_of_reaches reaches ⟨[], ⟨cells, μ, .top, agree.sited current⟩, code.1⟩
  | rest done _ ih =>
    rw [statementsScoped, Stmt.after_nil] at code
    have first := (simulates L g fuel).execute (agree.sited current) code.1
    obtain ⟨cells₁, μ₁, _, later, agree₁, _⟩ := first.of_ok done
    exact ih agree₁ (later.current.trans current) code.2

end Lexical

/-! ### Sessions -/

namespace Session

/-- The session after runs of the given sources, each within its bound, whatever has become of them. -/
def afterRuns (s : Session) (runs : List (Nat × String)) : Session :=
  runs.foldl (fun s run => (s.run run.1 run.2).2) s

theorem Standing.afterRuns {L : List Lookup} {cells : List Lexical.Slot} {s : Session}
    {μ : Lexical.State} (standing : Standing L cells s μ) (runs : List (Nat × String)) :
    ∃ L' cells' μ', Standing L' cells' (s.afterRuns runs) μ' := by
  unfold Session.afterRuns
  induction runs generalizing L cells s μ with
  | nil => exact ⟨L, cells, μ, standing⟩
  | cons run rest ih =>
    obtain ⟨L', cells', μ', standing', _⟩ := standing.run run.1 run.2
    exact ih standing'

end Session

/-- Resolution is sound. After any runs of any sources, an accepted program finds at each node that it comes
to what the distance on record promises: the frames are there, a variable, `this` and `super` are bound in
the frame that is reached, `super` to a class and `this` one frame further in to an instance, `this` and
`super` always have a distance, and an initializer that ends gives its instance. And no run halts with a
fault that is ruled out. -/
theorem names_found_where_resolved (sink : Sink) (clock : Nat → Float)
    (runs : List (Nat × String)) (fuel : Nat) (source : String) :
    let s := (Session.start sink clock).afterRuns runs
    (∀ program, (Source.accept source s.nextId).1 = .ok program →
      ∀ n m t, ProgramReaches fuel (s.machine.recordAll program.bindings) program.statements
        (n + 1) m t → t.Resolved n m) ∧
    ∀ halt, (s.run fuel source).1 = .error (.halted halt) → ¬ halt.RuledOut := by
  intro s
  obtain ⟨L, cells, μ, standing⟩ := (Session.Standing.start sink clock).afterRuns runs
  constructor
  · intro program accepted n m t reaches
    obtain ⟨L', begun, _⟩ := standing.begin accepted
    exact (Lexical.ready_of_programReaches reaches begun.agree begun.current begun.code).resolved n
  · obtain ⟨_, _, _, _, possible, _⟩ := standing.run fuel source
    exact possible

/-- In a block the walk has found a variable in the innermost scope, and so it is bound in the frame of
the block when it is read. -/
theorem local_found_in_its_block :
    let program : Accepted :=
      ⟨[.block [.var ⟨"a", 1⟩ none, .expression (.variable ⟨"a", 1⟩ 0)]], [(0, 0)]⟩
    (Source.accept "\x7bvar a;a;\x7d" 0).1 = .ok program ∧
      ∃ m, ProgramReaches 5 ((Session.start .unlimited fun _ => 0).machine.recordAll program.bindings)
          program.statements 1 m (.evaluate (.variable ⟨"a", 1⟩ 0)) ∧
        m.distances[0]? = some 0 ∧
          ∃ frame value, m.store.ancestor? m.current 0 = some frame ∧
            m.store.binding? frame "a" = some value := by
  intro program
  have accepted : (Source.accept "\x7bvar a;a;\x7d" 0).1 = .ok program := by cbv
  have reaches : ∃ m, ProgramReaches 5
      ((Session.start .unlimited fun _ => 0).machine.recordAll program.bindings)
      program.statements 1 m (.evaluate (.variable ⟨"a", 1⟩ 0)) ∧ m.distances[0]? = some 0 := by
    refine ⟨_, .first (.step (.block rfl) (.step (.following rfl) (.step .statement
      (.step .expression .refl)))), ?_⟩
    exact Std.TreeMap.getElem?_insert_self
  obtain ⟨m, reaches, recorded⟩ := reaches
  have found := (names_found_where_resolved .unlimited (fun _ => 0) [] 5 "\x7bvar a;a;\x7d").1 program
    accepted 0 m _ reaches 0 recorded
  exact ⟨accepted, m, reaches, recorded, found⟩

end Lox
