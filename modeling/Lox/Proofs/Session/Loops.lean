import Mathlib
import Lox.Proofs.Lexical.Apart
import Lox.Proofs.Lexical.Refinement
import Lox.Proofs.Session.Soundness

/-!
# `for` loops are run as they are written

A `for` loop is read as a `while` loop with blocks around its parts, and the walk counts the frames of these
blocks. Wherever an accepted program comes to such a loop, the frames do what the direct loop does lexically: one
scope for the initializer, which all rounds share, and no scope for a round.
-/

namespace Lox

namespace Lexical

/-! ### The same outcome -/

/-- What has captured a frame on the one machine and an environment on the other: a function, or a method of
a class. -/
inductive Captor (m : Machine) (μ : State) : FrameId → Env → Prop
  | function {f : FunctionId} {closure : Lox.Closure} {closure' : Closure}
    (here : m.store.functionAt? f = some closure) (there : μ.functionAt? f = some closure') :
    Captor m μ closure.frame closure'.env
  | method {c : ClassId} {cls : Lox.Class} {cls' : Class} {name : String} {closure : Lox.Closure}
    {closure' : Closure} (here : m.store.classAt? c = some cls) (there : μ.classAt? c = some cls')
    (own : cls.methods.get? name = some closure) (own' : cls'.methods.get? name = some closure') :
    Captor m μ closure.frame closure'.env

/-- What a run from `m` to `m'` has done is what a lexical run has done that has come to `μ'`. Before the runs
the locations had the slots `cells`. -/
structure SameEffect (L : List Lookup) (g : FrameId) (cells : List Slot) (m m' : Machine) (μ' : State) :
    Prop where
  sink : m'.sink = μ'.sink
  readings : m'.readings = μ'.readings
  callDepth : m'.callDepth = μ'.callDepth
  objects : SameObjects m'.store μ'
  /-- The scopes that were opened have been left. -/
  current : m'.current = m.current
  links : ∀ f outer, m.store.enclosing? f = some outer → m'.store.enclosing? f = some outer
  globals : ∀ x, m'.store.binding? g x = μ'.globals.get? x
  /-- No binding of a frame is lost. -/
  kept : ∀ f x, (m.store.binding? f x).isSome → (m'.store.binding? f x).isSome
  /-- What a frame that was there before binds now is the value at a location that was there before. -/
  locals : ∀ f x v, f ≠ g → f.index < m.store.frames.size → m'.store.binding? f x = some v →
    ∃ i : Nat, cells[i]? = some ⟨f, x⟩ ∧ μ'.cells[i]? = some v
  /-- All that has captured a location reaches one frame for it, a new one for a new location. -/
  shared : ∀ (ℓ : Location) x, ∃ f, (cells.length ≤ ℓ.index → m.store.frames.size ≤ f.index) ∧
    ∀ frame ρ, Captor m' μ' frame ρ → ρ.find? x = some ℓ →
      (∃ d, m'.store.ancestor? frame d = some f) ∧
        ∀ v, m'.store.binding? f x = some v → μ'.cells[ℓ.index]? = some v
  /-- Whatever is run next does the same on both machines. -/
  agree : ∃ cells', cells <+: cells' ∧ Agree L g cells' m' μ'

/-- The same flow or the same halt, with the same effect. -/
def SameOutcome (L : List Lookup) (g : FrameId) (cells : List Slot) (m : Machine) :
    EStateM.Result Halt Machine Flow → EStateM.Result Halt State Flow → Prop
  | .ok flow m', .ok flow' μ' => flow = flow' ∧ SameEffect L g cells m m' μ'
  | .error halt m', .error halt' μ' => halt = halt' ∧ SameEffect L g cells m m' μ'
  | _, _ => False

variable {L : List Lookup} {g : FrameId} {cells cells' : List Slot} {m m' : Machine} {μ μ' : State}

/-- What has been captured stands for an environment. -/
theorem Captor.placed {frame : FrameId} {ρ : Env} (captor : Captor m μ frame ρ)
    (agree : Agree L g cells m μ) : ∃ Γ, Placed cells m.store g frame Γ ρ := by
  cases captor with
  | @function f _ _ here there =>
    have both := agree.functionAt? f
    rw [here, there] at both
    cases both with
    | some both => exact ⟨_, both.choose_spec.1.placed⟩
  | @method c cls cls' name _ _ here there own own' =>
    have both := agree.classes.places c.index
    rw [Store.classAt?] at here
    rw [State.classAt?] at there
    rw [here, there] at both
    cases both with
    | some both =>
      have methods := both.methods name
      rw [own, own'] at methods
      cases methods with
      | some both => exact ⟨_, both.choose_spec.1.placed⟩

/-- From what stands for an environment, links lead to the frame of the slot of each of its locations. -/
theorem Placed.reaches {s : Store} {f : FrameId} {Γ : Scopes} {ρ : Env} {x : String} {ℓ : Location}
    (placed : Placed cells s g f Γ ρ) (found : ρ.find? x = some ℓ) :
    ∃ d frame, s.ancestor? f d = some frame ∧ cells[ℓ.index]? = some ⟨frame, x⟩ := by
  cases inside : Γ.depth x with
  | none => cases (placed.global inside).symm.trans found
  | some d =>
    obtain ⟨frame, ℓ', reached, found', slot, _⟩ := placed.local_ inside
    cases found.symm.trans found'
    exact ⟨d, frame, reached, slot⟩

/-- A slot that is new lies in a frame that is new. -/
theorem Later.new_frame (later : Later none cells m cells' m') (agree : Agree L g cells' m' μ') {i : Nat}
    {slot : Slot} (found : cells'[i]? = some slot) (new : cells.length ≤ i) :
    m.store.frames.size ≤ slot.frame.index := by
  rcases later.apart slot (List.mem_of_getElem? found) with old | fresh | near
  · -- an old slot has an old place, and no other one
    obtain ⟨j, there⟩ := List.mem_iff_getElem?.mp old
    obtain ⟨inside, _⟩ := List.getElem?_eq_some_iff.mp there
    obtain ⟨bounded, _⟩ := List.getElem?_eq_some_iff.mp found
    have same : i = j := (List.getElem?_inj bounded agree.frames.distinct).mp
      (found.trans (getElem?_of_isPrefix later.grown there).symm)
    exact absurd inside (Nat.not_lt.mpr (same ▸ new))
  · exact fresh
  · cases near

/-- Runs apart from every old frame that end on machines that agree have the same effect. -/
theorem Later.sameEffect (later : Later none cells m cells' m') (agree : Agree L g cells' m' μ') :
    SameEffect L g cells m m' μ' where
  sink := agree.sink.symm
  readings := agree.readings.symm
  callDepth := agree.callDepth.symm
  objects := agree.sameObjects
  current := later.current
  links := fun _ _ link => later.links link
  globals := agree.frames.globals
  kept := fun f x bound => by
    obtain ⟨v, found⟩ := Option.isSome_iff_exists.mp bound
    obtain ⟨v', found', _⟩ := later.bound found
    rw [found']
    rfl
  locals := fun f x v other old bound => by
    have slot : ⟨f, x⟩ ∈ cells := by
      rcases agree.frames.covered bound with same | member
      · exact absurd same other
      · rcases later.apart _ member with member | fresh | near
        · exact member
        · exact absurd old (Nat.not_lt.mpr fresh)
        · cases near
    obtain ⟨i, found⟩ := List.mem_iff_getElem?.mp slot
    exact ⟨i, found, agree.frames.values (getElem?_of_isPrefix later.grown found) bound⟩
  shared := fun ℓ x => by
    have leads {frame : FrameId} {ρ : Env} (captor : Captor m' μ' frame ρ) (found : ρ.find? x = some ℓ) :
        ∃ d f, m'.store.ancestor? frame d = some f ∧ cells'[ℓ.index]? = some ⟨f, x⟩ :=
      (captor.placed agree).choose_spec.reaches found
    cases slot : cells'[ℓ.index]? with
    | none =>
      -- nothing has captured what is no location
      refine ⟨⟨m.store.frames.size⟩, fun _ => Nat.le_refl _, fun frame ρ captor found => ?_⟩
      obtain ⟨d, f, _, there⟩ := leads captor found
      cases slot.symm.trans there
    | some home =>
      refine ⟨home.frame, later.new_frame agree slot, fun frame ρ captor found => ?_⟩
      obtain ⟨d, f, reached, there⟩ := leads captor found
      cases slot.symm.trans there
      exact ⟨⟨d, reached⟩, fun v bound => agree.frames.values slot bound⟩
  agree := ⟨cells', later.grown, agree⟩

theorem Matches.sameOutcome {r : EStateM.Result Halt Machine Flow} {r' : EStateM.Result Halt State Flow}
    (outcome : Matches L g none cells m Equal r r') : SameOutcome L g cells m r r' := by
  rcases outcome.cases with ⟨flow, m', flow', μ', cells', rfl, rfl, later, agree, same⟩ |
    ⟨halt, m', μ', cells', rfl, rfl, _, later, agree⟩
  · exact ⟨same.symm, later.sameEffect agree⟩
  · exact ⟨rfl, later.sameEffect agree⟩

/-! ### Loops where they stand -/

/-- Around the body of a loop that is well-scoped there are scopes in which the body is. -/
theorem scoped_of_forLoop {Γ : Scopes} {initializer : Option Stmt} {condition increment : Option Expr}
    {body : Stmt} (code : (Stmt.forLoop initializer condition increment body).Scoped L Γ) :
    ∃ Γ', body.Scoped L Γ' := by
  have within {Γ : Scopes} {step : Stmt}
      (code : (Stmt.while (condition.getD (.literal (.bool true))) step).Scoped L Γ) : step.Scoped L Γ := by
    rw [Stmt.Scoped] at code
    exact code.2.1
  have step {Γ : Scopes} (code : (stepOf increment body).Scoped L Γ) : ∃ Γ', body.Scoped L Γ' := by
    cases increment with
    | none => exact ⟨_, code⟩
    | some e =>
      rw [stepOf, Stmt.Scoped, statementsScoped] at code
      exact ⟨_, code.1⟩
  cases initializer with
  | none => exact step (within code)
  | some s =>
    simp only [Stmt.forLoop] at code
    rw [Stmt.Scoped, statementsScoped, statementsScoped] at code
    exact step (within code.2.1)

theorem declared?_forLoop (initializer : Option Stmt) (condition increment : Option Expr) (body : Stmt) :
    (Stmt.forLoop initializer condition increment body).declared? = none := by
  cases initializer <;> rfl

/-- Where a loop stands, the frames come to what the direct loop comes to, within the same bound if that does
not stop them. And what the direct loop comes to, they come to within a bound with room for the blocks. -/
theorem Sited.forLoop_runs {Γ : Scopes} {ρ : Env} {initializer : Option Stmt}
    {condition increment : Option Expr} {body : Stmt} (sited : Sited L g m.current Γ ρ cells m μ)
    (code : (Stmt.forLoop initializer condition increment body).Scoped L Γ)
    (parts : IsForLoop initializer body) (n : Nat) :
    (OutOfFuel (Lox.execute n (.forLoop initializer condition increment body) m) ∨
      SameOutcome L g cells m (Lox.execute n (.forLoop initializer condition increment body) m)
        (forLoop n ρ initializer condition increment body μ)) ∧
    (OutOfFuel (forLoop n ρ initializer condition increment body μ) ∨
      SameOutcome L g cells m (Lox.execute (n + 8) (.forLoop initializer condition increment body) m)
        (forLoop n ρ initializer condition increment body μ)) := by
  obtain ⟨Γ', within⟩ := scoped_of_forLoop code
  have silent := declared?_forLoop initializer condition increment body
  have built (n : Nat) := (apart L g n).execute sited code silent
  constructor
  · rcases forLoop_below within parts.silent parts.starts n ρ μ with ⟨μ', out⟩ | same
    · have outcome := built n
      rw [out] at outcome
      rcases outcome.cases with ⟨_, _, _, _, _, _, right, _⟩ | ⟨halt, m', _, _, left, right, _⟩
      · cases right
      · cases right
        exact .inl ⟨m', left⟩
    · rw [same]
      exact .inr (built n).sameOutcome
  · refine (forLoop_above within parts.silent parts.starts n ρ μ).imp_right fun same => ?_
    rw [← same]
    exact (built (n + 8)).sameOutcome

end Lexical

/-- `for` loops are run as they are written. What is read for one is put together from the parts that have been
read. And wherever an accepted program comes to what is read for one, whatever has been run before, the frames
do what the direct loop does, which is carried out lexically from the state that they stand for and knows no
frames and no distances. If neither has used up its bound, they have the same flow or the same halt, the same
output and the same effect on objects and on the frames that were there before; the direct loop comes to
nothing that the frames do not come to as well; and all that has captured a variable shares one frame for it.
The variable that a loop declares has one new location, in which all rounds find it. -/
theorem for_loops_run_as_written (sink : Sink) (clock : Nat → Float) (runs : List (Nat × String))
    (fuel : Nat) (source : String) :
    let s := (Session.start sink clock).afterRuns runs
    let g := s.machine.globals
    (∀ n t loop t', Grammar.forStatement n t = .ok loop t' → ∃ initializer condition increment body,
      Grammar.forParts n t = .ok (initializer, condition, increment, body) t' ∧
        IsForLoop initializer body ∧ loop = .forLoop initializer condition increment body) ∧
    ∀ program, (Source.accept source s.nextId).1 = .ok program →
      ∀ initializer condition increment body, IsForLoop initializer body →
        let loop := Stmt.forLoop initializer condition increment body
        ∀ k m, ProgramReaches fuel (s.machine.recordAll program.bindings) program.statements k m
            (.execute loop) →
          ∃ L Γ cells μ ρ, Lexical.Sited L g m.current Γ ρ cells m μ ∧ loop.Scoped L Γ ∧
            (∀ n, (Lexical.OutOfFuel (execute n loop m) ∨
                Lexical.SameOutcome L g cells m (execute n loop m)
                  (Lexical.forLoop n ρ initializer condition increment body μ)) ∧
              (Lexical.OutOfFuel (Lexical.forLoop n ρ initializer condition increment body μ) ∨
                Lexical.SameOutcome L g cells m (execute (n + 8) loop m)
                  (Lexical.forLoop n ρ initializer condition increment body μ))) ∧
            ∀ name value, initializer = some (.var name value) →
              ∃ inside : Lexical.Env, inside.find? name.text = some ⟨cells.length⟩ ∧
                ∀ n, Lexical.forLoop (n + 1) ρ initializer condition increment body μ = (do
                  let first ← Lexical.evaluateOptional n inside value
                  Lexical.Run.define inside name.text first
                  Lexical.rounds (n + 1) inside condition increment body)
                    { μ with cells := μ.cells.push .nil } := by
  intro s g
  refine ⟨fun n t loop t' => Grammar.forStatement_reads, ?_⟩
  intro program accepted initializer condition increment body parts loop k m reaches
  obtain ⟨L, cells₀, μ₀, standing⟩ := (Session.Standing.start sink clock).afterRuns runs
  obtain ⟨L', begun, _⟩ := standing.begin accepted
  obtain ⟨Γ, ⟨cells, μ, ρ, sited⟩, code⟩ :=
    Lexical.ready_of_programReaches reaches begun.agree begun.current begun.code
  refine ⟨L', Γ, cells, μ, ρ, sited, code, sited.forLoop_runs code parts, ?_⟩
  rintro name value rfl
  rw [sited.agree.frames.count]
  exact Lexical.forLoop_var ρ name value condition increment body μ

/-- A loop at top level comes to its end on the frames, and so the direct loop has printed the same. -/
theorem loop_at_top_prints_as_written :
    let i : Name := ⟨"i", 1⟩
    let initializer := Stmt.var i (some (.literal (.bool true)))
    let condition := Expr.variable i 0
    let increment := Expr.assign i (.literal (.bool false)) 2
    let body := Stmt.print (.variable i 3)
    let loop := Stmt.forLoop (some initializer) (some condition) (some increment) body
    let program : Accepted := ⟨[loop], [(0, 0), (3, 1), (2, 1)]⟩
    let m := (Session.start .unlimited fun _ => 0).machine.recordAll program.bindings
    (Source.accept "for(var i=true;i;i=false)print i;" 0).1 = .ok program ∧
      ∃ L cells μ ρ m' flow μ',
        Lexical.forLoop 20 ρ (some initializer) (some condition) (some increment) body μ = .ok flow μ' ∧
          Lexical.SameEffect L m.globals cells m m' μ' ∧ μ'.sink.written = "true\n".toUTF8 := by
  intro i initializer condition increment body loop program m
  have accepted : (Source.accept "for(var i=true;i;i=false)print i;" 0).1 = .ok program := by cbv
  have parts : IsForLoop (some initializer) body := ⟨fun s same => Option.some.inj same ▸ trivial, rfl⟩
  have reaches : ProgramReaches 20 m program.statements 20 m (.execute loop) := .first .refl
  -- the run on the frames ends, and has printed once
  have ended : ((execute 20 loop).run' m).isSome := by
    simp only [m, program, loop, body, increment, condition, initializer, i]
    cbv
  have printed : (finalMachine (execute 20 loop m)).sink.written = "true\n".toUTF8 := by
    simp only [m, program, loop, body, increment, condition, initializer, i]
    cbv
  obtain ⟨L, Γ, cells, μ, ρ, -, -, runs, -⟩ :=
    (for_loops_run_as_written .unlimited (fun _ => 0) [] 20 "for(var i=true;i;i=false)print i;").2 program
      accepted (some initializer) (some condition) (some increment) body parts 20 m reaches
  have within := (runs 20).1
  refine ⟨accepted, L, cells, μ, ρ, ?_⟩
  unfold EStateM.run' EStateM.run at ended
  cases built : execute 20 loop m with
  | error halt m' =>
    rw [built] at ended
    cases ended
  | ok flow m' =>
    rw [built] at printed within
    cases direct : Lexical.forLoop 20 ρ (some initializer) (some condition) (some increment) body μ with
    | error halt μ' =>
      rw [direct] at within
      rcases within with ⟨_, out⟩ | same
      · cases out
      · exact same.elim
    | ok flow' μ' =>
      rw [direct] at within
      rcases within with ⟨_, out⟩ | ⟨_, effect⟩
      · cases out
      · refine ⟨m', flow', μ', rfl, effect, ?_⟩
        rw [← effect.sink]
        exact printed

end Lox
