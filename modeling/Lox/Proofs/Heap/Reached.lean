import Lox.Proofs.Heap.Chains
import Lox.Proofs.Heap.Grounding
import Lox.Proofs.Session.Course

/-!
# The heap of a session

In every state that a session comes to, whatever it is asked to run or to evaluate and whatever becomes of
it, the store is grounded. So frames and classes form no circles, and all that a session still holds on to
leads to the global frame.
-/

namespace Lox

open Run

variable {g : FrameId} {n k : Nat} {m m' : Machine} {t t' : Task}

/-! ### Tasks that are begun -/

section

variable (grounded : m.Grounded g)

include grounded

theorem grounded_of_evaluate {e : Expr} {a : Value} (done : evaluate n e m = .ok a m') :
    m'.Grounded g ∧ a.In m'.store := by
  obtain ⟨grounded', -, inside⟩ := ((grounding g n).evaluate grounded e).of_ok grounded done
  exact ⟨grounded', inside⟩

theorem grounded_of_execute {s : Stmt} {flow : Flow} (done : execute n s m = .ok flow m') :
    m'.Grounded g :=
  (((grounding g n).execute grounded s).of_ok grounded done).1

/-- A task that is begun finds a grounded store too, and refers only to what is there. -/
theorem Task.In.begins (inside : t.In m.store) (begins : Task.Begins n m t m' t') :
    m'.Grounded g ∧ t'.In m'.store := by
  cases begins with
  | grouping | operand | binaryLeft | logicalLeft | assigned | callee | getObject | setObject | first
  | expression | print | var | condition | loop | returned | superclass | value | parent | test
  | statement => exact ⟨grounded, trivial⟩
  | binaryRight done | logicalRight done _ | arguments done | setValue done | others done
  | thenBranch done _ | elseBranch done _ | turn done _ =>
    exact ⟨(grounded_of_evaluate grounded done).1, trivial⟩
  | call done given =>
    obtain ⟨grounded₁, callable⟩ := grounded_of_evaluate grounded done
    obtain ⟨grounded₂, grows, values⟩ :=
      ((grounding g n).evaluateAll grounded₁ _).of_ok grounded₁ given
    exact ⟨grounded₂, callable.grows grows, values⟩
  | function found _ _ =>
    exact ⟨⟨grounded.globals, grounded.store, grounded.current⟩,
      Store.GroundedIn.functions grounded.store found, inside.2⟩
  | class_ _ _ => exact ⟨⟨grounded.globals, grounded.store, grounded.current⟩, inside.1, inside.2⟩
  | body opened =>
    obtain ⟨grounded₁, -, has⟩ := (grounds_callFrame grounded inside.1 inside.2).of_ok grounded opened
    exact ⟨⟨grounded₁.globals, grounded₁.store, has⟩, trivial⟩
  | initializer made found bound =>
    obtain ⟨grounded₁, grows₁, this⟩ := (grounds_addInstance grounded inside.1).of_ok grounded made
    have has := grounded₁.store.findMethod found
    obtain ⟨grounded₂, grows₂, has⟩ := (grounds_bind grounded₁ has this).of_ok grounded₁ bound
    exact ⟨grounded₂, has, fun v member => (inside.2 v member).grows (grows₁.trans grows₂)⟩
  | block opened =>
    obtain ⟨grounded₁, -, has⟩ :=
      (grounds_addFrame grounded (Table.All.empty _) grounded.current).of_ok grounded opened
    exact ⟨⟨grounded₁.globals, grounded₁.store, has⟩, trivial⟩
  | following done => exact ⟨grounded_of_execute grounded done, trivial⟩
  | again done _ ran =>
    exact ⟨grounded_of_execute (grounded_of_evaluate grounded done).1 ran, trivial⟩

end

/-- So is one that is begun later on, by induction on the tasks between. -/
theorem Task.In.reaches (inside : t.In m.store) (grounded : m.Grounded g)
    (reaches : Task.Reaches n m t k m' t') : m'.Grounded g ∧ t'.In m'.store := by
  induction reaches with
  | refl => exact ⟨grounded, inside⟩
  | step begins _ ih =>
    obtain ⟨grounded', inside'⟩ := Task.In.begins grounded inside begins
    exact ih inside' grounded'

/-- And so are those that statements in order come to. -/
theorem grounded_of_programReaches {fuel : Nat} {statements : List Stmt} (grounded : m.Grounded g)
    (reaches : ProgramReaches fuel m statements k m' t) : m'.Grounded g ∧ t.In m'.store := by
  induction reaches with
  | first reaches => exact Task.In.reaches (t := .execute _) trivial grounded reaches
  | rest done _ ih => exact ih (grounded_of_execute grounded done)

/-! ### Programs -/

theorem grounds_runFrom (fuel : Nat) {last : Value} (statements : List Stmt) (grounded : m.Grounded g)
    (inside : last.In m.store) :
    Grounds g m (fun s v => v.In s) (runFrom fuel last statements m) := by
  induction statements generalizing m last with
  | nil => exact grounds_pure grounded inside
  | cons s rest ih =>
    refine ((grounding g fuel).execute grounded s).bind grounded ?_
    intro flow m₁ _ grounded₁ _ inside
    exact ih grounded₁ inside

theorem grounds_runProgram (fuel : Nat) (statements : List Stmt) (grounded : m.Grounded g) :
    Grounds g m (fun s v => v.In s) (runProgram fuel statements m) := by
  have nothing : Value.nil.In m.store := trivial
  refine (grounds_runFrom fuel statements grounded nothing).bind grounded ?_
  intro last m₁ _ grounded₁ _ inside
  have flushed : Grounds g m₁ (fun _ _ => True) (flush m₁) := by
    unfold flush
    split
    · exact ⟨grounded₁.refl, trivial⟩
    · exact grounded₁.refl
  refine flushed.bind grounded₁ ?_
  intro _ m₂ _ grounded₂ grows _
  exact grounds_pure grounded₂ (inside.grows grows)

/-! ### Sessions -/

/-- The machine stands in a frame of a grounded store, in which there are no circles of links. -/
structure Machine.Rooted (g : FrameId) (m : Machine) : Prop extends m.Grounded g where
  acyclic : m.store.Acyclic g

theorem Machine.Grounded.rooted (grounded : m.Grounded g) : m.Rooted g :=
  ⟨grounded, grounded.store.acyclic⟩

theorem Machine.Grounded.recordAll (grounded : m.Grounded g) (bindings : List Binding) :
    (m.recordAll bindings).Grounded g := by
  rw [Lexical.recordAll_eq]
  exact ⟨grounded.globals, grounded.store, grounded.current⟩

namespace Session

variable {s : Session}

theorem start_grounded (sink : Sink) (clock : Nat → Float) :
    (Session.start sink clock).machine.Grounded (Session.start sink clock).machine.globals where
  globals := rfl
  store := by
    -- the one frame that there is binds the built-in functions
    have first {f : FrameId} {frame : Frame}
        (found : (Session.start sink clock).machine.store.frameAt? f = some frame) :
        f = (Session.start sink clock).machine.globals ∧
          frame.bindings.All (Value.In (Session.start sink clock).machine.store) := by
      obtain ⟨index⟩ := f
      cases index with
      | zero =>
        cases found
        refine ⟨rfl, (Table.All.empty _).insertAll fun pair member => ?_⟩
        obtain ⟨native, -, rfl⟩ := List.mem_map.mp member
        trivial
      | succ index => cases found
    exact {
      root := ⟨_, Store.frameAt?_addFrame_self ∅ _ none, rfl⟩
      links := fun found other => absurd (first found).1 other
      bindings := fun found => (first found).2
      functions := nofun
      superclasses := nofun
      methods := nofun
      classes := nofun
      fields := nofun }
  current := Option.isSome_of_eq_some (Store.frameAt?_addFrame_self ∅ _ none)

/-- A request leaves the store grounded, whatever becomes of it. -/
theorem after_grounded (grounded : s.machine.Grounded g) (r : Request) :
    (s.after r).machine.Grounded g := by
  cases r with
  | run fuel source =>
    cases verdict : (Source.accept source s.nextId).1 with
    | error diagnostics =>
      rw [after_run_of_rejected verdict]
      exact grounded
    | ok program =>
      rw [after_run_of_accepted verdict]
      have begun := grounded.recordAll program.bindings
      exact (grounds_runProgram fuel program.statements begun).final begun
  | evaluate fuel source =>
    cases read : (Source.soleExpression source s.nextId).toExcept with
    | error diagnostics =>
      rw [after_evaluate_of_rejected read]
      exact grounded
    | ok e =>
      rw [after_evaluate_of_read read]
      exact ((grounding g fuel).evaluate grounded e).final grounded
  | check source =>
    rw [after, check_machine]
    exact grounded

theorem afterAll_grounded (grounded : s.machine.Grounded g) (requests : List Request) :
    (s.afterAll requests).machine.Grounded g := by
  unfold afterAll
  induction requests generalizing s with
  | nil => exact grounded
  | cons r rest ih => exact ih (after_grounded grounded r)

/-- So does every task that a request comes to, which finds the store grounded. -/
theorem ComesTo.grounded {r : Request} (comes : s.ComesTo r k m t)
    (grounded : s.machine.Grounded g) :
    m.Grounded g ∧ (finalMachine (t.perform k m)).Grounded g := by
  have begun : m.Grounded g ∧ t.In m.store := by
    cases comes with
    | run accepted reaches => exact grounded_of_programReaches (grounded.recordAll _) reaches
    | evaluate read reaches => exact Task.In.reaches (t := .evaluate _) trivial grounded reaches
  exact ⟨begun.1, (grounding g k t m begun.1 begun.2).final begun.1⟩

end Session

/-- The heap is well-founded. In every state that a session comes to, the links from a frame that is
current, closed over by a function or otherwise kept lead to the global frame, which has none, and the
superclasses of a class come to an end; all look-ups go along these chains. From any such state to a later
one, frames keep what they link to and every name that they bind, and classes stay as they are. -/
theorem heap_is_well_founded (sink : Sink) (clock : Nat → Float) (requests : List Request)
    (r : Request) (later : List Request) :
    let s := (Session.start sink clock).afterAll requests
    let g := s.machine.globals
    s.machine.Rooted g ∧
    s.machine.store.Grows (s.after r).machine.store ∧
    (s.after r).machine.store.Grows ((s.after r).afterAll later).machine.store ∧
    ∀ k m t, s.ComesTo r k m t →
      let m' := finalMachine (t.perform k m)
      m.Rooted g ∧ m'.Rooted g ∧
      s.machine.store.Grows m.store ∧ m.store.Grows m'.store ∧
      m'.store.Grows (s.after r).machine.store ∧
      ∀ j m₁ t₁, Task.Reaches k m t j m₁ t₁ → m.store.Grows m₁.store ∧
        (finalMachine (t₁.perform j m₁)).store.Grows m'.store := by
  intro s g
  have globals : g = (Session.start sink clock).machine.globals :=
    (Session.afterAll_footing (Session.start sink clock) requests).globals
  have grounded : s.machine.Grounded g := by
    rw [globals]
    exact Session.afterAll_grounded (Session.start_grounded sink clock) requests
  refine ⟨grounded.rooted, Session.evolves heap_evolution Session.grows_recordAll s r,
    Session.evolves_all heap_evolution Session.grows_recordAll (s.after r) later,
    fun k m t comes => ?_⟩
  obtain ⟨begun, ended⟩ := comes.grounded grounded
  obtain ⟨before, within, after⟩ := comes.grows
  exact ⟨begun.rooted, ended.rooted, before, within, after, fun j m₁ t₁ reaches =>
    ⟨heap_evolution.before_of_reaches reaches, heap_evolution.after_of_reaches reaches⟩⟩

end Lox
