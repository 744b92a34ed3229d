import Mathlib
import Lox.Proofs.Session.Standing

/-!
# Lexical scoping

Frames and distances implement lexical scoping. A program that is accepted and run on a machine that
nothing has run on does what the lexical machine does, which knows locations and no distances: it prints
the same, and it gives the same value or halts for the same reason on the same line.
-/

namespace Lox

namespace Lexical

/-- The functions, classes and instances of two machines are the same under the same identities, apart
from what the functions have captured. -/
structure SameObjects (s : Store) (μ : State) : Prop where
  functions : ∀ f, (μ.functionAt? f).map (·.declaration) = (s.functionAt? f).map (·.declaration)
  classes : ∀ c, (μ.classAt? c).map (fun cls => (cls.name, cls.superclass)) =
    (s.classAt? c).map fun cls => (cls.name, cls.superclass)
  instances : μ.instances = s.instances

theorem Agree.sameObjects {L : List Lookup} {g : FrameId} {cells : List Slot} {m : Machine}
    {μ : State} (agree : Agree L g cells m μ) : SameObjects m.store μ where
  functions := fun f => by
    rcases optionRel_cases (agree.functionAt? f) with ⟨left, right⟩ | ⟨_, _, left, right, both⟩
    · rw [left, right]
      rfl
    · obtain ⟨Γ, captures, _⟩ := both
      rw [left, right, Option.map_some, Option.map_some, captures.declaration]
  classes := fun c => by
    rcases optionRel_cases (agree.classes.places c.index) with
      ⟨left, right⟩ | ⟨_, _, left, right, both⟩
    · rw [State.classAt?, Store.classAt?, left, right]
      rfl
    · rw [State.classAt?, Store.classAt?, left, right, Option.map_some, Option.map_some, both.name,
        both.superclass]
  instances := agree.instances

/-- A name that has been read is global or has a location. -/
theorem State.lookUp_eq_ok_iff {μ : State} {ρ : Env} {x : String} {v : Value} :
    μ.lookUp ρ x = .ok v ↔
      (ρ.find? x = none ∧ μ.globals.get? x = some v) ∨
        ∃ ℓ, ρ.find? x = some ℓ ∧ μ.cells[ℓ.index]? = some v := by
  unfold lookUp
  cases ρ.find? x with
  | none => cases μ.globals.get? x <;> simp
  | some ℓ => cases stored : μ.cells[ℓ.index]? <;> simp [stored]

/-- A local declared later, with whatever name, is not seen through the names captured before: they stand
for what they stood for, and neither the old location nor the new one is changed through the other. -/
theorem later_local_unseen {μ : State} {ρ : Env} {x : String} {v : Value}
    (found : μ.lookUp ρ x = .ok v) (names : Table Location) (name : String) (value : Value) :
    ∃ ρ' μ', Run.declareAll (.inner names) [(name, value)] μ = .ok ρ' μ' ∧
      μ'.lookUp ρ x = .ok v ∧ (∀ w, (μ'.bind ρ' name w).lookUp ρ x = .ok v) ∧
      ∀ w, (μ'.bind ρ x w).lookUp ρ' name = .ok value := by
  let ρ' : Env := .inner (names.insert name ⟨μ.cells.size⟩)
  have here : ρ'.find? name = some ⟨μ.cells.size⟩ := Table.get?_insert_self _ _ _
  let μ' : State := { μ with cells := (μ.cells.push .nil).set! μ.cells.size value }
  have declared : Run.declareAll (.inner names) [(name, value)] μ = .ok ρ' μ' := by
    change EStateM.Result.ok ρ' (State.bind { μ with cells := μ.cells.push .nil } ρ' name value) = _
    rw [State.bind, here]
  have last : μ'.cells[μ.cells.size]? = some value := by simp [μ']
  -- whatever is at the new location, the old name stands for its old value
  have kept (w : Value) : State.lookUp { μ' with cells := μ'.cells.set! μ.cells.size w } ρ x =
      .ok v := by
    rw [State.lookUp_eq_ok_iff] at found ⊢
    refine found.imp_right ?_
    rintro ⟨ℓ, local_, stored⟩
    refine ⟨ℓ, local_, ?_⟩
    have old : ℓ.index < μ.cells.size := (Array.getElem?_eq_some_iff.mp stored).1
    have other : μ.cells.size ≠ ℓ.index := Nat.ne_of_gt old
    simp only [μ', Array.set!_eq_setIfInBounds, Array.getElem?_setIfInBounds_ne other]
    rw [Array.getElem?_push, if_neg (Nat.ne_of_lt old)]
    exact stored
  refine ⟨ρ', μ', declared, ?_, fun w => ?_, fun w => ?_⟩
  · have same := kept value
    rwa [show μ'.cells.set! μ.cells.size value = μ'.cells by simp [μ']] at same
  · rw [State.bind, here]
    exact kept w
  · rw [State.lookUp_eq_ok_iff]
    refine .inr ⟨_, here, ?_⟩
    rw [State.bind]
    split
    · rename_i ℓ local_
      have old : ℓ.index < μ.cells.size := by
        rcases State.lookUp_eq_ok_iff.mp found with ⟨none, _⟩ | ⟨ℓ', local', stored⟩
        · rw [none] at local_
          cases local_
        · rw [local'] at local_
          cases local_
          exact (Array.getElem?_eq_some_iff.mp stored).1
      rw [Array.set!_eq_setIfInBounds, Array.getElem?_setIfInBounds_ne (Nat.ne_of_lt old)]
      exact last
    · exact last

end Lexical

/-- Lexical scoping as it is implemented with frames and distances. A program that is accepted and run on
a machine that nothing has run on gives the value that the lexical machine gives, or fails with the same
halt on the same line; the sink is left with the same bytes, the same objects have come into being, and
every value is shown by the same text. On the lexical machine a local that is declared later is not seen
by what was captured before. -/
theorem run_refines_lexical_scoping (fuel : Nat) (sink : Sink) (clock : Nat → Float)
    (source : String) (program : Accepted) (accepted : (Source.accept source 0).1 = .ok program) :
    let run := (Session.start sink clock).run fuel source
    let reference := Lexical.runAccepted fuel program (Lexical.State.start sink clock)
    (run.1 = reference.1 ∧ run.2.machine.sink = reference.2.sink ∧
      Lexical.SameObjects run.2.machine.store reference.2 ∧
      ∀ value, run.2.text value = reference.2.text value) ∧
    ∀ (μ : Lexical.State) (ρ : Lexical.Env) (x : String) (v : Value), μ.lookUp ρ x = .ok v →
      ∀ (names : Table Lexical.Location) (name : String) (value : Value),
        ∃ ρ' μ', Lexical.Run.declareAll (.inner names) [(name, value)] μ = .ok ρ' μ' ∧
          μ'.lookUp ρ x = .ok v ∧ (∀ w, (μ'.bind ρ' name w).lookUp ρ x = .ok v) ∧
          ∀ w, (μ'.bind ρ x w).lookUp ρ' name = .ok value := by
  obtain ⟨L, cells, μ, standing, _, same⟩ :=
    (Session.Standing.start sink clock).run fuel source
  have outcome := same program accepted
  refine ⟨?_, fun _ _ _ _ found names name value => Lexical.later_local_unseen found names name value⟩
  rw [outcome]
  exact ⟨rfl, standing.agree.sink.symm, standing.agree.sameObjects,
    fun value => (standing.agree.text value).symm⟩

set_option maxRecDepth 4000 in
/-- A function keeps to the global that it printed first when a local with its name is declared later. -/
theorem captured_global_stays :
    let source := "var a=\"old\";\x7bfun f()\x7bprint a;\x7df();var a=\"new\";f();print a;\x7d"
    ∃ program, (Source.accept source 0).1 = .ok program ∧
      (Lexical.runAccepted 20 program (Lexical.State.start .unlimited fun _ => 0)).2.sink.written =
        "old\nold\nnew\n".toUTF8 := by
  intro source
  have outcome : (fun run : Except Failure Value × Session =>
      (run.1.isOk, run.2.machine.sink.written)) ((Session.start .unlimited fun _ => 0).run 20 source) =
        (true, "old\nold\nnew\n".toUTF8) := by cbv
  cases accepted : (Source.accept source 0).1 with
  | error diagnostics =>
    -- a rejected source is not run
    have refused : ((Session.start .unlimited fun _ => 0).run 20 source).1 =
        .error (.rejected diagnostics) := by simp only [Session.run, Session.start, accepted]
    have ended : ((Session.start .unlimited fun _ => 0).run 20 source).1.isOk = true :=
      congrArg Prod.fst outcome
    rw [refused] at ended
    cases ended
  | ok program =>
    obtain ⟨⟨_, sink, _⟩, _⟩ :=
      run_refines_lexical_scoping 20 .unlimited (fun _ => 0) source program accepted
    refine ⟨program, rfl, ?_⟩
    rw [← sink]
    exact congrArg Prod.snd outcome

end Lox
