import Lox.Proofs.Lexical.Simulation
import Lox.Proofs.Session.Acceptance

/-!
# Programs on both machines

A program that has been accepted runs on a machine with the distances of its look-ups on record. Then the
machine and the lexical machine come to the same outcome, whatever was run before it, and they agree
again afterwards, also when the run has halted.
-/

namespace Lox

/-- Outside every scope a statement opens none. -/
theorem Stmt.after_nil (s : Stmt) : s.after [] = [] := by
  rw [Stmt.after]
  split <;> rfl

namespace Lexical

variable {L : List Lookup} {g : FrameId} {cells : List Slot} {m : Machine} {μ : State}

/-- In the global frame a machine that agrees stands outside every scope. -/
theorem Agree.sited (agree : Agree L g cells m μ) (current : m.current = g) :
    Sited L g m.current [] .top cells m μ where
  agree := agree
  placed := current ▸ .top
  own := trivial

theorem runFrom_simulates (fuel : Nat) (last : Value) (statements : List Stmt)
    (agree : Agree L g cells m μ) (current : m.current = g)
    (code : statementsScoped L [] statements) :
    Matches L g (some g) cells m Equal (Lox.runFrom fuel last statements m)
      (runFrom fuel last statements μ) := by
  induction statements generalizing cells m μ last with
  | nil => exact matches_pure agree rfl
  | cons s rest ih =>
    rw [statementsScoped, Stmt.after_nil] at code
    have first := (simulates L g fuel).execute (agree.sited current) code.1
    rw [current] at first
    -- after each statement the global frame is current again, and no local scope is open
    refine first.bind fun {_ _ _ flow result} later agree both => ?_
    obtain ⟨ρ, flow'⟩ := result
    obtain ⟨rfl, _⟩ := both
    exact ih flow'.value agree (later.current.trans current) code.2

theorem runProgram_simulates (fuel : Nat) (statements : List Stmt) (agree : Agree L g cells m μ)
    (current : m.current = g) (code : statementsScoped L [] statements) :
    Matches L g (some g) cells m Equal (Lox.runProgram fuel statements m)
      (runProgram fuel statements μ) := by
  refine (runFrom_simulates fuel .nil statements agree current code).bind
    fun {_ _ _ last last'} _ agree same => ?_
  rw [Equal] at same
  rw [same]
  exact (matches_flush agree).bindEqual fun _ _ agree => matches_pure agree rfl

/-! ### The first machine -/

theorem FramesAgree.start (natives : Table Value) :
    FramesAgree ⟨0⟩ [] ((∅ : Store).addFrame natives none).2 #[] natives where
  root := ⟨⟨natives, none⟩, rfl, rfl⟩
  globals := fun _ => rfl
  count := rfl
  distinct := List.nodup_nil
  inside := nofun
  values := nofun
  covered := fun {f name value} found => by
    obtain ⟨frame, present, bound⟩ := Option.bind_eq_some_iff.mp found
    have inside := (Array.getElem?_eq_some_iff.mp present).1
    -- the first frame is the only one
    have first : f.index = 0 := Nat.lt_one_iff.mp inside
    exact .inl (congrArg FrameId.mk first)

/-- The machines that nothing has run on agree. -/
theorem Agree.start (sink : Sink) (clock : Nat → Float) :
    Agree [] ⟨0⟩ [] (Machine.start sink clock) (State.start sink clock) where
  globals := rfl
  distances := nofun
  frames := .start _
  functions := ⟨rfl, fun _ => .none⟩
  classes := ⟨rfl, fun _ => .none⟩
  instances := rfl
  callDepth := rfl
  sink := rfl
  clock := rfl
  readings := rfl

/-! ### More look-ups -/

theorem FunctionsAgree.more {L' : List Lookup} (more : ∀ l ∈ L, l ∈ L') {s : Store}
    {closure : Lox.Closure} {closure' : Closure} (agree : FunctionsAgree L g cells s closure closure') :
    FunctionsAgree L' g cells s closure closure' := by
  obtain ⟨Γ, captures, code, receiver⟩ := agree
  exact ⟨Γ, captures, code.mono more, receiver⟩

theorem MethodsAgree.more {L' : List Lookup} (more : ∀ l ∈ L, l ∈ L') {s : Store}
    {closure : Lox.Closure} {closure' : Closure} (agree : MethodsAgree L g cells s closure closure') :
    MethodsAgree L' g cells s closure closure' := by
  obtain ⟨Γ, captures, code⟩ := agree
  exact ⟨Γ, captures, code.mono more⟩

theorem ClassesAgree.more {L' : List Lookup} (more : ∀ l ∈ L, l ∈ L') {s : Store}
    {cls : Lox.Class} {cls' : Class} (agree : ClassesAgree L g cells s cls cls') :
    ClassesAgree L' g cells s cls cls' :=
  { agree with methods := fun x => optionRel_mono (fun _ _ => .more more) (agree.methods x) }

/-- Recording distances changes nothing else. -/
theorem recordAll_eq (m : Machine) (bindings : List Binding) :
    m.recordAll bindings = { m with distances := (m.recordAll bindings).distances } := by
  unfold Machine.recordAll
  induction bindings generalizing m with
  | nil => rfl
  | cons b rest ih => exact ih (m.record b)

/-- The look-ups of fresh nodes are recorded, and those recorded before stay as they were. -/
theorem Agree.record {L' : List Lookup} {lo hi : NodeId} (agree : Agree L g cells m μ)
    (known : ∀ l ∈ L, l.id < lo) (fresh : ∀ i, lo ≤ i → m.distances[i]? = none)
    (numbered : Numbered lo hi (L'.map (·.id))) :
    Agree (L ++ L') g cells (m.recordAll (L'.filterMap Lookup.binding?)) μ := by
  have record : m.OnRecord L lo := ⟨agree.distances, known, fresh⟩
  have distances := (record.record numbered).recorded
  have more : ∀ l ∈ L, l ∈ L ++ L' := fun l member => List.mem_append_left _ member
  rw [recordAll_eq] at distances ⊢
  exact {
    globals := agree.globals
    distances := distances
    frames := agree.frames
    functions := agree.functions.mono fun _ _ => .more more
    classes := agree.classes.mono fun _ _ => .more more
    instances := agree.instances
    callDepth := agree.callDepth
    sink := agree.sink
    clock := agree.clock
    readings := agree.readings }

end Lexical

end Lox
