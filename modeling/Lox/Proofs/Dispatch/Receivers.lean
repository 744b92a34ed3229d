import Mathlib
import Lox.Proofs.Dispatch.Reached
import Lox.Proofs.Session.Course
import Lox.Proofs.Session.Soundness

/-!
# Receivers and static dispatch

In every state that a session of accepted programs comes to, code of a method finds an instance of the
class that declares the method, or of a class below it, as `this`. What `super` finds is settled when the
class is declared: the method that the superclass of this class has then, bound to the same instance. The
class of the instance, its fields and what the names of classes stand for by then make no difference, and
no class ever changes.
-/

namespace Lox

open Run

/-- What `this` and `super` give where an evaluation within `n + 1` comes to them, and what a declaration
of a class makes. -/
def Task.Dispatches (n : Nat) (m : Machine) : Task → Prop
  | .evaluate (.this keyword id) => (∃ c, m.RunsIn id c) ∧ ∀ c, m.RunsIn id c →
      ∃ i, m.store.IsA i c ∧ Lox.evaluate (n + 1) (.this keyword id) m = .ok (.instance_ i) m
  | .evaluate (.super keyword method id) => (∃ c, m.RunsIn id c) ∧ ∀ c, m.RunsIn id c →
      ∃ parent i, m.store.superclass? c = some parent ∧ m.store.IsA i c ∧
        m.store.get m.current Keyword.this.spelling = .ok (.instance_ i) ∧
        (∀ closure, m.store.findMethod parent method.text = some closure →
          Lox.evaluate (n + 1) (.super keyword method id) m =
            onStore (·.bindValue closure (.instance_ i)) m) ∧
        (m.store.findMethod parent method.text = none → ∃ e,
          Lox.evaluate (n + 1) (.super keyword method id) m = .error (.runtime e) m ∧
            e.fault.message = "Undefined property '" ++ method.text ++ "'." ∧ e.line = method.line)
  | .execute (.class_ name superclass methods) => ∀ flow m',
      Lox.execute (n + 1) (.class_ name superclass methods) m = .ok flow m' →
        ∃ parent m₁ c frame, Lox.evaluateSuperclass n superclass m = .ok parent m₁ ∧
          m₁.store.classAt? c = none ∧
          m'.store.classAt? c = some ⟨name.text, parent, methodTable frame methods⟩ ∧
          m'.store.binding? m'.current name.text = some (.class_ c)
  | _ => True

section

variable {L : List Lookup} {g : FrameId} {n : Nat} {m m' : Machine}

/-- What `super` gives once the superclass and the instance have been found. -/
theorem Run.superMethod_of_ok {keyword method : Name} {id : NodeId} {parent : ClassId}
    {receiver : Value} (found : m.lookUpSuper id = .ok (parent, receiver)) :
    superMethod keyword method id m =
      (match m.store.findMethod parent method.text with
        | some closure => onStore (·.bindValue closure receiver)
        | none => fault (.undefinedProperty method.text) method.line : Run Value) m := by
  unfold superMethod
  change EStateM.bind _ _ m = _
  unfold EStateM.bind
  rw [read_of_ok found]
  rfl

private theorem dispatches_this {keyword : Name} {id : NodeId}
    (lodged : (Task.evaluate (.this keyword id)).IsLodged L g m) :
    (Task.evaluate (.this keyword id)).Dispatches n m := by
  obtain ⟨settled, recorded, Γ, here, code⟩ := lodged
  obtain ⟨c, i, runs, isA, found⟩ := lookUp_this settled recorded here code
  refine ⟨⟨c, runs⟩, fun c' runs' => ⟨i, ?_, read_of_ok found _⟩⟩
  rwa [runs'.unique settled runs]

private theorem dispatches_super {keyword method : Name} {id : NodeId}
    (lodged : (Task.evaluate (.super keyword method id)).IsLodged L g m) :
    (Task.evaluate (.super keyword method id)).Dispatches n m := by
  obtain ⟨settled, recorded, Γ, here, code⟩ := lodged
  obtain ⟨c, parent, i, runs, isA, up, this, found⟩ :=
    lookUpSuper_class settled recorded here code
  refine ⟨⟨c, runs⟩, fun c' runs' => ?_⟩
  obtain rfl := runs'.unique settled runs
  refine ⟨parent, i, up, isA, this, fun closure has => ?_, fun missing => ?_⟩
  · rw [evaluate, superMethod_of_ok found, has]
  · refine ⟨⟨.undefinedProperty method.text, method.line⟩, ?_, rfl, rfl⟩
    rw [evaluate, superMethod_of_ok found, missing]
    rfl

private theorem dispatches_class {name : Name} {superclass : Option Expr}
    {methods : List FunctionDecl}
    (lodged : (Task.execute (.class_ name superclass methods)).IsLodged L g m) :
    (Task.execute (.class_ name superclass methods)).Dispatches n m := by
  intro flow m' done
  obtain ⟨settled, recorded, Γ, room, code⟩ := id lodged
  obtain ⟨parent, m₁, first, rest⟩ := bind_ok done
  obtain ⟨_, m₂, declared, rest⟩ := bind_ok rest
  cases rest
  have begun : (Task.evaluateSuperclass superclass).IsLodged L g m :=
    lodged.begins (Task.Begins.superclass (n := n))
  obtain ⟨place, later, settled₁, -⟩ := (begun.keeps n).of_ok first
  have outcome := keeps_declaration settled room code place later settled₁ first
  obtain ⟨place', -, -, bound, frame, added⟩ := outcome.of_ok declared
  refine ⟨parent, m₁, ⟨m₁.store.classes.size⟩, frame, first, ?_, added, ?_⟩
  · simp [Store.classAt?]
  · rwa [place'.current]

/-- Tasks that are lodged dispatch. -/
theorem Task.IsLodged.dispatches {t : Task} (lodged : t.IsLodged L g m) (n : Nat) :
    t.Dispatches n m := by
  match t with
  | .evaluate (.this keyword id) => exact dispatches_this lodged
  | .evaluate (.super keyword method id) => exact dispatches_super lodged
  | .execute (.class_ name superclass methods) => exact dispatches_class lodged
  | .evaluate (.literal _) | .evaluate (.grouping _) | .evaluate (.unary _ _)
  | .evaluate (.binary _ _ _) | .evaluate (.logical _ _ _) | .evaluate (.variable _ _)
  | .evaluate (.assign _ _ _) | .evaluate (.call _ _ _) | .evaluate (.get _ _)
  | .evaluate (.set _ _ _) | .evaluateAll _ | .call _ _ _ | .callClosure _ _ | .construct _ _
  | .execute (.expression _) | .execute (.print _) | .execute (.var _ _) | .execute (.block _)
  | .execute (.ifElse _ _ _) | .execute (.while _ _) | .execute (.function _)
  | .execute (.return _ _) | .evaluateOptional _ | .evaluateSuperclass _ | .executeWhile _ _
  | .executeAll _ => trivial

end

/-! ### Sessions -/

namespace Session

/-- A session between two runs: its store is settled, the look-ups that its code needs are on record, and
what is closed over the global frame has identities that have been handed out. -/
structure AtRest (L : List Lookup) (s : Session) : Prop where
  settled : Settled L s.machine.globals s.machine.store
  current : s.machine.current = s.machine.globals
  vacant : ∀ x, ¬ IsPlain x → s.machine.store.binding? s.machine.globals x = none
  numbered : ∀ c method, s.machine.store.Declares c method → method.frame = s.machine.globals →
    ∀ i ∈ method.declaration.ids, i < s.nextId
  record : s.machine.OnRecord L s.nextId

theorem AtRest.start (sink : Sink) (clock : Nat → Float) :
    AtRest [] (Session.start sink clock) where
  settled := {
    root := rfl
    back := by
      intro f outer link
      obtain ⟨frame, found, link⟩ := Option.bind_eq_some_iff.mp link
      simp only [Session.start, Machine.start, Store.addFrame, Store.frameAt?,
        Array.getElem?_push] at found
      -- the one frame that there is links to no other
      split at found
      · cases found
        cases link
      · cases found
    functions := nofun
    methods := nofun
    super := nofun
    unique := nofun }
  current := rfl
  vacant := by
    intro x notPlain
    refine ((∅ : Store).binding?_addFrame_self _ none x).trans ?_
    rw [Table.get?_insertAll_of_notMem]
    · rfl
    · intro pair member same
      obtain ⟨native, -, rfl⟩ := List.mem_map.mp member
      cases native
      subst same
      exact notPlain ⟨by decide, by decide⟩
  numbered := nofun
  record := ⟨nofun, nofun, fun _ _ => Std.TreeMap.getElem?_emptyc⟩

variable {L : List Lookup} {s : Session}

/-- The machine of a session when an accepted program begins. -/
structure Opened (L : List Lookup) (s : Session) (source : String) (program : Accepted) : Prop where
  settled : Settled L s.machine.globals s.machine.store
  record : (s.machine.recordAll program.bindings).OnRecord L (Source.accept source s.nextId).2
  room : Room s.machine.globals s.machine.store s.machine.current (statementIds program.statements) []
  code : statementsScoped L [] program.statements

/-- There is room at top level for an accepted program. -/
theorem AtRest.begin (rest : AtRest L s) {source : String} {program : Accepted}
    (accepted : (Source.accept source s.nextId).1 = .ok program) :
    ∃ L', Opened L' s source program := by
  obtain ⟨new, code, bindings, numbered⟩ := Source.accept_scoped accepted
  have ids := Source.accept_ids accepted
  refine ⟨L ++ new, rest.settled.more fun l member => List.mem_append_left _ member, ?_, ?_,
    statementsScoped_mono (fun l member => List.mem_append_right _ member) _ code⟩
  · rw [bindings]
    exact rest.record.record numbered
  · rw [rest.current]
    refine ⟨.top rest.vacant, rest.vacant, ids.distinct, fun c method declares upon i member inside => ?_⟩
    -- nothing that has been handed out before is in the program
    exact absurd (rest.numbered c method declares upon i inside) (Nat.not_lt.mpr (ids.bounds i member).1)

/-- A session is at rest again after every run, whatever has become of it. -/
theorem AtRest.run (rest : AtRest L s) (fuel : Nat) (source : String) :
    ∃ L', AtRest L' (s.run fuel source).2 := by
  unfold Session.run
  dsimp only
  cases accepted : (Source.accept source s.nextId).1 with
  | error diagnostics =>
    have range : s.nextId ≤ (Source.accept source s.nextId).2 :=
      (Source.program_isRead source s.nextId).2.range
    refine ⟨L, { rest with numbered := ?_, record := rest.record.mono range }⟩
    exact fun c method declares upon i inside =>
      Nat.lt_of_lt_of_le (rest.numbered c method declares upon i inside) range
  | ok program =>
    obtain ⟨L', settled, record, room, code⟩ := rest.begin accepted
    have ids := Source.accept_ids accepted
    have outcome := keeps_runProgram fuel (m := { s.machine with
      distances := (s.machine.recordAll program.bindings).distances }) settled record.recorded room code
    rw [← Lexical.recordAll_eq] at outcome
    unfold execute
    dsimp only
    rw [perform_snd]
    obtain ⟨place, later, settled'⟩ := outcome.final
    generalize finalMachine (runProgram fuel program.statements
      (s.machine.recordAll program.bindings)) = m' at place later settled' ⊢
    rw [Lexical.recordAll_eq] at place later
    have globals : m'.globals = s.machine.globals := place.globals
    have root := rest.settled.root
    refine ⟨L', ?_, ?_, ?_, ?_, ?_⟩
    · rwa [globals]
    · rw [globals]
      exact place.current.trans rest.current
    · intro x notPlain
      rw [globals]
      exact (later.reserved root notPlain).trans (rest.vacant x notPlain)
    · intro c method declares upon i inside
      rw [globals] at upon
      rcases later.methods declares with old | fresh | ⟨_, _, close, -, among⟩
      · exact Nat.lt_of_lt_of_le (rest.numbered c method old upon i inside) ids.range
      · -- the global frame is no new frame
        have old : s.machine.globals.index < s.machine.store.frames.size := by
          simpa [Store.frameAt?] using root
        exact absurd (upon ▸ fresh) (Nat.not_le.mpr old)
      · cases close
        exact (ids.bounds i (among inside)).2
    · have distances : m'.distances = (s.machine.recordAll program.bindings).distances :=
        place.distances
      refine ⟨fun l member => ?_, record.known, fun i above => ?_⟩
      · rw [distances]
        exact record.recorded l member
      · rw [distances]
        exact record.fresh i above

theorem AtRest.afterRuns (rest : AtRest L s) (runs : List (Nat × String)) :
    ∃ L', AtRest L' (s.afterRuns runs) := by
  unfold Session.afterRuns
  induction runs generalizing L s with
  | nil => exact ⟨L, rest⟩
  | cons run others ih =>
    obtain ⟨L', rest'⟩ := rest.run run.1 run.2
    exact ih rest'

end Session

/-- Dispatch is static. After any runs of any sources, wherever an accepted program comes to `this` it runs
code of one class, and `this` is an instance of this class or of one below it; wherever it comes to
`super`, the class has a superclass, the one that its declaration evaluated, and `super` gives the method
found from there on bound to the same instance, or else there is no such method. Neither what is done up to
there, nor the task there, nor anything done later changes a class, the methods that it has or inherits, or
the class of an instance. -/
theorem dispatch_is_static (sink : Sink) (clock : Nat → Float) (runs : List (Nat × String))
    (fuel : Nat) (source : String) (n : Nat) (m : Machine) (t : Task) :
    let s := (Session.start sink clock).afterRuns runs
    s.ComesTo (.run fuel source) (n + 1) m t →
      t.Dispatches n m ∧ s.machine.store.Stable m.store ∧
        m.store.Stable (finalMachine (t.perform (n + 1) m)).store ∧
        (finalMachine (t.perform (n + 1) m)).store.Stable (s.run fuel source).2.machine.store ∧
        ∀ k m' t', Task.Reaches (n + 1) m t k m' t' → m.store.Stable m'.store ∧
          (finalMachine (t'.perform k m')).store.Stable (finalMachine (t.perform (n + 1) m)).store := by
  intro s comes
  obtain ⟨before, within, after⟩ := comes.grows
  refine ⟨?_, before.stable, within.stable, after.stable, fun k m' t' reaches =>
    ⟨(heap_evolution.before_of_reaches reaches).stable,
      (heap_evolution.after_of_reaches reaches).stable⟩⟩
  obtain ⟨L, rest⟩ := (Session.AtRest.start sink clock).afterRuns runs
  cases comes with
  | run accepted reaches =>
    obtain ⟨L', settled, record, room, code⟩ := rest.begin accepted
    rw [Lexical.recordAll_eq] at reaches record
    exact (Task.isLodged_of_programReaches reaches settled record.recorded room code).dispatches n

namespace Derived

/-- A method that calls the one of the superclass that it overrides. -/
def source : String := "class A\x7bm()\x7b\x7d\x7dclass B<A\x7bm()\x7bsuper.m();\x7d\x7dB().m();"

def inherited : Closure := ⟨⟨⟨"m", 1⟩, [], []⟩, ⟨0⟩, false⟩

def super : Expr := .super ⟨"super", 1⟩ ⟨"m", 1⟩ 1

def overriding : FunctionDecl := ⟨⟨"m", 1⟩, [], [.expression (.call super 1 [])]⟩

def base : Stmt := .class_ ⟨"A", 1⟩ none [inherited.declaration]

def derived : Stmt := .class_ ⟨"B", 1⟩ (some (.variable ⟨"A", 1⟩ 0)) [overriding]

/-- The method as the class has it, and bound to an instance. -/
def own : Closure := ⟨overriding, ⟨1⟩, false⟩

def bound : Closure := ⟨overriding, ⟨2⟩, false⟩

def callee : Expr := .get (.call (.variable ⟨"B", 1⟩ 2) 1 []) ⟨"m", 1⟩

def program : Accepted := ⟨[base, derived, .expression (.call callee 1 [])], [(1, 2)]⟩

def begun : Machine := (Session.start .unlimited fun _ => 0).machine.recordAll program.bindings

def afterBase : Machine := finalMachine (execute 8 base begun)

def afterDerived : Machine := finalMachine (execute 8 derived afterBase)

def called : Machine := finalMachine (evaluate 6 callee afterDerived)

def opened : Machine :=
  finalMachine (callFrame bound [] { called with callDepth := called.callDepth + 1 })

/-- The machine in the frame of the call. -/
def inside : Machine := { opened with current := ⟨3⟩ }

end Derived

open Derived in
/-- The overriding method comes to `super`, and finds the method of the superclass. -/
theorem super_found_above_declaring_class :
    (Session.start .unlimited fun _ => 0).ComesTo (.run 8 source) 1 inside (.evaluate super) ∧
      ∃ i, inside.store.get inside.current "this" = .ok (.instance_ i) ∧
        evaluate 1 super inside = onStore (·.bindValue inherited (.instance_ i)) inside := by
  have accepted : (Source.accept source 0).1 = .ok program := by cbv
  obtain ⟨first, second, given, found, shallow, frame⟩ :
      execute 8 base begun = .ok (.next .nil) afterBase ∧
      execute 8 derived afterBase = .ok (.next .nil) afterDerived ∧
      evaluate 6 callee afterDerived = .ok (.function ⟨0⟩) called ∧
      called.store.functionAt? ⟨0⟩ = some bound ∧ called.callDepth < maxCallDepth ∧
      callFrame bound [] { called with callDepth := called.callDepth + 1 } = .ok ⟨3⟩ opened := by cbv
  have comes : (Session.start .unlimited fun _ => 0).ComesTo (.run 8 source) 1 inside
      (.evaluate super) := by
    refine .run accepted (.rest first (.rest second (.first (.step .expression ?_))))
    refine .step (.call given rfl) (.step (.function found rfl shallow) (.step (.body frame) ?_))
    exact .step .statement (.step .expression (.step .callee .refl))
  obtain ⟨nearest, link, declared, above, inherits⟩ :
      inside.store.holder? inside.current "this" = some ⟨2⟩ ∧
      inside.store.enclosing? ⟨2⟩ = some own.frame ∧
      inside.store.classAt? ⟨1⟩ = some ⟨"B", some ⟨0⟩, methodTable own.frame [overriding]⟩ ∧
      inside.store.superclass? ⟨1⟩ = some ⟨0⟩ ∧
      inside.store.findMethod ⟨0⟩ "m" = some inherited := by cbv
  have runs : inside.RunsIn 1 ⟨1⟩ :=
    ⟨⟨2⟩, own, nearest, link, ⟨_, "m", declared, by cbv⟩, .head _⟩
  obtain ⟨⟨-, dispatches⟩, -⟩ :=
    dispatch_is_static .unlimited (fun _ => 0) [] 8 source 0 inside (.evaluate super) comes
  obtain ⟨parent, i, up, -, this, super, -⟩ := dispatches ⟨1⟩ runs
  cases above.symm.trans up
  exact ⟨comes, i, this, super inherited inherits⟩

end Lox
