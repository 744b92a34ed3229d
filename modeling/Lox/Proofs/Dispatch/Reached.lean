import Lox.Proofs.Dispatch.Keeping

/-!
# Where the tasks of an evaluation lodge

A task is lodged on a machine with a settled store if it fits there and all look-ups are on record. A task
that is lodged begins only tasks that are, however late and by whatever way its functions are called.
-/

namespace Lox

open Run

variable {L : List Lookup} {g : FrameId} {n : Nat} {m m' : Machine} {near : Store.Near}

/-- A task that can be carried out on a machine with a settled store. -/
structure Task.IsLodged (L : List Lookup) (g : FrameId) (m : Machine) (t : Task) : Prop where
  settled : Settled L g m.store
  recorded : Recorded L m
  fits : t.Fits L g m

/-- What is known of a run that has given a value. -/
theorem Keeps.of_ok {α : Type} {P : α → Machine → Prop} {r : EStateM.Result Halt Machine α} {a : α}
    (outcome : Keeps L g near m P r) (done : r = .ok a m') :
    m.SamePlace m' ∧ m.store.Later near m'.store ∧ Settled L g m'.store ∧ P a m' := by
  rw [done] at outcome
  obtain ⟨⟨place, later, settled⟩, holds⟩ := outcome
  exact ⟨place, later, settled, holds⟩

/-- What is known of the machine that a run leaves behind, whatever has become of the run. -/
theorem Keeps.final {α : Type} {P : α → Machine → Prop} {r : EStateM.Result Halt Machine α}
    (outcome : Keeps L g near m P r) :
    m.SamePlace (finalMachine r) ∧ m.store.Later near (finalMachine r).store ∧
      Settled L g (finalMachine r).store := by
  cases r with
  | ok a m' => exact outcome.1
  | error halt m' => exact outcome

namespace Task

variable {t t' : Task}

theorem IsLodged.keeps (lodged : t.IsLodged L g m) (n : Nat) :
    Keeps L g (t.closesOver m) m (fun _ _ => True) (t.perform n m) :=
  Keeping.all L g n t m lodged.settled lodged.recorded lodged.fits

/-- A task begun at once, where the machine stands. -/
theorem IsLodged.first (lodged : t.IsLodged L g m) (fits : t'.Fits L g m) :
    t'.IsLodged L g m :=
  ⟨lodged.settled, lodged.recorded, fits⟩

/-- A task begun after another one has ended. -/
theorem IsLodged.next {a : t.Result} (lodged : t.IsLodged L g m) (done : t.perform n m = .ok a m')
    (fits : m.SamePlace m' → m.store.Later (t.closesOver m) m'.store → t'.Fits L g m') :
    t'.IsLodged L g m' := by
  obtain ⟨place, later, settled, -⟩ := (lodged.keeps n).of_ok done
  exact ⟨settled, lodged.recorded.of_place place, fits place later⟩

/-! ### One step -/

private theorem begins_inExpression {e : Expr} (lodged : (Task.evaluate e).IsLodged L g m)
    (begins : Begins n m (.evaluate e) m' t') :
    t'.IsLodged L g m' := by
  obtain ⟨settled, recorded, Γ, here, code⟩ := id lodged
  -- what stands to the left or to the right among the nodes lodges where the whole does
  have left {ids ids' : List NodeId} (here : Lodged m.store g (ids ++ ids') m.current Γ) :
      Lodged m.store g ids m.current Γ := here.part (List.subset_append_left _ _)
  have right {ids ids' : List NodeId} (here : Lodged m.store g (ids ++ ids') m.current Γ) :
      Lodged m.store g ids' m.current Γ := here.part (List.subset_append_right _ _)
  cases begins with
  | grouping =>
    rw [Expr.Scoped] at code
    exact lodged.first ⟨Γ, here, code⟩
  | operand =>
    rw [Expr.Scoped] at code
    exact lodged.first ⟨Γ, here, code.2⟩
  | binaryLeft =>
    rw [Expr.Scoped] at code
    exact lodged.first ⟨Γ, left here, code.2.1⟩
  | @binaryRight _ first second _ _ done =>
    rw [Expr.Scoped] at code
    have begun : (Task.evaluate first).IsLodged L g m := ⟨settled, recorded, Γ, left here, code.2.1⟩
    exact begun.next done fun place later => ⟨Γ, (right here).kept settled place later, code.2.2⟩
  | logicalLeft =>
    rw [Expr.Scoped] at code
    exact lodged.first ⟨Γ, left here, code.1⟩
  | @logicalRight _ first second _ _ done _ =>
    rw [Expr.Scoped] at code
    have begun : (Task.evaluate first).IsLodged L g m := ⟨settled, recorded, Γ, left here, code.1⟩
    exact begun.next done fun place later => ⟨Γ, (right here).kept settled place later, code.2⟩
  | assigned =>
    rw [Expr.Scoped] at code
    exact lodged.first ⟨Γ, left here, code.2.1⟩
  | callee =>
    rw [Expr.Scoped] at code
    exact lodged.first ⟨Γ, left here, code.1⟩
  | @arguments _ callee _ arguments _ done =>
    rw [Expr.Scoped] at code
    have begun : (Task.evaluate callee).IsLodged L g m := ⟨settled, recorded, Γ, left here, code.1⟩
    exact begun.next done fun place later => ⟨Γ, (right here).kept settled place later, code.2⟩
  | @call m₁ _ callee _ arguments _ _ done given =>
    rw [Expr.Scoped] at code
    have begun : (Task.evaluate callee).IsLodged L g m := ⟨settled, recorded, Γ, left here, code.1⟩
    have second : (Task.evaluateAll arguments).IsLodged L g m₁ :=
      begun.next done fun place later => ⟨Γ, (right here).kept settled place later, code.2⟩
    obtain ⟨place, later, settled', -⟩ := (second.keeps n).of_ok given
    exact ⟨settled', second.recorded.of_place place, trivial⟩
  | getObject =>
    rw [Expr.Scoped] at code
    exact lodged.first ⟨Γ, here, code⟩
  | setObject =>
    rw [Expr.Scoped] at code
    exact lodged.first ⟨Γ, right here, code.2⟩
  | @setValue _ object value _ _ done =>
    rw [Expr.Scoped] at code
    have begun : (Task.evaluate object).IsLodged L g m := ⟨settled, recorded, Γ, right here, code.2⟩
    exact begun.next done fun place later => ⟨Γ, (left here).kept settled place later, code.1⟩

private theorem begins_inStatement {s : Stmt} (lodged : (Task.execute s).IsLodged L g m)
    (begins : Begins n m (.execute s) m' t') :
    t'.IsLodged L g m' := by
  obtain ⟨settled, recorded, Γ, room, code⟩ := id lodged
  have here := room.lodged
  cases begins with
  | expression =>
    rw [Stmt.Scoped] at code
    exact lodged.first ⟨Γ, here, code⟩
  | print =>
    rw [Stmt.Scoped] at code
    exact lodged.first ⟨Γ, here, code⟩
  | var =>
    rw [Stmt.Scoped] at code
    exact lodged.first ⟨_, here.mark code.1.1 .declared, code.2⟩
  | block opened =>
    rw [Stmt.Scoped] at code
    have outcome : Keeps L g none m _ _ := keeps_blockFrame settled here room.distinct
    obtain ⟨place, later, settled', -, inside⟩ := outcome.of_ok opened
    have recorded' := recorded.of_place place
    exact ⟨settled', recorded', _, inside, code⟩
  | @condition condition thenBranch elseBranch =>
    have parts := Stmt.ids_ifElse condition thenBranch elseBranch
    exact lodged.first ⟨Γ, here.part parts.1.subset, (Stmt.scoped_ifElse code).1⟩
  | @thenBranch _ condition thenBranch elseBranch _ done _ =>
    have parts := Stmt.ids_ifElse condition thenBranch elseBranch
    obtain ⟨test, ⟨code, _⟩, _⟩ := Stmt.scoped_ifElse code
    have begun : (Task.evaluate condition).IsLodged L g m :=
      ⟨settled, recorded, Γ, here.part parts.1.subset, test⟩
    exact begun.next done fun place later => ⟨Γ, (room.part parts.2.1).kept settled place later, code⟩
  | @elseBranch _ condition thenBranch other _ done _ =>
    have parts := Stmt.ids_ifElse condition thenBranch (some other)
    obtain ⟨test, _, branch⟩ := Stmt.scoped_ifElse code
    have begun : (Task.evaluate condition).IsLodged L g m :=
      ⟨settled, recorded, Γ, here.part parts.1.subset, test⟩
    exact begun.next done fun place later =>
      ⟨Γ, (room.part (parts.2.2 other rfl)).kept settled place later, (branch other rfl).1⟩
  | loop =>
    rw [Stmt.Scoped] at code
    exact lodged.first ⟨Γ, room, code⟩
  | returned =>
    rw [Stmt.Scoped] at code
    exact lodged.first ⟨Γ, here, code⟩
  | superclass =>
    rw [Stmt.Scoped] at code
    exact lodged.first ⟨Γ, here.part (List.subset_append_left _ _), code.2.1⟩

/-- A task that is lodged begins only tasks that are. -/
theorem IsLodged.begins (lodged : t.IsLodged L g m) (begins : Begins n m t m' t') :
    t'.IsLodged L g m' := by
  obtain ⟨settled, recorded, fits⟩ := id lodged
  cases t with
  | evaluate e => exact begins_inExpression lodged begins
  | execute s => exact begins_inStatement lodged begins
  | evaluateAll expressions =>
    obtain ⟨Γ, here, code⟩ := fits
    cases begins with
    | first =>
      rw [expressionsScoped] at code
      exact lodged.first ⟨Γ, here.part (List.subset_append_left _ _), code.1⟩
    | @others _ e rest _ done =>
      rw [expressionsScoped] at code
      have begun : (Task.evaluate e).IsLodged L g m :=
        ⟨settled, recorded, Γ, here.part (List.subset_append_left _ _), code.1⟩
      have others := here.part (List.subset_append_right e.ids (expressionIds rest))
      exact begun.next done fun place later => ⟨Γ, others.kept settled place later, code.2⟩
  | call callee line arguments =>
    cases begins with
    | @function f closure _ _ found _ _ =>
      exact ⟨settled, recorded, settled.functions f closure found⟩
    | class_ => exact ⟨settled, recorded, trivial⟩
  | callClosure closure arguments =>
    cases begins with
    | body opened =>
      have outcome : Keeps L g none m _ _ := keeps_callFrame settled fits arguments
      obtain ⟨place, later, settled', -, Γ, room, code⟩ := outcome.of_ok opened
      have recorded' := recorded.of_place place
      exact ⟨settled', recorded', Γ, room, code⟩
  | construct c arguments =>
    cases begins with
    | initializer made found bound =>
      have added : Keeps L g none m _ _ := keeps_addInstance settled c
      obtain ⟨place₁, later₁, settled₁, isA⟩ := added.of_ok made
      have outcome : Keeps L g none _ _ _ := keeps_bindInitializer settled₁ found isA
      obtain ⟨place₂, later₂, settled₂, callable⟩ := outcome.of_ok bound
      exact ⟨settled₂, recorded.of_place (place₁.trans place₂), callable⟩
  | evaluateOptional e =>
    obtain ⟨Γ, here, code⟩ := fits
    cases begins with
    | value => exact lodged.first ⟨Γ, here, code _ rfl⟩
  | evaluateSuperclass e =>
    obtain ⟨Γ, here, code⟩ := fits
    cases begins with
    | parent => exact lodged.first ⟨Γ, here, code _ rfl⟩
  | executeWhile condition body =>
    obtain ⟨Γ, room, test, turn, silent⟩ := fits
    have begun : (Task.evaluate condition).IsLodged L g m :=
      ⟨settled, recorded, Γ, room.lodged.part (List.subset_append_left _ _), test⟩
    have own := room.part (List.sublist_append_right condition.ids body.ids)
    cases begins with
    | test => exact lodged.first begun.fits
    | turn done _ =>
      exact begun.next done fun place later => ⟨Γ, own.kept settled place later, turn⟩
    | again done _ ran =>
      obtain ⟨place, later, settled₁, -⟩ := (begun.keeps n).of_ok done
      have next : (Task.execute body).IsLodged L g _ :=
        ⟨settled₁, recorded.of_place place, Γ, own.kept settled place later, turn⟩
      obtain ⟨place₂, later₂, settled₂, -⟩ := (next.keeps n).of_ok ran
      -- the body declares nothing, so there is room for the next turn
      rw [closesOver, silent, Option.map_none] at later₂
      have both := later.trans later₂
      have places := place.trans place₂
      exact ⟨settled₂, recorded.of_place places, Γ, room.kept settled places both, test, turn, silent⟩
  | executeAll body =>
    obtain ⟨Γ, room, code⟩ := fits
    cases begins with
    | statement =>
      rw [statementsScoped] at code
      exact lodged.first ⟨Γ, room.part (List.sublist_append_left _ _), code.1⟩
    | @following _ s rest _ done =>
      rw [statementsScoped] at code
      have begun : (Task.execute s).IsLodged L g m :=
        ⟨settled, recorded, Γ, room.part (List.sublist_append_left _ _), code.1⟩
      exact begun.next done fun place later =>
        ⟨_, room.following settled code.1 place later, code.2⟩

/-- All tasks that a lodged one comes to are lodged, by induction on the steps. -/
theorem IsLodged.reaches {k : Nat} (reaches : Reaches n m t k m' t') (lodged : t.IsLodged L g m) :
    t'.IsLodged L g m' := by
  induction reaches with
  | refl => exact lodged
  | step begins _ ih => exact ih (lodged.begins begins)

/-- All tasks that well-scoped statements come to at top level are lodged, by induction on the statements
that have ended before. -/
theorem isLodged_of_programReaches {fuel k : Nat} {statements : List Stmt} {Γ : Scopes}
    (reaches : ProgramReaches fuel m statements k m' t) (settled : Settled L g m.store)
    (recorded : Recorded L m) (room : Room g m.store m.current (statementIds statements) Γ)
    (code : statementsScoped L Γ statements) : t.IsLodged L g m' := by
  induction reaches generalizing Γ with
  | first reaches =>
    rw [statementsScoped] at code
    exact IsLodged.reaches reaches
      ⟨settled, recorded, Γ, room.part (List.sublist_append_left _ _), code.1⟩
  | rest done _ ih =>
    rw [statementsScoped] at code
    have first := (Keeping.all L g fuel).statement settled recorded room code.1
    obtain ⟨place, later, settled₁, others⟩ := first.of_ok done
    exact ih settled₁ (recorded.of_place place) others code.2

end Task

end Lox
