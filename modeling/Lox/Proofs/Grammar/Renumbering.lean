import Lox.Proofs.Grammar.Moving

/-!
# Reading does not depend on node identities

The rules of the grammar hand node identities out and never look at them. Reading the same tokens with
the next free identity moved on by `k` gives the same trees with every identity moved on by `k`, and
the same diagnostics. This is reading at another place that has the same lines.
-/

namespace Lox

theorem Token.map_reline_id (tokens : List Token) : tokens.map (Token.reline id) = tokens :=
  List.map_id tokens

theorem Diagnostic.map_reline_id (ds : Array Diagnostic) : ds.map (Diagnostic.reline id) = ds := by
  rw [funext Diagnostic.reline_id]
  exact Array.map_id ds

theorem Move.id_missing : id (0 : Nat) = 0 := rfl

/-- The place with the same lines whose identities are moved on by `k`. -/
def Move.onBy (k : Nat) : Move := ⟨k, id, id_missing⟩

namespace Grammar

/-- The state with the next free identity moved on by `k`. -/
def State.shift (k : Nat) (s : State) : State := { s with nextId := s.nextId + k }

theorem State.move_onBy (k : Nat) (s : State) : s.move (.onBy k) = s.shift k := by
  unfold move shift Move.onBy
  rw [Token.map_reline_id, Diagnostic.map_reline_id]

namespace Rule

variable {α : Type}

/-- An outcome with `g` applied to what was read and the state shifted. -/
def shifted (k : Nat) (g : α → α) :
    EStateM.Result Diagnostic State α → EStateM.Result Diagnostic State α
  | .ok a s => .ok (g a) (s.shift k)
  | .error d s => .error d (s.shift k)

/-- From a shifted state the rule `x'` reads what `x` reads, with `g` applied to it. -/
def Shifts (k : Nat) (g : α → α) (x x' : Rule α) : Prop :=
  ∀ s : State, x' (s.shift k) = shifted k g (x s)

theorem Moves.shifts {k : Nat} {g : α → α} {x x' : Rule α} (moves : Moves (.onBy k) g x x') :
    Shifts k g x x' := by
  intro s
  rw [← State.move_onBy, moves s]
  cases x s with
  | ok a s' => rw [moved, shifted, State.move_onBy]
  | error d s' =>
    rw [moved, shifted, State.move_onBy]
    exact congrArg (EStateM.Result.error · (s'.shift k)) d.reline_id

end Rule

open Rule

theorem moveStmt_onBy (k : Nat) : moveStmt (.onBy k) = Stmt.renumber (· + k) :=
  funext fun s => (s.renumber (· + k)).reline_id

/-- Reading declarations does not depend on node identities. -/
theorem declaration_shifts (k n : Nat) :
    Shifts k (Option.map (Stmt.renumber (· + k))) (declaration n) (declaration n) := by
  have moves := (programs_move (.onBy k) n).declaration
  rw [moveStmt_onBy] at moves
  exact moves.shifts

theorem declarations_shifts (k n : Nat) (stop : Token.Kind) (done : List Stmt) :
    Shifts k (List.map (Stmt.renumber (· + k))) (declarations n stop done)
      (declarations n stop (done.map (Stmt.renumber (· + k)))) := by
  have moves := (programs_move (.onBy k) n).declarations stop done
  rw [moveStmt_onBy] at moves
  exact moves.shifts

end Grammar

/-! ### Sources -/

/-- Reading a source from another first identity gives the same program with its identities moved on,
and the same diagnostics. -/
theorem Source.program_shift (source : String) (firstId : NodeId) :
    Source.program source firstId =
      { result := (Source.program source 0).result.map (Stmt.renumber (· + firstId))
        diagnostics := (Source.program source 0).diagnostics
        nextId := (Source.program source 0).nextId + firstId } := by
  have moved := Grammar.program_move (.onBy firstId) (tokens source) 0
  rw [Grammar.moveStmt_onBy] at moved
  simp only [Move.onBy, Token.map_reline_id, Nat.zero_add, funext Diagnostic.reline_id, List.map_id'] at moved
  unfold Source.program
  rw [moved]

end Lox
