import Lox.Proofs.Evaluation.Evolution
import Lox.Proofs.Scope.Returns

/-!
# How a body returns

Blocks, branches, loops and lists of statements begin their parts one after another: statements, conditions
and what is left to run. `Task.course` lists all that is begun in a body so, in order, without what is begun
in the expressions of its statements. A body that returns has a `return` of its own as the last step of its
course, and the value that this has evaluated is the one that the body returns.
-/

namespace Lox

open Run

namespace Task

/-- A task that is a matter of control: all that it does is to begin parts. -/
def isControl : Task → Bool
  | .execute (.block _) | .execute (.ifElse _ _ _) | .execute (.while _ _)
  | .executeWhile _ _ | .executeAll _ => true
  | _ => false

/-- The parts that a task of control begins within `n + 1`, in order. -/
def parts (n : Nat) (m : Machine) : Task → List (Machine × Task)
  | .execute (.block body) =>
    let (frame, store) := m.store.addFrame ∅ (some m.current)
    [({ m with store, current := frame }, .executeAll body)]
  | .execute (.ifElse condition thenBranch elseBranch) =>
    (m, .evaluate condition) :: match Lox.evaluate n condition m with
      | .ok a m₁ =>
        if a.isTruthy then [(m₁, .execute thenBranch)]
        else match elseBranch with
          | some s => [(m₁, .execute s)]
          | none => []
      | .error _ _ => []
  | .execute (.while condition body) => [(m, .executeWhile condition body)]
  | .executeWhile condition body =>
    (m, .evaluate condition) :: match Lox.evaluate n condition m with
      | .ok a m₁ =>
        if a.isTruthy then (m₁, .execute body) :: match Lox.execute n body m₁ with
          | .ok (.next _) m₂ => [(m₂, .executeWhile condition body)]
          | _ => []
        else []
      | .error _ _ => []
  | .executeAll (s :: rest) =>
    (m, .execute s) :: match Lox.execute n s m with
      | .ok (.next _) m₁ => [(m₁, .executeAll rest)]
      | _ => []
  | _ => []

/-- A task of control begins its parts and nothing else. -/
theorem mem_parts_iff {n : Nat} {m m' : Machine} {t t' : Task} (control : t.isControl) :
    (m', t') ∈ t.parts n m ↔ Begins n m t m' t' := by
  constructor
  · intro member
    unfold parts at member
    split at member
    · rw [List.mem_singleton] at member
      cases member
      exact .block rfl
    · rcases List.mem_cons.mp member with same | member
      · cases same
        exact .condition
      · split at member
        · rename_i a m₁ done
          split at member
          · rename_i holds
            cases List.mem_singleton.mp member
            exact .thenBranch done holds
          · rename_i fails
            split at member
            · cases List.mem_singleton.mp member
              exact .elseBranch done fails
            · cases member
        · cases member
    · cases List.mem_singleton.mp member
      exact .loop
    · rcases List.mem_cons.mp member with same | member
      · cases same
        exact .test
      · split at member
        · rename_i a m₁ done
          split at member
          · rename_i holds
            rcases List.mem_cons.mp member with same | member
            · cases same
              exact .turn done holds
            · split at member
              · rename_i last m₂ ran
                cases List.mem_singleton.mp member
                exact .again done holds ran
              · cases member
          · cases member
        · cases member
    · rcases List.mem_cons.mp member with same | member
      · cases same
        exact .statement
      · split at member
        · rename_i last m₁ done
          cases List.mem_singleton.mp member
          exact .following done
        · cases member
    · cases member
  · intro begins
    cases begins with
    | block opened =>
      cases opened
      exact .head _
    | condition | loop | test | statement => exact .head _
    | thenBranch done holds => simp [parts, done, holds]
    | elseBranch done fails => simp [parts, done, fails]
    | turn done holds => simp [parts, done, holds]
    | again done holds ran => simp [parts, done, holds, ran]
    | following done => simp [parts, done]
    | _ => cases control

end Task

/-- A task as it is begun: with its bound, on its machine. -/
structure Begun where
  bound : Nat
  machine : Machine
  task : Task

/-- All that is begun in a body itself, in order, from the task on that carries it out. -/
def Task.course (t : Task) (n : Nat) (m : Machine) : List Begun :=
  match n with
  | 0 => [⟨0, m, t⟩]
  | n + 1 => ⟨n + 1, m, t⟩ :: (t.parts n m).flatMap fun p => p.2.course n p.1

/-- The last that is begun is one of the given `return`s, and its value is what is returned. -/
def Task.EndsReturning (returns : List (Nat × Option Expr)) (n : Nat) (m : Machine) (t : Task)
    (v : Value) (m' : Machine) : Prop :=
  ∃ earlier k m₁ line value m₂,
    t.course n m = earlier ++ [⟨k + 1, m₁, .execute (.return line value)⟩] ∧
    (line, value) ∈ returns ∧ Lox.evaluateOptional k value m₁ = .ok v m₂ ∧ m₂.Elsewhere m'

/-! ### One step -/

section

variable {n : Nat} {m m' : Machine} {v : Value} {returns : List (Nat × Option Expr)}

/-- A task ends returning if its last part does. -/
theorem Task.EndsReturning.of_part {t t₁ : Task} {m₁ m₂ : Machine} {among : List (Nat × Option Expr)}
    (ends : t₁.EndsReturning among n m₁ v m₂) (before : List (Machine × Task))
    (last : t.parts n m = before ++ [(m₁, t₁)]) (fewer : among ⊆ returns) (apart : m₂.Elsewhere m') :
    t.EndsReturning returns (n + 1) m v m' := by
  obtain ⟨earlier, k, m₃, line, value, m₄, course, member, done, apart'⟩ := ends
  let earlier' := ⟨n + 1, m, t⟩ :: (before.flatMap (fun p => p.2.course n p.1) ++ earlier)
  refine ⟨earlier', k, m₃, line, value, m₄, ?_, fewer member, done, apart'.trans apart⟩
  simp only [Task.course, last, List.flatMap_append, List.flatMap_singleton, course,
    List.cons_append, List.append_assoc, earlier']

theorem Run.inFrame_ok {α : Type} {frame : FrameId} {body : Run α} {a : α}
    (done : inFrame frame body m = .ok a m') :
    ∃ m₁, body { m with current := frame } = .ok a m₁ ∧ m₁.Elsewhere m' := by
  rw [inFrame_eq] at done
  cases ran : body { m with current := frame } with
  | ok b m₁ =>
    rw [ran] at done
    cases done
    exact ⟨m₁, rfl, _, _, rfl⟩
  | error halt m₁ =>
    rw [ran] at done
    cases done

/-- What is known of statements, loops and bodies within a bound. -/
structure Returning (n : Nat) : Prop where
  execute : ∀ {s m v m'}, Lox.execute n s m = .ok (.return v) m' →
    (Task.execute s).EndsReturning s.returns n m v m'
  executeWhile : ∀ {condition body m v m'},
    Lox.executeWhile n condition body m = .ok (.return v) m' →
      (Task.executeWhile condition body).EndsReturning body.returns n m v m'
  executeAll : ∀ {body m v m'}, Lox.executeAll n body m = .ok (.return v) m' →
    (Task.executeAll body).EndsReturning (statementReturns body) n m v m'

namespace Returning

variable (ih : Returning n)

include ih

private theorem execute_succ {s : Stmt} (done : Lox.execute (n + 1) s m = .ok (.return v) m') :
    (Task.execute s).EndsReturning s.returns (n + 1) m v m' := by
  cases s with
  | expression _ | function _ =>
    obtain ⟨_, _, -, rest⟩ := bind_ok done
    cases rest
  | print _ | class_ _ _ _ =>
    obtain ⟨_, _, -, rest⟩ := bind_ok done
    obtain ⟨_, _, -, rest⟩ := bind_ok rest
    cases rest
  | var _ _ =>
    obtain ⟨_, _, -, rest⟩ := bind_ok done
    obtain ⟨_, _, -, rest⟩ := bind_ok rest
    obtain ⟨_, _, -, rest⟩ := bind_ok rest
    cases rest
  | block body =>
    obtain ⟨m₁, ran, apart⟩ := inFrame_ok done
    refine (ih.executeAll ran).of_part [] rfl ?_ apart
    rw [Stmt.returns]
    exact List.Subset.refl _
  | ifElse condition thenBranch elseBranch =>
    obtain ⟨a, m₁, tested, rest⟩ := bind_ok done
    split at rest
    · rename_i holds
      refine (ih.execute rest).of_part [(m, .evaluate condition)] ?_ ?_ (.refl m')
      · simp [Task.parts, tested, holds]
      · cases elseBranch <;> simp [Stmt.returns]
    · rename_i fails
      cases elseBranch with
      | some s =>
        refine (ih.execute rest).of_part [(m, .evaluate condition)] ?_ ?_ (.refl m')
        · simp [Task.parts, tested, fails]
        · simp [Stmt.returns]
      | none => cases rest
  | «while» condition body =>
    refine (ih.executeWhile done).of_part [] rfl ?_ (.refl m')
    rw [Stmt.returns]
    exact List.Subset.refl _
  | «return» line value =>
    obtain ⟨a, m₁, given, rest⟩ := bind_ok done
    cases rest
    exact ⟨[], n, m, line, value, m', rfl, by rw [Stmt.returns]; exact .head _, given, .refl m'⟩

private theorem executeWhile_succ {condition : Expr} {body : Stmt}
    (done : Lox.executeWhile (n + 1) condition body m = .ok (.return v) m') :
    (Task.executeWhile condition body).EndsReturning body.returns (n + 1) m v m' := by
  obtain ⟨a, m₁, tested, rest⟩ := bind_ok done
  split at rest
  · rename_i holds
    obtain ⟨flow, m₂, ran, rest⟩ := bind_ok rest
    cases flow with
    | «return» value =>
      cases rest
      refine (ih.execute ran).of_part [(m, .evaluate condition)] ?_
        (List.Subset.refl _) (.refl m')
      simp [Task.parts, tested, holds, ran]
    | next last =>
      refine (ih.executeWhile rest).of_part
        [(m, .evaluate condition), (m₁, .execute body)] ?_ (List.Subset.refl _) (.refl m')
      simp [Task.parts, tested, holds, ran]
  · cases rest

private theorem executeAll_succ {body : List Stmt}
    (done : Lox.executeAll (n + 1) body m = .ok (.return v) m') :
    (Task.executeAll body).EndsReturning (statementReturns body) (n + 1) m v m' := by
  cases body with
  | nil => cases done
  | cons s rest =>
    obtain ⟨flow, m₁, ran, following⟩ := bind_ok done
    rw [statementReturns]
    cases flow with
    | «return» value =>
      cases following
      refine (ih.execute ran).of_part [] ?_ (List.subset_append_left _ _) (.refl m')
      simp [Task.parts, ran]
    | next last =>
      refine (ih.executeAll following).of_part [(m, .execute s)] ?_
        (List.subset_append_right _ _) (.refl m')
      simp [Task.parts, ran]

end Returning

end

/-- By induction on the bound. -/
theorem returning (n : Nat) : Returning n := by
  induction n with
  | zero => exact ⟨fun done => (nomatch done), fun done => (nomatch done), fun done => (nomatch done)⟩
  | succ n ih =>
    exact ⟨Returning.execute_succ ih, Returning.executeWhile_succ ih, Returning.executeAll_succ ih⟩

/-- A statement without any `return` falls through. -/
theorem falls_through {s : Stmt} (none : s.returns = []) {n : Nat} {m m' : Machine} {flow : Flow}
    (done : execute n s m = .ok flow m') : ∃ v, flow = .next v := by
  cases flow with
  | next v => exact ⟨v, rfl⟩
  | «return» v =>
    obtain ⟨_, _, _, _, _, _, -, member, -⟩ := (returning n).execute done
    rw [none] at member
    cases member

end Lox
