import Mathlib
import Lox.Proofs.Session.Batch
import Lox.Proofs.Session.Returns

/-!
# The values that statements leave

An expression statement leaves its value when it falls through, and loops, blocks and declarations leave
`nil`. A conditional leaves what the branch that is taken leaves, so it can pass on the value of an expression
statement in it. The value of a program is what its last statement leaves.
-/

namespace Lox

open Run

/-- Execution of the first statement is handed on to the last one by the branches taken in conditionals, from
bound to bound and from machine to machine. -/
inductive Stmt.HandsOn : Nat → Machine → Stmt → Nat → Machine → Stmt → Prop
  | done (n : Nat) (m : Machine) (s : Stmt) : HandsOn n m s n m s
  | thenBranch {n k : Nat} {m m₁ m' : Machine} {condition : Expr} {s s' : Stmt} {other : Option Stmt}
    {test : Value} (tested : evaluate n condition m = .ok test m₁) (holds : test.isTruthy)
    (rest : HandsOn n m₁ s k m' s') : HandsOn (n + 1) m (.ifElse condition s other) k m' s'
  | elseBranch {n k : Nat} {m m₁ m' : Machine} {condition : Expr} {other s s' : Stmt}
    {test : Value} (tested : evaluate n condition m = .ok test m₁) (fails : ¬ test.isTruthy)
    (rest : HandsOn n m₁ s k m' s') : HandsOn (n + 1) m (.ifElse condition other (some s)) k m' s'

/-- What a statement leaves when it falls through: the value of the expression statement that it hands on to,
and `nil` if it hands on to none. -/
def Stmt.Leaves (n : Nat) (m : Machine) (s : Stmt) (v : Value) (m' : Machine) : Prop :=
  (∃ k m₁ e, s.HandsOn n m (k + 1) m₁ (.expression e) ∧ evaluate k e m₁ = .ok v m') ∨
    (v = .nil ∧ ∀ k m₁ e, ¬ s.HandsOn n m k m₁ (.expression e))

/-- Statements that are neither expression statements nor conditionals. -/
def Stmt.isSilent : Stmt → Bool
  | .expression _ | .ifElse _ _ _ => false
  | _ => true

/-- These hand on to nothing. -/
theorem Stmt.HandsOn.of_isSilent {n k : Nat} {m m' : Machine} {s s' : Stmt} (silent : s.isSilent)
    (hands : s.HandsOn n m k m' s') : s' = s := by
  cases hands with
  | done => rfl
  | thenBranch | elseBranch => cases silent

/-- The branch of a conditional that this outcome of the test takes, if any. -/
def Stmt.taken (test : Value) (thenBranch : Stmt) (elseBranch : Option Stmt) : Option Stmt :=
  if test.isTruthy then some thenBranch else elseBranch

section

variable {n : Nat} {m m₁ : Machine} {condition : Expr} {test : Value} {thenBranch : Stmt}
  {elseBranch : Option Stmt} (tested : evaluate n condition m = .ok test m₁)

include tested

/-- A conditional hands on to an expression statement where the branch that is taken does. -/
theorem Stmt.handsOn_ifElse_iff {k : Nat} {m' : Machine} {e : Expr} :
    (Stmt.ifElse condition thenBranch elseBranch).HandsOn (n + 1) m k m' (.expression e) ↔
      ∃ s, taken test thenBranch elseBranch = some s ∧ s.HandsOn n m₁ k m' (.expression e) := by
  constructor
  · intro hands
    cases hands with
    | thenBranch tested' holds rest =>
      cases tested.symm.trans tested'
      exact ⟨_, if_pos holds, rest⟩
    | elseBranch tested' fails rest =>
      cases tested.symm.trans tested'
      exact ⟨_, if_neg fails, rest⟩
  · rintro ⟨s, taken, rest⟩
    unfold Stmt.taken at taken
    split at taken
    · rename_i holds
      cases taken
      exact .thenBranch tested holds rest
    · rename_i fails
      subst taken
      exact .elseBranch tested fails rest

/-- So it leaves what this branch leaves. -/
theorem Stmt.Leaves.ifElse {s : Stmt} {v : Value} {m' : Machine}
    (taken : Stmt.taken test thenBranch elseBranch = some s) (leaves : s.Leaves n m₁ v m') :
    (Stmt.ifElse condition thenBranch elseBranch).Leaves (n + 1) m v m' := by
  rcases leaves with ⟨k, m₂, e, hands, evaluated⟩ | ⟨none, never⟩
  · exact .inl ⟨k, m₂, e, (handsOn_ifElse_iff tested).mpr ⟨s, taken, hands⟩, evaluated⟩
  · refine .inr ⟨none, fun k m₂ e hands => ?_⟩
    obtain ⟨s', taken', hands⟩ := (handsOn_ifElse_iff tested).mp hands
    cases taken.symm.trans taken'
    exact never k m₂ e hands

/-- Where no branch is taken it leaves `nil`. -/
theorem Stmt.leaves_of_untaken (untaken : taken test thenBranch elseBranch = none) (m' : Machine) :
    (Stmt.ifElse condition thenBranch elseBranch).Leaves (n + 1) m .nil m' := by
  refine .inr ⟨rfl, fun k m₂ e hands => ?_⟩
  obtain ⟨s, taken, -⟩ := (handsOn_ifElse_iff tested).mp hands
  cases untaken.symm.trans taken

end

/-! ### Statements one after another -/

section

variable {n : Nat} {m m' : Machine} {v : Value}

/-- What the statements of a body leave is dropped. -/
theorem executeAll_leaves_nil {body : List Stmt} (ran : executeAll n body m = .ok (.next v) m') :
    v = .nil := by
  induction n generalizing body m with
  | zero => cases ran
  | succ n ih =>
    cases body with
    | nil =>
      cases ran
      rfl
    | cons s rest =>
      obtain ⟨flow, m₁, -, following⟩ := bind_ok ran
      cases flow with
      | next _ => exact ih following
      | «return» _ => cases following

/-- What the rounds of a loop leave is dropped. -/
theorem executeWhile_leaves_nil {condition : Expr} {body : Stmt}
    (ran : executeWhile n condition body m = .ok (.next v) m') : v = .nil := by
  induction n generalizing m with
  | zero => cases ran
  | succ n ih =>
    obtain ⟨test, m₁, -, rest⟩ := bind_ok ran
    split at rest
    · obtain ⟨flow, m₂, -, following⟩ := bind_ok rest
      cases flow with
      | next _ => exact ih following
      | «return» _ => cases following
    · cases rest
      rfl

/-- Statements that are neither expression statements nor conditionals leave `nil`. -/
theorem execute_isSilent {s : Stmt} (silent : s.isSilent) (ran : execute n s m = .ok (.next v) m') :
    v = .nil := by
  cases n with
  | zero => cases ran
  | succ n =>
    cases s with
    | expression _ | ifElse _ _ _ => cases silent
    | function _ =>
      obtain ⟨_, _, -, rest⟩ := bind_ok ran
      cases rest
      rfl
    | print _ | class_ _ _ _ =>
      obtain ⟨_, _, -, rest⟩ := bind_ok ran
      obtain ⟨_, _, -, rest⟩ := bind_ok rest
      cases rest
      rfl
    | var _ _ =>
      obtain ⟨_, _, -, rest⟩ := bind_ok ran
      obtain ⟨_, _, -, rest⟩ := bind_ok rest
      obtain ⟨_, _, -, rest⟩ := bind_ok rest
      cases rest
      rfl
    | block body =>
      obtain ⟨_, ran, -⟩ := inFrame_ok ran
      exact executeAll_leaves_nil ran
    | «while» condition body => exact executeWhile_leaves_nil ran
    | «return» _ _ =>
      obtain ⟨_, _, -, rest⟩ := bind_ok ran
      cases rest

/-- By induction on the bound: a conditional leaves what the branch that is taken leaves. -/
theorem execute_leaves {s : Stmt} (ran : execute n s m = .ok (.next v) m') : s.Leaves n m v m' := by
  induction n generalizing s m with
  | zero => cases ran
  | succ n ih =>
    by_cases silent : s.isSilent
    · refine .inr ⟨execute_isSilent silent ran, fun k m₁ e hands => ?_⟩
      cases hands.of_isSilent silent
      cases silent
    cases s with
    | expression e =>
      obtain ⟨_, _, evaluated, rest⟩ := bind_ok ran
      cases rest
      exact .inl ⟨n, m, e, .done _ _ _, evaluated⟩
    | ifElse condition thenBranch elseBranch =>
      obtain ⟨test, m₁, tested, rest⟩ := bind_ok ran
      split at rest
      · rename_i holds
        exact .ifElse tested (if_pos holds) (ih rest)
      · rename_i fails
        cases elseBranch with
        | none =>
          cases rest
          exact Stmt.leaves_of_untaken tested (if_neg fails) m'
        | some s => exact .ifElse tested (if_neg fails) (ih rest)
    | _ => exact absurd rfl silent

/-! ### Programs -/

/-- The value that a program ends with is the one that its last statement leaves. -/
theorem runFrom_leaves {fuel : Nat} {statements : List Stmt} {start : Value}
    (top : statementReturns statements = []) (ran : runFrom fuel start statements m = .ok v m') :
    (statements = [] ∧ v = start ∧ m' = m) ∨
      ∃ earlier last w m₁, statements = earlier ++ [last] ∧
        runFrom fuel start earlier m = .ok w m₁ ∧ execute fuel last m₁ = .ok (.next v) m' := by
  rcases List.eq_nil_or_concat statements with rfl | ⟨earlier, last, rfl⟩
  · cases ran
    exact .inl ⟨rfl, rfl, rfl⟩
  rw [List.concat_eq_append] at top ran ⊢
  cases before : runFrom fuel start earlier m with
  | error halt m₁ =>
    rw [runFrom_append_of_error before] at ran
    cases ran
  | ok w m₁ =>
    rw [runFrom_append_of_ok before] at ran
    obtain ⟨flow, m₂, executed, rest⟩ := bind_ok ran
    cases rest
    have none : last.returns = [] := by
      rw [List.eq_nil_iff_forall_not_mem] at top ⊢
      exact fun r inside => top r (mem_statementReturns (by simp) inside)
    obtain ⟨value, rfl⟩ := falls_through none executed
    exact .inr ⟨earlier, last, w, m₁, rfl, before, executed⟩

theorem runProgram_leaves {fuel : Nat} {statements : List Stmt}
    (top : statementReturns statements = []) (ran : runProgram fuel statements m = .ok v m') :
    (statements = [] ∧ v = .nil) ∨
      ∃ earlier last w m₁, statements = earlier ++ [last] ∧
        runFrom fuel .nil earlier m = .ok w m₁ ∧ execute fuel last m₁ = .ok (.next v) m' := by
  rw [runProgram_eq] at ran
  cases done : runFrom fuel .nil statements m with
  | error halt m₁ =>
    rw [done] at ran
    cases ran
  | ok w m₁ =>
    rw [done] at ran
    dsimp only at ran
    split at ran
    · cases ran
      rcases runFrom_leaves top done with ⟨empty, none, -⟩ | last
      · exact .inl ⟨empty, none⟩
      · exact .inr last
    · cases ran

end

/-- What statements leave. Every statement that falls through leaves the value of the expression statement
that the branches taken hand on to, and `nil` if they hand on to none; so print statements, declarations, blocks
and loops leave `nil`, whatever is nested in them. The value of a program that is run is what its last statement
leaves: that of its expression if it is an expression statement, and `nil` if it is neither that nor a
conditional. -/
theorem values_are_handed_on (n : Nat) :
    (∀ s m v m', execute n s m = .ok (.next v) m' →
      s.Leaves n m v m' ∧ (s.isSilent → v = .nil)) ∧
    ∀ (s s' : Session) source v, s.run n source = (.ok v, s') →
      ∃ program, (Source.accept source s.nextId).1 = .ok program ∧
        ((program.statements = [] ∧ v = .nil) ∨
          ∃ earlier last w m₁, program.statements = earlier ++ [last] ∧
            runFrom n .nil earlier (s.machine.recordAll program.bindings) = .ok w m₁ ∧
            execute n last m₁ = .ok (.next v) s'.machine ∧
            last.Leaves n m₁ v s'.machine ∧ (last.isSilent → v = .nil)) := by
  have leaves {s m v m'} (ran : execute n s m = .ok (.next v) m') :
      s.Leaves n m v m' ∧ (s.isSilent → v = .nil) :=
    ⟨execute_leaves ran, fun silent => execute_isSilent silent ran⟩
  refine ⟨fun s m v m' => leaves, fun s s' source v ran => ?_⟩
  cases accepted : (Source.accept source s.nextId).1 with
  | error diagnostics =>
    have rejected : (s.run n source).1 = .error (.rejected diagnostics) :=
      (Session.run_rejected_iff n s source diagnostics).mpr
        ((Source.accept_error_iff source s.nextId diagnostics).mp accepted)
    rw [ran] at rejected
    cases rejected
  | ok program =>
    rw [Session.run_of_accepted accepted, Session.perform] at ran
    cases done : runProgram n program.statements (s.machine.recordAll program.bindings) with
    | error halt m' =>
      rw [done] at ran
      cases ran
    | ok w m' =>
      rw [done] at ran
      cases ran
      refine ⟨program, rfl, (runProgram_leaves (Source.accept_returns accepted).1 done).imp_right ?_⟩
      rintro ⟨earlier, last, u, m₁, split, before, executed⟩
      exact ⟨earlier, last, u, m₁, split, before, executed, leaves executed⟩

/-- A block drops the value of the conditional in it. -/
theorem block_leaves_nil :
    let m := (Session.start .unlimited fun _ => 0).machine
    let s : Stmt := .block [.ifElse (.literal (.bool true)) (.expression (.literal (.bool true))) none]
    ∃ v m', execute 9 s m = .ok (.next v) m' ∧ s.Leaves 9 m v m' ∧ v = .nil := by
  intro m s
  have ran : execute 9 s m = .ok (.next .nil) (finalMachine (execute 9 s m)) := by cbv
  obtain ⟨leaves, none⟩ := (values_are_handed_on 9).1 s m _ _ ran
  exact ⟨_, _, ran, leaves, none rfl⟩

/-- A conditional is no expression statement, but passes the value of one on, and so does a program that ends
with it. -/
theorem conditional_passes_value_on :
    (¬ ∀ n s m v m', (∀ e, s ≠ .expression e) → execute n s m = .ok (.next v) m' → v = .nil) ∧
      ((Session.start .unlimited fun _ => 0).run 9 "if (true) true;").1 = .ok (.bool true) := by
  constructor
  · intro always
    have none := always 3 (.ifElse (.literal (.bool true)) (.expression (.literal (.bool true))) none)
      (Session.start .unlimited fun _ => 0).machine (.bool true) _ nofun rfl
    cases none
  · cbv

end Lox
