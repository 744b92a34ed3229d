import Lox.Proofs.Lexical.Loops
import Lox.Proofs.Lexical.Simulation

/-!
# Statements that declare nothing

A statement works in the current frame as far as it declares names there. One that declares nothing works apart
from every old frame: a name that is new lies in a new frame.
-/

namespace Lox.Lexical

/-- Within the bound `n`, statements that declare nothing match apart from every old frame. -/
structure Apart (L : List Lookup) (g : FrameId) (n : Nat) : Prop where
  execute : ∀ {cells m μ Γ ρ s}, Sited L g m.current Γ ρ cells m μ → s.Scoped L Γ → s.declared? = none →
    Matches L g none cells m Equal (Lox.execute n s m) (flowOf n ρ s μ)
  executeWhile : ∀ {cells m μ Γ ρ condition body}, Sited L g m.current Γ ρ cells m μ →
    condition.Scoped L Γ → body.Scoped L Γ → body.declared? = none →
    Matches L g none cells m Equal (Lox.executeWhile n condition body m)
      (executeWhile n ρ condition body μ)

section

variable {L : List Lookup} {g : FrameId} {n : Nat} (ih : Apart L g n) {cells : List Slot} {m : Machine}
  {μ : State} {Γ : Scopes} {ρ : Env}

include ih

private theorem execute_apart {s : Stmt} (sited : Sited L g m.current Γ ρ cells m μ) (code : s.Scoped L Γ)
    (silent : s.declared? = none) :
    Matches L g none cells m Equal (Lox.execute (n + 1) s m) (flowOf (n + 1) ρ s μ) := by
  have here := simulates L g n
  cases s with
  | expression value =>
    rw [Stmt.Scoped] at code
    simp only [flowOf, execute, map_bind, map_pure]
    exact (here.evaluate sited code).bindEqual fun value _ agree => matches_pure agree rfl
  | print value =>
    rw [Stmt.Scoped] at code
    simp only [flowOf, execute, map_bind, map_pure]
    refine (here.evaluate sited code).bindEqual fun value _ agree => ?_
    exact (matches_print agree value).bindEqual fun _ _ agree => matches_pure agree rfl
  | block body =>
    rw [Stmt.Scoped] at code
    simp only [flowOf, map_eq_pure_bind]
    exact (block_simulates here sited code).mapRight fun _ _ both => both.1
  | ifElse condition thenBranch elseBranch =>
    obtain ⟨test, ⟨code, silent⟩, other⟩ := Stmt.scoped_ifElse code
    simp only [flowOf, execute, map_bind]
    refine (here.evaluate sited test).bindEqual fun value later agree => ?_
    have sited := sited.later later agree
    split
    · exact ih.execute sited code silent
    · cases elseBranch with
      | none =>
        simp only [map_pure]
        exact matches_pure agree rfl
      | some s => exact ih.execute sited (other s rfl).1 (other s rfl).2
  | «while» condition body =>
    rw [Stmt.Scoped] at code
    simp only [flowOf, execute, map_bind, map_pure, bind_pure]
    exact ih.executeWhile sited code.1 code.2.1 code.2.2
  | «return» line value =>
    rw [Stmt.Scoped] at code
    simp only [flowOf, execute, map_bind, map_pure]
    exact (here.evaluateOptional sited code).bindEqual fun value _ agree => matches_pure agree rfl
  | var name initializer | function d | class_ name superclass methods => cases silent

private theorem executeWhile_apart {condition : Expr} {body : Stmt}
    (sited : Sited L g m.current Γ ρ cells m μ) (test : condition.Scoped L Γ) (code : body.Scoped L Γ)
    (silent : body.declared? = none) :
    Matches L g none cells m Equal (Lox.executeWhile (n + 1) condition body m)
      (executeWhile (n + 1) ρ condition body μ) := by
  rw [executeWhile_succ]
  refine ((simulates L g n).evaluate sited test).bindEqual fun value later agree => ?_
  have sited := sited.later later agree
  split
  · refine (ih.execute sited code silent).bindEqual fun flow later agree => ?_
    cases flow with
    | «return» value => exact matches_pure agree rfl
    | next value => exact ih.executeWhile (sited.later later agree) test code silent
  · exact matches_pure agree rfl

end

/-- By induction on the bound. -/
theorem apart (L : List Lookup) (g : FrameId) (n : Nat) : Apart L g n := by
  induction n with
  | zero => constructor <;> intros <;> exact matches_throw (Sited.agree ‹_›) id
  | succ n ih => exact ⟨execute_apart ih, executeWhile_apart ih⟩

end Lox.Lexical
