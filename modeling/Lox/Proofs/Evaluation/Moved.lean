import Lox.Proofs.Evaluation.Following
import Lox.Proofs.Syntax.Numbered

/-!
# Evaluation of moved code

Code on other lines does, on a machine whose code has been moved likewise, what it does where it stands.
The distances of nodes that neither the code nor the store has play no part. The proof is one induction
on the bound of the depth, with a case for each function of the evaluation.
-/

namespace Lox

/-- Within the bound `n`, moved code follows the code. -/
structure Moves (c : Change) (b : NodeId) (n : Nat) : Prop where
  evaluate : ∀ e, IdsBelow b e.ids →
    Run.Follows c b Eq (Lox.evaluate n e) (Lox.evaluate n (e.reline c.line))
  evaluateAll : ∀ expressions, IdsBelow b (expressionIds expressions) →
    Run.Follows c b Eq (Lox.evaluateAll n expressions)
      (Lox.evaluateAll n (relineExpressions c.line expressions))
  call : ∀ callee line arguments,
    Run.Follows c b Eq (Lox.call n callee line arguments)
      (Lox.call n callee (c.line line) arguments)
  callClosure : ∀ closure arguments, closure.Below b →
    Run.Follows c b Eq (Lox.callClosure n closure arguments)
      (Lox.callClosure n (closure.reline c.line) arguments)
  construct : ∀ cls arguments,
    Run.Follows c b Eq (Lox.construct n cls arguments) (Lox.construct n cls arguments)
  execute : ∀ s, IdsBelow b s.ids →
    Run.Follows c b Eq (Lox.execute n s) (Lox.execute n (s.reline c.line))
  evaluateOptional : ∀ e, IdsBelow b (optionalIds e) →
    Run.Follows c b Eq (Lox.evaluateOptional n e)
      (Lox.evaluateOptional n (e.map (Expr.reline c.line)))
  evaluateSuperclass : ∀ e, IdsBelow b (optionalIds e) →
    Run.Follows c b Eq (Lox.evaluateSuperclass n e)
      (Lox.evaluateSuperclass n (e.map (Expr.reline c.line)))
  executeWhile : ∀ condition body, IdsBelow b condition.ids → IdsBelow b body.ids →
    Run.Follows c b Eq (Lox.executeWhile n condition body)
      (Lox.executeWhile n (condition.reline c.line) (body.reline c.line))
  executeAll : ∀ body, IdsBelow b (statementIds body) →
    Run.Follows c b Eq (Lox.executeAll n body) (Lox.executeAll n (relineStatements c.line body))

open Run

/-- Operators do not look at the line that they stand on. -/
theorem decides_reline (f : Nat → Nat) (operator : Token) (left : Value) :
    decides (operator.reline f) left = decides operator left := rfl

section

variable {c : Change} {b n : Nat} (ih : Moves c b n)

include ih

private theorem evaluate_moves (e : Expr) (code : IdsBelow b e.ids) :
    Follows c b Eq (evaluate (n + 1) e) (evaluate (n + 1) (e.reline c.line)) := by
  cases e with
  | literal value => exact follows_pure rfl
  | grouping inner => exact ih.evaluate inner code
  | unary operator right =>
    apply (ih.evaluate right code).bindEq
    intro v
    exact follows_ofExcept operator.line (applyPrefix operator v)
  | binary left operator right =>
    rw [Expr.ids, idsBelow_append] at code
    apply (ih.evaluate left code.1).bindEq
    intro v
    apply (ih.evaluate right code.2).bindEq
    intro w
    exact follows_ofExcept operator.line (applyBinary operator v w)
  | logical left operator right =>
    rw [Expr.ids, idsBelow_append] at code
    apply (ih.evaluate left code.1).bindEq
    intro v
    rw [decides_reline]
    split
    · exact follows_pure rfl
    · exact ih.evaluate right code.2
  | «variable» name i =>
    have below : i < b := code i List.mem_cons_self
    exact follows_read name.line fun m suits => lookUp_change suits below name.text
  | assign name value i =>
    rw [Expr.ids, idsBelow_append] at code
    apply (ih.evaluate value code.1).bindEq
    intro v
    apply (follows_assign (code.2 i List.mem_cons_self) name v).bindEq
    intro _
    exact follows_pure rfl
  | call callee line arguments =>
    rw [Expr.ids, idsBelow_append] at code
    apply (ih.evaluate callee code.1).bindEq
    intro f
    apply (ih.evaluateAll arguments code.2).bindEq
    intro values
    exact ih.call f line values
  | get object name =>
    apply (ih.evaluate object code).bindEq
    intro v
    exact follows_getProperty v name
  | set object name value =>
    rw [Expr.ids, idsBelow_append] at code
    apply (ih.evaluate object code.2).bindEq
    intro v
    cases v with
    | instance_ i =>
      apply (ih.evaluate value code.1).bindEq
      intro w
      apply (follows_setField i name w).bindEq
      intro _
      exact follows_pure rfl
    | nil | bool _ | number _ | string _ | native _ | function _ | class_ _ =>
      exact follows_fault _ name.line
  | this keyword i =>
    have below : i < b := code i List.mem_cons_self
    exact follows_read keyword.line fun m suits => lookUp_change suits below keyword.text
  | super keyword method i => exact follows_superMethod (code i List.mem_cons_self) keyword method

private theorem call_moves (callee : Value) (line : Nat) (arguments : List Value) :
    Follows c b Eq (call (n + 1) callee line arguments)
      (call (n + 1) callee (c.line line) arguments) := by
  cases callee with
  | native f =>
    apply (follows_checkArity _ _ line).bindEq
    intro _
    exact follows_callNative f
  | function f =>
    -- the function that is found has moved, and its code is among the code of the store
    have found : Follows c b (Option.Rel (Moved c b)) (ask (·.store.functionAt? f))
        (ask (·.store.functionAt? f)) := by
      refine follows_ask fun m suits => ?_
      rw [show (c.machine m).store.functionAt? f = _ from m.store.functionAt?_reline c.line f]
      cases present : m.store.functionAt? f with
      | none => exact .none
      | some closure => exact .some ⟨rfl, suits.below.functions f closure present⟩
    apply found.bind
    intro found found' related
    cases related with
    | none => exact follows_fault _ line
    | some moved =>
      obtain ⟨rfl, below⟩ := moved
      dsimp only
      rw [Closure.reline_declaration, FunctionDecl.reline_parameters, List.length_map]
      apply (follows_checkArity _ _ line).bindEq
      intro _
      exact (ih.callClosure _ arguments below).nested line
  | class_ cls =>
    apply (follows_ask fun m _ => (m.store.classArity_reline c.line cls).symm).bindEq
    intro arity
    apply (follows_checkArity _ _ line).bindEq
    intro _
    exact (ih.construct cls arguments).nested line
  | nil | bool _ | number _ | string _ | instance_ _ => exact follows_fault _ line

private theorem callClosure_moves (closure : Closure) (arguments : List Value)
    (code : closure.Below b) :
    Follows c b Eq (callClosure (n + 1) closure arguments)
      (callClosure (n + 1) (closure.reline c.line) arguments) := by
  obtain ⟨⟨name, parameters, body⟩, frame, isInitializer⟩ := closure
  apply (follows_callFrame _ arguments).bindEq
  intro inside
  apply ((ih.executeAll body code).inFrame inside).bindEq
  intro flow
  exact follows_callResult _ flow

private theorem construct_moves (cls : ClassId) (arguments : List Value) :
    Follows c b Eq (construct (n + 1) cls arguments) (construct (n + 1) cls arguments) := by
  apply (follows_addInstance cls).bindEq
  intro i
  apply (follows_ask fun m suits => moved_findMethod suits cls initializerName).bind
  intro found found' related
  cases related with
  | none => exact follows_pure rfl
  | some moved =>
    obtain ⟨rfl, below⟩ := moved
    apply (follows_bind _ below (.instance_ i)).bind
    rintro closure _ ⟨rfl, below⟩
    apply (ih.callClosure closure arguments below).bindEq
    intro _
    exact follows_pure rfl

private theorem execute_moves (s : Stmt) (code : IdsBelow b s.ids) :
    Follows c b Eq (execute (n + 1) s) (execute (n + 1) (s.reline c.line)) := by
  cases s with
  | expression e =>
    apply (ih.evaluate e code).bindEq
    intro v
    exact follows_pure rfl
  | print e =>
    apply (ih.evaluate e code).bindEq
    intro v
    apply (follows_print v).bindEq
    intro _
    exact follows_pure rfl
  | var name initializer =>
    apply (ih.evaluateOptional initializer code).bindEq
    intro v
    apply follows_current.bindEq
    intro frame
    apply (follows_define frame name.text v).bindEq
    intro _
    exact follows_pure rfl
  | block body =>
    apply follows_current.bindEq
    intro outside
    apply (follows_addFrame ∅ (some outside)).bindEq
    intro frame
    exact (ih.executeAll body code).inFrame frame
  | ifElse condition thenBranch elseBranch =>
    rw [Stmt.reline_ifElse]
    cases elseBranch with
    | none =>
      rw [Stmt.ids, idsBelow_append] at code
      apply (ih.evaluate condition code.1).bindEq
      intro v
      split
      · exact ih.execute thenBranch code.2
      · exact follows_pure rfl
    | some other =>
      rw [Stmt.ids, idsBelow_append, idsBelow_append] at code
      apply (ih.evaluate condition code.1.1).bindEq
      intro v
      split
      · exact ih.execute thenBranch code.1.2
      · exact ih.execute other code.2
  | «while» condition body =>
    rw [Stmt.ids, idsBelow_append] at code
    exact ih.executeWhile condition body code.1 code.2
  | function d =>
    apply (follows_declareFunction code).bindEq
    intro _
    exact follows_pure rfl
  | «return» line e =>
    apply (ih.evaluateOptional e code).bindEq
    intro v
    exact follows_pure rfl
  | class_ name superclass methods =>
    rw [Stmt.ids, idsBelow_append] at code
    rw [Stmt.reline, relineMethods_eq_map]
    apply (ih.evaluateSuperclass superclass code.1).bindEq
    intro parent
    refine (follows_declareClass name parent fun d member i below => code.2 i ?_).bindEq fun _ =>
      follows_pure rfl
    rw [methodIds_eq_flatMap]
    exact List.mem_flatMap.mpr ⟨d, member, below⟩

private theorem evaluateSuperclass_moves (e : Option Expr) (code : IdsBelow b (optionalIds e)) :
    Follows c b Eq (evaluateSuperclass (n + 1) e)
      (evaluateSuperclass (n + 1) (e.map (Expr.reline c.line))) := by
  cases e with
  | none => exact follows_pure rfl
  | some e =>
    apply (ih.evaluate e code).bindEq
    intro v
    have line : (e.reline c.line).superclassLine = c.line e.superclassLine := by
      cases e with
      | «variable» name i => rfl
      | _ => exact c.zero.symm
    cases v with
    | class_ cls => exact follows_pure rfl
    | nil | bool _ | number _ | string _ | native _ | function _ | instance_ _ =>
      dsimp only
      rw [line]
      exact follows_fault _ _

private theorem executeWhile_moves (condition : Expr) (body : Stmt)
    (test : IdsBelow b condition.ids) (code : IdsBelow b body.ids) :
    Follows c b Eq (executeWhile (n + 1) condition body)
      (executeWhile (n + 1) (condition.reline c.line) (body.reline c.line)) := by
  apply (ih.evaluate condition test).bindEq
  intro v
  split
  · apply (ih.execute body code).bindEq
    intro flow
    cases flow with
    | «return» value => exact follows_pure rfl
    | next value => exact ih.executeWhile condition body test code
  · exact follows_pure rfl

private theorem executeAll_moves (body : List Stmt) (code : IdsBelow b (statementIds body)) :
    Follows c b Eq (executeAll (n + 1) body)
      (executeAll (n + 1) (relineStatements c.line body)) := by
  cases body with
  | nil => exact follows_pure rfl
  | cons s rest =>
    rw [statementIds, idsBelow_append] at code
    apply (ih.execute s code.1).bindEq
    intro flow
    cases flow with
    | «return» value => exact follows_pure rfl
    | next value => exact ih.executeAll rest code.2

end

/-- Moved code follows the code, by induction on the bound: the operations of a function follow each
other, and the functions that it calls have less of the bound. -/
theorem moves (c : Change) (b n : Nat) : Moves c b n := by
  induction n with
  | zero =>
    constructor <;> intros <;> exact fun _ suits => ⟨rfl, rfl, suits⟩
  | succ n ih =>
    exact {
      evaluate := evaluate_moves ih
      evaluateAll := by
        intro expressions code
        cases expressions with
        | nil => exact follows_pure rfl
        | cons e rest =>
          rw [expressionIds, idsBelow_append] at code
          apply (ih.evaluate e code.1).bindEq
          intro v
          apply (ih.evaluateAll rest code.2).bindEq
          intro values
          exact follows_pure rfl
      call := call_moves ih
      callClosure := callClosure_moves ih
      construct := construct_moves ih
      execute := execute_moves ih
      evaluateOptional := by
        intro e code
        cases e with
        | none => exact follows_pure rfl
        | some e => exact ih.evaluate e code
      evaluateSuperclass := evaluateSuperclass_moves ih
      executeWhile := executeWhile_moves ih
      executeAll := executeAll_moves ih }

/-! ### Programs -/

/-- Statements at top level, moved to other lines, do what they do where they stand. -/
theorem runFrom_moves (c : Change) (b fuel : Nat) (last : Value) (statements : List Stmt)
    (code : IdsBelow b (statementIds statements)) :
    Follows c b Eq (runFrom fuel last statements)
      (runFrom fuel last (relineStatements c.line statements)) := by
  induction statements generalizing last with
  | nil => exact follows_pure rfl
  | cons s rest ih =>
    rw [statementIds, idsBelow_append] at code
    apply ((moves c b fuel).execute s code.1).bindEq
    intro flow
    exact ih flow.value code.2

theorem runProgram_moves (c : Change) (b fuel : Nat) (statements : List Stmt)
    (code : IdsBelow b (statementIds statements)) :
    Follows c b Eq (runProgram fuel statements)
      (runProgram fuel (relineStatements c.line statements)) := by
  apply (runFrom_moves c b fuel .nil statements code).bindEq
  intro last
  apply follows_flush.bindEq
  intro _
  exact follows_pure rfl

end Lox
