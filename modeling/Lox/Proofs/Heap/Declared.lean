import Lox.Proofs.Dispatch.Settled
import Lox.Proofs.Evaluation.Deeds
import Lox.Proofs.Scope.Returns
import Lox.Proofs.Session.Course

/-!
# The code in the heap

A function in the heap comes from a declaration that was carried out, or it is a method that was bound to an
instance, and the methods of a class come from its declaration. So what holds of all functions and methods
that are declared in the programs of a session holds of all code that its heap keeps.
-/

namespace Lox

open Run

/-! ### Where code comes from -/

section

variable {m : Machine} {t : Task} {s s' : Store}

/-- The closure binds a method that the store has: it is in a new frame, which binds the instance. -/
structure Store.Binds (s s' : Store) (closure : Closure) : Prop where
  of_method : ∃ c method, s.Declares c method ∧ closure.declaration = method.declaration ∧
    closure.isInitializer = method.isInitializer
  bound : (s'.binding? closure.frame Keyword.this.spelling).isSome

/-- A bound method is one that the store has, in a new frame. -/
theorem Store.binds_bind {c : ClassId} {name : String} {method : Closure}
    (found : s.findMethod c name = some method) (receiver : Value) :
    s.Binds (s.bind method receiver).2 (s.bind method receiver).1 := by
  obtain ⟨c', -, declares⟩ := declares_of_findMethod found
  refine ⟨⟨c', method, declares, rfl, rfl⟩, ?_⟩
  have self := s.binding?_addFrame_self (Table.insert ∅ Keyword.this.spelling receiver)
    (some method.frame) Keyword.this.spelling
  rw [Table.get?_insert_self] at self
  exact Option.isSome_of_eq_some self

theorem Store.functionAt?_addFunction {closure closure' : Closure} {f : FunctionId}
    (found : (s.addFunction closure).2.functionAt? f = some closure') :
    s.functionAt? f = some closure' ∨ closure' = closure := by
  rw [functionAt?, addFunction, Array.getElem?_push] at found
  split at found
  · cases found
    exact .inr rfl
  · exact .inl found

/-- A new function has been declared, or is a method that has been bound. -/
theorem Task.Alters.function_new (alters : t.Alters m s s') {f : FunctionId} {closure : Closure}
    (found : s'.functionAt? f = some closure) : s.functionAt? f = some closure ∨
      (∃ d, t = .execute (.function d) ∧ s = m.store ∧ closure = ⟨d, m.current, false⟩) ∨
      s.Binds s' closure := by
  cases alters with
  | nothing | addFrame | addInstance | setField | bind | assign | var => exact .inl found
  | bindValue has receiver =>
    rcases Store.functionAt?_addFunction found with old | rfl
    · exact .inl old
    · have binds := Store.binds_bind has receiver
      exact .inr (.inr ⟨binds.of_method, binds.bound⟩)
  | @function d is first _ =>
    rcases Store.functionAt?_addFunction found with old | rfl
    · exact .inl old
    · exact .inr (.inl ⟨d, is, first, rfl⟩)
  | class_ is opened =>
    rcases opened with rfl | ⟨bindings, enclosing, rfl⟩
    · exact .inl found
    · exact .inl found

/-- A new method has been declared with its class. -/
theorem Task.Alters.method_new (alters : t.Alters m s s') {c : ClassId} {method : Closure}
    (declares : s'.Declares c method) : s.Declares c method ∨
      ∃ name e methods d, t = .execute (.class_ name e methods) ∧ d ∈ methods ∧
        method.declaration = d ∧ method.isInitializer = d.isInitializer := by
  cases alters with
  | nothing | addFrame | addInstance | setField | bind | assign | var | bindValue | function =>
    exact .inl declares
  | @class_ name e methods is s₁ opened =>
    have declares₁ : (s₁.addClass _).2.Declares c method := declares
    rcases Store.declares_addClass declares₁ with old | ⟨-, x, has⟩
    · rcases opened with rfl | ⟨bindings, enclosing, rfl⟩
      · exact .inl old
      · exact .inl old
    · obtain ⟨d, member, rfl⟩ := methodTable_all _ methods x _ has
      exact .inr ⟨name, e, methods, d, is, member, rfl, rfl⟩

end

/-! ### Declarations of one kind -/

section

variable {D : FunctionDecl × Bool → Prop}

/-- The function, which may be an initializer, and all that are declared in it are of the kind. -/
def Closure.Meets (D : FunctionDecl × Bool → Prop) (closure : Closure) : Prop :=
  ∀ p ∈ (closure.declaration, closure.isInitializer) :: closure.declaration.functions, D p

/-- All code that the store keeps is of the kind. -/
structure Store.Meets (D : FunctionDecl × Bool → Prop) (s : Store) : Prop where
  functions : ∀ f closure, s.functionAt? f = some closure → closure.Meets D
  methods : ∀ c method, s.Declares c method → method.Meets D

/-- All functions and methods that the task may declare are of the kind. -/
def Task.Meets (D : FunctionDecl × Bool → Prop) : Task → Prop
  | .execute s => ∀ p ∈ s.functions, D p
  | .executeWhile _ body => ∀ p ∈ body.functions, D p
  | .executeAll body => ∀ p ∈ statementFunctions body, D p
  | .callClosure closure _ => closure.Meets D
  | _ => True

/-- A bound method is of the kind if the method is. -/
theorem Store.Meets.binds {s s' : Store} (meets : s.Meets D) {closure : Closure}
    (binds : s.Binds s' closure) : closure.Meets D := by
  obtain ⟨c, method, declares, declaration, flag⟩ := binds.of_method
  have kind := meets.methods c method declares
  rwa [Closure.Meets, ← declaration, ← flag] at kind

private theorem Task.Meets.begins {n : Nat} {m m' : Machine} {t t' : Task} (meets : t.Meets D)
    (begins : Begins n m t m' t') (held : m'.store.Meets D) : t'.Meets D := by
  cases begins with
  | function found => exact held.functions _ _ found
  | @initializer _ _ c _ _ method _ made found bound =>
    cases made
    cases bound
    -- a new instance in a new frame brings no code with it
    have added : (m.store.addInstance c).2.Meets D := ⟨held.functions, held.methods⟩
    exact added.binds (Store.binds_bind found (.instance_ (m.store.addInstance c).1))
  | @body _ closure =>
    intro p member
    exact meets p (.tail _ (closure.declaration.functions_eq ▸ member))
  | block | loop =>
    rw [Task.Meets, Stmt.functions] at meets
    exact meets
  | @thenBranch _ _ _ elseBranch =>
    intro p member
    refine meets p ?_
    cases elseBranch <;> simp [Stmt.functions, member]
  | elseBranch =>
    intro p member
    refine meets p ?_
    simp [Stmt.functions, member]
  | turn | again => exact meets
  | statement =>
    intro p member
    refine meets p ?_
    rw [statementFunctions]
    exact List.mem_append_left _ member
  | following =>
    intro p member
    refine meets p ?_
    rw [statementFunctions]
    exact List.mem_append_right _ member
  | _ => trivial

private theorem Task.Meets.alters {m : Machine} {t : Task} {s s' : Store} (meets : t.Meets D)
    (alters : t.Alters m s s') (held : s.Meets D) : s'.Meets D where
  functions f closure found := by
    rcases alters.function_new found with old | ⟨d, rfl, -, rfl⟩ | binds
    · exact held.functions f closure old
    · intro p member
      refine meets p ?_
      rw [Stmt.functions]
      exact member
    · exact held.binds binds
  methods c method declares := by
    rcases alters.method_new declares with old | ⟨name, e, methods, d, rfl, among, rfl, flag⟩
    · exact held.methods c method old
    · intro p member
      refine meets p ?_
      rw [Stmt.functions]
      rw [flag] at member
      exact methodFunctions_of_mem among member

/-- Declarations of one kind bring only code of this kind into the store. -/
theorem maintains_meets (D : FunctionDecl × Bool → Prop) :
    Maintains (fun m => m.store.Meets D) fun _ t => t.Meets D :=
  .of_store (fun meets begins held => meets.begins begins held)
    fun meets alters held => meets.alters alters held

/-! ### Sessions -/

namespace Session

variable (accepts : ∀ {source : String} {firstId : NodeId} {program : Accepted},
  (Source.accept source firstId).1 = .ok program → ∀ p ∈ statementFunctions program.statements, D p)

/-- The statements of a program meet the kind one by one. -/
private theorem first_meets {s : Stmt} {rest : List Stmt}
    (meets : ∀ p ∈ statementFunctions (s :: rest), D p) : (Task.execute s).Meets D := by
  intro p member
  exact meets p (by rw [statementFunctions]; exact List.mem_append_left _ member)

private theorem rest_meets {s : Stmt} {rest : List Stmt}
    (meets : ∀ p ∈ statementFunctions (s :: rest), D p) : ∀ p ∈ statementFunctions rest, D p := by
  intro p member
  exact meets p (by rw [statementFunctions]; exact List.mem_append_right _ member)

private theorem meets_recordAll {m : Machine} (meets : m.store.Meets D) (bindings : List Binding) :
    (m.recordAll bindings).store.Meets D := by
  rw [Lexical.recordAll_eq]
  exact meets

include accepts

/-- A request leaves only code of the kind behind. -/
theorem meets_after {s : Session} (meets : s.machine.store.Meets D) (r : Request) :
    (s.after r).machine.store.Meets D := by
  have keeps := maintains_meets D
  cases r with
  | run fuel source =>
    cases verdict : (Source.accept source s.nextId).1 with
    | error diagnostics => rwa [after_run_of_rejected verdict]
    | ok program =>
      rw [after_run_of_accepted verdict]
      refine Maintains.of_runFrom (J := fun m => m.store.Meets D) ?_
      exact keeps.runFrom (P := fun _ statements => ∀ p ∈ statementFunctions statements, D p)
        first_meets (fun top _ => rest_meets top) (accepts verdict) (meets_recordAll meets _)
  | evaluate fuel source =>
    cases read : (Source.soleExpression source s.nextId).toExcept with
    | error diagnostics => rwa [after_evaluate_of_rejected read]
    | ok e =>
      rw [after_evaluate_of_read read]
      exact keeps.task (t := .evaluate e) trivial meets
  | check source =>
    rw [after, check_machine]
    exact meets

theorem meets_afterAll (sink : Sink) (clock : Nat → Float) (requests : List Request) :
    ((Session.start sink clock).afterAll requests).machine.store.Meets D := by
  have start : (Session.start sink clock).machine.store.Meets D := ⟨nofun, nofun⟩
  generalize Session.start sink clock = s at start
  unfold afterAll
  induction requests generalizing s with
  | nil => exact start
  | cons r rest ih => exact ih _ (meets_after accepts start r)

/-- Whatever a session comes to, the code is of the kind. -/
theorem ComesTo.meets {s : Session} {r : Request} {k : Nat} {m : Machine} {t : Task}
    (comes : s.ComesTo r k m t) (meets : s.machine.store.Meets D) :
    t.Meets D ∧ m.store.Meets D := by
  have keeps := maintains_meets D
  cases comes with
  | run accepted reaches =>
    exact keeps.programReaches (P := fun _ statements => ∀ p ∈ statementFunctions statements, D p)
      first_meets (fun top _ => rest_meets top) reaches (accepts accepted) (meets_recordAll meets _)
  | evaluate read reaches => exact keeps.reaches reaches trivial meets

end Session

end

end Lox
