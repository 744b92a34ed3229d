import Lox.Proofs.Syntax.WellFormed
import Lox.Scope.Basic

/-!
# Well-scoped trees

A tree is well-scoped among open scopes if its names are declared and used as the language allows and
each of its nodes has been looked up in the scopes that are open where the node stands. The relation
knows nothing of how a walk over the tree is carried out: `L` holds the look-ups that have been made,
and more of them do no harm.
-/

namespace Lox

/-- The open scopes at a place, the innermost first. -/
abbrev Scopes := List Scope

/-- A scope that holds the given names. -/
def Scope.of (names : List String) : Scope := Table.insertAll ∅ (names.map (·, .defined))

/-- Names that are entered one after another are all held, next to those that were held before. -/
theorem Scope.get?_insertAll (scope : Scope) (names : List String) (name : String) :
    (scope.insertAll (names.map (·, .defined))).get? name =
      if name ∈ names then some .defined else scope.get? name := by
  induction names generalizing scope with
  | nil => rfl
  | cons first rest ih =>
    have entered := ih (scope.insert first .defined)
    rw [Table.get?_insert] at entered
    refine entered.trans ?_
    by_cases later : name ∈ rest
    · simp [later]
    · simp [later, eq_comm]

theorem Scope.get?_of (names : List String) (name : String) :
    (Scope.of names).get? name = if name ∈ names then some .defined else none :=
  get?_insertAll ∅ names name

namespace Scopes

/-- How many scopes lie inside the one that holds the name. -/
def depth (Γ : Scopes) (name : String) : Option Nat := Γ.findIdx? (·.contains name)

/-- The status of a name in the innermost scope that holds it. -/
def status? (Γ : Scopes) (name : String) : Option Status := Γ.findSome? (·.get? name)

/-- A name that can be read: it is global or its declaration has ended. -/
def Readable (Γ : Scopes) (name : String) : Prop := Γ.status? name ≠ some .declared

/-- A name that can be read, in the scope that the given number of scopes lie inside. -/
def Holds (Γ : Scopes) (name : String) (depth : Nat) : Prop :=
  Γ.depth name = some depth ∧ Γ.Readable name

/-- A name that can be declared: the innermost scope does not hold it. -/
def Declarable (Γ : Scopes) (name : String) : Prop :=
  IsPlain name ∧ Γ.head?.bind (·.get? name) = none

/-- The scopes with a status for a name in the innermost one. -/
def mark (Γ : Scopes) (name : String) (status : Status) : Scopes :=
  match Γ with
  | [] => []
  | scope :: outer => scope.insert name status :: outer

theorem depth_cons (scope : Scope) (Γ : Scopes) (name : String) :
    depth (scope :: Γ) name =
      if scope.contains name then some 0 else (Γ.depth name).map (· + 1) :=
  List.findIdx?_cons

theorem status?_cons (scope : Scope) (Γ : Scopes) (name : String) :
    status? (scope :: Γ) name = (scope.get? name).or (Γ.status? name) := by
  rw [status?, List.findSome?_cons]
  cases scope.get? name <;> rfl

theorem mark_mark (Γ : Scopes) (name : String) (first second : Status) :
    (Γ.mark name first).mark name second = Γ.mark name second := by
  cases Γ with
  | nil => rfl
  | cons scope outer => simp only [mark, Table.insert_insert_self]

/-- The innermost scope holds the names that it was opened with. -/
theorem holds_of (Γ : Scopes) (name : String) : Holds (Scope.of [name] :: Γ) name 0 := by
  have held : (Scope.of [name]).get? name = some .defined := Table.get?_insert_self _ _ _
  constructor
  · rw [depth_cons, if_pos]
    rw [Table.contains, held]
    rfl
  · rw [Readable, status?_cons, held]
    simp

end Scopes

/-- The scopes after a statement. -/
def Stmt.after (s : Stmt) (Γ : Scopes) : Scopes :=
  match s.declared? with
  | some name => Γ.mark name .defined
  | none => Γ

theorem Stmt.after_eq_self {s : Stmt} (none : s.declared? = none) (Γ : Scopes) :
    s.after Γ = Γ := by
  rw [after, none]

/-- The scopes around the methods of a class, inside its own: those of a derived class can use
`super`. -/
def Scopes.ofMethods (Γ : Scopes) (derived : Bool) : Scopes :=
  if derived then Scope.of [Keyword.super.spelling] :: Γ else Γ

section

variable (L : List Lookup)

mutual

def Expr.Scoped (Γ : Scopes) : Expr → Prop
  | .literal _ => True
  | .grouping inner => inner.Scoped Γ
  | .unary operator right => Grammar.isPrefixOperator operator.kind ∧ right.Scoped Γ
  | .binary left operator right =>
    isBinaryOperator operator.kind ∧ left.Scoped Γ ∧ right.Scoped Γ
  | .logical left _ right => left.Scoped Γ ∧ right.Scoped Γ
  | .variable name id =>
    IsPlain name.text ∧ Γ.Readable name.text ∧ ⟨id, name.text, Γ.depth name.text⟩ ∈ L
  | .assign name value id =>
    IsPlain name.text ∧ value.Scoped Γ ∧ ⟨id, name.text, Γ.depth name.text⟩ ∈ L
  | .call callee _ arguments => callee.Scoped Γ ∧ expressionsScoped Γ arguments
  | .get object _ => object.Scoped Γ
  | .set object _ value => value.Scoped Γ ∧ object.Scoped Γ
  | .this keyword id =>
    keyword.text = Keyword.this.spelling ∧
      ∃ d, Γ.Holds Keyword.this.spelling d ∧ ⟨id, keyword.text, some d⟩ ∈ L
  | .super keyword _ id =>
    keyword.text = Keyword.super.spelling ∧
      ∃ d, Γ.Holds Keyword.this.spelling d ∧ Γ.Holds Keyword.super.spelling (d + 1) ∧
        ⟨id, keyword.text, some (d + 1)⟩ ∈ L

def expressionsScoped (Γ : Scopes) : List Expr → Prop
  | [] => True
  | e :: rest => e.Scoped Γ ∧ expressionsScoped Γ rest

end

mutual

def Stmt.Scoped (Γ : Scopes) : Stmt → Prop
  | .expression value | .print value => value.Scoped L Γ
  | .var name initializer =>
    Γ.Declarable name.text ∧ ∀ e ∈ initializer, e.Scoped L (Γ.mark name.text .declared)
  | .block body => statementsScoped (Scope.of [] :: Γ) body
  | .ifElse condition thenBranch none =>
    condition.Scoped L Γ ∧ thenBranch.Scoped Γ ∧ thenBranch.declared? = none
  | .ifElse condition thenBranch (some elseBranch) =>
    condition.Scoped L Γ ∧ (thenBranch.Scoped Γ ∧ thenBranch.declared? = none) ∧
      elseBranch.Scoped Γ ∧ elseBranch.declared? = none
  | .while condition body =>
    condition.Scoped L Γ ∧ body.Scoped Γ ∧ body.declared? = none
  | .function d => Γ.Declarable d.name.text ∧ d.Scoped (Γ.mark d.name.text .defined)
  | .return _ value => ∀ e ∈ value, e.Scoped L Γ
  | .class_ name superclass methods =>
    Γ.Declarable name.text ∧ (∀ e ∈ superclass, e.Scoped L Γ) ∧
      methodsScoped
        (Scope.of [Keyword.this.spelling] ::
          (Γ.mark name.text .defined).ofMethods superclass.isSome)
        methods

def statementsScoped (Γ : Scopes) : List Stmt → Prop
  | [] => True
  | s :: rest => s.Scoped Γ ∧ statementsScoped (s.after Γ) rest

def FunctionDecl.Scoped (Γ : Scopes) : FunctionDecl → Prop
  | ⟨_, parameters, body⟩ =>
    (parameters.map (·.text)).Nodup ∧ (∀ p ∈ parameters, IsPlain p.text) ∧
      statementsScoped (Scope.of (parameters.map (·.text)) :: Γ) body

def methodsScoped (Γ : Scopes) : List FunctionDecl → Prop
  | [] => True
  | d :: rest => d.Scoped Γ ∧ methodsScoped Γ rest

end

end

theorem methodsScoped_iff (L : List Lookup) (Γ : Scopes) (methods : List FunctionDecl) :
    methodsScoped L Γ methods ↔ ∀ d ∈ methods, d.Scoped L Γ := by
  induction methods with
  | nil => simp [methodsScoped]
  | cons d rest ih => simp [methodsScoped, ih]

/-- A conditional is well-scoped part by part, with or without its second branch. -/
theorem Stmt.scoped_ifElse {L : List Lookup} {Γ : Scopes} {condition : Expr} {thenBranch : Stmt}
    {elseBranch : Option Stmt} (code : (Stmt.ifElse condition thenBranch elseBranch).Scoped L Γ) :
    condition.Scoped L Γ ∧ (thenBranch.Scoped L Γ ∧ thenBranch.declared? = none) ∧
      ∀ s ∈ elseBranch, s.Scoped L Γ ∧ s.declared? = none := by
  cases elseBranch with
  | none =>
    rw [Stmt.Scoped] at code
    exact ⟨code.1, code.2, nofun⟩
  | some s =>
    rw [Stmt.Scoped] at code
    refine ⟨code.1, code.2.1, fun s' same => ?_⟩
    cases same
    exact code.2.2

/-! ### More look-ups -/

section

variable {L L' : List Lookup}

mutual

theorem Expr.Scoped.mono {Γ : Scopes} (more : ∀ l ∈ L, l ∈ L') (e : Expr)
    (code : e.Scoped L Γ) : e.Scoped L' Γ := by
  match e with
  | .literal _ =>
    rw [Expr.Scoped]
    trivial
  | .grouping inner =>
    rw [Expr.Scoped] at code ⊢
    exact Expr.Scoped.mono more inner code
  | .unary operator right =>
    rw [Expr.Scoped] at code ⊢
    exact ⟨code.1, Expr.Scoped.mono more right code.2⟩
  | .binary left operator right =>
    rw [Expr.Scoped] at code ⊢
    exact ⟨code.1, Expr.Scoped.mono more left code.2.1, Expr.Scoped.mono more right code.2.2⟩
  | .logical left operator right =>
    rw [Expr.Scoped] at code ⊢
    exact ⟨Expr.Scoped.mono more left code.1, Expr.Scoped.mono more right code.2⟩
  | .variable name id =>
    rw [Expr.Scoped] at code ⊢
    exact ⟨code.1, code.2.1, more _ code.2.2⟩
  | .assign name value id =>
    rw [Expr.Scoped] at code ⊢
    exact ⟨code.1, Expr.Scoped.mono more value code.2.1, more _ code.2.2⟩
  | .call callee line arguments =>
    rw [Expr.Scoped] at code ⊢
    exact ⟨Expr.Scoped.mono more callee code.1, expressionsScoped_mono more arguments code.2⟩
  | .get object name =>
    rw [Expr.Scoped] at code ⊢
    exact Expr.Scoped.mono more object code
  | .set object name value =>
    rw [Expr.Scoped] at code ⊢
    exact ⟨Expr.Scoped.mono more value code.1, Expr.Scoped.mono more object code.2⟩
  | .this keyword id =>
    rw [Expr.Scoped] at code ⊢
    obtain ⟨spelt, d, held, found⟩ := code
    exact ⟨spelt, d, held, more _ found⟩
  | .super keyword method id =>
    rw [Expr.Scoped] at code ⊢
    obtain ⟨spelt, d, this, super, found⟩ := code
    exact ⟨spelt, d, this, super, more _ found⟩

theorem expressionsScoped_mono {Γ : Scopes} (more : ∀ l ∈ L, l ∈ L') (expressions : List Expr)
    (code : expressionsScoped L Γ expressions) : expressionsScoped L' Γ expressions := by
  match expressions with
  | [] =>
    rw [expressionsScoped]
    trivial
  | e :: rest =>
    rw [expressionsScoped] at code ⊢
    exact ⟨Expr.Scoped.mono more e code.1, expressionsScoped_mono more rest code.2⟩

end

mutual

theorem Stmt.Scoped.mono {Γ : Scopes} (more : ∀ l ∈ L, l ∈ L') (s : Stmt)
    (code : s.Scoped L Γ) : s.Scoped L' Γ := by
  match s with
  | .expression value | .print value =>
    rw [Stmt.Scoped] at code ⊢
    exact Expr.Scoped.mono more value code
  | .var name initializer =>
    rw [Stmt.Scoped] at code ⊢
    exact ⟨code.1, fun e same => Expr.Scoped.mono more e (code.2 e same)⟩
  | .block body =>
    rw [Stmt.Scoped] at code ⊢
    exact statementsScoped_mono more body code
  | .ifElse condition thenBranch none =>
    rw [Stmt.Scoped] at code ⊢
    exact ⟨Expr.Scoped.mono more condition code.1, Stmt.Scoped.mono more thenBranch code.2.1,
      code.2.2⟩
  | .ifElse condition thenBranch (some elseBranch) =>
    rw [Stmt.Scoped] at code ⊢
    obtain ⟨test, ⟨first, silent⟩, other, silent'⟩ := code
    exact ⟨Expr.Scoped.mono more condition test, ⟨Stmt.Scoped.mono more thenBranch first, silent⟩,
      Stmt.Scoped.mono more elseBranch other, silent'⟩
  | .while condition body =>
    rw [Stmt.Scoped] at code ⊢
    exact ⟨Expr.Scoped.mono more condition code.1, Stmt.Scoped.mono more body code.2.1, code.2.2⟩
  | .function d =>
    rw [Stmt.Scoped] at code ⊢
    exact ⟨code.1, FunctionDecl.Scoped.mono more d code.2⟩
  | .return line value =>
    rw [Stmt.Scoped] at code ⊢
    exact fun e same => Expr.Scoped.mono more e (code e same)
  | .class_ name superclass methods =>
    rw [Stmt.Scoped] at code ⊢
    exact ⟨code.1, fun e same => Expr.Scoped.mono more e (code.2.1 e same),
      methodsScoped_mono more methods code.2.2⟩

theorem statementsScoped_mono {Γ : Scopes} (more : ∀ l ∈ L, l ∈ L') (statements : List Stmt)
    (code : statementsScoped L Γ statements) : statementsScoped L' Γ statements := by
  match statements with
  | [] =>
    rw [statementsScoped]
    trivial
  | s :: rest =>
    rw [statementsScoped] at code ⊢
    exact ⟨Stmt.Scoped.mono more s code.1, statementsScoped_mono more rest code.2⟩

theorem FunctionDecl.Scoped.mono {Γ : Scopes} (more : ∀ l ∈ L, l ∈ L') (d : FunctionDecl)
    (code : d.Scoped L Γ) : d.Scoped L' Γ := by
  match d with
  | ⟨_, parameters, body⟩ =>
    rw [FunctionDecl.Scoped] at code ⊢
    exact ⟨code.1, code.2.1, statementsScoped_mono more body code.2.2⟩

theorem methodsScoped_mono {Γ : Scopes} (more : ∀ l ∈ L, l ∈ L') (methods : List FunctionDecl)
    (code : methodsScoped L Γ methods) : methodsScoped L' Γ methods := by
  match methods with
  | [] =>
    rw [methodsScoped]
    trivial
  | d :: rest =>
    rw [methodsScoped] at code ⊢
    exact ⟨FunctionDecl.Scoped.mono more d code.1, methodsScoped_mono more rest code.2⟩

end

end

end Lox
