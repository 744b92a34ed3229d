import Lox.Proofs.Dispatch.Operations
import Lox.Proofs.Evaluation.Begins

/-!
# Evaluations on settled stores

A task fits a machine if its code is well-scoped where it lodges there. Whatever a task that fits does, it
leaves the store settled. Only declarations close anything over the frame that they stand in, and what
they close over it is their own code, so there is room for the statements after them.
-/

namespace Lox

open Run

variable {L : List Lookup} {g : FrameId} {n : Nat} {m m' : Machine} {near : Store.Near}
  {ids : List NodeId} {Γ : Scopes}

/-- The code of the task is well-scoped where the machine stands. -/
def Task.Fits (L : List Lookup) (g : FrameId) (m : Machine) : Task → Prop
  | .evaluate e => ∃ Γ, Lodged m.store g e.ids m.current Γ ∧ e.Scoped L Γ
  | .evaluateAll expressions =>
    ∃ Γ, Lodged m.store g (expressionIds expressions) m.current Γ ∧ expressionsScoped L Γ expressions
  | .call _ _ _ | .construct _ _ => True
  | .callClosure closure _ => Callable L g m.store closure
  | .execute s => ∃ Γ, Room g m.store m.current s.ids Γ ∧ s.Scoped L Γ
  | .evaluateOptional e | .evaluateSuperclass e =>
    ∃ Γ, Lodged m.store g (optionalIds e) m.current Γ ∧ ∀ x ∈ e, x.Scoped L Γ
  | .executeWhile condition body => ∃ Γ, Room g m.store m.current (condition.ids ++ body.ids) Γ ∧
      condition.Scoped L Γ ∧ body.Scoped L Γ ∧ body.declared? = none
  | .executeAll body => ∃ Γ, Room g m.store m.current (statementIds body) Γ ∧ statementsScoped L Γ body

/-- What a task may close over the current frame: a declaration its own code. -/
def Task.closesOver (m : Machine) : Task → Store.Near
  | .execute s => s.declared?.map fun _ => (m.current, s.ids)
  | .executeAll body => some (m.current, statementIds body)
  | _ => none

/-- Within the bound every task that fits leaves the store settled. -/
def Keeping (L : List Lookup) (g : FrameId) (n : Nat) : Prop :=
  ∀ t m, Settled L g m.store → Recorded L m → Task.Fits L g m t →
    Keeps L g (t.closesOver m) m (fun _ _ => True) (t.perform n m)

/-! ### Where the machine comes back to -/

theorem Lodged.kept (lodged : Lodged m.store g ids m.current Γ) (settled : Settled L g m.store)
    (place : m.SamePlace m') (later : m.store.Later near m'.store) :
    Lodged m'.store g ids m'.current Γ := by
  rw [place.current]
  exact lodged.later settled.root later

theorem Room.kept (room : Room g m.store m.current ids Γ) (settled : Settled L g m.store)
    (place : m.SamePlace m') (later : m.store.Later none m'.store) :
    Room g m'.store m'.current ids Γ := by
  rw [place.current]
  exact room.later settled.root later nofun

/-- A statement declares a plain name, if any. -/
theorem plain_of_scoped {s : Stmt} (code : s.Scoped L Γ) : ∀ name ∈ s.declared?, IsPlain name := by
  intro name member
  cases s with
  | var | function | class_ =>
    cases member
    rw [Stmt.Scoped] at code
    exact code.1.1
  | _ => cases member

/-- The statement before has closed only code of its own over the frame, so there is room for those
after it. -/
theorem Room.following {s : Stmt} {rest : List Stmt}
    (room : Room g m.store m.current (statementIds (s :: rest)) Γ) (settled : Settled L g m.store)
    (code : s.Scoped L Γ) (place : m.SamePlace m')
    (later : m.store.Later ((Task.execute s).closesOver m) m'.store) :
    Room g m'.store m'.current (statementIds rest) (s.after Γ) := by
  rw [place.current]
  obtain ⟨-, -, apart⟩ := List.nodup_append.mp room.distinct
  refine ((room.part (List.sublist_append_right _ _)).later settled.root later ?_).after
    (plain_of_scoped code)
  intro ids' close i member inside
  obtain ⟨-, -, same⟩ := Option.map_eq_some_iff.mp close
  cases same
  exact apart i inside i member rfl

/-! ### Parts of statements -/

/-- The parts of a conditional have nodes of their own. -/
theorem Stmt.ids_ifElse (condition : Expr) (thenBranch : Stmt) (elseBranch : Option Stmt) :
    condition.ids.Sublist (Stmt.ifElse condition thenBranch elseBranch).ids ∧
      thenBranch.ids.Sublist (Stmt.ifElse condition thenBranch elseBranch).ids ∧
      ∀ s ∈ elseBranch, s.ids.Sublist (Stmt.ifElse condition thenBranch elseBranch).ids := by
  cases elseBranch with
  | none => exact ⟨List.sublist_append_left _ _, List.sublist_append_right _ _, nofun⟩
  | some s =>
    have both := List.sublist_append_left (condition.ids ++ thenBranch.ids) s.ids
    refine ⟨(List.sublist_append_left _ _).trans both, (List.sublist_append_right _ _).trans both, ?_⟩
    rintro _ ⟨⟩
    exact List.sublist_append_right _ _

/-- A value that is given for the superclass is there if and only if the expression for it is. -/
theorem isSome_of_evaluateSuperclass {e : Option Expr} {parent : Option ClassId}
    (done : Lox.evaluateSuperclass n e m = .ok parent m') : parent.isSome = e.isSome := by
  cases n with
  | zero => cases done
  | succ n =>
    cases e with
    | none =>
      cases done
      rfl
    | some e =>
      obtain ⟨a, m₁, -, done⟩ := bind_ok done
      cases a with
      | class_ c =>
        cases done
        rfl
      | _ => cases done

/-- A class is declared once the expression for its superclass has been evaluated: its name then stands
for a new class with this superclass and with the methods of the declaration. -/
theorem keeps_declaration {name : Name} {superclass : Option Expr} {methods : List FunctionDecl}
    {parent : Option ClassId} {m₁ : Machine} (settled : Settled L g m.store)
    (room : Room g m.store m.current (Stmt.class_ name superclass methods).ids Γ)
    (code : (Stmt.class_ name superclass methods).Scoped L Γ) (place : m.SamePlace m₁)
    (later : m.store.Later none m₁.store) (settled₁ : Settled L g m₁.store)
    (done : Lox.evaluateSuperclass n superclass m = .ok parent m₁) :
    Keeps L g (some (m₁.current, methodIds methods)) m₁
      (fun _ m' =>
        m'.store.binding? m₁.current name.text = some (.class_ ⟨m₁.store.classes.size⟩) ∧
        ∃ frame, m'.store.classAt? ⟨m₁.store.classes.size⟩ =
          some ⟨name.text, parent, methodTable frame methods⟩)
      (declareClass name parent methods m₁) := by
  rw [Stmt.Scoped, ← isSome_of_evaluateSuperclass done] at code
  rw [Stmt.ids] at room
  have own := (room.part (List.sublist_append_right _ _)).kept settled place later
  exact keeps_declareClass settled₁ code.1.1 parent own.lodged (own.vacant _ notPlain_super) own.unused
    own.distinct code.2.2

namespace Keeping

section

variable (within : Keeping L g n) (settled : Settled L g m.store) (recorded : Recorded L m)

include within settled recorded

theorem evaluate {e : Expr} (lodged : Lodged m.store g e.ids m.current Γ) (code : e.Scoped L Γ) :
    Keeps L g near m (fun _ _ => True) (Lox.evaluate n e m) :=
  (within (.evaluate e) m settled recorded ⟨Γ, lodged, code⟩).weaken near

theorem evaluateAll {expressions : List Expr}
    (lodged : Lodged m.store g (expressionIds expressions) m.current Γ)
    (code : expressionsScoped L Γ expressions) :
    Keeps L g near m (fun _ _ => True) (Lox.evaluateAll n expressions m) :=
  (within (.evaluateAll expressions) m settled recorded ⟨Γ, lodged, code⟩).weaken near

theorem evaluateOptional {e : Option Expr} (lodged : Lodged m.store g (optionalIds e) m.current Γ)
    (code : ∀ x ∈ e, x.Scoped L Γ) :
    Keeps L g near m (fun _ _ => True) (Lox.evaluateOptional n e m) :=
  (within (.evaluateOptional e) m settled recorded ⟨Γ, lodged, code⟩).weaken near

/-- A branch or the body of a loop declares nothing in the frame that it stands in. -/
theorem branch {s : Stmt} (room : Room g m.store m.current s.ids Γ) (code : s.Scoped L Γ)
    (silent : s.declared? = none) :
    Keeps L g near m (fun _ _ => True) (Lox.execute n s m) := by
  have kept := within (.execute s) m settled recorded ⟨Γ, room, code⟩
  have none : (Task.execute s).closesOver m = none := by rw [Task.closesOver, silent, Option.map_none]
  rw [none] at kept
  exact kept.weaken near

/-- The first of some statements leaves room for the others. -/
theorem statement {s : Stmt} {rest : List Stmt}
    (room : Room g m.store m.current (statementIds (s :: rest)) Γ) (code : s.Scoped L Γ) :
    Keeps L g (some (m.current, statementIds (s :: rest))) m
      (fun _ m' => Room g m'.store m'.current (statementIds rest) (s.after Γ))
      (Lox.execute n s m) := by
  have kept := within (.execute s) m settled recorded
    ⟨Γ, room.part (List.sublist_append_left _ _), code⟩
  have close : Closer m (some (m.current, statementIds (s :: rest)))
      ((Task.execute s).closesOver m) := by
    intro f ids same
    obtain ⟨_, -, same⟩ := Option.map_eq_some_iff.mp same
    cases same
    exact .inr ⟨_, rfl, List.subset_append_left _ _⟩
  refine (kept.noting.imp ?_).closer close
  rintro _ m' - ⟨place, later, -⟩
  exact room.following settled code place later

/-- Statements in a new frame. What they close over it is closed over no old one. -/
theorem inFrame {frame : FrameId} {body : List Stmt}
    (room : Room g m.store frame (statementIds body) Γ) (code : statementsScoped L Γ body) :
    Keeps L g (some (frame, statementIds body)) m (fun _ _ => True)
      (Run.inFrame frame (Lox.executeAll n body) m) :=
  (within (.executeAll body) { m with current := frame } settled recorded ⟨Γ, room, code⟩).inFrame

end

/-! ### The step of the induction -/

private theorem evaluate_succ (within : Keeping L g n) {e : Expr} (settled : Settled L g m.store)
    (recorded : Recorded L m) (lodged : Lodged m.store g e.ids m.current Γ)
    (code : e.Scoped L Γ) :
    Keeps L g none m (fun _ _ => True) (Lox.evaluate (n + 1) e m) := by
  cases e with
  | literal value => exact keeps_pure settled trivial
  | grouping inner =>
    rw [Expr.Scoped] at code
    exact within.evaluate settled recorded lodged code
  | unary operator right =>
    rw [Expr.Scoped] at code
    rw [Expr.ids] at lodged
    apply (within.evaluate settled recorded lodged code.2).bind
    intro a m₁ _ _ _ settled₁ _
    exact (keeps_ofExcept settled₁ _ _).imp fun _ _ _ _ => trivial
  | binary left operator right =>
    rw [Expr.Scoped] at code
    have second := lodged.part (List.subset_append_right left.ids right.ids)
    apply (within.evaluate settled recorded (lodged.part (List.subset_append_left _ _))
      code.2.1).bind
    intro a m₁ _ place later settled₁ _
    apply (within.evaluate settled₁ (recorded.of_place place) (second.kept settled place later)
      code.2.2).bind
    intro b m₂ _ _ _ settled₂ _
    exact (keeps_ofExcept settled₂ _ _).imp fun _ _ _ _ => trivial
  | logical left operator right =>
    rw [Expr.Scoped] at code
    have second := lodged.part (List.subset_append_right left.ids right.ids)
    apply (within.evaluate settled recorded (lodged.part (List.subset_append_left _ _)) code.1).bind
    intro a m₁ _ place later settled₁ _
    split
    · exact keeps_pure settled₁ trivial
    · exact within.evaluate settled₁ (recorded.of_place place) (second.kept settled place later) code.2
  | «variable» name id => exact (keeps_read settled _ _).imp fun _ _ _ _ => trivial
  | assign name value id =>
    rw [Expr.Scoped] at code
    apply (within.evaluate settled recorded (lodged.part (List.subset_append_left _ _))
      code.2.1).bind
    intro a m₁ _ _ _ settled₁ _
    apply (keeps_assign settled₁ id code.1 a).bind
    intro _ m₂ _ _ _ settled₂ _
    exact keeps_pure settled₂ trivial
  | call callee line arguments =>
    rw [Expr.Scoped] at code
    have second := lodged.part (List.subset_append_right callee.ids (expressionIds arguments))
    apply (within.evaluate settled recorded (lodged.part (List.subset_append_left _ _)) code.1).bind
    intro f m₁ _ place later settled₁ _
    have recorded₁ := recorded.of_place place
    apply (within.evaluateAll settled₁ recorded₁ (second.kept settled place later) code.2).bind
    intro values m₂ _ place₂ _ settled₂ _
    exact within (.call f line values) m₂ settled₂ (recorded₁.of_place place₂) trivial
  | get object name =>
    rw [Expr.Scoped] at code
    rw [Expr.ids] at lodged
    apply (within.evaluate settled recorded lodged code).bind
    intro a m₁ _ _ _ settled₁ _
    exact keeps_getProperty settled₁ a name
  | set object name value =>
    rw [Expr.Scoped] at code
    have second := lodged.part (List.subset_append_left value.ids object.ids)
    apply (within.evaluate settled recorded (lodged.part (List.subset_append_right _ _))
      code.2).bind
    intro a m₁ _ place later settled₁ _
    split
    · apply (within.evaluate settled₁ (recorded.of_place place) (second.kept settled place later)
        code.1).bind
      intro b m₂ _ _ _ settled₂ _
      apply (keeps_setField settled₂ _ name b).bind
      intro _ m₃ _ _ _ settled₃ _
      exact keeps_pure settled₃ trivial
    · exact keeps_fault settled₁ _ _
  | this keyword id => exact (keeps_read settled _ _).imp fun _ _ _ _ => trivial
  | super keyword method id => exact keeps_superMethod settled recorded lodged code

private theorem call_succ (within : Keeping L g n) (settled : Settled L g m.store)
    (recorded : Recorded L m) (callee : Value) (line : Nat) (arguments : List Value) :
    Keeps L g none m (fun _ _ => True) (Lox.call (n + 1) callee line arguments m) := by
  cases callee with
  | native f =>
    apply (keeps_checkArity settled _ _ _).bind
    intro _ m₁ _ _ _ settled₁ _
    exact keeps_callNative settled₁ f
  | function f =>
    apply (keeps_ask settled _).bind
    rintro found m₁ - - - settled₁ ⟨found, rfl⟩
    split
    · rename_i closure
      apply (keeps_checkArity settled₁ _ _ _).bind
      rintro _ m₂ - - - settled₂ rfl
      -- a function that the store keeps can be called
      have callable := settled₂.functions f closure found.symm
      exact Keeps.nested settled₂ line (within (.callClosure closure arguments)
        { m₂ with callDepth := m₂.callDepth + 1 } settled₂ recorded callable)
    · exact keeps_fault settled₁ _ _
  | class_ c =>
    apply (keeps_ask settled _).bind
    rintro arity m₁ - - - settled₁ ⟨rfl, rfl⟩
    apply (keeps_checkArity settled₁ _ _ _).bind
    rintro _ m₂ - - - settled₂ rfl
    exact Keeps.nested settled₂ line (within (.construct c arguments)
      { m₂ with callDepth := m₂.callDepth + 1 } settled₂ recorded trivial)
  | nil | bool _ | number _ | string _ | instance_ _ => exact keeps_fault settled _ _

private theorem callClosure_succ (within : Keeping L g n) (settled : Settled L g m.store)
    (recorded : Recorded L m) {closure : Closure} (callable : Callable L g m.store closure)
    (arguments : List Value) :
    Keeps L g none m (fun _ _ => True) (Lox.callClosure (n + 1) closure arguments m) := by
  apply (keeps_callFrame settled callable arguments).bind_of
  rintro frame m₁ - place - settled₁ ⟨fresh, Γ, room, code⟩
  refine ⟨some (frame, statementIds closure.declaration.body), .fresh fresh _ _, ?_⟩
  apply (within.inFrame settled₁ (recorded.of_place place) room code).bind
  intro flow m₂ _ _ _ settled₂ _
  exact keeps_callResult settled₂ closure flow

private theorem construct_succ (within : Keeping L g n) (settled : Settled L g m.store)
    (recorded : Recorded L m) (c : ClassId) (arguments : List Value) :
    Keeps L g none m (fun _ _ => True) (Lox.construct (n + 1) c arguments m) := by
  apply (keeps_addInstance settled c).bind
  intro i m₁ _ place _ settled₁ isA
  apply (keeps_ask settled₁ _).bind
  rintro found m₂ - - - settled₂ ⟨found, rfl⟩
  split
  · rename_i method
    apply (keeps_bindInitializer settled₂ found.symm isA).bind
    intro closure m₃ _ place₃ _ settled₃ callable
    have recorded₃ := (recorded.of_place place).of_place place₃
    apply (within (.callClosure closure arguments) m₃ settled₃ recorded₃ callable).bind
    intro _ m₄ _ _ _ settled₄ _
    exact keeps_pure settled₄ trivial
  · exact keeps_pure settled₂ trivial

private theorem execute_succ (within : Keeping L g n) {s : Stmt} (settled : Settled L g m.store)
    (recorded : Recorded L m) (room : Room g m.store m.current s.ids Γ) (code : s.Scoped L Γ) :
    Keeps L g ((Task.execute s).closesOver m) m (fun _ _ => True) (Lox.execute (n + 1) s m) := by
  have lodged := room.lodged
  cases s with
  | expression value =>
    rw [Stmt.Scoped] at code
    rw [Stmt.ids] at lodged
    apply (within.evaluate settled recorded lodged code).bind
    intro a m₁ _ _ _ settled₁ _
    exact keeps_pure settled₁ trivial
  | print value =>
    rw [Stmt.Scoped] at code
    rw [Stmt.ids] at lodged
    apply (within.evaluate settled recorded lodged code).bind
    intro a m₁ _ _ _ settled₁ _
    apply (keeps_print settled₁ a).bind
    intro _ m₂ _ _ _ settled₂ _
    exact keeps_pure settled₂ trivial
  | var name initializer =>
    rw [Stmt.Scoped] at code
    rw [Stmt.ids] at lodged
    have plain := code.1.1
    apply (within.evaluateOptional settled recorded (lodged.mark plain .declared) code.2).bind
    intro a m₁ _ _ _ settled₁ _
    apply (keeps_ask settled₁ _).bind
    rintro frame m₂ - - - settled₂ ⟨rfl, rfl⟩
    apply (keeps_define settled₂ _ plain a).bind
    intro _ m₃ _ _ _ settled₃ _
    exact keeps_pure settled₃ trivial
  | block body =>
    rw [Stmt.Scoped] at code
    rw [Stmt.ids] at lodged
    apply (keeps_ask settled _).bind
    rintro outside m₁ - - - settled₁ ⟨rfl, rfl⟩
    apply (keeps_blockFrame settled₁ lodged room.distinct).bind_of
    rintro frame m₂ - place - settled₂ ⟨fresh, inside⟩
    exact ⟨_, .fresh fresh _ _, within.inFrame settled₂ (recorded.of_place place) inside code⟩
  | ifElse condition thenBranch elseBranch =>
    obtain ⟨test, ⟨first, silent⟩, other⟩ := Stmt.scoped_ifElse code
    have parts := Stmt.ids_ifElse condition thenBranch elseBranch
    apply (within.evaluate settled recorded (lodged.part parts.1.subset) test).bind
    intro a m₁ _ place later settled₁ _
    have recorded₁ := recorded.of_place place
    -- the condition has closed nothing over the frame
    have inside {s : Stmt} (among : s.ids.Sublist _) := (room.part among).kept settled place later
    split
    · exact within.branch settled₁ recorded₁ (inside parts.2.1) first silent
    · cases elseBranch with
      | some s =>
        obtain ⟨second, silent⟩ := other s rfl
        exact within.branch settled₁ recorded₁ (inside (parts.2.2 s rfl)) second silent
      | none => exact keeps_pure settled₁ trivial
  | «while» condition body =>
    rw [Stmt.Scoped] at code
    exact within (.executeWhile condition body) m settled recorded ⟨Γ, room, code⟩
  | function d =>
    rw [Stmt.Scoped] at code
    rw [Stmt.ids] at lodged
    apply (keeps_declareFunction settled lodged code.1.1 code.2 room.distinct).bind
    intro _ m₁ _ _ _ settled₁ _
    exact keeps_pure settled₁ trivial
  | «return» line value =>
    rw [Stmt.Scoped] at code
    rw [Stmt.ids] at lodged
    apply (within.evaluateOptional settled recorded lodged code).bind
    intro a m₁ _ _ _ settled₁ _
    exact keeps_pure settled₁ trivial
  | class_ name superclass methods =>
    rw [Stmt.ids] at lodged
    have parts := code
    rw [Stmt.Scoped] at parts
    have first := within (.evaluateSuperclass superclass) m settled recorded
      ⟨Γ, lodged.part (List.subset_append_left _ _), parts.2.1⟩
    apply (first.noting.weaken _).bind_of
    rintro parent m₁ done place - settled₁ ⟨-, later, -⟩
    refine ⟨_, .part place (List.subset_append_right _ _), ?_⟩
    apply (keeps_declaration settled room code place later settled₁ done).bind
    intro _ m₂ _ _ _ settled₂ _
    exact keeps_pure settled₂ trivial

private theorem executeWhile_succ (within : Keeping L g n) {condition : Expr} {body : Stmt}
    (settled : Settled L g m.store) (recorded : Recorded L m)
    (fits : (Task.executeWhile condition body).Fits L g m) :
    Keeps L g none m (fun _ _ => True) (Lox.executeWhile (n + 1) condition body m) := by
  obtain ⟨Γ, room, test, turn, silent⟩ := fits
  have own := room.part (List.sublist_append_right condition.ids body.ids)
  apply (within.evaluate settled recorded (room.lodged.part (List.subset_append_left _ _)) test).bind
  intro a m₁ _ place later settled₁ _
  have recorded₁ := recorded.of_place place
  split
  · have first : Keeps L g none m₁ _ _ :=
      within.branch settled₁ recorded₁ (own.kept settled place later) turn silent
    apply first.bind
    intro flow m₂ _ place₂ later₂ settled₂ _
    cases flow with
    | «return» value => exact keeps_pure settled₂ trivial
    | next value =>
      -- a turn closes nothing over the frame, so there is room for the next
      have again := room.kept settled (place.trans place₂) (later.trans later₂)
      exact within (.executeWhile condition body) m₂ settled₂ (recorded₁.of_place place₂)
        ⟨Γ, again, test, turn, silent⟩
  · exact keeps_pure settled₁ trivial

private theorem executeAll_succ (within : Keeping L g n) {body : List Stmt}
    (settled : Settled L g m.store) (recorded : Recorded L m)
    (room : Room g m.store m.current (statementIds body) Γ) (code : statementsScoped L Γ body) :
    Keeps L g (some (m.current, statementIds body)) m (fun _ _ => True)
      (Lox.executeAll (n + 1) body m) := by
  cases body with
  | nil => exact keeps_pure settled trivial
  | cons s rest =>
    rw [statementsScoped] at code
    apply (within.statement settled recorded room code.1).bind_of
    intro flow m₁ _ place _ settled₁ others
    cases flow with
    | «return» value => exact ⟨none, Closer.none m _, keeps_pure settled₁ trivial⟩
    | next value =>
      exact ⟨_, .part place (List.subset_append_right _ _),
        within (.executeAll rest) m₁ settled₁ (recorded.of_place place) ⟨_, others, code.2⟩⟩

/-- Every task that fits leaves the store settled, by induction on the bound. -/
theorem all (L : List Lookup) (g : FrameId) (n : Nat) : Keeping L g n := by
  induction n with
  | zero =>
    intro t m settled _ _
    rw [t.perform_zero]
    exact ⟨.refl m, .refl _ m.store, settled⟩
  | succ n within =>
    intro t m settled recorded fits
    cases t with
    | evaluate e =>
      obtain ⟨Γ, lodged, code⟩ := fits
      exact evaluate_succ within settled recorded lodged code
    | evaluateAll expressions =>
      obtain ⟨Γ, lodged, code⟩ := fits
      cases expressions with
      | nil => exact keeps_pure settled trivial
      | cons e rest =>
        rw [expressionsScoped] at code
        have second := lodged.part (List.subset_append_right e.ids (expressionIds rest))
        apply (within.evaluate settled recorded (lodged.part (List.subset_append_left _ _))
          code.1).bind
        intro a m₁ _ place later settled₁ _
        apply (within.evaluateAll settled₁ (recorded.of_place place)
          (second.kept settled place later) code.2).bind
        intro values m₂ _ _ _ settled₂ _
        exact keeps_pure settled₂ trivial
    | call callee line arguments => exact call_succ within settled recorded callee line arguments
    | callClosure closure arguments => exact callClosure_succ within settled recorded fits arguments
    | construct c arguments => exact construct_succ within settled recorded c arguments
    | execute s =>
      obtain ⟨Γ, room, code⟩ := fits
      exact execute_succ within settled recorded room code
    | evaluateOptional e =>
      obtain ⟨Γ, lodged, code⟩ := fits
      cases e with
      | none => exact keeps_pure settled trivial
      | some e => exact within.evaluate settled recorded lodged (code e rfl)
    | evaluateSuperclass e =>
      obtain ⟨Γ, lodged, code⟩ := fits
      cases e with
      | none => exact keeps_pure settled trivial
      | some e =>
        apply (within.evaluate settled recorded lodged (code e rfl)).bind
        intro a m₁ _ _ _ settled₁ _
        split
        · exact keeps_pure settled₁ trivial
        · exact keeps_fault settled₁ _ _
    | executeWhile condition body => exact executeWhile_succ within settled recorded fits
    | executeAll body =>
      obtain ⟨Γ, room, code⟩ := fits
      exact executeAll_succ within settled recorded room code

end Keeping

/-! ### Programs -/

/-- Statements at top level leave the store settled, by induction on their list. -/
theorem keeps_runFrom (fuel : Nat) {last : Value} {statements : List Stmt}
    (settled : Settled L g m.store) (recorded : Recorded L m)
    (room : Room g m.store m.current (statementIds statements) Γ)
    (code : statementsScoped L Γ statements) :
    Keeps L g (some (m.current, statementIds statements)) m (fun _ _ => True)
      (runFrom fuel last statements m) := by
  induction statements generalizing last m Γ with
  | nil => exact keeps_pure settled trivial
  | cons s rest ih =>
    rw [statementsScoped] at code
    apply ((Keeping.all L g fuel).statement settled recorded room code.1).bind_of
    intro flow m₁ _ place _ settled₁ others
    exact ⟨_, .part place (List.subset_append_right _ _),
      ih settled₁ (recorded.of_place place) others code.2⟩

theorem keeps_runProgram (fuel : Nat) {statements : List Stmt} (settled : Settled L g m.store)
    (recorded : Recorded L m) (room : Room g m.store m.current (statementIds statements) Γ)
    (code : statementsScoped L Γ statements) :
    Keeps L g (some (m.current, statementIds statements)) m (fun _ _ => True)
      (runProgram fuel statements m) := by
  apply (keeps_runFrom fuel settled recorded room code).bind
  intro last m₁ _ _ _ settled₁ _
  apply (keeps_flush settled₁).bind
  intro _ m₂ _ _ _ settled₂ _
  exact keeps_pure settled₂ trivial

end Lox
