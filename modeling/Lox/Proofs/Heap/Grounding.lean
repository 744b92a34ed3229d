import Lox.Proofs.Heap.Grounded

/-!
# Evaluations on grounded stores

A task that refers only to what is there leaves a grounded store grounded, whether it gives a value or
halts, and what it gives refers only to what is there by then. So do the tasks that it comes to.
-/

namespace Lox

open Run

variable {α β : Type} {g : FrameId} {n : Nat} {m m' : Machine}

/-- The machine stands in a frame of a grounded store. -/
structure Machine.Grounded (g : FrameId) (m : Machine) : Prop where
  globals : m.globals = g
  store : m.store.Grounded g
  current : m.store.Has m.current

/-- The second machine is at the place of the first one, with more in its store, which is grounded. -/
structure Machine.LaterGrounded (g : FrameId) (m m' : Machine) : Prop where
  place : m.SamePlace m'
  grows : m.store.Grows m'.store
  store : m'.store.Grounded g

namespace Machine

theorem Grounded.refl (grounded : m.Grounded g) : m.LaterGrounded g m :=
  ⟨.refl m, .refl m.store, grounded.store⟩

theorem LaterGrounded.trans {m₁ m₂ m₃ : Machine} (first : m₁.LaterGrounded g m₂)
    (next : m₂.LaterGrounded g m₃) : m₁.LaterGrounded g m₃ :=
  ⟨first.place.trans next.place, first.grows.trans next.grows, next.store⟩

theorem LaterGrounded.grounded (grounded : m.Grounded g) (later : m.LaterGrounded g m') : m'.Grounded g :=
  ⟨later.place.globals.trans grounded.globals, later.store,
    later.place.current ▸ grounded.current.grows later.grows⟩

end Machine

/-- The outcome of a run from the machine `m`: the store is grounded still, and a value has the property
in the store by then. -/
def Grounds (g : FrameId) (m : Machine) (P : Store → α → Prop) :
    EStateM.Result Halt Machine α → Prop
  | .ok a m' => m.LaterGrounded g m' ∧ P m'.store a
  | .error _ m' => m.LaterGrounded g m'

namespace Grounds

variable {P : Store → α → Prop} {Q : Store → β → Prop}

theorem bind {x : Run α} {next : α → Run β} (grounded : m.Grounded g) (first : Grounds g m P (x m))
    (rest : ∀ a m', x m = .ok a m' → m'.Grounded g → m.store.Grows m'.store → P m'.store a →
      Grounds g m' Q (next a m')) :
    Grounds g m Q ((x >>= next) m) := by
  cases ran : x m with
  | error halt m₁ =>
    rw [ran] at first
    rw [bind_of_error ran]
    exact first
  | ok a m₁ =>
    rw [ran] at first
    obtain ⟨later, holds⟩ := first
    have second := rest a m₁ ran (later.grounded grounded) later.grows holds
    rw [bind_of_ok ran]
    cases ended : next a m₁ with
    | ok b m₂ =>
      rw [ended] at second
      exact ⟨later.trans second.1, second.2⟩
    | error halt m₂ =>
      rw [ended] at second
      exact later.trans second

/-- What is known after a run that has given a value. -/
theorem of_ok {r : EStateM.Result Halt Machine α} {a : α} (outcome : Grounds g m P r)
    (grounded : m.Grounded g) (done : r = .ok a m') :
    m'.Grounded g ∧ m.store.Grows m'.store ∧ P m'.store a := by
  rw [done] at outcome
  exact ⟨outcome.1.grounded grounded, outcome.1.grows, outcome.2⟩

theorem final {r : EStateM.Result Halt Machine α} (outcome : Grounds g m P r)
    (grounded : m.Grounded g) : (finalMachine r).Grounded g := by
  cases r with
  | ok a m' => exact outcome.1.grounded grounded
  | error halt m' => exact outcome.grounded grounded

/-- Wherever a machine is taken afterwards, its store stays. -/
theorem onMachine {m₀ : Machine} {r : EStateM.Result Halt Machine α} {f : Machine → Machine}
    (outcome : Grounds g m₀ P r) (moved : ∀ m', m₀.LaterGrounded g m' → m.LaterGrounded g (f m'))
    (same : ∀ m', (f m').store = m'.store) : Grounds g m P (onMachine f r) := by
  cases r with
  | ok a m' =>
    refine ⟨moved m' outcome.1, ?_⟩
    rw [same]
    exact outcome.2
  | error halt m' => exact moved m' outcome

theorem inFrame {frame : FrameId} {body : Run α}
    (within : Grounds g { m with current := frame } P (body { m with current := frame })) :
    Grounds g m P (inFrame frame body m) := by
  rw [inFrame_eq]
  refine within.onMachine (fun m' later => ?_) fun _ => rfl
  exact ⟨⟨⟨rfl, later.place.globals, later.place.callDepth⟩, later.place.distances⟩, later.grows,
    later.store⟩

theorem nested (grounded : m.Grounded g) {line : Nat} {body : Run α}
    (within : Grounds g { m with callDepth := m.callDepth + 1 } P
      (body { m with callDepth := m.callDepth + 1 })) :
    Grounds g m P (nested line body m) := by
  by_cases shallow : m.callDepth < maxCallDepth
  · rw [nested_eq shallow]
    refine within.onMachine (fun m' later => ?_) fun _ => rfl
    have depth : m'.callDepth = m.callDepth + 1 := later.place.callDepth
    exact ⟨⟨⟨later.place.current, later.place.globals, by simp [depth]⟩, later.place.distances⟩,
      later.grows, later.store⟩
  · rw [nested_eq_fault shallow]
    exact grounded.refl

end Grounds

/-! ### Steps -/

theorem grounds_onStore {P : Store → α → Prop} {change : Store → α × Store}
    (becomes : m.store.Becomes (change m.store).2) (store : (change m.store).2.Grounded g)
    (holds : P (change m.store).2 (change m.store).1) : Grounds g m P (onStore change m) :=
  ⟨⟨⟨⟨rfl, rfl, rfl⟩, rfl⟩, .of_becomes becomes, store⟩, holds⟩

section

variable (grounded : m.Grounded g)

include grounded

theorem grounds_pure {P : Store → α → Prop} {a : α} (holds : P m.store a) :
    Grounds g m P ((pure a : Run α) m) := ⟨grounded.refl, holds⟩

theorem grounds_fault (P : Store → α → Prop) (cause : Fault) (line : Nat) :
    Grounds g m P (fault cause line m) := grounded.refl

/-- Asking changes nothing. -/
theorem grounds_ask {P : Store → α → Prop} {f : Machine → α} (holds : P m.store (f m)) :
    Grounds g m P (ask f m) := ⟨grounded.refl, holds⟩

theorem grounds_ofExcept {P : Store → α → Prop} {line : Nat} {result : Except Fault α}
    (holds : ∀ a, result = .ok a → P m.store a) : Grounds g m P (ofExcept line result m) := by
  cases result with
  | ok a => exact grounds_pure grounded (holds a rfl)
  | error cause => exact grounds_fault grounded P cause line

theorem grounds_read {P : Store → α → Prop} {line : Nat} {f : Machine → Except Fault α}
    (holds : ∀ a, f m = .ok a → P m.store a) : Grounds g m P (read line f m) :=
  grounds_ofExcept grounded holds

theorem grounds_define {v : Value} (inside : v.In m.store) (frame : FrameId) (name : String) :
    Grounds g m (fun _ _ => True) (define frame name v m) :=
  grounds_onStore (.define .refl frame name v) (grounded.store.define inside frame name) trivial

theorem grounds_addFrame {bindings : Table Value} {outer : FrameId}
    (inside : bindings.All (Value.In m.store)) (has : m.store.Has outer) :
    Grounds g m (fun s f => s.Has f) (onStore (·.addFrame bindings (some outer)) m) :=
  grounds_onStore (.addFrame .refl bindings _) (grounded.store.addFrame inside has)
    (Option.isSome_of_eq_some (Store.frameAt?_addFrame_self m.store _ _))

theorem grounds_addInstance {c : ClassId} (here : (m.store.classAt? c).isSome) :
    Grounds g m (fun s i => (Value.instance_ i).In s) (onStore (·.addInstance c) m) := by
  refine grounds_onStore (.addInstance .refl c) (grounded.store.addInstance here) ?_
  simp [Value.In, Store.addInstance, Store.instanceAt?]

theorem grounds_print (v : Value) : Grounds g m (fun _ _ => True) (print v m) := by
  have later (sink : Sink) : m.LaterGrounded g { m with sink } :=
    ⟨⟨⟨rfl, rfl, rfl⟩, rfl⟩, .refl m.store, grounded.store⟩
  unfold print
  dsimp only
  split
  · exact ⟨later _, trivial⟩
  · exact later _

theorem grounds_checkArity (expected given line : Nat) :
    Grounds g m (fun _ _ => True) (checkArity expected given line m) := by
  unfold checkArity
  split
  · exact grounds_pure grounded trivial
  · exact grounds_fault grounded _ _ _

theorem grounds_callNative (f : Native) : Grounds g m (fun s v => v.In s) (callNative f m) := by
  cases f with
  | clock => exact ⟨⟨⟨⟨rfl, rfl, rfl⟩, rfl⟩, .refl m.store, grounded.store⟩, trivial⟩

end

/-! ### Names and properties -/

theorem in_of_applyPrefix {operator : Token} {v a : Value} {s : Store}
    (applied : applyPrefix operator v = .ok a) : a.In s := by
  unfold applyPrefix at applied
  split at applied
  · cases applied
    trivial
  · split at applied <;> cases applied
    trivial
  · cases applied

theorem in_of_applyBinary {operator : Token} {v w a : Value} {s : Store}
    (applied : applyBinary operator v w = .ok a) : a.In s := by
  unfold applyBinary at applied
  split at applied
  · cases applied
    trivial
  · cases applied
    trivial
  · split at applied <;> cases applied <;> trivial
  · split at applied
    · unfold applyToNumbers at applied
      split at applied <;> cases applied <;> trivial
    · cases applied

theorem Store.Grounded.get {s : Store} (grounded : s.Grounded g) {f : FrameId} {name : String}
    {v : Value} (got : s.get f name = .ok v) : v.In s := by
  unfold Store.get at got
  cases holder : s.holder f name with
  | error cause =>
    rw [holder] at got
    cases got
  | ok frame =>
    rw [holder] at got
    exact grounded.bound got

theorem Store.Grounded.getAt {s : Store} (grounded : s.Grounded g) {f : FrameId} {d : Nat}
    {name : String} {v : Value} (got : s.getAt f d name = .ok v) : v.In s := by
  unfold Store.getAt at got
  cases reached : s.ancestor f d with
  | error cause =>
    rw [reached] at got
    cases got
  | ok frame =>
    rw [reached] at got
    exact grounded.bound got

theorem has_of_methodTable {frame : FrameId} {methods : List FunctionDecl} {s : Store}
    (has : s.Has frame) : (methodTable frame methods).All fun method => s.Has method.frame := by
  refine (methodTable_all frame methods).imp ?_
  rintro _ ⟨d, _, rfl⟩
  exact has

/-- What an instance has under a name is there. -/
def Store.Property.In (s : Store) : Store.Property → Prop
  | .field v => v.In s
  | .method closure => s.Has closure.frame

theorem Store.Grounded.property {s : Store} (grounded : s.Grounded g) {i : InstanceId}
    {name : String} {property : Store.Property} (found : s.property i name = .ok property) :
    property.In s := by
  unfold Store.property at found
  split at found
  · cases found
  · rename_i object present
    split at found
    · rename_i v has
      cases found
      exact GroundedIn.fields grounded present name v has
    · split at found
      · rename_i closure has
        cases found
        exact grounded.findMethod has
      · cases found

section

variable (grounded : m.Grounded g)

include grounded

theorem in_of_lookUp {id : NodeId} {name : String} {v : Value} (found : m.lookUp id name = .ok v) :
    v.In m.store := by
  unfold Machine.lookUp at found
  split at found
  · exact grounded.store.getAt found
  · exact grounded.store.get found

theorem in_of_lookUpSuper {id : NodeId} {parent : ClassId} {receiver : Value}
    (found : m.lookUpSuper id = .ok (parent, receiver)) : receiver.In m.store := by
  unfold Machine.lookUpSuper at found
  split at found
  · rename_i d _
    cases super : m.store.getAt m.current d Keyword.super.spelling with
    | error cause =>
      rw [super] at found
      cases found
    | ok v =>
      rw [super] at found
      cases v with
      | class_ c =>
        cases d with
        | zero => cases found
        | succ inner =>
          cases this : m.store.getAt m.current inner Keyword.this.spelling with
          | error cause =>
            dsimp only [bind, Except.bind] at found
            rw [this] at found
            cases found
          | ok w =>
            dsimp only [bind, Except.bind] at found
            rw [this] at found
            cases found
            exact grounded.store.getAt this
      | _ => cases found
  · cases found

/-- What is bound goes into a frame of its own. -/
theorem grounds_bind {method : Closure} {receiver : Value} (has : m.store.Has method.frame)
    (inside : receiver.In m.store) :
    Grounds g m (fun s closure => s.Has closure.frame) (onStore (·.bind method receiver) m) := by
  refine grounds_onStore (.bind _ _ _)
    (grounded.store.addFrame ((Table.All.empty _).insert _ inside) has) ?_
  exact Option.isSome_of_eq_some (Store.frameAt?_addFrame_self m.store _ _)

theorem grounds_bindValue {method : Closure} {receiver : Value} (has : m.store.Has method.frame)
    (inside : receiver.In m.store) :
    Grounds g m (fun s v => v.In s) (onStore (·.bindValue method receiver) m) := by
  have store := grounded.store.addFrame ((Table.All.empty _).insert Keyword.this.spelling inside) has
  refine grounds_onStore (.bindValue _ _ _) (store.addFunction ?_) ?_
  · exact Option.isSome_of_eq_some (Store.frameAt?_addFrame_self m.store _ _)
  · simp [Value.In, Store.bindValue, Store.addFunction, Store.functionAt?]

theorem grounds_assign (id : NodeId) (name : Name) {v : Value} (inside : v.In m.store) :
    Grounds g m (fun _ _ => True) (assign id name v m) := by
  refine (grounds_read (P := fun _ _ => True) grounded fun _ _ => trivial).bind grounded ?_
  intro frame m₁ _ grounded₁ grows _
  exact grounds_define grounded₁ (inside.grows grows) frame _

theorem grounds_superMethod (keyword method : Name) (id : NodeId) :
    Grounds g m (fun s v => v.In s) (superMethod keyword method id m) := by
  refine (grounds_read (P := fun s (x : ClassId × Value) => x.2.In s) grounded
    fun _ found => in_of_lookUpSuper grounded found).bind grounded ?_
  rintro ⟨parent, receiver⟩ m₁ - grounded₁ - inside
  refine (grounds_ask (P := fun s (found : Option Closure) => ∀ method ∈ found, s.Has method.frame)
    grounded₁ fun _ found => grounded₁.store.findMethod found).bind grounded₁ ?_
  intro found m₂ _ grounded₂ grows has
  cases found with
  | some closure => exact grounds_bindValue grounded₂ (has closure rfl) (inside.grows grows)
  | none => exact grounds_fault grounded₂ _ _ _

theorem grounds_getProperty {object : Value} (inside : object.In m.store) (name : Name) :
    Grounds g m (fun s v => v.In s) (getProperty object name m) := by
  cases object with
  | instance_ i =>
    refine (grounds_read (P := fun s property => Store.Property.In s property) grounded
      fun _ found => grounded.store.property found).bind grounded ?_
    intro property m₁ _ grounded₁ grows has
    cases property with
    | field v => exact grounds_pure grounded₁ has
    | method closure => exact grounds_bindValue grounded₁ has (inside.grows grows)
  | _ => exact grounds_fault grounded _ _ _

theorem grounds_setField (i : InstanceId) (name : Name) {v : Value} (inside : v.In m.store) :
    Grounds g m (fun _ _ => True) (setField i name v m) :=
  grounds_onStore (.setField .refl i name.text v) (grounded.store.setField inside i name.text) trivial

/-! ### Declarations -/

theorem grounds_current : Grounds g m (fun s f => s.Has f) (ask (·.current) m) :=
  grounds_ask grounded grounded.current

theorem grounds_declareFunction (d : FunctionDecl) :
    Grounds g m (fun _ _ => True) (declareFunction d m) := by
  refine (grounds_current grounded).bind grounded ?_
  intro frame m₁ _ grounded₁ _ has
  refine (grounds_onStore (P := fun s f => (s.functionAt? f).isSome) (.addFunction .refl _)
    (grounded₁.store.addFunction has) ?_).bind grounded₁ ?_
  · simp [Store.addFunction, Store.functionAt?]
  · intro f m₂ _ grounded₂ _ inside
    exact grounds_define grounded₂ (v := .function f) inside frame _

theorem grounds_declareMethods {superclass : Option ClassId}
    (older : ∀ parent ∈ superclass, (m.store.classAt? parent).isSome) (methods : List FunctionDecl) :
    Grounds g m (fun s table => table.All fun method => s.Has method.frame)
      (declareMethods superclass methods m) := by
  -- the methods close over the frame that is current by then
  have table {m : Machine} (grounded : m.Grounded g) :
      Grounds g m (fun s table => table.All fun method => s.Has method.frame)
        (ask (fun m => methodTable m.current methods) m) :=
    grounds_ask grounded (has_of_methodTable grounded.current)
  cases superclass with
  | none => exact table grounded
  | some parent =>
    refine (grounds_current grounded).bind grounded ?_
    intro outside m₁ _ grounded₁ grows has
    have inside : (Value.class_ parent).In m₁.store := grows.class_isSome (older parent rfl)
    refine (grounds_addFrame grounded₁ ((Table.All.empty _).insert _ inside) has).bind grounded₁ ?_
    intro frame m₂ _ grounded₂ _ has
    exact Grounds.inFrame (table ⟨grounded₂.globals, grounded₂.store, has⟩)

theorem grounds_declareClass (name : Name) {superclass : Option ClassId}
    (older : ∀ parent ∈ superclass, (m.store.classAt? parent).isSome) (methods : List FunctionDecl) :
    Grounds g m (fun _ _ => True) (declareClass name superclass methods m) := by
  refine (grounds_declareMethods grounded older methods).bind grounded ?_
  intro table m₁ _ grounded₁ grows has
  refine (grounds_onStore (P := fun s c => (s.classAt? c).isSome) (.addClass .refl _)
    (grounded₁.store.addClass (fun parent member => grows.class_isSome (older parent member)) has)
    ?_).bind grounded₁ ?_
  · simp [Store.addClass, Store.classAt?]
  · intro c m₂ _ grounded₂ _ inside
    refine (grounds_current grounded₂).bind grounded₂ ?_
    intro frame m₃ _ grounded₃ grows _
    exact grounds_define grounded₃ (v := .class_ c) (grows.class_isSome inside) frame _

/-! ### Calls -/

theorem grounds_callFrame {closure : Closure} {arguments : List Value}
    (has : m.store.Has closure.frame) (inside : ∀ v ∈ arguments, v.In m.store) :
    Grounds g m (fun s f => s.Has f) (callFrame closure arguments m) := by
  have all : Table.All (Value.In m.store)
      (Table.insertAll ∅ ((closure.declaration.parameters.map (·.text)).zip arguments)) := by
    refine (Table.All.empty _).insertAll fun pair member => ?_
    exact inside pair.2 (List.of_mem_zip member).2
  exact grounds_addFrame grounded all has

theorem grounds_callResult (closure : Closure) {flow : Flow} (inside : flow.value.In m.store) :
    Grounds g m (fun s v => v.In s) (callResult closure flow m) := by
  unfold callResult
  split
  · exact grounds_read grounded fun _ found => grounded.store.getAt found
  · cases flow with
    | «return» v => exact grounds_pure grounded inside
    | next v => exact grounds_pure grounded trivial

end

/-! ### Tasks -/

/-- What the task is given refers only to what is in the store. -/
def Task.In (s : Store) : Task → Prop
  | .call callee _ arguments => callee.In s ∧ ∀ v ∈ arguments, v.In s
  | .callClosure closure arguments => s.Has closure.frame ∧ ∀ v ∈ arguments, v.In s
  | .construct c arguments => (s.classAt? c).isSome ∧ ∀ v ∈ arguments, v.In s
  | _ => True

/-- What the task gives refers only to what is in the store. -/
def Task.Gives (s : Store) : (t : Task) → t.Result → Prop
  | .evaluate _, v | .call _ _ _, v | .callClosure _ _, v | .construct _ _, v
  | .evaluateOptional _, v => v.In s
  | .evaluateAll _, values => ∀ v ∈ values, v.In s
  | .evaluateSuperclass _, superclass => ∀ c ∈ superclass, (s.classAt? c).isSome
  | .execute _, flow | .executeWhile _ _, flow | .executeAll _, flow => flow.value.In s

/-- Within the bound every task leaves a grounded store grounded. -/
def Grounding (g : FrameId) (n : Nat) : Prop :=
  ∀ t m, m.Grounded g → Task.In m.store t → Grounds g m (fun s a => t.Gives s a) (t.perform n m)

namespace Grounding

section

variable (within : Grounding g n) (grounded : m.Grounded g)

include within grounded

theorem evaluate (e : Expr) : Grounds g m (fun s v => v.In s) (Lox.evaluate n e m) :=
  within (.evaluate e) m grounded trivial

theorem evaluateAll (expressions : List Expr) :
    Grounds g m (fun s values => ∀ v ∈ values, v.In s) (Lox.evaluateAll n expressions m) :=
  within (.evaluateAll expressions) m grounded trivial

theorem execute (s : Stmt) : Grounds g m (fun s flow => flow.value.In s) (Lox.execute n s m) :=
  within (.execute s) m grounded trivial

theorem evaluateOptional (e : Option Expr) :
    Grounds g m (fun s v => v.In s) (Lox.evaluateOptional n e m) :=
  within (.evaluateOptional e) m grounded trivial

theorem executeIn (body : List Stmt) {frame : FrameId} (has : m.store.Has frame) :
    Grounds g m (fun s flow => flow.value.In s) (Run.inFrame frame (Lox.executeAll n body) m) :=
  Grounds.inFrame (within (.executeAll body) _ ⟨grounded.globals, grounded.store, has⟩ trivial)

private theorem evaluate_succ (e : Expr) :
    Grounds g m (fun s v => v.In s) (Lox.evaluate (n + 1) e m) := by
  cases e with
  | literal value => exact grounds_pure grounded (by cases value <;> trivial)
  | grouping inner => exact within.evaluate grounded inner
  | unary operator right =>
    refine (within.evaluate grounded right).bind grounded ?_
    intro a m₁ _ grounded₁ _ _
    exact grounds_ofExcept grounded₁ fun _ applied => in_of_applyPrefix applied
  | binary left operator right =>
    refine (within.evaluate grounded left).bind grounded ?_
    intro a m₁ _ grounded₁ _ _
    refine (within.evaluate grounded₁ right).bind grounded₁ ?_
    intro b m₂ _ grounded₂ _ _
    exact grounds_ofExcept grounded₂ fun _ applied => in_of_applyBinary applied
  | logical left operator right =>
    refine (within.evaluate grounded left).bind grounded ?_
    intro a m₁ _ grounded₁ _ inside
    split
    · exact grounds_pure grounded₁ inside
    · exact within.evaluate grounded₁ right
  | «variable» name id => exact grounds_read grounded fun _ found => in_of_lookUp grounded found
  | assign name value id =>
    refine (within.evaluate grounded value).bind grounded ?_
    intro a m₁ _ grounded₁ _ inside
    refine (grounds_assign grounded₁ id name inside).bind grounded₁ ?_
    intro _ m₂ _ grounded₂ grows _
    exact grounds_pure grounded₂ (inside.grows grows)
  | call callee line arguments =>
    refine (within.evaluate grounded callee).bind grounded ?_
    intro f m₁ _ grounded₁ _ inside
    refine (within.evaluateAll grounded₁ arguments).bind grounded₁ ?_
    intro values m₂ _ grounded₂ grows given
    exact within (.call f line values) m₂ grounded₂ ⟨inside.grows grows, given⟩
  | get object name =>
    refine (within.evaluate grounded object).bind grounded ?_
    intro a m₁ _ grounded₁ _ inside
    exact grounds_getProperty grounded₁ inside name
  | set object name value =>
    refine (within.evaluate grounded object).bind grounded ?_
    intro a m₁ _ grounded₁ _ _
    cases a with
    | instance_ i =>
      refine (within.evaluate grounded₁ value).bind grounded₁ ?_
      intro b m₂ _ grounded₂ _ inside
      refine (grounds_setField grounded₂ i name inside).bind grounded₂ ?_
      intro _ m₃ _ grounded₃ grows _
      exact grounds_pure grounded₃ (inside.grows grows)
    | _ => exact grounds_fault grounded₁ _ _ _
  | this keyword id => exact grounds_read grounded fun _ found => in_of_lookUp grounded found
  | super keyword method id => exact grounds_superMethod grounded keyword method id

private theorem call_succ {callee : Value} {line : Nat} {arguments : List Value}
    (callable : callee.In m.store) (given : ∀ v ∈ arguments, v.In m.store) :
    Grounds g m (fun s v => v.In s) (Lox.call (n + 1) callee line arguments m) := by
  cases callee with
  | native f =>
    refine (grounds_checkArity grounded _ _ _).bind grounded ?_
    intro _ m₁ _ grounded₁ _ _
    exact grounds_callNative grounded₁ f
  | function f =>
    refine (grounds_ask (P := fun s (found : Option Closure) => ∀ closure ∈ found, s.Has closure.frame)
      grounded fun _ found => Store.GroundedIn.functions grounded.store found).bind grounded ?_
    intro found m₁ _ grounded₁ grows has
    cases found with
    | none => exact grounds_fault grounded₁ _ _ _
    | some closure =>
      refine (grounds_checkArity grounded₁ _ _ _).bind grounded₁ ?_
      intro _ m₂ _ grounded₂ grows₂ _
      refine Grounds.nested grounded₂ (within (.callClosure closure arguments) _
        ⟨grounded₂.globals, grounded₂.store, grounded₂.current⟩ ⟨(has closure rfl).grows grows₂, ?_⟩)
      exact fun v member => (given v member).grows (grows.trans grows₂)
  | class_ c =>
    refine (grounds_ask (P := fun _ _ => True) grounded trivial).bind grounded ?_
    intro arity m₁ _ grounded₁ grows _
    refine (grounds_checkArity grounded₁ _ _ _).bind grounded₁ ?_
    intro _ m₂ _ grounded₂ grows₂ _
    have later := grows.trans grows₂
    refine Grounds.nested grounded₂ (within (.construct c arguments) _
      ⟨grounded₂.globals, grounded₂.store, grounded₂.current⟩ ⟨later.class_isSome callable, ?_⟩)
    exact fun v member => (given v member).grows later
  | nil | bool _ | number _ | string _ | instance_ _ => exact grounds_fault grounded _ _ _

private theorem callClosure_succ {closure : Closure} {arguments : List Value}
    (has : m.store.Has closure.frame) (given : ∀ v ∈ arguments, v.In m.store) :
    Grounds g m (fun s v => v.In s) (Lox.callClosure (n + 1) closure arguments m) := by
  refine (grounds_callFrame grounded has given).bind grounded ?_
  intro frame m₁ _ grounded₁ _ has
  refine (within.executeIn grounded₁ closure.declaration.body has).bind grounded₁ ?_
  intro flow m₂ _ grounded₂ _ inside
  exact grounds_callResult grounded₂ closure inside

private theorem construct_succ {c : ClassId} {arguments : List Value}
    (here : (m.store.classAt? c).isSome) (given : ∀ v ∈ arguments, v.In m.store) :
    Grounds g m (fun s v => v.In s) (Lox.construct (n + 1) c arguments m) := by
  refine (grounds_addInstance grounded here).bind grounded ?_
  intro i m₁ _ grounded₁ grows inside
  refine (grounds_ask (P := fun s (found : Option Closure) => ∀ method ∈ found, s.Has method.frame)
    grounded₁ fun _ found => grounded₁.store.findMethod found).bind grounded₁ ?_
  intro found m₂ _ grounded₂ grows₂ has
  cases found with
  | none => exact grounds_pure grounded₂ (inside.grows grows₂)
  | some method =>
    refine (grounds_bind grounded₂ (has method rfl) (inside.grows grows₂)).bind grounded₂ ?_
    intro closure m₃ _ grounded₃ grows₃ has
    have later := (grows.trans grows₂).trans grows₃
    refine (within (.callClosure closure arguments) m₃ grounded₃
      ⟨has, fun v member => (given v member).grows later⟩).bind grounded₃ ?_
    intro _ m₄ _ grounded₄ grows₄ _
    exact grounds_pure grounded₄ (inside.grows ((grows₂.trans grows₃).trans grows₄))

private theorem execute_succ (s : Stmt) :
    Grounds g m (fun s flow => flow.value.In s) (Lox.execute (n + 1) s m) := by
  cases s with
  | expression value =>
    refine (within.evaluate grounded value).bind grounded ?_
    intro a m₁ _ grounded₁ _ inside
    exact grounds_pure grounded₁ inside
  | print value =>
    refine (within.evaluate grounded value).bind grounded ?_
    intro a m₁ _ grounded₁ _ _
    refine (grounds_print grounded₁ a).bind grounded₁ ?_
    intro _ m₂ _ grounded₂ _ _
    exact grounds_pure grounded₂ trivial
  | var name initializer =>
    refine (within.evaluateOptional grounded initializer).bind grounded ?_
    intro a m₁ _ grounded₁ _ inside
    refine (grounds_current grounded₁).bind grounded₁ ?_
    intro frame m₂ _ grounded₂ grows _
    refine (grounds_define grounded₂ (inside.grows grows) frame _).bind grounded₂ ?_
    intro _ m₃ _ grounded₃ _ _
    exact grounds_pure grounded₃ trivial
  | block body =>
    refine (grounds_current grounded).bind grounded ?_
    intro outside m₁ _ grounded₁ _ has
    refine (grounds_addFrame grounded₁ (Table.All.empty _) has).bind grounded₁ ?_
    intro frame m₂ _ grounded₂ _ has
    exact within.executeIn grounded₂ body has
  | ifElse condition thenBranch elseBranch =>
    refine (within.evaluate grounded condition).bind grounded ?_
    intro a m₁ _ grounded₁ _ _
    split
    · exact within.execute grounded₁ thenBranch
    · cases elseBranch with
      | some s => exact within.execute grounded₁ s
      | none => exact grounds_pure grounded₁ trivial
  | «while» condition body => exact within (.executeWhile condition body) m grounded trivial
  | function d =>
    refine (grounds_declareFunction grounded d).bind grounded ?_
    intro _ m₁ _ grounded₁ _ _
    exact grounds_pure grounded₁ trivial
  | «return» line value =>
    refine (within.evaluateOptional grounded value).bind grounded ?_
    intro a m₁ _ grounded₁ _ inside
    exact grounds_pure grounded₁ inside
  | class_ name superclass methods =>
    refine Grounds.bind grounded (within (.evaluateSuperclass superclass) m grounded trivial) ?_
    intro parent m₁ _ grounded₁ _ older
    refine (grounds_declareClass grounded₁ name older methods).bind grounded₁ ?_
    intro _ m₂ _ grounded₂ _ _
    exact grounds_pure grounded₂ trivial

private theorem executeWhile_succ (condition : Expr) (body : Stmt) :
    Grounds g m (fun s flow => flow.value.In s) (Lox.executeWhile (n + 1) condition body m) := by
  refine (within.evaluate grounded condition).bind grounded ?_
  intro a m₁ _ grounded₁ _ _
  split
  · refine (within.execute grounded₁ body).bind grounded₁ ?_
    intro flow m₂ _ grounded₂ _ inside
    cases flow with
    | «return» v => exact grounds_pure grounded₂ inside
    | next v => exact within (.executeWhile condition body) m₂ grounded₂ trivial
  · exact grounds_pure grounded₁ trivial

private theorem executeAll_succ (body : List Stmt) :
    Grounds g m (fun s flow => flow.value.In s) (Lox.executeAll (n + 1) body m) := by
  cases body with
  | nil => exact grounds_pure grounded trivial
  | cons s rest =>
    refine (within.execute grounded s).bind grounded ?_
    intro flow m₁ _ grounded₁ _ inside
    cases flow with
    | «return» v => exact grounds_pure grounded₁ inside
    | next v => exact within (.executeAll rest) m₁ grounded₁ trivial

end

/-- Each function leaves the store grounded if those that it calls do. -/
theorem succ (within : Grounding g n) : Grounding g (n + 1) := by
  intro t m grounded inside
  cases t with
  | evaluate e => exact evaluate_succ within grounded e
  | evaluateAll expressions =>
    cases expressions with
    | nil => exact grounds_pure grounded nofun
    | cons e rest =>
      refine (within.evaluate grounded e).bind grounded ?_
      intro a m₁ _ grounded₁ _ first
      refine (within.evaluateAll grounded₁ rest).bind grounded₁ ?_
      intro values m₂ _ grounded₂ grows others
      exact grounds_pure grounded₂ (List.forall_mem_cons.mpr ⟨first.grows grows, others⟩)
  | call callee line arguments => exact call_succ within grounded inside.1 inside.2
  | callClosure closure arguments => exact callClosure_succ within grounded inside.1 inside.2
  | construct c arguments => exact construct_succ within grounded inside.1 inside.2
  | execute s => exact execute_succ within grounded s
  | evaluateOptional e =>
    cases e with
    | none => exact grounds_pure grounded trivial
    | some e => exact within.evaluate grounded e
  | evaluateSuperclass e =>
    cases e with
    | none => exact grounds_pure grounded nofun
    | some e =>
      refine (within.evaluate grounded e).bind grounded ?_
      intro a m₁ _ grounded₁ _ inside
      cases a with
      | class_ c =>
        refine grounds_pure grounded₁ ?_
        rintro _ ⟨⟩
        exact inside
      | _ => exact grounds_fault grounded₁ _ _ _
  | executeWhile condition body => exact executeWhile_succ within grounded condition body
  | executeAll body => exact executeAll_succ within grounded body

end Grounding

/-- Every task that refers only to what is there leaves a grounded store grounded, by induction on the
bound. -/
theorem grounding (g : FrameId) (n : Nat) : Grounding g n := by
  induction n with
  | zero =>
    intro t m grounded _
    rw [t.perform_zero]
    exact grounded.refl
  | succ n ih => exact ih.succ

end Lox
