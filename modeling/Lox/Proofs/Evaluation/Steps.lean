import Lox.Eval

/-!
# Properties kept by every step

Runs are composed of a few steps. A property that all of these have, and that composition keeps, holds
of the operations on declarations, properties and calls too, whatever it says. The steps look at what a
machine has inside and not at its sink, they change its store in a few ways only, and they never fail for
a call too deep.
-/

namespace Lox

/-- The changes that an evaluation makes to a store, one after another. -/
inductive Store.Becomes (s : Store) : Store → Prop
  | refl : Becomes s s
  | define {s' : Store} (before : Becomes s s') (f : FrameId) (name : String) (value : Value) :
    Becomes s (s'.define f name value)
  | addFrame {s' : Store} (before : Becomes s s') (bindings : Table Value)
    (enclosing : Option FrameId) : Becomes s (s'.addFrame bindings enclosing).2
  | addFunction {s' : Store} (before : Becomes s s') (closure : Closure) :
    Becomes s (s'.addFunction closure).2
  | addClass {s' : Store} (before : Becomes s s') (cls : Class) : Becomes s (s'.addClass cls).2
  | addInstance {s' : Store} (before : Becomes s s') (c : ClassId) : Becomes s (s'.addInstance c).2
  | setField {s' : Store} (before : Becomes s s') (i : InstanceId) (name : String) (value : Value) :
    Becomes s (s'.setField i name value)

theorem Store.Becomes.bind (s : Store) (method : Closure) (receiver : Value) :
    s.Becomes (s.bind method receiver).2 :=
  .addFrame .refl _ _

theorem Store.Becomes.bindValue (s : Store) (method : Closure) (receiver : Value) :
    s.Becomes (s.bindValue method receiver).2 :=
  .addFunction (.addFrame .refl _ _) _

/-! ### Look-ups

Whatever they fail for, it is not the depth of calls. -/

section

variable {α β : Type}

private theorem bind_ne_overflow {x : Except Fault α} {f : α → Except Fault β}
    (first : x ≠ .error .stackOverflow) (next : ∀ a, f a ≠ .error .stackOverflow) :
    (x >>= f) ≠ .error .stackOverflow := by
  cases x with
  | error cause => exact fun same => first (congrArg Except.error (Except.error.inj same))
  | ok a => exact next a

namespace Store

variable (s : Store) (f : FrameId) (name : String)

theorem holder_ne_overflow : s.holder f name ≠ .error .stackOverflow := by
  unfold holder
  split <;> rintro ⟨⟩

theorem ancestor_ne_overflow (distance : Nat) : s.ancestor f distance ≠ .error .stackOverflow := by
  unfold ancestor
  split <;> rintro ⟨⟩

theorem bound_ne_overflow : s.bound f name ≠ .error .stackOverflow := by
  unfold bound
  split <;> rintro ⟨⟩

theorem getAt_ne_overflow (distance : Nat) : s.getAt f distance name ≠ .error .stackOverflow :=
  bind_ne_overflow (s.ancestor_ne_overflow f distance) fun holder => s.bound_ne_overflow holder name

theorem get_ne_overflow : s.get f name ≠ .error .stackOverflow :=
  bind_ne_overflow (s.holder_ne_overflow f name) fun holder => s.bound_ne_overflow holder name

theorem property_ne_overflow (i : InstanceId) : s.property i name ≠ .error .stackOverflow := by
  unfold property
  split
  · rintro ⟨⟩
  · split
    · rintro ⟨⟩
    · split <;> rintro ⟨⟩

/-- A property that is a method is one of the class of the instance. -/
theorem findMethod_of_property {s : Store} {i : InstanceId} {name : String} {method : Closure}
    (found : s.property i name = .ok (.method method)) :
    ∃ object, s.instanceAt? i = some object ∧ s.findMethod object.cls name = some method := by
  unfold property at found
  split at found
  · cases found
  · rename_i object present
    split at found
    · cases found
    · split at found
      · rename_i has
        cases found
        exact ⟨object, present, has⟩
      · cases found

end Store

namespace Machine

variable (m : Machine) (id : NodeId) (name : String)

theorem lookUp_ne_overflow : m.lookUp id name ≠ .error .stackOverflow := by
  unfold lookUp
  split
  · exact m.store.getAt_ne_overflow _ name _
  · exact m.store.get_ne_overflow _ name

theorem target_ne_overflow : m.target id name ≠ .error .stackOverflow := by
  unfold target
  split
  · exact m.store.ancestor_ne_overflow _ _
  · exact m.store.holder_ne_overflow _ name

theorem lookUpSuper_ne_overflow : m.lookUpSuper id ≠ .error .stackOverflow := by
  unfold lookUpSuper
  split
  · refine bind_ne_overflow (m.store.getAt_ne_overflow _ _ _) fun value => ?_
    split
    · split
      · rintro ⟨⟩
      · exact bind_ne_overflow (m.store.getAt_ne_overflow _ _ _) fun _ => by rintro ⟨⟩
    · rintro ⟨⟩
  · rintro ⟨⟩

end Machine

theorem applyPrefix_ne_overflow (operator : Token) (right : Value) :
    applyPrefix operator right ≠ .error .stackOverflow := by
  unfold applyPrefix
  split
  · rintro ⟨⟩
  · split <;> rintro ⟨⟩
  · rintro ⟨⟩

theorem applyBinary_ne_overflow (operator : Token) (left right : Value) :
    applyBinary operator left right ≠ .error .stackOverflow := by
  unfold applyBinary
  split
  · rintro ⟨⟩
  · rintro ⟨⟩
  · split <;> rintro ⟨⟩
  · split
    · unfold applyToNumbers
      split <;> rintro ⟨⟩
    · rintro ⟨⟩

end

namespace Run

/-- What is read lies inside the machine: whatever the sink is, it is the same. -/
def Inward {α : Type} (f : Machine → α) : Prop := ∀ (m : Machine) (sink : Sink), f { m with sink } = f m

/-- `P` holds of the steps that runs are composed of, and is kept by their composition. -/
structure StepClosed (P : ∀ α : Type, Run α → Prop) : Prop where
  pure : ∀ {α : Type} (a : α), P α (pure a)
  fault : ∀ {α : Type} (cause : Fault) (line : Nat), cause ≠ .stackOverflow → P α (fault cause line)
  ask : ∀ {α : Type} {f : Machine → α}, Inward f → P α (ask f)
  onStore : ∀ {α : Type} {change : Store → α × Store}, (∀ s : Store, s.Becomes (change s).2) →
    P α (onStore change)
  bind : ∀ {α β : Type} {x : Run α} {f : α → Run β}, P α x → (∀ a, P β (f a)) → P β (x >>= f)
  inFrame : ∀ {α : Type} {body : Run α}, P α body → ∀ frame, P α (inFrame frame body)

namespace StepClosed

variable {P : ∀ α : Type, Run α → Prop} {α : Type}

/-- Asking for the current frame. -/
theorem current (closed : StepClosed P) : P FrameId (Run.ask (·.current)) := closed.ask fun _ _ => rfl

theorem addInstance (closed : StepClosed P) (c : ClassId) :
    P InstanceId (Run.onStore (·.addInstance c)) :=
  closed.onStore fun _ => .addInstance .refl c

theorem addFrame (closed : StepClosed P) (bindings : Table Value) (enclosing : Option FrameId) :
    P FrameId (Run.onStore (·.addFrame bindings enclosing)) :=
  closed.onStore fun _ => .addFrame .refl bindings enclosing

theorem bindMethod (closed : StepClosed P) (method : Closure) (receiver : Value) :
    P Closure (Run.onStore (·.bind method receiver)) :=
  closed.onStore fun s => .bind s method receiver

theorem bindValue (closed : StepClosed P) (method : Closure) (receiver : Value) :
    P Value (Run.onStore (·.bindValue method receiver)) :=
  closed.onStore fun s => .bindValue s method receiver

theorem ofExcept (closed : StepClosed P) {result : Except Fault α}
    (shallow : result ≠ .error .stackOverflow) (line : Nat) : P α (ofExcept line result) := by
  cases result with
  | ok a => exact closed.pure a
  | error cause => exact closed.fault cause line fun same => shallow (congrArg Except.error same)

theorem read (closed : StepClosed P) (line : Nat) {f : Machine → Except Fault α} (inward : Inward f)
    (shallow : ∀ m, f m ≠ .error .stackOverflow) : P α (read line f) := by
  -- what is read is known not to be the fault, so this is all there is to go on from
  let found (m : Machine) : { result : Except Fault α // result ≠ .error .stackOverflow } :=
    ⟨f m, shallow m⟩
  have same : Run.read line f = Run.ask found >>= fun result => Run.ofExcept line result.1 := rfl
  rw [same]
  apply closed.bind (closed.ask fun m sink => Subtype.ext (inward m sink))
  intro result
  exact closed.ofExcept result.2 line

theorem lookUp (closed : StepClosed P) (line : Nat) (id : NodeId) (name : String) :
    P Value (Run.read line (·.lookUp id name)) :=
  closed.read line (fun _ _ => rfl) fun m => m.lookUp_ne_overflow id name

theorem define (closed : StepClosed P) (frame : FrameId) (name : String) (value : Value) :
    P Unit (define frame name value) :=
  closed.onStore fun _ => .define .refl frame name value

/-! ### Declarations -/

theorem declareFunction (closed : StepClosed P) (d : FunctionDecl) :
    P Unit (declareFunction d) := by
  apply closed.bind closed.current
  intro frame
  apply closed.bind (closed.onStore fun _ => .addFunction .refl _)
  intro f
  exact closed.define frame _ _

theorem declareMethods (closed : StepClosed P) (superclass : Option ClassId)
    (methods : List FunctionDecl) : P (Table Closure) (declareMethods superclass methods) := by
  have read : P (Table Closure) (Run.ask fun m => methodTable m.current methods) :=
    closed.ask fun _ _ => rfl
  cases superclass with
  | none => exact read
  | some parent =>
    apply closed.bind closed.current
    intro outside
    apply closed.bind (closed.addFrame _ _)
    intro frame
    exact closed.inFrame read frame

theorem declareClass (closed : StepClosed P) (name : Name) (superclass : Option ClassId)
    (methods : List FunctionDecl) : P Unit (declareClass name superclass methods) := by
  apply closed.bind (closed.declareMethods superclass methods)
  intro table
  apply closed.bind (closed.onStore fun _ => .addClass .refl _)
  intro c
  apply closed.bind closed.current
  intro frame
  exact closed.define frame _ _

/-! ### Calls -/

theorem checkArity (closed : StepClosed P) (expected given line : Nat) :
    P Unit (checkArity expected given line) := by
  unfold Run.checkArity
  split
  · exact closed.pure ()
  · exact closed.fault _ line (by nofun)

theorem callFrame (closed : StepClosed P) (closure : Closure) (arguments : List Value) :
    P FrameId (callFrame closure arguments) := by
  unfold Run.callFrame
  exact closed.addFrame _ _

theorem callResult (closed : StepClosed P) (closure : Closure) (flow : Flow) :
    P Value (callResult closure flow) := by
  unfold Run.callResult
  split
  · exact closed.read _ (fun _ _ => rfl) fun m => m.store.getAt_ne_overflow _ _ 0
  · cases flow with
    | «return» value => exact closed.pure value
    | next value => exact closed.pure Value.nil

/-! ### Names and properties -/

theorem assign (closed : StepClosed P) (id : NodeId) (name : Name) (value : Value) :
    P Unit (assign id name value) := by
  apply closed.bind (closed.read _ (fun _ _ => rfl) fun m => m.target_ne_overflow id name.text)
  intro frame
  exact closed.define frame _ value

theorem superMethod (closed : StepClosed P) (keyword method : Name) (id : NodeId) :
    P Value (superMethod keyword method id) := by
  apply closed.bind (closed.read _ (fun _ _ => rfl) fun m => m.lookUpSuper_ne_overflow id)
  intro (parent, receiver)
  apply closed.bind (closed.ask fun _ _ => rfl)
  intro found
  cases found with
  | some closure => exact closed.bindValue closure receiver
  | none => exact closed.fault _ _ (by nofun)

theorem getProperty (closed : StepClosed P) (object : Value) (name : Name) :
    P Value (getProperty object name) := by
  cases object with
  | instance_ i =>
    apply closed.bind (closed.read _ (fun _ _ => rfl) fun m => m.store.property_ne_overflow name.text i)
    intro property
    cases property with
    | field value => exact closed.pure value
    | method closure => exact closed.bindValue closure _
  | _ => exact closed.fault _ _ (by nofun)

theorem setField (closed : StepClosed P) (i : InstanceId) (name : Name) (value : Value) :
    P Unit (setField i name value) :=
  closed.onStore fun _ => .setField .refl i name.text value

end StepClosed

end Run

end Lox
