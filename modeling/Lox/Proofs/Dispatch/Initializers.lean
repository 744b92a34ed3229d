import Lox.Proofs.Dispatch.Receivers
import Lox.Proofs.Heap.Declared
import Lox.Proofs.Heap.Reached

/-!
# Construction and initializers

A class that is called makes an instance of its own and gives this instance, whatever its initializer does. An
initializer that is called in any other way gives the instance that it is bound to. For it is marked as an
initializer just if it is a method named so, and what `this` stands for in the frame that it closes over never
changes.
-/

namespace Lox

open Run

variable {L : List Lookup} {g : FrameId} {near : Store.Near} {n : Nat} {m m' : Machine} {t t' : Task}
  {s s' : Store} {closure : Closure} {receiver : Value}

/-- Whatever a task that is lodged does itself to a store, the reserved names stay. -/
theorem Task.IsLodged.later (lodged : t.IsLodged L g m) (alters : t.Alters m s s') :
    ∃ near, s.Later near s' := by
  obtain ⟨-, -, fits⟩ := lodged
  cases alters with
  | nothing => exact ⟨none, .refl _ _⟩
  | addFrame bindings enclosing => exact ⟨none, .addFrame _ s bindings enclosing⟩
  | addInstance c => exact ⟨none, .addInstance _ s c⟩
  | setField i name value => exact ⟨none, .setField _ s i name value⟩
  | bind => exact ⟨none, .addFrame _ s _ _⟩
  | bindValue => exact ⟨none, (Store.Later.addFrame _ s _ _).trans (.addFunction _ _ _)⟩
  | assign is frame value =>
    subst is
    obtain ⟨Γ, -, code⟩ := fits
    rw [Expr.Scoped] at code
    exact ⟨none, .define _ s frame code.1 value⟩
  | var is frame value =>
    subst is
    obtain ⟨Γ, -, code⟩ := fits
    exact ⟨none, .define _ s frame (plain_of_scoped code _ rfl) value⟩
  | @function d is _ value =>
    subst is
    obtain ⟨Γ, -, code⟩ := fits
    have added := Store.Later.addFunction none s ⟨d, m.current, false⟩
    exact ⟨none, added.trans (.define _ _ _ (plain_of_scoped code _ rfl) value)⟩
  | @class_ name _ methods is s₁ opened parent closed frame value =>
    subst is
    obtain ⟨Γ, -, code⟩ := fits
    have opened : s.Later (some (closed, methodIds methods)) s₁ := by
      rcases opened with rfl | ⟨bindings, enclosing, rfl⟩
      · exact .refl _ _
      · exact .addFrame _ s bindings enclosing
    have added : s.Later _ (s₁.addClass ⟨name.text, parent, methodTable closed methods⟩).2 :=
      opened.trans (.addClass rfl)
    exact ⟨_, added.trans (.define _ _ frame (plain_of_scoped code _ rfl) value)⟩

/-! ### Bound methods -/

/-- The closure is a method of a class, bound to the value: its own frame has the value for `this`. -/
structure Store.IsBound (s : Store) (closure : Closure) (receiver : Value) : Prop where
  of_method : ∃ c method, s.Declares c method ∧ closure.declaration = method.declaration
  this : s.binding? closure.frame Keyword.this.spelling = some receiver

theorem Store.present_of_bound {f : FrameId} {name : String} {value : Value}
    (bound : s.binding? f name = some value) : (s.frameAt? f).isSome := by
  obtain ⟨frame, found, -⟩ := Option.bind_eq_some_iff.mp bound
  exact Option.isSome_of_eq_some found

theorem Store.IsBound.later (bound : s.IsBound closure receiver) (later : s.Later near s') :
    s'.IsBound closure receiver := by
  obtain ⟨c, method, declares, same⟩ := bound.of_method
  refine ⟨⟨c, method, declares.later later, same⟩, ?_⟩
  exact (later.reserved (present_of_bound bound.this) notPlain_this).trans bound.this

/-- Well-scoped code leaves every bound method bound to its receiver. -/
theorem maintains_isBound (L : List Lookup) (g : FrameId) (closure : Closure) (receiver : Value) :
    Maintains (fun m => m.store.IsBound closure receiver) fun m t => t.IsLodged L g m :=
  Maintains.of_store (K := fun s => s.IsBound closure receiver)
    (fun lodged begins _ => lodged.begins begins) fun lodged alters bound => by
      obtain ⟨near, later⟩ := lodged.later alters
      exact bound.later later

/-- A method that is bound to a value gives a function of its own. -/
theorem Store.bindValue_isBound {c : ClassId} {name : String} {method : Closure}
    (found : s.findMethod c name = some method) (receiver : Value) :
    ∃ f closure, (s.bindValue method receiver).1 = .function f ∧
      (s.bindValue method receiver).2.functionAt? f = some closure ∧
      closure.declaration = method.declaration ∧
      (s.bindValue method receiver).2.IsBound closure receiver := by
  obtain ⟨c', -, declares⟩ := declares_of_findMethod found
  refine ⟨⟨s.functions.size⟩, (s.bind method receiver).1, rfl, ?_, rfl, ⟨c', method, declares, rfl⟩, ?_⟩
  · simp [bindValue, functionAt?, addFunction, bind, addFrame]
  · have self := s.binding?_addFrame_self (Table.insert ∅ Keyword.this.spelling receiver)
      (some method.frame) Keyword.this.spelling
    rwa [Table.get?_insert_self] at self

/-! ### What is marked as an initializer -/

/-- A function with `this` in its own frame comes from a method, and it is marked as an initializer just if
it is named so too. -/
structure Store.Marks (s : Store) (closure : Closure) : Prop where
  present : (s.frameAt? closure.frame).isSome
  of_method : (s.binding? closure.frame Keyword.this.spelling).isSome →
    ∃ c method, s.Declares c method ∧ closure.declaration = method.declaration
  flag : closure.isInitializer =
    (closure.declaration.isInitializer && (s.binding? closure.frame Keyword.this.spelling).isSome)

theorem Store.Marks.later (marks : s.Marks closure) (later : s.Later near s') : s'.Marks closure := by
  have same := later.reserved marks.present notPlain_this
  refine ⟨later.present marks.present, fun bound => ?_, ?_⟩
  · rw [same] at bound
    obtain ⟨c, method, declares, is⟩ := marks.of_method bound
    exact ⟨c, method, declares.later later, is⟩
  · rw [same]
    exact marks.flag

/-- What is marked as an initializer is a bound method that is named so. -/
theorem Store.Marks.isInitializer_iff (marks : s.Marks closure) :
    closure.isInitializer ↔
      closure.declaration.isInitializer ∧ ∃ receiver, s.IsBound closure receiver := by
  rw [marks.flag, Bool.and_eq_true, Option.isSome_iff_exists]
  refine and_congr_right fun _ => exists_congr fun receiver => ⟨fun this => ⟨?_, this⟩, (·.this)⟩
  exact marks.of_method (Option.isSome_of_eq_some this)

/-- All functions are marked by what they are bound to and by their name, all methods just by their name. -/
structure Store.Marked (s : Store) : Prop where
  functions : ∀ f closure, s.functionAt? f = some closure → s.Marks closure
  methods : ∀ c method, s.Declares c method →
    method.isInitializer = method.declaration.isInitializer

/-- A bound method is marked as the method is. -/
theorem Store.Binds.marks (binds : s.Binds s' closure) (later : s.Later near s')
    (methods : ∀ c method, s.Declares c method →
      method.isInitializer = method.declaration.isInitializer) : s'.Marks closure := by
  obtain ⟨c, method, declares, declaration, flag⟩ := binds.of_method
  obtain ⟨receiver, this⟩ := Option.isSome_iff_exists.mp binds.bound
  refine ⟨present_of_bound this, fun _ => ⟨c, method, declares.later later, declaration⟩, ?_⟩
  rw [binds.bound, Bool.and_true, flag, declaration]
  exact methods c method declares

/-- A task that is lodged, and what it calls is marked. -/
structure Task.IsMarked (L : List Lookup) (g : FrameId) (m : Machine) (t : Task) : Prop where
  lodged : t.IsLodged L g m
  called : ∀ closure arguments, t = .callClosure closure arguments → m.store.Marks closure

private theorem Task.IsMarked.begins (good : t.IsMarked L g m) (begins : Begins n m t m' t')
    (marked : m'.store.Marked) : t'.IsMarked L g m' where
  lodged := good.lodged.begins begins
  called := by
    rintro closure arguments rfl
    cases begins with
    | function found => exact marked.functions _ _ found
    | @initializer _ _ c _ _ method _ made found bound =>
      cases made
      cases bound
      have binds := Store.binds_bind found (.instance_ (m.store.addInstance c).1)
      exact binds.marks (.addFrame none _ _ _) marked.methods

private theorem Task.IsMarked.alters (good : t.IsMarked L g m) (alters : t.Alters m s s')
    (marked : s.Marked) : s'.Marked := by
  obtain ⟨near, later⟩ := good.lodged.later alters
  refine ⟨fun f closure found => ?_, fun c method declares => ?_⟩
  · rcases alters.function_new found with old | ⟨d, rfl, rfl, rfl⟩ | binds
    · exact (marked.functions f closure old).later later
    · -- where a function is declared, `this` is bound further out, if at all
      obtain ⟨settled, -, Γ, room, -⟩ := good.lodged
      have here := room.lodged.present settled.root
      have vacant := (later.reserved here notPlain_this).trans (room.vacant _ notPlain_this)
      refine ⟨later.present here, fun bound => ?_, ?_⟩
      · rw [vacant] at bound
        cases bound
      · rw [vacant, Option.isSome_none, Bool.and_false]
    · exact binds.marks later marked.methods
  · rcases alters.method_new declares with old | ⟨name, e, methods, d, -, -, rfl, flag⟩
    · exact marked.methods c method old
    · exact flag

/-- Marks are right wherever well-scoped code comes to. -/
theorem maintains_marked (L : List Lookup) (g : FrameId) :
    Maintains (fun m => m.store.Marked) fun m t => t.IsMarked L g m :=
  .of_store (fun good begins marked => good.begins begins marked)
    fun good alters marked => good.alters alters marked

/-! ### Results -/

/-- What is constructed is a new instance of the class. -/
theorem construct_ok {c : ClassId} {arguments : List Value} {v : Value}
    (done : construct n c arguments m = .ok v m') : ∃ i object, v = .instance_ i ∧
      m.store.instanceAt? i = none ∧ m'.store.instanceAt? i = some object ∧ object.cls = c := by
  cases n with
  | zero => cases done
  | succ n =>
    obtain ⟨i, m₁, made, rest⟩ := bind_ok done
    cases made
    have fresh : m.store.instanceAt? ⟨m.store.instances.size⟩ = none := by simp [Store.instanceAt?]
    have new : (m.store.addInstance c).2.instanceAt? ⟨m.store.instances.size⟩ = some ⟨c, ∅⟩ := by
      simp [Store.instanceAt?, Store.addInstance]
    cases found : (m.store.addInstance c).2.initializer? c with
    | none =>
      rw [bind_of_ok (ask_eq found)] at rest
      cases rest
      exact ⟨_, _, rfl, fresh, new, rfl⟩
    | some method =>
      rw [bind_of_ok (ask_eq found)] at rest
      obtain ⟨closure, m₂, bound, rest⟩ := bind_ok rest
      obtain ⟨_, m₃, called, rest⟩ := bind_ok rest
      cases rest
      cases bound
      -- the instance keeps its class while the initializer runs
      have grown := heap_evolution.of_ok (.callClosure _ arguments) called
      obtain ⟨object, kept, same⟩ := ((Store.Grows.addFrame _ _ _).trans grown).instances new
      exact ⟨_, object, rfl, fresh, kept, same⟩

/-- A call of a class gives a new instance of this class. -/
theorem call_class_ok {c : ClassId} {line : Nat} {arguments : List Value} {v : Value}
    (done : call n (.class_ c) line arguments m = .ok v m') :
    m.store.classArity c = arguments.length ∧ ∃ i object, v = .instance_ i ∧
      m.store.instanceAt? i = none ∧ m'.store.instanceAt? i = some object ∧ object.cls = c := by
  cases n with
  | zero => cases done
  | succ n =>
    by_cases arity : m.store.classArity c = arguments.length
    · rw [call_class_eq arity] at done
      by_cases shallow : m.callDepth < maxCallDepth
      · rw [nested_eq shallow] at done
        cases built : construct n c arguments { m with callDepth := m.callDepth + 1 } with
        | ok value m₁ =>
          rw [built] at done
          cases done
          obtain ⟨i, object, is, fresh, kept, same⟩ := construct_ok built
          exact ⟨arity, i, object, is, fresh, kept, same⟩
        | error halt m₁ =>
          rw [built] at done
          cases done
      · rw [nested_eq_fault shallow] at done
        cases done
    · rw [call, bind_of_ok (ask_eq rfl), checkArity, if_neg arity] at done
      cases done

/-- An initializer that has ended gives what it is bound to. -/
theorem callClosure_initializer {arguments : List Value} {v : Value}
    (lodged : (Task.callClosure closure arguments).IsLodged L g m) (initializer : closure.isInitializer)
    (bound : m.store.IsBound closure receiver) (done : callClosure n closure arguments m = .ok v m') :
    v = receiver := by
  have still : m'.store.IsBound closure receiver :=
    (maintains_isBound L g closure receiver).task_of_ok lodged bound done
  cases n with
  | zero => cases done
  | succ n =>
    obtain ⟨frame, m₁, -, rest⟩ := bind_ok done
    obtain ⟨flow, m₂, -, rest⟩ := bind_ok rest
    unfold callResult at rest
    rw [if_pos initializer] at rest
    cases found : m₂.store.getAt closure.frame 0 Keyword.this.spelling with
    | error cause =>
      rw [read_of_error found] at rest
      cases rest
    | ok value =>
      rw [read_of_ok found] at rest
      cases rest
      -- no link is followed, so the value is the one that the frame itself has
      change m'.store.bound closure.frame Keyword.this.spelling = .ok v at found
      rw [Store.bound, still.this] at found
      cases found
      rfl

end Lox
