import Lox.Proofs.Evaluation.Evolution

/-!
# Growth of the heap

Whatever an evaluation does, the frames, functions, classes and instances that there are stay. A frame keeps
the link to the one that encloses it and every name that is bound in it, a class its superclass and its
methods, and an instance its class.
-/

namespace Lox

/-- What there was is still there: only the values of variables and of fields may have changed. -/
structure Store.Grows (s s' : Store) : Prop where
  frames : ∀ {f frame}, s.frameAt? f = some frame → ∃ frame', s'.frameAt? f = some frame' ∧
    frame'.enclosing = frame.enclosing ∧
    ∀ name, frame.bindings.contains name → frame'.bindings.contains name
  functions : ∀ {f closure}, s.functionAt? f = some closure → s'.functionAt? f = some closure
  classes : ∀ {c cls}, s.classAt? c = some cls → s'.classAt? c = some cls
  instances : ∀ {i object}, s.instanceAt? i = some object →
    ∃ object', s'.instanceAt? i = some object' ∧ object'.cls = object.cls

namespace Store

variable {s s' : Store}

/-- What stands in an array still stands there after something has been added. -/
private theorem getElem?_push_of_some {α : Type} {xs : Array α} {i : Nat} {x : α}
    (found : xs[i]? = some x) (y : α) : (xs.push y)[i]? = some x := by
  have old : i < xs.size := (Array.getElem?_eq_some_iff.mp found).1
  rw [Array.getElem?_push, if_neg (Nat.ne_of_lt old), found]

namespace Grows

theorem refl (s : Store) : s.Grows s where
  frames {_ frame} found := ⟨frame, found, rfl, fun _ bound => bound⟩
  functions := id
  classes := id
  instances {_ object} found := ⟨object, found, rfl⟩

theorem trans {s₁ s₂ s₃ : Store} (first : s₁.Grows s₂) (next : s₂.Grows s₃) : s₁.Grows s₃ where
  frames found := by
    obtain ⟨frame₂, found₂, link₂, kept₂⟩ := first.frames found
    obtain ⟨frame₃, found₃, link₃, kept₃⟩ := next.frames found₂
    exact ⟨frame₃, found₃, link₃.trans link₂, fun name bound => kept₃ name (kept₂ name bound)⟩
  functions found := next.functions (first.functions found)
  classes found := next.classes (first.classes found)
  instances found := by
    obtain ⟨object₂, found₂, same₂⟩ := first.instances found
    obtain ⟨object₃, found₃, same₃⟩ := next.instances found₂
    exact ⟨object₃, found₃, same₃.trans same₂⟩

/-! ### One change -/

theorem define (s : Store) (f : FrameId) (name : String) (value : Value) :
    s.Grows (s.define f name value) :=
  { refl s with
    frames := by
      intro g frame found
      rw [frameAt?_define, found]
      split
      · refine ⟨_, rfl, rfl, fun key bound => ?_⟩
        rw [Table.contains_insert, bound, Bool.or_true]
      · exact ⟨frame, rfl, rfl, fun _ bound => bound⟩ }

theorem addFrame (s : Store) (bindings : Table Value) (enclosing : Option FrameId) :
    s.Grows (s.addFrame bindings enclosing).2 :=
  { refl s with
    frames := fun {_ frame} found =>
      ⟨frame, frameAt?_addFrame_of_some bindings enclosing found, rfl, fun _ bound => bound⟩ }

theorem addFunction (s : Store) (closure : Closure) : s.Grows (s.addFunction closure).2 :=
  { refl s with functions := fun found => getElem?_push_of_some found closure }

theorem addClass (s : Store) (cls : Class) : s.Grows (s.addClass cls).2 :=
  { refl s with classes := fun found => getElem?_push_of_some found cls }

theorem addInstance (s : Store) (c : ClassId) : s.Grows (s.addInstance c).2 :=
  { refl s with
    instances := fun {_ object} found => ⟨object, getElem?_push_of_some found _, rfl⟩ }

theorem setField (s : Store) (i : InstanceId) (name : String) (value : Value) :
    s.Grows (s.setField i name value) :=
  { refl s with
    instances := by
      intro j object found
      simp only [instanceAt?, Store.setField, Array.getElem?_modify] at found ⊢
      rw [found]
      split
      · exact ⟨_, rfl, rfl⟩
      · exact ⟨object, rfl, rfl⟩ }

/-- A store grows with every change that an evaluation makes to it. -/
theorem of_becomes (becomes : s.Becomes s') : s.Grows s' := by
  induction becomes with
  | refl => exact refl s
  | define _ f name value ih => exact ih.trans (define _ f name value)
  | addFrame _ bindings enclosing ih => exact ih.trans (addFrame _ bindings enclosing)
  | addFunction _ closure ih => exact ih.trans (addFunction _ closure)
  | addClass _ cls ih => exact ih.trans (addClass _ cls)
  | addInstance _ c ih => exact ih.trans (addInstance _ c)
  | setField _ i name value ih => exact ih.trans (setField _ i name value)

/-! ### What stays -/

theorem present (grows : s.Grows s') {f : FrameId} (here : (s.frameAt? f).isSome) :
    (s'.frameAt? f).isSome := by
  obtain ⟨frame, found⟩ := Option.isSome_iff_exists.mp here
  obtain ⟨frame', found', -⟩ := grows.frames found
  rw [found']
  rfl

/-- What a class of the store has or inherits never changes. -/
theorem findMethod (grows : s.Grows s') {c : ClassId} {cls : Class} (here : s.classAt? c = some cls)
    (name : String) : s'.findMethod c name = s.findMethod c name := by
  obtain ⟨index⟩ := c
  induction index using Nat.strongRecOn generalizing cls with
  | ind index ih =>
    rw [Store.findMethod, Store.findMethod, here, grows.classes here]
    dsimp only
    split
    · rfl
    · split
      · rfl
      · split
        · rename_i parent _ older
          -- a superclass that is asked is older, and so it is in the store
          have inside : parent.index < s.classes.size :=
            Nat.lt_trans older (Array.getElem?_eq_some_iff.mp here).1
          exact ih parent.index older (Array.getElem?_eq_getElem inside)
        · rfl

end Grows

/-! ### What never changes -/

/-- The classes of the first store are the same in the second one, with the methods that they have or
inherit, and its instances are still of the same classes. -/
structure Stable (s s' : Store) : Prop where
  classes : ∀ c cls, s.classAt? c = some cls → s'.classAt? c = some cls
  methods : ∀ c cls, s.classAt? c = some cls → ∀ name, s'.findMethod c name = s.findMethod c name
  instances : ∀ i object, s.instanceAt? i = some object →
    ∃ object', s'.instanceAt? i = some object' ∧ object'.cls = object.cls

theorem Grows.stable (grows : s.Grows s') : s.Stable s' :=
  ⟨fun _ _ => grows.classes, fun _ _ found name => grows.findMethod found name,
    fun _ _ => grows.instances⟩

end Store

/-- The heap grows in the course of every evaluation. -/
theorem heap_evolution : Evolution fun m m' => m.store.Grows m'.store where
  trans := .trans
  elsewhere := by
    rintro m _ ⟨_, _, rfl⟩
    exact .refl m.store
  store _ _ := .of_becomes
  write m _ := .refl m.store
  readClock m := .refl m.store

end Lox
