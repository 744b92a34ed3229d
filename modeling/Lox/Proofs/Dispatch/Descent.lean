import Lox.Proofs.Evaluation.Relining
import Lox.Proofs.Syntax.WellFormed

/-!
# Classes and what becomes of them

Which methods a class has of its own, which classes stand above it, and what an evaluation does to a store
as far as they go: classes stay as they were declared, instances keep their class, links between frames
stay, and `this` and `super` stay bound to what they were bound to.
-/

namespace Lox

namespace Store

/-- The class has the method of its own. -/
def Declares (s : Store) (c : ClassId) (method : Closure) : Prop :=
  ∃ cls name, s.classAt? c = some cls ∧ cls.methods.get? name = some method

/-- The class is the other one or has it on its superclass chain. -/
inductive Descends (s : Store) : ClassId → ClassId → Prop
  | refl (c : ClassId) : Descends s c c
  | step {c parent c' : ClassId} (up : s.superclass? c = some parent)
      (further : Descends s parent c') : Descends s c c'

theorem Descends.trans {s : Store} {c₁ c₂ c₃ : ClassId} (first : s.Descends c₁ c₂)
    (next : s.Descends c₂ c₃) : s.Descends c₁ c₃ := by
  induction first with
  | refl c => exact next
  | step up _ ih => exact .step up (ih next)

/-- The instance is one of the class or of a class below it. -/
def IsA (s : Store) (i : InstanceId) (c : ClassId) : Prop :=
  ∃ object, s.instanceAt? i = some object ∧ s.Descends object.cls c

/-- A method that is found for a class is declared by the class or by one above it. -/
theorem declares_of_findMethod {s : Store} {c : ClassId} {name : String} {method : Closure}
    (found : s.findMethod c name = some method) : ∃ c', s.Descends c c' ∧ s.Declares c' method := by
  obtain ⟨index⟩ := c
  induction index using Nat.strongRecOn with
  | ind index ih =>
    rw [findMethod] at found
    split at found
    · cases found
    · rename_i cls present
      split at found
      · rename_i own has
        cases found
        exact ⟨_, .refl _, cls, name, present, has⟩
      · split at found
        · cases found
        · rename_i parent link
          split at found
          · rename_i older
            obtain ⟨c', descends, declares⟩ := ih parent.index older found
            have up : s.superclass? ⟨index⟩ = some parent := by
              rw [superclass?, present]
              exact link
            exact ⟨c', .step up descends, declares⟩
          · cases found

/-! ### Growth -/

/-- Where methods may come to be closed over, other than frames that are new: the methods with the given
identities may be over the given frame. -/
abbrev Near := Option (FrameId × List NodeId)

/-- What an evaluation does to a store, as far as classes and the two reserved names go. -/
structure Later (near : Near) (s s' : Store) : Prop where
  size : s.frames.size ≤ s'.frames.size
  links : ∀ {f outer}, s.enclosing? f = some outer → s'.enclosing? f = some outer
  /-- Reserved names are bound only in new frames, and keep their value. -/
  reserved : ∀ {f name}, (s.frameAt? f).isSome → ¬ IsPlain name →
    s'.binding? f name = s.binding? f name
  classes : ∀ {c cls}, s.classAt? c = some cls → s'.classAt? c = some cls
  instances : ∀ {i object}, s.instanceAt? i = some object →
    ∃ object', s'.instanceAt? i = some object' ∧ object'.cls = object.cls
  methods : ∀ {c method}, s'.Declares c method → s.Declares c method ∨
    s.frames.size ≤ method.frame.index ∨
    ∃ f ids, near = some (f, ids) ∧ method.frame = f ∧ method.declaration.ids ⊆ ids

namespace Later

variable {near near' : Near} {s s₁ s₂ : Store}

theorem present {f : FrameId} (later : Later near s s₁) (here : (s.frameAt? f).isSome) :
    (s₁.frameAt? f).isSome := by
  have inside : f.index < s.frames.size := by simpa [frameAt?] using here
  simpa [frameAt?] using Nat.lt_of_lt_of_le inside later.size

/-- What happens near one frame after another: the second frame may be new, and what comes to be closed
over it may be less. -/
theorem trans_of (first : Later near s s₁) (next : Later near' s₁ s₂)
    (close : ∀ f ids, near' = some (f, ids) → s.frames.size ≤ f.index ∨
      ∃ ids', near = some (f, ids') ∧ ids ⊆ ids') : Later near s s₂ where
  size := Nat.le_trans first.size next.size
  links := fun link => next.links (first.links link)
  reserved := fun here notPlain =>
    (next.reserved (first.present here) notPlain).trans (first.reserved here notPlain)
  classes := fun found => next.classes (first.classes found)
  instances := fun found => by
    obtain ⟨object₁, found₁, same₁⟩ := first.instances found
    obtain ⟨object₂, found₂, same₂⟩ := next.instances found₁
    exact ⟨object₂, found₂, same₂.trans same₁⟩
  methods := fun declares => by
    rcases next.methods declares with old | fresh | ⟨f, ids, here, rfl, among⟩
    · exact first.methods old
    · exact .inr (.inl (Nat.le_trans first.size fresh))
    · rcases close _ ids here with fresh | ⟨ids', here', more⟩
      · exact .inr (.inl fresh)
      · exact .inr (.inr ⟨_, ids', here', rfl, List.Subset.trans among more⟩)

theorem trans (first : Later near s s₁) (next : Later near s₁ s₂) : Later near s s₂ :=
  first.trans_of next fun _ ids same => .inr ⟨ids, same, List.Subset.refl ids⟩

/-- Frames and instances change, but no class is added. -/
theorem of_classes (near : Near) (classes : s₁.classes = s.classes)
    (size : s.frames.size ≤ s₁.frames.size)
    (links : ∀ {f outer}, s.enclosing? f = some outer → s₁.enclosing? f = some outer)
    (reserved : ∀ {f name}, (s.frameAt? f).isSome → ¬ IsPlain name →
      s₁.binding? f name = s.binding? f name)
    (instances : ∀ {i object}, s.instanceAt? i = some object →
      ∃ object', s₁.instanceAt? i = some object' ∧ object'.cls = object.cls) :
    Later near s s₁ where
  size := size
  links := links
  reserved := reserved
  classes := fun found => by rwa [classAt?, classes]
  instances := instances
  methods := fun ⟨cls, name, found, has⟩ =>
    .inl ⟨cls, name, by rwa [classAt?, classes] at found, has⟩

theorem refl (near : Near) (s : Store) : Later near s s :=
  .of_classes near rfl (Nat.le_refl _) id (fun _ _ => rfl) fun {_ object} found =>
    ⟨object, found, rfl⟩

/-- What happens apart from every old frame happens near any frame. -/
theorem weaken (later : Later none s s₁) (near : Near) : Later near s s₁ :=
  (refl near s).trans_of later nofun

/-! ### Steps -/

theorem define (near : Near) (s : Store) (f : FrameId) {name : String} (plain : IsPlain name)
    (value : Value) : Later near s (s.define f name value) := by
  refine .of_classes near rfl (Nat.le_of_eq ?_) (fun link => ?_) (fun {_ key} _ notPlain => ?_)
    fun {_ object} found => ⟨object, found, rfl⟩
  · simp [Store.define]
  · rwa [enclosing?_define]
  · -- a reserved name is another one than the name that is bound
    have distinct : name ≠ key := fun same => notPlain (same ▸ plain)
    rw [binding?, frameAt?_define, binding?]
    split
    · cases s.frameAt? _ with
      | none => rfl
      | some frame => exact Table.get?_insert_of_ne frame.bindings value distinct
    · rfl

theorem addFrame (near : Near) (s : Store) (bindings : Table Value)
    (enclosing : Option FrameId) : Later near s (s.addFrame bindings enclosing).2 := by
  have kept {f : FrameId} {frame : Frame} (found : s.frameAt? f = some frame) :
      (s.addFrame bindings enclosing).2.frameAt? f = some frame :=
    frameAt?_addFrame_of_some bindings enclosing found
  refine .of_classes near rfl ?_ (fun {f outer} link => ?_) (fun {f name} here _ => ?_)
    fun {_ object} found => ⟨object, found, rfl⟩
  · simp [Store.addFrame]
  · obtain ⟨frame, found, link⟩ := Option.bind_eq_some_iff.mp link
    rw [enclosing?, kept found]
    exact link
  · obtain ⟨frame, found⟩ := Option.isSome_iff_exists.mp here
    rw [binding?, binding?, kept found, found]

theorem addFunction (near : Near) (s : Store) (closure : Closure) :
    Later near s (s.addFunction closure).2 :=
  .of_classes near rfl (Nat.le_refl _) id (fun _ _ => rfl) fun {_ object} found =>
    ⟨object, found, rfl⟩

theorem addInstance (near : Near) (s : Store) (c : ClassId) :
    Later near s (s.addInstance c).2 := by
  refine .of_classes near rfl (Nat.le_refl _) id (fun _ _ => rfl) fun {i object} found =>
    ⟨object, ?_, rfl⟩
  have old : i.index < s.instances.size := (Array.getElem?_eq_some_iff.mp found).1
  simp only [Store.addInstance, instanceAt?, Array.getElem?_push, Nat.ne_of_lt old, if_false]
  exact found

theorem setField (near : Near) (s : Store) (i : InstanceId) (name : String) (value : Value) :
    Later near s (s.setField i name value) := by
  refine .of_classes near rfl (Nat.le_refl _) id (fun _ _ => rfl) fun {j object} found => ?_
  simp only [instanceAt?, Store.setField, Array.getElem?_modify] at found ⊢
  rw [found]
  split
  · exact ⟨_, rfl, rfl⟩
  · exact ⟨_, rfl, rfl⟩

end Later

/-! ### What growth keeps -/

section

variable {near : Near} {s s' : Store} {c c' : ClassId}

theorem superclass?_later (later : Later near s s') {parent : ClassId}
    (up : s.superclass? c = some parent) : s'.superclass? c = some parent := by
  obtain ⟨cls, found, link⟩ := Option.bind_eq_some_iff.mp up
  rw [superclass?, later.classes found]
  exact link

theorem Declares.later {method : Closure} (later : Later near s s')
    (declares : s.Declares c method) : s'.Declares c method := by
  obtain ⟨cls, name, found, has⟩ := declares
  exact ⟨cls, name, later.classes found, has⟩

theorem Descends.later (later : Later near s s') (descends : s.Descends c c') :
    s'.Descends c c' := by
  induction descends with
  | refl c => exact .refl c
  | step up _ ih => exact .step (superclass?_later later up) ih

theorem IsA.later {i : InstanceId} (later : Later near s s') (isA : s.IsA i c) :
    s'.IsA i c := by
  obtain ⟨object, found, descends⟩ := isA
  obtain ⟨object', found', same⟩ := later.instances found
  exact ⟨object', found', same ▸ descends.later later⟩

end

end Store

end Lox
