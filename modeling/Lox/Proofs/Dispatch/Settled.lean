import Lox.Proofs.Dispatch.Lodging
import Lox.Proofs.Syntax.Numbered

/-!
# Settled stores

A store is settled if all functions and methods that it keeps lodge where their code is well-scoped, if the
methods of a derived class have its superclass at hand, and if no part of the code was closed over one frame
by two classes. Each change that an evaluation makes to a store leaves it settled.
-/

namespace Lox

variable {L : List Lookup} {g : FrameId} {near : Store.Near} {s s' : Store}

/-- A function that can be called: its code lodges in the frame that it closes over. -/
def Callable (L : List Lookup) (g : FrameId) (s : Store) (closure : Closure) : Prop :=
  closure.declaration.ids.Nodup ∧
    ∃ Γ, Lodged s g closure.declaration.ids closure.frame Γ ∧ closure.declaration.Scoped L Γ

/-- A method that can be bound: its code lodges there once `this` is at hand. -/
def Bindable (L : List Lookup) (g : FrameId) (s : Store) (method : Closure) : Prop :=
  method.declaration.ids.Nodup ∧
    ∃ Γ, Lodged s g method.declaration.ids method.frame Γ ∧
      method.declaration.Scoped L (Scope.of [Keyword.this.spelling] :: Γ)

/-- No class has closed any part of the code over the frame. -/
def Store.Unused (s : Store) (f : FrameId) (ids : List NodeId) : Prop :=
  ∀ c method, s.Declares c method → method.frame = f → ∀ i ∈ ids, i ∉ method.declaration.ids

/-- A frame that code with declarations runs in: no reserved name is bound in it, and no part of the code
has been closed over it. -/
structure Room (g : FrameId) (s : Store) (f : FrameId) (ids : List NodeId) (Γ : Scopes) : Prop where
  lodged : Lodged s g ids f Γ
  vacant : ∀ x, ¬ IsPlain x → s.binding? f x = none
  distinct : ids.Nodup
  unused : s.Unused f ids

structure Settled (L : List Lookup) (g : FrameId) (s : Store) : Prop where
  root : (s.frameAt? g).isSome
  back : s.LinksBack
  functions : ∀ f closure, s.functionAt? f = some closure → Callable L g s closure
  methods : ∀ c method, s.Declares c method → Bindable L g s method
  /-- The methods of a derived class, and no others, are closed over a frame with the superclass. -/
  super : ∀ c method, s.Declares c method →
    s.binding? method.frame Keyword.super.spelling = (s.superclass? c).map .class_
  /-- The frame and any node tell the class apart. -/
  unique : ∀ c c' method method', s.Declares c method → s.Declares c' method' →
    method.frame = method'.frame → ∀ i ∈ method.declaration.ids, i ∈ method'.declaration.ids → c = c'

/-! ### Growth -/

theorem Callable.later {closure : Closure} (callable : Callable L g s closure)
    (root : (s.frameAt? g).isSome) (later : s.Later near s') : Callable L g s' closure := by
  obtain ⟨distinct, Γ, lodged, code⟩ := callable
  exact ⟨distinct, Γ, lodged.later root later, code⟩

theorem Bindable.later {method : Closure} (bindable : Bindable L g s method)
    (root : (s.frameAt? g).isSome) (later : s.Later near s') : Bindable L g s' method := by
  obtain ⟨distinct, Γ, lodged, code⟩ := bindable
  exact ⟨distinct, Γ, lodged.later root later, code⟩

/-- Code that was unused stays so where nothing comes to be closed over. -/
theorem Store.Unused.later {f : FrameId} {ids : List NodeId} (unused : s.Unused f ids)
    (here : (s.frameAt? f).isSome) (later : s.Later near s')
    (apart : ∀ ids', near = some (f, ids') → ∀ i ∈ ids, i ∉ ids') : s'.Unused f ids := by
  intro c method declares upon i member
  rcases later.methods declares with old | fresh | ⟨_, ids', close, rfl, among⟩
  · exact unused c method old upon i member
  · -- the frame was there, so it is not new
    have inside : f.index < s.frames.size := by simpa [frameAt?] using here
    exact absurd (upon ▸ fresh) (Nat.not_le.mpr inside)
  · subst upon
    exact fun inside => apart ids' close i member (among inside)

theorem Store.Unused.part {f : FrameId} {ids ids' : List NodeId} (unused : s.Unused f ids)
    (among : ids' ⊆ ids) : s.Unused f ids' :=
  fun c method declares upon i member => unused c method declares upon i (among member)

/-- What a new frame binds. -/
theorem Store.binding?_addFrame_self (s : Store) (bindings : Table Value)
    (enclosing : Option FrameId) (name : String) :
    (s.addFrame bindings enclosing).2.binding? (s.addFrame bindings enclosing).1 name =
      bindings.get? name := by
  rw [binding?, frameAt?_addFrame_self]
  rfl

/-- What a new frame links to. -/
theorem Store.enclosing?_addFrame_self (s : Store) (bindings : Table Value)
    (enclosing : Option FrameId) :
    (s.addFrame bindings enclosing).2.enclosing? (s.addFrame bindings enclosing).1 = enclosing := by
  rw [enclosing?, frameAt?_addFrame_self]
  rfl

namespace Room

variable {f : FrameId} {ids ids' : List NodeId} {Γ : Scopes}

theorem part (room : Room g s f ids Γ) (among : ids'.Sublist ids) : Room g s f ids' Γ :=
  ⟨room.lodged.part among.subset, room.vacant, room.distinct.sublist among,
    room.unused.part among.subset⟩

/-- There is room as long as what comes to be closed over the frame is other code. -/
theorem later (room : Room g s f ids Γ) (root : (s.frameAt? g).isSome)
    (later : s.Later near s') (apart : ∀ ids', near = some (f, ids') → ∀ i ∈ ids, i ∉ ids') :
    Room g s' f ids Γ := by
  have here := room.lodged.present root
  refine ⟨room.lodged.later root later, fun x notPlain => ?_, room.distinct,
    room.unused.later here later apart⟩
  exact (later.reserved here notPlain).trans (room.vacant x notPlain)

theorem after (room : Room g s f ids Γ) {stmt : Stmt}
    (plain : ∀ name ∈ stmt.declared?, IsPlain name) : Room g s f ids (stmt.after Γ) :=
  { room with lodged := room.lodged.after plain }

end Room

namespace Settled

/-- More look-ups do no harm. -/
theorem more {L' : List Lookup} (settled : Settled L g s) (more : ∀ l ∈ L, l ∈ L') :
    Settled L' g s :=
  { settled with
    functions := fun f closure found => by
      obtain ⟨distinct, Γ, lodged, code⟩ := settled.functions f closure found
      exact ⟨distinct, Γ, lodged, FunctionDecl.Scoped.mono more _ code⟩
    methods := fun c method declares => by
      obtain ⟨distinct, Γ, lodged, code⟩ := settled.methods c method declares
      exact ⟨distinct, Γ, lodged, FunctionDecl.Scoped.mono more _ code⟩ }

/-- The frame that a method closes over is there. -/
theorem present {c : ClassId} {method : Closure} (settled : Settled L g s)
    (declares : s.Declares c method) : (s.frameAt? method.frame).isSome := by
  obtain ⟨-, Γ, lodged, -⟩ := settled.methods c method declares
  exact lodged.present settled.root

/-- A store stays settled while no class is added, if the new functions can be called. -/
theorem grow (settled : Settled L g s) (later : s.Later near s') (back : s'.LinksBack)
    (functions : ∀ f closure, s'.functionAt? f = some closure →
      s.functionAt? f = some closure ∨ Callable L g s' closure)
    (classes : s'.classes = s.classes) : Settled L g s' := by
  have declared {c : ClassId} {method : Closure} (declares : s'.Declares c method) :
      s.Declares c method := by
    obtain ⟨cls, name, found, has⟩ := declares
    exact ⟨cls, name, by rwa [Store.classAt?, classes] at found, has⟩
  refine ⟨later.present settled.root, back, fun f closure found => ?_, fun c method declares => ?_,
    fun c method declares => ?_, fun c c' method method' declares declares' => ?_⟩
  · rcases functions f closure found with old | new
    · exact (settled.functions f closure old).later settled.root later
    · exact new
  · exact (settled.methods c method (declared declares)).later settled.root later
  · have declares := declared declares
    rw [later.reserved (settled.present declares) notPlain_super, settled.super c method declares,
      Store.superclass?, Store.superclass?, Store.classAt?, Store.classAt?, classes]
  · exact settled.unique c c' method method' (declared declares) (declared declares')

/-! ### Frames -/

theorem define (settled : Settled L g s) (f : FrameId) {name : String} (plain : IsPlain name)
    (value : Value) : Settled L g (s.define f name value) := by
  refine settled.grow (.define none s f plain value) (fun f' outer link => ?_)
    (fun _ _ found => .inl found) rfl
  rw [Store.enclosing?_define] at link
  exact settled.back f' outer link

theorem addFrame (settled : Settled L g s) (bindings : Table Value) {outer : FrameId}
    (here : (s.frameAt? outer).isSome) : Settled L g (s.addFrame bindings (some outer)).2 := by
  refine settled.grow (.addFrame none s bindings (some outer)) (fun f outer' link => ?_)
    (fun _ _ found => .inl found) rfl
  obtain ⟨frame, found, link⟩ := Option.bind_eq_some_iff.mp link
  simp only [Store.addFrame, Store.frameAt?, Array.getElem?_push] at found
  split at found
  · rename_i last
    cases found
    cases link
    -- the new frame is the last one
    rw [last]
    simpa [Store.frameAt?] using here
  · exact settled.back f outer' (Option.bind_eq_some_iff.mpr ⟨frame, found, link⟩)

theorem addInstance (settled : Settled L g s) (c : ClassId) :
    Settled L g (s.addInstance c).2 :=
  settled.grow (.addInstance none s c) settled.back (fun _ _ found => .inl found) rfl

theorem setField (settled : Settled L g s) (i : InstanceId) (name : String) (value : Value) :
    Settled L g (s.setField i name value) :=
  settled.grow (.setField none s i name value) settled.back (fun _ _ found => .inl found) rfl

/-! ### Functions and methods -/

theorem addFunction (settled : Settled L g s) {closure : Closure}
    (callable : Callable L g s closure) : Settled L g (s.addFunction closure).2 := by
  have later := Store.Later.addFunction none s closure
  refine settled.grow later settled.back (fun f other found => ?_) rfl
  rw [Store.functionAt?, Store.addFunction, Array.getElem?_push] at found
  split at found
  · cases found
    exact .inr (callable.later settled.root later)
  · exact .inl found

/-- Nothing has been closed over a new frame yet. -/
theorem unused_addFrame (settled : Settled L g s) (bindings : Table Value)
    (enclosing : Option FrameId) (ids : List NodeId) :
    (s.addFrame bindings enclosing).2.Unused (s.addFrame bindings enclosing).1 ids := by
  intro c method declares upon
  have old : s.Declares c method := declares
  have inside : method.frame.index < s.frames.size := by
    simpa [Store.frameAt?] using settled.present old
  rw [upon] at inside
  exact absurd inside (Nat.lt_irrefl _)

/-- A new frame for a block or a call has room for its code. -/
theorem room (settled : Settled L g s) {outer : FrameId} {ids : List NodeId} {Γ : Scopes}
    (lodged : Lodged s g ids outer Γ) (distinct : ids.Nodup) {bindings : Table Value}
    (vacant : ∀ x, ¬ IsPlain x → bindings.get? x = none) {scope : Scope}
    (plain : ∀ x, ¬ IsPlain x → scope.get? x = none) :
    Room g (s.addFrame bindings (some outer)).2 (s.addFrame bindings (some outer)).1 ids
      (scope :: Γ) := by
  have later := Store.Later.addFrame none s bindings (some outer)
  have unbound (x : String) (notPlain : ¬ IsPlain x) :=
    (s.binding?_addFrame_self bindings (some outer) x).trans (vacant x notPlain)
  exact ⟨.inner (s.enclosing?_addFrame_self bindings _) (lodged.later settled.root later) plain unbound,
    unbound, distinct, settled.unused_addFrame bindings _ ids⟩

/-- A method that is declared by the class of an instance, or by one above it, can be called once it is
bound to the instance. -/
theorem bind (settled : Settled L g s) {c : ClassId} {method : Closure} {i : InstanceId}
    (declares : s.Declares c method) (isA : s.IsA i c) :
    s.Later none (s.bind method (.instance_ i)).2 ∧
      Settled L g (s.bind method (.instance_ i)).2 ∧
      Callable L g (s.bind method (.instance_ i)).2 (s.bind method (.instance_ i)).1 := by
  let bindings : Table Value := Table.insert ∅ Keyword.this.spelling (.instance_ i)
  have later := Store.Later.addFrame none s bindings (some method.frame)
  obtain ⟨distinct, Γ, lodged, code⟩ := settled.methods c method declares
  refine ⟨later, settled.addFrame bindings (settled.present declares), distinct, _, ?_, code⟩
  refine .receiver (s.enclosing?_addFrame_self bindings _) (lodged.later settled.root later) rfl rfl ?_
    (declares.later later) (List.Subset.refl _) (isA.later later)
  exact (s.binding?_addFrame_self bindings (some method.frame) _).trans (Table.get?_insert_self _ _ _)

end Settled

/-! ### Classes -/

theorem ids_subset_methodIds {methods : List FunctionDecl} {d : FunctionDecl}
    (member : d ∈ methods) : d.ids ⊆ methodIds methods := by
  rw [methodIds_eq_flatMap]
  exact fun i inside => List.mem_flatMap.mpr ⟨d, member, inside⟩

theorem nodup_of_methodIds {methods : List FunctionDecl} {d : FunctionDecl} (member : d ∈ methods)
    (distinct : (methodIds methods).Nodup) : d.ids.Nodup := by
  induction methods with
  | nil => cases member
  | cons first rest ih =>
    obtain ⟨here, others, -⟩ := List.nodup_append.mp distinct
    rcases List.mem_cons.mp member with rfl | member
    · exact here
    · exact ih member others

/-- A class that is added declares its methods, and what was declared before still is. -/
theorem Store.declares_addClass {cls : Class} {c : ClassId} {method : Closure}
    (declares : (s.addClass cls).2.Declares c method) :
    s.Declares c method ∨ c = ⟨s.classes.size⟩ ∧ ∃ name, cls.methods.get? name = some method := by
  obtain ⟨other, name, found, has⟩ := declares
  rw [classAt?, Store.addClass, Array.getElem?_push] at found
  split at found
  · rename_i last
    cases found
    exact .inr ⟨congrArg ClassId.mk last, name, has⟩
  · exact .inl ⟨other, name, found, has⟩

theorem Store.classAt?_addClass (s : Store) (cls : Class) :
    (s.addClass cls).2.classAt? ⟨s.classes.size⟩ = some cls := by
  simp [classAt?, Store.addClass]

theorem Store.Later.addClass {cls : Class} {frame : FrameId} {methods : List FunctionDecl}
    (table : cls.methods = methodTable frame methods) :
    s.Later (some (frame, methodIds methods)) (s.addClass cls).2 where
  size := Nat.le_refl _
  links := id
  reserved := fun _ _ => rfl
  classes := fun {c other} found => by
    have old : c.index < s.classes.size := (Array.getElem?_eq_some_iff.mp found).1
    simp only [Store.addClass, classAt?, Array.getElem?_push, Nat.ne_of_lt old, if_false]
    exact found
  instances := fun {_ object} found => ⟨object, found, rfl⟩
  methods := fun declares => by
    rcases declares_addClass declares with old | ⟨rfl, name, has⟩
    · exact .inl old
    · rw [table] at has
      obtain ⟨d, member, rfl⟩ := methodTable_all frame methods name _ has
      exact .inr (.inr ⟨frame, _, rfl, rfl, ids_subset_methodIds member⟩)

/-- A class can be added whose methods lodge in a frame with its superclass, or in one without if it has
none. -/
theorem Settled.addClass (settled : Settled L g s) {name : String} {superclass : Option ClassId}
    {frame : FrameId} {methods : List FunctionDecl} {Γ : Scopes}
    (lodged : Lodged s g (methodIds methods) frame Γ)
    (code : methodsScoped L (Scope.of [Keyword.this.spelling] :: Γ) methods)
    (distinct : (methodIds methods).Nodup)
    (super : s.binding? frame Keyword.super.spelling = superclass.map .class_)
    (unused : s.Unused frame (methodIds methods)) :
    Settled L g (s.addClass ⟨name, superclass, methodTable frame methods⟩).2 := by
  have later : s.Later (some (frame, methodIds methods))
      (s.addClass ⟨name, superclass, methodTable frame methods⟩).2 := .addClass rfl
  have linked := s.classAt?_addClass ⟨name, superclass, methodTable frame methods⟩
  -- a method is an old one or one of the new class
  have new {c : ClassId} {method : Closure}
      (declares : (s.addClass ⟨name, superclass, methodTable frame methods⟩).2.Declares c method) :
      s.Declares c method ∨ c = ⟨s.classes.size⟩ ∧ method.frame = frame ∧
        ∃ d ∈ methods, method.declaration = d := by
    rcases Store.declares_addClass declares with old | ⟨here, x, has⟩
    · exact .inl old
    · obtain ⟨d, member, rfl⟩ := methodTable_all frame methods x _ has
      exact .inr ⟨here, rfl, d, member, rfl⟩
  refine ⟨later.present settled.root, settled.back, fun f closure found => ?_,
    fun c method declares => ?_, fun c method declares => ?_,
    fun c c' method method' declares declares' same i inside inside' => ?_⟩
  · exact (settled.functions f closure found).later settled.root later
  · rcases new declares with old | ⟨-, upon, d, member, is⟩
    · exact (settled.methods c method old).later settled.root later
    · subst is
      refine ⟨nodup_of_methodIds member distinct, Γ, ?_, (methodsScoped_iff L _ methods).mp code _ member⟩
      rw [upon]
      exact (lodged.part (ids_subset_methodIds member)).later settled.root later
  · rcases new declares with old | ⟨rfl, upon, -⟩
    · obtain ⟨cls, x, found, has⟩ := old
      have same : s.superclass? c =
          (s.addClass ⟨name, superclass, methodTable frame methods⟩).2.superclass? c := by
        rw [Store.superclass?, Store.superclass?, found, later.classes found]
      rw [← same]
      exact settled.super c method ⟨cls, x, found, has⟩
    · rw [upon, Store.superclass?, linked]
      exact super
  · rcases new declares with old | ⟨rfl, upon, d, member, rfl⟩ <;>
      rcases new declares' with old' | ⟨rfl, upon', d', member', rfl⟩
    · exact settled.unique c c' method method' old old' same i inside inside'
    · -- the part would have been closed over the frame before
      exact absurd inside (unused c method old (same.trans upon') i
        (ids_subset_methodIds member' inside'))
    · exact absurd inside' (unused c' method' old' (same.symm.trans upon) i
        (ids_subset_methodIds member inside))
    · rfl

end Lox
