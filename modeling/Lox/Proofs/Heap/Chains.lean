import Lox.Proofs.Heap.Grounded

/-!
# Chains of links

In a grounded store every chain of links comes to an end: that of frames in the global frame, and that of
classes in a class without a superclass. What is looked up along a chain is the first that there is, so no
look-up leaves the chain early for fear of a circle.
-/

namespace Lox

/-- Following the links from an element on comes to these elements, and ends with the last of them. -/
inductive Chain {α : Type} (next : α → Option α) : α → List α → Prop
  | last {a : α} (stop : next a = none) : Chain next a [a]
  | link {a b : α} {rest : List α} (step : next a = some b) (further : Chain next b rest) :
    Chain next a (a :: rest)

/-- A chain is told by where it starts. -/
theorem Chain.unique {α : Type} {next : α → Option α} {a : α} {xs ys : List α} (chain : Chain next a xs)
    (chain' : Chain next a ys) : xs = ys := by
  induction chain generalizing ys with
  | last stop =>
    cases chain' with
    | last => rfl
    | link step => cases stop.symm.trans step
  | link step _ ih =>
    cases chain' with
    | last stop => cases stop.symm.trans step
    | link step' further =>
      cases step.symm.trans step'
      rw [ih further]

namespace Store

variable {s : Store} {g : FrameId}

/-- The method that a class itself has under a name. -/
def ownMethod? (s : Store) (c : ClassId) (name : String) : Option Closure :=
  (s.classAt? c).bind (·.methods.get? name)

/-! ### Links to older frames -/

/-- A frame only links to an older one, so that links do not go in circles. -/
def LinksBack (s : Store) : Prop := ∀ f outer, s.enclosing? f = some outer → outer.index < f.index

/-- The links from a frame come to an end, by induction on the age of the frame. -/
theorem LinksBack.exists_chain (back : s.LinksBack) (f : FrameId) : ∃ fs, Chain s.enclosing? f fs := by
  obtain ⟨index⟩ := f
  induction index using Nat.strongRecOn with
  | ind index ih =>
    cases link : s.enclosing? ⟨index⟩ with
    | none => exact ⟨[_], .last link⟩
    | some outer =>
      obtain ⟨fs, chain⟩ := ih outer.index (back _ _ link)
      exact ⟨_ :: fs, .link link chain⟩

theorem holder?_of_bound {f : FrameId} {name : String} {value : Value}
    (bound : s.binding? f name = some value) : s.holder? f name = some f := by
  obtain ⟨frame, found, has⟩ := Option.bind_eq_some_iff.mp bound
  rw [holder?, found]
  simp [Table.contains, has]

theorem holder?_of_vacant {name : String} {f outer : FrameId} (back : s.LinksBack)
    (link : s.enclosing? f = some outer) (vacant : s.binding? f name = none) :
    s.holder? f name = s.holder? outer name := by
  obtain ⟨frame, found, encloses⟩ := Option.bind_eq_some_iff.mp link
  have missing : frame.bindings.get? name = none := by
    rw [binding?, found] at vacant
    exact vacant
  rw [holder?, found]
  simp [Table.contains, missing, encloses, back f outer link]

/-- A name is held by the first frame of the chain that binds it. -/
theorem LinksBack.holder?_eq_find? (back : s.LinksBack) {f : FrameId} {fs : List FrameId}
    (chain : Chain s.enclosing? f fs) (name : String) :
    s.holder? f name = fs.find? fun f => (s.binding? f name).isSome := by
  induction chain with
  | @last f stop =>
    rw [holder?, List.find?_singleton, binding?]
    cases found : s.frameAt? f with
    | none => rfl
    | some frame =>
      have link : frame.enclosing = none := by
        rw [enclosing?, found] at stop
        exact stop
      dsimp only
      rw [link]
      rfl
  | @link f outer rest step _ ih =>
    rw [List.find?_cons]
    cases bound : s.binding? f name with
    | some value => exact holder?_of_bound bound
    | none => exact (holder?_of_vacant back step bound).trans ih

namespace Grounded

variable (grounded : s.Grounded g)

include grounded

/-! ### Frames -/

/-- A frame that is there is the global one or links to an older one, which is there. -/
theorem frame_cases {f : FrameId} (has : s.Has f) :
    f = g ∧ s.enclosing? f = none ∨
      ∃ outer, s.enclosing? f = some outer ∧ outer.index < f.index ∧ s.Has outer := by
  obtain ⟨frame, found⟩ := Option.isSome_iff_exists.mp has
  by_cases same : f = g
  · subst same
    obtain ⟨frame', found', root⟩ := GroundedIn.root grounded
    exact .inl ⟨rfl, Option.bind_eq_none_iff.mpr fun _ present => by
      cases found'.symm.trans present
      exact root⟩
  · obtain ⟨outer, link, older⟩ := GroundedIn.links grounded found same
    refine .inr ⟨outer, Option.bind_eq_some_iff.mpr ⟨frame, found, link⟩, older, ?_⟩
    -- what is older than a frame of the store is in the store
    have inside := Nat.lt_trans older (Array.getElem?_eq_some_iff.mp found).1
    exact Option.isSome_of_eq_some (Array.getElem?_eq_getElem inside)

theorem linksBack : s.LinksBack := by
  intro f outer step
  obtain ⟨frame, found, -⟩ := Option.bind_eq_some_iff.mp step
  rcases grounded.frame_cases (Option.isSome_of_eq_some found) with ⟨-, stop⟩ | ⟨outer', step', older, -⟩
  · cases stop.symm.trans step
  · cases step'.symm.trans step
    exact older

/-- The links from a frame lead to the global frame, by induction on the age of the frame. -/
theorem frame_chain {f : FrameId} (has : s.Has f) :
    ∃ fs, Chain s.enclosing? f fs ∧ fs.getLast? = some g := by
  obtain ⟨index⟩ := f
  induction index using Nat.strongRecOn with
  | ind index ih =>
    rcases grounded.frame_cases has with ⟨rfl, stop⟩ | ⟨outer, link, older, has'⟩
    · exact ⟨[_], .last stop, rfl⟩
    · obtain ⟨fs, chain, ends⟩ := ih outer.index older has'
      refine ⟨_ :: fs, .link link chain, ?_⟩
      rw [List.getLast?_cons, ends]
      rfl

/-! ### Classes -/

/-- The superclass of a class is older and there. -/
theorem superclass_older {c parent : ClassId} (up : s.superclass? c = some parent) :
    parent.index < c.index ∧ (s.classAt? parent).isSome := by
  obtain ⟨cls, found, link⟩ := Option.bind_eq_some_iff.mp up
  have older := GroundedIn.superclasses grounded found parent link
  have inside := Nat.lt_trans older (Array.getElem?_eq_some_iff.mp found).1
  exact ⟨older, Option.isSome_of_eq_some (Array.getElem?_eq_getElem inside)⟩

/-- The superclasses of a class come to an end, by induction on the age of the class. -/
theorem class_chain (c : ClassId) : ∃ cs, Chain s.superclass? c cs := by
  obtain ⟨index⟩ := c
  induction index using Nat.strongRecOn with
  | ind index ih =>
    cases up : s.superclass? ⟨index⟩ with
    | none => exact ⟨[_], .last up⟩
    | some parent =>
      obtain ⟨cs, chain⟩ := ih parent.index (grounded.superclass_older up).1
      exact ⟨_ :: cs, .link up chain⟩

/-- What a class has or inherits is what the first class of the chain has of its own. -/
theorem findMethod_eq_findSome? {c : ClassId} {cs : List ClassId} (here : (s.classAt? c).isSome)
    (chain : Chain s.superclass? c cs) (name : String) :
    s.findMethod c name = cs.findSome? (s.ownMethod? · name) := by
  induction chain with
  | @last c stop =>
    obtain ⟨cls, found⟩ := Option.isSome_iff_exists.mp here
    have link : cls.superclass = none := by
      rw [superclass?, found] at stop
      exact stop
    rw [Store.findMethod, found]
    dsimp only
    rw [link, List.findSome?_cons, ownMethod?, found]
    dsimp only [Option.bind_some]
    cases cls.methods.get? name <;> rfl
  | @link c parent rest step _ ih =>
    obtain ⟨cls, found⟩ := Option.isSome_iff_exists.mp here
    have link : cls.superclass = some parent := by
      rw [superclass?, found] at step
      exact step
    obtain ⟨older, here'⟩ := grounded.superclass_older step
    rw [Store.findMethod, found]
    dsimp only
    rw [link, List.findSome?_cons, ownMethod?, found]
    dsimp only [Option.bind_some]
    rw [if_pos older, ih here']
    cases cls.methods.get? name <;> rfl

end Grounded

/-- The frame at a distance is the one at this place of the chain. -/
theorem ancestor?_eq_getElem? {f : FrameId} {fs : List FrameId} (chain : Chain s.enclosing? f fs)
    (d : Nat) : s.ancestor? f d = fs[d]? := by
  induction chain generalizing d with
  | last stop =>
    cases d with
    | zero => rfl
    | succ d =>
      rw [ancestor?, stop]
      rfl
  | link step _ ih =>
    cases d with
    | zero => rfl
    | succ d =>
      rw [ancestor?, step]
      exact ih d

/-! ### Stores without circles -/

/-- Following links comes to an end everywhere: from every frame in the global frame, which links to no
other, and from every class in a class without superclass. Looking up goes along the chain to its end. -/
structure Acyclic (g : FrameId) (s : Store) : Prop where
  root : s.Has g ∧ s.enclosing? g = none
  frames : ∀ f, s.Has f → ∃ fs, Chain s.enclosing? f fs ∧ fs.getLast? = some g ∧
    (∀ name, s.holder? f name = fs.find? fun f => (s.binding? f name).isSome) ∧
    ∀ d, s.ancestor? f d = fs[d]?
  classes : ∀ c, (s.classAt? c).isSome → ∃ cs, Chain s.superclass? c cs ∧
    ∀ name, s.findMethod c name = cs.findSome? (s.ownMethod? · name)

theorem Grounded.acyclic (grounded : s.Grounded g) : s.Acyclic g where
  root := by
    obtain ⟨frame, found, root⟩ := GroundedIn.root grounded
    refine ⟨Option.isSome_of_eq_some found, ?_⟩
    rw [enclosing?, found]
    exact root
  frames f has := by
    obtain ⟨fs, chain, ends⟩ := grounded.frame_chain has
    exact ⟨fs, chain, ends, grounded.linksBack.holder?_eq_find? chain, ancestor?_eq_getElem? chain⟩
  classes c here := by
    obtain ⟨cs, chain⟩ := grounded.class_chain c
    exact ⟨cs, chain, grounded.findMethod_eq_findSome? here chain⟩

end Store

end Lox
