import Lox.Proofs.Dispatch.Descent
import Lox.Proofs.Heap.Chains
import Lox.Proofs.Scope.Scoped

/-!
# Where code lodges

Code runs in a chain of frames, one for each scope that is open around it. Two kinds of frames on the
chain are not made for blocks and calls: the frame in which a method is bound to its instance, and behind
it, for a derived class, the frame that holds the superclass. `Lodged` says what they hold, and of which
class the method is that the code is a part of. A store is settled if all functions and methods that it
keeps lodge so.
-/

namespace Lox

theorem notPlain_this : ¬ IsPlain Keyword.this.spelling := fun plain => plain.1 rfl

theorem notPlain_super : ¬ IsPlain Keyword.super.spelling := fun plain => plain.2 rfl

/-- The scope that holds a name is no scope away. -/
theorem Scopes.depth_of_held {scope : Scope} {name : String} (held : (scope.get? name).isSome)
    (Γ : Scopes) : Scopes.depth (scope :: Γ) name = some 0 := by
  rw [depth_cons, Table.contains, if_pos held]

/-- A scope that does not hold a name lies before those that do. -/
theorem Scopes.depth_of_missing {scope : Scope} {name : String} (missing : scope.get? name = none)
    (Γ : Scopes) : Scopes.depth (scope :: Γ) name = (Γ.depth name).map (· + 1) := by
  rw [depth_cons, Table.contains, missing]
  rfl

theorem Store.present_of_link {s : Store} {f outer : FrameId} (link : s.enclosing? f = some outer) :
    (s.frameAt? f).isSome := by
  obtain ⟨frame, found, _⟩ := Option.bind_eq_some_iff.mp link
  rw [found]
  rfl

/-- The frame with those around it is the place of code in the open scopes. `ids` are nodes of the code,
and so each method on the way has them among its own nodes. -/
inductive Lodged (s : Store) (g : FrameId) (ids : List NodeId) : FrameId → Scopes → Prop
  /-- No scope is open in the global frame. -/
  | top (vacant : ∀ x, ¬ IsPlain x → s.binding? g x = none) : Lodged s g ids g []
  /-- The frame of a block or a call. -/
  | inner {f outer : FrameId} {scope : Scope} {Γ : Scopes} (link : s.enclosing? f = some outer)
      (around : Lodged s g ids outer Γ) (plain : ∀ x, ¬ IsPlain x → scope.get? x = none)
      (vacant : ∀ x, ¬ IsPlain x → s.binding? f x = none) : Lodged s g ids f (scope :: Γ)
  /-- The frame with the superclass, which the methods of a derived class are closed over. -/
  | parent {f outer : FrameId} {scope : Scope} {Γ : Scopes} {parent : ClassId}
      (link : s.enclosing? f = some outer) (around : Lodged s g ids outer Γ)
      (held : (scope.get? Keyword.super.spelling).isSome)
      (other : scope.get? Keyword.this.spelling = none)
      (bound : s.binding? f Keyword.super.spelling = some (.class_ parent))
      (vacant : s.binding? f Keyword.this.spelling = none) : Lodged s g ids f (scope :: Γ)
  /-- The frame in which a method is bound to its instance. -/
  | receiver {f : FrameId} {scope : Scope} {Γ : Scopes} {c : ClassId} {method : Closure}
      {i : InstanceId} (link : s.enclosing? f = some method.frame)
      (around : Lodged s g ids method.frame Γ)
      (held : (scope.get? Keyword.this.spelling).isSome)
      (other : scope.get? Keyword.super.spelling = none)
      (bound : s.binding? f Keyword.this.spelling = some (.instance_ i))
      (declares : s.Declares c method) (code : ids ⊆ method.declaration.ids) (isA : s.IsA i c) :
      Lodged s g ids f (scope :: Γ)

namespace Lodged

variable {near : Store.Near} {s s' : Store} {g f : FrameId} {ids ids' : List NodeId} {Γ : Scopes}

/-- A part of the code lodges where the code does. -/
theorem part (lodged : Lodged s g ids f Γ) (among : ids' ⊆ ids) : Lodged s g ids' f Γ := by
  induction lodged with
  | top vacant => exact .top vacant
  | inner link _ plain vacant ih => exact .inner link ih plain vacant
  | parent link _ held other bound vacant ih => exact .parent link ih held other bound vacant
  | receiver link _ held other bound declares code isA ih =>
    exact .receiver link ih held other bound declares (List.Subset.trans among code) isA

theorem present (lodged : Lodged s g ids f Γ) (root : (s.frameAt? g).isSome) :
    (s.frameAt? f).isSome := by
  cases lodged with
  | top => exact root
  | inner link | parent link | receiver link => exact Store.present_of_link link

/-- Code stays lodged while the store grows. -/
theorem later (lodged : Lodged s g ids f Γ) (root : (s.frameAt? g).isSome)
    (later : s.Later near s') : Lodged s' g ids f Γ := by
  induction lodged with
  | top vacant =>
    exact .top fun x notPlain => (later.reserved root notPlain).trans (vacant x notPlain)
  | inner link _ plain vacant ih =>
    refine .inner (later.links link) ih plain fun x notPlain => ?_
    exact (later.reserved (Store.present_of_link link) notPlain).trans (vacant x notPlain)
  | parent link _ held other bound vacant ih =>
    have here := Store.present_of_link link
    exact .parent (later.links link) ih held other
      ((later.reserved here notPlain_super).trans bound)
      ((later.reserved here notPlain_this).trans vacant)
  | receiver link _ held other bound declares code isA ih =>
    exact .receiver (later.links link) ih held other
      ((later.reserved (Store.present_of_link link) notPlain_this).trans bound)
      (declares.later later) code (isA.later later)

/-- Names that are declared meanwhile make no difference. -/
theorem mark (lodged : Lodged s g ids f Γ) {name : String} (plain : IsPlain name)
    (status : Status) : Lodged s g ids f (Γ.mark name status) := by
  have same (scope : Scope) {x : String} (notPlain : ¬ IsPlain x) :
      (scope.insert name status).get? x = scope.get? x :=
    Table.get?_insert_of_ne scope status fun same => notPlain (same ▸ plain)
  cases lodged with
  | top vacant => exact .top vacant
  | inner link around others vacant =>
    exact .inner link around (fun x notPlain => (same _ notPlain).trans (others x notPlain)) vacant
  | parent link around held other bound vacant =>
    refine .parent link around ?_ ?_ bound vacant
    · rwa [same _ notPlain_super]
    · rwa [same _ notPlain_this]
  | receiver link around held other bound declares code isA =>
    refine .receiver link around ?_ ?_ bound declares code isA
    · rwa [same _ notPlain_this]
    · rwa [same _ notPlain_super]

/-- A name that can be declared is plain, and so the code stays lodged after a statement. -/
theorem after (lodged : Lodged s g ids f Γ) {stmt : Stmt}
    (plain : ∀ name ∈ stmt.declared?, IsPlain name) : Lodged s g ids f (stmt.after Γ) := by
  unfold Stmt.after
  split
  · rename_i name declared
    exact lodged.mark (plain name declared) _
  · exact lodged

end Lodged

/-! ### What is reached from where code lodges -/

section

variable {s : Store} {g f : FrameId} {ids : List NodeId} {Γ : Scopes}

/-- The distance of `this` leads to the nearest frame that binds it. It is bound there to an instance of
the class whose method the code is a part of. -/
theorem Lodged.receiver_of_depth (lodged : Lodged s g ids f Γ) (back : s.LinksBack) {d : Nat}
    (inside : Γ.depth Keyword.this.spelling = some d) :
    ∃ frame c method i, s.ancestor? f d = some frame ∧
      s.holder? f Keyword.this.spelling = some frame ∧
      s.binding? frame Keyword.this.spelling = some (.instance_ i) ∧
      s.enclosing? frame = some method.frame ∧ s.Declares c method ∧
      ids ⊆ method.declaration.ids ∧ s.IsA i c := by
  induction lodged generalizing d with
  | top => cases inside
  | inner link _ plain vacant ih =>
    rw [Scopes.depth_of_missing (plain _ notPlain_this)] at inside
    obtain ⟨d, further, rfl⟩ := Option.map_eq_some_iff.mp inside
    obtain ⟨frame, c, method, i, reached, nearest, rest⟩ := ih further
    refine ⟨frame, c, method, i, ?_, ?_, rest⟩
    · rw [Store.ancestor?, link]
      exact reached
    · rwa [Store.holder?_of_vacant back link (vacant _ notPlain_this)]
  | parent link _ _ other _ vacant ih =>
    rw [Scopes.depth_of_missing other] at inside
    obtain ⟨d, further, rfl⟩ := Option.map_eq_some_iff.mp inside
    obtain ⟨frame, c, method, i, reached, nearest, rest⟩ := ih further
    refine ⟨frame, c, method, i, ?_, ?_, rest⟩
    · rw [Store.ancestor?, link]
      exact reached
    · rwa [Store.holder?_of_vacant back link vacant]
  | receiver link _ held _ bound declares code isA =>
    rw [Scopes.depth_of_held held] at inside
    cases inside
    exact ⟨_, _, _, _, rfl, Store.holder?_of_bound bound, bound, link, declares, code, isA⟩

/-- If `super` is in the innermost scope, it is bound in the frame for this scope. -/
theorem Lodged.parent_of_nearest (lodged : Lodged s g ids f Γ)
    (nearest : Γ.depth Keyword.super.spelling = some 0) :
    ∃ parent, s.binding? f Keyword.super.spelling = some (.class_ parent) := by
  -- in a scope that does not hold it, it would be further out
  have beyond {scope : Scope} {Γ : Scopes} (missing : scope.get? Keyword.super.spelling = none) :
      Scopes.depth (scope :: Γ) Keyword.super.spelling ≠ some 0 := by
    rw [Scopes.depth_of_missing missing]
    simp
  cases lodged with
  | top => cases nearest
  | inner _ _ plain => exact absurd nearest (beyond (plain _ notPlain_super))
  | parent _ _ _ _ bound => exact ⟨_, bound⟩
  | receiver _ _ _ other => exact absurd nearest (beyond other)

/-- Where `super` is one scope further out than `this`, the frame that the method is closed over holds the
superclass. -/
theorem Lodged.parent_of_depth (lodged : Lodged s g ids f Γ) {d : Nat}
    (this : Γ.depth Keyword.this.spelling = some d)
    (super : Γ.depth Keyword.super.spelling = some (d + 1)) :
    ∃ frame outer parent, s.ancestor? f d = some frame ∧ s.enclosing? frame = some outer ∧
      s.binding? outer Keyword.super.spelling = some (.class_ parent) := by
  induction lodged generalizing d with
  | top => cases this
  | inner link _ plain _ ih =>
    rw [Scopes.depth_of_missing (plain _ notPlain_this)] at this
    rw [Scopes.depth_of_missing (plain _ notPlain_super)] at super
    obtain ⟨d, further, rfl⟩ := Option.map_eq_some_iff.mp this
    obtain ⟨_, further', same⟩ := Option.map_eq_some_iff.mp super
    cases same
    obtain ⟨frame, outer, parent, reached, rest⟩ := ih further further'
    refine ⟨frame, outer, parent, ?_, rest⟩
    rw [Store.ancestor?, link]
    exact reached
  | parent _ _ held =>
    -- here `super` would be the nearer of the two
    rw [Scopes.depth_of_held held] at super
    cases super
  | receiver link around held other _ _ _ _ =>
    rw [Scopes.depth_of_held held] at this
    cases this
    rw [Scopes.depth_of_missing other] at super
    obtain ⟨_, further, same⟩ := Option.map_eq_some_iff.mp super
    cases same
    obtain ⟨parent, bound⟩ := around.parent_of_nearest further
    exact ⟨_, _, parent, rfl, link, bound⟩

end

end Lox
