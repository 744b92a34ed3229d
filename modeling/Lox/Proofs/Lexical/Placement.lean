import Lox.Machine
import Lox.Proofs.Lexical.Machine
import Lox.Proofs.Scope.Scoped

/-!
# Frames and locations

How the frames of a machine stand for the locations of the lexical machine. Each location is the place
of one name in one frame, its slot; `cells` lists the slots of the locations in the order in which they
were made. Frames keep growing after a function has captured them, which `Placed` is indifferent to: it
speaks of the names in the open scopes only, and a distance leads past all others.
-/

namespace Lox.Lexical

/-- The place of a name in a frame. -/
structure Slot where
  frame : FrameId
  name : String
  deriving DecidableEq

/-- A value that can be bound to a name: `this` is an instance and `super` a class. -/
def Fits (name : String) (value : Value) : Prop :=
  (name = Keyword.this.spelling → ∃ i, value = .instance_ i) ∧
    (name = Keyword.super.spelling → ∃ c, value = .class_ c)

theorem Fits.of_plain {name : String} (plain : IsPlain name) (value : Value) : Fits name value :=
  ⟨fun same => absurd same plain.1, fun same => absurd same plain.2⟩

theorem getElem?_of_isPrefix {α : Type} {xs ys : List α} {i : Nat} {x : α} (extended : xs <+: ys)
    (found : xs[i]? = some x) : ys[i]? = some x := by
  obtain ⟨more, rfl⟩ := extended
  obtain ⟨inside, _⟩ := List.getElem?_eq_some_iff.mp found
  rw [List.getElem?_append_left inside]
  exact found

/-! ### Growth -/

/-- What an evaluation does to frames and slots: links stay, a bound name stays bound to something that
can be bound to it, and slots are added in new frames only, or else in the frame `near`. -/
structure Later (near : Option FrameId) (cells : List Slot) (m : Machine) (cells' : List Slot)
    (m' : Machine) : Prop where
  current : m'.current = m.current
  size : m.store.frames.size ≤ m'.store.frames.size
  links : ∀ {f outer}, m.store.enclosing? f = some outer → m'.store.enclosing? f = some outer
  bound : ∀ {f name value}, m.store.binding? f name = some value →
    ∃ value', m'.store.binding? f name = some value' ∧ (Fits name value → Fits name value')
  grown : cells <+: cells'
  apart : ∀ slot ∈ cells', slot ∈ cells ∨ m.store.frames.size ≤ slot.frame.index ∨
    near = some slot.frame

namespace Later

variable {near near' : Option FrameId} {cells cells₁ cells₂ : List Slot} {m m₁ m₂ : Machine}

/-- Nothing happens to frames and slots while the rest of the machine changes. -/
theorem of_frames_eq (near : Option FrameId) (cells : List Slot)
    (same : m₁.store.frames = m.store.frames) (current : m₁.current = m.current) :
    Later near cells m cells m₁ where
  current := current
  size := Nat.le_of_eq (congrArg Array.size same).symm
  links := fun link => by
    rw [Store.enclosing?, Store.frameAt?, same]
    exact link
  bound := fun {_ _ value} found => by
    refine ⟨value, ?_, id⟩
    rw [Store.binding?, Store.frameAt?, same]
    exact found
  grown := List.prefix_rfl
  apart := fun _ member => .inl member

theorem refl (near : Option FrameId) (cells : List Slot) (m : Machine) :
    Later near cells m cells m := of_frames_eq near cells rfl rfl

/-- What happens near one frame after another: the second frame may be new. -/
theorem trans_of (first : Later near cells m cells₁ m₁) (next : Later near' cells₁ m₁ cells₂ m₂)
    (close : ∀ f, near' = some f → near = some f ∨ m.store.frames.size ≤ f.index) :
    Later near cells m cells₂ m₂ where
  current := next.current.trans first.current
  size := Nat.le_trans first.size next.size
  links := fun link => next.links (first.links link)
  bound := fun found => by
    obtain ⟨value₁, found₁, fits₁⟩ := first.bound found
    obtain ⟨value₂, found₂, fits₂⟩ := next.bound found₁
    exact ⟨value₂, found₂, fits₂ ∘ fits₁⟩
  grown := first.grown.trans next.grown
  apart := fun slot member => by
    rcases next.apart slot member with old | fresh | here
    · exact first.apart slot old
    · exact .inr (.inl (Nat.le_trans first.size fresh))
    · rcases close slot.frame here with same | fresh
      · exact .inr (.inr same)
      · exact .inr (.inl fresh)

theorem trans (first : Later near cells m cells₁ m₁) (next : Later near cells₁ m₁ cells₂ m₂) :
    Later near cells m cells₂ m₂ :=
  first.trans_of next fun _ same => .inl same

/-- What happens apart from every old frame happens near any frame. -/
theorem weaken (later : Later none cells m cells₁ m₁) (near : Option FrameId) :
    Later near cells m cells₁ m₁ :=
  (refl near cells m).trans_of later fun _ same => by cases same

end Later

/-! ### Placed environments -/

/-- A frame with those around it stands for an environment in the open scopes: there is a frame for each
scope, and a name in a scope has its slot in the frame for the scope. Where the declaration of the name
has ended, it is bound in that frame. -/
inductive Placed (cells : List Slot) (s : Store) (g : FrameId) : FrameId → Scopes → Env → Prop
  | top : Placed cells s g g [] .top
  | inner {f outer : FrameId} {scope : Scope} {Γ : Scopes} {ρ : Env} {names : Table Location}
      (link : s.enclosing? f = some outer) (around : Placed cells s g outer Γ ρ)
      (own : ∀ x status, scope.get? x = some status → ∃ ℓ, names.get? x = some ℓ ∧
        cells[ℓ.index]? = some ⟨f, x⟩ ∧
        (status = .defined → ∃ value, s.binding? f x = some value ∧ Fits x value))
      (others : ∀ x, scope.get? x = none → names.get? x = ρ.find? x) :
      Placed cells s g f (scope :: Γ) (.inner names)

namespace Placed

variable {near : Option FrameId} {cells cells' : List Slot} {m m' : Machine} {s : Store}
  {g f : FrameId} {Γ : Scopes} {ρ : Env} {name : String}

/-- What stands for an environment goes on to do so. -/
theorem mono (later : Later near cells m cells' m') (placed : Placed cells m.store g f Γ ρ) :
    Placed cells' m'.store g f Γ ρ := by
  induction placed with
  | top => exact .top
  | inner link _ own others ih =>
    -- links and slots stay, and a bound name stays bound, though to another value
    refine .inner (later.links link) ih (fun x status held => ?_) others
    obtain ⟨ℓ, found, slot, bound⟩ := own x status held
    refine ⟨ℓ, found, getElem?_of_isPrefix later.grown slot, fun defined => ?_⟩
    obtain ⟨value, here, fits⟩ := bound defined
    obtain ⟨value', here', fits'⟩ := later.bound here
    exact ⟨value', here', fits' fits⟩

/-- More slots do no harm. -/
theorem extend (extended : cells <+: cells') (placed : Placed cells s g f Γ ρ) :
    Placed cells' s g f Γ ρ := by
  induction placed with
  | top => exact .top
  | inner link _ own others ih =>
    refine .inner link ih (fun x status held => ?_) others
    obtain ⟨ℓ, found, slot, bound⟩ := own x status held
    exact ⟨ℓ, found, getElem?_of_isPrefix extended slot, bound⟩

/-- A frame with a scope is in the store. -/
theorem present {scope : Scope} (placed : Placed cells s g f (scope :: Γ) ρ) :
    (s.frameAt? f).isSome := by
  cases placed with
  | inner link =>
    rw [Store.enclosing?] at link
    cases found : s.frameAt? f with
    | none =>
      rw [found] at link
      cases link
    | some frame => rfl

/-- A name in no scope has no location. -/
theorem global (placed : Placed cells s g f Γ ρ) (outside : Γ.depth name = none) :
    ρ.find? name = none := by
  induction placed with
  | top => rfl
  | @inner f outer scope Γ ρ names link _ own others ih =>
    rw [Scopes.depth_cons] at outside
    split at outside
    · cases outside
    · rename_i missing
      have unheld : scope.get? name = none := by simpa [Table.contains] using missing
      have around : Γ.depth name = none := by simpa using outside
      exact (others name unheld).trans (ih around)

/-- Following the links as far as the scope of a name is away leads to the frame in which the slot of its
location lies, and the name is bound there if it can be read. -/
theorem local_ {d : Nat} (placed : Placed cells s g f Γ ρ) (inside : Γ.depth name = some d) :
    ∃ frame ℓ, s.ancestor? f d = some frame ∧ ρ.find? name = some ℓ ∧
      cells[ℓ.index]? = some ⟨frame, name⟩ ∧
      (Γ.Readable name → ∃ value, s.binding? frame name = some value ∧ Fits name value) := by
  induction placed generalizing d with
  | top => cases inside
  | @inner f outer scope Γ ρ names link _ own others ih =>
    rw [Scopes.depth_cons] at inside
    cases held : scope.get? name with
    | some status =>
      -- the name is in the innermost scope, and no link is followed
      obtain ⟨ℓ, found, slot, bound⟩ := own name status held
      have zero : d = 0 := by simpa [Table.contains, held, eq_comm] using inside
      subst zero
      refine ⟨f, ℓ, rfl, found, slot, fun readable => bound ?_⟩
      rw [Scopes.Readable, Scopes.status?_cons, held] at readable
      cases status with
      | declared => exact absurd rfl readable
      | defined => rfl
    | none =>
      -- the name is in a scope further out, one link less away from there
      have further : ∃ d', Γ.depth name = some d' ∧ d' + 1 = d := by
        simpa [Table.contains, held] using inside
      obtain ⟨d', inside', rfl⟩ := further
      obtain ⟨frame, ℓ, reached, found, slot, bound⟩ := ih inside'
      refine ⟨frame, ℓ, ?_, (others name held).trans found, slot, fun readable => bound ?_⟩
      · rw [Store.ancestor?, link]
        exact reached
      · rw [Scopes.Readable, Scopes.status?_cons, held] at readable
        exact readable

/-- A new frame stands for the names around it at the start of a block. -/
theorem enter (placed : Placed cells s g f Γ ρ) {frame : FrameId}
    (link : s.enclosing? frame = some f) :
    Placed cells s g frame (Scope.of [] :: Γ) ρ.enter := by
  cases ρ with
  -- a block that begins holds no names, so they all come from further out
  | top => exact .inner link placed (fun x status held => by cases held) fun x _ => rfl
  | inner names => exact .inner link placed (fun x status held => by cases held) fun x _ => rfl

/-- The declaration of a name makes a location, whose slot lies in the innermost frame. -/
theorem declare {scope : Scope} {names : Table Location}
    (placed : Placed cells s g f (scope :: Γ) (.inner names)) :
    Placed (cells ++ [⟨f, name⟩]) s g f (scope.insert name .declared :: Γ)
      (.inner (names.insert name ⟨cells.length⟩)) := by
  cases placed with
  | @inner _ outer _ _ ρ _ link around own others =>
    have extended : cells <+: cells ++ [⟨f, name⟩] := List.prefix_append _ _
    refine .inner link (around.extend extended) (fun x status held => ?_) fun x missing => ?_
    · rw [Table.get?_insert] at held
      split at held
      · rename_i same
        subst same
        cases held
        -- the name is not defined yet, so it need not be bound
        refine ⟨⟨cells.length⟩, Table.get?_insert_self _ _ _, by simp, fun defined => ?_⟩
        cases defined
      · rename_i distinct
        obtain ⟨ℓ, found, slot, bound⟩ := own x status held
        refine ⟨ℓ, ?_, getElem?_of_isPrefix extended slot, bound⟩
        rw [Table.get?_insert_of_ne _ _ distinct]
        exact found
    · rw [Table.get?_insert] at missing
      split at missing
      · cases missing
      · rename_i distinct
        rw [Table.get?_insert_of_ne _ _ distinct]
        exact others x missing

/-- The declaration of a name ends when it is bound in the innermost frame. -/
theorem settle {scope : Scope} {status : Status} {value : Value}
    (placed : Placed cells s g f (scope :: Γ) ρ) (held : scope.get? name = some status)
    (bound : s.binding? f name = some value) (fits : Fits name value) :
    Placed cells s g f (scope.insert name .defined :: Γ) ρ := by
  cases placed with
  | inner link around own others =>
    -- the other names of the scope have the status that they had
    refine .inner link around (fun x status' held' => ?_) fun x missing => ?_
    · rw [Table.get?_insert] at held'
      split at held'
      · rename_i same
        subst same
        obtain ⟨ℓ, found, slot, _⟩ := own name status held
        exact ⟨ℓ, found, slot, fun _ => ⟨value, bound, fits⟩⟩
      · exact own x status' held'
    · rw [Table.get?_insert] at missing
      split at missing
      · cases missing
      · exact others x missing

/-- The declaration of a class ends when its name is bound, also for the methods that were made
before. -/
theorem settle_methods {derived : Bool} {frame : FrameId} {status : Status} {value : Value}
    (placed : Placed cells s g frame ((Γ.mark name status).ofMethods derived) ρ)
    (link : if derived then s.enclosing? frame = some f else frame = f)
    (bound : s.binding? f name = some value) (fits : Fits name value) :
    Placed cells s g frame ((Γ.mark name .defined).ofMethods derived) ρ := by
  cases Γ with
  | nil => exact placed
  | cons scope outer =>
    have held : (scope.insert name status).get? name = some status := Table.get?_insert_self _ _ _
    cases derived with
    | false =>
      obtain rfl : frame = f := link
      have settled := placed.settle held bound fits
      rw [Table.insert_insert_self] at settled
      exact settled
    | true =>
      -- the name is in the scope around the one for `super`
      have linked : s.enclosing? frame = some f := link
      cases placed with
      | inner link' around own others =>
        obtain rfl := Option.some.inj (link'.symm.trans linked)
        have settled := around.settle held bound fits
        rw [Table.insert_insert_self] at settled
        exact .inner link' settled own others

end Placed

/-- Slots in the frame of a block belong to names of its scope. -/
def Own (cells : List Slot) (f : FrameId) : Scopes → Prop
  | [] => True
  | scope :: _ => ∀ name, ⟨f, name⟩ ∈ cells → (scope.get? name).isSome

/-! ### Frames that stand for values -/

/-- The frames of a store stand for the values at locations and of global names. -/
structure FramesAgree (g : FrameId) (cells : List Slot) (s : Store) (values : Array Value)
    (globals : Table Value) : Prop where
  /-- The global frame is outermost. -/
  root : ∃ frame, s.frameAt? g = some frame ∧ frame.enclosing = none
  globals : ∀ name, s.binding? g name = globals.get? name
  count : cells.length = values.size
  distinct : cells.Nodup
  inside : ∀ slot ∈ cells, slot.frame ≠ g ∧ (s.frameAt? slot.frame).isSome
  /-- What is bound in a slot is the value at its location. -/
  values : ∀ {i : Nat} {slot : Slot} {value}, cells[i]? = some slot →
    s.binding? slot.frame slot.name = some value → values[i]? = some value
  /-- Outside the global frame nothing is bound but in slots. -/
  covered : ∀ {f name value}, s.binding? f name = some value → f = g ∨ ⟨f, name⟩ ∈ cells

/-- A new frame binds nothing, so every frame binds what it bound before. -/
theorem binding?_addFrame (s : Store) (enclosing : Option FrameId) (f : FrameId) (name : String) :
    (s.addFrame ∅ enclosing).2.binding? f name = s.binding? f name := by
  obtain ⟨i⟩ := f
  simp only [Store.binding?, Store.addFrame, Store.frameAt?, Array.getElem?_push]
  split
  · rename_i new
    rw [new, Array.getElem?_eq_none (Nat.le_refl _)]
    rfl
  · rfl

namespace FramesAgree

variable {g : FrameId} {cells : List Slot} {s : Store} {values : Array Value}
  {globals : Table Value}

/-- No slot is in the global frame, which nothing encloses. -/
theorem ne_root (agree : FramesAgree g cells s values globals) {f outer : FrameId}
    (link : s.enclosing? f = some outer) : f ≠ g := by
  rintro rfl
  obtain ⟨frame, found, alone⟩ := agree.root
  rw [Store.enclosing?, found] at link
  exact absurd (alone.symm.trans link) (by simp)

theorem addFrame (agree : FramesAgree g cells s values globals) (enclosing : Option FrameId) :
    FramesAgree g cells (s.addFrame ∅ enclosing).2 values globals where
  root := by
    obtain ⟨frame, found, alone⟩ := agree.root
    exact ⟨frame, Store.frameAt?_addFrame_of_some ∅ enclosing found, alone⟩
  globals := fun name => by
    rw [binding?_addFrame]
    exact agree.globals name
  count := agree.count
  distinct := agree.distinct
  inside := fun slot member => by
    obtain ⟨other, present⟩ := agree.inside slot member
    obtain ⟨frame, found⟩ := Option.isSome_iff_exists.mp present
    rw [Store.frameAt?_addFrame_of_some ∅ enclosing found]
    exact ⟨other, rfl⟩
  values := fun slot found => by
    rw [binding?_addFrame] at found
    exact agree.values slot found
  covered := fun found => by
    rw [binding?_addFrame] at found
    exact agree.covered found

/-- A new location belongs to a slot that is not bound yet. -/
theorem declare (agree : FramesAgree g cells s values globals) (slot : Slot)
    (other : slot.frame ≠ g) (present : (s.frameAt? slot.frame).isSome) (new : slot ∉ cells) :
    FramesAgree g (cells ++ [slot]) s (values.push .nil) globals where
  root := agree.root
  globals := agree.globals
  count := by simp [agree.count]
  distinct := by
    refine List.nodup_append.mpr ⟨agree.distinct, by simp, fun a member b last same => ?_⟩
    rw [List.mem_singleton.mp last] at same
    exact new (same ▸ member)
  inside := fun slot' member => by
    rcases List.mem_append.mp member with old | last
    · exact agree.inside slot' old
    · rw [List.mem_singleton.mp last]
      exact ⟨other, present⟩
  values := fun {i slot' value} found bound => by
    by_cases old : i < cells.length
    · rw [List.getElem?_append_left old] at found
      have kept := agree.values found bound
      obtain ⟨bounded, _⟩ := Array.getElem?_eq_some_iff.mp kept
      rw [Array.getElem?_push, if_neg (Nat.ne_of_lt bounded)]
      exact kept
    · -- the last slot is not bound, since every bound one had a location before
      rw [List.getElem?_append_right (Nat.le_of_not_lt old)] at found
      have last : slot' = slot := by
        have member := List.mem_of_getElem? found
        exact List.mem_singleton.mp member
      rw [last] at bound
      rcases agree.covered bound with root | member
      · exact absurd root other
      · exact absurd member new
  covered := fun found => (agree.covered found).imp_right fun old => List.mem_append_left _ old

/-- A value is bound in a slot when it is put at its location. -/
theorem define_local (agree : FramesAgree g cells s values globals) {i : Nat} {slot : Slot}
    (found : cells[i]? = some slot) (value : Value) :
    FramesAgree g cells (s.define slot.frame slot.name value) (values.set! i value) globals := by
  obtain ⟨other, present⟩ := agree.inside slot (List.mem_of_getElem? found)
  have bounded : i < values.size := agree.count ▸ (List.getElem?_eq_some_iff.mp found).1
  constructor
  case root =>
    obtain ⟨frame, here, alone⟩ := agree.root
    refine ⟨frame, ?_, alone⟩
    rw [Store.frameAt?_define, if_neg other]
    exact here
  case globals =>
    intro name
    rw [Store.binding?_define _ _ _ _ _ _ present, if_neg fun same => other same.1]
    exact agree.globals name
  case count => simpa using agree.count
  case distinct => exact agree.distinct
  case inside =>
    intro slot' member
    obtain ⟨other', present'⟩ := agree.inside slot' member
    refine ⟨other', ?_⟩
    rw [Store.frameAt?_define]
    split
    · rw [Option.isSome_map]
      exact present'
    · exact present'
  case values =>
    intro j slot' value' found' bound
    rw [Store.binding?_define _ _ _ _ _ _ present] at bound
    split at bound
    · -- no two locations have one slot, so this is the location that has changed
      rename_i same
      have here : slot' = slot := by
        cases slot
        cases slot'
        simp_all
      subst here
      have index : j = i := by
        obtain ⟨inside, there⟩ := List.getElem?_eq_some_iff.mp found'
        exact (List.getElem?_inj inside agree.distinct).mp (found'.trans found.symm)
      subst index
      cases bound
      simp [bounded]
    · rename_i distinct
      have apart : i ≠ j := by
        rintro rfl
        rw [found] at found'
        cases found'
        exact distinct ⟨rfl, rfl⟩
      rw [Array.set!_eq_setIfInBounds, Array.getElem?_setIfInBounds_ne apart]
      exact agree.values found' bound
  case covered =>
    intro f name value' bound
    rw [Store.binding?_define _ _ _ _ _ _ present] at bound
    split at bound
    · rename_i same
      obtain ⟨rfl, rfl⟩ := same
      -- the name was bound in the frame of its slot
      exact .inr (List.mem_of_getElem? found)
    · exact agree.covered bound

/-- A global name is bound in the global frame. -/
theorem define_global (agree : FramesAgree g cells s values globals) (name : String)
    (value : Value) :
    FramesAgree g cells (s.define g name value) values (globals.insert name value) := by
  obtain ⟨frame, here, alone⟩ := agree.root
  have present : (s.frameAt? g).isSome := by
    rw [here]
    rfl
  constructor
  case root =>
    refine ⟨{ frame with bindings := frame.bindings.insert name value }, ?_, alone⟩
    rw [Store.frameAt?_define, if_pos rfl, here]
    rfl
  case globals =>
    intro key
    rw [Store.binding?_define _ _ _ _ _ _ present, Table.get?_insert, agree.globals key]
    simp
  case count => exact agree.count
  case distinct => exact agree.distinct
  case inside =>
    intro slot member
    obtain ⟨other, present'⟩ := agree.inside slot member
    refine ⟨other, ?_⟩
    rw [Store.frameAt?_define, if_neg (Ne.symm other)]
    exact present'
  case values =>
    intro i slot value' found bound
    -- no slot lies in the global frame
    have other := (agree.inside slot (List.mem_of_getElem? found)).1
    rw [Store.binding?_define _ _ _ _ _ _ present, if_neg fun same => other same.1.symm] at bound
    exact agree.values found bound
  case covered =>
    intro f key value' bound
    rw [Store.binding?_define _ _ _ _ _ _ present] at bound
    split at bound
    · rename_i same
      exact .inl same.1.symm
    · exact agree.covered bound

end FramesAgree

end Lox.Lexical
