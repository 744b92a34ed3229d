import Lox.Proofs.Heap.Chains

/-!
# Forests of frames

Frames are made on top of others, and names are bound and changed in them, in any order. Chains run together
towards their roots, so what is bound in one frame is seen from all frames whose chains come through it. A
name can be found in two ways, by going along the chain to the first frame that binds it or by going a given
number of links. The two agree where the number is that of the first frame.
-/

namespace Lox

namespace Store

/-- Stores whose frames have been made one by one, each on top of one that was there or of none, while names
were bound and changed in them. What else is in the store comes and goes. -/
inductive Forest : Store → Prop
  | none : Forest ∅
  | elsewhere {s s' : Store} (rest : Forest s) (same : s'.frames = s.frames) : Forest s'
  | frame {s : Store} {enclosing : Option FrameId} (rest : Forest s) (has : ∀ e ∈ enclosing, s.Has e) :
    Forest (s.addFrame ∅ enclosing).2
  | define {s : Store} {f : FrameId} {name : String} {value : Value} (rest : Forest s) (has : s.Has f) :
    Forest (s.define f name value)
  | assign {s s' : Store} {f : FrameId} {name : String} {value : Value} (rest : Forest s) (has : s.Has f)
    (done : s.assign f name value = .ok s') : Forest s'
  | assignAt {s s' : Store} {f : FrameId} {distance : Nat} {name : String} {value : Value}
    (rest : Forest s) (has : s.Has f) (done : s.assignAt f distance name value = .ok s') : Forest s'

variable {s s' : Store}

/-- A change of a variable is a definition in some frame. -/
theorem assign_cases {f : FrameId} {name : String} {value : Value}
    (done : s.assign f name value = .ok s') : ∃ holder, s' = s.define holder name value := by
  unfold Store.assign at done
  cases found : s.holder f name with
  | error => rw [found] at done; cases done
  | ok holder =>
    rw [found] at done
    cases done
    exact ⟨holder, rfl⟩

theorem assignAt_cases {f : FrameId} {distance : Nat} {name : String} {value : Value}
    (done : s.assignAt f distance name value = .ok s') : ∃ g, s' = s.define g name value := by
  unfold Store.assignAt at done
  cases found : s.ancestor f distance with
  | error => rw [found] at done; cases done
  | ok g =>
    rw [found] at done
    cases done
    exact ⟨g, rfl⟩

theorem LinksBack.define (back : s.LinksBack) (f : FrameId) (name : String) (value : Value) :
    (s.define f name value).LinksBack := by
  intro g outer link
  rw [enclosing?_define] at link
  exact back g outer link

/-- In a forest, links lead to what was there before. -/
theorem Forest.linksBack (forest : Forest s) : s.LinksBack := by
  induction forest with
  | none =>
    intro f outer link
    cases link
  | elsewhere _ same ih =>
    intro f outer link
    rw [enclosing?, frameAt?, same] at link
    exact ih f outer link
  | @frame s enclosing _ has ih =>
    intro f outer link
    obtain ⟨frame, found, enclosed⟩ := Option.bind_eq_some_iff.mp link
    rw [frameAt?, Store.addFrame, Array.getElem?_push] at found
    split at found
    · rename_i last
      cases found
      obtain ⟨_, present⟩ := Option.isSome_iff_exists.mp (has outer enclosed)
      exact last ▸ (Array.getElem?_eq_some_iff.mp present).1
    · exact ih f outer (Option.bind_eq_some_iff.mpr ⟨frame, found, enclosed⟩)
  | define _ _ ih => exact ih.define _ _ _
  | assign _ _ done ih =>
    obtain ⟨_, rfl⟩ := assign_cases done
    exact ih.define _ _ _
  | assignAt _ _ done ih =>
    obtain ⟨_, rfl⟩ := assignAt_cases done
    exact ih.define _ _ _

/-- All frames of the chain from a frame that is there are there. -/
theorem LinksBack.has_of_chain (back : s.LinksBack) {e : FrameId} {fs : List FrameId} (has : s.Has e)
    (chain : Chain s.enclosing? e fs) : ∀ f ∈ fs, s.Has f := by
  induction chain with
  | last =>
    intro f member
    cases List.mem_singleton.mp member
    exact has
  | @link e outer rest step _ ih =>
    obtain ⟨_, present⟩ := Option.isSome_iff_exists.mp has
    have inside := Nat.lt_trans (back e outer step) (Array.getElem?_eq_some_iff.mp present).1
    have has' : s.Has outer := Option.isSome_of_eq_some (Array.getElem?_eq_getElem inside)
    intro f member
    rcases List.mem_cons.mp member with rfl | member
    · exact has
    · exact ih has' f member

/-! ### Going along a chain -/

section

variable {e : FrameId} {fs : List FrameId} (x : String) (v : Value)

/-- The first value on the way is the value in the first frame that has one. -/
theorem findSome?_binding (fs : List FrameId) :
    fs.findSome? (s.binding? · x) =
      (fs.find? fun f => (s.binding? f x).isSome).bind (s.binding? · x) := by
  induction fs with
  | nil => rfl
  | cons f rest ih =>
    rw [List.findSome?_cons, List.find?_cons]
    cases bound : s.binding? f x with
    | none => exact ih
    | some value => exact bound.symm

theorem LinksBack.get_eq (back : s.LinksBack) (chain : Chain s.enclosing? e fs) :
    s.get e x = match fs.findSome? (s.binding? · x) with
      | some value => .ok value
      | none => .error (.undefinedVariable x) := by
  rw [Store.get, holder, back.holder?_eq_find? chain, findSome?_binding]
  cases found : fs.find? fun f => (s.binding? f x).isSome with
  | none => rfl
  | some f =>
    have binds : _ = true := List.find?_some found
    obtain ⟨value, bound⟩ := Option.isSome_iff_exists.mp binds
    change s.bound f x = _
    rw [Store.bound, Option.bind_some, bound]

theorem LinksBack.assign_eq (back : s.LinksBack) (chain : Chain s.enclosing? e fs) :
    s.assign e x v = match fs.find? fun f => (s.binding? f x).isSome with
      | some f => .ok (s.define f x v)
      | none => .error (.undefinedVariable x) := by
  rw [Store.assign, holder, back.holder?_eq_find? chain]
  cases fs.find? fun f => (s.binding? f x).isSome <;> rfl

theorem getAt_eq (chain : Chain s.enclosing? e fs) (d : Nat) :
    s.getAt e d x = match fs[d]? with
      | some f => s.bound f x
      | none => .error (.chainTooShort d) := by
  rw [Store.getAt, ancestor, ancestor?_eq_getElem? chain]
  cases fs[d]? <;> rfl

theorem assignAt_eq (chain : Chain s.enclosing? e fs) (d : Nat) :
    s.assignAt e d x v = match fs[d]? with
      | some f => .ok (s.define f x v)
      | none => .error (.chainTooShort d) := by
  rw [Store.assignAt, ancestor, ancestor?_eq_getElem? chain]
  cases fs[d]? <;> rfl

/-- At the distance of the first frame that binds the name, both ways come to this frame. -/
theorem LinksBack.agree (back : s.LinksBack) (chain : Chain s.enclosing? e fs) {d : Nat}
    (first : fs.findIdx? (fun f => (s.binding? f x).isSome) = some d) :
    s.getAt e d x = s.get e x ∧ s.assignAt e d x v = s.assign e x v := by
  obtain ⟨inside, binds, before⟩ := List.findIdx?_eq_some_iff_getElem.mp first
  have nearest : fs.find? (fun f => (s.binding? f x).isSome) = some fs[d] :=
    List.find?_eq_some_iff_getElem.mpr ⟨binds, d, inside, rfl, fun j earlier => by
      simpa using before j earlier⟩
  obtain ⟨value, bound⟩ := Option.isSome_iff_exists.mp binds
  rw [getAt_eq x chain, assignAt_eq x v chain, back.get_eq x chain, back.assign_eq x v chain,
    findSome?_binding, nearest, List.getElem?_eq_getElem inside, Option.bind_some, bound]
  refine ⟨?_, rfl⟩
  change s.bound fs[d] x = _
  rw [Store.bound, bound]

end

/-! ### What is changed -/

/-- The name is bound to the value in the frame, and nothing else has changed anywhere. -/
structure Rebinds (f : FrameId) (x : String) (v : Value) (s s' : Store) : Prop where
  here : s'.binding? f x = some v
  others : ∀ g y, ¬ (g = f ∧ y = x) → s'.binding? g y = s.binding? g y
  links : ∀ g, s'.enclosing? g = s.enclosing? g
  frames : s'.frames.size = s.frames.size
  functions : s'.functions = s.functions
  classes : s'.classes = s.classes
  instances : s'.instances = s.instances

theorem rebinds_define {f : FrameId} (has : s.Has f) (x : String) (v : Value) :
    Rebinds f x v s (s.define f x v) where
  here := binding?_define_self x v has
  others g y other := by
    rw [binding?_define s f g x y v has, if_neg fun both => other ⟨both.1.symm, both.2.symm⟩]
  links g := enclosing?_define s f g x v
  frames := Array.size_modify
  functions := rfl
  classes := rfl
  instances := rfl

end Store

/-! ### Changes in place -/

/-- What an evaluation makes of a change of the frames: when it fails, the machine stays as it is. -/
def Machine.settle (m : Machine) (line : Nat) : Except Fault Store → EStateM.Result Halt Machine Unit
  | .ok store => .ok () { m with store }
  | .error cause => .error (.runtime ⟨cause, line⟩) m

/-- An assignment binds the name in the frame that it finds. -/
theorem Run.assign_eq_settle (id : NodeId) (name : Name) (v : Value) (m : Machine) :
    Run.assign id name v m = m.settle name.line (do
      return m.store.define (← m.target id name.text) name.text v) := by
  simp only [Run.assign, Run.read, Run.ask, bind, EStateM.bind]
  cases m.target id name.text <;> rfl

theorem Run.assign_at_distance {m : Machine} {id : NodeId} {d : Nat} (local' : m.distances[id]? = some d)
    (name : Name) (v : Value) :
    Run.assign id name v m = m.settle name.line (m.store.assignAt m.current d name.text v) := by
  have target : m.target id name.text = m.store.ancestor m.current d := by rw [Machine.target, local']
  rw [Store.assignAt, ← target]
  exact Run.assign_eq_settle id name v m

theorem Run.assign_global {m : Machine} {id : NodeId} (global : m.distances[id]? = none)
    (name : Name) (v : Value) :
    Run.assign id name v m = m.settle name.line (m.store.assign m.globals name.text v) := by
  have target : m.target id name.text = m.store.holder m.globals name.text := by
    rw [Machine.target, global]
  rw [Store.assign, ← target]
  exact Run.assign_eq_settle id name v m

/-- What is found and changed from a frame of a forest, told by the chain of frames from there on. A name is
looked up and assigned in the first frame that binds it, and at a distance in the frame that stands there; if
there is no such frame, that fails. A change is one of this name in this frame only, and an evaluation that
fails to make it leaves the machine as it is. At the distance of the first frame that binds the name, both
ways come to the same. -/
theorem frame_operations_follow_chain {s : Store} (forest : s.Forest) {e : FrameId} (has : s.Has e)
    (x : String) (v : Value) :
    ∃ fs, Chain s.enclosing? e fs ∧
      (s.get e x = match fs.findSome? (s.binding? · x) with
        | some value => .ok value
        | none => .error (.undefinedVariable x)) ∧
      (s.assign e x v = match fs.find? fun f => (s.binding? f x).isSome with
        | some f => .ok (s.define f x v)
        | none => .error (.undefinedVariable x)) ∧
      (∀ d, s.getAt e d x = match fs[d]? with
        | some f => s.bound f x
        | none => .error (.chainTooShort d)) ∧
      (∀ d, s.assignAt e d x v = match fs[d]? with
        | some f => .ok (s.define f x v)
        | none => .error (.chainTooShort d)) ∧
      (∀ f ∈ fs, Store.Rebinds f x v s (s.define f x v)) ∧
      (∀ d, fs.findIdx? (fun f => (s.binding? f x).isSome) = some d →
        s.getAt e d x = s.get e x ∧ s.assignAt e d x v = s.assign e x v) ∧
      ∀ m : Machine, m.store = s → ∀ id line,
        (m.globals = e → m.distances[id]? = none →
          Run.assign id ⟨x, line⟩ v m = m.settle line (s.assign e x v)) ∧
        ∀ d, m.current = e → m.distances[id]? = some d →
          Run.assign id ⟨x, line⟩ v m = m.settle line (s.assignAt e d x v) := by
  have back := forest.linksBack
  obtain ⟨fs, chain⟩ := back.exists_chain e
  have there := back.has_of_chain has chain
  refine ⟨fs, chain, back.get_eq x chain, back.assign_eq x v chain, Store.getAt_eq x chain,
    Store.assignAt_eq x v chain, fun f member => Store.rebinds_define (there f member) x v,
    fun d first => back.agree x v chain first, ?_⟩
  rintro m rfl id line
  refine ⟨?_, ?_⟩
  · rintro rfl global
    exact Run.assign_global global ⟨x, line⟩ v
  · rintro d rfl local'
    exact Run.assign_at_distance local' ⟨x, line⟩ v

/-- Two frames that bind `x`, and one on top of them that does not. -/
def shadowing : Store :=
  let (outer, s) := (∅ : Store).addFrame ∅ none
  let s := s.define outer "x" (.number 1)
  let (middle, s) := s.addFrame ∅ (some outer)
  let s := s.define middle "x" (.number 2)
  (s.addFrame ∅ (some middle)).2

/-- From the frame on top, the nearest `x` is at distance 1. -/
theorem nearest_of_shadowed_found : shadowing.Forest ∧ shadowing.Has ⟨2⟩ ∧
    shadowing.getAt ⟨2⟩ 1 "x" = shadowing.get ⟨2⟩ "x" ∧
    shadowing.assignAt ⟨2⟩ 1 "x" (.number 3) = shadowing.assign ⟨2⟩ "x" (.number 3) ∧
    shadowing.getAt ⟨2⟩ 2 "x" = shadowing.bound ⟨0⟩ "x" := by
  have outer : ((∅ : Store).addFrame ∅ none).2.Forest := .frame .none nofun
  have middle : (((∅ : Store).addFrame ∅ none).2.define ⟨0⟩ "x" (.number 1)).Forest := .define outer rfl
  have forest : shadowing.Forest := by
    refine .frame (.define (.frame middle ?_) rfl) ?_ <;>
      · rintro e ⟨⟩
        rfl
  have has : shadowing.Has ⟨2⟩ := rfl
  obtain ⟨fs, chain, -, -, reads, -, -, agree, -⟩ :=
    frame_operations_follow_chain forest has "x" (.number 3)
  obtain rfl : fs = [⟨2⟩, ⟨1⟩, ⟨0⟩] := chain.unique (.link rfl (.link rfl (.last rfl)))
  obtain ⟨found, changed⟩ := agree 1 rfl
  exact ⟨forest, has, found, changed, reads 2⟩

end Lox
