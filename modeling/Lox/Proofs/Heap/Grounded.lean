import Lox.Proofs.Evaluation.Relining
import Lox.Proofs.Heap.Growth

/-!
# Grounded stores

Values refer to one another in circles: a frame holds a function that closes over the frame. Two kinds of
links never do, since they lead to something that was there before. Every frame but the global one links to
an older one, and a superclass is older than the class. For this to stay so, every value that is kept must
refer to something that is there.
-/

namespace Lox

/-- What the value refers to, if anything, is in the store. -/
def Value.In (s : Store) : Value → Prop
  | .function f => (s.functionAt? f).isSome
  | .class_ c => (s.classAt? c).isSome
  | .instance_ i => (s.instanceAt? i).isSome
  | .nil | .bool _ | .number _ | .string _ | .native _ => True

/-- The frame is in the store. -/
def Store.Has (s : Store) (f : FrameId) : Prop := (s.frameAt? f).isSome

/-- In the store `s` the global frame is the one that links to no other. All other frames, and the
superclasses of classes, come after what they link to. All that is referred to is in the store `t`. -/
structure Store.GroundedIn (g : FrameId) (t s : Store) : Prop where
  root : ∃ frame, s.frameAt? g = some frame ∧ frame.enclosing = none
  links : ∀ {f frame}, s.frameAt? f = some frame → f ≠ g →
    ∃ outer, frame.enclosing = some outer ∧ outer.index < f.index
  bindings : ∀ {f frame}, s.frameAt? f = some frame → frame.bindings.All (Value.In t)
  functions : ∀ {f closure}, s.functionAt? f = some closure → t.Has closure.frame
  superclasses : ∀ {c cls}, s.classAt? c = some cls → ∀ parent ∈ cls.superclass, parent.index < c.index
  methods : ∀ {c cls}, s.classAt? c = some cls → cls.methods.All fun method => t.Has method.frame
  classes : ∀ {i object}, s.instanceAt? i = some object → (t.classAt? object.cls).isSome
  fields : ∀ {i object}, s.instanceAt? i = some object → object.fields.All (Value.In t)

/-- A store is grounded if all that it refers to lies in itself. -/
def Store.Grounded (g : FrameId) (s : Store) : Prop := Store.GroundedIn g s s

variable {s s' : Store} {g : FrameId}

/-! ### What is there stays there -/

theorem Table.All.imp {α : Type} {P Q : α → Prop} {t : Table α} (all : t.All P)
    (weaker : ∀ a, P a → Q a) : t.All Q :=
  fun name a found => weaker a (all name a found)

private theorem isSome_of_kept {α β : Type} {x : Option α} {y : Option β}
    (kept : ∀ a, x = some a → ∃ b, y = some b) (here : x.isSome) : y.isSome := by
  obtain ⟨a, found⟩ := Option.isSome_iff_exists.mp here
  obtain ⟨b, found'⟩ := kept a found
  rw [found']
  rfl

theorem Store.Has.grows {f : FrameId} (has : s.Has f) (grows : s.Grows s') : s'.Has f :=
  grows.present has

theorem Store.Grows.class_isSome (grows : s.Grows s') {c : ClassId} (here : (s.classAt? c).isSome) :
    (s'.classAt? c).isSome :=
  isSome_of_kept (fun a found => ⟨a, grows.classes found⟩) here

theorem Value.In.grows {v : Value} (inside : v.In s) (grows : s.Grows s') : v.In s' := by
  cases v with
  | function f => exact isSome_of_kept (fun a found => ⟨a, grows.functions found⟩) inside
  | class_ c => exact grows.class_isSome inside
  | instance_ i =>
    exact isSome_of_kept (fun a found => (grows.instances found).imp fun _ kept => kept.1) inside
  | nil | bool _ | number _ | string _ | native _ => trivial

/-- What the store refers to stays when more is added to the other one. -/
theorem Store.GroundedIn.grows {t t' : Store} (grounded : GroundedIn g t s) (grows : t.Grows t') :
    GroundedIn g t' s where
  root := grounded.root
  links := grounded.links
  bindings found := (grounded.bindings found).imp fun _ inside => inside.grows grows
  functions found := (grounded.functions found).grows grows
  superclasses := grounded.superclasses
  methods found := (grounded.methods found).imp fun _ has => has.grows grows
  classes found := grows.class_isSome (grounded.classes found)
  fields found := (grounded.fields found).imp fun _ inside => inside.grows grows

/-! ### One change -/

/-- What an array gives after something has been added was there before or is what has been added. -/
private theorem getElem?_push_cases {α : Type} {xs : Array α} {x y : α} {i : Nat}
    (found : (xs.push x)[i]? = some y) : xs[i]? = some y ∨ i = xs.size ∧ y = x := by
  rw [Array.getElem?_push] at found
  split at found
  · rename_i last
    cases found
    exact .inr ⟨last, rfl⟩
  · exact .inl found

namespace Store.Grounded

variable (grounded : s.Grounded g)

include grounded

theorem define {v : Value} (inside : v.In s) (f : FrameId) (name : String) :
    (s.define f name v).Grounded g := by
  have grows := Grows.define s f name v
  have kept : GroundedIn g (s.define f name v) s := GroundedIn.grows grounded grows
  -- what a frame is now, as far as it has changed
  have before {f' : FrameId} {frame' : Frame} (found : (s.define f name v).frameAt? f' = some frame') :
      ∃ frame, s.frameAt? f' = some frame ∧ frame'.enclosing = frame.enclosing ∧
        (frame'.bindings = frame.bindings ∨ frame'.bindings = frame.bindings.insert name v) := by
    rw [frameAt?_define] at found
    split at found
    · obtain ⟨frame, old, rfl⟩ := Option.map_eq_some_iff.mp found
      exact ⟨frame, old, rfl, .inr rfl⟩
    · exact ⟨frame', found, rfl, .inl rfl⟩
  refine { kept with root := ?_, links := ?_, bindings := ?_ }
  · obtain ⟨frame, found, root⟩ := kept.root
    obtain ⟨frame', found', link, -⟩ := grows.frames found
    exact ⟨frame', found', link.trans root⟩
  · intro f' frame' found other
    obtain ⟨frame, found, link, -⟩ := before found
    rw [link]
    exact kept.links found other
  · intro f' frame' found
    obtain ⟨frame, found, -, same | added⟩ := before found
    · rw [same]
      exact kept.bindings found
    · rw [added]
      exact (kept.bindings found).insert name (inside.grows grows)

theorem addFrame {bindings : Table Value} {outer : FrameId} (inside : bindings.All (Value.In s))
    (has : s.Has outer) : (s.addFrame bindings (some outer)).2.Grounded g := by
  have grows := Grows.addFrame s bindings (some outer)
  have kept : GroundedIn g _ s := GroundedIn.grows grounded grows
  refine { kept with root := ?_, links := ?_, bindings := ?_ }
  · obtain ⟨frame, found, root⟩ := kept.root
    exact ⟨frame, frameAt?_addFrame_of_some bindings _ found, root⟩
  · intro f frame found other
    rcases getElem?_push_cases found with found | ⟨last, rfl⟩
    · exact kept.links found other
    · obtain ⟨frame, present⟩ := Option.isSome_iff_exists.mp has
      exact ⟨outer, rfl, last ▸ (Array.getElem?_eq_some_iff.mp present).1⟩
  · intro f frame found
    rcases getElem?_push_cases found with found | ⟨-, rfl⟩
    · exact kept.bindings found
    · exact inside.imp fun _ inside => inside.grows grows

theorem addFunction {closure : Closure} (has : s.Has closure.frame) :
    (s.addFunction closure).2.Grounded g := by
  have kept : GroundedIn g _ s := GroundedIn.grows grounded (Grows.addFunction s closure)
  refine { kept with functions := ?_ }
  intro f closure' found
  rcases getElem?_push_cases found with found | ⟨-, rfl⟩
  · exact kept.functions found
  · exact has

theorem addClass {cls : Class} (older : ∀ parent ∈ cls.superclass, (s.classAt? parent).isSome)
    (methods : cls.methods.All fun method => s.Has method.frame) :
    (s.addClass cls).2.Grounded g := by
  have kept : GroundedIn g _ s := GroundedIn.grows grounded (Grows.addClass s cls)
  refine { kept with superclasses := ?_, methods := ?_ }
  · intro c cls' found parent member
    rcases getElem?_push_cases found with found | ⟨last, rfl⟩
    · exact kept.superclasses found parent member
    · obtain ⟨_, present⟩ := Option.isSome_iff_exists.mp (older parent member)
      exact last ▸ (Array.getElem?_eq_some_iff.mp present).1
  · intro c cls' found
    rcases getElem?_push_cases found with found | ⟨-, rfl⟩
    · exact kept.methods found
    · exact methods

theorem addInstance {c : ClassId} (here : (s.classAt? c).isSome) :
    (s.addInstance c).2.Grounded g := by
  have kept : GroundedIn g _ s := GroundedIn.grows grounded (Grows.addInstance s c)
  refine { kept with classes := ?_, fields := ?_ }
  · intro i object found
    rcases getElem?_push_cases found with found | ⟨-, rfl⟩
    · exact kept.classes found
    · exact here
  · intro i object found
    rcases getElem?_push_cases found with found | ⟨-, rfl⟩
    · exact kept.fields found
    · exact Table.All.empty _

theorem setField {v : Value} (inside : v.In s) (i : InstanceId) (name : String) :
    (s.setField i name v).Grounded g := by
  have grows := Grows.setField s i name v
  have kept : GroundedIn g _ s := GroundedIn.grows grounded grows
  -- what an instance is now, as far as it has changed
  have before {i' : InstanceId} {object' : Instance}
      (found : (s.setField i name v).instanceAt? i' = some object') :
      ∃ object, s.instanceAt? i' = some object ∧ object'.cls = object.cls ∧
        (object'.fields = object.fields ∨ object'.fields = object.fields.insert name v) := by
    simp only [instanceAt?, Store.setField, Array.getElem?_modify] at found ⊢
    split at found
    · obtain ⟨object, old, rfl⟩ := Option.map_eq_some_iff.mp found
      exact ⟨object, old, rfl, .inr rfl⟩
    · exact ⟨object', found, rfl, .inl rfl⟩
  refine { kept with classes := ?_, fields := ?_ }
  · intro i' object' found
    obtain ⟨object, found, same, -⟩ := before found
    rw [same]
    exact kept.classes found
  · intro i' object' found
    obtain ⟨object, found, -, same | added⟩ := before found
    · rw [same]
      exact kept.fields found
    · rw [added]
      exact (kept.fields found).insert name (inside.grows grows)

/-! ### What is found -/

theorem binding {f : FrameId} {name : String} {v : Value} (bound : s.binding? f name = some v) :
    v.In s := by
  obtain ⟨frame, found, has⟩ := Option.bind_eq_some_iff.mp bound
  exact GroundedIn.bindings grounded found name v has

theorem bound {f : FrameId} {name : String} {v : Value} (found : s.bound f name = .ok v) : v.In s := by
  unfold Store.bound at found
  split at found
  · rename_i bound
    cases found
    exact grounded.binding bound
  · cases found

/-- What a class has or inherits closes over a frame that is there. -/
theorem findMethod {c : ClassId} {name : String} {method : Closure}
    (found : s.findMethod c name = some method) : s.Has method.frame := by
  obtain ⟨index⟩ := c
  induction index using Nat.strongRecOn with
  | ind index ih =>
    rw [Store.findMethod] at found
    split at found
    · cases found
    · rename_i cls present
      split at found
      · rename_i has
        cases found
        exact GroundedIn.methods grounded present name method has
      · split at found
        · cases found
        · rename_i parent _
          split at found
          · rename_i older
            exact ih parent.index older found
          · cases found

end Store.Grounded

end Lox
