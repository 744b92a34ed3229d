import Lox.Proofs.Grammar.Onward

/-!
# Reading does not depend on earlier problems

The rules of the grammar note problems after those noted before and never look at them. With some other
problems in front, a rule does the same and leaves them in front. The class `Rule.Frames` says so of a rule.
-/

namespace Lox

namespace Grammar

/-- The state with some other problems noted before its own. -/
def State.after (earlier : Array Diagnostic) (s : State) : State :=
  { s with problems := earlier ++ s.problems }

theorem State.note_after (earlier : Array Diagnostic) (s : State) (d : Diagnostic) :
    (s.after earlier).note d = (s.note d).after earlier := by
  simp only [State.note, State.after, Array.append_push]

namespace Rule

variable {α : Type}

/-- An outcome with other problems noted before those of its state. -/
def framed (earlier : Array Diagnostic) :
    EStateM.Result Diagnostic State α → EStateM.Result Diagnostic State α
  | .ok a s => .ok a (s.after earlier)
  | .error d s => .error d (s.after earlier)

/-- A rule that does the same whatever has been noted before. -/
class Frames (x : Rule α) : Prop where
  frame : ∀ earlier s, x (s.after earlier) = framed earlier (x s)

instance : Compositional fun _ x => Frames x where
  pure _ := ⟨fun _ _ => rfl⟩
  bind {_ _ x _} first next := by
    refine ⟨fun earlier s => ?_⟩
    have same := first.frame earlier s
    cases ran : x s with
    | ok a s' =>
      rw [ran] at same
      rw [bind_of_ok ran, bind_of_ok same]
      exact (next a).frame earlier s'
    | error d s' =>
      rw [ran] at same
      rw [bind_of_error ran, bind_of_error same]
      rfl
  recover {_ x} frames := by
    refine ⟨fun earlier s => ?_⟩
    have same := frames.frame earlier s
    unfold recover
    dsimp only
    rw [same]
    cases x s with
    | ok a s' => rfl
    | error d s' =>
      simp only [framed, State.note_after]
      rfl
  fail _ := ⟨fun _ _ => rfl⟩
  peek := ⟨fun _ _ => rfl⟩
  atEnd := ⟨fun _ _ => rfl⟩
  sees _ := ⟨fun _ _ => rfl⟩
  accept kind := by
    refine ⟨fun earlier s => ?_⟩
    unfold accept
    change (if s.head.kind = kind then _ else _) = framed earlier (if s.head.kind = kind then _ else _)
    split <;> rfl
  expect kind missing := by
    refine ⟨fun earlier s => ?_⟩
    unfold expect
    change (if s.head.kind = kind then _ else _) = framed earlier (if s.head.kind = kind then _ else _)
    split <;> rfl
  take := ⟨fun _ _ => rfl⟩
  note d := ⟨fun earlier s => congrArg (EStateM.Result.ok ()) (s.note_after earlier d)⟩
  freshId := ⟨fun _ _ => rfl⟩

instance {x : Rule α} [frames : Has (fun _ y => Frames y) x] : Frames x := frames.has

end Rule

end Grammar

end Lox
