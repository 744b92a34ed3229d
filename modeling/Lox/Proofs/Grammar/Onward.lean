import Lox.Proofs.Grammar.Compositional

/-!
# Rules go onward

Whether it succeeds or fails, a rule only takes tokens off the front, hands identities out upwards and
notes more problems. The class `Rule.Advances` says so of a rule; it is found for composed rules by
composition, so that an argument about one part of a rule can rely on what the other parts leave alone.
A rule that takes a token whenever it succeeds is in the class `Rule.Takes`.
-/

namespace Lox

namespace Grammar

/-- The later of two states of one reading. -/
structure Onward (s s' : State) : Prop where
  rest : s'.rest <:+ s.rest
  free : s.nextId ≤ s'.nextId
  problems : s.problems.toList <+: s'.problems.toList

theorem Onward.refl (s : State) : Onward s s :=
  ⟨List.suffix_rfl, Nat.le_refl _, List.prefix_rfl⟩

theorem Onward.trans {s₁ s₂ s₃ : State} (first : Onward s₁ s₂) (next : Onward s₂ s₃) :
    Onward s₁ s₃ :=
  ⟨next.rest.trans first.rest, Nat.le_trans first.free next.free,
    first.problems.trans next.problems⟩

/-- A problem that has been noted stays noted. -/
theorem Onward.clean {s₁ s₂ s₃ : State} (first : Onward s₁ s₂) (next : Onward s₂ s₃)
    (clean : s₃.problems = s₁.problems) :
    s₂.problems = s₁.problems ∧ s₃.problems = s₂.problems := by
  have same : s₂.problems.toList = s₁.problems.toList := by
    refine (first.problems.eq_of_length_le ?_).symm
    rw [← clean]
    exact next.problems.length_le
  have same := Array.toList_inj.mp same
  exact ⟨same, clean.trans same.symm⟩

/-- Taking the next token off. -/
theorem onward_tail (s : State) : Onward s { s with rest := s.rest.tail } :=
  ⟨List.tail_suffix _, Nat.le_refl _, List.prefix_rfl⟩

theorem onward_note (s : State) (d : Diagnostic) : Onward s (s.note d) := by
  refine ⟨List.suffix_rfl, Nat.le_refl _, ?_⟩
  simp only [State.note, Array.toList_push]
  exact List.prefix_append _ _

/-- What has been noted is among the problems from then on. -/
theorem Onward.noted {s s' : State} {d : Diagnostic} (onward : Onward (s.note d) s') :
    s'.problems ≠ s.problems := by
  intro same
  have longer := onward.problems.length_le
  rw [same, State.note, Array.toList_push, List.length_append, List.length_singleton] at longer
  exact Nat.not_succ_le_self _ longer

theorem onward_synchronize (s : State) : Onward s { s with rest := synchronize s.rest } :=
  ⟨synchronize_suffix _, Nat.le_refl _, List.prefix_rfl⟩

/-- A kind that no end of a source has. -/
class Inner (kind : Token.Kind) : Prop where
  ne_eof : kind ≠ .eof

instance (y : Symbol) : Inner (.symbol y) := ⟨nofun⟩

instance (k : Keyword) : Inner (.keyword k) := ⟨nofun⟩

instance : Inner .identifier := ⟨nofun⟩

instance (x : Float) : Inner (.number x) := ⟨nofun⟩

instance (text : String) : Inner (.string text) := ⟨nofun⟩

theorem Inner.ne_of_eq {kind : Token.Kind} [Inner kind] {t : Token} (seen : t.kind = kind) :
    t.kind ≠ .eof :=
  seen ▸ Inner.ne_eof

/-- A token that is not the end is there to be taken. -/
theorem State.rest_eq_cons {s : State} (token : s.head.kind ≠ .eof) :
    s.rest = s.head :: s.rest.tail := by
  cases left : s.rest with
  | nil =>
    rw [State.head, left] at token
    exact absurd rfl token
  | cons t rest => rw [State.head, left, List.headD_cons, List.tail_cons]

namespace Rule

variable {α β : Type}

/-- The state that a rule leaves behind. -/
def stateAfter : EStateM.Result Diagnostic State α → State
  | .ok _ s => s
  | .error _ s => s

/-- A rule that goes onward from every state. -/
class Advances (x : Rule α) : Prop where
  onward : ∀ s, Onward s (stateAfter (x s))

/-- A rule that has taken a token when it succeeds. -/
class Takes (x : Rule α) : Prop where
  fewer : ∀ s a s', x s = .ok a s' → s'.rest.length < s.rest.length

theorem Advances.ok {x : Rule α} [Advances x] {s s' : State} {a : α} (ran : x s = .ok a s') :
    Onward s s' := by
  have onward := Advances.onward (x := x) s
  rwa [ran] at onward

theorem bind_of_ok {x : Rule α} {f : α → Rule β} {s s' : State} {a : α} (ran : x s = .ok a s') :
    (x >>= f) s = f a s' := by
  change EStateM.bind x f s = _
  unfold EStateM.bind
  rw [ran]

theorem bind_of_error {x : Rule α} {f : α → Rule β} {s s' : State} {d : Diagnostic}
    (ran : x s = .error d s') : (x >>= f) s = .error d s' := by
  change EStateM.bind x f s = _
  unfold EStateM.bind
  rw [ran]

/-- Of two rules in sequence that succeed, each has succeeded. -/
theorem bind_eq_ok {x : Rule α} {f : α → Rule β} {s s' : State} {b : β}
    (ran : (x >>= f) s = .ok b s') : ∃ a s₁, x s = .ok a s₁ ∧ f a s₁ = .ok b s' := by
  cases left : x s with
  | ok a s₁ =>
    rw [bind_of_ok left] at ran
    exact ⟨a, s₁, rfl, ran⟩
  | error d s₁ =>
    rw [bind_of_error left] at ran
    cases ran

/-! ### Composition -/

instance (a : α) : Advances (pure a) := ⟨fun s => .refl s⟩

theorem Advances.bind {x : Rule α} {f : α → Rule β} (_ : Advances x) (_ : ∀ a, Advances (f a)) :
    Advances (x >>= f) where
  onward s := by
    have first := Advances.onward (x := x) s
    cases left : x s with
    | ok a s' =>
      rw [left] at first
      rw [bind_of_ok left]
      exact first.trans (Advances.onward (x := f a) s')
    | error d s' =>
      rw [left] at first
      rw [bind_of_error left]
      exact first

instance {x : Rule α} {f : α → Rule β} [Advances x] [∀ a, Advances (f a)] :
    Advances (x >>= f) := .bind inferInstance inferInstance

instance {x : Rule α} {f : α → β} [Advances x] : Advances (f <$> x) :=
  inferInstanceAs (Advances (x >>= fun a => pure (f a)))

instance {c : Prop} [Decidable c] {x y : Rule α} [Advances x] [Advances y] :
    Advances (if c then x else y) := by
  split <;> infer_instance

theorem Takes.bind {x : Rule α} {f : α → Rule β} (_ : Takes x) (_ : ∀ a, Advances (f a)) :
    Takes (x >>= f) where
  fewer s b s' ran := by
    obtain ⟨a, s₁, first, next⟩ := bind_eq_ok ran
    exact Nat.lt_of_le_of_lt (Advances.ok next).rest.length_le (Takes.fewer s a s₁ first)

instance {x : Rule α} {f : α → Rule β} [Takes x] [∀ a, Advances (f a)] : Takes (x >>= f) :=
  .bind inferInstance inferInstance

instance (priority := low) {x : Rule α} {f : α → Rule β} [Advances x] [∀ a, Takes (f a)] :
    Takes (x >>= f) where
  fewer s b s' ran := by
    obtain ⟨a, s₁, first, next⟩ := bind_eq_ok ran
    exact Nat.lt_of_lt_of_le (Takes.fewer s₁ b s' next) (Advances.ok first).rest.length_le

instance {c : Prop} [Decidable c] {x y : Rule α} [Takes x] [Takes y] :
    Takes (if c then x else y) := by
  split <;> infer_instance

/-! ### The rules for single tokens -/

instance : Advances peek := ⟨fun s => .refl s⟩

instance : Advances atEnd := ⟨fun s => .refl s⟩

instance (kind : Token.Kind) : Advances (sees kind) := ⟨fun s => .refl s⟩

instance (cause : SyntaxError) : Advances (fail cause : Rule α) := ⟨fun s => .refl s⟩

instance (d : Diagnostic) : Advances (note d) := ⟨fun s => onward_note s d⟩

instance : Advances take := ⟨fun s => onward_tail s⟩

instance : Advances freshId := ⟨fun _ => ⟨List.suffix_rfl, Nat.le_succ _, List.prefix_rfl⟩⟩

instance (kind : Token.Kind) : Advances (accept kind) where
  onward s := by
    unfold accept
    split
    · exact onward_tail s
    · exact .refl s

instance (kind : Token.Kind) (missing : SyntaxError) : Advances (expect kind missing) where
  onward s := by
    unfold expect
    split
    · exact onward_tail s
    · exact .refl s

instance (missing : SyntaxError) : Advances (name missing) := by
  unfold name
  infer_instance

/-- A rule that has failed is followed by recovery, which only skips. -/
instance {x : Rule α} [Advances x] : Advances (recover x) where
  onward s := by
    have first := Advances.onward (x := x) s
    unfold recover
    cases left : x s with
    | ok a s' =>
      rw [left] at first
      exact first
    | error d s' =>
      rw [left] at first
      exact (first.trans (onward_note s' d)).trans (onward_synchronize _)

/-- A rule that fails takes nothing by succeeding. -/
instance (cause : SyntaxError) : Takes (fail cause : Rule α) := ⟨fun _ _ _ ran => by cases ran⟩

instance (kind : Token.Kind) [Inner kind] (missing : SyntaxError) :
    Takes (expect kind missing) where
  fewer s t s' ran := by
    unfold expect at ran
    split at ran
    · rename_i seen
      cases ran
      rw [State.rest_eq_cons (Inner.ne_of_eq seen)]
      exact Nat.lt_succ_self _
    · cases ran

instance (missing : SyntaxError) : Takes (name missing) := by
  unfold name
  infer_instance

/-! ### All rules -/

instance : Compositional fun _ x => Advances x where
  pure _ := inferInstance
  bind := .bind
  recover _ := inferInstance
  fail _ := inferInstance
  peek := inferInstance
  atEnd := inferInstance
  sees _ := inferInstance
  accept _ := inferInstance
  expect _ _ := inferInstance
  take := inferInstance
  note _ := inferInstance
  freshId := inferInstance

private theorem advances_of_has {x : Rule α} [advances : Has (fun _ y => Advances y) x] : Advances x :=
  advances.has

section

variable (n : Nat)

instance : Advances (expression n) := advances_of_has

instance (level : Level) : Advances (joined n level) := advances_of_has

instance (level : Level) : Advances (operand n level) := advances_of_has

instance (level : Level) (left : Expr) : Advances (joinedFrom n level left) := advances_of_has

instance : Advances (prefixed n) := advances_of_has

instance (object : Expr) : Advances (suffixes n object) := advances_of_has

instance (done : List Expr) : Advances (arguments n done) := advances_of_has

instance : Advances (primary n) := advances_of_has

instance (stop : Token.Kind) : Advances (optionalValue n stop) := advances_of_has

instance : Advances (variableDeclaration n) := advances_of_has

instance : Advances (expressionStatement n) := advances_of_has

instance : Advances (printStatement n) := advances_of_has

instance (line : Nat) : Advances (returnStatement n line) := advances_of_has

instance (done : List Name) : Advances (parameters n done) := advances_of_has

instance : Advances (forInitializer n) := advances_of_has

instance : Advances superclass := advances_of_has

instance : Advances (declaration n) := advances_of_has

instance : Advances (classDeclaration n) := advances_of_has

instance (done : List FunctionDecl) : Advances (methods n done) := advances_of_has

instance (kind : FunctionKind) : Advances (function n kind) := advances_of_has

instance : Advances (statement n) := advances_of_has

instance : Advances (forStatement n) := advances_of_has

instance : Advances (ifStatement n) := advances_of_has

instance : Advances (whileStatement n) := advances_of_has

instance : Advances (block n) := advances_of_has

instance (stop : Token.Kind) (done : List Stmt) : Advances (declarations n stop done) := advances_of_has

end

end Rule

end Grammar

end Lox
