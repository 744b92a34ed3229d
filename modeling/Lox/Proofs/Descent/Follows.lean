import Lox.Proofs.Descent.Moves
import Lox.Proofs.Grammar.Taking

/-!
# A descent follows the grammar

A walk along the slice follows a rule of the grammar from a place if it comes to an end there, fails just when
the rule does, with the same diagnostic, and leaves the cursor where the rule leaves off. What is shown here is
how this composes, step by step.
-/

namespace Lox

namespace Descent

open Grammar (State Rule Inner)

open Grammar.Rule (stateAfter)

/-- What came of a rule, without the state. -/
def outcome {α : Type} : EStateM.Result Diagnostic State α → Except Diagnostic α
  | .ok a _ => .ok a
  | .error d _ => .error d

/-- The walk ends as the rule does. -/
def Follows {α : Type} (x : Attempt α) (y : Rule α) (c : Cursor) (s : State) : Prop :=
  ∃ c', Goes x.run c (outcome (y s)) c' ∧ Represents c' (stateAfter (y s))

/-- A walk that cannot fail, as an attempt. -/
theorem Goes.lift {α : Type} {w : Walk α} {c c' : Cursor} {a : α} (goes : Goes w c a c') :
    Goes (liftM w : Attempt α).run c (.ok a) c' := by
  refine ⟨?_, goes.moves⟩
  change (w c).bind _ = _
  rw [goes.ran]
  rfl

namespace Follows

variable {α β : Type} {x : Attempt α} {y : Rule α} {f : α → Attempt β} {g : α → Rule β} {c : Cursor}
  {s : State}

theorem pure (at_ : Represents c s) (a : α) : Follows (pure a) (pure a) c s := ⟨c, .pure _ c, at_⟩

/-- The rest of an attempt is left out if it has failed. -/
theorem run_bind (x : Attempt α) (f : α → Attempt β) (c : Cursor) :
    (x >>= f).run c = (x.run c).bind fun p => match p.1 with
      | .ok a => (f a).run p.2
      | .error d => some (.error d, p.2) := by
  change (x.run c).bind _ = _
  congr 1
  funext ⟨outcome, c'⟩
  cases outcome <;> rfl

theorem bind (first : Follows x y c s)
    (next : ∀ a s' c', y s = .ok a s' → Represents c' s' → Follows (f a) (g a) c' s') :
    Follows (x >>= f) (y >>= g) c s := by
  obtain ⟨c₁, ⟨ran, moves⟩, at₁⟩ := first
  cases result : y s with
  | ok a s' =>
    rw [result] at ran at₁
    obtain ⟨c₂, ⟨ran', moves'⟩, at₂⟩ := next a s' c₁ result at₁
    refine ⟨c₂, ⟨?_, moves.trans moves'⟩, ?_⟩
    · rw [run_bind, ran, Rule.bind_of_ok result]
      exact ran'
    · rw [Rule.bind_of_ok result]
      exact at₂
  | error d s' =>
    rw [result] at ran at₁
    refine ⟨c₁, ⟨?_, moves⟩, ?_⟩
    · rw [run_bind, ran, Rule.bind_of_error result]
      rfl
    · rw [Rule.bind_of_error result]
      exact at₁

/-- A step of the walk alone. -/
theorem walk {w : Walk α} {z : Rule β} {a : α} {c₁ : Cursor} (goes : Goes w c a c₁)
    (next : Follows (f a) z c₁ s) : Follows ((liftM w : Attempt α) >>= f) z c s := by
  obtain ⟨c₂, ⟨ran, moves⟩, at₂⟩ := next
  refine ⟨c₂, ⟨?_, goes.moves.trans moves⟩, at₂⟩
  rw [run_bind, goes.lift.ran]
  exact ran

theorem rests {w : Walk α} {z : Rule β} {a : α} (at_ : Represents c s) (goes : Rests w c a)
    (next : ∀ c₁, Stays c c₁ → Represents c₁ s → Follows (f a) z c₁ s) :
    Follows ((liftM w : Attempt α) >>= f) z c s := by
  obtain ⟨c₁, goes, stays⟩ := goes
  exact walk goes (next c₁ stays (at_.stays stays))

theorem map (first : Follows x y c s) (h : α → β) : Follows (h <$> x) (h <$> y) c s := by
  have both := first.bind (f := fun a => Pure.pure (h a)) (g := fun a => Pure.pure (h a))
    fun a _ _ _ at' => .pure at' (h a)
  rw [bind_pure_comp] at both
  exact both

/-- A step of the rule alone. -/
theorem peek {g : Token → Rule β} {x : Attempt β} (next : Follows x (g s.head) c s) :
    Follows x (Rule.peek >>= g) c s := next

theorem sees {g : Bool → Rule β} {x : Attempt β} {kind : Token.Kind}
    (next : Follows x (g (s.head.kind = kind)) c s) : Follows x (Rule.sees kind >>= g) c s := next

theorem ended {g : Bool → Rule β} {x : Attempt β} (next : Follows x (g s.atEnd) c s) :
    Follows x (Rule.atEnd >>= g) c s := next

/-- A token that the rule takes in any case has been gone past. -/
theorem take {w : Walk α} {a : α} {c₁ : Cursor} {g : Unit → Rule β} (goes : Goes w c a c₁)
    (next : Follows (f a) (g ()) c₁ (taken s)) :
    Follows ((liftM w : Attempt α) >>= f) (Rule.take >>= g) c s :=
  walk goes next

/-! ### Single tokens -/

theorem accepts {f : Bool → Attempt β} {g : Bool → Rule β} {kind : Token.Kind} [Inner kind]
    (at_ : Represents c s)
    (yes : s.head.kind = kind → ∀ c₁, Represents c₁ (taken s) → Prior c₁ s.head →
      Follows (f true) (g true) c₁ (taken s))
    (no : s.head.kind ≠ kind → ∀ c₁, Represents c₁ s → Follows (f false) (g false) c₁ s) :
    Follows ((liftM (Descent.accepts kind) : Attempt Bool) >>= f) (Rule.accept kind >>= g) c s := by
  obtain ⟨goes, rests⟩ := at_.accepts kind
  by_cases same : s.head.kind = kind
  · obtain ⟨c₁, goes, at₁, prior⟩ := goes same
    have accepted : (Rule.accept kind >>= g) s = g true (taken s) := Rule.bind_of_ok (if_pos same)
    rw [Follows, accepted]
    exact walk goes (yes same c₁ at₁ prior)
  · have refused : (Rule.accept kind >>= g) s = g false s := Rule.bind_of_ok (if_neg same)
    rw [Follows, refused]
    exact Follows.rests at_ (rests same) fun c₁ _ at₁ => no same c₁ at₁

/-- A token that has been looked at by the rule is compared and gone past. -/
theorem accepts_take {f : Bool → Attempt β} {g : Unit → Rule β} {kind : Token.Kind} [Inner kind]
    (at_ : Represents c s) (same : s.head.kind = kind)
    (next : ∀ c₁, Represents c₁ (taken s) → Prior c₁ s.head → Follows (f true) (g ()) c₁ (taken s)) :
    Follows ((liftM (Descent.accepts kind) : Attempt Bool) >>= f) (Rule.take >>= g) c s := by
  obtain ⟨c₁, goes, at₁, prior⟩ := (at_.accepts kind).1 same
  exact walk goes (next c₁ at₁ prior)

/-- A token that the rule knows to be of another kind is compared in vain. -/
theorem refuses {f : Bool → Attempt β} {z : Rule β} {kind : Token.Kind} [Inner kind]
    (at_ : Represents c s) (other : s.head.kind ≠ kind)
    (next : ∀ c₁, Represents c₁ s → Follows (f false) z c₁ s) :
    Follows ((liftM (Descent.accepts kind) : Attempt Bool) >>= f) z c s :=
  rests at_ ((at_.accepts kind).2 other) fun c₁ _ at₁ => next c₁ at₁

theorem check {f : Bool → Attempt β} {g : Bool → Rule β} {kind : Token.Kind} [Inner kind]
    (at_ : Represents c s)
    (next : ∀ c₁, Represents c₁ s → Follows (f (s.head.kind = kind)) (g (s.head.kind = kind)) c₁ s) :
    Follows ((liftM (Descent.check kind) : Attempt Bool) >>= f) (Rule.sees kind >>= g) c s :=
  rests at_ (at_.check kind) fun c₁ _ at₁ => next c₁ at₁

theorem previous {t : Token} {f : Token → Attempt β} {z : Rule β} (at_ : Represents c s)
    (prior : Prior c t) (next : ∀ c₁, Represents c₁ s → Prior c₁ t → Follows (f t) z c₁ s) :
    Follows ((liftM Descent.previous : Attempt Token) >>= f) z c s :=
  rests at_ prior.previous fun c₁ stays at₁ => next c₁ at₁ (prior.stays stays)

theorem fail (at_ : Represents c s) (cause : SyntaxError) :
    Follows (Descent.fail cause : Attempt β) (Rule.fail cause) c s :=
  rests at_ at_.peek fun c₁ _ at₁ => ⟨c₁, .pure _ c₁, at₁⟩

theorem consume (at_ : Represents c s) (kind : Token.Kind) [Inner kind] (missing : SyntaxError) :
    Follows (Descent.consume kind missing) (Rule.expect kind missing) c s := by
  refine rests at_ (at_.check kind) fun c₁ _ at₁ => ?_
  by_cases same : s.head.kind = kind
  · obtain ⟨c₂, goes, at₂, -⟩ := at₁.advance (Inner.ne_of_eq same)
    rw [if_pos (decide_eq_true same), Follows, Rule.expect, if_pos same]
    exact ⟨c₂, goes.lift, at₂⟩
  · rw [if_neg (by simpa using same), Follows, Rule.expect, if_neg same]
    exact fail at₁ missing

theorem name (at_ : Represents c s) (missing : SyntaxError) :
    Follows (Descent.name missing) (Rule.name missing) c s :=
  (consume at_ .identifier missing).bind fun _ _ _ _ at' => .pure at' _

theorem freshId (at_ : Represents c s) :
    Follows (liftM Descent.freshId : Attempt NodeId) Rule.freshId c s := by
  have moves : Moves c { c with nextId := c.nextId + 1 } :=
    ⟨rfl, Nat.le_refl _, [], rfl, .nil, nofun, nofun⟩
  refine ⟨{ c with nextId := c.nextId + 1 }, ⟨?_, moves⟩, at_.rest, ?_, at_.problems, at_.inside, at_.closed⟩
  · rw [show outcome (Rule.freshId s) = .ok c.nextId from congrArg Except.ok at_.nextId]
    rfl
  · exact congrArg (· + 1) at_.nextId

theorem report (at_ : Represents c s) (d : Diagnostic) :
    Follows (liftM (Descent.report d) : Attempt Unit) (Rule.note d) c s := by
  obtain ⟨c', goes, at', -⟩ := at_.report d
  exact ⟨c', goes.lift, at'⟩

end Follows

/-! ### Recovery -/

/-- The walk ends as the rule does, which does not fail. -/
def Keeps {α : Type} (w : Walk α) (y : Rule α) (c : Cursor) (s : State) : Prop :=
  ∃ a s' c', y s = .ok a s' ∧ Goes w c a c' ∧ Represents c' s'

/-- Part of an attempt is a walk that does not fail. -/
theorem Follows.keeps {α β : Type} {w : Walk α} {y : Rule α} {f : α → Attempt β} {g : α → Rule β}
    {c : Cursor} {s : State} (keeps : Keeps w y c s)
    (next : ∀ a s' c', y s = .ok a s' → Represents c' s' → Follows (f a) (g a) c' s') :
    Follows ((liftM w : Attempt α) >>= f) (y >>= g) c s := by
  obtain ⟨a, s₁, c₁, ran, goes, at₁⟩ := keeps
  have first : Follows (liftM w : Attempt α) y c s := by
    refine ⟨c₁, ?_, ?_⟩
    · rw [ran]
      exact goes.lift
    · rw [ran]
      exact at₁
  exact first.bind next

/-- A walk that starts before the end can always recover. -/
theorem Follows.recovering {α : Type} {x : Attempt α} {y : Rule α} {c : Cursor} {s : State} {n : Nat}
    (follows : Follows x y c s) (at_ : Represents c s) (started : s.head.kind ≠ .eof)
    (enough : s.rest.length ≤ n) :
    Keeps (Descent.recovering n x) (Rule.recover y) c s := by
  obtain ⟨c₁, goes, at₁⟩ := follows
  cases ran : y s with
  | ok a s₁ =>
    rw [ran] at goes at₁
    exact ⟨some a, s₁, c₁, Rule.recover_ok ran, goes.bind (.pure _ c₁), at₁⟩
  | error d s₁ =>
    rw [ran] at goes at₁
    obtain ⟨c₂, reports, at₂, still⟩ := Represents.report at₁ d
    have ahead (ended : s₁.head.kind = .eof) : 0 < c₂.current := by
      -- the end was not reached when the rule started
      have before := Nat.lt_of_le_of_ne at_.inside (mt at_.head_eof_iff.mpr started)
      have reached := at₁.head_eof_iff.mp ended
      rw [goes.moves.tokens] at reached
      rw [still, reached]
      exact Nat.lt_of_le_of_lt (Nat.zero_le _) before
    have enough₁ : s₁.rest.length ≤ n := by
      have counted := at_.length_rest
      have counted₁ : s₁.rest.length + c₁.current = c₁.tokens.length := at₁.length_rest
      have forward := goes.moves.forward
      rw [goes.moves.tokens] at counted₁
      omega
    obtain ⟨c₃, skips, at₃⟩ := at₂.synchronize ahead enough₁
    exact ⟨none, _, c₃, Rule.recover_error ran,
      goes.bind (reports.bind (skips.bind (.pure none c₃))), at₃⟩

end Descent

end Lox
