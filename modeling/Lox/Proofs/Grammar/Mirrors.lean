import Lox.Proofs.Grammar.Onward
import Lox.Proofs.Syntax.Relining

/-!
# Reading the same tokens before another end

A rule looks at most one token ahead. So as long as it does not come to the end, it reads the same tokens
in the same way whatever stands behind them, on other lines and within a larger bound. `Mirrors` speaks
only of runs that succeed and note no problem.
-/

namespace Lox

namespace Grammar

/-- Two places in two lists of tokens: what lies ahead of the one, up to its end token, lies on other lines
ahead of the other, and then comes `tail`. -/
structure Beside (f : Nat → Nat) (tail : List Token) (s s' : State) : Prop where
  ahead : ∃ ahead ending, s.rest = ahead ++ [ending] ∧ s'.rest = ahead.map (Token.reline f) ++ tail ∧
    (∀ t ∈ ahead, t.kind ≠ .eof) ∧ ending.kind = .eof
  nextId : s'.nextId = s.nextId
  problems : s'.problems = s.problems

namespace Beside

variable {f : Nat → Nat} {tail : List Token} {s s' : State}

/-- Before the end both places have the same next token. -/
theorem head (beside : Beside f tail s s') (before : 1 < s.rest.length) :
    s'.head = s.head.reline f := by
  obtain ⟨ahead, ending, left, right, -, -⟩ := beside.ahead
  cases ahead with
  | nil =>
    rw [left] at before
    exact absurd before (Nat.lt_irrefl 1)
  | cons t ahead =>
    rw [State.head, State.head, left, right]
    rfl

/-- Where the next token is not the end, more than the end is left. -/
theorem before_end (beside : Beside f tail s s') (inner : s.head.kind ≠ .eof) :
    1 < s.rest.length := by
  obtain ⟨ahead, ending, left, -, -, ended⟩ := beside.ahead
  cases ahead with
  | nil =>
    rw [State.head, left] at inner
    exact absurd ended inner
  | cons t ahead =>
    rw [left, List.cons_append, List.length_cons, List.length_append]
    exact Nat.succ_lt_succ (Nat.succ_pos _)

/-- At the end the other place is at the tail. -/
theorem at_end (beside : Beside f tail s s') (atEnd : s.rest.length = 1) :
    s'.rest = tail ∧ s.head.kind = .eof := by
  obtain ⟨ahead, ending, left, right, -, ended⟩ := beside.ahead
  cases ahead with
  | nil =>
    refine ⟨right, ?_⟩
    rw [State.head, left]
    exact ended
  | cons t ahead =>
    rw [left, List.cons_append, List.length_cons, List.length_append] at atEnd
    exact absurd (Nat.succ.inj atEnd) (Nat.succ_ne_zero _)

theorem inner (beside : Beside f tail s s') (before : 1 < s.rest.length) : s.head.kind ≠ .eof := by
  obtain ⟨ahead, ending, left, -, inner, -⟩ := beside.ahead
  cases ahead with
  | nil =>
    rw [left] at before
    exact absurd before (Nat.lt_irrefl 1)
  | cons t ahead =>
    rw [State.head, left]
    exact inner t List.mem_cons_self

/-- Both go past the next token. -/
theorem step (beside : Beside f tail s s') (before : 1 < s.rest.length) :
    Beside f tail { s with rest := s.rest.tail } { s' with rest := s'.rest.tail } := by
  obtain ⟨ahead, ending, left, right, inner, ended⟩ := beside.ahead
  cases ahead with
  | nil =>
    rw [left] at before
    exact absurd before (Nat.lt_irrefl 1)
  | cons t ahead =>
    refine ⟨⟨ahead, ending, ?_, ?_, fun u among => inner u (List.mem_cons_of_mem t among), ended⟩,
      beside.nextId, beside.problems⟩
    · rw [left]
      rfl
    · rw [right]
      rfl

end Beside

namespace Rule

variable {f : Nat → Nat} {tail : List Token} {m : Nat} {α β : Type}

/-- A run of `x` that notes no problem and leaves more than `m` tokens is a run of `x'` as well, which gives
the same on other lines. -/
structure Mirrors (f : Nat → Nat) (tail : List Token) (m : Nat) (g : α → α) (x x' : Rule α) : Prop where
  advances : Advances x
  mirror : ∀ {s s' s₁ : State} {a : α}, Beside f tail s s' → x s = .ok a s₁ →
    s₁.problems = s.problems → m < s₁.rest.length →
    ∃ s₁', x' s' = .ok (g a) s₁' ∧ Beside f tail s₁ s₁'

/-- The shorter the rest may be, the more is said. -/
theorem Mirrors.before {g : α → α} {x x' : Rule α} (mirrors : Mirrors f tail 0 g x x') :
    Mirrors f tail m g x x' :=
  ⟨mirrors.advances, fun beside ran clean left =>
    mirrors.mirror beside ran clean (Nat.lt_of_le_of_lt (Nat.zero_le m) left)⟩

theorem mirrors_pure {g : α → α} {a b : α} (same : b = g a) :
    Mirrors f tail m g (pure a) (pure b) := by
  refine ⟨inferInstance, fun beside ran _ _ => ?_⟩
  cases ran
  exact ⟨_, same ▸ rfl, beside⟩

/-- Of two rules in sequence, the first leaves what the second leaves, or more. -/
private theorem bind_mirrors {m' : Nat} {g : α → α} {h : β → β} {x x' : Rule α} {y y' : α → Rule β}
    (first : Mirrors f tail m' g x x') (next : ∀ a, Mirrors f tail m h (y a) (y' (g a)))
    (more : ∀ a s s₁ b, y a s = .ok b s₁ → m < s₁.rest.length → m' < s.rest.length) :
    Mirrors f tail m h (x >>= y) (x' >>= y') where
  advances := .bind first.advances fun a => (next a).advances
  mirror := by
    intro s s' s₂ b beside ran clean left
    have := first.advances
    obtain ⟨a, s₁, ranFirst, ranNext⟩ := bind_eq_ok ran
    have := (next a).advances
    have cleans := (Advances.ok ranFirst).clean (Advances.ok ranNext) clean
    obtain ⟨s₁', ranFirst', beside₁⟩ :=
      first.mirror beside ranFirst cleans.1 (more a s₁ s₂ b ranNext left)
    obtain ⟨s₂', ranNext', beside₂⟩ := (next a).mirror beside₁ ranNext cleans.2 left
    refine ⟨s₂', ?_, beside₂⟩
    change EStateM.bind x' y' s' = _
    unfold EStateM.bind
    rw [ranFirst']
    exact ranNext'

theorem Mirrors.bind {g : α → α} {h : β → β} {x x' : Rule α} {y y' : α → Rule β}
    (first : Mirrors f tail m g x x') (next : ∀ a, Mirrors f tail m h (y a) (y' (g a))) :
    Mirrors f tail m h (x >>= y) (x' >>= y') :=
  bind_mirrors first next fun a s s₁ b ran left => by
    have := (next a).advances
    exact Nat.lt_of_lt_of_le left (Advances.ok ran).rest.length_le

/-- A rule that is followed by one that takes a token does not come to the end. -/
theorem Mirrors.bindTaking {g : α → α} {h : β → β} {x x' : Rule α} {y y' : α → Rule β}
    (first : Mirrors f tail 1 g x x') (takes : ∀ a, Takes (y a))
    (next : ∀ a, Mirrors f tail 0 h (y a) (y' (g a))) :
    Mirrors f tail 0 h (x >>= y) (x' >>= y') :=
  bind_mirrors first next fun a s s₁ b ran left =>
    Nat.lt_of_le_of_lt left ((takes a).fewer s b s₁ ran)

theorem Mirrors.ite {g : α → α} {x x' y y' : Rule α} {c : Prop} [Decidable c]
    (yes : Mirrors f tail m g x x') (no : Mirrors f tail m g y y') :
    Mirrors f tail m g (if c then x else y) (if c then x' else y') := by
  split
  · exact yes
  · exact no

theorem Mirrors.map {g : α → α} {h : β → β} {x x' : Rule α} {p : α → β}
    (read : Mirrors f tail m g x x') (commute : ∀ a, p (g a) = h (p a)) :
    Mirrors f tail m h (p <$> x) (p <$> x') :=
  read.bind fun a => mirrors_pure (commute a)

theorem mirrors_fail (cause : SyntaxError) (g : α → α) (x' : Rule α) :
    Mirrors f tail m g (fail cause) x' :=
  ⟨inferInstance, fun _ ran _ _ => by cases ran⟩

/-- A rule that notes a problem has no run to speak of. -/
theorem mirrors_note {d : Diagnostic} {h : β → β} {y : Unit → Rule β} {x' : Rule β}
    (advances : ∀ a, Advances (y a)) : Mirrors f tail m h (note d >>= y) x' where
  advances := .bind inferInstance advances
  mirror := by
    intro s s' s₁ b beside ran clean left
    obtain ⟨a, s₂, ranFirst, ranNext⟩ := bind_eq_ok ran
    have := advances a
    have onward := Advances.ok ranNext
    cases ranFirst
    exact absurd clean onward.noted

theorem mirrors_peek : Mirrors f tail 1 (Token.reline f) peek peek := by
  refine ⟨inferInstance, fun {s s' s₁ a} beside ran _ left => ?_⟩
  cases ran
  exact ⟨s', congrArg (EStateM.Result.ok · s') (beside.head left), beside⟩

theorem mirrors_sees (kind : Token.Kind) : Mirrors f tail 1 id (sees kind) (sees kind) := by
  refine ⟨inferInstance, fun {s s' s₁ a} beside ran _ left => ?_⟩
  cases ran
  refine ⟨s', ?_, beside⟩
  rw [sees, beside.head left]
  rfl

theorem mirrors_atEnd : Mirrors f tail 1 id atEnd atEnd := by
  refine ⟨inferInstance, fun {s s' s₁ a} beside ran _ left => ?_⟩
  cases ran
  refine ⟨s', ?_, beside⟩
  rw [atEnd, State.atEnd, beside.head left]
  rfl

theorem mirrors_take : Mirrors f tail m id take take := by
  refine ⟨inferInstance, fun {s s' s₁ a} beside ran _ left => ?_⟩
  cases ran
  have before : 1 < s.rest.length := by
    have more : m < s.rest.tail.length := left
    rw [List.length_tail] at more
    omega
  exact ⟨_, rfl, beside.step before⟩

theorem mirrors_freshId : Mirrors f tail m id freshId freshId := by
  refine ⟨inferInstance, fun {s s' s₁ a} beside ran _ _ => ?_⟩
  cases ran
  refine ⟨{ s' with nextId := s'.nextId + 1 }, ?_, beside.ahead, ?_, beside.problems⟩
  · rw [freshId, beside.nextId]
    rfl
  · exact congrArg (· + 1) beside.nextId

/-- A token that is accepted, or not, on one side is so on the other, if the tail does not start with one
of its kind. -/
private theorem accept_mirrors {s s' s₁ : State} {kind : Token.Kind} {a : Bool} (inner : kind ≠ .eof)
    (beside : Beside f tail s s') (ran : accept kind s = .ok a s₁)
    (same : s'.head.kind = kind ↔ s.head.kind = kind) :
    ∃ s₁', accept kind s' = .ok a s₁' ∧ Beside f tail s₁ s₁' := by
  unfold accept at ran ⊢
  by_cases seen : s.head.kind = kind
  · rw [if_pos seen] at ran
    rw [if_pos (same.mpr seen)]
    cases ran
    exact ⟨_, rfl, beside.step (beside.before_end (seen ▸ inner))⟩
  · rw [if_neg seen] at ran
    rw [if_neg (mt same.mp seen)]
    cases ran
    exact ⟨_, rfl, beside⟩

theorem mirrors_accept (kind : Token.Kind) [Inner kind] :
    Mirrors f tail 1 id (accept kind) (accept kind) := by
  refine ⟨inferInstance, fun {s s' s₁ a} beside ran _ left => ?_⟩
  have before := Nat.lt_of_lt_of_le left (Advances.ok ran).rest.length_le
  exact accept_mirrors Inner.ne_eof beside ran (by rw [beside.head before, Token.reline_kind])

/-- What does not stand in front of the tail is not found at the end either. -/
theorem mirrors_accept_at_end (kind : Token.Kind) [Inner kind]
    (absent : (tail.headD default).kind ≠ kind) :
    Mirrors f tail 0 id (accept kind) (accept kind) := by
  refine ⟨inferInstance, fun {s s' s₁ a} beside ran _ left => ?_⟩
  have some := Nat.lt_of_lt_of_le left (Advances.ok ran).rest.length_le
  refine accept_mirrors Inner.ne_eof beside ran ?_
  by_cases before : 1 < s.rest.length
  · rw [beside.head before, Token.reline_kind]
  · obtain ⟨right, ended⟩ := beside.at_end (by omega)
    rw [State.head, right, ended]
    exact iff_of_false absent (Ne.symm Inner.ne_eof)

theorem mirrors_expect (kind : Token.Kind) [Inner kind] (missing : SyntaxError) :
    Mirrors f tail m (Token.reline f) (expect kind missing) (expect kind missing) := by
  refine ⟨inferInstance, fun {s s' s₁ a} beside ran _ _ => ?_⟩
  unfold expect at ran ⊢
  split at ran
  · rename_i seen
    have before := beside.before_end (Inner.ne_of_eq seen)
    have seen' : s'.head.kind = kind := by rw [beside.head before, Token.reline_kind, seen]
    cases ran
    rw [if_pos seen', beside.head before]
    exact ⟨_, rfl, beside.step before⟩
  · cases ran

theorem mirrors_name (missing : SyntaxError) :
    Mirrors f tail m (Name.reline f) (name missing) (name missing) :=
  (mirrors_expect _ _).bind fun _ => mirrors_pure rfl

/-- A failure is noted, so a rule with recovery that notes nothing has succeeded. -/
theorem recover_clean {x : Rule α} [Advances x] {s s₁ : State} {a : Option α}
    (ran : recover x s = .ok a s₁) (clean : s₁.problems = s.problems) :
    ∃ b, a = some b ∧ x s = .ok b s₁ := by
  have onward := Advances.onward (x := x) s
  unfold Rule.recover at ran
  cases outcome : x s with
  | ok b s₂ =>
    rw [outcome] at ran
    cases ran
    exact ⟨b, rfl, rfl⟩
  | error d s₂ =>
    rw [outcome] at ran onward
    cases ran
    have skipped : Onward (s₂.note d) _ := onward_synchronize (s₂.note d)
    exact absurd (onward.clean ((onward_note s₂ d).trans skipped) clean).2 skipped.noted

theorem mirrors_recover_fail (cause : SyntaxError) (g : Option α → Option α)
    (x' : Rule (Option α)) : Mirrors f tail m g (recover (fail cause)) x' := by
  refine ⟨inferInstance, fun {s s' s₁ a} beside ran clean _ => ?_⟩
  obtain ⟨_, _, failed⟩ := recover_clean ran clean
  cases failed

theorem Mirrors.recover {g : α → α} {x x' : Rule α} (read : Mirrors f tail m g x x') :
    Mirrors f tail m (Option.map g) (recover x) (recover x') := by
  have := read.advances
  refine ⟨inferInstance, fun {s s' s₁ a} beside ran clean left => ?_⟩
  obtain ⟨b, rfl, succeeded⟩ := recover_clean ran clean
  obtain ⟨s₁', ran', beside₁⟩ := read.mirror beside succeeded clean left
  refine ⟨s₁', ?_, beside₁⟩
  unfold Rule.recover
  rw [ran']
  rfl

end Rule

open Rule

/-! ### Expressions -/

theorem join_reline (f : Nat → Nat) (level : Level) (left right : Expr) (operator : Token) :
    level.join (left.reline f) (operator.reline f) (right.reline f) =
      (level.join left operator right).reline f := by
  cases level <;> simp only [Level.join, Expr.reline]

/-- Within the bounds `n` and `k + n`, the rules for expressions read the same before the end and before
the tail. -/
structure ExpressionsMirror (f : Nat → Nat) (tail : List Token) (k n : Nat) : Prop where
  expression : Mirrors f tail 1 (Expr.reline f) (expression n) (expression (k + n))
  joined (level : Level) : Mirrors f tail 1 (Expr.reline f) (joined n level) (joined (k + n) level)
  operand (level : Level) : Mirrors f tail 1 (Expr.reline f) (operand n level) (operand (k + n) level)
  joinedFrom (level : Level) (left : Expr) :
    Mirrors f tail 1 (Expr.reline f) (joinedFrom n level left)
      (joinedFrom (k + n) level (left.reline f))
  prefixed : Mirrors f tail 1 (Expr.reline f) (prefixed n) (prefixed (k + n))
  suffixes (object : Expr) :
    Mirrors f tail 1 (Expr.reline f) (suffixes n object) (suffixes (k + n) (object.reline f))
  arguments (done : List Expr) :
    Mirrors f tail 1 (List.map (Expr.reline f)) (arguments n done)
      (arguments (k + n) (done.map (Expr.reline f)))
  primary : Mirrors f tail 1 (Expr.reline f) (primary n) (primary (k + n))

section Steps

variable {f : Nat → Nat} {tail : List Token} {k n : Nat} (ih : ExpressionsMirror f tail k n)

include ih

private theorem expression_mirrors :
    Mirrors f tail 1 (Expr.reline f) (expression (n + 1)) (expression (k + n + 1)) := by
  unfold expression
  apply (ih.joined .or).bind
  intro target
  apply mirrors_peek.bind
  intro equals
  apply (mirrors_accept _).bind
  intro taken
  refine .ite ?_ (mirrors_pure rfl)
  apply ih.expression.bind
  intro value
  -- what stands before the equals sign decides what the assignment becomes
  cases target
  case «variable» name id =>
    apply mirrors_freshId.bind
    intro fresh
    exact mirrors_pure (by simp only [Expr.reline, id_eq])
  case get object name => exact mirrors_pure (by simp only [Expr.reline])
  all_goals exact mirrors_note fun _ => inferInstance

private theorem operand_mirrors (level : Level) :
    Mirrors f tail 1 (Expr.reline f) (operand (n + 1) level) (operand (k + n + 1) level) := by
  unfold operand
  split
  · exact ih.joined _
  · exact ih.prefixed

private theorem joinedFrom_mirrors (level : Level) (left : Expr) :
    Mirrors f tail 1 (Expr.reline f) (joinedFrom (n + 1) level left)
      (joinedFrom (k + n + 1) level (left.reline f)) := by
  unfold joinedFrom
  apply mirrors_peek.bind
  intro operator
  refine .ite ?_ (mirrors_pure rfl)
  apply mirrors_take.bind
  intro _
  apply (ih.operand level).bind
  intro right
  rw [join_reline]
  exact ih.joinedFrom level _

private theorem prefixed_mirrors :
    Mirrors f tail 1 (Expr.reline f) (prefixed (n + 1)) (prefixed (k + n + 1)) := by
  unfold prefixed
  apply mirrors_peek.bind
  intro operator
  refine .ite ?_ ?_
  · apply mirrors_take.bind
    intro _
    apply ih.prefixed.bind
    intro right
    exact mirrors_pure (by simp only [Expr.reline])
  · exact ih.primary.bind fun callee => ih.suffixes callee

private theorem suffixes_mirrors (object : Expr) :
    Mirrors f tail 1 (Expr.reline f) (suffixes (n + 1) object)
      (suffixes (k + n + 1) (object.reline f)) := by
  have call (arguments : List Expr) (paren : Token) :
      Expr.call (object.reline f) (paren.reline f).line (arguments.map (Expr.reline f)) =
        (Expr.call object paren.line arguments).reline f := by
    simp only [Expr.reline, relineExpressions_eq_map, Token.reline_line]
  have get (name : Name) :
      Expr.get (object.reline f) (name.reline f) = (Expr.get object name).reline f := by
    simp only [Expr.reline]
  -- what follows a list of arguments, in both branches of the rule
  have close (arguments : List Expr) :
      Mirrors f tail 1 (Expr.reline f)
        (do let paren ← expect (.symbol .rightParen) .openArgumentList
            Grammar.suffixes n (.call object paren.line arguments))
        (do let paren ← expect (.symbol .rightParen) .openArgumentList
            Grammar.suffixes (k + n) (.call (object.reline f) paren.line
              (arguments.map (Expr.reline f)))) := by
    apply (mirrors_expect _ _).bind
    intro paren
    rw [call]
    exact ih.suffixes _
  unfold suffixes
  apply (mirrors_accept _).bind
  intro parens
  refine .ite ?_ ?_
  · apply (mirrors_sees _).bind
    intro empty
    refine .ite ?_ ?_
    · exact Mirrors.bind (mirrors_pure rfl) fun arguments => close arguments
    · exact (ih.arguments []).bind fun arguments => close arguments
  · apply (mirrors_accept _).bind
    intro dot
    refine .ite ?_ (mirrors_pure rfl)
    apply (mirrors_name _).bind
    intro property
    rw [get]
    exact ih.suffixes _

private theorem arguments_mirrors (done : List Expr) :
    Mirrors f tail 1 (List.map (Expr.reline f)) (arguments (n + 1) done)
      (arguments (k + n + 1) (done.map (Expr.reline f))) := by
  have rest : Mirrors f tail 1 (List.map (Expr.reline f))
      (do let argument ← Grammar.expression n
          if ← accept (.symbol .comma) then Grammar.arguments n (argument :: done)
          else return (argument :: done).reverse)
      (do let argument ← Grammar.expression (k + n)
          if ← accept (.symbol .comma) then
            Grammar.arguments (k + n) (argument :: done.map (Expr.reline f))
          else return (argument :: done.map (Expr.reline f)).reverse) := by
    apply ih.expression.bind
    intro argument
    apply (mirrors_accept _).bind
    intro comma
    refine .ite ?_ ?_
    · exact ih.arguments (argument :: done)
    · exact mirrors_pure (by simp)
  unfold arguments
  rw [List.length_map]
  exact .ite (mirrors_peek.bind fun t => mirrors_note fun _ => rest.advances) rest

private theorem primary_mirrors :
    Mirrors f tail 1 (Expr.reline f) (primary (n + 1)) (primary (k + n + 1)) := by
  have literal (c : Literal) : Mirrors f tail 1 (Expr.reline f) (do take; return .literal c)
      (do take; return .literal c) :=
    mirrors_take.bind fun _ => mirrors_pure (by simp only [Expr.reline])
  unfold primary
  refine mirrors_peek.bind fun t => ?_
  dsimp only [Token.reline]
  split
  -- `super`, `this`, a name and an expression in parentheses
  case h_6 =>
    apply mirrors_take.bind
    intro _
    apply (mirrors_expect _ _).bind
    intro dot
    apply (mirrors_name _).bind
    intro method
    apply mirrors_freshId.bind
    intro fresh
    exact mirrors_pure (by simp only [Expr.reline, Name.reline, id_eq])
  case h_7 =>
    apply mirrors_take.bind
    intro _
    apply mirrors_freshId.bind
    intro fresh
    exact mirrors_pure (by simp only [Expr.reline, Name.reline, id_eq])
  case h_8 =>
    apply mirrors_take.bind
    intro _
    apply mirrors_freshId.bind
    intro fresh
    exact mirrors_pure (by simp only [Expr.reline, Name.reline, id_eq])
  case h_9 =>
    apply mirrors_take.bind
    intro _
    apply ih.expression.bind
    intro inner
    apply (mirrors_expect _ _).bind
    intro paren
    exact mirrors_pure (by simp only [Expr.reline])
  case h_10 => exact mirrors_fail _ _ _
  all_goals exact literal _

end Steps

/-- The rules for expressions read the same before any tail, by induction on the bound. -/
theorem expressions_mirror (f : Nat → Nat) (tail : List Token) (k n : Nat) :
    ExpressionsMirror f tail k n := by
  induction n with
  | zero =>
    constructor <;> intros <;> exact mirrors_fail _ _ _
  | succ n ih =>
    exact {
      expression := expression_mirrors ih
      joined := fun level => (ih.operand level).bind fun left => ih.joinedFrom level left
      operand := operand_mirrors ih
      joinedFrom := joinedFrom_mirrors ih
      prefixed := prefixed_mirrors ih
      suffixes := suffixes_mirrors ih
      arguments := arguments_mirrors ih
      primary := primary_mirrors ih }

end Grammar

end Lox
