import Lox.Proofs.Syntax.Numbered
import Lox.Proofs.Token.Spelling
import Lox.Reading

/-!
# What the rules for expressions produce

From tokens that are written as their kinds demand the rules produce well-formed trees, and they number
the nodes of a tree with identities that they have not handed out before. One invariant goes through
all rules: the tokens left are well spelt and the next free identity never goes down, also when a rule
fails.
-/

namespace Lox

namespace Grammar

open Rule

/-- The tokens that are left are written as their kinds demand. -/
def State.Spelt (s : State) : Prop := ∀ t ∈ s.rest, t.Spelt

theorem State.Spelt.head {s : State} (spelt : s.Spelt) : s.head.Spelt := by
  rw [State.head]
  cases left : s.rest with
  | nil => trivial
  | cons t rest => exact spelt t (left ▸ List.mem_cons_self)

theorem State.Spelt.tail {s : State} (spelt : s.Spelt) :
    State.Spelt { s with rest := s.rest.tail } :=
  fun t member => spelt t (List.mem_of_mem_tail member)

/-- What is left after a rule: well-spelt tokens, and no identity below those that were free. -/
structure Continues (s s' : State) : Prop where
  spelt : s'.Spelt
  free : s.nextId ≤ s'.nextId

/-- From well-spelt tokens the rule produces only trees in the relation `Q` to the next free identity
after it. -/
def Yields {α : Type} (s : State) (rule : Rule α) (Q : NodeId → α → Prop) : Prop :=
  s.Spelt →
    match rule s with
    | .ok a s' => Continues s s' ∧ Q s'.nextId a
    | .error _ s' => Continues s s'

section

variable {α β : Type} {s : State} {P : NodeId → α → Prop} {Q : NodeId → β → Prop}

theorem yields_pure {a : α} (produced : P s.nextId a) : Yields s (pure a) P :=
  fun spelt => ⟨⟨spelt, Nat.le_refl _⟩, produced⟩

theorem Yields.bind {x : Rule α} {f : α → Rule β} (first : Yields s x P)
    (next : ∀ a s', s.nextId ≤ s'.nextId → P s'.nextId a → Yields s' (f a) Q) :
    Yields s (x >>= f) Q := by
  intro spelt
  have first := first spelt
  change match EStateM.bind x f s with | .ok a s' => _ | .error _ s' => _
  unfold EStateM.bind
  cases left : x s with
  | error d s' =>
    rw [left] at first
    exact first
  | ok a s' =>
    rw [left] at first
    obtain ⟨continues, produced⟩ := first
    have rest := next a s' continues.free produced continues.spelt
    dsimp only
    cases right : f a s' with
    | ok b s'' =>
      rw [right] at rest
      exact ⟨⟨rest.1.spelt, Nat.le_trans continues.free rest.1.free⟩, rest.2⟩
    | error d s'' =>
      rw [right] at rest
      exact ⟨rest.spelt, Nat.le_trans continues.free rest.free⟩

theorem Yields.ite {x y : Rule α} {c : Prop} [Decidable c] (yes : c → Yields s x P)
    (no : ¬ c → Yields s y P) : Yields s (if c then x else y) P := by
  split
  · rename_i holds
    exact yes holds
  · rename_i fails
    exact no fails

theorem Yields.imp {x : Rule α} {R : NodeId → α → Prop} (first : Yields s x P)
    (weaker : ∀ hi a, s.nextId ≤ hi → P hi a → R hi a) : Yields s x R := by
  intro spelt
  have first := first spelt
  split
  · rename_i left
    rw [left] at first
    exact ⟨first.1, weaker _ _ first.1.free first.2⟩
  · rename_i left
    rw [left] at first
    exact first

theorem yields_fail (cause : SyntaxError) : Yields s (fail cause) P :=
  fun spelt => ⟨spelt, Nat.le_refl _⟩

theorem yields_peek : Yields s peek fun _ t => t.Spelt :=
  fun spelt => ⟨⟨spelt, Nat.le_refl _⟩, spelt.head⟩

theorem yields_sees (kind : Token.Kind) : Yields s (sees kind) fun _ _ => True :=
  fun spelt => ⟨⟨spelt, Nat.le_refl _⟩, trivial⟩

theorem yields_atEnd : Yields s atEnd fun _ _ => True :=
  fun spelt => ⟨⟨spelt, Nat.le_refl _⟩, trivial⟩

theorem yields_take : Yields s take fun _ _ => True :=
  fun spelt => ⟨⟨spelt.tail, Nat.le_refl _⟩, trivial⟩

theorem yields_note (d : Diagnostic) : Yields s (note d) fun _ _ => True :=
  fun spelt => ⟨⟨spelt, Nat.le_refl _⟩, trivial⟩

theorem yields_accept (kind : Token.Kind) : Yields s (accept kind) fun _ _ => True := by
  intro spelt
  unfold accept
  by_cases seen : s.head.kind = kind
  · rw [if_pos seen]
    exact ⟨⟨spelt.tail, Nat.le_refl _⟩, trivial⟩
  · rw [if_neg seen]
    exact ⟨⟨spelt, Nat.le_refl _⟩, trivial⟩

theorem yields_expect (kind : Token.Kind) (missing : SyntaxError) :
    Yields s (expect kind missing) fun _ t => t.Spelt ∧ t.kind = kind := by
  intro spelt
  unfold expect
  by_cases seen : s.head.kind = kind
  · rw [if_pos seen]
    exact ⟨⟨spelt.tail, Nat.le_refl _⟩, spelt.head, seen⟩
  · rw [if_neg seen]
    exact ⟨spelt, Nat.le_refl _⟩

theorem yields_name (missing : SyntaxError) :
    Yields s (name missing) fun _ name => IsPlain name.text :=
  (yields_expect _ _).bind fun _ _ _ read => yields_pure (read.1.plain read.2)

theorem yields_freshId : Yields s freshId fun hi fresh => Numbered s.nextId hi [fresh] :=
  fun spelt => ⟨⟨spelt, Nat.le_succ _⟩, .single _⟩

/-- A rule that fails has still moved the next free identity on. -/
theorem Yields.recover {x : Rule α} (read : Yields s x P) :
    Yields s (recover x) fun hi a => ∀ b ∈ a, P hi b := by
  intro spelt
  have read := read spelt
  unfold Rule.recover
  dsimp only
  cases left : x s with
  | ok a s' =>
    rw [left] at read
    refine ⟨read.1, ?_⟩
    intro b same
    cases same
    exact read.2
  | error d s' =>
    rw [left] at read
    exact ⟨⟨fun t member => read.spelt t ((synchronize_suffix _).mem member), read.free⟩, nofun⟩

end

/-! ### Expressions -/

/-- An expression that is well-formed and numbered from the given range. -/
structure IsRead (lo hi : NodeId) (e : Expr) : Prop where
  wellFormed : e.WellFormed
  numbered : Numbered lo hi e.ids

/-- The arguments read so far, the last first. -/
abbrev AreRead (lo hi : NodeId) (expressions : List Expr) : Prop :=
  Collected Expr.WellFormed Expr.ids lo hi expressions

theorem IsRead.unary {lo hi : NodeId} {operator : Token} {right : Expr} (read : IsRead lo hi right)
    (valid : isPrefixOperator operator.kind) : IsRead lo hi (.unary operator right) := by
  constructor
  · rw [Expr.WellFormed]
    exact ⟨valid, read.wellFormed⟩
  · rw [Expr.ids]
    exact read.numbered

theorem IsRead.join {lo mid hi : NodeId} {level : Level} {left right : Expr} {operator : Token}
    (first : IsRead lo mid left) (next : IsRead mid hi right)
    (valid : level.joins operator.kind) : IsRead lo hi (level.join left operator right) := by
  have both := first.numbered.append next.numbered
  have arithmetic (member : level ∈ [.equality, .comparison, .term, .factor]) :
      IsRead lo hi (.binary left operator right) := by
    constructor
    · rw [Expr.WellFormed]
      exact ⟨List.any_eq_true.mpr ⟨level, member, valid⟩, first.wellFormed, next.wellFormed⟩
    · rw [Expr.ids]
      exact both
  have logical : IsRead lo hi (.logical left operator right) := by
    constructor
    · rw [Expr.WellFormed]
      exact ⟨first.wellFormed, next.wellFormed⟩
    · rw [Expr.ids]
      exact both
  cases level with
  | or => exact logical
  | and => exact logical
  | _ => exact arithmetic (by decide)

theorem IsRead.call {lo mid hi : NodeId} {callee : Expr} {arguments : List Expr}
    (first : IsRead lo mid callee) (next : AreRead mid hi arguments) (line : Nat) :
    IsRead lo hi (.call callee line arguments) := by
  constructor
  · rw [Expr.WellFormed]
    exact ⟨first.wellFormed, (expressionsWellFormed_iff arguments).mpr next.wellFormed⟩
  · rw [Expr.ids, expressionIds_eq_flatMap]
    exact first.numbered.append next.numbered

theorem IsRead.get {lo hi : NodeId} {object : Expr} (read : IsRead lo hi object) (name : Name) :
    IsRead lo hi (.get object name) := by
  constructor
  · rw [Expr.WellFormed]
    exact read.wellFormed
  · rw [Expr.ids]
    exact read.numbered

theorem IsRead.widen {lo hi hi' : NodeId} {e : Expr} (read : IsRead lo hi e) (above : hi ≤ hi') :
    IsRead lo hi' e :=
  ⟨read.wellFormed, read.numbered.widen above⟩

theorem IsRead.skip {lo mid hi : NodeId} {e : Expr} (read : IsRead mid hi e) (below : lo ≤ mid) :
    IsRead lo hi e :=
  ⟨read.wellFormed, read.numbered.skip below⟩

/-- The name before an equals sign is looked up under a new identity. -/
theorem IsRead.assign {lo mid hi hi' : NodeId} {name : Name} {id fresh : NodeId} {value : Expr}
    (target : IsRead lo mid (.variable name id)) (next : IsRead mid hi value)
    (new : Numbered hi hi' [fresh]) : IsRead lo hi' (.assign name value fresh) := by
  have plain := target.wellFormed
  rw [Expr.WellFormed] at plain
  constructor
  · rw [Expr.WellFormed]
    exact ⟨plain, next.wellFormed⟩
  · rw [Expr.ids]
    exact (next.numbered.skip target.numbered.range).append new

/-- What a property belongs to is numbered before the value that it is set to. -/
theorem IsRead.set {lo mid hi : NodeId} {object value : Expr} {name : Name}
    (target : IsRead lo mid (.get object name)) (next : IsRead mid hi value) :
    IsRead lo hi (.set object name value) := by
  have wellFormed := target.wellFormed
  have numbered := target.numbered
  rw [Expr.WellFormed] at wellFormed
  rw [Expr.ids] at numbered
  constructor
  · rw [Expr.WellFormed]
    exact ⟨next.wellFormed, wellFormed⟩
  · rw [Expr.ids]
    exact numbered.prepend next.numbered

/-- Within the bound `n`, the rules for expressions produce well-formed and numbered trees. -/
structure ExpressionsYield (n : Nat) : Prop where
  expression : ∀ s, Yields s (expression n) (IsRead s.nextId)
  joined : ∀ level s, Yields s (joined n level) (IsRead s.nextId)
  operand : ∀ level s, Yields s (operand n level) (IsRead s.nextId)
  joinedFrom : ∀ {lo left} level s, IsRead lo s.nextId left →
    Yields s (joinedFrom n level left) (IsRead lo)
  prefixed : ∀ s, Yields s (prefixed n) (IsRead s.nextId)
  suffixes : ∀ {lo object} s, IsRead lo s.nextId object → Yields s (suffixes n object) (IsRead lo)
  arguments : ∀ {lo done} s, AreRead lo s.nextId done → Yields s (arguments n done) (AreRead lo)
  primary : ∀ s, Yields s (primary n) (IsRead s.nextId)

section Steps

variable {n : Nat} (ih : ExpressionsYield n)

include ih

private theorem expression_yields (s : State) :
    Yields s (expression (n + 1)) (IsRead s.nextId) := by
  unfold expression
  apply (ih.joined .or s).bind
  intro target s₁ _ first
  apply yields_peek.bind
  intro equals s₂ free₂ _
  apply (yields_accept _).bind
  intro taken s₃ free₃ _
  have first := (first.widen free₂).widen free₃
  refine .ite (fun _ => ?_) fun _ => yields_pure first
  apply (ih.expression s₃).bind
  intro value s₄ free₄ next
  -- what stands before the equals sign decides what the assignment becomes
  cases target
  case «variable» name id =>
    exact yields_freshId.bind fun fresh s₅ _ new => yields_pure (first.assign next new)
  case get object name => exact yields_pure (first.set next)
  -- any other target is reported and kept, and the value is given up
  all_goals
    exact (yields_note _).bind fun _ s₅ free₅ _ => yields_pure ((first.widen free₄).widen free₅)

private theorem operand_yields (level : Level) (s : State) :
    Yields s (operand (n + 1) level) (IsRead s.nextId) := by
  unfold operand
  split
  · exact ih.joined _ s
  · exact ih.prefixed s

private theorem joinedFrom_yields {lo : NodeId} {left : Expr} (level : Level) (s : State)
    (first : IsRead lo s.nextId left) :
    Yields s (joinedFrom (n + 1) level left) (IsRead lo) := by
  unfold joinedFrom
  apply yields_peek.bind
  intro operator s₁ free₁ _
  refine .ite (fun valid => ?_) fun _ => yields_pure (first.widen free₁)
  apply yields_take.bind
  intro _ s₂ free₂ _
  apply (ih.operand level s₂).bind
  intro right s₃ _ next
  exact ih.joinedFrom level s₃ (((first.widen free₁).widen free₂).join next valid)

private theorem prefixed_yields (s : State) : Yields s (prefixed (n + 1)) (IsRead s.nextId) := by
  unfold prefixed
  apply yields_peek.bind
  intro operator s₁ free₁ _
  refine .ite (fun valid => ?_) fun _ => ?_
  · apply yields_take.bind
    intro _ s₂ free₂ _
    apply (ih.prefixed s₂).bind
    intro right s₃ _ read
    have read := (read.skip free₂).skip free₁
    exact yields_pure (read.unary valid)
  · apply (ih.primary s₁).bind
    intro callee s₂ _ read
    exact ih.suffixes s₂ (read.skip free₁)

private theorem suffixes_yields {lo : NodeId} {object : Expr} (s : State)
    (first : IsRead lo s.nextId object) :
    Yields s (suffixes (n + 1) object) (IsRead lo) := by
  -- what follows a list of arguments, in both branches of the rule
  have close {arguments : List Expr} (s₁ : State) {mid : NodeId} (first : IsRead lo mid object)
      (next : AreRead mid s₁.nextId arguments) :
      Yields s₁ (do let paren ← expect (.symbol .rightParen) .openArgumentList
                    Grammar.suffixes n (.call object paren.line arguments)) (IsRead lo) := by
    apply (yields_expect _ _).bind
    intro paren s₂ free₂ _
    exact ih.suffixes s₂ (first.call (next.widen free₂) paren.line)
  unfold suffixes
  apply (yields_accept _).bind
  intro parens s₁ free₁ _
  refine .ite (fun _ => ?_) fun _ => ?_
  · apply (yields_sees _).bind
    intro empty s₂ free₂ _
    have first := (first.widen free₁).widen free₂
    refine .ite (fun _ => ?_) fun _ => ?_
    · exact Yields.bind (yields_pure (P := AreRead s₂.nextId) (.nil _)) fun arguments s₃ _ next =>
        close s₃ first next
    · exact (ih.arguments s₂ (.nil _)).bind fun arguments s₃ _ next => close s₃ first next
  · apply (yields_accept _).bind
    intro dot s₂ free₂ _
    have first := (first.widen free₁).widen free₂
    refine .ite (fun _ => ?_) fun _ => yields_pure first
    apply (yields_name _).bind
    intro property s₃ free₃ _
    exact ih.suffixes s₃ ((first.widen free₃).get property)

private theorem arguments_yields {lo : NodeId} {done : List Expr} (s : State)
    (before : AreRead lo s.nextId done) :
    Yields s (arguments (n + 1) done) (AreRead lo) := by
  have rest (s₁ : State) (before : AreRead lo s₁.nextId done) :
      Yields s₁ (do let argument ← Grammar.expression n
                    if ← accept (.symbol .comma) then Grammar.arguments n (argument :: done)
                    else return (argument :: done).reverse) (AreRead lo) := by
    apply (ih.expression s₁).bind
    intro argument s₂ _ read
    apply (yields_accept _).bind
    intro comma s₃ free₃ _
    have all := (before.cons read.wellFormed read.numbered).widen free₃
    exact .ite (fun _ => ih.arguments s₃ all) fun _ => yields_pure all.reverse
  unfold arguments
  refine .ite (fun _ => ?_) fun _ => rest s before
  -- one argument too many is reported and read all the same
  apply yields_peek.bind
  intro t s₁ free₁ _
  apply (yields_note _).bind
  intro _ s₂ free₂ _
  exact rest s₂ ((before.widen free₁).widen free₂)

private theorem primary_yields (s : State) : Yields s (primary (n + 1)) (IsRead s.nextId) := by
  have literal (c : Literal) (s₁ : State) (free₁ : s.nextId ≤ s₁.nextId) :
      Yields s₁ (do take; return .literal c) (IsRead s.nextId) := by
    apply yields_take.bind
    intro _ s₂ free₂ _
    refine yields_pure ⟨?_, ?_⟩
    · rw [Expr.WellFormed]
      trivial
    · rw [Expr.ids]
      exact .nil (Nat.le_trans free₁ free₂)
  unfold primary
  apply yields_peek.bind
  intro t s₁ free₁ spelt
  split
  -- `super`, `this`, a name and an expression in parentheses
  case h_6 kind =>
    apply yields_take.bind
    intro _ s₂ free₂ _
    apply (yields_expect _ _).bind
    intro dot s₃ free₃ _
    apply (yields_name _).bind
    intro method s₄ free₄ _
    apply yields_freshId.bind
    intro fresh s₅ _ new
    refine yields_pure ⟨?_, ?_⟩
    · rw [Expr.WellFormed]
      exact spelt.keyword kind
    · rw [Expr.ids]
      exact (((new.skip free₄).skip free₃).skip free₂).skip free₁
  case h_7 kind =>
    apply yields_take.bind
    intro _ s₂ free₂ _
    apply yields_freshId.bind
    intro fresh s₃ _ new
    refine yields_pure ⟨?_, ?_⟩
    · rw [Expr.WellFormed]
      exact spelt.keyword kind
    · rw [Expr.ids]
      exact (new.skip free₂).skip free₁
  case h_8 kind =>
    apply yields_take.bind
    intro _ s₂ free₂ _
    apply yields_freshId.bind
    intro fresh s₃ _ new
    refine yields_pure ⟨?_, ?_⟩
    · rw [Expr.WellFormed]
      exact spelt.plain kind
    · rw [Expr.ids]
      exact (new.skip free₂).skip free₁
  case h_9 =>
    apply yields_take.bind
    intro _ s₂ free₂ _
    apply (ih.expression s₂).bind
    intro inner s₃ _ read
    apply (yields_expect _ _).bind
    intro paren s₄ free₄ _
    apply yields_pure
    have read := ((read.skip free₂).skip free₁).widen free₄
    constructor
    · rw [Expr.WellFormed]
      exact read.wellFormed
    · rw [Expr.ids]
      exact read.numbered
  case h_10 => exact yields_fail _
  all_goals exact literal _ s₁ free₁

end Steps

/-- The rules for expressions produce well-formed and numbered trees, by induction on the bound. -/
theorem expressions_yield (n : Nat) : ExpressionsYield n := by
  induction n with
  | zero =>
    constructor <;> intros <;> exact yields_fail _
  | succ n ih =>
    exact {
      expression := expression_yields ih
      joined := fun level s => (ih.operand level s).bind fun left s₁ _ read =>
        ih.joinedFrom level s₁ read
      operand := operand_yields ih
      joinedFrom := joinedFrom_yields ih
      prefixed := prefixed_yields ih
      suffixes := suffixes_yields ih
      arguments := arguments_yields ih
      primary := primary_yields ih }

end Grammar

end Lox
