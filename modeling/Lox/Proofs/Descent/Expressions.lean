import Lox.Proofs.Descent.Follows
import Lox.Proofs.Descent.Rules
import Lox.Proofs.Grammar.Taking

/-!
# Expressions come to an end

With enough depth for the tokens left, the rules for expressions and the walks of the same names agree. Every
token is worth 32 levels of depth, and a rule that has not taken a token yet needs as many more as there are
rules below it.
-/

namespace Lox

namespace Descent

open Grammar (State Rule Level)

/-- The depth that an operand of a level needs before it has taken a token. -/
def operandDepth : Level → Nat
  | .or => 13
  | .and => 11
  | .equality => 9
  | .comparison => 7
  | .term => 5
  | .factor => 3

theorem mem_prefixOperators (kind : Token.Kind) :
    kind ∈ prefixOperators ↔ Grammar.isPrefixOperator kind := by
  constructor
  · simp only [prefixOperators, List.mem_cons, List.not_mem_nil, or_false]
    rintro (rfl | rfl) <;> rfl
  · intro operator
    unfold Grammar.isPrefixOperator at operator
    split at operator <;> simp_all [prefixOperators]

theorem eof_not_mem_operators (level : Level) : .eof ∉ level.operators := by
  cases level <;> simp [Level.operators]

/-- Enough depth for a rule that needs `base` before it takes a token. -/
abbrev Enough (s : State) (base n : Nat) : Prop := 32 * s.rest.length + base ≤ n

/-- Once a token has been taken, there is enough depth for any rule. -/
theorem Enough.later {s s' : State} {base base' n : Nat} (enough : Enough s base (n + 1))
    (fewer : s'.rest.length < s.rest.length) (small : base' ≤ base + 31) : Enough s' base' n := by
  omega

/-- Before a token has been taken, there is enough depth for the rules below. -/
theorem Enough.below {s : State} {base base' n : Nat} (enough : Enough s base (n + 1))
    (less : base' < base) : Enough s base' n := by
  omega

theorem Represents.taken_lt {c : Cursor} {s : State} (at_ : Represents c s) :
    (taken s).rest.length < s.rest.length := by
  rw [at_.rest_eq_cons]
  exact Nat.lt_succ_self _

/-- Within the bound `n`, what the rules for expressions do from places that leave enough of it. -/
structure ExpressionsFollow (n : Nat) : Prop where
  expression {c s} : Represents c s → Enough s 15 n → Follows (expression n) (Grammar.expression n) c s
  joined (level) {c s} : Represents c s → Enough s (operandDepth level + 1) n →
    Follows (joined n level) (Grammar.joined n level) c s
  operand (level) {c s} : Represents c s → Enough s (operandDepth level) n →
    Follows (operand n level) (Grammar.operand n level) c s
  joinedFrom (level left) {c s} : Represents c s → Enough s 1 n →
    Follows (joinedFrom n level left) (Grammar.joinedFrom n level left) c s
  prefixed {c s} : Represents c s → Enough s 2 n → Follows (prefixed n) (Grammar.prefixed n) c s
  suffixes (object) {c s} : Represents c s → Enough s 1 n →
    Follows (suffixes n object) (Grammar.suffixes n object) c s
  arguments (done) {c s} : Represents c s → Enough s 16 n →
    Follows (arguments n done) (Grammar.arguments n done) c s
  primary {c s} : Represents c s → Enough s 1 n → Follows (primary n) (Grammar.primary n) c s

section Steps

variable {n : Nat} (ih : ExpressionsFollow n) {c : Cursor} {s : State} (at_ : Represents c s)

include ih at_

private theorem expression_follows (enough : Enough s 15 (n + 1)) :
    Follows (expression (n + 1)) (Grammar.expression (n + 1)) c s := by
  rw [expression, Grammar.expression]
  refine (ih.joined .or at_ (enough.below (by decide))).bind fun target s₁ c₁ ran at₁ => ?_
  have fewer := Rule.Takes.fewer s target s₁ ran
  refine .peek (.accepts at₁ (fun _ c₂ at₂ prior => ?_) fun _ c₂ at₂ => .pure at₂ target)
  refine .previous at₂ prior fun c₃ at₃ _ => ?_
  have later : Enough (taken s₁) 15 n :=
    enough.later (Nat.lt_trans at₁.taken_lt fewer) (by decide)
  refine (ih.expression at₃ later).bind fun value s₂ c₄ _ at₄ => ?_
  -- what stands before the equals sign decides what the assignment becomes
  cases target
  case «variable» => exact (Follows.freshId at₄).bind fun _ _ _ _ at₅ => .pure at₅ _
  case get => exact .pure at₄ _
  all_goals exact (Follows.report at₄ _).bind fun _ _ _ _ at₅ => .pure at₅ _

private theorem joined_follows (level : Level) (enough : Enough s (operandDepth level + 1) (n + 1)) :
    Follows (joined (n + 1) level) (Grammar.joined (n + 1) level) c s := by
  rw [joined, Grammar.joined]
  refine (ih.operand level at_ (enough.below (Nat.lt_succ_self _))).bind fun left s₁ c₁ ran at₁ => ?_
  exact ih.joinedFrom level left at₁ (enough.later (Rule.Takes.fewer s left s₁ ran) (by omega))

private theorem operand_follows (level : Level) (enough : Enough s (operandDepth level) (n + 1)) :
    Follows (operand (n + 1) level) (Grammar.operand (n + 1) level) c s := by
  rw [operand, Grammar.operand]
  cases level with
  | factor => exact ih.prefixed at_ (enough.below (by decide))
  | _ => exact ih.joined _ at_ (enough.below (by decide))

private theorem joinedFrom_follows (level : Level) (left : Expr) (enough : Enough s 1 (n + 1)) :
    Follows (joinedFrom (n + 1) level left) (Grammar.joinedFrom (n + 1) level left) c s := by
  rw [joinedFrom, Grammar.joinedFrom]
  refine .peek ?_
  obtain ⟨goes, rests⟩ := at_.acceptsAny _ (eof_not_mem_operators level)
  by_cases joins : level.joins s.head.kind
  · obtain ⟨c₁, goes, at₁, prior⟩ := goes (Level.joins_iff.mp joins)
    rw [if_pos joins]
    refine .take goes (.previous at₁ prior fun c₂ at₂ _ => ?_)
    have deep : operandDepth level ≤ 13 := by cases level <;> decide
    have later : Enough (taken s) (operandDepth level) n := enough.later at_.taken_lt (by omega)
    refine (ih.operand level at₂ later).bind fun right s₁ c₃ ran at₃ => ?_
    have fewer := Nat.lt_trans (Rule.Takes.fewer _ right s₁ ran) at_.taken_lt
    exact ih.joinedFrom level _ at₃ (enough.later fewer (by decide))
  · rw [if_neg joins]
    exact .rests at_ (rests (mt Level.joins_iff.mpr joins)) fun c₁ _ at₁ => .pure at₁ left

private theorem prefixed_follows (enough : Enough s 2 (n + 1)) :
    Follows (prefixed (n + 1)) (Grammar.prefixed (n + 1)) c s := by
  rw [prefixed, Grammar.prefixed]
  refine .peek ?_
  obtain ⟨goes, rests⟩ := at_.acceptsAny prefixOperators (by decide)
  by_cases operator : Grammar.isPrefixOperator s.head.kind
  · obtain ⟨c₁, goes, at₁, prior⟩ := goes ((mem_prefixOperators _).mpr operator)
    rw [if_pos operator]
    refine .take goes (.previous at₁ prior fun c₂ at₂ _ => ?_)
    have later : Enough (taken s) 2 n := enough.later at_.taken_lt (by decide)
    exact (ih.prefixed at₂ later).bind fun _ _ _ _ at₃ => .pure at₃ _
  · rw [if_neg operator]
    refine .rests at_ (rests (mt (mem_prefixOperators _).mp operator)) fun c₁ _ at₁ => ?_
    refine (ih.primary at₁ (enough.below (by decide))).bind fun callee s₁ c₂ ran at₂ => ?_
    exact ih.suffixes callee at₂ (enough.later (Rule.Takes.fewer s callee s₁ ran) (by decide))

private theorem suffixes_follows (object : Expr) (enough : Enough s 1 (n + 1)) :
    Follows (suffixes (n + 1) object) (Grammar.suffixes (n + 1) object) c s := by
  rw [suffixes, Grammar.suffixes]
  refine .accepts at_ (fun _ c₁ at₁ _ => ?_) fun _ c₁ at₁ => ?_
  · have close (arguments : List Expr) {s₁ : State} {c₁ : Cursor} (at₁ : Represents c₁ s₁)
        (fewer : s₁.rest.length < s.rest.length) :
        Follows (do let paren ← consume (.symbol .rightParen) .openArgumentList
                    suffixes n (.call object paren.line arguments))
          (do let paren ← Rule.expect (.symbol .rightParen) .openArgumentList
              Grammar.suffixes n (.call object paren.line arguments)) c₁ s₁ :=
      (Follows.consume at₁ _ _).bind fun _ s₂ c₂ ran at₂ =>
        ih.suffixes _ at₂ (enough.later (Nat.lt_trans (Rule.Takes.fewer s₁ _ s₂ ran) fewer) (by decide))
    refine .check at₁ fun c₂ at₂ => ?_
    split
    · exact close [] at₂ at_.taken_lt
    · have later : Enough (taken s) 16 n := enough.later at_.taken_lt (by decide)
      exact (ih.arguments [] at₂ later).bind fun arguments s₁ c₃ ran at₃ => close arguments at₃
        (Nat.lt_of_le_of_lt (Rule.Advances.ok ran).rest.length_le at_.taken_lt)
  · refine .accepts at₁ (fun _ c₂ at₂ _ => ?_) fun _ c₂ at₂ => .pure at₂ object
    refine (Follows.name at₂ _).bind fun property s₁ c₃ ran at₃ => ?_
    exact ih.suffixes _ at₃
      (enough.later (Nat.lt_trans (Rule.Takes.fewer _ _ s₁ ran) at_.taken_lt) (by decide))

private theorem arguments_follows (done : List Expr) (enough : Enough s 16 (n + 1)) :
    Follows (arguments (n + 1) done) (Grammar.arguments (n + 1) done) c s := by
  have rest {s₁ : State} {c₁ : Cursor} (at₁ : Represents c₁ s₁) (same : s₁.rest = s.rest) :
      Follows (do let argument ← expression n
                  if ← accepts (.symbol .comma) then arguments n (argument :: done)
                  else return (argument :: done).reverse)
        (do let argument ← Grammar.expression n
            if ← Rule.accept (.symbol .comma) then Grammar.arguments n (argument :: done)
            else return (argument :: done).reverse) c₁ s₁ := by
    have enough₁ : Enough s₁ 16 (n + 1) := by rwa [Enough, same]
    refine (ih.expression at₁ (enough₁.below (by decide))).bind fun argument s₂ c₂ ran at₂ => ?_
    refine .accepts at₂ (fun _ c₃ at₃ _ => ?_) fun _ c₃ at₃ => .pure at₃ _
    have fewer := Nat.lt_trans at₂.taken_lt (Rule.Takes.fewer s₁ _ s₂ ran)
    exact ih.arguments _ at₃ (enough₁.later fewer (by decide))
  rw [arguments, Grammar.arguments]
  split
  · refine .rests at_ at_.peek fun c₁ _ at₁ => .peek ?_
    exact (Follows.report at₁ _).bind fun _ _ c₂ ran at₂ => by
      cases ran
      exact rest at₂ rfl
  · exact rest at_ rfl

private theorem primary_follows (enough : Enough s 1 (n + 1)) :
    Follows (primary (n + 1)) (Grammar.primary (n + 1)) c s := by
  have later : Enough (taken s) 15 n := enough.later at_.taken_lt (by decide)
  rw [primary, Grammar.primary]
  refine .peek ?_
  split
  -- each kind is compared with those before it in vain
  case h_1 kind => exact .accepts_take at_ kind fun _ at₁ _ => .pure at₁ _
  case h_2 kind =>
    refine .refuses at_ (by simp [kind]) fun _ at_ => ?_
    exact .accepts_take at_ kind fun _ at₁ _ => .pure at₁ _
  case h_3 kind =>
    iterate 2 refine .refuses at_ (by simp [kind]) fun _ at_ => ?_
    exact .accepts_take at_ kind fun _ at₁ _ => .pure at₁ _
  case h_4 kind =>
    iterate 3 refine .refuses at_ (by simp [kind]) fun _ at_ => ?_
    refine .rests at_ at_.peek fun _ _ at_ => ?_
    rw [kind]
    obtain ⟨_, goes, at₁, -⟩ := at_.advance (by simp [kind])
    exact .take goes (.pure at₁ _)
  case h_5 kind =>
    iterate 3 refine .refuses at_ (by simp [kind]) fun _ at_ => ?_
    refine .rests at_ at_.peek fun _ _ at_ => ?_
    rw [kind]
    refine .rests at_ at_.peek fun _ _ at_ => ?_
    rw [kind]
    obtain ⟨_, goes, at₁, -⟩ := at_.advance (by simp [kind])
    exact .take goes (.pure at₁ _)
  -- none of the others is a literal
  case' h_6 kind | h_7 kind | h_8 kind | h_9 kind =>
    iterate 3 refine .refuses at_ (by simp [kind]) fun _ at_ => ?_
    iterate 2
      refine .rests at_ at_.peek fun _ _ at_ => ?_
      rw [kind]
  case h_6 =>
    refine .accepts_take at_ kind fun _ at₁ prior => .previous at₁ prior fun _ at₂ _ => ?_
    refine (Follows.consume at₂ _ _).bind fun _ _ _ _ at₃ => ?_
    refine (Follows.name at₃ _).bind fun _ _ _ _ at₄ => ?_
    exact (Follows.freshId at₄).bind fun _ _ _ _ at₅ => .pure at₅ _
  case h_7 =>
    refine .refuses at_ (by simp [kind]) fun _ at_ => ?_
    refine .accepts_take at_ kind fun _ at₁ prior => .previous at₁ prior fun _ at₂ _ => ?_
    exact (Follows.freshId at₂).bind fun _ _ _ _ at₃ => .pure at₃ _
  case h_8 =>
    iterate 2 refine .refuses at_ (by simp [kind]) fun _ at_ => ?_
    refine .accepts_take at_ kind fun _ at₁ prior => .previous at₁ prior fun _ at₂ _ => ?_
    exact (Follows.freshId at₂).bind fun _ _ _ _ at₃ => .pure at₃ _
  case h_9 =>
    iterate 3 refine .refuses at_ (by simp [kind]) fun _ at_ => ?_
    refine .accepts_take at_ kind fun _ at₁ _ => ?_
    refine (ih.expression at₁ later).bind fun inner _ _ _ at₂ => ?_
    exact (Follows.consume at₂ _ _).bind fun _ _ _ _ at₃ => .pure at₃ _
  case h_10 number string _ _ _ _ =>
    iterate 3 refine .refuses at_ ‹_› fun _ at_ => ?_
    refine .rests at_ at_.peek fun _ _ at_ => ?_
    split
    · exact absurd ‹_› (number _)
    refine .rests at_ at_.peek fun _ _ at_ => ?_
    split
    · exact absurd ‹_› (string _)
    iterate 4 refine .refuses at_ ‹_› fun _ at_ => ?_
    exact .fail at_ _

end Steps

/-- By induction on the bound. -/
theorem expressions_follow (n : Nat) : ExpressionsFollow n := by
  induction n with
  | zero =>
    have shallow (level : Level) : 0 < operandDepth level := by cases level <;> decide
    constructor
    case operand => exact fun level _ s _ enough => absurd (shallow level) (by omega)
    all_goals intros; omega
  | succ n ih =>
    exact {
      expression := expression_follows ih
      joined := fun level _ _ at_ => joined_follows ih at_ level
      operand := fun level _ _ at_ => operand_follows ih at_ level
      joinedFrom := fun level left _ _ at_ => joinedFrom_follows ih at_ level left
      prefixed := prefixed_follows ih
      suffixes := fun object _ _ at_ => suffixes_follows ih at_ object
      arguments := fun done _ _ at_ => arguments_follows ih at_ done
      primary := primary_follows ih }

theorem singleExpression_follows {tokens : List Token} {c : Cursor} {s : State} (at_ : Represents c s)
    (enough : Enough s 15 (Grammar.depthFor tokens)) :
    Follows (singleExpression (Grammar.depthFor tokens)) (Grammar.singleExpression tokens) c s := by
  refine ((expressions_follow _).expression at_ enough).bind fun e s₁ c₁ _ at₁ => ?_
  refine .rests at₁ at₁.isAtEnd fun c₂ _ at₂ => .ended ?_
  split
  · exact .pure at₂ e
  · exact .fail at₂ _

end Descent

end Lox
