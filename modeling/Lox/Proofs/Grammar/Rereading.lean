import Lox.Proofs.Grammar.Gives
import Lox.Proofs.Grammar.Normal

/-!
# Normal trees are read back

From the tokens of a normal tree the rules for expressions make that tree again. What they make of a
left operand or of a callee is not a result yet, as the rule goes on with what follows, so the statements
on these say where the rule goes on from. The bound that a rule takes is counted as where sentences are
read.
-/

namespace Lox

namespace Grammar

open Rule

/-! ### Trees that are alike -/

section

variable {e e' left left' right right' object object' callee callee' : Expr}

theorem alike_unary (operator : Token) (alike : right'.Alike right) :
    (Expr.unary operator right').Alike (.unary operator right) :=
  congrArg (Expr.unary operator) alike

theorem alike_join (level : Level) (operator : Token) (first : left'.Alike left)
    (next : right'.Alike right) :
    (level.join left' operator right').Alike (level.join left operator right) := by
  cases level with
  | or | and => exact congrArg₂ (Expr.logical · operator ·) first next
  | _ => exact congrArg₂ (Expr.binary · operator ·) first next

theorem alike_call (line : Nat) {arguments arguments' : List Expr} (first : callee'.Alike callee)
    (next : arguments'.map Expr.anonymous = arguments.map Expr.anonymous) :
    (Expr.call callee' line arguments').Alike (.call callee line arguments) := by
  rw [Expr.Alike, Expr.anonymous, Expr.anonymous, Expr.renumber, Expr.renumber,
    renumberExpressions_eq_map, renumberExpressions_eq_map]
  exact congrArg₂ (Expr.call · line ·) first next

theorem alike_get (name : Name) (alike : object'.Alike object) :
    (Expr.get object' name).Alike (.get object name) :=
  congrArg (Expr.get · name) alike

theorem variable_of_alike {name : Name} {id : NodeId} (alike : e.Alike (.variable name id)) :
    ∃ id', e = .variable name id' := by
  cases e <;> cases alike
  exact ⟨_, rfl⟩

theorem get_of_alike {name : Name} (alike : e.Alike (.get object name)) :
    ∃ object', e = .get object' name ∧ object'.Alike object := by
  cases e with
  | get object' name' =>
    injection alike with same sameName
    exact ⟨object', sameName ▸ rfl, same⟩
  | _ => cases alike

end

/-! ### What the rules make of a tree's tokens -/

variable {e : Expr} {level : Level}

/-- Read as a call, the tree is what its suffixes go on from. -/
def GivesCall (e : Expr) : Prop :=
  ∀ v, Traced e.frontier v → ∀ n w rest Q, 32 * (v.length + w.length) + 1 ≤ n →
    (∀ m e', e'.Alike e → 32 * w.length + 1 ≤ m → Gives (suffixes m e') w rest Q) →
    Gives (primary n >>= suffixes n) (v ++ w) rest Q

def GivesPrefixed (e : Expr) : Prop :=
  ∀ v, Traced e.frontier v → ∀ n rest, 32 * v.length + 2 ≤ n → Ends 6 (nextKind rest) →
    Gives (prefixed n) v rest (·.Alike e)

def GivesOperand (level : Level) (e : Expr) : Prop :=
  ∀ v, Traced e.frontier v → ∀ n rest, 32 * v.length + 13 ≤ n + 2 * level.tightness →
    Ends (level.tightness + 1) (nextKind rest) → Gives (operand n level) v rest (·.Alike e)

/-- Read with operators of a level, the tree is the left operand of the next one. -/
def GivesJoined (level : Level) (e : Expr) : Prop :=
  ∀ v, Traced e.frontier v → ∀ n w rest Q,
    32 * (v.length + w.length) + 14 ≤ n + 2 * level.tightness →
    Ends (level.tightness + 1) (nextKind (w ++ rest)) →
    (∀ m e', e'.Alike e → 32 * w.length + 1 ≤ m → Gives (joinedFrom m level e') w rest Q) →
    Gives (joined n level) (v ++ w) rest Q

def GivesExpression (e : Expr) : Prop :=
  ∀ v, Traced e.frontier v → ∀ n rest, 32 * v.length + 15 ≤ n → EndsExpression (nextKind rest) →
    Gives (expression n) v rest (·.Alike e)

/-! ### Where the rules stop -/

theorem gives_suffixes_end {tightness n : Nat} {rest : List Token} (object : Expr)
    (ends : Ends tightness (nextKind rest)) (deep : 1 ≤ n) :
    Gives (suffixes n object) [] rest (· = object) := by
  obtain ⟨n, rfl⟩ : ∃ m, n = m + 1 := ⟨n - 1, by omega⟩
  unfold suffixes
  exact .accept_no ends.call (.accept_no ends.property (.pure rfl))

theorem gives_joinedFrom_end {n : Nat} {rest : List Token} (left : Expr)
    (ends : Ends level.tightness (nextKind rest)) (deep : 1 ≤ n) :
    Gives (joinedFrom n level left) [] rest (· = left) := by
  obtain ⟨n, rfl⟩ : ∃ m, n = m + 1 := ⟨n - 1, by omega⟩
  have done : level.joins (nextKind rest) = false := ends.operator level (Nat.le_refl _)
  unfold joinedFrom
  refine .peek ?_
  rw [List.nil_append, show (rest.headD default).kind = nextKind rest from rfl, done]
  exact .pure rfl

theorem GivesJoined.alone (read : GivesJoined level e) {v : List Token} (agree : Traced e.frontier v)
    {n : Nat} {rest : List Token} (deep : 32 * v.length + 14 ≤ n + 2 * level.tightness)
    (ends : Ends level.tightness (nextKind rest)) : Gives (joined n level) v rest (·.Alike e) := by
  rw [← List.append_nil v]
  refine read v agree n [] rest _ deep (ends.tighter (Nat.le_succ _)) fun m e' alike deep => ?_
  refine (gives_joinedFrom_end e' ends deep).imp ?_
  rintro _ rfl
  exact alike

/-! ### From one rule to the next -/

theorem isPrefixOperator_eq_false {kind : Token.Kind} (starts : startsOperand kind) :
    isPrefixOperator kind = false := by
  cases kind with
  | symbol y => cases y <;> first | rfl | cases starts
  | _ => rfl

theorem exists_cons_of_traced {traces : List Trace} {v : List Token} {qualifies : Token.Kind → Bool}
    (agree : Traced traces v) (starts : StartsWith qualifies (traces.map (·.kind))) :
    ∃ t v', v = t :: v' ∧ qualifies t.kind := by
  rw [← kinds_of_traced agree] at starts
  obtain ⟨k, u, left, good⟩ := starts
  cases v with
  | nil => cases left
  | cons t v' =>
    cases left
    exact ⟨t, v', rfl, good⟩

theorem GivesCall.prefixed (read : GivesCall e)
    (starts : StartsWith startsOperand (e.frontier.map (·.kind))) : GivesPrefixed e := by
  intro v agree n rest deep ends
  obtain ⟨n, rfl⟩ : ∃ m, n = m + 1 := ⟨n - 1, by omega⟩
  have whole : Gives (primary n >>= suffixes n) (v ++ []) rest (·.Alike e) := by
    refine read v agree n [] rest _ (by simp only [List.length_nil]; omega) fun m e' alike deep => ?_
    refine (gives_suffixes_end e' ends deep).imp ?_
    rintro _ rfl
    exact alike
  rw [List.append_nil] at whole
  obtain ⟨t, v', rfl, startsOperand⟩ := exists_cons_of_traced agree starts
  unfold Grammar.prefixed
  refine .peek ?_
  rw [List.cons_append, List.headD_cons, isPrefixOperator_eq_false startsOperand]
  exact whole

theorem GivesPrefixed.operand (read : GivesPrefixed e) : GivesOperand .factor e := by
  intro v agree n rest deep ends
  simp only [Level.tightness] at deep ends
  obtain ⟨n, rfl⟩ : ∃ m, n = m + 1 := ⟨n - 1, by omega⟩
  unfold Grammar.operand
  exact read v agree n rest (by omega) ends

theorem GivesJoined.operand {tighter : Level} (read : GivesJoined tighter e)
    (next : level.tighter? = some tighter) : GivesOperand level e := by
  intro v agree n rest deep ends
  have tightness : tighter.tightness = level.tightness + 1 := by
    cases level <;> cases next <;> rfl
  have tight : tighter.tightness ≤ 5 := by cases tighter <;> decide
  obtain ⟨n, rfl⟩ : ∃ m, n = m + 1 := ⟨n - 1, by omega⟩
  unfold Grammar.operand
  rw [next]
  exact read.alone agree (by omega) (tightness ▸ ends)

theorem GivesOperand.joined (read : GivesOperand level e) : GivesJoined level e := by
  intro v agree n w rest Q deep ends goes
  have tight : level.tightness ≤ 5 := by cases level <;> decide
  obtain ⟨n, rfl⟩ : ∃ m, n = m + 1 := ⟨n - 1, by omega⟩
  unfold Grammar.joined
  exact .bind (read v agree n _ (by omega) ends) fun left alike => goes n left alike (by omega)

/-- A tree that binds tightly passes through all looser levels. -/
theorem gives_levels (prefixed : 7 ≤ e.precedence → GivesPrefixed e)
    (own : ∀ level, e.precedence = level.precedence → GivesJoined level e) (level : Level) :
    (level.precedence < e.precedence → GivesOperand level e) ∧
      (level.precedence ≤ e.precedence → GivesJoined level e) := by
  have step {level : Level} (operand : level.precedence < e.precedence → GivesOperand level e) :
      (level.precedence < e.precedence → GivesOperand level e) ∧
        (level.precedence ≤ e.precedence → GivesJoined level e) := by
    refine ⟨operand, fun loose => ?_⟩
    rcases Nat.eq_or_lt_of_le loose with same | tight
    · exact own level same.symm
    · exact (operand tight).joined
  have factor := @step .factor fun tight => (prefixed tight).operand
  have term := @step .term fun tight => (factor.2 tight).operand rfl
  have comparison := @step .comparison fun tight => (term.2 tight).operand rfl
  have equality := @step .equality fun tight => (comparison.2 tight).operand rfl
  have and := @step .and fun tight => (equality.2 tight).operand rfl
  have or := @step .or fun tight => (and.2 tight).operand rfl
  cases level
  · exact or
  · exact and
  · exact equality
  · exact comparison
  · exact term
  · exact factor

theorem GivesJoined.expression (read : GivesJoined .or e) : GivesExpression e := by
  intro v agree n rest deep ends
  obtain ⟨n, rfl⟩ : ∃ m, n = m + 1 := ⟨n - 1, by omega⟩
  rw [← List.append_nil v]
  unfold Grammar.expression
  refine .bind (read.alone agree ?_ ends.1) fun target alike => ?_
  · simp only [Level.tightness]
    omega
  · exact .peek (.accept_no ends.2 (.pure alike))

/-! ### Operators -/

theorem GivesPrefixed.unary {operator : Token} {right : Expr}
    (isOperator : isPrefixOperator operator.kind) (read : GivesPrefixed right) :
    GivesPrefixed (.unary operator right) := by
  intro v agree n rest deep ends
  obtain ⟨n, rfl⟩ : ∃ m, n = m + 1 := ⟨n - 1, by omega⟩
  rw [Expr.frontier] at agree
  cases agree with
  | @cons _ t _ v same agree =>
    cases Trace.agrees_whole_iff.mp same
    rw [List.length_cons] at deep
    unfold prefixed
    refine .peek ?_
    rw [List.cons_append, List.headD_cons, if_pos isOperator, ← List.append_nil v]
    exact .take (.bind (read v agree n rest (by omega) ends) fun right' alike =>
      .pure (alike_unary operator alike))

/-- The operator after the left operand is the one at the root. -/
theorem GivesJoined.join {left right : Expr} {operator : Token} (joins : level.joins operator.kind)
    (first : GivesJoined level left) (next : GivesOperand level right) :
    GivesJoined level (level.join left operator right) := by
  intro v agree n w rest Q deep ends goes
  rw [Expr.frontier_join, traced_append_iff] at agree
  obtain ⟨u, _, rfl, agreeLeft, agreeRest⟩ := agree
  cases agreeRest with
  | @cons _ t _ v same agreeRight =>
    cases Trace.agrees_whole_iff.mp same
    rw [List.length_append, List.length_cons] at deep
    rw [List.append_assoc]
    refine first u agreeLeft n _ rest Q ?_ (ends_of_joins joins) fun m left' alike deep => ?_
    · simp only [List.length_append, List.length_cons]
      omega
    · simp only [List.length_append, List.length_cons] at deep
      obtain ⟨m, rfl⟩ : ∃ k, m = k + 1 := ⟨m - 1, by omega⟩
      unfold joinedFrom
      refine .peek ?_
      rw [List.cons_append, List.cons_append, List.headD_cons, if_pos joins]
      refine .take (.bind (next v agreeRight m _ (by omega) ends) fun right' alikeRight => ?_)
      exact goes m _ (alike_join level operator alike alikeRight) (by omega)

/-! ### Calls and their operands -/

/-- An operand by itself. -/
def GivesPrimary (e : Expr) : Prop :=
  ∀ v, Traced e.frontier v → ∀ n rest, 32 * v.length + 1 ≤ n → Gives (primary n) v rest (·.Alike e)

theorem GivesPrimary.call (read : GivesPrimary e) : GivesCall e := by
  intro v agree n w rest Q deep goes
  exact .bind (read v agree n _ (by omega)) fun e' alike => goes n e' alike (by omega)

theorem givesPrimary_of_token {trace : Trace} (single : e.frontier = [trace])
    (gives : ∀ t, trace.Agrees t → ∀ n rest, Gives (primary (n + 1)) [t] rest (·.Alike e)) :
    GivesPrimary e := by
  intro v agree n rest deep
  obtain ⟨n, rfl⟩ : ∃ m, n = m + 1 := ⟨n - 1, by omega⟩
  rw [single] at agree
  obtain ⟨t, _, rfl, same, none⟩ := traced_cons_iff.mp agree
  cases none
  exact gives t same n rest

theorem givesPrimary_literal (value : Literal) : GivesPrimary (.literal value) := by
  refine givesPrimary_of_token (by rw [Expr.frontier]) fun t same n rest => ?_
  have same : t.kind = value.kind := Trace.agrees_bare_iff.mp same
  unfold primary
  refine .peek ?_
  rw [List.cons_append, List.headD_cons, same]
  cases value with
  | bool b => cases b <;> exact .take (.pure rfl)
  | _ => exact .take (.pure rfl)

theorem givesPrimary_variable (name : Name) (id : NodeId) : GivesPrimary (.variable name id) := by
  refine givesPrimary_of_token (by rw [Expr.frontier]) fun t same n rest => ?_
  obtain ⟨isName, rfl⟩ := Trace.agrees_word_iff.mp same
  unfold primary
  refine .peek ?_
  rw [List.cons_append, List.headD_cons, isName]
  exact .take (.freshId fun _ => .pure rfl)

theorem givesPrimary_this (keyword : Name) (id : NodeId) : GivesPrimary (.this keyword id) := by
  refine givesPrimary_of_token (by rw [Expr.frontier]) fun t same n rest => ?_
  obtain ⟨isThis, rfl⟩ := Trace.agrees_word_iff.mp same
  unfold primary
  refine .peek ?_
  rw [List.cons_append, List.headD_cons, isThis]
  exact .take (.freshId fun _ => .pure rfl)

theorem givesPrimary_super (keyword method : Name) (id : NodeId) :
    GivesPrimary (.super keyword method id) := by
  intro v agree n rest deep
  obtain ⟨n, rfl⟩ : ∃ m, n = m + 1 := ⟨n - 1, by omega⟩
  rw [Expr.frontier] at agree
  obtain ⟨t, _, rfl, same, more⟩ := traced_cons_iff.mp agree
  obtain ⟨dot, _, rfl, isDot, more⟩ := traced_cons_iff.mp more
  obtain ⟨name, _, rfl, named, none⟩ := traced_cons_iff.mp more
  cases none
  obtain ⟨isSuper, rfl⟩ := Trace.agrees_word_iff.mp same
  obtain ⟨isName, rfl⟩ := Trace.agrees_word_iff.mp named
  unfold primary
  refine .peek ?_
  rw [List.cons_append, List.headD_cons, isSuper]
  exact .take (.expect (Trace.agrees_bare_iff.mp isDot) (.name isName (.freshId fun _ => .pure rfl)))

theorem GivesExpression.grouping {inner : Expr} (read : GivesExpression inner) :
    GivesPrimary (.grouping inner) := by
  intro v agree n rest deep
  obtain ⟨n, rfl⟩ : ∃ m, n = m + 1 := ⟨n - 1, by omega⟩
  rw [Expr.frontier] at agree
  obtain ⟨opening, _, rfl, isOpening, more⟩ := traced_cons_iff.mp agree
  obtain ⟨u, _, rfl, agreeInner, more⟩ := traced_append_iff.mp more
  obtain ⟨closing, _, rfl, isClosing, none⟩ := traced_cons_iff.mp more
  cases none
  have isOpening : opening.kind = .symbol .leftParen := Trace.agrees_bare_iff.mp isOpening
  have isClosing : closing.kind = .symbol .rightParen := Trace.agrees_bare_iff.mp isClosing
  simp only [List.length_cons, List.length_append, List.length_nil] at deep
  unfold primary
  refine .peek ?_
  rw [List.cons_append, List.headD_cons, isOpening]
  refine .take (.bind (read u agreeInner n _ (by omega) ?_) fun inner' alike =>
    .expect isClosing (.pure (congrArg Expr.grouping alike)))
  rw [List.cons_append, nextKind_cons, isClosing]
  exact endsExpression_of_symbol (by decide)

theorem gives_arguments {arguments : List Expr} (some : arguments ≠ [])
    (each : ∀ a ∈ arguments, GivesExpression a) {v rest : List Token}
    (agree : Traced (argumentsFrontier arguments) v) {n : Nat} {done : List Expr}
    (few : done.length + arguments.length ≤ maxArity) (deep : 32 * v.length + 16 ≤ n)
    (closed : nextKind rest = .symbol .rightParen) :
    Gives (Grammar.arguments n done) v rest fun read =>
      read.map Expr.anonymous = (done.reverse ++ arguments).map Expr.anonymous := by
  induction arguments generalizing v n done with
  | nil => exact absurd rfl some
  | cons a later ih =>
    obtain ⟨n, rfl⟩ : ∃ m, n = m + 1 := ⟨n - 1, by omega⟩
    have first := each a List.mem_cons_self
    unfold Grammar.arguments
    rw [if_neg (by rw [List.length_cons] at few; omega)]
    cases later with
    | nil =>
      rw [argumentsFrontier] at agree
      rw [← List.append_nil v]
      refine .bind (first v agree n _ (by omega) ?_) fun a' alike => ?_
      · rw [List.nil_append, closed]
        exact endsExpression_of_symbol (by decide)
      · refine .accept_no ?_ (.pure ?_)
        · rw [List.nil_append, closed]
          rintro ⟨⟩
        · rw [List.reverse_cons, List.map_append, List.map_append, List.map_singleton,
            List.map_singleton, alike]
    | cons b more =>
      rw [argumentsFrontier, traced_append_iff] at agree
      obtain ⟨u, _, rfl, agreeFirst, agree⟩ := agree
      obtain ⟨comma, v, rfl, isComma, agree⟩ := traced_cons_iff.mp agree
      have isComma : comma.kind = .symbol .comma := Trace.agrees_bare_iff.mp isComma
      rw [List.length_append, List.length_cons] at deep
      refine .bind (first u agreeFirst n _ (by omega) ?_) fun a' alike => .accept_yes isComma ?_
      · rw [List.cons_append, nextKind_cons, isComma]
        exact endsExpression_of_symbol (by decide)
      · refine (ih (List.cons_ne_nil b more) (fun c among => each c (List.mem_cons_of_mem a among))
          agree ?_ (by omega)).imp ?_
        · simp only [List.length_cons] at few ⊢
          omega
        · intro read same
          rw [same, List.reverse_cons, List.append_assoc, List.singleton_append, List.map_append,
            List.map_append, List.map_cons, List.map_cons (l := b :: more), alike]

theorem GivesCall.get {object : Expr} (read : GivesCall object) (name : Name) :
    GivesCall (.get object name) := by
  intro v agree n w rest Q deep goes
  rw [Expr.frontier] at agree
  obtain ⟨u, _, rfl, agreeObject, more⟩ := traced_append_iff.mp agree
  obtain ⟨dot, _, rfl, isDot, more⟩ := traced_cons_iff.mp more
  obtain ⟨property, _, rfl, named, none⟩ := traced_cons_iff.mp more
  cases none
  have isDot : dot.kind = .symbol .dot := Trace.agrees_bare_iff.mp isDot
  obtain ⟨isName, rfl⟩ := Trace.agrees_word_iff.mp named
  rw [List.append_assoc]
  refine read u agreeObject n _ rest Q ?_ fun m object' alike deep => ?_
  · simp only [List.length_append, List.length_cons, List.length_nil] at deep ⊢
    omega
  · simp only [List.length_append, List.length_cons, List.length_nil] at deep
    obtain ⟨m, rfl⟩ : ∃ k, m = k + 1 := ⟨m - 1, by omega⟩
    unfold suffixes
    refine .accept_no ?_ (.accept_yes isDot (.name isName (goes m _ (alike_get _ alike) (by omega))))
    rw [List.cons_append, List.cons_append, nextKind_cons, isDot]
    rintro ⟨⟩

theorem GivesCall.call {callee : Expr} {arguments : List Expr} (read : GivesCall callee)
    (each : ∀ a ∈ arguments, GivesExpression a) (normal : argumentsNormal arguments)
    (few : arguments.length ≤ maxArity) (line : Nat) : GivesCall (.call callee line arguments) := by
  intro v agree n w rest Q deep goes
  rw [Expr.frontier] at agree
  obtain ⟨u, _, rfl, agreeCallee, more⟩ := traced_append_iff.mp agree
  obtain ⟨opening, _, rfl, isOpening, more⟩ := traced_cons_iff.mp more
  obtain ⟨x, _, rfl, agreeArguments, more⟩ := traced_append_iff.mp more
  obtain ⟨closing, _, rfl, isClosing, none⟩ := traced_cons_iff.mp more
  cases none
  have isOpening : opening.kind = .symbol .leftParen := Trace.agrees_bare_iff.mp isOpening
  obtain ⟨isClosing, sameLine⟩ := Trace.agrees_placed_iff.mp isClosing
  rw [List.append_assoc]
  refine read u agreeCallee n _ rest Q ?_ fun m callee' alike deep => ?_
  · simp only [List.length_append, List.length_cons, List.length_nil] at deep ⊢
    omega
  · simp only [List.length_append, List.length_cons, List.length_nil] at deep
    obtain ⟨m, rfl⟩ : ∃ k, m = k + 1 := ⟨m - 1, by omega⟩
    -- what follows the arguments, once there are some or none
    have close (arguments' : List Expr)
        (same : arguments'.map Expr.anonymous = arguments.map Expr.anonymous) :
        Gives (do
          let paren ← Rule.expect (.symbol .rightParen) .openArgumentList
          suffixes m (.call callee' paren.line arguments')) (closing :: w) rest Q :=
      .expect isClosing (goes m _ (sameLine ▸ alike_call _ alike same) (by omega))
    unfold suffixes
    rw [List.cons_append, List.append_assoc, List.singleton_append]
    refine .accept_yes isOpening (.sees ?_)
    cases arguments with
    | nil =>
      cases agreeArguments
      rw [decide_eq_true (by simpa using isClosing)]
      exact close [] rfl
    | cons a more =>
      obtain ⟨t, x', rfl, starts⟩ :=
        exists_cons_of_traced agreeArguments (starts_of_argumentsNormal normal)
      have noneClosed : t.kind ≠ .symbol .rightParen := by
        intro same
        rw [same] at starts
        cases starts
      rw [decide_eq_false (by simpa using noneClosed)]
      refine .bind (gives_arguments (List.cons_ne_nil _ _) each agreeArguments ?_ ?_ isClosing) close
      · simpa using few
      · simp only [List.length_cons] at deep ⊢
        omega

/-! ### Assignments -/

/-- The tree that an assignment becomes, by what its target was read as. -/
inductive Assigns (value : Expr) : Expr → Expr → Prop
  | name (name : Name) (id id' : NodeId) : Assigns value (.variable name id) (.assign name value id')
  | property (object : Expr) (name : Name) : Assigns value (.get object name) (.set object name value)

theorem Assigns.frontier {target value : Expr} (assigns : Assigns value target e) :
    e.frontier = target.frontier ++ .bare (.symbol .equal) :: value.frontier := by
  cases assigns with
  | name => simp only [Expr.frontier, List.singleton_append]
  | property => simp only [Expr.frontier, List.append_assoc, List.cons_append, List.nil_append]

/-- What has been read as an expression is a target once an equals sign follows. -/
theorem Assigns.givesExpression {target value : Expr} (assigns : Assigns value target e)
    (first : GivesJoined .or target) (next : GivesExpression value) : GivesExpression e := by
  intro v agree n rest deep ends
  obtain ⟨n, rfl⟩ : ∃ m, n = m + 1 := ⟨n - 1, by omega⟩
  rw [assigns.frontier] at agree
  obtain ⟨u, _, rfl, agreeTarget, more⟩ := traced_append_iff.mp agree
  obtain ⟨equal, v, rfl, isEqual, agreeValue⟩ := traced_cons_iff.mp more
  have isEqual : equal.kind = .symbol .equal := Trace.agrees_bare_iff.mp isEqual
  have endsTarget : Ends Level.or.tightness (nextKind (equal :: v ++ rest)) := by
    rw [List.cons_append, nextKind_cons, isEqual]
    exact ⟨by rintro ⟨⟩, by rintro ⟨⟩, fun level _ => by cases level <;> rfl⟩
  rw [List.length_append, List.length_cons] at deep
  unfold expression
  refine .bind (first.alone agreeTarget (by simp only [Level.tightness]; omega) endsTarget)
    fun target' alikeTarget => .peek (.accept_yes isEqual ?_)
  rw [← List.append_nil v]
  refine .bind (next v agreeValue n rest (by omega) ends) fun value' alikeValue => ?_
  cases assigns with
  | name name id id' =>
    obtain ⟨_, rfl⟩ := variable_of_alike alikeTarget
    exact .freshId fun _ => .pure (congrArg (Expr.assign name · 0) alikeValue)
  | property object name =>
    obtain ⟨object', rfl, alikeObject⟩ := get_of_alike alikeTarget
    exact .pure (congrArg₂ (Expr.set · name ·) alikeObject alikeValue)

/-! ### All normal trees -/

/-- All rules that a normal tree may come from make it again. -/
structure IsReread (e : Expr) : Prop where
  call : 8 ≤ e.precedence → GivesCall e
  prefixed : 7 ≤ e.precedence → GivesPrefixed e
  operand (level : Level) : level.precedence < e.precedence → GivesOperand level e
  joined (level : Level) : level.precedence ≤ e.precedence → GivesJoined level e
  expression : GivesExpression e

theorem Level.precedence_pos (level : Level) : 0 < level.precedence := Nat.succ_pos _

theorem Level.eq_of_precedence {other : Level} (same : level.precedence = other.precedence) :
    level = other := by
  cases level <;> cases other <;> first | rfl | cases same

theorem isReread_of_prefixed (call : 8 ≤ e.precedence → GivesCall e)
    (tight : 7 ≤ e.precedence) (read : GivesPrefixed e) : IsReread e := by
  have levels := gives_levels (fun _ => read) fun level same => by
    have loose := level.precedence_le
    omega
  have joined : GivesJoined .or e := (levels .or).2 (Nat.le_trans Level.or.precedence_le (by omega))
  exact ⟨call, fun _ => read, fun level => (levels level).1, fun level => (levels level).2,
    joined.expression⟩

theorem isReread_of_call (normal : e.Normal) (tight : 8 ≤ e.precedence) (read : GivesCall e) :
    IsReread e :=
  isReread_of_prefixed (fun _ => read) (by omega) (read.prefixed (normal.starts_operand tight))

theorem isReread_of_joined (same : e.precedence = level.precedence) (read : GivesJoined level e) :
    IsReread e := by
  have loose := level.precedence_le
  have levels := gives_levels (e := e) (by omega) fun other also =>
    Level.eq_of_precedence (same.symm.trans also) ▸ read
  have joined : GivesJoined .or e := (levels .or).2 (same ▸ level.precedence_pos)
  exact ⟨by omega, by omega, fun level => (levels level).1, fun level => (levels level).2,
    joined.expression⟩

theorem isReread_of_assignment (loosest : e.precedence = 0) (read : GivesExpression e) :
    IsReread e := by
  have none (level : Level) : ¬ level.precedence ≤ e.precedence := by
    have positive := level.precedence_pos
    omega
  exact ⟨by omega, by omega, fun level tight => absurd (Nat.le_of_lt tight) (none level),
    fun level loose => absurd loose (none level), read⟩

mutual

theorem isReread_of_normal (e : Expr) (normal : e.Normal) : IsReread e := by
  -- how tightly a tree binds decides which of the rules makes it
  have joins {levels : List Level} {left right : Expr} {operator : Token} {build : Expr}
      (joins : Joins levels left operator right) (first : IsReread left) (next : IsReread right)
      (builds : ∀ level ∈ levels, build = level.join left operator right) : IsReread build := by
    obtain ⟨level, member, isOperator, loose, tight⟩ := joins
    rw [builds level member]
    exact isReread_of_joined (Expr.precedence_join isOperator _ _)
      (.join isOperator (first.joined level loose) (next.operand level tight))
  cases e with
  | literal value =>
    exact isReread_of_call normal (Nat.le_succ 8) (givesPrimary_literal value).call
  | grouping inner =>
    have inside := isReread_of_normal inner (by rwa [Expr.Normal] at normal)
    exact isReread_of_call normal (Nat.le_succ 8) inside.expression.grouping.call
  | unary operator right =>
    obtain ⟨isOperator, tight, normal⟩ : _ ∧ _ ∧ _ := by rwa [Expr.Normal] at normal
    have operand := (isReread_of_normal right normal).prefixed tight
    exact isReread_of_prefixed (by simp [Expr.precedence]) (Nat.le_refl 7) (operand.unary isOperator)
  | binary left operator right =>
    obtain ⟨suits, first, next⟩ : _ ∧ _ ∧ _ := by rwa [Expr.Normal] at normal
    refine joins suits (isReread_of_normal left first) (isReread_of_normal right next) ?_
    simp [Level.join]
  | logical left operator right =>
    obtain ⟨suits, first, next⟩ : _ ∧ _ ∧ _ := by rwa [Expr.Normal] at normal
    refine joins suits (isReread_of_normal left first) (isReread_of_normal right next) ?_
    simp [Level.join]
  | «variable» name id =>
    exact isReread_of_call normal (Nat.le_succ 8) (givesPrimary_variable name id).call
  | assign name value id =>
    have target := isReread_of_call (e := .variable name 0) trivial (Nat.le_succ 8)
      (givesPrimary_variable name 0).call
    have value := isReread_of_normal value (by rwa [Expr.Normal] at normal)
    exact isReread_of_assignment rfl
      ((Assigns.name name 0 id).givesExpression (target.joined .or (show 1 ≤ 9 by decide))
        value.expression)
  | call callee line arguments =>
    obtain ⟨few, tight, first, next⟩ : _ ∧ _ ∧ _ ∧ _ := by rwa [Expr.Normal] at normal
    have callee := (isReread_of_normal callee first).call tight
    have each := areReread_of_normal arguments next
    exact isReread_of_call normal (Nat.le_refl 8)
      (callee.call (fun a among => (each a among).expression) next few line)
  | get object name =>
    obtain ⟨tight, inside⟩ : _ ∧ _ := by rwa [Expr.Normal] at normal
    have object := (isReread_of_normal object inside).call tight
    exact isReread_of_call normal (Nat.le_refl 8) (object.get name)
  | set object name value =>
    obtain ⟨tight, inside, next⟩ : _ ∧ _ ∧ _ := by rwa [Expr.Normal] at normal
    have first := (isReread_of_normal object inside).call tight
    have target := isReread_of_call (e := .get object name) ⟨tight, inside⟩ (Nat.le_refl 8)
      (first.get name)
    exact isReread_of_assignment rfl
      ((Assigns.property object name).givesExpression (target.joined .or (show 1 ≤ 8 by decide))
        (isReread_of_normal value next).expression)
  | this keyword id =>
    exact isReread_of_call normal (Nat.le_succ 8) (givesPrimary_this keyword id).call
  | super keyword method id =>
    exact isReread_of_call normal (Nat.le_succ 8) (givesPrimary_super keyword method id).call

theorem areReread_of_normal (arguments : List Expr) (normal : argumentsNormal arguments) :
    ∀ a ∈ arguments, IsReread a := by
  cases arguments with
  | nil => simp
  | cons a rest =>
    rw [argumentsNormal] at normal
    exact List.forall_mem_cons.mpr
      ⟨isReread_of_normal a normal.1, areReread_of_normal rest normal.2⟩

end

end Grammar

end Lox
