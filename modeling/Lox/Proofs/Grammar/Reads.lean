import Lox.Proofs.Grammar.Onward
import Lox.Proofs.Grammar.Sentence

/-!
# What is read is a sentence: expressions

A rule that succeeds without noting a problem has taken a sentence of its category. The invariant
`Reads` speaks only of such runs; since a problem that has been noted stays noted, a run without one
consists of runs without one.
-/

namespace Lox

namespace Grammar

open Rule

/-- When the rule succeeds and notes no problem, it has taken a word that is in the relation `P` to
its result. -/
def Reads {α : Type} (s : State) (rule : Rule α) (P : α → List Token.Kind → Prop) : Prop :=
  ∀ a s', rule s = .ok a s' → s'.problems = s.problems →
    ∃ v, s.rest = v ++ s'.rest ∧ P a (v.map (·.kind))

namespace Reads

variable {α β : Type} {s : State} {P : α → List Token.Kind → Prop}
  {Q : β → List Token.Kind → Prop}

theorem pure {a : α} (read : P a []) : Reads s (pure a) P := by
  intro b s' ran _
  cases ran
  exact ⟨[], rfl, read⟩

theorem imp {x : Rule α} {R : α → List Token.Kind → Prop} (first : Reads s x P)
    (weaker : ∀ a w, P a w → R a w) : Reads s x R := by
  intro a s' ran clean
  obtain ⟨v, left, read⟩ := first a s' ran clean
  exact ⟨v, left, weaker _ _ read⟩

theorem bind {x : Rule α} {f : α → Rule β} [Advances x] [∀ a, Advances (f a)]
    (first : Reads s x P)
    (next : ∀ a v s', P a v → Reads s' (f a) fun b w => Q b (v ++ w)) : Reads s (x >>= f) Q := by
  intro b s' ran clean
  obtain ⟨a, s₁, ranFirst, ranNext⟩ := bind_eq_ok ran
  have cleans := (Advances.ok ranFirst).clean (Advances.ok ranNext) clean
  obtain ⟨u, left, readFirst⟩ := first a s₁ ranFirst cleans.1
  obtain ⟨v, left₁, readNext⟩ := next a _ s₁ readFirst b s' ranNext cleans.2
  refine ⟨u ++ v, ?_, ?_⟩
  · rw [left, left₁, List.append_assoc]
  · rw [List.map_append]
    exact readNext

theorem map {x : Rule α} {f : α → β} (first : Reads s x fun a w => Q (f a) w) :
    Reads s (x >>= fun a => Pure.pure (f a)) Q := by
  intro b s' ran clean
  obtain ⟨a, s₁, ranFirst, ranNext⟩ := bind_eq_ok ran
  cases ranNext
  exact first a _ ranFirst clean

theorem fail {cause : SyntaxError} : Reads s (fail cause) P := nofun

/-- A run that notes a problem is not spoken of. -/
theorem note {d : Diagnostic} {f : Unit → Rule β} [∀ a, Advances (f a)] :
    Reads s (note d >>= f) Q := by
  intro b s' ran clean
  obtain ⟨_, s₁, ranFirst, ranNext⟩ := bind_eq_ok ran
  have onward := Advances.ok ranNext
  cases ranFirst
  exact absurd clean onward.noted

theorem peek {f : Token → Rule β} (next : Reads s (f s.head) Q) :
    Reads s (peek >>= f) Q := next

theorem sees {kind : Token.Kind} {f : Bool → Rule β}
    (next : Reads s (f (s.head.kind = kind)) Q) : Reads s (sees kind >>= f) Q := next

theorem atEnd {f : Bool → Rule β} (next : Reads s (f s.atEnd) Q) :
    Reads s (atEnd >>= f) Q := next

theorem freshId {f : NodeId → Rule β} (next : ∀ id s', Reads s' (f id) Q) :
    Reads s (freshId >>= f) Q :=
  fun b s' ran clean => next s.nextId { s with nextId := s.nextId + 1 } b s' ran clean

theorem take (token : s.head.kind ≠ .eof) : Reads s take fun _ w => w = [s.head.kind] := by
  intro a s' ran _
  cases ran
  exact ⟨[s.head], State.rest_eq_cons token, rfl⟩

/-- The token that is taken has been seen before. -/
theorem taken {kind : Token.Kind} [Inner kind] (seen : s.head.kind = kind) {f : Unit → Rule β}
    (next : ∀ s', Reads s' (f ()) fun b w => Q b (kind :: w)) : Reads s (Rule.take >>= f) Q := by
  intro b s' ran clean
  obtain ⟨v, left, read⟩ := next _ b s' ran clean
  refine ⟨s.head :: v, ?_, ?_⟩
  · rw [List.cons_append, ← left]
    exact State.rest_eq_cons (Inner.ne_of_eq seen)
  · rw [List.map_cons, seen]
    exact read

theorem expect {kind : Token.Kind} [Inner kind] {missing : SyntaxError} {f : Token → Rule β}
    (next : ∀ t s', Reads s' (f t) fun b w => Q b (kind :: w)) :
    Reads s (expect kind missing >>= f) Q := by
  intro b s' ran clean
  obtain ⟨t, s₁, ranFirst, ranNext⟩ := bind_eq_ok ran
  unfold Rule.expect at ranFirst
  split at ranFirst
  · rename_i seen
    cases ranFirst
    exact taken (f := fun _ => f s.head) seen (next s.head) b s' ranNext clean
  · cases ranFirst

theorem name {missing : SyntaxError} {f : Name → Rule β}
    (next : ∀ name s', Reads s' (f name) fun b w => Q b (.identifier :: w)) :
    Reads s (name missing >>= f) Q := by
  rw [Rule.name, bind_assoc]
  exact expect fun t s' => next _ s'

/-- Whether a token is taken decides how the rule goes on. -/
theorem accept {kind : Token.Kind} [Inner kind] {f : Bool → Rule β}
    (yes : ∀ s', Reads s' (f true) fun b w => Q b (kind :: w))
    (no : Reads s (f false) Q) : Reads s (accept kind >>= f) Q := by
  intro b s' ran clean
  obtain ⟨a, s₁, ranFirst, ranNext⟩ := bind_eq_ok ran
  unfold Rule.accept at ranFirst
  split at ranFirst
  · rename_i seen
    cases ranFirst
    exact taken (f := fun _ => f true) seen yes b s' ranNext clean
  · cases ranFirst
    exact no b s' ranNext clean

theorem ite {x y : Rule α} {c : Prop} [Decidable c] (yes : c → Reads s x P)
    (no : ¬ c → Reads s y P) : Reads s (if c then x else y) P := by
  split
  · rename_i holds
    exact yes holds
  · rename_i fails
    exact no fails

/-- A declaration that fails is noted, so one that is read without a problem is there. -/
theorem recover {x : Rule α} [Advances x] (read : Reads s x P) :
    Reads s (recover x) fun a w => ∃ b, a = some b ∧ P b w := by
  intro a s' ran clean
  unfold Rule.recover at ran
  cases left : x s with
  | ok b s₁ =>
    rw [left] at ran
    cases ran
    obtain ⟨v, rest, read⟩ := read b _ left clean
    exact ⟨v, rest, b, rfl, read⟩
  | error d s₁ =>
    rw [left] at ran
    cases ran
    have onward := Advances.onward (x := x) s
    rw [left] at onward
    exact absurd (onward.clean (onward_note s₁ d) clean).2 (Onward.refl _).noted

end Reads

/-! ### Expressions -/

/-- The words that may stand to the left of an equals sign. -/
inductive Assignable : List Token.Kind → Prop
  | name : Assignable [.identifier]
  | property {u : List Token.Kind} (object : Sentence .call u) :
    Assignable (u ++ [.symbol .dot, .identifier])

/-- The trees that an assignment takes for its target are read from such words. -/
def Target (w : List Token.Kind) : Expr → Prop
  | .variable _ _ | .get _ _ => Assignable w
  | _ => True

theorem target_join (w : List Token.Kind) (level : Level) (left : Expr) (operator : Token)
    (right : Expr) : Target w (level.join left operator right) := by
  cases level <;> exact trivial

theorem sentence_assign {u v : List Token.Kind} (target : Assignable u)
    (value : Sentence .expression v) : Sentence .expression (u ++ .symbol .equal :: v) := by
  cases value with
  | the value =>
    cases target with
    | name => exact .the (.the (.one (.seq (v := []) .absent (.cons (.cons value)))))
    | property object =>
      rw [List.append_assoc, List.cons_append, ← List.singleton_append, ← List.append_assoc]
      exact .the (.the (.one (.seq (.present (.seq object (.token _))) (.cons (.cons value)))))

/-- The tree is one that was read from the word, as a sentence of the category. -/
structure ReadAs (c : Category) (e : Expr) (w : List Token.Kind) : Prop where
  sentence : Sentence c w
  target : Target w e

/-- One more operator with its right operand. -/
theorem sentence_joined_snoc {level : Level} {u v : List Token.Kind} {operator : Token.Kind}
    (left : Sentence (.joined level) u) (member : operator ∈ level.operators)
    (right : Sentence (.operand level) v) : Sentence (.joined level) (u ++ operator :: v) := by
  obtain ⟨first, _, rfl, operand, words, rfl, each⟩ := sentence_iff.mp left
  have extended :
      first ++ words.flatten ++ operator :: v = first ++ (words ++ [operator :: v]).flatten := by
    simp
  rw [extended]
  refine .the (.seq operand (.many fun w among => ?_))
  rcases List.mem_append.mp among with before | last
  · exact (each w before).derives
  · cases List.mem_singleton.mp last
    exact .seq (.oneOf member) right

/-- What may follow an expression in a call: arguments or a property. -/
def suffix : Phrase :=
  .or (.seq (.symbol .leftParen) <| .seq (.optional (.list (.the .expression)))
    (.symbol .rightParen)) (.seq (.symbol .dot) .name)

/-- One more argument list or property. -/
theorem sentence_call_snoc {u v : List Token.Kind} (left : Sentence .call u)
    (right : Derives suffix v) : Sentence .call (u ++ v) := by
  obtain ⟨first, _, rfl, primary, words, rfl, each⟩ := sentence_iff.mp left
  have extended : first ++ words.flatten ++ v = first ++ (words ++ [v]).flatten := by simp
  rw [extended]
  refine .the (.seq primary (.many fun w among => ?_))
  rcases List.mem_append.mp among with before | last
  · exact (each w before).derives
  · cases List.mem_singleton.mp last
    exact right

/-- The words of the elements that are still to be read of a list, when `before` have been read. -/
def ListTail (p : Phrase) (before : Nat) (w : List Token.Kind) : Prop :=
  ∃ words, words ≠ [] ∧ before + words.length ≤ maxArity ∧ w = commaSeparated words ∧
    ∀ u ∈ words, Derives p u

theorem ListTail.last {p : Phrase} {before : Nat} {w : List Token.Kind} (few : before < maxArity)
    (word : Derives p w) : ListTail p before w :=
  ⟨[w], List.cons_ne_nil _ _, few, by simp [commaSeparated], by simpa using word⟩

theorem ListTail.cons {p : Phrase} {before : Nat} {v w : List Token.Kind}
    (word : Derives p v) (rest : ListTail p (before + 1) w) :
    ListTail p before (v ++ .symbol .comma :: w) := by
  obtain ⟨words, some, few, rfl, each⟩ := rest
  refine ⟨v :: words, List.cons_ne_nil _ _, ?_, (commaSeparated_cons v some).symm, ?_⟩
  · rw [List.length_cons]
    omega
  · exact List.forall_mem_cons.mpr ⟨word, each⟩

theorem ListTail.derives {p : Phrase} {w : List Token.Kind} (read : ListTail p 0 w) :
    Derives (.list p) w := by
  obtain ⟨words, some, few, rfl, each⟩ := read
  rw [Nat.zero_add] at few
  exact .list some few each

/-- An operand by itself. -/
theorem ReadAs.joined {level : Level} {e : Expr} {w : List Token.Kind}
    (read : ReadAs (.operand level) e w) : ReadAs (.joined level) e w :=
  ⟨List.append_nil w ▸ .the (.seq read.sentence .many_nil), read.target⟩

/-- Within the bound `n`, the rules for expressions read sentences. -/
private structure ExpressionsRead (n : Nat) : Prop where
  expression (s : State) : Reads s (expression n) fun _ w => Sentence .expression w
  joined (level : Level) (s : State) : Reads s (joined n level) (ReadAs (.joined level))
  operand (level : Level) (s : State) : Reads s (operand n level) (ReadAs (.operand level))
  joinedFrom (level : Level) (left : Expr) (u : List Token.Kind) (s : State)
    (read : ReadAs (.joined level) left u) :
    Reads s (joinedFrom n level left) fun e w => ReadAs (.joined level) e (u ++ w)
  prefixed (s : State) : Reads s (prefixed n) (ReadAs .unary)
  suffixes (object : Expr) (u : List Token.Kind) (s : State) (read : ReadAs .call object u) :
    Reads s (suffixes n object) fun e w => ReadAs .call e (u ++ w)
  arguments (done : List Expr) (s : State) :
    Reads s (arguments n done) fun _ w => ListTail (.the .expression) done.length w
  primary (s : State) : Reads s (primary n) (ReadAs .primary)

section Steps

variable {n : Nat} (ih : ExpressionsRead n)

include ih

private theorem reads_expression (s : State) :
    Reads s (expression (n + 1)) fun _ w => Sentence .expression w := by
  unfold expression
  refine @Reads.bind _ _ _ _ _ _ _ _ (fun target => ?_) (ih.joined .or s)
    fun target u s₁ left => .peek (.accept (fun s₂ => ?_) ?_)
  · cases target <;> infer_instance
  · refine @Reads.bind _ _ _ _ _ _ _ _ (fun _ => ?_) (ih.expression s₂)
      fun value v s₃ right => ?_
    · cases target <;> infer_instance
    · cases target with
      | «variable» name id =>
        exact .freshId fun _ _ => .pure (by simpa using sentence_assign left.target right)
      | get object name => exact .pure (by simpa using sentence_assign left.target right)
      | _ => exact .note
  · refine .pure ?_
    rw [List.append_nil]
    exact .the (.the (.other left.sentence))

private theorem reads_joined (level : Level) (s : State) :
    Reads s (joined (n + 1) level) (ReadAs (.joined level)) := by
  unfold joined
  exact .bind (ih.operand level s) fun left u s' read =>
    ih.joinedFrom level left u s' read.joined

private theorem reads_operand (level : Level) (s : State) :
    Reads s (operand (n + 1) level) (ReadAs (.operand level)) := by
  unfold operand
  cases level with
  | factor => exact ih.prefixed s
  | _ => exact ih.joined _ s

private theorem reads_joinedFrom (level : Level) (left : Expr) (u : List Token.Kind) (s : State)
    (read : ReadAs (.joined level) left u) :
    Reads s (joinedFrom (n + 1) level left) fun e w => ReadAs (.joined level) e (u ++ w) := by
  unfold joinedFrom
  refine .peek (.ite ?_ ?_)
  · intro joins
    have member := Level.joins_iff.mp joins
    refine .bind (.take ?_) ?_
    · intro ended
      rw [ended] at joins
      cases level <;> cases joins
    · rintro _ _ s₁ rfl
      refine .bind (ih.operand level s₁) fun right v s₂ readRight => ?_
      refine (ih.joinedFrom level _ (u ++ s.head.kind :: v) s₂ ⟨?_, target_join ..⟩).imp ?_
      · exact sentence_joined_snoc read.sentence member readRight.sentence
      · intro e w read
        simpa using read
  · exact fun _ => .pure (by rwa [List.append_nil])

private theorem reads_prefixed (s : State) : Reads s (prefixed (n + 1)) (ReadAs .unary) := by
  unfold prefixed
  refine .peek (.ite (fun isOperator => ?_) fun _ => ?_)
  · have member : s.head.kind ∈ [Token.Kind.symbol .bang, .symbol .minus] := by
      cases seen : s.head.kind with
      | symbol y =>
        rw [seen] at isOperator
        cases y <;> simp [isPrefixOperator] at isOperator ⊢
      | _ =>
        rw [seen] at isOperator
        cases isOperator
    refine .bind (.take ?_) ?_
    · intro ended
      rw [ended] at isOperator
      cases isOperator
    · rintro _ _ s₁ rfl
      exact .map ((ih.prefixed s₁).imp fun _ _ read =>
        ⟨.the (.one (.seq (.oneOf member) read.sentence)), trivial⟩)
  · refine .bind (ih.primary s) fun callee u s₁ read => ?_
    have call : ReadAs .call callee u :=
      ⟨List.append_nil u ▸ .the (.seq read.sentence .many_nil), read.target⟩
    exact (ih.suffixes callee u s₁ call).imp fun _ _ read =>
      ⟨.the (.other read.sentence), read.target⟩

private theorem reads_suffixes (object : Expr) (u : List Token.Kind) (s : State)
    (read : ReadAs .call object u) :
    Reads s (suffixes (n + 1) object) fun e w => ReadAs .call e (u ++ w) := by
  unfold suffixes
  refine .accept (fun s₁ => ?_) (.accept (fun s₁ => ?_) ?_)
  · -- what follows the opening parenthesis, once there are arguments or none
    have close {v : List Token.Kind} (arguments : List Expr)
        (readArguments : Derives (.optional (.list (.the .expression))) v) (s₂ : State) :
        Reads s₂ (do
          let paren ← Rule.expect (.symbol .rightParen) .openArgumentList
          Grammar.suffixes n (.call object paren.line arguments))
          fun e w => ReadAs .call e (u ++ .symbol .leftParen :: (v ++ w)) := by
      refine .expect fun paren s₃ => ?_
      refine (ih.suffixes (.call object paren.line arguments)
        (u ++ .symbol .leftParen :: (v ++ [.symbol .rightParen])) s₃ ⟨?_, trivial⟩).imp ?_
      · exact sentence_call_snoc read.sentence
          (.one (.cons (.seq readArguments (.token _))))
      · intro e w read
        simpa using read
    refine .sees (.ite (fun _ => ?_) fun _ => ?_)
    · exact close [] .absent s₁
    · exact .bind (ih.arguments [] s₁) fun arguments v s₂ readArguments =>
        close arguments (.present readArguments.derives) s₂
  · refine .name fun property s₂ => ?_
    refine (ih.suffixes _ (u ++ [.symbol .dot, .identifier]) s₂ ⟨?_, ?_⟩).imp ?_
    · exact sentence_call_snoc read.sentence (.other (.cons (.token _)))
    · exact .property read.sentence
    · intro e w read
      simpa using read
  · exact .pure (by rwa [List.append_nil])

private theorem reads_arguments (done : List Expr) (s : State) :
    Reads s (arguments (n + 1) done) fun _ w => ListTail (.the .expression) done.length w := by
  unfold arguments
  refine .ite (fun many => ?_) fun few => ?_
  · exact .peek .note
  · refine .bind (ih.expression s) fun argument u s₁ read => .accept (fun s₂ => ?_) ?_
    · exact (ih.arguments (argument :: done) s₂).imp fun _ _ rest => .cons read rest
    · refine .pure ?_
      rw [List.append_nil]
      exact .last (Nat.lt_of_not_le few) read

private theorem reads_primary (s : State) : Reads s (primary (n + 1)) (ReadAs .primary) := by
  unfold primary
  have literal {kind : Token.Kind} [Inner kind] (seen : s.head.kind = kind) (value : Literal)
      (derives : Derives (production .primary) [kind]) :
      Reads s (take >>= fun _ => pure (.literal value)) (ReadAs .primary) :=
    .taken seen fun _ => .pure ⟨.the derives, trivial⟩
  refine .peek ?_
  split
  case h_1 seen =>
    exact literal seen _ (.other <| .other <| .other <| .one (.token _))
  case h_2 seen =>
    exact literal seen _ (.other <| .other <| .one (.token _))
  case h_3 seen =>
    exact literal seen _ (.other <| .other <| .other <| .other <| .one (.token _))
  case h_4 seen =>
    exact literal seen _ (.one (.number _))
  case h_5 seen =>
    exact literal seen _ (.other <| .one (.string _))
  case h_6 seen =>
    have derives : Derives (production .primary) [.keyword .super, .symbol .dot, .identifier] :=
      .other <| .other <| .other <| .other <| .other <| .other <| .other <| .other <|
        .cons (.cons (.token _))
    exact .taken seen fun _ => .expect fun _ _ => .name fun _ _ => .freshId fun _ _ =>
      .pure ⟨.the derives, trivial⟩
  case h_7 seen =>
    have derives : Derives (production .primary) [.keyword .this] :=
      .other <| .other <| .other <| .other <| .other <| .one (.token _)
    exact .taken seen fun _ => .freshId fun _ _ => .pure ⟨.the derives, trivial⟩
  case h_8 seen =>
    have derives : Derives (production .primary) [.identifier] :=
      .other <| .other <| .other <| .other <| .other <| .other <| .one (.token _)
    exact .taken seen fun _ => .freshId fun _ _ => .pure ⟨.the derives, .name⟩
  case h_9 seen =>
    refine .taken seen fun s₁ => .bind (ih.expression s₁) fun inner v s₂ read =>
      .expect fun _ _ => .pure ⟨?_, trivial⟩
    exact .the <| .other <| .other <| .other <| .other <| .other <| .other <| .other <| .one <|
      .cons (.seq read (.token _))
  case h_10 => exact .fail

end Steps

private theorem expressions_read (n : Nat) : ExpressionsRead n := by
  induction n with
  | zero => constructor <;> intros <;> exact Reads.fail
  | succ n ih =>
    exact ⟨reads_expression ih, reads_joined ih, reads_operand ih, reads_joinedFrom ih, reads_prefixed ih,
      reads_suffixes ih, reads_arguments ih, reads_primary ih⟩

theorem expression_reads (n : Nat) (s : State) :
    Reads s (expression n) fun _ w => Sentence .expression w := (expressions_read n).expression s

end Grammar

end Lox
