import Lox.Proofs.Grammar.Onward

/-!
# Words that a rule takes

When a rule takes a word and no more, without noting a problem. How it goes on after a word depends on
the next token, so what may follow is part of the statement; it is a condition on the kind of that token
only.
-/

namespace Lox

namespace Grammar

open Rule

/-- The kinds of the tokens that are left. -/
def State.kinds (s : State) : List Token.Kind := s.rest.map (·.kind)

theorem State.head_kind (s : State) : s.head.kind = s.kinds.headD .eof := by
  rw [State.head, State.kinds]
  cases s.rest <;> rfl

theorem State.kinds_tail (s : State) : State.kinds { s with rest := s.rest.tail } = s.kinds.tail := by
  rw [State.kinds, State.kinds, List.map_tail]

/-- When the tokens that are left start with the word, and the kind after it is in `follow`, the rule
takes the word and no more, notes no problem and has a result in `Q`. -/
def Accepts {α : Type} (s : State) (rule : Rule α) (w : List Token.Kind)
    (follow : Token.Kind → Prop) (Q : α → Prop) : Prop :=
  ∀ rest, s.kinds = w ++ rest → follow (rest.headD .eof) →
    ∃ a s', rule s = .ok a s' ∧ s'.kinds = rest ∧ s'.problems = s.problems ∧ Q a

namespace Accepts

variable {α β : Type} {s : State} {w : List Token.Kind} {follow : Token.Kind → Prop}
  {Q : β → Prop}

/-- The kind of the next token, whether or not it is in the word. -/
theorem head_kind {rest : List Token.Kind} (left : s.kinds = w ++ rest) :
    s.head.kind = w.headD (rest.headD .eof) := by
  rw [s.head_kind, left]
  cases w <;> rfl

theorem pure {a : β} (result : Q a) : Accepts s (pure a) [] follow Q :=
  fun _ left _ => ⟨a, s, rfl, left, rfl, result⟩

theorem imp {x : Rule β} {follow' : Token.Kind → Prop} {R : β → Prop}
    (read : Accepts s x w follow' R) (sooner : ∀ k, follow k → follow' k)
    (weaker : ∀ a, R a → Q a) : Accepts s x w follow Q := by
  intro rest left next
  obtain ⟨a, s', ran, left', clean, result⟩ := read rest left (sooner _ next)
  exact ⟨a, s', ran, left', clean, weaker a result⟩

theorem bind {x : Rule α} {f : α → Rule β} {v : List Token.Kind} {P : α → Prop}
    {middle : Token.Kind → Prop} (first : Accepts s x w middle P)
    (joint : ∀ k, follow k → middle (v.headD k))
    (next : ∀ a s', P a → Accepts s' (f a) v follow Q) :
    Accepts s (x >>= f) (w ++ v) follow Q := by
  intro rest left after
  have joint := joint _ after
  rw [List.append_assoc] at left
  have between : (v ++ rest).headD .eof = v.headD (rest.headD .eof) := by cases v <;> rfl
  obtain ⟨a, s₁, ranFirst, left₁, clean₁, result₁⟩ := first _ left (between ▸ joint)
  obtain ⟨b, s', ranNext, left', clean, result⟩ := next a s₁ result₁ rest left₁ after
  refine ⟨b, s', ?_, left', clean.trans clean₁, result⟩
  change EStateM.bind x f s = _
  unfold EStateM.bind
  rw [ranFirst]
  exact ranNext

theorem peek {f : Token → Rule β}
    (next : ∀ t k, follow k → t.kind = w.headD k → Accepts s (f t) w follow Q) :
    Accepts s (peek >>= f) w follow Q := by
  intro rest left after
  exact next s.head _ after (head_kind left) rest left after

theorem freshId {f : NodeId → Rule β} (next : ∀ id s', Accepts s' (f id) w follow Q) :
    Accepts s (freshId >>= f) w follow Q :=
  fun rest left after => next s.nextId { s with nextId := s.nextId + 1 } rest left after

theorem sees_no {kind : Token.Kind} {f : Bool → Rule β}
    (differs : ∀ k, follow k → w.headD k ≠ kind) (next : Accepts s (f false) w follow Q) :
    Accepts s (sees kind >>= f) w follow Q := by
  intro rest left after
  have absent : s.head.kind ≠ kind := head_kind left ▸ differs _ after
  change ∃ a s', f (decide (s.head.kind = kind)) s = _ ∧ _
  rw [decide_eq_false absent]
  exact next rest left after

theorem sees_yes {kind : Token.Kind} {f : Bool → Rule β}
    (same : ∀ k, follow k → w.headD k = kind) (next : Accepts s (f true) w follow Q) :
    Accepts s (sees kind >>= f) w follow Q := by
  intro rest left after
  have present : s.head.kind = kind := head_kind left ▸ same _ after
  change ∃ a s', f (decide (s.head.kind = kind)) s = _ ∧ _
  rw [decide_eq_true present]
  exact next rest left after

/-- Whether the end is next matters to no rule that stops anyway. -/
theorem atEnd {f : Bool → Rule β} (next : ∀ ended, Accepts s (f ended) w follow Q) :
    Accepts s (atEnd >>= f) w follow Q :=
  fun rest left after => next s.atEnd rest left after

theorem atEnd_no {f : Bool → Rule β} (differs : ∀ k, follow k → w.headD k ≠ .eof)
    (next : Accepts s (f false) w follow Q) : Accepts s (Rule.atEnd >>= f) w follow Q := by
  intro rest left after
  have absent : s.head.kind ≠ .eof := head_kind left ▸ differs _ after
  change ∃ a s', f s.atEnd s = _ ∧ _
  rw [State.atEnd, decide_eq_false absent]
  exact next rest left after

theorem taken {kind : Token.Kind} {f : Unit → Rule β}
    (next : ∀ s', Accepts s' (f ()) w follow Q) :
    Accepts s (take >>= f) (kind :: w) follow Q := by
  intro rest left after
  refine next { s with rest := s.rest.tail } rest ?_ after
  rw [s.kinds_tail, left, List.cons_append, List.tail_cons]

theorem accept_yes {kind : Token.Kind} {f : Bool → Rule β}
    (next : ∀ s', Accepts s' (f true) w follow Q) :
    Accepts s (accept kind >>= f) (kind :: w) follow Q := by
  intro rest left after
  have present : s.head.kind = kind := head_kind left
  obtain ⟨b, s', ran, result⟩ := taken (f := fun _ => f true) next rest left after
  refine ⟨b, s', ?_, result⟩
  change EStateM.bind (accept kind) f s = _
  unfold EStateM.bind accept
  rw [if_pos present]
  exact ran

theorem accept_no {kind : Token.Kind} {f : Bool → Rule β}
    (differs : ∀ k, follow k → w.headD k ≠ kind) (next : Accepts s (f false) w follow Q) :
    Accepts s (accept kind >>= f) w follow Q := by
  intro rest left after
  have absent : s.head.kind ≠ kind := head_kind left ▸ differs _ after
  obtain ⟨b, s', ran, result⟩ := next rest left after
  refine ⟨b, s', ?_, result⟩
  change EStateM.bind (accept kind) f s = _
  unfold EStateM.bind accept
  rw [if_neg absent]
  exact ran

theorem expect {kind : Token.Kind} {missing : SyntaxError} {f : Token → Rule β}
    (next : ∀ t s', Accepts s' (f t) w follow Q) :
    Accepts s (expect kind missing >>= f) (kind :: w) follow Q := by
  intro rest left after
  have present : s.head.kind = kind := head_kind left
  obtain ⟨b, s', ran, result⟩ := taken (f := fun _ => f s.head) (next s.head) rest left after
  refine ⟨b, s', ?_, result⟩
  change EStateM.bind (Rule.expect kind missing) f s = _
  unfold EStateM.bind Rule.expect
  rw [if_pos present]
  exact ran

theorem name {missing : SyntaxError} {f : Name → Rule β}
    (next : ∀ name s', Accepts s' (f name) w follow Q) :
    Accepts s (name missing >>= f) (.identifier :: w) follow Q := by
  rw [Rule.name, bind_assoc]
  exact expect fun t s' => next _ s'

theorem recover {x : Rule α} (read : Accepts s x w follow fun _ => True) :
    Accepts s (recover x) w follow fun a => a.isSome := by
  intro rest left after
  obtain ⟨a, s', ran, left', clean, -⟩ := read rest left after
  refine ⟨some a, s', ?_, left', clean, rfl⟩
  unfold Rule.recover
  rw [ran]

end Accepts

end Grammar

end Lox
