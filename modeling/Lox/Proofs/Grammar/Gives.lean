import Lox.Proofs.Grammar.Onward

/-!
# Tokens that a rule takes

What a rule makes of tokens when they go on with others. Which tokens follow decides where a rule stops,
so they are part of the statement; they are left as they are. The problems noted before stay the only
ones.
-/

namespace Lox

namespace Grammar

open Rule

/-- Of the tokens `v` followed by `rest`, the rule takes `v` and no more, notes no problem and has a
result in `Q`. -/
def Gives {α : Type} (rule : Rule α) (v rest : List Token) (Q : α → Prop) : Prop :=
  ∀ nextId problems, ∃ a nextId', rule ⟨v ++ rest, nextId, problems⟩ = .ok a ⟨rest, nextId', problems⟩ ∧
    Q a

/-- The kind of the next token. -/
def nextKind (tokens : List Token) : Token.Kind := (tokens.headD default).kind

@[simp] theorem nextKind_cons (t : Token) (tokens : List Token) : nextKind (t :: tokens) = t.kind := rfl

namespace Gives

variable {α β : Type} {v w rest : List Token} {t : Token} {kind : Token.Kind} {Q : β → Prop}

theorem pure {b : β} (result : Q b) : Gives (pure b) [] rest Q :=
  fun nextId _ => ⟨b, nextId, rfl, result⟩

theorem imp {x : Rule β} {P : β → Prop} (first : Gives x v rest P) (weaker : ∀ b, P b → Q b) :
    Gives x v rest Q := by
  intro nextId problems
  obtain ⟨b, nextId', ran, result⟩ := first nextId problems
  exact ⟨b, nextId', ran, weaker b result⟩

theorem bind {x : Rule α} {f : α → Rule β} {P : α → Prop} (first : Gives x v (w ++ rest) P)
    (next : ∀ a, P a → Gives (f a) w rest Q) : Gives (x >>= f) (v ++ w) rest Q := by
  intro nextId problems
  obtain ⟨a, nextId₁, ranFirst, result₁⟩ := first nextId problems
  obtain ⟨b, nextId₂, ranNext, result⟩ := next a result₁ nextId₁ problems
  refine ⟨b, nextId₂, ?_, result⟩
  rw [List.append_assoc]
  change EStateM.bind x f _ = _
  unfold EStateM.bind
  rw [ranFirst]
  exact ranNext

theorem peek {f : Token → Rule β} (next : Gives (f ((v ++ rest).headD default)) v rest Q) :
    Gives (peek >>= f) v rest Q := next

theorem take {f : Unit → Rule β} (next : Gives (f ()) v rest Q) :
    Gives (take >>= f) (t :: v) rest Q := next

theorem freshId {f : NodeId → Rule β} (next : ∀ id, Gives (f id) v rest Q) :
    Gives (freshId >>= f) v rest Q :=
  fun nextId problems => next nextId (nextId + 1) problems

theorem sees {f : Bool → Rule β} (next : Gives (f (nextKind (v ++ rest) = kind)) v rest Q) :
    Gives (sees kind >>= f) v rest Q := next

theorem atEnd {f : Bool → Rule β} (next : Gives (f (nextKind (v ++ rest) = .eof)) v rest Q) :
    Gives (atEnd >>= f) v rest Q := next

theorem accept_yes {f : Bool → Rule β} (same : t.kind = kind) (next : Gives (f true) v rest Q) :
    Gives (accept kind >>= f) (t :: v) rest Q := by
  have accepted : Gives (accept kind) [t] (v ++ rest) (· = true) :=
    fun nextId _ => ⟨true, nextId, if_pos same, rfl⟩
  exact accepted.bind fun _ taken => taken ▸ next

theorem accept_no {f : Bool → Rule β} (differs : nextKind (v ++ rest) ≠ kind)
    (next : Gives (f false) v rest Q) : Gives (accept kind >>= f) v rest Q := by
  have refused : Gives (accept kind) [] (v ++ rest) (· = false) :=
    fun nextId _ => ⟨false, nextId, if_neg differs, rfl⟩
  exact refused.bind fun _ left => left ▸ next

theorem expect {missing : SyntaxError} {f : Token → Rule β} (same : t.kind = kind)
    (next : Gives (f t) v rest Q) : Gives (expect kind missing >>= f) (t :: v) rest Q := by
  have taken : Gives (Rule.expect kind missing) [t] (v ++ rest) (· = t) :=
    fun nextId _ => ⟨t, nextId, if_pos same, rfl⟩
  exact taken.bind fun _ self => self ▸ next

theorem name {missing : SyntaxError} {f : Name → Rule β} (same : t.kind = .identifier)
    (next : Gives (f ⟨t.lexeme, t.line⟩) v rest Q) :
    Gives (name missing >>= f) (t :: v) rest Q := by
  rw [Rule.name, bind_assoc]
  exact expect same next

end Gives

end Grammar

end Lox
