import Lox.Proofs.Grammar.Gives
import Lox.Reading

/-!
# Where a broken statement stops

What the rules do with a statement up to its semicolon, whatever follows the semicolon. A rule for expressions
stops before the semicolon, and a rule for statements just past it or, if it fails, before it. Blocks and
`for` loops, which hold semicolons of their own, are left out.
-/

namespace Lox

/-- Whether a rule that comes to this fails. Other problems are noted, and reading goes on. -/
def SyntaxError.unwinds : SyntaxError → Bool
  | .invalidAssignmentTarget | .tooManyParameters | .tooManyArguments => false
  | _ => true

def Diagnostic.unwinds : Diagnostic → Bool
  | .syntactic _ _ cause => cause.unwinds
  | .lexical _ _ | .scoping _ _ _ => true

namespace Grammar

open Rule

/-- A token of a statement, before its semicolon. -/
structure Plain (t : Token) : Prop where
  notEnd : t.kind ≠ .eof
  notSemicolon : t.kind ≠ .symbol .semicolon
  notLeftBrace : t.kind ≠ .symbol .leftBrace
  notRightBrace : t.kind ≠ .symbol .rightBrace
  notFor : t.kind ≠ .keyword .for

abbrev AllPlain (v : List Token) : Prop := ∀ t ∈ v, Plain t

/-- The problems from then on, after some that need no failure. -/
def Noted (ps ps' : Array Diagnostic) : Prop :=
  ∃ notes, ps'.toList = ps.toList ++ notes ∧ ∀ d ∈ notes, d.unwinds = false

theorem Noted.refl (ps : Array Diagnostic) : Noted ps ps := ⟨[], (List.append_nil _).symm, nofun⟩

theorem Noted.trans {ps₁ ps₂ ps₃ : Array Diagnostic} (first : Noted ps₁ ps₂) (next : Noted ps₂ ps₃) :
    Noted ps₁ ps₃ := by
  obtain ⟨notes, same, none⟩ := first
  obtain ⟨notes', same', none'⟩ := next
  refine ⟨notes ++ notes', by rw [same', same, List.append_assoc], fun d member => ?_⟩
  exact (List.mem_append.mp member).elim (none d) (none' d)

/-- Where a rule stops in a statement: before the semicolon or just past it. -/
inductive Stop where
  | before
  | past

section

variable {α β : Type} (semi : Token)

/-- What is left at the place, depending on the tokens after the semicolon. -/
def Stop.Leaves : Stop → (List Token → List Token) → Prop
  | .before, left => ∃ w, AllPlain w ∧ left = fun r => w ++ semi :: r
  | .past, left => left = id

/-- The rule succeeds, and stops at the place, if what follows the semicolon does not start with `else`. -/
def Succeeds (stop : Stop) (x : Rule α) (v : List Token) (id : NodeId) (ps : Array Diagnostic) : Prop :=
  ∃ a left id' ps', stop.Leaves semi left ∧ Noted ps ps' ∧ ∀ r, nextKind r ≠ .keyword .else →
    x ⟨v ++ semi :: r, id, ps⟩ = .ok a ⟨left r, id', ps'⟩

/-- The rule fails at a token of the statement, whatever follows the semicolon. -/
def BreaksOff (x : Rule α) (v : List Token) (id : NodeId) (ps : Array Diagnostic) : Prop :=
  ∃ cause w id' ps', cause.unwinds ∧ AllPlain w ∧ Noted ps ps' ∧ ∀ r, nextKind r ≠ .keyword .else →
    x ⟨v ++ semi :: r, id, ps⟩ = .error (.atToken (w.headD semi) cause) ⟨w ++ semi :: r, id', ps'⟩

/-- From a statement of which `v` and the semicolon are left, the rule stops at the place or fails. -/
def Stops (stop : Stop) (x : Rule α) (v : List Token) (id : NodeId) (ps : Array Diagnostic) : Prop :=
  Succeeds semi stop x v id ps ∨ BreaksOff semi x v id ps

variable {semi} {stop : Stop} {x : Rule α} {f : α → Rule β} {v : List Token} {id : NodeId}
  {ps : Array Diagnostic}

theorem BreaksOff.bind (first : BreaksOff semi x v id ps) : BreaksOff semi (x >>= f) v id ps := by
  obtain ⟨cause, w, id₁, ps₁, unwinds, plain, noted, ran⟩ := first
  exact ⟨cause, w, id₁, ps₁, unwinds, plain, noted, fun r noElse => bind_of_error (ran r noElse)⟩

namespace Stops

/-- After a rule that stops before the semicolon, another one goes on from there. -/
theorem bind (first : Stops semi .before x v id ps)
    (next : ∀ a w id' ps', AllPlain w → Stops semi stop (f a) w id' ps') :
    Stops semi stop (x >>= f) v id ps := by
  rcases first with ⟨a, _, id₁, ps₁, ⟨w, plain, rfl⟩, noted, ran⟩ | broken
  · rcases next a w id₁ ps₁ plain with ⟨b, left, id₂, ps₂, leaves, noted', ran'⟩ | broken
    · exact .inl ⟨b, left, id₂, ps₂, leaves, noted.trans noted', fun r noElse =>
        (bind_of_ok (ran r noElse)).trans (ran' r noElse)⟩
    · obtain ⟨cause, w', id₂, ps₂, unwinds, plain', noted', ran'⟩ := broken
      exact .inr ⟨cause, w', id₂, ps₂, unwinds, plain', noted.trans noted', fun r noElse =>
        (bind_of_ok (ran r noElse)).trans (ran' r noElse)⟩
  · exact .inr broken.bind

/-- Past the semicolon nothing more is taken. -/
theorem bind_pure (first : Stops semi .past x v id ps) (g : α → β) :
    Stops semi .past (x >>= fun a => Pure.pure (g a)) v id ps := by
  rcases first with ⟨a, left, id₁, ps₁, leaves, noted, ran⟩ | broken
  · exact .inl ⟨g a, left, id₁, ps₁, leaves, noted, fun r noElse => bind_of_ok (ran r noElse)⟩
  · exact .inr broken.bind

/-- Past the semicolon there is no `else`. -/
theorem bind_noElse (first : Stops semi .past x v id ps) (f : α → Rule β) (g : α → β) :
    Stops semi .past
      (x >>= fun a => do if ← accept (.keyword .else) then f a else return g a) v id ps := by
  rcases first with ⟨a, left, id₁, ps₁, leaves, noted, ran⟩ | broken
  · obtain rfl : left = _ := leaves
    refine .inl ⟨g a, _, id₁, ps₁, rfl, noted, fun r noElse => (bind_of_ok (ran r noElse)).trans ?_⟩
    have refused : Rule.accept (.keyword .else) ⟨r, id₁, ps₁⟩ = .ok false ⟨r, id₁, ps₁⟩ := if_neg noElse
    exact bind_of_ok refused
  · exact .inr broken.bind

theorem pure (plain : AllPlain v) (a : α) : Stops semi .before (Pure.pure a) v id ps :=
  .inl ⟨a, _, id, ps, ⟨v, plain, rfl⟩, .refl ps, fun _ _ => rfl⟩

theorem ite {y : Rule α} {c : Prop} [Decidable c] (yes : Stops semi stop x v id ps)
    (no : Stops semi stop y v id ps) : Stops semi stop (if c then x else y) v id ps := by
  split
  · exact yes
  · exact no

/-! ### Single tokens -/

theorem head_append (v : List Token) (semi : Token) (r : List Token) (id : NodeId)
    (ps : Array Diagnostic) : State.head ⟨v ++ semi :: r, id, ps⟩ = v.headD semi := by
  cases v <;> rfl

theorem fail (plain : AllPlain v) {cause : SyntaxError} (unwinds : cause.unwinds) :
    Stops semi stop (fail cause : Rule α) v id ps := by
  refine .inr ⟨cause, v, id, ps, unwinds, plain, .refl ps, fun r _ => ?_⟩
  rw [Rule.fail, head_append]

theorem peek {f : Token → Rule β} (next : Stops semi stop (f (v.headD semi)) v id ps) :
    Stops semi stop (peek >>= f) v id ps := by
  have same (r : List Token) :
      (Rule.peek >>= f) ⟨v ++ semi :: r, id, ps⟩ = f (v.headD semi) ⟨v ++ semi :: r, id, ps⟩ := by
    rw [← head_append v semi r id ps]
    rfl
  simpa only [Stops, Succeeds, BreaksOff, same] using next

/-- A token of the statement that has been looked at. -/
theorem take {t : Token} {f : Unit → Rule β} (next : Stops semi stop (f ()) v id ps) :
    Stops semi stop (take >>= f) (t :: v) id ps := next

theorem note {cause : SyntaxError} (plain : AllPlain v) (t : Token) (noted : cause.unwinds = false) :
    Stops semi .before (note (.atToken t cause)) v id ps := by
  refine .inl ⟨(), _, id, ps.push (.atToken t cause), ⟨v, plain, rfl⟩, ?_, fun _ _ => rfl⟩
  exact ⟨[.atToken t cause], Array.toList_push, List.forall_mem_singleton.mpr noted⟩

theorem freshId (plain : AllPlain v) : Stops semi .before freshId v id ps :=
  .inl ⟨id, _, id + 1, ps, ⟨v, plain, rfl⟩, .refl ps, fun _ _ => rfl⟩

theorem sees (plain : AllPlain v) (kind : Token.Kind) : Stops semi .before (sees kind) v id ps := by
  refine .inl ⟨(v.headD semi).kind = kind, _, id, ps, ⟨v, plain, rfl⟩, .refl ps, fun r _ => ?_⟩
  rw [Rule.sees, head_append]

theorem accept {kind : Token.Kind} (plain : AllPlain v) (other : semi.kind ≠ kind) :
    Stops semi .before (accept kind) v id ps := by
  cases v with
  | nil => exact .inl ⟨false, _, id, ps, ⟨[], plain, rfl⟩, .refl ps, fun r _ => if_neg other⟩
  | cons t w =>
    by_cases same : t.kind = kind
    · have rest : AllPlain w := fun u member => plain u (List.mem_cons_of_mem t member)
      exact .inl ⟨true, _, id, ps, ⟨w, rest, rfl⟩, .refl ps, fun r _ => if_pos same⟩
    · exact .inl ⟨false, _, id, ps, ⟨t :: w, plain, rfl⟩, .refl ps, fun r _ => if_neg same⟩

theorem expect {kind : Token.Kind} {missing : SyntaxError} (plain : AllPlain v)
    (other : semi.kind ≠ kind) (unwinds : missing.unwinds) :
    Stops semi .before (expect kind missing) v id ps := by
  cases v with
  | nil =>
    exact .inr ⟨missing, [], id, ps, unwinds, plain, .refl ps, fun r _ => if_neg other⟩
  | cons t w =>
    by_cases same : t.kind = kind
    · have rest : AllPlain w := fun u member => plain u (List.mem_cons_of_mem t member)
      exact .inl ⟨t, _, id, ps, ⟨w, rest, rfl⟩, .refl ps, fun r _ => if_pos same⟩
    · exact .inr ⟨missing, t :: w, id, ps, unwinds, plain, .refl ps, fun r _ => if_neg same⟩

theorem name {missing : SyntaxError} (plain : AllPlain v) (semicolon : semi.kind = .symbol .semicolon)
    (unwinds : missing.unwinds) : Stops semi .before (name missing) v id ps :=
  (expect plain (by simp [semicolon]) unwinds).bind fun _ _ _ _ plain => pure plain _

/-- The semicolon is taken, if nothing stands before it. -/
theorem expect_semicolon {missing : SyntaxError} (plain : AllPlain v)
    (semicolon : semi.kind = .symbol .semicolon) (unwinds : missing.unwinds) :
    Stops semi .past (Rule.expect (.symbol .semicolon) missing) v id ps := by
  cases v with
  | nil => exact .inl ⟨semi, _, id, ps, rfl, .refl ps, fun r _ => if_pos semicolon⟩
  | cons t w =>
    have other := (plain t List.mem_cons_self).notSemicolon
    exact .inr ⟨missing, t :: w, id, ps, unwinds, plain, .refl ps, fun r _ => if_neg other⟩

/-- There is no brace in the statement. -/
theorem expect_leftBrace {missing : SyntaxError} (plain : AllPlain v)
    (semicolon : semi.kind = .symbol .semicolon) (unwinds : missing.unwinds) (f : Token → Rule β) :
    Stops semi stop (Rule.expect (.symbol .leftBrace) missing >>= f) v id ps := by
  have other : (v.headD semi).kind ≠ .symbol .leftBrace := by
    cases v with
    | nil =>
      change semi.kind ≠ _
      simp [semicolon]
    | cons t w => exact (plain t List.mem_cons_self).notLeftBrace
  refine .inr (BreaksOff.bind ⟨missing, v, id, ps, unwinds, plain, .refl ps, fun r _ => ?_⟩)
  rw [Rule.expect, head_append, if_neg other]

end Stops

end

end Grammar

end Lox
