import Lox.Proofs.Grammar.Openings
import Lox.Proofs.Grammar.Stops

/-!
# Rules that predict

A rule that reads words of a language knows at each token whether a word goes on with it. If the rule succeeds
without a problem that unwinds, it has taken a word, and however reading can be completed from there, it is by
words that follow. Otherwise the first such problem stands at the first token that no word goes on with. What
follows is a language of its own, of which a rule has to know little: in most cases, how its words start.
-/

namespace Lox

namespace Grammar

open Rule

/-! ### Words -/

/-- The kinds of tokens. -/
def wordOf (ts : List Token) : List Token.Kind := ts.map (·.kind)

@[simp]
theorem wordOf_nil : wordOf [] = [] := rfl

@[simp]
theorem wordOf_cons (t : Token) (ts : List Token) : wordOf (t :: ts) = t.kind :: wordOf ts := rfl

@[simp]
theorem wordOf_append (ts us : List Token) : wordOf (ts ++ us) = wordOf ts ++ wordOf us :=
  List.map_append

/-! ### What a rule does -/

/-- Tokens that come to an end. -/
def State.Closed (s : State) : Prop := s.kinds.getLast? = some .eof

namespace Rule

variable {α β : Type}

/-- All problems when a rule has ended: those noted and, last, its failure. -/
def reports : EStateM.Result Diagnostic State α → List Diagnostic
  | .ok _ s => s.problems.toList
  | .error d s => s.problems.toList ++ [d]

/-- Apart from problems that do not unwind, the diagnostic is the first one after those there were before. -/
def FirstUnwinding (before : Array Diagnostic) (d : Diagnostic) (ds : List Diagnostic) : Prop :=
  ∃ notes more, ds = before.toList ++ (notes ++ d :: more) ∧ ∀ d ∈ notes, d.unwinds = false

/-- What becomes of reading a word of `L` before a word of `K`. -/
inductive Outcome (L K : Language Token.Kind) (s : State) : EStateM.Result Diagnostic State α → Prop
  /-- A word of `L` has been taken, and whatever can be read from there is a word of `K`. -/
  | taken {a : α} {s' : State} {u : List Token} (left : s.rest = u ++ s'.rest) (closed : s'.Closed)
    (word : wordOf u ∈ L) (noted : Noted s.problems s'.problems)
    (onward : ∀ z, z.head? = s'.kinds.head? → wordOf u ++ z ∈ L * K → z ∈ K) :
    Outcome L K s (.ok a s')
  /-- The first problem that unwinds is at the first token that no word goes on with. -/
  | stuck {result : EStateM.Result Diagnostic State α} {u w : List Token} {t : Token}
    {cause : SyntaxError} (left : s.rest = u ++ t :: w) (unwinds : cause.unwinds)
    (viable : ∃ v, wordOf u ++ v ∈ L) (dead : ∀ z, wordOf u ++ t.kind :: z ∉ L * K)
    (reported : FirstUnwinding s.problems (.atToken t cause) (reports result)) : Outcome L K s result

/-- On at most `b` tokens, the rule reads words of `L` before words of any language that fits. -/
def Predicts (b : Nat) (x : Rule α) (L : Language Token.Kind) (fits : Language Token.Kind → Prop) : Prop :=
  ∀ s : State, s.Closed → s.rest.length ≤ b → ∀ K, fits K → Outcome L K s (x s)

/-- The same where `t` is the next token. -/
def PredictsAt (t : Token) (b : Nat) (x : Rule α) (L : Language Token.Kind)
    (fits : Language Token.Kind → Prop) : Prop :=
  ∀ s : State, s.Closed → s.head = t → s.rest.length ≤ b → ∀ K, fits K → Outcome L K s (x s)

end Rule

/-! ### Reading in order -/

section

variable {α β : Type} {L M K : Language Token.Kind} {s s' : State}

theorem State.kinds_eq (s : State) : s.kinds = wordOf s.rest := rfl

/-- Tokens that come to an end do so after one that is not the end. -/
theorem State.Closed.tail (closed : s.Closed) (token : s.head.kind ≠ .eof) :
    State.Closed { s with rest := s.rest.tail } := by
  have split := State.rest_eq_cons token
  unfold Closed at closed ⊢
  rw [s.kinds_eq, split, wordOf_cons] at closed
  rw [s.kinds_tail, s.kinds_eq, split, wordOf_cons, List.tail_cons]
  cases more : wordOf s.rest.tail with
  | nil =>
    rw [more, List.getLast?_singleton] at closed
    exact absurd (Option.some.inj closed) token
  | cons k w => rwa [more, List.getLast?_cons_cons] at closed

theorem State.Closed.rest_eq (closed : s.Closed) : s.rest = s.head :: s.rest.tail := by
  unfold Closed at closed
  rw [s.kinds_eq] at closed
  unfold State.head
  cases left : s.rest with
  | nil =>
    rw [left] at closed
    cases closed
  | cons t rest => rfl

theorem State.Closed.head?_kinds (closed : s.Closed) : s.kinds.head? = some s.head.kind := by
  rw [s.kinds_eq, closed.rest_eq]
  rfl

theorem Rule.FirstUnwinding.before {ps ps' : Array Diagnostic} {d : Diagnostic} {ds : List Diagnostic}
    (first : FirstUnwinding ps' d ds) (noted : Noted ps ps') : FirstUnwinding ps d ds := by
  obtain ⟨notes, more, rfl, harmless⟩ := first
  obtain ⟨notes', same, harmless'⟩ := noted
  refine ⟨notes' ++ notes, more, by simp [same], fun d member => ?_⟩
  exact (List.mem_append.mp member).elim (harmless' d) (harmless d)

theorem Rule.FirstUnwinding.after {ps : Array Diagnostic} {d : Diagnostic} {ds ds' : List Diagnostic}
    (first : FirstUnwinding ps d ds) (more : ds <+: ds') : FirstUnwinding ps d ds' := by
  obtain ⟨notes, others, rfl, harmless⟩ := first
  obtain ⟨later, rfl⟩ := more
  exact ⟨notes, others ++ later, by simp, harmless⟩

/-- A rule reports what there was before it. -/
theorem Rule.reports_onward (x : Rule α) [Advances x] (s : State) :
    s.problems.toList <+: reports (x s) := by
  have onward := (Advances.onward (x := x) s).problems
  cases ran : x s with
  | ok a s' =>
    rw [ran] at onward
    exact onward
  | error d s' =>
    rw [ran] at onward
    exact onward.trans (List.prefix_append _ _)

namespace Rule

namespace Outcome

variable {r : EStateM.Result Diagnostic State α}

/-- What is said for some words holds for all words that can be read at the next token. -/
theorem widen (outcome : Outcome L K s r) (into : ∀ w ∈ L, w ∈ M)
    (back : ∀ z, z.head? = s.kinds.head? → z ∈ M * K → z ∈ L * K) : Outcome M K s r := by
  cases outcome with
  | @taken a s' u left closed word noted onward =>
    refine .taken left closed (into _ word) noted fun z same member => onward z same (back _ ?_ member)
    rw [s.kinds_eq, left, wordOf_append, List.head?_append, List.head?_append, same]
    rfl
  | stuck left unwinds viable dead reported =>
    obtain ⟨v, member⟩ := viable
    refine .stuck left unwinds ⟨v, into _ member⟩ (fun z member => dead z (back _ ?_ member)) reported
    rw [s.kinds_eq, left, wordOf_append, wordOf_cons, List.head?_append, List.head?_append]
    rfl

/-- One token goes before. -/
theorem step {t : Token} {tail : List Token} (outcome : Outcome L K { s with rest := tail } r)
    (left : s.rest = t :: tail) (into : ∀ w ∈ L, t.kind :: w ∈ M)
    (back : ∀ z, t.kind :: z ∈ M * K → z ∈ L * K) : Outcome M K s r := by
  cases outcome with
  | @taken a s' u rest closed word noted onward =>
    refine .taken (u := t :: u) ?_ closed (into _ word) noted fun z same member => onward z same (back _ member)
    rw [left, List.cons_append]
    exact congrArg (t :: ·) rest
  | @stuck _ u rest t' cause split unwinds viable dead reported =>
    obtain ⟨v, member⟩ := viable
    refine .stuck (u := t :: u) (w := rest) (t := t') ?_ unwinds ⟨v, into _ member⟩
      (fun z member => dead z (back _ member)) reported
    rw [left, List.cons_append]
    exact congrArg (t :: ·) split

/-- Identities and problems that do not unwind make no difference. -/
theorem since (outcome : Outcome L K s' r) (left : s.rest = s'.rest) (noted : Noted s.problems s'.problems) :
    Outcome L K s r := by
  cases outcome with
  | taken split closed word noted' onward =>
    exact .taken (left.trans split) closed word (noted.trans noted') onward
  | stuck split unwinds viable dead reported =>
    exact .stuck (left.trans split) unwinds viable dead (reported.before noted)

/-- The next token rules the words of the second language out. -/
theorem left {qualifies : Token.Kind → Prop} (outcome : Outcome L K s r) (closed : s.Closed)
    (others : Heads (M * K) qualifies) (differs : ¬ qualifies s.head.kind) : Outcome (L + M) K s r := by
  refine outcome.widen (fun w member => .inl member) fun z same member => ?_
  rw [closed.head?_kinds] at same
  obtain ⟨rest, rfl⟩ := List.head?_eq_some_iff.mp same
  rw [add_mul] at member
  exact member.elim id fun other => absurd (others _ _ other) differs

/-- The next token rules the words of the first language out. -/
theorem right {qualifies : Token.Kind → Prop} (outcome : Outcome M K s r) (closed : s.Closed)
    (others : Heads (L * K) qualifies) (differs : ¬ qualifies s.head.kind) : Outcome (L + M) K s r := by
  rw [add_comm]
  exact outcome.left closed others differs

/-- A failure at the next token, with which no word starts. -/
theorem failed [some : Possible L] (closed : s.Closed) {cause : SyntaxError} (unwinds : cause.unwinds)
    (dead : ∀ z, s.head.kind :: z ∉ L * K) :
    Outcome L K s (.error (.atToken s.head cause) s : EStateM.Result Diagnostic State α) :=
  .stuck (u := []) closed.rest_eq unwinds some.word dead ⟨[], [], rfl, nofun⟩

/-- Where no word of the first language goes on, none does that more is read after. -/
theorem stuck_early [some : Possible M] {u rest : List Token} {t : Token} {cause : SyntaxError}
    (left : s.rest = u ++ t :: rest) (unwinds : cause.unwinds) (viable : ∃ v, wordOf u ++ v ∈ L)
    (dead : ∀ z, wordOf u ++ t.kind :: z ∉ L * (M * K))
    (reported : FirstUnwinding s.problems (.atToken t cause) (reports r)) : Outcome (L * M) K s r := by
  obtain ⟨v, viable⟩ := viable
  obtain ⟨w, some⟩ := some.word
  refine .stuck left unwinds ⟨v ++ w, ?_⟩ (fun z => ?_) reported
  · rw [← List.append_assoc]
    exact Language.append_mem_mul viable some
  · rw [mul_assoc]
    exact dead z

/-- After a word of the first language, if all that can be read from there follows one. -/
theorem after_word {u : List Token} (outcome : Outcome M K s' r) (left : s.rest = u ++ s'.rest)
    (word : wordOf u ∈ L) (noted : Noted s.problems s'.problems)
    (onward : ∀ z, z.head? = s'.kinds.head? → wordOf u ++ z ∈ L * (M * K) → z ∈ M * K) :
    Outcome (L * M) K s r := by
  cases outcome with
  | @taken _ s₂ v rest closed word' noted' onward' =>
    refine .taken (u := u ++ v) ?_ closed ?_ (noted.trans noted') fun z same member => ?_
    · rw [left, rest, List.append_assoc]
    · rw [wordOf_append]
      exact Language.append_mem_mul word word'
    · rw [wordOf_append, List.append_assoc, mul_assoc] at member
      refine onward' z same (onward _ ?_ member)
      rw [s'.kinds_eq, rest, wordOf_append, List.head?_append, List.head?_append, same]
      rfl
  | @stuck _ v rest t cause split unwinds viable dead reported =>
    obtain ⟨z, viable⟩ := viable
    refine .stuck (u := u ++ v) (w := rest) (t := t) ?_ unwinds ⟨z, ?_⟩ (fun z member => ?_)
      (reported.before noted)
    · rw [left, split, List.append_assoc]
    · rw [wordOf_append, List.append_assoc]
      exact Language.append_mem_mul word viable
    · rw [wordOf_append, List.append_assoc, mul_assoc] at member
      refine dead z (onward _ ?_ member)
      rw [s'.kinds_eq, split, wordOf_append, wordOf_cons, List.head?_append, List.head?_append]
      rfl

end Outcome

namespace Predicts

variable {b : Nat} {fits : Language Token.Kind → Prop}

/-- There are no tokens without an end. -/
theorem zero (x : Rule α) : Predicts 0 x L fits := by
  intro s closed few
  rw [closed.rest_eq] at few
  cases few

theorem imp {x : Rule α} {narrower : Language Token.Kind → Prop} (predicts : Predicts b x L fits)
    (imp : ∀ K, narrower K → fits K) : Predicts b x L narrower :=
  fun s closed few K allowed => predicts s closed few K (imp K allowed)

/-- What follows may not matter. -/
theorem any {x : Rule α} (predicts : Predicts b x L fun _ => True) : Predicts b x L fits :=
  predicts.imp fun _ _ => trivial

theorem pure (a : α) : Predicts b (pure a) 1 fits := by
  intro s closed _ K _
  refine .taken (u := []) rfl closed rfl (.refl _) fun z _ member => ?_
  rwa [one_mul] at member

theorem ite {x y : Rule α} {c : Prop} [Decidable c] (yes : Predicts b x L fits) (no : Predicts b y L fits) :
    Predicts b (if c then x else y) L fits := by
  split
  · exact yes
  · exact no

/-- Reading goes on where the first rule has taken a word. -/
private theorem bind_of {x : Rule α} {f : α → Rule β} [∀ a, Advances (f a)] [Possible M] {c : Nat}
    {middle : Language Token.Kind → Prop} (first : Predicts b x L middle)
    (joint : ∀ K, fits K → middle (M * K)) (fewer : ∀ u ∈ L, b ≤ c + u.length)
    (next : ∀ a, Predicts c (f a) M fits) : Predicts b (x >>= f) (L * M) fits := by
  intro s closed few K allowed
  have outcome := first s closed few (M * K) (joint K allowed)
  cases ran : x s with
  | error d s' =>
    rw [ran] at outcome
    rw [bind_of_error ran]
    cases outcome with
    | stuck left unwinds viable dead reported => exact .stuck_early left unwinds viable dead reported
  | ok a s' =>
    rw [ran] at outcome
    rw [bind_of_ok ran]
    cases outcome with
    | stuck left unwinds viable dead reported =>
      -- the problem has been recovered from, and what the second rule reports comes after it
      exact .stuck_early left unwinds viable dead (reported.after (reports_onward (f a) s'))
    | @taken _ _ u left closed' word noted onward =>
      refine .after_word (next a s' closed' ?_ K allowed) left word noted onward
      have length := congrArg List.length left
      have fewer := fewer _ word
      rw [List.length_append] at length
      rw [wordOf, List.length_map] at fewer
      omega

theorem bind {x : Rule α} {f : α → Rule β} [h : ∀ a, Advances (f a)] [Possible M]
    {middle : Language Token.Kind → Prop} (first : Predicts b x L middle)
    (joint : ∀ K, fits K → middle (M * K)) (next : ∀ a, Predicts b (f a) M fits) :
    Predicts b (x >>= f) (L * M) fits :=
  bind_of first joint (fun _ _ => Nat.le_add_right _ _) next

/-- After a word that is not empty, there are fewer tokens. -/
theorem bind_past {x : Rule α} {f : α → Rule β} [h : ∀ a, Advances (f a)] [Possible M]
    {middle : Language Token.Kind → Prop} (first : Predicts b x L middle) (filled : [] ∉ L)
    (joint : ∀ K, fits K → middle (M * K)) (next : ∀ a, Predicts (b - 1) (f a) M fits) :
    Predicts b (x >>= f) (L * M) fits := by
  refine bind_of first joint (fun u member => ?_) next
  have length : u.length ≠ 0 := fun none => filled (List.length_eq_zero_iff.mp none ▸ member)
  omega

theorem bind_last {x : Rule α} {f : α → Rule β} [∀ a, Advances (f a)] (first : Predicts b x L fits)
    (next : ∀ a, Predicts b (f a) 1 fits) : Predicts b (x >>= f) L fits := by
  rw [← mul_one L]
  exact first.bind (fun K allowed => (one_mul K).symm ▸ allowed) next

theorem map {x : Rule α} (g : α → β) (predicts : Predicts b x L fits) : Predicts b (g <$> x) L fits := by
  rw [← bind_pure_comp]
  exact predicts.bind_last fun _ => .pure _

/-! ### The rules for single tokens -/

theorem peek {f : Token → Rule α} (next : ∀ t, Predicts b (f t) L fits) :
    Predicts b (peek >>= f) L fits :=
  fun s closed few K allowed => next s.head s closed few K allowed

theorem freshId {f : NodeId → Rule α} (next : ∀ id, Predicts b (f id) L fits) :
    Predicts b (freshId >>= f) L fits := by
  intro s closed few K allowed
  have outcome := next s.nextId { s with nextId := s.nextId + 1 } closed few K allowed
  exact outcome.since rfl (.refl _)

/-- A problem that does not unwind makes no difference. -/
theorem note {t : Token} {cause : SyntaxError} (harmless : cause.unwinds = false) {f : Unit → Rule α}
    (next : ∀ u, Predicts b (f u) L fits) : Predicts b (note (.atToken t cause) >>= f) L fits := by
  intro s closed few K allowed
  have outcome := next () (s.note (.atToken t cause)) closed few K allowed
  refine outcome.since rfl ⟨[.atToken t cause], Array.toList_push, fun d member => ?_⟩
  rw [List.mem_singleton.mp member]
  exact harmless

/-- After the next token has been taken off, the rest of a word is read. -/
theorem front {x : Rule α} (next : Predicts (b - 1) x L fits) (closed : s.Closed) (few : s.rest.length ≤ b)
    (inner : s.head.kind ≠ .eof) (allowed : fits K) (filled : [] ∉ M)
    (after : ∀ w, s.head.kind :: w ∈ M ↔ w ∈ L) : Outcome M K s (x { s with rest := s.rest.tail }) := by
  have fewer : s.rest.tail.length ≤ b - 1 := by
    rw [List.length_tail]
    omega
  refine (next _ (closed.tail inner) fewer K allowed).step closed.rest_eq (fun w => (after w).mpr) ?_
  intro z member
  obtain ⟨u, inside, v, later, same⟩ := Language.mem_mul.mp member
  cases u with
  | nil => exact absurd inside filled
  | cons j u =>
    cases same
    exact Language.append_mem_mul ((after u).mp inside) later

theorem single {x : Rule α} (next : Predicts (b - 1) x L fits) (closed : s.Closed)
    (few : s.rest.length ≤ b) (inner : s.head.kind ≠ .eof) (allowed : fits K) :
    Outcome (Grammar.single s.head.kind * L) K s (x { s with rest := s.rest.tail }) :=
  next.front closed few inner allowed (starts_single _).mul.filled
    fun _ => cons_mem_single_mul.trans (and_iff_right rfl)

variable {kind : Token.Kind}

theorem expect [Inner kind] [Possible L] {missing : SyntaxError} {f : Token → Rule α}
    (unwinds : missing.unwinds) (next : ∀ t, Predicts (b - 1) (f t) L fits) :
    Predicts b (expect kind missing >>= f) (Grammar.single kind * L) fits := by
  intro s closed few K allowed
  change Outcome _ _ _ (EStateM.bind (Rule.expect kind missing) f s)
  unfold EStateM.bind Rule.expect
  by_cases seen : s.head.kind = kind
  · subst seen
    rw [if_pos rfl]
    exact (next s.head).single closed few Inner.ne_eof allowed
  · rw [if_neg seen]
    refine .failed closed unwinds fun z member => ?_
    rw [mul_assoc] at member
    exact seen (cons_mem_single_mul.mp member).1

theorem expect_last [Inner kind] {missing : SyntaxError} {f : Token → Rule α} (unwinds : missing.unwinds)
    (next : ∀ t, Predicts (b - 1) (f t) 1 fits) :
    Predicts b (Rule.expect kind missing >>= f) (Grammar.single kind) fits := by
  rw [← mul_one (Grammar.single kind)]
  exact expect unwinds next

theorem name [Possible L] {missing : SyntaxError} {f : Name → Rule α} (unwinds : missing.unwinds)
    (next : ∀ name, Predicts (b - 1) (f name) L fits) :
    Predicts b (name missing >>= f) (Grammar.single .identifier * L) fits := by
  rw [Rule.name, bind_assoc]
  exact expect unwinds fun t => next _

theorem name_last {missing : SyntaxError} {f : Name → Rule α} (unwinds : missing.unwinds)
    (next : ∀ name, Predicts (b - 1) (f name) 1 fits) :
    Predicts b (Rule.name missing >>= f) (Grammar.single .identifier) fits := by
  rw [← mul_one (Grammar.single _)]
  exact name unwinds next

/-- A token that decides how to go on. Where both ways are open, what is read after taking it is all there is
to read. -/
theorem accept_first [Inner kind] {f : Bool → Rule α}
    (first : ∀ K, fits K → ∀ z, kind :: z ∈ M * K → z ∈ L * K)
    (yes : Predicts (b - 1) (f true) L fits) (no : Predicts b (f false) M fits) :
    Predicts b (accept kind >>= f) (Grammar.single kind * L + M) fits := by
  intro s closed few K allowed
  change Outcome _ _ _ (EStateM.bind (Rule.accept kind) f s)
  unfold EStateM.bind Rule.accept
  by_cases seen : s.head.kind = kind
  · subst seen
    rw [if_pos rfl]
    -- all that starts with this token may as well be read after it has been taken
    refine (yes.single closed few Inner.ne_eof allowed).widen (fun w => .inl) fun z same member => ?_
    rw [closed.head?_kinds] at same
    obtain ⟨z, rfl⟩ := List.head?_eq_some_iff.mp same
    rw [add_mul] at member
    refine member.elim id fun member => ?_
    rw [mul_assoc]
    exact cons_mem_single_mul.mpr ⟨rfl, first K allowed z member⟩
  · rw [if_neg seen]
    have taken : Heads (Grammar.single kind * L * K) (· = kind) := (starts_single kind).mul.heads_mul
    exact (no s closed few K allowed).right closed taken seen

theorem accept [Inner kind] {f : Bool → Rule α} (apart : ∀ K, fits K → Heads (M * K) (· ≠ kind))
    (yes : Predicts (b - 1) (f true) L fits) (no : Predicts b (f false) M fits) :
    Predicts b (Rule.accept kind >>= f) (Grammar.single kind * L + M) fits :=
  accept_first (fun K allowed z member => absurd rfl (apart K allowed kind z member)) yes no

/-- The next token decides how to go on and is left there. -/
theorem sees {f : Bool → Rule α} (here : ∀ K, fits K → Heads (L * K) (· = kind))
    (apart : ∀ K, fits K → Heads (M * K) (· ≠ kind)) (yes : Predicts b (f true) L fits)
    (no : Predicts b (f false) M fits) : Predicts b (sees kind >>= f) (L + M) fits := by
  intro s closed few K allowed
  change Outcome _ _ _ (f (decide (s.head.kind = kind)) s)
  by_cases seen : s.head.kind = kind
  · rw [decide_eq_true seen]
    exact (yes s closed few K allowed).left closed (apart K allowed) (· seen)
  · rw [decide_eq_false seen]
    exact (no s closed few K allowed).right closed (here K allowed) seen

/-- Reading goes on up to a token of that kind, or to the end, where that token is missing. -/
theorem until_kind {x y : Rule α} (here : ∀ K, fits K → Heads K (· = kind))
    (apart : ∀ K, fits K → Heads (M * K) fun k => k ≠ kind ∧ k ≠ .eof) (done : Predicts b x 1 fits)
    (more : Predicts b y M fits) :
    Predicts b (do if (← Rule.sees kind) || (← atEnd) then x else y) (1 + M) fits := by
  intro s closed few K allowed
  change Outcome _ _ _ ((if (decide (s.head.kind = kind) || decide (s.head.kind = .eof)) then x else y) s)
  by_cases stops : s.head.kind = kind ∨ s.head.kind = .eof
  · rw [if_pos (by simpa using stops)]
    -- at the end nothing more can be read either, so stopping there is right as well
    refine (done s closed few K allowed).left closed (apart K allowed) fun inside => ?_
    exact stops.elim inside.1 inside.2
  · rw [if_neg (by simpa using stops)]
    exact (more s closed few K allowed).right closed (heads_one_mul (here K allowed)) fun seen =>
      stops (.inl seen)

/-- A failure that has been noted stands where it stood. -/
theorem recover {x : Rule α} (predicts : Predicts b x L fits) : Predicts b (recover x) L fits := by
  intro s closed few K allowed
  have outcome := predicts s closed few K allowed
  unfold Rule.recover
  cases ran : x s with
  | ok a s' =>
    rw [ran] at outcome
    cases outcome with
    | taken left closed word noted onward => exact .taken left closed word noted onward
    | stuck left unwinds viable dead reported => exact .stuck left unwinds viable dead reported
  | error d s' =>
    rw [ran] at outcome
    cases outcome with
    | stuck left unwinds viable dead reported =>
      refine .stuck left unwinds viable dead ?_
      rwa [reports, State.note, Array.toList_push]

end Predicts

/-! ### What is done depends on the next token -/

section

variable {b : Nat} {fits : Language Token.Kind → Prop}

theorem Predicts.peeked {f : Token → Rule α} (next : ∀ t, PredictsAt t b (f t) L fits) :
    Predicts b (Rule.peek >>= f) L fits :=
  fun s closed few K allowed => next s.head s closed rfl few K allowed

namespace PredictsAt

variable {t : Token}

/-- After the next token has been taken off, the rest of a word is read. -/
theorem take {f : Unit → Rule α} (next : Predicts (b - 1) (f ()) L fits) (inner : t.kind ≠ .eof)
    (filled : [] ∉ M) (after : ∀ w, t.kind :: w ∈ M ↔ w ∈ L) :
    PredictsAt t b (Rule.take >>= f) M fits := by
  rintro s closed rfl few K allowed
  exact next.front closed few inner allowed filled after

theorem fail [Possible L] {cause : SyntaxError} (unwinds : cause.unwinds) (filled : [] ∉ L)
    (dead : ∀ w, t.kind :: w ∉ L) : PredictsAt t b (fail cause : Rule α) L fits := by
  rintro s closed rfl few K allowed
  have starts : Starts L (· ≠ s.head.kind) :=
    ⟨fun k w member same => dead w (same ▸ member), filled⟩
  exact .failed closed unwinds fun z member => starts.heads_mul _ z member rfl

/-- The next token rules the words of the second language out. -/
theorem left {x : Rule α} {qualifies : Token.Kind → Prop} (predicts : PredictsAt t b x L fits)
    (others : ∀ K, fits K → Heads (M * K) qualifies) (differs : ¬ qualifies t.kind) :
    PredictsAt t b x (L + M) fits := by
  rintro s closed rfl few K allowed
  exact (predicts s closed rfl few K allowed).left closed (others K allowed) differs

/-- The next token rules the words of the first language out. -/
theorem right {x : Rule α} {qualifies : Token.Kind → Prop} (predicts : PredictsAt t b x M fits)
    (others : ∀ K, fits K → Heads (L * K) qualifies) (differs : ¬ qualifies t.kind) :
    PredictsAt t b x (L + M) fits := by
  rw [add_comm]
  exact predicts.left others differs

end PredictsAt

theorem Predicts.at_head {x : Rule α} (predicts : Predicts b x L fits) (t : Token) :
    PredictsAt t b x L fits :=
  fun s closed _ few K allowed => predicts s closed few K allowed

/-- A token of some kinds that is taken if it comes next. -/
theorem Predicts.ahead {x y : Token → Rule α} {seen : Token.Kind → Bool} {kinds : List Token.Kind}
    (same : ∀ k, seen k ↔ k ∈ kinds) (inner : .eof ∉ kinds)
    (apart : ∀ K, fits K → Heads (M * K) (· ∉ kinds)) (yes : ∀ t, Predicts (b - 1) (x t) L fits)
    (no : ∀ t, Predicts b (y t) M fits) :
    Predicts b (do let t ← Rule.peek; if seen t.kind then do take; x t else y t)
      ((Phrase.oneOf kinds).words * L + M) fits := by
  refine .peeked fun t => ?_
  by_cases member : t.kind ∈ kinds
  · rw [if_pos ((same _).mpr member)]
    refine .left ?_ apart (· member)
    exact .take (yes t) (fun isEnd => inner (isEnd ▸ member)) (starts_oneOf kinds).mul.filled fun w =>
      cons_mem_oneOf_mul.trans (and_iff_right member)
  · rw [if_neg fun saw => member ((same _).mp saw)]
    exact ((no t).at_head t).right (fun K _ => (starts_oneOf kinds).mul.heads_mul) member

end

end Rule

end

end Grammar

end Lox
