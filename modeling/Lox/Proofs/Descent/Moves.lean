import Lox.Proofs.Descent.Cursor
import Lox.Proofs.Grammar.Onward

/-!
# How a cursor moves

A cursor represents a state of the grammar's rules if the tokens from its position on are those that are left,
and the position has not gone past the first end token. From there each thing that a walk does at one place
succeeds and moves the cursor forward at most, and what it logs is in order: whatever is looked at lies between
the two positions.
-/

namespace Lox

namespace Descent

open Grammar (State Inner)

/-- The index of the first end token. -/
def endOf (tokens : List Token) : Nat := tokens.findIdx (·.kind = .eof)

namespace Event

/-- Where the cursor stands when the event is logged. -/
def position : Event → Nat
  | .peek i | .previous i => i
  | .pass _ stop => stop

/-- The token before a position is looked at only if there is one, and a pass takes a token. -/
def Sound : Event → Prop
  | .peek _ => True
  | .previous i => 1 ≤ i
  | .pass start stop => start < stop

end Event

/-- The cursor stands where the tokens left are those of the state. -/
structure Represents (c : Cursor) (s : State) : Prop where
  rest : s.rest = c.tokens.drop c.current
  nextId : s.nextId = c.nextId
  problems : s.problems = c.problems
  inside : c.current ≤ endOf c.tokens
  closed : endOf c.tokens < c.tokens.length

/-- Events that are logged on the way from one position to another, the latest first. -/
structure Orderly (start stop : Nat) (events : List Event) : Prop where
  ordered : (events.map Event.position).Pairwise (· ≥ ·)
  between : ∀ e ∈ events, start ≤ e.position ∧ e.position ≤ stop
  sound : ∀ e ∈ events, e.Sound

/-- The cursor goes forward, and what it logs on the way is in order. -/
structure Moves (c c' : Cursor) : Prop where
  tokens : c'.tokens = c.tokens
  forward : c.current ≤ c'.current
  log : ∃ events, c'.log = events ++ c.log ∧ Orderly c.current c'.current events

theorem Moves.refl (c : Cursor) : Moves c c :=
  ⟨rfl, Nat.le_refl _, [], rfl, .nil, nofun, nofun⟩

theorem Moves.trans {c₁ c₂ c₃ : Cursor} (first : Moves c₁ c₂) (next : Moves c₂ c₃) : Moves c₁ c₃ := by
  obtain ⟨tokens, forward, events, log, ordered, between, sound⟩ := first
  obtain ⟨tokens', forward', events', log', ordered', between', sound'⟩ := next
  refine ⟨tokens'.trans tokens, Nat.le_trans forward forward', events' ++ events, ?_, ?_, ?_, ?_⟩
  · rw [log', log, List.append_assoc]
  · rw [List.map_append, List.pairwise_append]
    refine ⟨ordered', ordered, fun i later j earlier => ?_⟩
    obtain ⟨e, member, rfl⟩ := List.mem_map.mp later
    obtain ⟨e', member', rfl⟩ := List.mem_map.mp earlier
    exact Nat.le_trans (between e' member').2 (between' e member).1
  · intro e member
    rcases List.mem_append.mp member with late | early
    · exact ⟨Nat.le_trans forward (between' e late).1, (between' e late).2⟩
    · exact ⟨(between e early).1, Nat.le_trans (between e early).2 forward'⟩
  · intro e member
    exact (List.mem_append.mp member).elim (sound' e) (sound e)

/-- The walk ends with a result, and the cursor has moved. -/
structure Goes {α : Type} (w : Walk α) (c : Cursor) (a : α) (c' : Cursor) : Prop where
  ran : w c = some (a, c')
  moves : Moves c c'

namespace Goes

variable {α β : Type}

theorem pure (a : α) (c : Cursor) : Goes (pure a) c a c := ⟨rfl, .refl c⟩

theorem bind {w : Walk α} {f : α → Walk β} {c c₁ c₂ : Cursor} {a : α} {b : β} (first : Goes w c a c₁)
    (next : Goes (f a) c₁ b c₂) : Goes (w >>= f) c b c₂ := by
  refine ⟨?_, first.moves.trans next.moves⟩
  change (w c).bind (fun p => f p.1 p.2) = _
  rw [first.ran]
  exact next.ran

end Goes

/-! ### Positions -/

variable {c : Cursor} {s : State}

theorem Represents.lt_length (at_ : Represents c s) : c.current < c.tokens.length :=
  Nat.lt_of_le_of_lt at_.inside at_.closed

theorem Represents.length_rest (at_ : Represents c s) :
    s.rest.length + c.current = c.tokens.length := by
  rw [at_.rest, List.length_drop]
  have := at_.lt_length
  omega

theorem Represents.get (at_ : Represents c s) : c.tokens[c.current]? = some s.head := by
  rw [State.head, at_.rest, List.headD_eq_head?_getD, List.head?_drop,
    List.getElem?_eq_getElem at_.lt_length]
  rfl

/-- The end is reached at the first end token. -/
theorem Represents.head_eof_iff (at_ : Represents c s) :
    s.head.kind = .eof ↔ c.current = endOf c.tokens := by
  have found := at_.get
  rw [List.getElem?_eq_getElem at_.lt_length] at found
  rw [← Option.some.inj found]
  constructor
  · intro eof
    refine Nat.le_antisymm at_.inside (Nat.le_of_not_lt fun before => ?_)
    exact of_decide_eq_false (List.not_of_lt_findIdx before) eof
  · intro reached
    have last := List.findIdx_getElem (p := fun t : Token => decide (t.kind = .eof)) (w := at_.closed)
    simp only [reached]
    exact of_decide_eq_true last

/-- The cursor is where it was, and has logged what happened there. -/
structure Stays (c c' : Cursor) : Prop where
  moves : Moves c c'
  current : c'.current = c.current
  nextId : c'.nextId = c.nextId
  problems : c'.problems = c.problems

theorem Stays.trans {c₁ c₂ c₃ : Cursor} (first : Stays c₁ c₂) (next : Stays c₂ c₃) : Stays c₁ c₃ :=
  ⟨first.moves.trans next.moves, next.current.trans first.current, next.nextId.trans first.nextId,
    next.problems.trans first.problems⟩

/-- One event at the position where the cursor stands. -/
theorem stays_log {e : Event} (there : e.position = c.current) (sound : e.Sound) :
    Stays c { c with log := e :: c.log } := by
  refine ⟨⟨rfl, Nat.le_refl _, [e], rfl, ?_, ?_, ?_⟩, rfl, rfl, rfl⟩
  · exact List.pairwise_singleton _ _
  · exact List.forall_mem_singleton.mpr ⟨Nat.le_of_eq there.symm, Nat.le_of_eq there⟩
  · exact List.forall_mem_singleton.mpr sound

theorem Represents.stays {c' : Cursor} (at_ : Represents c s) (stays : Stays c c') : Represents c' s where
  rest := by rw [stays.moves.tokens, stays.current, at_.rest]
  nextId := at_.nextId.trans stays.nextId.symm
  problems := at_.problems.trans stays.problems.symm
  inside := by
    rw [stays.moves.tokens, stays.current]
    exact at_.inside
  closed := stays.moves.tokens.symm ▸ at_.closed

/-- The token before the position is `t`. -/
structure Prior (c : Cursor) (t : Token) : Prop where
  pos : 0 < c.current
  get : c.tokens[c.current - 1]? = some t

theorem Prior.stays {c' : Cursor} {t : Token} (prior : Prior c t) (stays : Stays c c') : Prior c' t := by
  constructor
  · rw [stays.current]
    exact prior.pos
  · rw [stays.moves.tokens, stays.current]
    exact prior.get

/-- There is a token before every position but the first. -/
theorem Represents.prior (at_ : Represents c s) (pos : 0 < c.current) : ∃ t, Prior c t := by
  have inside : c.current - 1 < c.tokens.length := Nat.lt_of_le_of_lt (Nat.sub_le _ _) at_.lt_length
  exact ⟨_, pos, List.getElem?_eq_getElem inside⟩

/-! ### Walks that stay -/

/-- The walk ends with the result where it started. -/
def Rests {α : Type} (w : Walk α) (c : Cursor) (a : α) : Prop := ∃ c', Goes w c a c' ∧ Stays c c'

theorem Rests.pure {α : Type} (a : α) (c : Cursor) : Rests (pure a) c a :=
  ⟨c, .pure a c, .refl c, rfl, rfl, rfl⟩

theorem Rests.bind {α β : Type} {w : Walk α} {f : α → Walk β} {a : α} {b : β} (first : Rests w c a)
    (next : ∀ c', Stays c c' → Rests (f a) c' b) : Rests (w >>= f) c b := by
  obtain ⟨c₁, goes, stays⟩ := first
  obtain ⟨c₂, goes', stays'⟩ := next c₁ stays
  exact ⟨c₂, goes.bind goes', stays.trans stays'⟩

theorem Represents.peek (at_ : Represents c s) : Rests peek c s.head := by
  have stays := stays_log (c := c) (e := .peek c.current) rfl trivial
  refine ⟨_, ⟨?_, stays.moves⟩, stays⟩
  rw [Descent.peek, at_.get]
  rfl

theorem Prior.previous {t : Token} (prior : Prior c t) : Rests previous c t := by
  have stays := stays_log (c := c) (e := .previous c.current) rfl prior.pos
  refine ⟨_, ⟨?_, stays.moves⟩, stays⟩
  rw [Descent.previous, if_neg (Nat.ne_of_gt prior.pos), prior.get]
  rfl

theorem Represents.isAtEnd (at_ : Represents c s) : Rests isAtEnd c s.atEnd :=
  at_.peek.bind fun c' _ => .pure _ c'

theorem Represents.ended (at_ : Represents c s) (ended : s.head.kind = .eof) :
    Rests Descent.isAtEnd c true :=
  decide_eq_true ended ▸ at_.isAtEnd

theorem Represents.more (at_ : Represents c s) (more : s.head.kind ≠ .eof) :
    Rests Descent.isAtEnd c false :=
  decide_eq_false more ▸ at_.isAtEnd

theorem Represents.check (at_ : Represents c s) (kind : Token.Kind) [Inner kind] :
    Rests (check kind) c (s.head.kind = kind) := by
  refine at_.isAtEnd.bind fun c₁ stays => ?_
  split
  · rename_i ended
    have other : s.head.kind ≠ kind := (of_decide_eq_true ended).symm ▸ Inner.ne_eof.symm
    rw [decide_eq_false other]
    exact .pure _ c₁
  · exact (at_.stays stays).peek.bind fun c₂ _ => .pure _ c₂

theorem goes_position (c : Cursor) : Goes position c c.current c := ⟨rfl, .refl c⟩

/-- A pass is logged that has taken a token. -/
theorem rests_pass {start : Nat} (took : start < c.current) : Rests (pass start) c () :=
  have stays := stays_log (c := c) (e := .pass start c.current) rfl took
  ⟨_, ⟨rfl, stays.moves⟩, stays⟩

/-! ### Walks that go on -/

/-- The state once the next token has been taken. -/
abbrev taken (s : State) : State := { s with rest := s.rest.tail }

theorem Represents.advance (at_ : Represents c s) (more : s.head.kind ≠ .eof) :
    ∃ c', Goes advance c s.head c' ∧ Represents c' (taken s) ∧ Prior c' s.head := by
  obtain ⟨c₁, looks, stays⟩ := at_.more more
  have at₁ := at_.stays stays
  let c₂ : Cursor := { c₁ with current := c₁.current + 1 }
  have moves : Moves c₁ c₂ := ⟨rfl, Nat.le_succ _, [], rfl, .nil, nofun, nofun⟩
  have prior : Prior c₂ s.head := ⟨Nat.succ_pos _, at₁.get⟩
  have at₂ : Represents c₂ (taken s) := by
    refine ⟨?_, at₁.nextId, at₁.problems, ?_, at₁.closed⟩
    · change s.rest.tail = _
      rw [at₁.rest, List.tail_drop]
    · exact Nat.lt_of_le_of_ne at₁.inside (mt at₁.head_eof_iff.mpr more)
  obtain ⟨c₃, returns, stays'⟩ := prior.previous
  exact ⟨c₃, looks.bind (Goes.bind ⟨rfl, moves⟩ returns), at₂.stays stays', prior.stays stays'⟩

/-- At the end nothing moves. -/
theorem Represents.advance_end {t : Token} (at_ : Represents c s) (ended : s.head.kind = .eof)
    (prior : Prior c t) : Rests Descent.advance c t :=
  (at_.ended ended).bind fun _ stays => (prior.stays stays).previous

/-- What a walk that compares the next token comes to: it has gone past the token if the answer is yes. -/
def Decides (w : Walk Bool) (c : Cursor) (s : State) (yes : Prop) : Prop :=
  (yes → ∃ c', Goes w c true c' ∧ Represents c' (taken s) ∧ Prior c' s.head) ∧
    (¬ yes → Rests w c false)

theorem Represents.accepts (at_ : Represents c s) (kind : Token.Kind) [Inner kind] :
    Decides (accepts kind) c s (s.head.kind = kind) := by
  obtain ⟨c₁, looks, stays⟩ := at_.check kind
  constructor
  · intro same
    rw [decide_eq_true same] at looks
    obtain ⟨c₂, goes, at₂, prior⟩ := (at_.stays stays).advance (Inner.ne_of_eq same)
    exact ⟨c₂, looks.bind (goes.bind (.pure true c₂)), at₂, prior⟩
  · intro other
    rw [decide_eq_false other] at looks
    exact ⟨c₁, looks.bind (.pure false c₁), stays⟩

theorem Represents.acceptsAny (at_ : Represents c s) (kinds : List Token.Kind)
    (inner : .eof ∉ kinds) : Decides (acceptsAny kinds) c s (s.head.kind ∈ kinds) := by
  induction kinds generalizing c with
  | nil => exact ⟨nofun, fun _ => .pure false c⟩
  | cons kind rest ih =>
    obtain ⟨one, others⟩ := not_or.mp (mt List.mem_cons.mpr inner)
    have : Inner kind := ⟨fun eof => one eof.symm⟩
    obtain ⟨yes, no⟩ := at_.accepts kind
    by_cases same : s.head.kind = kind
    · refine ⟨fun _ => ?_, fun absent => absurd (List.mem_cons.mpr (.inl same)) absent⟩
      obtain ⟨c₁, goes, at₁, prior⟩ := yes same
      exact ⟨c₁, goes.bind (.pure true c₁), at₁, prior⟩
    · obtain ⟨c₁, goes, stays⟩ := no same
      obtain ⟨yes', no'⟩ := ih (at_.stays stays) others
      constructor
      · intro member
        obtain ⟨c₂, goes', at₂, prior⟩ := yes' ((List.mem_cons.mp member).resolve_left same)
        exact ⟨c₂, goes.bind goes', at₂, prior⟩
      · intro absent
        obtain ⟨c₂, goes', stays'⟩ := no' fun member => absent (List.mem_cons.mpr (.inr member))
        exact ⟨c₂, goes.bind goes', stays.trans stays'⟩

theorem Represents.report (at_ : Represents c s) (d : Diagnostic) :
    ∃ c', Goes (report d) c () c' ∧ Represents c' (s.note d) ∧ c'.current = c.current := by
  have moves : Moves c { c with problems := c.problems.push d } :=
    ⟨rfl, Nat.le_refl _, [], rfl, .nil, nofun, nofun⟩
  refine ⟨_, ⟨rfl, moves⟩, ⟨at_.rest, at_.nextId, ?_, at_.inside, at_.closed⟩, rfl⟩
  exact congrArg (·.push d) at_.problems

/-! ### Recovery -/

theorem Represents.rest_eq_cons (at_ : Represents c s) : s.rest = s.head :: s.rest.tail := by
  cases left : s.rest with
  | nil =>
    have counted := at_.length_rest
    rw [left, List.length_nil, Nat.zero_add] at counted
    exact absurd at_.lt_length (Nat.not_lt_of_ge (Nat.le_of_eq counted.symm))
  | cons t rest => rw [State.head, left, List.headD_cons, List.tail_cons]

/-- At a place where a statement may start nothing is skipped. -/
theorem Represents.skip_stops {t : Token} {n : Nat} (at_ : Represents c s) (prior : Prior c t)
    (stop : s.head.kind = .eof ∨ t.kind = .symbol .semicolon ∨ Grammar.startsStatement s.head.kind) :
    Rests (skip (n + 1)) c () := by
  rw [skip]
  by_cases ended : s.head.kind = .eof
  · exact (at_.ended ended).bind fun c₁ _ => .pure () c₁
  refine (at_.more ended).bind fun c₁ stays => (prior.stays stays).previous.bind fun c₂ stays' => ?_
  by_cases closed : t.kind = .symbol .semicolon
  · rw [if_pos closed]
    exact .pure () c₂
  rw [if_neg closed]
  refine ((at_.stays stays).stays stays').peek.bind fun c₃ _ => ?_
  rw [if_pos ((stop.resolve_left ended).resolve_left closed)]
  exact .pure () c₃

/-- At any other place the next token is skipped, and skipping goes on. -/
theorem Represents.skip_goes_on {t : Token} {n : Nat} (at_ : Represents c s) (prior : Prior c t)
    (go : ¬ (s.head.kind = .eof ∨ t.kind = .symbol .semicolon ∨ Grammar.startsStatement s.head.kind)) :
    ∃ c₁, Represents c₁ (taken s) ∧ Prior c₁ s.head ∧
      ∀ c', Goes (skip n) c₁ () c' → Goes (skip (n + 1)) c () c' := by
  obtain ⟨ended, closed, starts⟩ := by simpa only [not_or] using go
  obtain ⟨c₁, looks, stays⟩ := at_.more ended
  obtain ⟨c₂, looks', stays'⟩ := (prior.stays stays).previous
  have at₂ := (at_.stays stays).stays stays'
  obtain ⟨c₃, looks'', stays''⟩ := at₂.peek
  obtain ⟨c₄, goes, at₄, prior'⟩ := (at₂.stays stays'').advance ended
  refine ⟨c₄, at₄, prior', fun c' on => ?_⟩
  rw [skip]
  refine looks.bind (looks'.bind ?_)
  rw [if_neg closed]
  refine looks''.bind ?_
  rw [if_neg starts]
  exact goes.bind on

/-- The tokens up to the next place where a statement may start are skipped. -/
theorem Represents.skip {t : Token} {n : Nat} (at_ : Represents c s) (prior : Prior c t)
    (enough : s.rest.length ≤ n) :
    ∃ c', Goes (skip n) c () c' ∧ Represents c' { s with rest := Grammar.nextStatement t.kind s.rest } := by
  induction n generalizing c s t with
  | zero =>
    have counted := at_.length_rest
    have inside := at_.lt_length
    omega
  | succ n ih =>
    rw [at_.rest_eq_cons, Grammar.nextStatement]
    by_cases stop :
      s.head.kind = .eof ∨ t.kind = .symbol .semicolon ∨ Grammar.startsStatement s.head.kind
    · obtain ⟨c', goes, stays⟩ := at_.skip_stops prior stop
      refine ⟨c', goes, ?_⟩
      rw [if_pos stop, ← at_.rest_eq_cons]
      exact at_.stays stays
    · obtain ⟨c₁, at₁, prior', on⟩ := at_.skip_goes_on prior stop
      have shorter : (taken s).rest.length ≤ n := by
        rw [List.length_tail]
        omega
      obtain ⟨c', goes, at'⟩ := ih at₁ prior' shorter
      refine ⟨c', on c' goes, ?_⟩
      rw [if_neg stop]
      exact at'

/-- Recovery at the end looks back, so a token has to stand before the end. -/
theorem Represents.synchronize {n : Nat} (at_ : Represents c s)
    (pos : s.head.kind = .eof → 0 < c.current) (enough : s.rest.length ≤ n) :
    ∃ c', Goes (synchronize n) c () c' ∧
      Represents c' { s with rest := Grammar.synchronize s.rest } := by
  rw [at_.rest_eq_cons, Grammar.synchronize]
  by_cases ended : s.head.kind = .eof
  · obtain ⟨t, prior⟩ := at_.prior (pos ended)
    obtain ⟨c₁, goes, stays⟩ := at_.advance_end ended prior
    obtain ⟨c₂, goes', at₂⟩ := (at_.stays stays).skip (prior.stays stays) enough
    refine ⟨c₂, goes.bind goes', ?_⟩
    rw [at_.rest_eq_cons, Grammar.nextStatement, if_pos (.inl ended)] at at₂
    rwa [if_pos ended]
  · obtain ⟨c₁, goes, at₁, prior⟩ := at_.advance ended
    have fewer : (taken s).rest.length ≤ n := by
      rw [List.length_tail]
      omega
    obtain ⟨c₂, goes', at₂⟩ := at₁.skip prior fewer
    refine ⟨c₂, goes.bind goes', ?_⟩
    rwa [if_neg ended]

end Descent

end Lox
