import Lox.Proofs.Grammar.Acceptance
import Lox.Proofs.Grammar.MirrorPrograms

/-!
# Reading two programs in one

Tokens that are read as a program without a problem are read so in front of the tokens of another one. What
is read then are the statements of both, with the identities that they have when one is read after the
other.
-/

namespace Lox

namespace Grammar

section

variable {tokens : List Token} {last : Token} {firstId : NodeId}

/-- Reading a program without a problem ends at the end token, and no program starts with `else`. -/
theorem declarations_of_clean (only : ∀ t ∈ tokens, t.kind ≠ .eof) (ended : last.kind = .eof)
    (clean : (program (tokens ++ [last]) firstId).diagnostics = []) :
    (((tokens ++ [last]).headD default).kind ≠ .keyword .else) ∧
    ∃ s, declarations (depthFor (tokens ++ [last])) .eof [] (State.start (tokens ++ [last]) firstId) =
        .ok (program (tokens ++ [last]) firstId).result s ∧
      s.rest = [last] ∧ s.problems = #[] ∧
      s.nextId = (program (tokens ++ [last]) firstId).nextId := by
  obtain ⟨_, _, split, ⟨words, rfl, each⟩, _, last', rfl⟩ :=
    sentence_iff.mp (sentence_of_clean only ended clean)
  cases List.mem_singleton.mp last'
  have flat := (List.append_inj' split rfl).1
  constructor
  · cases tokens with
    | nil =>
      intro same
      rw [List.nil_append, List.headD_cons, ended] at same
      cases same
    | cons t rest =>
      -- the first token starts the first declaration
      cases words with
      | nil => cases flat
      | cons w words =>
        obtain ⟨k, v, rfl, starts⟩ := (each w List.mem_cons_self).isRead.starts
        rw [List.flatten_cons, List.cons_append] at flat
        intro same
        have same : t.kind = .keyword .else := same
        rw [List.map_cons, same] at flat
        injection flat with isElse _
        rw [← isElse] at starts
        cases starts
  · obtain ⟨statements, s, ran, left, clean, -⟩ :=
      declarations_of_sentence ended flat each
    refine ⟨s, ?_, left, clean, ?_⟩ <;> rw [program, ran]

end

/-- Declarations that are read up to the end are read so in front of a tail as well, and reading goes on there
with a bound of which they have used no more than there were tokens. -/
theorem declarations_front {f : Nat → Nat} {tail : List Token} {s s' s₁ : State} {n : Nat}
    {result : List Stmt} (noElse : (tail.headD default).kind ≠ .keyword .else)
    (beside : Beside f tail s s') (ran : declarations n .eof [] s = .ok result s₁)
    (clean : s₁.problems = s.problems) (left : 0 < s₁.rest.length) (k : Nat) :
    ∃ m s₁', n ≤ m + s.rest.length ∧ s₁' = ⟨tail, s₁.nextId, s₁.problems⟩ ∧
      ∀ done, declarations (k + n) .eof done s' =
        declarations (k + m + 1) .eof ((result.map (Stmt.reline f)).reverse ++ done) s₁' := by
  obtain ⟨read, m, s₁', whole, spent, taken, single, beside₁, further⟩ :=
    declarations_beside (k := k) noElse beside ran clean left
  rw [List.reverse_nil, List.nil_append] at whole
  subst whole
  refine ⟨m, s₁', by omega, ?_, further⟩
  obtain ⟨right, -⟩ := beside₁.at_end single
  rw [← right, ← beside₁.nextId, ← beside₁.problems]

/-- If the tail is an end token, reading ends there. -/
theorem declarations_to_end {f : Nat → Nat} {last' : Token} {s s' s₁ : State} {n m : Nat}
    {result : List Stmt} (ended : last'.kind = .eof) (beside : Beside f [last'] s s')
    (ran : declarations n .eof [] s = .ok result s₁) (clean : s₁.problems = s.problems)
    (left : 0 < s₁.rest.length) (enough : n ≤ m) (done : List Stmt) :
    declarations m .eof done s' =
      .ok (done.reverse ++ result.map (Stmt.reline f)) ⟨[last'], s₁.nextId, s₁.problems⟩ := by
  have noElse : (([last'] : List Token).headD default).kind ≠ .keyword .else := by
    rw [List.headD_cons, ended]
    nofun
  obtain ⟨k, rfl⟩ := Nat.exists_eq_add_of_le' enough
  obtain ⟨_, _, -, rfl, further⟩ := declarations_front noElse beside ran clean left k
  have stopped : (State.head ⟨[last'], s₁.nextId, s₁.problems⟩).kind = .eof := ended
  rw [further, declarations_end_succ, if_pos stopped, List.reverse_append, List.reverse_reverse]

/-- Two programs in one are read as the statements of both. -/
theorem program_append {first next : List Token} {last last' : Token} {firstId : NodeId}
    (only : ∀ t ∈ first, t.kind ≠ .eof) (ended : last.kind = .eof)
    (clean : (program (first ++ [last]) firstId).diagnostics = [])
    (only' : ∀ t ∈ next, t.kind ≠ .eof) (ended' : last'.kind = .eof)
    (clean' : (program (next ++ [last']) (program (first ++ [last]) firstId).nextId).diagnostics = [])
    (f : Nat → Nat) :
    program (first ++ (next ++ [last']).map (Token.reline f)) firstId =
      let one := program (first ++ [last]) firstId
      let other := program (next ++ [last']) one.nextId
      ⟨one.result ++ other.result.map (Stmt.reline f), [], other.nextId⟩ := by
  obtain ⟨-, s₁, ran, left, unnoted, free⟩ := declarations_of_clean only ended clean
  obtain ⟨noElse, s₂, ran', left', unnoted', free'⟩ := declarations_of_clean only' ended' clean'
  let tail := (next ++ [last']).map (Token.reline f)
  have noElse : (tail.headD default).kind ≠ .keyword .else := by
    have same : (tail.headD default).kind = ((next ++ [last']).headD default).kind := by
      cases next <;> rfl
    rwa [same]
  -- the first program, in front of the second one
  have beside : Beside id tail (.start (first ++ [last]) firstId) (.start (first ++ tail) firstId) :=
    ⟨⟨first, last, rfl, congrArg (· ++ tail) (List.map_id first).symm, only, ended⟩, rfl, rfl⟩
  obtain ⟨m, _, spent, rfl, further⟩ := declarations_front noElse beside ran unnoted
    (left ▸ Nat.one_pos) (32 * next.length)
  -- the second program, from where the first one has ended
  have beside' : Beside f [last'.reline f]
      (.start (next ++ [last']) (program (first ++ [last]) firstId).nextId)
      ⟨tail, s₁.nextId, s₁.problems⟩ :=
    ⟨⟨next, last', rfl, List.map_append, only', ended'⟩, free, unnoted⟩
  have deep : depthFor (first ++ tail) = 32 * next.length + depthFor (first ++ [last]) ∧
      depthFor (next ++ [last']) ≤ 32 * next.length + m + 1 := by
    simp only [State.start, depthFor, List.length_append, List.length_map, List.length_singleton,
      tail] at spent ⊢
    omega
  have second := declarations_to_end (show (last'.reline f).kind = .eof from ended') beside' ran' unnoted'
    (left' ▸ Nat.one_pos) deep.2
  have same : (program (first ++ [last]) firstId).result.map (Stmt.reline id) =
      (program (first ++ [last]) firstId).result := by
    rw [← relineStatements_eq_map, relineStatements_id]
  have joint := further []
  rw [← deep.1, second, same, List.append_nil, List.reverse_reverse] at joint
  change program (first ++ tail) firstId = _
  rw [program, joint, free', unnoted']

end Grammar

end Lox
