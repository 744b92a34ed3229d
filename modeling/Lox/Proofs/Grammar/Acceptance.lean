import Lox.Proofs.Grammar.AcceptPrograms
import Lox.Proofs.Grammar.ReadPrograms

/-!
# The grammar decides what is accepted

Tokens are read as a program without a problem exactly when their kinds are a sentence of the grammar.
That the rules read no more than sentences and that they read all sentences are shown apart; here the two
meet at the end token, which stands in no sentence but that of the whole program.
-/

namespace Lox

namespace Grammar

/-- No word of the phrase has an end token in it. -/
def Phrase.Endless : Phrase → Prop
  | .oneOf kinds => .eof ∉ kinds
  | .number | .string => True
  | .the c => c ≠ .program
  | .seq p q | .or p q => p.Endless ∧ q.Endless
  | .optional p | .many p | .list p => p.Endless

theorem production_endless (c : Category) (inner : c ≠ .program) : (production c).Endless := by
  cases c with
  | program => exact absurd rfl inner
  | joined level =>
    cases level <;> simp [production, Phrase.Endless, Category.operand, Level.tighter?,
      Level.operators]
  | _ => simp [production, Phrase.Endless, Phrase.keyword, Phrase.symbol, Phrase.name]

theorem mem_commaSeparated {k : Token.Kind} {words : List (List Token.Kind)}
    (among : k ∈ commaSeparated words) : k = .symbol .comma ∨ ∃ w ∈ words, k ∈ w := by
  induction words with
  | nil => simp [commaSeparated] at among
  | cons w words ih =>
    by_cases last : words = []
    · subst last
      exact .inr ⟨w, List.mem_cons_self, by simpa [commaSeparated] using among⟩
    · rw [commaSeparated_cons w last] at among
      rcases List.mem_append.mp among with within | later
      · exact .inr ⟨w, List.mem_cons_self, within⟩
      · rcases List.mem_cons.mp later with comma | later
        · exact .inl comma
        · rcases ih later with comma | ⟨u, member, within⟩
          · exact .inl comma
          · exact .inr ⟨u, List.mem_cons_of_mem w member, within⟩

/-- The end token stands only at the end of a program. -/
theorem Derives.endless {p : Phrase} {w : List Token.Kind} (derives : Derives p w)
    (endless : p.Endless) : .eof ∉ w := by
  induction derives with
  | oneOf member =>
    rintro among
    exact endless (List.mem_singleton.mp among ▸ member)
  | number | string | absent => simp
  | the _ ih => exact ih (production_endless _ endless)
  | seq _ _ ihp ihq =>
    intro among
    rcases List.mem_append.mp among with first | next
    · exact ihp endless.1 first
    · exact ihq endless.2 next
  | one _ ih => exact ih endless.1
  | other _ ih => exact ih endless.2
  | present _ ih => exact ih endless
  | many _ ih =>
    intro among
    obtain ⟨w, member, within⟩ := List.mem_flatten.mp among
    exact ih w member endless within
  | list _ _ _ ih =>
    intro among
    rcases mem_commaSeparated among with comma | ⟨w, member, within⟩
    · cases comma
    · exact ih w member endless within

section

variable {tokens : List Token} {last : Token} {firstId : NodeId}

/-- Reading that stops at an end token has stopped at the last token if that is the only one. -/
theorem split_of_stopped {v rest : List Token} (only : ∀ t ∈ tokens, t.kind ≠ .eof)
    (ended : last.kind = .eof) (left : tokens ++ [last] = v ++ rest) (inner : ∀ t ∈ v, t.kind ≠ .eof)
    (stopped : (rest.headD default).kind = .eof) : v = tokens ∧ rest = [last] := by
  cases rest with
  | nil =>
    rw [List.append_nil] at left
    exact absurd ended (inner last (left ▸ by simp))
  | cons t r =>
    rw [List.headD_cons] at stopped
    rcases List.eq_nil_or_concat r with rfl | ⟨r, z, rfl⟩
    · obtain ⟨same, ending⟩ := List.append_inj' left rfl
      exact ⟨same.symm, ending.symm⟩
    · rw [List.concat_eq_append, ← List.cons_append, ← List.append_assoc] at left
      have same := (List.append_inj' left rfl).1
      exact absurd stopped (only t (same ▸ by simp))

/-- What is read without a problem, up to the end, is a sentence. -/
theorem sentence_of_clean (only : ∀ t ∈ tokens, t.kind ≠ .eof) (ended : last.kind = .eof)
    (clean : (program (tokens ++ [last]) firstId).diagnostics = []) :
    Sentence .program (tokens.map (·.kind) ++ [.eof]) := by
  unfold program at clean
  cases ran : declarations (depthFor (tokens ++ [last])) .eof []
    (State.start (tokens ++ [last]) firstId) with
  | error d s =>
    rw [ran] at clean
    simp at clean
  | ok statements s =>
    rw [ran] at clean
    have clean : s.problems = #[] := Array.toList_eq_nil_iff.mp clean
    obtain ⟨v, left, words, flat, each, -⟩ := declarations_reads _ _ _ _ _ ran clean
    have left : tokens ++ [last] = v ++ s.rest := left
    have inner : ∀ t ∈ v, t.kind ≠ .eof := by
      intro t among isEnd
      have among : t.kind ∈ words.flatten := flat ▸ List.mem_map_of_mem among
      obtain ⟨w, member, within⟩ := List.mem_flatten.mp among
      exact (each w member).endless nofun (isEnd ▸ within)
    have stopped : s.head.kind = .eof := by simpa using declarations_stop ran
    obtain ⟨whole, -⟩ := split_of_stopped only ended left inner stopped
    rw [← whole, flat]
    exact .the (.seq (.many each) (.token .eof))

/-- A sentence is read to its end, without a problem and to one statement for each declaration. -/
theorem declarations_of_sentence {words : List (List Token.Kind)} (ended : last.kind = .eof)
    (flat : tokens.map (·.kind) = words.flatten) (each : ∀ w ∈ words, Sentence .declaration w) :
    ∃ statements s, declarations (depthFor (tokens ++ [last])) .eof []
        (State.start (tokens ++ [last]) firstId) = .ok statements s ∧
      s.rest = [last] ∧ s.problems = #[] ∧ statements.length = words.length := by
  have each : ∀ w ∈ words, DeclarationIsRead w := fun w among => (each w among).isRead
  have deep : 32 * words.flatten.length + 19 ≤ depthFor (tokens ++ [last]) := by
    rw [← flat, depthFor, List.length_map, List.length_append, List.length_singleton]
    omega
  have kinds : (State.start (tokens ++ [last]) firstId).kinds = words.flatten ++ [.eof] := by
    rw [State.kinds, State.start, List.map_append, flat, List.map_singleton, ended]
  obtain ⟨statements, s, ran, left, clean, length⟩ :=
    declarations_accepted each .eof rfl (by rintro ⟨⟩) _ [] _ deep [.eof] kinds rfl
  refine ⟨statements, s, ran, ?_, clean, by simpa using length⟩
  have suffix : s.rest <:+ tokens ++ [last] := (Rule.Advances.ok ran).rest
  have single : s.rest.length = 1 := by
    rw [← List.length_map (f := (·.kind))]
    exact congrArg List.length left
  obtain ⟨front, whole⟩ := suffix
  exact (List.append_inj' whole (by rw [single, List.length_singleton])).2

/-- The tokens before the one end token are read without a problem exactly when they are a sentence of
the grammar. Reading then stops at the end token and gives one statement for each declaration that the
sentence consists of. -/
theorem program_accepts_its_grammar (ended : last.kind = .eof)
    (only : ∀ t ∈ tokens, t.kind ≠ .eof) :
    ((program (tokens ++ [last]) firstId).diagnostics = [] ↔
      Sentence .program (tokens.map (·.kind) ++ [.eof])) ∧
    ∀ words : List (List Token.Kind), tokens.map (·.kind) = words.flatten →
      (∀ w ∈ words, Sentence .declaration w) →
      ∃ s, declarations (depthFor (tokens ++ [last])) .eof []
          (State.start (tokens ++ [last]) firstId) =
            .ok (program (tokens ++ [last]) firstId).result s ∧
        s.rest = [last] ∧ (program (tokens ++ [last]) firstId).result.length = words.length := by
  refine ⟨⟨sentence_of_clean only ended, fun sentence => ?_⟩, fun words flat each => ?_⟩
  · obtain ⟨_, _, split, ⟨words, rfl, each⟩, _, last', rfl⟩ := sentence_iff.mp sentence
    cases List.mem_singleton.mp last'
    obtain ⟨statements, s, ran, -, clean, -⟩ :=
      declarations_of_sentence ended (List.append_inj' split rfl).1 each
    rw [program, ran]
    exact congrArg Array.toList clean
  · obtain ⟨statements, s, ran, left, -, length⟩ := declarations_of_sentence ended flat each
    have result : (program (tokens ++ [last]) firstId).result = statements := by rw [program, ran]
    exact ⟨s, result ▸ ran, left, result ▸ length⟩

end

/-- Tokens of the given kinds, all on one line. -/
def tokensOf (kinds : List Token.Kind) : List Token := kinds.map fun k => ⟨k, "", 1⟩

/-- `if (a) if (b) c; else d;` -/
def danglingElse : List Token.Kind :=
  [.keyword .if, .symbol .leftParen, .identifier, .symbol .rightParen, .keyword .if,
    .symbol .leftParen, .identifier, .symbol .rightParen, .identifier, .symbol .semicolon,
    .keyword .else, .identifier, .symbol .semicolon]

theorem dangling_else_is_accepted :
    (∀ t ∈ tokensOf danglingElse, t.kind ≠ .eof) ∧
      Sentence .program (danglingElse ++ [.eof]) := by
  have only : ∀ t ∈ tokensOf danglingElse, t.kind ≠ .eof := by simp [tokensOf, danglingElse]
  have clean : (program (tokensOf danglingElse ++ [⟨.eof, "", 1⟩]) 0).diagnostics = [] :=
    List.isEmpty_iff.mp (by decide +kernel)
  exact ⟨only, (program_accepts_its_grammar rfl only).1.mp clean⟩

end Grammar

end Lox
