import Lox.Proofs.Grammar.Moving
import Lox.Proofs.Scanner.Rescanning
import Lox.Proofs.Session.Batch

/-!
# Spacing changes lines alone

A source without lexical problems, written down again as its tokens with whitespace and comments between them,
has the same tokens on other lines. Every stage after the scanner commutes with leaving the lines out: reading
does, the walk over names does, and so does evaluation. So the two texts are read and judged alike but for
lines, and requests to sessions come to the same but for lines, also after earlier requests whose texts differ
in their spacing.
-/

namespace Lox

/-! ### Without lines -/

def Diagnostic.unlined (d : Diagnostic) : Diagnostic := d.reline fun _ => 0

/-- The reading without lines, where `bare` leaves them out of what was read. -/
def Reading.unlined {α : Type} (bare : α → α) (reading : Reading α) : Reading α :=
  { reading with
    result := bare reading.result
    diagnostics := reading.diagnostics.map Diagnostic.unlined }

def Accepted.unlined (program : Accepted) : Accepted :=
  { program with statements := relineStatements (fun _ => 0) program.statements }

/-- The verdict without lines, where `bare` leaves them out of what was accepted. -/
def verdictUnlined {α : Type} (bare : α → α) (verdict : Except (List Diagnostic) α) :
    Except (List Diagnostic) α :=
  (verdict.mapError (List.map Diagnostic.unlined)).map bare

/-- The failure without lines, also in what it rejects a source with. -/
def Failure.bare : Failure → Failure
  | .rejected diagnostics => .rejected (diagnostics.map Diagnostic.unlined)
  | .halted halt => .halted halt.unlined

def Session.unlined (s : Session) : Session := ⟨s.machine.unlined, s.nextId⟩

/-- What a request comes to but for lines. -/
def Session.upToLines {α : Type} (outcome : Except Failure α × Session) : Except Failure α × Session :=
  (outcome.1.mapError Failure.bare, outcome.2.unlined)

/-- Two texts have the same tokens and the same lexical problems, on whatever lines. -/
structure Source.Alike (source text : String) : Prop where
  tokens : (tokens text).map (Token.reline fun _ => 0) = (tokens source).map (Token.reline fun _ => 0)
  problems : (problems text).map Diagnostic.unlined = (problems source).map Diagnostic.unlined

/-! ### Reading -/

theorem Move.lineless_missing : (fun _ : Nat => 0) 0 = 0 := rfl

/-- The place with the same identities and without lines. -/
def Move.lineless : Move := ⟨0, fun _ => 0, lineless_missing⟩

namespace Grammar

theorem moveStmt_lineless : moveStmt .lineless = Stmt.reline fun _ => 0 :=
  funext fun s => congrArg (Stmt.reline fun _ => 0) s.renumber_id

theorem moveExpr_lineless : moveExpr .lineless = Expr.reline fun _ => 0 :=
  funext fun e => congrArg (Expr.reline fun _ => 0) e.renumber_id

theorem program_unlined (tokens : List Token) (firstId : NodeId) :
    (program tokens firstId).unlined (relineStatements fun _ => 0) =
      program (tokens.map (Token.reline fun _ => 0)) firstId := by
  have moved := program_move .lineless tokens firstId
  rw [moveStmt_lineless, ← relineStatements_eq_map] at moved
  exact moved.symm

theorem soleExpression_unlined (tokens : List Token) (firstId : NodeId) :
    (soleExpression tokens firstId).unlined (Option.map (Expr.reline fun _ => 0)) =
      soleExpression (tokens.map (Token.reline fun _ => 0)) firstId := by
  have moved := soleExpression_move .lineless tokens firstId
  rw [moveExpr_lineless] at moved
  exact moved.symm

end Grammar

/-- With lexical problems in front, a reading is still the same but for lines. -/
theorem Reading.unlined_append {α : Type} {bare : α → α} {one other : Reading α}
    (same : one.unlined bare = other.unlined bare) {problems problems' : List Diagnostic}
    (lexical : problems.map Diagnostic.unlined = problems'.map Diagnostic.unlined) :
    Reading.unlined bare { one with diagnostics := problems ++ one.diagnostics } =
      Reading.unlined bare { other with diagnostics := problems' ++ other.diagnostics } := by
  rw [unlined, unlined, mk.injEq] at same
  obtain ⟨result, diagnostics, nextId⟩ := same
  simp only [unlined, List.map_append, lexical, result, diagnostics, nextId]

namespace Source

variable {source text : String} (alike : Alike source text) (firstId : NodeId)

include alike

theorem program_alike : (program text firstId).unlined (relineStatements fun _ => 0) =
    (program source firstId).unlined (relineStatements fun _ => 0) := by
  refine Reading.unlined_append ?_ alike.problems
  rw [Grammar.program_unlined, Grammar.program_unlined, alike.tokens]

theorem soleExpression_alike :
    (soleExpression text firstId).unlined (Option.map (Expr.reline fun _ => 0)) =
      (soleExpression source firstId).unlined (Option.map (Expr.reline fun _ => 0)) := by
  refine Reading.unlined_append ?_ alike.problems
  rw [Grammar.soleExpression_unlined, Grammar.soleExpression_unlined, alike.tokens]

end Source

/-! ### Verdicts -/

/-- The walk over a program without lines makes the same look-ups and finds the same problems. -/
theorem Resolution.bindings?_unlined (statements : List Stmt) :
    (ofProgram (relineStatements (fun _ => 0) statements)).bindings? =
      (ofProgram statements).bindings?.mapError (List.map Diagnostic.unlined) := by
  -- the walk begins with no problems, so it begins alike
  have walked : ofProgram (relineStatements (fun _ => 0) statements) =
      (ofProgram statements).resume (fun _ => 0) #[] := by
    have begun : start.resume (fun _ => 0) #[] = start := by simp [resume, start]
    have moved := resolveStatements_resume (fun _ => 0) #[] start statements
    rwa [begun] at moved
  rw [walked]
  unfold bindings? resume
  rw [Array.toList_map, Array.empty_append]
  cases (ofProgram statements).problems.toList <;> rfl

/-- The verdict on a program that has been read. -/
def Reading.verdict (reading : Reading (List Stmt)) : Except (List Diagnostic) Accepted :=
  match reading.diagnostics with
  | [] => do
    let bindings ← (Resolution.ofProgram reading.result).bindings?
    return ⟨reading.result, bindings⟩
  | diagnostics => .error diagnostics

theorem Source.accept_eq (source : String) (firstId : NodeId) :
    accept source firstId = ((program source firstId).verdict, (program source firstId).nextId) := rfl

theorem Reading.verdict_unlined (reading : Reading (List Stmt)) :
    (reading.unlined (relineStatements fun _ => 0)).verdict =
      verdictUnlined Accepted.unlined reading.verdict := by
  obtain ⟨statements, diagnostics, nextId⟩ := reading
  cases diagnostics with
  | cons d rest => rfl
  | nil =>
    simp only [verdict, unlined, List.map_nil, Resolution.bindings?_unlined]
    cases (Resolution.ofProgram statements).bindings? <;> rfl

theorem Reading.toExcept_unlined (reading : Reading (Option Expr)) :
    (reading.unlined (Option.map (Expr.reline fun _ => 0))).toExcept =
      verdictUnlined (Expr.reline fun _ => 0) reading.toExcept := by
  obtain ⟨result, diagnostics, nextId⟩ := reading
  cases result <;> cases diagnostics <;> rfl

theorem Source.accept_alike {source text : String} (alike : Alike source text) (firstId : NodeId) :
    verdictUnlined Accepted.unlined (accept text firstId).1 =
        verdictUnlined Accepted.unlined (accept source firstId).1 ∧
      (accept text firstId).2 = (accept source firstId).2 := by
  have same := program_alike alike firstId
  have free := congrArg Reading.nextId same
  rw [accept_eq, accept_eq, ← Reading.verdict_unlined, ← Reading.verdict_unlined, same]
  exact ⟨rfl, free⟩

/-! ### Requests -/

namespace Session

variable {s s' : Session}

theorem nextId_of_unlined (same : s'.unlined = s.unlined) : s'.nextId = s.nextId := by
  have free := congrArg nextId same
  exact free

theorem recordAll_unlined (m : Machine) (bindings : List Binding) :
    (m.recordAll bindings).unlined = m.unlined.recordAll bindings := by
  have kept : m.unlined.distances = m.distances := rfl
  have distances := recordAll_distances kept bindings
  rw [Lexical.recordAll_eq m, Lexical.recordAll_eq m.unlined, distances]
  rfl

/-- What an evaluation comes to but for lines is decided by the code and the machine without lines. -/
theorem perform_upToLines {α : Type} {b : NodeId} {m : Machine} {run bare : Run α}
    (follows : Run.Follows ⟨fun _ => 0, m.distances, rfl⟩ b Eq run bare) (restores : Run.Restores run)
    (below : m.store.Below b) (nextId : NodeId) :
    upToLines (perform m nextId run) = perform m.unlined nextId bare := by
  -- an evaluation rejects nothing
  have halts : (perform m nextId run).1.mapError Failure.bare =
      (perform m nextId run).1.mapError Failure.unlined := by
    unfold perform
    split <;> rfl
  rw [perform_unlined follows restores below, upToLines, halts]
  rfl

/-- What a session does with the verdict on a program. -/
def proceed (fuel : Nat) (s : Session) (verdict : Except (List Diagnostic) Accepted) (nextId : NodeId) :
    Except Failure Value × Session :=
  match verdict with
  | .error diagnostics => (.error (.rejected diagnostics), { s with nextId })
  | .ok program => execute fuel { s with nextId } (.ok program.bindings) program.statements

theorem run_upToLines (below : s.machine.store.Below s.nextId) (fuel : Nat) (source : String) :
    upToLines (s.run fuel source) =
      s.unlined.proceed fuel (verdictUnlined Accepted.unlined (Source.accept source s.nextId).1)
        (Source.accept source s.nextId).2 := by
  cases accepted : (Source.accept source s.nextId).1 with
  | error diagnostics =>
    unfold run
    dsimp only
    rw [accepted]
    rfl
  | ok program =>
    have ids := Source.accept_ids accepted
    have stored : (s.machine.recordAll program.bindings).store.Below (Source.accept source s.nextId).2 := by
      rw [recordAll_store]
      exact below.mono ids.range
    have follows := runProgram_moves ⟨fun _ => 0, (s.machine.recordAll program.bindings).distances, rfl⟩ _
      fuel program.statements fun i member => (ids.bounds i member).2
    -- the distances are recorded alike, since lines have no part in them
    rw [run_of_accepted accepted, perform_upToLines follows (runProgram_restores _ _) stored,
      recordAll_unlined]
    rfl

/-- What a session does with the verdict on an expression. -/
def answer (fuel : Nat) (s : Session) (verdict : Except (List Diagnostic) Expr) (nextId : NodeId) :
    Except Failure Value × Session :=
  match verdict with
  | .error diagnostics => (.error (.rejected diagnostics), { s with nextId })
  | .ok e => perform s.machine nextId (Lox.evaluate fuel e)

theorem evaluate_upToLines (below : s.machine.store.Below s.nextId) (fuel : Nat) (source : String) :
    upToLines (s.evaluate fuel source) =
      s.unlined.answer fuel
        (verdictUnlined (Expr.reline fun _ => 0) (Source.soleExpression source s.nextId).toExcept)
        (Source.soleExpression source s.nextId).nextId := by
  obtain ⟨range, read⟩ := Source.soleExpression_isRead source s.nextId
  cases found : (Source.soleExpression source s.nextId).toExcept with
  | error diagnostics =>
    unfold evaluate
    dsimp only
    rw [found]
    rfl
  | ok e =>
    have result := (Reading.toExcept_eq_ok.mp found).1
    have follows := (moves ⟨fun _ => 0, s.machine.distances, rfl⟩ _ fuel).evaluate e fun i member =>
      ((read e result).numbered.bounds i member).2
    have ran := perform_upToLines follows (Task.restores fuel (.evaluate e)) (below.mono range)
      (Source.soleExpression source s.nextId).nextId
    unfold evaluate
    dsimp only
    rw [found]
    exact ran

/-- The check of a source, but for lines. -/
theorem check_upToLines (s : Session) (source : String) :
    upToLines (s.check source) =
      match verdictUnlined Accepted.unlined (Source.accept source s.nextId).1 with
      | .error diagnostics =>
        (.error (.rejected diagnostics), { s.unlined with nextId := (Source.accept source s.nextId).2 })
      | .ok _ => (.ok (), { s.unlined with nextId := (Source.accept source s.nextId).2 }) := by
  unfold check
  dsimp only
  cases (Source.accept source s.nextId).1 <;> rfl

section

variable {source text : String} (alike : Source.Alike source text) (same : s'.unlined = s.unlined)

include alike same

/-- Checking either text comes to the same but for lines. -/
theorem check_alike : upToLines (s'.check text) = upToLines (s.check source) := by
  obtain ⟨verdict, nextId⟩ := Source.accept_alike alike s.nextId
  rw [check_upToLines, check_upToLines, nextId_of_unlined same, verdict, nextId, same]

variable (below : s.machine.store.Below s.nextId) (below' : s'.machine.store.Below s'.nextId)

include below below'

/-- So does running either text. -/
theorem run_alike (fuel : Nat) : upToLines (s'.run fuel text) = upToLines (s.run fuel source) := by
  obtain ⟨verdict, nextId⟩ := Source.accept_alike alike s.nextId
  rw [run_upToLines below', run_upToLines below, nextId_of_unlined same, verdict, nextId, same]

/-- So does evaluating either text as one expression. -/
theorem evaluate_alike (fuel : Nat) :
    upToLines (s'.evaluate fuel text) = upToLines (s.evaluate fuel source) := by
  have read := Source.soleExpression_alike alike s.nextId
  have nextId := congrArg Reading.nextId read
  rw [evaluate_upToLines below', evaluate_upToLines below, nextId_of_unlined same, ← Reading.toExcept_unlined,
    ← Reading.toExcept_unlined, read, same]
  exact congrArg _ nextId

end

end Session

/-! ### Texts with other spacing -/

/-- The second text is the first, or has its tokens with other separators between them. -/
inductive Source.Respaced : String → String → Prop
  | same (source : String) : Respaced source source
  | apart {source : String} {tokens : List Token} {separators : List (List Char)}
    (scanned : Scanner.items? source = some (tokens.map Item.token))
    (count : separators.length = tokens.length) (apart : ∀ s ∈ separators, Scanner.IsSeparator s) :
    Respaced source (String.ofList (Scanner.spread separators tokens))

/-- The requests are for the same, with texts that differ in their spacing alone. -/
inductive Request.Respaced : Request → Request → Prop
  | run (fuel : Nat) {source text : String} (spaced : Source.Respaced source text) :
    Respaced (.run fuel source) (.run fuel text)
  | evaluate (fuel : Nat) {source text : String} (spaced : Source.Respaced source text) :
    Respaced (.evaluate fuel source) (.evaluate fuel text)
  | check {source text : String} (spaced : Source.Respaced source text) :
    Respaced (.check source) (.check text)

theorem Token.reline_of_unplaced {tokens tokens' : List Token}
    (same : tokens'.map Token.unplaced = tokens.map Token.unplaced) :
    tokens'.map (Token.reline fun _ => 0) = tokens.map (Token.reline fun _ => 0) := by
  -- without its line a token is what it shows
  have erased (tokens : List Token) : tokens.map (Token.reline fun _ => 0) =
      (tokens.map Token.unplaced).map fun p => ⟨p.1, p.2, 0⟩ := by
    rw [List.map_map]
    rfl
  rw [erased, erased, same]

theorem Source.Respaced.alike {source text : String} (spaced : Respaced source text) :
    Alike source text := by
  cases spaced with
  | same => exact ⟨rfl, rfl⟩
  | apart scanned count apart =>
    obtain ⟨tokens', rescanned, same⟩ := Scanner.rescanning_is_identity scanned count apart
    rw [Scanner.items?_eq, Option.some.injEq, items_eq_tokens] at scanned rescanned
    obtain ⟨given, clean⟩ := scanned
    obtain ⟨given', clean'⟩ := rescanned
    constructor
    · rw [given, given']
      exact Token.reline_of_unplaced same
    · rw [clean, clean']

namespace Session

/-- After requests that differ in spacing alone, sessions are alike but for lines. The induction is on the
requests: each is met alike by sessions that are alike. -/
theorem afterAll_respaced {s s' : Session} (same : s'.unlined = s.unlined)
    (below : s.machine.store.Below s.nextId) (below' : s'.machine.store.Below s'.nextId)
    {requests requests' : List Request} (spaced : List.Forall₂ Request.Respaced requests requests') :
    (s'.afterAll requests').unlined = (s.afterAll requests).unlined := by
  induction spaced generalizing s s' with
  | nil => exact same
  | @cons r r' _ _ first _ ih =>
    refine ih ?_ (afterAll_below below [r]) (afterAll_below below' [r'])
    cases first with
    | run fuel spaced => exact congrArg Prod.snd (run_alike spaced.alike same below below' fuel)
    | evaluate fuel spaced => exact congrArg Prod.snd (evaluate_alike spaced.alike same below below' fuel)
    | check spaced => exact congrArg Prod.snd (check_alike spaced.alike same)

end Session

/-- Spacing and comments change lines alone. The tokens of a source that scans without a problem, written down
again with separators between them and around them, scan without a problem as the same tokens on other lines.
The new text is read as the same tree with the same diagnostics, as a program and as one expression, and
whatever a session is asked to do with it comes to the same but for lines, also after earlier requests whose
texts differ in their spacing: the same value, message or diagnostics, the same output, and the same frames
and objects. -/
theorem spacing_changes_lines_alone {source : String} {tokens : List Token}
    (scanned : Scanner.items? source = some (tokens.map Source.Item.token)) {separators : List (List Char)}
    (count : separators.length = tokens.length) (apart : ∀ s ∈ separators, Scanner.IsSeparator s) :
    let text := String.ofList (Scanner.spread separators tokens)
    (∃ tokens' : List Token, Scanner.items? text = some (tokens'.map Source.Item.token) ∧
      tokens'.map Token.unplaced = tokens.map Token.unplaced) ∧
    (∀ firstId : NodeId,
      (Source.program text firstId).unlined (relineStatements fun _ => 0) =
          (Source.program source firstId).unlined (relineStatements fun _ => 0) ∧
        (Source.soleExpression text firstId).unlined (Option.map (Expr.reline fun _ => 0)) =
          (Source.soleExpression source firstId).unlined (Option.map (Expr.reline fun _ => 0))) ∧
    ∀ (sink : Sink) (clock : Nat → Float) (requests requests' : List Request),
      List.Forall₂ Request.Respaced requests requests' →
        let s := (Session.start sink clock).afterAll requests
        let s' := (Session.start sink clock).afterAll requests'
        Session.upToLines (s'.check text) = Session.upToLines (s.check source) ∧
          ∀ fuel : Nat,
            Session.upToLines (s'.run fuel text) = Session.upToLines (s.run fuel source) ∧
              Session.upToLines (s'.evaluate fuel text) = Session.upToLines (s.evaluate fuel source) := by
  intro text
  have alike : Source.Alike source text := (Source.Respaced.apart scanned count apart).alike
  refine ⟨Scanner.rescanning_is_identity scanned count apart, fun firstId => ?_,
    fun sink clock requests requests' spaced => ?_⟩
  · exact ⟨Source.program_alike alike firstId, Source.soleExpression_alike alike firstId⟩
  · let start := Session.start sink clock
    have begun : start.machine.store.Below start.nextId := Session.start_below sink clock
    have same := Session.afterAll_respaced rfl begun begun spaced
    have below := Session.afterAll_below begun requests
    have below' := Session.afterAll_below begun requests'
    exact ⟨Session.check_alike alike same, fun fuel => ⟨Session.run_alike alike same below below' fuel,
      Session.evaluate_alike alike same below below' fuel⟩⟩

/-- `print!a;`, on one line. -/
def negatedName : List Token :=
  [⟨.keyword .print, "print", 1⟩, ⟨.symbol .bang, "!", 1⟩, ⟨.identifier, "a", 1⟩, ⟨.symbol .semicolon, ";", 1⟩,
    ⟨.eof, "", 1⟩]

/-- With its tokens on lines of their own, each behind a comment, the program fails as it did, on another
line. -/
theorem spread_name_is_undefined_too :
    let text := String.ofList (Scanner.spread (List.replicate 5 [' ', '/', '/', '=', '\n']) negatedName)
    let s := Session.start .unlimited fun _ => 0
    Scanner.items? "print!a;" = some (negatedName.map Source.Item.token) ∧
      (∃ tokens' : List Token, Scanner.items? text = some (tokens'.map Source.Item.token) ∧
        tokens'.map Token.unplaced = negatedName.map Token.unplaced) ∧
      Session.upToLines (s.run 4 text) = Session.upToLines (s.run 4 "print!a;") := by
  have scanned : Scanner.items? "print!a;" = some (negatedName.map Source.Item.token) := by
    rw [Scanner.items?_eq]
    cbv
  have inline : '\n' ∉ ['='] := by decide
  have separator : Scanner.IsSeparator [' ', '/', '/', '=', '\n'] :=
    ⟨' ', _, rfl, by decide, .space (by decide) (.comment inline .nil)⟩
  have apart (s : List Char) (among : s ∈ List.replicate 5 [' ', '/', '/', '=', '\n']) :
      Scanner.IsSeparator s := List.eq_of_mem_replicate among ▸ separator
  obtain ⟨rescanned, -, asked⟩ := spacing_changes_lines_alone scanned rfl apart
  exact ⟨scanned, rescanned, ((asked .unlimited (fun _ => 0) [] [] .nil).2 4).1⟩

end Lox
