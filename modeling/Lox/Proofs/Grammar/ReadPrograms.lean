import Lox.Proofs.Grammar.Reads

/-!
# What is read is a sentence: programs

The rules for declarations and statements, most of which start after their keyword has been taken, read
the rest of a sentence. A declaration that has failed is noted, so none is missing from a program that
is read without a problem.
-/

namespace Lox

namespace Grammar

open Rule

theorem optionalValue_reads (n : Nat) (stop : Token.Kind) (s : State) :
    Reads s (optionalValue n stop) fun _ w => Derives (.optional (.the .expression)) w := by
  unfold optionalValue
  refine .sees (.ite (fun _ => .pure .absent) fun _ => ?_)
  exact .map ((expression_reads n s).imp fun _ _ read => .present read)

theorem variableDeclaration_reads (n : Nat) (s : State) :
    Reads s (variableDeclaration n)
      fun _ w => Sentence .variableDeclaration (.keyword .var :: w) := by
  unfold variableDeclaration
  refine .name fun declared s₁ => ?_
  -- what follows the name, once there is an initializer or none
  have close {v : List Token.Kind} (initializer : Option Expr) (s₂ : State)
      (read : Derives (.optional (.seq (.symbol .equal) (.the .expression))) v) :
      Reads s₂ (do
        let _ ← expect (.symbol .semicolon) .openVariableDeclaration
        return Stmt.var declared initializer)
        fun _ w => Sentence .variableDeclaration (.keyword .var :: .identifier :: (v ++ w)) := by
    refine .expect fun _ _ => .pure ?_
    exact .the (.cons (.cons (.seq read (.token _))))
  refine .accept (fun s₂ => ?_) (close none s₁ .absent)
  exact .bind (P := fun _ w => Sentence .expression w) (.map (expression_reads n s₂))
    fun initializer v s₃ read => close initializer s₃ (.present (.cons read))

theorem expressionStatement_reads (n : Nat) (s : State) :
    Reads s (expressionStatement n) fun _ w => Sentence .expressionStatement w := by
  unfold expressionStatement
  refine .bind (expression_reads n s) fun value v s₁ read => .expect fun _ _ => .pure ?_
  exact .the (.seq read (.token _))

theorem printStatement_reads (n : Nat) (s : State) :
    Reads s (printStatement n) fun _ w => Sentence .printStatement (.keyword .print :: w) := by
  unfold printStatement
  refine .bind (expression_reads n s) fun value v s₁ read => .expect fun _ _ => .pure ?_
  exact .the (.cons (.seq read (.token _)))

theorem returnStatement_reads (n line : Nat) (s : State) :
    Reads s (returnStatement n line)
      fun _ w => Sentence .returnStatement (.keyword .return :: w) := by
  unfold returnStatement
  refine .bind (optionalValue_reads n _ s) fun value v s₁ read => .expect fun _ _ => .pure ?_
  exact .the (.cons (.seq read (.token _)))

theorem parameters_reads (n : Nat) (done : List Name) (s : State) :
    Reads s (parameters n done) fun _ w => ListTail .name done.length w := by
  induction n generalizing done s with
  | zero => exact .fail
  | succ n ih =>
    unfold parameters
    refine .ite (fun _ => .peek .note) fun few => .name fun parameter s₁ => ?_
    refine .accept (fun s₂ => ?_) ?_
    · exact (ih (parameter :: done) s₂).imp fun _ _ rest => .cons (.token _) rest
    · exact .pure (.last (Nat.lt_of_not_le few) (.token _))

theorem forInitializer_reads (n : Nat) (s : State) :
    Reads s (forInitializer n) fun _ w =>
      Derives (.or (.the .variableDeclaration) <| .or (.the .expressionStatement)
        (.symbol .semicolon)) w := by
  unfold forInitializer
  refine .accept (fun _ => .pure (.other (.other (.token _)))) (.accept (fun s₁ => ?_) ?_)
  · exact .map ((variableDeclaration_reads n s₁).imp fun _ _ read => .one read)
  · exact .map ((expressionStatement_reads n s).imp fun _ _ read => .other (.one read))

theorem superclass_reads (s : State) :
    Reads s superclass fun _ w => Derives (.optional (.seq (.symbol .less) .name)) w := by
  unfold superclass
  refine .accept (fun _ => .name fun _ _ => .freshId fun _ _ => .pure ?_) (.pure .absent)
  exact .present (.cons (.token _))

/-- Within the bound `n`, the rules for programs read sentences. -/
private structure ProgramsRead (n : Nat) : Prop where
  declaration (s : State) :
    Reads s (declaration n) fun a w => ∃ b, a = some b ∧ Sentence .declaration w
  classDeclaration (s : State) :
    Reads s (classDeclaration n) fun _ w => Sentence .classDeclaration (.keyword .class_ :: w)
  methods (done : List FunctionDecl) (s : State) :
    Reads s (methods n done) fun _ w => Derives (.many (.the .function)) w
  function (kind : FunctionKind) (s : State) :
    Reads s (function n kind) fun _ w => Sentence .function w
  statement (s : State) : Reads s (statement n) fun _ w => Sentence .statement w
  forStatement (s : State) :
    Reads s (forStatement n) fun _ w => Sentence .forStatement (.keyword .for :: w)
  ifStatement (s : State) :
    Reads s (ifStatement n) fun _ w => Sentence .ifStatement (.keyword .if :: w)
  whileStatement (s : State) :
    Reads s (whileStatement n) fun _ w => Sentence .whileStatement (.keyword .while :: w)
  block (s : State) :
    Reads s (block n) fun _ w => Sentence .block (.symbol .leftBrace :: w)
  declarations (stop : Token.Kind) (done : List Stmt) (s : State) :
    Reads s (declarations n stop done) fun statements w =>
      ∃ words : List (List Token.Kind), w = words.flatten ∧
        (∀ u ∈ words, Sentence .declaration u) ∧
        statements.length = done.length + words.length

section Steps

variable {n : Nat} (ih : ProgramsRead n)

include ih

private theorem reads_declaration (s : State) :
    Reads s (declaration (n + 1)) fun a w => ∃ b, a = some b ∧ Sentence .declaration w := by
  unfold declaration
  refine .recover (.accept (fun s₁ => ?_) (.accept (fun s₁ => ?_) (.accept (fun s₁ => ?_) ?_)))
  · exact (ih.classDeclaration s₁).imp fun _ _ read => .the (.one read)
  · refine .map ((ih.function .function s₁).imp fun _ _ read => ?_)
    exact .the (.other (.one (.the (.cons read))))
  · refine (variableDeclaration_reads n s₁).imp fun _ _ read => ?_
    exact .the (.other (.other (.one read)))
  · exact (ih.statement s).imp fun _ _ read => .the (.other (.other (.other read)))

private theorem reads_classDeclaration (s : State) :
    Reads s (classDeclaration (n + 1)) fun _ w =>
      Sentence .classDeclaration (.keyword .class_ :: w) := by
  unfold classDeclaration
  refine .name fun className s₁ => ?_
  refine .bind (superclass_reads s₁) fun parent v s₂ readParent => .expect fun _ s₃ => ?_
  refine .bind (ih.methods [] s₃) fun methods w s₄ readMethods => .expect fun _ _ => .pure ?_
  exact .the (.cons (.cons (.seq readParent (.cons (.seq readMethods (.token _))))))

private theorem reads_methods (done : List FunctionDecl) (s : State) :
    Reads s (methods (n + 1) done) fun _ w => Derives (.many (.the .function)) w := by
  unfold methods
  refine .sees (.atEnd (.ite (fun _ => .pure .many_nil) fun _ => ?_))
  exact .bind (ih.function .method s) fun method v s₁ read =>
    (ih.methods (method :: done) s₁).imp fun _ _ rest => .many_cons read rest

private theorem reads_function (kind : FunctionKind) (s : State) :
    Reads s (function (n + 1) kind) fun _ w => Sentence .function w := by
  unfold function
  refine .name fun functionName s₁ => ?_
  refine .expect fun _ s₂ => ?_
  -- what follows the opening parenthesis, once there are parameters or none
  have close {v : List Token.Kind} (parameters : List Name)
      (read : Derives (.optional (.list .name)) v) (s₃ : State) :
      Reads s₃ (do
        let _ ← expect (.symbol .rightParen) .openParameterList
        let _ ← expect (.symbol .leftBrace) (.noFunctionBody kind)
        let body ← block n
        return (⟨functionName, parameters, body⟩ : FunctionDecl))
        fun _ w => Sentence .function (.identifier :: .symbol .leftParen :: (v ++ w)) := by
    refine .expect fun _ s₄ => ?_
    refine .expect fun _ s₅ => ?_
    exact .map ((ih.block s₅).imp fun _ _ body => .the (.cons (.cons (.seq read (.cons body)))))
  refine .sees (.ite (fun _ => close [] .absent s₂) fun _ => ?_)
  exact .bind (parameters_reads n [] s₂) fun parameters v s₃ read =>
    close parameters (.present read.derives) s₃

private theorem reads_statement (s : State) :
    Reads s (statement (n + 1)) fun _ w => Sentence .statement w := by
  unfold statement
  refine .peek ?_
  split
  case h_1 seen =>
    refine .taken seen fun s₁ => (ih.forStatement s₁).imp fun _ _ read => ?_
    exact .the (.other (.one read))
  case h_2 seen =>
    refine .taken seen fun s₁ => (ih.ifStatement s₁).imp fun _ _ read => ?_
    exact .the (.other (.other (.one read)))
  case h_3 seen =>
    refine .taken seen fun s₁ => (ih.whileStatement s₁).imp fun _ _ read => ?_
    exact .the (.other (.other (.other (.other (.other (.one read))))))
  case h_4 seen =>
    refine .taken seen fun s₁ => (returnStatement_reads n _ s₁).imp fun _ _ read => ?_
    exact .the (.other (.other (.other (.other (.one read)))))
  case h_5 seen =>
    refine .taken seen fun s₁ => .map ((ih.block s₁).imp fun _ _ read => ?_)
    exact .the (.other (.other (.other (.other (.other (.other read))))))
  case h_6 seen =>
    refine .taken seen fun s₁ => (printStatement_reads n s₁).imp fun _ _ read => ?_
    exact .the (.other (.other (.other (.one read))))
  case h_7 =>
    exact (expressionStatement_reads n s).imp fun _ _ read => .the (.one read)

private theorem reads_forStatement (s : State) :
    Reads s (forStatement (n + 1)) fun _ w => Sentence .forStatement (.keyword .for :: w) := by
  unfold forStatement
  refine .expect fun _ s₁ => ?_
  refine .bind (forInitializer_reads n s₁) fun _ u s₂ initializer => ?_
  refine .bind (optionalValue_reads n _ s₂) fun _ v s₃ condition => .expect fun _ s₄ => ?_
  refine .bind (optionalValue_reads n _ s₄) fun _ w s₅ increment => .expect fun _ s₆ => ?_
  refine .map ((ih.statement s₆).imp fun _ _ body => ?_)
  exact .the (.cons (.cons (.seq initializer (.seq condition (.cons (.seq increment
    (.cons body)))))))

private theorem reads_ifStatement (s : State) :
    Reads s (ifStatement (n + 1)) fun _ w => Sentence .ifStatement (.keyword .if :: w) := by
  unfold ifStatement
  refine .expect fun _ s₁ => ?_
  refine .bind (expression_reads n s₁) fun _ u s₂ condition => .expect fun _ s₃ => ?_
  refine .bind (ih.statement s₃) fun _ v s₄ thenBranch => .accept (fun s₅ => ?_) ?_
  · refine .map ((ih.statement s₅).imp fun _ _ elseBranch => ?_)
    exact .the (.cons (.cons (.seq condition (.cons (.seq thenBranch
      (.present (.cons elseBranch)))))))
  · exact .pure (.the (.cons (.cons (.seq condition (.cons (.seq thenBranch .absent))))))

private theorem reads_whileStatement (s : State) :
    Reads s (whileStatement (n + 1)) fun _ w => Sentence .whileStatement (.keyword .while :: w) := by
  unfold whileStatement
  refine .expect fun _ s₁ => ?_
  refine .bind (expression_reads n s₁) fun _ u s₂ condition => .expect fun _ s₃ => ?_
  refine .map ((ih.statement s₃).imp fun _ _ body => ?_)
  exact .the (.cons (.cons (.seq condition (.cons body))))

private theorem reads_block (s : State) :
    Reads s (block (n + 1)) fun _ w => Sentence .block (.symbol .leftBrace :: w) := by
  unfold block
  refine .bind (ih.declarations _ [] s) fun body v s₁ read => .expect fun _ _ => .pure ?_
  obtain ⟨words, rfl, each, -⟩ := read
  exact .the (.cons (.seq (.many each) (.token _)))

private theorem reads_declarations (stop : Token.Kind) (done : List Stmt) (s : State) :
    Reads s (declarations (n + 1) stop done) fun statements w =>
      ∃ words : List (List Token.Kind), w = words.flatten ∧
        (∀ u ∈ words, Sentence .declaration u) ∧
        statements.length = done.length + words.length := by
  unfold declarations
  refine .sees (.atEnd (.ite (fun _ => .pure ?_) fun _ => ?_))
  · exact ⟨[], rfl, by rintro _ ⟨⟩, by simp⟩
  · refine @Reads.bind _ _ _ _ _ _ _ _ (fun declared => ?_) (ih.declaration s)
      fun declared v s₁ read => ?_
    · cases declared <;> infer_instance
    · obtain ⟨b, rfl, sentence⟩ := read
      refine (ih.declarations stop (b :: done) s₁).imp ?_
      rintro statements _ ⟨words, rfl, each, length⟩
      refine ⟨v :: words, rfl, List.forall_mem_cons.mpr ⟨sentence, each⟩, ?_⟩
      simp only [length, List.length_cons]
      omega

end Steps

private theorem programs_read (n : Nat) : ProgramsRead n := by
  induction n with
  | zero =>
    constructor
    case declaration => exact fun s => (Reads.recover .fail).imp fun _ _ read => read
    all_goals intros; exact .fail
  | succ n ih =>
    exact ⟨reads_declaration ih, reads_classDeclaration ih, reads_methods ih, reads_function ih,
      reads_statement ih, reads_forStatement ih, reads_ifStatement ih, reads_whileStatement ih,
      reads_block ih, reads_declarations ih⟩

/-- Reading declarations without a problem takes sentences and gives a statement for each. -/
theorem declarations_reads (n : Nat) (stop : Token.Kind) (s : State) :
    Reads s (declarations n stop []) fun statements w =>
      ∃ words : List (List Token.Kind), w = words.flatten ∧
        (∀ u ∈ words, Sentence .declaration u) ∧ statements.length = words.length := by
  refine ((programs_read n).declarations stop [] s).imp ?_
  rintro statements w ⟨words, flat, each, length⟩
  exact ⟨words, flat, each, by simpa using length⟩

/-- Reading declarations ends before a token of the kind that stops it or at the end. -/
theorem declarations_stop {n : Nat} {stop : Token.Kind} {done statements : List Stmt}
    {s s' : State} (ran : declarations n stop done s = .ok statements s') :
    s'.head.kind = stop ∨ s'.head.kind = .eof := by
  induction n generalizing done s with
  | zero => cases ran
  | succ n ih =>
    unfold declarations at ran
    obtain ⟨_, _, saw, ran⟩ := bind_eq_ok ran
    cases saw
    obtain ⟨_, _, saw, ran⟩ := bind_eq_ok ran
    cases saw
    split at ran
    · rename_i stopped
      cases ran
      simpa [State.atEnd] using stopped
    · obtain ⟨declared, s₁, -, ran⟩ := bind_eq_ok ran
      cases declared with
      | some b => exact ih ran
      | none => exact ih ran

end Grammar

end Lox
