import Lox.Proofs.Syntax.WellFormed
import Lox.Grammar.Program

/-!
# Numbered trees

A part of a program is numbered if its nodes have different identities, all of them from one range.
Parts that are numbered from adjacent ranges make up a numbered whole, in whatever order they stand.
-/

namespace Lox

/-- Different identities from `lo` on and below `hi`. -/
structure Numbered (lo hi : NodeId) (ids : List NodeId) : Prop where
  range : lo ≤ hi
  distinct : ids.Nodup
  bounds : ∀ i ∈ ids, lo ≤ i ∧ i < hi

namespace Numbered

variable {lo mid hi : NodeId} {ids ids' : List NodeId}

theorem nil (range : lo ≤ hi) : Numbered lo hi [] := ⟨range, List.nodup_nil, nofun⟩

theorem single (i : NodeId) : Numbered i (i + 1) [i] := by
  refine ⟨Nat.le_succ i, by simp, ?_⟩
  intro j member
  rw [List.mem_singleton.mp member]
  exact ⟨Nat.le_refl i, Nat.lt_succ_self i⟩

theorem append (first : Numbered lo mid ids) (next : Numbered mid hi ids') :
    Numbered lo hi (ids ++ ids') := by
  have low := first.range
  have high := next.range
  refine ⟨Nat.le_trans low high, ?_, ?_⟩
  · -- every identity of the first part is below those of the second
    refine List.nodup_append.mpr ⟨first.distinct, next.distinct, ?_⟩
    intro i member j member'
    have below := first.bounds i member
    have above := next.bounds j member'
    grind
  · intro i member
    rcases List.mem_append.mp member with member | member
    · have inside := first.bounds i member
      grind
    · have inside := next.bounds i member
      grind

theorem perm (numbered : Numbered lo hi ids) (order : ids.Perm ids') : Numbered lo hi ids' :=
  ⟨numbered.range, order.nodup_iff.mp numbered.distinct,
    fun i member => numbered.bounds i (order.mem_iff.mpr member)⟩

/-- The part that stands first may have been numbered last. -/
theorem prepend (first : Numbered lo mid ids) (next : Numbered mid hi ids') :
    Numbered lo hi (ids' ++ ids) :=
  (first.append next).perm List.perm_append_comm

theorem widen {hi' : NodeId} (numbered : Numbered lo hi ids) (above : hi ≤ hi') :
    Numbered lo hi' ids := by
  have more := numbered.append (.nil above)
  rwa [List.append_nil] at more

/-- The identities between may be left out. -/
theorem skip (numbered : Numbered mid hi ids) (below : lo ≤ mid) : Numbered lo hi ids :=
  (nil below).append numbered

end Numbered

/-! ### Lists of trees -/

section

attribute [local simp] Expr.WellFormed expressionsWellFormed Stmt.WellFormed statementsWellFormed
  FunctionDecl.WellFormed methodsWellFormed

theorem expressionsWellFormed_iff (expressions : List Expr) :
    expressionsWellFormed expressions ↔ ∀ e ∈ expressions, e.WellFormed := by
  induction expressions with
  | nil => simp
  | cons e rest ih => simp [ih]

theorem statementsWellFormed_iff (statements : List Stmt) :
    statementsWellFormed statements ↔ ∀ s ∈ statements, s.WellFormed := by
  induction statements with
  | nil => simp
  | cons s rest ih => simp [ih]

theorem methodsWellFormed_iff (methods : List FunctionDecl) :
    methodsWellFormed methods ↔ ∀ d ∈ methods, d.WellFormed := by
  induction methods with
  | nil => simp
  | cons d rest ih => simp [ih]

end

section

attribute [local simp] Expr.ids expressionIds Stmt.ids statementIds FunctionDecl.ids methodIds

theorem expressionIds_eq_flatMap (expressions : List Expr) :
    expressionIds expressions = expressions.flatMap Expr.ids := by
  induction expressions with
  | nil => simp
  | cons e rest ih => simp [ih]

theorem statementIds_eq_flatMap (statements : List Stmt) :
    statementIds statements = statements.flatMap Stmt.ids := by
  induction statements with
  | nil => simp
  | cons s rest ih => simp [ih]

theorem methodIds_eq_flatMap (methods : List FunctionDecl) :
    methodIds methods = methods.flatMap FunctionDecl.ids := by
  induction methods with
  | nil => simp
  | cons d rest ih => simp [ih]

end

/-! ### Trees that have been read -/

/-- A list of trees, the last first, each well-formed and numbered after those before it. -/
structure Collected {α : Type} (wellFormed : α → Prop) (ids : α → List NodeId) (lo hi : NodeId)
    (trees : List α) : Prop where
  wellFormed : ∀ a ∈ trees, wellFormed a
  numbered : Numbered lo hi (trees.flatMap ids)

namespace Collected

variable {α : Type} {wellFormed : α → Prop} {ids : α → List NodeId} {lo mid hi : NodeId}
  {trees : List α}

theorem nil (lo : NodeId) : Collected wellFormed ids lo lo [] := ⟨nofun, .nil (Nat.le_refl lo)⟩

theorem cons {a : α} (before : Collected wellFormed ids lo mid trees) (holds : wellFormed a)
    (numbered : Numbered mid hi (ids a)) : Collected wellFormed ids lo hi (a :: trees) := by
  refine ⟨?_, before.numbered.prepend numbered⟩
  intro b member
  rcases List.mem_cons.mp member with rfl | member
  · exact holds
  · exact before.wellFormed b member

theorem reverse (collected : Collected wellFormed ids lo hi trees) :
    Collected wellFormed ids lo hi trees.reverse :=
  ⟨fun a member => collected.wellFormed a (List.mem_reverse.mp member),
    collected.numbered.perm ((List.reverse_perm trees).symm.flatMap_right ids)⟩

theorem widen {hi' : NodeId} (collected : Collected wellFormed ids lo hi trees)
    (above : hi ≤ hi') : Collected wellFormed ids lo hi' trees :=
  ⟨collected.wellFormed, collected.numbered.widen above⟩

end Collected

end Lox
