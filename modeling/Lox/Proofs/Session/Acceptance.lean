import Lox.Proofs.Grammar.Produced
import Lox.Proofs.Scope.WellScoped
import Lox.Session
import Mathlib.Data.List.Nodup

/-!
# Acceptance

What is known of a source that has been accepted: its statements are well-scoped by look-ups that belong
to fresh nodes, and the machine that runs them has the distance of each of these look-ups on record.
-/

namespace Lox

theorem Numbered.sublist {lo hi : NodeId} {ids ids' : List NodeId} (numbered : Numbered lo hi ids)
    (fewer : ids'.Sublist ids) : Numbered lo hi ids' :=
  ⟨numbered.range, numbered.distinct.sublist fewer,
    fun i member => numbered.bounds i (fewer.subset member)⟩

/-- What it takes for a source to be accepted. -/
theorem Source.accept_eq_ok {source : String} {firstId : NodeId} {program : Accepted} :
    (Source.accept source firstId).1 = .ok program ↔
      (Source.program source firstId).diagnostics = [] ∧
        program.statements = (Source.program source firstId).result ∧
        (Resolution.ofProgram (Source.program source firstId).result).bindings? =
          .ok program.bindings := by
  unfold Source.accept
  dsimp only
  cases (Source.program source firstId).diagnostics with
  | cons d rest => simp
  | nil =>
    obtain ⟨statements, bindings⟩ := program
    cases (Resolution.ofProgram (Source.program source firstId).result).bindings? with
    | error diagnostics => simp [bind, Except.bind]
    | ok found => simp [bind, Except.bind, pure, Except.pure, eq_comm]

/-- The statements of an accepted source have only identities that were free before. -/
theorem Source.accept_ids {source : String} {firstId : NodeId} {program : Accepted}
    (accepted : (Source.accept source firstId).1 = .ok program) :
    Numbered firstId (Source.accept source firstId).2 (statementIds program.statements) := by
  obtain ⟨-, statements, -⟩ := Source.accept_eq_ok.mp accepted
  rw [statements]
  exact (Source.program_isRead source firstId).2

/-- A walk over well-formed statements that reports nothing has found them well-scoped. -/
theorem Resolution.ofProgram_scoped {statements : List Stmt}
    (wellFormed : statementsWellFormed statements)
    (clean : (ofProgram statements).problems.toList = []) :
    statementsScoped (ofProgram statements).lookups.toList [] statements := by
  have rests : Rests [] start := ⟨rfl, nofun, trivial⟩
  exact (statementsPass statements wellFormed rests ⟨clean, fun _ member => member⟩).1

theorem Resolution.ofProgram_lookups (statements : List Stmt) :
    ((ofProgram statements).lookups.toList.map (·.id)).Sublist (statementIds statements) := by
  obtain ⟨⟨new, added, nodes⟩, _⟩ := resolveStatements_grows start statements
  rw [ofProgram, added]
  exact nodes

/-- The statements of an accepted source are well-scoped by look-ups of fresh nodes, and the bindings are
those of the look-ups that found a local scope. -/
theorem Source.accept_scoped {source : String} {firstId : NodeId} {program : Accepted}
    (accepted : (Source.accept source firstId).1 = .ok program) :
    ∃ L : List Lookup, statementsScoped L [] program.statements ∧
      program.bindings = L.filterMap Lookup.binding? ∧
      Numbered firstId (Source.accept source firstId).2 (L.map (·.id)) := by
  -- what has been read is well-formed and numbered, accepted or not
  have ⟨wellFormed, numbered⟩ := Source.program_isRead source firstId
  let walk := Resolution.ofProgram (Source.program source firstId).result
  unfold Source.accept at accepted
  dsimp only at accepted
  -- accepted are only sources that are read and walked over without a diagnostic
  split at accepted
  · unfold Resolution.bindings? at accepted
    split at accepted
    · rename_i clean
      cases accepted
      exact ⟨walk.lookups.toList, Resolution.ofProgram_scoped wellFormed clean, rfl,
        numbered.sublist (Resolution.ofProgram_lookups _)⟩
    · cases accepted
  · cases accepted

/-! ### Distances -/

/-- A node that is not among the bindings keeps what was on record for it. -/
theorem Machine.distances_recordAll_of_notMem (m : Machine) {bindings : List Binding} {i : NodeId}
    (other : ∀ b ∈ bindings, b.1 ≠ i) : (m.recordAll bindings).distances[i]? = m.distances[i]? := by
  unfold recordAll
  induction bindings generalizing m with
  | nil => rfl
  | cons b rest ih =>
    rw [List.foldl_cons, ih _ fun b' member => other b' (List.mem_cons_of_mem _ member), record,
      Std.TreeMap.getElem?_insert, if_neg]
    -- the other bindings leave this node alone
    rw [Nat.compare_eq_eq]
    exact other b List.mem_cons_self

/-- A node that is bound once has its distance on record. -/
theorem Machine.distances_recordAll_of_mem (m : Machine) {bindings : List Binding} {b : Binding}
    (distinct : (bindings.map (·.1)).Nodup) (member : b ∈ bindings) :
    (m.recordAll bindings).distances[b.1]? = some b.2 := by
  induction bindings generalizing m with
  | nil => cases member
  | cons first rest ih =>
    rw [List.map_cons, List.nodup_cons] at distinct
    rcases List.mem_cons.mp member with rfl | member
    · -- none of the later bindings is of the same node
      have last : (m.record b).distances[b.1]? = some b.2 := by
        rw [record, Std.TreeMap.getElem?_insert_self]
      rw [← last]
      refine distances_recordAll_of_notMem (m.record b) fun b' member same => ?_
      exact distinct.1 (List.mem_map.mpr ⟨b', member, same⟩)
    · exact ih (m.record first) distinct.2 member

theorem Lookup.bindings_sublist (L : List Lookup) :
    ((L.filterMap Lookup.binding?).map (·.1)).Sublist (L.map (·.id)) := by
  induction L with
  | nil => exact List.Sublist.refl []
  | cons l rest ih =>
    rw [List.filterMap_cons, List.map_cons]
    cases found : l.depth with
    | none =>
      rw [binding?, found]
      exact ih.cons l.id
    | some d =>
      rw [binding?, found]
      exact ih.cons_cons l.id

/-- Each look-up has its outcome on record: a distance, or nothing if the name is global. -/
theorem Machine.distances_recordAll (m : Machine) {lo hi : NodeId} {L : List Lookup}
    (numbered : Numbered lo hi (L.map (·.id)))
    (fresh : ∀ i, lo ≤ i → m.distances[i]? = none) {l : Lookup} (member : l ∈ L) :
    (m.recordAll (L.filterMap Lookup.binding?)).distances[l.id]? = l.depth := by
  cases found : l.depth with
  | some d =>
    have bound : (l.id, d) ∈ L.filterMap Lookup.binding? := by
      refine List.mem_filterMap.mpr ⟨l, member, ?_⟩
      rw [Lookup.binding?, found]
      rfl
    exact distances_recordAll_of_mem m
      (numbered.distinct.sublist (Lookup.bindings_sublist L)) bound
  | none =>
    have node : l.id ∈ L.map (·.id) := List.mem_map.mpr ⟨l, member, rfl⟩
    rw [distances_recordAll_of_notMem m, fresh l.id (numbered.bounds l.id node).1]
    intro b bound same
    -- the only look-up at this node is `l`, which has no distance
    obtain ⟨l', member', bound⟩ := List.mem_filterMap.mp bound
    obtain ⟨d, depth, rfl⟩ := Option.map_eq_some_iff.mp bound
    have only : l' = l := List.inj_on_of_nodup_map numbered.distinct member' member same
    rw [only, found] at depth
    cases depth

/-- The outcomes of look-ups are on record, all of them at nodes below `b`, and nothing is on record for
nodes from `b` on. -/
structure Machine.OnRecord (L : List Lookup) (b : NodeId) (m : Machine) : Prop where
  recorded : ∀ l ∈ L, m.distances[l.id]? = l.depth
  known : ∀ l ∈ L, l.id < b
  fresh : ∀ i, b ≤ i → m.distances[i]? = none

theorem Machine.OnRecord.mono {L : List Lookup} {b b' : NodeId} {m : Machine}
    (record : m.OnRecord L b) (more : b ≤ b') : m.OnRecord L b' :=
  ⟨record.recorded, fun l member => Nat.lt_of_lt_of_le (record.known l member) more,
    fun i above => record.fresh i (Nat.le_trans more above)⟩

/-- The look-ups of fresh nodes are put on record, and those recorded before stay as they were. -/
theorem Machine.OnRecord.record {L new : List Lookup} {lo hi : NodeId} {m : Machine}
    (record : m.OnRecord L lo) (numbered : Numbered lo hi (new.map (·.id))) :
    (m.recordAll (new.filterMap Lookup.binding?)).OnRecord (L ++ new) hi := by
  -- a binding is at the node of a new look-up
  have bounds {b : Binding} (bound : b ∈ new.filterMap Lookup.binding?) : lo ≤ b.1 ∧ b.1 < hi := by
    obtain ⟨l, member, bound⟩ := List.mem_filterMap.mp bound
    obtain ⟨d, depth, rfl⟩ := Option.map_eq_some_iff.mp bound
    exact numbered.bounds l.id (List.mem_map.mpr ⟨l, member, rfl⟩)
  refine ⟨fun l member => ?_, fun l member => ?_, fun i above => ?_⟩
  · rcases List.mem_append.mp member with old | added
    · rw [distances_recordAll_of_notMem m, record.recorded l old]
      intro b bound same
      exact absurd (same ▸ (bounds bound).1) (Nat.not_le.mpr (record.known l old))
    · exact m.distances_recordAll numbered record.fresh added
  · rcases List.mem_append.mp member with old | added
    · exact Nat.lt_of_lt_of_le (record.known l old) numbered.range
    · exact (numbered.bounds l.id (List.mem_map.mpr ⟨l, added, rfl⟩)).2
  · rw [distances_recordAll_of_notMem m]
    · exact record.fresh i (Nat.le_trans numbered.range above)
    · rintro b bound rfl
      exact absurd (bounds bound).2 (Nat.not_lt.mpr above)

end Lox
