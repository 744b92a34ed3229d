import Lox.Proofs.Lexical.Agreement

/-!
# Names on both machines

Declaring a name, opening a scope with names, reading a name and assigning to one: what the machine with
frames does in a frame, the lexical machine does at a location, and the two agree again afterwards. A
declaration takes two steps. It makes a location, which leaves the frames as they are, and its end binds
the name in the frame.
-/

namespace Lox.Lexical

section

variable {L : List Lookup} {g : FrameId} {near : Option FrameId} {cells cells' : List Slot}
  {m : Machine} {μ : State} {Γ : Scopes} {ρ : Env} {f : FrameId} {name : String} {value : Value}

/-! ### Frames -/

theorem Later.define (near : Option FrameId) (cells : List Slot)
    (present : (m.store.frameAt? f).isSome) (fits : Fits name value) :
    Later near cells m cells { m with store := m.store.define f name value } where
  current := rfl
  size := by simp [Store.define]
  links := fun link => by
    rw [Store.enclosing?_define]
    exact link
  bound := fun {f' name' old} found => by
    rw [Store.binding?_define _ _ _ _ _ _ present]
    split
    · rename_i same
      obtain ⟨rfl, rfl⟩ := same
      exact ⟨value, rfl, fun _ => fits⟩
    · exact ⟨old, found, id⟩
  grown := List.prefix_rfl
  apart := fun _ member => .inl member

theorem Later.addFrame (near : Option FrameId) (cells : List Slot) (m : Machine)
    (enclosing : Option FrameId) :
    Later near cells m cells { m with store := (m.store.addFrame ∅ enclosing).2 } where
  current := rfl
  size := by simp [Store.addFrame]
  links := fun {f outer} link => by
    rw [Store.enclosing?] at link
    obtain ⟨frame, found, linked⟩ := Option.bind_eq_some_iff.mp link
    rw [Store.enclosing?, Store.frameAt?_addFrame_of_some ∅ enclosing found]
    exact linked
  bound := fun {_ _ old} found => by
    rw [binding?_addFrame]
    exact ⟨old, found, id⟩
  grown := List.prefix_rfl
  apart := fun _ member => .inl member

/-- Machines agree when frames and locations have changed together. -/
theorem Agree.withFrames (agree : Agree L g cells m μ) {s : Store} {values : Array Value}
    {globals : Table Value} (later : Later near cells m cells' { m with store := s })
    (functions : s.functions = m.store.functions) (classes : s.classes = m.store.classes)
    (instances : s.instances = m.store.instances)
    (frames : FramesAgree g cells' s values globals) :
    Agree L g cells' { m with store := s } { μ with cells := values, globals } where
  globals := agree.globals
  distances := agree.distances
  frames := frames
  functions := by
    rw [functions]
    exact agree.functions.mono fun _ _ => .mono later
  classes := by
    rw [classes]
    exact agree.classes.mono fun _ _ => .mono later
  instances := agree.instances.trans instances.symm
  callDepth := agree.callDepth
  sink := agree.sink
  clock := agree.clock
  readings := agree.readings

/-! ### Declarations -/

/-- The declaration of a name makes a location, with a slot that is not bound yet. A global name needs
none. -/
theorem Sited.declare (sited : Sited L g f Γ ρ cells m μ)
    (new : Γ.head?.bind (·.get? name) = none) :
    ∃ ρ' μ' cells', Run.declare ρ name μ = .ok ρ' μ' ∧ Later (some f) cells m cells' m ∧
      Sited L g f (Γ.mark name .declared) ρ' cells' m μ' := by
  cases Γ with
  | nil =>
    -- a global name is bound only when its declaration ends
    obtain ⟨agree, placed, own⟩ := sited
    cases placed
    exact ⟨.top, μ, cells, rfl, .refl _ _ _, agree, .top, trivial⟩
  | cons scope outer =>
    obtain ⟨agree, placed, own⟩ := sited
    have present := placed.present
    cases ρ with
    | top => cases placed
    | inner names =>
      have unheld : scope.get? name = none := new
      -- a slot in this frame would belong to a name that the scope holds
      have unslotted : (⟨f, name⟩ : Slot) ∉ cells := by
        intro member
        have held := own name member
        rw [unheld] at held
        cases held
      -- the frame of a scope is enclosed by another, and so is not the global one
      have other : f ≠ g := by
        cases placed with
        | inner link => exact agree.frames.ne_root link
      have later : Later (some f) cells m (cells ++ [⟨f, name⟩]) m :=
        { Later.refl (some f) cells m with
          grown := List.prefix_append _ _
          apart := fun slot member => by
            rcases List.mem_append.mp member with old | last
            · exact .inl old
            · rw [List.mem_singleton.mp last]
              exact .inr (.inr rfl) }
      have frames := agree.frames.declare ⟨f, name⟩ other present unslotted
      refine ⟨.inner (names.insert name ⟨μ.cells.size⟩), { μ with cells := μ.cells.push .nil },
        cells ++ [⟨f, name⟩], rfl, later, ?_, ?_, ?_⟩
      · exact agree.withFrames later rfl rfl rfl frames
      · rw [← agree.frames.count]
        exact placed.declare
      · intro x member
        rw [Table.get?_insert]
        split
        · rfl
        · rename_i distinct
          rcases List.mem_append.mp member with old | last
          · exact own x old
          · cases List.mem_singleton.mp last
            exact absurd rfl distinct

/-- The declaration of a name ends with a value for it, in the frame and at the location. -/
theorem Sited.define {status : Status} (sited : Sited L g f (Γ.mark name status) ρ cells m μ)
    (near : Option FrameId) (fits : Fits name value) :
    Later near cells m cells { m with store := m.store.define f name value } ∧
      Sited L g f (Γ.mark name .defined) ρ cells
        { m with store := m.store.define f name value } (μ.bind ρ name value) := by
  obtain ⟨agree, placed, own⟩ := sited
  cases Γ with
  | nil =>
    cases placed
    -- outside every scope the name is global
    obtain ⟨frame, found, _⟩ := agree.frames.root
    have present : (m.store.frameAt? g).isSome := by
      rw [found]
      rfl
    have later := Later.define (m := m) near cells present fits
    have frames := agree.frames.define_global name value
    exact ⟨later, agree.withFrames later rfl rfl rfl frames, .top, trivial⟩
  | cons scope outer =>
    have later := Later.define (m := m) near cells placed.present fits
    have held : (scope.insert name status).get? name = some status := Table.get?_insert_self _ _ _
    have present := placed.present
    refine ⟨later, ?_, ?_, ?_⟩
    · cases placed with
      | inner link around owned others =>
        -- the name has had a location since its declaration began
        obtain ⟨ℓ, found, slot, _⟩ := owned name status held
        have frames := agree.frames.define_local slot value
        simp only [State.bind, Env.find?, found]
        exact agree.withFrames later rfl rfl rfl frames
    · have bound := Store.binding?_define_self name value present
      have settled := (placed.mono later).settle held bound fits
      rw [Table.insert_insert_self] at settled
      exact settled
    · intro x member
      have inside := own x member
      rw [Table.get?_insert] at inside ⊢
      split <;> simp_all

/-! ### Scopes that open with names -/

/-- Binds names in a frame, one after another. -/
def defineAll (s : Store) (f : FrameId) (pairs : List (String × Value)) : Store :=
  pairs.foldl (fun s pair => s.define f pair.1 pair.2) s

theorem addFrame_insert (s : Store) (t : Table Value) (enclosing : Option FrameId) (name : String)
    (value : Value) :
    (s.addFrame (t.insert name value) enclosing).2 =
      (s.addFrame t enclosing).2.define ⟨s.frames.size⟩ name value := by
  simp only [Store.addFrame, Store.define]
  congr 1
  apply Array.ext_getElem?
  intro i
  rw [Array.getElem?_modify, Array.getElem?_push, Array.getElem?_push]
  -- only the new frame, which is the last one, is bound in
  by_cases last : i = s.frames.size
  · simp [last]
  · simp [last, Ne.symm last]

/-- A frame that is made with names is a frame without any in which the names are bound in turn. -/
theorem addFrame_insertAll (s : Store) (t : Table Value) (enclosing : Option FrameId)
    (pairs : List (String × Value)) :
    (s.addFrame (t.insertAll pairs) enclosing).2 =
      defineAll (s.addFrame t enclosing).2 ⟨s.frames.size⟩ pairs := by
  induction pairs generalizing t with
  | nil => rfl
  | cons pair rest ih =>
    have first := addFrame_insert s t enclosing pair.1 pair.2
    calc (s.addFrame (t.insertAll (pair :: rest)) enclosing).2
        = (s.addFrame ((t.insert pair.1 pair.2).insertAll rest) enclosing).2 := rfl
      _ = defineAll (s.addFrame (t.insert pair.1 pair.2) enclosing).2 ⟨s.frames.size⟩ rest := ih _
      _ = defineAll (s.addFrame t enclosing).2 ⟨s.frames.size⟩ (pair :: rest) := by
        rw [first]
        rfl

/-- Names are declared one after another in a scope that does not hold them yet. -/
theorem Sited.declareAll {scope : Scope} (pairs : List (String × Value))
    (sited : Sited L g f (scope :: Γ) ρ cells m μ) (new : ∀ p ∈ pairs, scope.get? p.1 = none)
    (distinct : (pairs.map (·.1)).Nodup) (fits : ∀ p ∈ pairs, Fits p.1 p.2) :
    ∃ ρ' μ' cells', Run.declareAll ρ pairs μ = .ok ρ' μ' ∧
      Later (some f) cells m cells' { m with store := defineAll m.store f pairs } ∧
      Sited L g f (scope.insertAll (pairs.map fun p => (p.1, .defined)) :: Γ) ρ' cells'
        { m with store := defineAll m.store f pairs } μ' := by
  induction pairs generalizing scope ρ cells m μ with
  | nil => exact ⟨ρ, μ, cells, rfl, .refl _ _ _, sited⟩
  | cons pair rest ih =>
    obtain ⟨name, value⟩ := pair
    -- the first name is declared and bound before the others are declared
    obtain ⟨ρ₁, μ₁, cells₁, declared, later₁, sited₁⟩ := sited.declare (new _ List.mem_cons_self)
    have fits₁ : Fits name value := fits _ List.mem_cons_self
    obtain ⟨later₂, sited₂⟩ := sited₁.define (some f) fits₁
    rw [List.map_cons, List.nodup_cons] at distinct
    have new' : ∀ p ∈ rest, (scope.insert name .defined).get? p.1 = none := by
      intro p member
      have other : name ≠ p.1 := fun same =>
        distinct.1 (List.mem_map.mpr ⟨p, member, same.symm⟩)
      rw [Table.get?_insert_of_ne _ _ other]
      exact new p (List.mem_cons_of_mem _ member)
    obtain ⟨ρ', μ', cells', rest_declared, later₃, sited₃⟩ :=
      ih sited₂ new' distinct.2 fun p member => fits p (List.mem_cons_of_mem _ member)
    refine ⟨ρ', μ', cells', ?_, (later₁.trans later₂).trans later₃, sited₃⟩
    change EStateM.bind (Run.declare ρ name) _ μ = _
    rw [EStateM.bind, declared]
    exact rest_declared

/-- A frame that is made with names stands for the scope that opens with them. -/
theorem matches_openScope (agree : Agree L g cells m μ) (placed : Placed cells m.store g f Γ ρ)
    (pairs : List (String × Value)) (distinct : (pairs.map (·.1)).Nodup)
    (fits : ∀ p ∈ pairs, Fits p.1 p.2) :
    Matches L g none cells m
      (fun cells' m' μ' frame ρ' => frame = ⟨m.store.frames.size⟩ ∧
        m'.store.enclosing? frame = some f ∧
          Sited L g frame (Scope.of (pairs.map (·.1)) :: Γ) ρ' cells' m' μ')
      (Lox.Run.onStore (·.addFrame (Table.insertAll ∅ pairs) (some f)) m)
      (Run.openScope ρ pairs μ) := by
  let frame : FrameId := ⟨m.store.frames.size⟩
  have opened := Later.addFrame none cells m (some f)
  have agree₀ := agree.withFrames opened rfl rfl rfl (agree.frames.addFrame (some f))
  have link : (m.store.addFrame ∅ (some f)).2.enclosing? frame = some f := by
    rw [Store.enclosing?]
    exact congrArg (Option.bind · _) (Store.frameAt?_addFrame_self m.store ∅ (some f))
  -- the new frame has no slots yet
  have empty : Own cells frame (Scope.of [] :: Γ) := by
    intro name member
    obtain ⟨_, present⟩ := agree.frames.inside _ member
    obtain ⟨other, found⟩ := Option.isSome_iff_exists.mp present
    exact absurd (Array.getElem?_eq_some_iff.mp found).1 (Nat.lt_irrefl _)
  have sited₀ : Sited L g frame (Scope.of [] :: Γ) ρ.enter cells
      { m with store := (m.store.addFrame ∅ (some f)).2 } μ :=
    ⟨agree₀, (placed.mono opened).enter link, empty⟩
  obtain ⟨ρ', μ', cells', declared, later, sited⟩ :=
    sited₀.declareAll pairs (fun _ _ => rfl) distinct fits
  have made : Lox.Run.onStore (·.addFrame (Table.insertAll ∅ pairs) (some f)) m =
      .ok frame { m with store := defineAll (m.store.addFrame ∅ (some f)).2 frame pairs } := by
    rw [← addFrame_insertAll]
    rfl
  rw [Run.openScope, declared, made]
  refine ⟨cells', ?_, sited.agree, rfl, later.links link, ?_⟩
  · refine opened.trans_of later fun near here => ?_
    cases here
    exact .inr (Nat.le_refl _)
  · rw [Scope.of, List.map_map]
    exact sited

/-! ### Reading names -/

/-- A local name that can be read is bound in the frame at its distance, to the value at its
location. -/
theorem Placed.getAt {d : Nat} (placed : Placed cells m.store g f Γ ρ)
    (agree : Agree L g cells m μ) (held : Γ.Holds name d) :
    ∃ frame value, m.store.ancestor? f d = some frame ∧
      m.store.binding? frame name = some value ∧ μ.lookUp ρ name = .ok value ∧
      Fits name value := by
  obtain ⟨inside, readable⟩ := held
  obtain ⟨frame, ℓ, reached, found, slot, bound⟩ := placed.local_ inside
  obtain ⟨value, here, fits⟩ := bound readable
  have kept := agree.frames.values slot here
  refine ⟨frame, value, reached, here, ?_, fits⟩
  simp only [State.lookUp, found, kept]

theorem getAt_of_reached {s : Store} {d : Nat} {frame : FrameId}
    (reached : s.ancestor? f d = some frame) (found : s.binding? frame name = some value) :
    s.getAt f d name = .ok value := by
  simp only [Store.getAt, Store.ancestor, reached, Store.bound, found, bind, Except.bind]

/-- The chain of the global frame holds the global names and no others. -/
theorem Agree.holder? (agree : Agree L g cells m μ) (name : String) :
    m.store.holder? g name = if μ.globals.contains name then some g else none := by
  obtain ⟨frame, found, alone⟩ := agree.frames.root
  have same : frame.bindings.contains name = μ.globals.contains name := by
    rw [Table.contains, Table.contains, ← agree.frames.globals name, Store.binding?, found]
    rfl
  -- nothing encloses the global frame, so the search ends in it
  rw [Store.holder?, found]
  simp only [alone, same]

theorem Agree.get (agree : Agree L g cells m μ) (name : String) :
    m.store.get g name = match μ.globals.get? name with
      | some value => .ok value
      | none => .error (.undefinedVariable name) := by
  rw [Store.get, Store.holder, agree.holder? name, Table.contains]
  cases found : μ.globals.get? name with
  | none => rfl
  | some value =>
    have bound := (agree.frames.globals name).trans found
    simp [bind, Except.bind, Store.bound, bound]

/-- Reading a name at a node that has been looked up gives the same on both machines. -/
theorem Sited.lookUp {id : NodeId} (sited : Sited L g m.current Γ ρ cells m μ)
    (plain : IsPlain name) (readable : Γ.Readable name) (found : ⟨id, name, Γ.depth name⟩ ∈ L) :
    LookUpsAgree (fun a b => b = a) (m.lookUp id name) (μ.lookUp ρ name) := by
  have recorded := sited.agree.distances _ found
  rw [Machine.lookUp, recorded]
  cases distance : Γ.depth name with
  | some d =>
    -- a local name that can be read has been bound, and neither machine faults
    have held : Γ.Holds name d := ⟨distance, readable⟩
    obtain ⟨frame, value, reached, bound, same, _⟩ := sited.placed.getAt sited.agree held
    simp only [getAt_of_reached reached bound, same, LookUpsAgree]
  | none =>
    -- a global name is looked up when it is used, and may be missing on both
    simp only [sited.agree.globals, sited.agree.get, State.lookUp, sited.placed.global distance]
    cases μ.globals.get? name with
    | some value => rfl
    | none => exact ⟨rfl, fun ruledOut => ruledOut plain⟩

/-- `this` gives the same instance on both machines. -/
theorem Sited.lookUp_this {id : NodeId} {d : Nat} (sited : Sited L g m.current Γ ρ cells m μ)
    (held : Γ.Holds Keyword.this.spelling d) (found : ⟨id, Keyword.this.spelling, some d⟩ ∈ L) :
    ∃ i, m.lookUp id Keyword.this.spelling = .ok (.instance_ i) ∧
      μ.lookUp ρ Keyword.this.spelling = .ok (.instance_ i) := by
  have recorded : m.distances[id]? = some d := sited.agree.distances _ found
  obtain ⟨frame, value, reached, bound, same, fits⟩ := sited.placed.getAt sited.agree held
  obtain ⟨i, rfl⟩ := fits.1 rfl
  refine ⟨i, ?_, same⟩
  rw [Machine.lookUp, recorded]
  exact getAt_of_reached reached bound

/-- `super` gives the same superclass and the same instance on both machines. -/
theorem Sited.lookUpSuper {id : NodeId} {d : Nat} (sited : Sited L g m.current Γ ρ cells m μ)
    (this : Γ.Holds Keyword.this.spelling d) (super : Γ.Holds Keyword.super.spelling (d + 1))
    (found : ⟨id, Keyword.super.spelling, some (d + 1)⟩ ∈ L) :
    ∃ parent i, m.lookUpSuper id = .ok (parent, .instance_ i) ∧
      μ.lookUpSuper ρ = .ok (parent, .instance_ i) := by
  have recorded : m.distances[id]? = some (d + 1) := sited.agree.distances _ found
  obtain ⟨frame, value, reached, bound, same, fits⟩ := sited.placed.getAt sited.agree super
  -- `super` is bound to a class and `this` to an instance, so no look-up faults
  obtain ⟨parent, rfl⟩ := fits.2 rfl
  obtain ⟨inner, receiver, reached', bound', same', fits'⟩ := sited.placed.getAt sited.agree this
  obtain ⟨i, rfl⟩ := fits'.1 rfl
  refine ⟨parent, i, ?_, ?_⟩
  · simp only [Machine.lookUpSuper, recorded, getAt_of_reached reached bound,
      getAt_of_reached reached' bound', bind, Except.bind, pure, Except.pure]
  · simp only [State.lookUpSuper, same, same', bind, Except.bind, pure, Except.pure]

/-! ### Assignments -/

/-- The frame in which an assignment changes a name, as the lexical machine sees it. -/
private def Targets (g : FrameId) (cells : List Slot) (ρ : Env) (name : String) (frame : FrameId) :
    Prop :=
  match ρ.find? name with
  | some ℓ => cells[ℓ.index]? = some ⟨frame, name⟩
  | none => frame = g

private theorem Sited.target {id : NodeId} (sited : Sited L g m.current Γ ρ cells m μ)
    (plain : IsPlain name) (found : ⟨id, name, Γ.depth name⟩ ∈ L) :
    LookUpsAgree (fun frame _ => Targets g cells ρ name frame) (m.target id name)
      (μ.assignable ρ name) := by
  have recorded := sited.agree.distances _ found
  rw [Machine.target, recorded, State.assignable]
  cases distance : Γ.depth name with
  | some d =>
    -- an assignment asks for no value: a name that cannot be read yet has its slot too
    obtain ⟨frame, ℓ, reached, located, slot, _⟩ := sited.placed.local_ distance
    simp only [Store.ancestor, reached, located, LookUpsAgree, Targets]
    exact slot
  | none =>
    have absent := sited.placed.global distance
    simp only [sited.agree.globals, Store.holder, sited.agree.holder? name, absent]
    by_cases known : μ.globals.contains name
    · simp [known, LookUpsAgree, Targets, absent]
    · simp only [known, LookUpsAgree]
      exact ⟨rfl, fun ruledOut => ruledOut plain⟩

/-- An assignment at a node that has been looked up changes the slot of the location. -/
theorem matches_assign {id : NodeId} {name : Name} (sited : Sited L g m.current Γ ρ cells m μ)
    (plain : IsPlain name.text) (found : ⟨id, name.text, Γ.depth name.text⟩ ∈ L) (value : Value) :
    Matches L g near cells m Equal (Lox.Run.assign id name value m)
      (Run.assign ρ name value μ) := by
  have fits := Fits.of_plain plain value
  have target := sited.target plain found
  refine (matches_read (P := fun cells' m' μ' frame _ => cells = cells' ∧ m = m' ∧ μ = μ' ∧
    Targets g cells ρ name.text frame) sited.agree name.line target
    fun _ _ there => ⟨rfl, rfl, rfl, there⟩).bind ?_
  rintro _ _ _ frame _ _ _ ⟨rfl, rfl, rfl, there⟩
  unfold Targets at there
  split at there
  · -- a local name: its slot is bound, and its location takes the value
    rename_i ℓ located
    have present := (sited.agree.frames.inside _ (List.mem_of_getElem? there)).2
    have later := Later.define (m := m) near cells present fits
    have agree := sited.agree.withFrames later rfl rfl rfl
      (sited.agree.frames.define_local there value)
    refine ⟨cells, later, ?_, rfl⟩
    simp only [State.bind, located]
    exact agree
  · -- a global name: it is bound in the global frame, and among the globals
    rename_i absent
    subst there
    obtain ⟨root, here, _⟩ := sited.agree.frames.root
    have present : (m.store.frameAt? frame).isSome := by
      rw [here]
      rfl
    have later := Later.define (m := m) near cells present fits
    have agree := sited.agree.withFrames later rfl rfl rfl
      (sited.agree.frames.define_global name.text value)
    refine ⟨cells, later, ?_, rfl⟩
    simp only [State.bind, absent]
    exact agree

end

end Lox.Lexical
