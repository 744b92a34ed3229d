import Lox.Proofs.Dispatch.Settled
import Lox.Proofs.Evaluation.Restoration

/-!
# Operations on settled stores

`Keeps` is what every evaluation does from a machine with a settled store, whether it gives a value or
halts: it comes back to where it was, and the store has grown and is settled again. The operations on
names, functions, classes and properties do so where their code lodges.
-/

namespace Lox

variable {α β : Type} {L : List Lookup} {g : FrameId} {near : Store.Near} {m m' : Machine}

/-- The outcome of a run from the machine `m`: the place is the same, the store has grown and is settled,
and a value has the property. -/
def Keeps (L : List Lookup) (g : FrameId) (near : Store.Near) (m : Machine)
    (P : α → Machine → Prop) : EStateM.Result Halt Machine α → Prop
  | .ok a m' => (m.SamePlace m' ∧ m.store.Later near m'.store ∧ Settled L g m'.store) ∧ P a m'
  | .error _ m' => m.SamePlace m' ∧ m.store.Later near m'.store ∧ Settled L g m'.store

/-- What may come to be closed over later on is closer: less, or over a frame that is new. -/
def Closer (m : Machine) (near near' : Store.Near) : Prop :=
  ∀ f ids, near' = some (f, ids) →
    m.store.frames.size ≤ f.index ∨ ∃ ids', near = some (f, ids') ∧ ids ⊆ ids'

theorem Closer.refl (m : Machine) (near : Store.Near) : Closer m near near :=
  fun _ ids same => .inr ⟨ids, same, List.Subset.refl ids⟩

theorem Closer.none (m : Machine) (near : Store.Near) : Closer m near none := nofun

/-- A part of the code is closer than the whole. -/
theorem Closer.part {ids ids' : List NodeId} (place : m.SamePlace m') (among : ids' ⊆ ids) :
    Closer m (some (m.current, ids)) (some (m'.current, ids')) := by
  intro f _ same
  cases same
  rw [place.current]
  exact .inr ⟨ids, rfl, among⟩

/-- A new frame is closer than any old one. -/
theorem Closer.fresh {frame : FrameId} (fresh : m.store.frames.size ≤ frame.index)
    (near : Store.Near) (ids : List NodeId) : Closer m near (some (frame, ids)) := by
  intro f _ same
  cases same
  exact .inl fresh

namespace Keeps

variable {P : α → Machine → Prop} {Q : β → Machine → Prop}

theorem imp {r : EStateM.Result Halt Machine α} {R : α → Machine → Prop}
    (outcome : Keeps L g near m P r) (weaker : ∀ a m', r = .ok a m' → P a m' → R a m') :
    Keeps L g near m R r := by
  cases r with
  | ok a m' => exact ⟨outcome.1, weaker a m' rfl outcome.2⟩
  | error halt m' => exact outcome

/-- What comes after may be near another frame than what comes first. -/
theorem bind_of {x : Run α} {next : α → Run β} (first : Keeps L g near m P (x m))
    (rest : ∀ a m', x m = .ok a m' → m.SamePlace m' → m.store.Later near m'.store →
      Settled L g m'.store → P a m' →
      ∃ near', Closer m near near' ∧ Keeps L g near' m' Q (next a m')) :
    Keeps L g near m Q ((x >>= next) m) := by
  change Keeps L g near m Q (EStateM.bind x next m)
  unfold EStateM.bind
  cases ran : x m with
  | error halt m' =>
    rw [ran] at first
    exact first
  | ok a m' =>
    rw [ran] at first
    obtain ⟨⟨place, later, settled⟩, holds⟩ := first
    obtain ⟨near', closer, second⟩ := rest a m' ran place later settled holds
    dsimp only
    cases ended : next a m' with
    | ok b m'' =>
      rw [ended] at second
      obtain ⟨⟨place', later', settled'⟩, holds'⟩ := second
      exact ⟨⟨place.trans place', later.trans_of later' closer, settled'⟩, holds'⟩
    | error halt m'' =>
      rw [ended] at second
      obtain ⟨place', later', settled'⟩ := second
      exact ⟨place.trans place', later.trans_of later' closer, settled'⟩

theorem bind {x : Run α} {next : α → Run β} (first : Keeps L g near m P (x m))
    (rest : ∀ a m', x m = .ok a m' → m.SamePlace m' → m.store.Later near m'.store →
      Settled L g m'.store → P a m' → Keeps L g near m' Q (next a m')) :
    Keeps L g near m Q ((x >>= next) m) :=
  first.bind_of fun a m' ran place later settled holds =>
    ⟨near, Closer.refl m near, rest a m' ran place later settled holds⟩

/-- Of a run that gives a value it can be noted where the machine is and how the store has grown. -/
theorem noting {r : EStateM.Result Halt Machine α} (outcome : Keeps L g near m P r) :
    Keeps L g near m (fun a m' => m.SamePlace m' ∧ m.store.Later near m'.store ∧ P a m') r := by
  cases r with
  | ok a m' => exact ⟨outcome.1, outcome.1.1, outcome.1.2.1, outcome.2⟩
  | error halt m' => exact outcome

/-- What is known near a closer frame holds near the other one too. -/
theorem closer {near' : Store.Near} {r : EStateM.Result Halt Machine α}
    (outcome : Keeps L g near' m P r) (close : Closer m near near') : Keeps L g near m P r := by
  have farther {s : Store} (later : m.store.Later near' s) : m.store.Later near s :=
    (Store.Later.refl near m.store).trans_of later close
  cases r with
  | ok a m' =>
    obtain ⟨⟨place, later, settled⟩, holds⟩ := outcome
    exact ⟨⟨place, farther later, settled⟩, holds⟩
  | error halt m' =>
    obtain ⟨place, later, settled⟩ := outcome
    exact ⟨place, farther later, settled⟩

/-- What happens apart from every old frame happens near any frame. -/
theorem weaken {r : EStateM.Result Halt Machine α} (outcome : Keeps L g none m P r)
    (near : Store.Near) : Keeps L g near m P r :=
  outcome.closer (Closer.none m near)

end Keeps

/-! ### Steps -/

section

variable {P : α → Machine → Prop}

theorem keeps_pure (settled : Settled L g m.store) {a : α} (holds : P a m) :
    Keeps L g near m P ((pure a : Run α) m) :=
  ⟨⟨.refl m, .refl near m.store, settled⟩, holds⟩

theorem keeps_fault (settled : Settled L g m.store) (cause : Fault) (line : Nat) :
    Keeps L g near m P (Run.fault cause line m) := ⟨.refl m, .refl near m.store, settled⟩

theorem keeps_ask (settled : Settled L g m.store) (f : Machine → α) :
    Keeps L g near m (fun a m' => a = f m ∧ m' = m) (Run.ask f m) :=
  keeps_pure settled ⟨rfl, rfl⟩

theorem keeps_ofExcept (settled : Settled L g m.store) (line : Nat) (result : Except Fault α) :
    Keeps L g near m (fun a m' => result = .ok a ∧ m' = m) (Run.ofExcept line result m) := by
  cases result with
  | ok a => exact keeps_pure settled ⟨rfl, rfl⟩
  | error cause => exact keeps_fault settled cause line

theorem keeps_read (settled : Settled L g m.store) (line : Nat) (f : Machine → Except Fault α) :
    Keeps L g near m (fun a m' => f m = .ok a ∧ m' = m) (Run.read line f m) := by
  apply (keeps_ask settled f).bind
  rintro _ m' - - - settled ⟨rfl, rfl⟩
  exact keeps_ofExcept settled line (f m')

theorem keeps_onStore {change : Store → α × Store}
    (later : m.store.Later near (change m.store).2) (settled : Settled L g (change m.store).2)
    (holds : P (change m.store).1 { m with store := (change m.store).2 }) :
    Keeps L g near m P (Run.onStore change m) := ⟨⟨⟨⟨rfl, rfl, rfl⟩, rfl⟩, later, settled⟩, holds⟩

theorem keeps_define (settled : Settled L g m.store) (frame : FrameId) {name : String}
    (plain : IsPlain name) (value : Value) :
    Keeps L g near m (fun _ _ => True) (Run.define frame name value m) :=
  keeps_onStore (.define near m.store frame plain value) (settled.define frame plain value) trivial

/-- A body in a frame of its own keeps what it keeps there. -/
theorem Keeps.inFrame {frame : FrameId} {body : Run α}
    (within : Keeps L g near { m with current := frame } P (body { m with current := frame })) :
    Keeps L g near m (fun a m' => P a { m' with current := frame })
      (Run.inFrame frame body m) := by
  unfold Run.inFrame
  dsimp only
  cases ran : body { m with current := frame } with
  | ok a m' =>
    rw [ran] at within
    obtain ⟨⟨place, later, settled⟩, holds⟩ := within
    refine ⟨⟨⟨⟨rfl, place.globals, place.callDepth⟩, place.distances⟩, later, settled⟩, ?_⟩
    -- the body has ended in its frame
    have same : m' = { m' with current := frame } := by
      obtain ⟨_, _, _, _, _, _, _, _⟩ := m'
      cases place.current
      rfl
    exact same ▸ holds
  | error halt m' =>
    rw [ran] at within
    obtain ⟨place, later, settled⟩ := within
    exact ⟨⟨⟨rfl, place.globals, place.callDepth⟩, place.distances⟩, later, settled⟩

theorem Keeps.nested {body : Run α} (settled : Settled L g m.store) (line : Nat)
    (within : Keeps L g near { m with callDepth := m.callDepth + 1 } (fun _ _ => True)
      (body { m with callDepth := m.callDepth + 1 })) :
    Keeps L g near m (fun _ _ => True) (Run.nested line body m) := by
  unfold Run.nested
  split
  · exact keeps_fault settled _ line
  · cases ran : body { m with callDepth := m.callDepth + 1 } with
    | ok a m' =>
      rw [ran] at within
      obtain ⟨⟨place, later, settled⟩, -⟩ := within
      have depth : m'.callDepth = m.callDepth + 1 := place.callDepth
      exact ⟨⟨⟨⟨place.current, place.globals, by simp [depth]⟩, place.distances⟩, later, settled⟩,
        trivial⟩
    | error halt m' =>
      rw [ran] at within
      obtain ⟨place, later, settled⟩ := within
      have depth : m'.callDepth = m.callDepth + 1 := place.callDepth
      exact ⟨⟨⟨place.current, place.globals, by simp [depth]⟩, place.distances⟩, later, settled⟩

theorem keeps_print (settled : Settled L g m.store) (value : Value) :
    Keeps L g near m (fun _ _ => True) (Run.print value m) := by
  unfold Run.print
  dsimp only
  split
  · exact ⟨⟨⟨⟨rfl, rfl, rfl⟩, rfl⟩, .refl near m.store, settled⟩, trivial⟩
  · exact ⟨⟨⟨rfl, rfl, rfl⟩, rfl⟩, .refl near m.store, settled⟩

theorem keeps_flush (settled : Settled L g m.store) :
    Keeps L g near m (fun _ _ => True) (Run.flush m) := by
  unfold Run.flush
  split
  · exact keeps_pure settled trivial
  · exact ⟨.refl m, .refl near m.store, settled⟩

theorem keeps_callNative (settled : Settled L g m.store) (f : Native) :
    Keeps L g near m (fun _ _ => True) (Run.callNative f m) := by
  cases f with
  | clock => exact ⟨⟨⟨⟨rfl, rfl, rfl⟩, rfl⟩, .refl near m.store, settled⟩, trivial⟩

theorem keeps_checkArity (settled : Settled L g m.store) (expected given line : Nat) :
    Keeps L g near m (fun _ m' => m' = m) (Run.checkArity expected given line m) := by
  unfold Run.checkArity
  split
  · exact keeps_pure settled rfl
  · exact keeps_fault settled _ line

end

/-! ### Functions and classes -/

section

variable {Γ : Scopes}

theorem keeps_declareFunction (settled : Settled L g m.store) {d : FunctionDecl}
    (lodged : Lodged m.store g d.ids m.current Γ) (plain : IsPlain d.name.text)
    (code : d.Scoped L (Γ.mark d.name.text .defined)) (distinct : d.ids.Nodup) :
    Keeps L g near m (fun _ _ => True) (Run.declareFunction d m) := by
  apply (keeps_ask settled (·.current)).bind
  rintro frame m' - - - settled ⟨rfl, rfl⟩
  have callable : Callable L g m'.store ⟨d, m'.current, false⟩ :=
    ⟨distinct, _, lodged.mark plain .defined, code⟩
  apply (keeps_onStore (.addFunction near m'.store _) (settled.addFunction callable)
    (P := fun _ _ => True) trivial).bind
  intro f m₁ _ _ _ settled _
  exact keeps_define settled _ plain _

/-- What is known of the frame that the methods of a class close over. -/
structure Encloses (g : FrameId) (m : Machine) (superclass : Option ClassId)
    (ids : List NodeId) (Γ : Scopes) (frame : FrameId) (m' : Machine) : Prop where
  lodged : Lodged m'.store g ids frame (Γ.ofMethods superclass.isSome)
  super : m'.store.binding? frame Keyword.super.spelling = superclass.map .class_
  unused : m'.store.Unused frame ids
  here : frame = m.current ∨ m.store.frames.size ≤ frame.index
  classes : m'.store.classes = m.store.classes

theorem keeps_declareMethods (settled : Settled L g m.store) (superclass : Option ClassId)
    {methods : List FunctionDecl} (lodged : Lodged m.store g (methodIds methods) m.current Γ)
    (vacant : m.store.binding? m.current Keyword.super.spelling = none)
    (unused : m.store.Unused m.current (methodIds methods)) :
    Keeps L g none m (fun table m' => ∃ frame, table = methodTable frame methods ∧
        Encloses g m superclass (methodIds methods) Γ frame m')
      (Run.declareMethods superclass methods m) := by
  -- the table is made in whatever frame is current then
  have table {m' : Machine} (settled : Settled L g m'.store) : Keeps L g none m' _ _ :=
    keeps_ask settled fun m => methodTable m.current methods
  cases superclass with
  | none =>
    refine (table settled).imp ?_
    rintro _ m' - ⟨rfl, rfl⟩
    exact ⟨_, rfl, lodged, vacant, unused, .inl rfl, rfl⟩
  | some parent =>
    apply (keeps_ask settled (·.current)).bind
    rintro outside m' - - - settled ⟨rfl, rfl⟩
    let bindings : Table Value := Table.insert ∅ Keyword.super.spelling (.class_ parent)
    let added := m'.store.addFrame bindings (some m'.current)
    have here := lodged.present settled.root
    have later : m'.store.Later none added.2 := .addFrame none m'.store bindings (some m'.current)
    have bound : added.2.binding? added.1 Keyword.super.spelling = some (.class_ parent) :=
      m'.store.binding?_addFrame_self bindings _ _
    apply (keeps_onStore (P := fun frame m₁ => frame = added.1 ∧ m₁.store = added.2) later
      (settled.addFrame bindings here) ⟨rfl, rfl⟩).bind
    rintro frame m₁ - - - settled₁ ⟨rfl, store⟩
    have settled₁ : Settled L g { m₁ with current := added.1 : Machine }.store := settled₁
    refine (Keeps.inFrame (table settled₁)).imp ?_
    rintro _ m₂ - ⟨rfl, same⟩
    have store : m₂.store = added.2 := (congrArg Machine.store same).trans store
    refine ⟨_, rfl, ?_, ?_, ?_, .inr (Nat.le_refl _), ?_⟩
    · rw [store]
      exact .parent (m'.store.enclosing?_addFrame_self bindings _)
        (lodged.later settled.root later) rfl rfl bound
        (m'.store.binding?_addFrame_self bindings _ _)
    · rw [store]
      exact bound
    · rw [store]
      exact settled.unused_addFrame bindings _ _
    · rw [store]
      rfl

theorem keeps_declareClass (settled : Settled L g m.store) {name : Name}
    (plain : IsPlain name.text) (superclass : Option ClassId) {methods : List FunctionDecl}
    (lodged : Lodged m.store g (methodIds methods) m.current Γ)
    (vacant : m.store.binding? m.current Keyword.super.spelling = none)
    (unused : m.store.Unused m.current (methodIds methods)) (distinct : (methodIds methods).Nodup)
    (code : methodsScoped L (Scope.of [Keyword.this.spelling] ::
      (Γ.mark name.text .defined).ofMethods superclass.isSome) methods) :
    Keeps L g (some (m.current, methodIds methods)) m
      (fun _ m' => m'.store.binding? m.current name.text = some (.class_ ⟨m.store.classes.size⟩) ∧
        ∃ frame, m'.store.classAt? ⟨m.store.classes.size⟩ =
          some ⟨name.text, superclass, methodTable frame methods⟩)
      (Run.declareClass name superclass methods m) := by
  have inside := keeps_declareMethods settled superclass (lodged.mark plain .defined) vacant unused
  apply (inside.weaken _).bind_of
  rintro _ m₁ - place later settled₁ ⟨frame, rfl, encloses⟩
  -- the new class is near the frame that its methods close over, which is the current one or new
  refine ⟨some (frame, methodIds methods), ?_, ?_⟩
  · rcases encloses.here with rfl | fresh
    · exact .refl m _
    · exact .fresh fresh _ _
  · let cls : Class := ⟨name.text, superclass, methodTable frame methods⟩
    have new : (m₁.store.addClass cls).1 = ⟨m.store.classes.size⟩ := by
      rw [← encloses.classes]
      rfl
    apply (keeps_onStore (P := fun c m₂ => c = ⟨m.store.classes.size⟩ ∧
        m₂.store.classAt? c = some cls ∧ m₂.current = m.current) (.addClass rfl)
      (settled₁.addClass encloses.lodged code distinct encloses.super encloses.unused)
      ⟨new, m₁.store.classAt?_addClass cls, place.current⟩).bind
    rintro c m₂ - - later₂ settled₂ ⟨rfl, added, current⟩
    apply (keeps_ask settled₂ (·.current)).bind
    rintro _ m₃ - - - settled₃ ⟨rfl, rfl⟩
    rw [current]
    have here := later₂.present (later.present (lodged.present settled.root))
    exact keeps_onStore (.define _ m₃.store _ plain _) (settled₃.define _ plain _)
      ⟨Store.binding?_define_self _ _ here, frame, added⟩

end

/-! ### Calls and properties -/

theorem keeps_bindValue (settled : Settled L g m.store) {c : ClassId} {method : Closure}
    {i : InstanceId} (declares : m.store.Declares c method) (isA : m.store.IsA i c) :
    Keeps L g near m (fun _ _ => True)
      (Run.onStore (·.bindValue method (.instance_ i)) m) := by
  obtain ⟨later, bound, callable⟩ := settled.bind declares isA
  refine keeps_onStore ?_ (bound.addFunction callable) trivial
  exact (later.trans (.addFunction none _ _)).weaken near

theorem keeps_bind (settled : Settled L g m.store) {c : ClassId} {method : Closure}
    {i : InstanceId} (declares : m.store.Declares c method) (isA : m.store.IsA i c) :
    Keeps L g near m (fun closure m' => Callable L g m'.store closure)
      (Run.onStore (·.bind method (.instance_ i)) m) := by
  obtain ⟨later, bound, callable⟩ := settled.bind declares isA
  exact keeps_onStore (later.weaken near) bound callable

theorem keeps_addInstance (settled : Settled L g m.store) (c : ClassId) :
    Keeps L g near m (fun i m' => m'.store.IsA i c) (Run.onStore (·.addInstance c) m) := by
  have isA : (m.store.addInstance c).2.IsA (m.store.addInstance c).1 c :=
    ⟨⟨c, ∅⟩, by simp [Store.instanceAt?, Store.addInstance], .refl c⟩
  exact keeps_onStore (.addInstance near m.store c) (settled.addInstance c) isA

/-- The initializer of a class is a method of it or of a class above it. -/
theorem keeps_bindInitializer (settled : Settled L g m.store) {c : ClassId} {method : Closure}
    {i : InstanceId} (found : m.store.initializer? c = some method) (isA : m.store.IsA i c) :
    Keeps L g near m (fun closure m' => Callable L g m'.store closure)
      (Run.onStore (·.bind method (.instance_ i)) m) := by
  obtain ⟨c', above, declares⟩ := Store.declares_of_findMethod found
  obtain ⟨object, present, descends⟩ := isA
  exact keeps_bind settled declares ⟨object, present, descends.trans above⟩

theorem keeps_getProperty (settled : Settled L g m.store) (object : Value) (name : Name) :
    Keeps L g near m (fun _ _ => True) (Run.getProperty object name m) := by
  cases object with
  | instance_ i =>
    apply (keeps_read settled name.line (·.store.property i name.text)).bind
    rintro property m' - - - settled ⟨found, rfl⟩
    cases property with
    | field value => exact keeps_pure settled trivial
    | method closure =>
      obtain ⟨object, present, has⟩ := Store.findMethod_of_property found
      obtain ⟨c, descends, declares⟩ := Store.declares_of_findMethod has
      exact keeps_bindValue settled declares ⟨object, present, descends⟩
  | nil | bool _ | number _ | string _ | native _ | function _ | class_ _ =>
    exact keeps_fault settled _ name.line

theorem keeps_setField (settled : Settled L g m.store) (i : InstanceId) (name : Name)
    (value : Value) : Keeps L g near m (fun _ _ => True) (Run.setField i name value m) :=
  keeps_onStore (.setField near m.store i name.text value) (settled.setField i name.text value) trivial

theorem keeps_assign (settled : Settled L g m.store) (id : NodeId) {name : Name}
    (plain : IsPlain name.text) (value : Value) :
    Keeps L g near m (fun _ _ => True) (Run.assign id name value m) := by
  apply (keeps_read settled name.line (·.target id name.text)).bind
  rintro frame m' - - - settled ⟨-, rfl⟩
  exact keeps_define settled frame plain value

/-- The names of a scope that is opened with plain names are plain. -/
theorem scope_plain {names : List String} (plain : ∀ x ∈ names, IsPlain x) (x : String)
    (notPlain : ¬ IsPlain x) : (Scope.of names).get? x = none := by
  rw [Scope.of, Table.get?_insertAll_of_notMem]
  · rfl
  · intro pair member same
    obtain ⟨name, declared, rfl⟩ := List.mem_map.mp member
    exact notPlain (same ▸ plain name declared)

/-- The frame of a block is a new one, with room for the statements of the block. -/
theorem keeps_blockFrame (settled : Settled L g m.store) {body : List Stmt} {Γ : Scopes}
    (lodged : Lodged m.store g (statementIds body) m.current Γ)
    (distinct : (statementIds body).Nodup) :
    Keeps L g near m (fun frame m' => m.store.frames.size ≤ frame.index ∧
        Room g m'.store frame (statementIds body) (Scope.of [] :: Γ))
      (Run.onStore (·.addFrame ∅ (some m.current)) m) :=
  keeps_onStore (.addFrame near m.store ∅ _) (settled.addFrame ∅ (lodged.present settled.root))
    ⟨Nat.le_refl _, settled.room lodged distinct (fun _ _ => rfl) (scope_plain (by rintro _ ⟨⟩))⟩

/-- The frame of a call is a new one, with room for the body of the function. -/
theorem keeps_callFrame (settled : Settled L g m.store) {closure : Closure}
    (callable : Callable L g m.store closure) (arguments : List Value) :
    Keeps L g near m (fun frame m' => m.store.frames.size ≤ frame.index ∧ ∃ Γ,
        Room g m'.store frame (statementIds closure.declaration.body) Γ ∧
        statementsScoped L Γ closure.declaration.body)
      (Run.callFrame closure arguments m) := by
  obtain ⟨⟨name, parameters, body⟩, outer, isInitializer⟩ := closure
  obtain ⟨distinct, Γ, lodged, code⟩ := callable
  rw [FunctionDecl.Scoped] at code
  obtain ⟨-, plain, code⟩ := code
  have plain : ∀ x ∈ parameters.map (·.text), IsPlain x := by
    intro x member
    obtain ⟨p, declared, rfl⟩ := List.mem_map.mp member
    exact plain p declared
  let bindings : Table Value := Table.insertAll ∅ ((parameters.map (·.text)).zip arguments)
  have vacant (x : String) (notPlain : ¬ IsPlain x) : bindings.get? x = none := by
    rw [Table.get?_insertAll_of_notMem]
    · rfl
    · intro pair member same
      exact notPlain (same ▸ plain pair.1 (List.of_mem_zip member).1)
  have later : m.store.Later near _ := .addFrame near m.store bindings (some outer)
  have settled' : Settled L g (m.store.addFrame bindings (some outer)).2 :=
    settled.addFrame bindings (lodged.present settled.root)
  have room := settled.room lodged distinct vacant (scope_plain plain)
  unfold Run.callFrame
  exact keeps_onStore later settled' ⟨Nat.le_refl _, _, room, code⟩

theorem keeps_callResult (settled : Settled L g m.store) (closure : Closure) (flow : Flow) :
    Keeps L g near m (fun _ _ => True) (Run.callResult closure flow m) := by
  unfold Run.callResult
  split
  · exact (keeps_read settled _ _).imp fun _ _ _ _ => trivial
  · cases flow with
    | «return» value => exact keeps_pure settled trivial
    | next value => exact keeps_pure settled trivial

/-! ### `this` and `super` -/

/-- The outcomes of all look-ups are on record. -/
def Recorded (L : List Lookup) (m : Machine) : Prop := ∀ l ∈ L, m.distances[l.id]? = l.depth

theorem Recorded.of_place (recorded : Recorded L m) (place : m.SamePlace m') : Recorded L m' := by
  intro l member
  rw [place.distances]
  exact recorded l member

/-- The machine runs code of a method of the class, or of a function nested in it: the nearest frame that
binds `this` is one in which a method of the class was bound, and the node belongs to this method. -/
def Machine.RunsIn (m : Machine) (id : NodeId) (c : ClassId) : Prop :=
  ∃ frame method, m.store.holder? m.current Keyword.this.spelling = some frame ∧
    m.store.enclosing? frame = some method.frame ∧ m.store.Declares c method ∧
    id ∈ method.declaration.ids

theorem Store.ancestor?_succ {s : Store} {f frame outer : FrameId} {d : Nat}
    (reached : s.ancestor? f d = some frame) (link : s.enclosing? frame = some outer) :
    s.ancestor? f (d + 1) = some outer := by
  induction d generalizing f with
  | zero =>
    cases reached
    rw [ancestor?, link]
    rfl
  | succ d ih =>
    rw [ancestor?] at reached ⊢
    cases up : s.enclosing? f with
    | none =>
      rw [up] at reached
      cases reached
    | some next =>
      rw [up] at reached
      exact ih reached

theorem Store.getAt_of_bound {s : Store} {f frame : FrameId} {d : Nat} {name : String}
    {value : Value} (reached : s.ancestor? f d = some frame)
    (bound : s.binding? frame name = some value) : s.getAt f d name = .ok value := by
  rw [getAt, ancestor, reached]
  change s.bound frame name = _
  rw [Store.bound, bound]

/-- Only one class runs at a node. -/
theorem Machine.RunsIn.unique {id : NodeId} {c c' : ClassId} (settled : Settled L g m.store)
    (runs : m.RunsIn id c) (runs' : m.RunsIn id c') : c = c' := by
  obtain ⟨frame, method, nearest, link, declares, inside⟩ := runs
  obtain ⟨frame', method', nearest', link', declares', inside'⟩ := runs'
  obtain rfl : frame = frame' := Option.some.inj (nearest.symm.trans nearest')
  have same : method.frame = method'.frame := Option.some.inj (link.symm.trans link')
  exact settled.unique c c' method method' declares declares' same id inside inside'

section

variable {Γ : Scopes} {id : NodeId} {keyword : Name}

/-- At `this` the machine runs code of a class, and finds an instance of this class or of one below it. -/
theorem lookUp_this (settled : Settled L g m.store) (recorded : Recorded L m)
    (lodged : Lodged m.store g [id] m.current Γ) (code : (Expr.this keyword id).Scoped L Γ) :
    ∃ c i, m.RunsIn id c ∧ m.store.IsA i c ∧ m.lookUp id keyword.text = .ok (.instance_ i) := by
  rw [Expr.Scoped] at code
  obtain ⟨spelt, d, held, looked⟩ := code
  obtain ⟨frame, c, method, i, reached, nearest, bound, link, declares, inside, isA⟩ :=
    lodged.receiver_of_depth settled.back held.1
  refine ⟨c, i, ⟨frame, method, nearest, link, declares, inside List.mem_cons_self⟩, isA, ?_⟩
  rw [Machine.lookUp, show m.distances[id]? = some d from recorded _ looked, spelt]
  exact Store.getAt_of_bound reached bound

/-- At `super` the machine runs code of a derived class, and finds the superclass that this class was
declared with, and the same instance that `this` stands for. -/
theorem lookUpSuper_class {method : Name} (settled : Settled L g m.store) (recorded : Recorded L m)
    (lodged : Lodged m.store g [id] m.current Γ)
    (code : (Expr.super keyword method id).Scoped L Γ) :
    ∃ c parent i, m.RunsIn id c ∧ m.store.IsA i c ∧ m.store.superclass? c = some parent ∧
      m.store.get m.current Keyword.this.spelling = .ok (.instance_ i) ∧
      m.lookUpSuper id = .ok (parent, .instance_ i) := by
  rw [Expr.Scoped] at code
  obtain ⟨-, d, this, super, looked⟩ := code
  obtain ⟨frame, c, own, i, reached, nearest, bound, link, declares, inside, isA⟩ :=
    lodged.receiver_of_depth settled.back this.1
  obtain ⟨frame', outer, parent, reached', link', bound'⟩ := lodged.parent_of_depth this.1 super.1
  obtain rfl : frame = frame' := Option.some.inj (reached.symm.trans reached')
  obtain rfl : own.frame = outer := Option.some.inj (link.symm.trans link')
  -- the superclass in the frame is the one that the class was declared with
  have up : m.store.superclass? c = some parent := by
    have given := settled.super c own declares
    rw [bound'] at given
    obtain ⟨parent', up, same⟩ := Option.map_eq_some_iff.mp given.symm
    cases same
    exact up
  refine ⟨c, parent, i, ⟨frame, own, nearest, link, declares, inside List.mem_cons_self⟩, isA, up, ?_, ?_⟩
  · rw [Store.get, Store.holder, nearest]
    change m.store.bound frame _ = _
    rw [Store.bound, bound]
  · rw [Machine.lookUpSuper, show m.distances[id]? = some (d + 1) from recorded _ looked]
    dsimp only
    rw [Store.getAt_of_bound (Store.ancestor?_succ reached link) bound',
      Store.getAt_of_bound reached bound]
    rfl

theorem keeps_superMethod {method : Name} (settled : Settled L g m.store) (recorded : Recorded L m)
    (lodged : Lodged m.store g [id] m.current Γ)
    (code : (Expr.super keyword method id).Scoped L Γ) :
    Keeps L g near m (fun _ _ => True) (Run.superMethod keyword method id m) := by
  obtain ⟨c, parent, i, -, ⟨object, present, descends⟩, up, -, found⟩ :=
    lookUpSuper_class settled recorded lodged code
  apply (keeps_read settled keyword.line (·.lookUpSuper id)).bind
  rintro _ m' - - - settled ⟨found', rfl⟩
  cases found.symm.trans found'
  apply (keeps_ask settled (·.store.findMethod parent method.text)).bind
  rintro _ m' - - - settled ⟨rfl, rfl⟩
  cases has : m'.store.findMethod parent method.text with
  | none => exact keeps_fault settled _ method.line
  | some closure =>
    -- the instance is of a class below the one that declares the method
    obtain ⟨c', above, declares⟩ := Store.declares_of_findMethod has
    exact keeps_bindValue settled declares ⟨object, present, descends.trans (.step up above)⟩

end

end Lox
