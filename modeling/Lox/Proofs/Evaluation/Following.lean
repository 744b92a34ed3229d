import Lox.Proofs.Evaluation.Relining

/-!
# Runs that follow each other

A machine can be changed where it should make no difference to a run: all its code stands on other lines,
and nodes that the code does not have are given other distances. A run follows another one if on the
changed machine it does what the other one does: it gives the same value, or halts in the same way with
its line changed, and what it leaves behind is the changed machine.
-/

namespace Lox

/-! ### Bounds on identities -/

/-- All of the identities are below `b`. -/
def IdsBelow (b : NodeId) (ids : List NodeId) : Prop := ∀ i ∈ ids, i < b

theorem idsBelow_append {b : NodeId} {ids ids' : List NodeId} :
    IdsBelow b (ids ++ ids') ↔ IdsBelow b ids ∧ IdsBelow b ids' := List.forall_mem_append

theorem IdsBelow.mono {b b' : NodeId} {ids : List NodeId} (below : IdsBelow b ids) (more : b ≤ b') :
    IdsBelow b' ids := fun i member => Nat.lt_of_lt_of_le (below i member) more

def Closure.Below (b : NodeId) (closure : Closure) : Prop := IdsBelow b closure.declaration.ids

/-- All code of the store has its identities below `b`. -/
structure Store.Below (b : NodeId) (s : Store) : Prop where
  functions : ∀ f closure, s.functionAt? f = some closure → closure.Below b
  classes : ∀ c cls, s.classAt? c = some cls → cls.methods.All (Closure.Below b)

namespace Store.Below

variable {b b' : NodeId} {s s' : Store}

/-- The bound is on functions and classes alone. -/
theorem of_same (below : s.Below b) (functions : s'.functions = s.functions)
    (classes : s'.classes = s.classes) : s'.Below b := by
  refine ⟨fun f closure found => below.functions f closure ?_, fun c cls found =>
    below.classes c cls ?_⟩
  · rwa [functionAt?, functions] at found
  · rwa [classAt?, classes] at found

theorem mono (below : s.Below b) (more : b ≤ b') : s.Below b' :=
  ⟨fun f closure found => (below.functions f closure found).mono more,
    fun c cls found name method has => (below.classes c cls found name method has).mono more⟩

theorem addFunction (below : s.Below b) {closure : Closure} (code : closure.Below b) :
    (s.addFunction closure).2.Below b := by
  refine ⟨fun f other found => ?_, fun c cls found => below.classes c cls found⟩
  rw [functionAt?, Store.addFunction, Array.getElem?_push] at found
  split at found
  · cases found
    exact code
  · exact below.functions f other found

theorem addClass (below : s.Below b) {cls : Class} (code : cls.methods.All (Closure.Below b)) :
    (s.addClass cls).2.Below b := by
  refine ⟨fun f closure found => below.functions f closure found, fun c other found => ?_⟩
  rw [classAt?, Store.addClass, Array.getElem?_push] at found
  split at found
  · cases found
    exact code
  · exact below.classes c other found

theorem findMethod (below : s.Below b) (c : ClassId) (name : String) {method : Closure}
    (found : s.findMethod c name = some method) : method.Below b := by
  obtain ⟨index⟩ := c
  induction index using Nat.strongRecOn with
  | ind index ih =>
    rw [Store.findMethod] at found
    split at found
    · cases found
    · rename_i cls present
      split at found
      · rename_i own has
        cases found
        exact below.classes _ cls present name _ has
      · split at found
        · cases found
        · split at found
          · rename_i parent _ older
            exact ih parent.index older found
          · cases found

theorem empty (b : NodeId) : (∅ : Store).Below b := by
  constructor <;> intro _ _ found <;> cases found

end Store.Below

/-! ### Changes -/

/-- A change of machines: the lines that code comes to stand on, and the distances on record. No line
counts as line zero, and so it stays. -/
structure Change where
  line : Nat → Nat
  distances : Std.TreeMap NodeId Nat
  zero : line 0 = 0

namespace Change

def machine (c : Change) (m : Machine) : Machine :=
  { m with store := m.store.reline c.line, distances := c.distances }

/-- The change makes no difference to code with identities below `b`, and the machine has only such
code. -/
structure Suits (c : Change) (b : NodeId) (m : Machine) : Prop where
  distances : ∀ i, i < b → c.distances[i]? = m.distances[i]?
  below : m.store.Below b

variable {α β : Type}

/-- The second outcome is the changed first one, with values in the relation `R`. -/
def Mirrors (c : Change) (b : NodeId) (R : α → β → Prop) :
    EStateM.Result Halt Machine α → EStateM.Result Halt Machine β → Prop
  | .ok a m, .ok a' m' => R a a' ∧ m' = c.machine m ∧ c.Suits b m
  | .error halt m, .error halt' m' => halt' = halt.reline c.line ∧ m' = c.machine m ∧ c.Suits b m
  | _, _ => False

theorem Mirrors.cases {c : Change} {b : NodeId} {R : α → β → Prop}
    {one : EStateM.Result Halt Machine α} {other : EStateM.Result Halt Machine β}
    (mirrors : c.Mirrors b R one other) :
    (∃ a a' m, one = .ok a m ∧ other = .ok a' (c.machine m) ∧ R a a' ∧ c.Suits b m) ∨
      ∃ halt m, one = .error halt m ∧ other = .error (halt.reline c.line) (c.machine m) ∧
        c.Suits b m := by
  cases one <;> cases other
  · obtain ⟨related, rfl, suits⟩ := mirrors
    exact .inl ⟨_, _, _, rfl, rfl, related, suits⟩
  · exact mirrors.elim
  · exact mirrors.elim
  · obtain ⟨rfl, rfl, suits⟩ := mirrors
    exact .inr ⟨_, _, rfl, rfl, suits⟩

end Change

/-- On changed machines the second run does what the first one does on the machines that the change
suits. -/
def Run.Follows {α β : Type} (c : Change) (b : NodeId) (R : α → β → Prop) (x : Run α)
    (x' : Run β) : Prop :=
  ∀ m, c.Suits b m → c.Mirrors b R (x m) (x' (c.machine m))

namespace Run

section

variable {α β γ δ : Type} {c : Change} {b : NodeId} {R : α → β → Prop} {S : γ → δ → Prop}

/-! ### Steps -/

theorem follows_pure {a : α} {a' : β} (related : R a a') : Follows c b R (pure a) (pure a') :=
  fun _ suits => ⟨related, rfl, suits⟩

theorem follows_fault (cause : Fault) (line : Nat) :
    Follows c b R (fault cause line) (fault cause (c.line line)) :=
  fun _ suits => ⟨rfl, rfl, suits⟩

theorem Follows.bind {x : Run α} {x' : Run β} {next : α → Run γ} {next' : β → Run δ}
    (first : Follows c b R x x') (rest : ∀ a a', R a a' → Follows c b S (next a) (next' a')) :
    Follows c b S (x >>= next) (x' >>= next') := by
  intro m suits
  change c.Mirrors b S (EStateM.bind x next m) (EStateM.bind x' next' (c.machine m))
  unfold EStateM.bind
  rcases (first m suits).cases with ⟨a, a', m₁, one, other, related, suits₁⟩ |
    ⟨halt, m₁, one, other, suits₁⟩
  · rw [one, other]
    exact rest a a' related m₁ suits₁
  -- both have halted, and nothing follows
  · rw [one, other]
    exact ⟨rfl, rfl, suits₁⟩

/-- Runs with the same value go on alike. -/
theorem Follows.bindEq {x x' : Run α} {next : α → Run γ} {next' : α → Run δ}
    (first : Follows c b Eq x x') (rest : ∀ a, Follows c b S (next a) (next' a)) :
    Follows c b S (x >>= next) (x' >>= next') := by
  apply first.bind
  rintro a _ rfl
  exact rest a

theorem follows_ask {f : Machine → α} {f' : Machine → β}
    (same : ∀ m, c.Suits b m → R (f m) (f' (c.machine m))) : Follows c b R (ask f) (ask f') :=
  fun m suits => ⟨same m suits, rfl, suits⟩

theorem follows_ofExcept (line : Nat) (result : Except Fault α) :
    Follows c b Eq (ofExcept line result) (ofExcept (c.line line) result) := by
  cases result with
  | ok a => exact follows_pure rfl
  | error cause => exact follows_fault cause line

/-- What is read does not depend on the change. -/
theorem follows_read {f f' : Machine → Except Fault α} (line : Nat)
    (same : ∀ m, c.Suits b m → f' (c.machine m) = f m) :
    Follows c b Eq (read line f) (read (c.line line) f') := by
  apply Follows.bindEq (follows_ask fun m suits => (same m suits).symm)
  intro result
  exact follows_ofExcept line result

theorem follows_onStore {change : Store → α × Store} {change' : Store → β × Store}
    (same : ∀ s, s.Below b → R (change s).1 (change' (s.reline c.line)).1 ∧
      (change' (s.reline c.line)).2 = (change s).2.reline c.line ∧ (change s).2.Below b) :
    Follows c b R (onStore change) (onStore change') := by
  intro m suits
  obtain ⟨related, moved, below⟩ := same m.store suits.below
  refine ⟨related, ?_, suits.distances, below⟩
  exact congrArg (fun store => { c.machine m with store }) moved

theorem Follows.inFrame {body : Run α} {body' : Run β} (within : Follows c b R body body')
    (frame : FrameId) : Follows c b R (inFrame frame body) (inFrame frame body') := by
  intro m suits
  have moved := within { m with current := frame } ⟨suits.distances, suits.below⟩
  change c.Mirrors b R (Run.inFrame frame body m) (Run.inFrame frame body' (c.machine m))
  unfold Run.inFrame
  rcases moved.cases with ⟨a, a', m₁, one, other, related, suits₁⟩ | ⟨halt, m₁, one, other, suits₁⟩
  · rw [one, show body' { c.machine m with current := frame } = _ from other]
    exact ⟨related, rfl, suits₁.distances, suits₁.below⟩
  · rw [one, show body' { c.machine m with current := frame } = _ from other]
    exact ⟨rfl, rfl, suits₁.distances, suits₁.below⟩

theorem Follows.nested {body : Run α} {body' : Run β} (within : Follows c b R body body')
    (line : Nat) : Follows c b R (nested line body) (nested (c.line line) body') := by
  intro m suits
  unfold Run.nested
  by_cases deep : maxCallDepth ≤ m.callDepth
  · rw [if_pos deep, if_pos (show maxCallDepth ≤ (c.machine m).callDepth from deep)]
    exact ⟨rfl, rfl, suits⟩
  · rw [if_neg deep, if_neg (show ¬ maxCallDepth ≤ (c.machine m).callDepth from deep)]
    have moved := within { m with callDepth := m.callDepth + 1 } ⟨suits.distances, suits.below⟩
    rcases moved.cases with ⟨a, a', m₁, one, other, related, suits₁⟩ |
      ⟨halt, m₁, one, other, suits₁⟩
    · rw [one, show body' { c.machine m with callDepth := (c.machine m).callDepth + 1 } = _ from other]
      exact ⟨related, rfl, suits₁.distances, suits₁.below⟩
    · rw [one, show body' { c.machine m with callDepth := (c.machine m).callDepth + 1 } = _ from other]
      exact ⟨rfl, rfl, suits₁.distances, suits₁.below⟩

theorem follows_print (value : Value) : Follows c b Eq (print value) (print value) := by
  intro m suits
  rw [print, print,
    show (c.machine m).store.text value = m.store.text value from m.store.text_reline _ value,
    show (c.machine m).sink = m.sink from rfl]
  rcases m.sink.write (m.store.text value ++ "\n").toUTF8 with ⟨_ | e, sink⟩
  · exact ⟨rfl, rfl, suits.distances, suits.below⟩
  · exact ⟨rfl, rfl, suits.distances, suits.below⟩

theorem follows_flush : Follows c b Eq flush flush := by
  intro m suits
  unfold flush
  rw [show (c.machine m).sink = m.sink from rfl]
  cases m.sink.flush with
  | none => exact ⟨rfl, rfl, suits⟩
  | some e => exact ⟨rfl, rfl, suits⟩

theorem follows_callNative (f : Native) : Follows c b Eq (callNative f) (callNative f) := by
  cases f with
  | clock =>
    have clock : Follows c b Eq readClock readClock :=
      fun m suits => ⟨rfl, rfl, suits.distances, suits.below⟩
    exact clock.bindEq fun time => follows_pure rfl

end

/-! ### Operations -/

section

variable {c : Change} {b : NodeId}

/-- The same code on other lines, with its identities below the bound. -/
def Moved (c : Change) (b : NodeId) (closure closure' : Closure) : Prop :=
  closure' = closure.reline c.line ∧ closure.Below b

/-- Steps on frames and instances do not touch any code. -/
theorem follows_onStore_of_same {α : Type} {change : Store → α × Store}
    (same : ∀ s, (change (s.reline c.line)) = ((change s).1, (change s).2.reline c.line))
    (kept : ∀ s, (change s).2.functions = s.functions ∧ (change s).2.classes = s.classes) :
    Follows c b Eq (onStore change) (onStore change) := by
  refine follows_onStore fun s below => ?_
  rw [same s]
  exact ⟨rfl, rfl, below.of_same (kept s).1 (kept s).2⟩

theorem follows_define (frame : FrameId) (name : String) (value : Value) :
    Follows c b Eq (define frame name value) (define frame name value) :=
  follows_onStore_of_same (fun _ => rfl) fun _ => ⟨rfl, rfl⟩

theorem follows_addFrame (bindings : Table Value) (enclosing : Option FrameId) :
    Follows c b Eq (onStore (·.addFrame bindings enclosing))
      (onStore (·.addFrame bindings enclosing)) :=
  follows_onStore_of_same (fun _ => rfl) fun _ => ⟨rfl, rfl⟩

theorem follows_addInstance (cls : ClassId) :
    Follows c b Eq (onStore (·.addInstance cls)) (onStore (·.addInstance cls)) :=
  follows_onStore_of_same (fun _ => rfl) fun _ => ⟨rfl, rfl⟩

theorem follows_setField (i : InstanceId) (name : Name) (value : Value) :
    Follows c b Eq (setField i name value) (setField i (name.reline c.line) value) :=
  follows_onStore_of_same (fun _ => rfl) fun _ => ⟨rfl, rfl⟩

theorem follows_current : Follows c b Eq (ask (·.current)) (ask (·.current)) :=
  follows_ask fun _ _ => rfl

theorem follows_declareFunction {d : FunctionDecl} (code : IdsBelow b d.ids) :
    Follows c b Eq (declareFunction d) (declareFunction (d.reline c.line)) := by
  apply follows_current.bindEq
  intro frame
  apply Follows.bindEq (follows_onStore fun s below => ?_)
  · intro f
    rw [FunctionDecl.reline_name, Name.reline_text]
    exact follows_define frame d.name.text _
  · have added := s.addFunction_reline c.line ⟨d, frame, false⟩
    exact ⟨(congrArg Prod.fst added).symm, congrArg Prod.snd added, below.addFunction code⟩

/-- The methods of a class on other lines. -/
def MovedTable (c : Change) (b : NodeId) (table table' : Table Closure) : Prop :=
  table' = table.map (Closure.reline c.line) ∧ table.All (Closure.Below b)

theorem moved_methodTable (frame : FrameId) {methods : List FunctionDecl}
    (code : ∀ d ∈ methods, IdsBelow b d.ids) :
    MovedTable c b (methodTable frame methods)
      (methodTable frame (methods.map (FunctionDecl.reline c.line))) := by
  refine ⟨methodTable_reline c.line frame methods, (Table.All.empty _).insertAll fun pair member => ?_⟩
  obtain ⟨d, declared, rfl⟩ := List.mem_map.mp member
  exact code d declared

theorem follows_declareMethods (superclass : Option ClassId) {methods : List FunctionDecl}
    (code : ∀ d ∈ methods, IdsBelow b d.ids) :
    Follows c b (MovedTable c b) (declareMethods superclass methods)
      (declareMethods superclass (methods.map (FunctionDecl.reline c.line))) := by
  have read : Follows c b (MovedTable c b) (ask fun m => methodTable m.current methods)
      (ask fun m => methodTable m.current (methods.map (FunctionDecl.reline c.line))) :=
    follows_ask fun m _ => moved_methodTable m.current code
  cases superclass with
  | none => exact read
  | some parent =>
    apply follows_current.bindEq
    intro outside
    apply (follows_addFrame _ _).bindEq
    intro frame
    exact read.inFrame frame

theorem follows_declareClass (name : Name) (superclass : Option ClassId)
    {methods : List FunctionDecl} (code : ∀ d ∈ methods, IdsBelow b d.ids) :
    Follows c b Eq (declareClass name superclass methods)
      (declareClass (name.reline c.line) superclass
        (methods.map (FunctionDecl.reline c.line))) := by
  apply (follows_declareMethods superclass code).bind
  rintro table _ ⟨rfl, all⟩
  apply Follows.bindEq (follows_onStore fun s below => ?_)
  · intro cls
    apply follows_current.bindEq
    intro frame
    exact follows_define frame name.text _
  · have added := s.addClass_reline c.line ⟨name.text, superclass, table⟩
    exact ⟨(congrArg Prod.fst added).symm, congrArg Prod.snd added, below.addClass all⟩

theorem follows_checkArity (expected given line : Nat) :
    Follows c b Eq (checkArity expected given line) (checkArity expected given (c.line line)) := by
  unfold checkArity
  split
  · exact follows_pure rfl
  · exact follows_fault _ line

theorem follows_callFrame (closure : Closure) (arguments : List Value) :
    Follows c b Eq (callFrame closure arguments) (callFrame (closure.reline c.line) arguments) := by
  have names : (closure.reline c.line).declaration.parameters.map (·.text) =
      closure.declaration.parameters.map (·.text) := by
    simp [Function.comp_def]
  unfold callFrame
  rw [names]
  exact follows_addFrame _ _

theorem follows_callResult (closure : Closure) (flow : Flow) :
    Follows c b Eq (callResult closure flow) (callResult (closure.reline c.line) flow) := by
  unfold callResult
  rw [Closure.reline_isInitializer]
  split
  · rw [Closure.reline_declaration, FunctionDecl.reline_name]
    exact follows_read _ fun m _ => m.store.getAt_reline c.line closure.frame 0 _
  · cases flow with
    | «return» value => exact follows_pure rfl
    | next value => exact follows_pure rfl

/-- Binding a method goes along with the move of its code. -/
theorem follows_bindValue (method : Closure) (below : method.Below b) (receiver : Value) :
    Follows c b Eq (onStore (·.bindValue method receiver))
      (onStore (·.bindValue (method.reline c.line) receiver)) := by
  refine follows_onStore fun s store => ?_
  rw [s.bindValue_reline c.line method receiver]
  refine ⟨rfl, rfl, Store.Below.addFunction ?_ below⟩
  exact store.of_same rfl rfl

theorem follows_bind (method : Closure) (below : method.Below b) (receiver : Value) :
    Follows c b (Moved c b) (onStore (·.bind method receiver))
      (onStore (·.bind (method.reline c.line) receiver)) := by
  refine follows_onStore fun s store => ?_
  exact ⟨⟨rfl, below⟩, rfl, store.of_same rfl rfl⟩

/-! ### Names and properties -/

section

variable {m : Machine} {i : NodeId}

theorem lookUp_change (suits : c.Suits b m) (below : i < b) (name : String) :
    (c.machine m).lookUp i name = m.lookUp i name := by
  rw [Machine.lookUp, Machine.lookUp, show (c.machine m).distances[i]? = m.distances[i]? from
    suits.distances i below]
  split
  · exact m.store.getAt_reline c.line _ _ name
  · exact m.store.get_reline c.line _ name

theorem target_change (suits : c.Suits b m) (below : i < b) (name : String) :
    (c.machine m).target i name = m.target i name := by
  rw [Machine.target, Machine.target, show (c.machine m).distances[i]? = m.distances[i]? from
    suits.distances i below]
  split
  · exact m.store.ancestor_reline c.line _ _
  · exact m.store.holder_reline c.line _ name

theorem lookUpSuper_change (suits : c.Suits b m) (below : i < b) :
    (c.machine m).lookUpSuper i = m.lookUpSuper i := by
  unfold Machine.lookUpSuper
  rw [show (c.machine m).distances[i]? = m.distances[i]? from suits.distances i below]
  simp only [show (c.machine m).store = m.store.reline c.line from rfl, Store.getAt_reline,
    show (c.machine m).current = m.current from rfl]

end

theorem follows_assign {i : NodeId} (below : i < b) (name : Name) (value : Value) :
    Follows c b Eq (assign i name value) (assign i (name.reline c.line) value) := by
  apply (follows_read name.line fun m suits => target_change suits below name.text).bindEq
  intro frame
  exact follows_define frame name.text value

/-- A method that is found has moved with the rest of the code. -/
theorem moved_findMethod {m : Machine} (suits : c.Suits b m) (cls : ClassId) (name : String) :
    Option.Rel (Moved c b) (m.store.findMethod cls name)
      ((c.machine m).store.findMethod cls name) := by
  rw [show (c.machine m).store.findMethod cls name = _ from m.store.findMethod_reline c.line cls name]
  cases found : m.store.findMethod cls name with
  | none => exact .none
  | some method => exact .some ⟨rfl, suits.below.findMethod cls name found⟩

theorem follows_superMethod {i : NodeId} (below : i < b) (keyword method : Name) :
    Follows c b Eq (superMethod keyword method i)
      (superMethod (keyword.reline c.line) (method.reline c.line) i) := by
  apply (follows_read keyword.line fun m suits => lookUpSuper_change suits below).bindEq
  intro (parent, receiver)
  apply (follows_ask fun m suits => moved_findMethod suits parent method.text).bind
  intro found found' related
  cases related with
  | none => exact follows_fault _ method.line
  | some moved =>
    obtain ⟨rfl, below⟩ := moved
    exact follows_bindValue _ below receiver

theorem follows_getProperty (object : Value) (name : Name) :
    Follows c b Eq (getProperty object name) (getProperty object (name.reline c.line)) := by
  cases object with
  | instance_ i =>
    -- a method comes on other lines, so the property that is read is not the same
    have read : Follows c b
        (fun property property' => property' = property.reline c.line ∧
          ∀ closure, property = .method closure → closure.Below b)
        (read name.line (·.store.property i name.text))
        (read (c.line name.line) (·.store.property i name.text)) := by
      apply Follows.bind (R := fun x x' => x' = x.map (Store.Property.reline c.line) ∧
        ∀ closure, x = .ok (.method closure) → closure.Below b)
      · refine follows_ask fun m suits => ⟨m.store.property_reline c.line i name.text, ?_⟩
        intro closure found
        rw [Store.property] at found
        split at found
        · cases found
        · split at found
          · cases found
          · split at found
            · rename_i method has
              cases found
              exact suits.below.findMethod _ _ has
            · cases found
      · rintro x _ ⟨rfl, below⟩
        cases x with
        | error cause => exact follows_fault cause name.line
        | ok property =>
          refine follows_pure ⟨rfl, fun closure same => below closure ?_⟩
          rw [same]
    apply read.bind
    rintro property _ ⟨rfl, below⟩
    cases property with
    | field value => exact follows_pure rfl
    | method closure => exact follows_bindValue closure (below closure rfl) _
  | nil | bool _ | number _ | string _ | native _ | function _ | class_ _ =>
    exact follows_fault _ name.line

end

end Run

end Lox
