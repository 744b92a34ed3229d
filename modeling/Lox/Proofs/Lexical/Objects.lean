import Lox.Proofs.Lexical.Names

/-!
# Functions, classes and instances on both machines

Functions, classes and instances are made in the same order on both machines, so a value refers to the
same one on both. What is found in a class, in an instance or in the text of a value is therefore the
same, apart from the frame of a method and the environment that it stands for.
-/

namespace Lox.Lexical

section

variable {L : List Lookup} {g : FrameId} {near : Option FrameId} {cells cells' : List Slot}
  {m : Machine} {μ : State} {Γ : Scopes} {ρ : Env} {f : FrameId} {name : String} {value : Value}

/-! ### Finding -/

/-- The method found for a name is the same code on both machines. -/
theorem Agree.findMethod (agree : Agree L g cells m μ) (c : ClassId) (name : String) :
    Option.Rel (MethodsAgree L g cells m.store) (m.store.findMethod c name)
      (μ.findMethod c name) := by
  obtain ⟨index⟩ := c
  -- on the place of the class: a superclass is looked into only if it has been made before
  induction index using Nat.strongRecOn with
  | ind index ih =>
    rw [Store.findMethod, State.findMethod, Store.classAt?, State.classAt?]
    rcases optionRel_cases (agree.classes.places index) with
      ⟨left, right⟩ | ⟨cls, cls', left, right, both⟩
    · simp only [left, right]
      exact .none
    · simp only [left, right, both.superclass]
      rcases optionRel_cases (both.methods name) with ⟨left, right⟩ | ⟨_, _, left, right, both'⟩
      · simp only [left, right]
        cases cls.superclass with
        | none => exact .none
        | some parent =>
          dsimp only
          split
          · rename_i older
            exact ih parent.index older
          · exact .none
      · simp only [left, right]
        exact .some both'

theorem Agree.functionAt? (agree : Agree L g cells m μ) (f : FunctionId) :
    Option.Rel (FunctionsAgree L g cells m.store) (m.store.functionAt? f) (μ.functionAt? f) :=
  agree.functions.places f.index

theorem Agree.initializer? (agree : Agree L g cells m μ) (c : ClassId) :
    Option.Rel (MethodsAgree L g cells m.store) (m.store.initializer? c) (μ.initializer? c) :=
  agree.findMethod c initializerName

theorem Agree.classArity (agree : Agree L g cells m μ) (c : ClassId) :
    μ.classArity c = m.store.classArity c := by
  rw [State.classArity, Store.classArity]
  rcases optionRel_cases (agree.initializer? c) with ⟨left, right⟩ | ⟨_, _, left, right, both⟩
  · simp only [left, right]
  · obtain ⟨_, captures, _⟩ := both
    simp only [left, right, captures.declaration]

theorem Agree.instanceAt? (agree : Agree L g cells m μ) (i : InstanceId) :
    μ.instanceAt? i = m.store.instanceAt? i := by
  rw [State.instanceAt?, Store.instanceAt?, agree.instances]

theorem Agree.className (agree : Agree L g cells m μ) (c : ClassId) :
    μ.className c = m.store.className c := by
  rw [State.className, Store.className, State.classAt?, Store.classAt?]
  rcases optionRel_cases (agree.classes.places c.index) with
    ⟨left, right⟩ | ⟨_, _, left, right, both⟩
  · simp only [left, right, Option.map_none]
  · simp only [left, right, Option.map_some, both.name]

/-- A value is shown as the same text on both machines. -/
theorem Agree.text (agree : Agree L g cells m μ) (value : Value) :
    μ.text value = m.store.text value := by
  cases value with
  | bool b => cases b <;> rfl
  | function f =>
    rw [State.text, Store.text]
    rcases optionRel_cases (agree.functionAt? f) with ⟨left, right⟩ | ⟨_, _, left, right, both⟩
    · simp only [left, right, Option.map_none]
    · obtain ⟨_, captures, _⟩ := both
      simp only [left, right, Option.map_some, captures.declaration]
  | class_ c => exact agree.className c
  | instance_ i => simp only [State.text, Store.text, agree.instanceAt?, agree.className]
  | nil => rfl
  | number x => rfl
  | string s => rfl
  | native n => rfl

/-- A property of an instance on both machines. -/
inductive PropertiesAgree (L : List Lookup) (g : FrameId) (cells : List Slot) (s : Store) :
    Store.Property → State.Property → Prop
  | field (value : Value) : PropertiesAgree L g cells s (.field value) (.field value)
  | method {closure : Lox.Closure} {closure' : Closure}
      (both : MethodsAgree L g cells s closure closure') :
      PropertiesAgree L g cells s (.method closure) (.method closure')

theorem Agree.property (agree : Agree L g cells m μ) (i : InstanceId) (name : String) :
    LookUpsAgree (PropertiesAgree L g cells m.store) (m.store.property i name)
      (μ.property i name) := by
  rw [Store.property, State.property, agree.instanceAt?]
  -- a field hides the method of the same name on both machines
  cases m.store.instanceAt? i with
  | none => exact ⟨rfl, id⟩
  | some object =>
    dsimp only
    cases object.fields.get? name with
    | some value => exact .field value
    | none =>
      rcases optionRel_cases (agree.findMethod object.cls name) with
        ⟨left, right⟩ | ⟨_, _, left, right, both⟩
      · simp only [left, right]
        exact ⟨rfl, id⟩
      · simp only [left, right]
        exact .method both

/-! ### Making -/

/-- Machines agree when functions, classes and instances have changed together. -/
theorem Agree.withHeap (agree : Agree L g cells m μ) {s : Store}
    (same : s.frames = m.store.frames) {functions : Array Closure} {classes : Array Class}
    {instances : Array Instance}
    (functionsAgree : Aligned (FunctionsAgree L g cells m.store) s.functions functions)
    (classesAgree : Aligned (ClassesAgree L g cells m.store) s.classes classes)
    (instancesAgree : instances = s.instances) :
    Agree L g cells { m with store := s } { μ with functions, classes, instances } := by
  -- the frames are the same ones, so what stood for an environment still does
  have later : Later none cells m cells { m with store := s } := .of_frames_eq none cells same rfl
  obtain ⟨frames, _, _, _⟩ := s
  cases same
  exact {
    globals := agree.globals
    distances := agree.distances
    frames := ⟨agree.frames.root, agree.frames.globals, agree.frames.count, agree.frames.distinct,
      agree.frames.inside, agree.frames.values, agree.frames.covered⟩
    functions := functionsAgree.mono fun _ _ => .mono later
    classes := classesAgree.mono fun _ _ => .mono later
    instances := instancesAgree
    callDepth := agree.callDepth
    sink := agree.sink
    clock := agree.clock
    readings := agree.readings }

theorem matches_addFunction (agree : Agree L g cells m μ) {closure : Lox.Closure}
    {closure' : Closure} (both : FunctionsAgree L g cells m.store closure closure') :
    Matches L g none cells m Equal (Lox.Run.onStore (·.addFunction closure) m)
      (Run.onState (·.addFunction closure') μ) := by
  have made := agree.withHeap (s := (m.store.addFunction closure).2) rfl
    (agree.functions.push both) agree.classes agree.instances
  exact ⟨cells, .of_frames_eq none cells rfl rfl, made,
    congrArg FunctionId.mk agree.functions.size⟩

theorem matches_addClass (agree : Agree L g cells m μ) {cls : Lox.Class} {cls' : Class}
    (both : ClassesAgree L g cells m.store cls cls') :
    Matches L g none cells m Equal (Lox.Run.onStore (·.addClass cls) m)
      (Run.onState (·.addClass cls') μ) := by
  have made := agree.withHeap (s := (m.store.addClass cls).2) rfl agree.functions
    (agree.classes.push both) agree.instances
  exact ⟨cells, .of_frames_eq none cells rfl rfl, made, congrArg ClassId.mk agree.classes.size⟩

theorem matches_addInstance (agree : Agree L g cells m μ) (c : ClassId) :
    Matches L g none cells m
      (fun _ m' _ i i' => i' = i ∧ m'.store.classes = m.store.classes)
      (Lox.Run.onStore (·.addInstance c) m) (Run.onState (·.addInstance c) μ) := by
  have made := agree.withHeap (s := (m.store.addInstance c).2) rfl agree.functions agree.classes
    (congrArg (·.push ⟨c, ∅⟩) agree.instances)
  have same : (⟨μ.instances.size⟩ : InstanceId) = ⟨m.store.instances.size⟩ := by
    rw [agree.instances]
  exact ⟨cells, .of_frames_eq none cells rfl rfl, made, same, rfl⟩

theorem matches_setField (agree : Agree L g cells m μ) (i : InstanceId) (name : Name)
    (value : Value) :
    Matches L g near cells m Equal (Lox.Run.setField i name value m)
      (Run.setField i name value μ) := by
  have made := agree.withHeap (s := m.store.setField i name.text value) rfl agree.functions
    agree.classes (congrArg (·.modify i.index fun object =>
      { object with fields := object.fields.insert name.text value }) agree.instances)
  exact ⟨cells, .of_frames_eq near cells rfl rfl, made, rfl⟩

end

end Lox.Lexical
