import Lox.Eval
import Lox.Proofs.Syntax.Relining

/-!
# Stores whose code stands on other lines

The code that a store keeps, in functions and in the methods of classes, can be moved to other lines.
Every access to the store then finds what it found before, with the code moved, and everything that is
added or changed can as well be added or changed before the move.
-/

namespace Lox

namespace Table

variable {α β : Type}

/-- The table with every value replaced. -/
def map (φ : α → β) (t : Table α) : Table β := ⟨t.entries.map fun entry => (entry.1, φ entry.2)⟩

theorem get?_map (φ : α → β) (t : Table α) (name : String) :
    (t.map φ).get? name = (t.get? name).map φ := by
  obtain ⟨entries⟩ := t
  simp only [map, get?]
  induction entries with
  | nil => rfl
  | cons entry rest ih =>
    simp only [List.map_cons, find, ih]
    split <;> rfl

theorem map_insert (φ : α → β) (t : Table α) (name : String) (value : α) :
    (t.insert name value).map φ = (t.map φ).insert name (φ value) := by
  obtain ⟨entries⟩ := t
  simp only [map, insert, mk.injEq]
  induction entries with
  | nil => rfl
  | cons entry rest ih =>
    simp only [List.map_cons, put]
    split <;> simp only [List.map_cons, ih]

theorem map_insertAll (φ : α → β) (t : Table α) (pairs : List (String × α)) :
    (t.insertAll pairs).map φ = (t.map φ).insertAll (pairs.map fun pair => (pair.1, φ pair.2)) := by
  unfold insertAll
  induction pairs generalizing t with
  | nil => rfl
  | cons pair rest ih => rw [List.foldl_cons, ih, map_insert, List.map_cons, List.foldl_cons]

theorem map_id (t : Table α) (φ : α → α) (same : ∀ a, φ a = a) : t.map φ = t := by
  obtain ⟨entries⟩ := t
  simp [map, same]

/-- Names that are not bound anew keep what they were bound to. -/
theorem get?_insertAll_of_notMem (t : Table α) {pairs : List (String × α)} {name : String}
    (others : ∀ pair ∈ pairs, pair.1 ≠ name) : (t.insertAll pairs).get? name = t.get? name := by
  unfold insertAll
  induction pairs generalizing t with
  | nil => rfl
  | cons pair rest ih =>
    rw [List.foldl_cons, ih _ fun other member => others other (List.mem_cons_of_mem _ member)]
    exact get?_insert_of_ne t pair.2 (others pair List.mem_cons_self)

/-- All values that a table gives have the property. -/
def All (P : α → Prop) (t : Table α) : Prop := ∀ name a, t.get? name = some a → P a

theorem All.empty (P : α → Prop) : All P ∅ := nofun

theorem All.insert {P : α → Prop} {t : Table α} (all : t.All P) (name : String) {value : α}
    (holds : P value) : (t.insert name value).All P := by
  intro key a found
  rw [get?_insert] at found
  split at found
  · cases found
    exact holds
  · exact all key a found

theorem All.insertAll {P : α → Prop} {t : Table α} (all : t.All P) {pairs : List (String × α)}
    (holds : ∀ pair ∈ pairs, P pair.2) : (t.insertAll pairs).All P := by
  unfold Table.insertAll
  induction pairs generalizing t with
  | nil => exact all
  | cons pair rest ih =>
    exact ih (all.insert pair.1 (holds pair List.mem_cons_self))
      fun pair' member => holds pair' (List.mem_cons_of_mem _ member)

end Table

/-! ### Code -/

def Closure.reline (f : Nat → Nat) (closure : Closure) : Closure :=
  { closure with declaration := closure.declaration.reline f }

def Class.reline (f : Nat → Nat) (cls : Class) : Class :=
  { cls with methods := cls.methods.map (Closure.reline f) }

@[simp] theorem Closure.reline_declaration (f : Nat → Nat) (closure : Closure) :
    (closure.reline f).declaration = closure.declaration.reline f := rfl

@[simp] theorem Closure.reline_isInitializer (f : Nat → Nat) (closure : Closure) :
    (closure.reline f).isInitializer = closure.isInitializer := rfl

/-- The methods of a class close its declarations over the one frame. -/
theorem methodTable_all (frame : FrameId) (methods : List FunctionDecl) :
    (methodTable frame methods).All fun method =>
      ∃ d ∈ methods, method = ⟨d, frame, d.isInitializer⟩ := by
  refine (Table.All.empty _).insertAll fun pair member => ?_
  obtain ⟨d, declared, rfl⟩ := List.mem_map.mp member
  exact ⟨d, declared, rfl⟩

theorem methodTable_reline (f : Nat → Nat) (frame : FrameId) (methods : List FunctionDecl) :
    methodTable frame (methods.map (FunctionDecl.reline f)) =
      (methodTable frame methods).map (Closure.reline f) := by
  rw [methodTable, methodTable, Table.map_insertAll, List.map_map, List.map_map]
  congr 1
  refine List.map_congr_left fun d _ => ?_
  simp [Closure.reline]

/-- The run-time error on another line. -/
def Halt.reline (f : Nat → Nat) : Halt → Halt
  | .runtime e => .runtime { e with line := f e.line }
  | .sink e => .sink e
  | .outOfFuel => .outOfFuel

theorem Halt.reline_id (halt : Halt) : halt.reline id = halt := by cases halt <;> rfl

namespace Store

/-- The store with all its code on other lines. -/
def reline (f : Nat → Nat) (s : Store) : Store :=
  { s with
    functions := s.functions.map (Closure.reline f)
    classes := s.classes.map (Class.reline f) }

theorem reline_id (s : Store) : s.reline id = s := by
  have same (closure : Closure) : closure.reline id = closure := by
    rw [Closure.reline, closure.declaration.reline_id]
  have functions : Closure.reline id = id := funext same
  have classes : Class.reline id = id := by
    funext cls
    rw [Class.reline, cls.methods.map_id _ same]
    rfl
  rw [reline, functions, classes, Array.map_id, Array.map_id]

variable (f : Nat → Nat) (s : Store)

/-! ### Variables -/

/-- Where a name is bound depends on the frames alone. -/
theorem holder?_congr {s s' : Store} (same : s'.frames = s.frames) (frame : FrameId)
    (name : String) : s'.holder? frame name = s.holder? frame name := by
  obtain ⟨index⟩ := frame
  induction index using Nat.strongRecOn with
  | ind index ih =>
    rw [holder?, holder?, frameAt?, frameAt?, same]
    split
    · rfl
    · split
      · rfl
      · split
        · rfl
        · split
          · rename_i outer _ older
            exact ih outer.index older
          · rfl

/-- Which frame links lead to depends on the frames alone. -/
theorem ancestor?_congr {s s' : Store} (same : s'.frames = s.frames) (frame : FrameId)
    (distance : Nat) : s'.ancestor? frame distance = s.ancestor? frame distance := by
  induction distance generalizing frame with
  | zero => rfl
  | succ distance ih =>
    rw [ancestor?, ancestor?, enclosing?, enclosing?, frameAt?, frameAt?, same]
    split
    · exact ih _
    · rfl

theorem frames_reline : (s.reline f).frames = s.frames := rfl

@[simp] theorem holder_reline (frame : FrameId) (name : String) :
    (s.reline f).holder frame name = s.holder frame name := by
  rw [holder, holder, holder?_congr (frames_reline f s)]

@[simp] theorem ancestor_reline (frame : FrameId) (distance : Nat) :
    (s.reline f).ancestor frame distance = s.ancestor frame distance := by
  rw [ancestor, ancestor, ancestor?_congr (frames_reline f s)]

@[simp] theorem bound_reline (frame : FrameId) (name : String) :
    (s.reline f).bound frame name = s.bound frame name := rfl

@[simp] theorem get_reline (frame : FrameId) (name : String) :
    (s.reline f).get frame name = s.get frame name := by
  simp only [get, holder_reline, bound_reline]

@[simp] theorem getAt_reline (frame : FrameId) (distance : Nat) (name : String) :
    (s.reline f).getAt frame distance name = s.getAt frame distance name := by
  simp only [getAt, ancestor_reline, bound_reline]

/-! ### Functions, classes and instances -/

@[simp] theorem functionAt?_reline (g : FunctionId) :
    (s.reline f).functionAt? g = (s.functionAt? g).map (Closure.reline f) := by
  simp [functionAt?, reline]

@[simp] theorem classAt?_reline (c : ClassId) :
    (s.reline f).classAt? c = (s.classAt? c).map (Class.reline f) := by
  simp [classAt?, reline]

@[simp] theorem instanceAt?_reline (i : InstanceId) :
    (s.reline f).instanceAt? i = s.instanceAt? i := rfl

@[simp] theorem findMethod_reline (c : ClassId) (name : String) :
    (s.reline f).findMethod c name = (s.findMethod c name).map (Closure.reline f) := by
  obtain ⟨index⟩ := c
  induction index using Nat.strongRecOn with
  | ind index ih =>
    rw [findMethod, findMethod, classAt?_reline]
    cases s.classAt? ⟨index⟩ with
    | none => rfl
    | some cls =>
      simp only [Option.map_some, Class.reline, Table.get?_map]
      cases cls.methods.get? name with
      | some method => rfl
      | none =>
        simp only [Option.map_none]
        split
        · rfl
        · split
          -- the superclass lies before the class
          · rename_i parent _ older
            exact ih parent.index older
          · rfl

theorem initializer?_reline (c : ClassId) :
    (s.reline f).initializer? c = (s.initializer? c).map (Closure.reline f) :=
  s.findMethod_reline f c initializerName

@[simp] theorem classArity_reline (c : ClassId) : (s.reline f).classArity c = s.classArity c := by
  rw [classArity, classArity, initializer?_reline]
  cases s.initializer? c <;> simp

@[simp] theorem className_reline (c : ClassId) : (s.reline f).className c = s.className c := by
  rw [className, className, classAt?_reline]
  cases s.classAt? c <;> rfl

/-- Values are shown without the lines of their code. -/
@[simp] theorem text_reline (value : Value) : (s.reline f).text value = s.text value := by
  cases value with
  | bool b => cases b <;> rfl
  | function g =>
    simp only [text, functionAt?_reline]
    cases s.functionAt? g <;> simp
  | class_ c => exact s.className_reline f c
  | instance_ i => simp only [text, instanceAt?_reline, className_reline]
  | nil | number _ | string _ | native _ => rfl

/-- What an instance has under a name, with the code moved. -/
def Property.reline (f : Nat → Nat) : Property → Property
  | .field value => .field value
  | .method closure => .method (closure.reline f)

theorem property_reline (i : InstanceId) (name : String) :
    (s.reline f).property i name = (s.property i name).map (Property.reline f) := by
  rw [property, property, instanceAt?_reline]
  split
  · rfl
  · split
    · rfl
    · rw [findMethod_reline]
      cases s.findMethod _ name <;> rfl

/-! ### Growth -/

theorem addFunction_reline (closure : Closure) :
    (s.reline f).addFunction (closure.reline f) =
      ((s.addFunction closure).1, (s.addFunction closure).2.reline f) := by
  simp [addFunction, reline]

theorem addClass_reline (cls : Class) :
    (s.reline f).addClass (cls.reline f) =
      ((s.addClass cls).1, (s.addClass cls).2.reline f) := by
  simp [addClass, reline]

theorem bindValue_reline (method : Closure) (receiver : Value) :
    (s.reline f).bindValue (method.reline f) receiver =
      ((s.bindValue method receiver).1, (s.bindValue method receiver).2.reline f) := by
  simp [bindValue, bind, addFunction, addFrame, reline, Closure.reline]

end Store

end Lox
