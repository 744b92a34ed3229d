import Lox.Proofs.Evaluation.RuledOut
import Lox.Proofs.Lexical.Evaluation
import Lox.Proofs.Lexical.Placement

/-!
# Agreement of the two machines

`Agree` says when a machine with frames stands for a lexical machine: its frames for the locations, its
functions and classes for functions and classes with the same code, and everything else is equal.
`Matches` compares the outcomes of two runs: the same value or the same halt, on machines that agree
again. A fault that the scopes rule out is no outcome that matches.
-/

namespace Lox

namespace Lexical

/-! ### Functions and classes -/

section

variable (L : List Lookup) (g : FrameId) (cells : List Slot) (s : Store)

/-- The same code, closed over a frame that stands for the environment that was captured. -/
structure Captures (Γ : Scopes) (closure : Lox.Closure) (closure' : Closure) : Prop where
  declaration : closure'.declaration = closure.declaration
  isInitializer : closure'.isInitializer = closure.isInitializer
  placed : Placed cells s g closure.frame Γ closure'.env

/-- Functions that can be called: the captured scopes are those that the code is well-scoped in, and an
initializer has its instance in the innermost of them. -/
def FunctionsAgree (closure : Lox.Closure) (closure' : Closure) : Prop :=
  ∃ Γ, Captures g cells s Γ closure closure' ∧ closure.declaration.Scoped L Γ ∧
    (closure.isInitializer → ∃ outer, Γ = Scope.of [Keyword.this.spelling] :: outer)

/-- Methods, which can be called once they are bound to an instance. -/
def MethodsAgree (closure : Lox.Closure) (closure' : Closure) : Prop :=
  ∃ Γ, Captures g cells s Γ closure closure' ∧
    closure.declaration.Scoped L (Scope.of [Keyword.this.spelling] :: Γ)

structure ClassesAgree (cls : Lox.Class) (cls' : Class) : Prop where
  name : cls'.name = cls.name
  superclass : cls'.superclass = cls.superclass
  methods : ∀ x, Option.Rel (MethodsAgree L g cells s) (cls.methods.get? x) (cls'.methods.get? x)

end

/-- Arrays of one length that agree place by place. -/
structure Aligned {α β : Type} (R : α → β → Prop) (xs : Array α) (ys : Array β) : Prop where
  size : ys.size = xs.size
  places : ∀ i : Nat, Option.Rel R xs[i]? ys[i]?

/-! ### Machines -/

/-- The machine `m` with the global frame `g` stands for the lexical machine `μ`, when the look-ups `L`
have been recorded and the locations have the slots `cells`. -/
structure Agree (L : List Lookup) (g : FrameId) (cells : List Slot) (m : Machine) (μ : State) :
    Prop where
  globals : m.globals = g
  distances : ∀ l ∈ L, m.distances[l.id]? = l.depth
  frames : FramesAgree g cells m.store μ.cells μ.globals
  functions : Aligned (FunctionsAgree L g cells m.store) m.store.functions μ.functions
  classes : Aligned (ClassesAgree L g cells m.store) m.store.classes μ.classes
  instances : μ.instances = m.store.instances
  callDepth : μ.callDepth = m.callDepth
  sink : μ.sink = m.sink
  clock : μ.clock = m.clock
  readings : μ.readings = m.readings

/-- Machines that agree, with a frame that stands for an environment in the given scopes. -/
structure Sited (L : List Lookup) (g f : FrameId) (Γ : Scopes) (ρ : Env) (cells : List Slot)
    (m : Machine) (μ : State) : Prop where
  agree : Agree L g cells m μ
  placed : Placed cells m.store g f Γ ρ
  own : Own cells f Γ

/-- Two outcomes match: the values are in the relation `Q` or the halts are equal, the machines agree
again, and frames and slots have only grown. -/
def Matches {α β : Type} (L : List Lookup) (g : FrameId) (near : Option FrameId)
    (cells : List Slot) (m : Machine) (Q : List Slot → Machine → State → α → β → Prop) :
    EStateM.Result Halt Machine α → EStateM.Result Halt State β → Prop
  | .ok a m', .ok b μ' =>
    ∃ cells', Later near cells m cells' m' ∧ Agree L g cells' m' μ' ∧ Q cells' m' μ' a b
  | .error halt m', .error halt' μ' =>
    (halt' = halt ∧ ¬ halt.RuledOut) ∧
      ∃ cells', Later near cells m cells' m' ∧ Agree L g cells' m' μ'
  | _, _ => False

/-- Equal values, as a relation of values on two machines. -/
def Equal {α : Type} (_cells : List Slot) (_m : Machine) (_μ : State) (a b : α) : Prop := b = a

/-- Two look-ups find values in the relation `P`, or they fail in the same way. -/
def LookUpsAgree {α β : Type} (P : α → β → Prop) : Except Fault α → Except Fault β → Prop
  | .ok a, .ok b => P a b
  | .error cause, .error cause' => cause' = cause ∧ ¬ cause.RuledOut
  | _, _ => False

/-! ### Growth keeps what agrees -/

section

variable {L : List Lookup} {g : FrameId} {near : Option FrameId} {cells cells' : List Slot}
  {m m' : Machine} {μ μ' : State} {Γ : Scopes} {ρ : Env}

theorem Captures.mono {closure : Lox.Closure} {closure' : Closure}
    (later : Later near cells m cells' m') (captures : Captures g cells m.store Γ closure closure') :
    Captures g cells' m'.store Γ closure closure' :=
  { captures with placed := captures.placed.mono later }

theorem FunctionsAgree.mono {closure : Lox.Closure} {closure' : Closure}
    (later : Later near cells m cells' m') (agree : FunctionsAgree L g cells m.store closure closure') :
    FunctionsAgree L g cells' m'.store closure closure' := by
  obtain ⟨Γ, captures, code, receiver⟩ := agree
  exact ⟨Γ, captures.mono later, code, receiver⟩

theorem MethodsAgree.mono {closure : Lox.Closure} {closure' : Closure}
    (later : Later near cells m cells' m') (agree : MethodsAgree L g cells m.store closure closure') :
    MethodsAgree L g cells' m'.store closure closure' := by
  obtain ⟨Γ, captures, code⟩ := agree
  exact ⟨Γ, captures.mono later, code⟩

theorem optionRel_mono {α β : Type} {R S : α → β → Prop} (weaker : ∀ a b, R a b → S a b)
    {x : Option α} {y : Option β} (related : Option.Rel R x y) : Option.Rel S x y := by
  cases related with
  | some r => exact .some (weaker _ _ r)
  | none => exact .none

theorem optionRel_cases {α β : Type} {R : α → β → Prop} {x : Option α} {y : Option β}
    (related : Option.Rel R x y) :
    (x = none ∧ y = none) ∨ ∃ a b, x = some a ∧ y = some b ∧ R a b := by
  cases related with
  | some r => exact .inr ⟨_, _, rfl, rfl, r⟩
  | none => exact .inl ⟨rfl, rfl⟩

theorem ClassesAgree.mono {cls : Lox.Class} {cls' : Class} (later : Later near cells m cells' m')
    (agree : ClassesAgree L g cells m.store cls cls') : ClassesAgree L g cells' m'.store cls cls' :=
  { agree with methods := fun x => optionRel_mono (fun _ _ => .mono later) (agree.methods x) }

theorem Aligned.mono {α β : Type} {R S : α → β → Prop} {xs : Array α} {ys : Array β}
    (aligned : Aligned R xs ys) (weaker : ∀ a b, R a b → S a b) : Aligned S xs ys :=
  ⟨aligned.size, fun i => optionRel_mono weaker (aligned.places i)⟩

theorem Aligned.push {α β : Type} {R : α → β → Prop} {xs : Array α} {ys : Array β} {x : α} {y : β}
    (aligned : Aligned R xs ys) (last : R x y) : Aligned R (xs.push x) (ys.push y) := by
  -- the new things come to lie at the same place
  refine ⟨by simp [aligned.size], fun i => ?_⟩
  rw [Array.getElem?_push, Array.getElem?_push, aligned.size]
  split
  · exact .some last
  · exact aligned.places i

/-- What stands for an environment goes on to do so while frames and slots grow elsewhere. -/
theorem Sited.mono {f : FrameId} (sited : Sited L g f Γ ρ cells m μ)
    (later : Later near cells m cells' m') (elsewhere : near ≠ some f)
    (agree : Agree L g cells' m' μ') : Sited L g f Γ ρ cells' m' μ' where
  agree := agree
  placed := sited.placed.mono later
  own := by
    cases Γ with
    | nil => trivial
    | cons scope outer =>
      intro name member
      rcases later.apart _ member with old | new | near
      · exact sited.own name old
      · -- the frame is no new one
        obtain ⟨frame, found⟩ := Option.isSome_iff_exists.mp sited.placed.present
        exact absurd (Array.getElem?_eq_some_iff.mp found).1 (Nat.not_lt.mpr new)
      · exact absurd near elsewhere

theorem Sited.of_eq {f f' : FrameId} (sited : Sited L g f Γ ρ cells m μ) (same : f' = f) :
    Sited L g f' Γ ρ cells m μ := by
  rw [same]
  exact sited

/-- The current place stays a place through an evaluation that works apart from it. -/
theorem Sited.later (sited : Sited L g m.current Γ ρ cells m μ)
    (later : Later none cells m cells' m') (agree : Agree L g cells' m' μ') :
    Sited L g m'.current Γ ρ cells' m' μ' :=
  (sited.mono later nofun agree).of_eq later.current

/-- After a statement that declares nothing, the environment before it is still good. -/
theorem Sited.restore {f : FrameId} {ρ' : Env} (sited : Sited L g f Γ ρ cells m μ)
    (later : Later near cells m cells' m') (after : Sited L g f Γ ρ' cells' m' μ') :
    Sited L g f Γ ρ cells' m' μ' :=
  ⟨after.agree, sited.placed.mono later, after.own⟩

/-- A frame that stands for an environment is in the store. -/
theorem Sited.present {f : FrameId} (sited : Sited L g f Γ ρ cells m μ) :
    (m.store.frameAt? f).isSome := by
  cases Γ with
  | nil =>
    obtain ⟨agree, placed, _⟩ := sited
    cases placed
    obtain ⟨frame, found, _⟩ := agree.frames.root
    rw [found]
    rfl
  | cons scope outer => exact sited.placed.present

/-- A frame that stands for an environment is not the next one that will be made. -/
theorem Sited.not_next {f : FrameId} (sited : Sited L g f Γ ρ cells m μ) :
    f ≠ ⟨m.store.frames.size⟩ := by
  rintro rfl
  obtain ⟨frame, found⟩ := Option.isSome_iff_exists.mp sited.present
  exact Nat.lt_irrefl _ (Array.getElem?_eq_some_iff.mp found).1

end

/-! ### Runs -/

section

variable {L : List Lookup} {g : FrameId} {near near' : Option FrameId} {cells cells' : List Slot}
  {m m' : Machine} {μ μ' : State} {α β γ δ : Type}
  {P : List Slot → Machine → State → α → β → Prop}
  {Q : List Slot → Machine → State → γ → δ → Prop}

theorem matches_pure (agree : Agree L g cells m μ) {a : α} {b : β} (related : P cells m μ a b) :
    Matches L g near cells m P ((pure a : Lox.Run α) m) ((pure b : Run β) μ) :=
  ⟨cells, .refl near cells m, agree, related⟩

theorem matches_ask (agree : Agree L g cells m μ) {x : Machine → α} {y : State → β}
    (related : P cells m μ (x m) (y μ)) :
    Matches L g near cells m P (Lox.Run.ask x m) (Run.ask y μ) :=
  ⟨cells, .refl near cells m, agree, related⟩

theorem matches_throw (agree : Agree L g cells m μ) {halt : Halt} (possible : ¬ halt.RuledOut) :
    Matches L g near cells m P ((throw halt : Lox.Run α) m) ((throw halt : Run β) μ) :=
  ⟨⟨rfl, possible⟩, cells, .refl near cells m, agree⟩

theorem matches_fault (agree : Agree L g cells m μ) {cause : Fault} (possible : ¬ cause.RuledOut)
    (line : Nat) :
    Matches L g near cells m P ((Lox.Run.fault cause line : Lox.Run α) m)
      ((Run.fault cause line : Run β) μ) :=
  matches_throw agree possible

/-- Outcomes that match are two values or two halts. -/
theorem Matches.cases {r : EStateM.Result Halt Machine α} {r' : EStateM.Result Halt State β}
    (outcome : Matches L g near cells m P r r') :
    (∃ a m' b μ' cells', r = .ok a m' ∧ r' = .ok b μ' ∧
        Later near cells m cells' m' ∧ Agree L g cells' m' μ' ∧ P cells' m' μ' a b) ∨
      ∃ halt m' μ' cells', r = .error halt m' ∧ r' = .error halt μ' ∧ ¬ halt.RuledOut ∧
        Later near cells m cells' m' ∧ Agree L g cells' m' μ' := by
  cases r with
  | ok a m' =>
    cases r' with
    | ok b μ' =>
      obtain ⟨cells', later, agree, related⟩ := outcome
      exact .inl ⟨a, m', b, μ', cells', rfl, rfl, later, agree, related⟩
    | error _ _ => exact outcome.elim
  | error halt m' =>
    cases r' with
    | ok _ _ => exact outcome.elim
    | error halt' μ' =>
      obtain ⟨⟨rfl, possible⟩, cells', later, agree⟩ := outcome
      exact .inr ⟨halt', m', μ', cells', rfl, rfl, possible, later, agree⟩

/-- What matches after growth matches from where the growth began. -/
theorem Matches.after (later : Later near cells m cells' m')
    (close : ∀ f, near' = some f → near = some f ∨ m.store.frames.size ≤ f.index)
    {r : EStateM.Result Halt Machine α} {r' : EStateM.Result Halt State β}
    (rest : Matches L g near' cells' m' P r r') : Matches L g near cells m P r r' := by
  rcases rest.cases with ⟨a, m₂, b, μ₂, cells₂, rfl, rfl, later₂, agree, related⟩ |
    ⟨halt, m₂, μ₂, cells₂, rfl, rfl, possible, later₂, agree⟩
  · exact ⟨cells₂, later.trans_of later₂ close, agree, related⟩
  · exact ⟨⟨rfl, possible⟩, cells₂, later.trans_of later₂ close, agree⟩

/-- Runs in sequence. The first may happen apart from every old frame, and the second may also work in
the frame `near'` if that is new. -/
theorem Matches.bind_of {near₀ : Option FrameId} {x : Lox.Run α} {y : Run β} {f : α → Lox.Run γ}
    {h : β → Run δ} (first : Matches L g near₀ cells m P (x m) (y μ))
    (near' : Option FrameId) (wide : ∀ f, near₀ = some f → near = some f)
    (close : ∀ f, near' = some f → near = some f ∨ m.store.frames.size ≤ f.index)
    (next : ∀ {cells' m' μ' a b}, Later near₀ cells m cells' m' → Agree L g cells' m' μ' →
      P cells' m' μ' a b → Matches L g near' cells' m' Q (f a m') (h b μ')) :
    Matches L g near cells m Q ((x >>= f) m) ((y >>= h) μ) := by
  -- what the first run may do, the whole may do
  have widened {cells' m'} (later : Later near₀ cells m cells' m') : Later near cells m cells' m' :=
    (Later.refl near cells m).trans_of later fun f same => .inl (wide f same)
  change Matches L g near cells m Q (EStateM.bind x f m) (EStateM.bind y h μ)
  unfold EStateM.bind
  rcases first.cases with ⟨a, m', b, μ', cells', left, right, later, agree, related⟩ |
    ⟨halt, m', μ', cells', left, right, possible, later, agree⟩
  · rw [left, right]
    exact .after (widened later) close (next later agree related)
  · rw [left, right]
    exact ⟨⟨rfl, possible⟩, cells', widened later, agree⟩

theorem Matches.bind {x : Lox.Run α} {y : Run β} {f : α → Lox.Run γ} {h : β → Run δ}
    (first : Matches L g near cells m P (x m) (y μ))
    (next : ∀ {cells' m' μ' a b}, Later near cells m cells' m' → Agree L g cells' m' μ' →
      P cells' m' μ' a b → Matches L g near cells' m' Q (f a m') (h b μ')) :
    Matches L g near cells m Q ((x >>= f) m) ((y >>= h) μ) :=
  first.bind_of near (fun _ same => same) (fun _ same => .inl same) next

/-- Runs in sequence of which the first happens apart from every old frame. -/
theorem Matches.bindApart {x : Lox.Run α} {y : Run β} {f : α → Lox.Run γ} {h : β → Run δ}
    (first : Matches L g none cells m P (x m) (y μ))
    (next : ∀ {cells' m' μ' a b}, Later none cells m cells' m' → Agree L g cells' m' μ' →
      P cells' m' μ' a b → Matches L g near cells' m' Q (f a m') (h b μ')) :
    Matches L g near cells m Q ((x >>= f) m) ((y >>= h) μ) :=
  first.bind_of near (fun _ same => by cases same) (fun _ same => .inl same) next

/-- Runs in sequence of which the first gives the same value on both machines. -/
theorem Matches.bindEqual {x : Lox.Run α} {y : Run α} {f : α → Lox.Run γ} {h : α → Run δ}
    (first : Matches L g none cells m Equal (x m) (y μ))
    (next : ∀ {cells' m' μ'} a, Later none cells m cells' m' → Agree L g cells' m' μ' →
      Matches L g near cells' m' Q (f a m') (h a μ')) :
    Matches L g near cells m Q ((x >>= f) m) ((y >>= h) μ) := by
  refine first.bindApart fun later agree same => ?_
  rw [Equal] at same
  rw [same]
  exact next _ later agree

/-- The lexical machine gives something else for the value that both come to. -/
theorem Matches.mapRight {P' : List Slot → Machine → State → α → δ → Prop}
    {r : EStateM.Result Halt Machine α} {y : Run β} {h : β → δ}
    (first : Matches L g near cells m P r (y μ))
    (related : ∀ {cells' m' μ' a b}, Later near cells m cells' m' → Agree L g cells' m' μ' →
      P cells' m' μ' a b → P' cells' m' μ' a (h b)) :
    Matches L g near cells m P' r ((y >>= fun b => pure (h b)) μ) := by
  change Matches L g near cells m P' r (EStateM.bind y _ μ)
  unfold EStateM.bind
  rcases first.cases with ⟨a, m', b, μ', cells', rfl, right, later, agree, both⟩ |
    ⟨halt, m', μ', cells', rfl, right, possible, later, agree⟩
  · rw [right]
    exact ⟨cells', later, agree, related later agree both⟩
  · rw [right]
    exact ⟨⟨rfl, possible⟩, cells', later, agree⟩

theorem Matches.imp {P' : List Slot → Machine → State → α → β → Prop}
    {r : EStateM.Result Halt Machine α} {r' : EStateM.Result Halt State β}
    (outcome : Matches L g near cells m P r r')
    (weaker : ∀ {cells' m' μ' a b}, P cells' m' μ' a b → P' cells' m' μ' a b) :
    Matches L g near cells m P' r r' := by
  rcases outcome.cases with ⟨a, m', b, μ', cells', rfl, rfl, later, agree, related⟩ |
    ⟨halt, m', μ', cells', rfl, rfl, possible, later, agree⟩
  · exact ⟨cells', later, agree, weaker related⟩
  · exact ⟨⟨rfl, possible⟩, cells', later, agree⟩

theorem matches_ofExcept (agree : Agree L g cells m μ) (line : Nat) {R : α → β → Prop}
    {x : Except Fault α} {y : Except Fault β} (found : LookUpsAgree R x y)
    (related : ∀ a b, R a b → P cells m μ a b) :
    Matches L g near cells m P (Lox.Run.ofExcept line x m) (Run.ofExcept line y μ) := by
  cases x with
  | ok a =>
    cases y with
    | ok b => exact matches_pure agree (related a b found)
    | error _ => exact found.elim
  | error cause =>
    cases y with
    | ok _ => exact found.elim
    | error cause' =>
      obtain ⟨rfl, possible⟩ := found
      exact matches_fault agree possible line

theorem matches_read (agree : Agree L g cells m μ) (line : Nat) {R : α → β → Prop}
    {x : Machine → Except Fault α} {y : State → Except Fault β} (found : LookUpsAgree R (x m) (y μ))
    (related : ∀ a b, R a b → P cells m μ a b) :
    Matches L g near cells m P (Lox.Run.read line x m) (Run.read line y μ) :=
  matches_ofExcept agree line found related

end

end Lexical

end Lox
