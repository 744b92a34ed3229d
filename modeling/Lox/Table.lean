/-!
# Tables

A table binds names to values, each name at most once. Frames, scopes, field lists and method
lists are tables. A name keeps the place it was first bound at, so the order of the entries is the
order of first binding.
-/

namespace Lox

/-- A finite map from names. -/
structure Table (α : Type) where
  entries : List (String × α)
  deriving Repr

namespace Table

variable {α : Type}

def empty : Table α := ⟨[]⟩

instance : EmptyCollection (Table α) := ⟨empty⟩

instance : Inhabited (Table α) := ⟨empty⟩

/-- The value of the first entry for `name`. -/
def find (name : String) : List (String × α) → Option α
  | [] => none
  | (key, value) :: rest => if key = name then some value else find name rest

/-- The entries with `name` bound to `value`, in place when it was bound before. -/
def put (name : String) (value : α) : List (String × α) → List (String × α)
  | [] => [(name, value)]
  | (key, old) :: rest =>
    if key = name then (key, value) :: rest else (key, old) :: put name value rest

def get? (t : Table α) (name : String) : Option α := find name t.entries

def contains (t : Table α) (name : String) : Bool := (t.get? name).isSome

/-- Binds `name` to `value`, whatever it was bound to before. -/
def insert (t : Table α) (name : String) (value : α) : Table α := ⟨put name value t.entries⟩

/-- Binds the pairs from left to right, so that the last of two pairs with one name counts. -/
def insertAll (t : Table α) (pairs : List (String × α)) : Table α :=
  pairs.foldl (fun table pair => table.insert pair.1 pair.2) t

@[simp] theorem get?_empty (name : String) : (∅ : Table α).get? name = none := rfl

theorem get?_insert (t : Table α) (name key : String) (value : α) :
    (t.insert name value).get? key = if name = key then some value else t.get? key := by
  obtain ⟨entries⟩ := t
  simp only [insert, get?]
  induction entries with
  | nil => simp only [put, find]
  | cons entry rest ih =>
    obtain ⟨bound, old⟩ := entry
    simp only [put]
    by_cases same : bound = name
    · subst same
      by_cases hit : bound = key <;> simp [find, hit]
    · simp only [if_neg same, find, ih]
      by_cases hit : bound = key
      · subst hit
        simp [Ne.symm same]
      · simp [hit]

@[simp] theorem get?_insert_self (t : Table α) (name : String) (value : α) :
    (t.insert name value).get? name = some value := by
  simp [get?_insert]

theorem get?_insert_of_ne (t : Table α) {name key : String} (value : α) (distinct : name ≠ key) :
    (t.insert name value).get? key = t.get? key := by
  simp [get?_insert, distinct]

/-- Of two values given to one name in turn the second counts. -/
theorem insert_insert_self (t : Table α) (name : String) (first second : α) :
    (t.insert name first).insert name second = t.insert name second := by
  obtain ⟨entries⟩ := t
  simp only [insert, mk.injEq]
  induction entries with
  | nil => simp [put]
  | cons entry rest ih =>
    obtain ⟨bound, old⟩ := entry
    by_cases same : bound = name <;> simp [put, same, ih]

theorem contains_insert (t : Table α) (name key : String) (value : α) :
    (t.insert name value).contains key = (decide (name = key) || t.contains key) := by
  by_cases hit : name = key <;> simp [contains, get?_insert, hit]

end Table

end Lox
