import Lox.Syntax.PrefixForm

/-!
# Prefix forms as trees

A prefix form is a text of nested parentheses, each of which starts with a word that tells what it is. Such a
text can be taken apart in one way only, as long as the words in it hold no blank and no parenthesis: where a
form ends is seen from what follows it.
-/

namespace Lox

/-- A prefix form: a word, or a word and forms in parentheses. -/
inductive Form where
  | word (text : String)
  | node (head : String) (items : List Form)

mutual

/-- The characters of a form. -/
def Form.chars : Form → List Char
  | .word text => text.toList
  | .node head items => '(' :: (head.toList ++ (formsChars items ++ [')']))

/-- The characters of forms, a blank before each. -/
def formsChars : List Form → List Char
  | [] => []
  | form :: rest => ' ' :: (form.chars ++ formsChars rest)

end

mutual

/-- The prefix form of an expression, as a tree. -/
def Expr.form : Expr → Form
  | .literal value => .word value.prefixForm
  | .grouping inner => .node "group" [inner.form]
  | .unary operator right => .node operator.lexeme [right.form]
  | .binary left operator right | .logical left operator right =>
    .node operator.lexeme [left.form, right.form]
  | .variable name _ => .word name.text
  | .assign name value _ => .node "=" [.word name.text, value.form]
  | .call callee _ arguments => .node "call" (callee.form :: expressionForms arguments)
  | .get object name => .node "." [object.form, .word name.text]
  | .set object name value => .node "=" [.node "." [object.form, .word name.text], value.form]
  | .this _ _ => .word "this"
  | .super _ method _ => .node "super" [.word method.text]

def expressionForms : List Expr → List Form
  | [] => []
  | e :: rest => e.form :: expressionForms rest

end

mutual

theorem Expr.prefixForm_toList (e : Expr) : e.prefixForm.toList = e.form.chars := by
  cases e with
  | literal value => simp [Expr.prefixForm, Expr.form, Form.chars]
  | grouping inner =>
    simp [Expr.prefixForm, Expr.form, Form.chars, formsChars, inner.prefixForm_toList]
  | unary operator right =>
    simp [Expr.prefixForm, Expr.form, Form.chars, formsChars, right.prefixForm_toList]
  | binary left operator right =>
    simp [Expr.prefixForm, Expr.form, Form.chars, formsChars, left.prefixForm_toList,
      right.prefixForm_toList]
  | logical left operator right =>
    simp [Expr.prefixForm, Expr.form, Form.chars, formsChars, left.prefixForm_toList,
      right.prefixForm_toList]
  | «variable» name id => simp [Expr.prefixForm, Expr.form, Form.chars]
  | assign name value id =>
    simp [Expr.prefixForm, Expr.form, Form.chars, formsChars, value.prefixForm_toList]
  | call callee line arguments =>
    simp [Expr.prefixForm, Expr.form, Form.chars, formsChars, callee.prefixForm_toList,
      prefixForms_toList arguments]
  | get object name =>
    simp [Expr.prefixForm, Expr.form, Form.chars, formsChars, object.prefixForm_toList]
  | set object name value =>
    simp [Expr.prefixForm, Expr.form, Form.chars, formsChars, object.prefixForm_toList,
      value.prefixForm_toList]
  | this keyword id => simp [Expr.prefixForm, Expr.form, Form.chars]
  | super keyword method id => simp [Expr.prefixForm, Expr.form, Form.chars, formsChars]

theorem prefixForms_toList (expressions : List Expr) :
    (prefixForms expressions).toList = formsChars (expressionForms expressions) := by
  cases expressions with
  | nil => simp [prefixForms, expressionForms, formsChars]
  | cons e rest =>
    simp [prefixForms, expressionForms, formsChars, e.prefixForm_toList, prefixForms_toList rest]

end

/-! ### Taking a form apart -/

/-- A character that ends a word of a form. -/
def endsWord (c : Char) : Bool := c = ' ' || c = '(' || c = ')'

/-- A word that can be found again in a text: not empty, with no blank and no parenthesis. -/
def IsSolid (text : String) : Prop := text ≠ "" ∧ ∀ c ∈ text.toList, ¬ endsWord c

mutual

/-- All words of the form are solid. -/
def Form.Solid : Form → Prop
  | .word text => IsSolid text
  | .node head items => IsSolid head ∧ formsSolid items

def formsSolid : List Form → Prop
  | [] => True
  | form :: rest => form.Solid ∧ formsSolid rest

end

/-- What follows a form: nothing, or a character that ends a word. -/
def Stops (later : List Char) : Prop := ∀ c ∈ later.head?, endsWord c

/-- A word is found again in front of what ends it. -/
theorem word_inj {text text' : String} (solid : IsSolid text) (solid' : IsSolid text')
    {later later' : List Char} (stops : Stops later) (stops' : Stops later')
    (same : text.toList ++ later = text'.toList ++ later') : text = text' ∧ later = later' := by
  have front {text : String} (solid : IsSolid text) {later : List Char} (stops : Stops later) :
      (text.toList ++ later).takeWhile (! endsWord ·) = text.toList := by
    rw [List.takeWhile_append_of_pos fun c among => by simpa using solid.2 c among]
    cases later with
    | nil => simp
    | cons c later => simp [stops c rfl]
  have words := front solid stops
  rw [same, front solid' stops'] at words
  have words : text = text' := String.toList_inj.mp words.symm
  subst words
  exact ⟨rfl, List.append_cancel_left same⟩

/-- No word starts with a parenthesis. -/
theorem word_ne_paren {text : String} (solid : IsSolid text) (later more : List Char) :
    text.toList ++ later ≠ '(' :: more := by
  intro same
  cases chars : text.toList with
  | nil => exact solid.1 (String.toList_eq_nil_iff.mp chars)
  | cons c rest =>
    rw [chars] at same
    obtain ⟨rfl, -⟩ := List.cons.inj same
    exact solid.2 '(' (chars ▸ List.mem_cons_self) rfl

theorem stops_nil : Stops [] := by
  intro c first
  cases first

theorem stops_items (items : List Form) (later : List Char) : Stops (formsChars items ++ ')' :: later) := by
  intro c first
  cases items with
  | nil =>
    cases first
    rfl
  | cons form rest =>
    cases first
    rfl

mutual

/-- A form is found again in front of what ends a word: from the same text no other form can be taken, and it
leaves the same. -/
theorem Form.chars_inj {x y : Form} (solid : x.Solid) (solid' : y.Solid) {later later' : List Char}
    (stops : Stops later) (stops' : Stops later') (same : x.chars ++ later = y.chars ++ later') :
    x = y ∧ later = later' := by
  match x, y with
  | .word text, .word text' =>
    obtain ⟨rfl, rfl⟩ := word_inj solid solid' stops stops' same
    exact ⟨rfl, rfl⟩
  | .word text, .node head items => exact absurd same (word_ne_paren solid _ _)
  | .node head items, .word text => exact absurd same.symm (word_ne_paren solid' _ _)
  | .node head items, .node head' items' =>
    obtain ⟨first, inner⟩ := solid
    obtain ⟨first', inner'⟩ := solid'
    simp only [Form.chars, List.cons_append, List.append_assoc, List.nil_append] at same
    obtain ⟨rfl, behind⟩ := word_inj first first' (stops_items items later) (stops_items items' later')
      (List.cons.inj same).2
    obtain ⟨rfl, rfl⟩ := formsChars_inj inner inner' behind
    exact ⟨rfl, rfl⟩

/-- Forms up to a closing parenthesis are found again. -/
theorem formsChars_inj {xs ys : List Form} (solid : formsSolid xs) (solid' : formsSolid ys)
    {later later' : List Char} (same : formsChars xs ++ ')' :: later = formsChars ys ++ ')' :: later') :
    xs = ys ∧ later = later' := by
  match xs, ys with
  | [], [] => exact ⟨rfl, (List.cons.inj same).2⟩
  | [], y :: ys => exact absurd (List.cons.inj same).1 (by decide)
  | x :: xs, [] => exact absurd (List.cons.inj same).1 (by decide)
  | x :: xs, y :: ys =>
    simp only [formsChars, List.cons_append, List.append_assoc] at same
    obtain ⟨rfl, behind⟩ := x.chars_inj solid.1 solid'.1 (stops_items xs later) (stops_items ys later')
      (List.cons.inj same).2
    obtain ⟨rfl, rfl⟩ := formsChars_inj solid.2 solid'.2 behind
    exact ⟨rfl, rfl⟩

end

end Lox
