import Lox.Proofs.Grammar.Sentence
import Mathlib.Computability.Language

/-!
# Loose sentences

A wrong target of an assignment and a list that is too long keep no rule from reading on. The loose grammar
has room for both: any operands may stand to the left of an equals sign, and a list may have any length.
-/

namespace Lox

namespace Grammar

open Phrase in
/-- The productions, with any operands to the left of an equals sign. -/
def looseProduction : Category → Phrase
  | .assignment =>
    .or (.seq (.the (.joined .or)) <| .seq (symbol .equal) (.the .assignment)) (.the (.joined .or))
  | c => production c

/-- The words that these productions derive from a phrase. -/
inductive Loose : Phrase → List Token.Kind → Prop
  | oneOf {kinds : List Token.Kind} {k : Token.Kind} (member : k ∈ kinds) : Loose (.oneOf kinds) [k]
  | number (x : Float) : Loose .number [.number x]
  | string (text : String) : Loose .string [.string text]
  | the {c : Category} {w : List Token.Kind} (body : Loose (looseProduction c) w) : Loose (.the c) w
  | seq {p q : Phrase} {v w : List Token.Kind} (first : Loose p v) (next : Loose q w) :
    Loose (.seq p q) (v ++ w)
  | one {p q : Phrase} {w : List Token.Kind} (derives : Loose p w) : Loose (.or p q) w
  | other {p q : Phrase} {w : List Token.Kind} (derives : Loose q w) : Loose (.or p q) w
  | absent {p : Phrase} : Loose (.optional p) []
  | present {p : Phrase} {w : List Token.Kind} (derives : Loose p w) : Loose (.optional p) w
  | none {p : Phrase} : Loose (.many p) []
  | more {p : Phrase} {v w : List Token.Kind} (first : Loose p v) (rest : Loose (.many p) w) :
    Loose (.many p) (v ++ w)
  | last {p : Phrase} {w : List Token.Kind} (derives : Loose p w) : Loose (.list p) w
  | before {p : Phrase} {v w : List Token.Kind} (first : Loose p v) (rest : Loose (.list p) w) :
    Loose (.list p) (v ++ .symbol .comma :: w)

/-- One more at the end. -/
theorem Loose.snoc {p : Phrase} {v w : List Token.Kind} (some : Loose (.many p) v) (last : Loose p w) :
    Loose (.many p) (v ++ w) := by
  generalize same : Phrase.many p = q at some
  induction some with
  | none =>
    cases same
    rw [List.nil_append, ← List.append_nil w]
    exact .more last .none
  | @more _ u v first _ _ ih =>
    cases same
    rw [List.append_assoc]
    exact .more first (ih rfl)
  | _ => cases same

theorem loose_flatten {p : Phrase} {words : List (List Token.Kind)} (each : ∀ w ∈ words, Loose p w) :
    Loose (.many p) words.flatten := by
  induction words with
  | nil => exact .none
  | cons w words ih =>
    rw [List.forall_mem_cons] at each
    exact .more each.1 (ih each.2)

theorem loose_commaSeparated {p : Phrase} {words : List (List Token.Kind)} (some : words ≠ [])
    (each : ∀ w ∈ words, Loose p w) : Loose (.list p) (commaSeparated words) := by
  induction words with
  | nil => exact absurd rfl some
  | cons w words ih =>
    rw [List.forall_mem_cons] at each
    by_cases last : words = []
    · subst last
      simpa [commaSeparated] using Loose.last each.1
    · rw [commaSeparated_cons w last]
      exact .before each.1 (ih last each.2)

/-! ### Languages -/

/-- The words of a phrase. -/
def Phrase.words (p : Phrase) : Language Token.Kind := {w | Loose p w}

/-- The words of a category. -/
def Category.words (c : Category) : Language Token.Kind := (Phrase.the c).words

/-- One token of this kind. -/
def single (k : Token.Kind) : Language Token.Kind := {[k]}

variable {L M K : Language Token.Kind} {p q : Phrase} {c : Category} {k : Token.Kind} {w : List Token.Kind}

theorem mem_single : w ∈ single k ↔ w = [k] := Iff.rfl

theorem cons_mem_single_mul {j : Token.Kind} : j :: w ∈ single k * L ↔ j = k ∧ w ∈ L := by
  rw [Language.mem_mul]
  constructor
  · rintro ⟨_, rfl, v, member, same⟩
    cases same
    exact ⟨rfl, member⟩
  · rintro ⟨rfl, member⟩
    exact ⟨[j], rfl, w, member, rfl⟩

theorem cons_mem_oneOf_mul {kinds : List Token.Kind} :
    k :: w ∈ (Phrase.oneOf kinds).words * L ↔ k ∈ kinds ∧ w ∈ L := by
  rw [Language.mem_mul]
  constructor
  · rintro ⟨_, ⟨member⟩, v, next, same⟩
    cases same
    exact ⟨member, next⟩
  · rintro ⟨member, next⟩
    exact ⟨[k], .oneOf member, w, next, rfl⟩

namespace Phrase

theorem words_oneOf (k : Token.Kind) : (oneOf [k]).words = single k := by
  ext w
  constructor
  · intro derives
    cases derives with
    | oneOf member => exact congrArg (fun k => [k]) (List.mem_singleton.mp member)
  · rintro rfl
    exact .oneOf List.mem_cons_self

theorem words_name : name.words = single .identifier := words_oneOf _

theorem words_the (c : Category) : (the c).words = c.words := rfl

theorem words_seq (p q : Phrase) : (seq p q).words = p.words * q.words := by
  ext w
  rw [Language.mem_mul]
  constructor
  · intro derives
    cases derives with
    | seq first next => exact ⟨_, first, _, next, rfl⟩
  · rintro ⟨v, first, w, next, rfl⟩
    exact .seq first next

theorem words_or (p q : Phrase) : (or p q).words = p.words + q.words := by
  ext w
  rw [Language.mem_add]
  constructor
  · intro derives
    cases derives with
    | one derives => exact .inl derives
    | other derives => exact .inr derives
  · rintro (one | other)
    · exact .one one
    · exact .other other

theorem words_optional (p : Phrase) : (optional p).words = 1 + p.words := by
  ext w
  rw [Language.mem_add, Language.mem_one]
  constructor
  · intro derives
    cases derives with
    | absent => exact .inl rfl
    | present derives => exact .inr derives
  · rintro (rfl | present)
    · exact .absent
    · exact .present present

theorem words_many (p : Phrase) : (many p).words = 1 + p.words * (many p).words := by
  ext w
  rw [Language.mem_add, Language.mem_one, Language.mem_mul]
  constructor
  · intro derives
    cases derives with
    | none => exact .inl rfl
    | more first rest => exact .inr ⟨_, first, _, rest, rfl⟩
  · rintro (rfl | ⟨v, first, w, rest, rfl⟩)
    · exact .none
    · exact .more first rest

theorem words_list (p : Phrase) :
    (list p).words = p.words * (single (.symbol .comma) * (list p).words + 1) := by
  ext w
  rw [mul_add, mul_one, Language.mem_add, Language.mem_mul]
  constructor
  · intro derives
    cases derives with
    | last derives => exact .inr derives
    | before first rest => exact .inl ⟨_, first, _, cons_mem_single_mul.mpr ⟨rfl, rest⟩, rfl⟩
  · rintro (⟨v, first, u, following, rfl⟩ | last)
    rotate_left
    · exact .last last
    · obtain ⟨_, rfl, w, rest, rfl⟩ := Language.mem_mul.mp following
      exact .before first rest

end Phrase

/-- The words of a category without their first part. -/
def Category.rest (c : Category) : Language Token.Kind :=
  match looseProduction c with
  | .seq _ next => next.words
  | _ => 0

theorem Category.words_eq (c : Category) : c.words = (looseProduction c).words := by
  ext w
  constructor
  · intro derives
    cases derives with
    | the body => exact body
  · exact .the

end Grammar

end Lox
