import Lox.Proofs.Syntax.WellFormed
import Lox.Source

/-!
# Spellings of tokens

A token of a source is written as its kind demands: a reserved word as it is spelt, and an identifier
not as a reserved word.
-/

namespace Lox

/-- A text that a token of the given kind can have. -/
def Token.Kind.Spells (kind : Token.Kind) (text : String) : Prop :=
  match kind with
  | .keyword k => text = k.spelling
  | .identifier => Keyword.ofSpelling? text = none
  | _ => True

/-- A token that is written as its kind demands. -/
def Token.Spelt (t : Token) : Prop := t.kind.Spells t.lexeme

theorem Token.Spelt.keyword {t : Token} {k : Keyword} (spelt : t.Spelt)
    (kind : t.kind = .keyword k) : t.lexeme = k.spelling := by
  rw [Spelt, kind] at spelt
  exact spelt

/-- An identifier is a name that a variable can have. -/
theorem Token.Spelt.plain {t : Token} (spelt : t.Spelt) (kind : t.kind = .identifier) :
    IsPlain t.lexeme := by
  rw [Spelt, kind] at spelt
  -- a reserved word would have been read as one
  have unreserved (k : Keyword) : t.lexeme ≠ k.spelling := by
    intro same
    have found : Keyword.ofSpelling? t.lexeme = some k :=
      Keyword.ofSpelling?_eq_some_iff.mpr same.symm
    rw [show Keyword.ofSpelling? t.lexeme = none from spelt] at found
    cases found
  exact ⟨unreserved .this, unreserved .super⟩

namespace Source

theorem wordKind_spells (word : List Char) : (wordKind word).Spells (String.ofList word) := by
  unfold wordKind
  split
  · -- a reserved word is spelt as it was found
    rename_i k found
    exact (Keyword.ofSpelling?_eq_some_iff.mp found).symm
  · rename_i missing
    exact missing

/-- Only words can be misspelt, and a word has the kind that its text tells. -/
theorem firstSegment_spells {c : Char} {rest : List Char} {kind : Token.Kind}
    (token : (firstSegment c rest).cls = .token kind) :
    kind.Spells (String.ofList (firstSegment c rest).text) := by
  unfold firstSegment at token ⊢
  split at token
  · cases token
  split at token
  · cases token
  split at token
  · unfold stringSegment at token
    split at token <;> cases token
    trivial
  split at token
  · cases token
    trivial
  split at token
  · -- a word: the classes before it have been ruled out
    rename_i space comment quote digit letter
    cases token
    simp only [if_neg space, if_neg comment, if_neg quote, if_neg digit, if_pos letter]
    exact wordKind_spells _
  · split at token <;> cases token
    trivial

/-- The segments that are cut off after some that have a property have it too. -/
theorem segmentsFrom_forall {P : Segment → Prop} (first : ∀ c rest, P (firstSegment c rest))
    (done : Array Segment) (cs : List Char) (before : ∀ segment ∈ done, P segment) :
    ∀ segment ∈ segmentsFrom done cs, P segment := by
  fun_induction segmentsFrom done cs with
  | case1 done => exact before
  | case2 done c rest segment ih =>
    apply ih
    intro segment' member
    rcases Array.mem_push.mp member with old | rfl
    · exact before segment' old
    · exact first c rest

theorem itemsFrom_spelt (line : Nat) (done : Array Item) (segments : List Segment)
    (spells : ∀ segment ∈ segments, ∀ kind, segment.cls = .token kind →
      kind.Spells (String.ofList segment.text))
    (before : ∀ t, .token t ∈ done → t.Spelt) :
    ∀ t, .token t ∈ itemsFrom line done segments → t.Spelt := by
  induction segments generalizing line done with
  | nil =>
    intro t member
    rcases Array.mem_push.mp member with old | last
    · exact before t old
    · cases last
      trivial
  | cons segment rest ih =>
    have others := fun segment' member => spells segment' (List.mem_cons_of_mem _ member)
    unfold itemsFrom
    dsimp only
    split
    · rename_i item made
      apply ih _ _ others
      intro t member
      rcases Array.mem_push.mp member with old | new
      · exact before t old
      · rw [← new, Segment.item?] at made
        split at made <;> cases made
        -- only a segment that is a token becomes one, with the text it has
        rename_i kind cls
        exact spells segment List.mem_cons_self kind cls
    · exact ih _ _ others before

/-- Every token of a source is written as its kind demands. -/
theorem tokens_spelt (source : String) : ∀ t ∈ tokens source, t.Spelt := by
  intro t member
  rw [tokens, List.mem_filterMap] at member
  obtain ⟨item, member, same⟩ := member
  cases item with
  | problem line cause => cases same
  | token t' =>
    cases same
    refine itemsFrom_spelt 1 #[] (segments source) ?_ (by simp) t (Array.mem_toList_iff.mp member)
    intro segment member kind token
    have cut := segmentsFrom_forall
      (P := fun segment => ∀ kind, segment.cls = .token kind →
        kind.Spells (String.ofList segment.text))
      (fun c rest kind token => firstSegment_spells token) #[] source.toList (by simp)
    exact cut segment (Array.mem_toList_iff.mp member) kind token

end Source

end Lox
