import Lox.Source

/-!
# The items of the rest of a source

`Source.itemsAt` gives the items of characters that start on a given line, with an equation for the
piece that is cut off first. A run of spaces may be cut into single spaces: that makes no difference to
the items.
-/

namespace Lox

namespace Source

/-- A segment that is cut off leaves less. -/
theorem length_drop_firstSegment (c : Char) (rest : List Char) :
    ((c :: rest).drop (firstSegment c rest).text.length).length < (c :: rest).length := by
  have := List.length_pos_iff.mpr (firstSegment_text_ne_nil c rest)
  simp only [List.length_drop, List.length_cons]
  omega

theorem segmentsFrom_eq (done : Array Segment) (cs : List Char) :
    segmentsFrom done cs = done ++ segmentsFrom #[] cs := by
  induction length : cs.length using Nat.strongRecOn generalizing cs done with
  | _ n ih =>
    cases cs with
    | nil => simp [segmentsFrom]
    | cons c rest =>
      have shorter := length ▸ length_drop_firstSegment c rest
      rw [segmentsFrom, segmentsFrom, ih _ shorter (done.push _) _ rfl,
        ih _ shorter (#[].push _) _ rfl]
      simp

theorem itemsFrom_eq (line : Nat) (done : Array Item) (segments : List Segment) :
    itemsFrom line done segments = done ++ itemsFrom line #[] segments := by
  induction segments generalizing line done with
  | nil => simp [itemsFrom]
  | cons segment rest ih =>
    unfold itemsFrom
    dsimp only
    split
    · rw [ih _ (done.push _), ih _ (#[].push _)]
      simp
    · exact ih _ _

/-- The items of characters that start on the given line. -/
def itemsAt (line : Nat) (cs : List Char) : List Item :=
  (itemsFrom line #[] (segmentsFrom #[] cs).toList).toList

/-- A source without lexical problems has its tokens for items. -/
theorem items_eq_tokens {source : String} {ts : List Token} :
    items source = ts.map Item.token ↔ tokens source = ts ∧ problems source = [] := by
  unfold tokens problems
  generalize items source = items
  induction items generalizing ts with
  | nil => cases ts <;> simp
  | cons item rest ih =>
    cases item with
    | token t => cases ts <;> simp [Item.token?, Item.diagnostic?, ih, and_assoc]
    | problem line cause => cases ts <;> simp [Item.diagnostic?]

theorem items_eq (source : String) : items source = itemsAt 1 source.toList := rfl

theorem itemsAt_nil (line : Nat) : itemsAt line [] = [.token ⟨.eof, "", line⟩] := by
  simp [itemsAt, segmentsFrom, itemsFrom]

/-- The items after a segment are those of the rest, from the line on which the segment ends. -/
theorem itemsAt_segment (line : Nat) (c : Char) (rest : List Char) :
    itemsAt line (c :: rest) =
      ((firstSegment c rest).item? (line + newlines (firstSegment c rest).text)).toList ++
        itemsAt (line + newlines (firstSegment c rest).text)
          ((c :: rest).drop (firstSegment c rest).text.length) := by
  rw [itemsAt, segmentsFrom, segmentsFrom_eq]
  simp only [Array.push_empty, Array.toList_append, List.cons_append, List.nil_append]
  rw [itemsFrom]
  split
  · rename_i item made
    rw [itemsFrom_eq, made, itemsAt]
    simp
  · rename_i made
    rw [made, itemsAt]
    simp

/-! ### Symbols -/

/-- Apart from the symbols that an equals sign can make longer, the first character tells. -/
theorem symbol?_single {c : Char} (first : c ∉ ['!', '=', '<', '>']) (cs : List Char) :
    symbol? (c :: cs) = symbol? [c] := by
  by_cases single : c ∈ ['(', ')', '\x7b', '\x7d', ',', '.', '-', '+', ';', '/', '*']
  · simp only [List.mem_cons, List.not_mem_nil, or_false] at single
    rcases single with rfl | rfl | rfl | rfl | rfl | rfl | rfl | rfl | rfl | rfl | rfl <;> rfl
  · have none (cs : List Char) : symbol? (c :: cs) = none := by
      unfold symbol?
      split
      case h_20 => rfl
      all_goals
        rename_i starts
        cases starts
        exfalso
        first | (apply first; decide) | (apply single; decide)
    rw [none, none]

/-- A symbol is made of two characters at most. -/
theorem symbol?_equal (c : Char) (more : List Char) :
    symbol? (c :: '=' :: more) = symbol? [c, '='] := by
  by_cases first : c ∈ ['!', '=', '<', '>']
  · simp only [List.mem_cons, List.not_mem_nil, or_false] at first
    rcases first with rfl | rfl | rfl | rfl <;> rfl
  · rw [symbol?_single first, symbol?_single first ['=']]

theorem symbol?_other (c : Char) {rest : List Char} (differs : rest.head? ≠ some '=') :
    symbol? (c :: rest) = symbol? [c] := by
  by_cases first : c ∈ ['!', '=', '<', '>']
  · cases rest with
    | nil => rfl
    | cons e more =>
      have differs : e ≠ '=' := fun same => differs (by rw [same]; rfl)
      simp only [List.mem_cons, List.not_mem_nil, or_false] at first
      rcases first with rfl | rfl | rfl | rfl <;> simp [symbol?, differs]
  · exact symbol?_single first rest

/-! ### Pieces -/

/-- What is cut off first when spaces are cut off one by one. -/
def piece (c : Char) (rest : List Char) : Segment :=
  if isSpace c then ⟨[c], .blank⟩ else firstSegment c rest

theorem piece_isPrefix (c : Char) (rest : List Char) : (piece c rest).text <+: c :: rest := by
  unfold piece
  split
  · exact List.cons_prefix_cons.mpr ⟨rfl, List.nil_prefix⟩
  · exact firstSegment_isPrefix c rest

theorem piece_text_ne_nil (c : Char) (rest : List Char) : (piece c rest).text ≠ [] := by
  unfold piece
  split
  · exact List.cons_ne_nil _ _
  · exact firstSegment_text_ne_nil c rest

theorem firstSegment_space {c : Char} {rest : List Char} (space : isSpace c) :
    firstSegment c rest = ⟨c :: rest.takeWhile isSpace, .blank⟩ := by
  rw [firstSegment, if_pos space]

theorem newlines_cons (c : Char) (cs : List Char) :
    newlines (c :: cs) = newlines [c] + newlines cs := by
  rw [← List.singleton_append, newlines, List.count_append]
  rfl

/-- A space at the front has no item; it may start a new line. -/
theorem itemsAt_space {c : Char} (space : isSpace c) (line : Nat) (rest : List Char) :
    itemsAt line (c :: rest) = itemsAt (line + newlines [c]) rest := by
  rw [itemsAt_segment, firstSegment_space space]
  simp only [Segment.item?, Option.toList_none, List.nil_append, List.length_cons,
    List.drop_succ_cons]
  cases rest with
  | nil => rfl
  | cons d rest =>
    by_cases also : isSpace d
    · -- the spaces that follow are cut off together with the first one, or after it
      rw [itemsAt_segment _ d, firstSegment_space also, newlines_cons, ← Nat.add_assoc]
      simp [also, Segment.item?]
    · simp [also]

/-- The items after a piece are those of the rest, from the line on which the piece ends. -/
theorem itemsAt_cons (line : Nat) (c : Char) (rest : List Char) :
    itemsAt line (c :: rest) =
      ((piece c rest).item? (line + newlines (piece c rest).text)).toList ++
        itemsAt (line + newlines (piece c rest).text)
          ((c :: rest).drop (piece c rest).text.length) := by
  by_cases space : isSpace c
  · have single : piece c rest = ⟨[c], .blank⟩ := if_pos space
    rw [single, itemsAt_space space]
    rfl
  · have segment : piece c rest = firstSegment c rest := if_neg space
    rw [segment]
    exact itemsAt_segment line c rest

end Source

end Lox
