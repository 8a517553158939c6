import SingleTable.Expression.NameToken

/-!
# The tokens of a composed text

Expressions are put together from parts, and renaming a token has to be the same thing on the parts as on
the whole. No token reaches over the end of a part if a character that cannot stand in a token follows
(`pieces_append`), and none starts in a part without a mark (`pieces_append_of_no_mark`).
-/

set_option autoImplicit false

namespace SingleTable

/-! ## Pieces -/

/-- A text that continues no token. -/
def Stops (text : List Char) : Prop := ∀ c ∈ text.head?, isTokenChar c = false

theorem stops_iff {text : List Char} : Stops text ↔ (text.takeWhile isTokenChar).isEmpty = true := by
  cases text with
  | nil => simp [Stops]
  | cons c rest => cases h : isTokenChar c <;> simp [Stops, h]

/-- A run of token characters is followed by nothing that continues it. -/
theorem stops_dropWhile (text : List Char) : Stops (text.dropWhile isTokenChar) := by
  intro c hc
  have hhead := List.head?_dropWhile_not isTokenChar text
  rwa [Option.mem_def.1 hc] at hhead

section Pieces

variable {front back : List Char}

theorem takeWhile_append_of_stop (h : Stops back) :
    (front ++ back).takeWhile isTokenChar = front.takeWhile isTokenChar := by
  induction front with
  | nil =>
    cases back with
    | nil => rfl
    | cons c rest => rw [List.nil_append, List.takeWhile_cons, h c rfl, List.takeWhile_nil]; rfl
  | cons c rest ih => rw [List.cons_append, List.takeWhile_cons, List.takeWhile_cons, ih]

theorem dropWhile_append_of_stop (h : Stops back) :
    (front ++ back).dropWhile isTokenChar = front.dropWhile isTokenChar ++ back := by
  induction front with
  | nil =>
    cases back with
    | nil => rfl
    | cons c rest => rw [List.nil_append, List.dropWhile_cons, h c rfl, List.dropWhile_nil]; rfl
  | cons c rest ih =>
    rw [List.cons_append, List.dropWhile_cons, List.dropWhile_cons, ih]
    split <;> rfl

/-- A text is cut at every place that is followed by no token character. -/
theorem pieces_append (h : Stops back) : pieces (front ++ back) = pieces front ++ pieces back := by
  induction front using pieces.induct with
  | case1 => rw [pieces, List.nil_append, List.nil_append]
  | case2 c rest hmark ih =>
    rw [List.cons_append, pieces, takeWhile_append_of_stop h, dropWhile_append_of_stop h, if_pos hmark, ih,
      pieces, if_pos hmark, List.cons_append]
  | case3 c rest hmark ih =>
    rw [List.cons_append, pieces, takeWhile_append_of_stop h, if_neg hmark, ih, pieces, if_neg hmark,
      List.cons_append]

/-- No token starts in a text without a mark, whatever follows. -/
theorem pieces_append_of_no_mark (h : '#' ∉ front) :
    pieces (front ++ back) = front.map .plain ++ pieces back := by
  induction front with
  | nil => rfl
  | cons c rest ih =>
    obtain ⟨hc, hrest⟩ := not_or.1 (mt List.mem_cons.2 h)
    rw [List.cons_append, pieces, if_neg fun hmark => hc hmark.1.symm, ih hrest]
    rfl

/-- The pieces of a text make up the text. -/
theorem flatMap_text_pieces (text : List Char) : (pieces text).flatMap Piece.text = text := by
  induction text using pieces.induct with
  | case1 => rw [pieces, List.flatMap_nil]
  | case2 c rest hmark ih =>
    rw [pieces, if_pos hmark, List.flatMap_cons, ih, Piece.text, List.cons_append,
      List.takeWhile_append_dropWhile, hmark.1]
  | case3 c rest hmark ih =>
    rw [pieces, if_neg hmark, List.flatMap_cons, ih]
    rfl

end Pieces

/-! ## Renaming -/

section Renaming

variable {old new : String}

theorem renameToken_append {front back : String} (h : Stops back.toList) :
    renameToken (front ++ back) old new = renameToken front old new ++ renameToken back old new := by
  rw [renameToken, String.toList_append, pieces_append h, List.flatMap_append, String.ofList_append]
  rfl

theorem renameToken_append_of_no_mark {front back : String} (h : '#' ∉ front.toList) :
    renameToken (front ++ back) old new = front ++ renameToken back old new := by
  have hplain : ∀ chars : List Char, (chars.map Piece.plain).flatMap (Piece.renamed old new) = chars := by
    intro chars
    rw [List.flatMap_map]
    exact List.flatMap_singleton' chars
  rw [renameToken, String.toList_append, pieces_append_of_no_mark h, List.flatMap_append, hplain,
    String.ofList_append, String.ofList_toList]
  rfl

/-- A piece that is the old token becomes the new one. -/
theorem renamed_of_token (new : String) {piece : Piece} (h : piece.token? = some old) :
    piece.text = old.toList ∧ piece.renamed old new = new.toList := by
  refine ⟨?_, by rw [Piece.renamed, if_pos h]⟩
  cases piece with
  | plain c => cases h
  | token name =>
    rw [← Option.some.inj h, String.toList_ofList]
    rfl

/-- Every renamed token changes the length of a text by the same amount. -/
theorem length_flatMap_renamed (old new : String) (found : List Piece) :
    (found.flatMap (Piece.renamed old new)).length +
        found.countP (fun piece => piece.token? = some old) * old.toList.length =
      (found.flatMap Piece.text).length +
        found.countP (fun piece => piece.token? = some old) * new.toList.length := by
  induction found with
  | nil => rw [List.countP_nil, Nat.zero_mul, Nat.zero_mul, List.flatMap_nil, List.flatMap_nil]
  | cons piece rest ih =>
    rw [List.flatMap_cons, List.flatMap_cons, List.length_append, List.length_append, List.countP_cons]
    by_cases h : piece.token? = some old
    · obtain ⟨htext, hrenamed⟩ := renamed_of_token new h
      rw [if_pos (decide_eq_true h), htext, hrenamed, Nat.succ_mul, Nat.succ_mul]
      omega
    · rw [if_neg (by simpa using h), Nat.add_zero, Piece.renamed, if_neg h]
      omega

/-- Texts put together of equally long parts are equal only if all parts are. -/
theorem eq_of_flatMap_eq {α β : Type} {f g : α → List β} {items : List α}
    (hlength : ∀ item, (f item).length = (g item).length) (h : items.flatMap f = items.flatMap g) :
    ∀ item ∈ items, f item = g item := by
  induction items with
  | nil => intro item hitem; cases hitem
  | cons first rest ih =>
    rw [List.flatMap_cons, List.flatMap_cons] at h
    obtain ⟨hfirst, hrest⟩ := List.append_inj h (hlength first)
    intro item hitem
    rcases List.mem_cons.1 hitem with rfl | hitem
    · exact hfirst
    · exact ih hrest item hitem

/-- Renaming a token leaves a text as it is exactly if the token is none of the text or keeps its
spelling. -/
theorem renameToken_eq_self_iff {expression : String} :
    renameToken expression old new = expression ↔ (old ∈ nameTokens expression → old = new) := by
  have hself : renameToken expression old new = expression ↔
      (pieces expression.toList).flatMap (Piece.renamed old new) =
        (pieces expression.toList).flatMap Piece.text := by
    rw [renameToken, ← String.toList_inj, String.toList_ofList, flatMap_text_pieces]
  rw [hself]
  constructor
  · intro h hmem
    obtain ⟨piece, hpiece, htoken⟩ := List.mem_filterMap.1 hmem
    -- The text has kept its length, so the two tokens are equally long.
    have hsum := length_flatMap_renamed old new (pieces expression.toList)
    rw [h] at hsum
    have hcount : 0 < (pieces expression.toList).countP (fun piece => piece.token? = some old) :=
      List.countP_pos_iff.2 ⟨piece, hpiece, decide_eq_true htoken⟩
    have hlength : old.toList.length = new.toList.length :=
      Nat.eq_of_mul_eq_mul_left hcount (Nat.add_left_cancel hsum)
    have hparts := eq_of_flatMap_eq (f := Piece.renamed old new) (g := Piece.text) (fun item => ?_) h
    · obtain ⟨htext, hrenamed⟩ := renamed_of_token new htoken
      have heq := hparts piece hpiece
      rw [htext, hrenamed] at heq
      exact String.toList_inj.1 heq.symm
    · by_cases hitem : item.token? = some old
      · obtain ⟨htext, hrenamed⟩ := renamed_of_token new hitem
        rw [htext, hrenamed, hlength]
      · rw [Piece.renamed, if_neg hitem]
  -- Conversely, a piece that is no such token keeps its text anyway.
  · intro h
    rw [List.flatMap_def, List.flatMap_def]
    congr 1
    apply List.map_congr_left
    intro piece hpiece
    by_cases htoken : piece.token? = some old
    · obtain ⟨htext, hrenamed⟩ := renamed_of_token new htoken
      rw [htext, hrenamed, h (List.mem_filterMap.2 ⟨piece, hpiece, htoken⟩)]
    · rw [Piece.renamed, if_neg htoken]

end Renaming

end SingleTable
