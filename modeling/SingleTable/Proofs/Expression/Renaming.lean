import SingleTable.Proofs.Condition.Attribute

/-!
# Renaming whole tokens

Tokens are renamed in the text of an expression, so the new text has to be cut in the places in which the old
one was cut. What a text is cut into can be told without cutting it: pieces are the pieces of a text exactly if
they make up the text and are separated (`pieces_eq_iff`), that is, no token could reach further and no lone
mark could start a token. Whether pieces are separated depends on what each piece starts with, and a renamed
token starts with the same mark, so separated pieces stay separated (`Separated.rename`). No token is merged
with its neighbours or split up, and the pieces of the renamed text are the renamed pieces
(`pieces_renameToken`).

An expression is determined by its tokens and by the texts between them (`eq_of_tokens_of_texts`). Renaming
keeps the texts, so a second renaming undoes the first one as soon as it does so on the tokens.
-/

set_option autoImplicit false

namespace SingleTable

/-! ## Separated pieces -/

/-- Pieces that are not part of longer tokens. -/
inductive Separated : List Piece → Prop
  /-- There are no pieces. -/
  | nil : Separated []
  /-- A plain character; a lone mark has nothing behind it that it could start a token with. -/
  | plain {c : Char} {found : List Piece} (lone : c = '#' → Stops (found.flatMap Piece.text))
      (rest : Separated found) : Separated (.plain c :: found)
  /-- A token, which is not empty and reaches as far as token characters do. -/
  | token {name : List Char} {found : List Piece} (nonempty : name ≠ [])
      (chars : ∀ c ∈ name, isTokenChar c = true) (stops : Stops (found.flatMap Piece.text))
      (rest : Separated found) : Separated (.token name :: found)

/-- The pieces of a text are separated. -/
theorem separated_pieces (text : List Char) : Separated (pieces text) := by
  induction text using pieces.induct with
  | case1 =>
    rw [pieces]
    exact .nil
  | case2 c rest hmark ih =>
    rw [pieces, if_pos hmark]
    refine .token (by simpa using hmark.2) (List.all_eq_true.1 List.all_takeWhile) ?_ ih
    rw [flatMap_text_pieces]
    exact stops_dropWhile rest
  | case3 c rest hmark ih =>
    rw [pieces, if_neg hmark]
    refine .plain (fun hc => ?_) ih
    rw [flatMap_text_pieces, stops_iff]
    simpa [hc] using hmark

/-- Separated pieces are the pieces of the text that they make up. -/
theorem Separated.pieces_text {found : List Piece} (h : Separated found) :
    pieces (found.flatMap Piece.text) = found := by
  induction h with
  | nil => rw [List.flatMap_nil, pieces]
  | @plain c found lone rest ih =>
    have hplain : ¬ (c = '#' ∧ ((found.flatMap Piece.text).takeWhile isTokenChar).isEmpty = false) := by
      rintro ⟨hc, hrun⟩
      rw [stops_iff.1 (lone hc)] at hrun
      cases hrun
    rw [List.flatMap_cons, Piece.text, List.singleton_append, pieces, if_neg hplain, ih]
  | @token name found nonempty chars stops rest ih =>
    -- The run behind the mark is the name, because the rest does not continue it.
    have htake : (name ++ found.flatMap Piece.text).takeWhile isTokenChar = name := by
      rw [takeWhile_append_of_stop stops, List.takeWhile_eq_self_iff.2 chars]
    have hdrop : (name ++ found.flatMap Piece.text).dropWhile isTokenChar = found.flatMap Piece.text := by
      rw [dropWhile_append_of_stop stops, List.dropWhile_eq_nil_iff.2 chars, List.nil_append]
    rw [List.flatMap_cons, Piece.text, List.cons_append, pieces, htake, hdrop,
      if_pos ⟨rfl, by simpa using nonempty⟩, ih]

/-- **A text is cut in one way.** The pieces of a text are the separated pieces that make it up. -/
theorem pieces_eq_iff {text : List Char} {found : List Piece} :
    pieces text = found ↔ Separated found ∧ found.flatMap Piece.text = text := by
  constructor
  · rintro rfl
    exact ⟨separated_pieces text, flatMap_text_pieces text⟩
  · rintro ⟨hseparated, rfl⟩
    exact hseparated.pieces_text

/-! ## Renamed pieces -/

/-- A piece with a token of one name turned into a token of another. -/
def Piece.rename (old new : String) : Piece → Piece
  | .plain c => .plain c
  | .token name => .token (if name = old.toList then new.toList else name)

section Renaming

variable {old new : String}

theorem ofList_mark_eq_iff {name : List Char} :
    String.ofList ('#' :: name) = nameToken old ↔ name = old.toList := by
  have hlist : (nameToken old).toList = '#' :: old.toList := String.toList_append
  rw [← String.toList_inj, String.toList_ofList, hlist, List.cons_inj_right]

/-- The text of a renamed piece is what the renaming writes. -/
theorem text_rename (piece : Piece) :
    (piece.rename old new).text = piece.renamed (nameToken old) (nameToken new) := by
  cases piece with
  | plain c => rfl
  | token name =>
    have hlist : (nameToken new).toList = '#' :: new.toList := String.toList_append
    by_cases hname : name = old.toList
    · have htoken : (Piece.token name).token? = some (nameToken old) :=
        congrArg some (ofList_mark_eq_iff.2 hname)
      rw [Piece.rename, if_pos hname, Piece.renamed, if_pos htoken, hlist]
      rfl
    · have htoken : (Piece.token name).token? ≠ some (nameToken old) :=
        mt Option.some.inj (mt ofList_mark_eq_iff.1 hname)
      rw [Piece.rename, if_neg hname, Piece.renamed, if_neg htoken]

/-- The token of a renamed piece. -/
theorem token?_rename (piece : Piece) :
    (piece.rename old new).token? =
      piece.token?.map fun token => if token = nameToken old then nameToken new else token := by
  cases piece with
  | plain c => rfl
  | token name =>
    rw [Piece.rename, Piece.token?, Piece.token?, Option.map_some, Option.some_inj]
    split
    · rename_i hname
      rw [if_pos (ofList_mark_eq_iff.2 hname), ofList_mark_eq_iff.2 rfl]
    · rename_i hname
      rw [if_neg (mt ofList_mark_eq_iff.1 hname)]

/-- Renamed pieces start as the pieces did: a plain character is kept, and a token starts with its mark. -/
theorem head?_text_rename (found : List Piece) :
    ((found.map (Piece.rename old new)).flatMap Piece.text).head? = (found.flatMap Piece.text).head? := by
  cases found with
  | nil => rfl
  | cons piece rest => cases piece <;> rfl

/-- Separated pieces stay separated when tokens are renamed. -/
theorem Separated.rename (hnew : IsTokenName new) {found : List Piece} (h : Separated found) :
    Separated (found.map (Piece.rename old new)) := by
  have hstops : ∀ {found : List Piece}, Stops (found.flatMap Piece.text) →
      Stops ((found.map (Piece.rename old new)).flatMap Piece.text) := by
    intro found hfound
    rwa [Stops, head?_text_rename]
  induction h with
  | nil => exact .nil
  | plain lone rest ih => exact .plain (fun hc => hstops (lone hc)) ih
  | @token name found nonempty chars stops rest ih =>
    rw [List.map_cons, Piece.rename]
    split
    · exact .token (by simpa using hnew.nonempty) hnew.chars (hstops stops) ih
    · exact .token nonempty chars (hstops stops) ih

/-- **A renamed text is cut where the text was.** Its pieces are the renamed pieces. -/
theorem pieces_renameToken (hnew : IsTokenName new) (expression : String) :
    pieces (renameToken expression (nameToken old) (nameToken new)).toList =
      (pieces expression.toList).map (Piece.rename old new) := by
  rw [pieces_eq_iff]
  refine ⟨(separated_pieces _).rename hnew, ?_⟩
  rw [renameToken, String.toList_ofList, List.flatMap_map]
  simp only [text_rename]

/-- The tokens of a renamed text are the tokens of the text with the new one in place of the old one. -/
theorem nameTokens_renameToken (hnew : IsTokenName new) (expression : String) :
    nameTokens (renameToken expression (nameToken old) (nameToken new)) =
      (nameTokens expression).map fun token => if token = nameToken old then nameToken new else token := by
  rw [nameTokens, pieces_renameToken hnew, List.filterMap_map, nameTokens, List.map_filterMap]
  simp only [Function.comp_def, token?_rename]

end Renaming

/-! ## Texts between tokens -/

/-- The texts before, between and behind the tokens of a list of pieces. -/
def textsAround : List Piece → List String
  | [] => [""]
  | .plain c :: rest => (textsAround rest).modifyHead (String.singleton c ++ ·)
  | .token _ :: rest => "" :: textsAround rest

/-- The texts before the first token of an expression, between its tokens and behind the last one. -/
def textsBetween (expression : String) : List String := textsAround (pieces expression.toList)

/-- There is a text around any tokens. -/
theorem textsAround_ne_nil (found : List Piece) : textsAround found ≠ [] := by
  induction found with
  | nil => exact List.cons_ne_nil _ _
  | cons piece found ih =>
    cases piece with
    | plain c => simpa [textsAround] using ih
    | token name => exact List.cons_ne_nil _ _

/-- What is put before the first text stands before the whole. -/
theorem join_modifyHead {texts ends : List String} (htexts : texts ≠ []) (hends : ends ≠ []) (front : String) :
    String.join (List.zipWith (· ++ ·) (texts.modifyHead (front ++ ·)) ends) =
      front ++ String.join (List.zipWith (· ++ ·) texts ends) := by
  obtain ⟨text, texts, rfl⟩ := List.exists_cons_of_ne_nil htexts
  obtain ⟨token, ends, rfl⟩ := List.exists_cons_of_ne_nil hends
  rw [List.modifyHead_cons, List.zipWith_cons_cons, List.zipWith_cons_cons, String.join_cons,
    String.join_cons, String.append_assoc, String.append_assoc, String.append_assoc]

/-- The texts around the tokens of pieces and the tokens make up the text of the pieces. -/
theorem join_textsAround (found : List Piece) :
    String.join (List.zipWith (· ++ ·) (textsAround found) (found.filterMap Piece.token? ++ [""])) =
      String.ofList (found.flatMap Piece.text) := by
  induction found with
  | nil => rfl
  | cons piece found ih =>
    cases piece with
    | plain c =>
      have htokens : (Piece.plain c :: found).filterMap Piece.token? = found.filterMap Piece.token? :=
        List.filterMap_cons_none rfl
      have hends : found.filterMap Piece.token? ++ [""] ≠ [] := List.append_ne_nil_of_right_ne_nil _ (by simp)
      rw [textsAround, htokens, join_modifyHead (textsAround_ne_nil found) hends, ih, List.flatMap_cons,
        String.ofList_append]
      rfl
    | token name =>
      have htokens : (Piece.token name :: found).filterMap Piece.token? =
          String.ofList ('#' :: name) :: found.filterMap Piece.token? :=
        List.filterMap_cons_some rfl
      rw [textsAround, htokens, List.cons_append, List.zipWith_cons_cons, String.join_cons, ih,
        List.flatMap_cons, String.ofList_append, String.empty_append]
      rfl

/-- **Tokens and texts make up an expression.** -/
theorem join_textsBetween (expression : String) :
    String.join (List.zipWith (· ++ ·) (textsBetween expression) (nameTokens expression ++ [""])) =
      expression := by
  rw [textsBetween, nameTokens, join_textsAround, flatMap_text_pieces, String.ofList_toList]

/-- An expression is determined by its tokens and by the texts between them. -/
theorem eq_of_tokens_of_texts {expression other : String} (htokens : nameTokens expression = nameTokens other)
    (htexts : textsBetween expression = textsBetween other) : expression = other := by
  rw [← join_textsBetween expression, htokens, htexts, join_textsBetween]

section Renaming

variable {old new : String}

/-- Renaming pieces changes no text around their tokens. -/
theorem textsAround_rename (found : List Piece) :
    textsAround (found.map (Piece.rename old new)) = textsAround found := by
  induction found with
  | nil => rfl
  | cons piece found ih =>
    cases piece with
    | plain c => rw [List.map_cons, Piece.rename, textsAround, ih, textsAround]
    | token name => rw [List.map_cons, Piece.rename, textsAround, ih, textsAround]

/-- Renaming changes no text between tokens. -/
theorem textsBetween_renameToken (hnew : IsTokenName new) (expression : String) :
    textsBetween (renameToken expression (nameToken old) (nameToken new)) = textsBetween expression := by
  rw [textsBetween, pieces_renameToken hnew, textsAround_rename, textsBetween]

/-- **Renaming back.** Renaming a token and then the new one gives the expression again exactly if the new token
was none of the expression or is the old one. -/
theorem renameToken_renameToken_iff (hold : IsTokenName old) (hnew : IsTokenName new) {expression : String} :
    renameToken (renameToken expression (nameToken old) (nameToken new)) (nameToken new) (nameToken old) =
        expression ↔
      (nameToken new ∈ nameTokens expression → new = old) := by
  have htokens : nameTokens (renameToken (renameToken expression (nameToken old) (nameToken new))
      (nameToken new) (nameToken old)) = _ := nameTokens_renameToken hold _
  rw [nameTokens_renameToken hnew, List.map_map] at htokens
  constructor
  · intro h hmem
    rw [h] at htokens
    -- The new token of the expression is kept by the first renaming and becomes the old one by the second.
    have hkept := List.map_inj_left.1 (htokens.symm.trans (List.map_id _).symm) (nameToken new) hmem
    rw [Function.comp_apply, ite_self, if_pos rfl] at hkept
    exact (nameToken_inj hkept).symm
  · intro h
    apply eq_of_tokens_of_texts
    · rw [htokens]
      refine (List.map_congr_left fun token hmem => ?_).trans (List.map_id _)
      rw [Function.comp_apply, id]
      by_cases hsame : token = nameToken old
      · rw [if_pos hsame, if_pos rfl, hsame]
      · have hother : token ≠ nameToken new := by
          rintro rfl
          exact hsame (congrArg nameToken (h hmem))
        rw [if_neg hsame, if_neg hother]
    · rw [textsBetween_renameToken hold, textsBetween_renameToken hnew]

/-- **Tokens are renamed as a whole.** For any two tokens and whatever the expression, renaming replaces every
token that is equal to the old one and keeps all others, it keeps the text between the tokens, and it is undone
by renaming back exactly if the new token was none of the expression or is the old one. -/
theorem tokens_renamed_whole (hold : IsTokenName old) (hnew : IsTokenName new) (expression : String) :
    nameTokens (renameToken expression (nameToken old) (nameToken new)) =
        ((nameTokens expression).map fun token => if token = nameToken old then nameToken new else token) ∧
      textsBetween (renameToken expression (nameToken old) (nameToken new)) = textsBetween expression ∧
      (renameToken (renameToken expression (nameToken old) (nameToken new)) (nameToken new) (nameToken old) =
          expression ↔
        (nameToken new ∈ nameTokens expression → new = old)) :=
  ⟨nameTokens_renameToken hnew expression, textsBetween_renameToken hnew expression,
    renameToken_renameToken_iff hold hnew⟩

/-- Tokens that begin with the old one or hold marks of their own are kept, and so are lone marks. -/
theorem tokens_renamed_whole_user :
    IsTokenName "user" ∧ IsTokenName "SK" ∧
      nameTokens (renameToken "#user#2 = :a AND x#user[0].# (#username) > #user" "#user" "#SK") =
        ["#user#2", "#SK", "#username", "#SK"] ∧
      textsBetween (renameToken "#user#2 = :a AND x#user[0].# (#username) > #user" "#user" "#SK") =
        ["", " = :a AND x", "[0].# (", ") > ", ""] ∧
      renameToken (renameToken "#user#2 = :a AND x#user[0].# (#username) > #user" "#user" "#SK") "#SK" "#user" =
        "#user#2 = :a AND x#user[0].# (#username) > #user" := by
  have hold : IsTokenName "user" := by decide +kernel
  have hnew : IsTokenName "SK" := by decide +kernel
  obtain ⟨htokens, htexts, hback⟩ :=
    tokens_renamed_whole hold hnew "#user#2 = :a AND x#user[0].# (#username) > #user"
  refine ⟨hold, hnew, htokens.trans ?_, htexts.trans ?_, hback.2 fun hmem => ?_⟩
  · decide +kernel
  · decide +kernel
  · exact absurd hmem (by decide +kernel)

end Renaming

/-- A new token that the expression has already cannot be told from the renamed one. -/
example :
    renameToken (renameToken "#user = #SK" "#user" "#SK") "#SK" "#user" = "#user = #user" := by
  decide +kernel

end SingleTable
