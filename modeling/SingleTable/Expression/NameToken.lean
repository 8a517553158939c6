import SingleTable.Text.Basic

/-!
# Name tokens

Where an expression refers to a name. A name token is the mark `#` with the longest run of token
characters behind it, which are all but blanks, points, brackets, parentheses and commas; a mark with
none behind it is plain text. An expression is cut into its tokens and the plain characters between
them from left to right, and a token is renamed only as a whole.
-/

set_option autoImplicit false

namespace SingleTable

/-- Whether a character can stand in a name token. -/
def isTokenChar (c : Char) : Bool :=
  !(Text.isBlank c || c ∈ ['.', '[', ']', '(', ')', ','])

/-- A piece of an expression. -/
inductive Piece where
  /-- A character outside of name tokens. -/
  | plain (c : Char)
  /-- A name token, without its mark. -/
  | token (name : List Char)
  deriving DecidableEq

/-- The pieces of an expression. -/
def pieces : List Char → List Piece
  | [] => []
  | c :: rest =>
    if c = '#' ∧ (rest.takeWhile isTokenChar).isEmpty = false then
      .token (rest.takeWhile isTokenChar) :: pieces (rest.dropWhile isTokenChar)
    else .plain c :: pieces rest
termination_by text => text.length
decreasing_by
  · exact Nat.lt_succ_of_le (List.dropWhile_sublist _).length_le
  · exact Nat.lt_succ_self _

/-- The text of a piece. -/
def Piece.text : Piece → List Char
  | .plain c => [c]
  | .token name => '#' :: name

/-- The name token of a piece. -/
def Piece.token? : Piece → Option String
  | .plain _ => none
  | .token name => some (String.ofList ('#' :: name))

/-- The name tokens of an expression in order and with repetitions. -/
def nameTokens (expression : String) : List String :=
  (pieces expression.toList).filterMap Piece.token?

/-- The text of a piece after a token was renamed. -/
def Piece.renamed (old new : String) (piece : Piece) : List Char :=
  if piece.token? = some old then new.toList else piece.text

/-- An expression with every token that is equal to the old one replaced by the new one. -/
def renameToken (expression old new : String) : String :=
  String.ofList ((pieces expression.toList).flatMap (Piece.renamed old new))

end SingleTable
