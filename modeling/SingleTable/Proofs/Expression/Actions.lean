import SingleTable.Proofs.Expression.ClauseGrammar
import SingleTable.Proofs.Expression.Plain

/-!
# The texts of actions

The text of an action is made of a few words, which are given by its operation (`Operation.words`), an operand
and a placeholder. Operands and placeholders of plain handles are solid and start with a mark, so the text of
an action on them is the text of an action to a reader of clauses (`Action.isActionText`), and the clause and
the words tell the operation, the operand and the placeholder (`Operation.words_inj`).
-/

set_option autoImplicit false

namespace SingleTable

/-! ## Operations -/

/-- What an action does, apart from its target and value. -/
inductive Operation where
  | set
  | setIfAbsent
  | increment
  | decrement
  | append
  | remove
  | add
  | delete
  deriving DecidableEq

/-- The operation of an action. -/
def Action.operation : Action → Operation
  | set _ _ => .set
  | setIfAbsent _ _ => .setIfAbsent
  | increment _ _ => .increment
  | decrement _ _ => .decrement
  | append _ _ => .append
  | remove _ => .remove
  | add _ _ => .add
  | delete _ _ => .delete

namespace Operation

/-- The clause of an operation. -/
def clause : Operation → Clause
  | set | setIfAbsent | increment | decrement | append => .set
  | remove => .remove
  | add => .add
  | delete => .delete

/-- The words of an operation on an operand with a placeholder. -/
def words (operation : Operation) (operand placeholder : String) : List String :=
  match operation with
  | set => [operand, "=", placeholder]
  | setIfAbsent => [operand, "=", "if_not_exists(" ++ operand ++ ",", placeholder ++ ")"]
  | increment => [operand, "=", operand, "+", placeholder]
  | decrement => [operand, "=", operand, "-", placeholder]
  | append => [operand, "=", "list_append(" ++ operand ++ ",", placeholder ++ ")"]
  | remove => [operand]
  | add => [operand, placeholder]
  | delete => [operand, placeholder]

/-- Every word that an operation can have. -/
def possibleWords (operand placeholder : String) : List String :=
  [operand, placeholder, "=", "+", "-", "if_not_exists(" ++ operand ++ ",", "list_append(" ++ operand ++ ",",
    placeholder ++ ")"]

theorem words_subset (operation : Operation) (operand placeholder : String) :
    operation.words operand placeholder ⊆ possibleWords operand placeholder := by
  cases operation <;> simp [words, possibleWords]

theorem words_ne_nil (operation : Operation) (operand placeholder : String) :
    operation.words operand placeholder ≠ [] := by
  cases operation <;> exact List.cons_ne_nil _ _

/-- The operation that the clause and the words of an action show: their number tells it, then the function
that is called or the sign. -/
def ofWords : Clause → List String → Option Operation
  | .set, [_, _, _] => some set
  | .set, [_, _, call, _] => if call.toList.head? = some 'i' then some setIfAbsent else some append
  | .set, [_, _, _, sign, _] => if sign = "+" then some increment else some decrement
  | .set, _ => none
  | .remove, _ => some remove
  | .add, _ => some add
  | .delete, _ => some delete

theorem ofWords_words (operation : Operation) (operand placeholder : String) :
    ofWords operation.clause (operation.words operand placeholder) = some operation := by
  cases operation <;> simp [clause, words, ofWords]

/-- The clause and the words of an action tell its operation, its operand and its placeholder, which a removal
does not have. -/
theorem words_inj {operation other : Operation} {operand operand' placeholder placeholder' : String}
    (hclause : operation.clause = other.clause)
    (h : operation.words operand placeholder = other.words operand' placeholder') :
    operation = other ∧ operand = operand' ∧ (operation ≠ .remove → placeholder = placeholder') := by
  have hsame : some operation = some other := by
    rw [← ofWords_words operation operand placeholder, hclause, h, ofWords_words]
  cases hsame
  refine ⟨rfl, ?_⟩
  cases operation with
  | remove => exact ⟨(List.cons.inj h).1, fun hother => absurd rfl hother⟩
  | _ => simp_all [words]

end Operation

/-! ## Pieces -/

/-- A character that divides no piece of an action. -/
def IsPieceChar (c : Char) : Prop := IsItemChar c ∧ c ≠ ' '

instance (c : Char) : Decidable (IsPieceChar c) := inferInstanceAs (Decidable (_ ∧ _))

/-- A piece of an action, which starts with a mark and is not divided. -/
structure IsPiece (text : String) : Prop where
  /-- No blank, comma or parenthesis divides the piece. -/
  chars : MadeOf IsPieceChar text
  /-- The piece starts with a mark. -/
  starts : ∃ c ∈ ['#', ':'], text.toList.head? = some c

theorem IsPlainChar.piece {c : Char} (h : IsPlainChar c) : IsPieceChar c := by
  refine ⟨⟨h.inner, ?_⟩, ?_⟩
  · rintro rfl
    exact absurd h.1 (by decide)
  · rintro rfl
    exact absurd h.1 (by decide)

/-- The operand of a plain handle is a piece. -/
theorem Handle.IsPlain.piece_operand {handle : Handle} (h : handle.IsPlain) : IsPiece handle.operand.text := by
  refine ⟨?_, '#', by decide, head?_operand handle⟩
  intro c hc
  exact (h.madeOf_operand c hc).of_plain_of_signs (fun _ => IsPlainChar.piece) (by decide)

/-- The placeholder of a plain name is a piece. -/
theorem IsPlainName.piece_placeholder {name : String} (h : IsPlainName name) (number : Nat) :
    IsPiece (valuePlaceholder name "" number) := by
  constructor
  · have hmark : MadeOf IsPieceChar ":" := by decide +kernel
    have hname : MadeOf IsPieceChar name := fun c hc => (h.chars c hc).piece
    have htag : MadeOf IsPieceChar "" := by decide +kernel
    have hline : MadeOf IsPieceChar "_" := by decide +kernel
    have hnumber : MadeOf IsPieceChar (toString number) := fun c hc => (plain_toString number c hc).piece
    exact (((hmark.append hname).append htag).append hline).append hnumber
  · refine ⟨':', by decide, ?_⟩
    rw [valuePlaceholder, String.append_assoc, String.append_assoc, String.append_assoc]
    exact head?_append (by decide +kernel) _

namespace IsPiece

variable {text : String}

theorem items (h : IsPiece text) : MadeOf IsItemChar text := fun c hc => (h.chars c hc).1

theorem flat (h : IsPiece text) : IsFlat text := fun c hc => (h.items c hc).1

theorem isWord (h : IsPiece text) : IsWord text := fun hblank => (h.chars ' ' hblank).2 rfl

/-- A word that starts with a piece starts no clause. -/
theorem not_starts (h : IsPiece text) (back : String) : ¬ Clause.Starts (text ++ back) := by
  have hmarks : ∀ c ∈ ['#', ':'], c ∉ Clause.initials := by simp [Clause.initials]
  obtain ⟨c, hmark, hhead⟩ := h.starts
  exact Clause.not_starts_of_head? (head?_append hhead back) (hmarks c hmark)

end IsPiece

/-! ## Actions -/

/-- The words of an operation on pieces are words that start no clause. -/
theorem Operation.of_mem_words {operation : Operation} {operand placeholder word : String}
    (hoperand : IsPiece operand) (hplaceholder : IsPiece placeholder)
    (h : word ∈ operation.words operand placeholder) : IsWord word ∧ ¬ Clause.Starts word := by
  have hpiece : ∀ {piece : String}, IsPiece piece → IsWord piece ∧ ¬ Clause.Starts piece := by
    intro piece hpiece
    refine ⟨hpiece.isWord, ?_⟩
    rw [← String.append_empty (s := piece)]
    exact hpiece.not_starts ""
  have hsign : ∀ sign ∈ ["=", "+", "-"], IsWord sign ∧ ¬ Clause.Starts sign := by decide +kernel
  have hcall : ∀ {function : String} {c : Char}, IsWord function → function.toList.head? = some c →
      c ∉ Clause.initials →
        IsWord (function ++ operand ++ ",") ∧ ¬ Clause.Starts (function ++ operand ++ ",") := by
    intro function c hfunction hhead hc
    refine ⟨(hfunction.append hoperand.isWord).append (by decide +kernel), ?_⟩
    exact Clause.not_starts_of_head? (head?_append (head?_append hhead _) _) hc
  have hlast : IsWord (placeholder ++ ")") ∧ ¬ Clause.Starts (placeholder ++ ")") :=
    ⟨hplaceholder.isWord.append (by decide +kernel), hplaceholder.not_starts ")"⟩
  have hall : ∀ word ∈ possibleWords operand placeholder, IsWord word ∧ ¬ Clause.Starts word := by
    simp only [possibleWords, List.forall_mem_cons]
    exact ⟨hpiece hoperand, hpiece hplaceholder, hsign _ (by simp), hsign _ (by simp), hsign _ (by simp),
      hcall (c := 'i') (by decide +kernel) (by decide +kernel) (by decide),
      hcall (c := 'l') (by decide +kernel) (by decide +kernel) (by decide), hlast, nofun⟩
  exact hall word (words_subset operation operand placeholder h)

namespace Action

variable {operand placeholder : String}

theorem clause_operation (action : Action) : action.operation.clause = action.clause := by
  cases action <;> rfl

/-- The text of an action has blanks between its words. -/
theorem text_eq (action : Action) (operand placeholder : String) :
    action.text operand placeholder = " ".intercalate (action.operation.words operand placeholder) := by
  rw [← String.toList_inj]
  cases action <;> simp [text, operation, Operation.words, Test.call]

/-- A call with an operand and a placeholder, assigned to the operand, is undivided. -/
theorem undivided_call (hoperand : IsPiece operand) (hplaceholder : IsPiece placeholder) {function : String}
    (hfunction : MadeOf IsItemChar function) :
    Undivided (operand ++ " = " ++ Test.call function [operand, placeholder]) := by
  have hsign : MadeOf IsItemChar " = " := by decide +kernel
  have harguments : IsFlat (", ".intercalate [operand, placeholder]) :=
    IsFlat.intercalate (by decide +kernel) (by simp [hoperand.flat, hplaceholder.flat])
  have hcall : operand ++ " = " ++ Test.call function [operand, placeholder] =
      operand ++ " = " ++ function ++ "(" ++ ", ".intercalate [operand, placeholder] ++ ")" := by
    simp only [Test.call, String.append_assoc]
  rw [hcall]
  exact Undivided.call ((hoperand.items.append hsign).append hfunction) harguments

/-- The text of an action on pieces is undivided. -/
theorem undivided_text (action : Action) (hoperand : IsPiece operand) (hplaceholder : IsPiece placeholder) :
    Undivided (action.text operand placeholder) := by
  have hsign : MadeOf IsItemChar " = " := by decide +kernel
  have hplus : MadeOf IsItemChar " + " := by decide +kernel
  have hminus : MadeOf IsItemChar " - " := by decide +kernel
  have hblank : MadeOf IsItemChar " " := by decide +kernel
  cases action with
  | set => exact .of_chars ((hoperand.items.append hsign).append hplaceholder.items)
  | setIfAbsent => exact undivided_call hoperand hplaceholder (by decide +kernel)
  | increment =>
    exact .of_chars ((((hoperand.items.append hsign).append hoperand.items).append hplus).append hplaceholder.items)
  | decrement =>
    exact .of_chars ((((hoperand.items.append hsign).append hoperand.items).append hminus).append hplaceholder.items)
  | append => exact undivided_call hoperand hplaceholder (by decide +kernel)
  | remove => exact .of_chars hoperand.items
  | add | delete =>
    exact .of_chars ((hoperand.items.append hblank).append hplaceholder.items)

theorem wordsOf_text (action : Action) (hoperand : IsPiece operand) (hplaceholder : IsPiece placeholder) :
    wordsOf (action.text operand placeholder) = action.operation.words operand placeholder := by
  rw [text_eq, wordsOf_intercalate_words (Operation.words_ne_nil _ _ _)]
  exact fun word hword => (Operation.of_mem_words hoperand hplaceholder hword).1

/-- The text of an action on pieces can stand in a clause. -/
theorem isActionText (action : Action) (hoperand : IsPiece operand) (hplaceholder : IsPiece placeholder) :
    IsActionText (action.text operand placeholder) := by
  refine ⟨action.undivided_text hoperand hplaceholder, ?_⟩
  rw [wordsOf_text action hoperand hplaceholder]
  exact fun word hword => (Operation.of_mem_words hoperand hplaceholder hword).2

end Action

namespace RecordedAction

variable {entry other : RecordedAction}

theorem piece_placeholder (h : entry.action.target.IsPlain) : IsPiece entry.placeholder :=
  h.name.piece_placeholder entry.number

theorem isActionText (h : entry.action.target.IsPlain) : IsActionText entry.text :=
  entry.action.isActionText h.piece_operand (piece_placeholder h)

/-- The text of a recorded action on a plain handle tells the operation, the operand and the placeholder. -/
theorem text_inj (h : entry.action.target.IsPlain) (hother : other.action.target.IsPlain)
    (hclause : entry.action.clause = other.action.clause) (htext : entry.text = other.text) :
    entry.action.operation = other.action.operation ∧
      entry.action.target.operand.text = other.action.target.operand.text ∧
        (entry.action.operation ≠ .remove → entry.placeholder = other.placeholder) := by
  have hwords := congrArg wordsOf htext
  rw [text, text, entry.action.wordsOf_text h.piece_operand (piece_placeholder h),
    other.action.wordsOf_text hother.piece_operand (piece_placeholder hother)] at hwords
  refine Operation.words_inj ?_ hwords
  rw [Action.clause_operation, Action.clause_operation, hclause]

end RecordedAction

end SingleTable
