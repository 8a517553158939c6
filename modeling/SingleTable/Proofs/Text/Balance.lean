/-!
# Balanced parentheses

Where a text in parentheses ends. A text is balanced if each of its parentheses is closed inside of it, and
none is closed that it did not open. Behind an opening parenthesis there is only one balanced text that a
closing one follows (`Balanced.append_close_inj`).
-/

set_option autoImplicit false

namespace SingleTable

/-- The depth of parentheses behind a text that starts at a depth. A text that closes more than is open has
none. -/
def depthAfter : Nat → List Char → Option Nat
  | depth, [] => some depth
  | depth, '(' :: rest => depthAfter (depth + 1) rest
  | 0, ')' :: _ => none
  | depth + 1, ')' :: rest => depthAfter depth rest
  | depth, _ :: rest => depthAfter depth rest

/-- A text that closes the parentheses that it opens, and no others. -/
def Balanced (text : List Char) : Prop := depthAfter 0 text = some 0

instance (text : List Char) : Decidable (Balanced text) := inferInstanceAs (Decidable (_ = _))

/-- A character that is no parenthesis. -/
def IsInner (c : Char) : Prop := c ≠ '(' ∧ c ≠ ')'

instance (c : Char) : Decidable (IsInner c) := inferInstanceAs (Decidable (_ ∧ _))

section Depth

variable {depth : Nat} {text : List Char}

theorem depthAfter_open (depth : Nat) (rest : List Char) :
    depthAfter depth ('(' :: rest) = depthAfter (depth + 1) rest := by
  cases depth <;> rfl

theorem depthAfter_close (depth : Nat) (rest : List Char) :
    depthAfter (depth + 1) (')' :: rest) = depthAfter depth rest := rfl

theorem depthAfter_inner {c : Char} (h : IsInner c) (depth : Nat) (rest : List Char) :
    depthAfter depth (c :: rest) = depthAfter depth rest := by
  cases depth with
  | zero => rw [depthAfter] <;> simp [h.1, h.2]
  | succ depth => rw [depthAfter] <;> simp [h.1, h.2]

/-- A text that can be read at a depth can be read at a greater one. -/
theorem depthAfter_add {after : Nat} (h : depthAfter depth text = some after) (more : Nat) :
    depthAfter (depth + more) text = some (after + more) := by
  induction text generalizing depth with
  | nil =>
    cases h
    rfl
  | cons c rest ih =>
    by_cases hopen : c = '('
    · subst hopen
      rw [depthAfter_open] at h ⊢
      rw [← ih h, Nat.add_right_comm]
    · by_cases hclose : c = ')'
      · subst hclose
        cases depth with
        | zero => cases h
        | succ depth =>
          rw [depthAfter_close] at h
          rw [Nat.add_right_comm, depthAfter_close]
          exact ih h
      · rw [depthAfter_inner ⟨hopen, hclose⟩] at h ⊢
        exact ih h

theorem depthAfter_append (depth : Nat) (front back : List Char) :
    depthAfter depth (front ++ back) =
      (depthAfter depth front).bind fun between => depthAfter between back := by
  induction front generalizing depth with
  | nil => rfl
  | cons c rest ih =>
    rw [List.cons_append]
    by_cases hopen : c = '('
    · subst hopen
      rw [depthAfter_open, depthAfter_open, ih]
    · by_cases hclose : c = ')'
      · subst hclose
        cases depth with
        | zero => rfl
        | succ depth => rw [depthAfter_close, depthAfter_close, ih]
      · rw [depthAfter_inner ⟨hopen, hclose⟩, depthAfter_inner ⟨hopen, hclose⟩, ih]

end Depth

namespace Balanced

variable {front back text : List Char}

theorem nil : Balanced [] := rfl

theorem append (hfront : Balanced front) (hback : Balanced back) : Balanced (front ++ back) := by
  rw [Balanced, depthAfter_append, hfront]
  exact hback

theorem of_inner (h : ∀ c ∈ text, IsInner c) : Balanced text := by
  induction text with
  | nil => exact nil
  | cons c rest ih =>
    rw [Balanced, depthAfter_inner (h c List.mem_cons_self)]
    exact ih fun d hd => h d (List.mem_cons_of_mem _ hd)

/-- A balanced text in parentheses is balanced. -/
theorem parenthesised (h : Balanced text) : Balanced ('(' :: text ++ [')']) := by
  have hinside := depthAfter_add h 1
  rw [Balanced, List.cons_append, depthAfter_open, depthAfter_append, hinside]
  rfl

/-- Two texts that bring a depth down to zero, each with a closing parenthesis behind it, are equal if one
continues the other. -/
theorem eq_of_append_close {depth : Nat} {a b rest rest' : List Char} (ha : depthAfter depth a = some 0)
    (hb : depthAfter depth b = some 0) (h : a ++ ')' :: rest = b ++ ')' :: rest') :
    a = b ∧ rest = rest' := by
  -- The depth is free, because the texts are read from behind their first parentheses on.
  induction a generalizing b depth with
  | nil =>
    cases ha
    cases b with
    | nil => exact ⟨rfl, (List.cons.inj h).2⟩
    | cons c b =>
      -- The longer text would close a parenthesis at depth zero.
      rw [← (List.cons.inj h).1] at hb
      cases hb
  | cons c a ih =>
    cases b with
    | nil =>
      cases hb
      rw [(List.cons.inj h).1] at ha
      cases ha
    | cons d b =>
      obtain ⟨rfl, htail⟩ := List.cons.inj h
      by_cases hopen : c = '('
      · subst hopen
        rw [depthAfter_open] at ha hb
        obtain ⟨rfl, hrest⟩ := ih ha hb htail
        exact ⟨rfl, hrest⟩
      · by_cases hclose : c = ')'
        · subst hclose
          cases depth with
          | zero => cases ha
          | succ depth =>
            obtain ⟨rfl, hrest⟩ := ih ha hb htail
            exact ⟨rfl, hrest⟩
        · rw [depthAfter_inner ⟨hopen, hclose⟩] at ha hb
          obtain ⟨rfl, hrest⟩ := ih ha hb htail
          exact ⟨rfl, hrest⟩

/-- **The end of a parenthesis.** A balanced text is determined by a text that it starts and in which a
closing parenthesis follows it. -/
theorem append_close_inj {a b rest rest' : List Char} (ha : Balanced a) (hb : Balanced b)
    (h : a ++ ')' :: rest = b ++ ')' :: rest') : a = b ∧ rest = rest' :=
  eq_of_append_close ha hb h

end Balanced

/-! ## Characters of joined texts -/

/-- A text of characters of one kind. -/
def MadeOf (p : Char → Prop) (text : String) : Prop := ∀ c ∈ text.toList, p c

-- This goes through the text; the instance for statements about all characters would go through those.
instance (p : Char → Prop) [DecidablePred p] (text : String) : Decidable (MadeOf p text) :=
  List.decidableBAll _ _

namespace MadeOf

variable {p : Char → Prop} {front back separator : String}

theorem append (hfront : MadeOf p front) (hback : MadeOf p back) : MadeOf p (front ++ back) := by
  intro c hc
  rw [String.toList_append, List.mem_append] at hc
  rcases hc with hc | hc
  · exact hfront c hc
  · exact hback c hc

theorem intercalate (hseparator : MadeOf p separator) {parts : List String} (h : ∀ part ∈ parts, MadeOf p part) :
    MadeOf p (separator.intercalate parts) := by
  induction parts with
  | nil => intro c hc; cases hc
  | cons part rest ih =>
    obtain ⟨hpart, hrest⟩ := List.forall_mem_cons.1 h
    cases rest with
    | nil => rwa [String.intercalate_singleton]
    | cons next rest =>
      rw [String.intercalate_cons_cons]
      exact (hpart.append hseparator).append (ih hrest)

end MadeOf

/-! ## Texts without parentheses -/

/-- A text without parentheses. -/
def IsFlat (text : String) : Prop := ∀ c ∈ text.toList, IsInner c

instance (text : String) : Decidable (IsFlat text) := List.decidableBAll _ _

namespace IsFlat

variable {front back separator : String}

theorem append (hfront : IsFlat front) (hback : IsFlat back) : IsFlat (front ++ back) :=
  MadeOf.append hfront hback

theorem intercalate (hseparator : IsFlat separator) {parts : List String}
    (h : ∀ part ∈ parts, IsFlat part) : IsFlat (separator.intercalate parts) :=
  MadeOf.intercalate hseparator h

theorem balanced {text : String} (h : IsFlat text) : Balanced text.toList := Balanced.of_inner h

end IsFlat

end SingleTable
