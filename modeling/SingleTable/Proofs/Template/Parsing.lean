import Mathlib.Data.List.Chain
import Mathlib.Data.List.TakeWhile
import SingleTable.Template.Basic

/-!
# Templates and their texts

Reading a text gives its canonical segments, and writing them gives the text again; canonical segments are
read from what is written for them (`templates_round_trip`). So a text has one list of segments and is the
text of no other canonical list.

A text is read from its front: a step either reads a reference or puts one character into the literal that
stands there, and `reading_induction` is the induction over these steps. A reference that begins in a literal
ends in it as well, since the next reference has an opening brace and names have none
(`prefix_of_prefix_append`). So a literal is read up to where it was written to.
-/

set_option autoImplicit false

namespace SingleTable

namespace Template

/-! ## Canonical segments -/

/-- The names that a text can refer to: those that are not empty and have no braces. -/
structure IsReferenceName (name : String) : Prop where
  /-- The name is not empty. -/
  nonempty : name ≠ ""
  /-- The name has no opening brace. -/
  noOpening : '\x7b' ∉ name.toList
  /-- The name has no closing brace. -/
  noClosing : '\x7d' ∉ name.toList

/-- The characters that a reference is written with. -/
def mark (name : String) : List Char := (segmentText (.reference name)).toList

/-- Segments that can be neighbours: two literals would be one. -/
def AreApart : Segment → Segment → Prop
  | .literal _, .literal _ => False
  | _, _ => True

/-- No literal stands in front of segments, so that one can be put there. -/
def BeginsApart : List Segment → Prop
  | .literal _ :: _ => False
  | _ => True

/-- Segments that a text can have. -/
structure IsCanonical (segments : List Segment) : Prop where
  /-- No literal is empty. -/
  nonempty : ∀ text, .literal text ∈ segments → text ≠ ""
  /-- No two literals are neighbours. -/
  apart : segments.IsChain AreApart
  /-- Every name can be referred to. -/
  names : ∀ name, .reference name ∈ segments → IsReferenceName name
  /-- No reference is written in a literal. -/
  plain : ∀ text, .literal text ∈ segments →
    ∀ name, IsReferenceName name → ¬ mark name <:+: text.toList

section Canonical

variable {segments rest : List Segment} {name text : String}

theorem isCanonical_nil : IsCanonical [] where
  nonempty := fun _ h => nomatch h
  apart := .nil
  names := fun _ h => nomatch h
  plain := fun _ h => nomatch h

theorem isCanonical_reference_cons_iff :
    IsCanonical (.reference name :: rest) ↔ IsReferenceName name ∧ IsCanonical rest := by
  constructor
  · rintro ⟨hnonempty, hapart, hnames, hplain⟩
    refine ⟨hnames name List.mem_cons_self, ?_, hapart.tail, ?_, ?_⟩
    · exact fun text h => hnonempty text (List.mem_cons_of_mem _ h)
    · exact fun other h => hnames other (List.mem_cons_of_mem _ h)
    · exact fun text h => hplain text (List.mem_cons_of_mem _ h)
  · rintro ⟨hname, hnonempty, hapart, hnames, hplain⟩
    refine ⟨?_, ?_, ?_, ?_⟩
    · simpa using hnonempty
    · exact List.isChain_cons.2 ⟨fun _ _ => trivial, hapart⟩
    · simpa [hname] using hnames
    · simpa using hplain

theorem isChain_literal_cons_iff :
    (Segment.literal text :: rest).IsChain AreApart ↔ BeginsApart rest ∧ rest.IsChain AreApart := by
  cases rest with
  | nil => simp [BeginsApart]
  | cons next more =>
    rw [List.isChain_cons_cons]
    cases next with
    | literal other => exact Iff.rfl
    | reference name => exact Iff.rfl

theorem isCanonical_literal_cons_iff :
    IsCanonical (.literal text :: rest) ↔
      text ≠ "" ∧ (∀ name, IsReferenceName name → ¬ mark name <:+: text.toList) ∧
        BeginsApart rest ∧ IsCanonical rest := by
  constructor
  · rintro ⟨hnonempty, hapart, hnames, hplain⟩
    obtain ⟨hnext, hrest⟩ := isChain_literal_cons_iff.1 hapart
    refine ⟨hnonempty text List.mem_cons_self, hplain text List.mem_cons_self, hnext, ?_, hrest, ?_, ?_⟩
    · exact fun other h => hnonempty other (List.mem_cons_of_mem _ h)
    · exact fun name h => hnames name (List.mem_cons_of_mem _ h)
    · exact fun other h => hplain other (List.mem_cons_of_mem _ h)
  · rintro ⟨htext, hfree, hnext, hnonempty, hapart, hnames, hplain⟩
    refine ⟨?_, ?_, ?_, ?_⟩
    · simpa [htext] using hnonempty
    · exact isChain_literal_cons_iff.2 ⟨hnext, hapart⟩
    · simpa using hnames
    · intro other hother
      rcases List.mem_cons.1 hother with heq | hother
      · cases heq
        exact hfree
      · exact hplain other hother

end Canonical

/-! ## One step of reading -/

section Steps

variable {name : String} {text rest tail : List Char} {c : Char}

theorem mark_eq (name : String) : mark name = '$' :: '\x7b' :: (name.toList ++ ['\x7d']) := by
  simp [mark, segmentText]

/-- A reference is read behind its mark exactly if its name and a closing brace stand there. -/
theorem reference?_eq_some_iff {found : List Char} :
    reference? text = some (found, tail) ↔
      text = found ++ '\x7d' :: tail ∧ found ≠ [] ∧ '\x7b' ∉ found ∧ '\x7d' ∉ found := by
  rw [reference?]
  constructor
  · intro h
    have hsplit := List.takeWhile_append_dropWhile (p := (· != '\x7d')) (l := text)
    have hnone : '\x7d' ∉ text.takeWhile (· != '\x7d') := fun hmem => by
      simpa using List.mem_takeWhile_imp hmem
    cases hdrop : text.dropWhile (· != '\x7d') with
    | nil =>
      rw [hdrop] at h
      cases h
    | cons closing more =>
      obtain rfl : closing = '\x7d' := by
        have hhead := List.head?_dropWhile_not (· != '\x7d') text
        rw [hdrop] at hhead
        simpa using hhead
      rw [hdrop] at h hsplit
      dsimp only at h
      split at h
      · cases h
      · rename_i hgood
        cases h
        rw [Bool.or_eq_true, not_or] at hgood
        refine ⟨hsplit.symm, ?_, ?_, hnone⟩
        · simpa using hgood.1
        · simpa using hgood.2
  · rintro ⟨rfl, hnonempty, hopening, hclosing⟩
    have hall : ∀ c ∈ found, (c != '\x7d') = true := by
      intro c hc
      rw [bne_iff_ne]
      rintro rfl
      exact hclosing hc
    have htake : (found ++ '\x7d' :: tail).takeWhile (· != '\x7d') = found := by
      rw [List.takeWhile_append_of_pos hall]
      simp
    have hdrop : (found ++ '\x7d' :: tail).dropWhile (· != '\x7d') = '\x7d' :: tail := by
      rw [List.dropWhile_append_of_pos hall]
      simp
    rw [htake, hdrop]
    simp [hnonempty, hopening]

/-- The text of a reference is read as the reference. -/
theorem scan_mark_append (h : IsReferenceName name) (rest : List Char) :
    scan (mark name ++ rest) = .reference name :: scan rest := by
  have hread : reference? (name.toList ++ '\x7d' :: rest) = some (name.toList, rest) := by
    rw [reference?_eq_some_iff]
    exact ⟨rfl, fun hnil => h.nonempty (String.toList_eq_nil_iff.1 hnil), h.noOpening, h.noClosing⟩
  have hmark : mark name ++ rest = '$' :: '\x7b' :: (name.toList ++ '\x7d' :: rest) := by
    simp [mark_eq]
  rw [hmark, scan.eq_2]
  split
  · rename_i found more hfound
    rw [hread] at hfound
    cases hfound
    rw [String.ofList_toList]
  · rename_i hnone
    rw [hread] at hnone
    cases hnone

/-- A character that begins no reference joins the literal that stands there. -/
theorem scan_cons_of_no_mark (h : ∀ name, IsReferenceName name → ¬ mark name <+: c :: rest) :
    scan (c :: rest) = consLiteral c (scan rest) := by
  -- Only an opening mark can begin a reference; then no name with a closing brace stands behind it.
  by_cases hopen : ∃ more, c = '$' ∧ rest = '\x7b' :: more
  · obtain ⟨more, rfl, rfl⟩ := hopen
    have hnone : reference? more = none := by
      cases hread : reference? more with
      | none => rfl
      | some found =>
        obtain ⟨name, tail⟩ := found
        obtain ⟨rfl, hnonempty, hopening, hclosing⟩ := reference?_eq_some_iff.1 hread
        have hname : IsReferenceName (String.ofList name) := by
          refine ⟨?_, ?_, ?_⟩
          · simpa using hnonempty
          · simpa using hopening
          · simpa using hclosing
        exact absurd ⟨tail, by simp [mark_eq]⟩ (h _ hname)
    have hbrace : scan ('\x7b' :: more) = consLiteral '\x7b' (scan more) :=
      scan.eq_3 _ _ fun _ hdollar => absurd hdollar (by decide)
    rw [hbrace, scan.eq_2]
    split
    · rename_i found tail hfound
      rw [hnone] at hfound
      cases hfound
    · rfl
  · exact scan.eq_3 c rest fun more hc hrest => hopen ⟨more, hc, hrest⟩

/-- **Texts are read step by step.** A text is empty, or a reference stands in front, or a character in front
begins no reference. -/
@[elab_as_elim]
theorem reading_induction {motive : List Char → Prop} (nil : motive [])
    (reference : ∀ name rest, IsReferenceName name → motive rest → motive (mark name ++ rest))
    (character : ∀ c rest, (∀ name, IsReferenceName name → ¬ mark name <+: c :: rest) → motive rest →
      motive (c :: rest)) (text : List Char) : motive text := by
  -- A reference takes several characters in one step, so the induction is on the length.
  induction hlength : text.length using Nat.strong_induction_on generalizing text with
  | _ length ih =>
    subst hlength
    cases text with
    | nil => exact nil
    | cons c rest =>
      by_cases hmark : ∃ name, IsReferenceName name ∧ mark name <+: c :: rest
      · obtain ⟨name, hname, tail, htail⟩ := hmark
        rw [← htail]
        refine reference name tail hname (ih _ ?_ tail rfl)
        rw [← htail, mark_eq]
        simp only [List.length_append, List.length_cons]
        omega
      · refine character c rest (fun name hname h => hmark ⟨name, hname, h⟩) (ih _ ?_ rest rfl)
        exact Nat.lt_succ_self rest.length

end Steps

/-! ## Reading and writing -/

section Writing

variable {segments : List Segment} {c : Char}

theorem consLiteral_of_beginsApart (h : BeginsApart segments) :
    consLiteral c segments = .literal (String.ofList [c]) :: segments := by
  cases segments with
  | nil => rfl
  | cons first rest =>
    cases first with
    | literal text => exact h.elim
    | reference name => rfl

/-- A character that joins a literal is written in front. -/
theorem toList_segmentsText_consLiteral (c : Char) (segments : List Segment) :
    (segmentsText (consLiteral c segments)).toList = c :: (segmentsText segments).toList := by
  cases segments with
  | nil => simp [consLiteral, segmentsText, segmentText]
  | cons first rest =>
    cases first with
    | literal text => simp [consLiteral, segmentsText, segmentText]
    | reference name => simp [consLiteral, segmentsText, segmentText]

/-- **What was read is written again.** -/
theorem toList_segmentsText_scan (text : List Char) : (segmentsText (scan text)).toList = text := by
  induction text using reading_induction with
  | nil =>
    rw [scan]
    rfl
  | reference name rest hname ih => rw [scan_mark_append hname, segmentsText, String.toList_append, ih, mark]
  | character c rest hnone ih => rw [scan_cons_of_no_mark hnone, toList_segmentsText_consLiteral, ih]

/-- A character that begins no reference keeps segments canonical. -/
theorem IsCanonical.consLiteral (h : IsCanonical segments)
    (hnone : ∀ name, IsReferenceName name → ¬ mark name <+: c :: (segmentsText segments).toList) :
    IsCanonical (consLiteral c segments) := by
  -- What is written in the literal with the character is written in front of the whole text.
  have hplain : ∀ text : List Char, text <+: (segmentsText segments).toList →
      (∀ name, IsReferenceName name → ¬ mark name <:+: text) →
        ∀ name, IsReferenceName name → ¬ mark name <:+: (String.ofList (c :: text)).toList := by
    intro text htext hfree name hname hinfix
    rw [String.toList_ofList, List.infix_cons_iff] at hinfix
    rcases hinfix with hfront | hbehind
    · exact hnone name hname (hfront.trans (List.cons_prefix_cons.2 ⟨rfl, htext⟩))
    · exact hfree name hname hbehind
  by_cases hapart : BeginsApart segments
  · rw [consLiteral_of_beginsApart hapart, isCanonical_literal_cons_iff]
    refine ⟨by simp, hplain [] List.nil_prefix ?_, hapart, h⟩
    intro name _ hinfix
    rw [List.infix_nil, mark_eq] at hinfix
    cases hinfix
  · cases segments with
    | nil => exact absurd trivial hapart
    | cons first rest =>
      cases first with
      | reference name => exact absurd trivial hapart
      | literal text =>
        obtain ⟨-, hfree, hnext, hrest⟩ := isCanonical_literal_cons_iff.1 h
        rw [Template.consLiteral, isCanonical_literal_cons_iff]
        refine ⟨by simp, hplain text.toList ?_ hfree, hnext, hrest⟩
        rw [segmentsText, String.toList_append]
        exact List.prefix_append _ _

/-- **What is read is canonical.** -/
theorem isCanonical_scan (text : List Char) : IsCanonical (scan text) := by
  induction text using reading_induction with
  | nil =>
    rw [scan]
    exact isCanonical_nil
  | reference name rest hname ih =>
    rw [scan_mark_append hname]
    exact isCanonical_reference_cons_iff.2 ⟨hname, ih⟩
  | character c rest hnone ih =>
    rw [scan_cons_of_no_mark hnone]
    apply ih.consLiteral
    rwa [toList_segmentsText_scan]

end Writing

/-! ## Reading what was written -/

section Reading

variable {segments : List Segment} {literal rest : List Char} {c : Char} {name : String}

/-- A text behind which a literal ends: nothing, or a reference. -/
def EndsLiteral (rest : List Char) : Prop := rest = [] ∨ ∃ more, rest = '$' :: '\x7b' :: more

theorem endsLiteral_segmentsText (h : BeginsApart segments) :
    EndsLiteral (segmentsText segments).toList := by
  cases segments with
  | nil => exact Or.inl rfl
  | cons first rest =>
    cases first with
    | literal text => exact h.elim
    | reference name =>
      refine Or.inr ⟨name.toList ++ '\x7d' :: (segmentsText rest).toList, ?_⟩
      simp [segmentsText, segmentText]

/-- The brace in front is the only opening brace of a reference. -/
theorem noOpening_of_mark_eq (hname : IsReferenceName name) {front back : List Char}
    (h : mark name = c :: front ++ '$' :: '\x7b' :: back) : False := by
  rw [mark_eq, List.cons_append, List.cons.injEq] at h
  obtain ⟨-, hrest⟩ := h
  cases front with
  | nil => exact absurd (List.cons.inj hrest).1 (by decide)
  | cons d front =>
    have hmem : '\x7b' ∈ name.toList ++ ['\x7d'] := by
      rw [(List.cons.inj hrest).2]
      simp
    rcases List.mem_append.1 hmem with hin | hin
    · exact hname.noOpening hin
    · exact absurd hin (by decide)

/-- A reference ends in a closing brace. -/
theorem eq_of_mark_eq {front : List Char} {last : Char} (h : mark name = front ++ [last]) :
    last = '\x7d' := by
  have hmark : ('$' :: '\x7b' :: name.toList) ++ ['\x7d'] = front ++ [last] := (mark_eq name).symm.trans h
  exact (List.cons.inj (List.append_inj_right' hmark rfl)).1.symm

/-- A reference that begins in a literal ends in it as well, since it has no opening brace but its own. -/
theorem prefix_of_prefix_append (hname : IsReferenceName name) (hrest : EndsLiteral rest)
    (h : mark name <+: c :: literal ++ rest) : mark name <+: c :: literal := by
  rcases List.prefix_or_prefix_of_prefix h (List.prefix_append (c :: literal) rest) with
    hin | ⟨surplus, hsurplus⟩
  · exact hin
  -- Otherwise the literal ends in the reference, and the rest goes on with what the reference has left.
  · obtain ⟨behind, hbehind⟩ := h
    rw [← hsurplus, List.append_assoc, List.append_cancel_left_eq] at hbehind
    rcases surplus with _ | ⟨first, surplus⟩
    · have hwhole : c :: literal = mark name := (List.append_nil _).symm.trans hsurplus
      exact hwhole ▸ List.prefix_rfl
    · rcases hrest with rfl | ⟨more, rfl⟩
      · cases hbehind
      · obtain ⟨rfl, hsurplus'⟩ := List.cons.inj hbehind
        rcases surplus with _ | ⟨second, surplus⟩
        · exact absurd (eq_of_mark_eq hsurplus.symm) (by decide)
        · obtain ⟨rfl, -⟩ := List.cons.inj hsurplus'
          exact (noOpening_of_mark_eq hname hsurplus.symm).elim

/-- The first character of a literal joins what is read of the others. -/
theorem scan_cons_append (hrest : EndsLiteral rest)
    (hfree : ∀ name, IsReferenceName name → ¬ mark name <:+: c :: literal) :
    scan (c :: literal ++ rest) = consLiteral c (scan (literal ++ rest)) := by
  apply scan_cons_of_no_mark
  intro name hname hprefix
  exact hfree name hname (prefix_of_prefix_append hname hrest hprefix).isInfix

/-- A literal is read up to where it ends. -/
theorem scan_literal_append (hrest : EndsLiteral rest) (hapart : BeginsApart (scan rest))
    (hfree : ∀ name, IsReferenceName name → ¬ mark name <:+: c :: literal) :
    scan (c :: literal ++ rest) = .literal (String.ofList (c :: literal)) :: scan rest := by
  -- The induction shortens the literal in front; what is left of it has no reference in it either.
  induction literal generalizing c with
  | nil =>
    rw [scan_cons_append hrest hfree]
    exact consLiteral_of_beginsApart hapart
  | cons d literal ih =>
    have hshorter : ∀ name, IsReferenceName name → ¬ mark name <:+: d :: literal := by
      intro name hname hinfix
      exact hfree name hname (List.infix_cons hinfix)
    rw [scan_cons_append hrest hfree, ih hshorter, consLiteral, String.toList_ofList]

/-- **Canonical segments are read from what is written for them.** -/
theorem scan_segmentsText (h : IsCanonical segments) : scan (segmentsText segments).toList = segments := by
  induction segments with
  | nil =>
    rw [segmentsText, String.toList_empty, scan]
  | cons first rest ih =>
    rw [segmentsText, String.toList_append]
    cases first with
    | reference name =>
      obtain ⟨hname, hrest⟩ := isCanonical_reference_cons_iff.1 h
      rw [← mark, scan_mark_append hname, ih hrest]
    | literal text =>
      obtain ⟨hnonempty, hfree, hapart, hrest⟩ := isCanonical_literal_cons_iff.1 h
      have hread := ih hrest
      cases htext : text.toList with
      | nil => exact absurd (String.toList_eq_nil_iff.1 htext) hnonempty
      | cons c literal =>
        rw [htext] at hfree
        rw [← hread] at hapart
        rw [segmentText, htext, scan_literal_append (endsLiteral_segmentsText (hread ▸ hapart)) hapart hfree,
          hread, ← htext, String.ofList_toList]

end Reading

/-- **Templates and their texts correspond.** The text of a template that was read is what was read, and its
segments are canonical; and a list of segments is read from what is written for it exactly if it is
canonical. -/
theorem templates_round_trip :
    (∀ text, (parse text).text = text ∧ IsCanonical (parse text).segments) ∧
      ∀ segments, (parse (segmentsText segments)).segments = segments ↔ IsCanonical segments := by
  have hcanonical : ∀ text, IsCanonical (parse text).segments := fun text => isCanonical_scan text.toList
  refine ⟨fun text => ⟨?_, hcanonical text⟩, fun segments => ⟨?_, scan_segmentsText⟩⟩
  · exact String.toList_injective (toList_segmentsText_scan text.toList)
  · intro h
    rw [← h]
    exact hcanonical (segmentsText segments)

/-- A mark that no name follows stands for itself, and the next one is read. -/
example : (parse "$\x7ba#$\x7bb\x7d").segments = [.literal "$\x7ba#", .reference "b"] := by decide +kernel

end Template

end SingleTable
