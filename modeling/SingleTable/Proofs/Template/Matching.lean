import Mathlib.Data.List.Chain
import SingleTable.Proofs.Template.Filling
import SingleTable.Template.Match

/-!
# Matching a resolved key

A key that a template gave is matched against the template again. A reference is read up to the first
occurrence of the literal behind it, so its text comes back exactly if that literal does not occur earlier,
inside the text or across its end (`EndShows`). What stands further behind in the key does not matter to this
(`isFirstAt_append_iff`). Neighbouring references have no literal between them, and no text of theirs comes
back. So matching undoes resolving exactly if the end of each reference shows (`matchKey?_of_resolve_iff`).

A name that is referred to twice is no exception: bindings are never changed (`get?_of_matchSegments`), so a
wrong text at one reference is wrong in the result as well.
-/

set_option autoImplicit false

namespace SingleTable

namespace Template

/-! ## First occurrences -/

/-- The first occurrence of a part in a text is at an offset. -/
def IsFirstAt (part text : List Char) (offset : Nat) : Prop :=
  part <+: text.drop offset ∧ ∀ i < offset, ¬ part <+: text.drop i

instance (part text : List Char) (offset : Nat) : Decidable (IsFirstAt part text offset) :=
  inferInstanceAs (Decidable (_ ∧ _))

section Occurrences

variable {part text front back : List Char}

theorem isFirstAt_zero_iff : IsFirstAt part text 0 ↔ part <+: text := by
  simp [IsFirstAt]

theorem isFirstAt_succ_iff {c : Char} {offset : Nat} :
    IsFirstAt part (c :: text) (offset + 1) ↔ ¬ part <+: c :: text ∧ IsFirstAt part text offset := by
  constructor
  · rintro ⟨hat, hbefore⟩
    refine ⟨hbefore 0 (Nat.succ_pos offset), hat, ?_⟩
    intro i hi
    exact hbefore (i + 1) (Nat.succ_lt_succ hi)
  · rintro ⟨hnot, hat, hbefore⟩
    refine ⟨hat, ?_⟩
    intro i hi
    cases i with
    | zero => exact hnot
    | succ i => exact hbefore i (Nat.lt_of_succ_lt_succ hi)

/-- An occurrence of a part that starts before its end is not changed by what stands behind it. -/
theorem prefix_append_iff (h : part.length ≤ front.length) : part <+: front ++ back ↔ part <+: front := by
  constructor
  · intro hpart
    exact List.prefix_of_prefix_length_le hpart (List.prefix_append front back) h
  · intro hpart
    exact hpart.trans (List.prefix_append front back)

/-- Whether the first occurrence of a part is the one behind a text does not depend on what follows. -/
theorem isFirstAt_append_iff {value : List Char} :
    IsFirstAt part (value ++ part ++ back) value.length ↔ IsFirstAt part (value ++ part) value.length := by
  have hdrop : ∀ i ≤ value.length,
      (part <+: (value ++ part ++ back).drop i ↔ part <+: (value ++ part).drop i) := by
    intro i hi
    have hlength : i ≤ (value ++ part).length := by
      rw [List.length_append]
      omega
    rw [List.drop_append_of_le_length hlength]
    apply prefix_append_iff
    rw [List.length_drop, List.length_append]
    omega
  simp only [IsFirstAt]
  rw [hdrop value.length (Nat.le_refl _)]
  constructor
  · rintro ⟨hat, hbefore⟩
    exact ⟨hat, fun i hi => (hdrop i (Nat.le_of_lt hi)).not.1 (hbefore i hi)⟩
  · rintro ⟨hat, hbefore⟩
    exact ⟨hat, fun i hi => (hdrop i (Nat.le_of_lt hi)).not.2 (hbefore i hi)⟩

/-- A text is split in front of the first occurrence of a part. -/
theorem splitBefore?_eq_some_iff :
    splitBefore? part text = some (front, back) ↔ text = front ++ back ∧ IsFirstAt part text front.length := by
  induction text generalizing front with
  | nil =>
    rw [splitBefore?]
    cases part with
    | nil =>
      constructor
      · intro h
        cases h
        exact ⟨rfl, isFirstAt_zero_iff.2 List.prefix_rfl⟩
      · rintro ⟨htext, -⟩
        obtain ⟨rfl, rfl⟩ := List.append_eq_nil_iff.1 htext.symm
        rfl
    | cons c more =>
      constructor
      · intro h
        cases h
      · rintro ⟨-, hat, -⟩
        simp at hat
  | cons c rest ih =>
    rw [splitBefore?]
    by_cases hhere : part <+: c :: rest
    · rw [if_pos (List.isPrefixOf_iff_prefix.2 hhere)]
      constructor
      · intro h
        cases h
        exact ⟨rfl, isFirstAt_zero_iff.2 hhere⟩
      · rintro ⟨htext, hfirst⟩
        cases front with
        | nil =>
          rw [htext]
          rfl
        | cons c' front => exact absurd hhere (isFirstAt_succ_iff.1 hfirst).1
    · rw [if_neg fun h => hhere (List.isPrefixOf_iff_prefix.1 h), Option.map_eq_some_iff]
      constructor
      · rintro ⟨⟨before, after⟩, hsplit, heq⟩
        cases heq
        obtain ⟨hrest, hfirst⟩ := ih.1 hsplit
        exact ⟨congrArg (c :: ·) hrest, isFirstAt_succ_iff.2 ⟨hhere, hfirst⟩⟩
      · rintro ⟨htext, hfirst⟩
        cases front with
        | nil => exact absurd (isFirstAt_zero_iff.1 hfirst) hhere
        | cons c' front =>
          obtain ⟨rfl, hrest⟩ := List.cons.inj htext
          exact ⟨(front, back), ih.2 ⟨hrest, (isFirstAt_succ_iff.1 hfirst).2⟩, rfl⟩

/-- What is behind a beginning is the text without it. -/
theorem behind?_eq_some_iff : behind? front text = some back ↔ text = front ++ back := by
  induction front generalizing text with
  | nil => simp [behind?]
  | cons c more ih =>
    cases text with
    | nil => simp [behind?]
    | cons c' rest =>
      rw [behind?]
      split
      · rename_i heq
        subst heq
        simp [ih]
      · rename_i hne
        simp [Ne.symm hne]

end Occurrences

/-! ## Bindings -/

section Bindings

variable {bindings after : Dict String} {name : String} {text : List Char}

/-- A text is noted for a name if the name has no other text, and then the name has this text. -/
theorem note?_eq_some_iff :
    note? bindings name text = some after ↔
      (∀ earlier, bindings.get? name = some earlier → earlier = String.ofList text) ∧
        after = bindings.insert name (String.ofList text) := by
  rw [note?]
  cases hearlier : bindings.get? name with
  | none =>
    simp [eq_comm]
  | some earlier =>
    by_cases hsame : earlier = String.ofList text
    · -- Writing the text that a name has already changes nothing.
      have hinsert : bindings.insert name (String.ofList text) = bindings := by
        apply Dict.ext_get?
        intro other
        rw [Dict.get?_insert]
        split
        · rename_i heq
          rw [heq, hearlier, hsame]
        · rfl
      simp [hsame, hinsert, eq_comm]
    · simp [hsame]

/-- A noted text stands under its name, and no other binding has changed. -/
theorem get?_note? (h : note? bindings name text = some after) (other : String) :
    after.get? other = if other = name then some (String.ofList text) else bindings.get? other := by
  rw [(note?_eq_some_iff.1 h).2, Dict.get?_insert]

/-- Noting a text changes no binding. -/
theorem get?_of_note? (h : note? bindings name text = some after) {other value : String}
    (hvalue : bindings.get? other = some value) : after.get? other = some value := by
  rw [get?_note? h]
  split
  · rename_i heq
    subst heq
    rw [(note?_eq_some_iff.1 h).1 value hvalue]
  · exact hvalue

/-! ### Steps -/

section Steps

variable {rest : List Segment} {final : Dict String}

/-- A literal takes its text from the front of the key. -/
theorem matchSegments_literal_iff {literal : String} :
    matchSegments bindings (.literal literal :: rest) text = some final ↔
      ∃ tail, text = literal.toList ++ tail ∧ matchSegments bindings rest tail = some final := by
  rw [matchSegments]
  constructor
  · intro h
    obtain ⟨tail, htail, hrest⟩ := Option.bind_eq_some_iff.1 h
    exact ⟨tail, behind?_eq_some_iff.1 htail, hrest⟩
  · rintro ⟨tail, htail, hrest⟩
    exact Option.bind_eq_some_iff.2 ⟨tail, behind?_eq_some_iff.2 htail, hrest⟩

/-- A reference takes some front of the key and notes it, whatever stands behind the reference. -/
theorem exists_of_matchSegments_reference
    (h : matchSegments bindings (.reference name :: rest) text = some final) :
    ∃ value tail noted, text = value ++ tail ∧ note? bindings name value = some noted ∧
      matchSegments noted rest tail = some final := by
  cases rest with
  | nil =>
    rw [matchSegments] at h
    exact ⟨text, [], final, (List.append_nil text).symm, h, rfl⟩
  | cons next more =>
    cases next with
    | literal literal =>
      rw [matchSegments] at h
      obtain ⟨⟨value, tail⟩, hsplit, hnote⟩ := Option.bind_eq_some_iff.1 h
      obtain ⟨noted, hnoted, hrest⟩ := Option.bind_eq_some_iff.1 hnote
      exact ⟨value, tail, noted, (splitBefore?_eq_some_iff.1 hsplit).1, hnoted, hrest⟩
    | reference _ => cases h

/-- Behind the last segment nothing is left of the key. -/
theorem matchSegments_nil_iff :
    matchSegments bindings [] text = some final ↔ text = [] ∧ bindings = final := by
  cases text with
  | nil => simp [matchSegments]
  | cons c more => simp [matchSegments]

end Steps

/-- **Bindings are kept.** A name that is bound when some segments are matched has the same text when they
have been matched. -/
theorem get?_of_matchSegments {segments : List Segment} {final : Dict String}
    (h : matchSegments bindings segments text = some final) {value : String}
    (hvalue : bindings.get? name = some value) : final.get? name = some value := by
  induction segments generalizing bindings text with
  | nil =>
    obtain ⟨-, rfl⟩ := matchSegments_nil_iff.1 h
    exact hvalue
  | cons segment rest ih =>
    cases segment with
    | literal literal =>
      obtain ⟨tail, -, hrest⟩ := matchSegments_literal_iff.1 h
      exact ih hrest hvalue
    | reference other =>
      obtain ⟨found, tail, noted, -, hnoted, hrest⟩ := exists_of_matchSegments_reference h
      exact ih hrest (get?_of_note? hnoted hvalue)

end Bindings

/-! ## Matching filled segments -/

section Filled

variable {lookup : String → Option Value} {segments : List Segment} {bindings : Dict String}

/-- The texts of a look-up for the names that segments refer to. -/
def textEntries (lookup : String → Option Value) (segments : List Segment) : List (String × String) :=
  (segments.filterMap referredName?).map fun name => (name, textOf lookup name)

/-- The texts of a look-up for the names that a template refers to, and for no other. -/
def texts (template : Template) (lookup : String → Option Value) : Dict String :=
  .ofList (textEntries lookup template.segments)

theorem findEntry_map_names (value : String → String) (names : List String) (name : String) :
    findEntry name (names.map fun name => (name, value name)) =
      if name ∈ names then some (value name) else none := by
  induction names with
  | nil => rfl
  | cons first rest ih =>
    rw [List.map_cons, findEntry, ih]
    by_cases hname : name = first
    · simp [hname]
    · simp [hname]

theorem get?_texts (template : Template) (lookup : String → Option Value) (name : String) :
    (template.texts lookup).get? name =
      if name ∈ template.references then some (textOf lookup name) else none := by
  rw [texts, Dict.get?_ofList, textEntries, ← List.map_reverse, findEntry_map_names]
  simp [references]

/-- The end of a segment shows in a key, seen from the segment behind it. The text of a reference ends where
the literal behind it occurs first, and the text of a reference with another one behind it nowhere. -/
def EndShows (lookup : String → Option Value) : Segment → Segment → Prop
  | .literal _, _ => True
  | .reference _, .reference _ => False
  | .reference name, .literal literal =>
    IsFirstAt literal.toList ((textOf lookup name).toList ++ literal.toList)
      (textOf lookup name).toList.length

instance (lookup : String → Option Value) : DecidableRel (EndShows lookup)
  | .literal _, _ => inferInstanceAs (Decidable True)
  | .reference _, .reference _ => inferInstanceAs (Decidable False)
  | .reference _, .literal _ => inferInstanceAs (Decidable (IsFirstAt _ _ _))

/-- Every end shows if no references are neighbours and every literal behind a reference occurs first at the
end of its text. -/
theorem isChain_endShows_iff :
    segments.IsChain (EndShows lookup) ↔
      (∀ front back first second, segments ≠ front ++ .reference first :: .reference second :: back) ∧
      ∀ front back name literal, segments = front ++ .reference name :: .literal literal :: back →
        IsFirstAt literal.toList ((textOf lookup name).toList ++ literal.toList)
          (textOf lookup name).toList.length := by
  rw [List.isChain_iff_forall_rel_of_append_cons_cons]
  constructor
  · intro hends
    refine ⟨?_, ?_⟩
    · intro front back first second heq
      exact hends heq
    · intro front back name literal heq
      exact hends heq
  · rintro ⟨hapart, hfirst⟩ segment next front back heq
    cases segment with
    | literal literal => trivial
    | reference name =>
      cases next with
      | literal literal => exact hfirst front back name literal heq
      | reference other => exact hapart front back name other heq

theorem toList_filled_reference (lookup : String → Option Value) (name literal : String)
    (rest : List Segment) :
    (filled lookup (.reference name :: .literal literal :: rest)).toList =
      (textOf lookup name).toList ++ literal.toList ++ (filled lookup rest).toList := by
  rw [filled, filled, String.toList_append, String.toList_append, List.append_assoc]

/-- **Where the ends show, the texts come back.** -/
theorem matchSegments_filled (hends : segments.IsChain (EndShows lookup))
    (hagree : ∀ name earlier, bindings.get? name = some earlier → earlier = textOf lookup name) :
    matchSegments bindings segments (filled lookup segments).toList =
      some (bindings.insertAll (textEntries lookup segments)) := by
  induction segments generalizing bindings with
  | nil => rfl
  | cons segment rest ih =>
    have hrest := hends.tail
    cases segment with
    | literal literal =>
      rw [matchSegments, filled, String.toList_append, behind?_eq_some_iff.2 rfl]
      exact ih hrest hagree
    | reference name =>
      -- The text of the name is noted, which agrees with what was noted for the name before.
      have hnote : note? bindings name (textOf lookup name).toList =
          some (bindings.insert name (textOf lookup name)) := by
        rw [note?_eq_some_iff, String.ofList_toList]
        exact ⟨hagree name, rfl⟩
      have hinsert : ∀ other earlier,
          (bindings.insert name (textOf lookup name)).get? other = some earlier →
            earlier = textOf lookup other := by
        intro other earlier hearlier
        rw [Dict.get?_insert] at hearlier
        split at hearlier
        · rename_i heq
          cases hearlier
          rw [heq]
        · exact hagree other earlier hearlier
      cases rest with
      | nil =>
        rw [matchSegments, filled, filled, String.append_empty, hnote]
        rfl
      | cons next more =>
        cases next with
        | literal literal =>
          have hfirst := hends.rel
          have hsplit : splitBefore? literal.toList
              (filled lookup (.reference name :: .literal literal :: more)).toList =
                some ((textOf lookup name).toList, (filled lookup (.literal literal :: more)).toList) := by
            rw [splitBefore?_eq_some_iff, toList_filled_reference, isFirstAt_append_iff, filled,
              String.toList_append, List.append_assoc]
            exact ⟨rfl, hfirst⟩
          rw [matchSegments, hsplit]
          show (note? bindings name (textOf lookup name).toList >>= fun found =>
            matchSegments found (.literal literal :: more) (filled lookup (.literal literal :: more)).toList) = _
          rw [hnote]
          exact ih hrest hinsert
        | reference other => exact (hends.rel).elim

/-- **Where the texts come back, the ends show.** -/
theorem endShows_of_matchSegments {final : Dict String}
    (h : matchSegments bindings segments (filled lookup segments).toList = some final)
    (hfinal : ∀ name ∈ segments.filterMap referredName?, final.get? name = some (textOf lookup name)) :
    segments.IsChain (EndShows lookup) := by
  induction segments generalizing bindings with
  | nil => exact List.isChain_nil
  | cons segment rest ih =>
    cases segment with
    | literal literal =>
      rw [matchSegments, filled, String.toList_append, behind?_eq_some_iff.2 rfl] at h
      rw [List.isChain_cons]
      exact ⟨fun next _ => trivial, ih h hfinal⟩
    | reference name =>
      have hrest := fun other hother => hfinal other (List.mem_cons_of_mem name hother)
      cases rest with
      | nil => exact List.isChain_singleton _
      | cons next more =>
        cases next with
        | literal literal =>
          rw [matchSegments] at h
          obtain ⟨⟨found, tail⟩, hsplit, hnote⟩ := Option.bind_eq_some_iff.1 h
          obtain ⟨noted, hnoted, hmatch⟩ := Option.bind_eq_some_iff.1 hnote
          -- What was noted for the name is in the result, so it is the text of the name.
          have hnamed : noted.get? name = some (String.ofList found) := by
            rw [get?_note? hnoted, if_pos rfl]
          have hfound : found = (textOf lookup name).toList := by
            have hboth := (get?_of_matchSegments hmatch hnamed).symm.trans (hfinal name List.mem_cons_self)
            rw [← Option.some.inj hboth, String.toList_ofList]
          subst hfound
          rw [splitBefore?_eq_some_iff, toList_filled_reference, isFirstAt_append_iff, List.append_assoc]
            at hsplit
          obtain ⟨htail, hfirst⟩ := hsplit
          have htail : tail = (filled lookup (.literal literal :: more)).toList := by
            rw [filled, String.toList_append]
            exact (List.append_cancel_left htail).symm
          rw [htail] at hmatch
          exact List.isChain_cons_cons.2 ⟨hfirst, ih hmatch hrest⟩
        | reference other => cases h

end Filled

/-! ## Matching a key -/

/-- **Matching undoes resolving exactly where the ends show.** Let a template give a key. The key is matched
with the text of each name that the template refers to, and nothing else, if and only if no two references are
neighbours and every literal behind a reference occurs first, in the text of the reference followed by the
literal, at the end of the text. -/
theorem matchKey?_of_resolve_iff {template : Template} {lookup : String → Option Value} {key : String}
    (h : template.resolve lookup = .ok key) :
    template.matchKey? key = some (template.texts lookup) ↔
      (∀ front back first second,
        template.segments ≠ front ++ .reference first :: .reference second :: back) ∧
      ∀ front back name literal,
        template.segments = front ++ .reference name :: .literal literal :: back →
          IsFirstAt literal.toList ((textOf lookup name).toList ++ literal.toList)
            (textOf lookup name).toList.length := by
  obtain ⟨-, rfl⟩ := resolve_eq_ok_iff.1 h
  have hchain : template.segments.IsChain (EndShows lookup) ↔
      template.matchKey? (filled lookup template.segments) = some (template.texts lookup) := by
    constructor
    · intro hends
      exact matchSegments_filled hends fun name earlier hnone => by cases hnone
    · intro hmatch
      apply endShows_of_matchSegments hmatch
      intro name hname
      rw [get?_texts]
      exact if_pos hname
  rw [← hchain, isChain_endShows_iff]

/-- The key of a message by its room, its time and its room again. -/
def messageTemplate : Template := .parse "${room}--${time}--${room}"

/-- A message whose time ends in half a separator, in a room without any. -/
def message (time : String) : Dict Value :=
  .ofList [("room", .string "blue"), ("time", .string time)]

/-- The texts of a message come back from its key, but not if its time ends in half a separator: the key is
cut too early, and no text is left that the second room agrees with. -/
theorem matchKey?_of_resolve_message :
    (messageTemplate.resolve (message "9-30").get? = .ok "blue--9-30--blue" ∧
      messageTemplate.matchKey? "blue--9-30--blue" = some (messageTemplate.texts (message "9-30").get?)) ∧
    messageTemplate.resolve (message "9-").get? = .ok "blue--9---blue" ∧
      messageTemplate.matchKey? "blue--9---blue" ≠ some (messageTemplate.texts (message "9-").get?) := by
  have hsegments : messageTemplate.segments = [.reference "room", .literal "--", .reference "time",
      .literal "--", .reference "room"] := by decide +kernel
  have hresolve : messageTemplate.resolve (message "9-30").get? = .ok "blue--9-30--blue" := by
    decide +kernel
  have hcut : messageTemplate.resolve (message "9-").get? = .ok "blue--9---blue" := by
    decide +kernel
  refine ⟨⟨hresolve, (matchKey?_of_resolve_iff hresolve).2 (isChain_endShows_iff.1 ?_)⟩, hcut, ?_⟩
  · rw [hsegments]
    decide +kernel
  · intro hmatch
    have hfirst := ((matchKey?_of_resolve_iff hcut).1 hmatch).2
      [.reference "room", .literal "--"] [.reference "room"] "time" "--" hsegments
    exact absurd hfirst (by decide +kernel)

end Template

end SingleTable
