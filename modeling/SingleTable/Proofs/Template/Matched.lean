import SingleTable.Proofs.Template.Matching

/-!
# Keys that match

A key that matches a template is the key that the template gives for the texts that were found
(`resolve_of_match`). Matching skips no character of the key and makes none up: every segment takes a
front of what is left, and nothing is left at the end (`eq_filled_of_matchSegments`). The texts that were
found are those of the names that the template refers to (`isBound_of_matchSegments_iff`).

The invariant of both inductions is that what was noted for a name stays noted (`get?_of_matchSegments`). So
the text that a segment took is already the text that the result has for its name, also if the name occurs
again.
-/

set_option autoImplicit false

namespace SingleTable

namespace Template

variable {bindings final : Dict String} {segments : List Segment} {text : List Char}

/-- The text of a bound name is the one that it is bound to. -/
theorem keyText?_of_get? {name value : String} (h : bindings.get? name = some value) :
    ((bindings.map .string).get? name).bind Value.keyText? = some value := by
  rw [Dict.get?_map, h]
  rfl

/-- **No character is skipped or made up.** Segments that match a text are filled to the same text by the
texts that were found. -/
theorem eq_filled_of_matchSegments (h : matchSegments bindings segments text = some final) :
    text = (filled (final.map .string).get? segments).toList := by
  induction segments generalizing bindings text with
  | nil => exact (matchSegments_nil_iff.1 h).1
  | cons segment rest ih =>
    cases segment with
    | literal literal =>
      obtain ⟨tail, rfl, hrest⟩ := matchSegments_literal_iff.1 h
      rw [filled, String.toList_append, ← ih hrest]
    | reference name =>
      obtain ⟨value, tail, noted, rfl, hnoted, hrest⟩ := exists_of_matchSegments_reference h
      -- What the reference took is noted, and a note stays, so the final text of the name is the same.
      have hnow : noted.get? name = some (String.ofList value) := by
        rw [get?_note? hnoted, if_pos rfl]
      have hfinal := keyText?_of_get? (get?_of_matchSegments hrest hnow)
      rw [filled, String.toList_append, ← ih hrest, textOf, hfinal, Option.getD_some, String.toList_ofList]

/-- **Only names of references are bound, and all of them.** -/
theorem isBound_of_matchSegments_iff (h : matchSegments bindings segments text = some final)
    (name : String) :
    (∃ value, final.get? name = some value) ↔
      (∃ value, bindings.get? name = some value) ∨ name ∈ segments.filterMap referredName? := by
  induction segments generalizing bindings text with
  | nil =>
    obtain ⟨-, rfl⟩ := matchSegments_nil_iff.1 h
    simp
  | cons segment rest ih =>
    cases segment with
    | literal literal =>
      obtain ⟨tail, -, hrest⟩ := matchSegments_literal_iff.1 h
      exact ih hrest
    | reference other =>
      obtain ⟨value, tail, noted, -, hnoted, hrest⟩ := exists_of_matchSegments_reference h
      have hnames : (Segment.reference other :: rest).filterMap referredName? =
          other :: rest.filterMap referredName? := rfl
      rw [ih hrest, get?_note? hnoted, hnames, List.mem_cons]
      -- A note binds its own name and leaves the others as they are.
      by_cases hname : name = other
      · simp [hname]
      · simp [hname]

/-- **Matching is sound.** A key that matches a template binds exactly the names that the template refers to,
and with the texts that were found the template gives this very key. -/
theorem resolve_of_match {template : Template} {key : String}
    (h : template.matchKey? key = some bindings) :
    (∀ name, (∃ text, bindings.get? name = some text) ↔ name ∈ template.references) ∧
      template.resolve (bindings.map .string).get? = .ok key := by
  have hbound : ∀ name, (∃ text, bindings.get? name = some text) ↔ name ∈ template.references := by
    intro name
    rw [isBound_of_matchSegments_iff h name]
    simp [references]
  refine ⟨hbound, resolve_eq_ok_iff.2 ⟨?_, ?_⟩⟩
  · intro name hname
    obtain ⟨text, htext⟩ := (hbound name).2 hname
    exact ⟨text, keyText?_of_get? htext⟩
  · exact String.toList_injective (eq_filled_of_matchSegments h)

/-- The key of a reply by its room, twice, and its time. -/
def replyTemplate : Template := .parse "${room}--${room}--${time}"

/-- A time that has a separator in it is found as a whole, behind a room that is found twice. -/
theorem resolve_of_match_reply :
    replyTemplate.matchKey? "blue--blue--9--30" =
        some (.ofList [("room", "blue"), ("time", "9--30")]) ∧
      (∀ name, (∃ text, (Dict.ofList [("room", "blue"), ("time", "9--30")]).get? name = some text) ↔
        name ∈ replyTemplate.references) ∧
      replyTemplate.resolve ((Dict.ofList [("room", "blue"), ("time", "9--30")]).map .string).get? =
        .ok "blue--blue--9--30" := by
  have hmatch : replyTemplate.matchKey? "blue--blue--9--30" =
      some (.ofList [("room", "blue"), ("time", "9--30")]) := by decide +kernel
  exact ⟨hmatch, resolve_of_match hmatch⟩

end Template

end SingleTable
