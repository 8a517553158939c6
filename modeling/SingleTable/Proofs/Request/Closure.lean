import SingleTable.Proofs.Condition.Shown
import SingleTable.Proofs.Expression.Clauses
import SingleTable.Proofs.Request.Drafts

/-!
# Closed requests

Expressions are closed under their maps if the maps bind the placeholders that the expressions show, each of
them and no other, a name token to its name and a value token to what it was minted for. If the handles are
plain, then the condition of a chain, the changes of an update and a projection are closed, and closed
expressions stay closed when their maps are merged (`Closed.append`). So the requests of all puts, updates,
deletions and scans are closed (`requests_closed`).
-/

set_option autoImplicit false

namespace SingleTable

/-- Expressions show a placeholder if one of them does. -/
def Shows (mark : Mark) (expressions : List String) (token : String) : Prop :=
  ∃ expression ∈ expressions, token ∈ shown mark expression

/-- Expressions whose maps bind the placeholders that they show. -/
structure Closed (minted : String → Value → Prop) (expressions : List String) (names : Dict String)
    (values : Dict Value) : Prop where
  /-- The name tokens of the expressions are those that are bound. -/
  names_iff : ∀ token, Shows .name expressions token ↔ ∃ name, names.get? token = some name
  /-- A name token is bound to its name. -/
  named : ∀ token name, names.get? token = some name → token = nameToken name
  /-- The value tokens of the expressions are those that are bound. -/
  values_iff : ∀ token, Shows .value expressions token ↔ ∃ value, values.get? token = some value
  /-- A value token is bound to the one value that it was minted for. -/
  valued : ∀ token value, values.get? token = some value → ∀ other, minted token other ↔ other = value

namespace Closed

variable {minted : String → Value → Prop} {front back : List String} {names names' : Dict String}
  {values values' : Dict Value}

/-- Closed expressions stay closed when their maps are merged. -/
theorem append (h : Closed minted front names values) (h' : Closed minted back names' values') :
    Closed minted (front ++ back) (names.extend names') (values.extend values') := by
  have hshows : ∀ mark token, Shows mark (front ++ back) token ↔
      Shows mark front token ∨ Shows mark back token := by
    intro mark token
    simp only [Shows, List.mem_append, or_and_right, exists_or]
  -- The maps agree about every placeholder that both of them bind.
  have hnames : ∀ token v w, names.get? token = some v → names'.get? token = some w → v = w :=
    fun token v w hv hw => nameToken_inj ((h.named _ _ hv).symm.trans (h'.named _ _ hw))
  have hvalues : ∀ token v w, values.get? token = some v → values'.get? token = some w → v = w :=
    fun token v w hv hw => (h'.valued _ _ hw v).1 ((h.valued _ _ hv v).2 rfl)
  constructor
  · intro token
    simp only [hshows, h.names_iff, h'.names_iff, Dict.get?_extend_iff (hnames token), exists_or]
  · intro token name hname
    rcases (Dict.get?_extend_iff (hnames token)).1 hname with hname | hname
    · exact h.named _ _ hname
    · exact h'.named _ _ hname
  · intro token
    simp only [hshows, h.values_iff, h'.values_iff, Dict.get?_extend_iff (hvalues token), exists_or]
  · intro token value hvalue
    rcases (Dict.get?_extend_iff (hvalues token)).1 hvalue with hvalue | hvalue
    · exact h.valued _ _ hvalue
    · exact h'.valued _ _ hvalue

end Closed

/-! ## Fragments of parts -/

/-- A part of an expression binds what it shows: name tokens to their names, and value tokens to values that
they were minted for. -/
structure Binds (minted : String → Value → Prop) (text : String) (names : String → String → Prop)
    (values : String → Value → Prop) : Prop where
  /-- The part binds the name tokens that it shows. -/
  names_iff : ∀ token name, names token name ↔ token = nameToken name ∧ token ∈ shown .name text
  /-- The part binds the value tokens that it shows. -/
  values_iff : ∀ token, token ∈ shown .value text ↔ ∃ value, values token value
  /-- A value token is bound to what it was minted for. -/
  minted : ∀ token value, values token value → minted token value

section Parts

variable {minted : String → Value → Prop} {fragment : Fragment}

/-- A fragment without a text shows nothing, so leaving it out makes no difference. -/
theorem shows_text? (mark : Mark) (fragment : Fragment) (token : String) :
    Shows mark fragment.text?.toList token ↔ token ∈ shown mark fragment.text := by
  rw [Shows, Fragment.text?]
  split
  · rename_i hempty
    rw [String.isEmpty_iff.1 hempty, shown_empty]
    simp
  · simp

/-- A name token is the mark with a name behind it. -/
theorem exists_eq_nameToken_of_mem {token expression : String} (h : token ∈ shown .name expression) :
    ∃ name, token = nameToken name := by
  obtain ⟨run, rfl, -, -⟩ := exists_run_of_mem h
  refine ⟨String.ofList run, String.toList_inj.1 ?_⟩
  simp [nameToken, Mark.char]

/-- A fragment that consists of parts is closed, if each part binds what it shows and if the maps are those
of the parts wherever the parts agree. -/
theorem Closed.of_parts {ι : Type} {parts : List ι} {text : ι → String}
    {names : ι → String → String → Prop} {values : ι → String → Value → Prop}
    (hunique : ∀ token v w, minted token v → minted token w → v = w)
    (hbinds : ∀ part ∈ parts, Binds minted (text part) (names part) (values part))
    (htext : ∀ mark token, token ∈ shown mark fragment.text ↔ ∃ part ∈ parts, token ∈ shown mark (text part))
    (hnames : ∀ token, (∀ a ∈ parts, ∀ b ∈ parts, ∀ v w, names a token v → names b token w → v = w) →
      ∀ name, fragment.names.get? token = some name ↔ ∃ part ∈ parts, names part token name)
    (hvalues : ∀ token, (∀ a ∈ parts, ∀ b ∈ parts, ∀ v w, values a token v → values b token w → v = w) →
      ∀ value, fragment.values.get? token = some value ↔ ∃ part ∈ parts, values part token value) :
    Closed minted fragment.text?.toList fragment.names fragment.values := by
  -- The parts agree about a name token, which tells its name, and about a value token, which was minted once.
  have hnames : ∀ token name, fragment.names.get? token = some name ↔ ∃ part ∈ parts, names part token name := by
    intro token
    apply hnames
    intro a ha b hb v w hv hw
    have hv := ((hbinds a ha).names_iff _ _).1 hv
    have hw := ((hbinds b hb).names_iff _ _).1 hw
    exact nameToken_inj (hv.1.symm.trans hw.1)
  have hvalues : ∀ token value,
      fragment.values.get? token = some value ↔ ∃ part ∈ parts, values part token value := by
    intro token
    apply hvalues
    intro a ha b hb v w hv hw
    exact hunique token v w ((hbinds a ha).minted _ _ hv) ((hbinds b hb).minted _ _ hw)
  have hminted : ∀ token value, fragment.values.get? token = some value → minted token value := by
    intro token value hvalue
    obtain ⟨part, hpart, hbound⟩ := (hvalues _ _).1 hvalue
    exact (hbinds part hpart).minted _ _ hbound
  constructor
  · intro token
    rw [shows_text?, htext]
    constructor
    · rintro ⟨part, hpart, hshown⟩
      obtain ⟨name, rfl⟩ := exists_eq_nameToken_of_mem hshown
      exact ⟨name, (hnames _ _).2 ⟨part, hpart, ((hbinds part hpart).names_iff _ _).2 ⟨rfl, hshown⟩⟩⟩
    · rintro ⟨name, hname⟩
      obtain ⟨part, hpart, hbound⟩ := (hnames _ _).1 hname
      exact ⟨part, hpart, (((hbinds part hpart).names_iff _ _).1 hbound).2⟩
  · intro token name hname
    obtain ⟨part, hpart, hbound⟩ := (hnames _ _).1 hname
    exact (((hbinds part hpart).names_iff _ _).1 hbound).1
  · intro token
    rw [shows_text?, htext]
    constructor
    · rintro ⟨part, hpart, hshown⟩
      obtain ⟨value, hbound⟩ := ((hbinds part hpart).values_iff _).1 hshown
      exact ⟨value, (hvalues _ _).2 ⟨part, hpart, hbound⟩⟩
    · rintro ⟨value, hvalue⟩
      obtain ⟨part, hpart, hbound⟩ := (hvalues _ _).1 hvalue
      exact ⟨part, hpart, ((hbinds part hpart).values_iff _).2 ⟨value, hbound⟩⟩
  · intro token value hvalue other
    constructor
    · intro hother
      exact hunique token other value hother (hminted token value hvalue)
    · rintro rfl
      exact hminted token other hvalue

/-- The leaf of a plain test binds what it shows. -/
theorem Leaf.ComesFrom.binds {leaf : Leaf} {entry : Test × Nat} (h : leaf.ComesFrom entry)
    (hplain : entry.1.target.IsPlain)
    (hminted : ∀ token value, (token, value) ∈ entry.1.bound entry.2 → minted token value) :
    Binds minted leaf.text (fun token name => leaf.names.get? token = some name)
      (fun token value => leaf.values.get? token = some value) := by
  rw [h]
  constructor
  · intro token name
    rw [shown_name]
    exact get?_names_leaf_iff hplain
  · intro token
    simp only [get?_leaf]
    exact mem_valueTokens_leaf_iff hplain
  · intro token value hvalue
    exact hminted token value (get?_leaf.1 hvalue)

/-- An action on a plain handle binds what it shows. -/
theorem RecordedAction.binds {entry : RecordedAction} (hplain : entry.action.target.IsPlain)
    (hminted : ∀ token value, (token, value) ∈ entry.bound → minted token value) :
    Binds minted entry.text (fun token name => (token, name) ∈ entry.action.target.operand.names)
      (fun token value => (token, value) ∈ entry.bound) := by
  constructor
  · intro token name
    rw [mem_shown_name_iff hplain]
    exact hplain.mem_names_iff
  · intro token
    exact mem_valueTokens_iff hplain
  · exact hminted

/-- A plain operand in a projection binds what it shows. -/
theorem Handle.IsPlain.binds {handle : Handle} (h : handle.IsPlain) :
    Binds minted handle.operand.text (fun token name => (token, name) ∈ handle.operand.names)
      (fun _ _ => False) := by
  constructor
  · intro token name
    exact h.mem_names_iff
  · intro token
    rw [h.shown_value_operand]
    simp
  · intro token value hfalse
    exact hfalse.elim

/-! ## Expressions of requests -/

/-- The condition of a chain is closed. -/
theorem Chain.Owned.closed {made : List (Test × Nat)} {chain : Chain} (h : chain.Owned made)
    (hplain : ∀ entry ∈ made, entry.1.target.IsPlain)
    (hminted : ∀ entry ∈ made, ∀ token value, (token, value) ∈ entry.1.bound entry.2 → minted token value)
    (hunique : ∀ token v w, minted token v → minted token w → v = w) :
    Closed minted chain.compile.text?.toList chain.compile.names chain.compile.values := by
  have hbinds : ∀ leaf ∈ chain.combined.leaves,
      Binds minted leaf.text (fun token name => leaf.names.get? token = some name)
        fun token value => leaf.values.get? token = some value := by
    intro leaf hleaf
    rw [leaves_combined] at hleaf
    obtain ⟨entry, hentry, hcomes⟩ := h.leaves leaf hleaf
    exact hcomes.binds (hplain entry hentry) (hminted entry hentry)
  apply Closed.of_parts hunique hbinds
  · intro mark token
    rw [compile, Condition.compile, Condition.shown_text, List.mem_flatMap]
  · intro token hagree name
    exact Condition.get?_namesOf_iff hagree
  · intro token hagree value
    exact Condition.get?_valuesOf_iff hagree

/-- The changes of an update are closed. -/
theorem ChangeSet.closed {changes : ChangeSet}
    (hplain : ∀ entry ∈ changes.entries, entry.action.target.IsPlain)
    (hminted : ∀ entry ∈ changes.entries, ∀ token value, (token, value) ∈ entry.bound → minted token value)
    (hunique : ∀ token v w, minted token v → minted token w → v = w) :
    Closed minted changes.compile.text?.toList changes.compile.names changes.compile.values := by
  have hbinds : ∀ entry ∈ changes.entries,
      Binds minted entry.text (fun token name => (token, name) ∈ entry.action.target.operand.names)
        fun token value => (token, value) ∈ entry.bound := by
    intro entry hentry
    exact RecordedAction.binds (hplain entry hentry) (hminted entry hentry)
  apply Closed.of_parts hunique hbinds
  · intro mark token
    exact changes.mem_shown_compile_iff token
  · intro token hagree name
    exact Dict.get?_ofList_flatMap_iff hagree
  · intro token hagree value
    exact Dict.get?_ofList_flatMap_iff hagree

/-- A projection is closed. -/
theorem closed_projection {handles : List Handle} (hplain : ∀ handle ∈ handles, handle.IsPlain)
    (hunique : ∀ token v w, minted token v → minted token w → v = w) :
    Closed minted (projection handles).text?.toList (projection handles).names
      (projection handles).values := by
  have hbinds : ∀ handle ∈ handles,
      Binds minted handle.operand.text (fun token name => (token, name) ∈ handle.operand.names)
        fun _ _ => False := fun handle hhandle => (hplain handle hhandle).binds
  apply Closed.of_parts hunique hbinds
  · intro mark token
    exact mem_shown_projection_iff handles token
  · intro token hagree name
    rw [projection, List.flatMap_map]
    exact Dict.get?_ofList_flatMap_iff hagree
  -- A projection has no values.
  · intro token hagree value
    constructor
    · intro hvalue
      cases hvalue
    · rintro ⟨handle, -, hfalse⟩
      exact hfalse.elim

end Parts

/-! ## Requests -/

section Requests

variable {made : List (Test × Nat)} {recorded : List RecordedAction}

theorem Put.Reached.closed {put : Put} {request : PutRequest} (h : Put.Reached made put)
    (hplain : ∀ entry ∈ made, entry.1.target.IsPlain) (hbuild : put.build = .ok request) :
    Closed (MintedIn made []) request.conditionExpression.toList request.names request.values := by
  obtain ⟨keys, -, hbuild⟩ := bind_eq_ok_iff.1 hbuild
  cases hbuild
  exact h.owned.closed hplain (fun entry hentry token value hbound => Or.inl ⟨entry, hentry, hbound⟩)
    fun token v w => h.owned.minted_unique

theorem Delete.Reached.closed {delete : Delete} {request : DeleteRequest} (h : Delete.Reached made delete)
    (hplain : ∀ entry ∈ made, entry.1.target.IsPlain) (hbuild : delete.build = .ok request) :
    Closed (MintedIn made []) request.conditionExpression.toList request.names request.values := by
  obtain ⟨key, -, hbuild⟩ := bind_eq_ok_iff.1 hbuild
  cases hbuild
  exact h.owned.closed hplain (fun entry hentry token value hbound => Or.inl ⟨entry, hentry, hbound⟩)
    fun token v w => h.owned.minted_unique

theorem Scan.Reached.closed {scan : Scan} {request : ScanRequest} (h : Scan.Reached made scan)
    (hplain : ∀ entry ∈ made, entry.1.target.IsPlain) (hprojected : ∀ handle ∈ scan.projected, handle.IsPlain)
    (hbuild : scan.build = .ok request) :
    Closed (MintedIn made []) (request.filterExpression.toList ++ request.projectionExpression.toList)
      request.names request.values := by
  obtain ⟨_, -, hbuild⟩ := bind_eq_ok_iff.1 hbuild
  cases hbuild
  have hunique : ∀ token v w, MintedIn made [] token v → MintedIn made [] token w → v = w :=
    fun token v w => h.owned.minted_unique
  have hfilter := h.owned.closed hplain
    (fun entry hentry token value hbound => Or.inl ⟨entry, hentry, hbound⟩) hunique
  have hclosed := hfilter.append (closed_projection hprojected hunique)
  -- The maps of the request start empty.
  dsimp only [Fragment.merge]
  rwa [Dict.empty_extend, Dict.empty_extend]

theorem Update.Reached.closed {update : Update} {request : UpdateRequest}
    (h : Update.Reached made recorded update) (hplain : ∀ entry ∈ made, entry.1.target.IsPlain)
    (hactions : ∀ entry ∈ recorded, entry.action.target.IsPlain) (hbuild : update.build = .ok request) :
    Closed (MintedIn made recorded) (request.updateExpression.toList ++ request.conditionExpression.toList)
      request.names request.values := by
  obtain ⟨key, -, hbuild⟩ := bind_eq_ok_iff.1 hbuild
  cases hbuild
  have howned := h.owned
  have hunique : ∀ token v w, MintedIn made recorded token v → MintedIn made recorded token w → v = w :=
    fun token v w => howned.minted_unique
  -- The changes that are sent are the actions that were recorded.
  rw [← howned.entries] at hactions
  have hchanges := ChangeSet.closed hactions
    (fun entry hentry token value hbound => Or.inr ⟨entry, howned.entries ▸ hentry, hbound⟩) hunique
  have hcondition := howned.chain.closed hplain
    (fun entry hentry token value hbound => Or.inl ⟨entry, hentry, hbound⟩) hunique
  have hclosed := hchanges.append hcondition
  dsimp only [Fragment.merge]
  rwa [Dict.empty_extend, Dict.empty_extend]

/-- **Requests are closed.** Take any put, update, deletion or scan whose conditions are made by its operator
builder, with the same tests used as often as one likes, on plain handles, and let the build succeed. Then the
name tokens of its expressions are those that its map of names binds, each to its name, and the value tokens
are those that its map of values binds, each to the one value that a test or an action minted it for. -/
theorem requests_closed :
    (∀ (made : List (Test × Nat)) (put : Put) (request : PutRequest), Put.Reached made put →
      (∀ entry ∈ made, entry.1.target.IsPlain) → put.build = .ok request →
        Closed (MintedIn made []) request.conditionExpression.toList request.names request.values) ∧
    (∀ (made : List (Test × Nat)) (recorded : List RecordedAction) (update : Update) (request : UpdateRequest),
      Update.Reached made recorded update → (∀ entry ∈ made, entry.1.target.IsPlain) →
        (∀ entry ∈ recorded, entry.action.target.IsPlain) → update.build = .ok request →
          Closed (MintedIn made recorded)
            (request.updateExpression.toList ++ request.conditionExpression.toList)
            request.names request.values) ∧
    (∀ (made : List (Test × Nat)) (delete : Delete) (request : DeleteRequest), Delete.Reached made delete →
      (∀ entry ∈ made, entry.1.target.IsPlain) → delete.build = .ok request →
        Closed (MintedIn made []) request.conditionExpression.toList request.names request.values) ∧
    ∀ (made : List (Test × Nat)) (scan : Scan) (request : ScanRequest), Scan.Reached made scan →
      (∀ entry ∈ made, entry.1.target.IsPlain) → (∀ handle ∈ scan.projected, handle.IsPlain) →
        scan.build = .ok request →
          Closed (MintedIn made []) (request.filterExpression.toList ++ request.projectionExpression.toList)
            request.names request.values := by
  refine ⟨?_, ?_, ?_, ?_⟩
  · intro made put request hreached hplain hbuild
    exact hreached.closed hplain hbuild
  · intro made recorded update request hreached hplain hactions hbuild
    exact hreached.closed hplain hactions hbuild
  · intro made delete request hreached hplain hbuild
    exact hreached.closed hplain hbuild
  · intro made scan request hreached hplain hprojected hbuild
    exact hreached.closed hplain hprojected hbuild

end Requests

/-! ### Requests for an article -/

/-- Articles, stored under their numbers. -/
def articles : Model where
  name := "Article"
  table := "app"
  key := [⟨"PK", "ARTICLE#${id}"⟩]

/-- The attributes of an article. -/
def article : Dict Value := .singleton "id" (.string "7")

/-- The test whether an article was read. -/
def isRead : Test := .compare .gt ⟨"views", none⟩ (.ofInt 0)

/-- The first of the tags of an article. -/
def firstTag : Handle := ⟨"tags", some "tags[0]"⟩

/-- A new article, or one that was read. -/
def articlePut : Put := (Put.ifAbsent { model := articles, item := article }).condition isRead.build

/-- A change of an article before and after a condition was added. -/
def articleUpdate : Update :=
  ((Update.record { model := articles, attributes := article } fun changes =>
    changes.recordAll [.set ⟨"title", none⟩ (.string "News")]).condition isRead.build).record fun changes =>
      changes.recordAll [.increment ⟨"views", none⟩ (.ofInt 1), .remove firstTag]

/-- A deletion of an article that was read. -/
def articleDelete : Delete := Delete.condition { model := articles, attributes := article } isRead.build

/-- The tags of the articles that were read. -/
def articleScan : Scan :=
  (Scan.condition { model := articles } isRead.build).project [firstTag, ⟨"views", none⟩, firstTag]

theorem requests_closed_articles :
    (∃ request, articlePut.build = .ok request ∧
      request.conditionExpression = some "(attribute_not_exists(#PK)) AND (#views > :views_0)" ∧
      Closed (MintedIn [(.absent ⟨"PK", none⟩, 0), (isRead, 0)] [])
        request.conditionExpression.toList request.names request.values) ∧
    (∃ request, articleUpdate.build = .ok request ∧
      request.updateExpression = some "SET #title = :title_0, #views = #views + :views_2 REMOVE #tags[0]" ∧
      Closed (MintedIn [(isRead, 1)] [⟨.set ⟨"title", none⟩ (.string "News"), 0⟩,
          ⟨.increment ⟨"views", none⟩ (.ofInt 1), 2⟩, ⟨.remove firstTag, 3⟩])
        (request.updateExpression.toList ++ request.conditionExpression.toList)
        request.names request.values) ∧
    (∃ request, articleDelete.build = .ok request ∧
      request.conditionExpression = some "#views > :views_0" ∧
      Closed (MintedIn [(isRead, 0)] []) request.conditionExpression.toList request.names request.values) ∧
    ∃ request, articleScan.build = .ok request ∧ request.projectionExpression = some "#tags[0], #views" ∧
      Closed (MintedIn [(isRead, 0)] [])
        (request.filterExpression.toList ++ request.projectionExpression.toList)
        request.names request.values := by
  obtain ⟨hput, hupdate, hdelete, hscan⟩ := requests_closed
  refine ⟨?_, ?_, ?_, ?_⟩
  · have htext : articlePut.build.toOption.map PutRequest.conditionExpression =
        some (some "(attribute_not_exists(#PK)) AND (#views > :views_0)") := by decide +kernel
    obtain ⟨request, hbuild, htext⟩ := exists_ok_of_map_toOption htext
    have hstart := (Put.Reached.start articles article).ifAbsent rfl
    have hreached := hstart.condition (Chain.builds_test _ _ isRead)
    exact ⟨request, hbuild, htext, hput _ _ _ hreached (by decide +kernel) hbuild⟩
  · have htext : articleUpdate.build.toOption.map UpdateRequest.updateExpression =
        some (some "SET #title = :title_0, #views = #views + :views_2 REMOVE #tags[0]") := by decide +kernel
    obtain ⟨request, hbuild, htext⟩ := exists_ok_of_map_toOption htext
    have hstart := (Update.Reached.start articles article).record [.set ⟨"title", none⟩ (.string "News")]
    have hcondition := hstart.condition (Chain.builds_test _ _ isRead)
    have hreached := hcondition.record [.increment ⟨"views", none⟩ (.ofInt 1), .remove firstTag]
    exact ⟨request, hbuild, htext, hupdate _ _ _ _ hreached (by decide +kernel) (by decide +kernel) hbuild⟩
  · have htext : articleDelete.build.toOption.map DeleteRequest.conditionExpression =
        some (some "#views > :views_0") := by decide +kernel
    obtain ⟨request, hbuild, htext⟩ := exists_ok_of_map_toOption htext
    have hreached := (Delete.Reached.start articles article).condition (Chain.builds_test _ _ isRead)
    exact ⟨request, hbuild, htext, hdelete _ _ _ hreached (by decide +kernel) hbuild⟩
  · have htext : articleScan.build.toOption.map ScanRequest.projectionExpression =
        some (some "#tags[0], #views") := by decide +kernel
    obtain ⟨request, hbuild, htext⟩ := exists_ok_of_map_toOption htext
    have hcondition := (Scan.Reached.start articles).condition (Chain.builds_test _ _ isRead)
    have hreached := hcondition.setting (.project [firstTag, ⟨"views", none⟩, firstTag])
    exact ⟨request, hbuild, htext, hscan _ _ _ hreached (by decide +kernel) (by decide +kernel) hbuild⟩

end SingleTable
