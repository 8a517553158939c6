import SingleTable.Proofs.Request.Reached

/-!
# Puts, updates, deletions and scans by calls

The drafts of puts, updates, deletions and scans that a chain of calls can reach, with the tests that the
operator builder of the draft has made on the way and, for an update, with the actions that were recorded.
A call that adds a condition makes some tests and builds the condition of any tests made up to then. In all
these drafts the conditions belong to the builder (`Chain.Owned`), and no number was given to two of the tests
and actions, so a placeholder was minted for one value only (`Chain.Owned.minted_unique`,
`Update.Owned.minted_unique`).
-/

set_option autoImplicit false

namespace SingleTable

/-- A placeholder was minted for a value: by one of the given tests, or by one of the given actions. -/
def MintedIn (made : List (Test × Nat)) (recorded : List RecordedAction) (placeholder : String)
    (value : Value) : Prop :=
  (∃ entry ∈ made, (placeholder, value) ∈ entry.1.bound entry.2) ∨
    ∃ entry ∈ recorded, (placeholder, value) ∈ entry.bound

/-! ## Conditions of a chain -/

namespace Chain

variable {chain : Chain} {made more : List (Test × Nat)} {build : Minting Condition}

/-- The builder of a chain makes more tests and builds a condition of tests that were made. -/
structure Builds (chain : Chain) (build : Minting Condition) (made more : List (Test × Nat)) : Prop where
  /-- The tests take numbers from the counter of the chain. -/
  minted : Minted chain.next more (build.run chain.next).2
  /-- The condition is built of tests of the builder, old ones or new ones. -/
  built : (build.run chain.next).1.Built (IsMade (made ++ more))

/-- A call that makes one test and adds it as a condition. -/
theorem builds_test (chain : Chain) (made : List (Test × Nat)) (test : Test) :
    chain.Builds test.build made [(test, chain.next)] := by
  refine ⟨Minted.start.operator test, .leaf ⟨(test, chain.next), ?_, rfl⟩⟩
  exact List.mem_append_right _ (List.mem_singleton_self _)

/-- The conditions of a chain belong to its operator builder. -/
structure Owned (made : List (Test × Nat)) (chain : Chain) : Prop where
  /-- The builder has kept its tests apart. -/
  apart : Apart made chain.next
  /-- Every leaf comes from a test of the builder. -/
  leaves : ∀ leaf ∈ Condition.leavesOfAll chain.conditions, ∃ entry ∈ made, leaf.ComesFrom entry

/-- A chain without conditions has no leaf that could come from elsewhere. -/
theorem Owned.empty : Owned [] {} :=
  ⟨Apart.empty 0, fun leaf hleaf => by simp [Condition.leavesOfAll] at hleaf⟩

/-- A condition that the builder makes belongs to the builder. -/
theorem Owned.push (h : chain.Owned made) (hbuilds : chain.Builds build made more) :
    (chain.push build).Owned (made ++ more) :=
  ⟨h.apart.append hbuilds.minted, comesFrom_append h.leaves hbuilds.built⟩

/-- A placeholder of a chain was minted for one value. -/
theorem Owned.minted_unique (h : chain.Owned made) {placeholder : String} {v w : Value}
    (hv : MintedIn made [] placeholder v) (hw : MintedIn made [] placeholder w) : v = w := by
  rcases hv with ⟨a, ha, hv⟩ | ⟨a, ha, -⟩
  · rcases hw with ⟨b, hb, hw⟩ | ⟨b, hb, -⟩
    · exact (h.apart.unique ha hb hv hw).2
    · cases hb
  · cases ha

end Chain

/-! ## Puts -/

namespace Put

/-- The puts that calls reach, with the tests that their operator builders have made. -/
inductive Reached : List (Test × Nat) → Put → Prop
  | start (model : Model) (item : Dict Value) : Reached [] { model, item }
  | condition {made more : List (Test × Nat)} {put : Put} {build : Minting Condition}
      (h : Reached made put) (hbuilds : put.chain.Builds build made more) :
      Reached (made ++ more) (put.condition build)
  | ifAbsent {made : List (Test × Nat)} {put : Put} {first : KeyDefinition} {rest : List KeyDefinition}
      (h : Reached made put) (hkey : put.model.key = first :: rest) :
      Reached (made ++ [(.absent ⟨first.name, none⟩, put.chain.next)]) put.ifAbsent
  | ifAbsentWithoutKey {made : List (Test × Nat)} {put : Put}
      (h : Reached made put) (hkey : put.model.key = []) : Reached made put.ifAbsent
  | returning {made : List (Test × Nat)} {put : Put} (h : Reached made put) (mode : ReturnMode) :
      Reached made (put.returning mode)

/-- **The conditions of every put belong to its builder.** -/
theorem Reached.owned {made : List (Test × Nat)} {put : Put} (h : Reached made put) :
    put.chain.Owned made := by
  induction h with
  | start model item => exact Chain.Owned.empty
  | condition _ hbuilds ih => exact ih.push hbuilds
  | @ifAbsent made put first rest _ hkey ih =>
    have hput : put.ifAbsent = put.condition (Test.absent ⟨first.name, none⟩).build := by
      rw [Put.ifAbsent, hkey]
    rw [hput]
    exact ih.push (put.chain.builds_test made _)
  | @ifAbsentWithoutKey made put _ hkey ih =>
    have hput : put.ifAbsent = put := by rw [Put.ifAbsent, hkey]
    rwa [hput]
  | returning _ mode ih => exact ih

end Put

/-! ## Deletions -/

namespace Delete

/-- The deletions that calls reach, with the tests that their operator builders have made. -/
inductive Reached : List (Test × Nat) → Delete → Prop
  | start (model : Model) (attributes : Dict Value) : Reached [] { model, attributes }
  | condition {made more : List (Test × Nat)} {delete : Delete} {build : Minting Condition}
      (h : Reached made delete) (hbuilds : delete.chain.Builds build made more) :
      Reached (made ++ more) (delete.condition build)
  | returning {made : List (Test × Nat)} {delete : Delete} (h : Reached made delete) (mode : ReturnMode) :
      Reached made (delete.returning mode)

/-- **The conditions of every deletion belong to its builder.** -/
theorem Reached.owned {made : List (Test × Nat)} {delete : Delete} (h : Reached made delete) :
    delete.chain.Owned made := by
  induction h with
  | start model attributes => exact Chain.Owned.empty
  | condition _ hbuilds ih => exact ih.push hbuilds
  | returning _ mode ih => exact ih

end Delete

/-! ## Scans -/

namespace Scan

/-- The calls that leave the conditions of a scan alone. -/
inductive Setting where
  | settings (settings : Settings)
  | index (name : String)
  | project (handles : List Handle)
  | limit (limit : Int32)
  | startingAfter (key : Dict Value)
  | segment (number total : Int32)
  | select (mode : SelectMode)
  | consistency (consistent : Bool)

/-- The scan after a call. -/
def Setting.apply (scan : Scan) : Setting → Scan
  | .settings defaults => scan.withSettings defaults
  | .index name => scan.onIndex name
  | .project handles => scan.project handles
  | .limit number => scan.withLimit number
  | .startingAfter key => scan.startingAfter key
  | .segment number total => scan.ofSegment number total
  | .select mode => scan.selecting mode
  | .consistency consistent => scan.withConsistency consistent

/-- The scans that calls reach, with the tests that their operator builders have made. -/
inductive Reached : List (Test × Nat) → Scan → Prop
  | start (model : Model) : Reached [] { model }
  | setting {made : List (Test × Nat)} {scan : Scan} (h : Reached made scan) (setting : Setting) :
      Reached made (setting.apply scan)
  | condition {made more : List (Test × Nat)} {scan : Scan} {build : Minting Condition}
      (h : Reached made scan) (hbuilds : scan.chain.Builds build made more) :
      Reached (made ++ more) (scan.condition build)

/-- **The conditions of every scan belong to its builder.** -/
theorem Reached.owned {made : List (Test × Nat)} {scan : Scan} (h : Reached made scan) :
    scan.chain.Owned made := by
  induction h with
  | start model => exact Chain.Owned.empty
  | @setting made scan _ setting ih =>
    have hchain : (setting.apply scan).chain = scan.chain := by cases setting <;> rfl
    rwa [hchain]
  | condition _ hbuilds ih => exact ih.push hbuilds

end Scan

/-! ## Updates -/

/-- Actions with the numbers that they get from a counter. -/
def numbered (next : Nat) : List Action → List RecordedAction
  | [] => []
  | action :: rest => ⟨action, next⟩ :: numbered (next + action.arity) rest

/-- The counter after actions. -/
def numberAfter (next : Nat) : List Action → Nat
  | [] => next
  | action :: rest => numberAfter (next + action.arity) rest

/-- Recording actions puts them behind the others with the next numbers. -/
theorem run_recordAll (changes : ChangeSet) (actions : List Action) (next : Nat) :
    (changes.recordAll actions).run next =
      (⟨changes.entries ++ numbered next actions⟩, numberAfter next actions) := by
  induction actions generalizing changes next with
  | nil =>
    rw [numbered, List.append_nil]
    rfl
  | cons action rest ih =>
    have hstep : (changes.recordAll (action :: rest)).run next =
        ((⟨changes.entries ++ [⟨action, next⟩]⟩ : ChangeSet).recordAll rest).run (next + action.arity) := rfl
    rw [hstep, ih, numbered, numberAfter, List.append_assoc]
    rfl

theorem le_numberAfter (next : Nat) (actions : List Action) : next ≤ numberAfter next actions := by
  induction actions generalizing next with
  | nil => exact Nat.le_refl next
  | cons action rest ih => exact Nat.le_trans (Nat.le_add_right _ _) (ih _)

/-- Numbered actions took their numbers between the counter before and the counter after them. -/
theorem bounds_of_mem_numbered {next : Nat} {actions : List Action} {entry : RecordedAction}
    (h : entry ∈ numbered next actions) :
    next ≤ entry.number ∧ entry.number + entry.action.arity ≤ numberAfter next actions := by
  induction actions generalizing next with
  | nil => cases h
  | cons action rest ih =>
    rw [numberAfter]
    rcases List.mem_cons.1 h with rfl | hrest
    · exact ⟨Nat.le_refl _, le_numberAfter _ _⟩
    · obtain ⟨hlow, hhigh⟩ := ih hrest
      exact ⟨Nat.le_trans (Nat.le_add_right _ _) hlow, hhigh⟩

theorem numbered_ordered (next : Nat) (actions : List Action) :
    (numbered next actions).Pairwise fun a b => a.number + a.action.arity ≤ b.number := by
  induction actions generalizing next with
  | nil => exact List.Pairwise.nil
  | cons action rest ih =>
    exact List.pairwise_cons.2 ⟨fun entry hentry => (bounds_of_mem_numbered hentry).1, ih _⟩

/-- An action that binds a placeholder has a value and took one number. -/
theorem RecordedAction.of_mem_bound {entry : RecordedAction} {placeholder : String} {value : Value}
    (h : (placeholder, value) ∈ entry.bound) :
    entry.action.value? = some value ∧ placeholder = entry.placeholder ∧ entry.action.arity = 1 := by
  rw [bound] at h
  split at h
  · rename_i found hfound
    cases List.mem_singleton.1 h
    exact ⟨hfound, rfl, by simp [Action.arity, hfound]⟩
  · cases h

/-- The tests of a builder took their numbers between the counters before and after them. -/
theorem Minted.bounds {first next : Nat} {made : List (Test × Nat)} (h : Minted first made next) :
    first ≤ next ∧ ∀ entry ∈ made, first ≤ entry.2 := by
  induction h with
  | start => simp
  | @operator made next _ test ih =>
    have hrun : (test.build.run next).2 = next + test.arity := rfl
    rw [hrun]
    refine ⟨Nat.le_trans ih.1 (Nat.le_add_right _ _), fun entry hentry => ?_⟩
    rcases List.mem_append.1 hentry with hold | hnew
    · exact ih.2 entry hold
    · rw [List.mem_singleton.1 hnew]
      exact ih.1
  | skip _ ih => exact ⟨Nat.le_succ_of_le ih.1, ih.2⟩

namespace Update

variable {made more : List (Test × Nat)} {recorded : List RecordedAction} {update : Update}

/-- The updates that calls reach, with the tests that their operator builders have made and the actions that
were recorded. Tests and actions take their numbers from one counter. -/
inductive Reached : List (Test × Nat) → List RecordedAction → Update → Prop
  | start (model : Model) (attributes : Dict Value) : Reached [] [] { model, attributes }
  | condition {made more : List (Test × Nat)} {recorded : List RecordedAction} {update : Update}
      {build : Minting Condition} (h : Reached made recorded update)
      (hbuilds : update.chain.Builds build made more) :
      Reached (made ++ more) recorded (update.condition build)
  | record {made : List (Test × Nat)} {recorded : List RecordedAction} {update : Update}
      (h : Reached made recorded update) (actions : List Action) :
      Reached made (recorded ++ numbered update.chain.next actions) (update.record (·.recordAll actions))
  | returning {made : List (Test × Nat)} {recorded : List RecordedAction} {update : Update}
      (h : Reached made recorded update) (mode : ReturnMode) :
      Reached made recorded (update.returning mode)

/-- The conditions and the changes of an update belong to its operator builder. -/
structure Owned (made : List (Test × Nat)) (recorded : List RecordedAction) (update : Update) : Prop where
  /-- The conditions belong to the builder. -/
  chain : update.chain.Owned made
  /-- The changes are the recorded actions. -/
  entries : update.changes.entries = recorded
  /-- An action takes numbers behind those of the actions before it. -/
  ordered : recorded.Pairwise fun a b => a.number + a.action.arity ≤ b.number
  /-- No action took a number that the counter has not given out. -/
  below : ∀ entry ∈ recorded, entry.number + entry.action.arity ≤ update.chain.next
  /-- No action took a number of a test. -/
  apart : ∀ test ∈ made, ∀ entry ∈ recorded,
    test.2 + test.1.arity ≤ entry.number ∨ entry.number + entry.action.arity ≤ test.2

/-- A condition takes its numbers behind those of all actions. -/
theorem Owned.condition (h : Owned made recorded update) {build : Minting Condition}
    (hbuilds : update.chain.Builds build made more) :
    Owned (made ++ more) recorded (update.condition build) := by
  obtain ⟨hle, hmore⟩ := hbuilds.minted.bounds
  refine ⟨h.chain.push hbuilds, h.entries, h.ordered, ?_, ?_⟩
  · intro entry hentry
    exact Nat.le_trans (h.below entry hentry) hle
  · intro test htest entry hentry
    rcases List.mem_append.1 htest with hold | hnew
    · exact h.apart test hold entry hentry
    · exact Or.inr (Nat.le_trans (h.below entry hentry) (hmore test hnew))

/-- Recorded actions take their numbers behind those of all tests and actions. -/
theorem Owned.record (h : Owned made recorded update) (actions : List Action) :
    Owned made (recorded ++ numbered update.chain.next actions)
      (update.record (·.recordAll actions)) := by
  have hrun := run_recordAll update.changes actions update.chain.next
  have hrecord : update.record (·.recordAll actions) =
      { update with
        changes := ⟨update.changes.entries ++ numbered update.chain.next actions⟩
        chain := { update.chain with next := numberAfter update.chain.next actions } } := by
    rw [Update.record, hrun]
  rw [hrecord]
  have hle := le_numberAfter update.chain.next actions
  refine ⟨⟨h.chain.apart.mono hle, h.chain.leaves⟩, by rw [h.entries], ?_, ?_, ?_⟩
  · refine List.pairwise_append.2 ⟨h.ordered, numbered_ordered _ _, fun a ha b hb => ?_⟩
    exact Nat.le_trans (h.below a ha) (bounds_of_mem_numbered hb).1
  · intro entry hentry
    rcases List.mem_append.1 hentry with hold | hnew
    · exact Nat.le_trans (h.below entry hold) hle
    · exact (bounds_of_mem_numbered hnew).2
  · intro test htest entry hentry
    rcases List.mem_append.1 hentry with hold | hnew
    · exact h.apart test htest entry hold
    · exact Or.inl (Nat.le_trans (h.chain.apart.below test htest) (bounds_of_mem_numbered hnew).1)

/-- **The conditions and changes of every update belong to its builder.** -/
theorem Reached.owned (h : Reached made recorded update) : Owned made recorded update := by
  induction h with
  | start model attributes =>
    refine ⟨Chain.Owned.empty, rfl, List.Pairwise.nil, ?_, ?_⟩
    · intro entry hentry
      cases hentry
    · intro test htest
      cases htest
  | condition _ hbuilds ih => exact ih.condition hbuilds
  | record _ actions ih => exact ih.record actions
  | returning _ mode ih => exact ⟨ih.chain, ih.entries, ih.ordered, ih.below, ih.apart⟩

/-- A placeholder of an update was minted for one value. -/
theorem Owned.minted_unique (h : Owned made recorded update) {placeholder : String} {v w : Value}
    (hv : MintedIn made recorded placeholder v) (hw : MintedIn made recorded placeholder w) : v = w := by
  -- No test and action share a number, and the number of a placeholder can be read off.
  have hdisjoint : ∀ test ∈ made, ∀ entry ∈ recorded, ∀ v w,
      (placeholder, v) ∈ test.1.bound test.2 → (placeholder, w) ∉ entry.bound := by
    intro test htest entry hentry v w hv hw
    obtain ⟨i, role, hi, -, heq⟩ := exists_number_of_mem_bound hv
    obtain ⟨-, rfl, harity⟩ := RecordedAction.of_mem_bound hw
    have hnumber := valuePlaceholder_number heq
    have hi : i < test.1.arity := hi
    rcases h.apart test htest entry hentry with hle | hle <;> omega
  rcases hv with ⟨a, ha, hv⟩ | ⟨a, ha, hv⟩
  · rcases hw with ⟨b, hb, hw⟩ | ⟨b, hb, hw⟩
    · exact (h.chain.apart.unique ha hb hv hw).2
    · exact absurd hw (hdisjoint a ha b hb v w hv)
  · rcases hw with ⟨b, hb, hw⟩ | ⟨b, hb, hw⟩
    · exact absurd hv (hdisjoint b hb a ha w v hw)
    · obtain ⟨hvalue, heq, harity⟩ := RecordedAction.of_mem_bound hv
      obtain ⟨hvalue', heq', harity'⟩ := RecordedAction.of_mem_bound hw
      have hnumber : a.number = b.number := valuePlaceholder_number (heq.symm.trans heq')
      -- Actions with values that took the same number are the same.
      have hsame : a = b := by
        by_contra hne
        have hsymm : Std.Symm fun a b : RecordedAction =>
            a.number + a.action.arity ≤ b.number ∨ b.number + b.action.arity ≤ a.number :=
          ⟨fun _ _ => Or.symm⟩
        have hapart : recorded.Pairwise fun a b =>
            a.number + a.action.arity ≤ b.number ∨ b.number + b.action.arity ≤ a.number :=
          h.ordered.imp Or.inl
        rcases hapart.forall ha hb hne with hle | hle <;> omega
      rw [hsame, hvalue'] at hvalue
      exact (Option.some.inj hvalue).symm

end Update

end SingleTable
