import SingleTable.Proofs.Plan.Shadowing
import SingleTable.Proofs.Request.Drafts

/-!
# Settings among other calls

Settings turn on strong consistency where it was left open, so they can be exchanged with a call that sets it:
the value that the call gives wins on either side. The policy of a query is another matter. Settings write it
unconditionally, so the later of two calls wins, and exchanging them changes what is built exactly if the
policies differ, no later call writes the policy again, and the query has a shadowed key
(`settings_exchange`).
-/

set_option autoImplicit false

namespace SingleTable

/-! ## Chains of calls -/

/-- A call on a get. -/
inductive Get.Call where
  | settings (settings : Settings)
  | project (handles : List Handle)
  | consistency (consistent : Bool)

/-- The get after a call. -/
def Get.Call.apply (get : Get) : Get.Call → Get
  | .settings defaults => get.withSettings defaults
  | .project handles => get.project handles
  | .consistency consistent => get.withConsistency consistent

/-- The get after a chain of calls. -/
def Get.after (get : Get) (calls : List Get.Call) : Get := calls.foldl Get.Call.apply get

/-- A call on a scan. -/
inductive Scan.Call where
  | setting (setting : Scan.Setting)
  | condition (build : Minting Condition)

/-- The scan after a call. -/
def Scan.Call.apply (scan : Scan) : Scan.Call → Scan
  | .setting choice => choice.apply scan
  | .condition build => scan.condition build

/-- The scan after a chain of calls. -/
def Scan.after (scan : Scan) (calls : List Scan.Call) : Scan := calls.foldl Scan.Call.apply scan

/-- A call on a query. Its operator builder can also be used without adding a condition. -/
inductive Query.Call where
  | setting (setting : Query.Setting)
  | operators (use : Minting Unit)
  | condition (build : Minting Condition)
  | withCondition (condition : Condition)

/-- The query after a call. -/
def Query.Call.apply (query : Query) : Query.Call → Query
  | .setting choice => choice.apply query
  | .operators use => { query with chain := { query.chain with next := (use.run query.chain.next).2 } }
  | .condition build => query.condition build
  | .withCondition made => query.withCondition made

/-- The query after a chain of calls. -/
def Query.after (query : Query) (calls : List Query.Call) : Query := calls.foldl Query.Call.apply query

/-! ## Consistency -/

/-- Settings leave a consistency alone that was set. -/
theorem Settings.consistency_some (settings : Settings) (consistent : Bool) :
    settings.consistency (some consistent) = some consistent := by
  rw [consistency, Option.isNone_some, Bool.and_false, if_neg Bool.false_ne_true]

section Exchange

variable (settings : Settings) (consistent : Bool)

theorem Get.withSettings_withConsistency (get : Get) :
    (get.withConsistency consistent).withSettings settings =
      (get.withSettings settings).withConsistency consistent := by
  rw [withSettings, withConsistency, Settings.consistency_some]
  rfl

theorem Scan.withSettings_withConsistency (scan : Scan) :
    (scan.withConsistency consistent).withSettings settings =
      (scan.withSettings settings).withConsistency consistent := by
  rw [withSettings, withConsistency, Settings.consistency_some]
  rfl

theorem Query.withSettings_withConsistency (query : Query) :
    (query.withConsistency consistent).withSettings settings =
      (query.withSettings settings).withConsistency consistent := by
  rw [withSettings, withConsistency, Settings.consistency_some]
  rfl

end Exchange

/-! ## Policies -/

namespace Query

variable {query : Query} {policy : SharedKeyPolicy}

/-- The call writes the policy of a query. -/
def Call.SetsPolicy : Call → Prop
  | .setting (.settings _) => True
  | .setting (.policy _) => True
  | _ => False

/-- A call that writes the policy does not see the one before. -/
theorem Call.apply_withPolicy_of_sets {call : Call} (h : call.SetsPolicy) :
    call.apply (query.withPolicy policy) = call.apply query := by
  cases call with
  | setting choice =>
    cases choice with
    | settings | policy => rfl
    | _ => exact h.elim
  | _ => exact h.elim

/-- Every other call keeps the policy. -/
theorem Call.apply_withPolicy_of_keeps {call : Call} (h : ¬ call.SetsPolicy) :
    call.apply (query.withPolicy policy) = (call.apply query).withPolicy policy := by
  cases call with
  | setting choice =>
    cases choice with
    | settings | policy => exact absurd trivial h
    | _ => rfl
  | _ => rfl

/-- A policy is lost behind a chain of calls that writes it. -/
theorem after_withPolicy_of_sets {calls : List Call} (h : ∃ call ∈ calls, call.SetsPolicy) :
    (query.withPolicy policy).after calls = query.after calls := by
  induction calls generalizing query with
  | nil =>
    obtain ⟨call, hcall, -⟩ := h
    cases hcall
  | cons call rest ih =>
    rw [after, after, List.foldl_cons, List.foldl_cons]
    by_cases hsets : call.SetsPolicy
    · rw [Call.apply_withPolicy_of_sets hsets]
    · rw [Call.apply_withPolicy_of_keeps hsets]
      exact ih (((List.exists_mem_cons_iff ..).1 h).resolve_left hsets)

/-- A policy is seen behind a chain of calls that does not write it. -/
theorem after_withPolicy_of_keeps {calls : List Call} (h : ¬ ∃ call ∈ calls, call.SetsPolicy) :
    (query.withPolicy policy).after calls = (query.after calls).withPolicy policy := by
  induction calls generalizing query with
  | nil => rfl
  | cons call rest ih =>
    rw [List.exists_mem_cons_iff, not_or] at h
    rw [after, after, List.foldl_cons, List.foldl_cons, Call.apply_withPolicy_of_keeps h.1]
    exact ih h.2

/-- The policy decides on the planner only through its verdict. -/
theorem planner_withPolicy :
    (query.withPolicy policy).planner = query.planner.map fun planner => { planner with policy } := by
  rw [planner, planner, withPolicy]
  cases query.index with
  | none => rfl
  | some index =>
    dsimp only
    cases Planner.ofIndex query.model index <;> rfl

/-- A key of the query is shadowed, and its condition can be planned. -/
def HasShadowedKey (query : Query) : Prop :=
  ∃ planner, query.planner = .ok planner ∧
    (¬ ∃ conjunct ∈ query.chain.combined.planned,
      conjunct.Unresolvable planner.slots query.chain.combined.planned) ∧
    ∃ slot position, Shadowed planner.slots query.chain.combined.planned slot position

theorem hasShadowedKey_withPolicy : (query.withPolicy policy).HasShadowedKey ↔ query.HasShadowedKey := by
  rw [HasShadowedKey, HasShadowedKey, planner_withPolicy]
  cases query.planner with
  | error failure => simp [Except.map]
  | ok planner =>
    simp only [Except.map, Except.ok.injEq, exists_eq_left']
    exact Iff.rfl

/-- A query fails as its plan does. -/
theorem build_of_plan_error {planner : Planner} {failure : Failure} (hplanner : query.planner = .ok planner)
    (hplan : planner.plan query.chain.combined = .error failure) : query.build = .error failure := by
  rw [build, hplanner]
  dsimp only [bind, Except.bind]
  rw [hplan]

/-- A query with a plan fails for no other reason than that nothing selects keys. -/
theorem eq_missingKeyCondition_of_build {planner : Planner} {planned : Plan × List Warning} {failure : Failure}
    (hplanner : query.planner = .ok planner) (hplan : planner.plan query.chain.combined = .ok planned)
    (hbuild : query.build = .error failure) : failure = .missingKeyCondition query.model.name := by
  rw [build, hplanner] at hbuild
  dsimp only [bind, Except.bind] at hbuild
  rw [hplan] at hbuild
  dsimp only at hbuild
  split at hbuild
  · cases hbuild
    rfl
  · cases hbuild

/-- Policies with the same plan build the same query. -/
theorem build_withPolicy_congr {planner : Planner} (hplanner : query.planner = .ok planner)
    {other : SharedKeyPolicy}
    (hplan : Planner.plan { planner with policy } query.chain.combined =
      Planner.plan { planner with policy := other } query.chain.combined) :
    (query.withPolicy policy).build = (query.withPolicy other).build := by
  rw [build, build, planner_withPolicy, planner_withPolicy, hplanner]
  dsimp only [withPolicy, Except.map, bind, Except.bind]
  rw [hplan]

/-- The policies build the same query if no key is shadowed. -/
theorem build_warn_eq_reject (h : ¬ query.HasShadowedKey) :
    (query.withPolicy .warn).build = (query.withPolicy .reject).build := by
  cases hplanner : query.planner with
  | error failure =>
    rw [build, build, planner_withPolicy, planner_withPolicy, hplanner]
    rfl
  | ok planner =>
    obtain ⟨model, slots, given⟩ := planner
    refine build_withPolicy_congr hplanner ?_
    by_cases hresolvable : ∃ conjunct ∈ query.chain.combined.planned,
        conjunct.Unresolvable slots query.chain.combined.planned
    · obtain ⟨failure, hfailure⟩ : ∃ failure, ∀ choice,
          Planner.plan ⟨model, slots, choice⟩ query.chain.combined = .error failure :=
        Planner.plan_of_unresolvable hresolvable
      rw [hfailure, hfailure]
    · obtain ⟨split, reports, hexact, hplan⟩ := Planner.plan_of_resolvable model hresolvable
      have hnone : reports = [] := hexact.eq_nil_iff.2 fun slot position hdue =>
        h ⟨_, hplanner, hresolvable, slot, position, hdue⟩
      rw [hplan, hplan, hnone]
      rfl

/-- The policies build different queries if a key is shadowed: the strict one fails with the first report,
which the lenient one never does. -/
theorem build_warn_ne_reject (h : query.HasShadowedKey) :
    (query.withPolicy .warn).build ≠ (query.withPolicy .reject).build := by
  obtain ⟨⟨model, slots, given⟩, hplanner, hresolvable, slot, position, hshadowed⟩ := h
  obtain ⟨split, reports, hexact, hplan⟩ := Planner.plan_of_resolvable model hresolvable
  have hchoice : ∀ choice, (query.withPolicy choice).planner = .ok ⟨model, slots, choice⟩ := by
    intro choice
    rw [planner_withPolicy, hplanner]
    rfl
  cases reports with
  | nil => exact absurd hshadowed (hexact.eq_nil_iff.1 rfl slot position)
  | cons first rest =>
    have hreject := build_of_plan_error (hchoice .reject) (hplan .reject)
    intro hsame
    rw [hreject] at hsame
    have hmissing := eq_missingKeyCondition_of_build (hchoice .warn) (hplan .warn) hsame
    cases hmissing

/-- Two policies build the same query exactly if they are the same or no key is shadowed. -/
theorem build_withPolicy_eq_iff {other : SharedKeyPolicy} :
    (query.withPolicy policy).build = (query.withPolicy other).build ↔
      policy = other ∨ ¬ query.HasShadowedKey := by
  by_cases hshadowed : query.HasShadowedKey
  · rw [or_iff_left (not_not.2 hshadowed)]
    refine ⟨fun hsame => ?_, fun heq => by rw [heq]⟩
    cases policy <;> cases other
    · rfl
    · exact absurd hsame (build_warn_ne_reject hshadowed)
    · exact absurd hsame.symm (build_warn_ne_reject hshadowed)
    · rfl
  · refine iff_of_true ?_ (Or.inr hshadowed)
    cases policy <;> cases other
    · rfl
    · exact build_warn_eq_reject hshadowed
    · exact (build_warn_eq_reject hshadowed).symm
    · rfl

end Query

/-! ## Exchanging settings -/

/-- Neighbours in a chain of calls can be exchanged if they can be on every draft. -/
theorem foldl_exchange {Draft Call : Type} {apply : Draft → Call → Draft} {first second : Call}
    (h : ∀ draft, apply (apply draft first) second = apply (apply draft second) first) (draft : Draft)
    (before after : List Call) :
    (before ++ first :: second :: after).foldl apply draft =
      (before ++ second :: first :: after).foldl apply draft := by
  rw [List.foldl_append, List.foldl_append, List.foldl_cons, List.foldl_cons, List.foldl_cons,
    List.foldl_cons, h]

/-- Settings and a policy beside them give two queries that differ in their policies only. -/
theorem Query.build_exchange_iff {query : Query} {before after : List Query.Call} {settings : Settings}
    {policy : SharedKeyPolicy} :
    (query.after (before ++ .setting (.settings settings) :: .setting (.policy policy) :: after)).build =
        (query.after (before ++ .setting (.policy policy) :: .setting (.settings settings) :: after)).build ↔
      settings.policy = policy ∨ (∃ call ∈ after, call.SetsPolicy) ∨
        ¬ (query.after
          (before ++ .setting (.settings settings) :: .setting (.policy policy) :: after)).HasShadowedKey := by
  obtain ⟨draft, hfirst, hsecond⟩ : ∃ draft : Query,
      query.after (before ++ .setting (.settings settings) :: .setting (.policy policy) :: after) =
        (draft.withPolicy policy).after after ∧
      query.after (before ++ .setting (.policy policy) :: .setting (.settings settings) :: after) =
        (draft.withPolicy settings.policy).after after := by
    refine ⟨(query.after before).withSettings settings, ?_, ?_⟩
    · exact List.foldl_append
    · exact List.foldl_append
  rw [hfirst, hsecond]
  by_cases hsets : ∃ call ∈ after, call.SetsPolicy
  · rw [after_withPolicy_of_sets hsets, after_withPolicy_of_sets hsets]
    exact iff_of_true rfl (Or.inr (Or.inl hsets))
  · rw [after_withPolicy_of_keeps hsets, after_withPolicy_of_keeps hsets, build_withPolicy_eq_iff,
      hasShadowedKey_withPolicy, or_iff_right hsets, eq_comm]

/-- **Settings and other calls.** In a chain of calls on a get, a scan or a query, settings can be exchanged
with a call beside them that sets the consistency: what is built stays the same. Exchanged with a call that sets
the policy of a query, they leave what is built the same exactly if they give the same policy, a later call
writes the policy again, or no key of the query is shadowed. -/
theorem settings_exchange (get : Get) (scan : Scan) (query : Query) (settings : Settings) (consistent : Bool)
    (policy : SharedKeyPolicy) :
    (∀ before after : List Get.Call,
      (get.after (before ++ .settings settings :: .consistency consistent :: after)).build =
        (get.after (before ++ .consistency consistent :: .settings settings :: after)).build) ∧
    (∀ before after : List Scan.Call,
      (scan.after (before ++ .setting (.settings settings) :: .setting (.consistency consistent) :: after)).build =
        (scan.after
          (before ++ .setting (.consistency consistent) :: .setting (.settings settings) :: after)).build) ∧
    (∀ before after : List Query.Call,
      (query.after (before ++ .setting (.settings settings) :: .setting (.consistency consistent) :: after)).build =
        (query.after
          (before ++ .setting (.consistency consistent) :: .setting (.settings settings) :: after)).build) ∧
    ∀ before after : List Query.Call,
      (query.after (before ++ .setting (.settings settings) :: .setting (.policy policy) :: after)).build =
        (query.after (before ++ .setting (.policy policy) :: .setting (.settings settings) :: after)).build ↔
      settings.policy = policy ∨ (∃ call ∈ after, call.SetsPolicy) ∨
        ¬ (query.after
          (before ++ .setting (.settings settings) :: .setting (.policy policy) :: after)).HasShadowedKey := by
  refine ⟨?_, ?_, ?_, ?_⟩
  · intro before after
    exact congrArg Get.build (foldl_exchange (fun draft =>
      (draft.withSettings_withConsistency settings consistent).symm) get before after)
  · intro before after
    exact congrArg Scan.build (foldl_exchange (fun draft =>
      (draft.withSettings_withConsistency settings consistent).symm) scan before after)
  · intro before after
    exact congrArg Query.build (foldl_exchange (fun draft =>
      (draft.withSettings_withConsistency settings consistent).symm) query before after)
  · intro before after
    exact Query.build_exchange_iff

/-! ### Accounts with two keys of one name -/

/-- A query for an account by its name, which determines both keys. -/
def accountQuery : Query where
  model := { name := "User", table := "app", key := [⟨"PK", "USER#${username}"⟩, ⟨"SK", "USER#${username}"⟩] }
  chain := { next := 1, conditions := [.leaf ((Test.compare .eq ⟨"username", none⟩ (.string "alice")).leaf 0)] }

/-- A strict policy in front of settings with the lenient one is lost. -/
theorem policy_before_settings_is_lost :
    (accountQuery.after [.setting (.settings {}), .setting (.policy .reject)]).build =
        .error (.ambiguousKey "username" "PK" ["SK"]) ∧
      (accountQuery.after [.setting (.policy .reject), .setting (.settings {})]).build.toOption.map Prod.snd =
        some [.shadowedKeys "User" "username" "PK" ["SK"]] :=
  ⟨by decide +kernel, by decide +kernel⟩

end SingleTable
