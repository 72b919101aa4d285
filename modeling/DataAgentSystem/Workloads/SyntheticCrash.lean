import DataAgentSystem.Runtime.CrashPoints
import DataAgentSystem.Workloads.RecoveryHandlers
import DataAgentSystem.Workloads.SyntheticDriver

/-! A crash of a synthetic task among its work. The built-in handler stages a recovered
result on the branch that was last at work. The branches before it have been staged too,
with scores that grow with their number; so the recovered result is committed, unless
there are so many that the last of them leads. -/

namespace DataAgentSystem.Workloads

open Text Intent Cache Branch Storage Interaction Containers AgentTxn DataAgentSystem.Runtime

variable {runtime : FallbackCommitRuntimeConfig} {config : SyntheticRunConfig} {taskIndex i j n : ℕ}
  {v w : World} {path : Bytes} {submitted session : TaskSession} {ops : List (SessionOp × World)}

/-- Small sizes survive the log. -/
theorem kept_ofSize {m : ℕ} (hm : m < 2 ^ 53) : ofSize m = .ofInt64 (ofSize m).toInt64 := by
  have hint : (ofSize m).toInt64 = Int64.ofInt m := by
    simp only [ofSize, Double.roundMantissa_of_lt hm, Double.toInt64, Rat.num_natCast,
      Rat.den_natCast, Nat.cast_one, Int.tdiv_one]
    rw [if_pos ⟨by omega, by omega⟩]
  have htoInt : (Int64.ofInt m).toInt = m := Int64.toInt_ofInt_of_le (by omega) (by omega)
  rw [hint, Double.ofInt64_of_natAbs_lt (by rw [htoInt]; exact hm), htoInt, ofSize,
    Double.roundMantissa_of_lt hm]
  rfl

theorem ofSize_of_lt {m : ℕ} (hm : m < 2 ^ 53) : ofSize m = .finite m := by
  rw [ofSize, Double.roundMantissa_of_lt hm]

theorem score_syntheticWork (hexact : (n + 1) * 10 + taskIndex < 2 ^ 53) (hi : i ≤ n) :
    (syntheticWork taskIndex i).score = ofSize ((i + 1) * 10 + taskIndex) := by
  rw [syntheticWork, Nat.mod_eq_of_lt (by omega)]

theorem begins_syntheticWorks {s : MemoryKVStore} (hn : config.branchCount = n + 1)
    (hexact : (n + 1) * 10 + taskIndex < 2 ^ 53)
    (hlead : ops.map Prod.fst <+: sessionOps ((List.range (n + 1)).map (syntheticWork taskIndex)))
    (hstores : ∀ op ∈ ops, op.2.store = s) :
    BeginsWork s (syntheticPlan config)
      ((List.range (n + 1)).map (syntheticWork taskIndex)) ops := by
  refine ⟨?_, ?_, hlead, hstores⟩
  · rw [branchPlans_syntheticPlan, List.map_map, List.map_map, hn]
    rfl
  · rw [List.forall_mem_map]
    intro i hi op hop
    rcases List.mem_append.1 hop with hop | hop
    · by_cases hfirst : i = 0
      · simp only [syntheticWork, tentativeOps, hfirst, if_true, List.mem_cons, List.mem_append,
          List.not_mem_nil, or_false] at hop
        rcases hop with rfl | (rfl | rfl | rfl) | rfl <;> trivial
      · simp only [syntheticWork, tentativeOps, hfirst, if_false, List.mem_cons, List.mem_append,
          List.not_mem_nil, or_false, false_or] at hop
        rcases hop with rfl | rfl <;> trivial
    · rw [List.mem_singleton.1 hop]
      have hle : i ≤ n := Nat.lt_succ_iff.1 (List.mem_range.1 hi)
      show (syntheticWork taskIndex i).score = _
      rw [score_syntheticWork hexact hle]
      exact kept_ofSize (by omega)

theorem writes_syntheticWork (taskIndex i : ℕ) : ∀ op ∈ (syntheticWork taskIndex i).allOps,
    ∀ intent, op.edit = .append intent →
    intent.objectId = syntheticOutputKey taskIndex := by
  by_cases hi : i = 0
  · simp [syntheticWork, tentativeOps, hi, BranchWork.allOps, BranchOp.edit, resultIntent]
  · simp [syntheticWork, tentativeOps, hi, BranchWork.allOps, BranchOp.edit, resultIntent]

/-- The savepoint of the first branch is never lost, and the others have none. -/
theorem lastSaved_syntheticWork {history : List BranchOp}
    (h : history <+: (syntheticWork taskIndex i).allOps) :
    (lastSaved history = [] ∨ lastSaved history ∈ savedNames history) ∧
      (i ≠ 0 → lastSaved history = []) := by
  by_cases hi : i = 0
  · simp only [syntheticWork, tentativeOps, hi, if_true, BranchWork.allOps, List.cons_append,
      List.nil_append, List.prefix_cons_iff, List.prefix_nil] at h
    refine ⟨?_, fun hne => absurd hi hne⟩
    rcases h with rfl | ⟨_, rfl,
      rfl | ⟨_, rfl, rfl | ⟨_, rfl, rfl | ⟨_, rfl, rfl | ⟨_, rfl, rfl | ⟨_, rfl, rfl⟩⟩⟩⟩⟩⟩
    · exact .inl rfl
    · exact .inl rfl
    all_goals exact .inr (List.mem_singleton_self _)
  · simp only [syntheticWork, tentativeOps, hi, if_false, BranchWork.allOps, List.cons_append,
      List.nil_append, List.prefix_cons_iff, List.prefix_nil] at h
    rcases h with rfl | ⟨_, rfl, rfl | ⟨_, rfl, rfl | ⟨_, rfl, rfl⟩⟩⟩ <;>
      exact ⟨.inl rfl, fun _ => rfl⟩

/-- What has been done, if the `j`-th branch was last at work. -/
structure LostAt (taskIndex n j : ℕ) (ops : List SessionOp) : Prop where
  le : j ≤ n
  current : historyOn (syntheticBranchId j) ops <+: (syntheticWork taskIndex j).allOps
  before : ∀ i < j, historyOn (syntheticBranchId i) ops = if ops = [] then []
    else (syntheticWork taskIndex i).allOps
  after : ∀ i ≤ n, j < i → historyOn (syntheticBranchId i) ops = []

theorem lostAt_of_begins {s : MemoryKVStore}
    (hsubmit : ((submitTask runtime (syntheticTask config taskIndex) (syntheticPlan config)).run
      (handle .memory) v).1 = .ok submitted)
    (hbegins : BeginsWork s (syntheticPlan config)
      ((List.range (n + 1)).map (syntheticWork taskIndex)) ops)
    (hlast : lastBranchId (performedOn .memory runtime submitted ops).events =
      syntheticBranchId j) :
    LostAt taskIndex n j (ops.map Prod.fst) := by
  obtain ⟨-, hvalid, -⟩ := isSubmitted_of_submitTask hsubmit
  have hle : j ≤ n := by
    have hmem := @BeginsWork.lastBranchId_mem .memory runtime _ _ _ _ _ _ _ hbegins hsubmit
    rw [hlast, List.map_map] at hmem
    obtain ⟨i, hi, hid⟩ := List.mem_map.1 hmem
    rw [← syntheticBranchId_injective hid]
    exact Nat.lt_succ_iff.1 (List.mem_range.1 hi)
  have hcurrent := hbegins.history hvalid (List.mem_map_of_mem (f := syntheticWork taskIndex)
    (List.mem_range.2 (Nat.lt_succ_iff.2 hle)))
  by_cases hnone : ops.map Prod.fst = []
  · have hnil : ∀ id, historyOn id (ops.map Prod.fst) = [] := fun id => by rw [hnone]; rfl
    exact ⟨hle, hcurrent, fun i _ => by rw [hnil, if_pos hnone], fun i _ _ => hnil _⟩
  · obtain ⟨front, work, rest, begun, hsplit, hbegun, hlead, hops⟩ :=
      exists_begun hbegins.begins hnone
    have hnodup := nodup_syntheticWorks taskIndex (n + 1)
    rw [hsplit] at hnodup
    rw [List.range_eq_range'] at hsplit
    obtain ⟨is, js, hrange, rfl, hrest⟩ := List.map_eq_append_iff.1 hsplit
    obtain ⟨m, hm, rfl, rfl⟩ := List.range'_eq_append_iff.1 hrange
    obtain ⟨m', js, hjs, rfl, rfl⟩ := List.map_eq_cons_iff.1 hrest
    obtain ⟨hm', -, rfl⟩ := List.range'_eq_cons_iff.1 hjs
    obtain rfl : m' = m := by omega
    -- every branch begins with a read
    obtain ⟨op, later, rfl⟩ := List.exists_cons_of_ne_nil hbegun
    have hread : op = .read (syntheticInputKey taskIndex) := (List.cons_prefix_cons.1 hlead).1
    have hnamed : (syntheticWork taskIndex m').branchId ≠ [] := by
      simp [syntheticWork, syntheticBranchId, decimal_ne_nil]
    have hcurrentId := @lastBranchId_begun .memory runtime submitted ops _ _ _ hnamed hops op
      later rfl (by simp [hread])
    obtain rfl : m' = j := syntheticBranchId_injective (hcurrentId.symm.trans hlast)
    refine ⟨hle, hcurrent, fun i hi => ?_, fun i hi hlt => ?_⟩
    · have hmem : syntheticWork taskIndex i ∈ (List.range' 0 m').map (syntheticWork taskIndex) :=
        List.mem_map_of_mem (List.mem_range'_1.2 ⟨Nat.zero_le i, by omega⟩)
      rw [if_neg hnone, hops]
      exact (@historyOn_begun _ _ _ (syntheticWork taskIndex i) _ hnodup).2.1 hmem
    · have hmem : syntheticWork taskIndex i ∈ (List.range' (m' + 1) (n + 1 - m' - 1)).map
          (syntheticWork taskIndex) :=
        List.mem_map_of_mem (List.mem_range'_1.2 ⟨hlt, by omega⟩)
      rw [hops]
      exact (@historyOn_begun _ _ _ (syntheticWork taskIndex i) _ hnodup).2.2 hmem

/-! ### What recovery does -/

theorem syntheticRecoveryResultValue_syntheticTaskId (taskIndex : ℕ) :
    syntheticRecoveryResultValue (syntheticTaskId taskIndex) = ascii "recovered_result_" ++
      decimal taskIndex := by
  have hnumber : (syntheticTaskId taskIndex).drop (ascii "task_").length = decimal taskIndex :=
    List.drop_left
  have hresume : syntheticTaskId taskIndex ≠ ascii "task_resume" := by
    intro h
    have hdigits : decimal taskIndex = ascii "resume" :=
      @List.append_cancel_left _ (ascii "task_") _ _ h
    have hmem : (114 : Byte) ∈ decimal taskIndex := by rw [hdigits]; decide
    exact notMem_decimal (by decide) taskIndex hmem
  have hlead : (ascii "task_").isPrefixOf (syntheticTaskId taskIndex) = true :=
    List.isPrefixOf_iff_prefix.2 (List.prefix_append _ _)
  simp only [syntheticRecoveryResultValue, hnumber]
  rw [if_neg hresume, if_pos ⟨hlead, decimal_ne_nil taskIndex, all_isDigit_decimal taskIndex⟩]

/-- The write of the recovery. -/
def recoveredIntent (taskIndex : ℕ) : WriteIntent where
  objectId := syntheticOutputKey taskIndex
  intentType := .overwrite
  payload := ascii "recovered_result_" ++ decimal taskIndex

/-- How the handler goes on after a way back, or without one. -/
def syntheticRecoverySpec (back : Bool) : TaskContinuationSpec where
  score := if back then .finite 130 else .finite 120
  summary := if back then ascii "recovered resume task" else ascii "recovered synthetic task"

/-- The calls of the handler. -/
def syntheticRecoveryCalls (taskIndex : ℕ) : Bytes → List SessionCall :=
  overwriteCalls (syntheticInputKey taskIndex) (syntheticOutputKey taskIndex)
    (ascii "recovered_result_" ++ decimal taskIndex)

theorem syntheticRecoveryCalls_eq (taskIndex : ℕ) (branchId : Bytes) :
    syntheticRecoveryCalls taskIndex branchId =
    [.read branchId (syntheticInputKey taskIndex),
      .write branchId (syntheticOutputKey taskIndex) .text (recoveredIntent taskIndex)] := by
  have hinput : syntheticInputKey taskIndex ≠ [] := by
    simp [syntheticInputKey, syntheticTaskId, decimal_ne_nil]
  rw [syntheticRecoveryCalls, overwriteCalls, if_neg hinput]
  rfl

/-- The handler finds the keys and the number of the task. -/
theorem dispatch_syntheticTask (registry : TaskContinuationRegistry)
    (hsubmit : ((submitTask runtime (syntheticTask config taskIndex) (syntheticPlan config)).run
      (handle .memory) v).1 = .ok submitted)
    (hcontinues : Continues submitted session) (hwork : InWork session)
    (hlog : HoldsLog w path session) (runtime' : FallbackCommitRuntimeConfig) :
    ∃ execution, (buildRecoveryExecutionFromLog runtime' path).run (handle .memory) w =
      (.ok execution, w) ∧
      (registerBuiltinRecoveryHandlers registry).2.continue_ runtime' execution =
        continueRecoveredTask runtime' execution
          (syntheticRecoverySpec
            (lastSavepointId session.events (lastBranchId session.events) ≠ []))
          fun _ branchId => callsWork (syntheticRecoveryCalls taskIndex branchId) := by
  obtain ⟨-, -, hsubmitted⟩ := isSubmitted_of_submitTask hsubmit
  have htask : session.task = { syntheticTask config taskIndex with phase := .running } :=
    hcontinues.task.trans hsubmitted.task
  have hinputs : session.task.inputObjects =
      [{ objectId := syntheticInputKey taskIndex, objectRole := ascii "synthetic_input" }] := by
    rw [htask]
    rfl
  have houtputs : session.task.outputObjects =
      [{ objectId := syntheticOutputKey taskIndex, objectRole := ascii "synthetic_output" }] := by
    rw [htask]
    rfl
  have hkeys : session.task.metadata.keys = [ascii "branch_count", ascii "task_index"] := by
    rw [htask]; rfl
  have hnamed : session.task.Named := by
    refine ⟨?_, ?_, ?_, ?_, ?_, ?_⟩
    · simp [hinputs, syntheticInputKey, syntheticTaskId, decimal_ne_nil]
    · simp [houtputs, syntheticOutputKey, syntheticTaskId, decimal_ne_nil]
    · rw [hkeys]
      decide
    · simp [hinputs]
    · simp [houtputs]
    · rw [hkeys]
      decide
  have hworkload : session.task.workloadName = ascii "synthetic.candidate_selection" := by
    rw [htask]; rfl
  obtain ⟨execution, hbuilt, hname, hinputs', houtputs', htaskId⟩ :=
    @buildRecoveryExecutionFromLog_objects .memory session w path
    runtime' hwork.recoverable hlog (by rw [hworkload]; decide) hnamed
      (by simp [hinputs]) (by simp [houtputs])
  have hid : execution.recoveryPlan.decision.taskId = syntheticTaskId taskIndex := by
    rw [htaskId, htask]; rfl
  have hcommand := commandType_of_inWork hwork hlog hbuilt
  refine ⟨execution, hbuilt, ?_⟩
  rw [TaskContinuationRegistry.continue_of_findHandler (by decide) (hname.trans hworkload)
    (findHandler_builtin registry).1, continueRecoveredSyntheticTask, syntheticRecoveryInputKey,
      syntheticRecoveryOutputKey,
    hinputs', houtputs', hinputs, houtputs, hid, syntheticRecoveryResultValue_syntheticTaskId,
    syntheticRecoveryScore,
    syntheticRecoverySummary, hcommand]
  by_cases hnone : lastSavepointId session.events (lastBranchId session.events) = []
  · simp only [hnone, if_true, ne_eq, not_true_eq_false, decide_false]
    rfl
  · simp only [hnone, if_false, ne_eq, not_false_eq_true, decide_true, if_true]
    rfl

/-! ### Who wins -/

/-- The recovered result leads, if the branches before it have been staged low enough. -/
def RecoveredLeads (taskIndex j : ℕ) (ops : List SessionOp) : Prop :=
  ops = [] ∨ j = 0 ∨ j * 10 + taskIndex < 120

instance {ops : List SessionOp} : Decidable (RecoveredLeads taskIndex j ops) :=
  inferInstanceAs (Decidable (_ ∨ _))

/-- The history of a branch once the recovery has been staged on the `j`-th. -/
def carriedOnHistory (taskIndex j : ℕ) (ops : List SessionOp) (savepointId : Bytes) (i : ℕ) :
    List BranchOp :=
  historyOn (syntheticBranchId i) ops ++
    (if savepointId ≠ [] ∧ j = i then [.rollbackToSavepoint savepointId] else []) ++
      if j = i then [.read (syntheticInputKey taskIndex),
        .write (syntheticOutputKey taskIndex) .text (recoveredIntent taskIndex)] ++
        [.stage (syntheticRecoverySpec (savepointId ≠ [])).score
          (syntheticRecoverySpec (savepointId ≠ [])).summary] else []

theorem historyOn_syntheticRecovery (hlast : lastBranchId session.events = syntheticBranchId j)
    (ops : List SessionOp) (i : ℕ) :
    let savepointId := lastSavepointId session.events (lastBranchId session.events)
    historyOn (syntheticBranchId i)
      (opsCarriedOn ops session (syntheticRecoverySpec (savepointId ≠ []))
        (syntheticRecoveryCalls taskIndex)) = carriedOnHistory taskIndex j ops savepointId i := by
  intro savepointId
  rw [historyOn_opsCarriedOn _ ops session _ fun branchId => by
    rw [syntheticRecoveryCalls_eq]
    exact List.forall_mem_cons.2 ⟨rfl, List.forall_mem_singleton.2 rfl⟩]
  have hpreferred : ¬(syntheticRecoverySpec (decide (savepointId ≠ []))).preferredBranchId ≠ [] :=
    fun h => h rfl
  simp only [if_neg hpreferred, hlast, syntheticRecoveryCalls_eq,
    syntheticBranchId_injective.eq_iff, carriedOnHistory]
  simp only [savepointId, hlast]
  rfl

/-- The number that a branch is staged with in the end. -/
def stagedNumber (taskIndex j : ℕ) (ops : List SessionOp) (savepointId : Bytes) (i : ℕ) : ℕ :=
  if j = i then (if savepointId ≠ [] then 130 else 120)
    else if ops ≠ [] ∧ i < j then (i + 1) * 10 + taskIndex else 0

theorem stagedScore_carriedOnHistory {ops : List SessionOp} (hlost : LostAt taskIndex n j ops)
    (hexact : (n + 1) * 10 + taskIndex < 2 ^ 53) (savepointId : Bytes) {i : ℕ} (hi : i ≤ n) :
    stagedScore (carriedOnHistory taskIndex j ops savepointId i) =
      ofSize (stagedNumber taskIndex j ops savepointId i) := by
  rw [carriedOnHistory, stagedNumber]
  by_cases heq : j = i
  · rw [if_pos heq, if_pos heq, ← List.append_assoc, stagedScore, List.foldl_concat]
    by_cases hnone : savepointId = []
    · simp [hnone, syntheticRecoverySpec, ofSize_of_lt]
    · simp [hnone, syntheticRecoverySpec, ofSize_of_lt]
  · have hzero : stagedScore [] = ofSize 0 := by rw [ofSize_of_lt (by decide)]; rfl
    rw [if_neg heq, if_neg heq, if_neg fun h => heq h.2, List.append_nil, List.append_nil]
    rcases Nat.lt_or_gt_of_ne heq with hlt | hlt
    · rw [hlost.after i hi hlt, if_neg fun h => Nat.lt_asymm h.2 hlt, hzero]
    · rw [hlost.before i hlt]
      by_cases hnone : ops = []
      · rw [if_pos hnone, if_neg fun h => h.1 hnone, hzero]
      · rw [if_neg hnone, if_pos ⟨hnone, hlt⟩, stagedScore_allOps, score_syntheticWork hexact hi]

/-- The recovered result leads, or the last branch that was staged before it. -/
theorem leading_carriedOnHistory {ops : List SessionOp} {savepointId : Bytes}
    (hlost : LostAt taskIndex n j ops) (hexact : (n + 1) * 10 + taskIndex < 2 ^ 53)
    (hback : j ≠ 0 → savepointId = []) :
    leading (fun i => stagedScore (carriedOnHistory taskIndex j ops savepointId i)) 0
      (List.range' 1 n) =
      if RecoveredLeads taskIndex j ops then j else j - 1 := by
  have hle := hlost.le
  have hlt : ∀ i ≤ n, ∀ i' ≤ n, (stagedScore (carriedOnHistory taskIndex j ops savepointId i)).lt
      (stagedScore (carriedOnHistory taskIndex j ops savepointId i')) =
        decide (stagedNumber taskIndex j ops savepointId i <
            stagedNumber taskIndex j ops savepointId i') := by
    have hsmall : ∀ i ≤ n, stagedNumber taskIndex j ops savepointId i < 2 ^ 53 := by
      intro i hi
      unfold stagedNumber
      split_ifs <;> omega
    intro i hi i' hi'
    rw [stagedScore_carriedOnHistory hlost hexact savepointId hi,
      stagedScore_carriedOnHistory hlost hexact savepointId hi',
      lt_ofSize (hsmall i hi) (hsmall i' hi')]
  have hown : stagedNumber taskIndex j ops savepointId j =
      if savepointId ≠ [] then 130 else 120 := if_pos rfl
  have hbefore : ∀ i < j, stagedNumber taskIndex j ops savepointId i =
      if ops ≠ [] then (i + 1) * 10 + taskIndex else 0 := by
    intro i hi
    simp [stagedNumber, hi, Nat.ne_of_gt hi]
  have hafter : ∀ i, j < i → stagedNumber taskIndex j ops savepointId i = 0 := by
    intro i hi
    simp [stagedNumber, Nat.ne_of_lt hi, Nat.lt_asymm hi]
  split
  next hleads =>
    refine leading_range' hle (fun i hi => ?_) fun i hi hlater => ?_
    · rw [hlt i (by omega) j hle, decide_eq_true_eq, hbefore i hi, hown]
      rcases hleads with hnone | hfirst | hlow
      · rw [if_neg fun hne => hne hnone]
        split <;> omega
      · omega
      · split <;> split <;> omega
    · rw [hlt j hle i hi, decide_eq_false_iff_not, hafter i hlater]
      omega
  next hloses =>
    simp only [RecoveredLeads, not_or] at hloses
    obtain ⟨hsome, hpos, hhigh⟩ := hloses
    have hlast := hbefore (j - 1) (by omega)
    rw [if_pos hsome] at hlast
    refine leading_range' (by omega) (fun i hi => ?_) fun i hi hlater => ?_
    · rw [hlt i (by omega) (j - 1) (by omega), decide_eq_true_eq,
        hbefore i (by omega), if_pos hsome, hlast]
      omega
    · rw [hlt (j - 1) (by omega) i hi, decide_eq_false_iff_not, hlast]
      rcases Nat.lt_or_ge j i with hlt' | hge
      · rw [hafter i hlt']
        omega
      · obtain rfl : i = j := by omega
        rw [hown, if_neg fun hne => hne (hback hpos)]
        omega

/-- The intents of the branch that leads end with its own result. -/
theorem exists_writtenIntents_carriedOnHistory {ops : List SessionOp}
    (hlost : LostAt taskIndex n j ops) (savepointId : Bytes) :
    let leads := RecoveredLeads taskIndex j ops
    let last := if leads then recoveredIntent taskIndex else resultIntent taskIndex (j - 1)
    ∃ front, (∀ intent ∈ front, intent.objectId = syntheticOutputKey taskIndex) ∧
      writtenIntents (carriedOnHistory taskIndex j ops savepointId (if leads then j else j - 1)) =
          front ++ [last] := by
  intro leads last
  by_cases hleads : leads
  · simp only [last, if_pos hleads]
    let front := historyOn (syntheticBranchId j) ops ++
      if savepointId ≠ [] ∧ j = j then [.rollbackToSavepoint savepointId] else []
    refine ⟨writtenIntents front, ?_, ?_⟩
    · refine objectId_of_mem_writtenIntents fun op hop intent hedit => ?_
      rcases List.mem_append.1 hop with hop | hop
      · exact writes_syntheticWork taskIndex j op (hlost.current.subset hop) intent hedit
      · split at hop
        · rw [List.mem_singleton.1 hop] at hedit
          cases hedit
        · exact absurd hop List.not_mem_nil
    · rw [carriedOnHistory, if_pos rfl]
      exact writtenIntents_written front _ _ _ _ _ _
  · simp only [last, if_neg hleads]
    simp only [leads, RecoveredLeads, not_or] at hleads
    obtain ⟨hsome, hpos, -⟩ := hleads
    have hne : j ≠ j - 1 := by omega
    refine ⟨[], fun _ h => absurd h List.not_mem_nil, ?_⟩
    rw [carriedOnHistory, if_neg hne, if_neg fun h => hne h.2, List.append_nil, List.append_nil,
      hlost.before (j - 1) (by omega), if_neg hsome, writtenIntents_allOps,
      writtenIntents_syntheticWork]
    rfl

/-- Wherever a synthetic task is lost, as long as the store is as it was, the built-in handler
commits the recovered result from its log, or else the result of the branch before the one
that was last at work, and nothing else. -/
theorem continue_syntheticTask (registry : TaskContinuationRegistry)
    (hbranches : 0 < config.branchCount) (hexact : config.branchCount * 10 + taskIndex < 2 ^ 53)
    (hsubmit : ((submitTask runtime (syntheticTask config taskIndex) (syntheticPlan config)).run
      (handle .memory) v).1 = .ok submitted)
    (hlead : ops.map Prod.fst <+:
      sessionOps ((List.range config.branchCount).map (syntheticWork taskIndex)))
    (hstores : ∀ op ∈ ops, op.2.store = w.store)
    (hlog : HoldsLog w path (performedOn .memory runtime submitted ops))
    (runtime' : FallbackCommitRuntimeConfig) :
    ∃ j < config.branchCount, lastBranchId (performedOn .memory runtime submitted ops).events =
      syntheticBranchId j ∧
      ∃ execution, (buildRecoveryExecutionFromLog runtime' path).run (handle .memory) w =
        (.ok execution, w) ∧
        let out := ((registerBuiltinRecoveryHandlers registry).2.continue_ runtime' execution).run
          (handle .memory) w
        out.1.1 = .ok true ∧ ∀ k, out.2.store.get k =
          if k = syntheticOutputKey taskIndex then
            { value :=
                if RecoveredLeads taskIndex j (ops.map Prod.fst) then
                  ascii "recovered_result_" ++ decimal taskIndex
                else ascii "result_" ++ decimal taskIndex ++ ascii "_" ++ decimal (j - 1)
              version := (w.store.get k).version + 1, exists_ := true }
          else w.store.get k := by
  obtain ⟨n, hn⟩ := Nat.exists_eq_succ_of_ne_zero (Nat.ne_of_gt hbranches)
  rw [hn] at hlead hexact
  have hbegins := begins_syntheticWorks hn hexact hlead hstores
  obtain ⟨-, hvalid, hsubmitted⟩ := isSubmitted_of_submitTask hsubmit
  have hmem := @BeginsWork.lastBranchId_mem .memory runtime _ _ _ _ _ _ _ hbegins hsubmit
  obtain ⟨j, hj, hlast⟩ : ∃ j ∈ List.range (n + 1), syntheticBranchId j =
      lastBranchId (performedOn .memory runtime submitted ops).events := by
    rw [List.map_map] at hmem
    exact List.mem_map.1 hmem
  have hlost := lostAt_of_begins hsubmit hbegins hlast.symm
  refine ⟨j, hn ▸ List.mem_range.1 hj, hlast.symm, ?_⟩
  have hworked := @workSteps_performedOn .memory runtime submitted _ _ hbegins.works hbegins.logsAll
  have hwork : WorkedOn .memory runtime (SessionOp.LogsAll w.store)
      (performedOn .memory runtime submitted ops) :=
    ⟨_, _, v, submitted, hsubmit, hworked⟩
  -- the savepoint it would go back to is left
  have hsaved := @lastSavepointId_performedOn .memory runtime _ _ _ _ _ hsubmit
    hbegins.works (syntheticBranchId j)
  have hleft := lastSaved_syntheticWork hlost.current
  have hresumable := @resumable_performedOn .memory runtime _ _ _ _ _ hsubmit
    hbegins.works (hbegins.ids ▸ hmem)
    (by rw [← hlast]; exact hleft.1)
  obtain ⟨execution, hbuilt, hcontinue⟩ :=
    dispatch_syntheticTask registry hsubmit (continues_of_work hworked) hwork.inWork hlog
    runtime'
  have hids : (syntheticPlan config).branchPlans.map (·.branchId) =
      syntheticBranchId 0 :: (List.range' 1 n).map syntheticBranchId := by
    rw [branchPlans_syntheticPlan, List.map_map, hn, List.range_eq_range',
      List.range'_succ, List.map_cons]
    rfl
  obtain ⟨execution', hbuilt', hresult, hstore⟩ :=
    @continueRecoveredTask_reports runtime _ _ submitted _ v w ops runtime' path _ _
    hsubmit hids hbegins.works hbegins.logsAll rfl hlog hresumable
      (syntheticRecoverySpec (lastSavepointId
        (performedOn .memory runtime submitted ops).events
          (lastBranchId (performedOn .memory runtime submitted ops).events) ≠ []))
    (syntheticRecoveryCalls taskIndex) (by
      intro branchId
      rw [syntheticRecoveryCalls_eq]
      exact List.forall_mem_cons.2 ⟨trivial, List.forall_mem_singleton.2 rfl⟩)
  rw [hbuilt, Prod.mk.injEq, Except.ok.injEq] at hbuilt'
  obtain ⟨rfl, -⟩ := hbuilt'
  refine ⟨execution, hbuilt, ?_⟩
  rw [leading_map (fun id => stagedScore (historyOn id (opsCarriedOn _ _ _ _)))
    syntheticBranchId] at hresult hstore
  simp only [historyOn_syntheticRecovery hlast.symm] at hresult hstore
  rw [leading_carriedOnHistory hlost hexact
    fun hne => by rw [← hlast, hsaved, hleft.2 hne]] at hresult hstore
  obtain ⟨front, hfront, hwritten⟩ := exists_writtenIntents_carriedOnHistory hlost
    (lastSavepointId (performedOn .memory runtime submitted ops).events
      (lastBranchId (performedOn .memory runtime submitted ops).events))
  rw [hwritten] at hresult hstore
  by_cases hleads : RecoveredLeads taskIndex j (ops.map Prod.fst)
  · simp only [if_pos hleads] at hfront hresult hstore ⊢
    obtain ⟨hresolves, hvalue⟩ :=
      @ends_overwritten front (recoveredIntent taskIndex) hfront rfl w.store
    simp only [hresolves, hvalue, if_true] at hresult hstore
    rw [hcontinue]
    exact ⟨hresult, hstore⟩
  · simp only [if_neg hleads] at hfront hresult hstore ⊢
    obtain ⟨hresolves, hvalue⟩ :=
      @ends_overwritten front (resultIntent taskIndex (j - 1)) hfront rfl w.store
    simp only [hresolves, hvalue, if_true] at hresult hstore
    rw [hcontinue]
    exact ⟨hresult, hstore⟩

/-- The third task of three branches, submitted. -/
def submittedSynthetic : TaskSession :=
  match ((submitTask {} (syntheticTask {} 2) (syntheticPlan {})).run (handle .memory) {}).1 with
  | .ok session => session
  | .error _ => {}

/-- The first branch has read, set its savepoint and written. -/
def syntheticSteps : List (SessionOp × World) :=
  ((sessionOps ((List.range 3).map (syntheticWork 2))).take 3).map (·, {})

theorem continue_syntheticTask_threeSteps :
    let session := performedOn .memory {} submittedSynthetic syntheticSteps
    let metadata := session.task.metadata.entries.map fun entry => (entry.1, entry.2)
    let w := ((writeTaskEventLogArtifact session metadata (ascii "log")).run (handle .memory) {}).2
    ∃ j < 3, lastBranchId session.events = syntheticBranchId j ∧
      ∃ execution, (buildRecoveryExecutionFromLog {} (ascii "log")).run (handle .memory) w =
        (.ok execution, w) ∧
        let out := ((registerBuiltinRecoveryHandlers {}).2.continue_ {} execution).run
          (handle .memory) w
        out.1.1 = .ok true ∧ ∀ k, out.2.store.get k =
          if k = syntheticOutputKey 2 then
            { value :=
                if RecoveredLeads 2 j (syntheticSteps.map Prod.fst) then
                  ascii "recovered_result_2"
                else ascii "result_2" ++ ascii "_" ++ decimal (j - 1)
              version := (w.store.get k).version + 1, exists_ := true }
          else w.store.get k := by
  intro session metadata w
  have hsubmit :
      ((submitTask {} (syntheticTask {} 2) (syntheticPlan {})).run (handle .memory) {}).1 =
      .ok submittedSynthetic := by
    rcases @run_submitTask .memory {} (syntheticTask {} 2) (syntheticPlan {})
      {} with ⟨-, -, session, hrun, -⟩ | ⟨hinvalid, -⟩
    · rw [submittedSynthetic, hrun]
    · exact absurd ⟨validate_syntheticTask {} 2, validate_syntheticPlan (by decide)⟩ hinvalid
  have hlog : HoldsLog w (ascii "log") session :=
    holdsLog_writeTaskEventLogArtifact (List.Perm.refl metadata) .memory (ascii "log") {}
  have hlead : syntheticSteps.map Prod.fst <+:
      sessionOps ((List.range 3).map (syntheticWork 2)) := by
    rw [syntheticSteps, List.map_map]
    exact (List.map_id' _).symm ▸ List.take_prefix 3 _
  exact @continue_syntheticTask {} {} 2 {} w (ascii "log") submittedSynthetic syntheticSteps {}
    (by decide) (by decide) hsubmit
    hlead (List.forall_mem_map.2 fun _ _ => rfl) hlog {}

end DataAgentSystem.Workloads
