import DataAgentSystem.Experiments.VerifyCommitLogs
import DataAgentSystem.Experiments.VerifyTaskEventLogs
import DataAgentSystem.Workloads.SyntheticDriver

/-! The script `verify_artifacts.py`, as far as it checks a table of results. The table of the
synthetic experiment passes if it has a row, on whatever store the experiment has run and
whoever else writes: the counters of a row agree however its commit has ended. -/

namespace DataAgentSystem.Experiments

open Text Intent Cache Branch Containers Storage Interaction AgentTxn AgentTxnManager CommitManager
  DataAgentSystem.Runtime Workloads

def requiredColumns : List Bytes :=
  [ascii "task_id", ascii "committed", ascii "branch_count", ascii "planned_loser_count",
    ascii "winner_commit_count", ascii "real_abort_count", ascii "conflict_abort_count",
    ascii "validation_fail_count", ascii "retry_count",
    ascii "commit_latency_us"]

/-- `int(row[name])`. -/
def cellNumber (table : CsvTable) (row : List Bytes) (name : Bytes) : Option ℤ :=
  ((table.record row).lookup name).join.bind pythonInt

/-- One round of the loop over the rows. -/
def verifyRow (table : CsvTable) (row : List Bytes) : Option Unit := do
  let branchCount ← cellNumber table row (ascii "branch_count")
  let plannedLoserCount ← cellNumber table row (ascii "planned_loser_count")
  let committed ← cellNumber table row (ascii "committed")
  let winnerCommitCount ← cellNumber table row (ascii "winner_commit_count")
  let realAbortCount ← cellNumber table row (ascii "real_abort_count")
  if branchCount < 1 then none
  else if plannedLoserCount ≠ branchCount - 1 then none
  else if ¬(committed = 0 ∨ committed = 1) then none
  else if ¬(winnerCommitCount = 0 ∨ winnerCommitCount = 1) then none
  else if ¬(realAbortCount = 0 ∨ realAbortCount = 1) then none
  else if committed = 1 ∧ winnerCommitCount ≠ 1 then none
  else if committed = 0 ∧ realAbortCount ≠ 1 then none
  else some ()

/-- `verify_csv` on the contents of a file. -/
def verifyCsv (contents : Option Bytes) : Option Unit := do
  let table ← contents.bind csvTable
  if ¬requiredColumns ⊆ table.fieldnames then none
  else do
    table.rows.forM (verifyRow table)
    if table.rows.length = 0 then none else some ()

variable {kind : StoreKind} {runtime : FallbackCommitRuntimeConfig} {config : SyntheticRunConfig}
  {session : TaskSession} {task : SyntheticTaskRecord} {commitLatencyUs : PrintedNumber}
  {taskIndex : ℕ}
  {iterate : UnorderedMap Bytes → List (Bytes × Bytes)}

/-! ### The table of an experiment -/

/-- The counters of a task agree. -/
structure Agrees (task : SyntheticTaskRecord) : Prop where
  branches : 1 ≤ task.branchCount
  losers : task.plannedLoserCount = task.branchCount - 1
  winners : task.winnerCommitCount = 0 ∨ task.winnerCommitCount = 1
  aborts : task.realAbortCount = 0 ∨ task.realAbortCount = 1
  accepted : task.committed = true → task.winnerCommitCount = 1
  refused : task.committed = false → task.realAbortCount = 1

theorem syntheticCsvHeader_eq : syntheticCsvHeader = csvLine requiredColumns := by decide +kernel

theorem lookup_csvFields {rows : List (List Bytes)} (i : ℕ) {name value : Bytes}
    (hname : requiredColumns[i]? = some name) (hvalue : task.csvFields[i]? = some value) :
    (CsvTable.record { fieldnames := requiredColumns, rows } task.csvFields).lookup name =
      some (some value) := by
  have hnodup : requiredColumns.Nodup := by decide
  rw [CsvTable.lookup_record hnodup hname, hvalue]

theorem cellNumber_csvFields {rows : List (List Bytes)} (i : ℕ) {name value : Bytes}
    (hname : requiredColumns[i]? = some name) (hvalue : task.csvFields[i]? = some value) :
    cellNumber { fieldnames := requiredColumns, rows } task.csvFields name = pythonInt value := by
  rw [cellNumber, lookup_csvFields i hname hvalue]
  rfl

theorem pythonInt_flag (b : Bool) :
    pythonInt (if b then ascii "1" else ascii "0") = some (if b then 1 else 0) := by
  cases b <;> decide

/-- The checks of a row pass exactly if the counters agree. -/
theorem verifyRow_csvFields (rows : List (List Bytes)) (task : SyntheticTaskRecord) :
    verifyRow { fieldnames := requiredColumns, rows } task.csvFields = some () ↔ Agrees task := by
  rw [verifyRow, cellNumber_csvFields 2 rfl rfl, cellNumber_csvFields 3 rfl rfl,
    cellNumber_csvFields 1 rfl rfl, cellNumber_csvFields 4 rfl rfl, cellNumber_csvFields 5 rfl rfl]
  simp only [pythonInt_decimal, pythonInt_flag, Option.bind_eq_bind, Option.bind_some,
    Option.ite_none_left_eq_some, and_true]
  constructor
  · rintro ⟨hbranches, hlosers, -, hwinners, haborts, haccepted, hrefused⟩
    refine ⟨by omega, by omega, by omega, by omega, fun hrow => ?_, fun hrow => ?_⟩
    · rw [if_pos hrow] at haccepted
      omega
    · rw [if_neg (by simp [hrow])] at hrefused
      omega
  · rintro ⟨hbranches, hlosers, hwinners, haborts, haccepted, hrefused⟩
    cases hrow : task.committed with
    | false =>
      have hone := hrefused hrow
      rw [if_neg Bool.false_ne_true]
      omega
    | true =>
      have hone := haccepted hrow
      rw [if_pos rfl]
      omega

theorem forM_eq_some_iff {α : Type} {f : α → Option Unit} {xs : List α} :
    xs.forM f = some () ↔ ∀ x ∈ xs, f x = some () := by
  induction xs with
  | nil => simp
  | cons x xs ih =>
    rw [List.forM, List.forall_mem_cons, ← ih]
    cases f x <;> simp

/-- All fields of the record can be printed as they are. -/
def PlainRow (task : SyntheticTaskRecord) : Prop := ∀ field ∈ task.csvFields, Plain field

theorem plain_requiredColumns : ∀ name ∈ requiredColumns, Plain name := by
  intro name hname
  have hnul : ∀ name ∈ requiredColumns, (0 : Byte) ∉ name := by decide
  have hlength : ∀ name ∈ requiredColumns, name.length ≤ fieldLimit := by decide
  have hquotes : ∀ name ∈ requiredColumns, needsQuotes name = false := by decide
  exact ⟨⟨hnul name hname, hlength name hname⟩, hquotes name hname⟩

/-- The script reads the records that have been printed. -/
theorem csvTable_writeSyntheticCsv {result : SyntheticRunResult}
    (hplain : ∀ task ∈ result.tasks, PlainRow task) :
    csvTable (writeSyntheticCsv result) =
      some { fieldnames := requiredColumns, rows := result.tasks.map SyntheticTaskRecord.csvFields } := by
  have hlines : syntheticCsvHeader :: result.tasks.map (fun task => csvLine task.csvFields) =
      (requiredColumns :: result.tasks.map SyntheticTaskRecord.csvFields).map
          (List.intercalate [comma]) := by
    rw [syntheticCsvHeader_eq, List.map_cons, List.map_map]
    rfl
  rw [writeSyntheticCsv, hlines]
  apply csvTable_lines
  · exact List.forall_mem_cons.2 ⟨plain_requiredColumns, List.forall_mem_map.2 hplain⟩
  · refine List.forall_mem_cons.2 ⟨by decide, List.forall_mem_map.2 fun task _ => ?_⟩
    simp [SyntheticTaskRecord.csvFields]

/-- The table of an experiment passes exactly if it has rows, and the counters of each agree. -/
theorem verifyCsv_writeSyntheticCsv {result : SyntheticRunResult}
    (hplain : ∀ task ∈ result.tasks, PlainRow task) :
    verifyCsv (some (writeSyntheticCsv result)) = some () ↔ result.tasks ≠ [] ∧
      ∀ task ∈ result.tasks, Agrees task := by
  have hrows : (result.tasks.map SyntheticTaskRecord.csvFields).forM (verifyRow
      { fieldnames := requiredColumns, rows := result.tasks.map SyntheticTaskRecord.csvFields }) =
        some () ↔
        ∀ task ∈ result.tasks, Agrees task := by
    rw [forM_eq_some_iff, List.forall_mem_map]
    simp only [verifyRow_csvFields]
  simp only [verifyCsv, Option.bind_some, csvTable_writeSyntheticCsv hplain, Option.bind_eq_bind,
    List.Subset.refl, not_true_eq_false, if_false]
  rw [Option.bind_eq_some_iff]
  constructor
  · rintro ⟨⟨⟩, hall, hcount⟩
    refine ⟨fun hnone => ?_, hrows.1 hall⟩
    simp [hnone] at hcount
  · rintro ⟨hne, hall⟩
    refine ⟨(), hrows.2 hall, ?_⟩
    simp [hne]

/-! ### The logs of an experiment -/

variable {result : SyntheticRunResult}

/-- The event logs pass exactly if the log of each task does under its row. -/
theorem verifyTaskEventLogs_writeSyntheticCsv (hplain : ∀ task ∈ result.tasks, PlainRow task)
    (taskLogDir : Bytes) (files : UnorderedMap Bytes) :
    verifyTaskEventLogs (some (writeSyntheticCsv result)) taskLogDir files = some () ↔
      ∀ task ∈ result.tasks,
        (parseTaskLog (files.lookup (taskLogPath taskLogDir (some task.taskId)))).bind
        (verifyTaskEventLog (some task.taskId) (if task.committed then 1 else 0)) = some () := by
  simp only [verifyTaskEventLogs, Option.bind_some, csvTable_writeSyntheticCsv hplain,
    Option.bind_eq_bind]
  rw [forM_eq_some_iff, List.forall_mem_map]
  refine forall₂_congr fun task _ => ?_
  rw [lookup_csvFields 0 rfl rfl, lookup_csvFields 1 rfl rfl]
  simp only [Option.bind_some, Option.join_some, pythonInt_flag]

/-- So do the commit logs. -/
theorem verifyCommitLogs_writeSyntheticCsv (hplain : ∀ task ∈ result.tasks, PlainRow task)
    (commitLogDir : Bytes) (files : UnorderedMap Bytes) :
    verifyCommitLogs (some (writeSyntheticCsv result)) commitLogDir files = some () ↔
      ∀ task ∈ result.tasks,
        (parseCommitLog (files.lookup (commitLogPath commitLogDir (some task.taskId)))).bind
        (verifyCommitLog (if task.committed then 1 else 0)) = some () := by
  simp only [verifyCommitLogs, Option.bind_some, csvTable_writeSyntheticCsv hplain,
    Option.bind_eq_bind]
  rw [forM_eq_some_iff, List.forall_mem_map]
  refine forall₂_congr fun task _ => ?_
  rw [lookup_csvFields 0 rfl rfl, lookup_csvFields 1 rfl rfl]
  simp only [Option.bind_some, Option.join_some, pythonInt_flag]

/-! ### A run of the experiment -/

/-- A character that is neither zero nor read as anything but itself. -/
def isPlain (c : Byte) : Bool := c ≠ 0 ∧ c ≠ comma ∧ c ≠ quote ∧ CsvReader.endsRecord c = false

theorem plain_of_all {text : Bytes} (htext : text.all isPlain = true)
    (hlength : text.length ≤ fieldLimit) : Plain text := by
  have hchar : ∀ c ∈ text, c ≠ 0 ∧ c ≠ comma ∧ c ≠ quote ∧ CsvReader.endsRecord c = false := by
    simpa [isPlain] using htext
  refine ⟨⟨fun hnul => (hchar 0 hnul).1 rfl, hlength⟩, ?_⟩
  rw [needsQuotes, List.any_eq_false]
  intro c hc
  obtain ⟨-, hcomma, hquote, hends⟩ := hchar c hc
  simp [hcomma, hquote, hends]

theorem isPlain_of_isDigit {c : Byte} (h : isDigit c = true) : isPlain c = true := by
  have hne : ∀ d, isDigit d = false → c ≠ d := by
    rintro d hd rfl
    rw [h] at hd
    cases hd
  simp [isPlain, CsvReader.endsRecord, hne 0 (by decide), hne comma (by decide),
    hne quote (by decide), hne newline (by decide), hne carriageReturn (by decide)]

theorem all_isPlain_decimal (n : ℕ) : (decimal n).all isPlain = true :=
  List.all_eq_true.2 fun _ hc => isPlain_of_isDigit (isDigit_of_mem_decimal hc)

/-- Nothing that a `size_t` or less counts is too long. -/
theorem length_decimal_le {n : ℕ} (hn : n < 2 ^ 64) : (decimal n).length ≤ 20 := by
  rw [decimal, List.length_map, Nat.length_toDigits_le_iff (by decide) (by decide)]
  omega

theorem plain_decimal {n : ℕ} (hn : n < 2 ^ 64) : Plain (decimal n) :=
  plain_of_all (all_isPlain_decimal n) ((length_decimal_le hn).trans (by decide))

theorem plain_syntheticTaskId (hindex : taskIndex < 2 ^ 64) :
    Plain (syntheticTaskId taskIndex) := by
  apply plain_of_all
  · rw [syntheticTaskId, List.all_append, all_isPlain_decimal, Bool.and_true]
    decide
  · have hlength := length_decimal_le hindex
    rw [syntheticTaskId, List.length_append, fieldLimit]
    simp [ascii]
    omega

theorem plain_flag (b : Bool) : Plain (if b then ascii "1" else ascii "0") := by
  cases b <;> exact plain_of_all (by decide) (by decide)

theorem plain_counter (p : Prop) [Decidable p] {m n : ℕ} (hm : m ≤ 1) (hn : n ≤ 1) :
    Plain (decimal (if p then m else n)) := by
  apply plain_decimal
  split <;> omega

theorem metrics_of_same {txn txn' : AgentTxnContext}
    (h : AgentTxnContext.SameBesideBranches txn txn') : txn'.metrics = txn.metrics := by
  rw [h]

/-- Work on branches leaves the metrics alone. -/
theorem returns_perform_metrics (runtime : FallbackCommitRuntimeConfig)
    (session : TaskSession) {op : SessionOp} (hworks : op.works = true) :
    (op.perform runtime session).Returns fun session' => session'.txn.metrics =
      session.txn.metrics := by
  cases op with
  | read branchId objectId =>
    have hread : (session.read branchId objectId).Returns fun out =>
        out.2.txn.metrics = session.txn.metrics :=
      (AgentTxnContext.returns_read session.txn branchId objectId).bind fun out hsame =>
        metrics_of_same hsame
    exact hread.bind fun out hout => hout
  | write branchId objectId objectType intent =>
    exact (AgentTxnContext.returns_write session.txn branchId objectId objectType intent).bind
        fun txn hsame =>
      metrics_of_same hsame
  | savepoint branchId savepointId =>
    exact metrics_of_same
      (AgentTxnContext.sameBesideBranches_savepoint session.txn branchId savepointId)
  | rollbackToSavepoint branchId savepointId =>
    show (session.rollbackToSavepoint branchId savepointId).2.txn.metrics = session.txn.metrics
    rcases session.rollbackToSavepoint_cases branchId savepointId with ⟨-, hsession⟩ | ⟨-, hsession⟩
    · rw [hsession]
    · rw [hsession]
      exact metrics_of_same
        (AgentTxnContext.sameBesideBranches_rollbackToSavepoint session.txn branchId savepointId)
  | stageBranch branchId score summary =>
    exact metrics_of_same
      (AgentTxnContext.sameBesideBranches_stageBranch session.txn branchId score summary)
  | commitTask => cases hworks
  | abortTask => cases hworks

theorem returns_performAll_metrics (runtime : FallbackCommitRuntimeConfig) {ops : List SessionOp}
    (hworks : ∀ op ∈ ops, op.works = true) (session : TaskSession) :
    (Runtime.performAll runtime ops session).Returns fun session' => session'.txn.metrics =
      session.txn.metrics := by
  induction ops generalizing session with
  | nil => exact rfl
  | cons op ops ih =>
    rw [List.forall_mem_cons] at hworks
    apply (returns_perform_metrics runtime session hworks.1).bind
    intro session' hkept
    exact (ih hworks.2 session').mono fun _ hrest => hrest.trans hkept

/-- So does a commit that returns. -/
theorem returns_commitTask_metrics (runtime : FallbackCommitRuntimeConfig) (session : TaskSession) :
    (session.commitTask runtime).Returns fun out =>
      ∀ committed, out.1 = .ok committed → out.2.txn.metrics = session.txn.metrics := by
  apply (returns_verdict session.attempt.txn).bind
  rintro ⟨result, txn⟩ ⟨hmetrics, -⟩
  cases result with
  | error what => exact forall_ok_error what
  | ok committed =>
    refine (returns_finalize runtime _).bind fun finalized hfinalized => ?_
    cases finalized with
    | error what => exact forall_ok_error what
    | ok ended =>
      rintro _ ⟨⟩
      rw [(hfinalized ended rfl).1]
      cases committed <;> exact hmetrics

/-- The record tells the metrics of the session, wherever its logs have been written. -/
theorem returns_reportTask (config : SyntheticRunConfig) (commitLatencyUs : PrintedNumber)
    (iterate : UnorderedMap Bytes → List (Bytes × Bytes)) (taskIndex : ℕ) (committed : Bool)
    (session : TaskSession) :
    let metrics := session.txn.metrics
    (reportTask config commitLatencyUs iterate taskIndex committed session).Returns fun record =>
      ∃ commitLogPath taskEventLogPath, record = {
        taskId := syntheticTaskId taskIndex
        committed
        branchCount := metrics.branchCount
        plannedLoserCount := metrics.plannedLoserCount
        winnerCommitCount := metrics.winnerCommitCount
        realAbortCount := metrics.realAbortCount
        conflictAbortCount := metrics.conflictAbortCount
        validationFailCount := metrics.validationFailCount
        retryCount := metrics.retryCount
        commitLatencyUs
        commitLogPath
        commitLogEntryCount := session.txn.commitLog.entries.length
        taskEventLogPath
        taskEventCount := session.events.length } := by
  intro metrics
  unfold reportTask
  by_cases hcommits : config.commitLogDir = [] <;> by_cases htasks : config.taskEventLogDir = [] <;>
    simp only [hcommits, htasks, ne_eq, not_true_eq_false, not_false_eq_true, if_true, if_false]
  · exact ⟨_, _, rfl⟩
  · exact fun _ => ⟨_, _, rfl⟩
  · exact fun _ => ⟨_, _, rfl⟩
  · exact fun _ _ => ⟨_, _, rfl⟩

/-- The rows pass, and can be printed as they are. -/
structure Passes (task : SyntheticTaskRecord) : Prop extends Agrees task where
  plain : PlainRow task

theorem returns_finishTask (runtime : FallbackCommitRuntimeConfig) (config : SyntheticRunConfig)
    (iterate : UnorderedMap Bytes → List (Bytes × Bytes)) (hlatency : Plain commitLatencyUs.text)
    (hbranches : 0 < config.branchCount) (hfit : config.branchCount < 2 ^ 64)
    (hindex : taskIndex < 2 ^ 64)
    (hmetrics : session.txn.metrics =
      { branchCount := config.branchCount, plannedLoserCount := config.branchCount - 1 }) :
    (finishTask runtime config commitLatencyUs iterate taskIndex session).Returns fun r =>
      ∀ record, r = .ok record → Passes record := by
  apply (returns_commitTask_metrics runtime session).bind
  rintro ⟨result, ended⟩ hkept
  cases result with
  | error what => exact forall_ok_error what
  | ok committed =>
    refine (returns_reportTask config commitLatencyUs iterate taskIndex committed
      (withCommitMetrics ended committed (config.injectConflict taskIndex))).bind ?_
    rintro record ⟨commitLogPath, taskEventLogPath, rfl⟩ _ ⟨⟩
    have hended : ended.txn.metrics = _ := (hkept committed rfl).trans hmetrics
    have hbranchCount : ended.txn.metrics.branchCount = config.branchCount := by rw [hended]
    have hlosers : ended.txn.metrics.plannedLoserCount = config.branchCount - 1 := by rw [hended]
    have hretries : ended.txn.metrics.retryCount = 0 := by rw [hended]
    constructor
    · constructor
      · exact hbranches.trans_eq hbranchCount.symm
      · exact hlosers.trans (congrArg (· - 1) hbranchCount.symm)
      · cases committed
        · exact .inl rfl
        · exact .inr rfl
      · cases committed
        · exact .inr rfl
        · exact .inl rfl
      · rintro rfl
        rfl
      · rintro rfl
        rfl
    · simp only [PlainRow, SyntheticTaskRecord.csvFields, withCommitMetrics, hbranchCount, hlosers,
        hretries, List.forall_mem_cons]
      exact ⟨plain_syntheticTaskId hindex, plain_flag committed, plain_decimal hfit,
        plain_decimal (by omega), plain_counter _ le_rfl zero_le_one,
        plain_counter _ zero_le_one le_rfl, plain_counter _ le_rfl zero_le_one,
        plain_counter _ le_rfl zero_le_one, plain_decimal (by decide),
          hlatency, List.forall_mem_nil _⟩

theorem returns_runOneTask (runtime : FallbackCommitRuntimeConfig) (config : SyntheticRunConfig)
    (iterate : UnorderedMap Bytes → List (Bytes × Bytes)) (hlatency : Plain commitLatencyUs.text)
    (hfit : config.branchCount < 2 ^ 64) (hindex : taskIndex < 2 ^ 64) :
    (runOneTask runtime config commitLatencyUs iterate taskIndex).Returns fun r => ∀ record,
      r = .ok record → Passes record := by
  have hids : (syntheticPlan config).branchPlans.map (·.branchId) =
      (List.range' 0 config.branchCount).map syntheticBranchId := by
    rw [branchPlans_syntheticPlan, List.map_map, ← List.range_eq_range']
    rfl
  unfold runOneTask
  refine (Program.returns_true _).bind fun _ _ => ?_
  refine (Program.returns_true _).bind fun _ _ => ?_
  apply (returns_submitTask_metrics runtime (syntheticTask config taskIndex)
    (syntheticPlan config)).bind
  intro submitted hsubmitted
  cases submitted with
  | error what => exact forall_ok_error what
  | ok session =>
    obtain ⟨hmetrics, hvalid⟩ := hsubmitted session rfl
    have hbranches : 0 < config.branchCount := by
      have hplans := (ExecutionPlan.validate_eq_ok.1 hvalid).1
      rw [branchPlans_syntheticPlan] at hplans
      by_contra hnone
      exact hplans (by simp [Nat.eq_zero_of_not_pos hnone])
    have hplanned : (withPlannedMetrics session config.branchCount).txn.metrics =
        { branchCount := config.branchCount, plannedLoserCount := config.branchCount - 1 } := by
      show { session.txn.metrics with
        branchCount := config.branchCount
        plannedLoserCount := if config.branchCount = 0 then 0 else config.branchCount - 1 } = _
      rw [hmetrics, if_neg hbranches.ne']
    simp only [hids, List.length_map, List.length_range', workSyntheticBranches_eq runtime]
    apply (returns_performAll_metrics runtime (works_sessionOps _) _).bind
    intro worked hworked
    have hfinish := returns_finishTask runtime config iterate hlatency hbranches hfit
      hindex (hworked.trans hplanned)
    split
    · exact (Program.returns_true _).bind fun _ _ => hfinish
    · exact hfinish

/-- Rows that pass stay, and each task adds one. -/
theorem returns_runTasks (runtime : FallbackCommitRuntimeConfig) (config : SyntheticRunConfig)
    {commitLatencyUs : ℕ → PrintedNumber} (iterate : UnorderedMap Bytes → List (Bytes × Bytes))
    {taskIndices : List ℕ} (hlatency : ∀ i ∈ taskIndices, Plain (commitLatencyUs i).text)
    (hfit : config.branchCount < 2 ^ 64) (hindices : ∀ i ∈ taskIndices, i < 2 ^ 64)
    {result : SyntheticRunResult} (hpass : ∀ task ∈ result.tasks, Passes task) :
    (runTasks runtime config commitLatencyUs iterate taskIndices result).Returns fun r =>
      ∀ result', r = .ok result' →
      (∀ task ∈ result'.tasks, Passes task) ∧
        result'.tasks.length = result.tasks.length + taskIndices.length := by
  induction taskIndices generalizing result with
  | nil =>
    rintro _ ⟨⟩
    exact ⟨hpass, rfl⟩
  | cons taskIndex taskIndices ih =>
    rw [List.forall_mem_cons] at hlatency hindices
    apply (returns_runOneTask runtime config iterate hlatency.1 hfit hindices.1).bind
    intro r hrecord
    cases r with
    | error what => exact forall_ok_error what
    | ok record =>
      have htasks : (appendTaskRecord result record).tasks = result.tasks ++ [record] := by
        unfold appendTaskRecord
        cases record.committed <;> rfl
      have hpass' : ∀ task ∈ (appendTaskRecord result record).tasks, Passes task := by
        rw [htasks, List.forall_mem_append]
        exact ⟨hpass, List.forall_mem_singleton.2 (hrecord record rfl)⟩
      refine (ih hlatency.2 hindices.2 hpass').mono fun r' hr' result' hresult => ?_
      obtain ⟨hall, hlength⟩ := hr' result' hresult
      refine ⟨hall, hlength.trans ?_⟩
      simp only [htasks, List.length_append, List.length_cons, List.length_nil]
      omega

/-- Whatever store it has run on, and whoever else has written: if the experiment returns, its
table passes exactly if there has been a task. -/
theorem verifyCsv_runSyntheticExperimentWithStore {commitLatencyUs : ℕ → PrintedNumber}
    {calls : List (Event Call World)} {result : SyntheticRunResult}
    (hlatency : ∀ i < config.taskCount, Plain (commitLatencyUs i).text)
    (hbranches : config.branchCount < 2 ^ 64) (htasks : config.taskCount < 2 ^ 64)
    (hrun : (runSyntheticExperimentWithStore runtime config commitLatencyUs iterate).Interfered
      (handle kind) calls (.ok result)) :
    verifyCsv (some (writeSyntheticCsv result)) = some () ↔ 0 < config.taskCount := by
  have hreturns : (runSyntheticExperimentWithStore runtime config commitLatencyUs iterate).Returns
    fun r => ∀ result', r = .ok result' →
      (∀ task ∈ result'.tasks, Passes task) ∧
          result'.tasks.length = 0 + (List.range config.taskCount).length := by
    have hnone : ∀ task ∈ ({ taskCount := config.taskCount } : SyntheticRunResult).tasks,
        Passes task := List.forall_mem_nil _
    refine returns_runTasks runtime config iterate (fun i hi => ?_) hbranches (fun i hi => ?_) hnone
    · exact hlatency i (List.mem_range.1 hi)
    · exact (List.mem_range.1 hi).trans htasks
  obtain ⟨hpass, hlength⟩ := hreturns.interfered hrun result rfl
  rw [List.length_range, Nat.zero_add] at hlength
  rw [verifyCsv_writeSyntheticCsv fun task htask => (hpass task htask).plain, ← hlength,
    List.length_pos_iff]
  exact and_iff_left fun task htask => (hpass task htask).toAgrees

/-- The table of ten tasks. -/
theorem verifyCsv_runSyntheticExperimentWithStore_tenTasks :
    let commitLatencyUs : ℕ → PrintedNumber := fun _ => ⟨ascii "0", newline_notMem_zero⟩
    let iterate : UnorderedMap Bytes → List (Bytes × Bytes) := fun metadata =>
      metadata.entries.map fun entry => (entry.1, entry.2)
    ∃ result, (runSyntheticExperiment {} commitLatencyUs iterate ∅).1 = .ok result ∧
      verifyCsv (some (writeSyntheticCsv result)) = some () := by
  intro commitLatencyUs iterate
  obtain ⟨records, w', hout, -⟩ := @run_runTasks {} {} commitLatencyUs iterate (by decide)
    (List.range 10) List.nodup_range
    (by decide) { taskCount := 10 } {}
  have hrun := Program.interfered_run (h := handle .memory)
    (runSyntheticExperimentWithStore {} {} commitLatencyUs iterate) {}
  have hresult :
      ((runSyntheticExperimentWithStore {} {} commitLatencyUs iterate).run (handle .memory) {}).1 =
      .ok _ :=
    congrArg Prod.fst hout
  rw [hresult] at hrun
  refine ⟨_, hresult, ?_⟩
  have hlatency : ∀ i < 10, Plain (commitLatencyUs i).text := fun _ _ =>
    plain_of_all (by decide) (by decide)
  exact (verifyCsv_runSyntheticExperimentWithStore hlatency (by decide) (by decide) hrun).2
    (by decide)

end DataAgentSystem.Experiments
