import DataAgentSystem.AgentTxn.AgentTxnContext

/-! Commit logs on disk: a header, a line for each field of the transaction, and a line
for each entry of its commit log. An entry line ends with its value and not with a tab,
so where the value is empty the reader finds nothing after the last tab and gives up. -/

namespace DataAgentSystem.AgentTxn

open Text Containers Storage Interaction

structure ParsedCommitLogEntry where
  key : Bytes
  expectedVersion : UInt64 := 0
  value : Bytes
  deriving DecidableEq

structure ParsedCommitLogArtifact where
  metadata : UnorderedMap Bytes := ∅
  entries : List ParsedCommitLogEntry := []

def kCommitLogHeader : Bytes := ascii "DAS_COMMIT_LOG_V1"

def txnStatusName : TxnStatus → Bytes
  | .running => ascii "RUNNING"
  | .committed => ascii "COMMITTED"
  | .aborted => ascii "ABORTED"

/-- What a stream makes of a number that is not modelled, here of the commit latency. -/
structure PrintedNumber where
  text : Bytes
  newline_notMem : newline ∉ text

theorem newline_notMem_zero : newline ∉ ascii "0" := by decide

/-- The fields before the entries, each with its value as written. -/
def commitLogFields (txn : AgentTxnContext) (commitLatencyUs : PrintedNumber) :
    List (Bytes × Bytes) :=
  [(ascii "txn_id", escapeCommitLogText txn.txnId),
    (ascii "task_id", escapeCommitLogText txn.taskId),
    (ascii "status", txnStatusName txn.status),
    (ascii "winner_branch_id", escapeCommitLogText txn.winnerBranchId),
    (ascii "validation_success", if txn.validationResult.success then ascii "1" else ascii "0"),
    (ascii "validation_reason", escapeCommitLogText txn.validationResult.reason),
    (ascii "branch_count", decimal txn.metrics.branchCount),
    (ascii "planned_loser_count", decimal txn.metrics.plannedLoserCount),
    (ascii "winner_commit_count", decimal txn.metrics.winnerCommitCount),
    (ascii "real_abort_count", decimal txn.metrics.realAbortCount),
    (ascii "conflict_abort_count", decimal txn.metrics.conflictAbortCount),
    (ascii "validation_fail_count", decimal txn.metrics.validationFailCount),
    (ascii "retry_count", decimal txn.metrics.retryCount),
    (ascii "commit_latency_us", commitLatencyUs.text),
    (ascii "entry_count", decimal txn.commitLog.entries.length)]

def fieldLine (field : Bytes × Bytes) : Bytes := field.1 ++ 61 :: field.2

def CommitLogEntry.line (entry : CommitLogEntry) : Bytes :=
  escapeCommitLogText entry.key ++
    tab :: (decimal entry.expectedVersion.toNat ++ tab :: escapeCommitLogText entry.value)

def commitLogText (txn : AgentTxnContext) (commitLatencyUs : PrintedNumber) : Bytes :=
  unlines newline (kCommitLogHeader :: ((commitLogFields txn commitLatencyUs).map fieldLine ++
    entriesMarker :: txn.commitLog.entries.map CommitLogEntry.line))

/-- The log is written in place; a crash in the middle of that is not modelled. -/
def writeCommitLogArtifact (txn : AgentTxnContext) (commitLatencyUs : PrintedNumber)
    (outputPath : Bytes) : Prog Bool :=
  Files.replace outputPath (commitLogText txn commitLatencyUs)

namespace ParsedCommitLogArtifact

/-- An entry line. What `getline` cannot read ends the parse. -/
def readEntry (line : Bytes) : Option ParsedCommitLogEntry := do
  let (key, rest) ← getline tab line
  let (expectedVersion, rest) ← getline tab rest
  let (value, _) ← getline newline rest
  return { key := unescapeCommitLogText key, expectedVersion := strtoull expectedVersion,
           value := unescapeCommitLogText value }

/-- The loop over the lines after the header. -/
def readLines : Bool → List Bytes → ParsedCommitLogArtifact → Option ParsedCommitLogArtifact
  | _, [], artifact => some artifact
  | inEntries, line :: rest, artifact =>
    if line = entriesMarker then readLines true rest artifact
    else if line = [] then readLines inEntries rest artifact
    else if !inEntries then
      match splitOnce 61 line with
      | none => none
      | some (key, value) =>
        readLines inEntries rest
          { artifact with metadata := artifact.metadata.insert key (unescapeCommitLogText value) }
    else
      match readEntry line with
      | none => none
      | some entry =>
        readLines inEntries rest { artifact with entries := artifact.entries ++ [entry] }

end ParsedCommitLogArtifact

/-- `ParseCommitLogArtifact` on the contents of a file, none if it does not open. -/
def parseCommitLogArtifact (contents : Option Bytes) : Option ParsedCommitLogArtifact :=
  match contents.bind (getline newline) with
  | none => none
  | some (line, rest) =>
    if line ≠ kCommitLogHeader then none
    else ParsedCommitLogArtifact.readLines false (lines newline rest) {}

/-! ### Entry lines -/

/-- An entry as it is read. -/
def CommitLogEntry.parsed (entry : CommitLogEntry) : ParsedCommitLogEntry where
  key := entry.key
  expectedVersion := entry.expectedVersion
  value := entry.value

namespace CommitLogEntry

theorem tab_mem_line (entry : CommitLogEntry) : tab ∈ entry.line := by simp [line]

theorem line_ne (entry : CommitLogEntry) : entry.line ≠ entriesMarker ∧ entry.line ≠ [] := by
  have hmarker : tab ∉ entriesMarker := by decide
  exact ⟨fun heq => hmarker (heq ▸ entry.tab_mem_line), List.ne_nil_of_mem entry.tab_mem_line⟩

theorem newline_notMem_line (entry : CommitLogEntry) : newline ∉ entry.line := by
  have htab : newline ≠ tab := by decide
  simp only [line, escapeCommitLogText, List.mem_append, List.mem_cons,
    newline_notMem_escape, newline_notMem_decimal, htab, or_self, not_false_eq_true]

/-- An entry is read back from its line unless its value is empty. -/
theorem readEntry_line (entry : CommitLogEntry) :
    ParsedCommitLogArtifact.readEntry entry.line = if entry.value = [] then none
      else some entry.parsed := by
  simp only [ParsedCommitLogArtifact.readEntry, line, escapeCommitLogText,
    getline_append (tab_notMem_escape _), getline_append (tab_notMem_decimal _),
    Option.bind_eq_bind, Option.bind_some]
  split
  next hnil =>
    rw [hnil]
    rfl
  next hne =>
    have hescaped : backslashEscaping.escape entry.value ≠ [] := fun h =>
      hne (backslashEscaping.escape_eq_nil.1 h)
    rw [getline_last (newline_notMem_escape _) hescaped]
    simp only [Option.bind_some, unescapeCommitLogText, backslashEscaping.unescape_escape,
      strtoull_decimal]
    rfl

end CommitLogEntry

namespace ParsedCommitLogArtifact

/-- Entry lines are read up to the first empty value. -/
theorem readLines_entries (entries : List CommitLogEntry) (artifact : ParsedCommitLogArtifact) :
    readLines true (entries.map CommitLogEntry.line) artifact =
      if ∀ entry ∈ entries, entry.value ≠ [] then
        some { artifact with entries := artifact.entries ++ entries.map CommitLogEntry.parsed }
      else none := by
  induction entries generalizing artifact with
  | nil => simp [readLines]
  | cons entry entries ih =>
    rw [List.map_cons, readLines, if_neg entry.line_ne.1, if_neg entry.line_ne.2,
      if_neg (by simp), entry.readEntry_line]
    by_cases hvalue : entry.value = []
    · have hsome : ¬∀ e ∈ entry :: entries, e.value ≠ [] := fun hall =>
        hall entry List.mem_cons_self hvalue
      rw [if_pos hvalue, if_neg hsome]
    · rw [if_neg hvalue]
      simp only [ih, List.forall_mem_cons, ne_eq, hvalue, not_false_eq_true,
        true_and, List.append_assoc, List.singleton_append, List.map_cons]

end ParsedCommitLogArtifact

/-! ### Fields -/

section Fields

variable (txn : AgentTxnContext) (commitLatencyUs : PrintedNumber)

/-- A field whose line is read as it was written. -/
structure ReadsBack (field : Bytes × Bytes) : Prop where
  key : (61 : Byte) ∉ field.1
  keyLine : newline ∉ field.1
  valueLine : newline ∉ field.2

theorem readsBack_commitLogFields :
    ∀ field ∈ commitLogFields txn commitLatencyUs, ReadsBack field := by
  have hfield : ∀ key value : Bytes, (61 : Byte) ∉ key ∧ newline ∉ key → newline ∉ value →
      ReadsBack (key, value) :=
    fun key value hkey hvalue => ⟨hkey.1, hkey.2, hvalue⟩
  have hstatus : newline ∉ txnStatusName txn.status := by cases txn.status <;> decide
  have hflag : newline ∉ (if txn.validationResult.success then ascii "1" else ascii "0") := by
    split <;> decide
  simp only [commitLogFields, List.forall_mem_cons, List.not_mem_nil,
    false_implies, implies_true, and_true]
  exact ⟨hfield _ _ (by decide) (newline_notMem_escape _),
    hfield _ _ (by decide) (newline_notMem_escape _), hfield _ _ (by decide) hstatus,
    hfield _ _ (by decide) (newline_notMem_escape _), hfield _ _ (by decide) hflag,
    hfield _ _ (by decide) (newline_notMem_escape _),
      hfield _ _ (by decide) (newline_notMem_decimal _),
    hfield _ _ (by decide) (newline_notMem_decimal _),
      hfield _ _ (by decide) (newline_notMem_decimal _),
    hfield _ _ (by decide) (newline_notMem_decimal _),
      hfield _ _ (by decide) (newline_notMem_decimal _),
    hfield _ _ (by decide) (newline_notMem_decimal _),
      hfield _ _ (by decide) (newline_notMem_decimal _),
    hfield _ _ (by decide) commitLatencyUs.newline_notMem,
      hfield _ _ (by decide) (newline_notMem_decimal _)⟩

/-- No key is written twice. -/
theorem nodup_commitLogFields : ((commitLogFields txn commitLatencyUs).map Prod.fst).Nodup := by
  simp only [commitLogFields, List.map_cons, List.map_nil]
  decide

end Fields

theorem readLines_commitLogFields {fields : List (Bytes × Bytes)}
    (hfields : ∀ field ∈ fields, ReadsBack field) (rest : List Bytes)
    (artifact : ParsedCommitLogArtifact) :
    ParsedCommitLogArtifact.readLines false (fields.map fieldLine ++ rest) artifact =
      ParsedCommitLogArtifact.readLines false rest { artifact with
        metadata := UnorderedMap.assignAll Prod.fst (fun field => unescapeCommitLogText field.2)
          fields artifact.metadata } := by
  induction fields generalizing artifact with
  | nil => rfl
  | cons field fields ih =>
    rw [List.forall_mem_cons] at hfields
    have hmem : (61 : Byte) ∈ fieldLine field := by simp [fieldLine]
    have hequals : (61 : Byte) ∉ entriesMarker := by decide
    have hmarker : fieldLine field ≠ entriesMarker := fun heq => hequals (heq ▸ hmem)
    rw [List.map_cons, List.cons_append, ParsedCommitLogArtifact.readLines, if_neg hmarker,
      if_neg (List.ne_nil_of_mem hmem), if_pos (by rfl), fieldLine, splitOnce_append hfields.1.key]
    exact ih hfields.2 _

/-! ### The round trip -/

section RoundTrip

variable (txn : AgentTxnContext) (commitLatencyUs : PrintedNumber)

/-- What is read from the log of a transaction. -/
def writtenCommitLog : ParsedCommitLogArtifact where
  metadata := UnorderedMap.assignAll Prod.fst (fun field => unescapeCommitLogText field.2)
    (commitLogFields txn commitLatencyUs) ∅
  entries := txn.commitLog.entries.map CommitLogEntry.parsed

theorem parseCommitLogArtifact_text :
    parseCommitLogArtifact (some (commitLogText txn commitLatencyUs)) =
    if ∀ entry ∈ txn.commitLog.entries,
      entry.value ≠ [] then some (writtenCommitLog txn commitLatencyUs) else none := by
  have hlines : ∀ line ∈ (commitLogFields txn commitLatencyUs).map fieldLine ++
      entriesMarker :: txn.commitLog.entries.map CommitLogEntry.line, newline ∉ line := by
    intro line hline
    rcases List.mem_append.1 hline with hline | hentry
    · obtain ⟨field, hfield, rfl⟩ := List.mem_map.1 hline
      have hreads := readsBack_commitLogFields txn commitLatencyUs field hfield
      simp [fieldLine, hreads.keyLine, hreads.valueLine, show newline ≠ (61 : Byte) by decide]
    · rcases List.mem_cons.1 hentry with rfl | hentry
      · decide
      · obtain ⟨entry, -, rfl⟩ := List.mem_map.1 hentry
        exact entry.newline_notMem_line
  rw [parseCommitLogArtifact, Option.bind_some, commitLogText, unlines_cons,
    getline_append (by decide)]
  simp only [ne_eq, not_true_eq_false, ↓reduceIte]
  rw [lines_unlines hlines,
    readLines_commitLogFields (readsBack_commitLogFields txn commitLatencyUs),
    ParsedCommitLogArtifact.readLines, if_pos rfl, ParsedCommitLogArtifact.readLines_entries]
  rfl

theorem lookup_writtenCommitLog {key value : Bytes}
    (h : (key, value) ∈ commitLogFields txn commitLatencyUs) :
    (writtenCommitLog txn commitLatencyUs).metadata.lookup key =
      some (unescapeCommitLogText value) :=
  UnorderedMap.lookup_assignAll_of_mem _ ∅ (nodup_commitLogFields txn commitLatencyUs) h

/-- The artifact has the entries of the transaction, and tells what became of it. -/
structure RestoresCommit (artifact : ParsedCommitLogArtifact) : Prop where
  entries : artifact.entries = txn.commitLog.entries.map CommitLogEntry.parsed
  txnId : artifact.metadata.lookup (ascii "txn_id") = some txn.txnId
  taskId : artifact.metadata.lookup (ascii "task_id") = some txn.taskId
  status : artifact.metadata.lookup (ascii "status") = some (txnStatusName txn.status)
  winnerBranchId : artifact.metadata.lookup (ascii "winner_branch_id") = some txn.winnerBranchId
  reason : artifact.metadata.lookup (ascii "validation_reason") = some txn.validationResult.reason

theorem restoresCommit_written : RestoresCommit txn (writtenCommitLog txn commitLatencyUs) := by
  have hescaped : ∀ key text,
    (key, escapeCommitLogText text) ∈ commitLogFields txn commitLatencyUs →
      (writtenCommitLog txn commitLatencyUs).metadata.lookup key = some text := by
    intro key text hmem
    rw [lookup_writtenCommitLog txn commitLatencyUs hmem]
    exact congrArg some (backslashEscaping.unescape_escape text)
  have hstatus : unescapeCommitLogText (txnStatusName txn.status) = txnStatusName txn.status := by
    cases txn.status <;> decide
  refine ⟨rfl, hescaped _ _ ?_, hescaped _ _ ?_, ?_, hescaped _ _ ?_, hescaped _ _ ?_⟩
  · simp [commitLogFields]
  · simp [commitLogFields]
  · have hmem : (ascii "status", txnStatusName txn.status) ∈ commitLogFields
        txn commitLatencyUs := by
      simp [commitLogFields]
    rw [lookup_writtenCommitLog txn commitLatencyUs hmem, hstatus]
  · simp [commitLogFields]
  · simp [commitLogFields]

end RoundTrip

/-- A commit log is read back as it was written exactly if none of its values is empty. -/
theorem parseCommitLogArtifact_written_iff (kind : StoreKind) (txn : AgentTxnContext)
    (commitLatencyUs : PrintedNumber) (path : Bytes) (w : World) :
    (∃ artifact, ((do
        let _ ← writeCommitLogArtifact txn commitLatencyUs path
        return parseCommitLogArtifact (← Files.read path)).run (handle kind) w).1 = some artifact ∧
      RestoresCommit txn artifact) ↔ ∀ entry ∈ txn.commitLog.entries, entry.value ≠ [] := by
  have hrun : ((do
      let _ ← writeCommitLogArtifact txn commitLatencyUs path
      return parseCommitLogArtifact (← Files.read path)).run (handle kind) w).1 =
      parseCommitLogArtifact (some (commitLogText txn commitLatencyUs)) := by
    have hfile : (AList.insert path (commitLogText txn commitLatencyUs) w.files).lookup path =
        some (commitLogText txn commitLatencyUs) := AList.lookup_insert _
    exact congrArg parseCommitLogArtifact hfile
  rw [hrun, parseCommitLogArtifact_text]
  constructor
  · rintro ⟨artifact, hparsed, -⟩
    by_contra hsome
    rw [if_neg hsome] at hparsed
    cases hparsed
  · intro hall
    rw [if_pos hall]
    exact ⟨_, rfl, restoresCommit_written txn commitLatencyUs⟩

/-- A transaction that has written an empty value. -/
def clearingTxn : AgentTxnContext where
  txnId := ascii "txn:1"
  taskId := ascii "1"
  status := .committed
  winnerBranchId := ascii "b"
  commitLog := { entries := [{ key := ascii "k", value := [], expectedVersion := 1 }] }

theorem parseCommitLogArtifact_clearing : ¬∃ artifact, ((do
    let _ ← writeCommitLogArtifact clearingTxn ⟨ascii "0", by decide⟩ (ascii "1.commit.log")
    return parseCommitLogArtifact (← Files.read (ascii "1.commit.log"))).run
      (handle .memory) {}).1 = some artifact ∧
      RestoresCommit clearingTxn artifact := by
  rintro ⟨artifact, hparsed, -⟩
  have hnone : ((do
    let _ ← writeCommitLogArtifact clearingTxn ⟨ascii "0", by decide⟩ (ascii "1.commit.log")
    return parseCommitLogArtifact (← Files.read (ascii "1.commit.log"))).run
        (handle .memory) {}).1 = none := by
    decide
  rw [hnone] at hparsed
  cases hparsed

end DataAgentSystem.AgentTxn
