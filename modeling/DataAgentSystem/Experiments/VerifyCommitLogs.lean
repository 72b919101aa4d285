import DataAgentSystem.AgentTxn.CommitAmongWriters
import DataAgentSystem.AgentTxn.CommitVerdict
import DataAgentSystem.AgentTxn.TornCommitLog
import DataAgentSystem.Experiments.TaskLogReaders
import DataAgentSystem.Text.Csv

/-! The script `verify_commit_logs.py`, which goes through a table of results and checks the
commit log of each task. A transaction that has been refused has no entries and passes;
one that has been committed passes if it has an entry, and a winner that only reads
commits without any. -/

namespace DataAgentSystem.Experiments

open Text Intent Cache Branch Containers Storage Interaction AgentTxn AgentTxnManager
  CommitManager DataAgentSystem.Runtime

structure LoggedEntry where
  key : Bytes
  expectedVersion : Bytes
  value : Bytes
  deriving DecidableEq

/-- The dictionary of a commit log: its entries are the value of the key `entries`. -/
structure CommitLogDict where
  metadata : UnorderedMap Bytes := ∅
  entries : List LoggedEntry := []

/-! ### Reading a log -/

def parseEntry (line : Bytes) : Option LoggedEntry :=
  match line.splitOn tab with
  | [key, expectedVersion, value] =>
    some { key := unescape key, expectedVersion, value := unescape value }
  | _ => none

/-- The loop over the lines after the marker. -/
def parseEntries : List Bytes → Option (List LoggedEntry)
  | [] => some []
  | line :: lines =>
    if line = [] then parseEntries lines
    else do
      let entry ← parseEntry line
      let entries ← parseEntries lines
      return entry :: entries

/-- `parse_commit_log` on the contents of a file. -/
def parseCommitLog (contents : Option Bytes) : Option CommitLogDict := do
  let text ← contents.bind readText
  let lines := splitlines text
  if lines.head? ≠ some kCommitLogHeader then none
  else if entriesMarker ∉ lines then none
  else
    let splitIndex := lines.idxOf entriesMarker
    let metadata ← parseMetadata ((lines.take splitIndex).drop 1) ∅
    let entries ← parseEntries (lines.drop (splitIndex + 1))
    return { metadata := metadata.erase (ascii "entries"), entries }

/-! ### The checks -/

/-- One round of the loop over the rows, from the log on. -/
def verifyCommitLog (committed : ℤ) (log : CommitLogDict) : Option Unit := do
  let status := log.metadata.lookup (ascii "status")
  let entryCount ← pythonInt ((log.metadata.lookup (ascii "entry_count")).getD (ascii "0"))
  if committed = 1 ∧ status ≠ some (ascii "COMMITTED") then none
  else if committed = 0 ∧ status ≠ some (ascii "ABORTED") then none
  else if entryCount ≠ log.entries.length then none
  else if committed = 1 ∧ entryCount < 1 then none
  else if committed = 0 ∧ entryCount ≠ 0 then none
  else some ()

def commitLogPath (commitLogDir : Bytes) (taskId : Option Bytes) : Bytes :=
  commitLogDir ++ ascii "/" ++ formatCell taskId ++ ascii ".commit.log"

/-- `main`, on the contents of the table and the files below the directory. -/
def verifyCommitLogs (results : Option Bytes) (commitLogDir : Bytes) (files : UnorderedMap Bytes) :
    Option Unit := do
  let table ← results.bind csvTable
  table.rows.forM fun row => do
    let taskId ← (table.record row).lookup (ascii "task_id")
    let committed ← ((table.record row).lookup (ascii "committed")).join.bind pythonInt
    verifyCommitLog committed (← parseCommitLog (files.lookup (commitLogPath commitLogDir taskId)))

variable {txn txn' : AgentTxnContext} {commitLatencyUs : PrintedNumber}
  {P : Byte → Prop} {kind : StoreKind}

/-! ### The log of a transaction -/

/-- The texts of a transaction that are written to its commit log. -/
def commitLogTexts (txn : AgentTxnContext) : List Bytes :=
  [txn.txnId, txn.taskId, txn.winnerBranchId, txn.validationResult.reason] ++
    txn.commitLog.entries.flatMap fun entry => [entry.key, entry.value]

/-- All that is printed in the log is ASCII, and its lines end where the writer ends them. -/
def Legible (txn : AgentTxnContext) (commitLatencyUs : PrintedNumber) : Prop :=
  (∀ text ∈ commitLogTexts txn, (∀ c ∈ text, c < 128) ∧ Whole text) ∧
    commitLatencyUs.text.all isStructural = true

/-- What holds of the characters of the log itself and of those of the texts holds of all of
them. -/
theorem forall_mem_commitLogText (hP : ∀ c, isStructural c = true → P c)
    (hlatency : commitLatencyUs.text.all isStructural = true)
    (htexts : ∀ text ∈ commitLogTexts txn, ∀ c ∈ text, P c) :
    ∀ c ∈ commitLogText txn commitLatencyUs, P c := by
  have hfixed : ∀ {key value : Bytes}, key.all isStructural = true → (∀ c ∈ value, P c) →
      ∀ c ∈ fieldLine (key, value), P c := fun hkey hvalue =>
        forall_mem_line hP (forall_mem_of_all hP hkey) hvalue
  have hname : (txnStatusName txn.status).all isStructural = true := by cases txn.status <;> decide
  have hflag : (if txn.validationResult.success then ascii "1" else ascii "0").all
      isStructural = true := by
    split <;> decide
  simp only [commitLogTexts, List.forall_mem_append, List.forall_mem_cons, List.not_mem_nil,
    false_implies, implies_true, and_true] at htexts
  obtain ⟨⟨htxnId, htaskId, hwinner, hreason⟩, hentries⟩ := htexts
  have hfields : ∀ field ∈ commitLogFields txn commitLatencyUs, ∀ c ∈ fieldLine field, P c := by
    simp only [commitLogFields, List.forall_mem_cons, List.not_mem_nil,
      false_implies, implies_true, and_true]
    exact ⟨hfixed (by decide) (forall_mem_escape hP htxnId),
      hfixed (by decide) (forall_mem_escape hP htaskId), hfixed (by decide)
      (forall_mem_of_all hP hname), hfixed (by decide) (forall_mem_escape hP hwinner),
      hfixed (by decide) (forall_mem_of_all hP hflag),
        hfixed (by decide) (forall_mem_escape hP hreason),
      hfixed (by decide) (forall_mem_decimal hP _), hfixed (by decide) (forall_mem_decimal hP _),
      hfixed (by decide) (forall_mem_decimal hP _), hfixed (by decide) (forall_mem_decimal hP _),
      hfixed (by decide) (forall_mem_decimal hP _), hfixed (by decide) (forall_mem_decimal hP _),
      hfixed (by decide) (forall_mem_decimal hP _),
        hfixed (by decide) (forall_mem_of_all hP hlatency),
      hfixed (by decide) (forall_mem_decimal hP _)⟩
  have hlines : ∀ line ∈ kCommitLogHeader :: ((commitLogFields txn commitLatencyUs).map fieldLine ++
      entriesMarker :: txn.commitLog.entries.map CommitLogEntry.line), ∀ c ∈ line, P c := by
    simp only [List.forall_mem_cons, List.forall_mem_append, List.forall_mem_map]
    refine ⟨forall_mem_of_all hP (by decide), hfields, forall_mem_of_all hP (by decide),
      fun entry hentry => ?_⟩
    have hkey := hentries entry.key (List.mem_flatMap.2 ⟨entry, hentry, by simp⟩)
    have hvalue := hentries entry.value (List.mem_flatMap.2 ⟨entry, hentry, by simp⟩)
    rw [CommitLogEntry.line, List.forall_mem_append, List.forall_mem_cons,
      List.forall_mem_append, List.forall_mem_cons]
    exact ⟨forall_mem_escape hP hkey, hP tab (by decide),
      forall_mem_decimal hP _, hP tab (by decide), forall_mem_escape hP hvalue⟩
  intro c hc
  obtain ⟨line, hline, hc⟩ := List.mem_flatMap.1 hc
  rcases List.mem_append.1 hc with hc | hc
  · exact hlines line hline c hc
  · rw [List.mem_singleton.1 hc]
    exact hP newline (by decide)

/-- What holds of the characters of the log itself: they are ASCII, and end lines where the
writer does. -/
theorem lt_of_isStructural {c : Byte} (h : isStructural c = true) :
    c < 128 ∧ (endsLine c = true → c = newline) := by
  simp only [isStructural, endsLine, newline, tab, Bool.or_eq_true, Bool.and_eq_true,
    decide_eq_true_eq, beq_iff_eq, UInt8.le_iff_toNat_le,
    UInt8.lt_iff_toNat_lt, ← UInt8.toNat_inj] at h ⊢
  simp at h ⊢
  omega

/-- The lines that the script finds in a legible log. -/
theorem splitlines_commitLogText (h : Legible txn commitLatencyUs) :
    readText (commitLogText txn commitLatencyUs) = some (commitLogText txn commitLatencyUs) ∧
      splitlines (commitLogText txn commitLatencyUs) =
        headLines txn commitLatencyUs ++ txn.commitLog.entries.map CommitLogEntry.line := by
  obtain ⟨htexts, hlatency⟩ := h
  have hascii := forall_mem_commitLogText (fun c hc => (lt_of_isStructural hc).1) hlatency
    fun text htext => (htexts text htext).1
  have hends := forall_mem_commitLogText (fun c hc => (lt_of_isStructural hc).2) hlatency
    fun text htext => (htexts text htext).2
  have hreturn : carriageReturn ∉ commitLogText txn commitLatencyUs :=
    fun hmem => absurd (hends carriageReturn hmem (by decide)) (by decide)
  have htext : commitLogText txn commitLatencyUs =
      unlines newline
          (headLines txn commitLatencyUs ++ txn.commitLog.entries.map CommitLogEntry.line) := by
    simp [commitLogText, headLines]
  constructor
  · rw [readText, if_pos (List.all_eq_true.2 fun c hc => decide_eq_true (hascii c hc)),
      universalNewlines_of_notMem hreturn]
  · rw [splitlines_eq_lines hends, htext, lines_unlines]
    rw [List.forall_mem_append]
    exact ⟨newline_notMem_headLines, List.forall_mem_map.2 fun entry _ => entry.newline_notMem_line⟩

/-- An entry as the script holds it. -/
def LoggedEntry.of (entry : CommitLogEntry) : LoggedEntry where
  key := entry.key
  expectedVersion := decimal entry.expectedVersion.toNat
  value := entry.value

/-- No entry is lost, whether or not its value is empty. -/
theorem parseEntries_lines (entries : List CommitLogEntry) :
    parseEntries (entries.map CommitLogEntry.line) = some (entries.map LoggedEntry.of) := by
  induction entries with
  | nil => rfl
  | cons entry entries ih =>
    have hescaped : ∀ s, tab ∉ escapeCommitLogText s := tab_notMem_escape
    have hsplit : entry.line.splitOn tab =
      [escapeCommitLogText entry.key, decimal entry.expectedVersion.toNat,
        escapeCommitLogText entry.value] := by
      rw [CommitLogEntry.line, List.splitOn_append_cons_self_of_not_mem (hescaped _),
        List.splitOn_append_cons_self_of_not_mem (tab_notMem_decimal _),
        List.splitOn_eq_singleton (hescaped _)]
    have hentry : parseEntry entry.line = some (.of entry) := by
      rw [parseEntry, hsplit]
      simp only [unescape, escapeCommitLogText, backslashEscaping.unescape_escape]
      rfl
    rw [List.map_cons, parseEntries, if_neg entry.line_ne.2, hentry, ih]
    rfl

/-- What the script finds in the log of a transaction. -/
def CommitLogDict.of (txn : AgentTxnContext) (commitLatencyUs : PrintedNumber) : CommitLogDict where
  metadata := (writtenCommitLog txn commitLatencyUs).metadata.erase (ascii "entries")
  entries := txn.commitLog.entries.map LoggedEntry.of

/-- The two parts of a text, before and after the first line that is the marker. -/
theorem parts_of_lines {lines fields entries : List Bytes} {header marker : Bytes}
    (hlines : lines = (header :: fields) ++ marker :: entries)
    (hmarker : marker ∉ header :: fields) :
    lines.head? = some header ∧ marker ∈ lines ∧ (lines.take (lines.idxOf marker)).drop 1 = fields ∧
      lines.drop (lines.idxOf marker + 1) = entries := by
  have hindex : lines.idxOf marker = (header :: fields).length := by
    rw [hlines, List.idxOf_append, if_neg hmarker, List.idxOf_cons_self, Nat.zero_add]
  refine ⟨by simp [hlines], by simp [hlines], ?_, ?_⟩
  · rw [hindex, hlines, List.take_left]
    rfl
  · rw [hindex, hlines, ← List.drop_drop, List.drop_left]
    rfl

theorem parseCommitLog_text (h : Legible txn commitLatencyUs) :
    parseCommitLog (some (commitLogText txn commitLatencyUs)) = some (.of txn commitLatencyUs) := by
  obtain ⟨hread, hlines⟩ := splitlines_commitLogText h
  have hmarker : entriesMarker ∉ kCommitLogHeader :: (commitLogFields txn commitLatencyUs).map
      fieldLine := by
    rw [List.mem_cons, List.mem_map, not_or]
    refine ⟨by decide, ?_⟩
    rintro ⟨field, -, heq⟩
    exact fieldLine_ne_marker field heq
  have hsplit : splitlines (commitLogText txn commitLatencyUs) =
      (kCommitLogHeader :: (commitLogFields txn commitLatencyUs).map fieldLine) ++
        entriesMarker :: txn.commitLog.entries.map CommitLogEntry.line := by
    rw [hlines, headLines]
    simp
  obtain ⟨hhead, hmem, htake, hdrop⟩ := parts_of_lines hsplit hmarker
  have hfields : ∀ field ∈ commitLogFields txn commitLatencyUs, LogField.WellFormed field := by
    intro field hfield
    obtain ⟨hkey, hkeyLine, hvalueLine⟩ :=
      readsBack_commitLogFields txn commitLatencyUs field hfield
    exact ⟨hkey, hkeyLine, hvalueLine⟩
  have hmetadata : parseMetadata ((commitLogFields txn commitLatencyUs).map fieldLine) ∅ =
      some (writtenCommitLog txn commitLatencyUs).metadata := parseMetadata_fields hfields ∅
  simp only [parseCommitLog, Option.bind_some, hread, Option.bind_eq_bind, hhead,
    hmem, htake, hdrop, hmetadata, parseEntries_lines]
  rfl

theorem lookup_commitLog {key value : Bytes}
    (hmem : (key, value) ∈ commitLogFields txn commitLatencyUs) (hkey : key ≠ ascii "entries") :
    (CommitLogDict.of txn commitLatencyUs).metadata.lookup key =
      some (unescapeCommitLogText value) := by
  rw [CommitLogDict.of, AList.lookup_erase_ne hkey,
    lookup_writtenCommitLog txn commitLatencyUs hmem]

/-- The row tells how the transaction has ended, and there are entries exactly if it has been
committed. -/
structure TellsEntries (txn : AgentTxnContext) (committed : ℤ) : Prop where
  accepted : committed = 1 → txn.status = .committed ∧ txn.commitLog.entries ≠ []
  refused : committed = 0 → txn.status = .aborted ∧ txn.commitLog.entries = []

theorem verifyCommitLog_log (committed : ℤ) :
    verifyCommitLog committed (.of txn commitLatencyUs) = some () ↔ TellsEntries txn committed := by
  have hcount : (CommitLogDict.of txn commitLatencyUs).metadata.lookup (ascii "entry_count") =
      some (decimal txn.commitLog.entries.length) := by
    have hmem : (ascii "entry_count", decimal txn.commitLog.entries.length) ∈ commitLogFields
        txn commitLatencyUs := by
      simp [commitLogFields]
    rw [lookup_commitLog hmem (by decide)]
    exact congrArg some (unescape_decimal _)
  have hstatus : (CommitLogDict.of txn commitLatencyUs).metadata.lookup (ascii "status") =
      some (txnStatusName txn.status) := by
    have hmem : (ascii "status", txnStatusName txn.status) ∈ commitLogFields txn
        commitLatencyUs := by simp [commitLogFields]
    rw [lookup_commitLog hmem (by decide)]
    cases txn.status <;> decide
  have hnames : (txnStatusName txn.status = ascii "COMMITTED" ↔ txn.status = .committed) ∧
      (txnStatusName txn.status = ascii "ABORTED" ↔ txn.status = .aborted) := by
    cases txn.status <;> decide
  have hlength : (CommitLogDict.of txn commitLatencyUs).entries.length =
      txn.commitLog.entries.length := List.length_map _
  have hzero : (txn.commitLog.entries.length : ℤ) = 0 ↔ txn.commitLog.entries = [] := by simp
  have hfew : (txn.commitLog.entries.length : ℤ) < 1 ↔ txn.commitLog.entries = [] := by
    rw [← hzero]
    omega
  simp only [verifyCommitLog, hcount, hstatus, Option.getD_some, pythonInt_decimal,
    Option.bind_eq_bind, Option.bind_some, Option.ite_none_left_eq_some, hlength, ne_eq,
    Option.some.injEq, hnames.1, hnames.2, hzero, hfew]
  constructor
  · rintro ⟨haccepted, hrefused, -, hsome, hnone, -⟩
    exact ⟨fun hrow => ⟨not_not.1 fun h => haccepted ⟨hrow, h⟩, fun h => hsome ⟨hrow, h⟩⟩,
      fun hrow => ⟨not_not.1 fun h => hrefused ⟨hrow, h⟩, not_not.1 fun h => hnone ⟨hrow, h⟩⟩⟩
  · rintro ⟨haccepted, hrefused⟩
    exact ⟨fun h => h.2 (haccepted h.1).1, fun h => h.2 (hrefused h.1).1, not_not.2 trivial,
      fun h => (haccepted h.1).2 h.2, fun h => h.2 (hrefused h.1).2, trivial⟩

/-! ### A transaction that has been committed -/

variable {config : FallbackCommitRuntimeConfig} {session session' : TaskSession} {outcome : Bool}

/-- The commit of a session that returns has committed its transaction, and touches it no
further. -/
theorem exists_commit_of_commitTask {calls : List (Event Call World)}
    (h : (session.commitTask config).Interfered (handle kind) calls (.ok outcome, session')) :
    ∃ committing, (selectWinnerAndCommit session.txn).Interfered (handle kind) committing
      (.ok outcome, session'.txn) := by
  obtain ⟨committing, ⟨result, txn⟩, rest, rfl, hcommit, h⟩ := Program.interfered_bind.1 h
  cases result with
  | error what =>
    obtain ⟨-, heq⟩ := Program.interfered_ret.1 h
    cases heq
  | ok committed =>
    obtain ⟨finalizing, finalized, ending, rfl, hfinalize, h⟩ := Program.interfered_bind.1 h
    cases finalized with
    | error what =>
      obtain ⟨-, heq⟩ := Program.interfered_ret.1 h
      cases heq
    | ok ended =>
      obtain ⟨-, heq⟩ := Program.interfered_ret.1 h
      cases heq
      obtain ⟨htxn, -, -⟩ := (returns_finalize config _).interfered hfinalize _ rfl
      refine ⟨committing, ?_⟩
      rw [htxn]
      cases outcome <;> exact hcommit

/-- The log of a transaction whose first commit has returned, whoever else writes, passes under a
row that tells what it has returned, unless it has committed a winner that writes nothing. -/
theorem verifyCommitLog_commitTask {calls : List (Event Call World)}
    (hempty : session.txn.commitLog.entries = [])
    (hcommit : (session.commitTask config).Interfered (handle kind) calls (.ok outcome, session'))
    (metrics : TxnMetrics) (hlegible : Legible { session'.txn with metrics } commitLatencyUs)
    (path : Bytes) (w : World) :
    let w' := ((writeCommitLogArtifact { session'.txn with metrics } commitLatencyUs path).run
      (handle kind) w).2
    (parseCommitLog (w'.files.lookup path)).bind
      (verifyCommitLog (if outcome then 1 else 0)) = some () ↔
      (outcome = true → ∃ winner, Selects session.txn winner ∧ writtenEntries winner ≠ []) := by
  intro w'
  have hfile : w'.files.lookup path =
      some (commitLogText { session'.txn with metrics } commitLatencyUs) := AList.lookup_insert _
  obtain ⟨committing, hselect⟩ := exists_commit_of_commitTask hcommit
  have hstatus := ((returns_selectWinnerAndCommit session.txn).interfered hselect).1
  have hbranches : session.txn.branches ≠ [] := by
    intro hnone
    rw [selectWinnerAndCommit, hnone] at hselect
    obtain ⟨-, heq⟩ := Program.interfered_ret.1 hselect
    cases heq
  obtain ⟨winner, hs⟩ := exists_selects hbranches
  have hentries := entries_selectWinnerAndCommit hs hselect
  rw [hfile, parseCommitLog_text hlegible, Option.bind_some, verifyCommitLog_log, hs.exists_iff]
  cases outcome with
  | true =>
    have hsame : session'.txn.commitLog.entries ≠ [] ↔ writtenEntries winner ≠ [] := by
      rw [← List.length_pos_iff, hentries, if_pos rfl, List.length_pos_iff]
    constructor
    · exact fun htells _ => hsame.1 (htells.accepted rfl).2
    · exact fun hwrites =>
        ⟨fun _ => ⟨hstatus, hsame.2 (hwrites rfl)⟩, fun h => absurd h (by decide)⟩
  | false =>
    have hnone : session'.txn.commitLog.entries.length = 0 :=
      hentries.trans (congrArg List.length hempty)
    exact iff_of_true
      ⟨fun h => absurd h (by decide), fun _ => ⟨hstatus, List.length_eq_zero_iff.1 hnone⟩⟩
      fun h => absurd h Bool.false_ne_true

/-- Of two branches the one that has overwritten an object commits. -/
theorem verifyCommitLog_commitTask_rivalsWorked :
    let ended := ((rivalsWorked.commitTask {}).run (handle .memory) {}).1.2
    let w' := ((writeCommitLogArtifact ended.txn ⟨ascii "0", newline_notMem_zero⟩
      (ascii "1.commit.log")).run (handle .memory) {}).2
    (parseCommitLog (w'.files.lookup (ascii "1.commit.log"))).bind (verifyCommitLog 1) =
        some () := by
  intro ended w'
  have hcommit := Program.interfered_run (h := handle .memory) (rivalsWorked.commitTask {}) {}
  have hout : ((rivalsWorked.commitTask {}).run (handle .memory) {}).1 = (.ok true, ended) := rfl
  rw [hout] at hcommit
  have hlegible : Legible { ended.txn with metrics := ended.txn.metrics }
      ⟨ascii "0", newline_notMem_zero⟩ := by
    unfold Legible Whole
    decide +kernel
  refine (@verifyCommitLog_commitTask _ _ {} rivalsWorked ended true _ rfl hcommit
    ended.txn.metrics hlegible
    (ascii "1.commit.log") {}).2 fun _ => ?_
  exact ⟨rivalsWorked.txn.branches.getLast (by decide), ⟨rfl, rfl⟩, by decide⟩

end DataAgentSystem.Experiments
