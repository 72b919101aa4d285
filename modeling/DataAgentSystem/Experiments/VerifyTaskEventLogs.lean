import DataAgentSystem.Experiments.TaskLogReaders
import DataAgentSystem.Runtime.OutcomeRecords
import DataAgentSystem.Text.Csv

/-! The script `verify_task_event_logs.py`, which goes through a table of results and checks
the event log of each task. It holds each log against the row of its task: the events
are numbered, the first one is the submission and the last one the outcome that the
row tells. A session that has been committed, with or without success, passes. -/

namespace DataAgentSystem.Experiments

open Text Containers Storage Interaction DataAgentSystem.Runtime

/-- The loop over the events of a log from the given index on. -/
def inSequence : ℕ → List LoggedEvent → Bool
  | _, [] => true
  | index, event :: events => event.sequenceNumber = index && inSequence (index + 1) events

/-- The checks at the end, which depend on the outcome that the row tells. -/
def verifyOutcome (committed : ℤ) (log : TaskLog) (finalEvent : LoggedEvent) : Option Unit :=
  if committed = 1 then
    if log.metadata.lookup (ascii "committed") ≠ some (ascii "1") then none
    else if finalEvent.eventType ≠ ascii "COMMIT_TASK" then none
    else some ()
  else if log.metadata.lookup (ascii "committed") ≠ some (ascii "0") then none
  else if finalEvent.eventType ≠ ascii "ABORT_TASK" then none
  else some ()

/-- One round of the loop over the rows, from the log on. -/
def verifyTaskEventLog (taskId : Option Bytes) (committed : ℤ) (log : TaskLog) : Option Unit :=
  if log.metadata.lookup (ascii "task_id") ≠ taskId then none
  else do
    let commitAttempts ← pythonInt
      ((log.metadata.lookup (ascii "commit_attempts")).getD (ascii "0"))
    if commitAttempts < 1 then none
    else
      let eventCount ← pythonInt ((log.metadata.lookup (ascii "event_count")).getD (ascii "0"))
      if eventCount ≠ log.events.length then none
      else
        let firstEvent ← log.events.head?
        let finalEvent ← log.events.getLast?
        if firstEvent.eventType ≠ ascii "SUBMIT_TASK" then none
        else if finalEvent.eventType ≠ ascii "COMMIT_TASK" ∧
            finalEvent.eventType ≠ ascii "ABORT_TASK" then none
        else if ¬inSequence 0 log.events then none
        else verifyOutcome committed log finalEvent

def taskLogPath (taskLogDir : Bytes) (taskId : Option Bytes) : Bytes :=
  taskLogDir ++ ascii "/" ++ formatCell taskId ++ ascii ".task.log"

/-- `main`, on the contents of the table and the files below the directory. -/
def verifyTaskEventLogs (results : Option Bytes) (taskLogDir : Bytes) (files : UnorderedMap Bytes) :
    Option Unit := do
  let table ← results.bind csvTable
  table.rows.forM fun row => do
    let taskId ← (table.record row).lookup (ascii "task_id")
    let committed ← ((table.record row).lookup (ascii "committed")).join.bind pythonInt
    verifyTaskEventLog taskId committed
      (← parseTaskLog (files.lookup (taskLogPath taskLogDir taskId)))

variable {session session' : TaskSession} {metadata : List (Bytes × Bytes)}
  {taskId : Bytes} {committed : ℤ} {config : FallbackCommitRuntimeConfig} {kind : StoreKind}

/-! ### The log of a session -/

/-- The row tells how the last commit of the session has ended, which has been the last
operation. -/
structure TellsCommit (session : TaskSession) (taskId : Bytes) (committed : ℤ) : Prop where
  taskId : taskId = session.task.taskId
  attempted : ∃ event ∈ session.events, event.type = .commitAttempt
  outcome : session.committed = decide (committed = 1)
  ended : session.events.getLast?.map TaskEvent.type =
    some (if committed = 1 then .commitTask else .abortTask)

theorem inSequence_eq_true_iff {events : List LoggedEvent} {index : ℕ} :
    inSequence index events = true ↔
    ∀ (i : ℕ) event, events[i]? = some event → event.sequenceNumber = (index : ℤ) + i := by
  induction events generalizing index with
  | nil => simp [inSequence]
  | cons event events ih =>
    rw [inSequence, Bool.and_eq_true, decide_eq_true_eq, ih]
    constructor
    · rintro ⟨hfirst, hrest⟩ i event' hevent
      cases i with
      | zero =>
        obtain rfl : event = event' := Option.some.inj hevent
        simpa using hfirst
      | succ i =>
        rw [hrest i event' hevent]
        push_cast
        omega
    · intro hall
      refine ⟨by simpa using hall 0 event rfl, fun i event' hevent => ?_⟩
      rw [hall (i + 1) event' hevent]
      push_cast
      omega

/-- The events of a session are in sequence, so long as their number fits. -/
theorem inSequence_events (hagree : RecordsAgree session)
    (hlength : session.events.length ≤ 2 ^ 64) :
    inSequence 0 ((session.events.map TaskEvent.parsed).map LoggedEvent.of) = true := by
  rw [inSequence_eq_true_iff]
  intro i logged hlogged
  rw [List.map_map, List.getElem?_map, Option.map_eq_some_iff] at hlogged
  obtain ⟨event, hevent, rfl⟩ := hlogged
  have hlt : i < session.events.length := (List.getElem?_eq_some_iff.1 hevent).1
  show (event.sequenceNumber.toNat : ℤ) = _
  rw [hagree.events.numbered i event hevent,
    UInt64.toNat_ofNat_of_lt' (by simp [UInt64.size]; omega)]
  simp

/-- Nor does the number of attempts overflow, as the first event is none. -/
theorem commitAttempts_pos_iff (hagree : RecordsAgree session)
    (hlength : session.events.length ≤ 2 ^ 64) :
    ¬(session.commitAttempts.toNat : ℤ) < 1 ↔ ∃ event ∈ session.events,
      event.type = .commitAttempt := by
  obtain ⟨first, hfirst, hbegun⟩ := Option.map_eq_some_iff.1 hagree.events.begun
  obtain ⟨rest, hsplit⟩ := List.head?_eq_some_iff.1 hfirst
  have hfew : session.events.countP (fun event => event.type = .commitAttempt) < 2 ^ 64 := by
    have hrest := List.countP_le_length
        (p := fun event : TaskEvent => decide (event.type = .commitAttempt)) (l := rest)
    rw [hsplit, List.countP_cons_of_neg (by simp [hbegun])]
    rw [hsplit, List.length_cons] at hlength
    omega
  rw [hagree.events.attempts, UInt64.toNat_ofNat_of_lt' (by simpa [UInt64.size] using hfew)]
  have hpos : 0 < session.events.countP (fun event => event.type = .commitAttempt) ↔
      ∃ event ∈ session.events, event.type = .commitAttempt := by simp [List.countP_pos_iff]
  rw [← hpos]
  omega

theorem taskEventTypeName_injective : Function.Injective taskEventTypeName :=
  Function.LeftInverse.injective taskEventTypeFromName_taskEventTypeName

/-- A value of the log under its key, as the script holds it. -/
theorem lookup_log {key value : Bytes} (hmem : (key, value) ∈ logFields session metadata)
    (hkey : key ≠ ascii "events") :
    (TaskLog.of (writtenArtifact session metadata)).metadata.lookup key =
      some (unescapeTaskEventLogText value) := by
  rw [lookup_of _ hkey, lookup_writtenArtifact session metadata hmem]

theorem eventType_eq_iff (event : TaskEvent) (type : TaskEventType) :
    (LoggedEvent.of event.parsed).eventType = taskEventTypeName type ↔ event.type = type :=
  taskEventTypeName_injective.eq_iff

theorem verifyOutcome_log (event : TaskEvent) :
    verifyOutcome committed (.of (writtenArtifact session metadata)) (.of event.parsed) = some () ↔
      session.committed = decide (committed = 1) ∧ event.type = if committed = 1 then .commitTask
        else .abortTask := by
  have hcommit := eventType_eq_iff event .commitTask
  have habort := eventType_eq_iff event .abortTask
  simp only [taskEventTypeName] at hcommit habort
  have hflags : ascii "0" ≠ ascii "1" := by decide
  rw [verifyOutcome, lookup_of _ (by decide), lookup_committed]
  simp only [ne_eq, hcommit, habort]
  by_cases hrow : committed = 1 <;> cases session.committed <;> simp [hrow, hflags, hflags.symm]

/-- The checks pass exactly if the row tells how the session has ended. -/
theorem verifyTaskEventLog_log (hagree : RecordsAgree session)
    (hlength : session.events.length ≤ 2 ^ 64) :
    verifyTaskEventLog (some taskId) committed (.of (writtenArtifact session metadata)) = some () ↔
      TellsCommit session taskId committed := by
  have htaskId : (TaskLog.of (writtenArtifact session metadata)).metadata.lookup (ascii "task_id") =
      some session.task.taskId := by
    have hmem : (ascii "task_id", escapeTaskEventLogText session.task.taskId) ∈ logFields session
        metadata := by simp [logFields]
    rw [lookup_log hmem (by decide), unescape_escapeTaskEventLogText]
  have hattempts : (TaskLog.of (writtenArtifact session metadata)).metadata.lookup
    (ascii "commit_attempts") =
      some (decimal session.commitAttempts.toNat) := by
    rw [lookup_of _ (by decide), lookup_commitAttempts]
  have hcount : (TaskLog.of (writtenArtifact session metadata)).metadata.lookup
    (ascii "event_count") =
      some (decimal session.events.length) := by
    have hmem : (ascii "event_count", decimal session.events.length) ∈ logFields session
        metadata := by simp [logFields]
    rw [lookup_log hmem (by decide), unescape_decimal]
  have hcommitted : (TaskLog.of (writtenArtifact session metadata)).metadata.lookup
    (ascii "committed") =
      some (if session.committed then ascii "1" else ascii "0") := by
    rw [lookup_of _ (by decide), lookup_committed]
  have hevents : (TaskLog.of (writtenArtifact session metadata)).events =
      (session.events.map TaskEvent.parsed).map LoggedEvent.of := rfl
  obtain ⟨first, hfirst, hbegun⟩ := Option.map_eq_some_iff.1 hagree.events.begun
  have hne : session.events ≠ [] := by
    rintro hnil
    rw [hnil] at hfirst
    cases hfirst
  have hlast := List.getLast?_eq_some_getLast hne
  simp only [verifyTaskEventLog, htaskId, hattempts, hcount, hevents, Option.getD_some,
    pythonInt_decimal, List.length_map, List.head?_map, List.getLast?_map, hfirst, hlast,
    inSequence_events hagree hlength, Option.bind_eq_bind, Option.bind_some,
    Option.map_some, Option.ite_none_left_eq_some, verifyOutcome_log]
  have hsubmit : (LoggedEvent.of first.parsed).eventType = ascii "SUBMIT_TASK" :=
    (eventType_eq_iff first .submitTask).2 hbegun
  have hattempted := commitAttempts_pos_iff hagree hlength
  constructor
  · rintro ⟨hid, hattempt, -, -, -, -, houtcome, hended⟩
    refine ⟨(Option.some.inj (not_not.1 hid)).symm, hattempted.1 hattempt, houtcome, ?_⟩
    rw [hlast, Option.map_some, hended]
  · rintro ⟨hid, hattempt, houtcome, hended⟩
    rw [hlast, Option.map_some, Option.some.injEq] at hended
    refine ⟨by simp [hid], hattempted.2 hattempt, by simp, by simp [hsubmit], ?_, by simp, houtcome, hended⟩
    rintro ⟨hcommit, habort⟩
    have hnames := eventType_eq_iff (session.events.getLast hne)
    by_cases hrow : committed = 1
    · exact hcommit ((hnames .commitTask).2 (by rw [hended, if_pos hrow]))
    · exact habort ((hnames .abortTask).2 (by rw [hended, if_neg hrow]))

/-! ### A session that has been committed -/

/-- What a commit that returns leaves in the session. -/
structure Concludes (session : TaskSession) (outcome : Bool) (session' : TaskSession) : Prop where
  taskId : session'.task.taskId = session.task.taskId
  attempted : ∃ event ∈ session'.events, event.type = .commitAttempt
  committed : session'.committed = outcome
  ended : session'.events.getLast?.map TaskEvent.type =
    some (if outcome then .commitTask else .abortTask)

theorem returns_finalize_concludes (config : FallbackCommitRuntimeConfig) {concluded : TaskSession}
    {outcome : Bool} (h : Concludes session outcome concluded) :
    (concluded.finalize config).Returns fun r => ∀ ended, r = .ok ended →
      Concludes session outcome ended := by
  refine (Program.returns_true _).bind fun finalized _ => ?_
  cases finalized with
  | error what => exact forall_ok_error what
  | ok finalized =>
    simp only
    split
    · rintro _ ⟨⟩
      exact h
    · rintro _ ⟨⟩
      exact ⟨h.taskId, h.attempted, h.committed, h.ended⟩

theorem returns_commitTask_concludes (config : FallbackCommitRuntimeConfig)
    (session : TaskSession) :
    (session.commitTask config).Returns fun out => ∀ outcome, out.1 = .ok outcome →
      Concludes session outcome out.2 := by
  refine (Program.returns_true _).bind fun selected _ => ?_
  obtain ⟨result, txn⟩ := selected
  cases result with
  | error what => exact forall_ok_error what
  | ok outcome =>
    have hconcluded : Concludes session outcome
        (({ session.attempt with txn } : TaskSession).conclude outcome) := by
      obtain ⟨event, hevent, htype⟩ : ∃ event ∈ session.attempt.events,
          event.type = .commitAttempt :=
        ⟨_, List.mem_append_right _ (List.mem_singleton_self _), rfl⟩
      cases outcome with
      | true =>
        exact ⟨rfl, ⟨event, List.mem_append_left _ hevent, htype⟩,
          rfl, by simp [TaskSession.conclude, TaskSession.recordEvent]⟩
      | false =>
        exact ⟨rfl, ⟨event, List.mem_append_left _ hevent, htype⟩,
          rfl, by simp [TaskSession.conclude, TaskSession.recordEvent]⟩
    refine (returns_finalize_concludes config hconcluded).bind fun r hr => ?_
    cases r with
    | error what => exact forall_ok_error what
    | ok ended =>
      rintro _ ⟨⟩
      exact hr ended rfl

theorem records_of_reached (h : SessionReached session) : RecordsAgree session := by
  induction h with
  | submitted hsubmit => exact ((recordsAgree_submitTask _ _ _).interfered hsubmit _ rfl).1
  | operated _ hstep ih => exact hstep.performed.recordsAgree ih
  | recovered _ hlog hbuild hexecute ih =>
    exact ((executionAgrees_of_build hlog ih hbuild).kept _).returns.interfered hexecute

/-- Whatever has happened to a session before, and whoever else writes: once a commit of it has
returned, its log passes exactly under a row that tells what the commit has returned. -/
theorem verifyTaskEventLog_commitTask {calls : List (Event Call World)} {outcome : Bool}
    {w : World} {path : Bytes} (hreached : SessionReached session)
    (hcommit : (session.commitTask config).Interfered (handle kind) calls (.ok outcome, session'))
    (hlog : HoldsLog w path session') (hascii : IsAscii session') (hunbroken : Unbroken session')
    (hlength : session'.events.length ≤ 2 ^ 64) (taskId : Bytes) (committed : ℤ) :
    (parseTaskLog (w.files.lookup path)).bind
      (verifyTaskEventLog (some taskId) committed) = some () ↔
      taskId = session.task.taskId ∧ decide (committed = 1) = outcome := by
  obtain ⟨metadata, hmetadata, hfile⟩ := hlog
  have hperformed : (SessionOp.perform config session .commitTask).Interfered
      (handle kind) calls session' :=
    Program.interfered_bind.2
      ⟨calls, _, [], (List.append_nil _).symm, hcommit, Program.interfered_ret.2 ⟨rfl, rfl⟩⟩
  have hreached' : SessionReached session' :=
    .operated hreached ⟨config, kind, .commitTask, calls, hperformed⟩
  have hconcludes := (returns_commitTask_concludes config session).interfered hcommit outcome rfl
  rw [hfile, parseTaskLog_text hmetadata hascii hunbroken, Option.bind_some,
    verifyTaskEventLog_log (records_of_reached hreached') hlength]
  constructor
  · intro htells
    exact ⟨htells.taskId.trans hconcludes.taskId, htells.outcome.symm.trans hconcludes.committed⟩
  · rintro ⟨hid, rfl⟩
    refine ⟨hid.trans hconcludes.taskId.symm, hconcludes.attempted, hconcludes.committed, ?_⟩
    rw [hconcludes.ended]
    simp

/-- A task that is committed as soon as it is submitted. -/
theorem verifyTaskEventLog_commitTask_noted :
    let ended := ((noted.commitTask {}).run (handle .memory) {}).1.2
    (parseTaskLog ((loggedIn {} ended).files.lookup (ascii "log"))).bind
        (verifyTaskEventLog (some noteTask.taskId) 1) = some () := by
  intro ended
  have hcommit := Program.interfered_run (h := handle .memory) (noted.commitTask {}) {}
  have hout : ((noted.commitTask {}).run (handle .memory) {}).1 = (.ok true, ended) := rfl
  rw [hout] at hcommit
  have hlog : HoldsLog (loggedIn {} ended) (ascii "log") ended :=
    holdsLog_writeTaskEventLogArtifact (List.Perm.refl _) .memory (ascii "log") {}
  have hascii : IsAscii ended := by unfold IsAscii; decide +kernel
  have hunbroken : Unbroken ended := by unfold Unbroken Whole; decide +kernel
  exact (verifyTaskEventLog_commitTask reached_noted hcommit hlog hascii hunbroken (by decide)
    noteTask.taskId 1).2 ⟨rfl, rfl⟩

end DataAgentSystem.Experiments
