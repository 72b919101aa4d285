import DataAgentSystem.Runtime.TaskRecovery
import DataAgentSystem.Text.NumberedKeys

/-! The event log of a session: a header, a line for each field of the session and its
task, and a line for each event. The reader finds every field under its key, as no
key is written twice, and every event in its place. -/

namespace DataAgentSystem.Runtime

open Text Containers Storage Interaction

def escapeTaskEventLogText (input : Bytes) : Bytes := backslashEscaping.escape input

def taskEventTypeName : TaskEventType → Bytes
  | .submitTask => ascii "SUBMIT_TASK"
  | .createBranch => ascii "CREATE_BRANCH"
  | .read => ascii "READ"
  | .write => ascii "WRITE"
  | .savepoint => ascii "SAVEPOINT"
  | .rollbackToSavepoint => ascii "ROLLBACK_TO_SAVEPOINT"
  | .stageBranch => ascii "STAGE_BRANCH"
  | .commitAttempt => ascii "COMMIT_ATTEMPT"
  | .commitTask => ascii "COMMIT_TASK"
  | .abortTask => ascii "ABORT_TASK"

/-- The number of a phase in the log. -/
def taskPhaseValue : TaskPhase → ℕ
  | .created => 0
  | .running => 1
  | .committed => 2
  | .aborted => 3

/-- A field of the log: its key and its value as written. -/
abbrev LogField := Bytes × Bytes

def LogField.line (field : LogField) : Bytes := field.1 ++ 61 :: field.2

/-- The number of some pairs, and for each of them two fields that are numbered alike. -/
def listFields (start first second : Bytes) (items : List (Bytes × Bytes)) : List LogField :=
  (start ++ ascii "count", decimal items.length) :: items.zipIdx.flatMap fun (item, i) =>
    [(start ++ decimal i ++ first, escapeTaskEventLogText item.1),
      (start ++ decimal i ++ second, escapeTaskEventLogText item.2)]

def objectFields (label : Bytes) (objects : List ObjectReference) : List LogField :=
  listFields (label ++ ascii "_object_") (ascii "_id") (ascii "_role")
    (objects.map fun object => (object.objectId, object.objectRole))

/-- `WriteTaskContextMetadataLines`, with the metadata in some order. -/
def taskContextFields (task : TaskContext) (metadata : List (Bytes × Bytes)) : List LogField :=
  objectFields (ascii "input") task.inputObjects ++
    (objectFields (ascii "output") task.outputObjects ++
      listFields (ascii "task_metadata_") (ascii "_key") (ascii "_value") metadata)

def logFields (session : TaskSession) (metadata : List (Bytes × Bytes)) : List LogField :=
  [(ascii "task_id", escapeTaskEventLogText session.task.taskId),
    (ascii "txn_id", escapeTaskEventLogText session.txn.txnId),
    (ascii "workload_name", escapeTaskEventLogText session.task.workloadName),
    (ascii "planner_id", escapeTaskEventLogText session.task.plannerId)] ++
  (taskContextFields session.task metadata ++
    [(ascii "task_phase", decimal (taskPhaseValue session.task.phase)),
      (ascii "commit_attempts", decimal session.commitAttempts.toNat),
      (ascii "committed", if session.committed then ascii "1" else ascii "0"),
      (ascii "event_count", decimal session.events.length)])

def TaskEvent.line (event : TaskEvent) : Bytes :=
  decimal event.sequenceNumber.toNat ++ tab :: (taskEventTypeName event.type ++ tab ::
    (escapeTaskEventLogText event.branchId ++
      tab :: (escapeTaskEventLogText event.objectId ++ tab ::
        (signedDecimal event.numericValue.toInt ++ tab :: escapeTaskEventLogText event.detail))))

def taskEventLogText (session : TaskSession) (metadata : List (Bytes × Bytes)) : Bytes :=
  unlines newline (kTaskEventLogHeader ::
    ((logFields session metadata).map LogField.line ++
      eventsMarker :: session.events.map TaskEvent.line))

/-- The log is written in place; a crash in the middle of that is not modelled. -/
def writeTaskEventLogArtifact (session : TaskSession) (metadata : List (Bytes × Bytes))
    (outputPath : Bytes) :
    Prog Bool := Files.replace outputPath (taskEventLogText session metadata)

/-- The log of the session is on disk, whole, with its metadata in one order or another. -/
def HoldsLog (w : World) (path : Bytes) (session : TaskSession) : Prop :=
  ∃ metadata, UnorderedMap.Iterates session.task.metadata metadata ∧
    w.files.lookup path = some (taskEventLogText session metadata)

theorem holdsLog_writeTaskEventLogArtifact {session : TaskSession} {metadata : List (Bytes × Bytes)}
    (hmetadata : UnorderedMap.Iterates session.task.metadata metadata) (kind : StoreKind)
    (path : Bytes) (w : World) :
    HoldsLog ((writeTaskEventLogArtifact session metadata path).run (handle kind) w).2
      path session :=
  ⟨metadata, hmetadata, AList.lookup_insert _⟩

/-! ### Lines -/

/-- A field whose line is read as it was written. -/
structure LogField.WellFormed (field : LogField) : Prop where
  key : (61 : Byte) ∉ field.1
  keyLine : newline ∉ field.1
  valueLine : newline ∉ field.2

theorem taskEventTypeFromName_taskEventTypeName (type : TaskEventType) :
    taskEventTypeFromName (taskEventTypeName type) = type := by cases type <;> decide

theorem notMem_taskEventTypeName (type : TaskEventType) :
    tab ∉ taskEventTypeName type ∧ newline ∉ taskEventTypeName type := by cases type <;> decide

theorem unescape_decimal (n : ℕ) : unescapeTaskEventLogText (decimal n) = decimal n :=
  backslashEscaping.unescape_of_notMem (notMem_decimal (by decide) n)

theorem unescape_escapeTaskEventLogText (input : Bytes) :
    unescapeTaskEventLogText (escapeTaskEventLogText input) = input :=
  backslashEscaping.unescape_escape input

theorem LogField.WellFormed.line_ne {field : LogField} (h : (61 : Byte) ∉ eventsMarker) :
    field.line ≠ eventsMarker ∧ field.line ≠ [] := by
  have hmem : (61 : Byte) ∈ field.line := by simp [line]
  exact ⟨fun heq => h (heq ▸ hmem), List.ne_nil_of_mem hmem⟩

theorem LogField.WellFormed.newline_notMem {field : LogField} (h : field.WellFormed) :
    newline ∉ field.line := by
  simp [line, h.keyLine, h.valueLine, show newline ≠ (61 : Byte) by decide]

/-- The event that is read from the line of an event. -/
def TaskEvent.parsed (event : TaskEvent) : ParsedTaskEvent where
  sequenceNumber := event.sequenceNumber
  eventType := taskEventTypeName event.type
  branchId := event.branchId
  objectId := event.objectId
  numericValue := event.numericValue
  detail := event.detail

namespace TaskEvent

theorem tab_mem_line (event : TaskEvent) : tab ∈ event.line := by simp [line]

theorem line_ne (event : TaskEvent) : event.line ≠ eventsMarker ∧ event.line ≠ [] := by
  have hmarker : tab ∉ eventsMarker := by decide
  exact ⟨fun heq => hmarker (heq ▸ event.tab_mem_line), List.ne_nil_of_mem event.tab_mem_line⟩

theorem newline_notMem_line (event : TaskEvent) : newline ∉ event.line := by
  have htab : newline ≠ tab := by decide
  have hnumber : newline ∉ signedDecimal event.numericValue.toInt :=
    notMem_signedDecimal (by decide) (by decide) _
  have hsequence : newline ∉ decimal event.sequenceNumber.toNat := notMem_decimal (by decide) _
  simp only [line, escapeTaskEventLogText, List.mem_append, List.mem_cons,
    newline_notMem_escape, hsequence, (notMem_taskEventTypeName event.type).2, htab, hnumber,
    or_self, not_false_eq_true]

/-- The fields of the line of an event, which hold no tab. -/
theorem splitOn_line (event : TaskEvent) :
    event.line.splitOn tab = [decimal event.sequenceNumber.toNat, taskEventTypeName event.type,
      escapeTaskEventLogText event.branchId, escapeTaskEventLogText event.objectId,
      signedDecimal event.numericValue.toInt, escapeTaskEventLogText event.detail] := by
  have hescaped : ∀ s, tab ∉ escapeTaskEventLogText s := tab_notMem_escape
  have hnumber : tab ∉ signedDecimal event.numericValue.toInt :=
    notMem_signedDecimal (by decide) (by decide) _
  rw [line, List.splitOn_append_cons_self_of_not_mem (notMem_decimal (by decide) _),
    List.splitOn_append_cons_self_of_not_mem (notMem_taskEventTypeName event.type).1,
    List.splitOn_append_cons_self_of_not_mem (hescaped _),
      List.splitOn_append_cons_self_of_not_mem (hescaped _),
    List.splitOn_append_cons_self_of_not_mem hnumber, List.splitOn_eq_singleton (hescaped _)]

/-- An event is read back from its line. -/
theorem readEvent_line (event : TaskEvent) :
    ParsedTaskEventLogArtifact.readEvent event.line = some event.parsed := by
  rw [ParsedTaskEventLogArtifact.readEvent, splitOn_line]
  simp only [unescape_escapeTaskEventLogText, strtoull_decimal, strtoll_signedDecimal]
  rfl

theorem restoreEvent_parsed (event : TaskEvent) : restoreEvent event.parsed = event := by
  cases event
  simp only [restoreEvent, parsed, taskEventTypeFromName_taskEventTypeName]

end TaskEvent

/-! ### Keys -/

theorem map_key_listFields (start first second : Bytes) (items : List (Bytes × Bytes)) :
    (listFields start first second items).map Prod.fst =
      (start ++ ascii "count") :: numberedKeys start [first, second] items.length := by
  rw [listFields, List.map_cons, List.map_flatMap, numberedKeys,
    List.range_eq_range', ← List.zipIdx_map_snd 0 items, List.flatMap_map]
  rfl

/-- What follows the number of a field does not begin with a digit, and tells the two fields
apart. -/
structure Endings (e e' : Bytes) : Prop where
  first : e.takeWhile isDigit = []
  second : e'.takeWhile isDigit = []
  ne : e ≠ e'

theorem nodup_listFields {start first second : Bytes} (h : Endings first second)
    (items : List (Bytes × Bytes)) :
    ((listFields start first second items).map Prod.fst).Nodup := by
  have hendings : ∀ ending ∈ [first, second], ending.takeWhile isDigit = [] :=
    List.forall_mem_cons.2 ⟨h.first, List.forall_mem_singleton.2 h.second⟩
  have hnodup : [first, second].Nodup := by simp [h.ne]
  rw [map_key_listFields, List.nodup_cons]
  exact ⟨append_notMem_numberedKeys (by decide) hendings,
    nodup_numberedKeys start items.length hnodup hendings⟩

theorem wellFormed_listFields {start first second : Bytes}
    (hequals : (61 : Byte) ∉ start ++ (first ++ second))
    (hline : newline ∉ start ++ (first ++ second)) (items : List (Bytes × Bytes)) :
    ∀ field ∈ listFields start first second items, LogField.WellFormed field := by
  have hnumber : ∀ i, (61 : Byte) ∉ decimal i ∧ newline ∉ decimal i := fun i =>
    ⟨notMem_decimal (by decide) i, notMem_decimal (by decide) i⟩
  simp only [List.mem_append, not_or] at hequals hline
  intro field hfield
  rcases List.mem_cons.1 hfield with rfl | hfield
  · exact ⟨by simp [hequals.1, show (61 : Byte) ∉ ascii "count" by decide],
      by simp [hline.1, show newline ∉ ascii "count" by decide], (hnumber _).2⟩
  · obtain ⟨⟨item, i⟩, -, hfield⟩ := List.mem_flatMap.1 hfield
    rcases List.mem_pair.1 hfield with rfl | rfl
    · exact ⟨by simp [hequals, (hnumber i).1], by simp [hline, (hnumber i).2], newline_notMem_escape _⟩
    · exact ⟨by simp [hequals, (hnumber i).1], by simp [hline, (hnumber i).2], newline_notMem_escape _⟩

theorem starts_of_mem_listFields {start first second key : Bytes} {items : List (Bytes × Bytes)}
    (hkey : key ∈ (listFields start first second items).map Prod.fst) : start <+: key := by
  rw [map_key_listFields] at hkey
  rcases List.mem_cons.1 hkey with rfl | hkey
  · exact List.prefix_append start _
  · exact start_prefix_of_mem hkey

/-- Keys that start in one way, and keys that do not. -/
theorem nodup_append_of_starts {start : Bytes} {keys keys' : List Bytes} (hkeys : keys.Nodup)
    (hstarts : ∀ key ∈ keys, start <+: key) (hkeys' : keys'.Nodup)
    (hother : ∀ key ∈ keys', ¬start <+: key) :
    (keys ++ keys').Nodup := by
  rw [List.nodup_append]
  refine ⟨hkeys, hkeys', fun key hkey key' hkey' heq => ?_⟩
  exact hother key' hkey' (heq ▸ hstarts key hkey)

theorem not_starts_of_starts {start start' key : Bytes} (h : start' <+: key)
    (hne : ¬start <+: start') (hne' : ¬start' <+: start) : ¬start <+: key := by
  intro hstarts
  exact (List.prefix_or_prefix_of_prefix hstarts h).elim hne hne'

variable (session : TaskSession) (metadata : List (Bytes × Bytes))

/-- No key is written twice. -/
theorem nodup_logFields : ((logFields session metadata).map Prod.fst).Nodup := by
  have hobjects : Endings (ascii "_id") (ascii "_role") := ⟨by decide, by decide, by decide⟩
  have hvalues : Endings (ascii "_key") (ascii "_value") := ⟨by decide, by decide, by decide⟩
  let fixed : List Bytes :=
    [ascii "task_id", ascii "txn_id", ascii "workload_name", ascii "planner_id", ascii "task_phase",
      ascii "commit_attempts", ascii "committed", ascii "event_count"]
  let input := (objectFields (ascii "input") session.task.inputObjects).map Prod.fst
  let output := (objectFields (ascii "output") session.task.outputObjects).map Prod.fst
  let rest := (listFields (ascii "task_metadata_") (ascii "_key") (ascii "_value") metadata).map
    Prod.fst
  have hkeys : (logFields session metadata).map Prod.fst =
      fixed.take 4 ++ ((input ++ (output ++ rest)) ++ fixed.drop 4) := by
    simp only [logFields, taskContextFields, List.map_append, List.append_assoc, input,
      output, rest]
    rfl
  have hperm : ((logFields session metadata).map Prod.fst).Perm
      (input ++ (output ++ (rest ++ fixed))) := by
    have hsplit : input ++ (output ++ (rest ++ fixed)) = (input ++ (output ++ rest)) ++
        (fixed.take 4 ++ fixed.drop 4) := by
      simp only [List.append_assoc]
      rfl
    rw [hkeys, hsplit]
    exact List.perm_append_comm_assoc _ _ _
  have hinput : ∀ key ∈ fixed, ¬ascii "input" ++ ascii "_object_" <+: key := by decide
  have houtput : ∀ key ∈ fixed, ¬ascii "output" ++ ascii "_object_" <+: key := by decide
  rw [hperm.nodup_iff]
  refine nodup_append_of_starts (nodup_listFields hobjects _)
    (fun key => starts_of_mem_listFields) ?_ ?_
  · refine nodup_append_of_starts (nodup_listFields hobjects _)
      (fun key => starts_of_mem_listFields) ?_ ?_
    · refine nodup_append_of_starts (nodup_listFields hvalues _)
        (fun key => starts_of_mem_listFields) (by decide) ?_
      decide
    · intro key hkey
      rcases List.mem_append.1 hkey with hkey | hkey
      · exact not_starts_of_starts (starts_of_mem_listFields hkey) (by decide) (by decide)
      · exact houtput key hkey
  · intro key hkey
    rcases List.mem_append.1 hkey with hkey | hkey
    · exact not_starts_of_starts (starts_of_mem_listFields hkey) (by decide) (by decide)
    · rcases List.mem_append.1 hkey with hkey | hkey
      · exact not_starts_of_starts (starts_of_mem_listFields hkey) (by decide) (by decide)
      · exact hinput key hkey

theorem wellFormed_logFields : ∀ field ∈ logFields session metadata, LogField.WellFormed field := by
  have hfield : ∀ key value : Bytes, (61 : Byte) ∉ key ∧ newline ∉ key → newline ∉ value →
      LogField.WellFormed (key, value) := fun key value hkey hvalue => ⟨hkey.1, hkey.2, hvalue⟩
  have hnumber : ∀ n, newline ∉ decimal n := notMem_decimal (by decide)
  have hflag : newline ∉ (if session.committed then ascii "1" else ascii "0") := by
    split <;> decide
  rw [logFields, List.forall_mem_append, List.forall_mem_append,
    taskContextFields, List.forall_mem_append, List.forall_mem_append]
  refine ⟨?_, ⟨?_, ?_, ?_⟩, ?_⟩
  · simp only [List.forall_mem_cons, List.not_mem_nil, false_implies, implies_true, and_true]
    exact ⟨hfield _ _ (by decide) (newline_notMem_escape _),
      hfield _ _ (by decide) (newline_notMem_escape _), hfield _ _ (by decide)
      (newline_notMem_escape _), hfield _ _ (by decide) (newline_notMem_escape _)⟩
  · exact wellFormed_listFields (by decide) (by decide) _
  · exact wellFormed_listFields (by decide) (by decide) _
  · exact wellFormed_listFields (by decide) (by decide) _
  · simp only [List.forall_mem_cons, List.not_mem_nil, false_implies, implies_true, and_true]
    exact ⟨hfield _ _ (by decide) (hnumber _), hfield _ _ (by decide) (hnumber _),
      hfield _ _ (by decide) hflag, hfield _ _ (by decide) (hnumber _)⟩

/-! ### Reading the log -/

/-- What is read from the log of a session. -/
def writtenArtifact : ParsedTaskEventLogArtifact where
  metadata := UnorderedMap.assignAll Prod.fst (fun field => unescapeTaskEventLogText field.2)
    (logFields session metadata) ∅
  events := session.events.map TaskEvent.parsed

namespace ParsedTaskEventLogArtifact

theorem readLines_fields {fields : List LogField}
    (hfields : ∀ field ∈ fields, LogField.WellFormed field) (rest : List Bytes)
    (artifact : ParsedTaskEventLogArtifact) :
    readLines false (fields.map LogField.line ++ rest) artifact =
      readLines false rest { artifact with
        metadata := UnorderedMap.assignAll Prod.fst
          (fun field => unescapeTaskEventLogText field.2) fields
          artifact.metadata } := by
  induction fields generalizing artifact with
  | nil => rfl
  | cons field fields ih =>
    rw [List.forall_mem_cons] at hfields
    obtain ⟨hmarker, hempty⟩ := @LogField.WellFormed.line_ne field (by decide)
    rw [List.map_cons, List.cons_append, readLines, if_neg hmarker, if_neg hempty,
      if_pos (by rfl), LogField.line, splitOnce_append hfields.1.key]
    exact ih hfields.2 _

theorem readLines_events (events : List TaskEvent) (artifact : ParsedTaskEventLogArtifact) :
    readLines true (events.map TaskEvent.line) artifact =
      some { artifact with events := artifact.events ++ events.map TaskEvent.parsed } := by
  induction events generalizing artifact with
  | nil => simp [readLines]
  | cons event events ih =>
    rw [List.map_cons, readLines, if_neg event.line_ne.1, if_neg event.line_ne.2, if_neg (by simp),
      event.readEvent_line]
    simp only [ih, List.append_assoc, List.singleton_append, List.map_cons]

end ParsedTaskEventLogArtifact

/-- No line after the header breaks. -/
theorem newline_notMem_logLines :
    ∀ line ∈ (logFields session metadata).map LogField.line ++
      eventsMarker :: session.events.map TaskEvent.line,
      newline ∉ line := by
  intro line hline
  rcases List.mem_append.1 hline with hline | hevent
  · obtain ⟨field, hfield, rfl⟩ := List.mem_map.1 hline
    exact (wellFormed_logFields session metadata field hfield).newline_notMem
  · rcases List.mem_cons.1 hevent with rfl | hevent
    · decide
    · obtain ⟨event, -, rfl⟩ := List.mem_map.1 hevent
      exact event.newline_notMem_line

theorem parseTaskEventLogArtifact_text :
    parseTaskEventLogArtifact (some (taskEventLogText session metadata)) =
      some (writtenArtifact session metadata) := by
  rw [parseTaskEventLogArtifact, Option.bind_some, taskEventLogText, unlines_cons,
    getline_append (by decide)]
  simp only [ne_eq, not_true_eq_false, ↓reduceIte]
  rw [lines_unlines (newline_notMem_logLines session metadata),
    ParsedTaskEventLogArtifact.readLines_fields (wellFormed_logFields session metadata),
    ParsedTaskEventLogArtifact.readLines, if_pos rfl, ParsedTaskEventLogArtifact.readLines_events]
  rfl

/-- Every field is found under its key. -/
theorem lookup_writtenArtifact {key value : Bytes} (h : (key, value) ∈ logFields session metadata) :
    (writtenArtifact session metadata).metadata.lookup key =
      some (unescapeTaskEventLogText value) :=
  UnorderedMap.lookup_assignAll_of_mem _ ∅ (nodup_logFields session metadata) h

theorem metadataValue_writtenArtifact {key value : Bytes}
    (h : (key, value) ∈ logFields session metadata) :
    (writtenArtifact session metadata).metadataValue key = unescapeTaskEventLogText value := by
  rw [ParsedTaskEventLogArtifact.metadataValue, lookup_writtenArtifact session metadata h,
    Option.getD_some]

theorem metadataValue_taskId : (writtenArtifact session metadata).metadataValue (ascii "task_id") =
    session.task.taskId := by
  have hmem : (ascii "task_id", escapeTaskEventLogText session.task.taskId) ∈ logFields session
      metadata := by
    simp [logFields]
  rw [metadataValue_writtenArtifact session metadata hmem, unescape_escapeTaskEventLogText]

theorem metadataValue_taskPhase :
    (writtenArtifact session metadata).metadataValue (ascii "task_phase") =
    decimal (taskPhaseValue session.task.phase) := by
  have hmem : (ascii "task_phase", decimal (taskPhaseValue session.task.phase)) ∈ logFields session
      metadata := by
    simp [logFields]
  rw [metadataValue_writtenArtifact session metadata hmem, unescape_decimal]

theorem lookup_commitAttempts :
    (writtenArtifact session metadata).metadata.lookup (ascii "commit_attempts") =
    some (decimal session.commitAttempts.toNat) := by
  have hmem : (ascii "commit_attempts", decimal session.commitAttempts.toNat) ∈ logFields session
      metadata := by
    simp [logFields]
  rw [lookup_writtenArtifact session metadata hmem, unescape_decimal]

theorem lookup_committed : (writtenArtifact session metadata).metadata.lookup (ascii "committed") =
    some (if session.committed then ascii "1" else ascii "0") := by
  have hmem : (ascii "committed", if session.committed then ascii "1" else ascii "0") ∈
      logFields session metadata := by
    simp [logFields]
  rw [lookup_writtenArtifact session metadata hmem]
  cases session.committed <;> rfl

end DataAgentSystem.Runtime
