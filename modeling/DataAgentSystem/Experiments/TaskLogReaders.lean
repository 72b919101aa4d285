import DataAgentSystem.Experiments.TaskEventRecovery

/-! The two readers of a task event log. The writer escapes what ends a line for
`getline`; the script splits the text with `str.splitlines`, which ends lines at other
control characters too, and these are written as they are. A log without them is read
alike. No text that the script reads holds one, so any other log is not. -/

namespace DataAgentSystem.Experiments

open Text Containers Storage DataAgentSystem.Runtime

/-- The texts of a session that are written to its log. -/
def loggedTexts (session : TaskSession) : List Bytes :=
  [session.task.taskId, session.txn.txnId, session.task.workloadName, session.task.plannerId] ++
  ((session.task.inputObjects.flatMap fun object => [object.objectId, object.objectRole]) ++
    ((session.task.outputObjects.flatMap fun object => [object.objectId, object.objectRole]) ++
      ((session.task.metadata.entries.flatMap fun entry => [entry.1, entry.2]) ++
        session.events.flatMap fun event => [event.branchId, event.objectId, event.detail])))

def IsAscii (session : TaskSession) : Prop := ∀ text ∈ loggedTexts session, ∀ c ∈ text, c < 128

/-- A text that holds none of the characters at which only the script ends a line. -/
def Whole (text : Bytes) : Prop := ∀ c ∈ text, endsLine c = true → c = newline

def Unbroken (session : TaskSession) : Prop := ∀ text ∈ loggedTexts session, Whole text

/-- The script holds what the runtime has read. -/
structure TaskLog.Agrees (log : TaskLog) (artifact : ParsedTaskEventLogArtifact) : Prop where
  metadata : ∀ key, log.metadata.lookup key = artifact.metadata.lookup key
  events : log.events = artifact.events.map LoggedEvent.of

variable {session : TaskSession} {metadata : List (Bytes × Bytes)} {P : Byte → Prop}

/-! ### The characters of a log -/

/-- A character of the log itself: printable, or the end of a field or a line. -/
def isStructural (c : Byte) : Bool := (32 ≤ c && c < 127) || c == tab || c == newline

theorem isStructural_of_isDigit {c : Byte} (h : isDigit c = true) : isStructural c = true := by
  simp only [isDigit, isStructural, Bool.and_eq_true, Bool.or_eq_true,
    decide_eq_true_eq, UInt8.le_iff_toNat_le, UInt8.lt_iff_toNat_lt] at h ⊢
  simp at h ⊢
  omega

theorem forall_mem_decimal (hP : ∀ c, isStructural c = true → P c) (n : ℕ) : ∀ c ∈ decimal n, P c :=
  fun c hc => hP c (isStructural_of_isDigit (isDigit_of_mem_decimal hc))

theorem forall_mem_signedDecimal (hP : ∀ c, isStructural c = true → P c) (i : ℤ) :
    ∀ c ∈ signedDecimal i, P c := by
  unfold signedDecimal
  split
  · rw [List.forall_mem_cons]
    exact ⟨hP 45 (by decide), forall_mem_decimal hP _⟩
  · exact forall_mem_decimal hP _

/-- A text of the log itself. -/
theorem forall_mem_of_all (hP : ∀ c, isStructural c = true → P c) {s : Bytes}
    (hs : s.all isStructural = true) :
    ∀ c ∈ s, P c := fun c hc => hP c (List.all_eq_true.1 hs c hc)

theorem forall_mem_escape (hP : ∀ c, isStructural c = true → P c) {s : Bytes} (hs : ∀ c ∈ s, P c) :
    ∀ c ∈ escapeTaskEventLogText s, P c := by
  unfold escapeTaskEventLogText
  induction s with
  | nil => exact fun c hc => absurd hc List.not_mem_nil
  | cons b bs ih =>
    rw [List.forall_mem_cons] at hs
    rw [Escaping.escape]
    split
    next l hl =>
      have hletter : isStructural l = true := by
        simp only [backslashEscaping] at hl
        split_ifs at hl <;> cases hl <;> decide
      rw [List.forall_mem_cons, List.forall_mem_cons]
      exact ⟨hP _ (by decide), hP l hletter, ih hs.2⟩
    next =>
      rw [List.forall_mem_cons]
      exact ⟨hs.1, ih hs.2⟩

theorem forall_mem_line (hP : ∀ c, isStructural c = true → P c)
    {key value : Bytes} (hkey : ∀ c ∈ key, P c) (hvalue : ∀ c ∈ value, P c) :
    ∀ c ∈ LogField.line (key, value), P c := by
  rw [LogField.line, List.forall_mem_append, List.forall_mem_cons]
  exact ⟨hkey, hP 61 (by decide), hvalue⟩

theorem forall_mem_listFields (hP : ∀ c, isStructural c = true → P c) {start first second : Bytes}
    (hstart : start.all isStructural = true) (hfirst : first.all isStructural = true)
    (hsecond : second.all isStructural = true) {items : List (Bytes × Bytes)}
    (hitems : ∀ item ∈ items, (∀ c ∈ item.1, P c) ∧ ∀ c ∈ item.2, P c) :
    ∀ field ∈ listFields start first second items, ∀ c ∈ LogField.line field, P c := by
  have hcount : ∀ c ∈ start ++ ascii "count", P c := by
    rw [List.forall_mem_append]
    exact ⟨forall_mem_of_all hP hstart, forall_mem_of_all hP (by decide)⟩
  have hkey : ∀ (i : ℕ) {ending : Bytes}, ending.all isStructural = true →
      ∀ c ∈ start ++ decimal i ++ ending, P c := by
    intro i ending hending
    rw [List.forall_mem_append, List.forall_mem_append]
    exact ⟨⟨forall_mem_of_all hP hstart, forall_mem_decimal hP i⟩, forall_mem_of_all hP hending⟩
  rw [listFields, List.forall_mem_cons]
  refine ⟨forall_mem_line hP hcount (forall_mem_decimal hP _), fun field hfield => ?_⟩
  obtain ⟨⟨item, i⟩, hitem, hfield⟩ := List.mem_flatMap.1 hfield
  have hmem := List.mem_of_getElem? (List.mem_zipIdx_iff_getElem?.1 hitem)
  rcases List.mem_pair.1 hfield with rfl | rfl
  · exact forall_mem_line hP (hkey i hfirst) (forall_mem_escape hP (hitems item hmem).1)
  · exact forall_mem_line hP (hkey i hsecond) (forall_mem_escape hP (hitems item hmem).2)

theorem forall_mem_objectFields (hP : ∀ c, isStructural c = true → P c) {label : Bytes}
    (hlabel : (label ++ ascii "_object_").all isStructural = true) {objects : List ObjectReference}
    (hobjects : ∀ text ∈ objects.flatMap (fun object => [object.objectId, object.objectRole]),
      ∀ c ∈ text, P c) :
    ∀ field ∈ objectFields label objects, ∀ c ∈ LogField.line field, P c := by
  refine forall_mem_listFields hP hlabel (by decide) (by decide) fun item hitem => ?_
  obtain ⟨object, hobject, rfl⟩ := List.mem_map.1 hitem
  exact ⟨hobjects _ (List.mem_flatMap.2 ⟨object, hobject, by simp⟩),
    hobjects _ (List.mem_flatMap.2 ⟨object, hobject, by simp⟩)⟩

theorem forall_mem_taskEventTypeName (hP : ∀ c, isStructural c = true → P c)
    (type : TaskEventType) :
    ∀ c ∈ taskEventTypeName type, P c := forall_mem_of_all hP (by cases type <;> decide)

theorem forall_mem_eventLine (hP : ∀ c, isStructural c = true → P c) {event : TaskEvent}
    (hevent : ∀ text ∈ [event.branchId, event.objectId, event.detail], ∀ c ∈ text, P c) :
    ∀ c ∈ event.line, P c := by
  have htab : P tab := hP tab (by decide)
  simp only [List.forall_mem_cons] at hevent
  obtain ⟨hbranch, hobject, hdetail, -⟩ := hevent
  simp only [TaskEvent.line, List.forall_mem_append, List.forall_mem_cons]
  exact ⟨forall_mem_decimal hP _, htab, forall_mem_taskEventTypeName hP _, htab,
    forall_mem_escape hP hbranch, htab, forall_mem_escape hP hobject, htab,
    forall_mem_signedDecimal hP _, htab, forall_mem_escape hP hdetail⟩

/-- What holds of the characters of the log itself and of those of the texts holds of all of
them. -/
theorem forall_mem_taskEventLogText (hP : ∀ c, isStructural c = true → P c)
    (hmetadata : UnorderedMap.Iterates session.task.metadata metadata)
    (htexts : ∀ text ∈ loggedTexts session, ∀ c ∈ text, P c) :
    ∀ c ∈ taskEventLogText session metadata, P c := by
  simp only [loggedTexts, List.forall_mem_append, List.forall_mem_cons, List.not_mem_nil,
    false_implies, implies_true, and_true] at htexts
  obtain ⟨⟨htaskId, htxnId, hworkload, hplanner⟩, hinput, houtput, hpairs, hevents⟩ := htexts
  have hflag : ∀ c ∈ (if session.committed then ascii "1" else ascii "0"), P c := by
    split
    · exact forall_mem_of_all hP (by decide)
    · exact forall_mem_of_all hP (by decide)
  have hfixed : ∀ {key value : Bytes}, key.all isStructural = true → (∀ c ∈ value, P c) →
      ∀ c ∈ LogField.line (key, value), P c := fun hkey hvalue =>
        forall_mem_line hP (forall_mem_of_all hP hkey) hvalue
  have hitems : ∀ item ∈ metadata, (∀ c ∈ item.1, P c) ∧ ∀ c ∈ item.2, P c := by
    intro item hitem
    obtain ⟨entry, hentry, rfl⟩ := List.mem_map.1 (hmetadata.subset hitem)
    exact ⟨hpairs _ (List.mem_flatMap.2 ⟨entry, hentry, by simp⟩),
      hpairs _ (List.mem_flatMap.2 ⟨entry, hentry, by simp⟩)⟩
  have hfields : ∀ field ∈ logFields session metadata, ∀ c ∈ LogField.line field, P c := by
    simp only [logFields, taskContextFields, List.forall_mem_append, List.forall_mem_cons,
      List.not_mem_nil, false_implies, implies_true, and_true]
    exact ⟨⟨hfixed (by decide) (forall_mem_escape hP htaskId),
      hfixed (by decide) (forall_mem_escape hP htxnId),
        hfixed (by decide) (forall_mem_escape hP hworkload),
          hfixed (by decide) (forall_mem_escape hP hplanner)⟩,
      ⟨forall_mem_objectFields hP (by decide) hinput,
        forall_mem_objectFields hP (by decide) houtput,
        forall_mem_listFields hP (by decide) (by decide) (by decide) hitems⟩,
      hfixed (by decide) (forall_mem_decimal hP _), hfixed (by decide) (forall_mem_decimal hP _),
      hfixed (by decide) hflag, hfixed (by decide) (forall_mem_decimal hP _)⟩
  have hlines : ∀ line ∈ kTaskEventLogHeader ::
      ((logFields session metadata).map LogField.line ++
        eventsMarker :: session.events.map TaskEvent.line),
      ∀ c ∈ line, P c := by
    simp only [List.forall_mem_cons, List.forall_mem_append, List.forall_mem_map]
    refine ⟨forall_mem_of_all hP (by decide), hfields, forall_mem_of_all hP (by decide),
      fun event hevent => ?_⟩
    exact forall_mem_eventLine hP fun text htext =>
      hevents text (List.mem_flatMap.2 ⟨event, hevent, htext⟩)
  intro c hc
  obtain ⟨line, hline, hc⟩ := List.mem_flatMap.1 hc
  rcases List.mem_append.1 hc with hc | hc
  · exact hlines line hline c hc
  · rw [List.mem_singleton.1 hc]
    exact hP newline (by decide)

/-! ### What the script reads of an unbroken log -/

theorem parseMetadata_fields {fields : List LogField}
    (hfields : ∀ field ∈ fields, LogField.WellFormed field) (m : UnorderedMap Bytes) :
    parseMetadata (fields.map LogField.line) m =
      some (UnorderedMap.assignAll Prod.fst (fun field => unescapeTaskEventLogText field.2)
        fields m) := by
  induction fields generalizing m with
  | nil => rfl
  | cons field fields ih =>
    rw [List.forall_mem_cons] at hfields
    rw [List.map_cons, parseMetadata, LogField.line, splitOnce_append hfields.1.key]
    exact ih hfields.2 _

theorem unescape_escape (text : Bytes) : unescape (escapeTaskEventLogText text) = text :=
  unescape_escapeTaskEventLogText text

theorem parseEvent_line (event : TaskEvent) : parseEvent event.line = some (.of event.parsed) := by
  rw [parseEvent, event.splitOn_line]
  simp only [pythonInt_decimal, pythonInt_signedDecimal, Option.bind_eq_bind,
    Option.bind_some, unescape_escape]
  rfl

theorem parseEvents_lines (events : List TaskEvent) :
    parseEvents (events.map TaskEvent.line) = some (events.map fun event => .of event.parsed) := by
  induction events with
  | nil => rfl
  | cons event events ih =>
    rw [List.map_cons, parseEvents, if_neg event.line_ne.2, parseEvent_line, ih]
    rfl

/-- The lines that the script finds in an unbroken log. -/
theorem splitlines_text (hmetadata : UnorderedMap.Iterates session.task.metadata metadata)
    (hunbroken : Unbroken session) :
    splitlines (taskEventLogText session metadata) = kTaskEventLogHeader ::
      ((logFields session metadata).map LogField.line ++
        eventsMarker :: session.events.map TaskEvent.line) := by
  have hstructural : ∀ c, isStructural c = true → endsLine c = true → c = newline := by
    intro c hstructural hends
    simp only [isStructural, endsLine, newline, tab, Bool.or_eq_true, Bool.and_eq_true,
      decide_eq_true_eq, beq_iff_eq, UInt8.le_iff_toNat_le,
      UInt8.lt_iff_toNat_lt, ← UInt8.toNat_inj] at hstructural hends ⊢
    simp at hstructural hends ⊢
    omega
  have hends := forall_mem_taskEventLogText hstructural hmetadata hunbroken
  rw [splitlines_eq_lines hends, taskEventLogText, unlines_cons, lines_append (by decide),
    lines_unlines (newline_notMem_logLines session metadata)]

theorem readText_text (hmetadata : UnorderedMap.Iterates session.task.metadata metadata)
    (hascii : IsAscii session) (hunbroken : Unbroken session) :
    readText (taskEventLogText session metadata) = some (taskEventLogText session metadata) := by
  have hall : ∀ c ∈ taskEventLogText session metadata, c < 128 := by
    refine forall_mem_taskEventLogText (fun c hc => ?_) hmetadata hascii
    simp only [isStructural, newline, tab, Bool.or_eq_true, Bool.and_eq_true,
      decide_eq_true_eq, beq_iff_eq, UInt8.le_iff_toNat_le,
      UInt8.lt_iff_toNat_lt, ← UInt8.toNat_inj] at hc ⊢
    simp at hc ⊢
    omega
  have hreturn : ∀ c ∈ taskEventLogText session metadata, c ≠ carriageReturn := by
    refine forall_mem_taskEventLogText (fun c hc => ?_) hmetadata fun text htext c hc heq => ?_
    · rintro rfl
      exact absurd hc (by decide)
    · subst heq
      exact absurd (hunbroken text htext carriageReturn hc (by decide)) (by decide)
  rw [readText, if_pos (List.all_eq_true.2 fun c hc => decide_eq_true (hall c hc)),
    universalNewlines_of_notMem fun hmem => hreturn _ hmem rfl]

/-- The script reads the same log. -/
theorem parseTaskLog_text (hmetadata : UnorderedMap.Iterates session.task.metadata metadata)
    (hascii : IsAscii session) (hunbroken : Unbroken session) :
    parseTaskLog (some (taskEventLogText session metadata)) =
      some (.of (writtenArtifact session metadata)) := by
  have hlines := splitlines_text hmetadata hunbroken
  have hfields := wellFormed_logFields session metadata
  have hmarker : eventsMarker ∉ kTaskEventLogHeader ::
      (logFields session metadata).map LogField.line := by
    rw [List.mem_cons, List.mem_map, not_or]
    refine ⟨by decide, ?_⟩
    rintro ⟨field, -, heq⟩
    exact (@LogField.WellFormed.line_ne field (by decide)).1 heq
  rw [← List.cons_append] at hlines
  have hindex : (splitlines (taskEventLogText session metadata)).idxOf eventsMarker =
      (kTaskEventLogHeader :: (logFields session metadata).map LogField.line).length := by
    rw [hlines, List.idxOf_append, if_neg hmarker, List.idxOf_cons_self, Nat.zero_add]
  have htake : ((splitlines (taskEventLogText session metadata)).take
      ((splitlines (taskEventLogText session metadata)).idxOf eventsMarker)).drop 1 =
      (logFields session metadata).map LogField.line := by
    rw [hindex, hlines, List.take_left]
    rfl
  have hdrop : (splitlines (taskEventLogText session metadata)).drop
      ((splitlines (taskEventLogText session metadata)).idxOf eventsMarker + 1) =
          session.events.map TaskEvent.line := by
    rw [hindex, hlines, ← List.drop_drop, List.drop_left]
    rfl
  have hhead : (splitlines (taskEventLogText session metadata)).head? =
      some kTaskEventLogHeader := by rw [hlines]; rfl
  have hmem : eventsMarker ∈ splitlines (taskEventLogText session metadata) := by
    rw [hlines]
    exact List.mem_append_right _ List.mem_cons_self
  simp only [parseTaskLog, Option.bind_some, readText_text hmetadata hascii hunbroken,
    Option.bind_eq_bind, hhead, hmem, htake, hdrop, parseMetadata_fields hfields, parseEvents_lines]
  simp only [not_true_eq_false, ↓reduceIte, ne_eq]
  rw [TaskLog.of, writtenArtifact, List.map_map]
  rfl

/-- The key of the events is no key of the log. -/
theorem lookup_events :
    (writtenArtifact session metadata).metadata.lookup (ascii "events") = none := by
  have hobject : ∀ {label : Bytes} {objects : List ObjectReference},
    ¬label ++ ascii "_object_" <+: ascii "events" →
      ascii "events" ∉ (objectFields label objects).map Prod.fst := fun hlabel hmem =>
        hlabel (starts_of_mem_listFields hmem)
  have hlist : ascii "events" ∉
      (listFields (ascii "task_metadata_") (ascii "_key") (ascii "_value") metadata).map Prod.fst :=
    fun hmem => absurd (starts_of_mem_listFields hmem) (by decide)
  have hkeys : ascii "events" ∉ (logFields session metadata).map Prod.fst := by
    simp only [logFields, taskContextFields, List.map_append, List.mem_append, not_or]
    exact ⟨by simp only [List.map_cons]; decide, ⟨hobject (by decide), hobject (by decide), hlist⟩,
      by simp only [List.map_cons]; decide⟩
  have hfind : (logFields session metadata).reverse.find?
      (fun field => field.1 = ascii "events") = none := by
    rw [List.find?_eq_none]
    intro field hfield heq
    exact hkeys (List.mem_map.2 ⟨field, List.mem_reverse.1 hfield, of_decide_eq_true heq⟩)
  rw [writtenArtifact, UnorderedMap.lookup_assignAll, hfind]
  rfl

theorem TaskLog.agrees_of {artifact : ParsedTaskEventLogArtifact}
    (h : artifact.metadata.lookup (ascii "events") = none) :
    (TaskLog.of artifact).Agrees artifact := by
  refine ⟨fun key => ?_, rfl⟩
  by_cases hkey : key = ascii "events"
  · rw [hkey, h]
    exact AList.lookup_erase (ascii "events") artifact.metadata
  · exact lookup_of artifact hkey

/-! ### What the script never reads -/

theorem whole_unescape {s : Bytes} (hs : ∀ c ∈ s, endsLine c = false) : Whole (unescape s) := by
  have hfrom : ∀ escaped, Whole (backslashEscaping.unescapeFrom escaped s) := by
    induction s with
    | nil =>
      intro escaped
      cases escaped with
      | false => exact fun c hc => absurd hc List.not_mem_nil
      | true => exact List.forall_mem_singleton.2 (by decide)
    | cons b bs ih =>
      rw [List.forall_mem_cons] at hs
      intro escaped
      cases escaped with
      | false =>
        rw [Escaping.unescapeFrom]
        split
        · exact ih hs.2 true
        · exact List.forall_mem_cons.2
            ⟨fun h => absurd (hs.1.symm.trans h) Bool.false_ne_true, ih hs.2 false⟩
      | true =>
        rw [Escaping.unescapeFrom]
        refine List.forall_mem_cons.2 ⟨fun h => ?_, ih hs.2 false⟩
        simp only [backslashEscaping] at h ⊢
        split_ifs at h ⊢ with htab hnewline
        · exact absurd h (by decide)
        · rfl
        · exact absurd (hs.1.symm.trans h) Bool.false_ne_true
  exact hfrom false

theorem subset_of_mem_splitOn {d : Byte} {s part : Bytes} (hpart : part ∈ s.splitOn d) :
    part ⊆ s := by
  induction s generalizing part with
  | nil =>
    rw [List.splitOn_nil, List.mem_singleton] at hpart
    rw [hpart]
    exact List.nil_subset _
  | cons c cs ih =>
    rw [List.splitOn_cons_eq_if_modifyHead] at hpart
    split at hpart
    · rcases List.mem_cons.1 hpart with rfl | hpart
      · exact List.nil_subset _
      · exact List.Subset.trans (ih hpart) (List.subset_cons_self c cs)
    · cases hsplit : cs.splitOn d with
      | nil => exact absurd hsplit (List.splitOn_ne_nil d cs)
      | cons first rest =>
        rw [hsplit] at hpart ih
        rcases List.mem_cons.1 hpart with rfl | hpart
        · exact List.cons_subset_cons c (ih List.mem_cons_self)
        · exact List.Subset.trans (ih (List.mem_cons_of_mem first hpart))
            (List.subset_cons_self c cs)

theorem parseEvent_whole {line : Bytes} {event : LoggedEvent}
    (hline : ∀ c ∈ line, endsLine c = false) (h : parseEvent line = some event) :
    ∀ text ∈ [event.branchId, event.objectId, event.detail], Whole text := by
  have hpart : ∀ {part : Bytes}, part ∈ line.splitOn tab → Whole (unescape part) :=
    fun hpart => whole_unescape fun c hc => hline c (subset_of_mem_splitOn hpart hc)
  rw [parseEvent] at h
  split at h
  next sequenceNumber eventType branchId objectId numericValue detail hsplit =>
    simp only [Option.bind_eq_bind, Option.bind_eq_some_iff] at h
    obtain ⟨n, -, i, -, h⟩ := h
    obtain rfl := Option.some.inj h
    rw [hsplit] at hpart
    simp only [List.forall_mem_cons]
    exact ⟨hpart (by simp), hpart (by simp), hpart (by simp), fun _ h => absurd h List.not_mem_nil⟩
  next => cases h

theorem parseEvents_whole {lines : List Bytes} {events : List LoggedEvent}
    (hlines : ∀ line ∈ lines, ∀ c ∈ line, endsLine c = false)
    (h : parseEvents lines = some events) :
    ∀ event ∈ events, ∀ text ∈ [event.branchId, event.objectId, event.detail], Whole text := by
  induction lines generalizing events with
  | nil =>
    obtain rfl := Option.some.inj h
    exact fun event hevent => absurd hevent List.not_mem_nil
  | cons line lines ih =>
    rw [List.forall_mem_cons] at hlines
    rw [parseEvents] at h
    split at h
    · exact ih hlines.2 h
    · simp only [Option.bind_eq_bind, Option.bind_eq_some_iff] at h
      obtain ⟨event, hevent, rest, hrest, h⟩ := h
      obtain rfl := Option.some.inj h
      exact List.forall_mem_cons.2 ⟨parseEvent_whole hlines.1 hevent, ih hlines.2 hrest⟩

theorem parseMetadata_whole {lines : List Bytes} {m m' : UnorderedMap Bytes}
    (hlines : ∀ line ∈ lines, ∀ c ∈ line, endsLine c = false)
    (hm : ∀ key value, m.lookup key = some value → Whole value)
    (h : parseMetadata lines m = some m') :
    ∀ key value, m'.lookup key = some value → Whole value := by
  induction lines generalizing m with
  | nil =>
    obtain rfl := Option.some.inj h
    exact hm
  | cons line lines ih =>
    rw [List.forall_mem_cons] at hlines
    rw [parseMetadata] at h
    split at h
    next => cases h
    next key value hsplit =>
      refine ih hlines.2 (fun key' value' hlookup => ?_) h
      rw [UnorderedMap.lookup_insert_eq_ite] at hlookup
      split at hlookup
      · obtain rfl := Option.some.inj hlookup
        exact whole_unescape fun c hc => hlines.1 c (subset_of_splitOnce hsplit hc)
      · exact hm key' value' hlookup

/-- Whatever the file, the texts that the script takes from it are whole. -/
theorem parseTaskLog_whole {contents : Option Bytes} {log : TaskLog}
    (h : parseTaskLog contents = some log) :
    (∀ key value, log.metadata.lookup key = some value → Whole value) ∧
      ∀ event ∈ log.events, ∀ text ∈ [event.branchId, event.objectId, event.detail],
        Whole text := by
  simp only [parseTaskLog, Option.bind_eq_bind, Option.bind_eq_some_iff] at h
  obtain ⟨text, -, h⟩ := h
  have hends : ∀ line ∈ splitlines text, ∀ c ∈ line, endsLine c = false := fun line =>
    endsLine_of_mem_splitlinesFrom
  split at h
  · cases h
  split at h
  · cases h
  simp only [Option.bind_eq_some_iff] at h
  obtain ⟨metadata, hmetadata, events, hevents, h⟩ := h
  obtain rfl := Option.some.inj h
  constructor
  · intro key value hlookup
    have hne : key ≠ ascii "events" := by
      rintro rfl
      rw [AList.lookup_erase] at hlookup
      cases hlookup
    rw [AList.lookup_erase_ne hne] at hlookup
    refine parseMetadata_whole (fun line hline => ?_) (fun key value hnone => ?_)
      hmetadata key value hlookup
    · exact hends line (List.mem_of_mem_take (List.mem_of_mem_drop hline))
    · cases hnone
  · exact parseEvents_whole (fun line hline => hends line (List.mem_of_mem_drop hline)) hevents

/-! ### Texts and fields -/

theorem exists_mem_listFields (start first second : Bytes) {items : List (Bytes × Bytes)}
    {item : Bytes × Bytes} (hitem : item ∈ items) :
    ∃ key key', (key, escapeTaskEventLogText item.1) ∈ listFields start first second items ∧
      (key', escapeTaskEventLogText item.2) ∈ listFields start first second items := by
  obtain ⟨i, hi⟩ := List.getElem?_of_mem hitem
  have hmem : (item, i) ∈ items.zipIdx := List.mem_zipIdx_iff_getElem?.2 hi
  exact ⟨start ++ decimal i ++ first, start ++ decimal i ++ second,
    List.mem_cons_of_mem _ (List.mem_flatMap.2 ⟨_, hmem, by simp⟩),
    List.mem_cons_of_mem _ (List.mem_flatMap.2 ⟨_, hmem, by simp⟩)⟩

theorem exists_mem_objectFields (label : Bytes) {objects : List ObjectReference} {text : Bytes}
    (htext : text ∈ objects.flatMap fun object => [object.objectId, object.objectRole]) :
    ∃ key, (key, escapeTaskEventLogText text) ∈ objectFields label objects := by
  obtain ⟨object, hobject, htext⟩ := List.mem_flatMap.1 htext
  obtain ⟨key, key', hkey, hkey'⟩ :=
    exists_mem_listFields (label ++ ascii "_object_") (ascii "_id") (ascii "_role")
    (List.mem_map.2 ⟨object, hobject, rfl⟩)
  rcases List.mem_pair.1 htext with rfl | rfl
  · exact ⟨key, hkey⟩
  · exact ⟨key', hkey'⟩

/-- Each text of the session is a value in its log or belongs to an event. -/
theorem exists_field_or_event (hmetadata : UnorderedMap.Iterates session.task.metadata metadata)
    {text : Bytes} (htext : text ∈ loggedTexts session) :
    (∃ key, (key, escapeTaskEventLogText text) ∈ logFields session metadata) ∨
      ∃ event ∈ session.events, text ∈ [event.branchId, event.objectId, event.detail] := by
  have hcontext : ∀ {key},
    (key, escapeTaskEventLogText text) ∈ taskContextFields session.task metadata →
      ∃ key, (key, escapeTaskEventLogText text) ∈ logFields session metadata :=
    fun hmem => ⟨_, List.mem_append_right _ (List.mem_append_left _ hmem)⟩
  simp only [loggedTexts, List.mem_append] at htext
  rcases htext with hfixed | hinput | houtput | hpair | hevent
  · left
    simp only [List.mem_cons, List.not_mem_nil, or_false] at hfixed
    rcases hfixed with rfl | rfl | rfl | rfl
    · exact ⟨ascii "task_id", by simp [logFields]⟩
    · exact ⟨ascii "txn_id", by simp [logFields]⟩
    · exact ⟨ascii "workload_name", by simp [logFields]⟩
    · exact ⟨ascii "planner_id", by simp [logFields]⟩
  · obtain ⟨key, hkey⟩ := exists_mem_objectFields (ascii "input") hinput
    exact .inl (hcontext (List.mem_append_left _ hkey))
  · obtain ⟨key, hkey⟩ := exists_mem_objectFields (ascii "output") houtput
    exact .inl (hcontext (List.mem_append_right _ (List.mem_append_left _ hkey)))
  · obtain ⟨entry, hentry, htext⟩ := List.mem_flatMap.1 hpair
    have hitem : (entry.1, entry.2) ∈ metadata :=
      hmetadata.symm.subset (List.mem_map.2 ⟨entry, hentry, rfl⟩)
    obtain ⟨key, key', hkey, hkey'⟩ := exists_mem_listFields (ascii "task_metadata_") (ascii "_key")
      (ascii "_value") hitem
    rcases List.mem_pair.1 htext with rfl | rfl
    · exact .inl (hcontext (List.mem_append_right _ (List.mem_append_right _ hkey)))
    · exact .inl (hcontext (List.mem_append_right _ (List.mem_append_right _ hkey')))
  · obtain ⟨event, hevent, htext⟩ := List.mem_flatMap.1 hevent
    exact .inr ⟨event, hevent, htext⟩

/-- The script and the runtime read a written log alike exactly if no text in it holds a
character at which only the script ends a line. -/
theorem parseTaskLog_agrees_iff {w : World} {path : Bytes} (hlog : HoldsLog w path session)
    (hascii : IsAscii session) :
    (∃ log artifact, parseTaskLog (w.files.lookup path) = some log ∧
      parseTaskEventLogArtifact (w.files.lookup path) = some artifact ∧ log.Agrees artifact) ↔
        Unbroken session := by
  obtain ⟨metadata, hmetadata, hfile⟩ := hlog
  rw [hfile, parseTaskEventLogArtifact_text]
  constructor
  · rintro ⟨log, artifact, hparsed, hartifact, hagrees⟩ text htext
    obtain rfl := Option.some.inj hartifact
    obtain ⟨hvalues, hevents⟩ := parseTaskLog_whole hparsed
    rcases exists_field_or_event hmetadata htext with ⟨key, hfield⟩ | ⟨event, hevent, htext⟩
    · have hlookup := lookup_writtenArtifact session metadata hfield
      rw [unescape_escapeTaskEventLogText, ← hagrees.metadata key] at hlookup
      exact hvalues key text hlookup
    · have hmem : LoggedEvent.of event.parsed ∈ log.events := by
        rw [hagrees.events]
        exact List.mem_map_of_mem (List.mem_map_of_mem hevent)
      exact hevents _ hmem text htext
  · intro hunbroken
    exact ⟨_, _, parseTaskLog_text hmetadata hascii hunbroken, rfl, TaskLog.agrees_of lookup_events⟩

/-- A write whose text has a carriage return, a vertical tab or any other text in it. -/
def writingSession (text : Bytes) : TaskSession where
  events := [
    { type := .write, branchId := ascii "b", objectId := ascii "k", detail := text,
      numericValue := 1 }]

theorem parseTaskLog_agrees_iff_tabs :
    let session := writingSession (ascii "\t=\n\\")
    let w : World := { files := AList.insert (ascii "log") (taskEventLogText session []) ∅ }
    ∃ log artifact, parseTaskLog (w.files.lookup (ascii "log")) = some log ∧
      parseTaskEventLogArtifact (w.files.lookup (ascii "log")) = some artifact ∧
          log.Agrees artifact := by
  intro session w
  have hlog : HoldsLog w (ascii "log") session := ⟨[], List.Perm.refl _, AList.lookup_insert _⟩
  have hascii : IsAscii session := by unfold IsAscii; decide +kernel
  have hunbroken : Unbroken session := by unfold Unbroken Whole; decide +kernel
  exact (parseTaskLog_agrees_iff hlog hascii).2 hunbroken

/-- The script exits on the log of a write with a carriage return in it, which the runtime reads. -/
theorem parseTaskLog_carriageReturn : IsAscii (writingSession (ascii "x\ry")) ∧
    (parseTaskEventLogArtifact
      (some (taskEventLogText (writingSession (ascii "x\ry")) []))).isSome = true ∧
    parseTaskLog (some (taskEventLogText (writingSession (ascii "x\ry")) [])) = none := by
  have hascii : IsAscii (writingSession (ascii "x\ry")) := by unfold IsAscii; decide +kernel
  rw [parseTaskEventLogArtifact_text]
  exact ⟨hascii, rfl, by decide +kernel⟩

end DataAgentSystem.Experiments
