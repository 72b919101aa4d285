import DataAgentSystem.Text.Decimal
import DataAgentSystem.Text.Escaping
import DataAgentSystem.Text.Lines
import DataAgentSystem.Storage.World

/-! The artifact of a fallback commit and its text form: a header line, one line for
each field, and one tab-separated line for each entry. Reading a written artifact
gives it back, whatever the record it is read into held before. -/

namespace DataAgentSystem.AgentTxn

open Text Storage Interaction

inductive FallbackCommitPhase where
  | prepared | applying | rollingBack | committed | rolledBack
  deriving DecidableEq

structure FallbackCommitEntry where
  key : Bytes
  expectedVersion : UInt64 := 0
  targetValue : Bytes := []
  previousValue : Bytes := []
  previousVersion : UInt64 := 0
  previousExists : Bool := false
  deriving DecidableEq

structure FallbackCommitArtifact where
  txnId : Bytes := []
  taskId : Bytes := []
  phase : FallbackCommitPhase := .prepared
  appliedCount : ℕ := 0
  entries : List FallbackCommitEntry := []
  deriving DecidableEq

/-- `EscapeCommitLogText` and `UnescapeCommitLogText`. -/
def escapeCommitLogText (input : Bytes) : Bytes := backslashEscaping.escape input

def unescapeCommitLogText (input : Bytes) : Bytes := backslashEscaping.unescape input

def kFallbackCommitHeader : Bytes := ascii "DAS_FALLBACK_COMMIT_V1"

def entriesMarker : Bytes := ascii "[entries]"

def fallbackCommitPhaseName : FallbackCommitPhase → Bytes
  | .prepared => ascii "PREPARED"
  | .applying => ascii "APPLYING"
  | .rollingBack => ascii "ROLLING_BACK"
  | .committed => ascii "COMMITTED"
  | .rolledBack => ascii "ROLLED_BACK"

def fallbackCommitPhaseFromName (name : Bytes) : FallbackCommitPhase :=
  if name = ascii "APPLYING" then .applying
  else if name = ascii "ROLLING_BACK" then .rollingBack
  else if name = ascii "COMMITTED" then .committed
  else if name = ascii "ROLLED_BACK" then .rolledBack
  else .prepared

namespace FallbackCommitEntry

def line (e : FallbackCommitEntry) : Bytes :=
  escapeCommitLogText e.key ++ tab :: (decimal e.expectedVersion.toNat ++ tab ::
    (escapeCommitLogText e.targetValue ++ tab :: (escapeCommitLogText e.previousValue ++ tab ::
      (decimal e.previousVersion.toNat ++ tab :: if e.previousExists then ascii "1"
        else ascii "0"))))

/-- The fields of an entry line, still escaped. -/
def readLine (text : Bytes) : Option FallbackCommitEntry := do
  let (key, rest) ← getline tab text
  let (expectedVersion, rest) ← getline tab rest
  let (targetValue, rest) ← getline tab rest
  let (previousValue, rest) ← getline tab rest
  let (previousVersion, rest) ← getline tab rest
  let (previousExists, _) ← getline newline rest
  return { key, expectedVersion := strtoull expectedVersion, targetValue, previousValue,
           previousVersion := strtoull previousVersion,
           previousExists := previousExists = ascii "1" }

def escaped (e : FallbackCommitEntry) : FallbackCommitEntry :=
  { e with key := escapeCommitLogText e.key, targetValue := escapeCommitLogText e.targetValue,
           previousValue := escapeCommitLogText e.previousValue }

def unescaped (e : FallbackCommitEntry) : FallbackCommitEntry :=
  { e with key := unescapeCommitLogText e.key, targetValue := unescapeCommitLogText e.targetValue,
           previousValue := unescapeCommitLogText e.previousValue }

end FallbackCommitEntry

namespace FallbackCommitArtifact

/-- The text `WriteFallbackCommitArtifact` writes. -/
def text (a : FallbackCommitArtifact) : Bytes :=
  unlines newline
    ([kFallbackCommitHeader,
      ascii "txn_id=" ++ escapeCommitLogText a.txnId,
      ascii "task_id=" ++ escapeCommitLogText a.taskId,
      ascii "phase=" ++ fallbackCommitPhaseName a.phase,
      ascii "applied_count=" ++ decimal a.appliedCount,
      ascii "entry_count=" ++ decimal a.entries.length,
      entriesMarker] ++ a.entries.map FallbackCommitEntry.line)

/-- A header line, by its key. -/
def setField (a : FallbackCommitArtifact) (key value : Bytes) : FallbackCommitArtifact :=
  if key = ascii "txn_id" then { a with txnId := value }
  else if key = ascii "task_id" then { a with taskId := value }
  else if key = ascii "phase" then { a with phase := fallbackCommitPhaseFromName value }
  else if key = ascii "applied_count" then { a with appliedCount := (strtoull value).toNat }
  else a

/-- The loop over the lines after the header. -/
def readLines : Bool → List Bytes → FallbackCommitArtifact → Bool × FallbackCommitArtifact
  | _, [], a => (true, a)
  | inEntries, line :: rest, a =>
    if line = [] then readLines inEntries rest a
    else if line = entriesMarker then readLines true rest a
    else if !inEntries then
      match splitOnce 61 line with
      | none => (false, a)
      | some (key, value) => readLines inEntries rest (a.setField key value)
    else
      match FallbackCommitEntry.readLine line with
      | none => (false, a)
      | some entry => readLines inEntries rest { a with entries := a.entries ++ [entry] }

def unescaped (a : FallbackCommitArtifact) : FallbackCommitArtifact :=
  { a with txnId := unescapeCommitLogText a.txnId, taskId := unescapeCommitLogText a.taskId,
           entries := a.entries.map FallbackCommitEntry.unescaped }

end FallbackCommitArtifact

def writeFallbackCommitArtifact (artifact : FallbackCommitArtifact) (outputPath : Bytes) :
    Prog Bool :=
  Files.replace outputPath artifact.text

/-- `ParseFallbackCommitArtifact` on the contents of a file, none if it does not open. -/
def parseFallbackCommitArtifact (contents : Option Bytes) (artifact : FallbackCommitArtifact) :
    Bool × FallbackCommitArtifact :=
  match contents.bind (getline newline) with
  | none => (false, artifact)
  | some (line, rest) =>
    if line ≠ kFallbackCommitHeader then (false, artifact)
    else
      match FallbackCommitArtifact.readLines false (lines newline rest)
          { artifact with entries := [] } with
      | (false, a) => (false, a)
      | (true, a) => (decide (a.appliedCount ≤ a.entries.length), a.unescaped)

/-! ### Reading back what was written -/

theorem phaseFromName_phaseName (phase : FallbackCommitPhase) :
    fallbackCommitPhaseFromName (fallbackCommitPhaseName phase) = phase := by
  cases phase <;> decide

theorem newline_notMem_phaseName (phase : FallbackCommitPhase) :
    newline ∉ fallbackCommitPhaseName phase := by
  cases phase <;> decide

theorem tab_notMem_decimal (n : ℕ) : tab ∉ decimal n := notMem_decimal (by decide) n

theorem newline_notMem_decimal (n : ℕ) : newline ∉ decimal n := notMem_decimal (by decide) n

namespace FallbackCommitEntry

theorem readLine_line (e : FallbackCommitEntry) : readLine e.line = some e.escaped := by
  have hexists : getline newline (if e.previousExists then ascii "1" else ascii "0") =
      some (if e.previousExists then ascii "1" else ascii "0", []) := by
    cases e.previousExists <;> decide
  have hflag : decide ((if e.previousExists then ascii "1" else ascii "0") = ascii "1") =
      e.previousExists := by
    cases e.previousExists <;> decide
  simp only [readLine, line, escapeCommitLogText, getline_append (tab_notMem_escape _),
    getline_append (tab_notMem_decimal _), Option.bind_eq_bind, Option.bind_some, hexists,
    strtoull_decimal, hflag]
  rfl

theorem newline_notMem_line (e : FallbackCommitEntry) : newline ∉ e.line := by
  have htab : newline ≠ tab := by decide
  have hexists : newline ∉ (if e.previousExists then ascii "1" else ascii "0") := by
    cases e.previousExists <;> decide
  simp only [line, escapeCommitLogText, List.mem_append, List.mem_cons, newline_notMem_escape,
    newline_notMem_decimal, htab, hexists, or_self, not_false_eq_true]

theorem tab_mem_line (e : FallbackCommitEntry) : tab ∈ e.line := by simp [line]

theorem line_ne_nil (e : FallbackCommitEntry) : e.line ≠ [] := List.ne_nil_of_mem e.tab_mem_line

theorem line_ne_marker (e : FallbackCommitEntry) : e.line ≠ entriesMarker := by
  intro h
  have htab : tab ∉ entriesMarker := by decide
  exact htab (h ▸ e.tab_mem_line)

theorem unescaped_escaped (e : FallbackCommitEntry) : e.escaped.unescaped = e := by
  simp [escaped, unescaped, escapeCommitLogText, unescapeCommitLogText, Escaping.unescape_escape]

theorem line_injective : Function.Injective line := by
  intro e f h
  have hread := congrArg readLine h
  rw [readLine_line, readLine_line, Option.some.injEq] at hread
  rw [← e.unescaped_escaped, hread, f.unescaped_escaped]

end FallbackCommitEntry

namespace FallbackCommitArtifact

theorem readLines_entries (es : List FallbackCommitEntry) (a : FallbackCommitArtifact) :
    readLines true (es.map FallbackCommitEntry.line) a =
      (true, { a with entries := a.entries ++ es.map FallbackCommitEntry.escaped }) := by
  induction es generalizing a with
  | nil => simp [readLines]
  | cons e es ih =>
    rw [List.map_cons, readLines, if_neg e.line_ne_nil, if_neg e.line_ne_marker, if_neg (by simp),
      e.readLine_line]
    simp only [ih, List.append_assoc, List.singleton_append, List.map_cons]

/-- A header line `key=value` sets its field. -/
theorem readLines_field {key : Bytes} (hkey : (61 : Byte) ∉ key) (value : Bytes) (rest : List Bytes)
    (a : FallbackCommitArtifact) (hm : key ++ 61 :: value ≠ entriesMarker) :
    readLines false ((key ++ 61 :: value) :: rest) a =
      readLines false rest (a.setField key value) := by
  rw [readLines, if_neg (by simp), if_neg hm, if_pos (by simp), splitOnce_append hkey]

/-- The header fields and all entries, as read. -/
theorem readLines_text (a a₀ : FallbackCommitArtifact) (h₀ : a₀.entries = []) :
    readLines false
      ([ascii "txn_id=" ++ escapeCommitLogText a.txnId,
        ascii "task_id=" ++ escapeCommitLogText a.taskId,
        ascii "phase=" ++ fallbackCommitPhaseName a.phase,
        ascii "applied_count=" ++ decimal a.appliedCount,
        ascii "entry_count=" ++ decimal a.entries.length,
        entriesMarker] ++ a.entries.map FallbackCommitEntry.line) a₀ =
      (true, { a with txnId := escapeCommitLogText a.txnId, taskId := escapeCommitLogText a.taskId,
                      appliedCount := (strtoull (decimal a.appliedCount)).toNat,
                      entries := a.entries.map FallbackCommitEntry.escaped }) := by
  have hfield : ∀ (key value : Bytes), key.head? ≠ some 91 → key ≠ [] →
      key ++ 61 :: value ≠ entriesMarker := by
    intro key value hhead hne h
    apply hhead
    rw [← List.head?_append_of_ne_nil key hne, h]
    decide
  have hsplit : ∀ (s value : Bytes) (key : Bytes), s = key ++ [61] →
      s ++ value = key ++ 61 :: value := by
    rintro _ value key rfl
    simp
  simp only [List.cons_append, List.nil_append]
  rw [hsplit (ascii "txn_id=") _ (ascii "txn_id") (by decide),
    readLines_field (by decide) _ _ _ (hfield _ _ (by decide) (by decide)),
    hsplit (ascii "task_id=") _ (ascii "task_id") (by decide),
    readLines_field (by decide) _ _ _ (hfield _ _ (by decide) (by decide)),
    hsplit (ascii "phase=") _ (ascii "phase") (by decide),
    readLines_field (by decide) _ _ _ (hfield _ _ (by decide) (by decide)),
    hsplit (ascii "applied_count=") _ (ascii "applied_count") (by decide),
    readLines_field (by decide) _ _ _ (hfield _ _ (by decide) (by decide)),
    hsplit (ascii "entry_count=") _ (ascii "entry_count") (by decide),
    readLines_field (by decide) _ _ _ (hfield _ _ (by decide) (by decide)),
    readLines, if_neg (by decide), if_pos rfl, readLines_entries]
  simp only [setField, show ascii "task_id" ≠ ascii "txn_id" by decide,
    show ascii "phase" ≠ ascii "txn_id" by decide, show ascii "phase" ≠ ascii "task_id" by decide,
    show ascii "applied_count" ≠ ascii "txn_id" by decide,
    show ascii "applied_count" ≠ ascii "task_id" by decide,
    show ascii "applied_count" ≠ ascii "phase" by decide,
    show ascii "entry_count" ≠ ascii "txn_id" by decide,
    show ascii "entry_count" ≠ ascii "task_id" by decide,
    show ascii "entry_count" ≠ ascii "phase" by decide,
    show ascii "entry_count" ≠ ascii "applied_count" by decide,
    ↓reduceIte, phaseFromName_phaseName, h₀, List.nil_append]

theorem newline_notMem_lines (a : FallbackCommitArtifact) :
    ∀ l ∈ [ascii "txn_id=" ++ escapeCommitLogText a.txnId,
        ascii "task_id=" ++ escapeCommitLogText a.taskId,
        ascii "phase=" ++ fallbackCommitPhaseName a.phase,
        ascii "applied_count=" ++ decimal a.appliedCount,
        ascii "entry_count=" ++ decimal a.entries.length,
        entriesMarker] ++ a.entries.map FallbackCommitEntry.line, newline ∉ l := by
  have happ : ∀ {s t : Bytes}, newline ∉ s → newline ∉ t → newline ∉ s ++ t := by
    intro s t hs ht
    simp [hs, ht]
  intro l hl
  simp only [List.cons_append, List.nil_append, List.mem_cons, List.mem_map] at hl
  rcases hl with rfl | rfl | rfl | rfl | rfl | rfl | ⟨e, _, rfl⟩
  · exact happ (by decide) (newline_notMem_escape _)
  · exact happ (by decide) (newline_notMem_escape _)
  · exact happ (by decide) (newline_notMem_phaseName _)
  · exact happ (by decide) (newline_notMem_decimal _)
  · exact happ (by decide) (newline_notMem_decimal _)
  · decide
  · exact e.newline_notMem_line

theorem lines_text (a : FallbackCommitArtifact) : lines newline a.text = kFallbackCommitHeader ::
    ([ascii "txn_id=" ++ escapeCommitLogText a.txnId,
      ascii "task_id=" ++ escapeCommitLogText a.taskId,
      ascii "phase=" ++ fallbackCommitPhaseName a.phase,
      ascii "applied_count=" ++ decimal a.appliedCount,
      ascii "entry_count=" ++ decimal a.entries.length,
      entriesMarker] ++ a.entries.map FallbackCommitEntry.line) :=
  lines_unlines (List.forall_mem_cons.2 ⟨by decide, a.newline_notMem_lines⟩)

/-- The text of an artifact tells its phase, however long its lists are. -/
theorem phase_eq_of_text_eq {a b : FallbackCommitArtifact} (h : a.text = b.text) :
    a.phase = b.phase := by
  have heq := congrArg (lines newline) h
  rw [lines_text, lines_text] at heq
  simp only [List.cons_append, List.cons.injEq, List.append_cancel_left_eq] at heq
  rw [← phaseFromName_phaseName a.phase, heq.2.2.2.1, phaseFromName_phaseName]

/-- The text of an artifact tells its entries. -/
theorem entries_eq_of_text_eq {a b : FallbackCommitArtifact} (h : a.text = b.text) :
    a.entries = b.entries := by
  have heq := congrArg (lines newline) h
  rw [lines_text, lines_text] at heq
  simp only [List.cons_append, List.nil_append, List.cons.injEq] at heq
  have hlines : a.entries.map FallbackCommitEntry.line = b.entries.map FallbackCommitEntry.line :=
    heq.2.2.2.2.2.2.2
  exact List.map_injective_iff.2 FallbackCommitEntry.line_injective hlines

/-- The artifact with the count of applied entries that is read from its text. -/
def recounted (a : FallbackCommitArtifact) : FallbackCommitArtifact :=
  { a with appliedCount := (strtoull (decimal a.appliedCount)).toNat }

theorem recounted_of_lt {a : FallbackCommitArtifact} (hcount : a.appliedCount < 2 ^ 64) :
    a.recounted = a := by
  have h := strtoull_decimal (UInt64.ofNat a.appliedCount)
  rw [UInt64.toNat_ofNat_of_lt' hcount] at h
  rw [recounted, h, UInt64.toNat_ofNat_of_lt' hcount]

end FallbackCommitArtifact

/-- An artifact is read back as it was written, but for a count that is too large, and
accepted unless it counts more applied entries than it has. -/
theorem parseFallbackCommitArtifact_recounted (a a₀ : FallbackCommitArtifact) :
    parseFallbackCommitArtifact (some a.text) a₀ =
      (decide (a.recounted.appliedCount ≤ a.entries.length), a.recounted) := by
  have hheader : newline ∉ kFallbackCommitHeader := by decide
  have hmap : (a.entries.map FallbackCommitEntry.escaped).map FallbackCommitEntry.unescaped =
      a.entries := by
    simp [List.map_map, Function.comp_def, FallbackCommitEntry.unescaped_escaped]
  rw [parseFallbackCommitArtifact, Option.bind_some, FallbackCommitArtifact.text, List.cons_append,
    unlines_cons, getline_append hheader]
  simp only [ne_eq, not_true_eq_false, ↓reduceIte]
  rw [lines_unlines a.newline_notMem_lines, FallbackCommitArtifact.readLines_text a _ rfl]
  simp only [FallbackCommitArtifact.unescaped, hmap, escapeCommitLogText, unescapeCommitLogText,
    Escaping.unescape_escape, List.length_map]
  rfl

theorem parseFallbackCommitArtifact_text (a a₀ : FallbackCommitArtifact)
    (hcount : a.appliedCount < 2 ^ 64) :
    parseFallbackCommitArtifact (some a.text) a₀ =
      (decide (a.appliedCount ≤ a.entries.length), a) := by
  rw [parseFallbackCommitArtifact_recounted, FallbackCommitArtifact.recounted_of_lt hcount]

/-- Every artifact a vector can hold is read back as it was written. -/
theorem parseFallbackCommitArtifact_written (a a₀ : FallbackCommitArtifact)
    (hcount : a.appliedCount ≤ a.entries.length) (hsize : a.entries.length < 2 ^ 64) :
    parseFallbackCommitArtifact (some a.text) a₀ = (true, a) := by
  rw [parseFallbackCommitArtifact_text a a₀ (by omega), decide_eq_true hcount]

/-- An artifact, with a count that fits a word, is read back from the file it was written
to, whatever the record it is read into held before. -/
theorem parseFallbackCommitArtifact_read (kind : StoreKind) (artifact held : FallbackCommitArtifact)
    (path : Bytes) (w : World) (hcount : artifact.appliedCount ≤ artifact.entries.length)
    (hword : artifact.appliedCount < 2 ^ 64) :
    ((do
      let _ ← writeFallbackCommitArtifact artifact path
      return parseFallbackCommitArtifact (← Files.read path) held).run (handle kind) w).1 =
        (true, artifact) := by
  have hfile : (AList.insert path artifact.text w.files).lookup path = some artifact.text :=
    AList.lookup_insert _
  have hread := parseFallbackCommitArtifact_text artifact held hword
  rw [decide_eq_true hcount] at hread
  exact (congrArg (parseFallbackCommitArtifact · held) hfile).trans hread

/-- An artifact full of separators, empty texts and the marker of the entries. -/
def awkwardArtifact : FallbackCommitArtifact where
  txnId := ascii "[entries]\n"
  taskId := ascii "a=b"
  phase := .rollingBack
  appliedCount := 1
  entries := [
    { key := [], expectedVersion := 18446744073709551615, targetValue := ascii "\t\\",
      previousExists := true },
    { key := ascii "[entries]", previousValue := ascii "\n\n" }]

theorem parseFallbackCommitArtifact_read_awkward :
    ((do
      let _ ← writeFallbackCommitArtifact awkwardArtifact (ascii "f")
      return parseFallbackCommitArtifact (← Files.read (ascii "f"))
        { entries := [{ key := ascii "old" }] }).run
        (handle .nonBatchMemory) {}).1 = (true, awkwardArtifact) :=
  parseFallbackCommitArtifact_read .nonBatchMemory awkwardArtifact _ (ascii "f")
    {} (by decide) (by decide)

end DataAgentSystem.AgentTxn
