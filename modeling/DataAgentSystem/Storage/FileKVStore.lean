import DataAgentSystem.Interaction.Program
import DataAgentSystem.Storage.SnapshotText

/-! The file-backed store. Its map is kept in memory and written out whole after every
change: a journal announces the replacement, a temporary file takes the snapshot, a
rename puts it in place, and the journal is removed. Streams write byte by byte, so a
crash leaves some prefix of the file that was being written. -/

namespace DataAgentSystem.Storage

open Text Containers Interaction

/-- What the store asks of the file system. -/
inductive DiskCall where
  | openTruncated (path : Bytes)
  | append (path : Bytes) (byte : Byte)
  | flush (path : Bytes)
  | rename (source target : Bytes)
  | remove (path : Bytes)
  | isGood (path : Bytes)
  | contents (path : Bytes)
  deriving DecidableEq

@[reducible] def DiskCall.Resp : DiskCall → Type
  | .append _ _ => Unit
  | .contents _ => Option Bytes
  | _ => Bool

abbrev DiskProg (α : Type) := Program DiskCall DiskCall.Resp α

abbrev DiskCall.perform (op : DiskCall) : DiskProg op.Resp := Program.perform op

abbrev Disk := UnorderedMap Bytes

/-- The answer of a disk on which every operation that can succeed does. -/
def handleDisk : Handler DiskCall DiskCall.Resp Disk
  | .openTruncated path, d => (true, d.insert path [])
  | .append path byte, d => ((), d.insert path ((d.lookup path).getD [] ++ [byte]))
  | .flush _, d => (true, d)
  | .rename source target, d => match d.lookup source with
    | none => (false, d)
    | some contents => (true, (d.erase source).insert target contents)
  | .remove path, d => ((d.lookup path).isSome, d.erase path)
  | .isGood path, d => ((d.lookup path).isSome, d)
  | .contents path, d => (d.lookup path, d)

/-- Some order in which the hash map of the store is iterated. -/
structure IterationOrder where
  pairs : UnorderedMap Entry → List (Bytes × Entry)
  perm : ∀ values, (pairs values).Perm (values.entries.map fun entry => (entry.1, entry.2))

/-- The order in which the entries are kept. -/
def IterationOrder.stored : IterationOrder where
  pairs values := values.entries.map fun entry => (entry.1, entry.2)
  perm _ := .refl _

namespace FileKVStore

def kJournalHeader : Bytes := ascii "DAS_KV_JOURNAL_V1"

def tempPath (path : Bytes) : Bytes := path ++ ascii ".tmp"

def journalPath (path : Bytes) : Bytes := path ++ ascii ".journal"

/-- The text `WriteJournalUnlocked` writes. -/
def journalText (path : Bytes) : Bytes :=
  unlines newline
    [kJournalHeader, ascii "target=" ++ escape path, ascii "temp=" ++ escape (tempPath path),
      ascii "mode=replace_with_temp"]

def appendAll (path : Bytes) : Bytes → DiskProg Unit
  | [] => return ()
  | byte :: bytes => do
    (DiskCall.append path byte).perform
    appendAll path bytes

/-- An output stream of its own: open, write, flush. -/
def writeFile (path text : Bytes) : DiskProg Bool := do
  if !(← (DiskCall.openTruncated path).perform) then return false
  appendAll path text
  (DiskCall.flush path).perform

def writeJournalUnlocked (path : Bytes) : DiskProg Bool :=
  writeFile (journalPath path) (journalText path)

def writeSnapshotUnlocked (order : IterationOrder) (outputPath : Bytes)
    (values : UnorderedMap Entry) : DiskProg Bool :=
  writeFile outputPath (snapshotText (order.pairs values))

def persistToDisk (order : IterationOrder) (path : Bytes) (values : UnorderedMap Entry) :
    DiskProg Bool := do
  if !(← writeJournalUnlocked path) then return false
  if !(← writeSnapshotUnlocked order (tempPath path) values) then return false
  if !(← (DiskCall.rename (tempPath path) path).perform) then return false
  (DiskCall.remove (journalPath path)).perform

def recoverIfNeededUnlocked (path : Bytes) : DiskProg Bool := do
  let hasJournal ← (DiskCall.isGood (journalPath path)).perform
  let hasTemp ← (DiskCall.isGood (tempPath path)).perform
  if hasJournal && hasTemp then
    if !(← (DiskCall.rename (tempPath path) path).perform) then return false
    (DiskCall.remove (journalPath path)).perform
  else if hasJournal && !hasTemp then (DiskCall.remove (journalPath path)).perform
  else if !hasJournal && hasTemp then (DiskCall.remove (tempPath path)).perform
  else return true

/-- The success of the load and the map it leaves; this is what `Reload` and the constructor run. -/
def loadFromDiskUnlocked (path : Bytes) : DiskProg (Bool × UnorderedMap Entry) := do
  if !(← recoverIfNeededUnlocked path) then return (false, ∅)
  return readSnapshot (← (DiskCall.contents path).perform)

/-! ### Writing a file -/

section WriteFile

variable {α : Type} {path text : Bytes} {d : Disk}

theorem advance_appendAll (f : Unit → DiskProg α) (n : ℕ) (written : Bytes) :
    (appendAll path text >>= f).advance handleDisk (text.length + n) (d.insert path written) =
      (f ()).advance handleDisk n (d.insert path (written ++ text)) := by
  induction text generalizing written with
  | nil => rw [List.length_nil, Nat.zero_add, List.append_nil]; rfl
  | cons byte text ih =>
    have hlen : (byte :: text).length + n = (text.length + n) + 1 := by rw [List.length_cons]; omega
    have hstep : handleDisk (.append path byte) (d.insert path written) =
        ((), d.insert path (written ++ [byte])) := by
      simp [handleDisk, AList.lookup_insert, AList.insert_insert]
    rw [hlen, appendAll, Program.bind_bind, Program.perform_bind, Program.advance_call,
      hstep, ih, List.append_assoc]
    rfl

theorem crash_appendAll (f : Unit → DiskProg α) {n : ℕ} (hn : n ≤ text.length) (written : Bytes) :
    (appendAll path text >>= f).crash handleDisk n (d.insert path written) =
      d.insert path (written ++ text.take n) := by
  induction text generalizing n written with
  | nil =>
    obtain rfl : n = 0 := Nat.le_zero.1 hn
    rw [List.take_nil, List.append_nil]
    rfl
  | cons byte text ih =>
    cases n with
    | zero => rw [List.take_zero, List.append_nil]; rfl
    | succ n =>
      have hstep : handleDisk (.append path byte) (d.insert path written) =
          ((), d.insert path (written ++ [byte])) := by
        simp [handleDisk, AList.lookup_insert, AList.insert_insert]
      have hrest := ih (Nat.le_of_succ_le_succ hn) (written ++ [byte])
      rw [Program.crash] at hrest ⊢
      rw [appendAll, Program.bind_bind, Program.perform_bind, Program.advance_call, hstep,
        hrest, List.append_assoc]
      rfl

/-- Past the last call of a write, the file is complete. -/
theorem advance_writeFile (f : Bool → DiskProg α) (n : ℕ) :
    (writeFile path text >>= f).advance handleDisk (text.length + 2 + n) d =
      (f true).advance handleDisk n (d.insert path text) := by
  have hlen : text.length + 2 + n = (text.length + (n + 1)) + 1 := by omega
  rw [hlen, writeFile, Program.bind_bind, Program.perform_bind, Program.advance_call]
  simp only [handleDisk, Bool.not_true, Bool.false_eq_true, ↓reduceIte]
  rw [Program.bind_bind, advance_appendAll, List.nil_append,
    Program.perform_bind, Program.advance_call]
  rfl

/-- Within a write, the file is there from the first call on, with what was written so far. -/
theorem crash_writeFile (f : Bool → DiskProg α) {n : ℕ} (hn : n ≤ text.length + 1) :
    (writeFile path text >>= f).crash handleDisk n d = if n = 0 then d
      else d.insert path (text.take (n - 1)) := by
  cases n with
  | zero => rfl
  | succ n =>
    have hrest : (appendAll path text >>= fun _ => (DiskCall.flush path).perform >>= f).crash
      handleDisk n
        (d.insert path []) = d.insert path (text.take n) :=
          crash_appendAll _ (Nat.le_of_succ_le_succ hn) []
    rw [if_neg (Nat.succ_ne_zero n), Nat.add_sub_cancel, Program.crash,
      writeFile, Program.bind_bind, Program.perform_bind, Program.advance_call]
    simp only [handleDisk, Bool.not_true, Bool.false_eq_true, ↓reduceIte]
    rw [Program.bind_bind]
    exact hrest

end WriteFile

/-! ### The three files -/

section Paths
variable (path : Bytes)

theorem tempPath_ne : tempPath path ≠ path := by
  intro h
  have hlen := congrArg List.length h
  have hsuffix : (ascii ".tmp").length = 4 := rfl
  rw [tempPath, List.length_append] at hlen
  omega

theorem journalPath_ne : journalPath path ≠ path := by
  intro h
  have hlen := congrArg List.length h
  have hsuffix : (ascii ".journal").length = 8 := rfl
  rw [journalPath, List.length_append] at hlen
  omega

theorem tempPath_ne_journalPath : tempPath path ≠ journalPath path := by
  intro h
  have hsuffix : ascii ".tmp" = ascii ".journal" := List.append_cancel_left h
  exact absurd hsuffix (by decide)

end Paths

/-- No replacement is under way. -/
structure Clean (path : Bytes) (d : Disk) : Prop where
  journal : d.lookup (journalPath path) = none
  temp : d.lookup (tempPath path) = none

/-- The contents that recovery puts in place. -/
def snapshotAt (path : Bytes) (d : Disk) : Option Bytes :=
  if (d.lookup (journalPath path)).isSome then (d.lookup (tempPath path)).or (d.lookup path)
    else d.lookup path

theorem Clean.snapshotAt {path : Bytes} {d : Disk} (h : Clean path d) :
    snapshotAt path d = d.lookup path := by
  rw [FileKVStore.snapshotAt, h.journal]
  rfl

/-- A recovery leaves the file with what it was to hold, and nothing else. -/
theorem run_recover (path : Bytes) (d : Disk) :
    ∃ d', (recoverIfNeededUnlocked path).run handleDisk d = (true, d') ∧ Clean path d' ∧
      d'.lookup path = snapshotAt path d := by
  have hpt := tempPath_ne path
  have hpj := journalPath_ne path
  have htj := tempPath_ne_journalPath path
  rw [recoverIfNeededUnlocked, Program.perform_bind, Program.run_call,
    Program.perform_bind, Program.run_call, snapshotAt]
  rcases Option.eq_none_or_eq_some
    (d.lookup (journalPath path)) with hjournal | ⟨journal, hjournal⟩ <;>
    rcases Option.eq_none_or_eq_some (d.lookup (tempPath path)) with htemp | ⟨contents, htemp⟩ <;>
    simp only [handleDisk, hjournal, htemp]
  · exact ⟨d, rfl, ⟨hjournal, htemp⟩, rfl⟩
  · refine ⟨d.erase (tempPath path), ?_, ⟨?_, ?_⟩, ?_⟩
    · simp [DiskCall.perform, Program.perform, handleDisk, htemp]
    · rw [AList.lookup_erase_ne (Ne.symm htj), hjournal]
    · exact AList.lookup_erase _ _
    · simp [Ne.symm hpt]
  · refine ⟨d.erase (journalPath path), ?_, ⟨?_, ?_⟩, ?_⟩
    · simp [DiskCall.perform, Program.perform, handleDisk, hjournal]
    · exact AList.lookup_erase _ _
    · rw [AList.lookup_erase_ne htj, htemp]
    · simp [Ne.symm hpj]
  · refine ⟨((d.erase (tempPath path)).insert path contents).erase (journalPath path), ?_,
      ⟨?_, ?_⟩, ?_⟩
    · simp [DiskCall.perform, Program.perform, handleDisk, htemp, hpj, hjournal, Ne.symm htj]
    · exact AList.lookup_erase _ _
    · rw [AList.lookup_erase_ne htj, AList.lookup_insert_ne hpt, AList.lookup_erase]
    · simp [Ne.symm hpj]

/-- A load reads what recovery put in place. -/
theorem run_load (path : Bytes) (d : Disk) :
    ∃ d', (loadFromDiskUnlocked path).run handleDisk d = (readSnapshot (snapshotAt path d), d') ∧
      Clean path d' ∧
      d'.lookup path = snapshotAt path d := by
  obtain ⟨d', hrun, hclean, hpath⟩ := run_recover path d
  refine ⟨d', ?_, hclean, hpath⟩
  rw [loadFromDiskUnlocked, Program.run_bind, hrun]
  simp only [Bool.not_true, Bool.false_eq_true, ↓reduceIte]
  rw [Program.perform_bind, Program.run_call, ← hpath]
  rfl

/-! ### Replacing the snapshot -/

section Persist

variable {order : IterationOrder} {path : Bytes} {values : UnorderedMap Entry} {d : Disk}

theorem run_writeFile {α : Type} {text : Bytes} (f : Bool → DiskProg α) :
    (writeFile path text >>= f).run handleDisk d =
      (f true).run handleDisk (d.insert path text) := by
  rw [← Program.run_advance handleDisk (text.length + 2 + 0),
    advance_writeFile, Program.advance_zero]

/-- A replacement that is not interrupted. -/
theorem run_persistToDisk (order : IterationOrder) (path : Bytes) (values : UnorderedMap Entry)
    (d : Disk) :
    ∃ d', (persistToDisk order path values).run handleDisk d = (true, d') ∧ Clean path d' ∧
      d'.lookup path = some (snapshotText (order.pairs values)) := by
  have hpt := tempPath_ne path
  have hpj := journalPath_ne path
  have htj := tempPath_ne_journalPath path
  refine ⟨((((d.insert (journalPath path) (journalText path)).insert (tempPath path)
    (snapshotText (order.pairs values))).erase (tempPath path)).insert path
      (snapshotText (order.pairs values))).erase (journalPath path), ?_, ⟨?_, ?_⟩, ?_⟩
  · rw [persistToDisk, writeJournalUnlocked, run_writeFile]
    simp only [Bool.not_true, Bool.false_eq_true, ↓reduceIte]
    rw [writeSnapshotUnlocked, run_writeFile]
    simp [DiskCall.perform, Program.perform, handleDisk, hpj, Ne.symm htj]
  · simp
  · simp [hpt, htj]
  · simp [Ne.symm hpj]

/-- Until the temporary file is there, recovery puts the old snapshot in place. -/
theorem snapshotAt_crash_early (hclean : Clean path d) {n : ℕ}
    (hn : n ≤ (journalText path).length + 2) :
    snapshotAt path ((persistToDisk order path values).crash handleDisk n d) = d.lookup path := by
  have hpj := journalPath_ne path
  have htj := tempPath_ne_journalPath path
  have htemp := hclean.temp
  have hwritten : ∀ text, snapshotAt path (d.insert (journalPath path) text) = d.lookup path := by
    intro text
    simp [snapshotAt, htemp, htj, Ne.symm hpj]
  rw [persistToDisk, writeJournalUnlocked]
  by_cases hjournal : n ≤ (journalText path).length + 1
  · rw [crash_writeFile _ hjournal]
    split
    next => exact hclean.snapshotAt
    next => exact hwritten _
  · obtain rfl : n = (journalText path).length + 2 + 0 := by omega
    rw [Program.crash, advance_writeFile]
    exact hwritten _

/-- From then on it puts in place as much of the new one as was written. -/
theorem snapshotAt_crash_late (m : ℕ) :
    snapshotAt path
      ((persistToDisk order path values).crash handleDisk ((journalText path).length + 3 + m) d) =
      some ((snapshotText (order.pairs values)).take m) := by
  have hpt := tempPath_ne path
  have hpj := journalPath_ne path
  have htj := tempPath_ne_journalPath path
  have hlen : (journalText path).length + 3 + m = (journalText path).length + 2 + (m + 1) := by
    omega
  have hwritten : ∀ text,
    snapshotAt path ((d.insert (journalPath path) (journalText path)).insert (tempPath path) text) =
      some text := by
    intro text
    simp [snapshotAt, Ne.symm htj]
  rw [persistToDisk, writeJournalUnlocked, Program.crash, hlen, advance_writeFile]
  simp only [Bool.not_true, Bool.false_eq_true, ↓reduceIte]
  rw [writeSnapshotUnlocked]
  by_cases hsnapshot : m ≤ (snapshotText (order.pairs values)).length
  · change snapshotAt path (Program.crash handleDisk (m + 1) _ _) = _
    rw [crash_writeFile _ (by omega), if_neg (Nat.succ_ne_zero m), Nat.add_sub_cancel]
    exact hwritten _
  obtain ⟨k, rfl⟩ : ∃ k, m = (snapshotText (order.pairs values)).length + 1 + k :=
    ⟨m - ((snapshotText (order.pairs values)).length + 1), by omega⟩
  have hlen' : (snapshotText (order.pairs values)).length + 1 + k + 1 =
      (snapshotText (order.pairs values)).length + 2 + k := by omega
  rw [hlen', advance_writeFile, List.take_of_length_le (by omega)]
  simp only [Bool.not_true, Bool.false_eq_true, ↓reduceIte]
  cases k with
  | zero => exact hwritten _
  | succ k =>
    have hrename : handleDisk (.rename (tempPath path) path)
      ((d.insert (journalPath path) (journalText path)).insert
        (tempPath path) (snapshotText (order.pairs values))) = (true, (((d.insert (journalPath path)
          (journalText path)).insert (tempPath path) (snapshotText (order.pairs values))).erase
            (tempPath path)).insert
            path (snapshotText (order.pairs values))) := by simp [handleDisk]
    rw [Program.perform_bind, Program.advance_call, hrename]
    cases k with
    | zero => simp [snapshotAt, hpj, hpt, Ne.symm htj]
    | succ k => simp [snapshotAt, DiskCall.perform, Program.perform, handleDisk, Ne.symm hpj]

end Persist

end FileKVStore

end DataAgentSystem.Storage
