import DataAgentSystem.AgentTxn.CommitLogRecovery
import DataAgentSystem.Containers.KeyedLog

/-! Recovery as the acceptance of a log. An entry fits a key that is at the version it
expects, and a key that holds just what the entry writes. So recovery succeeds exactly
if the entries of each key fit one after the other, and then every key holds what its
last entry writes. A second recovery starts with the first entries once more. -/

namespace DataAgentSystem.AgentTxn

open Text Containers Storage Interaction

/-- What the key of an entry holds once the entry has been written. -/
def ParsedCommitLogEntry.written (entry : ParsedCommitLogEntry) : VersionedValue where
  value := entry.value
  version := entry.expectedVersion + 1
  exists_ := true

/-- The entries of commit logs, as recovery takes them. -/
def redo : KeyedLog ParsedCommitLogEntry Bytes VersionedValue where
  key := ParsedCommitLogEntry.key
  Fits entry current := current = entry.written ∨ current.version = entry.expectedVersion
  after := ParsedCommitLogEntry.written

/-- The entries that recovery takes from a log. -/
def ParsedCommitLogArtifact.committedEntries (artifact : ParsedCommitLogArtifact) :
    List ParsedCommitLogEntry :=
  if artifact.metadata.lookup (ascii "status") = some (ascii "COMMITTED") then artifact.entries
  else []

/-- The entries that recovery takes from all logs, none if one of them cannot be read. -/
def committedEntries (files : UnorderedMap Bytes) : List Bytes → Option (List ParsedCommitLogEntry)
  | [] => some []
  | path :: paths => do
    let artifact ← parseCommitLogArtifact (files.lookup path)
    let entries ← committedEntries files paths
    return artifact.committedEntries ++ entries

variable {kind : StoreKind} {w : World} {paths : List Bytes} {entries : List ParsedCommitLogEntry}

/-! ### One log -/

theorem skips_iff {entry : ParsedCommitLogEntry} {current : VersionedValue} :
    (current.exists_ ∧ current.version = entry.expectedVersion + 1 ∧ current.value = entry.value) ↔
      current = entry.written := by
  obtain ⟨value, version, exists_⟩ := current
  simp only [ParsedCommitLogEntry.written, VersionedValue.mk.injEq]
  constructor
  · rintro ⟨hexists, hversion, hvalue⟩
    exact ⟨hvalue, hversion, hexists⟩
  · rintro ⟨hvalue, hversion, hexists⟩
    exact ⟨hexists, hversion, hvalue⟩

/-- A key that is at the version an entry expects holds the entry after it is written. -/
theorem get_write_entry {s : MemoryKVStore} {entry : ParsedCommitLogEntry}
    (h : s.getVersion entry.key = entry.expectedVersion) :
    (s.write entry.key entry.value).get = Function.update s.get entry.key entry.written := by
  funext k
  rw [MemoryKVStore.get_write, Function.update_apply, ParsedCommitLogEntry.written, ← h]
  rfl

/-- The run has taken the entries, or met one that does not fit. -/
structure Redoes (w : World) (entries : List ParsedCommitLogEntry)
    (out : RecoveryResult × World) : Prop where
  files : out.2.files = w.files
  success : out.1.success = true ↔ redo.Accepts w.store.get entries
  store : out.1.success = true → out.2.store.get = redo.outcome w.store.get entries

theorem redoes_recoverEntries (entries : List ParsedCommitLogEntry) {result : RecoveryResult}
    (hresult : result.success = true) (w : World) :
    Redoes w entries ((recoverEntries entries result).run (handle kind) w) := by
  induction entries generalizing result w with
  | nil => exact ⟨rfl, iff_of_true hresult trivial, fun _ => rfl⟩
  | cons entry entries ih =>
    by_cases hskip : w.store.get entry.key = entry.written
    · have hrun : (recoverEntries (entry :: entries) result).run (handle kind) w =
          (recoverEntries entries { result with
            skippedCommittedEntryCount := result.skippedCommittedEntryCount + 1 }).run
              (handle kind) w := by
        rw [recoverEntries, Store.get_bind, Program.run_call, handle_get,
          if_pos (skips_iff.2 hskip)]
      have hsame : Function.update w.store.get (redo.key entry) (redo.after entry) = w.store.get :=
        Function.update_eq_self_iff.2 hskip.symm
      have hrest :=
          @ih { result with skippedCommittedEntryCount := result.skippedCommittedEntryCount + 1 }
          hresult w
      rw [hrun]
      refine ⟨hrest.files, hrest.success.trans ?_, fun h => (hrest.store h).trans ?_⟩
      · show _ ↔ redo.Fits entry _ ∧ redo.Accepts (Function.update _ _ _) entries
        rw [hsame]
        exact (and_iff_right (.inl hskip)).symm
      · show _ = redo.outcome (Function.update _ _ _) entries
        rw [hsame]
    · by_cases hversion : w.store.getVersion entry.key = entry.expectedVersion
      · have hwritten : (w.store.write entry.key entry.value).get =
            Function.update w.store.get (redo.key entry) (redo.after entry) :=
              get_write_entry hversion
        have hrest := @ih { result with appliedEntryCount := result.appliedEntryCount + 1 } hresult
          (withStore w (w.store.write entry.key entry.value))
        rw [run_recoverEntries_cons hversion]
        refine ⟨hrest.files, hrest.success.trans ?_, fun h => (hrest.store h).trans ?_⟩
        · show redo.Accepts (w.store.write entry.key entry.value).get entries ↔
            redo.Fits entry _ ∧ redo.Accepts (Function.update _ _ _) entries
          rw [hwritten]
          exact (and_iff_right (.inr hversion)).symm
        · show redo.outcome (w.store.write entry.key entry.value).get entries =
            redo.outcome (Function.update _ _ _) entries
          rw [hwritten]
      · have hput : (handle kind (.putIfVersion entry.key entry.expectedVersion entry.value) w).1 =
            false :=
          MemoryKVStore.putIfVersion_of_ne entry.value hversion
        rw [recoverEntries, Store.get_bind, Program.run_call, handle_get,
          if_neg (mt skips_iff.1 hskip), Store.putIfVersion_bind, Program.run_call, hput]
        refine ⟨rfl, iff_of_false Bool.false_ne_true ?_, fun h => absurd h Bool.false_ne_true⟩
        rintro ⟨hfits | hfits, -⟩
        · exact hskip hfits
        · exact hversion hfits

/-! ### A list of logs -/

theorem redoes_append {out : RecoveryResult × World} {entries' : List ParsedCommitLogEntry}
    {w' : World} (haccepts : redo.Accepts w.store.get entries) (hfiles : w'.files = w.files)
    (hstore : w'.store.get = redo.outcome w.store.get entries) (h : Redoes w' entries' out) :
    Redoes w (entries ++ entries') out := by
  refine ⟨h.files.trans hfiles, h.success.trans ?_, fun hsuccess => (h.store hsuccess).trans ?_⟩
  · rw [hstore, KeyedLog.accepts_append]
    exact (and_iff_right haccepts).symm
  · rw [hstore, KeyedLog.outcome_append]

/-- Recovery from files takes the entries of the committed logs, one after the other. -/
theorem redoes_recoverPaths (hentries : committedEntries w.files paths = some entries)
    {result : RecoveryResult} (hresult : result.success = true) :
    Redoes w entries ((recoverPaths paths result).run (handle kind) w) := by
  induction paths generalizing result w entries with
  | nil =>
    obtain rfl : [] = entries := Option.some.inj hentries
    exact ⟨rfl, iff_of_true hresult trivial, fun _ => rfl⟩
  | cons path paths ih =>
    obtain ⟨artifact, hparse, hrest⟩ := Option.bind_eq_some_iff.1 hentries
    obtain ⟨entries', hentries', heq⟩ := Option.bind_eq_some_iff.1 hrest
    obtain rfl : artifact.committedEntries ++ entries' = entries := Option.some.inj heq
    rw [recoverPaths, Files.read_bind, Program.run_call, handle_readFile, hparse]
    by_cases hstatus : artifact.metadata.lookup (ascii "status") = some (ascii "COMMITTED")
    · simp only [hstatus, ne_eq, not_true_eq_false, ↓reduceIte]
      rw [Program.run_bind]
      rw [ParsedCommitLogArtifact.committedEntries, if_pos hstatus]
      have hhead := @redoes_recoverEntries kind artifact.entries result hresult w
      cases hsuccess : ((recoverEntries artifact.entries result).run (handle kind) w).1.success with
      | false =>
        have hnot : ¬redo.Accepts w.store.get artifact.entries := fun h => by
          rw [← hhead.success, hsuccess] at h
          cases h
        simp only [Bool.not_false, ↓reduceIte]
        refine ⟨hhead.files, iff_of_false ?_ fun h => hnot (KeyedLog.accepts_append.1 h).1,
          fun h => ?_⟩
        · intro h
          exact hnot (hhead.success.1 h)
        · exact absurd (hhead.success.1 h) hnot
      | true =>
        simp only [Bool.not_true, Bool.false_eq_true, ↓reduceIte]
        have hfiles := hhead.files
        exact redoes_append (hhead.success.1 hsuccess) hfiles (hhead.store hsuccess)
          (ih (hfiles ▸ hentries') hsuccess)
    · simp only [ne_eq, hstatus, not_false_eq_true, ↓reduceIte]
      rw [ParsedCommitLogArtifact.committedEntries, if_neg hstatus, List.nil_append]
      exact ih hentries' hresult

theorem success_recoverPaths_of_none (hentries : committedEntries w.files paths = none)
    {result : RecoveryResult} (hresult : result.success = true) :
    ((recoverPaths paths result).run (handle kind) w).1.success = false := by
  induction paths generalizing result w with
  | nil => cases hentries
  | cons path paths ih =>
    rw [recoverPaths, Files.read_bind, Program.run_call, handle_readFile]
    cases hparse : parseCommitLogArtifact (w.files.lookup path) with
    | none => rfl
    | some artifact =>
      have hrest : committedEntries w.files paths = none := by
        cases hrest : committedEntries w.files paths with
        | none => rfl
        | some entries =>
          rw [committedEntries, hparse, hrest] at hentries
          cases hentries
      by_cases hstatus : artifact.metadata.lookup (ascii "status") = some (ascii "COMMITTED")
      · simp only [hstatus, ne_eq, not_true_eq_false, ↓reduceIte]
        rw [Program.run_bind]
        cases hsuccess :
            ((recoverEntries artifact.entries result).run (handle kind) w).1.success with
        | false =>
          simp only [Bool.not_false, ↓reduceIte]
          exact hsuccess
        | true =>
          simp only [Bool.not_true, Bool.false_eq_true, ↓reduceIte]
          have hfiles := (@redoes_recoverEntries kind artifact.entries result hresult w).files
          exact ih (hfiles ▸ hrest) hsuccess
      · simp only [ne_eq, hstatus, not_false_eq_true, ↓reduceIte]
        exact ih hrest hresult

/-- A recovery that succeeds has read all logs, and taken all entries of the committed ones. -/
theorem redoes_of_success
    (h : ((recoverCommittedWrites paths).run (handle kind) w).1.success = true) :
    ∃ entries, committedEntries w.files paths = some entries ∧ redo.Accepts w.store.get entries ∧
      Redoes w entries ((recoverCommittedWrites paths).run (handle kind) w) := by
  cases hentries : committedEntries w.files paths with
  | none =>
    have hfails := @success_recoverPaths_of_none kind w paths hentries {} rfl
    exact absurd (h.symm.trans hfails) nofun
  | some entries =>
    have hredoes := @redoes_recoverPaths kind w paths entries hentries {} rfl
    exact ⟨entries, rfl, hredoes.success.1 h, hredoes⟩

/-! ### Once more -/

/-- The first entry of each key is its last one as well; or else the versions of the key
have run through all numbers, and the last entry leaves the version the first expects. -/
def Repeatable (entries : List ParsedCommitLogEntry) : Prop :=
  ∀ k, ∀ first ∈ (entries.filter fun entry => entry.key = k).head?,
    ∀ last ∈ (entries.filter fun entry => entry.key = k).getLast?,
      (last.expectedVersion = first.expectedVersion ∧ last.value = first.value) ∨
        last.expectedVersion + 1 = first.expectedVersion

theorem written_eq_written {entry entry' : ParsedCommitLogEntry} : entry.written = entry'.written ↔
    entry.expectedVersion = entry'.expectedVersion ∧ entry.value = entry'.value := by
  simp only [ParsedCommitLogEntry.written, VersionedValue.mk.injEq, and_true]
  rw [and_comm, UInt64.add_left_inj]

theorem accepts_again_iff_repeatable {s : Bytes → VersionedValue} (h : redo.Accepts s entries) :
    redo.Accepts (redo.outcome s entries) entries ↔ Repeatable entries := by
  rw [KeyedLog.accepts_again_iff h]
  refine forall_congr' fun k => forall₂_congr fun first _ => forall₂_congr fun last _ => ?_
  show last.written = first.written ∨ last.expectedVersion + 1 = first.expectedVersion ↔ _
  rw [written_eq_written]

/-- A recovery that has succeeded succeeds once more and changes nothing exactly if no key
has been written twice. -/
theorem recoverCommittedWrites_again_iff (kind : StoreKind) (paths : List Bytes) (w : World)
    (h : ((recoverCommittedWrites paths).run (handle kind) w).1.success = true) :
    let first := (recoverCommittedWrites paths).run (handle kind) w
    let second := (recoverCommittedWrites paths).run (handle kind) first.2
    (second.1.success = true ∧ ∀ k, second.2.store.get k = first.2.store.get k) ↔
      ∀ entries, committedEntries w.files paths = some entries → Repeatable entries := by
  intro first second
  obtain ⟨entries, hentries, haccepts, hfirst⟩ := redoes_of_success h
  have hstore : first.2.store.get = redo.outcome w.store.get entries := hfirst.store h
  have hfiles : first.2.files = w.files := hfirst.files
  have hsecond : Redoes first.2 entries second := redoes_recoverPaths (hfiles ▸ hentries) rfl
  have hagain : second.1.success = true ↔ Repeatable entries := by
    rw [hsecond.success, hstore]
    exact accepts_again_iff_repeatable haccepts
  rw [hagain, hentries]
  constructor
  · rintro ⟨hrepeatable, -⟩ _ ⟨⟩
    exact hrepeatable
  · intro hall
    have hrepeatable := hall entries rfl
    refine ⟨hrepeatable, fun k => ?_⟩
    rw [hsecond.store (hagain.2 hrepeatable), hstore, KeyedLog.outcome_outcome]

/-- A committed transaction that has logged one write of `k`. -/
def loggedWrite (txnId value : Bytes) (expectedVersion : UInt64) : AgentTxnContext where
  txnId
  status := .committed
  commitLog := { entries := [{ key := ascii "k", value, expectedVersion }] }

/-- The logs of two transactions that have written `k` one after the other. -/
def twiceLogged : World where
  files := (AList.insert (ascii "1")
    (commitLogText (loggedWrite (ascii "1") (ascii "a") 0) ⟨ascii "0", by decide⟩)
    (AList.insert (ascii "2")
      (commitLogText (loggedWrite (ascii "2") (ascii "b") 1) ⟨ascii "0", by decide⟩) ∅))

theorem recoverCommittedWrites_twiceLogged :
    let first := (recoverCommittedWrites [ascii "1", ascii "2"]).run (handle .memory) twiceLogged
    let second := (recoverCommittedWrites [ascii "1", ascii "2"]).run (handle .memory) first.2
    first.1.success = true ∧
        ¬(second.1.success = true ∧ ∀ k, second.2.store.get k = first.2.store.get k) := by
  refine ⟨by decide, fun h => ?_⟩
  have hconflict : (((recoverCommittedWrites [ascii "1", ascii "2"]).run (handle .memory)
      ((recoverCommittedWrites [ascii "1", ascii "2"]).run (handle .memory)
        twiceLogged).2).1.success) = false := by decide
  exact absurd (hconflict.symm.trans h.1) nofun

/-- One log, recovered twice. -/
theorem recoverCommittedWrites_again_once :
    let first := (recoverCommittedWrites [ascii "1"]).run (handle .memory) twiceLogged
    let second := (recoverCommittedWrites [ascii "1"]).run (handle .memory) first.2
    (second.1.success = true ∧ ∀ k, second.2.store.get k = first.2.store.get k) ↔
      ∀ entries, committedEntries twiceLogged.files [ascii "1"] = some entries →
          Repeatable entries :=
  recoverCommittedWrites_again_iff .memory [ascii "1"] twiceLogged (by decide)

end DataAgentSystem.AgentTxn
