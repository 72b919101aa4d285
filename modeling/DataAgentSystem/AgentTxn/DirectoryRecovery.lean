import DataAgentSystem.AgentTxn.RedoLog
import DataAgentSystem.AgentTxn.RepeatedRecovery
import DataAgentSystem.Containers.SortedLists
import Mathlib.Data.List.Sort
import Mathlib.Data.UInt

/-! Recovery from a directory of commit logs. The logs are taken in the order of their
names. The versions that the commits of one key have logged count upwards, so recovery
gets through in one order of them only, the one in which they were made: names that
sort two commits of a key the other way make it fail. -/

namespace DataAgentSystem.AgentTxn

open Text Containers Storage Interaction AgentTxnManager

/-- The paths of a directory with a suffix, whatever the order in which it lists its names. -/
def listPathsWithSuffix (dirPath suffix : Bytes) (names : List Bytes) : List Bytes :=
  let kept := names.filter fun name => name ≠ ascii "." ∧ name ≠ ascii ".." ∧ suffix.isSuffixOf name
  (kept.map fun name => dirPath ++ ascii "/" ++ name).insertionSort (· ≤ ·)

def commitLogSuffix : Bytes := ascii ".commit.log"

def listCommitLogs (commitLogDir : Bytes) (names : List Bytes) : List Bytes :=
  listPathsWithSuffix commitLogDir commitLogSuffix names

def recoverFromDirectory (commitLogDir : Bytes) (names : List Bytes) : Prog RecoveryResult :=
  recoverCommittedWrites (listCommitLogs commitLogDir names)

/-- A committed transaction and the name of its log. -/
structure LoggedCommit where
  name : Bytes
  txn : AgentTxnContext

namespace LoggedCommit

def entries (commit : LoggedCommit) : List ParsedCommitLogEntry :=
  commit.txn.commitLog.entries.map CommitLogEntry.parsed

/-- The entry of a key, if the commit has written it. -/
def entryOf (k : Bytes) (commit : LoggedCommit) : Option ParsedCommitLogEntry :=
  commit.entries.find? fun entry => entry.key = k

def Writes (commit : LoggedCommit) (k : Bytes) : Prop :=
  ∃ entry ∈ commit.txn.commitLog.entries, entry.key = k

def path (commitLogDir : Bytes) (commit : LoggedCommit) : Bytes :=
  commitLogDir ++ ascii "/" ++ commit.name

theorem isSome_entryOf {commit : LoggedCommit} {k : Bytes} :
    (commit.entryOf k).isSome ↔ commit.Writes k := by
  simp only [entryOf, entries, Writes, CommitLogEntry.parsed, List.find?_isSome, List.mem_map,
    exists_exists_and_eq_and, decide_eq_true_eq]

end LoggedCommit

/-- From the first world to the second one these transactions commit, in this order, and
nobody else writes. -/
inductive LoggedInTurn : World → List LoggedCommit → World → Prop
  | done {w : World} : LoggedInTurn w [] w
  | otherwise {w w' w'' : World} {commits : List LoggedCommit} : w'.store = w.store →
      LoggedInTurn w' commits w'' →
      LoggedInTurn w commits w''
  | committed {w w' w'' : World} {txn txn' : AgentTxnContext} {commits : List LoggedCommit}
      (name : Bytes) :
      (selectWinnerAndCommit txn).run (handle .memory) w = ((.ok true, txn'), w') →
      LoggedInTurn w' commits w'' → LoggedInTurn w (⟨name, txn'⟩ :: commits) w''

/-- The directory has a log of each commit, written after the driver has taken its
metrics, and no other. -/
structure LogsOnDisk (commitLogDir : Bytes) (names : List Bytes) (commits : List LoggedCommit)
    (files : UnorderedMap Bytes) :
    Prop where
  listed : (names.filter fun name => commitLogSuffix.isSuffixOf name).Perm
    (commits.map LoggedCommit.name)
  distinct : (commits.map LoggedCommit.name).Nodup
  written : ∀ commit ∈ commits, ∃ metrics commitLatencyUs,
    files.lookup (commit.path commitLogDir) =
      some (commitLogText { commit.txn with metrics } commitLatencyUs)

/-- The expected versions are this one, the next one, and so on. -/
def CountsFrom : UInt64 → List ParsedCommitLogEntry → Prop
  | _, [] => True
  | version, entry :: entries => entry.expectedVersion = version ∧ CountsFrom (version + 1) entries

variable {w w' v : World} {commits : List LoggedCommit} {commitLogDir : Bytes} {names : List Bytes}

/-! ### The entries of one key -/

theorem CountsFrom.exists_add {version : UInt64} {entries : List ParsedCommitLogEntry}
    (h : CountsFrom version entries) :
    ∀ entry ∈ entries, ∃ n < entries.length, entry.expectedVersion = version + UInt64.ofNat n := by
  induction entries generalizing version with
  | nil => exact nofun
  | cons first entries ih =>
    intro entry hentry
    rcases List.mem_cons.1 hentry with rfl | hentry
    · exact ⟨0, by simp, by simp [h.1]⟩
    · obtain ⟨n, hn, hversion⟩ := ih h.2 entry hentry
      refine ⟨n + 1, by simpa using hn, hversion.trans ?_⟩
      rw [UInt64.ofNat_add, add_assoc, add_comm 1]
      rfl

theorem add_ofNat_ne (version : UInt64) {n : ℕ} (hpos : 0 < n) (hn : n < 2 ^ 64) :
    version + UInt64.ofNat n ≠ version := by
  intro heq
  have hzero : UInt64.ofNat n = 0 :=
    (UInt64.add_right_inj version).1 (heq.trans (UInt64.add_zero _).symm)
  have hnat := congrArg UInt64.toNat hzero
  rw [UInt64.toNat_ofNat_of_lt' hn] at hnat
  exact absurd hnat hpos.ne'

/-- Versions that count upwards say whose turn it is. -/
theorem CountsFrom.inTurn {version : UInt64} {entries : List ParsedCommitLogEntry}
    {current : VersionedValue} (h : CountsFrom version entries)
    (hcurrent : current.version = version) (hsize : entries.length < 2 ^ 64) :
    redo.InTurn current entries := by
  induction entries generalizing version current with
  | nil => trivial
  | cons first entries ih =>
    rw [List.length_cons] at hsize
    refine ⟨⟨.inr (hcurrent.trans h.1.symm), ?_⟩, @ih (version + 1) first.written h.2 ?_ (by omega)⟩
    · intro entry hentry hfits
      obtain ⟨n, hn, hversion⟩ := h.2.exists_add entry hentry
      have hlater : entry.expectedVersion = version + UInt64.ofNat (n + 1) := by
        rw [hversion, UInt64.ofNat_add, add_assoc, add_comm 1]
        rfl
      rcases hfits with hwritten | hexpected
      · have hnext : version = version + UInt64.ofNat (n + 1) + 1 := by
          rw [← hlater, ← hcurrent, hwritten]
          rfl
        rw [add_assoc, show UInt64.ofNat (n + 1) + 1 =
          UInt64.ofNat (n + 2) from (UInt64.ofNat_add (n + 1) 1).symm] at hnext
        exact add_ofNat_ne version (by omega) (by omega) hnext.symm
      · exact add_ofNat_ne version (by omega) (by omega)
          (hlater.symm.trans (hexpected.symm.trans hcurrent))
    · show first.expectedVersion + 1 = version + 1
      rw [h.1]

/-! ### The live run -/

theorem logs_of_committed_memory {txn txn' : AgentTxnContext}
    (h : (selectWinnerAndCommit txn).run (handle .memory) w = ((.ok true, txn'), w')) :
    ∃ writes, Logs w.store writes txn'.commitLog ∧ w'.store = w.store.applyWrites writes :=
  logs_of_committed (fun hkind => by cases hkind) h

theorem Logs.entryOf {s : MemoryKVStore} {writes : List WriteOp} {commit : LoggedCommit}
    (h : Logs s writes commit.txn.commitLog) (k : Bytes) : commit.entryOf k =
      (writes.find? fun write => write.key = k).map fun write =>
        { key := write.key, expectedVersion := s.getVersion write.key, value := write.value } := by
  rw [LoggedCommit.entryOf, LoggedCommit.entries, h.entries, List.map_map, List.find?_map]
  rfl

/-- The entry of a key in the log of a commit is at the version of the key, and says what
the key holds afterwards. -/
theorem Logs.step {s : MemoryKVStore} {writes : List WriteOp} {commit : LoggedCommit}
    (h : Logs s writes commit.txn.commitLog) (k : Bytes) :
    (∀ entry, commit.entryOf k = some entry → entry.expectedVersion = s.getVersion k) ∧
      (s.applyWrites writes).get k = ((commit.entryOf k).map ParsedCommitLogEntry.written).getD
        (s.get k) := by
  rw [h.entryOf]
  cases hfind : writes.find? fun write => write.key = k with
  | none =>
    have hk : k ∉ writes.map WriteOp.key := by
      intro hmem
      obtain ⟨write, hwrite, heq⟩ := List.mem_map.1 hmem
      exact List.find?_eq_none.1 hfind write hwrite (decide_eq_true heq)
    exact ⟨nofun, MemoryKVStore.get_applyWrites_of_notMem hk⟩
  | some write =>
    have hkey := List.find?_some hfind
    obtain rfl : write.key = k := of_decide_eq_true hkey
    refine ⟨?_, MemoryKVStore.get_applyWrites_of_mem h.nodup (List.mem_of_find?_eq_some hfind)⟩
    rintro _ ⟨⟩
    rfl

namespace LoggedInTurn

theorem nodup (h : LoggedInTurn w commits w') :
    ∀ commit ∈ commits, (commit.entries.map redo.key).Nodup := by
  induction h with
  | done => exact nofun
  | otherwise _ _ ih => exact ih
  | committed name hrun _ ih =>
    obtain ⟨writes, hlogs, -⟩ := logs_of_committed_memory hrun
    refine List.forall_mem_cons.2 ⟨?_, ih⟩
    rw [LoggedCommit.entries, hlogs.entries, List.map_map, List.map_map]
    exact hlogs.nodup

theorem status (h : LoggedInTurn w commits w') :
    ∀ commit ∈ commits, commit.txn.status = .committed := by
  induction h with
  | done => exact nofun
  | otherwise _ _ ih => exact ih
  | @committed w _ _ txn _ _ name hrun _ ih =>
    have hended := (returns_selectWinnerAndCommit txn).interfered
      (Program.interfered_run (h := handle .memory) _ w)
    rw [hrun] at hended
    exact List.forall_mem_cons.2 ⟨hended.1, ih⟩

/-- The entries of a key count its versions, and the last one says what the key holds. -/
theorem entries (h : LoggedInTurn w commits w') (k : Bytes) :
    CountsFrom (w.store.getVersion k) (commits.filterMap (LoggedCommit.entryOf k)) ∧
      w'.store.get k =
      ((commits.filterMap (LoggedCommit.entryOf k)).getLast?.map ParsedCommitLogEntry.written).getD
        (w.store.get k) := by
  induction h with
  | done => exact ⟨trivial, rfl⟩
  | otherwise hsame _ ih => rwa [hsame] at ih
  | @committed w w' w'' txn txn' commits name hrun _ ih =>
    obtain ⟨writes, hlogs, hstore⟩ := logs_of_committed_memory hrun
    obtain ⟨hversion, hget⟩ := @Logs.step w.store writes ⟨name, txn'⟩ hlogs k
    rw [MemoryKVStore.getVersion, hstore, hget] at ih
    rw [List.filterMap_cons]
    cases hentry : (⟨name, txn'⟩ : LoggedCommit).entryOf k with
    | none =>
      rw [hentry] at ih
      exact ih
    | some entry =>
      rw [hentry] at ih
      obtain ⟨hcounts, hlast⟩ := ih
      refine ⟨⟨hversion entry hentry, ?_⟩, ?_⟩
      · rw [← hversion entry hentry]
        exact hcounts
      · rw [hlast, List.getLast?_cons]
        cases (commits.filterMap (LoggedCommit.entryOf k)).getLast? <;> rfl

theorem inTurn (h : LoggedInTurn w commits w') (hsize : commits.length < 2 ^ 64) (k : Bytes) :
    redo.InTurn (w.store.get k) (commits.filterMap (LoggedCommit.entryOf k)) := by
  apply (h.entries k).1.inTurn rfl
  exact (List.length_filterMap_le _ commits).trans_lt hsize

end LoggedInTurn

/-! ### The logs on disk -/

/-- The logs sorted by name. -/
def sortedCommits (commits : List LoggedCommit) : List LoggedCommit :=
  commits.insertionSort fun c c' => c.name ≤ c'.name

theorem perm_sortedCommits (commits : List LoggedCommit) : (sortedCommits commits).Perm commits :=
  List.perm_insertionSort _ commits

theorem pairwise_sortedCommits (commits : List LoggedCommit) :
    (sortedCommits commits).Pairwise fun c c' => c.name ≤ c'.name := by
  have htotal : Std.Total fun c c' : LoggedCommit => c.name ≤ c'.name :=
    ⟨fun c c' => List.le_total c.name c'.name⟩
  have htrans : IsTrans LoggedCommit fun c c' => c.name ≤ c'.name := ⟨fun _ _ _ => List.le_trans⟩
  exact List.pairwise_insertionSort _ commits

/-- The order of the paths is that of the names. -/
theorem LogsOnDisk.listCommitLogs {files : UnorderedMap Bytes}
    (h : LogsOnDisk commitLogDir names commits files) :
    listCommitLogs commitLogDir names = (sortedCommits commits).map
      (LoggedCommit.path commitLogDir) := by
  have hkept : (names.filter fun name => name ≠ ascii "." ∧ name ≠ ascii ".." ∧
    commitLogSuffix.isSuffixOf name) =
      names.filter fun name => commitLogSuffix.isSuffixOf name := by
    apply List.filter_congr
    intro name _
    by_cases hdot : name = ascii "."
    · subst hdot
      decide
    · by_cases hdots : name = ascii ".."
      · subst hdots
        decide
      · simp only [ne_eq, hdot, hdots, not_false_eq_true, true_and, Bool.decide_eq_true]
  have hperm : (AgentTxn.listCommitLogs commitLogDir names).Perm
      ((sortedCommits commits).map (LoggedCommit.path commitLogDir)) := by
    rw [AgentTxn.listCommitLogs, listPathsWithSuffix, hkept]
    apply (List.perm_insertionSort _ _).trans
    have hpaths := (h.listed.trans ((perm_sortedCommits commits).map _).symm).map fun name =>
      commitLogDir ++ ascii "/" ++ name
    rwa [List.map_map] at hpaths
  apply hperm.eq_of_pairwise (fun a b _ _ => List.le_antisymm) (List.pairwise_insertionSort _ _)
  rw [List.pairwise_map]
  exact (pairwise_sortedCommits commits).imp fun hle => List.append_left_le hle

/-- Each log is read with its entries, and says that its transaction has committed. -/
theorem LogsOnDisk.committedEntries {files : UnorderedMap Bytes}
    (h : LogsOnDisk commitLogDir names commits files)
    (hstatus : ∀ commit ∈ commits, commit.txn.status = .committed)
    (hvalues : ∀ commit ∈ commits, ∀ entry ∈ commit.txn.commitLog.entries, entry.value ≠ [])
    {taken : List LoggedCommit} (hsub : taken ⊆ commits) :
    AgentTxn.committedEntries files (taken.map (LoggedCommit.path commitLogDir)) =
      some (taken.flatMap LoggedCommit.entries) := by
  induction taken with
  | nil => rfl
  | cons commit rest ih =>
    obtain ⟨hcommit, hrest⟩ := List.cons_subset.1 hsub
    obtain ⟨metrics, commitLatencyUs, hfile⟩ := h.written commit hcommit
    have hparse : parseCommitLogArtifact (files.lookup (commit.path commitLogDir)) =
        some (writtenCommitLog { commit.txn with metrics } commitLatencyUs) := by
      rw [hfile, parseCommitLogArtifact_text, if_pos (hvalues commit hcommit)]
    have hcommitted := (restoresCommit_written { commit.txn with metrics } commitLatencyUs).status
    rw [show txnStatusName _ = ascii "COMMITTED" from congrArg txnStatusName
      (hstatus commit hcommit)] at hcommitted
    rw [List.map_cons, AgentTxn.committedEntries, hparse, ih hrest, List.flatMap_cons]
    show some (ParsedCommitLogArtifact.committedEntries _ ++ _) = _
    rw [ParsedCommitLogArtifact.committedEntries, if_pos hcommitted]
    rfl

/-- The entries of a key in the logs, one from each commit that has written it. -/
theorem entriesOf_flatMap (hnodup : ∀ commit ∈ commits, (commit.entries.map redo.key).Nodup)
    (k : Bytes) :
    redo.entriesOf k (commits.flatMap LoggedCommit.entries) =
      commits.filterMap (LoggedCommit.entryOf k) := by
  rw [KeyedLog.entriesOf, List.filter_flatMap, List.filterMap_eq_flatMap_toList]
  exact List.flatMap_congr fun commit hcommit =>
    KeyedLog.entriesOf_eq_find? (hnodup commit hcommit) k

/-- Recovery from the directory on the store of the beginning rebuilds what the commits
have left exactly if any two commits of one key have names in the order in which they
were made. The paths are a vector, so there are fewer than 2^64. -/
theorem recoverFromDirectory_iff (hrun : LoggedInTurn w commits w')
    (hvalues : ∀ commit ∈ commits, ∀ entry ∈ commit.txn.commitLog.entries, entry.value ≠ [])
    (hdisk : LogsOnDisk commitLogDir names commits v.files) (hv : v.store = w.store)
    (hsize : commits.length < 2 ^ 64) :
    let out := (recoverFromDirectory commitLogDir names).run (handle .memory) v
    (out.1.success = true ∧ ∀ k, out.2.store.get k = w'.store.get k) ↔
      commits.Pairwise fun commit later => (∃ k, commit.Writes k ∧ later.Writes k) →
          commit.name ≤ later.name := by
  intro out
  have hperm := perm_sortedCommits commits
  have hentries : committedEntries v.files (listCommitLogs commitLogDir names) =
      some ((sortedCommits commits).flatMap LoggedCommit.entries) := by
    rw [hdisk.listCommitLogs, hdisk.committedEntries hrun.status hvalues hperm.subset]
  have hredoes : Redoes v _ out := redoes_recoverPaths hentries rfl
  have hkey : ∀ k, redo.entriesOf k ((sortedCommits commits).flatMap LoggedCommit.entries) =
      (sortedCommits commits).filterMap (LoggedCommit.entryOf k) :=
    entriesOf_flatMap fun commit hcommit => hrun.nodup commit (hperm.subset hcommit)
  -- recovery gets through exactly if sorting has kept the entries of each key in order
  have hsuccess : out.1.success = true ↔
    ∀ k, (sortedCommits commits).filterMap (LoggedCommit.entryOf k) =
      commits.filterMap (LoggedCommit.entryOf k) := by
    rw [hredoes.success, KeyedLog.accepts_iff, hv]
    refine forall_congr' fun k => ?_
    rw [hkey, (hrun.inTurn hsize k).follows_iff (hperm.filterMap _)]
  have hstore : out.1.success = true → ∀ k, out.2.store.get k = w'.store.get k := by
    intro h k
    rw [hredoes.store h, KeyedLog.outcome_eq, hkey, hsuccess.1 h k, (hrun.entries k).2, hv]
    rfl
  have hanti : ∀ c c', c ∈ commits → c' ∈ commits → c.name ≤ c'.name → c'.name ≤ c.name → c = c' :=
    fun c c' hc hc' hle hle' => List.inj_on_of_nodup_map hdisk.distinct hc hc'
      (List.le_antisymm hle hle')
  rw [and_iff_left_of_imp hstore, hsuccess]
  have hpairwise : ∀ k, ((sortedCommits commits).filterMap (LoggedCommit.entryOf k) =
      commits.filterMap (LoggedCommit.entryOf k)) ↔
        commits.Pairwise fun commit later => commit.Writes k → later.Writes k →
            commit.name ≤ later.name := by
    intro k
    rw [filterMap_eq_iff_pairwise hperm (pairwise_sortedCommits commits) hanti
      (hrun.inTurn hsize k).nodup]
    simp only [LoggedCommit.isSome_entryOf]
  rw [forall_congr' hpairwise]
  simp only [List.pairwise_iff_forall_sublist]
  constructor
  · rintro h commit later hsub ⟨k, hwrites, hwrites'⟩
    exact h k hsub hwrites hwrites'
  · intro h k commit later hsub hwrites hwrites'
    exact h hsub ⟨k, hwrites, hwrites'⟩

/-- A write of `k` and a commit that appends to it, one after the other. -/
def writtenFirst : (Except Bytes Bool × AgentTxnContext) × World :=
  (selectWinnerAndCommit (singleWriteTxn (ascii "k") (ascii "v"))).run (handle .memory) {}

def appendedNext : (Except Bytes Bool × AgentTxnContext) × World :=
  (selectWinnerAndCommit (singleAppendTxn (ascii "k") (ascii "x"))).run
    (handle .memory) writtenFirst.2

/-- The two under the given names, -/
def twoCommits (name name' : Bytes) : List LoggedCommit :=
  [⟨name, writtenFirst.1.2⟩, ⟨name', appendedNext.1.2⟩]

/-- and the empty store with their logs on disk. -/
def twoLogs (name name' : Bytes) : World where
  files := AList.insert (ascii "logs/" ++ name)
    (commitLogText writtenFirst.1.2 ⟨ascii "0", newline_notMem_zero⟩)
    (AList.insert (ascii "logs/" ++ name')
      (commitLogText appendedNext.1.2 ⟨ascii "0", newline_notMem_zero⟩) ∅)

theorem loggedInTurn_twoCommits (name name' : Bytes) :
    LoggedInTurn {} (twoCommits name name') appendedNext.2 := by
  have hfirst : writtenFirst = ((.ok true, writtenFirst.1.2), writtenFirst.2) := rfl
  have hsecond : appendedNext = ((.ok true, appendedNext.1.2), appendedNext.2) := rfl
  exact .committed name hfirst (.committed name' hsecond .done)

theorem values_twoCommits (name name' : Bytes) :
    ∀ commit ∈ twoCommits name name', ∀ entry ∈ commit.txn.commitLog.entries, entry.value ≠ [] := by
  have hfirst : ∀ entry ∈ writtenFirst.1.2.commitLog.entries, entry.value ≠ [] := by decide
  have hsecond : ∀ entry ∈ appendedNext.1.2.commitLog.entries, entry.value ≠ [] := by decide
  exact List.forall_mem_cons.2 ⟨hfirst, List.forall_mem_cons.2 ⟨hsecond, nofun⟩⟩

theorem logsOnDisk_twoLogs {name name' : Bytes} (hne : name ≠ name')
    (hname : commitLogSuffix.isSuffixOf name) (hname' : commitLogSuffix.isSuffixOf name') :
    LogsOnDisk (ascii "logs") [name, name'] (twoCommits name name') (twoLogs name name').files where
  listed := by simp [hname, hname', twoCommits]
  distinct := by simp [hne, twoCommits]
  written := by
    have hpath : ascii "logs/" ++ name' ≠ ascii "logs/" ++ name := fun heq =>
      hne (List.append_cancel_left heq).symm
    have hfirst : (twoLogs name name').files.lookup (ascii "logs/" ++ name) =
        some (commitLogText writtenFirst.1.2 ⟨ascii "0", newline_notMem_zero⟩) :=
          AList.lookup_insert _
    have hsecond : (twoLogs name name').files.lookup (ascii "logs/" ++ name') =
        some (commitLogText appendedNext.1.2 ⟨ascii "0", newline_notMem_zero⟩) := by
      rw [twoLogs, AList.lookup_insert_ne hpath, AList.lookup_insert]
    exact List.forall_mem_cons.2 ⟨⟨_, _, hfirst⟩, List.forall_mem_cons.2 ⟨⟨_, _, hsecond⟩, nofun⟩⟩

/-- The names of tasks nine and ten, as they are made without padding, sort the later one first. -/
theorem recoverFromDirectory_unpadded :
    let name := ascii "task_9.commit.log"
    let name' := ascii "task_10.commit.log"
    let out := (recoverFromDirectory (ascii "logs") [name, name']).run
      (handle .memory) (twoLogs name name')
    LoggedInTurn {} (twoCommits name name') appendedNext.2 ∧
      LogsOnDisk (ascii "logs") [name, name'] (twoCommits name name') (twoLogs name name').files ∧
      ¬(out.1.success = true ∧ ∀ k, out.2.store.get k = appendedNext.2.store.get k) := by
  intro name name' out
  refine ⟨loggedInTurn_twoCommits name name',
    logsOnDisk_twoLogs (by decide) (by decide) (by decide), fun h => ?_⟩
  have hconflict : out.1.success = false := by decide
  exact absurd (hconflict.symm.trans h.1) nofun

/-- Tasks one and two. -/
theorem recoverFromDirectory_inOrder :
    let name := ascii "task_1.commit.log"
    let name' := ascii "task_2.commit.log"
    let out := (recoverFromDirectory (ascii "logs") [name, name']).run
      (handle .memory) (twoLogs name name')
    (out.1.success = true ∧ ∀ k, out.2.store.get k = appendedNext.2.store.get k) ↔
      (twoCommits name name').Pairwise fun commit later =>
        (∃ k, commit.Writes k ∧ later.Writes k) → commit.name ≤ later.name := by
  intro name name' out
  exact recoverFromDirectory_iff (loggedInTurn_twoCommits name name') (values_twoCommits name name')
    (logsOnDisk_twoLogs (by decide) (by decide) (by decide)) rfl (by decide)

end DataAgentSystem.AgentTxn
