import DataAgentSystem.AgentTxn.DirectoryRecovery
import DataAgentSystem.Containers.RelatedLists
import DataAgentSystem.Runtime.AcceptedLogs

/-! Recovery of the tasks of a directory. The logs are taken in the order of their names, and
the first one that recovery does not accept ends the call, with nothing to show for those
before it. So a task is recovered among others exactly if all of their logs are accepted. -/

namespace DataAgentSystem.Runtime

open Text Containers Storage Interaction AgentTxn

variable {kind : StoreKind} {config : FallbackCommitRuntimeConfig} {session : TaskSession}
  {w : World} {path taskLogDir : Bytes} {names : List Bytes}

def taskLogSuffix : Bytes := ascii ".task.log"

def listTaskLogs (taskLogDir : Bytes) (names : List Bytes) : List Bytes :=
  listPathsWithSuffix taskLogDir taskLogSuffix names

/-- The loop of `RecoverSessionsFromDirectory` over the logs. -/
def recoverSessionsFromLogs (config : FallbackCommitRuntimeConfig) :
    List Bytes → Prog (Except Bytes (List RecoveredTaskSession))
  | [] => return .ok []
  | path :: paths => do
    match ← recoverSessionFromLog config path with
    | .error what => return .error what
    | .ok recovered =>
      match ← recoverSessionsFromLogs config paths with
      | .error what => return .error what
      | .ok recoveredSessions => return .ok (recovered :: recoveredSessions)

def recoverSessionsFromDirectory (config : FallbackCommitRuntimeConfig)
    (taskLogDir : Bytes) (names : List Bytes) :
    Prog (Except Bytes (List RecoveredTaskSession)) :=
  recoverSessionsFromLogs config (listTaskLogs taskLogDir names)

/-- The log can be read, and recovery accepts it. -/
def AcceptedIn (w : World) (path : Bytes) : Prop :=
  ∃ artifact, parseTaskEventLogArtifact (w.files.lookup path) = some artifact ∧
    Accepted path artifact

/-- The call returns, and among what it returns is the session recovered from that log. -/
def RecoversAmong (kind : StoreKind) (config : FallbackCommitRuntimeConfig) (w : World)
    (taskLogDir : Bytes) (names : List Bytes) (path : Bytes) : Prop :=
  ∃ recoveredSessions, (recoverSessionsFromDirectory config taskLogDir names).run (handle kind) w =
    (.ok recoveredSessions, w) ∧
    ∃ recovered ∈ recoveredSessions, (recoverSessionFromLog config path).run (handle kind) w =
      (.ok recovered, w)

/-- The loop returns a session for each log, or ends with an error. -/
theorem run_recoverSessionsFromLogs_iff {paths : List Bytes}
    {recoveredSessions : List RecoveredTaskSession} :
    (recoverSessionsFromLogs config paths).run (handle kind) w = (.ok recoveredSessions, w) ↔
      List.Forall₂ (fun path recovered => (recoverSessionFromLog config path).run (handle kind) w =
        (.ok recovered, w)) paths
        recoveredSessions := by
  induction paths generalizing recoveredSessions with
  | nil =>
    rw [recoverSessionsFromLogs, Program.pure_eq_ret, Program.run_ret, List.forall₂_nil_left_iff]
    simp [eq_comm]
  | cons path paths ih =>
    rw [recoverSessionsFromLogs, Program.run_bind, List.forall₂_cons_left_iff]
    rcases @run_recoverSessionFromLog kind config path w with
      ⟨artifact, submitted, commitAttempts, committed, -, -, -, -, -, -, hrun⟩ | ⟨⟨what, hrun⟩, -⟩
    · rw [hrun]
      simp only [Program.run_bind]
      cases hrest : (recoverSessionsFromLogs config paths).run (handle kind) w with
      | mk rest w' =>
        constructor
        · intro hok
          cases rest with
          | error what => cases hok
          | ok rest =>
            cases hok
            exact ⟨_, rest, rfl, ih.1 hrest, rfl⟩
        · rintro ⟨recovered, others, hrecovered, hothers, rfl⟩
          have hsame := hrest.symm.trans (ih.2 hothers)
          cases hrecovered
          cases hsame
          rfl
    · rw [hrun]
      simp

/-- The log of a session is recovered among those of a directory exactly if recovery accepts all
of the others. -/
theorem recoverSessionsFromDirectory_iff (hreached : SessionReached session)
    (hlog : HoldsLog w path session) (hlisted : path ∈ listTaskLogs taskLogDir names)
    (config : FallbackCommitRuntimeConfig) :
    RecoversAmong kind config w taskLogDir names path ↔ ∀ other ∈ listTaskLogs taskLogDir names,
      other ≠ path → AcceptedIn w other := by
  have haccepted : AcceptedIn w path := by
    obtain ⟨metadata, -, hfile⟩ := hlog
    refine ⟨writtenArtifact session metadata, ?_,
      (replannable_of_reached hreached).accepted path metadata⟩
    rw [hfile, parseTaskEventLogArtifact_text]
  constructor
  · rintro ⟨recoveredSessions, hrun, -⟩ other hother -
    obtain ⟨recovered, -, hrecovered⟩ :=
      exists_mem_of_forall₂ (run_recoverSessionsFromLogs_iff.1 hrun) hother
    exact (exists_recovered_iff config other w).1 ⟨recovered, hrecovered⟩
  · intro hothers
    have hall : ∀ other ∈ listTaskLogs taskLogDir names,
        ∃ recovered, (recoverSessionFromLog config other).run (handle kind) w =
            (.ok recovered, w) := by
      intro other hother
      rw [exists_recovered_iff]
      by_cases heq : other = path
      · exact heq ▸ haccepted
      · exact hothers other hother heq
    obtain ⟨recoveredSessions, hrecovered⟩ := exists_forall₂_iff.2 hall
    exact ⟨recoveredSessions, run_recoverSessionsFromLogs_iff.2 hrecovered,
      exists_mem_of_forall₂ hrecovered hlisted⟩

/-- A directory with the log of a task and a second file. -/
def besideFile (contents : Bytes) : World :=
  let w := ((writeTaskEventLogArtifact noted [] (ascii "d/1.task.log")).run (handle .memory) {}).2
  { w with files := w.files.insert (ascii "d/2.task.log") contents }

def twoLogs : List Bytes := [ascii "2.task.log", ascii "1.task.log"]

theorem holdsLog_besideFile (contents : Bytes) :
    HoldsLog (besideFile contents) (ascii "d/1.task.log") noted :=
  ⟨[], List.Perm.refl _, by
    show ((AList.insert _ _ _).lookup _) = _
    rw [AList.lookup_insert_ne (by decide)]
    exact AList.lookup_insert _⟩

theorem recoverSessionsFromDirectory_iff_twice :
    RecoversAmong .memory {} (besideFile (taskEventLogText noted [])) (ascii "d")
      twoLogs (ascii "d/1.task.log") ↔
      ∀ other ∈ listTaskLogs (ascii "d") twoLogs, other ≠ ascii "d/1.task.log" →
        AcceptedIn (besideFile (taskEventLogText noted [])) other :=
  recoverSessionsFromDirectory_iff reached_noted (holdsLog_besideFile _) (by decide) {}

/-- A log that is empty keeps the other one from being recovered. -/
theorem recoverSessionsFromDirectory_not_recoversAmong :
    SessionReached noted ∧ HoldsLog (besideFile []) (ascii "d/1.task.log") noted ∧
      ascii "d/1.task.log" ∈ listTaskLogs (ascii "d") twoLogs ∧
      ¬RecoversAmong .memory {} (besideFile []) (ascii "d") twoLogs (ascii "d/1.task.log") := by
  refine ⟨reached_noted, holdsLog_besideFile [], by decide, ?_⟩
  rintro ⟨recoveredSessions, hrun, -⟩
  have herror :
    ((recoverSessionsFromDirectory {} (ascii "d") twoLogs).run (handle .memory) (besideFile [])).1 =
    .error (ascii "failed to parse task event log: d/2.task.log") := rfl
  rw [hrun] at herror
  cases herror

end DataAgentSystem.Runtime
