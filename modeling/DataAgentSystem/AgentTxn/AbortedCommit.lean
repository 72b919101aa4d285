import DataAgentSystem.AgentTxn.ArtifactCalls
import DataAgentSystem.AgentTxn.CommitOutcome
import Mathlib.Logic.Relation

/-! What an aborted crash-safe commit leaves on disk, in a world where artifact writes
may fail and other actors interfere. Either its artifact was never written, or it still
goes forward, or it goes back. An artifact that goes back is never committed by a later
recovery; one that goes forward can be. -/

namespace DataAgentSystem.AgentTxn

open Text Intent Cache Branch Storage Interaction Containers CommitManager

variable {kind : StoreKind} {path : Bytes} {entries : List FallbackCommitEntry} {w w' : World}

/-! ### Later recoveries -/

/-- The file holds the entries on their way forward. -/
def GoesForward (path : Bytes) (entries : List FallbackCommitEntry) (w : World) : Prop :=
  ∃ a, OnDisk path a w ∧ a.entries = entries ∧ a.appliedCount ≤ entries.length ∧
    (a.phase = .prepared ∨ a.phase = .applying)

/-- If there is still a file, it holds the entries on their way back. -/
def GoesBack (path : Bytes) (entries : List FallbackCommitEntry) (w : World) : Prop :=
  ∀ contents, w.files.lookup path = some contents →
    ∃ a : FallbackCommitArtifact, contents = a.text ∧ a.entries = entries ∧
      (a.phase = .rollingBack ∨ a.phase = .rolledBack)

/-- The call writes a target value of the entries, or the artifact as committed. -/
def Commits (path : Bytes) (entries : List FallbackCommitEntry)
    (answer : Answer Call Call.Resp) : Prop :=
  (∃ e ∈ entries, answer = ⟨.putIfVersion e.key e.expectedVersion e.targetValue, true⟩) ∨
    ∃ a : FallbackCommitArtifact, answer = ⟨.replaceFile path a.text, true⟩ ∧
      a.entries = entries ∧ a.phase = .committed

/-- What can happen to the artifact once its commit is over: other actors do anything
but write its file, and recoveries run, to their end or not. -/
def LaterStep (kind : StoreKind) (path : Bytes) (w w' : World) : Prop :=
  SameFile path w w' ∨ w'.files.lookup path = none ∨ ∃ artifactPaths answers q,
    (recoverFallbackCommitArtifacts artifactPaths).Reaches (unreliable kind path) w answers q w'

/-- No later recovery, whatever the store holds by then, commits the entries when it
comes to the artifact. -/
def NeverCommitted (kind : StoreKind) (path : Bytes) (entries : List FallbackCommitEntry)
    (w : World) : Prop :=
  ∀ w', Relation.ReflTransGen (LaterStep kind path) w w' → ∀ result answer,
    (recoverFallbackCommitArtifact path result).MayGet (unreliable kind path) w' answer →
      ¬Commits path entries answer

theorem GoesBack.sameFile (h : GoesBack path entries w) (hsame : SameFile path w w') :
    GoesBack path entries w' :=
  fun contents hcontents => h contents (hsame.symm.trans hcontents)

theorem goesBack_of_missing (h : w.files.lookup path = none) : GoesBack path entries w :=
  fun _ hcontents => absurd (h.symm.trans hcontents) nofun

theorem goesBack_of_onDisk {a : FallbackCommitArtifact} (hdisk : w.files.lookup path = some a.text)
    (hentries : a.entries = entries) (hphase : a.phase = .rollingBack ∨ a.phase = .rolledBack) :
    GoesBack path entries w := by
  intro contents hcontents
  rw [hdisk, Option.some.injEq] at hcontents
  exact ⟨a, hcontents.symm, hentries, hphase⟩

/-- The calls that only take an artifact back leave it on its way back. -/
theorem GoesBack.undoing {op : Call} {r : op.Resp} (h : GoesBack path entries w)
    (hop : UndoingCall path entries op) (henv : unreliable kind path op w r w') :
    GoesBack path entries w' := by
  by_cases htouched : path ∈ op.touched
  · rcases hop with hreads | ⟨e, he, rfl⟩ | ⟨a, rfl, hentries, hphase⟩
    · rw [Call.touched_of_reads hreads] at htouched
      exact absurd htouched List.not_mem_nil
    · rw [touched_undoCall] at htouched
      exact absurd htouched List.not_mem_nil
    · rcases unreliable_replaceFile henv with ⟨-, hfile⟩ | ⟨-, hsame⟩
      · exact goesBack_of_onDisk hfile hentries (by simpa using hphase)
      · exact h.sameFile hsame
  · exact h.sameFile (sameFile_of_notMem_touched henv htouched)

/-- What recovery does for an artifact that goes back. -/
theorem GoesBack.recoveryCall (h : GoesBack path entries w) {op : Call}
    (haccepted : (parseFallbackCommitArtifact (w.files.lookup path) {}).1 = true)
    (hop : RecoveryCall path (parseFallbackCommitArtifact (w.files.lookup path) {}).2 op) :
    UndoingCall path entries op := by
  cases hfile : w.files.lookup path with
  | none =>
    rw [hfile] at haccepted
    cases haccepted
  | some contents =>
    obtain ⟨a, rfl, rfl, hphase⟩ := h contents hfile
    rw [hfile, parseFallbackCommitArtifact_recounted] at hop
    have hrecounted : a.recounted.phase = a.phase ∧ a.recounted.entries = a.entries := ⟨rfl, rfl⟩
    rw [RecoveryCall, hrecounted.1, hrecounted.2] at hop
    rcases hphase with hphase | hphase
    · rw [if_pos hphase] at hop
      exact hop
    · simp [hphase] at hop

/-- Recovery of an artifact that goes back reads it, and then only looks and takes back. -/
theorem GoesBack.recover (h : GoesBack path entries w) (result : FallbackRecoveryResult) :
    ∃ next, recoverFallbackCommitArtifact path result = .call (.readFile path) next ∧
      ∀ contents w', unreliable kind path (.readFile path) w contents w' →
        (next contents).Only (UndoingCall path entries) ∧ GoesBack path entries w' := by
  obtain ⟨next, hnext, hcalls⟩ := recover_next path result
  refine ⟨next, hnext, fun contents w' henv => ?_⟩
  obtain ⟨hcontents, hsame⟩ := unreliable_of_reads rfl henv
  have hback := h.sameFile hsame
  refine ⟨(hcalls contents).mono fun op hop => ?_, hback⟩
  subst hcontents
  exact hback.recoveryCall hop.1 hop.2

/-- No recovery turns an artifact around. -/
theorem GoesBack.withstands (h : GoesBack path entries w) (artifactPath : Bytes)
    (result : FallbackRecoveryResult) :
    (recoverFallbackCommitArtifact artifactPath result).Withstands (unreliable kind path)
      (GoesBack path entries) w
      fun _ _ => True := by
  by_cases hpath : artifactPath = path
  · subst hpath
    obtain ⟨next, hnext, hcalls⟩ := @GoesBack.recover kind _ _ _ h result
    rw [hnext, Program.withstands_call]
    refine ⟨h, fun contents w' henv => ?_⟩
    obtain ⟨hundoing, hback⟩ := hcalls contents w' henv
    exact hundoing.withstands (fun op hop w r w' henv hw => hw.undoing hop henv) hback
  · apply (only_recover_touched artifactPath result).withstands _ h
    intro op hop w r w' henv hw
    exact hw.sameFile (sameFile_of_notMem_touched henv fun hmem => hpath (hop path hmem).symm)

theorem GoesBack.withstands_all (artifactPaths : List Bytes) {result : FallbackRecoveryResult}
    (h : GoesBack path entries w) :
    (recoverArtifactsFrom artifactPaths result).Withstands (unreliable kind path)
      (GoesBack path entries) w
      fun _ _ => True := by
  induction artifactPaths generalizing result w with
  | nil => exact ⟨h, trivial⟩
  | cons artifactPath artifactPaths ih =>
    rw [recoverArtifactsFrom, Program.withstands_bind]
    apply (h.withstands artifactPath result).mono
    rintro ⟨goesOn, result⟩ w' hback -
    cases goesOn with
    | false => exact ⟨hback, trivial⟩
    | true => exact ih hback

theorem GoesBack.later (h : GoesBack path entries w)
    (hlater : Relation.ReflTransGen (LaterStep kind path) w w') :
    GoesBack path entries w' := by
  induction hlater with
  | refl => exact h
  | tail _ hstep ih =>
    rcases hstep with hsame | hmissing | ⟨artifactPaths, answers, q, hrun⟩
    · exact ih.sameFile hsame
    · exact goesBack_of_missing hmissing
    · exact ((ih.withstands_all artifactPaths).reaches hrun).now

/-- Taking back is not committing, as an undo expects a version of its own. -/
theorem not_commits_of_undoingCall (hb : Built entries) {answer : Answer Call Call.Resp}
    (h : UndoingCall path entries answer.op) : ¬Commits path entries answer := by
  rintro (⟨e, he, rfl⟩ | ⟨a, rfl, hentries, hphase⟩)
  · rcases h with hreads | ⟨f, hf, hcall⟩ | ⟨a, hcall, -, -⟩
    · cases hreads
    · cases hp : f.previousExists with
      | true =>
        rw [FallbackCommitEntry.undoCall_of_exists hp, Call.putIfVersion.injEq] at hcall
        obtain ⟨hkey, hversion, -⟩ := hcall
        obtain rfl : e = f := List.inj_on_of_nodup_map hb.nodup he hf hkey
        rw [hb.versions e he] at hversion
        exact version_add_one_ne _ hversion.symm
      | false =>
        rw [FallbackCommitEntry.undoCall_of_missing hp] at hcall
        cases hcall
    · cases hcall
  · rcases h with hreads | ⟨f, hf, hcall⟩ | ⟨b, hcall, -, hback⟩
    · cases hreads
    · cases hp : f.previousExists with
      | true =>
        rw [FallbackCommitEntry.undoCall_of_exists hp] at hcall
        cases hcall
      | false =>
        rw [FallbackCommitEntry.undoCall_of_missing hp] at hcall
        cases hcall
    · rw [Call.replaceFile.injEq] at hcall
      rw [← FallbackCommitArtifact.phase_eq_of_text_eq hcall.2, hphase] at hback
      simp at hback

/-- What goes back is never committed. -/
theorem GoesBack.neverCommitted (hb : Built entries) (h : GoesBack path entries w) :
    NeverCommitted kind path entries w := by
  intro w' hlater result answer hget
  obtain ⟨next, hnext, hcalls⟩ := @GoesBack.recover kind _ _ _ (h.later hlater) result
  rw [hnext, Program.mayGet_call] at hget
  obtain ⟨contents, w'', hcall, rfl | hget⟩ := hget
  · exact not_commits_of_undoingCall hb (artifactCall_reads rfl)
  · exact not_commits_of_undoingCall hb ((hcalls contents w'' hcall).1.mayGet hget)

/-! ### What goes forward can be committed -/

/-- A store in which every entry is at its target. -/
theorem exists_allAt_target (hb : (entries.map (·.key)).Nodup) :
    ∃ s : MemoryKVStore, AllAt FallbackCommitEntry.target entries s := by
  induction entries with
  | nil => exact ⟨{}, fun e he => absurd he List.not_mem_nil⟩
  | cons e entries ih =>
    rw [List.map_cons, List.nodup_cons] at hb
    obtain ⟨s, hs⟩ := ih hb.2
    let target : Entry := { value := e.targetValue, version := e.expectedVersion + 1 }
    refine ⟨{ values := s.values.insert e.key target },
      List.forall_mem_cons.2 ⟨?_, hs.frame hb.1 fun k hk => ?_⟩⟩
    · simp [MemoryKVStore.get, FallbackCommitEntry.target, target]
    · simp [MemoryKVStore.get, hk]

theorem allows_undisturbed : (unreliable kind path).Allows (handle kind) :=
  allows_handle id fun _ => rfl

/-- Going forward from a store in which every entry is at its target. -/
theorem resumeForward_commits {a : FallbackCommitArtifact} (result : FallbackRecoveryResult)
    (hstore : AllAt FallbackCommitEntry.target a.entries w.store) :
    ∃ answer, (resumeForwardFallbackCommit a path result).MayGet (unreliable kind path) w answer ∧
      Commits path a.entries answer := by
  have hfound : (detectCommittedPrefix a result).run (handle kind) w =
      ((a.entries.length, result), w) := by
    apply Prod.ext
    · have hall : ∀ e ∈ a.entries, e.matchesTarget (w.store.get e.key) = true :=
        fun e he => FallbackCommitEntry.matchesTarget_iff.2 (hstore e he)
      rw [run_detectCommittedPrefix, List.dropWhile_eq_nil_iff.2 hall,
        List.takeWhile_eq_self_iff.2 hall]
      rfl
    · exact (looks_detectCommittedPrefix a result w).run_eq
  obtain ⟨looks, hlooks⟩ :=
    Program.reaches_run (@allows_undisturbed _ path) (detectCommittedPrefix a result) w
  rw [hfound] at hlooks
  let b : FallbackCommitArtifact := { a with appliedCount := a.entries.length, phase := .committed }
  refine ⟨⟨.replaceFile path b.text, true⟩, hlooks.mayGet ?_, .inr ⟨b, rfl, rfl, rfl⟩⟩
  simp only [gt_iff_lt, lt_irrefl, ↓reduceIte]
  rw [writeFallbackCommitArtifact, Files.replace_bind, Program.mayGet_call]
  exact ⟨true, _, allows_undisturbed (.replaceFile path b.text) w, .inl rfl⟩

/-- Once every entry is at its target, recovery calls the artifact committed. -/
theorem GoesForward.commits (h : GoesForward path entries w)
    (hstore : AllAt FallbackCommitEntry.target entries w.store) :
    ∃ answer, (recoverFallbackCommitArtifact path {}).MayGet (unreliable kind path) w answer ∧
      Commits path entries answer := by
  obtain ⟨a, hdisk, rfl, hcount, hphase⟩ := h
  have hrecounted : a.recounted.appliedCount ≤ a.entries.length :=
    (toNat_strtoull_decimal_le _).trans hcount
  have haccepted : parseFallbackCommitArtifact (w.files.lookup path) {} = (true, a.recounted) := by
    rw [show w.files.lookup path = some a.text from hdisk, parseFallbackCommitArtifact_recounted,
      decide_eq_true hrecounted]
  obtain ⟨answer, hget, hcommits⟩ :=
    @resumeForward_commits kind path _ a.recounted {} hstore
  have hlive : ¬(a.recounted.phase = .committed ∨ a.recounted.phase = .rolledBack) := by
    rcases hphase with hphase | hphase <;> simp [FallbackCommitArtifact.recounted, hphase]
  have hroll : a.recounted.phase ≠ .rollingBack := by
    rcases hphase with hphase | hphase <;> simp [FallbackCommitArtifact.recounted, hphase]
  refine ⟨answer, ?_, hcommits⟩
  rw [recoverFallbackCommitArtifact, Files.read_bind, Program.mayGet_call]
  refine ⟨w.files.lookup path, w, allows_undisturbed (.readFile path) w, .inr ?_⟩
  rw [haccepted]
  simp only [hlive, hroll, ↓reduceIte]
  exact hget.bind _

/-- What goes forward can still be committed. -/
theorem GoesForward.not_neverCommitted (hb : Built entries) (h : GoesForward path entries w) :
    ¬NeverCommitted kind path entries w := by
  intro hnever
  obtain ⟨s, hs⟩ := exists_allAt_target hb.nodup
  have hforward : GoesForward path entries (withStore w s) := h
  obtain ⟨answer, hget, hcommits⟩ := @GoesForward.commits kind _ _ _ hforward hs
  exact hnever (withStore w s) (.single (.inl rfl)) {} answer hget hcommits

end DataAgentSystem.AgentTxn
