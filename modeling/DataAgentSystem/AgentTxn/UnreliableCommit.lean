import DataAgentSystem.AgentTxn.AbortedCommit
import DataAgentSystem.AgentTxn.AgentTxnManager

/-! A crash-safe commit in an unreliable world, up to an error. The answers it got say
which artifacts it has put on disk. From the prepared artifact on it advances: the file
goes forward and nothing has been taken back. A rollback turns that around as soon as
one of its artifacts is on disk, and changes nothing before. -/

namespace DataAgentSystem.AgentTxn

open Text Intent Cache Branch Storage Interaction Containers CommitManager

variable {kind : StoreKind} {path : Bytes} {entries : List FallbackCommitEntry}
  {answers : List (Answer Call Call.Resp)}

/-- The artifact was put on disk. -/
def Persisted (path : Bytes) (a : FallbackCommitArtifact)
    (answers : List (Answer Call Call.Resp)) : Prop :=
  ⟨.replaceFile path a.text, true⟩ ∈ answers

/-- An artifact in one of the phases was put on disk. -/
def PersistedIn (path : Bytes) (phases : List FallbackCommitPhase)
    (answers : List (Answer Call Call.Resp)) : Prop :=
  ∃ a, Persisted path a answers ∧ a.phase ∈ phases

/-- No artifact was put on disk. -/
def Unwritten (path : Bytes) (answers : List (Answer Call Call.Resp)) : Prop :=
  ∀ a, ¬Persisted path a answers

/-- Artifacts with these entries were put on disk, the prepared one among them. -/
structure Wrote (path : Bytes) (entries : List FallbackCommitEntry)
    (answers : List (Answer Call Call.Resp)) : Prop where
  same : ∀ a, Persisted path a answers → a.entries = entries
  prepared : PersistedIn path [.prepared] answers

/-- The commit goes forward. -/
structure Advancing (path : Bytes) (entries : List FallbackCommitEntry)
    (x : World × List (Answer Call Call.Resp)) :
    Prop extends Wrote path entries x.2 where
  notBack : ¬PersistedIn path [.rollingBack, .rolledBack] x.2
  forward : GoesForward path entries x.1

/-- The commit goes back. -/
structure Retreating (path : Bytes) (entries : List FallbackCommitEntry)
    (x : World × List (Answer Call Call.Resp)) :
    Prop extends Wrote path entries x.2 where
  back : PersistedIn path [.rollingBack, .rolledBack] x.2
  backward : GoesBack path entries x.1

/-- The commit goes one way or the other. -/
def Underway (path : Bytes) (entries : List FallbackCommitEntry)
    (x : World × List (Answer Call Call.Resp)) : Prop :=
  Advancing path entries x ∨ Retreating path entries x

/-! ### One more answer -/

theorem persisted_append {a : FallbackCommitArtifact} {answer : Answer Call Call.Resp} :
    Persisted path a (answers ++ [answer]) ↔ Persisted path a answers ∨
      answer = ⟨.replaceFile path a.text, true⟩ := by
  rw [Persisted, List.mem_append, List.mem_singleton, eq_comm (a := answer)]
  rfl

/-- Only a write of the artifact puts one on disk. -/
theorem persisted_append_of_ne {a : FallbackCommitArtifact} {op : Call} {r : op.Resp}
    (hop : ∀ contents, op ≠ .replaceFile path contents) :
    Persisted path a (answers ++ [⟨op, r⟩]) ↔ Persisted path a answers := by
  rw [persisted_append, or_iff_left]
  intro heq
  exact hop _ (congrArg Answer.op heq)

theorem persisted_append_replaceFile {a b : FallbackCommitArtifact} {r : Bool} :
    Persisted path a (answers ++ [⟨.replaceFile path b.text, r⟩]) ↔
      Persisted path a answers ∨ (b.text = a.text ∧ r = true) := by
  rw [persisted_append]
  refine or_congr_right ⟨?_, ?_⟩
  · intro heq
    simp only [Answer.mk.injEq, Call.replaceFile.injEq, true_and] at heq
    exact ⟨heq.1, eq_of_heq heq.2⟩
  · rintro ⟨htext, rfl⟩
    rw [htext]

theorem PersistedIn.append {phases : List FallbackCommitPhase} (h : PersistedIn path phases answers)
    (answers' : List (Answer Call Call.Resp)) : PersistedIn path phases (answers ++ answers') := by
  obtain ⟨a, ha, hphase⟩ := h
  exact ⟨a, List.mem_append_left _ ha, hphase⟩

theorem persistedIn_append_of_ne {phases : List FallbackCommitPhase} {op : Call} {r : op.Resp}
    (hop : ∀ contents, op ≠ .replaceFile path contents) :
    PersistedIn path phases (answers ++ [⟨op, r⟩]) ↔ PersistedIn path phases answers :=
  exists_congr fun _ => and_congr_left' (persisted_append_of_ne hop)

theorem persistedIn_append_replaceFile {phases : List FallbackCommitPhase}
    {b : FallbackCommitArtifact} {r : Bool} :
    PersistedIn path phases (answers ++ [⟨.replaceFile path b.text, r⟩]) ↔
      PersistedIn path phases answers ∨ (b.phase ∈ phases ∧ r = true) := by
  constructor
  · rintro ⟨a, ha, hphase⟩
    rcases persisted_append_replaceFile.1 ha with hold | ⟨htext, hr⟩
    · exact .inl ⟨a, hold, hphase⟩
    · rw [← FallbackCommitArtifact.phase_eq_of_text_eq htext] at hphase
      exact .inr ⟨hphase, hr⟩
  · rintro (⟨a, ha, hphase⟩ | ⟨hphase, hr⟩)
    · exact ⟨a, persisted_append_replaceFile.2 (.inl ha), hphase⟩
    · exact ⟨b, persisted_append_replaceFile.2 (.inr ⟨rfl, hr⟩), hphase⟩

theorem Unwritten.keep {op : Call} {r : op.Resp} (h : Unwritten path answers)
    (hop : ∀ contents, op ≠ .replaceFile path contents) : Unwritten path (answers ++ [⟨op, r⟩]) :=
  fun a ha => h a ((persisted_append_of_ne hop).1 ha)

theorem Wrote.keep {op : Call} {r : op.Resp} (h : Wrote path entries answers)
    (hop : ∀ contents, op ≠ .replaceFile path contents) :
    Wrote path entries (answers ++ [⟨op, r⟩]) :=
  ⟨fun a ha => h.same a ((persisted_append_of_ne hop).1 ha), h.prepared.append _⟩

/-- One more artifact with the same entries. -/
theorem Wrote.write {b : FallbackCommitArtifact} {r : Bool} (h : Wrote path entries answers)
    (hentries : b.entries = entries) :
    Wrote path entries (answers ++ [⟨.replaceFile path b.text, r⟩]) := by
  refine ⟨fun a ha => ?_, h.prepared.append _⟩
  rcases persisted_append_replaceFile.1 ha with hold | ⟨htext, -⟩
  · exact h.same a hold
  · rw [← FallbackCommitArtifact.entries_eq_of_text_eq htext, hentries]

theorem ne_replaceFile_of_notMem_touched {op : Call} (hop : path ∉ op.touched) :
    ∀ contents, op ≠ .replaceFile path contents := by
  rintro contents rfl
  exact hop List.mem_cons_self

section Steps

variable {x y : World × List (Answer Call Call.Resp)} {op : Call} {r : op.Resp}

theorem GoesForward.sameFile {w w' : World} (h : GoesForward path entries w)
    (hsame : SameFile path w w') :
    GoesForward path entries w' := by
  obtain ⟨a, hdisk, hrest⟩ := h
  exact ⟨a, Eq.trans hsame hdisk, hrest⟩

theorem Advancing.keep (h : Advancing path entries x) (hop : path ∉ op.touched)
    (henv : (unreliable kind path).remembering op x r y) : Advancing path entries y := by
  obtain ⟨hanswer, hlog⟩ := henv
  have hne := ne_replaceFile_of_notMem_touched hop
  refine ⟨?_, ?_, h.forward.sameFile (sameFile_of_notMem_touched hanswer hop)⟩
  · rw [hlog]
    exact h.toWrote.keep hne
  · rw [hlog, persistedIn_append_of_ne hne]
    exact h.notBack

theorem Retreating.keep (h : Retreating path entries x) (hop : path ∉ op.touched)
    (henv : (unreliable kind path).remembering op x r y) : Retreating path entries y := by
  obtain ⟨hanswer, hlog⟩ := henv
  refine ⟨?_, ?_, h.backward.sameFile (sameFile_of_notMem_touched hanswer hop)⟩
  · rw [hlog]
    exact h.toWrote.keep (ne_replaceFile_of_notMem_touched hop)
  · rw [hlog]
    exact h.back.append _

/-- A write on the way forward. -/
theorem Advancing.write {b : FallbackCommitArtifact} {r : Bool} (h : Advancing path entries x)
    (hentries : b.entries = entries) (hcount : b.appliedCount ≤ entries.length)
    (hphase : b.phase = .applying)
    (henv : (unreliable kind path).remembering (.replaceFile path b.text) x r y) :
    Advancing path entries y := by
  obtain ⟨hanswer, hlog⟩ := henv
  refine ⟨?_, ?_, ?_⟩
  · rw [hlog]
    exact h.toWrote.write hentries
  · rw [hlog, persistedIn_append_replaceFile, hphase]
    rintro (hback | ⟨hback, -⟩)
    · exact h.notBack hback
    · simp at hback
  · rcases unreliable_replaceFile hanswer with ⟨-, hfile⟩ | ⟨-, hsame⟩
    · exact ⟨b, hfile, hentries, hcount, .inr hphase⟩
    · exact h.forward.sameFile hsame

/-- A write that is refused. -/
theorem Advancing.refused {b : FallbackCommitArtifact} (h : Advancing path entries x)
    (henv : (unreliable kind path).remembering (.replaceFile path b.text) x false y) :
    Advancing path entries y := by
  obtain ⟨hanswer, hlog⟩ := henv
  have hsame : SameFile path x.1 y.1 := by
    rcases unreliable_replaceFile hanswer with ⟨hr, -⟩ | ⟨-, hsame⟩
    · cases hr
    · exact hsame
  refine ⟨⟨fun a ha => ?_, ?_⟩, ?_, h.forward.sameFile hsame⟩
  · rw [hlog, persisted_append_replaceFile] at ha
    rcases ha with hold | ⟨-, hr⟩
    · exact h.same a hold
    · cases hr
  · rw [hlog]
    exact h.prepared.append _
  · rw [hlog, persistedIn_append_replaceFile]
    rintro (hback | ⟨-, hr⟩)
    · exact h.notBack hback
    · cases hr

/-- The calls of a rollback keep the commit under way, in one direction or the other. -/
theorem Underway.undoing (h : Underway path entries x) (hop : UndoingCall path entries op)
    (henv : (unreliable kind path).remembering op x r y) : Underway path entries y := by
  by_cases htouched : path ∈ op.touched
  · rcases hop with hreads | ⟨e, he, rfl⟩ | ⟨b, rfl, hentries, hphase⟩
    · rw [Call.touched_of_reads hreads] at htouched
      exact absurd htouched List.not_mem_nil
    · rw [touched_undoCall] at htouched
      exact absurd htouched List.not_mem_nil
    · obtain ⟨hanswer, hlog⟩ := henv
      have hwrote : Wrote path entries y.2 := by
        rw [hlog]
        rcases h with hadvancing | hretreating
        · exact hadvancing.toWrote.write hentries
        · exact hretreating.toWrote.write hentries
      rcases unreliable_replaceFile hanswer with ⟨rfl, hfile⟩ | ⟨rfl, hsame⟩
      · refine .inr ⟨hwrote, ?_, goesBack_of_onDisk hfile hentries (by simpa using hphase)⟩
        rw [hlog, persistedIn_append_replaceFile]
        exact .inr ⟨hphase, rfl⟩
      · rcases h with hadvancing | hretreating
        · exact .inl (hadvancing.refused ⟨hanswer, hlog⟩)
        · refine .inr ⟨hwrote, ?_, hretreating.backward.sameFile hsame⟩
          rw [hlog]
          exact hretreating.back.append _
  · rcases h with hadvancing | hretreating
    · exact .inl (hadvancing.keep htouched henv)
    · exact .inr (hretreating.keep htouched henv)

end Steps

/-! ### The commit -/

variable {x : World × List (Answer Call Call.Resp)}

/-- A rollback leaves the commit under way. -/
theorem withstands_rollback {artifact : FallbackCommitArtifact} (reason : Bytes)
    (hentries : artifact.entries = entries) (h : Advancing path entries x) :
    (rollbackCrashSafeArtifact artifact path reason).Withstands (unreliable kind path).remembering
      (fun _ => True) x
      fun _ y => Underway path entries y := by
  have hcalls : (rollbackCrashSafeArtifact artifact path reason).Only
      (UndoingCall path entries) := by
    refine Program.only_bind (abides_resumeRollback hentries {}).only fun out => ?_
    simp only
    split <;> trivial
  have hkept : (rollbackCrashSafeArtifact artifact path reason).Withstands
    (unreliable kind path).remembering
      (Underway path entries) x fun _ _ => True :=
    hcalls.withstands (fun _ hop _ _ _ henv hunderway => hunderway.undoing hop henv) (.inl h)
  exact (hkept.mono fun _ _ hunderway _ => hunderway).weaken fun _ _ => trivial

theorem withstands_applyEntries {config : FallbackCommitConfig} (hpath : config.artifactPath = path)
    {todo : List FallbackCommitEntry} :
    ∀ {artifact : FallbackCommitArtifact} {x : World × List (Answer Call Call.Resp)},
      artifact.entries = entries →
      artifact.appliedCount + todo.length ≤ entries.length → Advancing path entries x →
      (applyEntries config todo artifact).Withstands (unreliable kind path).remembering
        (fun _ => True) x fun out y =>
        match out with
        | .error _ => Underway path entries y
        | .ok _ => Advancing path entries y := by
  subst hpath
  induction todo with
  | nil => exact fun _ _ h => ⟨trivial, h⟩
  | cons e todo ih =>
    intro artifact x hentries hcount h
    rw [List.length_cons] at hcount
    have hrollback : ∀ {y} reason, Advancing config.artifactPath entries y →
        (rollbackCrashSafeArtifact artifact config.artifactPath reason >>= fun reason =>
          Program.ret (Except.error reason : Except Bytes FallbackCommitArtifact)).Withstands
            (unreliable kind config.artifactPath).remembering (fun _ => True) y fun out z =>
              match out with
              | .error _ => Underway config.artifactPath entries z
              | .ok _ => Advancing config.artifactPath entries z := by
      intro y reason hy
      rw [Program.withstands_bind]
      exact (withstands_rollback reason hentries hy).mono fun _ _ _ hunderway =>
        ⟨trivial, hunderway⟩
    rw [applyEntries, Store.get_bind, Program.withstands_call]
    refine ⟨trivial, fun current y henv => ?_⟩
    have hy : Advancing config.artifactPath entries y := h.keep (by simp [Call.touched]) henv
    split
    next => exact hrollback _ hy
    next =>
      rw [Store.putIfVersion_bind, Program.withstands_call]
      refine ⟨trivial, fun put z henv => ?_⟩
      have hz : Advancing config.artifactPath entries z := hy.keep (by simp [Call.touched]) henv
      cases put with
      | false => exact hrollback _ hz
      | true =>
        simp only [Bool.not_true, Bool.false_eq_true, ↓reduceIte]
        rw [writeFallbackCommitArtifact, Files.replace_bind, Program.withstands_call]
        refine ⟨trivial, fun written z' henv => ?_⟩
        have hz' : Advancing config.artifactPath entries z' := hz.write (by exact hentries)
          (show artifact.appliedCount + 1 ≤ entries.length by omega) rfl henv
        cases written with
        | false => exact ⟨trivial, .inl hz'⟩
        | true =>
          simp only [Bool.not_true, Bool.false_eq_true, ↓reduceIte]
          split
          next => exact ⟨trivial, .inl hz'⟩
          next =>
            exact ih hentries
              (show artifact.appliedCount + 1 + todo.length ≤ entries.length by omega) hz'

/-- From the prepared artifact on. -/
theorem withstands_commitPrepared {config : FallbackCommitConfig}
    (hpath : config.artifactPath = path) {artifact : FallbackCommitArtifact}
    (hphase : artifact.phase = .prepared) (hcount : artifact.appliedCount = 0)
    (h : Unwritten path x.2) :
    (commitPrepared config artifact).Withstands (unreliable kind path).remembering
      (fun _ => True) x fun out y =>
      ∀ reason, out = .error reason → Unwritten path y.2 ∨ Underway path artifact.entries y := by
  subst hpath
  rw [commitPrepared, writeFallbackCommitArtifact, Files.replace_bind, Program.withstands_call]
  refine ⟨trivial, fun written y henv => ?_⟩
  obtain ⟨hanswer, hlog⟩ := henv
  rcases unreliable_replaceFile hanswer with ⟨rfl, hfile⟩ | ⟨rfl, -⟩
  · have hy : Advancing config.artifactPath artifact.entries y := by
      refine ⟨⟨fun a ha => ?_, ?_⟩, ?_, artifact, hfile, rfl, by omega, .inl hphase⟩
      · rw [hlog, persisted_append_replaceFile] at ha
        rcases ha with hold | ⟨htext, -⟩
        · exact absurd hold (h a)
        · exact (FallbackCommitArtifact.entries_eq_of_text_eq htext).symm
      · rw [hlog, persistedIn_append_replaceFile]
        exact .inr ⟨by simp [hphase], rfl⟩
      · rw [hlog, persistedIn_append_replaceFile, hphase]
        rintro (⟨a, ha, -⟩ | ⟨hback, -⟩)
        · exact h a ha
        · simp at hback
    simp only [Bool.not_true, Bool.false_eq_true, ↓reduceIte]
    rw [Program.withstands_bind]
    apply (withstands_applyEntries rfl rfl (by omega) hy).mono
    rintro (reason | applied) z - hz
    · exact ⟨trivial, fun _ _ => .inr hz⟩
    · simp only
      rw [writeFallbackCommitArtifact, Files.replace_bind, Program.withstands_call]
      refine ⟨trivial, fun written z' henv => ?_⟩
      cases written with
      | false => exact ⟨trivial, fun _ _ => .inr (.inl (hz.refused henv))⟩
      | true =>
        refine ⟨trivial, ?_⟩
        rintro _ ⟨⟩
  · refine ⟨trivial, fun _ _ => .inl fun a ha => ?_⟩
    rw [hlog, persisted_append_replaceFile] at ha
    rcases ha with hold | ⟨-, hr⟩
    · exact h a hold
    · cases hr

/-- What a commit knows of an entry it has prepared. -/
def AsPrepared (e : FallbackCommitEntry) : Prop :=
  e.expectedVersion = e.previousVersion ∧ (e.previousExists = false → e.previousVersion = 0)

theorem built_of_asPrepared (hnodup : (entries.map (·.key)).Nodup)
    (h : ∀ e ∈ entries, AsPrepared e) : Built entries :=
  ⟨hnodup, fun e he => (h e he).1, fun e he => (h e he).2⟩

theorem withstands_prepareEntries {expected : UnorderedMap UInt64} {writes : List WriteOp} :
    ∀ {entries : List FallbackCommitEntry} {x : World × List (Answer Call Call.Resp)},
      Unwritten path x.2 →
      (∀ e ∈ entries, AsPrepared e) →
      (prepareEntries expected writes entries).Withstands (unreliable kind path).remembering
        (fun _ => True) x fun out y =>
        Unwritten path y.2 ∧ ∀ entries', out = .ok entries' →
          entries'.map (·.key) = entries.map (·.key) ++ writes.map WriteOp.key ∧
              ∀ e ∈ entries', AsPrepared e := by
  induction writes with
  | nil =>
    intro entries x hx hentries
    refine ⟨trivial, hx, ?_⟩
    rintro _ ⟨⟩
    exact ⟨(List.append_nil _).symm, hentries⟩
  | cons write writes ih =>
    intro entries x hx hentries
    rw [prepareEntries]
    split
    next =>
      refine ⟨trivial, hx, ?_⟩
      rintro _ ⟨⟩
    next version _ =>
      rw [Store.get_bind, Program.withstands_call]
      refine ⟨trivial, fun current y henv => ?_⟩
      have hy : Unwritten path y.2 := by
        rw [henv.2]
        refine hx.keep ?_
        rintro _ ⟨⟩
      obtain ⟨hcurrent, -⟩ := unreliable_of_reads rfl henv.1
      rw [handle_get] at hcurrent
      split
      next =>
        refine ⟨trivial, hy, ?_⟩
        rintro _ ⟨⟩
      next hversion =>
        rw [not_not] at hversion
        apply (ih hy ?_).mono
        · rintro out z - ⟨hz, hout⟩
          refine ⟨hz, fun entries' hok => ?_⟩
          obtain ⟨hkeys, hprepared⟩ := hout entries' hok
          rw [hkeys, List.map_append, List.append_assoc]
          exact ⟨rfl, hprepared⟩
        · intro e he
          rcases List.mem_append.1 he with hold | hnew
          · exact hentries e hold
          · rw [List.mem_singleton.1 hnew]
            refine ⟨hversion.symm, fun hmissing => ?_⟩
            subst hcurrent
            simp only at hmissing ⊢
            rw [MemoryKVStore.version_of_not_exists hmissing]

/-- How a commit that gives up leaves things. -/
def Aborted (path : Bytes) (y : World × List (Answer Call Call.Resp)) : Prop :=
  Unwritten path y.2 ∨ ∃ entries, Built entries ∧ Underway path entries y

/-- Looking changes nothing about it. -/
theorem Aborted.reads {op : Call} {r : op.Resp} {y : World × List (Answer Call Call.Resp)}
    (h : Aborted path x) (hop : op.reads = true)
    (henv : (unreliable kind path).remembering op x r y) : Aborted path y := by
  have htouched : path ∉ op.touched := by
    rw [Call.touched_of_reads hop]
    exact List.not_mem_nil
  rcases h with hunwritten | ⟨entries, hb, hadvancing | hretreating⟩
  · left
    rw [henv.2]
    exact hunwritten.keep (ne_replaceFile_of_notMem_touched htouched)
  · exact .inr ⟨entries, hb, .inl (hadvancing.keep htouched henv)⟩
  · exact .inr ⟨entries, hb, .inr (hretreating.keep htouched henv)⟩

/-- What is on disk decides whether an aborted commit stands. -/
theorem Aborted.neverCommitted_iff {answers : List (Answer Call Call.Resp)} {w : World}
    (h : Aborted path (w, answers)) :
    (∀ a, Persisted path a answers → NeverCommitted kind path a.entries w) ↔
      (PersistedIn path [.prepared] answers →
        PersistedIn path [.rollingBack, .rolledBack] answers) := by
  rcases h with hunwritten | ⟨entries, hb, hadvancing | hretreating⟩
  · constructor
    · rintro - ⟨a, ha, -⟩
      exact absurd ha (hunwritten a)
    · exact fun _ a ha => absurd ha (hunwritten a)
  · obtain ⟨b, hpersisted, hprepared⟩ := hadvancing.prepared
    constructor
    · intro hnever
      have hb' := hnever b hpersisted
      rw [hadvancing.same b hpersisted] at hb'
      exact absurd hb' (hadvancing.forward.not_neverCommitted hb)
    · intro hback
      exact absurd (hback hadvancing.prepared) hadvancing.notBack
  · refine iff_of_true (fun a ha => ?_) fun _ => hretreating.back
    rw [hretreating.same a ha]
    exact hretreating.backward.neverCommitted hb

theorem withstands_commitWinnerWithoutBatchCrashSafe {txn : AgentTxnContext}
    (hpath : txn.fallbackCommit.artifactPath = path) {checks : List VersionCheck}
    {writes : List WriteOp} (hnodup : (writes.map WriteOp.key).Nodup) (h : Unwritten path x.2) :
    (commitWinnerWithoutBatchCrashSafe txn checks writes).Withstands
      (unreliable kind path).remembering (fun _ => True) x
      fun out y => ∀ reason, out = .error reason → Aborted path y := by
  rw [commitWinnerWithoutBatchCrashSafe, Program.withstands_bind]
  apply (withstands_prepareEntries h fun e he => absurd he List.not_mem_nil).mono
  rintro (reason | entries) y - ⟨hy, hout⟩
  · exact ⟨trivial, fun _ _ => .inl hy⟩
  · obtain ⟨hkeys, hprepared⟩ := hout entries rfl
    have hb : Built entries := built_of_asPrepared (by simpa [hkeys] using hnodup) hprepared
    apply (withstands_commitPrepared hpath rfl rfl hy).mono
    rintro out z - hz reason herror
    exact (hz reason herror).imp_right fun hunderway => ⟨entries, hb, hunderway⟩

/-- The keys of resolved writes are keys of entries, each at most once. -/
theorem returns_resolveEntries {latest : UnorderedMap WriteIntent}
    {buffered : List ObjectCacheEntry} :
    ∀ {seenChecks : UnorderedMap UInt64} {writes : List WriteOp},
      (resolveEntries latest buffered seenChecks writes).Returns fun out => ∀ r, out = .ok r →
        List.Sublist (r.2.map WriteOp.key)
          (writes.map WriteOp.key ++ buffered.map (·.objectId)) := by
  induction buffered with
  | nil =>
    rintro seenChecks writes _ ⟨⟩
    simp
  | cons entry buffered ih =>
    intro seenChecks writes
    rw [resolveEntries]
    split
    next => rintro _ ⟨⟩
    next intent _ =>
      rw [Store.get_bind, Program.returns_call]
      intro current
      dsimp only
      split
      next => rintro _ ⟨⟩
      next =>
        split
        next =>
          refine ih.mono fun out hout r hok => (hout r hok).trans ?_
          exact (List.Sublist.refl _).append (List.sublist_cons_self _ _)
        next =>
          split
          next => rintro _ ⟨⟩
          next =>
            refine ih.mono fun out hout r hok => ?_
            have hkeys := hout r hok
            rw [List.map_append, List.append_assoc] at hkeys
            exact hkeys

/-- Looking puts nothing on disk. -/
theorem withstands_unwritten {α : Type} {p : Prog α} (hp : p.Only fun op => op.reads = true)
    (h : Unwritten path x.2) :
    p.Withstands (unreliable kind path).remembering (fun _ => True) x fun _ y =>
      Unwritten path y.2 := by
  have hkept : p.Withstands (unreliable kind path).remembering (fun y => Unwritten path y.2) x
      fun _ _ => True := by
    apply hp.withstands
      (I := fun y : World × List (Answer Call Call.Resp) => Unwritten path y.2) _ h
    rintro op hop y r z ⟨-, hlog⟩ hy
    rw [hlog]
    apply hy.keep
    rintro contents rfl
    cases hop
  exact (hkept.mono fun _ _ hy _ => hy).weaken fun _ _ => trivial

theorem withstands_commitWinner {txn : AgentTxnContext} {winner : BranchContext}
    (hpath : txn.fallbackCommit.artifactPath = path) (hne : path ≠ []) (h : Unwritten path x.2) :
    (commitWinner txn winner).Withstands (unreliable .nonBatchMemory path).remembering
      (fun _ => True) x fun out y =>
      ∀ reason, out = .error reason → Aborted path y := by
  rw [commitWinner]
  split
  next => exact ⟨trivial, fun _ _ => .inl h⟩
  next seenChecks _ =>
    rw [Program.withstands_bind]
    have hreads :=
      (only_resolveEntries (latestIntents winner.intentLog) winner.writeBuffer.orderedEntries
        seenChecks []).mono fun _ => reads_of_get
    apply ((withstands_unwritten hreads h).returns returns_resolveEntries).mono
    rintro (reason | ⟨seenChecks, writes⟩) y - ⟨hkeys, hy⟩
    · exact ⟨trivial, fun _ _ => .inl hy⟩
    · have hnodup : (writes.map WriteOp.key).Nodup :=
        (hkeys _ rfl).nodup (by simpa using winner.writeBuffer.nodup_objectId_orderedEntries)
      simp only
      rw [Store.supportsAtomicBatchConditionalWrite_bind, Program.withstands_call]
      refine ⟨trivial, fun supports z henv => ?_⟩
      have hz : Unwritten path z.2 := by
        rw [henv.2]
        refine hy.keep ?_
        rintro _ ⟨⟩
      obtain ⟨rfl, -⟩ := unreliable_of_reads rfl henv.1
      have hrefused : (handle .nonBatchMemory .supportsAtomicBatchConditionalWrite z.1).1 =
          false := rfl
      rw [hrefused]
      simp only [Bool.false_eq_true, ↓reduceIte]
      rw [commitWinnerWithoutBatch, if_pos (hpath ▸ hne), Program.withstands_bind]
      apply (withstands_commitWinnerWithoutBatchCrashSafe hpath hnodup hz).mono
      rintro (reason | _) z' - hout
      · exact ⟨trivial, fun _ _ => hout reason rfl⟩
      · refine ⟨trivial, ?_⟩
        rintro _ ⟨⟩

theorem withstands_commitMarked {txn : AgentTxnContext}
    (hpath : txn.fallbackCommit.artifactPath = path) (hne : path ≠ []) (h : Unwritten path x.2) :
    (AgentTxnManager.commitMarked txn).Withstands (unreliable .nonBatchMemory path).remembering
      (fun _ => True) x
      fun out y => out.2.fallbackCommit.artifactPath = path ∧ (out.1 = false → Aborted path y) := by
  unfold AgentTxnManager.commitMarked
  cases BranchManager.findBranch txn.branches txn.winnerBranchId with
  | none => exact ⟨trivial, hpath, fun _ => .inl h⟩
  | some winner =>
    simp only
    rw [Program.withstands_bind]
    have hreads : (ValidationManager.validateWinner winner).Only fun op => op.reads = true :=
      ValidationManager.only_validateReads _ _
    apply (withstands_unwritten hreads h).mono
    intro validation y _ hy
    cases validation.success with
    | false => exact ⟨trivial, hpath, fun _ => .inl hy⟩
    | true =>
      simp only [Bool.not_true, Bool.false_eq_true, ↓reduceIte]
      rw [Program.withstands_bind]
      have htxn : ({ txn with validationResult := validation } :
        AgentTxnContext).fallbackCommit.artifactPath = path := hpath
      apply (withstands_commitWinner htxn hne hy).mono
      rintro (reason | log) z - hout
      · exact ⟨trivial, hpath, fun _ => hout reason rfl⟩
      · exact ⟨trivial, hpath, nofun⟩

/-- A transaction that does not commit leaves things as an aborted commit does. -/
theorem withstands_selectWinnerAndCommit {txn : AgentTxnContext}
    (hpath : txn.fallbackCommit.artifactPath = path) (hne : path ≠ []) (h : Unwritten path x.2) :
    (AgentTxnManager.selectWinnerAndCommit txn).Withstands
      (unreliable .nonBatchMemory path).remembering (fun _ => True) x
      fun out y => out.2.fallbackCommit.artifactPath = path ∧
        (out.1 = .ok false → Aborted path y) := by
  unfold AgentTxnManager.selectWinnerAndCommit
  cases BranchManager.selectWinner txn.branches with
  | error what => exact ⟨trivial, hpath, nofun⟩
  | ok winnerBranchId =>
    simp only
    rw [Program.withstands_bind]
    have hmarked : (AgentTxnManager.mark txn winnerBranchId).fallbackCommit.artifactPath =
        path := hpath
    apply (withstands_commitMarked hmarked hne h).mono
    rintro ⟨committed, txn'⟩ y - ⟨hpath', hout⟩
    exact ⟨trivial, hpath', fun hok => hout (Except.ok.inj hok)⟩

end DataAgentSystem.AgentTxn
