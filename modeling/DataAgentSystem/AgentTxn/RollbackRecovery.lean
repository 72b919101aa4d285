import DataAgentSystem.AgentTxn.ForwardRecovery

/-! Recovery of a fallback commit that was rolling back. Undoing an entry whose key
existed is a versioned write, so the store a crash leaves then fits neither side of
the prefix detection: every later recovery ends in a conflict. A crash before any
such undo, or after the artifact is rolled back, is recovered from. -/

namespace DataAgentSystem.AgentTxn

open Text Storage Interaction Containers

variable {kind : StoreKind} {path : Bytes} {entries live : List FallbackCommitEntry} {w : World}

/-- The entries of `live` are applied, those after them undone or never applied. -/
def Undoing (entries live : List FallbackCommitEntry) (s : MemoryKVStore) : Prop :=
  ∃ mid rest, entries = live ++ (mid ++ rest) ∧ AllAt FallbackCommitEntry.target live s ∧
    AllAt FallbackCommitEntry.undone mid s ∧ AllAt FallbackCommitEntry.previous rest s

/-- The file holds the entries on their way back. -/
def RollingBack (path : Bytes) (entries live : List FallbackCommitEntry) (w : World) : Prop :=
  Undoing entries live w.store ∧ ∃ artifact, OnDisk path artifact w ∧ artifact.entries = entries ∧
    artifact.appliedCount ≤ entries.length ∧
      (artifact.phase = .rollingBack ∨ (artifact.phase = .rolledBack ∧ live = []))

/-- The key of the entry holds its previous value, or is missing as before. -/
def Restored (e : FallbackCommitEntry) (s : MemoryKVStore) : Prop :=
  (s.get e.key).value = e.previous.value ∧ (s.get e.key).exists_ = e.previous.exists_

/-- The file says that the commit is rolled back. -/
def MarkedRolledBack (path : Bytes) (w : World) : Prop :=
  ∃ artifact, OnDisk path artifact w ∧ artifact.phase = .rolledBack

/-- The entries are undone and the file says so. -/
structure UndoFinished (path : Bytes) (entries : List FallbackCommitEntry) (w : World) : Prop where
  restored : ∀ e ∈ entries, Restored e w.store
  file : ∃ artifact, OnDisk path artifact w ∧ artifact.entries = entries ∧
    artifact.phase = .rolledBack

/-- No undo of a key that existed is followed by less than the whole rollback. -/
def Restartable (path : Bytes) (entries : List FallbackCommitEntry) (w : World) : Prop :=
  MarkedRolledBack path w ∨ ∀ e ∈ entries, e.previousExists = true → w.store.get e.key ≠ e.undone

/-! ### Undoing -/

theorem restored_of_previous {e : FallbackCommitEntry} {s : MemoryKVStore}
    (h : s.get e.key = e.previous) :
    Restored e s := by
  rw [Restored, h]
  exact ⟨rfl, rfl⟩

theorem restored_of_undone {e : FallbackCommitEntry} {s : MemoryKVStore}
    (h : s.get e.key = e.undone) :
    Restored e s := by
  rw [Restored, h]
  cases hp : e.previousExists <;>
    simp [FallbackCommitEntry.undone, FallbackCommitEntry.previous, hp]

theorem Undoing.restored {s : MemoryKVStore} (h : Undoing entries [] s) :
    ∀ e ∈ entries, Restored e s := by
  obtain ⟨mid, rest, rfl, -, hmid, hrest⟩ := h
  intro e he
  rw [List.nil_append] at he
  rcases List.mem_append.1 he with hmem | hmem
  · exact restored_of_undone (hmid e hmem)
  · exact restored_of_previous (hrest e hmem)

/-- A store at a prefix is one from which undoing starts. -/
theorem Undoing.of_prefix {rest : List FallbackCommitEntry} {s : MemoryKVStore}
    (hsplit : entries = live ++ rest) (hlive : AllAt FallbackCommitEntry.target live s)
    (hrest : AllAt FallbackCommitEntry.previous rest s) :
    Undoing entries live s :=
  ⟨[], rest, hsplit, hlive, fun _ he => absurd he List.not_mem_nil, hrest⟩

theorem Undoing.undo (hb : Built entries) {e : FallbackCommitEntry} {s s' : MemoryKVStore}
    (h : Undoing entries (live ++ [e]) s) (hget : s'.get e.key = e.undone)
    (hframe : ∀ k, k ≠ e.key → s'.get k = s.get k) : Undoing entries live s' := by
  obtain ⟨mid, rest, hsplit, hlive, hmid, hrest⟩ := h
  have hkeys := hb.nodup
  rw [hsplit, List.append_assoc, List.map_append, List.singleton_append, List.map_cons,
    List.nodup_append] at hkeys
  obtain ⟨-, hcons, hdisjoint⟩ := hkeys
  have hafter := (List.nodup_cons.1 hcons).1
  rw [List.map_append, List.mem_append, not_or] at hafter
  have hbefore : e.key ∉ live.map (·.key) := fun hmem => hdisjoint _ hmem _ List.mem_cons_self rfl
  refine ⟨e :: mid,
    rest, by rw [hsplit, List.append_assoc]; rfl, ?_, ?_, hrest.frame hafter.2 hframe⟩
  · have hlive' : AllAt FallbackCommitEntry.target live s := fun e' he' =>
      hlive e' (List.mem_append_left _ he')
    exact hlive'.frame hbefore hframe
  · exact List.forall_mem_cons.2 ⟨hget, hmid.frame hafter.1 hframe⟩

/-- Detection accepts a store on its way back unless an existing key is undone. -/
theorem Undoing.prefixState_iff (hb : Built entries) {s : MemoryKVStore}
    (h : Undoing entries live s) :
    PrefixState entries s ↔ ∀ e ∈ entries, e.previousExists = true → s.get e.key ≠ e.undone := by
  constructor
  · rintro ⟨applied, rest, hsplit, happlied, hrest⟩ e he hexists hundone
    rw [hsplit] at he
    rcases List.mem_append.1 he with hmem | hmem
    · have he' : e ∈ entries := hsplit ▸ List.mem_append_left _ hmem
      exact hb.target_ne_undone he' ((happlied e hmem).symm.trans hundone)
    · have hfalse := undone_eq_previous_iff.1 (hundone.symm.trans (hrest e hmem))
      simp [hexists] at hfalse
  · obtain ⟨mid, rest, hsplit, hlive, hmid, hrest⟩ := h
    intro hnone
    refine ⟨live, mid ++ rest, hsplit, hlive, fun e he => ?_⟩
    rcases List.mem_append.1 he with hmem | hmem
    · have he' : e ∈ entries := hsplit ▸ List.mem_append_right _ he
      have hmissing : e.previousExists = false := by
        by_contra hexists
        exact hnone e he' (by simpa using hexists) (hmid e hmem)
      rw [hmid e hmem, undone_eq_previous_iff.2 hmissing]
    · exact hrest e hmem

theorem rollingBack_withArtifact {artifact : FallbackCommitArtifact}
    (hs : Undoing entries live w.store) (hentries : artifact.entries = entries)
    (hcount : artifact.appliedCount ≤ entries.length)
    (hphase : artifact.phase = .rollingBack ∨ (artifact.phase = .rolledBack ∧ live = [])) :
    RollingBack path entries live (withArtifact path artifact w) :=
  ⟨hs, artifact, onDisk_withArtifact _ _ _, hentries, hcount, hphase⟩

/-- Some part of the entries is still to be undone. -/
def RollingInv (path : Bytes) (entries : List FallbackCommitEntry) (w : World) : Prop :=
  ∃ live, RollingBack path entries live w

/-- The backward loop undoes the entries that are applied, newest first. -/
theorem safely_undoBackward (hb : Built entries) {todo : List FallbackCommitEntry} :
    ∀ {artifact : FallbackCommitArtifact} {result : FallbackRecoveryResult} {w : World},
      artifact.entries = entries → artifact.appliedCount = todo.length →
      artifact.phase = .rollingBack → RollingBack path entries todo.reverse w →
      (undoBackward path todo artifact result).Safely (handle kind) (RollingInv path entries) w
        fun out w' =>
        out.1 = true ∧ out.2.1.entries = entries ∧ out.2.1.appliedCount = 0 ∧
          out.2.2.success = result.success ∧ Undoing entries [] w'.store := by
  induction todo with
  | nil =>
    intro artifact result w hentries hcount _ hrolling
    exact Program.safely_ret.2 ⟨⟨_, hrolling⟩, rfl, hentries, hcount, rfl, hrolling.1⟩
  | cons e todo ih =>
    intro artifact result w hentries hcount hphase hrolling
    have hinv : RollingInv path entries w := ⟨_, hrolling⟩
    obtain ⟨hundoing, a, hdisk, ha, hac, hp⟩ := hrolling
    rw [List.reverse_cons] at hundoing hp
    have hundone : ∀ s : MemoryKVStore, s.get e.key = e.undone →
      (∀ k, k ≠ e.key → s.get k = w.store.get k) →
        Undoing entries todo.reverse s := fun s => hundoing.undo hb
    obtain ⟨mid, rest, hsplit, hlive, -, -⟩ := hundoing
    have he : e ∈ entries := by simp [hsplit]
    have hget : w.store.get e.key = e.target := hlive e (by simp)
    have hlen : todo.length + 1 ≤ entries.length := by
      simp only [hsplit, List.length_append, List.length_reverse, List.length_singleton]
      omega
    have hnotPrevious : e.matchesPrevious (w.store.get e.key) = false := by
      rw [Bool.eq_false_iff, Ne, FallbackCommitEntry.matchesPrevious_iff, hget]
      exact hb.target_ne_previous he
    have hmatch : e.matchesTarget (w.store.get e.key) = true :=
      FallbackCommitEntry.matchesTarget_iff.2 hget
    rw [undoBackward, Store.get_bind, Program.safely_call, handle_get]
    refine ⟨hinv, ?_⟩
    rw [if_neg (by simp [hnotPrevious]), if_neg (by simp [hmatch]), Program.safely_bind]
    have hstep : ∀ s, s.get e.key = e.undone → (∀ k, k ≠ e.key → s.get k = w.store.get k) →
        RollingInv path entries (withStore w s) := by
      intro s hs hframe
      refine ⟨_, hundone s hs hframe, a, hdisk, ha, hac, hp.imp_right fun hp => ?_⟩
      exact absurd hp.2 (List.append_ne_nil_of_right_ne_nil _ (List.cons_ne_nil _ _))
    refine (safely_undoEntry hb he hget hinv hstep).mono ?_
    rintro ok w' hinv' ⟨rfl, s, rfl, hs, hframe⟩
    simp only [Bool.not_true, Bool.false_eq_true, ↓reduceIte]
    rw [safely_write]
    refine ⟨hinv', ?_⟩
    simp only [Bool.not_true, Bool.false_eq_true, ↓reduceIte]
    have hcount' : artifact.appliedCount - 1 = todo.length := by
      rw [hcount]
      rfl
    refine ih hentries hcount' hphase
      (rollingBack_withArtifact (hundone s hs hframe) hentries ?_ (.inl hphase))
    simp only [hcount']
    omega

/-- How a rollback ends that has nothing in its way. -/
structure Undid (path : Bytes) (entries : List FallbackCommitEntry)
    (result : FallbackRecoveryResult) (out : Bool × FallbackCommitArtifact × FallbackRecoveryResult)
    (w : World) : Prop where
  ok : out.1 = true
  success : out.2.2.success = result.success
  finished : UndoFinished path entries w

/-- A rollback from a prefix. Until its first write it only looks, so an assertion
that looking keeps and that holds from then on holds throughout. -/
theorem safely_resumeRollback (calls : List Call) (hb : Built entries)
    {artifact : FallbackCommitArtifact} {result : FallbackRecoveryResult}
    {J : World × List Call → Prop} (hentries : artifact.entries = entries)
    (hstarts : PrefixState entries w.store)
    (hlooking : ∀ looks, (∀ op ∈ looks, Call.reads op = true) → J (w, calls ++ looks))
    (hrolling : ∀ x, RollingInv path entries x.1 → J x) :
    (resumeRollbackFallbackCommit artifact path result).Safely (Program.logged (handle kind))
      J (w, calls)
      fun out x => Undid path entries result out x.1 := by
  subst hentries
  obtain ⟨live, rest, hsplit, hlive, hrest⟩ := hstarts
  have hlen : live.length ≤ artifact.entries.length := by
    rw [hsplit, List.length_append]
    omega
  have hlooks : ∀ op, Call.reads op = true → (handle kind op w).2 = w :=
    fun op hop => handle_of_reads hop w
  have hdetect := (only_detectCommittedPrefix artifact result).safely_logged calls hlooks
  have hended : (detectCommittedPrefix artifact result).Safely (Program.logged (handle kind))
      (fun x => ∃ looks, (∀ op ∈ looks, Call.reads op = true) ∧ x = (w, calls ++ looks)) (w, calls)
      fun out _ => out = (live.length, result) := by
    rw [run_detectCommittedPrefix_of_prefixState hb hsplit hlive hrest] at hdetect
    refine hdetect.weaken ?_
    rintro ⟨w', made⟩ ⟨rfl, looks, rfl, hreads⟩
    exact ⟨looks, hreads, rfl⟩
  rw [resumeRollbackFallbackCommit, Program.safely_bind]
  refine ((hended.mono fun _ _ hx hout => And.intro hx hout).weaken ?_).mono ?_
  · rintro _ ⟨looks, hreads, rfl⟩
    exact hlooking looks hreads
  rintro out _ - ⟨⟨looks, hreads, rfl⟩, rfl⟩
  simp only [gt_iff_lt, Nat.not_lt.2 hlen, ↓reduceIte]
  rw [writeFallbackCommitArtifact, Files.replace_bind, Program.safely_call]
  refine ⟨hlooking looks hreads, ?_⟩
  rw [Program.logged_fst, Program.logged_snd, handle_replaceFile]
  simp only [Bool.not_true, Bool.false_eq_true, ↓reduceIte]
  refine Program.Safely.weaken (I := fun x => RollingInv path artifact.entries x.1) ?_ hrolling
  refine Program.safely_logged_iff.2 ?_
  have htake : artifact.entries.take live.length = live := by
    rw [hsplit, List.take_left]
  rw [htake, Program.safely_bind]
  refine Program.Safely.mono (safely_undoBackward hb ?_ ?_ ?_ ?_) ?_
  · rfl
  · exact List.length_reverse.symm
  · rfl
  · rw [List.reverse_reverse]
    exact rollingBack_withArtifact (Undoing.of_prefix hsplit hlive hrest) rfl hlen (.inl rfl)
  · rintro ⟨ok, artifact', result'⟩ w' hinv' ⟨hok, hentries', hcount', hsuccess', hundoing⟩
    simp only at hok hentries' hcount' hsuccess'
    subst hok
    simp only [Bool.not_true, Bool.false_eq_true, ↓reduceIte]
    have hrolled : RollingBack path artifact.entries []
        (withArtifact path { artifact' with phase := .rolledBack } w') :=
      rollingBack_withArtifact hundoing hentries' (by simp [hcount']) (.inr ⟨rfl, rfl⟩)
    rw [safely_write]
    refine ⟨hinv', ?_⟩
    simp only [Bool.not_true, Bool.false_eq_true, ↓reduceIte]
    exact Program.safely_ret.2 ⟨⟨_, hrolled⟩, rfl, hsuccess', hundoing.restored, _,
      onDisk_withArtifact _ _ _, hentries', rfl⟩

/-- A rollback from anywhere else gives up at once. -/
theorem safely_resumeRollback_conflict {artifact : FallbackCommitArtifact}
    {result : FallbackRecoveryResult} {I : World → Prop} (hI : I w)
    (h : ¬PrefixState artifact.entries w.store) :
    (resumeRollbackFallbackCommit artifact path result).Safely (handle kind) I w
      fun out _ => out.1 = false ∧ ∃ reason, out.2.2 = result.conflict reason := by
  obtain ⟨key, hdetect⟩ := run_detectCommittedPrefix_of_not_prefixState kind result h
  rw [resumeRollbackFallbackCommit, Program.safely_bind]
  refine (looks_detectCommittedPrefix artifact result w).safely hI ?_
  rw [hdetect]
  simp only [gt_iff_lt, Nat.lt_add_one, ↓reduceIte]
  exact Program.safely_ret.2 ⟨hI, rfl, _, rfl⟩

/-! ### Recovery runs -/

theorem MarkedRolledBack.phase {artifact : FallbackCommitArtifact} (h : MarkedRolledBack path w)
    (hdisk : OnDisk path artifact w) : artifact.phase = .rolledBack := by
  obtain ⟨artifact', hdisk', hphase⟩ := h
  rw [← hphase]
  exact FallbackCommitArtifact.phase_eq_of_text_eq (Option.some.inj (hdisk.symm.trans hdisk'))

/-- A recovery run keeps the invariant and succeeds exactly where it may start. -/
theorem safely_recover_rolling (hb : Built entries) (hsize : entries.length < 2 ^ 64)
    (hinv : RollingInv path entries w) :
    (recoverFallbackCommitArtifacts [path]).Safely (handle kind) (RollingInv path entries) w
      fun result w' =>
      (Restartable path entries w → result.success = true ∧ UndoFinished path entries w') ∧
        (¬Restartable path entries w → result.success = false) := by
  have hrolling := hinv
  obtain ⟨live, hundoing, artifact, hdisk, rfl, hcount, hphase⟩ := hrolling
  rcases hphase with hp | ⟨hp, rfl⟩
  · have hrestart : Restartable path artifact.entries w ↔ PrefixState artifact.entries w.store := by
      rw [hundoing.prefixState_iff hb, Restartable, or_iff_right]
      intro hmarked
      simp [hmarked.phase hdisk] at hp
    refine safely_recover hdisk hcount hsize (by simp [hp]) hinv ?_
    rw [if_pos hp]
    by_cases hstarts : PrefixState artifact.entries w.store
    · have hsafe : (resumeRollbackFallbackCommit artifact path {}).Safely (handle kind)
          (RollingInv path artifact.entries) w (Undid path artifact.entries {}) :=
        Program.safely_logged_iff.1
          (safely_resumeRollback [] hb rfl hstarts (fun _ _ => hinv) fun _ hx => hx)
      refine hsafe.mono ?_
      rintro out w' - ⟨hok, hsuccess, hfinished⟩
      rw [if_pos hok]
      exact ⟨fun _ => ⟨hsuccess, hfinished⟩, fun hnot => absurd (hrestart.2 hstarts) hnot⟩
    · refine (safely_resumeRollback_conflict hinv hstarts).mono ?_
      rintro out w' - ⟨hok, reason, hconflict⟩
      rw [if_neg (by simp [hok]), hconflict]
      exact ⟨fun hyes => absurd (hrestart.1 hyes) hstarts, fun _ => rfl⟩
  · obtain ⟨hlooks, hsuccess⟩ := recover_terminal hdisk hcount hsize (.inr hp)
    refine hlooks.safely hinv ?_
    exact ⟨fun _ => ⟨hsuccess, hundoing.restored, artifact, hdisk, rfl, hp⟩,
      fun hnot => absurd (.inl ⟨artifact, hdisk, hp⟩) hnot⟩

/-- A rollback that crashes after it is announced, and whose recovery may crash as
well, is completed by a recovery run exactly if that run may start where it does. -/
theorem resumeRollbackFallbackCommit_recovers_iff (kind : StoreKind)
    (artifact : FallbackCommitArtifact) (path : Bytes) (w : World) (n : ℕ) (ks : List ℕ)
    (hb : Built artifact.entries) (hsize : artifact.entries.length < 2 ^ 64)
    (hstarts : PrefixState artifact.entries w.store) (hrolling : WroteArtifact path .rollingBack
      ((resumeRollbackFallbackCommit artifact path {}).crash (Program.logged (handle kind)) n
        (w, [])).2) :
    let recovery := recoverFallbackCommitArtifacts [path]
    let crashed := (resumeRollbackFallbackCommit artifact path {}).crash
      (Program.logged (handle kind)) n (w, [])
    let stopped := recovery.crashes (handle kind) ks crashed.1
    let recovered := recovery.run (handle kind) stopped
    (recovered.1.success = true ∧ UndoFinished path artifact.entries recovered.2) ↔
      Restartable path artifact.entries stopped := by
  intro recovery crashed stopped recovered
  have hsafe : (resumeRollbackFallbackCommit artifact path {}).Safely (Program.logged (handle kind))
      (fun x => (∀ op ∈ x.2, Call.reads op = true) ∨ RollingInv path artifact.entries x.1) (w, [])
      fun out x => Undid path artifact.entries {} out x.1 :=
    safely_resumeRollback [] hb rfl hstarts (fun looks hlooks => .inl hlooks) fun _ hx => .inr hx
  have hcrashed : RollingInv path artifact.entries crashed.1 := by
    rcases hsafe.always.crash n with hreads | hinv
    · obtain ⟨written, -, hmem⟩ := hrolling
      exact absurd (hreads _ hmem) (by simp [Call.reads])
    · exact hinv
  have hstopped : RollingInv path artifact.entries stopped :=
    Program.crashes_keep (fun w' hw' => (safely_recover_rolling hb hsize hw').always) ks hcrashed
  have hrun : recovery.Safely (handle kind) (RollingInv path artifact.entries) stopped _ :=
    safely_recover_rolling hb hsize hstopped
  obtain ⟨hyes, hno⟩ := hrun.ends
  refine ⟨fun hdone => ?_, hyes⟩
  by_contra hnot
  exact absurd (hdone.1.symm.trans (hno hnot)) (by decide)

/-- A commit that overwrote a key and created another one, -/
def overwritingAndCreating : FallbackCommitArtifact where
  entries := [
    { key := ascii "a", expectedVersion := 1, targetValue := ascii "b", previousValue := ascii "a",
      previousVersion := 1,
      previousExists := true },
    { key := ascii "c", targetValue := ascii "d" }]

/-- the store with both, -/
def overwrittenAndCreated : World where
  store := ((MemoryKVStore.write {} (ascii "a") (ascii "a")).write (ascii "a") (ascii "b")).write
    (ascii "c") (ascii "d")

/-- and the first five calls of the rollback, which has just deleted the created key. -/
def cutOffCreated : World × List Call :=
  (resumeRollbackFallbackCommit overwritingAndCreating (ascii "f") {}).crash
    (Program.logged (handle .nonBatchMemory)) 5
    (overwrittenAndCreated, [])

/-- Both keys are taken back, although two runs of the recovery are cut off as well. -/
theorem resumeRollbackFallbackCommit_recovers_created :
    let recovery := recoverFallbackCommitArtifacts [ascii "f"]
    let stopped := recovery.crashes (handle .nonBatchMemory) [3, 4] cutOffCreated.1
    let recovered := recovery.run (handle .nonBatchMemory) stopped
    (recovered.1.success = true ∧
      UndoFinished (ascii "f") overwritingAndCreating.entries recovered.2) ↔
      Restartable (ascii "f") overwritingAndCreating.entries stopped := by
  have hcalls : cutOffCreated.2 = [.get (ascii "a"), .get (ascii "c"),
      .replaceFile (ascii "f")
      { overwritingAndCreating with appliedCount := 2, phase := .rollingBack }.text,
      .get (ascii "c"), .deleteIfVersion (ascii "c") 1] := by rfl
  refine resumeRollbackFallbackCommit_recovers_iff .nonBatchMemory
    overwritingAndCreating (ascii "f")
    overwrittenAndCreated 5 [3, 4] ⟨by decide, by decide, by decide⟩ (by decide) ?_ ?_
  · exact ⟨overwritingAndCreating.entries, [],
      rfl, by decide, fun _ he => absurd he List.not_mem_nil⟩
  · show WroteArtifact (ascii "f") .rollingBack cutOffCreated.2
    rw [hcalls]
    exact ⟨{ overwritingAndCreating with appliedCount := 2, phase := .rollingBack }, rfl,
      by simp only [List.mem_cons, true_or, or_true]⟩

/-- A commit that overwrote a key. -/
def overwriting : FallbackCommitArtifact where
  entries := [{
    key := ascii "a", expectedVersion := 1, targetValue := ascii "b",
    previousValue := ascii "a", previousVersion := 1, previousExists := true }]

def overwritten : World where
  store := (MemoryKVStore.write {} (ascii "a") (ascii "a")).write (ascii "a") (ascii "b")

/-- Its rollback, cut off between the undo of the key and the file. -/
def cutOff : World × List Call :=
  (resumeRollbackFallbackCommit overwriting (ascii "f") {}).crash
    (Program.logged (handle .nonBatchMemory)) 4
    (overwritten, [])

theorem cutOff_rolling : WroteArtifact (ascii "f") .rollingBack cutOff.2 := by
  have hcalls : cutOff.2 = [.get (ascii "a"),
      .replaceFile (ascii "f") { overwriting with appliedCount := 1, phase := .rollingBack }.text,
      .get (ascii "a"),
      .putIfVersion (ascii "a") 2 (ascii "a")] := by rfl
  rw [hcalls]
  exact ⟨{ overwriting with appliedCount := 1, phase := .rollingBack },
    rfl, by simp only [List.mem_cons, true_or, or_true]⟩

theorem cutOff_undone :
    AllAt FallbackCommitEntry.undone overwriting.entries cutOff.1.store := by decide

theorem cutOff_onDisk :
    OnDisk (ascii "f") { overwriting with appliedCount := 1, phase := .rollingBack } cutOff.1 := rfl

theorem cutOff_conflict :
    ((recoverFallbackCommitArtifacts [ascii "f"]).run (handle .nonBatchMemory) cutOff.1).1.success =
      false := by
  have hnone : ∀ state s, AllAt state [] s := fun _ _ _ he => absurd he List.not_mem_nil
  have hinv : RollingInv (ascii "f") overwriting.entries cutOff.1 :=
    ⟨[], ⟨overwriting.entries, [], rfl, hnone _ _, cutOff_undone, hnone _ _⟩, _, cutOff_onDisk,
      rfl, by decide, .inl rfl⟩
  refine (safely_recover_rolling ⟨by decide, by decide, by decide⟩ (by decide) hinv).ends.2 ?_
  rintro (hmarked | hnot)
  · exact absurd (hmarked.phase cutOff_onDisk) (by decide)
  · exact hnot _ List.mem_cons_self rfl (cutOff_undone _ List.mem_cons_self)

/-- An overwritten key whose undo is cut off from the file is in nobody's state: the
recovery ends in a conflict. -/
theorem resumeRollbackFallbackCommit_not_recovers :
    ¬∀ (artifact : FallbackCommitArtifact) (path : Bytes) (w : World) (n : ℕ) (ks : List ℕ),
      Built artifact.entries → artifact.entries.length < 2 ^ 64 →
        PrefixState artifact.entries w.store →
      WroteArtifact path .rollingBack
        ((resumeRollbackFallbackCommit artifact path {}).crash
          (Program.logged (handle .nonBatchMemory)) n (w, [])).2 →
      let recovery := recoverFallbackCommitArtifacts [path]
      let crashed := (resumeRollbackFallbackCommit artifact path {}).crash
        (Program.logged (handle .nonBatchMemory)) n (w, [])
      let recovered := recovery.run (handle .nonBatchMemory)
        (recovery.crashes (handle .nonBatchMemory) ks crashed.1)
      recovered.1.success = true ∧ UndoFinished path artifact.entries recovered.2 := by
  intro h
  have hstarts : PrefixState overwriting.entries overwritten.store :=
    ⟨overwriting.entries, [], rfl, by decide, fun _ he => absurd he List.not_mem_nil⟩
  have hdone := h overwriting (ascii "f") overwritten 4 [] ⟨by decide, by decide, by decide⟩
    (by decide) hstarts
    cutOff_rolling
  exact absurd (hdone.1.symm.trans cutOff_conflict) (by decide)

end DataAgentSystem.AgentTxn
