import DataAgentSystem.AgentTxn.CommitManager
import DataAgentSystem.AgentTxn.FallbackStates

/-! Recovery of a crash-safe fallback commit that had not begun to roll back. The
invariant holds at every point of the commit and of every recovery run: the file
holds the entries in a phase that goes forward, and the store is at some prefix of
them. Any such state recovers to the committed one, which recovery leaves alone. -/

namespace DataAgentSystem.AgentTxn

open Text Storage Interaction Containers CommitManager

variable {kind : StoreKind}

/-- The artifact file holds the artifact. -/
def OnDisk (path : Bytes) (artifact : FallbackCommitArtifact) (w : World) : Prop :=
  w.files.lookup path = some artifact.text

/-- The commit of the entries goes forward and has reached some prefix of them. -/
def Forward (path : Bytes) (entries : List FallbackCommitEntry) (w : World) : Prop :=
  PrefixState entries w.store ∧ ∃ artifact, OnDisk path artifact w ∧ artifact.entries = entries ∧
    artifact.appliedCount ≤ entries.length ∧
      (artifact.phase = .prepared ∨ artifact.phase = .applying ∨
        (artifact.phase = .committed ∧ artifact.appliedCount = entries.length ∧
          AllAt FallbackCommitEntry.target entries w.store))

/-- The entries are committed. -/
structure Finished (path : Bytes) (entries : List FallbackCommitEntry) (w : World) : Prop where
  applied : AllAt FallbackCommitEntry.target entries w.store
  file : ∃ artifact, OnDisk path artifact w ∧ artifact.entries = entries ∧
    artifact.appliedCount = entries.length ∧ artifact.phase = .committed

/-- The world after a write of the artifact. -/
def withArtifact (path : Bytes) (artifact : FallbackCommitArtifact) (w : World) : World :=
  { w with files := w.files.insert path artifact.text }

@[simp] theorem withArtifact_store (path : Bytes) (artifact : FallbackCommitArtifact) (w : World) :
    (withArtifact path artifact w).store = w.store := rfl

theorem onDisk_withArtifact (path : Bytes) (artifact : FallbackCommitArtifact) (w : World) :
    OnDisk path artifact (withArtifact path artifact w) := AList.lookup_insert _

/-- The rule of an artifact write. -/
theorem safely_write {α : Type} {artifact : FallbackCommitArtifact} {path : Bytes}
    {f : Bool → Prog α} {w : World} {I : World → Prop} {Q : α → World → Prop} :
    (writeFallbackCommitArtifact artifact path >>= f).Safely (handle kind) I w Q ↔
      I w ∧ (f true).Safely (handle kind) I (withArtifact path artifact w) Q := by
  rw [writeFallbackCommitArtifact, Files.replace_bind, Program.safely_call]
  rfl

theorem Finished.forward {path : Bytes} {entries : List FallbackCommitEntry} {w : World}
    (h : Finished path entries w) : Forward path entries w := by
  obtain ⟨artifact, hdisk, hentries, hcount, hphase⟩ := h.file
  refine ⟨⟨entries, [], (List.append_nil _).symm, h.applied, fun e he =>
    absurd he List.not_mem_nil⟩, artifact, hdisk, hentries, hcount.le,
    .inr (.inr ⟨hphase, hcount, h.applied⟩)⟩

variable {path : Bytes} {entries : List FallbackCommitEntry} {w : World}

theorem forward_withArtifact {artifact : FallbackCommitArtifact} (hs : PrefixState entries w.store)
    (hentries : artifact.entries = entries) (hcount : artifact.appliedCount ≤ entries.length)
    (hphase : artifact.phase = .prepared ∨ artifact.phase = .applying ∨
      (artifact.phase = .committed ∧ artifact.appliedCount = entries.length ∧
        AllAt FallbackCommitEntry.target entries w.store)) :
    Forward path entries (withArtifact path artifact w) :=
  ⟨hs, artifact, onDisk_withArtifact _ _ _, hentries, hcount, hphase⟩

/-- Applying one more entry of a prefix that the file does not yet call complete. -/
theorem PrefixState.apply {applied rest : List FallbackCommitEntry} {e : FallbackCommitEntry}
    {s s' : MemoryKVStore} (hb : Built entries) (hsplit : entries = applied ++ e :: rest)
    (happlied : AllAt FallbackCommitEntry.target applied s)
    (hrest : AllAt FallbackCommitEntry.previous rest s) (hget : s'.get e.key = e.target)
    (hframe : ∀ k, k ≠ e.key → s'.get k = s.get k) :
    AllAt FallbackCommitEntry.target (applied ++ [e]) s' ∧
      AllAt FallbackCommitEntry.previous rest s' := by
  have hkeys := hb.nodup
  rw [hsplit, List.map_append, List.map_cons, List.nodup_append] at hkeys
  obtain ⟨-, hcons, hdisjoint⟩ := hkeys
  have happ : e.key ∉ applied.map (·.key) := fun h => hdisjoint _ h _ List.mem_cons_self rfl
  refine ⟨fun e' he' => ?_, hrest.frame (List.nodup_cons.1 hcons).1 hframe⟩
  rcases List.mem_append.1 he' with hold | hnew
  · exact happlied.frame happ hframe e' hold
  · rw [List.mem_singleton.1 hnew]
    exact hget

/-- One entry more, whatever the file calls it, as long as it goes forward. -/
theorem Forward.put (hb : Built entries) {e : FallbackCommitEntry} {s : MemoryKVStore}
    (hforward : Forward path entries w) (hstarts : PrefixState entries s)
    (he : e ∈ entries) (hw : w.store.get e.key = e.previous) :
    Forward path entries (withStore w s) := by
  obtain ⟨-, artifact, hdisk, hentries, hcount, hphase⟩ := hforward
  refine ⟨hstarts, artifact, hdisk, hentries, hcount, ?_⟩
  rcases hphase with hp | hp | ⟨-, -, hall⟩
  · exact .inl hp
  · exact .inr (.inl hp)
  · exact absurd ((hall e he).symm.trans hw) (hb.target_ne_previous he)

/-- The forward loop applies the entries that are left. -/
theorem safely_applyForward (hb : Built entries) {rest : List FallbackCommitEntry} :
    ∀ {applied : List FallbackCommitEntry} {artifact : FallbackCommitArtifact}
      {result : FallbackRecoveryResult}
      {w : World}, entries = applied ++ rest → AllAt FallbackCommitEntry.target applied w.store →
      AllAt FallbackCommitEntry.previous rest w.store → artifact.entries = entries →
      artifact.appliedCount = applied.length → Forward path entries w →
      (applyForward path rest applied.length artifact result).Safely
        (handle kind) (Forward path entries) w
        fun out w' => out.1 = true ∧ out.2.1.entries = entries ∧
          out.2.1.appliedCount = entries.length ∧
          out.2.2.success = result.success ∧ AllAt FallbackCommitEntry.target entries w'.store := by
  induction rest with
  | nil =>
    intro applied artifact result w hsplit happlied _ hentries hcount hforward
    rw [List.append_nil] at hsplit
    subst hsplit
    exact Program.safely_ret.2 ⟨hforward, rfl, hentries, hcount, rfl, happlied⟩
  | cons e rest ih =>
    intro applied artifact result w hsplit happlied hrest hentries hcount hforward
    rw [AllAt, List.forall_mem_cons] at hrest
    have he : e ∈ entries := hsplit ▸ List.mem_append_right _ List.mem_cons_self
    obtain ⟨s, hput, hget, hframe⟩ := put_target kind hb he hrest.1
    obtain ⟨happlied', hrest'⟩ := PrefixState.apply hb hsplit happlied hrest.2 hget hframe
    have hsplit' : entries = (applied ++ [e]) ++ rest := by rw [hsplit, List.append_assoc]; rfl
    have hstarts : PrefixState entries s := ⟨_, _, hsplit', happlied', hrest'⟩
    have hlen : applied.length + 1 = (applied ++ [e]).length := by rw [List.length_append]; rfl
    have hle : applied.length + 1 ≤ entries.length := by
      simp only [hsplit, List.length_append, List.length_cons]
      omega
    rw [applyForward, Store.putIfVersion_bind, Program.safely_call, hput]
    refine ⟨hforward, ?_⟩
    simp only [Bool.not_true, Bool.false_eq_true, ↓reduceIte]
    rw [safely_write]
    refine ⟨hforward.put hb hstarts he hrest.1, ?_⟩
    simp only [Bool.not_true, Bool.false_eq_true, ↓reduceIte]
    rw [hlen]
    refine ih hsplit' happlied' hrest' hentries rfl ?_
    exact forward_withArtifact hstarts hentries (by simpa using hle) (.inr (.inl rfl))

/-- Resuming forward commits the entries. -/
theorem safely_resumeForward (hb : Built entries) {artifact : FallbackCommitArtifact}
    {result : FallbackRecoveryResult} (hentries : artifact.entries = entries)
    (hforward : Forward path entries w) :
    (resumeForwardFallbackCommit artifact path result).Safely (handle kind) (Forward path entries) w
      fun out w' => out.1 = true ∧ out.2.2.success = result.success ∧ Finished path entries w' := by
  subst hentries
  have hstarts := hforward.1
  obtain ⟨applied, rest, hsplit, happlied, hrest⟩ := hstarts
  have hlen : applied.length ≤ artifact.entries.length := by
    rw [hsplit, List.length_append]
    omega
  rw [resumeForwardFallbackCommit, Program.safely_bind]
  refine (looks_detectCommittedPrefix artifact result w).safely hforward ?_
  rw [run_detectCommittedPrefix_of_prefixState hb hsplit happlied hrest]
  simp only [gt_iff_lt, Nat.not_lt.2 hlen, ↓reduceIte]
  rw [safely_write]
  refine ⟨hforward, ?_⟩
  simp only [Bool.not_true, Bool.false_eq_true, ↓reduceIte]
  have hdrop : artifact.entries.drop applied.length = rest := by
    rw [hsplit, List.drop_left]
  rw [hdrop, Program.safely_bind]
  have hphase : ∀ phase, phase = (if applied.length = artifact.entries.length then
      FallbackCommitPhase.committed else .applying) → phase = .prepared ∨ phase = .applying ∨
        (phase = .committed ∧ applied.length = artifact.entries.length ∧
          AllAt FallbackCommitEntry.target artifact.entries w.store) := by
    rintro _ rfl
    split
    next hfull =>
      have hnil : rest = [] := by
        rw [hsplit, List.length_append] at hfull
        exact List.eq_nil_of_length_eq_zero (by omega)
      rw [hnil, List.append_nil] at hsplit
      exact .inr (.inr ⟨rfl, hfull, hsplit ▸ happlied⟩)
    next => exact .inr (.inl rfl)
  refine Program.Safely.mono (safely_applyForward hb hsplit happlied hrest ?_ ?_ ?_) ?_
  · rfl
  · rfl
  · exact forward_withArtifact ⟨applied, rest, hsplit, happlied, hrest⟩ rfl hlen (hphase _ rfl)
  · rintro ⟨ok, artifact', result'⟩ w' hforward' ⟨hok, hentries', hcount', hsuccess', hall⟩
    simp only at hok hentries' hcount' hsuccess'
    subst hok
    simp only [Bool.not_true, Bool.false_eq_true, ↓reduceIte]
    have hfinished : Finished path artifact.entries
        (withArtifact path { artifact' with phase := .committed } w') :=
      ⟨hall, _, onDisk_withArtifact _ _ _, hentries', hcount', rfl⟩
    rw [safely_write]
    refine ⟨hforward', ?_⟩
    simp only [Bool.not_true, Bool.false_eq_true, ↓reduceIte]
    exact Program.safely_ret.2 ⟨hfinished.forward, rfl, hsuccess', hfinished⟩

/-! ### Recovery runs -/

/-- Reading an artifact from its file. -/
theorem OnDisk.parse {artifact : FallbackCommitArtifact} (h : OnDisk path artifact w)
    (hcount : artifact.appliedCount ≤ artifact.entries.length)
    (hsize : artifact.entries.length < 2 ^ 64) :
    parseFallbackCommitArtifact (w.files.lookup path) {} = (true, artifact) := by
  rw [OnDisk] at h
  rw [h]
  exact parseFallbackCommitArtifact_written artifact {} hcount hsize

/-- Recovery of one artifact is recovery of what its file holds. -/
theorem safely_recover {I : World → Prop} {Q : FallbackRecoveryResult → World → Prop}
    {artifact : FallbackCommitArtifact} (hdisk : OnDisk path artifact w)
    (hcount : artifact.appliedCount ≤ artifact.entries.length)
    (hsize : artifact.entries.length < 2 ^ 64)
    (hlive : artifact.phase ≠ .committed ∧ artifact.phase ≠ .rolledBack) (hI : I w)
    (hrun : (if artifact.phase = .rollingBack then resumeRollbackFallbackCommit artifact path {}
        else resumeForwardFallbackCommit artifact path {}).Safely (handle kind) I w fun out w' =>
      Q (if out.1 then { out.2.2 with recoveredArtifactCount := out.2.2.recoveredArtifactCount + 1 }
        else out.2.2) w') :
    (recoverFallbackCommitArtifacts [path]).Safely (handle kind) I w Q := by
  rw [recoverFallbackCommitArtifacts, recoverArtifactsFrom, recoverFallbackCommitArtifact,
    Program.bind_bind, Files.read_bind, Program.safely_call, handle_readFile,
    hdisk.parse hcount hsize]
  refine ⟨hI, ?_⟩
  simp only [hlive.1, hlive.2, or_self, ↓reduceIte]
  rw [Program.safely_bind]
  by_cases hroll : artifact.phase = .rollingBack
  · rw [if_pos hroll] at hrun ⊢
    rw [Program.safely_bind]
    refine hrun.mono fun out w' hI' hQ => ?_
    obtain ⟨_ | _, artifact', result⟩ := out
    · exact Program.safely_ret.2 ⟨hI', Program.safely_ret.2 ⟨hI', hQ⟩⟩
    · exact Program.safely_ret.2 ⟨hI', Program.safely_ret.2 ⟨hI', hQ⟩⟩
  · rw [if_neg hroll] at hrun ⊢
    rw [Program.safely_bind]
    refine hrun.mono fun out w' hI' hQ => ?_
    obtain ⟨_ | _, artifact', result⟩ := out
    · exact Program.safely_ret.2 ⟨hI', Program.safely_ret.2 ⟨hI', hQ⟩⟩
    · exact Program.safely_ret.2 ⟨hI', Program.safely_ret.2 ⟨hI', hQ⟩⟩

/-- Recovery leaves a terminal artifact and its store alone. -/
theorem recover_terminal {artifact : FallbackCommitArtifact} (hdisk : OnDisk path artifact w)
    (hcount : artifact.appliedCount ≤ artifact.entries.length)
    (hsize : artifact.entries.length < 2 ^ 64)
    (hphase : artifact.phase = .committed ∨ artifact.phase = .rolledBack) :
    (recoverFallbackCommitArtifacts [path]).Looks (handle kind) w ∧
      ((recoverFallbackCommitArtifacts [path]).run (handle kind) w).1.success = true := by
  rw [recoverFallbackCommitArtifacts, recoverArtifactsFrom, recoverFallbackCommitArtifact,
    Program.bind_bind, Files.read_bind]
  constructor
  · refine Program.looks_call rfl ?_
    rw [handle_readFile, hdisk.parse hcount hsize]
    simp only [hphase, ↓reduceIte]
    exact fun e he => absurd he List.not_mem_nil
  · rw [Program.run_call, handle_readFile, hdisk.parse hcount hsize]
    simp only [hphase, ↓reduceIte]
    rfl

theorem safely_recover_forward (hb : Built entries) (hsize : entries.length < 2 ^ 64)
    (hforward : Forward path entries w) :
    (recoverFallbackCommitArtifacts [path]).Safely (handle kind) (Forward path entries) w
      fun result w' => result.success = true ∧ Finished path entries w' := by
  have hall := hforward.2
  obtain ⟨artifact, hdisk, rfl, hcount, hphase⟩ := hall
  rcases hphase with hp | hp | ⟨hp, hfull, happlied⟩
  · refine safely_recover hdisk hcount hsize (by simp [hp]) hforward ?_
    rw [hp, if_neg (by simp)]
    refine (safely_resumeForward hb rfl hforward).mono fun out w' _ hout => ?_
    rw [hout.1, if_pos rfl]
    exact hout.2
  · refine safely_recover hdisk hcount hsize (by simp [hp]) hforward ?_
    rw [hp, if_neg (by simp)]
    refine (safely_resumeForward hb rfl hforward).mono fun out w' _ hout => ?_
    rw [hout.1, if_pos rfl]
    exact hout.2
  · obtain ⟨hlooks, hsuccess⟩ := recover_terminal hdisk hcount hsize (.inl hp)
    exact hlooks.safely hforward ⟨hsuccess, happlied, artifact, hdisk, rfl, hfull, hp⟩

/-! ### The commit -/

/-- The entry a commit prepares for a write whose expected version is the current one. -/
def preparedEntry (s : MemoryKVStore) (write : WriteOp) : FallbackCommitEntry where
  key := write.key
  expectedVersion := s.getVersion write.key
  targetValue := write.value
  previousValue := (s.get write.key).value
  previousVersion := (s.get write.key).version
  previousExists := (s.get write.key).exists_

theorem previous_preparedEntry (s : MemoryKVStore) (write : WriteOp) :
    (preparedEntry s write).previous = s.get write.key := by
  unfold FallbackCommitEntry.previous preparedEntry
  cases hexists : (s.get write.key).exists_ with
  | true =>
    simp only [↓reduceIte]
    rw [← hexists]
  | false => exact (MemoryKVStore.version_of_not_exists hexists).symm

theorem built_preparedEntries (s : MemoryKVStore) {writes : List WriteOp}
    (hnodup : (writes.map WriteOp.key).Nodup) : Built (writes.map (preparedEntry s)) := by
  constructor
  case nodup => simpa [Function.comp_def, preparedEntry] using hnodup
  case versions =>
    intro e he
    obtain ⟨write, _, rfl⟩ := List.mem_map.1 he
    rfl
  case missing =>
    intro e he hmissing
    obtain ⟨write, _, rfl⟩ := List.mem_map.1 he
    simp only [preparedEntry] at hmissing ⊢
    rw [MemoryKVStore.version_of_not_exists hmissing]

theorem prefixState_preparedEntries (s : MemoryKVStore) (writes : List WriteOp) :
    AllAt FallbackCommitEntry.previous (writes.map (preparedEntry s)) s := by
  intro e he
  obtain ⟨write, _, rfl⟩ := List.mem_map.1 he
  exact (previous_preparedEntry s write).symm

theorem only_prepareEntries (expected : UnorderedMap UInt64) (writes : List WriteOp)
    (entries : List FallbackCommitEntry) :
    (prepareEntries expected writes entries).Only fun op => ∃ key, op = .get key := by
  induction writes generalizing entries with
  | nil => exact Program.only_ret _
  | cons write writes ih =>
    rw [prepareEntries]
    split
    next => exact Program.only_ret _
    next =>
      rw [Store.get_bind, Program.only_call]
      refine ⟨⟨_, rfl⟩, fun current => ?_⟩
      split
      next => exact Program.only_ret _
      next => exact ih _

theorem run_prepareEntries_ok {expected : UnorderedMap UInt64} {writes : List WriteOp}
    {entries es : List FallbackCommitEntry} {w : World}
    (h : ((prepareEntries expected writes entries).run (handle kind) w).1 = .ok es) :
    es = entries ++ writes.map (preparedEntry w.store) := by
  induction writes generalizing entries with
  | nil =>
    cases h
    exact (List.append_nil _).symm
  | cons write writes ih =>
    rw [prepareEntries] at h
    split at h
    next => simp at h
    next version _ =>
      rw [Store.get_bind, Program.run_call, handle_get] at h
      by_cases hversion : (w.store.get write.key).version = version
      · rw [if_neg (by simp [hversion])] at h
        subst hversion
        rw [ih h, List.append_assoc]
        rfl
      · rw [if_pos hversion] at h
        simp at h

/-- The calls made include a write of the artifact in the given phase. -/
def WroteArtifact (path : Bytes) (phase : FallbackCommitPhase) (calls : List Call) : Prop :=
  ∃ artifact : FallbackCommitArtifact, artifact.phase = phase ∧
    .replaceFile path artifact.text ∈ calls

/-- Until the artifact is written nothing has happened, and until it rolls back the
commit goes forward. -/
def CommitInv (path : Bytes) (entries : List FallbackCommitEntry) (x : World × List Call) : Prop :=
  WroteArtifact path .rollingBack x.2 ∨ (∀ op ∈ x.2, op.reads = true) ∨ Forward path entries x.1

theorem rolledBack_stable (op : Call) (x : World × List Call)
    (h : WroteArtifact path .rollingBack x.2) :
    WroteArtifact path .rollingBack (Program.logged (handle kind) op x).2.2 := by
  obtain ⟨artifact, hphase, hmem⟩ := h
  exact ⟨artifact, hphase, List.mem_append_left _ hmem⟩

/-- Once the artifact rolls back, the invariant has nothing more to say. -/
theorem safely_of_rolling {α : Type} {p : Prog α} {x : World × List Call}
    (h : WroteArtifact path .rollingBack x.2) :
    p.Safely (Program.logged (handle kind)) (CommitInv path entries) x fun _ x' =>
      WroteArtifact path .rollingBack x'.2 := by
  have hsafe : p.Safely (Program.logged (handle kind))
    (fun x' => WroteArtifact path .rollingBack x'.2) x
      fun _ _ => True := Program.safely_of_stable rolledBack_stable h
  exact (hsafe.mono fun _ _ hrolling _ => hrolling).weaken fun _ => .inl

/-- A commit that gives up has either written that it rolls back or changed nothing. -/
theorem safely_rollbackCrashSafeArtifact (hb : Built entries) {artifact : FallbackCommitArtifact}
    {reason : Bytes} {calls : List Call} (hentries : artifact.entries = entries)
    (hforward : Forward path entries w) :
    (rollbackCrashSafeArtifact artifact path reason).Safely (Program.logged (handle kind))
      (CommitInv path entries) (w, calls) fun _ _ => True := by
  subst hentries
  have hstarts := hforward.1
  obtain ⟨applied, rest, hsplit, happlied, hrest⟩ := hstarts
  have hlen : applied.length ≤ artifact.entries.length := by
    rw [hsplit, List.length_append]
    omega
  have hlooks : ∀ op, Call.reads op = true → (handle kind op w).2 = w :=
    fun op hop => handle_of_reads hop w
  have hdetect := (only_detectCommittedPrefix artifact {}).safely_logged calls hlooks
  rw [rollbackCrashSafeArtifact, Program.safely_bind, resumeRollbackFallbackCommit,
    Program.safely_bind]
  refine (hdetect.weaken fun x hx => .inr (.inr (hx.1 ▸ hforward))).mono ?_
  rintro out ⟨w', calls'⟩ hinv hout
  rw [run_detectCommittedPrefix_of_prefixState hb hsplit happlied hrest] at hout
  subst hout
  simp only [gt_iff_lt, Nat.not_lt.2 hlen, ↓reduceIte]
  rw [writeFallbackCommitArtifact, Files.replace_bind, Program.safely_call]
  refine ⟨hinv, ?_⟩
  have hrolling : WroteArtifact path .rollingBack (calls' ++ [.replaceFile path
      { artifact with appliedCount := applied.length, phase := .rollingBack :
        FallbackCommitArtifact }.text]) :=
    ⟨_, rfl, List.mem_append_right _ List.mem_cons_self⟩
  refine (safely_of_rolling hrolling).mono fun _ _ _ h => ?_
  exact (safely_of_rolling h).mono fun _ _ _ _ => trivial

theorem safely_applyEntries (hb : Built entries) {config : FallbackCommitConfig}
    {rest : List FallbackCommitEntry} :
    ∀ {applied : List FallbackCommitEntry} {artifact : FallbackCommitArtifact}
      {w : World} {calls : List Call},
      entries = applied ++ rest → AllAt FallbackCommitEntry.target applied w.store →
      AllAt FallbackCommitEntry.previous rest w.store → artifact.entries = entries →
      artifact.appliedCount = applied.length → Forward config.artifactPath entries w →
      (applyEntries config rest artifact).Safely (Program.logged (handle kind))
        (CommitInv config.artifactPath entries)
        (w, calls) fun out x => ∀ a, out = .ok a → a.entries = entries ∧
          a.appliedCount = entries.length ∧
          AllAt FallbackCommitEntry.target entries x.1.store ∧
            Forward config.artifactPath entries x.1 := by
  induction rest with
  | nil =>
    intro applied artifact w calls hsplit happlied _ hentries hcount hforward
    rw [List.append_nil] at hsplit
    subst hsplit
    refine Program.safely_ret.2 ⟨.inr (.inr hforward), ?_⟩
    rintro _ ⟨⟩
    exact ⟨hentries, hcount, happlied, hforward⟩
  | cons e rest ih =>
    intro applied artifact w calls hsplit happlied hrest hentries hcount hforward
    rw [AllAt, List.forall_mem_cons] at hrest
    have he : e ∈ entries := hsplit ▸ List.mem_append_right _ List.mem_cons_self
    obtain ⟨s, hput, hget, hframe⟩ := put_target kind hb he hrest.1
    obtain ⟨happlied', hrest'⟩ := PrefixState.apply hb hsplit happlied hrest.2 hget hframe
    have hsplit' : entries = (applied ++ [e]) ++ rest := by rw [hsplit, List.append_assoc]; rfl
    have hstarts : PrefixState entries s := ⟨_, _, hsplit', happlied', hrest'⟩
    have hlen : artifact.appliedCount + 1 = (applied ++ [e]).length := by
      rw [hcount, List.length_append]; rfl
    have hle : artifact.appliedCount + 1 ≤ entries.length := by
      simp only [hsplit, hcount, List.length_append, List.length_cons]
      omega
    rw [applyEntries, Store.get_bind, Program.safely_call, Program.logged_fst,
      Program.logged_snd, handle_get]
    refine ⟨.inr (.inr hforward), ?_⟩
    split
    next =>
      rw [Program.safely_bind]
      refine (safely_rollbackCrashSafeArtifact hb hentries hforward).mono fun reason x hx _ => ?_
      refine Program.safely_ret.2 ⟨hx, ?_⟩
      rintro _ ⟨⟩
    next =>
      rw [Store.putIfVersion_bind, Program.safely_call, Program.logged_fst,
        Program.logged_snd, hput]
      refine ⟨.inr (.inr hforward), ?_⟩
      simp only [Bool.not_true, Bool.false_eq_true, ↓reduceIte]
      rw [writeFallbackCommitArtifact, Files.replace_bind, Program.safely_call, Program.logged_fst,
        Program.logged_snd, handle_replaceFile]
      refine ⟨.inr (.inr (hforward.put hb hstarts he hrest.1)), ?_⟩
      simp only [Bool.not_true, Bool.false_eq_true, ↓reduceIte]
      have hnext : Forward config.artifactPath entries (withArtifact config.artifactPath
          { artifact with appliedCount := artifact.appliedCount + 1, phase := .applying }
              (withStore w s)) :=
        forward_withArtifact hstarts hentries hle (.inr (.inl rfl))
      split
      next =>
        refine Program.safely_ret.2 ⟨.inr (.inr hnext), ?_⟩
        rintro _ ⟨⟩
      next => exact ih hsplit' happlied' hrest' hentries hlen hnext

theorem safely_commitPrepared (hb : Built entries) {config : FallbackCommitConfig}
    {artifact : FallbackCommitArtifact} {calls : List Call} (hentries : artifact.entries = entries)
    (hphase : artifact.phase = .prepared) (hcount : artifact.appliedCount = 0)
    (hprevious : AllAt FallbackCommitEntry.previous entries w.store)
    (hcalls : ∀ op ∈ calls, op.reads = true) :
    (commitPrepared config artifact).Safely (Program.logged (handle kind))
      (CommitInv config.artifactPath entries)
      (w, calls) fun _ _ => True := by
  have hstarts : PrefixState entries w.store :=
    ⟨[], entries, rfl, fun e he => absurd he List.not_mem_nil, hprevious⟩
  have hprepared : Forward config.artifactPath entries
      (withArtifact config.artifactPath artifact w) :=
    forward_withArtifact hstarts hentries (by omega) (.inl hphase)
  rw [commitPrepared, writeFallbackCommitArtifact, Files.replace_bind,
    Program.safely_call, Program.logged_fst, Program.logged_snd, handle_replaceFile]
  refine ⟨.inr (.inl hcalls), ?_⟩
  simp only [Bool.not_true, Bool.false_eq_true, ↓reduceIte]
  rw [Program.safely_bind, hentries]
  have hnone : AllAt FallbackCommitEntry.target []
      (withArtifact config.artifactPath artifact w).store :=
    fun e he => absurd he List.not_mem_nil
  refine (safely_applyEntries hb (List.nil_append _).symm hnone hprevious hentries
    hcount hprepared).mono ?_
  · rintro (reason | applied) ⟨w', calls'⟩ hinv hok
    · exact Program.safely_ret.2 ⟨hinv, trivial⟩
    · obtain ⟨hentries', hcount', hall, hforward⟩ := hok applied rfl
      have hcommitted : Forward config.artifactPath entries
          (withArtifact config.artifactPath { applied with phase := .committed } w') :=
        forward_withArtifact hforward.1 hentries' hcount'.le (.inr (.inr ⟨rfl, hcount', hall⟩))
      simp only
      rw [writeFallbackCommitArtifact, Files.replace_bind, Program.safely_call, Program.logged_fst,
        Program.logged_snd, handle_replaceFile]
      refine ⟨.inr (.inr hforward), ?_⟩
      simp only [Bool.not_true, Bool.false_eq_true, ↓reduceIte]
      exact Program.safely_ret.2 ⟨.inr (.inr hcommitted), trivial⟩

/-- The commit keeps its invariant from the start. -/
theorem safely_commitWinnerWithoutBatchCrashSafe {txn : AgentTxnContext}
    {checks : List VersionCheck} {writes : List WriteOp} (hnodup : (writes.map WriteOp.key).Nodup) :
    (commitWinnerWithoutBatchCrashSafe txn checks writes).Safely (Program.logged (handle kind))
      (CommitInv txn.fallbackCommit.artifactPath (writes.map (preparedEntry w.store)))
        (w, []) fun _ _ => True := by
  have hlooks : ∀ op, Call.reads op = true → (handle kind op w).2 = w :=
    fun op hop => handle_of_reads hop w
  have hprepare :=
    ((only_prepareEntries (expectedVersions checks) writes []).mono fun _ =>
      reads_of_get).safely_logged [] hlooks
  have hended : (prepareEntries (expectedVersions checks) writes []).Safely
    (Program.logged (handle kind))
      (fun x => x.1 = w ∧ ∀ op ∈ x.2, op.reads = true) (w, []) fun out x =>
        (x.1 = w ∧ ∀ op ∈ x.2, op.reads = true) ∧
        out = ((prepareEntries (expectedVersions checks) writes []).run (handle kind) w).1 := by
    refine (hprepare.weaken ?_).mono fun _ _ hx hout => ⟨hx, hout⟩
    rintro x ⟨hx, looks, hlist, hreads⟩
    exact ⟨hx, fun op hop => hreads op (by simpa [hlist] using hop)⟩
  rw [commitWinnerWithoutBatchCrashSafe, Program.safely_bind]
  refine (hended.weaken fun x hx => .inr (.inl hx.2)).mono ?_
  · rintro (reason | entries) ⟨w', calls⟩ hinv ⟨⟨hw', hreads⟩, hout⟩
    · exact Program.safely_ret.2 ⟨hinv, trivial⟩
    · simp only at hw' hreads
      subst hw'
      have hentries := run_prepareEntries_ok hout.symm
      rw [List.nil_append] at hentries
      subst hentries
      exact safely_commitPrepared (built_preparedEntries _ hnodup)
        rfl rfl rfl (prefixState_preparedEntries _ writes)
        hreads

/-- Wherever the commit stops once it has prepared and not begun to roll back, and
however often recovery is stopped in turn, a recovery that is not stopped commits
the entries, and any later one changes nothing. -/
theorem commitWinnerWithoutBatchCrashSafe_recovers (w : World) (txn : AgentTxnContext)
    (checks : List VersionCheck) (writes : List WriteOp) (n : ℕ) (ks : List ℕ)
    (hnodup : (writes.map WriteOp.key).Nodup) (hsize : writes.length < 2 ^ 64)
    (hprepared : WroteArtifact txn.fallbackCommit.artifactPath .prepared
      ((commitWinnerWithoutBatchCrashSafe txn checks writes).crash
        (Program.logged (handle .nonBatchMemory)) n (w, [])).2)
    (hrolling : ¬WroteArtifact txn.fallbackCommit.artifactPath .rollingBack
      ((commitWinnerWithoutBatchCrashSafe txn checks writes).crash
        (Program.logged (handle .nonBatchMemory)) n (w, [])).2) :
    let recovery := recoverFallbackCommitArtifacts [txn.fallbackCommit.artifactPath]
    let crashed := (commitWinnerWithoutBatchCrashSafe txn checks writes).crash
      (Program.logged (handle .nonBatchMemory)) n (w, [])
    let recovered :=
      recovery.run (handle .nonBatchMemory) (recovery.crashes (handle .nonBatchMemory) ks crashed.1)
    recovered.1.success = true ∧
      Finished txn.fallbackCommit.artifactPath (writes.map (preparedEntry w.store)) recovered.2 ∧
      ∀ m, recovery.crash (handle .nonBatchMemory) m recovered.2 = recovered.2 := by
  intro recovery crashed recovered
  have hb : Built (writes.map (preparedEntry w.store)) := built_preparedEntries w.store hnodup
  have hsize' : (writes.map (preparedEntry w.store)).length < 2 ^ 64 := by rwa [List.length_map]
  have hinv : CommitInv txn.fallbackCommit.artifactPath
      (writes.map (preparedEntry w.store)) crashed :=
    (safely_commitWinnerWithoutBatchCrashSafe hnodup).always.crash n
  have hforward : Forward txn.fallbackCommit.artifactPath (writes.map (preparedEntry w.store))
      crashed.1 := by
    rcases hinv with hroll | hreads | hforward
    · exact absurd hroll hrolling
    · obtain ⟨artifact, -, hmem⟩ := hprepared
      exact absurd (hreads _ hmem) (by simp [Call.reads])
    · exact hforward
  have hstopped : Forward txn.fallbackCommit.artifactPath (writes.map (preparedEntry w.store))
      (recovery.crashes (handle .nonBatchMemory) ks crashed.1) :=
    Program.crashes_keep (fun w' hw' => (safely_recover_forward hb hsize' hw').always) ks hforward
  obtain ⟨hsuccess, hfinished⟩ := (safely_recover_forward hb hsize' hstopped).ends
  refine ⟨hsuccess, hfinished, fun m => ?_⟩
  obtain ⟨artifact, hdisk, hentries, hcount, hphase⟩ := hfinished.file
  rw [← hentries] at hcount hsize'
  exact (recover_terminal hdisk hcount.le hsize' (.inl hphase)).1.crash_eq m

/-- Two keys are written and the crash comes before the file knows of the first. -/
theorem commitWinnerWithoutBatchCrashSafe_recovers_lagging :
    let a := ascii "a"
    let b := ascii "b"
    let w : World := { store := (MemoryKVStore.write {} a a).write b b }
    let txn : AgentTxnContext := { fallbackCommit := { artifactPath := ascii "log" } }
    let writes : List WriteOp := [{ key := a, value := b }, { key := b, value := a }]
    let recovery := recoverFallbackCommitArtifacts [txn.fallbackCommit.artifactPath]
    let crashed := (commitWinnerWithoutBatchCrashSafe txn [⟨a, 1⟩, ⟨b, 1⟩] writes).crash
      (Program.logged (handle .nonBatchMemory)) 5 (w, [])
    let recovered := recovery.run (handle .nonBatchMemory)
      (recovery.crashes (handle .nonBatchMemory) [6] crashed.1)
    recovered.1.success = true ∧
      Finished txn.fallbackCommit.artifactPath (writes.map (preparedEntry w.store)) recovered.2 ∧
      ∀ m, recovery.crash (handle .nonBatchMemory) m recovered.2 = recovered.2 := by
  intro a b w txn writes
  have hcalls : ((commitWinnerWithoutBatchCrashSafe txn [⟨a, 1⟩, ⟨b, 1⟩] writes).crash
      (Program.logged (handle .nonBatchMemory)) 5 (w, [])).2 =
        [.get a, .get b, .replaceFile txn.fallbackCommit.artifactPath
          { phase := .prepared,
            entries := writes.map (preparedEntry w.store) : FallbackCommitArtifact }.text,
          .get a, .putIfVersion a 1 b] := by rfl
  have hprepared : WroteArtifact txn.fallbackCommit.artifactPath .prepared
      ((commitWinnerWithoutBatchCrashSafe txn [⟨a, 1⟩, ⟨b, 1⟩] writes).crash
        (Program.logged (handle .nonBatchMemory)) 5 (w, [])).2 := by
    rw [hcalls]
    refine ⟨{ phase := .prepared, entries := writes.map (preparedEntry w.store) }, rfl, ?_⟩
    simp only [List.mem_cons, true_or, or_true]
  have hrolling : ¬WroteArtifact txn.fallbackCommit.artifactPath .rollingBack
      ((commitWinnerWithoutBatchCrashSafe txn [⟨a, 1⟩, ⟨b, 1⟩] writes).crash
        (Program.logged (handle .nonBatchMemory)) 5 (w, [])).2 := by
    rw [hcalls]
    rintro ⟨artifact, hphase, hmem⟩
    simp only [List.mem_cons, Call.replaceFile.injEq, reduceCtorEq, List.not_mem_nil,
      or_false, false_or] at hmem
    exact absurd (hphase.symm.trans (FallbackCommitArtifact.phase_eq_of_text_eq hmem.2)) (by decide)
  have hnodup : (writes.map WriteOp.key).Nodup := by decide
  exact commitWinnerWithoutBatchCrashSafe_recovers w txn [⟨a, 1⟩, ⟨b, 1⟩] writes 5 [6]
    hnodup (by decide) hprepared
    hrolling

end DataAgentSystem.AgentTxn
