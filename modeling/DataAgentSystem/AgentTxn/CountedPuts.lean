import DataAgentSystem.AgentTxn.UnreliableCommit
import DataAgentSystem.Branch.Replay
import DataAgentSystem.Containers.AuthoredLog
import DataAgentSystem.Storage.Versions
import Mathlib.Data.Int.ModEq

/-! A counter that only crash-safe commits and their recoveries write. The puts on its
key are recorded with the party for which they are made. While versions do not wrap, the
version tells how many puts there have been, so an artifact is as it was prepared, at its
target or undone exactly if the record says so of its own party. -/

namespace DataAgentSystem.AgentTxn

open Text Branch Storage Interaction Containers AuthoredLog

variable {ι : Type} {i : ι} {k : Bytes} {start : VersionedValue}

/-! ### The record of all puts -/

/-- A world, and the conditional puts that have been made in it. -/
structure Ledger (ι : Type) where
  world : World
  puts : List (ι × WriteOp)

/-- The put that a call makes. -/
def putBy (i : ι) (w : World) : Call → List (ι × WriteOp)
  | .putIfVersion key expectedVersion value =>
    if w.store.getVersion key = expectedVersion then [(i, { key, value })] else []
  | _ => []

/-- The call cannot change the key, on a store without batches. -/
def Avoids (k : Bytes) : Call → Prop
  | .put key _ | .putIfVersion key _ _ | .deleteIfVersion key _ => key ≠ k
  | _ => True

instance (k : Bytes) : DecidablePred (Avoids k)
  | .put key _ | .putIfVersion key _ _ | .deleteIfVersion key _ =>
    inferInstanceAs (Decidable (key ≠ k))
  | .supportsAtomicBatchConditionalWrite | .get _ | .getVersion _ | .batchPutIfVersion _ _
  | .replaceFile _ _ | .readFile _ | .fileExists _ | .removeFile _ | .renameFile _ _
  | .createDirectories _ => .isTrue trivial

theorem get_handle_of_avoids {op : Call} (hop : Avoids k op) (w : World) :
    (handle .nonBatchMemory op w).2.store.get k = w.store.get k := by
  cases op with
  | put key value => exact MemoryKVStore.get_write_of_ne _ _ (Ne.symm hop)
  | putIfVersion key expectedVersion value =>
    by_cases hv : w.store.getVersion key = expectedVersion
    · simp only [handle, World.withStore, MemoryKVStore.putIfVersion_of_eq value hv]
      exact MemoryKVStore.get_write_of_ne _ _ (Ne.symm hop)
    · exact (MemoryKVStore.get_putIfVersion_refused value hv k).trans (if_neg (Ne.symm hop))
  | deleteIfVersion key expectedVersion =>
    by_cases hv : w.store.getVersion key = expectedVersion
    · exact ((MemoryKVStore.deleteIfVersion_of_eq hv).2 k).trans (if_neg (Ne.symm hop))
    · simp only [handle, World.withStore, MemoryKVStore.deleteIfVersion_of_ne hv]
  | renameFile source target =>
    simp only [handle]
    cases w.files.lookup source <;> rfl
  | _ => rfl

namespace Ledger

/-- The answer to a call that is made for a party. -/
def answer (i : ι) (op : Call) (x : Ledger ι) : op.Resp × Ledger ι :=
  ((handle .nonBatchMemory op x.world).1,
    ⟨(handle .nonBatchMemory op x.world).2, x.puts ++ putBy i x.world op⟩)

/-- What was put on the key, and for whom. -/
def on (k : Bytes) (x : Ledger ι) : List (ι × Bytes) :=
  x.puts.filterMap fun put => if put.2.key = k then some (put.1, put.2.value) else none

theorem on_append (k : Bytes) (w : World) (puts later : List (ι × WriteOp)) :
    on k ⟨w, puts ++ later⟩ = on k ⟨w, puts⟩ ++ on k ⟨w, later⟩ :=
  List.filterMap_append

variable {x : Ledger ι}

/-- A call puts for its party only. -/
theorem exists_on_answer (i : ι) (op : Call) (x : Ledger ι) (k : Bytes) :
    ∃ new, (x.answer i op).2.on k = x.on k ++ new ∧ ∀ put ∈ new, put.1 = i := by
  refine ⟨_, on_append .., fun put hput => ?_⟩
  obtain ⟨made, hmade, hkey⟩ := List.mem_filterMap.1 hput
  have hactor : made.1 = i := by
    cases op with
    | putIfVersion key expectedVersion value =>
      simp only [putBy] at hmade
      split at hmade
      · rw [List.mem_singleton.1 hmade]
      · exact absurd hmade List.not_mem_nil
    | _ => exact absurd hmade List.not_mem_nil
  split at hkey
  · rw [← Option.some.inj hkey, ← hactor]
  · cases hkey

theorem answer_of_avoids {op : Call} (hop : Avoids k op) :
    (x.answer i op).2.world.store.get k = x.world.store.get k ∧
      (x.answer i op).2.on k = x.on k := by
  refine ⟨get_handle_of_avoids hop x.world, ?_⟩
  have hnone : on k (⟨(handle .nonBatchMemory op x.world).2, putBy i x.world op⟩ : Ledger ι) =
      [] := by
    cases op with
    | putIfVersion key expectedVersion value =>
      have hkey : key ≠ k := hop
      simp only [putBy]
      split <;> simp [on, hkey]
    | _ => rfl
  rw [answer, on_append, hnone, List.append_nil]
  rfl

/-- A conditional put on the key is made if the version is the expected one, and recorded. -/
theorem answer_putIfVersion (i : ι) (x : Ledger ι) (k : Bytes) (v : UInt64) (value : Bytes) :
    ((x.world.store.get k).version = v ∧ (x.answer i (.putIfVersion k v value)).1 = true ∧
        (x.answer i (.putIfVersion k v value)).2.world.store.get k =
          { value, version := (x.world.store.get k).version + 1, exists_ := true } ∧
        (x.answer i (.putIfVersion k v value)).2.on k = x.on k ++ [(i, value)]) ∨
      ((x.world.store.get k).version ≠ v ∧ (x.answer i (.putIfVersion k v value)).1 = false ∧
        ((x.world.store.get k).exists_ = true →
          (x.answer i (.putIfVersion k v value)).2.world.store.get k = x.world.store.get k) ∧
        (x.answer i (.putIfVersion k v value)).2.on k = x.on k) := by
  by_cases hv : x.world.store.getVersion k = v
  · left
    refine ⟨hv, ?_⟩
    simp only [answer, handle, World.withStore, MemoryKVStore.putIfVersion_of_eq value hv, putBy,
      if_pos hv, on_append]
    exact ⟨trivial, MemoryKVStore.get_write_self _ _ _, by simp [on]⟩
  · right
    refine ⟨hv, MemoryKVStore.putIfVersion_of_ne value hv, fun hexists => ?_, ?_⟩
    · refine (MemoryKVStore.get_putIfVersion_refused value hv k).trans ?_
      rw [if_pos rfl]
      rw [← hexists]
    · simp only [answer, putBy, if_neg hv, List.append_nil]
      rfl

end Ledger

/-- The key holds what was put on it last, and its version counts the puts. -/
structure Tells (k : Bytes) (start : VersionedValue) (x : Ledger ι) : Prop where
  holds : x.world.store.get k = {
    value := standing start.value (x.on k)
    version := start.version + UInt64.ofNat (x.on k).length
    exists_ := true }
  few : (x.on k).length < 2 ^ 64
  integers : ∀ put ∈ x.on k, IsInteger put.2

/-- Versions that are told by counts below the word size are equal if the counts are. -/
theorem version_eq_iff {v : UInt64} {m n : ℕ} (hm : m < 2 ^ 64) (hn : n < 2 ^ 64) :
    v + UInt64.ofNat m = v + UInt64.ofNat n ↔ m = n := by
  constructor
  · intro h
    have hcounts : UInt64.ofNat m = UInt64.ofNat n := by grind
    have hnat := congrArg UInt64.toNat hcounts
    rwa [UInt64.toNat_ofNat_of_lt' hm, UInt64.toNat_ofNat_of_lt' hn] at hnat
  · rintro rfl
    rfl

theorem version_succ (v : UInt64) (n : ℕ) :
    v + UInt64.ofNat n + 1 = v + UInt64.ofNat (n + 1) := by
  rw [UInt64.ofNat_add, UInt64.add_assoc]
  rfl

namespace Tells

variable {x : Ledger ι} {value : Bytes}

theorem answer_of_avoids {op : Call} (h : Tells k start x) (hop : Avoids k op) :
    Tells k start (x.answer i op).2 := by
  obtain ⟨hget, hon⟩ := Ledger.answer_of_avoids (i := i) (x := x) hop
  refine ⟨?_, ?_, ?_⟩
  · rw [hget, hon, h.holds]
  · rw [hon]
    exact h.few
  · rw [hon]
    exact h.integers

theorem answer_putIfVersion {v : UInt64} (h : Tells k start x) (hvalue : IsInteger value)
    (hfew : ((x.answer i (.putIfVersion k v value)).2.on k).length < 2 ^ 64) :
    Tells k start (x.answer i (.putIfVersion k v value)).2 := by
  rcases x.answer_putIfVersion i k v value with ⟨-, -, hget, hon⟩ | ⟨-, -, hget, hon⟩
  · refine ⟨?_, hfew, ?_⟩
    · rw [hget, hon, standing_snoc, List.length_append, h.holds, version_succ]
      rfl
    · rw [hon, List.forall_mem_append]
      exact ⟨h.integers, List.forall_mem_singleton.2 hvalue⟩
  · refine ⟨?_, hfew, ?_⟩
    · rw [hget (by rw [h.holds]), hon, h.holds]
    · rw [hon]
      exact h.integers

/-- The counter is a number if it was one at first. -/
theorem isInteger (h : Tells k start x) (hstart : IsInteger start.value) :
    IsInteger (x.world.store.get k).value := by
  rw [h.holds]
  exact standing_of_forall hstart h.integers

end Tells

/-! ### A party among others -/

/-- A commit and its recoveries, which share an artifact, and what the commit is to add to
the counter that stood at first. -/
structure Party (ι : Type) where
  actor : ι
  path : Bytes
  key : Bytes
  start : VersionedValue
  added : ℤ
  integer : IsInteger start.value

inductive Progress where
  | fresh | applied | undone
  deriving DecidableEq

/-- The puts that have been made for a party. -/
def Progress.marks (actor : ι) (previous target : Bytes) : Progress → List (ι × Bytes)
  | .fresh => []
  | .applied => [(actor, target)]
  | .undone => [(actor, target), (actor, previous)]

namespace Party

variable (p : Party ι)

/-- Others may put on the key, but do not touch the artifact of the party. -/
structure Others (x y : Ledger ι) : Prop where
  file : SameFile p.path x.world y.world
  puts : ∃ new, y.on p.key = x.on p.key ++ new ∧ ∀ put ∈ new, put.1 ≠ p.actor
  tells : Tells p.key p.start y

/-- If the key is where the artifact of the party is to leave it, it was put there for the party. -/
def OwnTarget (x : Ledger ι) : Prop :=
  ∀ a e, OnDisk p.path a x.world → e ∈ a.entries → e.key = p.key →
    e.matchesTarget (x.world.store.get p.key) = true →
    (x.on p.key).getLast?.map Prod.fst = some p.actor

/-- The calls of a party among others, as long as it finds no target but its own. -/
def among : Environment Call Call.Resp (Ledger ι) := fun op x r z =>
  ∃ y, p.Others x y ∧ (op = .get p.key → p.OwnTarget y) ∧ (r, z) = y.answer p.actor op ∧
    (z.on p.key).length < 2 ^ 64

/-- An entry on the key that was prepared when these puts had been made. -/
structure PreparedAt (front : List (ι × Bytes)) (target : Bytes) (e : FallbackCommitEntry) :
    Prop where
  expectedVersion : e.expectedVersion = p.start.version + UInt64.ofNat front.length
  previousVersion : e.previousVersion = e.expectedVersion
  previousExists : e.previousExists = true
  previousValue : e.previousValue = standing p.start.value front
  targetValue : e.targetValue = target

/-- The puts on the key, those of the party at the place for which they were prepared. -/
structure Made (entries : List FallbackCommitEntry) (progress : Progress)
    (front rest : List (ι × Bytes)) (target : Bytes) (puts : List (ι × Bytes)) : Prop where
  puts : puts = front ++ progress.marks p.actor (standing p.start.value front) target ++ rest
  others : ∀ put ∈ front ++ rest, put.1 ≠ p.actor
  prepared : ∀ e ∈ entries, e.key = p.key → p.PreparedAt front target e
  absent : p.key ∉ entries.map (·.key) → progress = .fresh ∧ p.added = 0
  integer : IsInteger target
  sum : intValue target ≡ intValue (standing p.start.value front) + p.added [ZMOD 2 ^ 64]

/-- The artifact of the party is on disk, and the record says how far the party has got. -/
structure At (entries : List FallbackCommitEntry) (phase : FallbackCommitPhase)
    (progress : Progress) (x : Ledger ι) : Prop where
  tells : Tells p.key p.start x
  disk : ∃ a, OnDisk p.path a x.world ∧ a.entries = entries ∧ a.phase = phase
  made : ∃ front rest target, p.Made entries progress front rest target (x.on p.key)

/-- The party has done nothing yet. -/
structure Unprepared (x : Ledger ι) : Prop where
  tells : Tells p.key p.start x
  file : x.world.files.lookup p.path = none
  others : ∀ put ∈ x.on p.key, put.1 ≠ p.actor

/-- What a final phase says of the puts of the party. -/
structure Ends (entries : List FallbackCommitEntry) (phase : FallbackCommitPhase)
    (progress : Progress) : Prop where
  committed : phase = .committed → p.key ∈ entries.map (·.key) → progress = .applied
  rolledBack : phase = .rolledBack → progress ≠ .applied

/-- The artifact of the party is on disk in this phase, and the record agrees with it. -/
def InPhase (phase : FallbackCommitPhase) (x : Ledger ι) : Prop :=
  ∃ entries progress, (entries.map (·.key)).Nodup ∧ p.At entries phase progress x ∧
    p.Ends entries phase progress

/-- What holds at every point of a commit and of its recoveries. -/
def Inv (x : Ledger ι) : Prop := p.Unprepared x ∨ ∃ phase, p.InPhase phase x

variable {p} {x y z : Ledger ι} {entries : List FallbackCommitEntry}
  {phase : FallbackCommitPhase} {progress : Progress} {front rest new : List (ι × Bytes)}
  {target : Bytes} {e : FallbackCommitEntry}

theorem Others.refl (h : Tells p.key p.start x) : p.Others x x :=
  ⟨rfl, ⟨[], (List.append_nil _).symm, fun _ hput => absurd hput List.not_mem_nil⟩, h⟩

/-! ### The others -/

theorem Others.trans (h : p.Others x y) (h' : p.Others y z) : p.Others x z := by
  obtain ⟨new, hnew, hothers⟩ := h.puts
  obtain ⟨later, hlater, hothers'⟩ := h'.puts
  refine ⟨Eq.trans h'.file h.file, ⟨new ++ later, ?_, ?_⟩, h'.tells⟩
  · rw [hlater, hnew, List.append_assoc]
  · rw [List.forall_mem_append]
    exact ⟨hothers, hothers'⟩

theorem Unprepared.others_act (h : p.Unprepared x) (ho : p.Others x y) : p.Unprepared y := by
  obtain ⟨new, hnew, hothers⟩ := ho.puts
  refine ⟨ho.tells, Eq.trans ho.file h.file, ?_⟩
  rw [hnew, List.forall_mem_append]
  exact ⟨h.others, hothers⟩

theorem Made.append {puts : List (ι × Bytes)} (h : p.Made entries progress front rest target puts)
    (hnew : ∀ put ∈ new, put.1 ≠ p.actor) :
    p.Made entries progress front (rest ++ new) target (puts ++ new) := by
  refine ⟨by rw [h.puts, List.append_assoc], ?_, h.prepared, h.absent, h.integer, h.sum⟩
  rw [← List.append_assoc, List.forall_mem_append]
  exact ⟨h.others, hnew⟩

theorem At.others_act (h : p.At entries phase progress x) (ho : p.Others x y) :
    p.At entries phase progress y := by
  obtain ⟨new, hnew, hothers⟩ := ho.puts
  obtain ⟨a, hdisk, ha⟩ := h.disk
  obtain ⟨front, rest, target, hmade⟩ := h.made
  refine ⟨ho.tells, ⟨a, Eq.trans ho.file hdisk, ha⟩, front, rest ++ new, target, ?_⟩
  rw [hnew]
  exact hmade.append hothers

theorem InPhase.others_act (h : p.InPhase phase x) (ho : p.Others x y) : p.InPhase phase y := by
  obtain ⟨entries, progress, hnodup, hat, hends⟩ := h
  exact ⟨entries, progress, hnodup, hat.others_act ho, hends⟩

theorem Inv.others_act (h : p.Inv x) (ho : p.Others x y) : p.Inv y :=
  h.imp (·.others_act ho) fun ⟨phase, hphase⟩ => ⟨phase, hphase.others_act ho⟩

theorem Inv.tells (h : p.Inv x) : Tells p.key p.start x := by
  rcases h with hun | ⟨phase, entries, progress, -, hat, -⟩
  · exact hun.tells
  · exact hat.tells

/-- Whatever a program of the party keeps, it keeps when others have acted first. -/
theorem withstands_others_act {α : Type} {prog : Prog α} {R : α → Ledger ι → Prop}
    (hR : ∀ a {x y}, R a x → p.Others x y → R a y) (h : prog.Withstands p.among p.Inv x R)
    (ho : p.Others x y) : prog.Withstands p.among p.Inv y R := by
  cases prog with
  | ret a => exact ⟨h.1.others_act ho, hR a h.2 ho⟩
  | call op next =>
    refine ⟨h.1.others_act ho, fun r z henv => h.2 r z ?_⟩
    obtain ⟨y', ho', hrest⟩ := henv
    exact ⟨y', ho.trans ho', hrest⟩

/-! ### The calls of the party -/

section Calls

variable {op : Call} {r : op.Resp}

/-- What a call that looks finds, is there when it has looked. -/
theorem among_reads (hop : op.reads = true) (henv : p.among op x r z) :
    p.Others x z ∧ (op = .get p.key → p.OwnTarget z) ∧
      r = (handle .nonBatchMemory op z.world).1 := by
  obtain ⟨y, ho, hown, hanswer, -⟩ := henv
  have hnone : putBy p.actor y.world op = [] := by cases op <;> first | rfl | cases hop
  have hsame : (y.answer p.actor op).2 = y := by
    rw [Ledger.answer, hnone, handle_of_reads hop, List.append_nil]
  obtain rfl : z = y := (congrArg Prod.snd hanswer).trans hsame
  exact ⟨ho, hown, congrArg Prod.fst hanswer⟩

theorem At.avoid (h : p.At entries phase progress x) (hop : Avoids p.key op)
    (htouched : p.path ∉ op.touched) (henv : p.among op x r z) :
    p.At entries phase progress z := by
  obtain ⟨y, ho, -, hanswer, -⟩ := henv
  have hy := h.others_act ho
  obtain rfl : z = (y.answer p.actor op).2 := congrArg Prod.snd hanswer
  obtain ⟨a, hdisk, ha⟩ := hy.disk
  refine ⟨hy.tells.answer_of_avoids hop,
    ⟨a, Eq.trans (sameFile_handle htouched y.world).1 hdisk, ha⟩, ?_⟩
  rw [(Ledger.answer_of_avoids hop).2]
  exact hy.made

end Calls

/-- Writing the artifact changes nothing else. -/
theorem At.replace {b : FallbackCommitArtifact} {r : Bool} (h : p.At entries phase progress x)
    (henv : p.among (.replaceFile p.path b.text) x r z) (hentries : b.entries = entries) :
    r = true ∧ p.At entries b.phase progress z := by
  obtain ⟨y, ho, -, hanswer, -⟩ := henv
  have hy := h.others_act ho
  have havoids : Avoids p.key (.replaceFile p.path b.text) := trivial
  obtain rfl : z = (y.answer p.actor (.replaceFile p.path b.text)).2 := congrArg Prod.snd hanswer
  refine ⟨congrArg Prod.fst hanswer, hy.tells.answer_of_avoids havoids,
    ⟨b, AList.lookup_insert _, hentries, rfl⟩, ?_⟩
  rw [(Ledger.answer_of_avoids havoids).2]
  exact hy.made

theorem Made.length_eq {puts : List (ι × Bytes)}
    (h : p.Made entries progress front rest target puts) :
    puts.length = front.length +
      (progress.marks p.actor (standing p.start.value front) target).length + rest.length := by
  rw [h.puts, List.length_append, List.length_append]

/-- The key holds what the entry was prepared to leave: its own party has applied it. -/
theorem At.applied_of_matchesTarget (h : p.At entries phase progress x) (hown : p.OwnTarget x)
    (he : e ∈ entries) (hkey : e.key = p.key)
    (hmatches : e.matchesTarget (x.world.store.get e.key) = true) : progress = .applied := by
  obtain ⟨a, hdisk, rfl, -⟩ := h.disk
  obtain ⟨front, rest, target, hmade⟩ := h.made
  have hentry := hmade.prepared e he hkey
  have hlength := hmade.length_eq
  rw [hkey] at hmatches
  have hlast := hown a e hdisk he hkey hmatches
  have hcount : (x.on p.key).length = front.length + 1 := by
    have hversion := congrArg VersionedValue.version
      (FallbackCommitEntry.matchesTarget_iff.1 hmatches)
    rw [h.tells.holds] at hversion
    simp only [FallbackCommitEntry.target, hentry.expectedVersion, version_succ] at hversion
    have hfew := h.tells.few
    by_cases hwrap : front.length + 1 < 2 ^ 64
    · exact (version_eq_iff hfew hwrap).1 hversion
    · exfalso
      have hfull : front.length + 1 = 2 ^ 64 := by omega
      rw [hfull] at hversion
      have hzero := (version_eq_iff hfew (n := 0) (by omega)).1 (hversion.trans (by rfl))
      omega
  cases progress with
  | applied => rfl
  | undone =>
    simp only [Progress.marks, List.length_cons, List.length_nil] at hlength
    omega
  | fresh =>
    -- then another party has made the last put
    simp only [Progress.marks, List.length_nil] at hlength
    have hputs := hmade.puts
    simp only [Progress.marks, List.append_nil] at hputs
    obtain ⟨put, hrest⟩ := List.length_eq_one_iff.1 (show rest.length = 1 by omega)
    rw [hputs, hrest, List.getLast?_append, List.getLast?_singleton] at hlast
    exact absurd (Option.some.inj hlast) (hmade.others put (by simp [hrest]))

/-- The key holds what the entry was prepared over: nothing has been done about it. -/
theorem At.fresh_of_matchesPrevious (h : p.At entries phase progress x)
    (he : e ∈ entries) (hkey : e.key = p.key)
    (hmatches : e.matchesPrevious (x.world.store.get e.key) = true) : progress = .fresh := by
  obtain ⟨front, rest, target, hmade⟩ := h.made
  have hentry := hmade.prepared e he hkey
  have hlength := hmade.length_eq
  have hcount : (x.on p.key).length = front.length := by
    have hversion := congrArg VersionedValue.version
      (FallbackCommitEntry.matchesPrevious_iff.1 hmatches)
    rw [hkey, h.tells.holds, FallbackCommitEntry.previous, if_pos hentry.previousExists,
      hentry.previousVersion, hentry.expectedVersion] at hversion
    have hfew := h.tells.few
    exact (version_eq_iff hfew (by omega)).1 hversion
  cases progress with
  | fresh => rfl
  | applied =>
    simp only [Progress.marks, List.length_cons, List.length_nil] at hlength
    omega
  | undone =>
    simp only [Progress.marks, List.length_cons, List.length_nil] at hlength
    omega

/-- A conditional put on the counter, which is made at one count of the puts only. -/
theorem At.conditionalPut {v : UInt64} {value : Bytes} {r : Bool}
    (h : p.At entries phase progress x) (hvalue : IsInteger value)
    (henv : p.among (.putIfVersion p.key v value) x r z) :
    ∃ y, p.At entries phase progress y ∧ Tells p.key p.start z ∧
      (∃ a, OnDisk p.path a z.world ∧ a.entries = entries ∧ a.phase = phase) ∧
      ((p.start.version + UInt64.ofNat (y.on p.key).length = v ∧ r = true ∧
          z.on p.key = y.on p.key ++ [(p.actor, value)]) ∨
        (r = false ∧ z.on p.key = y.on p.key)) := by
  obtain ⟨y, ho, -, hanswer, hfew⟩ := henv
  have hy := h.others_act ho
  obtain rfl : z = _ := congrArg Prod.snd hanswer
  obtain rfl : r = _ := congrArg Prod.fst hanswer
  obtain ⟨a, hdisk, ha⟩ := hy.disk
  refine ⟨y, hy, hy.tells.answer_putIfVersion hvalue hfew,
    ⟨a, Eq.trans (sameFile_handle List.not_mem_nil y.world).1 hdisk, ha⟩, ?_⟩
  rcases y.answer_putIfVersion p.actor p.key v value with
    ⟨hversion, hr, -, hon⟩ | ⟨-, hr, -, hon⟩
  · rw [hy.tells.holds] at hversion
    exact .inl ⟨hversion, hr, hon⟩
  · exact .inr ⟨hr, hon⟩

/-- Applying the entry succeeds exactly if nothing has been put since it was prepared. -/
theorem At.put {r : Bool} (h : p.At entries phase progress x) (he : e ∈ entries)
    (hkey : e.key = p.key)
    (henv : p.among (.putIfVersion e.key e.expectedVersion e.targetValue) x r z) :
    r = true ∧ progress = .fresh ∧ p.At entries phase .applied z ∨
      r = false ∧ p.At entries phase progress z := by
  have hmem : p.key ∈ entries.map (·.key) := hkey ▸ List.mem_map_of_mem he
  have hvalue : IsInteger e.targetValue := by
    obtain ⟨front, rest, target, hmade⟩ := h.made
    rw [(hmade.prepared e he hkey).targetValue]
    exact hmade.integer
  rw [hkey] at henv
  obtain ⟨y, hy, htells, hdisk, hput⟩ := h.conditionalPut hvalue henv
  obtain ⟨front, rest, target, hmade⟩ := hy.made
  have hentry := hmade.prepared e he hkey
  rcases hput with ⟨hversion, rfl, hon⟩ | ⟨rfl, hon⟩
  · left
    have hlength := hmade.length_eq
    have hbound := hy.tells.few
    rw [hentry.expectedVersion, version_eq_iff hbound (by omega)] at hversion
    obtain rfl : rest = [] := List.length_eq_zero_iff.1 (by omega)
    have hprogress : progress = .fresh := by
      cases progress with
      | fresh => rfl
      | _ =>
        simp only [Progress.marks, List.length_cons] at hlength
        omega
    subst hprogress
    refine ⟨rfl, rfl, htells, hdisk, front, [], target, ?_, hmade.others, hmade.prepared,
      fun habsent => absurd hmem habsent, hmade.integer, hmade.sum⟩
    rw [hon, hmade.puts, hentry.targetValue]
    simp [Progress.marks]
  · right
    refine ⟨rfl, htells, hdisk, front, rest, target, ?_⟩
    rw [hon]
    exact hmade

/-- Undoing the entry, once it is applied, succeeds exactly if nothing has been put since. -/
theorem At.undo {r : Bool} (h : p.At entries phase .applied x) (he : e ∈ entries)
    (hkey : e.key = p.key)
    (henv : p.among (.putIfVersion e.key (e.previousVersion + 1) e.previousValue) x r z) :
    r = true ∧ p.At entries phase .undone z ∨ r = false ∧ p.At entries phase .applied z := by
  have hmem : p.key ∈ entries.map (·.key) := hkey ▸ List.mem_map_of_mem he
  have hvalue : IsInteger e.previousValue := by
    obtain ⟨front, rest, target, hmade⟩ := h.made
    rw [(hmade.prepared e he hkey).previousValue]
    refine standing_of_forall p.integer fun put hput => h.tells.integers put ?_
    rw [hmade.puts]
    exact List.mem_append_left _ (List.mem_append_left _ hput)
  rw [hkey] at henv
  obtain ⟨y, hy, htells, hdisk, hput⟩ := h.conditionalPut hvalue henv
  obtain ⟨front, rest, target, hmade⟩ := hy.made
  have hentry := hmade.prepared e he hkey
  rcases hput with ⟨hversion, rfl, hon⟩ | ⟨rfl, hon⟩
  · left
    have hlength := hmade.length_eq
    simp only [Progress.marks, List.length_cons, List.length_nil] at hlength
    have hbound := hy.tells.few
    rw [hentry.previousVersion, hentry.expectedVersion, version_succ,
      version_eq_iff hbound (by omega)] at hversion
    obtain rfl : rest = [] := List.length_eq_zero_iff.1 (by omega)
    refine ⟨rfl, htells, hdisk, front, [], target, ?_, hmade.others, hmade.prepared,
      fun habsent => absurd hmem habsent, hmade.integer, hmade.sum⟩
    rw [hon, hmade.puts, hentry.previousValue]
    simp [Progress.marks]
  · right
    refine ⟨rfl, htells, hdisk, front, rest, target, ?_⟩
    rw [hon]
    exact hmade

/-! ### What the party has added -/

section Contributed

variable [DecidableEq ι]

/-- What the puts of the party have added to the counter. -/
def contributed (p : Party ι) (x : Ledger ι) : ℤ :=
  contribution intValue p.actor p.start.value (x.on p.key)

theorem Unprepared.contributed_eq (h : p.Unprepared x) : p.contributed x = 0 :=
  contribution_of_forall_ne intValue h.others

theorem Made.contribution_eq {puts : List (ι × Bytes)}
    (h : p.Made entries progress front rest target puts) :
    contribution intValue p.actor p.start.value puts =
      if progress = .applied then intValue target - intValue (standing p.start.value front)
      else 0 := by
  rw [h.puts, contribution_between intValue h.others]
  cases progress <;> simp [Progress.marks, contribution]

/-- A party that is committed has added what it was to add. -/
theorem InPhase.contributed_of_committed (h : p.InPhase .committed x) :
    p.contributed x ≡ p.added [ZMOD 2 ^ 64] := by
  obtain ⟨entries, progress, -, hat, hends⟩ := h
  obtain ⟨front, rest, target, hmade⟩ := hat.made
  rw [contributed, hmade.contribution_eq]
  by_cases hkey : p.key ∈ entries.map (·.key)
  · rw [if_pos (hends.committed rfl hkey)]
    simpa using hmade.sum.sub_right (intValue (standing p.start.value front))
  · obtain ⟨rfl, hadded⟩ := hmade.absent hkey
    rw [hadded, if_neg (by decide)]

/-- A party that is rolled back has added nothing. -/
theorem InPhase.contributed_of_rolledBack (h : p.InPhase .rolledBack x) :
    p.contributed x = 0 := by
  obtain ⟨entries, progress, -, hat, hends⟩ := h
  obtain ⟨front, rest, target, hmade⟩ := hat.made
  rw [contributed, hmade.contribution_eq, if_neg (hends.rolledBack rfl)]

end Contributed

end Party

end DataAgentSystem.AgentTxn
