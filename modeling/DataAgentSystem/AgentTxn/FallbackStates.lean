import DataAgentSystem.AgentTxn.FallbackCommitRecovery
import DataAgentSystem.Interaction.CrashLogic
import Mathlib.Data.List.TakeWhile

/-! What the store tells about an artifact. For each entry there are three states:
the previous one, the target, and what undoing leaves, which for a key that existed
is the previous value at a version of its own. Detection accepts a store exactly if
some prefix of the entries is at its target and all others are as they were. -/

namespace DataAgentSystem.AgentTxn

open Text Storage Interaction Containers

variable {kind : StoreKind}

namespace FallbackCommitEntry

def target (e : FallbackCommitEntry) : VersionedValue where
  value := e.targetValue
  version := e.expectedVersion + 1
  exists_ := true

def previous (e : FallbackCommitEntry) : VersionedValue :=
  if e.previousExists then
    { value := e.previousValue, version := e.previousVersion, exists_ := true }
  else {}

/-- Undoing is one more versioned write for a key that existed. -/
def undone (e : FallbackCommitEntry) : VersionedValue :=
  if e.previousExists then
    { value := e.previousValue, version := e.previousVersion + 1 + 1, exists_ := true }
  else {}

theorem matchesTarget_iff {e : FallbackCommitEntry} {v : VersionedValue} :
    e.matchesTarget v = true ↔ v = e.target := by
  obtain ⟨value, version, exists_⟩ := v
  simp only [matchesTarget, target, Bool.and_eq_true, decide_eq_true_eq, VersionedValue.mk.injEq]
  constructor
  · rintro ⟨⟨h₁, h₂⟩, h₃⟩
    exact ⟨h₃, h₂, h₁⟩
  · rintro ⟨h₃, h₂, h₁⟩
    exact ⟨⟨h₁, h₂⟩, h₃⟩

theorem matchesPrevious_iff {e : FallbackCommitEntry} {s : MemoryKVStore} :
    e.matchesPrevious (s.get e.key) = true ↔ s.get e.key = e.previous := by
  cases hp : e.previousExists with
  | true =>
    cases hv : s.get e.key with
    | mk value version exists_ =>
      simp only [matchesPrevious, previous, hp, Bool.not_true, Bool.false_eq_true,
        ↓reduceIte, Bool.and_eq_true, decide_eq_true_eq, VersionedValue.mk.injEq]
      constructor
      · rintro ⟨⟨h₁, h₂⟩, h₃⟩
        exact ⟨h₃, h₂, h₁⟩
      · rintro ⟨h₃, h₂, h₁⟩
        exact ⟨⟨h₁, h₂⟩, h₃⟩
  | false =>
    simp only [matchesPrevious, previous, hp, Bool.not_false, ↓reduceIte,
      Bool.and_eq_true, Bool.not_eq_true', decide_eq_true_eq]
    constructor
    · rintro ⟨hmissing, -⟩
      exact MemoryKVStore.version_of_not_exists hmissing
    · intro h
      rw [h]
      exact ⟨rfl, rfl⟩

end FallbackCommitEntry

/-- Entries as a commit prepares them. -/
structure Built (entries : List FallbackCommitEntry) : Prop where
  nodup : (entries.map (·.key)).Nodup
  versions : ∀ e ∈ entries, e.expectedVersion = e.previousVersion
  missing : ∀ e ∈ entries, e.previousExists = false → e.previousVersion = 0

theorem version_add_one_ne (v : UInt64) : v + 1 ≠ v := by grind

namespace Built

variable {entries : List FallbackCommitEntry} {e : FallbackCommitEntry}

theorem target_ne_previous (hb : Built entries) (he : e ∈ entries) : e.target ≠ e.previous := by
  intro h
  cases hp : e.previousExists with
  | true =>
    have hversion : e.expectedVersion + 1 = e.previousVersion := by
      simpa [FallbackCommitEntry.target, FallbackCommitEntry.previous, hp] using congrArg
        VersionedValue.version h
    rw [hb.versions e he] at hversion
    exact version_add_one_ne _ hversion
  | false =>
    have hexists := congrArg VersionedValue.exists_ h
    simp [FallbackCommitEntry.target, FallbackCommitEntry.previous, hp] at hexists

theorem target_ne_undone (hb : Built entries) (he : e ∈ entries) : e.target ≠ e.undone := by
  intro h
  cases hp : e.previousExists with
  | true =>
    have hversion : e.expectedVersion + 1 = e.previousVersion + 1 + 1 := by
      simpa [FallbackCommitEntry.target, FallbackCommitEntry.undone, hp] using congrArg
        VersionedValue.version h
    rw [hb.versions e he] at hversion
    exact version_add_one_ne _ hversion.symm
  | false =>
    have hexists := congrArg VersionedValue.exists_ h
    simp [FallbackCommitEntry.target, FallbackCommitEntry.undone, hp] at hexists

end Built

/-- Undoing gives the previous state back only where the key did not exist. -/
theorem undone_eq_previous_iff {e : FallbackCommitEntry} :
    e.undone = e.previous ↔ e.previousExists = false := by
  have hne : e.previousVersion + 1 + 1 ≠ e.previousVersion := by grind
  cases hp : e.previousExists <;>
    simp [FallbackCommitEntry.undone, FallbackCommitEntry.previous, hp, hne]

/-- Each entry of the list is in the given one of its states. -/
def AllAt (state : FallbackCommitEntry → VersionedValue) (es : List FallbackCommitEntry)
    (s : MemoryKVStore) : Prop :=
  ∀ e ∈ es, s.get e.key = state e

instance (state : FallbackCommitEntry → VersionedValue) (es : List FallbackCommitEntry)
    (s : MemoryKVStore) :
    Decidable (AllAt state es s) := inferInstanceAs (Decidable (∀ e ∈ es, s.get e.key = state e))

/-- Some prefix is at its target, the rest is as it was. -/
def PrefixState (entries : List FallbackCommitEntry) (s : MemoryKVStore) : Prop :=
  ∃ applied rest, entries = applied ++ rest ∧ AllAt FallbackCommitEntry.target applied s ∧
    AllAt FallbackCommitEntry.previous rest s

theorem AllAt.frame {state : FallbackCommitEntry → VersionedValue} {es : List FallbackCommitEntry}
    {s s' : MemoryKVStore} {key : Bytes} (h : AllAt state es s) (hkey : key ∉ es.map (·.key))
    (hs : ∀ k, k ≠ key → s'.get k = s.get k) : AllAt state es s' := by
  intro e he
  have hne : e.key ≠ key := fun heq => hkey (heq ▸ List.mem_map_of_mem he)
  rw [hs _ hne]
  exact h e he

/-! ### One write, one undo -/

/-- The world after a change of its store. -/
def withStore (w : World) (store : MemoryKVStore) : World := { w with store }

@[simp] theorem withStore_store (w : World) (store : MemoryKVStore) :
    (withStore w store).store = store := rfl

@[simp] theorem withStore_files (w : World) (store : MemoryKVStore) :
    (withStore w store).files = w.files := rfl

variable (kind) in
/-- A write of an entry whose key is as it was. -/
theorem put_target {entries : List FallbackCommitEntry} {e : FallbackCommitEntry}
    (hb : Built entries) (he : e ∈ entries) {w : World} (hw : w.store.get e.key = e.previous) :
    ∃ s, handle kind (.putIfVersion e.key e.expectedVersion e.targetValue) w =
      (true, withStore w s) ∧
      s.get e.key = e.target ∧ ∀ k, k ≠ e.key → s.get k = w.store.get k := by
  have hversion : w.store.getVersion e.key = e.expectedVersion := by
    rw [MemoryKVStore.getVersion, hw, hb.versions e he]
    cases hp : e.previousExists with
    | true => simp [FallbackCommitEntry.previous, hp]
    | false => simp [FallbackCommitEntry.previous, hp, hb.missing e he hp]
  refine ⟨w.store.write e.key e.targetValue, ?_, ?_, fun k hk =>
    MemoryKVStore.get_write_of_ne _ _ hk⟩
  · simp only [handle, MemoryKVStore.putIfVersion_of_eq _ hversion]
    rfl
  · rw [MemoryKVStore.get_write_self]
    simp only [FallbackCommitEntry.target]
    rw [← hversion]
    rfl

/-- An undo of an entry that is at its target. -/
theorem safely_undoEntry {entries : List FallbackCommitEntry} {e : FallbackCommitEntry}
    (hb : Built entries) (he : e ∈ entries) {w : World} (hw : w.store.get e.key = e.target)
    {I : World → Prop} (hI : I w)
    (hI' : ∀ s, s.get e.key = e.undone → (∀ k, k ≠ e.key → s.get k = w.store.get k) →
      I (withStore w s)) :
    (undoEntry e).Safely (handle kind) I w fun ok w' => ok = true ∧ ∃ s, w' = withStore w s ∧
      s.get e.key = e.undone ∧ ∀ k, k ≠ e.key → s.get k = w.store.get k := by
  have hversion : w.store.getVersion e.key = e.previousVersion + 1 := by
    rw [MemoryKVStore.getVersion, hw, ← hb.versions e he]
    rfl
  cases hp : e.previousExists with
  | true =>
    have hget : (w.store.write e.key e.previousValue).get e.key = e.undone := by
      rw [MemoryKVStore.get_write_self]
      simp only [FallbackCommitEntry.undone, hp, ↓reduceIte]
      rw [← hversion]
      rfl
    have hframe : ∀ k, k ≠ e.key → (w.store.write e.key e.previousValue).get k = w.store.get k :=
      fun k hk => MemoryKVStore.get_write_of_ne _ _ hk
    have hcall : handle kind (.putIfVersion e.key (e.previousVersion + 1) e.previousValue) w =
        (true, withStore w (w.store.write e.key e.previousValue)) := by
      simp only [handle, MemoryKVStore.putIfVersion_of_eq _ hversion]
      rfl
    rw [undoEntry, hp, if_pos rfl, Store.putIfVersion, Call.perform, Program.perform,
      Program.safely_call, hcall, Program.safely_ret]
    exact ⟨hI, hI' _ hget hframe, rfl, _, rfl, hget, hframe⟩
  | false =>
    rw [← hb.versions e he] at hversion
    obtain ⟨htrue, hdelete⟩ := MemoryKVStore.deleteIfVersion_of_eq hversion
    have hget : (w.store.deleteIfVersion e.key (e.expectedVersion + 1)).2.get e.key = e.undone := by
      rw [hdelete, if_pos rfl]
      simp [FallbackCommitEntry.undone, hp]
    have hframe : ∀ k, k ≠ e.key →
        (w.store.deleteIfVersion e.key (e.expectedVersion + 1)).2.get k = w.store.get k :=
      fun k hk => by rw [hdelete, if_neg hk]
    have hcall : handle kind (.deleteIfVersion e.key (e.expectedVersion + 1)) w =
        (true, withStore w (w.store.deleteIfVersion e.key (e.expectedVersion + 1)).2) := by
      simp only [handle, World.withStore, htrue]
      rfl
    rw [undoEntry, hp, if_neg (by simp), Store.deleteIfVersion, Call.perform,
      Program.perform, Program.safely_call, hcall, Program.safely_ret]
    exact ⟨hI, hI' _ hget hframe, rfl, _, rfl, hget, hframe⟩

/-! ### Detection -/

theorem only_countTargets (es : List FallbackCommitEntry) :
    (countTargets es).Only fun op => op.reads = true := by
  induction es with
  | nil => exact Program.only_ret _
  | cons e es ih =>
    rw [countTargets, Store.get_bind, Program.only_call]
    refine ⟨rfl, fun current => ?_⟩
    split
    next => exact Program.only_bind ih fun n => Program.only_ret _
    next => exact Program.only_ret _

theorem only_findNonPrefix (es : List FallbackCommitEntry) :
    (findNonPrefix es).Only fun op => op.reads = true := by
  induction es with
  | nil => exact Program.only_ret _
  | cons e es ih =>
    rw [findNonPrefix, Store.get_bind, Program.only_call]
    refine ⟨rfl, fun current => ?_⟩
    split
    next => exact ih
    next => exact Program.only_ret _

theorem only_detectCommittedPrefix (artifact : FallbackCommitArtifact)
    (result : FallbackRecoveryResult) :
    (detectCommittedPrefix artifact result).Only fun op => op.reads = true := by
  refine Program.only_bind (only_countTargets _) fun n =>
    Program.only_bind (only_findNonPrefix _) fun r => ?_
  cases r <;> exact Program.only_ret _

theorem looks_detectCommittedPrefix (artifact : FallbackCommitArtifact)
    (result : FallbackRecoveryResult) (w : World) :
    (detectCommittedPrefix artifact result).Looks (handle kind) w :=
  (only_detectCommittedPrefix artifact result).looks fun _ hop w => handle_of_reads hop w

theorem run_countTargets (es : List FallbackCommitEntry) (w : World) :
    ((countTargets es).run (handle kind) w).1 =
      (es.takeWhile fun e => e.matchesTarget (w.store.get e.key)).length := by
  induction es with
  | nil => rfl
  | cons e es ih =>
    rw [countTargets, Store.get_bind, Program.run_call, handle_get, List.takeWhile_cons]
    cases hm : e.matchesTarget (w.store.get e.key) with
    | true => simp [ih]
    | false => simp

theorem run_findNonPrefix (es : List FallbackCommitEntry) (w : World) :
    ((findNonPrefix es).run (handle kind) w).1 =
      (es.find? fun e => !e.matchesPrevious (w.store.get e.key)).map (·.key) := by
  induction es with
  | nil => rfl
  | cons e es ih =>
    rw [findNonPrefix, Store.get_bind, Program.run_call, handle_get, List.find?_cons]
    cases hm : e.matchesPrevious (w.store.get e.key) with
    | true => simp [ih]
    | false => simp

theorem drop_length_takeWhile (p : FallbackCommitEntry → Bool) (es : List FallbackCommitEntry) :
    es.drop (es.takeWhile p).length = es.dropWhile p := by
  have h := congrArg (List.drop (es.takeWhile p).length)
      (List.takeWhile_append_dropWhile (p := p) (l := es))
  rw [List.drop_left] at h
  exact h.symm

/-- Where the entries at their target end, when the others are elsewhere. -/
theorem takeWhile_target {applied rest : List FallbackCommitEntry} {s : MemoryKVStore}
    (happlied : AllAt FallbackCommitEntry.target applied s)
    (hrest : ∀ e ∈ rest, s.get e.key ≠ e.target) :
    ((applied ++ rest).takeWhile fun e => e.matchesTarget (s.get e.key)) = applied ∧
      ((applied ++ rest).dropWhile fun e => e.matchesTarget (s.get e.key)) = rest := by
  have htake : (rest.takeWhile fun e => e.matchesTarget (s.get e.key)) = [] := by
    cases rest with
    | nil => rfl
    | cons e rest =>
      rw [List.takeWhile_cons_of_neg]
      rw [FallbackCommitEntry.matchesTarget_iff]
      exact hrest e List.mem_cons_self
  have hdrop : (rest.dropWhile fun e => e.matchesTarget (s.get e.key)) = rest := by
    have h := List.takeWhile_append_dropWhile
        (p := fun e => FallbackCommitEntry.matchesTarget e (s.get e.key)) (l := rest)
    rw [htake, List.nil_append] at h
    exact h
  have hall : ∀ e ∈ applied, e.matchesTarget (s.get e.key) = true :=
    fun e he => FallbackCommitEntry.matchesTarget_iff.2 (happlied e he)
  constructor
  · rw [List.takeWhile_append_of_pos hall, htake, List.append_nil]
  · rw [List.dropWhile_append_of_pos hall, hdrop]

theorem conflict_key_isSome {rest : List FallbackCommitEntry} {s : MemoryKVStore}
    (h : ¬AllAt FallbackCommitEntry.previous rest s) :
    ∃ key, (rest.find? fun e => !e.matchesPrevious (s.get e.key)).map (·.key) = some key := by
  have hsome : (rest.find? fun e => !e.matchesPrevious (s.get e.key)).isSome := by
    rw [List.find?_isSome]
    by_contra hnone
    push Not at hnone
    refine h fun e he => ?_
    exact FallbackCommitEntry.matchesPrevious_iff.1 (by simpa using hnone e he)
  obtain ⟨e, he⟩ := Option.isSome_iff_exists.1 hsome
  exact ⟨e.key, by rw [he, Option.map_some]⟩

variable {a : FallbackCommitArtifact} {result : FallbackRecoveryResult} {w : World}

theorem run_detectCommittedPrefix (a : FallbackCommitArtifact) (result : FallbackRecoveryResult)
    (w : World) :
    ((detectCommittedPrefix a result).run (handle kind) w).1 =
      match ((a.entries.dropWhile fun e => e.matchesTarget (w.store.get e.key)).find? fun e =>
          !e.matchesPrevious (w.store.get e.key)).map (·.key) with
      | some key => (a.entries.length + 1,
          result.conflict (ascii "fallback recovery encountered non-prefix state at key: " ++ key))
      | none =>
        ((a.entries.takeWhile fun e => e.matchesTarget (w.store.get e.key)).length, result) := by
  have hcount : ((countTargets a.entries).run (handle kind) w).2 = w :=
    ((only_countTargets a.entries).looks fun op hop w => handle_of_reads hop w).run_eq
  rw [detectCommittedPrefix, Program.run_bind, hcount, run_countTargets,
    Program.run_bind, run_findNonPrefix, drop_length_takeWhile]
  generalize List.find? _ _ = found
  cases found <;> rfl

/-- Detection of a prefix. -/
theorem run_detectCommittedPrefix_of_prefixState {applied rest : List FallbackCommitEntry}
    (hb : Built a.entries) (hsplit : a.entries = applied ++ rest)
    (happlied : AllAt FallbackCommitEntry.target applied w.store)
    (hrest : AllAt FallbackCommitEntry.previous rest w.store) :
    ((detectCommittedPrefix a result).run (handle kind) w).1 = (applied.length, result) := by
  have hne : ∀ e ∈ rest, w.store.get e.key ≠ e.target := by
    intro e he h
    have hmem : e ∈ a.entries := hsplit ▸ List.mem_append_right _ he
    exact hb.target_ne_previous hmem (h.symm.trans (hrest e he))
  obtain ⟨htake, hdrop⟩ := takeWhile_target happlied hne
  have hnone : (rest.find? fun e => !e.matchesPrevious (w.store.get e.key)) = none := by
    rw [List.find?_eq_none]
    intro e he
    simp [FallbackCommitEntry.matchesPrevious_iff.2 (hrest e he)]
  rw [run_detectCommittedPrefix, hsplit, htake, hdrop, hnone]
  rfl

variable (kind result) in
/-- Detection of anything else is a conflict. -/
theorem run_detectCommittedPrefix_of_not_prefixState (h : ¬PrefixState a.entries w.store) :
    ∃ key, ((detectCommittedPrefix a result).run (handle kind) w).1 = (a.entries.length + 1,
      result.conflict
      (ascii "fallback recovery encountered non-prefix state at key: " ++ key)) := by
  have happlied : AllAt FallbackCommitEntry.target
      (a.entries.takeWhile fun e => e.matchesTarget (w.store.get e.key)) w.store := by
    intro e he
    have hmatch := List.mem_takeWhile_imp
        (p := fun e => FallbackCommitEntry.matchesTarget e (w.store.get e.key)) he
    exact FallbackCommitEntry.matchesTarget_iff.1 hmatch
  have hrest : ¬AllAt FallbackCommitEntry.previous
      (a.entries.dropWhile fun e => e.matchesTarget (w.store.get e.key)) w.store :=
    fun hrest => h ⟨_, _, (List.takeWhile_append_dropWhile).symm, happlied, hrest⟩
  obtain ⟨key, hkey⟩ := conflict_key_isSome hrest
  exact ⟨key, by rw [run_detectCommittedPrefix, hkey]⟩

end DataAgentSystem.AgentTxn
