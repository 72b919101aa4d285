import DataAgentSystem.Storage.FileKVStore

/-! The mutators of the file-backed store and what a reload makes of their work. They
change the map in memory as the in-memory store does and then write it out. A key with
an empty value does not survive: it is written as a line that cannot be read, or, where
a refused conditional write left it behind, not written at all. -/

namespace DataAgentSystem.Storage.FileKVStore

open Text Containers Interaction

section Mutators

variable (order : IterationOrder) (path : Bytes)

/-- A refused change is not written out. -/
def persistChanged : Bool × MemoryKVStore → DiskProg (Bool × MemoryKVStore)
  | (false, s) => return (false, s)
  | (true, s) => do return (← persistToDisk order path s.values, s)

def put (s : MemoryKVStore) (key value : Bytes) : DiskProg (Bool × MemoryKVStore) :=
  persistChanged order path (s.put key value)

def putIfVersion (s : MemoryKVStore) (key : Bytes) (expectedVersion : UInt64) (value : Bytes) :
    DiskProg (Bool × MemoryKVStore) :=
  persistChanged order path (s.putIfVersion key expectedVersion value)

def deleteIfVersion (s : MemoryKVStore) (key : Bytes) (expectedVersion : UInt64) :
    DiskProg (Bool × MemoryKVStore) :=
  persistChanged order path (s.deleteIfVersion key expectedVersion)

def batchPutIfVersion (s : MemoryKVStore) (checks : List VersionCheck) (writes : List WriteOp) :
    DiskProg (Bool × MemoryKVStore) :=
  persistChanged order path (s.batchPutIfVersion checks writes)

end Mutators

/-- The constructor, which does not tell whether its load succeeded. -/
def construct (path : Bytes) : DiskProg MemoryKVStore := do
  let (_, values) ← loadFromDiskUnlocked path
  return { values }

def reload (path : Bytes) : DiskProg (Bool × MemoryKVStore) := do
  let (loaded, values) ← loadFromDiskUnlocked path
  return (loaded, { values })

/-- One call of a mutator. -/
inductive Mutation where
  | put (key value : Bytes)
  | putIfVersion (key : Bytes) (expectedVersion : UInt64) (value : Bytes)
  | deleteIfVersion (key : Bytes) (expectedVersion : UInt64)
  | batchPutIfVersion (checks : List VersionCheck) (writes : List WriteOp)

def mutate (order : IterationOrder) (path : Bytes) (s : MemoryKVStore) :
    Mutation → DiskProg (Bool × MemoryKVStore)
  | .put key value => put order path s key value
  | .putIfVersion key expectedVersion value => putIfVersion order path s key expectedVersion value
  | .deleteIfVersion key expectedVersion => deleteIfVersion order path s key expectedVersion
  | .batchPutIfVersion checks writes => batchPutIfVersion order path s checks writes

/-- A sequence of calls, whatever each of them answers. -/
def mutateAll (order : IterationOrder) (path : Bytes) :
    List Mutation → MemoryKVStore → DiskProg MemoryKVStore
  | [], s => return s
  | mutation :: mutations, s => do
    let (_, s) ← mutate order path s mutation
    mutateAll order path mutations s

/-! ### What is on disk -/

/-- The map in memory may be ahead of what was written by empty entries of version zero. -/
def Ahead (values saved : UnorderedMap Entry) : Prop :=
  ∀ key, values.lookup key = saved.lookup key ∨
    (saved.lookup key = none ∧ values.lookup key = some {})

/-- The disk holds a snapshot of the store, readable if it has no empty values. -/
structure Persisted (path : Bytes) (s : MemoryKVStore) (saved : UnorderedMap Entry)
    (d : Disk) : Prop where
  clean : Clean path d
  ahead : Ahead s.values saved
  readable : (∀ key entry, saved.lookup key = some entry → entry.value ≠ []) →
    (readSnapshot (d.lookup path)).1 = true ∧ ∀ key,
      (readSnapshot (d.lookup path)).2.lookup key = saved.lookup key

theorem mem_pairs_iff {order : IterationOrder} {values : UnorderedMap Entry}
    {key : Bytes} {entry : Entry} :
    (key, entry) ∈ order.pairs values ↔ values.lookup key = some entry := by
  rw [(order.perm values).mem_iff, List.mem_map, ← UnorderedMap.mem_entries_iff]
  constructor
  · rintro ⟨⟨key', entry'⟩, hmem, heq⟩
    cases heq
    exact hmem
  · exact fun hmem => ⟨_, hmem, rfl⟩

/-- In whatever order a map is written, its entries make the same map. -/
theorem lookup_mapOf_pairs (order : IterationOrder) (values : UnorderedMap Entry) (key : Bytes) :
    (mapOf (order.pairs values)).lookup key = values.lookup key := by
  rw [mapOf, UnorderedMap.lookup_assignAll]
  cases hfind : (order.pairs values).reverse.find? fun pair => pair.1 = key with
  | none =>
    rw [List.find?_eq_none] at hfind
    cases hentry : values.lookup key with
    | none => rfl
    | some entry =>
      have hmem := List.mem_reverse.2 ((@mem_pairs_iff order _ _ _).2 hentry)
      exact absurd (decide_eq_true rfl) (hfind _ hmem)
  | some pair =>
    have hmem := List.mem_reverse.1 (List.mem_of_find?_eq_some hfind)
    have hkey : pair.1 = key := by simpa using List.find?_some hfind
    rw [← hkey, mem_pairs_iff.1 hmem]
    rfl

theorem persisted_of_load {path : Bytes} {d d' : Disk} {values : UnorderedMap Entry}
    (hread : readSnapshot (snapshotAt path d) = (true, values)) (hclean : Clean path d')
    (hpath : d'.lookup path = snapshotAt path d) : Persisted path { values } values d' where
  clean := hclean
  ahead _ := .inl rfl
  readable _ := by
    rw [hpath, hread]
    exact ⟨rfl, fun _ => rfl⟩

theorem Ahead.refl (values : UnorderedMap Entry) : Ahead values values := fun _ => .inl rfl

theorem Ahead.trans {values values' saved : UnorderedMap Entry} (h : Ahead values values')
    (h' : Ahead values' saved) :
    Ahead values saved := by
  intro key
  rcases h key with hsame | ⟨hnone, hempty⟩
  · rw [hsame]
    exact h' key
  · rcases h' key with hsame' | ⟨-, hempty'⟩
    · exact .inr ⟨hsame'.symm.trans hnone, hempty⟩
    · rw [hnone] at hempty'
      simp at hempty'

/-- A refused conditional write leaves at most an empty entry behind. -/
theorem ahead_putIfVersion {s : MemoryKVStore} {key : Bytes} {v : UInt64} {value : Bytes}
    (h : (s.putIfVersion key v value).1 = false) :
    Ahead (s.putIfVersion key v value).2.values s.values := by
  intro k
  unfold MemoryKVStore.putIfVersion UnorderedMap.subscript at h ⊢
  cases hentry : s.values.lookup key with
  | some entry =>
    simp only [hentry] at h ⊢
    split at h
    next hne => rw [if_pos hne]; exact .inl rfl
    next => simp at h
  | none =>
    simp only [hentry] at h ⊢
    split at h
    next hne =>
      rw [if_pos hne]
      simp only [UnorderedMap.lookup_insert_eq_ite]
      by_cases hk : k = key
      · rw [if_pos hk]
        exact .inr ⟨hk ▸ hentry, rfl⟩
      · rw [if_neg hk]
        exact .inl rfl
    next => simp at h

section Runs

variable {order : IterationOrder} {path : Bytes} {saved : UnorderedMap Entry}
  {s : MemoryKVStore} {d : Disk}

/-- A changed store is written out, a refused change is at most ahead of the disk. -/
theorem persisted_persistChanged (r : Bool × MemoryKVStore) (h : Persisted path s saved d)
    (hrefused : r.1 = false → Ahead r.2.values s.values) :
    ((persistChanged order path r).run handleDisk d).1.2 = r.2 ∧
      ∃ saved', Persisted path r.2 saved' ((persistChanged order path r).run handleDisk d).2 := by
  obtain ⟨changed, s'⟩ := r
  cases changed with
  | false => exact ⟨rfl, saved, h.clean, (hrefused rfl).trans h.ahead, h.readable⟩
  | true =>
    obtain ⟨d', hrun, hclean, hpath⟩ := run_persistToDisk order path s'.values d
    rw [persistChanged, Program.run_bind, hrun, Program.pure_eq_ret, Program.run_ret]
    refine ⟨rfl, s'.values, hclean, Ahead.refl _, fun hvalues => ?_⟩
    have hpairs : ∀ pair ∈ order.pairs s'.values, pair.2.value ≠ [] :=
      fun pair hpair => hvalues pair.1 pair.2 (mem_pairs_iff.1 hpair)
    show (readSnapshot (d'.lookup path)).1 = true ∧ _
    rw [hpath, readSnapshot_text hpairs]
    exact ⟨rfl, lookup_mapOf_pairs order s'.values⟩

/-- One call of a mutator. -/
theorem persisted_mutate (mutation : Mutation) (h : Persisted path s saved d) :
    ∃ saved', Persisted path ((mutate order path s mutation).run handleDisk d).1.2 saved'
      ((mutate order path s mutation).run handleDisk d).2 := by
  have hstep : ∀ r : Bool × MemoryKVStore, (r.1 = false → Ahead r.2.values s.values) →
      ∃ saved', Persisted path ((persistChanged order path r).run handleDisk d).1.2 saved'
        ((persistChanged order path r).run handleDisk d).2 := by
    intro r hrefused
    obtain ⟨hstore, saved', hpersisted⟩ := @persisted_persistChanged order _ _ _ _ r h hrefused
    rw [hstore]
    exact ⟨saved', hpersisted⟩
  cases mutation with
  | put key value =>
    refine hstep (s.put key value) fun hfalse => ?_
    simp [MemoryKVStore.put] at hfalse
  | putIfVersion key v value => exact hstep (s.putIfVersion key v value) ahead_putIfVersion
  | deleteIfVersion key v =>
    refine hstep (s.deleteIfVersion key v) fun hfalse => ?_
    by_cases hv : s.getVersion key = v
    · rw [(MemoryKVStore.deleteIfVersion_of_eq hv).1] at hfalse
      simp at hfalse
    · rw [MemoryKVStore.deleteIfVersion_of_ne hv]
      exact Ahead.refl _
  | batchPutIfVersion checks writes =>
    refine hstep (s.batchPutIfVersion checks writes) fun hfalse => ?_
    rw [MemoryKVStore.batchPutIfVersion_false hfalse]
    exact Ahead.refl _

/-- Any sequence of calls. -/
theorem persisted_mutateAll (mutations : List Mutation) (h : Persisted path s saved d) :
    ∃ saved', Persisted path ((mutateAll order path mutations s).run handleDisk d).1 saved'
      ((mutateAll order path mutations s).run handleDisk d).2 := by
  induction mutations generalizing s saved d with
  | nil => exact ⟨saved, h⟩
  | cons mutation mutations ih =>
    obtain ⟨saved', hpersisted⟩ := @persisted_mutate order _ _ _ _ mutation h
    rw [mutateAll, Program.run_bind]
    exact ih hpersisted

end Runs

/-- A store without empty values is what its disk says. -/
theorem Persisted.lookup_eq {path : Bytes} {s : MemoryKVStore}
    {saved : UnorderedMap Entry} {d : Disk} (h : Persisted path s saved d)
    (hvalues : ∀ key entry, s.values.lookup key = some entry → entry.value ≠ []) (key : Bytes) :
    s.values.lookup key = saved.lookup key := by
  rcases h.ahead key with hsame | ⟨-, hempty⟩
  · exact hsame
  · exact absurd rfl (hvalues key _ hempty)

theorem value_ne_nil_iff {s : MemoryKVStore} :
    (∀ key, (s.get key).exists_ = true → (s.get key).value ≠ []) ↔
      ∀ key entry, s.values.lookup key = some entry → entry.value ≠ [] := by
  constructor
  · intro h key entry hentry
    have hkey := h key
    simp only [MemoryKVStore.get, hentry] at hkey
    exact hkey trivial
  · intro h key hexists
    cases hentry : s.values.lookup key with
    | none => simp [MemoryKVStore.get, hentry] at hexists
    | some entry =>
      simp only [MemoryKVStore.get, hentry]
      exact h key entry hentry

theorem get_eq_of_lookup_eq {s s' : MemoryKVStore} {key : Bytes}
    (h : s.values.lookup key = s'.values.lookup key) :
    s.get key = s'.get key := by
  rw [MemoryKVStore.get, MemoryKVStore.get, h]

/-- After any sequence of calls a reload, or a new store on the same path, gives back
every key exactly if no existing key has an empty value. -/
theorem mutateAll_roundTrip_iff (order : IterationOrder) (path : Bytes) (d : Disk)
    (mutations : List Mutation) (hopen : ((reload path).run handleDisk d).1.1 = true) :
    let opened := (construct path).run handleDisk d
    let after := (mutateAll order path mutations opened.1).run handleDisk opened.2
    let reloaded := (reload path).run handleDisk after.2
    let reopened := (construct path).run handleDisk after.2
    (reloaded.1.1 = true ∧ (∀ key, reloaded.1.2.get key = after.1.get key) ∧
        ∀ key, reopened.1.get key = after.1.get key) ↔
      ∀ key, (after.1.get key).exists_ = true → (after.1.get key).value ≠ [] := by
  intro opened after reloaded reopened
  obtain ⟨d₀, hload₀, hclean₀, hpath₀⟩ := run_load path d
  obtain ⟨d₁, hload₁, -, -⟩ := run_load path after.2
  have hopened : opened = ({ values := (readSnapshot (snapshotAt path d)).2 }, d₀) := by
    simp only [opened, construct, Program.run_bind, hload₀]
    rfl
  have hreloaded : reloaded.1 = ((readSnapshot (snapshotAt path after.2)).1,
      { values := (readSnapshot (snapshotAt path after.2)).2 }) := by
    simp only [reloaded, reload, Program.run_bind, hload₁]
    rfl
  have hreopened : reopened.1 = { values := (readSnapshot (snapshotAt path after.2)).2 } := by
    simp only [reopened, construct, Program.run_bind, hload₁]
    rfl
  have hfirst : readSnapshot (snapshotAt path d) =
      (true, (readSnapshot (snapshotAt path d)).2) := by
    simp only [reload, Program.run_bind, hload₀] at hopen
    exact Prod.ext hopen rfl
  obtain ⟨saved, hpersisted⟩ := @persisted_mutateAll order _ _ _ _ mutations
    (persisted_of_load hfirst hclean₀ hpath₀)
  have hafter : Persisted path after.1 saved after.2 := by
    simp only [after, hopened]
    exact hpersisted
  rw [hreloaded, hreopened, value_ne_nil_iff]
  constructor
  · rintro ⟨-, hget, -⟩ key entry hentry
    have hkey := hget key
    cases hread : (readSnapshot (snapshotAt path after.2)).2.lookup key with
    | none => simp [MemoryKVStore.get, hread, hentry] at hkey
    | some entry' =>
      simp only [MemoryKVStore.get, hread, hentry, VersionedValue.mk.injEq] at hkey
      rw [← hkey.1]
      exact readSnapshot_value_ne_nil hread
  · intro hvalues
    have hsaved : ∀ key entry, saved.lookup key = some entry → entry.value ≠ [] := by
      intro key entry hentry
      exact hvalues key entry ((hafter.lookup_eq hvalues key).trans hentry)
    obtain ⟨hok, hread⟩ := hafter.readable hsaved
    have hget : ∀ key, MemoryKVStore.get { values := (readSnapshot (after.2.lookup path)).2 } key =
        after.1.get key :=
      fun key => get_eq_of_lookup_eq ((hread key).trans (hafter.lookup_eq hvalues key).symm)
    rw [hafter.clean.snapshotAt]
    exact ⟨hok, hget, hget⟩

/-- A store on a fresh path, with a key created, refused, replaced and deleted. -/
theorem mutateAll_roundTrip_fresh :
    let mutations : List Mutation :=
  [.put (ascii "k\tk") (ascii "\n"), .putIfVersion (ascii "a") 7 (ascii "b"),
      .putIfVersion (ascii "a") 0 (ascii "b"), .deleteIfVersion (ascii "k\tk") 1]
    let opened := (construct (ascii "kv")).run handleDisk ∅
    let after :=
      (mutateAll IterationOrder.stored (ascii "kv") mutations opened.1).run handleDisk opened.2
    let reloaded := (reload (ascii "kv")).run handleDisk after.2
    let reopened := (construct (ascii "kv")).run handleDisk after.2
    (reloaded.1.1 = true ∧ (∀ key, reloaded.1.2.get key = after.1.get key) ∧
        ∀ key, reopened.1.get key = after.1.get key) ↔
      ∀ key, (after.1.get key).exists_ = true → (after.1.get key).value ≠ [] :=
  mutateAll_roundTrip_iff IterationOrder.stored (ascii "kv") ∅ _ rfl

/-- An empty value is written as a line that no reload gets past. -/
theorem mutateAll_not_roundTrip :
    ¬∀ (order : IterationOrder) (path : Bytes) (d : Disk) (mutations : List Mutation),
      ((reload path).run handleDisk d).1.1 = true →
      let opened := (construct path).run handleDisk d
      let after := (mutateAll order path mutations opened.1).run handleDisk opened.2
      let reloaded := (reload path).run handleDisk after.2
      reloaded.1.1 = true ∧ ∀ key, reloaded.1.2.get key = after.1.get key := by
  intro h
  have hok := (h IterationOrder.stored (ascii "kv") ∅ [.put (ascii "k") []] rfl).1
  exact absurd hok (by decide)

end DataAgentSystem.Storage.FileKVStore
