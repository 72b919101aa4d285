import DataAgentSystem.AgentTxn.CommitManager
import DataAgentSystem.Storage.Versions

/-! The plain undo of a commit that has lost. The applied writes are taken back newest
first, and the first that cannot be taken back ends the undo, so that every older
write stays. A key that nobody else has touched since it was written therefore has
its previous content again exactly if no later write had moved on when its turn came. -/

namespace DataAgentSystem.AgentTxn

open Text Storage Interaction Containers CommitManager

/-- The same value and existence; versions may differ. -/
def SameContent (v v' : VersionedValue) : Prop := v.value = v'.value ∧ v.exists_ = v'.exists_

instance (v v' : VersionedValue) : Decidable (SameContent v v') :=
  inferInstanceAs (Decidable (_ ∧ _))

/-- The key of a conditional write or delete. -/
def conditionalKey : Call → Option Bytes
  | .putIfVersion key _ _ | .deleteIfVersion key _ => some key
  | _ => none

/-- What a call finds of a key. -/
def met (e : Event Call World) (k : Bytes) : VersionedValue := e.before.store.get k

/-- What a call leaves of a key. -/
def left (e : Event Call World) (k : Bytes) : VersionedValue :=
  (e.after (handle .nonBatchMemory)).store.get k

/-- The call is a conditional write of the key, and it is made. -/
def Puts (k : Bytes) (e : Event Call World) : Prop :=
  ∃ version value, e.op = .putIfVersion k version value ∧ (met e k).version = version

/-- From a call that left the key so, nobody else changes it until the last world. -/
def Undisturbed (k : Bytes) : VersionedValue → List (Event Call World) → World → Prop
  | v, [], w => w.store.get k = v
  | v, e :: es, w => met e k = v ∧ Undisturbed k (left e k) es w

/-- Whatever these calls write, a later conditional call on the same key finds at the version
left. -/
def Steady (tr : List (Event Call World)) : Prop :=
  tr.Pairwise fun put undo => ∀ k, Puts k put → conditionalKey undo.op = some k →
    (met undo k).version = (left put k).version

/-- Every earlier look at the key has found it as its write did. -/
def ReadAsMet (k : Bytes) (front : List (Event Call World)) (e : Event Call World) : Prop :=
  ∀ look ∈ front, look.op = .get k → SameContent (met look k) (met e k)

/-- The commit writes the key at `e`: its first conditional call on the key, which is made. -/
structure Writes (k : Bytes) (tr front : List (Event Call World)) (e : Event Call World)
    (rest : List (Event Call World)) : Prop where
  split : tr = front ++ e :: rest
  puts : Puts k e
  first : ∀ e' ∈ front, conditionalKey e'.op ≠ some k

/-- Every key the commit wrote, and nobody else has touched since, is as it was before. -/
def RestoresUntouched (tr : List (Event Call World)) (w : World) : Prop :=
  ∀ k front e rest, Writes k tr front e rest → Undisturbed k (left e k) rest w →
    SameContent (w.store.get k) (met e k)

/-- For every such key, the keys written later were steady until their undo and the key
was written as it had been read; or they were not, but the write had changed no content. -/
def UndoReaches (tr : List (Event Call World)) (w : World) : Prop :=
  ∀ k front e rest, Writes k tr front e rest → Undisturbed k (left e k) rest w →
    Steady rest ∧ ReadAsMet k front e ∨ ¬Steady rest ∧ SameContent (left e k) (met e k)

variable {k : Bytes} {v : VersionedValue} {w : World} {e : Event Call World}
  {tr front rest : List (Event Call World)}

theorem SameContent.symm {v v' : VersionedValue} (h : SameContent v v') :
    SameContent v' v := ⟨h.1.symm, h.2.symm⟩

theorem SameContent.trans {v v' v'' : VersionedValue} (h : SameContent v v')
    (h' : SameContent v' v'') :
    SameContent v v'' := ⟨h.1.trans h'.1, h.2.trans h'.2⟩

/-! ### Single calls -/

/-- A conditional call changes no other key. -/
theorem left_of_conditional {k' : Bytes} (hop : conditionalKey e.op = some k') (hk : k ≠ k') :
    left e k = met e k := by
  obtain ⟨op, w⟩ := e
  cases op with
  | putIfVersion key version value =>
    cases hop
    by_cases hv : w.store.getVersion k' = version
    · simp only [left, met, Event.after, handle, World.withStore,
        MemoryKVStore.putIfVersion_of_eq value hv]
      exact MemoryKVStore.get_write_of_ne _ _ hk
    · have hget := MemoryKVStore.get_putIfVersion_refused value hv k
      rw [if_neg hk] at hget
      exact hget
  | deleteIfVersion key version =>
    cases hop
    by_cases hv : w.store.getVersion k' = version
    · have hget := (MemoryKVStore.deleteIfVersion_of_eq hv).2 k
      rw [if_neg hk] at hget
      exact hget
    · simp only [left, met, Event.after, handle, World.withStore,
        MemoryKVStore.deleteIfVersion_of_ne hv]
  | _ => cases hop

/-- A conditional write that is made. -/
theorem left_put {value : Bytes} {version : UInt64} (hv : w.store.getVersion k = version) :
    left ⟨.putIfVersion k version value, w⟩ k =
      { value, version := version + 1, exists_ := true } := by
  simp only [left, Event.after, handle, World.withStore, MemoryKVStore.putIfVersion_of_eq value hv,
    MemoryKVStore.get_write_self]
  rw [← hv, MemoryKVStore.getVersion]

/-- A conditional delete that is made. -/
theorem left_delete {version : UInt64} (hv : w.store.getVersion k = version) :
    left ⟨.deleteIfVersion k version, w⟩ k = {} := by
  have hget := (MemoryKVStore.deleteIfVersion_of_eq hv).2 k
  rw [if_pos rfl] at hget
  exact hget

/-- A key that no call changes is at the end as it was. -/
theorem Undisturbed.get_eq (h : Undisturbed k v tr w) (hsame : ∀ e ∈ tr, left e k = met e k) :
    w.store.get k = v := by
  induction tr generalizing v with
  | nil => exact h
  | cons e tr ih =>
    rw [List.forall_mem_cons] at hsame
    rw [ih h.2 hsame.2, hsame.1]
    exact h.1

theorem Undisturbed.of_append (h : Undisturbed k v (front ++ rest) w)
    (hsame : ∀ e ∈ front, left e k = met e k) :
    Undisturbed k v rest w := by
  induction front generalizing v with
  | nil => exact h
  | cons e front ih =>
    rw [List.forall_mem_cons] at hsame
    have hrest := h.2
    rw [hsame.1, h.1] at hrest
    exact ih hrest hsame.2

theorem steady_append_of_not_puts (hfront : ∀ e ∈ front, ∀ k, ¬Puts k e) :
    Steady (front ++ rest) ↔ Steady rest := by
  induction front with
  | nil => exact Iff.rfl
  | cons e front ih =>
    rw [List.forall_mem_cons] at hfront
    rw [← ih hfront.2, Steady, List.cons_append, List.pairwise_cons]
    exact and_iff_right fun undo _ k hputs => absurd hputs (hfront.1 k)

theorem Puts.conditional (h : Puts k e) : conditionalKey e.op = some k := by
  obtain ⟨version, value, hop, -⟩ := h
  rw [hop]
  rfl

/-- After a write that is made, the later calls on its key have to meet its version. -/
theorem steady_put_cons (h : Puts k e) : Steady (e :: tr) ↔
    (∀ u ∈ tr, conditionalKey u.op = some k → (met u k).version = (left e k).version) ∧
      Steady tr := by
  rw [Steady, List.pairwise_cons]
  refine and_congr_left' ⟨fun hall u hu => hall u hu k h, fun hall u hu k' hputs => ?_⟩
  have hkey := h.conditional
  rw [hputs.conditional] at hkey
  cases hkey
  exact hall u hu

/-- A call on a key that no later call is conditional on. -/
theorem steady_cons_of_last (hop : conditionalKey e.op = some k)
    (hlast : ∀ u ∈ tr, conditionalKey u.op ≠ some k) :
    Steady (e :: tr) ↔ Steady tr := by
  rw [Steady, List.pairwise_cons]
  refine and_iff_right fun undo hundo k' hputs hkey => ?_
  rw [hputs.conditional] at hop
  cases hop
  exact absurd hkey (hlast undo hundo)

/-! ### The undo loop -/

/-- The content that the undo of a write brings back. -/
def CommitManager.AppliedWrite.content (a : AppliedWrite) : VersionedValue :=
  { value := a.previousValue, exists_ := a.previousExists }

/-- A key that did not exist had no value. -/
def CommitManager.AppliedWrite.Sound (a : AppliedWrite) : Prop :=
  a.previousExists = false → a.previousValue = []

/-- The undo meets every one of these writes at the version that it left. -/
def MeetsAll (applied : List AppliedWrite) (tr : List (Event Call World)) : Prop :=
  ∀ a ∈ applied, ∀ u ∈ tr, conditionalKey u.op = some a.key →
    (met u a.key).version = a.previousVersion + 1

theorem meetsAll_cons {a : AppliedWrite} {applied : List AppliedWrite} :
    MeetsAll (a :: applied) tr ↔
    (∀ u ∈ tr, conditionalKey u.op = some a.key → (met u a.key).version = a.previousVersion + 1) ∧
      MeetsAll applied tr := List.forall_mem_cons

/-- Calls on other keys before the undo. -/
theorem meetsAll_append_of_other {applied : List AppliedWrite}
    (hfront : ∀ e ∈ front, ∀ a ∈ applied, conditionalKey e.op ≠ some a.key) :
    MeetsAll applied (front ++ rest) ↔ MeetsAll applied rest := by
  constructor
  · exact fun hall a ha u hu => hall a ha u (List.mem_append_right _ hu)
  · intro hall a ha u hu hkey
    rcases List.mem_append.1 hu with hu | hu
    · exact absurd hkey (hfront u hu a ha)
    · exact hall a ha u hu hkey

/-- One undo: it brings the content back, or it ends the loop. -/
theorem interfered_rollback_cons {a : AppliedWrite} {older : List AppliedWrite}
    {r : Option Bytes} (ha : a.Sound)
    (h : (rollbackAppliedWrites (a :: older)).Interfered (handle .nonBatchMemory) tr r) :
    ∃ u rest, tr = u :: rest ∧ conditionalKey u.op = some a.key ∧
      ((met u a.key).version = a.previousVersion + 1 ∧ SameContent (left u a.key) a.content ∧
          (rollbackAppliedWrites older).Interfered (handle .nonBatchMemory) rest r ∨
        (met u a.key).version ≠ a.previousVersion + 1 ∧ rest = []) := by
  rw [rollbackAppliedWrites] at h
  split at h
  next hexists =>
    rw [Store.putIfVersion_bind, Program.interfered_call] at h
    obtain ⟨w, rest, rfl, h⟩ := h
    refine ⟨_, rest, rfl, rfl, ?_⟩
    by_cases hv : w.store.getVersion a.key = a.previousVersion + 1
    · simp only [handle, World.withStore, MemoryKVStore.putIfVersion_of_eq _ hv, ↓reduceIte] at h
      refine .inl ⟨hv, ?_, h⟩
      rw [left_put hv]
      exact ⟨rfl, hexists.symm⟩
    · simp only [handle, World.withStore, MemoryKVStore.putIfVersion_of_ne _ hv,
        Bool.false_eq_true, ↓reduceIte, Program.pure_eq_ret, Program.interfered_ret] at h
      exact .inr ⟨hv, h.1⟩
  next hmissing =>
    rw [Bool.not_eq_true] at hmissing
    rw [Store.deleteIfVersion_bind, Program.interfered_call] at h
    obtain ⟨w, rest, rfl, h⟩ := h
    refine ⟨_, rest, rfl, rfl, ?_⟩
    by_cases hv : w.store.getVersion a.key = a.previousVersion + 1
    · simp only [handle, World.withStore, (MemoryKVStore.deleteIfVersion_of_eq hv).1,
        ↓reduceIte] at h
      refine .inl ⟨hv, ?_, h⟩
      rw [left_delete hv]
      exact ⟨(ha hmissing).symm, hmissing.symm⟩
    · simp only [handle, World.withStore, MemoryKVStore.deleteIfVersion_of_ne hv,
        Bool.false_eq_true, ↓reduceIte, Program.pure_eq_ret, Program.interfered_ret] at h
      exact .inr ⟨hv, h.1⟩

theorem only_rollback_conditional (applied : List AppliedWrite) :
    (rollbackAppliedWrites applied).Only fun op => ∃ a ∈ applied,
      conditionalKey op = some a.key := by
  induction applied with
  | nil => trivial
  | cons a older ih =>
    have hrest : ∀ undone : Bool, (if undone = true then rollbackAppliedWrites older
        else return some (ascii "fallback rollback failed for " ++ a.key)).Only
          fun op => ∃ a' ∈ a :: older, conditionalKey op = some a'.key := by
      intro undone
      split
      next => exact ih.mono fun op ⟨a', ha', hop⟩ => ⟨a', List.mem_cons_of_mem _ ha', hop⟩
      next => trivial
    rw [rollbackAppliedWrites]
    split
    next => exact ⟨⟨a, List.mem_cons_self, rfl⟩, hrest⟩
    next => exact ⟨⟨a, List.mem_cons_self, rfl⟩, hrest⟩

/-- An undo leaves every key alone that is none of those it takes back. -/
theorem rollback_frame {applied : List AppliedWrite} {r : Option Bytes}
    (h : (rollbackAppliedWrites applied).Interfered (handle .nonBatchMemory) tr r)
    (hk : k ∉ applied.map AppliedWrite.key) :
    ∀ u ∈ tr, conditionalKey u.op ≠ some k ∧ left u k = met u k := by
  intro u hu
  obtain ⟨a, ha, hop⟩ := (only_rollback_conditional applied).interfered h u hu
  have hne : k ≠ a.key := fun heq => hk (heq ▸ List.mem_map_of_mem ha)
  refine ⟨fun hsame => hne ?_, left_of_conditional hop hne⟩
  rw [hop] at hsame
  exact (Option.some.inj hsame).symm

/-- Each key is taken back at most once, so an undo is steady. -/
theorem steady_rollback {applied : List AppliedWrite} {r : Option Bytes}
    (hsound : ∀ a ∈ applied, a.Sound) (hnodup : (applied.map AppliedWrite.key).Nodup)
    (h : (rollbackAppliedWrites applied).Interfered (handle .nonBatchMemory) tr r) : Steady tr := by
  induction applied generalizing tr with
  | nil =>
    obtain ⟨rfl, -⟩ := Program.interfered_ret.1 h
    exact List.Pairwise.nil
  | cons a older ih =>
    rw [List.map_cons, List.nodup_cons] at hnodup
    rw [List.forall_mem_cons] at hsound
    obtain ⟨u, rest, rfl, hop, ⟨-, -, hrest⟩ | ⟨-, rfl⟩⟩ := interfered_rollback_cons hsound.1 h
    · rw [steady_cons_of_last hop fun u' hu' => (rollback_frame hrest hnodup.1 u' hu').1]
      exact ih hsound.2 hnodup.2 hrest
    · exact List.pairwise_singleton _ _

/-- The undo of the write of an undisturbed key, behind newer ones. -/
theorem rollback_reaches {newer older : List AppliedWrite} {a : AppliedWrite} {r : Option Bytes}
    (hsound : ∀ a' ∈ newer ++ a :: older, a'.Sound)
    (hnodup : ((newer ++ a :: older).map AppliedWrite.key).Nodup)
    (h : (rollbackAppliedWrites (newer ++ a :: older)).Interfered (handle .nonBatchMemory) tr r)
    (hv : v.version = a.previousVersion + 1) (hstill : Undisturbed a.key v tr w) :
    MeetsAll newer tr ∧ SameContent (w.store.get a.key) a.content ∨ ¬MeetsAll newer tr ∧
      w.store.get a.key = v := by
  induction newer generalizing tr v with
  | nil =>
    rw [List.nil_append, List.map_cons, List.nodup_cons] at hnodup
    rw [List.nil_append, List.forall_mem_cons] at hsound
    obtain ⟨u, rest, rfl, hop, ⟨-, hcontent, hrest⟩ | ⟨hrefused, -⟩⟩ :=
      interfered_rollback_cons hsound.1 h
    · refine .inl ⟨fun a' ha' => absurd ha' List.not_mem_nil, ?_⟩
      rw [hstill.2.get_eq fun u' hu' => (rollback_frame hrest hnodup.1 u' hu').2]
      exact hcontent
    · rw [hstill.1] at hrefused
      exact absurd hv hrefused
  | cons a' newer ih =>
    rw [List.cons_append, List.map_cons, List.nodup_cons] at hnodup
    rw [List.cons_append, List.forall_mem_cons] at hsound
    have hne : a.key ≠ a'.key := fun heq => hnodup.1 (heq ▸ List.mem_map_of_mem (by simp))
    obtain ⟨u, rest, rfl, hop, ⟨hmeets, -, hrest⟩ | ⟨hrefused, rfl⟩⟩ :=
      interfered_rollback_cons hsound.1 h
    · have hother : ∀ e ∈ [u], ∀ b ∈ newer, conditionalKey e.op ≠ some b.key := by
        intro e he b hb heq
        rw [List.mem_singleton.1 he, hop] at heq
        refine hnodup.1 ?_
        rw [Option.some.inj heq]
        exact List.mem_map_of_mem (List.mem_append_left _ hb)
      have hall : MeetsAll (a' :: newer) (u :: rest) ↔ MeetsAll newer rest := by
        rw [meetsAll_cons, ← List.singleton_append, meetsAll_append_of_other hother]
        refine and_iff_right (List.forall_mem_cons.2 ⟨fun _ => hmeets, fun u' hu' hkey => ?_⟩)
        exact absurd hkey (rollback_frame hrest hnodup.1 u' hu').1
      rw [hall]
      rw [← List.singleton_append] at hstill
      refine ih hsound.2 hnodup.2 hrest hv (hstill.of_append fun e he => ?_)
      rw [List.mem_singleton.1 he]
      exact left_of_conditional hop hne
    · refine .inr ⟨fun hall => hrefused (hall a' List.mem_cons_self u List.mem_cons_self hop), ?_⟩
      have hend : w.store.get a.key = left u a.key := hstill.2
      rw [hend, left_of_conditional hop hne]
      exact hstill.1

/-! ### The commit loop -/

section Commit

variable {expected : UnorderedMap UInt64} {writes : List WriteOp} {applied : List AppliedWrite}
  {reason : Bytes}

/-- One round of a commit that fails: it loses here, or it writes and fails later. -/
theorem interfered_apply_cons {write : WriteOp} (hexpected : (expected.lookup write.key).isSome)
    (h : (applyWithoutBatch expected (write :: writes) applied).Interfered
      (handle .nonBatchMemory) tr (.error reason)) :
    ∃ look : World,
      (∃ lost undo r, tr = (⟨.get write.key, look⟩ :: lost) ++ undo ∧
        (∀ e ∈ lost, conditionalKey e.op = some write.key ∧ ¬Puts write.key e) ∧
        (rollbackAppliedWrites applied).Interfered (handle .nonBatchMemory) undo r) ∨
      ∃ put rest a, tr = [⟨.get write.key, look⟩, put] ++ rest ∧ Puts write.key put ∧
        a.key = write.key ∧ a.Sound ∧ SameContent a.content (look.store.get write.key) ∧
        (left put write.key).version = a.previousVersion + 1 ∧
        (applyWithoutBatch expected writes (a :: applied)).Interfered (handle .nonBatchMemory)
          rest (.error reason) := by
  obtain ⟨version, hversion⟩ := Option.isSome_iff_exists.1 hexpected
  rw [applyWithoutBatch, hversion] at h
  simp only at h
  rw [Store.get_bind, Program.interfered_call] at h
  obtain ⟨look, tr, rfl, h⟩ := h
  rw [handle_get] at h
  refine ⟨look, ?_⟩
  split at h
  next =>
    obtain ⟨undo, r, es, rfl, hundo, hret⟩ := Program.interfered_bind.1 h
    obtain ⟨rfl, -⟩ := Program.interfered_ret.1 hret
    exact .inl ⟨[], undo, r, by simp, fun e he => absurd he List.not_mem_nil, hundo⟩
  next hcurrent =>
    rw [not_not] at hcurrent
    rw [Store.putIfVersion_bind, Program.interfered_call] at h
    obtain ⟨before, tr, rfl, h⟩ := h
    by_cases hv : before.store.getVersion write.key = version
    · simp only [handle, World.withStore, MemoryKVStore.putIfVersion_of_eq _ hv,
        Bool.not_true, Bool.false_eq_true, ↓reduceIte] at h
      refine .inr ⟨_, tr, _, rfl, ⟨version, write.value, rfl, hv⟩, rfl, ?_, ⟨rfl, rfl⟩, ?_, h⟩
      · intro hmissing
        exact congrArg VersionedValue.value (MemoryKVStore.version_of_not_exists hmissing)
      · rw [left_put hv, hcurrent]
    · simp only [handle, World.withStore, MemoryKVStore.putIfVersion_of_ne _ hv,
        Bool.not_false, ↓reduceIte] at h
      obtain ⟨undo, r, es, rfl, hundo, hret⟩ := Program.interfered_bind.1 h
      obtain ⟨rfl, -⟩ := Program.interfered_ret.1 hret
      refine .inl ⟨[_], undo, r, by simp; rfl, ?_, hundo⟩
      intro e he
      rw [List.mem_singleton.1 he]
      refine ⟨rfl, ?_⟩
      rintro ⟨version', value', hop, hmet⟩
      cases hop
      exact hv hmet

/-- From the write of an undisturbed key on, with newer writes already made. -/
theorem apply_reaches {newer older : List AppliedWrite} {a : AppliedWrite}
    (hexpected : ∀ write ∈ writes, (expected.lookup write.key).isSome)
    (hsound : ∀ a' ∈ newer ++ a :: older, a'.Sound)
    (hnodup : ((newer ++ a :: older).map AppliedWrite.key ++ writes.map WriteOp.key).Nodup)
    (h : (applyWithoutBatch expected writes (newer ++ a :: older)).Interfered
      (handle .nonBatchMemory) tr (.error reason))
    (hv : v.version = a.previousVersion + 1) (hstill : Undisturbed a.key v tr w) :
    (Steady tr ∧ MeetsAll newer tr) ∧ SameContent (w.store.get a.key) a.content ∨
      ¬(Steady tr ∧ MeetsAll newer tr) ∧ w.store.get a.key = v := by
  induction writes generalizing newer tr v with
  | nil => simp [applyWithoutBatch] at h
  | cons write writes ih =>
    rw [List.forall_mem_cons] at hexpected
    have hnew : ∀ a' ∈ newer ++ a :: older, write.key ≠ a'.key := by
      intro a' ha' heq
      exact (List.nodup_append.1 hnodup).2.2 _ (List.mem_map_of_mem ha') _ (by simp) heq.symm
    have hother : ∀ {op : Call} {a' : AppliedWrite}, a' ∈ newer →
      conditionalKey op = some write.key →
        conditionalKey op ≠ some a'.key := by
      intro op a' ha' hop heq
      rw [hop] at heq
      exact hnew a' (List.mem_append_left _ ha') (Option.some.inj heq)
    have hself : a.key ≠ write.key := (hnew a (by simp)).symm
    obtain ⟨look, ⟨lost, undo, r, rfl, hlost, hundo⟩ | ⟨put, rest, a', rfl, hput, hkey,
        ha', -, hversion, hrest⟩⟩ :=
      interfered_apply_cons hexpected.1 h
    · have hsteady : Steady (⟨.get write.key, look⟩ :: lost ++ undo) := by
        rw [steady_append_of_not_puts]
        · exact steady_rollback hsound (List.nodup_append.1 hnodup).1 hundo
        · rw [List.forall_mem_cons]
          refine ⟨fun k' hputs => ?_, fun e he k' hputs => ?_⟩
          · cases hputs.conditional
          · have hkey := (hlost e he).1
            rw [hputs.conditional] at hkey
            cases hkey
            exact (hlost e he).2 hputs
      rw [and_iff_right hsteady, meetsAll_append_of_other]
      · refine rollback_reaches hsound (List.nodup_append.1 hnodup).1 hundo hv (hstill.of_append ?_)
        rw [List.forall_mem_cons]
        exact ⟨rfl, fun e he => left_of_conditional (hlost e he).1 hself⟩
      · rw [List.forall_mem_cons]
        exact ⟨fun b hb => nofun, fun e he b hb => hother hb (hlost e he).1⟩
    · have hmeets : Steady ([⟨.get write.key, look⟩, put] ++ rest) ∧
          MeetsAll newer ([⟨.get write.key, look⟩, put] ++ rest) ↔ Steady rest ∧
              MeetsAll (a' :: newer) rest := by
        rw [meetsAll_append_of_other, meetsAll_cons, List.cons_append, ← List.singleton_append,
          steady_append_of_not_puts, List.singleton_append, steady_put_cons hput, hkey, hversion]
        · tauto
        · intro e he k' hputs
          rw [List.mem_singleton.1 he] at hputs
          cases hputs.conditional
        · simp only [List.forall_mem_cons, List.not_mem_nil, false_implies, implies_true, and_true]
          exact ⟨fun b hb => nofun, fun b hb => hother hb hput.conditional⟩
      rw [hmeets]
      refine @ih _ _ (a' :: newer) hexpected.2 (List.forall_mem_cons.2 ⟨ha', hsound⟩) ?_
        hrest hv (hstill.of_append ?_)
      · rw [List.map_append, List.map_cons, hkey] at *
        exact (List.perm_middle.nodup_iff).1 hnodup
      · simp only [List.forall_mem_cons, List.not_mem_nil, false_implies, implies_true, and_true]
        exact ⟨rfl, left_of_conditional hput.conditional hself⟩

/-- What becomes of an undisturbed key that a failing commit has written. -/
theorem apply_restores (hexpected : ∀ write ∈ writes, (expected.lookup write.key).isSome)
    (hsound : ∀ a ∈ applied, a.Sound)
    (hnodup : (applied.map AppliedWrite.key ++ writes.map WriteOp.key).Nodup)
    (h : (applyWithoutBatch expected writes applied).Interfered (handle .nonBatchMemory) tr
      (.error reason))
    (hk : k ∉ applied.map AppliedWrite.key) (hwrites : Writes k tr front e rest)
    (hstill : Undisturbed k (left e k) rest w) :
    Steady rest ∧ (SameContent (w.store.get k) (met e k) ↔ ReadAsMet k front e) ∨
      ¬Steady rest ∧ w.store.get k = left e k := by
  obtain ⟨hsplit, hputs, hfirst⟩ := hwrites
  induction writes generalizing applied tr front with
  | nil => simp [applyWithoutBatch] at h
  | cons write writes ih =>
    rw [List.forall_mem_cons] at hexpected
    obtain ⟨look, ⟨lost, undo, r, rfl, hlost, hundo⟩ | ⟨put, rest', a, rfl, hput, hkey, ha,
        hread, hversion, hrest⟩⟩ :=
      interfered_apply_cons hexpected.1 h
    · -- the last round writes nothing, and the undo is of other keys
      have he : e ∈ ⟨.get write.key, look⟩ :: lost ++ undo := by
        rw [hsplit]
        exact List.mem_append_right _ List.mem_cons_self
      rcases List.mem_append.1 he with hround | hlater
      · rcases List.mem_cons.1 hround with rfl | he
        · cases hputs.conditional
        · have hsame := (hlost e he).1
          rw [hputs.conditional] at hsame
          cases hsame
          exact absurd hputs (hlost e he).2
      · exact absurd hputs.conditional (rollback_frame hundo hk e hlater).1
    · have hkeys : ((a :: applied).map AppliedWrite.key ++ writes.map WriteOp.key).Nodup := by
        rw [List.map_cons, hkey]
        exact (List.perm_middle.nodup_iff).1 hnodup
      have hsounds : ∀ a' ∈ a :: applied, a'.Sound := List.forall_mem_cons.2 ⟨ha, hsound⟩
      rcases front with _ | ⟨x, _ | ⟨y, front'⟩⟩
      · rw [List.nil_append] at hsplit
        obtain ⟨rfl, -⟩ := hsplit
        cases hputs.conditional
      · simp only [List.cons_append, List.nil_append, List.cons.injEq] at hsplit
        obtain ⟨rfl, rfl, rfl⟩ := hsplit
        have hsame := hput.conditional
        rw [hputs.conditional] at hsame
        cases hsame
        have hlook : ReadAsMet write.key [⟨.get write.key, look⟩] put ↔
            SameContent (look.store.get write.key) (met put write.key) := by
          rw [ReadAsMet, List.forall_mem_singleton]
          exact ⟨fun h => h rfl, fun h _ => h⟩
        have hreach := @apply_reaches _ _ _ _ _ _ [] applied a hexpected.2 hsounds hkeys hrest
          hversion (by rw [hkey]; exact hstill)
        have hnone : MeetsAll [] rest' := fun a' ha' => absurd ha' List.not_mem_nil
        rw [hkey, and_iff_left hnone] at hreach
        rw [hlook]
        refine hreach.imp (And.imp_right fun hback => ?_) id
        exact ⟨fun hsame => hread.symm.trans (hback.symm.trans hsame), fun hsame =>
          hback.trans (hread.trans hsame)⟩
      · simp only [List.cons_append, List.nil_append, List.cons.injEq] at hsplit
        obtain ⟨rfl, rfl, rfl⟩ := hsplit
        simp only [List.forall_mem_cons] at hfirst
        have hne : k ≠ write.key := by
          rintro rfl
          exact hfirst.2.1 hput.conditional
        have hlooks : ReadAsMet k (⟨.get write.key, look⟩ :: put :: front') e ↔
            ReadAsMet k front' e := by
          rw [ReadAsMet, List.forall_mem_cons, List.forall_mem_cons]
          refine ⟨fun h => h.2.2, fun h => ⟨fun hop => ?_, fun hop => ?_, h⟩⟩
          · cases hop
            exact absurd rfl hne
          · have hput' := hput.conditional
            rw [hop] at hput'
            cases hput'
        rw [hlooks]
        refine ih hexpected.2 hsounds hkeys hrest ?_ rfl hfirst.2.2
        rw [List.map_cons, hkey, List.mem_cons, not_or]
        exact ⟨hne, hk⟩

theorem isSome_expectedVersions {checks : List VersionCheck} {key : Bytes}
    (h : ∃ check ∈ checks, check.key = key) :
    ((expectedVersions checks).lookup key).isSome := by
  obtain ⟨check, hcheck, hkey⟩ := h
  have hfound : (checks.reverse.find? fun check => check.key = key).isSome :=
    List.find?_isSome.2 ⟨check, List.mem_reverse.2 hcheck, by simpa using hkey⟩
  rw [expectedVersions, UnorderedMap.lookup_assignAll, Option.isSome_or, Option.isSome_map, hfound,
    Bool.true_or]

/-- A plain commit that returns false has brought back the content of every key that it
wrote and nobody else has touched since, exactly if its undo reached each such key and
knew what was there before, or has only failed to change back what was not changed. -/
theorem commitWinnerWithoutBatch_restores_iff (txn : AgentTxnContext) (checks : List VersionCheck)
    (writes : List WriteOp) (tr : List (Event Call World)) (w : World) (reason : Bytes)
    (hpath : txn.fallbackCommit.artifactPath = []) (hnodup : (writes.map WriteOp.key).Nodup)
    (hchecks : ∀ write ∈ writes, ∃ check ∈ checks, check.key = write.key)
    (hfalse : (commitWinnerWithoutBatch txn checks writes).Interfered (handle .nonBatchMemory) tr
      (.error reason)) :
    RestoresUntouched tr w ↔ UndoReaches tr w := by
  rw [commitWinnerWithoutBatch, if_neg (not_not.2 hpath)] at hfalse
  have hexpected : ∀ write ∈ writes, ((expectedVersions checks).lookup write.key).isSome :=
    fun write hwrite => isSome_expectedVersions (hchecks write hwrite)
  have hkey : ∀ {k front e rest}, Writes k tr front e rest → Undisturbed k (left e k) rest w →
      (SameContent (w.store.get k) (met e k) ↔
        Steady rest ∧ ReadAsMet k front e ∨ ¬Steady rest ∧ SameContent (left e k) (met e k)) := by
    intro k front e rest hwrites hstill
    rcases apply_restores hexpected (fun a ha => absurd ha List.not_mem_nil) hnodup
      hfalse List.not_mem_nil hwrites
      hstill with ⟨hsteady, hrestored⟩ | ⟨hunsteady, hstays⟩
    · rw [hrestored]
      tauto
    · rw [hstays]
      tauto
  constructor
  · exact fun h k front e rest hwrites hstill =>
      (hkey hwrites hstill).1 (h k front e rest hwrites hstill)
  · exact fun h k front e rest hwrites hstill =>
      (hkey hwrites hstill).2 (h k front e rest hwrites hstill)

end Commit

/-! ### Three keys and a foreign writer -/

def newKeys : List VersionCheck := [⟨ascii "a", 0⟩, ⟨ascii "b", 0⟩, ⟨ascii "c", 0⟩]

def threeWrites : List WriteOp :=
  [⟨ascii "a", ascii "2"⟩, ⟨ascii "b", ascii "2"⟩, ⟨ascii "c", ascii "2"⟩]

/-- The world with these writes and no others. -/
def having (writes : List WriteOp) : World where
  store := MemoryKVStore.applyWrites {} writes

/-- Two writes are made, but the third key is there already. -/
def losesThird (lost : World) : List (Event Call World) :=
  [⟨.get (ascii "a"), {}⟩, ⟨.putIfVersion (ascii "a") 0 (ascii "2"), {}⟩,
    ⟨.get (ascii "b"), having [⟨ascii "a", ascii "2"⟩]⟩,
    ⟨.putIfVersion (ascii "b") 0 (ascii "2"), having [⟨ascii "a", ascii "2"⟩]⟩,
    ⟨.get (ascii "c"), lost⟩]

/-- The foreign writer has written the third key only. -/
theorem commitWinnerWithoutBatch_restores_steady :
    let lost := having [⟨ascii "c", ascii "x"⟩, ⟨ascii "a", ascii "2"⟩, ⟨ascii "b", ascii "2"⟩]
    let undone := having [⟨ascii "c", ascii "x"⟩, ⟨ascii "a", ascii "2"⟩]
    let tr := losesThird lost ++
      [⟨.deleteIfVersion (ascii "b") 1, lost⟩, ⟨.deleteIfVersion (ascii "a") 1, undone⟩]
    RestoresUntouched tr (having [⟨ascii "c", ascii "x"⟩]) ↔
        UndoReaches tr (having [⟨ascii "c", ascii "x"⟩]) := by
  intro lost undone tr
  refine commitWinnerWithoutBatch_restores_iff {} newKeys threeWrites tr
    _ (ascii "fallback write version changed for c")
    rfl (by decide) (by decide) ?_
  exact .call _ _ _ (.call
    _ _ _ (.call _ _ _ (.call _ _ _ (.call _ _ _ (.call _ _ _ (.call _ _ _ (.ret _)))))))

/-- It has written the second key too. The undo ends there, and the first key stays as the
commit wrote it though nobody else has touched it. -/
theorem commitWinnerWithoutBatch_not_restores :
    ¬∀ (txn : AgentTxnContext) (checks : List VersionCheck) (writes : List WriteOp)
      (tr : List (Event Call World))
      (w : World) (reason : Bytes), txn.fallbackCommit.artifactPath = [] →
        (writes.map WriteOp.key).Nodup →
      (∀ write ∈ writes, ∃ check ∈ checks, check.key = write.key) →
      (commitWinnerWithoutBatch txn checks writes).Interfered (handle .nonBatchMemory) tr
        (.error reason) →
      RestoresUntouched tr w := by
  intro h
  let lost := having (threeWrites.take 2 ++ [⟨ascii "b", ascii "x"⟩, ⟨ascii "c", ascii "x"⟩])
  have hrun : (commitWinnerWithoutBatch {} newKeys threeWrites).Interfered (handle .nonBatchMemory)
      (losesThird lost ++ [⟨.deleteIfVersion (ascii "b") 1, lost⟩])
          (.error (ascii "fallback rollback failed for b")) :=
    .call _ _ _ (.call _ _ _ (.call _ _ _ (.call _ _ _ (.call _ _ _ (.call _ _ _ (.ret _))))))
  have hwrites : Writes (ascii "a") (losesThird lost ++ [⟨.deleteIfVersion (ascii "b") 1, lost⟩])
      [⟨.get (ascii "a"), {}⟩] ⟨.putIfVersion (ascii "a") 0 (ascii "2"), {}⟩
      ((losesThird lost).drop 2 ++ [⟨.deleteIfVersion (ascii "b") 1, lost⟩]) := by
    refine ⟨rfl, ⟨0, ascii "2", rfl, rfl⟩, fun e he => ?_⟩
    rw [List.mem_singleton.1 he]
    exact nofun
  have hback := h {} newKeys threeWrites _ lost _ rfl (by decide) (by decide) hrun _ _ _ _ hwrites
    ⟨rfl, rfl, rfl, rfl, rfl⟩
  exact absurd hback.2 (by decide)

end DataAgentSystem.AgentTxn
