import DataAgentSystem.AgentTxn.CommitWithoutBatch

/-! What a fallback commit knows of its reads when it makes its first write. Validation
has looked at the version of every object that is not rebased; from then on only
the objects to be written are looked at again, and at the first conditional write
only the one that is written. A foreign write to any other object in between goes
unnoticed. -/

namespace DataAgentSystem.AgentTxn

open Text Intent Cache Branch Storage Interaction Containers

variable {kind : StoreKind}

/-- The call is a conditional write. -/
def isConditionalWrite : Call → Bool
  | .putIfVersion _ _ _ => true
  | _ => false

/-- The call neither writes under a condition nor asks for a version. -/
def isQuiet : Call → Bool
  | .putIfVersion _ _ _ | .getVersion _ => false
  | _ => true

/-- The first conditional write of a run. -/
def firstPut (tr : List (Event Call World)) : Option (Event Call World) :=
  tr.find? fun e => isConditionalWrite e.op

/-- The calls before the first conditional write. -/
def beforePut (tr : List (Event Call World)) : List (Event Call World) :=
  tr.takeWhile fun e => !isConditionalWrite e.op

theorem firstPut_append (tr tr' : List (Event Call World)) :
    firstPut (tr ++ tr') = (firstPut tr).or (firstPut tr') :=
  List.find?_append

theorem firstPut_eq_none_iff {tr : List (Event Call World)} :
    firstPut tr = none ↔ ∀ e ∈ tr, isConditionalWrite e.op = false := by
  simp [firstPut, List.find?_eq_none]

theorem beforePut_append_of_none {tr : List (Event Call World)} (h : firstPut tr = none)
    (tr' : List (Event Call World)) :
    beforePut (tr ++ tr') = tr ++ beforePut tr' :=
  List.takeWhile_append_of_pos fun e he => by rw [firstPut_eq_none_iff.1 h e he]; rfl

theorem beforePut_append_of_some {tr : List (Event Call World)} {e : Event Call World}
    (h : firstPut tr = some e) (tr' : List (Event Call World)) :
    beforePut (tr ++ tr') = beforePut tr := by
  induction tr with
  | nil => cases h
  | cons first tr ih =>
    unfold beforePut at ih ⊢
    rw [List.cons_append]
    cases hop : isConditionalWrite first.op with
    | true =>
      rw [List.takeWhile_cons_of_neg (by simp [hop]), List.takeWhile_cons_of_neg (by simp [hop])]
    | false =>
      rw [firstPut, List.find?_cons, hop] at h
      rw [List.takeWhile_cons_of_pos (by simp [hop]),
        List.takeWhile_cons_of_pos (by simp [hop]), ih h]

/-- The first conditional write of a run meets the version that is expected of it,
and nobody has asked for a version before. -/
structure PutsExpected (expected : UnorderedMap UInt64) (tr : List (Event Call World)) : Prop where
  quiet : ∀ e ∈ beforePut tr, isQuiet e.op = true
  met : ∀ e, firstPut tr = some e → ∃ key version value, e.op = .putIfVersion key version value ∧
    expected.lookup key = some version ∧ e.before.store.getVersion key = version

variable {expected : UnorderedMap UInt64} {tr tr' : List (Event Call World)}

theorem putsExpected_of_quiet (h : ∀ e ∈ tr, isQuiet e.op = true) : PutsExpected expected tr := by
  refine ⟨fun e he => h e ((List.takeWhile_sublist _).subset he), fun e he => ?_⟩
  have hquiet := h e (List.mem_of_find?_eq_some he)
  have hput := List.find?_some he
  cases hop : e.op <;> simp [hop, isQuiet, isConditionalWrite] at hquiet hput

theorem PutsExpected.append (h : PutsExpected expected tr) (h' : PutsExpected expected tr') :
    PutsExpected expected (tr ++ tr') := by
  cases hfirst : firstPut tr with
  | none =>
    have hbefore : beforePut tr = tr := by
      have happend := beforePut_append_of_none hfirst []
      rw [List.append_nil] at happend
      exact happend.trans (List.append_nil _)
    constructor
    · rw [beforePut_append_of_none hfirst, List.forall_mem_append]
      exact ⟨hbefore ▸ h.quiet, h'.quiet⟩
    · rw [firstPut_append, hfirst, Option.none_or]
      exact h'.met
  | some e =>
    constructor
    · rw [beforePut_append_of_some hfirst]
      exact h.quiet
    · rw [firstPut_append, hfirst, Option.some_or]
      exact fun e' he' => h.met e' (hfirst.trans he')

theorem PutsExpected.cons {e : Event Call World} (he : isQuiet e.op = true)
    (h : PutsExpected expected tr) :
    PutsExpected expected (e :: tr) := by
  have hone : PutsExpected expected [e] := putsExpected_of_quiet fun e' he' => by
    rw [List.mem_singleton.1 he', he]
  exact hone.append h

/-- A conditional write that is carried out at the expected version. -/
theorem putsExpected_put {key value : Bytes} {version : UInt64} {w : World}
    (hexpected : expected.lookup key = some version) (hversion : w.store.getVersion key = version) :
    PutsExpected expected (⟨.putIfVersion key version value, w⟩ :: tr) := by
  constructor
  · intro e he
    cases he
  · intro e he
    cases he
    exact ⟨key, version, value, rfl, hexpected, hversion⟩

namespace CommitManager

/-- A plain commit that succeeds. -/
theorem applyWithoutBatch_putsExpected {writes : List WriteOp} {applied : List AppliedWrite}
    (h : (applyWithoutBatch expected writes applied).Interfered (handle kind) tr (.ok ())) :
    PutsExpected expected tr := by
  cases writes with
  | nil =>
    obtain ⟨rfl, -⟩ := Program.interfered_ret.1 h
    exact putsExpected_of_quiet fun e he => absurd he List.not_mem_nil
  | cons write writes =>
    rw [applyWithoutBatch] at h
    split at h
    next => simp at h
    next version hversion =>
      rw [Store.get_bind, Program.interfered_call] at h
      obtain ⟨w, rest, rfl, h⟩ := h
      apply PutsExpected.cons rfl
      split at h
      next =>
        obtain ⟨es, reason, es', -, -, hret⟩ := Program.interfered_bind.1 h
        simp at hret
      next =>
        rw [Store.putIfVersion_bind, Program.interfered_call] at h
        obtain ⟨w', rest', rfl, h⟩ := h
        split at h
        next =>
          obtain ⟨es, reason, es', -, -, hret⟩ := Program.interfered_bind.1 h
          simp at hret
        next hanswer =>
          have hmet : w'.store.getVersion write.key = version := by
            simpa [handle, World.withStore] using hanswer
          exact putsExpected_put hversion hmet

theorem prepareEntries_expected {writes : List WriteOp}
    {entries entries' : List FallbackCommitEntry}
    (h : (prepareEntries expected writes entries).Interfered (handle kind) tr (.ok entries'))
    (hentries : ∀ e ∈ entries, expected.lookup e.key = some e.expectedVersion) :
    ∀ e ∈ entries', expected.lookup e.key = some e.expectedVersion := by
  induction writes generalizing entries tr with
  | nil =>
    obtain ⟨-, heq⟩ := Program.interfered_ret.1 h
    cases heq
    exact hentries
  | cons write writes ih =>
    rw [prepareEntries] at h
    split at h
    next => simp at h
    next version hversion =>
      rw [Store.get_bind, Program.interfered_call] at h
      obtain ⟨w, rest, rfl, h⟩ := h
      split at h
      next => simp at h
      next =>
        refine ih h fun e he => ?_
        rcases List.mem_append.1 he with hold | hnew
        · exact hentries e hold
        · rw [List.mem_singleton.1 hnew]
          exact hversion

theorem applyEntries_putsExpected {config : FallbackCommitConfig}
    {entries : List FallbackCommitEntry} {artifact artifact' : FallbackCommitArtifact}
    (h : (applyEntries config entries artifact).Interfered (handle kind) tr (.ok artifact'))
    (hentries : ∀ e ∈ entries, expected.lookup e.key = some e.expectedVersion) :
    PutsExpected expected tr := by
  cases entries with
  | nil =>
    obtain ⟨rfl, -⟩ := Program.interfered_ret.1 h
    exact putsExpected_of_quiet fun e he => absurd he List.not_mem_nil
  | cons entry entries =>
    rw [applyEntries, Store.get_bind, Program.interfered_call] at h
    obtain ⟨w, rest, rfl, h⟩ := h
    apply PutsExpected.cons rfl
    split at h
    next =>
      obtain ⟨es, reason, es', -, -, hret⟩ := Program.interfered_bind.1 h
      simp at hret
    next =>
      rw [Store.putIfVersion_bind, Program.interfered_call] at h
      obtain ⟨w', rest', rfl, h⟩ := h
      split at h
      next =>
        obtain ⟨es, reason, es', -, -, hret⟩ := Program.interfered_bind.1 h
        simp at hret
      next hanswer =>
        have hmet : w'.store.getVersion entry.key = entry.expectedVersion := by
          simpa [handle, World.withStore] using hanswer
        exact putsExpected_put (hentries entry List.mem_cons_self) hmet

/-- A crash-safe commit that succeeds. -/
theorem commitPrepared_putsExpected {config : FallbackCommitConfig}
    {artifact : FallbackCommitArtifact}
    (h : (commitPrepared config artifact).Interfered (handle kind) tr (.ok ()))
    (hentries : ∀ e ∈ artifact.entries, expected.lookup e.key = some e.expectedVersion) :
    PutsExpected expected tr := by
  rw [commitPrepared, writeFallbackCommitArtifact, Files.replace_bind, Program.interfered_call] at h
  obtain ⟨w, rest, rfl, h⟩ := h
  apply PutsExpected.cons rfl
  simp only [handle_replaceFile, Bool.not_true, Bool.false_eq_true, ↓reduceIte] at h
  obtain ⟨applying, applied, ending, rfl, happly, hend⟩ := Program.interfered_bind.1 h
  cases applied with
  | error reason => simp at hend
  | ok artifact' =>
    simp only [writeFallbackCommitArtifact, Files.replace_bind, Program.interfered_call] at hend
    obtain ⟨w', rest', rfl, hend⟩ := hend
    simp only [handle_replaceFile, Bool.not_true, Bool.false_eq_true,
      ↓reduceIte, Program.pure_eq_ret, Program.interfered_ret] at hend
    refine (applyEntries_putsExpected happly hentries).append (PutsExpected.cons rfl ?_)
    rw [hend.1]
    exact putsExpected_of_quiet fun e he => absurd he List.not_mem_nil

theorem quiet_of_get {p : Prog α} {a : α} (hp : p.Only fun op => ∃ key, op = .get key)
    (h : p.Interfered (handle kind) tr a) : ∀ e ∈ tr, isQuiet e.op = true := by
  intro e he
  obtain ⟨key, hop⟩ := hp.interfered h e he
  rw [hop]
  rfl

theorem commitWinnerWithoutBatch_putsExpected {txn : AgentTxnContext} {checks : List VersionCheck}
    {writes : List WriteOp}
    (h : (commitWinnerWithoutBatch txn checks writes).Interfered (handle kind) tr (.ok ())) :
    PutsExpected (expectedVersions checks) tr := by
  rw [commitWinnerWithoutBatch] at h
  split at h
  next =>
    obtain ⟨preparing, prepared, committing, rfl, hprepare, hcommit⟩ := Program.interfered_bind.1 h
    cases prepared with
    | error reason => simp at hcommit
    | ok entries =>
      have hentries := prepareEntries_expected hprepare fun e he => absurd he List.not_mem_nil
      have hlooks : PutsExpected (expectedVersions checks) preparing :=
        putsExpected_of_quiet (quiet_of_get (only_prepareEntries _ _ _) hprepare)
      exact hlooks.append (commitPrepared_putsExpected hcommit hentries)
  next => exact applyWithoutBatch_putsExpected h

/-- A fallback commit that succeeds: its first conditional write meets the version
its read set has recorded, unless the object is rebased. -/
theorem commitWinner_putsExpected {txn : AgentTxnContext} {winner : BranchContext} {log : CommitLog}
    (h : (commitWinner txn winner).Interfered (handle .nonBatchMemory) tr (.ok log)) :
    ∃ expected, PutsExpected expected tr ∧ ∀ read ∈ winner.readSet.entries,
      rebased winner read.objectId = false →
      expected.lookup read.objectId = some read.observedVersion := by
  rw [commitWinner_eq] at h
  cases hseen : readChecks winner.readSet.entries ∅ with
  | error reason => simp [hseen] at h
  | ok seen =>
    simp only [hseen] at h
    obtain ⟨resolving, resolved, publishing, rfl, hresolve, hpublish⟩ := Program.interfered_bind.1 h
    have hquiet := quiet_of_get (only_resolveEntries _ _ _ _) hresolve
    cases resolved with
    | error reason => simp at hpublish
    | ok resolved =>
      obtain ⟨seenChecks, writes⟩ := resolved
      simp only [publish, Store.supportsAtomicBatchConditionalWrite_bind,
        Program.interfered_call] at hpublish
      obtain ⟨w, rest, rfl, hpublish⟩ := hpublish
      have hno : decide (StoreKind.nonBatchMemory = .memory) = false := rfl
      simp only [handle, hno, Bool.false_eq_true, ↓reduceIte] at hpublish
      obtain ⟨writing, written, ending, rfl, hwrite, hend⟩ := Program.interfered_bind.1 hpublish
      cases written with
      | error reason => simp at hend
      | ok done =>
        obtain ⟨rfl, -⟩ := Program.interfered_ret.1 hend
        refine ⟨expectedVersions (checksOf seenChecks), ?_, fun read hread hstrict => ?_⟩
        · rw [List.append_nil]
          exact (putsExpected_of_quiet hquiet).append
            ((commitWinnerWithoutBatch_putsExpected hwrite).cons rfl)
        · rw [lookup_expectedVersions_checksOf]
          apply (resolveEntries_strict hresolve ?_).1
          · exact (readChecks_ok hseen).2 read hread
          · intro intent hintent
            rw [rebased, hintent, Option.any_some] at hstrict
            exact hstrict

end CommitManager

namespace AgentTxnManager

open CommitManager

variable {txn txn' : AgentTxnContext} {winner : BranchContext}

/-- A fallback commit that succeeds makes its first write while its reads are still
current, exactly if nobody has moved the version of another object than the one it
writes since validation asked for it. -/
theorem selectWinnerAndCommit_readsCurrent_iff (txn txn' : AgentTxnContext) (winner : BranchContext)
    (hs : Selects txn winner) (tr : List (Event Call World))
    (hrun : (selectWinnerAndCommit txn).Interfered (handle .nonBatchMemory) tr (.ok true, txn'))
    (key value : Bytes) (version : UInt64) (before : World)
    (hfirst : firstPut tr = some ⟨.putIfVersion key version value, before⟩) :
    (∀ read ∈ winner.readSet.entries, rebased winner read.objectId = false →
        before.store.getVersion read.objectId = read.observedVersion) ↔
      ∀ check ∈ beforePut tr, ∀ k, check.op = .getVersion k → k ≠ key →
        before.store.getVersion k = check.before.store.getVersion k := by
  obtain ⟨v, looks, hvalidate,
      ⟨-, -, hfalse, -⟩ | ⟨hv, committing, result, rfl, hcommit, hresult, -⟩⟩ :=
    selectWinnerAndCommit_steps hs hrun
  · cases hfalse
  obtain ⟨log, rfl⟩ : ∃ log, result = .ok log := by
    cases result with
    | error reason => cases hresult
    | ok log => exact ⟨log, rfl⟩
  obtain ⟨hfound, hasked⟩ := ValidationManager.validateReads_success hvalidate hv
  simp only [lookup_latestTypes_any] at hfound hasked
  obtain ⟨expected, hputs, hchecked⟩ := commitWinner_putsExpected hcommit
  have hlooks : firstPut looks = none := by
    rw [firstPut_eq_none_iff]
    intro e he
    obtain ⟨read, -, -, hop, -⟩ := hasked e he
    rw [hop]
    rfl
  rw [firstPut_append, hlooks, Option.none_or] at hfirst
  rw [beforePut_append_of_none hlooks]
  obtain ⟨key', version', value', hop, hexpected, hversion⟩ := hputs.met _ hfirst
  cases hop
  constructor
  · intro hcurrent check hcheck k hop hk
    rcases List.mem_append.1 hcheck with hlook | hquiet
    · obtain ⟨read, hread, hstrict, hasks, hmet⟩ := hasked check hlook
      rw [hop] at hasks
      cases hasks
      rw [hmet]
      exact hcurrent read hread hstrict
    · have h := hputs.quiet check hquiet
      rw [hop] at h
      cases h
  · intro hstill read hread hstrict
    by_cases hk : read.objectId = key
    · have hsame := hchecked read hread hstrict
      rw [hk, hexpected] at hsame
      rw [hk]
      exact hversion.trans (Option.some.inj hsame)
    · obtain ⟨w, hmem, hmet⟩ := hfound read hread hstrict
      rw [← hmet]
      exact hstill _ (List.mem_append_left _ hmem) _ rfl hk

/-- A branch that has read one object and overwrites another. -/
def readingWinner : BranchContext :=
  { BranchManager.recordWrite { branchId := ascii "b" } (BranchManager.newEntry (ascii "k") .generic {})
      .generic { objectId := ascii "k", intentType := .overwrite, payload := ascii "v" } with
    readSet := { entries := [{ objectId := ascii "r", observedVersion := 1 }] } }

def readsAndOverwrites : AgentTxnContext where
  branches := [readingWinner]

def asRead : World where
  store := MemoryKVStore.write {} (ascii "r") (ascii "x")

def movedOn : World where
  store := asRead.store.write (ascii "r") (ascii "y")

/-- Its commit, with the given world after validation. -/
def commitAfter (w : World) : List (Event Call World) :=
  [⟨.getVersion (ascii "r"), asRead⟩, ⟨.get (ascii "k"), w⟩,
    ⟨.supportsAtomicBatchConditionalWrite, w⟩, ⟨.get (ascii "k"), w⟩,
    ⟨.putIfVersion (ascii "k") 0 (ascii "v"), w⟩]

theorem selects_readingWinner : Selects readsAndOverwrites readingWinner := ⟨rfl, rfl⟩

theorem selectWinnerAndCommit_readsCurrent_undisturbed :
    (∀ read ∈ readingWinner.readSet.entries, rebased readingWinner read.objectId = false →
        asRead.store.getVersion read.objectId = read.observedVersion) ↔
      ∀ check ∈ beforePut (commitAfter asRead), ∀ k, check.op = .getVersion k → k ≠ ascii "k" →
        asRead.store.getVersion k = check.before.store.getVersion k :=
  selectWinnerAndCommit_readsCurrent_iff readsAndOverwrites _ readingWinner
    selects_readingWinner (commitAfter asRead)
    (.call _ _ _ (.call _ _ _ (.call _ _ _ (.call _ _ _ (.call _ _ _ (.ret _))))))
      (ascii "k") (ascii "v") 0 asRead rfl

/-- A foreign write to the object that was read, between validation and the first
write, does not keep the commit from returning true. -/
theorem selectWinnerAndCommit_not_readsCurrent :
    ¬∀ (txn txn' : AgentTxnContext) (winner : BranchContext), Selects txn winner →
      ∀ tr, (selectWinnerAndCommit txn).Interfered (handle .nonBatchMemory) tr (.ok true, txn') →
      ∀ key value version before, firstPut tr = some ⟨.putIfVersion key version value, before⟩ →
      ∀ read ∈ winner.readSet.entries, rebased winner read.objectId = false →
        before.store.getVersion read.objectId = read.observedVersion := by
  intro h
  have hrun : ∃ txn', (selectWinnerAndCommit readsAndOverwrites).Interfered (handle .nonBatchMemory)
      (commitAfter movedOn) (.ok true, txn') :=
    ⟨_, .call _ _ _ (.call _ _ _ (.call _ _ _ (.call _ _ _ (.call _ _ _ (.ret _)))))⟩
  obtain ⟨txn', hrun⟩ := hrun
  have hstale := h _ txn' _ selects_readingWinner _ hrun (ascii "k") (ascii "v") 0 movedOn rfl
    { objectId := ascii "r", observedVersion := 1 } List.mem_cons_self rfl
  exact absurd hstale (by decide)

end AgentTxnManager

end DataAgentSystem.AgentTxn
