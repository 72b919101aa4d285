import DataAgentSystem.AgentTxn.CommitWithoutBatch
import DataAgentSystem.AgentTxn.CountedRecovery
import DataAgentSystem.AgentTxn.ReachedTransaction
import DataAgentSystem.AgentTxn.RebasedWrites

/-! A crash-safe commit of deltas among others that write the same counter. What it
prepares adds what is due to the value over which it is prepared, and from then on the
record says how far the commit has got. -/

namespace DataAgentSystem.AgentTxn

open Text Intent Cache Branch Storage Interaction Containers AuthoredLog CommitManager

namespace Party

variable {ι : Type} {p : Party ι} {x y z : Ledger ι} {found : VersionedValue}
  {version : UInt64} {value : Bytes} {e : FallbackCommitEntry}

/-! ### What was held before -/

/-- The key held this after some of the puts. -/
def Held (p : Party ι) (x : Ledger ι) (found : VersionedValue) : Prop :=
  ∃ front rest, x.on p.key = front ++ rest ∧ found = {
    value := standing p.start.value front
    version := p.start.version + UInt64.ofNat front.length
    exists_ := true }

theorem held_of_tells (h : Tells p.key p.start x) : p.Held x (x.world.store.get p.key) :=
  ⟨_, [], (List.append_nil _).symm, h.holds⟩

theorem Held.others_act (h : p.Held x found) (ho : p.Others x y) : p.Held y found := by
  obtain ⟨front, rest, hon, hfound⟩ := h
  obtain ⟨new, hnew, -⟩ := ho.puts
  exact ⟨front, rest ++ new, by rw [hnew, hon, List.append_assoc], hfound⟩

theorem Held.isInteger (h : p.Held x found) (htells : Tells p.key p.start x) :
    IsInteger found.value := by
  obtain ⟨front, rest, hon, rfl⟩ := h
  refine standing_of_forall p.integer fun put hput => htells.integers put ?_
  rw [hon]
  exact List.mem_append_left _ hput

/-- While a party only looks, the key held once what the party finds. -/
theorem withstands_looking {α : Type} {prog : Prog α} (hprog : prog.Only fun op => op.reads = true)
    (h : p.Unprepared x) :
    prog.Withstands p.among p.Inv x fun a y => p.Unprepared y ∧
      (∀ found, p.Held x found → p.Held y found) ∧
        ∃ tr, prog.Interfered (handle .nonBatchMemory) tr a ∧
          ∀ e ∈ tr, p.Held y (e.before.store.get p.key) := by
  induction prog generalizing x with
  | ret a =>
    exact ⟨.inl h, h, fun _ hfound => hfound, [], .ret a,
      fun _ he => absurd he List.not_mem_nil⟩
  | call op next ih =>
    refine ⟨.inl h, fun r y henv => ?_⟩
    obtain ⟨ho, -, rfl⟩ := among_reads hprog.1 henv
    have hy := h.others_act ho
    apply (ih _ (hprog.2 _) hy).mono
    rintro a z - ⟨hz, hkept, tr, hrun, hheld⟩
    refine ⟨hz, fun found hfound => hkept found (hfound.others_act ho), _, .call op next _ hrun, ?_⟩
    exact List.forall_mem_cons.2 ⟨hkept _ (held_of_tells hy.tells), hheld⟩

/-! ### What is due -/

/-- The value adds what is due to what the key held at the version. -/
def Due (p : Party ι) (x : Ledger ι) (version : UInt64) (value : Bytes) : Prop :=
  ∃ found, p.Held x found ∧ found.version = version ∧ IsInteger value ∧
    intValue value ≡ intValue found.value + p.added [ZMOD 2 ^ 64]

theorem Due.keep (h : p.Due x version value) (hkept : ∀ found, p.Held x found → p.Held y found) :
    p.Due y version value := by
  obtain ⟨found, hfound, hrest⟩ := h
  exact ⟨found, hkept found hfound, hrest⟩

theorem Due.others_act (h : p.Due x version value) (ho : p.Others x y) : p.Due y version value :=
  h.keep fun _ hfound => hfound.others_act ho

/-- Deltas leave a number, which adds them up as far as words can. -/
theorem bufferedFrom_adds {intents : List WriteIntent} (h : ∀ intent ∈ intents, IsDelta intent)
    (hvalue : IsInteger value) : IsInteger (bufferedFrom value intents) ∧
      intValue (bufferedFrom value intents) ≡ intValue value + deltaSum intents [ZMOD 2 ^ 64] := by
  refine ⟨replays_delta.keeps value intents hvalue h, ?_⟩
  rw [intValue, (bufferedFrom_delta h hvalue).1, Option.getD_some, Int64.toInt_ofInt]
  exact Int.bmod_emod

section Resolving

variable {B : BaseSpec} {winner : BranchContext} {seen seenChecks : UnorderedMap UInt64}
  {writes : List WriteOp} {tr : List (Event Call World)}

/-- What the party is to add is what its deltas on the key come to. -/
structure Delivers (p : Party ι) (B : BaseSpec) (winner : BranchContext) : Prop where
  synced : Synced B winner
  based : ∀ base, B p.key base → IsInteger base.value
  deltas : ∀ intent ∈ live winner.intentLog.entries p.key, IsDelta intent
  added : p.added = deltaSum (live winner.intentLog.entries p.key)

/-- A commit that resolves its deltas writes what is due, if anything is. -/
theorem Delivers.resolved (h : p.Delivers B winner) (htells : Tells p.key p.start x)
    (hresolve : (resolveEntries (latestIntents winner.intentLog) winner.writeBuffer.orderedEntries
      seen []).Interfered (handle .nonBatchMemory) tr (.ok (seenChecks, writes)))
    (hheld : ∀ e ∈ tr, p.Held x (e.before.store.get p.key)) :
    (writes.map WriteOp.key).Nodup ∧
      (∀ write ∈ writes, write.key = p.key → ∃ version,
        seenChecks.lookup p.key = some version ∧ p.Due x version write.value) ∧
      (p.key ∉ writes.map WriteOp.key → p.added = 0) := by
  obtain ⟨new, rfl, hall⟩ := resolveEntries_resolvedAt hresolve
    winner.writeBuffer.nodup_objectId_orderedEntries
  refine ⟨?_, ?_, ?_⟩
  · rw [keys_of_resolvedAt hall]
    exact (List.filter_sublist.map _).nodup winner.writeBuffer.nodup_objectId_orderedEntries
  · intro write hwrite hkey
    obtain ⟨entry, hentry, hresolved⟩ := exists_mem_of_forall₂ hall.flip hwrite
    have hid : entry.objectId = p.key := hresolved.key.symm.trans hkey
    obtain ⟨intent, w, hlatest, hget, -, hvalue, hchecked⟩ := hresolved.value
    rw [lookup_latestIntents_live, hid] at hlatest
    rw [hid] at hget hvalue hchecked
    obtain ⟨base, hbase, hbuffers⟩ := h.synced.buffers
      (WriteBuffer.mem_orderedEntries.1 (mem_writtenEntries.1 hentry).1)
    rw [hid] at hbase hbuffers
    have hmet := hheld _ hget
    have hcurrent := hmet.isInteger htells
    rw [hvalue, replays_delta.resolves base _ _ entry intent (h.based base hbase) hcurrent h.deltas
      hbuffers hlatest]
    obtain ⟨hinteger, hsum⟩ := bufferedFrom_adds h.deltas hcurrent
    rw [← h.added] at hsum
    have hrebase := replays_delta.semantic intent (h.deltas intent (List.mem_of_getLast? hlatest))
    exact ⟨_, hchecked hrebase, _, hmet, rfl, hinteger, hsum⟩
  · intro habsent
    rw [keys_of_resolvedAt hall] at habsent
    have hnil : live winner.intentLog.entries p.key = [] := by
      by_contra hne
      obtain ⟨intent, hlast⟩ := Option.isSome_iff_exists.1 (List.getLast?_isSome.2 hne)
      have hdelta := h.deltas intent (List.mem_of_getLast? hlast)
      obtain ⟨entry, hentry, hid⟩ := (exists_writtenEntry_iff h.synced p.key).2
        ⟨intent, by rw [lookup_latestIntents_live, hlast], by rw [hdelta.1]; decide⟩
      exact habsent (List.mem_map.2 ⟨entry, hentry, hid⟩)
    rw [h.added, hnil]
    rfl

end Resolving

/-! ### Preparing -/

/-- The entry adds what is due to what the key held when it was prepared. -/
def Adds (p : Party ι) (x : Ledger ι) (e : FallbackCommitEntry) : Prop :=
  ∃ front rest, x.on p.key = front ++ rest ∧ p.PreparedAt front e.targetValue e ∧
    IsInteger e.targetValue ∧
      intValue e.targetValue ≡ intValue (standing p.start.value front) + p.added [ZMOD 2 ^ 64]

theorem Adds.others_act (h : p.Adds x e) (ho : p.Others x y) : p.Adds y e := by
  obtain ⟨front, rest, hon, hentry⟩ := h
  obtain ⟨new, hnew, -⟩ := ho.puts
  exact ⟨front, rest ++ new, by rw [hnew, hon, List.append_assoc], hentry⟩

/-- A version that is found again vouches for the value that stood at it. -/
theorem Due.adds (h : p.Due x version value) (htells : Tells p.key p.start x)
    (hversion : (x.world.store.get p.key).version = version) :
    p.Adds x {
      key := p.key
      expectedVersion := version
      targetValue := value
      previousValue := (x.world.store.get p.key).value
      previousVersion := (x.world.store.get p.key).version
      previousExists := (x.world.store.get p.key).exists_ } := by
  obtain ⟨found, ⟨front, rest, hon, rfl⟩, rfl, hinteger, hsum⟩ := h
  have hfew := htells.few
  have hlength := congrArg List.length hon
  rw [List.length_append] at hlength
  rw [htells.holds] at hversion ⊢
  have hcount := (version_eq_iff hfew (by omega)).1 hversion
  obtain rfl : rest = [] := List.length_eq_zero_iff.1 (by omega)
  rw [List.append_nil] at hon
  subst hon
  exact ⟨_, [], (List.append_nil _).symm, ⟨rfl, rfl, rfl, rfl, rfl⟩, hinteger, hsum⟩

theorem withstands_prepareEntries {expected : UnorderedMap UInt64} {writes : List WriteOp} :
    ∀ {entries : List FallbackCommitEntry} {x : Ledger ι}, p.Unprepared x →
      (∀ write ∈ writes, write.key = p.key → ∃ version,
        expected.lookup p.key = some version ∧ p.Due x version write.value) →
      (∀ e ∈ entries, e.key = p.key → p.Adds x e) →
      (prepareEntries expected writes entries).Withstands p.among p.Inv x fun out y =>
        p.Unprepared y ∧ ∀ entries', out = .ok entries' →
          entries'.map (·.key) = entries.map (·.key) ++ writes.map WriteOp.key ∧
            ∀ e ∈ entries', e.key = p.key → p.Adds y e := by
  induction writes with
  | nil =>
    intro entries x h _ hentries
    refine ⟨.inl h, h, ?_⟩
    rintro _ ⟨⟩
    exact ⟨(List.append_nil _).symm, hentries⟩
  | cons write writes ih =>
    intro entries x h hwrites hentries
    rw [List.forall_mem_cons] at hwrites
    rw [prepareEntries]
    split
    next => exact ⟨.inl h, h, by rintro _ ⟨⟩⟩
    next version hexpected =>
      rw [Store.get_bind, Program.withstands_call]
      refine ⟨.inl h, fun current y henv => ?_⟩
      obtain ⟨ho, -, rfl⟩ := among_reads rfl henv
      have hy := h.others_act ho
      rw [handle_get]
      split
      next => exact ⟨.inl hy, hy, by rintro _ ⟨⟩⟩
      next hversion =>
        rw [not_not] at hversion
        apply (ih hy ?_ ?_).mono
        · rintro out z - ⟨hz, hout⟩
          refine ⟨hz, fun entries' hok => ?_⟩
          obtain ⟨hkeys, hadds⟩ := hout entries' hok
          rw [hkeys, List.map_append, List.append_assoc]
          exact ⟨rfl, hadds⟩
        · intro later hlater hkey
          obtain ⟨v, hv, hdue⟩ := hwrites.2 later hlater hkey
          exact ⟨v, hv, hdue.others_act ho⟩
        · intro e he hkey
          rcases List.mem_append.1 he with hold | hnew
          · exact (hentries e hold hkey).others_act ho
          · obtain rfl := List.mem_singleton.1 hnew
            simp only at hkey ⊢
            obtain ⟨v, hv, hdue⟩ := hwrites.1 hkey
            rw [hkey] at hexpected hversion ⊢
            obtain rfl := Option.some.inj (hv.symm.trans hexpected)
            exact (hdue.others_act ho).adds hy.tells hversion

/-- What the artifact of the party has on the counter is what is due, or nothing is. -/
structure Covers (p : Party ι) (entries : List FallbackCommitEntry) (x : Ledger ι) : Prop where
  nodup : (entries.map (·.key)).Nodup
  adds : ∀ e ∈ entries, e.key = p.key → p.Adds x e
  absent : p.key ∉ entries.map (·.key) → p.added = 0

theorem Covers.others_act {entries : List FallbackCommitEntry} (h : p.Covers entries x)
    (ho : p.Others x y) : p.Covers entries y :=
  ⟨h.nodup, fun e he hkey => (h.adds e he hkey).others_act ho, h.absent⟩

theorem Covers.made {entries : List FallbackCommitEntry} (h : p.Covers entries x)
    (hun : p.Unprepared x) :
    ∃ front rest target, p.Made entries .fresh front rest target (x.on p.key) := by
  by_cases hkey : p.key ∈ entries.map (·.key)
  · obtain ⟨e, he, hid⟩ := List.mem_map.1 hkey
    obtain ⟨front, rest, hon, hentry, hinteger, hsum⟩ := h.adds e he hid
    refine ⟨front, rest, e.targetValue, by rw [hon]; simp [Progress.marks], ?_, ?_,
      fun habsent => absurd hkey habsent, hinteger, hsum⟩
    · rw [← hon]
      exact hun.others
    · intro e' he' hid'
      obtain rfl := List.inj_on_of_nodup_map h.nodup he' he (hid'.trans hid.symm)
      exact hentry
  · refine ⟨x.on p.key, [], standing p.start.value (x.on p.key), by simp [Progress.marks], ?_,
      fun e he hid => absurd (hid ▸ List.mem_map_of_mem he) hkey,
      fun _ => ⟨rfl, h.absent hkey⟩, standing_of_forall p.integer hun.tells.integers, ?_⟩
    · rw [List.append_nil]
      exact hun.others
    · rw [h.absent hkey, add_zero]

/-- The artifact is written, and nothing has been done about it yet. -/
theorem Covers.prepare {artifact : FallbackCommitArtifact} {r : Bool}
    (h : p.Covers artifact.entries x) (hun : p.Unprepared x)
    (henv : p.among (.replaceFile p.path artifact.text) x r z) :
    r = true ∧ p.At artifact.entries artifact.phase .fresh z := by
  obtain ⟨y, ho, -, hanswer, -⟩ := henv
  have hy := hun.others_act ho
  have havoids : Avoids p.key (.replaceFile p.path artifact.text) := trivial
  obtain rfl : z = (y.answer p.actor (.replaceFile p.path artifact.text)).2 :=
    congrArg Prod.snd hanswer
  refine ⟨congrArg Prod.fst hanswer, hy.tells.answer_of_avoids havoids,
    ⟨artifact, AList.lookup_insert _, rfl, rfl⟩, ?_⟩
  rw [(Ledger.answer_of_avoids havoids).2]
  exact (h.others_act ho).made hy

/-! ### Applying -/

section Applying

variable {config : FallbackCommitConfig} {entries todo : List FallbackCommitEntry}
  {artifact : FallbackCommitArtifact} {progress : Progress}

theorem withstands_rollback (reason : Bytes) (hnodup : (entries.map (·.key)).Nodup)
    (hentries : artifact.entries = entries) (h : p.Live entries progress x) :
    (rollbackCrashSafeArtifact artifact p.path reason).Withstands p.among p.Inv x
      fun _ _ => True := by
  rw [rollbackCrashSafeArtifact, Program.withstands_bind]
  apply (withstands_resumeRollback hnodup hentries h).mono
  rintro ⟨rolledBack, artifact, recovery⟩ y hy -
  simp only
  split <;> exact ⟨hy, trivial⟩

theorem withstands_applyEntries (hpath : config.artifactPath = p.path)
    (hnodup : (entries.map (·.key)).Nodup) (hsub : todo ⊆ entries)
    (htodo : (todo.map (·.key)).Nodup) (hentries : artifact.entries = entries)
    (h : p.Live entries progress x) :
    (applyEntries config todo artifact).Withstands p.among p.Inv x fun out y =>
      ∀ artifact', out = .ok artifact' → artifact'.entries = entries ∧
        ∃ progress', p.Live entries progress' y ∧
          p.Turns (· = .applied) todo progress progress' := by
  induction todo generalizing x artifact progress with
  | nil =>
    refine ⟨h.inv hnodup, ?_⟩
    rintro _ ⟨⟩
    exact ⟨hentries, progress, h, p.turns_nil _ progress⟩
  | cons e todo ih =>
    obtain ⟨he, hrest⟩ := List.cons_subset.1 hsub
    rw [List.map_cons, List.nodup_cons] at htodo
    have hrollback : ∀ {y : Ledger ι} {progress' : Progress} (reason : Bytes),
        p.Live entries progress' y →
        (rollbackCrashSafeArtifact artifact config.artifactPath reason >>= fun reason =>
          Program.ret (Except.error reason : Except Bytes FallbackCommitArtifact)).Withstands
            p.among p.Inv y fun out z => ∀ artifact', out = .ok artifact' →
              artifact'.entries = entries ∧ ∃ progress', p.Live entries progress' z ∧
                p.Turns (· = .applied) (e :: todo) progress progress' := by
      intro y progress' reason hy
      rw [Program.withstands_bind, hpath]
      exact (withstands_rollback reason hnodup hentries hy).mono
        fun _ _ hinv _ => ⟨hinv, by rintro _ ⟨⟩⟩
    rw [applyEntries, Store.get_bind, Program.withstands_call]
    refine ⟨h.inv hnodup, fun current y henv => ?_⟩
    obtain ⟨ho, -, rfl⟩ := among_reads rfl henv
    have hy := h.others_act ho
    split
    next => exact hrollback _ hy
    next =>
      rw [Store.putIfVersion_bind, Program.withstands_call]
      refine ⟨hy.inv hnodup, fun put z henv => ?_⟩
      obtain ⟨progress', hz, happlied, hsame⟩ := hy.put he henv
      cases put with
      | false => exact hrollback _ hz
      | true =>
        simp only [Bool.not_true, Bool.false_eq_true, ↓reduceIte]
        rw [writeFallbackCommitArtifact, hpath, Files.replace_bind, Program.withstands_call]
        refine ⟨hz.inv hnodup, fun written z' henv => ?_⟩
        obtain ⟨rfl, hz'⟩ := hz.replace henv hentries
        have hlive : p.Live entries progress' z' := ⟨_, hz', by simp, by simp⟩
        simp only [Bool.not_true, Bool.false_eq_true, ↓reduceIte]
        split
        next => exact ⟨hlive.inv hnodup, by rintro _ ⟨⟩⟩
        next =>
          apply (ih hrest htodo.2 (by exact hentries) hlive).mono
          intro out z'' _ hout artifact' hok
          obtain ⟨hentries', progress'', hz'', hturns⟩ := hout artifact' hok
          exact ⟨hentries', progress'', hz'', hturns.cons htodo.1 (happlied rfl) hsame⟩

/-- A commit that succeeds from its prepared artifact on has applied its entry on the counter. -/
theorem withstands_commitPrepared (hpath : config.artifactPath = p.path)
    (hphase : artifact.phase = .prepared) (h : p.Covers artifact.entries x)
    (hun : p.Unprepared x) :
    (commitPrepared config artifact).Withstands p.among p.Inv x fun out y =>
      out = .ok () → p.InPhase .committed y := by
  rw [commitPrepared, writeFallbackCommitArtifact, hpath, Files.replace_bind,
    Program.withstands_call]
  refine ⟨.inl hun, fun written y henv => ?_⟩
  obtain ⟨rfl, hy⟩ := h.prepare hun henv
  have hlive : p.Live artifact.entries .fresh y := ⟨_, hy, by simp [hphase], by simp [hphase]⟩
  simp only [Bool.not_true, Bool.false_eq_true, ↓reduceIte]
  rw [Program.withstands_bind]
  apply (withstands_applyEntries hpath h.nodup (List.Subset.refl _) h.nodup rfl hlive).mono
  rintro (reason | applied) z hz hout
  · exact ⟨hz, by rintro ⟨⟩⟩
  · obtain ⟨hentries, progress, ⟨phase, hat, -⟩, hturns⟩ := hout applied rfl
    simp only
    rw [writeFallbackCommitArtifact, Files.replace_bind, Program.withstands_call]
    refine ⟨hz, fun written z' henv => ?_⟩
    obtain ⟨rfl, hcommitted⟩ := inPhase_committed hat h.nodup hturns.1 henv hentries rfl
    exact ⟨hcommitted.inv, fun _ => hcommitted⟩

end Applying

/-! ### The commit -/

section Committing

variable {B : BaseSpec} {winner : BranchContext} {txn : AgentTxnContext}

theorem withstands_commitWinner (hpath : txn.fallbackCommit.artifactPath = p.path)
    (hne : p.path ≠ []) (hdelivers : p.Delivers B winner) (h : p.Unprepared x) :
    (commitWinner txn winner).Withstands p.among p.Inv x fun out y =>
      ∀ log, out = .ok log → p.InPhase .committed y := by
  rw [commitWinner]
  split
  next => exact ⟨.inl h, by rintro _ ⟨⟩⟩
  next seen _ =>
    rw [Program.withstands_bind]
    have hreads :=
      (only_resolveEntries (latestIntents winner.intentLog) winner.writeBuffer.orderedEntries
        seen []).mono fun _ => reads_of_get
    apply (withstands_looking hreads h).mono
    rintro (reason | ⟨seenChecks, writes⟩) y - ⟨hy, -, tr, hresolve, hheld⟩
    · exact ⟨.inl hy, by rintro _ ⟨⟩⟩
    · obtain ⟨hnodup, hdue, habsent⟩ := hdelivers.resolved hy.tells hresolve hheld
      simp only
      rw [Store.supportsAtomicBatchConditionalWrite_bind, Program.withstands_call]
      refine ⟨.inl hy, fun supports z henv => ?_⟩
      obtain ⟨ho, -, rfl⟩ := among_reads rfl henv
      have hz := hy.others_act ho
      have hrefused : (handle .nonBatchMemory .supportsAtomicBatchConditionalWrite z.world).1 =
          false := rfl
      rw [hrefused]
      simp only [Bool.false_eq_true, ↓reduceIte]
      rw [commitWinnerWithoutBatch, if_pos (hpath ▸ hne), commitWinnerWithoutBatchCrashSafe,
        Program.withstands_bind, Program.withstands_bind]
      apply (withstands_prepareEntries hz (fun write hwrite hkey => ?_)
        fun e he => absurd he List.not_mem_nil).mono
      · rintro (reason | entries) u - ⟨hu, hout⟩
        · exact ⟨.inl hu, .inl hu, by rintro _ ⟨⟩⟩
        · obtain ⟨hkeys, hadds⟩ := hout entries rfl
          rw [List.map_nil, List.nil_append] at hkeys
          have hcovers : p.Covers entries u :=
            ⟨by rw [hkeys]; exact hnodup, hadds, by rw [hkeys]; exact habsent⟩
          apply (withstands_commitPrepared hpath rfl hcovers hu).mono
          rintro (reason | done) v hv hcommitted
          · exact ⟨hv, by rintro _ ⟨⟩⟩
          · exact ⟨hv, fun _ _ => hcommitted rfl⟩
      · obtain ⟨version, hversion, hwritten⟩ := hdue write hwrite hkey
        refine ⟨version, ?_, hwritten.others_act ho⟩
        rw [lookup_expectedVersions_checksOf, hversion]

open AgentTxnManager

/-- What the party is to add is what the transaction it is for would commit. -/
def Commits (p : Party ι) (B : BaseSpec) (txn : AgentTxnContext) : Prop :=
  txn.fallbackCommit.artifactPath = p.path ∧ ∀ winner, Selects txn winner → p.Delivers B winner

/-- However a commit goes, it keeps count; and if it succeeds, its artifact says so. -/
theorem withstands_selectWinnerAndCommit (htxn : p.Commits B txn) (hne : p.path ≠ [])
    (h : p.Unprepared x) :
    (selectWinnerAndCommit txn).Withstands p.among p.Inv x fun out y =>
      out.1 = .ok true → p.InPhase .committed y := by
  obtain ⟨hpath, hdelivers⟩ := htxn
  unfold selectWinnerAndCommit
  cases hselect : BranchManager.selectWinner txn.branches with
  | error what => exact ⟨.inl h, by rintro ⟨⟩⟩
  | ok winnerBranchId =>
    simp only
    rw [Program.withstands_bind, commitMarked, mark, BranchManager.findBranch_markWinnerAndLosers]
    cases hfind : BranchManager.findBranch txn.branches winnerBranchId with
    | none => exact ⟨.inl h, .inl h, by rintro ⟨⟩⟩
    | some winner =>
      obtain rfl := BranchManager.branchId_of_findBranch hfind
      rw [Option.map_some, if_pos rfl]
      obtain ⟨hsynced, hbased, hdeltas, hadded⟩ := hdelivers winner ⟨hselect, hfind⟩
      have hwinner : p.Delivers B { winner with status := .winner } :=
        ⟨hsynced.congr rfl rfl rfl, hbased, hdeltas, hadded⟩
      have hreads : (ValidationManager.validateWinner { winner with status := .winner }).Only
          fun op => op.reads = true := ValidationManager.only_validateReads _ _
      simp only
      rw [Program.withstands_bind]
      apply (withstands_looking hreads h).mono
      rintro validation y - ⟨hy, -⟩
      cases validation.success with
      | false => exact ⟨.inl hy, .inl hy, by rintro ⟨⟩⟩
      | true =>
        simp only [Bool.not_true, Bool.false_eq_true, ↓reduceIte]
        rw [Program.withstands_bind]
        apply (withstands_commitWinner (by exact hpath) hne hwinner hy).mono
        rintro (reason | log) z hz hcommitted
        · exact ⟨hz, hz, by rintro ⟨⟩⟩
        · exact ⟨hz, hz, fun _ => hcommitted log rfl⟩

end Committing

end Party

end DataAgentSystem.AgentTxn
