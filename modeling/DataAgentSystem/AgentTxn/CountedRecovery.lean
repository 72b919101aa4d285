import DataAgentSystem.AgentTxn.ArtifactCalls
import DataAgentSystem.AgentTxn.CountedPuts

/-! Recovery of one artifact among others that write the same counter. Detection counts
the entry on the counter among the committed ones exactly if its own party has applied
it, so recovery applies it once or takes it back, and where it ends the phase says which. -/

namespace DataAgentSystem.AgentTxn

open Text Branch Storage Interaction Containers

namespace Party

variable {ι : Type} {p : Party ι} {x y z : Ledger ι} {entries todo : List FallbackCommitEntry}
  {progress : Progress} {e : FallbackCommitEntry} {artifact : FallbackCommitArtifact}
  {result : FallbackRecoveryResult}

/-- The artifact of the party is on disk, and not in a final phase. -/
def Live (p : Party ι) (entries : List FallbackCommitEntry) (progress : Progress)
    (x : Ledger ι) : Prop :=
  ∃ phase, p.At entries phase progress x ∧ phase ≠ .committed ∧ phase ≠ .rolledBack

theorem Live.inv (h : p.Live entries progress x) (hnodup : (entries.map (·.key)).Nodup) :
    p.Inv x := by
  obtain ⟨phase, hat, hcommitted, hrolledBack⟩ := h
  exact .inr ⟨phase, entries, progress, hnodup, hat,
    fun h => absurd h hcommitted, fun h => absurd h hrolledBack⟩

theorem Live.others_act (h : p.Live entries progress x) (ho : p.Others x y) :
    p.Live entries progress y := by
  obtain ⟨phase, hat, hlive⟩ := h
  exact ⟨phase, hat.others_act ho, hlive⟩

theorem Live.avoid {op : Call} {r : op.Resp} (h : p.Live entries progress x)
    (hop : Avoids p.key op) (htouched : p.path ∉ op.touched) (henv : p.among op x r z) :
    p.Live entries progress z := by
  obtain ⟨phase, hat, hlive⟩ := h
  exact ⟨phase, hat.avoid hop htouched henv, hlive⟩

theorem Live.applied_of_matchesTarget (h : p.Live entries progress x)
    (hown : Call.get e.key = .get p.key → p.OwnTarget x) (he : e ∈ entries)
    (hmatches : e.matchesTarget (x.world.store.get e.key) = true) (hkey : e.key = p.key) :
    progress = .applied := by
  obtain ⟨phase, hat, -⟩ := h
  exact hat.applied_of_matchesTarget (hown (congrArg Call.get hkey)) he hkey hmatches

theorem Live.fresh_of_matchesPrevious (h : p.Live entries progress x) (he : e ∈ entries)
    (hmatches : e.matchesPrevious (x.world.store.get e.key) = true) (hkey : e.key = p.key) :
    progress = .fresh := by
  obtain ⟨phase, hat, -⟩ := h
  exact hat.fresh_of_matchesPrevious he hkey hmatches

/-! ### How far the commit has got -/

theorem withstands_countTargets (hnodup : (entries.map (·.key)).Nodup) (hsub : todo ⊆ entries)
    (h : p.Live entries progress x) :
    (countTargets todo).Withstands p.among p.Inv x fun n y =>
      p.Live entries progress y ∧ n ≤ todo.length ∧
        (p.key ∈ (todo.take n).map (·.key) → progress = .applied) := by
  induction todo generalizing x with
  | nil => exact ⟨h.inv hnodup, h, le_rfl, fun hmem => absurd hmem List.not_mem_nil⟩
  | cons e todo ih =>
    obtain ⟨he, htodo⟩ := List.cons_subset.1 hsub
    rw [countTargets, Store.get_bind, Program.withstands_call]
    refine ⟨h.inv hnodup, fun current y henv => ?_⟩
    obtain ⟨ho, hown, rfl⟩ := among_reads rfl henv
    have hy := h.others_act ho
    split
    next hmatches =>
      rw [Program.withstands_bind]
      apply (ih htodo hy).mono
      rintro n z - ⟨hz, hn, hcounted⟩
      refine ⟨hz.inv hnodup, hz, Nat.succ_le_succ hn, fun hmem => ?_⟩
      rw [List.take_succ_cons, List.map_cons, List.mem_cons] at hmem
      rcases hmem with hkey | hmem
      · exact hy.applied_of_matchesTarget hown he hmatches hkey.symm
      · exact hcounted hmem
    next => exact ⟨hy.inv hnodup, hy, Nat.zero_le _, fun hmem => absurd hmem List.not_mem_nil⟩

theorem withstands_findNonPrefix (hnodup : (entries.map (·.key)).Nodup) (hsub : todo ⊆ entries)
    (h : p.Live entries progress x) :
    (findNonPrefix todo).Withstands p.among p.Inv x fun out y =>
      p.Live entries progress y ∧
        (out = none → p.key ∈ todo.map (·.key) → progress = .fresh) := by
  induction todo generalizing x with
  | nil => exact ⟨h.inv hnodup, h, fun _ hmem => absurd hmem List.not_mem_nil⟩
  | cons e todo ih =>
    obtain ⟨he, htodo⟩ := List.cons_subset.1 hsub
    rw [findNonPrefix, Store.get_bind, Program.withstands_call]
    refine ⟨h.inv hnodup, fun current y henv => ?_⟩
    obtain ⟨ho, -, rfl⟩ := among_reads rfl henv
    have hy := h.others_act ho
    split
    next hmatches =>
      apply (ih htodo hy).mono
      rintro out z - ⟨hz, hrest⟩
      refine ⟨hz, fun hnone hmem => ?_⟩
      rcases List.mem_cons.1 hmem with hkey | hmem
      · exact hy.fresh_of_matchesPrevious he hmatches hkey.symm
      · exact hrest hnone hmem
    next => exact ⟨hy.inv hnodup, hy, by rintro ⟨⟩⟩

/-- Where detection finds a prefix, the entry on the counter is in it exactly if it is applied. -/
theorem withstands_detect (hnodup : (entries.map (·.key)).Nodup)
    (hentries : artifact.entries = entries) (h : p.Live entries progress x) :
    (detectCommittedPrefix artifact result).Withstands p.among p.Inv x fun out y =>
      p.Live entries progress y ∧ (out.1 ≤ entries.length →
        (p.key ∈ (entries.take out.1).map (·.key) → progress = .applied) ∧
        (p.key ∈ (entries.drop out.1).map (·.key) → progress = .fresh)) := by
  subst hentries
  rw [detectCommittedPrefix, Program.withstands_bind]
  apply (withstands_countTargets hnodup (List.Subset.refl _) h).mono
  rintro n y - ⟨hy, -, hcounted⟩
  rw [Program.withstands_bind]
  apply (withstands_findNonPrefix hnodup (List.drop_subset _ _) hy).mono
  rintro (_ | key) z - ⟨hz, hrest⟩
  · exact ⟨hz.inv hnodup, hz, fun _ => ⟨hcounted, hrest rfl⟩⟩
  · exact ⟨hz.inv hnodup, hz, fun hle => absurd hle (Nat.not_succ_le_self _)⟩

/-! ### Writes on the way -/

/-- How far the party gets by going through some entries: where the one on the counter is
among them this is as it has to be afterwards, and else nothing changes. -/
def Turns (p : Party ι) (P : Progress → Prop) (todo : List FallbackCommitEntry)
    (progress progress' : Progress) : Prop :=
  (p.key ∈ todo.map (·.key) → P progress') ∧ (p.key ∉ todo.map (·.key) → progress' = progress)

theorem turns_nil (p : Party ι) (P : Progress → Prop) (progress : Progress) :
    p.Turns P [] progress progress :=
  ⟨fun hmem => absurd hmem List.not_mem_nil, fun _ => rfl⟩

/-- One entry, and then others that are about other keys. -/
theorem Turns.cons {P : Progress → Prop} {progress' progress'' : Progress}
    (h : p.Turns P todo progress' progress'') (hother : e.key ∉ todo.map (·.key))
    (hself : e.key = p.key → P progress') (hsame : e.key ≠ p.key → progress' = progress) :
    p.Turns P (e :: todo) progress progress'' := by
  constructor
  · intro hmem
    rcases List.mem_cons.1 hmem with hkey | hmem
    · rw [h.2 (by rw [hkey]; exact hother)]
      exact hself hkey.symm
    · exact h.1 hmem
  · intro hnot
    rw [List.map_cons, List.mem_cons, not_or] at hnot
    rw [h.2 hnot.2, hsame (Ne.symm hnot.1)]

/-- A new artifact with the same entries. -/
theorem Live.replace {r : Bool} (h : p.Live entries progress x)
    (henv : p.among (.replaceFile p.path artifact.text) x r z)
    (hentries : artifact.entries = entries) :
    r = true ∧ p.At entries artifact.phase progress z := by
  obtain ⟨phase, hat, -⟩ := h
  exact hat.replace henv hentries

/-- An entry is applied: if it is the one on the counter, this is where that happens. -/
theorem Live.put {r : Bool} (h : p.Live entries progress x) (he : e ∈ entries)
    (henv : p.among (.putIfVersion e.key e.expectedVersion e.targetValue) x r z) :
    ∃ progress', p.Live entries progress' z ∧
      (r = true → e.key = p.key → progress' = .applied) ∧
      (e.key ≠ p.key → progress' = progress) := by
  by_cases hkey : e.key = p.key
  · obtain ⟨phase, hat, hlive⟩ := h
    rcases hat.put he hkey henv with ⟨-, -, hz⟩ | ⟨rfl, hz⟩
    · exact ⟨.applied, ⟨phase, hz, hlive⟩, fun _ _ => rfl, fun hne => absurd hkey hne⟩
    · exact ⟨progress, ⟨phase, hz, hlive⟩, by rintro ⟨⟩, fun _ => rfl⟩
  · have havoids : Avoids p.key (.putIfVersion e.key e.expectedVersion e.targetValue) := hkey
    exact ⟨progress, h.avoid havoids List.not_mem_nil henv, fun _ h => absurd h hkey, fun _ => rfl⟩

theorem withstands_applyForward (hnodup : (entries.map (·.key)).Nodup) (hsub : todo ⊆ entries)
    (htodo : (todo.map (·.key)).Nodup) {i : ℕ} (hentries : artifact.entries = entries)
    (h : p.Live entries progress x) :
    (applyForward p.path todo i artifact result).Withstands p.among p.Inv x fun out y =>
      ∃ progress', p.Live entries progress' y ∧ (out.1 = true →
        out.2.1.entries = entries ∧ p.Turns (· = .applied) todo progress progress') := by
  induction todo generalizing x i artifact result progress with
  | nil => exact ⟨h.inv hnodup, progress, h, fun _ => ⟨hentries, p.turns_nil _ progress⟩⟩
  | cons e todo ih =>
    obtain ⟨he, hrest⟩ := List.cons_subset.1 hsub
    rw [List.map_cons, List.nodup_cons] at htodo
    rw [applyForward, Store.putIfVersion_bind, Program.withstands_call]
    refine ⟨h.inv hnodup, fun put y henv => ?_⟩
    obtain ⟨progress', hy, happlied, hsame⟩ := h.put he henv
    cases put with
    | false => exact ⟨hy.inv hnodup, progress', hy, by rintro ⟨⟩⟩
    | true =>
      simp only [Bool.not_true, Bool.false_eq_true, ↓reduceIte]
      rw [writeFallbackCommitArtifact, Files.replace_bind, Program.withstands_call]
      refine ⟨hy.inv hnodup, fun written z henv => ?_⟩
      obtain ⟨rfl, hz⟩ := hy.replace henv hentries
      simp only [Bool.not_true, Bool.false_eq_true, ↓reduceIte]
      apply (ih hrest htodo.2 (by exact hentries) ⟨_, hz, by simp, by simp⟩).mono
      rintro out z' - ⟨progress'', hz', hout⟩
      refine ⟨progress'', hz', fun hok => ?_⟩
      obtain ⟨hentries', hturns⟩ := hout hok
      exact ⟨hentries', hturns.cons htodo.1 (happlied rfl) hsame⟩

/-- The artifact of the party is in a final phase. -/
def Settled (p : Party ι) (x : Ledger ι) : Prop :=
  p.InPhase .committed x ∨ p.InPhase .rolledBack x

theorem Settled.others_act (h : p.Settled x) (ho : p.Others x y) : p.Settled y :=
  h.imp (·.others_act ho) (·.others_act ho)

theorem InPhase.inv {phase : FallbackCommitPhase} (h : p.InPhase phase x) : p.Inv x := .inr ⟨_, h⟩

/-- The last write of a recovery that goes forward. -/
theorem inPhase_committed {phase : FallbackCommitPhase} {r : Bool}
    (h : p.At entries phase progress x) (hnodup : (entries.map (·.key)).Nodup)
    (happlied : p.key ∈ entries.map (·.key) → progress = .applied)
    (henv : p.among (.replaceFile p.path artifact.text) x r z)
    (hentries : artifact.entries = entries) (hphase : artifact.phase = .committed) :
    r = true ∧ p.InPhase .committed z := by
  obtain ⟨hr, hz⟩ := h.replace henv hentries
  rw [hphase] at hz
  exact ⟨hr, entries, progress, hnodup, hz, fun _ => happlied, by rintro ⟨⟩⟩

theorem withstands_resumeForward (hnodup : (entries.map (·.key)).Nodup)
    (hentries : artifact.entries = entries) (h : p.Live entries progress x) :
    (resumeForwardFallbackCommit artifact p.path result).Withstands p.among p.Inv x fun out y =>
      out.1 = true → p.Settled y := by
  subst hentries
  rw [resumeForwardFallbackCommit, Program.withstands_bind]
  apply (withstands_detect hnodup rfl h).mono
  rintro ⟨committedPrefix, result⟩ y - ⟨hy, hfound⟩
  simp only at hfound ⊢
  split
  next => exact ⟨hy.inv hnodup, by rintro ⟨⟩⟩
  next hle =>
    obtain ⟨hbefore, hafter⟩ := hfound (Nat.le_of_not_lt hle)
    rw [writeFallbackCommitArtifact, Files.replace_bind, Program.withstands_call]
    refine ⟨hy.inv hnodup, fun written z henv => ?_⟩
    by_cases hall : committedPrefix = artifact.entries.length
    · -- every entry is at its target
      subst hall
      rw [List.take_length] at hbefore
      obtain ⟨rfl, hz⟩ := hy.replace henv rfl
      simp only [↓reduceIte] at hz
      have hinv : p.Inv z := .inr ⟨_, _, _, hnodup, hz, fun _ => hbefore, by rintro ⟨⟩⟩
      simp only [Bool.not_true, Bool.false_eq_true, ↓reduceIte, List.drop_length, applyForward,
        Program.pure_eq_ret, Program.ret_bind]
      rw [writeFallbackCommitArtifact, Files.replace_bind, Program.withstands_call]
      refine ⟨hinv, fun written z' henv => ?_⟩
      obtain ⟨rfl, hcommitted⟩ := inPhase_committed hz hnodup hbefore henv rfl rfl
      exact ⟨hcommitted.inv, fun _ => .inl hcommitted⟩
    · obtain ⟨rfl, hz⟩ := hy.replace henv rfl
      simp only [if_neg hall] at hz
      simp only [Bool.not_true, Bool.false_eq_true, ↓reduceIte]
      rw [Program.withstands_bind]
      have hlive : p.Live artifact.entries progress z := ⟨_, hz, by simp, by simp⟩
      have hdrop : ((artifact.entries.drop committedPrefix).map (·.key)).Nodup :=
        ((List.drop_sublist _ _).map _).nodup hnodup
      apply (withstands_applyForward hnodup (List.drop_subset _ _) hdrop (by rfl) hlive).mono
      rintro ⟨applied, artifact', result'⟩ z' - ⟨progress', hz', hout⟩
      cases applied with
      | false => exact ⟨hz'.inv hnodup, by rintro ⟨⟩⟩
      | true =>
        obtain ⟨hentries', hturns⟩ := hout rfl
        have hinv := hz'.inv hnodup
        obtain ⟨phase, hat, -⟩ := hz'
        have happlied : p.key ∈ artifact.entries.map (·.key) → progress' = .applied := by
          intro hkey
          by_cases hlate : p.key ∈ (artifact.entries.drop committedPrefix).map (·.key)
          · exact hturns.1 hlate
          · rw [← List.take_append_drop committedPrefix artifact.entries, List.map_append,
              List.mem_append] at hkey
            rw [hturns.2 hlate]
            exact hbefore (hkey.resolve_right hlate)
        simp only [Bool.not_true, Bool.false_eq_true, ↓reduceIte]
        rw [writeFallbackCommitArtifact, Files.replace_bind, Program.withstands_call]
        refine ⟨hinv, fun written z'' henv => ?_⟩
        obtain ⟨rfl, hcommitted⟩ := inPhase_committed hat hnodup happlied henv hentries' rfl
        exact ⟨hcommitted.inv, fun _ => .inl hcommitted⟩

/-! ### Going back -/

/-- An applied entry is taken back: if it is the one on the counter, this is where that happens. -/
theorem withstands_undoEntry (hnodup : (entries.map (·.key)).Nodup) (he : e ∈ entries)
    (happlied : e.key = p.key → progress = .applied) (h : p.Live entries progress x) :
    (undoEntry e).Withstands p.among p.Inv x fun out y =>
      ∃ progress', p.Live entries progress' y ∧
        (out = true → e.key = p.key → progress' ≠ .applied) ∧
          (e.key ≠ p.key → progress' = progress) := by
  by_cases hkey : e.key = p.key
  · obtain rfl := happlied hkey
    have hinv := h.inv hnodup
    obtain ⟨phase, hat, hlive⟩ := h
    obtain ⟨front, rest, target, hmade⟩ := hat.made
    rw [undoEntry, if_pos (hmade.prepared e he hkey).previousExists]
    refine ⟨hinv, fun undone y henv => ?_⟩
    rcases hat.undo he hkey henv with ⟨-, hy⟩ | ⟨rfl, hy⟩
    · have hy' : p.Live entries .undone y := ⟨phase, hy, hlive⟩
      exact ⟨hy'.inv hnodup, _, hy', fun _ _ => by rintro ⟨⟩, fun hne => absurd hkey hne⟩
    · have hy' : p.Live entries .applied y := ⟨phase, hy, hlive⟩
      exact ⟨hy'.inv hnodup, _, hy', by rintro ⟨⟩, fun _ => rfl⟩
  · have hother : ∀ {op : Call} {r : op.Resp} {y : Ledger ι}, Avoids p.key op →
        p.path ∉ op.touched → p.among op x r y → ∃ progress', p.Live entries progress' y ∧
          (∀ out : Bool, out = true → e.key = p.key → progress' ≠ .applied) ∧
            (e.key ≠ p.key → progress' = progress) := by
      intro op r y hop htouched henv
      exact ⟨progress, h.avoid hop htouched henv, fun _ _ h => absurd h hkey, fun _ => rfl⟩
    rw [undoEntry]
    split
    all_goals
      refine ⟨h.inv hnodup, fun undone y henv => ?_⟩
      obtain ⟨progress', hy, hne, hsame⟩ := hother (by exact hkey) List.not_mem_nil henv
      exact ⟨hy.inv hnodup, progress', hy, hne _, hsame⟩

theorem withstands_undoBackward (hnodup : (entries.map (·.key)).Nodup) (hsub : todo ⊆ entries)
    (htodo : (todo.map (·.key)).Nodup) (hentries : artifact.entries = entries)
    (hphase : artifact.phase = .rollingBack) (h : p.Live entries progress x) :
    (undoBackward p.path todo artifact result).Withstands p.among p.Inv x fun out y =>
      ∃ progress', p.Live entries progress' y ∧ (out.1 = true →
        out.2.1.entries = entries ∧ p.Turns (· ≠ .applied) todo progress progress') := by
  induction todo generalizing x artifact result progress with
  | nil => exact ⟨h.inv hnodup, progress, h, fun _ => ⟨hentries, p.turns_nil _ progress⟩⟩
  | cons e todo ih =>
    obtain ⟨he, hrest⟩ := List.cons_subset.1 hsub
    rw [List.map_cons, List.nodup_cons] at htodo
    -- the rest of the loop, once this entry is not applied any more
    have hnext : ∀ {y : Ledger ι} {progress' : Progress} (result : FallbackRecoveryResult),
        p.Live entries progress' y → (e.key = p.key → progress' ≠ .applied) →
        (e.key ≠ p.key → progress' = progress) →
        (undoBackward p.path todo { artifact with appliedCount := artifact.appliedCount - 1 }
          result).Withstands p.among p.Inv y fun out z =>
            ∃ progress', p.Live entries progress' z ∧ (out.1 = true → out.2.1.entries = entries ∧
              p.Turns (· ≠ .applied) (e :: todo) progress progress') := by
      intro y progress' result hy hne hsame
      apply (ih hrest htodo.2 (by exact hentries) (by exact hphase) hy).mono
      rintro out z - ⟨progress'', hz, hout⟩
      refine ⟨progress'', hz, fun hok => ?_⟩
      obtain ⟨hentries', hturns⟩ := hout hok
      exact ⟨hentries', hturns.cons htodo.1 hne hsame⟩
    rw [undoBackward, Store.get_bind, Program.withstands_call]
    refine ⟨h.inv hnodup, fun current y henv => ?_⟩
    obtain ⟨ho, hown, rfl⟩ := among_reads rfl henv
    have hy := h.others_act ho
    split
    next hmatches =>
      rw [writeFallbackCommitArtifact, Files.replace_bind, Program.withstands_call]
      refine ⟨hy.inv hnodup, fun written z henv => ?_⟩
      obtain ⟨rfl, hz⟩ := hy.replace henv hentries
      simp only [Bool.not_true, Bool.false_eq_true, ↓reduceIte]
      have hlive : p.Live entries progress z := ⟨_, hz, by simp [hphase], by simp [hphase]⟩
      refine hnext result hlive (fun hkey => ?_) fun _ => rfl
      rw [hy.fresh_of_matchesPrevious he hmatches hkey]
      rintro ⟨⟩
    next =>
      split
      next => exact ⟨hy.inv hnodup, progress, hy, by rintro ⟨⟩⟩
      next hmatches =>
        rw [Bool.not_eq_true, Bool.not_eq_false'] at hmatches
        rw [Program.withstands_bind]
        apply (withstands_undoEntry hnodup he
          (hy.applied_of_matchesTarget hown he hmatches) hy).mono
        rintro undone z - ⟨progress', hz, hne, hsame⟩
        cases undone with
        | false => exact ⟨hz.inv hnodup, progress', hz, by rintro ⟨⟩⟩
        | true =>
          simp only [Bool.not_true, Bool.false_eq_true, ↓reduceIte]
          rw [writeFallbackCommitArtifact, Files.replace_bind, Program.withstands_call]
          refine ⟨hz.inv hnodup, fun written z' henv => ?_⟩
          obtain ⟨rfl, hz'⟩ := hz.replace henv hentries
          simp only [Bool.not_true, Bool.false_eq_true, ↓reduceIte]
          have hlive : p.Live entries progress' z' :=
            ⟨_, hz', by simp [hphase], by simp [hphase]⟩
          exact hnext _ hlive (hne rfl) hsame

/-- Where nothing on the counter is left applied, going back is done. -/
theorem inPhase_rolledBack {phase : FallbackCommitPhase} {r : Bool}
    (h : p.At entries phase progress x) (hnodup : (entries.map (·.key)).Nodup)
    (hne : progress ≠ .applied) (henv : p.among (.replaceFile p.path artifact.text) x r z)
    (hentries : artifact.entries = entries) (hphase : artifact.phase = .rolledBack) :
    r = true ∧ p.InPhase .rolledBack z := by
  obtain ⟨hr, hz⟩ := h.replace henv hentries
  rw [hphase] at hz
  exact ⟨hr, entries, progress, hnodup, hz, by rintro ⟨⟩, fun _ => hne⟩

/-- An artifact without an entry on the counter has nothing to take back. -/
theorem Live.fresh_of_notMem (h : p.Live entries progress x)
    (habsent : p.key ∉ entries.map (·.key)) : progress = .fresh := by
  obtain ⟨phase, hat, -⟩ := h
  obtain ⟨front, rest, target, hmade⟩ := hat.made
  exact (hmade.absent habsent).1

theorem withstands_resumeRollback (hnodup : (entries.map (·.key)).Nodup)
    (hentries : artifact.entries = entries) (h : p.Live entries progress x) :
    (resumeRollbackFallbackCommit artifact p.path result).Withstands p.among p.Inv x fun out y =>
      out.1 = true → p.Settled y := by
  subst hentries
  rw [resumeRollbackFallbackCommit, Program.withstands_bind]
  apply (withstands_detect hnodup rfl h).mono
  rintro ⟨committedPrefix, result⟩ y - ⟨hy, hfound⟩
  simp only at hfound ⊢
  split
  next => exact ⟨hy.inv hnodup, by rintro ⟨⟩⟩
  next hle =>
    obtain ⟨-, hafter⟩ := hfound (Nat.le_of_not_lt hle)
    rw [writeFallbackCommitArtifact, Files.replace_bind, Program.withstands_call]
    refine ⟨hy.inv hnodup, fun written z henv => ?_⟩
    obtain ⟨rfl, hz⟩ := hy.replace henv rfl
    simp only [Bool.not_true, Bool.false_eq_true, ↓reduceIte]
    rw [Program.withstands_bind]
    have hlive : p.Live artifact.entries progress z := ⟨_, hz, by simp, by simp⟩
    have hsub : (artifact.entries.take committedPrefix).reverse ⊆ artifact.entries :=
      fun e he => List.take_subset _ _ (List.mem_reverse.1 he)
    have htake : ((artifact.entries.take committedPrefix).reverse.map (·.key)).Nodup := by
      rw [List.map_reverse, List.nodup_reverse]
      exact ((List.take_sublist _ _).map _).nodup hnodup
    apply (withstands_undoBackward hnodup hsub htake (by rfl) (by rfl) hlive).mono
    rintro ⟨undone, artifact', result'⟩ z' - ⟨progress', hz', hout⟩
    cases undone with
    | false => exact ⟨hz'.inv hnodup, by rintro ⟨⟩⟩
    | true =>
      obtain ⟨hentries', hturns⟩ := hout rfl
      rw [Turns, List.map_reverse, List.mem_reverse] at hturns
      have hne : progress' ≠ .applied := by
        by_cases hearly : p.key ∈ (artifact.entries.take committedPrefix).map (·.key)
        · exact hturns.1 hearly
        · rw [hturns.2 hearly]
          by_cases hlate : p.key ∈ (artifact.entries.drop committedPrefix).map (·.key)
          · rw [hafter hlate]
            rintro ⟨⟩
          · have habsent : p.key ∉ artifact.entries.map (·.key) := by
              rw [← List.take_append_drop committedPrefix artifact.entries, List.map_append,
                List.mem_append]
              exact not_or.2 ⟨hearly, hlate⟩
            rw [hy.fresh_of_notMem habsent]
            rintro ⟨⟩
      have hinv := hz'.inv hnodup
      obtain ⟨phase, hat, -⟩ := hz'
      simp only [Bool.not_true, Bool.false_eq_true, ↓reduceIte]
      rw [writeFallbackCommitArtifact, Files.replace_bind, Program.withstands_call]
      refine ⟨hinv, fun written z'' henv => ?_⟩
      obtain ⟨rfl, hback⟩ := inPhase_rolledBack hat hnodup hne henv hentries' rfl
      exact ⟨hback.inv, fun _ => .inr hback⟩

/-! ### Recovery -/

/-- However often it is tried, recovery keeps count; and where it succeeds, the artifact of
the party has come to an end. -/
theorem withstands_recover (h : p.Inv x) :
    (recoverFallbackCommitArtifact p.path result).Withstands p.among p.Inv x fun out y =>
      out.1 = true → p.Settled y := by
  rw [recoverFallbackCommitArtifact, Files.read_bind, Program.withstands_call]
  refine ⟨h, fun contents y henv => ?_⟩
  obtain ⟨ho, -, rfl⟩ := among_reads rfl henv
  have hy := h.others_act ho
  rw [handle_readFile]
  rcases hy with hun | ⟨phase, entries, progress, hnodup, hat, hends⟩
  · rw [hun.file]
    exact ⟨.inl hun, by rintro ⟨⟩⟩
  · have hinv : p.Inv y := .inr ⟨phase, entries, progress, hnodup, hat, hends⟩
    obtain ⟨a, hdisk, rfl, rfl⟩ := hat.disk
    rw [show y.world.files.lookup p.path = some a.text from hdisk,
      parseFallbackCommitArtifact_recounted]
    have hphase : a.recounted.phase = a.phase := rfl
    have hentries : a.recounted.entries = a.entries := rfl
    cases decide (a.recounted.appliedCount ≤ a.entries.length) with
    | false => exact ⟨hinv, by rintro ⟨⟩⟩
    | true =>
      simp only [hphase]
      split
      next hterminal =>
        refine ⟨hinv, fun _ => ?_⟩
        rcases hterminal with hphase | hphase
        · exact .inl (hphase ▸ ⟨_, _, hnodup, hat, hends⟩)
        · exact .inr (hphase ▸ ⟨_, _, hnodup, hat, hends⟩)
      next hlive =>
        rw [not_or] at hlive
        have hresumed : ∀ resume : Prog (Bool × FallbackCommitArtifact × FallbackRecoveryResult),
            (resume.Withstands p.among p.Inv y fun out z => out.1 = true → p.Settled z) →
            (resume >>= fun out =>
              if !out.1 then Program.ret (false, out.2.2)
              else Program.ret (true, { out.2.2 with
                recoveredArtifactCount := out.2.2.recoveredArtifactCount + 1 })).Withstands
                  p.among p.Inv y fun out z => out.1 = true → p.Settled z := by
          intro resume hresume
          rw [Program.withstands_bind]
          apply hresume.mono
          rintro ⟨recovered, artifact, result⟩ z hz hout
          cases recovered with
          | false => exact ⟨hz, by rintro ⟨⟩⟩
          | true => exact ⟨hz, fun _ => hout rfl⟩
        split
        next =>
          exact hresumed _ (withstands_resumeRollback hnodup hentries ⟨_, hat, hlive⟩)
        next =>
          exact hresumed _ (withstands_resumeForward hnodup hentries ⟨_, hat, hlive⟩)

end Party

end DataAgentSystem.AgentTxn
