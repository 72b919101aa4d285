import DataAgentSystem.AgentTxn.RepeatedRecovery
import DataAgentSystem.Storage.Versions

/-! Recovery from a commit log that was cut off. The reader takes whole entry lines, and
of a cut one whatever still has a byte of value; it never compares the entries it finds
with the number the log announces. So a cut behind an entry line or inside a value makes
recovery write a part of the transaction. A cut inside a key or a version does not: such
a line cannot be read, unless it happens to be the mark before the entries once more. -/

namespace DataAgentSystem.AgentTxn

open Text Containers Storage Interaction

/-! ### Cut lines -/

namespace CommitLogEntry

/-- How many bytes of an entry line stand before its value. -/
def valueStart (entry : CommitLogEntry) : ℕ :=
  (escapeCommitLogText entry.key).length + 1 + (decimal entry.expectedVersion.toNat).length + 1

/-- The first `r` bytes of the line have all of the value: at most the second byte of an
escaped backslash is missing, which the reader makes up for. -/
def KeepsValue (entry : CommitLogEntry) (r : ℕ) : Prop :=
  entry.line.length ≤ r ∨ entry.line.length = r + 1 ∧ entry.value.getLast? = some backslash

instance (entry : CommitLogEntry) (r : ℕ) : Decidable (entry.KeepsValue r) :=
  inferInstanceAs (Decidable (_ ∨ _))

/-- What is read of a line that is cut within its value. -/
def torn (entry : CommitLogEntry) (r : ℕ) : ParsedCommitLogEntry where
  key := entry.key
  expectedVersion := entry.expectedVersion
  value := unescapeCommitLogText ((escapeCommitLogText entry.value).take (r - entry.valueStart))

theorem length_line (entry : CommitLogEntry) :
    entry.line.length = entry.valueStart + (escapeCommitLogText entry.value).length := by
  simp only [line, valueStart, List.length_append, List.length_cons]
  omega

theorem torn_eq_parsed_iff {entry : CommitLogEntry} {r : ℕ} (hr : entry.valueStart < r) :
    entry.torn r = entry.parsed ↔ entry.KeepsValue r := by
  have hvalue : entry.torn r = entry.parsed ↔ (entry.torn r).value = entry.value := by
    simp only [torn, parsed, ParsedCommitLogEntry.mk.injEq, true_and]
  rw [hvalue, torn, unescapeCommitLogText, escapeCommitLogText, Escaping.unescape_take_escape_iff,
    KeepsValue, length_line, escapeCommitLogText]
  refine or_congr (by omega) (and_congr_left' (by omega))

/-- A line that is cut before its value cannot be read. -/
theorem readEntry_take_eq_none {entry : CommitLogEntry} {r : ℕ} (hr : r ≤ entry.valueStart) :
    ParsedCommitLogArtifact.readEntry (entry.line.take r) = none := by
  have hkey : tab ∉ escapeCommitLogText entry.key := tab_notMem_escape _
  have hversion : tab ∉ decimal entry.expectedVersion.toNat := tab_notMem_decimal _
  -- a piece with no tab is the last
  have hlast : ∀ {s : Bytes}, tab ∉ s → getline tab s = none ∨ getline tab s = some (s, []) := by
    intro s hs
    by_cases hnil : s = []
    · exact .inl (by rw [hnil, getline_nil])
    · exact .inr (getline_last hs hnil)
  simp only [valueStart] at hr
  rw [line, List.take_append]
  by_cases hcut : r ≤ (escapeCommitLogText entry.key).length
  · rw [Nat.sub_eq_zero_of_le hcut, List.take_zero, List.append_nil,
      ParsedCommitLogArtifact.readEntry]
    rcases hlast (notMem_take hkey r) with hline | hline <;> rw [hline] <;> rfl
  obtain ⟨m, hm⟩ : ∃ m, r - (escapeCommitLogText entry.key).length = m + 1 :=
    ⟨r - (escapeCommitLogText entry.key).length - 1, by omega⟩
  rw [List.take_of_length_le (by omega), hm, List.take_succ_cons, List.take_append,
    ParsedCommitLogArtifact.readEntry, getline_append hkey]
  by_cases hcut' : m ≤ (decimal entry.expectedVersion.toNat).length
  · rw [Nat.sub_eq_zero_of_le hcut', List.take_zero, List.append_nil]
    simp only [Option.bind_eq_bind, Option.bind_some]
    rcases hlast (notMem_take hversion m) with hline | hline <;> rw [hline] <;> rfl
  · have hm' : m - (decimal entry.expectedVersion.toNat).length = 1 := by omega
    rw [List.take_of_length_le (by omega), hm', List.take_succ_cons, List.take_zero]
    simp only [Option.bind_eq_bind, Option.bind_some]
    rw [getline_append hversion]
    rfl

/-- A line that is cut within its value is read up to the cut. -/
theorem readEntry_take {entry : CommitLogEntry} {r : ℕ} (hr : entry.valueStart < r)
    (hvalue : entry.value ≠ []) :
    ParsedCommitLogArtifact.readEntry (entry.line.take r) = some (entry.torn r) := by
  have hnewline : newline ∉ (escapeCommitLogText entry.value).take (r - entry.valueStart) :=
    notMem_take (newline_notMem_escape _) _
  have hne : (escapeCommitLogText entry.value).take (r - entry.valueStart) ≠ [] := by
    have hescaped : escapeCommitLogText entry.value ≠ [] := fun h =>
      hvalue (backslashEscaping.escape_eq_nil.1 h)
    rw [Ne, List.take_eq_nil_iff, not_or]
    exact ⟨by omega, hescaped⟩
  have hline : entry.line.take r = backslashEscaping.escape entry.key ++ tab ::
      (decimal entry.expectedVersion.toNat ++ tab :: (escapeCommitLogText entry.value).take
          (r - entry.valueStart)) := by
    have hsplit : entry.line =
      (escapeCommitLogText entry.key ++ tab :: (decimal entry.expectedVersion.toNat ++ [tab])) ++
        escapeCommitLogText entry.value := by
      simp only [line, List.append_assoc, List.cons_append, List.nil_append]
    have hlength :
      (escapeCommitLogText entry.key ++
        tab :: (decimal entry.expectedVersion.toNat ++ [tab])).length =
        entry.valueStart := by
      simp only [valueStart, List.length_append, List.length_cons, List.length_nil]
      omega
    rw [hsplit, List.take_append, hlength, List.take_of_length_le (by omega)]
    simp only [escapeCommitLogText, List.append_assoc, List.cons_append, List.nil_append]
  rw [hline]
  simp only [ParsedCommitLogArtifact.readEntry, getline_append (tab_notMem_escape _),
    getline_append (tab_notMem_decimal _), Option.bind_eq_bind, Option.bind_some,
    getline_last hnewline hne, unescapeCommitLogText,
    backslashEscaping.unescape_escape, strtoull_decimal]
  rfl

end CommitLogEntry

/-! ### What a cut does -/

/-- Some of these entries are still to be written. -/
def Unrecovered (s : MemoryKVStore) (entries : List CommitLogEntry) : Prop :=
  ∃ entry ∈ entries, s.get entry.key ≠ entry.parsed.written

/-- Every entry is in the new store with its exact value, or nothing has changed. -/
def EveryOrNone (entries : List CommitLogEntry) (s s' : MemoryKVStore) : Prop :=
  (∀ entry ∈ entries, s'.get entry.key = entry.parsed.written) ∨ ∀ k, s'.get k = s.get k

/-- A cut after the lines of `front` and `r` bytes of the next line parts the transaction:
what it shows and what it hides are both still to be written, or the value it cuts is. -/
def SeversAt (s : MemoryKVStore) (front : List CommitLogEntry) (entry : CommitLogEntry)
    (rest : List CommitLogEntry) (r : ℕ) : Prop :=
  if r = 0 ∨ entry.line.take r = entriesMarker then
    Unrecovered s front ∧ Unrecovered s (entry :: rest)
  else entry.valueStart < r ∧
    if entry.KeepsValue r then Unrecovered s (front ++ [entry]) ∧ Unrecovered s rest
    else Unrecovered s [entry] ∨ Unrecovered s front ∧ Unrecovered s rest

/-- The same for a cut anywhere in the entry lines, behind those of `front`. -/
def Severs (s : MemoryKVStore) : List CommitLogEntry → List CommitLogEntry → ℕ → Prop
  | _, [], _ => False
  | front, entry :: rest, n =>
    if n ≤ entry.line.length then SeversAt s front entry rest n
    else Severs s (front ++ [entry]) rest (n - entry.line.length - 1)

section Lines

variable (txn : AgentTxnContext) (commitLatencyUs : PrintedNumber)

/-- The lines before the entries. -/
def headLines : List Bytes :=
  kCommitLogHeader :: ((commitLogFields txn commitLatencyUs).map fieldLine ++ [entriesMarker])

def headLength : ℕ := (unlines newline (headLines txn commitLatencyUs)).length

/-- A cut of the whole log at `n` bytes. -/
def SeversLog (s : MemoryKVStore) (n : ℕ) : Prop :=
  headLength txn commitLatencyUs ≤ n ∧
    Severs s [] txn.commitLog.entries (n - headLength txn commitLatencyUs)

end Lines

/-! ### Reading a cut log -/

theorem parseCommitLogArtifact_lines (s : Bytes) :
    parseCommitLogArtifact (some s) = match lines newline s with
    | [] => none
    | line :: rest =>
      if line ≠ kCommitLogHeader then none
          else ParsedCommitLogArtifact.readLines false rest {} := by
  rw [parseCommitLogArtifact, Option.bind_some]
  cases hline : getline newline s with
  | none =>
    have hnil : s = [] := by
      by_contra hne
      rw [getline_eq hne] at hline
      cases hline
    rw [hnil, lines_nil]
  | some p =>
    obtain ⟨line, rest⟩ := p
    rw [lines_eq_getline hline]

namespace ParsedCommitLogArtifact

theorem readLines_entries_append {entries : List CommitLogEntry}
    (hvalues : ∀ entry ∈ entries, entry.value ≠ []) (rest : List Bytes)
    (artifact : ParsedCommitLogArtifact) :
    readLines true (entries.map CommitLogEntry.line ++ rest) artifact =
      readLines true rest
        { artifact with entries := artifact.entries ++ entries.map CommitLogEntry.parsed } := by
  induction entries generalizing artifact with
  | nil => rw [List.map_nil, List.nil_append, List.map_nil, List.append_nil]
  | cons entry entries ih =>
    rw [List.forall_mem_cons] at hvalues
    rw [List.map_cons, List.cons_append, readLines, if_neg entry.line_ne.1,
      if_neg entry.line_ne.2, if_neg (by simp), entry.readEntry_line, if_neg hvalues.1]
    simp only [ih hvalues.2, List.append_assoc, List.singleton_append, List.map_cons]

/-- After the mark only entries are read. -/
theorem readLines_true_metadata {ls : List Bytes} {artifact artifact' : ParsedCommitLogArtifact}
    (h : readLines true ls artifact = some artifact') : artifact'.metadata = artifact.metadata := by
  induction ls generalizing artifact with
  | nil =>
    cases h
    rfl
  | cons line rest ih =>
    rw [readLines] at h
    split at h
    next => exact ih h
    next =>
      split at h
      next => exact ih h
      next =>
        simp only [Bool.not_true, Bool.false_eq_true, ↓reduceIte] at h
        split at h
        next => cases h
        next => exact (ih h).trans rfl

/-- Where no line follows the mark there are no entries. -/
theorem readLines_false_entries {ls : List Bytes} {artifact artifact' : ParsedCommitLogArtifact}
    (h : readLines false ls artifact = some artifact')
    (hmarker : ∀ line ∈ ls.dropLast, line ≠ entriesMarker) :
    artifact'.entries = artifact.entries := by
  induction ls generalizing artifact with
  | nil =>
    cases h
    rfl
  | cons line rest ih =>
    have hrest : ∀ l ∈ rest.dropLast, l ≠ entriesMarker := by
      intro l hl
      cases rest with
      | nil => cases hl
      | cons l' rest =>
        exact hmarker l (by rw [List.dropLast_cons_cons]; exact List.mem_cons_of_mem _ hl)
    rw [readLines] at h
    split at h
    next hline =>
      cases rest with
      | nil =>
        cases h
        rfl
      | cons l rest =>
        exact absurd hline
          (hmarker line (by rw [List.dropLast_cons_cons]; exact List.mem_cons_self))
    next =>
      split at h
      next => exact ih h hrest
      next =>
        simp only [Bool.not_false, ↓reduceIte] at h
        split at h
        next => cases h
        next => exact (ih h hrest).trans rfl

end ParsedCommitLogArtifact

section Cut

variable {txn : AgentTxnContext} {commitLatencyUs : PrintedNumber} {n : ℕ}

theorem newline_notMem_headLines : ∀ line ∈ headLines txn commitLatencyUs, newline ∉ line := by
  intro line hline
  rcases List.mem_cons.1 hline with rfl | hline
  · decide
  rcases List.mem_append.1 hline with hline | hline
  · obtain ⟨field, hfield, rfl⟩ := List.mem_map.1 hline
    have hreads := readsBack_commitLogFields txn commitLatencyUs field hfield
    simp [fieldLine, hreads.keyLine, hreads.valueLine, show newline ≠ (61 : Byte) by decide]
  · rw [List.mem_singleton.1 hline]
    decide

theorem fieldLine_ne_marker (field : Bytes × Bytes) : fieldLine field ≠ entriesMarker := by
  have hmem : (61 : Byte) ∈ fieldLine field := by simp [fieldLine]
  have hequals : (61 : Byte) ∉ entriesMarker := by decide
  exact fun heq => hequals (heq ▸ hmem)

theorem lines_take_commitLogText : lines newline ((commitLogText txn commitLatencyUs).take n) =
    cutLines (headLines txn commitLatencyUs ++ txn.commitLog.entries.map CommitLogEntry.line)
      n := by
  have htext : commitLogText txn commitLatencyUs =
      unlines newline
          (headLines txn commitLatencyUs ++ txn.commitLog.entries.map CommitLogEntry.line) := by
    simp only [commitLogText, headLines, List.cons_append, List.append_assoc, List.nil_append]
  rw [htext, lines_take_unlines]
  rw [List.forall_mem_append]
  exact ⟨newline_notMem_headLines, List.forall_mem_map.2 fun entry _ => entry.newline_notMem_line⟩

/-- A log that is cut before its entries has none. -/
theorem entries_of_cut_head (hn : n < headLength txn commitLatencyUs)
    {artifact : ParsedCommitLogArtifact}
    (h : parseCommitLogArtifact (some ((commitLogText txn commitLatencyUs).take n)) =
      some artifact) :
    artifact.entries = [] := by
  rw [parseCommitLogArtifact_lines, lines_take_commitLogText, cutLines_append_of_lt hn,
    headLines, cutLines] at h
  by_cases hheader : n ≤ kCommitLogHeader.length
  · rw [if_pos hheader] at h
    by_cases hzero : n = 0
    · simp [hzero] at h
    · simp only [hzero, ↓reduceIte] at h
      split at h
      next => cases h
      next =>
        cases h
        rfl
  · rw [if_neg hheader] at h
    simp only [ne_eq, not_true_eq_false, ↓reduceIte] at h
    refine ParsedCommitLogArtifact.readLines_false_entries h fun line hline => ?_
    obtain ⟨field, -, rfl⟩ := List.mem_map.1 (mem_of_mem_dropLast_cutLines line hline)
    exact fieldLine_ne_marker field

/-- What the fields of a log say. -/
def writtenMetadata (txn : AgentTxnContext) (commitLatencyUs : PrintedNumber) :
    UnorderedMap Bytes :=
  (writtenCommitLog txn commitLatencyUs).metadata

/-- A log that is cut behind its head. -/
theorem parse_cut_entries (hn : headLength txn commitLatencyUs ≤ n) :
    parseCommitLogArtifact (some ((commitLogText txn commitLatencyUs).take n)) =
      ParsedCommitLogArtifact.readLines true
        (cutLines (txn.commitLog.entries.map CommitLogEntry.line)
          (n - headLength txn commitLatencyUs))
        { metadata := writtenMetadata txn commitLatencyUs } := by
  rw [parseCommitLogArtifact_lines, lines_take_commitLogText, cutLines_append_of_le hn]
  simp only [headLines, List.cons_append, ne_eq, not_true_eq_false, ↓reduceIte,
    List.append_assoc, List.nil_append]
  rw [readLines_commitLogFields (readsBack_commitLogFields txn commitLatencyUs),
    ParsedCommitLogArtifact.readLines, if_pos rfl]
  rfl

end Cut

/-! ### Recovering from a cut log -/

section Recovery

variable {kind : StoreKind} {w : World} {entries front rest : List CommitLogEntry}
  {entry : CommitLogEntry}

theorem unrecovered_append {s : MemoryKVStore} :
    Unrecovered s (front ++ rest) ↔ Unrecovered s front ∨ Unrecovered s rest := by
  simp only [Unrecovered, List.mem_append, or_and_right, exists_or]

theorem not_unrecovered {s : MemoryKVStore} :
    ¬Unrecovered s entries ↔ ∀ entry ∈ entries, s.get entry.key = entry.parsed.written := by
  simp only [Unrecovered, not_exists, not_and, not_not]

theorem unrecovered_singleton {s : MemoryKVStore} :
    Unrecovered s [entry] ↔ s.get entry.key ≠ entry.parsed.written := by
  simp [Unrecovered]

/-- The keys of the entries that are read. -/
theorem map_key_parsed (entries : List CommitLogEntry) :
    (entries.map CommitLogEntry.parsed).map redo.key = entries.map CommitLogEntry.key := by
  rw [List.map_map]
  rfl

/-- Recovery from a log with the first entries only. -/
theorem everyOrNone_front_iff (hnodup : ((front ++ rest).map CommitLogEntry.key).Nodup)
    {s' : MemoryKVStore}
    (hs : s'.get = redo.outcome w.store.get (front.map CommitLogEntry.parsed)) :
    EveryOrNone (front ++ rest) w.store s' ↔
      ¬(Unrecovered w.store front ∧ Unrecovered w.store rest) := by
  rw [List.map_append, List.nodup_append] at hnodup
  have hfront : ∀ e ∈ front, s'.get e.key = e.parsed.written := by
    intro e he
    rw [hs]
    exact KeyedLog.outcome_of_mem (by rw [map_key_parsed]; exact hnodup.1) (List.mem_map_of_mem he)
  have hother : ∀ {k}, k ∉ front.map CommitLogEntry.key → s'.get k = w.store.get k := by
    intro k hk
    rw [hs]
    exact KeyedLog.outcome_of_notMem (by rw [map_key_parsed]; exact hk)
  have hrest : ∀ e ∈ rest, s'.get e.key = w.store.get e.key := fun e he =>
    hother fun hmem => hnodup.2.2 _ hmem _ (List.mem_map_of_mem he) rfl
  have hevery : (∀ e ∈ front ++ rest, s'.get e.key = e.parsed.written) ↔
      ¬Unrecovered w.store rest := by
    rw [not_unrecovered, List.forall_mem_append, and_iff_right hfront]
    exact forall₂_congr fun e he => by rw [hrest e he]
  have hnone : (∀ k, s'.get k = w.store.get k) ↔ ¬Unrecovered w.store front := by
    rw [not_unrecovered]
    constructor
    · exact fun hsame e he => (hsame e.key).symm.trans (hfront e he)
    · intro hheld k
      by_cases hk : k ∈ front.map CommitLogEntry.key
      · obtain ⟨e, he, rfl⟩ := List.mem_map.1 hk
        exact (hfront e he).trans (hheld e he).symm
      · exact hother hk
  rw [EveryOrNone, hevery, hnone]
  tauto

/-- What follows entries that are accepted is taken from the store that they leave. -/
theorem run_recoverEntries_append {taken more : List ParsedCommitLogEntry}
    (h : redo.Accepts w.store.get taken) (result : RecoveryResult) :
    ∃ result', (recoverEntries (taken ++ more) result).run (handle kind) w =
      (recoverEntries more result').run (handle kind)
        ((recoverEntries taken result).run (handle kind) w).2 := by
  induction taken generalizing result w with
  | nil => exact ⟨result, rfl⟩
  | cons e taken ih =>
    rw [List.cons_append, recoverEntries, recoverEntries, Store.get_bind,
      Store.get_bind, Program.run_call, Program.run_call, handle_get]
    by_cases hskip : w.store.get e.key = e.written
    · rw [if_pos (skips_iff.2 hskip), if_pos (skips_iff.2 hskip)]
      have hsame : Function.update w.store.get (redo.key e) (redo.after e) = w.store.get :=
        Function.update_eq_self_iff.2 hskip.symm
      have hrest := h.2
      rw [hsame] at hrest
      exact ih hrest _
    · have hversion : w.store.getVersion e.key = e.expectedVersion := h.1.resolve_left hskip
      have hput : handle kind (.putIfVersion e.key e.expectedVersion e.value) w =
          (true, withStore w (w.store.write e.key e.value)) := by
        simp only [handle, MemoryKVStore.putIfVersion_of_eq e.value hversion]
        rfl
      have hrest : redo.Accepts (withStore w (w.store.write e.key e.value)).store.get taken := by
        rw [withStore_store, get_write_entry hversion]
        exact h.2
      rw [if_neg (mt skips_iff.1 hskip), if_neg (mt skips_iff.1 hskip),
        Store.putIfVersion_bind, Store.putIfVersion_bind, Program.run_call, Program.run_call, hput]
      exact ih hrest _

/-- An entry that does not fit changes nothing, if its key exists. -/
theorem get_run_recoverEntries_refused {e : ParsedCommitLogEntry}
    (hfits : ¬redo.Fits e (w.store.get e.key)) (hexists : (w.store.get e.key).exists_ = true)
    (result : RecoveryResult) :
    ((recoverEntries [e] result).run (handle kind) w).2.store.get = w.store.get := by
  rw [redo, not_or] at hfits
  have hrefused : w.store.getVersion e.key ≠ e.expectedVersion := hfits.2
  rw [recoverEntries, Store.get_bind, Program.run_call, handle_get, if_neg (mt skips_iff.1 hfits.1),
    Store.putIfVersion_bind, Program.run_call]
  simp only [handle, World.withStore, MemoryKVStore.putIfVersion_of_ne _ hrefused,
    Bool.not_false, ↓reduceIte, Program.pure_eq_ret, Program.run_ret]
  funext k
  rw [MemoryKVStore.get_putIfVersion_refused _ hrefused]
  split
  next hk => rw [hk, ← hexists]
  next => rfl

/-- Recovery from a log whose last entry has lost a part of its value. -/
theorem everyOrNone_torn_iff {torn : ParsedCommitLogEntry} (hkey : torn.key = entry.key)
    (hversion : torn.expectedVersion = entry.expectedVersion) (hvalue : torn ≠ entry.parsed)
    (hnodup : ((front ++ entry :: rest).map CommitLogEntry.key).Nodup)
    (haccepts : redo.Accepts w.store.get ((front ++ entry :: rest).map CommitLogEntry.parsed)) :
    EveryOrNone (front ++ entry :: rest) w.store
        ((recoverEntries (front.map CommitLogEntry.parsed ++ [torn]) {}).run
          (handle kind) w).2.store ↔
      ¬(Unrecovered w.store [entry] ∨ Unrecovered w.store front ∧ Unrecovered w.store rest) := by
  have hwritten : torn.written ≠ entry.parsed.written := by
    rw [Ne, written_eq_written]
    rintro ⟨-, heq⟩
    apply hvalue
    obtain ⟨key, version, value⟩ := torn
    simp only [CommitLogEntry.parsed, ParsedCommitLogEntry.mk.injEq] at hkey hversion heq ⊢
    exact ⟨hkey, hversion, heq⟩
  have hfits := haccepts.fits (by rw [map_key_parsed]; exact hnodup)
    (List.mem_map_of_mem (List.mem_append_right _
      List.mem_cons_self)) (e := entry.parsed)
  have hparts := haccepts
  rw [List.map_append, KeyedLog.accepts_append] at hparts
  have hnew : entry.key ∉ front.map CommitLogEntry.key := by
    rw [List.map_append, List.nodup_append] at hnodup
    exact fun hmem => hnodup.2.2 _ hmem _ (List.mem_map_of_mem List.mem_cons_self) rfl
  have hmeets : redo.outcome w.store.get (front.map CommitLogEntry.parsed) entry.key =
      w.store.get entry.key :=
    KeyedLog.outcome_of_notMem (by rw [map_key_parsed]; exact hnew)
  by_cases hheld : w.store.get entry.key = entry.parsed.written
  · -- the entry is there already, and its torn copy does not fit
    obtain ⟨result', hrun⟩ := @run_recoverEntries_append kind w _ [torn] hparts.1 {}
    have hfront := @redoes_recoverEntries kind (front.map CommitLogEntry.parsed) {} rfl w
    have hstore := hfront.store (hfront.success.2 hparts.1)
    have hmeets' :
      ((recoverEntries (front.map CommitLogEntry.parsed) {}).run (handle kind) w).2.store.get
      torn.key =
        entry.parsed.written := by rw [hstore, hkey, hmeets, hheld]
    have hrefused : ¬redo.Fits torn
      (((recoverEntries (front.map CommitLogEntry.parsed) {}).run (handle kind) w).2.store.get
        torn.key) := by
      rw [hmeets']
      rintro (heq | heq)
      · exact hwritten heq.symm
      · rw [hversion] at heq
        exact version_add_one_ne _ heq
    have hsame := @get_run_recoverEntries_refused kind _ torn hrefused
      (by rw [hmeets']; rfl) result'
    rw [hrun, everyOrNone_front_iff hnodup (hsame.trans hstore),
      unrecovered_singleton, ← List.singleton_append, unrecovered_append, unrecovered_singleton]
    simp only [ne_eq, hheld, not_true_eq_false, false_or]
  · -- the torn copy is written
    have hcurrent : (w.store.get entry.key).version = entry.expectedVersion :=
      hfits.resolve_left hheld
    have haccepts' : redo.Accepts w.store.get (front.map CommitLogEntry.parsed ++ [torn]) := by
      rw [KeyedLog.accepts_append]
      refine ⟨hparts.1, .inr ?_, trivial⟩
      show (redo.outcome w.store.get (front.map CommitLogEntry.parsed) torn.key).version =
        torn.expectedVersion
      rw [hkey, hmeets, hversion, hcurrent]
    have htaken := @redoes_recoverEntries kind (front.map CommitLogEntry.parsed ++ [torn]) {} rfl w
    have hstore := htaken.store (htaken.success.2 haccepts')
    have hentry :
      ((recoverEntries (front.map CommitLogEntry.parsed ++ [torn]) {}).run
        (handle kind) w).2.store.get
        entry.key = torn.written := by
      rw [hstore, KeyedLog.outcome_append, ← hkey]
      exact Function.update_self _ _ _
    have hunrecovered : Unrecovered w.store [entry] := unrecovered_singleton.2 hheld
    refine iff_of_false ?_ (not_not.2 (.inl hunrecovered))
    rintro (hevery | hnone)
    · have hexact := hevery entry (List.mem_append_right _ List.mem_cons_self)
      exact hwritten (hentry.symm.trans hexact)
    · have hold := congrArg VersionedValue.version ((hnone entry.key).symm.trans hentry)
      rw [hcurrent, ← hversion] at hold
      exact version_add_one_ne _ hold.symm

/-- What recovery makes of these entry lines. -/
def afterLines (kind : StoreKind) (metadata : UnorderedMap Bytes)
    (ls : List Bytes) (w : World) : World :=
  match ParsedCommitLogArtifact.readLines true ls { metadata } with
  | none => w
  | some artifact => ((recoverEntries artifact.entries {}).run (handle kind) w).2

/-- A cut on one entry line, behind the lines of others. -/
theorem everyOrNone_severed_iff {metadata : UnorderedMap Bytes} {r : ℕ}
    (hvalues : ∀ e ∈ front ++ entry :: rest, e.value ≠ [])
    (hnodup : ((front ++ entry :: rest).map CommitLogEntry.key).Nodup)
    (haccepts : redo.Accepts w.store.get ((front ++ entry :: rest).map CommitLogEntry.parsed)) :
    EveryOrNone (front ++ entry :: rest) w.store (afterLines kind metadata
        (front.map CommitLogEntry.line ++ if r = 0 then [] else [entry.line.take r]) w).store ↔
      ¬SeversAt w.store front entry rest r := by
  rw [List.forall_mem_append, List.forall_mem_cons] at hvalues
  have hfront : ∀ {es es'}, front ++ entry :: rest = es ++ es' →
      (EveryOrNone (es ++ es') w.store
        ((recoverEntries (es.map CommitLogEntry.parsed) {}).run (handle kind) w).2.store ↔
        ¬(Unrecovered w.store es ∧ Unrecovered w.store es')) := by
    intro es es' hes
    rw [hes] at hnodup haccepts
    rw [List.map_append, KeyedLog.accepts_append] at haccepts
    have hrun := @redoes_recoverEntries kind (es.map CommitLogEntry.parsed) {} rfl w
    exact everyOrNone_front_iff hnodup (hrun.store (hrun.success.2 haccepts.1))
  rw [afterLines, ParsedCommitLogArtifact.readLines_entries_append hvalues.1,
    SeversAt, List.nil_append]
  by_cases hwhole : r = 0 ∨ entry.line.take r = entriesMarker
  · have hread : ParsedCommitLogArtifact.readLines true (if r = 0 then [] else [entry.line.take r])
        { metadata, entries := front.map CommitLogEntry.parsed } =
        some { metadata, entries := front.map CommitLogEntry.parsed } := by
      by_cases hzero : r = 0
      · rw [if_pos hzero]
        rfl
      · rw [if_neg hzero, ParsedCommitLogArtifact.readLines, if_pos (hwhole.resolve_left hzero)]
        rfl
    rw [if_pos hwhole, hread]
    exact hfront rfl
  rw [if_neg hwhole]
  rw [not_or] at hwhole
  have hne : entry.line.take r ≠ [] := by
    rw [Ne, List.take_eq_nil_iff, not_or]
    exact ⟨hwhole.1, entry.line_ne.2⟩
  rw [if_neg hwhole.1, ParsedCommitLogArtifact.readLines, if_neg hwhole.2,
    if_neg hne, if_neg (by simp)]
  by_cases hr : entry.valueStart < r
  · rw [CommitLogEntry.readEntry_take hr hvalues.2.1, and_iff_right hr]
    simp only [ParsedCommitLogArtifact.readLines]
    by_cases hkeeps : entry.KeepsValue r
    · have hsplit : front ++ entry :: rest = (front ++ [entry]) ++ rest := by
        rw [List.append_assoc, List.singleton_append]
      have hmap : front.map CommitLogEntry.parsed ++ [entry.parsed] =
          (front ++ [entry]).map CommitLogEntry.parsed := by
        rw [List.map_append, List.map_singleton]
      rw [if_pos hkeeps, (CommitLogEntry.torn_eq_parsed_iff hr).2 hkeeps, hmap, hsplit]
      exact hfront hsplit
    · rw [if_neg hkeeps]
      exact everyOrNone_torn_iff rfl rfl (mt (CommitLogEntry.torn_eq_parsed_iff hr).1 hkeeps)
        hnodup haccepts
  · rw [CommitLogEntry.readEntry_take_eq_none (Nat.le_of_not_lt hr)]
    exact iff_of_true (.inr fun k => rfl) fun h => hr h.1

/-- A cut anywhere in the entry lines. -/
theorem everyOrNone_cut_iff {metadata : UnorderedMap Bytes} {todo : List CommitLogEntry} {n : ℕ}
    (hvalues : ∀ e ∈ front ++ todo, e.value ≠ [])
    (hnodup : ((front ++ todo).map CommitLogEntry.key).Nodup)
    (haccepts : redo.Accepts w.store.get ((front ++ todo).map CommitLogEntry.parsed)) :
    EveryOrNone (front ++ todo) w.store (afterLines kind metadata
        (front.map CommitLogEntry.line ++ cutLines (todo.map CommitLogEntry.line) n) w).store ↔
      ¬Severs w.store front todo n := by
  induction todo generalizing front n with
  | nil =>
    have hrun := @redoes_recoverEntries kind (front.map CommitLogEntry.parsed) {} rfl w
    rw [List.append_nil] at hvalues haccepts
    rw [List.map_nil, cutLines, afterLines,
      ParsedCommitLogArtifact.readLines_entries_append hvalues]
    refine (everyOrNone_front_iff hnodup (hrun.store (hrun.success.2 haccepts))).trans ?_
    simp [Severs, Unrecovered]
  | cons entry rest ih =>
    rw [List.map_cons, cutLines, Severs]
    by_cases hn : n ≤ entry.line.length
    · rw [if_pos hn, if_pos hn]
      exact everyOrNone_severed_iff hvalues hnodup haccepts
    · have hsplit : front ++ entry :: rest = (front ++ [entry]) ++ rest := by
        rw [List.append_assoc, List.singleton_append]
      have hlines : front.map CommitLogEntry.line ++ entry.line ::
          cutLines (rest.map CommitLogEntry.line) (n - entry.line.length - 1) =
          (front ++ [entry]).map CommitLogEntry.line ++
            cutLines (rest.map CommitLogEntry.line) (n - entry.line.length - 1) := by
        rw [List.map_append, List.map_singleton, List.append_assoc, List.singleton_append]
      rw [if_neg hn, if_neg hn, hlines, hsplit]
      rw [hsplit] at hvalues hnodup haccepts
      exact ih hvalues hnodup haccepts

/-- The world with a log at the path. -/
def withLog (path text : Bytes) (w : World) : World := { w with files := w.files.insert path text }

variable {path text : Bytes}

theorem lookup_withLog :
    (withLog path text w).files.lookup path = some text := AList.lookup_insert _

/-- Recovery from one log. -/
theorem run_recoverCommittedWrites_one :
    ((recoverCommittedWrites [path]).run (handle kind) (withLog path text w)).2 =
    match parseCommitLogArtifact (some text) with
    | none => withLog path text w
    | some artifact =>
      if artifact.metadata.lookup (ascii "status") ≠ some (ascii "COMMITTED") then
        withLog path text w
      else ((recoverEntries artifact.entries {}).run (handle kind) (withLog path text w)).2 := by
  rw [recoverCommittedWrites, recoverPaths, Files.read_bind, Program.run_call,
    handle_readFile, lookup_withLog]
  cases parseCommitLogArtifact (some text) with
  | none => rfl
  | some artifact =>
    simp only
    split
    next => rfl
    next =>
      rw [Program.run_bind]
      split <;> rfl

variable {txn : AgentTxnContext} {commitLatencyUs : PrintedNumber}

theorem status_writtenMetadata (hcommitted : txn.status = .committed) :
    (writtenMetadata txn commitLatencyUs).lookup (ascii "status") = some (ascii "COMMITTED") := by
  rw [writtenMetadata, (restoresCommit_written txn commitLatencyUs).status, hcommitted]
  rfl

/-- A log that is recovered without a conflict fits the store. -/
theorem accepts_of_recovered (hcommitted : txn.status = .committed)
    (hvalues : ∀ e ∈ txn.commitLog.entries, e.value ≠ [])
    (hclean : ((recoverCommittedWrites [path]).run (handle kind)
      (withLog path (commitLogText txn commitLatencyUs) w)).1.success = true) :
    redo.Accepts w.store.get (txn.commitLog.entries.map CommitLogEntry.parsed) := by
  obtain ⟨entries, hentries, haccepts, -⟩ := redoes_of_success hclean
  have hcommittedEntries : (writtenCommitLog txn commitLatencyUs).committedEntries =
      txn.commitLog.entries.map CommitLogEntry.parsed := by
    rw [ParsedCommitLogArtifact.committedEntries, if_pos]
    · rfl
    · exact status_writtenMetadata hcommitted
  rw [committedEntries, lookup_withLog, parseCommitLogArtifact_text, if_pos hvalues] at hentries
  simp only [committedEntries, Option.bind_eq_bind, Option.bind_some, hcommittedEntries,
    List.append_nil, Option.pure_def, Option.some.injEq] at hentries
  rw [hentries]
  exact haccepts

/-- Recovery from the first `n` bytes of the log of a committed transaction, in a store in
which the whole log can be recovered, writes the transaction as a whole or not at all
exactly if the cut does not part it. -/
theorem recoverCommittedWrites_torn_iff (kind : StoreKind) (txn : AgentTxnContext)
    (commitLatencyUs : PrintedNumber) (path : Bytes) (w : World) (n : ℕ)
    (hcommitted : txn.status = .committed) (hvalues : ∀ e ∈ txn.commitLog.entries, e.value ≠ [])
    (hnodup : (txn.commitLog.entries.map CommitLogEntry.key).Nodup)
    (hclean : ((recoverCommittedWrites [path]).run (handle kind)
      (withLog path (commitLogText txn commitLatencyUs) w)).1.success = true) :
    EveryOrNone txn.commitLog.entries w.store ((recoverCommittedWrites [path]).run (handle kind)
        (withLog path ((commitLogText txn commitLatencyUs).take n) w)).2.store ↔
      ¬SeversLog txn commitLatencyUs w.store n := by
  have haccepts := accepts_of_recovered hcommitted hvalues hclean
  rw [run_recoverCommittedWrites_one]
  by_cases hn : headLength txn commitLatencyUs ≤ n
  · rw [parse_cut_entries hn, SeversLog, and_iff_right hn]
    have hcut :=
      @everyOrNone_cut_iff kind (withLog path ((commitLogText txn commitLatencyUs).take n) w) []
      (writtenMetadata txn commitLatencyUs) txn.commitLog.entries
        (n - headLength txn commitLatencyUs) hvalues hnodup haccepts
    rw [List.map_nil, List.nil_append, List.nil_append, afterLines] at hcut
    refine Iff.trans ?_ hcut
    cases hread : ParsedCommitLogArtifact.readLines true
      (cutLines (txn.commitLog.entries.map CommitLogEntry.line)
        (n - headLength txn commitLatencyUs))
      { metadata := writtenMetadata txn commitLatencyUs } with
    | none => exact Iff.rfl
    | some artifact =>
      have hstatus : artifact.metadata.lookup (ascii "status") = some (ascii "COMMITTED") := by
        rw [ParsedCommitLogArtifact.readLines_true_metadata hread]
        exact status_writtenMetadata hcommitted
      simp only [hstatus, ne_eq, not_true_eq_false, ↓reduceIte]
      exact Iff.rfl
  · have hsame : EveryOrNone txn.commitLog.entries w.store w.store := .inr fun k => rfl
    refine iff_of_true ?_ fun h => hn h.1
    cases hparse : parseCommitLogArtifact (some ((commitLogText txn commitLatencyUs).take n)) with
    | none => exact hsame
    | some artifact =>
      simp only [entries_of_cut_head (Nat.lt_of_not_le hn) hparse]
      split <;> exact hsame

end Recovery

/-- A transaction that has created two keys. -/
def createsTwo : AgentTxnContext where
  txnId := ascii "1"
  taskId := ascii "1"
  status := .committed
  winnerBranchId := ascii "b"
  commitLog := { entries := [{ key := ascii "k", value := ascii "v", expectedVersion := 0 },
    { key := ascii "l", value := ascii "w", expectedVersion := 0 }] }

def createsTwoLog : Bytes := commitLogText createsTwo ⟨ascii "0", newline_notMem_zero⟩

/-- A cut within the version of the second entry. -/
theorem recoverCommittedWrites_torn_version :
    EveryOrNone createsTwo.commitLog.entries {}
      ((recoverCommittedWrites [ascii "1"]).run (handle .memory)
        (withLog (ascii "1") (createsTwoLog.take (createsTwoLog.length - 3)) {})).2.store ↔
      ¬SeversLog createsTwo ⟨ascii "0", by decide⟩ {} (createsTwoLog.length - 3) :=
  recoverCommittedWrites_torn_iff .memory createsTwo ⟨ascii "0", by decide⟩ (ascii "1") {}
    _ rfl (by decide) (by decide)
    (by decide +kernel)

/-- A cut between the two entries: recovery writes the first and not the second. -/
theorem recoverCommittedWrites_torn_between :
    ¬∀ (kind : StoreKind) (txn : AgentTxnContext) (commitLatencyUs : PrintedNumber)
      (path : Bytes) (w : World) (n : ℕ),
      txn.status = .committed → (∀ e ∈ txn.commitLog.entries, e.value ≠ []) →
      (txn.commitLog.entries.map CommitLogEntry.key).Nodup →
        n < (commitLogText txn commitLatencyUs).length →
      ((recoverCommittedWrites [path]).run (handle kind)
        (withLog path (commitLogText txn commitLatencyUs) w)).1.success = true →
      EveryOrNone txn.commitLog.entries w.store ((recoverCommittedWrites [path]).run (handle kind)
        (withLog path ((commitLogText txn commitLatencyUs).take n) w)).2.store := by
  intro h
  have htorn : EveryOrNone createsTwo.commitLog.entries {}
    ((recoverCommittedWrites [ascii "1"]).run (handle .memory)
      (withLog (ascii "1") (createsTwoLog.take (createsTwoLog.length - 6)) {})).2.store :=
    h .memory createsTwo ⟨ascii "0", by decide⟩ (ascii "1") {} (createsTwoLog.length - 6)
      rfl (by decide) (by decide)
      (by decide +kernel) (by decide +kernel)
  have hfirst : ((recoverCommittedWrites [ascii "1"]).run (handle .memory)
      (withLog (ascii "1") (createsTwoLog.take (createsTwoLog.length - 6)) {})).2.store.get
        (ascii "k") =
      { value := ascii "v", version := 1, exists_ := true } := by decide +kernel
  have hsecond : ((recoverCommittedWrites [ascii "1"]).run (handle .memory)
      (withLog (ascii "1") (createsTwoLog.take (createsTwoLog.length - 6)) {})).2.store.get
        (ascii "l") = {} := by decide +kernel
  rcases htorn with hevery | hnone
  · have hl := hsecond.symm.trans
        (hevery { key := ascii "l", value := ascii "w", expectedVersion := 0 } (by decide))
    cases hl
  · have hk := hfirst.symm.trans (hnone (ascii "k"))
    cases hk

end DataAgentSystem.AgentTxn
