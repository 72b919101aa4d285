import DataAgentSystem.Storage.MemoryKVStore
import DataAgentSystem.Text.Decimal
import DataAgentSystem.Text.Escaping
import DataAgentSystem.Text.Lines

/-! The text form of a snapshot: a header, then one line for each entry with its key,
version and value. The reader stops at the first line that lacks one of the three,
and a line whose value is empty lacks it. What is read from a snapshot that was cut
off is given by the entries themselves. -/

namespace DataAgentSystem.Storage

open Text Containers

namespace FileKVStore

def kFileHeader : Bytes := ascii "DAS_KV_V1"

/-- `Escape` and `Unescape`. -/
def escape (input : Bytes) : Bytes := backslashEscaping.escape input

def unescape (input : Bytes) : Bytes := backslashEscaping.unescape input

/-- The bytes of a line before its value. -/
def lineHead (pair : Bytes × Entry) : Bytes :=
  escape pair.1 ++ tab :: (decimal pair.2.version.toNat ++ [tab])

def line (pair : Bytes × Entry) : Bytes := lineHead pair ++ escape pair.2.value

/-- The text `WriteSnapshotUnlocked` writes. -/
def snapshotText (pairs : List (Bytes × Entry)) : Bytes :=
  unlines newline (kFileHeader :: pairs.map line)

/-- The fields of a line. -/
def readLine (text : Bytes) : Option (Bytes × Entry) := do
  let (encodedKey, rest) ← getline tab text
  let (versionText, rest) ← getline tab rest
  let (encodedValue, _) ← getline newline rest
  return (unescape encodedKey, { value := unescape encodedValue, version := strtoull versionText })

/-- The loop over the lines after the header. -/
def readLines : List Bytes → UnorderedMap Entry → Bool × UnorderedMap Entry
  | [], values => (true, values)
  | line :: rest, values =>
    if line = [] then readLines rest values
    else match readLine line with
      | none => (false, values)
      | some (key, entry) => readLines rest (values.insert key entry)

/-- What `LoadFromDiskUnlocked` makes of the contents of its file, none if there is no file. -/
def readSnapshot : Option Bytes → Bool × UnorderedMap Entry
  | none => (true, ∅)
  | some contents =>
    match getline newline contents with
    | none => (true, ∅)
    | some (line, rest) =>
      if line ≠ kFileHeader then (false, ∅) else readLines (lines newline rest) ∅

/-- Entries, as a map. -/
def mapOf (pairs : List (Bytes × Entry)) : UnorderedMap Entry :=
  UnorderedMap.assignAll Prod.fst Prod.snd pairs ∅

/-! ### Lines -/

section Lines

variable (pair : Bytes × Entry)

theorem newline_notMem_lineHead : newline ∉ lineHead pair := by
  have htab : newline ≠ tab := by decide
  have hdecimal : newline ∉ decimal pair.2.version.toNat := notMem_decimal (by decide) _
  simp [lineHead, escape, newline_notMem_escape, htab, hdecimal]

theorem newline_notMem_line : newline ∉ line pair := by
  simp only [line, List.mem_append, not_or]
  exact ⟨newline_notMem_lineHead pair, newline_notMem_escape _⟩

/-- A line whose value part is `v`. -/
theorem readLine_head_append {v : Bytes} (hv : newline ∉ v) :
    readLine (lineHead pair ++ v) =
      if v = [] then none
        else some (pair.1, { value := unescape v, version := pair.2.version }) := by
  have hkey : tab ∉ escape pair.1 := tab_notMem_escape _
  have hversion : tab ∉ decimal pair.2.version.toNat := notMem_decimal (by decide) _
  have hsplit : lineHead pair ++ v = escape pair.1 ++
      tab :: (decimal pair.2.version.toNat ++ tab :: v) := by
    simp [lineHead]
  have hunescape : unescape (escape pair.1) = pair.1 := backslashEscaping.unescape_escape _
  rw [hsplit, readLine]
  simp only [Option.bind_eq_bind, getline_append hkey, getline_append hversion, Option.bind_some]
  by_cases hnil : v = []
  · subst hnil
    rfl
  · rw [getline_last hv hnil, if_neg hnil, strtoull_decimal, hunescape]
    rfl

theorem readLine_of_notMem {s : Bytes} (hs : tab ∉ s) : readLine s = none := by
  cases s with
  | nil => rfl
  | cons c cs =>
    rw [readLine, getline_last hs (List.cons_ne_nil c cs)]
    rfl

theorem readLine_append_of_notMem {s t : Bytes} (hs : tab ∉ s) (ht : tab ∉ t) :
    readLine (s ++ tab :: t) = none := by
  simp only [readLine, getline_append hs, Option.bind_eq_bind, Option.bind_some]
  cases t with
  | nil => rfl
  | cons c cs =>
    rw [getline_last ht (List.cons_ne_nil c cs)]
    rfl

/-- A line that ends before its value cannot be read. -/
theorem readLine_take_head {n : ℕ} (hn : n ≤ (lineHead pair).length) :
    readLine ((lineHead pair).take n) = none := by
  have hkey : tab ∉ escape pair.1 := tab_notMem_escape _
  have hversion : tab ∉ decimal pair.2.version.toNat := notMem_decimal (by decide) _
  by_cases hwhole : n = (lineHead pair).length
  · have hread := readLine_head_append pair (v := []) List.not_mem_nil
    rw [List.append_nil, if_pos rfl] at hread
    rw [hwhole, List.take_length, hread]
  · have hlen : (lineHead pair).length = (escape pair.1).length +
        (decimal pair.2.version.toNat).length + 2 := by
      simp only [lineHead, List.length_append, List.length_cons, List.length_nil]
      omega
    rw [lineHead, List.take_append]
    by_cases hshort : n ≤ (escape pair.1).length
    · rw [Nat.sub_eq_zero_of_le hshort, List.take_zero, List.append_nil]
      exact readLine_of_notMem (notMem_take hkey n)
    · obtain ⟨m, hm⟩ : ∃ m, n - (escape pair.1).length = m + 1 :=
        ⟨n - (escape pair.1).length - 1, by omega⟩
      have hm' : m ≤ (decimal pair.2.version.toNat).length := by omega
      rw [hm, List.take_of_length_le (by omega), List.take_succ_cons,
        List.take_append_of_le_length hm']
      exact readLine_append_of_notMem hkey (notMem_take hversion m)

theorem line_ne_nil : line pair ≠ [] := by
  apply List.ne_nil_of_mem (a := tab)
  simp [line, lineHead]

end Lines

/-! ### Reading a cut snapshot -/

/-- The entries of which the first `n` bytes of their lines tell; the last value may be cut. -/
def shownFrom : List (Bytes × Entry) → ℕ → List (Bytes × Entry)
  | [], _ => []
  | (key, entry) :: rest, n =>
    if entry.value = [] ∨ n ≤ (lineHead (key, entry)).length then []
    else if n ≤ (line (key, entry)).length then
      [(key, { entry with
        value := unescape ((escape entry.value).take (n - (lineHead (key, entry)).length)) })]
    else (key, entry) :: shownFrom rest (n - (line (key, entry)).length - 1)

/-- The entries of which the first `n` bytes of a snapshot tell. -/
def shown (pairs : List (Bytes × Entry)) (n : ℕ) : List (Bytes × Entry) :=
  shownFrom pairs (n - (kFileHeader.length + 1))

theorem line_length (pair : Bytes × Entry) :
    (line pair).length = (lineHead pair).length + (escape pair.2.value).length := by
  rw [line, List.length_append]

theorem escape_eq_nil {s : Bytes} : escape s = [] ↔ s = [] := backslashEscaping.escape_eq_nil

/-- What a line that is cut within its value, or not at all, is read as. -/
theorem readLine_take {pair : Bytes × Entry} {n : ℕ} (hn : (lineHead pair).length < n) :
    readLine ((line pair).take n) = if pair.2.value = [] then none else
      some (pair.1,
        { pair.2 with value := unescape ((escape pair.2.value).take (n - (lineHead pair).length)) }) := by
  have hnewline : newline ∉ (escape pair.2.value).take (n - (lineHead pair).length) :=
    notMem_take (newline_notMem_escape _) _
  have hnil : (escape pair.2.value).take (n - (lineHead pair).length) = [] ↔ pair.2.value = [] := by
    rw [List.take_eq_nil_iff, escape_eq_nil, or_iff_right]
    omega
  rw [line, List.take_append, List.take_of_length_le hn.le, readLine_head_append pair hnewline]
  simp only [hnil]

theorem readLine_line (pair : Bytes × Entry) :
    readLine (line pair) = if pair.2.value = [] then none else some pair := by
  have hread := readLine_head_append pair (newline_notMem_escape pair.2.value)
  have hunescape : unescape (backslashEscaping.escape pair.2.value) = pair.2.value :=
    backslashEscaping.unescape_escape _
  simp only [hunescape, backslashEscaping.escape_eq_nil] at hread
  exact hread

/-- The reader of a cut list of lines gets the entries that are shown, whether it fails or not. -/
theorem readLines_cutLines (pairs : List (Bytes × Entry)) (n : ℕ) (values : UnorderedMap Entry) :
    (readLines (cutLines (pairs.map line) n) values).2 =
      UnorderedMap.assignAll Prod.fst Prod.snd (shownFrom pairs n) values := by
  induction pairs generalizing n values with
  | nil => rfl
  | cons pair pairs ih =>
    have hlen := line_length pair
    by_cases hhead : n ≤ (lineHead pair).length
    · have hshown : shownFrom (pair :: pairs) n = [] := by rw [shownFrom, if_pos (.inr hhead)]
      rw [hshown, List.map_cons, cutLines, if_pos (by omega)]
      split
      next => rfl
      next hn =>
        have hne : (line pair).take n ≠ [] := by
          rw [Ne, List.take_eq_nil_iff]
          simp [hn, line_ne_nil]
        have htake : (line pair).take n = (lineHead pair).take n := by
          rw [line, List.take_append_of_le_length hhead]
        rw [readLines, if_neg hne, htake, readLine_take_head pair hhead]
        rfl
    by_cases hcut : n ≤ (line pair).length
    · have hvalue : pair.2.value ≠ [] := by
        intro h
        rw [h] at hlen
        simp only [escape, Escaping.escape_nil, List.length_nil] at hlen
        omega
      have hne : (line pair).take n ≠ [] := by
        rw [Ne, List.take_eq_nil_iff]
        simp only [line_ne_nil, or_false]
        omega
      rw [shownFrom, if_neg (by simp [hvalue, hhead]), if_pos hcut,
        List.map_cons, cutLines, if_pos hcut, if_neg (by omega), readLines, if_neg hne,
        readLine_take (by omega), if_neg hvalue]
      rfl
    · rw [shownFrom, List.map_cons, cutLines, if_neg hcut, readLines, if_neg (line_ne_nil pair),
        readLine_line]
      by_cases hvalue : pair.2.value = []
      · rw [if_pos hvalue, if_pos (.inl hvalue)]
        rfl
      · rw [if_neg hvalue, if_neg (by simp [hvalue, hhead]), if_neg hcut]
        exact ih _ _

theorem shownFrom_zero (pairs : List (Bytes × Entry)) : shownFrom pairs 0 = [] := by
  cases pairs with
  | nil => rfl
  | cons pair pairs => rw [shownFrom, if_pos (.inr (Nat.zero_le _))]

/-- A snapshot of which only the first `n` bytes are there. -/
theorem readSnapshot_take (pairs : List (Bytes × Entry)) (n : ℕ) :
    (readSnapshot (some ((snapshotText pairs).take n))).2 = mapOf (shown pairs n) := by
  have hheader : newline ∉ kFileHeader := by decide
  have hlines : ∀ l ∈ pairs.map line, newline ∉ l := by
    intro l hl
    obtain ⟨pair, -, rfl⟩ := List.mem_map.1 hl
    exact newline_notMem_line pair
  rw [mapOf, shown, snapshotText, unlines_cons, List.take_append, readSnapshot]
  by_cases hn : n ≤ kFileHeader.length
  · have hshown : n - (kFileHeader.length + 1) = 0 := by omega
    rw [hshown, shownFrom_zero, Nat.sub_eq_zero_of_le hn, List.take_zero, List.append_nil]
    by_cases hnil : kFileHeader.take n = []
    · rw [hnil]
      rfl
    · rw [getline_last (notMem_take hheader n) hnil]
      simp only
      split <;> rfl
  · obtain ⟨m, hm⟩ : ∃ m, n - kFileHeader.length = m + 1 := ⟨n - kFileHeader.length - 1, by omega⟩
    have hm' : n - (kFileHeader.length + 1) = m := by omega
    rw [hm, hm', List.take_of_length_le (by omega), List.take_succ_cons, getline_append hheader]
    simp only [ne_eq, not_true_eq_false, ↓reduceIte]
    rw [lines_take_unlines hlines, readLines_cutLines]

/-! ### Reading a whole snapshot -/

/-- A snapshot without empty values is read back, entry by entry. -/
theorem readSnapshot_text {pairs : List (Bytes × Entry)}
    (hvalues : ∀ pair ∈ pairs, pair.2.value ≠ []) :
    readSnapshot (some (snapshotText pairs)) = (true, mapOf pairs) := by
  have hheader : newline ∉ kFileHeader := by decide
  have hlines : ∀ l ∈ pairs.map line, newline ∉ l := by
    intro l hl
    obtain ⟨pair, -, rfl⟩ := List.mem_map.1 hl
    exact newline_notMem_line pair
  have hread : ∀ values, readLines (pairs.map line) values =
      (true, UnorderedMap.assignAll Prod.fst Prod.snd pairs values) := by
    clear hlines
    induction pairs with
    | nil => exact fun values => rfl
    | cons pair pairs ih =>
      intro values
      rw [List.forall_mem_cons] at hvalues
      rw [List.map_cons, readLines, if_neg (line_ne_nil pair), readLine_line, if_neg hvalues.1]
      exact ih hvalues.2 _
  rw [snapshotText, unlines_cons, readSnapshot, getline_append hheader]
  simp only [ne_eq, not_true_eq_false, ↓reduceIte]
  rw [lines_unlines hlines, hread]
  rfl

theorem readLine_value_ne_nil {text : Bytes} {pair : Bytes × Entry} (htext : newline ∉ text)
    (h : readLine text = some pair) : pair.2.value ≠ [] := by
  simp only [readLine, Option.bind_eq_bind, Option.bind_eq_some_iff] at h
  obtain ⟨⟨encodedKey, rest⟩, hkey, ⟨versionText, rest'⟩, hversion,
    ⟨encodedValue, rest''⟩, hvalue, heq⟩ := h
  have hrest : newline ∉ rest' := fun hmem =>
    htext (getline_rest_subset hkey (getline_rest_subset hversion hmem))
  have hne := getline_ne_nil hvalue
  rw [getline_last hrest hne, Option.some.injEq, Prod.mk.injEq] at hvalue
  rw [← Option.some.inj heq]
  exact backslashEscaping.unescape_ne_nil (hvalue.1 ▸ hne)

theorem readLines_value_ne_nil {ls : List Bytes} (hls : ∀ l ∈ ls, newline ∉ l) :
    ∀ {values : UnorderedMap Entry},
      (∀ key entry, values.lookup key = some entry → entry.value ≠ []) →
      ∀ key entry, (readLines ls values).2.lookup key = some entry → entry.value ≠ [] := by
  induction ls with
  | nil => exact fun hvalues => hvalues
  | cons l ls ih =>
    intro values hvalues
    rw [List.forall_mem_cons] at hls
    rw [readLines]
    split
    next => exact ih hls.2 hvalues
    next =>
      split
      next => exact hvalues
      next key' entry' hread =>
        refine ih hls.2 fun key entry hentry => ?_
        rw [UnorderedMap.lookup_insert_eq_ite] at hentry
        split at hentry
        next =>
          rw [← Option.some.inj hentry]
          exact readLine_value_ne_nil hls.1 hread
        next => exact hvalues key entry hentry

/-- Nothing is ever read as a map with an empty value. -/
theorem readSnapshot_value_ne_nil {contents : Option Bytes} {key : Bytes} {entry : Entry}
    (h : (readSnapshot contents).2.lookup key = some entry) : entry.value ≠ [] := by
  have hempty : ∀ key entry, (∅ : UnorderedMap Entry).lookup key = some entry →
      entry.value ≠ [] := by
    intro key entry h
    simp at h
  revert h
  rw [readSnapshot.eq_def]
  split
  next => exact hempty key entry
  next contents =>
    split
    next => exact hempty key entry
    next =>
      split
      next => exact hempty key entry
      next => exact readLines_value_ne_nil notMem_of_mem_lines hempty key entry

end FileKVStore

end DataAgentSystem.Storage
