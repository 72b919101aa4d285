import DataAgentSystem.Text.Bytes

/-! Reading delimited text. `getline` takes the bytes before the next delimiter; it
fails only where no byte is left, so a text that ends in a delimiter has no last
empty piece and one that does not still yields its last piece. -/

namespace DataAgentSystem.Text

variable {d : Byte}

/-- The bytes before the next `d` and the rest after it. -/
def getline (d : Byte) : Bytes → Option (Bytes × Bytes)
  | [] => none
  | s => some (s.takeWhile (· != d), (s.dropWhile (· != d)).drop 1)

@[simp] theorem getline_nil : getline d [] = none := rfl

theorem getline_eq {s : Bytes} (hs : s ≠ []) :
    getline d s = some (s.takeWhile (· != d), (s.dropWhile (· != d)).drop 1) := by
  cases s with
  | nil => exact absurd rfl hs
  | cons c cs => rfl

/-- A text without the delimiter passes the scan for it. -/
theorem bne_of_notMem {s : Bytes} (hs : d ∉ s) : ∀ c ∈ s, (c != d) = true := by
  intro c hc
  rw [bne_iff_ne]
  rintro rfl
  exact hs hc

theorem getline_append {s t : Bytes} (hs : d ∉ s) : getline d (s ++ d :: t) = some (s, t) := by
  rw [getline_eq (by simp), List.takeWhile_append_of_pos (bne_of_notMem hs),
    List.dropWhile_append_of_pos (bne_of_notMem hs)]
  simp

theorem getline_last {s : Bytes} (hs : d ∉ s) (hne : s ≠ []) : getline d s = some (s, []) := by
  have htake := @List.takeWhile_append_of_pos _ _ s [] (bne_of_notMem hs)
  have hdrop := @List.dropWhile_append_of_pos _ _ s [] (bne_of_notMem hs)
  simp only [List.append_nil] at htake hdrop
  rw [getline_eq hne, htake, hdrop]
  simp

theorem getline_ne_nil {s : Bytes} {p : Bytes × Bytes} (h : getline d s = some p) : s ≠ [] := by
  rintro rfl
  simp at h

/-- The rest after a piece holds nothing new. -/
theorem getline_rest_subset {s l t : Bytes} (h : getline d s = some (l, t)) : t ⊆ s := by
  rw [getline_eq (getline_ne_nil h), Option.some.injEq, Prod.mk.injEq] at h
  rw [← h.2]
  exact fun c hc => (List.dropWhile_sublist _).subset (List.mem_of_mem_drop hc)

/-- The text before and after the first `d`, if there is one. -/
def splitOnce (d : Byte) (s : Bytes) : Option (Bytes × Bytes) :=
  if d ∈ s then some (s.takeWhile (· != d), (s.dropWhile (· != d)).drop 1) else none

theorem splitOnce_append {s t : Bytes} (hs : d ∉ s) : splitOnce d (s ++ d :: t) = some (s, t) := by
  rw [splitOnce, if_pos (by simp), List.takeWhile_append_of_pos (bne_of_notMem hs),
    List.dropWhile_append_of_pos (bne_of_notMem hs)]
  simp

theorem subset_of_splitOnce {s key value : Bytes} (h : splitOnce d s = some (key, value)) :
    value ⊆ s := by
  rw [splitOnce] at h
  split at h
  · obtain ⟨-, rfl⟩ := Prod.mk.inj (Option.some.inj h)
    exact fun c hc => (List.dropWhile_sublist _).subset (List.mem_of_mem_drop hc)
  · cases h

/-- The pieces that repeated `getline` calls return. -/
def lines (d : Byte) : Bytes → List Bytes
  | [] => []
  | c :: cs => if c = d then [] :: lines d cs else
    match lines d cs with
    | [] => [[c]]
    | l :: ls => (c :: l) :: ls

@[simp] theorem lines_nil : lines d [] = [] := rfl

theorem lines_append {s t : Bytes} (hs : d ∉ s) : lines d (s ++ d :: t) = s :: lines d t := by
  induction s with
  | nil => simp [lines]
  | cons c cs ih =>
    simp only [List.mem_cons, not_or] at hs
    simp [lines, Ne.symm hs.1, ih hs.2]

theorem lines_last {s : Bytes} (hs : d ∉ s) (hne : s ≠ []) : lines d s = [s] := by
  induction s with
  | nil => exact absurd rfl hne
  | cons c cs ih =>
    simp only [List.mem_cons, not_or] at hs
    cases cs with
    | nil => simp [lines, Ne.symm hs.1]
    | cons e es =>
      rw [lines, if_neg (Ne.symm hs.1), ih hs.2 (by simp)]

theorem notMem_of_mem_lines {s : Bytes} : ∀ l ∈ lines d s, d ∉ l := by
  induction s with
  | nil => exact fun l hl => absurd hl List.not_mem_nil
  | cons c cs ih =>
    rw [lines]
    by_cases hc : c = d
    · rw [if_pos hc]
      exact List.forall_mem_cons.2 ⟨List.not_mem_nil, ih⟩
    · rw [if_neg hc]
      cases hcs : lines d cs with
      | nil => simp [Ne.symm hc]
      | cons l ls =>
        rw [hcs, List.forall_mem_cons] at ih
        exact List.forall_mem_cons.2 ⟨by simp [Ne.symm hc, ih.1], ih.2⟩

/-- `lines` is the loop over `getline`. -/
theorem lines_eq_getline {s l t : Bytes} (h : getline d s = some (l, t)) :
    lines d s = l :: lines d t := by
  induction s generalizing l with
  | nil => simp at h
  | cons c cs ih =>
    rw [getline_eq (by simp)] at h
    by_cases hc : c = d
    · subst hc
      simp at h
      obtain ⟨rfl, rfl⟩ := h
      simp [lines]
    · simp [hc] at h
      obtain ⟨rfl, rfl⟩ := h
      cases cs with
      | nil => simp [lines, hc]
      | cons e es =>
        have hrest := getline_eq (d := d) (s := e :: es) (by simp)
        simp only [List.drop_one] at hrest
        rw [lines, if_neg hc, ih hrest]

/-- A text of terminated lines. -/
def unlines (d : Byte) (ls : List Bytes) : Bytes := ls.flatMap fun l => l ++ [d]

@[simp] theorem unlines_nil : unlines d [] = [] := rfl

@[simp] theorem unlines_cons (l : Bytes) (ls : List Bytes) :
    unlines d (l :: ls) = l ++ d :: unlines d ls := by
  simp [unlines]

theorem lines_unlines_append {ls : List Bytes} (hls : ∀ l ∈ ls, d ∉ l) (t : Bytes) :
    lines d (unlines d ls ++ t) = ls ++ lines d t := by
  induction ls with
  | nil => rfl
  | cons l ls ih =>
    simp only [List.forall_mem_cons] at hls
    rw [unlines_cons, List.append_assoc, List.cons_append, lines_append hls.1, ih hls.2,
      List.cons_append]

theorem lines_unlines {ls : List Bytes} (hls : ∀ l ∈ ls, d ∉ l) : lines d (unlines d ls) = ls := by
  simpa using lines_unlines_append hls []

/-- The lines of a text of terminated lines that is cut after `n` bytes. -/
def cutLines : List Bytes → ℕ → List Bytes
  | [], _ => []
  | l :: ls, n =>
    if n ≤ l.length then (if n = 0 then [] else [l.take n]) else l :: cutLines ls (n - l.length - 1)

theorem notMem_take {s : Bytes} (hs : d ∉ s) (n : ℕ) :
    d ∉ s.take n := fun h => hs (List.mem_of_mem_take h)

theorem lines_take_unlines {ls : List Bytes} (hls : ∀ l ∈ ls, d ∉ l) (n : ℕ) :
    lines d ((unlines d ls).take n) = cutLines ls n := by
  induction ls generalizing n with
  | nil => rw [unlines_nil, List.take_nil, lines_nil, cutLines]
  | cons l ls ih =>
    rw [List.forall_mem_cons] at hls
    rw [unlines_cons, List.take_append, cutLines]
    by_cases hn : n ≤ l.length
    · rw [if_pos hn, Nat.sub_eq_zero_of_le hn, List.take_zero, List.append_nil]
      split
      next h => rw [h, List.take_zero, lines_nil]
      next h =>
        refine lines_last (notMem_take hls.1 n) (List.ne_nil_of_length_pos ?_)
        rw [List.length_take]
        omega
    · obtain ⟨m, hm⟩ : ∃ m, n - l.length = m + 1 := ⟨n - l.length - 1, by omega⟩
      rw [if_neg hn, List.take_of_length_le (by omega), hm, List.take_succ_cons,
        lines_append hls.1, ih hls.2]
      rfl

/-- A cut within the first lines. -/
theorem cutLines_append_of_lt {ls ls' : List Bytes} {n : ℕ} (hn : n < (unlines d ls).length) :
    cutLines (ls ++ ls') n = cutLines ls n := by
  induction ls generalizing n with
  | nil => cases hn
  | cons l ls ih =>
    rw [unlines_cons, List.length_append, List.length_cons] at hn
    rw [List.cons_append, cutLines, cutLines]
    by_cases hl : n ≤ l.length
    · rw [if_pos hl, if_pos hl]
    · rw [if_neg hl, if_neg hl, ih (by omega)]

/-- A cut behind the first lines. -/
theorem cutLines_append_of_le {ls ls' : List Bytes} {n : ℕ} (hn : (unlines d ls).length ≤ n) :
    cutLines (ls ++ ls') n = ls ++ cutLines ls' (n - (unlines d ls).length) := by
  induction ls generalizing n with
  | nil => rfl
  | cons l ls ih =>
    rw [unlines_cons, List.length_append, List.length_cons] at hn ⊢
    rw [List.cons_append, cutLines, if_neg (by omega), ih (by omega), List.cons_append]
    congr 3
    omega

/-- Only the last line can be cut. -/
theorem mem_of_mem_dropLast_cutLines {ls : List Bytes} {l : Bytes} {n : ℕ} :
    ∀ x ∈ (cutLines (ls ++ [l]) n).dropLast, x ∈ ls := by
  intro x hx
  induction ls generalizing n with
  | nil =>
    rw [List.nil_append, cutLines] at hx
    split_ifs at hx <;> cases hx
  | cons l' ls ih =>
    rw [List.cons_append, cutLines] at hx
    split_ifs at hx
    · cases hx
    · cases hx
    · cases hrest : cutLines (ls ++ [l]) (n - l'.length - 1) with
      | nil =>
        rw [hrest] at hx
        cases hx
      | cons y ys =>
        rw [hrest, List.dropLast_cons_cons] at hx
        rcases List.mem_cons.1 hx with rfl | hx
        · exact List.mem_cons_self
        · exact List.mem_cons_of_mem _ (ih (hrest ▸ hx))

example : lines newline (ascii "a\n\nb") = [ascii "a", [], ascii "b"] := by decide

end DataAgentSystem.Text
