import Mathlib.Data.List.Basic
import Mathlib.Data.List.Nodup

/-! Updates of a list of keyed elements. Each update is for one key and changes the elements
with that key. What a sequence of updates makes of an element is what those for its key make
of it, so sequences that agree for each key agree altogether, in whatever order they mix keys. -/

namespace DataAgentSystem.Containers

variable {α κ σ : Type} [DecidableEq κ] {key : σ → κ} {target : α → κ} {act : σ → α → σ}

/-- One update of the elements with its key. -/
def updateKeyed (key : σ → κ) (target : α → κ) (act : σ → α → σ) (l : List σ) (a : α) : List σ :=
  l.map fun s => if key s = target a then act s a else s

/-- Each element is changed by the updates for its key alone. -/
theorem foldl_updateKeyed (hkey : ∀ s a, key (act s a) = key s) (updates : List α) (l : List σ) :
    updates.foldl (updateKeyed key target act) l =
      l.map fun s => (updates.filter fun a => target a = key s).foldl act s := by
  induction updates generalizing l with
  | nil => exact (List.map_id' l).symm
  | cons a updates ih =>
    rw [List.foldl_cons, ih, updateKeyed, List.map_map]
    refine List.map_congr_left fun s _ => ?_
    by_cases hs : key s = target a
    · rw [Function.comp_apply, if_pos hs, hkey, List.filter_cons_of_pos (by simpa using hs.symm),
        List.foldl_cons]
    · rw [Function.comp_apply, if_neg hs,
        List.filter_cons_of_neg (by simpa using fun heq => hs heq.symm)]

end DataAgentSystem.Containers
