import Mathlib.Data.List.Basic
import Mathlib.Data.List.Pairwise

/-! Lists and their sorted form. A list may be out of order and still show the same once
some of its elements are left out; it does exactly if those that stay are in order. -/

namespace DataAgentSystem.Containers

variable {α β : Type} {r : α → α → Prop} {f : α → Option β} {l l' : List α}

theorem filterMap_filter_isSome (f : α → Option β) (l : List α) :
    (l.filter fun a => (f a).isSome).filterMap f = l.filterMap f := by
  rw [List.filterMap_filter]
  apply List.filterMap_congr
  intro a _
  cases f a <;> rfl

/-- Sorting does not change what stays if that is in order already. -/
theorem filterMap_eq_of_pairwise (hperm : l'.Perm l) (hsorted : l'.Pairwise r)
    (hanti : ∀ a b, a ∈ l → b ∈ l → r a b → r b a → a = b)
    (h : l.Pairwise fun a b => (f a).isSome → (f b).isSome → r a b) :
    l'.filterMap f = l.filterMap f := by
  have hstays : (l.filter fun a => (f a).isSome).Pairwise r := by
    apply (List.pairwise_filter.2 ?_)
    exact h.imp fun hab ha hb => hab ha hb
  have heq : (l'.filter fun a => (f a).isSome) = l.filter fun a => (f a).isSome := by
    apply List.Perm.eq_of_pairwise ?_ (hsorted.filter _) hstays (hperm.filter _)
    intro a b ha hb hab hba
    exact hanti a b (hperm.subset (List.mem_of_mem_filter ha)) (List.mem_of_mem_filter hb) hab hba
  rw [← filterMap_filter_isSome f l', heq, filterMap_filter_isSome]

theorem eq_of_nodup_filterMap (h : (l.filterMap f).Nodup) {a b : α} {e : β}
    (ha : a ∈ l) (hb : b ∈ l) (hae : f a = some e) (hbe : f b = some e) : a = b := by
  by_contra hne
  have hsymm : Std.Symm fun a b => ∀ e, f a = some e → ∀ e', f b = some e' → e ≠ e' :=
    ⟨fun a b hab e he e' he' => (hab e' he' e he).symm⟩
  exact (List.pairwise_filterMap.1 h).forall ha hb hne e hae e hbe rfl

/-- What stays is the same after sorting only if it was in order, as each element can be
told from what it shows. -/
theorem pairwise_of_filterMap_eq (hperm : l'.Perm l) (hsorted : l'.Pairwise r)
    (hnodup : (l.filterMap f).Nodup) (h : l'.filterMap f = l.filterMap f) :
    l.Pairwise fun a b => (f a).isSome → (f b).isSome → r a b := by
  have hshown : (l'.filterMap f).Pairwise fun e e' => ∃ a ∈ l, ∃ b ∈ l, f a = some e ∧
      f b = some e' ∧ r a b := by
    rw [List.pairwise_filterMap]
    apply hsorted.imp_of_mem
    intro a b ha hb hab e he e' he'
    exact ⟨a, hperm.subset ha, b, hperm.subset hb, he, he', hab⟩
  rw [h, List.pairwise_filterMap] at hshown
  apply hshown.imp_of_mem
  intro a b ha hb hab hsome hsome'
  obtain ⟨e, he⟩ := Option.isSome_iff_exists.1 hsome
  obtain ⟨e', he'⟩ := Option.isSome_iff_exists.1 hsome'
  obtain ⟨c, hc, c', hc', hce, hce', hcc'⟩ := hab e he e' he'
  rwa [eq_of_nodup_filterMap hnodup ha hc he hce, eq_of_nodup_filterMap hnodup hb hc' he' hce']

theorem filterMap_eq_iff_pairwise (hperm : l'.Perm l) (hsorted : l'.Pairwise r)
    (hanti : ∀ a b, a ∈ l → b ∈ l → r a b → r b a → a = b)
    (hnodup : (l.filterMap f).Nodup) :
    l'.filterMap f = l.filterMap f ↔ l.Pairwise fun a b => (f a).isSome → (f b).isSome → r a b :=
  ⟨pairwise_of_filterMap_eq hperm hsorted hnodup, filterMap_eq_of_pairwise hperm hsorted hanti⟩

end DataAgentSystem.Containers
