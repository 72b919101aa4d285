import DataAgentSystem.Storage.World
import DataAgentSystem.Interaction.Environment

/-! A world that cannot be relied on. Before each call other actors may have changed
the store and every file but one, and a call that changes files may be refused, in
which case it changes nothing. -/

namespace DataAgentSystem.Storage

open Text Interaction Containers

/-- The answer when nothing can be changed about the files. -/
def refuse (kind : StoreKind) : Handler Call Call.Resp World
  | .replaceFile _ _, w => (false, w)
  | .removeFile _, w => (false, w)
  | .renameFile _ _, w => (false, w)
  | .createDirectories _, w => (false, w)
  | op, w => handle kind op w

/-- The file is what it was. -/
def SameFile (path : Bytes) (w w' : World) : Prop := w'.files.lookup path = w.files.lookup path

theorem SameFile.trans {path : Bytes} {w w' w'' : World} (h : SameFile path w w')
    (h' : SameFile path w' w'') :
    SameFile path w w'' := Eq.trans h' h

/-- The environment in which only the file at `path` is safe from other actors. -/
def unreliable (kind : StoreKind) (path : Bytes) : Environment Call Call.Resp World :=
  fun op w r w' =>
  ∃ before, SameFile path w before ∧
    ((r, w') = handle kind op before ∨ (r, w') = refuse kind op before)

variable {kind : StoreKind} {path : Bytes}

/-- Any move of the other actors, and then the call. -/
theorem allows_handle (move : World → World) (hmove : ∀ w, SameFile path w (move w)) :
    (unreliable kind path).Allows fun op w => handle kind op (move w) :=
  fun _ w => ⟨move w, hmove w, .inl rfl⟩

theorem allows_refuse : (unreliable kind path).Allows (refuse kind) := fun _ w => ⟨w, rfl, .inr rfl⟩

/-- The files that a call may change. -/
def Call.touched : Call → List Bytes
  | .replaceFile path _ => [path]
  | .removeFile path => [path]
  | .renameFile source target => [source, target]
  | _ => []

theorem Call.touched_of_reads {op : Call} (h : op.reads = true) : op.touched = [] := by
  cases op <;> first | rfl | cases h

theorem Call.forall_touched {op : Call} (h : op.touched = []) {P : Bytes → Prop} :
    ∀ p ∈ op.touched, P p := by
  rw [h]
  exact fun p hp => absurd hp List.not_mem_nil

theorem sameFile_handle {op : Call} (h : path ∉ op.touched) (w : World) :
    SameFile path w (handle kind op w).2 ∧ SameFile path w (refuse kind op w).2 := by
  cases op with
  | replaceFile target contents =>
    refine ⟨?_, rfl⟩
    simp only [Call.touched, List.mem_singleton] at h
    exact AList.lookup_insert_ne h
  | removeFile target =>
    refine ⟨?_, rfl⟩
    simp only [Call.touched, List.mem_singleton] at h
    exact AList.lookup_erase_ne h
  | renameFile source target =>
    refine ⟨?_, rfl⟩
    simp only [Call.touched, List.mem_cons, List.not_mem_nil, or_false, not_or] at h
    simp only [handle]
    cases w.files.lookup source with
    | none => rfl
    | some contents => exact (AList.lookup_insert_ne h.2).trans (AList.lookup_erase_ne h.1)
  | _ => exact ⟨rfl, rfl⟩

section Answers

variable {w w' : World}

theorem sameFile_of_notMem_touched {op : Call} {r : op.Resp} (henv : unreliable kind path op w r w')
    (h : path ∉ op.touched) : SameFile path w w' := by
  obtain ⟨before, hbefore, hanswer | hanswer⟩ := henv
  · rw [show w' = (handle kind op before).2 from congrArg Prod.snd hanswer]
    exact hbefore.trans (sameFile_handle h before).1
  · rw [show w' = (refuse kind op before).2 from congrArg Prod.snd hanswer]
    exact hbefore.trans (sameFile_handle h before).2

/-- The file is replaced, or the answer says that it is not. -/
theorem unreliable_replaceFile {contents : Bytes} {r : Bool}
    (henv : unreliable kind path (.replaceFile path contents) w r w') :
    (r = true ∧ w'.files.lookup path = some contents) ∨ (r = false ∧ SameFile path w w') := by
  obtain ⟨before, hbefore, hanswer | hanswer⟩ := henv
  · left
    rw [handle_replaceFile] at hanswer
    obtain ⟨rfl, rfl⟩ := Prod.mk.inj hanswer
    exact ⟨rfl, AList.lookup_insert _⟩
  · right
    obtain ⟨rfl, rfl⟩ := Prod.mk.inj hanswer
    exact ⟨rfl, hbefore⟩

/-- The file is gone or what it was. -/
theorem unreliable_removeFile {r : Bool} (henv : unreliable kind path (.removeFile path) w r w') :
    w'.files.lookup path = none ∨ SameFile path w w' := by
  obtain ⟨before, hbefore, hanswer | hanswer⟩ := henv
  · left
    rw [show w' = (handle kind (.removeFile path) before).2 from congrArg Prod.snd hanswer]
    exact AList.lookup_erase path _
  · right
    rw [show w' = before from congrArg Prod.snd hanswer]
    exact hbefore

/-- A file that is renamed is gone, unless it got its own name. -/
theorem unreliable_renameFile {target : Bytes} {r : Bool}
    (henv : unreliable kind path (.renameFile path target) w r w') :
    w'.files.lookup path = none ∨ SameFile path w w' := by
  obtain ⟨before, hbefore, hanswer | hanswer⟩ := henv
  · simp only [handle] at hanswer
    cases hfile : before.files.lookup path with
    | none =>
      rw [hfile] at hanswer
      obtain ⟨-, rfl⟩ := Prod.mk.inj hanswer
      exact .inl hfile
    | some contents =>
      rw [hfile] at hanswer
      obtain ⟨-, rfl⟩ := Prod.mk.inj hanswer
      by_cases htarget : path = target
      · subst htarget
        right
        exact (AList.lookup_insert _).trans (hfile.symm.trans hbefore)
      · left
        exact (AList.lookup_insert_ne htarget).trans (AList.lookup_erase path _)
  · right
    rw [show w' = before from congrArg Prod.snd hanswer]
    exact hbefore

/-- A call that only looks sees the world it leaves. -/
theorem unreliable_of_reads {op : Call} (hop : op.reads = true) {r : op.Resp}
    (henv : unreliable kind path op w r w') :
    r = (handle kind op w').1 ∧ SameFile path w w' := by
  obtain ⟨before, hbefore, hanswer⟩ := henv
  have hhandle : (r, w') = handle kind op before := by
    rcases hanswer with hanswer | hanswer
    · exact hanswer
    · cases op <;> first | exact hanswer | cases hop
  have hworld : w' = before := (congrArg Prod.snd hhandle).trans (handle_of_reads hop before)
  subst hworld
  exact ⟨congrArg Prod.fst hhandle, hbefore⟩

end Answers

/-! ### Nobody else acts -/

/-- The environment of an actor that is alone, whose changes to files may be refused. -/
def alone (kind : StoreKind) : Environment Call Call.Resp World := fun op w r w' =>
  (r, w') = handle kind op w ∨ (r, w') = refuse kind op w

theorem unreliable_of_alone {op : Call} {r : op.Resp} {w w' : World} (h : alone kind op w r w') :
    unreliable kind path op w r w' := ⟨w, rfl, h⟩

theorem alone_allows_handle : (alone kind).Allows (handle kind) := fun _ _ => .inl rfl

/-- Looking changes nothing, and finds what there is. -/
theorem withstands_looks {α : Type} {p : Prog α} (hp : p.Only fun op => op.reads = true)
    (w : World) :
    p.Withstands (alone kind) (fun y => y = w) w fun a _ => a = (p.run (handle kind) w).1 := by
  induction p with
  | ret a => exact ⟨rfl, rfl⟩
  | call op next ih =>
    refine ⟨rfl, fun r w' henv => ?_⟩
    have hanswer : (r, w') = handle kind op w := by
      rcases henv with hanswer | hanswer
      · exact hanswer
      · have hop := hp.1
        cases op <;> first | exact hanswer | cases hop
    have hworld : w' = w := (congrArg Prod.snd hanswer).trans (handle_of_reads hp.1 w)
    rw [Program.run_call, ← hanswer]
    rw [hworld]
    exact ih r (hp.2 r)

end DataAgentSystem.Storage
