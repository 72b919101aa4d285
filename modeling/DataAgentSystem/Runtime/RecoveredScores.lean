import DataAgentSystem.Runtime.RecoveredSession

/-! The winner of a recovered session. The log keeps scores as integers, so a recovered
branch has the truncated score of the branch it was; the first of the best under these
may be another one. -/

namespace DataAgentSystem.Runtime

open Text Intent Cache Branch Storage Interaction Containers AgentTxn

variable {kind : StoreKind} {config config' : FallbackCommitRuntimeConfig} {session : TaskSession}
  {w : World} {path : Bytes}

/-- Branches are staged with numbers. -/
def SessionOp.StagesNumber : SessionOp → World → Prop
  | .stageBranch _ score _, _ => ∃ q, score = .finite q
  | _, _ => True

/-- The score that a log keeps of the branch. -/
def keptScore (branch : BranchContext) : ℚ :=
  (Double.ofInt64 branch.candidateResult.score.toInt64).value

/-- Scores are mirrored as the log keeps them. -/
def scoresKept : Mirroring :=
  .following (fun _ => False) False (fun x x' => (∃ q, x = .finite q) ∧ x' = .ofInt64 x.toInt64)
    ⟨⟨0, rfl⟩, by decide⟩

theorem WorkedOn.mirrors_scoresKept (h : WorkedOn kind config SessionOp.StagesNumber session)
    {metadata : List (Bytes × Bytes)} {recovered : RecoveredTaskSession}
    (hrecovers : Recovers kind w path (writtenArtifact session metadata) recovered) :
    MirrorsTxn scoresKept session.txn recovered.session.txn := by
  refine h.mirrors_recovered (fun op v hstages => ?_) hrecovers
  cases op with
  | write branchId objectId objectType intent => exact ⟨False.elim, False.elim⟩
  | stageBranch branchId score summary => exact ⟨hstages, rfl⟩
  | _ => trivial

theorem scored_of_mirrors {branch branch' : BranchContext} (h : Mirrors scoresKept branch branch') :
    BranchManager.Scored branch ∧ BranchManager.Scored branch' ∧
      keptScore branch = BranchManager.score branch' := by
  obtain ⟨hscored, hkept⟩ := h.score
  refine ⟨hscored, ?_, ?_⟩
  · rw [BranchManager.Scored, hkept]
    exact ⟨_, rfl⟩
  · rw [keptScore, BranchManager.score, hkept]

/-- Branches of a session in work are told apart by their ids. -/
theorem InWork.eq_of_branchId (h : InWork session) {b b' : BranchContext}
    (hb : b ∈ session.txn.branches) (hb' : b' ∈ session.txn.branches)
    (hid : b.branchId = b'.branchId) : b = b' := by
  have hnodup : (session.txn.branches.map (·.branchId)).Nodup := by
    rw [h.branchIds]
    exact (ExecutionPlan.validate_ok h.valid).nodup
  exact List.inj_on_of_nodup_map hnodup hb hb' hid

theorem InWork.branches_ne_nil (h : InWork session) : session.txn.branches ≠ [] := by
  intro hnil
  have hids := h.branchIds
  rw [hnil, List.map_nil, eq_comm, List.map_eq_nil_iff] at hids
  exact (ExecutionPlan.validate_ok h.valid).nonempty hids

/-- The winner of the session is the leader by score, and that of the recovered one the
leader by what the log has kept. -/
theorem WorkedOn.exists_winners (hwork : WorkedOn kind config SessionOp.StagesNumber session)
    (hlog : HoldsLog w path session) {recovered : RecoveredTaskSession}
    (hrecovered : ((recoverSessionFromLog config' path).run (handle kind) w).1 = .ok recovered) :
    ∃ best kept, Leads BranchManager.score session.txn.branches best ∧
      Leads keptScore session.txn.branches kept ∧
      BranchManager.selectWinner session.txn.branches = .ok best.branchId ∧
      BranchManager.selectWinner recovered.session.txn.branches = .ok kept.branchId := by
  obtain ⟨metadata, recovered', hrun, hrecovers⟩ :=
    @InWork.recovers kind _ _ _ hwork.inWork config' hlog
  rw [hrun] at hrecovered
  obtain rfl := Except.ok.inj hrecovered
  have hmirrors : List.Forall₂ (Mirrors scoresKept) session.txn.branches
      recovered'.session.txn.branches :=
    hwork.mirrors_scoresKept hrecovers
  have hne := hwork.inWork.branches_ne_nil
  have hne' : recovered'.session.txn.branches ≠ [] := by
    intro hnil
    rw [hnil] at hmirrors
    exact hne (List.forall₂_nil_right_iff.1 hmirrors)
  have hscored : ∀ b ∈ session.txn.branches, BranchManager.Scored b := by
    intro b hb
    obtain ⟨b', -, hbb'⟩ := exists_mem_of_forall₂ hmirrors hb
    exact (scored_of_mirrors hbb').1
  have hscored' : ∀ b' ∈ recovered'.session.txn.branches, BranchManager.Scored b' := by
    intro b' hb'
    obtain ⟨b, -, hbb'⟩ := exists_mem_of_forall₂ hmirrors.flip hb'
    exact (scored_of_mirrors hbb').2.1
  obtain ⟨best, hbest, hselected⟩ := BranchManager.exists_leads hne hscored
  obtain ⟨best', hbest', hselected'⟩ := BranchManager.exists_leads hne' hscored'
  -- the branch of which the recovered winner is the mirror
  have hrel := @rel_argmax _ _ _ _ keptScore BranchManager.score _ _ _ hmirrors fun b b' hbb' =>
    (scored_of_mirrors hbb').2.2
  have hmax : recovered'.session.txn.branches.argmax BranchManager.score = some best' :=
    leads_iff_mem_argmax.1 hbest'
  rw [hmax] at hrel
  cases hmax' : session.txn.branches.argmax keptScore with
  | none => rw [hmax'] at hrel; cases hrel
  | some kept =>
    rw [hmax'] at hrel
    cases hrel with
    | some hkept =>
      exact ⟨best, kept, hbest, leads_iff_mem_argmax.2 hmax',
        hselected, by rw [hselected', hkept.branchId]⟩

/-- The recovered session selects the same winner exactly if one branch leads the others
by its score as well as by what the log keeps of it. -/
theorem selectWinner_recovered_iff (hwork : WorkedOn kind config SessionOp.StagesNumber session)
    (hlog : HoldsLog w path session) {recovered : RecoveredTaskSession}
    (hrecovered : ((recoverSessionFromLog config' path).run (handle kind) w).1 = .ok recovered) :
    BranchManager.selectWinner recovered.session.txn.branches =
      BranchManager.selectWinner session.txn.branches ↔
      ∃ winner, Leads BranchManager.score session.txn.branches winner ∧
        Leads keptScore session.txn.branches winner := by
  obtain ⟨best, kept, hbest, hkept, hselected, hselected'⟩ := hwork.exists_winners hlog hrecovered
  rw [hselected, hselected']
  constructor
  · intro hsame
    obtain rfl := hwork.inWork.eq_of_branchId hkept.mem hbest.mem (Except.ok.inj hsame)
    exact ⟨kept, hbest, hkept⟩
  · rintro ⟨winner, hleads, hleadsKept⟩
    rw [← hleads.unique hbest, ← hleadsKept.unique hkept]

/-- Whole scores of at most 53 bits survive the log. -/
theorem keptScore_of_whole {branch : BranchContext} {n : ℤ}
    (hscore : branch.candidateResult.score = .finite n) (hn : n.natAbs < 2 ^ 53) :
    keptScore branch = BranchManager.score branch := by
  have hrange : -2 ^ 63 ≤ n ∧ n < 2 ^ 63 := by omega
  have hint : (Int64.ofInt n).toInt = n := Int64.toInt_ofInt_of_le hrange.1 hrange.2
  have hkept : (Double.finite (n : ℚ)).toInt64 = Int64.ofInt n := by
    simp only [Double.toInt64, Rat.num_intCast, Rat.den_intCast, Nat.cast_one,
      Int.tdiv_one, if_pos hrange]
  rw [keptScore, BranchManager.score, hscore, hkept,
    Double.ofInt64_of_natAbs_lt (by rw [hint]; exact hn), hint]

/-- With whole scores the recovered session selects the same winner. -/
theorem selectWinner_recovered_of_whole
    (hwork : WorkedOn kind config SessionOp.StagesNumber session) (hlog : HoldsLog w path session)
    {recovered : RecoveredTaskSession}
    (hrecovered : ((recoverSessionFromLog config' path).run (handle kind) w).1 = .ok recovered)
    (hwhole : ∀ branch ∈ session.txn.branches, ∃ n : ℤ, branch.candidateResult.score = .finite n ∧
      n.natAbs < 2 ^ 53) :
    BranchManager.selectWinner recovered.session.txn.branches = BranchManager.selectWinner
      session.txn.branches := by
  obtain ⟨best, kept, hbest, hkept, hselected, hselected'⟩ := hwork.exists_winners hlog hrecovered
  have hleads : Leads BranchManager.score session.txn.branches kept := by
    apply hkept.congr
    intro branch hbranch
    obtain ⟨n, hscore, hn⟩ := hwhole branch hbranch
    exact keptScore_of_whole hscore hn
  rw [hselected, hselected', hleads.unique hbest]

/-- The task after both have been staged. -/
def rivalsStaged (score score' : ℚ) : TaskSession :=
  (rivals.stageBranch (ascii "a") (.finite score) []).stageBranch (ascii "b") (.finite score') []

/-- What is recovered from the log of a session. -/
def recoveredFrom (session : TaskSession) : RecoveredTaskSession :=
  match ((recoverSessionFromLog {} (ascii "log")).run (handle .memory) (loggedIn {} session)).1 with
  | .ok recovered => recovered
  | .error _ => {}

theorem workedOn_rivalsStaged (score score' : ℚ) :
    WorkedOn .memory {} SessionOp.StagesNumber (rivalsStaged score score') := by
  have hfirst : WorkStep .memory {} SessionOp.StagesNumber rivals
      (rivals.stageBranch (ascii "a") (.finite score) []) :=
    @WorkStep.perform .memory {} _ rivals (.stageBranch (ascii "a") (.finite score) []) {}
      rfl ⟨score, rfl⟩
  have hsecond : WorkStep .memory {} SessionOp.StagesNumber
    (rivals.stageBranch (ascii "a") (.finite score) [])
      (rivalsStaged score score') :=
    @WorkStep.perform .memory {} _ _ (.stageBranch (ascii "b") (.finite score') []) {}
      rfl ⟨score', rfl⟩
  exact ⟨noteTask, rivalPlan, {}, rivals, rfl, .tail (.single hfirst) hsecond⟩

theorem selectWinner_recovered_whole :
    BranchManager.selectWinner (recoveredFrom (rivalsStaged 1 2)).session.txn.branches =
        BranchManager.selectWinner (rivalsStaged 1 2).txn.branches ↔
      ∃ winner, Leads BranchManager.score (rivalsStaged 1 2).txn.branches winner ∧
        Leads keptScore (rivalsStaged 1 2).txn.branches winner :=
  @selectWinner_recovered_iff .memory {} {} _ (loggedIn {} (rivalsStaged 1 2)) (ascii "log")
    (workedOn_rivalsStaged 1 2)
    (holdsLog_writeTaskEventLogArtifact (List.Perm.refl _) .memory (ascii "log") {}) _ rfl

/-- A half, in lowest terms. -/
def half : ℚ := { num := 1, den := 2, den_nz := by decide, reduced := by decide }

/-- Of the scores 0 and 1/2 the log keeps zero twice, and the first branch wins. -/
theorem selectWinner_not_recovered :
    WorkedOn .memory {} SessionOp.StagesNumber (rivalsStaged 0 half) ∧
      HoldsLog (loggedIn {} (rivalsStaged 0 half)) (ascii "log") (rivalsStaged 0 half) ∧
      ((recoverSessionFromLog {} (ascii "log")).run (handle .memory)
        (loggedIn {} (rivalsStaged 0 half))).1 =
        .ok (recoveredFrom (rivalsStaged 0 half)) ∧
      BranchManager.selectWinner (rivalsStaged 0 half).txn.branches = .ok (ascii "b") ∧
      BranchManager.selectWinner (recoveredFrom (rivalsStaged 0 half)).session.txn.branches =
        .ok (ascii "a") :=
  ⟨workedOn_rivalsStaged 0 half, holdsLog_writeTaskEventLogArtifact (List.Perm.refl _) .memory
    (ascii "log") {}, rfl, rfl, rfl⟩

end DataAgentSystem.Runtime
