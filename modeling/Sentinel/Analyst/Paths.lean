import Sentinel.Pipeline.Rules

/-!
# The paths of the analyst
-/

namespace Sentinel.Pipeline

open Logic Contracts

variable {cfg : PipelineConfig} {task : Task} {log : Log}

@[simp] theorem drawsIn_append {site : IdSite} {log log' : Log} :
    drawsIn site (log ++ log') = drawsIn site log ++ drawsIn site log' := by
  simp [drawsIn]

/-- The loop over the hypotheses only asks the provider and draws ids, one for each candidate. -/
theorem always_buildCandidates {analyst : AnalystSection} {portfolio : PortfolioSnapshot}
    (hypotheses : List AssetHypothesis) (hlog : Unended log)
    (hsaved : Unsaved log) :
    Always (Issues cfg task) (Returns fun l p => Unended l ∧ Unsaved l ∧ ∃ ids, drawsIn .candidate l =
          drawsIn .candidate log ++ ids ∧ ((p.1 ++ p.2).map TradeCandidate.candidateId).Perm ids)
      (buildCandidates analyst portfolio hypotheses) log := by
  induction hypotheses generalizing log with
  | nil => exact ⟨hlog, hsaved, [], by simp, by simp⟩
  | cons hypothesis hypotheses ih =>
    refine always_op trivial fun snapshot => always_now trivial fun t => always_uuid4 fun id => ?_
    generalize hlog' : log ++ _ ++ _ ++ _ = log'
    have hdraws : drawsIn .candidate log' = drawsIn .candidate log ++ [id] := by
      subst hlog'
      simp [drawsIn]
    have hunended : Unended log' := by subst hlog'; simp [hlog, Op.ends]
    have hunsaved : Unsaved log' := by subst hlog'; simp [hsaved, Op.savesCandidates]
    refine (ih hunended hunsaved).bind (fun l p _ hl => ?_) fun l e _ hl => hl
    obtain ⟨hun, hsv, ids, hids, hperm⟩ := hl
    have hids' : drawsIn .candidate l = drawsIn .candidate log ++ id :: ids := by
      rw [hids, hdraws, List.append_assoc]
      rfl
    dsimp only
    split_ifs
    · exact ⟨hun, hsv, id :: ids, hids', hperm.cons id⟩
    · refine ⟨hun, hsv, id :: ids, hids', ?_⟩
      rw [List.map_append] at hperm ⊢
      exact List.perm_middle.trans (hperm.cons id)

namespace AnalystWorker

theorem always_process {lease : JobLease} (h : Begun log .analysis lease) :
    Always (Issues cfg task) (Clean (Handled .analysis lease fun _ => True)) (process cfg lease)
      log := by
  refine h.always_getMessage fun log parent h => ?_
  refine always_modelValidate (fun report hload => ?_) fun e _ => h.handled_error fun hstage => by cases hstage
  refine always_op trivial fun snapshot => always_tx trivial fun snapshotId => ?_
  generalize hlog' : log ++ _ ++ _ = log'
  have hpre : log <+: log' := by subst hlog'; simp
  have hunended : Unended log' := by subst hlog'; simp [h.unended, Op.ends]
  have hunsaved : Unsaved log' := by subst hlog'; simp [h.unsaved, Op.savesCandidates]
  have hsnapshot : Answered log' .getSnapshot snapshot := by subst hlog'; simp [Answered]
  refine (always_buildCandidates report.assetHypotheses hunended hunsaved).returns
    fun l p hl h' => ?_
  obtain ⟨hbuilt, hsaved, ids, hids, hperm⟩ := h'
  have hdrawn : ((sortedByScore p.1 ++ sortedByScore p.2).map
      TradeCandidate.candidateId).Subperm (drawsIn .candidate l) := by
    rw [hids]
    refine (((perm_sortedByScore p.1).append (perm_sortedByScore p.2)).map _).subperm.trans ?_
    exact hperm.subperm.trans (List.sublist_append_right _ _).subperm
  refine always_childEnvelope fun id t envelope he hid => ?_
  refine always_completeJobSuccess ⟨.analysed parent envelope report snapshot _ _
    (h.holds.prefix_of ?_) hload (hsnapshot.prefix_of ?_) he rfl ?_, ?_, ?_, ?_, ?_⟩ fun t out => ?_
  · exact (hpre.trans hl).trans (by simp)
  · exact hl.trans (by simp)
  · exact hdrawn.trans (drawsIn_mono (by simp))
  · simp [hbuilt, Op.ends]
  · rintro _ ⟨⟩
    simp [Answered, hid]
  · dsimp only [analysisReport]
    split_ifs <;> decide
  · rintro _ ⟨⟩ hstage
    cases he.stage.symm.trans hstage
  · cases out with
    | none => exact fun _ => trivial
    | some messageId =>
      refine always_tx ⟨⟨_, _, _, _, _, _, answered_last⟩, hdrawn.trans (drawsIn_mono (by simp)), ?_⟩
        fun _ _ => trivial
      simp [hsaved, Op.savesCandidates]

theorem always_worker {workerId : Text} (htask : task.ingests = false) :
    Always (Issues cfg task) (fun _ _ => True) (processNext cfg workerId) [] :=
  (always_processNext htask (fun _ _ => trivial) fun _ _ h => always_process h).mono
    fun _ _ _ _ => trivial

end AnalystWorker

end Sentinel.Pipeline
