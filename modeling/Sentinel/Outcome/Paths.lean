import Sentinel.Pipeline.Rules

/-!
# The paths of the outcome worker
-/

namespace Sentinel.Pipeline

open Logic Contracts

variable {cfg : PipelineConfig} {task : Task} {log : Log} {lease : JobLease}
  {parent : PipelineEnvelope}

namespace OutcomeWorker

theorem nextDue_eq_none {rows : List ObservationRow} : nextDue rows = none ↔ rows = [] := by
  cases rows with
  | nil => simp [nextDue]
  | cons row rows =>
    unfold nextDue
    split <;> simp

/-- The loop updates every row. -/
theorem always_observe {symbol : Text} {t : Time} (rows : List ObservationRow)
    (hunended : Unended log) :
    Always (Issues cfg task) (Returns fun l _ => Unended l ∧
        ∀ row ∈ rows, ∃ exitPrice returnPct benchmark label,
          Answered l (.tx (.updateOutcomeObservation row.observationId t exitPrice returnPct benchmark
            label)) ())
      (observe symbol t rows) log := by
  induction rows generalizing log with
  | nil => exact ⟨hunended, by simp⟩
  | cons row rows ih =>
    refine always_op trivial fun exitPrice => always_op trivial fun benchmark => ?_
    refine always_tx trivial fun _ => ?_
    refine (ih (by simp [hunended, Op.ends])).mono fun l r hl h => ?_
    cases r with
    | error e => exact h
    | ok u =>
      refine ⟨h.1, fun row' hrow' => ?_⟩
      rcases List.mem_cons.mp hrow' with rfl | hrow'
      · exact ⟨_, _, _, _, answered_last.prefix_of hl⟩
      · exact h.2 row' hrow'

theorem always_finish {rows : List ObservationRow} {t : Time} {decision : ExecutionDecision}
    {intent : TradeIntent} (h : Watches log lease parent rows t)
    (hload : ExecutionDecision.contract.load parent.payload = some decision)
    (hintent : decision.intent = some intent) (hdue : dueRows t rows ≠ [])
    (hupdated : ∀ row ∈ dueRows t rows, ∃ exitPrice returnPct benchmark label,
      Answered log (.tx (.updateOutcomeObservation row.observationId t exitPrice returnPct benchmark
        label)) ()) (hunended : Unended log) :
    Always (Issues cfg task) (Clean (Handled .outcome lease fun _ => True))
      (finish lease parent (dueRows t rows).length) log := by
  refine always_tx (Or.inr ⟨lease, parent, decision, intent, h.holds, rfl, hload, hintent⟩)
    fun rows' => ?_
  refine always_childEnvelope fun id t' envelope he hid => ?_
  generalize hlog' : log ++ _ ++ _ ++ _ = log'
  have hpre : log <+: log' := by subst hlog'; simp
  have hcompletes : Completes cfg log' lease (some envelope)
      (if pendingRows rows' = [] then none else some .outcome) := by
    refine .observed parent envelope rows rows' t _ (h.prefix_of hpre) hdue (fun row hrow => ?_) ?_
      he rfl
    · obtain ⟨exitPrice, returnPct, benchmark, label, h⟩ := hupdated row hrow
      exact ⟨exitPrice, returnPct, benchmark, label, h.prefix_of hpre⟩
    · subst hlog'
      simp [Answered]
  have hunended : Unended log' := by subst hlog'; simp [hunended, Op.ends]
  have hdrawn : ∀ envelope' ∈ some envelope, Answered log' (.uuid4 .message) envelope'.messageId := by
    rintro _ ⟨⟩
    subst hlog'
    simp [Answered, hid]
  split
  · next next hnext =>
    have hne : pendingRows rows' ≠ [] := fun heq => by simp [nextDue_eq_none.mpr heq] at hnext
    rw [if_neg hne] at hcompletes
    exact always_completeJobSuccess ⟨hcompletes, hunended, hdrawn, by decide, fun _ _ _ => by decide⟩
      fun _ _ _ => trivial
  · next hnext =>
    rw [if_pos (nextDue_eq_none.mp hnext)] at hcompletes
    exact always_completeJobSuccess ⟨hcompletes, hunended, hdrawn, by decide, fun _ _ _ => by decide⟩
      fun _ _ _ => trivial

theorem always_waitForWindow {rows : List ObservationRow} {t : Time}
    (h : Watches log lease parent rows t) (hdue : dueRows t rows = []) (hunended : Unended log)
    (hunrecorded : Unrecorded log) :
    Always (Issues cfg task) (Clean (Handled .outcome lease fun _ => True))
      (waitForWindow lease rows t) log := by
  refine always_getD_bind (fun next _ => ?_) fun hnone _ => ⟨hunrecorded, hunended, fun _ => ?_⟩
  · refine always_completeJobRetry h.holds.leased (fun _ => hunended) (fun _ hmax _ => ?_)
      (fun l hl _ => trivial) fun l e hmax hl hun _ => ⟨hl.unrecorded hunrecorded, hun hunended, ?_⟩
    · exact .exhausted parent rows t h hdue (by exact_mod_cast hmax)
    · exact fun _ => .exhausted parent rows t (h.prefix_of hl.pre) hdue (by exact_mod_cast hmax)
  · exact .settled parent rows h.holds h.listed (nextDue_eq_none.mp hnone)

theorem always_process (h : Begun log .outcome lease) :
    Always (Issues cfg task) (Clean (Handled .outcome lease fun _ => True)) (process lease) log := by
  refine h.always_getMessage fun log parent h => ?_
  refine always_modelValidate (fun decision hload => ?_)
    fun e hload => h.handled_error fun _ => .unreadable parent h.holds hload
  split
  · next hnone =>
    exact always_completeJobSuccess ⟨.skipped parent decision h.holds hload hnone, h.unended,
      fun _ h => (by cases h), by decide, fun _ h => by cases h⟩ fun _ _ _ => trivial
  · next intent hsome =>
    refine always_tx (Or.inr ⟨lease, parent, decision, intent, h.holds, rfl, hload, hsome⟩)
      fun rows => ?_
    generalize hlog' : log ++ _ = log'
    have hholds : Holds log' .outcome lease parent := by
      subst hlog'
      exact h.holds.prefix_of (by simp)
    have hlisted : listIn log' = some (parent.traceId, rows) := by
      subst hlog'
      exact findSome?_append_of_none h.unread.listIn
    have hobserve : observeIn log' = none := by
      subst hlog'
      exact findSome?_append_of_none h.unread.observeIn
    have hunended : Unended log' := by subst hlog'; simp [h.unended, Op.ends]
    have hunrecorded : Unrecorded log' := by subst hlog'; simp [h.unrecorded, Op.records]
    split_ifs with hempty
    · rw [List.isEmpty_iff.mp hempty] at hlisted
      exact always_completeJobSuccess ⟨.missing parent hholds hlisted, hunended,
        fun _ h => (by cases h), by decide, fun _ h => by cases h⟩ fun _ _ _ => trivial
    · have hne : rows ≠ [] := fun heq => hempty (by simp [heq])
      refine always_now ⟨lease, parent, rows, hholds, hne, hlisted⟩ fun t => ?_
      have hwatches : Watches (log' ++ [⟨.now .observe, .ok t⟩]) lease parent rows t :=
        ⟨hholds.prefix_of (by simp), findSome?_mono hlisted (by simp),
          findSome?_append_of_none hobserve⟩
      have hunended : Unended (log' ++ [⟨.now .observe, .ok t⟩]) := by simp [hunended, Op.ends]
      dsimp only
      split_ifs with hdue
      · exact always_waitForWindow hwatches (List.isEmpty_iff.mp hdue) hunended
          (by simp [hunrecorded, Op.records])
      · refine (always_observe _ hunended).returns fun l u hl hloop => ?_
        obtain ⟨hun, hupdated⟩ := hloop
        exact always_finish (hwatches.prefix_of hl) hload hsome
          (fun heq => hdue (by simp [heq])) hupdated hun

theorem always_worker {workerId : Text} (htask : task.ingests = false) :
    Always (Issues cfg task) (fun _ _ => True) (processNext cfg workerId) [] :=
  (always_processNext htask (fun _ _ => trivial) fun _ _ h => always_process h).mono
    fun _ _ _ _ => trivial

end OutcomeWorker

end Sentinel.Pipeline
