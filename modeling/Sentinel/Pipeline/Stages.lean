import Sentinel.Pipeline.Tenure

/-!
# The stage of a worker

A worker leases jobs of its own stage only, so the stage of a held job tells which worker holds it.
-/

namespace Sentinel.Pipeline

open Logic Contracts

variable {host : Host} {C : State → PipelineEvent → Prop} {s : State}

/-- The stage whose jobs the task leases. -/
def Task.stage : Task → Option StageName
  | .researcher _ => some .research
  | .analyst _ => some .analysis
  | .executor _ => some .execution
  | .approval _ => some .approval
  | .outcome _ => some .outcome
  | _ => none

/-- The call leases a job of the stage, if it leases any. -/
def LeasesAt (stage : Option StageName) (op : Op) : Prop :=
  ∀ stage' workerId leasedUntil t, op = .tx (.leaseNextJob stage' workerId leasedUntil t) →
    stage = some stage'

/-- After its first lease a worker leases nothing. -/
theorem leasesAt_processNext {cfg : PipelineConfig} {task : Task} {stage : StageName}
    {workerId : Text} {process : JobLease → Program Bool} {Ψ : Log → Except Exn Bool → Prop}
    (h : Always (Issues cfg task) Ψ (processNext cfg.queue stage workerId process) []) :
    Always (fun _ op => LeasesAt (some stage) op) (fun _ _ => True)
      (processNext cfg.queue stage workerId process) [] := by
  have hrest : ∀ r, Always (Issues cfg task) Ψ _ _ := (show _ ∧ _ from h).2
  refine And.intro (fun _ _ _ _ heq => nomatch heq) fun r => ?_
  have h := hrest r
  cases r with
  | error e => trivial
  | ok t =>
    have hrest : ∀ r, Always (Issues cfg task) Ψ _ _ := (show _ ∧ _ from h).2
    refine And.intro ?_ fun r => ?_
    · rintro _ _ _ _ ⟨⟩
      rfl
    · have h := hrest r
      cases r with
      | error e => trivial
      | ok lease =>
        cases lease with
        | none => trivial
        | some lease =>
          refine h.mono' (fun l op hpre hop stage' _ _ _ heq => ?_) fun _ _ _ _ => trivial
          subst heq
          obtain ⟨hnone, -⟩ := hop
          have hsome : leaseIn l = some lease := findSome?_mono rfl hpre
          cases hnone.symm.trans hsome

theorem leasesAt_body (t : Task) :
    Always (fun _ op => LeasesAt t.stage op) (fun _ _ => True) (t.body host) [] := by
  have hnone : ∀ {p : Program Out} {Ψ : Log → Except Exn Out → Prop}, t.ingests = true →
      Always (Issues host.cfg t) Ψ p [] →
      Always (fun _ op => LeasesAt t.stage op) (fun _ _ => True) p [] := by
    intro p Ψ ht h
    refine h.mono' (fun l op _ hop _ _ _ _ heq => ?_) fun _ _ _ _ => trivial
    subst heq
    cases ht.symm.trans hop.2
  have hworker : ∀ {p : Program Bool} {Ψ : Log → Except Exn Bool → Prop} {stage : StageName},
      Always (fun _ op => LeasesAt (some stage) op) Ψ p [] →
      Always (fun _ op => LeasesAt (some stage) op) (fun _ _ => True)
        (p >>= fun b => pure (Out.processed b)) [] :=
    fun h => h.bind (fun _ _ _ _ => trivial) fun _ _ _ _ => trivial
  have hno : ∀ {op : Op} {stage : Option StageName}, op.leases = false → LeasesAt stage op := by
    rintro _ _ hop _ _ _ _ rfl
    cases hop
  cases t with
  | ingress body headers replaySource => exact hnone rfl (issues_body _)
  | researcher workerId =>
    have ht : (Task.researcher workerId).ingests = false := rfl
    exact hworker (leasesAt_processNext (ResearcherWorker.always_worker ht))
  | analyst workerId =>
    have ht : (Task.analyst workerId).ingests = false := rfl
    exact hworker (leasesAt_processNext (AnalystWorker.always_worker ht))
  | executor workerId =>
    have ht : (Task.executor workerId).trades = true := rfl
    exact hworker (leasesAt_processNext (ExecutorWorker.always_worker ht))
  | approval workerId =>
    have ht : (Task.approval workerId).trades = true := rfl
    exact hworker (leasesAt_processNext (ApprovalWorker.always_worker ht))
  | outcome workerId =>
    have ht : (Task.outcome workerId).ingests = false := rfl
    exact hworker (leasesAt_processNext (OutcomeWorker.always_worker ht))
  | approve token approverId reason =>
    refine ⟨hno rfl, fun r => ?_⟩
    cases r with
    | error e => trivial
    | ok t =>
      refine ⟨hno rfl, fun r => ?_⟩
      cases r with
      | error e => trivial
      | ok id =>
        refine ⟨hno rfl, fun r => ?_⟩
        cases r <;> trivial
  | reject token approverId reason =>
    refine ⟨hno rfl, fun r => ?_⟩
    cases r with
    | error e => trivial
    | ok t =>
      refine ⟨hno rfl, fun r => ?_⟩
      cases r with
      | error e => trivial
      | ok id =>
        refine ⟨hno rfl, fun r => ?_⟩
        cases r <;> trivial

/-- Who holds a job of a stage is a worker of that stage. -/
theorem Leased.stage {j : ℕ} {th : Thread Op Op.Ans Exn Out Task} {l : Log} {stage : StageName}
    {lease : JobLease} (hl : Leased l stage lease) (h : Reachable host C s)
    (hth : s.threads[j]? = some th) (hpre : l <+: th.log) : th.task.stage = some stage := by
  obtain ⟨workerId, leasedUntil, t, hasked⟩ := hl.asked
  obtain ⟨_, _, _, hleases⟩ :=
    (issued_reach (M := machine host) leasesAt_body h j th hth).mem (hasked.prefix_of hpre)
  exact hleases _ _ _ _ rfl

end Sentinel.Pipeline
