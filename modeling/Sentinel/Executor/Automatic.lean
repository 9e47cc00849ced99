import Sentinel.Executor.Approvals
import Sentinel.Pipeline.Draws

/-!
# Orders without approval

Only the mode `manual_all` asks for approvals; under any other text, the names of the paper modes or
not, the executor places orders by itself, and no worker reads whether the broker is a paper account.
-/

namespace Sentinel.Pipeline

open Logic Contracts PipelineDB

variable {host : Host} {s : State}

/-- The configurations that may trade without approvals. -/
def PipelineConfig.paperAuto (cfg : PipelineConfig) : Prop :=
  (cfg.executor.approvalMode = "paper_auto_only" ∨
    cfg.executor.approvalMode = "paper_auto_live_manual") ∧ cfg.broker.paper = true

/-- An approval request of the trace was approved at some state on the way to this one. -/
def ApprovedBefore (host : Host) (s : State) (traceId : UUID) : Prop :=
  ∃ s₀, Reachable host Any s₀ ∧ Reach (machine host).step s₀ Any s ∧
    ∃ r ∈ s₀.world.db.approvalRequests, r.traceId = traceId ∧ r.status = .approved

/-- The request that a log has read was in the table when it was read. -/
theorem read_before (h : Reachable host Any s) {j : ℕ} {th : Thread Op Op.Ans Exn Out Task}
    (hth : s.threads[j]? = some th) {id : UUID} {r : ApprovalRequest}
    (hr : Answered th.log (.tx (.getApprovalRequestByMessage id)) (some r)) :
    ∃ s₀, Reachable host Any s₀ ∧ Reach (machine host).step s₀ Any s ∧
      s₀.world.db.approvalRequestByMessage id = some r := by
  obtain ⟨l, l', hl⟩ := List.append_of_mem hr
  refine noted_reach (M := machine host) (X := fun _ _ en s => ∀ id r,
      en = ⟨.tx (.getApprovalRequestByMessage id), .ok (some r)⟩ → ∃ s₀, Reachable host Any s₀ ∧
        Reach (machine host).step s₀ Any s ∧ s₀.world.db.approvalRequestByMessage id = some r)
    ?_ ?_ h j th hth l _ l' hl id r rfl
  · intro s i inp t log op k a w' hs _ hth hc id r heq
    cases heq
    have hcalled := called hc
    refine ⟨s, hs, (Moved.act (M := machine host) i inp t log _ k _ w' hth hc).reach, ?_⟩
    generalize ha : (Except.ok (some r) : Except Exn (Option ApprovalRequest)) = a at hcalled
    cases hcalled with
    | asked op a hop => cases hop
    | raised op e hop => cases ha
    | approvalRequest id => exact (Except.ok.inj ha).symm
  · intro s e s' t log en _ _ hm hX id r heq
    obtain ⟨s₀, hs₀, hlater, hread⟩ := hX id r heq
    exact ⟨s₀, hs₀, hlater.trans hm.reach, hread⟩

theorem messageId_of_latestRequest {rs : List ApprovalRequest} {r : ApprovalRequest} {id : UUID}
    (h : latestRequest (rs.filter fun r => r.messageId = id) = some r) : r.messageId = id := by
  simpa using (List.mem_filter.mp (mem_of_latestRequest h)).2

/-- A request keeps its trace and its message. -/
theorem later_request {s₀ : State} (h : Reach (machine host).step s₀ Any s) {r : ApprovalRequest}
    (hr : r ∈ s₀.world.db.approvalRequests) : ∃ r' ∈ s.world.db.approvalRequests,
      r'.traceId = r.traceId ∧ r'.messageId = r.messageId := by
  refine h.invariant (I := fun s => ∃ r' ∈ s.world.db.approvalRequests,
    r'.traceId = r.traceId ∧ r'.messageId = r.messageId) ⟨r, hr, rfl, rfl⟩ fun s e _ _ ih => ?_
  obtain ⟨r', hr', htrace, hmessage⟩ := ih
  have hm := moved (machine host) s e
  generalize (machine host).step s e = s' at hm
  cases hm with
  | env e => cases e <;> exact ⟨r', hr', htrace, hmessage⟩
  | act i inp t log op k a w' hth hc =>
    rcases (called hc).requests with heq | ⟨request, -, -, heq⟩ | ⟨token, _, _, _, _, -, heq⟩
    · exact ⟨r', heq ▸ hr', htrace, hmessage⟩
    · exact ⟨r', heq ▸ List.mem_append_left _ hr', htrace, hmessage⟩
    · refine ⟨_, heq ▸ mem_updateWhere_of_mem hr', ?_⟩
      split_ifs <;> exact ⟨htrace, hmessage⟩
  | _ => exact ⟨r', hr', htrace, hmessage⟩

/-- In another mode no approval is ever asked for. -/
theorem not_approvedBefore (hmode : host.cfg.executor.approvalMode ≠ "manual_all") (traceId : UUID) :
    ¬ ApprovedBefore host s traceId := by
  rintro ⟨s₀, hs₀, -, r, hr, -⟩
  exact hmode (request_origin hs₀ hr).1

/-- What is submitted in the mode `manual_all` was approved. -/
theorem Submits.approvedBefore (h : Reachable host Any s)
    (hmode : host.cfg.executor.approvalMode = "manual_all") {j : ℕ}
    {th : Thread Op Op.Ans Exn Out Task} (hth : s.threads[j]? = some th) {l : Log}
    (hl : l <+: th.log) {lease : JobLease} {parent : PipelineEnvelope} {intent : TradeIntent}
    (hs : Submits host.cfg l lease parent intent) : ApprovedBefore host s lease.traceId := by
  cases hs with
  | direct candidate hother he => exact absurd hmode hother
  | approved l₀ request payload hlog hrequest hstatus hh hget hload =>
    have hl₀ : l₀ <+: th.log := List.IsPrefix.trans ⟨_, hlog.symm⟩ hl
    obtain ⟨s₀, hs₀, hlater, hread⟩ := read_before h hth
      (show Answered th.log (.tx (.getApprovalRequestByMessage parent.messageId)) (some request)
        from hl.subset (by rw [hlog]; exact answered_last))
    have hheld := hh.held ⟨j, th, hth, hl₀⟩ h
    have hmem := mem_of_approvalRequestByMessage hread
    refine ⟨s₀, hs₀, hlater, request, hmem, ?_, hstatus⟩
    obtain ⟨r, hr, htrace, hmessage⟩ := later_request hlater hmem
    have hid : r.messageId = lease.messageId :=
      calc r.messageId = request.messageId := hmessage
        _ = parent.messageId := messageId_of_latestRequest hread
        _ = lease.messageId := hheld.parentId
    exact htrace.symm.trans (request_trace h hr hheld.job hheld.stage hid)

/-- A `place_order` call is justified, by an approval for its trace or by the configuration, just when
approvals are asked for or the configuration is one of the paper modes. -/
theorem placing_justified (h : Reachable host Any s) :
    ∀ th ∈ s.threads, ∀ intent id, th.next = some (.placeOrder intent id) →
      ∃ lease, leaseIn th.log = some lease ∧
        (ApprovedBefore host s lease.traceId ∨ host.cfg.paperAuto ↔
          host.cfg.executor.approvalMode = "manual_all" ∨ host.cfg.paperAuto) := by
  intro th hmem intent id hnext
  obtain ⟨j, hth⟩ := List.getElem?_of_mem hmem
  obtain ⟨⟨l, lease, parent, hsubmits, -, hlog⟩, -, -⟩ := (issued h hth).next hnext
  have hl : l <+: th.log := ⟨_, hlog.symm⟩
  obtain ⟨stage, -, hholds⟩ := hsubmits.holds
  refine ⟨lease, (hholds.leased.prefix_of hl).first, ?_⟩
  by_cases hmode : host.cfg.executor.approvalMode = "manual_all"
  · simp only [hmode, true_or, iff_true]
    exact Or.inl (hsubmits.approvedBefore h hmode hth hl)
  · have hnone : ¬ ApprovedBefore host s lease.traceId := not_approvedBefore hmode lease.traceId
    simp only [hmode, hnone, false_or]

namespace Sample

/-- An account that is not a paper account, in a mode that asks for approvals there. -/
def liveHost : Host :=
  { Sample.host "paper_auto_live_manual" with
    cfg := { (Sample.host "paper_auto_live_manual").cfg with broker := ⟨false⟩ } }

/-- The executor is about to place an order. -/
def placingEvents : List PipelineEvent :=
  List.flatten [ingested 0, researched 1, analysed 2 (portfolio 1001 0), calls 2 1,
    evaluated 3 (portfolio 1001 0)]

end Sample

theorem placing_justified_paper :
    (∃ th ∈ (run (Sample.host "paper_auto_only") Sample.placingEvents).threads,
      (placing th).isSome = true) ∧
    ∀ th ∈ (run (Sample.host "paper_auto_only") Sample.placingEvents).threads, ∀ intent id,
      th.next = some (.placeOrder intent id) → ∃ lease, leaseIn th.log = some lease ∧
        (ApprovedBefore (Sample.host "paper_auto_only")
            (run (Sample.host "paper_auto_only") Sample.placingEvents) lease.traceId ∨
          (Sample.host "paper_auto_only").cfg.paperAuto ↔
          (Sample.host "paper_auto_only").cfg.executor.approvalMode = "manual_all" ∨
          (Sample.host "paper_auto_only").cfg.paperAuto) :=
  ⟨by decide +kernel, placing_justified (reachable_run _ Sample.placingEvents)⟩

/-- An order is about to be placed on a live account, and no approval was ever given. -/
theorem placing_live : ∃ s, Reachable Sample.liveHost Any s ∧ ∃ th ∈ s.threads,
    ∃ intent id lease, th.next = some (.placeOrder intent id) ∧ leaseIn th.log = some lease ∧
      ¬ (ApprovedBefore Sample.liveHost s lease.traceId ∨ Sample.liveHost.cfg.paperAuto) := by
  have hplacing : ∃ th ∈ (run Sample.liveHost Sample.placingEvents).threads,
      (placing th).isSome = true ∧ (leaseIn th.log).isSome = true := by decide +kernel
  obtain ⟨th, hth, hsome, hleased⟩ := hplacing
  obtain ⟨intent, hintent⟩ := Option.isSome_iff_exists.mp hsome
  obtain ⟨lease, hlease⟩ := Option.isSome_iff_exists.mp hleased
  obtain ⟨id, hnext⟩ := next_of_placing hintent
  refine ⟨_, reachable_run _ Sample.placingEvents, th, hth, intent, id, lease, hnext, hlease, ?_⟩
  rintro (happroved | ⟨-, hpaper⟩)
  · exact not_approvedBefore (by decide +kernel) lease.traceId happroved
  · cases hpaper

end Sentinel.Pipeline
