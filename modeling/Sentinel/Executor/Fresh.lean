import Sentinel.Analyst.Built
import Sentinel.Executor.Timely

/-!
# Quotes at the moment of trading

The age of a quote is written into the candidate when the analyst builds it, and the executor
compares the age as it is written there.  The quote is still fresh when the order is placed if it is
fresh, with the time that has passed added, at the last look at the candidate, and no time passes
from there on that would make it stale.
-/

namespace Sentinel.Pipeline

open Logic Contracts PipelineDB

variable {host : Host} {C : State → PipelineEvent → Prop} {s : State}

/-! ## The age of a quote -/

/-- The age of the candidate's quote at the time `t`; the candidate was built fifteen minutes before
its expiry, with the age then. -/
def quoteAgeAt (c : TradeCandidate) (t : Time) : Option Time :=
  match c.marketSnapshot.get .quoteAgeSec with
  | some (.int q) => some (seconds q + (t - (c.expiryAt - minutes 15)))
  | _ => none

theorem quoteAgeAt_candidate {cfg : AnalystSection} {portfolio : PortfolioSnapshot}
    {hypothesis : AssetHypothesis} {b : Build} {t : Time} :
    quoteAgeAt (b.candidate cfg portfolio hypothesis) t =
      some (seconds b.snapshot.quoteAgeSec + (t - b.builtAt)) := by
  have hget : (b.candidate cfg portfolio hypothesis).marketSnapshot.get .quoteAgeSec =
      some (.int b.snapshot.quoteAgeSec) := rfl
  have hexpiry : (b.candidate cfg portfolio hypothesis).expiryAt = b.builtAt + minutes 15 := rfl
  rw [quoteAgeAt, hget, hexpiry, add_sub_cancel_right]

def QuoteFresh (cfg : ExecutorSection) (c : TradeCandidate) (t : Time) : Prop :=
  ∃ age ∈ quoteAgeAt c t, age ≤ seconds cfg.staleQuoteSec

instance (cfg : ExecutorSection) (c : TradeCandidate) (t : Time) : Decidable (QuoteFresh cfg c t) :=
  inferInstanceAs (Decidable (∃ _ ∈ _, _))

/-- The quote of the candidate traded for the message is fresh. -/
def TradesFresh (cfg : PipelineConfig) (w : World) (messageId : UUID) : Prop :=
  ∃ c ∈ tradedCandidate w.db messageId, QuoteFresh cfg.executor c w.clock

instance (cfg : PipelineConfig) (w : World) (messageId : UUID) :
    Decidable (TradesFresh cfg w messageId) := inferInstanceAs (Decidable (∃ _ ∈ _, _))

/-! ## The condition -/

/-- All checks have passed. -/
def riskPasses : Except Exn (List RiskCheckResult) → Bool
  | .ok checks => checks.all RiskCheckResult.passed
  | .error _ => false

/-- What is decided by the call is decided on a fresh quote. -/
def DecidedFresh (host : Host) (w : World) (log : Log) : Op → Prop
  | .now .evaluate => host.cfg.executor.approvalMode ≠ "manual_all" →
    ∀ lease ∈ leaseIn log, ∀ c ∈ tradedCandidate w.db lease.messageId, ∀ S ∈ snapshotIn log,
      ∀ breaker ∈ breakerRead log,
        riskPasses (evaluate host.cfg.executor w.clock c S breaker) = true →
          QuoteFresh host.cfg.executor c w.clock
  | .tx (.getApprovalRequestByMessage id) => ∀ r ∈ w.db.approvalRequestByMessage id,
    r.status = .approved → OnRecord host.cfg w.db id ∨ TradesFresh host.cfg w id
  | _ => True

instance (host : Host) (w : World) (log : Log) : ∀ op, Decidable (DecidedFresh host w log op) := by
  intro op
  cases op with
  | now site =>
    cases site <;> first
      | exact inferInstanceAs (Decidable (_ → ∀ _ ∈ _, ∀ _ ∈ _, ∀ _ ∈ _, ∀ _ ∈ _, _ → _))
      | exact inferInstanceAs (Decidable True)
  | tx t =>
    cases t <;> first
      | exact inferInstanceAs (Decidable (∀ _ ∈ _, _ → _ ∨ _))
      | exact inferInstanceAs (Decidable True)
  | _ => exact inferInstanceAs (Decidable True)

/-- A candidate passes the checks, or its approval is found, while its quote is fresh; and it does
not become stale until the order has been placed. -/
def StaysFresh (host : Host) (s : State) : PipelineEvent → Prop
  | .act i inp => ∀ th ∈ s.threads[i]?, ∀ op ∈ th.next, inp.commits = true →
    DecidedFresh host s.world th.log op
  | .env e => ∀ th ∈ s.threads, ordering s.world.db th = true → ∀ lease ∈ leaseIn th.log,
    TradesFresh host.cfg (s.world.env e) lease.messageId
  | _ => True

instance (host : Host) (s : State) : ∀ e : PipelineEvent, Decidable (StaysFresh host s e)
  | .act _ _ => inferInstanceAs (Decidable (∀ _ ∈ _, ∀ _ ∈ _, _ → _))
  | .env _ => inferInstanceAs (Decidable (∀ _ ∈ _, _ → ∀ _ ∈ _, _))
  | .start _ | .crash _ => inferInstanceAs (Decidable True)

/-! ## The checks before an order -/

/-- The executor looks for an order right after all checks of the best candidate have passed. -/
def Checked (cfg : PipelineConfig) (log : Log) : Op → Prop
  | .tx (.getBrokerOrderByClientOrderId _) => ∃ l lease parent c S breaker t,
    log = l ++ [⟨.getCircuitBreakerState, .ok breaker⟩] ++ [⟨.now .evaluate, .ok t⟩] ∧
    Holds l .execution lease parent ∧ bestCandidate parent.payload = some c ∧
    snapshotIn l = some S ∧ riskPasses (evaluate cfg.executor t c S breaker) = true
  | _ => True

namespace ExecutorWorker

variable {cfg : PipelineConfig} {log : Log} {lease : JobLease} {parent : PipelineEnvelope}
  {intent : TradeIntent} {checks : List RiskCheckResult}

theorem checked_childEnvelope {α : Type} {stage : StageName} {key : Text} {payload : JsonValue}
    {f : PipelineEnvelope → Program α}
    (hf : ∀ l e, Always (Checked cfg) (Clean fun _ _ => True) (f e) l) :
    Always (Checked cfg) (Clean fun _ _ => True)
      (childEnvelope parent stage key payload >>= f) log := by
  simp only [childEnvelope, newEnvelope, Prog.bind_def, Prog.bind_assoc]
  exact always_op trivial fun id => always_op trivial fun t => hf _ _

theorem checked_submitOrder {stage : StageName}
    (h : Checked cfg log (.tx (.getBrokerOrderByClientOrderId
      (clientOrderId cfg parent intent)))) :
    Always (Checked cfg) (Clean fun _ _ => True) (submitOrder cfg lease parent intent checks stage)
      log := by
  have hschedule : ∀ l, Always (Checked cfg) (Clean fun _ _ => True)
      (scheduleOutcomes parent intent) l := by
    intro l
    refine always_op trivial fun rows => ?_
    split_ifs
    · simp only [scheduleDefaultOutcomes, saveOutcomeObservations, saveOutcomeObservation,
        Prog.bind_def, Prog.bind_assoc]
      refine always_op trivial fun t => always_op trivial fun id => always_op trivial fun _ => ?_
      refine always_op trivial fun id => always_op trivial fun _ => always_op trivial fun id => ?_
      exact always_op trivial fun _ _ => trivial
    · exact fun _ => trivial
  have hrest : ∀ l brokerOrderId, Always (Checked cfg) (Clean fun _ _ => True) (do
      let envelope ← childEnvelope parent stage (executionKey cfg parent)
        (ExecutionDecision.contract.dump (submittedDecision intent checks brokerOrderId))
      let _ ← completeJobSuccess lease (some envelope) (some .outcome) none
        (submittedDecision intent checks brokerOrderId).status.value
      scheduleOutcomes parent intent) l := by
    intro l brokerOrderId
    refine checked_childEnvelope fun l' e => ?_
    simp only [completeJobSuccess, Prog.bind_def, Prog.bind_assoc]
    exact always_op trivial fun t => always_op trivial fun out => hschedule _
  simp only [submitOrder, obtainOrder, Prog.bind_def, Prog.bind_assoc]
  refine always_op h fun existing => ?_
  cases existing with
  | none =>
    simp only [Prog.bind_assoc]
    exact always_op trivial fun order => always_op trivial fun id => hrest _ _
  | some row => exact hrest _ _

theorem checked_rejectRisk {id : Option UUID} {summary : String} :
    Always (Checked cfg) (Clean fun _ _ => True)
      (rejectRisk cfg lease parent id checks summary) log := by
  refine checked_childEnvelope fun l e => ?_
  simp only [completeJobSuccess, Prog.bind_def, Prog.bind_assoc]
  exact always_op trivial fun t => always_op trivial fun out _ => trivial

theorem checked_requestApproval :
    Always (Checked cfg) (Clean fun _ _ => True)
      (requestApproval cfg lease parent intent checks) log := by
  refine checked_childEnvelope fun l e => ?_
  simp only [ApprovalService.request, createApprovalRequest, completeJobSuccess, Prog.bind_def,
    Prog.bind_assoc]
  refine always_op trivial fun t => always_op trivial fun token => always_op trivial fun id => ?_
  refine always_op trivial fun t => always_op trivial fun _ => always_op trivial fun t => ?_
  exact always_op trivial fun out _ => trivial

theorem checked_process (h : Leased log .execution lease) (hnone : snapshotIn log = none) :
    Always (Checked cfg) (Clean fun _ _ => True) (process cfg lease) log := by
  simp only [process, getMessage, Prog.bind_def, Prog.bind_assoc]
  refine always_op trivial fun row => ?_
  cases row with
  | none => exact fun _ => trivial
  | some row =>
    refine always_op trivial fun alertId => ?_
    cases alertId with
    | none => exact fun _ => trivial
    | some alertId =>
      rw [Prog.getD, Prog.bind]
      generalize hlog' : log ++ _ ++ _ = log'
      have hholds : Holds log' .execution lease (row.toEnvelope alertId) := by
        subst hlog'
        exact ⟨h.prefix_of (by simp [List.append_assoc]), row, alertId, by simp [Answered],
          by simp [Answered], rfl⟩
      have hnone' : snapshotIn log' = none := by
        subst hlog'
        simp [snapshotIn] at hnone ⊢
        exact hnone
      refine always_getD_bind (fun report hload => ?_) fun _ _ => trivial
      split
      · exact checked_rejectRisk
      · next candidate rest hsorted =>
        have hbest : bestCandidate (row.toEnvelope alertId).payload = some candidate :=
          Option.bind_eq_some_iff.mpr ⟨report, hload, by rw [hsorted]; rfl⟩
        refine always_op trivial fun S => always_op trivial fun breaker => ?_
        refine always_op trivial fun t => ?_
        split
        · exact fun _ => trivial
        · next checks hchecks =>
          split_ifs with hall
          · have hsnapshot : snapshotIn (log' ++
                [⟨.getPortfolioSnapshot report.portfolioSnapshotId, .ok S⟩]) = some S := by
              rw [snapshotIn, List.findSome?_append]
              exact (congrArg (Option.or · _) hnone').trans rfl
            simp only [execute, Prog.bind_def]
            refine always_getD_bind (fun lastPrice _ => ?_) fun _ _ => trivial
            refine always_getD_bind (fun limitPrice _ => ?_) fun _ _ => trivial
            split_ifs
            · exact checked_requestApproval
            · refine checked_submitOrder ⟨_, lease, _, candidate, S, breaker, t, rfl,
                hholds.prefix_of (List.prefix_append _ _), hbest, hsnapshot, ?_⟩
              rw [hchecks]
              exact hall
          · exact checked_rejectRisk

theorem checked_worker {workerId : Text} :
    Always (Checked cfg) (fun _ _ => True) (processNext cfg workerId) [] := by
  have htolerant : Tolerant fun (_ : Log) (_ : Except Exn Bool) => True := ⟨fun _ _ _ _ => trivial⟩
  simp only [processNext, Pipeline.processNext, leaseNextJob, Prog.bind_def, Prog.bind_assoc]
  refine always_op trivial fun t => always_op trivial fun lease => ?_
  cases lease with
  | none => trivial
  | some lease =>
    refine (checked_process ⟨rfl, workerId, _, t, answered_last⟩ rfl).tryCatch
      (fun _ _ _ _ => trivial) fun l e _ _ => always_retires fun l op hop => ?_
    cases op with
    | tx x => cases x <;> trivial
    | _ => trivial

end ExecutorWorker

theorem checked (h : Reachable host C s) {j : ℕ} {th : Thread Op Op.Ans Exn Out Task}
    (hth : s.threads[j]? = some th) :
    Issued (fun t l op => t.stage = some .execution → Checked host.cfg l op) (fun _ _ _ => True)
      th := by
  refine issued_reach (M := machine host) (fun t => ?_) h j th hth
  cases t with
  | executor workerId =>
    exact (ExecutorWorker.checked_worker.mono' (fun _ _ _ hop _ => hop) fun _ _ _ _ => trivial).bind
      (Ψ := fun _ _ => True) (fun _ _ _ _ => trivial) fun _ _ _ _ => trivial
  | _ => exact always_of (fun _ _ h => nomatch h) fun _ _ => trivial

/-! ## Orders on fresh quotes -/

theorem TradesFresh.called {cfg : PipelineConfig} {w w' : World} {op : Op} {r : Except Exn op.Ans}
    {id : UUID} (h : TradesFresh cfg w id) (hc : Called w op r w') : TradesFresh cfg w' id := by
  obtain ⟨c, htraded, hfresh⟩ := h
  refine ⟨c, tradedCandidate_grows (called_grows hc) htraded, ?_⟩
  rw [hc.clock.1]
  exact hfresh

/-- The quote of a candidate that has passed the checks is fresh. -/
theorem evaluated_fresh {s' : State} {inp : Input} {log : Log} {op : Op} {r : Except Exn op.Ans}
    {lease : JobLease} {parent : PipelineEnvelope} {candidate : TradeCandidate} {intent : TradeIntent}
    {id : Text} (hmode : host.cfg.executor.approvalMode ≠ "manual_all")
    (hC : inp.commits = true → DecidedFresh host s.world log op)
    (hc : s.world.call op inp = some (r, s'.world)) (hs' : Reachable host C s')
    (hl : Logged s' (log ++ [⟨op, r⟩]))
    (he : Evaluated host.cfg (log ++ [⟨op, r⟩]) lease parent candidate intent)
    (hchecked : Checked host.cfg (log ++ [⟨op, r⟩]) (.tx (.getBrokerOrderByClientOrderId id))) :
    TradesFresh host.cfg s'.world lease.messageId := by
  obtain ⟨l, lease', parent', c, S, breaker, now, hlog, hholds, hbest, hsnapshot, hpass⟩ := hchecked
  obtain ⟨rfl, hlast⟩ := List.append_inj' hlog rfl
  cases (List.cons.inj hlast).1
  have hpre : l <+: l ++ [⟨.getCircuitBreakerState, .ok breaker⟩] := List.prefix_append _ _
  have hpre' := hpre.trans (List.prefix_append _ [⟨.now .evaluate, .ok now⟩])
  have hlease := (hholds.leased.prefix_of hpre).first
  obtain rfl : lease' = lease :=
    Option.some.inj ((hholds.leased.prefix_of hpre').first.symm.trans he.holds.leased.first)
  have hmessage := (hholds.prefix_of hpre').held hl hs'
  have hparent : (StageMessage.ofEnvelope parent').payload = (StageMessage.ofEnvelope parent).payload :=
    congrArg StageMessage.payload
      (Option.some.inj (hmessage.message.symm.trans (he.holds.held hl hs').message))
  obtain rfl : c = candidate := by
    have hbest' : bestCandidate (StageMessage.ofEnvelope parent').payload = some candidate := by
      rw [hparent]
      exact he.best
    exact Option.some.inj (hbest.symm.trans hbest')
  have htraded := he.traded hl hs'
  have hcalled := called hc
  generalize ha : (Except.ok now : Except Exn Time) = a at hcalled
  generalize hw : s'.world = w' at hcalled htraded ⊢
  cases hcalled with
  | asked op r hop => cases hop
  | raised op e hop => cases ha
  | now site =>
    obtain rfl := Except.ok.inj ha
    refine ⟨c, htraded, hC (commits_of_ok hc) hmode lease' hlease c htraded S ?_ breaker ?_ hpass⟩
    · exact findSome?_mono hsnapshot hpre
    · simp [breakerRead]

/-- An approval is found while the quote is fresh, or after its order was recorded. -/
theorem approved_fresh {w w' : World} {inp : Input} {log : Log} {id : UUID}
    {request : ApprovalRequest}
    (hC : inp.commits = true →
      DecidedFresh host w log (.tx (.getApprovalRequestByMessage id)))
    (hc : w.call (.tx (.getApprovalRequestByMessage id)) inp = some (.ok (some request), w'))
    (hstatus : request.status = .approved) :
    OnRecord host.cfg w'.db id ∨ TradesFresh host.cfg w' id := by
  have hC := hC (commits_of_ok hc)
  have hcalled := called hc
  generalize ha : (Except.ok (some request) : Except Exn (Option ApprovalRequest)) = a at hcalled
  cases hcalled with
  | asked op r hop => cases hop
  | raised op e hop => cases ha
  | approvalRequest id => exact hC request (Except.ok.inj ha).symm hstatus

theorem submits_fresh {s' : State} {i : ℕ} {inp : Input} {t : Task} {log : Log} {op : Op}
    {r : Except Exn op.Ans} {k : Except Exn op.Ans → Program Out} {lease : JobLease}
    {parent : PipelineEnvelope} {intent : TradeIntent} (hC : StaysFresh host s (.act i inp))
    (hth : s.threads[i]? = some ⟨t, log, .call op k, true⟩)
    (hc : s.world.call op inp = some (r, s'.world)) (hs' : Reachable host C s')
    (hth' : s'.threads[i]? = some ⟨t, log ++ [⟨op, r⟩], k r, true⟩)
    (hnext : ∃ id, (k r).next = some (.tx (.getBrokerOrderByClientOrderId id)))
    (hsubmits : Submits host.cfg (log ++ [⟨op, r⟩]) lease parent intent) :
    (∃ o ∈ s'.world.db.brokerOrders, o.clientOrderId = clientOrderId host.cfg parent intent) ∨
      LogHolds (TradesFresh host.cfg) (log ++ [⟨op, r⟩]) s'.world := by
  have hl : Logged s' (log ++ [⟨op, r⟩]) := ⟨i, _, hth', List.prefix_refl _⟩
  obtain ⟨candidate, htraded, hcandidate⟩ := hsubmits.traded hl hs'
  obtain ⟨stage, -, hholds⟩ := hsubmits.holds
  have hheld := hholds.held hl hs'
  have hfirst := hholds.leased.first
  have hC : inp.commits = true → DecidedFresh host s.world log op := hC _ hth op rfl
  cases hsubmits with
  | direct candidate' hmode he =>
    obtain ⟨id, hid⟩ := hnext
    have hstage := he.holds.leased.stage hs' hth' (List.prefix_refl _)
    have hchecked := (checked hs' hth').next hid hstage
    exact Or.inr ⟨lease, hfirst, evaluated_fresh hmode hC hc hs' hl he hchecked⟩
  | approved l request payload hlog hrequest hstatus hh hget hload =>
    obtain ⟨rfl, hlast⟩ := List.append_inj' hlog rfl
    cases (List.cons.inj hlast).1
    rcases approved_fresh hC hc hstatus with ⟨m, hm, c, hc, o, ho, hid⟩ | hfresh
    · rw [hheld.parentId] at hm hc
      obtain rfl := Option.some.inj (hm.symm.trans hheld.message)
      obtain rfl := Option.some.inj (hc.symm.trans htraded)
      exact Or.inl ⟨o, ho, by rw [hid, hcandidate]; rfl⟩
    · rw [hheld.parentId] at hfresh
      exact Or.inr ⟨lease, hfirst, hfresh⟩

theorem fresh_ahead (h : Reachable host (StaysFresh host) s) :
    ∀ th ∈ s.threads, ∀ op, th.next = some op →
      HoldsUntil (TradesFresh host.cfg) th.log s.world op :=
  holdsUntil (fun _ _ _ _ _ hc h => h.called hc)
    (fun _ _ _ _ _ _ _ _ _ _ _ _ hC hth hc hs' hth' hnext hsub =>
      submits_fresh hC hth hc hs' hth' hnext hsub)
    (fun _ _ _ hC hth hordering ⟨lease, hlease, _⟩ => ⟨lease, hlease, hC _ hth hordering lease hlease⟩)
    h

/-- The log built the candidate, and its quote is fresh at the time `t`. -/
def BuiltFresh (cfg : PipelineConfig) (log : Log) (candidateId : UUID) (t : Time) : Prop :=
  ∃ b ∈ buildsIn log, b.candidateId = candidateId ∧
    seconds b.snapshot.quoteAgeSec + (t - b.builtAt) ≤ seconds cfg.executor.staleQuoteSec

instance (cfg : PipelineConfig) (log : Log) (candidateId : UUID) (t : Time) :
    Decidable (BuiltFresh cfg log candidateId t) := inferInstanceAs (Decidable (∃ _ ∈ _, _))

/-- The candidate of the intent, the best of its report, carries the age of its quote; and the quote
is fresh at the time `t`, counting from when the candidate was built. -/
def OrderFresh (cfg : PipelineConfig) (s : State) (intent : TradeIntent) (t : Time) : Prop :=
  ∃ m ∈ s.world.db.stageMessages, m.stage = .analysis ∧ ∃ c ∈ bestCandidate m.payload,
    c.candidateId = intent.candidateId ∧ (c.marketSnapshot.get .quoteAgeSec).isSome ∧
      ∃ th ∈ s.threads, BuiltFresh cfg th.log intent.candidateId t

instance (cfg : PipelineConfig) (s : State) (intent : TradeIntent) (t : Time) :
    Decidable (OrderFresh cfg s intent t) :=
  inferInstanceAs (Decidable (∃ _ ∈ _, _ ∧ ∃ _ ∈ _, _ ∧ _ ∧ ∃ _ ∈ _, _))

theorem OrderFresh.moved {e : PipelineEvent} {s' : State} {cfg : PipelineConfig}
    {intent : TradeIntent} {t : Time} (hm : Moved (machine host) s e s')
    (h : OrderFresh cfg s intent t) : OrderFresh cfg s' intent t := by
  obtain ⟨m, hmem, hstage, c, hc, hid, hage, th, hth, b, hb, hfresh⟩ := h
  obtain ⟨j, hj⟩ := List.getElem?_of_mem hth
  obtain ⟨th', hj', -, hpre⟩ := thread_kept hm hj
  refine ⟨m, (moved_grows hm).allMessages hmem, hstage, c, hc, hid, hage, th', ?_, b, ?_, hfresh⟩
  · exact List.mem_of_getElem? hj'
  · exact (buildsIn_mono hpre).subset hb

/-- An order that is about to be placed is for a candidate whose quote is still fresh. -/
theorem placing_fresh (h : Reachable host (StaysFresh host) s)
    {th : Thread Op Op.Ans Exn Out Task} (hmem : th ∈ s.threads) {intent : TradeIntent} {id : Text}
    (hnext : th.next = some (.placeOrder intent id)) :
    OrderFresh host.cfg s intent s.world.clock := by
  obtain ⟨lease, hlease, c, htraded, age, hage, hle⟩ := fresh_ahead h th hmem _ hnext
  obtain ⟨i, hth⟩ := List.getElem?_of_mem hmem
  obtain ⟨⟨l, lease', parent, hsubmits, -, hlog⟩, -⟩ :
    Issues host.cfg th.task th.log (.placeOrder intent id) := (issued h hth).next hnext
  have hpre : l <+: th.log := ⟨_, hlog.symm⟩
  have hl : Logged s l := ⟨i, th, hth, hpre⟩
  obtain ⟨stage, -, hholds⟩ := hsubmits.holds
  obtain rfl := Option.some.inj ((hholds.leased.prefix_of hpre).first.symm.trans hlease)
  obtain ⟨l', lease'', parent', c', htraded', hl', he⟩ := hsubmits.traded_evaluated hl h
  obtain rfl := Option.some.inj (htraded'.symm.trans htraded)
  obtain ⟨m, hm, hstage, hbest⟩ := he.report hl' h
  obtain ⟨limitPrice, rfl⟩ := he.intent
  obtain ⟨j, th', l', lease'', parent'', report, hypothesis, b, hth', hpre', hbuilt⟩ :=
    message_built h hm hstage hbest
  obtain ⟨portfolio, rfl⟩ := hbuilt.candidate
  rw [quoteAgeAt_candidate] at hage
  obtain rfl := Option.some.inj hage
  refine ⟨m, hm, hstage, _, hbest, rfl, rfl, th', List.mem_of_getElem? hth', b, ?_, rfl, hle⟩
  exact (buildsIn_mono hpre').subset (List.of_mem_zip hbuilt.mem).2

/-- If quotes stay fresh from the last look at their candidate on, then every order the broker was
asked for was placed on a fresh quote, and on one whose age was known. -/
theorem placed_fresh (h : Reachable host (StaysFresh host) s) :
    ∀ o ∈ s.world.placed, OrderFresh host.cfg s o.intent o.placedAt := by
  refine h.rec_moved (I := fun s => ∀ o ∈ s.world.placed, OrderFresh host.cfg s o.intent o.placedAt)
    (fun o ho => absurd ho List.not_mem_nil) ?_
  intro s e s' hs _ ih hm o ho
  have hold : o ∈ s.world.placed → OrderFresh host.cfg s' o.intent o.placedAt :=
    fun ho => (ih o ho).moved hm
  cases hm with
  | idle => exact ih o ho
  | start => exact hold ho
  | crash => exact hold ho
  | env e => exact hold (by cases e <;> exact ho)
  | act i inp t log op k r w' hth hcall =>
    rcases (called hcall).placed_or with heq | ⟨intent, id, rfl, heq⟩
    · exact hold (heq ▸ ho)
    · rcases List.mem_append.mp (heq ▸ ho) with ho | hlast
      · exact hold ho
      · obtain rfl := List.mem_singleton.mp hlast
        exact (placing_fresh hs (List.mem_of_getElem? hth) rfl).moved (.act i inp t log _ k r w' hth hcall)

namespace Sample

/-- An alert becomes an order, with a time between the analysis and the execution. -/
def waitingEvents (wait : ℕ) : List PipelineEvent :=
  List.flatten [ingested 0, researched 1, analysed 2 (portfolio 1001 0), calls 2 1, tick wait,
    evaluated 3 (portfolio 1001 0), ordered 3 "b1" 12]

end Sample

theorem placed_fresh_waiting :
    let s := run (Sample.host "auto") (Sample.waitingEvents 2000000)
    ∀ o ∈ s.world.placed, OrderFresh (Sample.host "auto").cfg s o.intent o.placedAt :=
  placed_fresh (reach_of_allowed (by decide +kernel))

/-- A candidate is bought five minutes after its quote was looked at. -/
theorem placed_stale : ∃ s, Reachable (Sample.host "auto") Any s ∧ ∃ o ∈ s.world.placed,
    ¬ OrderFresh (Sample.host "auto").cfg s o.intent o.placedAt :=
  ⟨_, reachable_run _ (Sample.waitingEvents 300000000), by decide +kernel⟩

end Sentinel.Pipeline
