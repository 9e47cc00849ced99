import Sentinel.Pipeline.Lineage

/-!
# Risk at the moment of trading

The expiry of the candidate and the breaker are looked at once, when the executor evaluates.  They
are still as they should be when the order is placed if nothing changes before that call, which
follows at once for the executor, but only after the decision and the next poll for the approval
worker.
-/

namespace Sentinel.Pipeline

open Logic Contracts PipelineDB

variable {host : Host} {C : State → PipelineEvent → Prop} {s : State}

/-! ## The candidate of an order -/

/-- The candidate traded for a job with this message: the best one of the report that the message
is or descends from. -/
def tradedCandidate (db : PipelineDB) (messageId : UUID) : Option TradeCandidate :=
  (db.findMessage messageId).bind fun m =>
    if m.stage = .analysis then
      bestCandidate m.payload
    else
      (m.parentMessageId.bind db.findMessage).bind fun report => bestCandidate report.payload

theorem tradedCandidate_grows {db db' : PipelineDB} (hg : Grows db db') {id : UUID}
    {c : TradeCandidate} (h : tradedCandidate db id = some c) : tradedCandidate db' id = some c := by
  obtain ⟨m, hm, hc⟩ := Option.bind_eq_some_iff.mp h
  refine Option.bind_eq_some_iff.mpr ⟨m, hg.messages _ _ hm, ?_⟩
  split_ifs at hc ⊢
  · exact hc
  · obtain ⟨report, hreport, hc⟩ := Option.bind_eq_some_iff.mp hc
    obtain ⟨parentId, hparent, hreport⟩ := Option.bind_eq_some_iff.mp hreport
    refine Option.bind_eq_some_iff.mpr ⟨report, ?_, hc⟩
    exact Option.bind_eq_some_iff.mpr ⟨parentId, hparent, hg.messages _ _ hreport⟩

theorem Evaluated.traded {l : Log} {lease : JobLease} {parent : PipelineEnvelope}
    {candidate : TradeCandidate} {intent : TradeIntent}
    (he : Evaluated host.cfg l lease parent candidate intent) (hl : Logged s l)
    (h : Reachable host C s) : tradedCandidate s.world.db lease.messageId = some candidate := by
  have hheld := he.holds.held hl h
  obtain ⟨envelope, hm, -, -, hqueued⟩ := job_message h hheld.job
  have hstage : lease.key.stage = .execution := hheld.stage
  rw [hstage] at hqueued
  cases hqueued with
  | analysis l' lease' parent' capturedAt output hl' hh hc =>
    have heq := Option.some.inj (hheld.message.symm.trans hm)
    have hanalysis : parent.stage = .analysis := (congrArg StageMessage.stage heq).trans hc.stage
    refine Option.bind_eq_some_iff.mpr ⟨_, hheld.message, ?_⟩
    rw [if_pos (show (StageMessage.ofEnvelope parent).stage = .analysis from hanalysis)]
    exact he.best

/-- The candidate traded for an order is the one that was evaluated for it. -/
theorem Submits.traded_evaluated {l : Log} {lease : JobLease} {parent : PipelineEnvelope}
    {intent : TradeIntent} (hs : Submits host.cfg l lease parent intent) (hl : Logged s l)
    (h : Reachable host C s) : ∃ l' lease' parent' candidate,
      tradedCandidate s.world.db lease.messageId = some candidate ∧ Logged s l' ∧
      Evaluated host.cfg l' lease' parent' candidate intent := by
  obtain ⟨l', lease', parent', candidate, hl', he, -, hparent⟩ := hs.evaluated hl h
  have htraded := he.traded hl' h
  refine ⟨l', lease', parent', candidate, ?_, hl', he⟩
  rcases hparent with ⟨rfl, -⟩ | ⟨hexecution, hparent, -⟩
  · exact htraded
  · obtain ⟨stage, -, hholds⟩ := hs.holds
    have hfound := (hholds.held hl h).message
    have hfound' := (he.holds.held hl' h).message
    rw [(he.holds.held hl' h).parentId] at hparent
    refine Option.bind_eq_some_iff.mpr ⟨_, hfound, ?_⟩
    rw [if_neg (show (StageMessage.ofEnvelope parent).stage ≠ .analysis by
      simp [StageMessage.ofEnvelope, hexecution])]
    refine Option.bind_eq_some_iff.mpr ⟨.ofEnvelope parent', ?_, he.best⟩
    exact Option.bind_eq_some_iff.mpr ⟨_, hparent, hfound'⟩

theorem Submits.traded {l : Log} {lease : JobLease} {parent : PipelineEnvelope}
    {intent : TradeIntent} (hs : Submits host.cfg l lease parent intent) (hl : Logged s l)
    (h : Reachable host C s) : ∃ candidate,
      tradedCandidate s.world.db lease.messageId = some candidate ∧
      candidate.candidateId = intent.candidateId := by
  obtain ⟨l', lease', parent', candidate, htraded, -, he⟩ := hs.traded_evaluated hl h
  obtain ⟨limitPrice, rfl⟩ := he.intent
  exact ⟨candidate, htraded, rfl⟩

/-! ## The condition -/

/-- The candidate traded for the message has not expired, and the breaker is not halted. -/
def InForce (cfg : PipelineConfig) (w : World) (messageId : UUID) : Prop :=
  ∃ c ∈ tradedCandidate w.db messageId,
    w.clock < c.expiryAt ∧ breakerHalted cfg.executor w.breaker w.clock = false

instance (cfg : PipelineConfig) (w : World) (messageId : UUID) :
    Decidable (InForce cfg w messageId) := inferInstanceAs (Decidable (∃ _ ∈ _, _))

/-- The order for the candidate traded for the message is on record. -/
def OnRecord (cfg : PipelineConfig) (db : PipelineDB) (messageId : UUID) : Prop :=
  ∃ m ∈ db.findMessage messageId, ∃ c ∈ tradedCandidate db messageId, ∃ o ∈ db.brokerOrders,
    o.clientOrderId =
      buildStableOrderId m.traceId c.candidateId cfg.executor.riskRulesetVersion

instance (cfg : PipelineConfig) (db : PipelineDB) (messageId : UUID) :
    Decidable (OnRecord cfg db messageId) :=
  inferInstanceAs (Decidable (∃ _ ∈ _, ∃ _ ∈ _, ∃ _ ∈ _, _))

/-- The answer with which a log ends, if it is about the breaker. -/
def breakerRead (log : Log) : Option CircuitBreakerState :=
  match log.getLast? with
  | some ⟨.getCircuitBreakerState, .ok breaker⟩ => some breaker
  | _ => none

/-- The thread is going to place an order, or to look for one that is not on record. -/
def ordering (db : PipelineDB) (th : Thread Op Op.Ans Exn Out Task) : Bool :=
  match th.next with
  | some (.placeOrder ..) => true
  | some (.tx (.getBrokerOrderByClientOrderId id)) =>
    db.brokerOrders.all fun o => o.clientOrderId ≠ id
  | _ => false

/-- What is decided by the call is decided on the present state of the risk. -/
def DecidedInForce (host : Host) (w : World) (log : Log) : Op → Prop
  | .now .evaluate => host.cfg.executor.approvalMode ≠ "manual_all" →
    ∀ breaker ∈ breakerRead log, breakerHalted host.cfg.executor breaker w.clock = false →
      breakerHalted host.cfg.executor w.breaker w.clock = false
  | .tx (.getApprovalRequestByMessage id) => ∀ r ∈ w.db.approvalRequestByMessage id,
    r.status = .approved → OnRecord host.cfg w.db id ∨ InForce host.cfg w id
  | _ => True

instance (host : Host) (w : World) (log : Log) : ∀ op, Decidable (DecidedInForce host w log op) := by
  intro op
  unfold DecidedInForce
  split <;> infer_instance

/-- An approval is found, and a candidate evaluated, while the candidate may be traded; and nothing
changes this until the order has been placed. -/
def RiskHolds (host : Host) (s : State) : PipelineEvent → Prop
  | .act i inp => ∀ th ∈ s.threads[i]?, ∀ op ∈ th.next, inp.commits = true →
    DecidedInForce host s.world th.log op
  | .env e => ∀ th ∈ s.threads, ordering s.world.db th = true → ∀ lease ∈ leaseIn th.log,
    InForce host.cfg (s.world.env e) lease.messageId
  | _ => True

instance (host : Host) (s : State) : ∀ e : PipelineEvent, Decidable (RiskHolds host s e)
  | .act _ _ => inferInstanceAs (Decidable (∀ _ ∈ _, ∀ _ ∈ _, _ → _))
  | .env _ => inferInstanceAs (Decidable (∀ _ ∈ _, _ → ∀ _ ∈ _, _))
  | .start _ | .crash _ => inferInstanceAs (Decidable True)

/-! ## What holds until the order is placed -/

section Until

variable {Q : World → UUID → Prop}

/-- `Q` holds of the message of the job leased in the log. -/
def LogHolds (Q : World → UUID → Prop) (log : Log) (w : World) : Prop :=
  ∃ lease ∈ leaseIn log, Q w lease.messageId

theorem LogHolds.prefix_of {log log' : Log} {w : World} (h : LogHolds Q log w) (hpre : log <+: log') :
    LogHolds Q log' w := by
  obtain ⟨lease, hlease, h⟩ := h
  exact ⟨lease, findSome?_mono hlease hpre, h⟩

/-- What is said of a thread that is about to look for an order or to place one. -/
def HoldsUntil (Q : World → UUID → Prop) (log : Log) (w : World) : Op → Prop
  | .tx (.getBrokerOrderByClientOrderId id) =>
    (∃ o ∈ w.db.brokerOrders, o.clientOrderId = id) ∨ LogHolds Q log w
  | .placeOrder .. => LogHolds Q log w
  | _ => True

/-- If no call destroys `Q`, neither do the calls of other threads. -/
theorem HoldsUntil.called
    (hQ : ∀ w w' op (r : Except Exn op.Ans) id, Called w op r w' → Q w id → Q w' id) {w w' : World}
    {log : Log} {op op' : Op} {r : Except Exn op.Ans} (h : HoldsUntil Q log w op')
    (hc : Called w op r w') : HoldsUntil Q log w' op' := by
  have hlog : LogHolds Q log w → LogHolds Q log w' :=
    fun ⟨lease, hlease, h⟩ => ⟨lease, hlease, hQ _ _ _ _ _ hc h⟩
  cases op' with
  | placeOrder intent id => exact hlog h
  | tx t =>
    cases t with
    | getBrokerOrderByClientOrderId id =>
      rcases h with ⟨o, ho, hid⟩ | h
      · exact Or.inl ⟨o, (called_grows hc).orders ho, hid⟩
      · exact Or.inr (hlog h)
    | _ => trivial
  | _ => trivial

/-- If `Q` holds when a thread turns to submitting an order that is not on record, and while it has
not placed it nothing from outside destroys `Q`, then `Q` holds when the order is placed. -/
theorem holdsUntil (hQ : ∀ w w' op (r : Except Exn op.Ans) id, Called w op r w' → Q w id → Q w' id)
    (hsubmits : ∀ (s s' : State) (i : ℕ) (inp : Input) (t : Task) (log : Log) (op : Op)
      (r : Except Exn op.Ans) (k : Except Exn op.Ans → Program Out) (lease : JobLease)
      (parent : PipelineEnvelope) (intent : TradeIntent), C s (.act i inp) →
      s.threads[i]? = some ⟨t, log, .call op k, true⟩ → s.world.call op inp = some (r, s'.world) →
      Reachable host C s' → s'.threads[i]? = some ⟨t, log ++ [⟨op, r⟩], k r, true⟩ →
      (∃ id, (k r).next = some (.tx (.getBrokerOrderByClientOrderId id))) →
      Submits host.cfg (log ++ [⟨op, r⟩]) lease parent intent →
      (∃ o ∈ s'.world.db.brokerOrders, o.clientOrderId = clientOrderId host.cfg parent intent) ∨
        LogHolds Q (log ++ [⟨op, r⟩]) s'.world)
    (henv : ∀ s e th, C s (.env e) → th ∈ s.threads → ordering s.world.db th = true →
      LogHolds Q th.log s.world → LogHolds Q th.log (s.world.env e))
    (h : Reachable host C s) :
    ∀ th ∈ s.threads, ∀ op, th.next = some op → HoldsUntil Q th.log s.world op := by
  refine next_reach (M := machine host) (P := fun _ log op w => HoldsUntil Q log w op) ?_ ?_
    (fun s i inp t log op k r w' j th op' _ _ _ hc _ _ _ hP => hP.called hQ (called hc)) ?_ h
  · intro w t op hop
    have hissues : Issues host.cfg t [] op := (issues_body t).next hop
    cases op with
    | placeOrder intent id =>
      obtain ⟨⟨l, lease, parent, -, -, hlog⟩, -⟩ := hissues
      exact absurd hlog (by simp)
    | tx t' =>
      cases t' with
      | getBrokerOrderByClientOrderId id =>
        obtain ⟨lease, parent, intent, hsubmits, -⟩ := hissues
        obtain ⟨stage, -, hholds⟩ := hsubmits.holds
        cases hholds.leased.first
      | _ => trivial
    | _ => trivial
  · intro s i inp t log op k r s' op' hs hC hth hc hs' hth' hop' hP
    have hissues : Issues host.cfg t (log ++ [⟨op, r⟩]) op' :=
      (issued hs' hth').next (by simpa [Thread.next] using hop')
    cases op' with
    | placeOrder intent id =>
      obtain ⟨⟨l, lease, parent, hsubmits, hid, hlog⟩, -⟩ := hissues
      obtain ⟨rfl, hlast⟩ := List.append_inj' hlog rfl
      cases (List.cons.inj hlast).1
      have hcalled := called hc
      generalize ha : (Except.ok none : Except Exn (Option BrokerOrder)) = a at hcalled
      generalize hw : s'.world = w' at hcalled
      cases hcalled with
      | asked op r hop => cases hop
      | raised op e hop => cases ha
      | brokerOrder id =>
        rcases hP with ⟨o, ho, hoid⟩ | hlog
        · have hnone : s.world.db.brokerOrderByClientOrderId id = none := (Except.ok.inj ha).symm
          have hne := List.find?_eq_none.mp hnone o ho
          exact absurd hoid (by simpa using hne)
        · exact hw ▸ hlog.prefix_of (List.prefix_append _ _)
    | tx t' =>
      cases t' with
      | getBrokerOrderByClientOrderId id =>
        obtain ⟨lease, parent, intent, hsub, rfl⟩ := hissues
        exact hsubmits s s' i inp t log op r k lease parent intent hC hth hc hs' hth' ⟨_, hop'⟩ hsub
      | _ => trivial
    | _ => trivial
  · intro s e th op hC hth hop hP
    cases op with
    | placeOrder intent id => exact henv s e th hC hth (by simp [ordering, hop]) hP
    | tx t' =>
      cases t' with
      | getBrokerOrderByClientOrderId id =>
        have hdb : (s.world.env e).db = s.world.db := by cases e <;> rfl
        by_cases hrecorded : ∃ o ∈ s.world.db.brokerOrders, o.clientOrderId = id
        · exact Or.inl (hdb ▸ hrecorded)
        · refine Or.inr (henv s e th hC hth ?_ (hP.resolve_left hrecorded))
          simpa [ordering, hop] using hrecorded
      | _ => trivial
    | _ => trivial

end Until

/-! ## Orders placed in time -/

theorem InForce.called {cfg : PipelineConfig} {w w' : World} {op : Op} {r : Except Exn op.Ans}
    {id : UUID} (h : InForce cfg w id) (hc : Called w op r w') : InForce cfg w' id := by
  obtain ⟨c, htraded, hexpiry, hhalted⟩ := h
  obtain ⟨hclock, hbreaker⟩ := hc.clock
  refine ⟨c, tradedCandidate_grows (called_grows hc) htraded, ?_, ?_⟩
  · rw [hclock]
    exact hexpiry
  · rw [hclock, hbreaker]
    exact hhalted

/-- A candidate is still in force when its evaluation has passed. -/
theorem evaluated_inForce {w w' : World} {inp : Input} {log : Log} {op : Op} {r : Except Exn op.Ans}
    {lease : JobLease} {parent : PipelineEnvelope} {candidate : TradeCandidate} {intent : TradeIntent}
    (hmode : host.cfg.executor.approvalMode ≠ "manual_all")
    (hC : inp.commits = true → DecidedInForce host w log op) (hc : w.call op inp = some (r, w'))
    (htraded : tradedCandidate w'.db lease.messageId = some candidate)
    (he : Evaluated host.cfg (log ++ [⟨op, r⟩]) lease parent candidate intent) :
    InForce host.cfg w' lease.messageId := by
  obtain ⟨l, portfolio, breaker, now, -, hlog, hpassed⟩ := he.passed
  obtain ⟨rfl, hlast⟩ := List.append_inj' hlog rfl
  cases (List.cons.inj hlast).1
  have hhalted := hC (commits_of_ok hc) hmode breaker (by simp [breakerRead])
  have hcalled := called hc
  generalize ha : (Except.ok now : Except Exn Time) = a at hcalled
  cases hcalled with
  | asked op r hop => cases hop
  | raised op e hop => cases ha
  | now site =>
    obtain rfl := Except.ok.inj ha
    exact ⟨candidate, htraded, hpassed.notExpired, hhalted hpassed.notHalted⟩

/-- An approval is found while its candidate is in force, or after its order was recorded. -/
theorem approved_inForce {w w' : World} {inp : Input} {id : UUID} {request : ApprovalRequest}
    (hC : inp.commits = true →
      DecidedInForce host w log (.tx (.getApprovalRequestByMessage id)))
    (hc : w.call (.tx (.getApprovalRequestByMessage id)) inp = some (.ok (some request), w'))
    (hstatus : request.status = .approved) :
    OnRecord host.cfg w'.db id ∨ InForce host.cfg w' id := by
  have hC := hC (commits_of_ok hc)
  have hcalled := called hc
  generalize ha : (Except.ok (some request) : Except Exn (Option ApprovalRequest)) = a at hcalled
  cases hcalled with
  | asked op r hop => cases hop
  | raised op e hop => cases ha
  | approvalRequest id => exact hC request (Except.ok.inj ha).symm hstatus

/-- The order of a submission is on record, or may be placed, when the thread turns to it. -/
theorem submits_ahead {s' : State} {i : ℕ} {inp : Input} {t : Task} {log : Log} {op : Op}
    {r : Except Exn op.Ans} {k : Except Exn op.Ans → Program Out} {lease : JobLease}
    {parent : PipelineEnvelope} {intent : TradeIntent} (hC : RiskHolds host s (.act i inp))
    (hth : s.threads[i]? = some ⟨t, log, .call op k, true⟩)
    (hc : s.world.call op inp = some (r, s'.world)) (hs' : Reachable host C s')
    (hth' : s'.threads[i]? = some ⟨t, log ++ [⟨op, r⟩], k r, true⟩)
    (hsubmits : Submits host.cfg (log ++ [⟨op, r⟩]) lease parent intent) :
    (∃ o ∈ s'.world.db.brokerOrders, o.clientOrderId = clientOrderId host.cfg parent intent) ∨
      LogHolds (InForce host.cfg) (log ++ [⟨op, r⟩]) s'.world := by
  have hl : Logged s' (log ++ [⟨op, r⟩]) := ⟨i, _, hth', List.prefix_refl _⟩
  obtain ⟨candidate, htraded, hcandidate⟩ := hsubmits.traded hl hs'
  obtain ⟨stage, -, hholds⟩ := hsubmits.holds
  have hheld := hholds.held hl hs'
  have hfirst := hholds.leased.first
  have hC : inp.commits = true → DecidedInForce host s.world log op := hC _ hth op rfl
  cases hsubmits with
  | direct candidate' hmode he =>
    exact Or.inr ⟨lease, hfirst, evaluated_inForce hmode hC hc (he.traded hl hs') he⟩
  | approved l request payload hlog hrequest hstatus hh hget hload =>
    obtain ⟨rfl, hlast⟩ := List.append_inj' hlog rfl
    cases (List.cons.inj hlast).1
    rcases approved_inForce hC hc hstatus with ⟨m, hm, c, hc, o, ho, hid⟩ | hforce
    · rw [hheld.parentId] at hm hc
      obtain rfl := Option.some.inj (hm.symm.trans hheld.message)
      obtain rfl := Option.some.inj (hc.symm.trans htraded)
      exact Or.inl ⟨o, ho, by rw [hid, hcandidate]; rfl⟩
    · rw [hheld.parentId] at hforce
      exact Or.inr ⟨lease, hfirst, hforce⟩

/-- The candidate of an order that is ahead is in force. -/
theorem ahead (h : Reachable host (RiskHolds host) s) : ∀ th ∈ s.threads, ∀ op,
    th.next = some op → HoldsUntil (InForce host.cfg) th.log s.world op :=
  holdsUntil (fun _ _ _ _ _ hc h => h.called hc)
    (fun _ _ _ _ _ _ _ _ _ _ _ _ hC hth hc hs' hth' _ hsub =>
      submits_ahead hC hth hc hs' hth' hsub)
    (fun _ _ th hC hth hordering ⟨lease, hlease, _⟩ =>
      ⟨lease, hlease, hC th hth hordering lease hlease⟩) h

/-- The candidate of the intent has not expired, and the breaker is not halted. -/
def TradesInForce (cfg : PipelineConfig) (s : State) (th : Thread Op Op.Ans Exn Out Task)
    (intent : TradeIntent) : Prop :=
  ∃ lease ∈ leaseIn th.log, ∃ c ∈ tradedCandidate s.world.db lease.messageId,
    c.candidateId = intent.candidateId ∧ s.world.clock < c.expiryAt ∧
      breakerHalted cfg.executor s.world.breaker s.world.clock = false

instance (cfg : PipelineConfig) (s : State) (th : Thread Op Op.Ans Exn Out Task)
    (intent : TradeIntent) : Decidable (TradesInForce cfg s th intent) :=
  inferInstanceAs (Decidable (∃ _ ∈ _, ∃ _ ∈ _, _))

/-- If the risk holds from the last look at it on, then whenever a thread is about to place an order
its candidate has not expired and the breaker is not halted. -/
theorem placing_inForce (h : Reachable host (RiskHolds host) s) :
    ∀ th ∈ s.threads, ∀ intent ∈ placing th, TradesInForce host.cfg s th intent := by
  intro th hmem intent hplacing
  obtain ⟨id, hnext⟩ := next_of_placing hplacing
  obtain ⟨lease, hlease, c, htraded, hexpiry, hhalted⟩ := ahead h th hmem _ hnext
  obtain ⟨j, hth⟩ := List.getElem?_of_mem hmem
  obtain ⟨⟨l, lease', parent, hsubmits, -, hlog⟩, -⟩ :
    Issues host.cfg th.task th.log (.placeOrder intent id) := (issued h hth).next hnext
  have hpre : l <+: th.log := ⟨_, hlog.symm⟩
  obtain ⟨stage, -, hholds⟩ := hsubmits.holds
  have hfirst := (hholds.leased.prefix_of hpre).first
  obtain rfl := Option.some.inj (hfirst.symm.trans hlease)
  obtain ⟨c', htraded', hcandidate⟩ := hsubmits.traded ⟨j, th, hth, hpre⟩ h
  obtain rfl := Option.some.inj (htraded'.symm.trans htraded)
  exact ⟨lease', hlease, c', htraded, hcandidate, hexpiry, hhalted⟩

namespace Sample

/-- The request is approved and polled at once. -/
def promptEvents : List PipelineEvent :=
  List.flatten [requested, decided 4 .approved, polled 5, calls 5 1]

/-- The worker polls a day after the approval. -/
def delayedEvents : List PipelineEvent :=
  List.flatten [requested, decided 4 .approved, tick 86400000000, polled 5, calls 5 1]

end Sample

theorem placing_inForce_prompt :
    (∃ th ∈ (run (Sample.host "manual_all") Sample.promptEvents).threads,
      (placing th).isSome = true) ∧
    ∀ th ∈ (run (Sample.host "manual_all") Sample.promptEvents).threads, ∀ intent ∈ placing th,
      TradesInForce (Sample.host "manual_all").cfg
        (run (Sample.host "manual_all") Sample.promptEvents) th intent :=
  ⟨by decide +kernel, placing_inForce (reach_of_allowed (by decide +kernel))⟩

/-- An order is placed a day after its candidate has expired. -/
theorem placing_expired : ∃ s, Reachable (Sample.host "manual_all") Any s ∧
    ∃ th ∈ s.threads, ∃ intent ∈ placing th,
      ¬ TradesInForce (Sample.host "manual_all").cfg s th intent :=
  ⟨_, reachable_run _ Sample.delayedEvents, by decide +kernel⟩

end Sentinel.Pipeline
