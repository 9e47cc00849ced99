import Sentinel.Pipeline.Lineage

/-!
# One order for an alert

The client order id keeps apart what the candidate id keeps apart, and every analysis draws new
candidate ids.  So an alert has one order when it has one EXECUTION job: the keys of RESEARCH and
ANALYSIS jobs see to that for their stages, but the key of a report also names the time of the
portfolio snapshot, which is another one when the analysis is repeated.
-/

namespace Sentinel.Pipeline

open Logic Contracts PipelineDB

variable {host : Host} {C : State → PipelineEvent → Prop} {s : State}

/-- The EXECUTION jobs for reports on the same research are for this report. -/
def NoOtherReport (db : PipelineDB) (envelope : PipelineEnvelope) : Prop :=
  ∀ k ∈ db.jobKeys, k.stage = .execution → ∀ m ∈ db.findMessage k.messageId,
    m.parentMessageId = envelope.parentMessageId → m.idempotencyKey = envelope.idempotencyKey

instance (db : PipelineDB) (envelope : PipelineEnvelope) : Decidable (NoOtherReport db envelope) :=
  inferInstanceAs (Decidable (∀ _ ∈ _, _ → ∀ _ ∈ _, _ → _))

/-- A report stored to be executed finds no EXECUTION job for another report on its research. -/
def SameReport (s : State) : PipelineEvent → Prop
  | .act i inp => ∀ op ∈ nextCall s i, ∀ envelope ∈ op.publishes .execution, inp.commits = true →
    NoOtherReport s.world.db envelope
  | _ => True

instance (s : State) : ∀ e : PipelineEvent, Decidable (SameReport s e)
  | .act _ _ => inferInstanceAs (Decidable (∀ _ ∈ _, ∀ _ ∈ _, _ → _))
  | .start _ | .crash _ | .env _ => inferInstanceAs (Decidable True)

/-- EXECUTION jobs for reports on the same research are for the same report. -/
def OneReport (db : PipelineDB) : Prop :=
  ∀ k ∈ db.jobKeys, ∀ k' ∈ db.jobKeys, k.stage = .execution → k'.stage = .execution →
    ∀ m m', db.findMessage k.messageId = some m → db.findMessage k'.messageId = some m' →
      m.parentMessageId = m'.parentMessageId → k.messageId = k'.messageId

/-- A report just stored under a new key is the only one on its research. -/
theorem oneReport_append {db db' : PipelineDB} {k₀ : JobKey} {m₀ : StageMessage}
    (hjobs : db'.jobKeys = db.jobKeys ++ [k₀])
    (hfound : ∀ k ∈ db.jobKeys, ∃ m, db.findMessage k.messageId = some m ∧
      db'.findMessage k.messageId = some m)
    (hm₀ : db'.findMessage k₀.messageId = some m₀)
    (hnew : k₀.stage = .execution → ∀ k ∈ db.jobKeys, k.stage = .execution →
      ∀ m, db.findMessage k.messageId = some m → m.parentMessageId ≠ m₀.parentMessageId)
    (h : OneReport db) : OneReport db' := by
  intro k hk k' hk' hstage hstage' m m' hm hm' hparent
  rw [hjobs, List.mem_append, List.mem_singleton] at hk hk'
  rcases hk with hk | rfl <;> rcases hk' with hk' | rfl
  · obtain ⟨n, hn, hfound₁⟩ := hfound k hk
    obtain ⟨n', hn', hfound₂⟩ := hfound k' hk'
    obtain rfl := Option.some.inj (hfound₁.symm.trans hm)
    obtain rfl := Option.some.inj (hfound₂.symm.trans hm')
    exact h k hk k' hk' hstage hstage' n n' hn hn' hparent
  · obtain ⟨n, hn, hfound₁⟩ := hfound k hk
    obtain rfl := Option.some.inj (hfound₁.symm.trans hm)
    obtain rfl := Option.some.inj (hm₀.symm.trans hm')
    exact absurd hparent (hnew hstage' k hk hstage n hn)
  · obtain ⟨n, hn, hfound₁⟩ := hfound k' hk'
    obtain rfl := Option.some.inj (hfound₁.symm.trans hm')
    obtain rfl := Option.some.inj (hm₀.symm.trans hm)
    exact absurd hparent.symm (hnew hstage k' hk' hstage' n hn)
  · rfl

theorem oneReport (h : Reachable host SameReport s) : OneReport s.world.db := by
  refine world_invariant (M := machine host) (J := fun w => OneReport w.db)
    (fun _ hk => absurd hk List.not_mem_nil) (fun s i inp t log op a r w' hs hC hth hc ih => ?_)
    (fun s e _ ih => by cases e <;> exact ih) h
  have hcalled := called hc
  have hgrows := called_grows hcalled
  have hfound : ∀ k ∈ s.world.db.jobKeys, ∃ m, s.world.db.findMessage k.messageId = some m ∧
      w'.db.findMessage k.messageId = some m := by
    intro k hk
    obtain ⟨envelope, hm, -⟩ := job_message hs hk
    exact ⟨_, hm, hgrows.messages _ _ hm⟩
  rcases hcalled.jobKeys with heq | ⟨k₀, heq, hnew, hqueued⟩
  · intro k hk k' hk' hstage hstage' m m' hm hm' hparent
    rw [heq] at hk hk'
    obtain ⟨n, hn, hn'⟩ := hfound k hk
    obtain ⟨p, hp, hp'⟩ := hfound k' hk'
    obtain rfl := Option.some.inj (hn'.symm.trans hm)
    obtain rfl := Option.some.inj (hp'.symm.trans hm')
    exact ih k hk k' hk' hstage hstage' n p hn hp hparent
  · rcases hqueued with ⟨priority, b, hen⟩ |
      ⟨lease, envelope, availableAt, status, now, b, hen, hid, htr, hm₀⟩
    · -- ingress queues RESEARCH jobs only
      cases hen
      obtain ⟨l, envelope, hingests, hanswer, hstage, -⟩ :=
        ((issued hs hth).next rfl : Issues host.cfg t log _)
      obtain ⟨-, hm⟩ : k₀.messageId = envelope.messageId ∧
          s.world.db.findMessage k₀.messageId = some (.ofEnvelope envelope) := told hs hth hanswer
      exact oneReport_append heq hfound (hgrows.messages _ _ hm)
        (fun hexec => by cases hstage.symm.trans hexec) ih
    · cases hen
      have hkey := (hcalled.new_of_job (by rw [heq]; simp)).key
      refine oneReport_append heq hfound hm₀ (fun hstage k hk hkstage m hm hparent => ?_) ih
      have hC : SameReport s (.act i inp) := hC
      exact hkey m (mem_of_findMessage hm).1 (hC _ (nextCall_eq hth) envelope
        (by simp [Op.publishes, hstage]) (commits_of_ok hc) k hk hkstage m hm hparent)

/-- An order on record is for the best candidate of the report of an EXECUTION job of its trace. -/
theorem order_report (h : Reachable host C s) {o : BrokerOrder} (ho : o ∈ s.world.db.brokerOrders) :
    o.clientOrderId =
      buildStableOrderId o.traceId o.candidateId host.cfg.executor.riskRulesetVersion ∧
    ∃ k ∈ s.world.db.jobKeys, k.stage = .execution ∧ k.traceId = o.traceId ∧
      ∃ m candidate, s.world.db.findMessage k.messageId = some m ∧
        bestCandidate m.payload = some candidate ∧ candidate.candidateId = o.candidateId := by
  obtain ⟨j, th, l, l', lease, parent, intent, order, id, hth, -, hsubmits, hrecord, hlog, -⟩ :=
    order_origin h ho
  have htrace : o.traceId = parent.traceId := congrArg OrderRecord.traceId hrecord
  have hcandidate : o.candidateId = intent.candidateId := congrArg OrderRecord.candidateId hrecord
  have hclient : o.clientOrderId = clientOrderId host.cfg parent intent :=
    congrArg OrderRecord.clientOrderId hrecord
  have hl : Logged s l := ⟨j, th, hth, l', hlog.symm⟩
  obtain ⟨l₀, lease', parent', candidate, hl₀, he, htrace', -⟩ := hsubmits.evaluated hl h
  have hheld := he.holds.held hl₀ h
  obtain ⟨limitPrice, rfl⟩ := he.intent
  refine ⟨by rw [hclient, htrace, hcandidate]; rfl, lease'.key, hheld.job, hheld.stage, ?_, _,
    candidate, hheld.message, he.best, hcandidate.symm⟩
  exact ((hheld.traceId h).symm.trans htrace').trans htrace.symm

/-- If every report stored to be executed is the only one on its research, then no two orders have
the same trace. -/
theorem one_order (h : Reachable host SameReport s) :
    (s.world.db.brokerOrders.map fun o => o.traceId).Nodup := by
  have hnodup := (wellFormed h).clientOrderId
  refine (List.Nodup.of_map _ hnodup).map_on fun o ho o' ho' htrace => ?_
  obtain ⟨hclient, k, hk, hstage, hktrace, m, c, hm, hbest, hc⟩ := order_report h ho
  obtain ⟨hclient', k', hk', hstage', hktrace', m', c', hm', hbest', hc'⟩ := order_report h ho'
  have hsame : k.messageId = k'.messageId := by
    obtain ⟨p, hp, hpstage, hptrace, n, hn, hparent⟩ := execution_parent h hk hstage
    obtain ⟨p', hp', hpstage', hptrace', n', hn', hparent'⟩ := execution_parent h hk' hstage'
    have hpp : p.messageId = p'.messageId := analysis_unique h hp hp' hpstage hpstage'
      (by rw [hptrace, hktrace, htrace, hptrace', hktrace'])
    exact oneReport h k hk k' hk' hstage hstage' n n' hn hn' (by rw [hparent, hparent', hpp])
  have hmm : m = m' := by
    rw [hsame] at hm
    exact Option.some.inj (hm.symm.trans hm')
  subst hmm
  obtain rfl := Option.some.inj (hbest.symm.trans hbest')
  refine eq_of_nodup hnodup ho ho' ?_
  rw [hclient, hclient', htrace, ← hc, ← hc']

namespace Sample

/-- The report and its job are stored, and then `save_analysis_candidates` fails. -/
def unsavedEvents : List PipelineEvent :=
  List.flatten [ingested 0, researched 1, analysed 2 (portfolio 1001 0),
    [.act 2 (.fault (lit "database is locked"))], calls 2 2]

/-- The analysis is retried half a minute later, with a new snapshot; both reports are executed. -/
def repeatedEvents : List PipelineEvent :=
  List.flatten [unsavedEvents, tick 30000000, analysed 3 (portfolio 1002 30000000), calls 3 1,
    evaluated 4 (portfolio 1001 0), ordered 4 "b1" 12,
    evaluated 5 (portfolio 1002 30000000), ordered 5 "b2" 12]

/-- The retry gets a snapshot of the same time. -/
def retriedEvents : List PipelineEvent :=
  List.flatten [unsavedEvents, tick 30000000, analysed 3 (portfolio 1003 0), calls 3 1,
    evaluated 4 (portfolio 1001 0), ordered 4 "b1" 12]

end Sample

theorem one_order_retried :
    ((run (Sample.host "auto") Sample.retriedEvents).world.db.brokerOrders.map
      fun o => o.traceId).Nodup :=
  one_order (reach_of_allowed (by decide +kernel))

theorem two_orders : ∃ s, Reachable (Sample.host "auto") Any s ∧
    ¬ (s.world.db.brokerOrders.map fun o => o.traceId).Nodup :=
  ⟨_, reachable_run _ Sample.repeatedEvents, by decide +kernel⟩

end Sentinel.Pipeline
