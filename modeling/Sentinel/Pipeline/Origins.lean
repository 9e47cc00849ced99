import Sentinel.Analyst.Paths
import Sentinel.Executor.Paths
import Sentinel.Outcome.Paths
import Sentinel.Pipeline.Growth
import Sentinel.Researcher.Paths

/-!
# Where rows come from

In every reachable state: the calls of every thread are justified (`issued`), their answers still
tell the truth (`told`), and every message, job, order and observation was written by a call in
some log (`Source`, `message_origin`, `job_origin`, `order_origin`, `observation_origin`).
-/

namespace Sentinel.Pipeline

open Logic Contracts PipelineDB

variable {host : Host} {C : State → PipelineEvent → Prop} {s : State}

theorem issues_body (t : Task) : Always (Issues host.cfg t) (Finishes t) (t.body host) [] := by
  cases t with
  | ingress body headers replaySource =>
    refine (ResearcherIngressService.always_handleAlert rfl).bind (fun l r _ h response hr => ?_)
      fun l e _ h response hr => nomatch hr
    obtain rfl : r = response := by simpa using Except.ok.inj hr
    exact h r rfl
  | researcher workerId =>
    exact (ResearcherWorker.always_worker rfl).bind (fun _ _ _ _ => trivial) fun _ _ _ _ => trivial
  | analyst workerId =>
    exact (AnalystWorker.always_worker rfl).bind (fun _ _ _ _ => trivial) fun _ _ _ _ => trivial
  | executor workerId =>
    exact (ExecutorWorker.always_worker rfl).bind (fun _ _ _ h => h) fun _ _ _ h => h
  | approval workerId =>
    exact (ApprovalWorker.always_worker rfl).bind (fun _ _ _ h => h) fun _ _ _ h => h
  | outcome workerId =>
    exact (OutcomeWorker.always_worker rfl).bind (fun _ _ _ _ => trivial) fun _ _ _ _ => trivial
  | approve token approverId reason =>
    refine ⟨trivial, fun r => ?_⟩
    cases r with
    | error e => trivial
    | ok t =>
      refine ⟨trivial, fun r => ?_⟩
      cases r with
      | error e => trivial
      | ok id =>
        refine ⟨trivial, fun r => ?_⟩
        cases r <;> trivial
  | reject token approverId reason =>
    refine ⟨trivial, fun r => ?_⟩
    cases r with
    | error e => trivial
    | ok t =>
      refine ⟨trivial, fun r => ?_⟩
      cases r with
      | error e => trivial
      | ok id =>
        refine ⟨trivial, fun r => ?_⟩
        cases r <;> trivial

theorem issued (h : Reachable host C s) {j : ℕ} {th : Thread Op Op.Ans Exn Out Task}
    (hth : s.threads[j]? = some th) : Issued (Issues host.cfg) Finishes th :=
  issued_reach (M := machine host) issues_body h j th hth

theorem wellFormed (h : Reachable host C s) : WellFormed s.world.db :=
  world_reach (J := fun w => WellFormed w.db) wellFormed_empty
    (fun _ _ _ _ _ hc => called_wellFormed (called hc)) (fun _ e hw => by cases e <;> exact hw) h

theorem told (h : Reachable host C s) {j : ℕ} {th : Thread Op Op.Ans Exn Out Task}
    (hth : s.threads[j]? = some th) {en : Entry Op Op.Ans Exn} (hen : en ∈ th.log) :
    Told en s.world.db :=
  fact_reach (M := machine host) (F := fun en w => Told en w.db)
    (fun _ _ _ _ _ hc => called_told (called hc))
    (fun _ _ _ _ _ _ hc => told_mono (called_grows (called hc)))
    (fun _ e _ ht => by cases e <;> exact ht) h j th hth en hen

theorem moved_grows {s' : State} {e : PipelineEvent} (hm : Moved (machine host) s e s') :
    Grows s.world.db s'.world.db := by
  cases hm with
  | act i inp t log op k r w hth hc => exact called_grows (called hc)
  | env e => cases e <;> exact Grows.refl _
  | _ => exact Grows.refl _

/-- The log is the beginning of a thread's log. -/
def Logged (s : State) (l : Log) : Prop := ∃ (j : ℕ) (th : Thread Op Op.Ans Exn Out Task),
  s.threads[j]? = some th ∧ l <+: th.log

theorem Logged.prefix_of {l l' : Log} (h : Logged s l') (hpre : l <+: l') : Logged s l := by
  obtain ⟨j, th, hth, hl⟩ := h
  exact ⟨j, th, hth, hpre.trans hl⟩

theorem Logged.told {l : Log} (hl : Logged s l) (h : Reachable host C s)
    {en : Entry Op Op.Ans Exn} (hen : en ∈ l) : Told en s.world.db := by
  obtain ⟨j, th, hth, hpre⟩ := hl
  exact Pipeline.told h hth (hpre.subset hen)

/-- A call in a log was justified by what the log said before it. -/
theorem Logged.issues {l : Log} {en : Entry Op Op.Ans Exn} (hl : Logged s (l ++ [en]))
    (h : Reachable host C s) : ∃ task, Issues host.cfg task l en.op := by
  obtain ⟨j, th, hth, l', hl'⟩ := hl
  exact ⟨th.task, (issued h hth).2 l en l' (by rw [← hl']; simp)⟩

/-- What the tables contain beyond the empty ones was written by a call in some log. -/
theorem written {ρ : Type} {R : PipelineDB → ρ → Prop} {O : ρ → Entry Op Op.Ans Exn → Prop}
    (h : Reachable host C s) (h0 : ∀ x, ¬ R {} x)
    (hcall : ∀ w op r w' x, Called w op r w' → R w'.db x → R w.db x ∨ O x ⟨op, r⟩) {x : ρ}
    (hx : R s.world.db x) : ∃ (j : ℕ) (th : Thread Op Op.Ans Exn Out Task) (l l' : Log)
      (en : Entry Op Op.Ans Exn), s.threads[j]? = some th ∧ th.log = l ++ en :: l' ∧
      O x en ∧ Issues host.cfg th.task l en.op := by
  obtain ⟨j, th, hth, en, hen, hO⟩ :=
    origin_reach (M := machine host) (R := fun w x => R w.db x) (O := fun x en _ => O x en) h0
      (fun w op _ r w' x hc => hcall w op r w' x (called hc)) (fun _ e _ hx => by cases e <;> exact hx)
      (fun _ _ _ _ _ _ _ _ hO => hO) (fun _ _ _ _ hO => hO) h x hx
  obtain ⟨l, l', hl, hissues⟩ := (issued h hth).mem hen
  exact ⟨j, th, l, l', en, hth, hl, hO, hissues⟩

/-! ## Held jobs -/

/-- What a worker that holds a job knows of the database. -/
structure Held (db : PipelineDB) (stage : StageName) (lease : JobLease) (parent : PipelineEnvelope) :
    Prop where
  stage : lease.stage = stage
  job : lease.key ∈ db.jobKeys
  parentId : parent.messageId = lease.messageId
  message : db.findMessage lease.messageId = some (.ofEnvelope parent)
  trace : (parent.traceId, parent.sourceAlertId) ∈ db.traceKeys

theorem Holds.held {l : Log} {stage : StageName} {lease : JobLease} {parent : PipelineEnvelope}
    (hh : Holds l stage lease parent) (hl : Logged s l) (h : Reachable host C s) :
    Held s.world.db stage lease parent := by
  obtain ⟨⟨-, workerId, leasedUntil, t, hasked⟩, row, alertId, hrow, halert, rfl⟩ := hh
  obtain ⟨hstage, hjob⟩ : lease.stage = stage ∧ lease.key ∈ s.world.db.jobKeys := hl.told h hasked
  have hfound : s.world.db.findMessage lease.messageId = some row := hl.told h hrow
  exact ⟨hstage, hjob, (mem_of_findMessage hfound).2, hfound, hl.told h halert⟩

/-- A thread leases one job. -/
theorem leased_unique (h : Reachable host C s) {j : ℕ} {th : Thread Op Op.Ans Exn Out Task}
    (hth : s.threads[j]? = some th) {l l' : Log} {stage stage' : StageName} {lease lease' : JobLease}
    (hl : Leased l stage lease) (hl' : Leased l' stage' lease') (hpre : l <+: th.log)
    (hpre' : l' <+: th.log) : stage = stage' ∧ lease = lease' := by
  have hfirst := (hl.prefix_of hpre).first
  obtain rfl := Option.some.inj (hfirst.symm.trans (hl'.prefix_of hpre').first)
  obtain ⟨workerId, leasedUntil, t, hasked⟩ := (hl.prefix_of hpre).asked
  obtain ⟨workerId', leasedUntil', t', hasked'⟩ := (hl'.prefix_of hpre').asked
  have hstage : lease.stage = stage := (told h hth hasked).1
  have hstage' : lease.stage = stage' := (told h hth hasked').1
  exact ⟨hstage.symm.trans hstage', rfl⟩

/-- A thread that ingests leases nothing. -/
theorem Ingests.not_leased {alertId : Text} {envelope : PipelineEnvelope} {l l' : Log}
    {stage : StageName} {lease : JobLease} (hi : Ingests l alertId envelope)
    (hleased : Leased l' stage lease) (h : Reachable host C s) {j : ℕ}
    {th : Thread Op Op.Ans Exn Out Task} (hth : s.threads[j]? = some th) (hl : l <+: th.log)
    (hl' : l' <+: th.log) : False := by
  obtain ⟨traced, status, htrace⟩ := hi.trace
  obtain ⟨workerId, leasedUntil, t, hasked⟩ := hleased.asked
  obtain ⟨_, _, _, hingests, -⟩ := (issued h hth).mem (htrace.prefix_of hl)
  obtain ⟨_, _, _, -, hnot⟩ := (issued h hth).mem (hasked.prefix_of hl')
  cases Eq.trans (Eq.symm hingests) hnot

/-! ## Messages and jobs -/

/-- An envelope was stored by ingress or by a completion, to be queued for `next`. -/
inductive Source (cfg : PipelineConfig) (s : State) (envelope : PipelineEnvelope) :
    Option StageName → Prop
  | ingested (l : Log) (alertId : Text) (hl : Logged s l) (h : Ingests l alertId envelope) :
      Source cfg s envelope (some .research)
  | completed (l : Log) (lease : JobLease) (next : Option StageName) (availableAt : Option Time)
      (status : String) (t : Time) (out : Option UUID)
      (hl : Logged s (l ++ [⟨.tx (.completeJobSuccess lease (some envelope) next availableAt status
        t), .ok out⟩]))
      (h : Completes cfg l lease (some envelope) next) : Source cfg s envelope next

theorem message_origin (h : Reachable host C s) {m : StageMessage}
    (hm : m ∈ s.world.db.stageMessages) :
    ∃ envelope next, m = .ofEnvelope envelope ∧ Source host.cfg s envelope next := by
  obtain ⟨j, th, l, l', _, hth, hl, ⟨op, a, envelope, rfl, hop, rfl⟩, hissues⟩ :=
    written (R := fun db m => m ∈ db.stageMessages)
      (O := fun m en => ∃ op a envelope, en = ⟨op, .ok a⟩ ∧ op.Stores envelope ∧
        m = .ofEnvelope envelope) h (fun _ => List.not_mem_nil)
      (fun w op r w' m hc hm => by
        rcases hc.messages with heq | ⟨envelope, hop, -, ⟨a, rfl⟩, heq⟩
        · exact Or.inl (heq ▸ hm)
        · rcases List.mem_append.mp (heq ▸ hm) with hm | hm
          · exact Or.inl hm
          · exact Or.inr ⟨op, a, envelope, rfl, hop, List.mem_singleton.mp hm⟩) hm
  have hlogged : Logged s (l ++ [⟨op, .ok a⟩]) := ⟨j, th, hth, l', by rw [hl]; simp⟩
  refine ⟨envelope, ?_⟩
  rcases hop with rfl | ⟨lease, next, availableAt, status, now, rfl⟩
  · obtain ⟨alertId, hingests⟩ := hissues
    exact ⟨_, rfl, .ingested l alertId (hlogged.prefix_of (by simp)) hingests⟩
  · exact ⟨next, rfl, .completed l lease next availableAt status now a hlogged hissues.1⟩

/-- The message of a job was stored to be queued for the job's stage. -/
theorem job_origin (h : Reachable host C s) {k : JobKey} (hk : k ∈ s.world.db.jobKeys) :
    ∃ envelope, s.world.db.findMessage k.messageId = some (.ofEnvelope envelope) ∧
      envelope.messageId = k.messageId ∧ envelope.traceId = k.traceId ∧
      Source host.cfg s envelope (some k.stage) := by
  obtain ⟨j, th, hth, en, hen, hqueued⟩ :=
    origin_reach (M := machine host) (R := fun w k => k ∈ w.db.jobKeys) (O := QueuedBy)
      (fun _ => List.not_mem_nil)
      (fun w op inp r w' k hc hk => by
        rcases (called hc).jobKeys with heq | ⟨k', heq, -, hqueued⟩
        · exact Or.inl (heq ▸ hk)
        · rcases List.mem_append.mp (heq ▸ hk) with hk | hk
          · exact Or.inl hk
          · exact Or.inr (List.mem_singleton.mp hk ▸ hqueued))
      (fun _ e _ hk => by cases e <;> exact hk)
      (fun w op inp r w' k en hc hq => by
        rcases hq with hq | ⟨lease, envelope, availableAt, status, now, a, hen, hid, htr, hm⟩
        · exact Or.inl hq
        · exact Or.inr ⟨lease, envelope, availableAt, status, now, a, hen, hid, htr,
            (called_grows (called hc)).messages _ _ hm⟩)
      (fun _ e _ _ hq => by cases e <;> exact hq) h k hk
  obtain ⟨l, l', hl, hissues⟩ := (issued h hth).mem hen
  have hlogged : Logged s (l ++ [en]) := ⟨j, th, hth, l', by rw [hl]; simp⟩
  rcases hqueued with ⟨priority, a, rfl⟩ |
    ⟨lease, envelope, availableAt, status, now, a, rfl, hid, htr, hm⟩
  · obtain ⟨alertId, envelope, hingests, hanswer, hstage, htr⟩ := hissues
    obtain ⟨hid, hm⟩ : k.messageId = envelope.messageId ∧
        s.world.db.findMessage k.messageId = some (.ofEnvelope envelope) :=
      (hlogged.prefix_of (List.prefix_append l _)).told h hanswer
    rw [hstage]
    exact ⟨envelope, hm, hid.symm, htr.symm,
      .ingested l alertId (hlogged.prefix_of (List.prefix_append l _)) hingests⟩
  · exact ⟨envelope, hm, hid, htr, .completed l lease _ availableAt status now a hlogged hissues.1⟩

/-! ## Completions and evidence -/

/-- A completion answers with a message that has the key of its output. -/
theorem stored_of_completed (h : Reachable host C s) {j : ℕ} {th : Thread Op Op.Ans Exn Out Task}
    (hth : s.threads[j]? = some th) {lease : JobLease} {output : Option PipelineEnvelope}
    {next : Option StageName} {availableAt : Option Time} {status : String} {t : Time} {id : UUID}
    (hen : Answered th.log (.tx (.completeJobSuccess lease output next availableAt status t))
      (some id)) :
    ∃ envelope, output = some envelope ∧ ∃ m ∈ s.world.db.stageMessages, m.messageId = id ∧
      m.idempotencyKey = envelope.idempotencyKey := by
  refine fact_reach (M := machine host) (F := fun en w => ∀ lease output next availableAt status t id,
    en = ⟨.tx (.completeJobSuccess lease output next availableAt status t), .ok (some id)⟩ →
    ∃ envelope, output = some envelope ∧ ∃ m ∈ w.db.stageMessages, m.messageId = id ∧
      m.idempotencyKey = envelope.idempotencyKey) ?_ ?_ (fun _ e _ hF => by cases e <;> exact hF)
    h j th hth _ hen _ _ _ _ _ _ _ rfl
  · intro w op inp r w' hc lease output next availableAt status t id heq
    obtain ⟨rfl, heq⟩ := Entry.mk.inj heq
    obtain rfl := eq_of_heq heq
    have hcalled := called hc
    generalize ha : (Except.ok (some id) : Except Exn (Option UUID)) = a at hcalled
    cases hcalled with
    | asked op r hop => exact hop.elim
    | raised => cases ha
    | completed lease output next availableAt status now out ms js ts hts h =>
      obtain rfl := Except.ok.inj ha
      rcases h with ⟨rfl, -, ⟨-, hout⟩ | ⟨envelope, rfl, m, hm, hkey, hout⟩⟩ |
        ⟨envelope, rfl, hout, -, rfl, -⟩
      · cases hout
      · obtain rfl := Option.some.inj hout
        exact ⟨envelope, rfl, m, hm, rfl, hkey⟩
      · obtain rfl := Option.some.inj hout
        exact ⟨envelope, rfl, .ofEnvelope envelope,
          List.mem_append_right _ (List.mem_singleton.mpr rfl), rfl, rfl⟩
  · intro w op inp r w' en hc hF lease output next availableAt status t id heq
    obtain ⟨envelope, hout, m, hm, hkey⟩ := hF lease output next availableAt status t id heq
    exact ⟨envelope, hout, m, (called_grows (called hc)).allMessages hm, hkey⟩

/-- Evidence was saved by a thread that had published its message. -/
theorem evidence_written (h : Reachable host C s) {e : ResearchEvidence}
    (he : e ∈ s.world.db.researchEvidence) :
    ∃ (j : ℕ) (th : Thread Op Op.Ans Exn Out Task) (l l' : Log) (items : List EvidenceItem) (a : Unit),
      s.threads[j]? = some th ∧
      th.log = l ++ ⟨.tx (.saveResearchEvidence e.messageId items), .ok a⟩ :: l' ∧
      Published l e.messageId := by
  obtain ⟨j, th, l, l', _, hth, hl, ⟨items, a, rfl⟩, hissues⟩ :=
    written (R := fun db x => ∃ e ∈ db.researchEvidence, e.messageId = x)
      (O := fun x en => ∃ items a, en = ⟨.tx (.saveResearchEvidence x items), .ok a⟩) h
      (fun _ ⟨_, he, _⟩ => absurd he List.not_mem_nil)
      (fun w op r w' x hc ⟨e, he, hid⟩ => by
        cases hc with
        | evidence messageId items es hrows =>
          rcases hrows e he with hold | hnew
          · exact Or.inl ⟨e, hold, hid⟩
          · obtain rfl := hnew.symm.trans hid
            exact Or.inr ⟨items, _, rfl⟩
        | _ => exact Or.inl ⟨e, he, hid⟩) ⟨e, he, rfl⟩
  exact ⟨j, th, l, l', items, a, hth, hl, hissues⟩

/-! ## Orders and observations -/

/-- An order on record was submitted by a thread that still has the log of it. -/
theorem order_origin (h : Reachable host C s) {o : BrokerOrder} (ho : o ∈ s.world.db.brokerOrders) :
    ∃ (j : ℕ) (th : Thread Op Op.Ans Exn Out Task) (l l' : Log) (lease : JobLease)
      (parent : PipelineEnvelope) (intent : TradeIntent) (order : BrokerOrderResult) (id : UUID),
      s.threads[j]? = some th ∧ th.task.trades = true ∧ Submits host.cfg l lease parent intent ∧
      o.toOrderRecord = orderRecord parent intent (clientOrderId host.cfg parent intent) order ∧
      th.log = l ++ l' ∧ Answered th.log (.tx (.saveBrokerOrder o.toOrderRecord)) id := by
  obtain ⟨j, th, l₁, l', _, hth, hl, ⟨id, rfl⟩, htask, l, lease, parent, intent, order, hsubmits,
      hrecord, hlog, -⟩ :=
    written (R := fun db o => o ∈ db.brokerOrders)
      (O := fun o en => ∃ id, en = ⟨.tx (.saveBrokerOrder o.toOrderRecord), .ok id⟩) h
      (fun _ => List.not_mem_nil)
      (fun w op r w' o hc ho => by
        cases hc with
        | orderNew record hnew =>
          rcases List.mem_append.mp ho with ho | ho
          · exact Or.inl ho
          · obtain rfl := List.mem_singleton.mp ho
            exact Or.inr ⟨_, rfl⟩
        | _ => exact Or.inl ho) ho
  refine ⟨j, th, l, _, lease, parent, intent, order, id, hth, htask, hsubmits, hrecord,
    by rw [hl, hlog, List.append_assoc, List.append_assoc], ?_⟩
  rw [hl]
  exact List.mem_append_right _ List.mem_cons_self

/-- An observation was scheduled by a thread that submitted an order of its trace. -/
theorem observation_origin (h : Reachable host C s) {o : ObservationRow}
    (ho : o ∈ s.world.db.outcomeObservations) : ∃ l lease parent intent, Logged s l ∧
      Submits host.cfg l lease parent intent ∧ o.observation.traceId = parent.traceId := by
  obtain ⟨j, th, l₁, l', _, hth, hl, ⟨id, observation, a, rfl, htrace⟩, hissues⟩ :=
    written (R := fun db x => ∃ o ∈ db.outcomeObservations, o.observation.traceId = x)
      (O := fun x en => ∃ id observation a,
        en = ⟨.tx (.saveOutcomeObservation id observation), .ok a⟩ ∧ observation.traceId = x) h
      (fun _ ⟨_, ho, _⟩ => absurd ho List.not_mem_nil)
      (fun w op r w' x hc ⟨o, ho, htrace⟩ => by
        cases hc with
        | observation id observation hnew =>
          rcases List.mem_append.mp ho with ho | ho
          · exact Or.inl ⟨o, ho, htrace⟩
          · obtain rfl := List.mem_singleton.mp ho
            exact Or.inr ⟨id, observation, _, rfl, htrace⟩
        | observed id observedAt exitPrice returnPct benchmark label =>
          obtain ⟨old, hold, rfl⟩ := mem_updateWhere.mp ho
          refine Or.inl ⟨old, hold, ?_⟩
          split_ifs at htrace <;> exact htrace
        | _ => exact Or.inl ⟨o, ho, htrace⟩) ⟨o, ho, rfl⟩
  obtain ⟨-, l, lease, parent, intent, -, -, -, -, -, hsubmits, hpre, -, -, -, hparent⟩ := hissues
  exact ⟨l, lease, parent, intent, ⟨j, th, hth, hpre.trans ⟨_, hl.symm⟩⟩, hsubmits,
    htrace.symm.trans hparent⟩

end Sentinel.Pipeline
