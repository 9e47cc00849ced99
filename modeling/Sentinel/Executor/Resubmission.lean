import Sentinel.Logic.Count
import Sentinel.Pipeline.Draws
import Sentinel.Pipeline.Tenure

/-!
# Orders that are placed again

The check for an order on record, the call of the broker and the recording are three calls of one
attempt.  A client order id is submitted for one job only, and one thread at a time may still end a
run of a job; so between the check and the recording nobody else records the order, and an order is
placed again only by an attempt after one that failed in between.

* `Submits.job_unique`: a client order id belongs to one job.
* `Handles`: a thread between the check and the recording; `handles_unrecorded`.
* `FailedPlacing`: an attempt that failed between the placing and the recording.
-/

namespace Sentinel.Pipeline

open Logic Contracts PipelineDB

variable {host : Host} {C : State → PipelineEvent → Prop} {s : State}

/-! ## One job for a client order id -/

/-- A log ends one job first. -/
theorem first_ending {log l l' : Log} {en en' : Entry Op Op.Ans Exn} (h : l ++ [en] <+: log)
    (h' : l' ++ [en'] <+: log) (hunended : Unended l) (hunended' : Unended l')
    (hends : en.op.ends = true) (hends' : en'.op.ends = true) : l ++ [en] = l' ++ [en'] := by
  have hinside : ∀ {k k' : Log} {x x' : Entry Op Op.Ans Exn}, Unended k' → x.op.ends = true →
      k ++ [x] <+: k' ++ [x'] → k ++ [x] = k' ++ [x'] := by
    intro k k' x x' hk' hx hpre
    rcases List.prefix_concat_iff.mp hpre with heq | hpre
    · exact heq
    · cases Eq.trans (Eq.symm hx) (hk' x (hpre.subset (by simp)))
  rcases List.prefix_or_prefix_of_prefix h h' with hpre | hpre
  · exact hinside hunended' hends hpre
  · exact (hinside hunended hends' hpre).symm

theorem bestCandidate_mem {report : AnalysisReport} {candidate : TradeCandidate}
    (h : bestCandidate (AnalysisReport.contract.dump report) = some candidate) :
    candidate ∈ report.candidates := by
  simp only [bestCandidate, Codec.load_dump, Option.bind_some] at h
  exact (perm_sortedByScore _).mem_iff.mp (List.mem_of_mem_head? h)

/-- The message of an EXECUTION job was stored by the thread that drew the id of its best candidate,
as the first job that this thread ended. -/
theorem execution_origin (h : Reachable host C s) {k : JobKey} (hk : k ∈ s.world.db.jobKeys)
    (hstage : k.stage = .execution) {m : StageMessage} (hm : s.world.db.findMessage k.messageId = some m)
    {candidate : TradeCandidate} (hbest : bestCandidate m.payload = some candidate) :
    ∃ (j : ℕ) (th : Thread Op Op.Ans Exn Out Task) (l : Log) (lease : JobLease)
      (envelope : PipelineEnvelope) (next : Option StageName) (availableAt : Option Time)
      (status : String) (t : Time) (out : Option UUID), s.threads[j]? = some th ∧
      envelope.messageId = k.messageId ∧ Unended l ∧
      Answered l (.uuid4 .candidate) candidate.candidateId ∧
      l ++ [⟨.tx (.completeJobSuccess lease (some envelope) next availableAt status t), .ok out⟩] <+:
        th.log := by
  obtain ⟨envelope, hfound, hid, -, hsource⟩ := job_origin h hk
  have heq : m = .ofEnvelope envelope := Option.some.inj (hm.symm.trans hfound)
  rw [hstage] at hsource
  generalize hexecution : some StageName.execution = next at hsource
  cases hsource with
  | ingested l alertId hl hi => cases hexecution
  | completed l lease next availableAt status t out hl hcompletes =>
    obtain ⟨_, hconcludes⟩ := hl.issues h
    obtain ⟨j, th, hth, hpre⟩ := hl
    refine ⟨j, th, l, lease, envelope, next, availableAt, status, t, out, hth, hid,
      hconcludes.unended, ?_, hpre⟩
    cases hcompletes with
    | analysed parent envelope report snapshot output next hh hload hsnapshot he hnext hdrawn =>
      have hpayload : m.payload = AnalysisReport.contract.dump output := by
        rw [heq]
        exact he.payload
      rw [hpayload] at hbest
      refine answered_of_drawsIn (hdrawn.subset ?_)
      exact List.mem_map_of_mem (List.mem_append_left _ (bestCandidate_mem hbest))
    | researched parent envelope ingested report next hh hload hreport he hnext =>
      rw [hnext] at hexecution
      split_ifs at hexecution
      cases hexecution
    | observed parent envelope rows rows' t next hh hdue hupdated hrows' he hnext =>
      rw [hnext] at hexecution
      split_ifs at hexecution
      cases hexecution
    | _ => cases hexecution

/-- EXECUTION jobs with the same best candidate are for the same message. -/
theorem candidate_unique (h : Reachable host C s) {k k' : JobKey} (hk : k ∈ s.world.db.jobKeys)
    (hk' : k' ∈ s.world.db.jobKeys) (hstage : k.stage = .execution) (hstage' : k'.stage = .execution)
    {m m' : StageMessage} (hm : s.world.db.findMessage k.messageId = some m)
    (hm' : s.world.db.findMessage k'.messageId = some m') {candidate candidate' : TradeCandidate}
    (hbest : bestCandidate m.payload = some candidate)
    (hbest' : bestCandidate m'.payload = some candidate')
    (hid : candidate.candidateId = candidate'.candidateId) : k.messageId = k'.messageId := by
  obtain ⟨j, th, l, lease, envelope, next, availableAt, status, t, out, hth, hmessage, hunended,
    hdrawn, hpre⟩ := execution_origin h hk hstage hm hbest
  obtain ⟨j', th', l', lease', envelope', next', availableAt', status', t', out', hth', hmessage',
    hunended', hdrawn', hpre'⟩ := execution_origin h hk' hstage' hm' hbest'
  rw [hid] at hdrawn
  obtain rfl := drawn_thread h hth hth' ((List.prefix_append _ _).trans hpre)
    ((List.prefix_append _ _).trans hpre') hdrawn hdrawn'
  obtain rfl := Option.some.inj (hth.symm.trans hth')
  have heq := first_ending hpre hpre' hunended hunended' rfl rfl
  obtain ⟨-, hen⟩ := List.append_inj' heq rfl
  simp only [List.cons.injEq, and_true, Entry.mk.injEq, Op.tx.injEq, Tx.completeJobSuccess.injEq,
    Option.some.injEq] at hen
  rw [← hmessage, ← hmessage', hen.1.2.1]

/-- Approvals are only asked for in the mode `manual_all`. -/
theorem approval_mode (h : Reachable host C s) {k : JobKey} (hk : k ∈ s.world.db.jobKeys)
    (hstage : k.stage = .approval) : host.cfg.executor.approvalMode = "manual_all" := by
  obtain ⟨envelope, -, -, -, hsource⟩ := job_origin h hk
  rw [hstage] at hsource
  generalize happroval : some StageName.approval = next at hsource
  cases hsource with
  | ingested l alertId hl hi => cases happroval
  | completed l lease next availableAt status t out hl hcompletes =>
    cases hcompletes with
    | awaiting l parent envelope candidate intent checks approvalId hmode => exact hmode
    | analysed parent envelope report snapshot output next hh hload hsnapshot he hnext =>
      rw [hnext] at happroval
      split_ifs at happroval
      cases happroval
    | researched parent envelope ingested report next hh hload hreport he hnext =>
      rw [hnext] at happroval
      split_ifs at happroval
      cases happroval
    | observed parent envelope rows rows' t next hh hdue hupdated hrows' he hnext =>
      rw [hnext] at happroval
      split_ifs at happroval
      cases happroval
    | _ => cases happroval

/-- There is one job of a stage for a message. -/
theorem jobId_eq (h : Reachable host C s) {k k' : JobKey} (hk : k ∈ s.world.db.jobKeys)
    (hk' : k' ∈ s.world.db.jobKeys) (hstage : k.stage = k'.stage)
    (hmessage : k.messageId = k'.messageId) : k.jobId = k'.jobId := by
  rw [eq_of_nodup (wellFormed h).stageMessage hk hk' (by simp [hstage, hmessage])]

/-- What the evaluation behind a submission says of its EXECUTION job. -/
theorem Evaluated.job {l : Log} {lease : JobLease} {parent : PipelineEnvelope}
    {candidate : TradeCandidate} {intent : TradeIntent}
    (he : Evaluated host.cfg l lease parent candidate intent) (hl : Logged s l)
    (h : Reachable host C s) : lease.key ∈ s.world.db.jobKeys ∧ lease.key.stage = .execution ∧
      s.world.db.findMessage lease.key.messageId = some (.ofEnvelope parent) ∧
      bestCandidate (StageMessage.ofEnvelope parent).payload = some candidate ∧
      candidate.candidateId = intent.candidateId := by
  have hheld := he.holds.held hl h
  obtain ⟨limitPrice, rfl⟩ := he.intent
  exact ⟨hheld.job, hheld.stage, hheld.message, he.best, rfl⟩

/-- Submissions under one client order id are for one job. -/
theorem Submits.job_unique (h : Reachable host C s) {l l' : Log} {lease lease' : JobLease}
    {parent parent' : PipelineEnvelope} {intent intent' : TradeIntent}
    (hs : Submits host.cfg l lease parent intent) (hs' : Submits host.cfg l' lease' parent' intent')
    (hl : Logged s l) (hl' : Logged s l')
    (heq : clientOrderId host.cfg parent intent = clientOrderId host.cfg parent' intent') :
    lease.jobId = lease'.jobId := by
  obtain ⟨-, hcandidate, -⟩ := buildStableOrderId_inj.mp heq
  have hmode : ∀ {l : Log} {lease : JobLease} {parent : PipelineEnvelope}, Logged s l →
      Holds l .approval lease parent → host.cfg.executor.approvalMode = "manual_all" := by
    intro l lease parent hl hh
    have hheld := hh.held hl h
    exact approval_mode h hheld.job hheld.stage
  obtain ⟨l₀, lease₀, parent₀, candidate₀, hl₀, he₀, -, hcase⟩ := hs.evaluated hl h
  obtain ⟨l₁, lease₁, parent₁, candidate₁, hl₁, he₁, -, hcase'⟩ := hs'.evaluated hl' h
  obtain ⟨hjob₀, hstage₀, hm₀, hbest₀, hid₀⟩ := he₀.job hl₀ h
  obtain ⟨hjob₁, hstage₁, hm₁, hbest₁, hid₁⟩ := he₁.job hl₁ h
  -- both evaluations are of one EXECUTION job
  have hmessage : lease₀.key.messageId = lease₁.key.messageId :=
    candidate_unique h hjob₀ hjob₁ hstage₀ hstage₁ hm₀ hm₁ hbest₀ hbest₁
      ((hid₀.trans hcandidate).trans hid₁.symm)
  cases hs with
  | direct candidate hother he =>
    cases hs' with
    | direct candidate' hother' he' =>
      obtain ⟨hjob, hstage, hm, hbest, hid⟩ := he.job hl h
      obtain ⟨hjob', hstage', hm', hbest', hid'⟩ := he'.job hl' h
      refine jobId_eq h hjob hjob' (hstage.trans hstage'.symm) ?_
      exact candidate_unique h hjob hjob' hstage hstage' hm hm' hbest hbest'
        ((hid.trans hcandidate).trans hid'.symm)
    | approved l₂ request payload hlog hrequest hstatus hh hget hload =>
      exact absurd (hmode (hl'.prefix_of ⟨_, hlog.symm⟩) hh) hother
  | approved l₂ request payload hlog hrequest hstatus hh hget hload =>
    cases hs' with
    | direct candidate' hother' he' =>
      exact absurd (hmode (hl.prefix_of ⟨_, hlog.symm⟩) hh) hother'
    | approved l₃ request' payload' hlog' hrequest' hstatus' hh' hget' hload' =>
      have hheld := hh.held (hl.prefix_of ⟨_, hlog.symm⟩) h
      have hheld' := hh'.held (hl'.prefix_of ⟨_, hlog'.symm⟩) h
      have hstage : lease.key.stage = .approval := hheld.stage
      have hstage' : lease'.key.stage = .approval := hheld'.stage
      rcases hcase with ⟨rfl, rfl⟩ | ⟨-, -, hkey⟩
      · cases hstage₀.symm.trans hstage
      rcases hcase' with ⟨rfl, rfl⟩ | ⟨-, -, hkey'⟩
      · cases hstage₁.symm.trans hstage'
      have hparent : parent₀.messageId = parent₁.messageId :=
        calc parent₀.messageId = lease₀.messageId := (he₀.holds.held hl₀ h).parentId
          _ = lease₁.messageId := hmessage
          _ = parent₁.messageId := (he₁.holds.held hl₁ h).parentId.symm
      have hkeys : parent.idempotencyKey = parent'.idempotencyKey := by
        rw [hkey, hkey', executionKey, executionKey, hparent]
      refine jobId_eq h hheld.job hheld'.job (hstage.trans hstage'.symm) ?_
      exact messageId_eq_of_key h hheld.message hheld'.message hkeys

/-! ## Between the check and the recording -/

/-- The calls that place an order under the client order id. -/
def Op.placesAs (clientOrderId : Text) : Op → Bool
  | .placeOrder _ id => id = clientOrderId
  | _ => false

/-- The calls that record one. -/
def Op.savesAs (clientOrderId : Text) : Op → Bool
  | .tx (.saveBrokerOrder record) => record.clientOrderId = clientOrderId
  | _ => false

/-- The thread is about to place the order, or to record that it did. -/
def Handles (c : Text) (th : Thread Op Op.Ans Exn Out Task) : Prop :=
  ∃ op, th.next = some op ∧ (op.placesAs c = true ∨ op.savesAs c = true)

/-- Such a thread has checked what it submits, and has not ended its job. -/
theorem Handles.submits {c : Text} {th : Thread Op Op.Ans Exn Out Task} (hc : Handles c th)
    (h : Reachable host C s) {j : ℕ} (hth : s.threads[j]? = some th) :
    Unended th.log ∧ ∃ l lease parent intent, l <+: th.log ∧
      Submits host.cfg l lease parent intent ∧ c = clientOrderId host.cfg parent intent := by
  obtain ⟨op, hnext, hop⟩ := hc
  have hissues := (issued h hth).next hnext
  cases op with
  | placeOrder intent id =>
    obtain ⟨⟨l, lease, parent, hsubmits, hid, hlog⟩, -, hunended⟩ := hissues
    obtain rfl : id = c := by simpa [Op.placesAs, Op.savesAs] using hop
    exact ⟨hunended, l, lease, parent, intent, ⟨_, hlog.symm⟩, hsubmits, hid⟩
  | tx t =>
    cases t with
    | saveBrokerOrder record =>
      obtain ⟨-, l, lease, parent, intent, order, hsubmits, hrecord, hlog, hunended⟩ := hissues
      have hid : record.clientOrderId = c := by simpa [Op.placesAs, Op.savesAs] using hop
      refine ⟨hunended, l, lease, parent, intent, ⟨_, by rw [hlog, List.append_assoc]⟩, hsubmits, ?_⟩
      rw [← hid, hrecord]
      rfl
    | _ => simp [Op.placesAs, Op.savesAs] at hop
  | _ => simp [Op.placesAs, Op.savesAs] at hop

/-- One thread at a time handles a client order id. -/
theorem handles_unique (h : Reachable host C s) {c : Text} {i j : ℕ}
    {th th' : Thread Op Op.Ans Exn Out Task} (hi : s.threads[i]? = some th)
    (hj : s.threads[j]? = some th') (hc : Handles c th) (hc' : Handles c th') : i = j := by
  obtain ⟨hunended, l, lease, parent, intent, hl, hs, hid⟩ := hc.submits h hi
  obtain ⟨hunended', l', lease', parent', intent', hl', hs', hid'⟩ := hc'.submits h hj
  obtain ⟨stage, -, hholds⟩ := hs.holds
  obtain ⟨stage', -, hholds'⟩ := hs'.holds
  have hjob := Submits.job_unique h hs hs' ⟨i, th, hi, hl⟩ ⟨j, th', hj, hl'⟩ (hid.symm.trans hid')
  exact (ledger h).exclusive hi hj (hholds.leased.prefix_of hl).first
    (hholds'.leased.prefix_of hl').first hunended.open hunended'.open hjob

/-- No order is on record under the client order id. -/
def Unordered (c : Text) (db : PipelineDB) : Prop :=
  ∀ o ∈ db.brokerOrders, o.clientOrderId ≠ c

/-- A call that records no order of the client order id. -/
theorem Unordered.called {c : Text} {w w' : World} {op : Op} {r : Except Exn op.Ans}
    (h : Unordered c w.db) (hcalled : Called w op r w') (hop : op.savesAs c = false) :
    Unordered c w'.db := by
  rcases hcalled.orders with heq | ⟨record, rfl, -, heq⟩
  · intro o ho
    exact h o (heq ▸ ho)
  · intro o ho
    rcases List.mem_append.mp (heq ▸ ho) with hold | hlast
    · exact h o hold
    · obtain rfl := List.mem_singleton.mp hlast
      simpa [Op.savesAs] using hop

/-- A check that finds no order. -/
theorem Called.unordered {c : Text} {w w' : World}
    (h : Called w (.tx (.getBrokerOrderByClientOrderId c)) (.ok none) w') : Unordered c w'.db := by
  generalize ha : (Except.ok none : Except Exn (Option BrokerOrder)) = a at h
  cases h with
  | asked op r hop => cases hop
  | raised op e hop => cases ha
  | brokerOrder id =>
    intro o ho
    have hnone : w.db.brokerOrderByClientOrderId c = none := (Except.ok.inj ha).symm
    simpa using List.find?_eq_none.mp hnone o ho

/-- Nothing is on record under the client order id that a thread handles. -/
theorem handles_unordered (h : Reachable host C s) (c : Text) :
    ∀ th ∈ s.threads, Handles c th → Unordered c s.world.db := by
  have hnext : ∀ th ∈ s.threads, ∀ op, th.next = some op →
      op.placesAs c = true ∨ op.savesAs c = true → Unordered c s.world.db := by
    refine next_reach (M := machine host)
      (P := fun _ _ op w => op.placesAs c = true ∨ op.savesAs c = true → Unordered c w.db)
      ?_ ?_ ?_ (fun s e th op _ _ _ hP hop => by cases e <;> exact hP hop) h
    · intro w t op hop hhandles
      have hissues : Issues host.cfg t [] op := (issues_body t).next hop
      cases op with
      | placeOrder intent id =>
        obtain ⟨⟨l, lease, parent, -, -, hlog⟩, -⟩ := hissues
        exact absurd hlog (by simp)
      | tx t' =>
        cases t' with
        | saveBrokerOrder record =>
          obtain ⟨-, l, lease, parent, intent, order, -, -, hlog, -⟩ := hissues
          exact absurd hlog (by simp)
        | _ => simp [Op.placesAs, Op.savesAs] at hhandles
      | _ => simp [Op.placesAs, Op.savesAs] at hhandles
    · intro s i inp t log op k r s' op' hs _ hth hc hs' hth' hop' hP hhandles
      have hissues : Issues host.cfg t (log ++ [⟨op, r⟩]) op' :=
        (issued hs' hth').next (by simpa [Thread.next] using hop')
      cases op' with
      | placeOrder intent id =>
        -- the call just made is the check, and it found nothing
        obtain ⟨⟨l, lease, parent, -, -, hlog⟩, -⟩ := hissues
        obtain rfl : id = c := by simpa [Op.placesAs, Op.savesAs] using hhandles
        obtain ⟨rfl, hlast⟩ := List.append_inj' hlog rfl
        cases (List.cons.inj hlast).1
        exact (called hc).unordered
      | tx t' =>
        cases t' with
        | saveBrokerOrder record =>
          -- the call just made is the one that placed the order
          obtain ⟨-, l, lease, parent, intent, order, -, hrecord, hlog, -⟩ := hissues
          have hid : record.clientOrderId = c := by simpa [Op.placesAs, Op.savesAs] using hhandles
          obtain ⟨-, hlast⟩ := List.append_inj' hlog rfl
          cases (List.cons.inj hlast).1
          have hplaced : clientOrderId host.cfg parent intent = c := by
            rw [← hid, hrecord]
            rfl
          refine (hP (Or.inl ?_)).called (called hc) rfl
          simp [Op.placesAs, hplaced]
        | _ => simp [Op.placesAs, Op.savesAs] at hhandles
      | _ => simp [Op.placesAs, Op.savesAs] at hhandles
    · intro s i inp t log op k r w' j th op' hs _ hth hc hne hj hop' hP hhandles
      refine (hP hhandles).called (called hc) ?_
      rw [Bool.eq_false_iff]
      intro hsaves
      exact hne (handles_unique hs hj hth ⟨op', hop', hhandles⟩ ⟨op, rfl, Or.inr hsaves⟩)
  rintro th hth ⟨op, hop, hhandles⟩
  exact hnext th hth op hop hhandles

/-! ## Attempts that fail -/

/-- The order was recorded in the log. -/
def savedAs (c : Text) (log : Log) : Bool := log.any fun en => en.op.savesAs c && en.ans.isOk

/-- The attempt asked for the order, did not record it, and is not about to. -/
def FailedPlacing (c : Text) (th : Thread Op Op.Ans Exn Out Task) : Bool :=
  th.log.any (fun en => en.op.placesAs c) && !savedAs c th.log &&
    !(th.next.any (Op.savesAs c))

theorem savedAs_told (h : Reachable host C s) {c : Text} {j : ℕ}
    {th : Thread Op Op.Ans Exn Out Task} (hth : s.threads[j]? = some th)
    (hsaved : savedAs c th.log = true) : ¬ Unordered c s.world.db := by
  obtain ⟨⟨op, r⟩, hen, hop⟩ := List.any_eq_true.mp hsaved
  simp only [Bool.and_eq_true] at hop
  obtain ⟨hsaves, hok⟩ := hop
  cases op with
  | tx t =>
    cases t with
    | saveBrokerOrder record =>
      cases r with
      | error e => cases hok
      | ok id =>
        obtain ⟨o, ho, hid⟩ : ∃ o ∈ s.world.db.brokerOrders, o.clientOrderId = record.clientOrderId :=
          told h hth hen
        exact fun hnone => hnone o ho (hid.trans (by simpa [Op.savesAs] using hsaves))
    | _ => cases hsaves
  | _ => cases hsaves

/-- One attempt records the order. -/
theorem saved_unique (h : Reachable host C s) (c : Text) :
    ∀ (i j : ℕ) (th th' : Thread Op Op.Ans Exn Out Task), s.threads[i]? = some th →
      s.threads[j]? = some th' → savedAs c th.log = true → savedAs c th'.log = true → i = j := by
  refine h.rec_logs (I := fun s => ∀ (i j : ℕ) (th th' : Thread Op Op.Ans Exn Out Task),
    s.threads[i]? = some th → s.threads[j]? = some th' → savedAs c th.log = true →
      savedAs c th'.log = true → i = j) ?_ ?_ ?_
  · intro i j th th' hi
    simp at hi
  · intro s s' ih _ hlogs i j th th' hi hj hsaved hsaved'
    have hnil : savedAs c [] = false := rfl
    rcases hlogs i th hi with hlog | ⟨th₀, hth₀, hlog⟩
    · rw [hlog, hnil] at hsaved
      cases hsaved
    · rcases hlogs j th' hj with hlog' | ⟨th₁, hth₁, hlog'⟩
      · rw [hlog', hnil] at hsaved'
        cases hsaved'
      · exact ih i j th₀ th₁ hth₀ hth₁ (hlog ▸ hsaved) (hlog' ▸ hsaved')
  · intro s i inp t log op k r w' hs _ ih hth hc j j' th th' hj hj' hsaved hsaved'
    -- a thread that has just recorded the order found none on record
    have hnew : savedAs c (log ++ [⟨op, r⟩]) = true → savedAs c log = true ∨
        Unordered c s.world.db := by
      intro hlast
      simp only [savedAs, List.any_append, List.any_cons, List.any_nil, Bool.or_false, Bool.or_eq_true,
        Bool.and_eq_true] at hlast
      refine hlast.imp id fun hop => ?_
      exact handles_unordered hs c _ (List.mem_of_getElem? hth) ⟨op, rfl, Or.inr hop.1⟩
    rcases getElem?_set_cases hj with ⟨rfl, rfl⟩ | ⟨-, hold⟩ <;>
      rcases getElem?_set_cases hj' with ⟨rfl, rfl⟩ | ⟨-, hold'⟩
    · rfl
    · rcases hnew hsaved with hsaved | hnone
      · exact ih j j' _ th' hth hold' hsaved hsaved'
      · exact absurd hnone (savedAs_told hs hold' hsaved')
    · rcases hnew hsaved' with hsaved' | hnone
      · exact ih j j' th _ hold hth hsaved hsaved'
      · exact absurd hnone (savedAs_told hs hold hsaved)
    · exact ih j j' th th' hold hold' hsaved hsaved'

/-- The attempt recorded the order or is about to. -/
def Carries (c : Text) (th : Thread Op Op.Ans Exn Out Task) : Prop :=
  savedAs c th.log = true ∨ Handles c th

theorem carries_of {c : Text} {th : Thread Op Op.Ans Exn Out Task}
    (h : (th.log.any (fun en => en.op.placesAs c) && !FailedPlacing c th) = true) :
    Carries c th := by
  simp only [FailedPlacing, Bool.and_eq_true, Bool.not_eq_true', Bool.and_eq_false_iff,
    Bool.not_eq_false'] at h
  obtain ⟨hplaced, (hnot | hsaved) | hnext⟩ := h
  · cases hnot.symm.trans hplaced
  · exact Or.inl hsaved
  · obtain ⟨op, hop, hsaves⟩ := (Option.any_eq_true _ _).mp hnext
    exact Or.inr ⟨op, hop, Or.inr hsaves⟩

theorem carries_unique (h : Reachable host C s) {c : Text} {i j : ℕ}
    {th th' : Thread Op Op.Ans Exn Out Task} (hi : s.threads[i]? = some th)
    (hj : s.threads[j]? = some th') (hc : Carries c th) (hc' : Carries c th') : i = j := by
  have hfree : ∀ {i : ℕ} {th : Thread Op Op.Ans Exn Out Task}, s.threads[i]? = some th →
      Handles c th → Unordered c s.world.db :=
    fun hi hhandles => handles_unordered h c _ (List.mem_of_getElem? hi) hhandles
  rcases hc with hsaved | hhandles <;> rcases hc' with hsaved' | hhandles'
  · exact saved_unique h c i j th th' hi hj hsaved hsaved'
  · exact absurd (hfree hj hhandles') (savedAs_told h hi hsaved)
  · exact absurd (hfree hi hhandles) (savedAs_told h hj hsaved')
  · exact handles_unique h hi hj hhandles hhandles'

/-- An attempt places at most one order. -/
theorem places_once (h : Reachable host C s) (c : Text) {th : Thread Op Op.Ans Exn Out Task}
    (hmem : th ∈ s.threads) : th.log.countP (fun en => en.op.placesAs c) ≤ 1 := by
  obtain ⟨j, hth⟩ := List.getElem?_of_mem hmem
  refine countP_le_one fun l en l' hl hplaces x hx => ?_
  have hissues := (issued h hth).2 l en l' hl
  obtain ⟨op, r⟩ := en
  cases op with
  | placeOrder intent id =>
    obtain ⟨-, hunplaced, -⟩ := hissues
    have hnot := hunplaced x hx
    obtain ⟨op, r⟩ := x
    cases op <;> first | rfl | cases hnot
  | _ => cases hplaces

/-- The calls of the broker in the logs are what the broker received. -/
theorem placed_count (h : Reachable host C s) (c : Text) :
    (s.world.placed.filter fun o => o.clientOrderId = c).length =
      s.count fun en => en.op.placesAs c := by
  refine count_reach (M := machine host) (g := fun w => (w.placed.filter fun o =>
    o.clientOrderId = c).length) rfl ?_ (fun _ e => by cases e <;> rfl) h
  intro w op inp r w' hc
  cases called hc with
  | placed intent id r =>
    by_cases hid : id = c <;> simp [World.place, Op.placesAs, hid]
  | asked op r hop => cases op <;> first | rfl | cases hop
  | raised op e hop =>
    cases op with
    | placeOrder intent id => exact absurd rfl (hop intent id)
    | _ => rfl
  | _ => rfl

/-- An order on record is not placed again, it is on record once, and it is placed at most once more
often than attempts failed between the placing and the recording. -/
theorem not_resubmitted (h : Reachable host Any s) (c : Text) :
    (∀ th ∈ s.threads, ∀ intent, th.next = some (.placeOrder intent c) →
      ∀ o ∈ s.world.db.brokerOrders, o.clientOrderId ≠ c) ∧
    (s.world.db.brokerOrders.filter fun o => o.clientOrderId = c).length ≤ 1 ∧
    (s.world.placed.filter fun o => o.clientOrderId = c).length ≤
      1 + (s.threads.filter (FailedPlacing c)).length := by
  refine ⟨fun th hth intent hnext => ?_, ?_, ?_⟩
  · exact handles_unordered h c th hth ⟨_, hnext, Or.inl (by simp [Op.placesAs])⟩
  · refine length_filter_le_one fun i j o o' ho ho' hid hid' => ?_
    have hnodup := (wellFormed h).clientOrderId
    refine (List.getElem?_inj (by simpa using (List.getElem?_eq_some_iff.mp ho).1) hnodup).mp ?_
    simp only [decide_eq_true_eq] at hid hid'
    simp only [List.getElem?_map, ho, ho', Option.map_some, hid, hid']
  · let placing := fun th : Thread Op Op.Ans Exn Out Task => th.log.any fun en => en.op.placesAs c
    have hcount : s.count (fun en => en.op.placesAs c) ≤ (s.threads.filter placing).length := by
      refine sum_map_le_length_filter (fun th hth => places_once h c hth) fun th _ hnone => ?_
      refine List.countP_eq_zero.mpr fun en hen hplaces => ?_
      cases (List.any_eq_false.mp hnone en hen) hplaces
    have hsplit : (s.threads.filter placing).length ≤ (s.threads.filter (FailedPlacing c)).length +
        (s.threads.filter fun th => placing th && !FailedPlacing c th).length :=
      length_filter_le_add _ _ _
    have hone : (s.threads.filter fun th => placing th && !FailedPlacing c th).length ≤ 1 := by
      refine length_filter_le_one fun i j th th' hi hj hp hp' => ?_
      exact carries_unique h hi hj (carries_of hp) (carries_of hp')
    rw [placed_count h]
    omega

namespace Sample

/-- The broker gets the order and its answer is lost; the retry half a minute later places it again. -/
def replacedEvents : List PipelineEvent :=
  List.flatten [ingested 0, researched 1, analysed 2 (portfolio 1001 0), calls 2 1,
    evaluated 3 (portfolio 1001 0), [.act 3 (.fault (lit "timeout"))], calls 3 2, tick 30000000,
    evaluated 4 (portfolio 1001 0), ordered 4 "b1" 12]

/-- The state of that run, and the client order id. -/
def replaced : State := run (Sample.host "auto") replacedEvents

theorem replaced_reachable : Reachable (Sample.host "auto") Any replaced := reachable_run _ _

def orderId : Text := buildStableOrderId 0 7 "v1"

end Sample

/-- Two calls of the broker, one failed attempt. -/
theorem not_resubmitted_replaced :
    (Sample.replaced.world.placed.filter fun o => o.clientOrderId = Sample.orderId).length = 2 ∧
    (∀ th ∈ Sample.replaced.threads, ∀ intent, th.next = some (.placeOrder intent Sample.orderId) →
      ∀ o ∈ Sample.replaced.world.db.brokerOrders, o.clientOrderId ≠ Sample.orderId) ∧
    (Sample.replaced.world.db.brokerOrders.filter fun o =>
      o.clientOrderId = Sample.orderId).length ≤ 1 ∧
    (Sample.replaced.world.placed.filter fun o => o.clientOrderId = Sample.orderId).length ≤
      1 + (Sample.replaced.threads.filter (FailedPlacing Sample.orderId)).length :=
  ⟨by decide +kernel, not_resubmitted
    (show Reachable (Sample.host "auto") Any _ from Sample.replaced_reachable) Sample.orderId⟩

end Sentinel.Pipeline
