import Sentinel.Pipeline.Lineage

/-!
# Orders and the budget

An evaluation compares one candidate with one portfolio snapshot, and the snapshot knows nothing of
the orders submitted after it was captured.  What the limits say of an order together with all
those orders is therefore guaranteed when there are none.
-/

namespace Sentinel.Pipeline

open Logic Contracts PipelineDB

variable {host : Host} {C : State → PipelineEvent → Prop} {s : State}

/-! ## The snapshot of a submission -/

/-- The thread has handed the message of the other thread's job over for its approval. -/
def handedOver (db : PipelineDB) (th th' : Thread Op Op.Ans Exn Out Task) : Bool :=
  (leaseIn th.log).any fun lease => (db.findMessage lease.messageId).any fun m =>
    (published .approval th'.log).any fun envelope => envelope.idempotencyKey = m.idempotencyKey

/-- The portfolio snapshots against which the order of the thread was evaluated: that of the
executor itself, or that of the executor whose decision was approved. -/
def evaluatedAgainst (s : State) (th : Thread Op Op.Ans Exn Out Task) : List PortfolioSnapshot :=
  (snapshotIn th.log).toList ++
    s.threads.filterMap fun th' =>
      if handedOver s.world.db th th' then snapshotIn th'.log else none

/-- The notionals of the orders on record that were submitted since the snapshot was captured. -/
def submittedSince (db : PipelineDB) (S : PortfolioSnapshot) : List Decimal :=
  (db.brokerOrders.filter fun o => S.capturedAt ≤ o.submittedAt).map fun o => o.notional.getD 0

/-- With the orders submitted since the snapshot, the order stays within gross exposure and cash. -/
structure WithinBudget (cfg : PipelineConfig) (db : PipelineDB) (S : PortfolioSnapshot)
    (intent : TradeIntent) : Prop where
  gross : S.grossExposure + (submittedSince db S).sum + intent.maxNotional ≤
    S.equity * cfg.executor.maxGrossInvestedPct
  cash : (submittedSince db S).sum + intent.maxNotional ≤ S.cash

instance (cfg : PipelineConfig) (db : PipelineDB) (S : PortfolioSnapshot) (intent : TradeIntent) :
    Decidable (WithinBudget cfg db S intent) :=
  decidable_of_iff (S.grossExposure + (submittedSince db S).sum + intent.maxNotional ≤
      S.equity * cfg.executor.maxGrossInvestedPct ∧
      (submittedSince db S).sum + intent.maxNotional ≤ S.cash)
    ⟨fun h => ⟨h.1, h.2⟩, fun h => ⟨h.gross, h.cash⟩⟩

/-- Every order is placed within the budget of every snapshot it was evaluated against. -/
def PlacesWithinBudget (host : Host) (s : State) : PipelineEvent → Prop
  | .act i _ => ∀ th ∈ s.threads[i]?, ∀ intent ∈ placing th, ∀ S ∈ evaluatedAgainst s th,
    WithinBudget host.cfg s.world.db S intent
  | _ => True

instance (host : Host) (s : State) : ∀ e : PipelineEvent, Decidable (PlacesWithinBudget host s e)
  | .act _ _ => inferInstanceAs (Decidable (∀ _ ∈ _, ∀ _ ∈ _, ∀ _ ∈ _, _))
  | .start _ | .crash _ | .env _ => inferInstanceAs (Decidable True)

/-- No order is placed after another one has been submitted since the snapshot of the first. -/
def NoneSince (s : State) : PipelineEvent → Prop
  | .act i _ => ∀ th ∈ s.threads[i]?, (placing th).isSome = true → ∀ S ∈ evaluatedAgainst s th,
    submittedSince s.world.db S = []
  | _ => True

instance (s : State) : ∀ e : PipelineEvent, Decidable (NoneSince s e)
  | .act _ _ => inferInstanceAs (Decidable (∀ _ ∈ _, _ → ∀ _ ∈ _, _))
  | .start _ | .crash _ | .env _ => inferInstanceAs (Decidable True)

/-! ## The evaluation of one order -/

/-- What an evaluation has established about the candidate and the snapshot. -/
structure Fits (cfg : PipelineConfig) (S : PortfolioSnapshot) (intent : TradeIntent) : Prop where
  gross : S.grossExposure + intent.maxNotional ≤ S.equity * cfg.executor.maxGrossInvestedPct
  cash : intent.maxNotional ≤ S.cash

/-- The snapshot read in the log is the one the intent was evaluated against. -/
theorem Evaluated.fits {cfg : PipelineConfig} {l log : Log} {lease : JobLease}
    {parent : PipelineEnvelope} {candidate : TradeCandidate} {intent : TradeIntent}
    {S : PortfolioSnapshot} (he : Evaluated cfg l lease parent candidate intent)
    (hpre : l <+: log) (hS : snapshotIn log = some S) : Fits cfg S intent := by
  obtain ⟨l₀, portfolio, breaker, t, hportfolio, hlog, hpassed⟩ := he.passed
  have hpre₀ : l₀ <+: log := List.IsPrefix.trans ⟨_, by rw [hlog, List.append_assoc]⟩ hpre
  obtain rfl := Option.some.inj ((findSome?_mono hportfolio hpre₀).symm.trans hS)
  obtain ⟨limitPrice, rfl⟩ := he.intent
  exact ⟨hpassed.gross, hpassed.cash⟩

/-- What is handed over for approval was evaluated. -/
theorem Completes.evaluated {cfg : PipelineConfig} {log : Log} {lease : JobLease}
    {envelope : PipelineEnvelope} (h : Completes cfg log lease (some envelope) (some .approval)) :
    cfg.executor.approvalMode = "manual_all" ∧ ∃ l parent candidate intent, l <+: log ∧
      Evaluated cfg l lease parent candidate intent ∧
      envelope.idempotencyKey = executionKey cfg parent := by
  generalize hnext : (some StageName.approval) = next at h
  generalize houtput : some envelope = output at h
  cases h with
  | awaiting l parent envelope candidate intent checks approvalId hmode hl h he =>
    cases houtput
    exact ⟨hmode, l, parent, candidate, intent, hl, h, he.key⟩
  | researched parent envelope ingested report next h hload hreport he hn =>
    split_ifs at hn <;> cases hnext.trans hn
  | analysed parent envelope report snapshot output next h hload hsnapshot he hn =>
    split_ifs at hn <;> cases hnext.trans hn
  | observed parent envelope rows rows' t next h hdue hupdated hrows' he hn =>
    split_ifs at hn <;> cases hnext.trans hn
  | _ => cases hnext

theorem fits_congr {cfg : PipelineConfig} {S : PortfolioSnapshot} {intent intent' : TradeIntent}
    (h : Fits cfg S intent) (heq : intent.maxNotional = intent'.maxNotional) :
    Fits cfg S intent' := by
  obtain ⟨hgross, hcash⟩ := h
  rw [heq] at hgross hcash
  exact ⟨hgross, hcash⟩

/-- Two intents evaluated for one report have the same notional. -/
theorem Evaluated.sameNotional {l l' : Log} {lease lease' : JobLease}
    {parent parent' : PipelineEnvelope} {candidate candidate' : TradeCandidate}
    {intent intent' : TradeIntent} (he : Evaluated host.cfg l lease parent candidate intent)
    (he' : Evaluated host.cfg l' lease' parent' candidate' intent') (hl : Logged s l)
    (hl' : Logged s l') (h : Reachable host C s) (hid : parent.messageId = parent'.messageId) :
    intent.maxNotional = intent'.maxNotional := by
  have hheld := he.holds.held hl h
  have hheld' := he'.holds.held hl' h
  rw [hheld.parentId, hheld'.parentId] at hid
  have hfound := hheld.message
  rw [hid, hheld'.message] at hfound
  have hpayload : parent'.payload = parent.payload :=
    congrArg StageMessage.payload (Option.some.inj hfound)
  obtain rfl : candidate' = candidate := by
    have hbest := he'.best
    rw [hpayload, he.best] at hbest
    exact (Option.some.inj hbest).symm
  obtain ⟨limitPrice, rfl⟩ := he.intent
  obtain ⟨limitPrice', rfl⟩ := he'.intent
  rfl

/-- An order about to be placed fits every snapshot it was evaluated against. -/
theorem placing_fits (h : Reachable host C s) {th : Thread Op Op.Ans Exn Out Task}
    (hmem : th ∈ s.threads) {intent : TradeIntent} (hplacing : placing th = some intent)
    {S : PortfolioSnapshot} (hS : S ∈ evaluatedAgainst s th) : Fits host.cfg S intent := by
  obtain ⟨j, hth⟩ := List.getElem?_of_mem hmem
  obtain ⟨id, hnext⟩ := next_of_placing hplacing
  obtain ⟨⟨l, lease, parent, hsubmits, -, hlog⟩, -⟩ : Issues host.cfg th.task th.log (.placeOrder intent id) :=
    (issued h hth).next hnext
  have hpre : l <+: th.log := ⟨_, hlog.symm⟩
  have hl : Logged s l := ⟨j, th, hth, hpre⟩
  rcases List.mem_append.mp hS with hS | hS
  · have hS : snapshotIn th.log = some S := Option.mem_toList.mp hS
    cases hsubmits with
    | direct candidate hmode he => exact he.fits hpre hS
    | approved l' request payload hlog' hrequest hstatus hh hget hload =>
      -- an approval worker reads no snapshot
      obtain ⟨id', hanswer⟩ := answered_of_snapshotIn hS
      obtain ⟨l₁, l₂, hl₁, lease', parent', hholds⟩ := (issued h hth).mem hanswer
      have hpre' : l' <+: th.log := List.IsPrefix.trans ⟨_, hlog'.symm⟩ hpre
      cases (leased_unique h hth hh.leased hholds.leased hpre' ⟨_, hl₁.symm⟩).1
  · obtain ⟨th', hmem', hS⟩ := List.mem_filterMap.mp hS
    split_ifs at hS with hover
    obtain ⟨j', hth'⟩ := List.getElem?_of_mem hmem'
    simp only [handedOver, Option.any_eq_true, List.any_eq_true, decide_eq_true_eq] at hover
    obtain ⟨lease₁, hlease₁, m, hm, envelope, henvelope, hkey⟩ := hover
    obtain ⟨lease', availableAt, status, t, out, hanswer⟩ := mem_published henvelope
    obtain ⟨l₁, l₂, hl₁, hcompletes, -⟩ := (issued h hth').mem hanswer
    obtain ⟨hmode, l', parent', candidate', intent', hpre', he', hkey'⟩ := hcompletes.evaluated
    have hpre₁ : l' <+: th'.log := hpre'.trans ⟨_, hl₁.symm⟩
    have hfits := he'.fits hpre₁ hS
    obtain ⟨stage, -, hholds⟩ := hsubmits.holds
    obtain rfl := Option.some.inj ((hholds.leased.prefix_of hpre).first.symm.trans hlease₁)
    obtain rfl := Option.some.inj ((hholds.held hl h).message.symm.trans hm)
    obtain ⟨l₀, lease₀, parent₀, candidate₀, hl₀, he₀, -, hcase⟩ := hsubmits.evaluated hl h
    rcases hcase with ⟨rfl, rfl⟩ | ⟨-, -, hkey₀⟩
    · -- an executor that submits by itself hands nothing over
      cases hsubmits with
      | direct candidate hmode' he => exact absurd hmode hmode'
      | approved l' request payload hlog' hrequest hstatus hh hget hload =>
        have hstage := (he₀.holds.held hl₀ h).stage
        rw [(hh.held (hl.prefix_of ⟨_, hlog'.symm⟩) h).stage] at hstage
        cases hstage
    · have hid : parent'.messageId = parent₀.messageId := by
        have heq := (hkey'.symm.trans hkey).trans hkey₀
        simpa [executionKey, buildExecutionKey] using heq
      exact fits_congr hfits (he'.sameNotional he₀ ⟨j', th', hth', hpre₁⟩ hl₀ h hid)

/-- If no order is placed after another one has been submitted since its snapshot, then every order
is placed within its budget. -/
theorem places_withinBudget (h : Reachable host NoneSince s) :
    Reachable host (PlacesWithinBudget host) s := by
  refine h.steps fun s e hs hC => ?_
  cases e with
  | act i inp =>
    intro th hth intent hplacing S hS
    have hfits := placing_fits hs (List.mem_of_getElem? hth) hplacing hS
    have hnone : submittedSince s.world.db S = [] :=
      hC th hth (Option.isSome_iff_exists.mpr ⟨intent, hplacing⟩) S hS
    refine ⟨?_, ?_⟩
    · simpa [hnone] using hfits.gross
    · simpa [hnone] using hfits.cash
  | start t => trivial
  | crash i => trivial
  | env e => trivial

namespace Sample

/-- A portfolio with cash for one order. -/
def shortPortfolio (id : UUID) (capturedAt : Time) : PortfolioSnapshot :=
  { portfolio id capturedAt with cash := 700 }

/-- Two alerts are analysed before either is executed. -/
def analysedTwice : List PipelineEvent :=
  List.flatten [ingested 0, researched 1, analysed 2 (shortPortfolio 1001 0), calls 2 1,
    [.start secondDelivery], calls 3 7, researched 4, analysed 5 (shortPortfolio 1002 0), calls 5 1]

/-- Both orders are evaluated against portfolios captured before the first one was submitted. -/
def overspentEvents : List PipelineEvent :=
  List.flatten [analysedTwice, evaluated 6 (shortPortfolio 1001 0), ordered 6 "b1" 12,
    evaluated 7 (shortPortfolio 1002 0)]

/-- The second portfolio is captured after the first order, and knows of it. -/
def recapturedEvents : List PipelineEvent :=
  List.flatten [analysedTwice, evaluated 6 (shortPortfolio 1001 0), ordered 6 "b1" 12,
    tick 60000000, evaluated 7 { portfolio 1002 60000000 with
      cash := 9500
      grossExposure := 500 }, ordered 7 "b2" 12]

end Sample

theorem places_withinBudget_recaptured :
    Reachable (Sample.host "auto") (PlacesWithinBudget (Sample.host "auto"))
      (run (Sample.host "auto") Sample.recapturedEvents) :=
  places_withinBudget (reach_of_allowed (by decide +kernel))

/-- The second of two orders of 500 is about to be placed with 700 in cash. -/
theorem places_overBudget : ∃ s, Reachable (Sample.host "auto") Any s ∧
    ¬ PlacesWithinBudget (Sample.host "auto") s
      (.act 7 (.order ⟨lit "b2", lit "submitted", none⟩)) :=
  ⟨_, reachable_run _ Sample.overspentEvents, by decide +kernel⟩

end Sentinel.Pipeline
