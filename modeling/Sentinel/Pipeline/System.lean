import Sentinel.Analyst.Worker
import Sentinel.Executor.Worker
import Sentinel.Outcome.Worker
import Sentinel.Researcher.Server

/-!
# The pipeline as a system

Deliveries of alerts, steps of the five workers and decisions on approvals are threads over one
world.  Any number of them run at once, in any interleaving of their calls; a thread may stop for
good between two calls.
-/

namespace Sentinel.Pipeline

open Logic Contracts

/-- One step of a worker, one delivery or one decision. -/
inductive Task : Type
  | ingress (body : Body) (headers : List (String × String)) (replaySource : Option Text)
  | researcher (workerId : Text)
  | analyst (workerId : Text)
  | executor (workerId : Text)
  | approval (workerId : Text)
  | outcome (workerId : Text)
  | approve (token approverId : Text) (reason : Option Text)
  | reject (token approverId : Text) (reason : Option Text)

inductive Out : Type
  | response (r : IngressResponse)
  | processed (b : Bool)
  | decided (approvalId : UUID) (decidedAt : Time)

/-- The hash function and the settings shared by all processes. -/
structure Host : Type where
  hmacSha256 : String → List UInt8 → String
  schemaVersion : String
  cfg : PipelineConfig

def Task.body (host : Host) : Task → Program Out
  | ingress body headers replaySource => do
    let r ← ResearcherIngressService.handleAlert host.hmacSha256 host.cfg host.schemaVersion body
      headers replaySource
    pure (.response r)
  | researcher workerId => do
    let b ← ResearcherWorker.processNext host.cfg workerId
    pure (.processed b)
  | analyst workerId => do
    let b ← AnalystWorker.processNext host.cfg workerId
    pure (.processed b)
  | executor workerId => do
    let b ← ExecutorWorker.processNext host.cfg workerId
    pure (.processed b)
  | approval workerId => do
    let b ← ApprovalWorker.processNext host.cfg workerId
    pure (.processed b)
  | outcome workerId => do
    let b ← OutcomeWorker.processNext host.cfg workerId
    pure (.processed b)
  | approve token approverId reason => do
    let (id, t) ← ApprovalService.approve token approverId reason
    pure (.decided id t)
  | reject token approverId reason => do
    let (id, t) ← ApprovalService.reject token approverId reason
    pure (.decided id t)

def machine (host : Host) : Machine Op Op.Ans Exn Out World Input Task Env where
  body := Task.body host
  call := World.call
  env := World.env

abbrev State : Type := Sys Op Op.Ans Exn Out Task World

abbrev PipelineEvent : Type := Event Input Task Env

abbrev Log : Type := List (Entry Op Op.Ans Exn)

/-- The states of the runs from an empty database all of whose steps satisfy `C`. -/
abbrev Reachable (host : Host) (C : State → PipelineEvent → Prop) : State → Prop :=
  Reach (machine host).step ⟨{}, []⟩ C

/-- The state after the events. -/
def run (host : Host) (es : List PipelineEvent) : State := es.foldl (machine host).step ⟨{}, []⟩

theorem reachable_run (host : Host) (es : List PipelineEvent) : Reachable host Any (run host es) :=
  reach_foldl es

/-- The call that the `i`-th thread makes next. -/
def nextCall (s : State) (i : ℕ) : Option Op := s.threads[i]?.bind Thread.next

theorem nextCall_eq {s : State} {i : ℕ} {t : Task} {log : Log} {op : Op}
    {k : Except Exn op.Ans → Program Out}
    (h : s.threads[i]? = some ⟨t, log, .call op k, true⟩) : nextCall s i = some op := by
  rw [nextCall, h]
  rfl

/-- The call is not made to raise. -/
def Input.commits : Input → Bool
  | .fault _ => false
  | _ => true

theorem commits_of_ok {w w' : World} {op : Op} {inp : Input} {a : op.Ans}
    (h : w.call op inp = some (.ok a, w')) : inp.commits = true := by
  cases inp with
  | fault what => cases op <;> cases h
  | _ => rfl

/-- The transaction commits. -/
def Commits (w : World) (op : Op) (inp : Input) : Prop := ∃ a w', w.call op inp = some (.ok a, w')

instance (w : World) (op : Op) (inp : Input) : Decidable (Commits w op inp) :=
  match h : w.call op inp with
  | some (.ok a, w') => isTrue ⟨a, w', h⟩
  | some (.error _, _) => isFalse fun ⟨_, _, h'⟩ => nomatch h.symm.trans h'
  | none => isFalse fun ⟨_, _, h'⟩ => nomatch h.symm.trans h'

/-- The envelope that the call stores to be queued for the stage. -/
def Op.publishes (op : Op) (stage : StageName) : Option PipelineEnvelope :=
  match op with
  | .tx (.completeJobSuccess _ (some envelope) (some next) _ _ _) =>
    if next = stage then some envelope else none
  | _ => none

/-! ## A sample

One alert and what the outside world answers on its way through the stages; the runs that the
later modules look at are put together from these segments. -/

namespace Sample

def host (approvalMode : String) : Host :=
  ⟨fun _ _ => "", "v1", { queue := ⟨60, 3, 30⟩, executor := { approvalMode := approvalMode } }⟩

def alert : ShiftAlertMirror :=
  { alertId := lit "a1", alertLevel := lit "high", alertLevelLabel := lit "High"
    timestampIso := lit "t", timestampMs := 0, market := []
    shift := ⟨lit "up", 1, 1, 1, 1, 1, 60, 5⟩
    signalQuality := ⟨lit "midpoint", none, none, none, none, lit "high", lit "high"⟩
    beforeState := none, metadata := [] }

def delivery : Task := .ingress ⟨[], some (ShiftAlertMirror.contract.dump alert)⟩ [] none

/-- A second alert. -/
def secondDelivery : Task :=
  .ingress ⟨[], some (ShiftAlertMirror.contract.dump { alert with alertId := lit "a2" })⟩ [] none

def report : ResearchReport :=
  { status := .pass, catalystType := .other, catalystSummary := lit "c", catalystStartedAt := none
    freshnessSec := none, evidence := []
    assetHypotheses := [⟨lit "SPY", .etf, .bullish, .intraday, .direct, .high, true, lit "r"⟩]
    unsupportedClaims := [], stageSummary := lit "s" }

def portfolio (id : UUID) (capturedAt : Time) : PortfolioSnapshot :=
  ⟨id, capturedAt, lit "acc", 10000, 10000, 10000, 0, 0, []⟩

def market : MarketDataSnapshot :=
  { symbol := lit "SPY", lastPrice := 100, avgDailyDollarVolume := 5000000
    session := lit "regular", tradable := true }

/-- The `i`-th thread makes `n` calls that succeed. -/
def calls (i n : ℕ) : List PipelineEvent := List.replicate n (.act i .ok)

def tick (elapsed : ℕ) : List PipelineEvent := [.env (.tick elapsed)]

def ingested (i : ℕ) : List PipelineEvent := List.flatten [[.start delivery], calls i 7]

def researched (i : ℕ) : List PipelineEvent :=
  List.flatten [[.start (.researcher (lit "r"))], calls i 4, [.act i (.report report)], calls i 4]

/-- Up to and including `complete_job_success`. -/
def analysed (i : ℕ) (s : PortfolioSnapshot) : List PipelineEvent :=
  List.flatten [[.start (.analyst (lit "a"))], calls i 4, [.act i (.snapshot s)], calls i 1,
    [.act i (.market market)], calls i 6]

/-- Up to and excluding `place_order`. -/
def evaluated (i : ℕ) (s : PortfolioSnapshot) : List PipelineEvent :=
  List.flatten [[.start (.executor (lit "e"))], calls i 4, [.act i (.snapshot s)], calls i 3]

/-- The step of the executor that asks for an approval, as the third after an alert has come in. -/
def requested : List PipelineEvent :=
  List.flatten [ingested 0, researched 1, analysed 2 (portfolio 1001 0), calls 2 1,
    evaluated 3 (portfolio 1001 0), calls 3 8]

/-- The token of that request. -/
def token : Text := [.token 12]

/-- A decision on the request of the sample. -/
def decided (i : ℕ) (status : ApprovalStatus) : List PipelineEvent :=
  .start (if status = .approved then .approve token (lit "ann") none
    else .reject token (lit "bob") none) :: calls i 3

/-- The approval worker polls, up to the answer about the request. -/
def polled (i : ℕ) : List PipelineEvent :=
  List.flatten [[.start (.approval (lit "p"))], calls i 5]

/-- The order is placed, and `n` further calls are made. -/
def ordered (i : ℕ) (brokerOrderId : String) (n : ℕ) : List PipelineEvent :=
  .act i (.order ⟨lit brokerOrderId, lit "submitted", none⟩) :: calls i n

/-- An alert becomes an order; the last of its three observations is not saved yet. -/
def tradedEvents : List PipelineEvent :=
  List.flatten [ingested 0, researched 1, analysed 2 (portfolio 1001 0), calls 2 1,
    evaluated 3 (portfolio 1001 0), ordered 3 "b1" 12]

end Sample

end Sentinel.Pipeline
