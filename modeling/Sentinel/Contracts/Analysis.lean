import Mathlib.Data.List.Sort
import Sentinel.Contracts.Common

/-!
# The analysis report

`AnalysisReport` is the payload of an analysis message, the input of the executor.
-/

namespace Sentinel.Contracts

open Logic Fields

inductive AnalysisStatus : Type
  | pass | reject | needsReview
  deriving DecidableEq, Repr

def AnalysisStatus.value : AnalysisStatus → String
  | pass => "pass"
  | reject => "reject"
  | needsReview => "needs_review"

inductive TradeSide : Type
  | buy
  deriving DecidableEq, Repr

def TradeSide.value : TradeSide → String
  | buy => "buy"

inductive ThesisHorizon : Type
  | intraday | swing
  deriving DecidableEq, Repr

def ThesisHorizon.value : ThesisHorizon → String
  | intraday => "intraday"
  | swing => "swing"

namespace Contract

def analysisStatus : Contract AnalysisStatus :=
  .strEnum [.pass, .reject, .needsReview] AnalysisStatus.value fun a => by cases a <;> decide

def tradeSide : Contract TradeSide :=
  .strEnum [.buy] TradeSide.value fun a => by cases a; decide

def thesisHorizon : Contract ThesisHorizon :=
  .strEnum [.intraday, .swing] ThesisHorizon.value fun a => by cases a <;> decide

end Contract

structure FilterResult : Type where
  name : Text
  passed : Bool
  value : Text
  reason : Text
  deriving DecidableEq

def FilterResult.contract : Contract FilterResult :=
  (cons (required .name .text) <| cons (required .passed .bool) <| cons (required .value .text) <|
    cons (required .reason .text) nil).codec.iso
  (fun (a, b, c, d, ()) => ⟨a, b, c, d⟩)
  (fun r => (r.name, r.passed, r.value, r.reason, ()))
  (fun _ => rfl)

/-- The default of `candidate_id`, a fresh id, is filled in by the producer. -/
structure TradeCandidate : Type where
  candidateId : UUID
  symbol : Text
  side : TradeSide
  thesisHorizon : ThesisHorizon
  brokerEligible : Bool
  marketSnapshot : Dict
  features : Dict
  filters : List FilterResult
  score : ℚ
  maxNotional : Decimal
  stopLossPct : Decimal
  expiryAt : Time
  deriving DecidableEq

def TradeCandidate.contract : Contract TradeCandidate :=
  (cons (required .candidateId .uuid) <| cons (required .symbol .text) <|
    cons (required .side .tradeSide) <| cons (required .thesisHorizon .thesisHorizon) <|
    cons (required .brokerEligible .bool) <| cons (required .marketSnapshot .dict) <|
    cons (required .features .dict) <| cons (defaulting .filters FilterResult.contract.list []) <|
    cons (required .score .float) <| cons (required .maxNotional .decimal) <|
    cons (required .stopLossPct .decimal) <| cons (required .expiryAt .datetime) nil).codec.iso
  (fun (a, b, c, d, e, f, g, h, i, j, k, l, ()) => ⟨a, b, c, d, e, f, g, h, i, j, k, l⟩)
  (fun r => (r.candidateId, r.symbol, r.side, r.thesisHorizon, r.brokerEligible, r.marketSnapshot,
    r.features, r.filters, r.score, r.maxNotional, r.stopLossPct, r.expiryAt, ()))
  (fun _ => rfl)

structure AnalysisReport : Type where
  status : AnalysisStatus
  candidates : List TradeCandidate
  rejectedCandidates : List TradeCandidate
  portfolioSnapshotId : UUID
  stageSummary : Text
  deriving DecidableEq

def AnalysisReport.contract : Contract AnalysisReport :=
  (cons (required .status .analysisStatus) <|
    cons (defaulting .candidates TradeCandidate.contract.list []) <|
    cons (defaulting .rejectedCandidates TradeCandidate.contract.list []) <|
    cons (required .portfolioSnapshotId .uuid) <| cons (required .stageSummary .text) nil).codec.iso
  (fun (a, b, c, d, e, ()) => ⟨a, b, c, d, e⟩)
  (fun r => (r.status, r.candidates, r.rejectedCandidates, r.portfolioSnapshotId, r.stageSummary, ()))
  (fun _ => rfl)

/-- `sorted(items, key=lambda item: item.score, reverse=True)`, which is stable. -/
def sortedByScore (items : List TradeCandidate) : List TradeCandidate :=
  items.insertionSort fun a b => b.score ≤ a.score

theorem perm_sortedByScore (items : List TradeCandidate) : (sortedByScore items).Perm items :=
  List.perm_insertionSort _ items

end Sentinel.Contracts
