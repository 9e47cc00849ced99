import Sentinel.Logic.Calendar
import Sentinel.Pipeline.Db

/-!
# Times as texts

The tables hold every time as the text `isoformat()` prints.  It has two lengths, and its order
byte by byte is the order of the times: the queries that compare texts compare times.

* `isoText`: the text of a time; `isoText_le_iff`: the order of the texts.
* `leasableByText`, `listObservationsByText`: the queries over the texts.
-/

namespace Sentinel.Pipeline

open Logic Contracts

/-! ## The queries -/

/-- The text of a time; a time outside the calendar has none. -/
def isoText (t : Time) : List Char := ((DateTime.ofTime? t).map DateTime.isoformat).getD []

/-- The time is that of a datetime. -/
def Dated (t : Time) : Prop := ∃ d : DateTime, d.toTime = t

theorem isoText_le_iff {t u : Time} (ht : Dated t) (hu : Dated u) :
    lexLe (isoText t) (isoText u) = true ↔ t ≤ u := by
  obtain ⟨a, rfl⟩ := ht
  obtain ⟨b, rfl⟩ := hu
  rw [isoText, isoText, DateTime.ofTime?_toTime, DateTime.ofTime?_toTime]
  exact DateTime.isoformat_le_iff a b

/-- `available_at <= ?` between texts. -/
def StageJob.readyByText (stage : StageName) (now : Time) (j : StageJob) : Bool :=
  j.stage = stage && (j.state = .queued || j.state = .retryWait) &&
    lexLe (isoText j.availableAt) (isoText now)

/-- `ORDER BY priority ASC, created_at ASC` between texts. -/
def StageJob.beforeByText (j k : StageJob) : Bool :=
  j.priority < k.priority ||
    (j.priority = k.priority && lexLe (isoText j.createdAt) (isoText k.createdAt))

namespace PipelineDB

def leasableByText (db : PipelineDB) (stage : StageName) (now : Time) : List StageJob :=
  let ready := db.stageJobs.filter (StageJob.readyByText stage now)
  ready.filter fun j => ready.all j.beforeByText

/-- `ORDER BY scheduled_for ASC` between texts. -/
def listObservationsByText (db : PipelineDB) (traceId : UUID) : List ObservationRow :=
  (db.outcomeObservations.filter fun o => o.observation.traceId = traceId).insertionSort fun a b =>
    lexLe (isoText a.observation.scheduledFor) (isoText b.observation.scheduledFor) = true

/-- The times the queries compare are datetimes. -/
structure AllDated (db : PipelineDB) : Prop where
  jobs : ∀ j ∈ db.stageJobs, Dated j.availableAt ∧ Dated j.createdAt
  observations : ∀ o ∈ db.outcomeObservations, Dated o.observation.scheduledFor

variable {db : PipelineDB}

theorem AllDated.leasable_eq (h : db.AllDated) (stage : StageName) {now : Time} (hnow : Dated now) :
    db.leasableByText stage now = db.leasable stage now := by
  have hready : db.stageJobs.filter (StageJob.readyByText stage now) =
      db.stageJobs.filter (StageJob.ready stage now) := by
    refine List.filter_congr fun j hj => ?_
    have htext := isoText_le_iff (h.jobs j hj).1 hnow
    rw [StageJob.readyByText, StageJob.ready, Bool.eq_iff_iff]
    simp only [Bool.and_eq_true, decide_eq_true_eq, htext]
  unfold leasableByText leasable
  rw [hready]
  refine List.filter_congr fun j hj => ?_
  rw [Bool.eq_iff_iff, List.all_eq_true, List.all_eq_true]
  refine forall₂_congr fun k hk => ?_
  have htext := isoText_le_iff (h.jobs j (List.mem_of_mem_filter hj)).2
    (h.jobs k (List.mem_of_mem_filter hk)).2
  simp only [StageJob.beforeByText, StageJob.before, Bool.or_eq_true, Bool.and_eq_true,
    decide_eq_true_eq, htext]

theorem AllDated.listObservations_eq (h : db.AllDated) (traceId : UUID) :
    db.listObservationsByText traceId = db.listOutcomeObservations traceId := by
  unfold listObservationsByText listOutcomeObservations
  have hsort := List.map_insertionSort
    (fun a b : ObservationRow => lexLe (isoText a.observation.scheduledFor)
      (isoText b.observation.scheduledFor) = true)
    (fun a b : ObservationRow => a.observation.scheduledFor ≤ b.observation.scheduledFor) id
    (db.outcomeObservations.filter fun o => o.observation.traceId = traceId)
    fun a ha b hb => isoText_le_iff (h.observations a (List.mem_of_mem_filter ha))
      (h.observations b (List.mem_of_mem_filter hb))
  rwa [List.map_id, List.map_id] at hsort

end PipelineDB

/-- The texts of datetimes are ordered like time, and so the queries over the texts give what the
queries over the times give. -/
theorem text_order :
    (∀ a b : DateTime, lexLe a.isoformat b.isoformat = true ↔ a.toTime ≤ b.toTime) ∧
    ∀ db : PipelineDB, db.AllDated →
      (∀ stage now, Dated now → db.leasableByText stage now = db.leasable stage now) ∧
      ∀ traceId, db.listObservationsByText traceId = db.listOutcomeObservations traceId :=
  ⟨DateTime.isoformat_le_iff, fun _ h =>
    ⟨fun stage _ hnow => h.leasable_eq stage hnow, h.listObservations_eq⟩⟩

/-- Half a second after noon of the leap day. -/
def leapDayHalf : DateTime :=
  { DateTime.leapDay with microsecond := 500000, microsecond_lt := by omega }

/-- Two jobs queued on the leap day, the second on the whole second before the first. -/
def leapDayDb : PipelineDB where
  stageJobs := [newJob 1 leapDayHalf.toTime 2 .research 3 100 none,
    newJob 4 DateTime.leapDay.toTime 5 .research 6 100 none]

theorem text_order_leapDay :
    leapDayDb.leasableByText .research leapDayHalf.toTime =
      leapDayDb.leasable .research leapDayHalf.toTime ∧
    (leapDayDb.leasable .research leapDayHalf.toTime).map StageJob.jobId = [4] ∧
    (isoText leapDayHalf.toTime).length ≠ (isoText DateTime.leapDay.toTime).length := by
  have hnoon : Dated DateTime.leapDay.toTime := ⟨_, rfl⟩
  have hhalf : Dated leapDayHalf.toTime := ⟨_, rfl⟩
  have hdb : leapDayDb.AllDated := by
    refine ⟨fun j hj => ?_, fun o ho => absurd ho List.not_mem_nil⟩
    rcases List.mem_cons.1 hj with rfl | hj
    · exact ⟨hhalf, hhalf⟩
    · obtain rfl := List.mem_singleton.1 hj
      exact ⟨hnoon, hnoon⟩
  refine ⟨(text_order.2 leapDayDb hdb).1 .research _ hhalf, by decide +kernel, ?_⟩
  rw [isoText, isoText, DateTime.ofTime?_toTime, DateTime.ofTime?_toTime]
  decide +kernel

end Sentinel.Pipeline
