import Sentinel.Logic.Run
import Sentinel.Logic.SortedJson
import Sentinel.Pipeline.Growth

/-!
# The message store

The columns of `stage_messages` as `_upsert_message_conn` writes them and `get_message` reads them,
and the store under any sequence of `upsert_message` and `complete_job_success`: the first envelope
of an idempotency key stays, every later upsert of the key is answered with its id, and what is read
back under that id equals it in all nine fields.  The text of a JSON value is a parameter, since
`json` is not part of the repository.
-/

namespace Sentinel.Contracts

/-- The values of the enumeration. -/
def StageName.value : StageName → String
  | ingest => "ingest"
  | research => "research"
  | analysis => "analysis"
  | execution => "execution"
  | approval => "approval"
  | outcome => "outcome"

/-- `StageName(text)`. -/
def StageName.parse (s : String) : Option StageName :=
  [ingest, research, analysis, execution, approval, outcome].find? fun stage => stage.value = s

@[simp] theorem StageName.parse_value (stage : StageName) : parse stage.value = some stage := by
  cases stage <;> rfl

/-- `UUID(text)`. -/
def UUID.parse : Text → Option UUID
  | [.uuid u] => some u
  | _ => none

/-- `datetime.fromisoformat(text)`. -/
def Time.fromIsoformat : Text → Option Time
  | [.time t] => some t
  | _ => none

end Sentinel.Contracts

namespace Sentinel.Pipeline

open Logic Contracts

/-! ## Columns -/

/-- The module `json`: the order by which it sorts keys, its printing and its parsing. -/
structure JsonText : Type where
  keyLe : Key → Key → Bool
  dumps : JsonValue → String
  loads : String → Option JsonValue

namespace JsonText

variable (J : JsonText)

def canonicalJson (payload : JsonValue) : String := J.dumps (payload.sortKeys J.keyLe)

/-- The payload consists of JSON values, so that what is printed of it is read back. -/
structure Faithful (payload : JsonValue) : Prop where
  keyLe_refl : ∀ k, J.keyLe k k = true
  loads_dumps : J.loads (J.canonicalJson payload) = some (payload.sortKeys J.keyLe)

end JsonText

/-- A row of `stage_messages`. -/
structure MessageColumns : Type where
  messageId : Text
  traceId : Text
  stage : String
  parentMessageId : Option Text
  schemaVersion : String
  idempotencyKey : Text
  payloadJsonb : String
  createdAt : Text

/-- What the `INSERT` of `_upsert_message_conn` writes. -/
def StageMessage.columns (J : JsonText) (m : StageMessage) : MessageColumns where
  messageId := [.uuid m.messageId]
  traceId := [.uuid m.traceId]
  stage := m.stage.value
  parentMessageId := m.parentMessageId.map fun id => [.uuid id]
  schemaVersion := m.schemaVersion
  idempotencyKey := m.idempotencyKey
  payloadJsonb := J.canonicalJson m.payload
  createdAt := [.time m.createdAt]

/-- A value, or what the call that found none raises. -/
def orRaise {α : Type} (e : Exn) : Option α → Except Exn α
  | some a => .ok a
  | none => .error e

@[simp] theorem orRaise_some {α : Type} (e : Exn) (a : α) : orRaise e (some a) = .ok a := rfl

/-- The parent is read when its column is neither null nor empty. -/
def readParent : Option Text → Except Exn (Option UUID)
  | none => .ok none
  | some text =>
    if text = [] ∨ text = lit "" then .ok none
    else (orRaise (.valueError "parent_message_id") (UUID.parse text)).map some

def PipelineDB.getMessage (db : PipelineDB) (J : JsonText) (messageId : UUID) :
    Except Exn PipelineEnvelope := do
  let row ← orRaise (.keyError [.lit "message not found: ", .uuid messageId])
    ((db.findMessage messageId).map (StageMessage.columns J))
  let payload ← orRaise (.valueError "payload_jsonb") (J.loads row.payloadJsonb)
  let messageId ← orRaise (.valueError "message_id") (UUID.parse row.messageId)
  let traceId ← orRaise (.valueError "trace_id") (UUID.parse row.traceId)
  let sourceAlertId ← orRaise (.keyError [.lit "trace not found: ", .uuid traceId])
    (db.sourceAlertIdForTrace traceId)
  let parentMessageId ← readParent row.parentMessageId
  let stage ← orRaise (.valueError "stage") (StageName.parse row.stage)
  let createdAt ← orRaise (.valueError "created_at") (Time.fromIsoformat row.createdAt)
  .ok ⟨messageId, traceId, sourceAlertId, parentMessageId, stage, row.schemaVersion,
    row.idempotencyKey, createdAt, payload⟩

@[simp] theorem readParent_columns (parent : Option UUID) :
    readParent (parent.map fun id => [.uuid id]) = .ok parent := by
  cases parent <;> simp [readParent, UUID.parse, Except.map]

/-- The row of an envelope is read back with its payload in the order of the keys. -/
theorem getMessage_of_row {db : PipelineDB} {J : JsonText} {id : UUID} {m : StageMessage}
    {alertId : Text} (hrow : db.findMessage id = some m)
    (halert : db.sourceAlertIdForTrace m.traceId = some alertId) (hjson : J.Faithful m.payload) :
    db.getMessage J id =
      .ok { m.toEnvelope alertId with payload := m.payload.sortKeys J.keyLe } := by
  simp only [PipelineDB.getMessage, hrow, Option.map_some, orRaise_some, StageMessage.columns,
    hjson.loads_dumps, UUID.parse, halert, readParent_columns, StageName.parse_value,
    Time.fromIsoformat, bind, Except.bind, StageMessage.toEnvelope]

/-- Two envelopes equal in all nine fields; a payload is a dictionary. -/
structure SameEnvelope (e e' : PipelineEnvelope) : Prop where
  messageId : e.messageId = e'.messageId
  traceId : e.traceId = e'.traceId
  sourceAlertId : e.sourceAlertId = e'.sourceAlertId
  parentMessageId : e.parentMessageId = e'.parentMessageId
  stage : e.stage = e'.stage
  schemaVersion : e.schemaVersion = e'.schemaVersion
  idempotencyKey : e.idempotencyKey = e'.idempotencyKey
  createdAt : e.createdAt = e'.createdAt
  payload : e.payload.Equal e'.payload

/-! ## Calls -/

inductive StoreCall : Type
  | upsertMessage (envelope : PipelineEnvelope)
  | completeJobSuccess (fresh : UUID) (clock : Time) (lease : JobLease)
      (outputEnvelope : Option PipelineEnvelope) (nextStage : Option StageName)
      (nextAvailableAt : Option Time) (traceStatus : String) (now : Time)

namespace StoreCall

/-- The envelope that the call upserts. -/
def envelope : StoreCall → Option PipelineEnvelope
  | upsertMessage envelope => some envelope
  | completeJobSuccess _ _ _ outputEnvelope _ _ _ _ => outputEnvelope

end StoreCall

/-- An upsert that was answered: the envelope, the id it returned and whether it inserted. -/
structure Upsert : Type where
  envelope : PipelineEnvelope
  messageId : UUID
  inserted : Bool

/-- The upserts that a call has answered, and the tables it leaves. -/
def StoreCall.run (db : PipelineDB) : StoreCall → Except Exn (List Upsert × PipelineDB)
  | upsertMessage envelope =>
    (db.upsertMessage envelope).map fun r => ([⟨envelope, r.1.1, r.1.2⟩], r.2)
  | completeJobSuccess fresh clock lease outputEnvelope nextStage nextAvailableAt status now => do
    let r ← db.completeJobSuccess fresh clock lease outputEnvelope nextStage nextAvailableAt status
      now
    match outputEnvelope with
    | none => .ok ([], r.2)
    | some envelope =>
      let answer ← db.upsertMessage envelope
      .ok ([⟨envelope, r.1.getD answer.1.1, answer.1.2⟩], r.2)

/-- The tables, and the upserts answered so far, the oldest first. -/
structure Store : Type where
  db : PipelineDB
  upserts : List Upsert

/-- A call that raises is rolled back. -/
def Store.call (s : Store) (c : StoreCall) : Store :=
  match c.run s.db with
  | .ok (upserts, db) => ⟨db, s.upserts ++ upserts⟩
  | .error _ => s

/-- The envelope's trace exists with its alert, its id is no other message's, and its payload
consists of JSON values. -/
structure Admissible (J : JsonText) (s : Store) (c : StoreCall) : Prop where
  trace : ∀ e ∈ c.envelope, s.db.sourceAlertIdForTrace e.traceId = some e.sourceAlertId
  fresh : ∀ e ∈ c.envelope, ∀ m ∈ s.db.stageMessages, m.messageId = e.messageId →
    m.idempotencyKey = e.idempotencyKey
  json : ∀ e ∈ c.envelope, J.Faithful e.payload

/-! ## One call -/

/-- How an upsert of `e` is answered over `db`, and the messages it leaves: a message of the key is
answered with its id, else the envelope is stored. -/
inductive Answer (db : PipelineDB) (e : PipelineEnvelope) : Upsert → List StageMessage → Prop
  | stored (m : StageMessage) (h : m ∈ db.stageMessages)
      (hkey : m.idempotencyKey = e.idempotencyKey) :
      Answer db e ⟨e, m.messageId, false⟩ db.stageMessages
  | inserted (h : db.NewMessage e) :
      Answer db e ⟨e, e.messageId, true⟩ (db.stageMessages ++ [.ofEnvelope e])

theorem sourceAlertIdForTrace_retraced (db : PipelineDB) (output : Option PipelineEnvelope)
    (status : String) (traceId : UUID) :
    ({ db with pipelineTraces := PipelineDB.retraced output status db.pipelineTraces } :
      PipelineDB).sourceAlertIdForTrace traceId = db.sourceAlertIdForTrace traceId := by
  unfold PipelineDB.sourceAlertIdForTrace PipelineDB.retraced
  cases output with
  | none => rfl
  | some envelope =>
    show Option.map PipelineTrace.sourceAlertId (List.find? (fun t => t.traceId = traceId)
      (updateWhere (fun t => t.traceId = envelope.traceId)
        (PipelineDB.tracedRow envelope.stage status) db.pipelineTraces)) = _
    rw [find?_updateWhere (by intro t; rfl), Option.map_map]
    refine congrArg (fun f => Option.map f _) (funext fun t => ?_)
    simp only [Function.comp_apply]
    split_ifs <;> rfl

theorem answer_of_upsertMessage {db db' : PipelineDB} {e : PipelineEnvelope} {out : UUID × Bool}
    (h : db.upsertMessage e = .ok (out, db')) :
    Answer db e ⟨e, out.1, out.2⟩ db'.stageMessages ∧ db'.pipelineTraces = db.pipelineTraces := by
  rcases PipelineDB.upsertMessage_ok h with ⟨m, hm, hkey, rfl, rfl⟩ | ⟨hnew, rfl, rfl⟩
  · exact ⟨.stored m hm hkey, rfl⟩
  · exact ⟨.inserted hnew, rfl⟩

/-- An upsert of an envelope whose id is no other message's does not raise. -/
theorem upsertMessage_returns {db : PipelineDB} {e : PipelineEnvelope}
    (h : ∀ m ∈ db.stageMessages, m.messageId = e.messageId →
      m.idempotencyKey = e.idempotencyKey) : ∃ r, db.upsertMessage e = .ok r := by
  unfold PipelineDB.upsertMessage
  split
  · exact ⟨_, rfl⟩
  · next hnone =>
    rw [if_neg]
    · exact ⟨_, rfl⟩
    · intro hany
      simp only [List.any_eq_true, decide_eq_true_eq] at hany
      obtain ⟨m, hm, hid⟩ := hany
      simp only [List.find?_eq_none, decide_eq_true_eq] at hnone
      exact hnone m hm (h m hm hid)

/-- The upsert inside a completion is the one over the tables before it. -/
theorem answer_of_completeJobSuccess {db db' : PipelineDB} {fresh : UUID} {clock now : Time}
    {lease : JobLease} {e : PipelineEnvelope} {nextStage : Option StageName}
    {nextAvailableAt : Option Time} {status : String} {out : Option UUID} {answer : UUID × Bool}
    {db₁ : PipelineDB}
    (h : db.completeJobSuccess fresh clock lease (some e) nextStage nextAvailableAt status now =
      .ok (out, db'))
    (hup : db.upsertMessage e = .ok (answer, db₁)) :
    Answer db e ⟨e, out.getD answer.1, answer.2⟩ db'.stageMessages := by
  have hanswer := PipelineDB.upsertMessage_ok hup
  obtain ⟨ms, js, ts, rfl, -, hcases⟩ := PipelineDB.completeJobSuccess_ok h
  rcases hcases with ⟨rfl, -, hout⟩ | ⟨e', he', hout, hnew, hms, -⟩
  · rcases hout with ⟨hnone, -⟩ | ⟨e', he', m, hm, hkey, rfl⟩
    · cases hnone
    · obtain rfl := Option.some.inj he'
      rcases hanswer with ⟨m', -, -, rfl, -⟩ | ⟨hnew, -, -⟩
      · exact .stored m hm hkey
      · exact absurd hkey (hnew.key m hm)
  · obtain rfl := Option.some.inj he'
    rcases hanswer with ⟨m', hm', hkey', -, -⟩ | ⟨-, rfl, -⟩
    · exact absurd hkey' (hnew.key m' hm')
    · rw [hout, hms]
      exact .inserted hnew

/-- What a call that returns leaves of the messages and the alerts of the traces. -/
structure Effect (db : PipelineDB) (c : StoreCall) (upserts : List Upsert) (db' : PipelineDB) :
    Prop where
  alerts : ∀ traceId, db'.sourceAlertIdForTrace traceId = db.sourceAlertIdForTrace traceId
  answer : c.envelope = none ∧ upserts = [] ∧ db'.stageMessages = db.stageMessages ∨
    ∃ e u, c.envelope = some e ∧ upserts = [u] ∧ Answer db e u db'.stageMessages

theorem StoreCall.run_ok {db db' : PipelineDB} {c : StoreCall} {upserts : List Upsert}
    (h : c.run db = .ok (upserts, db')) : Effect db c upserts db' := by
  cases c with
  | upsertMessage e =>
    simp only [StoreCall.run] at h
    cases hup : db.upsertMessage e with
    | error x => simp [hup, Except.map] at h
    | ok r =>
      rw [hup] at h
      obtain ⟨rfl, rfl⟩ := Prod.mk.inj (Except.ok.inj h)
      obtain ⟨hanswer, htraces⟩ := answer_of_upsertMessage hup
      refine ⟨fun traceId => ?_, Or.inr ⟨e, _, rfl, rfl, hanswer⟩⟩
      rw [PipelineDB.sourceAlertIdForTrace, htraces, PipelineDB.sourceAlertIdForTrace]
  | completeJobSuccess fresh clock lease output nextStage nextAvailableAt status now =>
    simp only [StoreCall.run, bind, Except.bind] at h
    cases hdone : db.completeJobSuccess fresh clock lease output nextStage nextAvailableAt status
        now with
    | error x => simp [hdone] at h
    | ok r =>
      obtain ⟨out, db₁⟩ := r
      simp only [hdone] at h
      obtain ⟨ms, js, ts, hdb, hts, hcases⟩ := PipelineDB.completeJobSuccess_ok hdone
      have halerts : ∀ traceId, db₁.sourceAlertIdForTrace traceId =
          db.sourceAlertIdForTrace traceId := by
        intro traceId
        rw [← sourceAlertIdForTrace_retraced db output status traceId, hdb,
          PipelineDB.sourceAlertIdForTrace, PipelineDB.sourceAlertIdForTrace, ← hts]
        rfl
      cases output with
      | none =>
        obtain ⟨rfl, rfl⟩ := Prod.mk.inj (Except.ok.inj h)
        refine ⟨halerts, Or.inl ⟨rfl, rfl, ?_⟩⟩
        rcases hcases with ⟨rfl, -, -⟩ | ⟨e', he', -⟩
        · rw [hdb]; rfl
        · cases he'
      | some e =>
        simp only at h
        cases hup : db.upsertMessage e with
        | error x => simp [hup] at h
        | ok answer =>
          obtain ⟨answer, db₂⟩ := answer
          simp only [hup] at h
          obtain ⟨rfl, rfl⟩ := Prod.mk.inj (Except.ok.inj h)
          exact ⟨halerts, Or.inr ⟨e, _, rfl, rfl, answer_of_completeJobSuccess hdone hup⟩⟩

/-! ## Runs -/

/-- The first upsert of the key. -/
def firstUpsert (key : Text) (upserts : List Upsert) : Option Upsert :=
  upserts.find? fun u => u.envelope.idempotencyKey = key

/-- Every upsert reports an insertion exactly when it is the first of its key, and answers with the
id of the first. -/
def Answers (upserts : List Upsert) : Prop :=
  ∀ before u after, upserts = before ++ u :: after →
    (u.inserted = true ↔ firstUpsert u.envelope.idempotencyKey before = none) ∧
      ∃ f, firstUpsert u.envelope.idempotencyKey (before ++ [u]) = some f ∧
        u.messageId = f.envelope.messageId

theorem Answers.append {upserts : List Upsert} {u : Upsert} (h : Answers upserts)
    (hinserted : u.inserted = true ↔ firstUpsert u.envelope.idempotencyKey upserts = none)
    (hfirst : ∃ f, firstUpsert u.envelope.idempotencyKey (upserts ++ [u]) = some f ∧
      u.messageId = f.envelope.messageId) : Answers (upserts ++ [u]) := by
  intro before v after heq
  rcases List.eq_nil_or_concat after with rfl | ⟨after, w, rfl⟩
  · obtain ⟨rfl, hlast⟩ := List.append_inj' heq rfl
    obtain rfl := List.singleton_inj.mp hlast
    exact ⟨hinserted, hfirst⟩
  · rw [List.concat_eq_append, ← List.cons_append, ← List.append_assoc] at heq
    obtain ⟨hfront, -⟩ := List.append_inj' heq rfl
    exact h before v after hfront

/-- What the calls keep.  The messages are those of the upserts that inserted, and these are the
first of their keys. -/
structure Kept (J : JsonText) (s : Store) : Prop where
  rows : ∀ m, m ∈ s.db.stageMessages ↔
    ∃ u ∈ s.upserts, u.inserted = true ∧ .ofEnvelope u.envelope = m
  keys : (s.db.stageMessages.map StageMessage.idempotencyKey).Nodup
  ids : (s.db.stageMessages.map StageMessage.messageId).Nodup
  alerts : ∀ u ∈ s.upserts,
    s.db.sourceAlertIdForTrace u.envelope.traceId = some u.envelope.sourceAlertId
  json : ∀ u ∈ s.upserts, J.Faithful u.envelope.payload
  first : ∀ key u, firstUpsert key s.upserts = some u → u.inserted = true
  answers : Answers s.upserts

section Kept

variable {J : JsonText} {s : Store}

theorem mem_of_firstUpsert {key : Text} {upserts : List Upsert} {u : Upsert}
    (h : firstUpsert key upserts = some u) : u ∈ upserts ∧ u.envelope.idempotencyKey = key := by
  refine ⟨List.mem_of_find?_eq_some h, ?_⟩
  simpa using List.find?_some h

/-- The message stored under a key is that of the first upsert of the key. -/
theorem Kept.first_of_row (h : Kept J s) {m : StageMessage} (hm : m ∈ s.db.stageMessages) :
    ∃ f, firstUpsert m.idempotencyKey s.upserts = some f ∧ .ofEnvelope f.envelope = m := by
  obtain ⟨u, hu, -, rfl⟩ := (h.rows m).mp hm
  have hsome : (firstUpsert u.envelope.idempotencyKey s.upserts).isSome := by
    rw [firstUpsert, List.find?_isSome]
    exact ⟨u, hu, by simp⟩
  obtain ⟨f, hf⟩ := Option.isSome_iff_exists.mp hsome
  obtain ⟨hmem, hkey⟩ := mem_of_firstUpsert hf
  have hrow : StageMessage.ofEnvelope f.envelope ∈ s.db.stageMessages :=
    (h.rows _).mpr ⟨f, hmem, h.first _ f hf, rfl⟩
  exact ⟨f, hf, eq_of_nodup h.keys hrow hm hkey⟩

theorem Kept.firstUpsert_none (h : Kept J s) {key : Text} :
    firstUpsert key s.upserts = none ↔ ∀ m ∈ s.db.stageMessages, m.idempotencyKey ≠ key := by
  constructor
  · intro hnone m hm hkey
    obtain ⟨f, hf, -⟩ := h.first_of_row hm
    rw [hkey, hnone] at hf
    cases hf
  · intro hnew
    cases hf : firstUpsert key s.upserts with
    | none => rfl
    | some f =>
      obtain ⟨hmem, hkey⟩ := mem_of_firstUpsert hf
      have hrow : StageMessage.ofEnvelope f.envelope ∈ s.db.stageMessages :=
        (h.rows _).mpr ⟨f, hmem, h.first _ f hf, rfl⟩
      exact absurd hkey (hnew _ hrow)

theorem kept_initial {db : PipelineDB} (h : db.stageMessages = []) : Kept J ⟨db, []⟩ where
  rows m := by simp [h]
  keys := by simp [h]
  ids := by simp [h]
  alerts u hu := absurd hu (by simp)
  json u hu := absurd hu (by simp)
  first key u hu := by simp [firstUpsert] at hu
  answers before u after hs := absurd hs (by simp)

/-- What is read back under the id of the first upsert of a key is its envelope. -/
theorem Kept.reads (h : Kept J s) {f : Upsert} (hf : f ∈ s.upserts) (hinserted : f.inserted = true) :
    ∃ e, s.db.getMessage J f.envelope.messageId = .ok e ∧ SameEnvelope f.envelope e := by
  have hrow : StageMessage.ofEnvelope f.envelope ∈ s.db.stageMessages :=
    (h.rows _).mpr ⟨f, hf, hinserted, rfl⟩
  have hfind : s.db.findMessage f.envelope.messageId = some (.ofEnvelope f.envelope) :=
    find?_eq_of_mem h.ids hrow
  refine ⟨_, getMessage_of_row hfind (h.alerts f hf) (h.json f hf), ?_⟩
  exact ⟨rfl, rfl, rfl, rfl, rfl, rfl, rfl, rfl,
    Json.equal_sortKeys (h.json f hf).keyLe_refl f.envelope.payload⟩

/-- One more upsert, over messages whose keys and ids do not repeat. -/
theorem Kept.append (h : Kept J s) {db : PipelineDB} {u : Upsert}
    (halerts : ∀ traceId, db.sourceAlertIdForTrace traceId = s.db.sourceAlertIdForTrace traceId)
    (htrace : s.db.sourceAlertIdForTrace u.envelope.traceId = some u.envelope.sourceAlertId)
    (hjson : J.Faithful u.envelope.payload)
    (hrows : ∀ m, m ∈ db.stageMessages ↔
      m ∈ s.db.stageMessages ∨ u.inserted = true ∧ .ofEnvelope u.envelope = m)
    (hkeys : (db.stageMessages.map StageMessage.idempotencyKey).Nodup)
    (hids : (db.stageMessages.map StageMessage.messageId).Nodup)
    (hinserted : u.inserted = true ↔ firstUpsert u.envelope.idempotencyKey s.upserts = none)
    (hfirst : ∃ f, firstUpsert u.envelope.idempotencyKey (s.upserts ++ [u]) = some f ∧
      u.messageId = f.envelope.messageId) : Kept J ⟨db, s.upserts ++ [u]⟩ := by
  refine ⟨?_, hkeys, hids, ?_, ?_, ?_, h.answers.append hinserted hfirst⟩
  · intro m
    rw [hrows, h.rows]
    simp only [List.mem_append, List.mem_singleton, or_and_right, exists_or, exists_eq_left]
  · intro v hv
    rw [halerts]
    rcases List.mem_append.mp hv with hv | hv
    · exact h.alerts v hv
    · rw [List.mem_singleton.mp hv]
      exact htrace
  · intro v hv
    rcases List.mem_append.mp hv with hv | hv
    · exact h.json v hv
    · rw [List.mem_singleton.mp hv]
      exact hjson
  · intro key v hv
    cases hold : firstUpsert key s.upserts with
    | some w =>
      rw [firstUpsert, find?_append_of_some hold] at hv
      exact h.first key v (hold.trans hv)
    | none =>
      obtain ⟨hmem, hkey⟩ := mem_of_firstUpsert hv
      rcases List.mem_append.mp hmem with hmem | hmem
      · exact absurd hkey (by simpa using List.find?_eq_none.mp hold v hmem)
      · obtain rfl := List.mem_singleton.mp hmem
        rw [← hkey] at hold
        exact hinserted.mpr hold

theorem Kept.answered (h : Kept J s) {db : PipelineDB} {e : PipelineEnvelope} {u : Upsert}
    (hanswer : Answer s.db e u db.stageMessages)
    (halerts : ∀ traceId, db.sourceAlertIdForTrace traceId = s.db.sourceAlertIdForTrace traceId)
    (htrace : s.db.sourceAlertIdForTrace e.traceId = some e.sourceAlertId)
    (hjson : J.Faithful e.payload) : Kept J ⟨db, s.upserts ++ [u]⟩ := by
  generalize hmessages : db.stageMessages = messages at hanswer
  cases hanswer with
  | stored m hm hkey =>
    obtain ⟨f, hf, hrow⟩ := h.first_of_row hm
    rw [hkey] at hf
    refine h.append halerts htrace hjson ?_ ?_ ?_ ?_ ⟨f, find?_append_of_some hf _, ?_⟩
    · simp [hmessages]
    · rw [hmessages]
      exact h.keys
    · rw [hmessages]
      exact h.ids
    · simp [hf]
    · exact (congrArg StageMessage.messageId hrow).symm
  | inserted hnew =>
    have hnone : firstUpsert e.idempotencyKey s.upserts = none := h.firstUpsert_none.mpr hnew.key
    refine h.append halerts htrace hjson ?_ ?_ ?_ ?_ ⟨⟨e, e.messageId, true⟩, ?_, rfl⟩
    · intro m
      rw [hmessages, List.mem_append, List.mem_singleton]
      simp only [true_and, eq_comm]
    · rw [hmessages]
      exact nodup_append_new h.keys hnew.key
    · rw [hmessages]
      exact nodup_append_new h.ids hnew.id
    · simp [hnone]
    · rw [firstUpsert, find?_append_of_none hnone, if_pos (by simp)]

/-- One call. -/
theorem Kept.call (h : Kept J s) {c : StoreCall} (hc : Admissible J s c) : Kept J (s.call c) := by
  unfold Store.call
  cases hrun : c.run s.db with
  | error x => exact h
  | ok r =>
    obtain ⟨upserts, db⟩ := r
    obtain ⟨halerts, ⟨-, rfl, hmessages⟩ | ⟨e, u, he, rfl, hanswer⟩⟩ := StoreCall.run_ok hrun
    · simp only [List.append_nil]
      refine ⟨?_, ?_, ?_, fun u hu => (halerts _).trans (h.alerts u hu), h.json, h.first, h.answers⟩
      · intro m
        rw [hmessages, h.rows]
      · rw [hmessages]
        exact h.keys
      · rw [hmessages]
        exact h.ids
    · have hmem : e ∈ c.envelope := he
      exact h.answered hanswer halerts (hc.trace e hmem) (hc.json e hmem)

end Kept

/-- The message store is write-once and reads back what was written.  In every run of admissible
calls over a database without messages, each upsert reports an insertion exactly when no earlier one
had its key, and answers with the id of the first envelope of the key, under which that envelope is
read back at the end of the run; and no admissible upsert raises. -/
theorem upserts_writeOnce (J : JsonText) {db₀ : PipelineDB} (hnew : db₀.stageMessages = [])
    {s : Store} (hs : Reach Store.call ⟨db₀, []⟩ (Admissible J) s) :
    (∀ before u after, s.upserts = before ++ u :: after →
      (u.inserted = true ↔
        ∀ v ∈ before, v.envelope.idempotencyKey ≠ u.envelope.idempotencyKey) ∧
      ∃ first ∈ firstUpsert u.envelope.idempotencyKey s.upserts,
        u.messageId = first.envelope.messageId ∧
        ∃ e, s.db.getMessage J u.messageId = .ok e ∧ SameEnvelope first.envelope e) ∧
    ∀ e, Admissible J s (.upsertMessage e) → ∃ r, s.db.upsertMessage e = .ok r := by
  have hkept : Kept J s := hs.invariant (kept_initial hnew) fun s c _ hc h => h.call hc
  refine ⟨?_, fun e he => upsertMessage_returns (he.fresh e rfl)⟩
  intro before u after hu
  obtain ⟨hinserted, f, hf, hid⟩ := hkept.answers before u after hu
  have hfirst : firstUpsert u.envelope.idempotencyKey s.upserts = some f := by
    rw [hu, ← List.singleton_append, ← List.append_assoc]
    exact find?_append_of_some hf after
  obtain ⟨e, he, hsame⟩ := hkept.reads (mem_of_firstUpsert hfirst).1 (hkept.first _ f hfirst)
  refine ⟨?_, f, hfirst, hid, e, hid ▸ he, hsame⟩
  rw [hinserted, firstUpsert, List.find?_eq_none]
  simp

namespace Sample

/-- An envelope of the key `scout:alert-1`, and another that a later call upserts. -/
def scouted (messageId : UUID) : PipelineEnvelope :=
  { messageId := messageId, traceId := 7, sourceAlertId := lit "alert-1", parentMessageId := none
    stage := .ingest, schemaVersion := "v1", idempotencyKey := lit "scout:alert-1", createdAt := 0
    payload := .obj [(.other "value", .int 1)] }

/-- `json` on the payload `{"value": 1}`. -/
def valueText : JsonText where
  keyLe _ _ := true
  dumps
    | .obj [(.other "value", .int 1)] => "\x7b\"value\":1\x7d"
    | _ => "null"
  loads
    | "\x7b\"value\":1\x7d" => some (.obj [(.other "value", .int 1)])
    | "null" => some .null
    | _ => none

def storeCalls : List StoreCall :=
  [.upsertMessage (scouted 1),
    .completeJobSuccess 0 0 ⟨3, 4, 7, .research, 1, 1⟩ (some (scouted 2)) (some .analysis) none
      "running" 0]

def traced : PipelineDB := { pipelineTraces := [⟨7, lit "alert-1", .ingest, "running"⟩] }

theorem storeCalls_admissible (s : Store) (messageId : UUID) {c : StoreCall}
    (hc : c.envelope = some (scouted messageId)) (htraces : s.db.pipelineTraces =
      [⟨7, lit "alert-1", .ingest, "running"⟩])
    (hmessages : ∀ m ∈ s.db.stageMessages, m.idempotencyKey = lit "scout:alert-1") :
    Admissible valueText s c := by
  refine ⟨?_, ?_, ?_⟩
  · intro e he
    obtain rfl := Option.some.inj (hc.symm.trans he)
    rw [PipelineDB.sourceAlertIdForTrace, htraces]
    rfl
  · intro e he m hm _
    obtain rfl := Option.some.inj (hc.symm.trans he)
    exact hmessages m hm
  · intro e he
    obtain rfl := Option.some.inj (hc.symm.trans he)
    exact ⟨fun _ => rfl, rfl⟩

end Sample

theorem upserts_writeOnce_twice :
    ∃ e, (Sample.storeCalls.foldl Store.call ⟨Sample.traced, []⟩).db.getMessage Sample.valueText 1 =
      .ok e ∧ SameEnvelope (Sample.scouted 1) e := by
  have hs : Reach Store.call ⟨Sample.traced, []⟩ (Admissible Sample.valueText)
      (Sample.storeCalls.foldl Store.call ⟨Sample.traced, []⟩) := by
    simp only [Sample.storeCalls, List.foldl_cons, List.foldl_nil]
    refine .step (.step .init ?_) ?_
    · exact Sample.storeCalls_admissible _ 1 rfl rfl (by simp [Sample.traced])
    · refine Sample.storeCalls_admissible _ 2 rfl rfl ?_
      intro m hm
      obtain rfl := List.mem_singleton.mp hm
      rfl
  obtain ⟨-, f, hf, -, hread⟩ := (upserts_writeOnce Sample.valueText rfl hs).1
    [⟨Sample.scouted 1, 1, true⟩] ⟨Sample.scouted 2, 1, false⟩ [] rfl
  obtain rfl := Option.some.inj hf
  exact hread

end Sentinel.Pipeline
