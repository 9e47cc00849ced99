import Sentinel.Notifications.Webhook
import Sentinel.Pipeline.Commits
import Sentinel.Researcher.Acknowledged

/-!
# What Sentinel sends is accepted

The researcher answers the request of the webhook notifier with 202, and the alert it stores is the
one that was sent, if both sides have the same token and secret and nothing fails on the way.
-/

namespace Sentinel.Pipeline

open Logic Contracts Notifications Processing PipelineDB

variable {host : Host} {C : State → PipelineEvent → Prop} {s : State}

/-- The delivery of an alert by the notifier; `dumps` is `json.dumps` with the UTF-8 encoding. -/
def posted (host : Host) (dumps : JsonValue → List UInt8) (pyStr : JsonValue → String)
    (alert : ShiftAlert) (replaySource : Option Text) : Task :=
  .ingress ⟨dumps alert.toDict, some alert.toDict⟩
    (HttpJsonWebhookNotifier.buildHeaders pyStr host.hmacSha256 host.cfg.researcher.webhookBearerToken
      host.cfg.researcher.webhookHmacSecret alert (dumps alert.toDict)) replaySource

/-! ## The checks -/

section Headers

variable {pyStr : JsonValue → String} {hmac : String → List UInt8 → String} {token secret : String}
  {alert : ShiftAlert} {data : List UInt8}

theorem toLower_names : "Content-Type".toLower = "content-type" ∧
    "User-Agent".toLower = "user-agent" ∧ "X-Sentinel-Alert-Id".toLower = "x-sentinel-alert-id" ∧
    "X-Sentinel-Alert-Level".toLower = "x-sentinel-alert-level" ∧
    "X-Sentinel-Timestamp-Ms".toLower = "x-sentinel-timestamp-ms" ∧
    "X-Sentinel-Event-Slug".toLower = "x-sentinel-event-slug" ∧
    "Authorization".toLower = "authorization" ∧
    "X-Sentinel-Signature".toLower = "x-sentinel-signature" := by decide +kernel

theorem headerGet_alertId : headerGet (HttpJsonWebhookNotifier.buildHeaders pyStr hmac token secret
    alert data) "x-sentinel-alert-id" = some alert.alertId := by
  unfold HttpJsonWebhookNotifier.buildHeaders
  dsimp only
  split_ifs <;> simp [headerGet, toLower_names]

theorem headerGet_authorization (htoken : token ≠ "") : headerGet
    (HttpJsonWebhookNotifier.buildHeaders pyStr hmac token secret alert data) "authorization" =
      some ("Bearer " ++ token) := by
  unfold HttpJsonWebhookNotifier.buildHeaders
  dsimp only
  split_ifs <;> simp [headerGet, toLower_names]

theorem headerGet_signature (hsecret : secret ≠ "") : headerGet
    (HttpJsonWebhookNotifier.buildHeaders pyStr hmac token secret alert data)
      "x-sentinel-signature" = some ("sha256=" ++ hmac secret data) := by
  unfold HttpJsonWebhookNotifier.buildHeaders
  dsimp only
  split_ifs <;> simp [headerGet, toLower_names]

end Headers

/-- The delivery passes every check with the alert as it was sent. -/
theorem handleAlert_posted {dumps : JsonValue → List UInt8} {pyStr : JsonValue → String}
    {alert : ShiftAlert} {replaySource : Option Text} :
    (posted host dumps pyStr alert replaySource).body host =
      ResearcherIngressService.persist host.schemaVersion alert.mirror replaySource >>=
        fun r => pure (.response r) := by
  unfold posted Task.body
  have hauthorize : ∀ data, ResearcherIngressService.authorize host.cfg.researcher
      (HttpJsonWebhookNotifier.buildHeaders pyStr host.hmacSha256
        host.cfg.researcher.webhookBearerToken host.cfg.researcher.webhookHmacSecret alert data) =
      true := by
    intro data
    unfold ResearcherIngressService.authorize
    split_ifs with htoken
    · rfl
    · rw [headerGet_authorization htoken]
      simp
  have hverify : ∀ body : Body, ResearcherIngressService.verifySignature host.hmacSha256
      host.cfg.researcher body (HttpJsonWebhookNotifier.buildHeaders pyStr host.hmacSha256
        host.cfg.researcher.webhookBearerToken host.cfg.researcher.webhookHmacSecret alert
        body.bytes) = true := by
    intro body
    unfold ResearcherIngressService.verifySignature
    split_ifs with hsecret
    · rfl
    · rw [headerGet_signature hsecret]
      simp
  have hid : alert.mirror.alertId = lit alert.alertId := rfl
  unfold ResearcherIngressService.handleAlert
  simp [hauthorize, hverify, headerGet_alertId, ShiftAlert.load_toDict, hid]

/-! ## The calls of a delivery -/

/-- What a delivery of the alert calls; the message it stores is the first, and holds the alert. -/
def Delivers (alert : ShiftAlert) (log : Log) : Op → Prop
  | .now _ | .uuid4 _ | .tx (.ensureTrace ..) | .tx (.enqueueJob ..) => True
  | .tx (.upsertMessage envelope) => (∀ en ∈ log, en.op.upserts = none) ∧
    ∃ ingested, IngestedAlert.contract.load envelope.payload = some ingested ∧
      ingested.shiftAlert = alert.mirror
  | _ => False

/-- The answer to a delivery in which no call raised. -/
def Accepted (log : Log) (r : Except Exn Out) : Prop :=
  NoRaise log → ∃ response, r = .ok (.response response) ∧ response.statusCode = 202

theorem delivers_posted {dumps : JsonValue → List UInt8} {pyStr : JsonValue → String}
    {alert : ShiftAlert} {replaySource : Option Text} :
    Always (Delivers alert) Accepted ((posted host dumps pyStr alert replaySource).body host) [] := by
  have htolerant : Tolerant Accepted := ⟨fun _ _ _ _ h => absurd h not_noRaise⟩
  rw [handleAlert_posted]
  simp only [ResearcherIngressService.persist, ensureTrace, newEnvelope, Prog.bind_def,
    Prog.bind_assoc]
  refine always_op trivial fun t => always_op trivial fun traceId => always_op trivial fun t' => ?_
  refine always_op trivial fun id => always_op trivial fun t'' => always_op ⟨?_, ?_⟩ fun out => ?_
  · intro en hen
    simp only [List.nil_append, List.cons_append, List.mem_cons, List.not_mem_nil, or_false] at hen
    rcases hen with rfl | rfl | rfl | rfl | rfl <;> rfl
  · exact ⟨_, IngestedAlert.contract.load_dump _, rfl⟩
  · obtain ⟨storedId, inserted⟩ := out
    cases inserted with
    | false => exact fun _ => ⟨_, rfl, rfl⟩
    | true =>
      simp only [if_true, Prog.bind_assoc]
      refine always_op trivial fun jobId => ?_
      exact fun _ => ⟨_, rfl, rfl⟩

section Delivery

variable {dumps : JsonValue → List UInt8} {pyStr : JsonValue → String} {alert : ShiftAlert}
  {replaySource : Option Text} {i : ℕ}

theorem delivers (h : Reachable host C s) {th : Thread Op Op.Ans Exn Out Task}
    (hth : s.threads[i]? = some th) :
    Issued (fun t l op => t = posted host dumps pyStr alert replaySource → Delivers alert l op)
      (fun t l r => t = posted host dumps pyStr alert replaySource → Accepted l r) th := by
  refine issued_reach (M := machine host) (fun t => ?_) h i th hth
  by_cases ht : t = posted host dumps pyStr alert replaySource
  · subst ht
    exact delivers_posted.mono' (fun _ _ _ hop _ => hop) fun _ _ _ hr _ => hr
  · exact always_of (fun _ _ heq => absurd heq ht) fun _ _ heq => absurd heq ht

/-- The message of a delivery is stored under a new id. -/
theorem Ingests.message_new {log : Log} {t : Task} {alertId : Text} {envelope : PipelineEnvelope}
    {k : Except Exn (UUID × Bool) → Program Out} (hi : Ingests log alertId envelope)
    (hfirst : ∀ en ∈ log, en.op.upserts = none) (h : Reachable host C s)
    (hth : s.threads[i]? = some ⟨t, log, .call (.tx (.upsertMessage envelope)) k, true⟩) :
    ∀ m ∈ s.world.db.stageMessages, m.messageId ≠ envelope.messageId := by
  intro m hm heq
  obtain ⟨j, th', l, l', _, hth', hl, ⟨op, a, envelope', rfl, hop, rfl⟩, hissues⟩ :=
    written (R := fun db m => m ∈ db.stageMessages)
      (O := fun m en => ∃ op a envelope, en = ⟨op, .ok a⟩ ∧ op.Stores envelope ∧
        m = .ofEnvelope envelope) h (fun _ => List.not_mem_nil)
      (fun w op r w' m hc hm => by
        rcases hc.messages with heq | ⟨envelope, hop, -, ⟨a, rfl⟩, heq⟩
        · exact Or.inl (heq ▸ hm)
        · rcases List.mem_append.mp (heq ▸ hm) with hm | hm
          · exact Or.inl hm
          · exact Or.inr ⟨op, a, envelope, rfl, hop, List.mem_singleton.mp hm⟩) hm
  have hid : envelope'.messageId = envelope.messageId := heq
  have hdrawn : Answered l (.uuid4 .message) envelope.messageId := by
    rw [← hid]
    rcases hop with rfl | ⟨lease, next, availableAt, status, now, rfl⟩
    · obtain ⟨alertId', hi'⟩ := hissues
      exact hi'.drawn
    · exact hissues.drawn envelope' rfl
  have hpre : l <+: th'.log := ⟨_, hl.symm⟩
  obtain rfl := drawn_thread h hth hth' (List.prefix_refl _) hpre hi.drawn hdrawn
  obtain rfl := Option.some.inj (hth.symm.trans hth')
  rcases hop with rfl | ⟨lease, next, availableAt, status, now, rfl⟩
  · have hlog : log = l ++ ⟨.tx (.upsertMessage envelope'), .ok a⟩ :: l' := hl
    have hnone := hfirst _ (hlog ▸ List.mem_append_right l List.mem_cons_self)
    cases hnone
  · obtain ⟨stage, parent, hholds, -⟩ := hissues.completes.holds
    exact hi.not_leased hholds.leased h hth (List.prefix_refl _) hpre

/-- The transactions of a delivery commit. -/
theorem delivery_exec (h : Reachable host C s) {log : Log} {x : Tx}
    {k : Except Exn x.Ans → Program Out}
    (hth : s.threads[i]? = some ⟨posted host dumps pyStr alert replaySource, log, .call (.tx x) k,
      true⟩) (tie : ℕ) (e : Exn) :
    x.exec s.world.db s.world.clock s.world.nextId tie ≠ .error e := by
  intro hx
  have hissues := (issued h hth).next rfl
  have hdelivers : Delivers alert log (.tx x) := (delivers h hth).next rfl rfl
  cases x with
  | ensureTrace alertId stage status =>
    refine ensureTrace_not_error (fun t ht => ?_) (map_error hx)
    exact (tracesBelow h _ (List.mem_map_of_mem ht)).ne
  | upsertMessage envelope =>
    obtain ⟨alertId, hi⟩ := hissues
    exact upsertMessage_not_error (hi.message_new hdelivers.1 h hth) (map_error hx)
  | enqueueJob traceId stage messageId priority =>
    refine enqueueJob_not_error (fun j hj => ?_) (map_error hx)
    exact ((idsBelow h).jobs j.key (mem_jobKeys.mpr ⟨j, hj, rfl⟩)).ne
  | _ => cases hdelivers

/-- A delivery without faults that has ended was answered with 202. -/
theorem delivery_ended (h : Reachable host C s) {th : Thread Op Op.Ans Exn Out Task}
    (hth : s.threads[i]? = some th) (htask : th.task = posted host dumps pyStr alert replaySource)
    (hfaultless : Faultless th.log) {r : Except Exn Out} (hr : th.result = some r) :
    ∃ response, r = .ok (.response response) ∧ response.statusCode = 202 := by
  refine (delivers h hth).ended hr htask ?_
  refine noRaise_of_faultless (P := fun t => t = posted host dumps pyStr alert replaySource)
    (fun s i inp t log x k tie e hs hC hth ht _ => ?_) h hth htask hfaultless
  subst ht
  exact delivery_exec hs hth tie e

/-- Only the thread acts, and its calls succeed. -/
def Succeeds (i : ℕ) (_ : State) (e : PipelineEvent) : Prop := e = .act i .ok

/-- The next call of a delivery can be answered. -/
theorem delivery_call (h : Reachable host C s) {log : Log} {op : Op}
    {k : Except Exn op.Ans → Program Out} (hth : s.threads[i]? =
      some ⟨posted host dumps pyStr alert replaySource, log, .call op k, true⟩) :
    ∃ a w', s.world.call op .ok = some (.ok a, w') := by
  have hdelivers : Delivers alert log op := (delivers h hth).next rfl rfl
  cases op with
  | now site => exact ⟨_, _, rfl⟩
  | uuid4 site => exact ⟨_, _, rfl⟩
  | tx x =>
    cases hx : x.exec s.world.db s.world.clock s.world.nextId 0 with
    | error e => exact absurd hx (delivery_exec h hth 0 e)
    | ok p =>
      obtain ⟨a, db, n⟩ := p
      refine ⟨a, { s.world with db := db, nextId := n }, ?_⟩
      change some (s.world.runTx 0 x) = _
      simp only [World.runTx, hx]
  | _ => cases hdelivers

/-- A delivery without faults can be carried to its end. -/
theorem delivery_continues {log : Log} {p : Program Out} (h : Reachable host C s)
    (hth : s.threads[i]? = some ⟨posted host dumps pyStr alert replaySource, log, p, true⟩)
    (hfaultless : Faultless log) : ∃ s' th' response, Reach (machine host).step s (Succeeds i) s' ∧
      s'.threads[i]? = some th' ∧ th'.result = some (.ok (.response response)) ∧
      response.statusCode = 202 := by
  obtain ⟨s', log', p', hreach, hs', hth', hnext, hfaultless'⟩ :=
    Reach.carried (M := machine host) (A := Succeeds i) (J := fun _ log _ => Faultless log)
      (fun s log op k hs hth hfaultless => by
        obtain ⟨a, w', hcall⟩ := delivery_call hs hth
        refine ⟨.ok, .ok a, w', hcall, trivial, rfl, fun _ _ _ _ en hen => ?_⟩
        rcases List.mem_append.mp hen with hold | hlast
        · exact hfaultless en hold
        · rw [List.mem_singleton.mp hlast]
          rfl)
      p h.any hth hfaultless
  have hend := fun r => delivery_ended hs' hth' rfl hfaultless' (r := r)
  cases p' with
  | ret out =>
    obtain ⟨response, hr, hstatus⟩ := hend (.ok out) rfl
    exact ⟨s', _, response, hreach, hth', congrArg some hr, hstatus⟩
  | raise e =>
    obtain ⟨response, hr, -⟩ := hend (.error e) rfl
    cases hr
  | call op k => cases hnext

/-- The researcher reads an alert as Sentinel has it.  Whatever has happened before, a delivery by
the notifier in which nothing fails is answered with 202 and goes on to its end, and the message it
stores holds the alert. -/
theorem posted_accepted (h : Reachable host C s) {th : Thread Op Op.Ans Exn Out Task}
    (hth : s.threads[i]? = some th) (htask : th.task = posted host dumps pyStr alert replaySource)
    (hfaultless : Faultless th.log) :
    ShiftAlertMirror.contract.load alert.toDict = some alert.mirror ∧
    (∀ r, th.result = some r → ∃ response, r = .ok (.response response) ∧
      response.statusCode = 202) ∧
    (th.live = true → ∃ s' th' response, Reach (machine host).step s (Succeeds i) s' ∧
      s'.threads[i]? = some th' ∧ th'.result = some (.ok (.response response)) ∧
      response.statusCode = 202) ∧
    ∀ en ∈ th.log, ∀ envelope ∈ en.op.upserts, ∃ ingested,
      IngestedAlert.contract.load envelope.payload = some ingested ∧
      ingested.shiftAlert = alert.mirror := by
  refine ⟨alert.load_toDict, fun r hr => delivery_ended h hth htask hfaultless hr, ?_, ?_⟩
  · intro hlive
    obtain ⟨task, log, p, live⟩ := th
    obtain rfl : task = _ := htask
    obtain rfl : live = true := hlive
    exact delivery_continues h hth hfaultless
  · intro en hen envelope henvelope
    obtain ⟨l, l', -, hdelivers⟩ := (delivers h hth).mem hen
    obtain ⟨op, r⟩ := en
    cases op with
    | tx x =>
      cases x with
      | upsertMessage envelope' =>
        obtain rfl := Option.some.inj henvelope
        exact (hdelivers htask).2
      | _ => cases henvelope
    | _ => cases henvelope

end Delivery

namespace Sample

/-- A researcher that asks for a token and a signature. -/
def guarded : Host :=
  { hmacSha256 := fun _ _ => "5f2b", schemaVersion := "v1"
    cfg := { queue := ⟨60, 3, 30⟩
             researcher := { webhookBearerToken := "token-123", webhookHmacSecret := "secret" } } }

def lookback : BeforeStateWindow :=
  ⟨1800, some (1/2), some (11/20), some 10, some (11/20), some (1/2), some 10, some 1, 12,
    some (1/50)⟩

def shift : ShiftAlert :=
  { alertId := "a1", alertLevel := "trend", alertLevelLabel := "Decisive Shift"
    timestampIso := "1970-01-01T00:00:03+00:00", timestampMs := 3000
    market := [(.other "asset_id", str "asset-1")], shift := ⟨"up", 10, 10, 1/2, 11/20, 11/20, 300, 12⟩
    signalQuality := ⟨"midpoint_book", some (27/50), none, some (1/50), some 1, "high", "strong"⟩
    beforeState := some ⟨lookback, { lookback with windowSec := 3600, avgSpread := none },
      ⟨4, some 2, some 2, some (1/50), none, none⟩, "trend_acceleration"⟩ }

/-- The delivery of the alert; the printed bytes do not matter. -/
def post : Task := posted guarded (fun _ => []) (fun _ => "") shift none

/-- The delivery is made and answered. -/
def answered : State := run guarded (.start post :: calls 0 7)

end Sample

theorem posted_accepted_guarded : ∃ th ∈ Sample.answered.threads[0]?, th.log.length = 7 ∧
    ShiftAlertMirror.contract.load Sample.shift.toDict = some Sample.shift.mirror ∧
    (∀ r, th.result = some r → ∃ response, r = .ok (.response response) ∧
      response.statusCode = 202) ∧
    (th.live = true → ∃ s' th' response,
      Reach (machine Sample.guarded).step Sample.answered (Succeeds 0) s' ∧
      s'.threads[0]? = some th' ∧ th'.result = some (.ok (.response response)) ∧
      response.statusCode = 202) ∧
    ∀ en ∈ th.log, ∀ envelope ∈ en.op.upserts, ∃ ingested,
      IngestedAlert.contract.load envelope.payload = some ingested ∧
      ingested.shiftAlert = Sample.shift.mirror := by
  have htasks : Sample.answered.tasks[0]? = some Sample.post := by
    rw [Sample.answered, run, tasks_foldl]
    rfl
  obtain ⟨th, hth, htask⟩ : ∃ th, Sample.answered.threads[0]? = some th ∧ th.task = Sample.post := by
    rw [Sys.tasks, List.getElem?_map, Option.map_eq_some_iff] at htasks
    exact htasks
  have hlog : ∀ th ∈ Sample.answered.threads[0]?, th.log.length = 7 ∧ Faultless th.log := by
    decide +kernel
  exact ⟨th, hth, (hlog th hth).1, posted_accepted (reachable_run _ _) hth htask (hlog th hth).2⟩

example : Delivered Sample.answered (lit "a1") := by decide +kernel

end Sentinel.Pipeline
