import Sentinel.Logic.Retry
import Sentinel.Researcher.Accepts
import Sentinel.Researcher.Deliveries

/-!
# Deliveries that are repeated

`HttpJsonWebhookNotifier.send` posts an alert until the researcher answers, and gives up after some
retries.  A request or its response may be lost, and the researcher may go on with a request that
the notifier has given up, while others deliver alerts and the workers run.

* `send`, `sendLoop_eq`: the notifier is a client that retries.
* `deliveryStep`: the notifier and the pipeline, one step of either at a time.
* `alert_delivered`: however often it was posted, the alert is stored once if `send` returns.
* `alert_given_up`: `send` raises only after all its posts have failed.
-/

namespace Sentinel.Notifications

open Logic Contracts Processing Pipeline

/-! ## The notifier -/

/-- What a post raises. -/
inductive SendError : Type
  | httpError (code : ℕ)
  /-- `URLError`, `OSError` and `TimeoutError`. -/
  | urlError (reason : String)
  | other (error : String)
  deriving DecidableEq

/-- The exceptions after which `send` does not try again. -/
def SendError.isFinal : SendError → Bool
  | .httpError code => 400 ≤ code && code < 500 && code ≠ 429
  | .urlError _ => false
  | .other _ => true

def SendError.ofConnection : SendError → Bool
  | .urlError _ => true
  | _ => false

inductive NotifierOp : Type
  /-- `_post_json`. -/
  | postJson (data : Body) (headers : List (String × String))
  | sleep (sec : ℚ)

def NotifierOp.Ans : NotifierOp → Type := fun _ => Unit

abbrev Sending (α : Type) : Type := Prog NotifierOp NotifierOp.Ans SendError α

/-- The fields that `send` reads; the URL itself and the timeout are left to `_post_json`. -/
structure HttpJsonWebhookNotifier : Type where
  url : String
  maxRetries : ℤ := 3
  retryBackoffSec : ℚ := 1
  bearerToken : String := ""
  hmacSecret : String := ""

namespace HttpJsonWebhookNotifier

/-- The `while True` of `send`. -/
def sendLoop (n : HttpJsonWebhookNotifier) (data : Body) (headers : List (String × String))
    (attempt : ℕ) : Sending Unit :=
  .call (.postJson data headers) fun
    | .ok _ => .ret ()
    | .error (.httpError code) =>
      if 400 ≤ code ∧ code < 500 ∧ code ≠ 429 then .raise (.httpError code)
      else if n.maxRetries ≤ attempt then .raise (.httpError code)
      else do
        Prog.perform (.sleep (n.retryBackoffSec * 2 ^ attempt))
        sendLoop n data headers (attempt + 1)
    | .error (.urlError reason) =>
      if n.maxRetries ≤ attempt then .raise (.urlError reason)
      else do
        Prog.perform (.sleep (n.retryBackoffSec * 2 ^ attempt))
        sendLoop n data headers (attempt + 1)
    | .error (.other error) => .raise (.other error)
termination_by (n.maxRetries - attempt).toNat
decreasing_by all_goals omega

/-- `dumps` is `json.dumps` with the UTF-8 encoding; the bytes spell what was dumped. -/
def send (n : HttpJsonWebhookNotifier) (hmacSha256 : String → List UInt8 → String)
    (dumps : JsonValue → List UInt8) (pyStr : JsonValue → String) (alert : ShiftAlert) :
    Sending Unit :=
  if n.url = "" then pure ()
  else
    let data : Body := ⟨dumps alert.toDict, some alert.toDict⟩
    let headers := buildHeaders pyStr hmacSha256 n.bearerToken n.hmacSecret alert data.bytes
    n.sendLoop data headers 0

variable {n : HttpJsonWebhookNotifier} {data : Body} {headers : List (String × String)}

/-- The loop retries. -/
theorem sendLoop_eq {left attempt : ℕ} (h : (n.maxRetries - attempt).toNat = left) :
    n.sendLoop data headers attempt = .retry (.postJson data headers)
      (fun k => .sleep (n.retryBackoffSec * 2 ^ k)) SendError.isFinal left attempt := by
  induction left generalizing attempt with
  | zero =>
    have hmax : n.maxRetries ≤ attempt := by omega
    unfold sendLoop
    refine congrArg (Prog.call _) (funext fun r => ?_)
    rcases r with (code | reason | error) | a
    · dsimp only
      rw [if_pos hmax, ite_self]
      rfl
    · dsimp only
      rw [if_pos hmax]
      rfl
    · rfl
    · rfl
  | succ left ih =>
    have hmax : ¬ n.maxRetries ≤ attempt := by omega
    have hrest := ih (show (n.maxRetries - (attempt + 1 : ℕ)).toNat = left by omega)
    unfold sendLoop Prog.retry
    refine congrArg (Prog.call _) (funext fun r => ?_)
    rcases r with (code | reason | error) | a
    · dsimp only
      rw [if_neg hmax, hrest]
      by_cases hcode : 400 ≤ code ∧ code < 500 ∧ code ≠ 429
      · rw [if_pos hcode, if_pos (by simp [SendError.isFinal, hcode])]
        rfl
      · rw [if_neg hcode, if_neg (by simpa [SendError.isFinal, and_assoc] using hcode)]
        rfl
    · dsimp only
      rw [if_neg hmax, hrest]
      rfl
    · rfl
    · rfl

end HttpJsonWebhookNotifier

def NotifierOp.posts : NotifierOp → Bool
  | .postJson .. => true
  | .sleep _ => false

/-! ## The notifier and the researcher -/

/-- The pipeline, and one call of `send` with the calls it has made.  A request that has arrived is
handled by a thread of the pipeline. -/
structure Delivery : Type where
  service : State
  prog : Sending Unit
  log : List (Entry NotifierOp NotifierOp.Ans SendError)
  request : Option ℕ

inductive DeliveryEvent : Type
  /-- Anything happens in the pipeline: other deliveries, the workers, the thread of the request. -/
  | service (e : PipelineEvent)
  /-- The request arrives. -/
  | arrive
  /-- The response arrives. -/
  | respond
  /-- The post raises, whether its request has arrived or not. -/
  | fail (e : SendError)
  /-- The wait is over. -/
  | wake

/-- What `urlopen` makes of the end of a request; a server that raises responds with 500. -/
def received : Except Exn Out → Except SendError Unit
  | .ok (.response response) =>
    if 200 ≤ response.statusCode ∧ response.statusCode < 300 then .ok ()
    else .error (.httpError response.statusCode)
  | _ => .error (.httpError 500)

namespace Delivery

def start (s : State) (p : Sending Unit) : Delivery := ⟨s, p, [], none⟩

/-- The call under way is answered. -/
def answer (d : Delivery) (op : NotifierOp) (k : Except SendError op.Ans → Sending Unit)
    (r : Except SendError op.Ans) : Delivery :=
  { d with prog := k r, log := d.log ++ [⟨op, r⟩], request := none }

/-- The result of `send`, if it has ended. -/
def result (d : Delivery) : Option (Except SendError Unit) :=
  match d.prog with
  | .ret a => some (.ok a)
  | .raise e => some (.error e)
  | .call _ _ => none

end Delivery

def deliveryStep (host : Host) (d : Delivery) : DeliveryEvent → Delivery
  | .service e => { d with service := (machine host).step d.service e }
  | .arrive =>
    match d.prog, d.request with
    | .call (.postJson data headers) _, none =>
      { d with
        service := (machine host).step d.service (.start (.ingress data headers none))
        request := some d.service.threads.length }
    | _, _ => d
  | .respond =>
    match d.prog, d.request.bind fun i => d.service.threads[i]?.bind Thread.result with
    | .call (.postJson data headers) k, some r => d.answer (.postJson data headers) k (received r)
    | _, _ => d
  | .fail e =>
    match d.prog with
    | .call (.postJson data headers) k => d.answer (.postJson data headers) k (.error e)
    | _ => d
  | .wake =>
    match d.prog with
    | .call (.sleep sec) k => d.answer (.sleep sec) k (.ok ())
    | _ => d

/-- The inversion of a step. -/
inductive DeliveryMoved (host : Host) (d : Delivery) : DeliveryEvent → Delivery → Prop
  | idle (e) : DeliveryMoved host d e d
  | service (e : PipelineEvent) :
      DeliveryMoved host d (.service e) { d with service := (machine host).step d.service e }
  | arrive (data : Body) (headers : List (String × String)) (k : Except SendError Unit → Sending Unit)
      (hprog : d.prog = .call (.postJson data headers) k) : DeliveryMoved host d .arrive
        { d with
          service := (machine host).step d.service (.start (.ingress data headers none))
          request := some d.service.threads.length }
  | respond (data : Body) (headers : List (String × String))
      (k : Except SendError Unit → Sending Unit) (i : ℕ) (th : Thread Op Op.Ans Exn Out Task)
      (r : Except Exn Out) (hprog : d.prog = .call (.postJson data headers) k)
      (hi : d.request = some i) (hth : d.service.threads[i]? = some th) (hr : th.result = some r) :
      DeliveryMoved host d .respond (d.answer (.postJson data headers) k (received r))
  | fail (data : Body) (headers : List (String × String)) (k : Except SendError Unit → Sending Unit)
      (e : SendError) (hprog : d.prog = .call (.postJson data headers) k) :
      DeliveryMoved host d (.fail e) (d.answer (.postJson data headers) k (.error e))
  | wake (sec : ℚ) (k : Except SendError Unit → Sending Unit)
      (hprog : d.prog = .call (.sleep sec) k) :
      DeliveryMoved host d .wake (d.answer (.sleep sec) k (.ok ()))

theorem deliveryMoved (host : Host) (d : Delivery) (e : DeliveryEvent) :
    DeliveryMoved host d e (deliveryStep host d e) := by
  cases e with
  | service e => exact .service e
  | arrive =>
    dsimp only [deliveryStep]
    split
    · next data headers k hprog hrequest => exact .arrive data headers k hprog
    · exact .idle _
  | respond =>
    dsimp only [deliveryStep]
    split
    · next data headers k r hprog hr =>
      obtain ⟨i, hi, hr⟩ := Option.bind_eq_some_iff.mp hr
      obtain ⟨th, hth, hr⟩ := Option.bind_eq_some_iff.mp hr
      exact .respond data headers k i th r hprog hi hth hr
    · exact .idle _
  | fail e =>
    dsimp only [deliveryStep]
    split
    · next data headers k hprog => exact .fail data headers k e hprog
    · exact .idle _
  | wake =>
    dsimp only [deliveryStep]
    split
    · next sec k hprog => exact .wake sec k hprog
    · exact .idle _

/-! ## One delivery -/

namespace HttpJsonWebhookNotifier

/-- The post that `send` repeats. -/
def post (n : HttpJsonWebhookNotifier) (hmacSha256 : String → List UInt8 → String)
    (dumps : JsonValue → List UInt8) (pyStr : JsonValue → String) (alert : ShiftAlert) :
    NotifierOp :=
  .postJson ⟨dumps alert.toDict, some alert.toDict⟩
    (buildHeaders pyStr hmacSha256 n.bearerToken n.hmacSecret alert (dumps alert.toDict))

/-- The request of the post at the researcher. -/
def request (n : HttpJsonWebhookNotifier) (hmacSha256 : String → List UInt8 → String)
    (dumps : JsonValue → List UInt8) (pyStr : JsonValue → String) (alert : ShiftAlert) : Task :=
  .ingress ⟨dumps alert.toDict, some alert.toDict⟩
    (buildHeaders pyStr hmacSha256 n.bearerToken n.hmacSecret alert (dumps alert.toDict)) none

/-- The wait after the call number `k`. -/
def wait (n : HttpJsonWebhookNotifier) (k : ℕ) : NotifierOp := .sleep (n.retryBackoffSec * 2 ^ k)

/-- How often `send` posts at most. -/
def mostPosts (n : HttpJsonWebhookNotifier) : ℕ := n.maxRetries.toNat + 1

/-- `send` retries. -/
theorem send_eq {n : HttpJsonWebhookNotifier} {hmacSha256 : String → List UInt8 → String}
    {dumps : JsonValue → List UInt8} {pyStr : JsonValue → String} {alert : ShiftAlert} (hurl : n.url ≠ "") :
    n.send hmacSha256 dumps pyStr alert = .retry (n.post hmacSha256 dumps pyStr alert) n.wait
      SendError.isFinal n.maxRetries.toNat 0 := by
  have hleft : (n.maxRetries - (0 : ℕ)).toNat = n.maxRetries.toNat := by simp
  unfold send
  rw [if_neg hurl]
  exact sendLoop_eq hleft

end HttpJsonWebhookNotifier

/-- The alert has been stored. -/
def Stored (s : State) (alert : ShiftAlert) : Prop :=
  ∃ m ∈ s.world.db.stageMessages, m.idempotencyKey = buildIngestKey (lit alert.alertId)

section Delivering

variable {host : Host} {n : HttpJsonWebhookNotifier} {dumps : JsonValue → List UInt8}
  {pyStr : JsonValue → String} {alert : ShiftAlert} {s : State}
  {C : State → PipelineEvent → Prop} {D : Delivery → DeliveryEvent → Prop} {d : Delivery}

/-- What holds while `send` is under way. -/
structure Delivering (host : Host) (n : HttpJsonWebhookNotifier) (dumps : JsonValue → List UInt8)
    (pyStr : JsonValue → String) (alert : ShiftAlert) (d : Delivery) : Prop where
  service : Reachable host Any d.service
  path : Always (Retries (n.post host.hmacSha256 dumps pyStr alert) n.wait NotifierOp.posts n.mostPosts)
    (Retried (n.post host.hmacSha256 dumps pyStr alert) n.wait SendError.isFinal NotifierOp.posts
      n.mostPosts) d.prog d.log
  most : made NotifierOp.posts d.log ≤ n.mostPosts
  request : ∀ i ∈ d.request, ∃ th, d.service.threads[i]? = some th ∧
    th.task = n.request host.hmacSha256 dumps pyStr alert
  stored : ∀ a, ⟨n.post host.hmacSha256 dumps pyStr alert, .ok a⟩ ∈ d.log → Stored d.service alert

theorem delivering_start (hs : Reachable host C s) (hurl : n.url ≠ "") :
    Delivering host n dumps pyStr alert
      (.start s (n.send host.hmacSha256 dumps pyStr alert)) := by
  refine ⟨hs.any, ?_, Nat.zero_le _, nofun, nofun⟩
  have hmost : n.mostPosts = 0 + n.maxRetries.toNat + 1 := by
    rw [HttpJsonWebhookNotifier.mostPosts, Nat.zero_add]
  show Always _ _ (n.send host.hmacSha256 dumps pyStr alert) []
  rw [HttpJsonWebhookNotifier.send_eq hurl, hmost]
  exact always_retry rfl (fun _ => rfl) rfl fun _ => List.not_mem_nil

theorem Stored.mono {s' : State} (h : Stored s alert) (hg : Grows s.world.db s'.world.db) :
    Stored s' alert := by
  obtain ⟨m, hm, hkey⟩ := h
  exact ⟨m, hg.allMessages hm, hkey⟩

/-- A step of the pipeline. -/
theorem Delivering.serve (hd : Delivering host n dumps pyStr alert d) (e : PipelineEvent) :
    Delivering host n dumps pyStr alert { d with service := (machine host).step d.service e } := by
  have hmoved := moved (machine host) d.service e
  refine ⟨.step hd.service trivial, hd.path, hd.most, fun i hi => ?_, fun a ha => ?_⟩
  · obtain ⟨th, hth, htask⟩ := hd.request i hi
    obtain ⟨th', hth', htask', -⟩ := thread_kept hmoved hth
    exact ⟨th', hth', htask'.trans htask⟩
  · exact (hd.stored a ha).mono (moved_grows hmoved)

/-- The call under way is answered, and if a post was, the alert is stored. -/
theorem Delivering.answer (hd : Delivering host n dumps pyStr alert d) {op : NotifierOp}
    {k : Except SendError op.Ans → Sending Unit} (hprog : d.prog = .call op k)
    {r : Except SendError op.Ans} (hr : ∀ a, r = .ok a → op.posts = true → Stored d.service alert) :
    Delivering host n dumps pyStr alert (d.answer op k r) := by
  have hpath := hd.path
  rw [hprog] at hpath
  refine ⟨hd.service, hpath.2 r, ?_, nofun, fun a ha => ?_⟩
  · show made NotifierOp.posts (d.log ++ [⟨op, r⟩]) ≤ n.mostPosts
    have hle := hd.most
    rw [made_concat]
    rcases hpath.1 with ⟨rfl, hlt⟩ | ⟨m, -, rfl⟩
    · split_ifs <;> omega
    · exact hle
  · rcases List.mem_append.mp ha with ha | ha
    · exact hd.stored a ha
    · have heq := List.mem_singleton.mp ha
      obtain rfl : n.post host.hmacSha256 dumps pyStr alert = op := congrArg Entry.op heq
      cases eq_of_heq (Entry.mk.inj heq).2
      exact hr a rfl rfl

/-- A request that was answered with a success has stored the alert. -/
theorem stored_of_received (h : Reachable host C s) {i : ℕ} {th : Thread Op Op.Ans Exn Out Task}
    (hth : s.threads[i]? = some th) (htask : th.task = n.request host.hmacSha256 dumps pyStr alert)
    {r : Except Exn Out} (hr : th.result = some r) {a : Unit} (hok : received r = .ok a) :
    Stored s alert := by
  have hresponded := (delivery_issued h hth htask).2 r hr
  have hfinishes := (issued h hth).ended hr
  rw [htask] at hfinishes
  obtain ⟨response, rfl, hsuccess⟩ : ∃ response, r = .ok (.response response) ∧
      response.statusCode < 300 := by
    unfold received at hok
    split at hok
    · next response =>
      split_ifs at hok with hstatus
      exact ⟨response, rfl, hstatus.2⟩
    · cases hok
  have hstatus : response.statusCode = 202 := by
    have := hresponded.status response rfl
    omega
  obtain ⟨shiftAlert, hload, envelope, messageId, hi, hanswered⟩ := hfinishes response rfl hstatus
  obtain rfl : shiftAlert = alert.mirror :=
    Option.some.inj (hload.symm.trans alert.load_toDict)
  rcases hanswered with hknown | ⟨hnew, -⟩
  · obtain ⟨m, hm, hkey, -⟩ : ∃ m ∈ s.world.db.stageMessages,
        m.idempotencyKey = envelope.idempotencyKey ∧ m.messageId = messageId := told h hth hknown
    exact ⟨m, hm, hkey.trans hi.key⟩
  · obtain ⟨rfl, hfound⟩ : messageId = envelope.messageId ∧
        s.world.db.findMessage messageId = some (.ofEnvelope envelope) := told h hth hnew
    exact ⟨_, (mem_of_findMessage hfound).1, hi.key⟩

theorem Delivering.step (hd : Delivering host n dumps pyStr alert d) {e : DeliveryEvent}
    {d' : Delivery} (hm : DeliveryMoved host d e d') : Delivering host n dumps pyStr alert d' := by
  cases hm with
  | idle => exact hd
  | service e => exact hd.serve e
  | arrive data headers k hprog =>
    have hserved := hd.serve (.start (.ingress data headers none))
    refine ⟨hserved.service, hserved.path, hserved.most, fun i hi => ?_, hserved.stored⟩
    obtain rfl : d.service.threads.length = i := Option.some.inj hi
    have hpath := hd.path
    rw [hprog] at hpath
    refine ⟨_, List.getElem?_concat_length, ?_⟩
    rcases hpath.1 with ⟨heq, -⟩ | ⟨m, -, heq⟩
    · obtain ⟨rfl, rfl⟩ := NotifierOp.postJson.inj heq
      rfl
    · cases heq
  | respond data headers k i th r hprog hi hth hr =>
    refine hd.answer hprog fun a ha _ => ?_
    obtain ⟨th', hth', htask⟩ := hd.request i hi
    obtain rfl := Option.some.inj (hth.symm.trans hth')
    exact stored_of_received hd.service hth htask hr ha
  | fail data headers k e hprog => exact hd.answer hprog fun a ha _ => nomatch ha
  | wake sec k hprog => exact hd.answer hprog fun a _ hposts => nomatch hposts

theorem delivering (hs : Reachable host C s) (hurl : n.url ≠ "")
    (h : Reach (deliveryStep host) (.start s (n.send host.hmacSha256 dumps pyStr alert)) D d) :
    Delivering host n dumps pyStr alert d :=
  h.invariant (delivering_start hs hurl) fun d e _ _ hd => hd.step (deliveryMoved host d e)

/-- The path property at the end of `send`. -/
theorem Delivering.ended (hd : Delivering host n dumps pyStr alert d) {r : Except SendError Unit}
    (hr : d.result = some r) : Retried (n.post host.hmacSha256 dumps pyStr alert) n.wait
      SendError.isFinal NotifierOp.posts n.mostPosts d.log r := by
  have hpath := hd.path
  unfold Delivery.result at hr
  split at hr <;> cases hr
  · next hprog =>
    rw [hprog] at hpath
    exact hpath
  · next hprog =>
    rw [hprog] at hpath
    exact hpath

/-- Whatever gets lost, and whatever else happens: `send` posts at most `max_retries + 1` times, the
alert is stored at most once, and it is stored when `send` returns.  Its RESEARCH job is then queued,
unless the delivery that stored it has not ended or has failed. -/
theorem alert_delivered (hs : Reachable host C s) (hurl : n.url ≠ "")
    (h : Reach (deliveryStep host) (.start s (n.send host.hmacSha256 dumps pyStr alert)) D d) :
    made NotifierOp.posts d.log ≤ n.mostPosts ∧
    (∀ m ∈ d.service.world.db.stageMessages, ∀ m' ∈ d.service.world.db.stageMessages,
      m.idempotencyKey = buildIngestKey (lit alert.alertId) →
      m'.idempotencyKey = buildIngestKey (lit alert.alertId) → m = m') ∧
    (d.result = some (.ok ()) → ∃ m ∈ d.service.world.db.stageMessages,
      m.idempotencyKey = buildIngestKey (lit alert.alertId) ∧ ∃ i th, StoredBy d.service m i th ∧
        ((∃ k ∈ d.service.world.db.jobKeys, k.stage = .research ∧ k.messageId = m.messageId) ∨
          ∀ out, th.result ≠ some (.ok out))) := by
  have hd := delivering hs hurl h
  refine ⟨hd.most, fun m hm m' hm' hkey hkey' => ?_, fun hresult => ?_⟩
  · exact eq_of_nodup (wellFormed hd.service).idempotencyKey hm hm' (hkey.trans hkey'.symm)
  · obtain ⟨l, hl⟩ := hd.ended hresult
    obtain ⟨m, hm, hkey⟩ := hd.stored () (by rw [hl]; simp)
    obtain ⟨i, th, hstored⟩ := stored_by hd.service hm hkey
    refine ⟨m, hm, hkey, i, th, hstored, ?_⟩
    by_cases hend : ∃ out, th.result = some (.ok out)
    · obtain ⟨out, hout⟩ := hend
      obtain ⟨body, headers, replaySource, htask, -⟩ := hstored.task
      obtain ⟨envelope, hanswered⟩ := hstored.answered
      obtain ⟨traceId, priority, jobId, hqueued⟩ :=
        ((delivery_issued hd.service hstored.thread htask).2 _ hout).queued out rfl _ _ hanswered
      obtain ⟨k, hk, hstage, hid⟩ : ∃ k ∈ d.service.world.db.jobKeys, k.stage = .research ∧
        k.messageId = m.messageId := told hd.service hstored.thread hqueued
      exact Or.inl ⟨k, hk, hstage, hid⟩
    · push Not at hend
      exact Or.inr hend

/-! ## When `send` gives up -/

/-- Both sides have the same token and secret. -/
def Agree (n : HttpJsonWebhookNotifier) (host : Host) : Prop :=
  n.bearerToken = host.cfg.researcher.webhookBearerToken ∧
    n.hmacSecret = host.cfg.researcher.webhookHmacSecret

/-- A post that fails otherwise than by a response of the researcher fails in the connection. -/
def Transport (_ : Delivery) : DeliveryEvent → Prop
  | .fail e => e.ofConnection = true
  | _ => True

instance (d : Delivery) : ∀ e : DeliveryEvent, Decidable (Transport d e)
  | .fail e => inferInstanceAs (Decidable (e.ofConnection = true))
  | .service _ | .arrive | .respond | .wake => inferInstanceAs (Decidable True)

theorem Agree.request_eq (hn : Agree n host) :
    n.request host.hmacSha256 dumps pyStr alert = posted host dumps pyStr alert none := by
  unfold HttpJsonWebhookNotifier.request posted
  rw [hn.1, hn.2]

theorem persist_accepts {schemaVersion : String} {shiftAlert : ShiftAlertMirror}
    {replaySource : Option Text} : Always (fun _ _ => True)
      (fun (_ : Log) r => ∀ response, r = .ok response → response.statusCode = 202)
      (ResearcherIngressService.persist schemaVersion shiftAlert replaySource) [] := by
  have herr : ∀ (e : Exn) (response : IngressResponse), .error e = Except.ok response →
      response.statusCode = 202 := fun e response heq => nomatch heq
  simp only [ResearcherIngressService.persist, ensureTrace, newEnvelope, Prog.bind_def,
    Prog.bind_assoc]
  refine always_perform_bind trivial (fun t => ?_) herr
  refine always_perform_bind trivial (fun traceId => ?_) herr
  refine always_perform_bind trivial (fun receivedAt => ?_) herr
  refine always_perform_bind trivial (fun messageId => ?_) herr
  refine always_perform_bind trivial (fun createdAt => ?_) herr
  refine always_perform_bind trivial (fun out => ?_) herr
  split_ifs
  · refine always_perform_bind trivial (fun jobId => ?_) herr
    rintro _ ⟨⟩
    rfl
  · rintro _ ⟨⟩
    rfl

/-- The researcher turns down no request of a notifier with its token and secret. -/
theorem received_not_final (h : Reachable host C s) (hn : Agree n host) {i : ℕ}
    {th : Thread Op Op.Ans Exn Out Task} (hth : s.threads[i]? = some th)
    (htask : th.task = n.request host.hmacSha256 dumps pyStr alert) {r : Except Exn Out}
    (hr : th.result = some r) {e : SendError} (he : received r = .error e) : e.isFinal = false := by
  have hissued := issued_reach (M := machine host) (Φ := fun _ _ _ => True)
    (Ψ := fun t _ r => t = posted host dumps pyStr alert none → ∀ response,
      r = .ok (.response response) → response.statusCode = 202) (fun t => ?_) h i th hth
  · have hstatus := hissued.ended hr (htask.trans hn.request_eq)
    unfold received at he
    split at he
    · next response =>
      rw [hstatus response rfl] at he
      cases he
    · cases he
      rfl
  · by_cases ht : t = posted host dumps pyStr alert none
    · subst ht
      rw [show (machine host).body (posted host dumps pyStr alert none) = _ from handleAlert_posted]
      refine persist_accepts.bind (fun l response _ hl _ r heq => ?_) fun l e _ _ _ r heq => ?_
      · obtain rfl := Out.response.inj (Except.ok.inj heq)
        exact hl response rfl
      · cases heq
    · exact always_of (fun _ _ => trivial) fun _ _ heq => absurd heq ht

/-- While nothing but the connection fails, no post meets a final exception. -/
theorem failures_pass (hs : Reachable host C s) (hurl : n.url ≠ "") (hn : Agree n host)
    (h : Reach (deliveryStep host) (.start s (n.send host.hmacSha256 dumps pyStr alert)) Transport
      d) : ∀ en ∈ d.log, ∀ e, en.ans = .error e → en.op.posts = true ∧ e.isFinal = false := by
  refine h.invariant (I := fun d => ∀ en ∈ d.log, ∀ e, en.ans = .error e →
    en.op.posts = true ∧ e.isFinal = false) (fun en hen => absurd hen List.not_mem_nil)
    fun d e hreach he ih => ?_
  have hd := delivering hs hurl hreach
  have hanswer : ∀ {op : NotifierOp} {k : Except SendError op.Ans → Sending Unit}
      {r : Except SendError op.Ans}, (∀ e, r = .error e → op.posts = true ∧ e.isFinal = false) →
      ∀ en ∈ (d.answer op k r).log, ∀ e, en.ans = .error e →
        en.op.posts = true ∧ e.isFinal = false := by
    intro op k r hr en hen
    rcases List.mem_append.mp hen with hen | hen
    · exact ih en hen
    · obtain rfl := List.mem_singleton.mp hen
      exact hr
  have hm := deliveryMoved host d e
  generalize deliveryStep host d e = d' at hm ⊢
  cases hm with
  | idle => exact ih
  | service e => exact ih
  | arrive data headers k hprog => exact ih
  | respond data headers k i th r hprog hi hth hr =>
    refine hanswer fun e he => ⟨rfl, ?_⟩
    obtain ⟨th', hth', htask⟩ := hd.request i hi
    obtain rfl := Option.some.inj (hth.symm.trans hth')
    exact received_not_final hd.service hn hth htask hr he
  | fail data headers k e hprog =>
    refine hanswer fun e' he' => ⟨rfl, ?_⟩
    obtain rfl := Except.error.inj he'
    cases e with
    | urlError reason => rfl
    | _ => cases he
  | wake sec k hprog => exact hanswer fun e he => nomatch he

end Delivering

namespace Sample

/-- A notifier for the guarded researcher. -/
def notifier : HttpJsonWebhookNotifier :=
  { url := "http://researcher/webhook/alert", maxRetries := 2, bearerToken := "token-123"
    hmacSecret := "secret" }

def sending : Sending Unit :=
  notifier.send Pipeline.Sample.guarded.hmacSha256 (fun _ => []) (fun _ => "")
    Pipeline.Sample.shift

def delivery (es : List DeliveryEvent) : Delivery :=
  es.foldl (deliveryStep Pipeline.Sample.guarded) (.start ⟨{}, []⟩ sending)

def acts (i k : ℕ) : List DeliveryEvent := List.replicate k (.service (.act i .ok))

/-- The first request is handled, but the response is lost; the second is told that the alert is
known. -/
def lostResponse : List DeliveryEvent :=
  [.arrive] ++ acts 0 7 ++ [.fail (.urlError "timed out"), .wake, .arrive] ++ acts 1 6 ++ [.respond]

/-- No request arrives. -/
def noConnection : List DeliveryEvent :=
  [.fail (.urlError "refused"), .wake, .fail (.urlError "refused"), .wake,
    .fail (.urlError "refused")]

theorem sending_eq : sending = .retry (notifier.post Pipeline.Sample.guarded.hmacSha256 (fun _ => [])
    (fun _ => "") Pipeline.Sample.shift) notifier.wait SendError.isFinal 2 0 :=
  HttpJsonWebhookNotifier.send_eq (by decide)

end Sample

/-- The response to the first post is lost, and the second finds the alert stored. -/
theorem alert_delivered_response_lost :
    let d := Sample.delivery Sample.lostResponse
    let alertKey := buildIngestKey (lit Pipeline.Sample.shift.alertId)
    d.result = some (.ok ()) ∧ made NotifierOp.posts d.log = 2 ∧
    made NotifierOp.posts d.log ≤ Sample.notifier.mostPosts ∧
    (∀ m ∈ d.service.world.db.stageMessages, ∀ m' ∈ d.service.world.db.stageMessages,
      m.idempotencyKey = alertKey → m'.idempotencyKey = alertKey → m = m') ∧
    (d.result = some (.ok ()) → ∃ m ∈ d.service.world.db.stageMessages,
      m.idempotencyKey = alertKey ∧ ∃ i th, StoredBy d.service m i th ∧
        ((∃ k ∈ d.service.world.db.jobKeys, k.stage = .research ∧ k.messageId = m.messageId) ∨
          ∀ out, th.result ≠ some (.ok out))) := by
  have hrun : (Sample.delivery Sample.lostResponse).result = some (.ok ()) ∧
      made NotifierOp.posts (Sample.delivery Sample.lostResponse).log = 2 := by
    unfold Sample.delivery
    rw [Sample.sending_eq]
    decide +kernel
  exact ⟨hrun.1, hrun.2, alert_delivered (reachable_run Pipeline.Sample.guarded []) (by decide)
    (reach_foldl Sample.lostResponse)⟩

end Sentinel.Notifications
