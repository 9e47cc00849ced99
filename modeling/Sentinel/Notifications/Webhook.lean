import Sentinel.Processing.Alerts

/-!
# The webhook notifier

The request of `HttpJsonWebhookNotifier`: the alert as JSON, and the headers about it.
-/

namespace Sentinel.Notifications

open Contracts Processing

namespace HttpJsonWebhookNotifier

/-- `pyStr` is `str` of a value of the market map, `hmacSha256` the digest of some bytes under a
secret, in hexadecimal. -/
def buildHeaders (pyStr : JsonValue → String) (hmacSha256 : String → List UInt8 → String)
    (bearerToken hmacSecret : String) (alert : ShiftAlert) (data : List UInt8) :
    List (String × String) :=
  let eventSlug := pyStr (JsonValue.orElse (alert.market.lookup (.other "event_slug")) (str ""))
  [("Content-Type", "application/json"), ("User-Agent", "polymarket-sentinel/0.1.0"),
    ("X-Sentinel-Alert-Id", alert.alertId), ("X-Sentinel-Alert-Level", alert.alertLevel),
    ("X-Sentinel-Timestamp-Ms", toString alert.timestampMs)] ++
  (if eventSlug ≠ "" then [("X-Sentinel-Event-Slug", eventSlug)] else []) ++
  (if bearerToken ≠ "" then [("Authorization", "Bearer " ++ bearerToken)] else []) ++
  (if hmacSecret ≠ "" then
    [("X-Sentinel-Signature", "sha256=" ++ hmacSha256 hmacSecret data)] else [])

end HttpJsonWebhookNotifier

end Sentinel.Notifications
