import DnsResolver.Geo.Router
import DnsResolver.Dnssec.Crypto
import DnsResolver.Transports.Http

/-!
# The peer mesh (`geo/peer.rs`, the heartbeat receivers of `doh.rs` and `doh3.rs`)

A node posts signed heartbeats to the others.  HMAC and JSON are fields of `PeerCodec`.

The receivers read the clock twice: for the skew test, and again when the heartbeat is stored.

* `handlePeerHeartbeat`     the DoH receiver;
* `handleH3PeerHeartbeat`   the HTTP/3 receiver;
* `deliverAll`              a sequence of requests to either of them.
-/

namespace DnsResolver

structure HeartbeatPayload where
  node : String
  timestamp : UInt64
  healthy : Bool
  deriving DecidableEq

structure PeerCodec where
  /-- `hmac::verify` with the secret, on a payload and a tag -/
  hmacVerify : Bytes → Bytes → Bytes → Bool
  /-- `serde_json::from_slice` -/
  fromSlice : Bytes → Option HeartbeatPayload

/-! ## signatures -/

def PeerCodec.verify (codec : PeerCodec) (secret payload sigHex : Bytes) : Bool :=
  match hexDecode sigHex with
  | none => false
  | some sigBytes => codec.hmacVerify secret payload sigBytes

/-! ## the receivers -/

/-- `as i64` of a `u64` -/
def asI64 (n : Nat) : Int := if n < 2 ^ 63 then n else (n : Int) - 2 ^ 64

/-- `(now as i64 - timestamp as i64).unsigned_abs()`; `none` if the process aborts -/
def skewSecs (now : Nat) (timestamp : UInt64) : Option Nat :=
  let diff := asI64 now - asI64 timestamp.toNat
  if -2 ^ 63 ≤ diff ∧ diff < 2 ^ 63 then some diff.natAbs else none

/-- the end of both receivers: the body is parsed and its time compared -/
def checkPayload (codec : PeerCodec) (body : Bytes) (now : Nat) :
    Option (Except StatusCode HeartbeatPayload) :=
  match codec.fromSlice body with
  | none => some (.error .BadRequest)
  | some payload =>
    (skewSecs now payload.timestamp).map fun skew =>
      if 60 < skew then .error .BadRequest else .ok payload

/-- `handle_peer_heartbeat` up to `apply_peer_heartbeat` -/
def handlePeerHeartbeat (codec : PeerCodec) (config : GeoConfig) (sourceIp : IpAddr)
    (signature : Option Bytes) (body : Bytes) (now : Nat) :
    Option (Except StatusCode HeartbeatPayload) :=
  if !config.peerAllowedIps.contains sourceIp then some (.error .NotFound)
  else
    match signature with
    | none => some (.error .Unauthorized)
    | some sig =>
      if !codec.verify config.peerSecret body sig then some (.error .Unauthorized)
      else checkPayload codec body now

/-- the chunks of a body, up to the first that takes it over the limit -/
def recvBody : List Bytes → Bytes → Bytes
  | [], body => body
  | chunk :: chunks, body =>
    if 4096 < (body ++ chunk).length then body ++ chunk else recvBody chunks (body ++ chunk)

/-- the peer heartbeat branch of `handle_h3_request`, up to `apply_peer_heartbeat` -/
def handleH3PeerHeartbeat (codec : PeerCodec) (config : GeoConfig) (sourceIp : IpAddr)
    (signature : Option Bytes) (chunks : List Bytes) (now : Nat) :
    Option (Except StatusCode HeartbeatPayload) :=
  if !config.peerAllowedIps.contains sourceIp then some (.error .NotFound)
  else
    let body := recvBody chunks []
    match signature, config.peerSecret.isEmpty with
    | _, true => some (.error .NotFound)
    | none, false => some (.error .Unauthorized)
    | some sig, false =>
      if !codec.verify config.peerSecret body sig then some (.error .Unauthorized)
      else checkPayload codec body now

/-- `GeoState::apply_peer_heartbeat` -/
def GeoState.applyPeerHeartbeat (geo : GeoState) (payload : HeartbeatPayload) (now : Nat) :
    GeoState :=
  { geo with health := geo.health.update payload.node fun h =>
      h.applyPeerHeartbeat payload.healthy payload.timestamp now }

/-! ## deliveries -/

inductive Endpoint where
  | doh (body : Bytes)
  | h3 (chunks : List Bytes)

/-- one request and the two clock readings of its receiver; `SystemTime` counts seconds in an
`i64` -/
structure Delivery where
  sourceIp : IpAddr
  signature : Option Bytes
  endpoint : Endpoint
  checkedAt : Nat
  appliedAt : Nat
  checked_lt : checkedAt < 2 ^ 63

/-- what the receiver makes of the request: a status, or a heartbeat to store -/
def Delivery.received (codec : PeerCodec) (config : GeoConfig) (d : Delivery) :
    Option (Except StatusCode HeartbeatPayload) :=
  match d.endpoint with
  | .doh body => handlePeerHeartbeat codec config d.sourceIp d.signature body d.checkedAt
  | .h3 chunks => handleH3PeerHeartbeat codec config d.sourceIp d.signature chunks d.checkedAt

def deliver (codec : PeerCodec) (geo : GeoState) (d : Delivery) : Option (StatusCode × GeoState) :=
  (d.received codec geo.config).map fun
    | .error status => (status, geo)
    | .ok payload => (.NoContent, geo.applyPeerHeartbeat payload d.appliedAt)

/-- `none` if the process has aborted -/
def deliverAll (codec : PeerCodec) (ds : List Delivery) (geo : GeoState) : Option GeoState :=
  ds.foldlM (fun geo d => (deliver codec geo d).map Prod.snd) geo

end DnsResolver
