import DnsResolver.Engine.Response
import DnsResolver.Recursor.Upstream
import DnsResolver.Dnssec.Validator

/-!
# Client queries (`query.rs`, `resolve.rs`, `preload_domains` of `main.rs`)

The rate limiter and the geo layer decide before the resolver does; they are the fields
`checkQuery`, `geoAuthoritative` and `geoAnswer` of `Server`.  `recursor.resolve` and the clock
are those of the validator (`Env`), functions of the tick.

* `processDnsQuery`        one query: the cache, else resolution and validation, then enforcement;
* `resolveAndValidate`     resolution, validation and the cache insert of the miss path;
* `revalidate`             the task a stale hit leaves behind;
* `Op`, `run`              the operations of a server process, one after the other.

`AppState.served` is a trace, for the proofs only: what each successful response was made from.
-/

namespace DnsResolver

/-! ## configuration and state -/

inductive Protocol where
  | UDP
  | TCP
  | DoT
  | DoH
  | DoH3
  | DoQ
  deriving DecidableEq

inductive RrlAction where
  | Allow
  | Truncate
  | Drop
  deriving DecidableEq

inductive ProcessOutcome where
  | Success (wire : Bytes)
  | ServFail (wire : Bytes)
  | Truncated (wire : Bytes)
  | Dropped
  | Malformed
  deriving DecidableEq

/-- what a server depends on and does not change -/
structure Server where
  env : Env
  codec : Codec
  dnssecEnforce : Bool := true
  /-- `cache_config().enabled` -/
  cacheEnabled : Bool := true
  maxStaleSecs : Nat := 300
  /-- `rate_limiter.check_query` -/
  checkQuery : Nat → Protocol → IpAddr → Name → RecordType → RrlAction
  /-- geo is enabled and authoritative for the name -/
  geoAuthoritative : Name → Bool
  /-- `geo::authoritative::answer` -/
  geoAnswer : Nat → Name → RecordType → IpAddr → Message → Bool → ProcessOutcome

/-- `Resolved` of `resolve.rs` -/
structure Validated where
  msg : Message
  status : DnssecStatus
  cachedAt : Nat

/-- what a response was made from -/
inductive Source where
  | cached (entry : CacheEntry)
  | resolved (r : Validated)

def Source.status : Source → DnssecStatus
  | .cached entry => entry.dnssecStatus
  | .resolved r => r.status

structure Served where
  client : ClientView
  qname : Name
  qtype : RecordType
  source : Source
  response : Message

/-- a stale revalidation that is under way -/
structure Revalidation where
  key : CacheKey
  name : Name
  qtype : RecordType

abbrev AnswerCache := CacheKey → Option CacheEntry

structure AppState where
  dns : State := {}
  cache : AnswerCache := fun _ => none
  inFlight : List Revalidation := []
  /-- the cache file -/
  disk : AnswerCache := fun _ => none
  served : List Served := []

namespace AppState

def next (st : AppState) : AppState := { st with dns := st.dns.next }

def insert (st : AppState) (key : CacheKey) (entry : CacheEntry) : AppState :=
  { st with cache := Function.update st.cache key (some entry) }

end AppState

/-! ## queries -/

structure ParsedDnsQuery where
  client : ClientView
  query : Query
  cacheKey : CacheKey
  ecsNet : Option IpAddr

/-- the first `k` of `w` bits -/
def maskBits (w k n : Nat) : Nat := n >>> (w - k) <<< (w - k)

/-- `mask_addr` -/
def maskAddr (addr : IpAddr) (sourceLen : UInt8) : Option IpAddr :=
  let len := sourceLen.toNat
  match addr with
  | .V4 v4 =>
    if len = 0 ∨ 32 < len then none
    else
      some (.V4 ⟨Vector.ofFn fun i =>
        (maskBits 8 (min 8 (len - 8 * i)) (v4.octets.get i).toNat).toUInt8⟩)
  | .V6 v6 =>
    if len = 0 ∨ 128 < len then none
    else
      some (.V6 ⟨Vector.ofFn fun i =>
        (maskBits 16 (min 16 (len - 16 * i)) (v6.segments.get i).toNat).toUInt16⟩)

/-- `parse_and_validate_query` -/
def parseAndValidateQuery (codec : Codec) (reqWire : Bytes) :
    Except ProcessOutcome ParsedDnsQuery :=
  match codec.read reqWire with
  | none => .error .Malformed
  | some reqMsg =>
    match reqMsg.queries with
    | [query] =>
      let cacheKey := canonicalCacheKey codec query.name query.queryType
      match reqMsg.edns with
      | some e =>
        .ok { client := ⟨reqMsg, max 512 (min e.maxPayload.toNat 1232), e.dnssecOk⟩
              query := query
              cacheKey := cacheKey
              ecsNet := e.subnet.bind fun s => maskAddr s.1 s.2 }
      | none => .ok ⟨⟨reqMsg, 512, false⟩, query, cacheKey, none⟩
    | _ => .error .Malformed

theorem parseAndValidateQuery_key {codec : Codec} {reqWire : Bytes} {p : ParsedDnsQuery}
    (h : parseAndValidateQuery codec reqWire = .ok p) :
    p.cacheKey = canonicalCacheKey codec p.query.name p.query.queryType := by
  unfold parseAndValidateQuery at h
  split at h
  · cases h
  · split at h
    · dsimp only at h
      split at h
      · obtain rfl := Except.ok.inj h
        rfl
      · obtain rfl := Except.ok.inj h
        rfl
    · cases h

def IpAddr.isLoopback : IpAddr → Bool
  | .V4 v4 => v4.isLoopback
  | .V6 v6 => v6.isLoopback

/-- `should_challenge_large_response` -/
def shouldChallengeLargeResponse (protocol : Protocol) (clientIp : IpAddr)
    (respBytes clientMaxPayload : Nat) : Bool :=
  if decide (protocol ≠ .UDP) || clientIp.isLoopback then false
  else decide (clientMaxPayload < respBytes)

/-! ## resolution and validation -/

/-- the header of a message that was validated -/
def stamp (status : DnssecStatus) (msg : Message) : Message :=
  { msg with
    authenticData := decide (status = .Secure)
    authoritative := false
    recursionAvailable := true }

/-- `EntryKind` of a message -/
def entryKind (msg : Message) : EntryKind :=
  if decide (msg.responseCode = .NXDomain) ||
      (decide (msg.responseCode = .NoError) && msg.answers.isEmpty) then .Negative
  else .Positive

/-- a message enters the cache if it can be encoded and has a lifetime -/
def cacheMessage (srv : Server) (key : CacheKey) (msg : Message) (status : DnssecStatus)
    (now : Nat) (st : AppState) : AppState :=
  match srv.codec.toBytes msg with
  | none => st
  | some wire =>
    let ttl := calculateCacheTtl msg status now
    if 0 < ttl then
      st.insert key
        { rawWire := wire
          minTtl := ttl
          cachedAt := now
          lastRevalidatedAt := now
          dnssecStatus := status
          kind := entryKind msg }
    else st

/-- a resolution and the verdict on it -/
def resolveMessage (srv : Server) (qname : Name) (qtype : RecordType) (st : AppState) :
    Except RecursorError (Message × DnssecStatus) × AppState :=
  match srv.env.resolve st.dns.tick qname qtype with
  | .error e => (.error e, st.next)
  | .ok msg =>
    let (status, dns) := validateMessage srv.env msg qname qtype st.dns.next
    (.ok (msg, status), { st with dns := dns })

/-- `resolve_and_validate` -/
def resolveAndValidate (srv : Server) (qname : Name) (qtype : RecordType) (st : AppState) :
    Except RecursorError Validated × AppState :=
  match resolveMessage srv qname qtype st with
  | (.error e, st) => (.error e, st)
  | (.ok (msg, status), st) =>
    let respMsg := stamp status msg
    let now := srv.env.nowSecs st.dns.tick
    let result : Validated := ⟨respMsg, status, now⟩
    if srv.cacheEnabled && isCacheable respMsg && isCacheableDnssec status then
      (.ok result,
        cacheMessage srv (canonicalCacheKey srv.codec qname qtype) respMsg status now st.next)
    else (.ok result, st.next)

def revalidateTask (srv : Server) (t : Revalidation) (st : AppState) : AppState :=
  match resolveMessage srv t.name t.qtype st with
  | (.error _, st) => st
  | (.ok (msg, status), st) =>
    if status = .Bogus then st
    else if isCacheable msg && isCacheableDnssec status then
      cacheMessage srv t.key (stamp status msg) status (srv.env.nowSecs st.dns.tick) st.next
    else
      match st.cache t.key with
      | some existing =>
        st.next.insert t.key { existing with lastRevalidatedAt := srv.env.nowSecs st.dns.tick }
      | none => st

/-- one revalidation that is under way ends -/
def revalidate (srv : Server) (i : Nat) (st : AppState) : AppState :=
  match st.inFlight[i]? with
  | none => st
  | some t => revalidateTask srv t { st with inFlight := st.inFlight.eraseIdx i }

/-- `preload_domains` on one name and type -/
def preload (srv : Server) (name : Name) (qtype : RecordType) (st : AppState) : AppState :=
  let key := canonicalCacheKey srv.codec name qtype
  if (st.cache key).isSome then st
  else
    match srv.env.resolve st.dns.tick name qtype with
    | .error _ => st.next
    | .ok msg =>
      if isCacheable msg then
        let (status, dns) := validateMessage srv.env msg name qtype st.dns.next
        let st := { st with dns := dns }
        if status = .Bogus ∨ status = .InsecureUnknown then st
        else
          let msg := { stamp status msg with
            id := 0
            recursionDesired := false
            checkingDisabled := false }
          cacheMessage srv key msg status (srv.env.nowSecs st.dns.tick) st.next
      else st.next

/-! ## one client query -/

/-- a response that was built, or `TC=1` if it is too large for the client -/
def respond (srv : Server) (protocol : Protocol) (clientIp : IpAddr) (p : ParsedDnsQuery)
    (source : Source) (response : Message) (wire : Bytes) (st : AppState) :
    ProcessOutcome × AppState :=
  if shouldChallengeLargeResponse protocol clientIp wire.length p.client.maxPayload then
    (.Truncated (makeTruncatedWire srv.codec p.client.reqMsg.id [p.query]), st)
  else
    (.Success wire,
      { st with
        served := st.served ++ [⟨p.client, p.query.name, p.query.queryType, source, response⟩] })

def servFail (srv : Server) (p : ParsedDnsQuery) : ProcessOutcome :=
  .ServFail (makeServfailWire srv.codec p.client.reqMsg.id [p.query])

/-- a stale hit leaves a revalidation behind, unless one is under way for its key -/
def spawnRevalidation (p : ParsedDnsQuery) (st : AppState) : AppState :=
  if st.inFlight.any fun t => decide (t.key = p.cacheKey) then st
  else { st with inFlight := st.inFlight ++ [⟨p.cacheKey, p.query.name, p.query.queryType⟩] }

/-- the cache hit path; `none` if the query has to be resolved -/
def serveCached (srv : Server) (protocol : Protocol) (clientIp : IpAddr) (p : ParsedDnsQuery)
    (now : Nat) (st : AppState) : Option ProcessOutcome × AppState :=
  if !srv.cacheEnabled then (none, st)
  else
    match st.cache p.cacheKey with
    | none => (none, st)
    | some entry =>
      let freshness := entry.freshnessAt now srv.maxStaleSecs
      if freshness = .Expired then (none, st)
      else
        let st := if freshness = .Stale then spawnRevalidation p st else st
        match srv.codec.read entry.rawWire with
        | none => (none, st)
        | some cachedMsg =>
          let response := clientResponse cachedMsg p.query.queryType entry.dnssecStatus freshness
            entry.cachedAt p.client now
          match constructClientResponse srv.codec cachedMsg p.query.queryType entry.dnssecStatus
            freshness entry.cachedAt p.client now with
          | none => (none, st)
          | some wire =>
            let (outcome, st) := respond srv protocol clientIp p (.cached entry) response wire st
            (some outcome, st)

def serveResolved (srv : Server) (protocol : Protocol) (clientIp : IpAddr) (p : ParsedDnsQuery)
    (now : Nat) (st : AppState) : ProcessOutcome × AppState :=
  match resolveAndValidate srv p.query.name p.query.queryType st with
  | (.error _, st) => (servFail srv p, st)
  | (.ok r, st) =>
    if decide (r.status = .Bogus) && srv.dnssecEnforce && !p.client.reqMsg.checkingDisabled then
      (servFail srv p, st)
    else
      let response := clientResponse r.msg p.query.queryType r.status .Fresh r.cachedAt p.client now
      match constructClientResponse srv.codec r.msg p.query.queryType r.status .Fresh r.cachedAt
        p.client now with
      | none => (servFail srv p, st)
      | some wire => respond srv protocol clientIp p (.resolved r) response wire st

/-- `process_dns_query` -/
def processDnsQuery (srv : Server) (reqWire : Bytes) (protocol : Protocol) (clientIp : IpAddr)
    (st : AppState) : ProcessOutcome × AppState :=
  match parseAndValidateQuery srv.codec reqWire with
  | .error outcome => (outcome, st)
  | .ok p =>
    match srv.checkQuery st.dns.tick protocol clientIp p.query.name p.query.queryType with
    | .Truncate => (.Truncated (makeTruncatedWire srv.codec p.client.reqMsg.id [p.query]), st.next)
    | .Drop => (.Dropped, st.next)
    | .Allow =>
      let st := st.next
      if srv.geoAuthoritative p.query.name then
        (srv.geoAnswer st.dns.tick p.query.name p.query.queryType (p.ecsNet.getD clientIp)
          p.client.reqMsg p.client.dnssecOk, st.next)
      else
        let now := srv.env.nowSecs st.dns.tick
        match serveCached srv protocol clientIp p now st.next with
        | (some outcome, st) => (outcome, st)
        | (none, st) => serveResolved srv protocol clientIp p now st

/-! ## the server process -/

/-- the entries of a cache that have not expired -/
def liveEntries (srv : Server) (now : Nat) (cache : AnswerCache) : AnswerCache := fun key =>
  (cache key).filter fun entry => decide (entry.freshnessAt now srv.maxStaleSecs ≠ .Expired)

inductive Op where
  | query (reqWire : Bytes) (protocol : Protocol) (clientIp : IpAddr)
  /-- the `i`-th revalidation under way ends -/
  | revalidate (i : Nat)
  | prefetch (name : Name) (qtype : RecordType)
  | preload (name : Name) (qtype : RecordType)
  /-- the cache drops an entry -/
  | evict (key : CacheKey)
  /-- `save_cache_to_disk_sync` -/
  | save
  /-- the process ends and another one starts with the cache file -/
  | restart

def step (srv : Server) (st : AppState) : Op → AppState
  | .query reqWire protocol clientIp => (processDnsQuery srv reqWire protocol clientIp st).2
  | .revalidate i => revalidate srv i st
  | .prefetch name qtype => (resolveAndValidate srv name qtype st).2
  | .preload name qtype => preload srv name qtype st
  | .evict key => { st with cache := Function.update st.cache key none }
  | .save => { st.next with disk := liveEntries srv (srv.env.nowSecs st.dns.tick) st.cache }
  | .restart =>
    { st.next with
      dns := { st.dns.next with
        keyTrustCache := fun _ => none
        signedZoneCache := fun _ => none }
      cache := liveEntries srv (srv.env.nowSecs st.dns.tick) st.disk
      inFlight := [] }

def run (srv : Server) (ops : List Op) (st : AppState) : AppState := ops.foldl (step srv) st

end DnsResolver
