import DnsResolver.Dnssec.State

/-!
# Cache entries and client responses (`cache.rs`, `response.rs`)

hickory's encoder and decoder are the fields of `Codec`.

* `CacheEntry.freshnessAt`     fresh, stale or expired;
* `calculateCacheTtl`          how long a message may be cached;
* `clientResponse`             the response to one client, made from the shared message: `AD`, TTL
                               aging, DNSSEC records only if asked for.
-/

namespace DnsResolver

/-- wire form of messages and text of record types -/
structure Codec where
  /-- `Message::to_bytes` -/
  toBytes : Message → Option Bytes
  /-- `Message::read` -/
  read : Bytes → Option Message
  /-- the text of a record type -/
  typeText : RecordType → Bytes

/-! ## cache entries -/

def staleServeTtl : UInt32 := 30

inductive CacheFreshness where
  | Fresh
  | Stale
  | Expired
  deriving DecidableEq

inductive EntryKind where
  | Positive
  | Negative
  deriving DecidableEq

structure CacheEntry where
  rawWire : Bytes
  minTtl : UInt32
  cachedAt : Nat
  lastRevalidatedAt : Nat
  dnssecStatus : DnssecStatus
  kind : EntryKind

/-- `CacheEntry::freshness_at` -/
def CacheEntry.freshnessAt (entry : CacheEntry) (now maxStale : Nat) : CacheFreshness :=
  let age := now - entry.cachedAt
  if age < entry.minTtl.toNat then .Fresh
  else if age < entry.minTtl.toNat + maxStale then .Stale
  else .Expired

/-- the key of the answer cache, `name:TYPE:IN` in lower case; the class is not part of it -/
structure CacheKey where
  name : ZoneKey
  qtype : Bytes
  deriving DecidableEq

/-- `canonical_cache_key` -/
def canonicalCacheKey (codec : Codec) (qname : Name) (qtype : RecordType) : CacheKey :=
  ⟨qname.fold, codec.typeText qtype⟩

/-! ## what may be cached, and for how long -/

/-- `is_cacheable` -/
def isCacheable (msg : Message) : Bool :=
  decide (msg.responseCode = .NoError) || decide (msg.responseCode = .NXDomain)

/-- `is_cacheable_dnssec` -/
def isCacheableDnssec (status : DnssecStatus) : Bool :=
  decide (status = .Secure) || decide (status = .InsecureUnsigned)

/-- `is_dnssec_record` -/
def isDnssecRecord (t : RecordType) : Bool := decide (t ∈ [.RRSIG, .NSEC, .NSEC3])

/-- the shortest remaining validity of the RRSIGs, `none` if one of them has expired -/
def minRrsigValidity (now32 : UInt32) : List Record → UInt32 → Option UInt32
  | [], least => some least
  | r :: rest, least =>
    match r.data with
    | .rrsig sig =>
      let diff := sig.sigExpiration - now32
      if 0 < diff ∧ diff < 0x80000000 then
        minRrsigValidity now32 rest (if diff < least then diff else least)
      else none
    | _ => minRrsigValidity now32 rest least

/-- `calculate_cache_ttl` -/
def calculateCacheTtl (msg : Message) (status : DnssecStatus) (now : Nat) : UInt32 :=
  let ttl := calculateMinTtl msg
  if status = .Secure then
    match minRrsigValidity (UInt32.ofNat now) (msg.answers ++ msg.nameServers) 0xFFFFFFFF with
    | none => 0
    | some least => if least ≠ 0xFFFFFFFF ∧ least < ttl then least else ttl
  else ttl

/-! ## responses -/

/-- how a client asked -/
structure ClientView where
  reqMsg : Message
  maxPayload : Nat
  dnssecOk : Bool

def computeTtl (freshness : CacheFreshness) (age origTtl : UInt32) : UInt32 :=
  match freshness with
  | .Fresh => if age < origTtl then origTtl - age else 0
  | .Stale => staleServeTtl
  | .Expired => 0

/-- the records of a section a client sees -/
def presentSection (qtype : RecordType) (dnssecOk : Bool) (freshness : CacheFreshness)
    (age : UInt32) (records : List Record) : List Record :=
  (records.filter fun r =>
      !(!dnssecOk && isDnssecRecord r.recordType && decide (r.recordType ≠ qtype))).map
    fun r => { r with ttl := computeTtl freshness age r.ttl }

/-- the message `construct_client_response` encodes -/
def clientResponse (baseMsg : Message) (qtype : RecordType) (status : DnssecStatus)
    (freshness : CacheFreshness) (cachedAt : Nat) (client : ClientView) (now : Nat) : Message :=
  let age := UInt32.ofNat (now - cachedAt)
  let clientWantsAd := client.dnssecOk || client.reqMsg.authenticData
  { id := client.reqMsg.id
    messageType := .Response
    opCode := client.reqMsg.opCode
    authoritative := false
    truncated := false
    recursionAvailable := true
    recursionDesired := client.reqMsg.recursionDesired
    checkingDisabled := client.reqMsg.checkingDisabled
    responseCode := baseMsg.responseCode
    queries := client.reqMsg.queries
    authenticData := decide (status = .Secure) && decide (freshness = .Fresh) && clientWantsAd &&
      !client.reqMsg.checkingDisabled
    answers := presentSection qtype client.dnssecOk freshness age baseMsg.answers
    nameServers := presentSection qtype client.dnssecOk freshness age baseMsg.nameServers
    additionals := presentSection qtype client.dnssecOk freshness age
      (baseMsg.additionals.filter fun r => decide (r.recordType ≠ .OPT))
    edns := client.reqMsg.edns.map fun _ =>
      { maxPayload := client.maxPayload.toUInt16, dnssecOk := client.dnssecOk, version := 0 } }

/-- `construct_client_response` -/
def constructClientResponse (codec : Codec) (baseMsg : Message) (qtype : RecordType)
    (status : DnssecStatus) (freshness : CacheFreshness) (cachedAt : Nat) (client : ClientView)
    (now : Nat) : Option Bytes :=
  codec.toBytes (clientResponse baseMsg qtype status freshness cachedAt client now)

/-- `make_truncated_wire` -/
def makeTruncatedWire (codec : Codec) (id : UInt16) (queries : List Query) : Bytes :=
  (codec.toBytes
    { id := id, messageType := .Response, truncated := true, recursionAvailable := true,
      queries := queries }).getD []

/-- `make_servfail_wire` -/
def makeServfailWire (codec : Codec) (id : UInt16) (queries : List Query) : Bytes :=
  (codec.toBytes
    { id := id, messageType := .Response, responseCode := .ServFail, recursionAvailable := true,
      queries := queries }).getD []

/-- a response with `AD` is made from a fresh secure result, for a client that wants it checked -/
theorem clientResponse_authenticData {baseMsg : Message} {qtype : RecordType}
    {status : DnssecStatus} {freshness : CacheFreshness} {cachedAt now : Nat} {client : ClientView}
    (h : (clientResponse baseMsg qtype status freshness cachedAt client now).authenticData = true) :
    status = .Secure ∧ freshness = .Fresh ∧ client.reqMsg.checkingDisabled = false := by
  simp only [clientResponse, Bool.and_eq_true, decide_eq_true_eq, Bool.not_eq_true'] at h
  exact ⟨h.1.1.1, h.1.1.2, h.2⟩

end DnsResolver
