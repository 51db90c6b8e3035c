import Mathlib
import DnsResolver.Engine.Process
import DnsResolver.Recursor.DnameText

/-!
# Rate limiting (`ratelimit.rs`)

`check_query` reads and writes its buckets through atomics.  `CheckCall.step` does one of these
accesses, so calls that run at the same time are interleavings of such steps.

The release profile has `overflow-checks = true` and `panic = "abort"`: an `i64` operation that
leaves the range ends the process (`none`, and `LimiterState.aborted`).

* `NameText`       the text of a name in lower case, which a key holds;
* `Bucket`         the token bucket of a subnet;
* `CheckStage`     where a call stands, with its local variables;
* `Limiter.step`   a call arrives, a call goes one step on, or `cleanup` comes to a bucket.

`Bucket.created`, `latest` and `taken` are a trace, for the proofs only.
-/

namespace DnsResolver

/-! ## the text of a name -/

/-- the label begins with `xn--`, in either case -/
def Label.isIdna (l : Label) : Bool := (ascii "xn--").isPrefixOf (foldLabel l)

/-- no label that `Display` may decode; it decodes `xn--` and leaves `XN--` as it is -/
def Name.NoIdna (n : Name) : Prop := ∀ l ∈ n.labels, Label.isIdna l = false

instance (n : Name) : Decidable n.NoIdna :=
  inferInstanceAs (Decidable (∀ l ∈ n.labels, Label.isIdna l = false))

/-- `qname.to_string().to_lowercase()` -/
structure NameText where
  /-- `Name::to_string` -/
  text : Name → Bytes
  /-- `str::to_lowercase` -/
  toLowercase : Bytes → Bytes
  /-- names without an IDNA label share a text exactly if they are one name -/
  case_law : ∀ a b : Name, a.NoIdna → b.NoIdna →
    (toLowercase (text a) = toLowercase (text b) ↔ a.fold = b.fold)

def NameText.lower (tx : NameText) (n : Name) : Bytes := tx.toLowercase (tx.text n)

/-- the texts with escapes, no label decoded -/
def NameText.dotted : NameText where
  text := dottedText.text
  toLowercase := List.map lowerByte
  case_law := fun a b _ _ => lowerText_inj a b

def addressMnemonic (t : RecordType) : Bytes :=
  if t = .A then ascii "A" else if t = .AAAA then ascii "AAAA" else ascii "Unknown"

/-! ## buckets -/

/-- `i64` -/
def checkedI64 (x : Int) : Option Int := if -2 ^ 63 ≤ x ∧ x < 2 ^ 63 then some x else none

theorem checkedI64_eq {x y : Int} (h : checkedI64 x = some y) : y = x := by
  unfold checkedI64 at h
  split at h
  · exact (Option.some.inj h).symm
  · cases h

structure Bucket where
  tokens : Int
  lastRefillMillis : Int
  lastSeenMillis : Int
  -- the clock when the bucket was made
  created : Int
  -- the largest clock reading a call has come with
  latest : Int
  -- the calls that got a token
  taken : Nat := 0
  deriving DecidableEq

/-- the epoch in the upper half of `state`, the count in the lower -/
structure DomainRateBucket where
  state : UInt64
  penalizedUntilSec : Int
  deriving DecidableEq

/-- `subnet:name:TYPE` -/
structure RrlKey where
  subnet : IpAddr
  qname : Bytes
  qtype : Bytes
  deriving DecidableEq

structure RateLimiter where
  capacity : Int
  refillPerSec : Int
  nameText : NameText
  typeText : RecordType → Bytes
  subnetBuckets : IpAddr → Option Bucket := fun _ => none
  rrlBuckets : AList (fun _ : RrlKey => DomainRateBucket) := ∅

/-- `MAX_TRACKED_RRL_ENTRIES` -/
def maxTrackedRrlEntries : Nat := 65536

/-- `/24` of an IPv4 address, `/64` of an IPv6 address -/
def toSubnet : IpAddr → IpAddr
  | .V4 v4 => .V4 ⟨#v[v4.octets.get 0, v4.octets.get 1, v4.octets.get 2, 0]⟩
  | .V6 v6 =>
    .V6 ⟨#v[v6.segments.get 0, v6.segments.get 1, v6.segments.get 2, v6.segments.get 3, 0, 0, 0,
      0]⟩

namespace Bucket

/-- what `or_insert_with` makes -/
def new (capacity now : Int) : Bucket :=
  { tokens := capacity
    lastRefillMillis := now
    lastSeenMillis := now
    created := now
    latest := now }

/-- a call has come to the bucket with its clock reading -/
def meet (b : Bucket) (now : Int) : Bucket := { b with latest := max b.latest now }

/-- `fetch_update` that credits tokens, up to the capacity -/
def credit (b : Bucket) (capacity newTokens : Int) : Option Bucket :=
  (checkedI64 (b.tokens + newTokens)).map fun sum => { b with tokens := min sum capacity }

/-- `fetch_update` that takes a token -/
def take (b : Bucket) : Option Bucket :=
  if 0 < b.tokens then some { b with tokens := b.tokens - 1, taken := b.taken + 1 } else none

end Bucket

namespace DomainRateBucket

/-- `now_s as u64` in the upper half -/
def epoch (nowS : Int) : UInt64 := UInt64.ofInt nowS <<< 32

def new (nowS : Int) : DomainRateBucket := ⟨epoch nowS, 0⟩

/-- `fetch_update` of `state`, and `query_count` -/
def count (d : DomainRateBucket) (nowS : Int) : DomainRateBucket × Nat :=
  let currEpoch := (d.state >>> 32).toNat
  let currCount := (d.state &&& 0xFFFFFFFF).toNat
  if (currEpoch : Int) < nowS then ({ d with state := epoch nowS ||| 1 }, 1)
  else
    let newCount := min (currCount + 1) (2 ^ 32 - 1)
    ({ d with state := (currEpoch.toUInt64 <<< 32) ||| newCount.toUInt64 }, newCount)

end DomainRateBucket

namespace RateLimiter

def new (capacity refillPerSec : Int) (nameText : NameText) (typeText : RecordType → Bytes) :
    RateLimiter :=
  { capacity := capacity
    refillPerSec := refillPerSec
    nameText := nameText
    typeText := typeText }

variable (rl : RateLimiter)

def setBucket (subnet : IpAddr) (b : Bucket) : RateLimiter :=
  { rl with subnetBuckets := Function.update rl.subnetBuckets subnet (some b) }

def setDomain (key : RrlKey) (d : DomainRateBucket) : RateLimiter :=
  { rl with rrlBuckets := rl.rrlBuckets.insert key d }

@[simp] theorem setBucket_capacity (subnet : IpAddr) (b : Bucket) :
    (rl.setBucket subnet b).capacity = rl.capacity := rfl

@[simp] theorem setBucket_refillPerSec (subnet : IpAddr) (b : Bucket) :
    (rl.setBucket subnet b).refillPerSec = rl.refillPerSec := rfl

@[simp] theorem setDomain_capacity (key : RrlKey) (d : DomainRateBucket) :
    (rl.setDomain key d).capacity = rl.capacity := rfl

@[simp] theorem setDomain_refillPerSec (key : RrlKey) (d : DomainRateBucket) :
    (rl.setDomain key d).refillPerSec = rl.refillPerSec := rfl

@[simp] theorem setDomain_subnetBuckets (key : RrlKey) (d : DomainRateBucket) :
    (rl.setDomain key d).subnetBuckets = rl.subnetBuckets := rfl

end RateLimiter

/-! ## one call of `check_query` -/

/-- the next access of a call, with the local variables it needs -/
inductive CheckStage where
  -- `now_millis()`
  | reading
  -- `subnet_buckets.entry(subnet).or_insert_with(..)`
  | entering (now : Int)
  -- `last_seen_millis.store(now_ms)`
  | marking (now : Int)
  -- `last_refill_millis.load()`
  | loading (now : Int)
  -- `last_refill_millis.compare_exchange(last_refill, now_ms)`
  | claiming (now last newTokens : Int)
  -- `tokens.fetch_update(..)`, the credit
  | crediting (now newTokens : Int)
  -- `tokens.fetch_update(..)`, the token of this query
  | taking (now : Int)
  -- `rrl_buckets.contains_key(&rrl_key)`
  | finding (nowS : Int)
  -- `rrl_buckets.len()`
  | sizing (nowS : Int)
  -- `rrl_buckets.entry(rrl_key).or_insert_with(..)`
  | tracking (nowS : Int)
  -- `penalized_until_sec.load()`
  | checking (nowS : Int)
  -- `state.fetch_update(..)`
  | counting (nowS : Int)
  -- `penalized_until_sec.store(now_s + 3)`
  | penalizing (nowS : Int)
  | done (action : RrlAction)
  deriving DecidableEq

structure CheckCall where
  protocol : Protocol
  clientIp : IpAddr
  qname : Name
  qtype : RecordType
  stage : CheckStage

namespace CheckCall
variable (call : CheckCall)

def subnet : IpAddr := toSubnet call.clientIp

def rrlKey (rl : RateLimiter) : RrlKey :=
  { subnet := call.subnet
    qname := rl.nameText.lower call.qname
    qtype := rl.typeText call.qtype }

/-- a call up to its first access -/
def arrive (protocol : Protocol) (clientIp : IpAddr) (qname : Name) (qtype : RecordType) :
    CheckCall :=
  { protocol := protocol
    clientIp := clientIp
    qname := qname
    qtype := qtype
    stage :=
      if clientIp.isLoopback then .done .Allow
      else if protocol = .UDP ∧ qtype = .ANY then .done .Drop
      else .reading }

/-- the call holds a reference to the bucket of its subnet -/
def inside : Bool :=
  match call.stage with
  | .reading => false
  | .entering _ => false
  | .done _ => false
  | _ => true

/-- the call holds a reference to the bucket of its name -/
def insideDomain : Bool :=
  match call.stage with
  | .checking _ => true
  | .counting _ => true
  | .penalizing _ => true
  | _ => false

/-- from the load of `last_refill_millis` to the exchange, if there is something to credit -/
def elapse (rl : RateLimiter) (now last : Int) : Option CheckStage := do
  let elapsedMs := max (← checkedI64 (now - last)) 0
  if 0 < elapsedMs then
    let newTokens := (← checkedI64 (elapsedMs * rl.refillPerSec)).tdiv 1000
    if 0 < newTokens then return .claiming now last newTokens else return .taking now
  else return .taking now

/-- the call does its next access; `clock` is what a clock reading gives.  `none` if the process
aborts. -/
def step (rl : RateLimiter) (clock : Int) : Option (RateLimiter × CheckStage) :=
  match call.stage with
  | .reading => some (rl, .entering clock)
  | .entering now =>
    match rl.subnetBuckets call.subnet with
    | some b => some (rl.setBucket call.subnet (b.meet now), .marking now)
    | none => some (rl.setBucket call.subnet (Bucket.new rl.capacity now), .marking now)
  | .marking now =>
    match rl.subnetBuckets call.subnet with
    | some b => some (rl.setBucket call.subnet { b with lastSeenMillis := now }, .loading now)
    | none => some (rl, call.stage)
  | .loading now =>
    match rl.subnetBuckets call.subnet with
    | some b => (elapse rl now b.lastRefillMillis).map fun stage => (rl, stage)
    | none => some (rl, call.stage)
  | .claiming now last newTokens =>
    match rl.subnetBuckets call.subnet with
    | some b =>
      if b.lastRefillMillis = last then
        some (rl.setBucket call.subnet { b with lastRefillMillis := now },
          .crediting now newTokens)
      else some (rl, .taking now)
    | none => some (rl, call.stage)
  | .crediting now newTokens =>
    match rl.subnetBuckets call.subnet with
    | some b =>
      (b.credit rl.capacity newTokens).map fun b => (rl.setBucket call.subnet b, .taking now)
    | none => some (rl, call.stage)
  | .taking now =>
    match rl.subnetBuckets call.subnet with
    | some b =>
      match b.take with
      | some b =>
        some (rl.setBucket call.subnet b,
          if call.protocol = .UDP then .finding (now.tdiv 1000) else .done .Allow)
      | none => some (rl, .done .Drop)
    | none => some (rl, call.stage)
  | .finding nowS =>
    if call.rrlKey rl ∈ rl.rrlBuckets then some (rl, .tracking nowS) else some (rl, .sizing nowS)
  | .sizing nowS =>
    if maxTrackedRrlEntries ≤ rl.rrlBuckets.keys.length then some (rl, .done .Allow)
    else some (rl, .tracking nowS)
  | .tracking nowS =>
    if call.rrlKey rl ∈ rl.rrlBuckets then some (rl, .checking nowS)
    else some (rl.setDomain (call.rrlKey rl) (DomainRateBucket.new nowS), .checking nowS)
  | .checking nowS =>
    match rl.rrlBuckets.lookup (call.rrlKey rl) with
    | some d =>
      if nowS < d.penalizedUntilSec then some (rl, .penalizing nowS)
      else some (rl, .counting nowS)
    | none => some (rl, call.stage)
  | .counting nowS =>
    match rl.rrlBuckets.lookup (call.rrlKey rl) with
    | some d =>
      some (rl.setDomain (call.rrlKey rl) (d.count nowS).1,
        if (d.count nowS).2 = 1 then .done .Allow
        else if (d.count nowS).2 = 2 then .done .Truncate
        else .penalizing nowS)
    | none => some (rl, call.stage)
  | .penalizing nowS =>
    match rl.rrlBuckets.lookup (call.rrlKey rl) with
    | some d =>
      some (rl.setDomain (call.rrlKey rl) { d with penalizedUntilSec := nowS + 3 }, .done .Drop)
    | none => some (rl, call.stage)
  | .done action => some (rl, .done action)

end CheckCall

/-! ## calls at the same time -/

structure LimiterState where
  limiter : RateLimiter
  calls : List CheckCall := []
  aborted : Bool := false

inductive LimiterOp where
  | arrive (protocol : Protocol) (clientIp : IpAddr) (qname : Name) (qtype : RecordType)
  /-- the `i`-th call goes on -/
  | step (i : Nat) (clock : Int)
  /-- `retain` of `cleanup` comes to the bucket of a subnet -/
  | visit (subnet : IpAddr) (cutoffMs : Int)
  /-- and to the bucket of a name -/
  | visitDomain (key : RrlKey) (cutoffS : Int)

namespace Limiter

def start (capacity refillPerSec : Int) (nameText : NameText) (typeText : RecordType → Bytes) :
    LimiterState :=
  { limiter := RateLimiter.new capacity refillPerSec nameText typeText }

def advance (st : LimiterState) (i : Nat) (call : CheckCall) (rl : RateLimiter)
    (stage : CheckStage) : LimiterState :=
  { st with limiter := rl, calls := st.calls.set i { call with stage := stage } }

/-- the entry of a subnet is locked while a call is inside, and `retain` waits for it -/
def locked (st : LimiterState) (subnet : IpAddr) : Bool :=
  st.calls.any fun call => call.inside && decide (call.subnet = subnet)

def lockedDomain (st : LimiterState) (key : RrlKey) : Bool :=
  st.calls.any fun call => call.insideDomain && decide (call.rrlKey st.limiter = key)

def step (st : LimiterState) (op : LimiterOp) : LimiterState :=
  if st.aborted then st
  else
    match op with
    | .arrive protocol clientIp qname qtype =>
      { st with calls := st.calls ++ [CheckCall.arrive protocol clientIp qname qtype] }
    | .step i clock =>
      match st.calls[i]? with
      | none => st
      | some call =>
        match call.step st.limiter clock with
        | none => { st with aborted := true }
        | some (rl, stage) => advance st i call rl stage
    | .visit subnet cutoffMs =>
      if locked st subnet then st
      else
        { st with limiter := { st.limiter with
            subnetBuckets := Function.update st.limiter.subnetBuckets subnet
              ((st.limiter.subnetBuckets subnet).filter fun b =>
                decide (cutoffMs ≤ b.lastSeenMillis)) } }
    | .visitDomain key cutoffS =>
      if lockedDomain st key then st
      else
        match st.limiter.rrlBuckets.lookup key with
        | none => st
        | some d =>
          if cutoffS ≤ (d.state >>> 32).toNat then st
          else
            { st with limiter := { st.limiter with
                rrlBuckets := st.limiter.rrlBuckets.erase key } }

def run (ops : List LimiterOp) (st : LimiterState) : LimiterState := ops.foldl step st

end Limiter
end DnsResolver
