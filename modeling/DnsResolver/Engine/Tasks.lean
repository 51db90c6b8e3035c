import DnsResolver.Engine.Process
import DnsResolver.Engine.SingleFlight

/-!
# The server as interleaved tasks

`Process` runs one operation after the other.  Here every operation is a task that other tasks
may interrupt between any two accesses to the shared data: the answer cache, the set of
revalidations under way, single-flight, the cache file.  What the recursor returns, what the
validator says, what the rate limiter and the geo layer decide and what the clock shows are
inputs, so every behaviour of theirs is some run.

* `Work`, `Refresh`, `Preload`   the stages of `resolve_and_validate`, of a stale revalidation and
                                 of `preload_domains` on one name and type;
* `Task`                         these and the stages of `process_dns_query`, of a prefetch and of
                                 `save_cache_to_disk_sync`;
* `World.step`, `World.run`      one step of some task, and runs of them;
* `Work.Moves`, `World.Flies`    what a step can do, case by case, as are `Refresh.Moves` and
                                 `Preload.Moves`.

`World.replies` is a trace, for the proofs only: what each call of `process_dns_query` returned
and what it was made from.
-/

namespace DnsResolver

/-! ## what enters the cache -/

/-- the entry for a message, if it can be encoded and has a lifetime -/
def newEntry (srv : Server) (msg : Message) (status : DnssecStatus) (now : Nat) :
    Option CacheEntry :=
  match srv.codec.toBytes msg with
  | none => none
  | some wire =>
    let ttl := calculateCacheTtl msg status now
    if 0 < ttl then
      some
        { rawWire := wire
          minTtl := ttl
          cachedAt := now
          lastRevalidatedAt := now
          dnssecStatus := status
          kind := entryKind msg }
    else none

def AnswerCache.put (cache : AnswerCache) (key : CacheKey) : Option CacheEntry → AnswerCache
  | some entry => Function.update cache key (some entry)
  | none => cache

/-! ## tasks -/

/-- stages of `resolve_and_validate` -/
inductive Work where
  | resolving
  | validating (msg : Message)
  | stamped (msg : Message) (status : DnssecStatus)
  | storing (r : Validated)
  | finished (result : Except RecursorError Validated)

/-- stages of a stale revalidation -/
inductive Refresh where
  | resolving
  | validating (msg : Message)
  | stamped (msg : Message) (status : DnssecStatus)
  | storing (msg : Message) (status : DnssecStatus) (now : Nat)
  -- nothing to store: the old entry is looked up
  | looking
  -- and put back
  | touching (existing : CacheEntry)
  -- `in_flight.remove`
  | closing

/-- stages of `preload_domains` on one name and type -/
inductive Preload where
  | checking
  | resolving
  | validating (msg : Message)
  | stamped (msg : Message) (status : DnssecStatus)
  | storing (msg : Message) (status : DnssecStatus) (now : Nat)
  | finished

/-- a query that was let in, and the time it was -/
structure Admitted where
  parsed : ParsedDnsQuery
  protocol : Protocol
  clientIp : IpAddr
  now : Nat

/-- who calls `SingleFlight::run` -/
inductive Flier where
  | query (q : Admitted)
  | prefetch (name : Name) (qtype : RecordType)

def Flier.name : Flier → Name
  | .query q => q.parsed.query.name
  | .prefetch name _ => name

def Flier.qtype : Flier → RecordType
  | .query q => q.parsed.query.queryType
  | .prefetch _ qtype => qtype

inductive Task where
  | arrived (reqWire : Bytes) (protocol : Protocol) (clientIp : IpAddr)
  | lookup (q : Admitted)
  -- an entry that has not expired is in hand
  | hit (q : Admitted) (entry : CacheEntry)
  -- the response is made from it
  | answering (q : Admitted) (entry : CacheEntry)
  | missed (q : Admitted)
  -- without a cache there is no single-flight
  | direct (q : Admitted) (work : Work)
  -- in `SingleFlight::run`; `work` while the task's own closure runs
  | flying (who : Flier) (call : Nat) (work : Option Work)
  | resolved (q : Admitted) (result : Option Validated)
  | prefetching (key : CacheKey) (name : Name) (qtype : RecordType)
  | refreshing (t : Revalidation) (stage : Refresh)
  | preloading (name : Name) (qtype : RecordType) (stage : Preload)
  -- the entries written so far
  | saving (now : Nat) (entries : AnswerCache)
  | ended

/-- what `process_dns_query` returned for a query that could be parsed -/
structure QueryReply where
  query : ParsedDnsQuery
  outcome : ProcessOutcome
  source : Option Source

structure World where
  clock : Nat := 0
  cache : AnswerCache := fun _ => none
  inFlight : List CacheKey := []
  singleflight : SingleFlight CacheKey (Option Validated) := {}
  -- the cache file
  disk : AnswerCache := fun _ => none
  tasks : List Task := []
  replies : List QueryReply := []

/-- what comes from outside into one step of a task -/
inductive Input where
  | none
  -- the rate limiter, and the geo layer if it is authoritative for the name
  | admitted (action : RrlAction) (geo : ProcessOutcome)
  -- `recursor.resolve`
  | message (result : Except RecursorError Message)
  -- `validate_message`
  | verdict (status : DnssecStatus)
  -- the next key of the iteration over the cache
  | key (key : CacheKey)
  -- writing and renaming the file
  | written (ok : Bool)

/-! ## steps of the background work -/

/-- the next stage of `resolve_and_validate`, and the cache after it -/
def Work.step (srv : Server) (clock : Nat) (name : Name) (qtype : RecordType)
    (cache : AnswerCache) : Work → Input → Option (Work × AnswerCache)
  | .resolving, .message (.error e) => some (.finished (.error e), cache)
  | .resolving, .message (.ok msg) => some (.validating msg, cache)
  | .validating msg, .verdict status => some (.stamped (stamp status msg) status, cache)
  | .stamped msg status, .none => some (.storing ⟨msg, status, clock⟩, cache)
  | .storing r, .none =>
    some (.finished (.ok r),
      if srv.cacheEnabled && isCacheable r.msg && isCacheableDnssec r.status then
        cache.put (canonicalCacheKey srv.codec name qtype) (newEntry srv r.msg r.status r.cachedAt)
      else cache)
  | _, _ => none

/-- the next stage of a stale revalidation, and the cache after it -/
def Refresh.step (srv : Server) (clock : Nat) (key : CacheKey) (cache : AnswerCache) :
    Refresh → Input → Option (Refresh × AnswerCache)
  | .resolving, .message (.error _) => some (.closing, cache)
  | .resolving, .message (.ok msg) => some (.validating msg, cache)
  | .validating msg, .verdict status =>
    some (if status = .Bogus then .closing else .stamped (stamp status msg) status, cache)
  | .stamped msg status, .none =>
    some (if isCacheable msg && isCacheableDnssec status then .storing msg status clock
      else .looking, cache)
  | .storing msg status now, .none => some (.closing, cache.put key (newEntry srv msg status now))
  | .looking, .none =>
    match cache key with
    | some existing => some (.touching existing, cache)
    | none => some (.closing, cache)
  | .touching existing, .none =>
    some (.closing, cache.put key (some { existing with lastRevalidatedAt := clock }))
  | _, _ => none

/-- the next stage of a pre-warm, and the cache after it -/
def Preload.step (srv : Server) (clock : Nat) (name : Name) (qtype : RecordType)
    (cache : AnswerCache) : Preload → Input → Option (Preload × AnswerCache)
  | .checking, .none =>
    some (if (cache (canonicalCacheKey srv.codec name qtype)).isSome then .finished
      else .resolving, cache)
  | .resolving, .message (.error _) => some (.finished, cache)
  | .resolving, .message (.ok msg) =>
    some (if isCacheable msg then .validating msg else .finished, cache)
  | .validating msg, .verdict status =>
    some (if status = .Bogus ∨ status = .InsecureUnknown then .finished
      else .stamped { stamp status msg with
        id := 0
        recursionDesired := false
        checkingDisabled := false } status, cache)
  | .stamped msg status, .none => some (.storing msg status clock, cache)
  | .storing msg status now, .none =>
    some (.finished,
      cache.put (canonicalCacheKey srv.codec name qtype) (newEntry srv msg status now))
  | _, _ => none

/-! ### what these steps can do -/

section
variable {srv : Server} {clock : Nat} {name : Name} {qtype : RecordType} {key : CacheKey}
  {cache cache' : AnswerCache} {x : Input}

inductive Work.Moves (srv : Server) (clock : Nat) (name : Name) (qtype : RecordType)
    (cache : AnswerCache) : Work → Input → Work → AnswerCache → Prop
  | failed (e : RecursorError) :
    Moves srv clock name qtype cache .resolving (.message (.error e)) (.finished (.error e)) cache
  | resolved (msg : Message) :
    Moves srv clock name qtype cache .resolving (.message (.ok msg)) (.validating msg) cache
  | validated (msg : Message) (status : DnssecStatus) :
    Moves srv clock name qtype cache (.validating msg) (.verdict status)
      (.stamped (stamp status msg) status) cache
  | timed (msg : Message) (status : DnssecStatus) :
    Moves srv clock name qtype cache (.stamped msg status) .none (.storing ⟨msg, status, clock⟩)
      cache
  | stored (r : Validated)
      (h : (srv.cacheEnabled && isCacheable r.msg && isCacheableDnssec r.status) = true) :
    Moves srv clock name qtype cache (.storing r) .none (.finished (.ok r))
      (cache.put (canonicalCacheKey srv.codec name qtype) (newEntry srv r.msg r.status r.cachedAt))
  | skipped (r : Validated)
      (h : ¬ (srv.cacheEnabled && isCacheable r.msg && isCacheableDnssec r.status) = true) :
    Moves srv clock name qtype cache (.storing r) .none (.finished (.ok r)) cache

theorem Work.step_moves {work work' : Work}
    (h : work.step srv clock name qtype cache x = some (work', cache')) :
    Work.Moves srv clock name qtype cache work x work' cache' := by
  unfold Work.step at h
  split at h
  · obtain ⟨rfl, rfl⟩ := Prod.mk.inj (Option.some.inj h)
    exact .failed _
  · obtain ⟨rfl, rfl⟩ := Prod.mk.inj (Option.some.inj h)
    exact .resolved _
  · obtain ⟨rfl, rfl⟩ := Prod.mk.inj (Option.some.inj h)
    exact .validated _ _
  · obtain ⟨rfl, rfl⟩ := Prod.mk.inj (Option.some.inj h)
    exact .timed _ _
  · obtain ⟨rfl, rfl⟩ := Prod.mk.inj (Option.some.inj h)
    split
    · rename_i hc
      exact .stored _ hc
    · rename_i hc
      exact .skipped _ hc
  · cases h

inductive Refresh.Moves (srv : Server) (clock : Nat) (key : CacheKey) (cache : AnswerCache) :
    Refresh → Input → Refresh → AnswerCache → Prop
  | failed (e : RecursorError) :
    Moves srv clock key cache .resolving (.message (.error e)) .closing cache
  | resolved (msg : Message) :
    Moves srv clock key cache .resolving (.message (.ok msg)) (.validating msg) cache
  | bogus (msg : Message) :
    Moves srv clock key cache (.validating msg) (.verdict .Bogus) .closing cache
  | validated (msg : Message) {status : DnssecStatus} (h : status ≠ .Bogus) :
    Moves srv clock key cache (.validating msg) (.verdict status)
      (.stamped (stamp status msg) status) cache
  | timed {msg : Message} {status : DnssecStatus}
      (h : (isCacheable msg && isCacheableDnssec status) = true) :
    Moves srv clock key cache (.stamped msg status) .none (.storing msg status clock) cache
  | unusable {msg : Message} {status : DnssecStatus}
      (h : ¬ (isCacheable msg && isCacheableDnssec status) = true) :
    Moves srv clock key cache (.stamped msg status) .none .looking cache
  | stored (msg : Message) (status : DnssecStatus) (now : Nat) :
    Moves srv clock key cache (.storing msg status now) .none .closing
      (cache.put key (newEntry srv msg status now))
  | found {existing : CacheEntry} (h : cache key = some existing) :
    Moves srv clock key cache .looking .none (.touching existing) cache
  | gone (h : cache key = none) : Moves srv clock key cache .looking .none .closing cache
  | touched (existing : CacheEntry) :
    Moves srv clock key cache (.touching existing) .none .closing
      (cache.put key (some { existing with lastRevalidatedAt := clock }))

theorem Refresh.step_moves {stage stage' : Refresh}
    (h : stage.step srv clock key cache x = some (stage', cache')) :
    Refresh.Moves srv clock key cache stage x stage' cache' := by
  unfold Refresh.step at h
  split at h
  · obtain ⟨rfl, rfl⟩ := Prod.mk.inj (Option.some.inj h)
    exact .failed _
  · obtain ⟨rfl, rfl⟩ := Prod.mk.inj (Option.some.inj h)
    exact .resolved _
  · obtain ⟨rfl, rfl⟩ := Prod.mk.inj (Option.some.inj h)
    split
    · rename_i hb
      rw [hb]
      exact .bogus _
    · rename_i hb
      exact .validated _ hb
  · obtain ⟨rfl, rfl⟩ := Prod.mk.inj (Option.some.inj h)
    split
    · rename_i hc
      exact .timed hc
    · rename_i hc
      exact .unusable hc
  · obtain ⟨rfl, rfl⟩ := Prod.mk.inj (Option.some.inj h)
    exact .stored _ _ _
  · split at h
    · rename_i he
      obtain ⟨rfl, rfl⟩ := Prod.mk.inj (Option.some.inj h)
      exact .found he
    · rename_i he
      obtain ⟨rfl, rfl⟩ := Prod.mk.inj (Option.some.inj h)
      exact .gone he
  · obtain ⟨rfl, rfl⟩ := Prod.mk.inj (Option.some.inj h)
    exact .touched _
  · cases h

inductive Preload.Moves (srv : Server) (clock : Nat) (name : Name) (qtype : RecordType)
    (cache : AnswerCache) : Preload → Input → Preload → AnswerCache → Prop
  | present (h : (cache (canonicalCacheKey srv.codec name qtype)).isSome = true) :
    Moves srv clock name qtype cache .checking .none .finished cache
  | absent (h : ¬ (cache (canonicalCacheKey srv.codec name qtype)).isSome = true) :
    Moves srv clock name qtype cache .checking .none .resolving cache
  | failed (e : RecursorError) :
    Moves srv clock name qtype cache .resolving (.message (.error e)) .finished cache
  | resolved {msg : Message} (h : isCacheable msg = true) :
    Moves srv clock name qtype cache .resolving (.message (.ok msg)) (.validating msg) cache
  | unusable {msg : Message} (h : ¬ isCacheable msg = true) :
    Moves srv clock name qtype cache .resolving (.message (.ok msg)) .finished cache
  | refused (msg : Message) {status : DnssecStatus}
      (h : status = .Bogus ∨ status = .InsecureUnknown) :
    Moves srv clock name qtype cache (.validating msg) (.verdict status) .finished cache
  | validated (msg : Message) {status : DnssecStatus}
      (h : ¬ (status = .Bogus ∨ status = .InsecureUnknown)) :
    Moves srv clock name qtype cache (.validating msg) (.verdict status)
      (.stamped { stamp status msg with
        id := 0
        recursionDesired := false
        checkingDisabled := false } status) cache
  | timed (msg : Message) (status : DnssecStatus) :
    Moves srv clock name qtype cache (.stamped msg status) .none (.storing msg status clock) cache
  | stored (msg : Message) (status : DnssecStatus) (now : Nat) :
    Moves srv clock name qtype cache (.storing msg status now) .none .finished
      (cache.put (canonicalCacheKey srv.codec name qtype) (newEntry srv msg status now))

theorem Preload.step_moves {stage stage' : Preload}
    (h : stage.step srv clock name qtype cache x = some (stage', cache')) :
    Preload.Moves srv clock name qtype cache stage x stage' cache' := by
  unfold Preload.step at h
  split at h
  · obtain ⟨rfl, rfl⟩ := Prod.mk.inj (Option.some.inj h)
    split
    · rename_i hin
      exact .present hin
    · rename_i hin
      exact .absent hin
  · obtain ⟨rfl, rfl⟩ := Prod.mk.inj (Option.some.inj h)
    exact .failed _
  · obtain ⟨rfl, rfl⟩ := Prod.mk.inj (Option.some.inj h)
    split
    · rename_i hm
      exact .resolved hm
    · rename_i hm
      exact .unusable hm
  · obtain ⟨rfl, rfl⟩ := Prod.mk.inj (Option.some.inj h)
    split
    · rename_i hs
      exact .refused _ hs
    · rename_i hs
      exact .validated _ hs
  · obtain ⟨rfl, rfl⟩ := Prod.mk.inj (Option.some.inj h)
    exact .timed _ _
  · obtain ⟨rfl, rfl⟩ := Prod.mk.inj (Option.some.inj h)
    exact .stored _ _ _
  · cases h

end

/-! ## the end of a client query -/

/-- `process_dns_query` returns -/
def World.reply (w : World) (p : ParsedDnsQuery) (outcome : ProcessOutcome)
    (source : Option Source) : World :=
  { w with replies := w.replies ++ [⟨p, outcome, source⟩] }

/-- a response that was built, or `TC=1` if it is too large for the client -/
def World.respond (srv : Server) (w : World) (q : Admitted) (source : Source) (wire : Bytes) :
    World :=
  if shouldChallengeLargeResponse q.protocol q.clientIp wire.length q.parsed.client.maxPayload then
    w.reply q.parsed
      (.Truncated (makeTruncatedWire srv.codec q.parsed.client.reqMsg.id [q.parsed.query])) none
  else w.reply q.parsed (.Success wire) (some source)

/-- the response from a cached entry; `none` if the query has to be resolved -/
def cachedWire (srv : Server) (q : Admitted) (entry : CacheEntry) : Option Bytes :=
  match srv.codec.read entry.rawWire with
  | none => none
  | some cachedMsg =>
    constructClientResponse srv.codec cachedMsg q.parsed.query.queryType entry.dnssecStatus
      (entry.freshnessAt q.now srv.maxStaleSecs) entry.cachedAt q.parsed.client q.now

/-- the end of the miss path: enforcement, then the response -/
def World.serveResult (srv : Server) (w : World) (q : Admitted) : Option Validated → World
  | none => w.reply q.parsed (servFail srv q.parsed) none
  | some r =>
    if decide (r.status = .Bogus) && srv.dnssecEnforce &&
        !q.parsed.client.reqMsg.checkingDisabled then
      w.reply q.parsed (servFail srv q.parsed) none
    else
      match constructClientResponse srv.codec r.msg q.parsed.query.queryType r.status .Fresh
        r.cachedAt q.parsed.client q.now with
      | none => w.reply q.parsed (servFail srv q.parsed) none
      | some wire => w.respond srv q (.resolved r) wire

/-! ## steps -/

/-- a query that could be parsed: the rate limiter, the geo layer, then the clock -/
def World.letIn (srv : Server) (w : World) (p : ParsedDnsQuery) (protocol : Protocol)
    (clientIp : IpAddr) (geo : ProcessOutcome) : RrlAction → World × Task
  | .Truncate =>
    (w.reply p (.Truncated (makeTruncatedWire srv.codec p.client.reqMsg.id [p.query])) none, .ended)
  | .Drop => (w.reply p .Dropped none, .ended)
  | .Allow =>
    if srv.geoAuthoritative p.query.name then (w.reply p geo none, .ended)
    else (w, .lookup ⟨p, protocol, clientIp, w.clock⟩)

def World.look (srv : Server) (w : World) (q : Admitted) : Task :=
  if srv.cacheEnabled then
    match w.cache q.parsed.cacheKey with
    | none => .missed q
    | some entry =>
      if entry.freshnessAt q.now srv.maxStaleSecs = .Expired then .missed q else .hit q entry
  else .missed q

/-- a stale hit leaves a revalidation behind, unless one is under way for its key -/
def World.spawnRefresh (srv : Server) (w : World) (q : Admitted) (entry : CacheEntry) : World :=
  if decide (entry.freshnessAt q.now srv.maxStaleSecs = .Stale) &&
      !decide (q.parsed.cacheKey ∈ w.inFlight) then
    { w with
      inFlight := w.inFlight ++ [q.parsed.cacheKey]
      tasks := w.tasks ++ [.refreshing
        ⟨q.parsed.cacheKey, q.parsed.query.name, q.parsed.query.queryType⟩ .resolving] }
  else w

/-- into `SingleFlight::run` -/
def World.takeOff (w : World) (key : CacheKey) (who : Flier) : World × Task :=
  ({ w with singleflight := w.singleflight.enter key },
    .flying who w.singleflight.calls.length none)

/-- a value is there, or the task's own closure starts, or the task waits -/
def World.board (w : World) (who : Flier) (call : Nat) : Option (World × Task) :=
  match w.singleflight.observe call with
  | some sf => some ({ w with singleflight := sf }, .flying who call none)
  | none =>
    match w.singleflight.acquire call with
    | some sf => some ({ w with singleflight := sf }, .flying who call (some .resolving))
    | none => none

/-- out of `SingleFlight::run` -/
def World.land (w : World) (who : Flier) (call : Nat) : Option (World × Task) :=
  match w.singleflight.leave call with
  | some (result, sf) =>
    some ({ w with singleflight := sf },
      match who with
      | .query q => .resolved q result
      | .prefetch _ _ => .ended)
  | none => none

/-- one step of a task in `SingleFlight::run` -/
def World.fly (srv : Server) (w : World) (who : Flier) (call : Nat) (x : Input) :
    Option Work → Option (World × Task)
  | none =>
    match x with
    | .none =>
      match w.land who call with
      | some r => some r
      | none => w.board who call
    | _ => none
  | some (.finished result) =>
    match x, w.singleflight.finish call result.toOption with
    | .none, some sf => some ({ w with singleflight := sf }, .flying who call none)
    | _, _ => none
  | some work =>
    match work.step srv w.clock who.name who.qtype w.cache x with
    | some (work, cache) => some ({ w with cache := cache }, .flying who call (some work))
    | none => none

/-- what such a step can do -/
inductive World.Flies (srv : Server) (w : World) (who : Flier) (call : Nat) :
    Option Work → Input → World → Task → Prop
  | land {result : Option Validated} {sf : SingleFlight CacheKey (Option Validated)}
      (h : w.singleflight.leave call = some (result, sf)) :
    Flies srv w who call none .none { w with singleflight := sf }
      (match who with
        | .query q => .resolved q result
        | .prefetch _ _ => .ended)
  | observe {sf : SingleFlight CacheKey (Option Validated)}
      (h : w.singleflight.observe call = some sf) :
    Flies srv w who call none .none { w with singleflight := sf } (.flying who call none)
  | acquire {sf : SingleFlight CacheKey (Option Validated)}
      (h : w.singleflight.acquire call = some sf) :
    Flies srv w who call none .none { w with singleflight := sf }
      (.flying who call (some .resolving))
  | finish {result : Except RecursorError Validated}
      {sf : SingleFlight CacheKey (Option Validated)}
      (h : w.singleflight.finish call result.toOption = some sf) :
    Flies srv w who call (some (.finished result)) .none { w with singleflight := sf }
      (.flying who call none)
  | works {work work' : Work} {x : Input} {cache : AnswerCache}
      (h : work.step srv w.clock who.name who.qtype w.cache x = some (work', cache)) :
    Flies srv w who call (some work) x { w with cache := cache } (.flying who call (some work'))

theorem World.fly_flies {srv : Server} {w w' : World} {who : Flier} {call : Nat} {x : Input}
    {work : Option Work} {t : Task} (h : w.fly srv who call x work = some (w', t)) :
    World.Flies srv w who call work x w' t := by
  unfold World.fly at h
  split at h
  · split at h
    · split at h
      · rename_i hland
        unfold World.land at hland
        split at hland
        · rename_i hleave
          obtain ⟨rfl, rfl⟩ := Prod.mk.inj (Option.some.inj (hland.trans h))
          exact .land hleave
        · cases hland
      · unfold World.board at h
        split at h
        · rename_i hobserve
          obtain ⟨rfl, rfl⟩ := Prod.mk.inj (Option.some.inj h)
          exact .observe hobserve
        · split at h
          · rename_i hacquire
            obtain ⟨rfl, rfl⟩ := Prod.mk.inj (Option.some.inj h)
            exact .acquire hacquire
          · cases h
    · cases h
  · split at h
    · rename_i hfinish
      obtain ⟨rfl, rfl⟩ := Prod.mk.inj (Option.some.inj h)
      exact .finish hfinish
    · cases h
  · split at h
    · rename_i hwork
      obtain ⟨rfl, rfl⟩ := Prod.mk.inj (Option.some.inj h)
      exact .works hwork
    · cases h

/-- one step of a task: the world after it and the next stage; `none` if the input does not fit -/
def World.taskStep (srv : Server) (w : World) : Task → Input → Option (World × Task)
  | .arrived reqWire protocol clientIp, .admitted action geo =>
    match parseAndValidateQuery srv.codec reqWire with
    | .error _ => some (w, .ended)
    | .ok p => some (w.letIn srv p protocol clientIp geo action)
  | .lookup q, .none => some (w, w.look srv q)
  | .hit q entry, .none => some (w.spawnRefresh srv q entry, .answering q entry)
  | .answering q entry, .none =>
    match cachedWire srv q entry with
    | none => some (w, .missed q)
    | some wire => some (w.respond srv q (.cached entry) wire, .ended)
  | .missed q, .none =>
    if srv.cacheEnabled then some (w.takeOff q.parsed.cacheKey (.query q))
    else some (w, .direct q .resolving)
  | .direct q (.finished result), .none => some (w, .resolved q result.toOption)
  | .direct q work, x =>
    match work.step srv w.clock q.parsed.query.name q.parsed.query.queryType w.cache x with
    | some (work, cache) => some ({ w with cache := cache }, .direct q work)
    | none => none
  | .flying who call work, x => w.fly srv who call x work
  | .resolved q result, .none => some (w.serveResult srv q result, .ended)
  | .prefetching key name qtype, .none => some (w.takeOff key (.prefetch name qtype))
  | .refreshing t .closing, .none =>
    some ({ w with inFlight := w.inFlight.filter fun k => decide (k ≠ t.key) }, .ended)
  | .refreshing t stage, x =>
    match stage.step srv w.clock t.key w.cache x with
    | some (stage, cache) => some ({ w with cache := cache }, .refreshing t stage)
    | none => none
  | .preloading name qtype stage, x =>
    match stage.step srv w.clock name qtype w.cache x with
    | some (stage, cache) => some ({ w with cache := cache }, .preloading name qtype stage)
    | none => none
  | .saving now entries, .key key =>
    some (w, .saving now (entries.put key (liveEntries srv now w.cache key)))
  | .saving _ entries, .written ok =>
    some (if ok then { w with disk := entries } else w, .ended)
  | _, _ => none

/-- the future of a client query is dropped while it waits in `run` or for the recursor -/
def World.cancelTask (w : World) : Task → Option World
  | .direct _ .resolving => some w
  | .direct _ (.validating _) => some w
  | .flying (.query _) call (some .resolving) =>
    (w.singleflight.cancel call).map fun sf => { w with singleflight := sf }
  | .flying (.query _) call (some (.validating _)) =>
    (w.singleflight.cancel call).map fun sf => { w with singleflight := sf }
  | .flying (.query _) call none =>
    (w.singleflight.cancel call).map fun sf => { w with singleflight := sf }
  | _ => none

inductive Action where
  -- the clock shows another time
  | clock (now : Nat)
  | query (reqWire : Bytes) (protocol : Protocol) (clientIp : IpAddr)
  | prefetch (key : CacheKey) (name : Name) (qtype : RecordType)
  | preload (name : Name) (qtype : RecordType)
  | save
  -- one entry of `load_cache_from_disk`
  | load (key : CacheKey)
  -- the cache drops an entry
  | evict (key : CacheKey)
  -- the process ends and another one starts
  | restart
  -- one step of the `i`-th task
  | task (i : Nat) (x : Input)
  -- the future of the `i`-th task is dropped
  | cancel (i : Nat)

def World.spawn (w : World) (t : Task) : World := { w with tasks := w.tasks ++ [t] }

def World.setTask (w : World) (i : Nat) (t : Task) : World := { w with tasks := w.tasks.set i t }

/-- one step; an action that does not apply does nothing -/
def World.step (srv : Server) (w : World) : Action → World
  | .clock now => { w with clock := now }
  | .query reqWire protocol clientIp => w.spawn (.arrived reqWire protocol clientIp)
  | .prefetch key name qtype => w.spawn (.prefetching key name qtype)
  | .preload name qtype => w.spawn (.preloading name qtype .checking)
  | .save => w.spawn (.saving w.clock fun _ => none)
  | .load key => { w with cache := w.cache.put key (liveEntries srv w.clock w.disk key) }
  | .evict key => { w with cache := Function.update w.cache key none }
  | .restart => { clock := w.clock, disk := w.disk, replies := w.replies }
  | .task i x =>
    match w.tasks[i]? with
    | none => w
    | some t =>
      match w.taskStep srv t x with
      | none => w
      | some (w', t') => w'.setTask i t'
  | .cancel i =>
    match w.tasks[i]? with
    | none => w
    | some t =>
      match w.cancelTask t with
      | none => w
      | some w' => w'.setTask i .ended

def World.run (srv : Server) (actions : List Action) (w : World) : World :=
  actions.foldl (World.step srv) w

/-! ## what a step leaves alone -/

def World.quiet (w : World) : World := { w with replies := [] }

theorem respond_quiet (srv : Server) (w : World) (q : Admitted) (source : Source) (wire : Bytes) :
    (w.respond srv q source wire).quiet = w.quiet := by
  unfold World.respond
  split <;> rfl

theorem serveResult_quiet (srv : Server) (w : World) (q : Admitted) (result : Option Validated) :
    (w.serveResult srv q result).quiet = w.quiet := by
  unfold World.serveResult
  split
  · rfl
  · split
    · rfl
    · split
      · rfl
      · exact respond_quiet srv w q _ _

theorem cancelTask_eq {w w' : World} {t : Task} (h : w.cancelTask t = some w') :
    ∃ sf, w' = { w with singleflight := sf } := by
  have hsf : ∀ {o : Option (SingleFlight CacheKey (Option Validated))},
      (o.map fun sf => { w with singleflight := sf }) = some w' →
      ∃ sf, w' = { w with singleflight := sf } := by
    intro o he
    obtain ⟨sf, _, rfl⟩ := Option.map_eq_some_iff.mp he
    exact ⟨sf, rfl⟩
  unfold World.cancelTask at h
  split at h
  · exact ⟨w.singleflight, (Option.some.inj h).symm⟩
  · exact ⟨w.singleflight, (Option.some.inj h).symm⟩
  · exact hsf h
  · exact hsf h
  · exact hsf h
  · cases h

/-!
## the operations that run alone

Run through without interruption, the stages of a task are the operation of `Process`: on the
inputs the recursor, the validator and the clock of `srv.env` give, they end with its result and
leave its cache.
-/

/-- stages one after the other, each with a time and an input -/
def runStages {σ : Type} (step : Nat → AnswerCache → σ → Input → Option (σ × AnswerCache)) :
    List (Nat × Input) → σ → AnswerCache → Option (σ × AnswerCache)
  | [], stage, cache => some (stage, cache)
  | (clock, x) :: rest, stage, cache =>
    match step clock cache stage x with
    | some (stage', cache') => runStages step rest stage' cache'
    | none => none

theorem cacheMessage_cache (srv : Server) (key : CacheKey) (msg : Message) (status : DnssecStatus)
    (now : Nat) (st : AppState) :
    (cacheMessage srv key msg status now st).cache =
      AnswerCache.put st.cache key (newEntry srv msg status now) := by
  unfold cacheMessage newEntry
  cases srv.codec.toBytes msg with
  | none => rfl
  | some wire =>
    dsimp only
    split <;> rfl

theorem resolveMessage_failed (srv : Server) (name : Name) (qtype : RecordType) (st : AppState)
    (e : RecursorError) (hr : srv.env.resolve st.dns.tick name qtype = .error e) :
    resolveMessage srv name qtype st = (.error e, st.next) := by
  simp only [resolveMessage, hr]

theorem resolveMessage_validated (srv : Server) (name : Name) (qtype : RecordType) (st : AppState)
    (msg : Message) (status : DnssecStatus) (dns : State)
    (hr : srv.env.resolve st.dns.tick name qtype = .ok msg)
    (hv : validateMessage srv.env msg name qtype st.dns.next = (status, dns)) :
    resolveMessage srv name qtype st = (.ok (msg, status), { st with dns := dns }) := by
  simp only [resolveMessage, hr, hv]

theorem resolveAndValidate_stages (srv : Server) (name : Name) (qtype : RecordType)
    (st : AppState) :
    ∃ inputs, runStages (fun clock cache => Work.step srv clock name qtype cache) inputs .resolving
      st.cache = some (.finished (resolveAndValidate srv name qtype st).1,
        (resolveAndValidate srv name qtype st).2.cache) := by
  unfold resolveAndValidate
  cases hr : srv.env.resolve st.dns.tick name qtype with
  | error e =>
    rw [resolveMessage_failed srv name qtype st e hr]
    exact ⟨[(0, .message (.error e))], rfl⟩
  | ok msg =>
    cases hv : validateMessage srv.env msg name qtype st.dns.next with
    | mk status dns =>
      rw [resolveMessage_validated srv name qtype st msg status dns hr hv]
      refine ⟨[(0, .message (.ok msg)), (0, .verdict status),
        (srv.env.nowSecs dns.tick, .none), (0, .none)], ?_⟩
      simp only [runStages, Work.step]
      split
      · simp only [cacheMessage_cache]
        rfl
      · rfl

theorem revalidateTask_stages (srv : Server) (t : Revalidation) (st : AppState) :
    ∃ inputs, runStages (fun clock cache => Refresh.step srv clock t.key cache) inputs .resolving
      st.cache = some (.closing, (revalidateTask srv t st).cache) := by
  unfold revalidateTask
  cases hr : srv.env.resolve st.dns.tick t.name t.qtype with
  | error e =>
    rw [resolveMessage_failed srv t.name t.qtype st e hr]
    exact ⟨[(0, .message (.error e))], rfl⟩
  | ok msg =>
    cases hv : validateMessage srv.env msg t.name t.qtype st.dns.next with
    | mk status dns =>
      rw [resolveMessage_validated srv t.name t.qtype st msg status dns hr hv]
      dsimp only
      by_cases hb : status = .Bogus
      · refine ⟨[(0, .message (.ok msg)), (0, .verdict status)], ?_⟩
        simp only [runStages, Refresh.step, if_pos hb]
      · by_cases hc : (isCacheable msg && isCacheableDnssec status) = true
        · refine ⟨[(0, .message (.ok msg)), (0, .verdict status),
            (srv.env.nowSecs dns.tick, .none), (0, .none)], ?_⟩
          have hc' : (isCacheable (stamp status msg) && isCacheableDnssec status) = true := hc
          simp only [runStages, Refresh.step, if_neg hb, if_pos hc, if_pos hc', cacheMessage_cache]
          rfl
        · have hc' : ¬ (isCacheable (stamp status msg) && isCacheableDnssec status) = true := hc
          cases he : st.cache t.key with
          | none =>
            refine ⟨[(0, .message (.ok msg)), (0, .verdict status), (0, .none), (0, .none)], ?_⟩
            simp only [runStages, Refresh.step, if_neg hb, if_neg hc, if_neg hc', he]
          | some existing =>
            refine ⟨[(0, .message (.ok msg)), (0, .verdict status), (0, .none), (0, .none),
              (srv.env.nowSecs dns.tick, .none)], ?_⟩
            simp only [runStages, Refresh.step, if_neg hb, if_neg hc, if_neg hc', he]
            rfl

theorem preload_stages (srv : Server) (name : Name) (qtype : RecordType) (st : AppState) :
    ∃ inputs, runStages (fun clock cache => Preload.step srv clock name qtype cache) inputs
      .checking st.cache = some (.finished, (preload srv name qtype st).cache) := by
  unfold preload
  dsimp only
  by_cases hin : (st.cache (canonicalCacheKey srv.codec name qtype)).isSome = true
  · refine ⟨[(0, .none)], ?_⟩
    simp only [runStages, Preload.step, if_pos hin]
  · rw [if_neg hin]
    cases srv.env.resolve st.dns.tick name qtype with
    | error e =>
      refine ⟨[(0, .none), (0, .message (.error e))], ?_⟩
      simp only [runStages, Preload.step, if_neg hin]
      rfl
    | ok msg =>
      dsimp only
      by_cases hm : isCacheable msg = true
      · rw [if_pos hm]
        cases validateMessage srv.env msg name qtype st.dns.next with
        | mk status dns =>
          dsimp only
          by_cases hs : status = .Bogus ∨ status = .InsecureUnknown
          · refine ⟨[(0, .none), (0, .message (.ok msg)), (0, .verdict status)], ?_⟩
            simp only [runStages, Preload.step, if_neg hin, if_pos hm, if_pos hs]
          · refine ⟨[(0, .none), (0, .message (.ok msg)), (0, .verdict status),
              (srv.env.nowSecs dns.tick, .none), (0, .none)], ?_⟩
            simp only [runStages, Preload.step, if_neg hin, if_pos hm, if_neg hs,
              cacheMessage_cache]
            rfl
      · refine ⟨[(0, .none), (0, .message (.ok msg))], ?_⟩
        simp only [runStages, Preload.step, if_neg hin, if_neg hm]
        rfl

end DnsResolver
