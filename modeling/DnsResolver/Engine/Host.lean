import DnsResolver.Engine.RateLimit
import DnsResolver.Engine.Tasks

/-!
# The server and what is around it

`Tasks` takes what the rate limiter, the recursor, the validator and the clock say as inputs of the
steps.  Here these have a state of their own.  The rate limiter is the one of `RateLimit`.  The
rest is `Outside`, any system with a state `ε` and choices `χ`: the recursor with its delegation and
trust caches, the upstream servers, the hit tracker, the eviction policy, the timers.  It sees the
shared data of the server and what the tasks ask for, as the code passes it on.

* `Request`, `Task.request`   what a task waits for;
* `Outside`                   how the rest works, and what it answers;
* `Host.step`, `Host.run`     the whole, and its runs.

`Host.outcomes` is a trace: what `process_dns_query` returned, by task.  A task is known by the
number of restarts before it and its place in the list.
-/

namespace DnsResolver

/-! ## what the tasks ask for -/

inductive Request where
  -- `check_query`
  | check (protocol : Protocol) (clientIp : IpAddr) (name : Name) (qtype : RecordType)
  -- a lookup in the cache, as the hit tracker and the eviction policy see it
  | lookup (key : CacheKey)
  -- `recursor.resolve`
  | resolve (name : Name) (qtype : RecordType)
  -- `validate_message`
  | validate (msg : Message) (name : Name) (qtype : RecordType)
  -- the iteration over the cache, and the file
  | save

def Work.request (name : Name) (qtype : RecordType) : Work → Option Request
  | .resolving => some (.resolve name qtype)
  | .validating msg => some (.validate msg name qtype)
  | _ => none

def Refresh.request (t : Revalidation) : Refresh → Option Request
  | .resolving => some (.resolve t.name t.qtype)
  | .validating msg => some (.validate msg t.name t.qtype)
  | .looking => some (.lookup t.key)
  | _ => none

def Preload.request (name : Name) (qtype : RecordType) : Preload → Option Request
  | .resolving => some (.resolve name qtype)
  | .validating msg => some (.validate msg name qtype)
  | _ => none

def Task.request (srv : Server) : Task → Option Request
  | .arrived reqWire protocol clientIp =>
    match parseAndValidateQuery srv.codec reqWire with
    | .ok p => some (.check protocol clientIp p.query.name p.query.queryType)
    | .error _ => none
  | .lookup q => some (.lookup q.parsed.cacheKey)
  | .direct q work => work.request q.parsed.query.name q.parsed.query.queryType
  | .flying who _ (some work) => work.request who.name who.qtype
  | .refreshing t stage => stage.request t
  | .preloading name qtype stage => stage.request name qtype
  | .saving _ _ => some .save
  | _ => none

/-- the shared data of the server, and what each task waits for -/
structure View where
  clock : Nat
  cache : AnswerCache
  inFlight : List CacheKey
  singleflight : SingleFlight CacheKey (Option Validated)
  disk : AnswerCache
  waiting : List (Option Request)

def World.view (srv : Server) (w : World) : View :=
  { clock := w.clock
    cache := w.cache
    inFlight := w.inFlight
    singleflight := w.singleflight
    disk := w.disk
    waiting := w.tasks.map (Task.request srv) }

/-! ## what is around the server -/

/-- what happens to the server and is not a request of a client -/
inductive Effect where
  | clock (now : Nat)
  | prefetch (key : CacheKey) (name : Name) (qtype : RecordType)
  | preload (name : Name) (qtype : RecordType)
  | save
  | load (key : CacheKey)
  | evict (key : CacheKey)
  | restart
  deriving DecidableEq

def Effect.action : Effect → Action
  | .clock now => .clock now
  | .prefetch key name qtype => .prefetch key name qtype
  | .preload name qtype => .preload name qtype
  | .save => .save
  | .load key => .load key
  | .evict key => .evict key
  | .restart => .restart

structure Outside (ε χ : Type) where
  -- it works, on what it likes
  work : ε → View → χ → ε × Option Effect
  -- the answer to the request of the `i`-th task, once it is there
  reply : ε → View → Nat → Option (Input × ε)
  /-- `geo::authoritative::answer`; it changes nothing -/
  geo : ε → Name → RecordType → IpAddr → Message → Bool → ProcessOutcome

/-! ## the whole -/

structure Host (ε : Type) where
  world : World := {}
  outside : ε
  limiter : LimiterState
  -- the call of `check_query` of a task
  checks : Nat → Option Nat := fun _ => none
  boots : Nat := 0
  outcomes : List ((Nat × Nat) × ProcessOutcome) := []

inductive HostEvent (χ : Type) where
  | query (reqWire : Bytes) (protocol : Protocol) (clientIp : IpAddr)
  -- one step of the `i`-th task
  | task (i : Nat)
  -- the future of the `i`-th task is dropped
  | cancel (i : Nat)
  -- a call of the rate limiter goes on, or `cleanup` does
  | limiter (op : LimiterOp)
  | outside (c : χ)

namespace Host
variable {ε χ : Type}

/-- the verdict of the rate limiter on the query of a task -/
def verdict (s : Host ε) (i : Nat) : Option RrlAction :=
  match (s.checks i).bind fun c => s.limiter.calls[c]? with
  | some call =>
    match call.stage with
    | .done action => some action
    | _ => none
  | none => none

/-- `check_query` is called -/
def callLimiter (s : Host ε) (i : Nat) (protocol : Protocol) (clientIp : IpAddr) (name : Name)
    (qtype : RecordType) : Host ε :=
  { s with
    limiter := Limiter.step s.limiter (.arrive protocol clientIp name qtype)
    checks := Function.update s.checks i (some s.limiter.calls.length) }

/-- what the next step of a task gets, and the rest after it -/
def input (srv : Server) (o : Outside ε χ) (s : Host ε) (i : Nat) : Task → Option (Input × ε)
  | .arrived reqWire _ clientIp =>
    match parseAndValidateQuery srv.codec reqWire with
    | .error outcome => some (.admitted .Allow outcome, s.outside)
    | .ok p =>
      (s.verdict i).map fun action =>
        (.admitted action (o.geo s.outside p.query.name p.query.queryType
          (p.ecsNet.getD clientIp) p.client.reqMsg p.client.dnssecOk), s.outside)
  | t =>
    match t.request srv with
    | some _ => o.reply s.outside (s.world.view srv) i
    | none => some (.none, s.outside)

/-- a request that could not be parsed has its outcome without a reply in `World` -/
def rejected (srv : Server) : Task → List ProcessOutcome
  | .arrived reqWire _ _ =>
    match parseAndValidateQuery srv.codec reqWire with
    | .error outcome => [outcome]
    | .ok _ => []
  | _ => []

/-- the `i`-th task takes a step -/
def advance (srv : Server) (s : Host ε) (i : Nat) (t : Task) (x : Input) (e : ε) : Host ε :=
  { s with
    world := s.world.step srv (.task i x)
    outside := e
    outcomes := s.outcomes ++ (rejected srv t ++
      ((s.world.step srv (.task i x)).replies.drop s.world.replies.length).map
        QueryReply.outcome).map (Prod.mk (s.boots, i)) }

def stepTask (srv : Server) (o : Outside ε χ) (s : Host ε) (i : Nat) (t : Task) : Host ε :=
  match s.input srv o i t with
  | some (x, e) => s.advance srv i t x e
  | none =>
    match t.request srv, s.checks i with
    | some (.check protocol clientIp name qtype), none =>
      s.callLimiter i protocol clientIp name qtype
    | _, _ => s

/-- a new process has a new rate limiter -/
def affect (srv : Server) (s : Host ε) (effect : Effect) : Host ε :=
  if effect = .restart then
    { s with
      world := s.world.step srv .restart
      limiter := Limiter.start s.limiter.limiter.capacity s.limiter.limiter.refillPerSec
        s.limiter.limiter.nameText s.limiter.limiter.typeText
      checks := fun _ => none
      boots := s.boots + 1 }
  else { s with world := s.world.step srv effect.action }

/-- one step; nothing happens once the process has aborted -/
def step (srv : Server) (o : Outside ε χ) (s : Host ε) (event : HostEvent χ) : Host ε :=
  if s.limiter.aborted then s
  else
    match event with
    | .query reqWire protocol clientIp =>
      { s with world := s.world.step srv (.query reqWire protocol clientIp) }
    | .task i =>
      match s.world.tasks[i]? with
      | some t => s.stepTask srv o i t
      | none => s
    | .cancel i => { s with world := s.world.step srv (.cancel i) }
    | .limiter op =>
      match op with
      | .arrive _ _ _ _ => s
      | _ => { s with limiter := Limiter.step s.limiter op }
    | .outside c =>
      match o.work s.outside (s.world.view srv) c with
      | (e, some effect) => { s with outside := e }.affect srv effect
      | (e, none) => { s with outside := e }

def run (srv : Server) (o : Outside ε χ) (events : List (HostEvent χ)) (s : Host ε) : Host ε :=
  events.foldl (step srv o) s

end Host
end DnsResolver
