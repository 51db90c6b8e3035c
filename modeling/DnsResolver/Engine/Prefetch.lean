import DnsResolver.Engine.HitTracker
import DnsResolver.Engine.Servable
import Mathlib.Algebra.Group.Nat.Defs

/-!
# The prefetch loop (`prefetch.rs`)

Every tick the loop goes through the tracked keys, picks those whose entry is about to expire, and
starts a task for each.  In between other tasks run: queries that hit the cache tell the tracker, and
a prefetch that was the leader of its flight tells it how the resolution ended.

* `Prefetcher.step`     the server of `Tasks` with the tracker and the loop, one access at a time;
* `dueForRefresh`       an entry that is fresh and near its end;
* `Candidate.Warranted` what a prefetch is started for;
* `prefetch_warranted`  no prefetch is started for less, in any run.

`Prefetcher.spawned` and the marks of a `Candidate` are traces.
-/

namespace DnsResolver

/-! ## configuration -/

/-- `cache_config` clamps the percentage; `minHits` is the `u32` the loop makes of the setting;
`readKey` cuts a key at its colons and parses the parts -/
structure PrefetchConfig where
  thresholdPct : Nat
  pct_le : thresholdPct ≤ 90
  minHits : Nat
  minHits_lt : minHits < 4294967296
  readKey : CacheKey → Option (Name × RecordType)

def maxConcurrentPrefetch : Nat := 16

def trackerIdlePruneSecs : Nat := 600

/-- a fresh entry whose remaining time is within the threshold -/
def dueForRefresh (cfg : PrefetchConfig) (entry : CacheEntry) (now maxStale : Nat) : Bool :=
  let total := entry.minTtl.toNat
  let age := now - entry.cachedAt
  decide (entry.freshnessAt now maxStale = .Fresh) && decide (total ≠ 0) &&
    decide (total - age ≤ total * cfg.thresholdPct / 100)

/-! ## the loop -/

/-- a key with a due entry; the last three fields are what had happened to its hit count, its time
and its failures when these were read -/
structure Candidate where
  key : CacheKey
  now : Nat
  entry : CacheEntry
  counted : List Access := []
  timed : List Access := []
  judged : List Access := []

inductive LoopStage where
  | idle
  | pruning (now : Nat)
  | snapshot (now : Nat)
  | scanning (now : Nat) (rest : List CacheKey) (candidates : List Candidate)
  -- `should_prefetch`: the count, the time of the last attempt, the failures
  | counting (c : Candidate) (rest : List CacheKey) (candidates : List Candidate)
  | timing (c : Candidate) (rest : List CacheKey) (candidates : List Candidate)
  | judging (c : Candidate) (last : Nat) (rest : List CacheKey) (candidates : List Candidate)
  | spawning (candidates : List Candidate)

/-- what holds one of the permits: a task, then the call that notes how it ended -/
inductive Permit where
  | task (i : Nat)
  | call (i : Nat)
  deriving DecidableEq

structure Prefetcher where
  world : World := {}
  tracker : HitTracker CacheKey
  stage : LoopStage := .idle
  permits : List Permit := []
  spawned : List Candidate := []

inductive PrefetchEvent where
  | world (a : Action)
  -- the `i`-th call of the tracker goes on
  | call (i : Nat)
  | tick
  -- the loop goes on; the coin decides about a key that is due
  | loop (coin : Bool)

/-- the next key; a key that is due is taken by the coin -/
def LoopStage.pick (coin : Bool) (c : Candidate) (rest : List CacheKey)
    (candidates : List Candidate) : LoopStage :=
  .scanning c.now rest (if coin then candidates ++ [c] else candidates)

namespace Prefetcher

/-- the end of a prefetch: only the leader notes it -/
def landed (s : Prefetcher) (i call : Nat) (result : Option Validated) : Prefetcher :=
  match s.world.singleflight.calls[call]? with
  | some c =>
    if c.isLeader then
      { s with
        tracker := s.tracker.start c.key
          (if result.isSome then .prefetchSuccess else .prefetchFailure)
        permits := s.permits.map fun p =>
          if p = .task i then .call s.tracker.calls.length else p }
    else { s with permits := s.permits.filter fun p => decide (p ≠ .task i) }
  | none => s

/-- what a step of the `i`-th task means for the tracker -/
def observe (s : Prefetcher) (i : Nat) (x : Input) : Prefetcher :=
  match s.world.tasks[i]?, x with
  | some (.hit q _), .none =>
    { s with tracker := s.tracker.start q.parsed.cacheKey (.record s.world.clock) }
  | some (.flying (.prefetch _ _) call none), .none =>
    match s.world.singleflight.leave call with
    | some (result, _) => s.landed i call result
    | none => s
  | _, _ => s

/-- a step of a call that ends gives its permit back -/
def stepCall (s : Prefetcher) (i : Nat) : Prefetcher :=
  let tracker := s.tracker.stepCall s.world.clock i
  { s with
    tracker := tracker
    permits :=
      if tracker.calls[i]?.any fun c => decide (c.stage = .doing []) then
        s.permits.filter fun p => decide (p ≠ .call i)
      else s.permits }

/-- a candidate gets a permit and a task, or the tick is over -/
def spawn (srv : Server) (cfg : PrefetchConfig) (s : Prefetcher) (c : Candidate)
    (rest : List Candidate) : Prefetcher :=
  match cfg.readKey c.key with
  | none => { s with stage := .spawning rest }
  | some (name, qtype) =>
    if maxConcurrentPrefetch ≤ s.permits.length then { s with stage := .idle }
    else
      { s with
        world := s.world.step srv (.prefetch c.key name qtype)
        stage := .spawning rest
        permits := s.permits ++ [.task s.world.tasks.length]
        spawned := s.spawned ++ [c] }

def scan (srv : Server) (cfg : PrefetchConfig) (s : Prefetcher) (now : Nat) (key : CacheKey)
    (rest : List CacheKey) (candidates : List Candidate) : Prefetcher :=
  match s.world.cache key with
  | none =>
    { s with
      tracker := s.tracker.start key .resetCount
      stage := .scanning now rest candidates }
  | some entry =>
    if dueForRefresh cfg entry now srv.maxStaleSecs then
      { s with stage := .counting { key := key, now := now, entry := entry } rest candidates }
    else { s with stage := .scanning now rest candidates }

/-- the three reads of `should_prefetch` -/
def count (cfg : PrefetchConfig) (s : Prefetcher) (c : Candidate) (rest : List CacheKey)
    (candidates : List Candidate) : LoopStage :=
  match s.tracker.entries.get c.key with
  | none => .scanning c.now rest candidates
  | some hit =>
    if hit.count < cfg.minHits then .scanning c.now rest candidates
    else .timing { c with counted := s.tracker.marks c.key } rest candidates

def readLast (s : Prefetcher) (coin : Bool) (c : Candidate) (rest : List CacheKey)
    (candidates : List Candidate) : LoopStage :=
  let last := ((s.tracker.entries.get c.key).map HitInfo.lastPrefetchAttempt).getD 0
  let c := { c with timed := s.tracker.marks c.key }
  if 0 < last then .judging c last rest candidates else .pick coin c rest candidates

def judge (s : Prefetcher) (coin : Bool) (c : Candidate) (last : Nat) (rest : List CacheKey)
    (candidates : List Candidate) : LoopStage :=
  let failures := ((s.tracker.entries.get c.key).map HitInfo.consecutiveFailures).getD 0
  if c.now - last < HitTracker.backoffSecs failures then .scanning c.now rest candidates
  else .pick coin { c with judged := s.tracker.marks c.key } rest candidates

/-- one step of `prefetch_loop` -/
def stepLoop (srv : Server) (cfg : PrefetchConfig) (s : Prefetcher) (coin : Bool) : Prefetcher :=
  match s.stage with
  | .idle => s
  | .pruning now =>
    { s with
      tracker := s.tracker.prune s.world.clock trackerIdlePruneSecs
      stage := .snapshot now }
  | .snapshot now => { s with stage := .scanning now s.tracker.keysSnapshot [] }
  | .scanning _ [] candidates => { s with stage := .spawning candidates }
  | .scanning now (key :: rest) candidates => s.scan srv cfg now key rest candidates
  | .counting c rest candidates => { s with stage := s.count cfg c rest candidates }
  | .timing c rest candidates => { s with stage := s.readLast coin c rest candidates }
  | .judging c last rest candidates => { s with stage := s.judge coin c last rest candidates }
  | .spawning [] => { s with stage := .idle }
  | .spawning (c :: rest) => s.spawn srv cfg c rest

/-- the server takes a step; only the loop prefetches, and a new process starts over -/
def stepWorld (srv : Server) (s : Prefetcher) : Action → Prefetcher
  | .prefetch _ _ _ => s
  | .restart =>
    { world := s.world.step srv .restart
      tracker := HitTracker.new s.tracker.maxEntries
      spawned := s.spawned }
  | .task i x => { s.observe i x with world := s.world.step srv (.task i x) }
  | a => { s with world := s.world.step srv a }

def step (srv : Server) (cfg : PrefetchConfig) (s : Prefetcher) : PrefetchEvent → Prefetcher
  | .world a => s.stepWorld srv a
  | .call i => s.stepCall i
  | .tick =>
    match s.stage with
    | .idle => { s with stage := .pruning s.world.clock }
    | _ => s
  | .loop coin => s.stepLoop srv cfg coin

def run (srv : Server) (cfg : PrefetchConfig) (events : List PrefetchEvent) (s : Prefetcher) :
    Prefetcher := events.foldl (step srv cfg) s

def start (maxEntries : Nat) : Prefetcher := { tracker := HitTracker.new maxEntries }

end Prefetcher

/-! ## what a prefetch is started for -/

namespace Candidate

def Due (cfg : PrefetchConfig) (maxStale : Nat) (c : Candidate) : Prop :=
  dueForRefresh cfg c.entry c.now maxStale = true

/-- hit often enough since the last reset -/
def Hot (cfg : PrefetchConfig) (c : Candidate) : Prop := cfg.minHits ≤ hitsSince c.counted

/-- the last attempt is as long ago as its failures ask for -/
def Rested (c : Candidate) : Prop :=
  ∀ last, lastAttempt c.timed = some last → 0 < last →
    HitTracker.backoffSecs (failuresInRow c.judged) ≤ c.now - last

/-- the entry was due, the key was hot, and the last attempt is long enough ago -/
structure Warranted (cfg : PrefetchConfig) (maxStale : Nat) (c : Candidate) : Prop where
  due : c.Due cfg maxStale
  hot : c.Hot cfg
  rested : c.Rested

end Candidate

/-- what the loop has checked so far -/
def LoopStage.Checked (cfg : PrefetchConfig) (maxStale : Nat) (t : HitTracker CacheKey) :
    LoopStage → Prop
  | .idle => True
  | .pruning _ => True
  | .snapshot _ => True
  | .scanning _ _ candidates => ∀ c ∈ candidates, c.Warranted cfg maxStale
  | .counting c _ candidates => c.Due cfg maxStale ∧ ∀ c ∈ candidates, c.Warranted cfg maxStale
  | .timing c _ candidates => c.Due cfg maxStale ∧ c.Hot cfg ∧
      (t.entries.get c.key).isSome = true ∧ ∀ c ∈ candidates, c.Warranted cfg maxStale
  | .judging c last _ candidates => c.Due cfg maxStale ∧ c.Hot cfg ∧
      (t.entries.get c.key).isSome = true ∧ lastAttempt c.timed = some last ∧
      ∀ c ∈ candidates, c.Warranted cfg maxStale
  | .spawning candidates => ∀ c ∈ candidates, c.Warranted cfg maxStale

section
variable {cfg : PrefetchConfig} {maxStale : Nat} {t t' : HitTracker CacheKey} {c : Candidate}
  {candidates : List Candidate}

theorem LoopStage.Checked.mono {stage : LoopStage} (h : stage.Checked cfg maxStale t)
    (hkeep : ∀ k, (t.entries.get k).isSome = true → (t'.entries.get k).isSome = true) :
    stage.Checked cfg maxStale t' := by
  cases stage with
  | timing c rest candidates => exact ⟨h.1, h.2.1, hkeep _ h.2.2.1, h.2.2.2⟩
  | judging c last rest candidates => exact ⟨h.1, h.2.1, hkeep _ h.2.2.1, h.2.2.2⟩
  | _ => exact h

theorem LoopStage.checked_pick (hc : c.Warranted cfg maxStale)
    (hall : ∀ c ∈ candidates, c.Warranted cfg maxStale) (coin : Bool) (rest : List CacheKey) :
    (LoopStage.pick coin c rest candidates).Checked cfg maxStale t := by
  cases coin with
  | false => exact hall
  | true =>
    intro d hd
    rcases List.mem_append.mp hd with hd | hd
    · exact hall d hd
    · rw [List.mem_singleton.mp hd]
      exact hc

/-- failures beyond `u32::MAX` make no difference -/
theorem backoffSecs_min (n : Nat) :
    HitTracker.backoffSecs (min u32Max n) = HitTracker.backoffSecs n := by
  unfold HitTracker.backoffSecs u32Max
  rw [Nat.min_right_comm, Nat.min_eq_right (by decide : 6 ≤ 4294967295), Nat.min_comm 6 n]

theorem backoffSecs_eq (n : Nat) :
    HitTracker.backoffSecs n = if n < 6 then 60 * 2 ^ n else 3600 := by
  unfold HitTracker.backoffSecs
  rw [Nat.shiftLeft_eq]
  by_cases h : n < 6
  · rw [if_pos h, Nat.min_eq_left (Nat.le_of_lt h)]
    refine Nat.min_eq_left ?_
    have hpow : 2 ^ n ≤ 2 ^ 5 := Nat.pow_le_pow_right Nat.zero_lt_two (Nat.le_of_lt_succ h)
    omega
  · rw [if_neg h, Nat.min_eq_right (Nat.not_lt.mp h)]
    rfl

namespace Prefetcher
variable {s : Prefetcher}

theorem checked_count (hm : s.tracker.Marked) (hdue : c.Due cfg maxStale)
    (hall : ∀ c ∈ candidates, c.Warranted cfg maxStale) (rest : List CacheKey) :
    (s.count cfg c rest candidates).Checked cfg maxStale s.tracker := by
  unfold count
  split
  · exact hall
  · rename_i hit hget
    by_cases hfew : hit.count < cfg.minHits
    · rw [if_pos hfew]
      exact hall
    · rw [if_neg hfew]
      refine ⟨hdue, ?_, by rw [hget]; rfl, hall⟩
      show cfg.minHits ≤ hitsSince (s.tracker.marks c.key)
      have hcount := (HitInfo.of_marks (s.tracker.marks c.key)).1
      rw [← hm c.key hit hget] at hcount
      omega

theorem checked_readLast (hm : s.tracker.Marked) (hdue : c.Due cfg maxStale) (hhot : c.Hot cfg)
    (hsome : (s.tracker.entries.get c.key).isSome = true)
    (hall : ∀ c ∈ candidates, c.Warranted cfg maxStale) (coin : Bool) (rest : List CacheKey) :
    (s.readLast coin c rest candidates).Checked cfg maxStale s.tracker := by
  obtain ⟨hit, hget⟩ := Option.isSome_iff_exists.mp hsome
  have hlast := (HitInfo.of_marks (s.tracker.marks c.key)).2.2
  rw [← hm c.key hit hget] at hlast
  unfold readLast
  rw [hget]
  dsimp only [Option.map_some, Option.getD_some]
  by_cases hpos : 0 < hit.lastPrefetchAttempt
  · rw [if_pos hpos]
    refine ⟨hdue, hhot, hsome, ?_, hall⟩
    show lastAttempt (s.tracker.marks c.key) = some hit.lastPrefetchAttempt
    cases hmark : lastAttempt (s.tracker.marks c.key) with
    | none =>
      rw [hmark] at hlast
      rw [hlast] at hpos
      exact absurd hpos (Nat.lt_irrefl 0)
    | some last =>
      rw [hmark] at hlast
      rw [hlast]
      rfl
  · rw [if_neg hpos]
    have hw : Candidate.Warranted cfg maxStale { c with timed := s.tracker.marks c.key } := by
      refine ⟨hdue, hhot, fun last heq hlt => ?_⟩
      -- the time that was stored last is zero
      replace heq : lastAttempt (s.tracker.marks c.key) = some last := heq
      rw [heq] at hlast
      replace hlast : hit.lastPrefetchAttempt = last := hlast
      omega
    exact LoopStage.checked_pick hw hall coin rest

theorem checked_judge (hm : s.tracker.Marked) {last : Nat} (hdue : c.Due cfg maxStale)
    (hhot : c.Hot cfg) (hsome : (s.tracker.entries.get c.key).isSome = true)
    (hlast : lastAttempt c.timed = some last)
    (hall : ∀ c ∈ candidates, c.Warranted cfg maxStale) (coin : Bool) (rest : List CacheKey) :
    (s.judge coin c last rest candidates).Checked cfg maxStale s.tracker := by
  obtain ⟨hit, hget⟩ := Option.isSome_iff_exists.mp hsome
  have hfail := (HitInfo.of_marks (s.tracker.marks c.key)).2.1
  rw [← hm c.key hit hget] at hfail
  unfold judge
  rw [hget]
  dsimp only [Option.map_some, Option.getD_some]
  by_cases hearly : c.now - last < HitTracker.backoffSecs hit.consecutiveFailures
  · rw [if_pos hearly]
    exact hall
  · rw [if_neg hearly]
    have hw : Candidate.Warranted cfg maxStale { c with judged := s.tracker.marks c.key } := by
      refine ⟨hdue, hhot, fun last' heq _ => ?_⟩
      replace heq : lastAttempt c.timed = some last' := heq
      obtain rfl := Option.some.inj (hlast.symm.trans heq)
      rw [hfail, backoffSecs_min] at hearly
      exact Nat.not_lt.mp hearly
    exact LoopStage.checked_pick hw hall coin rest

/-- the tracker's entries are what the marks say, and the loop has checked what it goes on with -/
structure Sound (cfg : PrefetchConfig) (maxStale : Nat) (s : Prefetcher) : Prop where
  marked : s.tracker.Marked
  checked : s.stage.Checked cfg maxStale s.tracker
  spawned : ∀ c ∈ s.spawned, c.Warranted cfg maxStale

theorem Sound.stage {stage : LoopStage} (h : s.Sound cfg maxStale)
    (hc : stage.Checked cfg maxStale s.tracker) :
    Sound cfg maxStale { s with stage := stage } := ⟨h.marked, hc, h.spawned⟩

theorem Sound.call (h : s.Sound cfg maxStale) (key : CacheKey) (op : TrackerOp)
    (permits : List Permit) :
    Sound cfg maxStale { s with tracker := s.tracker.start key op, permits := permits } :=
  ⟨h.marked, h.checked.mono fun _ hk => hk, h.spawned⟩

theorem Sound.landed (h : s.Sound cfg maxStale) (i call : Nat) (result : Option Validated) :
    (s.landed i call result).Sound cfg maxStale := by
  unfold Prefetcher.landed
  split
  · split
    · exact h.call _ _ _
    · exact ⟨h.marked, h.checked, h.spawned⟩
  · exact h

theorem Sound.observe (h : s.Sound cfg maxStale) (i : Nat) (x : Input) :
    (s.observe i x).Sound cfg maxStale := by
  unfold Prefetcher.observe
  split
  · exact h.call _ _ s.permits
  · split
    · exact h.landed i _ _
    · exact h
  · exact h

theorem Sound.stepCall (h : s.Sound cfg maxStale) (i : Nat) :
    (s.stepCall i).Sound cfg maxStale :=
  ⟨h.marked.stepCall _ i, h.checked.mono fun _ hk => HitTracker.stepCall_isSome _ i hk, h.spawned⟩

theorem Sound.stepWorld {srv : Server} (h : s.Sound cfg maxStale) (a : Action) :
    (s.stepWorld srv a).Sound cfg maxStale := by
  cases a with
  | prefetch key name qtype => exact h
  | restart => exact ⟨HitTracker.marked_new _, trivial, h.spawned⟩
  | task i x =>
    have ho := h.observe i x
    exact ⟨ho.marked, ho.checked, ho.spawned⟩
  | _ => exact ⟨h.marked, h.checked, h.spawned⟩

theorem Sound.spawn {srv : Server} {rest : List Candidate} (h : s.Sound cfg maxStale)
    (hstage : s.stage = .spawning (c :: rest)) :
    (s.spawn srv cfg c rest).Sound cfg maxStale := by
  have hall := h.checked
  rw [hstage] at hall
  have hrest : ∀ d ∈ rest, d.Warranted cfg maxStale := fun d hd => hall d (List.mem_cons_of_mem _ hd)
  unfold Prefetcher.spawn
  split
  · exact h.stage hrest
  · split
    · exact h.stage trivial
    · refine ⟨h.marked, hrest, fun d hd => ?_⟩
      rcases List.mem_append.mp hd with hd | hd
      · exact h.spawned d hd
      · rw [List.mem_singleton.mp hd]
        exact hall c List.mem_cons_self

theorem Sound.scan {srv : Server} {now : Nat} (h : s.Sound cfg srv.maxStaleSecs)
    (hall : ∀ c ∈ candidates, c.Warranted cfg srv.maxStaleSecs) (key : CacheKey)
    (rest : List CacheKey) :
    (s.scan srv cfg now key rest candidates).Sound cfg srv.maxStaleSecs := by
  unfold Prefetcher.scan
  split
  · exact ⟨h.marked, hall, h.spawned⟩
  · split
    · rename_i hdue
      exact h.stage ⟨hdue, hall⟩
    · exact h.stage hall

theorem Sound.stepLoop {srv : Server} (h : s.Sound cfg srv.maxStaleSecs) (coin : Bool) :
    (s.stepLoop srv cfg coin).Sound cfg srv.maxStaleSecs := by
  have hc := h.checked
  unfold Prefetcher.stepLoop
  split
  · exact h
  · exact ⟨h.marked.prune _ _, trivial, h.spawned⟩
  · exact h.stage fun _ hc => absurd hc List.not_mem_nil
  · rename_i hstage
    rw [hstage] at hc
    exact h.stage hc
  · rename_i hstage
    rw [hstage] at hc
    exact h.scan hc _ _
  · rename_i hstage
    rw [hstage] at hc
    exact h.stage (checked_count h.marked hc.1 hc.2 _)
  · rename_i hstage
    rw [hstage] at hc
    exact h.stage (checked_readLast h.marked hc.1 hc.2.1 hc.2.2.1 hc.2.2.2 coin _)
  · rename_i hstage
    rw [hstage] at hc
    exact h.stage (checked_judge h.marked hc.1 hc.2.1 hc.2.2.1 hc.2.2.2.1 hc.2.2.2.2 coin _)
  · exact h.stage trivial
  · rename_i hstage
    exact h.spawn hstage

theorem Sound.step {srv : Server} (h : s.Sound cfg srv.maxStaleSecs) (e : PrefetchEvent) :
    (s.step srv cfg e).Sound cfg srv.maxStaleSecs := by
  cases e with
  | world a => exact h.stepWorld a
  | call i => exact h.stepCall i
  | tick =>
    show Sound cfg srv.maxStaleSecs
      (match s.stage with
      | .idle => { s with stage := .pruning s.world.clock }
      | _ => s)
    split
    · exact h.stage trivial
    · exact h
  | loop coin => exact h.stepLoop coin

theorem sound_run {srv : Server} (events : List PrefetchEvent) (maxEntries : Nat) :
    (run srv cfg events (start maxEntries)).Sound cfg srv.maxStaleSecs := by
  have hstart : (start maxEntries).Sound cfg srv.maxStaleSecs :=
    ⟨HitTracker.marked_new _, trivial, fun _ hc => absurd hc List.not_mem_nil⟩
  exact List.foldlRecOn events (step srv cfg) hstart fun _ h e _ => h.step e

/-- the entry is due from the time on when a tenth of its lifetime is over -/
def eagerConfig : PrefetchConfig where
  thresholdPct := 90
  pct_le := by decide
  minHits := 1
  minHits_lt := by decide
  readKey key :=
    if key = canonicalCacheKey bareServer.codec victimName .A then some (victimName, .A) else none

/-- a miss fills the cache, and half a minute later a second query hits it -/
def hitSteps : List PrefetchEvent :=
  ([Action.clock 1000] ++ missSteps 0 ++ workSteps 0 .Secure ++ replySteps 0 ++
    [Action.clock 1030] ++ missSteps 1).map .world ++ List.replicate 4 (.call 0)

def turnSteps : List PrefetchEvent := .tick :: List.replicate 10 (.loop true)

/-- the prefetch leads its flight and fails, and the tracker notes it -/
def failSteps : List PrefetchEvent :=
  [.world (.task 2 .none), .world (.task 2 .none),
    .world (.task 2 (.message (.error .AllNameserversFailed))), .world (.task 2 .none),
    .world (.task 2 .none)] ++ List.replicate 4 (.call 1)

/-- the next try is due two minutes after the failure -/
def twoTries : List PrefetchEvent :=
  hitSteps ++ turnSteps ++ failSteps ++ [.world (.clock 1140)] ++ turnSteps ++
    [.world (.clock 1160)] ++ turnSteps

end Prefetcher
end

end DnsResolver
