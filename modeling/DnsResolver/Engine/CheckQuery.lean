import DnsResolver.Engine.RateLimit

/-!
# One call of `check_query` at a time

`RateLimit` models the accesses of calls that run at the same time.  Here a call runs from its
start to its end with no other in between, as the source reads.

* `Bucket.refill`            the credit for the time since the last one;
* `RateLimiter.acquire`      the bucket of the subnet and the token of the query;
* `DomainRateBucket.limit`   what the bucket of a name says;
* `checkQuery`               the whole call, `none` if the process aborts;
* `checkQuery_accesses`      its accesses, one after the other, do the same.
-/

namespace DnsResolver

/-- the arguments of a call, and what the clock reads -/
structure LimiterQuery where
  protocol : Protocol
  clientIp : IpAddr
  qname : Name
  qtype : RecordType
  now : Int

/-! ## the call as the source reads -/

/-- what is credited for `elapsedMs`; `none` on overflow -/
def newTokens (refillPerSec elapsedMs : Int) : Option Int :=
  (checkedI64 (elapsedMs * refillPerSec)).map fun product => product.tdiv 1000

namespace Bucket

/-- from the load of `last_refill_millis` to the credit -/
def refill (b : Bucket) (capacity refillPerSec now : Int) : Option Bucket := do
  let elapsedMs := max (← checkedI64 (now - b.lastRefillMillis)) 0
  if 0 < elapsedMs then
    let new ← newTokens refillPerSec elapsedMs
    if 0 < new then Bucket.credit { b with lastRefillMillis := now } capacity new else return b
  else return b

end Bucket

namespace DomainRateBucket

/-- from the load of `penalized_until_sec` to the end -/
def limit (d : DomainRateBucket) (nowS : Int) : DomainRateBucket × RrlAction :=
  if nowS < d.penalizedUntilSec then ({ d with penalizedUntilSec := nowS + 3 }, .Drop)
  else if (d.count nowS).2 = 1 then ((d.count nowS).1, .Allow)
  else if (d.count nowS).2 = 2 then ((d.count nowS).1, .Truncate)
  else ({ (d.count nowS).1 with penalizedUntilSec := nowS + 3 }, .Drop)

end DomainRateBucket

namespace RateLimiter
variable (rl : RateLimiter)

/-- the bucket of the subnet, made if there is none, with its `last_seen_millis` set -/
def entry (subnet : IpAddr) (now : Int) : Bucket :=
  match rl.subnetBuckets subnet with
  | some b => { b.meet now with lastSeenMillis := now }
  | none => Bucket.new rl.capacity now

/-- the bucket of the subnet is refilled and asked for a token -/
def acquire (subnet : IpAddr) (now : Int) : Option (RateLimiter × Bool) :=
  ((rl.entry subnet now).refill rl.capacity rl.refillPerSec now).map fun b =>
    match b.take with
    | some b' => (rl.setBucket subnet b', true)
    | none => (rl.setBucket subnet b, false)

/-- the table has an entry for the key, or room for one -/
def tracks (key : RrlKey) : Bool :=
  decide (key ∈ rl.rrlBuckets) || decide (rl.rrlBuckets.keys.length < maxTrackedRrlEntries)

/-- the entry of the key, made if there is none -/
def domainEntry (key : RrlKey) (nowS : Int) : DomainRateBucket :=
  (rl.rrlBuckets.lookup key).getD (DomainRateBucket.new nowS)

/-- the duplicate-query part of a UDP call -/
def limitName (key : RrlKey) (nowS : Int) : RateLimiter × RrlAction :=
  if !rl.tracks key then (rl, .Allow)
  else (rl.setDomain key ((rl.domainEntry key nowS).limit nowS).1,
    ((rl.domainEntry key nowS).limit nowS).2)

end RateLimiter

namespace LimiterQuery
variable (q : LimiterQuery)

def subnet : IpAddr := toSubnet q.clientIp

def nowS : Int := q.now.tdiv 1000

def rrlKey (rl : RateLimiter) : RrlKey :=
  { subnet := q.subnet, qname := rl.nameText.lower q.qname, qtype := rl.typeText q.qtype }

/-- the call comes to the bucket of its subnet -/
def reaches : Bool :=
  !q.clientIp.isLoopback && !(decide (q.protocol = .UDP) && decide (q.qtype = .ANY))

/-- the call up to its first access -/
def call : CheckCall := CheckCall.arrive q.protocol q.clientIp q.qname q.qtype

def inStage (stage : CheckStage) : CheckCall := { q.call with stage := stage }

@[simp] theorem inStage_stage (stage : CheckStage) : (q.inStage stage).stage = stage := rfl

@[simp] theorem inStage_subnet (stage : CheckStage) : (q.inStage stage).subnet = q.subnet := rfl

@[simp] theorem inStage_protocol (stage : CheckStage) :
    (q.inStage stage).protocol = q.protocol := rfl

@[simp] theorem inStage_rrlKey (stage : CheckStage) (rl : RateLimiter) :
    (q.inStage stage).rrlKey rl = q.rrlKey rl := rfl

end LimiterQuery

/-- `check_query` -/
def checkQuery (rl : RateLimiter) (q : LimiterQuery) : Option (RateLimiter × RrlAction) :=
  if q.clientIp.isLoopback then some (rl, .Allow)
  else if q.protocol = .UDP ∧ q.qtype = .ANY then some (rl, .Drop)
  else
    (rl.acquire q.subnet q.now).map fun (rl', tokenAcquired) =>
      if !tokenAcquired then (rl', .Drop)
      else if q.protocol ≠ .UDP then (rl', .Allow)
      else rl'.limitName (q.rrlKey rl') q.nowS

def obtainsToken (rl : RateLimiter) (q : LimiterQuery) : Bool :=
  q.reaches && (rl.acquire q.subnet q.now).any fun r => r.2

/-! ## the call as a sequence of accesses -/

/-- accesses of one call with no other in between; the clock is read once -/
inductive Alone (q : LimiterQuery) : RateLimiter × CheckStage → RateLimiter × CheckStage → Prop
  | refl (s : RateLimiter × CheckStage) : Alone q s s
  | head {rl : RateLimiter} {stage : CheckStage} {s s' : RateLimiter × CheckStage} :
      (q.inStage stage).step rl q.now = some s → Alone q s s' → Alone q (rl, stage) s'

/-- the process aborts in the course of the accesses from `s` on -/
def Aborts (q : LimiterQuery) (s : RateLimiter × CheckStage) : Prop :=
  ∃ s', Alone q s s' ∧ (q.inStage s'.2).step s'.1 q.now = none

namespace RateLimiter
variable (rl : RateLimiter) (subnet : IpAddr) (b b' : Bucket) (key : RrlKey)

@[simp] theorem setBucket_self : (rl.setBucket subnet b).subnetBuckets subnet = some b :=
  Function.update_self ..

@[simp] theorem setBucket_setBucket :
    (rl.setBucket subnet b).setBucket subnet b' = rl.setBucket subnet b' := by
  simp only [setBucket, Function.update_idem]

variable {subnet b} in
theorem setBucket_eq_self (h : rl.subnetBuckets subnet = some b) : rl.setBucket subnet b = rl := by
  simp only [setBucket, ← h, Function.update_eq_self]

@[simp] theorem lookup_setDomain (d : DomainRateBucket) :
    (rl.setDomain key d).rrlBuckets.lookup key = some d := AList.lookup_insert _

@[simp] theorem setDomain_setDomain (d d' : DomainRateBucket) :
    (rl.setDomain key d).setDomain key d' = rl.setDomain key d' := by
  simp only [setDomain, AList.insert_insert]

end RateLimiter

section
variable {q : LimiterQuery} {rl rl' : RateLimiter} {b b' : Bucket}

theorem Alone.trans {s₁ s₂ s₃ : RateLimiter × CheckStage} (h : Alone q s₁ s₂)
    (h' : Alone q s₂ s₃) : Alone q s₁ s₃ := by
  induction h with
  | refl => exact h'
  | head hstep _ ih => exact .head hstep (ih h')

theorem Alone.aborts {s s' : RateLimiter × CheckStage} (h : Alone q s s') (h' : Aborts q s') :
    Aborts q s := by
  obtain ⟨s'', hs, hnone⟩ := h'
  exact ⟨s'', h.trans hs, hnone⟩

/-- up to the load of `last_refill_millis` -/
theorem alone_entry (rl : RateLimiter) :
    Alone q (rl, .reading) (rl.setBucket q.subnet (rl.entry q.subnet q.now), .loading q.now) := by
  have hread : (q.inStage .reading).step rl q.now = some (rl, .entering q.now) := rfl
  refine .head hread ?_
  have hmark : ∀ b : Bucket, (q.inStage (.marking q.now)).step (rl.setBucket q.subnet b) q.now =
      some (rl.setBucket q.subnet { b with lastSeenMillis := q.now }, .loading q.now) := by
    intro b
    simp [CheckCall.step]
  cases hb : rl.subnetBuckets q.subnet with
  | none =>
    have henter : (q.inStage (.entering q.now)).step rl q.now =
        some (rl.setBucket q.subnet (Bucket.new rl.capacity q.now), .marking q.now) := by
      simp [CheckCall.step, hb]
    have he : rl.entry q.subnet q.now = Bucket.new rl.capacity q.now := by
      simp only [RateLimiter.entry, hb]
    rw [he]
    exact .head henter (.head (hmark _) (.refl _))
  | some b =>
    have henter : (q.inStage (.entering q.now)).step rl q.now =
        some (rl.setBucket q.subnet (b.meet q.now), .marking q.now) := by
      simp [CheckCall.step, hb]
    have he : rl.entry q.subnet q.now = { b.meet q.now with lastSeenMillis := q.now } := by
      simp only [RateLimiter.entry, hb]
    rw [he]
    exact .head henter (.head (hmark _) (.refl _))

/-- the ways of a refill: an overflow, nothing to credit, or a credit -/
inductive RefillCase (rl : RateLimiter) (b : Bucket) (now : Int) : Prop
  | overflow : b.refill rl.capacity rl.refillPerSec now = none →
      CheckCall.elapse rl now b.lastRefillMillis = none → RefillCase rl b now
  | nothing : b.refill rl.capacity rl.refillPerSec now = some b →
      CheckCall.elapse rl now b.lastRefillMillis = some (.taking now) → RefillCase rl b now
  | credit {new : Int} :
      b.refill rl.capacity rl.refillPerSec now =
        Bucket.credit { b with lastRefillMillis := now } rl.capacity new →
      CheckCall.elapse rl now b.lastRefillMillis = some (.claiming now b.lastRefillMillis new) →
      RefillCase rl b now

theorem refill_cases (rl : RateLimiter) (b : Bucket) (now : Int) : RefillCase rl b now := by
  cases he : checkedI64 (now - b.lastRefillMillis) with
  | none => exact .overflow (by simp [Bucket.refill, he]) (by simp [CheckCall.elapse, he])
  | some elapsed =>
    by_cases hpos : 0 < elapsed
    · cases hp : checkedI64 (max elapsed 0 * rl.refillPerSec) with
      | none =>
        exact .overflow (by simp [Bucket.refill, newTokens, he, hpos, hp])
          (by simp [CheckCall.elapse, he, hpos, hp])
      | some product =>
        by_cases hnew : 0 < product.tdiv 1000
        · exact .credit (by simp [Bucket.refill, newTokens, he, hpos, hp, hnew]; rfl)
            (by simp [CheckCall.elapse, he, hpos, hp, hnew])
        · exact .nothing (by simp [Bucket.refill, newTokens, he, hpos, hp, hnew])
            (by simp [CheckCall.elapse, he, hpos, hp, hnew])
    · exact .nothing (by simp [Bucket.refill, he, hpos]) (by simp [CheckCall.elapse, he, hpos])

/-- from the load of `last_refill_millis` to the token -/
theorem alone_refill (hb : rl.subnetBuckets q.subnet = some b)
    (h : b.refill rl.capacity rl.refillPerSec q.now = some b') :
    Alone q (rl, .loading q.now) (rl.setBucket q.subnet b', .taking q.now) := by
  cases refill_cases rl b q.now with
  | overflow hr _ =>
    rw [hr] at h
    exact absurd h (by simp)
  | nothing hr he =>
    rw [hr] at h
    obtain rfl := Option.some.inj h
    rw [rl.setBucket_eq_self hb]
    have hload : (q.inStage (.loading q.now)).step rl q.now = some (rl, .taking q.now) := by
      simp [CheckCall.step, hb, he]
    exact .head hload (.refl _)
  | @credit new hr he =>
    rw [hr] at h
    have hload : (q.inStage (.loading q.now)).step rl q.now =
        some (rl, .claiming q.now b.lastRefillMillis new) := by
      simp [CheckCall.step, hb, he]
    have hclaim : (q.inStage (.claiming q.now b.lastRefillMillis new)).step rl q.now =
        some (rl.setBucket q.subnet { b with lastRefillMillis := q.now },
          .crediting q.now new) := by
      simp [CheckCall.step, hb]
    have hcredit : (q.inStage (.crediting q.now new)).step
        (rl.setBucket q.subnet { b with lastRefillMillis := q.now }) q.now =
        some (rl.setBucket q.subnet b', .taking q.now) := by
      simp [CheckCall.step, h]
    exact .head hload (.head hclaim (.head hcredit (.refl _)))

theorem aborts_refill (hb : rl.subnetBuckets q.subnet = some b)
    (h : b.refill rl.capacity rl.refillPerSec q.now = none) :
    Aborts q (rl, .loading q.now) := by
  cases refill_cases rl b q.now with
  | overflow _ he =>
    refine ⟨_, .refl _, ?_⟩
    simp [CheckCall.step, hb, he]
  | nothing hr _ =>
    rw [hr] at h
    exact absurd h (by simp)
  | @credit new hr he =>
    rw [hr] at h
    have hload : (q.inStage (.loading q.now)).step rl q.now =
        some (rl, .claiming q.now b.lastRefillMillis new) := by
      simp [CheckCall.step, hb, he]
    have hclaim : (q.inStage (.claiming q.now b.lastRefillMillis new)).step rl q.now =
        some (rl.setBucket q.subnet { b with lastRefillMillis := q.now },
          .crediting q.now new) := by
      simp [CheckCall.step, hb]
    refine ⟨_, .head hload (.head hclaim (.refl _)), ?_⟩
    simp [CheckCall.step, h]

theorem alone_limit {d : DomainRateBucket} (hd : rl.rrlBuckets.lookup (q.rrlKey rl) = some d) :
    Alone q (rl, .checking q.nowS)
      (rl.setDomain (q.rrlKey rl) (d.limit q.nowS).1, .done (d.limit q.nowS).2) := by
  have hpen : ∀ (rl' : RateLimiter) (d' : DomainRateBucket),
      rl'.rrlBuckets.lookup (q.rrlKey rl') = some d' →
      (q.inStage (.penalizing q.nowS)).step rl' q.now =
        some (rl'.setDomain (q.rrlKey rl') { d' with penalizedUntilSec := q.nowS + 3 },
          .done .Drop) := by
    intro rl' d' hd'
    simp [CheckCall.step, hd']
  by_cases hp : q.nowS < d.penalizedUntilSec
  · have hcheck : (q.inStage (.checking q.nowS)).step rl q.now = some (rl, .penalizing q.nowS) := by
      simp [CheckCall.step, hd, hp]
    rw [DomainRateBucket.limit, if_pos hp]
    exact .head hcheck (.head (hpen rl d hd) (.refl _))
  · have hcheck : (q.inStage (.checking q.nowS)).step rl q.now = some (rl, .counting q.nowS) := by
      simp [CheckCall.step, hd, hp]
    refine .head hcheck ?_
    rw [DomainRateBucket.limit, if_neg hp]
    by_cases h1 : (d.count q.nowS).2 = 1
    · rw [if_pos h1]
      refine .head ?_ (.refl _)
      simp [CheckCall.step, hd, h1]
    · rw [if_neg h1]
      by_cases h2 : (d.count q.nowS).2 = 2
      · rw [if_pos h2]
        refine .head ?_ (.refl _)
        simp [CheckCall.step, hd, h2]
      · rw [if_neg h2]
        have hcount : (q.inStage (.counting q.nowS)).step rl q.now =
            some (rl.setDomain (q.rrlKey rl) (d.count q.nowS).1, .penalizing q.nowS) := by
          simp [CheckCall.step, hd, h1, h2]
        have hstore : (q.inStage (.penalizing q.nowS)).step
            (rl.setDomain (q.rrlKey rl) (d.count q.nowS).1) q.now =
            some (rl.setDomain (q.rrlKey rl)
              { (d.count q.nowS).1 with penalizedUntilSec := q.nowS + 3 }, .done .Drop) := by
          rw [← rl.setDomain_setDomain (q.rrlKey rl) (d.count q.nowS).1
            { (d.count q.nowS).1 with penalizedUntilSec := q.nowS + 3 }]
          exact hpen _ _ (rl.lookup_setDomain _ _)
        exact .head hcount (.head hstore (.refl _))

theorem alone_limitName (rl : RateLimiter) : Alone q (rl, .finding q.nowS)
    ((rl.limitName (q.rrlKey rl) q.nowS).1, .done (rl.limitName (q.rrlKey rl) q.nowS).2) := by
  by_cases hmem : q.rrlKey rl ∈ rl.rrlBuckets
  · obtain ⟨d, hd⟩ := Option.isSome_iff_exists.mp (AList.lookup_isSome.mpr hmem)
    have hfind : (q.inStage (.finding q.nowS)).step rl q.now = some (rl, .tracking q.nowS) := by
      simp [CheckCall.step, hmem]
    have htrack : (q.inStage (.tracking q.nowS)).step rl q.now = some (rl, .checking q.nowS) := by
      simp [CheckCall.step, hmem]
    have hlimit := alone_limit hd
    simp only [RateLimiter.limitName, RateLimiter.tracks, RateLimiter.domainEntry, hmem, hd,
      decide_true, Bool.true_or, Bool.not_true, Bool.false_eq_true, if_false, Option.getD_some]
    exact .head hfind (.head htrack hlimit)
  · have hfind : (q.inStage (.finding q.nowS)).step rl q.now = some (rl, .sizing q.nowS) := by
      simp [CheckCall.step, hmem]
    refine .head hfind ?_
    by_cases hroom : rl.rrlBuckets.keys.length < maxTrackedRrlEntries
    · have hsize : (q.inStage (.sizing q.nowS)).step rl q.now = some (rl, .tracking q.nowS) := by
        simp [CheckCall.step, Nat.not_le.mpr hroom]
      have htrack : (q.inStage (.tracking q.nowS)).step rl q.now =
          some (rl.setDomain (q.rrlKey rl) (DomainRateBucket.new q.nowS), .checking q.nowS) := by
        simp [CheckCall.step, hmem]
      have hnone : rl.rrlBuckets.lookup (q.rrlKey rl) = none := AList.lookup_eq_none.mpr hmem
      have hd : (rl.setDomain (q.rrlKey rl) (DomainRateBucket.new q.nowS)).rrlBuckets.lookup
          (q.rrlKey (rl.setDomain (q.rrlKey rl) (DomainRateBucket.new q.nowS))) =
          some (DomainRateBucket.new q.nowS) := rl.lookup_setDomain _ _
      have hlimit := alone_limit hd
      simp only [RateLimiter.limitName, RateLimiter.tracks, RateLimiter.domainEntry, hmem, hnone,
        hroom, decide_true, Bool.or_true, Bool.not_true, Bool.false_eq_true, if_false,
        Option.getD_none]
      rw [← rl.setDomain_setDomain (q.rrlKey rl) (DomainRateBucket.new q.nowS)]
      exact .head hsize (.head htrack hlimit)
    · have hsize : (q.inStage (.sizing q.nowS)).step rl q.now = some (rl, .done .Allow) := by
        simp [CheckCall.step, Nat.not_lt.mp hroom]
      simp only [RateLimiter.limitName, RateLimiter.tracks, hmem, hroom, decide_false, Bool.or_self,
        Bool.not_false, if_true]
      exact .head hsize (.refl _)

theorem alone_take (hb : rl.subnetBuckets q.subnet = some b) : Alone q (rl, .taking q.now)
    (match b.take with
      | some b' =>
        if q.protocol = .UDP then
          let rl' := rl.setBucket q.subnet b'
          ((rl'.limitName (q.rrlKey rl') q.nowS).1, .done (rl'.limitName (q.rrlKey rl') q.nowS).2)
        else (rl.setBucket q.subnet b', .done .Allow)
      | none => (rl, .done .Drop)) := by
  cases ht : b.take with
  | none =>
    refine .head ?_ (.refl _)
    simp [CheckCall.step, hb, ht]
  | some b' =>
    dsimp only
    by_cases hu : q.protocol = .UDP
    · rw [if_pos hu]
      refine .head (s := (rl.setBucket q.subnet b', .finding q.nowS)) ?_ (alone_limitName _)
      simp [CheckCall.step, hb, ht, hu, LimiterQuery.nowS]
    · rw [if_neg hu]
      refine .head ?_ (.refl _)
      simp [CheckCall.step, hb, ht, hu]

end

/-- **A call on its own.**  The accesses of a call, done one after the other, come to what
`checkQuery` says; they abort if it does. -/
theorem checkQuery_accesses (rl : RateLimiter) (q : LimiterQuery) :
    (∀ rl' action, checkQuery rl q = some (rl', action) →
      Alone q (rl, q.call.stage) (rl', .done action)) ∧
      (checkQuery rl q = none → Aborts q (rl, q.call.stage)) := by
  unfold checkQuery LimiterQuery.call CheckCall.arrive
  by_cases hloop : q.clientIp.isLoopback = true
  · rw [if_pos hloop, if_pos hloop]
    refine ⟨fun rl' action h => ?_, fun h => absurd h (by simp)⟩
    obtain ⟨rfl, rfl⟩ := Prod.mk.inj (Option.some.inj h)
    exact .refl _
  · rw [if_neg hloop, if_neg hloop]
    by_cases hany : q.protocol = .UDP ∧ q.qtype = .ANY
    · rw [if_pos hany, if_pos hany]
      refine ⟨fun rl' action h => ?_, fun h => absurd h (by simp)⟩
      obtain ⟨rfl, rfl⟩ := Prod.mk.inj (Option.some.inj h)
      exact .refl _
    · rw [if_neg hany, if_neg hany]
      have hb := rl.setBucket_self q.subnet (rl.entry q.subnet q.now)
      unfold RateLimiter.acquire
      cases hr : (rl.entry q.subnet q.now).refill rl.capacity rl.refillPerSec q.now with
      | none =>
        refine ⟨fun rl' action h => absurd h (by simp), fun _ => ?_⟩
        exact (alone_entry rl).aborts (aborts_refill hb hr)
      | some b =>
        refine ⟨fun rl' action h => ?_, fun h => absurd h (by simp)⟩
        have hrun := (alone_entry rl).trans (alone_refill hb hr)
        rw [RateLimiter.setBucket_setBucket] at hrun
        refine hrun.trans ?_
        have htake := alone_take (q := q) (rl.setBucket_self q.subnet b)
        cases ht : b.take with
        | none =>
          rw [ht] at htake
          simp only [Option.map_some, ht, Bool.not_false, if_true, Option.some.injEq] at h
          obtain ⟨rfl, rfl⟩ := Prod.mk.inj h
          exact htake
        | some b' =>
          rw [ht] at htake
          simp only [Option.map_some, ht, Bool.not_true, Bool.false_eq_true, if_false,
            Option.some.injEq] at h
          dsimp only at htake
          rw [RateLimiter.setBucket_setBucket] at htake
          by_cases hu : q.protocol = .UDP
          · rw [if_neg (not_not.mpr hu)] at h
            rw [if_pos hu, h] at htake
            exact htake
          · rw [if_pos hu] at h
            rw [if_neg hu] at htake
            obtain ⟨rfl, rfl⟩ := Prod.mk.inj h
            exact htake

end DnsResolver
