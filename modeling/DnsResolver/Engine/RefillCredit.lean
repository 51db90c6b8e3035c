import Mathlib
import DnsResolver.Engine.CheckQuery

/-!
# The credit of a refill (`check_query`)

A call credits whole tokens for the time since the last credit and moves `last_refill_millis` to
its own time, so the fraction of a token that was left over is dropped.  A call that finds less
than a whole token moves nothing.

* `RefillLog`        the time of the last credit and the fractions dropped up to then, a function of
                     the times of the calls alone;
* `Credited`         the bucket has been credited what its time has earned;
* `RefillOk`         no product overflows, and the fractions are together less than a token;
* `refillCredit_iff` `Credited` holds exactly then; and if it does after every call, no call
                     within the burst and the rate is refused.
-/

namespace DnsResolver

/-! ## what follows from the times of the calls -/

structure RefillLog where
  last : Int
  /-- thousandths of a token -/
  dropped : Int

namespace RefillLog

/-- a call at time `t` -/
def step (rate : Int) (log : RefillLog) (t : Int) : RefillLog :=
  if 1000 ≤ rate * (t - log.last) then ⟨t, log.dropped + rate * (t - log.last) % 1000⟩ else log

def run (rate : Int) (log : RefillLog) (times : List Int) : RefillLog :=
  times.foldl (step rate) log

/-- `elapsed_ms * refill_per_sec` stays in the range of `i64` -/
def Fits (rate : Int) : RefillLog → List Int → Prop
  | _, [] => True
  | log, t :: times => rate * (t - log.last) < 2 ^ 63 ∧ Fits rate (log.step rate t) times

end RefillLog

/-- the times at which calls come to the bucket of their subnet -/
def bucketTimes (qs : List LimiterQuery) : List Int :=
  (qs.filter LimiterQuery.reaches).map LimiterQuery.now

def lastTime : Int → List LimiterQuery → Int
  | t, [] => t
  | _, q :: qs => lastTime q.now qs

/-- no product overflows, and what was dropped and what is not yet credited make no token -/
def RefillOk (rate : Int) (log : RefillLog) (t : Int) (qs : List LimiterQuery) : Prop :=
  log.Fits rate (bucketTimes qs) ∧
    (log.run rate (bucketTimes qs)).dropped +
      rate * (lastTime t qs - (log.run rate (bucketTimes qs)).last) < 1000

/-! ## sequences of calls -/

/-- the limiter after a sequence of calls, `none` if the process aborts -/
def checkAll : RateLimiter → List LimiterQuery → Option RateLimiter
  | rl, [] => some rl
  | rl, q :: qs => (checkQuery rl q).bind fun r => checkAll r.1 qs

/-- no credit is cut off by the capacity -/
def NoCutOff (subnet : IpAddr) : RateLimiter → List LimiterQuery → Prop
  | _, [] => True
  | rl, q :: qs =>
    (q.reaches = true → ∀ b ∈ rl.subnetBuckets subnet,
      b.tokens + rl.refillPerSec * (q.now - b.lastRefillMillis) / 1000 ≤ rl.capacity) ∧
      ∀ r ∈ checkQuery rl q, NoCutOff subnet r.1 qs

instance decidableNoCutOff (subnet : IpAddr) : (rl : RateLimiter) → (qs : List LimiterQuery) →
    Decidable (NoCutOff subnet rl qs)
  | _, [] => isTrue trivial
  | _, _ :: qs =>
    haveI : ∀ r : RateLimiter × RrlAction, Decidable (NoCutOff subnet r.1 qs) :=
      fun r => decidableNoCutOff subnet r.1 qs
    inferInstanceAs (Decidable (_ ∧ _))

/-- after the calls the bucket has been credited what the time since `t₀` has earned -/
def Credited (subnet : IpAddr) (t₀ t : Int) (rl : RateLimiter) (qs : List LimiterQuery) : Prop :=
  ∃ rl' b, checkAll rl qs = some rl' ∧ rl'.subnetBuckets subnet = some b ∧
    b.tokens + b.taken - rl.capacity = rl.refillPerSec * (t - t₀) / 1000

/-! ## one call -/

section
variable {subnet : IpAddr} {t₀ capacity rate : Int} {rl : RateLimiter} {log : RefillLog}
  {q : LimiterQuery}

/-- what the bucket and the times of the calls have to do with each other -/
structure RefillInv (subnet : IpAddr) (t₀ capacity rate : Int) (rl : RateLimiter)
    (log : RefillLog) (b : Bucket) : Prop where
  capacity_eq : rl.capacity = capacity
  rate_eq : rl.refillPerSec = rate
  bucket : rl.subnetBuckets subnet = some b
  last : b.lastRefillMillis = log.last
  credited : 1000 * (b.tokens + b.taken - capacity) + log.dropped = rate * (log.last - t₀)
  tokens_ge : min capacity 0 ≤ b.tokens
  tokens_le : b.tokens ≤ capacity
  dropped_nonneg : 0 ≤ log.dropped
  last_nonneg : 0 ≤ log.last

theorem checkedI64_of_range {x : Int} (h : -2 ^ 63 ≤ x) (h' : x < 2 ^ 63) :
    checkedI64 x = some x := if_pos ⟨h, h'⟩

theorem refill_eq (b : Bucket) (capacity : Int) {now : Int} (hlast : 0 ≤ b.lastRefillMillis)
    (hle : b.lastRefillMillis ≤ now) (hnow : now < 2 ^ 63) (hrate : 0 < rate) :
    b.refill capacity rate now =
      if rate * (now - b.lastRefillMillis) < 2 ^ 63 then
        if 1000 ≤ rate * (now - b.lastRefillMillis) then
          Bucket.credit { b with lastRefillMillis := now } capacity
            (rate * (now - b.lastRefillMillis) / 1000)
        else some b
      else none := by
  have he : checkedI64 (now - b.lastRefillMillis) = some (now - b.lastRefillMillis) :=
    checkedI64_of_range (by omega) (by omega)
  have hmax : max (now - b.lastRefillMillis) 0 = now - b.lastRefillMillis := by omega
  have hmul : (now - b.lastRefillMillis) * rate = rate * (now - b.lastRefillMillis) :=
    Int.mul_comm _ _
  have hprod : 0 ≤ rate * (now - b.lastRefillMillis) :=
    Int.mul_nonneg (Int.le_of_lt hrate) (by omega)
  have hdiv : (rate * (now - b.lastRefillMillis)).tdiv 1000 =
      rate * (now - b.lastRefillMillis) / 1000 := Int.tdiv_eq_ediv_of_nonneg hprod
  have hzero : now - b.lastRefillMillis = 0 → rate * (now - b.lastRefillMillis) = 0 := by
    intro h
    rw [h, Int.mul_zero]
  simp only [Bucket.refill, newTokens, he, Option.bind_eq_bind, Option.bind_some, hmax, hmul]
  by_cases hpos : 0 < now - b.lastRefillMillis
  · rw [if_pos hpos]
    by_cases hfit : rate * (now - b.lastRefillMillis) < 2 ^ 63
    · rw [if_pos hfit, checkedI64_of_range (by omega) hfit, Option.map_some, Option.bind_some, hdiv]
      by_cases hnew : 1000 ≤ rate * (now - b.lastRefillMillis)
      · rw [if_pos hnew, if_pos (by omega)]
      · rw [if_neg hnew, if_neg (by omega)]
        rfl
    · have hover : checkedI64 (rate * (now - b.lastRefillMillis)) = none :=
        if_neg fun h => hfit h.2
      rw [if_neg hfit, hover]
      rfl
  · have := hzero (by omega)
    rw [if_neg hpos, if_pos (by omega), if_neg (by omega)]
    rfl

theorem take_sum {b : Bucket} : (∀ b', b.take = some b' → 0 < b.tokens ∧
      b' = { b with tokens := b.tokens - 1, taken := b.taken + 1 }) ∧
    (b.take = none → b.tokens ≤ 0) := by
  unfold Bucket.take
  by_cases h : 0 < b.tokens
  · rw [if_pos h]
    exact ⟨fun b' hb => ⟨h, (Option.some.inj hb).symm⟩, fun hn => absurd hn (by simp)⟩
  · rw [if_neg h]
    exact ⟨fun b' hb => absurd hb (by simp), fun _ => by omega⟩

/-- what a call that comes to the bucket leaves: the refilled bucket, less a token if it had one -/
structure Attended (b₁ b : Bucket) : Prop where
  last : b.lastRefillMillis = b₁.lastRefillMillis
  sum : b.tokens + b.taken = b₁.tokens + b₁.taken
  tokens_ge : min 0 b₁.tokens ≤ b.tokens
  tokens_le : b.tokens ≤ b₁.tokens
  served : 0 < b₁.tokens → b.taken = b₁.taken + 1
  refused : b₁.tokens ≤ 0 → b.taken = b₁.taken

theorem acquire_eq (rl : RateLimiter) (subnet : IpAddr) (now : Int) :
    (∀ b₁, (rl.entry subnet now).refill rl.capacity rl.refillPerSec now = some b₁ →
      ∃ b token, rl.acquire subnet now = some (rl.setBucket subnet b, token) ∧ Attended b₁ b) ∧
      ((rl.entry subnet now).refill rl.capacity rl.refillPerSec now = none →
        rl.acquire subnet now = none) := by
  unfold RateLimiter.acquire
  refine ⟨fun b₁ h => ?_, fun h => by rw [h]; rfl⟩
  rw [h, Option.map_some]
  cases ht : b₁.take with
  | none =>
    have hle := take_sum.2 ht
    exact ⟨b₁, false, rfl, rfl, rfl, by omega, le_rfl, fun hp => by omega, fun _ => rfl⟩
  | some b =>
    obtain ⟨hpos, rfl⟩ := take_sum.1 b ht
    refine ⟨_, true, rfl, rfl, ?_, ?_, ?_, fun _ => rfl, fun hle => by omega⟩
    · show b₁.tokens - 1 + ((b₁.taken + 1 : Nat) : Int) = b₁.tokens + b₁.taken
      omega
    · show min 0 b₁.tokens ≤ b₁.tokens - 1
      omega
    · show b₁.tokens - 1 ≤ b₁.tokens
      omega

/-- `rl'` has the buckets and the configuration of `rl` -/
structure SameBuckets (rl rl' : RateLimiter) : Prop where
  buckets : rl'.subnetBuckets = rl.subnetBuckets
  capacity : rl'.capacity = rl.capacity
  rate : rl'.refillPerSec = rl.refillPerSec

theorem limitName_sameBuckets (rl : RateLimiter) (key : RrlKey) (nowS : Int) :
    SameBuckets rl (rl.limitName key nowS).1 := by
  unfold RateLimiter.limitName
  split
  · exact ⟨rfl, rfl, rfl⟩
  · exact ⟨rfl, rfl, rfl⟩

/-- a call that comes to the bucket does to it what `acquire` does -/
theorem checkQuery_of_reaches (h : q.reaches = true) :
    (rl.acquire q.subnet q.now = none → checkQuery rl q = none) ∧
      ∀ rl₁ token, rl.acquire q.subnet q.now = some (rl₁, token) →
        ∃ rl' action, checkQuery rl q = some (rl', action) ∧ SameBuckets rl₁ rl' := by
  simp only [LimiterQuery.reaches, Bool.and_eq_true, Bool.not_eq_true', Bool.and_eq_false_iff,
    decide_eq_false_iff_not] at h
  have hloop : ¬ q.clientIp.isLoopback = true := by simp [h.1]
  have hany : ¬ (q.protocol = .UDP ∧ q.qtype = .ANY) := fun hany =>
    h.2.elim (fun hu => hu hany.1) fun ht => ht hany.2
  unfold checkQuery
  rw [if_neg hloop, if_neg hany]
  refine ⟨fun hacq => by rw [hacq]; rfl, fun rl₁ token hacq => ?_⟩
  rw [hacq, Option.map_some]
  cases token with
  | false => exact ⟨rl₁, .Drop, rfl, rfl, rfl, rfl⟩
  | true =>
    dsimp only
    rw [Bool.not_true, if_neg Bool.false_ne_true]
    by_cases hu : q.protocol = .UDP
    · rw [if_neg (not_not.mpr hu)]
      exact ⟨_, _, rfl, limitName_sameBuckets rl₁ _ _⟩
    · rw [if_pos hu]
      exact ⟨rl₁, .Allow, rfl, rfl, rfl, rfl⟩

theorem checkQuery_of_not_reaches (rl : RateLimiter) (h : q.reaches = false) :
    ∃ action, checkQuery rl q = some (rl, action) := by
  unfold checkQuery
  by_cases hloop : q.clientIp.isLoopback = true
  · exact ⟨.Allow, by rw [if_pos hloop]⟩
  · rw [if_neg hloop]
    have hany : q.protocol = .UDP ∧ q.qtype = .ANY := by
      simp only [Bool.not_eq_true] at hloop
      simpa [LimiterQuery.reaches, hloop] using h
    exact ⟨.Drop, by rw [if_pos hany]⟩

theorem RefillInv.of_refill (t₀ : Int) (log : RefillLog) {b₁ : Bucket} (hC : rl.capacity = capacity)
    (hR : rl.refillPerSec = rate) (hsub : q.subnet = subnet) (hreach : q.reaches = true)
    (hb₁ : (rl.entry subnet q.now).refill capacity rate q.now = some b₁)
    (hlast : b₁.lastRefillMillis = log.last)
    (hcred : 1000 * (b₁.tokens + b₁.taken - capacity) + log.dropped = rate * (log.last - t₀))
    (hge : min capacity 0 ≤ b₁.tokens) (hle : b₁.tokens ≤ capacity) (hd : 0 ≤ log.dropped)
    (hl : 0 ≤ log.last) :
    ∃ r b, checkQuery rl q = some r ∧ RefillInv subnet t₀ capacity rate r.1 log b ∧
      (0 < b.tokens + b.taken - b₁.taken → b.taken = b₁.taken + 1) := by
  have hsome := (acquire_eq rl subnet q.now).1
  rw [hC, hR] at hsome
  obtain ⟨b, token, hacq, hatt⟩ := hsome b₁ hb₁
  rw [← hsub] at hacq
  obtain ⟨rl', action, hq, hsame⟩ := (checkQuery_of_reaches hreach).2 _ _ hacq
  have hsum := hatt.sum
  have hge' := hatt.tokens_ge
  have hle' := hatt.tokens_le
  refine ⟨(rl', action), b, hq, ?_, fun hpos => hatt.served (by omega)⟩
  constructor
  · exact hsame.capacity.trans hC
  · exact hsame.rate.trans hR
  · rw [hsame.buckets, ← hsub]
    exact rl.setBucket_self q.subnet b
  · exact hatt.last.trans hlast
  · omega
  · omega
  · omega
  · exact hd
  · exact hl

theorem RefillInv.start (hrate : 0 < rl.refillPerSec) (hnew : rl.subnetBuckets q.subnet = none)
    (hreach : q.reaches = true) (h0 : 0 ≤ q.now) (hnow : q.now < 2 ^ 63) :
    ∃ r b, checkQuery rl q = some r ∧
      RefillInv q.subnet q.now rl.capacity rl.refillPerSec r.1 ⟨q.now, 0⟩ b ∧
      (0 < b.tokens + b.taken → b.taken = 1) := by
  have hentry : rl.entry q.subnet q.now = Bucket.new rl.capacity q.now := by
    simp only [RateLimiter.entry, hnew]
  have hlast : (Bucket.new rl.capacity q.now).lastRefillMillis = q.now := rfl
  have hrefill := refill_eq (Bucket.new rl.capacity q.now) rl.capacity
    (by rw [hlast]; exact h0) (by rw [hlast]) hnow hrate
  rw [hlast, Int.sub_self, Int.mul_zero, if_pos (by omega), if_neg (by omega), ← hentry] at hrefill
  have htok : (rl.entry q.subnet q.now).tokens = rl.capacity := by rw [hentry]; rfl
  have htaken : (rl.entry q.subnet q.now).taken = 0 := by rw [hentry]; rfl
  obtain ⟨r, b, hq, hinv, hserved⟩ := RefillInv.of_refill q.now ⟨q.now, 0⟩ rfl rfl rfl hreach
    hrefill (by rw [hentry]; rfl) (by rw [htok, htaken]; simp) (by rw [htok]; omega)
    (by rw [htok]) le_rfl h0
  refine ⟨r, b, hq, hinv, fun hpos => ?_⟩
  rw [htaken] at hserved
  exact hserved (by omega)

theorem RefillInv.step {b : Bucket} (hinv : RefillInv subnet t₀ capacity rate rl log b)
    (hrate : 0 < rate) (hcap : -2 ^ 63 ≤ capacity ∧ capacity < 2 ^ 63) (hsub : q.subnet = subnet)
    (hle : log.last ≤ q.now) (hnow : q.now < 2 ^ 63) (hreach : q.reaches = true)
    (hcut : b.tokens + rate * (q.now - log.last) / 1000 ≤ capacity) :
    (rate * (q.now - log.last) < 2 ^ 63 → ∃ r b', checkQuery rl q = some r ∧
      RefillInv subnet t₀ capacity rate r.1 (log.step rate q.now) b' ∧
      (0 < b'.tokens + b'.taken - b.taken → b'.taken = b.taken + 1)) ∧
      (¬ rate * (q.now - log.last) < 2 ^ 63 → checkQuery rl q = none) := by
  have hentry : rl.entry subnet q.now = { b.meet q.now with lastSeenMillis := q.now } := by
    simp only [RateLimiter.entry, hinv.bucket]
  have hlast : (rl.entry subnet q.now).lastRefillMillis = log.last := by
    rw [hentry]
    exact hinv.last
  have htok : (rl.entry subnet q.now).tokens = b.tokens := by rw [hentry]; rfl
  have htaken : (rl.entry subnet q.now).taken = b.taken := by rw [hentry]; rfl
  have hrefill := refill_eq (rl.entry subnet q.now) capacity
    (by rw [hlast]; exact hinv.last_nonneg) (by rw [hlast]; exact hle) hnow hrate
  rw [hlast] at hrefill
  have hcred := hinv.credited
  have hge := hinv.tokens_ge
  have hle' := hinv.tokens_le
  have hd := hinv.dropped_nonneg
  have hl := hinv.last_nonneg
  refine ⟨fun hfit => ?_, fun hfit => ?_⟩
  · rw [if_pos hfit] at hrefill
    by_cases hnew : 1000 ≤ rate * (q.now - log.last)
    · have hmul : rate * (q.now - t₀) = rate * (q.now - log.last) + rate * (log.last - t₀) := by
        ring
      have hlog : log.step rate q.now =
          ⟨q.now, log.dropped + rate * (q.now - log.last) % 1000⟩ := if_pos hnew
      rw [if_pos hnew, Bucket.credit] at hrefill
      dsimp only at hrefill
      rw [htok, checkedI64_of_range (by omega) (by omega), Option.map_some,
        min_eq_left hcut] at hrefill
      obtain ⟨r, b', hq, hinv', hserved⟩ := RefillInv.of_refill t₀
        (log.step rate q.now) hinv.capacity_eq hinv.rate_eq hsub hreach hrefill
        (by rw [hlog]) (by rw [hlog]; dsimp only; omega) (by dsimp only; omega) hcut
        (by rw [hlog]; dsimp only; omega) (by rw [hlog]; dsimp only; omega)
      dsimp only at hserved
      rw [htaken] at hserved
      exact ⟨r, b', hq, hinv', hserved⟩
    · have hlog : log.step rate q.now = log := if_neg hnew
      rw [if_neg hnew] at hrefill
      rw [hlog, ← htaken]
      exact RefillInv.of_refill t₀ log hinv.capacity_eq hinv.rate_eq hsub hreach hrefill hlast
        (by rw [htok, htaken]; exact hcred) (by rw [htok]; exact hge) (by rw [htok]; exact hle')
        hd hl
  · rw [if_neg hfit] at hrefill
    have hnone := (acquire_eq rl subnet q.now).2
    rw [hinv.capacity_eq, hinv.rate_eq] at hnone
    have hacq := hnone hrefill
    rw [← hsub] at hacq
    exact (checkQuery_of_reaches hreach).1 hacq

/-- the credit is what the time has earned exactly if the fractions make no token -/
theorem RefillInv.credited_iff {b : Bucket} (hinv : RefillInv subnet t₀ capacity rate rl log b)
    (hrate : 0 < rate) {t : Int} (ht : log.last ≤ t) :
    b.tokens + b.taken - capacity = rate * (t - t₀) / 1000 ↔
      log.dropped + rate * (t - log.last) < 1000 := by
  have hmul : rate * (t - t₀) = rate * (t - log.last) + rate * (log.last - t₀) := by ring
  have hnonneg : 0 ≤ rate * (t - log.last) := Int.mul_nonneg (Int.le_of_lt hrate) (by omega)
  have hcred := hinv.credited
  have hd := hinv.dropped_nonneg
  omega

end

/-! ## a sequence of calls -/

section
variable {subnet : IpAddr} {t₀ capacity rate : Int}

theorem bucketTimes_cons_of_reaches {q : LimiterQuery} (h : q.reaches = true)
    (qs : List LimiterQuery) : bucketTimes (q :: qs) = q.now :: bucketTimes qs := by
  simp only [bucketTimes, List.filter_cons_of_pos h, List.map_cons]

theorem bucketTimes_cons_of_not_reaches {q : LimiterQuery} (h : q.reaches = false)
    (qs : List LimiterQuery) : bucketTimes (q :: qs) = bucketTimes qs := by
  simp only [bucketTimes, List.filter_cons_of_neg (by simp [h] : ¬ q.reaches = true)]

theorem NoCutOff.initial {rl : RateLimiter} {qs p : List LimiterQuery}
    (h : NoCutOff subnet rl qs) (hp : p <+: qs) : NoCutOff subnet rl p := by
  induction p generalizing rl qs with
  | nil => exact trivial
  | cons q p ih =>
    obtain ⟨rest, rfl⟩ := hp
    exact ⟨h.1, fun r hr => ih (h.2 r hr) ⟨rest, rfl⟩⟩

/-- calls from one subnet, in order and not before the last credit -/
structure Orderly (subnet : IpAddr) (last : Int) (qs : List LimiterQuery) : Prop where
  subnet : ∀ q ∈ qs, q.subnet = subnet
  order : qs.Pairwise fun a b => a.now ≤ b.now
  after : ∀ q ∈ qs, last ≤ q.now
  range : ∀ q ∈ qs, q.now < 2 ^ 63

theorem Orderly.initial {last : Int} {qs p : List LimiterQuery} (h : Orderly subnet last qs)
    (hp : p <+: qs) : Orderly subnet last p where
  subnet := fun q hq => h.subnet q (hp.subset hq)
  order := h.order.sublist hp.sublist
  after := fun q hq => h.after q (hp.subset hq)
  range := fun q hq => h.range q (hp.subset hq)

theorem Orderly.tail {q : LimiterQuery} {log : RefillLog} {qs : List LimiterQuery}
    (h : Orderly subnet log.last (q :: qs)) (rate : Int) :
    Orderly subnet log.last qs ∧ Orderly subnet (log.step rate q.now).last qs := by
  obtain ⟨hfirst, hrest⟩ := List.pairwise_cons.mp h.order
  have hsub : ∀ x ∈ qs, x.subnet = subnet := fun x hx => h.subnet x (List.mem_cons_of_mem q hx)
  have hafter : ∀ x ∈ qs, log.last ≤ x.now := fun x hx => h.after x (List.mem_cons_of_mem q hx)
  have hrange : ∀ x ∈ qs, x.now < 2 ^ 63 := fun x hx => h.range x (List.mem_cons_of_mem q hx)
  refine ⟨⟨hsub, hrest, hafter, hrange⟩, hsub, hrest, fun x hx => ?_, hrange⟩
  unfold RefillLog.step
  split
  · exact hfirst x hx
  · exact hafter x hx

variable (hrate : 0 < rate) (hcap : -2 ^ 63 ≤ capacity ∧ capacity < 2 ^ 63)
include hrate hcap

/-- after a sequence of calls the bucket and the log of the times still agree, unless a product
overflowed -/
theorem checkAll_refillInv {rl : RateLimiter} {log : RefillLog} {b : Bucket} {t : Int}
    {qs : List LimiterQuery} (hinv : RefillInv subnet t₀ capacity rate rl log b)
    (hord : Orderly subnet log.last qs) (ht : log.last ≤ t) (hcut : NoCutOff subnet rl qs) :
    (log.Fits rate (bucketTimes qs) → ∃ rl' b', checkAll rl qs = some rl' ∧
      RefillInv subnet t₀ capacity rate rl' (log.run rate (bucketTimes qs)) b' ∧
      (log.run rate (bucketTimes qs)).last ≤ lastTime t qs) ∧
      (¬ log.Fits rate (bucketTimes qs) → checkAll rl qs = none) := by
  induction qs generalizing rl log b t with
  | nil => exact ⟨fun _ => ⟨rl, b, rfl, hinv, ht⟩, fun h => absurd trivial h⟩
  | cons q qs ih =>
    have htail := hord.tail rate
    have hle := hord.after q List.mem_cons_self
    cases hreach : q.reaches with
    | false =>
      obtain ⟨action, hq⟩ := checkQuery_of_not_reaches rl hreach
      rw [bucketTimes_cons_of_not_reaches hreach, checkAll, hq, Option.bind_some]
      exact ih hinv htail.1 hle (hcut.2 _ hq)
    | true =>
      have hcut' := hcut.1 hreach b hinv.bucket
      rw [hinv.capacity_eq, hinv.rate_eq, hinv.last] at hcut'
      obtain ⟨hsome, hnone⟩ := hinv.step hrate hcap (hord.subnet q List.mem_cons_self) hle
        (hord.range q List.mem_cons_self) hreach hcut'
      rw [bucketTimes_cons_of_reaches hreach, checkAll]
      by_cases hfit : rate * (q.now - log.last) < 2 ^ 63
      · obtain ⟨r, b', hq, hinv', -⟩ := hsome hfit
        rw [hq, Option.bind_some]
        have hstep : (log.step rate q.now).last ≤ q.now := by
          unfold RefillLog.step
          split
          · exact le_rfl
          · exact hle
        have hrec := ih hinv' htail.2 hstep (hcut.2 _ hq)
        exact ⟨fun h => hrec.1 h.2, fun h => hrec.2 fun h' => h ⟨hfit, h'⟩⟩
      · refine ⟨fun h => absurd h.1 hfit, fun _ => ?_⟩
        rw [hnone hfit]
        rfl

theorem checkAll_credited_iff {rl : RateLimiter} {log : RefillLog} {b : Bucket} {t : Int}
    {qs : List LimiterQuery} (hinv : RefillInv subnet t₀ capacity rate rl log b)
    (hord : Orderly subnet log.last qs) (ht : log.last ≤ t) (hcut : NoCutOff subnet rl qs) :
    (∃ rl' b', checkAll rl qs = some rl' ∧ rl'.subnetBuckets subnet = some b' ∧
      b'.tokens + b'.taken - capacity = rate * (lastTime t qs - t₀) / 1000) ↔
      RefillOk rate log t qs := by
  obtain ⟨hfits, hnot⟩ := checkAll_refillInv hrate hcap hinv hord ht hcut
  rw [RefillOk]
  by_cases hf : log.Fits rate (bucketTimes qs)
  · obtain ⟨rl', b', hrun, hinv', hlast⟩ := hfits hf
    rw [and_iff_right hf, ← hinv'.credited_iff hrate hlast]
    constructor
    · rintro ⟨rl'', b'', hrun', hb'', hcred⟩
      rw [hrun] at hrun'
      obtain rfl := Option.some.inj hrun'
      rw [hinv'.bucket] at hb''
      obtain rfl := Option.some.inj hb''
      exact hcred
    · intro hcred
      exact ⟨rl', b', hrun, hinv'.bucket, hcred⟩
  · rw [hnot hf]
    refine ⟨?_, fun h => absurd h.1 hf⟩
    rintro ⟨rl', b', hrun, -⟩
    exact absurd hrun (by simp)

/-- if the credit is in order after every call, the calls within the burst and the rate are
served -/
theorem checkAll_served {rl : RateLimiter} {log : RefillLog} {b : Bucket} {t : Int}
    {qs : List LimiterQuery} (hinv : RefillInv subnet t₀ capacity rate rl log b)
    (hord : Orderly subnet log.last qs) (hcut : NoCutOff subnet rl qs)
    (hok : ∀ p, p <+: qs → RefillOk rate log t p)
    (hwithin : ∀ p, p <+: qs → b.taken + ((bucketTimes p).length : Int) ≤
      capacity + rate * (lastTime t p - t₀) / 1000) :
    ∃ rl' b', checkAll rl qs = some rl' ∧ rl'.subnetBuckets subnet = some b' ∧
      b'.taken = b.taken + (bucketTimes qs).length := by
  induction qs generalizing rl log b t with
  | nil => exact ⟨rl, b, rfl, hinv.bucket, rfl⟩
  | cons q qs ih =>
    have htail := hord.tail rate
    have hle := hord.after q List.mem_cons_self
    have hcons : ∀ p, p <+: qs → q :: p <+: q :: qs :=
      fun p hp => List.cons_prefix_cons.mpr ⟨rfl, hp⟩
    cases hreach : q.reaches with
    | false =>
      have htimes := bucketTimes_cons_of_not_reaches hreach
      obtain ⟨action, hq⟩ := checkQuery_of_not_reaches rl hreach
      rw [htimes, checkAll, hq, Option.bind_some]
      refine ih (t := q.now) hinv htail.1 (hcut.2 _ hq) (fun p hp => ?_) fun p hp => ?_
      · have := hok (q :: p) (hcons p hp)
        rw [RefillOk, htimes] at this
        exact this
      · have := hwithin (q :: p) (hcons p hp)
        rw [htimes] at this
        exact this
    | true =>
      have htimes := bucketTimes_cons_of_reaches hreach
      have hcut' := hcut.1 hreach b hinv.bucket
      rw [hinv.capacity_eq, hinv.rate_eq, hinv.last] at hcut'
      have hok' := hok [q] (hcons [] List.nil_prefix)
      rw [RefillOk, htimes] at hok'
      obtain ⟨r, b', hq, hinv', hserved⟩ := (hinv.step hrate hcap
        (hord.subnet q List.mem_cons_self) hle (hord.range q List.mem_cons_self) hreach hcut').1
        hok'.1.1
      have hstep : (log.step rate q.now).last ≤ q.now := by
        unfold RefillLog.step
        split
        · exact le_rfl
        · exact hle
      -- the credit is in order, so there is a token left for this call
      have hcred := (hinv'.credited_iff hrate hstep).mpr hok'.2
      have hroom := hwithin [q] (hcons [] List.nil_prefix)
      rw [htimes] at hroom
      have htaken : b'.taken = b.taken + 1 := by
        refine hserved ?_
        have hroom' : (b.taken : Int) + 1 ≤ capacity + rate * (q.now - t₀) / 1000 := hroom
        omega
      have hrec := ih (t := q.now) hinv' htail.2 (hcut.2 _ hq) (fun p hp => ?_) fun p hp => ?_
      · obtain ⟨rl', b'', hall, hb'', htk⟩ := hrec
        refine ⟨rl', b'', ?_, hb'', ?_⟩
        · rw [checkAll, hq, Option.bind_some, hall]
        · rw [htimes, List.length_cons, htk, htaken]
          omega
      · have := hok (q :: p) (hcons p hp)
        rw [RefillOk, htimes] at this
        exact ⟨this.1.2, this.2⟩
      · have := hwithin (q :: p) (hcons p hp)
        rw [htimes, List.length_cons] at this
        rw [htaken]
        push_cast at this ⊢
        have hlast : lastTime q.now p = lastTime t (q :: p) := rfl
        rw [hlast]
        omega

end

/-- **The credit of refills.**  For the calls from one subnet from the one that makes its bucket
on, at nondecreasing times and as long as no credit is cut off by the capacity: after any of them
the bucket has been credited what the time since the first one has earned exactly if no product
overflowed and the dropped fractions and the time since the last credit make less than a token.  If
that is so after each of them, and their number is always within the burst and the rate, every one
that came to the bucket obtained a token. -/
theorem refillCredit_iff (rl : RateLimiter) (q₀ : LimiterQuery) (qs : List LimiterQuery)
    (hrate : 0 < rl.refillPerSec) (hcap : -2 ^ 63 ≤ rl.capacity ∧ rl.capacity < 2 ^ 63)
    (hnew : rl.subnetBuckets q₀.subnet = none) (hreach : q₀.reaches = true)
    (hsub : ∀ q ∈ qs, q.subnet = q₀.subnet)
    (hmono : (q₀ :: qs).Pairwise fun a b => a.now ≤ b.now)
    (hnow : ∀ q ∈ q₀ :: qs, 0 ≤ q.now ∧ q.now < 2 ^ 63)
    (hcut : NoCutOff q₀.subnet rl (q₀ :: qs)) :
    (∀ p, p <+: qs → (Credited q₀.subnet q₀.now (lastTime q₀.now p) rl (q₀ :: p) ↔
      RefillOk rl.refillPerSec ⟨q₀.now, 0⟩ q₀.now p)) ∧
      ((∀ p, p <+: qs → RefillOk rl.refillPerSec ⟨q₀.now, 0⟩ q₀.now p) →
        (∀ p, p <+: qs → ((bucketTimes (q₀ :: p)).length : Int) ≤
          rl.capacity + rl.refillPerSec * (lastTime q₀.now p - q₀.now) / 1000) →
        ∃ rl' b, checkAll rl (q₀ :: qs) = some rl' ∧ rl'.subnetBuckets q₀.subnet = some b ∧
          b.taken = (bucketTimes (q₀ :: qs)).length) := by
  obtain ⟨hfirst, hrest⟩ := List.pairwise_cons.mp hmono
  obtain ⟨h0, hlt⟩ := hnow q₀ List.mem_cons_self
  obtain ⟨r, b, hq, hinv, hserved⟩ := RefillInv.start hrate hnew hreach h0 hlt
  have hord : Orderly q₀.subnet (RefillLog.mk q₀.now 0).last qs :=
    ⟨hsub, hrest, hfirst, fun q hq => (hnow q (List.mem_cons_of_mem q₀ hq)).2⟩
  have hcut' : NoCutOff q₀.subnet r.1 qs := hcut.2 r hq
  have hall : ∀ p, checkAll rl (q₀ :: p) = checkAll r.1 p := by
    intro p
    rw [checkAll, hq, Option.bind_some]
  refine ⟨fun p hp => ?_, fun hok hwithin => ?_⟩
  · rw [Credited, hall p]
    exact checkAll_credited_iff hrate hcap hinv (hord.initial hp) le_rfl (hcut'.initial hp)
  · have hone := hwithin [] List.nil_prefix
    rw [bucketTimes_cons_of_reaches hreach] at hone
    have hcred := hinv.credited
    have hzero : rl.refillPerSec * (q₀.now - q₀.now) = 0 := by rw [Int.sub_self, Int.mul_zero]
    have hlast : lastTime q₀.now [] = q₀.now := rfl
    rw [hlast, hzero] at hone
    have htaken : b.taken = 1 := by
      refine hserved ?_
      have h1 : ((bucketTimes []).length : Int) = 0 := rfl
      rw [List.length_cons] at hone
      push_cast at hone
      dsimp only at hcred
      omega
    obtain ⟨rl', b', hrun, hb', htk⟩ := checkAll_served hrate hcap hinv hord hcut' hok
      fun p hp => by
        have := hwithin p hp
        rw [bucketTimes_cons_of_reaches hreach, List.length_cons] at this
        rw [htaken]
        push_cast at this ⊢
        omega
    refine ⟨rl', b', by rw [hall]; exact hrun, hb', ?_⟩
    rw [htk, htaken, bucketTimes_cons_of_reaches hreach, List.length_cons]
    omega

/-- a burst of two and one token per second -/
def slowLimiter : RateLimiter := RateLimiter.new 2 1 .dotted addressMnemonic

def pacedQuery (now : Int) : LimiterQuery where
  protocol := .TCP
  clientIp := ipv4 198 51 100 7
  qname := .root
  qtype := .A
  now := now

/-- calls that come after whole seconds -/
theorem wholeSeconds_credited :
    NoCutOff (pacedQuery 0).subnet slowLimiter ([0, 1000, 2000].map pacedQuery) ∧
      Credited (pacedQuery 0).subnet 0 2000 slowLimiter ([0, 1000, 2000].map pacedQuery) := by
  have hcut : NoCutOff (pacedQuery 0).subnet slowLimiter ([0, 1000, 2000].map pacedQuery) := by
    decide +kernel
  have hiff := (refillCredit_iff slowLimiter (pacedQuery 0) ([1000, 2000].map pacedQuery)
    (by decide) (by decide) rfl rfl (by decide) (by decide) (by decide) hcut).1
  exact ⟨hcut, (hiff _ (List.prefix_refl _)).mpr ⟨⟨by decide, by decide, trivial⟩, by decide⟩⟩

/-- half a token is dropped at 1.5 seconds: the fourth call is within the burst of two and the two
tokens that two seconds earn, and is refused -/
theorem halfSeconds_not_credited :
    NoCutOff (pacedQuery 0).subnet slowLimiter ([0, 0, 1500, 2000].map pacedQuery) ∧
      ¬ Credited (pacedQuery 0).subnet 0 2000 slowLimiter ([0, 0, 1500, 2000].map pacedQuery) ∧
      ((checkAll slowLimiter ([0, 0, 1500].map pacedQuery)).bind fun rl =>
        (checkQuery rl (pacedQuery 2000)).map fun r => r.2) = some .Drop := by
  refine ⟨by decide +kernel, ?_, by decide +kernel⟩
  rintro ⟨rl', b, hrun, hb, hcred⟩
  have hsum : ((checkAll slowLimiter ([0, 0, 1500, 2000].map pacedQuery)).bind fun rl =>
      (rl.subnetBuckets (pacedQuery 0).subnet).map fun b => b.tokens + (b.taken : Int)) =
        some 3 := by
    decide +kernel
  rw [hrun, Option.bind_some, hb, Option.map_some] at hsum
  rw [Option.some.inj hsum] at hcred
  exact absurd hcred (by decide)

end DnsResolver
