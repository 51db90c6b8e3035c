import DnsResolver.Engine.Cleanup

/-!
# A run beside the run without its cleanups

* `Bucket.Same`          two buckets that answer alike from now on;
* `SameOrIdle`           the bucket of a subnet, or one that would be full again;
* `Beside`               what a run has in common with the run without its cleanups;
* `cleanup_forgets_iff`  when cleanups keep the entries of active names and change no answer.
-/

namespace DnsResolver

/-! ## buckets of subnets -/

/-- buckets that differ in their traces only -/
structure Bucket.Same (b b' : Bucket) : Prop where
  tokens : b.tokens = b'.tokens
  last : b.lastRefillMillis = b'.lastRefillMillis
  seen : b.lastSeenMillis = b'.lastSeenMillis

/-- a bucket in a run up to some time -/
structure Bucket.Sound (capacity clock : Int) (b : Bucket) : Prop where
  tokens_ge : min capacity 0 ≤ b.tokens
  tokens_le : b.tokens ≤ capacity
  last_nonneg : 0 ≤ b.lastRefillMillis
  last_le : b.lastRefillMillis ≤ b.lastSeenMillis
  seen_le : b.lastSeenMillis ≤ clock

section
variable {b b' b₁ b₁' : Bucket} {capacity rate now : Int}

theorem Bucket.Same.refill (h : b.Same b') (hlast : 0 ≤ b'.lastRefillMillis)
    (hle : b'.lastRefillMillis ≤ now) (hnow : now < 2 ^ 63) (hrate : 0 < rate)
    (h₁ : b'.refill capacity rate now = some b₁') :
    ∃ b₁, b.refill capacity rate now = some b₁ ∧ b₁.Same b₁' := by
  rw [refill_eq b' capacity hlast hle hnow hrate] at h₁
  rw [refill_eq b capacity (by rw [h.last]; exact hlast) (by rw [h.last]; exact hle) hnow hrate,
    h.last]
  split at h₁
  · rename_i hfit
    rw [if_pos hfit]
    split at h₁
    · rename_i hnew
      rw [if_pos hnew]
      obtain ⟨sum, hsum, rfl⟩ := Option.map_eq_some_iff.mp h₁
      unfold Bucket.credit
      dsimp only at hsum ⊢
      rw [h.tokens, hsum]
      exact ⟨_, rfl, rfl, rfl, h.seen⟩
    · rename_i hnew
      rw [if_neg hnew]
      obtain rfl := Option.some.inj h₁
      exact ⟨b, rfl, h⟩
  · cases h₁

theorem Bucket.Sound.refill (h : b.Sound capacity now) (hseen : b.lastSeenMillis = now)
    (hnow : now < 2 ^ 63) (hrate : 0 < rate) (h₁ : b.refill capacity rate now = some b₁) :
    b₁.Sound capacity now := by
  have hlast := h.last_le
  rw [hseen] at hlast
  rw [refill_eq b capacity h.last_nonneg hlast hnow hrate] at h₁
  split at h₁
  · split at h₁
    · rename_i hnew
      obtain ⟨sum, hsum, rfl⟩ := Option.map_eq_some_iff.mp h₁
      have hge := h.tokens_ge
      have hnonneg := h.last_nonneg
      have hsum' := checkedI64_eq hsum
      dsimp only at hsum'
      constructor
      · show min capacity 0 ≤ min sum capacity
        omega
      · exact min_le_right _ _
      · exact Int.le_trans hnonneg hlast
      · exact Int.le_of_eq hseen.symm
      · exact Int.le_of_eq hseen
    · obtain rfl := Option.some.inj h₁
      exact h
  · cases h₁

theorem Bucket.Sound.refill_full (h : b.Sound capacity now) (hseen : b.lastSeenMillis = now)
    (hnow : now < 2 ^ 63) (hrate : 0 < rate)
    (hfull : 1000 * capacity ≤ rate * (now - b.lastRefillMillis))
    (hone : 1000 ≤ rate * (now - b.lastRefillMillis))
    (h₁ : b.refill capacity rate now = some b₁) : (Bucket.new capacity now).Same b₁ := by
  have hlast := h.last_le
  rw [hseen] at hlast
  rw [refill_eq b capacity h.last_nonneg hlast hnow hrate, if_pos hone] at h₁
  split at h₁
  · obtain ⟨sum, hsum, rfl⟩ := Option.map_eq_some_iff.mp h₁
    have hge := h.tokens_ge
    have hle := h.tokens_le
    have hsum' := checkedI64_eq hsum
    dsimp only at hsum'
    refine ⟨?_, rfl, hseen.symm⟩
    show capacity = min sum capacity
    omega
  · cases h₁

theorem refill_new (h0 : 0 ≤ now) (hnow : now < 2 ^ 63) (hrate : 0 < rate) :
    (Bucket.new capacity now).refill capacity rate now = some (Bucket.new capacity now) := by
  have h := refill_eq (Bucket.new capacity now) capacity h0 (le_refl now) hnow hrate
  rw [show (Bucket.new capacity now).lastRefillMillis = now from rfl, Int.sub_self, Int.mul_zero,
    if_pos (by omega), if_neg (by omega)] at h
  exact h

theorem Bucket.Sound.take (h : b.Sound capacity now) (ht : b.take = some b') :
    b'.Sound capacity now := by
  obtain ⟨hpos, rfl⟩ := take_sum.1 b' ht
  have hge := h.tokens_ge
  have hle := h.tokens_le
  refine ⟨?_, ?_, h.last_nonneg, h.last_le, h.seen_le⟩
  · show min capacity 0 ≤ b.tokens - 1
    omega
  · show b.tokens - 1 ≤ capacity
    omega

theorem Bucket.Same.take (h : b.Same b') : (b.take = none ∧ b'.take = none) ∨
    ∃ c c', b.take = some c ∧ b'.take = some c' ∧ c.Same c' := by
  unfold Bucket.take
  rw [h.tokens]
  split
  · exact .inr ⟨_, _, rfl, rfl, rfl, h.last, h.seen⟩
  · exact .inl ⟨rfl, rfl⟩

end

/-! ## the bucket of a subnet beside the one of the other run -/

/-- the same bucket, or one that was evicted after `maxAge` without a query -/
def SameOrIdle (maxAge : Nat) (clock : Int) (b b' : Option Bucket) : Prop :=
  (b = none ∧ ∀ c' ∈ b', c'.lastSeenMillis < clock - maxAge) ∨
    ∃ c c', b = some c ∧ b' = some c' ∧ c.Same c'

section
variable {rl rl' : RateLimiter} {subnet : IpAddr} {now clock : Int} {maxAge : Nat}

/-- a query finds the same bucket in both runs, refilled -/
theorem entry_beside (hC : rl.capacity = rl'.capacity) (hR : rl.refillPerSec = rl'.refillPerSec)
    (hrate : 0 < rl'.refillPerSec) (hpays : 1000 * rl'.capacity ≤ rl'.refillPerSec * maxAge)
    (hage : 1000 ≤ maxAge) (hclock : 0 ≤ clock) (horder : clock ≤ now) (hnow : now < 2 ^ 63)
    (hb : SameOrIdle maxAge clock (rl.subnetBuckets subnet) (rl'.subnetBuckets subnet))
    (hsound : ∀ c' ∈ rl'.subnetBuckets subnet, c'.Sound rl'.capacity clock) {b₁' : Bucket}
    (h₁ : (rl'.entry subnet now).refill rl'.capacity rl'.refillPerSec now = some b₁') :
    (∃ b₁, (rl.entry subnet now).refill rl.capacity rl.refillPerSec now = some b₁ ∧
      b₁.Same b₁') ∧ b₁'.Sound rl'.capacity now := by
  have hnew : (Bucket.new rl'.capacity now).Sound rl'.capacity now :=
    ⟨min_le_left _ _, le_rfl, Int.le_trans hclock horder, le_rfl, le_rfl⟩
  have hrefill := fun (c c' : Bucket) (h : c.Same c') (hs : c'.Sound rl'.capacity now)
      (hseen : c'.lastSeenMillis = now)
      (h₁ : c'.refill rl'.capacity rl'.refillPerSec now = some b₁') =>
    (⟨h.refill hs.last_nonneg (Int.le_trans hs.last_le hs.seen_le) hnow hrate h₁,
      hs.refill hseen hnow hrate h₁⟩ :
      (∃ b₁, c.refill rl'.capacity rl'.refillPerSec now = some b₁ ∧ b₁.Same b₁') ∧
        b₁'.Sound rl'.capacity now)
  unfold RateLimiter.entry at h₁ ⊢
  rw [hC, hR]
  rcases hb with ⟨hnone, hidle⟩ | ⟨c, c', hc, hc', hsame⟩
  · rw [hnone]
    cases hb' : rl'.subnetBuckets subnet with
    | none =>
      rw [hb'] at h₁
      exact hrefill _ _ ⟨rfl, rfl, rfl⟩ hnew rfl h₁
    | some c' =>
      rw [hb'] at h₁
      have hs := hsound c' hb'
      have hlast := hs.last_le
      have hage' := hidle c' hb'
      have hs' : ({ c'.meet now with lastSeenMillis := now } : Bucket).Sound rl'.capacity now :=
        ⟨hs.tokens_ge, hs.tokens_le, hs.last_nonneg,
          show c'.lastRefillMillis ≤ now by omega, le_rfl⟩
      have hlong : rl'.refillPerSec * maxAge ≤
          rl'.refillPerSec * (now - c'.lastRefillMillis) :=
        Int.mul_le_mul_of_nonneg_left (by omega) (Int.le_of_lt hrate)
      have hone : (1 : Int) * maxAge ≤ rl'.refillPerSec * maxAge :=
        Int.mul_le_mul_of_nonneg_right (by omega) (by omega)
      have hfull := hs'.refill_full rfl hnow hrate (Int.le_trans hpays hlong)
        (show 1000 ≤ rl'.refillPerSec * (now - c'.lastRefillMillis) by omega) h₁
      exact ⟨⟨Bucket.new rl'.capacity now, refill_new (Int.le_trans hclock horder) hnow hrate,
        hfull⟩, hs'.refill rfl hnow hrate h₁⟩
  · rw [hc]
    rw [hc'] at h₁
    have hs := hsound c' hc'
    have hlast := hs.last_le
    have hseen := hs.seen_le
    have hs' : ({ c'.meet now with lastSeenMillis := now } : Bucket).Sound rl'.capacity now :=
      ⟨hs.tokens_ge, hs.tokens_le, hs.last_nonneg, show c'.lastRefillMillis ≤ now by omega, le_rfl⟩
    have hsame' : ({ c.meet now with lastSeenMillis := now } : Bucket).Same
        { c'.meet now with lastSeenMillis := now } := ⟨hsame.tokens, hsame.last, rfl⟩
    exact hrefill _ _ hsame' hs' rfl h₁

theorem acquire_beside {b₁ b₁' : Bucket}
    (h₁ : (rl.entry subnet now).refill rl.capacity rl.refillPerSec now = some b₁)
    (h₁' : (rl'.entry subnet now).refill rl'.capacity rl'.refillPerSec now = some b₁')
    (hsame : b₁.Same b₁') (hsound : b₁'.Sound rl'.capacity now) :
    ∃ token b b', rl.acquire subnet now = some (rl.setBucket subnet b, token) ∧
      rl'.acquire subnet now = some (rl'.setBucket subnet b', token) ∧ b.Same b' ∧
      b'.Sound rl'.capacity now := by
  unfold RateLimiter.acquire
  rw [h₁, h₁', Option.map_some, Option.map_some]
  rcases hsame.take with ⟨ht, ht'⟩ | ⟨c, c', ht, ht', hsame'⟩
  · rw [ht, ht']
    exact ⟨false, b₁, b₁', rfl, rfl, hsame, hsound⟩
  · rw [ht, ht']
    exact ⟨true, c, c', rfl, rfl, hsame', hsound.take ht'⟩

end

/-! ## the limiter beside the one of the other run -/

/-- a limiter that is cleaned up now and then, and one that is not -/
structure Paired (maxAge : Nat) (clock : Int) (rl rl' : RateLimiter) : Prop where
  capacity : rl.capacity = rl'.capacity
  rate : rl.refillPerSec = rl'.refillPerSec
  names : rl.nameText = rl'.nameText
  types : rl.typeText = rl'.typeText
  rate_pos : 0 < rl'.refillPerSec
  -- within `maxAge` a bucket fills
  pays : 1000 * rl'.capacity ≤ rl'.refillPerSec * maxAge
  subnets : ∀ subnet, SameOrIdle maxAge clock (rl.subnetBuckets subnet) (rl'.subnetBuckets subnet)
  sound : ∀ subnet, ∀ c' ∈ rl'.subnetBuckets subnet, c'.Sound rl'.capacity clock
  keys : rl.rrlBuckets.keys ⊆ rl'.rrlBuckets.keys
  room : rl'.rrlBuckets.keys.length ≤ maxTrackedRrlEntries

section
variable {rl rl' : RateLimiter} {subnet : IpAddr} {key : RrlKey} {now clock : Int} {maxAge : Nat}

theorem SameOrIdle.later {b b' : Option Bucket} (h : SameOrIdle maxAge clock b b')
    (horder : clock ≤ now) : SameOrIdle maxAge now b b' := by
  rcases h with ⟨hnone, hidle⟩ | h
  · refine .inl ⟨hnone, fun c' hc' => ?_⟩
    have := hidle c' hc'
    omega
  · exact .inr h

theorem Bucket.Sound.later {b : Bucket} {capacity : Int} (h : b.Sound capacity clock)
    (horder : clock ≤ now) : b.Sound capacity now :=
  ⟨h.tokens_ge, h.tokens_le, h.last_nonneg, h.last_le, Int.le_trans h.seen_le horder⟩

theorem Paired.later (h : Paired maxAge clock rl rl') (horder : clock ≤ now) :
    Paired maxAge now rl rl' :=
  { h with
    subnets := fun subnet => (h.subnets subnet).later horder
    sound := fun subnet c' hc' => (h.sound subnet c' hc').later horder }

theorem Paired.setBucket (h : Paired maxAge clock rl rl') {b b' : Bucket} (hsame : b.Same b')
    (hb : b'.Sound rl'.capacity clock) :
    Paired maxAge clock (rl.setBucket subnet b) (rl'.setBucket subnet b') := by
  refine { h with subnets := fun other => ?_, sound := fun other c' hc' => ?_ }
  · by_cases hother : other = subnet
    · subst hother
      exact .inr ⟨b, b', Function.update_self .., Function.update_self .., hsame⟩
    · unfold RateLimiter.setBucket
      dsimp only
      rw [Function.update_of_ne hother, Function.update_of_ne hother]
      exact h.subnets other
  · unfold RateLimiter.setBucket at hc'
    dsimp only at hc'
    by_cases hother : other = subnet
    · subst hother
      rw [Function.update_self] at hc'
      rw [← Option.some.inj hc']
      exact hb
    · rw [Function.update_of_ne hother] at hc'
      exact h.sound other c' hc'

/-- a name that has room without cleanups has room with them -/
theorem Paired.tracks (h : Paired maxAge clock rl rl') (ht : rl'.tracks key = true) :
    rl.tracks key = true := by
  unfold RateLimiter.tracks at ht ⊢
  have hroom := h.room
  have hle := (rl.rrlBuckets.keys_nodup.subperm h.keys).length_le
  by_cases hmem : key ∈ rl.rrlBuckets
  · rw [decide_eq_true hmem, Bool.true_or]
  · rw [decide_eq_false hmem, Bool.false_or, decide_eq_true_iff]
    by_cases hmem' : key ∈ rl'.rrlBuckets
    · -- the first table is at least this entry short
      have hsub : key :: rl.rrlBuckets.keys ⊆ rl'.rrlBuckets.keys :=
        List.cons_subset.mpr ⟨AList.mem_keys.mp hmem', h.keys⟩
      have hnodup : (key :: rl.rrlBuckets.keys).Nodup :=
        List.nodup_cons.mpr ⟨fun hk => hmem (AList.mem_keys.mpr hk), rl.rrlBuckets.keys_nodup⟩
      have := (hnodup.subperm hsub).length_le
      rw [List.length_cons] at this
      omega
    · rw [decide_eq_false hmem', Bool.false_or, decide_eq_true_iff] at ht
      omega

theorem Paired.setDomain (h : Paired maxAge clock rl rl') {d d' : DomainRateBucket}
    (ht : rl'.tracks key = true) :
    Paired maxAge clock (rl.setDomain key d) (rl'.setDomain key d') := by
  refine { h with keys := fun other hother => ?_, room := ?_ }
  · have hother' := (AList.mem_insert _).mp (AList.mem_keys.mpr hother)
    refine AList.mem_keys.mp ((AList.mem_insert _).mpr ?_)
    exact hother'.imp_right fun hk => AList.mem_keys.mpr (h.keys (AList.mem_keys.mp hk))
  · have hroom := h.room
    unfold RateLimiter.setDomain
    dsimp only
    rw [AList.keys_insert, List.length_cons]
    unfold RateLimiter.tracks at ht
    by_cases hmem : key ∈ rl'.rrlBuckets
    · have hmem' := AList.mem_keys.mp hmem
      have hpos := List.length_pos_of_mem hmem'
      rw [List.length_erase_of_mem hmem']
      omega
    · rw [decide_eq_false hmem, Bool.false_or, decide_eq_true_iff] at ht
      rw [List.erase_of_not_mem fun hk => hmem (AList.mem_keys.mpr hk)]
      omega

theorem Paired.cleanup (h : Paired maxAge clock rl rl') (horder : clock ≤ now)
    (hage : maxAge < 2 ^ 63) {rl₁ : RateLimiter} (hc : rl.cleanup maxAge now = some rl₁) :
    Paired maxAge now rl₁ rl' := by
  have hlater := h.later horder
  have hlookup := LimiterRun.lookup_cleanup hc
  obtain ⟨cutoffMs, hcut, rfl⟩ := Option.map_eq_some_iff.mp hc
  have hcut' := checkedI64_eq hcut
  rw [LimiterRun.millisAsI64_eq hage] at hcut'
  refine { hlater with subnets := fun subnet => ?_, keys := fun key hkey => ?_ }
  · dsimp only
    rcases hlater.subnets subnet with ⟨hnone, hidle⟩ | ⟨c, c', hc, hc', hsame⟩
    · rw [hnone]
      exact .inl ⟨rfl, hidle⟩
    · rw [hc, hc']
      by_cases hseen : cutoffMs ≤ c.lastSeenMillis
      · exact .inr ⟨c, c', Option.filter_eq_some_iff.mpr ⟨rfl, decide_eq_true hseen⟩, rfl, hsame⟩
      · refine .inl ⟨?_, fun x hx => ?_⟩
        · rw [Option.filter_some, decide_eq_false hseen, if_neg Bool.false_ne_true]
        · rw [← Option.some.inj hx, ← hsame.seen]
          omega
  · refine h.keys ?_
    obtain ⟨d, hd⟩ := Option.isSome_iff_exists.mp (AList.lookup_isSome.mpr (AList.mem_keys.mpr hkey))
    rw [hlookup] at hd
    exact AList.mem_keys.mp (AList.lookup_isSome.mp (by
      rw [(Option.filter_eq_some_iff.mp hd).1]
      rfl))

end

/-! ## a query of both runs -/

theorem answer_of_not_reaches (rl : RateLimiter) {q : LimiterQuery} (h : q.reaches = false) :
    checkQuery rl q = some (rl, if q.clientIp.isLoopback then .Allow else .Drop) := by
  unfold checkQuery
  by_cases hloop : q.clientIp.isLoopback = true
  · rw [if_pos hloop, if_pos hloop]
  · rw [if_neg hloop, if_neg hloop]
    have hany : q.protocol = .UDP ∧ q.qtype = .ANY := by
      simp only [Bool.not_eq_true] at hloop
      simpa [LimiterQuery.reaches, hloop] using h
    rw [if_pos hany]

theorem checkQuery_of_tracks {rl : RateLimiter} {q : LimiterQuery} {b : Bucket} {token : Bool}
    (hreach : q.reaches = true) (hu : q.protocol = .UDP)
    (hacq : rl.acquire q.subnet q.now = some (rl.setBucket q.subnet b, token))
    (ht : rl.tracks (q.rrlKey rl) = true) :
    checkQuery rl q = some
      (if token then
        ((rl.setBucket q.subnet b).setDomain (q.rrlKey rl)
            ((rl.domainEntry (q.rrlKey rl) q.nowS).limit q.nowS).1,
          ((rl.domainEntry (q.rrlKey rl) q.nowS).limit q.nowS).2)
      else (rl.setBucket q.subnet b, .Drop)) := by
  simp only [LimiterQuery.reaches, Bool.and_eq_true, Bool.not_eq_true', Bool.and_eq_false_iff,
    decide_eq_false_iff_not] at hreach
  have hloop : ¬ q.clientIp.isLoopback = true := by
    rw [hreach.1]
    exact Bool.false_ne_true
  have hany : ¬ (q.protocol = .UDP ∧ q.qtype = .ANY) := fun hany =>
    hreach.2.elim (fun h => h hany.1) fun h => h hany.2
  unfold checkQuery
  rw [if_neg hloop, if_neg hany, hacq, Option.map_some]
  cases token with
  | false => rfl
  | true =>
    dsimp only
    rw [Bool.not_true, if_neg Bool.false_ne_true, if_neg (not_not.mpr hu), if_pos rfl]
    unfold RateLimiter.limitName
    have ht' : (rl.setBucket q.subnet b).tracks (q.rrlKey (rl.setBucket q.subnet b)) = true := ht
    rw [ht', Bool.not_true, if_neg Bool.false_ne_true]
    rfl

/-- entries of names that are the same before a query are the same after it, and give the same
answer -/
structure Agrees (rl rl' rl₁ rl₁' : RateLimiter) (q : LimiterQuery) (action action' : RrlAction) :
    Prop where
  answer : rl.rrlBuckets.lookup (q.rrlKey rl) = rl'.rrlBuckets.lookup (q.rrlKey rl) →
    action = action'
  entries : ∀ key, rl.rrlBuckets.lookup key = rl'.rrlBuckets.lookup key →
    rl₁.rrlBuckets.lookup key = rl₁'.rrlBuckets.lookup key

section
variable {rl rl' : RateLimiter} {q : LimiterQuery} {clock : Int} {maxAge : Nat}

theorem Paired.query_reaches (h : Paired maxAge clock rl rl') (hage : 1000 ≤ maxAge)
    (hclock : 0 ≤ clock) (horder : clock ≤ q.now) (hnow : q.now < 2 ^ 63)
    (hu : q.protocol = .UDP) (hreach : q.reaches = true)
    (ht : rl'.tracks (q.rrlKey rl') = true) (hsome : (checkQuery rl' q).isSome = true) :
    ∃ rl₁ rl₁' action action', checkQuery rl q = some (rl₁, action) ∧
      checkQuery rl' q = some (rl₁', action') ∧ Paired maxAge q.now rl₁ rl₁' ∧
      Agrees rl rl' rl₁ rl₁' q action action' := by
  have hkey : q.rrlKey rl = q.rrlKey rl' := by
    unfold LimiterQuery.rrlKey
    rw [h.names, h.types]
  -- the refill of the second run does not overflow, nor does the one of the first
  cases hrefill : (rl'.entry q.subnet q.now).refill rl'.capacity rl'.refillPerSec q.now with
  | none =>
    have hnone := (checkQuery_of_reaches hreach).1 ((acquire_eq rl' q.subnet q.now).2 hrefill)
    rw [hnone] at hsome
    cases hsome
  | some b₁' =>
    obtain ⟨⟨b₁, hb₁, hsame⟩, hsound⟩ := entry_beside h.capacity h.rate h.rate_pos h.pays hage
      hclock horder hnow (h.subnets q.subnet) (h.sound q.subnet) hrefill
    obtain ⟨token, b, b', hacq, hacq', hsame', hsound'⟩ := acquire_beside hb₁ hrefill hsame hsound
    have hpair : Paired maxAge q.now (rl.setBucket q.subnet b) (rl'.setBucket q.subnet b') :=
      (h.later horder).setBucket hsame' hsound'
    have hq := checkQuery_of_tracks hreach hu hacq (hkey ▸ h.tracks ht)
    have hq' := checkQuery_of_tracks hreach hu hacq' ht
    cases token with
    | false => exact ⟨_, _, _, _, hq, hq', hpair, fun _ => rfl, fun key hk => hk⟩
    | true =>
      rw [← hkey] at hq' ht
      have hentry : rl.rrlBuckets.lookup (q.rrlKey rl) = rl'.rrlBuckets.lookup (q.rrlKey rl) →
          rl.domainEntry (q.rrlKey rl) q.nowS = rl'.domainEntry (q.rrlKey rl) q.nowS := by
        intro hl
        unfold RateLimiter.domainEntry
        rw [hl]
      refine ⟨_, _, _, _, hq, hq', hpair.setDomain ht, ?_, fun key hl => ?_⟩
      · intro hl
        rw [hentry hl]
      · unfold RateLimiter.setDomain
        dsimp only
        by_cases hk : key = q.rrlKey rl
        · subst hk
          rw [AList.lookup_insert, AList.lookup_insert, hentry hl]
        · rw [AList.lookup_insert_ne hk, AList.lookup_insert_ne hk]
          exact hl

end

/-! ## the runs -/

namespace LimiterRun

/-- the times of the queries for a name -/
def askTimes (st : LimiterRun) (key : RrlKey) : List Int :=
  (st.log.filter fun r => decide (r.key = key)).map ReceivedQuery.now

/-- no two queries in a row are more than `maxAge` apart -/
def AskedOften (maxAge : Nat) (times : List Int) : Prop :=
  times.IsChain fun earlier later : Int => later - earlier ≤ maxAge

/-- the query does not end the process, and its name has an entry or room for one -/
def Roomy (st : LimiterRun) : LimiterEvent → Prop
  | .query q => (checkQuery st.limiter q).isSome = true ∧
      (q.reaches = true → st.limiter.tracks (q.rrlKey st.limiter) = true)
  | .cleanup _ => True

def answer (st : LimiterRun) (q : LimiterQuery) : Option RrlAction :=
  (checkQuery st.limiter q).map Prod.snd

/-- a run and the run of its queries alone: the entry of a name that was asked for often enough is
the same, or the name was not asked for within `maxAge` -/
structure Beside (maxAge : Nat) (st st' : LimiterRun) : Prop where
  limiter : Paired maxAge st.clock st.limiter st'.limiter
  ledger : Ledger st
  running : st.aborted = false
  running' : st'.aborted = false
  entries : ∀ key, AskedOften maxAge (st.askTimes key) →
    st.limiter.rrlBuckets.lookup key = st'.limiter.rrlBuckets.lookup key ∨
      ∃ last ∈ (st.askTimes key).getLast?, last < st.clock - maxAge

section
variable {st st' : LimiterRun} {maxAge : Nat} {q : LimiterQuery} {now : Int}

theorem askedOften_append {times : List Int} (h : AskedOften maxAge (times ++ [now])) :
    AskedOften maxAge times ∧ ∀ last ∈ times.getLast?, now - last ≤ maxAge := by
  obtain ⟨hbefore, -, hlast⟩ := List.isChain_append.mp h
  exact ⟨hbefore, fun last hl => hlast last hl now rfl⟩

theorem askTimes_noted (hreach : q.reaches = true) (key : RrlKey) {st₁ : LimiterRun}
    (hlog : st₁.log = st.noted q) : st₁.askTimes key =
      if q.rrlKey st.limiter = key then st.askTimes key ++ [q.now] else st.askTimes key := by
  unfold askTimes
  rw [hlog, noted, if_pos hreach, List.filter_append, List.map_append, List.filter_singleton]
  by_cases hkey : q.rrlKey st.limiter = key
  · rw [if_pos hkey, decide_eq_true hkey, cond_true]
    rfl
  · rw [if_neg hkey, decide_eq_false hkey, cond_false]
    exact List.append_nil _

theorem Beside.found (h : Beside maxAge st st') (hin : InTime st (.query q))
    (hoften : AskedOften maxAge (st.askTimes (q.rrlKey st.limiter) ++ [q.now])) :
    st.limiter.rrlBuckets.lookup (q.rrlKey st.limiter) =
      st'.limiter.rrlBuckets.lookup (q.rrlKey st.limiter) := by
  have horder : st.clock ≤ q.now := hin.order
  obtain ⟨hbefore, hlast⟩ := askedOften_append hoften
  rcases h.entries _ hbefore with hsame | ⟨last, hmem, hold⟩
  · exact hsame
  · have := hlast last hmem
    omega

theorem Beside.query (h : Beside maxAge st st') (hage : 1000 ≤ maxAge)
    (hin : InTime st (.query q)) (hroomy : Roomy st' (.query q)) :
    Beside maxAge (st.step maxAge (.query q)) (st'.step maxAge (.query q)) ∧
      (AskedOften maxAge (st.askTimes (q.rrlKey st.limiter) ++ [q.now]) →
        st.answer q = st'.answer q) := by
  have horder : st.clock ≤ q.now := hin.order
  have hrange : q.now < 2 ^ 32 * 1000 := hin.range
  have hledger : Ledger (st.step maxAge (.query q)) := h.ledger.step hin
  unfold step at hledger ⊢
  unfold answer
  rw [h.running, if_neg Bool.false_ne_true] at hledger ⊢
  rw [h.running', if_neg Bool.false_ne_true]
  dsimp only at hledger ⊢
  cases hreach : q.reaches with
  | false =>
    have hnoted : st.noted q = st.log := by
      rw [noted, hreach, if_neg Bool.false_ne_true]
    rw [answer_of_not_reaches st.limiter hreach] at hledger ⊢
    rw [answer_of_not_reaches st'.limiter hreach]
    dsimp only at hledger ⊢
    rw [hnoted] at hledger ⊢
    refine ⟨⟨h.limiter.later horder, hledger, rfl, rfl, fun key hoften => ?_⟩,
      fun _ => rfl⟩
    rcases h.entries key hoften with hsame | ⟨last, hmem, hold⟩
    · exact .inl hsame
    · exact .inr ⟨last, hmem, show last < q.now - maxAge by omega⟩
  | true =>
    obtain ⟨rl₁, rl₁', action, action', hq, hq', hpair, hagree⟩ := h.limiter.query_reaches hage
      h.ledger.clock horder (by omega) (of_decide_eq_true hin.udp) hreach (hroomy.2 hreach)
      hroomy.1
    rw [hq] at hledger ⊢
    rw [hq']
    dsimp only at hledger ⊢
    refine ⟨⟨hpair, hledger, rfl, rfl, fun key hoften => ?_⟩, fun hoften => ?_⟩
    · rw [askTimes_noted hreach key rfl] at hoften ⊢
      by_cases hkey : q.rrlKey st.limiter = key
      · subst hkey
        rw [if_pos rfl] at hoften
        exact .inl (hagree.entries _ (h.found hin hoften))
      · rw [if_neg hkey] at hoften ⊢
        rcases h.entries key hoften with hsame | ⟨last, hmem, hold⟩
        · exact .inl (hagree.entries key hsame)
        · exact .inr ⟨last, hmem, show last < q.now - maxAge by omega⟩
    · rw [Option.map_some, Option.map_some, hagree.answer (h.found hin hoften)]

/-- a cleanup of the first run alone evicts only names not asked for within `maxAge` -/
theorem Beside.cleanup (h : Beside maxAge st st') (hage : maxAge < 2 ^ 63)
    (hin : InTime st (.cleanup now)) (hcounts : CountsRecent maxAge st (.cleanup now)) :
    Beside maxAge (st.step maxAge (.cleanup now)) st' := by
  have horder : st.clock ≤ now := hin.order
  have hledger : Ledger (st.step maxAge (.cleanup now)) := h.ledger.step hin
  have hkeeps := (h.ledger.keepsRecent_iff hin hage).mpr hcounts
  obtain ⟨rl, hrl⟩ := cleanup_isSome h.ledger hin hage
  unfold step at hledger ⊢
  rw [h.running, if_neg Bool.false_ne_true] at hledger ⊢
  dsimp only at hledger ⊢
  rw [hrl] at hledger ⊢
  dsimp only at hledger ⊢
  refine ⟨h.limiter.cleanup horder hage hrl, hledger, rfl, h.running', fun key hoften => ?_⟩
  dsimp only
  rcases h.entries key hoften with hsame | ⟨last, hmem, hold⟩
  · rw [← hsame]
    by_cases hkept : rl.rrlBuckets.lookup key = st.limiter.rrlBuckets.lookup key
    · exact .inl hkept
    · -- evicted, so no query of the name is recent
      right
      have hfilter := lookup_cleanup hrl key
      cases hd : st.limiter.rrlBuckets.lookup key with
      | none =>
        rw [hd] at hfilter hkept
        exact absurd hfilter hkept
      | some d =>
        have hgone : key ∉ rl.rrlBuckets.keys := by
          intro hk
          obtain ⟨d', hd'⟩ := Option.isSome_iff_exists.mp
            (AList.lookup_isSome.mpr (AList.mem_keys.mpr hk))
          have hsome := hd'
          rw [hfilter, hd] at hsome
          rw [hd', hd, (Option.filter_eq_some_iff.mp hsome).1] at hkept
          exact hkept rfl
        have hthere : key ∈ st.limiter.rrlBuckets.keys :=
          AList.mem_keys.mp (AList.lookup_isSome.mp (by rw [hd]; rfl))
        have hold : ¬ st.Recent maxAge now key := fun hr => hgone (hkeeps rl hrl key hthere hr)
        obtain ⟨r, hr, hrkey, -, -⟩ := h.ledger.counted key d hd
        have hasked : r.now ∈ st.askTimes key :=
          List.mem_map.mpr ⟨r, List.mem_filter.mpr ⟨hr, decide_eq_true hrkey⟩, rfl⟩
        have hlast := List.getLast?_eq_some_getLast (List.ne_nil_of_mem hasked)
        refine ⟨_, hlast, ?_⟩
        obtain ⟨r', hr', hnow⟩ := List.mem_map.mp (List.mem_of_getLast? hlast)
        obtain ⟨hr', hkey'⟩ := List.mem_filter.mp hr'
        rw [← hnow]
        by_contra hrecent
        exact hold ⟨r', hr', of_decide_eq_true hkey', by omega⟩
  · exact .inr ⟨last, hmem, by omega⟩

theorem beside_start {capacity refillPerSec : Int} (nameText : NameText)
    (typeText : RecordType → Bytes) (hrate : 0 < refillPerSec)
    (hpays : 1000 * capacity ≤ refillPerSec * maxAge) :
    Beside maxAge (start capacity refillPerSec nameText typeText)
      (start capacity refillPerSec nameText typeText) where
  limiter :=
    { capacity := rfl
      rate := rfl
      names := rfl
      types := rfl
      rate_pos := hrate
      pays := hpays
      subnets := fun subnet => .inl ⟨rfl, fun c' hc' => absurd hc' (by simp [start, RateLimiter.new])⟩
      sound := fun subnet c' hc' => absurd hc' (by simp [start, RateLimiter.new])
      keys := List.Subset.refl _
      room := Nat.zero_le _ }
  ledger := ledger_start capacity refillPerSec nameText typeText
  running := rfl
  running' := rfl
  entries := fun key _ => .inl rfl

theorem Beside.run {events : List LimiterEvent} (h : Beside maxAge st st') (hmin : 1000 ≤ maxAge)
    (hmax : maxAge < 2 ^ 63) (hin : Run.Meets (step maxAge) InTime events st)
    (hcounts : Run.Meets (step maxAge) (CountsRecent maxAge) events st)
    (hroomy : Run.Meets (step maxAge) Roomy (events.filter LimiterEvent.isQuery) st') :
    Beside maxAge (events.foldl (step maxAge) st)
      ((events.filter LimiterEvent.isQuery).foldl (step maxAge) st') := by
  refine Run.Meets.stutter (fun s s' ev hv hbeside hok hroom => ?_) (fun s s' ev hv hbeside hok => ?_)
    h (hin.and hcounts) hroomy
  · cases ev with
    | query q => exact (hbeside.query hmin hok.1 hroom).1
    | cleanup now => cases hv
  · cases ev with
    | query q => cases hv
    | cleanup now => exact hbeside.cleanup hmax hok.1 hok.2

end

/-- the queries of a run whose name is asked for often enough are answered as in the run of the
queries alone -/
def SameAnswers (maxAge : Nat) (events : List LimiterEvent) (st : LimiterRun) : Prop :=
  ∀ before q after, events = before ++ .query q :: after →
    AskedOften maxAge ((before.foldl (step maxAge) st).askTimes
      (q.rrlKey (before.foldl (step maxAge) st).limiter) ++ [q.now]) →
    (before.foldl (step maxAge) st).answer q =
      ((before.filter LimiterEvent.isQuery).foldl (step maxAge) st).answer q

/-- **Cleanups.**  They keep the entries of the names that were queried within `maxAge` exactly if
each of these counted a query within it; and then, if buckets fill within `maxAge` and no name is
turned away, they change no answer for a name that is asked for often enough. -/
theorem cleanup_forgets_iff (capacity refillPerSec : Int) (nameText : NameText)
    (typeText : RecordType → Bytes) {maxAge : Nat} (hmin : 3000 < maxAge) (hmax : maxAge < 2 ^ 63)
    {events : List LimiterEvent} (hin : Run.Meets (step maxAge) InTime events
      (start capacity refillPerSec nameText typeText)) :
    (Run.Meets (step maxAge) (KeepsRecent maxAge) events
        (start capacity refillPerSec nameText typeText) ↔
      Run.Meets (step maxAge) (CountsRecent maxAge) events
        (start capacity refillPerSec nameText typeText)) ∧
    (Run.Meets (step maxAge) (CountsRecent maxAge) events
        (start capacity refillPerSec nameText typeText) →
      0 < refillPerSec → 1000 * capacity ≤ refillPerSec * maxAge →
      Run.Meets (step maxAge) Roomy (events.filter LimiterEvent.isQuery)
        (start capacity refillPerSec nameText typeText) →
      SameAnswers maxAge events (start capacity refillPerSec nameText typeText)) := by
  refine ⟨keepsRecent_iff (ledger_start _ _ _ _) hmax hin, ?_⟩
  intro hcounts hrate hpays hroomy before q after hevents hoften
  subst hevents
  have hbefore := Run.Meets.append.mp hin
  rw [List.filter_append, List.filter_cons_of_pos rfl] at hroomy
  have hroomy' := Run.Meets.append.mp hroomy
  have hbeside := (beside_start nameText typeText hrate hpays).run (by omega) hmax hbefore.1
    (Run.Meets.append.mp hcounts).1 hroomy'.1
  exact (hbeside.query (by omega) hbefore.2.1 hroomy'.2.1).2 hoften

/-! ## two floods -/

instance (maxAge : Nat) (times : List Int) : Decidable (AskedOften maxAge times) :=
  inferInstanceAs (Decidable (times.IsChain fun earlier later : Int => later - earlier ≤ maxAge))

instance (st : LimiterRun) : (ev : LimiterEvent) → Decidable (Roomy st ev)
  | .query q => inferInstanceAs (Decidable ((checkQuery st.limiter q).isSome = true ∧
      (q.reaches = true → st.limiter.tracks (q.rrlKey st.limiter) = true)))
  | .cleanup _ => isTrue trivial

/-- the limiter of the runs below, with `max_age` four seconds -/
def floodStart : LimiterRun := start 100 60 .dotted addressMnemonic

/-- three queries in one second, a cleanup and a query during the penalty -/
def shortFlood : List LimiterEvent :=
  ([10000, 10100, 10200].map fun now => .query (rootQuery now)) ++
    [.cleanup 11000, .query (rootQuery 12000)]

theorem cleanup_forgets_shortFlood :
    ((shortFlood.take 4).foldl (step 4000) floodStart).answer (rootQuery 12000) = some .Drop ∧
      Run.Meets (step 4000) (KeepsRecent 4000) shortFlood floodStart ∧
      SameAnswers 4000 shortFlood floodStart := by
  have hin : Run.Meets (step 4000) InTime shortFlood floodStart := by decide +kernel
  have hcounts : Run.Meets (step 4000) (CountsRecent 4000) shortFlood floodStart := by
    decide +kernel
  have hroomy : Run.Meets (step 4000) Roomy (shortFlood.filter LimiterEvent.isQuery) floodStart := by
    decide +kernel
  have h := cleanup_forgets_iff 100 60 .dotted addressMnemonic (show 3000 < 4000 by omega)
    (by omega) hin
  exact ⟨by decide +kernel, h.1.mpr hcounts, h.2 hcounts (by omega) (by omega) hroomy⟩

/-- a query in every penalty, and a cleanup five seconds after the last count -/
def longFlood : List LimiterEvent :=
  ([10000, 10001, 10002, 12000, 14000].map fun now => .query (rootQuery now)) ++
    [.cleanup 15000, .query (rootQuery 15500)]

theorem longFlood_forgiven :
    Run.Meets (step 4000) InTime longFlood floodStart ∧
      ¬ Run.Meets (step 4000) (KeepsRecent 4000) longFlood floodStart ∧
      ¬ SameAnswers 4000 longFlood floodStart := by
  refine ⟨by decide +kernel, by decide +kernel, fun h => ?_⟩
  have hsame := h (longFlood.take 6) (rootQuery 15500) [] rfl (by decide +kernel)
  exact absurd hsame (by decide +kernel)

end LimiterRun
end DnsResolver
