import DnsResolver.Lib.Run
import DnsResolver.Engine.DuplicateQueries
import DnsResolver.Engine.RefillCredit

/-!
# Cleanup between queries (`cleanup` of `ratelimit.rs`)

The maintenance task drops the buckets that were not seen for `max_age`.  The age of a bucket of a
name is read from its packed epoch, which only a counted query moves.

* `cleanup`              `RateLimiter::cleanup`, `none` if the process aborts;
* `LimiterRun.step`       a query is checked, or the maintenance task runs;
* `Ledger`               the epoch of an entry is the second of the last counted query;
* `keepsRecent_iff`      when a cleanup keeps the entries of the names queried within `max_age`.
-/

namespace DnsResolver

/-! ## cleanup -/

/-- `retain` of `rrl_buckets` -/
def retainDomains (table : AList fun _ : RrlKey => DomainRateBucket)
    (keep : DomainRateBucket → Bool) : AList fun _ : RrlKey => DomainRateBucket :=
  ⟨table.entries.filter fun e => keep e.2, table.nodupKeys.sublist List.filter_sublist⟩

/-- `max_age.as_millis() as i64` -/
def millisAsI64 (maxAge : Nat) : Int := (maxAge : Int).bmod (2 ^ 64)

def RateLimiter.cleanup (rl : RateLimiter) (maxAge : Nat) (now : Int) : Option RateLimiter :=
  (checkedI64 (now - millisAsI64 maxAge)).map fun cutoffMs =>
    let cutoffS := cutoffMs.tdiv 1000
    { rl with
      subnetBuckets := fun subnet =>
        (rl.subnetBuckets subnet).filter fun b => decide (cutoffMs ≤ b.lastSeenMillis)
      rrlBuckets := retainDomains rl.rrlBuckets fun d => decide (cutoffS ≤ (d.epochOf : Int)) }

theorem lookup_retainDomains (table : AList fun _ : RrlKey => DomainRateBucket)
    (keep : DomainRateBucket → Bool) (key : RrlKey) :
    (retainDomains table keep).lookup key = (table.lookup key).filter keep := by
  refine Option.ext fun d => ?_
  rw [← Option.mem_def, AList.mem_lookup_iff, Option.filter_eq_some_iff, ← Option.mem_def,
    AList.mem_lookup_iff]
  exact List.mem_filter

/-- the epoch moves unless the penalty answers -/
theorem DomainRateBucket.limit_epoch {d : DomainRateBucket} {s : Int} (h0 : 0 ≤ s)
    (h : s < 2 ^ 32) (he : (d.epochOf : Int) ≤ s) :
    (s < d.penalizedUntilSec ∧ (d.limit s).1.epochOf = d.epochOf) ∨
      (d.penalizedUntilSec ≤ s ∧ ((d.limit s).1.epochOf : Int) = s) := by
  have hcase := limit_cases h0 h he
  generalize (d.limit s).1 = d' at hcase ⊢
  generalize (d.limit s).2 = action at hcase
  cases hcase with
  | penalized hp _ hep => exact .inl ⟨hp, hep⟩
  | first hp _ _ _ hep => exact .inr ⟨hp, hep⟩
  | second hp _ _ _ hep => exact .inr ⟨hp, hep⟩
  | later hp _ _ _ hep => exact .inr ⟨hp, hep⟩

/-! ## runs -/

inductive LimiterEvent where
  | query (q : LimiterQuery)
  | cleanup (now : Int)

namespace LimiterEvent

def time : LimiterEvent → Int
  | query q => q.now
  | cleanup now => now

def isQuery : LimiterEvent → Bool
  | query _ => true
  | cleanup _ => false

def overUdp : LimiterEvent → Bool
  | query q => decide (q.protocol = .UDP)
  | cleanup _ => true

end LimiterEvent

/-- a query that came to the buckets -/
structure ReceivedQuery where
  key : RrlKey
  now : Int
  /-- it got a token and was not answered by the penalty -/
  counted : Bool
  deriving DecidableEq

/-- a limiter between two events, with the time of the last one and the queries so far -/
structure LimiterRun where
  limiter : RateLimiter
  clock : Int := 0
  log : List ReceivedQuery := []
  aborted : Bool := false

/-- the query moves the counter of its name -/
def isCounted (rl : RateLimiter) (q : LimiterQuery) : Bool :=
  countsFor rl (q.rrlKey rl) q &&
    decide ((rl.domainEntry (q.rrlKey rl) q.nowS).penalizedUntilSec ≤ q.nowS)

namespace LimiterRun

def start (capacity refillPerSec : Int) (nameText : NameText) (typeText : RecordType → Bytes) :
    LimiterRun :=
  { limiter := RateLimiter.new capacity refillPerSec nameText typeText }

def noted (st : LimiterRun) (q : LimiterQuery) : List ReceivedQuery :=
  if q.reaches then st.log ++ [⟨q.rrlKey st.limiter, q.now, isCounted st.limiter q⟩] else st.log

def step (maxAge : Nat) (st : LimiterRun) (ev : LimiterEvent) : LimiterRun :=
  if st.aborted then st
  else
    match ev with
    | .query q =>
      match checkQuery st.limiter q with
      | none => { st with aborted := true }
      | some r => { st with limiter := r.1, clock := q.now, log := st.noted q }
    | .cleanup now =>
      match st.limiter.cleanup maxAge now with
      | none => { st with aborted := true }
      | some rl => { st with limiter := rl, clock := now }

/-- the name was queried within the last `maxAge` -/
def Recent (st : LimiterRun) (maxAge : Nat) (now : Int) (key : RrlKey) : Prop :=
  ∃ r ∈ st.log, r.key = key ∧ now - maxAge ≤ r.now

/-- a cleanup evicts no entry of a name that was queried within the last `maxAge` -/
def KeepsRecent (maxAge : Nat) (st : LimiterRun) : LimiterEvent → Prop
  | .query _ => True
  | .cleanup now => ∀ rl ∈ st.limiter.cleanup maxAge now, ∀ key ∈ st.limiter.rrlBuckets.keys,
      st.Recent maxAge now key → key ∈ rl.rrlBuckets.keys

/-- when a cleanup comes, an entry whose name was queried within the last `maxAge` counted a query
within it, in whole seconds -/
def CountsRecent (maxAge : Nat) (st : LimiterRun) : LimiterEvent → Prop
  | .query _ => True
  | .cleanup now => ∀ key ∈ st.limiter.rrlBuckets.keys, st.Recent maxAge now key →
      ∃ r ∈ st.log, r.key = key ∧ r.counted = true ∧
        (now - maxAge).tdiv 1000 ≤ r.now.tdiv 1000

/-- the clock does not go back and its seconds fit in 32 bits, and queries come over UDP -/
structure InTime (st : LimiterRun) (ev : LimiterEvent) : Prop where
  order : st.clock ≤ ev.time
  range : ev.time < 2 ^ 32 * 1000
  udp : ev.overUdp = true

instance (st : LimiterRun) (maxAge : Nat) (now : Int) (key : RrlKey) :
    Decidable (st.Recent maxAge now key) :=
  inferInstanceAs (Decidable (∃ r ∈ st.log, r.key = key ∧ now - maxAge ≤ r.now))

instance (maxAge : Nat) (st : LimiterRun) :
    (ev : LimiterEvent) → Decidable (KeepsRecent maxAge st ev)
  | .query _ => isTrue trivial
  | .cleanup now => inferInstanceAs (Decidable (∀ rl ∈ st.limiter.cleanup maxAge now,
      ∀ key ∈ st.limiter.rrlBuckets.keys, st.Recent maxAge now key → key ∈ rl.rrlBuckets.keys))

instance (maxAge : Nat) (st : LimiterRun) :
    (ev : LimiterEvent) → Decidable (CountsRecent maxAge st ev)
  | .query _ => isTrue trivial
  | .cleanup now => inferInstanceAs (Decidable (∀ key ∈ st.limiter.rrlBuckets.keys,
      st.Recent maxAge now key → ∃ r ∈ st.log, r.key = key ∧ r.counted = true ∧
        (now - maxAge).tdiv 1000 ≤ r.now.tdiv 1000))

instance (st : LimiterRun) (ev : LimiterEvent) : Decidable (InTime st ev) :=
  decidable_of_iff (st.clock ≤ ev.time ∧ ev.time < 2 ^ 32 * 1000 ∧ ev.overUdp = true)
    ⟨fun h => ⟨h.1, h.2.1, h.2.2⟩, fun h => ⟨h.order, h.range, h.udp⟩⟩

/-! ## the last counted query -/

/-- the log is up to the clock, and the epoch of an entry is the second of the last counted query
of its name -/
structure Ledger (st : LimiterRun) : Prop where
  clock : 0 ≤ st.clock
  past : ∀ r ∈ st.log, 0 ≤ r.now ∧ r.now ≤ st.clock
  counted : ∀ key d, st.limiter.rrlBuckets.lookup key = some d →
    ∃ r ∈ st.log, r.key = key ∧ r.counted = true ∧ r.now.tdiv 1000 = (d.epochOf : Int)
  latest : ∀ key d, st.limiter.rrlBuckets.lookup key = some d → ∀ r ∈ st.log, r.key = key →
    r.counted = true → r.now.tdiv 1000 ≤ (d.epochOf : Int)

theorem ledger_start (capacity refillPerSec : Int) (nameText : NameText)
    (typeText : RecordType → Bytes) : Ledger (start capacity refillPerSec nameText typeText) where
  clock := le_rfl
  past := fun r hr => absurd hr List.not_mem_nil
  counted := fun key d hd => absurd hd (by simp [start, RateLimiter.new])
  latest := fun key d hd => absurd hd (by simp [start, RateLimiter.new])

section
variable {st : LimiterRun} {maxAge : Nat} {q : LimiterQuery} {now : Int}

theorem tdiv_mono {a b : Int} (ha : 0 ≤ a) (h : a ≤ b) : a.tdiv 1000 ≤ b.tdiv 1000 := by
  rw [Int.tdiv_eq_ediv_of_nonneg ha, Int.tdiv_eq_ediv_of_nonneg (by omega)]
  omega

theorem InTime.second (h : InTime st (.query q)) (h0 : 0 ≤ st.clock) :
    0 ≤ q.nowS ∧ q.nowS < 2 ^ 32 ∧ st.clock.tdiv 1000 ≤ q.nowS := by
  have horder : st.clock ≤ q.now := h.order
  have hrange : q.now < 2 ^ 32 * 1000 := h.range
  refine ⟨?_, ?_, tdiv_mono h0 horder⟩
  · exact Int.tdiv_nonneg (by omega) (by omega)
  · rw [LimiterQuery.nowS, Int.tdiv_eq_ediv_of_nonneg (by omega)]
    omega

theorem Ledger.epoch_le (hl : Ledger st) {key : RrlKey} {d : DomainRateBucket}
    (hd : st.limiter.rrlBuckets.lookup key = some d) :
    (d.epochOf : Int) ≤ st.clock.tdiv 1000 := by
  obtain ⟨r, hr, -, -, hsec⟩ := hl.counted key d hd
  rw [← hsec]
  exact tdiv_mono (hl.past r hr).1 (hl.past r hr).2

theorem noted_of_counts {key : RrlKey} (h : countsFor st.limiter key q = true) :
    st.noted q = st.log ++ [⟨q.rrlKey st.limiter, q.now, isCounted st.limiter q⟩] := by
  have hreach : q.reaches = true := by
    simp only [countsFor, obtainsToken, Bool.and_eq_true] at h
    exact h.1.1.2.1
  rw [noted, if_pos hreach]

theorem mem_noted {r : ReceivedQuery} (h : r ∈ st.noted q) :
    r ∈ st.log ∨ r = ⟨q.rrlKey st.limiter, q.now, isCounted st.limiter q⟩ := by
  unfold noted at h
  split at h
  · rcases List.mem_append.mp h with h | h
    · exact .inl h
    · exact .inr (List.mem_singleton.mp h)
  · exact .inl h

theorem log_subset_noted (st : LimiterRun) (q : LimiterQuery) : st.log ⊆ st.noted q := by
  unfold noted
  split
  · exact List.subset_append_left _ _
  · exact List.Subset.refl _

theorem Ledger.untouched (hl : Ledger st) (hin : InTime st (.query q)) {rl : RateLimiter}
    (hsame : rl.rrlBuckets = st.limiter.rrlBuckets)
    (hnot : ∀ key, countsFor st.limiter key q = false) :
    Ledger { st with limiter := rl, clock := q.now, log := st.noted q } := by
  have horder : st.clock ≤ q.now := hin.order
  have hclock := hl.clock
  have hfalse : isCounted st.limiter q = false := by
    rw [isCounted, hnot, Bool.false_and]
  constructor
  · exact Int.le_trans hclock horder
  · intro r hr
    rcases mem_noted hr with hr | rfl
    · have := hl.past r hr
      exact ⟨this.1, Int.le_trans this.2 horder⟩
    · exact ⟨Int.le_trans hclock horder, le_rfl⟩
  · intro key d hd
    dsimp only at hd
    rw [hsame] at hd
    obtain ⟨r, hr, h⟩ := hl.counted key d hd
    exact ⟨r, log_subset_noted st q hr, h⟩
  · intro key d hd r hr hkey hcounted
    dsimp only at hd
    rw [hsame] at hd
    rcases mem_noted hr with hr | rfl
    · exact hl.latest key d hd r hr hkey hcounted
    · rw [hfalse] at hcounted
      cases hcounted

theorem Ledger.entry (hl : Ledger st) (hin : InTime st (.query q))
    (hcounts : countsFor st.limiter (q.rrlKey st.limiter) q = true) :
    (∃ r ∈ st.noted q, r.key = q.rrlKey st.limiter ∧ r.counted = true ∧
        r.now.tdiv 1000 =
          ((((st.limiter.domainEntry (q.rrlKey st.limiter) q.nowS).limit q.nowS).1).epochOf : Int)) ∧
      ∀ r ∈ st.noted q, r.key = q.rrlKey st.limiter → r.counted = true → r.now.tdiv 1000 ≤
        ((((st.limiter.domainEntry (q.rrlKey st.limiter) q.nowS).limit q.nowS).1).epochOf : Int) := by
  obtain ⟨h0, h32, hle⟩ := hin.second hl.clock
  have hcounted : isCounted st.limiter q = decide
      ((st.limiter.domainEntry (q.rrlKey st.limiter) q.nowS).penalizedUntilSec ≤ q.nowS) := by
    rw [isCounted, hcounts, Bool.true_and]
  have hep : ((st.limiter.domainEntry (q.rrlKey st.limiter) q.nowS).epochOf : Int) ≤ q.nowS := by
    unfold RateLimiter.domainEntry
    cases hd : st.limiter.rrlBuckets.lookup (q.rrlKey st.limiter) with
    | none => exact Int.le_of_eq (DomainRateBucket.new_unpack h0 h32).1
    | some d => exact Int.le_trans (hl.epoch_le hd) hle
  have hnew : ∀ r ∈ st.noted q, r ∈ st.log ∨
      r = ⟨q.rrlKey st.limiter, q.now, isCounted st.limiter q⟩ := fun r hr => mem_noted hr
  rw [hcounted] at hnew
  rcases DomainRateBucket.limit_epoch h0 h32 hep with ⟨hpen, hsame⟩ | ⟨hpen, hsec⟩
  · -- only an entry that was there can have a penalty
    rw [hsame]
    unfold RateLimiter.domainEntry at hpen hnew ⊢
    cases hd : st.limiter.rrlBuckets.lookup (q.rrlKey st.limiter) with
    | none =>
      rw [hd] at hpen
      exact absurd (show q.nowS < 0 from hpen) (by omega)
    | some d =>
      rw [hd, Option.getD_some] at hpen hnew
      rw [Option.getD_some]
      obtain ⟨r, hr, h⟩ := hl.counted _ d hd
      refine ⟨⟨r, log_subset_noted st q hr, h⟩, fun r hr hkey hc => ?_⟩
      rcases hnew r hr with hr | rfl
      · exact hl.latest _ d hd r hr hkey hc
      · exact absurd (of_decide_eq_true hc) (by omega)
  · rw [hsec]
    refine ⟨⟨⟨q.rrlKey st.limiter, q.now, true⟩, ?_, rfl, rfl, rfl⟩, fun r hr _ _ => ?_⟩
    · rw [noted_of_counts hcounts, hcounted, decide_eq_true hpen]
      exact List.mem_append_right _ (List.mem_singleton_self _)
    · rcases hnew r hr with hr | rfl
      · exact Int.le_trans (tdiv_mono (hl.past r hr).1 (hl.past r hr).2) hle
      · exact le_rfl

theorem Ledger.limited (hl : Ledger st) (hin : InTime st (.query q)) {rl : RateLimiter}
    (hcounts : countsFor st.limiter (q.rrlKey st.limiter) q = true)
    (hins : rl.rrlBuckets = st.limiter.rrlBuckets.insert (q.rrlKey st.limiter)
      ((st.limiter.domainEntry (q.rrlKey st.limiter) q.nowS).limit q.nowS).1) :
    Ledger { st with limiter := rl, clock := q.now, log := st.noted q } := by
  have horder : st.clock ≤ q.now := hin.order
  have hclock := hl.clock
  obtain ⟨hmade, hlatest⟩ := hl.entry hin hcounts
  constructor
  · exact Int.le_trans hclock horder
  · intro r hr
    rcases mem_noted hr with hr | rfl
    · have := hl.past r hr
      exact ⟨this.1, Int.le_trans this.2 horder⟩
    · exact ⟨Int.le_trans hclock horder, le_rfl⟩
  · intro key d hd
    dsimp only at hd
    rw [hins] at hd
    by_cases hkey : key = q.rrlKey st.limiter
    · subst hkey
      rw [AList.lookup_insert] at hd
      rw [← Option.some.inj hd]
      exact hmade
    · rw [AList.lookup_insert_ne hkey] at hd
      obtain ⟨r, hr, h⟩ := hl.counted key d hd
      exact ⟨r, log_subset_noted st q hr, h⟩
  · intro key d hd r hr hrkey hc
    dsimp only at hd hr
    rw [hins] at hd
    by_cases hkey : key = q.rrlKey st.limiter
    · subst hkey
      rw [AList.lookup_insert] at hd
      rw [← Option.some.inj hd]
      exact hlatest r hr hrkey hc
    · rw [AList.lookup_insert_ne hkey] at hd
      rcases mem_noted hr with hr | rfl
      · exact hl.latest key d hd r hr hrkey hc
      · exact absurd hrkey.symm hkey

theorem lookup_cleanup {rl rl' : RateLimiter} (h : rl.cleanup maxAge now = some rl')
    (key : RrlKey) : rl'.rrlBuckets.lookup key = (rl.rrlBuckets.lookup key).filter fun d =>
      decide ((now - millisAsI64 maxAge).tdiv 1000 ≤ (d.epochOf : Int)) := by
  obtain ⟨cutoffMs, hcut, rfl⟩ := Option.map_eq_some_iff.mp h
  unfold checkedI64 at hcut
  split at hcut
  · rw [Option.some.inj hcut]
    exact lookup_retainDomains _ _ key
  · cases hcut

theorem Ledger.cleanup (hl : Ledger st) (hin : InTime st (.cleanup now)) {rl : RateLimiter}
    (h : st.limiter.cleanup maxAge now = some rl) :
    Ledger { st with limiter := rl, clock := now } := by
  have horder : st.clock ≤ now := hin.order
  have hkept : ∀ key d, rl.rrlBuckets.lookup key = some d →
      st.limiter.rrlBuckets.lookup key = some d := by
    intro key d hd
    rw [lookup_cleanup h] at hd
    exact (Option.filter_eq_some_iff.mp hd).1
  constructor
  · exact Int.le_trans hl.clock horder
  · intro r hr
    have := hl.past r hr
    exact ⟨this.1, Int.le_trans this.2 horder⟩
  · exact fun key d hd => hl.counted key d (hkept key d hd)
  · exact fun key d hd => hl.latest key d (hkept key d hd)

theorem Ledger.step {ev : LimiterEvent} (hl : Ledger st) (hin : InTime st ev) :
    Ledger (st.step maxAge ev) := by
  unfold LimiterRun.step
  split
  · exact hl
  · cases ev with
    | query q =>
      dsimp only
      cases hq : checkQuery st.limiter q with
      | none => exact ⟨hl.clock, hl.past, hl.counted, hl.latest⟩
      | some r =>
        obtain ⟨rl, action⟩ := r
        cases checkQuery_names hq with
        | untouched hsame hnot => exact hl.untouched hin hsame hnot
        | limited hcounts hins => exact hl.limited hin hcounts hins
    | cleanup now =>
      dsimp only
      cases hc : st.limiter.cleanup maxAge now with
      | none => exact ⟨hl.clock, hl.past, hl.counted, hl.latest⟩
      | some rl => exact hl.cleanup hin hc

/-! ## what a cleanup evicts -/

theorem millisAsI64_eq (h : maxAge < 2 ^ 63) : millisAsI64 maxAge = maxAge := by
  unfold millisAsI64
  rw [Int.bmod_eq_of_le (by omega) (by omega)]

theorem cleanup_isSome (hl : Ledger st) (hin : InTime st (.cleanup now)) (hage : maxAge < 2 ^ 63) :
    ∃ rl, st.limiter.cleanup maxAge now = some rl := by
  have horder : st.clock ≤ now := hin.order
  have hrange : now < 2 ^ 32 * 1000 := hin.range
  have hclock := hl.clock
  unfold RateLimiter.cleanup
  rw [millisAsI64_eq hage, checkedI64_of_range (by omega) (by omega)]
  exact ⟨_, rfl⟩

/-- **One cleanup** keeps the entries of the names queried within `maxAge` exactly if each of them
counted a query within it. -/
theorem Ledger.keepsRecent_iff {ev : LimiterEvent} (hl : Ledger st) (hin : InTime st ev)
    (hage : maxAge < 2 ^ 63) : KeepsRecent maxAge st ev ↔ CountsRecent maxAge st ev := by
  cases ev with
  | query q => exact Iff.rfl
  | cleanup now =>
    obtain ⟨rl, hrl⟩ := cleanup_isSome hl hin hage
    have hlookup := lookup_cleanup hrl
    rw [millisAsI64_eq hage] at hlookup
    constructor
    · intro h key hkey hrecent
      have hkept := h rl hrl key hkey hrecent
      obtain ⟨d, hd⟩ := Option.isSome_iff_exists.mp (AList.lookup_isSome.mpr hkept)
      rw [hlookup] at hd
      obtain ⟨hd, hcut⟩ := Option.filter_eq_some_iff.mp hd
      obtain ⟨r, hr, hrkey, hc, hsec⟩ := hl.counted key d hd
      refine ⟨r, hr, hrkey, hc, ?_⟩
      rw [hsec]
      exact of_decide_eq_true hcut
    · intro h rl' hrl' key hkey hrecent
      obtain rfl : rl = rl' := Option.some.inj (hrl.symm.trans hrl')
      obtain ⟨d, hd⟩ := Option.isSome_iff_exists.mp (AList.lookup_isSome.mpr hkey)
      obtain ⟨r, hr, hrkey, hc, hcut⟩ := h key hkey hrecent
      have hlatest := hl.latest key d hd r hr hrkey hc
      have hkept : rl.rrlBuckets.lookup key = some d := by
        rw [hlookup, hd]
        exact Option.filter_eq_some_iff.mpr ⟨rfl, decide_eq_true (Int.le_trans hcut hlatest)⟩
      exact AList.lookup_isSome.mp (by rw [hkept]; rfl)

/-- **Every cleanup of a run.** -/
theorem keepsRecent_iff {events : List LimiterEvent} (hl : Ledger st) (hage : maxAge < 2 ^ 63)
    (hin : Run.Meets (step maxAge) InTime events st) :
    Run.Meets (step maxAge) (KeepsRecent maxAge) events st ↔
      Run.Meets (step maxAge) (CountsRecent maxAge) events st := by
  induction events generalizing st with
  | nil => exact Iff.rfl
  | cons ev events ih =>
    exact and_congr (hl.keepsRecent_iff hin.1 hage) (ih (hl.step hin.1) hin.2)

end

end LimiterRun
end DnsResolver
