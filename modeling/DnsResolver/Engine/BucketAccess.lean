import DnsResolver.Engine.RateLimit

/-!
# One access to a token bucket (`check_query`)

Between the exchange of `last_refill_millis` and the credit, a call owns what it will credit.  The
tokens taken, the tokens left and the credits owned are together at most the capacity and what the
time up to `last_refill_millis` has earned: every millisecond is claimed by one exchange.

* `BucketOk`          that bound, and `0 ≤ tokens ≤ capacity`;
* `CallOk`            what a call knows from its earlier accesses;
* `LimiterOk`         both, for all buckets and calls;
* `step_accesses`     what one access can do;
* `LimiterOk.access`  an access keeps the invariant.
-/

namespace DnsResolver
namespace Limiter

/-! ## the invariant -/

/-- what the call has claimed for the bucket of the subnet and not credited yet -/
def owned (subnet : IpAddr) (call : CheckCall) : Int :=
  match call.stage with
  | .crediting _ newTokens => if call.subnet = subnet then newTokens else 0
  | _ => 0

def ownedSum (st : LimiterState) (subnet : IpAddr) : Int :=
  (st.calls.map (owned subnet)).sum

def earning (rl : RateLimiter) (millis : Int) : Int := rl.refillPerSec * millis / 1000

structure BucketOk (rl : RateLimiter) (owned : Int) (b : Bucket) : Prop where
  tokens_nonneg : 0 ≤ b.tokens
  tokens_le : b.tokens ≤ rl.capacity
  created_le : b.created ≤ b.lastRefillMillis
  refill_le : b.lastRefillMillis ≤ b.latest
  earned : b.taken + b.tokens + owned ≤ rl.capacity + earning rl (b.lastRefillMillis - b.created)

/-- the bucket of the call is there and has seen its clock reading -/
def Met (rl : RateLimiter) (call : CheckCall) (now : Int) : Prop :=
  ∃ b, rl.subnetBuckets call.subnet = some b ∧ now ≤ b.latest

def CallOk (rl : RateLimiter) (call : CheckCall) : Prop :=
  match call.stage with
  | .reading => True
  | .entering _ => True
  | .done _ => True
  | .marking now => Met rl call now
  | .loading now => Met rl call now
  | .claiming now last newTokens =>
    Met rl call now ∧ last ≤ now ∧ newTokens = earning rl (now - last)
  | .crediting now newTokens => Met rl call now ∧ 0 ≤ newTokens
  | .taking now => Met rl call now
  | _ => ∃ b, rl.subnetBuckets call.subnet = some b

structure LimiterOk (st : LimiterState) : Prop where
  capacity_nonneg : 0 ≤ st.limiter.capacity
  refill_nonneg : 0 ≤ st.limiter.refillPerSec
  calls : ∀ call ∈ st.calls, CallOk st.limiter call
  buckets : ∀ subnet b, st.limiter.subnetBuckets subnet = some b →
    BucketOk st.limiter (ownedSum st subnet) b

/-! ## earnings -/

section
variable {rl : RateLimiter} {a b : Int}

theorem earning_nonneg (hr : 0 ≤ rl.refillPerSec) (ha : 0 ≤ a) : 0 ≤ earning rl a :=
  Int.ediv_nonneg (Int.mul_nonneg hr ha) (by omega)

theorem earning_mono (hr : 0 ≤ rl.refillPerSec) (hab : a ≤ b) : earning rl a ≤ earning rl b :=
  Int.ediv_le_ediv (by omega) (Int.mul_le_mul_of_nonneg_left hab hr)

/-- two spans earn no more apart than together -/
theorem earning_add_le (rl : RateLimiter) (a b : Int) :
    earning rl a + earning rl b ≤ earning rl (a + b) := by
  unfold earning
  rw [Int.mul_add]
  generalize rl.refillPerSec * a = x
  generalize rl.refillPerSec * b = y
  omega

end

/-! ## the credits that are owned -/

section
variable {st : LimiterState} {i : Nat} {call : CheckCall} {rl : RateLimiter} {stage : CheckStage}
  {subnet : IpAddr}

theorem owned_of_ne (h : call.subnet ≠ subnet) : owned subnet call = 0 := by
  unfold owned
  split
  · rw [if_neg h]
  · rfl

theorem ownedSum_advance (hc : st.calls[i]? = some call) :
    ownedSum (advance st i call rl stage) subnet =
      ownedSum st subnet - owned subnet call + owned subnet { call with stage := stage } := by
  obtain ⟨hi, hget⟩ := List.getElem?_eq_some_iff.mp hc
  show ((st.calls.set i { call with stage := stage }).map (owned subnet)).sum = _
  rw [List.map_set, List.sum_set', dif_pos (by rw [List.length_map]; exact hi), List.getElem_map,
    hget]
  unfold ownedSum
  omega

theorem ownedSum_advance_of_ne (hc : st.calls[i]? = some call) (h : call.subnet ≠ subnet) :
    ownedSum (advance st i call rl stage) subnet = ownedSum st subnet := by
  have h' : ({ call with stage := stage } : CheckCall).subnet ≠ subnet := h
  rw [ownedSum_advance hc, owned_of_ne h, owned_of_ne h']
  omega

end

/-! ## what one access can do -/

/-- the call has its token and is at the bucket of its name -/
def Named (stage : CheckStage) : Prop :=
  ∃ nowS, stage = .finding nowS ∨ stage = .sizing nowS ∨ stage = .tracking nowS ∨
    stage = .checking nowS ∨ stage = .counting nowS ∨ stage = .penalizing nowS

inductive Accesses (rl : RateLimiter) (call : CheckCall) : RateLimiter → CheckStage → Prop
  | stay : Accesses rl call rl call.stage
  | read (clock : Int) : call.stage = .reading → Accesses rl call rl (.entering clock)
  | create {now : Int} : call.stage = .entering now → rl.subnetBuckets call.subnet = none →
      Accesses rl call (rl.setBucket call.subnet (Bucket.new rl.capacity now)) (.marking now)
  | meet {now : Int} {b : Bucket} : call.stage = .entering now →
      rl.subnetBuckets call.subnet = some b →
      Accesses rl call (rl.setBucket call.subnet (b.meet now)) (.marking now)
  | mark {now : Int} {b : Bucket} : call.stage = .marking now →
      rl.subnetBuckets call.subnet = some b →
      Accesses rl call (rl.setBucket call.subnet { b with lastSeenMillis := now }) (.loading now)
  | load {now : Int} {b : Bucket} {stage : CheckStage} : call.stage = .loading now →
      rl.subnetBuckets call.subnet = some b →
      CheckCall.elapse rl now b.lastRefillMillis = some stage → Accesses rl call rl stage
  | claim {now last newTokens : Int} {b : Bucket} : call.stage = .claiming now last newTokens →
      rl.subnetBuckets call.subnet = some b → b.lastRefillMillis = last →
      Accesses rl call (rl.setBucket call.subnet { b with lastRefillMillis := now })
        (.crediting now newTokens)
  | lose {now last newTokens : Int} : call.stage = .claiming now last newTokens →
      Accesses rl call rl (.taking now)
  | credit {now newTokens : Int} {b b' : Bucket} : call.stage = .crediting now newTokens →
      rl.subnetBuckets call.subnet = some b → b.credit rl.capacity newTokens = some b' →
      Accesses rl call (rl.setBucket call.subnet b') (.taking now)
  | take {now : Int} {b b' : Bucket} {stage : CheckStage} : call.stage = .taking now →
      rl.subnetBuckets call.subnet = some b → b.take = some b' →
      stage = .finding (now.tdiv 1000) ∨ stage = .done .Allow →
      Accesses rl call (rl.setBucket call.subnet b') stage
  | empty {now : Int} : call.stage = .taking now → Accesses rl call rl (.done .Drop)
  | name {rl' : RateLimiter} {stage : CheckStage} : Named call.stage →
      rl'.subnetBuckets = rl.subnetBuckets → rl'.capacity = rl.capacity →
      rl'.refillPerSec = rl.refillPerSec → Named stage ∨ (∃ action, stage = .done action) →
      Accesses rl call rl' stage

theorem Accesses.reach {rl rl' a : RateLimiter} {call : CheckCall} {b stage : CheckStage}
    (h : some (a, b) = some (rl', stage)) (ha : Accesses rl call a b) :
    Accesses rl call rl' stage := by
  obtain ⟨rfl, rfl⟩ := Prod.mk.inj (Option.some.inj h)
  exact ha

/-- **What one access does.** -/
theorem step_accesses {rl rl' : RateLimiter} {call : CheckCall} {clock : Int} {stage : CheckStage}
    (h : call.step rl clock = some (rl', stage)) : Accesses rl call rl' stage := by
  have hstay : some (rl, call.stage) = some (rl', stage) → Accesses rl call rl' stage :=
    fun h => .reach h .stay
  unfold CheckCall.step at h
  split at h
  case h_1 hs => exact .reach h (.read clock hs)
  case h_2 now hs =>
    split at h
    · rename_i b hb
      exact .reach h (.meet hs hb)
    · rename_i hb
      exact .reach h (.create hs hb)
  case h_3 now hs =>
    split at h
    · rename_i b hb
      exact .reach h (.mark hs hb)
    · exact hstay h
  case h_4 now hs =>
    split at h
    · rename_i b hb
      obtain ⟨stage', he, heq⟩ := Option.map_eq_some_iff.mp h
      exact .reach (congrArg some heq) (.load hs hb he)
    · exact hstay h
  case h_5 now last newTokens hs =>
    split at h
    · rename_i b hb
      split at h
      · rename_i hlast
        exact .reach h (.claim hs hb hlast)
      · exact .reach h (.lose hs)
    · exact hstay h
  case h_6 now newTokens hs =>
    split at h
    · rename_i b hb
      obtain ⟨b', hb', heq⟩ := Option.map_eq_some_iff.mp h
      exact .reach (congrArg some heq) (.credit hs hb hb')
    · exact hstay h
  case h_7 now hs =>
    split at h
    · rename_i b hb
      split at h
      · rename_i b' hb'
        refine .reach h (.take hs hb hb' ?_)
        split
        · exact Or.inl rfl
        · exact Or.inr rfl
      · exact .reach h (.empty hs)
    · exact hstay h
  case h_8 nowS hs =>
    have hn : Named call.stage := ⟨nowS, by rw [hs]; simp⟩
    split at h
    · exact .reach h (.name hn rfl rfl rfl (Or.inl ⟨nowS, by simp⟩))
    · exact .reach h (.name hn rfl rfl rfl (Or.inl ⟨nowS, by simp⟩))
  case h_9 nowS hs =>
    have hn : Named call.stage := ⟨nowS, by rw [hs]; simp⟩
    split at h
    · exact .reach h (.name hn rfl rfl rfl (Or.inr ⟨_, rfl⟩))
    · exact .reach h (.name hn rfl rfl rfl (Or.inl ⟨nowS, by simp⟩))
  case h_10 nowS hs =>
    have hn : Named call.stage := ⟨nowS, by rw [hs]; simp⟩
    split at h
    · exact .reach h (.name hn rfl rfl rfl (Or.inl ⟨nowS, by simp⟩))
    · exact .reach h (.name hn rfl rfl rfl (Or.inl ⟨nowS, by simp⟩))
  case h_11 nowS hs =>
    have hn : Named call.stage := ⟨nowS, by rw [hs]; simp⟩
    split at h
    · split at h
      · exact .reach h (.name hn rfl rfl rfl (Or.inl ⟨nowS, by simp⟩))
      · exact .reach h (.name hn rfl rfl rfl (Or.inl ⟨nowS, by simp⟩))
    · exact hstay h
  case h_12 nowS hs =>
    have hn : Named call.stage := ⟨nowS, by rw [hs]; simp⟩
    split at h
    · refine .reach h (.name hn rfl rfl rfl ?_)
      split
      · exact Or.inr ⟨_, rfl⟩
      · split
        · exact Or.inr ⟨_, rfl⟩
        · exact Or.inl ⟨nowS, by simp⟩
    · exact hstay h
  case h_13 nowS hs =>
    have hn : Named call.stage := ⟨nowS, by rw [hs]; simp⟩
    split at h
    · exact .reach h (.name hn rfl rfl rfl (Or.inr ⟨_, rfl⟩))
    · exact hstay h
  case h_14 action hs =>
    rw [← hs] at h
    exact hstay h

/-! ## one access -/

section
variable {st : LimiterState} {i : Nat} {call : CheckCall} {rl : RateLimiter} {stage : CheckStage}

theorem BucketOk.congr {rl' : RateLimiter} {n : Int} {b : Bucket} (h : BucketOk rl n b)
    (hc : rl'.capacity = rl.capacity) (hr : rl'.refillPerSec = rl.refillPerSec) :
    BucketOk rl' n b := by
  have he : ∀ x, earning rl' x = earning rl x := by
    intro x
    unfold earning
    rw [hr]
  exact ⟨h.tokens_nonneg, hc ▸ h.tokens_le, h.created_le, h.refill_le, by
    rw [he, hc]; exact h.earned⟩

theorem CallOk.mono {rl' : RateLimiter} {d : CheckCall} (h : CallOk rl d)
    (hr : rl'.refillPerSec = rl.refillPerSec)
    (hb : ∀ b, rl.subnetBuckets d.subnet = some b →
      ∃ b', rl'.subnetBuckets d.subnet = some b' ∧ b.latest ≤ b'.latest) : CallOk rl' d := by
  have hmet : ∀ now, Met rl d now → Met rl' d now := by
    rintro now ⟨b, h1, h2⟩
    obtain ⟨b', h3, h4⟩ := hb b h1
    exact ⟨b', h3, le_trans h2 h4⟩
  have hthere : (∃ b, rl.subnetBuckets d.subnet = some b) →
      ∃ b, rl'.subnetBuckets d.subnet = some b := by
    rintro ⟨b, h1⟩
    obtain ⟨b', h3, -⟩ := hb b h1
    exact ⟨b', h3⟩
  have he : ∀ x, earning rl' x = earning rl x := by
    intro x
    unfold earning
    rw [hr]
  revert h
  unfold CallOk
  cases d.stage with
  | reading => exact id
  | entering _ => exact id
  | done _ => exact id
  | marking now => exact hmet now
  | loading now => exact hmet now
  | claiming now last newTokens =>
    rintro ⟨h1, h2, h3⟩
    exact ⟨hmet now h1, h2, h3.trans (he _).symm⟩
  | crediting now newTokens =>
    rintro ⟨h1, h2⟩
    exact ⟨hmet now h1, h2⟩
  | taking now => exact hmet now
  | _ => exact hthere

theorem LimiterOk.quiet (h : LimiterOk st) (hc : st.calls[i]? = some call)
    (hb : rl.subnetBuckets = st.limiter.subnetBuckets)
    (hcap : rl.capacity = st.limiter.capacity)
    (hr : rl.refillPerSec = st.limiter.refillPerSec)
    (hown : ∀ subnet, owned subnet { call with stage := stage } = owned subnet call)
    (hcall : CallOk rl { call with stage := stage }) :
    LimiterOk (advance st i call rl stage) where
  capacity_nonneg := by
    show 0 ≤ rl.capacity
    rw [hcap]
    exact h.capacity_nonneg
  refill_nonneg := by
    show 0 ≤ rl.refillPerSec
    rw [hr]
    exact h.refill_nonneg
  calls d hd := by
    rcases List.mem_or_eq_of_mem_set hd with hd | rfl
    · refine (h.calls d hd).mono hr fun b hd' => ⟨b, ?_, le_refl _⟩
      rw [← hd']
      exact congrFun hb _
    · exact hcall
  buckets subnet b hb' := by
    replace hb' : rl.subnetBuckets subnet = some b := hb'
    rw [hb] at hb'
    rw [ownedSum_advance hc, hown, Int.sub_add_cancel]
    exact (h.buckets subnet b hb').congr hcap hr

theorem LimiterOk.update (h : LimiterOk st) (hc : st.calls[i]? = some call) {b' : Bucket}
    (hseen : ∀ b, st.limiter.subnetBuckets call.subnet = some b → b.latest ≤ b'.latest)
    (hbucket : BucketOk st.limiter (ownedSum st call.subnet - owned call.subnet call +
      owned call.subnet { call with stage := stage }) b')
    (hcall : CallOk (st.limiter.setBucket call.subnet b') { call with stage := stage }) :
    LimiterOk (advance st i call (st.limiter.setBucket call.subnet b') stage) where
  capacity_nonneg := h.capacity_nonneg
  refill_nonneg := h.refill_nonneg
  calls d hd := by
    rcases List.mem_or_eq_of_mem_set hd with hd | rfl
    · refine (h.calls d hd).mono rfl fun b hb => ?_
      by_cases hs : d.subnet = call.subnet
      · rw [hs] at hb
        refine ⟨b', ?_, hseen b hb⟩
        show Function.update st.limiter.subnetBuckets call.subnet (some b') d.subnet = some b'
        rw [hs, Function.update_self]
      · refine ⟨b, ?_, le_refl _⟩
        show Function.update st.limiter.subnetBuckets call.subnet (some b') d.subnet = some b
        rw [Function.update_of_ne hs, hb]
    · exact hcall
  buckets subnet b hb := by
    replace hb : Function.update st.limiter.subnetBuckets call.subnet (some b') subnet = some b :=
      hb
    by_cases hs : subnet = call.subnet
    · subst hs
      rw [Function.update_self] at hb
      rw [ownedSum_advance hc, ← Option.some.inj hb]
      exact hbucket.congr rfl rfl
    · rw [Function.update_of_ne hs] at hb
      rw [ownedSum_advance_of_ne hc (Ne.symm hs)]
      exact (h.buckets subnet b hb).congr rfl rfl

end

section
variable {st : LimiterState} {i : Nat} {call : CheckCall} {clock now : Int}

theorem owned_eq_zero {subnet : IpAddr} (h : ∀ now n, call.stage ≠ .crediting now n) :
    owned subnet call = 0 := by
  unfold owned
  split
  · rename_i now n hs
    exact absurd hs (h now n)
  · rfl

theorem CallOk.owned_cases {rl : RateLimiter} {d : CheckCall} (h : CallOk rl d) (subnet : IpAddr) :
    owned subnet d = 0 ∨ 0 ≤ owned subnet d ∧ ∃ b, rl.subnetBuckets subnet = some b := by
  unfold CallOk at h
  unfold owned
  split
  · rename_i now n hs
    rw [hs] at h
    obtain ⟨⟨b, hb, -⟩, hn⟩ := h
    split
    · rename_i hsub
      exact Or.inr ⟨hn, b, hsub ▸ hb⟩
    · exact Or.inl rfl
  · exact Or.inl rfl

theorem LimiterOk.ownedSum_nonneg (h : LimiterOk st) (subnet : IpAddr) :
    0 ≤ ownedSum st subnet := by
  refine List.sum_nonneg fun x hx => ?_
  obtain ⟨call, hcall, rfl⟩ := List.mem_map.mp hx
  rcases (h.calls call hcall).owned_cases subnet with h0 | ⟨hn, _⟩
  · rw [h0]
  · exact hn

theorem LimiterOk.ownedSum_of_none (h : LimiterOk st) {subnet : IpAddr}
    (hb : st.limiter.subnetBuckets subnet = none) : ownedSum st subnet = 0 := by
  refine List.sum_eq_zero fun x hx => ?_
  obtain ⟨call, hcall, rfl⟩ := List.mem_map.mp hx
  rcases (h.calls call hcall).owned_cases subnet with h0 | ⟨_, b, hb'⟩
  · exact h0
  · rw [hb] at hb'
    cases hb'

theorem LimiterOk.touch (h : LimiterOk st) (hc : st.calls[i]? = some call) {b b' : Bucket}
    {stage : CheckStage} (hb : st.limiter.subnetBuckets call.subnet = some b)
    (hold : ∀ t n, call.stage ≠ .crediting t n) (hnew : ∀ t n, stage ≠ .crediting t n)
    (hseen : b.latest ≤ b'.latest)
    (hbucket : BucketOk st.limiter (ownedSum st call.subnet) b')
    (hcall : CallOk (st.limiter.setBucket call.subnet b') { call with stage := stage }) :
    LimiterOk (advance st i call (st.limiter.setBucket call.subnet b') stage) := by
  have hnew' : owned call.subnet { call with stage := stage } = 0 := owned_eq_zero hnew
  refine h.update hc (fun b1 hb1 => ?_) ?_ hcall
  · rw [hb] at hb1
    rw [← Option.some.inj hb1]
    exact hseen
  · rw [owned_eq_zero hold, hnew', Int.sub_zero, Int.add_zero]
    exact hbucket

/-- `or_insert_with` makes the bucket -/
theorem LimiterOk.create (h : LimiterOk st) (hc : st.calls[i]? = some call)
    (hs : call.stage = .entering now) (hb : st.limiter.subnetBuckets call.subnet = none) :
    LimiterOk (advance st i call
      (st.limiter.setBucket call.subnet (Bucket.new st.limiter.capacity now)) (.marking now)) := by
  have hold : owned call.subnet call = 0 := owned_eq_zero (by simp [hs])
  have hnew : owned call.subnet { call with stage := .marking now } = 0 := rfl
  refine h.update hc (fun b1 hb1 => ?_) ?_
    ⟨Bucket.new st.limiter.capacity now, Function.update_self _ _ _, le_refl _⟩
  · rw [hb] at hb1
    cases hb1
  · rw [hold, hnew, h.ownedSum_of_none hb]
    refine ⟨h.capacity_nonneg, le_refl _, le_refl _, le_refl _, ?_⟩
    have he := earning_nonneg (a := now - now) h.refill_nonneg (by omega)
    show ((0 : Nat) : Int) + st.limiter.capacity + (0 - 0 + 0) ≤
      st.limiter.capacity + earning st.limiter (now - now)
    omega

theorem LimiterOk.meet (h : LimiterOk st) (hc : st.calls[i]? = some call)
    (hs : call.stage = .entering now) {b : Bucket}
    (hb : st.limiter.subnetBuckets call.subnet = some b) :
    LimiterOk (advance st i call (st.limiter.setBucket call.subnet (b.meet now))
      (.marking now)) := by
  have hok := h.buckets call.subnet b hb
  refine h.touch hc hb (by simp [hs]) (by simp) (le_max_left _ _) ?_
    ⟨b.meet now, Function.update_self _ _ _, le_max_right _ _⟩
  exact ⟨hok.tokens_nonneg, hok.tokens_le, hok.created_le,
    le_trans hok.refill_le (le_max_left _ _), hok.earned⟩

/-- `last_seen_millis.store` -/
theorem LimiterOk.mark (h : LimiterOk st) (hc : st.calls[i]? = some call)
    (hs : call.stage = .marking now) {b : Bucket}
    (hb : st.limiter.subnetBuckets call.subnet = some b) :
    LimiterOk (advance st i call
      (st.limiter.setBucket call.subnet { b with lastSeenMillis := now }) (.loading now)) := by
  have hok := h.buckets call.subnet b hb
  have hcall := h.calls call (List.mem_of_getElem? hc)
  unfold CallOk at hcall
  rw [hs] at hcall
  obtain ⟨b1, hb1, hseen⟩ := hcall
  rw [hb] at hb1
  obtain rfl := Option.some.inj hb1
  refine h.touch hc hb (by simp [hs]) (by simp) (le_refl _) ?_
    ⟨_, Function.update_self _ _ _, hseen⟩
  exact ⟨hok.tokens_nonneg, hok.tokens_le, hok.created_le, hok.refill_le, hok.earned⟩

theorem LimiterOk.claim (h : LimiterOk st) (hc : st.calls[i]? = some call) {last n : Int}
    (hs : call.stage = .claiming now last n) {b : Bucket}
    (hb : st.limiter.subnetBuckets call.subnet = some b) (hlast : b.lastRefillMillis = last) :
    LimiterOk (advance st i call
      (st.limiter.setBucket call.subnet { b with lastRefillMillis := now })
      (.crediting now n)) := by
  have hcall := h.calls call (List.mem_of_getElem? hc)
  unfold CallOk at hcall
  rw [hs] at hcall
  obtain ⟨⟨b1, hb1, hseen⟩, hle, hn⟩ := hcall
  rw [hb] at hb1
  obtain rfl := Option.some.inj hb1
  have hok := h.buckets call.subnet b hb
  have hn0 : 0 ≤ n := by
    rw [hn]
    exact earning_nonneg h.refill_nonneg (by omega)
  refine h.update hc (fun b1 hb1 => ?_) ?_ ⟨⟨_, Function.update_self _ _ _, hseen⟩, hn0⟩
  · rw [hb] at hb1
    obtain rfl := Option.some.inj hb1
    exact le_refl _
  · have h0 : owned call.subnet call = 0 := owned_eq_zero (by simp [hs])
    have h1 : owned call.subnet { call with stage := .crediting now n } = n := if_pos rfl
    rw [h0, h1, Int.sub_zero]
    refine ⟨hok.tokens_nonneg, hok.tokens_le, ?_, hseen, ?_⟩
    · exact le_trans hok.created_le (hlast ▸ hle)
    · -- what was earned up to `last`, and from there to `now`
      have hadd := earning_add_le st.limiter (last - b.created) (now - last)
      have hsum : last - b.created + (now - last) = now - b.created := by omega
      have hearned := hok.earned
      rw [hsum] at hadd
      rw [hlast] at hearned
      show (b.taken : Int) + b.tokens + (ownedSum st call.subnet + n) ≤
        st.limiter.capacity + earning st.limiter (now - b.created)
      omega

theorem LimiterOk.credit (h : LimiterOk st) (hc : st.calls[i]? = some call) {n : Int}
    (hs : call.stage = .crediting now n) {b b' : Bucket}
    (hb : st.limiter.subnetBuckets call.subnet = some b)
    (hb' : b.credit st.limiter.capacity n = some b') :
    LimiterOk (advance st i call (st.limiter.setBucket call.subnet b') (.taking now)) := by
  have hcall := h.calls call (List.mem_of_getElem? hc)
  unfold CallOk at hcall
  rw [hs] at hcall
  obtain ⟨⟨b1, hb1, hseen⟩, hn0⟩ := hcall
  rw [hb] at hb1
  obtain rfl := Option.some.inj hb1
  have hok := h.buckets call.subnet b hb
  obtain ⟨sum, hsum, rfl⟩ := Option.map_eq_some_iff.mp hb'
  have hsum' := checkedI64_eq hsum
  refine h.update hc (fun b1 hb1 => ?_) ?_ ⟨_, Function.update_self _ _ _, hseen⟩
  · rw [hb] at hb1
    obtain rfl := Option.some.inj hb1
    exact le_refl _
  · have h1 : owned call.subnet call = n := by
      unfold owned
      rw [hs]
      exact if_pos rfl
    have h2 : owned call.subnet { call with stage := .taking now } = 0 := rfl
    have hnonneg := hok.tokens_nonneg
    have hcap := h.capacity_nonneg
    have hearned := hok.earned
    rw [h1, h2]
    refine ⟨?_, min_le_right _ _, hok.created_le, hok.refill_le, ?_⟩
    · show 0 ≤ min sum st.limiter.capacity
      omega
    · show (b.taken : Int) + min sum st.limiter.capacity + (ownedSum st call.subnet - n + 0) ≤ _
      show _ ≤ st.limiter.capacity + earning st.limiter (b.lastRefillMillis - b.created)
      omega

theorem LimiterOk.take (h : LimiterOk st) (hc : st.calls[i]? = some call)
    (hs : call.stage = .taking now) {b b' : Bucket}
    (hb : st.limiter.subnetBuckets call.subnet = some b) (hb' : b.take = some b')
    {stage : CheckStage} (hstage : stage = .finding (now.tdiv 1000) ∨ stage = .done .Allow) :
    LimiterOk (advance st i call (st.limiter.setBucket call.subnet b') stage) := by
  have hok := h.buckets call.subnet b hb
  unfold Bucket.take at hb'
  split at hb'
  · rename_i hpos
    obtain rfl := Option.some.inj hb'
    have hle := hok.tokens_le
    have hearned := hok.earned
    refine h.touch hc hb (by simp [hs]) ?_ (le_refl _) ?_ ?_
    · rcases hstage with rfl | rfl <;> simp
    · refine ⟨?_, ?_, hok.created_le, hok.refill_le, ?_⟩
      · show 0 ≤ b.tokens - 1
        omega
      · show b.tokens - 1 ≤ st.limiter.capacity
        omega
      · show ((b.taken + 1 : Nat) : Int) + (b.tokens - 1) + ownedSum st call.subnet ≤
          st.limiter.capacity + earning st.limiter (b.lastRefillMillis - b.created)
        omega
    · rcases hstage with rfl | rfl
      · exact ⟨_, Function.update_self _ _ _⟩
      · trivial
  · cases hb'

theorem elapse_ok {rl : RateLimiter} (hr : 0 ≤ rl.refillPerSec) {last : Int} {stage : CheckStage}
    (hmet : Met rl call now) (h : CheckCall.elapse rl now last = some stage) :
    CallOk rl { call with stage := stage } ∧ ∀ t n, stage ≠ .crediting t n := by
  have htaking : CallOk rl { call with stage := .taking now } ∧
      ∀ t n, CheckStage.taking now ≠ .crediting t n := ⟨hmet, fun _ _ => CheckStage.noConfusion⟩
  unfold CheckCall.elapse at h
  obtain ⟨diff, hdiff, h⟩ := Option.bind_eq_some_iff.mp h
  obtain rfl := checkedI64_eq hdiff
  dsimp only at h
  split at h
  · rename_i hpos
    obtain ⟨prod, hprod, h⟩ := Option.bind_eq_some_iff.mp h
    obtain rfl := checkedI64_eq hprod
    split at h
    · obtain rfl := Option.some.inj h
      refine ⟨⟨hmet, by omega, ?_⟩, fun _ _ => CheckStage.noConfusion⟩
      have hmax : max (now - last) 0 = now - last := by omega
      have hnn : 0 ≤ (now - last) * rl.refillPerSec := Int.mul_nonneg (by omega) hr
      rw [hmax, Int.tdiv_eq_ediv_of_nonneg hnn, Int.mul_comm]
      rfl
    · obtain rfl := Option.some.inj h
      exact htaking
  · obtain rfl := Option.some.inj h
    exact htaking

theorem Named.not_crediting {stage : CheckStage} (h : Named stage) (t n : Int) :
    stage ≠ .crediting t n := by
  obtain ⟨nowS, hs⟩ := h
  rcases hs with rfl | rfl | rfl | rfl | rfl | rfl <;> exact CheckStage.noConfusion

theorem callOk_named {rl : RateLimiter} (hn : Named call.stage) :
    CallOk rl call ↔ ∃ b, rl.subnetBuckets call.subnet = some b := by
  obtain ⟨nowS, hs⟩ := hn
  unfold CallOk
  rcases hs with hs | hs | hs | hs | hs | hs <;> rw [hs]

/-- **The step lemma for a call.** -/
theorem LimiterOk.access (h : LimiterOk st) (hc : st.calls[i]? = some call) {rl : RateLimiter}
    {stage : CheckStage} (ha : Accesses st.limiter call rl stage) :
    LimiterOk (advance st i call rl stage) := by
  have hcall := h.calls call (List.mem_of_getElem? hc)
  have hquiet : ∀ {rl : RateLimiter} {stage : CheckStage},
      rl.subnetBuckets = st.limiter.subnetBuckets → rl.capacity = st.limiter.capacity →
      rl.refillPerSec = st.limiter.refillPerSec → (∀ t n, call.stage ≠ .crediting t n) →
      (∀ t n, stage ≠ .crediting t n) → CallOk rl { call with stage := stage } →
      LimiterOk (advance st i call rl stage) := by
    intro rl stage h1 h2 h3 hold hnew hcall
    refine h.quiet hc h1 h2 h3 (fun subnet => ?_) hcall
    rw [owned_eq_zero hold]
    exact owned_eq_zero hnew
  cases ha with
  | stay => exact h.quiet hc rfl rfl rfl (fun _ => rfl) hcall
  | read clock hs => exact hquiet rfl rfl rfl (by simp [hs]) (by simp) trivial
  | create hs hb => exact h.create hc hs hb
  | meet hs hb => exact h.meet hc hs hb
  | mark hs hb => exact h.mark hc hs hb
  | load hs hb he =>
    unfold CallOk at hcall
    rw [hs] at hcall
    obtain ⟨hok, hnot⟩ := elapse_ok h.refill_nonneg hcall he
    exact hquiet rfl rfl rfl (by simp [hs]) hnot hok
  | claim hs hb hlast => exact h.claim hc hs hb hlast
  | lose hs =>
    unfold CallOk at hcall
    rw [hs] at hcall
    exact hquiet rfl rfl rfl (by simp [hs]) (by simp) hcall.1
  | credit hs hb hb' => exact h.credit hc hs hb hb'
  | take hs hb hb' hstage => exact h.take hc hs hb hb' hstage
  | empty hs => exact hquiet rfl rfl rfl (by simp [hs]) (by simp) trivial
  | name hn h1 h2 h3 hstage =>
    have hb := (callOk_named hn).mp hcall
    refine hquiet h1 h2 h3 hn.not_crediting ?_ ?_
    · rcases hstage with hstage | ⟨action, rfl⟩
      · exact hstage.not_crediting
      · simp
    · rcases hstage with hstage | ⟨action, rfl⟩
      · refine (callOk_named hstage).mpr ?_
        rw [h1]
        exact hb
      · trivial

/-- an access never moves `last_refill_millis` back -/
theorem LimiterOk.refill_mono (h : LimiterOk st) (hc : st.calls[i]? = some call)
    {rl : RateLimiter} {stage : CheckStage} (ha : Accesses st.limiter call rl stage)
    {subnet : IpAddr} {b : Bucket} (hb : st.limiter.subnetBuckets subnet = some b) :
    ∃ b', rl.subnetBuckets subnet = some b' ∧ b.created = b'.created ∧
      b.lastRefillMillis ≤ b'.lastRefillMillis := by
  -- the bucket of the call is the only one that changes
  have hset : ∀ b', (subnet = call.subnet → b.created = b'.created ∧
      b.lastRefillMillis ≤ b'.lastRefillMillis) →
      ∃ b1, (st.limiter.setBucket call.subnet b').subnetBuckets subnet = some b1 ∧
        b.created = b1.created ∧ b.lastRefillMillis ≤ b1.lastRefillMillis := by
    intro b' hb'
    by_cases hs : subnet = call.subnet
    · refine ⟨b', ?_, hb' hs⟩
      rw [hs]
      exact Function.update_self _ _ _
    · exact ⟨b, (Function.update_of_ne hs _ _).trans hb, rfl, le_refl _⟩
  have hsame : ∀ {b1}, st.limiter.subnetBuckets call.subnet = some b1 → subnet = call.subnet →
      b = b1 := by
    intro b1 hb1 hs
    rw [hs, hb1] at hb
    exact (Option.some.inj hb).symm
  cases ha with
  | stay => exact ⟨b, hb, rfl, le_refl _⟩
  | read clock hs => exact ⟨b, hb, rfl, le_refl _⟩
  | create hs hnone =>
    refine hset _ fun heq => ?_
    rw [heq, hnone] at hb
    cases hb
  | meet hs hb1 =>
    refine hset _ fun heq => ?_
    obtain rfl := hsame hb1 heq
    exact ⟨rfl, le_refl _⟩
  | mark hs hb1 =>
    refine hset _ fun heq => ?_
    obtain rfl := hsame hb1 heq
    exact ⟨rfl, le_refl _⟩
  | load hs hb1 he => exact ⟨b, hb, rfl, le_refl _⟩
  | claim hs hb1 hlast =>
    refine hset _ fun heq => ?_
    obtain rfl := hsame hb1 heq
    have hcall := h.calls call (List.mem_of_getElem? hc)
    unfold CallOk at hcall
    rw [hs] at hcall
    exact ⟨rfl, hlast.le.trans hcall.2.1⟩
  | lose hs => exact ⟨b, hb, rfl, le_refl _⟩
  | credit hs hb1 hb' =>
    refine hset _ fun heq => ?_
    obtain rfl := hsame hb1 heq
    obtain ⟨sum, -, rfl⟩ := Option.map_eq_some_iff.mp hb'
    exact ⟨rfl, le_refl _⟩
  | take hs hb1 hb' hstage =>
    refine hset _ fun heq => ?_
    obtain rfl := hsame hb1 heq
    unfold Bucket.take at hb'
    split at hb'
    · obtain rfl := Option.some.inj hb'
      exact ⟨rfl, le_refl _⟩
    · cases hb'
  | empty hs => exact ⟨b, hb, rfl, le_refl _⟩
  | name hn h1 h2 h3 hstage => exact ⟨b, h1 ▸ hb, rfl, le_refl _⟩

end

end Limiter
end DnsResolver
