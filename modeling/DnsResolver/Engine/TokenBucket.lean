import DnsResolver.Engine.BucketAccess
import DnsResolver.Lib.Run

/-!
# The token bound (`check_query`)

The invariant of `BucketAccess` holds in every run of interleaved calls and cleanups, and gives the
bound on the tokens a bucket hands out.

* `LimiterOk.run`   every run keeps the invariant;
* `token_bound`     the bound.
-/

namespace DnsResolver
namespace Limiter

/-! ## runs -/

section
variable {st : LimiterState}

theorem step_const (st : LimiterState) (op : LimiterOp) :
    (step st op).limiter.capacity = st.limiter.capacity ∧
      (step st op).limiter.refillPerSec = st.limiter.refillPerSec := by
  unfold step
  split
  · exact ⟨rfl, rfl⟩
  · cases op with
    | arrive protocol clientIp qname qtype => exact ⟨rfl, rfl⟩
    | step i clock =>
      dsimp only
      split
      · exact ⟨rfl, rfl⟩
      · rename_i call hc
        split
        · exact ⟨rfl, rfl⟩
        · rename_i rl stage hstep
          cases step_accesses hstep with
          | name _ _ hcap hr _ => exact ⟨hcap, hr⟩
          | _ => exact ⟨rfl, rfl⟩
    | visit subnet cutoffMs =>
      dsimp only
      split <;> exact ⟨rfl, rfl⟩
    | visitDomain key cutoffS =>
      dsimp only
      split
      · exact ⟨rfl, rfl⟩
      · split
        · exact ⟨rfl, rfl⟩
        · split <;> exact ⟨rfl, rfl⟩

theorem run_const (ops : List LimiterOp) (st : LimiterState) :
    (run ops st).limiter.capacity = st.limiter.capacity ∧
      (run ops st).limiter.refillPerSec = st.limiter.refillPerSec := by
  refine List.foldlRecOn ops step (motive := fun st' =>
    st'.limiter.capacity = st.limiter.capacity ∧
      st'.limiter.refillPerSec = st.limiter.refillPerSec) ⟨rfl, rfl⟩ fun st' h op _ => ?_
  have hstep := step_const st' op
  exact ⟨hstep.1.trans h.1, hstep.2.trans h.2⟩

theorem inside_of_not_locked {subnet : IpAddr} (h : locked st subnet = false) {call : CheckCall}
    (hcall : call ∈ st.calls) (hs : call.subnet = subnet) : call.inside = false := by
  unfold locked at h
  rw [List.any_eq_false] at h
  have := h call hcall
  simpa [hs] using this

theorem callOk_outside {rl : RateLimiter} {call : CheckCall} (h : call.inside = false) :
    CallOk rl call := by
  unfold CheckCall.inside at h
  unfold CallOk
  revert h
  cases call.stage <;> simp

theorem arrive_stage (protocol : Protocol) (clientIp : IpAddr) (qname : Name)
    (qtype : RecordType) :
    (CheckCall.arrive protocol clientIp qname qtype).stage = .reading ∨
      ∃ action, (CheckCall.arrive protocol clientIp qname qtype).stage = .done action := by
  unfold CheckCall.arrive
  dsimp only
  split
  · exact Or.inr ⟨_, rfl⟩
  · split
    · exact Or.inr ⟨_, rfl⟩
    · exact Or.inl rfl

theorem LimiterOk.arrive (h : LimiterOk st) (protocol : Protocol) (clientIp : IpAddr)
    (qname : Name) (qtype : RecordType) :
    LimiterOk { st with calls := st.calls ++ [CheckCall.arrive protocol clientIp qname qtype] } := by
  have hstage := arrive_stage protocol clientIp qname qtype
  refine ⟨h.capacity_nonneg, h.refill_nonneg, fun call hcall => ?_, fun subnet b hb => ?_⟩
  · rcases List.mem_append.mp hcall with hcall | hcall
    · exact h.calls call hcall
    · rw [List.mem_singleton.mp hcall]
      refine callOk_outside ?_
      unfold CheckCall.inside
      rcases hstage with hs | ⟨action, hs⟩ <;> rw [hs]
  · have h0 : owned subnet (CheckCall.arrive protocol clientIp qname qtype) = 0 := by
      refine owned_eq_zero ?_
      rcases hstage with hs | ⟨action, hs⟩ <;> simp [hs]
    have hsum : ownedSum { st with
        calls := st.calls ++ [CheckCall.arrive protocol clientIp qname qtype] } subnet =
        ownedSum st subnet := by
      unfold ownedSum
      rw [List.map_append, List.sum_append, List.map_singleton, List.sum_singleton, h0,
        Int.add_zero]
    rw [hsum]
    exact h.buckets subnet b hb

/-- `retain` drops a bucket only while no call is inside -/
theorem LimiterOk.visit (h : LimiterOk st) {subnet : IpAddr} (hl : locked st subnet = false)
    (p : Bucket → Bool) :
    LimiterOk { st with limiter := { st.limiter with
      subnetBuckets := Function.update st.limiter.subnetBuckets subnet
        ((st.limiter.subnetBuckets subnet).filter p) } } := by
  refine ⟨h.capacity_nonneg, h.refill_nonneg, fun call hcall => ?_, fun s b hb => ?_⟩
  · by_cases hs : call.subnet = subnet
    · exact callOk_outside (inside_of_not_locked hl hcall hs)
    · refine (h.calls call hcall).mono rfl fun b hb => ⟨b, ?_, le_refl _⟩
      exact (Function.update_of_ne hs _ _).trans hb
  · have hb' : st.limiter.subnetBuckets s = some b := by
      by_cases hs : s = subnet
      · subst hs
        replace hb : Function.update st.limiter.subnetBuckets s
          ((st.limiter.subnetBuckets s).filter p) s = some b := hb
        rw [Function.update_self] at hb
        exact (Option.filter_eq_some_iff.mp hb).1
      · exact (Function.update_of_ne hs _ _).symm.trans hb
    exact (h.buckets s b hb').congr rfl rfl

/-- **The step lemma.** -/
theorem LimiterOk.step (h : LimiterOk st) (op : LimiterOp) : LimiterOk (step st op) := by
  unfold Limiter.step
  split
  · exact h
  · cases op with
    | arrive protocol clientIp qname qtype => exact h.arrive protocol clientIp qname qtype
    | step i clock =>
      dsimp only
      split
      · exact h
      · rename_i call hc
        split
        · exact ⟨h.capacity_nonneg, h.refill_nonneg, h.calls, h.buckets⟩
        · rename_i rl stage hstep
          exact h.access hc (step_accesses hstep)
    | visit subnet cutoffMs =>
      dsimp only
      split
      · exact h
      · rename_i hl
        exact h.visit (Bool.eq_false_iff.mpr hl) _
    | visitDomain key cutoffS =>
      dsimp only
      split
      · exact h
      · split
        · exact h
        · split
          · exact h
          · exact ⟨h.capacity_nonneg, h.refill_nonneg,
              fun call hcall => (h.calls call hcall).mono rfl fun b hb => ⟨b, hb, le_refl _⟩,
              fun subnet b hb => (h.buckets subnet b hb).congr rfl rfl⟩

theorem LimiterOk.run (h : LimiterOk st) (ops : List LimiterOp) : LimiterOk (run ops st) :=
  List.foldlRecOn ops Limiter.step h fun _ h op _ => h.step op

theorem limiterOk_new {capacity refillPerSec : Int} (nameText : NameText)
    (typeText : RecordType → Bytes) (hcap : 0 ≤ capacity) (hr : 0 ≤ refillPerSec) :
    LimiterOk (start capacity refillPerSec nameText typeText) := by
  refine ⟨hcap, hr, fun call hcall => ?_, fun subnet b hb => ?_⟩
  · cases hcall
  · cases hb

/-- the bucket of the subnet is not dropped by the step -/
def Keeps (subnet : IpAddr) (st : LimiterState) (op : LimiterOp) : Prop :=
  ((step st op).limiter.subnetBuckets subnet).isSome

theorem LimiterOk.step_refill (h : LimiterOk st) {op : LimiterOp} {subnet : IpAddr}
    (hk : Keeps subnet st op) {b : Bucket} (hb : st.limiter.subnetBuckets subnet = some b) :
    ∃ b', (Limiter.step st op).limiter.subnetBuckets subnet = some b' ∧ b.created = b'.created ∧
      b.lastRefillMillis ≤ b'.lastRefillMillis := by
  have hsame : ∃ b', st.limiter.subnetBuckets subnet = some b' ∧ b.created = b'.created ∧
      b.lastRefillMillis ≤ b'.lastRefillMillis := ⟨b, hb, rfl, le_refl _⟩
  revert hk
  unfold Keeps Limiter.step
  split
  · exact fun _ => hsame
  · cases op with
    | arrive protocol clientIp qname qtype => exact fun _ => hsame
    | step i clock =>
      dsimp only
      split
      · exact fun _ => hsame
      · rename_i call hc
        split
        · exact fun _ => hsame
        · rename_i rl stage hstep
          exact fun _ => h.refill_mono hc (step_accesses hstep) hb
    | visit s cutoffMs =>
      dsimp only
      split
      · exact fun _ => hsame
      · intro hk
        by_cases hs : subnet = s
        · subst hs
          obtain ⟨b', hb'⟩ := Option.isSome_iff_exists.mp hk
          have hfilter := (Function.update_self _ _ _).symm.trans hb'
          have hmem := (Option.filter_eq_some_iff.mp hfilter).1
          rw [hb] at hmem
          obtain rfl := Option.some.inj hmem
          exact ⟨b, hb', rfl, le_refl _⟩
        · exact ⟨b, (Function.update_of_ne hs _ _).trans hb, rfl, le_refl _⟩
    | visitDomain key cutoffS =>
      dsimp only
      split
      · exact fun _ => hsame
      · split
        · exact fun _ => hsame
        · split
          · exact fun _ => hsame
          · exact fun _ => hsame

theorem LimiterOk.run_refill (h : LimiterOk st) {ops : List LimiterOp} {subnet : IpAddr}
    (hk : Run.Meets Limiter.step (Keeps subnet) ops st) {b b' : Bucket}
    (hb : st.limiter.subnetBuckets subnet = some b)
    (hb' : (Limiter.run ops st).limiter.subnetBuckets subnet = some b') :
    b.created = b'.created ∧ b.lastRefillMillis ≤ b'.lastRefillMillis := by
  obtain ⟨-, b1, hb1, hcreated, hle⟩ := Run.Meets.invariant
    (I := fun st => LimiterOk st ∧ ∃ b', st.limiter.subnetBuckets subnet = some b' ∧
      b.created = b'.created ∧ b.lastRefillMillis ≤ b'.lastRefillMillis)
    (fun st op ⟨hok, b1, hb1, hcreated, hle⟩ hkeeps => by
      obtain ⟨b2, hb2, hcreated2, hle2⟩ := hok.step_refill hkeeps hb1
      exact ⟨hok.step op, b2, hb2, hcreated.trans hcreated2, le_trans hle hle2⟩)
    ⟨h, b, hb, rfl, le_refl _⟩ hk
  have heq : some b1 = some b' := hb1.symm.trans hb'
  rw [← Option.some.inj heq]
  exact ⟨hcreated, hle⟩

end

/-- **The token bound.**  However the accesses of concurrent calls and their clock readings fall,
a bucket holds between `0` and `capacity` tokens, has given away no more than the capacity and
what the time since its creation has earned, and `last_refill_millis` does not go back as long as
the bucket stays. -/
theorem token_bound {capacity refillPerSec : Int} (nameText : NameText)
    (typeText : RecordType → Bytes) (hcap : 0 ≤ capacity) (hr : 0 ≤ refillPerSec)
    (ops : List LimiterOp) (subnet : IpAddr) (b : Bucket) :
    let st := run ops (start capacity refillPerSec nameText typeText)
    st.limiter.subnetBuckets subnet = some b →
    0 ≤ b.tokens ∧ b.tokens ≤ capacity ∧
      b.taken ≤ capacity + refillPerSec * (b.latest - b.created) / 1000 ∧
      ∀ later b', Run.Meets step (Keeps subnet) later st →
        (run later st).limiter.subnetBuckets subnet = some b' →
        b.lastRefillMillis ≤ b'.lastRefillMillis := by
  intro st hb
  have h := (limiterOk_new nameText typeText hcap hr).run ops
  have hconst := run_const ops (start capacity refillPerSec nameText typeText)
  have hok := h.buckets subnet b hb
  refine ⟨hok.tokens_nonneg, ?_, ?_, fun later b' hk hb' => ?_⟩
  · have hle := hok.tokens_le
    rw [hconst.1] at hle
    exact hle
  · have howned := h.ownedSum_nonneg subnet
    have hnonneg := hok.tokens_nonneg
    have hearned := hok.earned
    have hrefill := hok.refill_le
    have hmono := earning_mono h.refill_nonneg
      (show b.lastRefillMillis - b.created ≤ b.latest - b.created by omega)
    unfold earning at hearned hmono
    rw [hconst.1, hconst.2] at hearned
    rw [hconst.2] at hmono
    replace hearned : (b.taken : Int) + b.tokens + ownedSum _ subnet ≤
      capacity + refillPerSec * (b.lastRefillMillis - b.created) / 1000 := hearned
    replace hmono : refillPerSec * (b.lastRefillMillis - b.created) / 1000 ≤
      refillPerSec * (b.latest - b.created) / 1000 := hmono
    omega
  · exact (h.run_refill hk hb hb').2

/-- a second call overtakes the one that made the bucket, and its clock is ahead -/
def overtakenRun : List LimiterOp :=
  [.arrive .TCP (.V4 ⟨#v[198, 51, 100, 7]⟩) Name.root .A,
    .arrive .TCP (.V4 ⟨#v[198, 51, 100, 8]⟩) Name.root .A,
    .step 0 0, .step 0 0, .step 1 3000, .step 1 0, .step 1 0, .step 1 0, .step 1 0, .step 1 0,
    .step 1 0, .step 0 0, .step 0 0, .step 0 0]

theorem token_bound_overtaken :
    (run overtakenRun (start 1 1 .dotted addressMnemonic)).limiter.subnetBuckets
        (.V4 ⟨#v[198, 51, 100, 0]⟩) =
      some ⟨0, 3000, 0, 0, 3000, 1⟩ ∧ (1 : Int) ≤ 1 + 1 * (3000 - 0) / 1000 := by
  have hb : (run overtakenRun (start 1 1 .dotted addressMnemonic)).limiter.subnetBuckets
      (.V4 ⟨#v[198, 51, 100, 0]⟩) = some ⟨0, 3000, 0, 0, 3000, 1⟩ := by
    decide +kernel
  exact ⟨hb, (token_bound _ _ (by decide) (by decide) overtakenRun _ _ hb).2.2.1⟩

end Limiter
end DnsResolver
