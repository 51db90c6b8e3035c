import Mathlib
import DnsResolver.Engine.CheckQuery

/-!
# Duplicate UDP queries (`check_query`)

The entry of a name packs a second and a counter into one word; a penalty stands beside it.  A call
during a penalty extends it and leaves the counter alone.

* `epochOf`, `countOf`   the two halves of the word;
* `LimitCase`            what one call does to an entry;
* `keyTrace`             the answers to the calls for one tracked key in a sequence of calls;
* `Good`                 what the entry knows of the answers before;
* `keyTrace_law`         the law of the answers, second by second and from one Drop to the next.
-/

namespace DnsResolver
namespace DomainRateBucket

/-! ## the packed word -/

def epochOf (d : DomainRateBucket) : Nat := (d.state >>> 32).toNat

def countOf (d : DomainRateBucket) : Nat := (d.state &&& 0xFFFFFFFF).toNat

/-- a second and a counter of 32 bits each, packed and unpacked -/
theorem unpack {e c : Nat} (he : e < 2 ^ 32) (hc : c < 2 ^ 32) (penalty : Int) :
    epochOf ⟨(UInt64.ofNat e <<< 32) ||| UInt64.ofNat c, penalty⟩ = e ∧
      countOf ⟨(UInt64.ofNat e <<< 32) ||| UInt64.ofNat c, penalty⟩ = c := by
  have hword : ((UInt64.ofNat e <<< 32) ||| UInt64.ofNat c).toNat = e * 2 ^ 32 + c := by
    have hsize : UInt64.size = 2 ^ 64 := rfl
    rw [UInt64.toNat_or, UInt64.toNat_shiftLeft, UInt64.toNat_ofNat_of_lt' (by omega),
      UInt64.toNat_ofNat_of_lt' (by omega)]
    have hmod : (e <<< 32) % 2 ^ 64 = e <<< 32 := by
      rw [Nat.shiftLeft_eq]
      omega
    show (e <<< 32) % 2 ^ 64 ||| c = _
    rw [hmod, ← Nat.shiftLeft_add_eq_or_of_lt hc, Nat.shiftLeft_eq]
  constructor
  · rw [epochOf, UInt64.toNat_shiftRight, hword]
    show (e * 2 ^ 32 + c) >>> 32 = e
    rw [Nat.shiftRight_eq_div_pow]
    omega
  · rw [countOf, UInt64.toNat_and, hword]
    show (e * 2 ^ 32 + c) &&& (2 ^ 32 - 1) = c
    rw [Nat.and_two_pow_sub_one_eq_mod]
    omega

section
variable {d : DomainRateBucket} {s : Int}

theorem ofInt_nonneg (h0 : 0 ≤ s) (h : s < 2 ^ 32) : UInt64.ofInt s = UInt64.ofNat s.toNat := by
  rw [UInt64.ofInt, Int.emod_eq_of_lt h0 (by omega)]

theorem epochOf_lt (d : DomainRateBucket) : d.epochOf < 2 ^ 32 := by
  show (d.state >>> 32).toNat < 2 ^ 32
  rw [UInt64.toNat_shiftRight]
  show d.state.toNat >>> 32 < 2 ^ 32
  rw [Nat.shiftRight_eq_div_pow]
  have := d.state.toNat_lt
  omega

theorem new_unpack (h0 : 0 ≤ s) (h : s < 2 ^ 32) :
    ((new s).epochOf : Int) = s ∧ (new s).countOf = 0 := by
  have hpack := unpack (e := s.toNat) (c := 0) (by omega) (by omega) 0
  have hzero : (UInt64.ofNat s.toNat <<< 32) ||| UInt64.ofNat 0 = epoch s := by
    rw [epoch, ofInt_nonneg h0 h]
    exact UInt64.or_zero
  rw [hzero] at hpack
  refine ⟨?_, hpack.2⟩
  show (epochOf ⟨epoch s, 0⟩ : Int) = s
  rw [hpack.1]
  omega

theorem count_later (h0 : 0 ≤ s) (h : s < 2 ^ 32) (he : (d.epochOf : Int) < s) :
    ((d.count s).1.epochOf : Int) = s ∧ (d.count s).1.countOf = 1 ∧ (d.count s).2 = 1 ∧
      (d.count s).1.penalizedUntilSec = d.penalizedUntilSec := by
  have hcount : d.count s = ({ d with state := epoch s ||| 1 }, 1) := if_pos he
  have hpack := unpack (e := s.toNat) (c := 1) (by omega) (by omega) d.penalizedUntilSec
  rw [← ofInt_nonneg h0 h] at hpack
  rw [hcount]
  refine ⟨?_, hpack.2, rfl, rfl⟩
  show ((epochOf ⟨epoch s ||| 1, d.penalizedUntilSec⟩ : Nat) : Int) = s
  have h1 : epochOf ⟨epoch s ||| 1, d.penalizedUntilSec⟩ = s.toNat := hpack.1
  rw [h1]
  omega

theorem count_same (he : ¬ (d.epochOf : Int) < s) :
    (d.count s).1.epochOf = d.epochOf ∧
      (d.count s).1.countOf = min (d.countOf + 1) (2 ^ 32 - 1) ∧
      (d.count s).2 = min (d.countOf + 1) (2 ^ 32 - 1) ∧
      (d.count s).1.penalizedUntilSec = d.penalizedUntilSec := by
  have hcount : d.count s = ({ d with
      state := (d.epochOf.toUInt64 <<< 32) ||| (min (d.countOf + 1) (2 ^ 32 - 1)).toUInt64 },
      min (d.countOf + 1) (2 ^ 32 - 1)) := if_neg he
  have hpack := unpack (c := min (d.countOf + 1) (2 ^ 32 - 1)) d.epochOf_lt (by omega)
    d.penalizedUntilSec
  rw [hcount]
  exact ⟨hpack.1, hpack.2, rfl, rfl⟩

end

/-! ## one call -/

/-- the counter of a second: that of another second does not count -/
def countAt (d : DomainRateBucket) (s : Int) : Nat := if (d.epochOf : Int) = s then d.countOf else 0

/-- what a call at second `s` makes of an entry and answers -/
inductive LimitCase (d : DomainRateBucket) (s : Int) (d' : DomainRateBucket) : RrlAction → Prop
  | penalized : s < d.penalizedUntilSec → d'.penalizedUntilSec = s + 3 → d'.epochOf = d.epochOf →
      LimitCase d s d' .Drop
  | first : d.penalizedUntilSec ≤ s → d.countAt s = 0 → d'.countAt s = 1 →
      d'.penalizedUntilSec = d.penalizedUntilSec → (d'.epochOf : Int) = s → LimitCase d s d' .Allow
  | second : d.penalizedUntilSec ≤ s → d.countAt s = 1 → d'.countAt s = 2 →
      d'.penalizedUntilSec = d.penalizedUntilSec → (d'.epochOf : Int) = s →
      LimitCase d s d' .Truncate
  | later : d.penalizedUntilSec ≤ s → 2 ≤ d.countAt s → d'.penalizedUntilSec = s + 3 →
      (d.epochOf : Int) = s → (d'.epochOf : Int) = s → LimitCase d s d' .Drop

section
variable {d : DomainRateBucket} {s : Int}

theorem epochOf_limit (d : DomainRateBucket) (h0 : 0 ≤ s) (h : s < 2 ^ 32) :
    ((d.limit s).1.epochOf : Int) ≤ max (d.epochOf : Int) s := by
  have hcount : ((d.count s).1.epochOf : Int) ≤ max (d.epochOf : Int) s := by
    by_cases hlt : (d.epochOf : Int) < s
    · rw [(count_later h0 h hlt).1]
      exact le_max_right _ _
    · rw [(count_same hlt).1]
      exact le_max_left _ _
  unfold limit
  split
  · exact le_max_left _ _
  · split
    · exact hcount
    · split
      · exact hcount
      · exact hcount

theorem limit_cases (h0 : 0 ≤ s) (h : s < 2 ^ 32) (he : (d.epochOf : Int) ≤ s) :
    LimitCase d s (d.limit s).1 (d.limit s).2 := by
  unfold limit
  by_cases hp : s < d.penalizedUntilSec
  · rw [if_pos hp]
    exact .penalized hp rfl rfl
  · rw [if_neg hp]
    have hp' : d.penalizedUntilSec ≤ s := by omega
    by_cases hlt : (d.epochOf : Int) < s
    · -- the first call of a later second
      obtain ⟨hepoch, hcount, hquery, hpen⟩ := count_later h0 h hlt
      rw [if_pos hquery]
      refine .first hp' ?_ ?_ hpen hepoch
      · rw [countAt, if_neg (by omega)]
      · rw [countAt, if_pos hepoch, hcount]
    · have heq : (d.epochOf : Int) = s := by omega
      obtain ⟨hepoch, hcount, hquery, hpen⟩ := count_same hlt
      have hepoch' : ((d.count s).1.epochOf : Int) = s := by rw [hepoch]; exact heq
      have hat : d.countAt s = d.countOf := if_pos heq
      have hat' : (d.count s).1.countAt s = min (d.countOf + 1) (2 ^ 32 - 1) := by
        rw [countAt, if_pos hepoch', hcount]
      rw [hquery]
      by_cases h1 : min (d.countOf + 1) (2 ^ 32 - 1) = 1
      · rw [if_pos h1]
        exact .first hp' (by omega) (hat'.trans h1) hpen hepoch'
      · rw [if_neg h1]
        by_cases h2 : min (d.countOf + 1) (2 ^ 32 - 1) = 2
        · rw [if_pos h2]
          exact .second hp' (by omega) (hat'.trans h2) hpen hepoch'
        · rw [if_neg h2]
          exact .later hp' (by omega) rfl heq hepoch'

end
end DomainRateBucket

/-! ## a sequence of calls for one key -/

/-- a call at some second and its answer -/
structure Answered where
  sec : Int
  action : RrlAction
  deriving DecidableEq

/-- the answers of an entry to calls at the given seconds -/
def limitTrace (d : DomainRateBucket) : List Int → List Answered
  | [] => []
  | s :: secs => ⟨s, (d.limit s).2⟩ :: limitTrace (d.limit s).1 secs

/-- the law of one answer, given those before it -/
structure CallLaw (before : List Answered) (a : Answered) : Prop where
  allow : (∃ b ∈ before, b.sec = a.sec) → a.action ≠ .Allow
  truncate : (∃ b ∈ before, b.sec = a.sec ∧ b.action = .Truncate) → a.action ≠ .Truncate
  third : 2 ≤ before.countP (fun b => b.sec = a.sec) → a.action = .Drop
  again : ∀ (earlier : List Answered) (b : Answered) (between : List Answered),
    before = earlier ++ b :: between → b.action = .Drop →
    (∀ m ∈ between, m.action ≠ .Drop) → a.sec < b.sec + 3 → a.action = .Drop
  recovers : ∀ (earlier : List Answered) (b : Answered), before = earlier ++ [b] →
    b.action = .Drop → b.sec + 3 ≤ a.sec → a.action = .Allow

/-- what an entry knows of the answers it gave -/
structure Good (d : DomainRateBucket) (before : List Answered) : Prop where
  count : ∀ s, (∀ b ∈ before, b.sec ≤ s) → s < d.penalizedUntilSec ∨
    (min (before.countP fun b => b.sec = s) 2 ≤ d.countAt s ∧
      ((∃ b ∈ before, b.sec = s ∧ b.action = .Truncate) → 2 ≤ d.countAt s))
  penalty : ∀ (earlier : List Answered) (b : Answered) (between : List Answered),
    before = earlier ++ b :: between → b.action = .Drop →
    (∀ m ∈ between, m.action ≠ .Drop) → d.penalizedUntilSec = b.sec + 3
  epoch : ∀ (earlier : List Answered) (b : Answered), before = earlier ++ [b] →
    (d.epochOf : Int) ≤ b.sec

section
variable {d : DomainRateBucket} {before : List Answered} {s : Int}

theorem good_nil (d : DomainRateBucket) : Good d [] where
  count := fun s _ => Or.inr ⟨Nat.zero_le _, fun ⟨_, hb, _⟩ => absurd hb (by simp)⟩
  penalty := fun earlier b between h => absurd h (by simp)
  epoch := fun earlier b h => absurd h (by simp)

theorem Good.callLaw (hg : Good d before) (h0 : 0 ≤ s) (h : s < 2 ^ 32)
    (he : (d.epochOf : Int) ≤ s) (hle : ∀ b ∈ before, b.sec ≤ s) :
    CallLaw before ⟨s, (d.limit s).2⟩ := by
  have hc := DomainRateBucket.limit_cases h0 h he
  have hcount := hg.count s hle
  constructor
  · rintro ⟨b, hb, hbs⟩ hact
    have hone : 1 ≤ before.countP fun b => decide (b.sec = s) :=
      List.one_le_countP_iff.mpr ⟨b, hb, by simpa using hbs⟩
    dsimp only at hact
    rw [hact] at hc
    cases hc with
    | first hp h0 _ _ _ => omega
  · rintro ⟨b, hb, hbs, hbt⟩ hact
    dsimp only at hact hbs
    rw [hact] at hc
    cases hc with
    | second hp h1 _ _ _ =>
      rcases hcount with hpen | ⟨_, htwo⟩
      · omega
      · have := htwo ⟨b, hb, hbs, hbt⟩
        omega
  · intro htwo
    dsimp only at htwo ⊢
    generalize (d.limit s).2 = act at hc
    cases hc with
    | penalized => rfl
    | later => rfl
    | first hp h0 _ _ _ => omega
    | second hp h1 _ _ _ => omega
  · intro earlier b between hsplit hdrop hbetween hlt
    have hpen := hg.penalty earlier b between hsplit hdrop hbetween
    dsimp only at hlt ⊢
    generalize (d.limit s).2 = act at hc
    cases hc with
    | penalized => rfl
    | later => rfl
    | first hp _ _ _ _ => omega
    | second hp _ _ _ _ => omega
  · intro earlier b hsplit hdrop hlt
    have hpen := hg.penalty earlier b [] hsplit hdrop (by simp)
    have hep := hg.epoch earlier b hsplit
    have hat : d.countAt s = 0 := by
      rw [DomainRateBucket.countAt, if_neg]
      dsimp only at hlt
      omega
    dsimp only at hlt ⊢
    generalize (d.limit s).2 = act at hc
    cases hc with
    | first => rfl
    | penalized hp _ _ => omega
    | second hp h1 _ _ _ => omega
    | later hp h2 _ _ _ => omega

theorem concat_split {α : Type*} {l earlier after : List α} {x b : α}
    (h : l ++ [x] = earlier ++ b :: after) :
    (after = [] ∧ earlier = l ∧ b = x) ∨
      ∃ after', after = after' ++ [x] ∧ l = earlier ++ b :: after' := by
  rcases List.eq_nil_or_concat after with rfl | ⟨after', y, rfl⟩
  · obtain ⟨h1, h2⟩ := List.append_inj' h rfl
    exact Or.inl ⟨rfl, h1.symm, (List.singleton_inj.mp h2).symm⟩
  · have h' : l ++ [x] = (earlier ++ b :: after') ++ [y] := by
      rw [h]
      simp
    obtain ⟨h1, h2⟩ := List.append_inj' h' rfl
    exact Or.inr ⟨after', by rw [List.singleton_inj.mp h2, List.concat_eq_append], h1⟩

theorem Good.step_count {d' : DomainRateBucket} {act : RrlAction} (hg : Good d before)
    (hc : d.LimitCase s d' act) (hle : ∀ b ∈ before, b.sec ≤ s) {s' : Int}
    (hle' : ∀ b ∈ before ++ [⟨s, act⟩], b.sec ≤ s') : s' < d'.penalizedUntilSec ∨
      (min ((before ++ [(⟨s, act⟩ : Answered)]).countP fun b => b.sec = s') 2 ≤ d'.countAt s' ∧
        ((∃ b ∈ before ++ [(⟨s, act⟩ : Answered)], b.sec = s' ∧ b.action = .Truncate) →
          2 ≤ d'.countAt s')) := by
  have hs : s ≤ s' := hle' ⟨s, act⟩ (by simp)
  have hcount := hg.count s hle
  rcases Int.lt_or_eq_of_le hs with hlt | rfl
  · -- a later second has no call yet
    have hnone : ∀ b ∈ before ++ [⟨s, act⟩], b.sec ≠ s' := by
      intro b hb
      rcases List.mem_append.mp hb with hb | hb
      · have := hle b hb
        omega
      · rw [List.mem_singleton.mp hb]
        exact Int.ne_of_lt hlt
    right
    refine ⟨?_, fun ⟨b, hb, hbs, _⟩ => absurd hbs (hnone b hb)⟩
    rw [List.countP_eq_zero.mpr fun b hb => by simpa using hnone b hb]
    exact Nat.zero_le _
  · have hadd : (before ++ [(⟨s, act⟩ : Answered)]).countP (fun b => decide (b.sec = s)) =
        before.countP (fun b => decide (b.sec = s)) + 1 := by
      simp [List.countP_append]
    rw [hadd]
    cases hc with
    | penalized _ hp _ => exact Or.inl (by omega)
    | later _ _ hp _ _ => exact Or.inl (by omega)
    | second _ _ htwo _ _ => exact Or.inr ⟨by omega, fun _ => by omega⟩
    | first hpen hzero hone _ _ =>
      obtain ⟨hmin, htrunc⟩ := hcount.resolve_left (by omega)
      refine Or.inr ⟨by omega, fun ⟨b, hb, hbs, hbt⟩ => ?_⟩
      rcases List.mem_append.mp hb with hb | hb
      · have := htrunc ⟨b, hb, hbs, hbt⟩
        omega
      · rw [List.mem_singleton.mp hb] at hbt
        exact absurd hbt (by simp)

theorem Good.step_penalty {d' : DomainRateBucket} {act : RrlAction} (hg : Good d before)
    (hc : d.LimitCase s d' act) {earlier between : List Answered} {b : Answered}
    (hsplit : before ++ [⟨s, act⟩] = earlier ++ b :: between) (hdrop : b.action = .Drop)
    (hbetween : ∀ m ∈ between, m.action ≠ .Drop) : d'.penalizedUntilSec = b.sec + 3 := by
  rcases concat_split hsplit with ⟨rfl, rfl, rfl⟩ | ⟨between', rfl, hbefore⟩
  · -- this call was dropped
    dsimp only at hdrop ⊢
    subst hdrop
    cases hc with
    | penalized _ hp _ => exact hp
    | later _ _ hp _ _ => exact hp
  · have hnot : act ≠ .Drop := hbetween ⟨s, act⟩ (by simp)
    have hpen := hg.penalty earlier b between' hbefore hdrop fun m hm =>
      hbetween m (List.mem_append_left _ hm)
    cases hc with
    | penalized => exact absurd rfl hnot
    | later => exact absurd rfl hnot
    | first _ _ _ hp _ => rw [hp, hpen]
    | second _ _ _ hp _ => rw [hp, hpen]

theorem Good.step (hg : Good d before) (h0 : 0 ≤ s) (h : s < 2 ^ 32)
    (he : (d.epochOf : Int) ≤ s) (hle : ∀ b ∈ before, b.sec ≤ s) :
    Good (d.limit s).1 (before ++ [⟨s, (d.limit s).2⟩]) := by
  have hc := DomainRateBucket.limit_cases h0 h he
  generalize (d.limit s).1 = d' at hc ⊢
  generalize (d.limit s).2 = act at hc ⊢
  constructor
  · intro s' hle'
    exact hg.step_count hc hle hle'
  · intro earlier b between hsplit hdrop hbetween
    exact hg.step_penalty hc hsplit hdrop hbetween
  · intro earlier b hsplit
    obtain ⟨rfl, hb⟩ := List.append_inj' hsplit rfl
    rw [← List.singleton_inj.mp hb]
    dsimp only
    cases hc with
    | penalized _ _ hep => omega
    | first _ _ _ _ hep => omega
    | second _ _ _ _ hep => omega
    | later _ _ _ _ hep => omega

theorem limitTrace_law {secs : List Int} {before earlier after : List Answered} {a : Answered}
    (hg : Good d before) (hsec : ∀ s ∈ secs, 0 ≤ s ∧ s < 2 ^ 32) (hmono : secs.Pairwise (· ≤ ·))
    (he : ∀ s ∈ secs, (d.epochOf : Int) ≤ s) (hle : ∀ s ∈ secs, ∀ b ∈ before, b.sec ≤ s)
    (hsplit : limitTrace d secs = earlier ++ a :: after) : CallLaw (before ++ earlier) a := by
  induction secs generalizing d before earlier with
  | nil => exact absurd hsplit (by simp [limitTrace])
  | cons s secs ih =>
    have hs := hsec s List.mem_cons_self
    have hes := he s List.mem_cons_self
    have hles := hle s List.mem_cons_self
    obtain ⟨hnext, hmono'⟩ := List.pairwise_cons.mp hmono
    rw [limitTrace] at hsplit
    cases earlier with
    | nil =>
      rw [List.nil_append, List.cons.injEq] at hsplit
      rw [List.append_nil, ← hsplit.1]
      exact hg.callLaw hs.1 hs.2 hes hles
    | cons x earlier =>
      rw [List.cons_append, List.cons.injEq] at hsplit
      have hg' := hg.step hs.1 hs.2 hes hles
      have hrec := ih hg' (fun t ht => hsec t (List.mem_cons_of_mem _ ht)) hmono' ?_ ?_ hsplit.2
      · rw [← hsplit.1]
        rw [List.append_assoc, List.singleton_append] at hrec
        exact hrec
      · intro t ht
        have hep := hg'.epoch before _ rfl
        have := hnext t ht
        dsimp only at hep
        omega
      · intro t ht b hb
        have hst := hnext t ht
        rcases List.mem_append.mp hb with hb | hb
        · have := hles b hb
          omega
        · rw [List.mem_singleton.mp hb]
          exact hst

end

/-! ## the calls for a key in a sequence of calls -/

/-- a UDP call for a tracked key that obtains a token -/
def countsFor (rl : RateLimiter) (key : RrlKey) (q : LimiterQuery) : Bool :=
  decide (q.protocol = .UDP) && obtainsToken rl q && decide (q.rrlKey rl = key) && rl.tracks key

/-- the answers to such calls, in a sequence of calls of any kind -/
def keyTrace (key : RrlKey) : RateLimiter → List LimiterQuery → List Answered
  | _, [] => []
  | rl, q :: qs =>
    match checkQuery rl q with
    | none => []
    | some (rl', action) =>
      if countsFor rl key q then ⟨q.nowS, action⟩ :: keyTrace key rl' qs else keyTrace key rl' qs

section
variable {rl rl' : RateLimiter} {key : RrlKey} {q : LimiterQuery} {action : RrlAction}

/-- what a call does with the entries of names -/
inductive NameCase (rl : RateLimiter) (q : LimiterQuery) (rl' : RateLimiter) : RrlAction → Prop
  | untouched {action : RrlAction} : rl'.rrlBuckets = rl.rrlBuckets →
      (∀ key, countsFor rl key q = false) → NameCase rl q rl' action
  | limited : countsFor rl (q.rrlKey rl) q = true →
      rl'.rrlBuckets = rl.rrlBuckets.insert (q.rrlKey rl)
        ((rl.domainEntry (q.rrlKey rl) q.nowS).limit q.nowS).1 →
      NameCase rl q rl' ((rl.domainEntry (q.rrlKey rl) q.nowS).limit q.nowS).2

theorem acquire_setBucket {subnet : IpAddr} {now : Int} {token : Bool}
    (h : rl.acquire subnet now = some (rl', token)) : ∃ b, rl' = rl.setBucket subnet b := by
  unfold RateLimiter.acquire at h
  obtain ⟨b, -, heq⟩ := Option.map_eq_some_iff.mp h
  split at heq
  · exact ⟨_, (Prod.mk.inj heq).1.symm⟩
  · exact ⟨_, (Prod.mk.inj heq).1.symm⟩

theorem checkQuery_names (h : checkQuery rl q = some (rl', action)) :
    NameCase rl q rl' action := by
  unfold checkQuery at h
  by_cases hloop : q.clientIp.isLoopback = true
  · rw [if_pos hloop] at h
    obtain ⟨rfl, rfl⟩ := Prod.mk.inj (Option.some.inj h)
    refine .untouched rfl fun key => ?_
    simp [countsFor, obtainsToken, LimiterQuery.reaches, hloop]
  · rw [if_neg hloop] at h
    by_cases hany : q.protocol = .UDP ∧ q.qtype = .ANY
    · rw [if_pos hany] at h
      obtain ⟨rfl, rfl⟩ := Prod.mk.inj (Option.some.inj h)
      refine .untouched rfl fun key => ?_
      simp [countsFor, obtainsToken, LimiterQuery.reaches, hany.1, hany.2]
    · rw [if_neg hany] at h
      obtain ⟨⟨rl₁, token⟩, hacq, heq⟩ := Option.map_eq_some_iff.mp h
      obtain ⟨b, rfl⟩ := acquire_setBucket hacq
      dsimp only at heq
      cases token with
      | false =>
        obtain ⟨rfl, rfl⟩ := Prod.mk.inj heq
        refine .untouched rfl fun key => ?_
        simp [countsFor, obtainsToken, hacq]
      | true =>
        rw [Bool.not_true, if_neg Bool.false_ne_true] at heq
        by_cases hu : q.protocol = .UDP
        · rw [if_neg (not_not.mpr hu)] at heq
          unfold RateLimiter.limitName at heq
          have htracks : (rl.setBucket q.subnet b).tracks (q.rrlKey (rl.setBucket q.subnet b)) =
              rl.tracks (q.rrlKey rl) := rfl
          rw [htracks] at heq
          cases ht : rl.tracks (q.rrlKey rl) with
          | false =>
            rw [ht] at heq
            obtain ⟨rfl, rfl⟩ := Prod.mk.inj heq
            refine .untouched rfl fun key => ?_
            by_cases hkey : q.rrlKey rl = key
            · subst hkey
              simp [countsFor, ht]
            · simp [countsFor, hkey]
          | true =>
            rw [ht] at heq
            obtain ⟨rfl, rfl⟩ := Prod.mk.inj heq
            refine .limited ?_ rfl
            have hreach : q.reaches = true := by
              simp only [Bool.not_eq_true] at hloop
              simp only [LimiterQuery.reaches, hloop, Bool.not_false, Bool.true_and,
                Bool.not_eq_true', Bool.and_eq_false_iff, decide_eq_false_iff_not]
              exact not_and_or.mp hany
            simp [countsFor, obtainsToken, hreach, hacq, hu, ht]
        · rw [if_pos hu] at heq
          obtain ⟨rfl, rfl⟩ := Prod.mk.inj heq
          refine .untouched rfl fun key => ?_
          simp [countsFor, hu]

theorem keyTrace_of_entry {d : DomainRateBucket} (qs : List LimiterQuery)
    (hd : rl.rrlBuckets.lookup key = some d) :
    ∃ secs, keyTrace key rl qs = limitTrace d secs := by
  induction qs generalizing rl d with
  | nil => exact ⟨[], rfl⟩
  | cons q qs ih =>
    rw [keyTrace]
    cases hq : checkQuery rl q with
    | none => exact ⟨[], rfl⟩
    | some r =>
      obtain ⟨rl', action⟩ := r
      dsimp only
      cases checkQuery_names hq with
      | untouched hsame hnot =>
        rw [hnot key, if_neg Bool.false_ne_true]
        exact ih (by rw [hsame]; exact hd)
      | limited hcounts hins =>
        by_cases hkey : key = q.rrlKey rl
        · subst hkey
          rw [if_pos hcounts]
          have hentry : rl.domainEntry (q.rrlKey rl) q.nowS = d := by
            rw [RateLimiter.domainEntry, hd]
            rfl
          rw [hentry] at hins ⊢
          obtain ⟨secs, hsecs⟩ := ih (by rw [hins]; exact AList.lookup_insert _)
          exact ⟨q.nowS :: secs, by rw [hsecs]; rfl⟩
        · have hnot : countsFor rl key q = false := by
            simp [countsFor, Ne.symm hkey]
          rw [hnot, if_neg Bool.false_ne_true]
          exact ih (by rw [hins, AList.lookup_insert_ne hkey]; exact hd)

theorem keyTrace_of_no_entry (qs : List LimiterQuery) (hd : rl.rrlBuckets.lookup key = none) :
    keyTrace key rl qs = [] ∨
      ∃ s secs, keyTrace key rl qs = limitTrace (DomainRateBucket.new s) (s :: secs) := by
  induction qs generalizing rl with
  | nil => exact Or.inl rfl
  | cons q qs ih =>
    rw [keyTrace]
    cases hq : checkQuery rl q with
    | none => exact Or.inl rfl
    | some r =>
      obtain ⟨rl', action⟩ := r
      dsimp only
      cases checkQuery_names hq with
      | untouched hsame hnot =>
        rw [hnot key, if_neg Bool.false_ne_true]
        exact ih (by rw [hsame]; exact hd)
      | limited hcounts hins =>
        by_cases hkey : key = q.rrlKey rl
        · subst hkey
          rw [if_pos hcounts]
          have hentry : rl.domainEntry (q.rrlKey rl) q.nowS = DomainRateBucket.new q.nowS := by
            rw [RateLimiter.domainEntry, hd]
            rfl
          rw [hentry] at hins ⊢
          obtain ⟨secs, hsecs⟩ := keyTrace_of_entry qs
            (show rl'.rrlBuckets.lookup (q.rrlKey rl) = some _ by
              rw [hins]
              exact AList.lookup_insert _)
          exact Or.inr ⟨q.nowS, secs, by rw [hsecs]; rfl⟩
        · have hnot : countsFor rl key q = false := by
            simp [countsFor, Ne.symm hkey]
          rw [hnot, if_neg Bool.false_ne_true]
          exact ih (by rw [hins, AList.lookup_insert_ne hkey]; exact hd)

theorem limitTrace_secs (d : DomainRateBucket) (secs : List Int) :
    (limitTrace d secs).map Answered.sec = secs := by
  induction secs generalizing d with
  | nil => rfl
  | cons s secs ih => rw [limitTrace, List.map_cons, ih]

theorem keyTrace_callLaw {qs : List LimiterQuery} {earlier after : List Answered} {a : Answered}
    (hsec : ∀ a ∈ keyTrace key rl qs, 0 ≤ a.sec ∧ a.sec < 2 ^ 32)
    (hmono : (keyTrace key rl qs).Pairwise fun a b => a.sec ≤ b.sec)
    (hpast : ∀ d, rl.rrlBuckets.lookup key = some d →
      ∀ a ∈ keyTrace key rl qs, (d.epochOf : Int) ≤ a.sec)
    (hsplit : keyTrace key rl qs = earlier ++ a :: after) : CallLaw earlier a := by
  -- the trace is that of an entry whose second is not after the calls
  obtain ⟨d, secs, htrace, he⟩ : ∃ d secs, keyTrace key rl qs = limitTrace d secs ∧
      ∀ s ∈ secs, (d.epochOf : Int) ≤ s := by
    cases hd : rl.rrlBuckets.lookup key with
    | some d =>
      obtain ⟨secs, hsecs⟩ := keyTrace_of_entry qs hd
      refine ⟨d, secs, hsecs, fun s hs => ?_⟩
      rw [← limitTrace_secs d secs, ← hsecs] at hs
      obtain ⟨a, ha, rfl⟩ := List.mem_map.mp hs
      exact hpast d hd a ha
    | none =>
      rcases keyTrace_of_no_entry qs hd with hnil | ⟨s, secs, hsecs⟩
      · rw [hnil] at hsplit
        exact absurd hsplit (by simp)
      · refine ⟨DomainRateBucket.new s, s :: secs, hsecs, ?_⟩
        rw [hsecs] at hsec hmono
        have hs := hsec _ List.mem_cons_self
        rw [(DomainRateBucket.new_unpack hs.1 hs.2).1]
        intro t ht
        rw [← limitTrace_secs (DomainRateBucket.new s) (s :: secs)] at ht
        obtain ⟨b, hb, rfl⟩ := List.mem_map.mp ht
        rcases List.mem_cons.mp hb with rfl | hb
        · exact le_rfl
        · exact (List.pairwise_cons.mp hmono).1 b hb
  rw [htrace] at hsec hmono hsplit
  have hmem : ∀ s ∈ secs, ∃ b ∈ limitTrace d secs, b.sec = s := fun s hs =>
    List.mem_map.mp (by rw [limitTrace_secs]; exact hs)
  refine limitTrace_law (good_nil d) (fun s hs => ?_) ?_ he (by simp) hsplit
  · obtain ⟨b, hb, rfl⟩ := hmem s hs
    exact hsec b hb
  · rw [← limitTrace_secs d secs]
    exact List.pairwise_map.mpr hmono

end

/-- no entry counted after second `t` -/
def CountedBy (rl : RateLimiter) (t : Int) : Prop :=
  ∀ key d, rl.rrlBuckets.lookup key = some d → (d.epochOf : Int) ≤ t

/-- calls up to second `t` keep it so -/
theorem checkQuery_countedBy {rl rl' : RateLimiter} {q : LimiterQuery} {action : RrlAction}
    {t : Int} (hrl : CountedBy rl t) (h0 : 0 ≤ q.nowS) (h : q.nowS < 2 ^ 32) (ht : q.nowS ≤ t)
    (hq : checkQuery rl q = some (rl', action)) : CountedBy rl' t := by
  intro key d hd
  cases checkQuery_names hq with
  | untouched hsame _ =>
    rw [hsame] at hd
    exact hrl key d hd
  | limited _ hins =>
    rw [hins] at hd
    by_cases hkey : key = q.rrlKey rl
    · subst hkey
      rw [AList.lookup_insert] at hd
      rw [← Option.some.inj hd]
      have hentry : ((rl.domainEntry (q.rrlKey rl) q.nowS).epochOf : Int) ≤ t := by
        unfold RateLimiter.domainEntry
        cases he : rl.rrlBuckets.lookup (q.rrlKey rl) with
        | none =>
          rw [Option.getD_none, (DomainRateBucket.new_unpack h0 h).1]
          exact ht
        | some d' => exact hrl _ d' he
      have := DomainRateBucket.epochOf_limit (rl.domainEntry (q.rrlKey rl) q.nowS) h0 h
      omega
    · rw [AList.lookup_insert_ne hkey] at hd
      exact hrl key d hd

/-! ## the law -/

/-- the duplicate-query law of a sequence of answers -/
structure RrlLaw (trace : List Answered) : Prop where
  allow_once : ∀ s, trace.countP (fun a => a.sec = s ∧ a.action = .Allow) ≤ 1
  truncate_once : ∀ s, trace.countP (fun a => a.sec = s ∧ a.action = .Truncate) ≤ 1
  third_dropped : ∀ (before after : List Answered) (a : Answered), trace = before ++ a :: after →
    2 ≤ before.countP (fun b => b.sec = a.sec) → a.action = .Drop
  /-- less than three seconds after the most recent Drop -/
  again_dropped : ∀ (before between after : List Answered) (b a : Answered),
    trace = before ++ b :: (between ++ a :: after) → b.action = .Drop →
    (∀ m ∈ between, m.action ≠ .Drop) → a.sec < b.sec + 3 → a.action = .Drop
  /-- the first call three seconds or more after the most recent Drop -/
  recovers : ∀ (before between after : List Answered) (b a : Answered),
    trace = before ++ b :: (between ++ a :: after) → b.action = .Drop →
    (∀ m ∈ between, m.action ≠ .Drop) → b.sec + 3 ≤ a.sec →
    (∀ m ∈ between, m.sec < b.sec + 3) → a.action = .Allow

theorem countP_le_one {α : Type*} {p : α → Bool} {l : List α}
    (h : ∀ before a after, l = before ++ a :: after → p a = true → ∀ b ∈ before, p b = false) :
    l.countP p ≤ 1 := by
  induction l using List.reverseRecOn with
  | nil => exact Nat.zero_le _
  | append_singleton l x ih =>
    have hl := ih fun before a after hsplit ha =>
      h before a (after ++ [x]) (by rw [hsplit]; simp) ha
    rw [List.countP_append]
    by_cases hx : p x = true
    · have hzero : l.countP p = 0 := List.countP_eq_zero.mpr fun b hb => by
        simp [h l x [] rfl hx b hb]
      rw [hzero]
      simp [hx]
    · simpa [hx] using hl

theorem keyTrace_rrlLaw {rl : RateLimiter} {key : RrlKey} {qs : List LimiterQuery}
    (hsec : ∀ a ∈ keyTrace key rl qs, 0 ≤ a.sec ∧ a.sec < 2 ^ 32)
    (hmono : (keyTrace key rl qs).Pairwise fun a b => a.sec ≤ b.sec)
    (hpast : ∀ d, rl.rrlBuckets.lookup key = some d →
      ∀ a ∈ keyTrace key rl qs, (d.epochOf : Int) ≤ a.sec) : RrlLaw (keyTrace key rl qs) := by
  have hcall : ∀ (before : List Answered) (a : Answered) (after : List Answered),
      keyTrace key rl qs = before ++ a :: after → CallLaw before a :=
    fun before a after h => keyTrace_callLaw hsec hmono hpast h
  have hagain : ∀ (before between after : List Answered) (b a : Answered),
      keyTrace key rl qs = before ++ b :: (between ++ a :: after) → b.action = .Drop →
      (∀ m ∈ between, m.action ≠ .Drop) → a.sec < b.sec + 3 → a.action = .Drop := by
    intro before between after b a hsplit
    refine (hcall (before ++ b :: between) a after ?_).again before b between rfl
    rw [hsplit]
    simp
  constructor
  · intro s
    refine countP_le_one fun before a after hsplit ha b hb => ?_
    simp only [decide_eq_true_eq] at ha
    by_contra hne
    simp only [Bool.not_eq_false, decide_eq_true_eq] at hne
    exact (hcall before a after hsplit).allow ⟨b, hb, hne.1.trans ha.1.symm⟩ ha.2
  · intro s
    refine countP_le_one fun before a after hsplit ha b hb => ?_
    simp only [decide_eq_true_eq] at ha
    by_contra hne
    simp only [Bool.not_eq_false, decide_eq_true_eq] at hne
    exact (hcall before a after hsplit).truncate ⟨b, hb, hne.1.trans ha.1.symm, hne.2⟩ ha.2
  · intro before after a hsplit
    exact (hcall before a after hsplit).third
  · exact hagain
  · intro before between after b a hsplit hdrop hbetween hlate hearly
    cases between with
    | nil =>
      have hlast := hcall (before ++ [b]) a after (by rw [hsplit]; simp)
      exact hlast.recovers before b rfl hdrop hlate
    | cons m between =>
      have hm := hagain before [] (between ++ a :: after) b m (by rw [hsplit]; simp) hdrop
        (by simp) (hearly m List.mem_cons_self)
      exact absurd hm (hbetween m List.mem_cons_self)

theorem rrlKey_eq_iff (rl : RateLimiter) {q q' : LimiterQuery} (hq : q.qname.NoIdna)
    (hq' : q'.qname.NoIdna) :
    q.rrlKey rl = q'.rrlKey rl ↔ q.subnet = q'.subnet ∧ q.qname.fold = q'.qname.fold ∧
      rl.typeText q.qtype = rl.typeText q'.qtype := by
  unfold LimiterQuery.rrlKey NameText.lower
  rw [RrlKey.mk.injEq, rl.nameText.case_law _ _ hq hq']

/-- **Duplicate UDP queries.**  Whatever other calls come in between, the answers to the UDP calls
for a tracked key that obtain a token, at nondecreasing seconds below `2 ^ 32` and none before the
second its entry last counted, obey the law.  The calls with one key are those from one subnet for
one type and one name in lower case, if no label of the names is in IDNA form. -/
theorem keyTrace_law {rl : RateLimiter} {key : RrlKey} {qs : List LimiterQuery}
    (hsec : ∀ a ∈ keyTrace key rl qs, 0 ≤ a.sec ∧ a.sec < 2 ^ 32)
    (hmono : (keyTrace key rl qs).Pairwise fun a b => a.sec ≤ b.sec)
    (hpast : ∀ d, rl.rrlBuckets.lookup key = some d →
      ∀ a ∈ keyTrace key rl qs, (d.epochOf : Int) ≤ a.sec) :
    RrlLaw (keyTrace key rl qs) ∧
      ∀ q q' : LimiterQuery, q.qname.NoIdna → q'.qname.NoIdna →
        (q.rrlKey rl = q'.rrlKey rl ↔ q.subnet = q'.subnet ∧ q.qname.fold = q'.qname.fold ∧
          rl.typeText q.qtype = rl.typeText q'.qtype) :=
  ⟨keyTrace_rrlLaw hsec hmono hpast, fun _ _ hq hq' => rrlKey_eq_iff rl hq hq'⟩

def roomyLimiter : RateLimiter := RateLimiter.new 100 10 .dotted addressMnemonic

/-- a query for the root from `198.51.100.9` -/
def rootQuery (now : Int) : LimiterQuery where
  protocol := .UDP
  clientIp := ipv4 198 51 100 9
  qname := .root
  qtype := .A
  now := now

def comQuery (now : Int) : LimiterQuery := { rootQuery now with qname := comName }

/-- `COM.` -/
def shoutedQuery (now : Int) : LimiterQuery :=
  { rootQuery now with qname := ⟨[ascii "COM"], by decide +kernel⟩ }

/-- three queries in one second, one during the penalty and one after it, in changing case -/
def burst : List LimiterQuery :=
  [comQuery 10000, shoutedQuery 10100, comQuery 10200, shoutedQuery 12000, comQuery 15000]

theorem burst_law :
    keyTrace ((comQuery 0).rrlKey roomyLimiter) roomyLimiter burst =
        [⟨10, .Allow⟩, ⟨10, .Truncate⟩, ⟨10, .Drop⟩, ⟨12, .Drop⟩, ⟨15, .Allow⟩] ∧
      RrlLaw (keyTrace ((comQuery 0).rrlKey roomyLimiter) roomyLimiter burst) ∧
      (shoutedQuery 0).rrlKey roomyLimiter = (comQuery 0).rrlKey roomyLimiter := by
  have htrace : keyTrace ((comQuery 0).rrlKey roomyLimiter) roomyLimiter burst =
      [⟨10, .Allow⟩, ⟨10, .Truncate⟩, ⟨10, .Drop⟩, ⟨12, .Drop⟩, ⟨15, .Allow⟩] := by
    decide +kernel
  have hsec : ∀ a ∈ keyTrace ((comQuery 0).rrlKey roomyLimiter) roomyLimiter burst,
      0 ≤ a.sec ∧ a.sec < 2 ^ 32 := by
    rw [htrace]
    decide
  have hmono : (keyTrace ((comQuery 0).rrlKey roomyLimiter) roomyLimiter burst).Pairwise
      fun a b => a.sec ≤ b.sec := by
    rw [htrace]
    decide
  have hlaw := keyTrace_law hsec hmono fun d hd =>
    absurd hd (by simp [roomyLimiter, RateLimiter.new])
  refine ⟨htrace, hlaw.1, (hlaw.2 _ _ (by decide +kernel) (by decide +kernel)).mpr ?_⟩
  exact ⟨rfl, by decide +kernel, rfl⟩

end DnsResolver
