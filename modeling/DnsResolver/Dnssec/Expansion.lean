import DnsResolver.Dnssec.DsBitmap

/-!
# Denial records and wildcard expansion

An RRSIG with fewer labels than its owner is checked over the wildcard that the owner would be
expanded from.  `verify_negative_rrset` takes the first RRSIG that verifies and does not look at
its number of labels, so a record that the zone has at a wildcard is taken for a record at any
name below.

* `Verifies`              an RRSIG verifies under one of the keys, at a given time;
* `rrsigLoop_first`       the loop takes an RRSIG with no earlier one that verifies throughout;
* `Unexpanded`            every RRSIG a verdict rests on has the labels of its record's owner;
* `denial_unexpanded`     when that is so;
* `expandedRun_accepted`  a verdict on a record that the zone does not have.
-/

namespace DnsResolver
open Trace

/-! ## time passes -/

/-- the trace grew and the clock was not turned back -/
structure Passes (s s' : State) : Prop where
  log : Grew (fun _ => True) s.log s'.log
  tick : s.tick ≤ s'.tick

section
variable {env : Env} {records : List Record} {s s₁ s₂ : State}

theorem Passes.refl (s : State) : Passes s s := ⟨Grew.refl _, le_refl _⟩

theorem Passes.trans (h : Passes s s₁) (h' : Passes s₁ s₂) : Passes s s₂ :=
  ⟨h.log.trans h'.log, h.tick.trans h'.tick⟩

theorem canCheckSig_passes (st : State) :
    (canCheckSig st).2.log = st.log ∧ (canCheckSig st).2.tick = st.tick := by
  unfold canCheckSig
  split <;> exact ⟨rfl, rfl⟩

theorem checkKey_cases {rec : Record} {sig : Rrsig} {key : Dnskey} {st st' : State}
    {r : Result (Record × Rrsig × Dnskey)} (h : checkKey env records rec sig key st = (r, st')) :
    (keyTagMatches env.crypto key sig.keyTag = false ∧ r = .miss ∧ st' = st) ∨
      (keyTagMatches env.crypto key sig.keyTag = true ∧ r = .stop ∧ st'.log = st.log ∧
        st'.tick = st.tick) ∨
      (keyTagMatches env.crypto key sig.keyTag = true ∧ st'.tick = st.tick + 1 ∧
        ∃ ok, st'.log = st.log ++ [.sigCheck sig key rec records ok] ∧
          ok = (rrsigTimeValid sig (env.nowSecs st.tick) &&
            signatureValid env.crypto sig key rec records) ∧
          r = if ok then .hit (rec, sig, key) else .miss) := by
  unfold checkKey at h
  split at h
  · rename_i htag
    have hc := canCheckSig_passes st
    cases hb : canCheckSig st with
    | mk b st₁ =>
      rw [hb] at hc
      obtain ⟨hlog, htick⟩ := hc
      cases b with
      | false =>
        simp only [hb, Prod.mk.injEq] at h
        obtain ⟨rfl, rfl⟩ := h
        exact Or.inr (Or.inl ⟨htag, rfl, hlog, htick⟩)
      | true =>
        refine Or.inr (Or.inr ⟨htag, ?_⟩)
        simp only [hb, verifyRrsig] at h
        rw [← hlog, ← htick]
        split at h
        · rename_i hv
          obtain ⟨rfl, rfl⟩ := Prod.mk.inj h
          obtain ⟨hok, rfl⟩ := Prod.mk.inj hv
          exact ⟨rfl, true, by rw [hok]; rfl, hok.symm, rfl⟩
        · rename_i hv
          obtain ⟨rfl, rfl⟩ := Prod.mk.inj h
          obtain ⟨hok, rfl⟩ := Prod.mk.inj hv
          exact ⟨rfl, false, by rw [hok]; rfl, hok.symm, rfl⟩
  · rename_i htag
    obtain ⟨rfl, rfl⟩ := Prod.mk.inj h
    exact Or.inl ⟨by simpa using htag, rfl, rfl⟩

theorem checkKey_passes (env : Env) (records : List Record) (rec : Record) (sig : Rrsig)
    (key : Dnskey) (st : State) : Passes st (checkKey env records rec sig key st).2 := by
  rcases checkKey_cases (Prod.eta (checkKey env records rec sig key st)).symm with
    ⟨_, _, h⟩ | ⟨_, _, hlog, htick⟩ | ⟨_, htick, ok, hlog, _⟩
  · rw [h]
    exact Passes.refl _
  · exact ⟨hlog ▸ Grew.refl _, htick.ge⟩
  · exact ⟨hlog ▸ Grew.push trivial, by omega⟩

theorem keySearch_passes (env : Env) (records : List Record) (rec : Record) (sig : Rrsig)
    (keys : List Dnskey) (st : State) :
    Passes st (search (checkKey env records rec sig) keys st).2 :=
  search_keeps Passes.refl (fun _ _ _ => Passes.trans) keys
    (fun key _ st => checkKey_passes env records rec sig key st) st

theorem checkRrsig_passes (env : Env) (t : RecordType) (keys : List Dnskey)
    (records : List Record) (rec : Record) (st : State) :
    Passes st (checkRrsig env t keys records rec st).2 := by
  unfold checkRrsig
  split
  · split
    · exact keySearch_passes env records rec _ keys st
    · exact Passes.refl _
  · exact Passes.refl _

theorem rrsigLoop_passes (env : Env) (t : RecordType) (rrsigs : List Record)
    (keys : List Dnskey) (records : List Record) (st : State) :
    Passes st (rrsigLoop env t rrsigs keys records st).2 :=
  search_keeps Passes.refl (fun _ _ _ => Passes.trans) rrsigs
    (fun rec _ st => checkRrsig_passes env t keys records rec st) st

end

/-! ## which RRSIG the loop takes -/

/-- `rec` is an RRSIG over `records` that verifies under one of the keys at the time `now` -/
def Verifies (env : Env) (keys : List Dnskey) (records : List Record) (now : Nat)
    (rec : Record) : Prop :=
  ∃ sig, rec.data = .rrsig sig ∧ rrsigTimeValid sig now = true ∧
    ∃ key ∈ keys, keyTagMatches env.crypto key sig.keyTag = true ∧
      signatureValid env.crypto sig key rec records = true

section
variable {env : Env} {records : List Record} {keys : List Dnskey} {rec : Record} {sig : Rrsig}
  {st st' : State} {lo hi : Nat}

theorem checkKey_added {key : Dnskey} {r : Result (Record × Rrsig × Dnskey)}
    {sig' : Rrsig} {key' : Dnskey} {rec' : Record} {records' : List Record}
    (h : checkKey env records rec sig key st = (r, st'))
    (he : Added st.log st'.log (.sigCheck sig' key' rec' records' true)) :
    r = .hit (rec', sig', key') ∧ records' = records := by
  rcases checkKey_cases h with ⟨_, _, rfl⟩ | ⟨_, _, hlog, _⟩ | ⟨_, _, ok, hlog, _, hr⟩
  · exact absurd he not_added_self
  · rw [hlog] at he
    exact absurd he not_added_self
  · have hm := he.mem_of_eq hlog
    obtain ⟨rfl, rfl, rfl, rfl, rfl⟩ := Event.sigCheck.inj (List.mem_singleton.mp hm)
    exact ⟨hr, rfl⟩

theorem checkRrsig_added {t : RecordType} {r : Result (Record × Rrsig × Dnskey)}
    {sig' : Rrsig} {key' : Dnskey} {rec' : Record} {records' : List Record}
    (h : checkRrsig env t keys records rec st = (r, st'))
    (he : Added st.log st'.log (.sigCheck sig' key' rec' records' true)) :
    r = .hit (rec', sig', key') ∧ records' = records := by
  unfold checkRrsig at h
  split at h
  · split at h
    · obtain ⟨key, _, s₁, s₂, r₁, _, _, hk, ha, hr⟩ := search_added State.log
        Passes.refl (fun _ _ _ => Passes.trans) (fun _ _ hp => hp.log) keys
        (fun key _ s => checkKey_passes env records rec _ key s) h he
      obtain ⟨rfl, hrec⟩ := checkKey_added hk ha
      rcases hr with hr | hr
      · exact absurd hr (by simp)
      · exact ⟨hr.symm, hrec⟩
    · obtain ⟨_, rfl⟩ := Prod.mk.inj h
      exact absurd he not_added_self
  · obtain ⟨_, rfl⟩ := Prod.mk.inj h
    exact absurd he not_added_self

theorem rrsigLoop_added {t : RecordType} {rrsigs : List Record}
    {r : Result (Record × Rrsig × Dnskey)} {sig' : Rrsig} {key' : Dnskey} {rec' : Record}
    {records' : List Record} (h : rrsigLoop env t rrsigs keys records st = (r, st'))
    (he : Added st.log st'.log (.sigCheck sig' key' rec' records' true)) :
    r = .hit (rec', sig', key') ∧ records' = records := by
  obtain ⟨a, _, s₁, s₂, r₁, _, _, hk, ha, hr⟩ := search_added State.log
    Passes.refl (fun _ _ _ => Passes.trans) (fun _ _ hp => hp.log) rrsigs
    (fun rec _ s => checkRrsig_passes env t keys records rec s) h he
  obtain ⟨rfl, hrec⟩ := checkRrsig_added hk ha
  rcases hr with hr | hr
  · exact absurd hr (by simp)
  · exact ⟨hr.symm, hrec⟩

theorem checkKey_miss {key : Dnskey} (h : checkKey env records rec sig key st = (.miss, st'))
    (htag : keyTagMatches env.crypto key sig.keyTag = true)
    (hval : signatureValid env.crypto sig key rec records = true) :
    st.tick < st'.tick ∧ rrsigTimeValid sig (env.nowSecs st.tick) = false := by
  rcases checkKey_cases h with ⟨hno, _⟩ | ⟨_, hs, _⟩ | ⟨_, htick, ok, _, hok, hr⟩
  · rw [htag] at hno
    exact absurd hno (by decide)
  · exact absurd hs (by simp)
  · refine ⟨by omega, ?_⟩
    cases ok with
    | true => exact absurd hr (by simp)
    | false => simpa [hval] using hok.symm

theorem checkRrsig_miss {t : RecordType} (h : checkRrsig env t keys records rec st = (.miss, st'))
    (hrec : ∀ sig, rec.data = .rrsig sig → sig.typeCovered = t) (hlo : lo ≤ st.tick)
    (hhi : st'.tick ≤ hi) (hne : lo < hi) :
    ∃ tick, lo ≤ tick ∧ tick < hi ∧ ¬ Verifies env keys records (env.nowSecs tick) rec := by
  by_contra hall
  have hv : ∀ tick, lo ≤ tick → tick < hi → Verifies env keys records (env.nowSecs tick) rec := by
    intro tick h1 h2
    by_contra hno
    exact hall ⟨tick, h1, h2, hno⟩
  -- the key does not depend on the time
  obtain ⟨sig, hsig, _, key, hkey, htag, hval⟩ := hv lo (le_refl _) hne
  simp only [checkRrsig, hsig, hrec sig hsig, if_true] at h
  obtain ⟨s₁, s₂, hp₁, hp₂, hk⟩ := search_miss Passes.refl (fun _ _ _ => Passes.trans) keys
    (fun key _ s => checkKey_passes env records rec sig key s) h key hkey
  obtain ⟨hlt, hno⟩ := checkKey_miss hk htag hval
  obtain ⟨sig', hsig', htime, _⟩ := hv s₁.tick (hlo.trans hp₁.tick)
    (Nat.lt_of_lt_of_le hlt (hp₂.tick.trans hhi))
  obtain rfl := RData.rrsig.inj (hsig.symm.trans hsig')
  rw [hno] at htime
  exact absurd htime (by decide)

theorem checkRrsig_verifies {t : RecordType} {x : Record × Rrsig × Dnskey}
    (h : checkRrsig env t keys records rec st = (.hit x, st')) :
    ∃ tick, st.tick ≤ tick ∧ tick < st'.tick ∧
      Verifies env keys records (env.nowSecs tick) rec := by
  unfold checkRrsig at h
  split at h
  · rename_i sig hsig
    split at h
    · obtain ⟨key, hkey, s₁, hp₁, hk⟩ := search_hit Passes.refl (fun _ _ _ => Passes.trans) keys
        (fun key _ s => checkKey_passes env records rec sig key s) h
      rcases checkKey_cases hk with ⟨_, hr, _⟩ | ⟨_, hr, _⟩ | ⟨htag, htick, ok, _, hok, hr⟩
      · exact absurd hr (by simp)
      · exact absurd hr (by simp)
      · cases ok with
        | false => exact absurd hr (by simp)
        | true =>
          have hboth := hok.symm
          rw [Bool.and_eq_true] at hboth
          exact ⟨s₁.tick, hp₁.tick, by omega, sig, hsig, hboth.1, key, hkey, htag, hboth.2⟩
    · simp at h
  · simp at h

/-- **The loop takes the first RRSIG that verifies**: one that verifies at some time of the call,
with none before it in the list that verifies throughout. -/
theorem rrsigLoop_first {t : RecordType} {rrsigs : List Record} {key : Dnskey}
    (h : rrsigLoop env t rrsigs keys records st = (.hit (rec, sig, key), st'))
    (ht : ∀ r ∈ rrsigs, ∀ sig, r.data = .rrsig sig → sig.typeCovered = t)
    (hlo : lo ≤ st.tick) (hhi : st'.tick ≤ hi) :
    rec.data = .rrsig sig ∧
      ∃ pre post, rrsigs = pre ++ rec :: post ∧
        (∀ r ∈ pre, ∃ tick, lo ≤ tick ∧ tick < hi ∧
          ¬ Verifies env keys records (env.nowSecs tick) r) ∧
        ∃ tick, lo ≤ tick ∧ tick < hi ∧ Verifies env keys records (env.nowSecs tick) rec := by
  obtain ⟨pre, a, post, s₁, rfl, hpre, hhit⟩ := search_hit_split h
  have hkeep := search_keeps Passes.refl (fun _ _ _ => Passes.trans) pre
    (fun rec _ s => checkRrsig_passes env t keys records rec s) st
  rw [hpre] at hkeep
  obtain ⟨tick, h1, h2, hv⟩ := checkRrsig_verifies hhit
  obtain ⟨ha, hd⟩ : a = rec ∧ rec.data = .rrsig sig := by
    unfold checkRrsig at hhit
    split at hhit
    · rename_i sig' hsig
      split at hhit
      · obtain ⟨key', _, hx, _⟩ := keySearch_hit hhit
        obtain ⟨rfl, rfl, _⟩ := Prod.mk.inj hx
        exact ⟨rfl, hsig⟩
      · simp at hhit
    · simp at hhit
  subst ha
  have hin : lo ≤ tick ∧ tick < hi := ⟨hlo.trans (hkeep.tick.trans h1), h2.trans_le hhi⟩
  refine ⟨hd, pre, post, rfl, fun r hr => ?_, tick, hin.1, hin.2, hv⟩
  obtain ⟨s₂, s₃, hp₂, hp₃, hmiss⟩ := search_miss Passes.refl (fun _ _ _ => Passes.trans) pre
    (fun rec _ s => checkRrsig_passes env t keys records rec s) hpre r hr
  have hend : s₃.tick ≤ hi := hp₃.tick.trans (by omega)
  exact checkRrsig_miss hmiss (ht r (List.mem_append_left _ hr)) (hlo.trans hp₂.tick) hend
    (hin.1.trans_lt hin.2)

end

/-! ## the denial validators -/

/-- the RRSIGs that `verify_negative_rrset` tries for a record -/
def rrsigsOf (authority : List Record) (rec : Record) : List Record :=
  authority.filter (Record.isRrsigOver rec.name rec.recordType)

/-- the type of the records a validator looks at -/
def DenialKind.recordType : DenialKind → RecordType
  | .nsec => .NSEC
  | .nsec3 => .NSEC3

def validateDenial (kind : DenialKind) (env : Env) (keys : List Dnskey) (qname : Name)
    (qtype : RecordType) (authority : List Record) (st : State) : DnssecStatus × State :=
  match kind with
  | .nsec => validateNsec env keys qname qtype authority st
  | .nsec3 => validateNsec3 env keys qname qtype authority st

section
variable {env : Env} {keys : List Dnskey} {authority records : List Record} {rec : Record}
  {st st' : State}

theorem verifyNegativeRrset_passes (env : Env) (authority : List Record) (keys : List Dnskey)
    (rec : Record) (st : State) :
    Passes st (verifyNegativeRrset env rec authority keys st).2 := by
  simp only [verifyNegativeRrset]
  split
  · exact Passes.refl _
  · split
    · exact Passes.refl _
    · have h := rrsigLoop_passes env rec.recordType (rrsigsOf authority rec) keys
        (rrsetOf authority rec) st
      unfold rrsigsOf rrsetOf at h
      split <;> rename_i hl <;> rwa [hl] at h

theorem verifyNegativeRrset_hit (h : verifyNegativeRrset env rec authority keys st = (true, st')) :
    ∃ sigRec sig key, rrsigLoop env rec.recordType (rrsigsOf authority rec) keys
      (rrsetOf authority rec) st = (.hit (sigRec, sig, key), st') := by
  simp only [verifyNegativeRrset] at h
  split at h
  · simp at h
  · split at h
    · simp at h
    · split at h
      · rename_i x st₁ hl
        obtain ⟨sigRec, sig, key⟩ := x
        obtain ⟨_, rfl⟩ := Prod.mk.inj h
        exact ⟨sigRec, sig, key, hl⟩
      · simp at h

/-- `rec` was accepted in the run from `st` to `st'`, from `s₁` to `s₂` -/
structure Accepts (env : Env) (keys : List Dnskey) (authority : List Record) (st st' : State)
    (rec : Record) (s₁ s₂ : State) : Prop where
  before : Passes st s₁
  after : Passes s₂ st'
  call : verifyNegativeRrset env rec authority keys s₁ = (true, s₂)

/-- a loop whose tries go on exactly if the RRset verified: every record is accepted, and every
event comes from one of these calls -/
theorem search_accepts {f : Record → State → Result Unit × State}
    (hf : IsVerifyStep env authority keys f)
    (h : search f records st = (.miss, st')) :
    Passes st st' ∧
      (∀ rec ∈ records, ∃ s₁ s₂, Accepts env keys authority st st' rec s₁ s₂) ∧
      ∀ e, Added st.log st'.log e → ∃ rec ∈ records, ∃ s₁ s₂,
        Accepts env keys authority st st' rec s₁ s₂ ∧ Added s₁.log s₂.log e := by
  have hpass : ∀ rec ∈ records, ∀ s, Passes s (f rec s).2 := by
    intro rec _ s
    rw [hf rec s _ _ (Prod.eta (verifyNegativeRrset env rec authority keys s)).symm]
    exact verifyNegativeRrset_passes env authority keys rec s
  refine ⟨?_, fun rec hrec => ?_, fun e he => ?_⟩
  · have hk := search_keeps Passes.refl (fun _ _ _ => Passes.trans) records hpass st
    rwa [h] at hk
  · obtain ⟨s₁, s₂, h₁, h₂, hv⟩ := search_miss Passes.refl (fun _ _ _ => Passes.trans) records
      hpass h rec hrec
    exact ⟨s₁, s₂, h₁, h₂, hf.miss hv⟩
  · obtain ⟨rec, hrec, s₁, s₂, r, h₁, h₂, hv, ha, hr⟩ := search_added State.log
      Passes.refl (fun _ _ _ => Passes.trans) (fun _ _ hp => hp.log) records hpass h he
    obtain rfl : r = .miss := hr.elim id id
    exact ⟨rec, hrec, s₁, s₂, ⟨h₁, h₂, hf.miss hv⟩, ha⟩

theorem verifyDenial_accepts (h : verifyDenial env authority keys records st = (true, st')) :
    Passes st st' ∧
      (∀ rec ∈ records, ∃ s₁ s₂, Accepts env keys authority st st' rec s₁ s₂) ∧
      ∀ e, Added st.log st'.log e → ∃ rec ∈ records, ∃ s₁ s₂,
        Accepts env keys authority st st' rec s₁ s₂ ∧ Added s₁.log s₂.log e := by
  obtain ⟨f, hf, hs⟩ := verifyDenial_all h
  exact search_accepts hf hs

theorem validateDenial_accepted {kind : DenialKind} {qname : Name} {qtype : RecordType}
    {status : DnssecStatus}
    (h : validateDenial kind env keys qname qtype authority st = (status, st'))
    (hs : status = .Secure ∨ status = .InsecureUnsigned) :
    ∃ s, verifyDenial env authority keys (denialRecords kind.recordType authority)
        (st.push (.denialCall kind keys qname qtype authority)) = (true, s) ∧
      st' = s.push (.denialVerdict kind keys qname qtype authority status) := by
  have hb : status ≠ .Bogus := by rcases hs with rfl | rfl <;> decide
  have hu : status ≠ .InsecureUnknown := by rcases hs with rfl | rfl <;> decide
  cases kind with
  | nsec => exact (validateNsec_verified h hb).2
  | nsec3 => exact (validateNsec3_verified h hb hu).2

/-- the records of an RRset have one set of RRSIGs and one number of labels -/
theorem rrsetOf_congr {r r' : Record} (hr : r ∈ authority)
    (h : rrsetOf authority r = rrsetOf authority r') :
    rrsigsOf authority r = rrsigsOf authority r' ∧ r.name.numLabels = r'.name.numLabels := by
  have hself : r ∈ rrsetOf authority r :=
    List.mem_filter.mpr ⟨hr, Record.isAt_iff.mpr ⟨Name.nameEq_refl _, rfl⟩⟩
  rw [h] at hself
  obtain ⟨hn, ht⟩ := Record.isAt_iff.mp (List.mem_filter.mp hself).2
  have hfold := Name.nameEq_iff.mp hn
  refine ⟨?_, Name.numLabels_congr hfold⟩
  have hpred : Record.isRrsigOver r.name r.recordType = Record.isRrsigOver r'.name r'.recordType := by
    funext x
    simp only [Record.isRrsigOver, Name.nameEq, hfold, ht]
  rw [rrsigsOf, rrsigsOf, hpred]

end

/-! ## records that are not expanded -/

/-- every record looked at was accepted, and every RRSIG it was accepted through has as many labels
as its owner -/
def Unexpanded (authority : List Record) (t : RecordType) (st st' : State) : Prop :=
  ∀ r ∈ denialRecords t authority,
    (∃ sig key rec, Added st.log st'.log (.sigCheck sig key rec (rrsetOf authority r) true)) ∧
      ∀ sig key rec, Added st.log st'.log (.sigCheck sig key rec (rrsetOf authority r) true) →
        sig.numLabels.toNat = r.name.numLabels

/-- an RRSIG over the RRset of a record looked at that has another number of labels and verifies at
some tick of the interval comes after one that verifies at all of them -/
def ExpansionShadowed (env : Env) (keys : List Dnskey) (authority : List Record) (t : RecordType)
    (lo hi : Nat) : Prop :=
  ∀ r ∈ denialRecords t authority, ∀ pre rec post sig,
    rrsigsOf authority r = pre ++ rec :: post → rec.data = .rrsig sig →
    sig.numLabels.toNat ≠ r.name.numLabels →
    (∃ tick, lo ≤ tick ∧ tick < hi ∧
      Verifies env keys (rrsetOf authority r) (env.nowSecs tick) rec) →
    ∃ rec' ∈ pre, ∀ tick, lo ≤ tick → tick < hi →
      Verifies env keys (rrsetOf authority r) (env.nowSecs tick) rec'

section
variable {env : Env} {keys : List Dnskey} {authority : List Record} {r : Record} {st st' : State}

theorem Accepts.first {s₁ s₂ : State} (h : Accepts env keys authority st st' r s₁ s₂) :
    ∃ rec sig key, rec.data = .rrsig sig ∧
      Added s₁.log s₂.log (.sigCheck sig key rec (rrsetOf authority r) true) ∧
      (∀ sig' key' rec' records',
        Added s₁.log s₂.log (.sigCheck sig' key' rec' records' true) →
          rec' = rec ∧ sig' = sig ∧ records' = rrsetOf authority r) ∧
      ∃ pre post, rrsigsOf authority r = pre ++ rec :: post ∧
        (∀ rec' ∈ pre, ∃ tick, st.tick ≤ tick ∧ tick < st'.tick ∧
          ¬ Verifies env keys (rrsetOf authority r) (env.nowSecs tick) rec') ∧
        ∃ tick, st.tick ≤ tick ∧ tick < st'.tick ∧
          Verifies env keys (rrsetOf authority r) (env.nowSecs tick) rec := by
  obtain ⟨rec, sig, key, hl⟩ := verifyNegativeRrset_hit h.call
  have htypes : ∀ x ∈ rrsigsOf authority r, ∀ sig, x.data = .rrsig sig →
      sig.typeCovered = r.recordType := by
    intro x hx sig hd
    obtain ⟨sig', hd', _, ht⟩ := Record.isRrsigOver_iff.mp (List.mem_filter.mp hx).2
    obtain rfl := RData.rrsig.inj (hd.symm.trans hd')
    exact ht
  obtain ⟨hd, hsplit⟩ := rrsigLoop_first hl htypes h.before.tick h.after.tick
  obtain ⟨_, _, _, _, _, hadd, _⟩ := rrsigLoop_hit hl
  refine ⟨rec, sig, key, hd, hadd, fun sig' key' rec' records' he => ?_, hsplit⟩
  obtain ⟨hx, hrec⟩ := rrsigLoop_added hl he
  obtain ⟨h1, h2⟩ := Prod.mk.inj (Result.hit.inj hx)
  exact ⟨h1.symm, (Prod.mk.inj h2).1.symm, hrec⟩

theorem unexpanded_of_shadowed {t : RecordType}
    (hacc : ∀ r ∈ denialRecords t authority, ∃ s₁ s₂, Accepts env keys authority st st' r s₁ s₂)
    (hev : ∀ sig key rec records, Added st.log st'.log (.sigCheck sig key rec records true) →
      ∃ r ∈ denialRecords t authority, ∃ s₁ s₂, Accepts env keys authority st st' r s₁ s₂ ∧
        Added s₁.log s₂.log (.sigCheck sig key rec records true))
    (h : ExpansionShadowed env keys authority t st.tick st'.tick) :
    Unexpanded authority t st st' := by
  intro r hr
  constructor
  · obtain ⟨s₁, s₂, ha⟩ := hacc r hr
    obtain ⟨rec, sig, key, _, hadd, _⟩ := ha.first
    exact ⟨sig, key, rec, (hadd.after ha.before.log).grew ha.after.log⟩
  · intro sig key rec he
    obtain ⟨r', hr', s₁, s₂, ha, hadd⟩ := hev sig key rec _ he
    obtain ⟨rec₀, sig₀, key₀, hd, _, honly, pre, post, hsplit, hpre, hver⟩ := ha.first
    obtain ⟨rfl, rfl, hset⟩ := honly sig key rec _ hadd
    obtain ⟨hsigs, hlabels⟩ := rrsetOf_congr (mem_denialRecords hr).1 hset
    by_contra hne
    rw [← hset] at hver hpre
    rw [← hsigs] at hsplit
    obtain ⟨rec', hmem, hall⟩ := h r hr pre rec post sig hsplit hd hne hver
    obtain ⟨tick, h1, h2, hno⟩ := hpre rec' hmem
    exact hno (hall tick h1 h2)

/-- while the clock stands still, the RRSIG taken is the first that verifies -/
theorem shadowed_of_unexpanded {t : RecordType}
    (hacc : ∀ r ∈ denialRecords t authority, ∃ s₁ s₂, Accepts env keys authority st st' r s₁ s₂)
    (hstill : ∀ tick tick', st.tick ≤ tick → tick < st'.tick → st.tick ≤ tick' →
      tick' < st'.tick → env.nowSecs tick = env.nowSecs tick')
    (h : Unexpanded authority t st st') :
    ExpansionShadowed env keys authority t st.tick st'.tick := by
  intro r hr pre rec post sig hsplit hd hne hver
  obtain ⟨s₁, s₂, ha⟩ := hacc r hr
  obtain ⟨rec₀, sig₀, key₀, hd₀, hadd, _, pre₀, post₀, hsplit₀, hpre₀, hver₀⟩ := ha.first
  have hlabels := (h r hr).2 sig₀ key₀ rec₀ ((hadd.after ha.before.log).grew ha.after.log)
  obtain ⟨tick, h1, h2, hv⟩ := hver
  obtain ⟨tick₀, h3, h4, hv₀⟩ := hver₀
  have hdiff : rec ≠ rec₀ := by
    rintro rfl
    obtain rfl := RData.rrsig.inj (hd.symm.trans hd₀)
    exact hne hlabels
  rcases List.append_eq_append_iff.mp (hsplit.symm.trans hsplit₀) with
    ⟨mid, hmid, htail⟩ | ⟨mid, hmid, htail⟩
  · -- `rec` before the one taken: it does not verify
    cases mid with
    | nil => exact absurd (List.cons.inj htail).1 hdiff
    | cons x mid =>
      obtain ⟨rfl, _⟩ := List.cons.inj htail
      obtain ⟨tick', h5, h6, hno⟩ := hpre₀ rec (by
        rw [hmid]
        exact List.mem_append_right _ (List.mem_cons_self ..))
      rw [hstill tick tick' h1 h2 h5 h6] at hv
      exact absurd hv hno
  · -- the one taken before `rec`
    cases mid with
    | nil => exact absurd (List.cons.inj htail).1.symm hdiff
    | cons x mid =>
      obtain ⟨rfl, _⟩ := List.cons.inj htail
      refine ⟨rec₀, ?_, fun tick' h5 h6 => ?_⟩
      · rw [hmid]
        exact List.mem_append_right _ (List.mem_cons_self ..)
      · rw [← hstill tick₀ tick' h3 h4 h5 h6]
        exact hv₀

end

/-- **When denial records are not wildcard expansions.**  Let a denial validator return `Secure`
or `InsecureUnsigned`.  Every record it looked at was accepted through RRSIGs with as many labels
as its owner, if an RRSIG with another number of labels over one of these RRsets that verifies
during the call comes after one that verifies throughout; and, while the clock stands still, only
if. -/
theorem denial_unexpanded {env : Env} {kind : DenialKind} {keys : List Dnskey} {qname : Name}
    {qtype : RecordType} {authority : List Record} {status : DnssecStatus} {st st' : State}
    (h : validateDenial kind env keys qname qtype authority st = (status, st'))
    (hs : status = .Secure ∨ status = .InsecureUnsigned) :
    (ExpansionShadowed env keys authority kind.recordType st.tick st'.tick →
        Unexpanded authority kind.recordType st st') ∧
      ((∀ tick tick', st.tick ≤ tick → tick < st'.tick → st.tick ≤ tick' → tick' < st'.tick →
          env.nowSecs tick = env.nowSecs tick') →
        Unexpanded authority kind.recordType st st' →
        ExpansionShadowed env keys authority kind.recordType st.tick st'.tick) := by
  obtain ⟨s, hv, rfl⟩ := validateDenial_accepted h hs
  obtain ⟨hrun, hacc, hev⟩ := verifyDenial_accepts hv
  have hcall : Passes st (st.push (.denialCall kind keys qname qtype authority)) :=
    ⟨Grew.push trivial, le_refl _⟩
  have hverdict : Passes s (s.push (.denialVerdict kind keys qname qtype authority status)) :=
    ⟨Grew.push trivial, le_refl _⟩
  have hwiden : ∀ {r s₁ s₂}, Accepts env keys authority
      (st.push (.denialCall kind keys qname qtype authority)) s r s₁ s₂ →
      Accepts env keys authority st
        (s.push (.denialVerdict kind keys qname qtype authority status)) r s₁ s₂ :=
    fun ha => ⟨hcall.trans ha.before, ha.after.trans hverdict, ha.call⟩
  have hacc' := fun r hr => (hacc r hr).imp fun s₁ => Exists.imp fun s₂ ha => hwiden ha
  refine ⟨unexpanded_of_shadowed hacc' fun sig key rec records he => ?_,
    shadowed_of_unexpanded hacc'⟩
  rcases he.split hcall.log (hrun.trans hverdict).log with he | he
  · have hm := he.mem_of_eq rfl
    exact absurd (List.mem_singleton.mp hm) (by simp)
  · rcases he.split hrun.log hverdict.log with he | he
    · obtain ⟨r, hr, s₁, s₂, ha, hadd⟩ := hev _ he
      exact ⟨r, hr, s₁, s₂, hwiden ha, hadd⟩
    · have hm := he.mem_of_eq rfl
      exact absurd (List.mem_singleton.mp hm) (by simp)

/-! ## a record at a name that the zone does not have -/

/-- the NSEC record of `*.` -/
def wildcardNsec (owner : Name) : Record where
  name := owner
  ttl := 3600
  data := .nsec { nextDomainName := .root, typeBitMaps := [.A, .RRSIG, .NSEC] }

def wildcardRrsig (owner : Name) : Record := { rootRrsig wildName .NSEC .IN with name := owner }

/-- the record and its RRSIG under the name `sub.` -/
def expandedAuthority : List Record := [wildcardNsec subName, wildcardRrsig subName]

/-- the root signed the record at `*.` and nothing else -/
def expandedEnv : Env where
  crypto := signedOnly [buildTbsManual (wildcardRrsig wildName) [wildcardNsec wildName]]
  text := noText
  nowSecs := fun _ => 1000
  resolve := fun _ _ _ => .error .AllNameserversFailed

/-- the run of `validate_nsec` for the TXT records of `sub.` -/
def expandedRun : DnssecStatus × State :=
  validateDenial .nsec expandedEnv [rootKsk] subName .TXT expandedAuthority {}

/-- `sub.` has no TXT record, says the record of `*.` -/
theorem expandedRun_accepted :
    expandedRun.1 = .Secure ∧ subName.numLabels = 1 ∧
      ¬ Unexpanded expandedAuthority .NSEC {} expandedRun.2 := by
  have hs : expandedRun.1 = .Secure := by decide +kernel
  refine ⟨hs, by decide, fun h => ?_⟩
  have hm : wildcardNsec subName ∈ denialRecords .NSEC expandedAuthority := by decide +kernel
  obtain ⟨⟨sig, key, rec, he⟩, hall⟩ := h _ hm
  have hrun := Prod.eta expandedRun
  rw [hs] at hrun
  obtain ⟨s, hv, hs'⟩ := validateDenial_accepted hrun.symm (Or.inl rfl)
  obtain ⟨_, hacc, _⟩ := verifyDenial_accepts hv
  obtain ⟨s₁, s₂, ha⟩ := hacc _ hm
  obtain ⟨rec₀, sig₀, key₀, hd, hadd, _, pre, post, hsplit, _⟩ := ha.first
  have hlabels := hall sig₀ key₀ rec₀ (by
    rw [hs']
    exact ((hadd.after ha.before.log).grew ha.after.log |>.after
      (Grew.push (P := fun _ => True) trivial)).grew (Grew.push (P := fun _ => True) trivial))
  have hmem : rec₀ ∈ rrsigsOf expandedAuthority (wildcardNsec subName) := by
    rw [hsplit]
    exact List.mem_append_right _ (List.mem_cons_self ..)
  have hone : rrsigsOf expandedAuthority (wildcardNsec subName) = [wildcardRrsig subName] := by
    decide +kernel
  rw [hone, List.mem_singleton] at hmem
  rw [hmem] at hd
  obtain rfl := RData.rrsig.inj hd
  exact absurd hlabels (by decide)

/-- the record where the root has it -/
def wildcardAuthority : List Record := [wildcardNsec wildName, wildcardRrsig wildName]

def wildcardRun : DnssecStatus × State :=
  validateDenial .nsec expandedEnv [rootKsk] wildName .TXT wildcardAuthority {}

theorem wildcardRun_unexpanded :
    wildcardRun.1 = .Secure ∧ Unexpanded wildcardAuthority .NSEC {} wildcardRun.2 := by
  have hs : wildcardRun.1 = .Secure := by decide +kernel
  have hrun := Prod.eta wildcardRun
  rw [hs] at hrun
  refine ⟨hs, (denial_unexpanded hrun.symm (Or.inl rfl)).1 ?_⟩
  intro r hr pre rec post sig hsplit hd hne
  have hr' : r = wildcardNsec wildName := by
    have hone : denialRecords .NSEC wildcardAuthority = [wildcardNsec wildName] := by
      decide +kernel
    change r ∈ denialRecords .NSEC wildcardAuthority at hr
    rwa [hone, List.mem_singleton] at hr
  subst hr'
  have hone : rrsigsOf wildcardAuthority (wildcardNsec wildName) = [wildcardRrsig wildName] := by
    decide +kernel
  have hmem : rec ∈ rrsigsOf wildcardAuthority (wildcardNsec wildName) := by
    rw [hsplit]
    exact List.mem_append_right _ (List.mem_cons_self ..)
  rw [hone, List.mem_singleton] at hmem
  rw [hmem] at hd
  obtain rfl := RData.rrsig.inj hd
  exact absurd (by decide) hne

end DnsResolver
