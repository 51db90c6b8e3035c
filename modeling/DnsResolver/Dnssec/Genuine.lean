import DnsResolver.Dnssec.Negative

/-!
# Genuine signatures are found

A loop over RRSIG records and keys goes on until a signature verifies or the budget is gone.  With
a check left for every pair it therefore finds a genuine signature, wherever in the lists it is.

* `checksLeft`             the checks a validation may still make;
* `Genuine`                an RRSIG that verifies whenever the clock is read;
* `rrsigLoop_finds`        the loop finds one;
* `verifyDenial_genuine`   so records with a genuine RRSIG each are verified;
* `validateNsec_genuine`, `validateNsec3_genuine`   and the verdict is the one the records give.
-/

namespace DnsResolver
open Trace

def checksLeft (st : State) : Nat := st.budget.maxSigChecks - st.budget.sigChecks

/-- `rec` holds a current RRSIG over `records`, made by one of the keys -/
def Genuine (env : Env) (keys : List Dnskey) (t : RecordType) (records : List Record)
    (rec : Record) : Prop :=
  ∃ sig key, rec.data = .rrsig sig ∧ sig.typeCovered = t ∧ key ∈ keys ∧
    keyTagMatches env.crypto key sig.keyTag = true ∧
    signatureValid env.crypto sig key rec records = true ∧
    ∀ tick, rrsigTimeValid sig (env.nowSecs tick) = true

section
variable {env : Env} {records : List Record}

theorem canCheckSig_left {st : State} (h : 1 ≤ checksLeft st) :
    ∃ st', canCheckSig st = (true, st') ∧ checksLeft st = checksLeft st' + 1 ∧
      st'.tick = st.tick := by
  unfold checksLeft at h
  have hlt : ¬ st.budget.maxSigChecks ≤ st.budget.sigChecks := by omega
  refine ⟨_, if_neg hlt, ?_, rfl⟩
  simp only [checksLeft]
  omega

theorem checkKey_affordable (rec : Record) (sig : Rrsig) (keys : List Dnskey) :
    Affordable (checkKey env records rec sig) checksLeft 1 keys := by
  intro key _ st h
  unfold checkKey
  split
  · obtain ⟨st₁, hc, hleft, _⟩ := canCheckSig_left h
    have hv : checksLeft (verifyRrsig env sig key rec records st₁).2 = checksLeft st₁ := rfl
    simp only [hc]
    cases hr : verifyRrsig env sig key rec records st₁ with
    | mk ok st₂ =>
      rw [hr] at hv
      dsimp only at hv
      cases ok with
      | true => exact ⟨by simp, by dsimp only; omega⟩
      | false => exact ⟨by simp, by dsimp only; omega⟩
  · exact ⟨by simp, by dsimp only; omega⟩

theorem checkRrsig_affordable (t : RecordType) (keys : List Dnskey) (rrsigs : List Record) :
    Affordable (checkRrsig env t keys records) checksLeft keys.length rrsigs := by
  intro rec _ st h
  have hmiss : ((.miss : Result (Record × Rrsig × Dnskey)), st).1 ≠ .stop ∧
      checksLeft st ≤ checksLeft st + keys.length := ⟨by simp, by omega⟩
  unfold checkRrsig
  split
  · rename_i sig _
    split
    · obtain ⟨hr, hl⟩ := search_affordable keys (checkKey_affordable rec sig keys) (s := st)
        (by rw [Nat.mul_one]; exact h)
      rw [Nat.mul_one] at hl
      exact ⟨hr, hl⟩
    · exact hmiss
  · exact hmiss

theorem Genuine.found {keys : List Dnskey} {t : RecordType} {rec : Record}
    (hg : Genuine env keys t records rec) {st : State} (h : keys.length ≤ checksLeft st) :
    ∃ x, (checkRrsig env t keys records rec st).1 = .hit x := by
  obtain ⟨sig, key, hd, ht, hkey, htag, hvalid, htime⟩ := hg
  simp only [checkRrsig, hd, ht, if_true]
  refine search_finds (checkKey_affordable rec sig keys) hkey (fun s hs => ?_)
    (by rw [Nat.mul_one]; exact h)
  obtain ⟨st₁, hc, _, _⟩ := canCheckSig_left hs
  refine ⟨(rec, sig, key), ?_⟩
  simp only [checkKey, htag, if_true, hc, verifyRrsig, htime, hvalid, Bool.and_self]

/-- **A genuine RRSIG is found** while there is a check for every pair. -/
theorem rrsigLoop_finds {keys : List Dnskey} {t : RecordType} {rrsigs : List Record} {rec : Record}
    (hrec : rec ∈ rrsigs) (hg : Genuine env keys t records rec) {st : State}
    (h : rrsigs.length * keys.length ≤ checksLeft st) :
    ∃ x st', rrsigLoop env t rrsigs keys records st = (.hit x, st') ∧
      checksLeft st ≤ checksLeft st' + rrsigs.length * keys.length := by
  have haff : Affordable (checkRrsig env t keys records) checksLeft keys.length rrsigs :=
    checkRrsig_affordable t keys rrsigs
  obtain ⟨x, hx⟩ := search_finds haff hrec (fun s hs => hg.found hs) h
  exact ⟨x, _, Prod.ext hx rfl, (search_affordable rrsigs haff h).2⟩

/-! ## denial records -/

variable {authority : List Record} {keys : List Dnskey}

/-- an RRSIG in the section over the RRset of `rec` is genuine -/
def GenuinelySigned (env : Env) (keys : List Dnskey) (authority : List Record) (rec : Record) :
    Prop :=
  ∃ sigRec ∈ authority, sigRec.name.nameEq rec.name = true ∧
    Genuine env keys rec.recordType (rrsetOf authority rec) sigRec

/-- checks that are enough to verify `n` records of a section -/
def checksFor (n : Nat) (authority : List Record) (keys : List Dnskey) : Nat :=
  n * (authority.length * keys.length)

theorem verifyNegativeRrset_genuine {rec : Record} (hrec : rec ∈ authority)
    (hg : GenuinelySigned env keys authority rec) {st : State}
    (h : authority.length * keys.length ≤ checksLeft st) :
    ∃ st', verifyNegativeRrset env rec authority keys st = (true, st') ∧
      checksLeft st ≤ checksLeft st' + authority.length * keys.length := by
  obtain ⟨sigRec, hmem, hname, hgen⟩ := hg
  have hover : sigRec ∈ authority.filter (Record.isRrsigOver rec.name rec.recordType) := by
    obtain ⟨sig, _, hd, ht, _⟩ := hgen
    exact List.mem_filter.mpr ⟨hmem, Record.isRrsigOver_iff.mpr ⟨sig, hd, hname, ht⟩⟩
  have hself : rec ∈ rrsetOf authority rec :=
    List.mem_filter.mpr ⟨hrec, Record.isAt_iff.mpr ⟨Name.nameEq_refl _, rfl⟩⟩
  have hle : (authority.filter (Record.isRrsigOver rec.name rec.recordType)).length * keys.length ≤
      authority.length * keys.length := Nat.mul_le_mul_right _ (List.length_filter_le _ _)
  obtain ⟨x, st', hloop, hleft⟩ := rrsigLoop_finds hover hgen (le_trans hle h)
  refine ⟨st', ?_, by omega⟩
  have hne : (authority.filter (Record.isRrsigOver rec.name rec.recordType)).isEmpty = false :=
    List.isEmpty_eq_false_iff.mpr (List.ne_nil_of_mem hover)
  have hne' : (rrsetOf authority rec).isEmpty = false :=
    List.isEmpty_eq_false_iff.mpr (List.ne_nil_of_mem hself)
  unfold rrsetOf at hloop hne'
  simp only [verifyNegativeRrset, hne, hne', hloop, if_false, Bool.false_eq_true]

/-- **Records with a genuine RRSIG each are verified.** -/
theorem verifyDenial_genuine {l : List Record} (hl : ∀ rec ∈ l, rec ∈ authority)
    (hg : ∀ rec ∈ l, GenuinelySigned env keys authority rec) {st : State}
    (h : checksFor l.length authority keys ≤ checksLeft st) :
    ∃ st', verifyDenial env authority keys l st = (true, st') := by
  unfold verifyDenial
  dsimp only
  induction l generalizing st with
  | nil => exact ⟨st, rfl⟩
  | cons rec l ih =>
    rw [checksFor, List.length_cons, Nat.succ_mul] at h
    have hfirst : authority.length * keys.length ≤ checksLeft st := by omega
    obtain ⟨st₁, hv, hleft⟩ := verifyNegativeRrset_genuine (hl rec (List.mem_cons_self ..))
      (hg rec (List.mem_cons_self ..)) hfirst
    rw [search_cons_miss (show _ = (_, st₁) by simp only [hv])]
    refine ih (fun r hr => hl r (List.mem_cons_of_mem _ hr))
      (fun r hr => hg r (List.mem_cons_of_mem _ hr)) ?_
    rw [checksFor]
    omega

variable {q : Name} {t : RecordType}

theorem validateNsec_genuine (hne : denialRecords .NSEC authority ≠ [])
    (hg : ∀ rec ∈ denialRecords .NSEC authority, GenuinelySigned env keys authority rec)
    {st : State}
    (h : checksFor (denialRecords .NSEC authority).length authority keys ≤ checksLeft st) :
    (validateNsec env keys q t authority st).1 =
      nsecDenial env.text q t (denialRecords .NSEC authority) := by
  obtain ⟨st', hv⟩ := verifyDenial_genuine (fun rec hr => (mem_denialRecords hr).1) hg
    (show _ ≤ checksLeft (st.push (.denialCall .nsec keys q t authority)) from h)
  have hemp : (denialRecords .NSEC authority).isEmpty = false := List.isEmpty_eq_false_iff.mpr hne
  simp only [validateNsec, nsecBody, hemp, hv, Bool.false_eq_true, if_false]

/-- the records have the parameters `salt` and `iterations`, within the limits -/
structure HashParams (records : List Record) (salt : Bytes) (iterations : UInt16) : Prop where
  same : ∀ r ∈ records, ∃ d, r.data = .nsec3 d ∧ d.hashAlgorithm = .SHA1 ∧ d.salt = salt ∧
    d.iterations = iterations
  limit : iterations ≤ maxNsec3Iterations

theorem validateNsec3_genuine {salt : Bytes} {iterations : UInt16}
    (hp : HashParams (denialRecords .NSEC3 authority) salt iterations)
    (hne : denialRecords .NSEC3 authority ≠ [])
    (hg : ∀ rec ∈ denialRecords .NSEC3 authority, GenuinelySigned env keys authority rec)
    {st : State}
    (h : checksFor (denialRecords .NSEC3 authority).length authority keys ≤ checksLeft st) :
    (validateNsec3 env keys q t authority st).1 =
      nsec3Denial (nsec3Hash env.crypto salt iterations) env.text q t
        (denialRecords .NSEC3 authority) := by
  obtain ⟨st', hv⟩ := verifyDenial_genuine (fun rec hr => (mem_denialRecords hr).1) hg
    (show _ ≤ checksLeft (st.push (.denialCall .nsec3 keys q t authority)) from h)
  obtain ⟨hsame, hlimit⟩ := hp
  simp only [validateNsec3, nsec3Body]
  generalize denialRecords .NSEC3 authority = records at *
  cases records with
  | nil => exact absurd rfl hne
  | cons r rest =>
    obtain ⟨first, hd, halg, rfl, rfl⟩ := hsame r List.mem_cons_self
    have hall : (r :: rest).all (sameNsec3Params first) = true := by
      refine List.all_eq_true.mpr fun r' hr' => ?_
      obtain ⟨d, hd', halg', hsalt', hiter'⟩ := hsame r' hr'
      simp only [sameNsec3Params, hd', halg', halg, hsalt', hiter', decide_true, Bool.and_self]
    have hle : ¬ maxNsec3Iterations < first.iterations := UInt16.not_lt.mpr hlimit
    simp only [hd, halg, hall, hv, hle, ne_eq, not_true_eq_false, if_false, Bool.not_true,
      Bool.false_eq_true]

end
end DnsResolver
