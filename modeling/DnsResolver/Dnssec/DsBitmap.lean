import DnsResolver.Dnssec.Nsec3Zone
import DnsResolver.Dnssec.Chain

/-!
# DS denial and the type bitmap

A DS query whose answer is denied: may a record that matches the name list DS in its bitmap?  The
records come from the chain of one zone, delegations included, so all records that match a name
carry the same bitmap.  `check_nsec_nodata` and `check_nsec3_nodata` refuse such a record alike.
What `validate_nsec` tries next needs a record that covers the name, and no chain has one.
`validate_nsec3` takes the name for its own closest encloser and says Secure.

* `NsecDsSound`, `Nsec3DsSound`   no denial by a section with a matching record that lists DS;
* `WalkDsSound`                   the same for the DS step of `build_trust_chain`;
* `dsDenial_bitmap_iff`           when the three hold;
* `dsRun_contradicted`            a denial of a DS that exists.
-/

namespace DnsResolver
open Trace

/-! ## chains -/

/-- the type bitmap of a denial record -/
def Record.typeBitMaps (r : Record) : List RecordType :=
  match r.data with
  | .nsec n => n.typeBitMaps
  | .nsec3 n => n.typeBitMaps
  | _ => []

theorem Record.typeBitMaps_nsec {r : Record} {d : Nsec} (h : r.data = .nsec d) :
    r.typeBitMaps = d.typeBitMaps := by rw [typeBitMaps, h]

theorem Record.typeBitMaps_nsec3 {r : Record} {d : Nsec3} (h : r.data = .nsec3 d) :
    r.typeBitMaps = d.typeBitMaps := by rw [typeBitMaps, h]

/-! ## the verdicts -/

section
variable {D : Name} {tx : Presentation} {records : List Record}

theorem nodataVerdict_ds {types : List RecordType} {status : DnssecStatus}
    (h : nodataVerdict .DS types = some status) :
    (status = .Bogus ∧ RecordType.SOA ∈ types) ∨ RecordType.DS ∉ types := by
  simp only [nodataVerdict, decide_true, Bool.true_and, decide_eq_true_eq] at h
  split at h
  · rename_i hsoa
    exact Or.inl ⟨(Option.some.inj h).symm, hsoa⟩
  · split at h
    · rename_i hl
      simp only [Bool.and_eq_true, Bool.not_eq_true', decide_eq_false_iff_not] at hl
      exact Or.inr hl.1
    · exact absurd h (by simp)

theorem nodataVerdict_ds_soa {types : List RecordType} (h : RecordType.SOA ∈ types) :
    nodataVerdict .DS types = some .Bogus := by
  simp [nodataVerdict, h]

theorem nodataVerdict_ds_listed {types : List RecordType} (h : RecordType.DS ∈ types)
    (hsoa : RecordType.SOA ∉ types) : nodataVerdict .DS types = none := by
  simp [nodataVerdict, h, hsoa]

/-- **NSEC**: a denial rests on a matching record without DS, or on a record that covers the name -/
theorem nsecDenial_ds {Z : NsecChain} (hchain : ∀ r ∈ records, Z.IsNsec r)
    (h : nsecDenial tx D .DS records ≠ .Bogus) :
    ∀ r ∈ records, r.name.nameEq D = true → RecordType.DS ∉ r.typeBitMaps := by
  intro r hr hn
  -- a covering record would contradict the matching one
  have hcov : nsecCovered records D = false := by
    cases hc : nsecCovered records D with
    | false => rfl
    | true =>
      obtain ⟨r', hr', d, hd, hcov⟩ := nsecCovered_iff.mp hc
      exact absurd ((hchain r hr).owns hn) ((hchain r' hr').not_owns hd hcov)
  simp only [nsecDenial] at h
  split at h
  · rename_i status hs
    obtain ⟨r', hr', hn', d, hd, hv⟩ := checkNsecNodata_some hs
    obtain ⟨d₀, hd₀⟩ := (hchain r hr).data
    rw [Record.typeBitMaps_nsec hd₀, (hchain r hr).types hn hd₀, ← (hchain r' hr').types hn' hd]
    rcases nodataVerdict_ds hv with ⟨hb, _⟩ | hds
    · exact absurd hb h
    · exact hds
  · split at h
    · exact absurd rfl h
    · split at h
      · rename_i hw
        rw [(checkNsecWildcardNodata_some hw).2.1] at hcov
        exact absurd hcov (by decide)
      · split at h
        · rename_i hx
          rw [(checkNsecNxdomain_some hx).2.1] at hcov
          exact absurd hcov (by decide)
        · exact absurd rfl h

variable {H : Name → Bytes} {C : Nsec3Ring} {salt : Bytes} {iterations : UInt16}

theorem nsec3Denial_ds_soa (hchain : ∀ r ∈ records, C.IsNsec3 salt iterations r) {r : Record}
    (hr : r ∈ records) (hn : nsec3OwnerHash r = some (H D))
    (hsoa : RecordType.SOA ∈ r.typeBitMaps) : nsec3Denial H tx D .DS records = .Bogus := by
  obtain ⟨d₀, hd₀, _⟩ := (hchain r hr).data
  rw [Record.typeBitMaps_nsec3 hd₀] at hsoa
  have hall : ∀ r' ∈ records, nsec3OwnerHash r' = some (H D) → ∀ d, r'.data = .nsec3 d →
      nodataVerdict .DS d.typeBitMaps = some .Bogus := by
    intro r' hr' hn' d hd
    have hsame := (hchain r' hr').same_types (hchain r hr) (hn'.trans hn.symm) hd hd₀ .SOA
    exact nodataVerdict_ds_soa (hsame.mpr hsoa)
  have hnod : checkNsec3Nodata H D .DS records = some .Bogus := by
    cases hc : checkNsec3Nodata H D .DS records with
    | none =>
      have hnone := checkNsec3Nodata_none hc r hr hn d₀ hd₀
      rw [hall r hr hn d₀ hd₀] at hnone
      exact absurd hnone (by simp)
    | some status =>
      obtain ⟨r', hr', hn', d, hd, hv⟩ := checkNsec3Nodata_some hc
      rw [hall r' hr' hn' d hd] at hv
      exact hv.symm
  simp only [nsec3Denial, hnod]

/-- a matching record with DS and without SOA is passed over, and the name taken for its own
closest encloser -/
theorem nsec3Denial_ds_listed (hchain : ∀ r ∈ records, C.IsNsec3 salt iterations r) {r : Record}
    (hr : r ∈ records) (hn : nsec3OwnerHash r = some (H D)) (hds : RecordType.DS ∈ r.typeBitMaps)
    (hsoa : RecordType.SOA ∉ r.typeBitMaps) : nsec3Denial H tx D .DS records = .Secure := by
  obtain ⟨d₀, hd₀, _⟩ := (hchain r hr).data
  rw [Record.typeBitMaps_nsec3 hd₀] at hds hsoa
  have hnod : checkNsec3Nodata H D .DS records = none := by
    cases hc : checkNsec3Nodata H D .DS records with
    | none => rfl
    | some status =>
      obtain ⟨r', hr', hn', d, hd, hv⟩ := checkNsec3Nodata_some hc
      have hsame := (hchain r' hr').same_types (hchain r hr) (hn'.trans hn.symm) hd hd₀
      rw [nodataVerdict_ds_listed ((hsame .DS).mpr hds) (fun h => hsoa ((hsame .SOA).mp h))] at hv
      exact absurd hv (by simp)
  have hfind : findNsec3ClosestProvableEncloser H D records = some D := by
    have hl : nsec3Listed H records D = true := nsec3Listed_iff.mpr ⟨r, hr, hn⟩
    exact if_pos hl
  simp only [nsec3Denial, hnod, hfind, Name.nameEq_refl, if_true]

end

/-! ## the validators -/

/-- a DS denial by `validate_nsec` with no matching record that lists DS -/
def NsecDsSound (env : Env) (keys : List Dnskey) (D : Name) (authority : List Record)
    (st : State) : Prop :=
  (validateNsec env keys D .DS authority st).1 = .Secure ∨
      (validateNsec env keys D .DS authority st).1 = .InsecureUnsigned →
    ∀ r ∈ denialRecords .NSEC authority, r.name.nameEq D = true → RecordType.DS ∉ r.typeBitMaps

/-- a DS denial by `validate_nsec3` with no matching record that lists DS -/
def Nsec3DsSound (env : Env) (keys : List Dnskey) (H : Name → Bytes) (D : Name)
    (authority : List Record) (st : State) : Prop :=
  (validateNsec3 env keys D .DS authority st).1 = .Secure ∨
      (validateNsec3 env keys D .DS authority st).1 = .InsecureUnsigned →
    ∀ r ∈ denialRecords .NSEC3 authority, nsec3OwnerHash r = some (H D) →
      RecordType.DS ∉ r.typeBitMaps

/-- the walk goes past `D` with the parent's keys, or reports it unsigned, with no matching record
that lists DS -/
def WalkDsSound (env : Env) (keys : List Dnskey) (H : Name → Bytes) (D : Name) (dsMsg : Message)
    (st : State) : Prop :=
  (dsDenial env D keys dsMsg st).1 = .skip ∨
      (∃ ttl, (dsDenial env D keys dsMsg st).1 = .ret (.Unsigned ttl)) →
    if dsMsg.nameServers.any fun r => decide (r.recordType = .NSEC3) then
      ∀ r ∈ denialRecords .NSEC3 dsMsg.nameServers, nsec3OwnerHash r = some (H D) →
        RecordType.DS ∉ r.typeBitMaps
    else
      ∀ r ∈ denialRecords .NSEC dsMsg.nameServers, r.name.nameEq D = true →
        RecordType.DS ∉ r.typeBitMaps

section
variable {env : Env} {keys : List Dnskey} {D : Name} {authority : List Record} {st st₁ : State}

theorem validateNsec_ds (Z : NsecChain)
    (hchain : ∀ r ∈ authority, r.recordType = .NSEC → Z.IsNsec r) :
    NsecDsSound env keys D authority st := by
  intro h
  have hgen : ∀ r ∈ denialRecords .NSEC authority, Z.IsNsec r := fun r hr =>
    hchain r (mem_denialRecords hr).1 (mem_denialRecords hr).2
  have hne : (validateNsec env keys D .DS authority st).1 ≠ .Bogus := by
    rcases h with h | h <;> rw [h] <;> decide
  obtain ⟨hden, _⟩ := validateNsec_cases (Prod.eta (validateNsec env keys D .DS authority st)).symm
    hne
  rw [← hden] at hne
  exact nsecDenial_ds hgen hne

/-- with genuine signatures over records of one ring, the records decide -/
theorem validateNsec3_ring {C : Nsec3Ring} {salt : Bytes} {iterations : UInt16}
    (hchain : ∀ r ∈ denialRecords .NSEC3 authority, C.IsNsec3 salt iterations r)
    (hne : denialRecords .NSEC3 authority ≠ [])
    (hver : verifyDenial env authority keys (denialRecords .NSEC3 authority)
      (st.push (.denialCall .nsec3 keys D .DS authority)) = (true, st₁)) :
    (validateNsec3 env keys D .DS authority st).1 =
      if maxNsec3Iterations < iterations then .InsecureUnknown
      else nsec3Denial (nsec3Hash env.crypto salt iterations) env.text D .DS
        (denialRecords .NSEC3 authority) := by
  simp only [validateNsec3, nsec3Body]
  cases hrec : denialRecords .NSEC3 authority with
  | nil => exact absurd hrec hne
  | cons r rest =>
    rw [hrec] at hchain hver
    obtain ⟨d, hd, halg, hsalt, hiter⟩ := (hchain r (List.mem_cons_self ..)).data
    have hparams : (r :: rest).all (sameNsec3Params d) = true := by
      rw [List.all_eq_true]
      intro r' hr'
      obtain ⟨d', hd', halg', hsalt', hiter'⟩ := (hchain r' hr').data
      simp [sameNsec3Params, hd', halg, halg', hsalt, hsalt', hiter, hiter']
    simp only [hd, halg, ne_eq, not_true_eq_false, if_false, hiter, hparams, Bool.not_true,
      Bool.false_eq_true, hver, hsalt]
    split <;> rfl

theorem validateNsec3_ds_iff {C : Nsec3Ring} {salt : Bytes} {iterations : UInt16}
    (hchain : ∀ r ∈ authority, r.recordType = .NSEC3 → C.IsNsec3 salt iterations r)
    (hver : verifyDenial env authority keys (denialRecords .NSEC3 authority)
      (st.push (.denialCall .nsec3 keys D .DS authority)) = (true, st₁)) :
    Nsec3DsSound env keys (nsec3Hash env.crypto salt iterations) D authority st ↔
      maxNsec3Iterations < iterations ∨
        ∀ r ∈ denialRecords .NSEC3 authority,
          nsec3OwnerHash r = some (nsec3Hash env.crypto salt iterations D) →
          RecordType.DS ∈ r.typeBitMaps → RecordType.SOA ∈ r.typeBitMaps := by
  have hgen : ∀ r ∈ denialRecords .NSEC3 authority, C.IsNsec3 salt iterations r := fun r hr =>
    hchain r (mem_denialRecords hr).1 (mem_denialRecords hr).2
  unfold Nsec3DsSound
  by_cases hemp : denialRecords .NSEC3 authority = []
  · rw [hemp]
    simp
  · rw [validateNsec3_ring hgen hemp hver]
    by_cases hit : maxNsec3Iterations < iterations
    · simp [hit]
    · rw [if_neg hit]
      constructor
      · intro h
        refine Or.inr fun r hr hn hds => ?_
        by_contra hsoa
        exact h (Or.inl (nsec3Denial_ds_listed hgen hr hn hds hsoa)) r hr hn hds
      · intro h hv r hr hn hds
        rcases h with h | h
        · exact hit h
        · rw [nsec3Denial_ds_soa hgen hr hn (h r hr hn hds)] at hv
          exact absurd hv (by decide)

end

theorem walkDsSound_of {env : Env} {keys : List Dnskey} {H : Name → Bytes} {D : Name}
    {dsMsg : Message} {st : State} (hn : NsecDsSound env keys D dsMsg.nameServers st)
    (hn3 : Nsec3DsSound env keys H D dsMsg.nameServers st) :
    WalkDsSound env keys H D dsMsg st := by
  have hstatus : ∀ {status s}, (dsDenial env D keys dsMsg st).1 = .skip ∨
      (∃ ttl, (dsDenial env D keys dsMsg st).1 = .ret (.Unsigned ttl)) →
      (if dsMsg.nameServers.any fun r => decide (r.recordType = .NSEC3) then
        validateNsec3 env keys D .DS dsMsg.nameServers st
      else if dsMsg.nameServers.any fun r => decide (r.recordType = .NSEC) then
        validateNsec env keys D .DS dsMsg.nameServers st
      else (.Bogus, st)) = (status, s) → status = .Secure ∨ status = .InsecureUnsigned := by
    intro status s h hv
    simp only [dsDenial, hv] at h
    cases status with
    | Secure => exact Or.inl rfl
    | InsecureUnsigned => exact Or.inr rfl
    | InsecureUnknown => simp at h
    | Bogus => simp at h
  intro h
  split
  · rename_i h3
    refine hn3 (hstatus (s := (validateNsec3 env keys D .DS dsMsg.nameServers st).2) h ?_)
    rw [if_pos h3]
  · rename_i h3
    by_cases h1 : (dsMsg.nameServers.any fun r => decide (r.recordType = .NSEC)) = true
    · refine hn (hstatus (s := (validateNsec env keys D .DS dsMsg.nameServers st).2) h ?_)
      rw [if_neg h3, if_pos h1]
    · have hb : DnssecStatus.Bogus = .Secure ∨ DnssecStatus.Bogus = .InsecureUnsigned := by
        refine hstatus (s := st) h ?_
        rw [if_neg h3, if_neg h1]
      exact absurd hb (by decide)

/-- **A DS denial and the bitmap.**  Let the NSEC records of a section belong to an NSEC chain,
its NSEC3 records to an NSEC3 ring, and let the signatures of the latter verify.  No denial of the
DS of `D` contradicts a matching record exactly if the ring has more iterations than are looked at
or no NSEC3 record looked at matches `D`, lists DS and does not list SOA. -/
theorem dsDenial_bitmap_iff {env : Env} {keys : List Dnskey} {D : Name} {dsMsg : Message}
    {st st₁ : State} {salt : Bytes} {iterations : UInt16} (Z : NsecChain) (C : Nsec3Ring)
    (hnsec : ∀ r ∈ dsMsg.nameServers, r.recordType = .NSEC → Z.IsNsec r)
    (hnsec3 : ∀ r ∈ dsMsg.nameServers, r.recordType = .NSEC3 → C.IsNsec3 salt iterations r)
    (hver : verifyDenial env dsMsg.nameServers keys (denialRecords .NSEC3 dsMsg.nameServers)
      (st.push (.denialCall .nsec3 keys D .DS dsMsg.nameServers)) = (true, st₁)) :
    (NsecDsSound env keys D dsMsg.nameServers st ∧
        Nsec3DsSound env keys (nsec3Hash env.crypto salt iterations) D dsMsg.nameServers st ∧
        WalkDsSound env keys (nsec3Hash env.crypto salt iterations) D dsMsg st) ↔
      maxNsec3Iterations < iterations ∨
        ∀ r ∈ denialRecords .NSEC3 dsMsg.nameServers,
          nsec3OwnerHash r = some (nsec3Hash env.crypto salt iterations D) →
          RecordType.DS ∈ r.typeBitMaps → RecordType.SOA ∈ r.typeBitMaps := by
  have hn : NsecDsSound env keys D dsMsg.nameServers st := validateNsec_ds Z hnsec
  rw [← validateNsec3_ds_iff hnsec3 hver]
  exact ⟨fun h => h.2.1, fun h => ⟨hn, h, walkDsSound_of hn h⟩⟩

/-! ## a denial of a DS that exists -/

def delegationOwner : Name := tld (ascii "s7krs6gql4brcm36ommkthd6p1g71i5g") (by decide +kernel)

/-- the NSEC3 record of the signed delegation `sub.` -/
def delegationNsec3 : Record := rootNsec3 delegationOwner hashRoot [.NS, .DS, .RRSIG]

/-- a DS response for `sub.` with its DS taken out and its NSEC3 record put in -/
def strippedDs : Message :=
  { nameServers := [delegationNsec3, rootRrsig delegationOwner .NSEC3 .IN] }

def strippedEnv : Env where
  crypto :=
    { signedOnly [buildTbsManual (rootRrsig delegationOwner .NSEC3 .IN) [delegationNsec3]] with
      sha1 := sha1Table }
  text := plainText
  nowSecs := fun _ => 1000
  resolve := fun _ _ _ => .error .AllNameserversFailed

def subRing : Nsec3Ring where
  nodes := [⟨hashRoot, [.NS, .SOA, .RRSIG, .DNSKEY]⟩, ⟨hashSub, [.NS, .DS, .RRSIG]⟩]
  sorted := by decide

theorem strippedDs_ring :
    ∀ r ∈ strippedDs.nameServers, r.recordType = .NSEC3 → subRing.IsNsec3 [] 0 r := by
  intro r hr ht
  simp only [strippedDs, List.mem_cons, List.not_mem_nil, or_false] at hr
  rcases hr with rfl | rfl
  · exact ⟨⟨hashSub, [.NS, .DS, .RRSIG]⟩, ⟨hashRoot, [.NS, .SOA, .RRSIG, .DNSKEY]⟩, _,
      List.mem_cons_of_mem _ (List.mem_singleton.mpr rfl), by decide +kernel, rfl, rfl, rfl, rfl,
      rfl, fun _ => Iff.rfl⟩
  · exact absurd ht (by decide)

/-- The section is genuine, its record at `sub.` lists DS, and the denial is Secure: the walk goes
past `sub.` with the keys of the root. -/
theorem dsRun_contradicted :
    (∀ r ∈ strippedDs.nameServers, r.recordType = .NSEC3 → subRing.IsNsec3 [] 0 r) ∧
      (verifyDenial strippedEnv strippedDs.nameServers [rootKsk]
        (denialRecords .NSEC3 strippedDs.nameServers) {}).1 = true ∧
      (validateNsec3 strippedEnv [rootKsk] subName .DS strippedDs.nameServers {}).1 = .Secure ∧
      ¬ Nsec3DsSound strippedEnv [rootKsk] (nsec3Hash strippedEnv.crypto [] 0) subName
        strippedDs.nameServers {} := by
  have hs : (validateNsec3 strippedEnv [rootKsk] subName .DS strippedDs.nameServers {}).1 =
      .Secure := by decide +kernel
  refine ⟨strippedDs_ring, by decide +kernel, hs, fun h => ?_⟩
  have hm : delegationNsec3 ∈ denialRecords .NSEC3 strippedDs.nameServers := by decide +kernel
  have ho : nsec3OwnerHash delegationNsec3 = some (nsec3Hash strippedEnv.crypto [] 0 subName) := by
    decide +kernel
  exact h (Or.inl hs) delegationNsec3 hm ho (by decide)

/-- the same section denies the DS of `*.`, which no record matches, without contradiction -/
theorem dsRun_sound :
    (verifyDenial strippedEnv strippedDs.nameServers [rootKsk]
        (denialRecords .NSEC3 strippedDs.nameServers)
        (({} : State).push (.denialCall .nsec3 [rootKsk] wildName .DS strippedDs.nameServers))).1 =
          true ∧
      NsecDsSound strippedEnv [rootKsk] wildName strippedDs.nameServers {} ∧
      Nsec3DsSound strippedEnv [rootKsk] (nsec3Hash strippedEnv.crypto [] 0) wildName
        strippedDs.nameServers {} ∧
      WalkDsSound strippedEnv [rootKsk] (nsec3Hash strippedEnv.crypto [] 0) wildName
        strippedDs {} := by
  have hv : (verifyDenial strippedEnv strippedDs.nameServers [rootKsk]
      (denialRecords .NSEC3 strippedDs.nameServers)
      (({} : State).push (.denialCall .nsec3 [rootKsk] wildName .DS strippedDs.nameServers))).1 =
        true := by decide +kernel
  have hver := Prod.eta (verifyDenial strippedEnv strippedDs.nameServers [rootKsk]
    (denialRecords .NSEC3 strippedDs.nameServers)
    (({} : State).push (.denialCall .nsec3 [rootKsk] wildName .DS strippedDs.nameServers)))
  rw [hv] at hver
  refine ⟨hv, (dsDenial_bitmap_iff ⟨[], List.Pairwise.nil⟩ subRing (fun r hr ht => ?_)
    strippedDs_ring hver.symm).mpr (Or.inr fun r hr hn => ?_)⟩
  · simp only [strippedDs, List.mem_cons, List.not_mem_nil, or_false] at hr
    rcases hr with rfl | rfl <;> exact absurd ht (by decide)
  · have hno : (denialRecords .NSEC3 strippedDs.nameServers).all (fun r =>
        nsec3OwnerHash r != some (nsec3Hash strippedEnv.crypto [] 0 wildName)) = true := by
      decide +kernel
    exact absurd hn (bne_iff_ne.mp (List.all_eq_true.mp hno r hr))

end DnsResolver
