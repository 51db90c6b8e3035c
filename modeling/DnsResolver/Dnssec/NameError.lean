import DnsResolver.Dnssec.Validator
import DnsResolver.Dnssec.ParentSide

/-!
# What a Secure name error is about

A negative response is validated against one name, the target of the last CNAME of its answer
section, with one proof, whatever the response code says.

* `validateNegative_secure`   the trace of a Secure negative response: chain events and SOA checks,
                              then one denial proof for that name;
* `nameError_chain`           no CNAME is ever checked on this path, so the alias chain from the
                              queried name is covered only if it is empty;
* `nameError_absent`          the proof shows that the name does not exist exactly if none of the
                              records used is at the name.
-/

namespace DnsResolver
open Trace

/-! ## the trace -/

def IsNegativeEvent (e : Event) : Prop :=
  IsChainEvent (fun _ _ => True) e ∨
    ∃ records, (∀ r ∈ records, r.recordType = .SOA) ∧ IsCheckOf records e

/-- a Secure negative response ends with a denial proof for its target -/
inductive NegativeProof (env : Env) (msg : Message) (target : Name) (qtype : RecordType)
    (log log' : List Event) : Prop
  | nsec3 {keys : List Dnskey} {first : Nsec3} :
      (msg.nameServers.any fun r => decide (r.recordType = .NSEC3)) = true →
      (denialRecords .NSEC3 msg.nameServers).head?.bind Record.nsec3? = some first →
      nsec3Denial (nsec3Hash env.crypto first.salt first.iterations) env.text target qtype
        (denialRecords .NSEC3 msg.nameServers) = .Secure →
      ProofTrace .nsec3 .NSEC3 keys target qtype msg.nameServers .Secure log log' →
      NegativeProof env msg target qtype log log'
  | nsec {keys : List Dnskey} :
      (msg.nameServers.any fun r => decide (r.recordType = .NSEC3)) = false →
      nsecDenial env.text target qtype (denialRecords .NSEC msg.nameServers) = .Secure →
      ProofTrace .nsec .NSEC keys target qtype msg.nameServers .Secure log log' →
      NegativeProof env msg target qtype log log'

section
variable {env : Env} {msg : Message} {qname : Name} {qtype : RecordType} {st st' : State}

theorem negativeProof_secure {keys : List Dnskey} {target : Name}
    (h : negativeProof env keys target qtype msg.nameServers st = (.Secure, st')) :
    NegativeProof env msg target qtype st.log st'.log := by
  unfold negativeProof at h
  split at h
  · rename_i hn
    obtain ⟨⟨first, hfirst, _, hden⟩, htrace⟩ := validateNsec3_cases h (by decide) (by decide)
    exact .nsec3 hn hfirst hden htrace
  · rename_i hn
    split at h
    · obtain ⟨hden, htrace⟩ := validateNsec_cases h (by decide)
      exact .nsec (by simpa using hn) hden htrace
    · exact absurd (Prod.mk.inj h).1 (by decide)

/-- **The trace of a Secure negative response.** -/
theorem validateNegative_secure
    (h : validateNegative env msg qname qtype st = (.Secure, st')) :
    ∃ mid, Grew IsNegativeEvent st.log mid ∧
      NegativeProof env msg (negativeTarget msg qname) qtype mid st'.log := by
  unfold validateNegative at h
  split at h
  · exact absurd (Prod.mk.inj h).1 (by decide)
  · rename_i soa hsoa
    dsimp only at h
    split at h
    · exact absurd (Prod.mk.inj h).1 (by decide)
    · have hchain := buildTrustChain_grew env soa.name st
      split at h
      · exact absurd (Prod.mk.inj h).1 (by decide)
      · exact absurd (Prod.mk.inj h).1 (by decide)
      · rename_i keys ttl st₁ hb
        rw [hb] at hchain
        have hcheck := verifyNegativeRrset_sigOnly env msg.nameServers keys soa st₁
        split at h
        · exact absurd (Prod.mk.inj h).1 (by decide)
        · rename_i st₂ hv
          rw [hv] at hcheck
          refine ⟨st₂.log, Grew.trans (Grew.mono hchain fun e he => ?_)
            (Grew.mono hcheck.log fun e he => ?_), negativeProof_secure h⟩
          · exact Or.inl (he.mono fun _ _ _ => trivial)
          · refine Or.inr ⟨_, fun r hr => ?_, he⟩
            have hat := Record.isAt_iff.mp (List.mem_filter.mp hr).2
            rw [hat.2]
            have hs := List.find?_some hsoa
            unfold Record.isSoa at hs
            cases hd : soa.data <;> simp only [hd] at hs
            case soa s => rw [Record.recordType, hd]; rfl
            all_goals exact absurd hs (by decide)

end

/-! ## reading the trace -/

/-- the name handed to the validator that gave the last verdict -/
def handedName (log : List Event) : Option Name :=
  match log.getLast? with
  | some (.denialVerdict _ _ name _ _ _) => some name
  | _ => none

def Event.isDenialCall : Event → Bool
  | .denialCall _ _ _ _ _ => true
  | _ => false

/-- the events after the last call of a denial validator -/
def lastProof (log : List Event) : List Event :=
  (log.reverse.takeWhile fun e => !e.isDenialCall).reverse

/-- `verify_rrsig` returned true on an RRset that has `r` -/
def Verified (events : List Event) (r : Record) : Prop :=
  ∃ sig key rec records, .sigCheck sig key rec records true ∈ events ∧ r ∈ records

theorem verified_of_mem {events : List Event} {e : Event} {r : Record} (he : e ∈ events)
    (hr : r ∈ e.verifiedRecords) : Verified events r := by
  unfold Event.verifiedRecords at hr
  split at hr
  · exact ⟨_, _, _, _, he, hr⟩
  · exact absurd hr (by simp)

theorem lastProof_append {pre rest : List Event} {call : Event} (hc : call.isDenialCall = true)
    (hr : ∀ e ∈ rest, e.isDenialCall = false) : lastProof (pre ++ call :: rest) = rest := by
  have hall : ∀ e ∈ rest.reverse, (!e.isDenialCall) = true := by
    intro e he
    rw [hr e (List.mem_reverse.mp he)]
    rfl
  rw [lastProof, List.reverse_append, List.reverse_cons, List.append_assoc,
    List.takeWhile_append_of_pos hall, List.singleton_append, List.takeWhile_cons]
  simp [hc]

section
variable {kind : DenialKind} {t qtype : RecordType} {keys : List Dnskey} {target : Name}
  {authority : List Record} {status : DnssecStatus} {log log' : List Event}

theorem ProofTrace.handed
    (h : ProofTrace kind t keys target qtype authority status log log') :
    handedName log' = some target := by
  obtain ⟨checks, rfl, _⟩ := h
  unfold handedName
  rw [List.getLast?_append_of_ne_nil _ (by simp), ← List.cons_append, List.getLast?_concat]

theorem ProofTrace.verified
    (h : ProofTrace kind t keys target qtype authority status log log') {r : Record} :
    (r ∈ denialRecords t authority → Verified (lastProof log') r) ∧
      (Verified (lastProof log') r → ∃ rec ∈ denialRecords t authority, r ∈ rrsetOf authority rec) := by
  obtain ⟨checks, rfl, hchecks, hall⟩ := h
  have hproof : lastProof (log ++ .denialCall kind keys target qtype authority ::
      (checks ++ [.denialVerdict kind keys target qtype authority status])) =
      checks ++ [.denialVerdict kind keys target qtype authority status] := by
    refine lastProof_append rfl fun e he => ?_
    rcases List.mem_append.mp he with he | he
    · obtain ⟨_, _, _, _, _, _, rfl⟩ := hchecks e he
      rfl
    · rw [List.mem_singleton.mp he]
      rfl
  rw [hproof]
  refine ⟨fun hr => ?_, ?_⟩
  · obtain ⟨sigRec, sig, key, _, _, _, _, _, hlog⟩ := hall r hr
    refine ⟨sig, key, sigRec, _, List.mem_append_left _ hlog, ?_⟩
    exact List.mem_filter.mpr ⟨(mem_denialRecords hr).1,
      Record.isAt_iff.mpr ⟨Name.nameEq_refl _, rfl⟩⟩
  · rintro ⟨sig, key, rec, records, hm, hr⟩
    rcases List.mem_append.mp hm with hm | hm
    · obtain ⟨rec', hrec', sig', key', rec'', ok, he⟩ := hchecks _ hm
      obtain ⟨_, _, _, rfl, _⟩ := Event.sigCheck.inj he
      exact ⟨rec', hrec', hr⟩
    · exact absurd (List.mem_singleton.mp hm) (by simp)

end

/-! ## the alias chain -/

/-- CNAME records of the section that lead from one name to another, where they end -/
inductive CnameChain (answers : List Record) : Name → List Record → Name → Prop
  | done {n : Name} : (∀ r ∈ answers, r.name.nameEq n = true → r.cname? = none) →
      CnameChain answers n [] n
  | step {n t e : Name} {r : Record} {rs : List Record} : r ∈ answers →
      r.name.nameEq n = true → r.data = .cname t → CnameChain answers t rs e →
      CnameChain answers n (r :: rs) e

/-- the name handed to the validator is the end of the chain from `qname`, and every CNAME on the
way was verified -/
def ChainCovered (answers : List Record) (qname : Name) (log : List Event) : Prop :=
  ∃ name rs e, handedName log = some name ∧ CnameChain answers qname rs e ∧
    name.nameEq e = true ∧ ∀ r ∈ rs, Verified log r

section
variable {env : Env} {msg : Message} {qname : Name} {qtype : RecordType} {st st' : State}

theorem not_verified_cname {log mid log' : List Event} {target t : Name} {r : Record}
    (hlog : log = []) (hmid : Grew IsNegativeEvent log mid)
    (hproof : NegativeProof env msg target qtype mid log') (hd : r.data = .cname t) :
    ¬ Verified log' r := by
  subst hlog
  have hrt : r.recordType = .CNAME := by rw [Record.recordType, hd]; rfl
  have htrace : ∀ {kind u keys}, u ∈ chainTypes →
      ProofTrace kind u keys target qtype msg.nameServers .Secure mid log' →
      ¬ Verified log' r := by
    rintro kind u keys hu ⟨checks, rfl, hchecks, _⟩ ⟨sig, key, rec, records, hm, hr⟩
    rcases List.mem_append.mp hm with hm | hm
    · rcases Grew.mem hmid hm with h0 | hev | ⟨records', hsoa, _, _, _, _, he⟩
      · exact absurd h0 List.not_mem_nil
      · have := hev r hr
        rw [hrt] at this
        exact absurd this (by decide)
      · obtain ⟨_, _, _, rfl, _⟩ := Event.sigCheck.inj he
        have := hsoa r hr
        rw [hrt] at this
        exact absurd this (by decide)
    · rcases List.mem_cons.mp hm with hm | hm
      · exact absurd hm (by simp)
      · rcases List.mem_append.mp hm with hm | hm
        · obtain ⟨rec', hrec', _, _, _, _, he⟩ := hchecks _ hm
          obtain ⟨_, _, _, rfl, _⟩ := Event.sigCheck.inj he
          have hat := Record.isAt_iff.mp (List.mem_filter.mp hr).2
          rw [hrt, (mem_denialRecords hrec').2] at hat
          rw [← hat.2] at hu
          exact absurd hu (by decide)
        · exact absurd (List.mem_singleton.mp hm) (by simp)
  cases hproof with
  | nsec3 _ _ _ h => exact htrace (by decide) h
  | nsec _ _ h => exact htrace (by decide) h

theorem NegativeProof.handed {target : Name} {log log' : List Event}
    (h : NegativeProof env msg target qtype log log') : handedName log' = some target := by
  cases h with
  | nsec3 _ _ _ h => exact h.handed
  | nsec _ _ h => exact h.handed

/-- the last CNAME of the section, if it has a target, leads back to `qname` -/
def LastCnameAt (answers : List Record) (qname : Name) : Prop :=
  ∀ r t, (answers.reverse.find? fun r => decide (r.recordType = .CNAME)) = some r →
    r.data = .cname t → t.nameEq qname = true

theorem negativeTarget_iff :
    (negativeTarget msg qname).nameEq qname = true ↔ LastCnameAt msg.answers qname := by
  unfold negativeTarget LastCnameAt
  cases hf : msg.answers.reverse.find? fun r => decide (r.recordType = .CNAME) with
  | none => simp [Name.nameEq_refl]
  | some r =>
    show (r.cname?.getD qname).nameEq qname = true ↔ _
    cases hc : r.cname? with
    | none =>
      rw [Option.getD_none]
      refine ⟨fun _ r' t he hd => ?_, fun _ => Name.nameEq_refl _⟩
      obtain rfl := Option.some.inj he
      rw [Record.cname?_eq_some.mpr hd] at hc
      exact absurd hc (by simp)
    | some t =>
      rw [Option.getD_some]
      have hd := Record.cname?_eq_some.mp hc
      refine ⟨fun h r' t' he hd' => ?_, fun h => h r t rfl hd⟩
      obtain rfl := Option.some.inj he
      obtain rfl := RData.cname.inj (hd.symm.trans hd')
      exact h

/-- **When a Secure name error covers the alias chain.**  For a response with code NXDomain whose
verdict is Secure, the name handed to the denial validator is the end of the CNAME chain from
`qname` and every CNAME on it was verified exactly if no CNAME of the answer section is at `qname`
and the last CNAME of the section leads back to `qname`. -/
theorem nameError_chain (hrc : msg.responseCode = .NXDomain)
    (hsecure : validateMessageWithBudget env msg qname qtype { st with log := [] } =
      (.Secure, st')) :
    ChainCovered msg.answers qname st'.log ↔
      (∀ r ∈ msg.answers, r.name.nameEq qname = true → r.cname? = none) ∧
        LastCnameAt msg.answers qname := by
  simp only [validateMessageWithBudget, hrc] at hsecure
  obtain ⟨mid, hmid, hproof⟩ := validateNegative_secure hsecure
  rw [← negativeTarget_iff]
  constructor
  · rintro ⟨name, rs, e, hn, hchain, he, hall⟩
    obtain rfl := Option.some.inj (hproof.handed.symm.trans hn)
    cases hchain with
    | done hnone => exact ⟨hnone, he⟩
    | @step _ t _ r rs hm hr hd _ =>
      exact absurd (hall r (List.mem_cons_self ..)) (not_verified_cname rfl hmid hproof hd)
  · rintro ⟨hnone, he⟩
    exact ⟨_, [], qname, hproof.handed, .done hnone, he, by simp⟩

end

/-! ## the response code -/

theorem base32Loop_fold (l : Label) (bits : UInt64) (k : Nat) (out : Bytes) :
    base32Loop (foldLabel l) bits k out = base32Loop l bits k out := by
  induction l generalizing bits k out with
  | nil => rfl
  | cons c cs ih =>
    show base32Loop (lowerByte c :: foldLabel cs) bits k out = _
    simp only [base32Loop, base32Val_lower, ih]

theorem nsec3OwnerHash_congr {r s : Record} (h : r.name.nameEq s.name = true) :
    nsec3OwnerHash r = nsec3OwnerHash s := by
  have hhead : ∀ n : Name, base32hexDecode (n.labels.headD []) =
      base32hexDecode (n.fold.headD []) := by
    intro n
    unfold Name.fold base32hexDecode
    cases n.labels with
    | nil => rfl
    | cons l ls => exact (base32Loop_fold l 0 0 []).symm
  unfold nsec3OwnerHash
  rw [hhead r.name, hhead s.name, Name.nameEq_iff.mp h]

/-- the hash of `n` with the parameters of the first NSEC3 record of a section -/
def sectionHash (cr : Crypto) (authority : List Record) (n : Name) : Option Bytes :=
  ((denialRecords .NSEC3 authority).head?.bind Record.nsec3?).map fun first =>
    nsec3Hash cr first.salt first.iterations n

/-- `r` is a denial record of the name itself -/
def DenialAt (cr : Crypto) (authority : List Record) (n : Name) (r : Record) : Prop :=
  (r.recordType = .NSEC ∧ r.name.nameEq n = true) ∨
    (r.recordType = .NSEC3 ∧ (nsec3OwnerHash r).isSome = true ∧
      nsec3OwnerHash r = sectionHash cr authority n)

section
variable {env : Env} {msg : Message} {qname : Name} {qtype : RecordType} {st st' : State}

theorem denialAt_congr {cr : Crypto} {authority : List Record} {n : Name} {r rec : Record}
    (h : r ∈ rrsetOf authority rec) (hd : DenialAt cr authority n r) :
    DenialAt cr authority n rec := by
  obtain ⟨hn, ht⟩ := Record.isAt_iff.mp (List.mem_filter.mp h).2
  rcases hd with ⟨h1, h2⟩ | ⟨h1, h2, h3⟩
  · exact Or.inl ⟨ht ▸ h1, Name.nameEq_trans (Name.nameEq_symm hn) h2⟩
  · rw [nsec3OwnerHash_congr hn] at h2 h3
    exact Or.inr ⟨ht ▸ h1, h2, h3⟩

/-- the type of denial records that counts: NSEC only without any NSEC3 -/
def proofType (authority : List Record) : RecordType :=
  if authority.any fun r => decide (r.recordType = .NSEC3) then .NSEC3 else .NSEC

theorem NegativeProof.trace {target : Name} {log log' : List Event}
    (h : NegativeProof env msg target qtype log log') :
    ∃ kind keys, ProofTrace kind (proofType msg.nameServers) keys target qtype msg.nameServers
      .Secure log log' := by
  cases h with
  | nsec3 hn _ _ h => exact ⟨_, _, by rw [proofType, if_pos hn]; exact h⟩
  | nsec hn _ h => exact ⟨_, _, by rw [proofType, hn]; exact h⟩

/-- **When a Secure name error shows a name error.**  For a response with code NXDomain whose
verdict is Secure, no verified record of the proof is at the final target exactly if none of the
first eight NSEC3 records (NSEC records, if there is no NSEC3) of the authority section is. -/
theorem nameError_absent (hrc : msg.responseCode = .NXDomain)
    (hsecure : validateMessageWithBudget env msg qname qtype st = (.Secure, st')) :
    (∃ target, handedName st'.log = some target ∧
      ∀ r ∈ msg.nameServers, Verified (lastProof st'.log) r →
        ¬ DenialAt env.crypto msg.nameServers target r) ↔
      ∀ r ∈ denialRecords (proofType msg.nameServers) msg.nameServers,
        ¬ DenialAt env.crypto msg.nameServers (negativeTarget msg qname) r := by
  simp only [validateMessageWithBudget, hrc] at hsecure
  obtain ⟨mid, _, hproof⟩ := validateNegative_secure hsecure
  obtain ⟨kind, keys, htrace⟩ := hproof.trace
  constructor
  · rintro ⟨target, hn, hall⟩ r hr
    obtain rfl := Option.some.inj (hproof.handed.symm.trans hn)
    exact hall r (mem_denialRecords hr).1 (htrace.verified.1 hr)
  · intro hnone
    refine ⟨_, hproof.handed, fun r _ hv hd => ?_⟩
    obtain ⟨rec, hrec, hr⟩ := htrace.verified.2 hv
    exact hnone rec hrec (denialAt_congr hr hd)

end
/-! ## name errors of the root zone -/

/-- `q.`, which does not exist -/
def absentName : Name := tld [113]

def rootSoa : Record where
  name := .root
  ttl := 3600
  data := .soa
    { mname := .root
      rname := .root
      serial := 1
      refresh := 1800
      retry := 900
      expire := 604800
      minimum := 86400 }

/-- nothing between the root and `sub.` -/
def gapNsec : Record := rootNsec .root subName [.NS, .SOA, .RRSIG, .NSEC, .DNSKEY]

/-- the root answers with its key; its SOA and two NSEC records are signed -/
def negativeEnv : Env where
  crypto := signedOnly [rootKeysTbs, buildTbsManual (rootRrsig .root .SOA .IN) [rootSoa],
    buildTbsManual (rootRrsig .root .NSEC .IN) [gapNsec],
    buildTbsManual (rootRrsig subName .NSEC .IN) [leafNsec]]
  text := noText
  nowSecs := fun _ => 1000
  resolve := fun _ n t =>
    if n.isRoot && decide (t = .DNSKEY) then
      .ok { answers := [rootKskRecord, rootRrsig .root .DNSKEY .IN] }
    else .error .AllNameserversFailed

def cnameRecord (owner target : Name) : Record where
  name := owner
  ttl := 3600
  data := .cname target

/-- a name error for `q.` after the given CNAME records -/
def absentMsg (answers : List Record) : Message where
  responseCode := .NXDomain
  answers := answers
  nameServers := [rootSoa, rootRrsig .root .SOA .IN, gapNsec, rootRrsig .root .NSEC .IN]

/-- an unsigned CNAME leads from `sub.` to the absent name -/
def forgedAlias : Message := absentMsg [cnameRecord subName absentName]

theorem forgedAlias_not_covered :
    (validateMessageWithBudget negativeEnv forgedAlias subName .A {}).1 = .Secure ∧
      ¬ ChainCovered forgedAlias.answers subName
        (validateMessageWithBudget negativeEnv forgedAlias subName .A {}).2.log := by
  have hrun : (validateMessageWithBudget negativeEnv forgedAlias subName .A {}).1 = .Secure ∧
      (validateMessageWithBudget negativeEnv forgedAlias subName .A {}).2.log.all
        fun e => e.verifiedRecords.all fun r => decide (r.recordType ≠ .CNAME) := by
    decide +kernel
  obtain ⟨hs, hnone⟩ := hrun
  refine ⟨hs, ?_⟩
  rintro ⟨name, rs, e, hn, hchain, he, hall⟩
  cases hchain with
  | done h => exact absurd (h _ (List.mem_singleton.mpr rfl) (by decide)) (by decide)
  | @step _ t _ r rs _ _ hd _ =>
    obtain ⟨sig, key, rec, records, hm, hr⟩ := hall r (List.mem_cons_self ..)
    have h := List.all_eq_true.mp (List.all_eq_true.mp hnone _ hm) r hr
    have hrt : r.recordType = .CNAME := by
      rw [Record.recordType, hd]
      rfl
    rw [hrt] at h
    exact absurd h (by decide)

/-- a CNAME elsewhere that leads to the queried name -/
def strayAlias : Message := absentMsg [cnameRecord subName absentName]

theorem strayAlias_covered :
    (validateMessageWithBudget negativeEnv strayAlias absentName .A {}).1 = .Secure ∧
      ChainCovered strayAlias.answers absentName
        (validateMessageWithBudget negativeEnv strayAlias absentName .A {}).2.log := by
  have hs : (validateMessageWithBudget negativeEnv strayAlias absentName .A {}).1 = .Secure := by
    decide +kernel
  have hrun : validateMessageWithBudget negativeEnv strayAlias absentName .A
      { ({} : State) with log := [] } =
      (.Secure, (validateMessageWithBudget negativeEnv strayAlias absentName .A {}).2) := by
    rw [← hs]
  refine ⟨hs, (nameError_chain rfl hrun).mpr ⟨?_, ?_⟩⟩
  · decide
  · rintro r t hf hd
    obtain rfl : cnameRecord subName absentName = r := Option.some.inj hf
    obtain rfl := RData.cname.inj hd
    decide

/-- code NXDomain with a proof that `sub.` exists and has no A record -/
def nodataMsg : Message where
  responseCode := .NXDomain
  nameServers := [rootSoa, rootRrsig .root .SOA .IN, leafNsec, rootRrsig subName .NSEC .IN]

theorem nodataMsg_present :
    nodataMsg.responseCode = .NXDomain ∧
      (validateMessageWithBudget negativeEnv nodataMsg subName .A {}).1 = .Secure ∧
      handedName (validateMessageWithBudget negativeEnv nodataMsg subName .A {}).2.log =
        some subName ∧
      leafNsec ∈ nodataMsg.nameServers ∧
      Verified (lastProof (validateMessageWithBudget negativeEnv nodataMsg subName .A {}).2.log)
        leafNsec ∧
      DenialAt negativeEnv.crypto nodataMsg.nameServers subName leafNsec := by
  have hrun : (validateMessageWithBudget negativeEnv nodataMsg subName .A {}).1 = .Secure ∧
      handedName (validateMessageWithBudget negativeEnv nodataMsg subName .A {}).2.log =
        some subName ∧
      (lastProof (validateMessageWithBudget negativeEnv nodataMsg subName .A {}).2.log).any
        fun e => decide (leafNsec ∈ e.verifiedRecords) := by decide +kernel
  obtain ⟨hs, hname, h⟩ := hrun
  refine ⟨rfl, hs, hname, by decide, ?_, Or.inl ⟨rfl, by decide⟩⟩
  obtain ⟨e, hm, he⟩ := List.any_eq_true.mp h
  exact verified_of_mem hm (of_decide_eq_true he)

theorem absentMsg_absent :
    (validateMessageWithBudget negativeEnv (absentMsg []) absentName .A {}).1 = .Secure ∧
      ∃ target, handedName
          (validateMessageWithBudget negativeEnv (absentMsg []) absentName .A {}).2.log = some target ∧
        ∀ r ∈ (absentMsg []).nameServers, Verified
          (lastProof (validateMessageWithBudget negativeEnv (absentMsg []) absentName .A {}).2.log) r →
          ¬ DenialAt negativeEnv.crypto (absentMsg []).nameServers target r := by
  have hs : (validateMessageWithBudget negativeEnv (absentMsg []) absentName .A {}).1 = .Secure := by
    decide +kernel
  have hrun : validateMessageWithBudget negativeEnv (absentMsg []) absentName .A {} =
      (.Secure, (validateMessageWithBudget negativeEnv (absentMsg []) absentName .A {}).2) := by
    rw [← hs]
  refine ⟨hs, (nameError_absent rfl hrun).mpr ?_⟩
  intro r hr
  have hone : denialRecords (proofType (absentMsg []).nameServers) (absentMsg []).nameServers =
      [gapNsec] := by decide +kernel
  rw [hone] at hr
  obtain rfl := List.mem_singleton.mp hr
  rintro (⟨_, h⟩ | ⟨h, _⟩)
  · exact absurd h (by decide)
  · exact absurd h (by decide)

end DnsResolver
