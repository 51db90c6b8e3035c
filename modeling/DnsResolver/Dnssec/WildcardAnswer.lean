import DnsResolver.Dnssec.CheckOrigin
import DnsResolver.Dnssec.Expansion
import DnsResolver.Data.Wire

/-!
# Answers that were expanded from a wildcard

The signature of a wildcard RRset verifies at every name below the wildcard, so an answer that
rests on one needs a proof that the name itself does not exist.  `wildcard_optout_check` takes
back the verdict `Secure` on such an answer when the authority section has an NSEC3 record, and
only then; nothing looks at the proof.

* `VerifiedExpanded`   an RRset of the answer verified through an RRSIG over fewer labels;
* `DeniedIn`           a verified NSEC or NSEC3 record of the authority section covers a name;
* `wildcardAnswer_denied`   when every such owner is denied.
-/

namespace DnsResolver
open Trace

/-! ## label counts -/

theorem Name.numLabels_le (n : Name) : n.numLabels ≤ n.labels.length := by
  unfold Name.numLabels
  split
  · exact Nat.zero_le _
  · rename_i l ls hls
    rw [hls, List.length_cons]
    split <;> omega

/-- an RRSIG over fewer labels than the owner of its RRset has is one that
`wildcard_optout_check` looks for -/
theorem isWildcardRrsig_of_lt {rec : Record} {sig : Rrsig} {owner : Name} {t : RecordType}
    (hover : rec.isRrsigOver owner t = true) (hd : rec.data = .rrsig sig)
    (hlt : sig.numLabels.toNat < owner.numLabels) : isWildcardRrsig rec = true := by
  obtain ⟨_, _, hname, _⟩ := Record.isRrsigOver_iff.mp hover
  have hcount : owner.numLabels ≤ rec.name.labels.length := by
    rw [← Name.numLabels_congr (Name.nameEq_iff.mp hname)]
    exact Name.numLabels_le _
  simp only [isWildcardRrsig, hd, decide_eq_true_eq, UInt8.lt_iff_toNat_lt, Name.toNat_labelCount]
  omega

/-! ## what a Secure answer rests on -/

/-- the RRset of type `p.2` at `p.1` verified through an RRSIG over fewer labels than `p.1` has -/
def VerifiedExpanded (answers : List Record) (log : List Event) (p : Name × RecordType) : Prop :=
  ∃ sig key rec, rec ∈ answers ∧ rec.isRrsigOver p.1 p.2 = true ∧ rec.data = .rrsig sig ∧
    .sigCheck sig key rec (answers.filter (Record.isAt p.1 p.2)) true ∈ log ∧
    sig.numLabels.toNat < p.1.numLabels

/-- an NSEC or NSEC3 record covers the name -/
def deniedBy (cr : Crypto) (n : Name) (r : Record) : Bool :=
  match r.data with
  | .nsec d => nsecCovers r.name d.nextDomainName n
  | .nsec3 d => nsec3Covers r (nsec3Hash cr d.salt d.iterations n)
  | _ => false

/-- a record of the authority section covers the name, and its RRset verified -/
def DeniedIn (cr : Crypto) (authority : List Record) (log : List Event) (n : Name) : Prop :=
  ∃ r ∈ authority, deniedBy cr n r = true ∧ ∃ sig key rec, rec ∈ authority ∧
    .sigCheck sig key rec (rrsetOf authority r) true ∈ log

/-- every owner whose RRset is an expansion is denied -/
def ExpansionsDenied (env : Env) (msg : Message) (qname : Name) (qtype : RecordType)
    (log : List Event) : Prop :=
  ∀ p ∈ answerPairs env.text qname qtype msg.answers, VerifiedExpanded msg.answers log p →
    DeniedIn env.crypto msg.nameServers log p.1

/-- the authority section has a record of type `t` -/
def Message.hasAuthority (msg : Message) (t : RecordType) : Bool :=
  msg.nameServers.any fun r => decide (r.recordType = t)

/-- no RRSIG over an RRset that has to verify counts fewer labels than the owner has -/
def NoExpandedRrsig (tx : Presentation) (msg : Message) (qname : Name) (qtype : RecordType) :
    Prop :=
  ∀ p ∈ answerPairs tx qname qtype msg.answers, ∀ rec ∈ msg.answers, ∀ sig,
    rec.isRrsigOver p.1 p.2 = true → rec.data = .rrsig sig → p.1.numLabels ≤ sig.numLabels.toNat

/-- the RRSIGs over one RRset are all expansions, or none is -/
def RrsigsAgree (tx : Presentation) (msg : Message) (qname : Name) (qtype : RecordType) : Prop :=
  ∀ p ∈ answerPairs tx qname qtype msg.answers, ∀ rec ∈ msg.answers, ∀ rec' ∈ msg.answers,
    ∀ sig sig', rec.isRrsigOver p.1 p.2 = true → rec'.isRrsigOver p.1 p.2 = true →
      rec.data = .rrsig sig → rec'.data = .rrsig sig' →
      sig.numLabels.toNat < p.1.numLabels → sig'.numLabels.toNat < p.1.numLabels

/-- the NSEC records of the authority section are not in the answer section, nor does the recursor
return them to the validator -/
def NsecUnseen (env : Env) (msg : Message) : Prop :=
  ∀ r ∈ msg.nameServers, r.recordType = .NSEC → r ∉ msg.answers ∧ ¬ Received env r

section
variable {env : Env} {msg : Message} {qname : Name} {qtype : RecordType} {st st' : State}

/-- a Secure answer: every RRset on the way verified, and the downgrade does not apply -/
theorem validateMessage_answer_secure (hrc : msg.responseCode = .NoError)
    (hans : msg.answers ≠ [])
    (h : validateMessageWithBudget env msg qname qtype st = (.Secure, st')) :
    validateAnswer env qname qtype msg.answers st = (.Secure, st') ∧
      (msg.hasAuthority .NSEC3 = true → msg.answers.any isWildcardRrsig = false) := by
  have hne : msg.answers.isEmpty = false := by
    cases hm : msg.answers with
    | nil => exact absurd hm hans
    | cons => rfl
  simp only [validateMessageWithBudget, hrc, hne, Bool.false_eq_true, if_false] at h
  cases hv : validateAnswer env qname qtype msg.answers st with
  | mk status s =>
    rw [hv] at h
    cases status with
    | Secure =>
      obtain ⟨hopt, rfl⟩ := Prod.mk.inj h
      refine ⟨rfl, fun hn => ?_⟩
      -- with a wildcard RRSIG and an NSEC3 record the verdict would have been taken back
      cases hw : msg.answers.any isWildcardRrsig with
      | false => rfl
      | true =>
        have hn' : (msg.nameServers.any fun r => decide (r.recordType = .NSEC3)) = true := hn
        simp [wildcardOptoutCheck, hw, hn'] at hopt
    | _ => exact absurd (Prod.mk.inj h).1 (by simp)

theorem not_verifiedExpanded (hrc : msg.responseCode = .NoError) (hans : msg.answers ≠ [])
    (h : validateMessageWithBudget env msg qname qtype st = (.Secure, st'))
    (hsafe : msg.hasAuthority .NSEC3 = true ∨ NoExpandedRrsig env.text msg qname qtype)
    {p : Name × RecordType} (hp : p ∈ answerPairs env.text qname qtype msg.answers) :
    ¬ VerifiedExpanded msg.answers st'.log p := by
  rintro ⟨sig, key, rec, hm, hover, hd, _, hlt⟩
  rcases hsafe with hn | hno
  · have hnone := (validateMessage_answer_secure hrc hans h).2 hn
    have hsome : msg.answers.any isWildcardRrsig = true :=
      List.any_eq_true.mpr ⟨rec, hm, isWildcardRrsig_of_lt hover hd hlt⟩
    rw [hnone] at hsome
    exact absurd hsome (by decide)
  · have hle := hno p hp rec hm sig hover hd
    omega

/-- if all RRSIGs over an RRset are expansions, it was verified through one -/
theorem verifiedExpanded_of_agree
    (hv : validateAnswer env qname qtype msg.answers st = (.Secure, st'))
    (hagree : RrsigsAgree env.text msg qname qtype)
    {p : Name × RecordType} (hp : p ∈ answerPairs env.text qname qtype msg.answers)
    {rec : Record} {sig : Rrsig} (hm : rec ∈ msg.answers)
    (hover : rec.isRrsigOver p.1 p.2 = true) (hd : rec.data = .rrsig sig)
    (hlt : sig.numLabels.toNat < p.1.numLabels) : VerifiedExpanded msg.answers st'.log p := by
  obtain ⟨sig', key, rec', hev, hm', hover', hd', _⟩ := (validateAnswer_ok hv).secure rfl p hp
  exact ⟨sig', key, rec', hm', hover', hd', hev,
    hagree p hp rec hm rec' hm' sig sig' hover hover' hd hd' hlt⟩

theorem deniedBy_recordType {cr : Crypto} {n : Name} {r : Record} (h : deniedBy cr n r = true) :
    r.recordType = .NSEC ∨ r.recordType = .NSEC3 := by
  unfold deniedBy at h
  split at h
  · rename_i d hd
    exact Or.inl (by rw [Record.recordType, hd]; rfl)
  · rename_i d hd
    exact Or.inr (by rw [Record.recordType, hd]; rfl)
  · exact absurd h (by decide)

/-- without an NSEC3 record nothing is denied: NSEC records of the authority section are not
checked -/
theorem not_deniedIn (hnsec3 : msg.hasAuthority .NSEC3 = false) (hunseen : NsecUnseen env msg)
    (hv : validateAnswer env qname qtype msg.answers { st with log := [] } = (.Secure, st'))
    {n : Name} : ¬ DeniedIn env.crypto msg.nameServers st'.log n := by
  rintro ⟨r, hr, hden, sig, key, rec, _, hev⟩
  have htrail : Trail (fun r => Received env r ∨ r ∈ msg.answers) { st with log := [] }
      (validateAnswer env qname qtype msg.answers { st with log := [] }).2 :=
    validateAnswer_trail (fun _ h => Or.inl h) (fun _ h => Or.inr h) qname qtype _
  rw [hv] at htrail
  have hself : r ∈ rrsetOf msg.nameServers r :=
    List.mem_filter.mpr ⟨hr, Record.isAt_iff.mpr ⟨Name.nameEq_refl _, rfl⟩⟩
  have hnsec : r.recordType = .NSEC := by
    rcases deniedBy_recordType hden with h | h
    · exact h
    · exact absurd (decide_eq_true h) (List.any_eq_false.mp hnsec3 r hr)
  obtain ⟨hanswers, hreceived⟩ := hunseen r hr hnsec
  rcases htrail.mem hev with hnil | hsrc
  · exact absurd hnil (List.not_mem_nil)
  · rcases hsrc r hself with h | h
    · exact hreceived h
    · exact hanswers h

end

/-- **When a wildcard answer comes with its proof.**  Let an answer be `Secure`.  The owners of the
RRsets that were verified by expansion are all denied in the authority section if that section
has an NSEC3 record or no RRSIG over an RRset of the answer counts fewer labels than its owner;
and only if, provided that the RRSIGs over one RRset agree and the NSEC records of the section come
in no other place. -/
theorem wildcardAnswer_denied {env : Env} {msg : Message} {qname : Name} {qtype : RecordType}
    {st st' : State} (hrc : msg.responseCode = .NoError) (hans : msg.answers ≠ [])
    (h : validateMessageWithBudget env msg qname qtype { st with log := [] } = (.Secure, st')) :
    (msg.hasAuthority .NSEC3 = true ∨ NoExpandedRrsig env.text msg qname qtype →
        ExpansionsDenied env msg qname qtype st'.log) ∧
      (NsecUnseen env msg → RrsigsAgree env.text msg qname qtype →
        ExpansionsDenied env msg qname qtype st'.log →
        msg.hasAuthority .NSEC3 = true ∨ NoExpandedRrsig env.text msg qname qtype) := by
  refine ⟨fun hsafe p hp he => absurd he (not_verifiedExpanded hrc hans h hsafe hp),
    fun hunseen hagree hden => ?_⟩
  cases hn : msg.hasAuthority .NSEC3 with
  | true => exact Or.inl rfl
  | false =>
    right
    intro p hp rec hm sig hover hd
    by_contra hlt
    have hv := (validateMessage_answer_secure hrc hans h).1
    have hexp := verifiedExpanded_of_agree hv hagree hp hm hover hd (by omega)
    exact not_deniedIn hn hunseen hv (hden p hp hexp)

/-! ## the address of every name -/

/-- the address record of `*.` under the name `owner`, and its RRSIG -/
def wildcardAddress (owner : Name) : List Record :=
  [{ name := owner, ttl := 3600, data := .a ⟨#v[192, 0, 2, 80]⟩ },
    { rootRrsig wildName .A .IN with name := owner }]

def wildcardAddressMsg (owner : Name) : Message where
  answers := wildcardAddress owner

/-- the root answers with its key; of the address records it signed the one at `*.` -/
def wildcardEnv : Env where
  crypto := signedOnly [rootKeysTbs, buildTbsManual (rootRrsig wildName .A .IN)
    ((wildcardAddress wildName).take 1)]
  text := noText
  nowSecs := fun _ => 1000
  resolve := rootEnv.resolve

def wildcardAddressRun (owner : Name) : DnssecStatus × State :=
  validateMessageWithBudget wildcardEnv (wildcardAddressMsg owner) owner .A {}

theorem wildcardAddress_pairs :
    answerPairs wildcardEnv.text subName .A (wildcardAddressMsg subName).answers =
      [(subName, .A)] ∧
    answerPairs wildcardEnv.text wildName .A (wildcardAddressMsg wildName).answers =
      [(wildName, .A)] := by
  constructor <;> decide +kernel

/-- the record of `*.` is the secure address of `sub.`, and nothing denies `sub.` -/
theorem wildcardAddress_accepted :
    (wildcardAddressRun subName).1 = .Secure ∧ (wildcardAddressMsg subName).nameServers = [] ∧
      VerifiedExpanded (wildcardAddressMsg subName).answers (wildcardAddressRun subName).2.log
        (subName, .A) ∧
      ¬ ExpansionsDenied wildcardEnv (wildcardAddressMsg subName) subName .A
        (wildcardAddressRun subName).2.log := by
  have hs : (wildcardAddressRun subName).1 = .Secure := by decide +kernel
  have hrun := Prod.eta (wildcardAddressRun subName)
  rw [hs] at hrun
  have hv := (validateMessage_answer_secure rfl (by decide) hrun.symm).1
  have hp : (subName, .A) ∈
      answerPairs wildcardEnv.text subName .A (wildcardAddressMsg subName).answers := by
    rw [wildcardAddress_pairs.1]
    exact List.mem_singleton.mpr rfl
  have hexp : VerifiedExpanded (wildcardAddressMsg subName).answers
      (wildcardAddressRun subName).2.log (subName, .A) := by
    obtain ⟨sig, key, rec, hev, hm, hover, hd, _⟩ := (validateAnswer_ok hv).secure rfl _ hp
    refine ⟨sig, key, rec, hm, hover, hd, hev, ?_⟩
    rcases List.mem_cons.mp hm with rfl | hm
    · exact absurd hd (by simp)
    · obtain rfl := List.mem_singleton.mp hm
      obtain rfl := RData.rrsig.inj hd
      decide
  refine ⟨hs, rfl, hexp, fun h => ?_⟩
  obtain ⟨r, hr, _⟩ := h _ hp hexp
  exact absurd hr (List.not_mem_nil)

/-- at `*.` the record is no expansion -/
theorem wildcardAddress_atWildcard :
    (wildcardAddressRun wildName).1 = .Secure ∧
      ExpansionsDenied wildcardEnv (wildcardAddressMsg wildName) wildName .A
        (wildcardAddressRun wildName).2.log := by
  have hs : (wildcardAddressRun wildName).1 = .Secure := by decide +kernel
  have hrun := Prod.eta (wildcardAddressRun wildName)
  rw [hs] at hrun
  refine ⟨hs, (@wildcardAnswer_denied _ _ _ _ {} _ rfl (by decide) hrun.symm).1 (Or.inr ?_)⟩
  intro p hp rec _ sig _ _
  rw [wildcardAddress_pairs.2] at hp
  rw [List.mem_singleton.mp hp]
  exact Nat.zero_le _

end DnsResolver
