import DnsResolver.Dnssec.AnswerRun
import DnsResolver.Dnssec.Denial

/-!
# What an insecure verdict rests on

* `InsecureProof`                   `InsecureUnsigned` for a reason: a zone at or above a name on
                                    the way is proven unsigned, the DS asked for is denied at a
                                    delegation, or a verified NSEC3 record opts out;
* `StrayAlias`                      a negative response whose last CNAME record leads to a name
                                    that the redirections from the queried name do not reach;
* `UnknownCause`                    the shapes of a response that give `InsecureUnknown`;
* `validateMessageWithBudget_ok`    every verdict has its reason.
-/

namespace DnsResolver
open Trace

/-! ## reasons -/

/-- a proof behind `InsecureUnsigned` -/
inductive InsecureProof (env : Env) (log : List Event) (msg : Message) (qname : Name)
    (qtype : RecordType) : Prop
  /-- a zone at or above the queried name or a name it is redirected to -/
  | unsigned {n : Name} : n ∈ redirectionNames env.text qname msg.answers →
      ProvenUnsigned env.crypto log n → InsecureProof env log msg qname qtype
  /-- the denial of the DS that was asked for, under authentic keys -/
  | dsDenied {keys : List Dnskey} {zone : Name} : qtype = .DS →
      Authentic env.crypto log keys zone →
      DsDenied log keys (negativeTarget msg qname) .InsecureUnsigned →
      InsecureProof env log msg qname qtype
  /-- an NSEC3 record with opt-out, verified under authentic keys -/
  | optOut {keys : List Dnskey} {zone : Name} {rec : Record} :
      Authentic env.crypto log keys zone → rec ∈ msg.nameServers → rec.recordType = .NSEC3 →
      nsec3OptOut rec = true → DenialVerified msg.nameServers keys rec log →
      InsecureProof env log msg qname qtype

/-- a response that is validated as a negative one -/
def Message.isNegative (msg : Message) : Bool :=
  decide (msg.responseCode = .NXDomain) ||
    (decide (msg.responseCode = .NoError) && msg.answers.isEmpty)

/-- the name a negative response is validated for is not on the way from the queried name -/
def StrayAlias (tx : Presentation) (msg : Message) (qname : Name) : Prop :=
  msg.isNegative = true ∧ ∀ n ∈ redirectionNames tx qname msg.answers,
    n.nameEq (negativeTarget msg qname) = false

/-- the first NSEC3 record of the section has parameters that are not supported -/
def unsupportedNsec3 (authority : List Record) : Bool :=
  match (denialRecords .NSEC3 authority).head?.bind Record.nsec3? with
  | some first => decide (first.hashAlgorithm ≠ .SHA1) || decide (maxNsec3Iterations < first.iterations)
  | none => false

/-- a response that gives `InsecureUnknown`; `old` and `new` are the traces around its validation -/
inductive UnknownCause (tx : Presentation) (old new : List Event) (msg : Message) (qname : Name)
    (qtype : RecordType) : Prop
  | responseCode : msg.responseCode ≠ .NoError → msg.responseCode ≠ .NXDomain →
      UnknownCause tx old new msg qname qtype
  | noSoa : msg.isNegative = true → msg.nameServers.any Record.isSoa = false →
      UnknownCause tx old new msg qname qtype
  | nsec3Parameters : msg.isNegative = true → unsupportedNsec3 msg.nameServers = true →
      UnknownCause tx old new msg qname qtype
  | noFinalRecord : msg.answers.any (Record.isAt (finalPair tx qname qtype msg.answers).1
      (finalPair tx qname qtype msg.answers).2) = false → UnknownCause tx old new msg qname qtype
  | noRrsig {p : Name × RecordType} : p ∈ answerPairs tx qname qtype msg.answers →
      msg.answers.any (Record.isRrsigOver p.1 p.2) = false → ChainBroken old new p.1 →
      UnknownCause tx old new msg qname qtype
  | wildcard : msg.answers.any isWildcardRrsig = true →
      (msg.nameServers.any fun r => decide (r.recordType = .NSEC3)) = true →
      UnknownCause tx old new msg qname qtype

section
variable {env : Env} {msg : Message} {qname : Name} {qtype : RecordType}

theorem DenialVerified.mono {authority : List Record} {keys : List Dnskey} {rec : Record}
    {events events' : List Event} (h : DenialVerified authority keys rec events)
    (hl : events ⊆ events') : DenialVerified authority keys rec events' := by
  obtain ⟨sigRec, sig, key, h1, h2, h3, h4, h5, h6⟩ := h
  exact ⟨sigRec, sig, key, h1, h2, h3, h4, h5, hl h6⟩

theorem InsecureProof.mono {log log' : List Event} (h : InsecureProof env log msg qname qtype)
    (hl : log ⊆ log') : InsecureProof env log' msg qname qtype := by
  cases h with
  | unsigned hn hp => exact .unsigned hn (hp.mono hl)
  | dsDenied hq ha hd => exact .dsDenied hq (ha.mono hl) (hd.mono hl)
  | optOut ha hm ht ho hv => exact .optOut (ha.mono hl) hm ht ho (hv.mono hl)

end

/-! ## denials -/

section
variable {qname : Name} {qtype : RecordType} {records : List Record} {status : DnssecStatus}

/-- `status` is `InsecureUnsigned` for `reason` only, and never `InsecureUnknown` -/
structure InsecureFor (reason : Prop) (status : DnssecStatus) : Prop where
  unsigned : status = .InsecureUnsigned → reason
  known : status ≠ .InsecureUnknown

section
variable {reason reason' : Prop}

theorem insecureFor_secure : InsecureFor reason .Secure :=
  ⟨fun he => absurd he (by decide), by decide⟩

theorem insecureFor_bogus : InsecureFor reason .Bogus :=
  ⟨fun he => absurd he (by decide), by decide⟩

theorem insecureFor_unsigned (h : reason) : InsecureFor reason .InsecureUnsigned :=
  ⟨fun _ => h, by decide⟩

theorem InsecureFor.imp (h : InsecureFor reason status) (hr : reason → reason') :
    InsecureFor reason' status :=
  ⟨fun he => hr (h.unsigned he), h.known⟩

end

/-- a bitmap gives `InsecureUnsigned` for DS only -/
theorem nodataVerdict_insecure {types : List RecordType}
    (h : nodataVerdict qtype types = some status) : InsecureFor (qtype = .DS) status := by
  simp only [nodataVerdict] at h
  split at h
  · obtain rfl := Option.some.inj h
    exact insecureFor_bogus
  · split at h
    · split at h
      · rename_i hds
        obtain rfl := Option.some.inj h
        rw [Bool.and_eq_true, decide_eq_true_eq] at hds
        exact insecureFor_unsigned hds.1
      · obtain rfl := Option.some.inj h
        exact insecureFor_secure
    · exact absurd h (by simp)

theorem nsecDenial_insecure {tx : Presentation}
    (h : nsecDenial tx qname qtype records = status) :
    InsecureFor (qtype = .DS) status := by
  subst h
  unfold nsecDenial
  split
  · rename_i s hs
    obtain ⟨r, _, _, n, _, hv⟩ := checkNsecNodata_some hs
    exact nodataVerdict_insecure hv
  · split
    · exact insecureFor_bogus
    · split
      · rename_i s hs
        rw [(checkNsecWildcardNodata_some hs).1]
        exact insecureFor_secure
      · split
        · rename_i s hs
          rw [(checkNsecNxdomain_some hs).1]
          exact insecureFor_secure
        · exact insecureFor_bogus

theorem checkNsec3Nxdomain_insecure {H : Name → Bytes} {tx : Presentation} {closest : Name}
    (h : checkNsec3Nxdomain H tx qname closest records = some status) :
    InsecureFor (∃ r ∈ records, nsec3OptOut r = true) status := by
  unfold checkNsec3Nxdomain at h
  split at h
  · obtain rfl := Option.some.inj h
    exact insecureFor_bogus
  · split at h
    · exact absurd h (by simp)
    · rename_i r hf
      split at h
      · rename_i hopt
        obtain rfl := Option.some.inj h
        exact insecureFor_unsigned ⟨r, List.mem_of_find?_eq_some hf, hopt⟩
      · split at h
        · obtain rfl := Option.some.inj h
          exact insecureFor_secure
        · obtain rfl := Option.some.inj h
          exact insecureFor_bogus

theorem nsec3Denial_insecure {H : Name → Bytes} {tx : Presentation}
    (h : nsec3Denial H tx qname qtype records = status) :
    InsecureFor (qtype = .DS ∨ ∃ r ∈ records, nsec3OptOut r = true) status := by
  subst h
  unfold nsec3Denial
  split
  · rename_i s hs
    obtain ⟨r, _, _, n, _, hv⟩ := checkNsec3Nodata_some hs
    exact (nodataVerdict_insecure hv).imp Or.inl
  · dsimp only
    split
    · exact insecureFor_bogus
    · split
      · split
        · exact insecureFor_secure
        · exact insecureFor_bogus
      · split
        · rename_i s hs
          rw [(checkNsec3WildcardNodata_some hs).1]
          exact insecureFor_secure
        · split
          · rename_i s hs
            exact (checkNsec3Nxdomain_insecure hs).imp Or.inr
          · exact insecureFor_bogus

end

section
variable {env : Env} {keys : List Dnskey} {target : Name} {qtype : RecordType}
  {authority : List Record} {st st' : State} {status : DnssecStatus}

/-- `InsecureUnknown` of `validate_nsec3` comes from the parameters alone -/
theorem validateNsec3_unknown
    (h : validateNsec3 env keys target qtype authority st = (.InsecureUnknown, st')) :
    unsupportedNsec3 authority = true := by
  have hs := congrArg Prod.fst h
  have hbogus : ¬ (DnssecStatus.Bogus = .InsecureUnknown) := by decide
  simp only [validateNsec3, nsec3Body] at hs
  unfold unsupportedNsec3
  cases hrec : denialRecords .NSEC3 authority with
  | nil => rw [hrec] at hs; exact absurd hs hbogus
  | cons r rest =>
    simp only [hrec] at hs
    cases hd : r.data with
    | nsec3 first =>
      simp only [hd] at hs
      simp only [List.head?_cons, Option.bind_some, Record.nsec3?, hd]
      by_cases halg : first.hashAlgorithm = .SHA1
      · by_cases hit : maxNsec3Iterations < first.iterations
        · simp [hit]
        · simp only [halg, ne_eq, not_true_eq_false, if_false, hit] at hs
          split at hs
          · exact absurd hs hbogus
          · split at hs
            · exact absurd hs hbogus
            · exact absurd hs (nsec3Denial_insecure rfl).known
      · simp [halg]
    | _ => simp [hd] at hs

theorem negativeProof_sigOnly (st : State) :
    SigOnly (fun _ => True) st (negativeProof env keys target qtype authority st).2 := by
  unfold negativeProof
  split
  · exact (validateNsec3_sigOnly st).mono fun _ _ => trivial
  · split
    · exact (validateNsec_sigOnly st).mono fun _ _ => trivial
    · exact SigOnly.refl _

theorem ProofTrace.dsDenied {kind : DenialKind} {t : RecordType} {log log' : List Event}
    (h : ProofTrace kind t keys target .DS authority .InsecureUnsigned log log') :
    DsDenied log' keys target .InsecureUnsigned := by
  obtain ⟨checks, rfl, _, _⟩ := h
  exact ⟨kind, authority, by simp⟩

theorem ProofTrace.denialVerified {kind : DenialKind} {t : RecordType} {log log' : List Event}
    (h : ProofTrace kind t keys target qtype authority status log log') :
    ∀ rec ∈ denialRecords t authority, DenialVerified authority keys rec log' := by
  obtain ⟨checks, rfl, _, hv⟩ := h
  intro rec hrec
  refine (hv rec hrec).mono fun e he => ?_
  exact List.mem_append_right _ (List.mem_cons_of_mem _ (List.mem_append_left _ he))

/-- the two ways a denial proof ends in `InsecureUnsigned` -/
theorem negativeProof_unsigned
    (h : negativeProof env keys target qtype authority st = (.InsecureUnsigned, st')) :
    (qtype = .DS ∧ DsDenied st'.log keys target .InsecureUnsigned) ∨
      ∃ rec ∈ denialRecords .NSEC3 authority, nsec3OptOut rec = true ∧
        DenialVerified authority keys rec st'.log := by
  unfold negativeProof at h
  split at h
  · obtain ⟨⟨first, _, _, hden⟩, htrace⟩ := validateNsec3_cases h (by decide) (by decide)
    rcases (nsec3Denial_insecure hden).unsigned rfl with rfl | ⟨rec, hrec, hopt⟩
    · exact Or.inl ⟨rfl, htrace.dsDenied⟩
    · exact Or.inr ⟨rec, hrec, hopt, htrace.denialVerified rec hrec⟩
  · split at h
    · obtain ⟨hden, htrace⟩ := validateNsec_cases h (by decide)
      obtain rfl := (nsecDenial_insecure hden).unsigned rfl
      exact Or.inl ⟨rfl, htrace.dsDenied⟩
    · exact absurd (Prod.mk.inj h).1 (by decide)

theorem negativeProof_unknown
    (h : negativeProof env keys target qtype authority st = (.InsecureUnknown, st')) :
    unsupportedNsec3 authority = true := by
  unfold negativeProof at h
  split at h
  · exact validateNsec3_unknown h
  · split at h
    · obtain ⟨hden, _⟩ := validateNsec_cases h (by decide)
      exact absurd rfl (nsecDenial_insecure hden).known
    · exact absurd (Prod.mk.inj h).1 (by decide)

end

/-! ## messages -/

/-- what a verdict on a message rests on -/
structure VerdictOk (env : Env) (msg : Message) (qname : Name) (qtype : RecordType)
    (st : State) (status : DnssecStatus) (st' : State) : Prop where
  run : Validates env (fun _ => True) st st'
  unsigned : status = .InsecureUnsigned → CachesOk env st →
    StrayAlias env.text msg qname ∨ InsecureProof env st'.log msg qname qtype
  unknown : status = .InsecureUnknown → UnknownCause env.text st.log st'.log msg qname qtype

section
variable {env : Env} {msg : Message} {qname : Name} {qtype : RecordType} {st st' : State}
  {status : DnssecStatus}

theorem insecureProof_of_zone {zone : Name} {log : List Event} (hneg : msg.isNegative = true)
    (hzone : zone.zoneOf (negativeTarget msg qname) = true ∨ zone.zoneOf qname = true)
    (hproof : ProvenUnsigned env.crypto log zone) :
    StrayAlias env.text msg qname ∨ InsecureProof env log msg qname qtype := by
  rcases hzone with hz | hz
  · by_cases hon : ∃ n ∈ redirectionNames env.text qname msg.answers,
        n.nameEq (negativeTarget msg qname) = true
    · obtain ⟨n, hn, he⟩ := hon
      refine Or.inr (.unsigned hn (hproof.below (Name.zoneOf_trans hz ?_)))
      exact Name.zoneOf_of_nameEq (Name.nameEq_symm he)
    · refine Or.inl ⟨hneg, fun n hn => ?_⟩
      by_contra hne
      exact hon ⟨n, hn, by simpa using hne⟩
  · exact Or.inr (.unsigned (List.mem_cons_self ..) (hproof.below hz))

/-- `Bogus` needs no reason -/
theorem VerdictOk.bogus (h : Validates env (fun _ => True) st st') :
    VerdictOk env msg qname qtype st .Bogus st' :=
  ⟨h, fun he => absurd he (by decide), fun he => absurd he (by decide)⟩

theorem soa_above {zone target : Name} (h : ¬ (!zone.zoneOf target && !zone.nameEq target &&
    !zone.zoneOf qname && !zone.nameEq qname) = true) :
    zone.zoneOf target = true ∨ zone.zoneOf qname = true := by
  have heq : ∀ n, zone.zoneOf n = false → zone.nameEq n = false := by
    intro n hz
    by_contra he
    rw [Bool.not_eq_false] at he
    rw [Name.zoneOf_of_nameEq he] at hz
    exact absurd hz (by decide)
  by_contra hno
  rw [not_or, Bool.not_eq_true, Bool.not_eq_true] at hno
  refine h ?_
  rw [hno.1, hno.2, heq _ hno.1, heq _ hno.2]
  rfl

theorem negativeProof_ok {keys : List Dnskey} {zone : Name} {s : State}
    (hneg : msg.isNegative = true) (hpre : Validates env (fun _ => True) st s)
    (hkeys : CachesOk env st → Authentic env.crypto s.log keys zone)
    (h : negativeProof env keys (negativeTarget msg qname) qtype msg.nameServers s =
      (status, st')) : VerdictOk env msg qname qtype st status st' := by
  have hrun : SigOnly (fun _ => True) s (negativeProof env keys (negativeTarget msg qname) qtype
      msg.nameServers s).2 := negativeProof_sigOnly s
  rw [h] at hrun
  refine ⟨hpre.trans (Validates.of_sigOnly hrun), fun he hc => Or.inr ?_, fun he => ?_⟩
  · subst he
    have hauth := (hkeys hc).mono hrun.log.subset
    rcases negativeProof_unsigned h with ⟨hq, hd⟩ | ⟨rec, hrec, hopt, hver⟩
    · exact .dsDenied hq hauth hd
    · obtain ⟨hmem, ht⟩ := mem_denialRecords hrec
      exact .optOut hauth hmem ht hopt hver
  · subst he
    exact .nsec3Parameters hneg (negativeProof_unknown h)

theorem validateNegative_ok (hneg : msg.isNegative = true)
    (h : validateNegative env msg qname qtype st = (status, st')) :
    VerdictOk env msg qname qtype st status st' := by
  unfold validateNegative at h
  split at h
  · rename_i hsoa
    obtain ⟨rfl, rfl⟩ := Prod.mk.inj h
    refine ⟨Validates.refl _, fun he => absurd he (by decide), fun _ => .noSoa hneg ?_⟩
    simpa using hsoa
  · rename_i soa hsoa
    dsimp only at h
    split at h
    · obtain ⟨rfl, rfl⟩ := Prod.mk.inj h
      exact VerdictOk.bogus (Validates.refl _)
    · rename_i hauth
      have hchain := buildTrustChain_validates (P := fun _ => True) env soa.name st
      have hok := buildTrustChain_ok env soa.name st
      split at h
      · rename_i ttl st₁ hb
        obtain ⟨rfl, rfl⟩ := Prod.mk.inj h
        rw [hb] at hchain hok
        exact ⟨hchain, fun _ hc => insecureProof_of_zone hneg (soa_above hauth)
          ((hok hc.keys).unsigned ttl rfl), fun he => absurd he (by decide)⟩
      · rename_i st₁ hb
        obtain ⟨rfl, rfl⟩ := Prod.mk.inj h
        rw [hb] at hchain
        exact VerdictOk.bogus hchain
      · rename_i keys ttl st₁ hb
        rw [hb] at hchain hok
        have hcheck := (verifyNegativeRrset_sigOnly env msg.nameServers keys soa st₁).mono
          (Q := fun _ => True) fun _ _ => trivial
        split at h
        · rename_i st₂ hv
          obtain ⟨rfl, rfl⟩ := Prod.mk.inj h
          rw [hv] at hcheck
          exact VerdictOk.bogus (hchain.trans (Validates.of_sigOnly hcheck))
        · rename_i st₂ hv
          rw [hv] at hcheck
          have hkeys : CachesOk env st → Authentic env.crypto st₂.log keys soa.name :=
            fun hc => ((hok hc.keys).trusted keys ttl rfl).mono hcheck.log.subset
          exact negativeProof_ok hneg (hchain.trans (Validates.of_sigOnly hcheck)) hkeys h

theorem wildcardOptoutCheck_some {answers : List Record} {s : DnssecStatus}
    (h : wildcardOptoutCheck msg answers = some s) :
    s = .InsecureUnknown ∧ answers.any isWildcardRrsig = true ∧
      (msg.nameServers.any fun r => decide (r.recordType = .NSEC3)) = true := by
  unfold wildcardOptoutCheck at h
  split at h
  · exact absurd h (by simp)
  · rename_i hw
    split at h
    · exact absurd h (by simp)
    · rename_i hn
      have hs : s = .InsecureUnknown := by split at h <;> exact (Option.some.inj h).symm
      exact ⟨hs, by simpa using hw, by simpa using hn⟩

theorem validatePositive_ok (h : validateAnswer env qname qtype msg.answers st = (status, st')) :
    VerdictOk env msg qname qtype st status st' := by
  have hok := validateAnswer_ok h
  refine ⟨hok.run.mono fun _ _ => trivial, fun he hc => Or.inr ?_, fun he => ?_⟩
  · obtain ⟨p, hp, hproof⟩ := hok.unsigned he hc
    obtain ⟨n, hn, hz⟩ := answerPairs_above hp
    exact .unsigned hn (hproof.below hz)
  · rcases hok.unknown he with hf | ⟨p, hp, hr, hbroken⟩
    · exact .noFinalRecord hf
    · exact .noRrsig hp hr hbroken

/-- **Every verdict on a message has its reason.** -/
theorem validateMessageWithBudget_ok
    (h : validateMessageWithBudget env msg qname qtype st = (status, st')) :
    VerdictOk env msg qname qtype st status st' := by
  unfold validateMessageWithBudget at h
  split at h
  · rename_i hrc
    exact validateNegative_ok (by simp [Message.isNegative, hrc]) h
  · rename_i hrc
    split at h
    · rename_i hemp
      exact validateNegative_ok (by simp [Message.isNegative, hrc, hemp]) h
    · split at h
      · rename_i st₁ hv
        have hok := validatePositive_ok hv
        cases hw : wildcardOptoutCheck msg msg.answers with
        | none =>
          rw [hw] at h
          obtain ⟨rfl, rfl⟩ := Prod.mk.inj h
          exact hok
        | some s =>
          obtain ⟨rfl, h1, h2⟩ := wildcardOptoutCheck_some hw
          rw [hw] at h
          obtain ⟨rfl, rfl⟩ := Prod.mk.inj h
          exact ⟨hok.run, fun he => absurd he (by decide), fun _ => .wildcard h1 h2⟩
      · rename_i s st₁ _ hv
        obtain ⟨rfl, rfl⟩ := Prod.mk.inj h
        exact validatePositive_ok hv
  · rename_i hno hnx
    obtain ⟨rfl, rfl⟩ := Prod.mk.inj h
    exact ⟨Validates.refl _, fun he => absurd he (by decide), fun _ => .responseCode hnx hno⟩

end
end DnsResolver
