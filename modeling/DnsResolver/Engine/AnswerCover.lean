import DnsResolver.Engine.Response
import DnsResolver.Dnssec.AnswerRun
import DnsResolver.Dnssec.WildcardAnswer

/-!
# What `AD` covers

A Secure answer is one whose RRsets in `answerPairs` verified.  The response to a client carries
the whole answer section.

* `AllAuthenticated`   every record but the RRSIGs is in an RRset that verified, or is a CNAME
                       that a DNAME in such an RRset stands for;
* `AllChecked`         every record but the RRSIGs is in an RRset that is checked, of one class,
                       or is a CNAME that a DNAME in such an RRset stands for;
* `answer_covered`     the second is enough for the first, and for plain answers also necessary;
* `strangerMsg`        a Secure answer with a record nobody signed.
-/

namespace DnsResolver
open Trace

/-! ## two readings of "covered" -/

/-- `verify_rrsig` returned true on an RRset that has `r` -/
def Authenticated (log : List Event) (r : Record) : Prop :=
  ∃ sig key rec records, .sigCheck sig key rec records true ∈ log ∧ r ∈ tbsRrset rec sig records

/-- `r` is the CNAME that the DNAME `d` above it stands for -/
def SynthesisedFrom (tx : Presentation) (d r : Record) : Prop :=
  ∃ target name sub, d.recordType = .DNAME ∧ d.dnsClass = r.dnsClass ∧
    extractDnameTarget d = some target ∧ dnameSubstitute tx r.name d.name target = .ok sub ∧
    r.data = .cname name ∧ name.nameEq sub = true

def AllAuthenticated (tx : Presentation) (log : List Event) (answers : List Record) : Prop :=
  ∀ r ∈ answers, r.recordType ≠ .RRSIG →
    Authenticated log r ∨ ∃ d ∈ answers, Authenticated log d ∧ SynthesisedFrom tx d r

/-- `r` is in one of the RRsets `pairs`, and all of that RRset has its class -/
def CheckedWith (pairs : List (Name × RecordType)) (answers : List Record) (r : Record) : Prop :=
  ∃ p ∈ pairs, r.isAt p.1 p.2 = true ∧
    ∀ r' ∈ answers, r'.isAt p.1 p.2 = true → r'.dnsClass = r.dnsClass

def AllChecked (tx : Presentation) (pairs : List (Name × RecordType)) (answers : List Record) :
    Prop :=
  ∀ r ∈ answers, r.recordType ≠ .RRSIG →
    CheckedWith pairs answers r ∨ ∃ d ∈ answers, CheckedWith pairs answers d ∧ SynthesisedFrom tx d r

/-- nothing in the section is verified by way of a trust chain, and no RRset mixes classes -/
structure PlainAnswers (pairs : List (Name × RecordType)) (answers : List Record) : Prop where
  chain : ∀ r ∈ answers, r.recordType ∈ chainTypes → ∃ p ∈ pairs, r.isAt p.1 p.2 = true
  classes : ∀ r ∈ answers, ∀ r' ∈ answers, r'.name.nameEq r.name = true →
    r'.recordType = r.recordType → r'.dnsClass = r.dnsClass

/-! ## from one to the other -/

section
variable {cr : Crypto} {answers : List Record} {pairs : List (Name × RecordType)} {r : Record}

theorem Checked.authenticated {log : List Event} {owner : Name} {t : RecordType} {sig : Rrsig}
    {key : Dnskey} {rec : Record} (h : Checked cr log owner t answers sig key rec)
    (hr : r ∈ answers) (hat : r.isAt owner t = true)
    (hcls : ∀ r' ∈ answers, r'.isAt owner t = true → r'.dnsClass = r.dnsClass) :
    Authenticated log r := by
  obtain ⟨tbs, htbs, _⟩ := signatureValid_tbs h.valid
  obtain ⟨s, hs, hname, htype⟩ := Record.isRrsigOver_iff.mp h.rrsig
  obtain rfl := RData.rrsig.inj (hs.symm.trans h.data)
  obtain ⟨r₀, hr₀⟩ := buildTbsManual_nonempty h.data htbs
  obtain ⟨hmem, _, _, hcls₀⟩ := mem_tbsRrset.mp hr₀
  obtain ⟨hmem₀, hat₀⟩ := List.mem_filter.mp hmem
  obtain ⟨hname', htype'⟩ := Record.isAt_iff.mp hat
  refine ⟨s, key, rec, _, h.event, mem_tbsRrset.mpr ⟨List.mem_filter.mpr ⟨hr, hat⟩, ?_, ?_, ?_⟩⟩
  · exact Name.nameEq_trans hname' (Name.nameEq_symm hname)
  · exact htype'.trans htype.symm
  · exact (hcls r₀ hmem₀ hat₀).symm.trans hcls₀

theorem Authenticated.checkedWith {log : List Event}
    (hlog : ∀ e ∈ log, IsAnyChainEvent e ∨ IsPairCheck answers pairs e)
    (hplain : PlainAnswers pairs answers) (hr : r ∈ answers) (h : Authenticated log r) :
    CheckedWith pairs answers r := by
  obtain ⟨p, hp, hat⟩ : ∃ p ∈ pairs, r.isAt p.1 p.2 = true := by
    obtain ⟨sig, key, rec, records, hev, hmem⟩ := h
    have hrec := (mem_tbsRrset.mp hmem).1
    rcases hlog _ hev with hc | ⟨p, hp, _, _, _, _, he⟩
    · exact hplain.chain r hr (hc r hrec)
    · obtain ⟨_, _, _, hrecords, _⟩ := Event.sigCheck.inj he
      rw [hrecords] at hrec
      exact ⟨p, hp, (List.mem_filter.mp hrec).2⟩
  refine ⟨p, hp, hat, fun r' hr' hat' => ?_⟩
  obtain ⟨hn, ht⟩ := Record.isAt_iff.mp hat
  obtain ⟨hn', ht'⟩ := Record.isAt_iff.mp hat'
  exact hplain.classes r hr r' hr' (Name.nameEq_trans hn' (Name.nameEq_symm hn))
    (ht'.trans ht.symm)

end

/-- **What a Secure answer covers.**  If every record but the RRSIGs is in an RRset that is
checked, of one class, or is synthesised from one, then every record but the RRSIGs was
authenticated in this validation or is synthesised from one that was; for plain answers the
converse holds too. -/
theorem answer_covered {env : Env} {msg : Message} {qname : Name} {qtype : RecordType}
    {st st' : State} (hrc : msg.responseCode = .NoError) (hne : msg.answers ≠ [])
    (hsecure : validateMessageWithBudget env msg qname qtype { st with log := [] } =
      (.Secure, st')) :
    (AllChecked env.text (answerPairs env.text qname qtype msg.answers) msg.answers →
        AllAuthenticated env.text st'.log msg.answers) ∧
      (PlainAnswers (answerPairs env.text qname qtype msg.answers) msg.answers →
        AllAuthenticated env.text st'.log msg.answers →
        AllChecked env.text (answerPairs env.text qname qtype msg.answers) msg.answers) := by
  have hok := validateAnswer_ok (validateMessage_answer_secure hrc hne hsecure).1
  constructor
  · intro hall r hr hrr
    have hauth : ∀ r ∈ msg.answers, CheckedWith (answerPairs env.text qname qtype msg.answers)
        msg.answers r → Authenticated st'.log r := by
      rintro r hr ⟨p, hp, hat, hcls⟩
      obtain ⟨sig, key, rec, hc⟩ := hok.secure rfl p hp
      exact hc.authenticated hr hat hcls
    rcases hall r hr hrr with hc | ⟨d, hd, hc, hsyn⟩
    · exact Or.inl (hauth r hr hc)
    · exact Or.inr ⟨d, hd, hauth d hd hc, hsyn⟩
  · intro hplain hall r hr hrr
    have hlog : ∀ e ∈ st'.log, IsAnyChainEvent e ∨
        IsPairCheck msg.answers (answerPairs env.text qname qtype msg.answers) e := by
      intro e he
      rcases hok.run.log.mem he with h | h
      · exact absurd h (by simp)
      · exact h
    rcases hall r hr hrr with hc | ⟨d, hd, hc, hsyn⟩
    · exact Or.inl (hc.checkedWith hlog hplain hr)
    · exact Or.inr ⟨d, hd, hc.checkedWith hlog hplain hd, hsyn⟩

/-! ## an answer of the root zone -/

/-- `h.` -/
def hostName : Name := ⟨[[104]], by decide⟩

/-- `s.` -/
def strangerName : Name := ⟨[[115]], by decide⟩

def addressRecord (owner : Name) : Record where
  name := owner
  ttl := 3600
  data := .a ⟨#v[203, 0, 113, 7]⟩

/-- the root answers with its key; the address of `h.` is signed -/
def hostEnv : Env where
  crypto := signedOnly
    [rootKeysTbs, buildTbsManual (rootRrsig hostName .A .IN) [addressRecord hostName]]
  text := noText
  nowSecs := fun _ => 1000
  resolve := fun _ n t =>
    if n.isRoot && decide (t = .DNSKEY) then
      .ok { answers := [rootKskRecord, rootRrsig .root .DNSKEY .IN] }
    else if decide (t = .DS) then
      .error .NoProgress
    else .error .AllNameserversFailed

/-- an answer for `h.` with the records `extra` behind it -/
def hostMsg (extra : List Record) : Message where
  messageType := .Response
  answers := addressRecord hostName :: rootRrsig hostName .A .IN :: extra

def hostRun (extra : List Record) : DnssecStatus × State :=
  validateMessageWithBudget hostEnv (hostMsg extra) hostName .A {}

theorem hostRun_covered :
    (hostRun []).1 = .Secure ∧
      AllAuthenticated noText (hostRun []).2.log (hostMsg []).answers := by
  have hs : (hostRun []).1 = .Secure := by decide +kernel
  have hrun : validateMessageWithBudget hostEnv (hostMsg []) hostName .A
      { ({} : State) with log := [] } = (.Secure, (hostRun []).2) := by
    rw [← hs, hostRun]
  refine ⟨hs, (answer_covered rfl (by simp [hostMsg]) hrun).1 fun r hr hrr => Or.inl ?_⟩
  have hpair : (hostName, RecordType.A) ∈ answerPairs noText hostName .A (hostMsg []).answers := by
    decide +kernel
  have hone : ∀ r ∈ (hostMsg []).answers, r.isAt hostName .A = true → r.dnsClass = .IN := by
    decide +kernel
  have hr' : r = addressRecord hostName := by
    rcases List.mem_cons.mp hr with rfl | hr
    · rfl
    · rw [List.mem_singleton.mp hr] at hrr
      exact absurd rfl hrr
  subst hr'
  exact ⟨_, hpair, by decide +kernel, fun r' hm hat => hone r' hm hat⟩

/-- a client that asks for DNSSEC records -/
def doClient : ClientView where
  reqMsg := { id := 7, queries := [{ name := hostName, queryType := .A }] }
  maxPayload := 1232
  dnssecOk := true

/-- the address of `s.` is in the answer section, in the response with `AD`, and in no RRset that
verified -/
theorem strangerMsg_not_covered :
    (hostRun [addressRecord strangerName]).1 = .Secure ∧
      ¬ AllAuthenticated noText (hostRun [addressRecord strangerName]).2.log
        (hostMsg [addressRecord strangerName]).answers ∧
      (clientResponse (hostMsg [addressRecord strangerName]) .A .Secure .Fresh 1000 doClient
        1000).authenticData = true ∧
      addressRecord strangerName ∈ (clientResponse (hostMsg [addressRecord strangerName]) .A
        .Secure .Fresh 1000 doClient 1000).answers := by
  refine ⟨by decide +kernel, fun hall => ?_, by decide +kernel, by decide +kernel⟩
  have hnone : (hostRun [addressRecord strangerName]).2.log.all fun e =>
      decide (addressRecord strangerName ∉ e.verifiedRecords) := by decide +kernel
  rcases hall (addressRecord strangerName) (by simp [hostMsg]) (by decide) with
    ⟨sig, key, rec, records, hev, hmem⟩ | ⟨d, _, _, _, _, _, _, _, _, _, hd, _⟩
  · have h := List.all_eq_true.mp hnone _ hev
    exact absurd (mem_tbsRrset.mp hmem).1 (of_decide_eq_true h)
  · exact absurd hd (by simp [addressRecord])

end DnsResolver
