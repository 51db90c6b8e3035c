import DnsResolver.Dnssec.AnswerRun
import DnsResolver.Dnssec.ParentSide
import DnsResolver.Dnssec.RedirectionChain

/-!
# Answers through a DNAME

A signed DNAME comes with a CNAME that a server, or the recursor itself, synthesised from it.
Nobody signs that CNAME.  The validator has a branch for it, but only for DNAME steps, and the
chain has a DNAME step only where there is no CNAME: with the synthesised record in the section
the step is a plain alias, and a plain alias needs a signature of its own.

* `ValidlySigned`             an RRset with an RRSIG under a key the chain of trust gives;
* `SignedDnameAnswer`         DNAME hops from the queried name to an RRset of the queried type, all
                              validly signed, with the synthesised CNAMEs;
* `signedDname_not_secure`    such an answer is never Secure;
* `dnameRun_bogus`            one of them.
-/

namespace DnsResolver

section
variable (env : Env) (st : State) (answers : List Record)

/-- the section has an RRSIG over the RRset that is in date at all times and verifies under a key
of its signer, and the chain of trust from `st` gives that key -/
def ValidlySigned (owner : Name) (t : RecordType) : Prop :=
  ∃ rec ∈ answers, ∃ sig key keys ttl, rec.isRrsigOver owner t = true ∧ rec.data = .rrsig sig ∧
    (∀ tick, isCandidate (env.nowSecs tick) owner rec = true) ∧
    (buildTrustChain env sig.signerName st).1 = .Trusted keys ttl ∧ key ∈ keys ∧
    keyTagMatches env.crypto key sig.keyTag = true ∧
    signatureValid env.crypto sig key rec (answers.filter (Record.isAt owner t)) = true

/-- a DNAME at `owner` redirects `q` to `next`; the synthesised CNAME is there without an RRSIG -/
structure DnameHop (q owner next : Name) : Prop where
  above : owner.zoneOf q = true
  proper : owner.nameEq q = false
  signed : ValidlySigned env st answers owner .DNAME
  substitute : ∃ r ∈ answers, r.name.nameEq owner = true ∧ ∃ target,
    extractDnameTarget r = some target ∧ dnameSubstitute env.text q owner target = .ok next
  synthesised : ∃ r ∈ answers, r.name.nameEq q = true ∧ r.data = .cname next
  unsigned : answers.any (Record.isRrsigOver q .CNAME) = false

/-- one hop or more -/
inductive DnameHops : Name → Name → Prop
  | one {q owner next : Name} : DnameHop env st answers q owner next → DnameHops q next
  | cons {q owner next last : Name} : DnameHop env st answers q owner next →
      DnameHops next last → DnameHops q last

/-- hops from the queried name to a validly signed RRset of the queried type -/
def SignedDnameAnswer (qname : Name) (qtype : RecordType) : Prop :=
  ∃ last, DnameHops env st answers qname last ∧ ValidlySigned env st answers last qtype

end

section
variable {env : Env} {st st' : State} {answers : List Record} {q : Name} {qtype : RecordType}

theorem answerChain_cname {chain : List RedirectionStep}
    (hc : ∃ r ∈ answers, r.name.nameEq q = true ∧ ∃ target, r.data = .cname target)
    (h : collectRedirectionChain env.text q answers = .Complete chain) :
    ∃ target rest, chain = .Cname q target :: rest := by
  obtain ⟨target, ht⟩ : ∃ target, cnameTarget q answers = some target := by
    obtain ⟨r, hr, hn, target, hd⟩ := hc
    refine Option.isSome_iff_exists.mp ?_
    rw [cnameTarget, List.findSome?_isSome_iff]
    refine ⟨r, hr, ?_⟩
    have hty : r.recordType = .CNAME := by rw [Record.recordType, hd]; rfl
    rw [hn, hty, Record.cname?, hd]
    rfl
  have hstep : redirection env.text q answers = some (.Cname q target) := by
    rw [redirection, ht]
  obtain ⟨last, hp, hstop, _⟩ := collectRedirectionChain_complete.mp h
  cases hp with
  | nil => exact absurd (hstep.symm.trans hstop) (by simp)
  | cons hs _ =>
    obtain rfl := Option.some.inj (hstep.symm.trans hs)
    exact ⟨target, _, rfl⟩

theorem unsigned_alias_not_secure
    (hc : ∃ r ∈ answers, r.name.nameEq q = true ∧ ∃ target, r.data = .cname target)
    (hu : answers.any (Record.isRrsigOver q .CNAME) = false) :
    (validateAnswer env q qtype answers st).1 ≠ .Secure := by
  intro hs
  have hrun : validateAnswer env q qtype answers st =
      (.Secure, (validateAnswer env q qtype answers st).2) := by rw [← hs]
  have hpair : (q, RecordType.CNAME) ∈ answerPairs env.text q qtype answers := by
    by_cases hr : qtype = .CNAME
    · subst hr
      rw [answerPairs, finalPair, answerChain, if_pos rfl]
      exact List.mem_singleton.mpr rfl
    · cases hch : collectRedirectionChain env.text q answers with
      | Complete chain =>
        obtain ⟨target, rest, rfl⟩ := answerChain_cname hc hch
        rw [answerPairs, answerChain, if_neg hr, hch]
        exact List.mem_append_left _ (List.mem_flatMap.mpr
          ⟨_, List.mem_cons_self, List.mem_singleton.mpr rfl⟩)
      | Loop =>
        rw [validateAnswer, if_neg hr, hch] at hs
        exact absurd (show DnssecStatus.Bogus = .Secure from hs) (by decide)
      | TooLong =>
        rw [validateAnswer, if_neg hr, hch] at hs
        exact absurd (show DnssecStatus.Bogus = .Secure from hs) (by decide)
  obtain ⟨sig, key, rec, hcheck⟩ := (validateAnswer_ok hrun).secure rfl _ hpair
  have hover := hcheck.rrsig
  rw [List.any_eq_false.mp hu rec hcheck.mem |> Bool.eq_false_iff.mpr] at hover
  exact absurd hover (by decide)

end

/-- **A signed DNAME redirection never validates.**  Whatever the order of the records, the number
of hops, the caches and the budget, an answer with DNAME hops from the queried name to an RRset of
the queried type, all validly signed, and with the CNAMEs synthesised from the DNAMEs is not
Secure. -/
theorem signedDname_not_secure {env : Env} {st : State} {answers : List Record} {qname : Name}
    {qtype : RecordType} (h : SignedDnameAnswer env st answers qname qtype) (st' : State) :
    (validateAnswer env qname qtype answers st').1 ≠ .Secure := by
  have hfirst : ∃ owner next, DnameHop env st answers qname owner next := by
    obtain ⟨last, hh, _⟩ := h
    cases hh with
    | one hop => exact ⟨_, _, hop⟩
    | cons hop _ => exact ⟨_, _, hop⟩
  obtain ⟨owner, next, hop⟩ := hfirst
  obtain ⟨r, hr, hn, hd⟩ := hop.synthesised
  exact unsigned_alias_not_secure ⟨r, hr, hn, next, hd⟩ hop.unsigned

/-! ## a name moved by the root -/

/-- `d.`, redirected to `t.` -/
def movedName : Name := tld [100]
def targetName : Name := tld [116]

/-- `q.d.` -/
def belowMoved : Name := ⟨[[113], [100]], by decide⟩

/-- `q.t.` -/
def belowTarget : Name := ⟨[[113], [116]], by decide⟩

def movedDname : Record where
  name := movedName
  ttl := 3600
  data := .other .DNAME targetName.wire

def movedCname : Record where
  name := belowMoved
  ttl := 3600
  data := .cname belowTarget

def movedAddress : Record where
  name := belowTarget
  ttl := 3600
  data := .a ⟨#v[192, 0, 2, 81]⟩

/-- the DNAME and the address are signed by the root, the CNAME is not signed -/
def movedAnswers : List Record :=
  [movedDname, rootRrsig movedName .DNAME .IN, movedCname, movedAddress,
    rootRrsig belowTarget .A .IN]

def rootSoaRecord : Record where
  name := .root
  ttl := 3600
  data := .soa { mname := .root, rname := .root, serial := 1, refresh := 1800, retry := 900,
                 expire := 604800, minimum := 86400 }

/-- the root answers with its key, and with its SOA where there is none -/
def movedEnv : Env where
  crypto := signedOnly [rootKeysTbs,
    buildTbsManual (rootRrsig movedName .DNAME .IN) [movedDname],
    buildTbsManual (rootRrsig belowTarget .A .IN) [movedAddress]]
  text := plainText
  nowSecs := fun _ => 1000
  resolve := fun tick n t =>
    if t = .SOA then .ok { nameServers := [rootSoaRecord] } else rootEnv.resolve tick n t

theorem movedAnswers_signed : SignedDnameAnswer movedEnv {} movedAnswers belowMoved .A := by
  have htrust : (buildTrustChain movedEnv .root {}).1 = .Trusted [rootKsk] 3600 := by
    decide +kernel
  have hdate : isCandidate 1000 movedName (rootRrsig movedName .DNAME .IN) = true ∧
      isCandidate 1000 belowTarget (rootRrsig belowTarget .A .IN) = true := by decide +kernel
  have hmoved : ValidlySigned movedEnv {} movedAnswers movedName .DNAME :=
    ⟨rootRrsig movedName .DNAME .IN, by decide +kernel, _, rootKsk, [rootKsk], 3600,
      by decide +kernel, rfl, fun _ => hdate.1, htrust, List.mem_singleton.mpr rfl,
      by decide +kernel, by decide +kernel⟩
  have htarget : ValidlySigned movedEnv {} movedAnswers belowTarget .A :=
    ⟨rootRrsig belowTarget .A .IN, by decide +kernel, _, rootKsk, [rootKsk], 3600,
      by decide +kernel, rfl, fun _ => hdate.2, htrust, List.mem_singleton.mpr rfl,
      by decide +kernel, by decide +kernel⟩
  refine ⟨belowTarget, .one ⟨by decide, by decide, hmoved, ?_, ?_, by decide +kernel⟩, htarget⟩
  · exact ⟨movedDname, by decide +kernel, by decide, targetName, by decide +kernel,
      by decide +kernel⟩
  · exact ⟨movedCname, by decide +kernel, by decide, rfl⟩

/-- the redirection of `q.d.` is Bogus although everything that can be signed is -/
theorem dnameRun_bogus :
    SignedDnameAnswer movedEnv {} movedAnswers belowMoved .A ∧
      (validateAnswer movedEnv belowMoved .A movedAnswers {}).1 = .Bogus ∧
      (validateAnswer movedEnv belowMoved .A movedAnswers {}).2.budget.refused = false :=
  ⟨movedAnswers_signed, by decide +kernel, by decide +kernel⟩

theorem dnameRun_not_secure :
    SignedDnameAnswer movedEnv {} movedAnswers belowMoved .A ∧
      (validateAnswer movedEnv belowMoved .A movedAnswers {}).1 ≠ .Secure :=
  ⟨movedAnswers_signed, signedDname_not_secure movedAnswers_signed {}⟩

end DnsResolver
