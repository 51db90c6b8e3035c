import DnsResolver.Dnssec.AnswerRun

/-!
# Where checked records come from

The validation of an answer checks signatures over RRsets of the answer section and over RRsets
of the responses it asks the recursor for, and over nothing else: it does not look at the
authority section of the message.

* `Received`               a record of a response of the recursor;
* `ChecksOnly src`         events whose checked records all satisfy `src`;
* `validateAnswer_trail`   the validation of an answer leaves such events only.
-/

namespace DnsResolver
open Trace

/-- the recursor returned a message with this record -/
def Received (env : Env) (r : Record) : Prop :=
  ∃ tick name rtype msg, env.resolve tick name rtype = .ok msg ∧
    (r ∈ msg.answers ∨ r ∈ msg.nameServers)

/-- every record whose signature is checked satisfies `src` -/
def ChecksOnly (src : Record → Prop) : Event → Prop
  | .sigCheck _ _ _ records _ => ∀ r ∈ records, src r
  | _ => True

def Trail (src : Record → Prop) (s s' : State) : Prop := Grew (ChecksOnly src) s.log s'.log

section
variable {src : Record → Prop} {s s₁ s₂ : State}

theorem Trail.refl (s : State) : Trail src s s := Grew.refl _

theorem Trail.trans (h : Trail src s s₁) (h' : Trail src s₁ s₂) : Trail src s s₂ :=
  Grew.trans h h'

theorem Trail.next : Trail src s s.next := Grew.refl _

theorem Trail.push {e : Event} (he : ChecksOnly src e) : Trail src s (s.push e) := Grew.push he

theorem Trail.of_checks {records : List Record} (h : SigOnly (IsCheckOf records) s s₁)
    (hr : ∀ r ∈ records, src r) : Trail src s s₁ := by
  refine h.log.mono fun e he => ?_
  obtain ⟨sig, key, rec, ok, rfl⟩ := he
  exact hr

theorem Trail.of_denial {kind : DenialKind} {t : RecordType} {keys : List Dnskey} {qname : Name}
    {qtype : RecordType} {authority : List Record}
    (h : SigOnly (IsDenialEvent kind t keys qname qtype authority) s s₁)
    (hr : ∀ r ∈ authority, src r) : Trail src s s₁ := by
  refine h.log.mono fun e he => ?_
  rcases he with ⟨rec, _, sig, key, rec', ok, rfl⟩ | rfl | ⟨status, rfl⟩
  · exact fun r hm => hr r (List.mem_filter.mp hm).1
  · exact trivial
  · exact trivial

end

/-! ## the chain -/

section
variable {env : Env} {src : Record → Prop} {zone : Name} {st st' : State}

theorem responseLoop_trail {t : RecordType} {keys : List Dnskey} {msg : Message}
    {r : Result (Record × Rrsig × Dnskey)} (h : responseLoop env zone t keys msg st = (r, st'))
    (hr : ∀ r ∈ msg.answers, src r) : Trail src st st' :=
  Trail.of_checks (responseLoop_sigOnly h) fun r hm => hr r (List.mem_filter.mp hm).1

theorem DsVerdict.trail {parentKeys : List Dnskey} {dsMsg : Message} {status : DnssecStatus}
    (h : DsVerdict env zone parentKeys dsMsg st status st')
    (hr : ∀ r ∈ dsMsg.nameServers, src r) : Trail src st st' := by
  cases h with
  | nsec3 hv =>
    obtain ⟨rfl, rfl⟩ := Prod.mk.inj hv
    exact Trail.of_denial (validateNsec3_sigOnly st) hr
  | nsec hv =>
    obtain ⟨rfl, rfl⟩ := Prod.mk.inj hv
    exact Trail.of_denial (validateNsec_sigOnly st) hr
  | absent => exact Trail.refl st

theorem dsDenial_trail {parentKeys : List Dnskey} {dsMsg : Message} {o : DsOutcome}
    (h : dsDenial env zone parentKeys dsMsg st = (o, st'))
    (hr : ∀ r ∈ dsMsg.nameServers, src r) : Trail src st st' := by
  cases dsDenial_end h with
  | unsigned hv =>
    have hs := hv.trail hr
    exact hs
  | skip hv => exact hv.trail hr
  | bogus hv => exact hv.trail hr

theorem dsResponse_trail {parentKeys : List Dnskey} {dsMsg : Message} {o : DsOutcome}
    (h : dsResponse env zone parentKeys dsMsg st = (o, st'))
    (hr : ∀ r, r ∈ dsMsg.answers ∨ r ∈ dsMsg.nameServers → src r) : Trail src st st' := by
  have hans : ∀ r ∈ dsMsg.answers, src r := fun r hm => hr r (Or.inl hm)
  cases dsResponse_end h with
  | denial hd => exact dsDenial_trail hd fun r hm => hr r (Or.inr hm)
  | unsealed => exact Trail.refl st
  | bogus hl => exact responseLoop_trail hl hans
  | unsigned hl _ _ => exact (responseLoop_trail hl hans).trans (Trail.push trivial)
  | anchors hl =>
    refine (responseLoop_trail hl hans).trans ⟨_, rfl, fun e he => ?_⟩
    obtain ⟨d, _, rfl⟩ := List.mem_map.mp he
    exact trivial

theorem dnskeyResponse_trail {anchors : List Anchor} {ttl : UInt32} {msg : Message}
    {o : Option (List Dnskey × UInt32)}
    (h : dnskeyResponse env zone anchors ttl msg st = (o, st')) (hr : ∀ r ∈ msg.answers, src r) :
    Trail src st st' := by
  cases dnskeyResponse_end h with
  | unusable => exact Trail.refl st
  | bogus hl => exact responseLoop_trail hl hr
  | keys hl _ _ =>
    have hs := responseLoop_trail hl hr
    exact hs

variable (hsrc : ∀ r, Received env r → src r)
include hsrc

theorem trustedDs_trail {parentKeys : Option (List Dnskey)} {o : DsOutcome}
    (h : trustedDs env zone parentKeys st = (o, st')) : Trail src st st' := by
  cases trustedDs_end h with
  | root => exact Trail.refl st
  | noParent => exact Trail.refl st
  | failed => exact Trail.next
  | @response keys dsMsg _ _ _ _ hres hresp =>
    have hask : Trail src st (st.next.push (.dsLookup zone keys dsMsg)) := Trail.push trivial
    exact hask.trans (dsResponse_trail hresp fun r hm =>
      hsrc r ⟨st.tick, zone, .DS, dsMsg, hres, hm⟩)

theorem zoneKeys_trail {anchors : List Anchor} {ttl : UInt32} {o : Option (List Dnskey × UInt32)}
    (h : zoneKeys env zone anchors ttl st = (o, st')) : Trail src st st' := by
  cases zoneKeys_end h with
  | failed => exact Trail.next
  | @response msg _ _ hres hresp =>
    have hask : Trail src st (st.next.push (.dnskeyLookup zone anchors msg)) := Trail.push trivial
    exact hask.trans (dnskeyResponse_trail hresp fun r hm =>
      hsrc r ⟨st.tick, zone, .DNSKEY, msg, hres, Or.inl hm⟩)

theorem zoneStep_trail {keys : Option (List Dnskey)} {ttl : UInt32} {o : ZoneStep}
    (h : zoneStep env zone keys ttl st = (o, st')) : Trail src st st' := by
  have hcached : ∀ {o st₁}, cachedKeys env zone st = (o, st₁) → Trail src st st₁ := by
    intro o st₁ hc
    unfold cachedKeys at hc
    split at hc
    · obtain ⟨_, rfl⟩ := Prod.mk.inj hc
      exact Trail.refl st
    · split at hc <;> obtain ⟨_, rfl⟩ := Prod.mk.inj hc <;> exact Trail.next
  cases zoneStep_end h with
  | cached hc => exact hcached hc
  | ret hc hd => exact (hcached hc).trans (trustedDs_trail hsrc hd)
  | skip hc hd => exact (hcached hc).trans (trustedDs_trail hsrc hd)
  | noKeys hc hd hz =>
    exact ((hcached hc).trans (trustedDs_trail hsrc hd)).trans (zoneKeys_trail hsrc hz)
  | keys hc hd hz =>
    exact ((hcached hc).trans (trustedDs_trail hsrc hd)).trans (zoneKeys_trail hsrc hz)

theorem buildTrustChain_trail (target : Name) (st : State) :
    Trail src st (buildTrustChain env target st).2 := by
  refine walkPath_rule (J := fun _ _ s => Trail src st s) (Q := fun _ s => Trail src st s) ?_
    (fun _ _ _ h => h) _ none 300 st (Trail.refl st)
  intro zone rest keys ttl s o s' h hz
  have hall := h.trans (zoneStep_trail hsrc hz)
  cases o <;> exact hall

end

/-! ## answers -/

section
variable {env : Env} {src : Record → Prop} (hsrc : ∀ r, Received env r → src r)
include hsrc

theorem isZoneSigned_trail (name : Name) (st : State) :
    Trail src st (isZoneSigned env name st).2 := by
  have hpath := fun a (ha : a ∈ name.ancestors) => Name.zoneOf_of_mem_ancestors ha
  cases h : isZoneSigned env name st with
  | mk s st' =>
    show Trail src st st'
    rcases isZoneSigned_cases h with hl | ⟨st₁, apex, st₂, zone, st₃, hl, ha, _, hend⟩
    · exact (signedLookup_ok _ hpath hl).1.log
    · have hlook : Trail src st st₁ := (signedLookup_ok _ hpath hl).1.log
      have hapex : Trail src st st₂ := hlook.trans (findZoneApexLoop_ok _ hpath ha).1.log
      have hchain := hapex.trans (buildTrustChain_trail hsrc zone st₂)
      rcases hend with ⟨keys, ttl, hb, _, rfl⟩ | ⟨ttl, hb, _, rfl⟩ | ⟨hb, _, rfl⟩
      · rw [hb] at hchain
        exact hchain
      · rw [hb] at hchain
        exact hchain
      · rw [hb] at hchain
        exact hchain.trans (Trail.push trivial)

theorem candidateLoop_trail {records : List Record} (hr : ∀ r ∈ records, src r)
    (candidates : List Record) (anyTrusted : Bool) (st : State) :
    Trail src st (candidateLoop env records candidates anyTrusted st).2 := by
  induction candidates generalizing anyTrusted st with
  | nil => exact Trail.refl st
  | cons rec rest ih =>
    unfold candidateLoop
    split
    · rename_i sig _
      have hchain := buildTrustChain_trail hsrc sig.signerName st
      cases hb : buildTrustChain env sig.signerName st with
      | mk r st₁ =>
        rw [hb] at hchain
        cases r with
        | Trusted keys ttl =>
          have hkeys := hchain.trans
            (Trail.of_checks (keySearch_sigOnly env records rec sig keys st₁) hr)
          dsimp only
          cases hs : search (checkKey env records rec sig) keys st₁ with
          | mk o st₂ =>
            rw [hs] at hkeys
            cases o with
            | hit x => exact hkeys
            | stop => exact hkeys
            | miss => exact hkeys.trans (ih true st₂)
        | Unsigned ttl => exact hchain.trans (ih anyTrusted st₁)
        | Bogus => exact hchain
    · exact ih anyTrusted st

theorem validateRrset_trail {owner : Name} {t : RecordType} {records answers : List Record}
    (hr : ∀ r ∈ records, src r) (st : State) :
    Trail src st (validateRrset env owner t records answers st).2 := by
  simp only [validateRrset]
  split
  · exact isZoneSigned_trail hsrc owner st
  · split
    · exact Trail.next
    · exact Trail.next.trans (candidateLoop_trail hsrc hr _ false st.next)

theorem checkPair_trail {answers : List Record} (hr : ∀ r ∈ answers, src r)
    (p : Name × RecordType) (st : State) : Trail src st (checkPair env answers p st).2 := by
  have hat : Trail src st (validateAt env p.1 p.2 answers st).2 := by
    simp only [validateAt]
    split
    · exact Trail.refl st
    · exact validateRrset_trail hsrc (fun r hm => hr r (List.mem_filter.mp hm).1) st
  cases hv : validateAt env p.1 p.2 answers st with
  | mk s s' =>
    rw [hv] at hat
    cases s with
    | Secure => rw [checkPair_secure hv]; exact hat
    | _ => rw [checkPair_other (by decide) hv]; exact hat

theorem validateFinal_trail {answers : List Record} (hr : ∀ r ∈ answers, src r) (name : Name)
    (rtype : RecordType) (chain : List RedirectionStep) (st : State) :
    Trail src st (validateFinal env name rtype chain answers st).2 := by
  have hsteps : Trail src st
      (search (checkPair env answers) (chain.flatMap (stepPairs answers)) st).2 :=
    search_keeps Trail.refl (fun _ _ _ => Trail.trans) _
      (fun p _ s => checkPair_trail hsrc hr p s) st
  simp only [validateFinal, validateSteps_eq]
  cases hs : search (checkPair env answers) (chain.flatMap (stepPairs answers)) st with
  | mk o st₁ =>
    rw [hs] at hsteps
    obtain ⟨status, hstatus⟩ : ∃ status, searchStatus (o, st₁) = (status, st₁) := by
      cases o <;> exact ⟨_, rfl⟩
    rw [hstatus]
    cases status with
    | Secure =>
      dsimp only
      split
      · exact hsteps
      · exact hsteps.trans
          (validateRrset_trail hsrc (fun r hm => hr r (List.mem_filter.mp hm).1) st₁)
    | _ => exact hsteps

/-- **The checks of an answer** are over received records and over records of the answer. -/
theorem validateAnswer_trail {answers : List Record} (hr : ∀ r ∈ answers, src r) (name : Name)
    (rtype : RecordType) (st : State) :
    Trail src st (validateAnswer env name rtype answers st).2 := by
  unfold validateAnswer
  split
  · exact validateFinal_trail hsrc hr name rtype [] st
  · split
    · exact validateFinal_trail hsrc hr name rtype _ st
    · exact Trail.refl st
    · exact Trail.refl st

end

end DnsResolver
