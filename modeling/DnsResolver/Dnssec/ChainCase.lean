import DnsResolver.Dnssec.ChainStep
import DnsResolver.Dnssec.DenialCase
import DnsResolver.Dnssec.Genuine
import DnsResolver.Dnssec.TbsInjective

/-!
# The trust chain and the spelling of the zone

The walk of `build_trust_chain` compares names, keys its caches and asks its questions without
regard to case.  `compute_ds_digest` does not: it hashes the owner as it is spelled.

* `SameView`              states that agree up to the trace;
* `MatchedAlike`          the DS records an upstream serves for a zone name the same keys under two
                          spellings of the zone;
* `buildTrustChain_agree` if this is so for every zone on the way, the two spellings have one
                          result;
* `computeDsDigest_eq_iff`, `chainCase_iff`   the digests of two spellings differ, and there is
                          upstream data on which the chain does.
-/

namespace DnsResolver
open Trace

/-! ## states up to the trace -/

structure SameView (s s' : State) : Prop where
  budget : s.budget = s'.budget
  keyTrustCache : s.keyTrustCache = s'.keyTrustCache
  signedZoneCache : s.signedZoneCache = s'.signedZoneCache
  tick : s.tick = s'.tick

/-- the same result in states that agree up to the trace -/
def Agree {β : Type} (x y : β × State) : Prop := x.1 = y.1 ∧ SameView x.2 y.2

section
variable {s s' : State}

theorem SameView.refl (s : State) : SameView s s := ⟨rfl, rfl, rfl, rfl⟩

theorem SameView.push (h : SameView s s') (e e' : Event) : SameView (s.push e) (s'.push e') :=
  ⟨h.budget, h.keyTrustCache, h.signedZoneCache, h.tick⟩

theorem SameView.pushAll (h : SameView s s') (es es' : List Event) :
    SameView (s.pushAll es) (s'.pushAll es') :=
  ⟨h.budget, h.keyTrustCache, h.signedZoneCache, h.tick⟩

theorem SameView.next (h : SameView s s') : SameView s.next s'.next :=
  ⟨h.budget, h.keyTrustCache, h.signedZoneCache, congrArg (· + 1) h.tick⟩

section
variable {env : Env} {zone zone' : Name}

theorem SameView.setSigned (h : SameView s s')
    (hz : env.zoneKey zone = env.zoneKey zone') (x : ZoneSignedness)
    (ttl : UInt32) : SameView (s.setSigned env zone x ttl) (s'.setSigned env zone' x ttl) := by
  refine ⟨h.budget, h.keyTrustCache, ?_, congrArg (· + 1) h.tick⟩
  simp only [State.setSigned, h.signedZoneCache, h.tick, hz]

theorem SameView.setKeys (h : SameView s s')
    (hz : env.zoneKey zone = env.zoneKey zone') (keys : List Dnskey)
    (ttl : UInt32) : SameView (s.setKeys env zone keys ttl) (s'.setKeys env zone' keys ttl) := by
  refine ⟨h.budget, ?_, h.signedZoneCache, congrArg (· + 1) h.tick⟩
  simp only [State.setKeys, h.keyTrustCache, h.tick, hz]

end

theorem Agree.split {β : Type} {x y : β × State} (h : Agree x y) :
    ∃ b s s', x = (b, s) ∧ y = (b, s') ∧ SameView s s' := by
  obtain ⟨b, s⟩ := x
  obtain ⟨b', s'⟩ := y
  obtain ⟨hb, hs⟩ := h
  obtain rfl : b = b' := hb
  exact ⟨b, s, s', rfl, rfl, hs⟩

theorem search_agree {α β : Type} {f : α → State → Result β × State} (l : List α)
    (hf : ∀ a ∈ l, ∀ s s', SameView s s' → Agree (f a s) (f a s')) (h : SameView s s') :
    Agree (search f l s) (search f l s') :=
  search_lockstep l hf h

/-! ## signatures -/

variable {env : Env} {keys : List Dnskey} {records : List Record}

theorem canCheckSig_agree (h : SameView s s') : Agree (canCheckSig s) (canCheckSig s') := by
  unfold canCheckSig
  rw [h.budget]
  split
  · exact ⟨rfl, rfl, h.keyTrustCache, h.signedZoneCache, h.tick⟩
  · exact ⟨rfl, rfl, h.keyTrustCache, h.signedZoneCache, h.tick⟩

theorem verifyRrsig_agree (h : SameView s s') (sig : Rrsig) (key : Dnskey) (rec : Record) :
    Agree (verifyRrsig env sig key rec records s) (verifyRrsig env sig key rec records s') := by
  refine ⟨?_, h.next.push _ _⟩
  simp only [verifyRrsig, h.tick]

theorem checkKey_agree (h : SameView s s') (rec : Record) (sig : Rrsig) (key : Dnskey) :
    Agree (checkKey env records rec sig key s) (checkKey env records rec sig key s') := by
  unfold checkKey
  split
  · obtain ⟨b, s₁, s₁', hx, hy, h₁⟩ := (canCheckSig_agree h).split
    rw [hx, hy]
    cases b with
    | false => exact ⟨rfl, h₁⟩
    | true =>
      have hv : Agree (verifyRrsig env sig key rec records s₁)
          (verifyRrsig env sig key rec records s₁') := verifyRrsig_agree h₁ sig key rec
      obtain ⟨ok, s₂, s₂', hx', hy', h₂⟩ := hv.split
      simp only [hx', hy']
      cases ok with
      | true => exact ⟨rfl, h₂⟩
      | false => exact ⟨rfl, h₂⟩
  · exact ⟨rfl, h⟩

theorem checkRrsig_agree {t : RecordType} (h : SameView s s') (rec : Record) :
    Agree (checkRrsig env t keys records rec s) (checkRrsig env t keys records rec s') := by
  unfold checkRrsig
  split
  · rename_i sig _
    split
    · exact search_agree keys (fun key _ _ _ hs => checkKey_agree hs rec sig key) h
    · exact ⟨rfl, h⟩
  · exact ⟨rfl, h⟩

theorem rrsigLoop_agree {t : RecordType} {rrsigs : List Record} (h : SameView s s') :
    Agree (rrsigLoop env t rrsigs keys records s) (rrsigLoop env t rrsigs keys records s') :=
  search_agree rrsigs (fun rec _ _ _ hs => checkRrsig_agree hs rec) h

theorem verifyNegativeRrset_agree {authority : List Record} (h : SameView s s') (rec : Record) :
    Agree (verifyNegativeRrset env rec authority keys s)
      (verifyNegativeRrset env rec authority keys s') := by
  unfold verifyNegativeRrset
  dsimp only
  split
  · exact ⟨rfl, h⟩
  · split
    · exact ⟨rfl, h⟩
    · obtain ⟨r, s₁, s₁', hx, hy, h₁⟩ := (rrsigLoop_agree h).split
      rw [hx, hy]
      cases r with
      | hit x => exact ⟨rfl, h₁⟩
      | stop => exact ⟨rfl, h₁⟩
      | miss => exact ⟨rfl, h₁⟩

theorem verifyDenial_agree {authority : List Record} (h : SameView s s') :
    Agree (verifyDenial env authority keys records s)
      (verifyDenial env authority keys records s') := by
  obtain ⟨f, hf, hend⟩ := verifyDenial_search env authority keys records
  have hsearch : Agree (search f records s) (search f records s') := by
    refine search_agree records (fun rec _ t t' ht => ?_) h
    have hrec : Agree (verifyNegativeRrset env rec authority keys t)
        (verifyNegativeRrset env rec authority keys t') := verifyNegativeRrset_agree ht rec
    obtain ⟨b, t₁, t₁', hv, hv', h₁⟩ := hrec.split
    rw [hf rec t b t₁ hv, hf rec t' b t₁' hv']
    exact ⟨rfl, h₁⟩
  obtain ⟨r, s₁, s₁', hx, hy, h₁⟩ := hsearch.split
  obtain ⟨b, hb, hd⟩ := hend s r s₁ hx
  obtain ⟨b', hb', hd'⟩ := hend s' r s₁' hy
  rw [hd, hd']
  exact ⟨Bool.eq_iff_iff.mpr (hb.trans hb'.symm), h₁⟩

/-! ## denials -/

variable {q q' : Name} {qtype : RecordType} {authority : List Record} (hq : q.fold = q'.fold)
  (hw : WildcardsAlike env.text q q')
include hq hw

theorem nsecBody_agree (h : SameView s s') :
    Agree (nsecBody env keys q qtype authority s) (nsecBody env keys q' qtype authority s') := by
  unfold nsecBody
  dsimp only
  split
  · exact ⟨rfl, h⟩
  · have hv : Agree (verifyDenial env authority keys (denialRecords .NSEC authority) s)
        (verifyDenial env authority keys (denialRecords .NSEC authority) s') :=
      verifyDenial_agree h
    obtain ⟨b, s₁, s₁', hx, hy, h₁⟩ := hv.split
    rw [hx, hy]
    cases b with
    | false => exact ⟨rfl, h₁⟩
    | true => exact ⟨nsecDenial_congr hq hw, h₁⟩

theorem validateNsec_agree (h : SameView s s') :
    Agree (validateNsec env keys q qtype authority s)
      (validateNsec env keys q' qtype authority s') := by
  have hb : Agree
      (nsecBody env keys q qtype authority (s.push (.denialCall .nsec keys q qtype authority)))
      (nsecBody env keys q' qtype authority
        (s'.push (.denialCall .nsec keys q' qtype authority))) := nsecBody_agree hq hw (h.push _ _)
  exact ⟨hb.1, hb.2.push _ _⟩

theorem nsec3Body_agree (h : SameView s s') :
    Agree (nsec3Body env keys q qtype authority s) (nsec3Body env keys q' qtype authority s') := by
  unfold nsec3Body
  dsimp only
  generalize denialRecords .NSEC3 authority = records
  cases records with
  | nil => exact ⟨rfl, h⟩
  | cons r rest =>
    dsimp only
    split
    · rename_i first _
      split
      · exact ⟨rfl, h⟩
      · split
        · exact ⟨rfl, h⟩
        · split
          · exact ⟨rfl, h⟩
          · have hv : Agree (verifyDenial env authority keys (r :: rest) s)
                (verifyDenial env authority keys (r :: rest) s') := verifyDenial_agree h
            obtain ⟨b, s₁, s₁', hx, hy, h₁⟩ := hv.split
            rw [hx, hy]
            cases b with
            | false => exact ⟨rfl, h₁⟩
            | true => exact ⟨nsec3Denial_congr hq (nsec3Hash_congr _ _ _) hw, h₁⟩
    · exact ⟨rfl, h⟩

theorem validateNsec3_agree (h : SameView s s') :
    Agree (validateNsec3 env keys q qtype authority s)
      (validateNsec3 env keys q' qtype authority s') := by
  have hb : Agree
      (nsec3Body env keys q qtype authority (s.push (.denialCall .nsec3 keys q qtype authority)))
      (nsec3Body env keys q' qtype authority
        (s'.push (.denialCall .nsec3 keys q' qtype authority))) := nsec3Body_agree hq hw (h.push _ _)
  exact ⟨hb.1, hb.2.push _ _⟩

end

/-! ## one round -/

section
variable {env : Env} {zone zone' : Name} {s s' : State} (hz : zone.fold = zone'.fold)
include hz

theorem isAt_congr (t : RecordType) : Record.isAt zone t = Record.isAt zone' t := by
  funext r
  simp only [Record.isAt, Name.nameEq, hz]

theorem isRrsigOver_congr (t : RecordType) :
    Record.isRrsigOver zone t = Record.isRrsigOver zone' t := by
  funext r
  unfold Record.isRrsigOver Name.nameEq
  rw [hz]

theorem dsRecordsAt_congr (answers : List Record) :
    dsRecordsAt zone answers = dsRecordsAt zone' answers := by
  unfold dsRecordsAt Name.nameEq
  rw [hz]

theorem dnskeysAt_congr (answers : List Record) :
    dnskeysAt zone answers = dnskeysAt zone' answers := by
  unfold dnskeysAt Name.nameEq
  rw [hz]

end

/-- the two spellings share their cache entries and their wildcards -/
structure SpelledAlike (env : Env) (zone zone' : Name) : Prop where
  fold : zone.fold = zone'.fold
  zoneKey : env.zoneKey zone = env.zoneKey zone'
  wildcards : WildcardsAlike env.text zone zone'

section
variable {env : Env} {zone zone' : Name} {s s' : State} (hz : SpelledAlike env zone zone')
include hz

theorem cachedKeys_agree (h : SameView s s') :
    Agree (cachedKeys env zone s) (cachedKeys env zone' s') := by
  unfold cachedKeys
  rw [h.keyTrustCache, hz.zoneKey, h.tick]
  split
  · exact ⟨rfl, h⟩
  · split
    · exact ⟨rfl, h.next⟩
    · exact ⟨rfl, h.next⟩

theorem dsDenial_agree (h : SameView s s') (keys : List Dnskey) (msg : Message) :
    Agree (dsDenial env zone keys msg s) (dsDenial env zone' keys msg s') := by
  have hv : Agree
      (if msg.nameServers.any fun r => decide (r.recordType = .NSEC3) then
        validateNsec3 env keys zone .DS msg.nameServers s
      else if msg.nameServers.any fun r => decide (r.recordType = .NSEC) then
        validateNsec env keys zone .DS msg.nameServers s
      else (.Bogus, s))
      (if msg.nameServers.any fun r => decide (r.recordType = .NSEC3) then
        validateNsec3 env keys zone' .DS msg.nameServers s'
      else if msg.nameServers.any fun r => decide (r.recordType = .NSEC) then
        validateNsec env keys zone' .DS msg.nameServers s'
      else (.Bogus, s')) := by
    split
    · exact validateNsec3_agree hz.fold hz.wildcards h
    · split
      · exact validateNsec_agree hz.fold hz.wildcards h
      · exact ⟨rfl, h⟩
  obtain ⟨status, s₁, s₁', hx, hy, h₁⟩ := hv.split
  simp only [dsDenial, hx, hy]
  cases status with
  | Secure => exact ⟨rfl, h₁⟩
  | InsecureUnsigned => exact ⟨rfl, h₁.setSigned hz.zoneKey _ _⟩
  | InsecureUnknown => exact ⟨rfl, h₁⟩
  | Bogus => exact ⟨rfl, h₁⟩

theorem dsResponse_agree (h : SameView s s') (keys : List Dnskey) (msg : Message) :
    Agree (dsResponse env zone keys msg s) (dsResponse env zone' keys msg s') := by
  simp only [dsResponse, dsRecordsAt_congr hz.fold, isRrsigOver_congr hz.fold,
    isAt_congr hz.fold]
  split
  · exact dsDenial_agree hz h keys msg
  · split
    · exact ⟨rfl, h⟩
    · have hl : Agree
          (rrsigLoop env .DS (msg.answers.filter (Record.isRrsigOver zone' .DS)) keys
            (msg.answers.filter (Record.isAt zone' .DS)) s)
          (rrsigLoop env .DS (msg.answers.filter (Record.isRrsigOver zone' .DS)) keys
            (msg.answers.filter (Record.isAt zone' .DS)) s') := rrsigLoop_agree h
      obtain ⟨r, s₁, s₁', hx, hy, h₁⟩ := hl.split
      simp only [hx, hy]
      cases r with
      | stop => exact ⟨rfl, h₁⟩
      | miss => exact ⟨rfl, h₁⟩
      | hit x =>
        dsimp only
        split
        · exact ⟨rfl, (h₁.push _ _).setSigned hz.zoneKey _ _⟩
        · exact ⟨rfl, h₁.pushAll _ _⟩

theorem dnskeyResponse_agree (h : SameView s s') (anchors : List Anchor) (ttl : UInt32)
    (msg : Message)
    (hm : matchedKeys env.crypto zone anchors (dnskeysAt zone msg.answers) =
      matchedKeys env.crypto zone' anchors (dnskeysAt zone msg.answers)) :
    Agree (dnskeyResponse env zone anchors ttl msg s)
      (dnskeyResponse env zone' anchors ttl msg s') := by
  simp only [dnskeyResponse, ← dnskeysAt_congr hz.fold, isRrsigOver_congr hz.fold,
    isAt_congr hz.fold, hm, Name.isRoot_congr hz.fold]
  split
  · exact ⟨rfl, h⟩
  · split
    · exact ⟨rfl, h⟩
    · split
      · exact ⟨rfl, h⟩
      · have hl : Agree
            (rrsigLoop env .DNSKEY (msg.answers.filter (Record.isRrsigOver zone' .DNSKEY))
              (matchedKeys env.crypto zone' anchors (dnskeysAt zone msg.answers))
              (msg.answers.filter (Record.isAt zone' .DNSKEY)) s)
            (rrsigLoop env .DNSKEY (msg.answers.filter (Record.isRrsigOver zone' .DNSKEY))
              (matchedKeys env.crypto zone' anchors (dnskeysAt zone msg.answers))
              (msg.answers.filter (Record.isAt zone' .DNSKEY)) s') := rrsigLoop_agree h
        obtain ⟨r, s₁, s₁', hx, hy, h₁⟩ := hl.split
        simp only [hx, hy]
        cases r with
        | stop => exact ⟨rfl, h₁⟩
        | miss => exact ⟨rfl, h₁⟩
        | hit x => exact ⟨rfl, h₁.setKeys hz.zoneKey _ _⟩

/-- upstream servers answer a question in any spelling alike -/
def CaseBlind (env : Env) : Prop :=
  ∀ tick (a b : Name) t, a.fold = b.fold → env.resolve tick a t = env.resolve tick b t

theorem trustedDs_agree (hblind : CaseBlind env) (h : SameView s s')
    (parentKeys : Option (List Dnskey)) :
    Agree (trustedDs env zone parentKeys s) (trustedDs env zone' parentKeys s') := by
  unfold trustedDs
  rw [Name.isRoot_congr hz.fold, hblind s.tick zone zone' .DS hz.fold, h.tick]
  split
  · exact ⟨rfl, h⟩
  · split
    · exact ⟨rfl, h⟩
    · split
      · exact ⟨rfl, h.next⟩
      · exact dsResponse_agree hz (h.next.push _ _) _ _

/-- the DS records served for `zone` name the same of its keys when it is spelled `zone'` -/
def MatchedAlike (env : Env) (zone zone' : Name) : Prop :=
  ∀ t u dsMsg keyMsg, env.resolve t zone .DS = .ok dsMsg →
    env.resolve u zone .DNSKEY = .ok keyMsg →
    matchedKeys env.crypto zone (dsAnchorsAt zone dsMsg.answers) (dnskeysAt zone keyMsg.answers) =
      matchedKeys env.crypto zone' (dsAnchorsAt zone dsMsg.answers) (dnskeysAt zone keyMsg.answers)

theorem zoneKeys_agree (hblind : CaseBlind env) (h : SameView s s') (anchors : List Anchor)
    (ttl : UInt32)
    (hm : ∀ u keyMsg, env.resolve u zone .DNSKEY = .ok keyMsg →
      matchedKeys env.crypto zone anchors (dnskeysAt zone keyMsg.answers) =
        matchedKeys env.crypto zone' anchors (dnskeysAt zone keyMsg.answers)) :
    Agree (zoneKeys env zone anchors ttl s) (zoneKeys env zone' anchors ttl s') := by
  have hres := hm s'.tick
  unfold zoneKeys
  rw [h.tick, hblind s'.tick zone' zone .DNSKEY hz.fold.symm]
  generalize env.resolve s'.tick zone .DNSKEY = answer at hres
  cases answer with
  | error e => exact ⟨rfl, h.next⟩
  | ok keyMsg => exact dnskeyResponse_agree hz (h.next.push _ _) anchors ttl keyMsg (hres _ rfl)

omit hz in
theorem trustedDs_served {parentKeys : Option (List Dnskey)} {anchors : List Anchor}
    {ttl : UInt32} {s₁ : State} (h : trustedDs env zone parentKeys s = (.anchors anchors ttl, s₁)) :
    zone.isRoot = true ∨ ∃ t dsMsg, env.resolve t zone .DS = .ok dsMsg ∧
      anchors = dsAnchorsAt zone dsMsg.answers := by
  cases trustedDs_end h with
  | root hr => exact Or.inl hr
  | response _ _ hres hresp =>
    cases dsResponse_end hresp with
    | denial hd => exact absurd (dsDenial_end hd) (by rintro ⟨⟩)
    | anchors _ => exact Or.inr ⟨_, _, hres, rfl⟩

theorem zoneStep_agree (hblind : CaseBlind env) (hmatch : MatchedAlike env zone zone')
    (h : SameView s s') (parentKeys : Option (List Dnskey)) (lastTtl : UInt32) :
    Agree (zoneStep env zone parentKeys lastTtl s) (zoneStep env zone' parentKeys lastTtl s') := by
  have hcached : Agree (cachedKeys env zone s) (cachedKeys env zone' s') := cachedKeys_agree hz h
  obtain ⟨cached, s₁, s₁', hx, hy, h₁⟩ := hcached.split
  simp only [zoneStep, hx, hy]
  cases cached with
  | some keys => exact ⟨rfl, h₁⟩
  | none =>
    obtain ⟨o, s₂, s₂', hx, hy, h₂⟩ := (trustedDs_agree hz hblind h₁ parentKeys).split
    simp only [hx, hy]
    cases o with
    | ret r => exact ⟨rfl, h₂⟩
    | skip => exact ⟨rfl, h₂⟩
    | anchors anchors dsTtl =>
      have hm : ∀ u keyMsg, env.resolve u zone .DNSKEY = .ok keyMsg →
          matchedKeys env.crypto zone anchors (dnskeysAt zone keyMsg.answers) =
            matchedKeys env.crypto zone' anchors (dnskeysAt zone keyMsg.answers) := by
        intro u keyMsg hkeys
        rcases trustedDs_served hx with hroot | ⟨t, dsMsg, hds, rfl⟩
        · -- the root is spelled in one way only
          have hnil := List.isEmpty_iff.mp hroot
          rw [Name.isRoot_congr hz.fold] at hroot
          rw [show zone = zone' from Name.ext (hnil.trans (List.isEmpty_iff.mp hroot).symm)]
        · exact hmatch t u dsMsg keyMsg hds hkeys
      obtain ⟨keys, s₃, s₃', hx, hy, h₃⟩ := (zoneKeys_agree hz hblind h₂ anchors dsTtl hm).split
      simp only [hx, hy]
      cases keys with
      | none => exact ⟨rfl, h₃⟩
      | some keys => exact ⟨rfl, h₃⟩

end

/-! ## the walk -/

section
variable {env : Env} {s s' : State}

theorem walkPath_agree (hblind : CaseBlind env) {path path' : List Name}
    (hpath : List.Forall₂ (fun a b => SpelledAlike env a b ∧ MatchedAlike env a b) path path')
    (h : SameView s s') (parentKeys : Option (List Dnskey)) (lastTtl : UInt32) :
    Agree (walkPath env path parentKeys lastTtl s) (walkPath env path' parentKeys lastTtl s') := by
  induction hpath generalizing s s' parentKeys lastTtl with
  | nil =>
    cases parentKeys with
    | none => exact ⟨rfl, h⟩
    | some keys => exact ⟨rfl, h⟩
  | cons hab _ ih =>
    obtain ⟨o, s₁, s₁', hx, hy, h₁⟩ :=
      (zoneStep_agree hab.1 hblind hab.2 h parentKeys lastTtl).split
    simp only [walkPath, hx, hy]
    cases o with
    | done r => exact ⟨rfl, h₁⟩
    | go parentKeys lastTtl => exact ih h₁ parentKeys lastTtl

theorem forall₂_ancestors {R : Name → Name → Prop} {n n' : Name} (h : n.fold = n'.fold)
    (hR : ∀ a ∈ n.ancestors, ∀ b ∈ n'.ancestors, a.fold = b.fold → R a b) :
    List.Forall₂ R n.ancestors n'.ancestors := by
  unfold Name.ancestors at hR ⊢
  rw [← Name.length_labels_congr h] at hR ⊢
  generalize n.labels.length = k at hR ⊢
  induction k generalizing n n' with
  | zero => exact .cons (hR n List.mem_cons_self n' List.mem_cons_self h) .nil
  | succ k ih =>
    refine .cons (hR n List.mem_cons_self n' List.mem_cons_self h) ?_
    exact ih (Name.fold_baseName_congr h) fun a ha b hb =>
      hR a (List.mem_cons_of_mem _ ha) b (List.mem_cons_of_mem _ hb)

/-- **Spellings under which the DS records name the same keys have one result.** -/
theorem buildTrustChain_agree (hblind : CaseBlind env) {n n' : Name} (hn : n.fold = n'.fold)
    (hmatch : ∀ a ∈ n.ancestors, ∀ b ∈ n'.ancestors, a.fold = b.fold →
      SpelledAlike env a b ∧ MatchedAlike env a b) (s : State) :
    (buildTrustChain env n s).1 = (buildTrustChain env n' s).1 :=
  (walkPath_agree hblind (List.rel_reverse (forall₂_ancestors hn hmatch)) (SameView.refl s)
    none 300).1

end

/-! ## the digest -/

/-- the hash functions of DS digests do not collide on the two owners, and their digests are
short -/
structure HashesApart (cr : Crypto) (n n' : Name) : Prop where
  sha1 : ∀ key : Dnskey, cr.sha1 (n.wire ++ key.emit) = cr.sha1 (n'.wire ++ key.emit) →
    n.wire ++ key.emit = n'.wire ++ key.emit
  sha256 : ∀ key : Dnskey, cr.sha256 (n.wire ++ key.emit) = cr.sha256 (n'.wire ++ key.emit) →
    n.wire ++ key.emit = n'.wire ++ key.emit
  sha384 : ∀ key : Dnskey, cr.sha384 (n.wire ++ key.emit) = cr.sha384 (n'.wire ++ key.emit) →
    n.wire ++ key.emit = n'.wire ++ key.emit
  size : ∀ b, (cr.sha256 b).length ≤ 48

section
variable {cr : Crypto} {n n' : Name}

/-- **Two spellings have one digest** only if they are the same, or if there is none. -/
theorem computeDsDigest_eq_iff (hcr : HashesApart cr n n') (hn : n.fold = n'.fold) (key : Dnskey)
    {digestType : UInt8} (ht : digestType = 1 ∨ digestType = 2 ∨ digestType = 4) :
    computeDsDigest cr n key digestType = computeDsDigest cr n' key digestType ↔
      n = n' ∨ maxEncoded < (n.wire ++ key.emit).length := by
  have hlen : (n'.wire ++ key.emit).length = (n.wire ++ key.emit).length := by
    rw [List.length_append, List.length_append, Name.length_wire_congr hn]
  have hinj : n.wire ++ key.emit = n'.wire ++ key.emit → n = n' :=
    fun h => Name.wire_inj (List.append_cancel_right h)
  unfold computeDsDigest fits
  rw [hlen]
  by_cases hfits : (n.wire ++ key.emit).length ≤ maxEncoded
  · have hno : ¬ maxEncoded < (n.wire ++ key.emit).length := by omega
    simp only [if_pos hfits, hno, or_false]
    rcases ht with rfl | rfl | rfl
    · refine ⟨fun h => hinj (hcr.sha1 key (Option.some.inj h)), fun h => by rw [h]⟩
    · refine ⟨fun h => hinj (hcr.sha256 key (Option.some.inj h)), fun h => by rw [h]⟩
    · refine ⟨fun h => hinj (hcr.sha384 key (Option.some.inj h)), fun h => by rw [h]⟩
  · simp only [if_neg hfits, true_iff]
    right
    omega

end

/-! ## a zone whose parent knows one spelling -/

section
variable (cr : Crypto) (n : Name)

/-- every signature is good, and all keys have the tag 1 -/
def lenient : Crypto := { cr with calculateKeyTag := fun _ => some 1, ed25519 := fun _ _ _ => true }

def zoneRrsig (t : RecordType) : Record where
  name := n
  ttl := 300
  data := .rrsig { typeCovered := t, algorithm := 15, numLabels := n.labels.length.toUInt8,
                   originalTtl := 300, sigExpiration := 2000, sigInception := 0, keyTag := 1,
                   signerName := n, sig := [] }

/-- the DS of the key at `n`, by the spelling `n` -/
def zoneDs : Record where
  name := n
  ttl := 300
  data := .ds ⟨1, 15, 2, cr.sha256 (n.wire ++ echoKey.emit)⟩

def zoneDnskey : Record where
  name := n
  ttl := 300
  data := .dnskey echoKey

/-- the servers of the zone and of its parent answer in the spelling `n` -/
def spelledEnv : Env where
  crypto := lenient cr
  text := noText
  nowSecs := fun _ => 0
  resolve := fun _ m t =>
    if m.fold = n.fold then
      if t = .DS then .ok { answers := [zoneDs cr n, zoneRrsig n .DS] }
      else if t = .DNSKEY then .ok { answers := [zoneDnskey n, zoneRrsig n .DNSKEY] }
      else .error .AllNameserversFailed
    else .error .AllNameserversFailed

/-- the keys of all other zones are cached -/
def spelledState : State where
  keyTrustCache := fun z => if z = n.fold then none else some ⟨[echoKey], 1⟩

variable {cr n}

theorem buildTbsManual_sole {rr r : Record} {sig : Rrsig} {rdata : Bytes}
    (hd : rr.data = .rrsig sig) (hcount : sig.numLabels.toNat = rr.name.labels.length)
    (hcov : Covers rr sig r) (hr : canonicalRdata r = some rdata) (hl : rdata.length ≤ 60) :
    ∃ tbs, buildTbsManual rr [r] = some tbs := by
  have hset : tbsRrset rr sig [r] = [r] := tbsRrset_cons_of_covers hcov
  have howner : reconstructWildcardName rr.name sig.numLabels = some rr.name :=
    if_pos (le_of_eq hcount.symm)
  refine ⟨_, buildTbsManual_some_iff.mpr ⟨sig, rr.name, [rdata], hd, le_of_eq hcount, howner,
    List.cons_ne_nil _ _, by rw [hset, List.map_singleton, hr, List.map_singleton],
    fits_eq_some.mpr ⟨?_, rfl⟩⟩⟩
  have hsigner := sig.signerName.length_wireLower_le
  have hname := rr.name.length_wireLower_le
  simp only [List.insertionSort, List.orderedInsert, List.foldr_cons, List.foldr_nil,
    List.flatMap_singleton, tbsHeader, tbsRecord, be16, be32, List.length_append, List.length_cons,
    List.length_nil, maxEncoded]
  omega

/-- the RRSIG of `zoneRrsig` over one record at `n` -/
theorem zoneRrsig_genuine {r : Record} {rdata : Bytes} (hname : r.name = n)
    (hclass : r.dnsClass = .IN) (hr : canonicalRdata r = some rdata) (hl : rdata.length ≤ 60) :
    Genuine (spelledEnv cr n) [echoKey] r.recordType [r] (zoneRrsig n r.recordType) := by
  refine ⟨_, echoKey, rfl, rfl, List.mem_singleton.mpr rfl, rfl, ?_, fun _ => ?_⟩
  · have hrr : (zoneRrsig n r.recordType).name = n := rfl
    have hcov : ∀ sig : Rrsig, sig.typeCovered = r.recordType →
        Covers (zoneRrsig n r.recordType) sig r := by
      intro sig hsig
      refine ⟨?_, hsig.symm, hclass⟩
      rw [hname, hrr]
      exact Name.nameEq_refl n
    obtain ⟨tbs, htbs⟩ := buildTbsManual_sole rfl (hrr ▸ n.toNat_labelCount) (hcov _ rfl) hr hl
    rw [signatureValid, htbs]
    rfl
  · exact rrsigTimeValid_of_le (Nat.zero_le _) (Nat.zero_le _)
      (show (0 : UInt32).toNat < (2000 : UInt32).toNat by decide)
      (show (2000 : UInt32).toNat < 2147483648 by decide)

theorem zoneLoop {r : Record} {rdata : Bytes} (hname : r.name = n) (hclass : r.dnsClass = .IN)
    (hr : canonicalRdata r = some rdata) (hl : rdata.length ≤ 60) {st : State}
    (h : 1 ≤ checksLeft st) :
    ∃ x st', rrsigLoop (spelledEnv cr n) r.recordType [zoneRrsig n r.recordType] [echoKey] [r] st =
      (.hit x, st') ∧ checksLeft st ≤ checksLeft st' + 1 :=
  rrsigLoop_finds (List.mem_singleton.mpr rfl) (zoneRrsig_genuine hname hclass hr hl) h

/-- what is found in an answer that holds one record at `n` and its RRSIG -/
theorem zoneAnswer {r : Record} (hname : r.name = n) (hr : r.recordType ≠ .RRSIG) :
    [r, zoneRrsig n r.recordType].filter (Record.isRrsigOver n r.recordType) =
        [zoneRrsig n r.recordType] ∧
      [r, zoneRrsig n r.recordType].filter (Record.isAt n r.recordType) = [r] := by
  have hself : r.isAt n r.recordType = true :=
    Record.isAt_iff.mpr ⟨by rw [hname]; exact Name.nameEq_refl n, rfl⟩
  have hsig : (zoneRrsig n r.recordType).isAt n r.recordType = false := by
    rw [Bool.eq_false_iff]
    exact fun h => hr (Record.isAt_iff.mp h).2.symm
  have hover : (zoneRrsig n r.recordType).isRrsigOver n r.recordType = true :=
    Record.isRrsigOver_iff.mpr ⟨_, rfl, Name.nameEq_refl n, rfl⟩
  have hnot : r.isRrsigOver n r.recordType = false := by
    rw [Bool.eq_false_iff]
    intro h
    obtain ⟨sig, hd, _⟩ := Record.isRrsigOver_iff.mp h
    exact hr (by rw [Record.recordType, hd]; rfl)
  simp only [List.filter_cons, List.filter_nil, hself, hsig, hover, hnot, if_true, if_false,
    Bool.false_eq_true, and_self]

theorem matchedKeys_sole {zone : Name} {tag : UInt16} {alg digestType : UInt8} {digest : Bytes}
    {key : Dnskey} : matchedKeys cr zone [(tag, alg, digestType, digest)] [key] =
      if tag = keyTagOf cr key ∧ alg = key.algorithm ∧
        computeDsDigest cr zone key digestType = some digest then [key] else [] := by
  simp only [matchedKeys, List.flatMap_cons, List.flatMap_nil, List.append_nil, List.filter_cons,
    List.filter_nil, Bool.and_eq_true, decide_eq_true_eq, and_assoc]
  split
  · rfl
  · rfl

variable {m : Name} (hm : m.fold = n.fold)
include hm

theorem dsResponse_spelled (hsize : ∀ b, (cr.sha256 b).length ≤ 48) {st : State}
    (h : 1 ≤ checksLeft st) :
    ∃ ttl st', dsResponse (spelledEnv cr n) m [echoKey]
        { answers := [zoneDs cr n, zoneRrsig n .DS] } st =
      (.anchors [(1, 15, 2, cr.sha256 (n.wire ++ echoKey.emit))] ttl, st') ∧
      checksLeft st ≤ checksLeft st' + 1 := by
  have hds : dsRecordsAt n [zoneDs cr n, zoneRrsig n .DS] =
      [⟨1, 15, 2, cr.sha256 (n.wire ++ echoKey.emit)⟩] := by
    simp [dsRecordsAt, zoneDs, zoneRrsig, Record.ds?, Name.nameEq_refl]
  have hshort : (zoneDs cr n).data.emit.length ≤ 60 := by
    have := hsize (n.wire ++ echoKey.emit)
    simp only [zoneDs, RData.emit, be16, List.length_append, List.length_cons, List.length_nil]
    omega
  have hrdata : canonicalRdata (zoneDs cr n) = some (zoneDs cr n).data.emit :=
    fits_eq_some.mpr ⟨le_trans hshort (by decide), rfl⟩
  have hfound : [zoneDs cr n, zoneRrsig n .DS].filter (Record.isRrsigOver n .DS) =
        [zoneRrsig n .DS] ∧ [zoneDs cr n, zoneRrsig n .DS].filter (Record.isAt n .DS) =
        [zoneDs cr n] :=
    zoneAnswer (r := zoneDs cr n) rfl (show RecordType.DS ≠ .RRSIG by decide)
  obtain ⟨x, st₁, hloop, hleft⟩ : ∃ x st', rrsigLoop (spelledEnv cr n) .DS [zoneRrsig n .DS]
      [echoKey] [zoneDs cr n] st = (.hit x, st') ∧ checksLeft st ≤ checksLeft st' + 1 :=
    zoneLoop (r := zoneDs cr n) rfl rfl hrdata hshort h
  refine ⟨calculateMinTtl { answers := [zoneDs cr n, zoneRrsig n .DS] },
    st₁.pushAll [.trustedDs m ⟨1, 15, 2, cr.sha256 (n.wire ++ echoKey.emit)⟩], ?_, hleft⟩
  simp only [dsResponse, dsRecordsAt_congr hm, isRrsigOver_congr hm, isAt_congr hm, hfound.1,
    hfound.2, hds, hloop]
  rfl

theorem dnskeyResponse_spelled {st : State} (h : 1 ≤ checksLeft st) (dsTtl : UInt32) :
    (m = n → (dnskeyResponse (spelledEnv cr n) m
        [(1, 15, 2, cr.sha256 (n.wire ++ echoKey.emit))] dsTtl
        { answers := [zoneDnskey n, zoneRrsig n .DNSKEY] } st).1.isSome = true) ∧
      (HashesApart cr n m → m ≠ n → dnskeyResponse (spelledEnv cr n) m
        [(1, 15, 2, cr.sha256 (n.wire ++ echoKey.emit))] dsTtl
        { answers := [zoneDnskey n, zoneRrsig n .DNSKEY] } st = (none, st)) := by
  have hkeys : dnskeysAt n [zoneDnskey n, zoneRrsig n .DNSKEY] = [echoKey] := by
    simp [dnskeysAt, zoneDnskey, zoneRrsig, Record.dnskey?, Name.nameEq_refl]
  have hfound : [zoneDnskey n, zoneRrsig n .DNSKEY].filter (Record.isRrsigOver n .DNSKEY) =
        [zoneRrsig n .DNSKEY] ∧ [zoneDnskey n, zoneRrsig n .DNSKEY].filter
          (Record.isAt n .DNSKEY) = [zoneDnskey n] :=
    zoneAnswer (r := zoneDnskey n) rfl (show RecordType.DNSKEY ≠ .RRSIG by decide)
  have hfits : ∀ k : Name, (k.wire ++ echoKey.emit).length ≤ maxEncoded := by
    intro k
    have := k.length_wire_le
    rw [List.length_append, show echoKey.emit.length = 4 from rfl, maxEncoded]
    omega
  have hdigest : ∀ k : Name, computeDsDigest (lenient cr) k echoKey 2 =
      some (cr.sha256 (k.wire ++ echoKey.emit)) := by
    intro k
    simp only [computeDsDigest, fits, if_pos (hfits k)]
    rfl
  constructor
  · rintro rfl
    have hrdata : canonicalRdata (zoneDnskey m) = some echoKey.emit :=
      fits_eq_some.mpr ⟨show echoKey.emit.length ≤ maxEncoded by decide, rfl⟩
    obtain ⟨x, st₁, hloop, _⟩ : ∃ x st', rrsigLoop (spelledEnv cr m) .DNSKEY [zoneRrsig m .DNSKEY]
        [echoKey] [zoneDnskey m] st = (.hit x, st') ∧ checksLeft st ≤ checksLeft st' + 1 :=
      zoneLoop (r := zoneDnskey m) rfl rfl hrdata (by decide) h
    have hmatched : matchedKeys (lenient cr) m [(1, 15, 2, cr.sha256 (m.wire ++ echoKey.emit))]
        [echoKey] = [echoKey] := by
      rw [matchedKeys_sole]
      exact if_pos ⟨rfl, rfl, hdigest m⟩
    have hcr : (spelledEnv cr m).crypto = lenient cr := rfl
    simp only [dnskeyResponse, hkeys, hfound.1, hfound.2, hcr, hmatched, hloop]
    rfl
  · intro hcr hne
    have hmatched : matchedKeys (lenient cr) m [(1, 15, 2, cr.sha256 (n.wire ++ echoKey.emit))]
        [echoKey] = [] := by
      have hdiff : cr.sha256 (m.wire ++ echoKey.emit) ≠ cr.sha256 (n.wire ++ echoKey.emit) := by
        intro he
        exact hne (Name.wire_inj (List.append_cancel_right (hcr.sha256 echoKey he.symm))).symm
      rw [matchedKeys_sole, hdigest m]
      exact if_neg fun h => hdiff (Option.some.inj h.2.2)
    simp only [dnskeyResponse, dnskeysAt_congr hm, isRrsigOver_congr hm, hkeys, hfound.1, hmatched,
      spelledEnv]
    rfl

omit hm in
theorem spelledEnv_zoneKey (a : Name) : (spelledEnv cr n).zoneKey a = a.fold := rfl

theorem zoneStep_spelled (hsize : ∀ b, (cr.sha256 b).length ≤ 48) (hroot : n.isRoot = false)
    {st : State} (hk : st.keyTrustCache = (spelledState n).keyTrustCache)
    (h : 2 ≤ checksLeft st) (lastTtl : UInt32) :
    (m = n → ∃ keys ttl, (zoneStep (spelledEnv cr n) m (some [echoKey]) lastTtl st).1 =
        .go (some keys) ttl) ∧
      (HashesApart cr n m → m ≠ n →
        (zoneStep (spelledEnv cr n) m (some [echoKey]) lastTtl st).1 = .done .Bogus) := by
  have hcached : cachedKeys (spelledEnv cr n) m st = (none, st) := by
    simp only [cachedKeys, hk, spelledState, spelledEnv_zoneKey, hm, if_true]
  have hds : ∀ t, (spelledEnv cr n).resolve t m .DS =
      .ok { answers := [zoneDs cr n, zoneRrsig n .DS] } := by
    intro t
    simp only [spelledEnv, hm, if_true]
  have hkey : ∀ t, (spelledEnv cr n).resolve t m .DNSKEY =
      .ok { answers := [zoneDnskey n, zoneRrsig n .DNSKEY] } := by
    intro t
    simp only [spelledEnv, hm, if_true, show RecordType.DNSKEY ≠ .DS by decide, if_false]
  have hleft₁ : ∀ e, 1 ≤ checksLeft (st.next.push e) := fun _ => le_trans (by decide) h
  obtain ⟨dsTtl, st₁, hresp, hleft⟩ := dsResponse_spelled hm hsize
    (hleft₁ (.dsLookup m [echoKey] { answers := [zoneDs cr n, zoneRrsig n .DS] }))
  have htrusted : trustedDs (spelledEnv cr n) m (some [echoKey]) st =
      (.anchors [(1, 15, 2, cr.sha256 (n.wire ++ echoKey.emit))] dsTtl, st₁) := by
    simp only [trustedDs, Name.isRoot_congr hm, hroot, hds, hresp, Bool.false_eq_true, if_false]
  have hleft₂ : ∀ e, 1 ≤ checksLeft (st₁.next.push e) := by
    intro e
    have h₁ : checksLeft (st₁.next.push e) = checksLeft st₁ := rfl
    have h₂ : checksLeft (st.next.push
      (.dsLookup m [echoKey] { answers := [zoneDs cr n, zoneRrsig n .DS] })) = checksLeft st := rfl
    omega
  obtain ⟨hsame, hother⟩ := dnskeyResponse_spelled hm (hleft₂ (.dnskeyLookup m
    [(1, 15, 2, cr.sha256 (n.wire ++ echoKey.emit))]
    { answers := [zoneDnskey n, zoneRrsig n .DNSKEY] })) dsTtl
  constructor
  · intro heq
    obtain ⟨⟨keys, ttl⟩, hsome⟩ := Option.isSome_iff_exists.mp (hsame heq)
    refine ⟨keys, ttl, ?_⟩
    simp only [zoneStep, hcached, htrusted, zoneKeys, hkey]
    split
    · rename_i hnone
      rw [hnone] at hsome
      exact absurd hsome (by simp)
    · rename_i hkeys
      rw [hkeys] at hsome
      obtain ⟨rfl, rfl⟩ := Prod.mk.inj (Option.some.inj hsome)
      rfl
  · intro hcr hne
    simp only [zoneStep, hcached, htrusted, zoneKeys, hkey, hother hcr hne]

omit hm in
theorem walkPath_cached {l : List Name} (hl : ∀ a ∈ l, a.fold ≠ n.fold) {a : Name}
    (ha : a.fold ≠ n.fold) (rest : List Name) (parentKeys : Option (List Dnskey)) (ttl : UInt32)
    {st : State} (hk : st.keyTrustCache = (spelledState n).keyTrustCache) :
    ∃ st', walkPath (spelledEnv cr n) (a :: l ++ rest) parentKeys ttl st =
        walkPath (spelledEnv cr n) rest (some [echoKey]) ttl st' ∧
      st'.keyTrustCache = (spelledState n).keyTrustCache ∧ checksLeft st' = checksLeft st := by
  have hstep : zoneStep (spelledEnv cr n) a parentKeys ttl st =
      (.go (some [echoKey]) ttl, st.next) := by
    simp only [zoneStep, cachedKeys, hk, spelledState, spelledEnv_zoneKey, ha, if_false]
    rfl
  induction l generalizing a parentKeys st with
  | nil =>
    refine ⟨st.next, ?_, hk, rfl⟩
    rw [List.cons_append, walkPath, hstep]
    rfl
  | cons b l ih =>
    have hb := hl b List.mem_cons_self
    have hk₁ : st.next.keyTrustCache = (spelledState n).keyTrustCache := hk
    have hstep₁ : zoneStep (spelledEnv cr n) b (some [echoKey]) ttl st.next =
        (.go (some [echoKey]) ttl, st.next.next) := by
      simp only [zoneStep, cachedKeys, hk₁, spelledState, spelledEnv_zoneKey, hb, if_false]
      rfl
    obtain ⟨st', hw, hk', hleft⟩ :=
      ih (fun c hc => hl c (List.mem_cons_of_mem _ hc)) hb (some [echoKey]) hk₁ hstep₁
    refine ⟨st', ?_, hk', hleft⟩
    rw [← hw, List.cons_append, walkPath, hstep]

theorem buildTrustChain_spelled (hsize : ∀ b, (cr.sha256 b).length ≤ 48)
    (hroot : n.isRoot = false) :
    (m = n → ∃ keys ttl, (buildTrustChain (spelledEnv cr n) m (spelledState n)).1 =
        .Trusted keys ttl) ∧
      (HashesApart cr n m → m ≠ n →
        (buildTrustChain (spelledEnv cr n) m (spelledState n)).1 = .Bogus) := by
  have hmroot : m.isRoot = false := by rw [Name.isRoot_congr hm, hroot]
  obtain ⟨l, hpath, hline⟩ := Name.line_ancestors m.baseName
  have hrev : m.ancestors.reverse = .root :: l ++ [m] := by
    rw [Name.ancestors_of_not_root hmroot, List.reverse_cons, hpath]
  have hshort : ∀ a ∈ m.baseName.ancestors, a.fold ≠ n.fold := by
    intro a ha he
    have hne := Name.nameEq_of_zoneOf_baseName (Name.zoneOf_of_mem_ancestors ha) hmroot
    exact absurd (Name.nameEq_iff.mpr (he.trans hm.symm)) (by simp [hne])
  have hmem : ∀ a ∈ .root :: l, a.fold ≠ n.fold := by
    intro a ha
    rw [← hpath] at ha
    exact hshort a (List.mem_reverse.mp ha)
  obtain ⟨st', hwalk, hk, hleft⟩ : ∃ st', walkPath (spelledEnv cr n) (.root :: l ++ [m]) none 300
        (spelledState n) = walkPath (spelledEnv cr n) [m] (some [echoKey]) 300 st' ∧
      st'.keyTrustCache = (spelledState n).keyTrustCache ∧
      checksLeft st' = checksLeft (spelledState n) :=
    walkPath_cached (fun a ha => hmem a (List.mem_cons_of_mem _ ha)) (hmem _ List.mem_cons_self)
      [m] none 300 rfl
  have henough : 2 ≤ checksLeft st' := by
    rw [hleft]
    exact (by decide : 2 ≤ perValidationMaxSigChecks - 0)
  obtain ⟨hsame, hother⟩ := zoneStep_spelled hm hsize hroot hk henough 300
  rw [buildTrustChain, hrev, hwalk, walkPath]
  cases hz : zoneStep (spelledEnv cr n) m (some [echoKey]) 300 st' with
  | mk o st₁ =>
    rw [hz] at hsame hother
    constructor
    · intro heq
      obtain ⟨keys, ttl, ho⟩ := hsame heq
      obtain rfl : o = .go (some keys) ttl := ho
      exact ⟨keys, ttl, rfl⟩
    · intro hcr hne
      obtain rfl : o = .done .Bogus := hother hcr hne
      rfl

end

section
variable {cr : Crypto} {n n' : Name}

theorem spelledEnv_caseBlind (cr : Crypto) (n : Name) : CaseBlind (spelledEnv cr n) := by
  intro tick a b t h
  simp only [spelledEnv, h]

/-- the hash functions of `cr` -/
def SameHashes (cr cr' : Crypto) : Prop :=
  cr'.sha1 = cr.sha1 ∧ cr'.sha256 = cr.sha256 ∧ cr'.sha384 = cr.sha384

/-- **The chain depends on the spelling of the zone through the DS digest, and only through it.**
Two spellings have different digests.  On given upstream data they have one result if the DS records
name the same keys under both; on some upstream data they have two. -/
theorem chainCase_iff (hcr : HashesApart cr n n') (hn : n.fold = n'.fold) :
    (∀ (key : Dnskey) (digestType : UInt8),
        digestType = 1 ∨ digestType = 2 ∨ digestType = 4 →
        (computeDsDigest cr n key digestType = computeDsDigest cr n' key digestType ↔
          n = n' ∨ maxEncoded < (n.wire ++ key.emit).length)) ∧
      (∀ env st, CaseBlind env →
        (∀ a ∈ n.ancestors, ∀ b ∈ n'.ancestors, a.fold = b.fold →
          SpelledAlike env a b ∧ MatchedAlike env a b) →
        (buildTrustChain env n st).1 = (buildTrustChain env n' st).1) ∧
      ((∀ env st, SameHashes cr env.crypto → CaseBlind env →
        (buildTrustChain env n st).1 = (buildTrustChain env n' st).1) ↔ n = n') := by
  refine ⟨fun key digestType ht => computeDsDigest_eq_iff hcr hn key ht,
    fun env st hblind hmatch => buildTrustChain_agree hblind hn hmatch st, ?_, ?_⟩
  · intro hall
    by_contra hne
    have hroot : n.isRoot = false := by
      rw [Bool.eq_false_iff]
      intro hr
      have hr' := hr
      rw [Name.isRoot_congr hn] at hr'
      exact hne (Name.ext ((List.isEmpty_iff.mp hr).trans (List.isEmpty_iff.mp hr').symm))
    obtain ⟨keys, ttl, htrusted⟩ := (buildTrustChain_spelled rfl hcr.size hroot).1 rfl
    have hbogus := (buildTrustChain_spelled hn.symm hcr.size hroot).2 hcr (Ne.symm hne)
    have hsame := hall (spelledEnv cr n) (spelledState n) ⟨rfl, rfl, rfl⟩
      (spelledEnv_caseBlind cr n)
    rw [htrusted, hbogus] at hsame
    exact absurd hsame (by simp)
  · rintro rfl env st _ _
    rfl

end

/-! ## a zone `a.`, asked for as `A.` -/

/-- hash functions that keep the first octets -/
def headHash : Crypto :=
  { echoCrypto with
    sha1 := fun b => b.take 20
    sha256 := fun b => b.take 32
    sha384 := fun b => b.take 48 }

theorem headHash_apart : HashesApart headHash lowerA upperA := by
  have hne : ∀ (k : Nat) (key : Dnskey),
      (lowerA.wire ++ key.emit).take (k + 2) ≠ (upperA.wire ++ key.emit).take (k + 2) := by
    intro k key h
    exact absurd (List.cons.inj (List.cons.inj h).2).1 (by decide)
  refine ⟨fun key h => absurd h (hne 18 key), fun key h => absurd h (hne 30 key),
    fun key h => absurd h (hne 46 key), fun b => ?_⟩
  rw [headHash, List.length_take]
  omega

theorem headHash_digests_differ : HashesApart headHash lowerA upperA ∧
    computeDsDigest headHash lowerA echoKey 2 ≠ computeDsDigest headHash upperA echoKey 2 := by
  refine ⟨headHash_apart, fun h => ?_⟩
  have hiff := (chainCase_iff headHash_apart (by decide)).1 echoKey 2 (Or.inr (Or.inl rfl))
  rcases hiff.mp h with heq | hlong
  · exact absurd heq (by decide)
  · exact absurd hlong (by decide)

/-- one zone, one digest type and one set of upstream data and caches -/
theorem upperA_bogus :
    lowerA.fold = upperA.fold ∧
      computeDsDigest headHash lowerA echoKey 2 = some [1, 97, 0, 1, 1, 3, 15] ∧
      computeDsDigest headHash upperA echoKey 2 = some [1, 65, 0, 1, 1, 3, 15] ∧
      CaseBlind (spelledEnv headHash lowerA) ∧
      (buildTrustChain (spelledEnv headHash lowerA) lowerA (spelledState lowerA)).1 =
        .Trusted [echoKey] 300 ∧
      (buildTrustChain (spelledEnv headHash lowerA) upperA (spelledState lowerA)).1 = .Bogus := by
  refine ⟨by decide, by decide, by decide, spelledEnv_caseBlind _ _, ?_, ?_⟩
  · decide +kernel
  · decide +kernel

end DnsResolver
