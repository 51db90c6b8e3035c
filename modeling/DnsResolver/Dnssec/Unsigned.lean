import DnsResolver.Dnssec.RrsetCheck
import DnsResolver.Dnssec.Budget

/-!
# `ProvenUnsigned` is proven

`build_trust_chain` and `is_zone_signed` write `ProvenUnsigned` into the same cache, the first
under the zone whose DS is missing, the second under whatever apex an unauthenticated SOA response
named.

* `NoDs old new keys zone`        between the two traces the DS of `zone` was asked for under
                                  `keys`, and denied at a delegation or verified without a usable
                                  member;
* `UnsignedProof cr old new n`        so it was for a zone at or above `n`, under the keys of a zone
                                  properly above that one;
* `UnsignedWrites`                what one call may do to the cache;
* `zoneRun_unsigned`              every sequence of calls.
-/

namespace DnsResolver
open Trace

def NoDs (old new : List Event) (keys : List Dnskey) (zone : Name) : Prop :=
  ∃ msg, Added old new (.dsLookup zone keys msg) ∧
    ((∃ kind, Added old new
        (.denialVerdict kind keys zone .DS msg.nameServers .InsecureUnsigned)) ∨
      ∃ sig key rec, key ∈ keys ∧ rec ∈ msg.answers ∧ rec.isRrsigOver zone .DS = true ∧
        rec.data = .rrsig sig ∧
        Added old new (.sigCheck sig key rec (msg.answers.filter (Record.isAt zone .DS)) true) ∧
        dsRecordsAt zone msg.answers ≠ [] ∧ dsAnchorsAt zone msg.answers = [])

def UnsignedProof (cr : Crypto) (old new : List Event) (n : Name) : Prop :=
  ∃ zone keys parent rest, zone.zoneOf n = true ∧ TrustPath cr new ((parent, keys) :: rest) ∧
    parent.zoneOf zone = true ∧ parent.nameEq zone = false ∧ NoDs old new keys zone

section
variable {cr : Crypto} {P : Event → Prop} {a b c : List Event} {keys : List Dnskey} {n : Name}

theorem NoDs.after (h : NoDs b c keys n) (hg : Grew P a b) : NoDs a c keys n := by
  obtain ⟨msg, hl, h⟩ := h
  refine ⟨msg, hl.after hg, ?_⟩
  rcases h with ⟨kind, hv⟩ | ⟨sig, key, rec, h1, h2, h3, h4, h5, h6⟩
  · exact Or.inl ⟨kind, hv.after hg⟩
  · exact Or.inr ⟨sig, key, rec, h1, h2, h3, h4, h5.after hg, h6⟩

theorem NoDs.grew (h : NoDs a b keys n) (hg : Grew P b c) : NoDs a c keys n := by
  obtain ⟨msg, hl, h⟩ := h
  refine ⟨msg, hl.grew hg, ?_⟩
  rcases h with ⟨kind, hv⟩ | ⟨sig, key, rec, h1, h2, h3, h4, h5, h6⟩
  · exact Or.inl ⟨kind, hv.grew hg⟩
  · exact Or.inr ⟨sig, key, rec, h1, h2, h3, h4, h5.grew hg, h6⟩

theorem UnsignedProof.after (h : UnsignedProof cr b c n) (hg : Grew P a b) : UnsignedProof cr a c n := by
  obtain ⟨zone, keys, parent, rest, h1, h2, h3, h4, h5⟩ := h
  exact ⟨zone, keys, parent, rest, h1, h2, h3, h4, h5.after hg⟩

theorem UnsignedProof.grew (h : UnsignedProof cr a b n) (hg : Grew P b c) : UnsignedProof cr a c n := by
  obtain ⟨zone, keys, parent, rest, h1, h2, h3, h4, h5⟩ := h
  exact ⟨zone, keys, parent, rest, h1, h2.mono hg.subset, h3, h4, h5.grew hg⟩

theorem UnsignedProof.mem (h : UnsignedProof cr a b n) : UnsignedProof cr [] b n :=
  h.after (P := fun _ => True) ⟨a, rfl, fun _ _ => trivial⟩

theorem UnsignedProof.below {m : Name} (h : UnsignedProof cr a b n) (hz : n.zoneOf m = true) :
    UnsignedProof cr a b m := by
  obtain ⟨zone, keys, parent, rest, h1, h2⟩ := h
  exact ⟨zone, keys, parent, rest, Name.zoneOf_trans h1 hz, h2⟩

end

/-! ## one round -/

section
variable {env : Env} {zone : Name} {st st' : State} {ttl : UInt32}

theorem dsDenial_unsigned {keys : List Dnskey} {msg : Message}
    (h : dsDenial env zone keys msg st = (.ret (.Unsigned ttl), st')) :
    ∃ kind, Added st.log st'.log
      (.denialVerdict kind keys zone .DS msg.nameServers .InsecureUnsigned) := by
  cases dsDenial_end h with
  | unsigned hv =>
    cases hv with
    | nsec3 hv =>
      obtain ⟨hs, rfl⟩ := Prod.mk.inj hv
      refine ⟨.nsec3, ?_⟩
      rw [← hs]
      exact Added.push.after ((SigOnly.push trivial).trans
        ((nsec3Body_sigOnly _).mono fun _ _ => trivial)).log
    | nsec hv =>
      obtain ⟨hs, rfl⟩ := Prod.mk.inj hv
      refine ⟨.nsec, ?_⟩
      rw [← hs]
      exact Added.push.after ((SigOnly.push trivial).trans
        ((nsecBody_sigOnly _).mono fun _ _ => trivial)).log

theorem dsResponse_unsigned {keys : List Dnskey} {msg : Message}
    (h : dsResponse env zone keys msg st = (.ret (.Unsigned ttl), st')) :
    (∃ kind, Added st.log st'.log
        (.denialVerdict kind keys zone .DS msg.nameServers .InsecureUnsigned)) ∨
      ∃ sig key rec, key ∈ keys ∧ rec ∈ msg.answers ∧ rec.isRrsigOver zone .DS = true ∧
        rec.data = .rrsig sig ∧
        Added st.log st'.log
          (.sigCheck sig key rec (msg.answers.filter (Record.isAt zone .DS)) true) ∧
        dsRecordsAt zone msg.answers ≠ [] ∧ dsAnchorsAt zone msg.answers = [] := by
  cases dsResponse_end h with
  | denial hd => exact Or.inl (dsDenial_unsigned hd)
  | @unsigned x st₁ hl hne hemp =>
    obtain ⟨rec, sig, key⟩ := x
    obtain ⟨hmem, hd, _, hkey, _, hlog, _⟩ := rrsigLoop_hit hl
    obtain ⟨hm, ho⟩ := List.mem_filter.mp hmem
    refine Or.inr ⟨sig, key, rec, hkey, hm, ho, hd, ?_, hne, hemp⟩
    exact hlog.grew (Grew.push (P := fun _ => True) trivial)

theorem zoneStep_unsigned {keys : Option (List Dnskey)} {t : UInt32}
    (h : zoneStep env zone keys ttl st = (.done (.Unsigned t), st')) :
    ∃ ks, keys = some ks ∧ NoDs st.log st'.log ks zone := by
  cases zoneStep_end h with
  | @ret _ st₁ _ hc hd =>
    have hs := (cachedKeys_cases hc).1
    cases trustedDs_end hd with
    | @response ks msg _ _ _ hp _ hresp =>
      have hlook : Added st₁.log (st₁.next.push (.dsLookup zone ks msg)).log
          (.dsLookup zone ks msg) := Added.push
      have hpre : Grew (fun _ => True) st₁.log
          (st₁.next.push (.dsLookup zone ks msg)).log := Grew.push trivial
      have hgrew : ChainGrew env.crypto (st₁.next.push (.dsLookup zone ks msg)) st' := by
        cases dsResponse_round (List.mem_append_right _ (List.mem_singleton.mpr rfl)) hresp with
        | unsigned hg _ _ _ => exact hg
      refine ⟨ks, hp, NoDs.after ⟨msg, hlook.grew hgrew, ?_⟩ hs.log⟩
      rcases dsResponse_unsigned hresp with ⟨kind, hv⟩ | ⟨sig, key, rec, h1, h2, h3, h4, h5, h6⟩
      · exact Or.inl ⟨kind, hv.after hpre⟩
      · exact Or.inr ⟨sig, key, rec, h1, h2, h3, h4, h5.after hpre, h6⟩

theorem Authentic.properAncestor {cr : Crypto} {log : List Event} {keys : List Dnskey}
    (h : Authentic cr log keys zone.baseName) (hr : zone.isRoot = false) :
    ∃ parent rest, TrustPath cr log ((parent, keys) :: rest) ∧ parent.zoneOf zone = true ∧
      parent.nameEq zone = false := by
  obtain ⟨z, rest, hp, hz, _⟩ := h
  exact ⟨z, rest, hp, Name.zoneOf_trans hz (Name.zoneOf_baseName zone),
    Name.nameEq_of_zoneOf_baseName hz hr⟩

end

/-! ## one call -/

/-- new `ProvenUnsigned` entries are justified by the call itself, which then says so and was not
refused a signature check -/
def UnsignedWrites (env : Env) (unsigned : Prop) (s s' : State) : Prop :=
  ∀ k entry, s'.signedZoneCache k = some entry → entry.signedness = .ProvenUnsigned →
    s.signedZoneCache k = some entry ∨
      ((∃ zone, env.zoneKey zone = k ∧ UnsignedProof env.crypto s.log s'.log zone) ∧ unsigned ∧
        s'.budget.refused = s.budget.refused)

section
variable {env : Env} {target : Name} {st st' : State}

/-- what one call of `build_trust_chain` says and writes about unsigned zones -/
structure ChainUnsigned (env : Env) (target : Name) (st : State) (r : ChainResult)
    (st' : State) : Prop where
  grew : ChainGrew env.crypto st st'
  result : ∀ ttl, r = .Unsigned ttl → UnsignedProof env.crypto st.log st'.log target
  cache : st'.signedZoneCache = st.signedZoneCache ∨
    ∃ ttl, r = .Unsigned ttl ∧ ∃ zone exp, UnsignedProof env.crypto st.log st'.log zone ∧
      st'.signedZoneCache = Function.update st.signedZoneCache (env.zoneKey zone)
        (some ⟨.ProvenUnsigned, exp⟩)

theorem zoneStep_chainUnsigned {zone : Name} {rest : List Name}
    {keys : Option (List Dnskey)} {ttl : UInt32} {o : ZoneStep} {s s' : State}
    (h : WalkOk env target st keys (zone :: rest) s) (hg : ChainGrew env.crypto st s)
    (hsame : s.signedZoneCache = st.signedZoneCache)
    (hround : Round env zone keys ttl s s' o)
    (hnew : ∀ t, o = .done (.Unsigned t) → ∃ ks, keys = some ks ∧ NoDs s.log s'.log ks zone) :
    (∀ r, o = .done r → ChainUnsigned env target st r s') ∧
      (∀ ks t, o = .go ks t → s'.signedZoneCache = st.signedZoneCache) := by
  obtain ⟨hline, hhead⟩ := h.head
  have hg' := hg.trans hround.grew
  cases hround with
  | cached _ hs => exact ⟨fun r he => absurd he (by simp), fun _ _ _ => hs.signedZoneCache.trans hsame⟩
  | skip _ _ hs _ =>
    exact ⟨fun r he => absurd he (by simp), fun _ _ _ => hs.signedZoneCache.trans hsame⟩
  | keys _ _ hs _ _ _ => exact ⟨fun r he => absurd he (by simp), fun _ _ _ => hs.trans hsame⟩
  | bogus hs =>
    refine ⟨fun r he => ?_, fun _ _ he => absurd he (by simp)⟩
    obtain rfl := ZoneStep.done.inj he
    exact ⟨hg', fun _ hu => absurd hu (by simp), Or.inl (hs.signedZoneCache.trans hsame)⟩
  | unsigned hr hpk hgr hk hsigned hu =>
    refine ⟨fun r he => ?_, fun _ _ he => absurd he (by simp)⟩
    obtain rfl := ZoneStep.done.inj he
    obtain ⟨ks, hks, hnods⟩ := hnew _ rfl
    rcases hhead with ⟨hnone, _⟩ | ⟨hroot, ks', hks', ha⟩
    · exact absurd (hnone.symm.trans hks) (by simp)
    · obtain rfl := Option.some.inj (hks'.symm.trans hks)
      obtain ⟨parent, tail, hp, hz, hne⟩ := (ha.mono (Grew.subset hgr)).properAncestor hroot
      have hzone : UnsignedProof env.crypto st.log s'.log zone :=
        ⟨zone, ks', parent, tail, Name.zoneOf_refl zone, hp, hz, hne, hnods.after hg⟩
      obtain ⟨exp, hupd⟩ := hsigned
      rw [hsame] at hupd
      exact ⟨hg', fun _ _ => hzone.below hline.zoneOf, Or.inr ⟨_, rfl, zone, exp, hzone, hupd⟩⟩

theorem buildTrustChain_unsigned (env : Env) (target : Name) (st : State)
    (h : KeysOk env st) :
    ChainUnsigned env target st (buildTrustChain env target st).1
      (buildTrustChain env target st).2 := by
  obtain ⟨l, hl, hline⟩ := Name.line_ancestors target
  refine walkPath_rule
    (J := fun keys rest s => WalkOk env target st keys rest s ∧
      ChainGrew env.crypto st s ∧ s.signedZoneCache = st.signedZoneCache)
    (Q := ChainUnsigned env target st) ?_ ?_ _ _ _ _
    ⟨⟨h, id, Or.inl ⟨rfl, l, hl, hline⟩⟩, Grew.refl _, rfl⟩
  · intro zone rest keys ttl s o s' hJ hz
    obtain ⟨hwalk, hg, hsame⟩ := hJ
    have hround := zoneStep_round hz
    have hok := zoneStep_ok hwalk hround
    obtain ⟨hdone, hgo⟩ := zoneStep_chainUnsigned hwalk hg hsame hround
      fun t ho => zoneStep_unsigned (by rw [hz, ho])
    cases o with
    | done r => exact hdone r rfl
    | go ks t => exact ⟨hok, hg.trans hround.grew, hgo ks t rfl⟩
  · intro keys ttl s hJ
    obtain ⟨hwalk, hg, hsame⟩ := hJ
    rcases hwalk.line with ⟨_, l, hnil, _⟩ | ⟨ks, n, rfl, _, _⟩
    · exact absurd hnil (by simp)
    · exact ⟨hg, fun _ he => absurd he (by simp [walkEnd]), Or.inl hsame⟩

theorem ChainUnsigned.writes {r : ChainResult}
    (h : ChainUnsigned env target st r st') (hs : Spends (r ≠ .Bogus) st st') :
    UnsignedWrites env (∃ ttl, r = .Unsigned ttl) st st' := by
  intro k entry he _
  rcases h.cache with hsame | ⟨ttl, rfl, zone, exp, hproof, hupd⟩
  · rw [hsame] at he
    exact Or.inl he
  · by_cases hk : k = env.zoneKey zone
    · exact Or.inr ⟨⟨zone, hk.symm, hproof⟩, ⟨ttl, rfl⟩, hs.closed (by simp)⟩
    · rw [hupd, Function.update_of_ne hk] at he
      exact Or.inl he

/-- every entry of the cache is justified by the trace -/
def UnsignedOk (env : Env) (st : State) : Prop :=
  ∀ k entry, st.signedZoneCache k = some entry → entry.signedness = .ProvenUnsigned →
    ∃ zone, env.zoneKey zone = k ∧ UnsignedProof env.crypto [] st.log zone

theorem signedLookup_proof {name : Name} (hok : UnsignedOk env st)
    (path : List Name) (hp : ∀ a ∈ path, a.zoneOf name = true) {s s' : State}
    (hcache : s.signedZoneCache = st.signedZoneCache)
    (h : signedLookup env name path s = (some .ProvenUnsigned, s')) :
    UnsignedProof env.crypto [] st.log name := by
  induction path generalizing s with
  | nil => simp [signedLookup] at h
  | cons cur rest ih =>
    have ih' := @ih fun a ha => hp a (List.mem_cons_of_mem _ ha)
    unfold signedLookup at h
    split at h
    · exact ih' hcache h
    · rename_i entry hentry
      split at h
      · split at h
        · rename_i hu
          rw [hcache] at hentry
          obtain ⟨zone, hz, hproof⟩ := hok _ _ hentry hu
          refine hproof.below (Name.zoneOf_trans ?_ (hp cur (List.mem_cons_self ..)))
          exact Name.zoneOf_of_nameEq (Name.nameEq_iff.mpr (env.lowerKey.inj _ _ hz))
        · split at h
          · simp at h
          · exact ih' (s := s.next) hcache h
        · exact ih' (s := s.next) hcache h
      · exact ih' (s := s.next) hcache h

theorem setSigned_entry {zone : Name} {x : ZoneSignedness} {ttl : UInt32} {k : ZoneKey}
    {entry : SignedZoneEntry} (h : (st.setSigned env zone x ttl).signedZoneCache k = some entry) :
    (env.zoneKey zone = k ∧ entry.signedness = x) ∨ st.signedZoneCache k = some entry := by
  obtain ⟨exp, hupd⟩ := State.setSigned_signedZoneCache env zone x ttl st
  rw [hupd] at h
  by_cases hk : k = env.zoneKey zone
  · subst hk
    rw [Function.update_self] at h
    obtain rfl := Option.some.inj h
    exact Or.inl ⟨rfl, rfl⟩
  · rw [Function.update_of_ne hk] at h
    exact Or.inr h

/-- what one call of `is_zone_signed` says and writes about unsigned zones -/
theorem isZoneSigned_unsigned {name : Name} {s : ZoneSignedness} (hkeys : KeysOk env st)
    (h : isZoneSigned env name st = (s, st')) :
    (s = .ProvenUnsigned → UnsignedOk env st → UnsignedProof env.crypto [] st'.log name) ∧
      UnsignedWrites env (s = .ProvenUnsigned) st st' := by
  have hpath := fun a (ha : a ∈ name.ancestors) => Name.zoneOf_of_mem_ancestors ha
  rcases isZoneSigned_cases h with hl | ⟨st₁, apex, st₂, zone, st₃, hl, ha, hz, hend⟩
  · obtain ⟨hs, _⟩ := signedLookup_ok (P := fun _ => True) _ hpath hl
    refine ⟨fun he hok => ?_, fun k entry he _ => Or.inl (by rwa [hs.signedZoneCache] at he)⟩
    rw [he] at hl
    exact (signedLookup_proof hok _ hpath rfl hl).grew hs.log
  · obtain ⟨hs, _⟩ := signedLookup_ok (P := fun _ => True) _ hpath hl
    obtain ⟨hs₂, hapex⟩ := findZoneApexLoop_ok (P := fun _ => True) _ hpath ha
    have hpre := hs.trans hs₂
    have hspent : ∀ {ok}, Spends ok st st₂ :=
      (findZoneApexLoop_spends name _ ha).after (signedLookup_spends name _ hl)
    have hzone := apexOrParent_zoneOf hapex
    rw [hz] at hzone
    have hchain := buildTrustChain_unsigned env zone st₂
      (hkeys.mono hpre.log.subset hpre.keyTrustCache)
    have hcache : ∀ k entry, st₂.signedZoneCache k = some entry →
        st.signedZoneCache k = some entry := by
      intro k entry he
      rwa [hpre.signedZoneCache] at he
    rcases hend with ⟨keys, ttl, hb, rfl, rfl⟩ | ⟨ttl, hb, rfl, rfl⟩ | ⟨hb, rfl, rfl⟩
    · rw [hb] at hchain
      refine ⟨fun he => absurd he (by simp), fun k entry he hu => ?_⟩
      rcases setSigned_entry he with ⟨_, hx⟩ | hold
      · exact absurd (hx.symm.trans hu) (by decide)
      · rcases hchain.cache with hsame | ⟨_, hne, _⟩
        · rw [hsame] at hold
          exact Or.inl (hcache k entry hold)
        · exact absurd hne (by simp)
    · rw [hb] at hchain
      have hproof := (hchain.result ttl rfl).after hpre.log
      have hrefused : Spends True st st₃ :=
        ((buildTrustChain_spends hb).mono fun _ => by simp).after hspent
      refine ⟨fun _ _ => ?_, fun k entry he hu => ?_⟩
      · exact (hproof.below hzone).mem
      · rcases setSigned_entry he with ⟨hk, _⟩ | hold
        · exact Or.inr ⟨⟨zone, hk, hproof⟩, rfl, hrefused.closed trivial⟩
        · rcases hchain.writes (buildTrustChain_spends hb) k entry hold hu with hold | hnew
          · exact Or.inl (hcache k entry hold)
          · obtain ⟨⟨z, hz, hzp⟩, _, _⟩ := hnew
            exact Or.inr ⟨⟨z, hz, hzp.after hpre.log⟩, rfl, hrefused.closed trivial⟩
    · rw [hb] at hchain
      refine ⟨fun he => absurd he (by simp), fun k entry he hu => ?_⟩
      rcases hchain.cache with hsame | ⟨_, hne, _⟩
      · exact Or.inl (hcache k entry (by rwa [← hsame]))
      · exact absurd hne (by simp)

end

/-! ## every sequence of calls -/

inductive ZoneCall where
  | isZoneSigned (name : Name)
  | buildTrustChain (targetZone : Name)

inductive ZoneAnswer where
  | signedness (s : ZoneSignedness)
  | chain (r : ChainResult)

def ZoneCall.name : ZoneCall → Name
  | .isZoneSigned name => name
  | .buildTrustChain targetZone => targetZone

/-- the caller is told that the zone is unsigned -/
def ZoneAnswer.unsigned : ZoneAnswer → Prop
  | .signedness s => s = .ProvenUnsigned
  | .chain r => ∃ ttl, r = .Unsigned ttl

def zoneCall (env : Env) (call : ZoneCall) (st : State) : ZoneAnswer × State :=
  match call with
  | .isZoneSigned name => ((.signedness (isZoneSigned env name st).1), (isZoneSigned env name st).2)
  | .buildTrustChain targetZone =>
    (.chain (buildTrustChain env targetZone st).1, (buildTrustChain env targetZone st).2)

/-- a sequence of calls, each with a signature budget of its own -/
def zoneRun (env : Env) : List (ZoneCall × ValidationBudget) → State → State
  | [], st => st
  | (call, budget) :: calls, st =>
    zoneRun env calls (zoneCall env call { st with budget := budget }).2

/-- empty caches and an empty trace, everything else as it is -/
def State.emptied (st : State) : State :=
  { st with keyTrustCache := fun _ => none, signedZoneCache := fun _ => none, log := [] }

/-- the loop of `build_trust_chain` runs through its list without ever having keys: the `None`
branch at its end -/
def endsWithoutKeys (env : Env) : List Name → Option (List Dnskey) → UInt32 → State → Prop
  | [], keys, _, _ => keys = none
  | zone :: rest, keys, ttl, st =>
    match zoneStep env zone keys ttl st with
    | (.done _, _) => False
    | (.go keys ttl, st) => endsWithoutKeys env rest keys ttl st

section
variable {env : Env} {st : State}

theorem Round.go_some {env : Env} {zone : Name} {keys ks : Option (List Dnskey)}
    {ttl t : UInt32} {s s' : State} (h : Round env zone keys ttl s s' (.go ks t)) :
    ks ≠ none := by
  cases h <;> simp

theorem endsWithoutKeys_some (path : List Name) (keys : List Dnskey) (ttl : UInt32) (st : State) :
    ¬ endsWithoutKeys env path (some keys) ttl st := by
  induction path generalizing keys ttl st with
  | nil => simp [endsWithoutKeys]
  | cons zone rest ih =>
    unfold endsWithoutKeys
    split
    · exact id
    · rename_i ks t st₁ hz
      cases ks with
      | none => exact absurd rfl (zoneStep_round hz).go_some
      | some ks => exact ih ks t st₁

theorem endsWithoutKeys_start (env : Env) (target : Name) (st : State) :
    ¬ endsWithoutKeys env target.ancestors.reverse none 300 st := by
  obtain ⟨l, hl, _⟩ := Name.line_ancestors target
  rw [hl]
  unfold endsWithoutKeys
  split
  · exact id
  · rename_i ks t st₁ hz
    cases ks with
    | none => exact absurd rfl (zoneStep_round hz).go_some
    | some ks => exact endsWithoutKeys_some l ks t st₁

/-- what one call keeps, says and writes -/
structure CallOk (env : Env) (name : Name) (s : State) (a : ZoneAnswer) (s' : State) :
    Prop where
  run : Validates env (fun _ => True) s s'
  answer : KeysOk env s → UnsignedOk env s → a.unsigned → UnsignedProof env.crypto [] s'.log name
  writes : KeysOk env s → UnsignedWrites env a.unsigned s s'

theorem zoneCall_ok (env : Env) (call : ZoneCall) (st : State) :
    CallOk env call.name st (zoneCall env call st).1 (zoneCall env call st).2 := by
  cases call with
  | isZoneSigned name =>
    have hrun := (isZoneSigned_ok (P := fun _ => True)
      (Prod.eta (isZoneSigned env name st)).symm).1
    refine ⟨hrun, fun hk hok hu => ?_, fun hk => ?_⟩
    · exact (isZoneSigned_unsigned hk (Prod.eta (isZoneSigned env name st)).symm).1 hu hok
    · exact (isZoneSigned_unsigned hk (Prod.eta (isZoneSigned env name st)).symm).2
  | buildTrustChain targetZone =>
    refine ⟨buildTrustChain_validates env targetZone st, fun hk _ hu => ?_, fun hk => ?_⟩
    · obtain ⟨ttl, hu⟩ := hu
      exact ((buildTrustChain_unsigned env targetZone st hk).result ttl hu).mem
    · exact (buildTrustChain_unsigned env targetZone st hk).writes
        (buildTrustChain_spends (Prod.eta (buildTrustChain env targetZone st)).symm)

theorem CallOk.unsignedOk {name : Name} {a : ZoneAnswer} {s s' : State}
    (h : CallOk env name s a s') (hk : KeysOk env s) (hok : UnsignedOk env s) : UnsignedOk env s' := by
  intro k entry he hu
  rcases h.writes hk k entry he hu with hold | ⟨⟨zone, hz, hproof⟩, _⟩
  · obtain ⟨zone, hz, hproof⟩ := hok k entry hold hu
    exact ⟨zone, hz, hproof.grew h.run.log⟩
  · exact ⟨zone, hz, hproof.mem⟩

theorem zoneRun_ok (calls : List (ZoneCall × ValidationBudget))
    (hc : CachesOk env st) (hok : UnsignedOk env st) :
    CachesOk env (zoneRun env calls st) ∧ UnsignedOk env (zoneRun env calls st) := by
  induction calls generalizing st with
  | nil => exact ⟨hc, hok⟩
  | cons call calls ih =>
    obtain ⟨call, budget⟩ := call
    have hcall := zoneCall_ok env call { st with budget := budget }
    have hc' : CachesOk env { st with budget := budget } := ⟨hc.keys, hc.signed⟩
    exact ih (hcall.run.caches hc') (hcall.unsignedOk hc.keys hok)

theorem cachesOk_emptied (env : Env) (st : State) : CachesOk env st.emptied :=
  ⟨fun _ _ he => absurd he (by simp [State.emptied]),
    fun _ _ he => absurd he (by simp [State.emptied])⟩

end
end DnsResolver
