import DnsResolver.Dnssec.ChainTrust
import DnsResolver.Dnssec.Validator

/-!
# What the check of one RRset establishes

* `CachesOk env st`          the two caches of the chain builder keep their promises;
* `Validates env P s s'`     from `s` to `s'` the trace grew by chain events and events that
                            satisfy `P`, and the caches still keep their promises;
* `isZoneSigned_ok`         `ProvenUnsigned` is proven;
* `validateRrset_ok`        what each verdict on an RRset rests on.
-/

namespace DnsResolver
open Trace

/-! ## pieces of a validation -/

structure CachesOk (env : Env) (st : State) : Prop where
  keys : KeysOk env st
  signed : SignedOk env st

/-- a chain event, whoever the anchors are -/
abbrev IsAnyChainEvent (e : Event) : Prop := IsChainEvent (fun _ _ => True) e

structure Validates (env : Env) (P : Event → Prop) (s s' : State) : Prop where
  log : Grew (fun e => IsAnyChainEvent e ∨ P e) s.log s'.log
  caches : CachesOk env s → CachesOk env s'

section
variable {env : Env} {P Q : Event → Prop} {s s₁ s₂ : State}

theorem Validates.refl (s : State) : Validates env P s s := ⟨Grew.refl _, id⟩

theorem Validates.trans (h : Validates env P s s₁) (h' : Validates env P s₁ s₂) :
    Validates env P s s₂ :=
  ⟨h.log.trans h'.log, fun hc => h'.caches (h.caches hc)⟩

theorem Validates.mono (h : Validates env P s s₁) (hPQ : ∀ e, P e → Q e) : Validates env Q s s₁ :=
  ⟨h.log.mono fun e he => he.imp id (hPQ e), h.caches⟩

theorem CachesOk.mono (h : CachesOk env s) (hl : s.log ⊆ s₁.log)
    (hk : s₁.keyTrustCache = s.keyTrustCache) (hs : s₁.signedZoneCache = s.signedZoneCache) :
    CachesOk env s₁ :=
  ⟨h.keys.mono hl hk, h.signed.mono hl hs⟩

theorem Validates.of_sigOnly (h : SigOnly P s s₁) : Validates env P s s₁ :=
  ⟨h.log.mono fun _ he => Or.inr he,
    fun hc => hc.mono h.log.subset h.keyTrustCache h.signedZoneCache⟩

theorem Validates.push {e : Event} (he : IsAnyChainEvent e ∨ P e) : Validates env P s (s.push e) :=
  ⟨Grew.push he, fun hc => hc.mono (List.subset_append_left _ _) rfl rfl⟩

theorem buildTrustChain_validates (env : Env) (zone : Name) (st : State) :
    Validates env P st (buildTrustChain env zone st).2 := by
  refine ⟨Grew.mono (buildTrustChain_grew env zone st) fun e he => ?_, fun hc => ?_⟩
  · exact Or.inl (he.mono fun _ _ _ => trivial)
  · have hok := buildTrustChain_ok env zone st hc.keys
    exact ⟨hok.keysOk, hok.signedOk hc.signed⟩

end

/-! ## is a zone signed? -/

theorem ProvenUnsigned.below {cr : Crypto} {log : List Event} {a n : Name}
    (h : ProvenUnsigned cr log a) (hz : a.zoneOf n = true) : ProvenUnsigned cr log n := by
  obtain ⟨zone, keys, h1, h2, h3⟩ := h
  exact ⟨zone, keys, Name.zoneOf_trans h1 hz, h2, h3⟩

section
variable {env : Env} {name : Name} {P : Event → Prop}

theorem signedLookup_ok (path : List Name) (hp : ∀ a ∈ path, a.zoneOf name = true)
    {st st' : State} {o : Option ZoneSignedness}
    (h : signedLookup env name path st = (o, st')) :
    SigOnly P st st' ∧ o ≠ some .Unknown ∧
      (o = some .ProvenUnsigned → SignedOk env st →
        ProvenUnsigned env.crypto st.log name) := by
  induction path generalizing st with
  | nil =>
    obtain ⟨rfl, rfl⟩ := Prod.mk.inj h
    exact ⟨SigOnly.refl _, by simp, fun hu => absurd hu (by simp)⟩
  | cons cur rest ih =>
    have ih' := @ih fun a ha => hp a (List.mem_cons_of_mem _ ha)
    have hskip : signedLookup env name rest st.next = (o, st') → SigOnly P st st' ∧
        o ≠ some .Unknown ∧ (o = some .ProvenUnsigned → SignedOk env st →
          ProvenUnsigned env.crypto st.log name) := by
      intro hr
      obtain ⟨h1, hknown, h2⟩ := ih' hr
      exact ⟨SigOnly.next.trans h1, hknown, fun hu hs => h2 hu (hs.mono (List.Subset.refl _) rfl)⟩
    unfold signedLookup at h
    split at h
    · exact ih' h
    · rename_i entry hentry
      split at h
      · split at h
        · rename_i hu
          obtain ⟨rfl, rfl⟩ := Prod.mk.inj h
          refine ⟨SigOnly.next, by simp, fun _ hs => ?_⟩
          obtain ⟨zone, hz, hproof⟩ := hs _ _ hentry hu
          refine hproof.below (Name.zoneOf_trans ?_ (hp cur (List.mem_cons_self ..)))
          exact Name.zoneOf_of_nameEq (Name.nameEq_iff.mpr (env.lowerKey.inj _ _ hz))
        · split at h
          · obtain ⟨rfl, rfl⟩ := Prod.mk.inj h
            exact ⟨SigOnly.next, by simp, fun hu => absurd hu (by simp)⟩
          · exact hskip h
        · exact hskip h
      · exact hskip h

theorem bestSoa_zoneOf {records : List Record} {zone : Name}
    (h : bestSoa name records = some zone) : zone.zoneOf name = true := by
  have hall : ∀ z, bestSoa name records = some z → z.zoneOf name = true := by
    unfold bestSoa
    refine List.foldlRecOn records _ (motive := fun best => ∀ z : Name, best = some z →
      z.zoneOf name = true) (fun z hz => absurd hz (by simp)) ?_
    intro best hb rec _ z hz
    split at hz
    · rename_i hrec
      rw [Bool.and_eq_true, Bool.or_eq_true] at hrec
      have hr : rec.name.zoneOf name = true := hrec.2.elim Name.zoneOf_of_nameEq id
      split at hz
      · split at hz
        · rwa [← Option.some.inj hz]
        · exact hb z hz
      · rwa [← Option.some.inj hz]
    · exact hb z hz
  exact hall zone h

theorem apexOf_zoneOf {candidate zone : Name} {msg : Message} (hc : candidate.zoneOf name = true)
    (h : apexOf name candidate msg = some zone) : zone.zoneOf name = true := by
  unfold apexOf at h
  split at h
  · rwa [← Option.some.inj h]
  · split at h
    · exact absurd h (by simp)
    · exact bestSoa_zoneOf h

theorem findZoneApexLoop_ok (path : List Name) (hp : ∀ a ∈ path, a.zoneOf name = true)
    {st st' : State} {o : Option Name} (h : findZoneApexLoop env name path st = (o, st')) :
    SigOnly P st st' ∧ ∀ zone, o = some zone → zone.zoneOf name = true := by
  induction path generalizing st with
  | nil =>
    obtain ⟨rfl, rfl⟩ := Prod.mk.inj h
    exact ⟨SigOnly.refl _, fun zone hz => absurd hz (by simp)⟩
  | cons candidate rest ih =>
    have ih' := @ih (fun a ha => hp a (List.mem_cons_of_mem _ ha)) st.next
    unfold findZoneApexLoop at h
    split at h
    · exact ⟨SigOnly.next.trans (ih' h).1, (ih' h).2⟩
    · split at h
      · rename_i zone hzone
        obtain ⟨rfl, rfl⟩ := Prod.mk.inj h
        refine ⟨SigOnly.next, fun z hz => ?_⟩
        rw [← Option.some.inj hz]
        exact apexOf_zoneOf (hp candidate (List.mem_cons_self ..)) hzone
      · exact ⟨SigOnly.next.trans (ih' h).1, (ih' h).2⟩

theorem CachesOk.setSigned {st : State} (h : CachesOk env st)
    (zone : Name) (s : ZoneSignedness) (ttl : UInt32)
    (hs : s = .ProvenUnsigned → ProvenUnsigned env.crypto st.log zone) :
    CachesOk env (st.setSigned env zone s ttl) := by
  refine ⟨h.keys.mono (List.Subset.refl _) rfl, fun k entry he hu => ?_⟩
  obtain ⟨exp, hupd⟩ := State.setSigned_signedZoneCache env zone s ttl st
  rw [hupd] at he
  by_cases hk : k = env.zoneKey zone
  · subst hk
    rw [Function.update_self] at he
    obtain rfl := Option.some.inj he
    exact ⟨zone, rfl, hs hu⟩
  · rw [Function.update_of_ne hk] at he
    exact h.signed k entry he hu

theorem apexOrParent_zoneOf {apex : Option Name}
    (h : ∀ zone, apex = some zone → zone.zoneOf name = true) :
    (apex.getD (if name.isRoot then .root else name.baseName)).zoneOf name = true := by
  cases apex with
  | some zone => exact h zone rfl
  | none =>
    show (if name.isRoot then Name.root else name.baseName).zoneOf name = true
    split
    · exact Name.root_zoneOf name
    · exact Name.zoneOf_baseName name

/-- between two traces the chain to a zone at or above `name` could not be built -/
def ChainBroken (old new : List Event) (name : Name) : Prop :=
  ∃ zone, zone.zoneOf name = true ∧ Added old new (.chainBroken name zone)

theorem ChainBroken.after {a b c : List Event} {Q : Event → Prop} (h : ChainBroken b c name)
    (hg : Grew Q a b) : ChainBroken a c name := by
  obtain ⟨zone, hz, he⟩ := h
  exact ⟨zone, hz, he.after hg⟩

/-- **`is_zone_signed`** keeps the promises of the caches, `ProvenUnsigned` is proven, and
`Unknown` stands for a chain that could not be built. -/
theorem isZoneSigned_ok {st st' : State} {s : ZoneSignedness}
    (h : isZoneSigned env name st = (s, st')) :
    Validates env P st st' ∧
      (s = .ProvenUnsigned → CachesOk env st → ProvenUnsigned env.crypto st'.log name) ∧
      (s = .Unknown → ChainBroken st.log st'.log name) := by
  have hpath := fun a (ha : a ∈ name.ancestors) => Name.zoneOf_of_mem_ancestors ha
  rcases isZoneSigned_cases h with hl | ⟨st₁, apex, st₂, zone, st₃, hl, ha, hz, hend⟩
  · obtain ⟨hs, hknown, hu⟩ := signedLookup_ok (P := P) _ hpath hl
    refine ⟨Validates.of_sigOnly hs, fun he hc => ?_, fun he => absurd (congrArg some he) hknown⟩
    exact (hu (congrArg some he) hc.signed).mono hs.log.subset
  · obtain ⟨hs, _⟩ := signedLookup_ok (P := P) _ hpath hl
    obtain ⟨hs₂, hapex⟩ := findZoneApexLoop_ok (P := P) _ hpath ha
    have hzone := apexOrParent_zoneOf hapex
    rw [hz] at hzone
    have hpre : Validates env P st st₂ := Validates.of_sigOnly (hs.trans hs₂)
    have hchain := buildTrustChain_validates (P := P) env zone st₂
    have hok := buildTrustChain_ok env zone st₂
    rcases hend with ⟨keys, ttl, hb, rfl, rfl⟩ | ⟨ttl, hb, rfl, rfl⟩ | ⟨hb, rfl, rfl⟩
    · rw [hb] at hchain
      refine ⟨hpre.trans (hchain.trans ⟨Grew.refl _, fun hc => ?_⟩), fun he => absurd he (by simp),
        fun he => absurd he (by simp)⟩
      exact hc.setSigned _ .Signed ttl fun he => absurd he (by simp)
    · rw [hb] at hchain hok
      have hproof := fun hc : CachesOk env st₂ => (hok hc.keys).unsigned ttl rfl
      refine ⟨⟨(hpre.trans hchain).log, fun hc => ?_⟩, fun _ hc => ?_, fun he => absurd he (by simp)⟩
      · exact ((hpre.trans hchain).caches hc).setSigned _ .ProvenUnsigned ttl
          fun _ => hproof (hpre.caches hc)
      · exact (hproof (hpre.caches hc)).below hzone
    · rw [hb] at hchain
      have hrun := hpre.trans hchain
      exact ⟨hrun.trans (Validates.push (Or.inl trivial)), fun he => absurd he (by simp),
        fun _ => ⟨_, hzone, Added.push.after hrun.log⟩⟩

end

/-! ## RRSIGs -/

section
variable {env : Env} {owner : Name} {records : List Record}

/-- what the loop over the candidates has established -/
structure CandidatesOk (env : Env) (owner : Name) (records candidates : List Record)
    (anyTrusted : Bool) (st : State) (status : DnssecStatus) (st' : State) : Prop where
  run : Validates env (IsCheckOf records) st st'
  secure : status = .Secure → ∃ rec ∈ candidates, ∃ sig key, rec.data = .rrsig sig ∧
    .sigCheck sig key rec records true ∈ st'.log ∧ signatureValid env.crypto sig key rec records = true
  unsigned : status = .InsecureUnsigned → anyTrusted = false ∧
    (CachesOk env st → candidates ≠ [] → ProvenUnsigned env.crypto st'.log owner)
  known : status ≠ .InsecureUnknown

/-- `Bogus` needs no reason -/
theorem CandidatesOk.bogus {candidates : List Record} {anyTrusted : Bool}
    {st st' : State} (h : Validates env (IsCheckOf records) st st') :
    CandidatesOk env owner records candidates anyTrusted st .Bogus st' :=
  ⟨h, fun he => absurd he (by decide), fun he => absurd he (by decide), by decide⟩

theorem CandidatesOk.cons {candidates : List Record} {anyTrusted any : Bool}
    {st s st' : State} {status : DnssecStatus} {rec : Record}
    (h : CandidatesOk env owner records candidates any s status st')
    (hs : Validates env (IsCheckOf records) st s)
    (hu : any = false → anyTrusted = false ∧ (CachesOk env st → ProvenUnsigned env.crypto s.log owner)) :
    CandidatesOk env owner records (rec :: candidates) anyTrusted st status st' := by
  refine ⟨hs.trans h.run, fun he => ?_, fun he => ?_, h.known⟩
  · obtain ⟨r, hmem, hrest⟩ := h.secure he
    exact ⟨r, List.mem_cons_of_mem _ hmem, hrest⟩
  · obtain ⟨hany, hproof⟩ := hu (h.unsigned he).1
    exact ⟨hany, fun hc _ => (hproof hc).mono h.run.log.subset⟩

theorem isCandidate_signer {now : Nat} {rec : Record} (h : isCandidate now owner rec = true) :
    ∃ sig, rec.data = .rrsig sig ∧ sig.signerName.zoneOf owner = true := by
  unfold isCandidate at h
  split at h
  · rename_i sig hsig
    simp only [Bool.and_eq_true, Bool.or_eq_true, decide_eq_true_eq] at h
    exact ⟨sig, hsig, h.1.2.elim id Name.zoneOf_of_nameEq⟩
  · exact absurd h (by decide)

theorem candidateLoop_ok {now : Nat} (candidates : List Record)
    (hcand : ∀ r ∈ candidates, isCandidate now owner r = true) {anyTrusted : Bool}
    {st st' : State} {status : DnssecStatus}
    (h : candidateLoop env records candidates anyTrusted st = (status, st')) :
    CandidatesOk env owner records candidates anyTrusted st status st' := by
  induction candidates generalizing anyTrusted st with
  | nil =>
    obtain ⟨rfl, rfl⟩ := Prod.mk.inj h
    cases anyTrusted with
    | true => exact CandidatesOk.bogus (Validates.refl _)
    | false =>
      exact ⟨Validates.refl _, fun he => absurd he (by decide),
        fun _ => ⟨rfl, fun _ he => absurd rfl he⟩, by decide⟩
  | cons rec rest ih =>
    have ih' := @ih fun r hr => hcand r (List.mem_cons_of_mem _ hr)
    obtain ⟨sig, hsig, hsigner⟩ := isCandidate_signer (hcand rec (List.mem_cons_self ..))
    have hchain := buildTrustChain_validates (P := IsCheckOf records) env sig.signerName st
    have hok := buildTrustChain_ok env sig.signerName st
    simp only [candidateLoop, hsig] at h
    split at h
    · rename_i keys ttl st₁ hb
      have hkeep := keySearch_sigOnly env records rec sig keys st₁
      rw [hb] at hchain
      split at h
      · rename_i x st₂ hs
        obtain ⟨rfl, rfl⟩ := Prod.mk.inj h
        rw [hs] at hkeep
        obtain ⟨key, _, _, hev, hval, _⟩ := keySearch_hit hs
        exact ⟨hchain.trans (Validates.of_sigOnly hkeep),
          fun _ => ⟨rec, List.mem_cons_self .., sig, key, hsig, hev.mem, hval⟩,
          fun he => absurd he (by decide), by decide⟩
      · rename_i st₂ hs
        obtain ⟨rfl, rfl⟩ := Prod.mk.inj h
        rw [hs] at hkeep
        exact CandidatesOk.bogus (hchain.trans (Validates.of_sigOnly hkeep))
      · -- a trusted chain without a signature that verifies: not unsigned any more
        rename_i st₂ hs
        rw [hs] at hkeep
        exact (ih' h).cons (hchain.trans (Validates.of_sigOnly hkeep))
          fun he => absurd he (by decide)
    · rename_i ttl st₁ hb
      rw [hb] at hchain hok
      exact (ih' h).cons hchain fun he =>
        ⟨he, fun hc => ((hok hc.keys).unsigned ttl rfl).below hsigner⟩
    · rename_i st₁ hb
      obtain ⟨rfl, rfl⟩ := Prod.mk.inj h
      rw [hb] at hchain
      exact CandidatesOk.bogus hchain

/-- what a verdict on the RRset of type `t` at `owner` rests on -/
structure RrsetOk (env : Env) (owner : Name) (t : RecordType) (answers : List Record)
    (st : State) (status : DnssecStatus) (st' : State) : Prop where
  run : Validates env (IsCheckOf (answers.filter (Record.isAt owner t))) st st'
  secure : status = .Secure → ∃ sig key rec, Checked env.crypto st'.log owner t answers sig key rec
  unsigned : status = .InsecureUnsigned → CachesOk env st → ProvenUnsigned env.crypto st'.log owner
  unknown : status = .InsecureUnknown →
    answers.any (Record.isRrsigOver owner t) = false ∧ ChainBroken st.log st'.log owner

theorem RrsetOk.bogus {t : RecordType} {answers : List Record} {st st' : State}
    (h : Validates env (IsCheckOf (answers.filter (Record.isAt owner t))) st st') :
    RrsetOk env owner t answers st .Bogus st' :=
  ⟨h, fun he => absurd he (by decide), fun he => absurd he (by decide),
    fun he => absurd he (by decide)⟩

/-- **One RRset.** -/
theorem validateRrset_ok {t : RecordType} {answers : List Record} {st st' : State}
    {status : DnssecStatus}
    (h : validateRrset env owner t (answers.filter (Record.isAt owner t)) answers st =
      (status, st')) :
    RrsetOk env owner t answers st status st' := by
  simp only [validateRrset] at h
  split at h
  · rename_i hemp
    obtain ⟨rfl, rfl⟩ := Prod.mk.inj h
    obtain ⟨hrun, hproof, hbroken⟩ := isZoneSigned_ok
      (P := IsCheckOf (answers.filter (Record.isAt owner t)))
      (Prod.eta (isZoneSigned env owner st)).symm
    have hnone : answers.any (Record.isRrsigOver owner t) = false := by
      simpa [List.filter_eq_nil_iff] using hemp
    cases hs : (isZoneSigned env owner st).1 with
    | Signed => exact RrsetOk.bogus hrun
    | ProvenUnsigned =>
      exact ⟨hrun, fun he => absurd he (by decide), fun _ => hproof hs,
        fun he => absurd he (by decide)⟩
    | Unknown =>
      exact ⟨hrun, fun he => absurd he (by decide), fun he => absurd he (by decide),
        fun _ => ⟨hnone, hbroken hs⟩⟩
  · split at h
    · obtain ⟨rfl, rfl⟩ := Prod.mk.inj h
      exact RrsetOk.bogus (Validates.of_sigOnly SigOnly.next)
    · rename_i hne
      have hok := candidateLoop_ok _ (fun r hr => (List.mem_filter.mp hr).2) h
      refine ⟨(Validates.of_sigOnly SigOnly.next).trans hok.run, fun he => ?_, fun he hc => ?_,
        fun he => absurd he hok.known⟩
      · obtain ⟨rec, hmem, sig, key, hd, hev, hval⟩ := hok.secure he
        obtain ⟨hm, ho⟩ := List.mem_filter.mp (List.mem_filter.mp hmem).1
        exact ⟨sig, key, rec, hev, hm, ho, hd, hval⟩
      · refine (hok.unsigned he).2 (hc.mono (List.Subset.refl _) rfl rfl) fun hnil => hne ?_
        rw [hnil]
        rfl

end
end DnsResolver
