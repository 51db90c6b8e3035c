import DnsResolver.Dnssec.ChainTrust

/-!
# Are trusted keys and anchors signed?

`build_trust_chain` reads the keys (and the DS data) of a zone off all records of the type at the
zone, of any class; `build_tbs_manual` serialises only those of the class of the RRSIG record.  So
a record of another class is trusted although no signature covers it (`forgedRun_not_covered`).

* `Covered log zone t d`   the RDATA `d` is among the records that `build_tbs_manual` serialised
                           into octets on which `verify_rrsig` returned true;
* `OneClass`               a response does not mix classes where it matters;
* `chainRun_covered`       if no response of the run mixes classes, everything that is trusted in
                           it is covered.
-/

namespace DnsResolver
open Trace

/-- `verify_rrsig` returned true on octets into which RDATA `d` of type `t` at `zone` was
serialised -/
def Covered (log : List Event) (zone : Name) (t : RecordType) (d : RData) : Prop :=
  ∃ sig key rec records tbs, .sigCheck sig key rec records true ∈ log ∧
    rec.data = .rrsig sig ∧ rec.isRrsigOver zone t = true ∧
    buildTbsManual rec records = some tbs ∧ ∃ r ∈ tbsRrset rec sig records, r.data = d

/-- whenever an RRSIG of the response verifies under a key in `K`, every record in `used` has its
RDATA on a record of the class of that RRSIG -/
def OneClass (cr : Crypto) (zone : Name) (t : RecordType) (K : Dnskey → Prop)
    (used : RData → Prop) (answers : List Record) : Prop :=
  ∀ rec ∈ answers, ∀ sig key, rec.data = .rrsig sig → rec.isRrsigOver zone t = true → K key →
    signatureValid cr sig key rec (answers.filter (Record.isAt zone t)) = true →
    ∀ r ∈ answers, r.isAt zone t = true → used r.data →
      ∃ r' ∈ answers, r'.isAt zone t = true ∧ r'.dnsClass = rec.dnsClass ∧ r'.data = r.data

/-- DS data with a supported algorithm and digest -/
def UsableDs (d : RData) : Prop := ∃ x, d = .ds x ∧ (dsAnchor x).isSome = true

/-- DNSKEY data with the Zone Key flag -/
def ZoneKeyData (d : RData) : Prop := ∃ k, d = .dnskey k ∧ k.isZoneKey = true

/-- no look-up of the trace brought a response that mixes classes -/
structure Unmixed (cr : Crypto) (log : List Event) : Prop where
  ds : ∀ zone parentKeys msg, .dsLookup zone parentKeys msg ∈ log →
    OneClass cr zone .DS (· ∈ parentKeys) UsableDs msg.answers
  dnskey : ∀ zone anchors msg, .dnskeyLookup zone anchors msg ∈ log →
    OneClass cr zone .DNSKEY (NamedBy cr zone anchors) ZoneKeyData msg.answers

/-- everything trusted so far is covered -/
structure AllCovered (env : Env) (st : State) : Prop where
  keys : ∀ k entry key, st.keyTrustCache k = some entry → key ∈ entry.keys →
    ∃ zone, env.zoneKey zone = k ∧ Covered st.log zone .DNSKEY (.dnskey key)
  ds : ∀ zone d, .trustedDs zone d ∈ st.log → Covered st.log zone .DS (.ds d)

section
variable {cr : Crypto} {log log' : List Event} {zone : Name} {t : RecordType}

theorem Covered.mono {d : RData} (h : Covered log zone t d) (hl : log ⊆ log') :
    Covered log' zone t d := by
  obtain ⟨sig, key, rec, records, tbs, h1, h2⟩ := h
  exact ⟨sig, key, rec, records, tbs, hl h1, h2⟩

theorem Unmixed.mono (h : Unmixed cr log') (hl : log ⊆ log') : Unmixed cr log :=
  ⟨fun zone ks msg hm => h.ds zone ks msg (hl hm), fun zone as msg hm => h.dnskey zone as msg (hl hm)⟩

theorem OneClass.of_class {K : Dnskey → Prop} {used : RData → Prop} {answers : List Record}
    {c : DnsClass} (h : ∀ r ∈ answers, r.dnsClass = c) : OneClass cr zone t K used answers :=
  fun rec hrec _ _ _ _ _ _ r hr hat _ => ⟨r, hr, hat, (h r hr).trans (h rec hrec).symm, rfl⟩

theorem Checked.covered {answers : List Record} {sig : Rrsig} {key : Dnskey} {rec r : Record}
    {K : Dnskey → Prop} {used : RData → Prop} (h : Checked cr log zone t answers sig key rec)
    (hc : OneClass cr zone t K used answers) (hk : K key) (hr : r ∈ answers)
    (hat : r.isAt zone t = true) (hu : used r.data) : Covered log zone t r.data := by
  obtain ⟨r', hm, hat', hcls, hdata⟩ :=
    hc rec h.mem sig key h.data h.rrsig hk h.valid r hr hat hu
  obtain ⟨tbs, htbs, _⟩ := signatureValid_tbs h.valid
  obtain ⟨s, hs, hname, htype⟩ := Record.isRrsigOver_iff.mp h.rrsig
  obtain rfl := RData.rrsig.inj (hs.symm.trans h.data)
  obtain ⟨hname', htype'⟩ := Record.isAt_iff.mp hat'
  refine ⟨s, key, rec, _, tbs, h.event, h.data, h.rrsig, htbs, r', ?_, hdata⟩
  exact mem_tbsRrset.mpr ⟨List.mem_filter.mpr ⟨hm, hat'⟩,
    Name.nameEq_trans hname' (Name.nameEq_symm hname), htype'.trans htype.symm, hcls⟩

theorem KeysVerified.covered {anchors : List Anchor} {answers : List Record} {key : Dnskey}
    (h : KeysVerified cr log zone anchors answers)
    (hc : OneClass cr zone .DNSKEY (NamedBy cr zone anchors) ZoneKeyData answers)
    (hk : key ∈ zoneKeysAt zone answers) : Covered log zone .DNSKEY (.dnskey key) := by
  obtain ⟨sig, key', rec, hcheck, _, hnamed⟩ := h
  obtain ⟨hmem, hflag⟩ := List.mem_filter.mp hk
  obtain ⟨r, hr, hdata⟩ := List.mem_filterMap.mp hmem
  obtain ⟨hr, hname⟩ := List.mem_filter.mp hr
  have hdata := Record.dnskey?_eq_some.mp hdata
  have hat : r.isAt zone .DNSKEY = true :=
    Record.isAt_iff.mpr ⟨hname, by rw [Record.recordType, hdata]; rfl⟩
  rw [← hdata]
  exact hcheck.covered hc hnamed hr hat ⟨key, hdata, hflag⟩

theorem DsTrusted.covered {d : Ds} (h : DsTrusted cr log zone d) (hu : Unmixed cr log) :
    Covered log zone .DS (.ds d) := by
  obtain ⟨parentKeys, msg, hlook, ⟨sig, key, rec, hcheck, hkey⟩, hd, hsome⟩ := h
  obtain ⟨r, hr, hdata⟩ := List.mem_filterMap.mp hd
  obtain ⟨hr, hname⟩ := List.mem_filter.mp hr
  have hdata := Record.ds?_eq_some.mp hdata
  have hat : r.isAt zone .DS = true :=
    Record.isAt_iff.mpr ⟨hname, by rw [Record.recordType, hdata]; rfl⟩
  rw [← hdata]
  exact hcheck.covered (hu.ds zone parentKeys msg hlook) hkey hr hat ⟨d, hdata, hsome⟩

end

section
variable {env : Env} {st st' : State}

theorem AllCovered.grew (h : AllCovered env st) (hg : ChainGrew env.crypto st st')
    (hu : Unmixed env.crypto st'.log)
    (hc : st'.keyTrustCache = st.keyTrustCache) : AllCovered env st' := by
  have hl := Grew.subset hg
  refine ⟨fun k entry key he hk => ?_, fun zone d hm => ?_⟩
  · rw [hc] at he
    obtain ⟨zone, hz, hcov⟩ := h.keys k entry key he hk
    exact ⟨zone, hz, hcov.mono hl⟩
  · rcases Grew.mem hg hm with hm | hnew
    · exact (h.ds zone d hm).mono hl
    · exact DsTrusted.covered hnew hu

/-- the keys in hand during a walk to `target` -/
def KeysCovered (target : Name) (log : List Event) (keys : List Dnskey) : Prop :=
  ∀ key ∈ keys, ∃ zone, zone.zoneOf target = true ∧ Covered log zone .DNSKEY (.dnskey key)

theorem KeysCovered.mono {target : Name} {log log' : List Event} {keys : List Dnskey}
    (h : KeysCovered target log keys) (hl : log ⊆ log') : KeysCovered target log' keys := by
  intro key hk
  obtain ⟨zone, hz, hc⟩ := h key hk
  exact ⟨zone, hz, hc.mono hl⟩

/-- before a round: as long as no response mixed classes, everything trusted is covered -/
def CoverWalk (env : Env) (target : Name) (keys : Option (List Dnskey)) (rest : List Name)
    (st : State) : Prop :=
  (∀ zone ∈ rest, zone.zoneOf target = true) ∧
    (Unmixed env.crypto st.log →
      AllCovered env st ∧ ∀ ks, keys = some ks → KeysCovered target st.log ks)

def CoverResult (env : Env) (target : Name) (r : ChainResult) (st : State) : Prop :=
  Unmixed env.crypto st.log → AllCovered env st ∧ ∀ keys ttl, r = .Trusted keys ttl →
    KeysCovered target st.log keys

theorem zoneStep_covered {target zone : Name} {keys : Option (List Dnskey)} {rest : List Name}
    {ttl : UInt32} {o : ZoneStep} (h : CoverWalk env target keys (zone :: rest) st)
    (hround : Round env zone keys ttl st st' o) :
    RoundKeeps (CoverWalk env target) (CoverResult env target) rest st' o := by
  obtain ⟨hline, hcov⟩ := h
  have hzone := hline zone (List.mem_cons_self ..)
  have hrest : ∀ z ∈ rest, z.zoneOf target = true := fun z hz =>
    hline z (List.mem_cons_of_mem _ hz)
  have hg := hround.grew
  have hl := Grew.subset hg
  cases hround with
  | @cached entry hentry hs =>
    refine ⟨hrest, fun hu => ?_⟩
    obtain ⟨hall, _⟩ := hcov (hu.mono hl)
    have hall' := hall.grew hg hu hs.keyTrustCache
    refine ⟨hall', fun ks he key hk => ?_⟩
    obtain rfl := Option.some.inj he
    obtain ⟨z, hz, hc⟩ := hall.keys _ entry key hentry hk
    have hsame := Name.zoneOf_of_nameEq (Name.nameEq_iff.mpr (env.lowerKey.inj _ _ hz))
    exact ⟨z, Name.zoneOf_trans hsame hzone,
      hc.mono hl⟩
  | bogus hs =>
    intro hu
    exact ⟨(hcov (hu.mono hl)).1.grew hg hu hs.keyTrustCache, fun _ _ he => absurd he (by simp)⟩
  | unsigned _ _ _ hkeys _ _ =>
    intro hu
    exact ⟨(hcov (hu.mono hl)).1.grew hg hu hkeys, fun _ _ he => absurd he (by simp)⟩
  | skip _ hpk hs _ =>
    refine ⟨hrest, fun hu => ?_⟩
    obtain ⟨hall, hks⟩ := hcov (hu.mono hl)
    exact ⟨hall.grew hg hu hs.keyTrustCache, fun ks he => (hks ks (hpk.trans he)).mono hl⟩
  | @keys anchors msg t _ hkeys _ hlook _ hver =>
    refine ⟨hrest, fun hu => ?_⟩
    obtain ⟨hall, _⟩ := hcov (hu.mono hl)
    have hone := hu.dnskey zone anchors msg hlook
    refine ⟨⟨fun k entry key he hk => ?_, fun z d hm => ?_⟩, fun ks he key hk => ?_⟩
    · obtain ⟨exp, hupd⟩ := hkeys
      rw [hupd] at he
      by_cases hkz : k = env.zoneKey zone
      · subst hkz
        rw [Function.update_self] at he
        obtain rfl := Option.some.inj he
        exact ⟨zone, rfl, hver.covered hone hk⟩
      · rw [Function.update_of_ne hkz] at he
        obtain ⟨z, hz, hc⟩ := hall.keys k entry key he hk
        exact ⟨z, hz, hc.mono hl⟩
    · rcases Grew.mem hg hm with hm | hnew
      · exact (hall.ds z d hm).mono hl
      · exact DsTrusted.covered hnew hu
    · obtain rfl := Option.some.inj he
      exact ⟨zone, hzone, hver.covered hone hk⟩

theorem buildTrustChain_covered (env : Env) (target : Name) (st : State)
    (h : Unmixed env.crypto st.log → AllCovered env st) :
    CoverResult env target (buildTrustChain env target st).1
      (buildTrustChain env target st).2 := by
  refine walkPath_rule (J := CoverWalk env target) (Q := CoverResult env target)
    (fun zone rest keys ttl s o s' hJ hz => zoneStep_covered hJ (zoneStep_round hz)) ?_ _ _ _ _
    ⟨fun z hz => Name.zoneOf_of_mem_ancestors (List.mem_reverse.mp hz),
      fun hu => ⟨h hu, fun _ he => absurd he (by simp)⟩⟩
  rintro keys ttl s ⟨_, hcov⟩ hu
  obtain ⟨hall, hks⟩ := hcov hu
  refine ⟨hall, fun ks t he => ?_⟩
  cases keys with
  | none => exact absurd he (by simp [walkEnd])
  | some ks' =>
    obtain ⟨rfl, _⟩ := ChainResult.Trusted.inj he
    exact hks _ rfl

end

theorem allCovered_fresh (env : Env) (st : State) : AllCovered env st.fresh :=
  ⟨fun _ _ _ he => absurd he (by simp [State.fresh]),
    fun _ _ hm => absurd hm (by simp [State.fresh])⟩

/-- **Everything trusted is signed, if no response mixes classes.**  Start with an empty key cache
and an empty trace and make any sequence of calls.  If in every DS and DNSKEY response of the run
each RRSIG that verifies has the class of all records in use, then every cached or returned key
and every anchor is covered by a signature that verified. -/
theorem chainRun_covered {env : Env} {calls : List (Name × ValidationBudget)}
    {st st' : State} {results : List (Name × ChainResult)}
    (hrun : chainRun env calls st.fresh = (results, st')) (hu : Unmixed env.crypto st'.log) :
    (∀ k entry key, st'.keyTrustCache k = some entry → key ∈ entry.keys →
      ∃ zone, env.zoneKey zone = k ∧ Covered st'.log zone .DNSKEY (.dnskey key)) ∧
    (∀ target keys ttl key, (target, .Trusted keys ttl) ∈ results → key ∈ keys →
      ∃ zone, zone.zoneOf target = true ∧ Covered st'.log zone .DNSKEY (.dnskey key)) ∧
    (∀ zone d, .trustedDs zone d ∈ st'.log → Covered st'.log zone .DS (.ds d)) := by
  obtain ⟨hall, hres, _⟩ := chainRun_rule
    (I := fun s => Unmixed env.crypto s.log → AllCovered env s)
    (Q := fun target r log => Unmixed env.crypto log → ∀ keys ttl, r = .Trusted keys ttl →
      KeysCovered target log keys)
    (fun st budget h hu => ⟨(h hu).keys, (h hu).ds⟩)
    (fun target st r st' h hb => by
      have hok := buildTrustChain_covered env target st h
      rw [hb] at hok
      exact ⟨fun hu => (hok hu).1, fun hu => (hok hu).2⟩)
    (fun target r log log' h hl hu keys ttl he => (h (hu.mono hl) keys ttl he).mono hl)
    (fun _ => allCovered_fresh env st) hrun
  exact ⟨(hall hu).keys, fun target keys ttl key hm hk => hres _ hm hu keys ttl rfl key hk,
    (hall hu).ds⟩

/-! ## two runs -/

/-- the event is no look-up, or one with an answer of class IN -/
def Event.plainLookup : Event → Bool
  | .dsLookup _ _ msg => msg.answers.all fun r => decide (r.dnsClass = .IN)
  | .dnskeyLookup _ _ msg => msg.answers.all fun r => decide (r.dnsClass = .IN)
  | _ => true

theorem linkRun_covered :
    Unmixed linkEnv.crypto linkRun.2.log ∧ (childZone, .Trusted [childKsk] 3600) ∈ linkRun.1 ∧
      ∃ zone, zone.zoneOf childZone = true ∧
        Covered linkRun.2.log zone .DNSKEY (.dnskey childKsk) := by
  have hplain : linkRun.2.log.all Event.plainLookup := by decide +kernel
  have hu : Unmixed linkEnv.crypto linkRun.2.log := by
    refine ⟨fun zone ks msg hm => ?_, fun zone as msg hm => ?_⟩
    · have h := List.all_eq_true.mp hplain _ hm
      exact OneClass.of_class (c := .IN) fun r hr => by
        simpa using List.all_eq_true.mp h r hr
    · have h := List.all_eq_true.mp hplain _ hm
      exact OneClass.of_class (c := .IN) fun r hr => by
        simpa using List.all_eq_true.mp h r hr
  have hm : (childZone, .Trusted [childKsk] 3600) ∈ linkRun.1 := by decide +kernel
  have hrun : chainRun linkEnv [(childZone, {})] ({} : State).fresh = (linkRun.1, linkRun.2) :=
    (Prod.mk.eta (p := linkRun)).symm
  exact ⟨hu, hm, (chainRun_covered hrun hu).2.1 _ _ _ childKsk hm (List.mem_singleton.mpr rfl)⟩

/-- a key nobody signed, in a record of another class -/
def forgedKey : Dnskey where
  flags := 256
  algorithm := 15
  publicKey := [7]

def forgedKeyRecord : Record where
  name := .root
  dnsClass := .CH
  ttl := 3600
  data := .dnskey forgedKey

/-- the genuine answer with the forged record added -/
def forgedEnv : Env where
  crypto := signedOnly [rootKeysTbs]
  text := noText
  nowSecs := fun _ => 1000
  resolve := fun _ n t =>
    if n.isRoot && decide (t = .DNSKEY) then
      .ok { answers := [rootKskRecord, forgedKeyRecord, rootRrsig .root .DNSKEY .IN] }
    else .error .AllNameserversFailed

def forgedRun : List (Name × ChainResult) × State :=
  chainRun forgedEnv [(.root, {})] ({} : State).fresh

/-- the event verifies octets into which `d` was serialised -/
def Event.covers (d : RData) : Event → Bool
  | .sigCheck sig _ rec records true => (tbsRrset rec sig records).any fun r => decide (r.data = d)
  | _ => false

theorem forgedRun_not_covered :
    (.root, .Trusted [rootKsk, forgedKey] 3600) ∈ forgedRun.1 ∧
      (forgedRun.2.keyTrustCache []).map CachedZoneKeys.keys = some [rootKsk, forgedKey] ∧
      ¬ ∃ zone, Covered forgedRun.2.log zone .DNSKEY (.dnskey forgedKey) := by
  refine ⟨by decide +kernel, by decide +kernel, ?_⟩
  rintro ⟨zone, sig, key, rec, records, tbs, hm, _, _, _, r, hr, hd⟩
  have hnone : forgedRun.2.log.all fun e => !e.covers (.dnskey forgedKey) := by decide +kernel
  have hc : (Event.sigCheck sig key rec records true).covers (.dnskey forgedKey) = true :=
    List.any_eq_true.mpr ⟨r, hr, by simpa using hd⟩
  have := List.all_eq_true.mp hnone _ hm
  rw [hc] at this
  exact absurd this (by decide)

end DnsResolver
