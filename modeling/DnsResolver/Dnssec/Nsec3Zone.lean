import DnsResolver.Dnssec.NsecZone

/-!
# NSEC3 denial inside one zone

Two checks of `validate_nsec3` go wrong on records of one `Nsec3Chain`: a wildcard NODATA proof is
taken without a proof that the next closer name does not exist, and `nsec3_covers` is not strict,
so the record of an existing wildcard "covers" the wildcard itself.  Besides, the wildcard is parsed
from text, which may give another name.

* `Misled`                 the sections these checks are wrong about;
* `validateNsec3_zone`     a Secure verdict means that the zone has no answer, except when the
                           section is misleading;
* `wildRun_answers`        such a section.
-/

namespace DnsResolver

/-- no record of the section matches the name, `c` is the deepest matched ancestor, and either
`wildcard_name` gives another name than `*.c`, where an answer is, or a record matches what it gives
and lists the type or CNAME there, or lists neither although the zone has an answer at the name or at
the wildcard of its longest existing ancestor, which is not `c` -/
def Misled (Z : SignedZone) (H : Name → Bytes) (tx : Presentation) (records : List Record)
    (q : Name) (t : RecordType) : Prop :=
  ∃ c : Name, c.Above q ∧ Deepest3 H q records c ∧ c.nameEq q = false ∧
    (((wildcardName tx c).nameEq c.wildcard = false ∧ ¬ Z.Exists q ∧ Z.IsEncloser q c ∧
        Z.Answers c.wildcard t) ∨
      ∃ r ∈ records, ∃ d, nsec3OwnerHash r = some (H (wildcardName tx c)) ∧ r.data = .nsec3 d ∧
        ((lacks t d.typeBitMaps = false ∧ (wildcardName tx c).nameEq c.wildcard = true) ∨
          (lacks t d.typeBitMaps = true ∧ (Z.Answers q t ∨
            ∃ e, ¬ Z.Exists q ∧ Z.IsEncloser q e ∧ e.nameEq c = false ∧
              Z.Answers e.wildcard t))))

/-! ## the verdict -/

section
variable {Z : SignedZone} {H : Name → Bytes} {C : Nsec3Chain Z.toZone H} {salt : Bytes}
  {iterations : UInt16} {tx : Presentation} {q c : Name} {t : RecordType} {records : List Record}

/-- the proof of a name error: the next closer name does not exist, so `c` is the longest existing
ancestor -/
theorem nxdomain_encloser (hcol : NoCollision Z.toZone H q)
    (hchain : ∀ r ∈ records, C.IsNsec3 salt iterations r)
    (hdeep : Deepest3 H q records c) (hne : c.nameEq q = false)
    (hx : checkNsec3Nxdomain H tx q c records = some .Secure) :
    ¬ Z.Exists q ∧ Z.IsEncloser q c := by
  obtain ⟨next, hnext, ⟨r, hr, hcov, _⟩, _⟩ := checkNsec3Nxdomain_secure hx
  obtain ⟨next', hnext', hnq, hbase, hnc⟩ := nextCloser_spec hdeep.1 hne
    (k := q.labels.length + 1) (by rw [Name.length_fold]; omega)
  obtain rfl := Option.some.inj (hnext.symm.trans hnext')
  have hex := Nsec3Chain.exists_of_listed hcol hchain (hashed_above hdeep.1) hdeep.2.1
  refine Zone.isEncloser_of_next hex hdeep.1 ⟨hnq, hbase, hnc⟩ ?_
  refine Nsec3Chain.not_exists_of_covers (hchain r hr) hcov fun ho => ?_
  -- a record at the next closer name would be deeper than `c`
  have hz := hdeep.2.2 next hnq (nsec3Listed_iff.mpr ⟨r, hr, ho⟩)
  have hle := (Name.zoneOf_iff.mp hz).length_le
  rw [Name.length_child hbase hnc] at hle
  omega

/-- the wildcard step found nothing although a record matches: that record has an answer -/
theorem wildcard_listed_has (hchain : ∀ r ∈ records, C.IsNsec3 salt iterations r)
    (hw : checkNsec3WildcardNodata H tx c t records = none)
    (hl : nsec3Listed H records (wildcardName tx c) = true) :
    ∃ r ∈ records, nsec3OwnerHash r = some (H (wildcardName tx c)) ∧ ∃ d, r.data = .nsec3 d ∧
      lacks t d.typeBitMaps = false := by
  unfold checkNsec3WildcardNodata at hw
  split at hw
  · rename_i hf
    obtain ⟨r, hr, ho⟩ := nsec3Listed_iff.mp hl
    have := List.find?_eq_none.mp hf r hr
    exact absurd (by simp [nsec3Matches, ho]) this
  · rename_i r hf
    have hr := List.mem_of_find?_eq_some hf
    have ho := List.find?_some hf
    obtain ⟨d, hd, _⟩ := (hchain r hr).data
    simp only [hd] at hw
    refine ⟨r, hr, by simpa [nsec3Matches] using ho, d, hd, ?_⟩
    split at hw
    · rename_i hlk
      simpa using hlk
    · exact absurd hw (by simp)

theorem nsec3Denial_zone (hH : ∀ a b : Name, a.fold = b.fold → H a = H b)
    (hcol : NoCollision Z.toZone H q) (hchain : ∀ r ∈ records, C.IsNsec3 salt iterations r)
    (hq : t ≠ .DS) (hsec : nsec3Denial H tx q t records = .Secure) :
    Z.NoAnswer q t ↔ ¬ Misled Z H tx records q t := by
  rcases nsec3Denial_secure hq hsec with hnodata | ⟨_, c, hf, hne, hbranch⟩
  · -- a record matches the name: the deepest matched name is the name itself
    obtain ⟨r, hr, ho, d, hd, hv⟩ := checkNsec3Nodata_some hnodata
    have hself : Hashed Z.toZone q q := hashed_above (Name.zoneOf_refl q)
    have hex := (Nsec3Chain.types_of_owner (hchain r hr) hcol hself ho).1
    have hans := (Nsec3Chain.lacks_iff (hchain r hr) hcol hself ho hd).mp (nodataVerdict_secure hv)
    refine ⟨fun _ hm => ?_, fun _ => ⟨hans, fun hn => absurd hex hn⟩⟩
    obtain ⟨c, _, hdeep, hne, _⟩ := hm
    have hqc := hdeep.2.2 q (Name.zoneOf_refl q) (nsec3Listed_iff.mpr ⟨r, hr, ho⟩)
    rw [Name.nameEq_of_zoneOf hdeep.1 hqc] at hne
    exact absurd hne (by decide)
  obtain ⟨hdeep, habove⟩ := findNsec3_deepest hH hf
  have hwild : Hashed Z.toZone q c.wildcard := hashed_wildcard hdeep.1 hne
  -- a record at the parsed wildcard speaks for the wildcard if the two are one name
  have hspeaks : (wildcardName tx c).nameEq c.wildcard = true → ∀ r ∈ records, ∀ d,
      nsec3OwnerHash r = some (H (wildcardName tx c)) → r.data = .nsec3 d →
      (lacks t d.typeBitMaps = true ↔ ¬ Z.Answers c.wildcard t) := by
    intro hp r hr d ho hd
    rw [hH _ _ (Name.nameEq_iff.mp hp)] at ho
    exact Nsec3Chain.lacks_iff (hchain r hr) hcol hwild ho hd
  constructor
  · rintro ⟨hans, hnone⟩ ⟨c', habove', hdeep', _, hbad⟩
    obtain rfl := habove.eq_of_fold habove' (hdeep.unique hdeep')
    rcases hbad with ⟨_, hex, henc, ha⟩ | ⟨r, hr, d, ho, hd, ⟨hlk, hp⟩ | ⟨_, hbad⟩⟩
    · exact hnone hex c henc ha
    · -- the wildcard has an answer, so the verdict was a name error below it
      have hbad : Z.Answers c.wildcard t := by
        by_contra hno
        rw [(hspeaks hp r hr d ho hd).mpr hno] at hlk
        exact absurd hlk (by decide)
      rcases hbranch with hw | ⟨_, hx⟩
      · obtain ⟨_, r', hr', ho', d', hd', hl'⟩ := checkNsec3WildcardNodata_some hw
        exact (hspeaks hp r' hr' d' ho' hd').mp hl' hbad
      · obtain ⟨hex, henc⟩ := nxdomain_encloser hcol hchain hdeep hne hx
        exact hnone hex c henc hbad
    · rcases hbad with ha | ⟨e, hex, he, _, ha⟩
      · exact hans ha
      · exact hnone hex e he ha
  · intro hno
    have hparsed : ¬ Z.Exists q → Z.IsEncloser q c → Z.Answers c.wildcard t →
        (wildcardName tx c).nameEq c.wildcard = true := by
      intro hex henc ha
      by_contra hp
      rw [Bool.not_eq_true] at hp
      exact hno ⟨c, habove, hdeep, hne, Or.inl ⟨hp, hex, henc, ha⟩⟩
    have hsame : ∀ e : Name, Z.IsEncloser q e → Z.Answers e.wildcard t → e.nameEq c = true →
        Z.IsEncloser q c ∧ Z.Answers c.wildcard t := by
      intro e he ha hec
      have hfold := Name.nameEq_iff.mp hec
      exact ⟨he.congr hfold, (NsecChain.answers_congr (Name.fold_wildcard_congr hfold)).mp ha⟩
    rcases hbranch with hw | ⟨hw, hx⟩
    · -- wildcard NODATA
      obtain ⟨_, r, hr, ho, d, hd, hl⟩ := checkNsec3WildcardNodata_some hw
      have hmis : ¬ (Z.Answers q t ∨ ∃ e, ¬ Z.Exists q ∧ Z.IsEncloser q e ∧
          e.nameEq c = false ∧ Z.Answers e.wildcard t) := fun hbad =>
        hno ⟨c, habove, hdeep, hne, Or.inr ⟨r, hr, d, ho, hd, Or.inr ⟨hl, hbad⟩⟩⟩
      refine ⟨fun ha => hmis (Or.inl ha), fun hex e he ha => ?_⟩
      cases hec : e.nameEq c with
      | false => exact hmis (Or.inr ⟨e, hex, he, hec, ha⟩)
      | true =>
        obtain ⟨henc, hca⟩ := hsame e he ha hec
        exact (hspeaks (hparsed hex henc hca) r hr d ho hd).mp hl hca
    · -- name error
      obtain ⟨hex, henc⟩ := nxdomain_encloser hcol hchain hdeep hne hx
      refine ⟨fun ha => hex (Zone.exists_of_answers ha), fun _ e he ha => ?_⟩
      have hca := (hsame e he ha (Name.nameEq_iff.mpr (he.unique henc))).2
      have hp := hparsed hex henc hca
      obtain ⟨_, _, _, r, hr, hcov⟩ := checkNsec3Nxdomain_secure hx
      by_cases ho : nsec3OwnerHash r = some (H (wildcardName tx c))
      · obtain ⟨r', hr', ho', d', hd', hl'⟩ :=
          wildcard_listed_has hchain hw (nsec3Listed_iff.mpr ⟨r, hr, ho⟩)
        exact hno ⟨c, habove, hdeep, hne, Or.inr ⟨r', hr', d', ho', hd', Or.inl ⟨hl', hp⟩⟩⟩
      · rw [hH _ _ (Name.nameEq_iff.mp hp)] at hcov ho
        exact Nsec3Chain.not_exists_of_covers (hchain r hr) hcov ho (Zone.exists_of_answers hca)

end

/-- **NSEC3 denial inside one zone.**  Let every NSEC3 record of the section belong to the chain
of `Z`, let no two of the names involved have the same hash, and let the verdict for a type other
than DS be Secure.  The zone has no answer to the question exactly if the section is not
misleading. -/
theorem validateNsec3_zone {env : Env} {keys : List Dnskey} {qname : Name} {qtype : RecordType}
    {authority : List Record} {st st' : State} (Z : SignedZone) {salt : Bytes}
    {iterations : UInt16} (C : Nsec3Chain Z.toZone (nsec3Hash env.crypto salt iterations))
    (hcol : NoCollision Z.toZone (nsec3Hash env.crypto salt iterations) qname)
    (hchain : ∀ r ∈ authority, r.recordType = .NSEC3 → C.IsNsec3 salt iterations r)
    (hq : qtype ≠ .DS)
    (hsecure : validateNsec3 env keys qname qtype authority st = (.Secure, st')) :
    Z.NoAnswer qname qtype ↔
      ¬ Misled Z (nsec3Hash env.crypto salt iterations) env.text (denialRecords .NSEC3 authority)
        qname qtype := by
  obtain ⟨⟨first, hfirst, _, hden⟩, _⟩ := validateNsec3_cases hsecure (by decide) (by decide)
  have hgen : ∀ r ∈ denialRecords .NSEC3 authority, C.IsNsec3 salt iterations r := fun r hr =>
    hchain r (mem_denialRecords hr).1 (mem_denialRecords hr).2
  obtain ⟨r, hr, hd⟩ := Option.bind_eq_some_iff.mp hfirst
  obtain ⟨d, hd', _, hsalt, hiter⟩ := (hgen r (List.mem_of_mem_head? hr)).data
  obtain rfl := RData.nsec3.inj ((Record.nsec3?_eq_some.mp hd).symm.trans hd')
  rw [hsalt, hiter] at hden
  exact nsec3Denial_zone (nsec3Hash_congr env.crypto salt iterations) hcol hgen hq hden

/-! ## a wildcard that is denied -/

/-- `*.` -/
def wildName : Name := tld [42]

def wildApexNode : Node := ⟨.root, [.NS, .SOA, .RRSIG, .DNSKEY]⟩
def wildNode : Node := ⟨wildName, [.A, .RRSIG]⟩

def wildZone : SignedZone where
  apex := .root
  nodes := [wildApexNode, wildNode]
  sorted := by decide
  apex_mem := by decide
  below := by decide
  noDelegation := by decide

/-- SHA-1 of the root in wire form -/
def hashRoot : Bytes :=
  [91, 169, 60, 157, 176, 207, 249, 63, 82, 181, 33, 215, 66, 14, 67, 246, 237, 162, 120, 79]

/-- SHA-1 of `*.` in wire form -/
def hashWild : Bytes :=
  [52, 107, 187, 17, 49, 57, 209, 27, 152, 224, 64, 5, 105, 181, 240, 100, 25, 166, 117, 42]

/-- SHA-1 of `sub.` in wire form -/
def hashSub : Bytes :=
  [225, 233, 190, 26, 26, 169, 23, 182, 88, 102, 197, 173, 78, 197, 166, 200, 96, 112, 200, 176]

def sha1Table (b : Bytes) : Bytes :=
  if b = Name.root.wireLower then hashRoot
  else if b = wildName.wireLower then hashWild
  else if b = subName.wireLower then hashSub
  else []

/-- an NSEC3 record of the root zone; the owner label is the hash in base32hex -/
def rootNsec3 (owner : Name) (next : Bytes) (types : List RecordType) : Record where
  name := owner
  ttl := 3600
  data := .nsec3 { nextHashedOwnerName := next, typeBitMaps := types }

def wildOwner : Name := tld (ascii "6hlrm49h778hn670802mjdfgcgcqct9a") (by decide +kernel)
def apexOwner : Name := tld (ascii "bekjp7dgpvsjukll47bk43i3urmq4u2f") (by decide +kernel)

def wildNsec₁ : Record := rootNsec3 wildOwner hashRoot [.A, .RRSIG]
def wildNsec₂ : Record := rootNsec3 apexOwner hashWild [.NS, .SOA, .RRSIG, .DNSKEY]

def wildAuthority : List Record :=
  [wildNsec₁, rootRrsig wildOwner .NSEC3 .IN, wildNsec₂, rootRrsig apexOwner .NSEC3 .IN]

def wildEnv : Env where
  crypto := { signedOnly [buildTbsManual (rootRrsig wildOwner .NSEC3 .IN) [wildNsec₁],
    buildTbsManual (rootRrsig apexOwner .NSEC3 .IN) [wildNsec₂]] with sha1 := sha1Table }
  text := plainText
  nowSecs := fun _ => 1000
  resolve := fun _ _ _ => .error .AllNameserversFailed

theorem wildZone_exists {n : Name} : wildZone.Exists n ↔ n.fold = [] ∨ n.fold = [Name.star] := by
  constructor
  · rintro ⟨_, nd, hm, hz⟩
    simp only [wildZone, List.mem_cons, List.not_mem_nil, or_false] at hm
    rcases hm with rfl | rfl
    · exact Or.inl (List.suffix_nil.mp (Name.zoneOf_iff.mp hz))
    · have h : n.fold <:+ Name.star :: [] := Name.zoneOf_iff.mp hz
      rcases List.suffix_cons_iff.mp h with h | h
      · exact Or.inr h
      · exact Or.inl (List.suffix_nil.mp h)
  · rintro (h | h)
    · refine ⟨Name.root_zoneOf n, wildApexNode, List.mem_cons_self .., ?_⟩
      exact Name.zoneOf_of_nameEq (Name.nameEq_iff.mpr h)
    · refine ⟨Name.root_zoneOf n, wildNode, List.mem_cons_of_mem _ (List.mem_singleton.mpr rfl), ?_⟩
      exact Name.zoneOf_of_nameEq (Name.nameEq_iff.mpr h)

theorem wildZone_hasType {n : Name} {nd : Node} (hm : nd ∈ wildZone.nodes)
    (hn : nd.owner.nameEq n = true) (t : RecordType) : t ∈ nd.types ↔ wildZone.HasType n t := by
  constructor
  · exact fun h => ⟨nd, hm, hn, h⟩
  · rintro ⟨nd', hm', he, h⟩
    rwa [NsecChain.node_unique hm' hm
      ((Name.nameEq_iff.mp he).trans (Name.nameEq_iff.mp hn).symm)] at h

theorem wildHash_root : nsec3Hash wildEnv.crypto [] 0 .root = hashRoot := by decide +kernel

theorem wildHash_wild : nsec3Hash wildEnv.crypto [] 0 wildName = hashWild := by decide +kernel

theorem wildZone_hash {n : Name} (h : wildZone.Exists n) :
    n.fold = Name.root.fold ∧ nsec3Hash wildEnv.crypto [] 0 n = hashRoot ∨
      n.fold = wildName.fold ∧ nsec3Hash wildEnv.crypto [] 0 n = hashWild := by
  rcases wildZone_exists.mp h with hf | hf
  · exact Or.inl ⟨hf, (nsec3Hash_congr wildEnv.crypto [] 0 n .root hf).trans wildHash_root⟩
  · have hf' : n.fold = wildName.fold := hf.trans (by decide)
    exact Or.inr ⟨hf', (nsec3Hash_congr wildEnv.crypto [] 0 n wildName hf').trans wildHash_wild⟩

def wildChain : Nsec3Chain wildZone.toZone (nsec3Hash wildEnv.crypto [] 0) where
  nodes := [⟨hashWild, wildNode.types⟩, ⟨hashRoot, wildApexNode.types⟩]
  sorted := by decide
  mem := by
    intro h
    simp only [List.mem_cons, List.not_mem_nil, or_false]
    constructor
    · rintro ⟨nd, rfl | rfl, rfl⟩
      · exact ⟨wildName, wildZone_exists.mpr (Or.inr (by decide)), wildHash_wild⟩
      · exact ⟨.root, wildZone_exists.mpr (Or.inl rfl), wildHash_root⟩
    · rintro ⟨n, hn, rfl⟩
      rcases wildZone_hash hn with ⟨_, hh⟩ | ⟨_, hh⟩
      · exact ⟨⟨hashRoot, wildApexNode.types⟩, Or.inr rfl, hh.symm⟩
      · exact ⟨⟨hashWild, wildNode.types⟩, Or.inl rfl, hh.symm⟩
  types := by
    intro nd hm n hn hh
    have hdiff : hashRoot ≠ hashWild := by decide
    simp only [List.mem_cons, List.not_mem_nil, or_false] at hm
    rcases hm with rfl | rfl
    · rcases wildZone_hash hn with ⟨_, hr⟩ | ⟨hf, _⟩
      · exact absurd (hr.symm.trans hh) hdiff
      · exact wildZone_hasType (List.mem_cons_of_mem _ (List.mem_singleton.mpr rfl))
          (Name.nameEq_iff.mpr hf.symm)
    · rcases wildZone_hash hn with ⟨hf, _⟩ | ⟨_, hw⟩
      · exact wildZone_hasType (List.mem_cons_self ..) (Name.nameEq_iff.mpr hf.symm)
      · exact absurd (hh.symm.trans hw) hdiff

theorem wildAuthority_chain :
    ∀ r ∈ wildAuthority, r.recordType = .NSEC3 → wildChain.IsNsec3 [] 0 r := by
  have h₁ : wildChain.IsNsec3 [] 0 wildNsec₁ :=
    ⟨⟨hashWild, wildNode.types⟩, ⟨hashRoot, wildApexNode.types⟩, _, List.mem_cons_self ..,
      by decide +kernel, rfl, rfl, rfl, rfl, rfl, fun _ => Iff.rfl⟩
  have h₂ : wildChain.IsNsec3 [] 0 wildNsec₂ :=
    ⟨⟨hashRoot, wildApexNode.types⟩, ⟨hashWild, wildNode.types⟩, _,
      List.mem_cons_of_mem _ (List.mem_singleton.mpr rfl), by decide +kernel, rfl, rfl, rfl, rfl, rfl,
      fun _ => Iff.rfl⟩
  intro r hr ht
  simp only [wildAuthority, List.mem_cons, List.not_mem_nil, or_false] at hr
  rcases hr with rfl | rfl | rfl | rfl
  · exact h₁
  · exact absurd ht (by decide)
  · exact h₂
  · exact absurd ht (by decide)

theorem wild_noCollision {q : Name} (hq : ∀ n : Name, n.zoneOf q = true →
    n.fold = [] ∨ n.fold = [Name.star] ∨ n.fold = subName.fold)
    (hw : ∀ a : Name, a.zoneOf q = true → a.nameEq q = false → a.fold = []) :
    NoCollision wildZone.toZone (nsec3Hash wildEnv.crypto [] 0) q := by
  have hthree : ∀ n, Hashed wildZone.toZone q n →
      n.fold = Name.root.fold ∨ n.fold = wildName.fold ∨ n.fold = subName.fold := by
    rintro n (hn | hn | ⟨a, ha, hne, hn⟩)
    · rcases wildZone_exists.mp hn with h | h
      · exact Or.inl h
      · exact Or.inr (Or.inl (h.trans (by decide)))
    · rcases hq n hn with h | h | h
      · exact Or.inl h
      · exact Or.inr (Or.inl (h.trans (by decide)))
      · exact Or.inr (Or.inr h)
    · refine Or.inr (Or.inl ?_)
      rw [Name.nameEq_iff.mp hn, Name.fold_wildcard ha hne, hw a ha hne]
      decide
  have hdiff : ∀ a ∈ [Name.root, wildName, subName], ∀ b ∈ [Name.root, wildName, subName],
      nsec3Hash wildEnv.crypto [] 0 a = nsec3Hash wildEnv.crypto [] 0 b → a.fold = b.fold := by
    decide +kernel
  have hrep : ∀ n, Hashed wildZone.toZone q n → ∃ a ∈ [Name.root, wildName, subName], n.fold = a.fold := by
    intro n hn
    rcases hthree n hn with h | h | h
    · exact ⟨.root, by simp, h⟩
    · exact ⟨wildName, by simp, h⟩
    · exact ⟨subName, by simp, h⟩
  intro a b ha hb hab
  obtain ⟨a', ha', hfa⟩ := hrep a ha
  obtain ⟨b', hb', hfb⟩ := hrep b hb
  rw [nsec3Hash_congr _ _ _ a a' hfa, nsec3Hash_congr _ _ _ b b' hfb] at hab
  rw [hfa, hfb, hdiff a' ha' b' hb' hab]

theorem zoneOf_tld {n : Name} {l : Label} {h : ValidLabels [l]}
    (hz : n.zoneOf (tld l h) = true) : n.fold = (tld l h).fold ∨ n.fold = [] := by
  have hs : n.fold <:+ foldLabel l :: [] := Name.zoneOf_iff.mp hz
  rcases List.suffix_cons_iff.mp hs with h | h
  · exact Or.inl h
  · exact Or.inr (List.suffix_nil.mp h)

theorem wildRun_answers :
    (validateNsec3 wildEnv [rootKsk] subName .A wildAuthority {}).1 = .Secure ∧
      NoCollision wildZone.toZone (nsec3Hash wildEnv.crypto [] 0) subName ∧
      (∀ r ∈ wildAuthority, r.recordType = .NSEC3 → wildChain.IsNsec3 [] 0 r) ∧
      ¬ wildZone.NoAnswer subName .A := by
  refine ⟨by decide +kernel, wild_noCollision (fun n hn => ?_) (fun a ha hne => ?_),
    wildAuthority_chain, fun h => ?_⟩
  · rcases zoneOf_tld hn with h | h
    · exact Or.inr (Or.inr h)
    · exact Or.inl h
  · rcases zoneOf_tld ha with h | h
    · exact absurd h (Name.nameEq_eq_false.mp hne)
    · exact h
  · have hne : ¬ wildZone.Exists subName := fun hex => by
      rcases wildZone_exists.mp hex with h | h <;> revert h <;> decide
    have henc : wildZone.IsEncloser subName .root := by
      refine ⟨by decide, wildZone_exists.mpr (Or.inl rfl), fun b hb hex => ?_⟩
      rcases zoneOf_tld hb with hf | hf
      · exact absurd ((Zone.exists_congr hf).mp hex) hne
      · exact Name.zoneOf_of_nameEq (Name.nameEq_iff.mpr hf)
    exact h.2 hne .root henc (Or.inl ⟨wildNode, List.mem_cons_of_mem _ (List.mem_singleton.mpr rfl),
      by decide, by decide⟩)

/-- the same section for the wildcard itself and a type it does not have -/
theorem wildRun_noAnswer :
    (validateNsec3 wildEnv [rootKsk] wildName .TXT wildAuthority {}).1 = .Secure ∧
      wildZone.NoAnswer wildName .TXT := by
  have hs : (validateNsec3 wildEnv [rootKsk] wildName .TXT wildAuthority {}).1 = .Secure := by
    decide +kernel
  have hrun : validateNsec3 wildEnv [rootKsk] wildName .TXT wildAuthority {} =
      (.Secure, (validateNsec3 wildEnv [rootKsk] wildName .TXT wildAuthority {}).2) := by
    rw [← hs]
  have hcol : NoCollision wildZone.toZone (nsec3Hash wildEnv.crypto [] 0) wildName := by
    refine wild_noCollision (fun n hn => ?_) (fun a ha hne => ?_)
    · rcases zoneOf_tld hn with h | h
      · exact Or.inr (Or.inl (h.trans (by decide)))
      · exact Or.inl h
    · rcases zoneOf_tld ha with h | h
      · exact absurd h (Name.nameEq_eq_false.mp hne)
      · exact h
  refine ⟨hs, (validateNsec3_zone wildZone wildChain hcol wildAuthority_chain (by decide)
    hrun).mpr ?_⟩
  rintro ⟨c, _, hdeep, hne, _⟩
  have hl : nsec3Listed (nsec3Hash wildEnv.crypto [] 0) (denialRecords .NSEC3 wildAuthority)
      wildName = true := by decide +kernel
  have hz := hdeep.2.2 wildName (Name.zoneOf_refl _) hl
  rw [Name.nameEq_of_zoneOf hdeep.1 hz] at hne
  exact absurd hne (by decide)

end DnsResolver
