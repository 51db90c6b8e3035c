import DnsResolver.Dnssec.ParentSide

/-!
# NSEC denial inside one zone

A section made of NSEC records of one `SignedZone` is put before `validate_nsec`; does a Secure
verdict mean that the zone has no answer?

* `validateNsec_zone`    it does, unless the name does not exist, the wildcard that would apply has
                         data, and the NSEC of the closest encloser is not in the section or the
                         wildcard is not what its text is parsed as;
* `entRun_answers`       such a section.
-/

namespace DnsResolver

/-- **NSEC denial inside one zone.**  Let every NSEC record of the section belong to the chain of
`Z`, and let the verdict be Secure.  The zone has no answer to the question, unless the name does
not exist, `*.e` has the type or a CNAME for its longest existing ancestor `e`, and the NSEC record
of `e` is not among the first eight NSEC records or `wildcard_name` gives another name than `*.e`. -/
theorem validateNsec_zone {env : Env} {keys : List Dnskey} {qname : Name} {qtype : RecordType}
    {authority : List Record} {st st' : State} (Z : SignedZone)
    (hchain : ∀ r ∈ authority, r.recordType = .NSEC → Z.IsNsec r)
    (hsecure : validateNsec env keys qname qtype authority st = (.Secure, st')) :
    Z.NoAnswer qname qtype ↔
      ¬ (¬ Z.Exists qname ∧ ∃ e, e.Above qname ∧ Z.IsEncloser qname e ∧
        Z.Answers e.wildcard qtype ∧
        (nsecListed (denialRecords .NSEC authority) e = false ∨
          (wildcardName env.text e).nameEq e.wildcard = false)) := by
  obtain ⟨hden, _⟩ := validateNsec_cases hsecure (by decide)
  have hgen : ∀ r ∈ denialRecords .NSEC authority, Z.IsNsec r := fun r hr =>
    hchain r (mem_denialRecords hr).1 (mem_denialRecords hr).2
  constructor
  · rintro ⟨_, hwild⟩ ⟨hne, e, _, he, ha, _⟩
    exact hwild hne e he ha
  intro hno
  rcases nsecDenial_secure hden with hnodata | ⟨_, hcov, c, hc, hwild⟩
  · -- a record at the name
    obtain ⟨r, hr, hn, d, hd, hv⟩ := checkNsecNodata_some hnodata
    refine ⟨((hgen r hr).lacks_iff hn hd).mp (nodataVerdict_secure hv), fun hne => ?_⟩
    exact absurd (Zone.exists_of_owns ((hgen r hr).owns hn)) hne
  · -- the name is covered, and the wildcard of the closest listed ancestor is settled
    obtain ⟨r, hr, d, hd, hc'⟩ := nsecCovered_iff.mp hcov
    refine ⟨fun ha => (hgen r hr).not_owns hd hc' (NsecChain.owns_of_answers ha), ?_⟩
    intro hne e₀ he₀ ha₀
    obtain ⟨e, habove, hfold⟩ := Name.exists_above he₀.1
    have he := he₀.congr hfold.symm
    have ha := (NsecChain.answers_congr (Name.fold_wildcard_congr hfold.symm)).mp ha₀
    have hlisted : nsecListed (denialRecords .NSEC authority) e = true := by
      cases hl : nsecListed (denialRecords .NSEC authority) e with
      | true => rfl
      | false => exact absurd ⟨hne, e, habove, he, ha, Or.inl hl⟩ hno
    have hparsed : (wildcardName env.text e).nameEq e.wildcard = true := by
      cases hw : (wildcardName env.text e).nameEq e.wildcard with
      | true => rfl
      | false => exact absurd ⟨hne, e, habove, he, ha, Or.inr hw⟩ hno
    obtain ⟨hcl, hcz, hmax⟩ := findNsecClosestEncloser_some hc
    have hcq : c.zoneOf qname = true := Name.zoneOf_trans hcz (Name.zoneOf_baseName qname)
    have hce : c.nameEq e = true := by
      refine Name.nameEq_of_zoneOf (he.2.2 c hcq ?_) (hmax e ?_ hlisted)
      · obtain ⟨s, hs, hsn⟩ := nsecListed_iff.mp hcl
        exact Zone.exists_of_owns ((hgen s hs).owns hsn)
      · exact Name.zoneOf_baseName_of_ne he.1 (he.ne hne)
    obtain rfl := (findNsecClosestEncloser_above hc).eq_of_fold habove (Name.nameEq_iff.mp hce)
    rcases hwild with hwc | ⟨s, hs, hsn, ds, hds, hl⟩
    · obtain ⟨s, hs, ds, hds, hsc⟩ := nsecCovered_iff.mp hwc
      refine (hgen s hs).not_owns hds hsc (NsecChain.owns_of_answers (t := qtype) ?_)
      exact (NsecChain.answers_congr (Name.nameEq_iff.mp hparsed).symm).mp ha
    · exact ((hgen s hs).lacks_iff (Name.nameEq_trans hsn hparsed) hds).mp hl ha

/-! ## an empty non-terminal -/

/-- `b.`, an empty non-terminal -/
def entName : Name := tld [98]

/-- `*.b.` -/
def entWildcard : Name := ⟨[[42], [98]], by decide⟩

/-- `q.b.` -/
def belowEnt : Name := ⟨[[113], [98]], by decide⟩

def entApexNode : Node := ⟨.root, [.NS, .SOA, .RRSIG, .NSEC, .DNSKEY]⟩
def entWildcardNode : Node := ⟨entWildcard, [.A, .RRSIG, .NSEC]⟩

/-- the root with one wildcard below an empty non-terminal -/
def entZone : SignedZone where
  apex := .root
  nodes := [entApexNode, entWildcardNode]
  sorted := by decide
  apex_mem := by decide
  below := by decide
  noDelegation := by decide

def entNsec₁ : Record := rootNsec .root entWildcard [.NS, .SOA, .RRSIG, .NSEC, .DNSKEY]
def entNsec₂ : Record := rootNsec entWildcard .root [.A, .RRSIG, .NSEC]

def entAuthority : List Record :=
  [entNsec₁, rootRrsig .root .NSEC .IN, entNsec₂, rootRrsig entWildcard .NSEC .IN]

def entEnv : Env where
  crypto := signedOnly [buildTbsManual (rootRrsig .root .NSEC .IN) [entNsec₁],
    buildTbsManual (rootRrsig entWildcard .NSEC .IN) [entNsec₂]]
  text := plainText
  nowSecs := fun _ => 1000
  resolve := fun _ _ _ => .error .AllNameserversFailed

theorem entAuthority_chain : ∀ r ∈ entAuthority, r.recordType = .NSEC → entZone.IsNsec r := by
  have h₁ : entZone.IsNsec entNsec₁ :=
    ⟨entApexNode, entWildcardNode, _, by decide, by decide, rfl, by decide, fun _ => Iff.rfl⟩
  have h₂ : entZone.IsNsec entNsec₂ :=
    ⟨entWildcardNode, entApexNode, _, by decide, by decide, rfl, by decide, fun _ => Iff.rfl⟩
  intro r hr ht
  simp only [entAuthority, List.mem_cons, List.not_mem_nil, or_false] at hr
  rcases hr with rfl | rfl | rfl | rfl
  · exact h₁
  · exact absurd ht (by decide)
  · exact h₂
  · exact absurd ht (by decide)

theorem entRun_answers :
    (validateNsec entEnv [rootKsk] belowEnt .A entAuthority {}).1 = .Secure ∧
      (∀ r ∈ entAuthority, r.recordType = .NSEC → entZone.IsNsec r) ∧
      ¬ entZone.NoAnswer belowEnt .A := by
  refine ⟨by decide +kernel, entAuthority_chain, fun h => ?_⟩
  have hne : ¬ entZone.Exists belowEnt := by
    rintro ⟨_, hm⟩
    revert hm
    decide
  have hwild : entWildcardNode ∈ entZone.nodes :=
    List.mem_cons_of_mem _ (List.mem_singleton.mpr rfl)
  have henc : entZone.IsEncloser belowEnt entName := by
    refine ⟨by decide, ⟨by decide, entWildcardNode, hwild, by decide⟩, fun b hb hex => ?_⟩
    refine Name.zoneOf_baseName_of_ne hb ?_
    cases he : b.nameEq belowEnt with
    | false => rfl
    | true =>
      obtain ⟨hz, nd, hm, hnd⟩ := hex
      exact absurd ⟨by decide, nd, hm, Name.zoneOf_trans
        (Name.zoneOf_of_nameEq (Name.nameEq_symm he)) hnd⟩ hne
  exact h.2 hne entName henc (Or.inl ⟨entWildcardNode, hwild, by decide, by decide⟩)

/-- the same section for a name whose closest encloser owns a record -/
theorem entRun_noAnswer :
    (validateNsec entEnv [rootKsk] subName .A entAuthority {}).1 = .Secure ∧
      entZone.NoAnswer subName .A := by
  have hs : (validateNsec entEnv [rootKsk] subName .A entAuthority {}).1 = .Secure := by
    decide +kernel
  have hrun : validateNsec entEnv [rootKsk] subName .A entAuthority {} =
      (.Secure, (validateNsec entEnv [rootKsk] subName .A entAuthority {}).2) := by
    rw [← hs]
  refine ⟨hs, (validateNsec_zone entZone entAuthority_chain hrun).mpr ?_⟩
  rintro ⟨hne, e, habove, he, _, hbad⟩
  -- the only proper ancestor is the root, which owns a record of the section
  have hroot : e.fold = Name.root.fold :=
    List.suffix_nil.mp (Name.zoneOf_iff.mp (Name.zoneOf_baseName_of_ne he.1 (he.ne hne)))
  obtain rfl := habove.eq_of_fold (show Name.root.Above subName from List.nil_suffix) hroot
  revert hbad
  decide +kernel

end DnsResolver
