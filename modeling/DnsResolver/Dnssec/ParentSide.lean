import DnsResolver.Dnssec.Zone
import DnsResolver.Dnssec.ChainTrust

/-!
# Parent-side denial records

At a zone cut the parent publishes an NSEC or NSEC3 record of its own, with NS but without SOA in
the bitmap.  RFC 6840 §4.1 forbids its use to deny anything at or below the cut, and likewise the
use of a record with DNAME for names below it.  The validators do not look (`subNsec_parentSide`).

* `NsecRests`, `Nsec3Rests`     the records a Secure verdict rests on;
* `ParentSide`, `ParentSide3`   the records it must not rest on;
* `Unoccluded`                  a zone has no name below its cuts and DNAMEs;
* `denial_parentSide`           a section without a parent-side record is enough, and for records
                                of one zone it is needed.
-/

namespace DnsResolver

/-! ## zones with cuts -/

def CutTypes (types : List RecordType) : Prop :=
  (RecordType.NS ∈ types ∧ RecordType.SOA ∉ types) ∨ RecordType.DNAME ∈ types

def NsecChain.Unoccluded (Z : NsecChain) : Prop :=
  ∀ a ∈ Z.nodes, ∀ b ∈ Z.nodes, CutTypes a.types → a.owner.zoneOf b.owner = true →
    a.owner.nameEq b.owner = true

/-! ## NSEC -/

/-- a record of an ancestor's zone cut, or of a DNAME above the name -/
def ParentSide (qname : Name) (r : Record) : Prop :=
  ∃ n, r.data = .nsec n ∧ r.name.zoneOf qname = true ∧
    ((RecordType.NS ∈ n.typeBitMaps ∧ RecordType.SOA ∉ n.typeBitMaps) ∨
      (r.name.nameEq qname = false ∧ RecordType.DNAME ∈ n.typeBitMaps))

/-- what a Secure verdict of `validate_nsec` rests on -/
inductive NsecRests (qname : Name) (qtype : RecordType) (records : List Record) : Record → Prop
  | matching {r : Record} : checkNsecNodata qname qtype records = some .Secure → r ∈ records →
      r.name.nameEq qname = true → NsecRests qname qtype records r
  | covering {r : Record} {n : Nsec} : checkNsecNodata qname qtype records = none →
      r ∈ records → r.data = .nsec n → nsecCovers r.name n.nextDomainName qname = true →
      NsecRests qname qtype records r
  | encloser {r : Record} {c : Name} : checkNsecNodata qname qtype records = none →
      findNsecClosestEncloser qname records = some c → r ∈ records → r.name.nameEq c = true →
      NsecRests qname qtype records r

section
variable {Z : NsecChain} {tx : Presentation} {qname : Name} {qtype : RecordType}
  {records : List Record} {r s : Record}

theorem NsecRests.mem (h : NsecRests qname qtype records r) : r ∈ records := by
  cases h <;> assumption

/-- no record of the chain has its owner below a parent-side record -/
theorem ParentSide.nothing_below (hZ : Z.Unoccluded) (hr : Z.IsNsec r) (hs : Z.IsNsec s)
    (h : ParentSide qname r) (hz : r.name.zoneOf s.name = true) : r.name.nameEq s.name = true := by
  obtain ⟨nd, _, d, hl, ho, hd, _, ht⟩ := hr
  obtain ⟨nd', _, _, hl', ho', _⟩ := hs
  obtain ⟨d', hd', _, hcut⟩ := h
  obtain rfl := RData.nsec.inj (hd.symm.trans hd')
  have hcut' : CutTypes nd.types := by
    simp only [ht] at hcut
    exact hcut.imp id And.right
  have hbelow : nd.owner.zoneOf nd'.owner = true :=
    Name.zoneOf_trans (Name.zoneOf_of_nameEq (Name.nameEq_symm ho))
      (Name.zoneOf_trans hz (Name.zoneOf_of_nameEq ho'))
  have hsame := hZ nd (Ring.fst_mem_of_links hl) nd' (Ring.fst_mem_of_links hl') hcut' hbelow
  exact Name.nameEq_trans (Name.nameEq_trans ho hsame) (Name.nameEq_symm ho')

/-- in a section of one zone, a Secure verdict rests on every parent-side record -/
theorem nsecRests_of_parentSide (hZ : Z.Unoccluded) (hchain : ∀ r ∈ records, Z.IsNsec r)
    (hsec : nsecDenial tx qname qtype records = .Secure) (hr : r ∈ records)
    (h : ParentSide qname r) : NsecRests qname qtype records r := by
  obtain ⟨_, _, hz, _⟩ := id h
  have hdeep : ∀ s ∈ records, r.name.zoneOf s.name = true → r.name.nameEq s.name = true :=
    fun s hs => h.nothing_below hZ (hchain r hr) (hchain s hs)
  rcases nsecDenial_secure hsec with hnodata | ⟨hnodata, hcov, c, hc, _⟩
  · -- a record at the name: the parent-side record is there too
    obtain ⟨s, hs, hsn, _⟩ := checkNsecNodata_some hnodata
    refine .matching hnodata hr (Name.nameEq_trans (hdeep s hs ?_) hsn)
    exact Name.zoneOf_trans hz (Name.zoneOf_of_nameEq (Name.nameEq_symm hsn))
  · obtain ⟨s, hs, d, hd, hcs⟩ := nsecCovered_iff.mp hcov
    obtain ⟨hl, _, hmax⟩ := findNsecClosestEncloser_some hc
    obtain ⟨s', hs', hsn⟩ := nsecListed_iff.mp hl
    have hne : r.name.nameEq qname = false := by
      rw [Bool.eq_false_iff]
      exact fun he => (hchain s hs).not_owns hd hcs ((hchain r hr).owns he)
    have hrc : r.name.zoneOf c = true := hmax r.name (Name.zoneOf_baseName_of_ne hz hne)
      (nsecListed_iff.mpr ⟨r, hr, Name.nameEq_refl _⟩)
    refine .encloser hnodata hc hr (Name.nameEq_trans (hdeep s' hs' ?_) hsn)
    exact Name.zoneOf_trans hrc (Name.zoneOf_of_nameEq (Name.nameEq_symm hsn))

end

/-! ## NSEC3 -/

/-- the hashed owner is the name or an ancestor, and the record is parent-side for it -/
def ParentSide3 (H : Name → Bytes) (qname : Name) (r : Record) : Prop :=
  ∃ n a, r.data = .nsec3 n ∧ nsec3OwnerHash r = some (H a) ∧ a.zoneOf qname = true ∧
    ((RecordType.NS ∈ n.typeBitMaps ∧ RecordType.SOA ∉ n.typeBitMaps) ∨
      (a.nameEq qname = false ∧ RecordType.DNAME ∈ n.typeBitMaps))

/-- what a Secure verdict of `validate_nsec3` rests on -/
inductive Nsec3Rests (H : Name → Bytes) (tx : Presentation) (qname : Name) (qtype : RecordType)
    (records : List Record) : Record → Prop
  | matching {r : Record} : checkNsec3Nodata H qname qtype records = some .Secure →
      r ∈ records → nsec3OwnerHash r = some (H qname) → Nsec3Rests H tx qname qtype records r
  | covering {r : Record} {c next : Name} : checkNsec3Nodata H qname qtype records = none →
      findNsec3ClosestProvableEncloser H qname records = some c →
      checkNsec3WildcardNodata H tx c qtype records = none →
      nextCloser c (qname.labels.length + 1) qname = some next →
      r ∈ records → nsec3Covers r (H next) = true → Nsec3Rests H tx qname qtype records r
  | encloser {r : Record} {c : Name} : checkNsec3Nodata H qname qtype records = none →
      findNsec3ClosestProvableEncloser H qname records = some c →
      r ∈ records → nsec3OwnerHash r = some (H c) → Nsec3Rests H tx qname qtype records r

section
variable {Z : Zone} {H : Name → Bytes} {C : Nsec3Chain Z H} {salt : Bytes} {iterations : UInt16}
  {tx : Presentation} {qname n : Name} {qtype : RecordType} {records : List Record} {r : Record}

theorem Nsec3Rests.mem (h : Nsec3Rests H tx qname qtype records r) : r ∈ records := by
  cases h <;> assumption

/-- no existing name lies below a cut -/
theorem Zone.nothing_below {nd : Node} (hZ : Z.Unoccluded) (hm : nd ∈ Z.nodes)
    (hcut : CutTypes nd.types) (hz : nd.owner.zoneOf n = true) (hn : Z.Exists n) :
    nd.owner.nameEq n = true := by
  obtain ⟨_, nd', hm', hn'⟩ := hn
  have hsame := hZ nd hm nd' hm' hcut (Name.zoneOf_trans hz hn')
  exact Name.nameEq_of_zoneOf hz
    (Name.zoneOf_trans hn' (Name.zoneOf_of_nameEq (Name.nameEq_symm hsame)))

theorem nsec3Rests_of_parentSide (hH : ∀ a b : Name, a.fold = b.fold → H a = H b)
    (hZ : Z.Unoccluded) (hcol : NoCollision Z H qname)
    (hchain : ∀ r ∈ records, C.IsNsec3 salt iterations r) (hq : qtype ≠ .DS)
    (hsec : nsec3Denial H tx qname qtype records = .Secure) (hr : r ∈ records)
    (h : ParentSide3 H qname r) : Nsec3Rests H tx qname qtype records r := by
  obtain ⟨d, a, hd, ho, hz, hcut⟩ := h
  obtain ⟨hex, d', hd', htypes⟩ := Nsec3Chain.types_of_owner (hchain r hr) hcol (hashed_above hz) ho
  obtain rfl := RData.nsec3.inj (hd.symm.trans hd')
  have hdeep : ∀ m : Name, a.zoneOf m = true → Z.Exists m → a.nameEq m = true := by
    intro m ham hm
    simp only [htypes] at hcut
    obtain ⟨nd, hmem, he, hcut'⟩ : ∃ nd ∈ Z.nodes, nd.owner.nameEq a = true ∧
        CutTypes nd.types := by
      rcases hcut with ⟨⟨nd, hmem, he, hns⟩, hsoa⟩ | ⟨_, nd, hmem, he, hdn⟩
      · exact ⟨nd, hmem, he, Or.inl ⟨hns, fun hs => hsoa ⟨nd, hmem, he, hs⟩⟩⟩
      · exact ⟨nd, hmem, he, Or.inr hdn⟩
    have hbelow := Name.zoneOf_trans (Name.zoneOf_of_nameEq he) ham
    exact Name.nameEq_trans (Name.nameEq_symm he) (Zone.nothing_below hZ hmem hcut' hbelow hm)
  rcases nsec3Denial_secure hq hsec with hnodata | ⟨hnodata, c, hc, _⟩
  · obtain ⟨s, hs, hso, _⟩ := checkNsec3Nodata_some hnodata
    have hqex := (Nsec3Chain.types_of_owner (hchain s hs) hcol
      (hashed_above (Name.zoneOf_refl qname)) hso).1
    refine .matching hnodata hr ?_
    rw [ho, hH a qname (Name.nameEq_iff.mp (hdeep qname hz hqex))]
  · obtain ⟨⟨hcz, hl, hmax⟩, _⟩ := findNsec3_deepest hH hc
    have hcex := Nsec3Chain.exists_of_listed hcol hchain (hashed_above hcz) hl
    have hac := hdeep c (hmax a hz (nsec3Listed_iff.mpr ⟨r, hr, ho⟩)) hcex
    refine .encloser hnodata hc hr ?_
    rw [ho, hH a c (Name.nameEq_iff.mp hac)]

end

/-! ## both validators -/

/-- **When no parent-side record is used.**  For a type other than DS, a Secure verdict rests on
no parent-side record if there is none among the first eight denial records; and only if, where
these records are of one zone that has nothing below its cuts. -/
theorem denial_parentSide {env : Env} {keys : List Dnskey} {qname : Name} {qtype : RecordType}
    {authority : List Record} {st st' : State} (hq : qtype ≠ .DS) :
    (validateNsec env keys qname qtype authority st = (.Secure, st') →
      ((∀ r ∈ denialRecords .NSEC authority, ¬ ParentSide qname r) →
        ∀ r, NsecRests qname qtype (denialRecords .NSEC authority) r → ¬ ParentSide qname r) ∧
      ∀ Z : NsecChain, Z.Unoccluded → (∀ r ∈ denialRecords .NSEC authority, Z.IsNsec r) →
        ((∀ r, NsecRests qname qtype (denialRecords .NSEC authority) r → ¬ ParentSide qname r) ↔
          ∀ r ∈ denialRecords .NSEC authority, ¬ ParentSide qname r)) ∧
    (validateNsec3 env keys qname qtype authority st = (.Secure, st') →
      ∃ first H, (denialRecords .NSEC3 authority).head?.bind Record.nsec3? = some first ∧
        H = nsec3Hash env.crypto first.salt first.iterations ∧
        ((∀ r ∈ denialRecords .NSEC3 authority, ¬ ParentSide3 H qname r) →
          ∀ r, Nsec3Rests H env.text qname qtype (denialRecords .NSEC3 authority) r →
            ¬ ParentSide3 H qname r) ∧
        ∀ (Z : Zone) (C : Nsec3Chain Z H), Z.Unoccluded → NoCollision Z H qname →
          (∀ r ∈ denialRecords .NSEC3 authority, C.IsNsec3 first.salt first.iterations r) →
          ((∀ r, Nsec3Rests H env.text qname qtype (denialRecords .NSEC3 authority) r →
              ¬ ParentSide3 H qname r) ↔
            ∀ r ∈ denialRecords .NSEC3 authority, ¬ ParentSide3 H qname r)) := by
  refine ⟨fun h => ?_, fun h => ?_⟩
  · obtain ⟨hden, _⟩ := validateNsec_cases h (by decide)
    have henough : (∀ r ∈ denialRecords .NSEC authority, ¬ ParentSide qname r) →
        ∀ r, NsecRests qname qtype (denialRecords .NSEC authority) r → ¬ ParentSide qname r :=
      fun hall r hr => hall r hr.mem
    refine ⟨henough, fun Z hZ hchain => ⟨fun hall r hr hp => ?_, henough⟩⟩
    exact hall r (nsecRests_of_parentSide hZ hchain hden hr hp) hp
  · obtain ⟨⟨first, hfirst, _, hden⟩, _⟩ := validateNsec3_cases h (by decide) (by decide)
    have hH := nsec3Hash_congr env.crypto first.salt first.iterations
    have henough : (∀ r ∈ denialRecords .NSEC3 authority,
          ¬ ParentSide3 (nsec3Hash env.crypto first.salt first.iterations) qname r) →
        ∀ r, Nsec3Rests (nsec3Hash env.crypto first.salt first.iterations) env.text qname qtype
          (denialRecords .NSEC3 authority) r →
          ¬ ParentSide3 (nsec3Hash env.crypto first.salt first.iterations) qname r :=
      fun hall r hr => hall r hr.mem
    refine ⟨first, _, hfirst, rfl, henough, fun Z C hZ hcol hchain =>
      ⟨fun hall r hr hp => ?_, henough⟩⟩
    exact hall r (nsec3Rests_of_parentSide hH hZ hcol hchain hq hden hr hp) hp

/-! ## a delegation point -/

def tld (l : Label) (h : ValidLabels [l] := by decide) : Name := ⟨[l], h⟩

/-- `sub.`, delegated by the root -/
def subName : Name := tld [115, 117, 98]

/-- the root's NSEC at `owner`, with the next name and the types -/
def rootNsec (owner next : Name) (types : List RecordType) : Record where
  name := owner
  ttl := 3600
  data := .nsec { nextDomainName := next, typeBitMaps := types }

/-- the root's NSEC at the cut: `sub.` has NS, no SOA -/
def subNsec : Record := rootNsec subName .root [.NS, .RRSIG, .NSEC]

/-- the section a replaying server sends for `sub. A` -/
def subAuthority : List Record := [subNsec, rootRrsig subName .NSEC .IN]

def subEnv : Env where
  crypto := signedOnly [buildTbsManual (rootRrsig subName .NSEC .IN) [subNsec]]
  text := noText
  nowSecs := fun _ => 1000
  resolve := fun _ _ _ => .error .AllNameserversFailed

theorem subNsec_parentSide :
    (validateNsec subEnv [rootKsk] subName .A subAuthority {}).1 = .Secure ∧
      NsecRests subName .A (denialRecords .NSEC subAuthority) subNsec ∧
      ParentSide subName subNsec := by
  refine ⟨by decide +kernel, ?_, _, rfl, by decide, Or.inl ?_⟩
  · exact .matching (by decide +kernel) (by decide +kernel) (by decide)
  · decide

/-- the genuine answer for an existing name without the type -/
def leafNsec : Record := rootNsec subName .root [.TXT, .RRSIG, .NSEC]

def leafAuthority : List Record := [leafNsec, rootRrsig subName .NSEC .IN]

def leafEnv : Env where
  crypto := signedOnly [buildTbsManual (rootRrsig subName .NSEC .IN) [leafNsec]]
  text := noText
  nowSecs := fun _ => 1000
  resolve := fun _ _ _ => .error .AllNameserversFailed

theorem leafNsec_not_parentSide :
    (validateNsec leafEnv [rootKsk] subName .A leafAuthority {}).1 = .Secure ∧
      ∀ r, NsecRests subName .A (denialRecords .NSEC leafAuthority) r → ¬ ParentSide subName r := by
  have hs : (validateNsec leafEnv [rootKsk] subName .A leafAuthority {}).1 = .Secure := by
    decide +kernel
  have hrun : validateNsec leafEnv [rootKsk] subName .A leafAuthority {} =
      (.Secure, (validateNsec leafEnv [rootKsk] subName .A leafAuthority {}).2) := by
    rw [← hs]
  refine ⟨hs, ((denial_parentSide (by decide)).1 hrun).1 ?_⟩
  rintro r hr ⟨n, hd, _, hbad⟩
  have hr' : r = leafNsec := by
    have : denialRecords .NSEC leafAuthority = [leafNsec] := by decide +kernel
    rw [this] at hr
    exact List.mem_singleton.mp hr
  subst hr'
  obtain rfl := RData.nsec.inj hd
  revert hbad
  decide

end DnsResolver
