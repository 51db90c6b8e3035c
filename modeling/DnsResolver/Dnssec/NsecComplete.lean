import DnsResolver.Dnssec.Nsec3Zone
import DnsResolver.Dnssec.Genuine
import DnsResolver.Dnssec.DenialCase

/-!
# NSEC denials that a server sends

A server that has no answer sends the NSEC records of RFC 4035 §3.1.3: the record of the name, or
records that cover the name and the wildcard that could have answered.  `validate_nsec` looks for
the closest encloser of the name among the owners of the records it was sent.  The RFC asks for no
record with that owner, so the search often fails.

* `WholeZone`              a zone without delegations;
* `Prescribed`             what the records of a section are for;
* `NsecSection`            a section of chain records that holds just these;
* `EncloserSent`           the NSEC of an ancestor of the name happens to be among them, and the
                           section settles the wildcard of that ancestor;
* `validateNsec_complete_iff`   the verdict is Secure exactly then, or if the name owns records.
-/

namespace DnsResolver

/-! ## zones -/

/-- a zone without delegations whose SOA is at the apex -/
structure WholeZone extends SignedZone where
  soa : ∀ nd ∈ nodes, RecordType.SOA ∈ nd.types ↔ nd.owner.nameEq apex = true

namespace WholeZone

/-- what a record is sent for: as the one of a name, or because it covers one -/
inductive Role where
  | owns (n : Name)
  | covers (n : Name)

def Plays (r : Record) : Role → Prop
  | .owns n => r.name.nameEq n = true
  | .covers n => ∃ d, r.data = .nsec d ∧
      Ring.Inside r.name.canon d.nextDomainName.canon n.canon

/-- the roles of the records of a denial for `q` -/
inductive Prescribed (Z : WholeZone) (q : Name) : List Role → Prop
  | nodata : Z.Owns q → Prescribed Z q [.owns q]
  /-- NODATA at an empty non-terminal -/
  | empty : ¬ Z.Owns q → Z.Exists q → Prescribed Z q [.covers q]
  | nameError {e : Name} : ¬ Z.Exists q → Z.IsEncloser q e → ¬ Z.Owns e.wildcard →
      Prescribed Z q [.covers q, .covers e.wildcard]
  | wildcardNodata {e : Name} : ¬ Z.Exists q → Z.IsEncloser q e → Z.Owns e.wildcard →
      Prescribed Z q [.owns e.wildcard, .covers q]

/-- records of the chain, each in a role, and one for each role -/
structure NsecSection (Z : WholeZone) (q : Name) (roles : List Role) (records : List Record) :
    Prop where
  chain : ∀ r ∈ records, Z.IsNsec r
  prescribed : Prescribed Z q roles
  needed : ∀ r ∈ records, ∃ role ∈ roles, Plays r role
  filled : ∀ role ∈ roles, ∃ r ∈ records, Plays r role

/-- an ancestor of the name, at most 16 labels up, owns one of the records, and the records say that
what `wildcard_name` makes of it does not exist or lacks the type -/
def EncloserSent (tx : Presentation) (records : List Record) (q : Name) (t : RecordType) : Prop :=
  ∃ c : Name, c.Above q ∧ c.nameEq q = false ∧ q.labels.length ≤ c.labels.length + 16 ∧
    (∃ r ∈ records, r.name.nameEq c = true) ∧
    ((∃ r ∈ records, Plays r (.covers (wildcardName tx c))) ∨
      ∃ r ∈ records, r.name.nameEq (wildcardName tx c) = true ∧ ∃ d, r.data = .nsec d ∧
        lacks t d.typeBitMaps = true)

/-! ## names of the zone -/

variable {Z : WholeZone} {q n e : Name} {t : RecordType}

theorem wildcard_not_above (h : Z.IsEncloser q e) (hq : ¬ Z.Exists q) (hw : Z.Owns n)
    (hn : n.fold = e.wildcard.fold) : n.zoneOf q = false := by
  rw [Bool.eq_false_iff]
  intro hz
  have hle := (Name.zoneOf_iff.mp (h.2.2 n hz (Zone.exists_of_owns hw))).length_le
  rw [hn, Name.fold_wildcard h.1 (h.ne hq), List.length_cons] at hle
  omega

/-! ## records of the chain -/

variable {r : Record}

theorem canon_lt {c : Name} (hz : c.zoneOf q = true) (hne : c.nameEq q = false) :
    c.canon < q.canon := by
  have hle : ¬ q.canon < c.canon :=
    List.IsPrefix.le (List.reverse_prefix.mpr (Name.zoneOf_iff.mp hz))
  refine lt_of_le_of_ne (not_lt.mp hle) fun he => Name.nameEq_eq_false.mp hne ?_
  exact List.reverse_injective he

/-- between the owner of a record and a name it covers there is no owner -/
theorem owner_le_of_covers (h : Z.IsNsec r) (hc : Plays r (.covers n)) {c : Name} (ho : Z.Owns c)
    (hcn : c.canon < n.canon) : c.canon ≤ r.name.canon := by
  obtain ⟨d, hd, hin⟩ := hc
  by_contra hlt
  exact h.not_owns hd (decide_eq_true (hin.before (lt_of_not_ge hlt) hcn)) ho

/-! ## the section -/

section
variable {tx : Presentation} {roles : List Role} {records : List Record}

theorem plays_covers_iff {r : Record} : Plays r (.covers n) ↔
    ∃ d, r.data = .nsec d ∧ nsecCovers r.name d.nextDomainName n = true := by
  simp only [Plays, nsecCovers, decide_eq_true_eq]

theorem covered_iff : (∃ r ∈ records, Plays r (.covers n)) ↔ nsecCovered records n = true := by
  simp only [nsecCovered_iff, plays_covers_iff]

theorem NsecSection.covered (hs : NsecSection Z q roles records) (hq : ¬ Z.Owns q) :
    ∃ r ∈ records, Plays r (.covers q) := by
  cases hs.prescribed with
  | nodata h => exact absurd h hq
  | empty => exact hs.filled _ List.mem_cons_self
  | nameError => exact hs.filled _ List.mem_cons_self
  | wildcardNodata => exact hs.filled _ (List.mem_cons_of_mem _ List.mem_cons_self)

/-- a record whose owner lies above the name covers a name that lies below all owners above it -/
theorem NsecSection.above (hs : NsecSection Z q roles records) (hq : ¬ Z.Owns q) {c : Name}
    {r : Record} (hr : r ∈ records) (hrc : r.name.nameEq c = true) (hz : c.zoneOf q = true) :
    ∃ x, Plays r (.covers x) ∧ ∀ b : Name, Z.Owns b → b.zoneOf q = true → b.canon < x.canon := by
  have howns := (hs.chain r hr).owns hrc
  have hbelow : ∀ b : Name, Z.Owns b → b.zoneOf q = true → b.canon < q.canon := by
    intro b hb hbz
    refine canon_lt hbz ?_
    rw [Name.nameEq_eq_false]
    rintro he
    obtain ⟨nd, hm, hn⟩ := hb
    exact hq ⟨nd, hm, Name.nameEq_trans hn (Name.nameEq_iff.mpr he)⟩
  obtain ⟨role, hrole, hplays⟩ := hs.needed r hr
  cases hs.prescribed with
  | nodata h => exact absurd h hq
  | empty =>
    obtain rfl := List.mem_singleton.mp hrole
    exact ⟨q, hplays, hbelow⟩
  | @nameError e hex henc _ =>
    rcases List.mem_cons.mp hrole with rfl | hrole
    · exact ⟨q, hplays, hbelow⟩
    · obtain rfl := List.mem_singleton.mp hrole
      refine ⟨e.wildcard, hplays, fun b hb hbz => ?_⟩
      have hfold := Name.fold_wildcard henc.1 (henc.ne hex)
      have hbe := Name.zoneOf_iff.mp (henc.2.2 b hbz (Zone.exists_of_owns hb))
      refine canon_lt (Name.zoneOf_iff.mpr ?_) (Name.nameEq_eq_false.mpr ?_)
      · rw [hfold]
        exact hbe.trans (List.suffix_cons _ _)
      · intro he
        have hle := hbe.length_le
        rw [he, hfold, List.length_cons] at hle
        omega
  | @wildcardNodata e hex henc how =>
    rcases List.mem_cons.mp hrole with rfl | hrole
    · have hfold : c.fold = e.wildcard.fold :=
        (Name.nameEq_iff.mp hrc).symm.trans (Name.nameEq_iff.mp hplays)
      have hno := wildcard_not_above henc hex howns hfold
      exact absurd hz (by simp [hno])
    · obtain rfl := List.mem_singleton.mp hrole
      exact ⟨q, hplays, hbelow⟩

theorem NsecSection.above_unique (hs : NsecSection Z q roles records) (hq : ¬ Z.Owns q)
    {c c' : Name} {r r' : Record} (hr : r ∈ records) (hr' : r' ∈ records)
    (hrc : r.name.nameEq c = true) (hrc' : r'.name.nameEq c' = true) (hz : c.zoneOf q = true)
    (hz' : c'.zoneOf q = true) : c.fold = c'.fold := by
  -- of two such owners none sorts after the other
  have hle : ∀ {a b : Name} {s s' : Record}, s ∈ records → s' ∈ records →
      s.name.nameEq a = true → s'.name.nameEq b = true → a.zoneOf q = true → b.zoneOf q = true →
      b.canon ≤ a.canon := by
    intro a b s s' hs₁ hs₂ ha hb haz hbz
    obtain ⟨x, hx, hmax⟩ := hs.above hq hs₁ ha haz
    have hob := (hs.chain s' hs₂).owns hb
    have hadj := owner_le_of_covers (hs.chain s hs₁) hx hob (hmax b hob hbz)
    rwa [Name.canon, Name.canon, Name.nameEq_iff.mp ha] at hadj
  have heq : c.canon = c'.canon :=
    le_antisymm (hle hr' hr hrc' hrc hz' hz) (hle hr hr' hrc hrc' hz hz')
  exact List.reverse_injective heq

/-! ## the verdict -/

theorem hasType_soa_iff : Z.HasType q .SOA ↔ q.nameEq Z.apex = true := by
  constructor
  · rintro ⟨nd, hm, he, ht⟩
    exact Name.nameEq_trans (Name.nameEq_symm he) ((Z.soa nd hm).mp ht)
  · intro ha
    obtain ⟨nd, hm, he⟩ := Z.apex_mem
    exact ⟨nd, hm, Name.nameEq_trans he (Name.nameEq_symm ha), (Z.soa nd hm).mpr he⟩

theorem apex_of_hasType_ns (h : Z.HasType q .NS) : q.nameEq Z.apex = true := by
  obtain ⟨nd, hm, he, ht⟩ := h
  exact Name.nameEq_trans (Name.nameEq_symm he) (Z.noDelegation nd hm ht)

theorem nodataVerdict_eq (hno : ¬ Z.Answers q t) {types : List RecordType}
    (htypes : ∀ u, u ∈ types ↔ Z.HasType q u) :
    nodataVerdict t types =
      some (if t = .DS ∧ q.nameEq Z.apex = true then .Bogus else .Secure) := by
  have htype : t ∉ types := fun h => hno (Or.inl ((htypes t).mp h))
  have hcname : RecordType.CNAME ∉ types := fun h => hno (Or.inr ((htypes .CNAME).mp h))
  have hsoa : RecordType.SOA ∈ types ↔ q.nameEq Z.apex = true :=
    (htypes .SOA).trans hasType_soa_iff
  by_cases hapex : q.nameEq Z.apex = true
  · by_cases hds : t = .DS
    · simp only [nodataVerdict, hds, hsoa, hapex, decide_true, Bool.and_self, if_true, and_self]
    · simp only [nodataVerdict, hds, htype, hcname, decide_false, Bool.false_and,
        Bool.false_eq_true, Bool.not_false, Bool.and_self, if_true, if_false, false_and]
  · have hns : RecordType.NS ∉ types := fun h => hapex (apex_of_hasType_ns ((htypes .NS).mp h))
    simp only [nodataVerdict, htype, hcname, hsoa, hns, hapex, decide_false, Bool.and_false,
      Bool.false_eq_true, Bool.not_false, Bool.and_self, if_true, if_false, and_false]

theorem secure_unless_iff {p : Prop} [Decidable p] :
    (if p then DnssecStatus.Bogus else .Secure) = .Secure ↔ ¬ p := by
  by_cases h : p
  · rw [if_pos h]
    exact ⟨fun hb => absurd hb (by decide), fun hn => absurd h hn⟩
  · rw [if_neg h]
    exact ⟨fun _ => h, fun _ => rfl⟩

theorem nsecDenial_owned (hs : NsecSection Z q roles records) (hq : Z.Owns q)
    (hno : ¬ Z.Answers q t) :
    nsecDenial tx q t records = .Secure ↔ ¬ (t = .DS ∧ q.nameEq Z.apex = true) := by
  have hroles : roles = [.owns q] := by
    cases hs.prescribed with
    | nodata => rfl
    | empty h => exact absurd hq h
    | nameError h => exact absurd (Zone.exists_of_owns hq) h
    | wildcardNodata h => exact absurd (Zone.exists_of_owns hq) h
  subst hroles
  cases records with
  | nil =>
    obtain ⟨r, hr, _⟩ := hs.filled _ List.mem_cons_self
    exact absurd hr List.not_mem_nil
  | cons r rest =>
    obtain ⟨role, hrole, hplays⟩ := hs.needed r List.mem_cons_self
    obtain rfl := List.mem_singleton.mp hrole
    have hchain := hs.chain r List.mem_cons_self
    obtain ⟨d, hd⟩ := hchain.data
    have hverdict := nodataVerdict_eq hno (hchain.types hplays hd)
    have hname : r.name.nameEq q = true := hplays
    have hnodata : checkNsecNodata q t (r :: rest) =
        some (if t = .DS ∧ q.nameEq Z.apex = true then .Bogus else .Secure) := by
      rw [checkNsecNodata, List.findSome?_cons]
      simp only [hname, if_true, hd, hverdict]
    simp only [nsecDenial, hnodata]
    exact secure_unless_iff

theorem NsecSection.not_root (hs : NsecSection Z q roles records) (hq : ¬ Z.Owns q) :
    q.isRoot = false := by
  have hapex : Z.apex.zoneOf q = true := by
    cases hs.prescribed with
    | nodata h => exact absurd h hq
    | empty _ h => exact h.1
    | nameError _ h => exact Name.zoneOf_trans h.2.1.1 h.1
    | wildcardNodata _ h => exact Name.zoneOf_trans h.2.1.1 h.1
  rw [Bool.eq_false_iff]
  intro hr
  have hnil := Name.isRoot_iff.mp hr
  have hsuf := Name.zoneOf_iff.mp hapex
  rw [hnil, List.suffix_nil] at hsuf
  obtain ⟨nd, hm, he⟩ := Z.apex_mem
  exact hq ⟨nd, hm, Name.nameEq_iff.mpr ((Name.nameEq_iff.mp he).trans (hsuf.trans hnil.symm))⟩

theorem NsecSection.checkNsecNodata_none (hs : NsecSection Z q roles records)
    (hq : ¬ Z.Owns q) : checkNsecNodata q t records = none := by
  refine List.findSome?_eq_none_iff.mpr fun r hr => if_neg fun hn => ?_
  exact hq ((hs.chain r hr).owns hn)

theorem NsecSection.encloserSent_of_secure (hs : NsecSection Z q roles records)
    (hq : ¬ Z.Owns q) (h : nsecDenial tx q t records = .Secure) : EncloserSent tx records q t := by
  rcases nsecDenial_secure h with hnodata | ⟨_, _, c, hc, hw⟩
  · rw [hs.checkNsecNodata_none hq] at hnodata
    exact absurd hnodata (by simp)
  · obtain ⟨hlisted, hz, _⟩ := findNsecClosestEncloser_some hc
    have habove := findNsecClosestEncloser_above hc
    rw [findNsecClosestEncloser_eq] at hc
    have hwithin := climb_within hc
    have hne := Name.nameEq_of_zoneOf_baseName hz (hs.not_root hq)
    refine ⟨c, habove, hne, ?_, nsecListed_iff.mp hlisted, ?_⟩
    · simp only [Name.baseName, List.length_tail, maxClosestEncloserSteps] at hwithin
      omega
    · exact hw.imp covered_iff.mpr id

theorem NsecSection.secure_of_encloserSent (hs : NsecSection Z q roles records)
    (hq : ¬ Z.Owns q) (h : EncloserSent tx records q t) : nsecDenial tx q t records = .Secure := by
  obtain ⟨c, habove, hne, hlen, ⟨r, hr, hrc⟩, hset⟩ := h
  have hcov : nsecCovered records q = true := covered_iff.mp (hs.covered hq)
  obtain ⟨c', hc'⟩ : ∃ c', findNsecClosestEncloser q records = some c' := by
    rw [findNsecClosestEncloser_eq]
    refine climb_finds nsecListed_congr (nsecListed_iff.mpr ⟨r, hr, hrc⟩)
      (Name.zoneOf_baseName_of_ne habove.zoneOf hne) ?_
    have hpos : q.labels ≠ [] := fun hnil =>
      absurd (hs.not_root hq) (by simp [Name.isRoot, hnil])
    have hlt := List.length_pos_of_ne_nil hpos
    simp only [Name.baseName, List.length_tail, maxClosestEncloserSteps]
    omega
  obtain ⟨hlisted, hz', _⟩ := findNsecClosestEncloser_some hc'
  obtain ⟨r', hr', hrc'⟩ := nsecListed_iff.mp hlisted
  obtain rfl : c' = c := (findNsecClosestEncloser_above hc').eq_of_fold habove
    (hs.above_unique hq hr' hr hrc' hrc (Name.zoneOf_trans hz' (Name.zoneOf_baseName q))
      habove.zoneOf)
  simp only [nsecDenial, hs.checkNsecNodata_none hq, hc', checkNsecWildcardNodata]
  cases hfind : records.find? fun s => s.name.nameEq (wildcardName tx c') with
  | none =>
    have hwcov : nsecCovered records (wildcardName tx c') = true := by
      rcases hset with hset | ⟨s, hs', hsn, _⟩
      · exact covered_iff.mp hset
      · exact absurd hsn (List.find?_eq_none.mp hfind s hs')
    simp only [checkNsecNxdomain, hcov, hwcov, Bool.not_true, Bool.false_eq_true, if_false]
  | some w =>
    have hw := List.mem_of_find?_eq_some hfind
    have hwn := List.find?_some hfind
    obtain ⟨dw, hdw⟩ := (hs.chain w hw).data
    have hlacks : lacks t dw.typeBitMaps = true := by
      rw [(hs.chain w hw).lacks_iff hwn hdw]
      rcases hset with ⟨s, hs', hcovers⟩ | ⟨s, hs', hsn, ds, hds, hl⟩
      · obtain ⟨ds, hds, hin⟩ := plays_covers_iff.mp hcovers
        exact absurd ((hs.chain w hw).owns hwn) ((hs.chain s hs').not_owns hds hin)
      · exact ((hs.chain s hs').lacks_iff hsn hds).mp hl
    simp only [hdw, hlacks, hcov, Bool.not_true, Bool.false_eq_true, if_false, if_true]

end

end WholeZone

def nsecRecords (authority : List Record) : List Record :=
  authority.filter fun r => decide (r.recordType = .NSEC)

theorem denialRecords_nsec {authority : List Record}
    (h : (nsecRecords authority).length ≤ maxNegativeRecords) :
    denialRecords .NSEC authority = nsecRecords authority := List.take_of_length_le h

open WholeZone in
/-- **The denials of a server are taken exactly if the name owns records, or if the NSEC of an
ancestor of the name is among them** and settles the wildcard there.  The DS of the apex is the
parent's and never denied by the zone. -/
theorem validateNsec_complete_iff (Z : WholeZone) {env : Env} {keys : List Dnskey} {q : Name}
    {t : RecordType} {authority : List Record} {st : State} {roles : List Role}
    (hno : Z.NoAnswer q t) (hs : NsecSection Z q roles (nsecRecords authority))
    (hfew : (nsecRecords authority).length ≤ maxNegativeRecords)
    (hgen : ∀ r ∈ nsecRecords authority, GenuinelySigned env keys authority r)
    (hbudget : checksFor (nsecRecords authority).length authority keys ≤ checksLeft st) :
    (validateNsec env keys q t authority st).1 = .Secure ↔
      (Z.Owns q ∧ ¬ (t = .DS ∧ q.nameEq Z.apex = true)) ∨
        (¬ Z.Owns q ∧ EncloserSent env.text (nsecRecords authority) q t) := by
  have hne : nsecRecords authority ≠ [] := by
    intro hnil
    obtain ⟨role, hrole⟩ : ∃ role, role ∈ roles := by
      cases hs.prescribed <;> exact ⟨_, List.mem_cons_self⟩
    obtain ⟨r, hr, _⟩ := hs.filled role hrole
    rw [hnil] at hr
    exact absurd hr List.not_mem_nil
  have hrun : (validateNsec env keys q t authority st).1 =
      nsecDenial env.text q t (nsecRecords authority) := by
    rw [← denialRecords_nsec hfew] at hne hgen hbudget ⊢
    exact validateNsec_genuine hne hgen hbudget
  rw [hrun]
  by_cases hq : Z.Owns q
  · simp only [nsecDenial_owned hs hq hno.1, hq, true_and, not_true_eq_false, false_and, or_false]
  · simp only [hq, false_and, false_or, not_false_eq_true, true_and]
    exact ⟨hs.encloserSent_of_secure hq, hs.secure_of_encloserSent hq⟩

/-! ## the root with a wildcard -/

def starNode : Node := ⟨wildName, [.A, .RRSIG, .NSEC]⟩

def starZone : WholeZone where
  apex := .root
  nodes := [entApexNode, starNode]
  sorted := by decide
  apex_mem := by decide
  below := by decide
  soa := by decide
  noDelegation := by decide

def starNsec₁ : Record := rootNsec .root wildName [.NS, .SOA, .RRSIG, .NSEC, .DNSKEY]
def starNsec₂ : Record := rootNsec wildName .root [.A, .RRSIG, .NSEC]

def starEnv : Env where
  crypto := signedOnly [buildTbsManual (rootRrsig .root .NSEC .IN) [starNsec₁],
    buildTbsManual (rootRrsig wildName .NSEC .IN) [starNsec₂]]
  text := plainText
  nowSecs := fun _ => 1000
  resolve := fun _ _ _ => .error .AllNameserversFailed

theorem starNsec₁_chain : starZone.IsNsec starNsec₁ :=
  ⟨entApexNode, starNode, _, by decide, by decide, rfl, by decide, fun _ => Iff.rfl⟩

theorem starNsec₂_chain : starZone.IsNsec starNsec₂ :=
  ⟨starNode, entApexNode, _, by decide, by decide, rfl, by decide, fun _ => Iff.rfl⟩

theorem starZone_exists {n : Name} : starZone.Exists n ↔ n.fold = [] ∨ n.fold = [Name.star] := by
  constructor
  · rintro ⟨_, nd, hm, hz⟩
    simp only [starZone, List.mem_cons, List.not_mem_nil, or_false] at hm
    rcases hm with rfl | rfl
    · exact Or.inl (List.suffix_nil.mp (Name.zoneOf_iff.mp hz))
    · rcases zoneOf_tld hz with h | h
      · exact Or.inr (h.trans (by decide))
      · exact Or.inl h
  · rintro (h | h)
    · exact ⟨Name.root_zoneOf n, entApexNode, List.mem_cons_self,
        Name.zoneOf_of_nameEq (Name.nameEq_iff.mpr h)⟩
    · exact ⟨Name.root_zoneOf n, starNode, List.mem_cons_of_mem _ List.mem_cons_self,
        Name.zoneOf_of_nameEq (Name.nameEq_iff.mpr h)⟩

theorem Zone.noAnswer_of_types {Z : Zone} {t : RecordType}
    (h : ∀ nd ∈ Z.nodes, t ∉ nd.types ∧ RecordType.CNAME ∉ nd.types) (q : Name) :
    Z.NoAnswer q t := by
  have hno : ∀ n, ¬ Z.Answers n t := by
    rintro n (⟨nd, hm, _, ht⟩ | ⟨nd, hm, _, ht⟩)
    · exact (h nd hm).1 ht
    · exact (h nd hm).2 ht
  exact ⟨hno q, fun _ e _ => hno e.wildcard⟩

/-- the root is the closest encloser of `sub.` -/
theorem isEncloser_sub {Z : Zone} (hroot : Z.Exists .root) (hsub : ¬ Z.Exists subName) :
    Z.IsEncloser subName .root := by
  refine ⟨by decide, hroot, fun b hb hex => ?_⟩
  rcases zoneOf_tld hb with hf | hf
  · exact absurd ((Zone.exists_congr hf).mp hex) hsub
  · exact Name.zoneOf_of_nameEq (Name.nameEq_iff.mpr hf)

theorem wildcard_root : Name.root.wildcard = wildName := by decide

theorem genuinelySigned_root {env : Env} {authority : List Record} {rec : Record} {sig : Rrsig}
    (hmem : rootRrsig rec.name rec.recordType .IN ∈ authority)
    (hsig : (rootRrsig rec.name rec.recordType .IN).data = .rrsig sig)
    (hnow : ∀ tick, env.nowSecs tick = 1000)
    (htag : keyTagMatches env.crypto rootKsk sig.keyTag = true)
    (hvalid : signatureValid env.crypto sig rootKsk (rootRrsig rec.name rec.recordType .IN)
      (rrsetOf authority rec) = true) : GenuinelySigned env [rootKsk] authority rec := by
  have htime : ∀ tick, rrsigTimeValid sig (env.nowSecs tick) = true := by
    intro tick
    obtain rfl := RData.rrsig.inj hsig
    rw [hnow]
    exact rrsigTimeValid_of_le (Nat.zero_le _) (show 1000 ≤ (2000 : UInt32).toNat by decide)
      (show (0 : UInt32).toNat < (2000 : UInt32).toNat by decide)
      (show (2000 : UInt32).toNat < 2147483648 by decide)
  have hcovered : sig.typeCovered = rec.recordType := by
    obtain rfl := RData.rrsig.inj hsig
    rfl
  exact ⟨_, hmem, Name.nameEq_refl _, sig, rootKsk, hsig, hcovered, List.mem_cons_self, htag,
    hvalid, htime⟩

/-- a TXT question at the apex: the record of the apex is taken -/
theorem apexNodata_secure :
    starZone.NoAnswer .root .TXT ∧
      (validateNsec starEnv [rootKsk] .root .TXT [starNsec₁, rootRrsig .root .NSEC .IN] {}).1 =
        .Secure := by
  have howns : starZone.Owns .root := ⟨entApexNode, List.mem_cons_self, by decide⟩
  have hno : starZone.NoAnswer .root .TXT := Zone.noAnswer_of_types (by decide) _
  have hrecords : nsecRecords [starNsec₁, rootRrsig .root .NSEC .IN] = [starNsec₁] := rfl
  have hs : WholeZone.NsecSection starZone .root [.owns .root]
      (nsecRecords [starNsec₁, rootRrsig .root .NSEC .IN]) := by
    rw [hrecords]
    refine ⟨?_, .nodata howns, ?_, ?_⟩
    · intro r hr
      obtain rfl := List.mem_singleton.mp hr
      exact starNsec₁_chain
    · intro r hr
      obtain rfl := List.mem_singleton.mp hr
      exact ⟨_, List.mem_cons_self, Name.nameEq_refl _⟩
    · intro role hrole
      obtain rfl := List.mem_singleton.mp hrole
      exact ⟨starNsec₁, List.mem_cons_self, Name.nameEq_refl _⟩
  refine ⟨hno, (validateNsec_complete_iff starZone hno hs (by decide +kernel) ?_
    (by decide +kernel)).mpr (Or.inl ⟨howns, by decide⟩)⟩
  rw [hrecords]
  intro r hr
  obtain rfl := List.mem_singleton.mp hr
  exact genuinelySigned_root (List.mem_cons_of_mem _ List.mem_cons_self) rfl (fun _ => rfl)
    (by decide +kernel) (by decide +kernel)

/-- a TXT question below the wildcard: its NSEC covers the name and lacks the type, and is not
taken -/
theorem wildcardNodata_bogus :
    starZone.NoAnswer subName .TXT ∧
      WholeZone.NsecSection starZone subName [.owns wildName, .covers subName]
        (nsecRecords [starNsec₂, rootRrsig wildName .NSEC .IN]) ∧
      GenuinelySigned starEnv [rootKsk] [starNsec₂, rootRrsig wildName .NSEC .IN] starNsec₂ ∧
      checksFor 1 [starNsec₂, rootRrsig wildName .NSEC .IN] [rootKsk] ≤ checksLeft {} ∧
      (validateNsec starEnv [rootKsk] subName .TXT [starNsec₂, rootRrsig wildName .NSEC .IN] {}).1 =
        .Bogus := by
  have hrecords : nsecRecords [starNsec₂, rootRrsig wildName .NSEC .IN] = [starNsec₂] := rfl
  have hne : ¬ starZone.Exists subName := by
    intro h
    rcases starZone_exists.mp h with h | h
    · exact absurd h (by decide)
    · exact absurd h (by decide)
  have henc := isEncloser_sub (starZone_exists.mpr (Or.inl rfl)) hne
  refine ⟨Zone.noAnswer_of_types (by decide) _, ?_, ?_, by decide, by decide +kernel⟩
  · rw [hrecords]
    have hrole : WholeZone.Plays starNsec₂ (.owns wildName) := Name.nameEq_refl _
    have hrole' : WholeZone.Plays starNsec₂ (.covers subName) := ⟨_, rfl, by decide⟩
    refine ⟨?_, wildcard_root ▸ .wildcardNodata hne henc ⟨starNode, List.mem_cons_of_mem _
      List.mem_cons_self, by decide⟩, ?_, ?_⟩
    · intro r hr
      obtain rfl := List.mem_singleton.mp hr
      exact starNsec₂_chain
    · intro r hr
      obtain rfl := List.mem_singleton.mp hr
      exact ⟨_, List.mem_cons_self, hrole⟩
    · intro role hmem
      rcases List.mem_cons.mp hmem with rfl | hmem
      · exact ⟨starNsec₂, List.mem_cons_self, hrole⟩
      · obtain rfl := List.mem_singleton.mp hmem
        exact ⟨starNsec₂, List.mem_cons_self, hrole'⟩
  · exact genuinelySigned_root (List.mem_cons_of_mem _ List.mem_cons_self) rfl (fun _ => rfl)
      (by decide +kernel) (by decide +kernel)

end DnsResolver
