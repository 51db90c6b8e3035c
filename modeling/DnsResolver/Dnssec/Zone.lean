import DnsResolver.Dnssec.Denial

/-!
# Zones and their denial chains

What a zone signs to deny names: one NSEC record for each owner name, in canonical order, or one
NSEC3 record for each existing name, on the ring of their hashes.

* `NsecChain`     the owners of a zone with their types; `IsNsec`, a record of its chain;
* `Zone`          with the apex; `Exists`, `IsEncloser` and `NoAnswer` say what it has to answer;
* `Nsec3Ring`     the hashes with their types; `IsNsec3`, a record of the ring;
* `Nsec3Chain`    the ring of the existing names of a zone;
* `NoCollision`   the hash tells the names apart that are compared.
-/

namespace DnsResolver

structure Node where
  owner : Name
  types : List RecordType
  deriving DecidableEq

/-- the owner names of a zone in canonical order, delegations included -/
structure NsecChain where
  nodes : List Node
  sorted : nodes.Pairwise fun a b => a.owner.canon < b.owner.canon

namespace NsecChain

/-- the zone has an RRset of type `t` at `n` -/
def HasType (Z : NsecChain) (n : Name) (t : RecordType) : Prop :=
  ∃ nd ∈ Z.nodes, nd.owner.nameEq n = true ∧ t ∈ nd.types

/-- the zone has records at `n` -/
def Owns (Z : NsecChain) (n : Name) : Prop := ∃ nd ∈ Z.nodes, nd.owner.nameEq n = true

/-- the zone has the type, or a CNAME, at `n` -/
def Answers (Z : NsecChain) (n : Name) (t : RecordType) : Prop :=
  Z.HasType n t ∨ Z.HasType n .CNAME

def IsNsec (Z : NsecChain) (r : Record) : Prop :=
  ∃ nd next n, (nd, next) ∈ Ring.links Z.nodes ∧ r.name.nameEq nd.owner = true ∧
    r.data = .nsec n ∧ n.nextDomainName.nameEq next.owner = true ∧
    ∀ t, t ∈ n.typeBitMaps ↔ t ∈ nd.types

variable {Z : NsecChain} {n m : Name} {t : RecordType} {r : Record} {d : Nsec}

theorem node_unique {a b : Node} (ha : a ∈ Z.nodes) (hb : b ∈ Z.nodes)
    (h : a.owner.fold = b.owner.fold) : a = b :=
  Ring.eq_of_key Z.sorted ha hb (by rw [Name.canon, Name.canon, h])

theorem answers_congr (h : n.fold = m.fold) : Z.Answers n t ↔ Z.Answers m t := by
  simp only [Answers, HasType, Name.nameEq, h]

theorem owns_of_answers (h : Z.Answers n t) : Z.Owns n := by
  rcases h with ⟨nd, hm, he, _⟩ | ⟨nd, hm, he, _⟩ <;> exact ⟨nd, hm, he⟩

theorem IsNsec.data (h : Z.IsNsec r) : ∃ d, r.data = .nsec d := by
  obtain ⟨_, _, d, _, _, hd, _⟩ := h
  exact ⟨d, hd⟩

theorem IsNsec.owns (h : Z.IsNsec r) (hn : r.name.nameEq n = true) : Z.Owns n := by
  obtain ⟨nd, next, _, hlink, hown, _⟩ := h
  exact ⟨nd, Ring.fst_mem_of_links hlink, Name.nameEq_trans (Name.nameEq_symm hown) hn⟩

theorem IsNsec.types (h : Z.IsNsec r) (hn : r.name.nameEq n = true) (hd : r.data = .nsec d)
    (t : RecordType) : t ∈ d.typeBitMaps ↔ Z.HasType n t := by
  obtain ⟨nd, next, d', hlink, hown, hd', _, htypes⟩ := h
  obtain rfl := RData.nsec.inj (hd.symm.trans hd')
  have hmem := Ring.fst_mem_of_links hlink
  have hnode := Name.nameEq_trans (Name.nameEq_symm hown) hn
  rw [htypes]
  constructor
  · exact fun ht => ⟨nd, hmem, hnode, ht⟩
  · rintro ⟨nd', hm', he, ht⟩
    rwa [node_unique hm' hmem ((Name.nameEq_iff.mp he).trans (Name.nameEq_iff.mp hnode).symm)] at ht

theorem IsNsec.lacks_iff (h : Z.IsNsec r) (hn : r.name.nameEq n = true) (hd : r.data = .nsec d) :
    lacks t d.typeBitMaps = true ↔ ¬ Z.Answers n t := by
  rw [DnsResolver.lacks_iff, h.types hn hd, h.types hn hd, Answers, not_or]

theorem IsNsec.not_owns (h : Z.IsNsec r) (hd : r.data = .nsec d)
    (hc : nsecCovers r.name d.nextDomainName n = true) : ¬ Z.Owns n := by
  obtain ⟨nd, next, d', hlink, hown, hd', hnext, _⟩ := h
  obtain rfl := RData.nsec.inj (hd.symm.trans hd')
  have hin := of_decide_eq_true hc
  rw [Name.canon, Name.canon, Name.nameEq_iff.mp hown, Name.nameEq_iff.mp hnext] at hin
  rintro ⟨nd', hm, he⟩
  refine Ring.key_ne_of_inside Z.sorted hlink hin nd' hm ?_
  rw [Name.canon, Name.canon, Name.nameEq_iff.mp he]

end NsecChain

/-! ## zones -/

structure Zone extends NsecChain where
  apex : Name
  apex_mem : ∃ nd ∈ nodes, nd.owner.nameEq apex = true
  below : ∀ nd ∈ nodes, apex.zoneOf nd.owner = true

namespace Zone

/-- `n` is an owner or an empty non-terminal -/
def Exists (Z : Zone) (n : Name) : Prop :=
  Z.apex.zoneOf n = true ∧ ∃ nd ∈ Z.nodes, n.zoneOf nd.owner = true

/-- `e` is the longest existing ancestor of `q` -/
def IsEncloser (Z : Zone) (q e : Name) : Prop :=
  e.zoneOf q = true ∧ Z.Exists e ∧ ∀ b : Name, b.zoneOf q = true → Z.Exists b → b.zoneOf e = true

/-- no answer at the name, nor from the wildcard of its longest existing ancestor -/
def NoAnswer (Z : Zone) (q : Name) (t : RecordType) : Prop :=
  ¬ Z.Answers q t ∧ (¬ Z.Exists q → ∀ e, Z.IsEncloser q e → ¬ Z.Answers e.wildcard t)

variable {Z : Zone} {q n m c e e' : Name} {t : RecordType}

theorem exists_congr (h : n.fold = m.fold) : Z.Exists n ↔ Z.Exists m := by
  simp only [Exists, Name.zoneOf, h]

theorem exists_of_owns (h : Z.Owns n) : Z.Exists n := by
  obtain ⟨nd, hm, he⟩ := h
  exact ⟨Name.zoneOf_trans (Z.below nd hm) (Name.zoneOf_of_nameEq he), nd, hm,
    Name.zoneOf_of_nameEq (Name.nameEq_symm he)⟩

theorem exists_of_answers (h : Z.Answers n t) : Z.Exists n :=
  exists_of_owns (NsecChain.owns_of_answers h)

theorem Exists.up (h : Z.Exists n) (ha : Z.apex.zoneOf m = true) (hm : m.zoneOf n = true) :
    Z.Exists m := by
  obtain ⟨_, nd, hnd, hz⟩ := h
  exact ⟨ha, nd, hnd, Name.zoneOf_trans hm hz⟩

theorem IsEncloser.ne (h : Z.IsEncloser q e) (hq : ¬ Z.Exists q) : e.nameEq q = false := by
  rw [Name.nameEq_eq_false]
  intro he
  exact hq ((exists_congr he).mp h.2.1)

theorem IsEncloser.congr (h : Z.IsEncloser q e) (he : e.fold = e'.fold) : Z.IsEncloser q e' := by
  unfold IsEncloser Name.zoneOf at *
  rwa [← exists_congr he, ← he]

theorem IsEncloser.unique (h : Z.IsEncloser q e) (h' : Z.IsEncloser q e') : e.fold = e'.fold :=
  Name.nameEq_iff.mp (Name.nameEq_of_zoneOf (h'.2.2 e h.1 h.2.1) (h.2.2 e' h'.1 h'.2.1))

theorem IsEncloser.length_le (h : Z.IsEncloser q e) (hz : n.zoneOf q = true) (hn : Z.Exists n) :
    n.labels.length ≤ e.labels.length := by
  have hle := (Name.zoneOf_iff.mp (h.2.2 n hz hn)).length_le
  rwa [Name.length_fold, Name.length_fold] at hle

end Zone

/-- a zone without delegations -/
structure SignedZone extends Zone where
  noDelegation : ∀ nd ∈ nodes, RecordType.NS ∈ nd.types → nd.owner.nameEq apex = true

/-! ## the child of the encloser -/

/-- `next` is the child of `e` on the way to `q` -/
def NextCloser (q e next : Name) : Prop :=
  next.zoneOf q = true ∧ next.baseName.nameEq e = true ∧ next.nameEq e = false

section
variable {Z : Zone} {q e e' next next' : Name}

theorem NextCloser.unique (h : NextCloser q e next) (h' : NextCloser q e next') :
    next.fold = next'.fold := by
  refine Name.nameEq_iff.mp (Name.nameEq_of_length h.1 h'.1 ?_)
  rw [Name.length_child h.2.1 h.2.2, Name.length_child h'.2.1 h'.2.2]

theorem NextCloser.congr (h : NextCloser q e next) (he : e.fold = e'.fold) :
    NextCloser q e' next := by
  unfold NextCloser Name.nameEq at *
  rwa [← he]

/-- the loop of `check_nsec3_nxdomain` finds it -/
theorem nextCloser_eq (hz : e.zoneOf q = true) (hne : e.nameEq q = false) :
    ∃ next, nextCloser e (q.labels.length + 1) q = some next ∧ NextCloser q e next := by
  have hk : q.fold.length < q.labels.length + 1 := by
    rw [Name.length_fold]
    omega
  obtain ⟨next, hnext, hzn, hbase, hnc⟩ := nextCloser_spec hz hne hk
  exact ⟨next, hnext, hzn, hbase, hnc⟩

theorem Zone.IsEncloser.next_not_exists (h : Z.IsEncloser q e) (hn : NextCloser q e next) :
    ¬ Z.Exists next := by
  intro hex
  have hle := (Name.zoneOf_iff.mp (h.2.2 next hn.1 hex)).length_le
  rw [Name.length_child hn.2.1 hn.2.2] at hle
  omega

/-- if the child of an existing ancestor does not exist, that ancestor is the longest one -/
theorem Zone.isEncloser_of_next (he : Z.Exists e) (heq : e.zoneOf q = true)
    (hn : NextCloser q e next) (hne : ¬ Z.Exists next) : ¬ Z.Exists q ∧ Z.IsEncloser q e := by
  obtain ⟨hnq, hbase, _⟩ := hn
  have hapex : Z.apex.zoneOf next = true := by
    refine Name.zoneOf_trans he.1 (Name.zoneOf_trans ?_ (Name.zoneOf_baseName next))
    exact Name.zoneOf_of_nameEq (Name.nameEq_symm hbase)
  refine ⟨fun hq => hne (hq.up hapex hnq), heq, he, fun b hb hex => ?_⟩
  rcases Name.zoneOf_total hb hnq with h | h
  · -- `b` is above the child
    refine Name.zoneOf_trans (Name.zoneOf_baseName_of_ne h ?_) (Name.zoneOf_of_nameEq hbase)
    rw [Name.nameEq_eq_false]
    exact fun hbn => hne ((Zone.exists_congr hbn).mp hex)
  · exact absurd (hex.up hapex h) hne

end

/-! ## NSEC3 -/

/-- the hash of a name of the zone, with the types there -/
structure HashNode where
  hash : Bytes
  types : List RecordType

structure Nsec3Ring where
  nodes : List HashNode
  sorted : nodes.Pairwise fun a b => a.hash < b.hash

/-- a record of the ring, with or without opt-out -/
def Nsec3Ring.IsNsec3 (C : Nsec3Ring) (salt : Bytes) (iterations : UInt16) (r : Record) : Prop :=
  ∃ nd next d, (nd, next) ∈ Ring.links C.nodes ∧ nsec3OwnerHash r = some nd.hash ∧
    r.data = .nsec3 d ∧ d.nextHashedOwnerName = next.hash ∧ d.hashAlgorithm = .SHA1 ∧
    d.salt = salt ∧ d.iterations = iterations ∧ ∀ t, t ∈ d.typeBitMaps ↔ t ∈ nd.types

/-- the ring of the existing names of a zone, empty non-terminals included -/
structure Nsec3Chain (Z : Zone) (H : Name → Bytes) extends Nsec3Ring where
  mem : ∀ h, (∃ nd ∈ nodes, nd.hash = h) ↔ ∃ n, Z.Exists n ∧ H n = h
  types : ∀ nd ∈ nodes, ∀ n, Z.Exists n → H n = nd.hash → ∀ t, t ∈ nd.types ↔ Z.HasType n t

/-- the names whose hashes are compared: existing names, the name and its ancestors, and the
wildcards of these -/
def Hashed (Z : Zone) (q n : Name) : Prop :=
  Z.Exists n ∨ n.zoneOf q = true ∨
    ∃ a : Name, a.zoneOf q = true ∧ a.nameEq q = false ∧ n.nameEq a.wildcard = true

/-- no two of these names have the same hash -/
def NoCollision (Z : Zone) (H : Name → Bytes) (q : Name) : Prop :=
  ∀ a b, Hashed Z q a → Hashed Z q b → H a = H b → a.fold = b.fold

section
variable {Z : Zone} {H : Name → Bytes} {C : Nsec3Chain Z H} {salt : Bytes}
  {iterations : UInt16} {q n : Name} {t : RecordType} {r : Record} {d : Nsec3} {h : Bytes}

theorem hashed_above (h : n.zoneOf q = true) : Hashed Z q n := Or.inr (Or.inl h)

theorem hashed_wildcard (h : n.zoneOf q = true) (hne : n.nameEq q = false) :
    Hashed Z q n.wildcard := Or.inr (Or.inr ⟨n, h, hne, Name.nameEq_refl _⟩)

theorem Nsec3Ring.IsNsec3.data {R : Nsec3Ring} (hr : R.IsNsec3 salt iterations r) :
    ∃ d, r.data = .nsec3 d ∧ d.hashAlgorithm = .SHA1 ∧ d.salt = salt ∧
      d.iterations = iterations := by
  obtain ⟨_, _, d, _, _, hd, _, halg, hsalt, hiter, _⟩ := hr
  exact ⟨d, hd, halg, hsalt, hiter⟩

theorem Nsec3Ring.IsNsec3.same_types {R : Nsec3Ring} {r' : Record} {d' : Nsec3}
    (hr : R.IsNsec3 salt iterations r) (hr' : R.IsNsec3 salt iterations r')
    (he : nsec3OwnerHash r = nsec3OwnerHash r') (hd : r.data = .nsec3 d)
    (hd' : r'.data = .nsec3 d') (t : RecordType) : t ∈ d.typeBitMaps ↔ t ∈ d'.typeBitMaps := by
  obtain ⟨nd, _, d₁, hl, ho, hd₁, _, _, _, _, ht⟩ := hr
  obtain ⟨nd', _, d₂, hl', ho', hd₂, _, _, _, _, ht'⟩ := hr'
  obtain rfl := RData.nsec3.inj (hd.symm.trans hd₁)
  obtain rfl := RData.nsec3.inj (hd'.symm.trans hd₂)
  obtain rfl : nd = nd' := Ring.eq_of_key R.sorted (Ring.fst_mem_of_links hl)
    (Ring.fst_mem_of_links hl') (Option.some.inj (ho.symm.trans (he.trans ho')))
  exact (ht t).trans (ht' t).symm

/-- the half-open test of the code: it adds the owner itself, and finds nothing on a ring with a
single member -/
theorem Nsec3Ring.IsNsec3.covers_iff {R : Nsec3Ring} (hr : R.IsNsec3 salt iterations r) :
    nsec3Covers r h = true ↔ 2 ≤ R.nodes.length ∧ (nsec3OwnerHash r = some h ∨
      ∃ o d, nsec3OwnerHash r = some o ∧ r.data = .nsec3 d ∧
        Ring.Inside o d.nextHashedOwnerName h) := by
  obtain ⟨nd, next, d, hl, ho, hd, hnext, _⟩ := hr
  rw [nsec3Covers_iff, ← Ring.link_key_ne_iff R.sorted hl]
  constructor
  · rintro ⟨o, d', ho', hd', hhalf⟩
    obtain rfl := Option.some.inj (ho.symm.trans ho')
    obtain rfl := RData.nsec3.inj (hd.symm.trans hd')
    obtain ⟨hne, hin⟩ := Ring.halfOpen_iff.mp hhalf
    rw [hnext] at hne
    exact ⟨hne, hin.imp (fun he => by rw [he, ho]) fun hi => ⟨_, d, ho, hd, hi⟩⟩
  · rintro ⟨hne, hin⟩
    refine ⟨_, d, ho, hd, Ring.halfOpen_iff.mpr ⟨by rwa [hnext], ?_⟩⟩
    rcases hin with he | ⟨o, d', ho', hd', hi⟩
    · exact Or.inl (Option.some.inj (he.symm.trans ho))
    · obtain rfl := Option.some.inj (ho.symm.trans ho')
      obtain rfl := RData.nsec3.inj (hd.symm.trans hd')
      exact Or.inr hi

namespace Nsec3Chain

/-- a record whose owner is the hash of `n` is the record of `n` -/
theorem types_of_owner (hr : C.IsNsec3 salt iterations r) (hcol : NoCollision Z H q)
    (hn : Hashed Z q n) (ho : nsec3OwnerHash r = some (H n)) :
    Z.Exists n ∧ ∃ d, r.data = .nsec3 d ∧ ∀ t, t ∈ d.typeBitMaps ↔ Z.HasType n t := by
  obtain ⟨nd, _, d, hl, ho', hd, _, _, _, _, htypes⟩ := hr
  have hmem := Ring.fst_mem_of_links hl
  have hhash : nd.hash = H n := Option.some.inj (ho'.symm.trans ho)
  obtain ⟨m, hm, he⟩ := (C.mem nd.hash).mp ⟨nd, hmem, rfl⟩
  have hex : Z.Exists n :=
    (Zone.exists_congr (hcol m n (Or.inl hm) hn (he.trans hhash))).mp hm
  exact ⟨hex, d, hd, fun t => (htypes t).trans (C.types nd hmem n hex hhash.symm t)⟩

/-- the bitmap lacks the type exactly if the zone has no answer at `n` -/
theorem lacks_iff (hr : C.IsNsec3 salt iterations r) (hcol : NoCollision Z H q)
    (hn : Hashed Z q n) (ho : nsec3OwnerHash r = some (H n)) (hd : r.data = .nsec3 d) :
    lacks t d.typeBitMaps = true ↔ ¬ Z.Answers n t := by
  obtain ⟨_, d', hd', htypes⟩ := types_of_owner hr hcol hn ho
  obtain rfl := RData.nsec3.inj (hd.symm.trans hd')
  rw [DnsResolver.lacks_iff, htypes, htypes, NsecChain.Answers, not_or]

theorem exists_of_listed {records : List Record} (hcol : NoCollision Z H q)
    (hchain : ∀ r ∈ records, C.IsNsec3 salt iterations r) (hn : Hashed Z q n)
    (h : nsec3Listed H records n = true) : Z.Exists n := by
  obtain ⟨r, hr, ho⟩ := nsec3Listed_iff.mp h
  exact (types_of_owner (hchain r hr) hcol hn ho).1

theorem not_exists_of_covers (hr : C.IsNsec3 salt iterations r)
    (hc : nsec3Covers r (H n) = true) (hne : nsec3OwnerHash r ≠ some (H n)) : ¬ Z.Exists n := by
  obtain ⟨_, ho | ⟨o, d, ho, hd, hin⟩⟩ := hr.covers_iff.mp hc
  · exact absurd ho hne
  · obtain ⟨nd, next, d', hl, ho', hd', hnext, _⟩ := hr
    obtain rfl := Option.some.inj (ho.symm.trans ho')
    obtain rfl := RData.nsec3.inj (hd.symm.trans hd')
    rw [hnext] at hin
    intro hex
    obtain ⟨nd', hm, he⟩ := (C.mem _).mpr ⟨n, hex, rfl⟩
    exact Ring.key_ne_of_inside C.sorted hl hin nd' hm he

end Nsec3Chain
end
end DnsResolver
