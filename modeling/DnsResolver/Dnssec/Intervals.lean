import DnsResolver.Dnssec.Base32
import DnsResolver.Dnssec.Nsec3Zone
import Mathlib.Data.List.Forall2

/-!
# The intervals of a denial chain

The NSEC records of a zone close its owner names up to a ring, and the NSEC3 records do the same
with its hashes.  A point of the order should be settled by one record of the ring: the one that
matches it, or the one that covers it.

* `nsecRing_partition`    `nsec_covers` has this for every ring of names and every target;
* `nsec3Ring_partition`   `nsec3_covers` tests `owner ≤ target` and has no case for a ring of one:
                          a target that is a member is matched and covered at once, and on a
                          ring of one nothing else is covered.
-/

namespace DnsResolver

theorem countP_forall₂ {α β : Type} {R : α → β → Prop} {p : α → Bool} {q : β → Bool} {as : List α}
    {bs : List β} (h : List.Forall₂ R as bs) (hpq : ∀ a ∈ as, ∀ b, R a b → p a = q b) :
    as.countP p = bs.countP q := by
  induction h with
  | nil => rfl
  | @cons a b as bs hab _ ih =>
    have htail := ih fun c hc => hpq c (List.mem_cons_of_mem a hc)
    rw [List.countP_cons, List.countP_cons, htail, hpq a List.mem_cons_self b hab]

theorem mem_of_forall₂ {α β : Type} {R : α → β → Prop} {as : List α} {bs : List β}
    (h : List.Forall₂ R as bs) {b : β} (hb : b ∈ bs) : ∃ a ∈ as, R a b := by
  induction h with
  | nil => exact absurd hb List.not_mem_nil
  | @cons a c as bs hac _ ih =>
    rcases List.mem_cons.mp hb with rfl | hb
    · exact ⟨a, List.mem_cons_self, hac⟩
    · obtain ⟨d, hd, hr⟩ := ih hb
      exact ⟨d, List.mem_cons_of_mem a hd, hr⟩

theorem exists_of_forall₂ {α β : Type} {R : α → β → Prop} {as : List α} {bs : List β}
    (h : List.Forall₂ R as bs) {a : α} (ha : a ∈ as) : ∃ b ∈ bs, R a b :=
  mem_of_forall₂ h.flip ha

/-! ## NSEC -/

/-- the record of a link, in any spelling of the two names -/
def IsNsecOf (link : Name × Name) (r : Record) : Prop :=
  r.name.nameEq link.1 = true ∧
    ∃ n, r.data = .nsec n ∧ n.nextDomainName.nameEq link.2 = true

/-- the records of a ring of owner names -/
def IsNsecRing (owners : List Name) (ring : List Record) : Prop :=
  List.Forall₂ IsNsecOf (Ring.links owners) ring

theorem IsNsecOf.matches_iff {link : Name × Name} {r : Record} (h : IsNsecOf link r)
    (target : Name) : r.name.nameEq target = true ↔ target.canon = link.1.canon := by
  rw [Name.nameEq_iff, Name.nameEq_iff.mp h.1, Name.canon, Name.canon, List.reverse_inj, eq_comm]

theorem IsNsecOf.covers_iff {link : Name × Name} {r : Record} (h : IsNsecOf link r)
    (target : Name) :
    nsecCovered [r] target = true ↔ Ring.Inside link.1.canon link.2.canon target.canon := by
  obtain ⟨hown, n, hd, hnext⟩ := h
  have hinside : nsecCovers r.name n.nextDomainName target = true ↔
      Ring.Inside link.1.canon link.2.canon target.canon := by
    rw [nsecCovers, decide_eq_true_eq, Name.canon, Name.canon, Name.nameEq_iff.mp hown,
      Name.nameEq_iff.mp hnext]
    rfl
  rw [← hinside, nsecCovered, List.any_cons, List.any_nil, Bool.or_false, hd]

/-- **NSEC intervals partition the zone.**  Exactly one record of the ring matches or covers the
target, and no record does both. -/
theorem nsecRing_partition {owners : List Name} {ring : List Record} (hne : owners ≠ [])
    (hs : owners.Pairwise fun a b => a.canon < b.canon) (hring : IsNsecRing owners ring)
    (target : Name) :
    ring.countP (fun r => r.name.nameEq target || nsecCovered [r] target) = 1 ∧
      ∀ r ∈ ring, ¬ (r.name.nameEq target = true ∧ nsecCovered [r] target = true) := by
  constructor
  · rw [← Ring.countP_links_key hs hne target.canon]
    symm
    apply countP_forall₂ hring
    intro link _ r hr
    rw [Bool.eq_iff_iff, Bool.or_eq_true, hr.matches_iff, hr.covers_iff, decide_eq_true_eq]
    rfl
  · intro r hr
    obtain ⟨link, _, hlink⟩ := mem_of_forall₂ hring hr
    rw [hlink.matches_iff, hlink.covers_iff]
    rintro ⟨heq, hin⟩
    rw [heq] at hin
    exact Ring.not_inside_left _ _ hin

/-- the ring of one name, and a ring of two -/
theorem nsecRing_partition_root :
    [rootNsec .root .root []].countP
        (fun r => r.name.nameEq belowEnt || nsecCovered [r] belowEnt) = 1 ∧
      [entNsec₁, entNsec₂].countP
        (fun r => r.name.nameEq belowEnt || nsecCovered [r] belowEnt) = 1 := by
  have hone : IsNsecRing [Name.root] [rootNsec .root .root []] :=
    List.Forall₂.cons ⟨by decide, _, rfl, by decide⟩ List.Forall₂.nil
  have htwo : IsNsecRing [Name.root, entWildcard] [entNsec₁, entNsec₂] :=
    List.Forall₂.cons ⟨by decide, _, rfl, by decide⟩
      (List.Forall₂.cons ⟨by decide, _, rfl, by decide⟩ List.Forall₂.nil)
  refine ⟨(nsecRing_partition ?_ ?_ hone belowEnt).1, (nsecRing_partition ?_ ?_ htwo belowEnt).1⟩
  · exact List.cons_ne_nil _ _
  · exact List.pairwise_singleton _ _
  · exact List.cons_ne_nil _ _
  · decide

/-! ## NSEC3 -/

/-- the record of a link of hashes; the owner label is the base32hex text of the first, in any
mixture of cases -/
def IsNsec3Of (link : Bytes × Bytes) (r : Record) : Prop :=
  (∃ s : Text, s.map Char.toUpper = base32hexEncode link.1 ∧ r.name.labels.headD [] = utf8 s) ∧
    ∃ n, r.data = .nsec3 n ∧ n.nextHashedOwnerName = link.2

/-- the records of a ring of hashes -/
def IsNsec3Ring (hashes : List Bytes) (ring : List Record) : Prop :=
  List.Forall₂ IsNsec3Of (Ring.links hashes) ring

theorem IsNsec3Of.ownerHash {link : Bytes × Bytes} {r : Record} (h : IsNsec3Of link r)
    (hlen : link.1.length = 20) : nsec3OwnerHash r = some link.1 := by
  obtain ⟨⟨s, hs, hlabel⟩, _⟩ := h
  rw [nsec3OwnerHash, hlabel, base32hexDecode_encode hs]
  show (if link.1.length = 20 then some link.1 else none) = some link.1
  rw [if_pos hlen]

theorem IsNsec3Of.covers_iff {link : Bytes × Bytes} {r : Record} (h : IsNsec3Of link r)
    (hlen : link.1.length = 20) (target : Bytes) :
    nsec3Covers r target = true ↔ link.1 ≠ link.2 ∧ Ring.Meets link.1 link.2 target := by
  obtain ⟨n, hd, hnext⟩ := h.2
  rw [nsec3Covers, h.ownerHash hlen, hd, ← hnext]
  show decide (Ring.HalfOpen link.1 n.nextHashedOwnerName target) = true ↔ _
  rw [decide_eq_true_eq, Ring.halfOpen_iff]
  rfl

section
variable {hashes : List Bytes} {ring : List Record}

/-- when one record settles the target: a ring of two or more covers what it does not match, a
ring of one covers nothing -/
theorem nsec3Ring_settled (hne : hashes ≠ []) (hs : hashes.Pairwise (· < ·))
    (h20 : ∀ h ∈ hashes, h.length = 20) (hring : IsNsec3Ring hashes ring) (target : Bytes) :
    ring.countP (fun r => decide (nsec3OwnerHash r = some target) || nsec3Covers r target) = 1 ↔
      (target ∈ hashes ∨ 2 ≤ hashes.length) := by
  have hcount : ring.countP
      (fun r => decide (nsec3OwnerHash r = some target) || nsec3Covers r target) =
      (Ring.links hashes).countP fun k =>
        decide (target = k.1 ∨ k.1 ≠ k.2 ∧ Ring.Meets k.1 k.2 target) := by
    symm
    apply countP_forall₂ hring
    intro link hlink r hr
    have hlen := h20 link.1 (Ring.fst_mem_of_links hlink)
    rw [Bool.eq_iff_iff, Bool.or_eq_true, hr.covers_iff hlen, decide_eq_true_eq,
      decide_eq_true_eq, hr.ownerHash hlen, Option.some.injEq, eq_comm]
  rw [hcount]
  by_cases h2 : 2 ≤ hashes.length
  · have hall : (Ring.links hashes).countP (fun k =>
        decide (target = k.1 ∨ k.1 ≠ k.2 ∧ Ring.Meets k.1 k.2 target)) = 1 := by
      rw [← Ring.countP_links hs hne target]
      apply List.countP_congr
      intro link hlink
      have hends : link.1 ≠ link.2 := (Ring.link_ne_iff hs hlink).mpr h2
      rw [decide_eq_true_eq, decide_eq_true_eq]
      constructor
      · rintro (heq | ⟨_, hmeets⟩)
        · exact Or.inl heq
        · exact hmeets
      · exact fun hmeets => Or.inr ⟨hends, hmeets⟩
    exact ⟨fun _ => Or.inr h2, fun _ => hall⟩
  · -- the only link goes from the hash to itself
    have hpos := List.length_pos_of_ne_nil hne
    obtain ⟨a, rfl⟩ := List.length_eq_one_iff.mp (show hashes.length = 1 by omega)
    have hlinks : Ring.links [a] = [(a, a)] := by
      rw [Ring.links, List.rotate_singleton]
      rfl
    rw [hlinks, List.countP_singleton]
    by_cases ht : target = a <;> simp [ht]

theorem nsec3Ring_disjoint (hs : hashes.Pairwise (· < ·)) (h20 : ∀ h ∈ hashes, h.length = 20)
    (hring : IsNsec3Ring hashes ring) (target : Bytes) :
    (∀ r ∈ ring, ¬ (nsec3OwnerHash r = some target ∧ nsec3Covers r target = true)) ↔
      (target ∈ hashes → hashes.length < 2) := by
  constructor
  · intro hno hmem
    by_contra h2
    obtain ⟨next, hlink⟩ := Ring.exists_link hmem
    obtain ⟨r, hr, hof⟩ := exists_of_forall₂ hring hlink
    have hlen := h20 target hmem
    refine hno r hr ⟨hof.ownerHash hlen, (hof.covers_iff hlen target).mpr ⟨?_, Or.inl rfl⟩⟩
    exact (Ring.link_ne_iff hs hlink).mpr (Nat.le_of_not_lt h2)
  · rintro hone r hr ⟨hown, hcov⟩
    obtain ⟨link, hlink, hof⟩ := mem_of_forall₂ hring hr
    have hmem := Ring.fst_mem_of_links hlink
    have hlen := h20 link.1 hmem
    rw [hof.ownerHash hlen] at hown
    obtain rfl := Option.some.inj hown
    have h2 := (Ring.link_ne_iff hs hlink).mp ((hof.covers_iff hlen _).mp hcov).1
    exact absurd (hone hmem) (Nat.not_lt.mpr h2)

/-- **When NSEC3 intervals partition the hash space**: on a ring of two or more for a target that
is no member of it, on a ring of one for its member. -/
theorem nsec3Ring_partition (hne : hashes ≠ []) (hs : hashes.Pairwise (· < ·))
    (h20 : ∀ h ∈ hashes, h.length = 20) (hring : IsNsec3Ring hashes ring) (target : Bytes) :
    (ring.countP (fun r =>
        decide (nsec3OwnerHash r = some target) || nsec3Covers r target) = 1 ∧
      ∀ r ∈ ring, ¬ (nsec3OwnerHash r = some target ∧ nsec3Covers r target = true)) ↔
    (target ∈ hashes ↔ hashes.length = 1) := by
  rw [nsec3Ring_settled hne hs h20 hring, nsec3Ring_disjoint hs h20 hring]
  have hpos := List.length_pos_of_ne_nil hne
  by_cases hmem : target ∈ hashes
  · simp only [hmem, true_or, true_imp_iff, true_and, true_iff]
    omega
  · simp only [hmem, false_or, false_imp_iff, and_true, false_iff]
    omega

end

/-- the only record of a zone with one hash -/
def apexNsec3 : Record := rootNsec3 apexOwner hashRoot [.NS, .SOA, .RRSIG, .DNSKEY]

theorem wildOwner_texts :
    (∃ s : Text, s.map Char.toUpper = base32hexEncode hashWild ∧
      wildOwner.labels.headD [] = utf8 s) ∧
    ∃ s : Text, s.map Char.toUpper = base32hexEncode hashRoot ∧
      apexOwner.labels.headD [] = utf8 s :=
  ⟨⟨"6hlrm49h778hn670802mjdfgcgcqct9a".toList, by decide +kernel, by decide +kernel⟩,
    "bekjp7dgpvsjukll47bk43i3urmq4u2f".toList, by decide +kernel, by decide +kernel⟩

theorem wildNsec3Ring : IsNsec3Ring [hashWild, hashRoot] [wildNsec₁, wildNsec₂] := by
  obtain ⟨hwild, hroot⟩ := wildOwner_texts
  exact List.Forall₂.cons ⟨hwild, _, rfl, rfl⟩
    (List.Forall₂.cons ⟨hroot, _, rfl, rfl⟩ List.Forall₂.nil)

theorem apexNsec3Ring : IsNsec3Ring [hashRoot] [apexNsec3] := by
  obtain ⟨_, hroot⟩ := wildOwner_texts
  exact List.Forall₂.cons ⟨hroot, _, rfl, rfl⟩ List.Forall₂.nil

/-- on two records the apex is matched and covered by its own; on one record nothing but the apex
is settled -/
theorem wildRing_both :
    IsNsec3Ring [hashWild, hashRoot] [wildNsec₁, wildNsec₂] ∧ hashWild < hashRoot ∧
      nsec3OwnerHash wildNsec₂ = some hashRoot ∧ nsec3Covers wildNsec₂ hashRoot = true ∧
      IsNsec3Ring [hashRoot] [apexNsec3] ∧
      [apexNsec3].countP (fun r =>
        decide (nsec3OwnerHash r = some hashWild) || nsec3Covers r hashWild) = 0 :=
  ⟨wildNsec3Ring, by decide +kernel, by decide +kernel, by decide +kernel, apexNsec3Ring,
    by decide +kernel⟩

/-- a hash between the two is settled by one record -/
theorem nsec3Ring_partition_sub :
    [wildNsec₁, wildNsec₂].countP (fun r =>
      decide (nsec3OwnerHash r = some hashSub) || nsec3Covers r hashSub) = 1 :=
  ((nsec3Ring_partition (List.cons_ne_nil hashWild [hashRoot]) (by decide +kernel)
    (by decide +kernel) wildNsec3Ring hashSub).mpr (by decide +kernel)).1

end DnsResolver
