import DnsResolver.Dnssec.Negative

/-!
# What a denial proof consists of

The pure verdicts `nsecDenial` and `nsec3Denial`, read backwards from `Secure`.

* `climb_deepest`       the closest encloser found is the deepest name the test accepts;
* `climb_above`         it is spelled as in the name;
* `nsecDenial_secure`   a matching record without the type, or a closest encloser, a record that
                        covers the name and a record that settles the wildcard;
* `nsec3Denial_secure`  the same for NSEC3 and a type other than DS.
-/

namespace DnsResolver

/-! ## climbing -/

/-- the name found is accepted, and it lies at or below every accepted ancestor -/
theorem climb_deepest {p : Name → Bool} (hp : ∀ a b : Name, a.fold = b.fold → p a = p b)
    {k : Nat} {cur c : Name} (h : climb p k cur = some c) :
    p c = true ∧ c.zoneOf cur = true ∧
      ∀ b : Name, b.zoneOf cur = true → p b = true → b.zoneOf c = true := by
  induction k generalizing cur with
  | zero => exact absurd h (by simp [climb])
  | succ k ih =>
    simp only [climb] at h
    split at h
    · rename_i hcur
      obtain rfl := Option.some.inj h
      exact ⟨hcur, Name.zoneOf_refl _, fun b hb _ => hb⟩
    · rename_i hcur
      split at h
      · exact absurd h (by simp)
      · obtain ⟨hc, hz, hmax⟩ := ih h
        refine ⟨hc, Name.zoneOf_trans hz (Name.zoneOf_baseName cur), fun b hb hpb => ?_⟩
        refine hmax b (Name.zoneOf_baseName_of_ne hb ?_) hpb
        -- an accepted `b` is not `cur`
        cases he : b.nameEq cur with
        | false => rfl
        | true =>
          rw [hp b cur (Name.nameEq_iff.mp he)] at hpb
          exact absurd hpb hcur

theorem climb_above {p : Name → Bool} {k : Nat} {cur c : Name} (h : climb p k cur = some c) :
    c.Above cur := by
  induction k generalizing cur with
  | zero => exact absurd h (by simp [climb])
  | succ k ih =>
    simp only [climb] at h
    split at h
    · exact Option.some.inj h ▸ Name.Above.refl _
    · split at h
      · exact absurd h (by simp)
      · exact (ih h).of_baseName

/-- the name found is one of the first `k` -/
theorem climb_within {p : Name → Bool} {k : Nat} {cur c : Name} (h : climb p k cur = some c) :
    cur.labels.length < c.labels.length + k := by
  induction k generalizing cur with
  | zero => exact absurd h (by simp [climb])
  | succ k ih =>
    simp only [climb] at h
    split at h
    · obtain rfl := Option.some.inj h
      omega
    · split at h
      · exact absurd h (by simp)
      · have hlen := ih h
        simp only [Name.baseName, List.length_tail] at hlen
        omega

/-- an accepted ancestor among the first `k` is enough -/
theorem climb_finds {p : Name → Bool} (hp : ∀ a b : Name, a.fold = b.fold → p a = p b) {k : Nat}
    {cur c : Name} (hc : p c = true) (hz : c.zoneOf cur = true)
    (hlen : cur.labels.length < c.labels.length + k) : ∃ c', climb p k cur = some c' := by
  induction k generalizing cur with
  | zero =>
    have hle := (Name.zoneOf_iff.mp hz).length_le
    rw [Name.length_fold, Name.length_fold] at hle
    omega
  | succ k ih =>
    unfold climb
    by_cases hcur : p cur = true
    · exact ⟨cur, if_pos hcur⟩
    · have hne : c.nameEq cur = false := by
        rw [Name.nameEq_eq_false]
        intro he
        rw [hp c cur he] at hc
        exact hcur hc
      have hroot : ¬ cur.isRoot = true := by
        intro hr
        have hnil := Name.isRoot_iff.mp hr
        have hsuf := Name.zoneOf_iff.mp hz
        rw [hnil, List.suffix_nil] at hsuf
        exact Name.nameEq_eq_false.mp hne (hsuf.trans hnil.symm)
      rw [if_neg hcur, if_neg hroot]
      refine ih (Name.zoneOf_baseName_of_ne hz hne) ?_
      have hpos : cur.labels ≠ [] := fun hnil => hroot (List.isEmpty_iff.mpr hnil)
      have hlt := List.length_pos_of_ne_nil hpos
      simp only [Name.baseName, List.length_tail]
      omega

/-! ## type bitmaps -/

section
variable {qtype : RecordType} {types : List RecordType}

theorem lacks_iff : lacks qtype types = true ↔ qtype ∉ types ∧ RecordType.CNAME ∉ types := by
  simp only [lacks, Bool.and_eq_true, Bool.not_eq_true', decide_eq_false_iff_not]

theorem nodataVerdict_secure (h : nodataVerdict qtype types = some .Secure) :
    lacks qtype types = true := by
  simp only [nodataVerdict] at h
  split at h
  · exact absurd h (by decide)
  · split at h
    · rename_i hl
      exact hl
    · exact absurd h (by simp)

end

/-! ## NSEC -/

section
variable {tx : Presentation} {qname : Name} {qtype : RecordType} {records : List Record}

/-- some record of `records` owns the name -/
def nsecListed (records : List Record) (n : Name) : Bool := records.any fun r => r.name.nameEq n

theorem nsecListed_iff {n : Name} :
    nsecListed records n = true ↔ ∃ r ∈ records, r.name.nameEq n = true := by
  simp only [nsecListed, List.any_eq_true]

theorem nsecListed_congr (a b : Name) (h : a.fold = b.fold) :
    nsecListed records a = nsecListed records b := by
  simp only [nsecListed, Name.nameEq, h]

/-- the climb for NSEC starts at the parent; the root is its own parent -/
theorem findNsecClosestEncloser_eq : findNsecClosestEncloser qname records =
    climb (nsecListed records) maxClosestEncloserSteps qname.baseName := by
  have hstart : (if qname.isRoot = true then qname else qname.baseName) = qname.baseName := by
    split
    · rename_i hr
      refine Name.ext ?_
      show qname.labels = qname.labels.tail
      rw [List.isEmpty_iff.mp hr]
      rfl
    · rfl
  rw [findNsecClosestEncloser, hstart]
  rfl

theorem findNsecClosestEncloser_some {c : Name}
    (h : findNsecClosestEncloser qname records = some c) :
    nsecListed records c = true ∧ c.zoneOf qname.baseName = true ∧
      ∀ b : Name, b.zoneOf qname.baseName = true → nsecListed records b = true →
        b.zoneOf c = true := by
  rw [findNsecClosestEncloser_eq] at h
  exact climb_deepest nsecListed_congr h

theorem findNsecClosestEncloser_above {c : Name}
    (h : findNsecClosestEncloser qname records = some c) : c.Above qname := by
  rw [findNsecClosestEncloser_eq] at h
  exact (climb_above h).of_baseName

theorem nsecCovered_iff {target : Name} : nsecCovered records target = true ↔
    ∃ r ∈ records, ∃ n, r.data = .nsec n ∧ nsecCovers r.name n.nextDomainName target = true := by
  simp only [nsecCovered, List.any_eq_true]
  constructor
  · rintro ⟨r, hr, h⟩
    cases hd : r.data <;> simp only [hd] at h
    case nsec n => exact ⟨r, hr, n, hd, h⟩
    all_goals exact absurd h (by decide)
  · rintro ⟨r, hr, n, hd, h⟩
    exact ⟨r, hr, by simp only [hd]; exact h⟩

theorem checkNsecNodata_some {status : DnssecStatus}
    (h : checkNsecNodata qname qtype records = some status) :
    ∃ r ∈ records, r.name.nameEq qname = true ∧ ∃ n, r.data = .nsec n ∧
      nodataVerdict qtype n.typeBitMaps = some status := by
  obtain ⟨r, hr, hs⟩ := List.exists_of_findSome?_eq_some h
  split at hs
  · rename_i hn
    cases hd : r.data <;> simp only [hd] at hs
    case nsec n => exact ⟨r, hr, hn, n, hd, hs⟩
    all_goals exact absurd hs (by simp)
  · exact absurd hs (by simp)

theorem checkNsecNodata_none (h : checkNsecNodata qname qtype records = none) :
    ∀ r ∈ records, r.name.nameEq qname = true → ∀ n, r.data = .nsec n →
      nodataVerdict qtype n.typeBitMaps = none := by
  intro r hr hn n hd
  have := List.findSome?_eq_none_iff.mp h r hr
  simpa only [hn, if_true, hd] using this

theorem checkNsecWildcardNodata_some {c : Name} {status : DnssecStatus}
    (h : checkNsecWildcardNodata tx qname qtype c records = some status) :
    status = .Secure ∧ nsecCovered records qname = true ∧
      ∃ r ∈ records, r.name.nameEq (wildcardName tx c) = true ∧ ∃ n, r.data = .nsec n ∧
        lacks qtype n.typeBitMaps = true := by
  unfold checkNsecWildcardNodata at h
  split at h
  · exact absurd h (by simp)
  · rename_i r hf
    have hr := List.mem_of_find?_eq_some hf
    have hn := List.find?_some hf
    split at h
    · rename_i n hd
      split at h
      · exact absurd h (by simp)
      · rename_i hl
        split at h
        · rename_i hc
          exact ⟨(Option.some.inj h).symm, hc, r, hr, hn, n, hd, by simpa using hl⟩
        · exact absurd h (by simp)
    · exact absurd h (by simp)

theorem checkNsecNxdomain_some {c : Name} {status : DnssecStatus}
    (h : checkNsecNxdomain tx qname c records = some status) :
    status = .Secure ∧ nsecCovered records qname = true ∧
      nsecCovered records (wildcardName tx c) = true := by
  unfold checkNsecNxdomain at h
  split at h
  · exact absurd h (by simp)
  · rename_i h1
    split at h
    · exact absurd h (by simp)
    · rename_i h2
      exact ⟨(Option.some.inj h).symm, by simpa using h1, by simpa using h2⟩

/-- **What a Secure NSEC verdict rests on.** -/
theorem nsecDenial_secure (h : nsecDenial tx qname qtype records = .Secure) :
    checkNsecNodata qname qtype records = some .Secure ∨
      (checkNsecNodata qname qtype records = none ∧ nsecCovered records qname = true ∧
        ∃ c, findNsecClosestEncloser qname records = some c ∧
          (nsecCovered records (wildcardName tx c) = true ∨
            ∃ r ∈ records, r.name.nameEq (wildcardName tx c) = true ∧ ∃ n, r.data = .nsec n ∧
              lacks qtype n.typeBitMaps = true)) := by
  simp only [nsecDenial] at h
  split at h
  · rename_i status hn
    subst h
    exact Or.inl hn
  · rename_i hn
    split at h
    · exact absurd h (by decide)
    · rename_i c hc
      split at h
      · rename_i status hw
        obtain ⟨_, h1, h2⟩ := checkNsecWildcardNodata_some hw
        exact Or.inr ⟨hn, h1, c, hc, Or.inr h2⟩
      · split at h
        · rename_i status hx
          obtain ⟨_, h1, h2⟩ := checkNsecNxdomain_some hx
          exact Or.inr ⟨hn, h1, c, hc, Or.inl h2⟩
        · exact absurd h (by decide)

end

/-! ## NSEC3 -/

theorem nsec3Hash_congr (cr : Crypto) (salt : Bytes) (iterations : UInt16) (a b : Name)
    (h : a.fold = b.fold) : nsec3Hash cr salt iterations a = nsec3Hash cr salt iterations b := by
  simp only [nsec3Hash, Name.wireLower, h]

section
variable {H : Name → Bytes} {tx : Presentation} {qname : Name} {qtype : RecordType}
  {records : List Record}

/-- some record of `records` matches the hash of the name -/
def nsec3Listed (H : Name → Bytes) (records : List Record) (n : Name) : Bool :=
  records.any (nsec3Matches (H n))

theorem nsec3Listed_iff {n : Name} :
    nsec3Listed H records n = true ↔ ∃ r ∈ records, nsec3OwnerHash r = some (H n) := by
  simp only [nsec3Listed, List.any_eq_true, nsec3Matches, beq_iff_eq]

theorem nsec3Listed_congr (hH : ∀ a b : Name, a.fold = b.fold → H a = H b) (a b : Name)
    (h : a.fold = b.fold) : nsec3Listed H records a = nsec3Listed H records b := by
  simp only [nsec3Listed, hH a b h]

/-- `c` is the deepest name at or above `qname` that a record matches -/
def Deepest3 (H : Name → Bytes) (qname : Name) (records : List Record) (c : Name) : Prop :=
  c.zoneOf qname = true ∧ nsec3Listed H records c = true ∧
    ∀ b : Name, b.zoneOf qname = true → nsec3Listed H records b = true → b.zoneOf c = true

theorem Deepest3.unique {c c' : Name} (h : Deepest3 H qname records c)
    (h' : Deepest3 H qname records c') : c.fold = c'.fold :=
  Name.nameEq_iff.mp (Name.nameEq_of_zoneOf (h'.2.2 c h.1 h.2.1) (h.2.2 c' h'.1 h'.2.1))

theorem findNsec3_deepest {c : Name} (hH : ∀ a b : Name, a.fold = b.fold → H a = H b)
    (h : findNsec3ClosestProvableEncloser H qname records = some c) :
    Deepest3 H qname records c ∧ c.Above qname := by
  obtain ⟨h1, h2, h3⟩ := climb_deepest (nsec3Listed_congr hH) h
  exact ⟨⟨h2, h1, h3⟩, climb_above h⟩

theorem checkNsec3Nodata_some {status : DnssecStatus}
    (h : checkNsec3Nodata H qname qtype records = some status) :
    ∃ r ∈ records, nsec3OwnerHash r = some (H qname) ∧ ∃ n, r.data = .nsec3 n ∧
      nodataVerdict qtype n.typeBitMaps = some status := by
  obtain ⟨r, hr, hs⟩ := List.exists_of_findSome?_eq_some h
  split at hs
  · rename_i hn
    cases hd : r.data <;> simp only [hd] at hs
    case nsec3 n => exact ⟨r, hr, by simpa [nsec3Matches] using hn, n, hd, hs⟩
    all_goals exact absurd hs (by simp)
  · exact absurd hs (by simp)

theorem checkNsec3Nodata_none (h : checkNsec3Nodata H qname qtype records = none) :
    ∀ r ∈ records, nsec3OwnerHash r = some (H qname) → ∀ n, r.data = .nsec3 n →
      nodataVerdict qtype n.typeBitMaps = none := by
  intro r hr hn n hd
  have := List.findSome?_eq_none_iff.mp h r hr
  simpa only [nsec3Matches, hn, beq_self_eq_true, if_true, hd] using this

theorem nsec3Covers_iff {r : Record} {t : Bytes} : nsec3Covers r t = true ↔
    ∃ o n, nsec3OwnerHash r = some o ∧ r.data = .nsec3 n ∧
      Ring.HalfOpen o n.nextHashedOwnerName t := by
  unfold nsec3Covers
  cases ho : nsec3OwnerHash r with
  | none => simp
  | some o => cases hd : r.data <;> simp

theorem checkNsec3WildcardNodata_some {c : Name} {status : DnssecStatus}
    (h : checkNsec3WildcardNodata H tx c qtype records = some status) :
    status = .Secure ∧ ∃ r ∈ records, nsec3OwnerHash r = some (H (wildcardName tx c)) ∧
      ∃ n, r.data = .nsec3 n ∧ lacks qtype n.typeBitMaps = true := by
  unfold checkNsec3WildcardNodata at h
  split at h
  · exact absurd h (by simp)
  · rename_i r hf
    have hr := List.mem_of_find?_eq_some hf
    have hn := List.find?_some hf
    split at h
    · rename_i n hd
      split at h
      · exact absurd h (by simp)
      · rename_i hl
        exact ⟨(Option.some.inj h).symm, r, hr, by simpa [nsec3Matches] using hn, n, hd,
          by simpa using hl⟩
    · exact absurd h (by simp)

/-- below a proper ancestor there is a next closer name: its child on the way to `cur` -/
theorem nextCloser_spec {c : Name} {k : Nat} {cur : Name} (hz : c.zoneOf cur = true)
    (hne : c.nameEq cur = false) (hk : cur.fold.length < k) :
    ∃ next, nextCloser c k cur = some next ∧ next.zoneOf cur = true ∧
      next.baseName.nameEq c = true ∧ next.nameEq c = false := by
  induction k generalizing cur with
  | zero => omega
  | succ k ih =>
    simp only [nextCloser]
    by_cases hb : cur.baseName.nameEq c = true
    · refine ⟨cur, if_pos hb, Name.zoneOf_refl _, hb, ?_⟩
      cases he : cur.nameEq c with
      | false => rfl
      | true =>
        rw [Name.nameEq_symm he] at hne
        exact absurd hne (by decide)
    · have hz' := Name.zoneOf_baseName_of_ne hz hne
      have hne' : c.nameEq cur.baseName = false := by
        cases he : c.nameEq cur.baseName with
        | false => rfl
        | true => exact absurd (Name.nameEq_symm he) hb
      have hlen : cur.baseName.fold.length < cur.fold.length := by
        rw [Name.fold_baseName, List.length_tail]
        have h1 := (Name.zoneOf_iff.mp hz).length_le
        rcases Nat.eq_zero_or_pos cur.fold.length with h0 | h0
        · have : c.nameEq cur = true := by
            rw [Name.nameEq_iff, List.eq_nil_of_length_eq_zero h0,
              List.eq_nil_of_length_eq_zero (by omega : c.fold.length = 0)]
          exact absurd this (by simp [hne])
        · omega
      have hself : cur.baseName.nameEq cur ≠ true := by
        intro he
        rw [Name.nameEq_iff.mp he] at hlen
        omega
      obtain ⟨next, h1, h2, h3, h4⟩ := ih hz' hne' (by omega)
      refine ⟨next, ?_, Name.zoneOf_trans h2 (Name.zoneOf_baseName cur), h3, h4⟩
      rw [if_neg hb, if_neg hself]
      exact h1

theorem checkNsec3Nxdomain_secure {c : Name}
    (h : checkNsec3Nxdomain H tx qname c records = some .Secure) :
    ∃ next, nextCloser c (qname.labels.length + 1) qname = some next ∧
      (∃ r ∈ records, nsec3Covers r (H next) = true ∧ nsec3OptOut r = false) ∧
      ∃ r ∈ records, nsec3Covers r (H (wildcardName tx c)) = true := by
  unfold checkNsec3Nxdomain at h
  split at h
  · exact absurd h (by decide)
  · rename_i next hnext
    split at h
    · exact absurd h (by simp)
    · rename_i r hf
      split at h
      · exact absurd h (by decide)
      · rename_i hopt
        split at h
        · rename_i hw
          have hcov := List.find?_some hf
          exact ⟨next, hnext, ⟨r, List.mem_of_find?_eq_some hf, hcov, by simpa using hopt⟩,
            List.any_eq_true.mp hw⟩
        · exact absurd h (by decide)

/-- **What a Secure NSEC3 verdict rests on**, for a type other than DS. -/
theorem nsec3Denial_secure (hq : qtype ≠ .DS)
    (h : nsec3Denial H tx qname qtype records = .Secure) :
    checkNsec3Nodata H qname qtype records = some .Secure ∨
      (checkNsec3Nodata H qname qtype records = none ∧
        ∃ c, findNsec3ClosestProvableEncloser H qname records = some c ∧
          c.nameEq qname = false ∧
          (checkNsec3WildcardNodata H tx c qtype records = some .Secure ∨
            (checkNsec3WildcardNodata H tx c qtype records = none ∧
              checkNsec3Nxdomain H tx qname c records = some .Secure))) := by
  simp only [nsec3Denial, hq, if_false] at h
  split at h
  · rename_i status hn
    subst h
    exact Or.inl hn
  · rename_i hn
    cases hc : findNsec3ClosestProvableEncloser H qname records with
    | none =>
      simp only [hc] at h
      exact absurd h (by decide)
    | some c =>
      simp only [hc] at h
      split at h
      · exact absurd h (by decide)
      · rename_i hne
        refine Or.inr ⟨hn, c, rfl, by simpa using hne, ?_⟩
        split at h
        · rename_i status hw
          subst h
          exact Or.inl hw
        · rename_i hw
          split at h
          · rename_i status hx
            subst h
            exact Or.inr ⟨hw, hx⟩
          · exact absurd h (by decide)

end
end DnsResolver
