import DnsResolver.Dnssec.NsecComplete

/-!
# NSEC3 denials that a server sends

For a name that does not exist a server sends the NSEC3 records of RFC 5155 §7.2: the one that
matches the closest encloser, the one that covers the next closer name, and one that covers or
matches the wildcard.  `validate_nsec3` finds the encloser, except in two cases.  The climb stops
after 16 names, and the half-open test of `nsec3_covers` covers nothing if the chain has a single
record, which points to itself.

* `Prescribed3`            what the records of a section are for;
* `Nsec3Section`           a section of chain records that holds just these;
* `Taken`                  the records that pass for a denial below an ancestor;
* `Deniable`               the encloser is at most 15 labels up and the chain has two records;
* `validateNsec3_complete_iff`   the verdict is Secure exactly then, or if the name exists.
-/

namespace DnsResolver
namespace WholeZone

def Plays3 (H : Name → Bytes) (r : Record) : Role → Prop
  | .owns n => nsec3OwnerHash r = some (H n)
  | .covers n => ∃ o d, nsec3OwnerHash r = some o ∧ r.data = .nsec3 d ∧
      Ring.Inside o d.nextHashedOwnerName (H n)

/-- the roles of the records of a denial for `q`; an empty non-terminal is as any other name -/
inductive Prescribed3 (Z : WholeZone) (q : Name) : List Role → Prop
  | nodata : Z.Exists q → Prescribed3 Z q [.owns q]
  | nameError {e next : Name} : ¬ Z.Exists q → Z.IsEncloser q e → NextCloser q e next →
      ¬ Z.Exists e.wildcard →
      Prescribed3 Z q [.owns e, .covers next, .covers e.wildcard]
  | wildcardNodata {e next : Name} : ¬ Z.Exists q → Z.IsEncloser q e → NextCloser q e next →
      Z.Exists e.wildcard →
      Prescribed3 Z q [.owns e, .covers next, .owns e.wildcard]

/-- records of the chain, each in a role, and one for each role -/
structure Nsec3Section {Z : WholeZone} {H : Name → Bytes} (C : Nsec3Chain Z.toZone H)
    (salt : Bytes) (iterations : UInt16) (q : Name) (roles : List Role) (records : List Record) :
    Prop where
  chain : ∀ r ∈ records, C.IsNsec3 salt iterations r
  noOptOut : ∀ r ∈ records, nsec3OptOut r = false
  prescribed : Prescribed3 Z q roles
  needed : ∀ r ∈ records, ∃ role ∈ roles, Plays3 H r role
  filled : ∀ role ∈ roles, ∃ r ∈ records, Plays3 H r role

/-- a record at what `wildcard_name` makes of `c` lacks the type; or one covers `next` and one is at
that wildcard or covers it, in a chain of two records -/
def Taken (C : Nsec3Ring) (H : Name → Bytes) (tx : Presentation) (records : List Record)
    (c next : Name) (t : RecordType) : Prop :=
  (∃ r ∈ records, Plays3 H r (.owns (wildcardName tx c)) ∧
      ∃ d, r.data = .nsec3 d ∧ lacks t d.typeBitMaps = true) ∨
    2 ≤ C.nodes.length ∧ (∃ r ∈ records, Plays3 H r (.covers next)) ∧
      ∃ r ∈ records, Plays3 H r (.owns (wildcardName tx c)) ∨
        Plays3 H r (.covers (wildcardName tx c))

/-- the longest existing ancestor, at most 15 labels up -/
def NearEncloser (Z : WholeZone) (q e : Name) : Prop :=
  e.Above q ∧ Z.IsEncloser q e ∧ q.labels.length ≤ e.labels.length + 15

/-- the encloser is near, and the chain has two records or, if `wildcard_name` gives another name
than the wildcard, what is sent passes for a denial of that; for DS the parent is tried as a last
resort -/
def Deniable {Z : WholeZone} {H : Name → Bytes} (C : Nsec3Chain Z.toZone H) (tx : Presentation)
    (q : Name) (t : RecordType) (records : List Record) : Prop :=
  (∃ e next, NearEncloser Z q e ∧ NextCloser q e next ∧
      (if (wildcardName tx e).nameEq e.wildcard then 2 ≤ C.nodes.length
        else Taken C.toNsec3Ring H tx records e next t)) ∨
    (t = .DS ∧ (¬ ∃ e, NearEncloser Z q e) ∧
      Taken C.toNsec3Ring H tx records q.baseName q t)

/-! ## the checks on a section -/

section
variable {Z : WholeZone} {H : Name → Bytes} {C : Nsec3Chain Z.toZone H} {salt : Bytes}
  {iterations : UInt16} {tx : Presentation} {q c e next : Name} {t : RecordType}
  {records : List Record}

theorem checkNsec3Nodata_none (hcol : NoCollision Z.toZone H q)
    (hchain : ∀ r ∈ records, C.IsNsec3 salt iterations r) (hex : ¬ Z.Exists q) :
    checkNsec3Nodata H q t records = none := by
  refine List.findSome?_eq_none_iff.mpr fun r hr => if_neg fun hm => hex ?_
  have ho : nsec3OwnerHash r = some (H q) := beq_iff_eq.mp hm
  exact (Nsec3Chain.types_of_owner (hchain r hr) hcol (hashed_above (Name.zoneOf_refl q)) ho).1

/-- one record at the wildcard without the type, and all have the same types -/
theorem checkNsec3WildcardNodata_iff (hchain : ∀ r ∈ records, C.IsNsec3 salt iterations r) :
    checkNsec3WildcardNodata H tx c t records = some .Secure ↔
      ∃ r ∈ records, Plays3 H r (.owns (wildcardName tx c)) ∧
        ∃ d, r.data = .nsec3 d ∧ lacks t d.typeBitMaps = true := by
  constructor
  · intro h
    obtain ⟨_, r, hr, ho, d, hd, hl⟩ := checkNsec3WildcardNodata_some h
    exact ⟨r, hr, ho, d, hd, hl⟩
  · rintro ⟨r, hr, ho, d, hd, hl⟩
    obtain ⟨w, hfind⟩ : ∃ w, records.find? (nsec3Matches (H (wildcardName tx c))) = some w :=
      Option.isSome_iff_exists.mp (List.find?_isSome.mpr ⟨r, hr, beq_iff_eq.mpr ho⟩)
    have hw := hchain w (List.mem_of_find?_eq_some hfind)
    have hm : nsec3Matches (H (wildcardName tx c)) w = true := List.find?_some hfind
    have how : nsec3OwnerHash w = nsec3OwnerHash r := (beq_iff_eq.mp hm).trans ho.symm
    obtain ⟨d', hd', _⟩ := hw.data
    have hsame := hw.same_types (hchain r hr) how hd' hd
    have hl' : lacks t d'.typeBitMaps = true := by
      rw [DnsResolver.lacks_iff] at hl ⊢
      rwa [hsame, hsame]
    simp only [checkNsec3WildcardNodata, hfind, hd', hl', Bool.not_true, Bool.false_eq_true,
      if_false]

/-- the proof of a name error below `c`, if the next closer name does not exist -/
theorem checkNsec3Nxdomain_secure_iff (hH : ∀ a b : Name, a.fold = b.fold → H a = H b)
    (hcol : NoCollision Z.toZone H q) (hchain : ∀ r ∈ records, C.IsNsec3 salt iterations r)
    (hopt : ∀ r ∈ records, nsec3OptOut r = false) (hz : c.zoneOf q = true)
    (hne : c.nameEq q = false) (hnext : NextCloser q c next) (hex : ¬ Z.Exists next) :
    checkNsec3Nxdomain H tx q c records = some .Secure ↔ 2 ≤ C.nodes.length ∧
      (∃ r ∈ records, Plays3 H r (.covers next)) ∧
        ∃ r ∈ records, Plays3 H r (.owns (wildcardName tx c)) ∨
          Plays3 H r (.covers (wildcardName tx c)) := by
  obtain ⟨next', hloop, hnext'⟩ := nextCloser_eq hz hne
  have hhash : H next' = H next := hH _ _ (hnext'.unique hnext)
  have hcov : ∀ r ∈ records, nsec3Covers r (H next') = true ↔
      2 ≤ C.nodes.length ∧ Plays3 H r (.covers next) := by
    intro r hr
    have hnot : nsec3OwnerHash r ≠ some (H next) := fun ho =>
      hex (Nsec3Chain.types_of_owner (hchain r hr) hcol (hashed_above hnext.1) ho).1
    rw [hhash, (hchain r hr).covers_iff, or_iff_right hnot]
    rfl
  have hcovw : ∀ r ∈ records, nsec3Covers r (H (wildcardName tx c)) = true ↔
      2 ≤ C.nodes.length ∧ (Plays3 H r (.owns (wildcardName tx c)) ∨
        Plays3 H r (.covers (wildcardName tx c))) := fun r hr => (hchain r hr).covers_iff
  constructor
  · intro h
    obtain ⟨n, hn, ⟨r, hr, hc, _⟩, w, hw, hcw⟩ := checkNsec3Nxdomain_secure h
    obtain rfl := Option.some.inj (hloop.symm.trans hn)
    obtain ⟨htwo, hp⟩ := (hcov r hr).mp hc
    exact ⟨htwo, ⟨r, hr, hp⟩, w, hw, ((hcovw w hw).mp hcw).2⟩
  · rintro ⟨htwo, ⟨r, hr, hp⟩, w, hw, hpw⟩
    obtain ⟨r', hfind⟩ : ∃ r', records.find? (fun r => nsec3Covers r (H next')) = some r' :=
      Option.isSome_iff_exists.mp (List.find?_isSome.mpr ⟨r, hr, (hcov r hr).mpr ⟨htwo, hp⟩⟩)
    have hopt' := hopt r' (List.mem_of_find?_eq_some hfind)
    have hany : (records.any fun r => nsec3Covers r (H (wildcardName tx c))) = true :=
      List.any_eq_true.mpr ⟨w, hw, (hcovw w hw).mpr ⟨htwo, hpw⟩⟩
    simp only [checkNsec3Nxdomain, hloop, hfind, hopt', hany, Bool.false_eq_true, if_false, if_true]

theorem nsec3Denial_below (hH : ∀ a b : Name, a.fold = b.fold → H a = H b)
    (hcol : NoCollision Z.toZone H q) (hchain : ∀ r ∈ records, C.IsNsec3 salt iterations r)
    (hopt : ∀ r ∈ records, nsec3OptOut r = false) (hq : ¬ Z.Exists q)
    (hclosest : findNsec3ClosestProvableEncloser H q records = some c ∨
      findNsec3ClosestProvableEncloser H q records = none ∧ t = .DS ∧ c = q.baseName)
    (hz : c.zoneOf q = true) (hne : c.nameEq q = false) (hnext : NextCloser q c next)
    (hex : ¬ Z.Exists next) :
    nsec3Denial H tx q t records = .Secure ↔ Taken C.toNsec3Ring H tx records c next t := by
  have hnodata : checkNsec3Nodata H q t records = none := checkNsec3Nodata_none hcol hchain hq
  have hrun : nsec3Denial H tx q t records =
      ((checkNsec3WildcardNodata H tx c t records).or
        (checkNsec3Nxdomain H tx q c records)).getD .Bogus := by
    rcases hclosest with h | ⟨h, rfl, rfl⟩
    · simp only [nsec3Denial, hnodata, h, hne, Bool.false_eq_true, if_false]
      cases checkNsec3WildcardNodata H tx c t records with
      | some status => rfl
      | none => cases checkNsec3Nxdomain H tx q c records <;> rfl
    · simp only [nsec3Denial, hnodata, h, hne, Bool.false_eq_true, if_false, if_true]
      cases checkNsec3WildcardNodata H tx q.baseName .DS records with
      | some status => rfl
      | none => cases checkNsec3Nxdomain H tx q q.baseName records <;> rfl
  have hw : checkNsec3WildcardNodata H tx c t records = some .Secure ↔ _ :=
    checkNsec3WildcardNodata_iff hchain
  rw [hrun, Taken, ← hw, ← checkNsec3Nxdomain_secure_iff hH hcol hchain hopt hz hne hnext hex]
  cases hstep : checkNsec3WildcardNodata H tx c t records with
  | some status =>
    obtain rfl := (checkNsec3WildcardNodata_some hstep).1
    exact ⟨fun _ => Or.inl rfl, fun _ => rfl⟩
  | none =>
    rw [Option.none_or]
    cases checkNsec3Nxdomain H tx q c records with
    | none => simp
    | some status => simp

end

/-! ## the verdict on a section -/

section
variable {Z : WholeZone} {H : Name → Bytes} {C : Nsec3Chain Z.toZone H} {salt : Bytes}
  {iterations : UInt16} {tx : Presentation} {q c e next : Name} {t : RecordType}
  {roles : List Role} {records : List Record}

theorem Nsec3Section.denial_exists (hs : Nsec3Section C salt iterations q roles records)
    (hcol : NoCollision Z.toZone H q) (hq : Z.Exists q) (hno : ¬ Z.Answers q t) :
    nsec3Denial H tx q t records = .Secure ↔ ¬ (t = .DS ∧ q.nameEq Z.apex = true) := by
  have hroles : roles = [.owns q] := by
    cases hs.prescribed with
    | nodata => rfl
    | nameError h => exact absurd hq h
    | wildcardNodata h => exact absurd hq h
  subst hroles
  cases records with
  | nil =>
    obtain ⟨r, hr, _⟩ := hs.filled _ List.mem_cons_self
    exact absurd hr List.not_mem_nil
  | cons r rest =>
    obtain ⟨role, hrole, hplays⟩ := hs.needed r List.mem_cons_self
    obtain rfl := List.mem_singleton.mp hrole
    obtain ⟨_, d, hd, htypes⟩ := Nsec3Chain.types_of_owner (hs.chain r List.mem_cons_self) hcol
      (hashed_above (Name.zoneOf_refl q)) hplays
    have hmatch : nsec3Matches (H q) r = true := beq_iff_eq.mpr hplays
    have hnodata : checkNsec3Nodata H q t (r :: rest) =
        some (if t = .DS ∧ q.nameEq Z.apex = true then .Bogus else .Secure) := by
      rw [checkNsec3Nodata, List.findSome?_cons]
      simp only [hmatch, if_true, hd, nodataVerdict_eq hno htypes]
    simp only [nsec3Denial, hnodata]
    exact secure_unless_iff

theorem Nsec3Section.sent (hs : Nsec3Section C salt iterations q roles records)
    (hq : ¬ Z.Exists q) : ∃ e next, Z.IsEncloser q e ∧ NextCloser q e next ∧
      (∃ r ∈ records, Plays3 H r (.owns e)) ∧ (∃ r ∈ records, Plays3 H r (.covers next)) ∧
      (Z.Exists e.wildcard → ∃ r ∈ records, Plays3 H r (.owns e.wildcard)) ∧
      (¬ Z.Exists e.wildcard → ∃ r ∈ records, Plays3 H r (.covers e.wildcard)) := by
  obtain ⟨_, _, hpre, _, hfilled⟩ := hs
  cases hpre with
  | nodata h => exact absurd h hq
  | @nameError e next _ henc hnext hwild =>
    exact ⟨e, next, henc, hnext, hfilled _ (by simp), hfilled _ (by simp),
      fun h => absurd h hwild, fun _ => hfilled _ (by simp)⟩
  | @wildcardNodata e next _ henc hnext hwild =>
    exact ⟨e, next, henc, hnext, hfilled _ (by simp), hfilled _ (by simp),
      fun _ => hfilled _ (by simp), fun h => absurd hwild h⟩

theorem findNsec3_encloser (hH : ∀ a b : Name, a.fold = b.fold → H a = H b)
    (hcol : NoCollision Z.toZone H q) (hchain : ∀ r ∈ records, C.IsNsec3 salt iterations r)
    (henc : Z.IsEncloser q e) (hsent : ∃ r ∈ records, Plays3 H r (.owns e)) :
    (∃ c, findNsec3ClosestProvableEncloser H q records = some c ∧ NearEncloser Z q c) ∨
      (findNsec3ClosestProvableEncloser H q records = none ∧
        e.labels.length + 16 ≤ q.labels.length) := by
  have hlisted : nsec3Listed H records e = true := nsec3Listed_iff.mpr hsent
  cases hfind : findNsec3ClosestProvableEncloser H q records with
  | none =>
    refine Or.inr ⟨rfl, ?_⟩
    by_contra hlt
    obtain ⟨c, hc⟩ := climb_finds (nsec3Listed_congr hH) hlisted henc.1
      (show q.labels.length < e.labels.length + maxClosestEncloserSteps by
        rw [maxClosestEncloserSteps]; omega)
    exact absurd (hfind.symm.trans hc) (by simp)
  | some c =>
    obtain ⟨⟨hz, hl, hmax⟩, habove⟩ := findNsec3_deepest hH hfind
    have hex := Nsec3Chain.exists_of_listed hcol hchain (hashed_above hz) hl
    have hfold : c.fold = e.fold :=
      Name.nameEq_iff.mp (Name.nameEq_of_zoneOf (henc.2.2 c hz hex) (hmax e henc.1 hlisted))
    have hwithin := climb_within hfind
    rw [maxClosestEncloserSteps] at hwithin
    exact Or.inl ⟨c, rfl, habove, henc.congr hfold.symm, by omega⟩

theorem two_le_nodes (C : Nsec3Chain Z.toZone H) {a b : Name} (ha : Z.Exists a) (hb : Z.Exists b)
    (hne : H a ≠ H b) : 2 ≤ C.nodes.length := by
  obtain ⟨nd, hm, hh⟩ := (C.mem _).mpr ⟨a, ha, rfl⟩
  obtain ⟨nd', hm', hh'⟩ := (C.mem _).mpr ⟨b, hb, rfl⟩
  generalize C.nodes = l at hm hm'
  match l with
  | [] => exact absurd hm List.not_mem_nil
  | [x] =>
    obtain rfl := (List.mem_singleton.mp hm).trans (List.mem_singleton.mp hm').symm
    exact absurd (hh.symm.trans hh') hne
  | _ :: _ :: _ => simp

/-- if the wildcard is what its text is parsed as, the records sent pass in a chain of two -/
theorem Nsec3Section.taken_iff (hs : Nsec3Section C salt iterations q roles records)
    (hH : ∀ a b : Name, a.fold = b.fold → H a = H b) (hcol : NoCollision Z.toZone H q)
    (hq : ¬ Z.Exists q) (hno : Z.NoAnswer q t) (henc : Z.IsEncloser q c)
    (hnext : NextCloser q c next) (hparsed : (wildcardName tx c).nameEq c.wildcard = true) :
    Taken C.toNsec3Ring H tx records c next t ↔ 2 ≤ C.nodes.length := by
  have hne := henc.ne hq
  have hwild : Hashed Z.toZone q c.wildcard := hashed_wildcard henc.1 hne
  have hhash : H (wildcardName tx c) = H c.wildcard := hH _ _ (Name.nameEq_iff.mp hparsed)
  simp only [Taken, Plays3, hhash]
  constructor
  · rintro (⟨r, hr, ho, _⟩ | ⟨htwo, _⟩)
    · -- the encloser and its wildcard are two names of the chain
      have hw := (Nsec3Chain.types_of_owner (hs.chain r hr) hcol hwild ho).1
      refine two_le_nodes C henc.2.1 hw fun h => ?_
      have hlen := congrArg List.length (hcol _ _ (Or.inl henc.2.1) (Or.inl hw) h)
      rw [Name.fold_wildcard henc.1 hne, List.length_cons] at hlen
      omega
    · exact htwo
  · intro htwo
    obtain ⟨e', next', henc', hnext', _, hcov, hown, hcovw⟩ := hs.sent hq
    have hfold := henc'.unique henc
    have hwild' : H e'.wildcard = H c.wildcard := hH _ _ (Name.fold_wildcard_congr hfold)
    have hnext'' : H next' = H next := hH _ _ ((hnext'.congr hfold).unique hnext)
    have hexists : Z.Exists e'.wildcard ↔ Z.Exists c.wildcard :=
      Zone.exists_congr (Name.fold_wildcard_congr hfold)
    simp only [Plays3, hwild', hnext''] at hcov hown hcovw
    by_cases hw : Z.Exists c.wildcard
    · obtain ⟨r, hr, ho⟩ := hown (hexists.mpr hw)
      obtain ⟨_, d, hd, _⟩ := Nsec3Chain.types_of_owner (hs.chain r hr) hcol hwild ho
      have hl := (Nsec3Chain.lacks_iff (hs.chain r hr) hcol hwild ho hd).mpr (hno.2 hq c henc)
      exact Or.inl ⟨r, hr, ho, d, hd, hl⟩
    · obtain ⟨r, hr, hc⟩ := hcovw fun h => hw (hexists.mp h)
      exact Or.inr ⟨htwo, hcov, r, hr, Or.inr hc⟩

theorem Nsec3Section.denial_near (hs : Nsec3Section C salt iterations q roles records)
    (hH : ∀ a b : Name, a.fold = b.fold → H a = H b) (hcol : NoCollision Z.toZone H q)
    (hq : ¬ Z.Exists q) (henc : Z.IsEncloser q c) (hnext : NextCloser q c next)
    (hfind : findNsec3ClosestProvableEncloser H q records = some c) :
    nsec3Denial H tx q t records = .Secure ↔ Taken C.toNsec3Ring H tx records c next t :=
  nsec3Denial_below hH hcol hs.chain hs.noOptOut hq (Or.inl hfind) henc.1 (henc.ne hq) hnext
    (henc.next_not_exists hnext)

/-- the encloser is too far up: for DS the parent is tried in its place -/
theorem Nsec3Section.denial_far (hs : Nsec3Section C salt iterations q roles records)
    (hH : ∀ a b : Name, a.fold = b.fold → H a = H b) (hcol : NoCollision Z.toZone H q)
    (hq : ¬ Z.Exists q) (hfar : e.labels.length + 16 ≤ q.labels.length)
    (hfind : findNsec3ClosestProvableEncloser H q records = none) :
    nsec3Denial H tx q t records = .Secure ↔
      t = .DS ∧ Taken C.toNsec3Ring H tx records q.baseName q t := by
  by_cases hds : t = .DS
  · have hne : q.baseName.nameEq q = false := by
      rw [Name.nameEq_eq_false]
      intro he
      have hle := congrArg List.length he
      rw [Name.length_fold, Name.length_fold, Name.baseName, List.length_tail] at hle
      omega
    have hnext : NextCloser q q.baseName q := by
      refine ⟨Name.zoneOf_refl q, Name.nameEq_refl _, ?_⟩
      rw [Name.nameEq_eq_false] at hne ⊢
      exact fun he => hne he.symm
    rw [nsec3Denial_below hH hcol hs.chain hs.noOptOut hq (Or.inr ⟨hfind, hds, rfl⟩)
      (Name.zoneOf_baseName q) hne hnext hq]
    exact ⟨fun h => ⟨hds, h⟩, fun h => h.2⟩
  · have hnodata : checkNsec3Nodata H q t records = none := checkNsec3Nodata_none hcol hs.chain hq
    have hbogus : nsec3Denial H tx q t records = .Bogus := by
      simp only [nsec3Denial, hnodata, hfind, hds, if_false]
    rw [hbogus]
    exact ⟨fun h => absurd h (by decide), fun h => absurd h.1 hds⟩

theorem Nsec3Section.denial_iff (hs : Nsec3Section C salt iterations q roles records)
    (hH : ∀ a b : Name, a.fold = b.fold → H a = H b) (hcol : NoCollision Z.toZone H q)
    (hq : ¬ Z.Exists q) (hno : Z.NoAnswer q t) :
    nsec3Denial H tx q t records = .Secure ↔ Deniable C tx q t records := by
  obtain ⟨e, _, henc, _, hsent, _⟩ := hs.sent hq
  rcases findNsec3_encloser hH hcol hs.chain henc hsent with ⟨c, hfind, hnear⟩ | ⟨hfind, hfar⟩
  · -- the encloser found is the only one in the spelling of the name
    have ⟨habove, hencl, _⟩ := hnear
    obtain ⟨next, _, hnext⟩ := nextCloser_eq hencl.1 (hencl.ne hq)
    have hdenial : nsec3Denial H tx q t records = .Secure ↔
        if (wildcardName tx c).nameEq c.wildcard then 2 ≤ C.nodes.length
          else Taken C.toNsec3Ring H tx records c next t := by
      rw [hs.denial_near hH hcol hq hencl hnext hfind]
      split
      · rename_i hparsed
        exact hs.taken_iff hH hcol hq hno hencl hnext hparsed
      · exact Iff.rfl
    constructor
    · exact fun h => Or.inl ⟨c, next, hnear, hnext, hdenial.mp h⟩
    · rintro (⟨e', next', ⟨habove', hencl', _⟩, hnext', hcond⟩ | ⟨_, hfar, _⟩)
      · obtain rfl := habove'.eq_of_fold habove (hencl'.unique hencl)
        have hsame : H next' = H next := hH _ _ (hnext'.unique hnext)
        simp only [Taken, Plays3, hsame] at hcond
        simp only [Taken, Plays3] at hdenial
        exact hdenial.mpr hcond
      · exact absurd ⟨c, hnear⟩ hfar
  · rw [hs.denial_far hH hcol hq hfar hfind]
    have hnone : ¬ ∃ e, NearEncloser Z q e := by
      rintro ⟨e', _, henc', hnear⟩
      have hle := henc.length_le henc'.1 henc'.2.1
      omega
    constructor
    · rintro ⟨hds, htaken⟩
      exact Or.inr ⟨hds, hnone, htaken⟩
    · rintro (⟨e', _, hnear, _⟩ | ⟨hds, _, htaken⟩)
      · exact absurd ⟨e', hnear⟩ hnone
      · exact ⟨hds, htaken⟩

end
end WholeZone

def nsec3Records (authority : List Record) : List Record :=
  authority.filter fun r => decide (r.recordType = .NSEC3)

theorem denialRecords_nsec3 {authority : List Record}
    (h : (nsec3Records authority).length ≤ maxNegativeRecords) :
    denialRecords .NSEC3 authority = nsec3Records authority := List.take_of_length_le h

open WholeZone in
/-- **The denials of a server are taken exactly if the name exists, or if the closest encloser is at
most 15 labels up and the chain has two records**, provided that `wildcard_name` gives its wildcard;
`Deniable` has the other cases.  The DS of the apex is the parent's and never denied by the zone. -/
theorem validateNsec3_complete_iff (Z : WholeZone) {env : Env} {keys : List Dnskey} {q : Name}
    {t : RecordType} {authority : List Record} {st : State} {roles : List Role} {salt : Bytes}
    {iterations : UInt16} (C : Nsec3Chain Z.toZone (nsec3Hash env.crypto salt iterations))
    (hcol : NoCollision Z.toZone (nsec3Hash env.crypto salt iterations) q)
    (hlimit : iterations ≤ maxNsec3Iterations) (hno : Z.NoAnswer q t)
    (hs : Nsec3Section C salt iterations q roles (nsec3Records authority))
    (hfew : (nsec3Records authority).length ≤ maxNegativeRecords)
    (hgen : ∀ r ∈ nsec3Records authority, GenuinelySigned env keys authority r)
    (hbudget : checksFor (nsec3Records authority).length authority keys ≤ checksLeft st) :
    (validateNsec3 env keys q t authority st).1 = .Secure ↔
      (Z.Exists q ∧ ¬ (t = .DS ∧ q.nameEq Z.apex = true)) ∨
        (¬ Z.Exists q ∧ Deniable C env.text q t (nsec3Records authority)) := by
  have hne : nsec3Records authority ≠ [] := by
    intro hnil
    obtain ⟨role, hrole⟩ : ∃ role, role ∈ roles := by
      cases hs.prescribed <;> exact ⟨_, List.mem_cons_self⟩
    obtain ⟨r, hr, _⟩ := hs.filled role hrole
    rw [hnil] at hr
    exact absurd hr List.not_mem_nil
  have hparams : HashParams (nsec3Records authority) salt iterations := by
    refine ⟨fun r hr => ?_, hlimit⟩
    exact (hs.chain r hr).data
  have hrun : (validateNsec3 env keys q t authority st).1 =
      nsec3Denial (nsec3Hash env.crypto salt iterations) env.text q t (nsec3Records authority) := by
    rw [← denialRecords_nsec3 hfew] at hne hgen hbudget hparams ⊢
    exact validateNsec3_genuine hparams hne hgen hbudget
  have hH := nsec3Hash_congr env.crypto salt iterations
  rw [hrun]
  by_cases hq : Z.Exists q
  · simp only [hs.denial_exists hcol hq hno.1, hq, true_and, not_true_eq_false, false_and, or_false]
  · simp only [hs.denial_iff hH hcol hq hno, hq, false_and, false_or, not_false_eq_true, true_and]

/-! ## the root with a wildcard, and without -/

def wildWhole : WholeZone where
  toSignedZone := wildZone
  soa := by decide

def loneZone : WholeZone where
  apex := .root
  nodes := [wildApexNode]
  sorted := by decide
  apex_mem := by decide
  below := by decide
  noDelegation := by decide
  soa := by decide

/-- the record of the apex points to itself -/
def loneNsec3 : Record := rootNsec3 apexOwner hashRoot [.NS, .SOA, .RRSIG, .DNSKEY]

def loneAuthority : List Record := [loneNsec3, rootRrsig apexOwner .NSEC3 .IN]

def loneEnv : Env where
  crypto := { signedOnly [buildTbsManual (rootRrsig apexOwner .NSEC3 .IN) [loneNsec3]] with
    sha1 := sha1Table }
  text := plainText
  nowSecs := fun _ => 1000
  resolve := fun _ _ _ => .error .AllNameserversFailed

theorem loneZone_exists {n : Name} : loneZone.Exists n ↔ n.fold = [] := by
  constructor
  · rintro ⟨_, nd, hm, hz⟩
    obtain rfl := List.mem_singleton.mp hm
    exact List.suffix_nil.mp (Name.zoneOf_iff.mp hz)
  · intro h
    exact ⟨Name.root_zoneOf n, wildApexNode, List.mem_cons_self,
      Name.zoneOf_of_nameEq (Name.nameEq_iff.mpr h)⟩

theorem loneHash {n : Name} (h : loneZone.Exists n) :
    nsec3Hash loneEnv.crypto [] 0 n = hashRoot := by
  have hroot : nsec3Hash loneEnv.crypto [] 0 .root = hashRoot := by decide +kernel
  rw [nsec3Hash_congr loneEnv.crypto [] 0 n .root (loneZone_exists.mp h), hroot]

def loneChain : Nsec3Chain loneZone.toZone (nsec3Hash loneEnv.crypto [] 0) where
  nodes := [⟨hashRoot, wildApexNode.types⟩]
  sorted := List.pairwise_singleton _ _
  mem := by
    intro h
    simp only [List.mem_singleton]
    constructor
    · rintro ⟨nd, rfl, rfl⟩
      exact ⟨.root, loneZone_exists.mpr rfl, loneHash (loneZone_exists.mpr rfl)⟩
    · rintro ⟨n, hn, rfl⟩
      exact ⟨_, rfl, (loneHash hn).symm⟩
  types := by
    intro nd hm n hn _ t
    obtain rfl := List.mem_singleton.mp hm
    constructor
    · exact fun h => ⟨wildApexNode, List.mem_cons_self,
        Name.nameEq_iff.mpr (loneZone_exists.mp hn).symm, h⟩
    · rintro ⟨nd', hm', _, h⟩
      obtain rfl := List.mem_singleton.mp hm'
      exact h

/-- the names of a question for `sub.` have three hashes -/
theorem sub_noCollision : NoCollision wildZone.toZone (nsec3Hash wildEnv.crypto [] 0) subName := by
  refine wild_noCollision (fun n hn => ?_) (fun a ha hne => ?_)
  · rcases zoneOf_tld hn with h | h
    · exact Or.inr (Or.inr h)
    · exact Or.inl h
  · rcases zoneOf_tld ha with h | h
    · exact absurd h (Name.nameEq_eq_false.mp hne)
    · exact h

theorem lone_noCollision :
    NoCollision loneZone.toZone (nsec3Hash loneEnv.crypto [] 0) subName := by
  have hsha : loneEnv.crypto.sha1 = sha1Table := rfl
  have hsha' : wildEnv.crypto.sha1 = sha1Table := rfl
  have hhash : nsec3Hash loneEnv.crypto [] 0 = nsec3Hash wildEnv.crypto [] 0 := by
    funext n
    rw [nsec3Hash, nsec3Hash, hsha, hsha']
  rw [hhash]
  intro a b ha hb hab
  have hlift : ∀ n, Hashed loneZone.toZone subName n → Hashed wildZone.toZone subName n := by
    rintro n (hn | hn)
    · exact Or.inl (wildZone_exists.mpr (Or.inl (loneZone_exists.mp hn)))
    · exact Or.inr hn
  exact sub_noCollision a b (hlift a ha) (hlift b hb) hab

theorem nextCloser_sub : NextCloser subName .root subName := by
  refine ⟨Name.zoneOf_refl _, ?_, ?_⟩ <;> decide

/-- a TXT question below the wildcard -/
theorem wildSub_secure :
    wildWhole.NoAnswer subName .TXT ∧ ¬ wildWhole.Exists subName ∧
      (validateNsec3 wildEnv [rootKsk] subName .TXT wildAuthority {}).1 = .Secure := by
  have hex : ¬ wildWhole.Exists subName := by
    intro h
    rcases wildZone_exists.mp h with h | h
    · exact absurd h (by decide)
    · exact absurd h (by decide)
  have hroot : wildWhole.Exists .root := wildZone_exists.mpr (Or.inl rfl)
  have hwild : wildWhole.Exists wildName := wildZone_exists.mpr (Or.inr (by decide))
  have henc := isEncloser_sub hroot hex
  have hno : wildWhole.NoAnswer subName .TXT := Zone.noAnswer_of_types (by decide) _
  have hrecords : nsec3Records wildAuthority = [wildNsec₁, wildNsec₂] := rfl
  have hchain : ∀ r ∈ [wildNsec₁, wildNsec₂], wildChain.IsNsec3 [] 0 r := by
    intro r hr
    refine wildAuthority_chain r ?_ ?_
    · simp only [List.mem_cons, List.not_mem_nil, or_false] at hr
      rcases hr with rfl | rfl <;> simp [wildAuthority]
    · simp only [List.mem_cons, List.not_mem_nil, or_false] at hr
      rcases hr with rfl | rfl <;> rfl
  have hs : WholeZone.Nsec3Section (Z := wildWhole) wildChain [] 0 subName
      [.owns .root, .covers subName, .owns wildName] (nsec3Records wildAuthority) := by
    rw [hrecords]
    have hown : WholeZone.Plays3 (nsec3Hash wildEnv.crypto [] 0) wildNsec₁ (.owns wildName) := by
      show nsec3OwnerHash wildNsec₁ = some (nsec3Hash wildEnv.crypto [] 0 wildName)
      decide +kernel
    have hapex : WholeZone.Plays3 (nsec3Hash wildEnv.crypto [] 0) wildNsec₂ (.owns .root) := by
      show nsec3OwnerHash wildNsec₂ = some (nsec3Hash wildEnv.crypto [] 0 .root)
      decide +kernel
    have hcov : WholeZone.Plays3 (nsec3Hash wildEnv.crypto [] 0) wildNsec₂ (.covers subName) :=
      ⟨hashRoot, _, by decide +kernel, rfl, by decide +kernel⟩
    refine ⟨hchain, by decide, wildcard_root ▸ .wildcardNodata hex henc nextCloser_sub hwild, ?_, ?_⟩
    · simp only [List.forall_mem_cons, List.not_mem_nil, false_imp_iff, implies_true, and_true]
      exact ⟨⟨_, by simp, hown⟩, ⟨_, by simp, hapex⟩⟩
    · simp only [List.forall_mem_cons, List.not_mem_nil, false_imp_iff, implies_true, and_true]
      exact ⟨⟨_, by simp, hapex⟩, ⟨_, by simp, hcov⟩, ⟨_, by simp, hown⟩⟩
  have hparsed : (wildcardName plainText .root).nameEq Name.root.wildcard = true := by
    decide +kernel
  have hden : WholeZone.Deniable (Z := wildWhole) wildChain wildEnv.text subName .TXT
      (nsec3Records wildAuthority) := by
    refine Or.inl ⟨.root, subName, ⟨List.nil_suffix, henc, by decide⟩, nextCloser_sub, ?_⟩
    show if (wildcardName plainText .root).nameEq Name.root.wildcard then 2 ≤ 2 else _
    rw [if_pos hparsed]
  refine ⟨hno, hex, (validateNsec3_complete_iff wildWhole wildChain sub_noCollision (by decide) hno
    hs (by decide +kernel) ?_ (by decide +kernel)).mpr (Or.inr ⟨hex, hden⟩)⟩
  rw [hrecords]
  simp only [List.forall_mem_cons, List.not_mem_nil, false_imp_iff, implies_true, and_true]
  refine ⟨genuinelySigned_root ?_ rfl (fun _ => rfl) (by decide +kernel) (by decide +kernel),
    genuinelySigned_root ?_ rfl (fun _ => rfl) (by decide +kernel) (by decide +kernel)⟩
  · exact List.mem_cons_of_mem _ List.mem_cons_self
  · refine List.mem_cons_of_mem _ (List.mem_cons_of_mem _ (List.mem_cons_of_mem _ ?_))
    exact List.mem_cons_self

/-- the only record of a chain matches the apex and covers all other names, and is not taken -/
theorem loneChain_bogus :
    loneZone.NoAnswer subName .TXT ∧
      NoCollision loneZone.toZone (nsec3Hash loneEnv.crypto [] 0) subName ∧
      WholeZone.Nsec3Section loneChain [] 0 subName
        [.owns .root, .covers subName, .covers wildName] (nsec3Records loneAuthority) ∧
      GenuinelySigned loneEnv [rootKsk] loneAuthority loneNsec3 ∧
      checksFor 1 loneAuthority [rootKsk] ≤ checksLeft {} ∧
      (validateNsec3 loneEnv [rootKsk] subName .TXT loneAuthority {}).1 = .Bogus := by
  have hex : ¬ loneZone.Exists subName := fun h => absurd (loneZone_exists.mp h) (by decide)
  have hwild : ¬ loneZone.Exists Name.root.wildcard := fun h =>
    absurd (loneZone_exists.mp h) (by decide)
  have hroot : loneZone.Exists .root := loneZone_exists.mpr rfl
  have hrecords : nsec3Records loneAuthority = [loneNsec3] := rfl
  refine ⟨Zone.noAnswer_of_types (by decide) _, lone_noCollision, ?_, ?_, by decide,
    by decide +kernel⟩
  · rw [hrecords]
    have hown : WholeZone.Plays3 (nsec3Hash loneEnv.crypto [] 0) loneNsec3 (.owns .root) := by
      show nsec3OwnerHash loneNsec3 = some (nsec3Hash loneEnv.crypto [] 0 .root)
      decide +kernel
    have hcov : WholeZone.Plays3 (nsec3Hash loneEnv.crypto [] 0) loneNsec3 (.covers subName) :=
      ⟨hashRoot, _, by decide +kernel, rfl, by decide +kernel⟩
    have hcovw : WholeZone.Plays3 (nsec3Hash loneEnv.crypto [] 0) loneNsec3 (.covers wildName) :=
      ⟨hashRoot, _, by decide +kernel, rfl, by decide +kernel⟩
    have hpre := WholeZone.Prescribed3.nameError hex (isEncloser_sub hroot hex) nextCloser_sub hwild
    rw [wildcard_root] at hpre
    refine ⟨?_, by decide, hpre, ?_, ?_⟩
    · intro r hr
      obtain rfl := List.mem_singleton.mp hr
      exact ⟨⟨hashRoot, wildApexNode.types⟩, ⟨hashRoot, wildApexNode.types⟩, _, List.mem_cons_self,
        by decide +kernel, rfl, rfl, rfl, rfl, rfl, fun _ => Iff.rfl⟩
    · intro r hr
      obtain rfl := List.mem_singleton.mp hr
      exact ⟨_, List.mem_cons_self, hown⟩
    · simp only [List.forall_mem_cons, List.not_mem_nil, false_imp_iff, implies_true, and_true]
      exact ⟨⟨_, by simp, hown⟩, ⟨_, by simp, hcov⟩, ⟨_, by simp, hcovw⟩⟩
  · exact genuinelySigned_root (List.mem_cons_of_mem _ List.mem_cons_self) rfl (fun _ => rfl)
      (by decide +kernel) (by decide +kernel)

end DnsResolver
