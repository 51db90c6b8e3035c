import DnsResolver.Dnssec.Denial

/-!
# The verdict on a denial does not depend on the spelling of the name

Owners are compared in lower case, hashes are taken of the lower case name and the canonical order
is that of lower case labels.  So both verdicts are functions of `Name.fold`, except for the
wildcards: these are parsed from text (`WildcardsAlike`).

* `climb_congr`, `nextCloser_congr`      the two loops that climb from a name;
* `nsecDenial_congr`, `nsec3Denial_congr`   the verdicts.
-/

namespace DnsResolver

/-- two spellings of one name, or two names that are not there -/
abbrev SameName := Option.Rel fun a b : Name => a.fold = b.fold

theorem sameName_iff {o o' : Option Name} : SameName o o' ↔
    (o = none ∧ o' = none) ∨ ∃ c c', o = some c ∧ o' = some c' ∧ c.fold = c'.fold := by
  constructor
  · rintro (hc | _)
    · exact Or.inr ⟨_, _, rfl, rfl, hc⟩
    · exact Or.inl ⟨rfl, rfl⟩
  · rintro (⟨rfl, rfl⟩ | ⟨c, c', rfl, rfl, hc⟩)
    · exact .none
    · exact .some hc

section
variable {a b : Name} (h : a.fold = b.fold)
include h

theorem Name.isRoot_congr : a.isRoot = b.isRoot := by
  rw [Bool.eq_iff_iff, Name.isRoot_iff, Name.isRoot_iff, h]

theorem Name.fold_baseName_congr : a.baseName.fold = b.baseName.fold := by
  rw [Name.fold_baseName, Name.fold_baseName, h]

theorem Name.length_labels_congr : a.labels.length = b.labels.length := by
  rw [← Name.length_fold, ← Name.length_fold, h]

end

theorem climb_congr {p : Name → Bool} (hp : ∀ a b : Name, a.fold = b.fold → p a = p b) (k : Nat)
    {a b : Name} (h : a.fold = b.fold) : SameName (climb p k a) (climb p k b) := by
  induction k generalizing a b with
  | zero => exact .none
  | succ k ih =>
    simp only [climb, hp a b h, Name.isRoot_congr h]
    split
    · exact .some h
    · split
      · exact .none
      · exact ih (Name.fold_baseName_congr h)

theorem nextCloser_congr {c c' : Name} (hc : c.fold = c'.fold) (k : Nat) {a b : Name}
    (h : a.fold = b.fold) : SameName (nextCloser c k a) (nextCloser c' k b) := by
  induction k generalizing a b with
  | zero => exact .none
  | succ k ih =>
    have hbase := Name.fold_baseName_congr h
    have hstop : a.baseName.nameEq a = b.baseName.nameEq b := by
      rw [Name.nameEq, Name.nameEq, hbase, h]
    have hfound : a.baseName.nameEq c = b.baseName.nameEq c' := by
      rw [Name.nameEq, Name.nameEq, hbase, hc]
    rw [nextCloser, nextCloser, hfound, hstop]
    split
    · exact .some h
    · split
      · exact .none
      · exact ih hbase

section
variable {qtype : RecordType} {records : List Record} {q q' : Name} (h : q.fold = q'.fold)
include h

/-! ## NSEC -/

theorem nsecCovered_congr : nsecCovered records q = nsecCovered records q' := by
  unfold nsecCovered nsecCovers Name.canon
  rw [h]

theorem findNsecClosestEncloser_congr :
    SameName (findNsecClosestEncloser q records) (findNsecClosestEncloser q' records) := by
  unfold findNsecClosestEncloser
  refine climb_congr nsecListed_congr _ ?_
  rw [Name.isRoot_congr h]
  split
  · exact h
  · exact Name.fold_baseName_congr h

/-- the wildcards of both spellings are parsed alike, ancestor by ancestor -/
def WildcardsAlike (tx : Presentation) (q q' : Name) : Prop :=
  ∀ c c' : Name, c.Above q → c'.Above q' → c.fold = c'.fold →
    (wildcardName tx c).fold = (wildcardName tx c').fold

theorem nsecDenial_congr {tx : Presentation} (hw : WildcardsAlike tx q q') :
    nsecDenial tx q qtype records = nsecDenial tx q' qtype records := by
  have hnodata : checkNsecNodata q qtype records = checkNsecNodata q' qtype records := by
    unfold checkNsecNodata Name.nameEq
    rw [h]
  simp only [nsecDenial, hnodata]
  cases checkNsecNodata q' qtype records with
  | some status => rfl
  | none =>
    have hclosest : SameName (findNsecClosestEncloser q records)
        (findNsecClosestEncloser q' records) := findNsecClosestEncloser_congr h
    rcases sameName_iff.mp hclosest with ⟨hf, hf'⟩ | ⟨c, c', hf, hf', hc⟩
    · simp only [hf, hf']
    · have hwild := hw c c' (findNsecClosestEncloser_above hf)
        (findNsecClosestEncloser_above hf') hc
      simp only [hf, hf', checkNsecWildcardNodata, checkNsecNxdomain, nsecCovered_congr h,
        nsecCovered_congr hwild]
      unfold Name.nameEq
      rw [hwild]

/-! ## NSEC3 -/

variable {H : Name → Bytes} (hH : ∀ a b : Name, a.fold = b.fold → H a = H b)
include hH

theorem checkNsec3Nxdomain_congr {tx : Presentation} {c c' : Name} (hc : c.fold = c'.fold)
    (hw : (wildcardName tx c).fold = (wildcardName tx c').fold) :
    checkNsec3Nxdomain H tx q c records = checkNsec3Nxdomain H tx q' c' records := by
  have hnext := nextCloser_congr hc (q'.labels.length + 1) h
  unfold checkNsec3Nxdomain
  rw [Name.length_labels_congr h]
  generalize nextCloser c (q'.labels.length + 1) q = n at hnext
  generalize nextCloser c' (q'.labels.length + 1) q' = n' at hnext
  cases hnext with
  | none => rfl
  | some hn => simp only [hH _ _ hn, hH _ _ hw]

theorem belowCloser_congr {tx : Presentation} {c c' : Name} (hc : c.fold = c'.fold)
    (hw : (wildcardName tx c).fold = (wildcardName tx c').fold) :
    (if c.nameEq q then if qtype = RecordType.DS then .Secure else .Bogus
      else match checkNsec3WildcardNodata H tx c qtype records with
        | some status => status
        | none => match checkNsec3Nxdomain H tx q c records with
          | some status => status
          | none => DnssecStatus.Bogus) =
    (if c'.nameEq q' then if qtype = RecordType.DS then .Secure else .Bogus
      else match checkNsec3WildcardNodata H tx c' qtype records with
        | some status => status
        | none => match checkNsec3Nxdomain H tx q' c' records with
          | some status => status
          | none => DnssecStatus.Bogus) := by
  have hsame : c.nameEq q = c'.nameEq q' := by rw [Name.nameEq, Name.nameEq, hc, h]
  have hwild : checkNsec3WildcardNodata H tx c qtype records =
      checkNsec3WildcardNodata H tx c' qtype records := by
    unfold checkNsec3WildcardNodata
    rw [hH _ _ hw]
  rw [hsame, hwild, checkNsec3Nxdomain_congr h hH hc hw]

theorem nsec3Denial_congr {tx : Presentation} (hw : WildcardsAlike tx q q') :
    nsec3Denial H tx q qtype records = nsec3Denial H tx q' qtype records := by
  have hnodata : checkNsec3Nodata H q qtype records = checkNsec3Nodata H q' qtype records := by
    unfold checkNsec3Nodata
    rw [hH q q' h]
  simp only [nsec3Denial, hnodata]
  cases checkNsec3Nodata H q' qtype records with
  | some status => rfl
  | none =>
    have hclosest : SameName (findNsec3ClosestProvableEncloser H q records)
        (findNsec3ClosestProvableEncloser H q' records) := climb_congr (nsec3Listed_congr hH) _ h
    rcases sameName_iff.mp hclosest with ⟨hf, hf'⟩ | ⟨c, c', hf, hf', hc⟩
    · have hbase := Name.fold_baseName_congr h
      simp only [hf, hf']
      by_cases hds : qtype = .DS
      · simp only [hds, if_true]
        exact belowCloser_congr h hH hbase
          (hw _ _ (Name.Above.refl _).of_baseName (Name.Above.refl _).of_baseName hbase)
      · simp only [hds, if_false]
    · simp only [hf, hf']
      exact belowCloser_congr h hH hc (hw c c' (climb_above hf) (climb_above hf') hc)

end
end DnsResolver
