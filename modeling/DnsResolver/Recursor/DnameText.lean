import DnsResolver.Recursor.Bailiwick

/-!
# DNAME substitution by text (`dname_substitute`)

The substitution should replace labels: those of the owner by those of the target.  The code cuts
and joins presentation texts, and tests the lengths on the text.

hickory's `Display` and `from_str` are taken as the dotted format (`DottedFormat`): every byte has
a spelling, which may depend on whether it is the first of its label, every label is followed by a
dot, the root is a dot, and `from_str` reads a spelled text back, within the limits of the wire
format.

* `LabelExact`             what a substitution should do;
* `newText_of_not_root`, `newText_of_root`   the text that is built: before a root target a dot is
                           left over, and a root owner takes the last dot of the name with it;
* `dnameSubstitute_iff`    when the substitution is exact: never with just the target the root,
                           and otherwise if the text, escapes counted, is not longer than a name
                           may be in wire form.
-/

namespace DnsResolver

/-! ## the dotted format -/

/-- a label byte by byte, with the mark whether it is spelled as the first one -/
abbrev Spelling := List (Bool × UInt8)

def spell : Label → Spelling
  | [] => []
  | b :: bs => (true, b) :: bs.map fun b => (false, b)

section
variable (esc : Bool → UInt8 → Bytes)

def Spelling.text (s : Spelling) : Bytes := s.flatMap fun x => esc x.1 x.2

def spelled (ss : List Spelling) : Bytes := ss.flatMap fun s => s.text esc ++ [46]

/-- the text of labels as `Display` spells them -/
def dotted (ls : List Label) : Bytes := spelled esc (ls.map spell)

structure DottedFormat (tx : Presentation) : Prop where
  display : ∀ n, tx.text n = if n.labels = [] then [46] else dotted esc n.labels
  lowercase : ∀ n, tx.lowerText n = (tx.text n).map lowerByte
  esc_lowercase : ∀ first b, (esc first b).map lowerByte = esc first (lowerByte b)
  fromStr : ∀ ss, ss ≠ [] → ss ≠ [[]] →
    tx.fromStr (spelled esc ss) = Name.fromLabels (ss.map fun s => s.map Prod.snd)

variable {esc}

theorem spelled_append (ss ss' : List Spelling) :
    spelled esc (ss ++ ss') = spelled esc ss ++ spelled esc ss' := List.flatMap_append

theorem dotted_append (ls ls' : List Label) :
    dotted esc (ls ++ ls') = dotted esc ls ++ dotted esc ls' := by
  unfold dotted
  rw [List.map_append, spelled_append]

theorem spell_snd (l : Label) : (spell l).map Prod.snd = l := by
  cases l with
  | nil => rfl
  | cons b bs =>
    show b :: (bs.map fun b => (false, b)).map Prod.snd = b :: bs
    rw [List.map_map]
    exact congrArg (b :: ·) (List.map_id bs)

theorem map_spell_snd (ls : List Label) :
    (ls.map spell).map (fun s => s.map Prod.snd) = ls := by
  rw [List.map_map]
  exact (List.map_congr_left fun l _ => spell_snd l).trans (List.map_id ls)

theorem spell_foldLabel (l : Label) :
    spell (foldLabel l) = (spell l).map fun x => (x.1, lowerByte x.2) := by
  cases l with
  | nil => rfl
  | cons b bs =>
    show (true, lowerByte b) :: ((bs.map lowerByte).map fun b => (false, b)) =
      (true, lowerByte b) :: ((bs.map fun b => (false, b)).map fun x => (x.1, lowerByte x.2))
    rw [List.map_map, List.map_map]
    rfl

section
variable {tx : Presentation} (hf : DottedFormat esc tx)
include hf

theorem DottedFormat.map_lowerByte_dotted (ls : List Label) :
    (dotted esc ls).map lowerByte = dotted esc (ls.map foldLabel) := by
  induction ls with
  | nil => rfl
  | cons l ls ih =>
    have hlabel : ((spell l).text esc).map lowerByte = (spell (foldLabel l)).text esc := by
      unfold Spelling.text
      rw [List.map_flatMap, spell_foldLabel, List.flatMap_map]
      exact List.flatMap_congr fun x _ => hf.esc_lowercase x.1 x.2
    show ((spell l).text esc ++ [46] ++ dotted esc ls).map lowerByte = _
    rw [List.map_append, List.map_append, hlabel, ih]
    rfl

theorem DottedFormat.lowerText_eq (n : Name) :
    tx.lowerText n = if n.labels = [] then [46] else dotted esc n.fold := by
  rw [hf.lowercase, hf.display]
  split
  · rfl
  · exact hf.map_lowerByte_dotted n.labels

theorem DottedFormat.fromStr_dotted {ls : List Label} (h : ls ≠ []) (h' : ls ≠ [[]]) :
    tx.fromStr (dotted esc ls) = Name.fromLabels ls := by
  have hnil : ls.map spell ≠ [] := fun he => h (List.map_eq_nil_iff.mp he)
  have hdot : ls.map spell ≠ [[]] := by
    intro he
    have hmap := congrArg (List.map fun s => s.map Prod.snd) he
    rw [map_spell_snd] at hmap
    exact h' hmap
  unfold dotted
  rw [hf.fromStr _ hnil hdot, map_spell_snd]

end

/-! ## the tests on the text -/

/-- not more than 255 octets, and not more than 63 between two dots -/
def TextFits (s : Bytes) : Prop := s.length ≤ 255 ∧ ∀ piece ∈ s.splitOn 46, piece.length ≤ 63

instance (s : Bytes) : Decidable (TextFits s) := inferInstanceAs (Decidable (_ ∧ _))

theorem trimDots_append_dot (s : Bytes) : trimDots (s ++ [46]) = trimDots s := by
  unfold trimDots
  rw [List.reverse_append]
  rfl

/-- dots at the end only make empty pieces -/
theorem any_splitOn_trimDots {p : Bytes → Bool} (hp : p [] = false) (s : Bytes) :
    ((trimDots s).splitOn 46).any p = (s.splitOn 46).any p := by
  induction s using List.reverseRecOn with
  | nil => rfl
  | append_singleton s c ih =>
    by_cases hc : c = 46
    · subst hc
      rw [trimDots_append_dot, ih, List.splitOn_append_cons_self, List.any_append,
        List.splitOn_nil]
      simp [hp]
    · have hkeep : trimDots (s ++ [c]) = s ++ [c] := by
        unfold trimDots
        rw [List.reverse_append, List.reverse_singleton, List.singleton_append,
          List.dropWhile_cons_of_neg (by simpa using hc), List.reverse_cons, List.reverse_reverse]
      rw [hkeep]

def newText (tx : Presentation) (name owner target : Name) : Bytes :=
  (tx.lowerText name).take ((tx.lowerText name).length - (tx.lowerText owner).length) ++
    tx.text target

theorem dnameSubstitute_eq {tx : Presentation} {name owner : Name} (target : Name)
    (hz : owner.zoneOf name = true) (hne : owner.nameEq name = false)
    (hs : tx.lowerText owner <:+ tx.lowerText name) :
    dnameSubstitute tx name owner target =
      if TextFits (newText tx name owner target) then
        match tx.fromStr (newText tx name owner target) with
        | some n => .ok n
        | none => .error .YXDomain
      else .error .YXDomain := by
  unfold dnameSubstitute
  rw [hz, hne, List.isSuffixOf_iff_suffix.mpr hs]
  show (if 255 < (newText tx name owner target).length then _
    else if ((trimDots (newText tx name owner target)).splitOn 46).any _ then _ else _) = _
  rw [any_splitOn_trimDots (by decide)]
  by_cases hlen : 255 < (newText tx name owner target).length
  · have hfits : ¬ TextFits (newText tx name owner target) := fun h => Nat.not_le.mpr hlen h.1
    rw [if_pos hlen, if_neg hfits]
  · rw [if_neg hlen]
    by_cases hany : ((newText tx name owner target).splitOn 46).any fun label =>
        decide (63 < label.length)
    · have hfits : ¬ TextFits (newText tx name owner target) := by
        rintro ⟨-, hall⟩
        obtain ⟨piece, hp, hlong⟩ := List.any_eq_true.mp hany
        exact Nat.not_le.mpr (of_decide_eq_true hlong) (hall piece hp)
      rw [if_pos hany, if_neg hfits]
    · have hfits : TextFits (newText tx name owner target) := by
        refine ⟨Nat.not_lt.mp hlen, fun piece hp => Nat.not_lt.mp fun hlong => hany ?_⟩
        exact List.any_eq_true.mpr ⟨piece, hp, decide_eq_true hlong⟩
      rw [if_neg hany, if_pos hfits]
      rfl

/-! ## the labels above the owner -/

/-- the labels of a name without those of its ancestor -/
def aboveOwner (name owner : Name) : List Label :=
  name.labels.take (name.labels.length - owner.labels.length)

/-- the same in lower case, as they go into the new name -/
def lowerAbove (name owner : Name) : List Label := (aboveOwner name owner).map foldLabel

theorem labels_ne_nil {n : Name} (h : n.isRoot = false) : n.labels ≠ [] := by
  intro hnil
  rw [Name.isRoot, hnil] at h
  exact absurd h (by decide)

section
variable {name owner : Name} (hz : owner.zoneOf name = true)
include hz

theorem fold_eq_above : name.fold = lowerAbove name owner ++ owner.fold := by
  have hsuf := List.suffix_iff_eq_append.mp (Name.zoneOf_iff.mp hz)
  rw [Name.length_fold, Name.length_fold] at hsuf
  unfold lowerAbove aboveOwner
  rw [List.map_take]
  exact hsuf.symm

theorem above_ne_nil (hne : owner.nameEq name = false) : lowerAbove name owner ≠ [] := by
  intro hnil
  have hfold := fold_eq_above hz
  rw [hnil, List.nil_append] at hfold
  rw [Name.nameEq_iff.mpr hfold.symm] at hne
  exact absurd hne (by decide)

end

/-! ## the text that is built -/

/-- the last label of the name and the first one of the target, written without a dot between -/
def joinedLabels (above target : List Label) : List Label :=
  above.dropLast ++ (above.getLast?.getD [] ++ target.headD []) :: target.tail

theorem dotted_concat (ls : List Label) (l : Label) :
    dotted esc (ls ++ [l]) = dotted esc ls ++ (spell l).text esc ++ [46] := by
  rw [dotted_append, List.append_assoc]
  unfold dotted spelled
  rw [List.map_singleton, List.flatMap_singleton]

section
variable {tx : Presentation} (hf : DottedFormat esc tx) {name owner : Name}
  (hz : owner.zoneOf name = true) (hne : owner.nameEq name = false)
include hf hz hne

theorem lowerText_name : tx.lowerText name =
    dotted esc (lowerAbove name owner ++ owner.fold) := by
  rw [hf.lowerText_eq, if_neg, fold_eq_above hz]
  intro hroot
  have hfold := fold_eq_above hz
  unfold Name.fold at hfold
  rw [hroot, List.map_nil] at hfold
  exact above_ne_nil hz hne (List.append_eq_nil_iff.mp hfold.symm).1

theorem lowerText_suffix : tx.lowerText owner <:+ tx.lowerText name := by
  rw [lowerText_name hf hz hne, hf.lowerText_eq owner]
  split
  · rename_i hroot
    obtain ⟨init, last, hlast⟩ := (List.eq_nil_or_concat' _).resolve_left (above_ne_nil hz hne)
    have hfold : owner.fold = [] := by
      unfold Name.fold
      rw [hroot, List.map_nil]
    rw [hfold, List.append_nil, hlast, dotted_concat]
    exact List.suffix_append _ _
  · rw [dotted_append]
    exact List.suffix_append _ _

theorem newText_of_not_root (ho : owner.isRoot = false) (target : Name) :
    newText tx name owner target =
      dotted esc (lowerAbove name owner) ++ tx.text target := by
  unfold newText
  rw [lowerText_name hf hz hne, hf.lowerText_eq owner, if_neg (labels_ne_nil ho), dotted_append,
    List.length_append, Nat.add_sub_cancel, List.take_left]

theorem newText_of_root (ho : owner.isRoot = true) (target : Name) :
    newText tx name owner target =
      (dotted esc (lowerAbove name owner)).dropLast ++ tx.text target := by
  have hroot : owner.labels = [] := List.isEmpty_iff.mp ho
  have hfold : owner.fold = [] := Name.isRoot_iff.mp ho
  unfold newText
  rw [lowerText_name hf hz hne, hf.lowerText_eq owner, if_pos hroot, hfold, List.append_nil,
    List.dropLast_eq_take]
  rfl

theorem dnameSubstitute_of_valid {target : Name} {ls : List Label}
    (hread : tx.fromStr (newText tx name owner target) = Name.fromLabels ls)
    (hfits : TextFits (newText tx name owner target)) (hv : ValidLabels ls) :
    dnameSubstitute tx name owner target = .ok ⟨ls, hv⟩ := by
  rw [dnameSubstitute_eq target hz hne (lowerText_suffix hf hz hne), if_pos hfits, hread,
    Name.fromLabels, dif_pos hv]

theorem dnameSubstitute_of_not_valid {target : Name} {ls : List Label}
    (hread : tx.fromStr (newText tx name owner target) = Name.fromLabels ls)
    (h : ¬ (TextFits (newText tx name owner target) ∧ ValidLabels ls)) :
    dnameSubstitute tx name owner target = .error .YXDomain := by
  rw [dnameSubstitute_eq target hz hne (lowerText_suffix hf hz hne)]
  split
  · rename_i hfits
    rw [hread, Name.fromLabels, dif_neg fun hv => h ⟨hfits, hv⟩]
  · rfl

end

/-! ## when the substitution is exact -/

def substituted (name owner target : Name) : List Label := aboveOwner name owner ++ target.labels

/-- these labels, up to case, if they make a name, and YXDOMAIN exactly if they do not -/
structure LabelExact (tx : Presentation) (name owner target : Name) : Prop where
  ok : wireLen (substituted name owner target) ≤ 255 →
    ∃ n, dnameSubstitute tx name owner target = .ok n ∧
      n.fold = (substituted name owner target).map foldLabel
  yxdomain : dnameSubstitute tx name owner target = .error .YXDomain ↔
    255 < wireLen (substituted name owner target)

variable (esc) in
/-- the condition on owner, target and the texts -/
def SubstitutionFits (name owner target : Name) : Prop :=
  let above := lowerAbove name owner
  if owner.isRoot = target.isRoot then
    255 < wireLen (above ++ target.labels) ∨ TextFits (dotted esc (above ++ target.labels))
  else if owner.isRoot then
    255 < wireLen (above ++ target.labels) ∧
      ¬ (TextFits ((dotted esc above).dropLast ++ dotted esc target.labels) ∧
        ValidLabels (joinedLabels above target.labels))
  else False

section
variable {tx : Presentation} (hf : DottedFormat esc tx) {name owner : Name} {target : Name}
  (hz : owner.zoneOf name = true) (hne : owner.nameEq name = false)

theorem lowerByte_lowerByte (b : UInt8) : lowerByte (lowerByte b) = lowerByte b := by
  have h : ∀ n : Fin 256, lowerByte (lowerByte (UInt8.ofFin n)) = lowerByte (UInt8.ofFin n) := by
    decide +kernel
  exact h b.toFin

theorem map_foldLabel_map_foldLabel (ls : List Label) :
    (ls.map foldLabel).map foldLabel = ls.map foldLabel := by
  rw [List.map_map]
  refine List.map_congr_left fun l _ => ?_
  show (l.map lowerByte).map lowerByte = l.map lowerByte
  rw [List.map_map]
  exact List.map_congr_left fun b _ => lowerByte_lowerByte b

theorem fold_substituted (name owner target : Name) :
    (lowerAbove name owner ++ target.labels).map foldLabel =
      (substituted name owner target).map foldLabel := by
  unfold substituted lowerAbove
  rw [List.map_append, List.map_append, map_foldLabel_map_foldLabel]

theorem wireLen_substituted (name owner target : Name) :
    wireLen (lowerAbove name owner ++ target.labels) =
      wireLen (substituted name owner target) := by
  rw [← wireLen_fold, fold_substituted, wireLen_fold]

theorem above_length {name owner : Name} {l : Label} (hl : l ∈ lowerAbove name owner) :
    1 ≤ l.length ∧ l.length ≤ 63 := by
  obtain ⟨l', hl', rfl⟩ := List.mem_map.mp hl
  rw [length_foldLabel]
  exact name.valid.1 l' (List.mem_of_mem_take hl')

theorem validLabels_above_iff (name owner target : Name) :
    ValidLabels (lowerAbove name owner ++ target.labels) ↔
      wireLen (substituted name owner target) ≤ 255 := by
  rw [← wireLen_substituted]
  refine ⟨fun h => h.2, fun h => ⟨fun l hl => ?_, h⟩⟩
  rcases List.mem_append.mp hl with hl | hl
  · exact above_length hl
  · exact target.valid.1 l hl

theorem wireLen_above_le (name owner : Name) : wireLen (aboveOwner name owner) ≤ 255 := by
  have hle : ∀ (ls : List Label) (k : Nat), wireLen (ls.take k) ≤ wireLen ls := by
    intro ls
    induction ls with
    | nil => intro k; rw [List.take_nil]
    | cons l ls ih =>
      intro k
      cases k with
      | zero =>
        rw [List.take_zero, wireLen_cons]
        show 1 ≤ _
        omega
      | succ k =>
        rw [List.take_succ_cons, wireLen_cons, wireLen_cons]
        have := ih k
        omega
  exact (hle _ _).trans name.valid.2

include hf hz hne

theorem labelExact_of_read
    (hread : tx.fromStr (newText tx name owner target) =
      Name.fromLabels (lowerAbove name owner ++ target.labels)) :
    LabelExact tx name owner target ↔ 255 < wireLen (substituted name owner target) ∨
      TextFits (newText tx name owner target) := by
  have hvalid := validLabels_above_iff name owner target
  constructor
  · intro hex
    by_cases hlen : 255 < wireLen (substituted name owner target)
    · exact Or.inl hlen
    · refine Or.inr (by_contra fun hfits => hlen ?_)
      exact hex.yxdomain.mp
        (dnameSubstitute_of_not_valid hf hz hne hread fun h => hfits h.1)
  · intro hor
    by_cases hlen : wireLen (substituted name owner target) ≤ 255
    · have hfits := hor.resolve_left (Nat.not_lt.mpr hlen)
      have hok := dnameSubstitute_of_valid hf hz hne hread hfits (hvalid.mpr hlen)
      refine ⟨fun _ => ⟨_, hok, ?_⟩, ?_⟩
      · exact fold_substituted name owner target
      · rw [hok]
        exact iff_of_false (by rintro ⟨⟩) (Nat.not_lt.mpr hlen)
    · refine ⟨fun h => absurd h hlen, iff_of_true ?_ (Nat.not_le.mp hlen)⟩
      exact dnameSubstitute_of_not_valid hf hz hne hread fun h => hlen (hvalid.mp h.2)

theorem labelExact_of_isRoot_eq (h : owner.isRoot = target.isRoot) :
    LabelExact tx name owner target ↔
      255 < wireLen (lowerAbove name owner ++ target.labels) ∨
        TextFits (dotted esc (lowerAbove name owner ++ target.labels)) := by
  have habove := above_ne_nil hz hne
  have htext : newText tx name owner target =
      dotted esc (lowerAbove name owner ++ target.labels) := by
    cases ho : owner.isRoot with
    | false =>
      have ht : target.labels ≠ [] := labels_ne_nil (h.symm.trans ho)
      rw [newText_of_not_root hf hz hne ho, hf.display, if_neg ht, dotted_append]
    | true =>
      have ht : target.labels = [] := List.isEmpty_iff.mp (h.symm.trans ho)
      obtain ⟨init, last, hlast⟩ := (List.eq_nil_or_concat' _).resolve_left habove
      rw [newText_of_root hf hz hne ho, hf.display, if_pos ht, ht, List.append_nil, hlast,
        dotted_concat, List.dropLast_concat]
  have hread : tx.fromStr (newText tx name owner target) =
      Name.fromLabels (lowerAbove name owner ++ target.labels) := by
    rw [htext]
    refine hf.fromStr_dotted (fun hnil => habove (List.append_eq_nil_iff.mp hnil).1) ?_
    intro hempty
    obtain ⟨init, last, hlast⟩ := (List.eq_nil_or_concat' _).resolve_left habove
    have hmem : last ∈ lowerAbove name owner := by
      rw [hlast]
      exact List.mem_append_right _ (List.mem_singleton.mpr rfl)
    have hlen := (above_length hmem).1
    have hin := List.mem_append_left target.labels hmem
    rw [hempty] at hin
    rw [List.mem_singleton.mp hin] at hlen
    exact absurd hlen (by decide)
  rw [labelExact_of_read hf hz hne hread, htext, wireLen_substituted]

/-- a dot is left over before the root -/
theorem not_labelExact_of_target_root (ho : owner.isRoot = false) (ht : target.isRoot = true) :
    ¬ LabelExact tx name owner target := by
  have habove := above_ne_nil hz hne
  have htarget : target.labels = [] := List.isEmpty_iff.mp ht
  have htext : newText tx name owner target =
      dotted esc (lowerAbove name owner ++ [[]]) := by
    rw [newText_of_not_root hf hz hne ho, hf.display, if_pos htarget, dotted_concat]
    exact congrArg (· ++ [46]) (List.append_nil _).symm
  have hread : tx.fromStr (newText tx name owner target) =
      Name.fromLabels (lowerAbove name owner ++ [[]]) := by
    rw [htext]
    refine hf.fromStr_dotted (fun hnil => habove (List.append_eq_nil_iff.mp hnil).1) ?_
    intro hempty
    exact habove (List.append_left_eq_self.mp hempty)
  have hyx := dnameSubstitute_of_not_valid hf hz hne hread fun h => by
    have hlen := (h.2.1 [] (List.mem_append_right _ (List.mem_singleton.mpr rfl))).1
    exact absurd hlen (by decide)
  intro hex
  have hlong := hex.yxdomain.mp hyx
  unfold substituted at hlong
  rw [htarget, List.append_nil] at hlong
  exact absurd (wireLen_above_le name owner) (Nat.not_le.mpr hlong)

omit hf hz hne in
theorem length_joinedLabels {above target : List Label} (ha : above ≠ []) (ht : target ≠ []) :
    (joinedLabels above target).length + 1 = (above ++ target).length := by
  have hapos := List.length_pos_of_ne_nil ha
  have htpos := List.length_pos_of_ne_nil ht
  unfold joinedLabels
  rw [List.length_append, List.length_cons, List.length_dropLast, List.length_tail,
    List.length_append]
  omega

/-- the name loses its last dot, and the label before it runs into the target -/
theorem fromStr_joined (ho : owner.isRoot = true) (ht : target.isRoot = false) :
    tx.fromStr (newText tx name owner target) = Name.fromLabels
      (joinedLabels (lowerAbove name owner) target.labels) := by
  obtain ⟨init, last, hlast⟩ := (List.eq_nil_or_concat' _).resolve_left (above_ne_nil hz hne)
  have hmem : last ∈ lowerAbove name owner := by
    rw [hlast]
    exact List.mem_append_right _ (List.mem_singleton.mpr rfl)
  have hlen := (above_length hmem).1
  obtain ⟨first, rest, hfirst⟩ := List.exists_cons_of_ne_nil (labels_ne_nil ht)
  have htext : newText tx name owner target =
      spelled esc (init.map spell ++ (spell last ++ spell first) :: rest.map spell) := by
    rw [newText_of_root hf hz hne ho, hf.display, if_neg (labels_ne_nil ht), hfirst, hlast,
      dotted_concat, List.dropLast_concat, spelled_append]
    show _ = dotted esc init ++ ((spell last ++ spell first).flatMap (fun x => esc x.1 x.2) ++ [46]
      ++ dotted esc rest)
    rw [List.flatMap_append]
    show dotted esc init ++ (spell last).text esc ++ ((spell first).text esc ++ [46] ++
      dotted esc rest) = _
    simp only [List.append_assoc]
    rfl
  rw [htext, hf.fromStr]
  · rw [hlast, hfirst]
    unfold joinedLabels
    rw [List.map_append, map_spell_snd, List.map_cons, map_spell_snd, List.map_append, spell_snd,
      spell_snd, List.dropLast_concat, List.getLast?_concat]
    rfl
  · exact List.append_ne_nil_of_right_ne_nil _ (List.cons_ne_nil _ _)
  · intro hempty
    have hmem : spell last ++ spell first ∈ [([] : Spelling)] := by
      rw [← hempty]
      exact List.mem_append_right _ List.mem_cons_self
    have hspell := (List.append_eq_nil_iff.mp (List.mem_singleton.mp hmem)).1
    rw [← spell_snd last, hspell] at hlen
    exact absurd hlen (by decide)

theorem labelExact_of_owner_root (ho : owner.isRoot = true) (ht : target.isRoot = false) :
    LabelExact tx name owner target ↔
      255 < wireLen (lowerAbove name owner ++ target.labels) ∧
        ¬ (TextFits ((dotted esc (lowerAbove name owner)).dropLast ++
            dotted esc target.labels) ∧
          ValidLabels (joinedLabels (lowerAbove name owner) target.labels)) := by
  have hread := fromStr_joined hf hz hne ho ht
  have htarget := labels_ne_nil ht
  have htext : newText tx name owner target =
      (dotted esc (lowerAbove name owner)).dropLast ++ dotted esc target.labels := by
    rw [newText_of_root hf hz hne ho, hf.display, if_neg htarget]
  rw [wireLen_substituted, ← htext]
  constructor
  · intro hex
    have hlong : 255 < wireLen (substituted name owner target) := by
      by_contra hshort
      obtain ⟨n, hn, hfold⟩ := hex.ok (Nat.not_lt.mp hshort)
      by_cases h : TextFits (newText tx name owner target) ∧
          ValidLabels (joinedLabels (lowerAbove name owner) target.labels)
      · -- what is read has one label less
        rw [dnameSubstitute_of_valid hf hz hne hread h.1 h.2] at hn
        obtain rfl := Except.ok.inj hn
        have hlen := length_joinedLabels (above_ne_nil hz hne) htarget
        have hfoldLen := congrArg List.length hfold
        rw [← fold_substituted, List.length_map, Name.length_fold] at hfoldLen
        exact absurd (hfoldLen ▸ hlen) (Nat.succ_ne_self _)
      · rw [dnameSubstitute_of_not_valid hf hz hne hread h] at hn
        cases hn
    refine ⟨hlong, fun h => ?_⟩
    have hok := dnameSubstitute_of_valid hf hz hne hread h.1 h.2
    rw [hex.yxdomain.mpr hlong] at hok
    cases hok
  · rintro ⟨hlong, hnot⟩
    refine ⟨fun h => absurd hlong (Nat.not_lt.mpr h), iff_of_true ?_ hlong⟩
    exact dnameSubstitute_of_not_valid hf hz hne hread hnot

end

end

/-- **When DNAME substitution is label-exact.**  If owner and target are both the root or both not,
exactly if the labels are too long for a name or their text, with its escapes, passes for one; if
only the target is the root, never; if only the owner is, exactly if the labels are too long and
what they run together to is refused as well. -/
theorem dnameSubstitute_iff (esc : Bool → UInt8 → Bytes) (tx : Presentation)
    (hf : DottedFormat esc tx) (name owner target : Name) (hz : owner.zoneOf name = true)
    (hne : owner.nameEq name = false) :
    LabelExact tx name owner target ↔ SubstitutionFits esc name owner target := by
  unfold SubstitutionFits
  by_cases h : owner.isRoot = target.isRoot
  · rw [labelExact_of_isRoot_eq hf hz hne h]
    show _ ↔ if owner.isRoot = target.isRoot then _ else _
    rw [if_pos h]
  · show _ ↔ if owner.isRoot = target.isRoot then _ else _
    rw [if_neg h]
    cases ho : owner.isRoot with
    | true =>
      have ht : target.isRoot = false := by
        rw [ho] at h
        exact Bool.eq_false_of_not_eq_true (Ne.symm h)
      rw [labelExact_of_owner_root hf hz hne ho ht]
      rfl
    | false =>
      have ht : target.isRoot = true := by
        rw [ho] at h
        exact Bool.eq_true_of_not_eq_false (Ne.symm h)
      exact iff_of_false (not_labelExact_of_target_root hf hz hne ho ht) id

/-! ## the format of hickory -/

/-- `is_safe_ascii` -/
def isSafeAscii (first : Bool) (b : UInt8) : Bool :=
  (48 ≤ b && b ≤ 57) || (65 ≤ b && b ≤ 90) || (97 ≤ b && b ≤ 122) || b == 95 ||
    (b == 45 && !first) || (b == 42 && first)

/-- as it is, behind a backslash, or as three octal digits behind one -/
def escapeByte (first : Bool) (b : UInt8) : Bytes :=
  if isSafeAscii first b then [b]
  else if 32 < b ∧ b < 127 then [92, b]
  else [92, 48 + b / 64, 48 + b / 8 % 8, 48 + b % 8]

/-- `ParseState` -/
inductive ParseState where
  | label
  | escape1
  | escape2 (i : UInt8)
  | escape3 (i ii : UInt8)
  deriving DecidableEq

/-- the parser between two bytes: its state, the label that is read and those before it -/
structure NameReader where
  state : ParseState
  label : Label
  labels : List Label

def octalDigit (b : UInt8) : Option UInt8 := if 48 ≤ b ∧ b ≤ 55 then some (b - 48) else none

def NameReader.byte (r : NameReader) (b : UInt8) : Option NameReader :=
  match r.state with
  | .label =>
    if b = 46 then some ⟨.label, [], r.labels ++ [r.label]⟩
    else if b = 92 then some { r with state := .escape1 }
    else some { r with label := r.label ++ [b] }
  | .escape1 =>
    if 48 ≤ b ∧ b ≤ 57 then (octalDigit b).map fun i => { r with state := .escape2 i }
    else some { r with state := .label, label := r.label ++ [b] }
  | .escape2 i => (octalDigit b).map fun ii => { r with state := .escape3 i ii }
  | .escape3 i ii => (octalDigit b).map fun iii =>
      { r with state := .label, label := r.label ++ [64 * i + 8 * ii + iii] }

/-- the labels of a text; the last one may be without its dot -/
def readText (s : Bytes) : Option (List Label) :=
  match s.foldlM NameReader.byte ⟨.label, [], []⟩ with
  | some ⟨.label, [], ls⟩ => some ls
  | some ⟨.label, l, ls⟩ => some (ls ++ [l])
  | _ => none

def dottedText : Presentation where
  text := fun n => if n.labels = [] then [46] else dotted escapeByte n.labels
  lowerText := fun n => (if n.labels = [] then [46] else dotted escapeByte n.labels).map lowerByte
  toAscii := fun n => if n.labels = [] then [46] else dotted escapeByte n.labels
  fromStr := fun s => if s = [46] then some .root else (readText s).bind Name.fromLabels

theorem escapeByte_cases (first : Bool) (b : UInt8) :
    (escapeByte first b = [b] ∧ b ≠ 46 ∧ b ≠ 92) ∨
    (escapeByte first b = [92, b] ∧ ¬ (48 ≤ b ∧ b ≤ 57)) ∨
    (escapeByte first b = [92, 48 + b / 64, 48 + b / 8 % 8, 48 + b % 8] ∧
      48 ≤ 48 + b / 64 ∧ 48 + b / 64 ≤ 57 ∧ octalDigit (48 + b / 64) = some (b / 64) ∧
      octalDigit (48 + b / 8 % 8) = some (b / 8 % 8) ∧ octalDigit (48 + b % 8) = some (b % 8) ∧
      64 * (b / 64) + 8 * (b / 8 % 8) + b % 8 = b) := by
  have h : ∀ (first : Bool) (n : Fin 256),
      (escapeByte first (UInt8.ofFin n) = [UInt8.ofFin n] ∧ UInt8.ofFin n ≠ 46 ∧
        UInt8.ofFin n ≠ 92) ∨
      (escapeByte first (UInt8.ofFin n) = [92, UInt8.ofFin n] ∧
        ¬ (48 ≤ UInt8.ofFin n ∧ UInt8.ofFin n ≤ 57)) ∨
      (escapeByte first (UInt8.ofFin n) = [92, 48 + UInt8.ofFin n / 64,
          48 + UInt8.ofFin n / 8 % 8, 48 + UInt8.ofFin n % 8] ∧
        48 ≤ 48 + UInt8.ofFin n / 64 ∧ 48 + UInt8.ofFin n / 64 ≤ 57 ∧
        octalDigit (48 + UInt8.ofFin n / 64) = some (UInt8.ofFin n / 64) ∧
        octalDigit (48 + UInt8.ofFin n / 8 % 8) = some (UInt8.ofFin n / 8 % 8) ∧
        octalDigit (48 + UInt8.ofFin n % 8) = some (UInt8.ofFin n % 8) ∧
        64 * (UInt8.ofFin n / 64) + 8 * (UInt8.ofFin n / 8 % 8) + UInt8.ofFin n % 8 =
          UInt8.ofFin n) := by
    decide +kernel
  exact h first b.toFin

theorem escapeByte_lowercase (first : Bool) (b : UInt8) :
    (escapeByte first b).map lowerByte = escapeByte first (lowerByte b) := by
  have h : ∀ (first : Bool) (n : Fin 256), (escapeByte first (UInt8.ofFin n)).map lowerByte =
      escapeByte first (lowerByte (UInt8.ofFin n)) := by
    decide +kernel
  exact h first b.toFin

theorem foldlM_escapeByte (first : Bool) (b : UInt8) (l : Label) (ls : List Label) :
    (escapeByte first b).foldlM NameReader.byte ⟨.label, l, ls⟩ =
      some ⟨.label, l ++ [b], ls⟩ := by
  rcases escapeByte_cases first b with ⟨he, hdot, hback⟩ | ⟨he, hdigit⟩ |
    ⟨he, hlo, hhi, hi, hii, hiii, hb⟩
  · rw [he]
    simp [NameReader.byte, hdot, hback]
  · rw [he]
    simp [NameReader.byte, hdigit]
  · rw [he]
    simp [NameReader.byte, hlo, hhi, hi, hii, hiii, hb]

theorem foldlM_spelling (s : Spelling) (l : Label) (ls : List Label) :
    (s.text escapeByte).foldlM NameReader.byte ⟨.label, l, ls⟩ =
      some ⟨.label, l ++ s.map Prod.snd, ls⟩ := by
  induction s generalizing l with
  | nil => rw [List.map_nil, List.append_nil]; rfl
  | cons x s ih =>
    show (escapeByte x.1 x.2 ++ Spelling.text escapeByte s).foldlM NameReader.byte _ = _
    rw [List.foldlM_append, foldlM_escapeByte]
    show (Spelling.text escapeByte s).foldlM NameReader.byte _ = _
    rw [ih, List.append_assoc]
    rfl

theorem foldlM_spelled (ss : List Spelling) (ls : List Label) :
    (spelled escapeByte ss).foldlM NameReader.byte ⟨.label, [], ls⟩ =
      some ⟨.label, [], ls ++ ss.map fun s => s.map Prod.snd⟩ := by
  induction ss generalizing ls with
  | nil => rw [List.map_nil, List.append_nil]; rfl
  | cons s ss ih =>
    show (s.text escapeByte ++ [46] ++ spelled escapeByte ss).foldlM NameReader.byte _ = _
    rw [List.append_assoc, List.foldlM_append, foldlM_spelling]
    show (spelled escapeByte ss).foldlM NameReader.byte ⟨.label, [], ls ++ [s.map Prod.snd]⟩ = _
    rw [ih, List.append_assoc]
    rfl

theorem dottedText_format : DottedFormat escapeByte dottedText where
  display := fun n => rfl
  lowercase := fun n => rfl
  esc_lowercase := escapeByte_lowercase
  fromStr := by
    intro ss hnil hdot
    have hread : readText (spelled escapeByte ss) = some (ss.map fun s => s.map Prod.snd) := by
      unfold readText
      rw [foldlM_spelled, List.nil_append]
    have hne : spelled escapeByte ss ≠ [46] := by
      intro h
      rw [h] at hread
      obtain ⟨s, rfl, hs⟩ := List.map_eq_singleton_iff.mp (Option.some.inj hread).symm
      exact hdot (congrArg (fun x => [x]) (List.map_eq_nil_iff.mp hs))
    show (if spelled escapeByte ss = [46] then some Name.root
      else (readText (spelled escapeByte ss)).bind Name.fromLabels) = _
    rw [if_neg hne, hread]
    rfl

theorem fromStr_lowerText (n : Name) :
    dottedText.fromStr (dottedText.lowerText n) = Name.fromLabels n.fold := by
  rw [dottedText_format.lowerText_eq]
  by_cases hn : n.labels = []
  · rw [if_pos hn]
    have hfold : n.fold = [] := List.map_eq_nil_iff.mpr hn
    rw [hfold]
    rfl
  · rw [if_neg hn]
    have hnil : n.fold ≠ [] := fun h => hn (List.map_eq_nil_iff.mp h)
    have hvalid : ValidLabels n.fold := validLabels_fold.mpr n.valid
    have hempty : n.fold ≠ [[]] := by
      intro h
      rw [h] at hvalid
      exact absurd (hvalid.1 [] (List.mem_singleton_self _)).1 (by decide)
    exact dottedText_format.fromStr_dotted hnil hempty

theorem lowerText_inj (a b : Name) :
    dottedText.lowerText a = dottedText.lowerText b ↔ a.fold = b.fold := by
  have hread : ∀ n : Name,
      (dottedText.fromStr (dottedText.lowerText n)).map Name.labels = some n.fold := by
    intro n
    have hvalid : ValidLabels n.fold := validLabels_fold.mpr n.valid
    rw [fromStr_lowerText, Name.fromLabels, dif_pos hvalid]
    rfl
  constructor
  · intro h
    have hlabels := hread a
    rw [h, hread b] at hlabels
    exact (Option.some.inj hlabels).symm
  · intro h
    have hnil : a.labels = [] ↔ b.labels = [] := by
      have hfold : a.fold = [] ↔ b.fold = [] := by rw [h]
      exact List.map_eq_nil_iff.symm.trans (hfold.trans List.map_eq_nil_iff)
    rw [dottedText_format.lowerText_eq, dottedText_format.lowerText_eq, h]
    exact if_congr hnil rfl rfl

/-! ## three names -/

def bangName : Name := ⟨[List.replicate 63 33], by decide +kernel⟩

theorem dnameSubstitute_www : LabelExact dottedText wwwName exampleName comName ∧
    (dnameSubstitute dottedText wwwName exampleName comName).toOption.map Name.labels =
      some [[119, 119, 119], [99, 111, 109]] := by
  refine ⟨(dnameSubstitute_iff escapeByte dottedText dottedText_format wwwName exampleName comName
    (by decide +kernel) (by decide +kernel)).mpr ?_, by decide +kernel⟩
  exact Or.inr (by decide +kernel)

/-- the root as target, escapes, and the root as owner -/
theorem dnameSubstitute_not_exact :
    ¬ LabelExact dottedText wwwName exampleName .root ∧
    ¬ LabelExact dottedText wwwName exampleName bangName ∧
    ¬ LabelExact dottedText comName .root exampleName := by
  refine ⟨fun hex => ?_, fun hex => ?_, fun hex => ?_⟩
  · have hyx : dnameSubstitute dottedText wwwName exampleName .root = .error .YXDomain := by
      decide +kernel
    exact absurd (hex.yxdomain.mp hyx) (by decide +kernel)
  · have hyx : dnameSubstitute dottedText wwwName exampleName bangName = .error .YXDomain := by
      decide +kernel
    exact absurd (hex.yxdomain.mp hyx) (by decide +kernel)
  · obtain ⟨n, hn, hfold⟩ := hex.ok (by decide +kernel)
    have hlabels : (dnameSubstitute dottedText comName .root exampleName).toOption.map Name.fold =
        some [[99, 111, 109, 101, 120, 97, 109, 112, 108, 101], [99, 111, 109]] := by
      decide +kernel
    rw [hn] at hlabels
    have hn' := Option.some.inj hlabels
    rw [hfold] at hn'
    exact absurd hn' (by decide +kernel)

end DnsResolver
