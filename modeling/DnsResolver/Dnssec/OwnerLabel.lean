import Mathlib.Data.List.TakeWhile
import DnsResolver.Dnssec.Base32
import DnsResolver.Dnssec.Nsec3Zone
import DnsResolver.Recursor.DnameText

/-!
# The owner label of an NSEC3 record (`nsec3_owner_hash`)

The label is cut out of the text of the owner name, and what it decodes to must have twenty octets.
Thirty-two letters are 160 bits; a thirty-third would be left over, and the test does not see it.

* `LabelText`                 what is asked of the text of a name;
* `nsec3OwnerHashText_eq`     the cut finds the first label, or nothing that decodes;
* `nsec3OwnerHash_eq_some`    the labels that are accepted, and their hash;
* `ownerLabel_reading_iff`    when a label is accepted rightly, and when two labels with one hash
                              are the same.
-/

namespace DnsResolver
open BitGroups

/-! ## the text of the owner name -/

def isAlphanumeric (b : UInt8) : Bool :=
  (48 ≤ b && b ≤ 57) || (65 ≤ b && b ≤ 90) || (97 ≤ b && b ≤ 122)

/-- names as texts, a dot behind each label: letters and digits stand for themselves, and a label
with any other byte shows that before its first dot -/
structure LabelText where
  names : Presentation
  label : Label → Bytes
  display : ∀ n, names.text n =
    if n.labels = [] then [46] else n.labels.flatMap fun l => label l ++ [46]
  plain : ∀ l, (∀ b ∈ l, isAlphanumeric b = true) → label l = l
  marked : ∀ l, (∃ b ∈ l, isAlphanumeric b = false) →
    ∃ x ∈ (label l).takeWhile fun c => c != 46, isAlphanumeric x = false

/-- `nsec3_owner_hash` -/
def nsec3OwnerHashText (tx : Presentation) (rec : Record) : Option Bytes :=
  match base32hexDecode (((trimDots (tx.text rec.name)).splitOn 46).headD []) with
  | none => none
  | some hash => if hash.length = 20 then some hash else none

def Record.ownerLabel (rec : Record) : Label := rec.name.labels.headD []

theorem takeWhile_append_dot (s r : Bytes) :
    (s ++ 46 :: r).takeWhile (fun c => c != 46) = s.takeWhile fun c => c != 46 := by
  induction s with
  | nil => rfl
  | cons c s ih => rw [List.cons_append, List.takeWhile_cons, List.takeWhile_cons, ih]

theorem takeWhile_trimDots (s : Bytes) :
    (trimDots s).takeWhile (fun c => c != 46) = s.takeWhile fun c => c != 46 := by
  induction s using List.reverseRecOn with
  | nil => rfl
  | append_singleton s c ih =>
    by_cases hc : c = 46
    · subst hc
      rw [trimDots_append_dot, ih, takeWhile_append_dot]
    · unfold trimDots
      rw [List.reverse_append, List.reverse_singleton, List.singleton_append,
        List.dropWhile_cons_of_neg (by simpa using hc), List.reverse_cons, List.reverse_reverse]

theorem isAlphanumeric_of_base32Val {b : UInt8} (h : isAlphanumeric b = false) :
    base32Val b = none := by
  have hall : ∀ n : Fin 256, isAlphanumeric (UInt8.ofFin n) = false →
      base32Val (UInt8.ofFin n) = none := by decide +kernel
  exact hall b.toFin h

theorem base32hexDecode_of_bad {l : Bytes} (h : ∃ b ∈ l, base32Val b = none) :
    base32hexDecode l = none := by
  obtain ⟨b, hb, hbad⟩ := h
  rw [base32hexDecode_bytes, mapM_eq_none hb hbad]
  rfl

section
variable (disp : LabelText) (rec : Record)

theorem LabelText.cut : ((trimDots (disp.names.text rec.name)).splitOn 46).headD [] =
    if rec.name.labels = [] then []
    else (disp.label rec.ownerLabel).takeWhile fun c => c != 46 := by
  obtain ⟨rest, hsplit⟩ := splitOn_takeWhile 46 (trimDots (disp.names.text rec.name))
  rw [hsplit, List.headD_cons, takeWhile_trimDots, disp.display]
  unfold Record.ownerLabel
  cases rec.name.labels with
  | nil => rfl
  | cons l ls =>
    rw [if_neg (List.cons_ne_nil l ls), if_neg (List.cons_ne_nil l ls), List.flatMap_cons,
      List.append_assoc, List.singleton_append, takeWhile_append_dot, List.headD_cons]

/-- **The cut finds the first label**, or a text that is refused like the label. -/
theorem nsec3OwnerHashText_eq : nsec3OwnerHashText disp.names rec = nsec3OwnerHash rec := by
  have hcut : base32hexDecode (((trimDots (disp.names.text rec.name)).splitOn 46).headD []) =
      base32hexDecode rec.ownerLabel := by
    rw [disp.cut rec]
    by_cases hroot : rec.name.labels = []
    · unfold Record.ownerLabel
      rw [if_pos hroot, hroot]
      rfl
    · rw [if_neg hroot]
      by_cases hmark : ∃ b ∈ rec.ownerLabel, isAlphanumeric b = false
      · obtain ⟨x, hx, hxbad⟩ := disp.marked _ hmark
        obtain ⟨b, hb, hbad⟩ := hmark
        rw [base32hexDecode_of_bad ⟨x, hx, isAlphanumeric_of_base32Val hxbad⟩,
          base32hexDecode_of_bad ⟨b, hb, isAlphanumeric_of_base32Val hbad⟩]
      · have hplain : ∀ b ∈ rec.ownerLabel, isAlphanumeric b = true := by
          intro b hb
          rw [← Bool.not_eq_false]
          exact fun hbad => hmark ⟨b, hb, hbad⟩
        rw [disp.plain _ hplain]
        refine congrArg base32hexDecode (List.takeWhile_eq_self_iff.mpr fun b hb => ?_)
        rw [bne_iff_ne]
        rintro rfl
        exact absurd (hplain 46 hb) (by decide)
  unfold nsec3OwnerHashText
  rw [hcut]
  rfl

end

/-! ## letters -/

def IsLetter (b : UInt8) : Prop := base32Val b ≠ none

def letterBits (l : Bytes) : List Bool := l.flatMap fun b => word 5 ((base32Val b).getD 0).toNat

theorem length_letterBits (l : Bytes) : (letterBits l).length = 5 * l.length :=
  length_flatMap_word 5 _ l

theorem letterBits_append (l l' : Bytes) :
    letterBits (l ++ l') = letterBits l ++ letterBits l' := List.flatMap_append

theorem base32hexDecode_letters {l : Bytes} (h : ∀ b ∈ l, IsLetter b) :
    base32hexDecode l = some (octets (letterBits l)) := by
  have hvals : l.mapM base32Val = some (l.map fun b => (base32Val b).getD 0) := by
    rw [mapM_eq_some_iff, List.map_map]
    refine List.map_congr_left fun b hb => ?_
    obtain ⟨v, hv⟩ := Option.ne_none_iff_exists'.mp (h b hb)
    show base32Val b = some ((base32Val b).getD 0)
    rw [hv]
    rfl
  rw [base32hexDecode_bytes, hvals, Option.map_some, List.flatMap_map]
  rfl

theorem lowerByte_of_base32Val {a b : UInt8} (ha : IsLetter a)
    (h : base32Val a = base32Val b) : lowerByte a = lowerByte b := by
  have hall : ∀ n : Fin 256, IsLetter (UInt8.ofFin n) → lowerByte (UInt8.ofFin n) =
      if (base32Val (UInt8.ofFin n)).getD 0 < 10 then
        ((base32Val (UInt8.ofFin n)).getD 0).toUInt8 + 48
      else ((base32Val (UInt8.ofFin n)).getD 0).toUInt8 + 87 := by
    unfold IsLetter
    decide +kernel
  have hb : IsLetter b := by
    unfold IsLetter at ha ⊢
    rwa [← h]
  rw [show lowerByte a = _ from hall a.toFin ha, show lowerByte b = _ from hall b.toFin hb]
  show (if (base32Val a).getD 0 < 10 then _ else _) = if (base32Val b).getD 0 < 10 then _ else _
  rw [show UInt8.ofFin a.toFin = a from rfl, show UInt8.ofFin b.toFin = b from rfl, h]

theorem letterBits_inj {l l' : Bytes} (h : ∀ b ∈ l, IsLetter b) (h' : ∀ b ∈ l', IsLetter b) :
    letterBits l = letterBits l' ↔ foldLabel l = foldLabel l' := by
  constructor
  · intro heq
    induction l generalizing l' with
    | nil =>
      have hlen := congrArg List.length heq
      rw [length_letterBits, length_letterBits, List.length_nil] at hlen
      rw [List.length_eq_zero_iff.mp (show l'.length = 0 by omega)]
    | cons a l ih =>
      cases l' with
      | nil =>
        have hlen := congrArg List.length heq
        rw [length_letterBits, length_letterBits, List.length_nil, List.length_cons] at hlen
        omega
      | cons b l' =>
        have ha := h a List.mem_cons_self
        obtain ⟨v, hv⟩ := Option.ne_none_iff_exists'.mp ha
        obtain ⟨w, hw⟩ := Option.ne_none_iff_exists'.mp (h' b List.mem_cons_self)
        have hcons : ∀ (x : UInt8) (r : Bytes), letterBits (x :: r) =
            word 5 ((base32Val x).getD 0).toNat ++ letterBits r := fun x r => rfl
        rw [hcons, hcons] at heq
        have hparts := List.append_inj heq (by rw [length_word, length_word])
        have hvalue := congrArg value hparts.1
        rw [hv, hw, Option.getD_some, Option.getD_some, value_word (base32Val_lt hv),
          value_word (base32Val_lt hw)] at hvalue
        have hval : base32Val a = base32Val b := by
          rw [hv, hw, UInt64.toNat_inj.mp hvalue]
        show lowerByte a :: foldLabel l = lowerByte b :: foldLabel l'
        rw [lowerByte_of_base32Val ha hval,
          ih (fun x hx => h x (List.mem_cons_of_mem a hx))
            (fun x hx => h' x (List.mem_cons_of_mem b hx)) hparts.2]
  · intro heq
    have hfold : ∀ l : Bytes, letterBits l = letterBits (foldLabel l) := by
      intro l
      unfold letterBits foldLabel
      rw [List.flatMap_map]
      exact List.flatMap_congr fun b _ => by rw [base32Val_lower]
    rw [hfold l, hfold l', heq]

theorem flatMap_word_octets {bs : List Bool} (h : 8 ∣ bs.length) :
    (octets bs).flatMap (fun x => word 8 x.toNat) = bs := by
  have hback := flatMap_word_blocks (by omega) bs h
  rw [List.flatMap_map] at hback
  rw [octets, List.flatMap_map]
  refine Eq.trans (List.flatMap_congr fun g hg => ?_) hback
  have hlt := value_lt g
  rw [length_of_mem_blocks hg] at hlt
  show word 8 (UInt8.ofNat (value g)).toNat = word 8 (value g)
  rw [UInt8.toNat_ofNat_of_lt' hlt]

theorem octets_append {bs r : List Bool} (h : 8 ∣ bs.length) (hr : r.length < 8) :
    octets (bs ++ r) = octets bs := by
  have hgroups := blocks_flatten (L := blocks 8 bs) (fun a ha => length_of_mem_blocks ha) hr
  rw [flatten_blocks (by omega) bs h] at hgroups
  rw [octets, octets, hgroups]

theorem length_octets (bs : List Bool) : (octets bs).length = bs.length / 8 := by
  rw [octets, List.length_map, blocks, List.length_map, List.length_range]

theorem letters_of_foldLabel {l l' : Label} (h : foldLabel l = foldLabel l')
    (hl : ∀ b ∈ l, IsLetter b) : ∀ b ∈ l', IsLetter b := by
  intro b hb
  have hmem : lowerByte b ∈ foldLabel l := by
    rw [h]
    exact List.mem_map.mpr ⟨b, hb, rfl⟩
  obtain ⟨a, ha, hab⟩ := List.mem_map.mp hmem
  unfold IsLetter
  rw [← base32Val_lower, ← hab, base32Val_lower]
  exact hl a ha

/-! ## the labels that are accepted -/

/-- thirty-two letters, or one more -/
structure Hashlike (l : Label) : Prop where
  length : l.length = 32 ∨ l.length = 33
  letters : ∀ b ∈ l, IsLetter b

def Overlong (l : Label) : Prop := l.length = 33 ∧ ∀ b ∈ l, IsLetter b

theorem Hashlike.length_take {l : Label} (h : Hashlike l) : (l.take 32).length = 32 := by
  have hlen := h.length
  rw [List.length_take]
  omega

theorem Hashlike.letters_take {l : Label} (h : Hashlike l) : ∀ b ∈ l.take 32, IsLetter b :=
  fun b hb => h.letters b (List.mem_of_mem_take hb)

theorem Hashlike.dvd_letterBits {l : Label} (h : Hashlike l) :
    8 ∣ (letterBits (l.take 32)).length := by
  rw [length_letterBits, h.length_take]
  omega

theorem Hashlike.word_octets {l : Label} (h : Hashlike l) :
    (octets (letterBits (l.take 32))).flatMap (fun x => word 8 x.toNat) = letterBits (l.take 32) :=
  flatMap_word_octets h.dvd_letterBits

theorem Hashlike.decode {l : Label} (h : Hashlike l) :
    base32hexDecode l = some (octets (letterBits (l.take 32))) := by
  have hlen := h.length
  have htake := h.dvd_letterBits
  have hdrop : (letterBits (l.drop 32)).length < 8 := by
    rw [length_letterBits, List.length_drop]
    omega
  rw [base32hexDecode_letters h.letters, ← octets_append htake hdrop, ← letterBits_append,
    List.take_append_drop]

/-- **What is accepted**: the hash is in the first thirty-two letters. -/
theorem nsec3OwnerHash_eq_some {rec : Record} {h : Bytes} :
    nsec3OwnerHash rec = some h ↔ Hashlike rec.ownerLabel ∧
      letterBits (rec.ownerLabel.take 32) = h.flatMap fun x => word 8 x.toNat := by
  unfold nsec3OwnerHash
  rw [← Record.ownerLabel]
  generalize rec.ownerLabel = l
  by_cases hlike : Hashlike l
  · have htake := length_letterBits (l.take 32)
    rw [hlike.length_take] at htake
    have h20 : (octets (letterBits (l.take 32))).length = 20 := by
      rw [length_octets, htake]
    rw [hlike.decode]
    dsimp only
    rw [if_pos h20, Option.some_inj]
    constructor
    · intro hoctets
      rw [← hoctets, hlike.word_octets]
      exact ⟨hlike, rfl⟩
    · rintro ⟨_, hbits⟩
      have hback := blocks_octets h (r := []) (by rw [List.length_nil]; omega)
      rw [List.append_nil, ← hbits] at hback
      exact hback
  · refine iff_of_false ?_ fun hboth => hlike hboth.1
    by_cases hl : ∀ b ∈ l, IsLetter b
    · have h20 : (octets (letterBits l)).length ≠ 20 := by
        intro heq
        rw [length_octets, length_letterBits] at heq
        exact hlike ⟨by omega, hl⟩
      rw [base32hexDecode_letters hl]
      dsimp only
      rw [if_neg h20]
      exact Option.some_ne_none h ∘ Eq.symm
    · have hbad : ∃ b ∈ l, base32Val b = none := by
        obtain ⟨b, hb⟩ := not_forall.mp hl
        obtain ⟨hmem, hnot⟩ := Classical.not_imp.mp hb
        exact ⟨b, hmem, not_not.mp hnot⟩
      rw [base32hexDecode_of_bad hbad]
      exact Option.some_ne_none h ∘ Eq.symm

/-! ## the text of a hash -/

/-- the base32hex text of `h`, up to case -/
def HashText (h : Bytes) (l : Label) : Prop := foldLabel l = foldLabel (utf8 (base32hexEncode h))

instance (h : Bytes) (l : Label) : Decidable (HashText h l) :=
  inferInstanceAs (Decidable (foldLabel l = foldLabel (utf8 (base32hexEncode h))))

theorem alphabet_byte {v : Nat} (h : v < 32) :
    ∃ b, String.utf8EncodeChar (alphabet.getD v '0') = [b] ∧ base32Val b = some v.toUInt64 := by
  have hall : ∀ i : Fin 32, String.utf8EncodeChar (alphabet.getD i '0') =
      [UInt8.ofNat (alphabet.getD i '0').toNat] ∧
      base32Val (UInt8.ofNat (alphabet.getD i '0').toNat) = some i.val.toUInt64 := by
    decide
  exact ⟨_, hall ⟨v, h⟩⟩

theorem symbols_letters (gs : List (List Bool)) (hgs : ∀ g ∈ gs, g.length = 5) :
    (∀ b ∈ utf8 (gs.map fun g => alphabet.getD (value g) '0'), IsLetter b) ∧
      letterBits (utf8 (gs.map fun g => alphabet.getD (value g) '0')) = gs.flatten := by
  induction gs with
  | nil => exact ⟨fun b hb => absurd hb List.not_mem_nil, rfl⟩
  | cons g gs ih =>
    have hg := hgs g List.mem_cons_self
    obtain ⟨hletters, hbits⟩ := ih fun a ha => hgs a (List.mem_cons_of_mem g ha)
    have hlt := value_lt g
    rw [hg] at hlt
    obtain ⟨b, hb, hval⟩ := alphabet_byte hlt
    have hcons : utf8 ((g :: gs).map fun g => alphabet.getD (value g) '0') =
        b :: utf8 (gs.map fun g => alphabet.getD (value g) '0') := by
      show String.utf8EncodeChar (alphabet.getD (value g) '0') ++ _ = _
      rw [hb]
      rfl
    rw [hcons]
    constructor
    · intro x hx
      rcases List.mem_cons.mp hx with rfl | hx
      · unfold IsLetter
        rw [hval]
        exact Option.some_ne_none _
      · exact hletters x hx
    · have hword := word_value g
      rw [hg] at hword
      show word 5 ((base32Val b).getD 0).toNat ++ letterBits _ = _
      rw [hbits, hval, Option.getD_some, List.flatten_cons,
        show (value g).toUInt64.toNat = value g from
          UInt64.toNat_ofNat_of_lt' (Nat.lt_trans hlt (by decide)), hword]

theorem base32hexEncode_letters {h : Bytes} (h20 : h.length = 20) :
    (∀ b ∈ utf8 (base32hexEncode h), IsLetter b) ∧
      letterBits (utf8 (base32hexEncode h)) = h.flatMap fun x => word 8 x.toNat := by
  have hlen := length_flatMap_word 8 UInt8.toNat h
  have hpad : pad 5 (h.flatMap fun x => word 8 x.toNat) = h.flatMap fun x => word 8 x.toNat := by
    rw [pad, hlen, h20]
    exact List.append_nil _
  have hsymbols := symbols_letters (blocks 5 (h.flatMap fun x => word 8 x.toNat))
    fun g hg => length_of_mem_blocks hg
  rw [flatten_blocks (by omega) _ (by rw [hlen, h20]; omega)] at hsymbols
  unfold base32hexEncode
  rw [hpad]
  exact hsymbols

theorem hashText_iff {h : Bytes} {l : Label} (h20 : h.length = 20) :
    HashText h l ↔ (l.length = 32 ∧ ∀ b ∈ l, IsLetter b) ∧
      letterBits l = h.flatMap fun x => word 8 x.toNat := by
  obtain ⟨hletters, hbits⟩ := base32hexEncode_letters h20
  constructor
  · intro htext
    have hl := letters_of_foldLabel htext.symm hletters
    have heq := (letterBits_inj hl hletters).mpr htext
    have hlen := congrArg List.length (heq.trans hbits)
    rw [length_letterBits, length_flatMap_word, h20] at hlen
    exact ⟨⟨by omega, hl⟩, heq.trans hbits⟩
  · rintro ⟨⟨_, hl⟩, heq⟩
    exact (letterBits_inj hl hletters).mp (heq.trans hbits.symm)

/-- what the owner label of a record should say -/
def ExactOwner (tx : Presentation) (rec : Record) : Prop :=
  ∀ h, nsec3OwnerHashText tx rec = some h ↔ h.length = 20 ∧ HashText h rec.ownerLabel

def OneReading (tx : Presentation) (r r' : Record) : Prop :=
  ∀ h, nsec3OwnerHashText tx r = some h → nsec3OwnerHashText tx r' = some h →
    foldLabel r.ownerLabel = foldLabel r'.ownerLabel

/-- two labels with the same thirty-two letters, and only one of them or both with another -/
structure Ambiguous (l l' : Label) : Prop where
  left : Hashlike l
  right : Hashlike l'
  same : foldLabel (l.take 32) = foldLabel (l'.take 32)
  differ : foldLabel (l.drop 32) ≠ foldLabel (l'.drop 32)

section
variable (disp : LabelText) (r r' : Record)

theorem exactOwner_iff : ExactOwner disp.names r ↔ ¬ Overlong r.ownerLabel := by
  unfold ExactOwner
  rw [nsec3OwnerHashText_eq]
  constructor
  · -- the first thirty-two letters have a hash, and its text has no more
    rintro hexact ⟨hlen, hl⟩
    have hlike : Hashlike r.ownerLabel := ⟨Or.inr hlen, hl⟩
    have hsome := nsec3OwnerHash_eq_some.mpr ⟨hlike, hlike.word_octets.symm⟩
    obtain ⟨h20, htext⟩ := (hexact _).mp hsome
    have h32 := ((hashText_iff h20).mp htext).1.1
    omega
  · intro hshort h
    rw [nsec3OwnerHash_eq_some]
    constructor
    · rintro ⟨hlike, hbits⟩
      have h32 : r.ownerLabel.length = 32 :=
        hlike.length.resolve_right fun hlen => hshort ⟨hlen, hlike.letters⟩
      rw [List.take_of_length_le (by omega)] at hbits
      have hlen := congrArg List.length hbits
      rw [length_letterBits, length_flatMap_word] at hlen
      have h20 : h.length = 20 := by omega
      exact ⟨h20, (hashText_iff h20).mpr ⟨⟨h32, hlike.letters⟩, hbits⟩⟩
    · rintro ⟨h20, htext⟩
      obtain ⟨⟨h32, hl⟩, hbits⟩ := (hashText_iff h20).mp htext
      rw [List.take_of_length_le (by omega)]
      exact ⟨⟨Or.inl h32, hl⟩, hbits⟩

theorem foldLabel_eq_iff_parts {l l' : Label} (h : (l.take 32).length = (l'.take 32).length) :
    foldLabel l = foldLabel l' ↔ foldLabel (l.take 32) = foldLabel (l'.take 32) ∧
      foldLabel (l.drop 32) = foldLabel (l'.drop 32) := by
  have hcut : ∀ l : Label, foldLabel l = foldLabel (l.take 32) ++ foldLabel (l.drop 32) := by
    intro l
    unfold foldLabel
    rw [← List.map_append, List.take_append_drop]
  rw [hcut l, hcut l']
  refine List.append_eq_append_iff_of_size_eq_left ?_
  unfold foldLabel
  rw [List.length_map, List.length_map, h]

theorem oneReading_iff : OneReading disp.names r r' ↔ ¬ Ambiguous r.ownerLabel r'.ownerLabel := by
  unfold OneReading
  rw [nsec3OwnerHashText_eq, nsec3OwnerHashText_eq]
  constructor
  · rintro hone ⟨hleft, hright, hsame, hdiffer⟩
    have hbits := (letterBits_inj hleft.letters_take hright.letters_take).mpr hsame
    have hfold := hone _ (nsec3OwnerHash_eq_some.mpr ⟨hleft, hleft.word_octets.symm⟩)
      (nsec3OwnerHash_eq_some.mpr ⟨hright, hbits.symm.trans hleft.word_octets.symm⟩)
    have hlen := hleft.length_take.trans hright.length_take.symm
    exact hdiffer ((foldLabel_eq_iff_parts hlen).mp hfold).2
  · intro hclear h hsome hsome'
    obtain ⟨hleft, hbits⟩ := nsec3OwnerHash_eq_some.mp hsome
    obtain ⟨hright, hbits'⟩ := nsec3OwnerHash_eq_some.mp hsome'
    have hsame := (letterBits_inj hleft.letters_take hright.letters_take).mp
      (hbits.trans hbits'.symm)
    have hlen := hleft.length_take.trans hright.length_take.symm
    rw [foldLabel_eq_iff_parts hlen]
    exact ⟨hsame, not_not.mp fun hdiffer => hclear ⟨hleft, hright, hsame, hdiffer⟩⟩

/-- **A label has one reading** exactly if it is not of thirty-three letters, and two labels with
one hash are the same up to case exactly if they do not differ in a thirty-third letter. -/
theorem ownerLabel_reading_iff :
    (ExactOwner disp.names r ↔ ¬ Overlong r.ownerLabel) ∧
      (OneReading disp.names r r' ↔ ¬ Ambiguous r.ownerLabel r'.ownerLabel) :=
  ⟨exactOwner_iff disp r, oneReading_iff disp r r'⟩

end

/-! ## hickory's names -/

theorem escapeByte_alphanumeric {b : UInt8} (first : Bool) (h : isAlphanumeric b = true) :
    escapeByte first b = [b] := by
  have hsafe : isSafeAscii first b = true := by
    show (isAlphanumeric b || b == 95 || b == 45 && !first || b == 42 && first) = true
    rw [h]
    rfl
  rw [escapeByte, if_pos hsafe]

theorem escapeByte_other {b : UInt8} (first : Bool) (h : isAlphanumeric b = false) :
    ∃ x xs, escapeByte first b = x :: xs ∧ x ≠ 46 ∧ isAlphanumeric x = false := by
  rcases escapeByte_cases first b with ⟨he, hdot, _⟩ | ⟨he, _⟩ | ⟨he, _⟩
  · exact ⟨b, [], he, hdot, h⟩
  · exact ⟨92, _, he, by decide, by decide⟩
  · exact ⟨92, _, he, by decide, by decide⟩

theorem text_alphanumeric {s : Spelling} (h : ∀ x ∈ s, isAlphanumeric x.2 = true) :
    s.text escapeByte = s.map Prod.snd := by
  induction s with
  | nil => rfl
  | cons x s ih =>
    show escapeByte x.1 x.2 ++ Spelling.text escapeByte s = x.2 :: s.map Prod.snd
    rw [escapeByte_alphanumeric x.1 (h x List.mem_cons_self),
      ih fun y hy => h y (List.mem_cons_of_mem x hy)]
    rfl

theorem text_other {s : Spelling} (h : ∃ x ∈ s, isAlphanumeric x.2 = false) :
    ∃ b ∈ (s.text escapeByte).takeWhile fun c => c != 46, isAlphanumeric b = false := by
  induction s with
  | nil =>
    obtain ⟨x, hx, _⟩ := h
    exact absurd hx List.not_mem_nil
  | cons x s ih =>
    have htext : Spelling.text escapeByte (x :: s) =
        escapeByte x.1 x.2 ++ Spelling.text escapeByte s := rfl
    rw [htext]
    by_cases hx : isAlphanumeric x.2 = true
    · have hrest : ∃ y ∈ s, isAlphanumeric y.2 = false := by
        obtain ⟨y, hy, hbad⟩ := h
        rcases List.mem_cons.mp hy with rfl | hy
        · rw [hx] at hbad
          cases hbad
        · exact ⟨y, hy, hbad⟩
      obtain ⟨b, hb, hbad⟩ := ih hrest
      have hdot : (x.2 != 46) = true := by
        rw [bne_iff_ne]
        intro he
        rw [he] at hx
        exact absurd hx (by decide)
      rw [escapeByte_alphanumeric x.1 hx, List.singleton_append, List.takeWhile_cons, if_pos hdot]
      exact ⟨b, List.mem_cons_of_mem x.2 hb, hbad⟩
    · obtain ⟨b, bs, he, hdot, hbad⟩ := escapeByte_other x.1 (Bool.not_eq_true _ ▸ hx)
      rw [he, List.cons_append, List.takeWhile_cons, if_pos (bne_iff_ne.mpr hdot)]
      exact ⟨b, List.mem_cons_self, hbad⟩

theorem mem_spell {l : Label} {b : UInt8} : b ∈ l ↔ ∃ x ∈ spell l, x.2 = b := by
  rw [← List.mem_map, spell_snd]

def hickoryNames : LabelText where
  names := dottedText
  label := fun l => (spell l).text escapeByte
  display := by
    intro n
    show (if n.labels = [] then [46] else (n.labels.map spell).flatMap _) = _
    rw [List.flatMap_map]
  plain := by
    intro l h
    rw [text_alphanumeric fun x hx => h x.2 (mem_spell.mpr ⟨x, hx, rfl⟩), spell_snd]
  marked := by
    rintro l ⟨b, hb, hbad⟩
    obtain ⟨x, hx, rfl⟩ := mem_spell.mp hb
    exact text_other ⟨x, hx, hbad⟩

/-- The label of the root's own record is read exactly. -/
theorem ownerLabel_reading_apex :
    ExactOwner hickoryNames.names (rootNsec3 apexOwner hashRoot [.NS, .SOA]) ∧
      OneReading hickoryNames.names (rootNsec3 apexOwner hashRoot [.NS, .SOA])
        (rootNsec3 wildOwner hashRoot [.A]) := by
  have h := ownerLabel_reading_iff hickoryNames (rootNsec3 apexOwner hashRoot [.NS, .SOA])
    (rootNsec3 wildOwner hashRoot [.A])
  have hlen : (rootNsec3 apexOwner hashRoot [.NS, .SOA]).ownerLabel.length = 32 ∧
      (rootNsec3 wildOwner hashRoot [.A]).ownerLabel.length = 32 := by decide +kernel
  constructor
  · refine h.1.mpr fun hlong => ?_
    have h33 := hlong.1
    omega
  · refine h.2.mpr fun hboth => hboth.differ ?_
    rw [List.drop_of_length_le (by omega), List.drop_of_length_le (by omega)]

/-! ## a label with a letter too many -/

/-- the label of `apexOwner` and a zero -/
def longOwner : Name := tld (ascii "bekjp7dgpvsjukll47bk43i3urmq4u2f0") (by decide +kernel)

/-- Both labels are taken for the hash of the root. -/
theorem longOwner_ambiguous :
    ¬ ExactOwner hickoryNames.names (rootNsec3 longOwner hashRoot [.A]) ∧
      ¬ OneReading hickoryNames.names (rootNsec3 apexOwner hashRoot [.NS, .SOA])
        (rootNsec3 longOwner hashRoot [.A]) := by
  have hlong : nsec3OwnerHashText hickoryNames.names (rootNsec3 longOwner hashRoot [.A]) =
      some hashRoot := by decide +kernel
  have hapex : nsec3OwnerHashText hickoryNames.names (rootNsec3 apexOwner hashRoot [.NS, .SOA]) =
      some hashRoot := by decide +kernel
  constructor
  · intro hexact
    have htext := ((hexact hashRoot).mp hlong).2
    revert htext
    decide +kernel
  · intro hone
    have hfold := hone hashRoot hapex hlong
    revert hfold
    decide +kernel

end DnsResolver
