import Mathlib.Data.List.TakeWhile
import DnsResolver.Transports.DnsRequest

/-!
# The `dns` parameter as a text

What a value spells, and how the two readings of one field differ.

* `letters_of_decode`   what a value spells is in its letters: padding and white space around it
                        do not matter;
* `message_eq_iff`      one field read as a form and read bare.
-/

namespace DnsResolver

/-! ## white space around a text -/

/-- what `trim` takes off at the end -/
theorem dropWhile_eq_trim (t : Text) : ∃ r, t.dropWhile isWhitespace = trim t ++ r ∧
    ∀ c ∈ r, isWhitespace c = true := by
  refine ⟨((t.dropWhile isWhitespace).reverse.takeWhile isWhitespace).reverse, ?_, ?_⟩
  · rw [trim, ← List.reverse_append, List.takeWhile_append_dropWhile, List.reverse_reverse]
  · intro c hc
    exact List.mem_takeWhile_imp (List.mem_reverse.mp hc)

theorem head_dropWhile {t : Text} {c : Char} (h : (t.dropWhile isWhitespace).head? = some c) :
    isWhitespace c = false := by
  have hnot := List.head?_dropWhile_not isWhitespace t
  rw [h] at hnot
  exact hnot

theorem dropWhile_of_head {t : Text} (h : ∀ c, t.head? = some c → isWhitespace c = false) :
    t.dropWhile isWhitespace = t := by
  cases t with
  | nil => rfl
  | cons c t => rw [List.dropWhile_cons, h c rfl, if_neg Bool.false_ne_true]

theorem trim_trim (t : Text) : trim (trim t) = trim t := by
  obtain ⟨r, hr, -⟩ := dropWhile_eq_trim t
  have hhead : ∀ c, (trim t).head? = some c → isWhitespace c = false := by
    intro c hc
    apply head_dropWhile (t := t)
    rw [hr, List.head?_append, hc]
    rfl
  have hlast : ∀ c, (trim t).reverse.head? = some c → isWhitespace c = false := by
    intro c hc
    rw [trim, List.reverse_reverse] at hc
    exact head_dropWhile hc
  conv_lhs => rw [trim, dropWhile_of_head hhead, dropWhile_of_head hlast, List.reverse_reverse]

theorem prefix_trim {p t : Text} (hp : p ≠ []) (hhead : ∀ c, p.head? = some c → isWhitespace c = false)
    (hlast : ∀ c, p.getLast? = some c → isWhitespace c = false) (h : p <+: t) : p <+: trim t := by
  obtain ⟨s, rfl⟩ := h
  obtain ⟨r, hr, hspace⟩ := dropWhile_eq_trim (p ++ s)
  have hfront : ∀ c, (p ++ s).head? = some c → isWhitespace c = false := by
    intro c hc
    apply hhead
    rwa [List.head?_append_of_ne_nil _ hp] at hc
  rw [dropWhile_of_head hfront] at hr
  rcases List.append_eq_append_iff.mp hr with ⟨a, ha, -⟩ | ⟨a, ha, hra⟩
  · rw [ha]
    exact List.prefix_append p a
  · -- what would be cut off is white space, and the prefix does not end in white space
    cases ha' : a.getLast? with
    | none =>
      rw [List.getLast?_eq_none_iff.mp ha', List.append_nil] at ha
      exact ⟨[], by rw [List.append_nil]; exact ha⟩
    | some c =>
      have hc : isWhitespace c = true := by
        apply hspace
        rw [hra]
        exact List.mem_append_left _ (List.mem_of_getLast? ha')
      have hend := hlast c (by rw [ha, List.getLast?_append, ha']; rfl)
      rw [hend] at hc
      cases hc

theorem filter_whitespace {r : Text} (h : ∀ c ∈ r, isWhitespace c = true) :
    (r.filter fun c => !isWhitespace c) = [] := by
  rw [List.filter_eq_nil_iff]
  intro c hc
  rw [h c hc]
  exact Bool.false_ne_true

/-- the letters before the padding do not depend on white space around the text -/
theorem filter_takeWhile_trim (t : Text) :
    ((trim t).takeWhile fun c => c != '=').filter (fun c => !isWhitespace c) =
      (t.takeWhile fun c => c != '=').filter fun c => !isWhitespace c := by
  obtain ⟨r, hr, hspace⟩ := dropWhile_eq_trim t
  have hfront : ∀ c ∈ t.takeWhile isWhitespace, (c != '=') = true := by
    intro c hc
    rw [bne_iff_ne]
    rintro rfl
    exact absurd (List.mem_takeWhile_imp hc) (by decide)
  have hrest : ∀ c ∈ r.takeWhile fun c => c != '=', isWhitespace c = true :=
    fun c hc => hspace c ((List.takeWhile_prefix _).subset hc)
  calc ((trim t).takeWhile fun c => c != '=').filter (fun c => !isWhitespace c)
      = ((trim t ++ r).takeWhile fun c => c != '=').filter fun c => !isWhitespace c := by
        rw [List.takeWhile_append]
        split
        · rename_i hall
          rw [List.filter_append, filter_whitespace hrest, List.append_nil,
            (List.takeWhile_prefix _).eq_of_length hall]
        · rfl
    _ = ((t.takeWhile isWhitespace ++ t.dropWhile isWhitespace).takeWhile fun c =>
          c != '=').filter fun c => !isWhitespace c := by
        rw [← hr, List.takeWhile_append_of_pos hfront, List.filter_append,
          filter_whitespace fun c hc => List.mem_takeWhile_imp hc, List.nil_append]
    _ = _ := by rw [List.takeWhile_append_dropWhile]

theorem ne_pad_of_notMem {t : Text} (h : '=' ∉ t) : ∀ c ∈ t, (c != '=') = true := by
  intro c hc
  rw [bne_iff_ne]
  rintro rfl
  exact h hc

theorem takeWhile_append_pad {k : Text} (h : '=' ∉ k) (x : Text) :
    ((k ++ '=' :: x).takeWhile fun c => c != '=') = k := by
  rw [List.takeWhile_append_of_pos (ne_pad_of_notMem h), List.takeWhile_cons, if_neg (by decide),
    List.append_nil]

theorem dropWhile_append_pad {k : Text} (h : '=' ∉ k) (x : Text) :
    ((k ++ '=' :: x).dropWhile fun c => c != '=') = '=' :: x := by
  rw [List.dropWhile_append_of_pos (ne_pad_of_notMem h), List.dropWhile_cons, if_neg (by decide)]

theorem takeWhile_of_notMem {t : Text} (h : '=' ∉ t) : (t.takeWhile fun c => c != '=') = t :=
  List.takeWhile_eq_self_iff.mpr (ne_pad_of_notMem h)

/-! ## what a value spells -/

section
variable {engine : Base64Engine}

theorem lossy_utf8 (s : Text) : FormText.lossy (utf8 s) = s := by
  have h := FormText.lossy_encode s []
  rw [List.append_nil] at h
  exact h.trans (List.append_nil s)

theorem utf8_injective {s t : Text} (h : utf8 s = utf8 t) : s = t := by
  rw [← lossy_utf8 s, h, lossy_utf8]

theorem urlChar_eq_pad (c : Char) : (urlChar c != '=') = (c != '=') := by
  unfold urlChar
  split
  · rename_i h
    rw [h]
    rfl
  · split
    · rename_i h
      rw [h]
      rfl
    · rfl

theorem letter_of_urlChar {c : Char} (h : urlChar c ∈ Base64.alphabet) :
    isWhitespace c = false ∧ c ≠ '%' := by
  have hall : (Base64.alphabet.all fun x => decide (isWhitespace x = false ∧ x ≠ '%')) = true := by
    decide +kernel
  unfold urlChar at h
  split at h
  · rename_i hc
    rw [hc]
    decide
  · split at h
    · rename_i hc
      rw [hc]
      decide
    · exact of_decide_eq_true (List.all_eq_true.mp hall c h)

/-- **What a value spells is in its letters**: the message has the letters of the text before the
padding, white space apart. -/
theorem letters_of_decode {t : Text} {b : Bytes} (h : decodeDnsParam engine t = some b) :
    Base64.letters b =
      ((t.takeWhile fun c => c != '=').filter fun c => !isWhitespace c).map urlChar := by
  have htext := utf8_injective (engine.decode_eq_some.mp h)
  have hletters : Base64.letters b = ((trim t).takeWhile fun c => c != '=').map urlChar := by
    rw [← Base64.takeWhile_text, ← htext, List.takeWhile_append,
      Base64.takeWhile_replicate_pad, List.append_nil]
    have hmap : (((trim t).map urlChar).takeWhile fun c => c != '=') =
        ((trim t).takeWhile fun c => c != '=').map urlChar := by
      rw [List.takeWhile_map]
      congr 2
      funext c
      exact urlChar_eq_pad c
    split
    · rename_i hall
      rw [← (List.takeWhile_prefix _).eq_of_length hall, hmap]
    · exact hmap
  have hspace : ∀ c ∈ (trim t).takeWhile fun c => c != '=', (!isWhitespace c) = true := by
    intro c hc
    have hmem : urlChar c ∈ Base64.letters b := by
      rw [hletters]
      exact List.mem_map_of_mem hc
    rw [(letter_of_urlChar (Base64.mem_alphabet_of_mem_letters hmem)).1]
    rfl
  rw [← filter_takeWhile_trim, List.filter_eq_self.mpr hspace, hletters]

theorem length_of_decode {t : Text} {b : Bytes} (h : decodeDnsParam engine t = some b)
    (ht : '=' ∉ t) : b.length ≤ maxDohPayload ↔ (t.filter fun c => !isWhitespace c).length ≤ 5462 := by
  have hlen := congrArg List.length (letters_of_decode h)
  rw [List.length_map, Base64.length_letters, takeWhile_of_notMem ht] at hlen
  rw [← hlen]
  unfold maxDohPayload
  omega

/-! ## one field, read as a form and bare -/

theorem percent_notMem {w : Text} {b : Bytes} (h : decodeDnsParam engine w = some b)
    (hw : '=' ∉ w) : '%' ∉ w := by
  intro hmem
  have hin : urlChar '%' ∈ Base64.letters b := by
    rw [letters_of_decode h, takeWhile_of_notMem hw]
    exact List.mem_map_of_mem (List.mem_filter.mpr ⟨hmem, by decide⟩)
  exact (letter_of_urlChar (Base64.mem_alphabet_of_mem_letters hin)).2 rfl

theorem filter_plusToSpace (w : Text) :
    ((w.map FormText.plusToSpace).filter fun c => !isWhitespace c) =
      (w.filter fun c => !isWhitespace c).filter fun c => c != '+' := by
  induction w with
  | nil => rfl
  | cons c w ih =>
    rw [List.map_cons]
    by_cases hc : c = '+'
    · rw [hc]
      exact ih
    · have hsame : FormText.plusToSpace c = c := if_neg hc
      rw [hsame, List.filter_cons, List.filter_cons, ih]
      split
      · rw [List.filter_cons, if_pos (bne_iff_ne.mpr hc)]
      · rfl

theorem takeWhile_decode {x : Text} (h : '%' ∉ x.takeWhile fun c => c != '=') :
    ((FormText.decode x).takeWhile fun c => c != '=') =
      (x.takeWhile fun c => c != '=').map FormText.plusToSpace := by
  have hfront : ∀ c ∈ (x.takeWhile fun c => c != '=').map FormText.plusToSpace,
      (c != '=') = true := by
    intro c hc
    obtain ⟨d, hd, rfl⟩ := List.mem_map.mp hc
    have hne := List.mem_takeWhile_imp hd
    unfold FormText.plusToSpace
    split
    · decide
    · exact hne
  have hrest : ((FormText.decode (x.dropWhile fun c => c != '=')).takeWhile fun c => c != '=') =
      [] := by
    cases hx : x.dropWhile fun c => c != '=' with
    | nil => rfl
    | cons c y =>
      have hhead := List.head?_dropWhile_not (fun c => c != '=') x
      rw [hx] at hhead
      obtain rfl : c = '=' := by
        by_contra hne
        exact absurd (bne_iff_ne.mpr hne) (by rw [hhead]; exact Bool.false_ne_true)
      rw [← List.singleton_append, FormText.decode_append (by decide)]
      rfl
  rw [← List.takeWhile_append_dropWhile (p := fun c => c != '=') (l := x),
    FormText.decode_append h, List.takeWhile_append_of_pos hfront, hrest,
    List.takeWhile_append_dropWhile, List.append_nil]

/-- **One field, read as a form and bare.**  If both readings spell a message, it is the same one
exactly if no `+` was read as a space. -/
theorem message_eq_iff {x : Text} {b c : Bytes}
    (hb : decodeDnsParam engine (x.takeWhile fun c => c != '=') = some b)
    (hc : decodeDnsParam engine (FormText.decode x) = some c) :
    c = b ↔ '+' ∉ x.takeWhile fun c => c != '=' := by
  have hw : '=' ∉ x.takeWhile fun c => c != '=' := by
    intro h
    exact absurd (List.mem_takeWhile_imp h) (by decide)
  have hlb := letters_of_decode hb
  have hlc := letters_of_decode hc
  rw [takeWhile_of_notMem hw] at hlb
  rw [takeWhile_decode (percent_notMem hb hw), filter_plusToSpace] at hlc
  generalize x.takeWhile (fun c => c != '=') = w at hlb hlc
  constructor
  · rintro rfl hplus
    have hlen := congrArg List.length (hlb.symm.trans hlc)
    rw [List.length_map, List.length_map] at hlen
    have hall := List.length_filter_eq_length_iff.mp hlen.symm
    exact absurd (hall '+' (List.mem_filter.mpr ⟨hplus, by decide⟩)) (by decide)
  · intro hplus
    apply Base64.letters_injective
    rw [hlc, hlb, List.filter_eq_self.mpr]
    intro d hd
    rw [bne_iff_ne]
    rintro rfl
    exact hplus (List.mem_filter.mp hd).1

end
end DnsResolver
