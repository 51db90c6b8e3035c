import DnsResolver.Lib.Bits

/-!
# base64

Byte strings as texts, six bits a letter, padded to a multiple of four.

* `letters`, `text`     the letters of a byte string, and the text with its padding;
* `decode`              the byte string of a text; only `text b` decodes to `b`
                        (`decode_eq_some`);
* `letters_injective`   the letters determine the byte string.
-/

namespace Base64
open BitGroups

def alphabet : List Char :=
  "ABCDEFGHIJKLMNOPQRSTUVWXYZabcdefghijklmnopqrstuvwxyz0123456789+/".toList

/-- the bits of a byte string, up to a multiple of six -/
def bits (b : List UInt8) : List Bool := pad 6 (b.flatMap fun x => word 8 x.toNat)

def letters (b : List UInt8) : List Char :=
  (blocks 6 (bits b)).map fun g => alphabet.getD (value g) 'A'

def text (b : List UInt8) : List Char :=
  letters b ++ List.replicate ((4 - (letters b).length % 4) % 4) '='

def index (c : Char) : Option Nat := alphabet.findIdx? fun x => x == c

/-- the letters up to the padding, in octets, if this is their text -/
def decode (s : List Char) : Option (List UInt8) :=
  match (s.takeWhile fun c => c != '=').mapM index with
  | none => none
  | some vals =>
    let b := (blocks 8 (vals.flatMap (word 6))).map fun g => UInt8.ofNat (value g)
    if text b = s then some b else none

/-! ## letters -/

theorem letter_spec (v : Fin 64) :
    alphabet.getD v 'A' ∈ alphabet ∧ index (alphabet.getD v 'A') = some v.val := by
  revert v
  decide +kernel

theorem mem_alphabet_of_mem_letters {b : List UInt8} {c : Char} (h : c ∈ letters b) :
    c ∈ alphabet := by
  obtain ⟨g, hg, rfl⟩ := List.mem_map.mp h
  have hlt := value_lt g
  rw [length_of_mem_blocks hg] at hlt
  exact (letter_spec ⟨value g, hlt⟩).1

theorem pad_notMem_letters (b : List UInt8) : '=' ∉ letters b := by
  intro h
  exact absurd (mem_alphabet_of_mem_letters h) (by decide +kernel)

theorem takeWhile_replicate_pad (n : Nat) :
    ((List.replicate n '=').takeWhile fun c => c != '=') = [] := by
  cases n with
  | zero => rfl
  | succ n => rfl

theorem takeWhile_text (b : List UInt8) : ((text b).takeWhile fun c => c != '=') = letters b := by
  have hall : ∀ c ∈ letters b, (c != '=') = true := by
    intro c hc
    rw [bne_iff_ne]
    rintro rfl
    exact pad_notMem_letters b hc
  rw [text, List.takeWhile_append_of_pos hall, takeWhile_replicate_pad, List.append_nil]

theorem length_letters (b : List UInt8) : (letters b).length = (8 * b.length + 5) / 6 := by
  rw [letters, List.length_map, blocks, List.length_map, List.length_range, bits, pad,
    List.length_append, List.length_replicate, length_flatMap_word]
  omega

theorem mapM_index_letters (b : List UInt8) :
    (letters b).mapM index = some ((blocks 6 (bits b)).map value) := by
  have hgroups : ∀ g ∈ blocks 6 (bits b), g.length = 6 := fun g hg => length_of_mem_blocks hg
  unfold letters
  generalize blocks 6 (bits b) = gs at hgroups
  induction gs with
  | nil => rfl
  | cons g gs ih =>
    have hlt := value_lt g
    rw [hgroups g List.mem_cons_self] at hlt
    have htail := ih fun a ha => hgroups a (List.mem_cons_of_mem g ha)
    rw [List.map_cons, List.mapM_cons, htail, (letter_spec ⟨value g, hlt⟩).2]
    rfl

/-! ## decoding -/

theorem decode_text (b : List UInt8) : decode (text b) = some b := by
  have hbits := flatMap_word_blocks (by omega) (bits b) (dvd_length_pad (by omega) _)
  have hbytes : (blocks 8 (bits b)).map (fun g => UInt8.ofNat (value g)) = b :=
    blocks_octets b (by rw [List.length_replicate]; omega)
  rw [decode, takeWhile_text, mapM_index_letters]
  dsimp only
  rw [hbits, hbytes, if_pos rfl]

/-- **Only its text decodes to a byte string.** -/
theorem decode_eq_some {s : List Char} {b : List UInt8} : decode s = some b ↔ s = text b := by
  constructor
  · intro h
    unfold decode at h
    split at h
    · cases h
    · dsimp only at h
      split at h
      · rename_i htext
        obtain rfl := Option.some.inj h
        exact htext.symm
      · cases h
  · rintro rfl
    exact decode_text b

theorem letters_injective {a b : List UInt8} (h : letters a = letters b) : a = b := by
  have htext : text a = text b := by rw [text, text, h]
  have ha := decode_text a
  rw [htext, decode_text] at ha
  exact (Option.some.inj ha).symm

end Base64
