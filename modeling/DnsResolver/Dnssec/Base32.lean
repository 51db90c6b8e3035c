import DnsResolver.Lib.Bits
import DnsResolver.Dnssec.Negative
import DnsResolver.Dnssec.TbsCanonical
import DnsResolver.Recursor.ZoneText

/-!
# base32hex (`base32hex_decode` of `negative.rs`)

The decoder pushes five bits per character into a `u64` that is never masked and takes an octet
out whenever eight bits are there.  At most twelve bits are pending, so what falls off at the
upper end was read long before.

* `base32hexEncode`       the text of a byte string, five bits a character, without padding;
* `base32hexDecode_utf8`  the decoder as a function of its text: the bits of all characters, cut
                          into octets, and nothing if a character is not in the alphabet;
* `base32hexDecode_inverts`   the round trip, and failure outside the alphabet.
-/

namespace DnsResolver
open BitGroups

/-! ## texts -/

/-- `ALPHABET` -/
def alphabet : Text := "0123456789ABCDEFGHIJKLMNOPQRSTUV".toList

def utf8 (s : Text) : Bytes := s.flatMap String.utf8EncodeChar

/-- `ALPHABET.iter().position` of a character after `to_ascii_uppercase` -/
def symbol (c : Char) : Option Nat := alphabet.findIdx? fun x => x == c.toUpper

/-- the unpadded base32hex text of a byte string -/
def base32hexEncode (b : Bytes) : Text :=
  (blocks 5 (pad 5 (b.flatMap fun x => word 8 x.toNat))).map fun g => alphabet.getD (value g) '0'

/-- the octets of a bit string, an incomplete one left out -/
def octets (bs : List Bool) : Bytes := (blocks 8 bs).map fun g => UInt8.ofNat (value g)

/-! ## characters -/

theorem symbol_ascii (n : Fin 128) :
    String.utf8EncodeChar (Char.ofNat n) = [UInt8.ofNat n] ∧
      (base32Val (UInt8.ofNat n)).map UInt64.toNat = symbol (Char.ofNat n) := by
  revert n
  decide +kernel

theorem symbol_of_ascii {c : Char} (h : c.toNat < 128) :
    String.utf8EncodeChar c = [UInt8.ofNat c.toNat] ∧
      (base32Val (UInt8.ofNat c.toNat)).map UInt64.toNat = symbol c := by
  have hc := symbol_ascii ⟨c.toNat, h⟩
  rwa [Char.ofNat_toNat] at hc

theorem symbol_lt {c : Char} {v : Nat} (h : symbol c = some v) : v < 32 := by
  have hlen : alphabet.length = 32 := rfl
  rw [← hlen]
  exact (List.findIdx?_eq_some_iff_findIdx_eq.mp h).1

theorem base32Val_high {x : UInt8} (h : 128 ≤ x) : base32Val x = none := by
  have hn : 128 ≤ x.toNat := UInt8.le_iff_toNat_le.mp h
  simp only [base32Val, UInt8.le_iff_toNat_le, UInt8.reduceToNat]
  rw [if_neg (by omega), if_neg (by omega), if_neg (by omega)]

theorem base32Val_lt {x : UInt8} {v : UInt64} (h : base32Val x = some v) : v.toNat < 32 := by
  by_cases hx : 128 ≤ x
  · rw [base32Val_high hx] at h
    cases h
  · have hn : x.toNat < 128 := Nat.lt_of_not_le fun hle => hx (UInt8.le_iff_toNat_le.mpr hle)
    have hval := (symbol_ascii ⟨x.toNat, hn⟩).2
    rw [show UInt8.ofNat x.toNat = x from UInt8.ofNat_toNat, h] at hval
    exact symbol_lt hval.symm

theorem symbol_high {c : Char} (h : 128 ≤ c.toNat) :
    symbol c = none ∧ ∃ x xs, String.utf8EncodeChar c = x :: xs ∧ 128 ≤ x := by
  have hbig : ¬ c.val.toNat ≤ 127 := by
    have : c.val.toNat = c.toNat := rfl
    omega
  constructor
  · have hupper : c.toUpper = c := by
      unfold Char.toUpper
      rw [dif_neg]
      rintro ⟨_, hz⟩
      have : c.val.toNat ≤ 122 := hz
      omega
    have hsmall : (alphabet.all fun x => decide (x.val.toNat ≤ 127)) = true := by decide
    rw [symbol, hupper, List.findIdx?_eq_none_iff]
    intro x hx
    rw [beq_eq_false_iff_ne]
    rintro rfl
    exact hbig (of_decide_eq_true (List.all_eq_true.mp hsmall x hx))
  · unfold String.utf8EncodeChar
    have hbyte : ∀ n : Nat, 128 ≤ n → n < 256 → (128 : UInt8) ≤ UInt8.ofNat n := by
      intro n hn hlt
      rw [UInt8.le_iff_toNat_le, UInt8.toNat_ofNat_of_lt' hlt]
      exact hn
    rw [if_neg hbig]
    split
    · exact ⟨_, _, rfl, hbyte _ (by omega) (by omega)⟩
    · split
      · exact ⟨_, _, rfl, hbyte _ (by omega) (by omega)⟩
      · exact ⟨_, _, rfl, hbyte _ (by omega) (by omega)⟩

/-! ## the decoder -/

/-- five bits come in: the register ends with what was pending and the new symbol -/
theorem push_endsWith {bits val : UInt64} {p : List Bool} {v : Nat} (h : EndsWith bits.toNat p)
    (hp : p.length < 8) (hv : val.toNat = v) (hlt : v < 32) :
    EndsWith ((bits <<< 5) ||| val).toNat (p ++ word 5 v) := by
  have hshift : (2 ^ 5 * bits.toNat + v) % 2 ^ 64 = ((bits <<< 5) ||| val).toNat := by
    rw [UInt64.toNat_or, UInt64.toNat_shiftLeft, hv]
    show _ = bits.toNat <<< 5 % 2 ^ 64 ||| v
    have hdvd : bits.toNat <<< 5 % 2 ^ 64 = (bits.toNat % 2 ^ 59) <<< 5 := by
      rw [Nat.shiftLeft_eq, Nat.shiftLeft_eq]
      omega
    rw [hdvd, ← Nat.shiftLeft_add_eq_or_of_lt (show v < 2 ^ 5 from hlt), Nat.shiftLeft_eq]
    omega
  have hword := h.shift (word 5 v)
  rw [length_word, value_word (show v < 2 ^ 5 from hlt)] at hword
  rw [← hshift]
  refine hword.wrap ?_
  rw [List.length_append, length_word]
  omega

/-- eight bits go out: the octet is their value and the rest stays pending -/
theorem pop_octet {bits : UInt64} {p : List Bool} (h : EndsWith bits.toNat p) (h8 : 8 ≤ p.length)
    (hp : p.length < 16) :
    (bits >>> UInt64.ofNat (p.length - 8)).toUInt8 = UInt8.ofNat (value (p.take 8)) ∧
      EndsWith bits.toNat (p.drop 8) := by
  have hsplit : EndsWith bits.toNat (p.take 8 ++ p.drop 8) := by rwa [List.take_append_drop]
  refine ⟨?_, hsplit.low⟩
  have hhigh := hsplit.high
  unfold EndsWith at hhigh
  rw [List.length_drop, List.length_take, Nat.min_eq_left h8] at hhigh
  have hcount : (UInt64.ofNat (p.length - 8)).toNat % 64 = p.length - 8 := by
    rw [UInt64.toNat_ofNat_of_lt' (show p.length - 8 < 2 ^ 64 by omega)]
    omega
  rw [← hhigh, ← UInt8.toNat_inj, UInt64.toNat_toUInt8, UInt64.toNat_shiftRight, hcount,
    Nat.shiftRight_eq_div_pow, UInt8.toNat_ofNat', Nat.mod_mod]

theorem octets_cons {g bs : List Bool} (h : g.length = 8) :
    octets (g ++ bs) = UInt8.ofNat (value g) :: octets bs := by
  rw [octets, blocks_append (by omega) h]
  rfl

/-- one symbol: what is put out and what stays pending are the bits so far and the new ones -/
theorem base32Loop_push {x : UInt8} {bits val : UInt64} {p : List Bool} (out r : Bytes)
    (hx : base32Val x = some val) (hv : val.toNat < 32) (h : EndsWith bits.toNat p)
    (hp : p.length < 8) :
    ∃ bits' q out', base32Loop (x :: r) bits p.length out = base32Loop r bits' q.length out' ∧
      EndsWith bits'.toNat q ∧ q.length < 8 ∧
      ∀ more, out' ++ octets (q ++ more) = out ++ octets (p ++ (word 5 val.toNat ++ more)) := by
  have hpush := push_endsWith h hp rfl hv
  have hlen : (p ++ word 5 val.toNat).length = p.length + 5 := by
    rw [List.length_append, length_word]
  have hloop : base32Loop (x :: r) bits p.length out =
      if 8 ≤ p.length + 5 then
        base32Loop r ((bits <<< 5) ||| val) (p.length + 5 - 8)
          (out ++ [(((bits <<< 5) ||| val) >>> UInt64.ofNat (p.length + 5 - 8)).toUInt8])
      else base32Loop r ((bits <<< 5) ||| val) (p.length + 5) out := by
    rw [base32Loop, hx]
  rw [hloop, ← hlen]
  simp only [← List.append_assoc]
  revert hpush hlen
  generalize p ++ word 5 val.toNat = q
  intro hpush hlen
  by_cases h8 : 8 ≤ q.length
  · -- an octet goes out, at most four bits stay
    obtain ⟨hoctet, hkeep⟩ := pop_octet hpush h8 (by omega)
    have hdrop : (q.drop 8).length = q.length - 8 := List.length_drop
    refine ⟨_, q.drop 8, out ++ [UInt8.ofNat (value (q.take 8))], ?_, hkeep, by omega,
      fun more => ?_⟩
    · rw [if_pos h8, hdrop, hoctet]
    · have htake : (q.take 8).length = 8 := by
        rw [List.length_take]
        omega
      rw [List.append_assoc, List.singleton_append, ← octets_cons htake,
        ← List.append_assoc, List.take_append_drop]
  · exact ⟨_, q, out, if_neg h8, hpush, by omega, fun more => rfl⟩

/-- the loop with the bits `p` pending -/
theorem base32Loop_bytes (l : Bytes) {bits : UInt64} {p : List Bool} (out : Bytes)
    (h : EndsWith bits.toNat p) (hp : p.length < 8) :
    base32Loop l bits p.length out = (l.mapM base32Val).map fun vals =>
      out ++ octets (p ++ vals.flatMap fun v => word 5 v.toNat) := by
  induction l generalizing bits p out with
  | nil =>
    show some out = some (out ++ octets (p ++ []))
    rw [List.append_nil, octets, blocks_of_lt hp, List.map_nil, List.append_nil]
  | cons x l ih =>
    rw [List.mapM_cons]
    cases hx : base32Val x with
    | none =>
      rw [base32Loop, hx]
      rfl
    | some val =>
      obtain ⟨bits', q, out', hstep, hq, hlt, hout⟩ :=
        base32Loop_push out l hx (base32Val_lt hx) h hp
      rw [hstep, ih out' hq hlt]
      show _ = ((l.mapM base32Val).bind fun vals => some (val :: vals)).map _
      cases l.mapM base32Val with
      | none => rfl
      | some vals =>
        show some (out' ++ octets (q ++ vals.flatMap fun v => word 5 v.toNat)) =
          some (out ++ octets (p ++ (val :: vals).flatMap fun v => word 5 v.toNat))
        rw [hout, List.flatMap_cons]

/-- **The decoder as a function of its bytes.** -/
theorem base32hexDecode_bytes (l : Bytes) :
    base32hexDecode l =
      (l.mapM base32Val).map fun vals => octets (vals.flatMap fun v => word 5 v.toNat) :=
  base32Loop_bytes (p := []) l [] rfl (by rw [List.length_nil]; omega)

theorem mapM_base32Val_utf8 (s : Text) :
    ((utf8 s).mapM base32Val).map (List.map UInt64.toNat) = s.mapM symbol := by
  induction s with
  | nil => rfl
  | cons c s ih =>
    rw [List.mapM_cons, ← ih]
    show ((String.utf8EncodeChar c ++ utf8 s).mapM base32Val).map _ = _
    by_cases hc : c.toNat < 128
    · obtain ⟨hchar, hval⟩ := symbol_of_ascii hc
      rw [hchar, List.singleton_append, List.mapM_cons, ← hval]
      cases base32Val (UInt8.ofNat c.toNat) with
      | none => rfl
      | some val =>
        show ((((utf8 s).mapM base32Val).bind fun vals => some (val :: vals)).map _) = _
        cases (utf8 s).mapM base32Val with
        | none => rfl
        | some vals => rfl
    · -- the first byte of any other character is in no alphabet
      obtain ⟨hsym, x, xs, hchar, hx⟩ := symbol_high (Nat.le_of_not_lt hc)
      rw [hchar, List.cons_append, List.mapM_cons, base32Val_high hx, hsym]
      rfl

/-- **The decoder as a function of its text.** -/
theorem base32hexDecode_utf8 (s : Text) :
    base32hexDecode (utf8 s) = (s.mapM symbol).map fun vals => octets (vals.flatMap (word 5)) := by
  rw [base32hexDecode_bytes, ← mapM_base32Val_utf8, Option.map_map]
  refine congrArg (fun f => Option.map f _) (funext fun vals => ?_)
  show _ = octets ((vals.map UInt64.toNat).flatMap (word 5))
  rw [List.flatMap_map]

/-! ## encoding and decoding -/

theorem symbol_of_upper {c : Char} {v : Nat} (hv : v < 32)
    (h : c.toUpper = alphabet.getD v '0') : symbol c = some v := by
  have hall : ∀ i : Fin 32,
      alphabet.findIdx? (fun x => x == alphabet.getD i '0') = some i.val := by
    decide
  rw [symbol, h]
  exact hall ⟨v, hv⟩

theorem mapM_symbol_of_upper {gs : List (List Bool)} (hgs : ∀ g ∈ gs, g.length = 5) {s : Text}
    (hs : s.map Char.toUpper = gs.map fun g => alphabet.getD (value g) '0') :
    s.mapM symbol = some (gs.map value) := by
  induction gs generalizing s with
  | nil =>
    rw [List.map_eq_nil_iff.mp hs]
    rfl
  | cons g gs ih =>
    obtain ⟨c, s, rfl, hc, hs'⟩ := List.map_eq_cons_iff.mp hs
    have hlt := value_lt g
    rw [hgs g List.mem_cons_self] at hlt
    have htail := ih (fun a ha => hgs a (List.mem_cons_of_mem g ha)) hs'
    rw [List.mapM_cons, symbol_of_upper hlt hc, htail]
    rfl

theorem octets_pad (b : Bytes) : octets (pad 5 (b.flatMap fun x => word 8 x.toNat)) = b :=
  blocks_octets b (by rw [List.length_replicate]; omega)

/-- **A text of `b`, in any mixture of cases, decodes to `b`.** -/
theorem base32hexDecode_encode {b : Bytes} {s : Text}
    (hs : s.map Char.toUpper = base32hexEncode b) : base32hexDecode (utf8 s) = some b := by
  have hgroups := flatMap_word_blocks (by omega) (pad 5 (b.flatMap fun x => word 8 x.toNat))
    (dvd_length_pad (by omega) _)
  rw [base32hexDecode_utf8, mapM_symbol_of_upper (fun g hg => length_of_mem_blocks hg) hs,
    Option.map_some, hgroups, octets_pad]

/-- **A character outside the alphabet makes the decoder fail.** -/
theorem base32hexDecode_bad {s : Text} (h : ∃ c ∈ s, c.toUpper ∉ alphabet) :
    base32hexDecode (utf8 s) = none := by
  obtain ⟨c, hc, hbad⟩ := h
  have hsym : symbol c = none := by
    rw [symbol, List.findIdx?_eq_none_iff]
    intro x hx
    rw [beq_eq_false_iff_ne]
    rintro rfl
    exact hbad hx
  rw [base32hexDecode_utf8, mapM_eq_none hc hsym]
  rfl

/-- **base32hex decoding inverts encoding**, for byte strings of any length, although the register
is never masked. -/
theorem base32hexDecode_inverts (b : Bytes) (s : Text) :
    (s.map Char.toUpper = base32hexEncode b → base32hexDecode (utf8 s) = some b) ∧
      ((∃ c ∈ s, c.toUpper ∉ alphabet) → base32hexDecode (utf8 s) = none) :=
  ⟨base32hexDecode_encode, base32hexDecode_bad⟩

theorem base32hexDecode_foobar :
    base32hexDecode (utf8 "cPnMuOj1e8".toList) = some (ascii "foobar") ∧
      base32hexDecode (utf8 "CPNM=".toList) = none :=
  ⟨(base32hexDecode_inverts (ascii "foobar") _).1 (by decide +kernel),
    (base32hexDecode_inverts [] _).2 ⟨'=', by decide +kernel, by decide +kernel⟩⟩

end DnsResolver
