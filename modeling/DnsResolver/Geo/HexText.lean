import DnsResolver.Lib.StrSlice
import DnsResolver.Dnssec.Base32
import DnsResolver.Geo.Heartbeats
import DnsResolver.Recursor.ZoneText

/-!
# Hexadecimal text (`hex_decode` of `crypto.rs`, `peer.rs` and `config.rs`, `hex_encode`)

The three decoders take two bytes of the text at a time and leave them to `u8::from_str_radix`,
for which a `+` may stand before the digits.  Two of them index the text, and the process aborts
where two bytes are no slice of it.

* `hexDecodeWith_append`      one pair: what it is read as, and the rest;
* `hexDecodeWith_readable`, `hexDecodeWith_unreadable`, `hexDecodeWith_straddling`   the three ends;
* `cryptoHexDecode_eq`        the decoder on the octets of the text;
* `fromEnvPeerSecret_eq_none` the settings that stop the process at its start;
* `hexDecode_exact_iff`       when a decoder takes just the hexadecimal texts.
-/

namespace DnsResolver
open StrSlice Digit

/-! ## the decoders -/

/-- `u8::from_str_radix`; it looks at bytes, and those of a character beyond ASCII are no digits
either -/
def u8FromStrRadix (radix : Nat) (s : Text) : Option UInt8 :=
  let digits := if s.head? = some '+' then s.tail else s
  if digits = [] then none
  else
    match digits.mapM (toDigit radix) with
    | none => none
    | some ds =>
      let n := ds.foldl (fun n d => radix * n + d) 0
      if n < 256 then some (UInt8.ofNat n) else none

/-- `collect`, up to the first `None`; `none` if the process aborts before -/
def collectBytes : List (Option (Option UInt8)) → Option (Option Bytes)
  | [] => some (some [])
  | none :: _ => none
  | some none :: _ => some none
  | some (some b) :: items => (collectBytes items).map (Option.map (b :: ·))

/-- what a pair is read as; `cut` if its bytes are no slice -/
def hexPairAt (cut : Option (Option UInt8)) (s : Text) (i : Nat) : Option (Option UInt8) :=
  match slice s i (i + 2) with
  | none => cut
  | some p => some (u8FromStrRadix 16 p)

def hexDecodeWith (cut : Option (Option UInt8)) (s : Text) : Option (Option Bytes) :=
  if size s % 2 = 0 then
    collectBytes ((List.range' 0 ((size s + 1) / 2) 2).map (hexPairAt cut s))
  else some none

/-- `hex_decode` of `crypto.rs`, with `s.get(i..i + 2)` -/
def cryptoHexDecode : Text → Option (Option Bytes) := hexDecodeWith (some none)

/-- `hex_decode` of `peer.rs`, with `&s[i..i + 2]` -/
def peerHexDecode : Text → Option (Option Bytes) := hexDecodeWith none

/-- `hex_decode` of `config.rs`, with `&s[i..i + 2]` -/
def configHexDecode : Text → Option (Option Bytes) := hexDecodeWith none

/-- `HEX` -/
def hex : Text := "0123456789abcdef".toList

def hexEncode (bytes : Bytes) : Text :=
  bytes.flatMap fun b : UInt8 => [hex.getD (b >>> 4).toNat '0', hex.getD (b &&& 15).toNat '0']

/-! ## signatures and secrets -/

structure PeerMac extends PeerCodec where
  /-- `hmac::sign` with the secret -/
  hmacSign : Bytes → Bytes → Bytes
  hmacVerify_iff : ∀ secret payload tag,
    hmacVerify secret payload tag = true ↔ tag = hmacSign secret payload

def PeerMac.sign (mac : PeerMac) (secret payload : Bytes) : Text :=
  hexEncode (mac.hmacSign secret payload)

/-- `verify` of a signature as a text; `none` if the process aborts -/
def PeerMac.verifyText (mac : PeerMac) (secret payload : Bytes) (sigHex : Text) : Option Bool :=
  (peerHexDecode sigHex).map fun
    | none => false
    | some sigBytes => mac.hmacVerify secret payload sigBytes

/-- the peer secret of `GeoConfig::from_env`; `none` if the process aborts -/
def fromEnvPeerSecret (peerSecretHex : Text) : Option Bytes :=
  if peerSecretHex = [] then some []
  else
    (configHexDecode peerSecretHex).map fun
      | some b => if 16 ≤ b.length then b else []
      | none => []

/-! ## hexadecimal texts -/

/-- the octets that pairs of hexadecimal digits spell -/
inductive HexSpells : Text → Bytes → Prop where
  | nil : HexSpells [] []
  | pair {c d : Char} {x y : Nat} {s : Text} {b : Bytes} :
      toDigit 16 c = some x → toDigit 16 d = some y → HexSpells s b →
      HexSpells (c :: d :: s) (UInt8.ofNat (16 * x + y) :: b)

/-- pairs of a digit and a digit or a plus sign before it -/
inductive Readable : Text → Prop where
  | nil : Readable []
  | pair {c d : Char} {s : Text} : c = '+' ∨ toDigit 16 c ≠ none → toDigit 16 d ≠ none →
      Readable s → Readable (c :: d :: s)

/-- such pairs, with a sign among them -/
def SignedText (s : Text) : Prop := Readable s ∧ '+' ∈ s

/-- an even number of bytes, and behind such pairs two that cut a character -/
def Straddling (s : Text) : Prop :=
  size s % 2 = 0 ∧ ∃ p t, s = p ++ t ∧ Readable p ∧ t ≠ [] ∧ slice t 0 2 = none

def HexExact (dec : Text → Option (Option Bytes)) (s : Text) : Prop :=
  ∃ r, dec s = some r ∧ ∀ b, r = some b ↔ HexSpells s b

/-! ## digits -/

theorem utf8Size_ascii {c : Char} : c.utf8Size = 1 ↔ c.toNat < 128 := by
  rw [Char.utf8Size_eq_one_iff, UInt32.le_iff_toNat_le]
  show c.toNat ≤ 127 ↔ c.toNat < 128
  omega

theorem utf8Size_sign {c : Char} (h : c = '+' ∨ toDigit 16 c ≠ none) : c.utf8Size = 1 := by
  rw [utf8Size_ascii]
  rcases h with rfl | h
  · decide
  · have hdigit := (toDigit_hex c).mp h
    omega

/-! ## one pair -/

theorem u8FromStrRadix_digits {c d : Char} {x y : Nat} (hx : toDigit 16 c = some x)
    (hy : toDigit 16 d = some y) : u8FromStrRadix 16 [c, d] = some (UInt8.ofNat (16 * x + y)) := by
  have hplus : ¬ [c, d].head? = some '+' := by
    intro h
    rw [Option.some.inj h] at hx
    revert hx
    exact Option.some_ne_none x ∘ Eq.symm
  have hvals : [c, d].mapM (toDigit 16) = some [x, y] := by
    rw [mapM_eq_some_iff, List.map_cons, List.map_cons, List.map_nil, hx, hy]
    rfl
  have hlt := toDigit_lt hx
  have hlt' := toDigit_lt hy
  unfold u8FromStrRadix
  dsimp only
  rw [if_neg hplus, if_neg (List.cons_ne_nil c [d]), hvals]
  show (if 16 * (16 * 0 + x) + y < 256 then
    some (UInt8.ofNat (16 * (16 * 0 + x) + y)) else none) = _
  rw [if_pos (by omega), Nat.mul_zero, Nat.zero_add]

theorem u8FromStrRadix_sign {d : Char} {y : Nat} (hy : toDigit 16 d = some y) :
    u8FromStrRadix 16 ['+', d] = some (UInt8.ofNat y) := by
  have hvals : [d].mapM (toDigit 16) = some [y] := by
    rw [mapM_eq_some_iff, List.map_cons, List.map_nil, hy]
    rfl
  have hlt := toDigit_lt hy
  unfold u8FromStrRadix
  dsimp only
  rw [if_pos (show ['+', d].head? = some '+' from rfl), List.tail_cons,
    if_neg (List.cons_ne_nil d []), hvals]
  show (if 16 * 0 + y < 256 then some (UInt8.ofNat (16 * 0 + y)) else none) = _
  rw [if_pos (by omega), Nat.mul_zero, Nat.zero_add]

theorem digits_of_u8FromStrRadix {s : Text} {x : UInt8} (h : u8FromStrRadix 16 s = some x) :
    (if s.head? = some '+' then s.tail else s) ≠ [] ∧
      ∀ c ∈ (if s.head? = some '+' then s.tail else s), toDigit 16 c ≠ none := by
  unfold u8FromStrRadix at h
  dsimp only at h
  generalize (if s.head? = some '+' then s.tail else s) = digits at h ⊢
  by_cases hnil : digits = []
  · rw [if_pos hnil] at h
    cases h
  · rw [if_neg hnil] at h
    refine ⟨hnil, fun c hc hbad => ?_⟩
    rw [mapM_eq_none hc hbad] at h
    cases h

theorem pair_of_u8FromStrRadix {p : Text} {x : UInt8} (hp : size p = 2)
    (h : u8FromStrRadix 16 p = some x) :
    ∃ c d, p = [c, d] ∧ (c = '+' ∨ toDigit 16 c ≠ none) ∧ toDigit 16 d ≠ none := by
  obtain ⟨hnil, hdigits⟩ := digits_of_u8FromStrRadix h
  cases p with
  | nil => exact absurd rfl hnil
  | cons c p =>
    rw [size_cons] at hp
    by_cases hc : c = '+'
    · subst hc
      rw [List.head?_cons, if_pos rfl, List.tail_cons] at hnil hdigits
      cases p with
      | nil => exact absurd rfl hnil
      | cons d p =>
        have hd := hdigits d List.mem_cons_self
        have hone := utf8Size_sign (Or.inl (rfl : '+' = '+'))
        have hone' := utf8Size_sign (Or.inr hd)
        rw [size_cons] at hp
        rw [size_eq_zero.mp (show size p = 0 by omega)]
        exact ⟨'+', d, rfl, Or.inl rfl, hd⟩
    · have hplus : ¬ (c :: p).head? = some '+' := fun he => hc (Option.some.inj he)
      rw [if_neg hplus] at hdigits
      have hd := hdigits c List.mem_cons_self
      have hone := utf8Size_sign (Or.inr hd)
      cases p with
      | nil =>
        rw [hone] at hp
        cases hp
      | cons d p =>
        have hd' := hdigits d (List.mem_cons_of_mem c List.mem_cons_self)
        have hone' := utf8Size_sign (Or.inr hd')
        rw [size_cons] at hp
        rw [size_eq_zero.mp (show size p = 0 by omega)]
        exact ⟨c, d, rfl, Or.inr hd, hd'⟩

theorem u8FromStrRadix_pair {c d : Char} (hc : c = '+' ∨ toDigit 16 c ≠ none)
    (hd : toDigit 16 d ≠ none) : size [c, d] = 2 ∧ ∃ x, u8FromStrRadix 16 [c, d] = some x := by
  constructor
  · rw [size_cons, size_cons, utf8Size_sign hc, utf8Size_sign (Or.inr hd)]
    rfl
  · obtain ⟨y, hy⟩ := Option.ne_none_iff_exists'.mp hd
    rcases hc with rfl | hc
    · exact ⟨_, u8FromStrRadix_sign hy⟩
    · obtain ⟨x, hx⟩ := Option.ne_none_iff_exists'.mp hc
      exact ⟨_, u8FromStrRadix_digits hx hy⟩

section
variable (cut : Option (Option UInt8))

/-- **One pair at the front.** -/
theorem hexDecodeWith_append {p : Text} (hp : size p = 2) (s : Text) :
    hexDecodeWith cut (p ++ s) = (u8FromStrRadix 16 p).elim (some none) fun x =>
      (hexDecodeWith cut s).map (Option.map (x :: ·)) := by
  unfold hexDecodeWith
  rw [size_append, hp]
  by_cases heven : size s % 2 = 0
  · have hslice : slice (p ++ s) 0 (0 + 2) = some p := slice_eq_some.mpr ⟨[], s, rfl, rfl, hp⟩
    have hfirst : hexPairAt cut (p ++ s) 0 = some (u8FromStrRadix 16 p) := by
      unfold hexPairAt
      rw [hslice]
    have hrest : hexPairAt cut (p ++ s) ∘ (2 + ·) = hexPairAt cut s := by
      funext i
      show hexPairAt cut (p ++ s) (2 + i) = _
      unfold hexPairAt
      rw [Nat.add_assoc, ← hp, slice_append]
    rw [if_pos (show (2 + size s) % 2 = 0 by omega), if_pos heven,
      show (2 + size s + 1) / 2 = (size s + 1) / 2 + 1 by omega, List.range'_succ, List.map_cons,
      hfirst, Nat.zero_add, show List.range' 2 ((size s + 1) / 2) 2 =
        (List.range' 0 ((size s + 1) / 2) 2).map (2 + ·) by rw [List.map_add_range'],
      List.map_map, hrest]
    cases u8FromStrRadix 16 p <;> rfl
  · rw [if_neg (show ¬ (2 + size s) % 2 = 0 by omega), if_neg heven]
    cases u8FromStrRadix 16 p <;> rfl

theorem hexDecodeWith_cut {s : Text} (heven : size s % 2 = 0) (hs : s ≠ [])
    (hslice : slice s 0 2 = none) : ∃ items, hexDecodeWith cut s = collectBytes (cut :: items) := by
  have hpos : size s ≠ 0 := fun h => hs (size_eq_zero.mp h)
  obtain ⟨n, hn⟩ := Nat.exists_eq_succ_of_ne_zero (show (size s + 1) / 2 ≠ 0 by omega)
  have hfirst : hexPairAt cut s 0 = cut := by
    unfold hexPairAt
    rw [Nat.zero_add, hslice]
  unfold hexDecodeWith
  rw [if_pos heven, hn, List.range'_succ, List.map_cons, hfirst]
  exact ⟨_, rfl⟩

theorem hexDecodeWith_pair {c d : Char} {x : UInt8} (hp : size [c, d] = 2)
    (hx : u8FromStrRadix 16 [c, d] = some x) (s : Text) :
    hexDecodeWith cut (c :: d :: s) = (hexDecodeWith cut s).map (Option.map (x :: ·)) := by
  have happend := hexDecodeWith_append cut hp s
  rw [hx] at happend
  exact happend

end

/-! ## whole texts -/

/-- **Pairs of digits and signs are decoded.** -/
theorem hexDecodeWith_readable {s : Text} (h : Readable s) :
    ∃ b, ∀ cut, hexDecodeWith cut s = some (some b) := by
  induction h with
  | nil => exact ⟨[], fun cut => rfl⟩
  | pair hc hd _ ih =>
    obtain ⟨b, hb⟩ := ih
    obtain ⟨hp, x, hx⟩ := u8FromStrRadix_pair hc hd
    refine ⟨x :: b, fun cut => ?_⟩
    rw [hexDecodeWith_pair cut hp hx, hb]
    rfl

/-- **What digits spell is decoded.** -/
theorem hexDecodeWith_spells {s : Text} {b : Bytes} (h : HexSpells s b)
    (cut : Option (Option UInt8)) : hexDecodeWith cut s = some (some b) := by
  induction h with
  | nil => rfl
  | pair hx hy _ ih =>
    have hne := Option.ne_none_iff_exists'.mpr ⟨_, hx⟩
    have hne' := Option.ne_none_iff_exists'.mpr ⟨_, hy⟩
    have hp := (u8FromStrRadix_pair (Or.inr hne) hne').1
    rw [hexDecodeWith_pair cut hp (u8FromStrRadix_digits hx hy), ih]
    rfl

theorem Straddling.pair {c d : Char} {s : Text} (hc : c = '+' ∨ toDigit 16 c ≠ none)
    (hd : toDigit 16 d ≠ none) (h : Straddling s) : Straddling (c :: d :: s) := by
  obtain ⟨heven, p, t, rfl, hp, ht, hcut⟩ := h
  have h2 := (u8FromStrRadix_pair hc hd).1
  have hsize := size_append [c, d] (p ++ t)
  refine ⟨?_, c :: d :: p, t, rfl, .pair hc hd hp, ht, hcut⟩
  show size ([c, d] ++ (p ++ t)) % 2 = 0
  omega

/-- **Any other text is refused**, unless two bytes that are no slice are read first. -/
theorem hexDecodeWith_unreadable {cut : Option (Option UInt8)} {s : Text} (h : ¬ Readable s)
    (hcut : cut = some none ∨ ¬ Straddling s) : hexDecodeWith cut s = some none := by
  by_cases heven : size s % 2 = 0
  · have hs : s ≠ [] := by
      rintro rfl
      exact h .nil
    cases hslice : slice s 0 2 with
    | none =>
      have hrefuse : cut = some none :=
        hcut.resolve_right fun hno => hno ⟨heven, [], s, rfl, .nil, hs, hslice⟩
      obtain ⟨items, hitems⟩ := hexDecodeWith_cut cut heven hs hslice
      rw [hitems, hrefuse]
      rfl
    | some p =>
      obtain ⟨a, t, rfl, ha, hp⟩ := slice_eq_some.mp hslice
      obtain rfl := size_eq_zero.mp ha
      show hexDecodeWith cut (p ++ t) = some none
      rw [hexDecodeWith_append cut hp]
      cases hx : u8FromStrRadix 16 p with
      | none => rfl
      | some x =>
        obtain ⟨c, d, rfl, hc, hd⟩ := pair_of_u8FromStrRadix hp hx
        have hrest : hexDecodeWith cut t = some none :=
          hexDecodeWith_unreadable (fun ht => h (.pair hc hd ht))
            (hcut.imp_right fun hno ht => hno (ht.pair hc hd))
        show (hexDecodeWith cut t).map (Option.map (x :: ·)) = some none
        rw [hrest]
        rfl
  · unfold hexDecodeWith
    rw [if_neg heven]
termination_by s.length

/-- **Two bytes that cut a character stop the process.** -/
theorem hexDecodeWith_straddling {s : Text} (h : Straddling s) : hexDecodeWith none s = none := by
  obtain ⟨heven, p, t, rfl, hp, ht, hslice⟩ := h
  induction hp with
  | nil =>
    obtain ⟨items, hitems⟩ := hexDecodeWith_cut none heven ht hslice
    exact hitems
  | @pair c d p hc hd _ ih =>
    obtain ⟨h2, x, hx⟩ := u8FromStrRadix_pair hc hd
    have hsize := size_append [c, d] (p ++ t)
    have heven' : size (p ++ t) % 2 = 0 := by
      have : size ([c, d] ++ (p ++ t)) % 2 = 0 := heven
      omega
    show hexDecodeWith none (c :: d :: (p ++ t)) = none
    rw [hexDecodeWith_pair none h2 hx, ih heven']
    rfl

/-! ## the texts that are taken rightly -/

theorem hexSpells_iff {s : Text} : (∃ b, HexSpells s b) ↔ Readable s ∧ '+' ∉ s := by
  constructor
  · rintro ⟨b, h⟩
    induction h with
    | nil => exact ⟨.nil, List.not_mem_nil⟩
    | @pair c d x y s b hx hy _ ih =>
      have hne := Option.ne_none_iff_exists'.mpr ⟨_, hx⟩
      have hne' := Option.ne_none_iff_exists'.mpr ⟨_, hy⟩
      refine ⟨.pair (Or.inr hne) hne' ih.1, fun hmem => ?_⟩
      have hplus : toDigit 16 '+' = none := by decide
      rcases List.mem_cons.mp hmem with rfl | hmem
      · exact hne hplus
      · rcases List.mem_cons.mp hmem with rfl | hmem
        · exact hne' hplus
        · exact ih.2 hmem
  · rintro ⟨h, hplus⟩
    induction h with
    | nil => exact ⟨[], .nil⟩
    | @pair c d s hc hd _ ih =>
      obtain ⟨b, hb⟩ := ih fun hmem =>
        hplus (List.mem_cons_of_mem c (List.mem_cons_of_mem d hmem))
      have hdigit := hc.resolve_left fun he => hplus (he ▸ List.mem_cons_self)
      obtain ⟨x, hx⟩ := Option.ne_none_iff_exists'.mp hdigit
      obtain ⟨y, hy⟩ := Option.ne_none_iff_exists'.mp hd
      exact ⟨_, .pair hx hy hb⟩

theorem hexExact_readable {cut : Option (Option UInt8)} {s : Text} (h : Readable s) :
    HexExact (hexDecodeWith cut) s ↔ '+' ∉ s := by
  obtain ⟨b, hb⟩ := hexDecodeWith_readable h
  constructor
  · rintro ⟨r, hr, hexact⟩
    obtain rfl := Option.some.inj ((hb cut).symm.trans hr)
    exact (hexSpells_iff.mp ⟨b, (hexact b).mp rfl⟩).2
  · intro hplus
    obtain ⟨b', hspells⟩ := hexSpells_iff.mpr ⟨h, hplus⟩
    refine ⟨some b', hexDecodeWith_spells hspells cut, fun b'' => ⟨?_, fun hs => ?_⟩⟩
    · intro heq
      obtain rfl := Option.some.inj heq
      exact hspells
    · have htwo := (hexDecodeWith_spells hspells cut).symm.trans (hexDecodeWith_spells hs cut)
      exact Option.some.inj htwo

theorem hexExact_refused {cut : Option (Option UInt8)} {s : Text} (h : ¬ Readable s)
    (hcut : cut = some none ∨ ¬ Straddling s) : HexExact (hexDecodeWith cut) s := by
  refine ⟨none, hexDecodeWith_unreadable h hcut, fun b => iff_of_false ?_ fun hs => ?_⟩
  · exact Option.some_ne_none b ∘ Eq.symm
  · exact h (hexSpells_iff.mp ⟨b, hs⟩).1

theorem not_straddling {s : Text} (h : Readable s) : ¬ Straddling s := by
  intro hcut
  obtain ⟨b, hb⟩ := hexDecodeWith_readable h
  exact Option.some_ne_none _ ((hb none).symm.trans (hexDecodeWith_straddling hcut))

theorem hexExact_get (s : Text) : HexExact (hexDecodeWith (some none)) s ↔ ¬ SignedText s := by
  by_cases h : Readable s
  · rw [hexExact_readable h]
    exact ⟨fun hplus hsigned => hplus hsigned.2, fun hno hplus => hno ⟨h, hplus⟩⟩
  · exact iff_of_true (hexExact_refused h (Or.inl rfl)) fun hsigned => h hsigned.1

theorem hexExact_index (s : Text) :
    HexExact (hexDecodeWith none) s ↔ ¬ SignedText s ∧ ¬ Straddling s := by
  by_cases h : Readable s
  · rw [hexExact_readable h]
    exact ⟨fun hplus => ⟨fun hsigned => hplus hsigned.2, not_straddling h⟩,
      fun hno hplus => hno.1 ⟨h, hplus⟩⟩
  · constructor
    · rintro ⟨r, hr, _⟩
      refine ⟨fun hsigned => h hsigned.1, fun hcut => ?_⟩
      rw [hexDecodeWith_straddling hcut] at hr
      exact Option.some_ne_none r hr.symm
    · rintro ⟨_, hcut⟩
      exact hexExact_refused h (Or.inr hcut)

/-! ## encoding -/

theorem byte_halves (b : UInt8) :
    (b >>> 4).toNat < 16 ∧ (b &&& 15).toNat < 16 ∧
      UInt8.ofNat (16 * (b >>> 4).toNat + (b &&& 15).toNat) = b := by
  have hlt := b.toNat_lt
  have hhigh : (b >>> 4).toNat = b.toNat / 16 := by
    rw [UInt8.toNat_shiftRight]
    exact Nat.shiftRight_eq_div_pow b.toNat 4
  have hlow : (b &&& 15).toNat = b.toNat % 16 := by
    rw [UInt8.toNat_and]
    exact Nat.and_two_pow_sub_one_eq_mod b.toNat 4
  refine ⟨by omega, by omega, ?_⟩
  rw [hhigh, hlow, Nat.div_add_mod]
  exact UInt8.ofNat_toNat

/-- **The text of `b` spells `b`.** -/
theorem hexSpells_hexEncode (b : Bytes) : HexSpells (hexEncode b) b := by
  have hdigit : ∀ v : Fin 16, toDigit 16 (hex.getD v '0') = some v.val := by decide
  induction b with
  | nil => exact .nil
  | cons x b ih =>
    obtain ⟨hhigh, hlow, hx⟩ := byte_halves x
    have hpair := HexSpells.pair (hdigit ⟨_, hhigh⟩) (hdigit ⟨_, hlow⟩) ih
    rw [hx] at hpair
    exact hpair

theorem verifyText_sign (mac : PeerMac) (secret payload : Bytes) :
    mac.verifyText secret payload (mac.sign secret payload) = some true := by
  have hdecode : peerHexDecode (mac.sign secret payload) =
      some (some (mac.hmacSign secret payload)) :=
    hexDecodeWith_spells (hexSpells_hexEncode _) none
  unfold PeerMac.verifyText
  rw [hdecode]
  exact congrArg some ((mac.hmacVerify_iff secret payload _).mpr rfl)

/-! ## the octets of the text -/

theorem hexPair_high {a b : UInt8} (h : 128 ≤ a ∨ 128 ≤ b) : hexPair a b = none := by
  unfold hexPair
  rcases h with h | h
  · have hplus : a ≠ 43 := by
      rintro rfl
      exact absurd h (by decide)
    rw [if_neg hplus, byteDigit_high h]
  · rw [byteDigit_high h]
    by_cases ha : a = 43
    · rw [if_pos ha]
    · rw [if_neg ha]
      cases byteDigit 16 a <;> rfl

theorem hexPair_ascii {c d : Char} (hc : c.toNat < 128) (hd : d.toNat < 128) :
    hexPair (UInt8.ofNat c.toNat) (UInt8.ofNat d.toNat) = u8FromStrRadix 16 [c, d] := by
  have hsize : size [c, d] = 2 := by
    rw [size_cons, size_cons, utf8Size_ascii.mpr hc, utf8Size_ascii.mpr hd]
    rfl
  have hrefused : ¬ ((c = '+' ∨ toDigit 16 c ≠ none) ∧ toDigit 16 d ≠ none) →
      u8FromStrRadix 16 [c, d] = none := by
    intro hbad
    by_contra hne
    obtain ⟨x, hx⟩ := Option.ne_none_iff_exists'.mp hne
    obtain ⟨c', d', he, hc', hd'⟩ := pair_of_u8FromStrRadix hsize hx
    obtain ⟨rfl, hrest⟩ := List.cons.inj he
    obtain ⟨rfl, _⟩ := List.cons.inj hrest
    exact hbad ⟨hc', hd'⟩
  unfold hexPair
  rw [byteDigit_ascii (Nat.lt_trans hc (by decide)), byteDigit_ascii (Nat.lt_trans hd (by decide))]
  cases hy : toDigit 16 d with
  | none =>
    rw [hrefused fun hboth => hboth.2 hy]
    by_cases hplus : UInt8.ofNat c.toNat = 43
    · rw [if_pos hplus]
      rfl
    · rw [if_neg hplus]
      cases toDigit 16 c <;> rfl
  | some y =>
    by_cases hplus : c = '+'
    · subst hplus
      rw [if_pos (show UInt8.ofNat '+'.toNat = 43 from rfl), u8FromStrRadix_sign hy]
      rfl
    · have hne : UInt8.ofNat c.toNat ≠ 43 := by
        intro he
        have htoNat := congrArg UInt8.toNat he
        rw [UInt8.toNat_ofNat_of_lt' (Nat.lt_trans hc (by decide))] at htoNat
        exact hplus ((Char.ofNat_toNat c).symm.trans (congrArg Char.ofNat htoNat))
      rw [if_neg hne]
      cases hx : toDigit 16 c with
      | none =>
        rw [hrefused fun hboth => hboth.1.elim hplus fun hno => hno hx]
        rfl
      | some x =>
        rw [u8FromStrRadix_digits hx hy, UInt8.ofNat_add, UInt8.ofNat_mul]
        rfl

theorem hexDecode_high {a : UInt8} (h : 128 ≤ a) (r : Bytes) : hexDecode (a :: r) = none := by
  cases r with
  | nil => rfl
  | cons b r => rw [hexDecode, hexPair_high (Or.inl h)]

theorem cryptoHexDecode_high {c : Char} (h : 128 ≤ c.toNat) (s : Text) :
    cryptoHexDecode (c :: s) = some none ∧ hexDecode (utf8 (c :: s)) = none := by
  have hunread : ¬ Readable (c :: s) := by
    intro hread
    cases hread with
    | pair hc _ _ => exact absurd (utf8Size_ascii.mp (utf8Size_sign hc)) (Nat.not_lt.mpr h)
  obtain ⟨_, x, xs, hchar, hx⟩ := symbol_high h
  refine ⟨hexDecodeWith_unreadable hunread (Or.inl rfl), ?_⟩
  show hexDecode (String.utf8EncodeChar c ++ utf8 s) = none
  rw [hchar]
  exact hexDecode_high hx _

/-- **The decoder on the octets of a text.** -/
theorem cryptoHexDecode_eq (s : Text) : cryptoHexDecode s = some (hexDecode (utf8 s)) := by
  induction s using List.twoStepInduction with
  | nil => rfl
  | singleton c =>
    by_cases hc : c.toNat < 128
    · have hodd : ¬ size [c] % 2 = 0 := by
        rw [size_cons, utf8Size_ascii.mpr hc]
        decide
      show hexDecodeWith (some none) [c] = some (hexDecode (String.utf8EncodeChar c ++ []))
      rw [hexDecodeWith, if_neg hodd, (symbol_of_ascii hc).1]
      rfl
    · obtain ⟨htext, hoctets⟩ := cryptoHexDecode_high (Nat.le_of_not_lt hc) []
      rw [htext, hoctets]
  | cons_cons c d s ih _ =>
    by_cases hc : c.toNat < 128
    · have hfirst := (symbol_of_ascii hc).1
      show _ = some (hexDecode (String.utf8EncodeChar c ++ (String.utf8EncodeChar d ++ utf8 s)))
      rw [hfirst]
      by_cases hd : d.toNat < 128
      · have hsize : size [c, d] = 2 := by
          rw [size_cons, size_cons, utf8Size_ascii.mpr hc, utf8Size_ascii.mpr hd]
          rfl
        have happend := hexDecodeWith_append (some none) hsize s
        rw [show hexDecodeWith (some none) s = some (hexDecode (utf8 s)) from ih] at happend
        rw [(symbol_of_ascii hd).1]
        show hexDecodeWith (some none) ([c, d] ++ s) =
          some (hexDecode (UInt8.ofNat c.toNat :: UInt8.ofNat d.toNat :: utf8 s))
        rw [happend, hexDecode, hexPair_ascii hc hd]
        cases u8FromStrRadix 16 [c, d] with
        | none => rfl
        | some x =>
          cases hexDecode (utf8 s) <;> rfl
      · obtain ⟨_, x, xs, hchar, hx⟩ := symbol_high (Nat.le_of_not_lt hd)
        have hunread : ¬ Readable (c :: d :: s) := by
          intro hread
          cases hread with
          | pair _ hd' _ => exact hd (utf8Size_ascii.mp (utf8Size_sign (Or.inr hd')))
        rw [cryptoHexDecode, hexDecodeWith_unreadable hunread (Or.inl rfl), hchar]
        show some none = some (hexDecode (UInt8.ofNat c.toNat :: x :: (xs ++ utf8 s)))
        rw [hexDecode, hexPair_high (Or.inr hx)]
    · obtain ⟨htext, hoctets⟩ := cryptoHexDecode_high (Nat.le_of_not_lt hc) (d :: s)
      rw [htext, hoctets]

/-- where no two bytes cut a character the three decoders are one -/
theorem hexDecodeWith_eq {s : Text} (h : ¬ Straddling s) (cut : Option (Option UInt8)) :
    hexDecodeWith cut s = some (hexDecode (utf8 s)) := by
  rw [← cryptoHexDecode_eq, cryptoHexDecode]
  by_cases hread : Readable s
  · obtain ⟨b, hb⟩ := hexDecodeWith_readable hread
    rw [hb, hb]
  · rw [hexDecodeWith_unreadable hread (Or.inr h), hexDecodeWith_unreadable hread (Or.inl rfl)]

/-- **The signature of a header** is checked as its octets are. -/
theorem verifyText_eq (mac : PeerMac) (secret payload : Bytes) {s : Text} (h : ¬ Straddling s) :
    mac.verifyText secret payload s = some (mac.verify secret payload (utf8 s)) := by
  unfold PeerMac.verifyText PeerCodec.verify
  rw [peerHexDecode, hexDecodeWith_eq h]
  rfl

/-! ## the settings -/

/-- **The secrets that stop the process at its start.** -/
theorem fromEnvPeerSecret_eq_none (s : Text) : fromEnvPeerSecret s = none ↔ Straddling s := by
  unfold fromEnvPeerSecret
  by_cases hs : s = []
  · subst hs
    rw [if_pos rfl]
    exact iff_of_false (Option.some_ne_none _) (not_straddling .nil)
  · rw [if_neg hs, Option.map_eq_none_iff]
    constructor
    · intro hnone
      by_contra hcut
      rw [configHexDecode, hexDecodeWith_eq hcut] at hnone
      exact Option.some_ne_none _ hnone
    · exact hexDecodeWith_straddling

/-- **A decoder takes just the hexadecimal texts** if no pair has a sign and, where the text is
indexed, no pair cuts a character.  What is encoded is decoded, and what is signed is verified. -/
theorem hexDecode_exact_iff (mac : PeerMac) (s : Text) (b secret payload : Bytes) :
    ((HexExact cryptoHexDecode s ↔ ¬ SignedText s) ∧
      (HexExact peerHexDecode s ↔ ¬ SignedText s ∧ ¬ Straddling s) ∧
      (HexExact configHexDecode s ↔ ¬ SignedText s ∧ ¬ Straddling s)) ∧
    (cryptoHexDecode (hexEncode b) = some (some b) ∧ peerHexDecode (hexEncode b) = some (some b) ∧
      configHexDecode (hexEncode b) = some (some b)) ∧
    mac.verifyText secret payload (mac.sign secret payload) = some true := by
  have hencode := hexDecodeWith_spells (hexSpells_hexEncode b)
  exact ⟨⟨hexExact_get s, hexExact_index s, hexExact_index s⟩,
    ⟨hencode (some none), hencode none, hencode none⟩, verifyText_sign mac secret payload⟩

/-- HMAC on the body of `upBody` -/
def meshMac : PeerMac where
  hmacSign secret payload :=
    if secret = meshSecret ∧ payload = upBody.body then (hexDecode upBody.sigHex).getD [] else []
  hmacVerify secret payload tag := decide (tag =
    if secret = meshSecret ∧ payload = upBody.body then (hexDecode upBody.sigHex).getD [] else [])
  hmacVerify_iff := fun _ _ _ => decide_eq_true_iff
  fromSlice := (codecOf [upBody]).fromSlice

/-- A text in both cases is decoded, and the heartbeat that is signed is verified. -/
theorem hexDecode_exact_mesh : HexExact configHexDecode ['0', 'a', 'F', '3'] ∧
    meshMac.verifyText meshSecret upBody.body (meshMac.sign meshSecret upBody.body) =
      some true := by
  have hexact := hexDecode_exact_iff meshMac ['0', 'a', 'F', '3'] [] meshSecret upBody.body
  have hspells : HexSpells ['0', 'a', 'F', '3'] [10, 243] :=
    .pair (show toDigit 16 '0' = some 0 by decide) (show toDigit 16 'a' = some 10 by decide)
      (.pair (show toDigit 16 'F' = some 15 by decide) (show toDigit 16 '3' = some 3 by decide)
        .nil)
  obtain ⟨hread, hplus⟩ := hexSpells_iff.mp ⟨_, hspells⟩
  exact ⟨hexact.1.2.2.mpr ⟨fun hsigned => hplus hsigned.2, not_straddling hread⟩, hexact.2.2⟩

/-- Three texts: a sign in a pair, and a character that a pair cuts. -/
theorem hexDecode_inexact : ¬ HexExact cryptoHexDecode "+f".toList ∧
    ¬ HexExact peerHexDecode "+f".toList ∧ ¬ HexExact configHexDecode "a€".toList := by
  have hsigned : cryptoHexDecode "+f".toList = some (some [15]) ∧
      peerHexDecode "+f".toList = some (some [15]) := ⟨rfl, rfl⟩
  have hnot : ∀ b, ¬ HexSpells "+f".toList b :=
    fun b hb => (hexSpells_iff.mp ⟨b, hb⟩).2 (by decide)
  refine ⟨?_, ?_, ?_⟩
  · rintro ⟨r, hr, hexact⟩
    rw [hsigned.1] at hr
    obtain rfl := Option.some.inj hr
    exact hnot _ ((hexact [15]).mp rfl)
  · rintro ⟨r, hr, hexact⟩
    rw [hsigned.2] at hr
    obtain rfl := Option.some.inj hr
    exact hnot _ ((hexact [15]).mp rfl)
  · have habort : configHexDecode "a€".toList = none := rfl
    rintro ⟨r, hr, _⟩
    rw [habort] at hr
    cases hr

end DnsResolver
