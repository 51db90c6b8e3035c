import DnsResolver.Dnssec.Tbs
import DnsResolver.Lib.Serial
import DnsResolver.Lib.Digit

/-!
# Signature verification primitives (`crypto.rs`)

The hash functions, the signature schemes and hickory's own key-tag and verify routines are code
outside the repository: they are the fields of `Crypto`.  What the repository builds on them
(key tags, DS digests, the dispatch on the algorithm number, the time window of an RRSIG) is
defined here.
-/

namespace DnsResolver
open Digit

def perValidationMaxSigChecks : Nat := 24

/-- smallest RSA modulus, in octets, that ring accepts -/
def ringRsaMinModulusBytes : Nat := 256

inductive RsaHash where
  | sha1
  | sha256
  | sha512
  deriving DecidableEq

/-- third-party cryptography -/
structure Crypto where
  /-- hickory's `DNSKEY::calculate_key_tag` -/
  calculateKeyTag : Dnskey → Option UInt16
  sha1 : Bytes → Bytes
  sha256 : Bytes → Bytes
  sha384 : Bytes → Bytes
  /-- ring, RSA PKCS#1 with 2048 to 8192 bits: modulus, exponent, message, signature -/
  ringRsa : RsaHash → Bytes → Bytes → Bytes → Bytes → Bool
  /-- the `rsa` crate: exponent, modulus, message, signature -/
  rsaCrate : RsaHash → Bytes → Bytes → Bytes → Bytes → Bool
  /-- ring, ECDSA with P-256: key, message, signature -/
  ecdsaP256 : Bytes → Bytes → Bytes → Bool
  ecdsaP384 : Bytes → Bytes → Bytes → Bool
  ed25519 : Bytes → Bytes → Bytes → Bool
  /-- `verify_mldsa44`: key, message, signature -/
  mldsa44 : Bytes → Bytes → Bytes → Bool
  /-- hickory's `PublicKey::verify`: key, message, signature -/
  publicKeyVerify : Dnskey → Bytes → Bytes → Bool

/-- `rrsig_time_valid`: 32-bit serial arithmetic on inception, expiration and the clock -/
def rrsigTimeValid (sig : Rrsig) (now : Nat) : Bool :=
  let now32 : UInt32 := UInt32.ofNat now
  decide ((now32 - sig.sigInception) < 0x80000000) &&
    decide ((sig.sigExpiration - now32) < 0x80000000) &&
    (decide ((sig.sigExpiration - sig.sigInception) < 0x80000000) &&
      decide (sig.sigExpiration ≠ sig.sigInception))

/-- the sum of `compute_key_tag`, big endian 16-bit words of the RDATA -/
def keyTagSum : Bytes → Nat
  | [] => 0
  | [b] => b.toNat * 256
  | b :: c :: bs => b.toNat * 256 + c.toNat + keyTagSum bs

/-- `compute_key_tag` -/
def computeKeyTag (cr : Crypto) (k : Dnskey) : Option UInt16 :=
  match cr.calculateKeyTag k with
  | some tag => some tag
  | none => (fits k.emit).map fun buf =>
      let ac := keyTagSum buf
      UInt16.ofNat ((ac + ac / 65536 % 65536) % 65536)

/-- `compute_key_tag(k).unwrap_or(u16::MAX)` -/
def keyTagOf (cr : Crypto) (k : Dnskey) : UInt16 := (computeKeyTag cr k).getD 0xFFFF

/-- `KeyTagExt::key_tag_matches` -/
def keyTagMatches (cr : Crypto) (k : Dnskey) (tag : UInt16) : Bool := keyTagOf cr k == tag

/-- `compute_ds_digest`: the owner is written in its stored case -/
def computeDsDigest (cr : Crypto) (owner : Name) (k : Dnskey) (digestType : UInt8) :
    Option Bytes :=
  match fits (owner.wire ++ k.emit) with
  | none => none
  | some buf =>
    if digestType = 1 then some (cr.sha1 buf)
    else if digestType = 2 then some (cr.sha256 buf)
    else if digestType = 4 then some (cr.sha384 buf)
    else none

/-! ## hexadecimal text -/

/-- `u8::from_str_radix` on two characters: a leading `+` is accepted -/
def hexPair (a b : UInt8) : Option UInt8 :=
  if a = 43 then byteDigit 16 b
  else match byteDigit 16 a, byteDigit 16 b with
    | some x, some y => some (16 * x + y)
    | _, _ => none

/-- `hex_decode` on the UTF-8 octets of the text -/
def hexDecode : Bytes → Option Bytes
  | [] => some []
  | [_] => none
  | a :: b :: rest =>
    match hexPair a b, hexDecode rest with
    | some x, some xs => some (x :: xs)
    | _, _ => none

def ascii (s : String) : Bytes := s.toList.map fun c => c.toNat.toUInt8

/-! ## signatures -/

/-- `parse_rsa_public_key`: exponent and modulus -/
def parseRsaPublicKey (bytes : Bytes) : Option (Bytes × Bytes) :=
  let split : Option (Nat × Bytes) :=
    match bytes with
    | [] => none
    | b0 :: rest =>
      if b0 = 0 then
        match rest with
        | b1 :: b2 :: rest' => some (b1.toNat * 256 + b2.toNat, rest')
        | _ => none
      else some (b0.toNat, rest)
  match split with
  | none => none
  | some (expLen, rest) =>
    if expLen = 0 ∨ rest.length < expLen then none
    else
      let modulus := rest.drop expLen
      if modulus.length < 64 ∨ 1024 < modulus.length then none
      else some (rest.take expLen, modulus)

/-- `verify_signature`: dispatch on the algorithm number -/
def verifySignature (cr : Crypto) (algorithm : UInt8) (pubkey message sig : Bytes) : Bool :=
  if algorithm = 5 ∨ algorithm = 7 then
    match parseRsaPublicKey pubkey with
    | none => false
    | some (exponent, modulus) =>
      (decide (ringRsaMinModulusBytes ≤ modulus.length) &&
          cr.ringRsa .sha1 modulus exponent message sig) ||
        cr.rsaCrate .sha1 exponent modulus message sig
  else if algorithm = 8 ∨ algorithm = 10 then
    match parseRsaPublicKey pubkey with
    | none => false
    | some (exponent, modulus) =>
      let hash : RsaHash := if algorithm = 8 then .sha256 else .sha512
      cr.ringRsa hash modulus exponent message sig ||
        (decide (modulus.length < ringRsaMinModulusBytes) && decide (algorithm = 8) &&
          cr.rsaCrate .sha256 exponent modulus message sig)
  else if algorithm = 13 then cr.ecdsaP256 (0x04 :: pubkey) message sig
  else if algorithm = 14 then cr.ecdsaP384 (0x04 :: pubkey) message sig
  else if algorithm = 15 then cr.ed25519 pubkey message sig
  else if algorithm = 18 then cr.mldsa44 pubkey message sig
  else false

/-- the part of `verify_rrsig` that does not look at the clock -/
def signatureValid (cr : Crypto) (sig : Rrsig) (key : Dnskey) (rrsigRecord : Record)
    (records : List Record) : Bool :=
  decide (sig.algorithm = key.algorithm) &&
    match buildTbsManual rrsigRecord records with
    | none => false
    | some tbs =>
      verifySignature cr sig.algorithm key.publicKey tbs sig.sig ||
        cr.publicKeyVerify key tbs sig.sig

/-- a valid signature is one over the octets of `build_tbs_manual` -/
theorem signatureValid_tbs {cr : Crypto} {sig : Rrsig} {key : Dnskey} {rrsigRecord : Record}
    {records : List Record} (h : signatureValid cr sig key rrsigRecord records = true) :
    ∃ tbs, buildTbsManual rrsigRecord records = some tbs ∧
      (verifySignature cr sig.algorithm key.publicKey tbs sig.sig = true ∨
        cr.publicKeyVerify key tbs sig.sig = true) := by
  unfold signatureValid at h
  rw [Bool.and_eq_true] at h
  cases ht : buildTbsManual rrsigRecord records with
  | none => simp [ht] at h
  | some tbs =>
    refine ⟨tbs, rfl, ?_⟩
    simpa [ht] using h.2

/-! ## the time window -/

theorem rrsigTimeValid_iff {sig : Rrsig} {now : Nat} :
    rrsigTimeValid sig now = true ↔
      Serial.Window sig.sigInception sig.sigExpiration (UInt32.ofNat now) ∧
        sig.sigExpiration ≠ sig.sigInception := by
  simp only [rrsigTimeValid, Bool.and_eq_true, decide_eq_true_eq]
  exact ⟨fun h => ⟨⟨h.1.1, h.1.2, h.2.1⟩, h.2.2⟩,
    fun h => ⟨⟨h.1.started, h.1.running⟩, h.1.ordered, h.2⟩⟩

theorem rrsigTimeValid_of_le {sig : Rrsig} {now : Nat} (hi : sig.sigInception.toNat ≤ now)
    (he : now ≤ sig.sigExpiration.toNat) (hlt : sig.sigInception.toNat < sig.sigExpiration.toNat)
    (hspan : sig.sigExpiration.toNat < 2147483648) : rrsigTimeValid sig now = true := by
  have hnow : (UInt32.ofNat now).toNat = now := by
    rw [UInt32.toNat_ofNat']
    omega
  have hne : sig.sigExpiration ≠ sig.sigInception := by
    rw [Ne, ← UInt32.toNat_inj]
    omega
  simp only [rrsigTimeValid, Bool.and_eq_true, decide_eq_true_eq, UInt32.lt_iff_toNat_lt,
    UInt32.toNat_sub, hnow, UInt32.reduceToNat]
  refine ⟨⟨?_, ?_⟩, ?_, hne⟩
  · omega
  · omega
  · omega

theorem rrsigTimeValid_later {sig : Rrsig} {s t : Nat} (h : rrsigTimeValid sig s = true)
    (hst : s ≤ t) (hl : t - s ≤ (sig.sigExpiration - UInt32.ofNat s).toNat) :
    rrsigTimeValid sig t = true := by
  obtain ⟨hw, hne⟩ := rrsigTimeValid_iff.mp h
  exact rrsigTimeValid_iff.mpr ⟨hw.later hst hl, hne⟩

/-- valid for a whole lifetime: valid when it starts and not expired before it ends -/
theorem rrsigTimeValid_throughout {sig : Rrsig} {t₀ ttl : Nat} (httl : ttl ≤ 86400) :
    (∀ t, t₀ ≤ t → t < t₀ + ttl → rrsigTimeValid sig t = true) ↔
      ttl = 0 ∨ (rrsigTimeValid sig t₀ = true ∧
        ttl ≤ (sig.sigExpiration - UInt32.ofNat t₀).toNat + 1) := by
  constructor
  · intro h
    by_cases h0 : ttl = 0
    · exact Or.inl h0
    · have hfirst := h t₀ (le_refl _) (by omega)
      have hlast := h (t₀ + (ttl - 1)) (by omega) (by omega)
      have hgone := (rrsigTimeValid_iff.mp hfirst).1.elapsed (rrsigTimeValid_iff.mp hlast).1
        (by omega) (by omega)
      exact Or.inr ⟨hfirst, by omega⟩
  · intro h t ht hlt
    rcases h with rfl | ⟨hvalid, hl⟩
    · omega
    · exact rrsigTimeValid_later hvalid ht (by omega)

end DnsResolver
