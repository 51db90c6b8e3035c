import Mathlib.Data.List.Basic
import DnsResolver.Lib.Digit

/-!
# Form-encoded text (`application/x-www-form-urlencoded`)

A query string is cut at `&`, each piece at its first `=`, and both parts are decoded: `+` is a
space, `%` and two hexadecimal digits an octet, and the octets are read as UTF-8.

* `lossy`           UTF-8 read with U+FFFD in place of what is ill-formed;
* `percentDecode`   the octets of a text;
* `decode`          one part; text without `%` in front of it only trades `+` for spaces
                    (`decode_append`);
* `pairs`           a query string.
-/

namespace FormText
open Digit

/-! ## UTF-8 -/

def tail (b : UInt8) : Bool := decide (0x80 ≤ b ∧ b ≤ 0xBF)

/-- an octet that may come second in a character of three or four -/
def second (first b : UInt8) : Bool :=
  if first = 0xE0 then decide (0xA0 ≤ b ∧ b ≤ 0xBF)
  else if first = 0xED then decide (0x80 ≤ b ∧ b ≤ 0x9F)
  else if first = 0xF0 then decide (0x90 ≤ b ∧ b ≤ 0xBF)
  else if first = 0xF4 then decide (0x80 ≤ b ∧ b ≤ 0x8F)
  else decide (0xE1 ≤ first ∧ first ≤ 0xF3) && tail b

/-- how many octets behind the first belong to the same ill-formed sequence -/
def cutOff (first : UInt8) : List UInt8 → Nat
  | [] => 0
  | b :: bs =>
    if !second first b then 0
    else if 0xF0 ≤ first && bs.head?.any tail then 2 else 1

def nextChar? (bs : List UInt8) : Option Char := bs.toByteArray.utf8DecodeChar? 0

/-- the text from `skip` octets on -/
def lossyFrom : Nat → List UInt8 → List Char
  | _, [] => []
  | skip + 1, _ :: bs => lossyFrom skip bs
  | 0, b :: bs =>
    match nextChar? (b :: bs) with
    | some c => c :: lossyFrom (c.utf8Size - 1) bs
    | none => Char.ofNat 0xFFFD :: lossyFrom (cutOff b bs) bs

def lossy (bs : List UInt8) : List Char := lossyFrom 0 bs

theorem lossyFrom_append (l r : List UInt8) : lossyFrom l.length (l ++ r) = lossy r := by
  induction l with
  | nil => rfl
  | cons b l ih =>
    rw [List.length_cons, List.cons_append, lossyFrom, ih]

theorem lossy_utf8EncodeChar (c : Char) (r : List UInt8) :
    lossy (String.utf8EncodeChar c ++ r) = c :: lossy r := by
  have hnext : nextChar? (String.utf8EncodeChar c ++ r) = some c := by
    unfold nextChar?
    rw [List.toByteArray_append]
    exact ByteArray.utf8DecodeChar?_utf8EncodeChar_append
  have hlen := String.length_utf8EncodeChar c
  cases hc : String.utf8EncodeChar c with
  | nil =>
    rw [hc] at hlen
    exact absurd hlen (Nat.ne_of_lt c.utf8Size_pos)
  | cons b bs =>
    rw [hc, List.cons_append] at hnext
    rw [hc, List.length_cons] at hlen
    rw [lossy, List.cons_append, lossyFrom, hnext]
    show c :: lossyFrom (c.utf8Size - 1) (bs ++ r) = c :: lossy r
    rw [← hlen, Nat.add_sub_cancel, lossyFrom_append]

theorem lossy_encode (s : List Char) (r : List UInt8) :
    lossy (s.flatMap String.utf8EncodeChar ++ r) = s ++ lossy r := by
  induction s with
  | nil => rfl
  | cons c s ih =>
    rw [List.flatMap_cons, List.append_assoc, lossy_utf8EncodeChar, ih, List.cons_append]

/-! ## octets -/

/-- the octet of two hexadecimal digits at the front -/
def escape : List Char → Option UInt8
  | a :: b :: _ =>
    match toDigit 16 a, toDigit 16 b with
    | some x, some y => some (UInt8.ofNat (16 * x + y))
    | _, _ => none
  | _ => none

/-- the octets from `skip` characters on -/
def percentFrom : Nat → List Char → List UInt8
  | _, [] => []
  | skip + 1, _ :: s => percentFrom skip s
  | 0, c :: s =>
    match if c = '%' then escape s else none with
    | some x => x :: percentFrom 2 s
    | none => String.utf8EncodeChar c ++ percentFrom 0 s

def percentDecode (s : List Char) : List UInt8 := percentFrom 0 s

theorem percentDecode_append {s : List Char} (h : '%' ∉ s) (r : List Char) :
    percentDecode (s ++ r) = s.flatMap String.utf8EncodeChar ++ percentDecode r := by
  induction s with
  | nil => rfl
  | cons c s ih =>
    rw [List.mem_cons, not_or] at h
    obtain ⟨hc, hs⟩ := h
    rw [List.cons_append, List.flatMap_cons, List.append_assoc, ← ih hs, percentDecode,
      percentFrom, if_neg (Ne.symm hc)]
    rfl

/-! ## parts and pairs -/

def plusToSpace (c : Char) : Char := if c = '+' then ' ' else c

def decode (s : List Char) : List Char := lossy (percentDecode (s.map plusToSpace))

theorem decode_append {s : List Char} (h : '%' ∉ s) (r : List Char) :
    decode (s ++ r) = s.map plusToSpace ++ decode r := by
  have hmap : '%' ∉ s.map plusToSpace := by
    intro hmem
    obtain ⟨c, hc, hplus⟩ := List.mem_map.mp hmem
    unfold plusToSpace at hplus
    split at hplus
    · exact absurd hplus (by decide)
    · rw [hplus] at hc
      exact h hc
  rw [decode, List.map_append, percentDecode_append hmap, lossy_encode]
  rfl

def pair (piece : List Char) : List Char × List Char :=
  (decode (piece.takeWhile fun c => c != '='),
    decode ((piece.dropWhile fun c => c != '=').drop 1))

def pairs (query : List Char) : List (List Char × List Char) :=
  ((query.splitOn '&').filter fun piece => !piece.isEmpty).map pair

end FormText
