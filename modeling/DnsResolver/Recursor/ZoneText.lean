import DnsResolver.Recursor.RootZone
import DnsResolver.Lib.Digit

/-!
# The text of a zone file (`str`, `FromStr`)

What the standard library does with the text of a zone file.

* `lines`, `trim`, `splitWhitespace`   `str::lines`, `str::trim`, `str::split_whitespace`;
* `parseU32`                           `u32::from_str`;
* `parseIpAddr`                        `IpAddr::from_str`, reader by reader: a reader takes what it
                                       reads off the front of the text and gives the rest back.
-/

namespace DnsResolver
open Digit

abbrev Text := List Char

/-- `char::is_whitespace` -/
def isWhitespace (c : Char) : Bool :=
  let n := c.toNat
  decide (9 ≤ n ∧ n ≤ 13) || n == 0x20 || n == 0x85 || n == 0xA0 || n == 0x1680 ||
    decide (0x2000 ≤ n ∧ n ≤ 0x200A) || n == 0x2028 || n == 0x2029 || n == 0x202F ||
    n == 0x205F || n == 0x3000

/-- `str::trim` -/
def trim (s : Text) : Text :=
  ((s.dropWhile isWhitespace).reverse.dropWhile isWhitespace).reverse

/-- `str::split_whitespace` -/
def splitWhitespace (s : Text) : List Text := (s.splitOnP isWhitespace).filter (· ≠ [])

/-- `str::lines`: a line ends with a line feed, and a carriage return before it does not count;
what is left at the end is a line if it is not empty -/
def lines (s : Text) : List Text :=
  let pieces := s.splitOn '\n'
  (pieces.dropLast.map fun l => if l.getLast? = some '\r' then l.dropLast else l) ++
    pieces.getLast?.toList.filter (· ≠ [])

/-- `u32::from_str` -/
def parseU32 (s : Text) : Option UInt32 :=
  let digits := if s.head? = some '+' then s.tail else s
  if digits = [] then none
  else
    match digits.mapM (toDigit 10) with
    | none => none
    | some ds =>
      let n := ds.foldl (fun n d => 10 * n + d) 0
      if n < 4294967296 then some (UInt32.ofNat n) else none

/-- `str::split` begins with what stands before the first separator -/
theorem splitOn_takeWhile {α : Type*} [DecidableEq α] (x : α) (t : List α) :
    ∃ rest, t.splitOn x = (t.takeWhile fun c => c != x) :: rest := by
  have htake : ∀ k : List α, x ∉ k → ∀ r, (k ++ r).takeWhile (fun c => c != x) =
      k ++ r.takeWhile fun c => c != x := by
    intro k hk r
    refine List.takeWhile_append_of_pos fun c hc => ?_
    rw [bne_iff_ne]
    rintro rfl
    exact hk hc
  by_cases h : x ∈ t
  · obtain ⟨k, r, rfl, hk⟩ := List.eq_append_cons_of_mem h
    refine ⟨r.splitOn x, ?_⟩
    rw [List.splitOn_append_cons_self_of_not_mem hk, htake k hk, List.takeWhile_cons,
      bne_self_eq_false, if_neg Bool.false_ne_true, List.append_nil]
  · have hall := htake t h []
    rw [List.append_nil, List.takeWhile_nil, List.append_nil] at hall
    exact ⟨[], by rw [List.splitOn_eq_singleton h, hall]⟩

/-! ## addresses -/

def readDigits (radix : Nat) : Text → List Nat × Text
  | [] => ([], [])
  | c :: s =>
    match toDigit radix c with
    | none => ([], c :: s)
    | some d => (d :: (readDigits radix s).1, (readDigits radix s).2)

/-- `Parser::read_number` for a number of at most `maxDigits` digits below `bound` -/
def readNumber (radix maxDigits bound : Nat) (allowZeroPrefix : Bool) (s : Text) :
    Option (Nat × Text) :=
  let (ds, rest) := readDigits radix s
  let n := ds.foldl (fun n d => radix * n + d) 0
  if ds = [] || decide (maxDigits < ds.length) then none
  else if !allowZeroPrefix && ds.head? == some 0 && decide (1 < ds.length) then none
  else if n < bound then some (n, rest) else none

/-- `Parser::read_given_char` -/
def readGivenChar (c : Char) : Text → Option Text
  | [] => none
  | d :: s => if d = c then some s else none

/-- `Parser::read_separator`: the first of a row has no separator before it -/
def readSeparator {α : Type} (sep : Char) (index : Nat) (inner : Text → Option (α × Text))
    (s : Text) : Option (α × Text) :=
  if 0 < index then (readGivenChar sep s).bind inner else inner s

/-- one octet of an address in dotted decimal -/
def readOctet (index : Nat) (s : Text) : Option (UInt8 × Text) :=
  (readSeparator '.' index (readNumber 10 3 256 false) s).map fun r => (UInt8.ofNat r.1, r.2)

def Ipv4Addr.ofOctets (os : List UInt8) : Ipv4Addr := ⟨Vector.ofFn fun i => os.getD i.val 0⟩

/-- `Parser::read_ipv4_addr` -/
def readIpv4Addr (s : Text) : Option (Ipv4Addr × Text) := do
  let (a, s) ← readOctet 0 s
  let (b, s) ← readOctet 1 s
  let (c, s) ← readOctet 2 s
  let (d, s) ← readOctet 3 s
  return (Ipv4Addr.ofOctets [a, b, c, d], s)

/-- the two groups of an embedded IPv4 address -/
def Ipv4Addr.groups (a : Ipv4Addr) : List UInt16 :=
  let octet := fun i => (a.octets.toList.getD i 0).toNat
  [UInt16.ofNat (256 * octet 0 + octet 1), UInt16.ofNat (256 * octet 2 + octet 3)]

/-- `read_groups` from group `index` on, with room for `left` more; the flag says that the last two
came from an IPv4 address -/
def readGroups (index : Nat) : Nat → Text → List UInt16 × Bool × Text
  | 0, s => ([], false, s)
  | left + 1, s =>
    match if 0 < left then readSeparator ':' index readIpv4Addr s else none with
    | some (v4, rest) => (v4.groups, true, rest)
    | none =>
      match readSeparator ':' index (readNumber 16 4 65536 true) s with
      | none => ([], false, s)
      | some (g, rest) =>
        let (gs, v4, rest) := readGroups (index + 1) left rest
        (UInt16.ofNat g :: gs, v4, rest)

def Ipv6Addr.ofGroups (gs : List UInt16) : Ipv6Addr :=
  ⟨Vector.ofFn fun i => gs.getD i.val 0⟩

/-- `Parser::read_ipv6_addr`: the groups up to `::`, and those after it moved to the end -/
def readIpv6Addr (s : Text) : Option (Ipv6Addr × Text) :=
  let (head, headIpv4, s) := readGroups 0 8 s
  if head.length = 8 then some (Ipv6Addr.ofGroups head, s)
  else if headIpv4 then none
  else do
    let s ← readGivenChar ':' s
    let s ← readGivenChar ':' s
    let (tail, _, s) := readGroups 0 (8 - (head.length + 1)) s
    return (Ipv6Addr.ofGroups
      (head ++ List.replicate (8 - head.length - tail.length) 0 ++ tail), s)

/-- `Parser::read_ip_addr` -/
def readIpAddr (s : Text) : Option (IpAddr × Text) :=
  match readIpv4Addr s with
  | some (a, rest) => some (.V4 a, rest)
  | none =>
    match readIpv6Addr s with
    | some (a, rest) => some (.V6 a, rest)
    | none => none

/-- `IpAddr::from_str` -/
def parseIpAddr (s : Text) : Option IpAddr :=
  match readIpAddr s with
  | some (ip, []) => some ip
  | _ => none

example : parseIpAddr "192.5.6.30".toList =
    some (.V4 ⟨#v[192, 5, 6, 30]⟩) := by decide +kernel

example : parseIpAddr "2001:Db8::30".toList =
    some (.V6 ⟨#v[0x2001, 0xdb8, 0, 0, 0, 0, 0, 0x30]⟩) := by decide +kernel

example : parseIpAddr "1.02.3.4".toList = none := by decide +kernel

end DnsResolver
