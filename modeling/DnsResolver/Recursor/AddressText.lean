import DnsResolver.Recursor.ZoneText
import Mathlib.Algebra.Group.Nat.Defs

/-!
# Addresses as text (`Display` and `FromStr` of `IpAddr`)

The zone is stored with its addresses as text, and read back by `parseIpAddr`.

* `IpAddr.display`        `to_string`: dotted decimal, and groups with the longest row of zeros left
                          out;
* `readNumber_toDigits`   a number in its own digits is read back, whatever comes behind it;
* `readGroups_fmt`        and so is a row of groups;
* `parseIpAddr_display`   and every address.
-/

namespace DnsResolver
open Digit

/-! ## text -/

def octetText (o : UInt8) : Text := Nat.toDigits 10 o.toNat

/-- `{:x}` -/
def groupText (g : UInt16) : Text := Nat.toDigits 16 g.toNat

def Ipv4Addr.display (a : Ipv4Addr) : Text := ['.'].intercalate (a.octets.toList.map octetText)

/-- `fmt_subslice` -/
def fmtSubslice : List UInt16 → Text
  | [] => []
  | first :: tail => groupText first ++ tail.flatMap fun g => ':' :: groupText g

/-- a row of zeros -/
structure Span where
  start : Nat := 0
  len : Nat := 0

/-- the variables of the loop over the segments -/
structure Spans where
  longest : Span := {}
  current : Span := {}
  index : Nat := 0

def Spans.step (s : Spans) (segment : UInt16) : Spans :=
  if segment = 0 then
    let current : Span :=
      ⟨if s.current.len = 0 then s.index else s.current.start, s.current.len + 1⟩
    ⟨if s.longest.len < current.len then current else s.longest, current, s.index + 1⟩
  else ⟨s.longest, {}, s.index + 1⟩

def zeroes (segments : List UInt16) : Span := (segments.foldl Spans.step {}).longest

def Ipv6Addr.display (a : Ipv6Addr) : Text :=
  let segments := a.segments.toList
  if segments.take 6 = [0, 0, 0, 0, 0, 0xffff] then "::ffff:".toList ++ a.mapped.display
  else
    let z := zeroes segments
    if 1 < z.len then
      fmtSubslice (segments.take z.start) ++ ':' :: ':' ::
        fmtSubslice (segments.drop (z.start + z.len))
    else fmtSubslice segments

/-- `IpAddr::to_string` -/
def IpAddr.display : IpAddr → Text
  | .V4 a => a.display
  | .V6 a => a.display

/-! ## numbers -/

def Breaks (radix : Nat) (rest : Text) : Prop := ∀ c, rest.head? = some c → toDigit radix c = none

theorem readDigits_append {radix : Nat} {l rest : Text} (hl : ∀ c ∈ l, toDigit radix c ≠ none)
    (hrest : Breaks radix rest) :
    readDigits radix (l ++ rest) = (l.filterMap (toDigit radix), rest) := by
  induction l with
  | nil =>
    cases rest with
    | nil => rfl
    | cons c rest =>
      rw [List.nil_append, readDigits, hrest c rfl]
      rfl
  | cons c l ih =>
    obtain ⟨d, hd⟩ := Option.ne_none_iff_exists'.mp (hl c List.mem_cons_self)
    have htail := ih fun c' hc' => hl c' (List.mem_cons_of_mem c hc')
    rw [List.cons_append, readDigits, hd, htail, List.filterMap_cons, hd]

/-- the radices of the two kinds of addresses -/
def Radix (b : Nat) : Prop := b = 10 ∨ b = 16

theorem toDigit_digitChar {b d : Nat} (hb : Radix b) (hd : d < b) :
    toDigit b (Nat.digitChar d) = some d := by
  have hten : ∀ d < 10, toDigit 10 (Nat.digitChar d) = some d := by decide
  have hsixteen : ∀ d < 16, toDigit 16 (Nat.digitChar d) = some d := by decide
  rcases hb with rfl | rfl
  · exact hten d hd
  · exact hsixteen d hd

/-- the digits of a number are its digits, and the first of more than one is not zero -/
theorem toDigits_spec {b : Nat} (hb : Radix b) (n : Nat) :
    (∀ c ∈ Nat.toDigits b n, toDigit b c ≠ none) ∧
    ((Nat.toDigits b n).filterMap (toDigit b)).foldl (fun n d => b * n + d) 0 = n ∧
    (((Nat.toDigits b n).filterMap (toDigit b)).head? = some 0 → n = 0) ∧
    ((Nat.toDigits b n).filterMap (toDigit b)).length = (Nat.toDigits b n).length := by
  have hone : 1 < b := by
    rcases hb with rfl | rfl
    · decide
    · decide
  induction n using Nat.strongRecOn with
  | ind n ih =>
    by_cases hn : n < b
    · have hdigit := toDigit_digitChar hb hn
      rw [Nat.toDigits_of_lt_base hn, List.filterMap_cons, hdigit]
      refine ⟨?_, ?_, fun h => Option.some.inj h, rfl⟩
      · intro c hc
        rw [List.mem_singleton.mp hc, hdigit]
        exact Option.some_ne_none n
      · show b * 0 + n = n
        rw [Nat.mul_zero, Nat.zero_add]
    · have hle : b ≤ n := Nat.le_of_not_lt hn
      have hmod : n % b < b := Nat.mod_lt n (Nat.lt_trans Nat.zero_lt_one hone)
      have hdigit := toDigit_digitChar hb hmod
      have hquot : 0 < n / b := Nat.div_pos hle (Nat.lt_trans Nat.zero_lt_one hone)
      obtain ⟨hall, hvalue, hzero, hlength⟩ := ih (n / b) (Nat.div_lt_self (by omega) hone)
      rw [Nat.toDigits_of_base_le hone hle, List.filterMap_append, List.filterMap_cons, hdigit]
      refine ⟨?_, ?_, ?_, ?_⟩
      · intro c hc
        rcases List.mem_append.mp hc with hc | hc
        · exact hall c hc
        · rw [List.mem_singleton.mp hc, hdigit]
          exact Option.some_ne_none _
      · rw [List.foldl_append, hvalue]
        show b * (n / b) + n % b = n
        exact Nat.div_add_mod n b
      · intro hhead
        have hne : (Nat.toDigits b (n / b)).filterMap (toDigit b) ≠ [] := by
          intro hnil
          rw [hnil] at hlength
          exact absurd hlength.symm (Nat.ne_of_gt Nat.length_toDigits_pos)
        rw [List.head?_append_of_ne_nil _ hne] at hhead
        have := hzero hhead
        omega
      · rw [List.length_append, List.length_append, hlength]
        rfl

/-- **A number is read back.** -/
theorem readNumber_toDigits {b maxDigits bound n : Nat} {allowZero : Bool} {rest : Text}
    (hb : Radix b) (hmax : 0 < maxDigits) (hlen : n < b ^ maxDigits) (hn : n < bound)
    (hrest : Breaks b rest) :
    readNumber b maxDigits bound allowZero (Nat.toDigits b n ++ rest) = some (n, rest) := by
  have hone : 1 < b := by
    rcases hb with rfl | rfl
    · decide
    · decide
  obtain ⟨hall, hvalue, hzero, hlength⟩ := toDigits_spec hb n
  unfold readNumber
  rw [readDigits_append hall hrest]
  dsimp only
  generalize (Nat.toDigits b n).filterMap (toDigit b) = ds at hvalue hzero hlength ⊢
  have hpos : 0 < ds.length := by
    rw [hlength]
    exact Nat.length_toDigits_pos
  have hnil : ds ≠ [] := List.ne_nil_of_length_pos hpos
  have hle : ds.length ≤ maxDigits := by
    rw [hlength]
    exact (Nat.length_toDigits_le_iff hone hmax).mpr hlen
  have hfirst : (decide (ds = []) || decide (maxDigits < ds.length)) = false := by
    rw [decide_eq_false hnil, decide_eq_false (Nat.not_lt.mpr hle)]
    rfl
  have hsecond : (!allowZero && ds.head? == some 0 && decide (1 < ds.length)) = false := by
    by_cases hhead : ds.head? = some 0
    · have hn0 := hzero hhead
      have hlen1 : ds.length = 1 := by
        rw [hlength, hn0, Nat.toDigits_zero]
        rfl
      rw [hlen1, decide_eq_false (Nat.lt_irrefl 1), Bool.and_false]
    · rw [beq_eq_false_iff_ne.mpr hhead, Bool.and_false, Bool.false_and]
  rw [hfirst, hsecond, hvalue]
  exact if_pos hn

/-! ## dotted decimal -/

theorem readOctet_first (o : UInt8) {rest : Text} (hrest : Breaks 10 rest) :
    readOctet 0 (octetText o ++ rest) = some (o, rest) := by
  have ho := o.toNat_lt
  have hnum : readNumber 10 3 256 false (octetText o ++ rest) = some (o.toNat, rest) :=
    readNumber_toDigits (.inl rfl) (by decide) (by omega) (by omega) hrest
  unfold readOctet readSeparator
  rw [if_neg (Nat.lt_irrefl 0), hnum, Option.map_some, UInt8.ofNat_toNat]

theorem readOctet_next (index : Nat) (o : UInt8) {rest : Text} (hrest : Breaks 10 rest) :
    readOctet (index + 1) ('.' :: (octetText o ++ rest)) = some (o, rest) := by
  have hfirst := readOctet_first o hrest
  unfold readOctet readSeparator at hfirst ⊢
  rw [if_neg (Nat.lt_irrefl 0)] at hfirst
  rw [if_pos (Nat.succ_pos index)]
  show ((readGivenChar '.' ('.' :: (octetText o ++ rest))).bind _).map _ = _
  rw [readGivenChar, if_pos rfl, Option.bind_some]
  exact hfirst

theorem breaks_cons {b : Nat} {c : Char} {rest : Text} (h : toDigit b c = none) :
    Breaks b (c :: rest) := by
  intro c' hc'
  rw [← Option.some.inj hc']
  exact h

theorem breaks_nil (b : Nat) : Breaks b [] := by
  intro c hc
  cases hc

theorem ofOctets_octets (a : Ipv4Addr) :
    Ipv4Addr.ofOctets [a.octets.get 0, a.octets.get 1, a.octets.get 2, a.octets.get 3] = a := by
  cases a with
  | mk octets =>
    unfold Ipv4Addr.ofOctets
    congr 1
    ext i hi
    rw [Vector.getElem_ofFn]
    obtain rfl | rfl | rfl | rfl : i = 0 ∨ i = 1 ∨ i = 2 ∨ i = 3 := by omega
    · rfl
    · rfl
    · rfl
    · rfl

theorem display_octets (a : Ipv4Addr) :
    a.display = octetText (a.octets.get 0) ++ '.' :: (octetText (a.octets.get 1) ++ '.' ::
      (octetText (a.octets.get 2) ++ '.' :: octetText (a.octets.get 3))) := by
  have hlist : a.octets.toList =
      [a.octets.get 0, a.octets.get 1, a.octets.get 2, a.octets.get 3] := by
    refine List.ext_getElem (by rw [Vector.length_toList]; rfl) ?_
    intro i hi hi'
    obtain rfl | rfl | rfl | rfl : i = 0 ∨ i = 1 ∨ i = 2 ∨ i = 3 := by
      have hlt : i < 4 := hi'
      omega
    · rfl
    · rfl
    · rfl
    · rfl
  unfold Ipv4Addr.display
  rw [hlist]
  simp [List.intercalate]

theorem readIpv4Addr_display (a : Ipv4Addr) {rest : Text} (hrest : Breaks 10 rest) :
    readIpv4Addr (a.display ++ rest) = some (a, rest) := by
  have hdot : toDigit 10 '.' = none := by decide
  have htext : a.display ++ rest = octetText (a.octets.get 0) ++ '.' ::
      (octetText (a.octets.get 1) ++ '.' :: (octetText (a.octets.get 2) ++ '.' ::
        (octetText (a.octets.get 3) ++ rest))) := by
    rw [display_octets]
    rw [List.append_assoc, List.cons_append, List.append_assoc, List.cons_append,
      List.append_assoc, List.cons_append]
  unfold readIpv4Addr
  rw [htext, readOctet_first _ (breaks_cons hdot), Option.bind_eq_bind, Option.bind_some]
  dsimp only
  rw [readOctet_next 0 _ (breaks_cons hdot), Option.bind_some]
  dsimp only
  rw [readOctet_next 1 _ (breaks_cons hdot), Option.bind_some]
  dsimp only
  rw [readOctet_next 2 _ hrest, Option.bind_some]
  dsimp only
  rw [ofOctets_octets]
  rfl

theorem readDigits_head {radix : Nat} {l rest : Text} (hl : ∀ c ∈ l, c ≠ '.')
    (hrest : Breaks radix rest) (hdot : rest.head? ≠ some '.') :
    (readDigits radix (l ++ rest)).2.head? ≠ some '.' := by
  induction l with
  | nil =>
    cases rest with
    | nil => exact hdot
    | cons c rest =>
      rw [List.nil_append, readDigits, hrest c rfl]
      exact hdot
  | cons c l ih =>
    rw [List.cons_append, readDigits]
    cases toDigit radix c with
    | none => exact fun h => hl c List.mem_cons_self (Option.some.inj h)
    | some d => exact ih fun c' hc' => hl c' (List.mem_cons_of_mem c hc')

/-- what is no dotted decimal -/
theorem readIpv4Addr_none {l rest : Text} (hl : ∀ c ∈ l, c ≠ '.') (hrest : Breaks 10 rest)
    (hdot : rest.head? ≠ some '.') : readIpv4Addr (l ++ rest) = none := by
  have hhead := readDigits_head hl hrest hdot
  unfold readIpv4Addr
  cases hfirst : readOctet 0 (l ++ rest) with
  | none => rfl
  | some r =>
    have hr : r.2.head? ≠ some '.' := by
      unfold readOctet readSeparator readNumber at hfirst
      rw [if_neg (Nat.lt_irrefl 0)] at hfirst
      obtain ⟨x, hx, rfl⟩ := Option.map_eq_some_iff.mp hfirst
      dsimp only at hx
      split_ifs at hx
      rw [← Option.some.inj hx]
      exact hhead
    have hnext : readOctet 1 r.2 = none := by
      unfold readOctet readSeparator
      rw [if_pos Nat.zero_lt_one]
      cases hr2 : r.2 with
      | nil => rfl
      | cons c t =>
        rw [hr2] at hr
        rw [readGivenChar, if_neg fun hc => hr (congrArg some hc)]
        rfl
    rw [Option.bind_eq_bind, Option.bind_some]
    dsimp only
    rw [hnext]
    rfl

/-! ## groups -/

theorem groupText_dot (g : UInt16) : ∀ c ∈ groupText g, c ≠ '.' := by
  intro c hc hdot
  have hdigit := (toDigits_spec (.inr rfl) g.toNat).1 c hc
  rw [hdot] at hdigit
  exact hdigit (by decide)

def Stops (rest : Text) : Prop := rest = [] ∨ ∃ t, rest = ':' :: ':' :: t

theorem Stops.breaks {rest : Text} (h : Stops rest) (b : Nat) (hb : Radix b) : Breaks b rest := by
  rcases h with rfl | ⟨t, rfl⟩
  · exact breaks_nil b
  · refine breaks_cons ?_
    rcases hb with rfl | rfl
    · decide
    · decide

theorem Stops.head {rest : Text} (h : Stops rest) : rest.head? ≠ some '.' := by
  rcases h with rfl | ⟨t, rfl⟩
  · exact fun h => by cases h
  · exact fun h => absurd (Option.some.inj h) (by decide)

theorem readNumber_none {radix maxDigits bound : Nat} {allowZero : Bool} {s : Text}
    (hs : Breaks radix s) : readNumber radix maxDigits bound allowZero s = none := by
  have hdigits : readDigits radix s = ([], s) := by
    cases s with
    | nil => rfl
    | cons c s => rw [readDigits, hs c rfl]
  unfold readNumber
  rw [hdigits]
  rfl

theorem readSeparator_stops {α : Type} {inner : Text → Option (α × Text)} {rest : Text}
    (h : Stops rest) (hinner : ∀ s, s = rest ∨ (∃ t, rest = ':' :: s ∧ s = ':' :: t) →
      inner s = none) (index : Nat) : readSeparator ':' index inner rest = none := by
  unfold readSeparator
  split
  · rcases h with rfl | ⟨t, rfl⟩
    · rfl
    · rw [readGivenChar, if_pos rfl, Option.bind_some]
      exact hinner _ (.inr ⟨t, rfl, rfl⟩)
  · exact hinner _ (.inl rfl)

theorem readGroups_stops {rest : Text} (h : Stops rest) (index left : Nat) :
    readGroups index left rest = ([], false, rest) := by
  cases left with
  | zero => rfl
  | succ left =>
    have hcolon : ∀ b, Radix b → toDigit b ':' = none := by
      intro b hb
      rcases hb with rfl | rfl
      · decide
      · decide
    have hbreaks : ∀ b, Radix b → ∀ s, s = rest ∨ (∃ t, rest = ':' :: s ∧ s = ':' :: t) →
        Breaks b s := by
      rintro b hb s (rfl | ⟨t, -, rfl⟩)
      · exact h.breaks b hb
      · exact breaks_cons (hcolon b hb)
    have hdot : ∀ s, s = rest ∨ (∃ t, rest = ':' :: s ∧ s = ':' :: t) → s.head? ≠ some '.' := by
      rintro s (rfl | ⟨t, -, rfl⟩)
      · exact h.head
      · exact fun h => absurd (Option.some.inj h) (by decide)
    have hv4 : readSeparator ':' index readIpv4Addr rest = none := by
      refine readSeparator_stops h (fun s hs => ?_) index
      have hnone := readIpv4Addr_none (l := []) (fun c hc => absurd hc List.not_mem_nil)
        (hbreaks 10 (.inl rfl) s hs) (hdot s hs)
      exact hnone
    have hnum : readSeparator ':' index (readNumber 16 4 65536 true) rest = none :=
      readSeparator_stops h (fun s hs => readNumber_none (hbreaks 16 (.inr rfl) s hs)) index
    rw [readGroups, hv4, hnum, ite_self]

theorem readGroups_cons {g : UInt16} {rest : Text} (hrest : ∀ b, Radix b → Breaks b rest)
    (hdot : rest.head? ≠ some '.') (index left : Nat) :
    readGroups index (left + 1)
        ((if 0 < index then [':'] else []) ++ (groupText g ++ rest)) =
      (g :: (readGroups (index + 1) left rest).1, (readGroups (index + 1) left rest).2) := by
  have hg := g.toNat_lt
  have hsep : ∀ {α : Type} (inner : Text → Option (α × Text)),
      readSeparator ':' index inner ((if 0 < index then [':'] else []) ++ (groupText g ++ rest)) =
        inner (groupText g ++ rest) := by
    intro α inner
    unfold readSeparator
    by_cases hi : 0 < index
    · rw [if_pos hi, if_pos hi]
      show (readGivenChar ':' (':' :: (groupText g ++ rest))).bind inner = _
      rw [readGivenChar, if_pos rfl, Option.bind_some]
    · rw [if_neg hi, if_neg hi, List.nil_append]
  have hnum : readNumber 16 4 65536 true (groupText g ++ rest) = some (g.toNat, rest) :=
    readNumber_toDigits (.inr rfl) (by decide) (by omega) (by omega) (hrest 16 (.inr rfl))
  rw [readGroups, hsep, hsep, readIpv4Addr_none (groupText_dot g) (hrest 10 (.inl rfl)) hdot,
    ite_self, hnum]
  dsimp only
  rw [UInt16.ofNat_toNat]

theorem groups_front {gs : List UInt16} {rest : Text} (hrest : Stops rest) :
    (∀ b, Radix b → Breaks b ((gs.flatMap fun g => ':' :: groupText g) ++ rest)) ∧
      ((gs.flatMap fun g => ':' :: groupText g) ++ rest).head? ≠ some '.' := by
  cases gs with
  | nil => exact ⟨fun b hb => hrest.breaks b hb, hrest.head⟩
  | cons g gs =>
    refine ⟨fun b hb => breaks_cons ?_, fun h => absurd (Option.some.inj h) (by decide)⟩
    rcases hb with rfl | rfl
    · decide
    · decide

/-- **A row of groups is read back**, up to the end of the text or two colons. -/
theorem readGroups_tail {gs : List UInt16} {rest : Text} (hrest : Stops rest) {left : Nat}
    (hlen : gs.length ≤ left) (index : Nat) :
    readGroups (index + 1) left ((gs.flatMap fun g => ':' :: groupText g) ++ rest) =
      (gs, false, rest) := by
  induction gs generalizing left index with
  | nil => exact readGroups_stops hrest (index + 1) left
  | cons g gs ih =>
    obtain ⟨left, rfl⟩ := Nat.exists_eq_succ_of_ne_zero
      (Nat.ne_of_gt (Nat.lt_of_lt_of_le (Nat.succ_pos gs.length) hlen))
    have hfront : (∀ b, Radix b → Breaks b ((gs.flatMap fun g => ':' :: groupText g) ++ rest)) ∧
        ((gs.flatMap fun g => ':' :: groupText g) ++ rest).head? ≠ some '.' := groups_front hrest
    have hstep := readGroups_cons (g := g) hfront.1 hfront.2 (index + 1) left
    rw [ih (Nat.le_of_succ_le_succ hlen) (index + 1)] at hstep
    rw [List.flatMap_cons, List.append_assoc]
    exact hstep

theorem readGroups_fmt {gs : List UInt16} {rest : Text} (hrest : Stops rest) {left : Nat}
    (hlen : gs.length ≤ left) :
    readGroups 0 left (fmtSubslice gs ++ rest) = (gs, false, rest) := by
  cases gs with
  | nil => exact readGroups_stops hrest 0 left
  | cons g gs =>
    obtain ⟨left, rfl⟩ := Nat.exists_eq_succ_of_ne_zero
      (Nat.ne_of_gt (Nat.lt_of_lt_of_le (Nat.succ_pos gs.length) hlen))
    have hfront : (∀ b, Radix b → Breaks b ((gs.flatMap fun g => ':' :: groupText g) ++ rest)) ∧
        ((gs.flatMap fun g => ':' :: groupText g) ++ rest).head? ≠ some '.' := groups_front hrest
    have hstep := readGroups_cons (g := g) hfront.1 hfront.2 0 left
    rw [readGroups_tail hrest (Nat.le_of_succ_le_succ hlen) 0] at hstep
    rw [fmtSubslice, List.append_assoc]
    exact hstep

/-! ## the longest row of zeros -/

/-- a row of zeros in what was seen -/
def Span.Zero (seen : List UInt16) (s : Span) : Prop :=
  s.start + s.len ≤ seen.length ∧ ∀ i, s.start ≤ i → i < s.start + s.len → seen[i]? = some 0

structure SpansInv (seen : List UInt16) (s : Spans) : Prop where
  index : s.index = seen.length
  longest : s.longest.Zero seen
  current : s.current.Zero seen
  reaches : s.current.len ≠ 0 → s.current.start + s.current.len = seen.length

theorem Span.Zero.concat {seen : List UInt16} {s : Span} (h : s.Zero seen) (g : UInt16) :
    s.Zero (seen ++ [g]) := by
  refine ⟨?_, fun i hi hlt => ?_⟩
  · rw [List.length_append]
    exact Nat.le_add_right_of_le h.1
  · have hseen := h.2 i hi hlt
    rw [List.getElem?_append_left (List.getElem?_eq_some_iff.mp hseen).1]
    exact hseen

theorem Spans.step_inv {seen : List UInt16} {s : Spans} (h : SpansInv seen s) (g : UInt16) :
    SpansInv (seen ++ [g]) (s.step g) := by
  have hlen : (seen ++ [g]).length = seen.length + 1 := by
    rw [List.length_append]
    rfl
  have hempty : Span.Zero (seen ++ [g]) {} :=
    ⟨Nat.zero_le _, fun i _ hlt => absurd hlt (Nat.not_lt_zero i)⟩
  unfold Spans.step
  by_cases hg : g = 0
  · rw [if_pos hg]
    have hcurrent : ∀ start, start = (if s.current.len = 0 then s.index else s.current.start) →
        start + (s.current.len + 1) = seen.length + 1 ∧
          Span.Zero (seen ++ [g]) ⟨start, s.current.len + 1⟩ := by
      rintro start rfl
      by_cases hzero : s.current.len = 0
      · rw [if_pos hzero, hzero, h.index]
        refine ⟨rfl, ⟨?_, fun i hi hlt => ?_⟩⟩
        · rw [hlen]
        · have hi' : i = seen.length := by
            dsimp only at hi hlt
            omega
          rw [hi', List.getElem?_append_right (Nat.le_refl _), Nat.sub_self, hg]
          rfl
      · rw [if_neg hzero]
        have hreach := h.reaches hzero
        refine ⟨by omega, ⟨?_, fun i hi hlt => ?_⟩⟩
        · dsimp only
          rw [hlen]
          omega
        · dsimp only at hi hlt
          by_cases hlast : i = seen.length
          · rw [hlast, List.getElem?_append_right (Nat.le_refl _), Nat.sub_self, hg]
            rfl
          · exact (h.current.concat g).2 i hi (by omega)
    obtain ⟨hreach, hzero⟩ := hcurrent _ rfl
    refine ⟨?_, ?_, hzero, fun _ => ?_⟩
    · show s.index + 1 = _
      rw [hlen, h.index]
    · dsimp only
      split
      · exact hzero
      · exact h.longest.concat g
    · rw [hlen]
      exact hreach
  · rw [if_neg hg]
    refine ⟨?_, h.longest.concat g, hempty, fun hne => absurd rfl hne⟩
    show s.index + 1 = _
    rw [hlen, h.index]

theorem zeroes_zero (segments : List UInt16) : (zeroes segments).Zero segments := by
  have hrun : ∀ (gs seen : List UInt16) (s : Spans), SpansInv seen s →
      SpansInv (seen ++ gs) (gs.foldl Spans.step s) := by
    intro gs
    induction gs with
    | nil =>
      intro seen s h
      rw [List.append_nil]
      exact h
    | cons g gs ih =>
      intro seen s h
      have hnext := ih (seen ++ [g]) (s.step g) (Spans.step_inv h g)
      rw [List.append_assoc] at hnext
      exact hnext
  have hempty : Span.Zero [] {} := ⟨Nat.le_refl 0, fun i _ hlt => absurd hlt (Nat.not_lt_zero i)⟩
  exact (hrun segments [] {} ⟨rfl, hempty, hempty, fun hne => absurd rfl hne⟩).longest

theorem segments_split {segments : List UInt16} {z : Span} (hz : z.Zero segments) :
    segments.take z.start ++ List.replicate z.len 0 ++ segments.drop (z.start + z.len) =
      segments := by
  have hmid : (segments.drop z.start).take z.len = List.replicate z.len 0 := by
    refine List.ext_getElem? fun i => ?_
    rw [List.getElem?_take, List.getElem?_drop, List.getElem?_replicate]
    by_cases hi : i < z.len
    · rw [if_pos hi, if_pos hi]
      exact hz.2 _ (Nat.le_add_right _ _) (Nat.add_lt_add_left hi _)
    · rw [if_neg hi, if_neg hi]
  rw [← hmid, List.append_assoc, ← List.drop_drop, List.take_append_drop, List.take_append_drop]

/-! ## addresses -/

theorem ofGroups_segments (a : Ipv6Addr) : Ipv6Addr.ofGroups a.segments.toList = a := by
  cases a with
  | mk segments =>
    unfold Ipv6Addr.ofGroups
    congr 1
    ext i hi
    have hlen : i < segments.toList.length := by
      rw [Vector.length_toList]
      exact hi
    rw [Vector.getElem_ofFn, List.getD_eq_getElem?_getD, List.getElem?_eq_getElem hlen,
      Option.getD_some]
    rfl

theorem ofNat_octets (g : UInt16) :
    UInt16.ofNat (256 * (g >>> 8).toUInt8.toNat + g.toUInt8.toNat) = g := by
  have hg := g.toNat_lt
  have hhigh : (g >>> 8).toUInt8.toNat = g.toNat / 256 := by
    rw [UInt16.toNat_toUInt8, UInt16.toNat_shiftRight]
    show g.toNat >>> 8 % 2 ^ 8 = _
    rw [Nat.shiftRight_eq_div_pow]
    omega
  have hlow : g.toUInt8.toNat = g.toNat % 256 := UInt16.toNat_toUInt8 g
  rw [hhigh, hlow, Nat.div_add_mod, UInt16.ofNat_toNat]

theorem mapped_groups {a : Ipv6Addr} (h : a.segments.toList.take 6 = [0, 0, 0, 0, 0, 0xffff]) :
    [0, 0, 0, 0, 0, 0xffff] ++ a.mapped.groups = a.segments.toList := by
  have hgroups : a.mapped.groups = a.segments.toList.drop 6 := by
    have hdrop : a.segments.toList.drop 6 = [a.segments[6], a.segments[7]] := by
      refine List.ext_getElem (by rw [List.length_drop, Vector.length_toList]; rfl) ?_
      intro i hi hi'
      rw [List.getElem_drop]
      obtain rfl | rfl : i = 0 ∨ i = 1 := by
        have hlt : i < 2 := hi'
        omega
      · rfl
      · rfl
    rw [hdrop]
    show [UInt16.ofNat (256 * (a.segments[6] >>> 8).toUInt8.toNat + a.segments[6].toUInt8.toNat),
      UInt16.ofNat (256 * (a.segments[7] >>> 8).toUInt8.toNat + a.segments[7].toUInt8.toNat)] = _
    rw [ofNat_octets, ofNat_octets]
  rw [hgroups, ← h, List.take_append_drop]

theorem readIpv6Addr_colons {s t rest : Text} {head tail : List UInt16} {v4 : Bool}
    (hhead : readGroups 0 8 s = (head, false, ':' :: ':' :: t)) (hlen : head.length < 8)
    (htail : readGroups 0 (8 - (head.length + 1)) t = (tail, v4, rest)) :
    readIpv6Addr s = some (Ipv6Addr.ofGroups
      (head ++ List.replicate (8 - head.length - tail.length) 0 ++ tail), rest) := by
  unfold readIpv6Addr
  rw [hhead]
  dsimp only
  rw [if_neg (Nat.ne_of_lt hlen), if_neg Bool.false_ne_true, readGivenChar, if_pos rfl,
    Option.bind_eq_bind, Option.bind_some, readGivenChar, if_pos rfl, Option.bind_some, htail]
  rfl

theorem readIpv6Addr_mapped (v4 : Ipv4Addr) :
    readIpv6Addr ("::ffff:".toList ++ v4.display) =
      some (Ipv6Addr.ofGroups ([0, 0, 0, 0, 0, 0xffff] ++ v4.groups), []) := by
  have hhead : readGroups 0 8 ("::ffff:".toList ++ v4.display) =
      ([], false, "::ffff:".toList ++ v4.display) :=
    readGroups_stops (.inr ⟨"ffff:".toList ++ v4.display, rfl⟩) 0 8
  have hv4 : readGroups 1 6 (':' :: v4.display) = (v4.groups, true, []) := by
    have hread := readIpv4Addr_display v4 (breaks_nil 10)
    rw [List.append_nil] at hread
    have hsep : readSeparator ':' 1 readIpv4Addr (':' :: v4.display) = some (v4, []) := by
      unfold readSeparator
      rw [if_pos Nat.zero_lt_one, readGivenChar, if_pos rfl, Option.bind_some, hread]
    rw [readGroups, if_pos (by decide), hsep]
  have hcolon : ∀ b, Radix b → Breaks b (':' :: v4.display) := by
    intro b hb
    refine breaks_cons ?_
    rcases hb with rfl | rfl
    · decide
    · decide
  have hdot : (':' :: v4.display).head? ≠ some '.' :=
    fun h => absurd (Option.some.inj h) (by decide)
  have htail : readGroups 0 7 ("ffff:".toList ++ v4.display) = (0xffff :: v4.groups, true, []) := by
    have hstep := readGroups_cons (g := 0xffff) hcolon hdot 0 6
    have hffff : groupText 0xffff = "ffff".toList := by decide
    rw [hv4, hffff] at hstep
    exact hstep
  have hlen : (0xffff :: v4.groups).length = 3 := rfl
  have hread := readIpv6Addr_colons hhead (by decide) htail
  rw [hlen] at hread
  exact hread

theorem readIpv6Addr_display (a : Ipv6Addr) : readIpv6Addr a.display = some (a, []) := by
  have hlen : a.segments.toList.length = 8 := Vector.length_toList
  unfold Ipv6Addr.display
  dsimp only
  by_cases hmapped : a.segments.toList.take 6 = [0, 0, 0, 0, 0, 0xffff]
  · rw [if_pos hmapped, readIpv6Addr_mapped, mapped_groups hmapped, ofGroups_segments]
  · rw [if_neg hmapped]
    by_cases hz : 1 < (zeroes a.segments.toList).len
    · rw [if_pos hz]
      have hzero := zeroes_zero a.segments.toList
      have hsplit := segments_split hzero
      generalize zeroes a.segments.toList = z at hz hzero hsplit ⊢
      have hbound := hzero.1
      have hhead : (a.segments.toList.take z.start).length = z.start := by
        rw [List.length_take]
        omega
      have htail : (a.segments.toList.drop (z.start + z.len)).length = 8 - (z.start + z.len) := by
        rw [List.length_drop, hlen]
      have hfront : readGroups 0 8 (fmtSubslice (a.segments.toList.take z.start) ++
          ':' :: ':' :: fmtSubslice (a.segments.toList.drop (z.start + z.len))) =
          (a.segments.toList.take z.start, false,
            ':' :: ':' :: fmtSubslice (a.segments.toList.drop (z.start + z.len))) :=
        readGroups_fmt (.inr ⟨_, rfl⟩) (by omega)
      have hback : readGroups 0 (8 - ((a.segments.toList.take z.start).length + 1))
          (fmtSubslice (a.segments.toList.drop (z.start + z.len)) ++ []) =
          (a.segments.toList.drop (z.start + z.len), false, []) :=
        readGroups_fmt (.inl rfl) (by omega)
      rw [List.append_nil] at hback
      rw [readIpv6Addr_colons hfront (by omega) hback, htail, hhead,
        show 8 - z.start - (8 - (z.start + z.len)) = z.len by omega, hsplit, ofGroups_segments]
    · rw [if_neg hz]
      have hgroups : readGroups 0 8 (fmtSubslice a.segments.toList ++ []) =
          (a.segments.toList, false, []) := readGroups_fmt (.inl rfl) (Nat.le_of_eq hlen)
      rw [List.append_nil] at hgroups
      unfold readIpv6Addr
      rw [hgroups]
      dsimp only
      rw [if_pos hlen, ofGroups_segments]

theorem readIpv4Addr_fmt (gs : List UInt16) {rest : Text} (hrest : Stops rest) :
    readIpv4Addr (fmtSubslice gs ++ rest) = none := by
  cases gs with
  | nil =>
    exact readIpv4Addr_none (l := []) (fun c hc => absurd hc List.not_mem_nil)
      (hrest.breaks 10 (.inl rfl)) hrest.head
  | cons g gs =>
    have hfront : (∀ b, Radix b → Breaks b ((gs.flatMap fun g => ':' :: groupText g) ++ rest)) ∧
        ((gs.flatMap fun g => ':' :: groupText g) ++ rest).head? ≠ some '.' := groups_front hrest
    rw [fmtSubslice, List.append_assoc]
    exact readIpv4Addr_none (groupText_dot g) (hfront.1 10 (.inl rfl)) hfront.2

theorem readIpv4Addr_display_none (a : Ipv6Addr) : readIpv4Addr a.display = none := by
  unfold Ipv6Addr.display
  dsimp only
  split
  · exact readIpv4Addr_fmt [] (.inr ⟨"ffff:".toList ++ a.mapped.display, rfl⟩)
  · split
    · exact readIpv4Addr_fmt _ (.inr ⟨_, rfl⟩)
    · have hnone := readIpv4Addr_fmt a.segments.toList (.inl rfl)
      rw [List.append_nil] at hnone
      exact hnone

/-- **An address is read back.** -/
theorem parseIpAddr_display (ip : IpAddr) : parseIpAddr ip.display = some ip := by
  have hread : readIpAddr ip.display = some (ip, []) := by
    unfold readIpAddr IpAddr.display
    cases ip with
    | V4 a =>
      have hread := readIpv4Addr_display a (breaks_nil 10)
      rw [List.append_nil] at hread
      dsimp only
      rw [hread]
    | V6 a =>
      dsimp only
      rw [readIpv4Addr_display_none, readIpv6Addr_display]
  unfold parseIpAddr
  rw [hread]

example : (IpAddr.V6 ⟨#v[0x2001, 0xdb8, 0, 0, 1, 0, 0, 0]⟩).display =
    "2001:db8:0:0:1::".toList := by
  decide

end DnsResolver
