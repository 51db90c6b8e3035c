import Mathlib.Data.List.Basic

/-!
# Messages behind their lengths

A stream of messages, each behind its length, which is written with a fixed number of members.

* `Prefix`         how lengths are written;
* `stream`         messages one after the other;
* `next`, `split`  the first message of a stream, and all that it starts with, up to a length that
                   is refused or a message that is not complete;
* `split_stream`   a stream falls into its messages;
* `split_initial`  the messages of a stream that was cut off are the first ones of the whole.
-/

namespace Frames

structure Prefix (β : Type*) where
  width : Nat
  /-- lengths from here on cannot be written -/
  bound : Nat
  write : Nat → List β
  read : List β → Nat
  width_pos : 0 < width
  length_write : ∀ n, (write n).length = width
  read_lt : ∀ l, read l < bound
  read_write : ∀ n, n < bound → read (write n) = n
  write_read : ∀ l, l.length = width → write (read l) = l

namespace Prefix
variable {β : Type*} (p : Prefix β) (A : Nat → Bool)

def frame (m : List β) : List β := p.write m.length ++ m

def stream (ms : List (List β)) : List β := ms.flatMap p.frame

/-- a length in front that is not accepted -/
def Refused (s : List β) : Prop := p.width ≤ s.length ∧ A (p.read (s.take p.width)) = false

/-- the first message and what follows it -/
def next (s : List β) : Option (List β × List β) :=
  if p.width ≤ s.length ∧ A (p.read (s.take p.width)) = true ∧
      p.read (s.take p.width) ≤ (s.drop p.width).length then
    some ((s.drop p.width).take (p.read (s.take p.width)),
      (s.drop p.width).drop (p.read (s.take p.width)))
  else none

/-- at most `k` messages, and the rest -/
def splitN : Nat → List β → List (List β) × List β
  | 0, s => ([], s)
  | k + 1, s =>
    match p.next A s with
    | none => ([], s)
    | some (m, rest) => (m :: (splitN k rest).1, (splitN k rest).2)

def split (s : List β) : List (List β) × List β := p.splitN A s.length s

variable {p A} {m r s t : List β} {ms : List (List β)}

/-- a message that can be written and is accepted -/
def Fits (p : Prefix β) (A : Nat → Bool) (m : List β) : Prop :=
  m.length < p.bound ∧ A m.length = true

/-! ## streams -/

theorem stream_cons (m : List β) (ms : List (List β)) :
    p.stream (m :: ms) = p.frame m ++ p.stream ms := List.flatMap_cons

theorem stream_append (ms ms' : List (List β)) :
    p.stream (ms ++ ms') = p.stream ms ++ p.stream ms' := List.flatMap_append

theorem stream_concat (ms : List (List β)) (m : List β) :
    p.stream (ms ++ [m]) = p.stream ms ++ p.frame m := by
  rw [stream_append, stream_cons]
  exact congrArg (p.stream ms ++ ·) (List.append_nil _)

theorem length_frame (m : List β) : (p.frame m).length = p.width + m.length := by
  rw [frame, List.length_append, p.length_write]

theorem length_le_stream (ms : List (List β)) : ms.length ≤ (p.stream ms).length := by
  induction ms with
  | nil => exact Nat.zero_le _
  | cons m ms ih =>
    have hw := p.width_pos
    rw [stream_cons, List.length_append, length_frame, List.length_cons]
    omega

/-! ## the first message -/

theorem next_frame (h : p.Fits A m) (r : List β) : p.next A (p.frame m ++ r) = some (m, r) := by
  have hw : p.width ≤ (p.frame m ++ r).length := by
    rw [List.length_append, length_frame]
    omega
  have htake : (p.frame m ++ r).take p.width = p.write m.length := by
    rw [frame, List.append_assoc]
    exact List.take_left' (p.length_write _)
  have hdrop : (p.frame m ++ r).drop p.width = m ++ r := by
    rw [frame, List.append_assoc]
    exact List.drop_left' (p.length_write _)
  have hread : p.read (p.write m.length) = m.length := p.read_write _ h.1
  have hlen : m.length ≤ (m ++ r).length := by
    rw [List.length_append]
    exact Nat.le_add_right _ _
  unfold next
  rw [htake, hdrop, hread, if_pos ⟨hw, h.2, hlen⟩, List.take_left, List.drop_left]

theorem next_eq_some : p.next A s = some (m, r) ↔ s = p.frame m ++ r ∧ p.Fits A m := by
  constructor
  · intro h
    unfold next at h
    split at h
    · rename_i hc
      obtain ⟨hw, hok, hn⟩ := hc
      obtain ⟨rfl, rfl⟩ := Prod.mk.inj (Option.some.inj h)
      have hlen : ((s.drop p.width).take (p.read (s.take p.width))).length =
          p.read (s.take p.width) := by
        rw [List.length_take]
        omega
      refine ⟨?_, ?_, ?_⟩
      · rw [frame, hlen, p.write_read _ (by rw [List.length_take]; omega), List.append_assoc,
          List.take_append_drop, List.take_append_drop]
      · rw [hlen]
        exact p.read_lt _
      · rw [hlen]
        exact hok
    · cases h
  · rintro ⟨rfl, h⟩
    exact next_frame h r

theorem next_short (h : s.length < p.width) : p.next A s = none := by
  unfold next
  rw [if_neg fun hc => absurd hc.1 (Nat.not_le.mpr h)]

theorem next_unfinished {n : Nat} (hn : n < p.bound) (h : s.length < n) :
    p.next A (p.write n ++ s) = none := by
  have htake : (p.write n ++ s).take p.width = p.write n := List.take_left' (p.length_write _)
  have hdrop : (p.write n ++ s).drop p.width = s := List.drop_left' (p.length_write _)
  unfold next
  rw [htake, hdrop, p.read_write n hn, if_neg]
  rintro ⟨-, -, hle⟩
  omega

theorem next_refused (h : p.Refused A s) : p.next A s = none := by
  unfold next
  rw [if_neg]
  rintro ⟨-, hok, -⟩
  rw [h.2] at hok
  cases hok

theorem Refused.append (h : p.Refused A s) (t : List β) : p.Refused A (s ++ t) := by
  obtain ⟨hw, hok⟩ := h
  refine ⟨?_, ?_⟩
  · rw [List.length_append]
    omega
  · rw [List.take_append_of_le_length hw]
    exact hok

/-! ## all messages -/

theorem splitN_stream (h : ∀ m ∈ ms, p.Fits A m) (hr : p.next A r = none) {k : Nat}
    (hk : ms.length ≤ k) : p.splitN A k (p.stream ms ++ r) = (ms, r) := by
  induction ms generalizing k with
  | nil =>
    show p.splitN A k r = ([], r)
    cases k with
    | zero => rfl
    | succ k => rw [splitN, hr]
  | cons m ms ih =>
    cases k with
    | zero => cases hk
    | succ k =>
      have hrest := ih (fun m' hm' => h m' (List.mem_cons_of_mem _ hm')) (Nat.le_of_succ_le_succ hk)
      rw [stream_cons, List.append_assoc, splitN, next_frame (h m List.mem_cons_self)]
      dsimp only
      rw [hrest]

/-- **A stream falls into its messages**, and what follows them is the rest -/
theorem split_stream (h : ∀ m ∈ ms, p.Fits A m) (hr : p.next A r = none) :
    p.split A (p.stream ms ++ r) = (ms, r) := by
  refine splitN_stream h hr ?_
  have := length_le_stream (p := p) ms
  rw [List.length_append]
  omega

theorem split_whole (h : ∀ m ∈ ms, p.Fits A m) : p.split A (p.stream ms) = (ms, []) := by
  have := split_stream (r := []) h (next_short p.width_pos)
  rwa [List.append_nil] at this

theorem exists_stream (s : List β) :
    ∃ ms r, s = p.stream ms ++ r ∧ (∀ m ∈ ms, p.Fits A m) ∧ p.next A r = none := by
  induction hn : s.length using Nat.strongRecOn generalizing s with
  | ind n ih =>
    cases hs : p.next A s with
    | none => exact ⟨[], s, rfl, fun _ h => absurd h List.not_mem_nil, hs⟩
    | some e =>
      obtain ⟨m, rest⟩ := e
      obtain ⟨hframe, hm⟩ := next_eq_some.mp hs
      have hlt : rest.length < n := by
        have hw := p.width_pos
        have hlen := congrArg List.length hframe
        rw [List.length_append, length_frame] at hlen
        omega
      obtain ⟨ms, r, hrest, hms, hr⟩ := ih rest.length hlt rest rfl
      refine ⟨m :: ms, r, ?_, List.forall_mem_cons.mpr ⟨hm, hms⟩, hr⟩
      rw [hframe, hrest, stream_cons, List.append_assoc]

theorem split_spec (s : List β) : s = p.stream (p.split A s).1 ++ (p.split A s).2 ∧
    (∀ m ∈ (p.split A s).1, p.Fits A m) ∧ p.next A (p.split A s).2 = none := by
  obtain ⟨ms, r, rfl, hms, hr⟩ := exists_stream (p := p) (A := A) s
  rw [split_stream hms hr]
  exact ⟨rfl, hms, hr⟩

theorem split_frame_iff : p.split A (p.frame m) = ([m], []) ↔ p.Fits A m := by
  have hone : p.stream [m] = p.frame m := List.append_nil _
  constructor
  · intro h
    have hfits := (split_spec (p := p) (A := A) (p.frame m)).2.1
    rw [h] at hfits
    exact hfits m List.mem_cons_self
  · intro h
    rw [← hone]
    refine split_whole fun m' hm' => ?_
    rw [List.mem_singleton.mp hm']
    exact h

/-- messages in front are the first ones of what is split -/
theorem prefix_split (h : ∀ m ∈ ms, p.Fits A m) (r : List β) :
    ms <+: (p.split A (p.stream ms ++ r)).1 := by
  obtain ⟨ms', r', rfl, hms', hr'⟩ := exists_stream (p := p) (A := A) r
  have hall : ∀ m ∈ ms ++ ms', p.Fits A m := by
    intro m hm
    rcases List.mem_append.mp hm with hm | hm
    · exact h m hm
    · exact hms' m hm
  rw [← List.append_assoc, ← stream_append, split_stream hall hr']
  exact List.prefix_append _ _

/-- **A stream that was cut off** falls into the first of its messages -/
theorem split_initial (h : ∀ m ∈ ms, p.Fits A m) (hs : s <+: p.stream ms) :
    (p.split A s).1 <+: ms := by
  obtain ⟨t, ht⟩ := hs
  obtain ⟨hspec, hfits, -⟩ := split_spec (p := p) (A := A) s
  have hpre := prefix_split hfits ((p.split A s).2 ++ t)
  rw [← List.append_assoc, ← hspec, ht, split_whole h] at hpre
  exact hpre

end Prefix
end Frames
