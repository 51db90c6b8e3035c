import DnsResolver.Lib.Frames
import DnsResolver.Geo.Exits
import DnsResolver.Lib.Run

/-!
# Messages over a stream (`tcp.rs`, `dot.rs`, `doq.rs`)

TCP and DNS over TLS share one loop: a length in two octets, that many octets, one query, one
response behind its length.  What the client sends arrives in pieces of any size at any time, and a
response may leave in pieces.  Over QUIC every query has a stream of its own.

* `Conn.step`         the loop of `handle_length_prefixed_stream`, one access to the stream at a
                      time;
* `Conn.Reading`, `Conn.Writing`   what has been read, and what has been sent;
* `run_serves`        the queries are the messages of the client, the responses come in their order;
* `calm_serves_all`   nothing is left out unless something fails;
* `doqStream`         the same for one stream of a QUIC connection.
-/

namespace DnsResolver
open Frames

/-! ## lengths -/

def minDnsMsgSize : Nat := 12

def maxTcpMsgSize : Nat := 65535

/-- `u16::from_be_bytes` -/
def readBe16 : Bytes → Nat
  | [hi, lo] => hi.toNat * 256 + lo.toNat
  | _ => 0

theorem readBe16_lt (l : Bytes) : readBe16 l < 65536 := by
  unfold readBe16
  split
  · rename_i hi lo
    have hhi := hi.toNat_lt
    have hlo := lo.toNat_lt
    omega
  · exact Nat.zero_lt_succ _

theorem readBe16_be16 {n : Nat} (h : n < 65536) : readBe16 (be16 n.toUInt16) = n := by
  simp only [readBe16, be16, UInt16.toNat_toUInt8, UInt16.toNat_shiftRight, UInt16.reduceToNat,
    Nat.reduceMod, Nat.shiftRight_eq_div_pow, Nat.reducePow, Nat.toUInt16_eq,
    UInt16.toNat_ofNat']
  omega

theorem be16_readBe16 (l : Bytes) (h : l.length = 2) : be16 (readBe16 l).toUInt16 = l := by
  obtain ⟨hi, lo, rfl⟩ := List.length_eq_two.mp h
  have hhi := hi.toNat_lt
  have hlo := lo.toNat_lt
  simp only [readBe16, be16, List.cons.injEq, and_true, ← UInt8.toNat_inj, UInt16.toNat_toUInt8,
    UInt16.toNat_shiftRight, UInt16.reduceToNat, Nat.reduceMod, Nat.shiftRight_eq_div_pow,
    Nat.reducePow, Nat.toUInt16_eq, UInt16.toNat_ofNat']
  omega

/-- a length in front of a message; a length that does not fit is cut off -/
def lengthPrefix : Prefix UInt8 where
  width := 2
  bound := 65536
  write n := be16 n.toUInt16
  read := readBe16
  width_pos := Nat.zero_lt_two
  length_write _ := rfl
  read_lt := readBe16_lt
  read_write _ := readBe16_be16
  write_read := be16_readBe16

def acceptedLen (n : Nat) : Bool := decide (minDnsMsgSize ≤ n ∧ n ≤ maxTcpMsgSize)

def anyLen (_ : Nat) : Bool := true

/-! ## one connection -/

inductive Phase where
  -- `read_exact(&mut len_buf)`
  | readingLength (got : Bytes)
  -- `read_exact(&mut req_buf)`
  | readingPayload (reqLen : Nat) (got : Bytes)
  -- `process_dns_query`
  | processing (req : Bytes)
  -- `write_all` and `flush`
  | writing (left : Bytes)
  | closed
  deriving DecidableEq

/-- `received` and `served` are traces: all that has come from the client, and the queries that were
processed -/
structure Conn where
  phase : Phase := .readingLength []
  -- received and not read yet
  buffered : Bytes := []
  sent : Bytes := []
  received : Bytes := []
  served : List (Bytes × ProcessOutcome) := []

inductive StreamEvent where
  | arrive (bytes : Bytes)
  -- a read takes at most `n` octets
  | read (n : Nat)
  | outcome (o : ProcessOutcome)
  -- a write takes at most `n` octets
  | write (n : Nat)
  | flushed
  -- a timeout, an error, or the end of the stream
  | fault

/-- the length is there, or a part of it -/
def afterLength (got : Bytes) : Phase :=
  if got.length < 2 then .readingLength got
  else if acceptedLen (readBe16 got) then .readingPayload (readBe16 got) []
  else .closed

def afterPayload (reqLen : Nat) (got : Bytes) : Phase :=
  if got.length < reqLen then .readingPayload reqLen got else .processing got

def afterOutcome : ProcessOutcome → Phase
  | .Success respWire => sendWire respWire
  | .ServFail respWire => sendWire respWire
  | .Truncated respWire => sendWire respWire
  | .Dropped => .readingLength []
  | .Malformed => .closed
where
  sendWire (respWire : Bytes) : Phase :=
    if maxTcpMsgSize < respWire.length then .closed
    else .writing (be16 respWire.length.toUInt16 ++ respWire)

namespace Conn

/-- one access of `handle_length_prefixed_stream` to the stream -/
def step (c : Conn) : StreamEvent → Conn
  | .arrive bytes => { c with buffered := c.buffered ++ bytes, received := c.received ++ bytes }
  | .read n =>
    match c.phase with
    | .readingLength got =>
      { c with
        phase := afterLength (got ++ c.buffered.take (min n (2 - got.length)))
        buffered := c.buffered.drop (min n (2 - got.length)) }
    | .readingPayload reqLen got =>
      { c with
        phase := afterPayload reqLen (got ++ c.buffered.take (min n (reqLen - got.length)))
        buffered := c.buffered.drop (min n (reqLen - got.length)) }
    | _ => c
  | .outcome o =>
    match c.phase with
    | .processing req => { c with phase := afterOutcome o, served := c.served ++ [(req, o)] }
    | _ => c
  | .write n =>
    match c.phase with
    | .writing left => { c with phase := .writing (left.drop n), sent := c.sent ++ left.take n }
    | _ => c
  | .flushed =>
    match c.phase with
    | .writing [] => { c with phase := .readingLength [] }
    | _ => c
  | .fault =>
    match c.phase with
    | .processing _ => c
    | _ => { c with phase := .closed }

def run (events : List StreamEvent) (c : Conn) : Conn := events.foldl step c

/-- what a step can do -/
inductive Moves (c : Conn) : StreamEvent → Conn → Prop
  | arrive (bytes : Bytes) : Moves c (.arrive bytes)
      { c with buffered := c.buffered ++ bytes, received := c.received ++ bytes }
  | length (n : Nat) {got : Bytes} (hp : c.phase = .readingLength got) : Moves c (.read n)
      { c with
        phase := afterLength (got ++ c.buffered.take (min n (2 - got.length)))
        buffered := c.buffered.drop (min n (2 - got.length)) }
  | payload (n : Nat) {reqLen : Nat} {got : Bytes} (hp : c.phase = .readingPayload reqLen got) :
      Moves c (.read n)
      { c with
        phase := afterPayload reqLen (got ++ c.buffered.take (min n (reqLen - got.length)))
        buffered := c.buffered.drop (min n (reqLen - got.length)) }
  | outcome (o : ProcessOutcome) {req : Bytes} (hp : c.phase = .processing req) :
      Moves c (.outcome o) { c with phase := afterOutcome o, served := c.served ++ [(req, o)] }
  | write (n : Nat) {left : Bytes} (hp : c.phase = .writing left) : Moves c (.write n)
      { c with phase := .writing (left.drop n), sent := c.sent ++ left.take n }
  | flushed (hp : c.phase = .writing []) : Moves c .flushed { c with phase := .readingLength [] }
  | fault (hp : ∀ req, c.phase ≠ .processing req) : Moves c .fault { c with phase := .closed }
  | stay (e : StreamEvent) : Moves c e c

theorem step_moves (c : Conn) (e : StreamEvent) : c.Moves e (c.step e) := by
  cases e with
  | arrive bytes => exact .arrive bytes
  | read n =>
    dsimp only [step]
    split
    · rename_i hp
      exact .length n hp
    · rename_i hp
      exact .payload n hp
    · exact .stay _
  | outcome o =>
    dsimp only [step]
    split
    · rename_i hp
      exact .outcome o hp
    · exact .stay _
  | write n =>
    dsimp only [step]
    split
    · rename_i hp
      exact .write n hp
    · exact .stay _
  | flushed =>
    dsimp only [step]
    split
    · rename_i hp
      exact .flushed hp
    · exact .stay _
  | fault =>
    dsimp only [step]
    split
    · exact .stay _
    · rename_i hp
      exact .fault hp

end Conn

/-! ## what has been read -/

def Phase.inHand : Phase → List Bytes
  | .processing req => [req]
  | _ => []

/-- what has been read of the next query -/
def Phase.taken : Phase → Bytes
  | .readingLength got => got
  | .readingPayload reqLen got => be16 reqLen.toUInt16 ++ got
  | _ => []

/-- the octets of the stream behind the last query that was served -/
def Phase.front (phase : Phase) : Bytes := lengthPrefix.stream phase.inHand ++ phase.taken

theorem processing_front (req : Bytes) :
    (Phase.processing req).front = lengthPrefix.frame req := by
  show lengthPrefix.stream [req] ++ [] = lengthPrefix.frame req
  rw [List.append_nil, Prefix.stream_cons]
  exact List.append_nil _

def Phase.Sound : Phase → Prop
  | .readingLength got => got.length < 2
  | .readingPayload reqLen got => got.length < reqLen ∧ acceptedLen reqLen = true
  | .processing req => lengthPrefix.Fits acceptedLen req
  | _ => True

theorem fits_of_accepted {m : Bytes} (h : acceptedLen m.length = true) :
    lengthPrefix.Fits acceptedLen m := by
  have hle := (of_decide_eq_true h).2
  refine ⟨?_, h⟩
  show m.length < 65536
  unfold maxTcpMsgSize at hle
  omega

theorem afterLength_spec {got : Bytes} (hlen : got.length ≤ 2) : (afterLength got).Sound ∧
    (afterLength got ≠ .closed → (afterLength got).front = got) := by
  unfold afterLength
  by_cases hpart : got.length < 2
  · rw [if_pos hpart]
    exact ⟨hpart, fun _ => rfl⟩
  · have htwo : got.length = 2 := by omega
    rw [if_neg hpart]
    by_cases hok : acceptedLen (readBe16 got) = true
    · rw [if_pos hok]
      have hpos := (of_decide_eq_true hok).1
      refine ⟨⟨?_, hok⟩, fun _ => ?_⟩
      · show 0 < readBe16 got
        unfold minDnsMsgSize at hpos
        omega
      · show be16 (readBe16 got).toUInt16 ++ [] = got
        rw [List.append_nil, be16_readBe16 got htwo]
    · rw [if_neg hok]
      exact ⟨trivial, fun h => absurd rfl h⟩

theorem afterPayload_spec {reqLen : Nat} {got : Bytes} (hlen : got.length ≤ reqLen)
    (hok : acceptedLen reqLen = true) : (afterPayload reqLen got).Sound ∧
    (afterPayload reqLen got).front = be16 reqLen.toUInt16 ++ got := by
  unfold afterPayload
  by_cases hpart : got.length < reqLen
  · rw [if_pos hpart]
    exact ⟨⟨hpart, hok⟩, rfl⟩
  · obtain rfl : got.length = reqLen := by omega
    rw [if_neg hpart]
    exact ⟨fits_of_accepted hok, processing_front got⟩

theorem afterOutcome_spec (o : ProcessOutcome) : (afterOutcome o).Sound ∧
    (afterOutcome o).front = [] := by
  have hsend : ∀ wire, (afterOutcome.sendWire wire).Sound ∧
      (afterOutcome.sendWire wire).front = [] := by
    intro wire
    unfold afterOutcome.sendWire
    split
    · exact ⟨trivial, rfl⟩
    · exact ⟨trivial, rfl⟩
  cases o with
  | Success wire => exact hsend wire
  | ServFail wire => exact hsend wire
  | Truncated wire => exact hsend wire
  | Dropped => exact ⟨Nat.zero_lt_two, rfl⟩
  | Malformed => exact ⟨trivial, rfl⟩

namespace Conn
variable {c : Conn}

def requests (c : Conn) : List Bytes := c.served.map Prod.fst ++ c.phase.inHand

def responses (c : Conn) : List Bytes := c.served.filterMap fun e => e.2.wire?

/-- the client has sent the queries that were served, and while the connection is open the rest is
in the hands of the server -/
structure Reading (c : Conn) : Prop where
  fits : ∀ m ∈ c.served.map Prod.fst, lengthPrefix.Fits acceptedLen m
  sound : c.phase.Sound
  stream : ∃ rest, c.received = lengthPrefix.stream (c.served.map Prod.fst) ++ rest ∧
    (c.phase ≠ .closed → rest = c.phase.front ++ c.buffered)

theorem Reading.read (h : c.Reading) {phase : Phase} {k : Nat} (hopen : c.phase ≠ .closed)
    (hsound : phase.Sound)
    (hfront : phase ≠ .closed → phase.front = c.phase.front ++ c.buffered.take k) :
    Reading { c with phase := phase, buffered := c.buffered.drop k } := by
  obtain ⟨rest, hrec, hrest⟩ := h.stream
  refine ⟨h.fits, hsound, rest, hrec, fun hne => ?_⟩
  rw [hrest hopen]
  show c.phase.front ++ c.buffered = phase.front ++ c.buffered.drop k
  rw [hfront hne, List.append_assoc, List.take_append_drop]

theorem Reading.turn (h : c.Reading) {phase : Phase} (sent : Bytes) (hsound : phase.Sound)
    (hfront : phase ≠ .closed → c.phase ≠ .closed ∧ c.phase.front = phase.front) :
    Reading { c with phase := phase, sent := sent } := by
  obtain ⟨rest, hrec, hrest⟩ := h.stream
  refine ⟨h.fits, hsound, rest, hrec, fun hne => ?_⟩
  obtain ⟨hopen, heq⟩ := hfront hne
  rw [hrest hopen, heq]

theorem Reading.moves (h : c.Reading) {c' : Conn} {e : StreamEvent} (hm : c.Moves e c') :
    c'.Reading := by
  obtain ⟨rest, hrec, hrest⟩ := h.stream
  have hsound := h.sound
  cases hm with
  | stay => exact h
  | arrive bytes =>
    refine ⟨h.fits, hsound, rest ++ bytes, ?_, fun hopen => ?_⟩
    · show c.received ++ bytes = lengthPrefix.stream (c.served.map Prod.fst) ++ (rest ++ bytes)
      rw [hrec, List.append_assoc]
    · show rest ++ bytes = c.phase.front ++ (c.buffered ++ bytes)
      rw [hrest hopen, List.append_assoc]
  | length n hp =>
    rename_i got
    rw [hp] at hsound
    replace hsound : got.length < 2 := hsound
    have hlen : (got ++ c.buffered.take (min n (2 - got.length))).length ≤ 2 := by
      rw [List.length_append, List.length_take]
      omega
    obtain ⟨hs, hf⟩ := afterLength_spec hlen
    refine h.read (by rw [hp]; exact Phase.noConfusion) hs fun hne => ?_
    rw [hf hne, hp]
    rfl
  | payload n hp =>
    rename_i reqLen got
    rw [hp] at hsound
    obtain ⟨hpart, hok⟩ := hsound
    have hlen : (got ++ c.buffered.take (min n (reqLen - got.length))).length ≤ reqLen := by
      rw [List.length_append, List.length_take]
      omega
    obtain ⟨hs, hf⟩ := afterPayload_spec hlen hok
    refine h.read (by rw [hp]; exact Phase.noConfusion) hs fun _ => ?_
    rw [hf, hp, ← List.append_assoc]
    rfl
  | outcome o hp =>
    rename_i req
    rw [hp] at hsound
    obtain ⟨hs, hf⟩ := afterOutcome_spec o
    have hmap : (c.served ++ [(req, o)]).map Prod.fst = c.served.map Prod.fst ++ [req] := by
      rw [List.map_append]
      rfl
    have hfront : c.phase.front = lengthPrefix.frame req := by
      rw [hp]
      exact processing_front req
    refine ⟨?_, hs, c.buffered, ?_, fun _ => ?_⟩
    · intro m hm
      rw [hmap] at hm
      rcases List.mem_append.mp hm with hm | hm
      · exact h.fits m hm
      · rw [List.mem_singleton.mp hm]
        exact hsound
    · rw [hmap, hrec, hrest (by rw [hp]; exact Phase.noConfusion), hfront, Prefix.stream_concat,
        List.append_assoc]
    · rw [hf]
      rfl
  | write n hp =>
    refine h.turn _ trivial fun _ => ?_
    rw [hp]
    exact ⟨Phase.noConfusion, rfl⟩
  | flushed hp =>
    have hempty : (Phase.readingLength []).Sound := Nat.zero_lt_two
    refine h.turn c.sent hempty fun _ => ?_
    rw [hp]
    exact ⟨Phase.noConfusion, rfl⟩
  | fault hp =>
    have hclosed : Phase.closed.Sound := trivial
    exact h.turn c.sent hclosed fun hne => absurd rfl hne

theorem reading_start : Reading {} :=
  ⟨fun _ h => absurd h List.not_mem_nil, Nat.zero_lt_two, [], rfl, fun _ => rfl⟩

theorem reading_run (events : List StreamEvent) : (run events {}).Reading :=
  List.foldlRecOn events step reading_start fun _ h e _ => h.moves (step_moves _ e)

/-! ## what has been sent -/

end Conn

def Phase.unsent : Phase → Bytes
  | .writing left => left
  | _ => []

def Framable (wire : Bytes) : Prop := lengthPrefix.Fits anyLen wire

theorem framable_iff {wire : Bytes} : Framable wire ↔ wire.length ≤ maxTcpMsgSize := by
  constructor
  · intro h
    exact Nat.le_of_lt_succ h.1
  · intro h
    exact ⟨Nat.lt_succ_of_le h, rfl⟩

theorem afterLength_unsent (got : Bytes) : (afterLength got).unsent = [] := by
  unfold afterLength
  split
  · rfl
  · split <;> rfl

theorem afterPayload_unsent (reqLen : Nat) (got : Bytes) :
    (afterPayload reqLen got).unsent = [] := by
  unfold afterPayload
  split <;> rfl

theorem afterOutcome_wire {o : ProcessOutcome} {wire : Bytes} (h : o.wire? = some wire) :
    afterOutcome o = afterOutcome.sendWire wire := by
  cases o with
  | Success w => exact congrArg afterOutcome.sendWire (Option.some.inj h)
  | ServFail w => exact congrArg afterOutcome.sendWire (Option.some.inj h)
  | Truncated w => exact congrArg afterOutcome.sendWire (Option.some.inj h)
  | Dropped => cases h
  | Malformed => cases h

theorem afterOutcome_silent {o : ProcessOutcome} (h : o.wire? = none) :
    (afterOutcome o).unsent = [] := by
  cases o with
  | Success w => cases h
  | ServFail w => cases h
  | Truncated w => cases h
  | Dropped => rfl
  | Malformed => rfl

namespace Conn
variable {c : Conn}

/-- what was sent is a front part of some of the first responses; while the connection is open it is
all of them, but for what is left of the last one -/
structure Writing (c : Conn) (ws : List Bytes) : Prop where
  initial : ws <+: c.responses
  framable : ∀ w ∈ ws, Framable w
  sent : c.sent <+: lengthPrefix.stream ws
  whole : c.phase ≠ .closed →
    ws = c.responses ∧ c.sent ++ c.phase.unsent = lengthPrefix.stream ws

theorem Writing.turn {ws : List Bytes} (h : c.Writing ws) {phase : Phase}
    (buffered received : Bytes)
    (hsame : phase ≠ .closed → c.phase ≠ .closed ∧ c.phase.unsent = phase.unsent) :
    Writing { c with phase := phase, buffered := buffered, received := received } ws := by
  refine ⟨h.initial, h.framable, h.sent, fun hne => ?_⟩
  obtain ⟨hopen, heq⟩ := hsame hne
  show ws = c.responses ∧ c.sent ++ phase.unsent = lengthPrefix.stream ws
  rw [← heq]
  exact h.whole hopen

theorem Writing.moves {ws : List Bytes} (h : c.Writing ws) {c' : Conn} {e : StreamEvent}
    (hm : c.Moves e c') : ∃ ws', c'.Writing ws' := by
  cases hm with
  | stay => exact ⟨ws, h⟩
  | arrive bytes => exact ⟨ws, h.turn _ _ fun hne => ⟨hne, rfl⟩⟩
  | length n hp =>
    refine ⟨ws, h.turn _ _ fun _ => ?_⟩
    rw [hp, afterLength_unsent]
    exact ⟨Phase.noConfusion, rfl⟩
  | payload n hp =>
    refine ⟨ws, h.turn _ _ fun _ => ?_⟩
    rw [hp, afterPayload_unsent]
    exact ⟨Phase.noConfusion, rfl⟩
  | outcome o hp =>
    rename_i req
    obtain ⟨hws, hsent⟩ := h.whole (by rw [hp]; exact Phase.noConfusion)
    rw [hp] at hsent
    replace hsent : c.sent = lengthPrefix.stream ws := by
      rw [← hsent]
      exact (List.append_nil _).symm
    have hresp : (c.served ++ [(req, o)]).filterMap (fun e => e.2.wire?) =
        c.responses ++ o.wire?.toList := by
      rw [List.filterMap_append]
      cases hw : o.wire? <;> simp [responses, hw]
    cases hw : o.wire? with
    | none =>
      rw [hw] at hresp
      replace hresp : (c.served ++ [(req, o)]).filterMap (fun e => e.2.wire?) = c.responses := by
        rw [hresp]
        exact List.append_nil _
      refine ⟨ws, ?_, h.framable, h.sent, fun _ => ?_⟩
      · show ws <+: (c.served ++ [(req, o)]).filterMap fun e => e.2.wire?
        rw [hresp]
        exact h.initial
      · refine ⟨hws.trans hresp.symm, ?_⟩
        show c.sent ++ (afterOutcome o).unsent = lengthPrefix.stream ws
        rw [afterOutcome_silent hw, List.append_nil, hsent]
    | some wire =>
      rw [hw] at hresp
      replace hresp : (c.served ++ [(req, o)]).filterMap (fun e => e.2.wire?) =
          c.responses ++ [wire] := hresp
      by_cases hlong : maxTcpMsgSize < wire.length
      · -- a response that does not fit ends the connection
        have hclosed : afterOutcome o = .closed := by
          rw [afterOutcome_wire hw, afterOutcome.sendWire, if_pos hlong]
        refine ⟨ws, ?_, h.framable, h.sent, fun hne => absurd hclosed hne⟩
        show ws <+: (c.served ++ [(req, o)]).filterMap fun e => e.2.wire?
        rw [hresp, ← hws]
        exact List.prefix_append _ _
      · have hphase : (afterOutcome o).unsent = lengthPrefix.frame wire := by
          rw [afterOutcome_wire hw, afterOutcome.sendWire, if_neg hlong]
          rfl
        refine ⟨ws ++ [wire], ?_, ?_, ?_, fun _ => ?_⟩
        · show ws ++ [wire] <+: (c.served ++ [(req, o)]).filterMap fun e => e.2.wire?
          rw [hresp, ← hws]
        · intro w hmem
          rcases List.mem_append.mp hmem with hmem | hmem
          · exact h.framable w hmem
          · rw [List.mem_singleton.mp hmem]
            exact framable_iff.mpr (Nat.not_lt.mp hlong)
        · show c.sent <+: lengthPrefix.stream (ws ++ [wire])
          rw [hsent, Prefix.stream_append]
          exact List.prefix_append _ _
        · refine ⟨?_, ?_⟩
          · show ws ++ [wire] = (c.served ++ [(req, o)]).filterMap fun e => e.2.wire?
            rw [hresp, hws]
          · show c.sent ++ (afterOutcome o).unsent = lengthPrefix.stream (ws ++ [wire])
            rw [hphase, hsent, Prefix.stream_concat]
  | write n hp =>
    rename_i left
    obtain ⟨hws, hsent⟩ := h.whole (by rw [hp]; exact Phase.noConfusion)
    rw [hp] at hsent
    have hall : (c.sent ++ left.take n) ++ left.drop n = lengthPrefix.stream ws := by
      rw [List.append_assoc, List.take_append_drop]
      exact hsent
    exact ⟨ws, h.initial, h.framable, ⟨_, hall⟩, fun _ => ⟨hws, hall⟩⟩
  | flushed hp =>
    have hsame : c.phase ≠ .closed ∧ c.phase.unsent = (Phase.readingLength []).unsent := by
      rw [hp]
      exact ⟨Phase.noConfusion, rfl⟩
    exact ⟨ws, h.turn c.buffered c.received fun _ => hsame⟩
  | fault hp => exact ⟨ws, h.turn c.buffered c.received fun hne => absurd rfl hne⟩

theorem writing_start : Writing {} [] :=
  ⟨List.nil_prefix, fun _ h => absurd h List.not_mem_nil, List.nil_prefix, fun _ => ⟨rfl, rfl⟩⟩

theorem writing_run (events : List StreamEvent) : ∃ ws, (run events {}).Writing ws := by
  have hkeep : ∀ c : Conn, (∃ ws, c.Writing ws) → ∀ e ∈ events, ∃ ws, (step c e).Writing ws := by
    rintro c ⟨ws, hw⟩ e _
    exact hw.moves (step_moves c e)
  exact List.foldlRecOn events step ⟨[], writing_start⟩ hkeep

/-! ## every run -/

/-- the queries are the first messages of the client, and what the client reads are the first
responses to them -/
structure Serves (c : Conn) : Prop where
  requests : c.requests <+: (lengthPrefix.split acceptedLen c.received).1
  responses : (lengthPrefix.split anyLen c.sent).1 <+: c.responses

theorem Reading.requests (h : c.Reading) :
    c.requests <+: (lengthPrefix.split acceptedLen c.received).1 := by
  obtain ⟨rest, hrec, hrest⟩ := h.stream
  by_cases hhand : c.phase.inHand = []
  · unfold Conn.requests
    rw [hhand, List.append_nil, hrec]
    exact Prefix.prefix_split h.fits rest
  · cases hp : c.phase with
    | processing req =>
      have hsound := h.sound
      rw [hp] at hsound
      have hrec' : c.received =
          lengthPrefix.stream (c.served.map Prod.fst ++ [req]) ++ c.buffered := by
        rw [hrec, hrest (by rw [hp]; exact Phase.noConfusion), hp, processing_front,
          Prefix.stream_concat, List.append_assoc]
      unfold Conn.requests
      rw [hp, hrec']
      refine Prefix.prefix_split (fun m hm => ?_) _
      rcases List.mem_append.mp hm with hm | hm
      · exact h.fits m hm
      · rw [List.mem_singleton.mp hm]
        exact hsound
    | readingLength got => rw [hp] at hhand; exact absurd rfl hhand
    | readingPayload reqLen got => rw [hp] at hhand; exact absurd rfl hhand
    | writing left => rw [hp] at hhand; exact absurd rfl hhand
    | closed => rw [hp] at hhand; exact absurd rfl hhand

/-- **However the stream is cut**, and wherever it breaks off, the server answers the client's
messages in their order and the client can read the answers -/
theorem run_serves (events : List StreamEvent) : (run events {}).Serves := by
  obtain ⟨ws, hws⟩ := writing_run events
  exact ⟨(reading_run events).requests,
    (Prefix.split_initial hws.framable hws.sent).trans hws.initial⟩

end Conn

/-! ## calm runs -/

/-- no timeout, no error, and every query gets an outcome that keeps the connection open -/
def StreamEvent.Calm : StreamEvent → Prop
  | .outcome o => o ≠ .Malformed ∧ ∀ wire, o.wire? = some wire → wire.length ≤ maxTcpMsgSize
  | .fault => False
  | _ => True

theorem afterLength_closed {got : Bytes} (hlen : got.length ≤ 2) (h : afterLength got = .closed)
    (t : Bytes) : lengthPrefix.Refused acceptedLen (got ++ t) := by
  unfold afterLength at h
  split at h
  · cases h
  · split at h
    · cases h
    · rename_i hpart hok
      have htwo : got.length = 2 := by omega
      refine Prefix.Refused.append ⟨htwo.ge, ?_⟩ t
      show acceptedLen (readBe16 (got.take 2)) = false
      rw [List.take_of_length_le hlen]
      exact Bool.eq_false_iff.mpr hok

theorem afterPayload_open (reqLen : Nat) (got : Bytes) : afterPayload reqLen got ≠ .closed := by
  unfold afterPayload
  split <;> exact Phase.noConfusion

theorem afterOutcome_open {o : ProcessOutcome} (h : (StreamEvent.outcome o).Calm) :
    afterOutcome o ≠ .closed := by
  obtain ⟨hwell, hfits⟩ := h
  cases hw : o.wire? with
  | some wire =>
    rw [afterOutcome_wire hw, afterOutcome.sendWire, if_neg (Nat.not_lt.mpr (hfits wire hw))]
    exact Phase.noConfusion
  | none =>
    rcases wire?_eq_none.mp hw with rfl | rfl
    · exact absurd rfl hwell
    · exact Phase.noConfusion

namespace Conn
variable {c : Conn}

/-- a connection was closed for a length that is refused -/
def ClosedRight (c : Conn) : Prop :=
  c.phase = .closed → ∃ rest, c.received = lengthPrefix.stream (c.served.map Prod.fst) ++ rest ∧
    lengthPrefix.Refused acceptedLen rest

theorem ClosedRight.moves (h : c.ClosedRight) (hr : c.Reading) {c' : Conn} {e : StreamEvent}
    (hcalm : e.Calm) (hm : c.Moves e c') : c'.ClosedRight := by
  cases hm with
  | stay => exact h
  | arrive bytes =>
    intro hclosed
    obtain ⟨rest, hrec, hrefused⟩ := h hclosed
    refine ⟨rest ++ bytes, ?_, hrefused.append bytes⟩
    show c.received ++ bytes = lengthPrefix.stream (c.served.map Prod.fst) ++ (rest ++ bytes)
    rw [hrec, List.append_assoc]
  | length n hp =>
    rename_i got
    intro hclosed
    have hsound := hr.sound
    rw [hp] at hsound
    replace hsound : got.length < 2 := hsound
    obtain ⟨rest, hrec, hrest⟩ := hr.stream
    refine ⟨rest, hrec, ?_⟩
    have hlen : (got ++ c.buffered.take (min n (2 - got.length))).length ≤ 2 := by
      rw [List.length_append, List.length_take]
      omega
    have hrefused := afterLength_closed hlen hclosed (c.buffered.drop (min n (2 - got.length)))
    rw [List.append_assoc, List.take_append_drop] at hrefused
    rw [hrest (by rw [hp]; exact Phase.noConfusion), hp]
    exact hrefused
  | payload n hp => exact fun hclosed => absurd hclosed (afterPayload_open _ _)
  | outcome o hp => exact fun hclosed => absurd hclosed (afterOutcome_open hcalm)
  | write n hp => exact fun hclosed => absurd hclosed Phase.noConfusion
  | flushed hp => exact fun hclosed => absurd hclosed Phase.noConfusion
  | fault hp => exact absurd hcalm id

theorem calm_closedRight {events : List StreamEvent} (hcalm : ∀ e ∈ events, e.Calm) :
    (run events {}).ClosedRight := by
  have hmeets : Run.Meets step (fun _ e => e.Calm) events ({} : Conn) := by
    refine Run.meets_iff.mpr fun before e after heq => hcalm e ?_
    rw [heq]
    exact List.mem_append_right _ List.mem_cons_self
  exact (Run.Meets.invariant (I := fun c => c.Reading ∧ c.ClosedRight)
    (fun _ e h he => ⟨h.1.moves (step_moves _ e), h.2.moves h.1 he (step_moves _ e)⟩)
    ⟨reading_start, fun h => absurd h Phase.noConfusion⟩ hmeets).2

/-- nothing is left to do until more comes from the client -/
def AtRest (c : Conn) : Prop :=
  c.buffered = [] ∧ ((∃ got, c.phase = .readingLength got) ∨
    ∃ reqLen got, c.phase = .readingPayload reqLen got)

theorem Reading.atRest (h : c.Reading) (hrest : c.AtRest) :
    lengthPrefix.split acceptedLen c.received = (c.served.map Prod.fst, c.phase.front) := by
  obtain ⟨rest, hrec, hopen⟩ := h.stream
  have hsound := h.sound
  obtain ⟨hbuf, ⟨got, hp⟩ | ⟨reqLen, got, hp⟩⟩ := hrest
  · rw [hrec, hopen (by rw [hp]; exact Phase.noConfusion), hbuf, List.append_nil]
    rw [hp] at hsound ⊢
    exact Prefix.split_stream h.fits (Prefix.next_short hsound)
  · rw [hrec, hopen (by rw [hp]; exact Phase.noConfusion), hbuf, List.append_nil]
    rw [hp] at hsound ⊢
    obtain ⟨hpart, hok⟩ := hsound
    exact Prefix.split_stream h.fits
      (Prefix.next_unfinished (Nat.lt_succ_of_le (of_decide_eq_true hok).2) hpart)

/-- **In a calm run nothing is left out.**  If no length of the client is refused, the connection
stays open, and once it is at rest every message has been answered and every answer was sent. -/
theorem calm_serves_all {events : List StreamEvent} (hcalm : ∀ e ∈ events, e.Calm)
    (hlen : ¬ lengthPrefix.Refused acceptedLen
      (lengthPrefix.split acceptedLen (run events {}).received).2) :
    (run events {}).phase ≠ .closed ∧ ((run events {}).AtRest →
      (run events {}).served.map Prod.fst =
          (lengthPrefix.split acceptedLen (run events {}).received).1 ∧
        (run events {}).sent = lengthPrefix.stream (run events {}).responses ∧
        lengthPrefix.split anyLen (run events {}).sent = ((run events {}).responses, [])) := by
  have hreading := reading_run events
  have hopen : (run events {}).phase ≠ .closed := by
    intro hclosed
    obtain ⟨rest, hrec, hrefused⟩ := calm_closedRight hcalm hclosed
    rw [hrec, Prefix.split_stream hreading.fits (Prefix.next_refused hrefused)] at hlen
    exact hlen hrefused
  refine ⟨hopen, fun hrest => ?_⟩
  obtain ⟨ws, hws⟩ := writing_run events
  obtain ⟨heq, hsent⟩ := hws.whole hopen
  have hunsent : (run events {}).phase.unsent = [] := by
    obtain ⟨-, ⟨got, hp⟩ | ⟨reqLen, got, hp⟩⟩ := hrest
    · rw [hp]
      rfl
    · rw [hp]
      rfl
  rw [hunsent, List.append_nil, heq] at hsent
  refine ⟨?_, hsent, ?_⟩
  · rw [hreading.atRest hrest]
  · rw [hsent]
    exact Prefix.split_whole (heq ▸ hws.framable)

end Conn

/-! ### a connection with two queries -/

/-- a query arrives in three pieces, together with the first half of the next one -/
def cutEvents : List StreamEvent :=
  [.arrive [0], .read 2, .arrive [12, 1, 2, 3, 4], .read 9, .read 9, .read 9,
    .arrive ([5, 6, 7, 8, 9, 10, 11, 12] ++ [0, 12, 1]), .read 4, .read 9, .read 9,
    .outcome (.Success [7, 7, 7]), .write 2, .write 1, .write 9, .flushed, .read 2, .read 9]

theorem cutEvents_served :
    (Conn.run cutEvents {}).served.map Prod.fst = [[1, 2, 3, 4, 5, 6, 7, 8, 9, 10, 11, 12]] ∧
      lengthPrefix.split anyLen (Conn.run cutEvents {}).sent = ([[7, 7, 7]], []) := by
  have hcalm : ∀ e ∈ cutEvents, e.Calm := by
    simp [cutEvents, StreamEvent.Calm, ProcessOutcome.wire?, maxTcpMsgSize]
  have hlen : ¬ lengthPrefix.Refused acceptedLen
      (lengthPrefix.split acceptedLen (Conn.run cutEvents {}).received).2 := by
    unfold Prefix.Refused
    decide
  obtain ⟨-, hserves⟩ := Conn.calm_serves_all hcalm hlen
  obtain ⟨hreq, -, hresp⟩ := hserves ⟨rfl, Or.inr ⟨12, [1], rfl⟩⟩
  rw [hreq, hresp]
  exact ⟨by decide, rfl⟩

/-! ## QUIC -/

def doqProtocolError : Nat := 0x2

def doqExcessiveLoad : Nat := 0x4

/-- what the client sees of its stream -/
inductive DoqReply where
  -- the task ends without a word
  | nothing
  | reset (code : Nat)
  | reply (bytes : Bytes)
  deriving DecidableEq

/-- how a stream ends whose query was processed; the length of the response is not looked at -/
def doqOutcome : ProcessOutcome → DoqReply
  | .Success respWire => .reply (be16 respWire.length.toUInt16 ++ respWire)
  | .ServFail respWire => .reply (be16 respWire.length.toUInt16 ++ respWire)
  | .Truncated respWire => .reply (be16 respWire.length.toUInt16 ++ respWire)
  | .Dropped => .reset doqExcessiveLoad
  | .Malformed => .reset doqProtocolError

/-- the task of `handle_doq_connection` for one stream, with all that the client sends on it -/
def doqStream (recv : Bytes) (process : Bytes → ProcessOutcome) : DoqReply :=
  if recv.length < 2 then .nothing
  else if !acceptedLen (readBe16 (recv.take 2)) then .reset doqProtocolError
  else if (recv.drop 2).length < readBe16 (recv.take 2) then .nothing
  else doqOutcome (process ((recv.drop 2).take (readBe16 (recv.take 2))))

section
variable {recv req rest wire : Bytes} {process : Bytes → ProcessOutcome}

theorem doqStream_next (h : lengthPrefix.next acceptedLen recv = some (req, rest)) :
    doqStream recv process = doqOutcome (process req) := by
  unfold Prefix.next at h
  split at h
  · rename_i hc
    obtain ⟨hw, hok, hn⟩ := hc
    replace hw : 2 ≤ recv.length := hw
    replace hok : acceptedLen (readBe16 (recv.take 2)) = true := hok
    replace hn : readBe16 (recv.take 2) ≤ (recv.drop 2).length := hn
    obtain rfl := (Prod.mk.inj (Option.some.inj h)).1
    unfold doqStream
    rw [if_neg (Nat.not_lt.mpr hw), hok, if_neg (Nat.not_lt.mpr hn)]
    rfl
  · cases h

theorem doqStream_refused (h : lengthPrefix.Refused acceptedLen recv) :
    doqStream recv process = .reset doqProtocolError := by
  obtain ⟨hw, hok⟩ := h
  replace hw : 2 ≤ recv.length := hw
  replace hok : acceptedLen (readBe16 (recv.take 2)) = false := hok
  unfold doqStream
  rw [if_neg (Nat.not_lt.mpr hw), hok]
  rfl

theorem doqStream_unfinished (h : lengthPrefix.next acceptedLen recv = none)
    (hr : ¬ lengthPrefix.Refused acceptedLen recv) : doqStream recv process = .nothing := by
  unfold Prefix.next at h
  split at h
  · cases h
  · rename_i hc
    unfold doqStream
    by_cases hw : recv.length < 2
    · rw [if_pos hw]
    · rw [if_neg hw]
      have hok : acceptedLen (readBe16 (recv.take 2)) = true := by
        by_contra hno
        exact hr ⟨Nat.not_lt.mp hw, Bool.eq_false_iff.mpr hno⟩
      have hlt : (recv.drop 2).length < readBe16 (recv.take 2) := by
        by_contra hge
        exact hc ⟨Nat.not_lt.mp hw, hok, Nat.not_lt.mp hge⟩
      rw [hok, if_pos hlt]
      rfl

theorem doqOutcome_wire {o : ProcessOutcome} (h : o.wire? = some wire) :
    doqOutcome o = .reply (lengthPrefix.frame wire) := by
  cases o with
  | Success w =>
    obtain rfl := Option.some.inj h
    rfl
  | ServFail w =>
    obtain rfl := Option.some.inj h
    rfl
  | Truncated w =>
    obtain rfl := Option.some.inj h
    rfl
  | Dropped => cases h
  | Malformed => cases h

theorem reads_back_iff : lengthPrefix.split anyLen (lengthPrefix.frame wire) = ([wire], []) ↔
    wire.length ≤ maxTcpMsgSize :=
  Prefix.split_frame_iff.trans framable_iff

/-- what the server uses of hickory's encoder: it stops at 64 KB -/
def Bounded (codec : Codec) : Prop :=
  ∀ m wire, codec.toBytes m = some wire → wire.length ≤ maxTcpMsgSize

theorem Echoes.length_le {codec : Codec} {q : Query} (hb : Bounded codec)
    (h : Echoes codec q wire) : wire.length ≤ maxTcpMsgSize := by
  rcases h with rfl | ⟨m, hm, -⟩
  · exact Nat.zero_le _
  · exact hb m wire hm

end

/-- the outcome of a request that came over QUIC -/
def doqProcess (srv : Server) (g : GeoLayer) (clientIp : IpAddr) (st : AppState) (req : Bytes) :
    ProcessOutcome := (processDnsQuery (srv.withGeo g) req .DoQ clientIp st).1

theorem parse_error_eq {codec : Codec} {req : Bytes} {o : ProcessOutcome}
    (h : parseAndValidateQuery codec req = .error o) : o = .Malformed := by
  unfold parseAndValidateQuery at h
  split at h
  · exact (Except.error.inj h).symm
  · split at h
    · dsimp only at h
      split at h <;> cases h
    · exact (Except.error.inj h).symm

/-- **One stream, one answer.**  A stream with a message of an accepted length is reset with one
code for a message that is no query and with the other one for a query the rate limiter drops; on
any other query the client reads back exactly one message, with its question.  Without such a
message the stream is reset for a refused length and left alone otherwise. -/
theorem doq_stream_answers {srv : Server} (hb : Bounded srv.codec) (g : GeoLayer)
    (clientIp : IpAddr) (st : AppState) (recv : Bytes) :
    (∀ req rest, lengthPrefix.next acceptedLen recv = some (req, rest) →
      ((∀ p, parseAndValidateQuery srv.codec req ≠ .ok p) →
        doqStream recv (doqProcess srv g clientIp st) = .reset doqProtocolError) ∧
      ∀ p, parseAndValidateQuery srv.codec req = .ok p →
        (srv.checkQuery st.dns.tick .DoQ clientIp p.query.name p.query.queryType = .Drop →
          doqStream recv (doqProcess srv g clientIp st) = .reset doqExcessiveLoad) ∧
        (srv.checkQuery st.dns.tick .DoQ clientIp p.query.name p.query.queryType ≠ .Drop →
          ∃ wire bytes, doqStream recv (doqProcess srv g clientIp st) = .reply bytes ∧
            lengthPrefix.split anyLen bytes = ([wire], []) ∧ Echoes srv.codec p.query wire)) ∧
    (lengthPrefix.next acceptedLen recv = none →
      (lengthPrefix.Refused acceptedLen recv →
        doqStream recv (doqProcess srv g clientIp st) = .reset doqProtocolError) ∧
      (¬ lengthPrefix.Refused acceptedLen recv →
        doqStream recv (doqProcess srv g clientIp st) = .nothing)) := by
  refine ⟨fun req rest hnext => ?_, fun hnext => ⟨doqStream_refused, doqStream_unfinished hnext⟩⟩
  rw [doqStream_next hnext]
  refine ⟨fun hno => ?_, fun p hp => ⟨fun hdrop => ?_, fun hkeep => ?_⟩⟩
  · have hbad : doqProcess srv g clientIp st req = .Malformed := by
      cases hparse : parseAndValidateQuery srv.codec req with
      | ok p => exact absurd hparse (hno p)
      | error o =>
        have hparse' : parseAndValidateQuery (srv.withGeo g).codec req = .error o := hparse
        unfold doqProcess processDnsQuery
        rw [hparse']
        exact parse_error_eq hparse
    rw [hbad]
    rfl
  · have hsilent : (processDnsQuery (srv.withGeo g) req .DoQ clientIp st).1.wire? = none :=
      (process_silent_iff hp).mpr hdrop
    rcases wire?_eq_none.mp hsilent with hbad | hdropped
    · have hp' : parseAndValidateQuery (srv.withGeo g).codec req = .ok p := hp
      have hdrop' : (srv.withGeo g).checkQuery st.dns.tick .DoQ clientIp p.query.name
          p.query.queryType = .Drop := hdrop
      unfold processDnsQuery at hbad
      rw [hp'] at hbad
      dsimp only at hbad
      rw [hdrop'] at hbad
      cases hbad
    · show doqOutcome (processDnsQuery (srv.withGeo g) req .DoQ clientIp st).1 = _
      rw [hdropped]
      rfl
  · have hanswered : (doqProcess srv g clientIp st req).wire? ≠ none := fun h =>
      hkeep ((process_silent_iff (g := g) hp).mp h)
    obtain ⟨wire, hw⟩ := Option.ne_none_iff_exists'.mp hanswered
    have hechoes := process_echoes hp hw
    exact ⟨wire, _, doqOutcome_wire hw, reads_back_iff.mpr (hechoes.length_le hb), hechoes⟩

/-- the encoder of `echoServer` stays far below the limit -/
theorem echoServer_bounded : Bounded echoServer.codec := by
  intro m wire h
  replace h : (if m = nameErrorMessage then some bareResponse else none) = some wire := h
  split at h
  · obtain rfl := Option.some.inj h
    decide
  · cases h

theorem echoServer_stream_reads_back :
    ∃ wire bytes, doqStream (lengthPrefix.frame victimWire)
        (doqProcess echoServer noGeo (ipv4 192 0 2 1) {}) = .reply bytes ∧
      lengthPrefix.split anyLen bytes = ([wire], []) ∧
      Echoes echoServer.codec { name := victimName, queryType := .A } wire := by
  have hnext : lengthPrefix.next acceptedLen (lengthPrefix.frame victimWire) =
      some (victimWire, []) := by decide
  have hp : parseAndValidateQuery echoServer.codec victimWire =
      .ok ⟨⟨victimRequest, 512, false⟩, { name := victimName, queryType := .A },
        canonicalCacheKey echoServer.codec victimName .A, none⟩ := rfl
  exact (((doq_stream_answers echoServer_bounded noGeo (ipv4 192 0 2 1) {} _).1 _ _ hnext).2 _
    hp).2 (by decide)

end DnsResolver
