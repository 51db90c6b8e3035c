import DnsResolver.Recursor.Resolve

/-!
# Replies that do not count (`query_socket`, `response_matches`)

A query takes one datagram.  `Net.vetted` is the network in which a reply that does not count is
no reply: one with a wrong transaction id, question or kind of message, or with a code that is not
NOERROR or NXDOMAIN, and all replies of an address that no query may go to.  A datagram that does
not decode or carries FORMERR still leads to an exchange over TCP, and so does a truncated reply.

* `querySocket_vetted`   one query ends alike in both networks;
* `resolveAt_view`       a resolution sees of the network its clock and the replies that count;
* `resolveRun_vetted`    no run can tell the two networks apart.
-/

namespace DnsResolver

/-- a reply that ends the search, or says that the rest comes over TCP -/
def repliesTo (txid : UInt16) (name : Name) (rtype : RecordType) (resp : Message) : Bool :=
  responseMatches resp txid name rtype && (resp.truncated || isUsable resp)

/-- a FORMERR is as good as octets that do not decode, whatever it is a reply to -/
def Reply.vetted (txid : UInt16) (name : Name) (rtype : RecordType) : Reply → Reply
  | .lost => .lost
  | .malformed => .malformed
  | .message resp =>
    if resp.responseCode = .FormErr then .malformed
    else if repliesTo txid name rtype resp then .message resp
    else .lost

/-- the network without the replies that do not count -/
def Net.vetted (net : Net) : Net where
  nowSecs := net.nowSecs
  shuffle := net.shuffle
  arrival := net.arrival
  txid := net.txid
  udp tick addr txid name rtype :=
    if isSafeUpstreamIp addr then (net.udp tick addr txid name rtype).vetted txid name rtype
    else .lost
  tcpRetry tick addr txid name rtype :=
    if isSafeUpstreamIp addr then
      (net.tcpRetry tick addr txid name rtype).filter (repliesTo txid name rtype)
    else none
  tcpTruncated tick addr txid name rtype :=
    if isSafeUpstreamIp addr then
      (net.tcpTruncated tick addr txid name rtype).filter fun resp =>
        responseMatches resp txid name rtype && isUsable resp
    else none
  shuffle_perm := net.shuffle_perm
  arrival_perm := net.arrival_perm

/-! ## one query -/

section
variable {net : Net} {tick : Nat} {addr : IpAddr} {txid : UInt16} {name : Name}
  {rtype : RecordType}

theorem firstResponse_vetted (h : isSafeUpstreamIp addr = true) :
    firstResponse net.vetted tick addr txid name rtype =
      (firstResponse net tick addr txid name rtype).filter (repliesTo txid name rtype) := by
  have hudp : net.vetted.udp tick addr txid name rtype =
      (net.udp tick addr txid name rtype).vetted txid name rtype := if_pos h
  have hretry : net.vetted.tcpRetry tick addr txid name rtype =
      (net.tcpRetry tick addr txid name rtype).filter (repliesTo txid name rtype) := if_pos h
  unfold firstResponse
  rw [hudp, hretry]
  cases net.udp tick addr txid name rtype with
  | lost => rfl
  | malformed => rfl
  | message resp =>
    unfold Reply.vetted
    dsimp only
    by_cases hform : resp.responseCode = .FormErr
    · rw [if_pos hform, if_neg (not_not.mpr hform)]
    · rw [if_neg hform, if_pos hform, Option.filter_some]
      by_cases hreply : repliesTo txid name rtype resp = true
      · rw [if_pos hreply, if_pos hreply]
        exact if_pos hform
      · rw [if_neg hreply, if_neg hreply]

/-- what `query_socket` makes of the first response -/
def acceptResponse (net : Net) (tick : Nat) (addr : IpAddr) (name : Name) (rtype : RecordType)
    (response : Message) : Option Message :=
  if !responseMatches response (net.txid tick addr) name rtype then none
  else if response.truncated then
    (net.tcpTruncated tick addr (net.txid tick addr) name rtype).filter fun tcpResponse =>
      responseMatches tcpResponse (net.txid tick addr) name rtype
  else some response

theorem querySocket_eq (h : isSafeUpstreamIp addr = true) :
    querySocket net tick addr name rtype =
      (firstResponse net tick addr (net.txid tick addr) name rtype).bind
        (acceptResponse net tick addr name rtype) := by
  unfold querySocket
  rw [h, if_neg (by decide)]
  dsimp only
  cases firstResponse net tick addr (net.txid tick addr) name rtype with
  | none => rfl
  | some response =>
    dsimp only [Option.bind_some]
    unfold acceptResponse
    cases net.tcpTruncated tick addr (net.txid tick addr) name rtype with
    | none => rfl
    | some tcpResponse => rfl

theorem acceptResponse_of_not_repliesTo {response : Message}
    (h : ¬ repliesTo (net.txid tick addr) name rtype response = true) :
    (acceptResponse net tick addr name rtype response).filter isUsable = none := by
  unfold repliesTo at h
  unfold acceptResponse
  cases hmatch : responseMatches response (net.txid tick addr) name rtype with
  | false => rfl
  | true =>
    rw [hmatch, Bool.true_and, Bool.or_eq_true, not_or] at h
    rw [if_neg (by decide), if_neg h.1, Option.filter_some, if_neg h.2]

/-- after one that counts, the TCP exchange makes no difference -/
theorem acceptResponse_vetted (h : isSafeUpstreamIp addr = true) (response : Message) :
    (acceptResponse net.vetted tick addr name rtype response).filter isUsable =
      (acceptResponse net tick addr name rtype response).filter isUsable := by
  have htcp : net.vetted.tcpTruncated tick addr (net.txid tick addr) name rtype =
      (net.tcpTruncated tick addr (net.txid tick addr) name rtype).filter fun resp =>
        responseMatches resp (net.txid tick addr) name rtype && isUsable resp := if_pos h
  have htxid : net.vetted.txid = net.txid := rfl
  unfold acceptResponse
  rw [htxid, htcp]
  split
  · rfl
  · split
    · rw [Option.filter_filter, Option.filter_filter, Option.filter_filter]
      congr 1
      funext resp
      cases isUsable resp with
      | true => rw [Bool.and_true, Bool.and_self]
      | false => rw [Bool.and_false, Bool.and_false]
    · rfl

theorem querySocket_vetted (net : Net) (tick : Nat) (addr : IpAddr) (name : Name)
    (rtype : RecordType) : (querySocket net.vetted tick addr name rtype).filter isUsable =
      (querySocket net tick addr name rtype).filter isUsable := by
  by_cases hsafe : isSafeUpstreamIp addr = true
  · have htxid : net.vetted.txid = net.txid := rfl
    rw [querySocket_eq hsafe, querySocket_eq hsafe, htxid, firstResponse_vetted hsafe]
    cases firstResponse net tick addr (net.txid tick addr) name rtype with
    | none => rfl
    | some response =>
      rw [Option.filter_some]
      by_cases hreply : repliesTo (net.txid tick addr) name rtype response = true
      · rw [if_pos hreply]
        exact acceptResponse_vetted hsafe response
      · rw [if_neg hreply]
        exact (acceptResponse_of_not_repliesTo hreply).symm
  · unfold querySocket
    rw [Bool.not_eq_true] at hsafe
    rw [hsafe]
    rfl

theorem queryServersWithFallback_vetted (net : Net) (tick : Nat) (servers : List IpAddr)
    (name : Name) (rtype : RecordType) :
    queryServersWithFallback net.vetted tick servers name rtype =
      queryServersWithFallback net tick servers name rtype := by
  have hone : (fun addr => (querySocket net.vetted tick addr name rtype).filter isUsable) =
      fun addr => (querySocket net tick addr name rtype).filter isUsable := by
    funext addr
    exact querySocket_vetted net tick addr name rtype
  unfold queryServersWithFallback
  rw [hone]
  rfl

end

/-! ## a resolution -/

/-- networks that look the same to a resolution: the clock, and the replies that count -/
structure NetView (net net' : Net) : Prop where
  nowSecs : net.nowSecs = net'.nowSecs
  query : queryServersWithFallback net = queryServersWithFallback net'

section
variable {net net' : Net} (tx : Presentation)

theorem startWalk_view (h : NetView net net') : startWalk net = startWalk net' := by
  funext name rtype st
  unfold startWalk
  rw [h.nowSecs]

theorem asked_view (h : NetView net net') (st : RecursorState) :
    st.asked net = st.asked net' := by
  funext w name rtype
  unfold RecursorState.asked
  rw [h.query]

theorem insertDelegation_view (h : NetView net net') (st : RecursorState) :
    st.insertDelegation net = st.insertDelegation net' := by
  funext w zone ips response
  unfold RecursorState.insertDelegation RecursorState.referralEntry
  rw [h.nowSecs]

theorem referralStep_view (h : NetView net net') : referralStep net = referralStep net' := by
  funext resolve name rtype w response st
  unfold referralStep
  split
  · rfl
  · split
    · rfl
    · split
      · rfl
      · generalize referralIps resolve w _ _ response st = r
        obtain ⟨ips, st'⟩ := r
        dsimp only
        rw [insertDelegation_view h]

theorem walkStep_view (h : NetView net net') : walkStep net tx = walkStep net' tx := by
  funext resolve name rtype w st
  unfold walkStep
  rw [h.query, asked_view h, referralStep_view h]

theorem walk_view (h : NetView net net') : walk net tx = walk net' tx := by
  funext resolve name rtype k
  induction k with
  | zero => rfl
  | succ k ih =>
    funext w st
    rw [walk, walk, walkStep_view tx h]
    split
    · rfl
    · rw [ih]

theorem resolveAt_view (h : NetView net net') (k : Nat) :
    resolveAt net tx k = resolveAt net' tx k := by
  induction k with
  | zero => rfl
  | succ k ih =>
    funext name rtype st
    rw [resolveAt, resolveAt, startWalk_view h, walk_view tx h, ih]

theorem resolveRun_view (h : NetView net net') (calls : List (Name × RecordType))
    (st : RecursorState) : resolveRun net tx calls st = resolveRun net' tx calls st := by
  induction calls generalizing st with
  | nil => rfl
  | cons call calls ih =>
    obtain ⟨name, rtype⟩ := call
    rw [resolveRun, resolveRun, resolve, resolve, resolveInternal, resolveInternal,
      resolveAt_view tx h]
    split
    rw [ih]

end

/-- **Replies that do not count are no replies.**  In every run of resolutions, results, delegation
cache and all are what they are in the network where such a reply is none: whatever else its sender
puts into it, it ends its query without an answer. -/
theorem resolveRun_vetted (net : Net) (tx : Presentation) (calls : List (Name × RecordType))
    (st : RecursorState) : resolveRun net.vetted tx calls st = resolveRun net tx calls st := by
  have hview : NetView net.vetted net := by
    refine ⟨rfl, ?_⟩
    funext tick servers name rtype
    exact queryServersWithFallback_vetted net tick servers name rtype
  exact resolveRun_view tx hview calls st

end DnsResolver
