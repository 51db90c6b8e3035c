import DnsResolver.Data.Record

/-!
# Queries to upstream servers (`upstream.rs`)

The network, the clock, the random choices and hickory's decoder are the fields of `Net`, each a
function of a counter `tick`, so every behaviour of the servers is one `Net`.  What the repository
does with a decoded reply is defined here.

* `isSafeUpstreamIp`           addresses a query may go to;
* `querySocket`                one server: UDP, TCP after FORMERR or garbage, TCP after truncation;
* `queryServersWithFallback`   servers in random order, IPv4 first, three at a time.
-/

namespace DnsResolver

/-! ## addresses -/

def ipv4 (a b c d : UInt8) : IpAddr := .V4 ⟨#v[a, b, c, d]⟩

def rootServers : List IpAddr :=
  [ipv4 198 41 0 4, ipv4 199 9 14 201, ipv4 192 33 4 12, ipv4 199 7 91 13, ipv4 192 203 230 10,
    ipv4 192 5 5 241, ipv4 192 112 36 4, ipv4 198 97 190 53, ipv4 192 36 148 17,
    ipv4 192 58 128 30, ipv4 193 0 14 129, ipv4 199 7 83 42, ipv4 202 12 27 33]

def IpAddr.isIpv4 : IpAddr → Bool
  | .V4 _ => true
  | .V6 _ => false

namespace Ipv4Addr
variable (v4 : Ipv4Addr)

def isPrivate : Bool :=
  decide (v4.octets[0] = 10) ||
    (decide (v4.octets[0] = 172) && decide (v4.octets[1] &&& 0xf0 = 16)) ||
    (decide (v4.octets[0] = 192) && decide (v4.octets[1] = 168))

def isLoopback : Bool := decide (v4.octets[0] = 127)

def isLinkLocal : Bool := decide (v4.octets[0] = 169) && decide (v4.octets[1] = 254)

def isBroadcast : Bool := decide (v4.octets = #v[255, 255, 255, 255])

def isDocumentation : Bool :=
  decide (v4.octets.toList.take 3 ∈ [[192, 0, 2], [198, 51, 100], [203, 0, 113]])

def isUnspecified : Bool := decide (v4.octets = #v[0, 0, 0, 0])

def isMulticast : Bool := decide (v4.octets[0] &&& 0xf0 = 224)

/-- `is_safe_upstream_ip` on IPv4: no special range, no shared or benchmarking range, not 0/8 -/
def isSafe : Bool :=
  !(v4.isPrivate || v4.isLoopback || v4.isLinkLocal || v4.isBroadcast || v4.isDocumentation ||
    v4.isUnspecified || v4.isMulticast) &&
  !(decide (v4.octets[0] = 100) && decide (v4.octets[1] &&& 0xc0 = 0x40)) &&
  !(decide (v4.octets[0] = 198) && (decide (v4.octets[1] = 18) || decide (v4.octets[1] = 19))) &&
  decide (v4.octets[0] ≠ 0)

end Ipv4Addr

namespace Ipv6Addr
variable (v6 : Ipv6Addr)

def isLoopback : Bool := decide (v6.segments = #v[0, 0, 0, 0, 0, 0, 0, 1])

def isUnspecified : Bool := decide (v6.segments = #v[0, 0, 0, 0, 0, 0, 0, 0])

def isMulticast : Bool := decide (v6.segments[0] &&& 0xff00 = 0xff00)

/-- the IPv4 address in an IPv4-mapped one -/
def mapped : Ipv4Addr :=
  ⟨#v[(v6.segments[6] >>> 8).toUInt8, v6.segments[6].toUInt8, (v6.segments[7] >>> 8).toUInt8,
    v6.segments[7].toUInt8]⟩

/-- `is_safe_upstream_ip` on IPv6 -/
def isSafe : Bool :=
  if v6.isLoopback || v6.isUnspecified || v6.isMulticast then false
  else if v6.segments[0] &&& 0xfe00 = 0xfc00 then false
  else if v6.segments[0] &&& 0xffc0 = 0xfe80 then false
  else if v6.segments.toList.take 6 = [0, 0, 0, 0, 0, 0xffff] then v6.mapped.isSafe
  else true

end Ipv6Addr

/-- `is_safe_upstream_ip` -/
def isSafeUpstreamIp : IpAddr → Bool
  | .V4 v4 => v4.isSafe
  | .V6 v6 => v6.isSafe

/-- `filter_safe_ips` -/
def filterSafeIps (ips : List IpAddr) : List IpAddr := ips.filter isSafeUpstreamIp

/-! ## one query -/

/-- what comes back over UDP -/
inductive Reply where
  /-- no datagram, or a socket error -/
  | lost
  /-- octets that do not decode, also not without their additional section -/
  | malformed
  | message (msg : Message)

/-- everything a resolution depends on and does not change -/
structure Net where
  /-- `now_secs()` -/
  nowSecs : Nat → Nat
  /-- a random order -/
  shuffle : Nat → List IpAddr → List IpAddr
  /-- the order in which concurrent queries end -/
  arrival : Nat → List IpAddr → List IpAddr
  /-- a random transaction id -/
  txid : Nat → IpAddr → UInt16
  udp : Nat → IpAddr → UInt16 → Name → RecordType → Reply
  /-- the TCP exchange after FORMERR or a malformed datagram -/
  tcpRetry : Nat → IpAddr → UInt16 → Name → RecordType → Option Message
  /-- the TCP exchange after a truncated response -/
  tcpTruncated : Nat → IpAddr → UInt16 → Name → RecordType → Option Message
  shuffle_perm : ∀ tick l, (shuffle tick l).Perm l
  arrival_perm : ∀ tick l, (arrival tick l).Perm l

/-- `response_matches` -/
def responseMatches (response : Message) (txid : UInt16) (sentName : Name) (rtype : RecordType) :
    Bool :=
  decide (response.id = txid) && decide (response.messageType = .Response) &&
    decide (response.opCode = 0) &&
    match response.queries with
    | [q] => decide (q.queryType = rtype) && decide (q.queryClass = .IN) && q.name.nameEq sentName
    | _ => false

/-- the first decoded response of a server -/
def firstResponse (net : Net) (tick : Nat) (addr : IpAddr) (txid : UInt16) (name : Name)
    (rtype : RecordType) : Option Message :=
  match net.udp tick addr txid name rtype with
  | .lost => none
  | .malformed => net.tcpRetry tick addr txid name rtype
  | .message resp =>
    if resp.responseCode ≠ .FormErr then some resp else net.tcpRetry tick addr txid name rtype

/-- `query_socket` -/
def querySocket (net : Net) (tick : Nat) (addr : IpAddr) (name : Name) (rtype : RecordType) :
    Option Message :=
  if !isSafeUpstreamIp addr then none
  else
    let txid := net.txid tick addr
    match firstResponse net tick addr txid name rtype with
    | none => none
    | some response =>
      if !responseMatches response txid name rtype then none
      else if response.truncated then
        match net.tcpTruncated tick addr txid name rtype with
        | none => none
        | some tcpResponse =>
          if responseMatches tcpResponse txid name rtype then some tcpResponse else none
      else some response

/-! ## a list of servers -/

/-- a response that ends the search for one -/
def isUsable (msg : Message) : Bool :=
  decide (msg.responseCode = .NoError) || decide (msg.responseCode = .NXDomain)

/-- `query_servers_with_fallback` -/
def queryServersWithFallback (net : Net) (tick : Nat) (servers : List IpAddr) (name : Name)
    (rtype : RecordType) : Option Message :=
  if servers.isEmpty then none
  else
    let v4 := servers.filter IpAddr.isIpv4
    let v6 := servers.filter fun s => !s.isIpv4
    let prioritizedServers := net.shuffle tick v4 ++ net.shuffle tick v6
    (prioritizedServers.toChunks 3).findSome? fun chunk =>
      (net.arrival tick chunk).findSome? fun addr =>
        (querySocket net tick addr name rtype).filter isUsable

end DnsResolver
