import DnsResolver.Dnssec.Base32
import DnsResolver.Engine.Process

/-!
# What the HTTP front ends read of a request (`doh.rs`, `doh3.rs`)

* `HeaderMap.getStr`     the first value of a header, if it is visible ASCII;
* `extractClientIp`      `extract_client_ip`: behind a proxy on the same host the address is in a
                         header.
-/

namespace DnsResolver

inductive StatusCode where
  | Ok
  | NoContent
  | BadRequest
  | Unauthorized
  | NotFound
  | MethodNotAllowed
  | NotAcceptable
  | PayloadTooLarge
  | UnsupportedMediaType
  | TooManyRequests
  deriving DecidableEq

/-! ## headers -/

inductive HeaderName where
  | Accept
  | ContentType
  | CfConnectingIp
  | XRealIp
  | XForwardedFor
  | XPeerSignature
  | Other (name : String)
  deriving DecidableEq

abbrev HeaderMap := List (HeaderName × Bytes)

def HeaderMap.get (headers : HeaderMap) (name : HeaderName) : Option Bytes :=
  (headers.find? fun e => decide (e.1 = name)).map Prod.snd

/-- `HeaderValue::to_str`: visible ASCII, spaces and tabs -/
def toStr (value : Bytes) : Option Text :=
  if value.all fun b => decide (32 ≤ b ∧ b < 127) || b == 9 then
    some (value.map fun b => Char.ofNat b.toNat)
  else none

/-- `headers.get(name).and_then(|v| v.to_str().ok())` -/
def HeaderMap.getStr (headers : HeaderMap) (name : HeaderName) : Option Text :=
  (headers.get name).bind toStr

def extractClientIp (headers : HeaderMap) (peer : IpAddr) : IpAddr :=
  if peer.isLoopback then
    let cfIp := (headers.getStr .CfConnectingIp).bind fun v => parseIpAddr (trim v)
    let realIp := (headers.getStr .XRealIp).bind fun v => parseIpAddr (trim v)
    let xff := (headers.getStr .XForwardedFor).bind fun v =>
      parseIpAddr (trim (v.takeWhile fun c => c ≠ ','))
    ((cfIp.or realIp).or xff).getD peer
  else peer

/-- `MAX_DOH_PAYLOAD` -/
def maxDohPayload : Nat := 4096

end DnsResolver
