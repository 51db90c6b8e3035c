import DnsResolver.Lib.Base64
import DnsResolver.Lib.FormText
import DnsResolver.Transports.Http

/-!
# Requests to `/dns-query` (`doh.rs`, `doh3.rs`)

What the two front ends do with a request up to `process_dns_query`: a DNS message to process, or
the status of a refusal.  Base64 is a field of `Base64Engine`; axum decodes the query string as a
form, and refuses a body over the limit before the handler runs.

* `decodeDnsParam`   the value of `dns`, with or without padding;
* `doh`              `handle_doh_get` and `handle_doh_post`, with their extractors;
* `doh3`             the part of `handle_h3_request` for this path.
-/

namespace DnsResolver

/-! ## the parameter -/

/-- `BASE64_STANDARD`: canonical padding, no bits left over -/
structure Base64Engine where
  decode : Bytes → Option Bytes
  decode_eq_some : ∀ {s b}, decode s = some b ↔ s = utf8 (Base64.text b)

/-- `replace('-', "+").replace('_', "/")` -/
def urlChar (c : Char) : Char := if c = '-' then '+' else if c = '_' then '/' else c

def decodeDnsParam (engine : Base64Engine) (input : Text) : Option Bytes :=
  let s := (trim input).map urlChar
  let padLen := (4 - (utf8 s).length % 4) % 4
  engine.decode (utf8 (s ++ List.replicate padLen '='))

/-! ## headers -/

/-- `str::contains` -/
def contains (s needle : Text) : Bool := s.tails.any fun t => needle.isPrefixOf t

def isAcceptableMediaType (headers : HeaderMap) : Bool :=
  match headers.getStr .Accept with
  | some accept =>
    let accept := (trim accept).map Char.toLower
    contains accept "application/dns-message".toList || contains accept "*/*".toList ||
      contains accept "application/*".toList
  | none => true

/-- the content type as the DoH handler reads it -/
def dohContentType (headers : HeaderMap) : Bool :=
  match headers.getStr .ContentType with
  | some ct => "application/dns-message".toList.isPrefixOf ((trim ct).map Char.toLower)
  | none => false

/-- the content type as the HTTP/3 handler reads it -/
def h3ContentType (headers : HeaderMap) : Bool :=
  match headers.getStr .ContentType with
  | some ct => "application/dns-message".toList.isPrefixOf ct
  | none => false

/-! ## DoH -/

/-- the `dns` fields of a query string decoded as a form -/
def dnsFields (query : Text) : List Text :=
  (FormText.pairs query).filterMap fun p => if p.1 = "dns".toList then some p.2 else none

/-- `Query<DohQuery>`: a field that comes twice is an error -/
def dohQuery (query : Text) : Option (Option Text) :=
  match dnsFields query with
  | [] => some none
  | [dns] => some (some dns)
  | _ => none

/-- `handle_doh_get` with its extractors; the status of a rejected `Query` is 400 -/
def handleDohGet (engine : Base64Engine) (headers : HeaderMap) (query : Text) :
    Except StatusCode Bytes :=
  match dohQuery query with
  | none => .error .BadRequest
  | some params =>
    if !isAcceptableMediaType headers then .error .NotAcceptable
    else
      match params with
      | none => .error .BadRequest
      | some d =>
        if trim d = [] then .error .BadRequest
        else
          match decodeDnsParam engine (trim d) with
          | none => .error .BadRequest
          | some rawBytes =>
            if rawBytes = [] then .error .BadRequest
            else if maxDohPayload < rawBytes.length then .error .PayloadTooLarge
            else .ok rawBytes

/-- `handle_doh_post` behind `DefaultBodyLimit` -/
def handleDohPost (headers : HeaderMap) (body : Bytes) : Except StatusCode Bytes :=
  if maxDohPayload < body.length then .error .PayloadTooLarge
  else if !dohContentType headers then .error .UnsupportedMediaType
  else if !isAcceptableMediaType headers then .error .NotAcceptable
  else if body = [] then .error .BadRequest
  else if maxDohPayload < body.length then .error .PayloadTooLarge
  else .ok body

/-! ## HTTP/3 -/

/-- the value of a pair with the key `dns`; the pair is cut at every `=` -/
def h3DnsValue (pair : Text) : Option Text :=
  match pair.splitOn '=' with
  | key :: value :: _ => if key = "dns".toList then some value else none
  | _ => none

def h3DnsParam (query : Text) : Option Text := (query.splitOn '&').findSome? h3DnsValue

def handleH3Get (engine : Base64Engine) (query : Text) : Except StatusCode Bytes :=
  match h3DnsParam query with
  | none => .error .BadRequest
  | some encoded =>
    match decodeDnsParam engine encoded with
    | none => .error .BadRequest
    | some bytes => if bytes = [] then .error .BadRequest else .ok bytes

/-- the chunks of a body, unless they go over the limit -/
def recvQuery : List Bytes → Bytes → Option Bytes
  | [], body => some body
  | chunk :: chunks, body =>
    if maxDohPayload < (body ++ chunk).length then none else recvQuery chunks (body ++ chunk)

def handleH3Post (headers : HeaderMap) (chunks : List Bytes) : Except StatusCode Bytes :=
  if !h3ContentType headers then .error .UnsupportedMediaType
  else
    match recvQuery chunks [] with
    | none => .error .PayloadTooLarge
    | some body => if body = [] then .error .BadRequest else .ok body

/-! ## both -/

/-- a request to `/dns-query`; HTTP/3 gets the body in chunks -/
inductive DnsRequest where
  | GET (headers : HeaderMap) (query : Text)
  | POST (headers : HeaderMap) (chunks : List Bytes)

def doh (engine : Base64Engine) : DnsRequest → Except StatusCode Bytes
  | .GET headers query => handleDohGet engine headers query
  | .POST headers chunks => handleDohPost headers chunks.flatten

def doh3 (engine : Base64Engine) : DnsRequest → Except StatusCode Bytes
  | .GET _ query => handleH3Get engine query
  | .POST headers chunks => handleH3Post headers chunks

end DnsResolver
