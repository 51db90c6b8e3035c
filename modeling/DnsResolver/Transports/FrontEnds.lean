import DnsResolver.Transports.DnsParam

/-!
# The two front ends side by side

For which requests DoH and DoH3 pass the same DNS message on, or refuse with the same status.

* `DnsRequest.Plain`       the condition: on the text of the parameter, the headers and the size;
* `front_ends_agree_iff`   the front ends agree on exactly these requests.
-/

namespace DnsResolver

variable {engine : Base64Engine} {headers : HeaderMap} {query : Text}

/-! ## the condition -/

def Spells (engine : Base64Engine) (value : Text) : Prop :=
  ∃ b, decodeDnsParam engine value = some b ∧ b ≠ []

/-- the text between the first `dns=` and the next `=` or `&` -/
def bareDns (query : Text) : Option Text :=
  (query.splitOn '&').findSome? fun pair =>
    if "dns=".toList.isPrefixOf pair then some ((pair.drop 4).takeWhile fun c => c != '=')
    else none

/-- a query string with one `dns` field at most, and that field is acceptable to both readings or
to none; of several fields the first one that is written bare spells nothing -/
def PlainQuery (engine : Base64Engine) (headers : HeaderMap) (query : Text) : Prop :=
  (2 ≤ (dnsFields query).length ∧ ∀ w, bareDns query = some w → ¬ Spells engine w) ∨
  (dnsFields query).length ≤ 1 ∧ isAcceptableMediaType headers = true ∧
    ((∀ d ∈ dnsFields query, ¬ Spells engine d) ∧
        (∀ w, bareDns query = some w → ¬ Spells engine w) ∨
      ∃ d ∈ dnsFields query, ∃ w, bareDns query = some w ∧ Spells engine d ∧ Spells engine w ∧
        '+' ∉ w ∧ (w.filter fun c => !isWhitespace c).length ≤ 5462)

/-- a body whose content type both front ends read in the same way, and an `Accept` header that
lets it pass -/
def PlainBody (headers : HeaderMap) (body : Bytes) : Prop :=
  if 4096 < body.length then h3ContentType headers = true
  else dohContentType headers = false ∨
    h3ContentType headers = true ∧ isAcceptableMediaType headers = true

def DnsRequest.Plain (engine : Base64Engine) : DnsRequest → Prop
  | .GET headers query => PlainQuery engine headers query
  | .POST headers chunks => PlainBody headers chunks.flatten

/-! ## the parameter in the query string -/

theorem toList_dns : "dns".toList = ['d', 'n', 's'] ∧ "dns=".toList = ['d', 'n', 's', '='] := by
  decide +kernel

theorem h3DnsValue_eq (pair : Text) :
    h3DnsValue pair =
      if "dns=".toList.isPrefixOf pair then some ((pair.drop 4).takeWhile fun c => c != '=')
      else none := by
  unfold h3DnsValue
  rw [toList_dns.1, toList_dns.2]
  by_cases h : '=' ∈ pair
  · obtain ⟨k, x, rfl, hk⟩ := List.eq_append_cons_of_mem h
    obtain ⟨rest, hx⟩ := splitOn_takeWhile '=' x
    rw [List.splitOn_append_cons_self_of_not_mem hk, hx]
    dsimp only
    by_cases hkey : k = ['d', 'n', 's']
    · rw [if_pos hkey, hkey]
      rfl
    · rw [if_neg hkey, if_neg]
      intro hprefix
      obtain ⟨y, hy⟩ := List.isPrefixOf_iff_prefix.mp hprefix
      apply hkey
      rw [← takeWhile_append_pad hk x, ← hy]
      exact takeWhile_append_pad (k := ['d', 'n', 's']) (by decide) y
  · rw [List.splitOn_eq_singleton h, if_neg]
    intro hprefix
    obtain ⟨y, rfl⟩ := List.isPrefixOf_iff_prefix.mp hprefix
    exact h (List.mem_append_left y (by decide))

theorem h3DnsParam_eq (query : Text) : h3DnsParam query = bareDns query := by
  unfold h3DnsParam bareDns
  congr 1
  funext pair
  exact h3DnsValue_eq pair

theorem exists_field {w : Text} (h : bareDns query = some w) :
    ∃ x : Text, FormText.decode x ∈ dnsFields query ∧ w = x.takeWhile fun c => c != '=' := by
  obtain ⟨pair, hpair, hw⟩ := List.exists_of_findSome?_eq_some h
  split at hw
  · rename_i hprefix
    obtain ⟨x, rfl⟩ := List.isPrefixOf_iff_prefix.mp hprefix
    refine ⟨x, List.mem_filterMap.mpr ⟨FormText.pair ("dns=".toList ++ x), ?_, ?_⟩, ?_⟩
    · refine List.mem_map_of_mem (List.mem_filter.mpr ⟨hpair, ?_⟩)
      rw [toList_dns.2]
      rfl
    · have hpad : '=' ∉ ['d', 'n', 's'] := by decide
      have hfield : FormText.pair ("dns=".toList ++ x) = ("dns".toList, FormText.decode x) := by
        rw [toList_dns.1, toList_dns.2]
        show FormText.pair (['d', 'n', 's'] ++ '=' :: x) = _
        rw [FormText.pair, takeWhile_append_pad hpad, dropWhile_append_pad hpad]
        refine congrArg₂ Prod.mk ?_ rfl
        decide +kernel
      rw [hfield, if_pos rfl]
    · rw [toList_dns.2] at hw
      exact (Option.some.inj hw).symm
  · cases hw

/-! ## GET -/

theorem decodeDnsParam_trim (t : Text) :
    decodeDnsParam engine (trim t) = decodeDnsParam engine t := by
  unfold decodeDnsParam
  rw [trim_trim]

theorem trim_ne_nil {d : Text} {b : Bytes} (hb : decodeDnsParam engine d = some b) (hne : b ≠ []) :
    trim d ≠ [] := by
  intro hd
  have hletters := letters_of_decode hb
  rw [← filter_takeWhile_trim, hd] at hletters
  have hlen := congrArg List.length hletters
  rw [Base64.length_letters] at hlen
  have hpos := List.length_pos_of_ne_nil hne
  have hzero : (8 * b.length + 5) / 6 = 0 := hlen
  omega

theorem handleDohGet_several (h : 2 ≤ (dnsFields query).length) :
    handleDohGet engine headers query = .error .BadRequest := by
  unfold handleDohGet dohQuery
  match hf : dnsFields query with
  | [] =>
    rw [hf] at h
    exact absurd h (by decide)
  | [d] =>
    rw [hf, List.length_singleton] at h
    omega
  | _ :: _ :: _ => rfl

theorem handleDohGet_unacceptable (h : (dnsFields query).length ≤ 1)
    (hacc : isAcceptableMediaType headers = false) :
    handleDohGet engine headers query = .error .NotAcceptable := by
  unfold handleDohGet dohQuery
  rw [hacc]
  match hf : dnsFields query with
  | [] => rfl
  | [d] => rfl
  | _ :: _ :: _ =>
    rw [hf, List.length_cons, List.length_cons] at h
    omega

theorem handleDohGet_spelt {d : Text} {b : Bytes} (hf : dnsFields query = [d])
    (hacc : isAcceptableMediaType headers = true) (hb : decodeDnsParam engine d = some b)
    (hne : b ≠ []) :
    handleDohGet engine headers query =
      if maxDohPayload < b.length then .error .PayloadTooLarge else .ok b := by
  unfold handleDohGet dohQuery
  rw [hf, hacc]
  dsimp only
  rw [Bool.not_true, if_neg Bool.false_ne_true, if_neg (trim_ne_nil hb hne), decodeDnsParam_trim, hb]
  exact if_neg hne

theorem handleDohGet_unspelt (hacc : isAcceptableMediaType headers = true)
    (h : ∀ d ∈ dnsFields query, ¬ Spells engine d) :
    handleDohGet engine headers query = .error .BadRequest := by
  unfold handleDohGet dohQuery
  rw [hacc]
  match hfields : dnsFields query with
  | [] => rfl
  | [d] =>
    have hd := h d (by rw [hfields]; exact List.mem_singleton_self d)
    dsimp only
    rw [Bool.not_true, if_neg Bool.false_ne_true, decodeDnsParam_trim]
    split
    · rfl
    · cases hb : decodeDnsParam engine d with
      | none => rfl
      | some b => exact if_pos (not_not.mp fun hne => hd ⟨b, hb, hne⟩)
  | _ :: _ :: _ => rfl

theorem handleH3Get_spelt {w : Text} {b : Bytes} (hw : bareDns query = some w)
    (hb : decodeDnsParam engine w = some b) (hne : b ≠ []) :
    handleH3Get engine query = .ok b := by
  unfold handleH3Get
  rw [h3DnsParam_eq, hw]
  dsimp only
  rw [hb]
  exact if_neg hne

theorem handleH3Get_unspelt (h : ∀ w, bareDns query = some w → ¬ Spells engine w) :
    handleH3Get engine query = .error .BadRequest := by
  unfold handleH3Get
  rw [h3DnsParam_eq]
  cases hw : bareDns query with
  | none => rfl
  | some w =>
    dsimp only
    cases hb : decodeDnsParam engine w with
    | none => rfl
    | some b => exact if_pos (not_not.mp fun hne => h w hw ⟨b, hb, hne⟩)

theorem eq_singleton_of_mem {l : List Text} {d : Text} (hl : l.length ≤ 1) (hd : d ∈ l) :
    l = [d] := by
  match l with
  | [] => cases hd
  | [e] => rw [List.mem_singleton.mp hd]
  | _ :: _ :: _ =>
    rw [List.length_cons, List.length_cons] at hl
    omega

/-- the HTTP/3 handler refuses the query string -/
theorem get_agree_unspelt (hbare : ∀ w, bareDns query = some w → ¬ Spells engine w) :
    handleDohGet engine headers query = handleH3Get engine query ↔
      PlainQuery engine headers query := by
  rw [handleH3Get_unspelt hbare]
  by_cases hlen : (dnsFields query).length ≤ 1
  · cases hacc : isAcceptableMediaType headers with
    | false =>
      rw [handleDohGet_unacceptable hlen hacc]
      refine iff_of_false (by intro h; cases h) ?_
      rintro (⟨h2, -⟩ | ⟨-, hacc', -⟩)
      · omega
      · rw [hacc] at hacc'
        cases hacc'
    | true =>
      by_cases hfields : ∀ d ∈ dnsFields query, ¬ Spells engine d
      · rw [handleDohGet_unspelt hacc hfields]
        exact iff_of_true rfl (.inr ⟨hlen, hacc, .inl ⟨hfields, hbare⟩⟩)
      · obtain ⟨d, hd⟩ := not_forall.mp hfields
        obtain ⟨hd, hspells⟩ := Classical.not_imp.mp hd
        obtain ⟨b, hb, hne⟩ := not_not.mp hspells
        rw [handleDohGet_spelt (eq_singleton_of_mem hlen hd) hacc hb hne]
        refine iff_of_false ?_ ?_
        · intro h
          split at h
          · cases h
          · cases h
        · rintro (⟨h2, -⟩ | ⟨-, -, ⟨hno, -⟩ | ⟨_, _, w, hw, _, hs, _⟩⟩)
          · omega
          · exact hspells (hno d hd)
          · exact hbare w hw hs
  · rw [handleDohGet_several (by omega)]
    exact iff_of_true rfl (.inl ⟨by omega, hbare⟩)

theorem get_agree_spelt {w : Text} {b : Bytes} (hw : bareDns query = some w)
    (hb : decodeDnsParam engine w = some b) (hne : b ≠ []) :
    handleDohGet engine headers query = handleH3Get engine query ↔
      PlainQuery engine headers query := by
  have hspells : Spells engine w := ⟨b, hb, hne⟩
  rw [handleH3Get_spelt hw hb hne]
  by_cases hlen : (dnsFields query).length ≤ 1
  · cases hacc : isAcceptableMediaType headers with
    | false =>
      rw [handleDohGet_unacceptable hlen hacc]
      refine iff_of_false (by intro h; cases h) ?_
      rintro (⟨h2, -⟩ | ⟨-, hacc', -⟩)
      · omega
      · rw [hacc] at hacc'
        cases hacc'
    | true =>
      obtain ⟨x, hx, rfl⟩ := exists_field hw
      have hf := eq_singleton_of_mem hlen hx
      have hpad : '=' ∉ x.takeWhile fun c => c != '=' := by
        intro h
        exact absurd (List.mem_takeWhile_imp h) (by decide)
      by_cases hs : Spells engine (FormText.decode x)
      · obtain ⟨c, hc, hcne⟩ := hs
        have hsize := length_of_decode hb hpad
        rw [handleDohGet_spelt hf hacc hc hcne]
        constructor
        · intro h
          split at h
          · cases h
          · rename_i hshort
            obtain rfl := Except.ok.inj h
            exact .inr ⟨hlen, hacc, .inr ⟨_, hx, _, hw, ⟨c, hc, hcne⟩, hspells,
              (message_eq_iff hb hc).mp rfl, hsize.mp (Nat.not_lt.mp hshort)⟩⟩
        · rintro (⟨h2, -⟩ | ⟨-, -, ⟨-, hno⟩ | ⟨_, _, w', hw', -, -, hplus, hshort⟩⟩)
          · omega
          · exact absurd hspells (hno _ hw)
          · rw [hw] at hw'
            obtain rfl := Option.some.inj hw'
            obtain rfl := (message_eq_iff hb hc).mpr hplus
            exact if_neg (Nat.not_lt.mpr (hsize.mpr hshort))
      · have hno : ∀ d ∈ dnsFields query, ¬ Spells engine d := by
          intro d hd
          rw [hf] at hd
          rw [List.mem_singleton.mp hd]
          exact hs
        rw [handleDohGet_unspelt hacc hno]
        refine iff_of_false (by intro h; cases h) ?_
        rintro (⟨h2, -⟩ | ⟨-, -, ⟨-, hno'⟩ | ⟨d, hd, _, _, hd', _⟩⟩)
        · omega
        · exact hno' _ hw hspells
        · exact hno d hd hd'
  · rw [handleDohGet_several (by omega)]
    refine iff_of_false (by intro h; cases h) ?_
    rintro (⟨-, hno⟩ | ⟨hlen', -⟩)
    · exact hno w hw hspells
    · exact hlen hlen'

theorem get_agree_iff (engine : Base64Engine) (headers : HeaderMap) (query : Text) :
    handleDohGet engine headers query = handleH3Get engine query ↔
      PlainQuery engine headers query := by
  by_cases hbare : ∀ w, bareDns query = some w → ¬ Spells engine w
  · exact get_agree_unspelt hbare
  · obtain ⟨w, hw⟩ := not_forall.mp hbare
    obtain ⟨hw, hspells⟩ := Classical.not_imp.mp hw
    obtain ⟨b, hb, hne⟩ := not_not.mp hspells
    exact get_agree_spelt hw hb hne

/-! ## POST -/

theorem recvQuery_eq (chunks : List Bytes) (body : Bytes) (h : body.length ≤ maxDohPayload) :
    recvQuery chunks body =
      if maxDohPayload < (body ++ chunks.flatten).length then none
      else some (body ++ chunks.flatten) := by
  induction chunks generalizing body with
  | nil =>
    rw [List.flatten_nil, List.append_nil, if_neg (Nat.not_lt.mpr h)]
    rfl
  | cons chunk chunks ih =>
    rw [List.flatten_cons, ← List.append_assoc, recvQuery]
    by_cases hlong : maxDohPayload < (body ++ chunk).length
    · rw [if_pos hlong, if_pos]
      rw [List.length_append]
      omega
    · rw [if_neg hlong, ih _ (Nat.not_lt.mp hlong)]

/-- what the HTTP/3 handler takes for the content type, the DoH handler takes too -/
theorem dohContentType_of_h3 (h : h3ContentType headers = true) :
    dohContentType headers = true := by
  unfold h3ContentType at h
  unfold dohContentType
  cases hct : headers.getStr .ContentType with
  | none =>
    rw [hct] at h
    cases h
  | some ct =>
    rw [hct] at h
    have htype : "application/dns-message".toList ≠ [] ∧
        "application/dns-message".toList.head? = some 'a' ∧
        "application/dns-message".toList.getLast? = some 'e' ∧
        "application/dns-message".toList.map Char.toLower = "application/dns-message".toList := by
      decide +kernel
    obtain ⟨hne, hhead, hlast, hlower⟩ := htype
    obtain ⟨r, hr⟩ := prefix_trim hne
      (fun c hc => by rw [← Option.some.inj (hhead.symm.trans hc)]; rfl)
      (fun c hc => by rw [← Option.some.inj (hlast.symm.trans hc)]; rfl)
      (List.isPrefixOf_iff_prefix.mp h)
    apply List.isPrefixOf_iff_prefix.mpr
    rw [← hr, List.map_append, hlower]
    exact List.prefix_append _ _

theorem post_agree_iff (headers : HeaderMap) (chunks : List Bytes) :
    handleDohPost headers chunks.flatten = handleH3Post headers chunks ↔
      PlainBody headers chunks.flatten := by
  have hrecv := recvQuery_eq chunks [] (Nat.zero_le _)
  rw [List.nil_append] at hrecv
  unfold handleDohPost handleH3Post PlainBody
  rw [hrecv]
  by_cases hlong : maxDohPayload < chunks.flatten.length
  · rw [if_pos hlong, if_pos hlong, if_pos (show 4096 < _ from hlong)]
    cases h3ContentType headers with
    | false => exact iff_of_false (by intro h; cases h) Bool.false_ne_true
    | true => exact iff_of_true rfl rfl
  · rw [if_neg hlong, if_neg hlong, if_neg hlong, if_neg (show ¬ 4096 < _ from hlong)]
    dsimp only
    cases hh3 : h3ContentType headers with
    | true =>
      rw [dohContentType_of_h3 hh3, Bool.not_true, if_neg Bool.false_ne_true,
        if_neg Bool.false_ne_true]
      cases isAcceptableMediaType headers with
      | true => exact iff_of_true rfl (.inr ⟨rfl, rfl⟩)
      | false =>
        rw [Bool.not_false, if_pos rfl]
        refine iff_of_false (fun h => ?_) (by decide)
        split at h
        · cases h
        · cases h
    | false =>
      rw [Bool.not_false, if_pos rfl]
      cases dohContentType headers with
      | false => exact iff_of_true rfl (.inl rfl)
      | true =>
        rw [Bool.not_true, if_neg Bool.false_ne_true]
        refine iff_of_false (fun h => ?_) ?_
        · split at h
          · cases h
          · split at h
            · cases h
            · cases h
        · rintro (h | ⟨h, -⟩)
          · cases h
          · cases h

/-! ## the front ends -/

/-- **The two front ends.**  They pass the same message on or refuse with the same status if and
only if the request is plain: the parameter stands once, without escapes and spaces that change
what it spells, the headers pass the checks of both, and the message is within the limit. -/
theorem front_ends_agree_iff (engine : Base64Engine) (r : DnsRequest) :
    doh engine r = doh3 engine r ↔ r.Plain engine := by
  cases r with
  | GET headers query => exact get_agree_iff engine headers query
  | POST headers chunks => exact post_agree_iff headers chunks

/-! ### a browser -/

def base64Standard : Base64Engine where
  decode s := if utf8 (FormText.lossy s) = s then Base64.decode (FormText.lossy s) else none
  decode_eq_some := by
    intro s b
    constructor
    · intro h
      split at h
      · rename_i hs
        rw [← Base64.decode_eq_some.mp h, hs]
      · cases h
    · rintro rfl
      rw [lossy_utf8, if_pos rfl]
      exact Base64.decode_text b

/-- a query for the address of `www.example.com`, typed into a browser -/
def browserRequest : DnsRequest :=
  .GET [(.Accept, ascii "text/html")]
    "dns=AAABAAABAAAAAAAAA3d3dwdleGFtcGxlA2NvbQAAAQAB".toList

theorem browser_refused :
    ¬ doh base64Standard browserRequest = doh3 base64Standard browserRequest := by
  intro h
  have hdoh : doh base64Standard browserRequest = .error .NotAcceptable := by decide +kernel
  have hdoh3 : doh3 base64Standard browserRequest =
      .ok (ascii "\x00\x00\x01\x00\x00\x01\x00\x00\x00\x00\x00\x00\x03www\x07example\x03com\x00\x00\x01\x00\x01") := by
    decide +kernel
  rw [hdoh, hdoh3] at h
  cases h

end DnsResolver
