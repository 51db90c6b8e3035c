import DnsResolver.Engine.Process

/-!
# The text of cache keys (`canonical_cache_key`)

The answer cache and the single-flight map are keyed by a text, `name:TYPE:IN`.  `CacheKey` keeps
its two parts apart; here it is the text that is compared.  A name may contain colons, so the text
is read from the right.

`to_ascii` of hickory is a parameter.  It is taken to be injective and to commute with lower case,
and no mnemonic of a type to contain a colon (`KeyTexts`).

* `cacheKeyText_inj`            two texts are equal exactly if both parts are;
* `cache_key_separates_iff`     when equal keys mean equal questions.
-/

namespace DnsResolver

/-! ## lower case -/

/-- `Name::to_lowercase` -/
def Name.toLowercase (n : Name) : Name := ⟨n.fold, validLabels_fold.mpr n.valid⟩

/-! ## the text -/

/-- `format!("{}:{}:IN", qname.to_ascii().to_lowercase(), qtype)` -/
def cacheKeyText (toAscii : Name → Bytes) (codec : Codec) (qname : Name) (qtype : RecordType) :
    Bytes :=
  (toAscii qname).map lowerByte ++ 58 :: (codec.typeText qtype ++ [58, 73, 78])

/-- what the texts of names and types are taken to be like -/
structure KeyTexts (toAscii : Name → Bytes) (codec : Codec) : Prop where
  injective : ∀ a b, toAscii a = toAscii b → a = b
  lowercase : ∀ a, (toAscii a).map lowerByte = toAscii a.toLowercase
  no_colon : ∀ t, 58 ∉ codec.typeText t

theorem split_last_colon {a b s t : Bytes} (hs : 58 ∉ s) (ht : 58 ∉ t)
    (h : a ++ 58 :: s = b ++ 58 :: t) : a = b ∧ s = t := by
  -- one side would have a colon behind its last one
  have key : ∀ {c s t : Bytes}, 58 ∉ s → 58 :: s = c ++ 58 :: t → c = [] := by
    intro c s t hs hc
    cases c with
    | nil => rfl
    | cons x c =>
      rw [List.cons_append] at hc
      refine absurd ?_ hs
      rw [(List.cons.inj hc).2]
      exact List.mem_append_right _ List.mem_cons_self
  rcases List.append_eq_append_iff.mp h with ⟨c, rfl, hc⟩ | ⟨c, rfl, hc⟩
  · obtain rfl := key hs hc
    exact ⟨(List.append_nil _).symm, (List.cons.inj hc).2⟩
  · obtain rfl := key ht hc
    exact ⟨List.append_nil _, (List.cons.inj hc).2.symm⟩

section
variable {toAscii : Name → Bytes} {codec : Codec}

theorem KeyTexts.name_iff (h : KeyTexts toAscii codec) (a b : Name) :
    (toAscii a).map lowerByte = (toAscii b).map lowerByte ↔ a.fold = b.fold := by
  rw [h.lowercase, h.lowercase]
  constructor
  · intro heq
    exact congrArg Name.labels (h.injective _ _ heq)
  · intro heq
    have hlower : a.toLowercase = b.toLowercase := Name.ext heq
    rw [hlower]

theorem cacheKeyText_inj (h : KeyTexts toAscii codec) (a b : Name) (s t : RecordType) :
    cacheKeyText toAscii codec a s = cacheKeyText toAscii codec b t ↔
      canonicalCacheKey codec a s = canonicalCacheKey codec b t := by
  unfold cacheKeyText canonicalCacheKey
  rw [CacheKey.mk.injEq, ← h.name_iff]
  constructor
  · intro heq
    rw [← List.cons_append, ← List.cons_append, ← List.append_assoc, ← List.append_assoc,
      List.append_cancel_right_eq] at heq
    exact split_last_colon (h.no_colon s) (h.no_colon t) heq
  · rintro ⟨hname, htype⟩
    rw [hname, htype]

/-- **Separation.**  Two accepted requests with one key ask one question, exactly unless their
names agree up to case and their types print alike while type or class differ. -/
theorem cache_key_separates_iff (h : KeyTexts toAscii codec) {wire wire' : Bytes}
    {p p' : ParsedDnsQuery} (hp : parseAndValidateQuery codec wire = .ok p)
    (hp' : parseAndValidateQuery codec wire' = .ok p') :
    (p.cacheKey = p'.cacheKey ↔
      cacheKeyText toAscii codec p.query.name p.query.queryType =
        cacheKeyText toAscii codec p'.query.name p'.query.queryType) ∧
    ((cacheKeyText toAscii codec p.query.name p.query.queryType =
        cacheKeyText toAscii codec p'.query.name p'.query.queryType →
      p.query.name.fold = p'.query.name.fold ∧ p.query.queryType = p'.query.queryType ∧
        p.query.queryClass = p'.query.queryClass) ↔
      ¬ (p.query.name.fold = p'.query.name.fold ∧
        codec.typeText p.query.queryType = codec.typeText p'.query.queryType ∧
        (p.query.queryType ≠ p'.query.queryType ∨
          p.query.queryClass ≠ p'.query.queryClass))) := by
  have hkeys := cacheKeyText_inj h p.query.name p'.query.name p.query.queryType
    p'.query.queryType
  refine ⟨?_, ?_⟩
  · rw [parseAndValidateQuery_key hp, parseAndValidateQuery_key hp', hkeys]
  · rw [hkeys]
    unfold canonicalCacheKey
    rw [CacheKey.mk.injEq]
    constructor
    · rintro hsep ⟨hname, htext, hdiff⟩
      obtain ⟨-, htype, hclass⟩ := hsep ⟨hname, htext⟩
      rcases hdiff with hne | hne
      · exact hne htype
      · exact hne hclass
    · rintro hnot ⟨hname, htext⟩
      refine ⟨hname, ?_, ?_⟩
      · by_contra hne
        exact hnot ⟨hname, htext, Or.inl hne⟩
      · by_contra hne
        exact hnot ⟨hname, htext, Or.inr hne⟩

end

/-! ### texts of names -/

/-- letters, digits, `-` and `_` -/
def safeByte (b : UInt8) : Bool :=
  (48 ≤ b && b ≤ 57) || (65 ≤ b && b ≤ 90) || (97 ≤ b && b ≤ 122) || b == 45 || b == 95

/-- other bytes are written behind a backslash -/
def textByte (b : UInt8) : Bytes := if safeByte b then [b] else [92, b]

def textLabels : List Label → Bytes
  | [] => []
  | l :: ls => l.flatMap textByte ++ 46 :: textLabels ls

theorem textByte_cases (b : UInt8) :
    (safeByte b = true ∧ textByte b = [b]) ∨ (safeByte b = false ∧ textByte b = [92, b]) := by
  unfold textByte
  cases h : safeByte b with
  | true => exact Or.inl ⟨rfl, rfl⟩
  | false => exact Or.inr ⟨rfl, rfl⟩

theorem textByte_append_inj {b c : UInt8} {r r' : Bytes}
    (h : textByte b ++ r = textByte c ++ r') : b = c ∧ r = r' := by
  have h92 : safeByte 92 = false := by decide
  rcases textByte_cases b with ⟨hb, eb⟩ | ⟨hb, eb⟩ <;>
    rcases textByte_cases c with ⟨hc, ec⟩ | ⟨hc, ec⟩ <;> rw [eb, ec] at h
  · exact List.cons.inj h
  · obtain rfl : b = 92 := (List.cons.inj h).1
    rw [hb] at h92
    cases h92
  · obtain rfl : 92 = c := (List.cons.inj h).1
    rw [hc] at h92
    cases h92
  · exact List.cons.inj (List.cons.inj h).2

theorem textByte_ne_dot {b : UInt8} {r r' : Bytes} : textByte b ++ r ≠ 46 :: r' := by
  intro h
  rcases textByte_cases b with ⟨hb, eb⟩ | ⟨-, eb⟩ <;> rw [eb] at h
  · obtain rfl : b = 46 := (List.cons.inj h).1
    exact absurd hb (by decide)
  · exact absurd (List.cons.inj h).1 (by decide)

theorem textLabel_inj {l l' : Label} {r r' : Bytes}
    (h : l.flatMap textByte ++ 46 :: r = l'.flatMap textByte ++ 46 :: r') : l = l' ∧ r = r' := by
  induction l generalizing l' with
  | nil =>
    cases l' with
    | nil => exact ⟨rfl, (List.cons.inj h).2⟩
    | cons c l' =>
      rw [List.flatMap_cons, List.append_assoc] at h
      exact absurd h.symm textByte_ne_dot
  | cons b l ih =>
    cases l' with
    | nil =>
      rw [List.flatMap_cons, List.append_assoc] at h
      exact absurd h textByte_ne_dot
    | cons c l' =>
      rw [List.flatMap_cons, List.flatMap_cons, List.append_assoc, List.append_assoc] at h
      obtain ⟨rfl, hrest⟩ := textByte_append_inj h
      obtain ⟨rfl, rfl⟩ := ih hrest
      exact ⟨rfl, rfl⟩

theorem textLabels_inj {ls ls' : List Label} (h : textLabels ls = textLabels ls') : ls = ls' := by
  induction ls generalizing ls' with
  | nil =>
    cases ls' with
    | nil => rfl
    | cons l ls' => exact absurd h.symm (by simp [textLabels])
  | cons l ls ih =>
    cases ls' with
    | nil => exact absurd h (by simp [textLabels])
    | cons l' ls' =>
      obtain ⟨rfl, hrest⟩ := textLabel_inj h
      rw [ih hrest]

theorem map_lowerByte_textByte (b : UInt8) :
    (textByte b).map lowerByte = textByte (lowerByte b) := by
  have h : ∀ n : Fin 256, (textByte (UInt8.ofFin n)).map lowerByte =
      textByte (lowerByte (UInt8.ofFin n)) := by
    decide +kernel
  exact h b.toFin

theorem map_lowerByte_textLabels (ls : List Label) :
    (textLabels ls).map lowerByte = textLabels (ls.map foldLabel) := by
  induction ls with
  | nil => rfl
  | cons l ls ih =>
    have hlabel : (l.flatMap textByte).map lowerByte = (foldLabel l).flatMap textByte := by
      rw [List.map_flatMap]
      unfold foldLabel
      rw [List.flatMap_map]
      exact congrArg (fun f => l.flatMap f) (funext map_lowerByte_textByte)
    show (l.flatMap textByte ++ 46 :: textLabels ls).map lowerByte = _
    rw [List.map_append, List.map_cons, hlabel, ih]
    rfl

/-! ### two cases and two classes -/

def exampleCom : Name := ⟨[ascii "example", ascii "com"], by decide +kernel⟩

def exampleComUpper : Name := ⟨[ascii "EXAMPLE", ascii "com"], by decide +kernel⟩

/-- a question for the address of a name in a class -/
def addressQuery (n : Name) (c : DnsClass) : Message :=
  { id := 0x1234, recursionDesired := true, queries := [⟨n, .A, c⟩] }

/-- its wire form, for a name under `com` -/
def addressQueryWire (label : String) (c : UInt8) : Bytes :=
  [0x12, 0x34, 1, 0, 0, 1, 0, 0, 0, 0, 0, 0, 7] ++ ascii label ++ 3 :: ascii "com" ++
    [0, 0, 1, 0, c]

def addressCodec : Codec where
  toBytes _ := none
  read w :=
    if w = addressQueryWire "example" 1 then some (addressQuery exampleCom .IN)
    else if w = addressQueryWire "EXAMPLE" 1 then some (addressQuery exampleComUpper .IN)
    else if w = addressQueryWire "example" 3 then some (addressQuery exampleCom .CH)
    else none
  typeText t := if t = .A then ascii "A" else ascii "Unknown"

theorem addressCodec_texts : KeyTexts (fun n => textLabels n.labels) addressCodec where
  injective _ _ h := Name.ext (textLabels_inj h)
  lowercase n := map_lowerByte_textLabels n.labels
  no_colon t := by
    show 58 ∉ (if t = .A then ascii "A" else ascii "Unknown")
    split <;> decide +kernel

/-- the parsed form of a request without EDNS -/
def addressParsed (n : Name) (c : DnsClass) : ParsedDnsQuery where
  client := ⟨addressQuery n c, 512, false⟩
  query := ⟨n, .A, c⟩
  cacheKey := canonicalCacheKey addressCodec n .A
  ecsNet := none

theorem cache_key_separates_case :
    parseAndValidateQuery addressCodec (addressQueryWire "example" 1) =
      .ok (addressParsed exampleCom .IN) ∧
    parseAndValidateQuery addressCodec (addressQueryWire "EXAMPLE" 1) =
      .ok (addressParsed exampleComUpper .IN) ∧
    exampleCom ≠ exampleComUpper ∧ exampleCom.fold = exampleComUpper.fold := by
  have hp : parseAndValidateQuery addressCodec (addressQueryWire "example" 1) =
      .ok (addressParsed exampleCom .IN) := rfl
  have hp' : parseAndValidateQuery addressCodec (addressQueryWire "EXAMPLE" 1) =
      .ok (addressParsed exampleComUpper .IN) := rfl
  have hsep := (cache_key_separates_iff addressCodec_texts hp hp').2.mpr
  refine ⟨hp, hp', by decide +kernel, (hsep ?_ (by decide +kernel)).1⟩
  rintro ⟨-, -, h | h⟩ <;> exact h rfl

/-- the class is not part of the key -/
theorem classes_share_key : ∃ p p',
    parseAndValidateQuery addressCodec (addressQueryWire "example" 1) = .ok p ∧
    parseAndValidateQuery addressCodec (addressQueryWire "example" 3) = .ok p' ∧
    p.cacheKey = p'.cacheKey ∧
    cacheKeyText (fun n => textLabels n.labels) addressCodec p.query.name p.query.queryType =
      cacheKeyText (fun n => textLabels n.labels) addressCodec p'.query.name
        p'.query.queryType ∧
    p.query.queryClass ≠ p'.query.queryClass :=
  ⟨addressParsed exampleCom .IN, addressParsed exampleCom .CH, rfl, rfl, rfl, rfl, by decide⟩

end DnsResolver
