import DnsResolver.Engine.PrefetchTasks

/-!
# The question of a prefetch

The loop has keys only.  It cuts the text of a key at its first two colons and parses what is in
front of each, so a colon in a name would shift the parts.  `Name::from_str` and
`RecordType::from_str` are parameters.

* `readCacheKey`          the text of a key, read;
* `KeyReaders`            what is asked of the texts in it;
* `readCacheKey_colon`    a name with a colon is not prefetched;
* `prefetch_own_question` a prefetch is for the question of its key.
-/

namespace DnsResolver

/-! ## the question of a key -/

/-- a text up to its first colon, and the text behind it -/
def splitColon : Bytes → Option (Bytes × Bytes)
  | [] => none
  | b :: rest =>
    if b = 58 then some ([], rest) else (splitColon rest).map fun p => (b :: p.1, p.2)

/-- `key.splitn(3, ':')`, `Name::from_str` and `RecordType::from_str` -/
def readCacheKey (nameOf : Bytes → Option Name) (typeOf : Bytes → Option RecordType)
    (key : Bytes) : Option (Name × RecordType) :=
  match splitColon key with
  | none => none
  | some (name, rest) =>
    match splitColon rest with
    | none => none
    | some (type, _) =>
      match nameOf name, typeOf type with
      | some name, some qtype => some (name, qtype)
      | _, _ => none

/-- how the texts in a key are taken to be read: in a name a colon stands behind a backslash and
before a dot, and no type ends with either -/
structure KeyReaders (toAscii : Name → Bytes) (codec : Codec)
    (typeOf : Bytes → Option RecordType) : Prop where
  no_colon : ∀ t, 58 ∉ codec.typeText t
  type_text : ∀ t t', typeOf (codec.typeText t) = some t' → codec.typeText t' = codec.typeText t
  type_dot : ∀ a, typeOf (a ++ [46]) = none
  type_backslash : ∀ a, typeOf (a ++ [92]) = none
  name_colon : ∀ n a b, (toAscii n).map lowerByte = a ++ 58 :: b →
    (∃ a', a = a' ++ [92]) ∧ ∃ b', b = b' ++ [46]

theorem splitColon_append {a : Bytes} (ha : 58 ∉ a) (rest : Bytes) :
    splitColon (a ++ 58 :: rest) = some (a, rest) := by
  induction a with
  | nil => rfl
  | cons b a ih =>
    have hb : b ≠ 58 := fun he => ha (by rw [he]; exact List.mem_cons_self)
    have ha' : 58 ∉ a := fun hm => ha (List.mem_cons_of_mem _ hm)
    rw [List.cons_append, splitColon, if_neg hb, ih ha']
    rfl

theorem exists_first_colon {s : Bytes} (h : 58 ∈ s) : ∃ a b, s = a ++ 58 :: b ∧ 58 ∉ a := by
  induction s with
  | nil => cases h
  | cons c s ih =>
    by_cases hc : c = 58
    · exact ⟨[], s, by rw [hc]; rfl, List.not_mem_nil⟩
    · have hs : 58 ∈ s := (List.mem_cons.mp h).resolve_left (Ne.symm hc)
      obtain ⟨a, b, rfl, ha⟩ := ih hs
      refine ⟨c :: a, b, rfl, fun hm => ?_⟩
      rcases List.mem_cons.mp hm with he | hm
      · exact hc he.symm
      · exact ha hm

theorem readCacheKey_split {nameOf : Bytes → Option Name} {typeOf : Bytes → Option RecordType}
    {name type rest : Bytes} (hname : 58 ∉ name) (htype : 58 ∉ type) :
    readCacheKey nameOf typeOf (name ++ 58 :: (type ++ 58 :: rest)) =
      match nameOf name, typeOf type with
      | some name, some qtype => some (name, qtype)
      | _, _ => none := by
  unfold readCacheKey
  rw [splitColon_append hname]
  dsimp only
  rw [splitColon_append htype]

section
variable {toAscii : Name → Bytes} {codec : Codec} {nameOf : Bytes → Option Name}
  {typeOf : Bytes → Option RecordType}

/-- a name with a colon in it is not prefetched: what comes where the type should be is none -/
theorem readCacheKey_colon (h : KeyReaders toAscii codec typeOf) {n : Name}
    (hcolon : 58 ∈ (toAscii n).map lowerByte) (t : RecordType) :
    readCacheKey nameOf typeOf (cacheKeyText toAscii codec n t) = none := by
  obtain ⟨a, b, hn, ha⟩ := exists_first_colon hcolon
  unfold cacheKeyText
  by_cases hb : 58 ∈ b
  · -- another colon of the name is the second one of the key
    obtain ⟨c, d, rfl, hc⟩ := exists_first_colon hb
    obtain ⟨⟨c', hc'⟩, -⟩ := h.name_colon n (a ++ 58 :: c) d (by rw [hn]; simp)
    have hlast : ∃ c'', c = c'' ++ [92] := by
      rcases List.eq_nil_or_concat c with rfl | ⟨c'', x, rfl⟩
      · have hend := congrArg List.getLast? hc'
        rw [List.getLast?_concat, List.getLast?_concat] at hend
        exact absurd (Option.some.inj hend) (by decide)
      · have hend := congrArg List.getLast? hc'
        rw [List.concat_eq_append, ← List.cons_append, ← List.append_assoc, List.getLast?_concat,
          List.getLast?_concat] at hend
        rw [List.concat_eq_append, Option.some.inj hend]
        exact ⟨c'', rfl⟩
    obtain ⟨c'', rfl⟩ := hlast
    rw [hn, List.append_assoc, List.cons_append, List.append_assoc, List.cons_append,
      readCacheKey_split ha hc, h.type_backslash]
    cases nameOf a <;> rfl
  · -- the rest of the name comes where the type should be
    obtain ⟨-, b', rfl⟩ := h.name_colon n a b hn
    rw [hn, List.append_assoc, List.cons_append, readCacheKey_split ha hb, h.type_dot]
    cases nameOf a <;> rfl

theorem readCacheKey_key (h : KeyReaders toAscii codec typeOf) {n m : Name} {t qtype : RecordType}
    (hname : ∀ m, nameOf ((toAscii n).map lowerByte) = some m → m.fold = n.fold)
    (hread : readCacheKey nameOf typeOf (cacheKeyText toAscii codec n t) = some (m, qtype)) :
    canonicalCacheKey codec m qtype = canonicalCacheKey codec n t := by
  by_cases hcolon : 58 ∈ (toAscii n).map lowerByte
  · rw [readCacheKey_colon h hcolon] at hread
    cases hread
  · unfold cacheKeyText at hread
    have hsplit : (codec.typeText t ++ [58, 73, 78] : Bytes) =
        codec.typeText t ++ 58 :: [73, 78] := rfl
    rw [hsplit, readCacheKey_split hcolon (h.no_colon t)] at hread
    split at hread
    · rename_i m' qtype' hm ht
      obtain ⟨rfl, rfl⟩ := Prod.mk.inj (Option.some.inj hread)
      unfold canonicalCacheKey
      rw [hname _ hm, h.type_text t _ ht]
    · cases hread

/-- **The question of a prefetch.**  Whatever bytes are in a name, what the loop reads off the text
of the key is a question with this key, if it reads the text of the name as that name. -/
theorem prefetch_own_question {srv : Server} {cfg : PrefetchConfig}
    (h : KeyReaders toAscii srv.codec typeOf)
    (htexts : ∀ n t, cfg.readKey (canonicalCacheKey srv.codec n t) =
      readCacheKey nameOf typeOf (cacheKeyText toAscii srv.codec n t))
    {n : Name} {t : RecordType}
    (hname : ∀ m, nameOf ((toAscii n).map lowerByte) = some m → m.fold = n.fold) {found : CacheKey}
    (hstands : cfg.Stands srv (canonicalCacheKey srv.codec n t) found) :
    found = canonicalCacheKey srv.codec n t := by
  rcases hstands with rfl | ⟨m, qtype, hread, rfl⟩
  · rfl
  · rw [htexts] at hread
    exact readCacheKey_key h hname hread

end

/-! ### texts with a backslash before a colon -/

def ColonsEscaped (s : Bytes) : Prop := ∀ a b, s = a ++ 58 :: b → ∃ a', a = a' ++ [92]

theorem ColonsEscaped.append {s r : Bytes} (hs : ColonsEscaped s) (hr : ColonsEscaped r) :
    ColonsEscaped (s ++ r) := by
  intro a b he
  rcases List.append_eq_append_iff.mp he with ⟨c, rfl, hc⟩ | ⟨c, hc, hrest⟩
  · obtain ⟨a', rfl⟩ := hr c b hc
    exact ⟨s ++ a', (List.append_assoc _ _ _).symm⟩
  · cases c with
    | nil =>
      obtain ⟨a', ha'⟩ := hr [] b hrest.symm
      exact absurd (congrArg List.length ha') (by simp)
    | cons x c =>
      rw [List.cons_append] at hrest
      rw [← (List.cons.inj hrest).1] at hc
      exact hs a c hc

theorem colonsEscaped_of_notMem {s : Bytes} (h : 58 ∉ s) : ColonsEscaped s := by
  intro a b he
  rw [he] at h
  exact absurd (List.mem_append_right _ List.mem_cons_self) h

theorem colonsEscaped_textByte (b : UInt8) : ColonsEscaped (textByte b) := by
  rcases textByte_cases b with ⟨hsafe, he⟩ | ⟨-, he⟩
  · rw [he]
    refine colonsEscaped_of_notMem fun hm => ?_
    rw [← List.mem_singleton.mp hm] at hsafe
    exact absurd hsafe (by decide)
  · rw [he]
    intro a c hac
    cases a with
    | nil => exact absurd (List.cons.inj hac).1 (by decide)
    | cons x a =>
      rw [List.cons_append] at hac
      obtain ⟨hx, hrest⟩ := List.cons.inj hac
      cases a with
      | nil => exact ⟨[], by rw [← hx]; rfl⟩
      | cons y a =>
        have hlen := congrArg List.length hrest
        rw [List.length_singleton, List.length_append, List.length_cons, List.length_cons] at hlen
        omega

theorem colonsEscaped_textLabels (ls : List Label) : ColonsEscaped (textLabels ls) := by
  induction ls with
  | nil => exact colonsEscaped_of_notMem List.not_mem_nil
  | cons l ls ih =>
    have hlabel : ColonsEscaped (l.flatMap textByte) := by
      induction l with
      | nil => exact colonsEscaped_of_notMem List.not_mem_nil
      | cons b l ihl =>
        rw [List.flatMap_cons]
        exact (colonsEscaped_textByte b).append ihl
    have hdot : ColonsEscaped [46] := colonsEscaped_of_notMem (by decide)
    exact hlabel.append (hdot.append ih)

theorem textLabels_end (ls : List Label) : textLabels ls = [] ∨ ∃ a, textLabels ls = a ++ [46] := by
  induction ls with
  | nil => exact Or.inl rfl
  | cons l ls ih =>
    right
    rcases ih with hnil | ⟨a, ha⟩
    · exact ⟨l.flatMap textByte, by rw [textLabels, hnil]⟩
    · refine ⟨l.flatMap textByte ++ 46 :: a, ?_⟩
      rw [textLabels, ha, List.append_assoc, List.cons_append]

theorem textLabels_colon {ls : List Label} {a b : Bytes} (h : textLabels ls = a ++ 58 :: b) :
    (∃ a', a = a' ++ [92]) ∧ ∃ b', b = b' ++ [46] := by
  refine ⟨colonsEscaped_textLabels ls a b h, ?_⟩
  rcases textLabels_end ls with hnil | ⟨c, hc⟩
  · rw [hnil] at h
    cases a <;> cases h
  · have hend := congrArg List.getLast? (hc.symm.trans h)
    rw [List.getLast?_concat] at hend
    rcases List.eq_nil_or_concat b with rfl | ⟨b', x, rfl⟩
    · rw [List.getLast?_concat] at hend
      exact absurd (Option.some.inj hend) (by decide)
    · rw [List.concat_eq_append, ← List.cons_append, ← List.append_assoc, List.getLast?_concat]
        at hend
      exact ⟨b', by rw [List.concat_eq_append, Option.some.inj hend]⟩

/-! ### a name in two cases -/

def readExampleName (s : Bytes) : Option Name :=
  if s = ascii "example.com." then some exampleCom else none

def readAddressType (s : Bytes) : Option RecordType := if s = ascii "A" then some .A else none

theorem addressCodec_readers :
    KeyReaders (fun n => textLabels n.labels) addressCodec readAddressType where
  no_colon := addressCodec_texts.no_colon
  type_text t t' h := by
    unfold readAddressType at h
    split at h
    · rename_i ht
      rw [← Option.some.inj h, ht]
      rfl
    · cases h
  type_dot a := by
    refine if_neg fun he => ?_
    have hend := congrArg List.getLast? he
    rw [List.getLast?_concat] at hend
    exact absurd hend (by decide)
  type_backslash a := by
    refine if_neg fun he => ?_
    have hend := congrArg List.getLast? he
    rw [List.getLast?_concat] at hend
    exact absurd hend (by decide)
  name_colon n a b h := by
    rw [map_lowerByte_textLabels] at h
    exact textLabels_colon h

def addressServer : Server := { bareServer with codec := addressCodec }

def addressConfig : PrefetchConfig :=
  { Prefetcher.eagerConfig with
    readKey := fun key => readCacheKey readExampleName readAddressType
      (textLabels key.name ++ 58 :: (key.qtype ++ [58, 73, 78])) }

theorem addressConfig_reads (n : Name) (t : RecordType) :
    addressConfig.readKey (canonicalCacheKey addressServer.codec n t) =
      readCacheKey readExampleName readAddressType
        (cacheKeyText (fun n => textLabels n.labels) addressServer.codec n t) := by
  unfold cacheKeyText
  rw [map_lowerByte_textLabels]
  rfl

/-- the key of the name in upper case -/
theorem addressConfig_own_question :
    addressConfig.readKey (canonicalCacheKey addressCodec exampleComUpper .A) =
        some (exampleCom, .A) ∧
      canonicalCacheKey addressCodec exampleCom .A =
        canonicalCacheKey addressCodec exampleComUpper .A := by
  have hread : addressConfig.readKey (canonicalCacheKey addressCodec exampleComUpper .A) =
      some (exampleCom, .A) := by decide +kernel
  have hname : ∀ m, readExampleName ((textLabels exampleComUpper.labels).map lowerByte) = some m →
      m.fold = exampleComUpper.fold := by
    intro m hm
    have heq : readExampleName ((textLabels exampleComUpper.labels).map lowerByte) =
        some exampleCom := by decide +kernel
    rw [heq] at hm
    rw [← Option.some.inj hm]
    decide +kernel
  have hreaders : KeyReaders (fun n => textLabels n.labels) addressServer.codec readAddressType :=
    addressCodec_readers
  have hstands : addressConfig.Stands addressServer
      (canonicalCacheKey addressServer.codec exampleComUpper .A)
      (canonicalCacheKey addressServer.codec exampleCom .A) := Or.inr ⟨exampleCom, .A, hread, rfl⟩
  exact ⟨hread, prefetch_own_question hreaders addressConfig_reads hname hstands⟩

end DnsResolver
