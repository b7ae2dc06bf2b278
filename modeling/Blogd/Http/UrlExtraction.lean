import Blogd.Http.UrlFields

/-! # Taking the path and the query out of a URL

The handler hands the parser a structure that was never written. Whether the URL is accepted does
not depend on what the structure held. The path and the query do, unless the URL has both: the
handler does not look at the record of the fields that were set.
-/

namespace Blogd

/-! ## Whether a URL is accepted does not depend on the structure -/

/-- Two structures that agree on what is marked as set. -/
structure Agree (a b : HttpParserUrl) : Prop where
  fieldSet : a.fieldSet = b.fieldSet
  port : a.port = b.port
  fieldData : ∀ f, a.fieldSet f = true → a.fieldData f = b.fieldData f

namespace Agree

variable {a b : HttpParserUrl}

theorem incrLen (hab : Agree a b) {uf : UrlField} (hset : a.fieldSet uf = true) :
    Agree (a.incrLen uf) (b.incrLen uf) := by
  refine ⟨hab.fieldSet, hab.port, fun f hf => ?_⟩
  simp only [HttpParserUrl.incrLen, HttpParserUrl.setData]
  rw [hab.fieldData uf hset, hab.fieldData f hf]

theorem start (hab : Agree a b) (uf : UrlField) (data : FieldData) :
    Agree ((a.setData uf data).mark uf) ((b.setData uf data).mark uf) := by
  refine ⟨?_, hab.port, fun f hf => ?_⟩
  · simp only [HttpParserUrl.mark, HttpParserUrl.setData, hab.fieldSet]
  · simp only [HttpParserUrl.mark, HttpParserUrl.setData, Bool.or_eq_true,
      decide_eq_true_eq] at hf ⊢
    split
    next => rfl
    next hne => exact hab.fieldData f (hf.resolve_left hne)

theorem setData (hab : Agree a b) (uf : UrlField) (data : FieldData) :
    Agree (a.setData uf data) (b.setData uf data) := by
  refine ⟨hab.fieldSet, hab.port, fun f hf => ?_⟩
  simp only [HttpParserUrl.setData]
  rw [hab.fieldData f hf]

theorem grow (hab : Agree a b) (uf : UrlField) (i : Nat) {underWay : Bool}
    (hset : underWay = true → a.fieldSet uf = true) :
    Agree (a.grow uf i underWay) (b.grow uf i underWay) := by
  cases underWay with
  | true => exact hab.incrLen (hset rfl)
  | false =>
      apply (hab.start uf ⟨i % 2 ^ 16, 0⟩).incrLen
      simp [HttpParserUrl.mark]

theorem growHost (hab : Agree a b) (i : Nat) (underWay : Bool) (hset : a.fieldSet .host = true) :
    Agree (a.growHost i underWay) (b.growHost i underWay) := by
  cases underWay with
  | true => exact hab.incrLen hset
  | false =>
      simp only [HttpParserUrl.growHost, Bool.false_eq_true, if_false]
      rw [← hab.fieldData .host hset]
      exact (hab.setData .host _).incrLen hset

end Agree

theorem HttpParserUrl.grow_fieldSet {u : HttpParserUrl} {uf f : UrlField} (i : Nat)
    {underWay : Bool} (hf : u.fieldSet f = true) : (u.grow uf i underWay).fieldSet f = true := by
  cases underWay <;> simp [HttpParserUrl.grow, HttpParserUrl.incrLen, HttpParserUrl.setData,
    HttpParserUrl.mark, hf]

theorem HttpParserUrl.grow_fieldSet_self {u : HttpParserUrl} {uf : UrlField} (i : Nat)
    {underWay : Bool} (hf : underWay = true → u.fieldSet uf = true) :
    (u.grow uf i underWay).fieldSet uf = true := by
  cases underWay with
  | true => exact hf rfl
  | false => simp [HttpParserUrl.grow, HttpParserUrl.incrLen, HttpParserUrl.setData,
      HttpParserUrl.mark]

theorem HttpParserUrl.growHost_fieldSet {u : HttpParserUrl} (i : Nat) (underWay : Bool) :
    (u.growHost i underWay).fieldSet = u.fieldSet := by
  cases underWay <;> rfl

/-- The scan of the URL keeps the agreement, or fails on both. -/
theorem scanUrl_agree {i : Nat} {rest : Bytes} {s : UrlState} {oldUf : Option UrlField}
    {foundAt : Bool} {a b : HttpParserUrl} (hab : Agree a b)
    (hold : ∀ f, oldUf = some f → a.fieldSet f = true) :
    (scanUrl i ⟨s, oldUf, foundAt, a⟩ rest = none ∧ scanUrl i ⟨s, oldUf, foundAt, b⟩ rest = none) ∨
      ∃ s' oldUf' foundAt' a' b', Agree a' b' ∧
        scanUrl i ⟨s, oldUf, foundAt, a⟩ rest = some ⟨s', oldUf', foundAt', a'⟩ ∧
        scanUrl i ⟨s, oldUf, foundAt, b⟩ rest = some ⟨s', oldUf', foundAt', b'⟩ := by
  induction rest generalizing i s oldUf foundAt a b with
  | nil => exact .inr ⟨s, oldUf, foundAt, a, b, hab, rfl, rfl⟩
  | cons c rest ih =>
      simp only [scanUrl]
      split
      next => exact .inl ⟨rfl, rfl⟩
      next =>
        split
        next => exact ih hab hold
        next uf huf =>
          split
          next hsame =>
            refine ih (hab.incrLen (hold uf hsame)) fun f hf => ?_
            exact hold f hf
          next =>
            refine ih (hab.start uf _) fun f hf => ?_
            cases hf
            simp [HttpParserUrl.mark]

/-- The scan of the host keeps the agreement, or fails on both. -/
theorem scanHost_agree {i : Nat} {rest : Bytes} {s : HostState} {a b : HttpParserUrl}
    (hab : Agree a b) (hhost : a.fieldSet .host = true)
    (hport : s = .hostPort → a.fieldSet .port = true)
    (huserinfo : s = .userinfo → a.fieldSet .userinfo = true) :
    (scanHost i s a rest = none ∧ scanHost i s b rest = none) ∨
      ∃ s' a' b', Agree a' b' ∧ scanHost i s a rest = some (s', a') ∧
        scanHost i s b rest = some (s', b') := by
  -- the invariant: in the states of a port and of a userinfo their field is already set
  induction rest generalizing i s a b with
  | nil => exact .inr ⟨s, a, b, hab, rfl, rfl⟩
  | cons c rest ih =>
      simp only [scanHost]
      split
      next => exact .inl ⟨rfl, rfl⟩
      next h =>
        refine ih (hab.growHost i _ hhost) ?_ (by simp [h]) (by simp [h])
        rw [HttpParserUrl.growHost_fieldSet]
        exact hhost
      next h =>
        refine ih (hab.growHost i _ hhost) ?_ (by simp [h]) (by simp [h])
        rw [HttpParserUrl.growHost_fieldSet]
        exact hhost
      next h => exact ih (hab.incrLen hhost) hhost (by simp [h]) (by simp [h])
      next h => exact ih (hab.incrLen hhost) hhost (by simp [h]) (by simp [h])
      next h =>
        have hset : decide (s = .hostPort) = true → a.fieldSet .port = true :=
          fun hs => hport (by simpa using hs)
        exact ih (hab.grow .port i hset) (HttpParserUrl.grow_fieldSet i hhost)
          (fun _ => HttpParserUrl.grow_fieldSet_self i hset) (by simp [h])
      next h =>
        have hset : decide (s = .userinfo) = true → a.fieldSet .userinfo = true :=
          fun hs => huserinfo (by simpa using hs)
        exact ih (hab.grow .userinfo i hset) (HttpParserUrl.grow_fieldSet i hhost)
          (by simp [h]) (fun _ => HttpParserUrl.grow_fieldSet_self i hset)
      next h₁ h₂ h₃ h₄ h₅ h₆ h₇ => exact ih hab hhost (fun h => absurd h h₆) (fun h => absurd h h₇)

theorem httpParseHost_agree {buf : Bytes} {a b : HttpParserUrl} {foundAt : Bool}
    (hab : Agree a b) (hhost : a.fieldSet .host = true) :
    (httpParseHost buf a foundAt = none ∧ httpParseHost buf b foundAt = none) ∨
      ∃ a' b', Agree a' b' ∧ httpParseHost buf a foundAt = some a' ∧
        httpParseHost buf b foundAt = some b' := by
  have hscan := @scanHost_agree (a.fieldData .host).off
    ((buf.drop (a.fieldData .host).off).take (a.fieldData .host).len)
    (if foundAt then .userinfoStart else .hostStart) _ _
    (hab.setData .host ⟨(a.fieldData .host).off, 0⟩) hhost
    (by cases foundAt <;> simp) (by cases foundAt <;> simp)
  simp only [httpParseHost, ← hab.fieldData .host hhost]
  rcases hscan with ⟨ha, hb⟩ | ⟨s, a', b', hab', ha, hb⟩
  · left
    rw [ha, hb]
    exact ⟨rfl, rfl⟩
  · rw [ha, hb]
    simp only
    split
    next => exact .inl ⟨rfl, rfl⟩
    next => exact .inr ⟨a', b', hab', rfl, rfl⟩

/-- A URL is accepted on every structure or on none. -/
theorem httpParserParseUrl_isSome (url : Bytes) (u v : HttpParserUrl) :
    (httpParserParseUrl url u).isSome = (httpParserParseUrl url v).isSome := by
  have hstart : Agree { u with port := 0, fieldSet := fun _ => false }
      { v with port := 0, fieldSet := fun _ => false } :=
    ⟨rfl, rfl, fun f hf => absurd hf Bool.false_ne_true⟩
  have hscan := @scanUrl_agree 0 url .spacesBeforeUrl none false _ _ hstart (by simp)
  -- the port is read at its offset only when it was set, where the two agree
  have hfinish : ∀ a b : HttpParserUrl, Agree a b →
      (if a.fieldSet .port = true then
        if strtoul (url.drop (a.fieldData .port).off) > 65535 then none
        else some { a with port := strtoul (url.drop (a.fieldData .port).off) }
      else some a : Option HttpParserUrl).isSome =
      (if b.fieldSet .port = true then
        if strtoul (url.drop (b.fieldData .port).off) > 65535 then none
        else some { b with port := strtoul (url.drop (b.fieldData .port).off) }
      else some b : Option HttpParserUrl).isSome := by
    intro a b hab
    rw [← hab.fieldSet]
    split
    next hport =>
      rw [← hab.fieldData .port hport]
      split <;> rfl
    next => rfl
  unfold httpParserParseUrl
  rcases hscan with ⟨ha, hb⟩ | ⟨s, oldUf, foundAt, a, b, hab, ha, hb⟩
  · rw [ha, hb]
  · rw [ha, hb]
    simp only [Option.bind_eq_bind, Option.bind_some, ← hab.fieldSet]
    split
    next => rfl
    next =>
      split
      next hhost =>
        rcases httpParseHost_agree hab hhost with ⟨ha', hb'⟩ | ⟨a', b', hab', ha', hb'⟩
        · rw [ha', hb']
        · rw [ha', hb']
          exact hfinish a' b' hab'
      next =>
        have hboth := hfinish a b hab
        rwa [← hab.fieldSet] at hboth

/-! ## The components the handler copies -/

/-- The contents a structure in memory can have: offsets and lengths are 16 bits wide. -/
def HttpParserUrl.WellSized (u : HttpParserUrl) : Prop :=
  ∀ f, (u.fieldData f).off < 2 ^ 16 ∧ (u.fieldData f).len < 2 ^ 16

/-- The path of a URL, empty when it has none. -/
def urlPathOf (url : Bytes) : Bytes := pathPart (urlTail url)

/-- The query of a URL, empty when it has none. -/
def urlQueryOf (url : Bytes) : Bytes := queryPart (urlTail url)

def urlPathStart (url : Bytes) : Nat := url.length - (urlTail url).length

def urlQueryStart (url : Bytes) : Nat := urlPathStart url + (urlPathOf url).length + 1

/-- A component that is there, that is shorter than 64 KiB, and that also stands at its offset
modulo 64 KiB. -/
def Recorded (url : Bytes) (start : Nat) (part : Bytes) : Prop :=
  part ≠ [] ∧ part.length < 2 ^ 16 ∧ part <+: url.drop (start % 2 ^ 16)

instance (url : Bytes) (start : Nat) (part : Bytes) : Decidable (Recorded url start part) :=
  inferInstanceAs (Decidable (_ ∧ _ ∧ _))

/-- A URL with a path and a query that both survive the 16 bits of the record. -/
def HasBothFields (url : Bytes) : Prop :=
  Recorded url (urlPathStart url) (urlPathOf url) ∧
    Recorded url (urlQueryStart url) (urlQueryOf url)

instance (url : Bytes) : Decidable (HasBothFields url) := inferInstanceAs (Decidable (_ ∧ _))

/-- A field that was never written can make the copy of an absent component go wrong. -/
theorem exists_strndupAt_ne_nil (url : Bytes) :
    ∃ junk : FieldData, junk.off < 2 ^ 16 ∧ junk.len < 2 ^ 16 ∧ strndupAt url junk ≠ .ok [] := by
  cases url with
  | nil => exact ⟨⟨1, 1⟩, by decide, by decide, by simp [strndupAt]⟩
  | cons c rest => exact ⟨⟨0, 1⟩, by decide, by decide, by simp [strndupAt]⟩

theorem strndupAt_record_iff {url part : Bytes} {start : Nat} (hpart : part ≠ [])
    (hstart : start ≤ url.length) :
    strndupAt url ⟨start % 2 ^ 16, part.length % 2 ^ 16⟩ = .ok part ↔
      Recorded url start part := by
  have hoff : start % 2 ^ 16 ≤ url.length := (Nat.mod_le _ _).trans hstart
  constructor
  · intro hcopy
    unfold strndupAt at hcopy
    split at hcopy
    next =>
      cases hcopy
      exact absurd rfl hpart
    next hlen =>
      simp only [Except.ok.injEq] at hcopy
      have hle : part.length ≤ part.length % 2 ^ 16 := by
        conv_lhs => rw [← hcopy]
        exact List.length_take_le _ _
      refine ⟨hpart, hle.trans_lt (Nat.mod_lt _ (by decide)), ?_⟩
      rw [← hcopy]
      exact List.take_prefix _ _
  · rintro ⟨-, hlen, hpre⟩
    have hpos : part.length ≠ 0 := fun h => hpart (List.length_eq_zero_iff.mp h)
    rw [strndupAt, Nat.mod_eq_of_lt hlen, if_neg hpos, if_pos hoff,
      ← List.prefix_iff_eq_take.mp hpre]

theorem urlPathStart_le (url : Bytes) : urlPathStart url ≤ url.length := Nat.sub_le _ _

theorem length_queryPart {tail : Bytes} (hquery : queryPart tail ≠ []) :
    (pathPart tail).length + 1 ≤ tail.length := by
  have hsplit : pathPart tail ++ tail.dropWhile inPath = tail := List.takeWhile_append_dropWhile
  have hne : tail.dropWhile inPath ≠ [] := by
    intro hnil
    exact hquery (by rw [queryPart, hnil])
  have hpos := List.length_pos_iff.mpr hne
  have hlength := congrArg List.length hsplit
  rw [List.length_append] at hlength
  omega

theorem urlQueryStart_le {url : Bytes} (hquery : urlQueryOf url ≠ []) :
    urlQueryStart url ≤ url.length := by
  have htail := length_urlTail url
  have hpath := length_queryPart hquery
  unfold urlQueryStart urlPathStart urlPathOf
  omega

theorem urlTail_suffix (url : Bytes) : urlTail url <:+ url := by
  cases url with
  | nil => exact List.suffix_rfl
  | cons c rest =>
      rw [urlTail]
      split
      next => exact List.suffix_rfl
      next =>
        exact (List.dropWhile_suffix _).trans
          ((List.drop_suffix _ _).trans (List.dropWhile_suffix _))

theorem drop_urlPathStart (url : Bytes) : url.drop (urlPathStart url) = urlTail url :=
  (List.suffix_iff_eq_drop.mp (urlTail_suffix url)).symm

theorem queryPart_prefix (tail : Bytes) :
    queryPart tail <+: tail.drop ((pathPart tail).length + 1) := by
  have hsplit : pathPart tail ++ tail.dropWhile inPath = tail := List.takeWhile_append_dropWhile
  have hdrop : tail.drop (pathPart tail).length = tail.dropWhile inPath := by
    have hleft := @List.drop_left _ (pathPart tail) (tail.dropWhile inPath)
    rwa [hsplit] at hleft
  rw [← List.drop_drop, hdrop, queryPart]
  cases tail.dropWhile inPath with
  | nil => exact List.nil_prefix
  | cons c rest =>
      simp only [List.drop_succ_cons, List.drop_zero]
      split
      next => exact List.takeWhile_prefix _
      next => exact List.nil_prefix

/-- In a URL of less than 64 KiB, the record holds every component that is there. -/
theorem recorded_of_ne_nil {url : Bytes} (hlen : url.length < 2 ^ 16) :
    (urlPathOf url ≠ [] → Recorded url (urlPathStart url) (urlPathOf url)) ∧
      (urlQueryOf url ≠ [] → Recorded url (urlQueryStart url) (urlQueryOf url)) := by
  have hpathPrefix : urlPathOf url <+: url.drop (urlPathStart url) := by
    rw [drop_urlPathStart]
    exact List.takeWhile_prefix _
  have hqueryPrefix : urlQueryOf url <+: url.drop (urlQueryStart url) := by
    rw [urlQueryStart, Nat.add_assoc, ← List.drop_drop, drop_urlPathStart]
    exact queryPart_prefix (urlTail url)
  have hrecorded : ∀ {start : Nat} {part : Bytes}, start ≤ url.length → part ≠ [] →
      part <+: url.drop start → Recorded url start part := by
    intro start part hstart hpart hpre
    have hpartLen := hpre.length_le
    rw [List.length_drop] at hpartLen
    exact ⟨hpart, by omega, by rwa [Nat.mod_eq_of_lt (by omega)]⟩
  exact ⟨fun hpath => hrecorded (urlPathStart_le url) hpath hpathPrefix,
    fun hquery => hrecorded (urlQueryStart_le hquery) hquery hqueryPrefix⟩

theorem hasBothFields_of_ne_nil {url : Bytes} (hlen : url.length < 2 ^ 16)
    (hpath : urlPathOf url ≠ []) (hquery : urlQueryOf url ≠ []) : HasBothFields url :=
  ⟨(recorded_of_ne_nil hlen).1 hpath, (recorded_of_ne_nil hlen).2 hquery⟩

theorem parsedPath {url : Bytes} {u u' : HttpParserUrl}
    (hparse : httpParserParseUrl url u = some u') :
    u'.fieldData .path = if urlPathOf url = [] then u.fieldData .path
      else ⟨urlPathStart url % 2 ^ 16, (urlPathOf url).length % 2 ^ 16⟩ :=
  (httpParserParseUrl_fields hparse).path

theorem parsedQuery {url : Bytes} {u u' : HttpParserUrl}
    (hparse : httpParserParseUrl url u = some u') :
    u'.fieldData .query = if urlQueryOf url = [] then u.fieldData .query
      else ⟨urlQueryStart url % 2 ^ 16, (urlQueryOf url).length % 2 ^ 16⟩ :=
  (httpParserParseUrl_fields hparse).query

/-- With both components recorded, the copies do not depend on the structure. -/
theorem urlParts_of_hasBothFields {url : Bytes} (hboth : HasBothFields url)
    {u u' : HttpParserUrl} (hparse : httpParserParseUrl url u = some u') :
    urlParts url u' = .ok (urlPathOf url, urlQueryOf url) := by
  obtain ⟨hpath, hquery⟩ := hboth
  rw [urlParts_eq_ok, parsedPath hparse, parsedQuery hparse, if_neg hpath.1, if_neg hquery.1]
  exact ⟨(strndupAt_record_iff hpath.1 (urlPathStart_le url)).mpr hpath,
    (strndupAt_record_iff hquery.1 (urlQueryStart_le hquery.1)).mpr hquery⟩

theorem exists_parse {url : Bytes} {u₀ : HttpParserUrl}
    (haccepted : (httpParserParseUrl url u₀).isSome) (u : HttpParserUrl) :
    ∃ u', httpParserParseUrl url u = some u' := by
  rw [httpParserParseUrl_isSome url u₀ u] at haccepted
  exact Option.isSome_iff_exists.mp haccepted

/-- A URL that lacks a component, or has one that the record cannot hold, is taken apart in a way
that depends on the structure. -/
theorem hasBothFields_of_urlParts {url : Bytes} {u₀ : HttpParserUrl}
    (haccepted : (httpParserParseUrl url u₀).isSome)
    (hparts : ∀ u u', u.WellSized → httpParserParseUrl url u = some u' →
      urlParts url u' = .ok (urlPathOf url, urlQueryOf url)) : HasBothFields url := by
  obtain ⟨junk, hoff, hlen, hjunk⟩ := exists_strndupAt_ne_nil url
  obtain ⟨u', hparse⟩ := exists_parse haccepted ⟨fun _ => false, 0, fun _ => junk⟩
  obtain ⟨hpath, hquery⟩ := urlParts_eq_ok.mp (hparts _ u' (fun _ => ⟨hoff, hlen⟩) hparse)
  rw [parsedPath hparse] at hpath
  rw [parsedQuery hparse] at hquery
  have hpathSet : urlPathOf url ≠ [] := by
    intro hnil
    rw [hnil, if_pos rfl] at hpath
    exact hjunk hpath
  have hquerySet : urlQueryOf url ≠ [] := by
    intro hnil
    rw [hnil, if_pos rfl] at hquery
    exact hjunk hquery
  rw [if_neg hpathSet] at hpath
  rw [if_neg hquerySet] at hquery
  exact ⟨(strndupAt_record_iff hpathSet (urlPathStart_le url)).mp hpath,
    (strndupAt_record_iff hquerySet (urlQueryStart_le hquerySet)).mp hquery⟩

/-- The path and the query that are routed come from an accepted URL alone if and only if it has
both. Then the whole answer is the same on any two structures. -/
theorem urlParts_independent_iff (url : Bytes) (u₀ : HttpParserUrl)
    (haccepted : (httpParserParseUrl url u₀).isSome) :
    ((∀ u u', u.WellSized → httpParserParseUrl url u = some u' →
        urlParts url u' = .ok (urlPathOf url, urlQueryOf url)) ↔ HasBothFields url) ∧
      (HasBothFields url → ∀ (env : Env) (junk : Nat → UInt8) (readlen qblen : Nat)
        (u v : HttpParserUrl),
        answerUrl env junk readlen qblen u url = answerUrl env junk readlen qblen v url) := by
  refine ⟨⟨hasBothFields_of_urlParts haccepted, fun hboth u u' _ hparse =>
    urlParts_of_hasBothFields hboth hparse⟩, ?_⟩
  intro hboth env junk readlen qblen u v
  obtain ⟨u', hu⟩ := exists_parse haccepted u
  obtain ⟨v', hv⟩ := exists_parse haccepted v
  simp only [answerUrl, hu, hv, urlParts_of_hasBothFields hboth hu,
    urlParts_of_hasBothFields hboth hv]

/-- The structure with every field at offset `off` and of length `len`. -/
def HttpParserUrl.filled (off len : Nat) : HttpParserUrl := ⟨fun _ => false, 0, fun _ => ⟨off, len⟩⟩

/-- On a zeroed structure every short URL is taken apart as it reads. -/
theorem urlParts_zeroed {url : Bytes} (hlen : url.length < 2 ^ 16) {u' : HttpParserUrl}
    (hparse : httpParserParseUrl url (.filled 0 0) = some u') :
    urlParts url u' = .ok (urlPathOf url, urlQueryOf url) := by
  have hzero : strndupAt url ⟨0, 0⟩ = .ok [] := rfl
  obtain ⟨hpathRecorded, hqueryRecorded⟩ := recorded_of_ne_nil hlen
  rw [urlParts_eq_ok, parsedPath hparse, parsedQuery hparse]
  constructor
  · split
    next hnil => rw [hnil]; exact hzero
    next hne => exact (strndupAt_record_iff hne (urlPathStart_le url)).mpr (hpathRecorded hne)
  · split
    next hnil => rw [hnil]; exact hzero
    next hne => exact (strndupAt_record_iff hne (urlQueryStart_le hne)).mpr (hqueryRecorded hne)

theorem urlParts_independent_iff_sample :
    HasBothFields (ascii "http://blog/post?page=1") ∧
      urlPathOf (ascii "http://blog/post?page=1") = ascii "/post" ∧
      urlQueryOf (ascii "http://blog/post?page=1") = ascii "page=1" ∧
      ((∀ u u', u.WellSized → httpParserParseUrl (ascii "http://blog/post?page=1") u = some u' →
        urlParts (ascii "http://blog/post?page=1") u' =
          .ok (urlPathOf (ascii "http://blog/post?page=1"),
            urlQueryOf (ascii "http://blog/post?page=1"))) ↔
        HasBothFields (ascii "http://blog/post?page=1")) :=
  ⟨by decide, by decide, by decide,
    (urlParts_independent_iff _ (.filled 0 0) (by decide)).1⟩

/-- The root of the site has no query: on one structure the query is empty, on another it is the
path. -/
theorem urlParts_root_depends :
    (httpParserParseUrl (ascii "/") (.filled 0 0)).map (urlParts (ascii "/")) =
        some (.ok (ascii "/", [])) ∧
      (httpParserParseUrl (ascii "/") (.filled 0 1)).map (urlParts (ascii "/")) =
        some (.ok (ascii "/", ascii "/")) := by
  decide

end Blogd
