import Blogd.Http.Process

/-! # The path and the query of a URL

The plain reading of a URL: behind the scheme and the authority comes the path, up to a question
mark or a hash, and behind the question mark the query, up to a hash. The parser records exactly
these components when they are not empty, and leaves the fields of the others alone.
-/

namespace Blogd

/-! ## The plain reading -/

/-- The URL from its path on. -/
def urlTail : Bytes → Bytes
  | [] => []
  | c :: rest =>
      if c = 47 ∨ c = 42 then c :: rest
      else (((c :: rest).dropWhile (· ≠ 58)).drop 3).dropWhile fun c => c ≠ 47 ∧ c ≠ 63

def inPath (c : UInt8) : Bool := c ≠ 63 && c ≠ 35

/-- The path at the start of a tail. -/
def pathPart (tail : Bytes) : Bytes := tail.takeWhile inPath

/-- The query in a tail. -/
def queryPart (tail : Bytes) : Bytes :=
  match tail.dropWhile inPath with
  | [] => []
  | c :: rest => if c = 63 then rest.takeWhile (· ≠ 35) else []

/-! ## Characters -/

theorem parseUrlChar_path {s : UrlState} (hs : s = .path) {c : UInt8}
    (hlive : parseUrlChar s c ≠ .dead) :
    (inPath c = true ∧ parseUrlChar s c = .path) ∨
      (c = 63 ∧ parseUrlChar s c = .queryStringStart) ∨
      (c = 35 ∧ parseUrlChar s c = .fragmentStart) := by
  subst hs
  by_cases hquestion : c = 63
  · subst hquestion
    exact .inr (.inl ⟨rfl, by decide⟩)
  · by_cases hhash : c = 35
    · subst hhash
      exact .inr (.inr ⟨rfl, by decide⟩)
    · refine .inl ⟨by simp [inPath, hquestion, hhash], ?_⟩
      unfold parseUrlChar at hlive ⊢
      split at hlive
      next => exact absurd rfl hlive
      next hblank =>
        simp only [hquestion, hhash, if_false] at hlive ⊢
        rw [if_neg hblank]
        split at hlive
        next hchar => rw [if_pos hchar]
        next => exact absurd rfl hlive

theorem parseUrlChar_query {s : UrlState} (hs : s = .queryStringStart ∨ s = .queryString)
    {c : UInt8} (hlive : parseUrlChar s c ≠ .dead) :
    (c ≠ 35 ∧ parseUrlChar s c = .queryString) ∨ (c = 35 ∧ parseUrlChar s c = .fragmentStart) := by
  by_cases hhash : c = 35
  · subst hhash
    right
    refine ⟨rfl, ?_⟩
    rcases hs with rfl | rfl <;> decide
  · refine .inl ⟨hhash, ?_⟩
    have hsame : parseUrlChar s c = parseUrlChar .queryString c := by
      rcases hs with rfl | rfl <;> rfl
    rw [hsame] at hlive ⊢
    unfold parseUrlChar at hlive ⊢
    split at hlive
    next => exact absurd rfl hlive
    next hblank =>
      simp only [hhash, if_false] at hlive ⊢
      rw [if_neg hblank]
      split at hlive
      next hchar => rw [if_pos hchar]
      next hchar =>
        rw [if_neg hchar]
        split at hlive
        next hquestion => rw [if_pos hquestion]
        next => exact absurd rfl hlive

theorem parseUrlChar_fragment {s : UrlState} (hs : s = .fragmentStart ∨ s = .fragment)
    {c : UInt8} (hlive : parseUrlChar s c ≠ .dead) :
    parseUrlChar s c = .fragmentStart ∨ parseUrlChar s c = .fragment := by
  rcases hs with rfl | rfl <;> unfold parseUrlChar at hlive ⊢ <;> grind

theorem parseUrlChar_server {s : UrlState}
    (hs : s = .serverStart ∨ s = .server ∨ s = .serverWithAt) {c : UInt8}
    (hlive : parseUrlChar s c ≠ .dead) :
    (c = 47 ∧ parseUrlChar s c = .path) ∨ (c = 63 ∧ parseUrlChar s c = .queryStringStart) ∨
      (c ≠ 47 ∧ c ≠ 63 ∧ (parseUrlChar s c = .server ∨ parseUrlChar s c = .serverWithAt)) := by
  rcases hs with rfl | rfl | rfl <;> unfold parseUrlChar parseServerChar at hlive ⊢ <;> grind

/-! ## The scan -/

/-- The scan after one more character. -/
def UrlScan.advance (scan : UrlScan) (i : Nat) (c : UInt8) : UrlScan :=
  match (parseUrlChar scan.s c).field with
  | none => { scan with s := parseUrlChar scan.s c }
  | some uf =>
      ⟨parseUrlChar scan.s c, some uf, scan.foundAt || parseUrlChar scan.s c = .serverWithAt,
        if scan.oldUf = some uf then scan.u.incrLen uf
        else (scan.u.setData uf ⟨i % 2 ^ 16, 1⟩).mark uf⟩

theorem scanUrl_cons {i : Nat} {scan final : UrlScan} {c : UInt8} {rest : Bytes}
    (hscan : scanUrl i scan (c :: rest) = some final) :
    parseUrlChar scan.s c ≠ .dead ∧ scanUrl (i + 1) (scan.advance i c) rest = some final := by
  simp only [scanUrl] at hscan
  split at hscan
  next => cases hscan
  next hlive =>
    simp only [Bool.or_eq_true, decide_eq_true_eq, not_or] at hlive
    refine ⟨hlive.1, ?_⟩
    cases hfield : (parseUrlChar scan.s c).field with
    | none =>
        simp only [hfield] at hscan
        simpa only [UrlScan.advance, hfield] using hscan
    | some uf =>
        simp only [hfield] at hscan
        simp only [UrlScan.advance, hfield]
        split at hscan
        next hold => simpa [hold] using hscan
        next hold => simpa [hold] using hscan

@[simp] theorem UrlScan.advance_s (scan : UrlScan) (i : Nat) (c : UInt8) :
    (scan.advance i c).s = parseUrlChar scan.s c := by
  unfold UrlScan.advance
  split <;> rfl

/-- The components the character does not belong to keep their fields. -/
theorem UrlScan.advance_other {scan : UrlScan} {i : Nat} {c : UInt8} {f : UrlField}
    (hfield : (parseUrlChar scan.s c).field ≠ some f) :
    (scan.advance i c).u.fieldData f = scan.u.fieldData f := by
  unfold UrlScan.advance
  split
  next => rfl
  next uf huf =>
    have hne : f ≠ uf := fun heq => hfield (heq ▸ huf)
    split
    next => simp [HttpParserUrl.incrLen, HttpParserUrl.setData, hne]
    next => simp [HttpParserUrl.mark, HttpParserUrl.setData, hne]

theorem UrlScan.advance_oldUf {scan : UrlScan} {i : Nat} {c : UInt8} {f : UrlField}
    (hfield : (parseUrlChar scan.s c).field = some f) :
    (scan.advance i c).oldUf = some f := by
  simp [UrlScan.advance, hfield]

theorem UrlScan.advance_delimiter {scan : UrlScan} {i : Nat} {c : UInt8}
    (hfield : (parseUrlChar scan.s c).field = none) :
    (scan.advance i c).oldUf = scan.oldUf ∧ (scan.advance i c).u = scan.u := by
  simp [UrlScan.advance, hfield]

/-- A component that goes on grows by one. -/
theorem UrlScan.advance_grow {scan : UrlScan} {i : Nat} {c : UInt8} {f : UrlField}
    (hfield : (parseUrlChar scan.s c).field = some f) (hold : scan.oldUf = some f) :
    (scan.advance i c).u.fieldData f =
      ⟨(scan.u.fieldData f).off, ((scan.u.fieldData f).len + 1) % 2 ^ 16⟩ := by
  simp [UrlScan.advance, hfield, hold, HttpParserUrl.incrLen, HttpParserUrl.setData]

/-- A component starts where it is met. -/
theorem UrlScan.advance_start {scan : UrlScan} {i : Nat} {c : UInt8} {f : UrlField}
    (hfield : (parseUrlChar scan.s c).field = some f) (hold : scan.oldUf ≠ some f) :
    (scan.advance i c).u.fieldData f = ⟨i % 2 ^ 16, 1⟩ := by
  simp [UrlScan.advance, hfield, hold, HttpParserUrl.mark, HttpParserUrl.setData]

/-! ## Fragment, query, path -/

theorem scanUrl_fragment {i : Nat} {scan final : UrlScan} {rest : Bytes}
    (hs : scan.s = .fragmentStart ∨ scan.s = .fragment)
    (hscan : scanUrl i scan rest = some final) {f : UrlField} (hf : f ≠ .fragment) :
    final.u.fieldData f = scan.u.fieldData f := by
  induction rest generalizing i scan with
  | nil =>
      cases hscan
      rfl
  | cons c rest ih =>
      obtain ⟨hlive, hnext⟩ := scanUrl_cons hscan
      have hstate := parseUrlChar_fragment hs hlive
      rw [ih (by rwa [UrlScan.advance_s]) hnext, UrlScan.advance_other]
      rcases hstate with h | h <;> rw [h] <;> simp [UrlState.field, Ne.symm hf]

/-- Nothing is recorded of the other components once the hash mark is read. -/
theorem scanUrl_hash {i : Nat} {scan final : UrlScan} {rest : Bytes}
    (hstate : parseUrlChar scan.s 35 = .fragmentStart)
    (hnext : scanUrl (i + 1) (scan.advance i 35) rest = some final) {f : UrlField}
    (hf : f ≠ .fragment) : final.u.fieldData f = scan.u.fieldData f := by
  have hdelimiter := @UrlScan.advance_delimiter scan i 35 (by rw [hstate]; rfl)
  rw [scanUrl_fragment (.inl (by rw [UrlScan.advance_s, hstate])) hnext hf, hdelimiter.2]

/-- Inside the query, the rest of it is added to its length. -/
theorem scanUrl_query {i off n : Nat} {scan final : UrlScan} {rest : Bytes}
    (hs : scan.s = .queryString) (hold : scan.oldUf = some .query)
    (hdata : scan.u.fieldData .query = ⟨off, n % 2 ^ 16⟩)
    (hscan : scanUrl i scan rest = some final) :
    final.u.fieldData .path = scan.u.fieldData .path ∧
      final.u.fieldData .query =
        ⟨off, (n + (rest.takeWhile (· ≠ 35)).length) % 2 ^ 16⟩ := by
  induction rest generalizing i n scan with
  | nil =>
      cases hscan
      exact ⟨rfl, by simpa using hdata⟩
  | cons c rest ih =>
      obtain ⟨hlive, hnext⟩ := scanUrl_cons hscan
      -- the query goes on, or a fragment begins
      rcases parseUrlChar_query (.inr hs) hlive with ⟨hc, hstate⟩ | ⟨rfl, hstate⟩
      · have hfield : (parseUrlChar scan.s c).field = some .query := by rw [hstate]; rfl
        have hgrow : (scan.advance i c).u.fieldData .query = ⟨off, (n + 1) % 2 ^ 16⟩ := by
          rw [UrlScan.advance_grow hfield hold, hdata]
          simp
        obtain ⟨hpath, hquery⟩ := ih (by rw [UrlScan.advance_s, hstate])
          (UrlScan.advance_oldUf hfield) hgrow hnext
        refine ⟨?_, ?_⟩
        · rw [hpath, UrlScan.advance_other (by rw [hfield]; decide)]
        · rw [hquery, List.takeWhile_cons_of_pos (by simpa using hc), List.length_cons]
          congr 2
          omega
      · refine ⟨scanUrl_hash hstate hnext (by decide), ?_⟩
        rw [scanUrl_hash hstate hnext (by decide), hdata]
        simp

/-- Behind the question mark, the query is recorded when it is not empty. -/
theorem scanUrl_queryStart {i : Nat} {scan final : UrlScan} {rest : Bytes}
    (hs : scan.s = .queryStringStart) (hold : scan.oldUf ≠ some .query)
    (hscan : scanUrl i scan rest = some final) :
    final.u.fieldData .path = scan.u.fieldData .path ∧
      final.u.fieldData .query =
        if rest.takeWhile (· ≠ 35) = [] then scan.u.fieldData .query
        else ⟨i % 2 ^ 16, (rest.takeWhile (· ≠ 35)).length % 2 ^ 16⟩ := by
  cases rest with
  | nil =>
      cases hscan
      exact ⟨rfl, rfl⟩
  | cons c rest =>
      obtain ⟨hlive, hnext⟩ := scanUrl_cons hscan
      rcases parseUrlChar_query (.inl hs) hlive with ⟨hc, hstate⟩ | ⟨rfl, hstate⟩
      · have hfield : (parseUrlChar scan.s c).field = some .query := by rw [hstate]; rfl
        have hstart : (scan.advance i c).u.fieldData .query = ⟨i % 2 ^ 16, 1 % 2 ^ 16⟩ :=
          UrlScan.advance_start hfield hold
        obtain ⟨hpath, hquery⟩ := scanUrl_query (by rw [UrlScan.advance_s, hstate])
          (UrlScan.advance_oldUf hfield) hstart hnext
        refine ⟨?_, ?_⟩
        · rw [hpath, UrlScan.advance_other (by rw [hfield]; decide)]
        · rw [hquery, List.takeWhile_cons_of_pos (by simpa using hc), if_neg (by simp),
            List.length_cons, Nat.add_comm 1]
      · refine ⟨scanUrl_hash hstate hnext (by decide), ?_⟩
        rw [scanUrl_hash hstate hnext (by decide)]
        simp

/-! ## From the path on -/

/-- What the parser records of a tail that starts at index `i`: the path and the query, each when
it is not empty. -/
structure TailFields (u u' : HttpParserUrl) (i : Nat) (tail : Bytes) : Prop where
  path : u'.fieldData .path =
    if pathPart tail = [] then u.fieldData .path
    else ⟨i % 2 ^ 16, (pathPart tail).length % 2 ^ 16⟩
  query : u'.fieldData .query =
    if queryPart tail = [] then u.fieldData .query
    else ⟨(i + (pathPart tail).length + 1) % 2 ^ 16, (queryPart tail).length % 2 ^ 16⟩

/-- A character in front of the tail that belongs to another component moves the tail. -/
theorem TailFields.of_advance {i : Nat} {scan : UrlScan} {c : UInt8} {rest tail : Bytes}
    {u : HttpParserUrl} (hpath : (parseUrlChar scan.s c).field ≠ some .path)
    (hquery : (parseUrlChar scan.s c).field ≠ some .query) (htail : tail.length ≤ rest.length)
    (hfields : TailFields (scan.advance i c).u u (i + 1 + (rest.length - tail.length)) tail) :
    TailFields scan.u u (i + ((c :: rest).length - tail.length)) tail := by
  have hindex : i + ((c :: rest).length - tail.length) =
      i + 1 + (rest.length - tail.length) := by
    rw [List.length_cons]
    omega
  rw [hindex]
  constructor
  · rw [hfields.path, UrlScan.advance_other hpath]
  · rw [hfields.query, UrlScan.advance_other hquery]

theorem pathPart_cons {c : UInt8} (hc : inPath c = true) (rest : Bytes) :
    pathPart (c :: rest) = c :: pathPart rest := List.takeWhile_cons_of_pos hc

theorem queryPart_cons {c : UInt8} (hc : inPath c = true) (rest : Bytes) :
    queryPart (c :: rest) = queryPart rest := by
  rw [queryPart, List.dropWhile_cons_of_pos hc, queryPart]

theorem pathPart_question (rest : Bytes) : pathPart (63 :: rest) = [] :=
  List.takeWhile_cons_of_neg (by decide)

theorem queryPart_question (rest : Bytes) :
    queryPart (63 :: rest) = rest.takeWhile (· ≠ 35) := by
  rw [queryPart, List.dropWhile_cons_of_neg (by decide)]
  rfl

theorem pathPart_hash (rest : Bytes) : pathPart (35 :: rest) = [] :=
  List.takeWhile_cons_of_neg (by decide)

theorem queryPart_hash (rest : Bytes) : queryPart (35 :: rest) = [] := by
  rw [queryPart, List.dropWhile_cons_of_neg (by decide)]
  rfl

/-- Inside the path, the rest of it is added to its length, and the query follows. -/
theorem scanUrl_path {i off n : Nat} {scan final : UrlScan} {rest : Bytes}
    (hs : scan.s = .path) (hold : scan.oldUf = some .path)
    (hdata : scan.u.fieldData .path = ⟨off, n % 2 ^ 16⟩)
    (hscan : scanUrl i scan rest = some final) :
    final.u.fieldData .path = ⟨off, (n + (pathPart rest).length) % 2 ^ 16⟩ ∧
      final.u.fieldData .query =
        if queryPart rest = [] then scan.u.fieldData .query
        else ⟨(i + (pathPart rest).length + 1) % 2 ^ 16, (queryPart rest).length % 2 ^ 16⟩ := by
  induction rest generalizing i n scan with
  | nil =>
      cases hscan
      exact ⟨by simpa [pathPart] using hdata, rfl⟩
  | cons c rest ih =>
      obtain ⟨hlive, hnext⟩ := scanUrl_cons hscan
      -- the path goes on, or a query begins, or a fragment does
      rcases parseUrlChar_path hs hlive with ⟨hc, hstate⟩ | ⟨rfl, hstate⟩ | ⟨rfl, hstate⟩
      · have hfield : (parseUrlChar scan.s c).field = some .path := by rw [hstate]; rfl
        have hgrow : (scan.advance i c).u.fieldData .path = ⟨off, (n + 1) % 2 ^ 16⟩ := by
          rw [UrlScan.advance_grow hfield hold, hdata]
          simp
        obtain ⟨hpath, hquery⟩ := ih (by rw [UrlScan.advance_s, hstate])
          (UrlScan.advance_oldUf hfield) hgrow hnext
        rw [pathPart_cons hc, queryPart_cons hc, List.length_cons]
        refine ⟨?_, ?_⟩
        · rw [hpath]
          congr 2
          omega
        · rw [hquery, UrlScan.advance_other (by rw [hfield]; decide)]
          congr 3
          omega
      · obtain ⟨holdUf, hu⟩ := @UrlScan.advance_delimiter scan i 63 (by rw [hstate]; rfl)
        obtain ⟨hpath, hquery⟩ := scanUrl_queryStart (by rw [UrlScan.advance_s, hstate])
          (by rw [holdUf, hold]; decide) hnext
        rw [pathPart_question, queryPart_question]
        exact ⟨by rw [hpath, hu, hdata]; rfl, by rw [hquery, hu]; rfl⟩
      · rw [pathPart_hash, queryPart_hash]
        refine ⟨?_, scanUrl_hash hstate hnext (by decide)⟩
        rw [scanUrl_hash hstate hnext (by decide), hdata]
        rfl

/-- The path starts with this character. -/
theorem scanUrl_pathStart {i : Nat} {scan final : UrlScan} {c : UInt8} {rest : Bytes}
    (hstate : parseUrlChar scan.s c = .path) (hc : inPath c = true)
    (hold : scan.oldUf ≠ some .path) (hscan : scanUrl i scan (c :: rest) = some final) :
    TailFields scan.u final.u i (c :: rest) := by
  obtain ⟨-, hnext⟩ := scanUrl_cons hscan
  have hfield : (parseUrlChar scan.s c).field = some .path := by rw [hstate]; rfl
  have hstart : (scan.advance i c).u.fieldData .path = ⟨i % 2 ^ 16, 1 % 2 ^ 16⟩ :=
    UrlScan.advance_start hfield hold
  obtain ⟨hpath, hquery⟩ := scanUrl_path (by rw [UrlScan.advance_s, hstate])
    (UrlScan.advance_oldUf hfield) hstart hnext
  constructor
  · rw [pathPart_cons hc, if_neg (List.cons_ne_nil _ _), hpath, List.length_cons, Nat.add_comm 1]
  · rw [pathPart_cons hc, queryPart_cons hc, hquery,
      UrlScan.advance_other (by rw [hfield]; decide), List.length_cons]
    congr 3
    omega

/-- There is no path, and the query starts behind this question mark. -/
theorem scanUrl_questionStart {i : Nat} {scan final : UrlScan} {rest : Bytes}
    (hstate : parseUrlChar scan.s 63 = .queryStringStart) (hold : scan.oldUf ≠ some .query)
    (hscan : scanUrl i scan (63 :: rest) = some final) :
    TailFields scan.u final.u i (63 :: rest) := by
  obtain ⟨-, hnext⟩ := scanUrl_cons hscan
  obtain ⟨holdUf, hu⟩ := @UrlScan.advance_delimiter scan i 63 (by rw [hstate]; rfl)
  obtain ⟨hpath, hquery⟩ := scanUrl_queryStart (by rw [UrlScan.advance_s, hstate])
    (by rwa [holdUf]) hnext
  constructor
  · rw [pathPart_question, if_pos rfl, hpath, hu]
  · rw [pathPart_question, queryPart_question, hquery, hu]
    rfl

/-! ## Authority and scheme -/

/-- The tail behind an authority. -/
def afterAuthority (rest : Bytes) : Bytes := rest.dropWhile fun c => c ≠ 47 ∧ c ≠ 63

theorem length_afterAuthority (rest : Bytes) : (afterAuthority rest).length ≤ rest.length :=
  (List.dropWhile_suffix _).length_le

theorem scanUrl_server {i : Nat} {scan final : UrlScan} {rest : Bytes}
    (hs : scan.s = .serverStart ∨ scan.s = .server ∨ scan.s = .serverWithAt)
    (hpath : scan.oldUf ≠ some .path) (hquery : scan.oldUf ≠ some .query)
    (hscan : scanUrl i scan rest = some final) :
    TailFields scan.u final.u (i + (rest.length - (afterAuthority rest).length))
      (afterAuthority rest) := by
  induction rest generalizing i scan with
  | nil =>
      cases hscan
      exact ⟨rfl, rfl⟩
  | cons c rest ih =>
      obtain ⟨hlive, hnext⟩ := scanUrl_cons hscan
      -- a slash ends the authority, and so does a question mark
      rcases parseUrlChar_server hs hlive with
        ⟨rfl, hstate⟩ | ⟨rfl, hstate⟩ | ⟨hslash, hmark, hstate⟩
      · have htail : afterAuthority (47 :: rest) = 47 :: rest :=
          List.dropWhile_cons_of_neg (by decide)
        rw [htail, Nat.sub_self, Nat.add_zero]
        exact scanUrl_pathStart hstate (by decide) hpath hscan
      · have htail : afterAuthority (63 :: rest) = 63 :: rest :=
          List.dropWhile_cons_of_neg (by decide)
        rw [htail, Nat.sub_self, Nat.add_zero]
        exact scanUrl_questionStart hstate hquery hscan
      · have htail : afterAuthority (c :: rest) = afterAuthority rest :=
          List.dropWhile_cons_of_pos (by simp [hslash, hmark])
        have hfield : (parseUrlChar scan.s c).field = some .host := by
          rcases hstate with h | h <;> rw [h] <;> rfl
        have hfields := ih (by rw [UrlScan.advance_s]; exact .inr hstate)
          (by rw [UrlScan.advance_oldUf hfield]; decide)
          (by rw [UrlScan.advance_oldUf hfield]; decide) hnext
        rw [htail]
        exact hfields.of_advance (by rw [hfield]; decide) (by rw [hfield]; decide)
          (length_afterAuthority rest)

theorem parseUrlChar_schema {s : UrlState} (hs : s = .schema) {c : UInt8}
    (hlive : parseUrlChar s c ≠ .dead) :
    (c = 58 ∧ parseUrlChar s c = .schemaSlash) ∨ (c ≠ 58 ∧ parseUrlChar s c = .schema) := by
  subst hs
  by_cases hcolon : c = 58
  · subst hcolon
    exact .inl ⟨rfl, by decide⟩
  · unfold parseUrlChar at hlive ⊢
    grind

theorem parseUrlChar_schemaSlash {s : UrlState} (hs : s = .schemaSlash) {c : UInt8}
    (hlive : parseUrlChar s c ≠ .dead) : parseUrlChar s c = .schemaSlashSlash := by
  subst hs
  unfold parseUrlChar at hlive ⊢
  grind

theorem parseUrlChar_schemaSlashSlash {s : UrlState} (hs : s = .schemaSlashSlash) {c : UInt8}
    (hlive : parseUrlChar s c ≠ .dead) : parseUrlChar s c = .serverStart := by
  subst hs
  unfold parseUrlChar at hlive ⊢
  grind

theorem parseUrlChar_start {c : UInt8} (hlive : parseUrlChar .spacesBeforeUrl c ≠ .dead) :
    ((c = 47 ∨ c = 42) ∧ parseUrlChar .spacesBeforeUrl c = .path) ∨
      (c ≠ 47 ∧ c ≠ 42 ∧ c ≠ 58 ∧ parseUrlChar .spacesBeforeUrl c = .schema) := by
  by_cases hcolon : c = 58
  · subst hcolon
    exact absurd (by decide) hlive
  · unfold parseUrlChar at hlive ⊢
    grind

/-- The tail behind the colon of a scheme. -/
theorem scanUrl_colon {i : Nat} {scan final : UrlScan} {rest : Bytes} (hs : scan.s = .schemaSlash)
    (hpath : scan.oldUf ≠ some .path) (hquery : scan.oldUf ≠ some .query)
    (hscan : scanUrl i scan rest = some final) :
    TailFields scan.u final.u (i + (rest.length - (afterAuthority (rest.drop 2)).length))
      (afterAuthority (rest.drop 2)) := by
  rcases rest with _ | ⟨c, rest⟩
  · cases hscan
    exact ⟨rfl, rfl⟩
  · obtain ⟨hlive, hnext⟩ := scanUrl_cons hscan
    have hstate := parseUrlChar_schemaSlash hs hlive
    obtain ⟨holdUf, hu⟩ := @UrlScan.advance_delimiter scan i c (by rw [hstate]; rfl)
    rcases rest with _ | ⟨d, rest⟩
    · cases hnext
      rw [hu]
      exact ⟨rfl, rfl⟩
    · obtain ⟨hlive', hnext'⟩ := scanUrl_cons hnext
      have hstate' := parseUrlChar_schemaSlashSlash (by rw [UrlScan.advance_s, hstate]) hlive'
      obtain ⟨holdUf', hu'⟩ :=
        @UrlScan.advance_delimiter (scan.advance i c) (i + 1) d (by rw [hstate']; rfl)
      have hfields := scanUrl_server (.inl (by rw [UrlScan.advance_s, hstate']))
        (by rwa [holdUf', holdUf]) (by rwa [holdUf', holdUf]) hnext'
      have hlength := length_afterAuthority rest
      rw [hu', hu] at hfields
      have hindex : i + ((c :: d :: rest).length - (afterAuthority rest).length) =
          i + 1 + 1 + (rest.length - (afterAuthority rest).length) := by
        simp only [List.length_cons]
        omega
      change TailFields scan.u final.u
        (i + ((c :: d :: rest).length - (afterAuthority rest).length)) (afterAuthority rest)
      rw [hindex]
      exact hfields

/-- The tail behind a scheme and an authority. -/
def afterScheme (rest : Bytes) : Bytes := afterAuthority ((rest.dropWhile (· ≠ 58)).drop 3)

theorem length_afterScheme (rest : Bytes) : (afterScheme rest).length ≤ rest.length := by
  have hfirst := (List.dropWhile_suffix (l := rest) (· ≠ (58 : UInt8))).length_le
  have hsecond := length_afterAuthority ((rest.dropWhile (· ≠ 58)).drop 3)
  rw [List.length_drop] at hsecond
  unfold afterScheme
  omega

theorem scanUrl_schema {i : Nat} {scan final : UrlScan} {rest : Bytes} (hs : scan.s = .schema)
    (hold : scan.oldUf = some .schema) (hscan : scanUrl i scan rest = some final) :
    TailFields scan.u final.u (i + (rest.length - (afterScheme rest).length))
      (afterScheme rest) := by
  induction rest generalizing i scan with
  | nil =>
      cases hscan
      exact ⟨rfl, rfl⟩
  | cons c rest ih =>
      obtain ⟨hlive, hnext⟩ := scanUrl_cons hscan
      rcases parseUrlChar_schema hs hlive with ⟨rfl, hstate⟩ | ⟨hcolon, hstate⟩
      · obtain ⟨holdUf, hu⟩ := @UrlScan.advance_delimiter scan i 58 (by rw [hstate]; rfl)
        have hfields := scanUrl_colon (by rw [UrlScan.advance_s, hstate])
          (by rw [holdUf, hold]; decide) (by rw [holdUf, hold]; decide) hnext
        have htail : afterScheme (58 :: rest) = afterAuthority (rest.drop 2) := by
          rw [afterScheme, List.dropWhile_cons_of_neg (by decide)]
          rfl
        have hlength := length_afterAuthority (rest.drop 2)
        rw [List.length_drop] at hlength
        have hindex : i + ((58 :: rest).length - (afterAuthority (rest.drop 2)).length) =
            i + 1 + (rest.length - (afterAuthority (rest.drop 2)).length) := by
          rw [List.length_cons]
          omega
        rw [htail, hindex, ← hu]
        exact hfields
      · have hfield : (parseUrlChar scan.s c).field = some .schema := by rw [hstate]; rfl
        have hfields := ih (by rw [UrlScan.advance_s, hstate]) (UrlScan.advance_oldUf hfield) hnext
        have htail : afterScheme (c :: rest) = afterScheme rest := by
          rw [afterScheme, List.dropWhile_cons_of_pos (by simpa using hcolon), afterScheme]
        rw [htail]
        exact hfields.of_advance (by rw [hfield]; decide) (by rw [hfield]; decide)
          (length_afterScheme rest)

/-! ## The whole URL -/

theorem length_urlTail (url : Bytes) : (urlTail url).length ≤ url.length := by
  cases url with
  | nil => exact Nat.le_refl _
  | cons c rest =>
      rw [urlTail]
      split
      next => exact Nat.le_refl _
      next => exact length_afterScheme (c :: rest)

theorem scanUrl_fields {u : HttpParserUrl} {url : Bytes} {final : UrlScan}
    (hscan : scanUrl 0 ⟨.spacesBeforeUrl, none, false, u⟩ url = some final) :
    TailFields u final.u (url.length - (urlTail url).length) (urlTail url) := by
  cases url with
  | nil =>
      cases hscan
      exact ⟨rfl, rfl⟩
  | cons c rest =>
      obtain ⟨hlive, hnext⟩ := scanUrl_cons hscan
      rcases parseUrlChar_start hlive with ⟨hc, hstate⟩ | ⟨hslash, hstar, hcolon, hstate⟩
      · rw [urlTail, if_pos hc, Nat.sub_self]
        refine scanUrl_pathStart hstate ?_ (by simp) hscan
        rcases hc with rfl | rfl <;> decide
      · have hfield : (parseUrlChar .spacesBeforeUrl c).field = some .schema := by
          rw [hstate]
          rfl
        have hfields := scanUrl_schema (by rw [UrlScan.advance_s]; exact hstate)
          (UrlScan.advance_oldUf hfield) hnext
        have htail : urlTail (c :: rest) = afterScheme rest := by
          rw [urlTail, if_neg (by simp [hslash, hstar]),
            List.dropWhile_cons_of_pos (by simpa using hcolon)]
          rfl
        rw [htail, ← Nat.zero_add ((c :: rest).length - (afterScheme rest).length)]
        exact hfields.of_advance (by rw [hfield]; decide) (by rw [hfield]; decide)
          (length_afterScheme rest)

/-! ## The host does not touch the path and the query -/

theorem HttpParserUrl.incrLen_other {u : HttpParserUrl} {uf f : UrlField} (hf : f ≠ uf) :
    (u.incrLen uf).fieldData f = u.fieldData f := by
  simp [HttpParserUrl.incrLen, HttpParserUrl.setData, hf]

theorem HttpParserUrl.grow_other {u : HttpParserUrl} {uf f : UrlField} (hf : f ≠ uf) (i : Nat)
    (underWay : Bool) : (u.grow uf i underWay).fieldData f = u.fieldData f := by
  unfold HttpParserUrl.grow
  split
  next => exact incrLen_other hf
  next => rw [incrLen_other hf]; simp [HttpParserUrl.mark, HttpParserUrl.setData, hf]

theorem HttpParserUrl.growHost_other {u : HttpParserUrl} {f : UrlField} (hf : f ≠ .host) (i : Nat)
    (underWay : Bool) : (u.growHost i underWay).fieldData f = u.fieldData f := by
  unfold HttpParserUrl.growHost
  split
  next => exact incrLen_other hf
  next => rw [incrLen_other hf]; simp [HttpParserUrl.setData, hf]

theorem scanHost_other {f : UrlField} (hhost : f ≠ .host) (hport : f ≠ .port)
    (huserinfo : f ≠ .userinfo) {i : Nat} {s s' : HostState} {u u' : HttpParserUrl} {rest : Bytes}
    (hscan : scanHost i s u rest = some (s', u')) : u'.fieldData f = u.fieldData f := by
  induction rest generalizing i s u with
  | nil =>
      cases hscan
      rfl
  | cons c rest ih =>
      simp only [scanHost] at hscan
      split at hscan
      next => cases hscan
      next => rw [ih hscan, HttpParserUrl.growHost_other hhost]
      next => rw [ih hscan, HttpParserUrl.growHost_other hhost]
      next => rw [ih hscan, HttpParserUrl.incrLen_other hhost]
      next => rw [ih hscan, HttpParserUrl.incrLen_other hhost]
      next => rw [ih hscan, HttpParserUrl.grow_other hport]
      next => rw [ih hscan, HttpParserUrl.grow_other huserinfo]
      next => exact ih hscan

theorem httpParseHost_other {f : UrlField} (hhost : f ≠ .host) (hport : f ≠ .port)
    (huserinfo : f ≠ .userinfo) {buf : Bytes} {u u' : HttpParserUrl} {foundAt : Bool}
    (hparse : httpParseHost buf u foundAt = some u') : u'.fieldData f = u.fieldData f := by
  simp only [httpParseHost] at hparse
  split at hparse
  next => cases hparse
  next s v hscan =>
    split at hparse
    next => cases hparse
    next =>
      cases hparse
      rw [scanHost_other hhost hport huserinfo hscan]
      simp [HttpParserUrl.setData, hhost]

theorem httpParserParseUrl_scan {url : Bytes} {u u' : HttpParserUrl}
    (hparse : httpParserParseUrl url u = some u') :
    ∃ final, scanUrl 0
        ⟨.spacesBeforeUrl, none, false, { u with port := 0, fieldSet := fun _ => false }⟩ url =
          some final ∧
      ∀ f, f ≠ .host → f ≠ .port → f ≠ .userinfo → u'.fieldData f = final.u.fieldData f := by
  unfold httpParserParseUrl at hparse
  cases hscan : scanUrl 0
      ⟨.spacesBeforeUrl, none, false, { u with port := 0, fieldSet := fun _ => false }⟩ url with
  | none => simp [hscan] at hparse
  | some final =>
      refine ⟨final, rfl, fun f hhost hport huserinfo => ?_⟩
      -- the check of the port comes last and leaves the fields alone
      have hfinish : ∀ v : HttpParserUrl,
          (if v.fieldSet .port = true then
            if strtoul (url.drop (v.fieldData .port).off) > 65535 then none
            else some { v with port := strtoul (url.drop (v.fieldData .port).off) }
          else some v) = some u' → u'.fieldData f = v.fieldData f := by
        intro v hv
        split at hv
        next =>
          split at hv
          next => cases hv
          next =>
            cases hv
            rfl
        next =>
          cases hv
          rfl
      simp only [hscan, Option.bind_eq_bind, Option.bind_some] at hparse
      split at hparse
      next => cases hparse
      next =>
        split at hparse
        next =>
          cases hinner : httpParseHost url final.u final.foundAt with
          | none => simp [hinner] at hparse
          | some v =>
              rw [hinner, Option.bind_some] at hparse
              rw [hfinish v hparse, httpParseHost_other hhost hport huserinfo hinner]
        next => exact hfinish final.u hparse

/-- What the parser records of an accepted URL, on whatever the structure held before. -/
theorem httpParserParseUrl_fields {url : Bytes} {u u' : HttpParserUrl}
    (hparse : httpParserParseUrl url u = some u') :
    TailFields u u' (url.length - (urlTail url).length) (urlTail url) := by
  obtain ⟨final, hscan, hsame⟩ := httpParserParseUrl_scan hparse
  have hfields := scanUrl_fields hscan
  constructor
  · rw [hsame .path (by decide) (by decide) (by decide)]
    exact hfields.path
  · rw [hsame .query (by decide) (by decide) (by decide)]
    exact hfields.query

end Blogd
