import Blogd.Http.RequestHeader

/-! # Requests that the header parser survives

Each loop of the parser drops a run from the text in front of it. A text fits when every loop
stops inside it: the request line is complete, every field has its colon and its line end, and
there are at most as many fields as entries. On a text that fits, the parser stays in front of
the terminator whatever lies behind it. On any other text it leaves the text.
-/

namespace Blogd

/-! ## The conditions of the loops -/

/-- The byte is no CR and no LF follows it. -/
def lineByte (c d : UInt8) : Bool := c ≠ CR && d ≠ LF

def methodByte (c _ : UInt8) : Bool := c ≠ 0 && !isspace c

def gapByte (c d : UInt8) : Bool := isspace c && lineByte c d

def uriByte (c d : UInt8) : Bool := !isspace c && (lineByte c d && c ≠ 0)

def versionByte (c d : UInt8) : Bool := !isspace c && lineByte c d

def nameByte (c _ : UInt8) : Bool := c ≠ 0 && c ≠ 58

def blankByte (c _ : UInt8) : Bool := c ≠ 0 && isspace c

def valueByte (c d : UInt8) : Bool := c ≠ 0 && lineByte c d

def crlfByte (c d : UInt8) : Bool := c = CR && d = LF

def endByte (c d : UInt8) : Bool := c = 0 || crlfByte c d

theorem looksAt_notcrlf : LooksAt notcrlf lineByte := by
  intro c d rest
  by_cases hc : c = CR <;> simp [notcrlf, lineByte, hc, ok_bind, pure_eq_ok]

theorem looksAt_inMethod : LooksAt inMethod methodByte := by
  intro c d rest
  by_cases hc : c = 0 <;> simp [inMethod, notend, methodByte, hc, Except.map, ok_bind, pure_eq_ok]

theorem looksAt_beforeURI : LooksAt beforeURI gapByte := by
  intro c d rest
  have hzero : isspace 0 = false := by decide
  by_cases hc : isspace c = true
  · have hne : c ≠ 0 := fun h => by rw [h, hzero] at hc; cases hc
    by_cases hline : lineByte c d = true <;>
      simp_all [beforeURI, looksAt_notcrlf c d rest, gapByte, notend, Except.map, ok_bind,
        pure_eq_ok]
  · simp_all [beforeURI, gapByte, ok_bind, pure_eq_ok]

theorem looksAt_inURI : LooksAt inURI uriByte := by
  intro c d rest
  by_cases hc : isspace c = true
  · simp_all [inURI, uriByte, ok_bind, pure_eq_ok]
  · by_cases hline : lineByte c d = true <;>
      simp_all [inURI, looksAt_notcrlf c d rest, uriByte, notend, Except.map, ok_bind, pure_eq_ok]

theorem looksAt_beforeVersion : LooksAt beforeVersion gapByte := by
  intro c d rest
  by_cases hc : isspace c = true <;>
    simp_all [beforeVersion, looksAt_notcrlf c d rest, gapByte, ok_bind, pure_eq_ok]

theorem looksAt_inVersion : LooksAt inVersion versionByte := by
  intro c d rest
  by_cases hc : isspace c = true <;>
    simp_all [inVersion, looksAt_notcrlf c d rest, versionByte, ok_bind, pure_eq_ok]

theorem looksAt_inFieldName : LooksAt inFieldName nameByte := by
  intro c d rest
  by_cases hc : c = 0 <;>
    simp [inFieldName, notend, nameByte, hc, Except.map, ok_bind, pure_eq_ok]

theorem looksAt_beforeValue : LooksAt beforeValue blankByte := by
  intro c d rest
  by_cases hc : c = 0 <;>
    simp [beforeValue, notend, blankByte, hc, Except.map, ok_bind, pure_eq_ok]

theorem looksAt_inValue : LooksAt inValue valueByte := by
  intro c d rest
  by_cases hc : c = 0 <;>
    simp [inValue, notend, looksAt_notcrlf c d rest, valueByte, hc, Except.map, ok_bind,
      pure_eq_ok]

theorem looksAt_iscrlf : LooksAt iscrlf crlfByte := by
  intro c d rest
  by_cases hc : c = CR <;> simp [iscrlf, crlfByte, hc, ok_bind, pure_eq_ok]

theorem looksAt_endOrCrlf : LooksAt endOrCrlf endByte := by
  intro c d rest
  by_cases hc : c = 0 <;>
    simp [endOrCrlf, isend, looksAt_iscrlf c d rest, endByte, hc, Except.map, ok_bind, pure_eq_ok]

theorem looksAt_crlfOrEnd : LooksAt crlfOrEnd endByte := by
  intro c d rest
  by_cases hc : crlfByte c d = true <;>
    simp [crlfOrEnd, isend, looksAt_iscrlf c d rest, endByte, hc, Except.map, ok_bind, pure_eq_ok]

theorem looksAt_isend : LooksAt isend fun c _ => c = 0 := by
  intro c d rest
  rfl

theorem looksAt_notend : LooksAt notend fun c _ => c ≠ 0 := by
  intro c d rest
  rfl

/-! ## Texts that fit -/

/-- The text is at its end, or at a line end. -/
def endsHere (text : Bytes) : Bool := endByte (text.headD 0) (text.tail.headD 0)

def atNul (text : Bytes) : Bool := text.headD 0 = 0

def uriStart (text : Bytes) : Bytes := dropRun gapByte (dropRun methodByte text)

def uriEnd (text : Bytes) : Bytes := dropRun uriByte (uriStart text)

/-- The URI of a request. -/
def uriText (text : Bytes) : Bytes :=
  (uriStart text).take ((uriStart text).length - (uriEnd text).length)

/-- The end of the request line. Without a version it is the end of the URI. -/
def lineEnd (text : Bytes) : Bytes :=
  if endsHere (uriEnd text) then uriEnd text
  else dropRun versionByte (dropRun gapByte (uriEnd text))

/-- The value of a field, at the start of the text behind its colon. -/
def fieldValue (text : Bytes) : Bytes := dropRun blankByte text

def fieldEnd (text : Bytes) : Bytes := dropRun valueByte (fieldValue text)

/-- At most so many fields stand at the start of the text, each with its colon, and each either
the last one, cut off in front of its value, or closed by two bytes. -/
def fieldsFit : Nat → Bytes → Bool
  | 0, _ => false
  | free + 1, text =>
      let colon := dropRun nameByte text
      let rest := colon.drop 1
      colon ≠ [] && (endsHere rest || (endsHere (fieldValue rest) ||
        (2 ≤ (fieldEnd rest).length &&
          (endsHere ((fieldEnd rest).drop 2) || fieldsFit free ((fieldEnd rest).drop 2)))))

/-- The method is complete. -/
def methodFits (text : Bytes) : Bool := !endsHere (dropRun methodByte text)

/-- The version, if there is one, ends inside the text. -/
def versionFits (text : Bytes) : Bool := endsHere (uriEnd text) || lineEnd text ≠ []

/-- What follows the request line fits. -/
def afterLineFits (text : Bytes) : Bool :=
  atNul text || (2 ≤ text.length && (atNul (text.drop 2) || fieldsFit maxHeaderSize (text.drop 2)))

/-- The request line is complete and its fields fit. -/
def requestFits (text : Bytes) : Bool :=
  methodFits text && (versionFits text && afterLineFits (lineEnd text))

/-! ## The parser on a text that fits -/

theorem endByte_zero (d : UInt8) : endByte 0 d = endByte 0 0 := rfl

section Fits

variable {text rest : Bytes}

theorem endOrCrlf_text (hrest : rest ≠ []) (text : Bytes) :
    endOrCrlf (text ++ 0 :: rest) = .ok (endsHere text) :=
  looksAt_endOrCrlf.terminated endByte_zero hrest text

theorem crlfOrEnd_text (hrest : rest ≠ []) (text : Bytes) :
    crlfOrEnd (text ++ 0 :: rest) = .ok (endsHere text) :=
  looksAt_crlfOrEnd.terminated endByte_zero hrest text

theorem isend_text (hrest : rest ≠ []) (text : Bytes) :
    isend (text ++ 0 :: rest) = .ok (atNul text) :=
  looksAt_isend.terminated (fun _ => rfl) hrest text

theorem notend_text (hrest : rest ≠ []) (text : Bytes) :
    notend (text ++ 0 :: rest) = .ok (!atNul text) := by
  rw [looksAt_notend.terminated (fun _ => rfl) hrest text]
  simp [atNul]

theorem iscrlf_text (hrest : rest ≠ []) (text : Bytes) :
    iscrlf (text ++ 0 :: rest) = .ok (crlfByte (text.headD 0) (text.tail.headD 0)) :=
  looksAt_iscrlf.terminated (fun _ => rfl) hrest text

theorem endsHere_eq (text : Bytes) :
    endsHere text = (atNul text || crlfByte (text.headD 0) (text.tail.headD 0)) := rfl

/-- The part of a text behind its first bytes, in memory. -/
theorem drop_text {n : Nat} (hn : n ≤ text.length) :
    (text ++ 0 :: rest).drop n = text.drop n ++ 0 :: rest := List.drop_append_of_le_length hn

theorem scan_fieldName (hrest : rest ≠ []) (text : Bytes) :
    scanWhile inFieldName (text ++ 0 :: rest) = .ok (dropRun nameByte text ++ 0 :: rest) :=
  scanWhile_terminated looksAt_inFieldName hrest (.inr fun _ => rfl)

theorem scan_value (hrest : rest ≠ []) (text : Bytes) :
    scanWhile beforeValue (text ++ 0 :: rest) = .ok (fieldValue text ++ 0 :: rest) :=
  scanWhile_terminated looksAt_beforeValue hrest (.inr fun _ => rfl)

theorem scan_fieldEnd (hrest : rest ≠ []) (text : Bytes) :
    scanWhile inValue (fieldValue text ++ 0 :: rest) = .ok (fieldEnd text ++ 0 :: rest) :=
  scanWhile_terminated looksAt_inValue hrest (.inr fun _ => rfl)

theorem scan_method (hrest : rest ≠ []) (text : Bytes) :
    scanWhile inMethod (text ++ 0 :: rest) = .ok (dropRun methodByte text ++ 0 :: rest) :=
  scanWhile_terminated looksAt_inMethod hrest (.inr fun _ => rfl)

theorem scan_uriStart (hrest : rest ≠ []) (text : Bytes) :
    scanWhile beforeURI (dropRun methodByte text ++ 0 :: rest) =
      .ok (uriStart text ++ 0 :: rest) :=
  scanWhile_terminated looksAt_beforeURI hrest (.inr fun _ => rfl)

theorem scan_uriEnd (hrest : rest ≠ []) (text : Bytes) :
    scanWhile inURI (uriStart text ++ 0 :: rest) = .ok (uriEnd text ++ 0 :: rest) :=
  scanWhile_terminated looksAt_inURI hrest (.inr fun d => by simp [uriByte])

theorem scan_version (hrest : rest ≠ []) (text : Bytes) :
    scanWhile beforeVersion (text ++ 0 :: rest) = .ok (dropRun gapByte text ++ 0 :: rest) :=
  scanWhile_terminated looksAt_beforeVersion hrest (.inr fun _ => rfl)

/-- A parse that ended well: the request line is kept, so many entries were filled at most, and
the scan stands in front of the terminator or on it. -/
structure Parsed (header : RequestHeader) (free : Nat) (rest : Bytes) (parsed : ParseResult) :
    Prop where
  requestMethod : parsed.header.requestMethod = header.requestMethod
  requestURI : parsed.header.requestURI = header.requestURI
  requestURILen : parsed.header.requestURILen = header.requestURILen
  fields : parsed.header.fields.length ≤ header.fields.length + free
  scan : ∃ text, parsed.scan = text ++ 0 :: rest

theorem Parsed.of_field {header : RequestHeader} {free : Nat} {field : HeaderField} {status : Int}
    (text : Bytes) :
    Parsed header (free + 1) rest
      ⟨{ header with fields := header.fields ++ [field] }, status, text ++ 0 :: rest⟩ :=
  ⟨rfl, rfl, rfl, by simp, text, rfl⟩

/-- The field loop, by the number of free entries. -/
theorem h3ParseFields_fits {free : Nat} (header : RequestHeader) (hrest : rest ≠ [])
    (hfits : fieldsFit free text = true) :
    ∃ parsed, h3ParseFields free header (text ++ 0 :: rest) = .ok parsed ∧
      Parsed header free rest parsed := by
  induction free generalizing text header with
  | zero => cases hfits
  | succ free ih =>
      simp only [fieldsFit, Bool.and_eq_true, Bool.or_eq_true, decide_eq_true_eq] at hfits
      obtain ⟨hcolon, hfits⟩ := hfits
      have hcolonLen : 1 ≤ (dropRun nameByte text).length := List.length_pos_iff.mpr hcolon
      simp only [h3ParseFields, scan_fieldName hrest, ok_bind, drop_text hcolonLen,
        endOrCrlf_text hrest, scan_value hrest]
      split
      next => exact ⟨_, rfl, Parsed.of_field _⟩
      next hrestText =>
        split
        next => exact ⟨_, rfl, Parsed.of_field _⟩
        next hvalue =>
          obtain ⟨hlen, hfits⟩ := (hfits.resolve_left hrestText).resolve_left hvalue
          simp only [scan_fieldEnd hrest, ok_bind, drop_text hlen, iscrlf_text hrest,
            notend_text hrest]
          split
          next => exact ⟨_, rfl, Parsed.of_field _⟩
          next hcrlf =>
            split
            next hend =>
              -- the loop goes on only where neither the end nor an empty line is
              have hends :
                  ¬ endsHere ((fieldEnd ((dropRun nameByte text).drop 1)).drop 2) = true := by
                rw [endsHere_eq, Bool.or_eq_true, not_or]
                exact ⟨by simpa using hend, hcrlf⟩
              have hnext := hfits.resolve_left hends
              obtain ⟨parsed, hparsed, hkeeps⟩ := ih _ hnext
              refine ⟨parsed, hparsed, hkeeps.requestMethod, hkeeps.requestURI,
                hkeeps.requestURILen, ?_, hkeeps.scan⟩
              have hcount := hkeeps.fields
              rw [List.length_append, List.length_singleton] at hcount
              omega
            next => exact ⟨_, rfl, Parsed.of_field _⟩

/-- The request line of a text that fits. -/
theorem h3RequestLineParse_fits (hrest : rest ≠ []) (hmethod : methodFits text = true)
    (hversion : versionFits text = true) :
    ∃ header, h3RequestLineParse h3RequestHeaderNew (text ++ 0 :: rest) =
        .ok (header, some (lineEnd text ++ 0 :: rest)) ∧
      header.requestMethod = some (text ++ 0 :: rest) ∧
      header.requestURI = some (uriStart text ++ 0 :: rest) ∧
      header.requestURILen = (uriStart text).length - (uriEnd text).length ∧
      header.fields = [] := by
  have hlength : (uriStart text ++ 0 :: rest).length - (uriEnd text ++ 0 :: rest).length =
      (uriStart text).length - (uriEnd text).length := by
    simp only [List.length_append]
    omega
  rw [methodFits, Bool.not_eq_true'] at hmethod
  simp only [h3RequestLineParse, scan_method hrest, ok_bind, endOrCrlf_text hrest, hmethod,
    Bool.false_eq_true, if_false, scan_uriStart hrest, scan_uriEnd hrest, crlfOrEnd_text hrest,
    hlength]
  split
  next hend =>
    rw [lineEnd, if_pos hend]
    exact ⟨_, rfl, rfl, rfl, rfl, rfl⟩
  next hend =>
    rw [versionFits, Bool.or_eq_true, decide_eq_true_eq] at hversion
    have hline := hversion.resolve_left hend
    rw [lineEnd, if_neg hend] at hline ⊢
    rw [scan_version hrest, ok_bind, scanWhile_terminated looksAt_inVersion hrest (.inl hline),
      ok_bind]
    exact ⟨_, rfl, rfl, rfl, rfl, rfl⟩

/-- The parser on a text that fits, whatever lies behind the terminator. -/
theorem h3RequestHeaderParse_fits (hrest : rest ≠ []) (hfits : requestFits text = true) :
    ∃ parsed, h3RequestHeaderParse h3RequestHeaderNew (text ++ 0 :: rest) = .ok parsed ∧
      parsed.header.requestMethod = some (text ++ 0 :: rest) ∧
      parsed.header.requestURI = some (uriStart text ++ 0 :: rest) ∧
      parsed.header.requestURILen = (uriStart text).length - (uriEnd text).length ∧
      parsed.header.fields.length ≤ maxHeaderSize ∧ ∃ before, parsed.scan = before ++ 0 :: rest := by
  simp only [requestFits, Bool.and_eq_true] at hfits
  obtain ⟨hmethod, hversion, hafter⟩ := hfits
  obtain ⟨header, hline, hheaderMethod, huri, huriLen, hfields⟩ :=
    h3RequestLineParse_fits hrest hmethod hversion
  simp only [afterLineFits, Bool.or_eq_true, Bool.and_eq_true, decide_eq_true_eq] at hafter
  simp only [h3RequestHeaderParse, hline, ok_bind, isend_text hrest]
  split
  next => exact ⟨_, rfl, hheaderMethod, huri, huriLen, by simp [hfields], lineEnd text, rfl⟩
  next hend =>
    obtain ⟨hlen, hafter⟩ := hafter.resolve_left hend
    simp only [drop_text hlen, isend_text hrest, ok_bind]
    split
    next => exact ⟨_, rfl, hheaderMethod, huri, huriLen, by simp [hfields], _, rfl⟩
    next hend =>
      obtain ⟨parsed, hparsed, hkeeps⟩ := h3ParseFields_fits { header with fields := [] }
        hrest (hafter.resolve_left hend)
      refine ⟨parsed, hparsed, hkeeps.requestMethod.trans hheaderMethod,
        hkeeps.requestURI.trans huri, hkeeps.requestURILen.trans huriLen, ?_, hkeeps.scan⟩
      simpa using hkeeps.fields

end Fits

/-! ## The parser on any other text

With nothing but zeros behind the text, every loop that leaves it comes to a stop at once or runs
to the end of the memory. -/

/-- The terminator and the zeros behind it. -/
def zeros (n : Nat) : Bytes := 0 :: List.replicate n 0

/-- The scan of the version does not stop at a zero. -/
theorem scan_version_zeros (n : Nat) : scanWhile inVersion (zeros n) = .error .outOfBounds := by
  induction n with
  | zero => rfl
  | succ n ih =>
      rw [zeros, List.replicate_succ, scanWhile, looksAt_inVersion]
      exact ih

/-- A pointer that is moved over the terminator stands at a zero. -/
theorem drop_over {text : Bytes} {k : Nat} (n : Nat) (hk : text.length < k) (htwo : k ≤ 2) :
    ∃ m ≤ n + 1, (text ++ zeros (n + 2)).drop k = zeros m := by
  refine ⟨n + 2 + text.length - k, by omega, ?_⟩
  rw [List.drop_append, List.drop_eq_nil_of_le hk.le, List.nil_append, zeros, zeros,
    ← List.replicate_succ, ← List.replicate_succ, List.drop_replicate]
  congr 1
  omega

theorem length_zeros (n : Nat) : (zeros n).length = n + 1 := by simp [zeros]

section Unfit

variable {text : Bytes} {n : Nat} {parsed : ParseResult}

theorem endOrCrlf_zeros (n : Nat) : endOrCrlf (zeros n) = .ok true := rfl

theorem iscrlf_zeros (n : Nat) : iscrlf (zeros n) = .ok false := rfl

theorem notend_zeros (n : Nat) : notend (zeros n) = .ok false := rfl

theorem isend_zeros (n : Nat) : isend (zeros n) = .ok true := rfl

/-- The field loop leaves a text that does not fit, or runs out of entries. -/
theorem h3ParseFields_unfit {free : Nat} {header : RequestHeader}
    (hunfit : fieldsFit free text = false)
    (hparse : h3ParseFields free header (text ++ zeros (n + 2)) = .ok parsed) :
    parsed.scan.length ≤ n + 2 := by
  have hrest : List.replicate (n + 2) (0 : UInt8) ≠ [] := by simp
  induction free generalizing text header with
  | zero => cases hparse
  | succ free ih =>
      simp only [h3ParseFields, zeros, scan_fieldName hrest, ok_bind] at hparse
      by_cases hcolon : dropRun nameByte text = []
      · -- there is no colon: the pointer is moved over the terminator
        obtain ⟨m, hm, hdrop⟩ := @drop_over [] 1 n (by decide) (by decide)
        rw [hcolon, ← zeros, hdrop, endOrCrlf_zeros] at hparse
        cases hparse
        rw [length_zeros]
        omega
      · have hcolonLen : 1 ≤ (dropRun nameByte text).length := List.length_pos_iff.mpr hcolon
        simp only [drop_text hcolonLen, endOrCrlf_text hrest, scan_value hrest, ok_bind] at hparse
        simp only [fieldsFit, hcolon, ne_eq, not_false_eq_true, decide_true, Bool.true_and,
          Bool.or_eq_false_iff] at hunfit
        obtain ⟨hend, hvalue, hunfit⟩ := hunfit
        simp only [hend, hvalue, Bool.false_eq_true, if_false, scan_fieldEnd hrest,
          ok_bind] at hparse
        by_cases hlen : 2 ≤ (fieldEnd ((dropRun nameByte text).drop 1)).length
        · simp only [hlen, decide_true, Bool.true_and, Bool.or_eq_false_iff] at hunfit
          obtain ⟨hends, hunfit⟩ := hunfit
          rw [endsHere_eq, Bool.or_eq_false_iff] at hends
          simp only [drop_text hlen, iscrlf_text hrest, notend_text hrest, ok_bind, hends.1,
            hends.2, Bool.false_eq_true, if_false, Bool.not_false, if_true] at hparse
          exact ih hunfit hparse
        · obtain ⟨m, hm, hdrop⟩ := drop_over n (Nat.lt_of_not_le hlen) le_rfl
          rw [← zeros] at hparse
          simp only [hdrop, iscrlf_zeros, notend_zeros, ok_bind, Bool.false_eq_true,
            if_false] at hparse
          cases hparse
          rw [length_zeros]
          omega

/-- On a text that does not fit the parser faults, or leaves the method NULL, or leaves the
text. -/
theorem h3RequestHeaderParse_unfit (hunfit : requestFits text = false)
    (hparse : h3RequestHeaderParse h3RequestHeaderNew (text ++ zeros (n + 2)) = .ok parsed) :
    parsed.header.requestMethod = none ∨ parsed.scan.length ≤ n + 2 := by
  have hrest : List.replicate (n + 2) (0 : UInt8) ≠ [] := by simp
  by_cases hmethod : methodFits text = true
  · by_cases hversion : versionFits text = true
    · right
      simp only [requestFits, hmethod, hversion, Bool.true_and] at hunfit
      obtain ⟨header, hline, -⟩ := h3RequestLineParse_fits hrest hmethod hversion
      simp only [afterLineFits, Bool.or_eq_false_iff] at hunfit
      obtain ⟨hnul, hunfit⟩ := hunfit
      simp only [h3RequestHeaderParse, zeros, hline, ok_bind, isend_text hrest, hnul,
        Bool.false_eq_true, if_false] at hparse
      by_cases hlen : 2 ≤ (lineEnd text).length
      · simp only [hlen, decide_true, Bool.true_and, Bool.or_eq_false_iff] at hunfit
        simp only [drop_text hlen, isend_text hrest, ok_bind, hunfit.1, Bool.false_eq_true,
          if_false] at hparse
        exact h3ParseFields_unfit hunfit.2 hparse
      · obtain ⟨m, hm, hdrop⟩ := drop_over n (Nat.lt_of_not_le hlen) le_rfl
        rw [← zeros] at hparse
        simp only [hdrop, isend_zeros, ok_bind, if_true] at hparse
        cases hparse
        rw [length_zeros]
        omega
    · -- the version is not closed: its scan runs to the end of the memory
      rw [versionFits, Bool.or_eq_true, not_or, decide_eq_true_eq, not_not] at hversion
      obtain ⟨hend, hversion⟩ := hversion
      rw [lineEnd, if_neg hend] at hversion
      rw [methodFits, Bool.not_eq_true'] at hmethod
      rw [Bool.not_eq_true] at hend
      have hscan : scanWhile inVersion (dropRun gapByte (uriEnd text) ++ zeros (n + 2)) =
          .error .outOfBounds := by
        rw [zeros, scanWhile_through looksAt_inVersion hversion, ← zeros, scan_version_zeros]
      simp only [h3RequestHeaderParse, h3RequestLineParse, zeros, scan_method hrest, ok_bind,
        endOrCrlf_text hrest, hmethod, Bool.false_eq_true, if_false, scan_uriStart hrest,
        scan_uriEnd hrest, crlfOrEnd_text hrest, hend, scan_version hrest] at hparse
      rw [← zeros, hscan] at hparse
      cases hparse
  · left
    rw [methodFits, Bool.not_eq_true', Bool.not_eq_false] at hmethod
    simp only [h3RequestHeaderParse, h3RequestLineParse, zeros, scan_method hrest, ok_bind,
      endOrCrlf_text hrest, hmethod, if_true] at hparse
    cases hparse
    rfl

end Unfit

end Blogd
