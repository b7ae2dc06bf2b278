import Blogd.Http.RequestShape

/-! # Well-formed requests

A complete GET request with a URI, a version and some fields. The header parser reads it in full
and stops at the empty line that closes it, whatever lies behind.
-/

namespace Blogd

structure Field where
  name : Bytes
  value : Bytes
  name_ne : name ≠ []
  name_bytes : ∀ c ∈ name, c ≠ 0 ∧ c ≠ 58 ∧ c ≠ CR ∧ c ≠ LF
  value_head : ∃ c rest, value = c :: rest ∧ isspace c = false
  value_bytes : ∀ c ∈ value, c ≠ 0 ∧ c ≠ CR ∧ c ≠ LF

def Field.line (f : Field) : Bytes := f.name ++ (ascii ": " ++ (f.value ++ crlf))

/-- A word: some bytes, none of which is NUL or white space. -/
def IsWord (text : Bytes) : Prop := text ≠ [] ∧ ∀ c ∈ text, c ≠ 0 ∧ isspace c = false

instance (text : Bytes) : Decidable (IsWord text) :=
  @instDecidableAnd _ _ inferInstance
    (List.decidableBAll (fun c => c ≠ 0 ∧ isspace c = false) text)

/-- The text of a GET request. -/
def requestText (uri version : Bytes) (fields : List Field) : Bytes :=
  ascii "GET" ++ (ascii " " ++ (uri ++ (ascii " " ++ (version ++
    (crlf ++ (fields.flatMap Field.line ++ crlf))))))

/-- A complete GET request that arrives in one read. -/
structure Request where
  uri : Bytes
  version : Bytes
  fields : List Field
  uri_word : IsWord uri
  version_word : IsWord version
  fields_ne : fields ≠ []
  fields_le : fields.length ≤ maxHeaderSize
  length_le : (requestText uri version fields).length ≤ 16384

def Request.text (r : Request) : Bytes := requestText r.uri r.version r.fields

/-! ## Fields -/

theorem ne_line_of_not_space {c : UInt8} (hc : isspace c = false) : c ≠ CR ∧ c ≠ LF := by
  constructor <;> (rintro rfl; revert hc; decide)

/-- The loop over one field: it stops behind the line end of the field. -/
theorem h3ParseFields_line (free : Nat) (header : RequestHeader) (f : Field) {next : Bytes}
    (hnext : 2 ≤ next.length) :
    ∃ field, h3ParseFields (free + 1) header (f.line ++ next) =
      (do
        let header := { header with fields := header.fields ++ [field] }
        if ← iscrlf next then return ⟨header, 0, next⟩
        else if ← notend next then h3ParseFields free header next
        else return ⟨header, 0, next⟩) := by
  obtain ⟨v, value, hvalue, hspace⟩ := f.value_head
  have hbytes := f.value_bytes
  rw [hvalue] at hbytes
  obtain ⟨hv0, hvCR, hvLF⟩ := hbytes v List.mem_cons_self
  have hline : f.line ++ next = f.name ++ (58 :: 32 :: v :: (value ++ (CR :: LF :: next))) := by
    simp only [Field.line, hvalue, List.append_assoc, List.cons_append]
    rfl
  -- the three scans stop at the colon, behind the blank and at the line end
  have hname : scanWhile inFieldName (f.name ++ (58 :: 32 :: v :: (value ++ (CR :: LF :: next)))) =
      .ok (58 :: 32 :: v :: (value ++ (CR :: LF :: next))) := by
    apply scanWhile_passage looksAt_inFieldName
    · intro c hc d _
      obtain ⟨h0, hcolon, -⟩ := f.name_bytes c hc
      simp [nameByte, h0, hcolon]
    · exact dropRun_cons_neg (by simp [nameByte])
    · simp
  have hblank : scanWhile beforeValue (32 :: v :: (value ++ (CR :: LF :: next))) =
      .ok (v :: (value ++ (CR :: LF :: next))) := by
    have hpassed : ∀ c ∈ [(32 : UInt8)], ∀ d ∈ (v :: (value ++ (CR :: LF :: next))).headD 0 :: [32],
        blankByte c d = true := by
      intro c hc d _
      rw [List.mem_singleton.mp hc]
      rfl
    refine scanWhile_passage looksAt_beforeValue hpassed (dropRun_cons_neg ?_) (by simp; omega)
    simp [blankByte, hspace]
  have hend : scanWhile inValue (v :: (value ++ (CR :: LF :: next))) = .ok (CR :: LF :: next) := by
    rw [← List.cons_append]
    apply scanWhile_passage looksAt_inValue
    · intro c hc d hd
      obtain ⟨h0, hCR, -⟩ := hbytes c hc
      have hdLF : d ≠ LF := by
        rcases List.mem_cons.mp hd with rfl | hd
        · simp only [List.headD_cons]
          decide
        · exact (hbytes d hd).2.2
      simp [valueByte, lineByte, h0, hCR, hdLF]
    · exact dropRun_cons_neg (by simp [valueByte, lineByte])
    · simp
  have hfirst : endOrCrlf (32 :: v :: (value ++ (CR :: LF :: next))) = .ok false :=
    looksAt_endOrCrlf 32 v _
  have hsecond : endOrCrlf (v :: (value ++ (CR :: LF :: next))) = .ok false := by
    have hlooks : ∀ d rest, endOrCrlf (v :: d :: rest) = .ok false := by
      intro d rest
      rw [looksAt_endOrCrlf]
      simp [endByte, crlfByte, hv0, hvCR]
    cases value with
    | nil => exact hlooks CR (LF :: next)
    | cons d value => exact hlooks d _
  rw [hline]
  simp only [h3ParseFields, hname, ok_bind, List.drop_succ_cons, List.drop_zero, hfirst,
    Bool.false_eq_true, if_false, hblank, hsecond, hend]
  exact ⟨_, rfl⟩

theorem two_le_length_crlf (rest : Bytes) : 2 ≤ (crlf ++ rest).length := by
  rw [List.length_append]
  exact Nat.le_add_right 2 _

theorem iscrlf_crlf (rest : Bytes) : iscrlf (crlf ++ rest) = .ok true := looksAt_iscrlf CR LF rest

/-- The text of more fields begins with a byte that is neither NUL nor CR. -/
theorem fields_head (f : Field) (rest : Bytes) :
    2 ≤ (f.line ++ rest).length ∧ iscrlf (f.line ++ rest) = .ok false ∧
      notend (f.line ++ rest) = .ok true ∧ isend (f.line ++ rest) = .ok false := by
  obtain ⟨c, name, hname⟩ := List.exists_cons_of_ne_nil f.name_ne
  obtain ⟨h0, -, hCR, -⟩ := f.name_bytes c (hname ▸ List.mem_cons_self)
  have hlooks : ∃ d more, f.line ++ rest = c :: d :: more := by
    cases name with
    | nil => exact ⟨58, _, by rw [Field.line, hname]; rfl⟩
    | cons d name => exact ⟨d, _, by rw [Field.line, hname]; rfl⟩
  obtain ⟨d, more, hline⟩ := hlooks
  rw [hline]
  refine ⟨by simp, ?_, ?_, ?_⟩
  · rw [looksAt_iscrlf]
    simp [crlfByte, hCR]
  · rw [looksAt_notend]
    simp [h0]
  · rw [looksAt_isend]
    simp [h0]

/-- The field loop reads every field and stops at the empty line. -/
theorem h3ParseFields_lines {fields : List Field} (hne : fields ≠ []) (header : RequestHeader)
    {free : Nat} (hfree : fields.length ≤ free) (rest : Bytes) :
    ∃ parsed, h3ParseFields free header (fields.flatMap Field.line ++ (crlf ++ rest)) =
        .ok parsed ∧
      parsed.header.requestMethod = header.requestMethod ∧
      parsed.header.requestURI = header.requestURI ∧
      parsed.header.requestURILen = header.requestURILen := by
  induction fields generalizing free header with
  | nil => exact absurd rfl hne
  | cons f fields ih =>
      obtain ⟨free, rfl⟩ : ∃ k, free = k + 1 := ⟨free - 1, by simp at hfree; omega⟩
      rw [List.flatMap_cons, List.append_assoc]
      cases fields with
      | nil =>
          obtain ⟨field, hparse⟩ := h3ParseFields_line free header f (two_le_length_crlf rest)
          rw [List.flatMap_nil, List.nil_append, hparse]
          simp only [iscrlf_crlf, ok_bind, if_true]
          exact ⟨_, rfl, rfl, rfl, rfl⟩
      | cons g fields =>
          have hnext := fields_head g (fields.flatMap Field.line ++ (crlf ++ rest))
          rw [← List.append_assoc, ← List.flatMap_cons] at hnext
          obtain ⟨field, hparse⟩ := h3ParseFields_line free header f hnext.1
          rw [hparse]
          simp only [hnext.2.1, hnext.2.2.1, ok_bind, Bool.false_eq_true, if_false, if_true]
          exact ih (List.cons_ne_nil g fields) _ (by simpa using hfree)

/-! ## The request line -/

theorem IsWord.head {text : Bytes} (htext : IsWord text) :
    ∃ c rest, text = c :: rest ∧ c ≠ 0 ∧ isspace c = false := by
  obtain ⟨c, rest, rfl⟩ := List.exists_cons_of_ne_nil htext.1
  exact ⟨c, rest, rfl, htext.2 c List.mem_cons_self⟩

/-- The gap in front of a word is passed. -/
theorem dropRun_gap {word : Bytes} (hword : IsWord word) (rest : Bytes) :
    dropRun gapByte (32 :: (word ++ rest)) = word ++ rest := by
  obtain ⟨c, more, rfl, -, hspace⟩ := hword.head
  have hLF := (ne_line_of_not_space hspace).2
  rw [List.cons_append, dropRun_cons_pos, dropRun_cons_neg]
  · simp [gapByte, hspace]
  · simp only [gapByte, lineByte, List.headD_cons, ne_eq, hLF, not_false_eq_true, decide_true,
      Bool.and_true]
    decide

/-- A word is passed up to the byte behind it, which is white space but no LF. -/
theorem dropRun_word {p : UInt8 → UInt8 → Bool} {word : Bytes} (hword : IsWord word) {s : UInt8}
    (hs : isspace s = true) (hsLF : s ≠ LF) (rest : Bytes)
    (hp : ∀ c d, isspace c = false → c ≠ 0 → d ≠ LF → p c d = true)
    (hstop : ∀ c d, isspace c = true → p c d = false) :
    dropRun p (word ++ s :: rest) = s :: rest := by
  apply dropRun_passage
  · intro c hc d hd
    obtain ⟨h0, hspace⟩ := hword.2 c hc
    refine hp c d hspace h0 ?_
    rcases List.mem_cons.mp hd with rfl | hd
    · exact hsLF
    · exact (ne_line_of_not_space (hword.2 d hd).2).2
  · exact dropRun_cons_neg (by rw [hstop _ _ hs]; exact Bool.false_ne_true)

theorem isWord_get : IsWord (ascii "GET") := by decide

theorem methodByte_word (c d : UInt8) (hc : isspace c = false) (h0 : c ≠ 0) (_ : d ≠ LF) :
    methodByte c d = true := by
  simp [methodByte, hc, h0]

theorem uriByte_word (c d : UInt8) (hc : isspace c = false) (h0 : c ≠ 0) (hd : d ≠ LF) :
    uriByte c d = true := by
  simp [uriByte, lineByte, hc, h0, hd, (ne_line_of_not_space hc).1]

theorem versionByte_word (c d : UInt8) (hc : isspace c = false) (_ : c ≠ 0) (hd : d ≠ LF) :
    versionByte c d = true := by
  simp [versionByte, lineByte, hc, hd, (ne_line_of_not_space hc).1]

/-- The request line of a well-formed request. -/
theorem h3RequestLineParse_request (r : Request) (rest : Bytes) :
    ∃ header uri, h3RequestLineParse h3RequestHeaderNew (r.text ++ rest) =
        .ok (header, some (crlf ++ (r.fields.flatMap Field.line ++ (crlf ++ rest)))) ∧
      header.requestMethod = some (r.text ++ rest) ∧
      header.requestURI = some (r.uri ++ uri) ∧ header.requestURILen = r.uri.length := by
  have hspace : isspace 32 = true := by decide
  obtain ⟨line, hline⟩ : ∃ line, line = LF :: (r.fields.flatMap Field.line ++ (crlf ++ rest)) :=
    ⟨_, rfl⟩
  have hcrlf : crlf ++ (r.fields.flatMap Field.line ++ (crlf ++ rest)) = CR :: line := by
    rw [hline]
    rfl
  have htext : r.text ++ rest =
      ascii "GET" ++ 32 :: (r.uri ++ 32 :: (r.version ++ CR :: line)) := by
    rw [hline]
    simp only [Request.text, requestText, List.append_assoc]
    rfl
  have hlen : 1 ≤ line.length := by simp [hline]
  -- each scan stops where the next gap or the next word begins
  have hmethod : scanWhile inMethod (r.text ++ rest) =
      .ok (32 :: (r.uri ++ 32 :: (r.version ++ CR :: line))) := by
    rw [htext]
    apply scanWhile_run looksAt_inMethod
    · exact dropRun_word isWord_get hspace (by decide) _ methodByte_word
        fun c d hc => by simp [methodByte, hc]
    · simp only [List.length_cons, List.length_append]
      omega
  have hgap : scanWhile beforeURI (32 :: (r.uri ++ 32 :: (r.version ++ CR :: line))) =
      .ok (r.uri ++ 32 :: (r.version ++ CR :: line)) := by
    apply scanWhile_run looksAt_beforeURI (dropRun_gap r.uri_word _)
    simp only [List.length_cons, List.length_append]
    omega
  have huri : scanWhile inURI (r.uri ++ 32 :: (r.version ++ CR :: line)) =
      .ok (32 :: (r.version ++ CR :: line)) := by
    apply scanWhile_run looksAt_inURI
    · exact dropRun_word r.uri_word hspace (by decide) _ uriByte_word
        fun c d hc => by simp [uriByte, hc]
    · simp only [List.length_cons, List.length_append]
      omega
  have hsecond : scanWhile beforeVersion (32 :: (r.version ++ CR :: line)) =
      .ok (r.version ++ CR :: line) := by
    apply scanWhile_run looksAt_beforeVersion (dropRun_gap r.version_word _)
    simp only [List.length_cons, List.length_append]
    omega
  have hversion : scanWhile inVersion (r.version ++ CR :: line) = .ok (CR :: line) := by
    apply scanWhile_run looksAt_inVersion
    · exact dropRun_word r.version_word (by decide) (by decide) _ versionByte_word
        fun c d hc => by simp [versionByte, hc]
    · simp only [List.length_cons]
      omega
  have hnotEnd : ∀ rest, rest ≠ [] → endOrCrlf (32 :: rest) = .ok false ∧
      crlfOrEnd (32 :: rest) = .ok false := by
    intro rest hrest
    obtain ⟨d, rest, rfl⟩ := List.exists_cons_of_ne_nil hrest
    rw [looksAt_endOrCrlf, looksAt_crlfOrEnd]
    exact ⟨rfl, rfl⟩
  have hurilen : (r.uri ++ 32 :: (r.version ++ CR :: line)).length -
      (32 :: (r.version ++ CR :: line)).length = r.uri.length := by
    rw [List.length_append, Nat.add_sub_cancel]
  have hfirst := (hnotEnd (r.uri ++ 32 :: (r.version ++ CR :: line)) (by simp)).1
  have hafter := (hnotEnd (r.version ++ CR :: line) (by simp)).2
  rw [hcrlf]
  simp only [h3RequestLineParse, hmethod, ok_bind, hfirst, Bool.false_eq_true, if_false, hgap,
    huri, hafter, hsecond, hversion, hurilen]
  exact ⟨_, _, rfl, rfl, rfl, rfl⟩

/-- The parser on a well-formed request, whatever lies behind it. -/
theorem h3RequestHeaderParse_request (r : Request) (rest : Bytes) :
    ∃ parsed uri, h3RequestHeaderParse h3RequestHeaderNew (r.text ++ rest) = .ok parsed ∧
      parsed.header.requestMethod = some (r.text ++ rest) ∧
      parsed.header.requestURI = some (r.uri ++ uri) ∧
      parsed.header.requestURILen = r.uri.length := by
  obtain ⟨header, uri, hline, hmethod, huri, huriLen⟩ := h3RequestLineParse_request r rest
  obtain ⟨f, fields, hfields⟩ := List.exists_cons_of_ne_nil r.fields_ne
  have hhead := fields_head f (fields.flatMap Field.line ++ (crlf ++ rest))
  rw [← List.append_assoc, ← List.flatMap_cons, ← hfields] at hhead
  have hdrop : (crlf ++ (r.fields.flatMap Field.line ++ (crlf ++ rest))).drop 2 =
      r.fields.flatMap Field.line ++ (crlf ++ rest) := rfl
  have hcrlf : isend (crlf ++ (r.fields.flatMap Field.line ++ (crlf ++ rest))) = .ok false := rfl
  obtain ⟨parsed, hparsed, hkeeps⟩ := h3ParseFields_lines r.fields_ne { header with fields := [] }
    r.fields_le rest
  refine ⟨parsed, uri, ?_, hkeeps.1.trans hmethod, hkeeps.2.1.trans huri,
    hkeeps.2.2.trans huriLen⟩
  simp only [h3RequestHeaderParse, hline, ok_bind, hcrlf, Bool.false_eq_true, if_false, hdrop,
    hhead.2.2.2, hparsed]

end Blogd
