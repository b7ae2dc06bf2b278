import Blogd.Http.Delivery

/-! # Successful responses

A response tells its status, the length of its body and the body itself. From that, and from what
the store holds for a key, follows when a key is answered with a given body.
-/

namespace Blogd

/-- The response with status 200 for a body. -/
def okResponse (filetype body : Bytes) : Bytes :=
  headerText 200 (decimal body.length) filetype ++ body

def htmlType : Bytes := ascii "text/html; charset=UTF-8"

/-! ## Reading a response -/

/-- Digits in front of a line break are read off uniquely. -/
theorem decimal_line_inj {n m : Nat} {rest rest' : Bytes}
    (heq : decimal n ++ CR :: rest = decimal m ++ CR :: rest') : n = m ∧ rest = rest' := by
  have htake : ∀ k more, (decimal k ++ CR :: more).takeWhile isdigit = decimal k := by
    intro k more
    rw [List.takeWhile_append_of_pos fun c hc => isdigit_of_mem_decimal hc,
      List.takeWhile_cons_of_neg (by decide), List.append_nil]
  have hdigits : decimal n = decimal m := by rw [← htake n rest, heq, htake]
  rw [hdigits] at heq
  exact ⟨decimal_injective hdigits, (List.cons.inj (List.append_cancel_left heq)).2⟩

theorem headerText_inj {n m : Nat} {filetype body body' : Bytes}
    (heq : headerText 200 (decimal n) filetype ++ body =
      headerText 200 (decimal m) filetype ++ body') : n = m ∧ body = body' := by
  have hline : ∀ rest, ascii "\r\n" ++ rest = CR :: (LF :: rest) := fun _ => rfl
  simp only [headerText, List.append_assoc, List.append_cancel_left_eq, hline,
    List.cons_append] at heq
  obtain ⟨hlength, hrest⟩ := decimal_line_inj heq
  simp only [List.cons.injEq, List.append_cancel_left_eq, true_and] at hrest
  exact ⟨hlength, hrest⟩

/-- An error is told from a success by its status. -/
theorem headerText_ne {code : Nat} (hcode : code = 404 ∨ code = 400) (length length' : Bytes)
    (filetype filetype' body body' : Bytes) :
    headerText code length filetype ++ body ≠ headerText 200 length' filetype' ++ body' := by
  intro heq
  simp only [headerText, List.append_assoc, List.append_cancel_left_eq] at heq
  have hstatus := congrArg List.head? heq
  rcases hcode with rfl | rfl
  · exact absurd (show (some 52 : Option UInt8) = some 50 from hstatus) (by decide)
  · exact absurd (show (some 52 : Option UInt8) = some 50 from hstatus) (by decide)

/-! ## Rendering -/

theorem buildHttpHeaders_mime {contentType : Bytes} {mime : HttpMime}
    (hmime : findMime contentType = some mime) {n : Nat} (hfits : fitsLength n = true)
    (code : Nat) :
    buildHttpHeaders contentType n code =
      .ok (headerText code (decimal (n % 2 ^ 32)) mime.filetype) := by
  have hdigits : (decimal (n % 2 ^ 32)).length ≤ 9 := by
    rw [length_decimal_le_iff (by decide)]
    simpa [fitsLength] using hfits
  have hlen : ¬ (decimal (n % 2 ^ 32)).length + 1 > 10 := by omega
  simp only [buildHttpHeaders, hlen, if_false, hmime]

/-- A header for a length is the header of a success when the length has at most nine digits. -/
theorem fitsLength_of_lt {n : Nat} (hn : n < 10 ^ 9) : fitsLength n = true ∧ n % 2 ^ 32 = n := by
  have hmod : n % 2 ^ 32 = n := Nat.mod_eq_of_lt (Nat.lt_trans hn (by decide))
  exact ⟨by rw [fitsLength, hmod]; exact decide_eq_true hn, hmod⟩

theorem lt_of_fitsLength {n : Nat} (hfits : fitsLength n = true) (hmod : n % 2 ^ 32 = n) :
    n < 10 ^ 9 := by
  rw [fitsLength, hmod] at hfits
  exact of_decide_eq_true hfits

theorem findMime_html : ∃ mime, findMime (ascii "html") = some mime ∧ mime.filetype = htmlType :=
  ⟨_, rfl, rfl⟩

theorem render_ok_iff {content : CharPtr} {value : Bytes} :
    render content (ascii "html") 200 = .ok (okResponse htmlType value) ↔
      content = .str value ∧ value.length < 10 ^ 9 := by
  obtain ⟨mime, hmime, htype⟩ := findMime_html
  constructor
  · intro hrender
    cases content with
    | null => cases hrender
    | wild => cases hrender
    | str s =>
        cases hfits : fitsLength s.length with
        | false =>
            rw [render, CharPtr.read, ok_bind, buildHttpHeaders_error hfits] at hrender
            cases hrender
        | true =>
            rw [render, CharPtr.read, ok_bind, buildHttpHeaders_mime hmime hfits, htype, ok_bind,
              pure_eq_ok, Except.ok.injEq] at hrender
            obtain ⟨hlength, rfl⟩ := headerText_inj hrender
            exact ⟨rfl, lt_of_fitsLength hfits hlength⟩
  · rintro ⟨hcontent, hlength⟩
    obtain ⟨hfits, hmod⟩ := fitsLength_of_lt hlength
    rw [hcontent, render, CharPtr.read, ok_bind, buildHttpHeaders_mime hmime hfits, htype, ok_bind,
      pure_eq_ok, hmod, okResponse]

/-! ## Keys -/

/-- The string that a key is answered with. -/
def Site.text (site : Site) (key : Bytes) : Option Bytes :=
  match site.lookup key with
  | some (.string s) => some (cstr s)
  | _ => none

/-- A value that is stored as an integer. -/
def readsInteger (value : Bytes) : Bool := value.length ≤ 20 && (string2ll value).isSome

theorem Site.answerError_ne_ok (site : Site) (filetype value : Bytes) :
    site.answerError ≠ .ok (okResponse filetype value) := by
  obtain ⟨mime, hmime, htype⟩ := findMime_html
  intro hanswer
  rw [Site.answerError] at hanswer
  cases hcontent : errorReply (site.lookup errorKey) with
  | null => rw [hcontent] at hanswer; cases hanswer
  | wild => rw [hcontent] at hanswer; cases hanswer
  | str s =>
      rw [hcontent] at hanswer
      cases hfits : fitsLength s.length with
      | false =>
          rw [render, CharPtr.read, ok_bind, buildHttpHeaders_error hfits] at hanswer
          cases hanswer
      | true =>
          rw [render, CharPtr.read, ok_bind, buildHttpHeaders_mime hmime hfits, ok_bind,
            pure_eq_ok, Except.ok.injEq] at hanswer
          exact headerText_ne (.inl rfl) _ _ _ _ _ _ hanswer

/-- A key is answered with a body exactly when it holds that string and the length can be
printed. -/
theorem Site.answerKey_ok_iff {site : Site} {key value : Bytes} (hfits : keyFits key = true) :
    site.answerKey key = .ok (okResponse htmlType value) ↔
      site.text key = some value ∧ value.length < 10 ^ 9 := by
  rw [Site.answerKey, if_pos hfits, Site.text]
  rcases site.lookup key with _ | o
  · exact ⟨fun h => absurd h (site.answerError_ne_ok _ _), fun h => by cases h.1⟩
  · cases o with
    | other => exact ⟨fun h => absurd h (site.answerError_ne_ok _ _), fun h => by cases h.1⟩
    | string s =>
        rw [Option.some.injEq]
        exact render_ok_iff.trans (and_congr_left' ⟨CharPtr.str.inj, congrArg _⟩)
    | int n =>
        refine render_ok_iff.trans ⟨fun h => ?_, fun h => by cases h.1⟩
        have hptr := h.1
        rw [Robj.ptr] at hptr
        split at hptr <;> cases hptr

/-- What a key that was set is answered with. -/
theorem Site.text_of_set {site : Site} {key value : Bytes} (hnul : 0 ∉ value)
    (hset : site.lookup key = some (tryObjectEncoding value)) (body : Bytes) :
    site.text key = some body ↔ readsInteger value = false ∧ value = body := by
  rw [Site.text, hset, tryObjectEncoding, readsInteger]
  by_cases hlen : value.length ≤ 20
  · rw [if_pos hlen, decide_eq_true hlen, Bool.true_and]
    cases string2ll value with
    | some n => simp
    | none => simp [cstr_eq_self hnul]
  · rw [if_neg hlen, decide_eq_false hlen, Bool.false_and]
    simp [cstr_eq_self hnul]

end Blogd
