import Blogd.Http.Refinement

/-! # Contents that can be sent

The site answers a path whenever the contents involved can be sent: a stored page is a string
with an address, a length fits the ten bytes it is printed into, and a file is read to its end.
-/

namespace Blogd

/-- A response: a header text and a body. -/
def IsResponse (bytes : Bytes) : Prop :=
  ∃ code length filetype body, bytes = headerText code length filetype ++ body

/-- Printed as an unsigned integer of 32 bits, the length has at most nine digits. -/
def fitsLength (n : Nat) : Bool := n % 2 ^ 32 < 10 ^ 9

def CharPtr.sendable : CharPtr → Bool
  | .str s => fitsLength s.length
  | _ => false

/-- No read fails before the end of the file. -/
def readsEnd : List FileRead → Bool
  | [] => true
  | .error :: _ => false
  | .data bytes :: rest => bytes = [] || readsEnd rest

namespace Site

variable (site : Site)

def errorSendable : Bool := (errorReply (site.lookup errorKey)).sendable

def keySendable (key : Bytes) : Bool :=
  match site.lookup key with
  | none => site.errorSendable
  | some .other => site.errorSendable
  | some o => o.ptr.sendable

def fileSendable (stem ext : Bytes) : Bool :=
  match site.files (site.publicDir ++ stem ++ ascii "." ++ ext) with
  | none => site.errorSendable
  | some file => fitsLength file.stSize && readsEnd file.reads

def routeSendable (callback : Callback) (found : List Bytes) : Bool :=
  match callback, found with
  | .index, _ => site.keySendable (pageKeyPrefix ++ ascii "1")
  | .page, first :: _ => site.keySendable (pageKeyPrefix ++ first)
  | .content, first :: _ => site.keySendable (postKeyPrefix ++ first)
  | .file, first :: second :: _ => site.fileSendable first second
  | _, _ => false

/-- What the path is routed to can be sent. -/
def delivers (ext : External) (urlPath : Bytes) : Bool :=
  match findRoute ext urlPath httpRoutes with
  | .ok (some (callback, found)) => site.routeSendable callback found
  | .ok none => site.errorSendable
  | .error _ => false

end Site

/-! ## Headers and contents -/

theorem buildHttpHeaders_ok (contentType : Bytes) {n : Nat} (code : Nat)
    (hfits : fitsLength n = true) :
    ∃ code' filetype, buildHttpHeaders contentType n code =
      .ok (headerText code' (decimal (n % 2 ^ 32)) filetype) := by
  have hdigits : (decimal (n % 2 ^ 32)).length ≤ 9 := by
    rw [length_decimal_le_iff (by decide)]
    simpa [fitsLength] using hfits
  have hlen : ¬ (decimal (n % 2 ^ 32)).length + 1 > 10 := by omega
  simp only [buildHttpHeaders, hlen, if_false]
  split
  next => exact ⟨_, _, rfl⟩
  next => exact ⟨_, _, rfl⟩

theorem buildHttpHeaders_error {contentType : Bytes} {n code : Nat}
    (hfits : fitsLength n = false) : buildHttpHeaders contentType n code = .error .overflow := by
  have hdigits : ¬ (decimal (n % 2 ^ 32)).length ≤ 9 := by
    rw [length_decimal_le_iff (by decide)]
    simpa [fitsLength] using hfits
  have hlen : (decimal (n % 2 ^ 32)).length + 1 > 10 := by omega
  simp only [buildHttpHeaders, hlen, if_true]

/-- An answer is given exactly when the condition holds, and it is a response. -/
def AnswersWhen (reply : Except Fault Bytes) : Bool → Prop
  | true => ∃ bytes, reply = .ok bytes ∧ IsResponse bytes
  | false => ∃ e, reply = .error e

theorem render_answersWhen (content : CharPtr) (contentType : Bytes) (code : Nat) :
    AnswersWhen (render content contentType code) content.sendable := by
  cases content with
  | null => exact ⟨_, rfl⟩
  | wild => exact ⟨_, rfl⟩
  | str s =>
      rw [CharPtr.sendable]
      cases hfits : fitsLength s.length with
      | true =>
          obtain ⟨code', filetype, hheaders⟩ := buildHttpHeaders_ok contentType code hfits
          refine ⟨_, ?_, code', decimal (s.length % 2 ^ 32), filetype, s, rfl⟩
          simp only [render, CharPtr.read, ok_bind, hheaders, pure_eq_ok]
      | false =>
          refine ⟨.overflow, ?_⟩
          simp only [render, CharPtr.read, ok_bind, buildHttpHeaders_error hfits, error_bind]

theorem readAll_ok {reads : List FileRead} (hend : readsEnd reads = true) :
    ∃ bytes, readAll reads = .ok bytes := by
  induction reads with
  | nil => exact ⟨[], rfl⟩
  | cons read rest ih =>
      cases read with
      | error => cases hend
      | data bytes =>
          by_cases hempty : bytes = []
          · exact ⟨[], by rw [readAll, if_pos hempty]⟩
          · rw [readsEnd, decide_eq_false hempty, Bool.false_or] at hend
            obtain ⟨more, hmore⟩ := ih hend
            exact ⟨bytes ++ more, by rw [readAll, if_neg hempty, hmore, ok_bind, pure_eq_ok]⟩

theorem readAll_error {reads : List FileRead} (hend : readsEnd reads = false) :
    ∃ e, readAll reads = .error e := by
  induction reads with
  | nil => cases hend
  | cons read rest ih =>
      cases read with
      | error => exact ⟨_, rfl⟩
      | data bytes =>
          rw [readsEnd, Bool.or_eq_false_iff, decide_eq_false_iff_not] at hend
          obtain ⟨e, he⟩ := ih hend.2
          exact ⟨e, by rw [readAll, if_neg hend.1, he, error_bind]⟩

/-! ## Paths -/

/-- A key of at most a buffer behind one of the two prefixes fits. -/
theorem keyFits_of_length {pre part : Bytes} (hpre : pre.length ≤ 13)
    (hpart : part.length ≤ protoIobufLen) : keyFits (pre ++ part) = true := by
  have hname : getNoReplyCommand.length = 17 := by decide
  have hdigits : (decimal (pre ++ part).length).length ≤ 5 := by
    rw [length_decimal_le_iff (by decide), List.length_append]
    unfold protoIobufLen at hpart
    omega
  have hseventeen : (decimal 17).length = 2 := by decide
  have htwo : (decimal 2).length = 1 := by decide
  have hdollar : (ascii "$").length = 1 := by decide
  have hstar : (ascii "*").length = 1 := by decide
  have hcrlf : crlf.length = 2 := by decide
  rw [keyFits, decide_eq_true_eq]
  simp only [commandText, lookupArgv, bulkText, List.length_append, List.flatMap_cons,
    List.flatMap_nil, List.length_nil, List.length_cons, hname] at hdigits ⊢
  rw [hseventeen, htwo, hdollar, hstar, hcrlf]
  unfold protoIobufLen at hpart ⊢
  omega

namespace Site

variable (site : Site)

theorem answerError_answersWhen : AnswersWhen site.answerError site.errorSendable :=
  render_answersWhen _ _ _

theorem answerKey_answersWhen {pre part : Bytes} (hpre : pre.length ≤ 13)
    (hpart : part.length ≤ protoIobufLen) :
    AnswersWhen (site.answerKey (pre ++ part)) (site.keySendable (pre ++ part)) := by
  rw [answerKey, if_pos (keyFits_of_length hpre hpart), keySendable]
  cases site.lookup (pre ++ part) with
  | none => exact site.answerError_answersWhen
  | some o =>
      cases o with
      | other => exact site.answerError_answersWhen
      | string s => exact render_answersWhen _ _ _
      | int value => exact render_answersWhen _ _ _

theorem answerFile_answersWhen (stem ext : Bytes) :
    AnswersWhen (site.answerFile stem ext) (site.fileSendable stem ext) := by
  rw [answerFile, fileSendable]
  cases site.files (site.publicDir ++ stem ++ ascii "." ++ ext) with
  | none => exact site.answerError_answersWhen
  | some file =>
      cases hfits : fitsLength file.stSize with
      | false =>
          simp only [hfits, Bool.false_and, buildHttpHeaders_error hfits, error_bind]
          exact ⟨_, rfl⟩
      | true =>
          obtain ⟨code, filetype, hheaders⟩ := buildHttpHeaders_ok ext 200 hfits
          simp only [hfits, Bool.true_and, hheaders, ok_bind]
          cases hend : readsEnd file.reads with
          | false =>
              obtain ⟨e, he⟩ := readAll_error hend
              exact ⟨e, by rw [he, error_bind]⟩
          | true =>
              obtain ⟨body, hbody⟩ := readAll_ok hend
              exact ⟨_, by rw [hbody, ok_bind, pure_eq_ok], code, _, filetype, body, rfl⟩

theorem answerRoute_answersWhen (callback : Callback) {found : List Bytes}
    (hfound : ∀ part ∈ found, part.length ≤ protoIobufLen) :
    AnswersWhen (site.answerRoute callback found) (site.routeSendable callback found) := by
  cases callback with
  | index => exact site.answerKey_answersWhen (by decide) (by decide)
  | page =>
      cases found with
      | nil => exact ⟨_, rfl⟩
      | cons first more =>
          exact site.answerKey_answersWhen (by decide) (hfound first List.mem_cons_self)
  | content =>
      cases found with
      | nil => exact ⟨_, rfl⟩
      | cons first more =>
          exact site.answerKey_answersWhen (by decide) (hfound first List.mem_cons_self)
  | file =>
      rcases found with _ | ⟨stem, _ | ⟨ext, more⟩⟩
      · exact ⟨_, rfl⟩
      · exact ⟨_, rfl⟩
      · exact site.answerFile_answersWhen stem ext

end Site

/-! ## What the route loop hands on -/

theorem groupText_length (data : Bytes) (offsets : Option (Nat × Nat)) :
    (groupText data offsets).length ≤ data.length := by
  cases offsets with
  | none => exact Nat.zero_le _
  | some pair =>
      simp only [groupText, List.length_take, List.length_drop]
      omega

/-- What the route loop hands to a callback is no longer than the path. -/
theorem findRoute_length {ext : External} {urlPath : Bytes} {callback : Callback}
    {found : List Bytes} (routes : List HttpRoute)
    (hroute : findRoute ext urlPath routes = .ok (some (callback, found))) :
    ∀ part ∈ found, part.length ≤ urlPath.length := by
  obtain ⟨re, ovector, rfl⟩ := findRoute_groups routes hroute
  intro part hpart
  obtain ⟨it, -, rfl⟩ := List.mem_map.mp hpart
  exact groupText_length urlPath _

/-- A path of at most a buffer is answered exactly when the site delivers it. -/
theorem Site.answer_answersWhen (site : Site) (ext : External) {urlPath : Bytes}
    (hlen : urlPath.length ≤ protoIobufLen) :
    AnswersWhen (site.answer ext urlPath) (site.delivers ext urlPath) := by
  unfold Site.answer Site.delivers
  cases hroute : findRoute ext urlPath httpRoutes with
  | error e => exact ⟨e, rfl⟩
  | ok route =>
      rcases route with _ | ⟨callback, found⟩
      · exact site.answerError_answersWhen
      · refine site.answerRoute_answersWhen callback fun part hpart => ?_
        exact (findRoute_length httpRoutes hroute part hpart).trans hlen

end Blogd
