import Blogd.Http.StaticFiles

/-! # Lengths and bodies

A response tells the length of its body in its headers before the body is queued. The length is
narrowed to 32 bits and printed into ten bytes, and the body of a file is whatever its reads
return. The two agree as long as the length has at most nine digits and no read fails.
-/

namespace Blogd

/-! ## What the file loop queues -/

/-- A read that returned some bytes. -/
def FileRead.positive : FileRead → Bool
  | .data bytes => bytes ≠ []
  | .error => false

def FileRead.bytes : FileRead → Bytes
  | .data bytes => bytes
  | .error => []

/-- The bytes of the reads in front of the first one that returned none. -/
def readBody (reads : List FileRead) : Bytes :=
  (reads.takeWhile FileRead.positive).flatMap FileRead.bytes

theorem Client.addReplyString_nil (c : Client) : c.addReplyString [] = c := by
  simp [Client.addReplyString]

theorem Client.addReplyString_addReplyString (c : Client) (first second : Bytes) :
    (c.addReplyString first).addReplyString second = c.addReplyString (first ++ second) := by
  unfold Client.addReplyString
  cases haccepts : c.acceptsReply with
  | true =>
      have hsame : ({ c with out := c.out ++ first } : Client).acceptsReply = true := haccepts
      simp [hsame]
  | false => simp [haccepts]

theorem addReply_eq (s : Bytes) (w : World) :
    addReply s w = .ok ⟨⟩ (w.mapClient (·.addReplyString s)) := rfl

/-- The loop ends with the reads, for every client. -/
theorem sendFile_of_readAll {reads : List FileRead} {body : Bytes}
    (hread : readAll reads = .ok body) (w : World) :
    sendFile reads w = .ok ⟨⟩ (w.mapClient (·.addReplyString body)) := by
  induction reads generalizing body w with
  | nil =>
      cases hread
      simp [sendFile, World.mapClient, Client.addReplyString_nil]
  | cons read rest ih =>
      cases read with
      | error => cases hread
      | data bytes =>
          rw [readAll] at hread
          rw [sendFile]
          split at hread
          next hempty =>
            cases hread
            simp [hempty, World.mapClient, Client.addReplyString_nil]
          next hempty =>
            cases hrest : readAll rest with
            | error e =>
                rw [hrest] at hread
                cases hread
            | ok more =>
                rw [hrest] at hread
                cases hread
                rw [if_neg hempty, bind_apply, addReply_eq]
                simp only [ih hrest, World.mapClient, Client.addReplyString_addReplyString]

theorem readAll_readBody {reads : List FileRead} (hend : readsEnd reads = true) :
    readAll reads = .ok (readBody reads) := by
  induction reads with
  | nil => rfl
  | cons read rest ih =>
      cases read with
      | error => cases hend
      | data bytes =>
          rw [readAll, readBody]
          by_cases hempty : bytes = []
          · rw [if_pos hempty, List.takeWhile_cons_of_neg (by simp [FileRead.positive, hempty])]
            rfl
          · rw [readsEnd, decide_eq_false hempty, Bool.false_or] at hend
            rw [if_neg hempty, ih hend, List.takeWhile_cons_of_pos
              (by simp [FileRead.positive, hempty])]
            rfl

/-- A read that fails in front of the end is copied to a client that takes replies. -/
theorem sendFile_overflow {reads : List FileRead} (hend : readsEnd reads = false) {w : World}
    (haccepts : w.client.acceptsReply = true) : ∃ w', sendFile reads w = .error .overflow w' := by
  induction reads generalizing w with
  | nil => cases hend
  | cons read rest ih =>
      cases read with
      | error => exact ⟨w, by simp [sendFile, haccepts]⟩
      | data bytes =>
          by_cases hempty : bytes = []
          · simp [readsEnd, hempty] at hend
          · rw [readsEnd, decide_eq_false hempty, Bool.false_or] at hend
            have hnext : (w.mapClient (·.addReplyString bytes)).client.acceptsReply = true := by
              rw [World.mapClient_client, Client.addReplyString, if_pos haccepts]
              exact haccepts
            obtain ⟨w', hw'⟩ := ih hend hnext
            exact ⟨w', by rw [sendFile, if_neg hempty, bind_apply, addReply_eq]; exact hw'⟩

/-- The first read that returned no bytes did not fail. -/
theorem readsEnd_iff (reads : List FileRead) :
    readsEnd reads = true ↔ (reads.find? fun read => !read.positive) ≠ some .error := by
  induction reads with
  | nil => simp [readsEnd]
  | cons read rest ih =>
      cases read with
      | error => simp [readsEnd, FileRead.positive]
      | data bytes =>
          by_cases hempty : bytes = []
          · simp [readsEnd, FileRead.positive, hempty]
          · simp [readsEnd, FileRead.positive, hempty, ih]

/-- The loop stops at the first read that returned no bytes, with the bytes of the reads in front
of it queued, exactly when that read did not fail. -/
theorem sendFile_stops_iff (reads : List FileRead) :
    (∀ w, sendFile reads w = .ok ⟨⟩ (w.mapClient (·.addReplyString (readBody reads)))) ↔
      (reads.find? fun read => !read.positive) ≠ some .error := by
  rw [← readsEnd_iff]
  constructor
  · intro hstops
    cases hend : readsEnd reads with
    | true => rfl
    | false =>
        -- a client that takes replies tells the difference
        obtain ⟨w', hw'⟩ := @sendFile_overflow reads hend fileWorld rfl
        rw [hstops] at hw'
        cases hw'
  · intro hend w
    exact sendFile_of_readAll (readAll_readBody hend) w

/-- A directory can be opened, and its first read fails. -/
theorem sendFile_directory : sendFile [.error] fileWorld = .error .overflow fileWorld := rfl

/-! ## The length that is told -/

/-- Headers and a body are queued, and the number in the headers is the length of the body and
fits the ten bytes it is printed into. -/
def TellsLength (program : Handler PUnit) (body : Bytes) (w : World) : Prop :=
  ∃ (contentLength code : Nat) (filetype : Bytes) (w' : World), program w = .ok ⟨⟩ w' ∧
    w'.client =
      (w.client.addReplyString (headerText code (decimal contentLength) filetype)).addReplyString
        body ∧
    contentLength = body.length ∧ (decimal contentLength).length + 1 ≤ 10

theorem length_lt_of_tellsLength {program : Handler PUnit} {body : Bytes} {w : World}
    (htells : TellsLength program body w) : body.length < 10 ^ 9 := by
  obtain ⟨_, _, _, _, _, _, rfl, hdigits⟩ := htells
  exact (length_decimal_le_iff (by decide)).mp (Nat.le_of_succ_le_succ hdigits)

/-- The headers of a short body have its length. -/
theorem buildHttpHeaders_length (contentType : Bytes) {n : Nat} (code : Nat) (hn : n < 10 ^ 9) :
    ∃ code' filetype,
      buildHttpHeaders contentType n code = .ok (headerText code' (decimal n) filetype) := by
  obtain ⟨hfits, hmod⟩ := fitsLength_of_lt hn
  obtain ⟨code', filetype, hheaders⟩ := buildHttpHeaders_ok contentType code hfits
  rw [hmod] at hheaders
  exact ⟨code', filetype, hheaders⟩

theorem digits_fit {n : Nat} (hn : n < 10 ^ 9) : (decimal n).length + 1 ≤ 10 :=
  Nat.succ_le_succ ((length_decimal_le_iff (by decide)).mpr hn)

theorem responseHttp_tellsLength {body : Bytes} (hbody : body.length < 10 ^ 9)
    (contentType : Bytes) (code : Nat) (w : World) :
    TellsLength (responseHttp (.str body) contentType code) body w := by
  obtain ⟨code', filetype, hheaders⟩ := buildHttpHeaders_length contentType code hbody
  have hrun : responseHttp (.str body) contentType code w =
      .ok ⟨⟩ ((w.mapClient (·.addReplyString (headerText code' (decimal body.length) filetype))
        ).mapClient (·.addReplyString body)) := by
    simp only [responseHttp, CharPtr.read, bind_apply, lift_ok, hheaders, addReply_eq]
  exact ⟨body.length, code', filetype, _, hrun, rfl, rfl, digits_fit hbody⟩

section File

variable (env : Env) (junk : Nat → UInt8) (readlen qblen : Nat)

theorem responseHttpFile_tellsLength {stem ext content : Bytes} {w : World}
    (hfile : w.server.files (w.server.publicDir ++ stem ++ ascii "." ++ ext) =
      some (.regular content)) (hcontent : content.length < 10 ^ 9) :
    TellsLength (responseHttpFile env junk readlen qblen [stem, ext]) content w := by
  obtain ⟨code, filetype, hheaders⟩ := buildHttpHeaders_length ext 200 hcontent
  have hsize : (OpenFile.regular content).stSize = content.length := rfl
  have hstem : matchText [stem, ext] 0 = .ok stem := rfl
  have hext : matchText [stem, ext] 1 = .ok ext := rfl
  have hread : readAll (OpenFile.regular content).reads = .ok content :=
    readAll_regularReads (Nat.le_refl _)
  have hrun : responseHttpFile env junk readlen qblen [stem, ext] w =
      .ok ⟨⟩ (((w.record (.opened (w.server.publicDir ++ stem ++ ascii "." ++ ext))).mapClient
        (·.addReplyString (headerText code (decimal content.length) filetype))).mapClient
          (·.addReplyString content)) := by
    simp only [responseHttpFile, bind_apply, hstem, hext, lift_ok, get_apply, modify_apply,
      World.record_server, hfile, hsize, hheaders, addReply_eq, sendFile_of_readAll hread]
  exact ⟨content.length, code, filetype, _, hrun, rfl, rfl, digits_fit hcontent⟩

/-- The length that a response tells is the length of the body behind it, and is printed inside
its ten bytes, exactly when it has at most nine digits. -/
theorem contentLength_told_iff (w : World) :
    (∀ (body contentType : Bytes) (code : Nat),
      TellsLength (responseHttp (.str body) contentType code) body w ↔ body.length < 10 ^ 9) ∧
    (∀ stem ext content : Bytes,
      w.server.files (w.server.publicDir ++ stem ++ ascii "." ++ ext) = some (.regular content) →
      (TellsLength (responseHttpFile env junk readlen qblen [stem, ext]) content w ↔
        content.length < 10 ^ 9)) := by
  constructor
  · intro body contentType code
    exact ⟨length_lt_of_tellsLength, fun h => responseHttp_tellsLength h contentType code w⟩
  · intro stem ext content hfile
    exact ⟨length_lt_of_tellsLength, responseHttpFile_tellsLength env junk readlen qblen hfile⟩

end File

theorem contentLength_told_css :
    fileWorld.server.files (ascii "/srv" ++ ascii "/a" ++ ascii "." ++ ascii "css") =
        some (.regular (ascii "x")) ∧
      TellsLength (responseHttpFile sampleEnv (fun _ => 0) protoIobufLen 0 [ascii "/a", ascii "css"])
        (ascii "x") fileWorld :=
  ⟨rfl, ((contentLength_told_iff sampleEnv (fun _ => 0) protoIobufLen 0 fileWorld).2 (ascii "/a")
    (ascii "css") (ascii "x") rfl).mpr (by decide)⟩

/-- A length of ten digits is printed past the end of its buffer, and one of 33 bits is told as
the rest of it. -/
theorem contentLength_not_told :
    responseHttp (.str (List.replicate (10 ^ 9) 97)) (ascii "html") 200 fileWorld =
        .error .overflow fileWorld ∧
      ¬ TellsLength (responseHttp (.str (List.replicate (10 ^ 9) 97)) (ascii "html") 200)
        (List.replicate (10 ^ 9) 97) fileWorld ∧
      buildHttpHeaders (ascii "html") (2 ^ 32 + 5) 200 =
        .ok (headerText 200 (ascii "5") htmlType) := by
  have hlength : (List.replicate (10 ^ 9) (97 : UInt8)).length = 10 ^ 9 := List.length_replicate
  refine ⟨?_, ?_, ?_⟩
  · have hheaders : buildHttpHeaders (ascii "html") (10 ^ 9) 200 = .error .overflow :=
      buildHttpHeaders_error (by decide)
    simp only [responseHttp, CharPtr.read, bind_apply, lift_ok, hlength, hheaders, lift_error]
  · intro htells
    exact absurd (length_lt_of_tellsLength htells) (by rw [hlength]; exact Nat.lt_irrefl _)
  · obtain ⟨mime, hmime, htype⟩ := findMime_html
    rw [buildHttpHeaders_mime hmime (by decide), htype]
    rfl

end Blogd
