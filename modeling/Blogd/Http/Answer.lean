import Blogd.Http.Process
import Blogd.Redis.Lookup

/-! # What the blog answers

A site is the store and the files. It answers a path with the bytes of a response, or not at all
where the program would leave the defined behaviour. The handler of the program answers as the
site does, through the protocol of the store.
-/

namespace Blogd

structure Site where
  publicDir : Bytes
  lookup : Bytes → Option Robj
  files : Bytes → Option OpenFile

def Server.site (s : Server) : Site := ⟨s.publicDir, s.db.dict, s.files⟩

/-! ## Answers -/

/-- The response for a content. -/
def render (content : CharPtr) (contentType : Bytes) (code : Nat) : Except Fault Bytes := do
  let body ← content.read
  let headers ← buildHttpHeaders contentType body.length code
  return headers ++ body

/-- The response to what is no GET request, or has no URL. -/
def badRequest : Bytes := headerText 400 (decimal 0) []

def errorKey : Bytes := pageErrorKeyPrefix ++ ascii "404"

/-- The lookup found no string. -/
def isMissing : Option Robj → Bool
  | none => true
  | some .other => true
  | some _ => false

/-- The content of the error page, empty when none is stored. -/
def errorReply : Option Robj → CharPtr
  | none => .str []
  | some .other => .str []
  | some o => if o.ptr = .null then .str [] else o.ptr

/-- The lookup command for the key fits the memory of the query buffer. -/
def keyFits (key : Bytes) : Bool := (commandText (lookupArgv key)).length ≤ 2 * protoIobufLen

/-- The bytes of the reads of a file, in order. -/
def readAll : List FileRead → Except Fault Bytes
  | [] => .ok []
  | .error :: _ => .error .overflow
  | .data bytes :: rest => if bytes = [] then .ok [] else do return bytes ++ (← readAll rest)

namespace Site

variable (site : Site)

def answerError : Except Fault Bytes :=
  render (errorReply (site.lookup errorKey)) (ascii "html") 404

def answerKey (key : Bytes) : Except Fault Bytes :=
  if keyFits key then
    match site.lookup key with
    | none => site.answerError
    | some .other => site.answerError
    | some o => render o.ptr (ascii "html") 200
  else .error .overflow

def answerFile (stem ext : Bytes) : Except Fault Bytes :=
  match site.files (site.publicDir ++ stem ++ ascii "." ++ ext) with
  | none => site.answerError
  | some file => do
      let headers ← buildHttpHeaders ext file.stSize 200
      return headers ++ (← readAll file.reads)

def answerRoute (callback : Callback) (found : List Bytes) : Except Fault Bytes := do
  match callback with
  | .index => site.answerKey (pageKeyPrefix ++ ascii "1")
  | .page => site.answerKey (pageKeyPrefix ++ (← matchText found 0))
  | .content => site.answerKey (postKeyPrefix ++ (← matchText found 0))
  | .file => site.answerFile (← matchText found 0) (← matchText found 1)

/-- The answer to a path. -/
def answer (ext : External) (urlPath : Bytes) : Except Fault Bytes := do
  match ← findRoute ext urlPath httpRoutes with
  | some (callback, found) => site.answerRoute callback found
  | none => site.answerError

/-! ## What is logged -/

def keyEvents (key : Bytes) : List Event :=
  if keyFits key then
    lookupEvents key ++ if isMissing (site.lookup key) then lookupEvents errorKey else []
  else [.call (lookupArgv key) []]

def fileEvents (stem ext : Bytes) : List Event :=
  .opened (site.publicDir ++ stem ++ ascii "." ++ ext) ::
    match site.files (site.publicDir ++ stem ++ ascii "." ++ ext) with
    | none => lookupEvents errorKey
    | some _ => []

/-- The events of a callback. Without the group it needs, it stops at once. -/
def routeEvents (callback : Callback) (found : List Bytes) : List Event :=
  match callback, found with
  | .index, _ => site.keyEvents (pageKeyPrefix ++ ascii "1")
  | .page, first :: _ => site.keyEvents (pageKeyPrefix ++ first)
  | .content, first :: _ => site.keyEvents (postKeyPrefix ++ first)
  | .file, first :: second :: _ => site.fileEvents first second
  | _, _ => []

def events (ext : External) (urlPath : Bytes) : List Event :=
  match findRoute ext urlPath httpRoutes with
  | .ok (some (callback, found)) => .route urlPath callback found :: site.routeEvents callback found
  | .ok none => lookupEvents errorKey
  | .error _ => []

end Site

/-! ## Programs that answer -/

/-- From one state to another a response was queued, and the client stayed ready. -/
structure Served (w w' : World) (events : List Event) (bytes : Bytes) : Prop where
  server : w'.server = w.server
  log : w'.log = w.log ++ events
  out : w'.client.out = w.client.out ++ bytes
  httpQuerybuf : w'.client.httpQuerybuf = w.client.httpQuerybuf
  ready : w'.client.Ready

/-- A program answers: it queues the bytes and returns, or it stops with the fault. -/
def Answers (program : Handler PUnit) (w : World) (events : List Event) :
    Except Fault Bytes → Prop
  | .ok bytes => ∃ w', program w = .ok ⟨⟩ w' ∧ Served w w' events bytes
  | .error e => ∃ w', program w = .error e w' ∧ w'.server = w.server ∧ w'.log = w.log ++ events

theorem Served.trans {w w₁ w₂ : World} {events₁ events₂ : List Event} {bytes₁ bytes₂ : Bytes}
    (hfirst : Served w w₁ events₁ bytes₁) (hsecond : Served w₁ w₂ events₂ bytes₂) :
    Served w w₂ (events₁ ++ events₂) (bytes₁ ++ bytes₂) where
  server := hsecond.server.trans hfirst.server
  log := by rw [hsecond.log, hfirst.log, List.append_assoc]
  out := by rw [hsecond.out, hfirst.out, List.append_assoc]
  httpQuerybuf := hsecond.httpQuerybuf.trans hfirst.httpQuerybuf
  ready := hsecond.ready

/-- A step that queues nothing, followed by a program that answers. -/
theorem Answers.after {first : Handler PUnit} {next : Handler PUnit} {w w₁ : World}
    {events₁ events₂ : List Event} {reply : Except Fault Bytes} (hfirst : first w = .ok ⟨⟩ w₁)
    (hserved : Served w w₁ events₁ []) (hnext : Answers next w₁ events₂ reply) :
    Answers (first >>= fun _ => next) w (events₁ ++ events₂) reply := by
  cases reply with
  | ok bytes =>
      obtain ⟨w₂, hrun, hsecond⟩ := hnext
      refine ⟨w₂, by simp only [bind_apply, hfirst, hrun], ?_⟩
      simpa using hserved.trans hsecond
  | error e =>
      obtain ⟨w₂, hrun, hserver, hlog⟩ := hnext
      refine ⟨w₂, by simp only [bind_apply, hfirst, hrun], hserver.trans hserved.server, ?_⟩
      rw [hlog, hserved.log, List.append_assoc]

end Blogd
