import Blogd.Http.RequestHeader
import Blogd.Http.Response

/-! # Processing a request

The handler reads what the socket has, parses it as a request and routes the path of its URL.
It parses on every read and reads at the length of the other buffer.
-/

namespace Blogd

/-! ## Routes -/

structure HttpRoute where
  pattern : Bytes
  callback : Callback
deriving DecidableEq, Repr

def httpRoutes : List HttpRoute :=
  [⟨ascii "^/$", .index⟩,
    ⟨ascii "(.*?)\\.(gif|jpg|jpeg|png|htm|html|js|css|woff|woff2|ttf)", .file⟩,
    ⟨ascii "/page/(\\d)+", .page⟩,
    ⟨ascii "/(.*)", .content⟩]

/-- The route loop: the first route whose pattern matches, with the texts of its groups. -/
def findRoute (ext : External) (urlPath : Bytes) :
    List HttpRoute → Except Fault (Option (Callback × List Bytes))
  | [] => .ok none
  | r :: rest => do
      match ← pregMatch ext r.pattern urlPath with
      | some found => return some (r.callback, found)
      | none => findRoute ext urlPath rest

section Handler

variable (env : Env) (junk : Nat → UInt8) (readlen qblen : Nat)

/-- Running the route of a path. -/
def routeRequest (urlPath : Bytes) : Handler PUnit := do
  match ← lift (findRoute env.toExternal urlPath httpRoutes) with
  | some (callback, found) => do
      modify fun w => w.record (.route urlPath callback found)
      callback.run env junk readlen qblen found
  | none => responseHttpError env junk readlen qblen 404

/-! ## Reloading -/

/-- `initContents` on the directory of the server. Its commands are executed as they come, also
when it does not return. -/
def runInitContents : Handler PUnit := do
  let w ← get
  let server := w.server
  match initContents env.toExternal server.contentOptions server.contentDir [] with
  | .ok _ commands =>
      set { w with server := { server with db := server.db.setAll commands } }
  -- what was stored before the fault stays in the store
  | .error e commands => do
      set { w with server := { server with db := server.db.setAll commands } }
      throw e

/-- The reload that a query can trigger. -/
def reloadContent (urlQuery : Bytes) : Handler PUnit := do
  match (← get).server.reloadContentQuery with
  | none => throw .nullPointer
  | some pattern =>
      match ← lift (pregMatch env.toExternal pattern urlQuery) with
      | some _ => do
          modify fun w => w.record .reload
          runInitContents env
      | none => pure ⟨⟩

/-! ## The request -/

/-- `strncmp(method, "GET ", 4) == 0 || strncmp(method, "get ", 4) == 0` -/
def isGet (method : Bytes) : Bool :=
  (cstr method).take 4 = ascii "GET " || (cstr method).take 4 = ascii "get "

/-- `strndup(s + off, len)` of a string. Nothing is read when the length is zero. -/
def strndupAt (s : Bytes) (field : FieldData) : Except Fault Bytes :=
  if field.len = 0 then .ok []
  else if field.off ≤ s.length then .ok ((s.drop field.off).take field.len)
  else .error .outOfBounds

theorem strndupAt_sublist {s text : Bytes} {field : FieldData}
    (hdup : strndupAt s field = .ok text) : text.Sublist s := by
  unfold strndupAt at hdup
  split at hdup
  next =>
    cases hdup
    exact List.nil_sublist _
  next =>
    split at hdup
    next =>
      cases hdup
      exact (List.take_sublist _ _).trans (List.drop_sublist _ _)
    next => cases hdup

/-- A pointer that the code uses without a test for NULL. -/
def nonNull : Option Bytes → Except Fault Bytes
  | none => .error .nullPointer
  | some mem => .ok mem

/-- The path and the query of a URL, as the handler takes them from the parsed fields. -/
def urlParts (fullUrl : Bytes) (u : HttpParserUrl) : Except Fault (Bytes × Bytes) := do
  let urlPath ← strndupAt fullUrl (u.fieldData .path)
  let urlQuery ← strndupAt fullUrl (u.fieldData .query)
  return (urlPath, urlQuery)

theorem urlParts_eq_ok {url urlPath urlQuery : Bytes} {u : HttpParserUrl} :
    urlParts url u = .ok (urlPath, urlQuery) ↔
      strndupAt url (u.fieldData .path) = .ok urlPath ∧
        strndupAt url (u.fieldData .query) = .ok urlQuery := by
  unfold urlParts
  cases strndupAt url (u.fieldData .path) with
  | error fault => simp [error_bind]
  | ok path =>
      cases strndupAt url (u.fieldData .query) with
      | error fault => simp [ok_bind, error_bind]
      | ok query => simp [ok_bind, pure_eq_ok]

/-- Answering a GET request for a URL. The fields that the parser does not set are those of `u`. -/
def answerUrl (u : HttpParserUrl) (fullUrl : Bytes) : Handler PUnit :=
  match httpParserParseUrl fullUrl u with
  | none => responseHttp (.str []) [] 400
  | some u => do
      let (urlPath, urlQuery) ← lift (urlParts fullUrl u)
      reloadContent env urlQuery
      routeRequest env junk readlen qblen urlPath

/-- Answering a request whose header was parsed, with or without success. -/
def answerHeader (u : HttpParserUrl) (header : RequestHeader) : Handler PUnit := do
  let method ← lift (nonNull header.requestMethod)
  if isGet method then
    let uri ← lift (nonNull header.requestURI)
    answerUrl env junk readlen qblen u (cstr (uri.take header.requestURILen))
  else
    responseHttp (.str []) [] 400

end Handler

/-! ## The handler -/

/-- What a call of `read` on the socket returns. -/
inductive SocketRead
  | data (bytes : Bytes)
  | again
  | error
deriving DecidableEq, Repr

/-- The length the handler reads: less than a buffer only while a large argument is missing. -/
def readLength (c : Client) : Nat :=
  match c.bulklen with
  | some bulklen =>
      if c.reqtype = .multibulk ∧ c.multibulklen ≠ 0 ∧ bulklen ≥ protoMbulkBigArg then
        min (bulklen + 2 - c.querybuf.len) protoIobufLen
      else protoIobufLen
  | none => protoIobufLen

/-- `freeClient` at the end of the handler. -/
def freeClient : Handler PUnit := modify fun w => w.mapClient fun c => { c with freed := true }

/-- Taking the bytes of one read into the request buffer, at the length of the query buffer. -/
def receive (http : Sds) (qblen : Nat) (bytes : Bytes) : Except Fault Sds := do
  let http ← http.write qblen bytes
  http.incrLen bytes.length

/-- `processHttpRequestFromClient`. A read returns at most as many bytes as were asked for, and
none of them at the end of the stream. -/
def processHttpRequestFromClient (env : Env) (garbage : Garbage) (input : SocketRead) :
    Handler PUnit := do
  let c := (← get).client
  let readlen := readLength c
  let qblen := c.querybuf.len
  let http := c.httpQuerybuf.makeRoomFor garbage.httpQuerybuf readlen
  modify fun w => w.mapClient fun c =>
    { c with querybufPeak := max c.querybufPeak qblen, httpQuerybuf := http }
  match input with
  | .again => pure ⟨⟩
  | .error => freeClient
  | .data bytes =>
      if bytes.take readlen = [] then freeClient
      else
        -- written at the length of the query buffer, not at that of the request buffer
        let http ← lift (receive http qblen (bytes.take readlen))
        modify fun w => w.mapClient fun c => { c with httpQuerybuf := http }
        let parsed ← lift (h3RequestHeaderParse h3RequestHeaderNew http.mem)
        -- what the parser returned is not looked at
        answerHeader env garbage.querybuf readlen qblen garbage.u parsed.header

end Blogd
