import Blogd.Redis.Command

/-! # Responses

Each route callback looks a key up, or opens a file, and queues a response. A missing key is
answered with the stored error page.
-/

namespace Blogd

/-! ## Headers -/

structure HttpMime where
  ext : Bytes
  filetype : Bytes
deriving DecidableEq, Repr

def httpMimes : List HttpMime :=
  [⟨ascii "gif", ascii "image/gif"⟩,
    ⟨ascii "jpg", ascii "image/jpeg"⟩,
    ⟨ascii "jpeg", ascii "image/jpeg"⟩,
    ⟨ascii "png", ascii "image/png"⟩,
    ⟨ascii "htm", ascii "text/html; charset=UTF-8"⟩,
    ⟨ascii "html", ascii "text/html; charset=UTF-8"⟩,
    ⟨ascii "js", ascii "application/javascript"⟩,
    ⟨ascii "css", ascii "text/css"⟩,
    ⟨ascii "woff", ascii "application/font-woff"⟩,
    ⟨ascii "woff2", ascii "application/font-woff2"⟩,
    ⟨ascii "ttf", ascii "application/octet-stream"⟩]

/-- The first entry whose extension the content type begins with. -/
def findMime (contentType : Bytes) : Option HttpMime :=
  httpMimes.find? fun mime => mime.ext.isPrefixOf contentType

def statusLine (code : Nat) : Bytes :=
  if code = 500 then ascii "500 Internal Server Error\r\n"
  else if code = 404 then ascii "404 Not Found\r\n"
  else if code = 400 then ascii "400 Bad Request\r\n"
  else ascii "200 OK\r\n"

/-- The type that is sent: errors are sent as text, whatever was asked for. -/
def sentType (code : Nat) (filetype : Bytes) : Bytes :=
  if code = 500 ∨ code = 404 ∨ code = 400 then ascii "text/html" else filetype

def fixedHeaders : Bytes :=
  ascii "Server: Blogd\r\n" ++
  ascii "Connection: close\r\n" ++
  ascii "Cache-Control: no-store, must-revalidate\r\n" ++
  ascii "Pragma: no-cache\r\n" ++
  ascii "Expires: 0\r\n" ++
  ascii "x-content-type-options:nosniff\r\n" ++
  ascii "x-frame-options:SAMEORIGIN\r\n" ++
  ascii "x-xss-protection:1; mode=block\r\n"

/-- The header text for a status, a printed length and a type. -/
def headerText (code : Nat) (contentLengthString filetype : Bytes) : Bytes :=
  ascii "HTTP/1.1 " ++ statusLine code ++ fixedHeaders ++
    ascii "Content-length: " ++ contentLengthString ++ ascii "\r\n" ++
    ascii "Content-Type: " ++ sentType code filetype ++ ascii "\r\n\r\n"

/-- `buildHttpHeaders`. The length is an unsigned integer of 32 bits, printed into ten bytes. -/
def buildHttpHeaders (contentType : Bytes) (contentLength code : Nat) : Except Fault Bytes :=
  let contentLengthString := decimal (contentLength % 2 ^ 32)
  if contentLengthString.length + 1 > 10 then .error .overflow
  else
    match findMime contentType with
    | none => .ok (headerText 400 contentLengthString [])
    | some mime => .ok (headerText code contentLengthString mime.filetype)

/-! ## Queuing a response -/

/-- The string behind a pointer. -/
def CharPtr.read : CharPtr → Except Fault Bytes
  | .null => .error .nullPointer
  | .wild => .error .wildPointer
  | .str s => .ok s

/-- `responseHttp` -/
def responseHttp (content : CharPtr) (contentType : Bytes) (code : Nat) : Handler PUnit := do
  let body ← lift content.read
  let headers ← lift (buildHttpHeaders contentType body.length code)
  addReply headers
  addReply body

/-! ## The callbacks -/

section Callbacks

variable (env : Env) (junk : Nat → UInt8) (readlen qblen : Nat)

/-- `responseHttpError` -/
def responseHttpError (code : Nat) : Handler PUnit := do
  let errorCode ← lift (sprintfInt 10 code)
  callRedisCommand env junk readlen qblen [getNoReplyCommand, pageErrorKeyPrefix ++ errorCode]
  let reply := (← get).client.commandLastReply
  responseHttp (if reply = .null then .str [] else reply) (ascii "html") code

/-- What three of the callbacks do with the key they build. -/
def responseHttpKey (key : Bytes) : Handler PUnit := do
  callRedisCommand env junk readlen qblen [getNoReplyCommand, key]
  let c := (← get).client
  match c.commandLastError with
  | some _ => responseHttpError env junk readlen qblen 404
  | none => responseHttp c.commandLastReply (ascii "html") 200

/-- `matches[i]`. The array holds one entry for each group of the pattern. -/
def matchText (found : List Bytes) (i : Nat) : Except Fault Bytes :=
  match found[i]? with
  | some s => .ok s
  | none => .error .wildPointer

/-- `responseHttpIndex` -/
def responseHttpIndex : Handler PUnit :=
  responseHttpKey env junk readlen qblen (pageKeyPrefix ++ ascii "1")

/-- `responseHttpPage` -/
def responseHttpPage (found : List Bytes) : Handler PUnit := do
  responseHttpKey env junk readlen qblen (pageKeyPrefix ++ (← lift (matchText found 0)))

/-- `responseHttpContent` -/
def responseHttpContent (found : List Bytes) : Handler PUnit := do
  responseHttpKey env junk readlen qblen (postKeyPrefix ++ (← lift (matchText found 0)))

/-- The loop that sends a file, until a read returns nothing. A failed read is passed on as a
length of all ones, which only a client that takes no replies survives. -/
def sendFile : List FileRead → Handler PUnit
  | [] => pure ⟨⟩
  | .error :: rest => do
      if (← get).client.acceptsReply then throw .overflow
      sendFile rest
  | .data bytes :: rest => do
      if bytes = [] then pure ⟨⟩
      else
        addReply bytes
        sendFile rest

/-- `responseHttpFile` -/
def responseHttpFile (found : List Bytes) : Handler PUnit := do
  let stem ← lift (matchText found 0)
  let ext ← lift (matchText found 1)
  let filePath := (← get).server.publicDir ++ stem ++ ascii "." ++ ext
  modify fun w => w.record (.opened filePath)
  match (← get).server.files filePath with
  | none => responseHttpError env junk readlen qblen 404
  | some file => do
      let headers ← lift (buildHttpHeaders ext file.stSize 200)
      addReply headers
      sendFile file.reads

/-- The callback of a route. -/
def Callback.run (callback : Callback) (found : List Bytes) : Handler PUnit :=
  match callback with
  | .index => responseHttpIndex env junk readlen qblen
  | .file => responseHttpFile env junk readlen qblen found
  | .page => responseHttpPage env junk readlen qblen found
  | .content => responseHttpContent env junk readlen qblen found

end Callbacks

end Blogd
