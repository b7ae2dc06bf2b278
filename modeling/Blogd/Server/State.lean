import Blogd.Redis.Sds
import Blogd.Redis.Object
import Blogd.Content.InitContents
import Blogd.Http.ParseUrl

/-! # The state of the server

One connection at a time is served, so that the state a handler works on is the server, the
client of the connection and a log of what was done. The log is not part of the program. It
records what the results speak about: commands, reloads, routes and opened files.
-/

namespace Blogd

def protoIobufLen : Nat := 1024 * 16
def protoInlineMaxSize : Nat := 1024 * 64
def protoMbulkBigArg : Nat := 1024 * 32

/-- `server.client_max_querybuf_len`, which no option changes. -/
def clientMaxQuerybufLen : Nat := 1024 * 1024 * 1024

/-! ## Clients -/

inductive ReqType
  | none
  | inline
  | multibulk
deriving DecidableEq, Repr

structure ClientFlags where
  slave : Bool
  master : Bool
  multi : Bool
  blocked : Bool
  closeAfterReply : Bool
  lua : Bool
  asking : Bool
  dirtyExec : Bool
  pubsub : Bool
  masterForceReply : Bool
  replyOff : Bool
  replySkip : Bool
  replySkipNext : Bool
deriving DecidableEq, Repr

/-- `flags = 0` -/
def ClientFlags.clear : ClientFlags :=
  ⟨false, false, false, false, false, false, false, false, false, false, false, false, false⟩

/-- A connected client. `bulklen` is `none` where the field holds -1, and `out` is everything
queued for the socket. -/
structure Client where
  querybuf : Sds
  querybufPeak : Nat
  httpQuerybuf : Sds
  reqtype : ReqType
  multibulklen : Nat
  bulklen : Option Nat
  argv : List Bytes
  flags : ClientFlags
  authenticated : Bool
  mstate : List (List Bytes)
  lastinteraction : Nat
  commandLastError : Option Bytes
  commandLastReply : CharPtr
  freed : Bool
  out : Bytes

/-- `createClient` at a time. -/
def createClient (unixtime : Nat) : Client where
  querybuf := Sds.empty
  querybufPeak := 0
  httpQuerybuf := Sds.empty
  reqtype := .none
  multibulklen := 0
  bulklen := none
  argv := []
  flags := .clear
  authenticated := false
  mstate := []
  lastinteraction := unixtime
  commandLastError := none
  commandLastReply := .null
  freed := false
  out := []

/-! ## Files -/

/-- What one call of `read` on a file returns. -/
inductive FileRead
  | data (bytes : Bytes)
  | error
deriving DecidableEq, Repr

/-- A file that `open` found: the size in its status, and the results of the successive reads.
Reads after the last one return 0. -/
structure OpenFile where
  stSize : Nat
  reads : List FileRead
deriving DecidableEq, Repr

def bufsiz : Nat := 8192

/-- The reads of a regular file, a buffer at a time. -/
def regularReads : Nat → Bytes → List FileRead
  | 0, _ => []
  | fuel + 1, content =>
      if content = [] then []
      else .data (content.take bufsiz) :: regularReads fuel (content.drop bufsiz)

/-- A regular file that is read without error and does not change. -/
def OpenFile.regular (content : Bytes) : OpenFile :=
  ⟨content.length, regularReads content.length content⟩

/-! ## The server -/

structure Server where
  publicDir : Bytes
  reloadContentQuery : Option Bytes
  contentOptions : ContentOptions
  contentDir : ContentDir
  files : Bytes → Option OpenFile
  db : Db
  unixtime : Nat
  mstime : Nat
  clientsArePaused : Bool
  requirepass : Option Bytes
  clusterEnabled : Bool
  maxmemory : Nat
  masterhost : Option Bytes
  replConnected : Bool
  replServeStaleData : Bool
  loading : Bool
  luaTimedout : Bool

/-- The callbacks of the route table. -/
inductive Callback
  | index
  | file
  | page
  | content
deriving DecidableEq, Repr

inductive Event
  /-- `callRedisCommand` begins, with the content of `querybuf`. -/
  | call (argvs : List Bytes) (querybuf : Bytes)
  /-- A command was decoded and given to `processCommand`. -/
  | command (argv : List Bytes)
  /-- A command was executed. -/
  | exec (argv : List Bytes)
  /-- `callRedisCommand` ends, with the content of `querybuf`. -/
  | ret (querybuf : Bytes)
  /-- `initContents` ran. -/
  | reload
  /-- A path was routed to a callback, with the texts of the groups of its pattern. -/
  | route (urlPath : Bytes) (callback : Callback) (found : List Bytes)
  | opened (path : Bytes)
deriving DecidableEq, Repr

structure World where
  server : Server
  client : Client
  log : List Event

abbrev Handler := EStateM Fault World

/-- What lies outside the modelled code: the libraries, and the parts of Redis that serve
commands other than the one the blog uses. -/
structure Env extends External where
  processInlineBuffer : Handler Bool
  otherCommand : List Bytes → Handler Bool
  clusterRedirect : World → List Bytes → Option Bytes
  freeMemoryIfNeeded : Handler PUnit

/-- What memory held before it was written: the URL fields on the stack, and the bytes behind
the two buffers when they grow. -/
structure Garbage where
  u : HttpParserUrl
  httpQuerybuf : Nat → UInt8
  querybuf : Nat → UInt8

namespace World

def mapClient (w : World) (f : Client → Client) : World := { w with client := f w.client }

def record (w : World) (event : Event) : World := { w with log := w.log ++ [event] }

@[simp] theorem mapClient_client (w : World) (f : Client → Client) :
    (w.mapClient f).client = f w.client := rfl

@[simp] theorem mapClient_server (w : World) (f : Client → Client) :
    (w.mapClient f).server = w.server := rfl

@[simp] theorem mapClient_log (w : World) (f : Client → Client) :
    (w.mapClient f).log = w.log := rfl

@[simp] theorem record_client (w : World) (event : Event) : (w.record event).client = w.client :=
  rfl

@[simp] theorem record_server (w : World) (event : Event) : (w.record event).server = w.server :=
  rfl

@[simp] theorem record_log (w : World) (event : Event) :
    (w.record event).log = w.log ++ [event] := rfl

end World

/-! ## Replies -/

/-- The clients that `prepareClientToWrite` and the reply buffer accept data for. -/
def Client.acceptsReply (c : Client) : Bool :=
  !c.flags.closeAfterReply &&
    (c.flags.lua ||
      (!c.flags.replyOff && !c.flags.replySkip && (!c.flags.master || c.flags.masterForceReply)))

/-- `addReplyString` -/
def Client.addReplyString (c : Client) (s : Bytes) : Client :=
  if c.acceptsReply then { c with out := c.out ++ s } else c

/-- `addReplyError` -/
def Client.addReplyError (c : Client) (err : Bytes) : Client :=
  c.addReplyString (ascii "-ERR " ++ err ++ crlf)

/-- `addReplyErrorFormat`: the text has its line ends replaced. -/
def Client.addReplyErrorFormat (c : Client) (err : Bytes) : Client :=
  c.addReplyError (err.map fun b => if b = CR ∨ b = LF then 32 else b)

end Blogd
