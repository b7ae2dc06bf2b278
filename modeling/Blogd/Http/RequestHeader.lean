import Blogd.Foundation.Scan

/-! # The request header parser

The parser walks a single pointer over the received bytes. Every pointer it stores is kept as
the memory behind it. `Fields` has room for `maxHeaderSize` entries, and writing one more is a
fault.
-/

namespace Blogd

def maxHeaderSize : Nat := 20

def defaultHttpVersion : Bytes := ascii "HTTP/1.0"

structure HeaderField where
  fieldName : Bytes
  fieldNameLen : Nat
  value : Option Bytes
  valueLen : Nat
deriving DecidableEq, Repr

structure RequestHeader where
  requestLineStart : Option Bytes
  requestMethod : Option Bytes
  requestMethodLen : Nat
  requestURI : Option Bytes
  requestURILen : Nat
  httpVersion : Option Bytes
  httpVersionLen : Nat
  fields : List HeaderField
deriving DecidableEq, Repr

/-- `h3_request_header_new` -/
def h3RequestHeaderNew : RequestHeader :=
  ⟨none, none, 0, none, 0, none, 0, []⟩

/-! ## The macros of the scanner -/

def notend (p : Bytes) : Except Fault Bool := (deref p).map (· ≠ 0)

def isend (p : Bytes) : Except Fault Bool := (deref p).map (· = 0)

/-- `*p == '\r' && *(p + 1) == '\n'` -/
def iscrlf (p : Bytes) : Except Fault Bool := do
  if (← deref p) = CR then return (← deref p.tail) = LF else return false

/-- `*p != '\r' && *(p + 1) != '\n'`, which is not the negation of `iscrlf`. -/
def notcrlf (p : Bytes) : Except Fault Bool := do
  if (← deref p) ≠ CR then return (← deref p.tail) ≠ LF else return false

/-- `notend(p) && !isspace(*p)` -/
def inMethod (p : Bytes) : Except Fault Bool := do
  if ← notend p then return !isspace (← deref p) else return false

/-- `isspace(*p) && notcrlf(p) && notend(p)` -/
def beforeURI (p : Bytes) : Except Fault Bool := do
  if isspace (← deref p) then (if ← notcrlf p then notend p else return false)
  else return false

/-- `!isspace(*p) && notcrlf(p) && notend(p)` -/
def inURI (p : Bytes) : Except Fault Bool := do
  if !isspace (← deref p) then (if ← notcrlf p then notend p else return false)
  else return false

/-- `isspace(*p) && notcrlf(p)` -/
def beforeVersion (p : Bytes) : Except Fault Bool := do
  if isspace (← deref p) then notcrlf p else return false

/-- `!isspace(*p) && notcrlf(p)`. Nothing here stops at the terminator. -/
def inVersion (p : Bytes) : Except Fault Bool := do
  if !isspace (← deref p) then notcrlf p else return false

/-- `notend(p) && *p != ':'` -/
def inFieldName (p : Bytes) : Except Fault Bool := do
  if ← notend p then return (← deref p) ≠ 58 else return false

/-- `notend(p) && isspace(*p)` -/
def beforeValue (p : Bytes) : Except Fault Bool := do
  if ← notend p then return isspace (← deref p) else return false

/-- `notend(p) && notcrlf(p)` -/
def inValue (p : Bytes) : Except Fault Bool := do
  if ← notend p then notcrlf p else return false

/-- `end(p) || iscrlf(p)` -/
def endOrCrlf (p : Bytes) : Except Fault Bool := do
  if ← isend p then return true else iscrlf p

/-- `iscrlf(p) || end(p)` -/
def crlfOrEnd (p : Bytes) : Except Fault Bool := do
  if ← iscrlf p then return true else isend p

/-! ## The parser -/

/-- `h3_request_line_parse`: the header and the end of the request line, `none` on failure. -/
def h3RequestLineParse (header : RequestHeader) (body : Bytes) :
    Except Fault (RequestHeader × Option Bytes) := do
  let header := { header with requestLineStart := some body }
  let p ← scanWhile inMethod body
  if ← endOrCrlf p then
    return (header, none)
  else
    let header := { header with
      requestMethod := some body
      requestMethodLen := body.length - p.length }
    let uri ← scanWhile beforeURI p
    let p ← scanWhile inURI uri
    let header := { header with requestURI := some uri, requestURILen := uri.length - p.length }
    if ← crlfOrEnd p then
      return ({ header with httpVersion := some defaultHttpVersion }, some p)
    else
      let version ← scanWhile beforeVersion p
      let p ← scanWhile inVersion version
      return ({ header with
        httpVersion := some version
        httpVersionLen := version.length - p.length }, some p)

/-- Where the parser stopped: the header so far, its return value and its scan pointer. -/
structure ParseResult where
  header : RequestHeader
  status : Int
  scan : Bytes
deriving DecidableEq, Repr

/-- The field loop, with the number of entries of `Fields` that are still free. -/
def h3ParseFields : Nat → RequestHeader → Bytes → Except Fault ParseResult
  | 0, _, _ => .error .overflow
  | free + 1, header, name => do
      let p ← scanWhile inFieldName name
      -- the entry is counted before its value is known
      let named : HeaderField := ⟨name, name.length - p.length, none, 0⟩
      let failed : RequestHeader := { header with fields := header.fields ++ [named] }
      let p := p.drop 1
      if ← endOrCrlf p then
        return ⟨failed, -1, p⟩
      else
        let value ← scanWhile beforeValue p
        if ← endOrCrlf value then
          return ⟨failed, -1, value⟩
        else
          let p ← scanWhile inValue value
          let field := { named with value := some value, valueLen := value.length - p.length }
          let header := { header with fields := header.fields ++ [field] }
          let p := p.drop 2
          if ← iscrlf p then
            return ⟨header, 0, p⟩
          else if ← notend p then
            h3ParseFields free header p
          else
            return ⟨header, 0, p⟩

/-- `h3_request_header_parse`. When the request line fails, the method is still NULL. -/
def h3RequestHeaderParse (header : RequestHeader) (body : Bytes) : Except Fault ParseResult := do
  match ← h3RequestLineParse header body with
  | (header, none) => return ⟨header, -1, body⟩
  | (header, some p) =>
      if ← isend p then
        return ⟨header, -1, p⟩
      else
        let p := p.drop 2
        if ← isend p then
          return ⟨header, 0, p⟩
        else
          h3ParseFields maxHeaderSize { header with fields := [] } p

end Blogd
