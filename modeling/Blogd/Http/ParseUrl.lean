import Blogd.Foundation.Fault

/-! # The URL parser

A character state machine that records, for each component it meets, where the component starts
and how long it is. Components it does not meet keep whatever the structure held before. The
parser is built without the strict mode.
-/

namespace Blogd

/-! ## Character classes -/

/-- One bit for each of the first 256 byte values, eight values to an entry. -/
def normalUrlChar : List UInt8 :=
  [0, 18, 0, 0, 246, 255, 255, 127, 255, 255, 255, 255, 255, 255, 255, 127,
    0, 0, 0, 0, 0, 0, 0, 0, 0, 0, 0, 0, 0, 0, 0, 0]

def bitAt (table : List UInt8) (i : UInt8) : Bool :=
  (table.getD (i >>> 3).toNat 0) &&& (1 <<< (i &&& 7)) ≠ 0

def isUrlChar (c : UInt8) : Bool := bitAt normalUrlChar c || c &&& 128 ≠ 0

def lower (c : UInt8) : UInt8 := c ||| 32

def isAlpha (c : UInt8) : Bool := 97 ≤ lower c && lower c ≤ 122

def isAlphanum (c : UInt8) : Bool := isAlpha c || isdigit c

def isHex (c : UInt8) : Bool := isdigit c || (97 ≤ lower c && lower c ≤ 102)

def isMark (c : UInt8) : Bool := (ascii "-_.!~*'()").contains c

def isUserinfoChar (c : UInt8) : Bool :=
  isAlphanum c || isMark c || (ascii "%;:&=+$,").contains c

def isHostChar (c : UInt8) : Bool := isAlphanum c || (ascii ".-_").contains c

/-! ## The character state machine -/

inductive UrlState
  | dead
  | spacesBeforeUrl
  | schema
  | schemaSlash
  | schemaSlashSlash
  | serverStart
  | server
  | serverWithAt
  | path
  | queryStringStart
  | queryString
  | fragmentStart
  | fragment
deriving DecidableEq, Repr

/-- The transitions that the three server states share. -/
def parseServerChar (c : UInt8) : UrlState :=
  if c = 47 then .path
  else if c = 63 then .queryStringStart
  else if c = 64 then .serverWithAt
  else if isUserinfoChar c || c = 91 || c = 93 then .server
  else .dead

/-- `parse_url_char` -/
def parseUrlChar (s : UrlState) (c : UInt8) : UrlState :=
  if c = 32 || c = CR || c = LF then .dead
  else
    match s with
    | .spacesBeforeUrl =>
        if c = 47 || c = 42 then .path else if isAlpha c then .schema else .dead
    | .schema => if isAlpha c then .schema else if c = 58 then .schemaSlash else .dead
    | .schemaSlash => if c = 47 then .schemaSlashSlash else .dead
    | .schemaSlashSlash => if c = 47 then .serverStart else .dead
    | .serverWithAt => if c = 64 then .dead else parseServerChar c
    | .serverStart => parseServerChar c
    | .server => parseServerChar c
    | .path =>
        if isUrlChar c then .path
        else if c = 63 then .queryStringStart
        else if c = 35 then .fragmentStart
        else .dead
    | .queryStringStart | .queryString =>
        if isUrlChar c then .queryString
        else if c = 63 then .queryString
        else if c = 35 then .fragmentStart
        else .dead
    | .fragmentStart =>
        if isUrlChar c then .fragment
        else if c = 63 then .fragment
        else if c = 35 then .fragmentStart
        else .dead
    | .fragment =>
        if isUrlChar c then .fragment else if c = 63 || c = 35 then .fragment else .dead
    | .dead => .dead

/-! ## Components -/

inductive UrlField
  | schema
  | host
  | port
  | path
  | query
  | fragment
  | userinfo
deriving DecidableEq, Repr

/-- An offset and a length, both of 16 bits. -/
structure FieldData where
  off : Nat
  len : Nat
deriving DecidableEq, Repr

structure HttpParserUrl where
  fieldSet : UrlField → Bool
  port : Nat
  fieldData : UrlField → FieldData

namespace HttpParserUrl

def setData (u : HttpParserUrl) (uf : UrlField) (data : FieldData) : HttpParserUrl :=
  { u with fieldData := fun f => if f = uf then data else u.fieldData f }

def mark (u : HttpParserUrl) (uf : UrlField) : HttpParserUrl :=
  { u with fieldSet := fun f => f = uf || u.fieldSet f }

/-- `u->field_data[uf].len++` -/
def incrLen (u : HttpParserUrl) (uf : UrlField) : HttpParserUrl :=
  u.setData uf ⟨(u.fieldData uf).off, ((u.fieldData uf).len + 1) % 2 ^ 16⟩

end HttpParserUrl

/-- The component a state works on. `none` is a delimiter. -/
def UrlState.field : UrlState → Option UrlField
  | .schema => some .schema
  | .serverWithAt | .server => some .host
  | .path => some .path
  | .queryString => some .query
  | .fragment => some .fragment
  | _ => none

structure UrlScan where
  s : UrlState
  oldUf : Option UrlField
  foundAt : Bool
  u : HttpParserUrl

/-- The loop of `http_parser_parse_url`, at the character with index `i`. -/
def scanUrl : Nat → UrlScan → Bytes → Option UrlScan
  | _, scan, [] => some scan
  | i, scan, c :: rest =>
      let s := parseUrlChar scan.s c
      if s = .dead || s = .spacesBeforeUrl then none
      else
        match s.field with
        | none => scanUrl (i + 1) { scan with s := s } rest
        | some uf =>
            let foundAt := scan.foundAt || s = .serverWithAt
            if scan.oldUf = some uf then
              scanUrl (i + 1) ⟨s, scan.oldUf, foundAt, scan.u.incrLen uf⟩ rest
            else
              scanUrl (i + 1)
                ⟨s, some uf, foundAt, (scan.u.setData uf ⟨i % 2 ^ 16, 1⟩).mark uf⟩ rest

/-! ## The host -/

inductive HostState
  | dead
  | userinfoStart
  | userinfo
  | hostStart
  | hostV6Start
  | host
  | hostV6
  | hostV6End
  | hostV6ZoneStart
  | hostV6Zone
  | hostPortStart
  | hostPort
deriving DecidableEq, Repr

def isZoneChar (c : UInt8) : Bool := isAlphanum c || (ascii "%.-_~").contains c

/-- `http_parse_host_char` -/
def httpParseHostChar (s : HostState) (c : UInt8) : HostState :=
  match s with
  | .userinfo | .userinfoStart =>
      if c = 64 then .hostStart else if isUserinfoChar c then .userinfo else .dead
  | .hostStart => if c = 91 then .hostV6Start else if isHostChar c then .host else .dead
  | .host => if isHostChar c then .host else if c = 58 then .hostPortStart else .dead
  | .hostV6End => if c = 58 then .hostPortStart else .dead
  | .hostV6 =>
      if c = 93 then .hostV6End
      else if isHex c || c = 58 || c = 46 then .hostV6
      else if c = 37 then .hostV6ZoneStart
      else .dead
  | .hostV6Start => if isHex c || c = 58 || c = 46 then .hostV6 else .dead
  | .hostV6Zone =>
      if c = 93 then .hostV6End else if isZoneChar c then .hostV6Zone else .dead
  | .hostV6ZoneStart => if isZoneChar c then .hostV6Zone else .dead
  | .hostPort | .hostPortStart => if isdigit c then .hostPort else .dead
  | .dead => .dead

/-- A component that grows by one character, and starts here unless it was under way. -/
def HttpParserUrl.grow (u : HttpParserUrl) (uf : UrlField) (i : Nat) (underWay : Bool) :
    HttpParserUrl :=
  if underWay then u.incrLen uf else ((u.setData uf ⟨i % 2 ^ 16, 0⟩).mark uf).incrLen uf

/-- The host keeps its length when it starts, since it was set to zero before the loop. -/
def HttpParserUrl.growHost (u : HttpParserUrl) (i : Nat) (underWay : Bool) : HttpParserUrl :=
  if underWay then u.incrLen .host
  else (u.setData .host ⟨i % 2 ^ 16, (u.fieldData .host).len⟩).incrLen .host

/-- The loop of `http_parse_host`, at the character with index `i`. -/
def scanHost : Nat → HostState → HttpParserUrl → Bytes → Option (HostState × HttpParserUrl)
  | _, s, u, [] => some (s, u)
  | i, s, u, c :: rest =>
      let next := httpParseHostChar s c
      match next with
      | .dead => none
      | .host => scanHost (i + 1) next (u.growHost i (s = .host)) rest
      | .hostV6 => scanHost (i + 1) next (u.growHost i (s = .hostV6)) rest
      | .hostV6ZoneStart | .hostV6Zone => scanHost (i + 1) next (u.incrLen .host) rest
      | .hostPort => scanHost (i + 1) next (u.grow .port i (s = .hostPort)) rest
      | .userinfo => scanHost (i + 1) next (u.grow .userinfo i (s = .userinfo)) rest
      | _ => scanHost (i + 1) next u rest

/-- The host states in which the input may not end. -/
def HostState.unfinished : HostState → Bool
  | .hostStart | .hostV6Start | .hostV6 | .hostV6ZoneStart | .hostV6Zone | .hostPortStart
  | .userinfo | .userinfoStart => true
  | _ => false

/-- `http_parse_host`, `none` when the host is malformed. -/
def httpParseHost (buf : Bytes) (u : HttpParserUrl) (foundAt : Bool) : Option HttpParserUrl :=
  let host := u.fieldData .host
  let u := u.setData .host ⟨host.off, 0⟩
  match scanHost host.off (if foundAt then .userinfoStart else .hostStart) u
      ((buf.drop host.off).take host.len) with
  | none => none
  | some (s, u) => if s.unfinished then none else some u

/-- `strtoul` in base 10 where the text begins with digits. -/
def strtoul (s : Bytes) : Nat :=
  (s.takeWhile isdigit).foldl (fun v c => v * 10 + (c.toNat - 48)) 0

/-- `http_parser_parse_url` for a request other than CONNECT, on a structure `u` with any
content. `none` is the nonzero return. -/
def httpParserParseUrl (buf : Bytes) (u : HttpParserUrl) : Option HttpParserUrl := do
  let scan ← scanUrl 0
    ⟨.spacesBeforeUrl, none, false, { u with port := 0, fieldSet := fun _ => false }⟩ buf
  if scan.u.fieldSet .schema && !scan.u.fieldSet .host then none
  else
    let u ← if scan.u.fieldSet .host then httpParseHost buf scan.u scan.foundAt else some scan.u
    if u.fieldSet .port then
      -- read from the offset on, whatever length was recorded
      let v := strtoul (buf.drop (u.fieldData .port).off)
      if v > 65535 then none else some { u with port := v }
    else some u

end Blogd
