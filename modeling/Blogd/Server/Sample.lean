import Blogd.Content.Sample
import Blogd.Http.Exchange

/-! # A small blog

A server that meets the conditions under which the store executes what it is given, and requests
to it. The hypotheses of the main results hold for them.
-/

namespace Blogd

def sampleEnv : Env where
  toExternal := sampleExternal
  processInlineBuffer := pure true
  otherCommand _ := pure true
  clusterRedirect _ _ := none
  freeMemoryIfNeeded := pure ⟨⟩

/-- The server with a store, a content directory and files. -/
def sampleServer (db : Db) (posts : List PostFile) (files : Bytes → Option OpenFile) : Server where
  publicDir := ascii "/srv"
  reloadContentQuery := some (ascii "reload=1")
  contentOptions := ⟨1, 0⟩
  contentDir := sampleDir posts
  files := files
  db := db
  unixtime := 0
  mstime := 0
  clientsArePaused := false
  requirepass := none
  clusterEnabled := false
  maxmemory := 0
  masterhost := none
  replConnected := true
  replServeStaleData := true
  loading := false
  luaTimedout := false

theorem sampleServer_serving {db : Db} (hdb : ∀ key, db.expires key = none)
    (posts : List PostFile) (files : Bytes → Option OpenFile) :
    (sampleServer db posts files).Serving :=
  ⟨rfl, rfl, rfl, rfl, rfl, rfl, rfl, hdb⟩

def hostField : Field :=
  ⟨ascii "Host", ascii "blog", by decide, forall_mem_of_all (by decide),
    ⟨98, ascii "log", rfl, rfl⟩, forall_mem_of_all (by decide)⟩

theorem length_sampleGet {uri : Bytes} (hlen : uri.length ≤ 1000) :
    (requestText uri (ascii "HTTP/1.1") [hostField]).length ≤ 16384 := by
  have hversion : (ascii "HTTP/1.1").length = 8 := by decide
  have hline : hostField.line.length = 12 := by decide
  have hmethod : (ascii "GET").length = 3 := by decide
  have hblank : (ascii " ").length = 1 := by decide
  have hcrlf : crlf.length = 2 := by decide
  simp only [requestText, List.flatMap_cons, List.flatMap_nil, List.length_append,
    List.length_nil, hline, hversion, hmethod, hblank, hcrlf]
  omega

/-- A GET request with one field. -/
def sampleGet (uri : Bytes) (huri : IsWord uri) (hlen : uri.length ≤ 1000) : Request where
  uri := uri
  version := ascii "HTTP/1.1"
  fields := [hostField]
  uri_word := huri
  version_word := by decide
  fields_ne := List.cons_ne_nil _ _
  fields_le := by decide
  length_le := length_sampleGet hlen

def sampleGarbage : Garbage := ⟨.filled 0 0, fun _ => 0, fun _ => 0⟩

/-- A URI with the query `a` is taken apart as it reads. -/
theorem sampleGet_asks (db : Db) (posts : List PostFile) (files : Bytes → Option OpenFile)
    {uri : Bytes} (huri : IsWord uri) (hlen : uri.length ≤ 1000)
    (haccepted : (httpParserParseUrl uri sampleGarbage.u).isSome) (hpath : urlPathOf uri ≠ [])
    (hquery : urlQueryOf uri = ascii "a") :
    (sampleGet uri huri hlen).Asks sampleEnv.toExternal (sampleServer db posts files)
      sampleGarbage.u (urlPathOf uri) := by
  have hkeeps : (sampleServer db posts files).Keeps sampleEnv.toExternal (ascii "a") :=
    ⟨ascii "reload=1", rfl, rfl⟩
  refine Request.asks_of_parts hpath ?_ haccepted ?_
  · change urlQueryOf uri ≠ []
    rw [hquery]
    decide
  · change (sampleServer db posts files).Keeps sampleEnv.toExternal (urlQueryOf uri)
    rw [hquery]
    exact hkeeps

end Blogd
