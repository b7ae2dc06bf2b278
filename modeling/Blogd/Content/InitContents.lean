import Blogd.Content.Template

/-! # Compiling the content directory

The templates and posts of the content directory are compiled and stored, one `SET` command for
each error page, each post and each page of the listing. The commands are the only effect: the
state of the program is the list of those executed so far.
-/

namespace Blogd

/-- An entry of the posts directory. Its name is a C string, and the content is `none` when it
cannot be opened. -/
structure PostFile where
  name : Bytes
  name_nul : 0 ∉ name
  isDir : Bool
  content : Option Bytes
deriving DecidableEq, Repr

/-- The content directory, with its posts in the order in which they are listed. -/
structure ContentDir where
  layout : Option Bytes
  header : Option Bytes
  contentTop : Option Bytes
  footer : Option Bytes
  post : Option Bytes
  page : Option Bytes
  error400 : Option Bytes
  error404 : Option Bytes
  error500 : Option Bytes
  posts : List PostFile
deriving DecidableEq, Repr

/-- The options that the compilation reads, both unsigned integers of 32 bits. -/
structure ContentOptions where
  perPage : Nat
  markdownCompile : Nat
deriving DecidableEq, Repr

def pageKeyPrefix : Bytes := ascii "blogd::page"
def pageErrorKeyPrefix : Bytes := ascii "blogd::page::error"
def postKeyPrefix : Bytes := ascii "blogd::post::"

/-- An unsigned integer passed as an `int`. -/
def int32 (n : Nat) : Int := if n < 2 ^ 31 then n else n - 2 ^ 32

/-- `sprintf` of an unsigned integer with `%d` into an array of `size` bytes. -/
def sprintfInt (size n : Nat) : Except Fault Bytes :=
  let text := if n < 2 ^ 31 then decimal n else 45 :: decimal (2 ^ 32 - n)
  if text.length + 1 ≤ size then .ok text else .error .overflow

abbrev Commands := List (Bytes × Bytes)

/-- `executeRedisCommand` of a `SET`. -/
def executeSet (key value : Bytes) : EStateM Fault Commands PUnit :=
  modify fun commands => commands ++ [(key, value)]

def moreHtml : Bytes :=
  ascii "<ul class='pager'><li class='next'><a href='/page/\x7bpageNum\x7d'>More</a></li></ul>"

/-- The card of a post in the listing. -/
def postCard (postContent fileName : Bytes) (obj : CompiledObj) : Except Fault Bytes := do
  let card ← strReplace (placeholder "title") obj.title postContent
  let card ← strReplace (placeholder "thumbnail") obj.thumbnail card
  let card ← strReplace (placeholder "description") obj.desc card
  let card ← strReplace (placeholder "published_at") obj.publishedAt card
  strReplace (placeholder "link") (ascii "/" ++ fileName) card

/-- The template of a listing page, whose number is `pageIndex`. -/
def pageTemplate (pageContent postsContents : Bytes) (pageIndex : Nat) (hasMore : Bool) :
    Except Fault Bytes := do
  let page ← strReplace (placeholder "posts") postsContents pageContent
  let pageNumString ← sprintfInt 10 ((pageIndex + 1) % 2 ^ 32)
  if hasMore then
    let more ← strReplace (ascii "\x7bpageNum\x7d") pageNumString moreHtml
    strReplace (placeholder "more") more page
  else
    strReplace (placeholder "more") [] page

/-- What the post loop uses of the templates, and the number of files counted before it. -/
structure PostLoop where
  options : ContentOptions
  layoutContent : Bytes
  postContent : Bytes
  pageContent : Bytes
  numFiles : Nat

/-- `(j % per_page) == (per_page - 1) || j == numFiles - 1`, on unsigned integers. -/
def PostLoop.flushes (loop : PostLoop) (j : Nat) : Bool :=
  j % loop.options.perPage = loop.options.perPage - 1 ||
    j = (loop.numFiles + (2 ^ 32 - 1)) % 2 ^ 32

/-- `j < numFiles - 1`, on unsigned integers. -/
def PostLoop.hasMore (loop : PostLoop) (j : Nat) : Bool :=
  j < (loop.numFiles + (2 ^ 32 - 1)) % 2 ^ 32

/-- Storing a page of the listing. -/
def storePage (ext : External) (loop : PostLoop) (postsContents : Bytes) (j pageIndex : Nat) :
    EStateM Fault Commands PUnit := do
  let page ← lift (pageTemplate loop.pageContent postsContents pageIndex (loop.hasMore j))
  let pageNumString ← lift (sprintfInt 10 pageIndex)
  let obj ← lift (compileTemplate ext page loop.layoutContent
    (int32 loop.options.markdownCompile) false)
  executeSet (pageKeyPrefix ++ pageNumString) obj.compiledContent

/-- Storing a post and making its card. -/
def storePost (ext : External) (loop : PostLoop) (name fileContent : Bytes) :
    EStateM Fault Commands Bytes := do
  let fileName := removeFileExt name 46 47
  let obj ← lift (compileTemplate ext fileContent loop.layoutContent
    (int32 loop.options.markdownCompile) true)
  executeSet (postKeyPrefix ++ fileName) obj.compiledContent
  lift (postCard loop.postContent fileName obj)

/-- The post loop of `initContents`, at the file with index `j` among the posts. -/
def storePosts (ext : External) (loop : PostLoop) :
    List PostFile → Nat → Nat → Bytes → EStateM Fault Commands PUnit
  | [], _, _, _ => pure ⟨⟩
  | file :: rest, j, pageIndex, postsContents =>
      if file.isDir then storePosts ext loop rest j pageIndex postsContents
      else
        match readFileContent file.content with
        -- not reached, as `readFileContent` gives an empty text for a file that cannot be opened
        | none => storePosts ext loop rest j pageIndex postsContents
        | some fileContent => do
            let card ← storePost ext loop file.name fileContent
            -- `j % per_page`, when the post is already stored
            if loop.options.perPage = 0 then throw .division
            if loop.flushes j then
              storePage ext loop (postsContents ++ card) j pageIndex
              storePosts ext loop rest ((j + 1) % 2 ^ 32) ((pageIndex + 1) % 2 ^ 32) []
            else
              storePosts ext loop rest ((j + 1) % 2 ^ 32) pageIndex (postsContents ++ card)

/-- Storing an error page. -/
def storeErrorPage (ext : External) (options : ContentOptions) (errorContent layout : Bytes)
    (code : String) : EStateM Fault Commands PUnit := do
  let obj ← lift (compileTemplate ext errorContent layout (int32 options.markdownCompile) true)
  executeSet (pageErrorKeyPrefix ++ ascii code) obj.compiledContent

/-- `numFiles`, counted in 32 bits. -/
def countFiles (posts : List PostFile) : Nat := (posts.filter (!·.isDir)).length % 2 ^ 32

/-- `initContents` -/
def initContents (ext : External) (options : ContentOptions) (dir : ContentDir) :
    EStateM Fault Commands PUnit := do
  let some layoutContent := readFileContent dir.layout | throw .exit
  let some headerContent := readFileContent dir.header | throw .exit
  let some topContent := readFileContent dir.contentTop | throw .exit
  let some footerContent := readFileContent dir.footer | throw .exit
  let some postContent := readFileContent dir.post | throw .exit
  let some pageContent := readFileContent dir.page | throw .exit
  let some error400Content := readFileContent dir.error400 | throw .exit
  let some error404Content := readFileContent dir.error404 | throw .exit
  let some error500Content := readFileContent dir.error500 | throw .exit
  let layout ← lift (strReplace (placeholder "include header") headerContent layoutContent)
  let layout ← lift (strReplace (placeholder "include content_top") topContent layout)
  let layout ← lift (strReplace (placeholder "include footer") footerContent layout)
  storeErrorPage ext options error400Content layout "400"
  storeErrorPage ext options error404Content layout "404"
  storeErrorPage ext options error500Content layout "500"
  let loop : PostLoop := ⟨options, layout, postContent, pageContent, countFiles dir.posts⟩
  storePosts ext loop dir.posts 0 1 []

end Blogd
