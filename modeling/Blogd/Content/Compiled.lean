import Blogd.Content.InitContents
import Blogd.Content.Patterns

/-! # What the content directory compiles to

With a library that compiles the patterns of the program, templates always compile. This module
gives the results as texts: the layout, the stored value and the card of a post, and a page of the
listing for the posts it shows.
-/

namespace Blogd

/-- The text of a file, empty when it cannot be opened. -/
def readText (file : Option Bytes) : Bytes := (readFileContent file).getD []

theorem readFileContent_eq (file : Option Bytes) : readFileContent file = some (readText file) := by
  cases file <;> rfl

/-! ## Templates -/

def sectionOf (name : String) (file : Bytes) : Option (List Bytes) :=
  groupTexts (sectionRegex name) 2 file

/-- The value that is stored for a text in a layout. -/
def compiledContent (ext : External) (markdownCompile : Int) (useMarkdown : Bool)
    (layout file : Bytes) : Bytes :=
  replaced (placeholder "content")
    (contentText ext markdownCompile useMarkdown (sectionOf "content" file))
    (replaced (placeholder "meta_description") (sectionText (sectionOf "meta_description" file))
      (replaced (placeholder "title") (sectionText (sectionOf "title" file)) layout))

def compiledObj (ext : External) (markdownCompile : Int) (useMarkdown : Bool)
    (layout file : Bytes) : CompiledObj where
  title := sectionText (sectionOf "title" file)
  metaDesc := sectionText (sectionOf "meta_description" file)
  desc := sectionText (sectionOf "description" file)
  thumbnail := sectionText (sectionOf "thumbnail" file)
  publishedAt := sectionText (sectionOf "published_at" file)
  compiledContent := compiledContent ext markdownCompile useMarkdown layout file

theorem pregMatch_section {ext : External} (hspec : ext.PcreSpec) {name : String}
    (hname : name ∈ sectionNames) (file : Bytes) :
    pregMatch ext (sectionPattern name) file = .ok (sectionOf name file) :=
  pregMatch_toPcre (hspec.sections name hname) (by decide) file

theorem compileTemplate_eq {ext : External} (hspec : ext.PcreSpec) (file layout : Bytes)
    (markdownCompile : Int) (useMarkdown : Bool) :
    compileTemplate ext file layout markdownCompile useMarkdown =
      .ok (compiledObj ext markdownCompile useMarkdown layout file) := by
  have hsection := fun name hname => @pregMatch_section ext hspec name hname file
  simp only [compileTemplate, hsection "title" (by decide),
    hsection "meta_description" (by decide), hsection "description" (by decide),
    hsection "thumbnail" (by decide), hsection "content" (by decide),
    hsection "published_at" (by decide), strReplace_eq, ok_bind, pure_eq_ok]
  rfl

/-! ## Posts -/

/-- The entries of the posts directory that are files. -/
def postFiles (dir : ContentDir) : List PostFile := dir.posts.filter (!·.isDir)

/-- The name under which a post is stored and linked. -/
def PostFile.stem (file : PostFile) : Bytes := removeFileExt file.name 46 47

/-- The layout with its parts in place. -/
def ContentDir.layoutText (dir : ContentDir) : Bytes :=
  replaced (placeholder "include footer") (readText dir.footer)
    (replaced (placeholder "include content_top") (readText dir.contentTop)
      (replaced (placeholder "include header") (readText dir.header) (readText dir.layout)))

/-- The loop over the posts of a directory. -/
def ContentDir.postLoop (dir : ContentDir) (options : ContentOptions) : PostLoop :=
  ⟨options, dir.layoutText, readText dir.post, readText dir.page, countFiles dir.posts⟩

theorem ContentDir.postLoop_layoutContent (dir : ContentDir) (options : ContentOptions) :
    (dir.postLoop options).layoutContent = dir.layoutText := rfl

section Loop

variable (ext : External) (loop : PostLoop)

def postObj (file : PostFile) : CompiledObj :=
  compiledObj ext (int32 loop.options.markdownCompile) true loop.layoutContent
    (readText file.content)

/-- The command that stores a post. -/
def postCommand (file : PostFile) : Bytes × Bytes :=
  (postKeyPrefix ++ file.stem, (postObj ext loop file).compiledContent)

/-- The card of a post in the listing. -/
def card (file : PostFile) : Bytes :=
  replaced (placeholder "link") (ascii "/" ++ file.stem)
    (replaced (placeholder "published_at") (postObj ext loop file).publishedAt
      (replaced (placeholder "description") (postObj ext loop file).desc
        (replaced (placeholder "thumbnail") (postObj ext loop file).thumbnail
          (replaced (placeholder "title") (postObj ext loop file).title loop.postContent))))

theorem storePost_apply (hspec : ext.PcreSpec) (file : PostFile) (commands : Commands) :
    storePost ext loop file.name (readText file.content) commands =
      .ok (card ext loop file) (commands ++ [postCommand ext loop file]) := by
  simp only [storePost, compileTemplate_eq hspec, bind_apply, lift_ok, executeSet, modify_apply,
    postCard, strReplace_eq, ok_bind]
  rfl

/-! ## Pages -/

/-- The link to a page of the listing. -/
def moreLink (page : Nat) : Bytes :=
  ascii "<ul class='pager'><li class='next'><a href='/page/" ++ decimal page ++
    ascii "'>More</a></li></ul>"

/-- The text of a page: the posts template with the cards and the link to the next page. -/
def pageText (posts : List PostFile) (more : Bytes) : Bytes :=
  replaced (placeholder "more") more
    (replaced (placeholder "posts") (posts.flatMap (card ext loop)) loop.pageContent)

/-- The value that is stored for a page. -/
def pageValue (posts : List PostFile) (more : Bytes) : Bytes :=
  compiledContent ext (int32 loop.options.markdownCompile) false loop.layoutContent
    (pageText ext loop posts more)

theorem sprintfInt_decimal {n : Nat} (hn : n < 10 ^ 9) : sprintfInt 10 n = .ok (decimal n) := by
  have hlen : (decimal n).length ≤ 9 := (length_decimal_le_iff (by decide)).mpr hn
  rw [sprintfInt, if_pos (by omega : n < 2 ^ 31), if_pos (by omega)]

theorem replaced_pageNum (page : Nat) :
    replaced (ascii "\x7bpageNum\x7d") (decimal page) moreHtml = moreLink page := by
  -- One evaluation of the constant for all that the loop asks of it.
  obtain ⟨hcount, hfound, htake, hdrop⟩ :
      countOccurrences (ascii "\x7bpageNum\x7d") moreHtml.length moreHtml = 1 ∧
      strstr (ascii "\x7bpageNum\x7d") moreHtml = some 50 ∧
      moreHtml.take 50 = ascii "<ul class='pager'><li class='next'><a href='/page/" ∧
      moreHtml.drop (50 + (ascii "\x7bpageNum\x7d").length) = ascii "'>More</a></li></ul>" := by
    decide +kernel
  have hreplace : strReplace (ascii "\x7bpageNum\x7d") (decimal page) moreHtml =
      .ok (moreLink page) := by
    simp only [strReplace, hcount, copyReplacing, hfound, htake, hdrop, ok_bind, pure_eq_ok,
      moreLink]
  rw [replaced, hreplace]

theorem pageTemplate_eq {page : Nat} (hpage : page + 1 < 10 ^ 9) (posts : List PostFile)
    (hasMore : Bool) :
    pageTemplate loop.pageContent (posts.flatMap (card ext loop)) page hasMore =
      .ok (pageText ext loop posts (if hasMore then moreLink (page + 1) else [])) := by
  have hnext : (page + 1) % 2 ^ 32 = page + 1 := Nat.mod_eq_of_lt (by omega)
  rw [pageTemplate, hnext, sprintfInt_decimal hpage]
  cases hasMore with
  | false => simp only [strReplace_eq, ok_bind, Bool.false_eq_true, if_false, pageText]
  | true => simp only [strReplace_eq, ok_bind, if_true, replaced_pageNum, pageText]

/-- Storing the page with the given number. -/
theorem storePage_apply (hspec : ext.PcreSpec) {page : Nat} (hpage : page + 1 < 10 ^ 9)
    (posts : List PostFile) (j : Nat) (commands : Commands) :
    storePage ext loop (posts.flatMap (card ext loop)) j page commands =
      .ok ⟨⟩ (commands ++ [(pageKeyPrefix ++ decimal page,
        pageValue ext loop posts (if loop.hasMore j then moreLink (page + 1) else []))]) := by
  have hnumber := sprintfInt_decimal (Nat.lt_of_succ_lt hpage)
  simp only [storePage, bind_apply, pageTemplate_eq ext loop hpage, lift_ok, hnumber,
    compileTemplate_eq hspec, executeSet, modify_apply, compiledObj, pageValue]

/-! ## No text holds a NUL -/

theorem nul_notMem_readText (file : Option Bytes) : 0 ∉ readText file := by
  cases file with
  | none => exact List.not_mem_nil
  | some data => exact nul_notMem_readLines _ _

theorem nul_notMem_found {name : String} {file : Bytes} (hfile : 0 ∉ file) {found : List Bytes}
    (hfound : sectionOf name file = some found) : 0 ∉ found.headD [] := by
  obtain ⟨c, -, rfl⟩ := Option.map_eq_some_iff.mp hfound
  exact nul_notMem_groupText hfile _

theorem nul_notMem_sectionText (name : String) {file : Bytes} (hfile : 0 ∉ file) :
    0 ∉ sectionText (sectionOf name file) := by
  cases hfound : sectionOf name file with
  | none => exact List.not_mem_nil
  | some found => exact nul_notMem_found hfile hfound

theorem nul_notMem_compiledContent (markdownCompile : Int) (useMarkdown : Bool)
    {layout file : Bytes} (hlayout : 0 ∉ layout) (hfile : 0 ∉ file) :
    0 ∉ compiledContent ext markdownCompile useMarkdown layout file := by
  unfold compiledContent
  refine nul_notMem_replaced ?_ (nul_notMem_replaced (nul_notMem_sectionText _ hfile)
    (nul_notMem_replaced (nul_notMem_sectionText _ hfile) hlayout))
  cases hfound : sectionOf "content" file with
  | none => exact List.not_mem_nil
  | some found =>
      rw [contentText]
      split
      next => exact nul_not_mem_cstr _
      next => exact nul_notMem_found hfile hfound

theorem nul_notMem_layoutText (dir : ContentDir) : 0 ∉ dir.layoutText := by
  unfold ContentDir.layoutText
  refine nul_notMem_replaced (nul_notMem_readText _) ?_
  refine nul_notMem_replaced (nul_notMem_readText _) ?_
  exact nul_notMem_replaced (nul_notMem_readText _) (nul_notMem_readText _)

end Loop

section Directory

variable (ext : External) (options : ContentOptions) (dir : ContentDir)

theorem nul_notMem_postValue (file : PostFile) :
    0 ∉ (postObj ext (dir.postLoop options) file).compiledContent := by
  simp only [postObj, compiledObj, ContentDir.postLoop_layoutContent]
  exact nul_notMem_compiledContent ext _ _ (nul_notMem_layoutText dir) (nul_notMem_readText _)

theorem PostFile.nul_notMem_stem (file : PostFile) : 0 ∉ file.stem := by
  unfold PostFile.stem removeFileExt
  split
  next => exact file.name_nul
  next =>
    split
    next =>
      split
      next => exact fun hmem => file.name_nul (List.mem_of_mem_take hmem)
      next => exact file.name_nul
    next => exact fun hmem => file.name_nul (List.mem_of_mem_take hmem)

theorem nul_notMem_card (file : PostFile) : 0 ∉ card ext (dir.postLoop options) file := by
  unfold card postObj compiledObj
  have hfile := nul_notMem_readText file.content
  have hlink : 0 ∉ ascii "/" ++ file.stem := by
    rw [List.mem_append, not_or]
    exact ⟨by decide, file.nul_notMem_stem⟩
  refine nul_notMem_replaced hlink ?_
  refine nul_notMem_replaced (nul_notMem_sectionText _ hfile) ?_
  refine nul_notMem_replaced (nul_notMem_sectionText _ hfile) ?_
  refine nul_notMem_replaced (nul_notMem_sectionText _ hfile) ?_
  exact nul_notMem_replaced (nul_notMem_sectionText _ hfile) (nul_notMem_readText dir.post)

theorem nul_notMem_moreLink (page : Nat) : 0 ∉ moreLink page := by
  simp only [moreLink, List.mem_append, not_or]
  exact ⟨⟨by decide, decimal_no_nul _⟩, by decide⟩

theorem nul_notMem_pageValue (posts : List PostFile) {more : Bytes} (hmore : 0 ∉ more) :
    0 ∉ pageValue ext (dir.postLoop options) posts more := by
  rw [pageValue, pageText, ContentDir.postLoop_layoutContent]
  refine nul_notMem_compiledContent ext _ _ (nul_notMem_layoutText dir)
    (nul_notMem_replaced hmore (nul_notMem_replaced ?_ (nul_notMem_readText dir.page)))
  intro hmem
  obtain ⟨file, -, hcard⟩ := List.mem_flatMap.mp hmem
  exact nul_notMem_card ext options dir file hcard

end Directory

end Blogd
