import Blogd.Content.Published
import Blogd.Http.Routes
import Blogd.Http.Success
import Blogd.Server.Sample

/-! # Pages by their number

The listing links to its pages by their numbers in decimal, and stores them under keys made of the
same digits. The route for pages, however, keeps the last digit of a number only: a page with a
number of two digits or more is looked up under a key of one.
-/

namespace Blogd

/-- The path of a page in the listing. -/
def pagePath (number : Nat) : Bytes := ascii "/page/" ++ decimal number

theorem moreLink_path (number : Nat) :
    moreLink number = ascii "<ul class='pager'><li class='next'><a href='" ++ pagePath number ++
      ascii "'>More</a></li></ul>" := by
  have hhref : ascii "<ul class='pager'><li class='next'><a href='/page/" =
      ascii "<ul class='pager'><li class='next'><a href='" ++ ascii "/page/" := by
    decide +kernel
  rw [moreLink, hhref, pagePath, List.append_assoc _ (ascii "/page/")]

/-- The address of a link: the text in quotes behind `href=`. -/
def hrefOf (link : Bytes) : Option Bytes :=
  ((link.splitOn 39).dropWhile fun part => !(ascii "href=").isSuffixOf part)[1]?

theorem hrefOf_moreLink (number : Nat) : hrefOf (moreLink number) = some (pagePath number) := by
  have hquote : 39 ∉ pagePath number := by
    rw [pagePath, List.mem_append, not_or]
    refine ⟨by decide, fun hmem => ?_⟩
    exact absurd (isdigit_of_mem_decimal hmem) (by decide)
  have hbehind : ascii "'>More</a></li></ul>" = 39 :: ascii ">More</a></li></ul>" := by
    decide +kernel
  have hfront : ascii "<ul class='pager'><li class='next'><a href='" =
      ascii "<ul class='pager'><li class='next'><a href=" ++ [39] := by
    decide +kernel
  have hparts : (ascii "<ul class='pager'><li class='next'><a href=").splitOn 39 =
      [ascii "<ul class=", ascii "pager", ascii "><li class=", ascii "next",
        ascii "><a href="] := by
    decide +kernel
  rw [hrefOf, moreLink_path, hfront, hbehind, List.append_assoc, List.append_assoc,
    List.singleton_append, List.splitOn_append_cons_self, hparts, List.splitOn_append_cons_self,
    List.splitOn_eq_singleton hquote]
  rfl

/-- A number ends in its last digit. -/
theorem decimal_last (n : Nat) : ∃ digits, decimal n = digits ++ decimal (n % 10) ∧
    ∀ c ∈ digits, isdigit c = true := by
  have hlast := getLast?_decimal n
  obtain ⟨digits, hdigits⟩ := List.getLast?_eq_some_iff.mp hlast
  refine ⟨digits, ?_, ?_⟩
  · rw [hdigits, decimal_of_lt (Nat.mod_lt n (by decide))]
  · intro c hc
    apply @isdigit_of_mem_decimal n
    rw [hdigits]
    exact List.mem_append_left _ hc

section Answers

variable {ext : External} {site : Site}

/-- A page path is answered from the key of the last digit. -/
theorem answer_pagePath (hspec : ext.PcreSpec) (n : Nat) :
    site.answer ext (pagePath n) = site.answerKey (pageKeyPrefix ++ decimal (n % 10)) := by
  obtain ⟨digits, hn, hdigits⟩ := decimal_last n
  have hmod : n % 10 < 10 := Nat.mod_lt n (by decide)
  have hroute := @findRoute_pageLink ext hspec digits (digitByte (n % 10)) (by
    intro c hc
    rcases List.mem_append.mp hc with hc | hc
    · exact hdigits c hc
    · rw [List.mem_singleton.mp hc]
      exact isdigit_digitByte hmod)
  rw [Site.answer, pagePath, hn, decimal_of_lt hmod, hroute, ok_bind]
  rfl

theorem answer_index (hspec : ext.PcreSpec) :
    site.answer ext (ascii "/") = site.answerKey (pageKeyPrefix ++ decimal 1) := by
  rw [Site.answer, findRoute_index hspec, ok_bind]
  rfl

end Answers

section Pages

variable {ext : External} {options : ContentOptions} {dir : ContentDir} {server : Server}

/-- What the page lookup needs: a page with a number of one digit is stored as text, and for any
other number the key of its last digit happens to hold the very text of the page. -/
def Server.FindsPage (server : Server) (number : Nat) (value : Bytes) : Prop :=
  if number ≤ 9 then readsInteger value = false
  else server.site.text (pageKeyPrefix ++ decimal (number % 10)) = some value

theorem keyFits_page (digit : Nat) (hdigit : digit < 10) :
    keyFits (pageKeyPrefix ++ decimal digit) = true := by
  apply keyFits_of_length (by decide)
  rw [decimal_of_lt hdigit, List.length_singleton]
  decide

/-- A page is answered under its number exactly when the lookup finds its text and the length of the
text can be printed. -/
theorem answer_pagePath_iff (hspec : ext.PcreSpec) (hdb : server.db.Published ext options dir)
    {page : Nat} (hpage : page < pageCount options dir) :
    server.site.answer ext (pagePath (page + 1)) =
        .ok (okResponse htmlType (listedPage ext options dir page)) ↔
      server.FindsPage (page + 1) (listedPage ext options dir page) ∧
        (listedPage ext options dir page).length < 10 ^ 9 := by
  rw [answer_pagePath hspec, Site.answerKey_ok_iff (keyFits_page _ (Nat.mod_lt _ (by decide))),
    Server.FindsPage]
  split
  next hone =>
    rw [Nat.mod_eq_of_lt (Nat.lt_succ_of_le hone), Site.text_of_set
      (nul_notMem_listedPage ext options dir page) (hdb.page hspec hpage), and_iff_left rfl]
  next => rfl

/-- The first page is what the index shows. -/
theorem answer_index_iff (hspec : ext.PcreSpec) (hdb : server.db.Published ext options dir)
    (hpage : 0 < pageCount options dir) :
    server.site.answer ext (ascii "/") =
        .ok (okResponse htmlType (listedPage ext options dir 0)) ↔
      server.FindsPage 1 (listedPage ext options dir 0) ∧
        (listedPage ext options dir 0).length < 10 ^ 9 := by
  rw [answer_index hspec, ← answer_pagePath_iff hspec hdb hpage, answer_pagePath hspec]

/-- The path that shows a page to a reader who starts at the index and follows the link on each page
to the next. -/
def listingPath (options : ContentOptions) (dir : ContentDir) : Nat → Option Bytes
  | 0 => some (ascii "/")
  | page + 1 => hrefOf (nextLink (dir.postLoop options) page)

theorem listingPath_succ (hdb : server.db.Published ext options dir) {page : Nat}
    (hpage : page + 1 < pageCount options dir) :
    listingPath options dir (page + 1) = some (pagePath (page + 2)) := by
  rw [listingPath, nextLink_eq hdb.perPage hdb.files, if_pos hpage, hrefOf_moreLink]

theorem answer_listingPath_iff (hspec : ext.PcreSpec) (hdb : server.db.Published ext options dir)
    {page : Nat} (hpage : page < pageCount options dir) :
    (∃ path, listingPath options dir page = some path ∧ server.site.answer ext path =
        .ok (okResponse htmlType (listedPage ext options dir page))) ↔
      server.FindsPage (page + 1) (listedPage ext options dir page) ∧
        (listedPage ext options dir page).length < 10 ^ 9 := by
  cases page with
  | zero =>
      rw [← answer_index_iff hspec hdb hpage]
      simp [listingPath]
  | succ page =>
      rw [← answer_pagePath_iff hspec hdb hpage, listingPath_succ hdb hpage]
      simp

end Pages

/-- A page is reachable by its number exactly when the lookup under the last digit finds its text
and the length of the text can be printed. The walk along the links shows every page exactly when
that holds for each of them. -/
theorem page_reachable_iff (env : Env) (hspec : env.toExternal.PcreSpec) (options : ContentOptions)
    (dir : ContentDir) (w : World) (hready : w.client.Ready) (hserving : w.server.Serving)
    (hdb : w.server.db.Published env.toExternal options dir) :
    (∀ page < pageCount options dir, ∀ (r : Request) (garbage : Garbage),
      r.Asks env.toExternal w.server garbage.u (pagePath (page + 1)) →
        ((∃ events, Gets env r garbage w events
            (okResponse htmlType (listedPage env.toExternal options dir page))) ↔
          w.server.FindsPage (page + 1) (listedPage env.toExternal options dir page) ∧
            (listedPage env.toExternal options dir page).length < 10 ^ 9)) ∧
    ((∀ page < pageCount options dir, ∃ path, listingPath options dir page = some path ∧
        w.server.site.answer env.toExternal path =
          .ok (okResponse htmlType (listedPage env.toExternal options dir page))) ↔
      ∀ page < pageCount options dir,
        w.server.FindsPage (page + 1) (listedPage env.toExternal options dir page) ∧
          (listedPage env.toExternal options dir page).length < 10 ^ 9) := by
  constructor
  · intro page hpage r garbage hasks
    rw [← answer_pagePath_iff hspec hdb hpage]
    constructor
    · intro ⟨events, hgets⟩
      exact ((gets_iff env r hready hserving hasks).mp hgets).2
    · intro hanswer
      exact ⟨_, (gets_iff env r hready hserving hasks).mpr ⟨rfl, hanswer⟩⟩
  · exact forall₂_congr fun page hpage => answer_listingPath_iff hspec hdb hpage

/-! ## Ten pages -/

def numberedPost (i : Nat) : PostFile :=
  ⟨decimal i ++ ascii ".html", by
    rw [List.mem_append, not_or]
    exact ⟨decimal_no_nul i, by decide⟩, false, some []⟩

def tenPosts : List PostFile := (List.range 10).map numberedPost

/-- Ten posts on ten pages. -/
def tenStore : Db := Db.empty.setAll (siteCommands sampleExternal ⟨1, 0⟩ (sampleDir tenPosts))

theorem tenStore_published : tenStore.Published sampleExternal ⟨1, 0⟩ (sampleDir tenPosts) :=
  Db.published_setAll sampleExternal_pcreSpec (by decide) (by decide) _

def tenWorld : World := ⟨sampleServer tenStore tenPosts fun _ => none, createClient 0, []⟩

theorem tenWorld_serving : tenWorld.server.Serving :=
  sampleServer_serving (Db.setAll_expires (fun _ => rfl) _) _ _

def pageTwoRequest : Request :=
  sampleGet (ascii "/page/2?a") (by decide) (by decide)

theorem page_two_reachable :
    ∃ events, Gets sampleEnv pageTwoRequest sampleGarbage tenWorld events
      (okResponse htmlType (listedPage sampleExternal ⟨1, 0⟩ (sampleDir tenPosts) 1)) := by
  have hasks : pageTwoRequest.Asks sampleEnv.toExternal tenWorld.server sampleGarbage.u
      (pagePath 2) :=
    sampleGet_asks _ _ _ _ _ (by decide) (by decide) (by decide)
  have hlength : (listedPage sampleExternal ⟨1, 0⟩ (sampleDir tenPosts) 1).length = 88 := by
    decide +kernel
  refine ((page_reachable_iff sampleEnv sampleExternal_pcreSpec ⟨1, 0⟩ (sampleDir tenPosts)
    tenWorld (createClient_ready 0) tenWorld_serving tenStore_published).1 1 (by decide)
    pageTwoRequest sampleGarbage hasks).mpr ⟨?_, ?_⟩
  · rw [Server.FindsPage, if_pos (by decide), readsInteger]
    change (decide ((listedPage sampleExternal _ _ 1).length ≤ 20) && _) = false
    rw [hlength]
    rfl
  · change (listedPage sampleExternal _ _ 1).length < 10 ^ 9
    rw [hlength]
    decide

def pageTenRequest : Request :=
  sampleGet (ascii "/page/10?a") (by decide) (by decide)

theorem pageTenRequest_asks :
    pageTenRequest.Asks sampleEnv.toExternal tenWorld.server sampleGarbage.u (pagePath 10) :=
  sampleGet_asks _ _ _ _ _ (by decide) (by decide) (by decide)

/-- No page has the number zero. -/
theorem tenStore_zero : tenStore.dict (pageKeyPrefix ++ decimal 0) = none := by
  rw [tenStore, Db.setAll_dict_of_notMem]
  · rfl
  · intro hmem
    obtain ⟨command, hcommand, hkey⟩ := List.mem_map.mp hmem
    have hzero : (pageKeyPrefix ++ decimal 0, command.2) ∈
        siteCommands sampleExternal ⟨1, 0⟩ (sampleDir tenPosts) := by
      rw [← hkey]
      exact hcommand
    obtain ⟨page, -, hnumber, -⟩ := (mem_siteCommands_page tenStore_published.perPage
      tenStore_published.files _ _).mp
        ⟨hzero, List.prefix_append _ _, not_errorKey_pageKey 0⟩
    exact absurd (decimal_injective (List.append_cancel_left hnumber)) (Nat.succ_ne_zero page).symm

/-- The tenth page exists, but its path is not answered with it. -/
theorem page_ten_not_reachable :
    pageCount ⟨1, 0⟩ (sampleDir tenPosts) = 10 ∧
      tenStore.Published sampleExternal ⟨1, 0⟩ (sampleDir tenPosts) ∧
      pageTenRequest.Asks sampleEnv.toExternal tenWorld.server sampleGarbage.u (pagePath 10) ∧
      ¬ ∃ events, Gets sampleEnv pageTenRequest sampleGarbage tenWorld events
        (okResponse htmlType (listedPage sampleExternal ⟨1, 0⟩ (sampleDir tenPosts) 9)) := by
  refine ⟨by decide, tenStore_published, pageTenRequest_asks, ?_⟩
  rintro ⟨events, hgets⟩
  obtain ⟨-, hanswer⟩ := (gets_iff sampleEnv pageTenRequest (createClient_ready 0) tenWorld_serving
    pageTenRequest_asks).mp hgets
  rw [@answer_pagePath sampleEnv.toExternal _ sampleExternal_pcreSpec,
    Site.answerKey_ok_iff (keyFits_page _ (Nat.mod_lt _ (by decide)))] at hanswer
  have hnone : tenWorld.server.site.text (pageKeyPrefix ++ decimal (10 % 10)) = none := by
    have hdict : tenWorld.server.site.lookup = tenStore.dict := rfl
    rw [Site.text, hdict, show 10 % 10 = 0 from rfl, tenStore_zero]
  rw [hnone] at hanswer
  cases hanswer.1

end Blogd
