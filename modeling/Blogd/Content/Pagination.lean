import Blogd.Content.Compiled
import Blogd.Content.Sample
import Blogd.Foundation.Slices

/-! # The pages of the listing

The post loop counts files and pages and collects cards until a page is full or the last file has
been seen. Over a whole run the pages are the slices of the files, numbered from one, and each but
the last carries the link to the next.
-/

namespace Blogd

section Loop

variable {ext : External} {loop : PostLoop}

/-! ## One file -/

/-- Directories leave no trace in the loop. -/
theorem storePosts_files (ext : External) (loop : PostLoop) (posts : List PostFile)
    (j page : Nat) (cards : Bytes) :
    storePosts ext loop posts j page cards =
      storePosts ext loop (posts.filter (!·.isDir)) j page cards := by
  induction posts generalizing j page cards with
  | nil => rfl
  | cons file rest ih =>
      cases hdir : file.isDir with
      | true => simp only [storePosts, hdir, if_true, ih, List.filter_cons, Bool.not_true,
          Bool.false_eq_true, if_false]
      | false => simp only [storePosts, hdir, ih, List.filter_cons, Bool.not_false, if_true]

theorem storePosts_collects (hspec : ext.PcreSpec) {file : PostFile} (hdir : file.isDir = false)
    (hper : 0 < loop.options.perPage) {j : Nat} (hj : j + 1 < 2 ^ 32)
    (hflush : loop.flushes j = false) (rest : List PostFile) (page : Nat) (cards : Bytes)
    (commands : Commands) :
    storePosts ext loop (file :: rest) j page cards commands =
      storePosts ext loop rest (j + 1) page (cards ++ card ext loop file)
        (commands ++ [postCommand ext loop file]) := by
  have hper' : loop.options.perPage ≠ 0 := Nat.ne_of_gt hper
  simp only [storePosts, hdir, readFileContent_eq, Bool.false_eq_true, if_false, bind_apply,
    storePost_apply ext loop hspec, hper', hflush, Nat.mod_eq_of_lt hj]

theorem storePosts_flushes (hspec : ext.PcreSpec) {file : PostFile} (hdir : file.isDir = false)
    (hper : 0 < loop.options.perPage) {j : Nat} (hj : j + 1 < 2 ^ 32)
    (hflush : loop.flushes j = true) (rest : List PostFile) {page : Nat}
    (hpage : page + 1 < 10 ^ 9) (posts : List PostFile) (commands : Commands) :
    storePosts ext loop (file :: rest) j page (posts.flatMap (card ext loop)) commands =
      storePosts ext loop rest (j + 1) (page + 1) []
        (commands ++ [postCommand ext loop file] ++
          [(pageKeyPrefix ++ decimal page, pageValue ext loop (posts ++ [file])
            (if loop.hasMore j then moreLink (page + 1) else []))]) := by
  have hper' : loop.options.perPage ≠ 0 := Nat.ne_of_gt hper
  have hnext : (page + 1) % 2 ^ 32 = page + 1 :=
    Nat.mod_eq_of_lt (Nat.lt_trans hpage (by decide))
  have hcards : posts.flatMap (card ext loop) ++ card ext loop file =
      (posts ++ [file]).flatMap (card ext loop) := by
    rw [List.flatMap_append, List.flatMap_singleton]
  simp only [storePosts, hdir, readFileContent_eq, Bool.false_eq_true, if_false, bind_apply,
    storePost_apply ext loop hspec, hper', hflush, if_true, hcards,
    storePage_apply ext loop hspec hpage, Nat.mod_eq_of_lt hj, hnext]

/-- Files up to the next flush. -/
theorem storePosts_part (hspec : ext.PcreSpec) (hper : 0 < loop.options.perPage)
    {part : List PostFile} (hdirs : ∀ file ∈ part, file.isDir = false) {j : Nat}
    (hj : j + part.length < 2 ^ 32)
    (hflush : ∀ i < part.length, loop.flushes (j + i) = false) (rest : List PostFile) (page : Nat)
    (cards : Bytes) (commands : Commands) :
    storePosts ext loop (part ++ rest) j page cards commands =
      storePosts ext loop rest (j + part.length) page (cards ++ part.flatMap (card ext loop))
        (commands ++ part.map (postCommand ext loop)) := by
  induction part generalizing j cards commands with
  | nil => simp only [List.nil_append, List.length_nil, Nat.add_zero, List.flatMap_nil,
      List.append_nil, List.map_nil]
  | cons file part ih =>
      rw [List.length_cons] at hj hflush
      have hfirst : loop.flushes j = false := hflush 0 (Nat.zero_lt_succ _)
      rw [List.cons_append, storePosts_collects hspec (hdirs file List.mem_cons_self) hper
        (by omega) hfirst, ih]
      · rw [List.length_cons, List.flatMap_cons, List.map_cons, List.append_assoc,
          List.append_assoc, List.singleton_append, Nat.add_assoc, Nat.add_comm 1]
      · intro other hother
        exact hdirs other (List.mem_cons_of_mem file hother)
      · omega
      · intro i hi
        rw [Nat.add_assoc, Nat.add_comm 1]
        exact hflush (i + 1) (Nat.succ_lt_succ hi)

/-! ## One page -/

/-- The link that the page with the given index carries. -/
def nextLink (loop : PostLoop) (page : Nat) : Bytes :=
  if (page + 1) * loop.options.perPage < loop.numFiles then moreLink (page + 2) else []

/-- What is stored for the page with the given index: its posts, then the page itself. -/
def pageCommands (ext : External) (loop : PostLoop) (page : Nat) (posts : List PostFile) :
    Commands :=
  posts.map (postCommand ext loop) ++
    [(pageKeyPrefix ++ decimal (page + 1), pageValue ext loop posts (nextLink loop page))]

/-- The flush condition at a file of the page with the given index. -/
theorem PostLoop.flushes_iff (hfiles : loop.numFiles < 2 ^ 32) {page m : Nat}
    (hm : m < loop.options.perPage) (hlast : page * loop.options.perPage + m < loop.numFiles) :
    loop.flushes (page * loop.options.perPage + m) = true ↔
      m + 1 = loop.options.perPage ∨
        page * loop.options.perPage + m + 1 = loop.numFiles := by
  have hcount : (loop.numFiles + (2 ^ 32 - 1)) % 2 ^ 32 = loop.numFiles - 1 := by omega
  have hmod : (page * loop.options.perPage + m) % loop.options.perPage = m := by
    rw [Nat.mul_add_mod_self_right, Nat.mod_eq_of_lt hm]
  rw [PostLoop.flushes, hcount, hmod, Bool.or_eq_true, decide_eq_true_iff, decide_eq_true_iff]
  omega

theorem PostLoop.hasMore_iff (hpos : 0 < loop.numFiles) (hfiles : loop.numFiles < 2 ^ 32)
    (j : Nat) : loop.hasMore j = true ↔ j + 1 < loop.numFiles := by
  have hcount : (loop.numFiles + (2 ^ 32 - 1)) % 2 ^ 32 = loop.numFiles - 1 := by omega
  rw [PostLoop.hasMore, hcount, decide_eq_true_iff]
  omega

/-- The files of one page are stored, and then the page. -/
theorem storePosts_page (hspec : ext.PcreSpec) (hper : 0 < loop.options.perPage)
    {files : List PostFile} (hdirs : ∀ file ∈ files, file.isDir = false) (hne : files ≠ [])
    {page : Nat} (hfiles : page * loop.options.perPage + files.length = loop.numFiles)
    (hcount : loop.numFiles < 999999999) (commands : Commands) :
    storePosts ext loop files (page * loop.options.perPage) (page + 1) [] commands =
      storePosts ext loop (files.drop loop.options.perPage)
        (page * loop.options.perPage + (files.take loop.options.perPage).length) (page + 2) []
        (commands ++ pageCommands ext loop page (files.take loop.options.perPage)) := by
  have hpos : 0 < files.length := List.length_pos_iff.mpr hne
  have htake : files.take loop.options.perPage ≠ [] := by
    rw [Ne, List.take_eq_nil_iff, not_or]
    exact ⟨Nat.ne_of_gt hper, hne⟩
  have hlen := List.length_take (i := loop.options.perPage) (l := files)
  have hpage : page ≤ page * loop.options.perPage := Nat.le_mul_of_pos_right page hper
  have hsplit := List.dropLast_concat_getLast htake
  -- the page is cut into the files that are collected and the one that flushes
  generalize hpart : (files.take loop.options.perPage).dropLast = part at hsplit
  generalize (files.take loop.options.perPage).getLast htake = last at hsplit
  have hpartLen : part.length + 1 = (files.take loop.options.perPage).length := by
    rw [← hsplit, List.length_append, List.length_singleton]
  have hmem : ∀ file ∈ part ++ [last], file.isDir = false := by
    intro file hfile
    rw [hsplit] at hfile
    exact hdirs file (List.mem_of_mem_take hfile)
  have hmore : (if loop.hasMore (page * loop.options.perPage + part.length)
      then moreLink (page + 1 + 1) else []) = nextLink loop page := by
    refine if_congr ?_ rfl rfl
    rw [PostLoop.hasMore_iff (by omega) (by omega), Nat.add_mul, Nat.one_mul]
    omega
  calc storePosts ext loop files (page * loop.options.perPage) (page + 1) [] commands
    _ = storePosts ext loop (part ++ (last :: files.drop loop.options.perPage))
          (page * loop.options.perPage) (page + 1) [] commands := by
        rw [List.append_cons, hsplit, List.take_append_drop]
    _ = storePosts ext loop (last :: files.drop loop.options.perPage)
          (page * loop.options.perPage + part.length) (page + 1) (part.flatMap (card ext loop))
          (commands ++ part.map (postCommand ext loop)) := by
        rw [storePosts_part hspec hper (fun file hfile => hmem file (List.mem_append_left _ hfile))
          (by omega), List.nil_append]
        intro i hi
        rw [Bool.eq_false_iff, Ne, PostLoop.flushes_iff (by omega) (by omega) (by omega)]
        omega
    _ = _ := by
        rw [storePosts_flushes hspec (hmem last (by simp)) hper (by omega)
          ((PostLoop.flushes_iff (by omega) (by omega) (by omega)).mpr (by omega)) _ (by omega),
          hmore, hsplit, ← hpartLen, pageCommands, ← hsplit, List.map_append, List.map_singleton,
          Nat.add_assoc]
        simp only [List.append_assoc]

/-! ## All pages -/

/-- The loop from the start of a page on: the pages are the slices of the files. -/
theorem storePosts_pages (hspec : ext.PcreSpec) (hper : 0 < loop.options.perPage)
    {files : List PostFile} (hdirs : ∀ file ∈ files, file.isDir = false) {page : Nat}
    (hfiles : page * loop.options.perPage + files.length = loop.numFiles)
    (hcount : loop.numFiles < 999999999) (commands : Commands) :
    storePosts ext loop files (page * loop.options.perPage) (page + 1) [] commands =
      .ok ⟨⟩ (commands ++ (List.range (sliceCount loop.options.perPage files.length)).flatMap
        fun i => pageCommands ext loop (page + i) (slice loop.options.perPage files i)) := by
  induction files using slices_induction hper generalizing page commands with
  | hnil =>
      rw [List.length_nil, sliceCount_zero hper, List.range_zero, List.flatMap_nil,
        List.append_nil]
      rfl
  | hslice files hne ih =>
      rw [storePosts_page hspec hper hdirs hne hfiles hcount,
        flatMap_slices hper hne fun i posts => pageCommands ext loop (page + i) posts,
        ← List.append_assoc]
      have hmem : ∀ file ∈ files.drop loop.options.perPage, file.isDir = false :=
        fun file hfile => hdirs file (List.mem_of_mem_drop hfile)
      have hdropLen := List.length_drop (i := loop.options.perPage) (l := files)
      by_cases hrest : files.drop loop.options.perPage = []
      · -- the last page: the loop ends whatever its counters are
        rw [hrest, List.length_nil, sliceCount_zero hper, List.range_zero, List.flatMap_nil,
          List.append_nil]
        rfl
      · have hrestLen := List.length_pos_iff.mpr hrest
        rw [List.length_take_of_le (by omega), ← Nat.succ_mul, ih hmem]
        · simp only [Nat.succ_eq_add_one, Nat.add_assoc, Nat.add_comm 1, Nat.add_zero]
        · rw [Nat.succ_mul]
          omega

end Loop

section Directory

variable (ext : External) (options : ContentOptions) (dir : ContentDir)

/-- The number of pages of the listing. -/
def pageCount : Nat := sliceCount options.perPage (postFiles dir).length

/-- The posts that are listed on the page with the given index. -/
def pagePosts (page : Nat) : List PostFile := slice options.perPage (postFiles dir) page

/-- The commands that store the error pages. -/
def errorCommands : Commands :=
  [("400", dir.error400), ("404", dir.error404), ("500", dir.error500)].map fun entry =>
    (pageErrorKeyPrefix ++ ascii entry.1,
      compiledContent ext (int32 options.markdownCompile) true dir.layoutText (readText entry.2))

/-- All commands of one run over the content directory. -/
def siteCommands : Commands :=
  errorCommands ext options dir ++ (List.range (pageCount options dir)).flatMap fun page =>
    pageCommands ext (dir.postLoop options) page (pagePosts options dir page)

end Directory

/-- The templates always compile, and the three error pages are stored before the posts. -/
theorem initContents_eq {ext : External} (hspec : ext.PcreSpec) (options : ContentOptions)
    (dir : ContentDir) (commands : Commands) :
    initContents ext options dir commands =
      storePosts ext (dir.postLoop options) dir.posts 0 1 []
        (commands ++ errorCommands ext options dir) := by
  simp only [initContents, readFileContent_eq, strReplace_eq, storeErrorPage,
    compileTemplate_eq hspec, executeSet, bind_apply, lift_ok, modify_apply]
  simp [errorCommands, ContentDir.postLoop, ContentDir.layoutText, compiledObj]

theorem initContents_apply {ext : External} (hspec : ext.PcreSpec) {options : ContentOptions}
    (hper : 0 < options.perPage) {dir : ContentDir} (hfiles : (postFiles dir).length < 999999999)
    (commands : Commands) :
    initContents ext options dir commands =
      .ok ⟨⟩ (commands ++ siteCommands ext options dir) := by
  have hcount : (dir.postLoop options).numFiles = (postFiles dir).length :=
    Nat.mod_eq_of_lt (Nat.lt_trans hfiles (by decide))
  have hdirs : ∀ file ∈ postFiles dir, file.isDir = false := by
    intro file hfile
    simpa using (List.mem_filter.mp hfile).2
  have hrun : ∀ before, storePosts ext (dir.postLoop options) dir.posts 0 1 [] before =
      .ok ⟨⟩ (before ++ (List.range (pageCount options dir)).flatMap fun page =>
        pageCommands ext (dir.postLoop options) page (pagePosts options dir page)) := by
    intro before
    have hpages := @storePosts_pages ext (dir.postLoop options) hspec hper (postFiles dir) hdirs 0
      (by rw [hcount, Nat.zero_mul, Nat.zero_add]) (by rw [hcount]; exact hfiles) before
    simp only [Nat.zero_mul, Nat.zero_add] at hpages
    rw [storePosts_files]
    exact hpages
  rw [initContents_eq hspec, hrun, siteCommands, List.append_assoc]

/-! ## Keys -/

theorem mem_postFiles_iff {options : ContentOptions} (hper : 0 < options.perPage)
    {dir : ContentDir} {file : PostFile} :
    file ∈ postFiles dir ↔
      ∃ page < pageCount options dir, file ∈ pagePosts options dir page := by
  conv_lhs => rw [← flatMap_slice hper (postFiles dir)]
  simp only [List.mem_flatMap, List.mem_range, pageCount, pagePosts]

/-- The kinds of commands of a run. -/
theorem mem_siteCommands {ext : External} {options : ContentOptions} (hper : 0 < options.perPage)
    {dir : ContentDir} {command : Bytes × Bytes} :
    command ∈ siteCommands ext options dir ↔
      command ∈ errorCommands ext options dir ∨
      (∃ file ∈ postFiles dir, command = postCommand ext (dir.postLoop options) file) ∨
      ∃ page < pageCount options dir, command = (pageKeyPrefix ++ decimal (page + 1),
        pageValue ext (dir.postLoop options) (pagePosts options dir page)
          (nextLink (dir.postLoop options) page)) := by
  simp only [siteCommands, List.mem_append, List.mem_flatMap, List.mem_range, pageCommands,
    List.mem_map, List.mem_singleton, mem_postFiles_iff hper]
  grind

theorem not_pageKey_postKey (stem : Bytes) : ¬ pageKeyPrefix <+: postKeyPrefix ++ stem := by
  intro hpre
  have htake := List.prefix_iff_eq_take.mp hpre
  rw [List.take_append_of_le_length (by decide)] at htake
  exact absurd htake (by decide)

theorem not_errorKey_pageKey (number : Nat) :
    ¬ pageErrorKeyPrefix <+: pageKeyPrefix ++ decimal number := by
  intro hpre
  rw [show pageErrorKeyPrefix = pageKeyPrefix ++ ascii "::error" from rfl,
    List.prefix_append_right_inj] at hpre
  have hmem : (58 : UInt8) ∈ decimal number := hpre.subset (by decide)
  exact absurd (isdigit_of_mem_decimal hmem) (by decide)

theorem errorKey_of_mem {ext : External} {options : ContentOptions} {dir : ContentDir}
    {command : Bytes × Bytes} (hmem : command ∈ errorCommands ext options dir) :
    pageErrorKeyPrefix <+: command.1 := by
  obtain ⟨entry, -, rfl⟩ := List.mem_map.mp hmem
  exact List.prefix_append _ _

theorem nextLink_eq {options : ContentOptions} (hper : 0 < options.perPage) {dir : ContentDir}
    (hfiles : (postFiles dir).length < 999999999) (page : Nat) :
    nextLink (dir.postLoop options) page =
      if page + 1 < pageCount options dir then moreLink (page + 2) else [] := by
  have hcount : (dir.postLoop options).numFiles = (postFiles dir).length :=
    Nat.mod_eq_of_lt (Nat.lt_trans hfiles (by decide))
  rw [nextLink, hcount]
  exact if_congr (lt_sliceCount_iff hper _ _).symm rfl rfl

/-- The value of the page with the given index. -/
def listedPage (ext : External) (options : ContentOptions) (dir : ContentDir) (page : Nat) :
    Bytes :=
  pageValue ext (dir.postLoop options) (pagePosts options dir page)
    (if page + 1 < pageCount options dir then moreLink (page + 2) else [])

theorem nul_notMem_listedPage (ext : External) (options : ContentOptions) (dir : ContentDir)
    (page : Nat) : 0 ∉ listedPage ext options dir page := by
  unfold listedPage
  apply nul_notMem_pageValue
  split
  next => exact nul_notMem_moreLink _
  next => exact List.not_mem_nil

/-- The page keys of a run and their values. -/
theorem mem_siteCommands_page {ext : External} {options : ContentOptions}
    (hper : 0 < options.perPage) {dir : ContentDir}
    (hfiles : (postFiles dir).length < 999999999) (key value : Bytes) :
    (key, value) ∈ siteCommands ext options dir ∧ pageKeyPrefix <+: key ∧
        ¬ pageErrorKeyPrefix <+: key ↔
      ∃ page < pageCount options dir, key = pageKeyPrefix ++ decimal (page + 1) ∧
        value = listedPage ext options dir page := by
  rw [mem_siteCommands hper]
  simp only [nextLink_eq hper hfiles]
  constructor
  · intro ⟨hmem, hkey, hnot⟩
    rcases hmem with herror | ⟨file, hfile, hpost⟩ | ⟨page, hpage, hcommand⟩
    · exact absurd (errorKey_of_mem herror) hnot
    · obtain ⟨rfl, -⟩ := Prod.mk.inj hpost
      exact absurd hkey (not_pageKey_postKey _)
    · exact ⟨page, hpage, (Prod.mk.inj hcommand).1, (Prod.mk.inj hcommand).2⟩
  · intro ⟨page, hpage, hkey, hvalue⟩
    rw [hkey, hvalue]
    exact ⟨.inr (.inr ⟨page, hpage, rfl⟩), List.prefix_append _ _, not_errorKey_pageKey _⟩

/-- Pagination partitions the posts. A run writes a page key for each slice of the posts and no
other, page `page + 1` shows the cards of its slice in order, and it links to the next page when
there is one. -/
theorem initContents_paginates {ext : External} (hspec : ext.PcreSpec) (options : ContentOptions)
    (hper : 1 ≤ options.perPage) (dir : ContentDir)
    (hfiles : (postFiles dir).length < 999999999) :
    ∃ commands, initContents ext options dir [] = .ok ⟨⟩ commands ∧
      (∀ key value,
        (key, value) ∈ commands ∧ pageKeyPrefix <+: key ∧ ¬ pageErrorKeyPrefix <+: key ↔
          ∃ page < pageCount options dir, key = pageKeyPrefix ++ decimal (page + 1) ∧
            value = pageValue ext (dir.postLoop options) (pagePosts options dir page)
              (if page + 1 < pageCount options dir then moreLink (page + 2) else [])) ∧
      (List.range (pageCount options dir)).flatMap (pagePosts options dir) = postFiles dir := by
  refine ⟨_, initContents_apply hspec hper hfiles [], ?_, flatMap_slice hper _⟩
  intro key value
  exact mem_siteCommands_page hper hfiles key value

/-- Three files and a directory, two posts to a page. -/
def samplePosts : List PostFile :=
  [samplePost, ⟨ascii "b.html", by decide, false, some (ascii "@section_content B @endsection")⟩,
    ⟨ascii "drafts", by decide, true, none⟩,
    ⟨ascii "c.html", by decide, false, some (ascii "@section_content C @endsection")⟩]

theorem initContents_paginates_sample :
    pageCount ⟨2, 0⟩ (sampleDir samplePosts) = 2 ∧
      ∃ commands, initContents sampleExternal ⟨2, 0⟩ (sampleDir samplePosts) [] = .ok ⟨⟩ commands ∧
        (∀ key value,
          (key, value) ∈ commands ∧ pageKeyPrefix <+: key ∧ ¬ pageErrorKeyPrefix <+: key ↔
            ∃ page < pageCount ⟨2, 0⟩ (sampleDir samplePosts),
              key = pageKeyPrefix ++ decimal (page + 1) ∧
              value = pageValue sampleExternal ((sampleDir samplePosts).postLoop ⟨2, 0⟩)
                (pagePosts ⟨2, 0⟩ (sampleDir samplePosts) page)
                (if page + 1 < pageCount ⟨2, 0⟩ (sampleDir samplePosts)
                  then moreLink (page + 2) else [])) ∧
        (List.range (pageCount ⟨2, 0⟩ (sampleDir samplePosts))).flatMap
          (pagePosts ⟨2, 0⟩ (sampleDir samplePosts)) = postFiles (sampleDir samplePosts) :=
  ⟨by decide, initContents_paginates sampleExternal_pcreSpec ⟨2, 0⟩ (by decide)
    (sampleDir samplePosts) (by decide)⟩

end Blogd
