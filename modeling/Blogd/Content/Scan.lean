import Blogd.Content.Directory
import Blogd.Content.Returned
import Blogd.Content.Sample

/-! # The scan of the posts directory

What a run makes of the entries of the posts directory. The posts are listed by their names, those
that begin with a date newest first, and the pages do not depend on the order in which the file
system returns the entries. One entry that cannot be read hides all the others.
-/

namespace Blogd

/-! ## Dated names -/

/-- The last `width` digits of a number. -/
def padded : Nat → Nat → Bytes
  | 0, _ => []
  | width + 1, n => padded width (n / 10) ++ [digitByte (n % 10)]

theorem padded_lt {width n m : Nat} (hlt : n < m) (hm : m < 10 ^ width) (s t : Bytes) :
    padded width n ++ s < padded width m ++ t := by
  induction width generalizing n m s t with
  | zero => omega
  | succ width ih =>
      rw [padded, padded, List.append_assoc, List.append_assoc]
      rcases Nat.lt_or_ge (n / 10) (m / 10) with htens | htens
      · exact ih htens (by omega) _ _
      · rw [show n / 10 = m / 10 by omega]
        apply List.append_left_lt
        refine List.cons_lt_cons_iff.mpr (.inl ?_)
        rw [UInt8.lt_iff_toNat_lt, toNat_digitByte (Nat.mod_lt n (by decide)),
          toNat_digitByte (Nat.mod_lt m (by decide))]
        omega

/-- A day, as the names of the posts begin with it. -/
structure Date where
  year : Nat
  month : Nat
  day : Nat
  year_lt : year < 10 ^ 4
  month_lt : month < 10 ^ 2
  day_lt : day < 10 ^ 2

def Date.before (date date' : Date) : Prop :=
  date.year < date'.year ∨ date.year = date'.year ∧
    (date.month < date'.month ∨ date.month = date'.month ∧ date.day < date'.day)

/-- The name `Y-m-d-title`. -/
def Date.name (date : Date) (title : Bytes) : Bytes :=
  padded 4 date.year ++ 45 :: (padded 2 date.month ++ 45 :: (padded 2 date.day ++ 45 :: title))

theorem Date.name_lt {date date' : Date} (hbefore : date.before date') (title title' : Bytes) :
    date.name title < date'.name title' := by
  unfold Date.name
  rcases hbefore with hyear | ⟨hyear, hmonth | ⟨hmonth, hday⟩⟩
  · exact padded_lt hyear date'.year_lt _ _
  · rw [hyear]
    apply List.append_left_lt
    exact List.cons_lt_cons_iff.mpr (.inr ⟨rfl, padded_lt hmonth date'.month_lt _ _⟩)
  · rw [hyear, hmonth]
    apply List.append_left_lt
    refine List.cons_lt_cons_iff.mpr (.inr ⟨rfl, ?_⟩)
    apply List.append_left_lt
    exact List.cons_lt_cons_iff.mpr (.inr ⟨rfl, padded_lt hday date'.day_lt _ _⟩)

/-- Of two dated posts the second one is not the newer. -/
def newestFirst (a b : PostFile) : Prop :=
  ∀ date date' : Date, ∀ title title', a.name = date.name title → b.name = date'.name title' →
    ¬ date.before date'

theorem newestFirst_of_listedBefore {a b : PostFile} (ha : a.isDir = false)
    (hab : listedBefore a b) : newestFirst a b := by
  intro date date' title title' hname hname' hbefore
  rcases hab with ⟨hdir, -⟩ | ⟨-, hlt⟩
  · rw [ha] at hdir
    cases hdir
  · rw [hname, hname'] at hlt
    exact List.lt_asymm hlt (Date.name_lt hbefore title title')

/-! ## The order of the posts -/

section Scan

variable {qsort : (PostFile → PostFile → Int) → List PostFile → List PostFile} {path : Bytes}
  {entries : List DirEntry}

theorem tinydirOpenSorted_pairwise (hqsort : Sorts qsort)
    (hnames : (entries.map DirEntry.name).Nodup) :
    (tinydirOpenSorted qsort path entries).Pairwise listedBefore := by
  by_cases hall : ∀ entry ∈ entries, readable path entry
  · exact (tinydirOpenSorted_sorted hqsort hnames hall).2
  · rw [tinydirOpenSorted_eq, if_neg hall]
    exact List.Pairwise.nil

theorem postFiles_newestFirst (hqsort : Sorts qsort) (hnames : (entries.map DirEntry.name).Nodup)
    (dir : ContentDir) : (postFiles (dir.withPosts qsort path entries)).Pairwise newestFirst := by
  have hsorted : (tinydirOpenSorted qsort path entries).Pairwise listedBefore :=
    tinydirOpenSorted_pairwise hqsort hnames
  refine (hsorted.filter (!·.isDir)).imp_of_mem ?_
  intro a b ha _ hab
  exact newestFirst_of_listedBefore (by simpa using (List.mem_filter.mp ha).2) hab

/-- The posts of all pages, one page after the other. -/
theorem pagePosts_pairwise {options : ContentOptions} {dir : ContentDir}
    {R : PostFile → PostFile → Prop} (hposts : (postFiles dir).Pairwise R) :
    ((List.range (pageCount options dir)).flatMap (pagePosts options dir)).Pairwise R := by
  rcases Nat.eq_zero_or_pos options.perPage with hzero | hper
  · rw [pageCount, hzero, sliceCount, Nat.div_zero]
    exact List.Pairwise.nil
  · unfold pageCount pagePosts
    rw [flatMap_slice hper]
    exact hposts

/-- A compilation of these entries. -/
structure ListsInOrder (qsort : (PostFile → PostFile → Int) → List PostFile → List PostFile)
    (path : Bytes) (entries : List DirEntry) : Prop where
  /-- Directories first, then the other entries, and both by descending names. -/
  sorted : (tinydirOpenSorted qsort path entries).Pairwise listedBefore
  complete : (∀ entry ∈ entries, readable path entry) →
    (tinydirOpenSorted qsort path entries).Perm (entries.filterMap (tinydirReadfile path))
  newest : ∀ (options : ContentOptions) (dir : ContentDir),
    ((List.range (pageCount options (dir.withPosts qsort path entries))).flatMap
      (pagePosts options (dir.withPosts qsort path entries))).Pairwise newestFirst
  stored : ∀ ext : External, ext.PcreSpec → ∀ options : ContentOptions, 1 ≤ options.perPage →
    ∀ dir : ContentDir, (postFiles (dir.withPosts qsort path entries)).length < 999999999 →
      ∃ commands, initContents ext options (dir.withPosts qsort path entries) [] =
        .ok ⟨⟩ commands ∧ ∀ page < pageCount options (dir.withPosts qsort path entries),
          (pageKeyPrefix ++ decimal (page + 1),
            listedPage ext options (dir.withPosts qsort path entries) page) ∈ commands

/-- The listing depends on the entries alone, not on their order. -/
theorem postsListing_ordered (hqsort : Sorts qsort) (hnames : (entries.map DirEntry.name).Nodup)
    {entries' : List DirEntry} (hperm : entries.Perm entries') :
    ListsInOrder qsort path entries ∧
      tinydirOpenSorted qsort path entries = tinydirOpenSorted qsort path entries' ∧
      ∀ ext options (dir : ContentDir),
        initContents ext options (dir.withPosts qsort path entries) =
          initContents ext options (dir.withPosts qsort path entries') := by
  have hsame : tinydirOpenSorted qsort path entries = tinydirOpenSorted qsort path entries' :=
    tinydirOpenSorted_perm hqsort hnames hperm
  refine ⟨⟨?_, ?_, ?_, ?_⟩, hsame, ?_⟩
  · exact tinydirOpenSorted_pairwise hqsort hnames
  · intro hall
    exact (tinydirOpenSorted_sorted hqsort hnames hall).1
  · intro options dir
    exact pagePosts_pairwise (postFiles_newestFirst hqsort hnames dir)
  · intro ext hspec options hper dir hfiles
    refine ⟨_, initContents_apply hspec hper hfiles [], ?_⟩
    intro page hpage
    exact ((mem_siteCommands_page hper hfiles _ _).mpr ⟨page, hpage, rfl, rfl⟩).1
  · intro ext options dir
    rw [ContentDir.withPosts, ContentDir.withPosts, hsame]

/-- Two dated posts and a directory. -/
def scanEntries : List DirEntry :=
  [⟨ascii "2016-11-02-old", by decide, some .regular, some (ascii "A")⟩,
    ⟨ascii "unsorted", by decide, some .directory, none⟩,
    ⟨ascii "2017-01-09-new", by decide, some .regular, some (ascii "B")⟩]

def insertionQsort (cmp : PostFile → PostFile → Int) (l : List PostFile) : List PostFile :=
  l.insertionSort fun a b => cmp a b < 0

theorem postsListing_ordered_sample :
    (tinydirOpenSorted insertionQsort (ascii "posts") scanEntries).map PostFile.name =
        [ascii "unsorted", ascii "2017-01-09-new", ascii "2016-11-02-old"] ∧
      ListsInOrder insertionQsort (ascii "posts") scanEntries ∧
      tinydirOpenSorted insertionQsort (ascii "posts") scanEntries =
        tinydirOpenSorted insertionQsort (ascii "posts") scanEntries.reverse ∧
      ∀ ext options (dir : ContentDir),
        initContents ext options (dir.withPosts insertionQsort (ascii "posts") scanEntries) =
          initContents ext options
            (dir.withPosts insertionQsort (ascii "posts") scanEntries.reverse) :=
  ⟨by decide, postsListing_ordered insertionSort_sorts (by decide) (List.reverse_perm _).symm⟩

/-! ## Entries that cannot be read -/

/-- The entries that cannot be read do not hide the others, as far as these are files of the given
kinds. -/
structure KeepsOthers (ext : External) (options : ContentOptions) (dir : ContentDir)
    (qsort : (PostFile → PostFile → Int) → List PostFile → List PostFile) (path : Bytes)
    (entries : List DirEntry) (kinds : FileKind → Prop) : Prop where
  /-- The run is that over the entries that can be read, if one of them is such a file or all are
  directories. -/
  same : (∃ entry ∈ entries, readable path entry ∧ ∃ kind, entry.stat = some kind ∧ kinds kind) ∨
      (∀ entry ∈ entries, readable path entry → entry.stat = some .directory) →
    initContents ext options (dir.withPosts qsort path entries) =
      initContents ext options (dir.withPosts qsort path (entries.filter (readable path)))
  /-- Every such file is stored and listed on a page. -/
  listed : 1 ≤ options.perPage → entries.length < 999999999 →
    ∃ commands, initContents ext options (dir.withPosts qsort path entries) [] =
      .ok ⟨⟩ commands ∧
        ∀ entry ∈ entries, ∀ kind, entry.stat = some kind → kinds kind →
          ∀ file, tinydirReadfile path entry = some file →
            postCommand ext ((dir.withPosts qsort path entries).postLoop options) file ∈ commands ∧
            ∃ page < pageCount options (dir.withPosts qsort path entries),
              file ∈ pagePosts options (dir.withPosts qsort path entries) page ∧
              (pageKeyPrefix ++ decimal (page + 1),
                listedPage ext options (dir.withPosts qsort path entries) page) ∈ commands

theorem tinydirOpenSorted_subset (hqsort : Sorts qsort)
    (hnames : (entries.map DirEntry.name).Nodup) :
    (tinydirOpenSorted qsort path entries).Subperm (entries.filterMap (tinydirReadfile path)) := by
  by_cases hall : ∀ entry ∈ entries, readable path entry
  · exact (tinydirOpenSorted_sorted hqsort hnames hall).1.subperm
  · rw [tinydirOpenSorted_eq, if_neg hall]
    exact List.nil_subperm

/-- With nothing but directories to read there are no posts. -/
theorem postFiles_withPosts_eq_nil (hqsort : Sorts qsort)
    (hnames : (entries.map DirEntry.name).Nodup)
    (hdirs : ∀ entry ∈ entries, readable path entry → entry.stat = some .directory)
    (dir : ContentDir) : postFiles (dir.withPosts qsort path entries) = [] := by
  refine List.filter_eq_nil_iff.mpr ?_
  intro file hfile
  obtain ⟨entry, hentry, hread⟩ :=
    List.mem_filterMap.mp ((tinydirOpenSorted_subset hqsort hnames).subset hfile)
  obtain ⟨-, -, -, kind, hstat, hkind⟩ := tinydirReadfile_eq_some hread
  rw [hdirs entry hentry (by rw [readable, hread]; rfl)] at hstat
  cases hstat
  simp [hkind]

/-- A post that is read is listed, if all entries can be read. -/
theorem mem_postFiles_withPosts (hqsort : Sorts qsort)
    (hnames : (entries.map DirEntry.name).Nodup)
    (hall : ∀ entry ∈ entries, readable path entry) (dir : ContentDir)
    {entry : DirEntry} (hentry : entry ∈ entries) {file : PostFile}
    (hread : tinydirReadfile path entry = some file) (hfile : file.isDir = false) :
    file ∈ postFiles (dir.withPosts qsort path entries) := by
  refine List.mem_filter.mpr ⟨?_, by rw [hfile]; rfl⟩
  exact (tinydirOpenSorted_sorted hqsort hnames hall).1.symm.subset
    (List.mem_filterMap.mpr ⟨entry, hentry, hread⟩)

/-- A run looks at the posts only. -/
theorem initContents_congr {ext : External} (hspec : ext.PcreSpec) (options : ContentOptions)
    {dir : ContentDir} {files files' : List PostFile}
    (hposts : postFiles { dir with posts := files } = postFiles { dir with posts := files' }) :
    initContents ext options { dir with posts := files } =
      initContents ext options { dir with posts := files' } := by
  have hfiles : files.filter (!·.isDir) = files'.filter (!·.isDir) := hposts
  funext commands
  rw [initContents_eq hspec, initContents_eq hspec, storePosts_files, storePosts_files _ _ files']
  simp only [ContentDir.postLoop, countFiles, hfiles]
  rfl

/-- A run with posts stores them, so it is not the run without any. -/
theorem initContents_ne_of_mem {ext : External} (hspec : ext.PcreSpec) {options : ContentOptions}
    {dir : ContentDir} {file : PostFile} (hfile : file ∈ postFiles dir) :
    initContents ext options { dir with posts := [] } [] ≠ initContents ext options dir [] := by
  intro hsame
  have hempty : initContents ext options { dir with posts := [] } [] =
      .ok ⟨⟩ (errorCommands ext options dir) := by
    rw [initContents_eq hspec]
    rfl
  have hstored : postCommand ext (dir.postLoop options) file ∈ errorCommands ext options dir :=
    (mem_commands_post hspec (hsame.symm.trans hempty) _ _).mpr ⟨file, hfile, rfl, rfl⟩
  have hpost := isPostCommand_postCommand ext (dir.postLoop options) file
  rw [isPostCommand_error hstored] at hpost
  cases hpost

/-- Files of some kinds are kept, which are not directories, exactly if all entries can be read or
none of those that can is such a file. -/
theorem keepsOthers_iff {ext : External} (hspec : ext.PcreSpec) (options : ContentOptions)
    (dir : ContentDir) (hqsort : Sorts qsort) (path : Bytes)
    (hnames : (entries.map DirEntry.name).Nodup) {kinds : FileKind → Prop}
    (hkinds : ¬ kinds .directory) :
    KeepsOthers ext options dir qsort path entries kinds ↔
      (∀ entry ∈ entries, readable path entry) ∨
        ∀ entry ∈ entries, readable path entry → ∀ kind, entry.stat = some kind → ¬ kinds kind := by
  have hfilter : ((entries.filter (readable path)).map DirEntry.name).Nodup :=
    (List.filter_sublist.map _).nodup hnames
  have hread_filter : ∀ entry ∈ entries.filter (readable path), readable path entry :=
    fun entry hentry => (List.mem_filter.mp hentry).2
  -- a file of these kinds is a post
  have hpost : ∀ {entry : DirEntry} {file : PostFile} {kind : FileKind},
      tinydirReadfile path entry = some file → entry.stat = some kind → kinds kind →
        file.isDir = false := by
    intro entry file kind hread hstat hkind
    obtain ⟨-, -, -, found, hfound, hdir⟩ := tinydirReadfile_eq_some hread
    rw [hstat] at hfound
    cases hfound
    rw [hdir]
    simp only [decide_eq_false_iff_not]
    rintro rfl
    exact hkinds hkind
  constructor
  · intro hkeeps
    refine or_iff_not_imp_left.mpr fun hall entry hentry hread kind hstat hkind => ?_
    obtain ⟨file, hfile⟩ := Option.isSome_iff_exists.mp hread
    -- the run over the readable entries stores this post, and the run itself finds no posts
    have hposts := mem_postFiles_withPosts hqsort hfilter hread_filter dir
      (List.mem_filter.mpr ⟨hentry, hread⟩) hfile (hpost hfile hstat hkind)
    have hempty : dir.withPosts qsort path entries =
        { dir.withPosts qsort path (entries.filter (readable path)) with posts := [] } := by
      rw [ContentDir.withPosts, tinydirOpenSorted_eq, if_neg hall]
      rfl
    apply initContents_ne_of_mem hspec hposts
    rw [← hempty, hkeeps.same (.inl ⟨entry, hentry, hread, kind, hstat, hkind⟩)]
  · intro hgood
    refine ⟨?_, ?_⟩
    · rintro (⟨entry, hentry, hread, kind, hstat, hkind⟩ | hdirs)
      · rcases hgood with hall | hnone
        · rw [List.filter_eq_self.mpr hall]
        · exact absurd hkind (hnone entry hentry hread kind hstat)
      -- there are no posts on either side
      · have hnone := postFiles_withPosts_eq_nil hqsort hnames hdirs dir
        have hnone' := postFiles_withPosts_eq_nil hqsort hfilter
          (fun entry hentry => hdirs entry (List.mem_of_mem_filter hentry)) dir
        exact initContents_congr hspec options (hnone.trans hnone'.symm)
    · intro hper hlength
      have hfiles : (postFiles (dir.withPosts qsort path entries)).length < 999999999 :=
        calc (postFiles (dir.withPosts qsort path entries)).length
          _ ≤ (tinydirOpenSorted qsort path entries).length := List.length_filter_le _ _
          _ ≤ (entries.filterMap (tinydirReadfile path)).length :=
              (tinydirOpenSorted_subset hqsort hnames).length_le
          _ ≤ entries.length := List.length_filterMap_le _ _
          _ < 999999999 := hlength
      refine ⟨_, initContents_apply hspec hper hfiles [], ?_⟩
      intro entry hentry kind hstat hkind file hread
      have hposts : file ∈ postFiles (dir.withPosts qsort path entries) := by
        rcases hgood with hall | hnone
        · exact mem_postFiles_withPosts hqsort hnames hall dir hentry hread
            (hpost hread hstat hkind)
        · exact absurd hkind (hnone entry hentry (by rw [readable, hread]; rfl) kind hstat)
      obtain ⟨page, hpage, hmem⟩ := (mem_postFiles_iff hper).mp hposts
      exact ⟨(mem_siteCommands hper).mpr (.inr (.inl ⟨file, hposts, rfl⟩)), page, hpage, hmem,
        ((mem_siteCommands_page hper hfiles _ _).mpr ⟨page, hpage, rfl, rfl⟩).1⟩

theorem keepsOthers_sample :
    KeepsOthers sampleExternal ⟨2, 0⟩ (sampleDir []) insertionQsort (ascii "posts") scanEntries
      (· = .regular) :=
  (keepsOthers_iff sampleExternal_pcreSpec ⟨2, 0⟩ (sampleDir []) insertionSort_sorts
    (ascii "posts") (by decide) (by decide)).mpr (.inl (by decide))

/-- A post and a symbolic link to nothing. -/
def danglingEntries : List DirEntry :=
  [⟨ascii "post.md", by decide, some .regular, some (ascii "@section_content A @endsection")⟩,
    ⟨ascii "link", by decide, none, none⟩]

theorem dangling_hides :
    tinydirOpenSorted insertionQsort (ascii "posts") danglingEntries = [] ∧
      (tinydirOpenSorted insertionQsort (ascii "posts")
        (danglingEntries.filter (readable (ascii "posts")))).map PostFile.name = [ascii "post.md"] ∧
      ¬ KeepsOthers sampleExternal ⟨2, 0⟩ (sampleDir []) insertionQsort (ascii "posts")
        danglingEntries (· = .regular) := by
  refine ⟨by decide, by decide, ?_⟩
  intro hkeeps
  have hpost : ⟨ascii "post.md", by decide, false, some (ascii "@section_content A @endsection")⟩ ∈
      postFiles ((sampleDir []).withPosts insertionQsort (ascii "posts")
        (danglingEntries.filter (readable (ascii "posts")))) := by decide
  exact initContents_ne_of_mem sampleExternal_pcreSpec hpost
    (congrFun (hkeeps.same (.inl ⟨_, List.mem_cons_self, by decide, .regular, rfl, rfl⟩)) [])

end Scan

end Blogd
