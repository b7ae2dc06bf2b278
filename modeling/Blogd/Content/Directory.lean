import Blogd.Content.Pagination
import Blogd.Foundation.Sorting

/-! # Reading the posts directory

The entries of the posts directory are counted, read one after the other and sorted. The order of
the sorted entries is that of their names, whatever order the file system returns them in. One
entry that cannot be read makes the directory look empty.
-/

namespace Blogd

/-! ## The directory reader -/

def tinydirPathMax : Nat := 4096
def tinydirFilenameMax : Nat := 256

inductive FileKind
  | directory
  | regular
  | other
deriving DecidableEq, Repr

/-- An entry as `readdir` returns it, with what `stat` tells of it, `none` when it fails, and the
content of the file. -/
structure DirEntry where
  name : Bytes
  name_nul : 0 ∉ name
  stat : Option FileKind
  content : Option Bytes
deriving Repr

/-- `tinydir_readfile` for the entry at which the directory stands. -/
def tinydirReadfile (path : Bytes) (entry : DirEntry) : Option PostFile :=
  if path.length + entry.name.length + 1 ≥ tinydirPathMax then none
  else if entry.name.length ≥ tinydirFilenameMax then none
  else
    match entry.stat with
    | none => none
    | some kind => some ⟨entry.name, entry.name_nul, kind = .directory, entry.content⟩

/-- The entry can be read. -/
def readable (path : Bytes) (entry : DirEntry) : Bool := (tinydirReadfile path entry).isSome

/-- The loop that fills `_files`. It ends with the first entry that cannot be read, and when it has
read as many entries as were counted before. -/
def readFiles (path : Bytes) (count : Nat) :
    List DirEntry → List PostFile → Option (List PostFile)
  | [], files => some files
  | entry :: rest, files =>
      match tinydirReadfile path entry with
      | none => none
      | some file =>
          if files.length + 1 = count then some (files ++ [file])
          else readFiles path count rest (files ++ [file])

/-- `strncmp` of two strings, which end in a NUL. -/
def strncmp : Nat → Bytes → Bytes → Int
  | 0, _, _ => 0
  | _ + 1, [], [] => 0
  | _ + 1, [], b :: _ => -b.toNat
  | _ + 1, a :: _, [] => a.toNat
  | n + 1, a :: s, b :: t => if a = b then strncmp n s t else a.toNat - b.toNat

/-- `_tinydir_file_cmp`, which is never zero. -/
def tinydirFileCmp (a b : PostFile) : Int :=
  if a.isDir ≠ b.isDir then -((if a.isDir then 1 else 0) - (if b.isDir then 1 else 0))
  else if strncmp tinydirFilenameMax a.name b.name > 0 then -1
  else 1

section Open

variable (qsort : (PostFile → PostFile → Int) → List PostFile → List PostFile) (path : Bytes)

/-- The files that `tinydir_open_sorted` leaves in the structure of a directory that can be opened.
On an error the directory is closed, which leaves none, and the caller goes on. -/
def tinydirOpenSorted (entries : List DirEntry) : List PostFile :=
  match readFiles path entries.length entries [] with
  | none => []
  | some files => qsort tinydirFileCmp files

/-- The content directory with these entries in its posts directory. -/
def ContentDir.withPosts (dir : ContentDir) (entries : List DirEntry) : ContentDir :=
  { dir with posts := tinydirOpenSorted qsort path entries }

end Open

/-! ## What is read -/

section Read

variable {path : Bytes} {entry : DirEntry} {file : PostFile}

theorem tinydirReadfile_eq_some (hread : tinydirReadfile path entry = some file) :
    file.name = entry.name ∧ entry.name.length < tinydirFilenameMax ∧
      file.content = entry.content ∧ ∃ kind, entry.stat = some kind ∧
        file.isDir = decide (kind = .directory) := by
  unfold tinydirReadfile at hread
  split at hread
  next => cases hread
  next =>
    split at hread
    next => cases hread
    next hname =>
      split at hread
      next => cases hread
      next kind hstat =>
        cases hread
        exact ⟨rfl, Nat.lt_of_not_le hname, rfl, kind, hstat, rfl⟩

/-- The loop reads every entry, or gives up. -/
theorem readFiles_eq (entries : List DirEntry) (files : List PostFile) :
    readFiles path (files.length + entries.length) entries files =
      if ∀ entry ∈ entries, readable path entry then
        some (files ++ entries.filterMap (tinydirReadfile path))
      else none := by
  induction entries generalizing files with
  | nil => simp [readFiles]
  | cons entry rest ih =>
      cases hread : tinydirReadfile path entry with
      | none => simp [readFiles, readable, hread]
      | some file =>
          have hnext := ih (files ++ [file])
          rw [List.length_append, List.length_singleton, Nat.add_assoc, Nat.add_comm 1] at hnext
          rw [readFiles, hread, List.length_cons]
          dsimp only
          split
          -- the count is reached with the last entry and not before
          next hlast =>
            obtain rfl : rest = [] := List.length_eq_zero_iff.mp (by omega)
            simp [readable, hread]
          next => simp [hnext, readable, hread]

/-- The names that are read are among those of the entries. -/
theorem map_name_sublist (path : Bytes) (entries : List DirEntry) :
    ((entries.filterMap (tinydirReadfile path)).map PostFile.name).Sublist
      (entries.map DirEntry.name) := by
  induction entries with
  | nil => exact List.Sublist.slnil
  | cons entry rest ih =>
      cases hread : tinydirReadfile path entry with
      | none =>
          rw [List.filterMap_cons_none hread, List.map_cons]
          exact ih.cons _
      | some file =>
          rw [List.filterMap_cons_some hread, List.map_cons, List.map_cons,
            (tinydirReadfile_eq_some hread).1]
          exact ih.cons_cons _

end Read

/-! ## The comparator -/

/-- Directories come first, and in each group the greater names. -/
def listedBefore (a b : PostFile) : Prop :=
  a.isDir = true ∧ b.isDir = false ∨ a.isDir = b.isDir ∧ b.name < a.name

theorem strncmp_pos_iff {n : Nat} {s t : Bytes} (hs : 0 ∉ s) (hslen : s.length < n)
    (htlen : t.length < n) : 0 < strncmp n s t ↔ t < s := by
  induction n generalizing s t with
  | zero => omega
  | succ n ih =>
      cases s with
      | nil =>
          cases t with
          | nil => simp [strncmp]
          | cons b t => simp [strncmp]
      | cons a s =>
          -- where the other name has ended, any byte of this one is above its NUL
          have ha : 0 < a.toNat := by
            rw [Nat.pos_iff_ne_zero]
            intro hzero
            have hnul : a = 0 := UInt8.toNat_inj.mp hzero
            exact hs (hnul ▸ List.mem_cons_self)
          cases t with
          | nil => simp [strncmp, ha]
          | cons b t =>
              rw [strncmp, List.cons_lt_cons_iff]
              by_cases hab : a = b
              · subst hab
                have hrest := @ih s t (fun hmem => hs (List.mem_cons_of_mem a hmem))
                  (Nat.lt_of_succ_lt_succ hslen) (Nat.lt_of_succ_lt_succ htlen)
                simp [hrest]
              · have hba : ¬ b = a := fun heq => hab heq.symm
                simp only [hab, if_false, hba, false_and, or_false, UInt8.lt_iff_toNat_lt]
                omega

section Comparator

variable {a b c : PostFile}

theorem tinydirFileCmp_neg_iff (ha : a.name.length < tinydirFilenameMax)
    (hb : b.name.length < tinydirFilenameMax) : tinydirFileCmp a b < 0 ↔ listedBefore a b := by
  have hnames := strncmp_pos_iff a.name_nul ha hb
  unfold tinydirFileCmp listedBefore
  by_cases hsame : a.isDir = b.isDir
  · have hfirst : ¬ (a.isDir = true ∧ b.isDir = false) := by
      rintro ⟨ha, hb⟩
      rw [ha, hb] at hsame
      cases hsame
    rw [if_neg (not_not.mpr hsame), or_iff_right hfirst, and_iff_right hsame, ← hnames]
    split
    next hpos => exact iff_of_true (by decide) hpos
    next hpos => exact iff_of_false (by decide) hpos
  · rw [if_pos hsame]
    cases ha : a.isDir <;> cases hb : b.isDir <;> simp_all

theorem tinydirFileCmp_ne_zero (a b : PostFile) : tinydirFileCmp a b ≠ 0 := by
  unfold tinydirFileCmp
  split
  next hdir => cases ha : a.isDir <;> cases hb : b.isDir <;> simp_all
  next => split <;> decide

theorem listedBefore_asymm (hab : listedBefore a b) : ¬ listedBefore b a := by
  rintro (⟨hb, ha⟩ | ⟨hsame, hlt⟩)
  · rcases hab with ⟨ha', -⟩ | ⟨hsame, -⟩
    · rw [ha] at ha'
      cases ha'
    · rw [ha, hb] at hsame
      cases hsame
  · rcases hab with ⟨ha, hb⟩ | ⟨-, hlt'⟩
    · rw [ha, hb] at hsame
      cases hsame
    · exact List.lt_asymm hlt hlt'

theorem listedBefore_trans (hab : listedBefore a b) (hbc : listedBefore b c) :
    listedBefore a c := by
  rcases hab with ⟨ha, hb⟩ | ⟨hsame, hlt⟩
  · rcases hbc with ⟨hb', -⟩ | ⟨hsame', -⟩
    · rw [hb] at hb'
      cases hb'
    · exact .inl ⟨ha, hsame' ▸ hb⟩
  · rcases hbc with ⟨hb, hc⟩ | ⟨hsame', hlt'⟩
    · exact .inl ⟨hsame.trans hb, hc⟩
    · exact .inr ⟨hsame.trans hsame', List.lt_trans hlt' hlt⟩

theorem listedBefore_total (hne : a.name ≠ b.name) : listedBefore a b ∨ listedBefore b a := by
  by_cases hsame : a.isDir = b.isDir
  · by_cases hlt : b.name < a.name
    · exact .inl (.inr ⟨hsame, hlt⟩)
    · refine .inr (.inr ⟨hsame.symm, ?_⟩)
      by_contra hge
      exact hne (List.le_antisymm (List.not_lt.mp hlt) (List.not_lt.mp hge))
  · cases ha : a.isDir with
    | true => exact .inl (.inl ⟨ha, by simpa [ha] using hsame⟩)
    | false => exact .inr (.inl ⟨by simpa [ha] using hsame, ha⟩)

/-- On files with different names the comparator is a strict total order. -/
theorem tinydirFileCmp_strictOn {files : List PostFile}
    (hnames : (files.map PostFile.name).Nodup)
    (hshort : ∀ file ∈ files, file.name.length < tinydirFilenameMax) :
    StrictOn tinydirFileCmp files where
  total a ha b hb hne := by
    rw [tinydirFileCmp_neg_iff (hshort a ha) (hshort b hb),
      tinydirFileCmp_neg_iff (hshort b hb) (hshort a ha)]
    exact listedBefore_total fun hname => hne (List.inj_on_of_nodup_map hnames ha hb hname)
  asymm a ha b hb hab := by
    rw [tinydirFileCmp_neg_iff (hshort a ha) (hshort b hb)] at hab
    have hba := (tinydirFileCmp_neg_iff (hshort b hb) (hshort a ha)).not.mpr
      (listedBefore_asymm hab)
    -- the comparator is never zero, so what is not negative is positive
    have hzero := tinydirFileCmp_ne_zero b a
    omega
  trans a ha b hb c hc hab hbc := by
    rw [tinydirFileCmp_neg_iff (hshort a ha) (hshort b hb)] at hab
    rw [tinydirFileCmp_neg_iff (hshort b hb) (hshort c hc)] at hbc
    rw [tinydirFileCmp_neg_iff (hshort a ha) (hshort c hc)]
    exact listedBefore_trans hab hbc

end Comparator

/-! ## The listing -/

section Listing

variable {qsort : (PostFile → PostFile → Int) → List PostFile → List PostFile} {path : Bytes}
  {entries entries' : List DirEntry}

theorem tinydirOpenSorted_eq (entries : List DirEntry) :
    tinydirOpenSorted qsort path entries =
      if ∀ entry ∈ entries, readable path entry then
        qsort tinydirFileCmp (entries.filterMap (tinydirReadfile path))
      else [] := by
  have hread := @readFiles_eq path entries []
  rw [List.length_nil, Nat.zero_add, List.nil_append] at hread
  rw [tinydirOpenSorted, hread]
  by_cases hall : ∀ entry ∈ entries, readable path entry
  · rw [if_pos hall, if_pos hall]
  · rw [if_neg hall, if_neg hall]

theorem readEntries_nodup (hnames : (entries.map DirEntry.name).Nodup) :
    ((entries.filterMap (tinydirReadfile path)).map PostFile.name).Nodup :=
  (map_name_sublist path entries).nodup hnames

/-- The comparator can be used for the entries that were read. -/
theorem readEntries_strictOn (hnames : (entries.map DirEntry.name).Nodup) :
    StrictOn tinydirFileCmp (entries.filterMap (tinydirReadfile path)) := by
  refine tinydirFileCmp_strictOn (readEntries_nodup hnames) ?_
  intro file hfile
  obtain ⟨entry, -, hread⟩ := List.mem_filterMap.mp hfile
  obtain ⟨hname, hshort, -⟩ := tinydirReadfile_eq_some hread
  rw [hname]
  exact hshort

/-- The files are those that were read, in the order of the listing. -/
theorem tinydirOpenSorted_sorted (hqsort : Sorts qsort)
    (hnames : (entries.map DirEntry.name).Nodup)
    (hall : ∀ entry ∈ entries, readable path entry) :
    (tinydirOpenSorted qsort path entries).Perm (entries.filterMap (tinydirReadfile path)) ∧
      (tinydirOpenSorted qsort path entries).Pairwise listedBefore := by
  obtain ⟨hperm, hsorted⟩ := hqsort tinydirFileCmp (entries.filterMap (tinydirReadfile path))
    (List.Nodup.of_map _ (readEntries_nodup hnames)) (readEntries_strictOn hnames)
  rw [tinydirOpenSorted_eq, if_pos hall]
  refine ⟨hperm, hsorted.imp_of_mem ?_⟩
  intro a b ha hb hneg
  have hshort : ∀ file ∈ qsort tinydirFileCmp (entries.filterMap (tinydirReadfile path)),
      file.name.length < tinydirFilenameMax := by
    intro file hfile
    obtain ⟨entry, -, hread⟩ := List.mem_filterMap.mp (hperm.subset hfile)
    obtain ⟨hname, hlength, -⟩ := tinydirReadfile_eq_some hread
    rw [hname]
    exact hlength
  exact (tinydirFileCmp_neg_iff (hshort a ha) (hshort b hb)).mp hneg

/-- The order in which the file system returns the entries does not matter. -/
theorem tinydirOpenSorted_perm (hqsort : Sorts qsort)
    (hnames : (entries.map DirEntry.name).Nodup) (hperm : entries.Perm entries') :
    tinydirOpenSorted qsort path entries = tinydirOpenSorted qsort path entries' := by
  have hall : (∀ entry ∈ entries, readable path entry) ↔
      ∀ entry ∈ entries', readable path entry := by
    simp only [hperm.mem_iff]
  rw [tinydirOpenSorted_eq, tinydirOpenSorted_eq]
  refine if_congr hall ?_ rfl
  exact hqsort.eq_of_perm (List.Nodup.of_map _ (readEntries_nodup hnames))
    (readEntries_strictOn hnames) (hperm.filterMap _)

end Listing

end Blogd
