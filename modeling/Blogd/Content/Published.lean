import Mathlib.Data.List.Nodup
import Blogd.Content.Returned

/-! # The store after a compilation

What a store holds under the keys of the pages and posts once the content directory has been
compiled into it, whatever it held before.
-/

namespace Blogd

/-- The store was left by a compilation of the directory that returned. -/
structure Db.Published (db : Db) (ext : External) (options : ContentOptions) (dir : ContentDir) :
    Prop where
  perPage : 1 ≤ options.perPage
  files : (postFiles dir).length < 999999999
  stored : ∃ before commands,
    initContents ext options dir [] = .ok ⟨⟩ commands ∧ db = Db.setAll before commands

variable {db : Db} {ext : External} {options : ContentOptions} {dir : ContentDir}

theorem Db.Published.eq_setAll (hspec : ext.PcreSpec) (hdb : db.Published ext options dir) :
    ∃ before, db = Db.setAll before (siteCommands ext options dir) := by
  obtain ⟨before, commands, hinit, rfl⟩ := hdb.stored
  rw [initContents_apply hspec hdb.perPage hdb.files] at hinit
  cases hinit
  exact ⟨before, rfl⟩

theorem Db.published_setAll (hspec : ext.PcreSpec) (hper : 1 ≤ options.perPage)
    (hfiles : (postFiles dir).length < 999999999) (before : Db) :
    (before.setAll (siteCommands ext options dir)).Published ext options dir :=
  ⟨hper, hfiles, before, _, initContents_apply hspec hper hfiles [], rfl⟩

/-- A page is stored under its number. -/
theorem Db.Published.page (hspec : ext.PcreSpec) (hdb : db.Published ext options dir) {page : Nat}
    (hpage : page < pageCount options dir) :
    db.dict (pageKeyPrefix ++ decimal (page + 1)) =
      some (tryObjectEncoding (listedPage ext options dir page)) := by
  obtain ⟨before, rfl⟩ := hdb.eq_setAll hspec
  have hpages := @mem_siteCommands_page ext options hdb.perPage dir hdb.files
  apply Db.setAll_dict_of_unique
  · exact ((hpages _ _).mpr ⟨page, hpage, rfl, rfl⟩).1
  · intro other hother
    obtain ⟨page', -, hkey, hvalue⟩ := (hpages _ _).mp
      ⟨hother, List.prefix_append _ _, not_errorKey_pageKey _⟩
    have hsame : page = page' :=
      Nat.succ_injective (decimal_injective (List.append_cancel_left hkey))
    rw [hvalue, hsame]

/-- A post is stored under its stem when no other post has the same. -/
theorem Db.Published.post (hspec : ext.PcreSpec) (hdb : db.Published ext options dir)
    (hstems : ((postFiles dir).map PostFile.stem).Nodup) {file : PostFile}
    (hfile : file ∈ postFiles dir) :
    db.dict (postKeyPrefix ++ file.stem) =
      some (tryObjectEncoding (postObj ext (dir.postLoop options) file).compiledContent) := by
  obtain ⟨before, commands, hrun, rfl⟩ := hdb.stored
  refine stored_of_alone hspec hrun hfile ?_ before
  intro other hother hstem
  exact List.inj_on_of_nodup_map hstems hother hfile hstem

end Blogd
