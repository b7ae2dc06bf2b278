import Blogd.Content.Returned

/-! # Files that cannot be opened

The compilation tests for templates and posts that could not be read, but the function that reads
them returns an empty text in place of NULL. A missing template is compiled as an empty one, and a
missing post is stored and listed as an empty one.
-/

namespace Blogd

/-- The templates that the compilation needs. -/
def ContentDir.templates (dir : ContentDir) : List (Option Bytes) :=
  [dir.layout, dir.header, dir.contentTop, dir.footer, dir.post, dir.page, dir.error400,
    dir.error404, dir.error500]

/-- The directory without the posts that cannot be opened. -/
def ContentDir.openable (dir : ContentDir) : ContentDir :=
  { dir with posts := dir.posts.filter fun file => file.isDir || file.content.isSome }

/-- A command that stores a page of the listing. -/
def isPageCommand (command : Bytes × Bytes) : Bool :=
  pageKeyPrefix.isPrefixOf command.1 && !pageErrorKeyPrefix.isPrefixOf command.1

/-- A file that cannot be opened changes nothing. Without a template the process ends before it
stores anything. A post is skipped: its key keeps what it had, and the pages are those of the
directory without the post. -/
structure SkipsUnreadable (ext : External) (options : ContentOptions) (dir : ContentDir) :
    Prop where
  template : none ∈ dir.templates → initContents ext options dir [] = .error .exit []
  post : none ∉ dir.templates → ∀ file ∈ postFiles dir, file.content = none →
    ∃ commands commands', initContents ext options dir [] = .ok ⟨⟩ commands ∧
      (∀ before : Db, (before.setAll commands).dict (postKeyPrefix ++ file.stem) =
        before.dict (postKeyPrefix ++ file.stem)) ∧
      initContents ext options dir.openable [] = .ok ⟨⟩ commands' ∧
      commands.filter isPageCommand = commands'.filter isPageCommand

variable {ext : External} {options : ContentOptions} {dir : ContentDir}

/-- The compilation never ends the process. -/
theorem initContents_ne_exit (hspec : ext.PcreSpec) (commands : Commands) :
    initContents ext options dir [] ≠ .error .exit commands := by
  intro hexit
  rcases initContents_raises hspec options dir _ _ _ hexit with hfault | ⟨hfault, -⟩ <;>
    cases hfault

/-- A compilation that returns has bound the key of every post, opened or not. -/
theorem initContents_binds (hspec : ext.PcreSpec) {commands : Commands}
    (hrun : initContents ext options dir [] = .ok ⟨⟩ commands) {file : PostFile}
    (hfile : file ∈ postFiles dir) :
    (Db.empty.setAll commands).dict (postKeyPrefix ++ file.stem) ≠ none := by
  have hmem := (mem_commands_post hspec hrun file.stem _).mpr ⟨file, hfile, rfl, rfl⟩
  exact (Db.setAll_dict_of_mem (List.mem_map_of_mem hmem) Db.empty Db.empty).2

/-- Files that cannot be opened change nothing exactly when there are none. -/
theorem skipsUnreadable_iff (hspec : ext.PcreSpec) (options : ContentOptions) (dir : ContentDir) :
    SkipsUnreadable ext options dir ↔
      none ∉ dir.templates ∧ ∀ file ∈ postFiles dir, file.content ≠ none := by
  constructor
  · intro hskips
    have htemplates : none ∉ dir.templates := by
      intro hmissing
      exact initContents_ne_exit hspec [] (hskips.template hmissing)
    refine ⟨htemplates, ?_⟩
    intro file hfile hcontent
    obtain ⟨commands, -, hrun, hkeeps, -, -⟩ := hskips.post htemplates file hfile hcontent
    exact initContents_binds hspec hrun hfile (hkeeps Db.empty)
  · intro ⟨htemplates, hposts⟩
    constructor
    · intro hmissing
      exact absurd hmissing htemplates
    · intro _ file hfile hcontent
      exact absurd hcontent (hposts file hfile)

theorem skipsUnreadable_sample : SkipsUnreadable sampleExternal ⟨2, 0⟩ (sampleDir samplePosts) :=
  (skipsUnreadable_iff sampleExternal_pcreSpec ⟨2, 0⟩ (sampleDir samplePosts)).mpr
    ⟨by decide, by decide⟩

/-- A post that cannot be opened. -/
def lockedPost : PostFile := { samplePost with content := none }

/-- Without the layout the error pages are stored, and a post that cannot be opened is stored and
listed on a page of its own. -/
theorem unreadable_stored :
    (∃ commands, initContents sampleExternal ⟨1, 0⟩ { sampleDir [] with layout := none } [] =
      .ok ⟨⟩ commands ∧ commands.length = 3) ∧
    ∃ commands, initContents sampleExternal ⟨1, 0⟩ (sampleDir [lockedPost]) [] = .ok ⟨⟩ commands ∧
      (Db.empty.setAll commands).dict (postKeyPrefix ++ ascii "a") ≠ none ∧
      commands.any isPageCommand = true := by
  constructor
  · exact ⟨_, initContents_apply sampleExternal_pcreSpec (by decide) (by decide) [], rfl⟩
  · have hrun := @initContents_apply sampleExternal sampleExternal_pcreSpec ⟨1, 0⟩ (by decide)
      (sampleDir [lockedPost]) (by decide) []
    refine ⟨_, hrun, ?_, ?_⟩
    · exact @initContents_binds sampleExternal ⟨1, 0⟩ (sampleDir [lockedPost])
        sampleExternal_pcreSpec _ hrun lockedPost List.mem_cons_self
    · refine List.any_eq_true.mpr ⟨(pageKeyPrefix ++ decimal 1,
        listedPage sampleExternal ⟨1, 0⟩ (sampleDir [lockedPost]) 0), ?_, by decide⟩
      exact ((mem_siteCommands_page (by decide) (by decide) _ _).mpr ⟨0, by decide, rfl, rfl⟩).1

end Blogd
