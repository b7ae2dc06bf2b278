import Blogd.Content.Pagination
import Blogd.Redis.Object

/-! # How a compilation ends

Whatever the options and the size of the directory, a compilation that returns has stored every
file of the directory once, in order, and what else it stored are pages. One that does not return
has divided by zero or printed a number past the end of its buffer.
-/

namespace Blogd

/-! ## Faults of the compilation -/

section Faults

variable {ext : External} (hspec : ext.PcreSpec)

theorem sprintfInt_raises {size n : Nat} {e : Fault} (herror : sprintfInt size n = .error e) :
    e = .overflow := by
  unfold sprintfInt at herror
  dsimp only at herror
  generalize (if n < 2 ^ 31 then decimal n else 45 :: decimal (2 ^ 32 - n)) = text at herror
  split at herror
  next => cases herror
  next =>
    cases herror
    rfl

theorem pageTemplate_raises {pageContent posts : Bytes} {page : Nat} {hasMore : Bool} {e : Fault}
    (herror : pageTemplate pageContent posts page hasMore = .error e) : e = .overflow := by
  simp only [pageTemplate, strReplace_eq, ok_bind] at herror
  cases hnumber : sprintfInt 10 ((page + 1) % 2 ^ 32) with
  | error e' =>
      rw [hnumber] at herror
      cases herror
      exact sprintfInt_raises hnumber
  | ok number =>
      rw [hnumber] at herror
      cases hasMore <;> cases herror

include hspec

theorem storePage_raises (loop : PostLoop) (posts : Bytes) (j page : Nat) :
    Raises (· = .overflow) (storePage ext loop posts j page) := by
  refine .bind (.lift fun e => pageTemplate_raises) fun text => ?_
  refine .bind (.lift fun e => sprintfInt_raises) fun number => ?_
  refine .bind (.lift fun e herror => ?_) fun obj => .modify _
  rw [compileTemplate_eq hspec] at herror
  cases herror

/-- A page number can be too long, and without a number of posts for a page the first post is
divided by zero. -/
theorem storePosts_raises (loop : PostLoop) (files : List PostFile) (j page : Nat)
    (cards : Bytes) :
    Raises (fun e => e = .overflow ∨ e = .division ∧ loop.options.perPage = 0)
      (storePosts ext loop files j page cards) := by
  induction files generalizing j page cards with
  | nil => exact .pure _
  | cons file rest ih =>
      unfold storePosts
      split
      next => exact ih j page cards
      next =>
        rw [readFileContent_eq]
        refine .bind (fun s e t herror => ?_) fun card => ?_
        · rw [storePost_apply ext loop hspec file s] at herror
          cases herror
        -- behind the division the loop goes on, with a page stored or without
        · have hpage : Raises (fun e => e = .overflow ∨ e = .division ∧ loop.options.perPage = 0)
              (storePage ext loop (cards ++ card) j page) :=
            fun s e t herror => .inl (storePage_raises hspec loop _ j page s e t herror)
          have hgoes : Raises (fun e => e = .overflow ∨ e = .division ∧ loop.options.perPage = 0)
              (if loop.flushes j then do
                storePage ext loop (cards ++ card) j page
                storePosts ext loop rest ((j + 1) % 2 ^ 32) ((page + 1) % 2 ^ 32) []
              else storePosts ext loop rest ((j + 1) % 2 ^ 32) page (cards ++ card)) := by
            split
            next => exact .bind hpage fun _ => ih _ _ _
            next => exact ih _ _ _
          dsimp only
          split
          next hper =>
            refine .bind (fun s e t herror => ?_) fun _ => hgoes
            cases herror
            exact .inr ⟨rfl, hper⟩
          next => exact hgoes

theorem initContents_raises (options : ContentOptions) (dir : ContentDir) :
    Raises (fun e => e = .overflow ∨ e = .division ∧ options.perPage = 0)
      (initContents ext options dir) := by
  intro commands e commands' herror
  rw [initContents_eq hspec] at herror
  exact storePosts_raises hspec _ _ _ _ _ _ _ _ herror

/-- Without a number of posts for a page, the first post is divided by zero. -/
theorem initContents_division {options : ContentOptions} (hper : options.perPage = 0)
    {dir : ContentDir} {file : PostFile} {rest : List PostFile} (hdir : file.isDir = false)
    (hposts : dir.posts = file :: rest) (commands : Commands) :
    ∃ commands', initContents ext options dir commands = .error .division commands' := by
  have hzero : (dir.postLoop options).options.perPage = 0 := hper
  simp only [initContents_eq hspec, hposts, storePosts, hdir, readFileContent_eq,
    Bool.false_eq_true, if_false, bind_apply, storePost_apply ext _ hspec, hzero, if_true,
    throw_apply]
  exact ⟨_, rfl⟩

end Faults

/-! ## Compilations that return -/

/-- A command that stores a post. -/
def isPostCommand (command : Bytes × Bytes) : Bool := postKeyPrefix.isPrefixOf command.1

theorem isPostCommand_postCommand (ext : External) (loop : PostLoop) (file : PostFile) :
    isPostCommand (postCommand ext loop file) = true :=
  List.isPrefixOf_iff_prefix.mpr (List.prefix_append _ _)

theorem isPostCommand_page (number value : Bytes) :
    isPostCommand (pageKeyPrefix ++ number, value) = false := by
  rw [Bool.eq_false_iff]
  intro hpost
  obtain ⟨stem, hstem⟩ := List.isPrefixOf_iff_prefix.mp hpost
  -- the two prefixes differ in their first eleven bytes
  have htake := congrArg (List.take 11) hstem
  rw [List.take_append_of_le_length (by decide), List.take_append_of_le_length (by decide)] at htake
  exact absurd htake (by decide)

section Loop

variable {ext : External} {loop : PostLoop} {commands commands' : Commands}

theorem storePage_ok {cards : Bytes} {j page : Nat}
    (hrun : storePage ext loop cards j page commands = .ok ⟨⟩ commands') :
    ∃ number value, commands' = commands ++ [(pageKeyPrefix ++ number, value)] := by
  rw [storePage, bind_apply] at hrun
  cases htext : pageTemplate loop.pageContent cards page (loop.hasMore j) with
  | error e =>
      rw [htext, lift_error] at hrun
      cases hrun
  | ok text =>
      rw [htext, lift_ok] at hrun
      dsimp only at hrun
      rw [bind_apply] at hrun
      cases hnumber : sprintfInt 10 page with
      | error e =>
          rw [hnumber, lift_error] at hrun
          cases hrun
      | ok number =>
          rw [hnumber, lift_ok] at hrun
          dsimp only at hrun
          rw [bind_apply] at hrun
          cases hobj : compileTemplate ext text loop.layoutContent
              (int32 loop.options.markdownCompile) false with
          | error e =>
              rw [hobj, lift_error] at hrun
              cases hrun
          | ok obj =>
              rw [hobj, lift_ok] at hrun
              cases hrun
              exact ⟨number, obj.compiledContent, rfl⟩

/-- What the loop has done when it returns from behind a file. -/
theorem storePosts_cons_ok (hspec : ext.PcreSpec) {file : PostFile} (hdir : file.isDir = false)
    {rest : List PostFile} {j page : Nat} {cards : Bytes}
    (hrun : storePosts ext loop (file :: rest) j page cards commands = .ok ⟨⟩ commands') :
    ∃ j' page' cards' pages, (∀ command ∈ pages, isPostCommand command = false) ∧
      storePosts ext loop rest j' page' cards'
        (commands ++ [postCommand ext loop file] ++ pages) = .ok ⟨⟩ commands' := by
  rw [storePosts, hdir, readFileContent_eq] at hrun
  simp only [Bool.false_eq_true, if_false, bind_apply, storePost_apply ext loop hspec] at hrun
  split at hrun
  next => cases hrun
  next =>
    split at hrun
    next =>
      rw [bind_apply] at hrun
      cases hpage : storePage ext loop (cards ++ card ext loop file) j page
          (commands ++ [postCommand ext loop file]) with
      | error e commands'' =>
          rw [hpage] at hrun
          cases hrun
      | ok _ commands'' =>
          rw [hpage] at hrun
          obtain ⟨number, value, rfl⟩ := storePage_ok hpage
          refine ⟨_, _, _, [(pageKeyPrefix ++ number, value)], ?_, hrun⟩
          intro command hcommand
          rw [List.mem_singleton.mp hcommand]
          exact isPostCommand_page number value
    next =>
      rw [← List.append_nil (commands ++ _)] at hrun
      exact ⟨_, _, _, [], fun command hcommand => absurd hcommand List.not_mem_nil, hrun⟩

/-- A loop that returns has stored every file once, in order. -/
theorem storePosts_ok (hspec : ext.PcreSpec) {files : List PostFile} {j page : Nat} {cards : Bytes}
    (hrun : storePosts ext loop files j page cards commands = .ok ⟨⟩ commands') :
    commands'.filter isPostCommand =
      commands.filter isPostCommand ++ (files.filter (!·.isDir)).map (postCommand ext loop) := by
  induction files generalizing j page cards commands with
  | nil =>
      cases hrun
      rw [List.filter_nil, List.map_nil, List.append_nil]
  | cons file rest ih =>
      cases hdir : file.isDir with
      | true =>
          rw [storePosts, hdir] at hrun
          rw [ih hrun, List.filter_cons_of_neg (by simp [hdir])]
      | false =>
          obtain ⟨j', page', cards', pages, hpages, hrest⟩ := storePosts_cons_ok hspec hdir hrun
          have hnone : pages.filter isPostCommand = [] :=
            List.filter_eq_nil_iff.mpr fun command hcommand => by simp [hpages command hcommand]
          rw [ih hrest, List.filter_append, List.filter_append, hnone, List.append_nil,
            List.filter_cons_of_pos (isPostCommand_postCommand ext loop file), List.filter_nil,
            List.filter_cons_of_pos (by simp [hdir]), List.map_cons, List.append_assoc,
            List.singleton_append]

end Loop

variable {ext : External} {options : ContentOptions} {dir : ContentDir}

theorem isPostCommand_error {command : Bytes × Bytes}
    (hcommand : command ∈ errorCommands ext options dir) : isPostCommand command = false := by
  obtain ⟨entry, -, rfl⟩ := List.mem_map.mp hcommand
  rw [show pageErrorKeyPrefix = pageKeyPrefix ++ ascii "::error" from rfl, List.append_assoc]
  exact isPostCommand_page _ _

/-- A compilation that returns has stored every file once, in order. -/
theorem initContents_ok (hspec : ext.PcreSpec) {commands : Commands}
    (hrun : initContents ext options dir [] = .ok ⟨⟩ commands) :
    commands.filter isPostCommand =
      (postFiles dir).map (postCommand ext (dir.postLoop options)) := by
  rw [initContents_eq hspec] at hrun
  rw [storePosts_ok hspec hrun, List.nil_append,
    List.filter_eq_nil_iff.mpr fun command hcommand => by simp [isPostCommand_error hcommand],
    List.nil_append]
  rfl

/-- The post keys of a run and their values. -/
theorem mem_commands_post (hspec : ext.PcreSpec) {commands : Commands}
    (hrun : initContents ext options dir [] = .ok ⟨⟩ commands) (stem value : Bytes) :
    (postKeyPrefix ++ stem, value) ∈ commands ↔
      ∃ file ∈ postFiles dir, file.stem = stem ∧
        value = (postObj ext (dir.postLoop options) file).compiledContent := by
  have hpost : isPostCommand (postKeyPrefix ++ stem, value) = true :=
    List.isPrefixOf_iff_prefix.mpr (List.prefix_append _ _)
  have hfilter : (postKeyPrefix ++ stem, value) ∈ commands ↔
      (postKeyPrefix ++ stem, value) ∈ commands.filter isPostCommand := by
    rw [List.mem_filter, and_iff_left hpost]
  rw [hfilter, initContents_ok hspec hrun, List.mem_map]
  constructor
  · intro ⟨file, hfile, hcommand⟩
    obtain ⟨hkey, hvalue⟩ := Prod.mk.inj hcommand
    exact ⟨file, hfile, List.append_cancel_left hkey, hvalue.symm⟩
  · intro ⟨file, hfile, hstem, hvalue⟩
    exact ⟨file, hfile, by rw [postCommand, hstem, hvalue]⟩

/-- A post whose stem no other post has is what its key holds in the end. -/
theorem stored_of_alone (hspec : ext.PcreSpec) {commands : Commands}
    (hrun : initContents ext options dir [] = .ok ⟨⟩ commands) {file : PostFile}
    (hfile : file ∈ postFiles dir)
    (halone : ∀ other ∈ postFiles dir, other.stem = file.stem → other = file) (before : Db) :
    (before.setAll commands).dict (postKeyPrefix ++ file.stem) =
      some (tryObjectEncoding (postObj ext (dir.postLoop options) file).compiledContent) := by
  have hposts := mem_commands_post hspec hrun file.stem
  apply Db.setAll_dict_of_unique
  · exact (hposts _).mpr ⟨file, hfile, rfl, rfl⟩
  · intro value hmem
    obtain ⟨other, hother, hstem, hvalue⟩ := (hposts _).mp hmem
    rw [hvalue, halone other hother hstem]

end Blogd
