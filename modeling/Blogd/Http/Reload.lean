import Blogd.Content.Pagination
import Blogd.Http.Handler
import Blogd.Server.Sample

/-! # Reloading the content

The content directory is compiled at the start and again when a query matches the reload pattern.
Nothing is ever deleted: a reload writes over the earlier content, and what the new directory no
longer has is answered as before.
-/

namespace Blogd

/-- The content directory is exchanged on disk. -/
def World.withContentDir (w : World) (dir : ContentDir) : World :=
  { w with server := { w.server with contentDir := dir } }

variable (env : Env) {w w' : World}

theorem runInitContents_apply {commands : Commands}
    (hinit : initContents env.toExternal w.server.contentOptions w.server.contentDir [] =
      .ok ⟨⟩ commands) :
    runInitContents env w = .ok ⟨⟩ { w with server := w.server.reloaded commands } := by
  simp only [runInitContents, bind_apply, get_apply, hinit, set_apply, Server.reloaded]

/-- The commands of a compilation that returns. -/
theorem runInitContents_ok (hrun : runInitContents env w = .ok ⟨⟩ w') :
    ∃ commands, initContents env.toExternal w.server.contentOptions w.server.contentDir [] =
        .ok ⟨⟩ commands ∧ w'.server = w.server.reloaded commands := by
  cases hinit : initContents env.toExternal w.server.contentOptions w.server.contentDir [] with
  | ok _ commands =>
      rw [runInitContents_apply env hinit] at hrun
      cases hrun
      exact ⟨commands, rfl, rfl⟩
  | error e commands =>
      simp only [runInitContents, bind_apply, get_apply, hinit, set_apply, throw_apply] at hrun
      cases hrun

/-- The commands of a reload that returns. -/
theorem reloadContent_ok {urlQuery pattern : Bytes} {found : List Bytes}
    (hpattern : w.server.reloadContentQuery = some pattern)
    (hmatch : pregMatch env.toExternal pattern urlQuery = .ok (some found))
    (hrun : reloadContent env urlQuery w = .ok ⟨⟩ w') :
    ∃ commands, initContents env.toExternal w.server.contentOptions w.server.contentDir [] =
        .ok ⟨⟩ commands ∧ w'.server = w.server.reloaded commands := by
  simp only [reloadContent, bind_apply, get_apply, hpattern, hmatch, lift_ok, modify_apply] at hrun
  exact @runInitContents_ok env (w.record .reload) w' hrun

/-- A reload writes the content of the directory over the content of the earlier one. Each key that
the new directory alone would bind has the binding of the new directory, and every other key keeps
the binding of the earlier one. The outcome is that of the new directory alone exactly when it binds
every key that the earlier one bound, and what it no longer has is answered as before. -/
theorem reload_writes_over {w₀ w₁ w₂ w₃ : World} (dir : ContentDir) {urlQuery pattern : Bytes}
    {found : List Bytes} (hempty : w₀.server.db = Db.empty)
    (hfirst : runInitContents env w₀ = .ok ⟨⟩ w₁)
    (hpattern : w₀.server.reloadContentQuery = some pattern)
    (hmatch : pregMatch env.toExternal pattern urlQuery = .ok (some found))
    (hreload : reloadContent env urlQuery (w₁.withContentDir dir) = .ok ⟨⟩ w₂)
    (halone : runInitContents env (w₀.withContentDir dir) = .ok ⟨⟩ w₃) :
    (∀ key, w₂.server.db.dict key = (w₃.server.db.dict key).or (w₁.server.db.dict key)) ∧
    ((∀ key, w₂.server.db.dict key = w₃.server.db.dict key) ↔
      ∀ key, w₁.server.db.dict key ≠ none → w₃.server.db.dict key ≠ none) ∧
    ∀ key, w₁.server.db.dict key ≠ none → w₃.server.db.dict key = none →
      isMissing (w₂.server.site.lookup key) = false ∧
        w₂.server.site.answerKey key = w₁.server.site.answerKey key := by
  obtain ⟨c₁, -, hw₁⟩ := runInitContents_ok env hfirst
  have hpattern₁ : (w₁.withContentDir dir).server.reloadContentQuery = some pattern := by
    rw [World.withContentDir, hw₁]
    exact hpattern
  obtain ⟨c₂, hinit₂, hw₂⟩ := reloadContent_ok env hpattern₁ hmatch hreload
  obtain ⟨c₃, hinit₃, hw₃⟩ := runInitContents_ok env halone
  -- the reload and the run alone compile the same directory, so they execute the same commands
  have hsame : c₂ = c₃ := by
    rw [World.withContentDir, hw₁] at hinit₂
    have hcommands := hinit₂.symm.trans hinit₃
    cases hcommands
    rfl
  have hold : w₁.server.db = Db.empty.setAll c₁ := by rw [hw₁, Server.reloaded, hempty]
  have hnew : w₃.server.db = Db.empty.setAll c₂ := by
    rw [hw₃, hsame, Server.reloaded, World.withContentDir, hempty]
  have hboth : w₂.server.db = w₁.server.db.setAll c₂ := by
    rw [hw₂, Server.reloaded, World.withContentDir]
  have hover : ∀ key,
      w₂.server.db.dict key = (w₃.server.db.dict key).or (w₁.server.db.dict key) := by
    intro key
    rw [hboth, hnew]
    exact Db.setAll_dict_or _ _ _
  refine ⟨hover, ?_, ?_⟩
  · constructor
    · intro heq key hbound hnone
      have hkey := hover key
      rw [heq key, hnone, Option.none_or] at hkey
      exact hbound hkey.symm
    · intro hcovers key
      rw [hover key]
      cases hkey : w₃.server.db.dict key with
      | some o => rfl
      | none =>
          rw [Option.none_or]
          by_contra hbound
          exact hcovers key hbound hkey
  · intro key hbound hnone
    have hkept : w₂.server.db.dict key = w₁.server.db.dict key := by
      rw [hover key, hnone, Option.none_or]
    have hstring : w₁.server.db.dict key ≠ some .other :=
      hold ▸ Db.setAll_ne_other (fun _ hnone => by cases hnone) _ key
    simp only [Server.site, Site.answerKey, hkept]
    cases hfound : w₁.server.db.dict key with
    | none => exact absurd hfound hbound
    | some o =>
        cases o with
        | other => exact absurd hfound hstring
        | string s => exact ⟨rfl, rfl⟩
        | int value => exact ⟨rfl, rfl⟩

/-! ## A post is removed -/

def sampleWorld (posts : List PostFile) : World :=
  ⟨sampleServer .empty posts fun _ => none, createClient 0, []⟩

/-- What is written for the sample directory with the given posts. -/
def sampleCommands (posts : List PostFile) : Commands :=
  siteCommands sampleExternal ⟨1, 0⟩ (sampleDir posts)

theorem initContents_sample {posts : List PostFile} (hposts : posts.length < 999999999) :
    initContents sampleEnv.toExternal ⟨1, 0⟩ (sampleDir posts) [] =
      .ok ⟨⟩ (sampleCommands posts) :=
  initContents_apply sampleExternal_pcreSpec (by decide)
    (Nat.lt_of_le_of_lt (List.length_filter_le _ _) hposts) []

/-- The post is compiled, the reload finds no post, and so does a first run. -/
theorem sample_runs :
    ∃ w₁ w₂ w₃ : World,
      runInitContents sampleEnv (sampleWorld [samplePost]) = .ok ⟨⟩ w₁ ∧
      reloadContent sampleEnv (ascii "reload=1") (w₁.withContentDir (sampleDir [])) = .ok ⟨⟩ w₂ ∧
      runInitContents sampleEnv ((sampleWorld [samplePost]).withContentDir (sampleDir [])) =
        .ok ⟨⟩ w₃ ∧
      w₂.server.db = (Db.empty.setAll (sampleCommands [samplePost])).setAll (sampleCommands []) ∧
      w₃.server.db = Db.empty.setAll (sampleCommands []) := by
  have hpost : initContents sampleEnv.toExternal (sampleWorld [samplePost]).server.contentOptions
      (sampleWorld [samplePost]).server.contentDir [] = .ok ⟨⟩ (sampleCommands [samplePost]) :=
    initContents_sample (by decide)
  have hnone : initContents sampleEnv.toExternal ⟨1, 0⟩ (sampleDir []) [] =
      .ok ⟨⟩ (sampleCommands []) := initContents_sample (by decide)
  exact ⟨_, _, _, runInitContents_apply sampleEnv hpost,
    reloadContent_reloads sampleEnv ⟨_, _, rfl, rfl, hnone⟩,
    runInitContents_apply sampleEnv hnone, rfl, rfl⟩

theorem mem_keys_samplePost :
    postKeyPrefix ++ ascii "a" ∈ (sampleCommands [samplePost]).map Prod.fst := by
  have hpost : postCommand sampleExternal ((sampleDir [samplePost]).postLoop ⟨1, 0⟩) samplePost ∈
      sampleCommands [samplePost] :=
    (mem_siteCommands (by decide)).mpr
      (.inr (.inl ⟨samplePost, List.mem_singleton_self _, rfl⟩))
  exact List.mem_map.mpr ⟨_, hpost, rfl⟩

theorem notMem_keys_empty : postKeyPrefix ++ ascii "a" ∉ (sampleCommands []).map Prod.fst := by
  intro hmem
  obtain ⟨command, hcommand, hkey⟩ := List.mem_map.mp hmem
  rcases (mem_siteCommands (by decide)).mp hcommand with
    herror | ⟨file, hfile, -⟩ | ⟨page, hpage, -⟩
  · have hpre := errorKey_of_mem herror
    rw [hkey] at hpre
    exact absurd hpre (by decide)
  · cases hfile
  · exact absurd hpage (Nat.not_lt_zero page)

/-- The removed post is answered as before the reload. -/
theorem reload_writes_over_sample :
    ∃ w₁ w₂ w₃ : World,
      runInitContents sampleEnv (sampleWorld [samplePost]) = .ok ⟨⟩ w₁ ∧
      reloadContent sampleEnv (ascii "reload=1") (w₁.withContentDir (sampleDir [])) = .ok ⟨⟩ w₂ ∧
      runInitContents sampleEnv ((sampleWorld [samplePost]).withContentDir (sampleDir [])) =
        .ok ⟨⟩ w₃ ∧
      ∀ key, w₁.server.db.dict key ≠ none → w₃.server.db.dict key = none →
        isMissing (w₂.server.site.lookup key) = false ∧
          w₂.server.site.answerKey key = w₁.server.site.answerKey key := by
  obtain ⟨w₁, w₂, w₃, hfirst, hreload, halone, -, -⟩ := sample_runs
  obtain ⟨-, -, hkept⟩ := reload_writes_over sampleEnv (sampleDir []) rfl hfirst rfl rfl hreload
    halone
  exact ⟨w₁, w₂, w₃, hfirst, hreload, halone, hkept⟩

/-- The post is gone from the directory, but not from the store. -/
theorem reload_keeps_removed_post :
    ∃ w₁ w₂ w₃ : World,
      runInitContents sampleEnv (sampleWorld [samplePost]) = .ok ⟨⟩ w₁ ∧
      reloadContent sampleEnv (ascii "reload=1") (w₁.withContentDir (sampleDir [])) = .ok ⟨⟩ w₂ ∧
      runInitContents sampleEnv ((sampleWorld [samplePost]).withContentDir (sampleDir [])) =
        .ok ⟨⟩ w₃ ∧
      w₂.server.db.dict (ascii "blogd::post::a") ≠ none ∧
      w₃.server.db.dict (ascii "blogd::post::a") = none := by
  obtain ⟨w₁, w₂, w₃, hfirst, hreload, halone, hboth, hnew⟩ := sample_runs
  refine ⟨w₁, w₂, w₃, hfirst, hreload, halone, ?_, ?_⟩
  · change w₂.server.db.dict (postKeyPrefix ++ ascii "a") ≠ none
    rw [hboth, Db.setAll_dict_of_notMem notMem_keys_empty]
    exact (Db.setAll_dict_of_mem mem_keys_samplePost _ Db.empty).2
  · change w₃.server.db.dict (postKeyPrefix ++ ascii "a") = none
    rw [hnew, Db.setAll_dict_of_notMem notMem_keys_empty]
    rfl

end Blogd
