import Mathlib.Data.List.Nodup
import Blogd.Content.Returned

/-! # The keys of the posts

A post is stored under its name without the extension. The store keeps the last of several posts
with the same key, while the listing shows a card for each of them.
-/

namespace Blogd

/-! ## Names without their extension -/

theorem strrchr_eq_none {c : UInt8} {text : Bytes} (hc : c ∉ text) : strrchr c text = none := by
  induction text with
  | nil => rfl
  | cons b rest ih =>
      rw [List.mem_cons, not_or] at hc
      simp only [strrchr, ih hc.2, if_neg (Ne.symm hc.1)]

theorem strrchr_append {c : UInt8} {rest : Bytes} (hc : c ∉ rest) (before : Bytes) :
    strrchr c (before ++ c :: rest) = some before.length := by
  induction before with
  | nil => simp only [List.nil_append, strrchr, strrchr_eq_none hc, if_true, List.length_nil]
  | cons b before ih => simp only [List.cons_append, strrchr, ih, List.length_cons]

theorem removeFileExt_of_notMem {name : Bytes} (hdot : 46 ∉ name) :
    removeFileExt name 46 47 = name := by
  rw [removeFileExt, strrchr_eq_none hdot]

theorem removeFileExt_append {stem e : Bytes} (hslash : 47 ∉ stem ++ 46 :: e) (hdot : 46 ∉ e) :
    removeFileExt (stem ++ 46 :: e) 46 47 = stem := by
  simp only [removeFileExt, strrchr_append hdot, strrchr_eq_none hslash, ite_self, List.take_left]

/-- A name has a last dot or none. -/
theorem exists_extension (name : Bytes) :
    46 ∉ name ∨ ∃ stem e, 46 ∉ e ∧ name = stem ++ 46 :: e := by
  induction name with
  | nil => exact .inl List.not_mem_nil
  | cons b name ih =>
      rcases ih with hnone | ⟨stem, e, he, rfl⟩
      · by_cases hb : b = 46
        · exact .inr ⟨[], name, hnone, by rw [hb, List.nil_append]⟩
        · exact .inl (by rw [List.mem_cons, not_or]; exact ⟨Ne.symm hb, hnone⟩)
      · exact .inr ⟨b :: stem, e, he, rfl⟩

/-- The first name is the second one with another extension, or without any. -/
def DropsExtension (first second : Bytes) : Prop :=
  ∃ stem e, 46 ∉ e ∧ second = stem ++ 46 :: e ∧
    ((46 ∉ stem ∧ first = stem) ∨ ∃ e', 46 ∉ e' ∧ e' ≠ e ∧ first = stem ++ 46 :: e')

theorem DropsExtension.ne {first second : Bytes} (hdrops : DropsExtension first second) :
    first ≠ second := by
  obtain ⟨stem, e, -, rfl, ⟨-, rfl⟩ | ⟨e', -, hne, rfl⟩⟩ := hdrops
  · exact fun heq => List.cons_ne_nil _ _ (List.append_right_eq_self.mp heq.symm)
  · intro heq
    exact hne (List.cons.inj (List.append_cancel_left heq)).2

theorem DropsExtension.removeFileExt_eq {first second : Bytes} (hfirst : 47 ∉ first)
    (hsecond : 47 ∉ second) (hdrops : DropsExtension first second) :
    removeFileExt first 46 47 = removeFileExt second 46 47 := by
  obtain ⟨stem, e, he, rfl, ⟨hstem, rfl⟩ | ⟨e', he', -, rfl⟩⟩ := hdrops
  · rw [removeFileExt_append hsecond he, removeFileExt_of_notMem hstem]
  · rw [removeFileExt_append hsecond he, removeFileExt_append hfirst he']

/-- Two names of a directory have the same stem only if one is the other with another extension,
or without any. -/
theorem dropsExtension_of_eq {first second : Bytes} (hfirst : 47 ∉ first) (hsecond : 47 ∉ second)
    (hne : first ≠ second) (hsame : removeFileExt first 46 47 = removeFileExt second 46 47) :
    DropsExtension first second ∨ DropsExtension second first := by
  -- two names without a dot are their own stems, so at least one of them has an extension
  rcases exists_extension first with hplain | ⟨stem, e, he, rfl⟩
  · rw [removeFileExt_of_notMem hplain] at hsame
    rcases exists_extension second with hplain' | ⟨stem', e', he', rfl⟩
    · rw [removeFileExt_of_notMem hplain'] at hsame
      exact absurd hsame hne
    · rw [removeFileExt_append hsecond he'] at hsame
      exact .inl ⟨stem', e', he', rfl, .inl ⟨hsame ▸ hplain, hsame⟩⟩
  · rw [removeFileExt_append hfirst he] at hsame
    rcases exists_extension second with hplain' | ⟨stem', e', he', rfl⟩
    · rw [removeFileExt_of_notMem hplain'] at hsame
      exact .inr ⟨stem, e, he, rfl, .inl ⟨hsame ▸ hplain', hsame.symm⟩⟩
    · rw [removeFileExt_append hsecond he'] at hsame
      subst hsame
      refine .inl ⟨stem, e', he', rfl, .inr ⟨e, he, ?_, rfl⟩⟩
      exact fun heq => hne (by rw [heq])

/-! ## The store -/

/-- Every post has a key of its own, with its compiled content. -/
structure PostsApart (ext : External) (options : ContentOptions) (dir : ContentDir) (db : Db) :
    Prop where
  injective : ∀ file ∈ postFiles dir, ∀ other ∈ postFiles dir,
    postKeyPrefix ++ file.stem = postKeyPrefix ++ other.stem → file = other
  stored : ∀ file ∈ postFiles dir, db.dict (postKeyPrefix ++ file.stem) =
    some (tryObjectEncoding (postObj ext (dir.postLoop options) file).compiledContent)

/-- After a compilation every post has a key of its own exactly when no name in the directory is
another one with a different extension, or without any. -/
theorem postsApart_iff {ext : External} (hspec : ext.PcreSpec) (options : ContentOptions)
    (dir : ContentDir) (hnames : ((postFiles dir).map PostFile.name).Nodup)
    (hslash : ∀ file ∈ postFiles dir, 47 ∉ file.name) {commands : Commands}
    (hrun : initContents ext options dir [] = .ok ⟨⟩ commands) (before : Db) :
    PostsApart ext options dir (before.setAll commands) ↔
      ∀ file ∈ postFiles dir, ∀ other ∈ postFiles dir,
        ¬ DropsExtension file.name other.name := by
  constructor
  · intro hapart file hfile other hother hdrops
    have hstem : file.stem = other.stem :=
      hdrops.removeFileExt_eq (hslash file hfile) (hslash other hother)
    exact hdrops.ne (by rw [hapart.injective file hfile other hother (by rw [hstem])])
  · intro hnone
    have hinj : ∀ file ∈ postFiles dir, ∀ other ∈ postFiles dir,
        file.stem = other.stem → file = other := by
      intro file hfile other hother hstem
      refine List.inj_on_of_nodup_map hnames hfile hother ?_
      by_contra hne
      rcases dropsExtension_of_eq (hslash file hfile) (hslash other hother) hne hstem with
        hdrops | hdrops
      · exact hnone file hfile other hother hdrops
      · exact hnone other hother file hfile hdrops
    constructor
    · intro file hfile other hother hkey
      exact hinj file hfile other hother (List.append_cancel_left hkey)
    · intro file hfile
      exact stored_of_alone hspec hrun hfile
        (fun other hother => hinj other hother file hfile) before

theorem postsApart_sample :
    ∃ commands, initContents sampleExternal ⟨2, 0⟩ (sampleDir samplePosts) [] = .ok ⟨⟩ commands ∧
      PostsApart sampleExternal ⟨2, 0⟩ (sampleDir samplePosts) (Db.empty.setAll commands) := by
  have hrun := @initContents_apply sampleExternal sampleExternal_pcreSpec ⟨2, 0⟩ (by decide)
    (sampleDir samplePosts) (by decide) []
  have hslash : ∀ file ∈ postFiles (sampleDir samplePosts), 47 ∉ file.name := by decide
  have hstems : ∀ file ∈ postFiles (sampleDir samplePosts),
      ∀ other ∈ postFiles (sampleDir samplePosts),
        removeFileExt file.name 46 47 = removeFileExt other.name 46 47 →
          file.name = other.name := by decide
  refine ⟨_, hrun, (postsApart_iff sampleExternal_pcreSpec ⟨2, 0⟩ (sampleDir samplePosts)
    (by decide) hslash hrun Db.empty).mpr ?_⟩
  intro file hfile other hother hdrops
  exact hdrops.ne (hstems file hfile other hother
    (hdrops.removeFileExt_eq (hslash file hfile) (hslash other hother)))

/-- Two posts that differ in their extension, in the order of the listing. -/
def twinPosts : List PostFile :=
  [⟨ascii "twin.md", by decide, false, some (ascii "@section_content A @endsection")⟩,
    ⟨ascii "twin.html", by decide, false, some (ascii "@section_content B @endsection")⟩]

/-- The second post is stored over the first one. -/
theorem twinPosts_clash :
    ∃ commands, initContents sampleExternal ⟨2, 0⟩ (sampleDir twinPosts) [] = .ok ⟨⟩ commands ∧
      ((postFiles (sampleDir twinPosts)).map PostFile.name).Nodup ∧
      ¬ PostsApart sampleExternal ⟨2, 0⟩ (sampleDir twinPosts) (Db.empty.setAll commands) := by
  refine ⟨_, initContents_apply sampleExternal_pcreSpec (by decide) (by decide) [], by decide, ?_⟩
  intro hapart
  exact absurd (hapart.injective _ List.mem_cons_self _ (List.mem_cons_of_mem _ List.mem_cons_self)
    rfl) (by decide)

end Blogd
