import Blogd.Content.Published
import Blogd.Http.Routes
import Blogd.Http.Success
import Blogd.Server.Sample

/-! # Posts by their links

The card of a post links to its stem, and the post is stored under the same stem. A link is routed
to the post unless a dot in the stem is followed by one of the extensions of files: the file route
comes first, and it looks for an extension anywhere in the path.
-/

namespace Blogd

/-- The bytes of a stem: letters, digits, and `.`, `_`, `~`, `-`. -/
def isStemByte (c : UInt8) : Bool :=
  isdigit c || (65 ≤ c && c ≤ 90) || (97 ≤ c && c ≤ 122) || c = 46 || c = 95 || c = 126 || c = 45

/-- The path that the card of a post carries. -/
def PostFile.path (file : PostFile) : Bytes := ascii "/" ++ file.stem

theorem notMem_of_stemBytes {stem : Bytes} (hstem : stem.all isStemByte = true) {c : UInt8}
    (hc : isStemByte c = false) : c ∉ stem := by
  intro hmem
  rw [List.all_eq_true.mp hstem c hmem] at hc
  cases hc

/-- A path with one slash is no page. -/
theorem not_page_of_stemBytes {stem : Bytes} (hstem : stem.all isStemByte = true) :
    ¬ ascii "/page/" <:+: ascii "/" ++ stem := by
  intro hpage
  have hcount := hpage.sublist.count_le 47
  have htwo : (ascii "/page/").count 47 = 2 := by decide
  have hone : (ascii "/").count 47 = 1 := by decide
  have hzero : stem.count 47 = 0 :=
    List.count_eq_zero_of_not_mem (notMem_of_stemBytes hstem (by decide))
  rw [List.count_append, htwo, hone, hzero] at hcount
  exact absurd hcount (by decide)

/-- The slash in front of a stem makes no extension. -/
theorem hasExtension_slash {stem : Bytes} :
    HasExtension (ascii "/" ++ stem) ↔ HasExtension stem := by
  constructor
  · intro ⟨e, he, hpart⟩
    refine ⟨e, he, ?_⟩
    rcases List.infix_cons_iff.mp hpart with hpre | hpart
    · exact absurd (List.cons_prefix_cons.mp hpre).1 (by decide)
    · exact hpart
  · intro ⟨e, he, hpart⟩
    exact ⟨e, he, hpart.trans (List.suffix_append _ _).isInfix⟩

section Routing

variable {ext : External} {stem : Bytes}

theorem findRoute_stem (hspec : ext.PcreSpec) (hstem : stem.all isStemByte = true)
    (hne : stem ≠ []) (hext : ¬ HasExtension stem) :
    findRoute ext (ascii "/" ++ stem) httpRoutes = .ok (some (.content, [stem])) := by
  refine findRoute_content hspec (notMem_of_stemBytes hstem (by decide)) hne ?_
    (pageDigitAt_eq_none (not_page_of_stemBytes hstem))
  intro k
  cases hat : extensionAt (ascii "/" ++ stem) k with
  | none => rfl
  | some e => exact absurd (hasExtension_slash.mp (hasExtension_of_extensionAt hat)) hext

theorem findRoute_stem_file (hspec : ext.PcreSpec) (hstem : stem.all isStemByte = true)
    (hne : stem ≠ []) (hext : HasExtension stem) :
    ∃ found, findRoute ext (ascii "/" ++ stem) httpRoutes = .ok (some (.file, found)) := by
  obtain ⟨k, e, hat, hfirst⟩ := exists_first_extension (hasExtension_slash.mpr hext)
  refine ⟨_, findRoute_file hspec ?_ ?_ hat hfirst⟩
  · rw [List.mem_append, not_or]
    exact ⟨by decide, notMem_of_stemBytes hstem (by decide)⟩
  · intro heq
    exact hne (List.append_right_eq_self.mp heq)

end Routing

/-- A post is reached by its link exactly when no dot of its stem is followed by an extension, its
content is stored as text and the length of the content can be printed. -/
theorem post_reachable_iff (env : Env) (hspec : env.toExternal.PcreSpec) (options : ContentOptions)
    (dir : ContentDir) (hstems : ((postFiles dir).map PostFile.stem).Nodup)
    (hbytes : ∀ file ∈ postFiles dir, file.stem ≠ [] ∧ file.stem.all isStemByte = true)
    (w : World) (hready : w.client.Ready) (hserving : w.server.Serving)
    (hdb : w.server.db.Published env.toExternal options dir) (file : PostFile)
    (hfile : file ∈ postFiles dir) (r : Request) (garbage : Garbage)
    (hasks : r.Asks env.toExternal w.server garbage.u file.path) :
    (∃ events, Gets env r garbage w (.route file.path .content [file.stem] :: events)
        (okResponse htmlType
          (postObj env.toExternal (dir.postLoop options) file).compiledContent)) ↔
      ¬ HasExtension file.stem ∧
        readsInteger (postObj env.toExternal (dir.postLoop options) file).compiledContent = false ∧
        (postObj env.toExternal (dir.postLoop options) file).compiledContent.length < 10 ^ 9 := by
  obtain ⟨hne, hstem⟩ := hbytes file hfile
  have hlength := hasks.length_le
  rw [PostFile.path, List.length_append] at hlength
  have hfits : keyFits (postKeyPrefix ++ file.stem) = true :=
    keyFits_of_length (by decide) (Nat.le_trans (Nat.le_add_left _ _) hlength)
  have hanswerKey := @Site.answerKey_ok_iff w.server.site (postKeyPrefix ++ file.stem)
    (postObj env.toExternal (dir.postLoop options) file).compiledContent hfits
  rw [Site.text_of_set (nul_notMem_postValue _ _ _ file) (hdb.post hspec hstems hfile),
    and_iff_left rfl] at hanswerKey
  simp only [gets_iff env r hready hserving hasks]
  by_cases hext : HasExtension file.stem
  · -- the file route takes the path
    obtain ⟨found, hroute⟩ := findRoute_stem_file hspec hstem hne hext
    constructor
    · intro ⟨events, hevents, _⟩
      rw [PostFile.path, Site.events, hroute] at hevents
      cases (List.cons.inj hevents).1
    · intro hcondition
      exact absurd hext hcondition.1
  · have hroute := findRoute_stem hspec hstem hne hext
    have hevents : ∃ events, w.server.site.events env.toExternal file.path =
        .route file.path .content [file.stem] :: events := by
      rw [PostFile.path, Site.events, hroute]
      exact ⟨_, rfl⟩
    have hanswer : w.server.site.answer env.toExternal file.path =
        w.server.site.answerKey (postKeyPrefix ++ file.stem) := by
      rw [PostFile.path, Site.answer, hroute, ok_bind]
      rfl
    rw [hanswer, exists_and_right, hanswerKey]
    exact ⟨fun h => ⟨hext, h.2⟩, fun h => ⟨hevents, h.2⟩⟩

/-! ## Two posts -/

/-- A title with the name of a script in it. -/
def dottedPost : PostFile :=
  ⟨ascii "node.js-tips.html", by decide, false, some (ascii "@section_content B @endsection")⟩

def twoStore : Db :=
  Db.empty.setAll (siteCommands sampleExternal ⟨1, 0⟩ (sampleDir [samplePost, dottedPost]))

theorem twoStore_published :
    twoStore.Published sampleExternal ⟨1, 0⟩ (sampleDir [samplePost, dottedPost]) :=
  Db.published_setAll sampleExternal_pcreSpec (by decide) (by decide) _

def twoWorld : World :=
  ⟨sampleServer twoStore [samplePost, dottedPost] fun _ => none, createClient 0, []⟩

theorem twoWorld_serving : twoWorld.server.Serving :=
  sampleServer_serving (Db.setAll_expires (fun _ => rfl) _) _ _

theorem samplePost_reachable :
    ∃ events, Gets sampleEnv (sampleGet (ascii "/a?a") (by decide) (by decide))
      sampleGarbage twoWorld (.route (ascii "/a") .content [ascii "a"] :: events)
      (okResponse htmlType (ascii "A")) := by
  have hasks : (sampleGet (ascii "/a?a") (by decide) (by decide)).Asks
      sampleEnv.toExternal twoWorld.server sampleGarbage.u samplePost.path :=
    sampleGet_asks _ _ _ _ _ (by decide) (by decide) (by decide)
  have hvalue : (postObj sampleExternal ((sampleDir [samplePost, dottedPost]).postLoop ⟨1, 0⟩)
      samplePost).compiledContent = ascii "A" := by
    decide +kernel
  have hext : ¬ HasExtension samplePost.stem := by
    intro ⟨e, _, hpart⟩
    exact absurd (hpart.subset (List.mem_append_left e (List.mem_singleton_self 46))) (by decide)
  have hreach := post_reachable_iff sampleEnv sampleExternal_pcreSpec ⟨1, 0⟩
    (sampleDir [samplePost, dottedPost]) (by decide) (by decide) twoWorld (createClient_ready 0)
    twoWorld_serving twoStore_published samplePost (by decide) _ sampleGarbage hasks
  rw [show sampleEnv.toExternal = sampleExternal from rfl, hvalue] at hreach
  exact hreach.mpr ⟨hext, by decide, by decide⟩

/-- The link of the other post is routed to a file. -/
theorem dottedPost_not_reachable :
    dottedPost.path = ascii "/node.js-tips" ∧
      ∃ r : Request, r.Asks sampleEnv.toExternal twoWorld.server sampleGarbage.u dottedPost.path ∧
        ¬ ∃ events, Gets sampleEnv r sampleGarbage twoWorld
          (.route dottedPost.path .content [dottedPost.stem] :: events)
          (okResponse htmlType (postObj sampleExternal
            ((sampleDir [samplePost, dottedPost]).postLoop ⟨1, 0⟩) dottedPost).compiledContent) := by
  have hasks : (sampleGet (ascii "/node.js-tips?a") (by decide) (by decide)).Asks
      sampleEnv.toExternal twoWorld.server sampleGarbage.u dottedPost.path :=
    sampleGet_asks _ _ _ _ _ (by decide) (by decide) (by decide)
  refine ⟨by decide, _, hasks, ?_⟩
  intro ⟨events, hgets⟩
  obtain ⟨hevents, -⟩ :=
    (gets_iff sampleEnv _ (createClient_ready 0) twoWorld_serving hasks).mp hgets
  obtain ⟨found, hroute⟩ := @findRoute_stem_file sampleEnv.toExternal dottedPost.stem
    sampleExternal_pcreSpec (by decide) (by decide)
    ⟨ascii "js", by decide, ascii "node", ascii "-tips", rfl⟩
  rw [PostFile.path, Site.events, hroute] at hevents
  cases (List.cons.inj hevents).1

end Blogd
