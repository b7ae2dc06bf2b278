import Blogd.Http.Routes
import Blogd.Http.Success
import Blogd.Server.Sample

/-! # Static files

The file route cuts a path at its first dot that is followed by an extension, and takes the first
extension of its list that fits there. What is opened is put together again from the two parts, so
that everything behind them is lost.
-/

namespace Blogd

open Regex

/-! ## Where a path is cut -/

/-- An extension behind a text is not longer than what is in front of the next dot. -/
theorem prefix_of_no_dot {part before rest : Bytes} (hdot : 46 ∉ part)
    (hpre : part <+: before ++ (46 :: rest)) : part <+: before := by
  rcases List.prefix_or_prefix_of_prefix hpre (List.prefix_append before (46 :: rest)) with h | h
  · exact h
  · obtain ⟨more, rfl⟩ := h
    rw [List.prefix_append_right_inj] at hpre
    cases more with
    | nil => exact ⟨[], by rw [List.append_nil, List.append_nil]⟩
    | cons c more =>
        have hc : c = 46 := (List.cons_prefix_cons.mp hpre).1
        exact absurd (List.mem_append_right before (hc ▸ List.mem_cons_self)) hdot

theorem dot_notMem_extension {e : Bytes} (he : e ∈ fileExtensions) : 46 ∉ e := by
  revert e
  decide

/-- The two extensions of the list that begin with an earlier one. -/
def shadowedExtensions : List Bytes := [ascii "html", ascii "woff2"]

/-- The first extension of the list that fits is the whole one, but for the two. -/
theorem firstOf_extension {e : Bytes} (he : e ∈ fileExtensions) :
    firstOf fileExtensions e = some e ↔ e ∉ shadowedExtensions := by
  revert e
  decide

section Cut

variable {stem e : Bytes}

theorem extensionAt_end : extensionAt (stem ++ ascii "." ++ e) stem.length =
    firstOf fileExtensions e := by
  rw [extensionAt, List.append_assoc, List.drop_left, if_pos (List.prefix_append _ _),
    ← List.drop_drop, List.drop_left]
  rfl

/-- In front of the last dot the path is cut where its stem has an extension. -/
theorem extensionAt_stem (hext : ¬ HasExtension stem) {j : Nat} (hj : j < stem.length) :
    extensionAt (stem ++ ascii "." ++ e) j = none := by
  cases hat : extensionAt (stem ++ ascii "." ++ e) j with
  | none => rfl
  | some found =>
      have hpre := dotted_of_extensionAt hat
      rw [List.append_assoc, List.drop_append_of_le_length hj.le,
        List.drop_eq_getElem_cons hj] at hpre
      obtain ⟨hdot, hbehind⟩ := List.cons_prefix_cons.mp hpre
      have hinside := prefix_of_no_dot (dot_notMem_extension (mem_of_extensionAt hat)) hbehind
      have hstem : ascii "." ++ found <+: stem.drop j := by
        rw [List.drop_eq_getElem_cons hj]
        exact List.cons_prefix_cons.mpr ⟨hdot, hinside⟩
      exact absurd ⟨found, mem_of_extensionAt hat,
        hstem.isInfix.trans (List.drop_suffix j stem).isInfix⟩ hext

/-- When the two parts at the first extension make the whole path, the stem has no extension and the
last one is not shadowed. -/
theorem cut_whole (he : e ∈ fileExtensions) {k : Nat} {e' : Bytes}
    (hat : extensionAt (stem ++ ascii "." ++ e) k = some e')
    (hfirst : ∀ j < k, extensionAt (stem ++ ascii "." ++ e) j = none)
    (hwhole : (stem ++ ascii "." ++ e).take k ++ ascii "." ++ e' = stem ++ ascii "." ++ e) :
    ¬ HasExtension stem ∧ e ∉ shadowedExtensions := by
  have hle : k ≤ stem.length := by
    by_contra hlt
    have hsome := @extensionAt_isSome (stem ++ ascii "." ++ e) e stem.length he
      ⟨[], by rw [List.append_nil, List.append_assoc, List.drop_left]⟩
    rw [hfirst stem.length (Nat.lt_of_not_le hlt)] at hsome
    cases hsome
  have hk : k = stem.length := by
    by_contra hne
    have hlt : k < stem.length := Nat.lt_of_le_of_ne hle hne
    -- the second part would have the last dot of the path in it
    have htail := congrArg (List.drop (k + 1)) hwhole
    rw [List.append_assoc, List.append_assoc, List.drop_append_of_le_length hlt,
      ← List.append_assoc, List.drop_left'] at htail
    · refine dot_notMem_extension (mem_of_extensionAt hat) ?_
      rw [htail]
      exact List.mem_append_right _ (List.mem_append_left _ (List.mem_singleton_self 46))
    · rw [List.length_append, List.length_take, dot_length, List.length_append]
      omega
  subst hk
  have htake : (stem ++ ascii "." ++ e).take stem.length = stem := by
    rw [List.append_assoc, List.take_left]
  rw [htake, List.append_cancel_left_eq] at hwhole
  subst hwhole
  rw [extensionAt_end] at hat
  refine ⟨?_, (firstOf_extension he).mp hat⟩
  intro hext
  obtain ⟨j, found, hj, -⟩ := exists_first_extension hext
  have hlt := lt_length_of_extensionAt hj
  have hsome := @extensionAt_isSome (stem ++ ascii "." ++ e') found j (mem_of_extensionAt hj) (by
    rw [List.append_assoc, List.drop_append_of_le_length hlt.le]
    exact (dotted_of_extensionAt hj).trans (List.prefix_append _ _))
  rw [hfirst j hlt] at hsome
  cases hsome

theorem hasExtension_append (stem : Bytes) (he : e ∈ fileExtensions) :
    HasExtension (stem ++ ascii "." ++ e) :=
  ⟨e, he, stem, [], by rw [List.append_nil, List.append_assoc]⟩

theorem ne_slash (stem e : Bytes) : stem ++ ascii "." ++ e ≠ ascii "/" := by
  intro heq
  have hdot : (46 : UInt8) ∈ stem ++ ascii "." ++ e :=
    List.mem_append_left _ (List.mem_append_right _ (List.mem_singleton_self 46))
  rw [heq] at hdot
  exact absurd hdot (by decide)

theorem findRoute_whole {ext : External} (hspec : ext.PcreSpec)
    (hline : LF ∉ stem ++ ascii "." ++ e) (he : e ∈ fileExtensions) (hext : ¬ HasExtension stem)
    (hshadow : e ∉ shadowedExtensions) :
    findRoute ext (stem ++ ascii "." ++ e) httpRoutes = .ok (some (.file, [stem, e])) := by
  have hat : extensionAt (stem ++ ascii "." ++ e) stem.length = some e := by
    rw [extensionAt_end]
    exact (firstOf_extension he).mpr hshadow
  have hroute := findRoute_file hspec hline (ne_slash stem e) hat fun j hj =>
    extensionAt_stem hext hj
  rw [hroute, List.append_assoc, List.take_left]

end Cut

/-! ## What is sent -/

theorem readAll_regularReads {fuel : Nat} {content : Bytes} (hfuel : content.length ≤ fuel) :
    readAll (regularReads fuel content) = .ok content := by
  induction fuel generalizing content with
  | zero =>
      rw [List.length_eq_zero_iff.mp (Nat.le_zero.mp hfuel)]
      rfl
  | succ fuel ih =>
      rw [regularReads]
      split
      next hempty =>
        rw [hempty]
        rfl
      next hne =>
        have hpos : 0 < content.length := List.length_pos_iff.mpr hne
        have htake : content.take bufsiz ≠ [] := by
          rw [Ne, List.take_eq_nil_iff, not_or]
          exact ⟨by decide, hne⟩
        have hrest : (content.drop bufsiz).length ≤ fuel := by
          rw [List.length_drop, bufsiz]
          omega
        rw [readAll, if_neg htake, ih hrest, ok_bind, pure_eq_ok, List.take_append_drop]

theorem findMime_ext {mime : HttpMime} (hmime : mime ∈ httpMimes)
    (hshadow : mime.ext ∉ shadowedExtensions) : findMime mime.ext = some mime := by
  revert mime
  decide

/-- A regular file is sent with its length exactly when the length can be printed. -/
theorem answerFile_regular_iff {site : Site} {stem content : Bytes} {mime : HttpMime}
    (hmime : mime ∈ httpMimes) (hshadow : mime.ext ∉ shadowedExtensions)
    (hfile : site.files (site.publicDir ++ stem ++ ascii "." ++ mime.ext) =
      some (.regular content)) :
    site.answerFile stem mime.ext = .ok (okResponse mime.filetype content) ↔
      content.length < 10 ^ 9 := by
  have hread : readAll (OpenFile.regular content).reads = .ok content :=
    readAll_regularReads (Nat.le_refl _)
  have hsize : (OpenFile.regular content).stSize = content.length := rfl
  rw [Site.answerFile, hfile]
  simp only [hread, hsize]
  constructor
  · intro hanswer
    cases hfits : fitsLength content.length with
    | false =>
        rw [buildHttpHeaders_error hfits] at hanswer
        cases hanswer
    | true =>
        rw [buildHttpHeaders_mime (findMime_ext hmime hshadow) hfits, ok_bind, ok_bind, pure_eq_ok,
          Except.ok.injEq] at hanswer
        exact lt_of_fitsLength hfits (headerText_inj hanswer).1
  · intro hlength
    obtain ⟨hfits, hmod⟩ := fitsLength_of_lt hlength
    rw [buildHttpHeaders_mime (findMime_ext hmime hshadow) hfits, ok_bind, ok_bind, pure_eq_ok,
      hmod, okResponse]

/-- A file is opened under its own path and sent with its type exactly when its stem has no
extension of its own, its extension is not shadowed by a shorter one, and its length can be
printed. -/
theorem file_served_iff (env : Env) (hspec : env.toExternal.PcreSpec) (w : World)
    (hready : w.client.Ready) (hserving : w.server.Serving) (stem e : Bytes)
    (he : e ∈ fileExtensions) (mime : HttpMime) (hmime : mime ∈ httpMimes) (hlisted : mime.ext = e)
    (content : Bytes)
    (hfile : w.server.files (w.server.publicDir ++ (stem ++ ascii "." ++ e)) =
      some (.regular content))
    (r : Request) (garbage : Garbage)
    (hasks : r.Asks env.toExternal w.server garbage.u (stem ++ ascii "." ++ e)) :
    (∃ found, Gets env r garbage w
        [.route (stem ++ ascii "." ++ e) .file found,
          .opened (w.server.publicDir ++ (stem ++ ascii "." ++ e))]
        (okResponse mime.filetype content)) ↔
      ¬ HasExtension stem ∧ e ∉ shadowedExtensions ∧ content.length < 10 ^ 9 := by
  subst hlisted
  have hassoc : ∀ dir stem' e' : Bytes,
      dir ++ stem' ++ ascii "." ++ e' = dir ++ (stem' ++ ascii "." ++ e') := by
    intro dir stem' e'
    simp only [List.append_assoc]
  simp only [gets_iff env r hready hserving hasks]
  by_cases hwhole : ¬ HasExtension stem ∧ mime.ext ∉ shadowedExtensions
  · have hroute := findRoute_whole hspec hasks.line he hwhole.1 hwhole.2
    have hevents : w.server.site.events env.toExternal (stem ++ ascii "." ++ mime.ext) =
        [.route (stem ++ ascii "." ++ mime.ext) .file [stem, mime.ext],
          .opened (w.server.publicDir ++ (stem ++ ascii "." ++ mime.ext))] := by
      simp only [Site.events, hroute, Site.routeEvents, Site.fileEvents, Server.site, hassoc, hfile]
    have hanswer : w.server.site.answer env.toExternal (stem ++ ascii "." ++ mime.ext) =
        w.server.site.answerFile stem mime.ext := by
      rw [Site.answer, hroute, ok_bind]
      rfl
    have hsent := @answerFile_regular_iff w.server.site stem content mime hmime hwhole.2
      (by rw [hassoc]; exact hfile)
    rw [hevents, hanswer, hsent]
    constructor
    · intro ⟨found, _, hlength⟩
      exact ⟨hwhole.1, hwhole.2, hlength⟩
    · intro hcondition
      exact ⟨_, rfl, hcondition.2.2⟩
  · -- the path is cut elsewhere, and what is opened is not the path
    obtain ⟨k, e', hat, hfirst⟩ := exists_first_extension (hasExtension_append stem he)
    have hroute := findRoute_file hspec hasks.line (ne_slash stem mime.ext) hat hfirst
    constructor
    · intro ⟨found, hevents, _⟩
      simp only [Site.events, hroute, Site.routeEvents, Site.fileEvents, Server.site, hassoc,
        List.cons.injEq, Event.opened.injEq, List.append_cancel_left_eq] at hevents
      exact absurd (cut_whole he hat hfirst hevents.2.1) hwhole
    · intro hcondition
      exact absurd ⟨hcondition.1, hcondition.2.1⟩ hwhole

/-! ## Two files -/

def sampleFiles (path : Bytes) : Option OpenFile :=
  if path = ascii "/srv/a.css" ∨ path = ascii "/srv/a.html" then some (.regular (ascii "x"))
  else none

def fileWorld : World := ⟨sampleServer .empty [] sampleFiles, createClient 0, []⟩

theorem fileWorld_serving : fileWorld.server.Serving := sampleServer_serving (fun _ => rfl) _ _

theorem css_served :
    ∃ found, Gets sampleEnv (sampleGet (ascii "/a.css?a") (by decide) (by decide))
      sampleGarbage fileWorld
      [.route (ascii "/a" ++ ascii "." ++ ascii "css") .file found,
        .opened (ascii "/srv" ++ (ascii "/a" ++ ascii "." ++ ascii "css"))]
      (okResponse (ascii "text/css") (ascii "x")) := by
  have hext : ¬ HasExtension (ascii "/a") := by
    intro ⟨e, _, hpart⟩
    exact absurd (hpart.subset (List.mem_append_left e (List.mem_singleton_self 46))) (by decide)
  exact (file_served_iff sampleEnv sampleExternal_pcreSpec fileWorld (createClient_ready 0)
    fileWorld_serving (ascii "/a") (ascii "css") (by decide) ⟨ascii "css", ascii "text/css"⟩
    (by decide) rfl (ascii "x") (by decide) _ sampleGarbage
    (sampleGet_asks _ _ _ _ _ (by decide) (by decide) (by decide))).mpr
      ⟨hext, by decide, by decide⟩

/-- A file with the extension `html` is there, but another one is opened. -/
theorem html_not_served :
    sampleFiles (ascii "/srv/a.html") = some (.regular (ascii "x")) ∧
      ∃ r : Request,
        r.Asks sampleEnv.toExternal fileWorld.server sampleGarbage.u (ascii "/a.html") ∧
        ¬ ∃ found, Gets sampleEnv r sampleGarbage fileWorld
          [.route (ascii "/a.html") .file found, .opened (ascii "/srv/a.html")]
          (okResponse htmlType (ascii "x")) := by
  have hasks : (sampleGet (ascii "/a.html?a") (by decide) (by decide)).Asks
      sampleEnv.toExternal fileWorld.server sampleGarbage.u (ascii "/a.html") :=
    sampleGet_asks _ _ _ _ _ (by decide) (by decide) (by decide)
  refine ⟨by decide, _, hasks, ?_⟩
  intro ⟨found, hgets⟩
  obtain ⟨hevents, -⟩ :=
    (gets_iff sampleEnv _ (createClient_ready 0) fileWorld_serving hasks).mp hgets
  have hroute := @findRoute_file sampleEnv.toExternal (ascii "/a.html") sampleExternal_pcreSpec
    (by decide) (by decide) 2 (ascii "htm") (by decide) (by decide)
  simp only [Site.events, hroute, Site.routeEvents, Site.fileEvents, List.cons.injEq,
    Event.opened.injEq] at hevents
  exact absurd hevents.2.1 (by decide)

end Blogd
