import Blogd.Foundation.Path
import Blogd.Http.Frame
import Blogd.Http.Routes
import Blogd.Http.UrlExtraction
import Blogd.Server.Sample

/-! # The public directory

The path of a file is put together from the public directory and two groups of the URL path. Dots
are ordinary characters of a URL. Nothing looks at the segments, so that the walk over them can
leave the directory.
-/

namespace Blogd

open Location

/-! ## The files that are opened -/

def Event.openedPath? : Event → Option Bytes
  | .opened path => some path
  | _ => none

/-- The paths that were given to `open`, in order. -/
def openedFiles (w : World) : List Bytes := w.log.filterMap Event.openedPath?

theorem openedFiles_record (w : World) {event : Event} (hevent : ∀ path, event ≠ .opened path) :
    openedFiles (w.record event) = openedFiles w := by
  have hnone : event.openedPath? = none := by
    cases event with
    | opened path => exact absurd rfl (hevent path)
    | _ => rfl
  simp [openedFiles, World.record, List.filterMap_append, hnone]

theorem openedFiles_framed (paths : List Bytes) : Framed fun w => openedFiles w = paths where
  client _ _ _ hw := hw
  server _ _ hw := hw
  record w _ hevent hw := (openedFiles_record w hevent).trans hw
  execute w argv _ hw :=
    (@openedFiles_record w (.exec argv) fun _ => Event.noConfusion).trans hw

/-- The file callback opens the one path that it puts together. -/
theorem routeRequest_opens {env : Env} (henv : env.Spares openedFiles) {urlPath stem ext : Bytes}
    (hroute : findRoute env.toExternal urlPath httpRoutes = .ok (some (.file, [stem, ext])))
    (junk : Nat → UInt8) (readlen qblen : Nat) (w : World) :
    openedFiles (stateOf (routeRequest env junk readlen qblen urlPath w)) =
      openedFiles w ++ [w.server.publicDir ++ stem ++ ascii "." ++ ext] := by
  rw [routeRequest, hroute]
  refine openedFile_maintains (openedFiles_framed _) (henv.maintains (· = _)) junk readlen qblen
    (w.server.publicDir ++ stem ++ ascii "." ++ ext) ext _ ?_
  simp only [openedFiles, World.record, List.filterMap_append, List.append_assoc]
  rfl

/-! ## The path that is asked for -/

/-- The URL path up to its first extension. -/
def askedFile (urlPath : Bytes) : Bytes :=
  ((List.range urlPath.length).findSome? fun k =>
    (extensionAt urlPath k).map fun ext => urlPath.take k ++ ascii "." ++ ext).getD urlPath

theorem askedFile_eq {urlPath ext : Bytes} {k : Nat} (hext : extensionAt urlPath k = some ext)
    (hfirst : ∀ j < k, extensionAt urlPath j = none) :
    askedFile urlPath = urlPath.take k ++ ascii "." ++ ext := by
  rw [askedFile, Regex.findSome?_range_first (lt_length_of_extensionAt hext)
    (by rw [hext, Option.map_some]) (fun j hj => by rw [hfirst j hj, Option.map_none])]
  rfl

/-- A URL that is accepted has no line feed in it. -/
theorem lf_notMem_of_accepted {url : Bytes} {u u' : HttpParserUrl}
    (hparse : httpParserParseUrl url u = some u') : LF ∉ url := by
  have hscan : ∀ (rest : Bytes) (i : Nat) (scan final : UrlScan),
      scanUrl i scan rest = some final → LF ∉ rest := by
    intro rest
    induction rest with
    | nil => exact fun _ _ _ _ => List.not_mem_nil
    | cons c rest ih =>
        intro i scan final hfinal hmem
        obtain ⟨hlive, hnext⟩ := scanUrl_cons hfinal
        rcases List.mem_cons.mp hmem with hc | hrest
        · subst hc
          exact hlive rfl
        · exact ih _ _ _ hnext hrest
  obtain ⟨final, hfinal, -⟩ := httpParserParseUrl_scan hparse
  exact hscan url 0 _ final hfinal

section Route

variable {ext : External} (hspec : ext.PcreSpec) {urlPath : Bytes} (hline : LF ∉ urlPath)

include hspec hline

/-- Without an extension a path is not routed to a file. -/
theorem findRoute_ne_file (hnone : ∀ k, extensionAt urlPath k = none) (found : List Bytes) :
    findRoute ext urlPath httpRoutes ≠ .ok (some (.file, found)) := by
  have hindex := pregMatch_toPcre hspec.index (by decide) urlPath
  have hfile := pregMatch_toPcre hspec.file (by decide) urlPath
  have hpage := pregMatch_toPcre hspec.page (by decide) urlPath
  have hcontent := pregMatch_toPcre hspec.content (by decide) urlPath
  rw [fileRegex_none hline hnone] at hfile
  simp only [httpRoutes, findRoute, hindex, hfile, hpage, hcontent, ok_bind, pure_eq_ok]
  intro hroute
  repeat' split at hroute
  all_goals cases hroute

/-- A path that is routed to a file is cut at its first extension. -/
theorem exists_of_findRoute_file {found : List Bytes}
    (hroute : findRoute ext urlPath httpRoutes = .ok (some (.file, found))) :
    ∃ stem e, found = [stem, e] ∧ askedFile urlPath = stem ++ ascii "." ++ e := by
  by_cases hext : HasExtension urlPath
  · obtain ⟨k, e, hat, hfirst⟩ := exists_first_extension hext
    have hne : urlPath ≠ ascii "/" := by
      rintro rfl
      rw [findRoute_index hspec] at hroute
      cases hroute
    rw [findRoute_file hspec hline hne hat hfirst, Except.ok.injEq, Option.some.injEq,
      Prod.mk.injEq] at hroute
    exact ⟨_, e, hroute.2.symm, askedFile_eq hat hfirst⟩
  · refine absurd hroute (findRoute_ne_file hspec hline (fun k => ?_) found)
    cases hat : extensionAt urlPath k with
    | none => rfl
    | some e => exact absurd (hasExtension_of_extensionAt hat) hext

end Route

/-! ## Inside and outside -/

/-- Every path that a request gives to `open` leads into the public directory. -/
def ReadsInside (env : Env) (junk : Nat → UInt8) (readlen qblen : Nat) (urlPath : Bytes)
    (w : World) : Prop :=
  ∀ path ∈ (openedFiles (stateOf (routeRequest env junk readlen qblen urlPath w))).drop
      (openedFiles w).length, (ofPath path).Below (ofPath w.server.publicDir)

/-- The file that is opened lies in the public directory when the walk over the path, up to its
first extension, stays in it or comes back to it. -/
theorem readsInside_iff {env : Env} (hspec : env.toExternal.PcreSpec)
    (henv : env.Spares openedFiles) {url urlPath urlQuery : Bytes} {u u' : HttpParserUrl}
    (hparse : httpParserParseUrl url u = some u')
    (hparts : urlParts url u' = .ok (urlPath, urlQuery)) {found : List Bytes}
    (hroute : findRoute env.toExternal urlPath httpRoutes = .ok (some (.file, found)))
    (junk : Nat → UInt8) (readlen qblen : Nat) (w : World) :
    ReadsInside env junk readlen qblen urlPath w ↔
      StaysBelow w.server.publicDir (askedFile urlPath) := by
  have hline : LF ∉ urlPath := fun hmem => lf_notMem_of_accepted hparse
    ((strndupAt_sublist (urlParts_eq_ok.mp hparts).1).subset hmem)
  obtain ⟨stem, ext, rfl, hasked⟩ := exists_of_findRoute_file hspec hline hroute
  have hpath : w.server.publicDir ++ stem ++ ascii "." ++ ext =
      w.server.publicDir ++ askedFile urlPath := by
    rw [hasked, ← List.append_assoc, ← List.append_assoc]
  rw [ReadsInside, routeRequest_opens henv hroute, List.drop_left, hpath, ← ofPath_below_iff]
  simp only [List.mem_singleton, forall_eq]

theorem sampleEnv_sparesOpened : sampleEnv.Spares openedFiles where
  inline _ := rfl
  other _ _ := rfl
  memory _ := rfl

/-- The small blog with the public directory `/srv` and a new client. -/
def publicWorld : World := ⟨sampleServer .empty [] fun _ => none, createClient 0, []⟩

theorem publicRoute : findRoute sampleEnv.toExternal (ascii "/css/../a.css") httpRoutes =
    .ok (some (.file, [ascii "/css/../a", ascii "css"])) :=
  @findRoute_file sampleEnv.toExternal (ascii "/css/../a.css") sampleExternal_pcreSpec (by decide)
    (by decide) 9 (ascii "css") (by decide) (by decide)

/-- A path may go up as far as it went down. -/
theorem readsInside_sample :
    ReadsInside sampleEnv (fun _ => 0) protoIobufLen 0 (ascii "/css/../a.css") publicWorld := by
  obtain ⟨u', hparse, hparts⟩ : ∃ u', httpParserParseUrl (ascii "/css/../a.css?a") (.filled 0 0) =
      some u' ∧ urlParts (ascii "/css/../a.css?a") u' = .ok (ascii "/css/../a.css", ascii "a") :=
    ⟨_, rfl, by decide⟩
  refine (readsInside_iff sampleExternal_pcreSpec sampleEnv_sparesOpened hparse hparts publicRoute
    (fun _ => 0) protoIobufLen 0 publicWorld).mpr ?_
  decide +kernel

theorem parentRoute : findRoute sampleEnv.toExternal (ascii "/../x.css") httpRoutes =
    .ok (some (.file, [ascii "/../x", ascii "css"])) :=
  @findRoute_file sampleEnv.toExternal (ascii "/../x.css") sampleExternal_pcreSpec (by decide)
    (by decide) 5 (ascii "css") (by decide) (by decide)

/-- The URL `/../x.css?a` is accepted, and `/srv/../x.css` is opened for it. -/
theorem parent_read :
    (∃ u', httpParserParseUrl (ascii "/../x.css?a") (.filled 0 0) = some u' ∧
      urlParts (ascii "/../x.css?a") u' = .ok (ascii "/../x.css", ascii "a")) ∧
    openedFiles (stateOf (routeRequest sampleEnv (fun _ => 0) protoIobufLen 0 (ascii "/../x.css")
      publicWorld)) = [ascii "/srv/../x.css"] ∧
    ¬ ReadsInside sampleEnv (fun _ => 0) protoIobufLen 0 (ascii "/../x.css") publicWorld := by
  have hopened := routeRequest_opens sampleEnv_sparesOpened parentRoute (fun _ => 0) protoIobufLen 0
    publicWorld
  have hpath : openedFiles publicWorld ++
      [publicWorld.server.publicDir ++ ascii "/../x" ++ ascii "." ++ ascii "css"] =
        [ascii "/srv/../x.css"] := by
    decide
  rw [hpath] at hopened
  refine ⟨⟨_, rfl, by decide⟩, hopened, fun hinside => ?_⟩
  rw [ReadsInside, hopened] at hinside
  have hbelow := hinside (ascii "/srv/../x.css") List.mem_cons_self
  revert hbelow
  decide +kernel

end Blogd
