import Mathlib.Data.Nat.Find
import Blogd.Content.Patterns
import Blogd.Http.Process

/-! # Which route a path takes

The route table is searched from the top, and every pattern but the first is tried at every place
of the path. A path without a line break is the index when it is a single slash. Otherwise it is a
file when some dot is followed by one of the extensions, and only then a page or a post.
-/

namespace Blogd

open Regex

/-! ## The index -/

theorem indexRegex_none {path : Bytes} (hline : LF ∉ path) (hne : path ≠ ascii "/") :
    groupTexts indexRegex 0 path = none := by
  rw [groupTexts, search_eq_none, Option.map_none]
  intro passed left hsplit
  rw [indexRegex, run_seq, run]
  split
  next hstart =>
    have hpassed : passed = [] := by
      rcases hstart with hnil | ⟨hhead, -⟩
      · exact List.reverse_eq_nil_iff.mp hnil
      · refine absurd ?_ hline
        rw [hsplit]
        exact List.mem_append_left _ (List.mem_reverse.mp (List.mem_of_mem_head? hhead))
    rw [hpassed, List.nil_append] at hsplit
    subst hsplit
    rw [List.flatMap_cons, List.flatMap_nil, List.append_nil, run_seq]
    by_cases hslash : ascii "/" <+: path
    · obtain ⟨rest, rfl⟩ := hslash
      rw [run_text_pos (List.prefix_append _ _), List.flatMap_cons, List.flatMap_nil,
        List.append_nil, run, Cursor.advance_rest, Cursor.start_rest, List.drop_left, if_neg]
      rintro (hnil | hhead)
      · exact hne (by rw [hnil, List.append_nil])
      · exact hline (List.mem_append_right _ (List.mem_of_mem_head? hhead))
    · rw [run_text_neg hslash, List.flatMap_nil]
  next => rfl

/-! ## Files -/

/-- The extension behind a dot at an offset. -/
def extensionAt (path : Bytes) (k : Nat) : Option Bytes :=
  if ascii "." <+: path.drop k then firstOf fileExtensions (path.drop (k + 1)) else none

theorem dot_length : (ascii ".").length = 1 := by decide

theorem takeWhile_dot {rest : Bytes} (hline : LF ∉ rest) :
    rest.takeWhile (fun c => decide (c ≠ LF)) = rest := by
  rw [List.takeWhile_eq_self_iff]
  intro c hc
  simpa using fun heq : c = LF => hline (heq ▸ hc)

/-- The part of the file pattern behind its first group. -/
theorem head?_run_extension (c : Cursor) :
    (run (seq (text (ascii ".")) (group 2 (oneOf fileExtensions))) c).head? =
      (extensionAt c.rest 0).map fun e =>
        ((c.advance 1).advance e.length).capture 2 (c.advance 1).pos := by
  rw [run_seq, extensionAt, List.drop_zero]
  by_cases hdot : ascii "." <+: c.rest
  · rw [run_text_pos hdot, dot_length, if_pos hdot, List.flatMap_cons, List.flatMap_nil,
      List.append_nil, run_group, List.head?_map, head?_run_oneOf, Option.map_map]
    rfl
  · rw [run_text_neg hdot, if_neg hdot]
    rfl

/-- The file pattern takes the first dot with an extension behind it. -/
theorem head?_run_fileRegex {before rest : Bytes} (hline : LF ∉ rest) :
    (run fileRegex (.start before rest)).head? =
      (List.range (rest.length + 1)).findSome? fun k =>
        (extensionAt rest k).map fun e =>
          ((((Cursor.start before rest).advance k).capture 1 before.length).advance 1
            |>.advance e.length).capture 2
              (((Cursor.start before rest).advance k).advance 1).pos := by
  have hstar : run (star true dot) (.start before rest) =
      (List.range (rest.length + 1)).map (Cursor.start before rest).advance := by
    rw [dot, run_star_byte_lazy, Cursor.start_rest, takeWhile_dot hline]
  rw [fileRegex, run_seq, run_group, hstar, List.head?_flatMap, List.map_map,
    List.findSome?_map]
  congr 1
  funext k
  simp only [Function.comp_apply, head?_run_extension, Cursor.capture_rest, Cursor.advance_rest,
    Cursor.start_rest, Cursor.start_pos]
  have hat : extensionAt (rest.drop k) 0 = extensionAt rest k := by
    simp only [extensionAt, List.drop_drop, Nat.add_zero, Nat.zero_add]
  rw [hat]
  rfl

theorem fileRegex_none {path : Bytes} (hline : LF ∉ path)
    (hnone : ∀ k, extensionAt path k = none) : groupTexts fileRegex 2 path = none := by
  rw [groupTexts, search_eq_none, Option.map_none]
  intro passed left hsplit
  have hleft : LF ∉ left := fun hmem => hline (hsplit ▸ List.mem_append_right _ hmem)
  rw [← List.head?_eq_none_iff, head?_run_fileRegex hleft, List.findSome?_eq_none_iff]
  intro k _
  have hat : extensionAt left k = extensionAt path (passed.length + k) := by
    simp only [extensionAt, hsplit, Nat.add_assoc, ← List.drop_drop, List.drop_left]
  rw [hat, hnone, Option.map_none]

theorem dot_of_extensionAt {path ext : Bytes} {k : Nat} (hext : extensionAt path k = some ext) :
    ascii "." <+: path.drop k := by
  unfold extensionAt at hext
  split at hext
  next hdot => exact hdot
  next => cases hext

theorem lt_length_of_extensionAt {path ext : Bytes} {k : Nat}
    (hext : extensionAt path k = some ext) : k < path.length := by
  have hle := (dot_of_extensionAt hext).length_le
  rw [dot_length, List.length_drop] at hle
  omega

theorem extensionAt_eq_none {path : Bytes} (hdot : 46 ∉ path) (k : Nat) :
    extensionAt path k = none := by
  rw [extensionAt, if_neg]
  intro hpre
  exact hdot (List.mem_of_mem_drop (hpre.subset List.mem_cons_self))

theorem prefix_of_extensionAt {path ext : Bytes} {k : Nat}
    (hext : extensionAt path k = some ext) : ext <+: path.drop (k + 1) := by
  unfold extensionAt at hext
  split at hext
  next =>
    rw [firstOf] at hext
    have hfound := List.find?_some hext
    exact List.isPrefixOf_iff_prefix.mp hfound
  next => cases hext

theorem mem_of_extensionAt {path ext : Bytes} {k : Nat} (hext : extensionAt path k = some ext) :
    ext ∈ fileExtensions := by
  unfold extensionAt at hext
  split at hext
  next => exact List.mem_of_find?_eq_some hext
  next => cases hext

theorem dotted_of_extensionAt {path ext : Bytes} {k : Nat} (hext : extensionAt path k = some ext) :
    ascii "." ++ ext <+: path.drop k := by
  obtain ⟨more, hmore⟩ := dot_of_extensionAt hext
  have hpre := prefix_of_extensionAt hext
  rw [← List.drop_drop, ← hmore, List.drop_left' dot_length] at hpre
  rw [← hmore, List.prefix_append_right_inj]
  exact hpre

/-- Somewhere in the text a dot is followed by one of the extensions. -/
def HasExtension (text : Bytes) : Prop := ∃ e ∈ fileExtensions, ascii "." ++ e <:+: text

theorem hasExtension_of_extensionAt {path ext : Bytes} {k : Nat}
    (hext : extensionAt path k = some ext) : HasExtension path :=
  ⟨ext, mem_of_extensionAt hext,
    (dotted_of_extensionAt hext).isInfix.trans (List.drop_suffix k path).isInfix⟩

theorem extensionAt_isSome {path e : Bytes} {k : Nat} (he : e ∈ fileExtensions)
    (hpre : ascii "." ++ e <+: path.drop k) : (extensionAt path k).isSome := by
  obtain ⟨rest, hrest⟩ := hpre
  rw [List.append_assoc] at hrest
  rw [extensionAt, ← hrest, if_pos (List.prefix_append _ _), ← List.drop_drop, ← hrest,
    List.drop_left' dot_length]
  exact List.find?_isSome.mpr ⟨e, he, List.isPrefixOf_iff_prefix.mpr (List.prefix_append _ _)⟩

/-- A text with an extension has a first one. -/
theorem exists_first_extension {path : Bytes} (hpath : HasExtension path) :
    ∃ k e, extensionAt path k = some e ∧ ∀ j < k, extensionAt path j = none := by
  obtain ⟨e, he, before, rest, hsplit⟩ := hpath
  have hsome : ∃ k, (extensionAt path k).isSome := by
    refine ⟨before.length, extensionAt_isSome he ?_⟩
    rw [← hsplit, List.append_assoc, List.drop_left]
    exact List.prefix_append _ _
  obtain ⟨e', he'⟩ := Option.isSome_iff_exists.mp (Nat.find_spec hsome)
  refine ⟨Nat.find hsome, e', he', ?_⟩
  intro j hj
  simpa using Nat.find_min hsome hj

/-- The file pattern splits a path at its first dot with an extension behind it. -/
theorem fileRegex_some {path ext : Bytes} {k : Nat} (hline : LF ∉ path)
    (hext : extensionAt path k = some ext) (hfirst : ∀ j < k, extensionAt path j = none) :
    groupTexts fileRegex 2 path = some [path.take k, ext] := by
  have hk := lt_length_of_extensionAt hext
  have hpre := prefix_of_extensionAt hext
  have hlen := hpre.length_le
  rw [List.length_drop] at hlen
  have hhead := @head?_run_fileRegex [] path hline
  rw [findSome?_range_first (Nat.lt_succ_of_lt hk) (by rw [hext, Option.map_some])
    (fun j hj => by rw [hfirst j hj, Option.map_none])] at hhead
  have hpos : ∀ j ≤ path.length, ((Cursor.start [] path).advance j).pos = j := by
    intro j hj
    rw [Cursor.advance_pos (by simpa using hj)]
    exact Nat.zero_add j
  have htext : (path.drop (k + 1)).take ext.length = ext :=
    (List.prefix_iff_eq_take.mp hpre).symm
  rw [groupTexts, search_of_start hhead, Option.map_some]
  simp only [List.range_succ, List.range_zero, List.nil_append, List.singleton_append,
    List.map_cons, List.map_nil, Nat.zero_add, Nat.reduceAdd, Cursor.capture_groups_self,
    Cursor.capture_groups_of_ne _ _ (by decide : (1 : Nat) ≠ 2), Cursor.advance_groups]
  rw [Cursor.advance_advance, Cursor.advance_advance, Cursor.capture_advance_pos,
    Cursor.advance_advance, hpos k hk.le, hpos (k + 1) hk, hpos _ (by omega)]
  simp only [groupText, List.length_nil, List.drop_zero, Nat.sub_zero]
  rw [show k + (1 + ext.length) - (k + 1) = ext.length by omega, htext]

/-! ## Pages and posts -/

/-- The last digit of the number that a page has at an offset. -/
def pageDigitAt (path : Bytes) (k : Nat) : Option UInt8 :=
  if ascii "/page/" <+: path.drop k then ((path.drop (k + 6)).takeWhile isdigit).getLast?
  else none

theorem page_length : (ascii "/page/").length = 6 := by decide

theorem pageDigitAt_drop (path : Bytes) (k j : Nat) :
    pageDigitAt (path.drop k) j = pageDigitAt path (k + j) := by
  simp only [pageDigitAt, List.drop_drop, Nat.add_assoc]

theorem pageDigitAt_eq_none {path : Bytes} (hnone : ¬ ascii "/page/" <:+: path) (k : Nat) :
    pageDigitAt path k = none := by
  rw [pageDigitAt, if_neg]
  intro hpre
  exact hnone (hpre.isInfix.trans (List.drop_suffix k path).isInfix)

/-- One or more captured digits: the group holds the last one. -/
theorem head?_run_digits (c : Cursor) :
    (run (seq (group 1 digit) (star false (group 1 digit))) c).head? =
      if (c.rest.takeWhile isdigit).length = 0 then none
      else some ((c.advance (c.rest.takeWhile isdigit).length).capture 1
        (c.pos + (c.rest.takeWhile isdigit).length - 1)) := by
  cases hrest : c.rest with
  | nil => simp [digit, run_byte, hrest]
  | cons first rest =>
      by_cases hfirst : isdigit first = true
      · have hone : (c.advance 1).pos = c.pos + 1 := Cursor.advance_pos (by simp [hrest])
        simp only [run_seq, run_group, digit, run_byte, hrest, List.head?_cons, Option.any_some,
          hfirst, if_true, List.map_cons, List.map_nil, List.flatMap_cons, List.flatMap_nil,
          List.append_nil, head?_run_star_group_greedy, Cursor.capture_rest, Cursor.advance_rest,
          List.drop_one, List.tail_cons, List.takeWhile_cons_of_pos hfirst, List.length_cons,
          Nat.add_one_ne_zero, if_false, Cursor.capture_advance_capture, Cursor.advance_advance,
          Cursor.capture_pos, hone]
        -- behind a single digit the repetition captures nothing more
        split
        next hnone => simp only [hnone, Nat.zero_add, Nat.add_sub_cancel]
        next =>
          rw [Nat.add_comm 1, Nat.add_right_comm]
          rfl
      · simp [digit, run_byte, hrest, hfirst]

theorem head?_run_pageRegex {before rest : Bytes} (hpre : ascii "/page/" <+: rest) :
    (run pageRegex (.start before rest)).head? =
      if ((rest.drop 6).takeWhile isdigit).length = 0 then none
      else some (((Cursor.start before rest).advance
        (6 + ((rest.drop 6).takeWhile isdigit).length)).capture 1
          (before.length + 6 + ((rest.drop 6).takeWhile isdigit).length - 1)) := by
  have hlength := hpre.length_le
  rw [page_length] at hlength
  rw [pageRegex, run_seq, run_text_pos hpre, page_length, List.flatMap_cons, List.flatMap_nil,
    List.append_nil, head?_run_digits, Cursor.advance_advance, Cursor.advance_pos hlength]
  rfl

/-- Where no page begins the page pattern does not match. -/
theorem run_pageRegex_eq_nil {before rest : Bytes} (hnone : pageDigitAt rest 0 = none) :
    run pageRegex (.start before rest) = [] := by
  by_cases hpre : ascii "/page/" <+: rest
  · rw [pageDigitAt, List.drop_zero, if_pos hpre, List.getLast?_eq_none_iff] at hnone
    rw [← List.head?_eq_none_iff, head?_run_pageRegex hpre, hnone]
    rfl
  · rw [pageRegex, run_seq, run_text_neg hpre, List.flatMap_nil]

theorem pageRegex_none {path : Bytes} (hnone : ∀ k, pageDigitAt path k = none) :
    groupTexts pageRegex 1 path = none := by
  rw [groupTexts, search_eq_none, Option.map_none]
  intro passed left hsplit
  have hleft : left = path.drop passed.length := by rw [hsplit, List.drop_left]
  apply run_pageRegex_eq_nil
  rw [hleft, pageDigitAt_drop]
  exact hnone _

/-- The search stops behind the number of the first page. -/
theorem search_pageRegex {path : Bytes} {k n : Nat} (hpre : ascii "/page/" <+: path.drop k)
    (hcount : ((path.drop (k + 6)).takeWhile isdigit).length = n + 1)
    (hfirst : ∀ j < k, pageDigitAt path j = none) :
    search pageRegex path =
      some (((Cursor.start (path.take k).reverse (path.drop k)).advance (6 + (n + 1))).capture 1
        (k + 6 + n)) := by
  have hlength := hpre.length_le
  rw [page_length, List.length_drop] at hlength
  have htake : (path.take k).length = k := List.length_take_of_le (by omega)
  have hhead := @head?_run_pageRegex (path.take k).reverse (path.drop k) hpre
  rw [List.drop_drop, hcount, if_neg (Nat.succ_ne_zero _), List.length_reverse, htake] at hhead
  nth_rewrite 1 [← List.take_append_drop k path]
  refine search_of_first ?_ hhead
  intro j hj
  apply run_pageRegex_eq_nil
  rw [← List.drop_append_of_le_length hj.le, List.take_append_drop, pageDigitAt_drop]
  exact hfirst j (htake ▸ hj)

/-- The page pattern captures the last digit alone of the first page number. -/
theorem pageRegex_some {path : Bytes} {k : Nat} {last : UInt8}
    (hlast : pageDigitAt path k = some last) (hfirst : ∀ j < k, pageDigitAt path j = none) :
    groupTexts pageRegex 1 path = some [[last]] := by
  unfold pageDigitAt at hlast
  split at hlast
  next hpre =>
    obtain ⟨digits, hdigits⟩ := List.getLast?_eq_some_iff.mp hlast
    obtain ⟨rest, hrest⟩ : ∃ rest, path.drop (k + 6) = digits ++ [last] ++ rest :=
      ⟨_, by rw [← hdigits, List.takeWhile_append_dropWhile]⟩
    have hend : k + 6 + (digits.length + 1) ≤ path.length := by
      have hlength := congrArg List.length hrest
      simp only [List.length_drop, List.length_append, List.length_singleton] at hlength
      omega
    have htext : path.drop (k + 6 + digits.length) = last :: rest := by
      rw [← List.drop_drop, hrest, List.append_assoc, List.drop_left]
      rfl
    rw [groupTexts, search_pageRegex hpre (by rw [hdigits, List.length_append]; rfl) hfirst,
      Option.map_some]
    simp only [List.range_succ, List.range_zero, List.nil_append, List.map_cons, List.map_nil,
      Nat.zero_add, Cursor.capture_groups_self]
    rw [Cursor.advance_pos (by rw [Cursor.start_rest, List.length_drop]; omega), Cursor.start_pos,
      List.length_reverse, List.length_take_of_le (by omega), groupText, htext,
      show k + (6 + (digits.length + 1)) - (k + 6 + digits.length) = 1 by omega]
    rfl
  next => cases hlast

/-- The post pattern captures everything behind the first slash. -/
theorem contentRegex_some {rest : Bytes} (hline : LF ∉ rest) :
    groupTexts contentRegex 1 (ascii "/" ++ rest) = some [rest] := by
  have hpre : ascii "/" <+: (Cursor.start [] (ascii "/" ++ rest)).rest :=
    List.prefix_append _ _
  have hrest : ((Cursor.start [] (ascii "/" ++ rest)).advance (ascii "/").length).rest = rest :=
    List.drop_left
  have hone : ((Cursor.start [] (ascii "/" ++ rest)).advance (ascii "/").length).pos = 1 := by
    rw [Cursor.advance_pos (by simp)]
    rfl
  have hhead : (run contentRegex (.start [] (ascii "/" ++ rest))).head? =
      some ((((Cursor.start [] (ascii "/" ++ rest)).advance (ascii "/").length).advance
        rest.length).capture 1 1) := by
    rw [contentRegex, run_seq, run_text_pos hpre, List.flatMap_cons, List.flatMap_nil,
      List.append_nil, run_group, List.head?_map, dot, head?_run_star_byte_greedy, hrest,
      takeWhile_dot hline, hone]
    rfl
  rw [groupTexts, search_of_start hhead, Option.map_some]
  simp only [List.range_succ, List.range_zero, List.nil_append, List.map_cons, List.map_nil,
    Nat.zero_add, Cursor.capture_groups_self]
  rw [Cursor.advance_pos (by rw [hrest]), hone, groupText, Nat.add_sub_cancel_left]
  have hdrop : (ascii "/" ++ rest).drop 1 = rest := rfl
  rw [hdrop, List.take_length]

/-! ## The table -/

section Table

variable {ext : External}

theorem length_groupTexts {r : Regex} {captureCount : Nat} {data : Bytes} {found : List Bytes}
    (hmatch : groupTexts r captureCount data = some found) : found.length = captureCount := by
  obtain ⟨c, -, rfl⟩ := Option.map_eq_some_iff.mp hmatch
  simp

/-- The number of groups of the pattern of a route. -/
def Callback.captureCount : Callback → Nat
  | .index => 0
  | .file => 2
  | .page => 1
  | .content => 1

/-- The route loop always ends, and a callback gets the groups of its pattern. -/
theorem findRoute_total (hspec : ext.PcreSpec) (path : Bytes) :
    ∃ route, findRoute ext path httpRoutes = .ok route ∧
      ∀ callback found, route = some (callback, found) →
        found.length = callback.captureCount := by
  have hindex := pregMatch_toPcre hspec.index (by decide) path
  have hfile := pregMatch_toPcre hspec.file (by decide) path
  have hpage := pregMatch_toPcre hspec.page (by decide) path
  have hcontent := pregMatch_toPcre hspec.content (by decide) path
  have hfirst : ∀ {callback : Callback} {found : List Bytes},
      found.length = callback.captureCount →
      ∃ route, (.ok (some (callback, found)) : Except Fault _) = .ok route ∧
        ∀ callback' found', route = some (callback', found') →
          found'.length = callback'.captureCount := by
    intro callback found hlength
    refine ⟨_, rfl, ?_⟩
    rintro callback' found' ⟨⟩
    exact hlength
  simp only [httpRoutes, findRoute, hindex, hfile, hpage, hcontent, ok_bind, pure_eq_ok]
  split
  next found hmatch => exact hfirst (length_groupTexts hmatch)
  next =>
    split
    next found hmatch => exact hfirst (length_groupTexts hmatch)
    next =>
      split
      next found hmatch => exact hfirst (length_groupTexts hmatch)
      next =>
        split
        next found hmatch => exact hfirst (length_groupTexts hmatch)
        next => exact ⟨none, rfl, fun _ _ h => by cases h⟩

theorem findRoute_index (hspec : ext.PcreSpec) :
    findRoute ext (ascii "/") httpRoutes = .ok (some (.index, [])) := by
  have hmatch : groupTexts indexRegex 0 (ascii "/") = some [] := by decide
  simp only [httpRoutes, findRoute, pregMatch_toPcre hspec.index (by decide), hmatch, ok_bind,
    pure_eq_ok]

variable {path : Bytes}

theorem findRoute_file (hspec : ext.PcreSpec) (hline : LF ∉ path) (hne : path ≠ ascii "/")
    {k : Nat} {e : Bytes} (hext : extensionAt path k = some e)
    (hfirst : ∀ j < k, extensionAt path j = none) :
    findRoute ext path httpRoutes = .ok (some (.file, [path.take k, e])) := by
  simp only [httpRoutes, findRoute, pregMatch_toPcre hspec.index (by decide),
    indexRegex_none hline hne, pregMatch_toPcre hspec.file (by decide),
    fileRegex_some hline hext hfirst, ok_bind, pure_eq_ok]

theorem findRoute_page (hspec : ext.PcreSpec) (hline : LF ∉ path) (hne : path ≠ ascii "/")
    (hext : ∀ k, extensionAt path k = none) {k : Nat} {last : UInt8}
    (hlast : pageDigitAt path k = some last) (hfirst : ∀ j < k, pageDigitAt path j = none) :
    findRoute ext path httpRoutes = .ok (some (.page, [[last]])) := by
  simp only [httpRoutes, findRoute, pregMatch_toPcre hspec.index (by decide),
    indexRegex_none hline hne, pregMatch_toPcre hspec.file (by decide), fileRegex_none hline hext,
    pregMatch_toPcre hspec.page (by decide), pageRegex_some hlast hfirst, ok_bind, pure_eq_ok]

/-- The path that the pagination links to. -/
theorem findRoute_pageLink (hspec : ext.PcreSpec) {digits : Bytes} {last : UInt8}
    (hdigits : ∀ d ∈ digits ++ [last], isdigit d = true) :
    findRoute ext (ascii "/page/" ++ (digits ++ [last])) httpRoutes =
      .ok (some (.page, [[last]])) := by
  have hother : ∀ c, isdigit c = false → c ∉ ascii "/page/" →
      c ∉ ascii "/page/" ++ (digits ++ [last]) := by
    intro c hc hpage hmem
    rcases List.mem_append.mp hmem with hmem | hmem
    · exact hpage hmem
    · rw [hdigits c hmem] at hc
      cases hc
  have hne : ascii "/page/" ++ (digits ++ [last]) ≠ ascii "/" := by
    intro heq
    have hone : (ascii "/").length = 1 := by decide
    have hlength := congrArg List.length heq
    rw [List.length_append, page_length, hone] at hlength
    omega
  have hlast : pageDigitAt (ascii "/page/" ++ (digits ++ [last])) 0 = some last := by
    rw [pageDigitAt, List.drop_zero, if_pos (List.prefix_append _ _), Nat.zero_add, ← page_length,
      List.drop_left, List.takeWhile_eq_self_iff.mpr hdigits, List.getLast?_concat]
  exact findRoute_page hspec (hother LF (by decide) (by decide)) hne
    (extensionAt_eq_none (hother 46 (by decide) (by decide))) hlast (fun j hj => by omega)

theorem findRoute_content (hspec : ext.PcreSpec) {rest : Bytes} (hline : LF ∉ rest)
    (hne : rest ≠ []) (hext : ∀ k, extensionAt (ascii "/" ++ rest) k = none)
    (hpage : ∀ k, pageDigitAt (ascii "/" ++ rest) k = none) :
    findRoute ext (ascii "/" ++ rest) httpRoutes = .ok (some (.content, [rest])) := by
  have hpath : LF ∉ ascii "/" ++ rest := by
    rw [List.mem_append, not_or]
    exact ⟨by decide, hline⟩
  have hroot : ascii "/" ++ rest ≠ ascii "/" := by
    intro heq
    exact hne (List.append_right_eq_self.mp heq)
  simp only [httpRoutes, findRoute, pregMatch_toPcre hspec.index (by decide),
    indexRegex_none hpath hroot, pregMatch_toPcre hspec.file (by decide),
    fileRegex_none hpath hext, pregMatch_toPcre hspec.page (by decide), pageRegex_none hpage,
    pregMatch_toPcre hspec.content (by decide), contentRegex_some hline, ok_bind, pure_eq_ok]

end Table

end Blogd
