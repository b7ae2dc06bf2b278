import Mathlib.Data.List.DropRight
import Blogd.Content.Compiled
import Blogd.Content.Replace
import Blogd.Content.Sample

/-! # Sections

A section is the text between its marker and the next `@endsection`, without the white space
around it. The pattern that finds it repeats lazily between two greedy runs of white space. What
it captures is found here without backtracking: by two searches and a trim.
-/

namespace Blogd

open Regex

/-- A text without the white space at its ends. -/
def trimSpace (s : Bytes) : Bytes := (s.dropWhile isspace).rdropWhile isspace

def sectionMarker (name : String) : Bytes := ascii "@section_" ++ ascii name

def sectionEnd : Bytes := ascii "@endsection"

theorem sectionMarker_ne_nil (name : String) : sectionMarker name ≠ [] := List.cons_ne_nil _ _

theorem sectionEnd_ne_nil : sectionEnd ≠ [] := List.cons_ne_nil _ _

/-- The text behind the first marker and before the first `@endsection` behind that, trimmed. -/
def plainSection (name : String) (file : Bytes) : Option Bytes :=
  match strstr (sectionMarker name) file with
  | none => none
  | some k =>
      match strstr sectionEnd (file.drop (k + (sectionMarker name).length)) with
      | none => none
      | some e => some (trimSpace ((file.drop (k + (sectionMarker name).length)).take e))

/-! ## Behind the marker -/

/-- The part of the pattern behind the first run of white space. -/
def lazyTail : Regex :=
  seq (group 1 (star true (group 2 (alt dot (byte (· = LF))))))
    (seq (star false space) (text sectionEnd))

theorem run_anyByte :
    run (group 2 (alt dot (byte (· = LF)))) = run (group 2 (byte fun _ => true)) := by
  funext c
  rw [run_group, run_group, run_alt, dot, run_byte, run_byte, run_byte]
  cases c.rest with
  | nil => rfl
  | cons b rest => by_cases hb : b = LF <;> simp [hb]

theorem sectionEnd_cons : sectionEnd = 64 :: ascii "endsection" := rfl

/-- From a place white space leads to the end. -/
def LeadsToEnd (rest : Bytes) (k : Nat) : Prop :=
  sectionEnd <+: (rest.drop k).dropWhile isspace

instance (rest : Bytes) (k : Nat) : Decidable (LeadsToEnd rest k) :=
  inferInstanceAs (Decidable (_ <+: _))

theorem drop_length_takeWhile (p : UInt8 → Bool) (text : Bytes) :
    text.drop (text.takeWhile p).length = text.dropWhile p := by
  nth_rewrite 2 [← List.takeWhile_append_dropWhile (p := p) (l := text)]
  exact List.drop_left

theorem leadsToEnd_trimmed {rest : Bytes} {e : Nat} (hend : FirstAt sectionEnd rest e) :
    LeadsToEnd rest ((rest.take e).rdropWhile isspace).length := by
  obtain ⟨more, hmore⟩ := hend.occurs
  have hsplit : rest = (rest.take e).rdropWhile isspace ++
      ((rest.take e).rtakeWhile isspace ++ (sectionEnd ++ more)) := by
    rw [← List.append_assoc, List.rdropWhile_append_rtakeWhile, hmore, List.take_append_drop]
  have hspaces : ∀ c ∈ (rest.take e).rtakeWhile isspace, isspace c = true :=
    fun c hc => List.mem_rtakeWhile_imp hc
  rw [LeadsToEnd]
  nth_rewrite 2 [hsplit]
  rw [List.drop_left, List.dropWhile_append_of_pos hspaces]
  exact List.prefix_append _ _

theorem not_leadsToEnd_of_lt {rest : Bytes} {e k : Nat} (hend : FirstAt sectionEnd rest e)
    (hk : k < ((rest.take e).rdropWhile isspace).length) : ¬ LeadsToEnd rest k := by
  intro hlead
  have hne : (rest.take e).rdropWhile isspace ≠ [] := List.length_pos_iff.mp (by omega)
  have hlast := List.rdropWhile_last_not isspace (rest.take e) hne
  have hpre : (rest.take e).rdropWhile isspace <+: rest :=
    (List.rdropWhile_prefix isspace (rest.take e)).trans (List.take_prefix e rest)
  have hle : ((rest.take e).rdropWhile isspace).length ≤ e :=
    (List.rdropWhile_prefix isspace (rest.take e)).length_le.trans (List.length_take_le e rest)
  -- the white space from the place reaches the first end, over the last byte of the section
  have hreach : e ≤ k + ((rest.drop k).takeWhile isspace).length := by
    apply Nat.le_of_not_lt
    intro hlt
    apply hend.first _ hlt
    rw [← List.drop_drop, drop_length_takeWhile]
    exact hlead
  obtain ⟨more, hmore⟩ := hpre
  have hget : (rest.drop k)[((rest.take e).rdropWhile isspace).length - 1 - k]? =
      some (((rest.take e).rdropWhile isspace).getLast hne) := by
    rw [List.getElem?_drop]
    nth_rewrite 1 [← hmore]
    rw [List.getElem?_append_left (by omega), List.getLast_eq_getElem, ← List.getElem?_eq_getElem]
    congr 1
    omega
  rw [← List.takeWhile_append_dropWhile (p := isspace) (l := rest.drop k),
    List.getElem?_append_left (by omega)] at hget
  exact hlast (List.mem_takeWhile_imp (List.mem_of_getElem? hget))

/-- Where the lazy group can stop, `k` bytes on. -/
def lazyStop (c : Cursor) (k : Nat) : Cursor :=
  (if k = 0 then c else (c.advance k).capture 2 (c.pos + k - 1)).capture 1 c.pos

theorem lazyStop_rest (c : Cursor) (k : Nat) : (lazyStop c k).rest = c.rest.drop k := by
  rw [lazyStop, Cursor.capture_rest]
  split
  next hzero => rw [hzero, List.drop_zero]
  next => rw [Cursor.capture_rest, Cursor.advance_rest]

theorem lazyStop_group {c : Cursor} {k : Nat} (hk : k ≤ c.rest.length) :
    (lazyStop c k).groups 1 = some (c.pos, c.pos + k) := by
  rw [lazyStop, Cursor.capture_groups_self]
  split
  next hzero => rw [hzero, Nat.add_zero]
  next => rw [Cursor.capture_pos, Cursor.advance_pos hk]

/-- The lazy group stops after as few bytes as it can. -/
theorem run_lazyGroup (c : Cursor) :
    run (group 1 (star true (group 2 (alt dot (byte (· = LF)))))) c =
      (List.range (c.rest.length + 1)).map (lazyStop c) := by
  have hall : c.rest.takeWhile (fun _ => true) = c.rest :=
    List.takeWhile_eq_self_iff.mpr fun _ _ => rfl
  have hsame : run (star true (group 2 (alt dot (byte (· = LF))))) c =
      run (star true (group 2 (byte fun _ => true))) c := by
    rw [run, run, run_anyByte]
  rw [run_group, hsame, run_star_group_lazy, hall, List.map_map]
  rfl

/-- The lazy group ends at the first place from which white space leads to the end. -/
theorem head?_run_lazyTail {c : Cursor} {e : Nat} (hend : FirstAt sectionEnd c.rest e) :
    ∃ d, (run lazyTail c).head? = some d ∧
      d.groups 1 = some (c.pos, c.pos + ((c.rest.take e).rdropWhile isspace).length) := by
  have hle : ((c.rest.take e).rdropWhile isspace).length ≤ c.rest.length :=
    ((List.rdropWhile_prefix isspace (c.rest.take e)).trans (List.take_prefix e c.rest)).length_le
  have hstop : ∀ k, (run (seq (star false space) (text sectionEnd)) (lazyStop c k)).head? =
      if LeadsToEnd c.rest k then some ((lazyStop c k).advance
        (((c.rest.drop k).takeWhile isspace).length + sectionEnd.length)) else none := by
    intro k
    rw [sectionEnd_cons, space, head?_run_star_text (by decide), lazyStop_rest]
    rfl
  have hfirst := findSome?_range_first
    (f := fun k => (run (seq (star false space) (text sectionEnd)) (lazyStop c k)).head?)
    (Nat.lt_succ_of_le hle) (by rw [hstop, if_pos (leadsToEnd_trimmed hend)])
    (fun k hk => by rw [hstop, if_neg (not_leadsToEnd_of_lt hend hk)])
  refine ⟨_, Eq.trans ?_ hfirst, lazyStop_group hle⟩
  rw [lazyTail, run_seq, run_lazyGroup, List.head?_flatMap, List.findSome?_map]
  rfl

/-- The white space in front of a section is not part of it. -/
theorem dropWhile_take {rest : Bytes} {e : Nat} (he : (rest.takeWhile isspace).length ≤ e) :
    (rest.take e).dropWhile isspace =
      (rest.drop (rest.takeWhile isspace).length).take (e - (rest.takeWhile isspace).length) := by
  have hspaces : ∀ c ∈ rest.takeWhile isspace, isspace c = true :=
    fun c hc => List.mem_takeWhile_imp hc
  rw [drop_length_takeWhile]
  nth_rewrite 1 [← List.takeWhile_append_dropWhile (p := isspace) (l := rest)]
  rw [List.take_append, List.take_of_length_le he, List.dropWhile_append_of_pos hspaces]
  cases hrest : rest.dropWhile isspace with
  | nil => rw [List.take_nil, List.dropWhile_nil]
  | cons b more =>
      have hb : ¬ isspace b = true := by
        have hhead := List.head?_dropWhile_not isspace rest
        rw [hrest] at hhead
        simpa using hhead
      cases e - (rest.takeWhile isspace).length with
      | zero => rfl
      | succ n => rw [List.take_succ_cons, List.dropWhile_cons_of_neg hb]

/-- The part of the pattern behind the marker. -/
def behindMarker : Regex := seq (star false space) lazyTail

theorem run_behindMarker_eq_nil {c : Cursor} (hend : ¬ sectionEnd <:+: c.rest) :
    run behindMarker c = [] := by
  refine run_seq_eq_nil _ fun d hd => run_seq_eq_nil _ fun d' hd' => run_seq_eq_nil _ ?_
  intro d'' hd''
  apply run_text_neg
  intro hpre
  exact hend (hpre.isInfix.trans (hd''.trans (hd'.trans hd)).isInfix)

theorem length_spaces_le {rest : Bytes} {e : Nat} (hend : FirstAt sectionEnd rest e) :
    (rest.takeWhile isspace).length ≤ e := by
  apply Nat.le_of_not_lt
  intro hlt
  obtain ⟨more, hmore⟩ := hend.occurs
  have hget : rest[e]? = some 64 := by
    rw [← List.head?_drop, ← hmore]
    rfl
  rw [← List.takeWhile_append_dropWhile (p := isspace) (l := rest),
    List.getElem?_append_left hlt] at hget
  exact absurd (List.mem_takeWhile_imp (List.mem_of_getElem? hget)) (by decide)

/-- Behind the marker the trimmed text up to the end is captured. -/
theorem head?_run_behindMarker {c : Cursor} {e : Nat} (hend : FirstAt sectionEnd c.rest e) :
    ∃ d, (run behindMarker c).head? = some d ∧
      d.groups 1 = some (c.pos + (c.rest.takeWhile isspace).length,
        c.pos + (c.rest.takeWhile isspace).length + (trimSpace (c.rest.take e)).length) := by
  have hle := length_spaces_le hend
  have hspaces : (c.rest.takeWhile isspace).length ≤ c.rest.length :=
    (List.takeWhile_prefix isspace).length_le
  obtain ⟨rest, hstar⟩ := List.head?_eq_some_iff.mp (@head?_run_star_byte_greedy isspace c)
  have hfirst : FirstAt sectionEnd (c.advance (c.rest.takeWhile isspace).length).rest
      (e - (c.rest.takeWhile isspace).length) := by
    rw [Cursor.advance_rest]
    constructor
    · rw [List.drop_drop, Nat.add_sub_cancel' hle]
      exact hend.occurs
    · intro j hj
      rw [List.drop_drop]
      exact hend.first _ (by omega)
  obtain ⟨d, hhead, hgroup⟩ := head?_run_lazyTail hfirst
  rw [Cursor.advance_pos hspaces, Cursor.advance_rest, ← dropWhile_take hle] at hgroup
  refine ⟨d, ?_, hgroup⟩
  rw [behindMarker, run_seq, space, hstar, List.flatMap_cons, List.head?_append, hhead,
    Option.some_or]

theorem take_length_trimSpace {rest : Bytes} {e : Nat} (hend : FirstAt sectionEnd rest e) :
    (rest.drop (rest.takeWhile isspace).length).take (trimSpace (rest.take e)).length =
      trimSpace (rest.take e) := by
  have hpre : trimSpace (rest.take e) <+: rest.drop (rest.takeWhile isspace).length := by
    rw [trimSpace, dropWhile_take (length_spaces_le hend)]
    exact (List.rdropWhile_prefix isspace _).trans (List.take_prefix _ _)
  exact (List.prefix_iff_eq_take.mp hpre).symm

/-! ## The whole pattern -/

theorem sectionRegex_eq (name : String) :
    sectionRegex name = seq (text (sectionMarker name)) behindMarker := rfl

theorem run_sectionRegex_neg {name : String} {c : Cursor}
    (hmarker : ¬ sectionMarker name <+: c.rest) : run (sectionRegex name) c = [] := by
  rw [sectionRegex_eq, run_seq, run_text_neg hmarker, List.flatMap_nil]

theorem run_sectionRegex_pos {name : String} {c : Cursor}
    (hmarker : sectionMarker name <+: c.rest) :
    run (sectionRegex name) c = run behindMarker (c.advance (sectionMarker name).length) := by
  rw [sectionRegex_eq, run_seq, run_text_pos hmarker, List.flatMap_singleton]

section Search

variable {name : String} {file : Bytes} {k : Nat}

theorem search_without_marker (habsent : ¬ sectionMarker name <:+: file) :
    search (sectionRegex name) file = none := by
  apply search_eq_none
  intro passed left hsplit
  apply run_sectionRegex_neg
  intro hpre
  rw [Cursor.start_rest] at hpre
  exact habsent (hsplit ▸ hpre.isInfix.trans (List.suffix_append passed left).isInfix)

/-- No end behind the first marker is no end behind any. -/
theorem search_unterminated (hk : FirstAt (sectionMarker name) file k)
    (hend : ¬ sectionEnd <:+: file.drop (k + (sectionMarker name).length)) :
    search (sectionRegex name) file = none := by
  apply search_eq_none
  intro passed left hsplit
  have hleft : left = file.drop passed.length := by rw [hsplit, List.drop_left]
  by_cases hpre : sectionMarker name <+: left
  · rw [run_sectionRegex_pos (by rw [Cursor.start_rest]; exact hpre)]
    apply run_behindMarker_eq_nil
    rw [Cursor.advance_rest, Cursor.start_rest, hleft, List.drop_drop]
    have hlater : k ≤ passed.length := by
      apply Nat.le_of_not_lt
      intro hlt
      exact hk.first _ hlt (hleft ▸ hpre)
    intro hoccurs
    apply hend
    refine hoccurs.trans (List.IsSuffix.isInfix ?_)
    rw [show passed.length + (sectionMarker name).length =
      k + (sectionMarker name).length + (passed.length - k) by omega, ← List.drop_drop]
    exact List.drop_suffix _ _
  · exact run_sectionRegex_neg hpre

/-- The match at the first marker. -/
theorem search_terminated (hk : FirstAt (sectionMarker name) file k) {e : Nat}
    (hend : FirstAt sectionEnd (file.drop (k + (sectionMarker name).length)) e) :
    ∃ d, search (sectionRegex name) file = some d ∧
      groupText file (d.groups 1) =
        trimSpace ((file.drop (k + (sectionMarker name).length)).take e) := by
  have hlength := length_le_of_occurs (sectionMarker_ne_nil name) hk.occurs
  obtain ⟨c, hc⟩ : ∃ c, Cursor.start (file.take k).reverse (file.drop k) = c := ⟨_, rfl⟩
  have hrest : c.rest = file.drop k := by rw [← hc, Cursor.start_rest]
  have hpos : c.pos = k := by
    rw [← hc, Cursor.start_pos, List.length_reverse, List.length_take]
    omega
  have hbehind : (c.advance (sectionMarker name).length).rest =
      file.drop (k + (sectionMarker name).length) := by
    rw [Cursor.advance_rest, hrest, List.drop_drop]
  have hbehindPos : (c.advance (sectionMarker name).length).pos =
      k + (sectionMarker name).length := by
    rw [Cursor.advance_pos (by rw [hrest, List.length_drop]; omega), hpos]
  obtain ⟨d, hhead, hgroup⟩ := head?_run_behindMarker
    (c := c.advance (sectionMarker name).length) (by rw [hbehind]; exact hend)
  rw [hbehind, hbehindPos] at hgroup
  refine ⟨d, ?_, ?_⟩
  · nth_rewrite 1 [← List.take_append_drop k file]
    -- in front of the first marker the pattern matches nowhere
    apply search_of_first
    · intro j hj
      rw [List.length_take] at hj
      apply run_sectionRegex_neg
      rw [Cursor.start_rest, ← List.drop_append_of_le_length (by rw [List.length_take]; omega),
        List.take_append_drop]
      exact hk.first j (by omega)
    · rw [hc, run_sectionRegex_pos (by rw [hrest]; exact hk.occurs)]
      exact hhead
  · have htrim := take_length_trimSpace hend
    rw [List.drop_drop] at htrim
    rw [hgroup, groupText, Nat.add_sub_cancel_left]
    exact htrim

end Search

/-- The pattern captures what the two searches find. -/
theorem sectionOf_eq (name : String) (file : Bytes) :
    (sectionOf name file).map (·.headD []) = plainSection name file := by
  by_cases hfound : sectionMarker name <:+: file
  · obtain ⟨k, hk⟩ := exists_firstAt_of_isInfix hfound
    rw [plainSection, strstr_eq_some (sectionMarker_ne_nil name) hk]
    by_cases hended : sectionEnd <:+: file.drop (k + (sectionMarker name).length)
    · obtain ⟨e, he⟩ := exists_firstAt_of_isInfix hended
      obtain ⟨d, hsearch, hgroup⟩ := search_terminated hk he
      rw [sectionOf, groupTexts, hsearch]
      simp only [strstr_eq_some sectionEnd_ne_nil he, ← hgroup]
      rfl
    · rw [sectionOf, groupTexts, search_unterminated hk hended]
      simp only [strstr_eq_none hended]
      rfl
  · rw [sectionOf, groupTexts, search_without_marker hfound, plainSection, strstr_eq_none hfound]
    rfl

theorem sectionText_eq (name : String) (file : Bytes) :
    sectionText (sectionOf name file) = (plainSection name file).getD [] := by
  rw [← sectionOf_eq]
  cases sectionOf name file <;> rfl

/-! ## Templates -/

section Template

variable {ext : External} (markdownCompile : Int) (useMarkdown : Bool)

/-- The text put in place of the content placeholder. -/
def plainContent (ext : External) (file : Bytes) : Bytes :=
  match plainSection "content" file with
  | none => []
  | some s =>
      if markdownCompile > 0 ∧ useMarkdown then cstr (ext.compileMarkdownContent s).data else s

theorem contentText_eq (file : Bytes) :
    contentText ext markdownCompile useMarkdown (sectionOf "content" file) =
      plainContent markdownCompile useMarkdown ext file := by
  rw [plainContent, ← sectionOf_eq]
  cases sectionOf "content" file <;> rfl

/-- A template compiled from its sections as they are found without a pattern. -/
def plainObj (ext : External) (layout file : Bytes) : CompiledObj where
  title := (plainSection "title" file).getD []
  metaDesc := (plainSection "meta_description" file).getD []
  desc := (plainSection "description" file).getD []
  thumbnail := (plainSection "thumbnail" file).getD []
  publishedAt := (plainSection "published_at" file).getD []
  compiledContent :=
    replaced (placeholder "content") (plainContent markdownCompile useMarkdown ext file)
      (replaced (placeholder "meta_description") ((plainSection "meta_description" file).getD [])
        (replaced (placeholder "title") ((plainSection "title" file).getD []) layout))

theorem compiledObj_eq (layout file : Bytes) :
    compiledObj ext markdownCompile useMarkdown layout file =
      plainObj markdownCompile useMarkdown ext layout file := by
  simp only [compiledObj, compiledContent, plainObj, sectionText_eq, contentText_eq]

/-- The value of every section is the text behind the first marker and before the next end,
trimmed, and empty when there is none. These are the values a template is compiled with. -/
theorem compileTemplate_takes_plain_sections (hspec : ext.PcreSpec) (file layout : Bytes) :
    (∀ name ∈ sectionNames, ∃ found, pregMatch ext (sectionPattern name) file = .ok found ∧
      sectionText found = (plainSection name file).getD []) ∧
    compileTemplate ext file layout markdownCompile useMarkdown =
      .ok (plainObj markdownCompile useMarkdown ext layout file) := by
  constructor
  · intro name hname
    exact ⟨sectionOf name file, pregMatch_section hspec hname file, sectionText_eq name file⟩
  · rw [compileTemplate_eq hspec, compiledObj_eq]

/-- White space around a title is dropped, and a section without an end is empty. -/
theorem compileTemplate_sections_sample :
    compileTemplate sampleExternal (ascii "@section_title \n A b\t@endsection @section_content c")
        (placeholder "title") 0 false =
      .ok ⟨ascii "A b", [], [], [], [], ascii "A b"⟩ := by
  have hplain : plainObj 0 false sampleExternal (placeholder "title")
      (ascii "@section_title \n A b\t@endsection @section_content c") =
        ⟨ascii "A b", [], [], [], [], ascii "A b"⟩ := by
    decide +kernel
  rw [← hplain]
  exact (compileTemplate_takes_plain_sections 0 false sampleExternal_pcreSpec _ _).2

end Template

end Blogd
