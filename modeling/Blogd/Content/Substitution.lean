import Blogd.Foundation.Substitution
import Blogd.Content.Sections

/-! # Placeholders

A template is expanded by one replacement after the other, each in the result of the one before.
Text that was put in for one placeholder is searched for the next ones. The result is the one of
putting all values in at once exactly as long as every placeholder, when its turn comes, is met
only where the template has it.
-/

namespace Blogd

/-- Placeholders and their values, in the order in which they are replaced. -/
abbrev Table := List (Bytes × Bytes)

/-- The value of a placeholder. Other text stands for itself. -/
def Table.value (table : Table) (p : Bytes) : Bytes :=
  ((table.find? fun e => e.1 = p).map Prod.snd).getD p

/-- All placeholders of a text replaced at once: what is put in is not looked at again. -/
def simultaneous (table : Table) (text : Bytes) : Bytes :=
  fill table.value (scan (table.map Prod.fst) text.length text)

/-- One replacement after the other. -/
def replaceChain (table : Table) (text : Bytes) : Bytes :=
  table.foldl (fun text e => replaced e.1 e.2 text) text

/-- The number of occurrences that a replacement finds. -/
def occurrences (p text : Bytes) : Nat := countOccurrences p text.length text

/-- Every placeholder, when its turn comes, occurs as often as in the template. -/
def Undisturbed (template : Bytes) : Table → Bytes → Prop
  | [], _ => True
  | e :: rest, text =>
      occurrences e.1 text = occurrences e.1 template ∧
        Undisturbed template rest (replaced e.1 e.2 text)

instance decidableUndisturbed (template : Bytes) :
    (table : Table) → (text : Bytes) → Decidable (Undisturbed template table text)
  | [], _ => .isTrue trivial
  | e :: rest, text =>
      have := decidableUndisturbed template rest (replaced e.1 e.2 text)
      inferInstanceAs (Decidable (_ ∧ _))

/-! ## One replacement after the other -/

theorem Table.value_of_notMem {table : Table} {p : Bytes} (hp : p ∉ table.map Prod.fst) :
    table.value p = p := by
  have hnone : table.find? (fun e => e.1 = p) = none := by
    rw [List.find?_eq_none]
    intro e he heq
    exact hp (List.mem_map.mpr ⟨e, he, by simpa using heq⟩)
  rw [value, hnone]
  rfl

/-- A placeholder that is replaced after the others. -/
theorem Table.value_append {table : Table} {e : Bytes × Bytes} (he : e.1 ∉ table.map Prod.fst)
    (q : Bytes) : Table.value (table ++ [e]) q = if q = e.1 then e.2 else table.value q := by
  unfold value
  rw [List.find?_append]
  split
  next hq =>
    subst hq
    have hnone : table.find? (fun e' => e'.1 = e.1) = none := by
      rw [List.find?_eq_none]
      intro e' he' heq
      exact he (List.mem_map.mpr ⟨e', he', by simpa using heq⟩)
    rw [hnone]
    simp
  next hq =>
    have hnone : [e].find? (fun e => e.1 = q) = none := by
      simpa using fun heq => hq heq.symm
    rw [hnone, Option.or_none]

theorem occurrences_eq {p text : Bytes} {pieces : List Bytes} (hp : p ≠ [])
    (hcut : CutInto p text pieces) : occurrences p text = pieces.length - 1 :=
  countOccurrences_eq hp hcut (Nat.le_refl _)

section Chain

variable {template : Bytes}

/-- A replacement that finds its placeholder as often as the template has it puts the value in at
those places. -/
theorem replaced_fill {table : Table} {patterns : List Bytes} (hsep : Separate patterns)
    {e : Bytes × Bytes} (hmem : e.1 ∈ patterns) (he : e.1 ∉ table.map Prod.fst)
    (hcount : occurrences e.1 (fill table.value (scan patterns template.length template)) =
      occurrences e.1 template) :
    replaced e.1 e.2 (fill table.value (scan patterns template.length template)) =
      fill (Table.value (table ++ [e])) (scan patterns template.length template) := by
  have hne := hsep.ne_nil hmem
  obtain ⟨ts, hts⟩ := CutInto.exists_of_ne_nil hne template
  obtain ⟨zs, hzs⟩ := CutInto.exists_of_ne_nil hne
    (fill table.value (scan patterns template.length template))
  rw [occurrences_eq hne hts, occurrences_eq hne hzs,
    length_cut_scan hsep hmem (Nat.le_refl _) hts] at hcount
  have hpos := List.length_pos_iff.mpr hzs.ne_nil
  obtain ⟨-, hfill⟩ := cut_fill (v := e.2) (hsep.two_le _ hmem) (Table.value_of_notMem he)
    (hsep.unbordered _ hmem) hzs
  rw [replaced_eq_intercalate hne hzs, hfill (by omega)]
  apply fill_congr
  intro q _
  exact (Table.value_append he q).symm

/-- From a template in which some of the placeholders have their values already. -/
theorem replaceChain_fill {patterns : List Bytes} (hsep : Separate patterns) (table rest : Table)
    (hpatterns : patterns = (table ++ rest).map Prod.fst) (hnodup : patterns.Nodup)
    (hrest : Undisturbed template rest
      (fill table.value (scan patterns template.length template))) :
    replaceChain rest (fill table.value (scan patterns template.length template)) =
      fill (Table.value (table ++ rest)) (scan patterns template.length template) := by
  induction rest generalizing table with
  | nil => rw [List.append_nil, replaceChain, List.foldl_nil]
  | cons e rest ih =>
      obtain ⟨hcount, hnext⟩ := hrest
      have hmem : e.1 ∈ patterns := by
        rw [hpatterns, List.map_append, List.map_cons]
        exact List.mem_append_right _ List.mem_cons_self
      have he : e.1 ∉ table.map Prod.fst := by
        rw [hpatterns, List.map_append, List.map_cons] at hnodup
        intro hin
        exact (List.nodup_append.mp hnodup).2.2 _ hin _ List.mem_cons_self rfl
      have hstep := replaced_fill hsep hmem he hcount
      rw [hstep] at hnext
      have happend : table ++ e :: rest = (table ++ [e]) ++ rest := by
        rw [List.append_assoc, List.singleton_append]
      have hlater := ih (table ++ [e]) (by rw [hpatterns, happend]) hnext
      rw [replaceChain, List.foldl_cons, hstep, happend]
      exact hlater

/-- Undisturbed, the chain of replacements puts all values in at once. -/
theorem replaceChain_eq_simultaneous {table : Table} (hsep : Separate (table.map Prod.fst))
    (hnodup : (table.map Prod.fst).Nodup) (htable : Undisturbed template table template) :
    replaceChain table template = simultaneous table template := by
  have hempty : ∀ p : Bytes, Table.value [] p = p := fun p => rfl
  have hstart : fill (Table.value []) (scan (table.map Prod.fst) template.length template) =
      template := by
    calc
      _ = fill id (scan (table.map Prod.fst) template.length template) :=
        fill_congr fun p _ => hempty p
      _ = template := fill_scan hsep (Nat.le_refl _)
  have hchain := replaceChain_fill hsep [] table rfl hnodup (by rw [hstart]; exact htable)
  rw [hstart] at hchain
  exact hchain

end Chain

/-! ## The placeholders of the program -/

instance (p : Bytes) : Decidable (Unbordered p) :=
  inferInstanceAs (Decidable (∀ i < p.length, 0 < i → ¬ p.drop i <+: p))

instance (p q : Bytes) : Decidable (Apart p q) :=
  inferInstanceAs (Decidable (∀ i < p.length, ¬ p.drop i <+: q ∧ ¬ q <+: p.drop i))

/-- What is put into the layout for a text. -/
def layoutTable (ext : External) (markdownCompile : Int) (useMarkdown : Bool) (file : Bytes) :
    Table :=
  [(placeholder "title", sectionText (sectionOf "title" file)),
    (placeholder "meta_description", sectionText (sectionOf "meta_description" file)),
    (placeholder "content",
      contentText ext markdownCompile useMarkdown (sectionOf "content" file))]

/-- What is put into the card of a post. -/
def cardTable (fileName : Bytes) (obj : CompiledObj) : Table :=
  [(placeholder "title", obj.title), (placeholder "thumbnail", obj.thumbnail),
    (placeholder "description", obj.desc), (placeholder "published_at", obj.publishedAt),
    (placeholder "link", ascii "/" ++ fileName)]

/-- The placeholders of the layout do not overlap. -/
theorem layoutTable_separate (ext : External) (markdownCompile : Int) (useMarkdown : Bool)
    (file : Bytes) :
    Separate ((layoutTable ext markdownCompile useMarkdown file).map Prod.fst) ∧
      ((layoutTable ext markdownCompile useMarkdown file).map Prod.fst).Nodup := by
  change Separate [placeholder "title", placeholder "meta_description", placeholder "content"] ∧
    [placeholder "title", placeholder "meta_description", placeholder "content"].Nodup
  exact ⟨⟨by decide +kernel, by decide +kernel, by decide +kernel⟩, by decide +kernel⟩

theorem cardTable_separate (fileName : Bytes) (obj : CompiledObj) :
    Separate ((cardTable fileName obj).map Prod.fst) ∧
      ((cardTable fileName obj).map Prod.fst).Nodup := by
  change Separate [placeholder "title", placeholder "thumbnail", placeholder "description",
      placeholder "published_at", placeholder "link"] ∧
    [placeholder "title", placeholder "thumbnail", placeholder "description",
      placeholder "published_at", placeholder "link"].Nodup
  exact ⟨⟨by decide +kernel, by decide +kernel, by decide +kernel⟩, by decide +kernel⟩

/-- The sections as they are found without a pattern. -/
theorem layoutTable_eq (ext : External) (markdownCompile : Int) (useMarkdown : Bool)
    (file : Bytes) :
    layoutTable ext markdownCompile useMarkdown file =
      [(placeholder "title", (plainSection "title" file).getD []),
        (placeholder "meta_description", (plainSection "meta_description" file).getD []),
        (placeholder "content", plainContent markdownCompile useMarkdown ext file)] := by
  rw [layoutTable, sectionText_eq, sectionText_eq, contentText_eq]

/-- A layout and a card in which no value brings in a placeholder that is still to be replaced
have all their values put in at once. -/
theorem templates_substitute_simultaneously {ext : External} (hspec : ext.PcreSpec)
    {markdownCompile : Int} {useMarkdown : Bool} {file layout postContent fileName : Bytes}
    {obj : CompiledObj}
    (hlayout : Undisturbed layout (layoutTable ext markdownCompile useMarkdown file) layout)
    (hcard : Undisturbed postContent (cardTable fileName obj) postContent) :
    (∃ compiled, compileTemplate ext file layout markdownCompile useMarkdown = .ok compiled ∧
      compiled.compiledContent =
        simultaneous (layoutTable ext markdownCompile useMarkdown file) layout) ∧
    postCard postContent fileName obj =
      .ok (simultaneous (cardTable fileName obj) postContent) := by
  constructor
  · refine ⟨_, compileTemplate_eq hspec file layout markdownCompile useMarkdown, ?_⟩
    obtain ⟨hsep, hnodup⟩ := layoutTable_separate ext markdownCompile useMarkdown file
    exact replaceChain_eq_simultaneous hsep hnodup hlayout
  · obtain ⟨hsep, hnodup⟩ := cardTable_separate fileName obj
    rw [← replaceChain_eq_simultaneous hsep hnodup hcard]
    simp only [postCard, strReplace_eq, ok_bind, replaceChain, cardTable, List.foldl_cons,
      List.foldl_nil]

/-- A title and a content that hold no placeholder. -/
theorem substitute_sample :
    (∃ compiled, compileTemplate sampleExternal
        (ascii "@section_title A @endsection @section_content B @endsection")
        (placeholder "title" ++ placeholder "content") 0 false = .ok compiled ∧
      compiled.compiledContent = ascii "AB") ∧
    postCard (placeholder "link") (ascii "a") ⟨[], [], [], [], [], []⟩ = .ok (ascii "/a") := by
  have htable : layoutTable sampleExternal 0 false
      (ascii "@section_title A @endsection @section_content B @endsection") =
        [(placeholder "title", ascii "A"), (placeholder "meta_description", []),
          (placeholder "content", ascii "B")] := by
    rw [layoutTable_eq]
    decide +kernel
  have hsample := @templates_substitute_simultaneously sampleExternal sampleExternal_pcreSpec 0 false
    (ascii "@section_title A @endsection @section_content B @endsection")
    (placeholder "title" ++ placeholder "content") (placeholder "link") (ascii "a")
    ⟨[], [], [], [], [], []⟩ (by rw [htable]; decide +kernel) (by decide +kernel)
  have hlayout : simultaneous [(placeholder "title", ascii "A"),
      (placeholder "meta_description", []), (placeholder "content", ascii "B")]
        (placeholder "title" ++ placeholder "content") = ascii "AB" := by
    decide +kernel
  have hcard : simultaneous (cardTable (ascii "a") ⟨[], [], [], [], [], []⟩)
      (placeholder "link") = ascii "/a" := by
    decide +kernel
  rw [htable, hlayout, hcard] at hsample
  exact hsample

/-- A title that is the content placeholder is replaced by the content. -/
theorem title_is_expanded_again :
    ∃ compiled, compileTemplate sampleExternal
        (ascii "@section_title \x7b\x7b content \x7d\x7d @endsection @section_content B @endsection")
        (placeholder "title") 0 false = .ok compiled ∧
      compiled.compiledContent = ascii "B" ∧
      simultaneous (layoutTable sampleExternal 0 false
        (ascii "@section_title \x7b\x7b content \x7d\x7d @endsection @section_content B @endsection"))
        (placeholder "title") = placeholder "content" := by
  refine ⟨_, compileTemplate_eq sampleExternal_pcreSpec _ _ _ _, ?_, ?_⟩
  · rw [compiledObj_eq]
    decide +kernel
  · rw [layoutTable_eq]
    decide +kernel

end Blogd
