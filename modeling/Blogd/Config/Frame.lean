import Blogd.Config.Written
import Mathlib.Data.List.Nodup

/-! # The frame of a rewrite

What a rewrite keeps of the old file and what it writes for the options of Redis does not depend on
the values of the blog. These lines are the frame, in which the lines of the blog have their
places. The old file is read in pieces of 1024 bytes, and each piece is a line from then on.
-/

namespace Blogd

/-! ## What is done for the options of the blog -/

/-- Strings without a NUL, and unsigned integers. -/
structure BlogdOptions.Valid (options : BlogdOptions) : Prop where
  contentDir : 0 ∉ options.contentDir
  publicDir : 0 ∉ options.publicDir
  reloadContentQuery : ∃ query, options.reloadContentQuery = some query ∧ 0 ∉ query
  perPage : options.perPage < 2 ^ 32
  markdownCompile : options.markdownCompile < 2 ^ 32

namespace BlogdOption

variable (options : BlogdOptions)

/-- The order of `rewriteConfig`. -/
def rewriteOrder : List BlogdOption :=
  [.contentDir, .publicDir, .reloadContentQuery, .perPage, .markdownCompile]

/-- What is written behind the name. The public directory is not the one of the server. -/
def argument : BlogdOption → Bytes
  | .contentDir => sdscatrepr options.contentDir
  | .publicDir => sdscatrepr options.contentDir
  | .reloadContentQuery => sdscatrepr (options.reloadContentQuery.getD [])
  | .perPage => rewriteConfigFormatMemory options.perPage
  | .markdownCompile => rewriteConfigFormatMemory options.markdownCompile

/-- Whether a line is written where there was none. -/
def differs : BlogdOption → Bool
  | .contentDir => options.contentDir ≠ ascii "contents"
  | .publicDir => options.contentDir ≠ ascii "public"
  | .reloadContentQuery => options.reloadContentQuery ≠ some (ascii "secret-reload")
  | .perPage => options.perPage ≠ 10
  | .markdownCompile => options.markdownCompile ≠ 0

def op (option : BlogdOption) : RewriteOp :=
  .line option.name (option.line (option.argument options)) (option.differs options)

/-- The place of an option is held by its name. -/
def place (option : BlogdOption) : RewriteOp :=
  .line option.name option.name (option.differs options)

/-- The value that is written. -/
def written : BlogdOption → OptionValue
  | .publicDir => .text (some options.contentDir)
  | option => options.get option

theorem mem_rewriteOrder (option : BlogdOption) : option ∈ rewriteOrder := by
  cases option <;> decide

end BlogdOption

theorem rewriteBlogdOptions_eq {options : BlogdOptions} (hvalid : options.Valid)
    (state : RewriteState) :
    rewriteBlogdOptions options state =
      (BlogdOption.rewriteOrder.map (·.op options)).foldl RewriteState.apply state := by
  obtain ⟨query, hquery, -⟩ := hvalid.reloadContentQuery
  simp [rewriteBlogdOptions, BlogdOption.rewriteOrder, BlogdOption.op, BlogdOption.argument,
    BlogdOption.differs, BlogdOption.line, BlogdOption.name, RewriteState.apply,
    rewriteConfigStringOption, rewriteConfigBytesOption, hquery, eq_comm]

/-- Each value is written so that it is read back. -/
theorem writes_argument {options : BlogdOptions} (hvalid : options.Valid) (option : BlogdOption) :
    ∃ value, Writes (option.argument options) value ∧ 0 ∉ value ∧
      option.parse value = option.written options := by
  have hnumber : ∀ n < 2 ^ 32, unsignedInt (memtoll (rewriteConfigFormatMemory n)) = n := by
    intro n hn
    rw [memtoll_formatMemory hn, unsignedInt]
    omega
  cases option with
  | contentDir => exact ⟨_, writes_sdscatrepr _, hvalid.contentDir, rfl⟩
  | publicDir => exact ⟨_, writes_sdscatrepr _, hvalid.contentDir, rfl⟩
  | reloadContentQuery =>
      obtain ⟨query, hquery, hnul⟩ := hvalid.reloadContentQuery
      refine ⟨query, ?_, hnul, ?_⟩
      · rw [BlogdOption.argument, hquery]
        exact writes_sdscatrepr query
      · simp [BlogdOption.parse, BlogdOption.written, BlogdOptions.get, hquery]
  | perPage =>
      have hwrites := writes_formatMemory options.perPage
      exact ⟨_, hwrites, hwrites.clean.nul,
        congrArg OptionValue.number (hnumber _ hvalid.perPage)⟩
  | markdownCompile =>
      have hwrites := writes_formatMemory options.markdownCompile
      exact ⟨_, hwrites, hwrites.clean.nul,
        congrArg OptionValue.number (hnumber _ hvalid.markdownCompile)⟩

/-! ## What is done for the options of Redis -/

/-- An option of Redis has another name, and its line is the name, a blank and a C string. What
the string says is open: that of `bind` or `slaveof` is not quoted. -/
structure RewriteOp.OfRedis (op : RewriteOp) : Prop where
  option_ne : ∀ option : BlogdOption, op.option ≠ option.name
  nul : ∀ line, op.text? = some line → 0 ∉ line
  name : ∀ line, op.text? = some line → ∃ args, line = op.option ++ 32 :: args

theorem BlogdOption.blank_not_mem_name (option : BlogdOption) : 32 ∉ option.name := by
  cases option <;> decide

/-- A line of Redis holds no place of the blog. -/
theorem RewriteOp.OfRedis.text_ne {op : RewriteOp} (hop : op.OfRedis) {line : Bytes}
    (hline : op.text? = some line) (option : BlogdOption) : line ≠ option.name := by
  obtain ⟨args, rfl⟩ := hop.name line hline
  intro heq
  refine option.blank_not_mem_name ?_
  rw [← heq]
  exact List.mem_append_right _ List.mem_cons_self

/-! ## The frame -/

/-- The lines that are kept of the old file and those of Redis, with the places of the blog. -/
def frame (first last : List RewriteOp) (options : BlogdOptions) (old : Bytes) : List Bytes :=
  ((first ++ BlogdOption.rewriteOrder.map (·.place options) ++ last).foldl Draft.apply
    (oldDraft old)).lines

/-- A line that holds the place of an option. -/
def isPlace (line : Bytes) : Bool := BlogdOption.all.any (·.name = line)

/-- The line that is written to a place. -/
def fillPlace (options : BlogdOptions) (line : Bytes) : Bytes :=
  match BlogdOption.all.find? (·.name = line) with
  | some option => option.line (option.argument options)
  | none => line

section Places

variable {options : BlogdOptions}

theorem isPlace_iff {line : Bytes} : isPlace line = true ↔ ∃ option : BlogdOption,
    line = option.name := by
  rw [isPlace, List.any_eq_true]
  constructor
  · rintro ⟨option, -, hname⟩
    exact ⟨option, (of_decide_eq_true hname).symm⟩
  · rintro ⟨option, rfl⟩
    exact ⟨option, by cases option <;> decide, decide_eq_true rfl⟩

theorem fillPlace_name (option : BlogdOption) :
    fillPlace options option.name = option.line (option.argument options) := by
  cases option <;> rfl

theorem fillPlace_of_not {line : Bytes} (hline : isPlace line = false) :
    fillPlace options line = line := by
  have hnone : BlogdOption.all.find? (·.name = line) = none := by
    rw [List.find?_eq_none]
    exact List.any_eq_false.mp hline
  rw [fillPlace, hnone]

/-- An old line that looks like a place belongs to the option. -/
theorem owner_of_isPlace {old : Bytes} {slot : Slot Bytes Bytes} (hslot : slot ∈ oldSlots old)
    {option : BlogdOption} (hvalue : slot.value = option.name) :
    slot.owner = some option.name := by
  obtain ⟨line, -, rfl⟩ := List.mem_map.mp hslot
  rw [oldSlot] at hvalue ⊢
  dsimp only at hvalue ⊢
  split at hvalue
  next =>
    refine absurd ?_ option.blank_not_mem_name
    rw [← hvalue]
    exact List.mem_append_left _ (by decide)
  next =>
    rw [hvalue]
    cases option <;> decide

end Places

section Frame

variable {first last : List RewriteOp} (options : BlogdOptions) (old : Bytes)

/-- All that is done to the old file. -/
def rewriteDraft (first last : List RewriteOp) (options : BlogdOptions) (old : Bytes) : Draft :=
  (first ++ BlogdOption.rewriteOrder.map (·.op options) ++ last).foldl Draft.apply (oldDraft old)

/-- The line of a rewrite for that of its frame. Old lines of the blog are made empty. -/
def Fills (options : BlogdOptions) (owner : Option Bytes) (line filled : Bytes) : Prop :=
  filled = fillPlace options line ∨ ∃ option : BlogdOption, owner = some option.name

theorem RewriteOp.OfRedis.alike {op : RewriteOp} (hop : op.OfRedis) :
    op.Alike (Fills options none) op := by
  cases op with
  | mark option => exact .mark option
  | line option text force =>
      have hplace : isPlace text = false := by
        refine eq_false_of_ne_true fun hplace => ?_
        obtain ⟨other, hother⟩ := isPlace_iff.mp hplace
        exact hop.text_ne rfl other hother
      exact .line option (.inl (fillPlace_of_not hplace).symm) force

theorem alike_oldDraft : Draft.Alike (Fills options) (oldDraft old) (oldDraft old) := by
  refine ⟨List.forall₂_same.mpr fun slot hslot => ⟨rfl, ?_⟩, rfl, rfl⟩
  cases hplace : isPlace slot.value with
  | false => exact .inl (fillPlace_of_not hplace).symm
  | true =>
      obtain ⟨option, hoption⟩ := isPlace_iff.mp hplace
      exact .inr ⟨option, owner_of_isPlace hslot hoption⟩

theorem name_mem_rewritten (option : BlogdOption) :
    option.name ∈ ((first ++ BlogdOption.rewriteOrder.map (·.place options) ++ last).foldl
      Draft.apply (oldDraft old)).rewritten := by
  refine Draft.mem_rewritten_foldl.mpr (.inl ⟨option.place options, ?_, rfl⟩)
  exact List.mem_append_left _ (List.mem_append_right _
    (List.mem_map_of_mem option.mem_rewriteOrder))

variable (hredis : ∀ op ∈ first ++ last, op.OfRedis)

include hredis

/-- A rewrite fills the places of its frame. -/
theorem lines_rewriteDraft :
    (rewriteDraft first last options old).lines =
      (frame first last options old).map (fillPlace options) := by
  have hops : (first ++ BlogdOption.rewriteOrder.map (·.place options) ++ last).Forall₂
      (RewriteOp.Alike (Fills options none))
      (first ++ BlogdOption.rewriteOrder.map (·.op options) ++ last) := by
    refine List.rel_append (List.rel_append ?_ ?_) ?_
    · exact List.forall₂_same.mpr fun op hop =>
        (hredis op (List.mem_append_left _ hop)).alike options
    · rw [List.forall₂_map_left_iff, List.forall₂_map_right_iff]
      exact List.forall₂_same.mpr fun option _ =>
        .line option.name (.inl (fillPlace_name option).symm) (option.differs options)
    · exact List.forall₂_same.mpr fun op hop =>
        (hredis op (List.mem_append_right _ hop)).alike options
  refine ((alike_oldDraft options old).foldl (.inl rfl) hops).lines rfl ?_
  rintro owner value value' howner (hvalue | ⟨option, rfl⟩)
  · exact hvalue
  · rw [Option.any_some, decide_eq_true (name_mem_rewritten options old option)] at howner
    cases howner

/-- No line of a rewrite ends early. -/
theorem nul_not_mem_rewriteDraft (hvalid : options.Valid) :
    ∀ line ∈ (rewriteDraft first last options old).lines, 0 ∉ line := by
  have hops : ∀ op ∈ first ++ BlogdOption.rewriteOrder.map (·.op options) ++ last,
      ∀ line, op.text? = some line → 0 ∉ line := by
    intro op hop line hline
    rw [List.append_assoc, List.mem_append, List.mem_append] at hop
    rcases hop with hfirst | hblogd | hlast
    · exact (hredis op (List.mem_append_left _ hfirst)).nul line hline
    · obtain ⟨option, -, rfl⟩ := List.mem_map.mp hblogd
      obtain ⟨value, hwrites, -, -⟩ := writes_argument hvalid option
      cases hline
      exact (BlogdOption.clean_line hwrites).nul
    · exact (hredis op (List.mem_append_right _ hlast)).nul line hline
  have hslots := @Draft.forall_foldl (oldDraft old) (fun slot => 0 ∉ slot.value) _
    (fun slot hslot => (clean_oldSlots old slot hslot).nul) clean_rewriteSignature.nul hops
  intro line hline
  obtain ⟨slot, hslot, rfl⟩ := List.mem_map.mp hline
  split
  next => exact List.not_mem_nil
  next => exact hslots slot hslot

end Frame

/-! ## The place of an option -/

/-- The old file has a line of the option. -/
def hasLine (old : Bytes) (option : BlogdOption) : Bool :=
  (oldLines old).any fun line => directiveName line = some option.name

theorem positions_oldSlots_eq_nil {old : Bytes} {option : BlogdOption} :
    Slot.positions option.name (oldSlots old) = [] ↔ hasLine old option = false := by
  rw [Slot.positions_eq_nil, hasLine, List.any_eq_false, oldSlots, List.forall_mem_map]
  simp only [oldSlot, decide_eq_true_eq, ne_eq]

section Place

variable {first last : List RewriteOp} (hredis : ∀ op ∈ first ++ last, op.OfRedis)
  (options : BlogdOptions) (old : Bytes) (option : BlogdOption)

include hredis

/-- Of all that is done, one operation is for the option. -/
theorem split_places : ∃ before behind,
    first ++ BlogdOption.rewriteOrder.map (·.place options) ++ last =
        before ++ option.place options :: behind ∧
      ∀ op ∈ before ++ behind, op.option ≠ option.name ∧
        ∀ line, op.text? = some line → line ≠ option.name := by
  obtain ⟨before, behind, horder⟩ := List.append_of_mem option.mem_rewriteOrder
  have hnodup : BlogdOption.rewriteOrder.Nodup := by decide
  rw [horder, List.nodup_middle, List.nodup_cons] at hnodup
  refine ⟨first ++ before.map (·.place options), behind.map (·.place options) ++ last, ?_, ?_⟩
  · rw [horder]
    simp
  · intro op hop
    have hcases : op ∈ first ++ last ∨ ∃ other ∈ before ++ behind, other.place options = op := by
      simp only [List.mem_append, List.mem_map] at hop ⊢
      grind
    rcases hcases with hop | ⟨other, hother, rfl⟩
    · exact ⟨(hredis op hop).option_ne option, fun line hline => (hredis op hop).text_ne hline _⟩
    · have hne : other.name ≠ option.name := fun hname =>
        hnodup.1 (BlogdOption.name_inj hname ▸ hother)
      refine ⟨hne, fun line hline => ?_⟩
      cases hline
      exact hne

/-- An option has a place if the old file has a line for it, or if it differs from its default. -/
theorem name_mem_frame :
    option.name ∈ frame first last options old ↔
      hasLine old option = true ∨ option.differs options = true := by
  obtain ⟨before, behind, hops, hothers⟩ := split_places hredis options option
  have hbefore := fun op hop => hothers op (List.mem_append_left _ hop)
  have hbehind := fun op hop => hothers op (List.mem_append_right _ hop)
  have hpositions : Slot.positions option.name (before.foldl Draft.apply (oldDraft old)).slots =
      Slot.positions option.name (oldSlots old) :=
    Draft.positions_foldl fun op hop => (hbefore op hop).1
  rw [frame, hops, List.foldl_append, List.foldl_cons]
  generalize hdraft : before.foldl Draft.apply (oldDraft old) = draft at hpositions
  constructor
  · intro hmem
    by_contra hnot
    simp only [not_or, Bool.not_eq_true] at hnot
    obtain ⟨hline, hdiffers⟩ := hnot
    -- then nothing is written for the option, and no other line is its name
    have hnone := positions_oldSlots_eq_nil.mpr hline
    have hold : ∀ slot ∈ draft.slots, slot.value ≠ option.name := by
      rw [← hdraft]
      refine Draft.forall_foldl ?_ (by cases option <;> decide) fun op hop => (hbefore op hop).2
      intro slot hslot hvalue
      exact Slot.positions_eq_nil.mp hnone slot hslot (owner_of_isPlace hslot hvalue)
    have hslots : (draft.apply (option.place options)).slots = draft.slots := by
      rw [BlogdOption.place, Draft.apply, Draft.write, Draft.mark_slots, hpositions, if_pos hnone,
        hdiffers, if_neg Bool.false_ne_true, Draft.mark_slots]
    have hall := @Draft.forall_foldl (draft.apply (option.place options))
      (fun slot => slot.value ≠ option.name) behind (by rwa [hslots])
      (by cases option <;> decide) fun op hop => (hbehind op hop).2
    obtain ⟨slot, hslot, hvalue⟩ := List.mem_map.mp hmem
    split at hvalue
    next => exact absurd hvalue (by cases option <;> decide)
    next => exact hall slot hslot hvalue
  · intro hwritten
    have hplaced : ⟨none, option.name⟩ ∈ (draft.apply (option.place options)).slots := by
      refine Draft.mem_write option.name (hwritten.imp_left fun hline hnil => ?_)
      rw [hpositions, positions_oldSlots_eq_nil, hline] at hnil
      cases hnil
    have hstays := Draft.mem_foldl hplaced fun op (_ : op ∈ behind) howner => by cases howner
    exact Draft.mem_lines hstays rfl

end Place

/-! ## Lines that are kept -/

/-- A line of the old file that can be parsed, and whose directive nothing is written for. -/
structure IsKept (first last : List RewriteOp) (old line : Bytes) : Prop where
  mem : line ∈ oldLines old
  parsed : isComment line = false → sdssplitargs line ≠ none
  redis : ∀ op ∈ first ++ last, directiveName line ≠ some op.option
  blogd : ∀ option : BlogdOption, directiveName line ≠ some option.name

/-- It is a line of the frame. -/
theorem IsKept.mem_frame {first last : List RewriteOp} {old line : Bytes}
    (hkept : IsKept first last old line) (options : BlogdOptions) :
    line ∈ frame first last options old := by
  have hslot : oldSlot line = ⟨directiveName line, line⟩ := by
    rw [oldSlot, if_neg]
    rintro ⟨hcomment, hnone⟩
    exact hkept.parsed (by simpa using hcomment) hnone
  have hmem : (⟨directiveName line, line⟩ : Slot Bytes Bytes) ∈ (oldDraft old).slots := by
    rw [← hslot]
    exact List.mem_map_of_mem hkept.mem
  have hothers : ∀ op ∈ first ++ BlogdOption.rewriteOrder.map (·.place options) ++ last,
      directiveName line ≠ some op.option := by
    intro op hop
    rw [List.append_assoc, List.mem_append, List.mem_append] at hop
    rcases hop with hfirst | hblogd | hlast
    · exact hkept.redis op (List.mem_append_left _ hfirst)
    · obtain ⟨option, -, rfl⟩ := List.mem_map.mp hblogd
      exact hkept.blogd option
    · exact hkept.redis op (List.mem_append_right _ hlast)
  refine Draft.mem_lines (Draft.mem_foldl hmem hothers) ?_
  rw [Option.any_eq_false]
  intro name hname
  rw [decide_eq_false_iff_not, Draft.mem_rewritten_foldl]
  rintro (⟨op, hop, rfl⟩ | hnil)
  · exact hothers op hop hname
  · cases hnil

end Blogd
