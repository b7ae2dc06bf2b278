import Blogd.Config.Draft

/-! # The written text

The lines of a rewrite contain no NUL, so that they are the lines of the text that is written. A
line of Redis with a newline in it is several of them. A line that is written for an option of the
blog sets this option, and its argument is the value again.
-/

namespace Blogd

/-! ## Clean lines -/

/-- A line that neither ends early nor is cut in two. -/
structure Clean (line : Bytes) : Prop where
  newline : LF ∉ line
  nul : 0 ∉ line

/-- A buffer of `fgets` can only end with a newline. -/
theorem newline_not_mem_dropLast_fgets (n : Nat) (data : Bytes) :
    LF ∉ (fgets n data).1.dropLast := by
  induction n generalizing data with
  | zero => simp [fgets]
  | succ n ih =>
      cases data with
      | nil => simp [fgets]
      | cons c rest =>
          by_cases hc : c = LF
          · simp [fgets, hc]
          · have hrest := ih rest
            simp only [fgets, hc, if_false]
            cases hread : (fgets n rest).1 with
            | nil => simp
            | cons d more =>
                rw [hread] at hrest
                rw [List.dropLast_cons_of_ne_nil (List.cons_ne_nil d more), List.mem_cons, not_or]
                exact ⟨Ne.symm hc, hrest⟩

theorem mem_dropLast_of_isInfix {c : UInt8} {part whole : Bytes} (hpart : part <:+: whole)
    (hc : c ∈ part.dropLast) : c ∈ whole.dropLast := by
  obtain ⟨before, behind, rfl⟩ := hpart
  have hne : part ≠ [] := by
    rintro rfl
    cases hc
  have hlast : [part.getLast hne] ++ behind ≠ [] := List.cons_ne_nil _ _
  have hsplit : before ++ part ++ behind =
      before ++ part.dropLast ++ ([part.getLast hne] ++ behind) := by
    rw [← List.append_assoc, List.append_assoc before part.dropLast,
      List.dropLast_append_getLast]
  rw [hsplit, List.dropLast_append_of_ne_nil hlast]
  exact List.mem_append_left _ (List.mem_append_right _ hc)

theorem sdstrim_isInfix (s cset : Bytes) : sdstrim s cset <:+: s :=
  (List.rdropWhile_prefix _ _).isInfix.trans (List.dropWhile_suffix _).isInfix

/-- A newline at the end is trimmed away. -/
theorem newline_not_mem_sdstrim {s : Bytes} (hs : LF ∉ s.dropLast) :
    LF ∉ sdstrim s lineBlanks := by
  intro hmem
  have hne : sdstrim s lineBlanks ≠ [] := List.ne_nil_of_mem hmem
  have hlast : LF ≠ (sdstrim s lineBlanks).getLast hne := by
    intro heq
    have hblank := List.rdropWhile_last_not (inSet lineBlanks)
      (s.dropWhile (inSet lineBlanks)) hne
    exact hblank ((congrArg (inSet lineBlanks) heq).symm.trans (by decide))
  exact hs (mem_dropLast_of_isInfix (sdstrim_isInfix s lineBlanks)
    (List.mem_dropLast_of_mem_of_ne_getLast hmem hlast))

theorem mem_fgetsAll {fuel : Nat} {data buf : Bytes} (hbuf : buf ∈ fgetsAll fuel data) :
    ∃ rest, buf = (fgets 1024 rest).1 := by
  induction fuel generalizing data with
  | zero => cases hbuf
  | succ fuel ih =>
      rw [fgetsAll] at hbuf
      split at hbuf
      next => cases hbuf
      next =>
        rcases List.mem_cons.mp hbuf with rfl | hrest
        · exact ⟨data, rfl⟩
        · exact ih hrest

theorem clean_of_mem_oldLines {old line : Bytes} (hline : line ∈ oldLines old) : Clean line := by
  obtain ⟨buf, hbuf, rfl⟩ := List.mem_map.mp hline
  obtain ⟨rest, rfl⟩ := mem_fgetsAll hbuf
  have hend := newline_not_mem_dropLast_fgets 1024 rest
  constructor
  · refine newline_not_mem_sdstrim fun hmem => hend ?_
    exact mem_dropLast_of_isInfix (List.takeWhile_prefix _).isInfix hmem
  · exact fun hmem => nul_not_mem_cstr _ ((sdstrim_isInfix _ _).subset hmem)

theorem Clean.append {first second : Bytes} (hfirst : Clean first) (hsecond : Clean second) :
    Clean (first ++ second) where
  newline := by
    rw [List.mem_append, not_or]
    exact ⟨hfirst.newline, hsecond.newline⟩
  nul := by
    rw [List.mem_append, not_or]
    exact ⟨hfirst.nul, hsecond.nul⟩

theorem clean_rewriteSignature : Clean rewriteSignature := ⟨by decide, by decide⟩

theorem clean_oldSlots (old : Bytes) : ∀ slot ∈ oldSlots old, Clean slot.value := by
  intro slot hslot
  obtain ⟨line, hline, rfl⟩ := List.mem_map.mp hslot
  have hclean := clean_of_mem_oldLines hline
  have hmark : Clean (ascii "# ??? ") := ⟨by decide, by decide⟩
  rw [oldSlot]
  split
  next => exact hmark.append hclean
  next => exact hclean

/-! ## Lines of the text -/

/-- The lines of a text into which others are written. -/
def textLines (lines : List Bytes) : List Bytes := lines.flatMap (·.splitOn LF)

theorem nul_not_mem_contentFromLines {lines : List Bytes} (hlines : ∀ line ∈ lines, 0 ∉ line)
    (wasEmpty : Bool) : 0 ∉ contentFromLines wasEmpty lines := by
  induction lines generalizing wasEmpty with
  | nil => simp [contentFromLines]
  | cons line lines ih =>
      have hrest := ih fun other hother => hlines other (List.mem_cons_of_mem _ hother)
      have hline := hlines line List.mem_cons_self
      have hnewline : ∀ wasEmpty, 0 ∉ LF :: contentFromLines wasEmpty lines := by
        intro wasEmpty
        rw [List.mem_cons, not_or]
        exact ⟨by decide, hrest wasEmpty⟩
      rw [contentFromLines]
      split
      next =>
        split
        next => exact hrest wasEmpty
        next => exact hnewline true
      next =>
        rw [List.mem_append, not_or]
        exact ⟨hline, hnewline false⟩

/-- The lines of the text are those of the lines that were written, except for empty ones. -/
theorem filter_splitOn_content (lines : List Bytes) (wasEmpty : Bool) :
    ((contentFromLines wasEmpty lines).splitOn LF).filter (· ≠ []) =
      (textLines lines).filter (· ≠ []) := by
  induction lines generalizing wasEmpty with
  | nil => simp [contentFromLines, textLines]
  | cons line lines ih =>
      have hsplit : ∀ wasEmpty, ((line ++ LF :: contentFromLines wasEmpty lines).splitOn LF).filter
          (· ≠ []) = (textLines (line :: lines)).filter (· ≠ []) := by
        intro wasEmpty
        rw [List.splitOn_append_cons_self, List.filter_append, ih, ← List.filter_append]
        rfl
      rw [contentFromLines]
      split
      next hempty =>
        subst hempty
        split
        next => exact (ih wasEmpty).trans (by simp [textLines])
        next => exact hsplit true
      next => exact hsplit false

theorem filter_splitLines_content {lines : List Bytes} (hlines : ∀ line ∈ lines, 0 ∉ line) :
    (splitLines (cstr (contentFromLines false lines))).filter (· ≠ []) =
      (textLines lines).filter (· ≠ []) := by
  rw [cstr_eq_self (nul_not_mem_contentFromLines hlines false),
    ← filter_splitOn_content lines false, splitLines]
  split
  next hempty => simp [hempty]
  next => rfl

theorem lineSettings_nil (files : Bytes → Option Bytes) (depth : Nat) :
    lineSettings files depth [] = [] := rfl

theorem flatMap_filter_ne_nil {β : Type} {contents : Bytes → List β} (hempty : contents [] = [])
    (lines : List Bytes) : (lines.filter (· ≠ [])).flatMap contents = lines.flatMap contents := by
  induction lines with
  | nil => rfl
  | cons line lines ih =>
      by_cases hline : line = []
      · rw [List.filter_cons_of_neg (by simp [hline]), List.flatMap_cons, hline, hempty, ih]
        rfl
      · rw [List.filter_cons_of_pos (by simp [hline]), List.flatMap_cons, List.flatMap_cons, ih]

/-! ## Arguments of the options -/

/-- A text that stands for a value behind the name of an option. -/
structure Writes (text value : Bytes) : Prop where
  clean : Clean text
  first : closes text = false
  last : ∃ c, text.getLast? = some c ∧ inSet lineBlanks c = false
  token : inToken [] text = some (value, [])

theorem clean_reprByte (c : UInt8) : Clean (reprByte c) := by
  by_cases hquoted : c = 92 ∨ c = 34
  · rcases hquoted with rfl | rfl <;> exact ⟨by decide, by decide⟩
  by_cases hnamed : c = 10 ∨ c = 13 ∨ c = 9 ∨ c = 7 ∨ c = 8
  · rcases hnamed with rfl | rfl | rfl | rfl | rfl <;> exact ⟨by decide, by decide⟩
  simp only [not_or] at hquoted hnamed
  by_cases hprint : isprint c = true
  · have hrepr : reprByte c = [c] := by simp [reprByte, hquoted, hnamed, hprint]
    have hne : ∀ d, isprint d = false → d ∉ [c] := by
      intro d hd hmem
      rw [List.mem_singleton.mp hmem, hprint] at hd
      cases hd
    rw [hrepr]
    exact ⟨hne LF (by decide), hne 0 (by decide)⟩
  · have hhex : ∀ d < 16, LF ≠ hexByte d ∧ 0 ≠ hexByte d := by decide
    have hhigh := hhex (c.toNat / 16) (by have hc := c.toNat_lt; omega)
    have hlow := hhex (c.toNat % 16) (Nat.mod_lt _ (by decide))
    have hrepr : reprByte c = [92, 120, hexByte (c.toNat / 16), hexByte (c.toNat % 16)] := by
      simp [reprByte, hquoted, hnamed, hprint]
    rw [hrepr]
    constructor
    · simp only [List.mem_cons, List.not_mem_nil, or_false, not_or]
      exact ⟨by decide, by decide, hhigh.1, hlow.1⟩
    · simp only [List.mem_cons, List.not_mem_nil, or_false, not_or]
      exact ⟨by decide, by decide, hhigh.2, hlow.2⟩

theorem writes_sdscatrepr (value : Bytes) : Writes (sdscatrepr value) value where
  clean := by
    have hquote : Clean [34] := ⟨by decide, by decide⟩
    have hbytes : Clean (value.flatMap reprByte) := by
      constructor
      · rw [List.mem_flatMap]
        rintro ⟨c, -, hmem⟩
        exact (clean_reprByte c).newline hmem
      · rw [List.mem_flatMap]
        rintro ⟨c, -, hmem⟩
        exact (clean_reprByte c).nul hmem
    exact (hquote.append hbytes).append hquote
  first := rfl
  last := ⟨34, by rw [sdscatrepr, List.getLast?_concat], by decide⟩
  token := inToken_repr value

theorem isPlain_of_isdigit {c : UInt8} (hc : isdigit c = true) : isPlain c = true := by
  simp only [isdigit, Bool.and_eq_true, decide_eq_true_eq, UInt8.le_iff_toNat_le] at hc
  simp [isPlain, isspace, UInt8.le_iff_toNat_le, ← UInt8.toNat_inj] at hc ⊢
  omega

theorem writes_word {word : Bytes} (hne : word ≠ []) (hword : ∀ c ∈ word, isPlain c = true) :
    Writes word word := by
  have hnot : ∀ c, isPlain c = false → c ∉ word := by
    intro c hc hmem
    rw [hword c hmem] at hc
    cases hc
  refine ⟨⟨hnot LF (by decide), hnot 0 (by decide)⟩, ?_, ?_, (inToken_plain hword []).1⟩
  · cases word with
    | nil => exact absurd rfl hne
    | cons c word =>
        have hc := hword c List.mem_cons_self
        simp only [isPlain, Bool.and_eq_true, Bool.not_eq_true'] at hc
        exact hc.1.1.1
  · refine ⟨word.getLast hne, List.getLast?_eq_some_getLast hne, ?_⟩
    have hlast := hword _ (List.getLast_mem hne)
    generalize word.getLast hne = c at hlast
    cases hblank : inSet lineBlanks c with
    | false => rfl
    | true =>
        simp only [inSet, lineBlanks, List.contains_eq_mem, List.mem_cons, List.not_mem_nil,
          or_false, Bool.or_eq_true, decide_eq_true_eq] at hblank
        rcases hblank with rfl | rfl | rfl | rfl | rfl <;> exact absurd hlast (by decide)

theorem writes_formatMemory (n : Nat) :
    Writes (rewriteConfigFormatMemory n) (rewriteConfigFormatMemory n) := by
  have hunit : ∀ (m : Nat) (u : Bytes), (∀ c ∈ u, isPlain c = true) →
      Writes (decimal m ++ u) (decimal m ++ u) := by
    intro m u hu
    refine writes_word (List.append_ne_nil_of_left_ne_nil (decimal_ne_nil m) u) fun c hc => ?_
    rcases List.mem_append.mp hc with hdigit | hunit
    · exact isPlain_of_isdigit (isdigit_of_mem_decimal hdigit)
    · exact hu c hunit
  have hplain := hunit n [] fun c hc => by cases hc
  rw [List.append_nil] at hplain
  unfold rewriteConfigFormatMemory
  split
  next => exact hunit _ _ (forall_mem_of_all (by decide))
  next =>
    split
    next => exact hunit _ _ (forall_mem_of_all (by decide))
    next =>
      split
      next => exact hunit _ _ (forall_mem_of_all (by decide))
      next => exact hplain

/-! ## Lines of the options -/

namespace BlogdOption

variable (option : BlogdOption)

theorem name_plain : ∀ c ∈ option.name, isPlain c = true := by
  cases option <;> exact forall_mem_of_all (by decide)

theorem name_lower : option.name.map tolower = option.name := by
  cases option <;> rfl

theorem ofName_name : ofName (cstr option.name) = some option := by
  cases option <;> decide

theorem name_inj {option other : BlogdOption} (hname : option.name = other.name) :
    option = other := by
  have hfound := ofName_name option
  rw [hname, ofName_name other, Option.some.injEq] at hfound
  exact hfound.symm

/-- The line for an option with an argument. -/
def line (text : Bytes) : Bytes := option.name ++ 32 :: text

variable {option} {text value : Bytes} (htext : Writes text value)

include htext

theorem clean_line : Clean (option.line text) := by
  have hname := writes_word (by cases option <;> decide) option.name_plain
  have hspace : Clean [32] := ⟨by decide, by decide⟩
  exact hname.clean.append (hspace.append htext.clean)

theorem argvOf_line : argvOf (option.line text) = [option.name, value] := by
  obtain ⟨c, hlast, hc⟩ := htext.last
  obtain ⟨d, hfirst, hd, hcomment⟩ : ∃ d, (option.line text).head? = some d ∧
      inSet lineBlanks d = false ∧ isComment (option.line text) = false := by
    cases option <;> exact ⟨_, rfl, by decide, rfl⟩
  have hend : (option.line text).getLast? = some c := by
    rw [line, List.getLast?_append, List.getLast?_cons, hlast]
    rfl
  have htrim : sdstrim (option.line text) lineBlanks = option.line text :=
    sdstrim_eq_self hfirst hend hd hc
  have hargs : sdssplitargs (option.line text) = some [option.name, value] :=
    sdssplitargs_pair (by cases option <;> decide) option.name_plain htext.clean.nul htext.first
      htext.token
  rw [argvOf, htrim, hcomment, hargs]
  exact congrArg (· :: [value]) option.name_lower

/-- What is written is read back. -/
theorem setting?_line (hvalue : 0 ∉ value) :
    setting? (option.line text) = some (option, value) := by
  rw [setting?, argvOf_line htext]
  simp only [ofName_name, Option.map_some, cstr_eq_self hvalue]

end BlogdOption

end Blogd
