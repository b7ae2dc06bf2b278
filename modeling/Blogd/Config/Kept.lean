import Blogd.Config.Restart

/-! # Lines that are accepted again

Whether a restart succeeds depends on what is kept of the old file. The loader sees its lines and
the rewrite its pieces of 1024 bytes. A file of short lines is accepted again if Redis accepts its
own lines. The end of a longer line is a line of its own from then on, even if it was a comment.
-/

namespace Blogd

/-! ## Short lines -/

theorem fgets_line {n : Nat} {line rest : Bytes} (hline : LF ∉ line) (hn : line.length < n) :
    fgets n (line ++ LF :: rest) = (line ++ [LF], rest) := by
  induction line generalizing n with
  | nil =>
      obtain ⟨n, rfl⟩ := Nat.exists_eq_succ_of_ne_zero (Nat.ne_zero_of_lt hn)
      simp [fgets]
  | cons c line ih =>
      obtain ⟨n, rfl⟩ := Nat.exists_eq_succ_of_ne_zero (Nat.ne_zero_of_lt hn)
      rw [List.mem_cons, not_or] at hline
      have hrest := ih hline.2 (Nat.lt_of_succ_lt_succ hn)
      simp [fgets, Ne.symm hline.1, hrest]

theorem fgets_end {n : Nat} {line : Bytes} (hline : LF ∉ line) (hn : line.length < n) :
    fgets n line = (line, []) := by
  induction line generalizing n with
  | nil => cases n <;> rfl
  | cons c line ih =>
      obtain ⟨n, rfl⟩ := Nat.exists_eq_succ_of_ne_zero (Nat.ne_zero_of_lt hn)
      rw [List.mem_cons, not_or] at hline
      have hrest := ih hline.2 (Nat.lt_of_succ_lt_succ hn)
      simp [fgets, Ne.symm hline.1, hrest]

/-- Each buffer is a line of the file, if all of them are short. -/
theorem mem_fgetsAll_of_short {fuel : Nat} {data buf : Bytes}
    (hshort : ∀ line ∈ data.splitOn LF, line.length < 1024) (hbuf : buf ∈ fgetsAll fuel data) :
    buf ⊆ data ∧ ∃ line ∈ data.splitOn LF, buf = line ∨ buf = line ++ [LF] := by
  induction fuel generalizing data with
  | zero => cases hbuf
  | succ fuel ih =>
      rw [fgetsAll] at hbuf
      split at hbuf
      next => cases hbuf
      next =>
        by_cases hnewline : LF ∈ data
        · obtain ⟨line, rest, rfl, hline⟩ := List.eq_append_cons_of_mem hnewline
          rw [List.splitOn_append_cons_self, List.splitOn_eq_singleton hline] at hshort ⊢
          rw [fgets_line hline (hshort line List.mem_cons_self)] at hbuf
          rcases List.mem_cons.mp hbuf with rfl | hrest
          · refine ⟨?_, line, List.mem_cons_self, .inr rfl⟩
            exact List.append_subset.mpr ⟨List.subset_append_left _ _, by simp⟩
          · obtain ⟨hsubset, found, hfound, hsame⟩ :=
              ih (fun other hother => hshort other (List.mem_cons_of_mem _ hother)) hrest
            refine ⟨fun c hc => ?_, found, List.mem_cons_of_mem _ hfound, hsame⟩
            exact List.mem_append_right _ (List.mem_cons_of_mem _ (hsubset hc))
        · rw [List.splitOn_eq_singleton hnewline] at hshort ⊢
          rw [fgets_end hnewline (hshort data (List.mem_singleton.mpr rfl))] at hbuf
          have hnil : fgetsAll fuel [] = [] := by
            cases fuel <;> rfl
          rw [hnil, List.mem_singleton] at hbuf
          exact ⟨hbuf ▸ List.Subset.refl _, data, List.mem_singleton.mpr rfl, .inl hbuf⟩

theorem sdstrim_concat {s cset : Bytes} {c : UInt8} (hc : inSet cset c = true) :
    sdstrim (s ++ [c]) cset = sdstrim s cset := by
  rw [sdstrim, sdstrim, List.dropWhile_append]
  split
  next hempty =>
    rw [List.isEmpty_iff] at hempty
    rw [hempty]
    simp [hc]
  next => exact List.rdropWhile_concat_pos _ _ _ hc

/-- What is kept of a short line is the line. -/
theorem mem_oldLines_of_short {old line : Bytes} (hnul : 0 ∉ old)
    (hshort : ∀ line ∈ old.splitOn LF, line.length < 1024) (hline : line ∈ oldLines old) :
    ∃ whole ∈ old.splitOn LF, line = sdstrim whole lineBlanks := by
  obtain ⟨buf, hbuf, rfl⟩ := List.mem_map.mp hline
  obtain ⟨hsubset, whole, hwhole, hsame⟩ := mem_fgetsAll_of_short hshort hbuf
  refine ⟨whole, hwhole, ?_⟩
  rw [cstr_eq_self fun hzero => hnul (hsubset hzero)]
  rcases hsame with rfl | rfl
  · rfl
  · exact sdstrim_concat (by decide)

/-! ## One line after the other -/

section Steps

variable {σ : Type} {env : RedisConfig σ} {depth : Nat}

theorem lineStep_sdstrim (line : Bytes) (st : Loading Unit σ) :
    redisStep env depth st (sdstrim line lineBlanks) = redisStep env depth st line := by
  unfold redisStep lineStep loadLine
  rw [sdstrim_sdstrim]

theorem redisStep_comment {line : Bytes} (hline : isComment (sdstrim line lineBlanks) = true)
    (st : Loading Unit σ) : redisStep env depth st line = some st := by
  unfold redisStep lineStep loadLine
  simp only [hline, if_true]
  rfl

/-- Each line of a text that is accepted is accepted in some state. -/
theorem exists_step_of_mem {lines : List Bytes} {st last : Loading Unit σ}
    (hrun : lines.foldlM (redisStep env depth) st = some last) {line : Bytes}
    (hline : line ∈ lines) : ∃ st st', redisStep env depth st line = some st' := by
  obtain ⟨before, behind, rfl⟩ := List.append_of_mem hline
  rw [List.foldlM_append] at hrun
  obtain ⟨st, -, hrest⟩ := Option.bind_eq_some_iff.mp hrun
  rw [List.foldlM_cons] at hrest
  obtain ⟨st', hstep, -⟩ := Option.bind_eq_some_iff.mp hrest
  exact ⟨st, st', hstep⟩

/-- Lines that are accepted in every state are accepted one after the other. -/
theorem exists_run_of_forall {lines : List Bytes}
    (hlines : ∀ line ∈ lines, ∀ st, ∃ st', redisStep env depth st line = some st')
    (st : Loading Unit σ) : ∃ last, lines.foldlM (redisStep env depth) st = some last := by
  induction lines generalizing st with
  | nil => exact ⟨st, rfl⟩
  | cons line lines ih =>
      obtain ⟨st', hstep⟩ := hlines line List.mem_cons_self st
      obtain ⟨last, hrun⟩ := ih (fun line hline => hlines line (List.mem_cons_of_mem _ hline)) st'
      refine ⟨last, ?_⟩
      rw [List.foldlM_cons, hstep]
      exact hrun

end Steps

/-! ## Lines of the frame -/

theorem isComment_sdstrim {line : Bytes} (hline : line.head? = some 35) :
    isComment (sdstrim line lineBlanks) = true := by
  obtain ⟨rest, rfl⟩ := List.head?_eq_some_iff.mp hline
  have hdrop : (35 :: rest).dropWhile (inSet lineBlanks) = 35 :: rest := rfl
  have hne : (35 :: rest).rdropWhile (inSet lineBlanks) ≠ [] := by
    rw [ne_eq, List.rdropWhile_eq_nil_iff]
    intro hall
    exact absurd (hall 35 List.mem_cons_self) (by decide)
  obtain ⟨tail, htail⟩ := List.rdropWhile_prefix (inSet lineBlanks) (35 :: rest)
  rw [sdstrim, hdrop]
  cases htrim : (35 :: rest).rdropWhile (inSet lineBlanks) with
  | nil => exact absurd htrim hne
  | cons c more =>
      rw [htrim, List.cons_append, List.cons.injEq] at htail
      rw [htail.1]
      rfl

section Frame

variable {first last : List RewriteOp} {options : BlogdOptions} {old : Bytes}

/-- An old line that no operation is for is a comment from then on, or it is kept. -/
theorem comment_or_isKept {line : Bytes} (hline : line ∈ oldLines old)
    (hredis : ∀ op ∈ first ++ last, directiveName line ≠ some op.option)
    (hblogd : ∀ option : BlogdOption, directiveName line ≠ some option.name) :
    isComment (sdstrim (oldSlot line).value lineBlanks) = true ∨
      IsKept first last old (oldSlot line).value := by
  have htrim : sdstrim line lineBlanks = line := by
    obtain ⟨buf, -, rfl⟩ := List.mem_map.mp hline
    exact sdstrim_sdstrim _ _
  unfold oldSlot
  dsimp only
  split
  next => exact .inl (isComment_sdstrim rfl)
  next hparsed =>
    rw [htrim]
    cases hcomment : isComment line with
    | true => exact .inl rfl
    | false =>
        refine .inr ⟨hline, fun _ hnone => hparsed ⟨?_, hnone⟩, hredis, hblogd⟩
        rw [hcomment]
        rfl

/-- A line of the frame is a place, a line of Redis, a comment, or was kept. -/
theorem mem_frame_cases {line : Bytes} (hline : line ∈ frame first last options old) :
    isPlace line = true ∨ (∃ op ∈ first ++ last, op.text? = some line) ∨
      LF ∉ line ∧ (isComment (sdstrim line lineBlanks) = true ∨ IsKept first last old line) := by
  have htexts : ∀ op ∈ first ++ BlogdOption.rewriteOrder.map (·.place options) ++ last,
      ∀ text, op.text? = some text →
        isPlace text = true ∨ ∃ op ∈ first ++ last, op.text? = some text := by
    intro op hop text htext
    rw [List.append_assoc, List.mem_append, List.mem_append] at hop
    rcases hop with hfirst | hblogd | hlast
    · exact .inr ⟨op, List.mem_append_left _ hfirst, htext⟩
    · obtain ⟨option, -, rfl⟩ := List.mem_map.mp hblogd
      cases htext
      exact .inl (isPlace_iff.mpr ⟨option, rfl⟩)
    · exact .inr ⟨op, List.mem_append_right _ hlast, htext⟩
  -- each slot is an old one, or was written
  have hslots := @Draft.forall_foldl (oldDraft old)
    (fun slot => slot ∈ oldSlots old ∨ slot.value = rewriteSignature ∨
      isPlace slot.value = true ∨ ∃ op ∈ first ++ last, op.text? = some slot.value) _
    (fun slot hslot => .inl hslot) (.inr (.inl rfl))
    fun op hop text htext => .inr (.inr (htexts op hop text htext))
  obtain ⟨slot, hslot, hvalue⟩ := List.mem_map.mp hline
  split at hvalue
  next =>
    subst hvalue
    exact .inr (.inr ⟨List.not_mem_nil, .inl rfl⟩)
  next howner =>
    subst hvalue
    rcases hslots slot hslot with hold | hsignature | hplace | hredis
    · refine .inr (.inr ⟨(clean_oldSlots old slot hold).newline, ?_⟩)
      obtain ⟨whole, hwhole, rfl⟩ := List.mem_map.mp hold
      have hothers : ∀ op ∈ first ++ BlogdOption.rewriteOrder.map (·.place options) ++ last,
          directiveName whole ≠ some op.option := by
        intro op hop hname
        refine howner ?_
        rw [oldSlot, hname, Option.any_some]
        exact decide_eq_true (Draft.mem_rewritten_foldl.mpr (.inl ⟨op, hop, rfl⟩))
      refine comment_or_isKept hwhole (fun op hop => hothers op ?_) fun option => ?_
      · simp only [List.mem_append] at hop ⊢
        exact hop.imp_left .inl
      · exact hothers (option.place options) (List.mem_append_left _
          (List.mem_append_right _ (List.mem_map_of_mem option.mem_rewriteOrder)))
    · rw [hsignature]
      exact .inr (.inr ⟨clean_rewriteSignature.newline, .inl (by decide)⟩)
    · exact .inl hplace
    · exact .inr (.inl hredis)

end Frame

/-! ## Files of short lines -/

section Short

variable {σ : Type} {env : RedisConfig σ} {depth : Nat} {rest : σ} {first last : List RewriteOp}
  {options : BlogdOptions} {old : Bytes}

/-- A file that was accepted is accepted again if no line is cut, what becomes of a kept line does
not depend on the others, and Redis accepts its own lines. -/
theorem redisAccepts_frame (hnul : 0 ∉ old)
    (hshort : ∀ line ∈ old.splitOn LF, line.length < 1024) {start : BlogdOptions}
    (hload : ∃ st, loadServerConfigFromString env BlogdOptions.assign depth old ⟨start, rest⟩ =
      .ok st)
    (hsteady : ∀ line, IsKept first last old line → ∀ st st' : Loading Unit σ,
      (redisStep env depth st line).isSome = (redisStep env depth st' line).isSome)
    (hredis : ∀ op ∈ first ++ last, ∀ line, op.text? = some line →
      ∀ part ∈ line.splitOn LF, ∀ st, ∃ st', redisStep env depth st part = some st')
    (hslave : ∀ rest, env.clusterSlave rest = false) :
    RedisAccepts env depth rest ((frame first last options old).filter (!isPlace ·)) := by
  rw [loads_iff_redis, cstr_eq_self hnul] at hload
  obtain ⟨loaded, hloaded, -⟩ := hload
  have hkept : ∀ line, IsKept first last old line → ∀ st, ∃ st',
      redisStep env depth st line = some st' := by
    intro line hline st
    obtain ⟨whole, hwhole, rfl⟩ := mem_oldLines_of_short hnul hshort hline.mem
    have hmem : whole ∈ splitLines old := by
      unfold splitLines
      split
      next hempty =>
        subst hempty
        exact absurd hline.mem List.not_mem_nil
      next => exact hwhole
    obtain ⟨before, behind, hstep⟩ := exists_step_of_mem hloaded hmem
    rw [← lineStep_sdstrim] at hstep
    refine Option.isSome_iff_exists.mp ?_
    rw [hsteady _ hline st before, hstep]
    rfl
  have hall : ∀ part ∈ (textLines ((frame first last options old).filter (!isPlace ·))).filter
      (setting? · = none), ∀ st, ∃ st', redisStep env depth st part = some st' := by
    intro part hpart st
    obtain ⟨line, hline, hpart⟩ := List.mem_flatMap.mp (List.mem_filter.mp hpart).1
    obtain ⟨hline, hplace⟩ := List.mem_filter.mp hline
    rcases mem_frame_cases hline with hisPlace | ⟨op, hop, htext⟩ | ⟨hnewline, hold⟩
    · rw [hisPlace] at hplace
      cases hplace
    · exact hredis op hop line htext part hpart st
    · rw [List.splitOn_eq_singleton hnewline, List.mem_singleton] at hpart
      subst hpart
      rcases hold with hcomment | hline
      · exact ⟨st, redisStep_comment hcomment st⟩
      · exact hkept part hline st
  obtain ⟨st, hrun⟩ := exists_run_of_forall hall ⟨(), rest⟩
  exact ⟨st, hrun, hslave _⟩

end Short

/-! ## Long lines -/

/-- A piece of the old file that is kept, and that Redis does not know, keeps the new process from
starting. -/
theorem not_restores_of_unknown {σ : Type} {env : RedisConfig σ} {depth : Nat} {rest : σ}
    {first last : List RewriteOp} {options : BlogdOptions} {old line name : Bytes}
    {args : List Bytes} (hvalid : options.Valid)
    (hredis : ∀ op ∈ first ++ last, op.OfRedis) (hkept : IsKept first last old line)
    (hargv : argvOf line = name :: args) (hblogd : BlogdOption.ofName (cstr name) = none)
    (hinclude : caseEqual (cstr name) (ascii "include") = false)
    (hunknown : ∀ rest, ∃ err, env.directive (name :: args) rest = .error err) :
    ¬ Restores env depth rest first last options old := by
  intro hrestores
  obtain ⟨-, st, hload, -⟩ := hrestores.loaded hvalid hredis
  have haccepts := (loads_frame_iff hvalid hredis).mp ⟨st, hload⟩
  have hplace : isPlace line = false := by
    refine eq_false_of_ne_true fun hplace => ?_
    obtain ⟨option, rfl⟩ := isPlace_iff.mp hplace
    exact hkept.blogd option (by cases option <;> decide)
  have hmem : line ∈ textLines ((frame first last options old).filter (!isPlace ·)) := by
    refine List.mem_flatMap.mpr ⟨line, List.mem_filter.mpr ⟨hkept.mem_frame options, ?_⟩, ?_⟩
    · simp [hplace]
    · rw [List.splitOn_eq_singleton (clean_of_mem_oldLines hkept.mem).newline]
      exact List.mem_singleton.mpr rfl
  have hsetting : setting? line = none := by
    rw [setting?, hargv]
    split
    next heq =>
      cases heq
      rw [hblogd]
      rfl
    next => rfl
  obtain ⟨last, hrun, -⟩ := haccepts
  obtain ⟨before, behind, hstep⟩ := exists_step_of_mem hrun
    (List.mem_filter.mpr ⟨hmem, decide_eq_true hsetting⟩)
  obtain ⟨err, herr⟩ := hunknown before.rest
  rw [redisStep, lineStep_of_argv hargv] at hstep
  simp [loadDirective, hblogd, hinclude, herr, Except.toOption] at hstep

/-- A comment of 1030 bytes, in front of lines that would come back. -/
def longComment : Bytes :=
  ascii "# " ++ List.replicate 1028 120 ++ LF ::
    ascii "content-dir site\npublic-dir site\nper-page 5\n" ++
    ascii "reload-content-query reload\nmarkdown-compile 1\n"

/-- The comment is cut at 1024 bytes, its end is kept as a directive, and the new process does not
start. -/
theorem long_comment_refused :
    loadServerConfigFromString portConfig BlogdOptions.assign 0 longComment
        ⟨initServerConfig, ()⟩ = .ok ⟨siteOptions, ()⟩ ∧
      ¬ Restores portConfig 0 () [portOp] [] siteOptions longComment := by
  have hkept : IsKept [portOp] [] longComment (ascii "xxxxxx") := by
    refine ⟨by decide +kernel, fun _ => by decide, ?_, fun option => by cases option <;> decide⟩
    intro op hop
    obtain rfl := List.mem_singleton.mp hop
    decide
  refine ⟨by decide +kernel, ?_⟩
  exact not_restores_of_unknown siteOptions_valid portOps_ofRedis hkept rfl (by decide) (by decide)
    fun _ => ⟨badDirective, rfl⟩

end Blogd
