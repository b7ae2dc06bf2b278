import Blogd.Config.Frame
import Blogd.Config.Startup

/-! # A rewrite and a restart

The text of a rewrite is loaded by a new process, which accepts it if Redis accepts what is kept of
the old file and the lines that are its own. An option of the blog has the value again if its line
was written for it and no other line sets it later, or if it was left out and the new process
starts with it.
-/

namespace Blogd

/-! ## What the lines set -/

section Values

variable {files : Bytes → Option Bytes} {depth : Nat} {option : BlogdOption}

/-- The values that a line gives to an option, with those of the files that it includes. A line
with a newline in it is several lines of the text. -/
def valuesIn (files : Bytes → Option Bytes) (depth : Nat) (option : BlogdOption) (line : Bytes) :
    List Bytes :=
  valuesOf option ((line.splitOn LF).flatMap (lineSettings files depth))

theorem valuesIn_of_clean {line : Bytes} (hline : Clean line) :
    valuesIn files depth option line = valuesOf option (lineSettings files depth line) := by
  rw [valuesIn, List.splitOn_eq_singleton hline.newline, List.flatMap_singleton]

/-- A line that is written gives its value to its option alone. -/
theorem valuesIn_line {other : BlogdOption} {text value : Bytes} (htext : Writes text value)
    (hvalue : 0 ∉ value) :
    valuesIn files depth option (other.line text) = if other = option then [value] else [] := by
  rw [valuesIn_of_clean (BlogdOption.clean_line htext), lineSettings, settingsOfLine,
    BlogdOption.setting?_line htext hvalue]
  by_cases heq : other = option
  · simp [valuesOf, heq]
  · simp [valuesOf, heq]

/-- A name alone sets nothing. -/
theorem valuesIn_name (other : BlogdOption) : valuesIn files depth option other.name = [] := by
  have hclean := (writes_word (by cases other <;> decide) other.name_plain).clean
  have hsetting : setting? other.name = none := by cases other <;> decide
  have hinclude : include? other.name = none := by cases other <;> decide
  rw [valuesIn_of_clean hclean, lineSettings, settingsOfLine, hsetting, hinclude]
  rfl

variable {options : BlogdOptions} (hvalid : options.Valid)

include hvalid

/-- Only in its own place an option is given what is written. -/
theorem valuesIn_fillPlace {line : Bytes} (hline : line ≠ option.name) :
    valuesIn files depth option (fillPlace options line) = valuesIn files depth option line := by
  cases hplace : isPlace line with
  | false => rw [fillPlace_of_not hplace]
  | true =>
      obtain ⟨other, rfl⟩ := isPlace_iff.mp hplace
      obtain ⟨value, hwrites, hnul, -⟩ := writes_argument hvalid other
      have hne : other ≠ option := fun heq => hline (congrArg BlogdOption.name heq)
      rw [fillPlace_name, valuesIn_line hwrites hnul, if_neg hne, valuesIn_name]

/-- What is not set by the text of a rewrite is the same as in the frame. -/
theorem filter_textLines_fillPlace (lines : List Bytes) :
    (textLines (lines.map (fillPlace options))).filter (setting? · = none) =
      (textLines (lines.filter (!isPlace ·))).filter (setting? · = none) := by
  induction lines with
  | nil => rfl
  | cons line lines ih =>
      have hcons : ∀ (line : Bytes) (lines : List Bytes),
          textLines (line :: lines) = line.splitOn LF ++ textLines lines := fun _ _ => rfl
      rw [List.map_cons, hcons, List.filter_append, ih]
      cases hplace : isPlace line with
      | false =>
          rw [List.filter_cons_of_pos (by simp [hplace]), fillPlace_of_not hplace, hcons,
            List.filter_append]
      | true =>
          obtain ⟨other, rfl⟩ := isPlace_iff.mp hplace
          obtain ⟨value, hwrites, hnul, -⟩ := writes_argument hvalid other
          have hsetting := @BlogdOption.setting?_line other _ _ hwrites hnul
          rw [List.filter_cons_of_neg (by simp [hplace]), fillPlace_name,
            List.splitOn_eq_singleton (BlogdOption.clean_line hwrites).newline,
            List.filter_cons_of_neg (by simp [hsetting])]
          rfl

end Values

/-! ## Loading the text -/

section Load

variable {σ : Type} {env : RedisConfig σ} {depth : Nat} {rest : σ} {lines : List Bytes}

/-- A line, for Redis alone. -/
abbrev redisStep (env : RedisConfig σ) (depth : Nat) :
    Loading Unit σ → Bytes → Option (Loading Unit σ) :=
  lineStep env (fun _ _ options => options)
    (loadServerConfig env (fun _ _ options => options) depth)

/-- Redis accepts lines one after the other, with the files that are included. Those that set an
option of the blog do not concern it. -/
def RedisAccepts (env : RedisConfig σ) (depth : Nat) (rest : σ) (lines : List Bytes) : Prop :=
  ∃ st, ((textLines lines).filter (setting? · = none)).foldlM (redisStep env depth) ⟨(), rest⟩ =
      some st ∧
    env.clusterSlave st.rest = false

/-- Whether a text is accepted does not depend on how the options are represented. -/
theorem loads_iff_redis {τ : Type} (assign : BlogdOption → Bytes → τ → τ) (start : τ)
    (text : Bytes) :
    (∃ st, loadServerConfigFromString env assign depth text ⟨start, rest⟩ = .ok st) ↔
      ∃ st, (splitLines (cstr text)).foldlM (redisStep env depth) ⟨(), rest⟩ = some st ∧
        env.clusterSlave st.rest = false := by
  have hf : ∀ (option : BlogdOption) (value : Bytes) (options : τ), () = () := fun _ _ _ => rfl
  have hfollows : loadServerConfigFromString env (fun _ _ (options : Unit) => options) depth text
      ⟨(), rest⟩ = _ :=
    @loadServerConfigFromString_follows _ _ _ env assign (fun _ _ (options : Unit) => options)
      (fun _ => ()) hf depth text ⟨start, rest⟩
  have hrun := @loadLines_toOption _ _ env (fun _ _ (options : Unit) => options)
    (loadServerConfig env (fun _ _ options => options) depth) 1 (splitLines (cstr text))
    ⟨(), rest⟩
  constructor
  · rintro ⟨st, hload⟩
    rw [hload, loadServerConfigFromString, loadText] at hfollows
    split at hfollows
    next loaded hloaded =>
      rw [hloaded] at hrun
      refine ⟨loaded, hrun.symm, eq_false_of_ne_true fun hslave => ?_⟩
      rw [if_pos hslave] at hfollows
      cases hfollows
    next => cases hfollows
  · rintro ⟨st, hload, hslave⟩
    rw [hload] at hrun
    rw [loadServerConfigFromString, loadText, eq_ok_of_toOption hrun] at hfollows
    cases hloaded : loadServerConfigFromString env assign depth text ⟨start, rest⟩ with
    | error e =>
        rw [hloaded] at hfollows
        simp [hslave, Except.map] at hfollows
    | ok loaded => exact ⟨loaded, rfl⟩

variable (hlines : ∀ line ∈ lines, 0 ∉ line)

include hlines

/-- The lines of the text are loaded one after the other. -/
theorem foldlM_content {τ : Type} {assign : BlogdOption → Bytes → τ → τ}
    {load : Bytes → Loading τ σ → Except ConfigExit (Loading τ σ)} (st : Loading τ σ) :
    (splitLines (cstr (contentFromLines false lines))).foldlM (lineStep env assign load) st =
      (textLines lines).foldlM (lineStep env assign load) st := by
  have hempty : ∀ line st, (decide (line ≠ [])) = false →
      lineStep env assign load st line = some st := by
    intro line st hline
    obtain rfl : line = [] := not_not.mp (of_decide_eq_false hline)
    exact lineStep_nil st
  rw [← foldlM_lineStep_filter hempty, filter_splitLines_content hlines,
    foldlM_lineStep_filter hempty]

/-- The lines of the blog do not keep a text from being accepted. -/
theorem loads_iff {τ : Type} (assign : BlogdOption → Bytes → τ → τ) (start : τ) :
    (∃ st, loadServerConfigFromString env assign depth (contentFromLines false lines)
      ⟨start, rest⟩ = .ok st) ↔ RedisAccepts env depth rest lines := by
  have hsettings : ∀ line st, decide (setting? line = none) = false →
      redisStep env depth st line = some st := by
    intro line st hline
    obtain ⟨found, hfound⟩ := Option.ne_none_iff_exists'.mp (of_decide_eq_false hline)
    exact lineStep_setting hfound st
  rw [loads_iff_redis, RedisAccepts, foldlM_lineStep_filter hsettings, foldlM_content hlines]

/-- The settings of the text are those of its lines. -/
theorem valuesOf_content {files : Bytes → Option Bytes}
    (hfiles : ∀ rest filename, env.fopen rest filename = files filename)
    (haccepts : RedisAccepts env depth rest lines) (option : BlogdOption) :
    valuesOf option (settingsOf env depth (contentFromLines false lines) rest) =
      lines.flatMap (valuesIn files depth option) := by
  obtain ⟨st, hload⟩ := (loads_iff hlines recordSetting []).mpr haccepts
  have hrecords := loadText_records (loadServerConfig_records hfiles depth) hload
  have hsettings : settingsOf env depth (contentFromLines false lines) rest =
      (textLines lines).flatMap (lineSettings files depth) := by
    rw [settingsOf, hload]
    refine hrecords.trans ?_
    rw [List.nil_append, ← flatMap_filter_ne_nil (lineSettings_nil files depth) (textLines lines),
      ← filter_splitLines_content hlines, flatMap_filter_ne_nil (lineSettings_nil files depth)]
    rfl
  rw [hsettings, textLines, List.flatMap_assoc, valuesOf_flatMap]
  rfl

end Load

/-! ## Which values come back -/

section Restored

variable {files : Bytes → Option Bytes} {depth : Nat} {options : BlogdOptions} {old : Bytes}

/-- The value that an option is given in the end by lines that are not its own: by those behind its
place, or by all if it has none. They are included files, names with a NUL, and what stands behind
a newline. -/
def strayValue (files : Bytes → Option Bytes) (depth : Nat) (frame : List Bytes)
    (option : BlogdOption) : Option Bytes :=
  ((frame.rtakeWhile (· ≠ option.name)).flatMap (valuesIn files depth option)).getLast?

/-- The last value is that of another line, or else the one that was written. -/
theorem getLast?_fillPlace (hvalid : options.Valid) {option : BlogdOption} {value : Bytes}
    (hwrites : Writes (option.argument options) value) (hnul : 0 ∉ value) (frame : List Bytes) :
    ((frame.map (fillPlace options)).flatMap (valuesIn files depth option)).getLast? =
      (strayValue files depth frame option).or
        (if option.name ∈ frame then some value else none) := by
  -- from the end of the frame, down to the place of the option
  induction frame using List.reverseRecOn with
  | nil => rfl
  | append_singleton frame line ih =>
      rw [strayValue] at ih ⊢
      rw [List.map_append, List.flatMap_append, List.getLast?_append, ih, List.map_singleton,
        List.flatMap_singleton, List.rtakeWhile_concat]
      by_cases hline : line = option.name
      · subst hline
        simp [fillPlace_name, valuesIn_line hwrites hnul]
      · have hmem : option.name ∈ frame ++ [line] ↔ option.name ∈ frame := by
          simp [Ne.symm hline]
        have hbehind : decide (line ≠ option.name) = true := decide_eq_true hline
        rw [if_pos hbehind, valuesIn_fillPlace hvalid hline, List.flatMap_append,
          List.getLast?_append, List.flatMap_singleton, Option.or_assoc]
        simp only [hmem]

/-- Whether the option has its value again, if no other line gives one to it. -/
theorem written_or_initial (option : BlogdOption) :
    (if hasLine old option ∨ option.differs options then option.written options
      else initServerConfig.get option) = options.get option ↔
    match option with
    | .contentDir | .markdownCompile => True
    | .publicDir => options.publicDir = options.contentDir
    | .reloadContentQuery =>
        hasLine old .reloadContentQuery ∨ options.reloadContentQuery ≠ some (ascii "secret-reload")
    | .perPage => hasLine old .perPage ∨ options.perPage ≠ 10 := by
  split
  next hwritten =>
    cases option with
    | contentDir => simp [BlogdOption.written]
    | markdownCompile => simp [BlogdOption.written]
    | publicDir =>
        simp [BlogdOption.written, BlogdOptions.get, eq_comm]
    | reloadContentQuery => simpa [BlogdOption.written, BlogdOption.differs] using hwritten
    | perPage => simpa [BlogdOption.written, BlogdOption.differs] using hwritten
  next hwritten =>
    simp only [not_or, Bool.not_eq_true] at hwritten
    obtain ⟨hline, hdiffers⟩ := hwritten
    cases option with
    | contentDir =>
        simp only [BlogdOption.differs, decide_eq_false_iff_not, not_not] at hdiffers
        simp [initServerConfig, BlogdOptions.get, hdiffers]
    | markdownCompile =>
        simp only [BlogdOption.differs, decide_eq_false_iff_not, not_not] at hdiffers
        simp [initServerConfig, BlogdOptions.get, hdiffers]
    | publicDir =>
        simp only [BlogdOption.differs, decide_eq_false_iff_not, not_not] at hdiffers
        simp [initServerConfig, BlogdOptions.get, hdiffers, eq_comm]
    | reloadContentQuery =>
        simp only [BlogdOption.differs, decide_eq_false_iff_not, not_not] at hdiffers
        simp [initServerConfig, BlogdOptions.get, hdiffers, hline]
    | perPage =>
        simp only [BlogdOption.differs, decide_eq_false_iff_not, not_not] at hdiffers
        simp [initServerConfig, BlogdOptions.get, hdiffers, hline]

end Restored

/-! ## Rewriting undoes loading -/

section Restart

variable {σ : Type} {env : RedisConfig σ} {files : Bytes → Option Bytes} {depth : Nat} {rest : σ}
  {first last : List RewriteOp} {options : BlogdOptions} {old : Bytes}

/-- The text of a rewrite is accepted by a new process and gives the same options. -/
def Restores (env : RedisConfig σ) (depth : Nat) (rest : σ) (first last : List RewriteOp)
    (options : BlogdOptions) (old : Bytes) : Prop :=
  ∃ text st, rewriteConfig first last options old = .ok text ∧
    loadServerConfigFromString env BlogdOptions.assign depth text ⟨initServerConfig, rest⟩ =
      .ok st ∧
    st.options = options

/-- The values agree with those of other lines and with what is written. -/
structure ValuesReturn (files : Bytes → Option Bytes) (depth : Nat) (frame : List Bytes)
    (options : BlogdOptions) (old : Bytes) : Prop where
  /-- Other lines that set an option in the end set it to its value. -/
  strays : ∀ option value, strayValue files depth frame option = some value →
    option.parse value = options.get option
  /-- The content directory is written for the public one. -/
  publicDir : strayValue files depth frame .publicDir = none →
    options.publicDir = options.contentDir
  /-- A value that is the default is left out, and a new process does not have it. -/
  reloadContentQuery : strayValue files depth frame .reloadContentQuery = none →
    hasLine old .reloadContentQuery ∨ options.reloadContentQuery ≠ some (ascii "secret-reload")
  perPage : strayValue files depth frame .perPage = none →
    hasLine old .perPage ∨ options.perPage ≠ 10

/-- When the options survive. -/
structure SurvivesRestart (env : RedisConfig σ) (files : Bytes → Option Bytes) (depth : Nat)
    (rest : σ) (first last : List RewriteOp) (options : BlogdOptions) (old : Bytes) : Prop where
  /-- No line of the old file consists of blanks that are not trimmed. -/
  readable : ∀ line ∈ oldLines old, isBare line = false
  /-- The pieces of the old file that are kept and the lines of Redis are accepted again. -/
  accepted : RedisAccepts env depth rest
    ((frame first last options old).filter (!isPlace ·))
  values : ValuesReturn files depth (frame first last options old) options old

/-- The value of an option after a restart. -/
theorem get_restarted (hvalid : options.Valid)
    (hfiles : ∀ rest filename, env.fopen rest filename = files filename) {frame : List Bytes}
    (hlines : ∀ line ∈ frame.map (fillPlace options), 0 ∉ line)
    (haccepts : RedisAccepts env depth rest (frame.map (fillPlace options)))
    {option : BlogdOption}
    (hplace : option.name ∈ frame ↔ hasLine old option = true ∨ option.differs options = true)
    {st : Loading BlogdOptions σ}
    (hload : loadServerConfigFromString env BlogdOptions.assign depth
      (contentFromLines false (frame.map (fillPlace options))) ⟨initServerConfig, rest⟩ = .ok st) :
    st.options.get option =
      match strayValue files depth frame option with
      | some value => option.parse value
      | none =>
          if hasLine old option ∨ option.differs options then option.written options
          else initServerConfig.get option := by
  obtain ⟨value, hwrites, hnul, hparse⟩ := writes_argument hvalid option
  rw [options_of_load hload, get_applySettings, valuesOf_content hlines hfiles haccepts,
    getLast?_fillPlace hvalid hwrites hnul]
  cases strayValue files depth frame option with
  | some stray => rfl
  | none =>
      rw [Option.none_or]
      simp only [hplace]
      split
      next => exact hparse
      next => rfl

/-- All options have their values again. -/
theorem valuesReturn_iff {frame : List Bytes} {restarted : BlogdOptions}
    (hget : ∀ option, restarted.get option =
      match strayValue files depth frame option with
      | some value => option.parse value
      | none =>
          if hasLine old option ∨ option.differs options then option.written options
          else initServerConfig.get option) :
    restarted = options ↔ ValuesReturn files depth frame options old := by
  constructor
  · rintro rfl
    have hnone : ∀ option, strayValue files depth frame option = none →
        (if hasLine old option ∨ option.differs restarted then option.written restarted
          else initServerConfig.get option) = restarted.get option := by
      intro option hstray
      rw [hget option, hstray]
    refine ⟨?_, ?_, ?_, ?_⟩
    · intro option value hstray
      rw [hget option, hstray]
    · exact fun hstray => (written_or_initial .publicDir).mp (hnone _ hstray)
    · exact fun hstray => (written_or_initial .reloadContentQuery).mp (hnone _ hstray)
    · exact fun hstray => (written_or_initial .perPage).mp (hnone _ hstray)
  · intro hvalues
    refine BlogdOptions.eq_of_get fun option => (hget option).trans ?_
    cases hstray : strayValue files depth frame option with
    | some value => exact hvalues.strays option value hstray
    | none =>
        refine (written_or_initial option).mpr ?_
        cases option with
        | contentDir => trivial
        | markdownCompile => trivial
        | publicDir => exact hvalues.publicDir hstray
        | reloadContentQuery => exact hvalues.reloadContentQuery hstray
        | perPage => exact hvalues.perPage hstray

/-- The text of a rewrite, if the old file could be read. -/
theorem rewriteConfig_eq (hvalid : options.Valid) (hredis : ∀ op ∈ first ++ last, op.OfRedis)
    (old : Bytes) :
    rewriteConfig first last options old =
      if (oldLines old).any isBare then .error .wildPointer
      else .ok (contentFromLines false
        ((frame first last options old).map (fillPlace options))) := by
  rw [rewriteConfig, rewriteState, rewriteConfigReadOldFile_eq, ← lines_rewriteDraft options old
    hredis, ← Draft.lines_eq, rewriteDraft, Draft.state_foldl, List.foldl_append,
    List.foldl_append, ← rewriteBlogdOptions_eq hvalid]
  cases (oldLines old).any isBare with
  | true => rfl
  | false => rfl

section Accepted

variable (hvalid : options.Valid) (hredis : ∀ op ∈ first ++ last, op.OfRedis)

include hvalid hredis

/-- The text of a rewrite is accepted if its frame is. -/
theorem loads_frame_iff :
    (∃ st, loadServerConfigFromString env BlogdOptions.assign depth
      (contentFromLines false ((frame first last options old).map (fillPlace options)))
      ⟨initServerConfig, rest⟩ = .ok st) ↔
      RedisAccepts env depth rest ((frame first last options old).filter (!isPlace ·)) := by
  have hnul := nul_not_mem_rewriteDraft options old hredis hvalid
  rw [lines_rewriteDraft options old hredis] at hnul
  rw [loads_iff hnul, RedisAccepts, RedisAccepts, filter_textLines_fillPlace hvalid]

/-- A text that was written and loaded is the one of the frame. -/
theorem Restores.loaded (hrestores : Restores env depth rest first last options old) :
    (oldLines old).any isBare = false ∧
      ∃ st, loadServerConfigFromString env BlogdOptions.assign depth
        (contentFromLines false ((frame first last options old).map (fillPlace options)))
        ⟨initServerConfig, rest⟩ = .ok st ∧ st.options = options := by
  obtain ⟨text, st, htext, hload, hsame⟩ := hrestores
  rw [rewriteConfig_eq hvalid hredis] at htext
  -- a bare line is read as a wild pointer, and nothing is written
  split at htext
  next => cases htext
  next hbare =>
    cases htext
    exact ⟨eq_false_of_ne_true hbare, st, hload, hsame⟩

end Accepted

/-- The options come back from a rewrite exactly if the old file has no bare line, Redis accepts
what is kept of it and its own lines, other lines and files agree with the values, the two
directories are the same, and no default was left out. -/
theorem restores_iff (hvalid : options.Valid)
    (hfiles : ∀ rest filename, env.fopen rest filename = files filename)
    (hredis : ∀ op ∈ first ++ last, op.OfRedis) :
    Restores env depth rest first last options old ↔
      SurvivesRestart env files depth rest first last options old := by
  have hvalues : ∀ st, loadServerConfigFromString env BlogdOptions.assign depth
      (contentFromLines false ((frame first last options old).map (fillPlace options)))
        ⟨initServerConfig, rest⟩ = .ok st →
      (st.options = options ↔
        ValuesReturn files depth (frame first last options old) options old) := by
    intro st hload
    have hnul := nul_not_mem_rewriteDraft options old hredis hvalid
    rw [lines_rewriteDraft options old hredis] at hnul
    exact valuesReturn_iff fun option => get_restarted hvalid hfiles hnul
      ((loads_iff hnul _ _).mp ⟨st, hload⟩) (name_mem_frame hredis options old option) hload
  constructor
  · intro hrestores
    obtain ⟨hbare, st, hload, hsame⟩ := hrestores.loaded hvalid hredis
    refine ⟨?_, (loads_frame_iff hvalid hredis).mp ⟨st, hload⟩, (hvalues st hload).mp hsame⟩
    exact fun line hline => eq_false_of_ne_true (List.any_eq_false.mp hbare line hline)
  · intro hsurvives
    obtain ⟨st, hload⟩ := (loads_frame_iff hvalid hredis).mpr hsurvives.accepted
    have hbare : (oldLines old).any isBare = false := by
      rw [List.any_eq_false]
      exact fun line hline => ne_true_of_eq_false (hsurvives.readable line hline)
    have htext := rewriteConfig_eq hvalid hredis old
    rw [hbare, if_neg Bool.false_ne_true] at htext
    exact ⟨_, st, htext, hload, (hvalues st hload).mpr hsurvives.values⟩

end Restart

/-! ## Two rewrites -/

/-- A configuration with the port alone. -/
def portConfig : RedisConfig Unit where
  directive argv _ := if argv.head? = some (ascii "port") then .ok () else .error badDirective
  fopen _ _ := none
  clusterSlave _ := false

def portOp : RewriteOp := .line (ascii "port") (ascii "port 6380") true

def siteOptions : BlogdOptions := ⟨ascii "site", ascii "site", some (ascii "reload"), 5, 1⟩

def siteConfig : Bytes := ascii "port 6379\nper-page 7\n"

theorem portOp_ofRedis : portOp.OfRedis where
  option_ne option := by cases option <;> decide
  nul := by
    intro line hline
    cases hline
    decide
  name := by
    intro line hline
    cases hline
    exact ⟨ascii "6380", rfl⟩

theorem portOps_ofRedis : ∀ op ∈ [portOp] ++ [], op.OfRedis := by
  intro op hop
  obtain rfl := List.mem_singleton.mp hop
  exact portOp_ofRedis

theorem siteOptions_valid : siteOptions.Valid :=
  ⟨by decide, by decide, ⟨_, rfl, by decide⟩, by decide, by decide⟩

theorem restores_site : Restores portConfig 0 () [portOp] [] siteOptions siteConfig := by
  have hframe : frame [portOp] [] siteOptions siteConfig =
      [ascii "port 6380", ascii "per-page", rewriteSignature, ascii "content-dir",
        ascii "public-dir", ascii "reload-content-query", ascii "markdown-compile"] := by
    decide +kernel
  have hstray : ∀ option, strayValue (fun _ => none) 0 (frame [portOp] [] siteOptions siteConfig)
      option = none := by
    rw [hframe]
    intro option
    cases option <;> decide +kernel
  have hfiles : ∀ rest filename, portConfig.fopen rest filename = none := fun _ _ => rfl
  refine (restores_iff siteOptions_valid hfiles portOps_ofRedis).mpr
    ⟨by decide +kernel, ?_, ?_, ?_, ?_, ?_⟩
  · rw [hframe]
    exact ⟨⟨(), ()⟩, by decide +kernel, rfl⟩
  · intro option value hsome
    rw [hstray option] at hsome
    cases hsome
  · exact fun _ => rfl
  · exact fun _ => .inr (by decide)
  · exact fun _ => .inr (by decide)

/-- After a rewrite of the shipped configuration and a restart, the public directory is that of the
contents. -/
theorem shipped_public_dir_lost :
    loadServerConfigFromString plainConfig BlogdOptions.assign 0 shippedLines
        ⟨initServerConfig, ()⟩ = .ok ⟨shippedOptions, ()⟩ ∧
      ¬ Restores plainConfig 0 () [] [] shippedOptions shippedLines ∧
      ∃ text, rewriteConfig [] [] shippedOptions shippedLines = .ok text ∧
        loadServerConfigFromString plainConfig BlogdOptions.assign 0 text ⟨initServerConfig, ()⟩ =
          .ok ⟨{ shippedOptions with publicDir := ascii "../contents" }, ()⟩ := by
  have hrun : (rewriteConfig [] [] shippedOptions shippedLines).map (fun text =>
      loadServerConfigFromString plainConfig BlogdOptions.assign 0 text ⟨initServerConfig, ()⟩) =
        .ok (.ok ⟨{ shippedOptions with publicDir := ascii "../contents" }, ()⟩) := by
    decide +kernel
  cases htext : rewriteConfig [] [] shippedOptions shippedLines with
  | error e =>
      rw [htext] at hrun
      cases hrun
  | ok text =>
      rw [htext] at hrun
      have hload := Except.ok.inj hrun
      refine ⟨load_shippedLines, ?_, text, rfl, hload⟩
      rintro ⟨text', st, htext', hload', hsame⟩
      obtain rfl := Except.ok.inj (htext.symm.trans htext')
      obtain rfl := Except.ok.inj (hload.symm.trans hload')
      exact absurd hsame (by decide)

end Blogd
