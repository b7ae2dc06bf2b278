import Blogd.Config.Load

/-! # Lines of a configuration

The result of loading depends on the lines one after the other, and not on their numbers. A line
that sets an option of the blog is always accepted, and changes nothing else. If every name stands
for one file, the settings of a text can be read off its lines.
-/

namespace Blogd

/-! ## What a line says -/

/-- The arguments of a line, the name of the directive in lower case. -/
def argvOf (line : Bytes) : List Bytes :=
  let line := sdstrim line lineBlanks
  if isComment line then []
  else
    match sdssplitargs line with
    | some (name :: args) => name.map tolower :: args
    | _ => []

def directiveName (line : Bytes) : Option Bytes := (argvOf line).head?

/-- The option that a line sets, and the value. -/
def setting? (line : Bytes) : Option (BlogdOption × Bytes) :=
  match argvOf line with
  | [name, value] => (BlogdOption.ofName (cstr name)).map fun option => (option, cstr value)
  | _ => none

/-- The file that a line includes. -/
def include? (line : Bytes) : Option Bytes :=
  match argvOf line with
  | [name, value] =>
      if BlogdOption.ofName (cstr name) = none ∧ caseEqual (cstr name) (ascii "include") then
        some (cstr value)
      else none
  | _ => none

/-! ## One line after the other -/

theorem eq_ok_of_toOption {ε α : Type} {result : Except ε α} {a : α}
    (hresult : result.toOption = some a) : result = .ok a := by
  cases result with
  | error e => cases hresult
  | ok b => rw [Option.some.inj hresult]

section Steps

variable {τ σ : Type} (env : RedisConfig σ) (assign : BlogdOption → Bytes → τ → τ)
  (load : Bytes → Loading τ σ → Except ConfigExit (Loading τ σ))

/-- Loading a line, if it is accepted. -/
def lineStep (st : Loading τ σ) (line : Bytes) : Option (Loading τ σ) :=
  (loadLine env assign load 0 line st).toOption

variable {env assign load}

theorem loadDirective_toOption (linenum : Nat) (line : Bytes) (argv : List Bytes)
    (st : Loading τ σ) :
    (loadDirective env assign load linenum line argv st).toOption =
      (loadDirective env assign load 0 line argv st).toOption := by
  unfold loadDirective
  dsimp only
  split
  next => split <;> rfl
  next =>
    split
    next => split <;> rfl
    next => split <;> rfl

theorem loadLine_toOption (linenum : Nat) (line : Bytes) (st : Loading τ σ) :
    (loadLine env assign load linenum line st).toOption = lineStep env assign load st line := by
  unfold lineStep loadLine
  dsimp only
  split
  next => rfl
  next =>
    split
    next => rfl
    next => rfl
    next => exact loadDirective_toOption linenum _ _ st

theorem loadLines_toOption (linenum : Nat) (lines : List Bytes) (st : Loading τ σ) :
    (loadLines env assign load linenum lines st).toOption =
      lines.foldlM (lineStep env assign load) st := by
  induction lines generalizing linenum st with
  | nil => rfl
  | cons line lines ih =>
      rw [loadLines, List.foldlM_cons, ← loadLine_toOption linenum]
      cases loadLine env assign load linenum line st with
      | error e => rfl
      | ok st => exact ih (linenum + 1) st

/-- Lines that change nothing can be left out. -/
theorem foldlM_lineStep_filter {keep : Bytes → Bool}
    (hkeep : ∀ line st, keep line = false → lineStep env assign load st line = some st)
    (lines : List Bytes) (st : Loading τ σ) :
    (lines.filter keep).foldlM (lineStep env assign load) st =
      lines.foldlM (lineStep env assign load) st := by
  induction lines generalizing st with
  | nil => rfl
  | cons line lines ih =>
      cases hline : keep line with
      | false =>
          rw [List.filter_cons, hline, if_neg Bool.false_ne_true, List.foldlM_cons,
            hkeep line st hline]
          exact ih st
      | true =>
          rw [List.filter_cons, hline, if_pos rfl, List.foldlM_cons, List.foldlM_cons]
          exact bind_congr fun st => ih st

theorem lineStep_nil (st : Loading τ σ) : lineStep env assign load st [] = some st := rfl

theorem lineStep_of_argv {line name : Bytes} {args : List Bytes}
    (hargv : argvOf line = name :: args) (st : Loading τ σ) :
    lineStep env assign load st line =
      (loadDirective env assign load 0 (sdstrim line lineBlanks) (name :: args) st).toOption := by
  unfold argvOf at hargv
  unfold lineStep loadLine
  dsimp only at hargv ⊢
  split at hargv
  next => cases hargv
  next hcomment =>
    rw [if_neg hcomment]
    split at hargv
    next hsplit =>
      rw [hsplit]
      cases hargv
      rfl
    next => cases hargv

/-- A line without a directive is skipped, or not accepted. -/
theorem lineStep_of_nil {line : Bytes} (hargv : argvOf line = []) {st st' : Loading τ σ}
    (hstep : lineStep env assign load st line = some st') : st' = st := by
  unfold argvOf at hargv
  unfold lineStep loadLine at hstep
  dsimp only at hargv hstep
  split at hstep
  next => exact (Option.some.inj hstep).symm
  next hcomment =>
    rw [if_neg hcomment] at hargv
    split at hstep
    next => cases hstep
    next => exact (Option.some.inj hstep).symm
    next hsplit =>
      rw [hsplit] at hargv
      cases hargv

/-- A line that sets an option is accepted. -/
theorem lineStep_setting {line : Bytes} {option : BlogdOption} {value : Bytes}
    (hline : setting? line = some (option, value)) (st : Loading τ σ) :
    lineStep env assign load st line =
      some { st with options := assign option value st.options } := by
  unfold setting? at hline
  split at hline
  next name arg hargv =>
    obtain ⟨found, hfound, hsame⟩ := Option.map_eq_some_iff.mp hline
    cases hsame
    rw [lineStep_of_argv hargv]
    simp [loadDirective, hfound, Except.toOption]
  next => cases hline

theorem lineStep_include {line filename : Bytes} (hline : include? line = some filename)
    (st : Loading τ σ) : lineStep env assign load st line = (load filename st).toOption := by
  unfold include? at hline
  split at hline
  next name arg hargv =>
    split at hline
    next hname =>
      cases hline
      rw [lineStep_of_argv hargv]
      simp [loadDirective, hname]
    next => cases hline
  next => cases hline

/-- All other lines leave the options alone. -/
theorem lineStep_other {line : Bytes} (hsetting : setting? line = none)
    (hinclude : include? line = none) {st st' : Loading τ σ}
    (hstep : lineStep env assign load st line = some st') : st'.options = st.options := by
  cases hargv : argvOf line with
  | nil => rw [lineStep_of_nil hargv hstep]
  | cons name args =>
      rw [lineStep_of_argv hargv] at hstep
      unfold loadDirective at hstep
      dsimp only [List.headD_cons] at hstep
      split at hstep
      next option hoption =>
        split at hstep
        next hlength =>
          obtain ⟨value, rfl⟩ := List.length_eq_one_iff.mp (Nat.succ.inj hlength)
          simp [setting?, hargv, hoption] at hsetting
        next => cases hstep
      next hoption =>
        split at hstep
        next hname =>
          split at hstep
          next hlength =>
            obtain ⟨value, rfl⟩ := List.length_eq_one_iff.mp (Nat.succ.inj hlength)
            simp [include?, hargv, hoption, hname] at hinclude
          next => cases hstep
        next =>
          split at hstep
          next =>
            cases hstep
            rfl
          next => cases hstep

end Steps

/-! ## The settings of lines -/

/-- The settings of a line, if those of files are known. -/
def settingsOfLine (included : Bytes → Settings) (line : Bytes) : Settings :=
  match setting? line with
  | some setting => [setting]
  | none =>
      match include? line with
      | some filename => included filename
      | none => []

/-- The settings of a file, at which others are included at most `depth` deep. -/
def fileSettings (files : Bytes → Option Bytes) : Nat → Bytes → Settings
  | 0, _ => []
  | depth + 1, filename =>
      match files filename with
      | none => []
      | some data =>
          (splitLines (cstr (readLines data.length data))).flatMap
            (settingsOfLine (fileSettings files depth))

/-- The settings of a line. -/
def lineSettings (files : Bytes → Option Bytes) (depth : Nat) : Bytes → Settings :=
  settingsOfLine (fileSettings files depth)

section Recorded

variable {σ : Type} {env : RedisConfig σ} {included : Bytes → Settings}
  {load : Bytes → Loading Settings σ → Except ConfigExit (Loading Settings σ)}

section Text

variable (hload : ∀ filename st st', load filename st = .ok st' →
  st'.options = st.options ++ included filename)

include hload

theorem lineStep_records {line : Bytes} {st st' : Loading Settings σ}
    (hstep : lineStep env recordSetting load st line = some st') :
    st'.options = st.options ++ settingsOfLine included line := by
  cases hsetting : setting? line with
  | some found =>
      rw [lineStep_setting hsetting, Option.some.injEq] at hstep
      rw [← hstep]
      simp [settingsOfLine, hsetting, recordSetting]
  | none =>
      cases hinclude : include? line with
      | some filename =>
          rw [lineStep_include hinclude] at hstep
          rw [hload filename st st' (eq_ok_of_toOption hstep)]
          simp [settingsOfLine, hsetting, hinclude]
      | none =>
          rw [lineStep_other hsetting hinclude hstep]
          simp [settingsOfLine, hsetting, hinclude]

theorem foldlM_records {lines : List Bytes} {st st' : Loading Settings σ}
    (hrun : lines.foldlM (lineStep env recordSetting load) st = some st') :
    st'.options = st.options ++ lines.flatMap (settingsOfLine included) := by
  induction lines generalizing st with
  | nil =>
      cases hrun
      simp
  | cons line lines ih =>
      rw [List.foldlM_cons] at hrun
      obtain ⟨middle, hstep, hrest⟩ := Option.bind_eq_some_iff.mp hrun
      rw [ih hrest, lineStep_records hload hstep, List.append_assoc, List.flatMap_cons]

theorem loadText_records {text : Bytes} {st st' : Loading Settings σ}
    (hrun : loadText env recordSetting load text st = .ok st') :
    st'.options = st.options ++ (splitLines (cstr text)).flatMap (settingsOfLine included) := by
  unfold loadText at hrun
  have hlines := @loadLines_toOption _ _ env recordSetting load 1 (splitLines (cstr text)) st
  cases hloaded : loadLines env recordSetting load 1 (splitLines (cstr text)) st with
  | error e =>
      rw [hloaded] at hrun
      cases hrun
  | ok loaded =>
      rw [hloaded] at hrun hlines
      dsimp only at hrun
      split at hrun
      next => cases hrun
      next =>
        cases hrun
        exact foldlM_records hload hlines.symm

end Text

theorem loadServerConfig_records {files : Bytes → Option Bytes}
    (hfiles : ∀ rest filename, env.fopen rest filename = files filename) (depth : Nat)
    (filename : Bytes) (st st' : Loading Settings σ)
    (hrun : loadServerConfig env recordSetting depth filename st = .ok st') :
    st'.options = st.options ++ fileSettings files depth filename := by
  induction depth generalizing filename st st' with
  | zero => cases hrun
  | succ depth ih =>
      rw [loadServerConfig, hfiles] at hrun
      rw [fileSettings]
      cases hfile : files filename with
      | none =>
          rw [hfile] at hrun
          cases hrun
      | some data =>
          rw [hfile] at hrun
          exact loadText_records ih hrun

end Recorded

end Blogd
