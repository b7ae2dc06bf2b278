import Blogd.Config.Written

/-! # The command line

`main` turns the arguments of the program into lines of a configuration, which it appends to the
text of the file. The arguments of an option are written by `sdscatrepr`, so that whatever bytes
they consist of, they make one line and are read back as they were.
-/

namespace Blogd

/-- `argv[j][0] == '-' && argv[j][1] == '-'` -/
def isOptionName (arg : Bytes) : Bool := arg.getD 0 0 = 45 && arg.getD 1 0 = 45

/-- The loop of `main` over the arguments behind the file. -/
def catOptions : List Bytes → Bytes → Bytes
  | [], options => options
  | arg :: argv, options =>
      if isOptionName arg then
        if arg = ascii "--check-rdb" then catOptions argv options
        else
          catOptions argv
            ((if options = [] then [] else options ++ [LF]) ++ arg.drop 2 ++ [32])
      else catOptions argv (options ++ sdscatrepr arg ++ [32])

/-- The file that is named first, and the text of the options. -/
def commandOptions : List Bytes → Option Bytes × Bytes
  | [] => (none, [])
  | first :: argv =>
      if isOptionName first then (none, catOptions (first :: argv) [])
      else (some first, catOptions argv [])

section Start

variable {τ σ : Type} (env : RedisConfig σ) (assign : BlogdOption → Bytes → τ → τ)

/-- `loadServerConfig` with options. -/
def loadServerConfigOptions (depth : Nat) (filename : Option Bytes) (options : Bytes)
    (st : Loading τ σ) : Except ConfigExit (Loading τ σ) :=
  match filename with
  | none => loadServerConfigFromString env assign depth (LF :: options) st
  | some filename =>
      match env.fopen st.rest filename with
      | none => .error (.cannotOpen filename)
      | some data =>
          loadServerConfigFromString env assign depth
            (readLines data.length data ++ LF :: options) st

/-- First arguments with which `main` does something else and exits. -/
def otherPrograms : List Bytes :=
  [ascii "-v", ascii "--version", ascii "--help", ascii "-h", ascii "--test-memory"]

/-- What `main` does with its arguments before it starts to serve. Without any it leaves the
defaults. -/
def loadCommandLine (depth : Nat) (argv : List Bytes) (st : Loading τ σ) :
    Option (Except ConfigExit (Loading τ σ)) :=
  if argv = [] then some (.ok st)
  else if argv.headD [] ∈ otherPrograms then none
  else
    some (loadServerConfigOptions env assign depth (commandOptions argv).1
      (commandOptions argv).2 st)

end Start

/-- An option as it is given: a word, and arguments that are no options. -/
structure GivenOption where
  name : Bytes
  args : List Bytes
  name_ne_nil : name ≠ []
  plain : ∀ c ∈ name, isPlain c = true
  noComment : name.head? ≠ some 35
  noCheck : name ≠ ascii "check-rdb"
  values : ∀ arg ∈ args, isOptionName arg = false

namespace GivenOption

def argv (given : GivenOption) : List Bytes := (45 :: 45 :: given.name) :: given.args

/-- The line of the option, without the blank at its end. -/
def line (given : GivenOption) : Bytes :=
  given.name ++ given.args.flatMap fun arg => 32 :: sdscatrepr arg

end GivenOption

/-! ## The text of the options -/

theorem catOptions_values {args : List Bytes} (hargs : ∀ arg ∈ args, isOptionName arg = false)
    (argv : List Bytes) (options : Bytes) :
    catOptions (args ++ argv) (options ++ [32]) =
      catOptions argv (options ++ (args.flatMap fun arg => 32 :: sdscatrepr arg) ++ [32]) := by
  induction args generalizing options with
  | nil => rw [List.flatMap_nil, List.append_nil, List.nil_append]
  | cons arg args ih =>
      obtain ⟨harg, hargs⟩ := List.forall_mem_cons.mp hargs
      rw [List.cons_append, catOptions, harg, if_neg Bool.false_ne_true, ih hargs]
      simp only [List.flatMap_cons, List.append_assoc, List.cons_append, List.nil_append]

theorem catOptions_argv (given : GivenOption) (argv : List Bytes) (options : Bytes) :
    catOptions (given.argv ++ argv) options =
      catOptions argv ((if options = [] then [] else options ++ [LF]) ++ given.line ++ [32]) := by
  have hname : isOptionName (45 :: 45 :: given.name) = true := rfl
  have hcheck : (45 :: 45 :: given.name : Bytes) ≠ ascii "--check-rdb" := by
    intro h
    exact given.noCheck (List.cons.inj (List.cons.inj h).2).2
  rw [GivenOption.argv, List.cons_append, catOptions, if_pos hname, if_neg hcheck,
    catOptions_values given.values, GivenOption.line]
  simp only [List.append_assoc]
  rfl

theorem catOptions_append {options : Bytes} (hoptions : options ≠ []) (given : List GivenOption) :
    catOptions (given.flatMap GivenOption.argv) options =
      options ++ given.flatMap fun g : GivenOption => LF :: g.line ++ [32] := by
  induction given generalizing options with
  | nil => exact (List.append_nil options).symm
  | cons g given ih =>
      rw [List.flatMap_cons, catOptions_argv, if_neg hoptions, ih (by simp)]
      simp only [List.flatMap_cons, List.append_assoc, List.cons_append, List.nil_append]

/-- Each option is a line behind the text of the file. -/
theorem append_catOptions (text : Bytes) {given : List GivenOption} (hgiven : given ≠ []) :
    text ++ LF :: catOptions (given.flatMap GivenOption.argv) [] =
      text ++ given.flatMap fun g : GivenOption => LF :: g.line ++ [32] := by
  cases given with
  | nil => exact absurd rfl hgiven
  | cons g given =>
      rw [List.flatMap_cons, catOptions_argv, if_pos rfl, catOptions_append (by simp)]
      simp only [List.flatMap_cons, List.append_assoc, List.cons_append, List.nil_append]

/-! ## The arguments are read back -/

theorem inToken_repr_append {value rest : Bytes} (hrest : closes rest = true) :
    inToken [] (sdscatrepr value ++ rest) = some (value, rest) := by
  have hquote : ¬ ((34 : UInt8) = 32 ∨ (34 : UInt8) = LF ∨ (34 : UInt8) = CR ∨
      (34 : UInt8) = 9) := by
    decide
  have hquotes : ∀ current, inQuotes 0 current (value.flatMap reprByte ++ 34 :: rest) =
      some (current ++ value, rest) := by
    induction value with
    | nil =>
        intro current
        simp [inQuotes, hrest]
    | cons c value ih =>
        intro current
        rw [List.flatMap_cons, List.append_assoc, inQuotes_reprByte, ih, List.append_assoc]
        rfl
  have htext : sdscatrepr value ++ rest = 34 :: (value.flatMap reprByte ++ 34 :: rest) := by
    simp [sdscatrepr]
  rw [htext, inToken, if_neg hquote, if_pos rfl, hquotes]
  rfl

theorem closes_reprs (args : List Bytes) :
    closes (args.flatMap fun arg => 32 :: sdscatrepr arg) = true := by
  cases args <;> rfl

theorem splitArgs_reprs {args : List Bytes} {fuel : Nat} (hfuel : args.length < fuel) :
    splitArgs fuel (args.flatMap fun arg => 32 :: sdscatrepr arg) = some args := by
  induction args generalizing fuel with
  | nil =>
      cases fuel with
      | zero => cases hfuel
      | succ fuel => rfl
  | cons arg args ih =>
      cases fuel with
      | zero => cases hfuel
      | succ fuel =>
          have hdrop : ((arg :: args).flatMap fun arg => 32 :: sdscatrepr arg).dropWhile isspace =
              sdscatrepr arg ++ args.flatMap fun arg => 32 :: sdscatrepr arg := rfl
          have hne : sdscatrepr arg ++ (args.flatMap fun arg => 32 :: sdscatrepr arg) ≠ [] :=
            List.cons_ne_nil _ _
          rw [splitArgs, hdrop, if_neg hne, inToken_repr_append (closes_reprs args)]
          change (splitArgs fuel _).map _ = _
          rw [ih (Nat.lt_of_succ_lt_succ hfuel)]
          rfl

theorem splitArgs_blank (fuel : Nat) (line : Bytes) :
    splitArgs fuel (32 :: line) = splitArgs fuel line := by
  cases fuel <;> rfl

namespace GivenOption

theorem clean_line (given : GivenOption) : Clean given.line := by
  have hname := (writes_word given.name_ne_nil given.plain).clean
  refine hname.append ⟨?_, ?_⟩
  · rw [List.mem_flatMap]
    rintro ⟨arg, -, hmem⟩
    obtain heq | hmem := List.mem_cons.mp hmem
    · cases heq
    · exact (writes_sdscatrepr arg).clean.newline hmem
  · rw [List.mem_flatMap]
    rintro ⟨arg, -, hmem⟩
    obtain heq | hmem := List.mem_cons.mp hmem
    · cases heq
    · exact (writes_sdscatrepr arg).clean.nul hmem

theorem sdssplitargs_line (given : GivenOption) :
    sdssplitargs given.line = some (given.name :: given.args) := by
  rw [sdssplitargs_eq given.clean_line.nul (given.args.length + 2), ← Nat.add_assoc]
  have hargs : splitArgs (given.line.length + given.args.length + 1)
      (given.args.flatMap fun arg => 32 :: sdscatrepr arg) = some given.args :=
    splitArgs_reprs (by omega)
  have htoken : ∃ rest, inToken [] given.line = some (given.name, rest) ∧
      splitArgs (given.line.length + given.args.length + 1) rest = some given.args := by
    generalize given.line.length + given.args.length + 1 = fuel at hargs
    unfold line
    cases hgiven : given.args with
    | nil =>
        rw [hgiven] at hargs
        refine ⟨[], ?_, hargs⟩
        rw [List.flatMap_nil, List.append_nil]
        exact (inToken_plain given.plain []).1
    | cons arg args =>
        rw [hgiven, List.flatMap_cons, List.cons_append, splitArgs_blank] at hargs
        exact ⟨_, (inToken_plain given.plain []).2 _, hargs⟩
  obtain ⟨rest, hfirst, hrest⟩ := htoken
  obtain ⟨c, name, hname⟩ := List.exists_cons_of_ne_nil given.name_ne_nil
  have hdrop : given.line.dropWhile isspace = given.line := by
    have hc : isspace c = false := by
      have hword := (writes_word given.name_ne_nil given.plain).first
      rwa [hname] at hword
    rw [line, hname, List.cons_append, List.dropWhile_cons, hc]
    rfl
  have hne : given.line ≠ [] := by
    rw [line, hname]
    exact List.cons_ne_nil _ _
  rw [splitArgs, hdrop, if_neg hne, hfirst]
  change (splitArgs (given.line.length + given.args.length + 1) rest).map _ = _
  rw [hrest]
  rfl

/-- The line with the blank at its end is trimmed. -/
theorem sdstrim_line (given : GivenOption) :
    sdstrim (given.line ++ [32]) lineBlanks = given.line := by
  obtain ⟨c, name, hname⟩ := List.exists_cons_of_ne_nil given.name_ne_nil
  have hhead : given.line.head? = some c := by
    rw [line, hname]
    rfl
  have hfirst : inSet lineBlanks c = false := by
    have hplain := given.plain c (hname ▸ List.mem_cons_self)
    obtain ⟨d, hd, hblank⟩ :=
      (writes_word (List.cons_ne_nil c []) (List.forall_mem_singleton.mpr hplain)).last
    cases hd
    exact hblank
  have hlast : ∃ d, given.line.getLast? = some d ∧ inSet lineBlanks d = false := by
    rcases List.eq_nil_or_concat given.args with hnil | ⟨args, arg, hargs⟩
    · rw [line, hnil, List.flatMap_nil, List.append_nil]
      exact (writes_word given.name_ne_nil given.plain).last
    · refine ⟨34, ?_, by decide⟩
      have hline : given.line = (given.name ++ (args.flatMap fun arg => 32 :: sdscatrepr arg) ++
          32 :: 34 :: arg.flatMap reprByte) ++ [34] := by
        simp [line, hargs, sdscatrepr]
      rw [hline, List.getLast?_concat]
  obtain ⟨d, hgetLast, hd⟩ := hlast
  have htrim : sdstrim given.line lineBlanks = given.line :=
    sdstrim_eq_self hhead hgetLast hfirst hd
  obtain ⟨rest, hrest⟩ : ∃ rest, given.line = c :: rest := by
    rw [line, hname]
    exact ⟨_, rfl⟩
  have hdrop : ∀ tail, (given.line ++ tail).dropWhile (inSet lineBlanks) = given.line ++ tail := by
    intro tail
    rw [hrest, List.cons_append, List.dropWhile_cons, hfirst]
    rfl
  have hself := hdrop []
  rw [List.append_nil] at hself
  rw [sdstrim, hself] at htrim
  rw [sdstrim, hdrop, List.rdropWhile_concat_pos _ _ _ (by decide), htrim]

/-- Whatever its arguments are, the line is read as the name, in lower case, and the arguments. -/
theorem argvOf_line (given : GivenOption) :
    argvOf (given.line ++ [32]) = given.name.map tolower :: given.args := by
  obtain ⟨c, name, hname⟩ := List.exists_cons_of_ne_nil given.name_ne_nil
  have hcomment : isComment given.line = false := by
    have hhash : c ≠ 35 := by
      rintro rfl
      exact given.noComment (by rw [hname]; rfl)
    have hnul : c ≠ 0 := by
      rintro rfl
      exact absurd (given.plain 0 (hname ▸ List.mem_cons_self)) (by decide)
    rw [line, hname]
    simp [isComment, hhash, hnul]
  unfold argvOf
  dsimp only
  rw [given.sdstrim_line, hcomment, given.sdssplitargs_line]
  rfl

end GivenOption

/-! ## The settings of a command line -/

/-- The settings of the arguments of a line. -/
def settingsOfArgv (included : Bytes → Settings) : List Bytes → Settings
  | [name, value] =>
      match BlogdOption.ofName (cstr name) with
      | some option => [(option, cstr value)]
      | none => if caseEqual (cstr name) (ascii "include") then included (cstr value) else []
  | _ => []

theorem settingsOfLine_eq (included : Bytes → Settings) (line : Bytes) :
    settingsOfLine included line = settingsOfArgv included (argvOf line) := by
  unfold settingsOfLine setting? include?
  rcases argvOf line with _ | ⟨name, _ | ⟨value, _ | ⟨more, rest⟩⟩⟩
  · rfl
  · rfl
  · dsimp only [settingsOfArgv]
    cases hoption : BlogdOption.ofName (cstr name) with
    | some option => rfl
    | none =>
        by_cases hinclude : caseEqual (cstr name) (ascii "include") = true
        · simp [hinclude]
        · simp [hinclude]
  · rfl

/-- What an option of the command line says. -/
def GivenOption.settings (included : Bytes → Settings) (given : GivenOption) : Settings :=
  settingsOfArgv included (given.name.map tolower :: given.args)

theorem splitOn_append_lines (text : Bytes) (given : List GivenOption) :
    (text ++ given.flatMap fun g : GivenOption => LF :: g.line ++ [32]).splitOn LF =
      text.splitOn LF ++ given.map fun g : GivenOption => g.line ++ [32] := by
  induction given generalizing text with
  | nil => rw [List.flatMap_nil, List.append_nil, List.map_nil, List.append_nil]
  | cons g given ih =>
      have hline : LF ∉ g.line ++ [32] := by
        rw [List.mem_append, not_or]
        exact ⟨g.clean_line.newline, by decide⟩
      have hsplit : (text ++ LF :: (g.line ++ [32])).splitOn LF =
          text.splitOn LF ++ [g.line ++ [32]] := by
        rw [List.splitOn_append_cons_self, List.splitOn_eq_singleton hline]
      rw [List.flatMap_cons, ← List.append_assoc, List.cons_append, ih, hsplit, List.map_cons,
        List.append_assoc]
      rfl

theorem flatMap_splitLines (included : Bytes → Settings) (text : Bytes) :
    (text.splitOn LF).flatMap (settingsOfLine included) =
      (splitLines text).flatMap (settingsOfLine included) := by
  unfold splitLines
  split
  next hnil =>
    subst hnil
    rfl
  next => rfl

/-- The settings of a text with the options behind it. -/
theorem settings_append_catOptions (included : Bytes → Settings) {text : Bytes}
    (htext : 0 ∉ text) (given : List GivenOption) :
    (splitLines (cstr (text ++ LF :: catOptions (given.flatMap GivenOption.argv) []))).flatMap
        (settingsOfLine included) =
      (splitLines (cstr text)).flatMap (settingsOfLine included) ++
        given.flatMap (GivenOption.settings included) := by
  rw [cstr_eq_self htext, ← flatMap_splitLines included text]
  by_cases hgiven : given = []
  · subst hgiven
    have hnul : (0 : UInt8) ∉ text ++ [LF] := by
      rw [List.mem_append, not_or]
      exact ⟨htext, by decide⟩
    change (splitLines (cstr (text ++ [LF]))).flatMap _ = _
    rw [cstr_eq_self hnul, ← flatMap_splitLines, List.splitOn_append_cons_self,
      List.flatMap_append]
    rfl
  · have hnul : (0 : UInt8) ∉
        text ++ given.flatMap fun g : GivenOption => LF :: g.line ++ [32] := by
      rw [List.mem_append, List.mem_flatMap, not_or]
      refine ⟨htext, ?_⟩
      rintro ⟨g, -, hmem⟩
      rw [List.mem_append, List.mem_cons] at hmem
      obtain (hnewline | hline) | hblank := hmem
      · cases hnewline
      · exact g.clean_line.nul hline
      · revert hblank
        decide
    have hlines :
        (given.map fun g : GivenOption => g.line ++ [32]).flatMap (settingsOfLine included) =
          given.flatMap (GivenOption.settings included) := by
      rw [List.flatMap_map]
      congr 1
      funext g
      rw [settingsOfLine_eq, g.argvOf_line]
      rfl
    rw [append_catOptions text hgiven, cstr_eq_self hnul, ← flatMap_splitLines,
      splitOn_append_lines, List.flatMap_append, hlines]

section Theorem

variable {σ : Type} {env : RedisConfig σ} {files : Bytes → Option Bytes}
  {given : List GivenOption} {file : Option Bytes}

theorem commandOptions_argv (hfile : ∀ name ∈ file, isOptionName name = false) :
    commandOptions (file.toList ++ given.flatMap GivenOption.argv) =
      (file, catOptions (given.flatMap GivenOption.argv) []) := by
  cases file with
  | none =>
      cases given with
      | nil => rfl
      | cons g given => rfl
  | some name =>
      have hname := hfile name rfl
      change (if isOptionName name = true then _ else _) = _
      rw [hname]
      rfl

/-- The settings that loading a command line records. -/
theorem loadServerConfigOptions_records (hfiles : ∀ rest name, env.fopen rest name = files name)
    {depth : Nat} {st st' : Loading Settings σ}
    (hload : loadServerConfigOptions env recordSetting depth file
      (catOptions (given.flatMap GivenOption.argv) []) st = .ok st') :
    st'.options = st.options ++ (file.elim [] (fileSettings files (depth + 1)) ++
      given.flatMap (GivenOption.settings (fileSettings files depth))) := by
  have hrecords : ∀ text : Bytes, 0 ∉ text →
      loadServerConfigFromString env recordSetting depth
        (text ++ LF :: catOptions (given.flatMap GivenOption.argv) []) st = .ok st' →
      st'.options = st.options ++ ((splitLines (cstr text)).flatMap (lineSettings files depth) ++
        given.flatMap (GivenOption.settings (fileSettings files depth))) := by
    intro text htext hrun
    have hsettings := loadText_records (loadServerConfig_records hfiles depth) hrun
    rwa [settings_append_catOptions _ htext] at hsettings
  cases file with
  | none => exact hrecords [] (List.not_mem_nil) hload
  | some name =>
      rw [loadServerConfigOptions, hfiles] at hload
      rw [Option.elim_some, fileSettings]
      cases hdata : files name with
      | none =>
          rw [hdata] at hload
          cases hload
      | some data =>
          rw [hdata] at hload
          exact hrecords _ (nul_notMem_readLines _ _) hload

theorem loadServerConfigOptions_follows {τ τ' : Type} {assign : BlogdOption → Bytes → τ → τ}
    {assign' : BlogdOption → Bytes → τ' → τ'} {f : τ → τ'}
    (hf : ∀ option value options, f (assign option value options) =
      assign' option value (f options)) (depth : Nat) (options : Bytes) :
    Follows f (loadServerConfigOptions env assign depth file options)
      (loadServerConfigOptions env assign' depth file options) := by
  intro st
  cases file with
  | none => exact loadServerConfigFromString_follows hf depth _ st
  | some name =>
      unfold loadServerConfigOptions
      have hrest : (st.map f).rest = st.rest := rfl
      dsimp only
      rw [hrest]
      cases env.fopen st.rest name with
      | none => rfl
      | some data => exact loadServerConfigFromString_follows hf depth _ st

theorem options_of_loadServerConfigOptions
    (hfiles : ∀ rest name, env.fopen rest name = files name) {depth : Nat} {start : BlogdOptions}
    {rest : σ} {st : Loading BlogdOptions σ}
    (hload : loadServerConfigOptions env BlogdOptions.assign depth file
      (catOptions (given.flatMap GivenOption.argv) []) ⟨start, rest⟩ = .ok st) :
    st.options = applySettings start (file.elim [] (fileSettings files (depth + 1)) ++
      given.flatMap (GivenOption.settings (fileSettings files depth))) := by
  have hf : ∀ option value settings,
      applySettings start (recordSetting option value settings) =
        BlogdOptions.assign option value (applySettings start settings) := by
    intro option value settings
    simp [applySettings, recordSetting]
  have hfollows := @loadServerConfigOptions_follows _ env file _ _ _ _ _ hf depth
    (catOptions (given.flatMap GivenOption.argv) []) ⟨[], rest⟩
  cases hrecord : loadServerConfigOptions env recordSetting depth file
      (catOptions (given.flatMap GivenOption.argv) []) ⟨[], rest⟩ with
  | error e =>
      rw [hrecord] at hfollows
      exact absurd (hload.symm.trans hfollows) (by simp [Except.map])
  | ok st' =>
      rw [hrecord] at hfollows
      have hst := hload.symm.trans hfollows
      simp only [Except.map, Except.ok.injEq] at hst
      have hsettings := loadServerConfigOptions_records hfiles hrecord
      rw [hst]
      change applySettings start st'.options = _
      rw [hsettings, List.nil_append]

/-- A server that is started with a file and options has, for each option of the blog, the value
that the command line gives it last, else the one that the file and those it includes give it last,
else the one it had. The values are those of the command line byte for byte, also where they
contain blanks, quotes or newlines. -/
theorem commandLine_overrides (hfiles : ∀ rest name, env.fopen rest name = files name)
    (hfile : ∀ name ∈ file, isOptionName name = false) {depth : Nat} {start : BlogdOptions}
    {rest : σ} {st : Loading BlogdOptions σ}
    (hload : loadCommandLine env BlogdOptions.assign depth
      (file.toList ++ given.flatMap GivenOption.argv) ⟨start, rest⟩ = some (.ok st))
    (option : BlogdOption) :
    st.options.get option =
      ((valuesOf option (file.elim [] (fileSettings files (depth + 1)) ++
        given.flatMap (GivenOption.settings (fileSettings files depth)))).getLast?.map
          option.parse).getD (start.get option) := by
  unfold loadCommandLine at hload
  split at hload
  next hnil =>
    obtain ⟨hnone, hempty⟩ := List.append_eq_nil_iff.mp hnil
    obtain rfl := Option.toList_eq_nil_iff.mp hnone
    have hgiven : given = [] := by
      cases given with
      | nil => rfl
      | cons g given => cases hempty
    subst hgiven
    cases hload
    rfl
  next =>
    split at hload
    next => cases hload
    next =>
      rw [commandOptions_argv hfile, Option.some.injEq] at hload
      rw [options_of_loadServerConfigOptions hfiles hload, get_applySettings]

end Theorem

/-- A directory whose name has blanks, quotes and a newline in it. -/
def quotedDir : Bytes := ascii "my \"posts\"\n"

def dirOption : GivenOption where
  name := ascii "Content-Dir"
  args := [quotedDir]
  name_ne_nil := List.cons_ne_nil _ _
  plain := List.all_eq_true.mp rfl
  noComment := by decide
  noCheck := by decide
  values := List.forall_mem_singleton.mpr rfl

def oneFile (name : Bytes) : Option Bytes :=
  if name = ascii "blog.conf" then some (ascii "per-page 3\ncontent-dir posts\n") else none

theorem commandLine_overrides_quoted :
    ∃ st, loadCommandLine ⟨fun _ rest => .ok rest, fun _ => oneFile, fun _ => false⟩
        BlogdOptions.assign 0 [ascii "blog.conf", ascii "--Content-Dir", quotedDir]
        ⟨initServerConfig, ()⟩ = some (.ok st) ∧
      st.options.get .contentDir = .text (some quotedDir) ∧
      st.options.get .perPage = .number 3 := by
  have heval : ((loadCommandLine ⟨fun _ rest => .ok rest, fun _ => oneFile, fun _ => false⟩
      BlogdOptions.assign 0 [ascii "blog.conf", ascii "--Content-Dir", quotedDir]
      ⟨initServerConfig, ()⟩).bind Except.toOption).isSome = true := by
    decide +kernel
  obtain ⟨st, hst⟩ := Option.isSome_iff_exists.mp heval
  obtain ⟨loaded, hload, hst⟩ := Option.bind_eq_some_iff.mp hst
  have hok : loaded = .ok st := by
    cases loaded with
    | error e => cases hst
    | ok st' => rw [Option.some.inj hst]
  rw [hok] at hload
  have hvalue := @commandLine_overrides Unit
    ⟨fun _ rest => .ok rest, fun _ => oneFile, fun _ => false⟩ oneFile [dirOption]
    (some (ascii "blog.conf")) (fun _ _ => rfl) (fun name hname => by cases hname; rfl) 0
    initServerConfig () st hload
  exact ⟨st, hload, (hvalue .contentDir).trans (by decide +kernel),
    (hvalue .perPage).trans (by decide +kernel)⟩

end Blogd
