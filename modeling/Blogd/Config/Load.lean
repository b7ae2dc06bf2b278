import Blogd.Config.Arguments
import Blogd.Config.Memory

/-! # Loading a configuration

Each line of a configuration is a directive. Five of them set the options of the blog, and an
`include` loads another file in its place. All others belong to Redis. They cannot reach the five
options, and the five are never checked: a text that is accepted can leave an option unset.
-/

namespace Blogd

/-! ## The options of the blog -/

inductive BlogdOption
  | contentDir
  | publicDir
  | perPage
  | reloadContentQuery
  | markdownCompile
deriving DecidableEq, Repr

def BlogdOption.name : BlogdOption → Bytes
  | .contentDir => ascii "content-dir"
  | .publicDir => ascii "public-dir"
  | .perPage => ascii "per-page"
  | .reloadContentQuery => ascii "reload-content-query"
  | .markdownCompile => ascii "markdown-compile"

def BlogdOption.all : List BlogdOption :=
  [.contentDir, .publicDir, .perPage, .reloadContentQuery, .markdownCompile]

/-- The option whose name `strcasecmp` finds equal. -/
def BlogdOption.ofName (name : Bytes) : Option BlogdOption :=
  BlogdOption.all.find? fun option => caseEqual name option.name

/-- The fields of the server for them. The last two are unsigned integers of 32 bits. -/
structure BlogdOptions where
  contentDir : Bytes
  publicDir : Bytes
  reloadContentQuery : Option Bytes
  perPage : Nat
  markdownCompile : Nat
deriving DecidableEq, Repr

/-- `initServerConfig`, which sets the first two. The others are zero in a new process. -/
def initServerConfig : BlogdOptions := ⟨ascii "contents", ascii "public", none, 0, 0⟩

/-- What a directive does to the options, with its argument as a C string. -/
def BlogdOptions.assign (option : BlogdOption) (value : Bytes) (options : BlogdOptions) :
    BlogdOptions :=
  match option with
  | .contentDir => { options with contentDir := value }
  | .publicDir => { options with publicDir := value }
  | .perPage => { options with perPage := unsignedInt (memtoll value) }
  | .reloadContentQuery => { options with reloadContentQuery := some value }
  | .markdownCompile => { options with markdownCompile := unsignedInt (memtoll value) }

/-! ## The loader -/

/-- How the process ends when it does not accept a configuration. -/
inductive ConfigExit
  | fatal (linenum : Nat) (line err : Bytes)
  | cannotOpen (filename : Bytes)
  | slaveofInCluster
  /-- Files include each other. -/
  | endless
deriving DecidableEq, Repr

/-- The directives of Redis, on the rest of the server's state, and the files that can be included.
A relative name depends on the working directory, which is part of that state. -/
structure RedisConfig (σ : Type) where
  directive : List Bytes → σ → Except Bytes σ
  fopen : σ → Bytes → Option Bytes
  clusterSlave : σ → Bool

/-- The state while a configuration is loaded: the options, in some representation that can be
assigned to, and the rest of the server. -/
structure Loading (τ σ : Type) where
  options : τ
  rest : σ
deriving DecidableEq, Repr

section Load

variable {τ σ : Type} (env : RedisConfig σ) (assign : BlogdOption → Bytes → τ → τ)

def unbalancedQuotes : Bytes := ascii "Unbalanced quotes in configuration line"

def badDirective : Bytes := ascii "Bad directive or wrong number of arguments"

/-- The chain of directives, for arguments the first of which is in lower case. -/
def loadDirective (load : Bytes → Loading τ σ → Except ConfigExit (Loading τ σ)) (linenum : Nat)
    (line : Bytes) (argv : List Bytes) (st : Loading τ σ) : Except ConfigExit (Loading τ σ) :=
  let name := cstr (argv.headD [])
  let value := cstr (argv.getD 1 [])
  match BlogdOption.ofName name with
  | some option =>
      if argv.length = 2 then .ok { st with options := assign option value st.options }
      else .error (.fatal linenum line badDirective)
  | none =>
      if caseEqual name (ascii "include") then
        if argv.length = 2 then load value st
        else .error (.fatal linenum line badDirective)
      else
        match env.directive argv st.rest with
        | .ok rest => .ok { st with rest := rest }
        | .error err => .error (.fatal linenum line err)

/-- One line. -/
def loadLine (load : Bytes → Loading τ σ → Except ConfigExit (Loading τ σ)) (linenum : Nat)
    (line : Bytes) (st : Loading τ σ) : Except ConfigExit (Loading τ σ) :=
  let line := sdstrim line lineBlanks
  if isComment line then .ok st
  else
    match sdssplitargs line with
    | none => .error (.fatal linenum line unbalancedQuotes)
    | some [] => .ok st
    | some (name :: args) =>
        loadDirective env assign load linenum line (name.map tolower :: args) st

def loadLines (load : Bytes → Loading τ σ → Except ConfigExit (Loading τ σ)) :
    Nat → List Bytes → Loading τ σ → Except ConfigExit (Loading τ σ)
  | _, [], st => .ok st
  | linenum, line :: lines, st =>
      match loadLine env assign load linenum line st with
      | .ok st => loadLines load (linenum + 1) lines st
      | .error e => .error e

/-- The lines of a text and the check behind them. -/
def loadText (load : Bytes → Loading τ σ → Except ConfigExit (Loading τ σ)) (text : Bytes)
    (st : Loading τ σ) : Except ConfigExit (Loading τ σ) :=
  match loadLines env assign load 1 (splitLines (cstr text)) st with
  | .ok st => if env.clusterSlave st.rest then .error .slaveofInCluster else .ok st
  | .error e => .error e

/-- `loadServerConfig` of a file, at which others are included at most `depth` deep. -/
def loadServerConfig : Nat → Bytes → Loading τ σ → Except ConfigExit (Loading τ σ)
  | 0, _, _ => .error .endless
  | depth + 1, filename, st =>
      match env.fopen st.rest filename with
      | none => .error (.cannotOpen filename)
      | some data => loadText env assign (loadServerConfig depth) (readLines data.length data) st

/-- `loadServerConfigFromString` -/
def loadServerConfigFromString (depth : Nat) (text : Bytes) (st : Loading τ σ) :
    Except ConfigExit (Loading τ σ) :=
  loadText env assign (loadServerConfig env assign depth) text st

end Load

/-! ## Representations of the options -/

section Representations

variable {τ τ' σ : Type}

def Loading.map (f : τ → τ') (st : Loading τ σ) : Loading τ' σ := ⟨f st.options, st.rest⟩

/-- Two programs do the same to two representations of the options. -/
def Follows (f : τ → τ') (program : Loading τ σ → Except ConfigExit (Loading τ σ))
    (program' : Loading τ' σ → Except ConfigExit (Loading τ' σ)) : Prop :=
  ∀ st, program' (st.map f) = (program st).map (Loading.map f)

variable {env : RedisConfig σ} {assign : BlogdOption → Bytes → τ → τ}
  {assign' : BlogdOption → Bytes → τ' → τ'} {f : τ → τ'}
  {load : Bytes → Loading τ σ → Except ConfigExit (Loading τ σ)}
  {load' : Bytes → Loading τ' σ → Except ConfigExit (Loading τ' σ)}
  (hf : ∀ option value options, f (assign option value options) = assign' option value (f options))

include hf

section Text

variable (hload : ∀ filename, Follows f (load filename) (load' filename))

include hload

theorem loadDirective_follows (linenum : Nat) (line : Bytes) (argv : List Bytes) :
    Follows f (loadDirective env assign load linenum line argv)
      (loadDirective env assign' load' linenum line argv) := by
  intro st
  unfold loadDirective
  dsimp only
  cases BlogdOption.ofName (cstr (argv.headD [])) with
  | some option =>
      dsimp only
      split
      next =>
        rw [Except.map, Loading.map, Loading.map, hf]
      next => rfl
  | none =>
      dsimp only
      split
      next =>
        split
        next => exact hload _ st
        next => rfl
      next =>
        have hrest : (st.map f).rest = st.rest := rfl
        rw [hrest]
        cases env.directive argv st.rest <;> rfl

theorem loadLine_follows (linenum : Nat) (line : Bytes) :
    Follows f (loadLine env assign load linenum line)
      (loadLine env assign' load' linenum line) := by
  intro st
  unfold loadLine
  dsimp only
  split
  next => rfl
  next =>
    split
    next => rfl
    next => rfl
    next => exact loadDirective_follows hf hload linenum _ _ st

theorem loadLines_follows (linenum : Nat) (lines : List Bytes) :
    Follows f (loadLines env assign load linenum lines)
      (loadLines env assign' load' linenum lines) := by
  induction lines generalizing linenum with
  | nil => exact fun _ => rfl
  | cons line lines ih =>
      intro st
      rw [loadLines, loadLines, loadLine_follows hf hload linenum line st]
      cases loadLine env assign load linenum line st with
      | error e => rfl
      | ok st => exact ih (linenum + 1) st

theorem loadText_follows (text : Bytes) :
    Follows f (loadText env assign load text) (loadText env assign' load' text) := by
  intro st
  rw [loadText, loadText, loadLines_follows hf hload 1 _ st]
  cases loadLines env assign load 1 (splitLines (cstr text)) st with
  | error e => rfl
  | ok st =>
      have hrest : (st.map f).rest = st.rest := rfl
      simp only [Except.map, hrest]
      split <;> rfl

end Text

theorem loadServerConfig_follows (depth : Nat) (filename : Bytes) :
    Follows f (loadServerConfig env assign depth filename)
      (loadServerConfig env assign' depth filename) := by
  induction depth generalizing filename with
  | zero => exact fun _ => rfl
  | succ depth ih =>
      intro st
      have hrest : (st.map f).rest = st.rest := rfl
      rw [loadServerConfig, loadServerConfig, hrest]
      cases env.fopen st.rest filename with
      | none => rfl
      | some data => exact loadText_follows hf ih _ st

theorem loadServerConfigFromString_follows (depth : Nat) (text : Bytes) :
    Follows f (loadServerConfigFromString env assign depth text)
      (loadServerConfigFromString env assign' depth text) :=
  loadText_follows hf (loadServerConfig_follows hf depth) text

end Representations

/-! ## Settings

What a text does to the five options is told by the list of their directives in the order in which
they are executed. The last one of each option counts.
-/

abbrev Settings := List (BlogdOption × Bytes)

def recordSetting (option : BlogdOption) (value : Bytes) (settings : Settings) : Settings :=
  settings ++ [(option, value)]

def applySettings (start : BlogdOptions) (settings : Settings) : BlogdOptions :=
  settings.foldl (fun options setting => options.assign setting.1 setting.2) start

/-- The values that are given to an option. -/
def valuesOf (option : BlogdOption) (settings : Settings) : List Bytes :=
  (settings.filter (·.1 = option)).map Prod.snd

@[simp] theorem valuesOf_nil (option : BlogdOption) : valuesOf option [] = [] := rfl

@[simp] theorem valuesOf_append (option : BlogdOption) (settings₁ settings₂ : Settings) :
    valuesOf option (settings₁ ++ settings₂) =
      valuesOf option settings₁ ++ valuesOf option settings₂ := by
  simp [valuesOf]

theorem valuesOf_flatMap {α : Type} (option : BlogdOption) (settings : α → Settings)
    (xs : List α) :
    valuesOf option (xs.flatMap settings) = xs.flatMap fun x => valuesOf option (settings x) := by
  induction xs with
  | nil => rfl
  | cons x xs ih => rw [List.flatMap_cons, valuesOf_append, ih, List.flatMap_cons]

/-- The value of an option, which is a text or a number. -/
inductive OptionValue
  | text (value : Option Bytes)
  | number (value : Nat)
deriving DecidableEq, Repr

/-- The value that an argument is read as. -/
def BlogdOption.parse (option : BlogdOption) (value : Bytes) : OptionValue :=
  match option with
  | .contentDir | .publicDir | .reloadContentQuery => .text (some value)
  | .perPage | .markdownCompile => .number (unsignedInt (memtoll value))

def BlogdOptions.get (options : BlogdOptions) : BlogdOption → OptionValue
  | .contentDir => .text (some options.contentDir)
  | .publicDir => .text (some options.publicDir)
  | .perPage => .number options.perPage
  | .reloadContentQuery => .text options.reloadContentQuery
  | .markdownCompile => .number options.markdownCompile

theorem BlogdOptions.eq_of_get {options options' : BlogdOptions}
    (hget : ∀ option, options.get option = options'.get option) : options = options' := by
  have hcontent := hget .contentDir
  have hpublic := hget .publicDir
  have hpage := hget .perPage
  have hquery := hget .reloadContentQuery
  have hmarkdown := hget .markdownCompile
  simp only [get, OptionValue.text.injEq, OptionValue.number.injEq, Option.some.injEq]
    at hcontent hpublic hpage hquery hmarkdown
  cases options
  cases options'
  simp_all

theorem BlogdOptions.get_assign (options : BlogdOptions) (option option' : BlogdOption)
    (value : Bytes) : (options.assign option value).get option' =
      if option = option' then option.parse value else options.get option' := by
  cases option <;> cases option' <;> rfl

/-- The last value that is given to an option counts. -/
theorem get_applySettings (start : BlogdOptions) (settings : Settings) (option : BlogdOption) :
    (applySettings start settings).get option =
      ((valuesOf option settings).getLast?.map option.parse).getD (start.get option) := by
  induction settings using List.reverseRecOn with
  | nil => rfl
  | append_singleton settings setting ih =>
      obtain ⟨changed, value⟩ := setting
      have hlast : applySettings start (settings ++ [(changed, value)]) =
          (applySettings start settings).assign changed value := by
        simp [applySettings]
      rw [hlast, BlogdOptions.get_assign, valuesOf_append]
      split
      next heq =>
        subst heq
        simp [valuesOf]
      next hne =>
        rw [ih]
        simp [valuesOf, hne]

section Settings

variable {σ : Type} (env : RedisConfig σ) (depth : Nat) (text : Bytes) (rest : σ)

/-- The directives for the five options that a text and the files it includes consist of, in the
order in which they are executed. -/
def settingsOf : Settings :=
  match loadServerConfigFromString env recordSetting depth text ⟨[], rest⟩ with
  | .ok st => st.options
  | .error _ => []

variable {env depth text rest}

/-- Loading a text assigns its settings. -/
theorem options_of_load {start : BlogdOptions} {st : Loading BlogdOptions σ}
    (hload : loadServerConfigFromString env BlogdOptions.assign depth text ⟨start, rest⟩ = .ok st) :
    st.options = applySettings start (settingsOf env depth text rest) := by
  have hf : ∀ option value settings,
      applySettings start (recordSetting option value settings) =
        BlogdOptions.assign option value (applySettings start settings) := by
    intro option value settings
    simp [applySettings, recordSetting]
  have hfollows := @loadServerConfigFromString_follows _ _ _ env _ _ _ hf depth text ⟨[], rest⟩
  rw [settingsOf]
  cases hrecord : loadServerConfigFromString env recordSetting depth text ⟨[], rest⟩ with
  | error e =>
      rw [hrecord] at hfollows
      exact absurd (hload.symm.trans hfollows) (by simp [Except.map])
  | ok st' =>
      rw [hrecord] at hfollows
      have hst := hload.symm.trans hfollows
      simp only [Except.map, Except.ok.injEq] at hst
      rw [hst]
      rfl

end Settings

end Blogd
