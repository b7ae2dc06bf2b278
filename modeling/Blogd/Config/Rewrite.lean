import Blogd.Config.Load
import Blogd.Foundation.Slots

/-! # Rewriting a configuration

The old file is read line by line, and each option remembers the numbers of its lines. An option
is written to its first line, or behind the others if it has none and differs from its default.
Lines of an option that are left over are made empty. The options of Redis are rewritten in the same
way, with lines of their own: they are a parameter.
-/

namespace Blogd

/-! ## The state of a rewrite -/

/-- `struct rewriteConfigState`. An option that is not in the dictionary has no lines. Two names are
the same if their bytes are: the hash of the dictionary sees them all, and its comparison, which
stops at a NUL, is not asked for names in different buckets. -/
structure RewriteState where
  optionToLine : Bytes → List Nat
  rewritten : List Bytes
  lines : List Bytes
  hasTail : Bool

/-- `REDIS_CONFIG_REWRITE_SIGNATURE` -/
def rewriteSignature : Bytes := ascii "# Generated by CONFIG REWRITE"

def rewriteConfigAppendLine (state : RewriteState) (line : Bytes) : RewriteState :=
  { state with lines := state.lines ++ [line] }

def rewriteConfigAddLineNumberToOption (state : RewriteState) (option : Bytes) (linenum : Nat) :
    RewriteState :=
  { state with optionToLine := fun other =>
      if other = option then state.optionToLine other ++ [linenum] else state.optionToLine other }

def rewriteConfigMarkAsProcessed (state : RewriteState) (option : Bytes) : RewriteState :=
  if option ∈ state.rewritten then state else { state with rewritten := option :: state.rewritten }

/-- The buffers that `fgets` fills from a file, of at most `CONFIG_MAX_LINE` bytes. -/
def fgetsAll : Nat → Bytes → List Bytes
  | 0, _ => []
  | fuel + 1, data =>
      if data = [] then [] else (fgets 1024 data).1 :: fgetsAll fuel (fgets 1024 data).2

/-- One buffer of the old file. A line of blanks that `sdstrim` does not know has no first
argument, and the one that is read for it was never written. -/
def readOldLine (state : RewriteState) (buf : Bytes) : Except Fault RewriteState :=
  let line := sdstrim (cstr buf) lineBlanks
  if isComment line then
    .ok { rewriteConfigAppendLine state line with
      hasTail := state.hasTail || cstr line = rewriteSignature }
  else
    match sdssplitargs line with
    | none => .ok (rewriteConfigAppendLine state (ascii "# ??? " ++ line))
    | some [] => .error .wildPointer
    | some (name :: _) =>
        .ok (rewriteConfigAddLineNumberToOption (rewriteConfigAppendLine state line)
          (name.map tolower) state.lines.length)

def readOldLines (state : RewriteState) : List Bytes → Except Fault RewriteState
  | [] => .ok state
  | buf :: bufs =>
      match readOldLine state buf with
      | .ok state => readOldLines state bufs
      | .error e => .error e

/-- `rewriteConfigReadOldFile`, where a file that does not exist is read as an empty one. -/
def rewriteConfigReadOldFile (data : Bytes) : Except Fault RewriteState :=
  readOldLines ⟨fun _ => [], [], [], false⟩ (fgetsAll data.length data)

/-! ## Writing options -/

def rewriteConfigRewriteLine (state : RewriteState) (option line : Bytes) (force : Bool) :
    RewriteState :=
  let state := rewriteConfigMarkAsProcessed state option
  match state.optionToLine option with
  | linenum :: linenums =>
      { state with
        optionToLine := fun other => if other = option then linenums else state.optionToLine other
        lines := state.lines.set linenum line }
  | [] =>
      if !force then state
      else if state.hasTail then rewriteConfigAppendLine state line
      else
        rewriteConfigAppendLine
          { rewriteConfigAppendLine state rewriteSignature with hasTail := true } line

def rewriteConfigBytesOption (state : RewriteState) (option : Bytes) (value defvalue : Nat) :
    RewriteState :=
  rewriteConfigRewriteLine state option (option ++ 32 :: rewriteConfigFormatMemory value)
    (value ≠ defvalue)

/-- `rewriteConfigStringOption`, where NULL is `none`. -/
def rewriteConfigStringOption (state : RewriteState) (option : Bytes)
    (value defvalue : Option Bytes) : RewriteState :=
  match value with
  | none => rewriteConfigMarkAsProcessed state option
  | some value =>
      rewriteConfigRewriteLine state option (option ++ 32 :: sdscatrepr value)
        (defvalue ≠ some value)

/-! ## The new text -/

def rewriteConfigRemoveOrphaned (state : RewriteState) : RewriteState :=
  { state with
    optionToLine := fun option =>
      if option ∈ state.rewritten then [] else state.optionToLine option
    lines := state.lines.mapIdx fun linenum line =>
      if state.rewritten.any fun option => linenum ∈ state.optionToLine option then [] else line }

/-- The loop of `rewriteConfigGetContentFromState`, in which empty lines that follow each other
become one. -/
def contentFromLines : Bool → List Bytes → Bytes
  | _, [] => []
  | wasEmpty, line :: lines =>
      if line = [] then
        if wasEmpty then contentFromLines wasEmpty lines else LF :: contentFromLines true lines
      else line ++ LF :: contentFromLines false lines

def rewriteConfigGetContentFromState (state : RewriteState) : Bytes :=
  contentFromLines false state.lines

/-- What is done for an option: it is only marked, or a line is written for it. -/
inductive RewriteOp
  | mark (option : Bytes)
  | line (option line : Bytes) (force : Bool)

def RewriteState.apply (state : RewriteState) : RewriteOp → RewriteState
  | .mark option => rewriteConfigMarkAsProcessed state option
  | .line option line force => rewriteConfigRewriteLine state option line force

/-- The lines in the middle of `rewriteConfig`, which are for the options of the blog. -/
def rewriteBlogdOptions (options : BlogdOptions) (state : RewriteState) : RewriteState :=
  let state := rewriteConfigStringOption state (ascii "content-dir") (some options.contentDir)
    (some (ascii "contents"))
  -- the source has the content directory here too
  let state := rewriteConfigStringOption state (ascii "public-dir") (some options.contentDir)
    (some (ascii "public"))
  let state := rewriteConfigStringOption state (ascii "reload-content-query")
    options.reloadContentQuery (some (ascii "secret-reload"))
  let state := rewriteConfigBytesOption state (ascii "per-page") options.perPage 10
  rewriteConfigBytesOption state (ascii "markdown-compile") options.markdownCompile 0

/-- The state at the end of `rewriteConfig`, with what is done for the options of Redis before and
after those of the blog. -/
def rewriteState (first last : List RewriteOp) (options : BlogdOptions) (old : Bytes) :
    Except Fault RewriteState :=
  match rewriteConfigReadOldFile old with
  | .error e => .error e
  | .ok state =>
      let state := first.foldl RewriteState.apply state
      let state := rewriteBlogdOptions options state
      let state := last.foldl RewriteState.apply state
      .ok (rewriteConfigRemoveOrphaned state)

/-- The text that `rewriteConfig` writes to the file. -/
def rewriteConfig (first last : List RewriteOp) (options : BlogdOptions) (old : Bytes) :
    Except Fault Bytes :=
  (rewriteState first last options old).map rewriteConfigGetContentFromState

end Blogd
