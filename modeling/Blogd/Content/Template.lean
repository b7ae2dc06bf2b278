import Blogd.Foundation.Fault
import Blogd.Foundation.Regex

/-! # Templates

Sections are cut out of a template text by regular expressions and put into the layout by
replacing placeholders. The regular expression library and the markdown renderer are not part
of the program: they are parameters.
-/

namespace Blogd

/-- A compiled pattern: its number of capture groups, and the offsets of the groups of the
match it finds. A group that took no part has none. -/
structure Pcre where
  captureCount : Nat
  exec : Bytes → Option (Nat → Option (Nat × Nat))

/-- A render buffer: the memory behind its data pointer, of which the renderer wrote the first
`size` bytes. -/
structure RenderBuffer where
  data : Bytes
  size : Nat

/-- The libraries the program calls. -/
structure External where
  pcreCompile : Bytes → Option Pcre
  compileMarkdownContent : Bytes → RenderBuffer

/-- The pattern that a backtracking engine makes of an expression. -/
def Regex.toPcre (r : Regex) (captureCount : Nat) : Pcre :=
  ⟨captureCount, fun subject => (r.search subject).map Cursor.groups⟩

/-! ## Regular expression matches -/

def oveccount : Nat := 30

/-- The text of a group, empty when the group took no part. -/
def groupText (data : Bytes) : Option (Nat × Nat) → Bytes
  | none => []
  | some (first, last) => (data.drop first).take (last - first)

/-- `preg_match`. A pattern that does not compile ends the process. The result array is
allocated in bytes, and eight of them hold one pointer. -/
def pregMatch (ext : External) (regxp data : Bytes) : Except Fault (Option (List Bytes)) :=
  match ext.pcreCompile regxp with
  | none => .error .exit
  | some re =>
      match re.exec data with
      | none => .ok none
      | some ovector =>
          if re.captureCount * 8 > oveccount then .error .overflow
          else .ok (some ((List.range re.captureCount).map fun it =>
            groupText data (ovector (it + 1))))

/-! ## String helpers -/

/-- `strstr`: the offset of the first occurrence. -/
def strstr (needle : Bytes) : Bytes → Option Nat
  | [] => if needle = [] then some 0 else none
  | c :: rest =>
      if needle.isPrefixOf (c :: rest) then some 0 else (strstr needle rest).map (· + 1)

/-- The counting loop of `strReplace`. Every occurrence is longer than zero, so there are at
most as many as bytes. -/
def countOccurrences (rep : Bytes) : Nat → Bytes → Nat
  | 0, _ => 0
  | fuel + 1, ins =>
      match strstr rep ins with
      | none => 0
      | some k => countOccurrences rep fuel (ins.drop (k + rep.length)) + 1

/-- The copying loop of `strReplace`. -/
def copyReplacing (rep replacement : Bytes) : Nat → Bytes → Except Fault Bytes
  | 0, orig => .ok orig
  | count + 1, orig =>
      match strstr rep orig with
      | none => .error .nullPointer
      | some k => do
          let rest ← copyReplacing rep replacement count (orig.drop (k + rep.length))
          return orig.take k ++ replacement ++ rest

/-- `strReplace` with a non-empty text to replace. The lengths of the source are `int`s, with which
the result is the same for texts of less than two gigabytes (`Helper.strReplace_eq_replaced`). -/
def strReplace (rep replacement orig : Bytes) : Except Fault Bytes :=
  copyReplacing rep replacement (countOccurrences rep orig.length orig) orig

/-- `strrchr`: the offset of the last occurrence. -/
def strrchr (c : UInt8) : Bytes → Option Nat
  | [] => none
  | b :: rest =>
      match strrchr c rest with
      | some k => some (k + 1)
      | none => if b = c then some 0 else none

/-- `removeFileExt` -/
def removeFileExt (mystr : Bytes) (dot sep : UInt8) : Bytes :=
  match strrchr dot mystr with
  | none => mystr
  | some lastdot =>
      match if sep = 0 then none else strrchr sep mystr with
      | some lastsep => if lastsep < lastdot then mystr.take lastdot else mystr
      | none => mystr.take lastdot

/-! ## Files -/

/-- `fgets` with room for `n` bytes: a line or its first `n` bytes, and what follows. -/
def fgets : Nat → Bytes → Bytes × Bytes
  | 0, data => ([], data)
  | _, [] => ([], [])
  | n + 1, c :: rest =>
      if c = LF then ([c], rest) else (c :: (fgets n rest).1, (fgets n rest).2)

/-- The reading loop. `sdscat` takes each buffer up to its first NUL. -/
def readLines : Nat → Bytes → Bytes
  | 0, _ => []
  | fuel + 1, data =>
      if data = [] then [] else cstr (fgets 1024 data).1 ++ readLines fuel (fgets 1024 data).2

/-- `readFileContent` of a file, `none` when it cannot be opened. The result is never NULL. -/
def readFileContent : Option Bytes → Option Bytes
  | none => some []
  | some data => some (readLines data.length data)

/-! ## Sections -/

def sectionPattern (name : String) : Bytes :=
  ascii "@section_" ++ ascii name ++ ascii "\\s*((.|\\n)*?)\\s*@endsection"

/-- The text that marks where a value goes. -/
def placeholder (name : String) : Bytes :=
  ascii "\x7b\x7b " ++ ascii name ++ ascii " \x7d\x7d"

structure CompiledObj where
  title : Bytes
  metaDesc : Bytes
  desc : Bytes
  thumbnail : Bytes
  publishedAt : Bytes
  compiledContent : Bytes
deriving DecidableEq, Repr

/-- `matches ? matches[0] : ""` -/
def sectionText : Option (List Bytes) → Bytes
  | none => []
  | some found => found.headD []

/-- The text put in place of the content placeholder. Rendered text is read up to the first
NUL in the memory of the buffer. -/
def contentText (ext : External) (markdownCompile : Int) (useMarkdown : Bool) :
    Option (List Bytes) → Bytes
  | none => []
  | some found =>
      if markdownCompile > 0 ∧ useMarkdown then
        cstr (ext.compileMarkdownContent (found.headD [])).data
      else found.headD []

/-- `compileTemplate` -/
def compileTemplate (ext : External) (fileContent layoutContent : Bytes) (markdownCompile : Int)
    (useMarkdown : Bool) : Except Fault CompiledObj := do
  let titleMatches ← pregMatch ext (sectionPattern "title") fileContent
  let metaDescMatches ← pregMatch ext (sectionPattern "meta_description") fileContent
  let descMatches ← pregMatch ext (sectionPattern "description") fileContent
  let thumbnailMatches ← pregMatch ext (sectionPattern "thumbnail") fileContent
  let contentMatches ← pregMatch ext (sectionPattern "content") fileContent
  let publishedAtMatches ← pregMatch ext (sectionPattern "published_at") fileContent
  let compiled ← strReplace (placeholder "title") (sectionText titleMatches) layoutContent
  let compiled ← strReplace (placeholder "meta_description") (sectionText metaDescMatches)
    compiled
  let compiled ← strReplace (placeholder "content")
    (contentText ext markdownCompile useMarkdown contentMatches) compiled
  return {
    title := sectionText titleMatches
    metaDesc := sectionText metaDescMatches
    desc := sectionText descMatches
    thumbnail := sectionText thumbnailMatches
    publishedAt := sectionText publishedAtMatches
    compiledContent := compiled }

/-! ## Replacing never loses an occurrence -/

/-- The copying loop finds every occurrence the counting loop found. -/
theorem copyReplacing_isOk (rep replacement : Bytes) (fuel : Nat) (orig : Bytes) :
    ∃ result, copyReplacing rep replacement (countOccurrences rep fuel orig) orig =
      .ok result := by
  induction fuel generalizing orig with
  | zero => exact ⟨orig, rfl⟩
  | succ fuel ih =>
      cases hfound : strstr rep orig with
      | none => exact ⟨orig, by simp [countOccurrences, hfound, copyReplacing]⟩
      | some k =>
          obtain ⟨rest, hrest⟩ := ih (orig.drop (k + rep.length))
          refine ⟨orig.take k ++ replacement ++ rest, ?_⟩
          simp only [countOccurrences, hfound, copyReplacing, hrest]
          rfl

/-- What a replacement returns. -/
def replaced (rep replacement orig : Bytes) : Bytes :=
  match strReplace rep replacement orig with
  | .ok result => result
  | .error _ => []

theorem strReplace_eq (rep replacement orig : Bytes) :
    strReplace rep replacement orig = .ok (replaced rep replacement orig) := by
  obtain ⟨result, hresult⟩ := copyReplacing_isOk rep replacement orig.length orig
  have hreplace : strReplace rep replacement orig = .ok result := hresult
  simp [replaced, hreplace]

/-! ## Texts without NUL

Files are read line by line as C strings, and every text made of them is a C string again.
-/

theorem nul_notMem_groupText {data : Bytes} (hdata : 0 ∉ data) (offsets : Option (Nat × Nat)) :
    0 ∉ groupText data offsets := by
  cases offsets with
  | none => exact List.not_mem_nil
  | some pair =>
      intro hmem
      exact hdata (List.mem_of_mem_drop (List.mem_of_mem_take hmem))

theorem nul_notMem_readLines (fuel : Nat) (data : Bytes) : 0 ∉ readLines fuel data := by
  induction fuel generalizing data with
  | zero => exact List.not_mem_nil
  | succ fuel ih =>
      rw [readLines]
      split
      next => exact List.not_mem_nil
      next =>
        rw [List.mem_append, not_or]
        exact ⟨nul_not_mem_cstr _, ih _⟩

theorem nul_notMem_copyReplacing {rep replacement : Bytes} (hreplacement : 0 ∉ replacement)
    {count : Nat} {orig result : Bytes} (horig : 0 ∉ orig)
    (hcopy : copyReplacing rep replacement count orig = .ok result) : 0 ∉ result := by
  induction count generalizing orig result with
  | zero =>
      cases hcopy
      exact horig
  | succ count ih =>
      rw [copyReplacing] at hcopy
      split at hcopy
      next => cases hcopy
      next k hfound =>
        cases hrest : copyReplacing rep replacement count (orig.drop (k + rep.length)) with
        | error e =>
            rw [hrest, error_bind] at hcopy
            cases hcopy
        | ok rest =>
            rw [hrest, ok_bind, pure_eq_ok] at hcopy
            cases hcopy
            have hdrop : 0 ∉ rest := ih (fun hmem => horig (List.mem_of_mem_drop hmem)) hrest
            have htake : 0 ∉ orig.take k := fun hmem => horig (List.mem_of_mem_take hmem)
            simp only [List.mem_append, not_or]
            exact ⟨⟨htake, hreplacement⟩, hdrop⟩

theorem nul_notMem_replaced {rep replacement orig : Bytes} (hreplacement : 0 ∉ replacement)
    (horig : 0 ∉ orig) : 0 ∉ replaced rep replacement orig :=
  nul_notMem_copyReplacing hreplacement horig (strReplace_eq rep replacement orig)

end Blogd
