import Blogd.Content.Template

/-! # The buffer of the markdown renderer

The renderer puts its output into a buffer that grows by whole units and counts its bytes. It does
not end the output with a NUL, and the content of a post is then read as a string. What the
string holds behind the output is what the memory held before.
-/

namespace Blogd

/-! ## Growing buffers -/

def bufferMaxAllocSize : Nat := 1024 * 1024 * 16
def outputUnit : Nat := 64

/-- A buffer: the bytes of its block, of which the first `size` are output. A buffer without a
block has no bytes. -/
structure Buf where
  data : Bytes
  size : Nat
  unit : Nat
  size_le : size ≤ data.length
  unit_pos : 0 < unit

def Buf.asize (buf : Buf) : Nat := buf.data.length

def bufnew (unit : Nat) (hunit : 0 < unit) : Buf := ⟨[], 0, unit, Nat.le_refl 0, hunit⟩

/-- The loop of `bufgrow`, which ends as each round adds a unit. -/
def growTo (unit neosz : Nat) : Nat → Nat → Nat
  | 0, neoasz => neoasz
  | fuel + 1, neoasz => if neoasz < neosz then growTo unit neosz fuel (neoasz + unit) else neoasz

/-- `memcpy` behind the output. -/
def Buf.write (buf : Buf) (bytes : Bytes) : Buf where
  data := buf.data.take buf.size ++ bytes ++ buf.data.drop (buf.size + bytes.length)
  size := buf.size + bytes.length
  unit := buf.unit
  size_le := by
    have hsize := buf.size_le
    simp only [List.length_append, List.length_take, List.length_drop]
    omega
  unit_pos := buf.unit_pos

/-- The calls that put output into a buffer. -/
inductive BufOp
  | grow (neosz : Nat)
  | put (bytes : Bytes)
  | putc (c : UInt8)
deriving DecidableEq, Repr

def BufOp.text : BufOp → Bytes
  | .grow _ => []
  | .put bytes => bytes
  | .putc c => [c]

section Operations

variable (residual : Nat → UInt8)

/-- `bufgrow`, `none` for `BUF_ENOMEM`. A byte that `realloc` adds to the block holds what the
memory held before. -/
def bufgrow (buf : Buf) (neosz : Nat) : Option Buf :=
  if neosz > bufferMaxAllocSize then none
  else if buf.asize ≥ neosz then some buf
  else
    let neoasz := growTo buf.unit neosz neosz (buf.asize + buf.unit)
    some {
      data := buf.data ++ (List.range' buf.asize (neoasz - buf.asize)).map residual
      size := buf.size
      unit := buf.unit
      size_le := by
        rw [List.length_append]
        exact Nat.le_add_right_of_le buf.size_le
      unit_pos := buf.unit_pos }

/-- `bufput`, which drops the bytes when the buffer cannot grow. -/
def bufput (buf : Buf) (bytes : Bytes) : Buf :=
  if buf.size + bytes.length > buf.asize then
    match bufgrow residual buf (buf.size + bytes.length) with
    | none => buf
    | some grown => grown.write bytes
  else buf.write bytes

/-- `bufputc` -/
def bufputc (buf : Buf) (c : UInt8) : Buf := bufput residual buf [c]

def BufOp.apply (buf : Buf) : BufOp → Buf
  | .grow neosz => (bufgrow residual buf neosz).getD buf
  | .put bytes => bufput residual buf bytes
  | .putc c => bufputc residual buf c

/-- The buffer that `compileMarkdownContent` returns, for a renderer that makes these calls. -/
def renderMarkdown (render : Bytes → List BufOp) (content : Bytes) : Buf :=
  (render content).foldl (BufOp.apply residual) (bufnew outputUnit (by decide))

end Operations

/-- What is behind the data pointer: the block and the memory after it. -/
def Buf.toRenderBuffer (behind : Bytes) (buf : Buf) : RenderBuffer :=
  ⟨if buf.asize = 0 then [] else buf.data ++ behind, buf.size⟩

/-- The byte right behind the output, which is left over in the block or is the first one after
it. -/
def Buf.leftover (residual : Nat → UInt8) (behind : Bytes) (buf : Buf) : Option UInt8 :=
  if buf.size < buf.asize then some (residual buf.size) else behind.head?

/-! ## Output and residual memory -/

/-- The output has no NUL in it, and the rest of the block is as it was allocated. -/
structure Buf.Rendered (residual : Nat → UInt8) (buf : Buf) : Prop where
  text : 0 ∉ buf.data.take buf.size
  rest : buf.data.drop buf.size = (List.range' buf.size (buf.asize - buf.size)).map residual

theorem le_growTo {unit : Nat} (hunit : 0 < unit) {neosz fuel neoasz : Nat}
    (hfuel : neosz ≤ neoasz + fuel) : neosz ≤ growTo unit neosz fuel neoasz := by
  induction fuel generalizing neoasz with
  | zero => exact hfuel
  | succ fuel ih =>
      rw [growTo]
      split
      next => exact ih (by omega)
      next hge => exact Nat.le_of_not_lt hge

section Rendered

variable {residual : Nat → UInt8} {buf grown : Buf} {bytes : Bytes}

/-- Growing adds bytes of the residual memory until there is room. -/
theorem bufgrow_eq_some {neosz : Nat} (hgrow : bufgrow residual buf neosz = some grown) :
    ∃ n, neosz ≤ buf.asize + n ∧ grown.size = buf.size ∧
      grown.data = buf.data ++ (List.range' buf.asize n).map residual := by
  unfold bufgrow at hgrow
  split at hgrow
  next => cases hgrow
  next =>
    split at hgrow
    next hroom =>
      cases hgrow
      exact ⟨0, hroom, rfl, (List.append_nil _).symm⟩
    next =>
      cases hgrow
      have hlast : neosz ≤ growTo buf.unit neosz neosz (buf.asize + buf.unit) :=
        le_growTo buf.unit_pos (by omega)
      exact ⟨_, by omega, rfl, rfl⟩

theorem Buf.Rendered.grow (hbuf : buf.Rendered residual) {neosz : Nat}
    (hgrow : bufgrow residual buf neosz = some grown) : grown.Rendered residual := by
  obtain ⟨n, -, hsize, hdata⟩ := bufgrow_eq_some hgrow
  have hle : buf.size ≤ buf.asize := buf.size_le
  have hasize : grown.asize = buf.asize + n := by
    rw [Buf.asize, hdata, List.length_append, List.length_map, List.length_range']
    rfl
  constructor
  · rw [hdata, hsize, List.take_append_of_le_length hle]
    exact hbuf.text
  -- the new bytes go on where the residual memory of the old block ends
  · have hrange := @List.range'_append_1 buf.size (buf.asize - buf.size) n
    rw [Nat.add_sub_of_le hle] at hrange
    rw [hdata, hsize, List.drop_append_of_le_length hle, hbuf.rest, ← List.map_append, hrange,
      hasize, Nat.sub_add_comm hle]

theorem Buf.Rendered.write (hbuf : buf.Rendered residual)
    (hroom : buf.size + bytes.length ≤ buf.asize) (hbytes : 0 ∉ bytes) :
    (buf.write bytes).Rendered residual := by
  have hout : (buf.data.take buf.size ++ bytes).length = buf.size + bytes.length := by
    rw [List.length_append, List.length_take, Nat.min_eq_left buf.size_le]
  have hasize : (buf.write bytes).asize = buf.asize := by
    change (buf.data.take buf.size ++ bytes ++ buf.data.drop (buf.size + bytes.length)).length = _
    rw [List.length_append, hout, List.length_drop]
    exact Nat.add_sub_of_le hroom
  constructor
  · change 0 ∉ (buf.data.take buf.size ++ bytes ++ _).take (buf.size + bytes.length)
    rw [List.take_left' hout, List.mem_append, not_or]
    exact ⟨hbuf.text, hbytes⟩
  · rw [hasize]
    change (buf.data.take buf.size ++ bytes ++ _).drop (buf.size + bytes.length) = _
    rw [List.drop_left' hout, ← List.drop_drop, hbuf.rest, ← List.map_drop, List.drop_range',
      Nat.sub_sub, Nat.mul_one]
    rfl

theorem Buf.Rendered.put (hbuf : buf.Rendered residual) (hbytes : 0 ∉ bytes) :
    (bufput residual buf bytes).Rendered residual := by
  unfold bufput
  split
  next =>
    split
    next => exact hbuf
    next grown hgrow =>
      obtain ⟨n, hroom, hsize, hdata⟩ := bufgrow_eq_some hgrow
      refine (hbuf.grow hgrow).write ?_ hbytes
      rw [hsize, Buf.asize, hdata, List.length_append, List.length_map, List.length_range']
      exact hroom
  next hroom => exact hbuf.write (Nat.le_of_not_lt hroom) hbytes

theorem Buf.Rendered.apply (hbuf : buf.Rendered residual) {op : BufOp} (hop : 0 ∉ op.text) :
    (op.apply residual buf).Rendered residual := by
  cases op with
  | grow neosz =>
      cases hgrow : bufgrow residual buf neosz with
      | none =>
          rw [BufOp.apply, hgrow]
          exact hbuf
      | some grown =>
          rw [BufOp.apply, hgrow]
          exact hbuf.grow hgrow
  | put bytes => exact hbuf.put hop
  | putc c => exact hbuf.put hop

theorem Buf.Rendered.foldl (hbuf : buf.Rendered residual) {ops : List BufOp}
    (hops : ∀ op ∈ ops, 0 ∉ op.text) :
    (ops.foldl (BufOp.apply residual) buf).Rendered residual := by
  induction ops generalizing buf with
  | nil => exact hbuf
  | cons op ops ih =>
      exact ih (hbuf.apply (hops op List.mem_cons_self))
        fun op hop => hops op (List.mem_cons_of_mem _ hop)

theorem renderMarkdown_rendered (residual : Nat → UInt8) {render : Bytes → List BufOp}
    {content : Bytes} (hrender : ∀ op ∈ render content, 0 ∉ op.text) :
    (renderMarkdown residual render content).Rendered residual :=
  Buf.Rendered.foldl ⟨List.not_mem_nil, rfl⟩ hrender

theorem Buf.Rendered.next (hbuf : buf.Rendered residual) (behind : Bytes) :
    (buf.data ++ behind)[buf.size]? = buf.leftover residual behind := by
  rw [← List.head?_drop, List.drop_append_of_le_length buf.size_le, hbuf.rest, Buf.leftover]
  split
  next hlt =>
    rw [← Nat.sub_add_cancel (Nat.sub_pos_of_lt hlt), List.range'_succ]
    rfl
  next hge =>
    rw [Nat.sub_eq_zero_of_le (Nat.le_of_not_lt hge)]
    rfl

end Rendered

/-! ## Reading the output as a string -/

/-- The string ends right behind the first bytes of the memory when a NUL is there. -/
theorem cstr_eq_take_iff {memory : Bytes} {size : Nat} (htext : 0 ∉ memory.take size) :
    0 ∈ memory ∧ cstr memory = memory.take size ↔ memory[size]? = some 0 := by
  have hmem : 0 ∈ memory ↔ 0 ∈ memory.drop size := by
    conv_lhs => rw [← List.take_append_drop size memory]
    rw [List.mem_append, or_iff_right htext]
  have hread : cstr memory = memory.take size ++ cstr (memory.drop size) := by
    conv_lhs => rw [← List.take_append_drop size memory]
    exact cstr_append htext _
  rw [hmem, hread, ← List.head?_drop, List.append_right_eq_self]
  cases memory.drop size with
  | nil => simp
  | cons b rest =>
      by_cases hb : b = 0
      · simp [hb, cstr]
      · simp [hb, cstr]

section Inserted

variable (pcreCompile : Bytes → Option Pcre) (render : Bytes → List BufOp)
  (residual : Nat → UInt8) (behind : Bytes)

/-- The libraries with this renderer and this memory. -/
def markdownExternal : External where
  pcreCompile := pcreCompile
  compileMarkdownContent content := (renderMarkdown residual render content).toRenderBuffer behind

/-- The text that is put in place of the content is the output of the renderer. -/
structure InsertsExactly (markdownCompile : Int) (content : Bytes) : Prop where
  /-- The string that is read ends in the memory. -/
  ends : (renderMarkdown residual render content).asize ≠ 0 →
    0 ∈ (renderMarkdown residual render content).data ++ behind
  text : ∀ groups,
    contentText (markdownExternal pcreCompile render residual behind) markdownCompile true
        (some (content :: groups)) =
      (renderMarkdown residual render content).data.take
        (renderMarkdown residual render content).size

variable {render}

/-- The text is exact when a NUL happens to be left over behind the output, or when there was no
memory to allocate. -/
theorem insertsExactly_iff {markdownCompile : Int} (hon : 0 < markdownCompile) {content : Bytes}
    (hrender : ∀ op ∈ render content, 0 ∉ op.text) :
    InsertsExactly pcreCompile render residual behind markdownCompile content ↔
      (renderMarkdown residual render content).asize = 0 ∨
        (renderMarkdown residual render content).leftover residual behind = some 0 := by
  have hob := renderMarkdown_rendered residual hrender
  have hcontent : ∀ groups,
      contentText (markdownExternal pcreCompile render residual behind) markdownCompile true
          (some (content :: groups)) =
        cstr ((renderMarkdown residual render content).toRenderBuffer behind).data := by
    intro groups
    rw [contentText, if_pos ⟨hon, rfl⟩]
    rfl
  have htake := @List.take_append_of_le_length _ _ behind _
    (renderMarkdown residual render content).size_le
  rw [← hob.next behind]
  -- a buffer that never grew has no block, and its content is the empty string
  by_cases hnull : (renderMarkdown residual render content).asize = 0
  · have hdata := List.length_eq_zero_iff.mp hnull
    refine iff_of_true ⟨absurd hnull, ?_⟩ (.inl hnull)
    intro groups
    rw [hcontent, Buf.toRenderBuffer, if_pos hnull, hdata, List.take_nil, cstr_nil]
  · rw [or_iff_right hnull, ← cstr_eq_take_iff (by rw [htake]; exact hob.text), htake]
    constructor
    · intro ⟨hends, htext⟩
      have hread := htext []
      rw [hcontent, Buf.toRenderBuffer, if_neg hnull] at hread
      exact ⟨hends hnull, hread⟩
    · intro ⟨hends, hread⟩
      refine ⟨fun _ => hends, ?_⟩
      intro groups
      rw [hcontent, Buf.toRenderBuffer, if_neg hnull]
      exact hread

end Inserted

/-- The calls for a paragraph: the buffer grows to half again the size of the text and its last
newline. -/
def renderParagraph (content : Bytes) : List BufOp :=
  [.grow (content.length + 1 + (content.length + 1) / 2), .put (ascii "<p>"), .put content,
    .put (ascii "</p>\n")]

theorem insertsExactly_clean :
    InsertsExactly (fun _ => none) renderParagraph (fun _ => 0) [] 1 (ascii "hi") :=
  (insertsExactly_iff (fun _ => none) (fun _ => 0) [] (by decide) (by decide)).mpr
    (.inr (by decide))

/-- The memory behind the output shows up in the post. -/
theorem markdown_leaks :
    contentText (markdownExternal (fun _ => none) renderParagraph
        (fun i => if i < 16 then 120 else 0) []) 1 true (some [ascii "hi"]) =
      ascii "<p>hi</p>\nxxxxxx" ∧
    ¬ InsertsExactly (fun _ => none) renderParagraph (fun i => if i < 16 then 120 else 0) [] 1
      (ascii "hi") := by
  have htext : contentText (markdownExternal (fun _ => none) renderParagraph
        (fun i => if i < 16 then 120 else 0) []) 1 true (some [ascii "hi"]) =
      ascii "<p>hi</p>\nxxxxxx" := by decide
  refine ⟨htext, ?_⟩
  intro hexact
  have hsame := hexact.text []
  rw [htext] at hsame
  exact absurd hsame (by decide)

end Blogd
