import Blogd.Config.Lines
import Blogd.Config.Rewrite

/-! # Rewriting on slots

The numbers that the options remember are the positions of their lines. So the state of a rewrite
is the same as a list of slots that belong to the options, on which a rewrite needs no numbers.
-/

namespace Blogd

/-! ## Old lines -/

/-- A line that is no comment, and in which no argument is found. -/
def isBare (line : Bytes) : Bool := !isComment line && sdssplitargs line = some []

/-- The lines of the old file, as they are read. -/
def oldLines (old : Bytes) : List Bytes :=
  (fgetsAll old.length old).map fun buf => sdstrim (cstr buf) lineBlanks

/-- What is kept of an old line: a line that cannot be parsed becomes a comment. -/
def oldSlot (line : Bytes) : Slot Bytes Bytes :=
  ⟨directiveName line,
    if !isComment line ∧ sdssplitargs line = none then ascii "# ??? " ++ line else line⟩

def oldSlots (old : Bytes) : List (Slot Bytes Bytes) := (oldLines old).map oldSlot

/-! ## Drafts -/

/-- The state of a rewrite, with slots. -/
@[ext]
structure Draft where
  slots : List (Slot Bytes Bytes)
  rewritten : List Bytes
  hasTail : Bool

namespace Draft

def state (draft : Draft) : RewriteState where
  optionToLine key := Slot.positions key draft.slots
  rewritten := draft.rewritten
  lines := Slot.values draft.slots
  hasTail := draft.hasTail

def append (draft : Draft) (line : Bytes) : Draft :=
  { draft with slots := draft.slots ++ [⟨none, line⟩] }

def mark (draft : Draft) (option : Bytes) : Draft :=
  if option ∈ draft.rewritten then draft
  else { draft with rewritten := option :: draft.rewritten }

/-- A line is written behind all others, the first one below a signature. -/
def appendTail (draft : Draft) (line : Bytes) : Draft :=
  if draft.hasTail then draft.append line
  else { draft.append rewriteSignature with hasTail := true }.append line

def write (draft : Draft) (option line : Bytes) (force : Bool) : Draft :=
  let draft := draft.mark option
  if Slot.positions option draft.slots = [] then if force then draft.appendTail line else draft
  else { draft with slots := Slot.reuse option line draft.slots }

def apply (draft : Draft) : RewriteOp → Draft
  | .mark option => draft.mark option
  | .line option line force => draft.write option line force

/-- The lines that are left at the end. -/
def lines (draft : Draft) : List Bytes :=
  draft.slots.map fun slot =>
    if slot.owner.any (· ∈ draft.rewritten) then [] else slot.value

/-! ## The same steps -/

@[simp] theorem mark_slots (draft : Draft) (option : Bytes) :
    (draft.mark option).slots = draft.slots := by
  unfold mark
  split <;> rfl

theorem state_mark (draft : Draft) (option : Bytes) :
    (draft.mark option).state = rewriteConfigMarkAsProcessed draft.state option := by
  by_cases hmem : option ∈ draft.rewritten
  · simp [mark, rewriteConfigMarkAsProcessed, state, hmem]
  · simp [mark, rewriteConfigMarkAsProcessed, state, hmem]

theorem state_append (draft : Draft) (line : Bytes) :
    (draft.append line).state = rewriteConfigAppendLine draft.state line := by
  have hpositions : ∀ key, Slot.positions key (draft.slots ++ [⟨none, line⟩]) =
      Slot.positions key draft.slots := by
    intro key
    simp [Slot.positions_append, Slot.positions]
  simp [append, rewriteConfigAppendLine, state, hpositions, Slot.values]

theorem state_appendTail (draft : Draft) (line : Bytes) :
    (draft.appendTail line).state =
      if draft.state.hasTail then rewriteConfigAppendLine draft.state line
      else rewriteConfigAppendLine
        { rewriteConfigAppendLine draft.state rewriteSignature with hasTail := true } line := by
  have htail : draft.state.hasTail = draft.hasTail := rfl
  rw [htail]
  unfold appendTail
  cases draft.hasTail with
  | true => exact state_append draft line
  | false =>
      have hline := state_append { draft.append rewriteSignature with hasTail := true } line
      rw [if_neg Bool.false_ne_true, if_neg Bool.false_ne_true, hline]
      exact congrArg
        (fun state : RewriteState => rewriteConfigAppendLine { state with hasTail := true } line)
        (state_append draft rewriteSignature)

theorem state_write (draft : Draft) (option line : Bytes) (force : Bool) :
    (draft.write option line force).state =
      rewriteConfigRewriteLine draft.state option line force := by
  unfold write rewriteConfigRewriteLine
  rw [← state_mark]
  generalize draft.mark option = marked
  dsimp only
  cases hpositions : Slot.positions option marked.slots with
  | nil =>
      have hnone : marked.state.optionToLine option = [] := hpositions
      rw [if_pos rfl, hnone]
      cases force with
      | false => rfl
      | true => exact state_appendTail marked line
  | cons linenum linenums =>
      have hsome : marked.state.optionToLine option = linenum :: linenums := hpositions
      rw [if_neg (List.cons_ne_nil _ _), hsome]
      simp only [state, RewriteState.mk.injEq]
      refine ⟨?_, trivial, Slot.values_reuse hpositions line, trivial⟩
      funext other
      by_cases hother : other = option
      · rw [if_pos hother, hother, Slot.positions_reuse_self, hpositions]
        rfl
      · rw [if_neg hother, Slot.positions_reuse_of_ne hother]

theorem state_apply (draft : Draft) (op : RewriteOp) :
    (draft.apply op).state = draft.state.apply op := by
  cases op with
  | mark option => exact state_mark draft option
  | line option line force => exact state_write draft option line force

theorem state_foldl (ops : List RewriteOp) (draft : Draft) :
    (ops.foldl apply draft).state = ops.foldl RewriteState.apply draft.state := by
  induction ops generalizing draft with
  | nil => rfl
  | cons op ops ih => rw [List.foldl_cons, List.foldl_cons, ih, state_apply]

/-- The slots of the options that were written are made empty. -/
theorem lines_eq (draft : Draft) :
    (rewriteConfigRemoveOrphaned draft.state).lines = draft.lines := by
  refine List.ext_getElem? fun i => ?_
  simp only [rewriteConfigRemoveOrphaned, lines, state, Slot.values, List.getElem?_mapIdx,
    List.getElem?_map]
  cases hslot : draft.slots[i]? with
  | none => rfl
  | some slot =>
      refine congrArg some (if_congr ?_ rfl rfl)
      simp only [List.any_eq_true, decide_eq_true_eq, Slot.mem_positions, hslot, Option.bind_some,
        Option.any_eq_true]
      constructor
      · rintro ⟨option, hoption, howner⟩
        exact ⟨option, howner, hoption⟩
      · rintro ⟨option, howner, hoption⟩
        exact ⟨option, hoption, howner⟩

/-! ## Reading the old file -/

def read (draft : Draft) (line : Bytes) : Draft :=
  { draft with
    slots := draft.slots ++ [oldSlot line]
    hasTail := draft.hasTail || (isComment line && cstr line = rewriteSignature) }

theorem state_read (draft : Draft) (line : Bytes) :
    (draft.read line).state =
      { optionToLine := fun key =>
          Slot.positions key draft.slots ++ if (oldSlot line).owner = some key then
            [draft.slots.length] else []
        rewritten := draft.rewritten
        lines := Slot.values draft.slots ++ [(oldSlot line).value]
        hasTail := draft.hasTail || (isComment line && cstr line = rewriteSignature) } := by
  have hpositions : ∀ key, Slot.positions key (draft.slots ++ [oldSlot line]) =
      Slot.positions key draft.slots ++
        if (oldSlot line).owner = some key then [draft.slots.length] else [] := by
    intro key
    rw [Slot.positions_append, Slot.positions]
    split <;> simp [Slot.positions]
  simp [read, state, hpositions, Slot.values]

theorem readOldLine_eq (draft : Draft) (buf : Bytes) :
    readOldLine draft.state buf =
      if isBare (sdstrim (cstr buf) lineBlanks) then .error .wildPointer
      else .ok (draft.read (sdstrim (cstr buf) lineBlanks)).state := by
  rw [state_read]
  unfold readOldLine
  generalize hline : sdstrim (cstr buf) lineBlanks = line
  have htrim : sdstrim line lineBlanks = line := by rw [← hline, sdstrim_sdstrim]
  cases hcomment : isComment line with
  | true =>
      simp [isBare, oldSlot, directiveName, argvOf, htrim, hcomment, rewriteConfigAppendLine,
        state]
  | false =>
      cases hargs : sdssplitargs line with
      | none =>
          simp [isBare, oldSlot, directiveName, argvOf, htrim, hcomment, hargs,
            rewriteConfigAppendLine, state]
      | some argv =>
          cases argv with
          | nil => simp [isBare, hcomment, hargs]
          | cons name args =>
              -- the dictionary of line numbers against the positions of the slots
              have hdict : (fun other => if other = name.map tolower then
                    Slot.positions other draft.slots ++ [(Slot.values draft.slots).length]
                  else Slot.positions other draft.slots) =
                  fun key => Slot.positions key draft.slots ++
                    if name.map tolower = key then [draft.slots.length] else [] := by
                funext key
                by_cases hkey : key = name.map tolower
                · simp [hkey, Slot.values]
                · simp [hkey, Ne.symm hkey]
              simp [isBare, oldSlot, directiveName, argvOf, htrim, hcomment, hargs,
                rewriteConfigAppendLine, rewriteConfigAddLineNumberToOption, state, hdict]

theorem readOldLines_eq (draft : Draft) (bufs : List Bytes) :
    readOldLines draft.state bufs =
      if bufs.any fun buf => isBare (sdstrim (cstr buf) lineBlanks) then .error .wildPointer
      else .ok ((bufs.map fun buf => sdstrim (cstr buf) lineBlanks).foldl read draft).state := by
  induction bufs generalizing draft with
  | nil => rfl
  | cons buf bufs ih =>
      rw [readOldLines, readOldLine_eq]
      cases hbare : isBare (sdstrim (cstr buf) lineBlanks) with
      | true => simp [hbare]
      | false =>
          simp only [Bool.false_eq_true, if_false]
          rw [ih]
          simp [hbare]

theorem foldl_read (lines : List Bytes) (draft : Draft) :
    lines.foldl read draft = ⟨draft.slots ++ lines.map oldSlot, draft.rewritten,
      draft.hasTail || lines.any fun line => isComment line && cstr line = rewriteSignature⟩ := by
  induction lines generalizing draft with
  | nil => simp
  | cons line lines ih =>
      rw [List.foldl_cons, ih]
      simp [read, Bool.or_assoc]

end Draft

/-- The draft before anything is written. -/
def oldDraft (old : Bytes) : Draft :=
  ⟨oldSlots old, [],
    (oldLines old).any fun line => isComment line && cstr line = rewriteSignature⟩

/-- The old file is read, unless it has a bare line. -/
theorem rewriteConfigReadOldFile_eq (old : Bytes) :
    rewriteConfigReadOldFile old =
      if (oldLines old).any isBare then .error .wildPointer else .ok (oldDraft old).state := by
  have hread := Draft.readOldLines_eq ⟨[], [], false⟩ (fgetsAll old.length old)
  have hany : ((fgetsAll old.length old).any fun buf => isBare (sdstrim (cstr buf) lineBlanks)) =
      (oldLines old).any isBare := by
    rw [oldLines, List.any_map]
    rfl
  rw [hany, Draft.foldl_read] at hread
  exact hread

/-! ## What a rewrite leaves -/

namespace RewriteOp

def option : RewriteOp → Bytes
  | .mark option => option
  | .line option _ _ => option

/-- The line that may be written. -/
def text? : RewriteOp → Option Bytes
  | .mark _ => none
  | .line _ text _ => some text

/-- Two operations for one option, the lines of which are related. -/
inductive Alike (related : Bytes → Bytes → Prop) : RewriteOp → RewriteOp → Prop
  | mark (option : Bytes) : Alike related (.mark option) (.mark option)
  | line (option : Bytes) {text text' : Bytes} (htext : related text text') (force : Bool) :
      Alike related (.line option text force) (.line option text' force)

end RewriteOp

namespace Draft

variable {draft : Draft}

/-- Whatever holds of the lines that are there, of those that are written and of the signature
holds of all lines. -/
theorem forall_apply {p : Slot Bytes Bytes → Prop} {op : RewriteOp}
    (hslots : ∀ slot ∈ draft.slots, p slot) (hsignature : p ⟨none, rewriteSignature⟩)
    (hop : ∀ line, op.text? = some line → p ⟨none, line⟩) :
    ∀ slot ∈ (draft.apply op).slots, p slot := by
  cases op with
  | mark option => rwa [apply, mark_slots]
  | line option line force =>
      have hline := hop line rfl
      intro slot hslot
      rw [apply, write, mark_slots] at hslot
      split at hslot
      next =>
        split at hslot
        next =>
          unfold appendTail at hslot
          split at hslot
          next =>
            simp only [append, mark_slots, List.mem_append, List.mem_singleton] at hslot
            rcases hslot with hold | rfl
            · exact hslots slot hold
            · exact hline
          next =>
            simp only [append, mark_slots, List.mem_append, List.mem_singleton] at hslot
            rcases hslot with (hold | rfl) | rfl
            · exact hslots slot hold
            · exact hsignature
            · exact hline
        next =>
          rw [mark_slots] at hslot
          exact hslots slot hslot
      next =>
        rcases Slot.mem_reuse hslot with rfl | hold
        · exact hline
        · exact hslots slot hold

theorem forall_foldl {p : Slot Bytes Bytes → Prop} {ops : List RewriteOp}
    (hslots : ∀ slot ∈ draft.slots, p slot) (hsignature : p ⟨none, rewriteSignature⟩)
    (hops : ∀ op ∈ ops, ∀ line, op.text? = some line → p ⟨none, line⟩) :
    ∀ slot ∈ (ops.foldl apply draft).slots, p slot := by
  induction ops generalizing draft with
  | nil => exact hslots
  | cons op ops ih =>
      exact ih (forall_apply hslots hsignature (hops op List.mem_cons_self))
        fun op hop => hops op (List.mem_cons_of_mem _ hop)

theorem rewritten_appendTail (draft : Draft) (line : Bytes) :
    (draft.appendTail line).rewritten = draft.rewritten := by
  unfold appendTail
  split <;> rfl

theorem mem_rewritten_apply {op : RewriteOp} {option : Bytes} :
    option ∈ (draft.apply op).rewritten ↔ option = op.option ∨ option ∈ draft.rewritten := by
  have hmark : ∀ marked, option ∈ (draft.mark marked).rewritten ↔
      option = marked ∨ option ∈ draft.rewritten := by
    intro marked
    unfold mark
    split
    next hmem =>
      constructor
      · exact .inr
      · rintro (rfl | hold)
        · exact hmem
        · exact hold
    next => exact List.mem_cons
  cases op with
  | mark marked => exact hmark marked
  | line marked text force =>
      have hwrite : (draft.apply (.line marked text force)).rewritten =
          (draft.mark marked).rewritten := by
        rw [apply, write]
        split
        next =>
          split
          next => exact rewritten_appendTail _ text
          next => rfl
        next => rfl
      rw [hwrite]
      exact hmark marked

theorem mem_rewritten_foldl {ops : List RewriteOp} {option : Bytes} :
    option ∈ (ops.foldl apply draft).rewritten ↔
      (∃ op ∈ ops, option = op.option) ∨ option ∈ draft.rewritten := by
  induction ops generalizing draft with
  | nil => simp
  | cons op ops ih =>
      rw [List.foldl_cons, ih, mem_rewritten_apply, List.exists_mem_cons_iff, or_assoc]
      exact or_left_comm

/-! ## The places of the lines

Where a line goes depends on the owners of the slots, and not on what the lines say.
-/

/-- Two drafts with the same owners, the lines of which are related. -/
structure Alike (related : Option Bytes → Bytes → Bytes → Prop) (draft draft' : Draft) : Prop where
  slots : draft.slots.Forall₂ (Slot.Alike related) draft'.slots
  rewritten : draft.rewritten = draft'.rewritten
  hasTail : draft.hasTail = draft'.hasTail

section Places

variable {draft' : Draft} {related : Option Bytes → Bytes → Bytes → Prop}

theorem Alike.mark (halike : Alike related draft draft') (option : Bytes) :
    Alike related (draft.mark option) (draft'.mark option) := by
  unfold Draft.mark
  rw [← halike.rewritten]
  split
  next => exact halike
  next => exact ⟨halike.slots, rfl, halike.hasTail⟩

theorem Alike.append (halike : Alike related draft draft') {line line' : Bytes}
    (hline : related none line line') :
    Alike related (draft.append line) (draft'.append line') :=
  ⟨List.rel_append halike.slots (.cons ⟨rfl, hline⟩ .nil), halike.rewritten, halike.hasTail⟩

variable (hsignature : related none rewriteSignature rewriteSignature)

include hsignature

theorem Alike.appendTail (halike : Alike related draft draft') {line line' : Bytes}
    (hline : related none line line') :
    Alike related (draft.appendTail line) (draft'.appendTail line') := by
  unfold Draft.appendTail
  rw [← halike.hasTail]
  split
  next => exact halike.append hline
  next =>
    have hsigned : Alike related { draft.append rewriteSignature with hasTail := true }
        { draft'.append rewriteSignature with hasTail := true } :=
      ⟨(halike.append hsignature).slots, halike.rewritten, rfl⟩
    exact hsigned.append hline

theorem Alike.apply (halike : Alike related draft draft') {op op' : RewriteOp}
    (hop : op.Alike (related none) op') : Alike related (draft.apply op) (draft'.apply op') := by
  cases hop with
  | mark option => exact halike.mark option
  | line option htext force =>
      have hmark := halike.mark option
      rw [Draft.apply, Draft.apply, write, write, ← Slot.positions_alike hmark.slots]
      split
      next =>
        split
        next => exact hmark.appendTail hsignature htext
        next => exact hmark
      next => exact ⟨Slot.reuse_alike hmark.slots option htext, hmark.rewritten, hmark.hasTail⟩

theorem Alike.foldl (halike : Alike related draft draft') {ops ops' : List RewriteOp}
    (hops : ops.Forall₂ (RewriteOp.Alike (related none)) ops') :
    Alike related (ops.foldl Draft.apply draft) (ops'.foldl Draft.apply draft') := by
  induction hops generalizing draft draft' with
  | nil => exact halike
  | cons hop _ ih => exact ih (halike.apply hsignature hop)

omit hsignature

/-- The lines at the end differ as the slots do that are not made empty. -/
theorem Alike.lines (halike : Alike related draft draft') {change : Bytes → Bytes}
    (hempty : change [] = [])
    (hchange : ∀ owner value value', owner.any (· ∈ draft.rewritten) = false →
      related owner value value' → value' = change value) :
    draft'.lines = draft.lines.map change := by
  have hslots := halike.slots
  unfold Draft.lines
  rw [← halike.rewritten]
  generalize draft.slots = slots, draft'.slots = slots' at hslots ⊢
  induction hslots with
  | nil => rfl
  | @cons slot slot' slots slots' hslot _ ih =>
      rw [List.map_cons, List.map_cons, List.map_cons, ih, ← hslot.1]
      refine congrArg (· :: _) ?_
      cases howner : slot.owner.any (· ∈ draft.rewritten) with
      | true => exact hempty.symm
      | false => exact hchange _ _ _ howner hslot.2

end Places

/-! ## The line of one option -/

/-- An operation keeps the slots of the other options. -/
theorem positions_apply {op : RewriteOp} {key : Bytes} (hne : op.option ≠ key) :
    Slot.positions key (draft.apply op).slots = Slot.positions key draft.slots := by
  have happend : ∀ (slots : List (Slot Bytes Bytes)) (line : Bytes),
      Slot.positions key (slots ++ [⟨none, line⟩]) = Slot.positions key slots := by
    intro slots line
    simp [Slot.positions_append, Slot.positions]
  cases op with
  | mark option => rw [apply, mark_slots]
  | line option text force =>
      rw [apply, write, mark_slots]
      split
      next =>
        split
        next =>
          unfold appendTail
          split
          next => rw [append, mark_slots, happend]
          next => simp only [append, mark_slots, happend]
        next => rw [mark_slots]
      next => exact Slot.positions_reuse_of_ne hne.symm text _

theorem positions_foldl {ops : List RewriteOp} {key : Bytes} (hne : ∀ op ∈ ops, op.option ≠ key) :
    Slot.positions key (ops.foldl apply draft).slots = Slot.positions key draft.slots := by
  induction ops generalizing draft with
  | nil => rfl
  | cons op ops ih =>
      rw [List.foldl_cons, ih fun op hop => hne op (List.mem_cons_of_mem _ hop),
        positions_apply (hne op List.mem_cons_self)]

/-- A line stays if it belongs to another option, or to none. -/
theorem mem_apply {slot : Slot Bytes Bytes} (hslot : slot ∈ draft.slots) {op : RewriteOp}
    (hne : slot.owner ≠ some op.option) : slot ∈ (draft.apply op).slots := by
  cases op with
  | mark option => rwa [apply, mark_slots]
  | line option text force =>
      rw [apply, write, mark_slots]
      split
      next =>
        split
        next =>
          unfold appendTail
          split
          next =>
            rw [append, mark_slots]
            exact List.mem_append_left _ hslot
          next =>
            simp only [append, mark_slots]
            exact List.mem_append_left _ (List.mem_append_left _ hslot)
        next => rwa [mark_slots]
      next => exact Slot.mem_reuse_of_ne hslot hne

theorem mem_foldl {slot : Slot Bytes Bytes} (hslot : slot ∈ draft.slots) {ops : List RewriteOp}
    (hne : ∀ op ∈ ops, slot.owner ≠ some op.option) : slot ∈ (ops.foldl apply draft).slots := by
  induction ops generalizing draft with
  | nil => exact hslot
  | cons op ops ih =>
      exact ih (mem_apply hslot (hne op List.mem_cons_self))
        fun op hop => hne op (List.mem_cons_of_mem _ hop)

/-- A line is written if the option has a slot, or if it is forced. -/
theorem mem_write {option : Bytes} (line : Bytes) {force : Bool}
    (hwritten : Slot.positions option draft.slots ≠ [] ∨ force = true) :
    ⟨none, line⟩ ∈ (draft.write option line force).slots := by
  rw [write, mark_slots]
  split
  next hnone =>
    rw [if_pos (hwritten.resolve_left (not_not_intro hnone)), appendTail]
    split
    next => exact List.mem_append_right _ List.mem_cons_self
    next => exact List.mem_append_right _ List.mem_cons_self
  next hsome =>
    exact Slot.mem_reuse_self hsome line

/-- What is left at the end: a line whose option was not rewritten. -/
theorem mem_lines {slot : Slot Bytes Bytes} (hslot : slot ∈ draft.slots)
    (howner : slot.owner.any (· ∈ draft.rewritten) = false) : slot.value ∈ draft.lines :=
  List.mem_map.mpr ⟨slot, hslot, if_neg (by rw [howner]; exact Bool.false_ne_true)⟩

end Draft

end Blogd
