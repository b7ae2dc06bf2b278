import Blogd.Foundation.Bytes

/-! # Backtracking regular expressions

The matcher lists the ends of all matches in the order in which a backtracking engine tries
them, so that the first one is the match the engine reports. A repeated capture group holds its
last iteration. Lines end at a newline byte and `^` and `$` match at every line.
-/

namespace Blogd

inductive Regex
  | empty
  | byte (accepts : UInt8 → Bool)
  | seq (first second : Regex)
  | alt (left right : Regex)
  | star (isLazy : Bool) (body : Regex)
  | group (index : Nat) (body : Regex)
  | lineStart
  | lineEnd

/-- A place in the subject: the bytes before it, last first, and the bytes from it on. -/
structure Cursor where
  before : Bytes
  rest : Bytes
  groups : Nat → Option (Nat × Nat)

namespace Cursor

def pos (c : Cursor) : Nat := c.before.length

def start (before rest : Bytes) : Cursor := ⟨before, rest, fun _ => none⟩

/-- The place `k` bytes further on. -/
def advance (c : Cursor) (k : Nat) : Cursor :=
  { c with before := (c.rest.take k).reverse ++ c.before, rest := c.rest.drop k }

def capture (c : Cursor) (index first : Nat) : Cursor :=
  { c with groups := fun i => if i = index then some (first, c.pos) else c.groups i }

/-- No group ends in front of its start. -/
def Ordered (c : Cursor) : Prop := ∀ i first last, c.groups i = some (first, last) → first ≤ last

@[simp] theorem advance_zero (c : Cursor) : c.advance 0 = c := by
  simp [advance]

@[simp] theorem advance_rest (c : Cursor) (k : Nat) : (c.advance k).rest = c.rest.drop k := rfl

@[simp] theorem advance_groups (c : Cursor) (k : Nat) : (c.advance k).groups = c.groups := rfl

@[simp] theorem start_rest (before rest : Bytes) : (start before rest).rest = rest := rfl

@[simp] theorem start_pos (before rest : Bytes) : (start before rest).pos = before.length := rfl

@[simp] theorem capture_rest (c : Cursor) (index first : Nat) :
    (c.capture index first).rest = c.rest := rfl

@[simp] theorem capture_pos (c : Cursor) (index first : Nat) :
    (c.capture index first).pos = c.pos := rfl

@[simp] theorem capture_advance_pos (c : Cursor) (index first k : Nat) :
    ((c.capture index first).advance k).pos = (c.advance k).pos := rfl

@[simp] theorem capture_groups_self (c : Cursor) (index first : Nat) :
    (c.capture index first).groups index = some (first, c.pos) := if_pos rfl

theorem capture_groups_of_ne (c : Cursor) {index i : Nat} (first : Nat) (hi : i ≠ index) :
    (c.capture index first).groups i = c.groups i := if_neg hi

theorem advance_advance (c : Cursor) (k l : Nat) :
    (c.advance k).advance l = c.advance (k + l) := by
  simp only [advance, List.drop_drop, List.take_add, List.reverse_append, List.append_assoc]

/-- A later capture of a group replaces an earlier one. -/
theorem capture_advance_capture (c : Cursor) (index first k last : Nat) :
    ((c.capture index first).advance k).capture index last = (c.advance k).capture index last := by
  simp only [advance, capture, pos, mk.injEq, true_and]
  funext i
  split <;> simp_all

theorem pos_le_advance (c : Cursor) (k : Nat) : c.pos ≤ (c.advance k).pos := by
  simp only [advance, pos, List.length_append]
  omega

theorem start_ordered (before rest : Bytes) : (start before rest).Ordered := by
  intro i first last hgroup
  cases hgroup

theorem Ordered.capture {c : Cursor} (hc : c.Ordered) (index : Nat) {first : Nat}
    (hfirst : first ≤ c.pos) : (c.capture index first).Ordered := by
  intro i first' last hgroup
  by_cases hi : i = index
  · rw [hi, capture_groups_self] at hgroup
    cases hgroup
    exact hfirst
  · rw [capture_groups_of_ne c first hi] at hgroup
    exact hc i first' last hgroup

theorem advance_pos {c : Cursor} {k : Nat} (hk : k ≤ c.rest.length) :
    (c.advance k).pos = c.pos + k := by
  simp only [advance, pos, List.length_append, List.length_reverse, List.length_take]
  omega

end Cursor

namespace Regex

/-- Repeat `step` as long as it consumes something, most iterations first when greedy. -/
def iterate (step : Cursor → List Cursor) (isLazy : Bool) : Nat → Cursor → List Cursor
  | 0, c => [c]
  | fuel + 1, c =>
      let more := ((step c).filter fun d => d.rest.length < c.rest.length).flatMap
        (iterate step isLazy fuel)
      if isLazy then c :: more else more ++ [c]

/-- The ends of the matches that start at a place, in the order they are tried. -/
def run : Regex → Cursor → List Cursor
  | empty, c => [c]
  | byte accepts, c =>
      match c.rest with
      | [] => []
      | b :: _ => if accepts b then [c.advance 1] else []
  | seq first second, c => (run first c).flatMap (run second)
  | alt left right, c => run left c ++ run right c
  | star isLazy body, c => iterate (run body) isLazy c.rest.length c
  | group index body, c => (run body c).map fun d => d.capture index c.pos
  | lineStart, c =>
      if c.before = [] ∨ (c.before.head? = some LF ∧ c.rest ≠ []) then [c] else []
  | lineEnd, c => if c.rest = [] ∨ c.rest.head? = some LF then [c] else []

/-- The leftmost match, tried from a place on. -/
def searchFrom (r : Regex) : Bytes → Bytes → Option Cursor
  | before, [] => (run r (.start before [])).head?
  | before, b :: rest =>
      match (run r (.start before (b :: rest))).head? with
      | some c => some c
      | none => searchFrom r (b :: before) rest

def search (r : Regex) (subject : Bytes) : Option Cursor := searchFrom r [] subject

/-- A literal text. -/
def text : Bytes → Regex
  | [] => empty
  | b :: rest => seq (byte (· = b)) (text rest)

/-- The first of several texts. -/
def oneOf : List Bytes → Regex
  | [] => byte fun _ => false
  | [s] => text s
  | s :: rest => alt (text s) (oneOf rest)

def dot : Regex := byte (· ≠ LF)

def digit : Regex := byte isdigit

def space : Regex := byte isspace

/-! ## What the parts match -/

theorem run_byte (accepts : UInt8 → Bool) (c : Cursor) :
    run (byte accepts) c = if c.rest.head?.any accepts then [c.advance 1] else [] := by
  cases hrest : c.rest with
  | nil => simp [run, hrest]
  | cons b rest => cases hb : accepts b <;> simp [run, hrest, hb]

@[simp] theorem run_seq (first second : Regex) (c : Cursor) :
    run (seq first second) c = (run first c).flatMap (run second) := rfl

@[simp] theorem run_alt (left right : Regex) (c : Cursor) :
    run (alt left right) c = run left c ++ run right c := rfl

@[simp] theorem run_group (index : Nat) (body : Regex) (c : Cursor) :
    run (group index body) c = (run body c).map fun d => d.capture index c.pos := rfl

theorem run_text (s : Bytes) (c : Cursor) :
    run (text s) c = if s <+: c.rest then [c.advance s.length] else [] := by
  induction s generalizing c with
  | nil => simp [text, run]
  | cons b s ih =>
      cases hrest : c.rest with
      | nil => simp [text, run, hrest]
      | cons d rest =>
          by_cases hd : d = b
          · subst hd
            simp [text, run, hrest, ih, Cursor.advance_advance, Nat.add_comm]
          · have hd' : ¬ b = d := fun heq => hd heq.symm
            simp [text, run, hrest, hd, hd', List.cons_prefix_cons]

theorem run_text_pos {s : Bytes} {c : Cursor} (hs : s <+: c.rest) :
    run (text s) c = [c.advance s.length] := by
  rw [run_text, if_pos hs]

theorem run_text_neg {s : Bytes} {c : Cursor} (hs : ¬ s <+: c.rest) : run (text s) c = [] := by
  rw [run_text, if_neg hs]

/-- The first text of the list that the subject continues with. -/
def firstOf (texts : List Bytes) (rest : Bytes) : Option Bytes :=
  texts.find? fun s => s.isPrefixOf rest

theorem head?_run_oneOf (texts : List Bytes) (c : Cursor) :
    (run (oneOf texts) c).head? = (firstOf texts c.rest).map fun s => c.advance s.length := by
  induction texts with
  | nil => cases hrest : c.rest <;> simp [oneOf, run, hrest, firstOf]
  | cons s texts ih =>
      have hhead : run (text s) c =
          if s.isPrefixOf c.rest then [c.advance s.length] else [] := by
        rw [run_text]
        simp only [List.isPrefixOf_iff_prefix]
      cases texts with
      | nil =>
          cases hs : s.isPrefixOf c.rest <;> simp [oneOf, hhead, firstOf, hs]
      | cons t texts =>
          simp only [oneOf, run_alt, hhead, firstOf, List.find?_cons] at ih ⊢
          cases hs : s.isPrefixOf c.rest with
          | true => simp
          | false =>
              simp only [Bool.false_eq_true, if_false, List.nil_append]
              rw [ih]

/-- A place of a repetition is its start, or a place of the repetition behind a round. -/
theorem mem_iterate_succ {step : Cursor → List Cursor} {isLazy : Bool} {fuel : Nat} {c d : Cursor}
    (hmem : d ∈ iterate step isLazy (fuel + 1) c) :
    d = c ∨ ∃ e ∈ step c, d ∈ iterate step isLazy fuel e := by
  have hmore : ∀ {d}, d ∈ ((step c).filter fun e => e.rest.length < c.rest.length).flatMap
      (iterate step isLazy fuel) → ∃ e ∈ step c, d ∈ iterate step isLazy fuel e := by
    intro d hd
    obtain ⟨e, he, hde⟩ := List.mem_flatMap.mp hd
    exact ⟨e, (List.mem_filter.mp he).1, hde⟩
  rw [iterate] at hmem
  cases isLazy with
  | true =>
      rcases List.mem_cons.mp hmem with rfl | hd
      · exact .inl rfl
      · exact .inr (hmore hd)
  | false =>
      rcases List.mem_append.mp hmem with hd | hd
      · exact .inr (hmore hd)
      · exact .inl (List.mem_singleton.mp hd)

section Induction

variable {R : Cursor → Cursor → Prop} (hrefl : ∀ c, R c c)
  (htrans : ∀ {c d e}, R c d → R d e → R c e)

include hrefl htrans

theorem iterate_induction {step : Cursor → List Cursor} {isLazy : Bool}
    (hstep : ∀ c, ∀ d ∈ step c, R c d) {fuel : Nat} {c d : Cursor}
    (hmem : d ∈ iterate step isLazy fuel c) : R c d := by
  induction fuel generalizing c with
  | zero =>
      obtain rfl := List.mem_singleton.mp hmem
      exact hrefl d
  | succ fuel ih =>
      rcases mem_iterate_succ hmem with rfl | ⟨e, he, hd⟩
      · exact hrefl d
      · exact htrans (hstep c e he) (ih hd)

/-- What holds between a place and the next byte, and is kept by captures, holds between the two
ends of every match. -/
theorem run_induction (hadvance : ∀ c, R c (c.advance 1))
    (hcapture : ∀ {c d} index, R c d → R c (d.capture index c.pos)) {r : Regex} {c d : Cursor}
    (hmem : d ∈ run r c) : R c d := by
  have hhere : ∀ {c d : Cursor} {p : Prop} [Decidable p], d ∈ (if p then [c] else []) → R c d := by
    intro c d p _ hd
    split at hd
    next =>
      obtain rfl := List.mem_singleton.mp hd
      exact hrefl d
    next => exact absurd hd List.not_mem_nil
  induction r generalizing c d with
  | empty =>
      obtain rfl := List.mem_singleton.mp hmem
      exact hrefl d
  | byte accepts =>
      rw [run_byte] at hmem
      split at hmem
      next =>
        obtain rfl := List.mem_singleton.mp hmem
        exact hadvance c
      next => exact absurd hmem List.not_mem_nil
  | seq first second ihFirst ihSecond =>
      rw [run_seq, List.mem_flatMap] at hmem
      obtain ⟨e, he, hd⟩ := hmem
      exact htrans (ihFirst he) (ihSecond hd)
  | alt left right ihLeft ihRight =>
      rw [run_alt, List.mem_append] at hmem
      exact hmem.elim ihLeft ihRight
  | star isLazy body ih => exact iterate_induction hrefl htrans (fun c d => ih) hmem
  | group index body ih =>
      rw [run_group, List.mem_map] at hmem
      obtain ⟨e, he, rfl⟩ := hmem
      exact hcapture index (ih he)
  | lineStart => exact hhere hmem
  | lineEnd => exact hhere hmem

end Induction

/-- Matching goes forward. -/
theorem rest_suffix_of_mem_run {r : Regex} {c d : Cursor} (hmem : d ∈ run r c) :
    d.rest <:+ c.rest :=
  run_induction (R := fun c d => d.rest <:+ c.rest) (fun _ => List.suffix_rfl)
    (fun hfirst hsecond => hsecond.trans hfirst) (fun _ => List.drop_suffix _ _)
    (fun _ hrest => hrest) hmem

/-- What matches nowhere further on matches nothing behind another expression. -/
theorem run_seq_eq_nil (first : Regex) {second : Regex} {c : Cursor}
    (hnil : ∀ d : Cursor, d.rest <:+ c.rest → run second d = []) :
    run (seq first second) c = [] := by
  rw [run_seq, List.flatMap_eq_nil_iff]
  intro d hd
  exact hnil d (rest_suffix_of_mem_run hd)

section Repetition

variable {step : Cursor → List Cursor} {accepts : UInt8 → Bool}

/-- Where a round has one way to go at most, a greedy repetition tries the same places as a lazy
one in the other order. -/
theorem iterate_greedy_eq_reverse (hstep : ∀ c, (step c).length ≤ 1) (fuel : Nat) (c : Cursor) :
    iterate step false fuel c = (iterate step true fuel c).reverse := by
  induction fuel generalizing c with
  | zero => rfl
  | succ fuel ih =>
      have hround := hstep c
      cases hc : step c with
      | nil => simp [iterate, hc]
      | cons d rest =>
          obtain rfl : rest = [] := by
            rw [hc, List.length_cons] at hround
            exact List.length_eq_zero_iff.mp (by omega)
          by_cases hless : d.rest.length < c.rest.length
          · simp [iterate, hc, hless, ih d]
          · simp [iterate, hc, hless]

/-- The first place of a greedy repetition is the last one of the lazy repetition. -/
theorem head?_iterate_greedy (hstep : ∀ c, (step c).length ≤ 1) {fuel n : Nat} {c : Cursor}
    {place : Nat → Cursor}
    (hlazy : iterate step true fuel c = (List.range (n + 1)).map place) :
    (iterate step false fuel c).head? = some (place n) := by
  rw [iterate_greedy_eq_reverse hstep, hlazy, List.head?_reverse, List.range_succ,
    List.map_append, List.map_singleton, List.getLast?_concat]

theorem length_run_byte_le (c : Cursor) : (run (byte accepts) c).length ≤ 1 := by
  rw [run_byte]
  split <;> simp

/-- A repeated single byte stops at every length up to that of the longest accepted run. -/
theorem iterate_byte_lazy (fuel : Nat) (c : Cursor) (hfuel : c.rest.length ≤ fuel) :
    iterate (run (byte accepts)) true fuel c =
      (List.range ((c.rest.takeWhile accepts).length + 1)).map c.advance := by
  induction fuel generalizing c with
  | zero =>
      have hrest : c.rest = [] := List.length_eq_zero_iff.mp (by omega)
      simp [iterate, hrest]
  | succ fuel ih =>
      cases hrest : c.rest with
      | nil => simp [iterate, run, hrest]
      | cons b rest =>
          by_cases hb : accepts b = true
          · have hnext := ih (c.advance 1) (by simp [hrest] at hfuel ⊢; omega)
            rw [List.range_succ_eq_map]
            simp only [iterate, run_byte, hrest, List.head?_cons, Option.any_some, hb, if_true,
              Cursor.advance_rest, List.drop_one, List.tail_cons, List.length_cons,
              Nat.lt_succ_self, decide_true, List.filter_cons_of_pos, List.filter_nil,
              List.flatMap_cons, List.flatMap_nil, List.append_nil, hnext, List.takeWhile_cons,
              List.map_cons, Cursor.advance_zero, List.map_map]
            congr 1
            apply List.map_congr_left
            intro k _
            simp [Cursor.advance_advance, Nat.add_comm]
          · simp [iterate, run_byte, hrest, hb]

theorem run_star_byte_lazy (c : Cursor) :
    run (star true (byte accepts)) c =
      (List.range ((c.rest.takeWhile accepts).length + 1)).map c.advance :=
  iterate_byte_lazy _ c (Nat.le_refl _)

theorem head?_run_star_byte_greedy (c : Cursor) :
    (run (star false (byte accepts)) c).head? =
      some (c.advance (c.rest.takeWhile accepts).length) :=
  head?_iterate_greedy length_run_byte_le (iterate_byte_lazy _ c (Nat.le_refl _))

/-- A lazily repeated capture of a single byte stops at every length, and behind the first one the
group holds the last byte. -/
theorem iterate_group_lazy (index fuel : Nat) (c : Cursor) (hfuel : c.rest.length ≤ fuel) :
    iterate (run (group index (byte accepts))) true fuel c =
      (List.range ((c.rest.takeWhile accepts).length + 1)).map fun k =>
        if k = 0 then c else (c.advance k).capture index (c.pos + k - 1) := by
  induction fuel generalizing c with
  | zero =>
      have hrest : c.rest = [] := List.length_eq_zero_iff.mp (by omega)
      simp [iterate, hrest]
  | succ fuel ih =>
      cases hrest : c.rest with
      | nil => simp [iterate, run, hrest]
      | cons b rest =>
          by_cases hb : accepts b = true
          · have hone : (c.advance 1).pos = c.pos + 1 := Cursor.advance_pos (by simp [hrest])
            have hnext := ih ((c.advance 1).capture index c.pos) (by simp [hrest] at hfuel ⊢; omega)
            simp only [Cursor.capture_rest, Cursor.advance_rest, hrest, List.drop_one,
              List.tail_cons, Cursor.capture_pos, hone] at hnext
            rw [List.range_succ_eq_map]
            simp only [iterate, run_group, run_byte, hrest, List.head?_cons, Option.any_some, hb,
              if_true, List.map_cons, List.map_nil, Cursor.capture_rest, Cursor.advance_rest,
              List.drop_one, List.tail_cons, List.length_cons, Nat.lt_succ_self, decide_true,
              List.filter_cons_of_pos, List.filter_nil, List.flatMap_cons, List.flatMap_nil,
              List.append_nil, hnext, List.takeWhile_cons, List.map_map]
            congr 1
            apply List.map_congr_left
            intro k _
            -- the capture of the first round is replaced by that of every later one
            simp only [Function.comp_apply, Nat.succ_ne_zero, if_false]
            split
            next hzero => simp [hzero, Cursor.capture, hone]
            next hzero =>
              rw [Cursor.capture_advance_capture, Cursor.advance_advance, Nat.add_comm 1]
              congr 1
              omega
          · simp [iterate, run_group, run_byte, hrest, hb]

theorem run_star_group_lazy (index : Nat) (c : Cursor) :
    run (star true (group index (byte accepts))) c =
      (List.range ((c.rest.takeWhile accepts).length + 1)).map fun k =>
        if k = 0 then c else (c.advance k).capture index (c.pos + k - 1) :=
  iterate_group_lazy index _ c (Nat.le_refl _)

/-- A greedily repeated capture of a single byte takes the longest run, and the group holds the
last byte of it. -/
theorem head?_run_star_group_greedy (index : Nat) (c : Cursor) :
    (run (star false (group index (byte accepts))) c).head? =
      some (if (c.rest.takeWhile accepts).length = 0 then c
        else (c.advance (c.rest.takeWhile accepts).length).capture index
          (c.pos + (c.rest.takeWhile accepts).length - 1)) := by
  have hstep : ∀ d, (run (group index (byte accepts)) d).length ≤ 1 := by
    intro d
    rw [run_group, List.length_map]
    exact length_run_byte_le d
  exact head?_iterate_greedy hstep (iterate_group_lazy index _ c (Nat.le_refl _))

theorem mem_iterate_byte {isLazy : Bool} {fuel : Nat} {c d : Cursor}
    (hmem : d ∈ iterate (run (byte accepts)) isLazy fuel c) :
    ∃ k ≤ (c.rest.takeWhile accepts).length, d = c.advance k := by
  induction fuel generalizing c with
  | zero =>
      rw [iterate, List.mem_singleton] at hmem
      exact ⟨0, Nat.zero_le _, by rw [hmem, Cursor.advance_zero]⟩
  | succ fuel ih =>
      rcases mem_iterate_succ hmem with rfl | ⟨e, he, hd⟩
      · exact ⟨0, Nat.zero_le _, (Cursor.advance_zero d).symm⟩
      · rw [run_byte] at he
        split at he
        next haccepts =>
          rw [List.mem_singleton] at he
          obtain ⟨k, hk, rfl⟩ := ih hd
          obtain ⟨b, rest, hrest⟩ : ∃ b rest, c.rest = b :: rest := by
            cases hrest : c.rest with
            | nil => simp [hrest] at haccepts
            | cons b rest => exact ⟨b, rest, rfl⟩
          rw [hrest, List.head?_cons, Option.any_some] at haccepts
          rw [he, Cursor.advance_rest, hrest] at hk
          refine ⟨1 + k, ?_, by rw [he, Cursor.advance_advance]⟩
          rw [hrest, List.takeWhile_cons_of_pos haccepts, List.length_cons]
          exact Nat.add_comm 1 k ▸ Nat.succ_le_succ hk
        next => exact absurd he List.not_mem_nil

/-- A text behind a run of bytes that cannot begin it is found behind the whole run. -/
theorem head?_run_star_text {b : UInt8} {s : Bytes} (hb : accepts b = false) (c : Cursor) :
    (run (seq (star false (byte accepts)) (text (b :: s))) c).head? =
      if b :: s <+: c.rest.dropWhile accepts then
        some (c.advance ((c.rest.takeWhile accepts).length + (b :: s).length))
      else none := by
  have hdrop : c.rest.drop (c.rest.takeWhile accepts).length = c.rest.dropWhile accepts := by
    nth_rewrite 2 [← List.takeWhile_append_dropWhile (p := accepts) (l := c.rest)]
    exact List.drop_left
  rw [run_seq]
  split
  next hpre =>
    obtain ⟨rest, hstar⟩ := List.head?_eq_some_iff.mp (@head?_run_star_byte_greedy accepts c)
    rw [hstar, List.flatMap_cons, run_text_pos (by rw [Cursor.advance_rest, hdrop]; exact hpre),
      List.singleton_append, List.head?_cons, Cursor.advance_advance]
  next hpre =>
    rw [List.head?_eq_none_iff, List.flatMap_eq_nil_iff]
    intro d hd
    apply run_text_neg
    obtain ⟨k, hk, rfl⟩ := mem_iterate_byte hd
    rw [Cursor.advance_rest]
    intro hd
    rcases Nat.lt_or_eq_of_le hk with hlt | heq
    · -- in front of a byte of the run the text cannot begin
      obtain ⟨rest, hrest⟩ := hd
      have hget : c.rest[k]? = some b := by
        rw [← List.head?_drop, ← hrest]
        rfl
      rw [← List.takeWhile_append_dropWhile (p := accepts) (l := c.rest),
        List.getElem?_append_left hlt] at hget
      have hmem : b ∈ c.rest.takeWhile accepts := List.mem_of_getElem? hget
      exact absurd (List.mem_takeWhile_imp hmem) (by simp [hb])
    · rw [heq, hdrop] at hd
      exact hpre hd

end Repetition

/-! ## Searching -/

/-- The first of the numbers that gives a result. -/
theorem findSome?_range_first {β : Type} {f : Nat → Option β} {k n : Nat} {b : β} (hk : k < n)
    (hb : f k = some b) (hfirst : ∀ j < k, f j = none) : (List.range n).findSome? f = some b := by
  obtain ⟨m, rfl⟩ := Nat.exists_eq_add_of_lt hk
  rw [Nat.add_assoc, List.range_add, List.findSome?_append, List.range_succ_eq_map, List.map_cons,
    List.findSome?_cons, Nat.add_zero, hb]
  have hnone : (List.range k).findSome? f = none :=
    List.findSome?_eq_none_iff.mpr fun j hj => hfirst j (List.mem_range.mp hj)
  rw [hnone]
  rfl

theorem exists_first_of_findSome?_range {β : Type} {f : Nat → Option β} {n : Nat} {b : β}
    (hfound : (List.range n).findSome? f = some b) :
    ∃ k, f k = some b ∧ ∀ j < k, f j = none := by
  induction n with
  | zero => cases hfound
  | succ n ih =>
      rw [List.range_succ, List.findSome?_append] at hfound
      cases hbefore : (List.range n).findSome? f with
      | some a =>
          rw [hbefore, Option.some_or] at hfound
          exact ih (hbefore.trans hfound)
      | none =>
          rw [hbefore, Option.none_or, List.findSome?_singleton] at hfound
          refine ⟨n, hfound, ?_⟩
          intro j hj
          exact List.findSome?_eq_none_iff.mp hbefore j (List.mem_range.mpr hj)

theorem searchFrom_eq_none {r : Regex} {before rest : Bytes}
    (hnone : ∀ passed left, rest = passed ++ left →
      run r (.start (passed.reverse ++ before) left) = []) : searchFrom r before rest = none := by
  induction rest generalizing before with
  | nil =>
      have hstart := hnone [] [] rfl
      rw [List.reverse_nil, List.nil_append] at hstart
      rw [searchFrom, hstart]
      rfl
  | cons b rest ih =>
      have hstart := hnone [] (b :: rest) rfl
      rw [List.reverse_nil, List.nil_append] at hstart
      rw [searchFrom, hstart]
      refine ih fun passed left hsplit => ?_
      have hlater := hnone (b :: passed) left (by rw [hsplit, List.cons_append])
      rwa [List.reverse_cons, List.append_assoc, List.singleton_append] at hlater

/-- A search finds nothing when no place of the subject starts a match. -/
theorem search_eq_none {r : Regex} {subject : Bytes}
    (hnone : ∀ passed left, subject = passed ++ left →
      run r (.start passed.reverse left) = []) : search r subject = none := by
  refine searchFrom_eq_none fun passed left hsplit => ?_
  rw [List.append_nil]
  exact hnone passed left hsplit

/-- Places that start no match are passed. -/
theorem searchFrom_append {r : Regex} {before passed left : Bytes}
    (hnone : ∀ k < passed.length,
      run r (.start ((passed.take k).reverse ++ before) (passed.drop k ++ left)) = []) :
    searchFrom r before (passed ++ left) = searchFrom r (passed.reverse ++ before) left := by
  induction passed generalizing before with
  | nil => rfl
  | cons b passed ih =>
      have hstart := hnone 0 (Nat.succ_pos _)
      simp only [List.take_zero, List.reverse_nil, List.nil_append, List.drop_zero] at hstart
      rw [List.cons_append, searchFrom, ← List.cons_append, hstart]
      simp only [List.head?_nil]
      rw [ih, List.reverse_cons, List.append_assoc, List.singleton_append]
      intro k hk
      have hlater := hnone (k + 1) (Nat.succ_lt_succ hk)
      rwa [List.take_succ_cons, List.reverse_cons, List.append_assoc, List.singleton_append,
        List.drop_succ_cons] at hlater

/-- The first place that starts a match is the one that is found. -/
theorem search_of_first {r : Regex} {passed left : Bytes} {c : Cursor}
    (hnone : ∀ k < passed.length,
      run r (.start (passed.take k).reverse (passed.drop k ++ left)) = [])
    (hfirst : (run r (.start passed.reverse left)).head? = some c) :
    search r (passed ++ left) = some c := by
  rw [search, searchFrom_append fun k hk => by rw [List.append_nil]; exact hnone k hk,
    List.append_nil]
  cases left with
  | nil => exact hfirst
  | cons b rest => rw [searchFrom, hfirst]

theorem exists_of_searchFrom {r : Regex} {before rest : Bytes} {c : Cursor}
    (hfound : searchFrom r before rest = some c) :
    ∃ before' rest', c ∈ run r (.start before' rest') := by
  induction rest generalizing before with
  | nil => exact ⟨before, [], List.mem_of_mem_head? hfound⟩
  | cons b rest ih =>
      rw [searchFrom] at hfound
      split at hfound
      next d hstart =>
        cases hfound
        exact ⟨before, b :: rest, List.mem_of_mem_head? hstart⟩
      next => exact ih hfound

/-- The groups of the match that is found are in order. -/
theorem ordered_of_search {r : Regex} {subject : Bytes} {c : Cursor}
    (hfound : search r subject = some c) : c.Ordered := by
  obtain ⟨before, rest, hmem⟩ := exists_of_searchFrom hfound
  have hforward := run_induction (R := fun c d => c.pos ≤ d.pos ∧ (c.Ordered → d.Ordered))
    (fun c => ⟨Nat.le_refl _, id⟩)
    (fun hfirst hsecond => ⟨hfirst.1.trans hsecond.1, hsecond.2 ∘ hfirst.2⟩)
    (fun c => ⟨c.pos_le_advance 1, id⟩)
    (fun index hcd => ⟨hcd.1, fun hc => (hcd.2 hc).capture index hcd.1⟩) hmem
  exact hforward.2 (Cursor.start_ordered before rest)

/-- A match at the start of the subject is the one that is found. -/
theorem search_of_start {r : Regex} {subject : Bytes} {c : Cursor}
    (hstart : (run r (.start [] subject)).head? = some c) : search r subject = some c := by
  cases subject with
  | nil => exact hstart
  | cons b rest => rw [search, searchFrom, hstart]

end Regex

end Blogd
