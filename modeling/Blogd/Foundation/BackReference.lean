import Mathlib.Data.List.Basic

/-! # Texts written with back references

A compressed text is a sequence of phrases: a run of symbols to be written as they are, or a
stretch to be copied from what has been written before. The stretch may overlap the place it is
copied to, so it is copied symbol by symbol.
-/

namespace Blogd.BackReference

variable {α : Type}

inductive Phrase (α : Type)
  | literal (run : List α)
  | copy (distance length : Nat)

/-- Copies symbols from the given distance behind the end of the text. -/
def copyBack (distance : Nat) : Nat → List α → Option (List α)
  | 0, text => some text
  | n + 1, text => do
      let x ← text[text.length - distance]?
      copyBack distance n (text ++ [x])

/-- What a phrase makes of the text before it. -/
def Phrase.expand (text : List α) : Phrase α → Option (List α)
  | .literal run => some (text ++ run)
  | .copy distance length =>
      if distance ≤ text.length then copyBack distance length text else none

/-- The text of a sequence of phrases, after the text before it. -/
def expand (phrases : List (Phrase α)) (text : List α) : Option (List α) :=
  phrases.foldlM Phrase.expand text

theorem expand_cons (t : Phrase α) (phrases : List (Phrase α)) (text : List α) :
    expand (t :: phrases) text = (t.expand text).bind (expand phrases) := by
  rw [expand, List.foldlM_cons]
  rfl

theorem expand_snoc {phrases : List (Phrase α)} {t : Phrase α} {text mid out : List α}
    (hmid : expand phrases text = some mid) (hout : t.expand mid = some out) :
    expand (phrases ++ [t]) text = some out := by
  rw [expand] at hmid ⊢
  rw [List.foldlM_append, hmid]
  simp [hout]

theorem isPrefix_copyBack {distance n : Nat} {text out : List α}
    (h : copyBack distance n text = some out) : text <+: out ∧ out.length = text.length + n := by
  induction n generalizing text with
  | zero =>
      obtain rfl := Option.some.inj h
      exact ⟨List.prefix_refl _, rfl⟩
  | succ n ih =>
      obtain ⟨x, -, hrest⟩ := Option.bind_eq_some_iff.mp h
      obtain ⟨hpre, hlen⟩ := ih hrest
      refine ⟨(List.prefix_append text [x]).trans hpre, ?_⟩
      rw [hlen, List.length_append, List.length_singleton]
      omega

/-- A copy always succeeds within the text. -/
theorem exists_copyBack {distance : Nat} (hpos : 0 < distance) (n : Nat) {text : List α}
    (hle : distance ≤ text.length) : ∃ out, copyBack distance n text = some out := by
  induction n generalizing text with
  | zero => exact ⟨text, rfl⟩
  | succ n ih =>
      have hlt : text.length - distance < text.length := by omega
      obtain ⟨out, hout⟩ := @ih (text ++ [text[text.length - distance]]) (by simp; omega)
      refine ⟨out, ?_⟩
      rw [copyBack, List.getElem?_eq_getElem hlt]
      exact hout

theorem Phrase.isPrefix_expand {t : Phrase α} {text out : List α} (h : t.expand text = some out) :
    text <+: out := by
  cases t with
  | literal run =>
      obtain rfl := Option.some.inj h
      exact List.prefix_append text run
  | copy distance length =>
      rw [Phrase.expand] at h
      split at h
      · exact (isPrefix_copyBack h).1
      · cases h

theorem isPrefix_expand {phrases : List (Phrase α)} {text out : List α}
    (h : expand phrases text = some out) : text <+: out := by
  induction phrases generalizing text with
  | nil =>
      obtain rfl := Option.some.inj h
      exact List.prefix_refl _
  | cons t phrases ih =>
      rw [expand_cons] at h
      obtain ⟨mid, hmid, hout⟩ := Option.bind_eq_some_iff.mp h
      exact (Phrase.isPrefix_expand hmid).trans (ih hout)

/-- A stretch that has been compared symbol by symbol with an earlier one is written by copying
that one. -/
theorem copyBack_take {distance n p : Nat} {text : List α} (hpos : 0 < distance)
    (hle : distance ≤ p) (hend : p + n ≤ text.length)
    (hmatch : ∀ k < n, text[p - distance + k]? = text[p + k]?) :
    copyBack distance n (text.take p) = some (text.take (p + n)) := by
  induction n generalizing p with
  | zero => rfl
  | succ n ih =>
      have hp : p < text.length := by omega
      have hlen : (text.take p).length = p := List.length_take_of_le (Nat.le_of_lt hp)
      have hx : (text.take p)[p - distance]? = some text[p] := by
        rw [List.getElem?_take_of_lt (by omega), ← Nat.add_zero (p - distance),
          hmatch 0 (Nat.succ_pos n)]
        exact List.getElem?_eq_getElem hp
      rw [copyBack, hlen, hx]
      change copyBack distance n (text.take p ++ [text[p]]) = _
      rw [List.take_append_getElem hp, Nat.add_comm n 1, ← Nat.add_assoc]
      apply ih (by omega) (by omega)
      intro k hk
      have h := hmatch (k + 1) (by omega)
      rw [show p - distance + (k + 1) = p + 1 - distance + k by omega,
        show p + (k + 1) = p + 1 + k by omega] at h
      exact h

/-- A stretch that does not reach the end of the text can be copied at once. -/
theorem copyBack_of_disjoint {distance n : Nat} {text : List α} (hpos : 0 < distance)
    (hn : n ≤ distance) (hle : distance ≤ text.length) :
    copyBack distance n text =
      some (text ++ (text.drop (text.length - distance)).take n) := by
  generalize hsource : (text.drop (text.length - distance)).take n = source
  have hlen : source.length = n := by
    rw [← hsource, List.length_take, List.length_drop]
    omega
  have hcopy := @copyBack_take α distance n text.length (text ++ source) hpos hle
    (Nat.le_of_eq (by rw [List.length_append, hlen])) ?_
  · rwa [List.take_left, ← hlen, ← List.length_append, List.take_length, hlen] at hcopy
  · intro k hk
    rw [List.getElem?_append_left (by omega), List.getElem?_append_right (by omega), ← hsource,
      List.getElem?_take_of_lt (by omega), List.getElem?_drop]
    congr 1
    omega

end Blogd.BackReference
