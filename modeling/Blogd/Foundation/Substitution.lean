import Blogd.Foundation.Occurrence

/-! # Replacing several texts

A pattern that does not overlap itself is replaced in a concatenation as in its parts, unless an
occurrence lies across a boundary. So a chain of replacements, each in the result of the one
before, is the same as replacing all patterns of the original text at once, as long as every
pattern is met only where the original text has it.
-/

namespace Blogd

section Overlap

variable {α : Type} {p q x y : List α}

/-- No proper end of the pattern begins it again. -/
def Unbordered (p : List α) : Prop := ∀ i < p.length, 0 < i → ¬ p.drop i <+: p

/-- No occurrence of `q` begins inside an occurrence of `p`. -/
def Apart (p q : List α) : Prop := ∀ i < p.length, ¬ p.drop i <+: q ∧ ¬ q <+: p.drop i

/-- Two occurrences of an unbordered pattern do not overlap. -/
theorem Unbordered.le_of_occurs (hp : Unbordered p) {t : List α} {j k : Nat} (hj : p <+: t.drop j)
    (hk : p <+: t.drop k) (hlt : j < k) : j + p.length ≤ k := by
  apply Nat.le_of_not_lt
  intro hover
  refine hp (k - j) (by omega) (by omega) ?_
  have hdrop : p.drop (k - j) <+: t.drop k := by
    have htail := hj.drop (k - j)
    rwa [List.drop_drop, Nat.add_sub_cancel' (Nat.le_of_lt hlt)] at htail
  exact List.prefix_of_prefix_length_le hdrop hk (by rw [List.length_drop]; omega)

/-- An occurrence in a concatenation that ends in the first part is one of the first part. -/
theorem occurs_left {k : Nat} (hk : p <+: (x ++ y).drop k) (hle : k + p.length ≤ x.length) :
    p <+: x.drop k := by
  rw [List.drop_append_of_le_length (by omega)] at hk
  exact List.prefix_of_prefix_length_le hk (List.prefix_append _ _)
    (by rw [List.length_drop]; omega)

theorem occurs_append {k : Nat} (hk : p <+: x.drop k) (hle : k ≤ x.length) (y : List α) :
    p <+: (x ++ y).drop k := by
  rw [List.drop_append_of_le_length hle]
  exact hk.trans (List.prefix_append _ _)

/-- Behind the first part, the second one goes on. -/
theorem drop_append_behind {n : Nat} (hn : x.length ≤ n) (y : List α) :
    (x ++ y).drop n = y.drop (n - x.length) := by
  rw [List.drop_append, List.drop_eq_nil_of_le hn, List.nil_append]

theorem FirstAt.of_append_left {k : Nat} (hfirst : FirstAt p (x ++ y) k)
    (hin : k + p.length ≤ x.length) : FirstAt p x k := by
  refine ⟨occurs_left hfirst.occurs hin, fun j hj hoccurs => ?_⟩
  exact hfirst.first j hj (occurs_append hoccurs (by omega) y)

theorem FirstAt.of_append_right {k : Nat} (hfirst : FirstAt p (x ++ y) k)
    (hright : x.length ≤ k) : FirstAt p y (k - x.length) := by
  constructor
  · rw [← drop_append_behind hright]
    exact hfirst.occurs
  · intro j hj hoccurs
    refine hfirst.first (x.length + j) (by omega) ?_
    rw [drop_append_behind (Nat.le_add_right _ _), Nat.add_sub_cancel_left]
    exact hoccurs

theorem Apart.not_occurs (hapart : Apart p q) (rest : List α) {i : Nat} (hi : i < p.length) :
    ¬ q <+: (p ++ rest).drop i := by
  intro hoccurs
  rw [List.drop_append_of_le_length (Nat.le_of_lt hi)] at hoccurs
  rcases Nat.le_total q.length (p.drop i).length with hle | hle
  · exact (hapart i hi).2
      (List.prefix_of_prefix_length_le hoccurs (List.prefix_append _ _) hle)
  · exact (hapart i hi).1
      (List.prefix_of_prefix_length_le (List.prefix_append _ _) hoccurs hle)

namespace CutInto

variable {xs ys zs : List (List α)}

/-- Without an occurrence that begins in front of a place, the cuts are those behind it. -/
theorem length_drop {n : Nat}
    (hnone : ∀ i < n, ¬ p <+: x.drop i) (hx : CutInto p x xs) (hdrop : CutInto p (x.drop n) ys) :
    xs.length = ys.length := by
  cases hdrop with
  | whole habsent =>
      have hwhole : ¬ p <:+: x := by
        intro hoccurs
        obtain ⟨k, hk⟩ := exists_occurs_of_isInfix hoccurs
        have hle : n ≤ k := Nat.le_of_not_lt fun hlt => hnone k hlt hk
        refine not_occurs_of_not_isInfix habsent (k - n) ?_
        rwa [List.drop_drop, Nat.add_sub_cancel' hle]
      rw [hx.unique (.whole hwhole)]
      rfl
  | @piece _ k pieces hfirst hrest =>
      have hshift : FirstAt p x (n + k) := by
        constructor
        · rw [← List.drop_drop]
          exact hfirst.occurs
        · intro j hj hoccurs
          have hle : n ≤ j := Nat.le_of_not_lt fun hlt => hnone j hlt hoccurs
          refine hfirst.first (j - n) (by omega) ?_
          rwa [List.drop_drop, Nat.add_sub_cancel' hle]
      rw [List.drop_drop, ← Nat.add_assoc] at hrest
      rw [hx.unique (.piece hshift hrest)]
      rfl

/-- The cuts of a concatenation are those of its parts, and one more where an occurrence lies
across the boundary. Without such an occurrence the pieces are those of the parts. -/
theorem append (hp : p ≠ []) (hun : Unbordered p) (hx : CutInto p x xs) (hy : CutInto p y ys)
    (hz : CutInto p (x ++ y) zs) :
    xs.length + ys.length ≤ zs.length + 1 ∧
      (zs.length + 1 = xs.length + ys.length →
        ∀ v : List α, v.intercalate zs = v.intercalate xs ++ v.intercalate ys) := by
  have hpos := List.length_pos_iff.mpr hp
  generalize hxy : x ++ y = z at hz
  induction hz generalizing x xs with
  | whole habsent =>
      have habsentX : ¬ p <:+: x := fun h =>
        habsent (hxy ▸ h.trans (List.prefix_append x y).isInfix)
      have habsentY : ¬ p <:+: y := fun h =>
        habsent (hxy ▸ h.trans (List.suffix_append x y).isInfix)
      rw [hx.unique (.whole habsentX), hy.unique (.whole habsentY)]
      refine ⟨Nat.le_refl _, fun _ v => ?_⟩
      rw [List.intercalate_singleton, List.intercalate_singleton, List.intercalate_singleton, hxy]
  | @piece z k zs hfirst hrest ih =>
      subst hxy
      -- what occurs in the first part occurs in the whole, not before the first place
      have hinX : ∀ j, p <+: x.drop j → k ≤ j ∧ j + p.length ≤ x.length := by
        intro j hj
        have hle := length_le_of_occurs hp hj
        refine ⟨Nat.le_of_not_lt fun hlt => ?_, hle⟩
        exact hfirst.first j hlt (occurs_append hj (by omega) y)
      rcases Nat.lt_or_ge x.length (k + p.length) with hout | hin
      · have habsentX : ¬ p <:+: x := by
          intro hoccurs
          obtain ⟨j, hj⟩ := exists_occurs_of_isInfix hoccurs
          obtain ⟨hkj, hjx⟩ := hinX j hj
          have hover := hun.le_of_occurs hfirst.occurs (occurs_append hj (by omega) y) (by omega)
          omega
        rw [hx.unique (.whole habsentX)]
        rcases Nat.lt_or_ge k x.length with hacross | hright
        · -- across the boundary: the second part has no cut before the end of this one
          rw [drop_append_behind (by omega)] at hrest
          have hsame := hy.length_drop (fun i hi hoccurs => ?_) hrest
          · simp only [List.length_cons, List.length_nil]
            exact ⟨by omega, fun heq => by omega⟩
          · have hin : p <+: (x ++ y).drop (x.length + i) := by
              rw [drop_append_behind (Nat.le_add_right _ _), Nat.add_sub_cancel_left]
              exact hoccurs
            have hover := hun.le_of_occurs hfirst.occurs hin (by omega)
            omega
        · -- behind the boundary: the first cut of the second part
          have hrestY : CutInto p (y.drop (k - x.length + p.length)) zs := by
            rw [drop_append_behind (by omega)] at hrest
            rwa [Nat.sub_add_comm hright] at hrest
          rw [hy.unique (.piece (hfirst.of_append_right hright) hrestY)]
          refine ⟨by simp only [List.length_cons, List.length_nil]; omega, fun _ v => ?_⟩
          rw [hrest.intercalate_cons, hrest.intercalate_cons, List.intercalate_singleton,
            List.take_append, List.take_of_length_le hright]
          simp only [List.append_assoc]
      · -- inside the first part: its first cut
        obtain ⟨xs', hxs'⟩ := exists_of_ne_nil hp (x.drop (k + p.length))
        have hdrop : x.drop (k + p.length) ++ y = (x ++ y).drop (k + p.length) := by
          rw [List.drop_append_of_le_length hin]
        obtain ⟨hle, hjoin⟩ := ih hxs' hdrop
        rw [hx.unique (.piece (hfirst.of_append_left hin) hxs')]
        refine ⟨by simp only [List.length_cons]; omega, fun heq v => ?_⟩
        simp only [List.length_cons] at heq
        rw [hrest.intercalate_cons, hxs'.intercalate_cons, hjoin (by omega) v,
          List.take_append_of_le_length (by omega)]
        simp only [List.append_assoc]

theorem eq_singleton_of_length (hx : CutInto p x xs) (hlength : xs.length = 1) : xs = [x] := by
  cases hx with
  | whole _ => rfl
  | piece _ hrest =>
      have hpos := List.length_pos_iff.mpr hrest.ne_nil
      rw [List.length_cons] at hlength
      omega

theorem self (hp : p ≠ []) : CutInto p p [[], []] := by
  have hfirst : FirstAt p p 0 :=
    ⟨by rw [List.drop_zero], fun j hj => absurd hj (Nat.not_lt_zero j)⟩
  refine .piece hfirst ?_
  rw [Nat.zero_add, List.drop_length]
  exact .whole fun h => hp (List.infix_nil.mp h)

end CutInto

end Overlap

/-! ## Texts with holes -/

section Holes

variable {α : Type}

/-- A text read as single elements and places of patterns. -/
inductive Token (α : Type)
  | lit (a : α)
  | hole (p : List α)

/-- What a token stands for when the patterns stand for texts. -/
def Token.text (value : List α → List α) : Token α → List α
  | lit a => [a]
  | hole p => value p

def fill (value : List α → List α) (tokens : List (Token α)) : List α :=
  tokens.flatMap (Token.text value)

theorem fill_congr {value value' : List α → List α} {tokens : List (Token α)}
    (hsame : ∀ p, .hole p ∈ tokens → value p = value' p) :
    fill value tokens = fill value' tokens := by
  apply List.flatMap_congr
  intro token htoken
  cases token with
  | lit a => rfl
  | hole p => exact hsame p htoken

/-- Patterns of two elements or more that do not overlap themselves or each other. -/
structure Separate (patterns : List (List α)) : Prop where
  two_le : ∀ p ∈ patterns, 2 ≤ p.length
  unbordered : ∀ p ∈ patterns, Unbordered p
  apart : ∀ p ∈ patterns, ∀ q ∈ patterns, p ≠ q → Apart p q

theorem Separate.ne_nil {patterns : List (List α)} (hsep : Separate patterns) {p : List α}
    (hp : p ∈ patterns) : p ≠ [] := by
  rintro rfl
  exact absurd (hsep.two_le [] hp) (by simp)

variable [DecidableEq α]

/-- The tokens of a text, from the left, with fuel for its length. -/
def scan (patterns : List (List α)) : Nat → List α → List (Token α)
  | 0, _ => []
  | _ + 1, [] => []
  | fuel + 1, a :: rest =>
      match patterns.find? fun p => p.isPrefixOf (a :: rest) with
      | some p => .hole p :: scan patterns fuel ((a :: rest).drop p.length)
      | none => .lit a :: scan patterns fuel rest

/-- Whether a token is a place of the pattern. -/
def Token.isHole (p : List α) : Token α → Bool
  | lit _ => false
  | hole q => q = p

/-- The number of places of a pattern. -/
def holes (p : List α) (tokens : List (Token α)) : Nat := tokens.countP (Token.isHole p)

theorem holes_cons (p : List α) (token : Token α) (tokens : List (Token α)) :
    holes p (token :: tokens) = (token.isHole p).toNat + holes p tokens := by
  rw [holes, List.countP_cons, Nat.add_comm]
  cases token.isHole p <;> rfl

variable {patterns : List (List α)} {tokens : List (Token α)} {p t v : List α}
  {value : List α → List α} {fuel : Nat} {zs : List (List α)}

/-- The tokens of a text give it back. -/
theorem fill_scan (hsep : Separate patterns) (hfuel : t.length ≤ fuel) :
    fill id (scan patterns fuel t) = t := by
  induction fuel generalizing t with
  | zero => rw [List.length_eq_zero_iff.mp (Nat.le_zero.mp hfuel)]; rfl
  | succ fuel ih =>
      cases t with
      | nil => rfl
      | cons a rest =>
          rw [scan]
          cases hfind : patterns.find? fun p => p.isPrefixOf (a :: rest) with
          | none =>
              have hrest := ih (t := rest) (by simpa using hfuel)
              simp only [fill, List.flatMap_cons, Token.text, List.singleton_append] at hrest ⊢
              rw [hrest]
          | some p =>
              have hfound := List.find?_some hfind
              have hp : p <+: a :: rest := List.isPrefixOf_iff_prefix.mp hfound
              have htwo := hsep.two_le p (List.mem_of_find?_eq_some hfind)
              have hrest := ih (t := (a :: rest).drop p.length)
                (by simp only [List.length_drop, List.length_cons] at hfuel ⊢; omega)
              obtain ⟨more, hmore⟩ := hp
              dsimp only
              rw [← hmore, List.drop_left] at hrest ⊢
              simp only [fill, List.flatMap_cons, Token.text, id] at hrest ⊢
              rw [hrest]

/-- Every occurrence of a pattern in the text is one of its places. -/
theorem length_cut_scan (hsep : Separate patterns) (hp : p ∈ patterns) (hfuel : t.length ≤ fuel)
    (hcut : CutInto p t zs) : zs.length = holes p (scan patterns fuel t) + 1 := by
  induction fuel generalizing t zs with
  | zero =>
      obtain rfl := List.length_eq_zero_iff.mp (Nat.le_zero.mp hfuel)
      rw [hcut.unique (.whole fun h => hsep.ne_nil hp (List.infix_nil.mp h))]
      rfl
  | succ fuel ih =>
      cases t with
      | nil =>
          rw [hcut.unique (.whole fun h => hsep.ne_nil hp (List.infix_nil.mp h))]
          rfl
      | cons a rest =>
          rw [scan]
          cases hfind : patterns.find? fun p => p.isPrefixOf (a :: rest) with
          | none =>
              obtain ⟨ys, hys⟩ := CutInto.exists_of_ne_nil (hsep.ne_nil hp) rest
              have hsame := @CutInto.length_drop _ p (a :: rest) zs ys 1 ?_ hcut hys
              · have hrest := ih (by simpa using hfuel) hys
                rw [hsame, hrest, holes_cons]
                exact Nat.add_right_cancel_iff.mpr (Nat.zero_add _).symm
              · intro i hi hoccurs
                obtain rfl : i = 0 := by omega
                have hnone := List.find?_eq_none.mp hfind p hp
                exact hnone (List.isPrefixOf_iff_prefix.mpr hoccurs)
          | some q =>
              have hfound := List.find?_some hfind
              have hq := List.mem_of_find?_eq_some hfind
              obtain ⟨more, hmore⟩ := List.isPrefixOf_iff_prefix.mp hfound
              have htwo := hsep.two_le q hq
              have hlength := congrArg List.length hmore
              rw [List.length_append] at hlength
              obtain ⟨ys, hys⟩ := CutInto.exists_of_ne_nil (hsep.ne_nil hp) more
              have hrest := ih (t := more) (by omega) hys
              dsimp only
              rw [← hmore, List.drop_left]
              rw [← hmore] at hcut
              -- a place of `p` is its first cut, and no occurrence of `p` overlaps a place of
              -- another one
              by_cases hqp : q = p
              · subst hqp
                have hfirst : FirstAt q (q ++ more) 0 :=
                  ⟨List.prefix_append _ _, fun j hj => absurd hj (Nat.not_lt_zero j)⟩
                have hdrop : (q ++ more).drop (0 + q.length) = more := by
                  rw [Nat.zero_add, List.drop_left]
                rw [hcut.unique (.piece hfirst (by rw [hdrop]; exact hys)), List.length_cons, hrest,
                  holes_cons]
                simp [Token.isHole, Nat.add_comm]
              · have hmoreCut : CutInto p ((q ++ more).drop q.length) ys := by
                  rw [List.drop_left]
                  exact hys
                have hsame := CutInto.length_drop
                  (fun i hi => (hsep.apart q hq p hp hqp).not_occurs more hi) hcut hmoreCut
                rw [hsame, hrest, holes_cons]
                simp [Token.isHole, hqp]

section Fill

variable (hp : 2 ≤ p.length) (hvalue : value p = p)

include hp hvalue

theorem cut_token {token : Token α} (hcut : CutInto p (token.text value) zs) :
    (token.isHole p).toNat + 1 ≤ zs.length ∧
      (zs.length = (token.isHole p).toNat + 1 →
        v.intercalate zs = token.text fun q => if q = p then v else value q) := by
  cases token with
  | lit a =>
      have habsent : ¬ p <:+: [a] := by
        intro hoccurs
        have hle := hoccurs.length_le
        rw [List.length_singleton] at hle
        omega
      rw [hcut.unique (.whole habsent)]
      exact ⟨Nat.le_refl _, fun _ => List.intercalate_singleton⟩
  | hole q =>
      by_cases hq : q = p
      · subst hq
        rw [Token.text, hvalue] at hcut
        rw [hcut.unique (.self (List.length_pos_iff.mp (by omega)))]
        simp [Token.isHole, Token.text, List.intercalate]
      · have hpos := List.length_pos_iff.mpr hcut.ne_nil
        simp only [Token.isHole, hq, decide_false, Bool.toNat_false, Nat.zero_add, Token.text,
          if_false]
        refine ⟨hpos, fun hlength => ?_⟩
        rw [hcut.eq_singleton_of_length hlength, List.intercalate_singleton]
        rfl

/-- Replacing a pattern in a text with holes. It is met at least at its own places, and when it is
met nowhere else the result has the replacement there and is the same elsewhere. -/
theorem cut_fill (hun : Unbordered p) (hcut : CutInto p (fill value tokens) zs) :
    holes p tokens + 1 ≤ zs.length ∧
      (zs.length = holes p tokens + 1 →
        v.intercalate zs = fill (fun q => if q = p then v else value q) tokens) := by
  have hne : p ≠ [] := List.length_pos_iff.mp (by omega)
  induction tokens generalizing zs with
  | nil =>
      rw [hcut.unique (.whole fun h => hne (List.infix_nil.mp h))]
      exact ⟨Nat.le_refl _, fun _ => List.intercalate_singleton⟩
  | cons token tokens ih =>
      obtain ⟨xs, hxs⟩ := CutInto.exists_of_ne_nil hne (token.text value)
      obtain ⟨ys, hys⟩ := CutInto.exists_of_ne_nil hne (fill value tokens)
      obtain ⟨hle, hjoin⟩ := CutInto.append hne hun hxs hys hcut
      obtain ⟨hleToken, hjoinToken⟩ := @cut_token _ _ p v value xs hp hvalue token hxs
      obtain ⟨hleRest, hjoinRest⟩ := ih hys
      rw [holes_cons]
      refine ⟨by omega, fun heq => ?_⟩
      -- no place is met twice, so every part has as many cuts as it has places
      rw [hjoin (by omega), hjoinToken (by omega), hjoinRest (by omega)]
      rfl

end Fill

end Holes

end Blogd
