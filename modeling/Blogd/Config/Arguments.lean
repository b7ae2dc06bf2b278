import Blogd.Foundation.Bytes
import Mathlib.Data.List.DropRight

/-! # Lines and arguments

A configuration text is cut into lines, and a line into arguments, with quotes and escapes as in
a programming language. A value is written between quotes, so that it is read back whatever its
bytes are.
-/

namespace Blogd

/-! ## Lines -/

/-- `strchr(cset, c) != NULL`, where the end of the set is found as well. -/
def inSet (cset : Bytes) (c : UInt8) : Bool := c = 0 || cset.contains c

/-- `sdstrim` -/
def sdstrim (s cset : Bytes) : Bytes := (s.dropWhile (inSet cset)).rdropWhile (inSet cset)

/-- `" \t\r\n"` -/
def lineBlanks : Bytes := [32, 9, CR, LF]

/-- The lines of a text, as `sdssplitlen` with the separator `"\n"` cuts it. -/
def splitLines (text : Bytes) : List Bytes := if text = [] then [] else text.splitOn LF

/-- `line[0] == '#' || line[0] == '\0'` -/
def isComment (line : Bytes) : Bool := line.headD 0 = 35 || line.headD 0 = 0

/-! ## Arguments -/

/-- `is_hex_digit` -/
def isHexDigit (c : UInt8) : Bool :=
  isdigit c || (97 ≤ c && c ≤ 102) || (65 ≤ c && c ≤ 70)

/-- `hex_digit_to_int` -/
def hexDigitToInt (c : UInt8) : Nat :=
  if isdigit c then c.toNat - 48
  else if 97 ≤ c ∧ c ≤ 102 then c.toNat - 87
  else if 65 ≤ c ∧ c ≤ 70 then c.toNat - 55
  else 0

/-- The byte that an escape stands for: `\n`, `\r`, `\t`, `\b`, `\a` or the byte itself. -/
def unescape (c : UInt8) : UInt8 :=
  if c = 110 then 10
  else if c = 114 then 13
  else if c = 116 then 9
  else if c = 98 then 8
  else if c = 97 then 7
  else c

/-- A closing quote must be followed by a space or nothing at all. -/
def closes : Bytes → Bool
  | [] => true
  | c :: _ => isspace c

/-- The byte that the text behind a backslash stands for, and how many bytes it takes. -/
def escaped : Bytes → UInt8 × Nat
  | [] => (0, 0)
  | d :: rest =>
      match rest with
      | a :: b :: _ =>
          if d = 120 ∧ isHexDigit a ∧ isHexDigit b then
            ((hexDigitToInt a * 16 + hexDigitToInt b).toUInt8, 3)
          else (unescape d, 1)
      | _ => (unescape d, 1)

/-- The loop of `sdssplitargs` between double quotes: the argument and what follows it. The first
`skip` bytes belong to an escape that was read already. -/
def inQuotes : Nat → Bytes → Bytes → Option (Bytes × Bytes)
  | _, _, [] => none
  | skip + 1, current, _ :: rest => inQuotes skip current rest
  | 0, current, c :: rest =>
      if c = 92 ∧ rest ≠ [] then inQuotes (escaped rest).2 (current ++ [(escaped rest).1]) rest
      else if c = 34 then if closes rest then some (current, rest) else none
      else inQuotes 0 (current ++ [c]) rest

/-- The loop between single quotes, where only a quote can be escaped. -/
def inSingleQuotes : Nat → Bytes → Bytes → Option (Bytes × Bytes)
  | _, _, [] => none
  | skip + 1, current, _ :: rest => inSingleQuotes skip current rest
  | 0, current, c :: rest =>
      if c = 92 ∧ rest.head? = some 39 then inSingleQuotes 1 (current ++ [39]) rest
      else if c = 39 then if closes rest then some (current, rest) else none
      else inSingleQuotes 0 (current ++ [c]) rest

/-- The loop outside of quotes. -/
def inToken : Bytes → Bytes → Option (Bytes × Bytes)
  | current, [] => some (current, [])
  | current, c :: rest =>
      if c = 32 ∨ c = LF ∨ c = CR ∨ c = 9 then some (current, rest)
      else if c = 34 then inQuotes 0 current rest
      else if c = 39 then inSingleQuotes 0 current rest
      else inToken (current ++ [c]) rest

/-- The loop over the arguments. Each of them takes a byte at least. -/
def splitArgs : Nat → Bytes → Option (List Bytes)
  | 0, _ => some []
  | fuel + 1, line =>
      let rest := line.dropWhile isspace
      if rest = [] then some []
      else
        match inToken [] rest with
        | none => none
        | some (token, rest) => (splitArgs fuel rest).map (token :: ·)

/-- `sdssplitargs`: `none` when quotes are not balanced. -/
def sdssplitargs (line : Bytes) : Option (List Bytes) := splitArgs line.length (cstr line)

/-! ## Values between quotes -/

/-- `isprint` -/
def isprint (c : UInt8) : Bool := 32 ≤ c && c ≤ 126

/-- A digit as `%x` prints it. -/
def hexByte (d : Nat) : UInt8 := (if d < 10 then 48 + d else 87 + d).toUInt8

/-- One byte as `sdscatrepr` writes it. -/
def reprByte (c : UInt8) : Bytes :=
  if c = 92 ∨ c = 34 then [92, c]
  else if c = 10 then [92, 110]
  else if c = 13 then [92, 114]
  else if c = 9 then [92, 116]
  else if c = 7 then [92, 97]
  else if c = 8 then [92, 98]
  else if isprint c then [c]
  else [92, 120, hexByte (c.toNat / 16), hexByte (c.toNat % 16)]

/-- `sdscatrepr` of a value, onto an empty string. -/
def sdscatrepr (value : Bytes) : Bytes := 34 :: value.flatMap reprByte ++ [34]

/-! ## Trimmed lines -/

theorem sdstrim_eq_self {s cset : Bytes} {first last : UInt8} (hfirst : s.head? = some first)
    (hlast : s.getLast? = some last) (hleft : inSet cset first = false)
    (hright : inSet cset last = false) : sdstrim s cset = s := by
  have hdrop : s.dropWhile (inSet cset) = s := by
    cases s with
    | nil => rfl
    | cons c rest =>
        cases hfirst
        rw [List.dropWhile_cons, hleft]
        rfl
  rw [sdstrim, hdrop, List.rdropWhile_eq_self_iff]
  intro hne
  have hlast' := List.getLast?_eq_some_getLast hne
  rw [hlast, Option.some.injEq] at hlast'
  rw [← hlast', hright]
  exact Bool.false_ne_true

/-- A line that was trimmed stays as it is. -/
theorem sdstrim_sdstrim (s cset : Bytes) : sdstrim (sdstrim s cset) cset = sdstrim s cset := by
  have hdrop : (sdstrim s cset).dropWhile (inSet cset) = sdstrim s cset := by
    obtain ⟨tail, htail⟩ : sdstrim s cset <+: s.dropWhile (inSet cset) :=
      List.rdropWhile_prefix _ _
    cases htrim : sdstrim s cset with
    | nil => rfl
    | cons c rest =>
        rw [htrim, List.cons_append] at htail
        have hne : s.dropWhile (inSet cset) ≠ [] := by
          rw [← htail]
          exact List.cons_ne_nil _ _
        have hhead := List.head_dropWhile_not (inSet cset) hne
        simp only [← htail, List.head_cons] at hhead
        rw [List.dropWhile_cons, hhead]
        rfl
  rw [sdstrim, hdrop, sdstrim, List.rdropWhile_idempotent]

/-! ## Reading arguments back -/

/-- The bytes that stand for themselves in an argument without quotes. -/
def isPlain (c : UInt8) : Bool := !isspace c && c ≠ 34 && c ≠ 39 && c ≠ 0

theorem hexDigitToInt_hexByte {d : Nat} (hd : d < 16) :
    isHexDigit (hexByte d) = true ∧ hexDigitToInt (hexByte d) = d := by
  revert d
  decide

theorem inQuotes_escape (current rest : Bytes) {d : UInt8} (hd : d ≠ 120) :
    inQuotes 0 current (92 :: d :: rest) = inQuotes 0 (current ++ [unescape d]) rest := by
  have hescaped : escaped (d :: rest) = (unescape d, 1) := by
    rcases rest with _ | ⟨a, _ | ⟨b, rest⟩⟩
    · rfl
    · rfl
    · simp only [escaped, hd, false_and, if_false]
  simp [inQuotes, hescaped]

/-- Each byte is read back. -/
theorem inQuotes_reprByte (current : Bytes) (c : UInt8) (rest : Bytes) :
    inQuotes 0 current (reprByte c ++ rest) = inQuotes 0 (current ++ [c]) rest := by
  by_cases hquoted : c = 92 ∨ c = 34
  · rcases hquoted with rfl | rfl <;> exact inQuotes_escape current rest (by decide)
  by_cases hnamed : c = 10 ∨ c = 13 ∨ c = 9 ∨ c = 7 ∨ c = 8
  · rcases hnamed with rfl | rfl | rfl | rfl | rfl <;>
      exact inQuotes_escape current rest (by decide)
  simp only [not_or] at hquoted hnamed
  by_cases hprint : isprint c = true
  · simp [reprByte, hquoted, hnamed, hprint, inQuotes]
  · have hhigh : c.toNat / 16 < 16 := by
      have hc := c.toNat_lt
      omega
    obtain ⟨hdigit₁, hint₁⟩ := hexDigitToInt_hexByte hhigh
    obtain ⟨hdigit₂, hint₂⟩ := hexDigitToInt_hexByte (Nat.mod_lt c.toNat (by decide : 0 < 16))
    have hbyte : (c.toNat / 16 * 16 + c.toNat % 16).toUInt8 = c := by
      rw [Nat.div_add_mod']
      exact UInt8.ofNat_toNat
    simp [reprByte, hquoted, hnamed, hprint, inQuotes, escaped, hdigit₁, hdigit₂, hint₁, hint₂,
      hbyte]

theorem inQuotes_repr (current value : Bytes) :
    inQuotes 0 current (value.flatMap reprByte ++ [34]) = some (current ++ value, []) := by
  induction value generalizing current with
  | nil => simp [inQuotes, closes]
  | cons c value ih =>
      rw [List.flatMap_cons, List.append_assoc, inQuotes_reprByte, ih, List.append_assoc]
      rfl

theorem inToken_repr (value : Bytes) : inToken [] (sdscatrepr value) = some (value, []) := by
  have hquote : ¬ ((34 : UInt8) = 32 ∨ (34 : UInt8) = LF ∨ (34 : UInt8) = CR ∨
      (34 : UInt8) = 9) := by
    decide
  rw [sdscatrepr, List.cons_append, inToken, if_neg hquote, if_pos rfl, inQuotes_repr]
  rfl

theorem inToken_plain {word : Bytes} (hword : ∀ c ∈ word, isPlain c = true) (current : Bytes) :
    inToken current word = some (current ++ word, []) ∧
      ∀ rest, inToken current (word ++ 32 :: rest) = some (current ++ word, rest) := by
  induction word generalizing current with
  | nil => simp [inToken]
  | cons c word ih =>
      obtain ⟨hend, hnext⟩ := ih (fun d hd => hword d (List.mem_cons_of_mem c hd)) (current ++ [c])
      have hc := hword c List.mem_cons_self
      have hstep : ∀ line, inToken current (c :: line) = inToken (current ++ [c]) line := by
        intro line
        have hblank : ¬ (c = 32 ∨ c = LF ∨ c = CR ∨ c = 9) := by
          rintro (rfl | rfl | rfl | rfl) <;> exact absurd hc (by decide)
        have hdouble : c ≠ 34 := by
          rintro rfl
          exact absurd hc (by decide)
        have hsingle : c ≠ 39 := by
          rintro rfl
          exact absurd hc (by decide)
        rw [inToken, if_neg hblank, if_neg hdouble, if_neg hsingle]
      rw [List.append_assoc] at hend hnext
      exact ⟨(hstep word).trans hend, fun rest => (hstep _).trans (hnext rest)⟩

/-! ## Every argument takes a byte -/

theorem length_inQuotes {skip : Nat} {current line token rest : Bytes}
    (htoken : inQuotes skip current line = some (token, rest)) : rest.length < line.length := by
  fun_induction inQuotes skip current line with
  | case1 => cases htoken
  | case2 skip current c line ih => exact Nat.lt_succ_of_lt (ih htoken)
  | case3 current c line hescape ih => exact Nat.lt_succ_of_lt (ih htoken)
  | case4 =>
      cases htoken
      exact Nat.lt_succ_self _
  | case5 => cases htoken
  | case6 current c line hescape hquote ih => exact Nat.lt_succ_of_lt (ih htoken)

theorem length_inSingleQuotes {skip : Nat} {current line token rest : Bytes}
    (htoken : inSingleQuotes skip current line = some (token, rest)) :
    rest.length < line.length := by
  fun_induction inSingleQuotes skip current line with
  | case1 => cases htoken
  | case2 skip current c line ih => exact Nat.lt_succ_of_lt (ih htoken)
  | case3 current c line hescape ih => exact Nat.lt_succ_of_lt (ih htoken)
  | case4 =>
      cases htoken
      exact Nat.lt_succ_self _
  | case5 => cases htoken
  | case6 current c line hescape hquote ih => exact Nat.lt_succ_of_lt (ih htoken)

theorem length_inToken {current line token rest : Bytes}
    (htoken : inToken current line = some (token, rest)) :
    line = [] ∨ rest.length < line.length := by
  fun_induction inToken current line with
  | case1 => exact .inl rfl
  | case2 =>
      cases htoken
      exact .inr (Nat.lt_succ_self _)
  | case3 => exact .inr (Nat.lt_succ_of_lt (length_inQuotes htoken))
  | case4 => exact .inr (Nat.lt_succ_of_lt (length_inSingleQuotes htoken))
  | case5 current c line hblank hdouble hsingle ih =>
      rcases ih htoken with rfl | hlt
      · cases htoken
        exact .inr (Nat.lt_succ_self _)
      · exact .inr (Nat.lt_succ_of_lt hlt)

/-- There is always fuel for one argument more. -/
theorem splitArgs_succ {fuel : Nat} {line : Bytes} (hfuel : line.length ≤ fuel) :
    splitArgs (fuel + 1) line = splitArgs fuel line := by
  induction fuel generalizing line with
  | zero =>
      obtain rfl := List.eq_nil_of_length_eq_zero (Nat.le_zero.mp hfuel)
      rfl
  | succ fuel ih =>
      rw [splitArgs, splitArgs]
      split
      next => rfl
      next hrest =>
        cases htoken : inToken [] (line.dropWhile isspace) with
        | none => rfl
        | some found =>
            obtain ⟨token, rest⟩ := found
            have hshorter := (length_inToken htoken).resolve_left hrest
            have hdrop := (List.dropWhile_sublist isspace (l := line)).length_le
            have hsame : splitArgs (fuel + 1) rest = splitArgs fuel rest := ih (by omega)
            exact congrArg (Option.map (token :: ·)) hsame

theorem sdssplitargs_eq {line : Bytes} (hline : 0 ∉ line) (extra : Nat) :
    sdssplitargs line = splitArgs (line.length + extra) line := by
  rw [sdssplitargs, cstr_eq_self hline]
  induction extra with
  | zero => rfl
  | succ extra ih => rw [ih, ← Nat.add_assoc, splitArgs_succ (Nat.le_add_right _ _)]

/-- A line of two arguments, the first of which is a word. -/
theorem sdssplitargs_pair {name text value : Bytes} (hname : name ≠ [])
    (hword : ∀ c ∈ name, isPlain c = true) (htext : 0 ∉ text) (hfirst : closes text = false)
    (hvalue : inToken [] text = some (value, [])) :
    sdssplitargs (name ++ 32 :: text) = some [name, value] := by
  have hline : (0 : UInt8) ∉ name ++ 32 :: text := by
    rw [List.mem_append, List.mem_cons, not_or, not_or]
    exact ⟨fun hmem => absurd (hword 0 hmem) (by decide), by decide, htext⟩
  have hstart : (name ++ 32 :: text).dropWhile isspace = name ++ 32 :: text := by
    cases name with
    | nil => exact absurd rfl hname
    | cons c name =>
        have hc : isspace c = false := by
          have hplain := hword c List.mem_cons_self
          simp only [isPlain, Bool.and_eq_true, Bool.not_eq_true'] at hplain
          exact hplain.1.1.1
        rw [List.cons_append, List.dropWhile_cons, hc]
        rfl
  have hnext : text.dropWhile isspace = text := by
    cases text with
    | nil => rfl
    | cons c text =>
        rw [List.dropWhile_cons, show isspace c = false from hfirst]
        rfl
  have htext_ne : text ≠ [] := by
    rintro rfl
    cases hfirst
  have hfirstToken := (inToken_plain hword []).2 text
  have hrest : ∀ fuel, splitArgs (fuel + 1) text = some [value] := by
    intro fuel
    rw [splitArgs, hnext, if_neg htext_ne, hvalue]
    cases fuel <;> rfl
  -- two rounds of fuel more than the length, one for each argument
  rw [sdssplitargs_eq hline 2, splitArgs, hstart, if_neg (by simp), hfirstToken]
  exact congrArg (Option.map (name :: ·)) (hrest _)

end Blogd
