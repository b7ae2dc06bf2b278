import Mathlib.Data.List.Infix
import Blogd.Foundation.Bytes

/-! # Paths

A path is read as a walk over its segments, without a look at the file system: an empty segment
and a dot stay, two dots go up, and any other segment is a name to go down to. The walk ends at a
location. From the root it cannot go up. From an unknown directory the steps up are counted.
-/

namespace Blogd

def slash : UInt8 := 47
def dotSegment : Bytes := [46]
def parentSegment : Bytes := [46, 46]

/-- Where a walk is: below the root or below the directory it started in, so many levels up and
then down the names. -/
structure Location where
  absolute : Bool
  ups : Nat
  names : List Bytes
deriving DecidableEq, Repr

def isAbsolute (text : Bytes) : Bool := text.head? = some slash

namespace Location

/-- One segment of a walk. -/
def move (l : Location) (segment : Bytes) : Location :=
  if segment = [] ∨ segment = dotSegment then l
  else if segment = parentSegment then
    if l.names ≠ [] then { l with names := l.names.dropLast }
    else if l.absolute then l
    else { l with ups := l.ups + 1 }
  else { l with names := l.names ++ [segment] }

def walk (l : Location) (text : Bytes) : Location := (text.splitOn slash).foldl move l

/-- The location of a path. -/
def ofPath (text : Bytes) : Location := walk ⟨isAbsolute text, 0, []⟩ text

/-- A location is another one or lies below it. -/
def Below (l base : Location) : Prop :=
  l.absolute = base.absolute ∧ l.ups = base.ups ∧ base.names <+: l.names

instance (l base : Location) : Decidable (l.Below base) :=
  inferInstanceAs (Decidable (_ ∧ _ ∧ _))

/-! ## Walks from elsewhere -/

/-- Where a path leads from a directory of which nothing is known. -/
def displacement (text : Bytes) : Location := walk ⟨false, 0, []⟩ text

/-- Following a displacement: as many levels up, and then down the names. -/
def follow (l d : Location) : Location where
  absolute := l.absolute
  ups := if l.absolute then l.ups else l.ups + (d.ups - l.names.length)
  names := l.names.take (l.names.length - d.ups) ++ d.names

theorem move_absolute (l : Location) (segment : Bytes) :
    (l.move segment).absolute = l.absolute := by
  unfold move
  repeat' split
  all_goals rfl

theorem foldl_move_absolute (l : Location) (segments : List Bytes) :
    (segments.foldl move l).absolute = l.absolute := by
  induction segments generalizing l with
  | nil => rfl
  | cons segment rest ih => exact (ih _).trans (l.move_absolute segment)

theorem dropLast_take {names : List Bytes} {n : Nat} (hn : n < names.length) :
    (names.take (n + 1)).dropLast = names.take n := by
  rw [List.dropLast_eq_take, List.length_take, List.take_take]
  congr 1
  omega

/-- A step after a displacement is a step of the displacement. -/
theorem follow_move (l d : Location) (hd : d.absolute = false) (segment : Bytes) :
    (l.follow d).move segment = l.follow (d.move segment) := by
  by_cases hstay : segment = [] ∨ segment = dotSegment
  · rw [move, if_pos hstay, move, if_pos hstay]
  by_cases hup : segment = parentSegment
  · simp only [move, if_neg hstay, if_pos hup]
    by_cases hnames : d.names = []
    · rw [if_neg (not_not.mpr hnames), hd]
      by_cases hleft : d.ups < l.names.length
      · -- there is a name of the start to leave
        have hne : (l.follow d).names ≠ [] := by
          simp only [follow, hnames, List.append_nil]
          intro hnil
          have hlength := congrArg List.length hnil
          rw [List.length_take, List.length_nil] at hlength
          omega
        rw [if_pos hne]
        have hsucc : l.names.length - d.ups = (l.names.length - (d.ups + 1)) + 1 := by omega
        simp only [follow, hnames, List.append_nil, Bool.false_eq_true, if_false]
        rw [hsucc, dropLast_take (by omega)]
        congr 1
        split
        next => rfl
        next => omega
      · -- the start is left behind
        have hzero : l.names.length - d.ups = 0 := by omega
        have hzero' : l.names.length - (d.ups + 1) = 0 := by omega
        have hnil : (l.follow d).names = [] := by
          simp [follow, hnames, hzero]
        rw [if_neg (not_not.mpr hnil)]
        simp only [follow, hnames, hzero, hzero', Bool.false_eq_true, if_false]
        split
        next => rfl
        next => congr 1; omega
    · have hne : (l.follow d).names ≠ [] := by
        simp only [follow]
        exact List.append_ne_nil_of_right_ne_nil _ hnames
      rw [if_pos hne, if_pos hnames]
      simp only [follow, List.dropLast_append_of_ne_nil hnames]
  · simp only [move, if_neg hstay, if_neg hup, follow, List.append_assoc]

/-- A walk from a location follows the displacement of its path. -/
theorem walk_eq_follow (l : Location) (text : Bytes) :
    l.walk text = l.follow (displacement text) := by
  have hfold : ∀ (segments : List Bytes) (d : Location), d.absolute = false →
      segments.foldl move (l.follow d) = l.follow (segments.foldl move d) := by
    intro segments
    induction segments with
    | nil => exact fun _ _ => rfl
    | cons segment rest ih =>
        intro d hd
        rw [List.foldl_cons, follow_move l d hd, ih _ ((d.move_absolute segment).trans hd),
          List.foldl_cons]
  have hstart : l.follow ⟨false, 0, []⟩ = l := by
    simp [follow]
  rw [walk, displacement, walk, ← hfold _ _ rfl, hstart]

/-! ## Directories -/

/-- The part of a path behind its last slash. -/
def lastPart (text : Bytes) : Bytes := (text.reverse.takeWhile (· ≠ slash)).reverse

/-- The part of a path up to its last slash. -/
def dirPart (text : Bytes) : Bytes := (text.reverse.dropWhile (· ≠ slash)).reverse

theorem dirPart_append_lastPart (text : Bytes) : dirPart text ++ lastPart text = text := by
  rw [dirPart, lastPart, ← List.reverse_append, List.takeWhile_append_dropWhile,
    List.reverse_reverse]

/-- A walk to a path that ends in a slash goes on from there. -/
theorem walk_dirPart (l : Location) (text more : Bytes) :
    l.walk (dirPart text ++ more) = (l.walk (dirPart text)).walk more := by
  rw [dirPart]
  cases hdrop : text.reverse.dropWhile (· ≠ slash) with
  | nil => rfl
  | cons c rest =>
      have hc : c = slash := by
        have hhead := List.head?_dropWhile_not (fun x : UInt8 => decide (x ≠ slash)) text.reverse
        rw [hdrop] at hhead
        simpa using hhead
      subst hc
      rw [List.reverse_cons, List.append_assoc, List.singleton_append]
      simp only [walk]
      rw [List.splitOn_append_cons_self, List.splitOn_append_cons_self, List.foldl_append,
        List.foldl_append]
      rfl

theorem slash_notMem_lastPart (text : Bytes) : slash ∉ lastPart text := by
  intro hmem
  have hne := List.mem_takeWhile_imp (List.mem_reverse.mp hmem)
  simp at hne

theorem isAbsolute_dirPart (text : Bytes) : isAbsolute (dirPart text) = isAbsolute text := by
  have hsplit := dirPart_append_lastPart text
  cases hdir : dirPart text with
  | cons c rest =>
      rw [hdir] at hsplit
      rw [← hsplit]
      rfl
  | nil =>
      rw [hdir, List.nil_append] at hsplit
      rw [← hsplit]
      cases hlast : lastPart text with
      | nil => rfl
      | cons c rest =>
          have hc := slash_notMem_lastPart text
          rw [hlast] at hc
          have hne : c ≠ slash := fun heq => hc (heq ▸ List.mem_cons_self)
          simp [isAbsolute, hne]

/-- A single segment goes up or down, but not both. -/
theorem displacement_lastPart (text : Bytes) :
    (displacement (lastPart text)).ups = 0 ∨ (displacement (lastPart text)).names = [] := by
  rw [displacement, walk, List.splitOn_eq_singleton (slash_notMem_lastPart text),
    List.foldl_cons, List.foldl_nil, move]
  repeat' split
  all_goals simp

/-! ## Staying below a directory -/

theorem prefix_append_iff {names first second : List Bytes}
    (hfirst : names.take first.length <+: first) :
    names <+: first ++ second ↔ names.drop first.length <+: second := by
  constructor
  · intro hnames
    have hdrop := hnames.drop first.length
    rwa [List.drop_left] at hdrop
  · intro hrest
    by_cases hle : names.length ≤ first.length
    · rw [List.take_of_length_le hle] at hfirst
      exact hfirst.trans (List.prefix_append _ _)
    · have hall : names.take first.length = first :=
        hfirst.eq_of_length (by rw [List.length_take]; omega)
      obtain ⟨more, hmore⟩ := hrest
      refine ⟨more, ?_⟩
      rw [← List.take_append_drop first.length names, hall, List.append_assoc, hmore]

/-- Of two places reached from one base, the first lies below the second when it leaves as much of
the base behind or names it again. -/
theorem follow_below_iff (base d own : Location) (hown : own.ups = 0 ∨ own.names = []) :
    (base.follow d).Below (base.follow own) ↔
      (base.absolute = true ∨ d.ups - base.names.length = own.ups - base.names.length) ∧
        (base.follow own).names.drop (base.names.length - d.ups) <+: d.names := by
  have hups : (base.follow d).ups = (base.follow own).ups ↔
      base.absolute = true ∨ d.ups - base.names.length = own.ups - base.names.length := by
    cases habsolute : base.absolute with
    | true => simp [follow, habsolute]
    | false => simp [follow, habsolute]
  have hlength : (base.names.take (base.names.length - d.ups)).length =
      base.names.length - d.ups := by
    rw [List.length_take]
    omega
  -- the second place agrees with what the steps up leave of the base, as far as it goes
  have hcommon : (base.follow own).names.take (base.names.length - d.ups) <+:
      base.names.take (base.names.length - d.ups) := by
    rcases hown with hown | hown
    · simp only [follow, hown, Nat.sub_zero, List.take_length]
      exact ⟨[], by rw [List.append_nil, List.take_append_of_le_length (Nat.sub_le _ _)]⟩
    · simp only [follow, hown, List.append_nil, List.take_take]
      exact List.take_isPrefix_take.mpr (.inl (Nat.min_le_left _ _))
  have hnames := @prefix_append_iff (base.follow own).names
    (base.names.take (base.names.length - d.ups)) d.names (by rw [hlength]; exact hcommon)
  rw [hlength] at hnames
  unfold Below
  rw [hups]
  constructor
  · rintro ⟨-, hup, hbelow⟩
    exact ⟨hup, hnames.mp hbelow⟩
  · rintro ⟨hup, hagain⟩
    exact ⟨rfl, hup, hnames.mpr hagain⟩

/-- A path put behind the name of a directory leads into it: the two begin at the same place, and
what the steps up leave of the directory is named again. -/
def StaysBelow (dir asked : Bytes) : Prop :=
  isAbsolute (dir ++ asked) = isAbsolute dir ∧
    ((ofPath (dirPart dir)).absolute = true ∨
      (displacement (lastPart dir ++ asked)).ups - (ofPath (dirPart dir)).names.length =
        (displacement (lastPart dir)).ups - (ofPath (dirPart dir)).names.length) ∧
    (ofPath dir).names.drop
        ((ofPath (dirPart dir)).names.length - (displacement (lastPart dir ++ asked)).ups) <+:
      (displacement (lastPart dir ++ asked)).names

instance (dir asked : Bytes) : Decidable (StaysBelow dir asked) :=
  inferInstanceAs (Decidable (_ ∧ (_ ∨ _) ∧ _))

theorem ofPath_eq_follow (dir : Bytes) :
    ofPath dir = (ofPath (dirPart dir)).follow (displacement (lastPart dir)) := by
  rw [← walk_eq_follow, ofPath, ofPath, isAbsolute_dirPart, ← walk_dirPart,
    dirPart_append_lastPart]

theorem ofPath_append (dir asked : Bytes) (hsame : isAbsolute (dir ++ asked) = isAbsolute dir) :
    ofPath (dir ++ asked) =
      (ofPath (dirPart dir)).follow (displacement (lastPart dir ++ asked)) := by
  rw [← walk_eq_follow, ofPath, ofPath, isAbsolute_dirPart, ← walk_dirPart, ← List.append_assoc,
    dirPart_append_lastPart, hsame]

theorem ofPath_below_iff (dir asked : Bytes) :
    (ofPath (dir ++ asked)).Below (ofPath dir) ↔ StaysBelow dir asked := by
  by_cases hsame : isAbsolute (dir ++ asked) = isAbsolute dir
  · have hbelow := follow_below_iff (ofPath (dirPart dir))
      (displacement (lastPart dir ++ asked)) (displacement (lastPart dir))
      (displacement_lastPart dir)
    rw [← ofPath_append dir asked hsame, ← ofPath_eq_follow dir] at hbelow
    rw [hbelow, StaysBelow]
    exact (and_iff_right hsame).symm
  · constructor
    · rintro ⟨habsolute, -, -⟩
      rw [ofPath, ofPath, walk, walk, foldl_move_absolute, foldl_move_absolute] at habsolute
      exact absurd habsolute hsame
    · rintro ⟨habsolute, -⟩
      exact absurd habsolute hsame

end Location

end Blogd
