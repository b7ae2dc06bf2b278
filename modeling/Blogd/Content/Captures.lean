import Blogd.Config.Startup

/-! # The captures of a match

A match fills a vector of offsets, two thirds of which the library uses for its results, and the
program copies the texts of the groups into an array it allocates for them. The vector has room for
the groups of any pattern of the program. The array is measured in bytes, and three pointers fit
into it.
-/

namespace Blogd

/-- The library reports no group of the pattern that ends in front of its start. The match as a
whole, which is group 0, can do so if its start was reset. -/
def Pcre.Ordered (re : Pcre) : Prop :=
  ∀ data groups, re.exec data = some groups →
    ∀ it first last, groups (it + 1) = some (first, last) → first ≤ last

theorem Regex.toPcre_ordered (r : Regex) (captureCount : Nat) :
    (r.toPcre captureCount).Ordered := by
  intro data groups hexec
  obtain ⟨c, hc, rfl⟩ := Option.map_eq_some_iff.mp hexec
  exact fun it => Regex.ordered_of_search hc (it + 1)

namespace Ovector

variable (re : Pcre) (groups : Nat → Option (Nat × Nat)) (data : Bytes)

/-- What `pcre_exec` leaves in an element of the vector: the start of a group at an even index and
its end behind it, -1 for a group that took no part. The last third of the vector and the elements
behind the groups of the pattern are not filled. -/
def entry (k : Nat) : Option Int :=
  if k < oveccount / 3 * 2 ∧ k / 2 ≤ re.captureCount then
    match groups (k / 2) with
    | none => some (-1)
    | some (first, last) => some (if k % 2 = 0 then first else last)
  else none

/-- `ovector[k]` -/
def read (k : Nat) : Except Fault Int :=
  if k < oveccount then
    match entry re groups k with
    | some offset => .ok offset
    | none => .error .wildPointer
  else .error .outOfBounds

/-- `sprintf(result, "%.*s", length, data + first)` into `length + 1` bytes. A negative precision
counts as none, and a precision of zero reads nothing. -/
def copyText (first length : Int) : Except Fault Bytes :=
  if length < 0 then .error .overflow else .ok ((data.drop first.toNat).take length.toNat)

/-- `results[it] = ...`, behind the pointers already stored. A pointer has eight bytes. -/
def store (results : List Bytes) (text : Bytes) : Except Fault (List Bytes) :=
  if (results.length + 1) * 8 ≤ oveccount then .ok (results ++ [text]) else .error .overflow

/-- The loop over the groups that are still missing, with `i` at `2 * it + 3`. -/
def captureLoop : Nat → List Bytes → Except Fault (List Bytes)
  | 0, results => .ok results
  | missing + 1, results => do
      let first ← read re groups (2 * results.length + 2)
      let last ← read re groups (2 * results.length + 3)
      let text ← copyText data first (last - first)
      captureLoop missing (← store results text)

/-- `preg_match` on its vector and its array. -/
def pregMatch (ext : External) (regxp data : Bytes) : Except Fault (Option (List Bytes)) :=
  match ext.pcreCompile regxp with
  | none => .error .exit
  | some re =>
      match re.exec data with
      | none => .ok none
      | some groups => do return some (← captureLoop re groups data re.captureCount [])

section Loop

variable {re groups data}

/-- The two offsets of a group that the vector has room for. -/
theorem read_group {it : Nat} (hit : it < re.captureCount) (hroom : it < 9) :
    read re groups (2 * it + 2) =
        .ok (match groups (it + 1) with | none => -1 | some (first, _) => first) ∧
      read re groups (2 * it + 3) =
        .ok (match groups (it + 1) with | none => -1 | some (_, last) => last) := by
  have heven : (2 * it + 2) / 2 = it + 1 ∧ (2 * it + 2) % 2 = 0 := by omega
  have hodd : (2 * it + 3) / 2 = it + 1 ∧ (2 * it + 3) % 2 = 1 := by omega
  have hfilled : ∀ k, k / 2 = it + 1 → k ≤ 2 * it + 3 →
      k < oveccount ∧ k < oveccount / 3 * 2 ∧ k / 2 ≤ re.captureCount := by
    intro k hhalf hk
    unfold oveccount
    omega
  constructor
  · obtain ⟨hin, hfill⟩ := hfilled (2 * it + 2) heven.1 (by omega)
    rw [read, if_pos hin, entry, if_pos hfill, heven.1, heven.2]
    cases groups (it + 1) <;> rfl
  · obtain ⟨hin, hfill⟩ := hfilled (2 * it + 3) hodd.1 (by omega)
    rw [read, if_pos hin, entry, if_pos hfill, hodd.1, hodd.2]
    cases groups (it + 1) <;> rfl

/-- The text between the two offsets. -/
theorem copyText_group
    (hordered : ∀ it first last, groups (it + 1) = some (first, last) → first ≤ last) (it : Nat) :
    copyText data (match groups (it + 1) with | none => -1 | some (first, _) => first)
      ((match groups (it + 1) with | none => -1 | some (_, last) => last) -
        match groups (it + 1) with | none => -1 | some (first, _) => first) =
      .ok (groupText data (groups (it + 1))) := by
  cases hgroup : groups (it + 1) with
  | none => simp [copyText, groupText]
  | some span =>
      obtain ⟨first, last⟩ := span
      have hle := hordered it first last hgroup
      have hlength : ((last : Int) - first).toNat = last - first := by omega
      have hpos : ¬ (last : Int) - first < 0 := by omega
      simp only [copyText, if_neg hpos, groupText, hlength, Int.toNat_natCast]

/-- A round of the loop that finds room in the array. -/
theorem captureLoop_round
    (hordered : ∀ it first last, groups (it + 1) = some (first, last) → first ≤ last)
    {missing : Nat} {results : List Bytes} (hit : results.length < re.captureCount)
    (hroom : results.length < 9) :
    captureLoop re groups data (missing + 1) results =
      (store results (groupText data (groups (results.length + 1))) >>=
        captureLoop re groups data missing) := by
  obtain ⟨hfirst, hlast⟩ := @read_group re groups results.length hit hroom
  rw [captureLoop, hfirst, hlast, ok_bind, ok_bind, copyText_group hordered, ok_bind]

/-- The texts of the first groups. -/
def texts (groups : Nat → Option (Nat × Nat)) (data : Bytes) (n : Nat) : List Bytes :=
  (List.range n).map fun it => groupText data (groups (it + 1))

theorem length_texts (n : Nat) : (texts groups data n).length = n := by
  simp [texts]

theorem texts_succ (n : Nat) :
    texts groups data (n + 1) = texts groups data n ++ [groupText data (groups (n + 1))] := by
  simp [texts, List.range_succ]

/-- The loop goes on as long as the array has room for another pointer. -/
theorem captureLoop_texts
    (hordered : ∀ it first last, groups (it + 1) = some (first, last) → first ≤ last)
    {missing it : Nat} (hcount : it + missing = re.captureCount) (hit : it ≤ 3) :
    captureLoop re groups data missing (texts groups data it) =
      if re.captureCount ≤ 3 then .ok (texts groups data re.captureCount)
      else .error .overflow := by
  induction missing generalizing it with
  | zero =>
      obtain rfl : it = re.captureCount := hcount
      rw [captureLoop, if_pos hit]
  | succ missing ih =>
      rw [captureLoop_round hordered (by rw [length_texts]; omega) (by rw [length_texts]; omega),
        store, length_texts, ← texts_succ]
      -- three pointers take 24 of the 30 bytes, and a fourth would need 32
      by_cases hroom : (it + 1) * 8 ≤ oveccount
      · have hthree : it + 1 ≤ 3 := by
          unfold oveccount at hroom
          omega
        rw [if_pos hroom, ok_bind]
        exact ih (by omega) hthree
      · have hmany : ¬ re.captureCount ≤ 3 := by
          unfold oveccount at hroom
          omega
        rw [if_neg hroom, if_neg hmany, error_bind]

end Loop

/-- On its vector and its array the function does what it does on the groups. -/
theorem pregMatch_eq {ext : External} {regxp : Bytes}
    (hordered : ∀ re, ext.pcreCompile regxp = some re → re.Ordered) (data : Bytes) :
    pregMatch ext regxp data = Blogd.pregMatch ext regxp data := by
  unfold pregMatch Blogd.pregMatch
  cases hcompile : ext.pcreCompile regxp with
  | none => rfl
  | some re =>
      dsimp only
      cases hexec : re.exec data with
      | none => rfl
      | some groups =>
          have hloop := @captureLoop_texts re groups data (hordered re hcompile data groups hexec)
            re.captureCount 0 (Nat.zero_add _) (Nat.zero_le _)
          have hroom : re.captureCount ≤ 3 ↔ ¬ re.captureCount * 8 > oveccount := by
            unfold oveccount
            omega
          change (captureLoop re groups data re.captureCount (texts groups data 0) >>= _) = _
          rw [hloop]
          by_cases hthree : re.captureCount ≤ 3
          · simp only [if_pos hthree, if_neg (hroom.mp hthree), ok_bind, pure_eq_ok]
            rfl
          · have hmany : re.captureCount * 8 > oveccount := by
              by_contra hfits
              exact hthree (hroom.mpr hfits)
            simp only [if_neg hthree, if_pos hmany, error_bind]

end Ovector

/-- The captures of a match are returned, each with the text of its group, exactly when the pattern
has at most three groups. -/
theorem captures_returned_iff {ext : External} {regxp data : Bytes} {re : Pcre}
    {groups : Nat → Option (Nat × Nat)} (hcompile : ext.pcreCompile regxp = some re)
    (hordered : re.Ordered) (hexec : re.exec data = some groups) :
    (∃ results, Ovector.pregMatch ext regxp data = .ok (some results) ∧
        results.length = re.captureCount ∧
        ∀ it < re.captureCount, results[it]? = some (groupText data (groups (it + 1)))) ↔
      re.captureCount ≤ 3 := by
  have hloop := @Ovector.captureLoop_texts re groups data (hordered data groups hexec)
    re.captureCount 0 (Nat.zero_add _) (Nat.zero_le _)
  have hrun : Ovector.pregMatch ext regxp data =
      (Ovector.captureLoop re groups data re.captureCount (Ovector.texts groups data 0) >>=
        fun results => pure (some results)) := by
    rw [Ovector.pregMatch, hcompile]
    dsimp only
    rw [hexec]
    rfl
  rw [hrun, hloop]
  constructor
  · rintro ⟨results, hresults, -⟩
    by_contra hmany
    rw [if_neg hmany] at hresults
    cases hresults
  · intro hthree
    rw [if_pos hthree]
    refine ⟨_, rfl, Ovector.length_texts _, ?_⟩
    intro it hit
    simp [Ovector.texts, hit]

theorem captures_returned_page :
    ∃ groups, (pageRegex.toPcre 1).exec (ascii "/page/12") = some groups ∧
      ∃ results, Ovector.pregMatch sampleExternal (ascii "/page/(\\d)+") (ascii "/page/12") =
          .ok (some results) ∧ results.length = 1 ∧
        ∀ it < 1, results[it]? = some (groupText (ascii "/page/12") (groups (it + 1))) := by
  obtain ⟨groups, hexec⟩ : ∃ groups, (pageRegex.toPcre 1).exec (ascii "/page/12") = some groups :=
    Option.isSome_iff_exists.mp (by decide)
  exact ⟨groups, hexec, (captures_returned_iff sampleExternal_pcreSpec.page
    (Regex.toPcre_ordered pageRegex 1) hexec).mpr (by decide)⟩

/-! ## Four groups -/

/-- `(a)(b)(c)(d)` -/
def fourGroups : Regex :=
  .seq (.group 1 (.text (ascii "a"))) (.seq (.group 2 (.text (ascii "b")))
    (.seq (.group 3 (.text (ascii "c"))) (.group 4 (.text (ascii "d")))))

def fourGroupsExternal : External where
  pcreCompile pattern :=
    if pattern = ascii "(a)(b)(c)(d)" then some (fourGroups.toPcre 4) else samplePcreCompile pattern
  compileMarkdownContent := sampleExternal.compileMarkdownContent

/-- The pattern of a reload is accepted with any number of groups, and the fourth one of a match
is stored behind the array. -/
theorem four_captures_overflow :
    (∃ st, loadServerConfigFromString plainConfig BlogdOptions.assign 0
        (ascii "reload-content-query (a)(b)(c)(d)\n") ⟨initServerConfig, ()⟩ = .ok st ∧
      st.options.reloadContentQuery = some (ascii "(a)(b)(c)(d)")) ∧
    ((fourGroups.toPcre 4).exec (ascii "abcd")).isSome ∧
    Ovector.pregMatch fourGroupsExternal (ascii "(a)(b)(c)(d)") (ascii "abcd") =
      .error .overflow := by
  refine ⟨⟨⟨{ initServerConfig with reloadContentQuery := some (ascii "(a)(b)(c)(d)") }, ()⟩, ?_,
    rfl⟩, by decide, by decide⟩
  decide +kernel

end Blogd
