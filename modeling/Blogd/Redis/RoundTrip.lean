import Blogd.Redis.Command

/-! # What is written is read back

The command that the client library writes is decoded to the same arguments, whatever bytes the
arguments hold, and the query buffer is empty afterwards.
-/

namespace Blogd

/-! ## The written length -/

theorem intlenLoop_eq {fuel i : Nat} (hfuel : i < fuel) :
    intlenLoop fuel i = (decimal i).length := by
  induction fuel generalizing i with
  | zero => omega
  | succ fuel ih =>
      simp only [intlenLoop]
      split
      next hzero => rw [decimal_of_lt (by omega)]; rfl
      next hpos =>
        rw [ih (by omega), decimal_of_le (n := i) (by omega), List.length_append]
        rfl

theorem intlen_eq (i : Nat) : intlen i = (decimal i).length := intlenLoop_eq (Nat.lt_succ_self i)

theorem length_bulkText (arg : Bytes) : (bulkText arg).length = bulkTextLen arg.length := by
  simp only [bulkText, bulkTextLen, intlen_eq, List.length_append]
  simp only [ascii, crlf, String.toList, List.length_map, List.length_cons, List.length_nil]
  rfl

/-- The assertion on the computed length holds for all arguments. -/
theorem redisFormatCommandArgv_eq (argv : List Bytes) :
    redisFormatCommandArgv argv = .ok (commandText argv) := by
  have hlength : (commandText argv).length =
      1 + intlen argv.length + 2 + (argv.map fun arg => bulkTextLen arg.length).sum := by
    rw [commandText, List.length_append, List.length_flatMap, intlen_eq]
    simp only [length_bulkText, List.length_append]
    rfl
  simp only [redisFormatCommandArgv, hlength, if_true]

theorem nul_notMem_bulkText {arg : Bytes} (harg : 0 ∉ arg) : 0 ∉ bulkText arg := by
  have hdollar : (0 : UInt8) ∉ ascii "$" := by decide
  have hcrlf : (0 : UInt8) ∉ crlf := by decide
  simp only [bulkText, List.mem_append, not_or]
  exact ⟨⟨⟨⟨hdollar, decimal_no_nul _⟩, hcrlf⟩, harg⟩, hcrlf⟩

/-- C strings are written as a C string. -/
theorem nul_notMem_commandText {argv : List Bytes} (hargv : ∀ arg ∈ argv, 0 ∉ arg) :
    0 ∉ commandText argv := by
  have hstar : (0 : UInt8) ∉ ascii "*" := by decide
  have hcrlf : (0 : UInt8) ∉ crlf := by decide
  simp only [commandText, List.mem_append, not_or, List.mem_flatMap]
  refine ⟨⟨⟨hstar, decimal_no_nul _⟩, hcrlf⟩, ?_⟩
  rintro ⟨arg, harg, hmem⟩
  exact nul_notMem_bulkText (hargv arg harg) hmem

/-! ## Reading numbers from the buffer -/

theorem strchr_append {c : UInt8} {s : Bytes} (hnul : 0 ∉ s) (hc : c ∉ s) (hne : c ≠ 0)
    (rest : Bytes) : strchr c (s ++ c :: rest) = some s.length := by
  have hcstr : cstr (s ++ c :: rest) = s ++ c :: cstr rest := by
    rw [cstr_append hnul]
    simp [hne, cstr]
  rw [strchr, hcstr, List.findIdx?_append]
  have hnone : List.findIdx? (fun b => decide (b = c)) s = none := by
    rw [List.findIdx?_eq_none_iff]
    intro b hb
    simpa using fun (heq : b = c) => hc (heq ▸ hb)
  simp [hnone, List.findIdx?_cons]

/-- A number behind its mark ends at the line end. -/
theorem strchr_number {mark : UInt8} (hnul : mark ≠ 0) (hcr : mark ≠ CR) (n : Nat) (rest : Bytes) :
    strchr CR ((mark :: decimal n) ++ CR :: rest) = some (1 + (decimal n).length) := by
  rw [strchr_append]
  · rw [List.length_cons, Nat.add_comm]
  · rw [List.mem_cons, not_or]
    exact ⟨hnul.symm, decimal_no_nul n⟩
  · rw [List.mem_cons, not_or]
    exact ⟨hcr.symm, decimal_no_cr n⟩
  · decide

/-- The memory behind a position inside the content. -/
theorem Sds.drop_mem {s : Sds} {pos : Nat} {text : Bytes} (hne : text ≠ [])
    (hcontent : s.content.drop pos = text) :
    ∃ tail, s.mem.drop pos = text ++ tail ∧ pos + text.length = s.len := by
  have hlt := s.len_lt
  have hlength := congrArg List.length hcontent
  rw [List.length_drop, Sds.length_content] at hlength
  have hpos := List.length_pos_iff.mpr hne
  refine ⟨s.mem.drop s.len, ?_, by omega⟩
  have hsplit : s.mem = s.content ++ s.mem.drop s.len := (List.take_append_drop s.len s.mem).symm
  rw [← hcontent]
  conv_lhs => rw [hsplit]
  rw [List.drop_append_of_le_length (by rw [Sds.length_content]; omega)]

/-! ## Reading arguments -/

/-- The client after one more argument was read. -/
def Client.pushArg (c : Client) (arg : Bytes) : Client :=
  { c with argv := c.argv ++ [arg], bulklen := none, multibulklen := c.multibulklen - 1 }

theorem readBulkLength_bulkText {c : Client} {pos : Nat} {arg rest : Bytes}
    (junk : Nat → UInt8) (harg : arg.length < protoMbulkBigArg)
    (hcontent : c.querybuf.content.drop pos = bulkText arg ++ rest) :
    readBulkLength junk c pos =
      .next { c with bulklen := some arg.length }
        (pos + (1 + (decimal arg.length).length) + 2) := by
  have hne : bulkText arg ++ rest ≠ [] := by simp [bulkText, crlf]
  obtain ⟨tail, hmem, hlen⟩ := Sds.drop_mem hne hcontent
  -- behind the content the memory holds the NUL and what was there before
  have hshape : c.querybuf.mem.drop pos =
      (36 :: decimal arg.length) ++ CR :: (LF :: (arg ++ crlf ++ rest ++ tail)) := by
    rw [hmem]
    simp [bulkText, crlf, show ascii "$" = [36] by decide]
  have hchr : strchr CR (c.querybuf.mem.drop pos) = some (1 + (decimal arg.length).length) := by
    rw [hshape]
    exact strchr_number (by decide) (by decide) _ _
  have hfits : ¬ pos + (1 + (decimal arg.length).length) + 2 > c.querybuf.len := by
    have hlength := length_bulkText arg
    rw [List.length_append, hlength, bulkTextLen, intlen_eq] at hlen
    omega
  have hdollar : c.querybuf.mem[pos]? = some 36 := by
    have hhead := congrArg (fun mem => mem[0]?) hshape
    simpa using hhead
  have hdigits : (c.querybuf.mem.drop (pos + 1)).take (1 + (decimal arg.length).length - 1) =
      decimal arg.length := by
    rw [← List.drop_drop, hshape]
    simp
  have hbig : arg.length ≤ llongMax := by
    unfold protoMbulkBigArg at harg
    unfold llongMax
    omega
  rw [readBulkLength, hchr]
  simp only [hfits, if_false, hdollar, ne_eq, not_true, hdigits, string2ll_decimal hbig]
  rw [if_neg (by unfold protoMbulkBigArg at harg; omega),
    if_neg (by rw [Int.toNat_natCast]; omega), Int.toNat_natCast]

/-- One argument is read as it was written. -/
theorem readBulk_bulkText {c : Client} {pos : Nat} {arg rest : Bytes} (junk : Nat → UInt8)
    (hbulk : c.bulklen = none) (harg : arg.length < protoMbulkBigArg)
    (hcontent : c.querybuf.content.drop pos = bulkText arg ++ rest) :
    readBulk junk c pos = .next (c.pushArg arg) (pos + (bulkText arg).length) := by
  have hne : bulkText arg ++ rest ≠ [] := by simp [bulkText, crlf]
  obtain ⟨tail, hmem, hlen⟩ := Sds.drop_mem hne hcontent
  have hlength : (bulkText arg).length = 1 + (decimal arg.length).length + 2 + arg.length + 2 := by
    rw [length_bulkText, bulkTextLen, intlen_eq]
  have harg' : (c.querybuf.mem.drop (pos + (1 + (decimal arg.length).length) + 2)).take
      arg.length = arg := by
    have hsplit : bulkText arg ++ rest ++ tail =
        (ascii "$" ++ decimal arg.length ++ crlf) ++ (arg ++ (crlf ++ rest ++ tail)) := by
      simp [bulkText]
    rw [show pos + (1 + (decimal arg.length).length) + 2 =
      pos + (ascii "$" ++ decimal arg.length ++ crlf).length by
        simp [crlf, show ascii "$" = [36] by decide]; omega]
    rw [← List.drop_drop, hmem, hsplit, List.drop_left, List.take_left]
  rw [readBulk, hbulk]
  simp only [readBulkLength_bulkText junk harg hcontent, readBulkArgument]
  rw [List.length_append, hlength] at hlen
  rw [if_neg (by omega), if_neg (by omega), harg', hlength, Client.pushArg]
  congr 1
  omega

/-- All arguments are read as they were written, one round for each. -/
theorem readBulks_flatMap {c : Client} {pos : Nat} {args : List Bytes} {rest : Bytes}
    (junk : Nat → UInt8) (hbulk : c.bulklen = none)
    (hargs : ∀ arg ∈ args, arg.length < protoMbulkBigArg)
    (hcontent : c.querybuf.content.drop pos = args.flatMap bulkText ++ rest) :
    readBulks junk args.length c pos =
      .next { c with
        argv := c.argv ++ args
        bulklen := none
        multibulklen := c.multibulklen - args.length } (pos + (args.flatMap bulkText).length) := by
  induction args generalizing c pos with
  | nil =>
      simp [readBulks, ← hbulk]
  | cons arg args ih =>
      rw [List.flatMap_cons, List.append_assoc] at hcontent
      have hfirst := readBulk_bulkText junk hbulk (hargs arg List.mem_cons_self) hcontent
      have hrest : (c.pushArg arg).querybuf.content.drop (pos + (bulkText arg).length) =
          args.flatMap bulkText ++ rest := by
        change c.querybuf.content.drop _ = _
        rw [← List.drop_drop, hcontent, List.drop_left]
      rw [List.length_cons, readBulks, hfirst]
      simp only
      rw [ih rfl (fun a ha => hargs a (List.mem_cons_of_mem arg ha)) hrest]
      simp only [Client.pushArg, List.append_assoc, List.singleton_append, List.flatMap_cons,
        List.length_append, Nat.sub_sub, Nat.add_assoc, Nat.add_comm 1]

/-- A command is decoded to the arguments it was written from. -/
theorem processMultibulkBuffer_commandText {c : Client} {argv : List Bytes} (junk : Nat → UInt8)
    (hmulti : c.multibulklen = 0) (hbulk : c.bulklen = none) (hargv : c.argv = [])
    (hne : argv ≠ []) (hcount : argv.length ≤ 1024 * 1024)
    (hargs : ∀ arg ∈ argv, arg.length < protoMbulkBigArg)
    (hcontent : c.querybuf.content = commandText argv) :
    processMultibulkBuffer junk c =
      .ok ({ c with
        argv := argv
        querybuf := c.querybuf.range (commandText argv).length (-1) }, true) := by
  have hpos := List.length_pos_iff.mpr hne
  have htext : commandText argv ≠ [] := by simp [commandText, crlf]
  have hzero : c.querybuf.content.drop 0 = commandText argv := hcontent
  obtain ⟨tail, hmem, hlen⟩ := Sds.drop_mem htext hzero
  have hshape : c.querybuf.mem = (42 :: decimal argv.length) ++
      CR :: (LF :: (argv.flatMap bulkText ++ tail)) := by
    rw [List.drop_zero] at hmem
    rw [hmem]
    simp [commandText, crlf, show ascii "*" = [42] by decide]
  have hchr : strchr CR c.querybuf.mem = some (1 + (decimal argv.length).length) := by
    rw [hshape]
    exact strchr_number (by decide) (by decide) _ _
  have hlength : (commandText argv).length =
      1 + (decimal argv.length).length + 2 + (argv.flatMap bulkText).length := by
    simp [commandText, crlf, show ascii "*" = [42] by decide]
    omega
  have hdigits : (c.querybuf.mem.drop 1).take (1 + (decimal argv.length).length - 1) =
      decimal argv.length := by
    rw [hshape]
    simp
  have hstar : c.querybuf.mem[0]? = some 42 := by
    rw [hshape]
    rfl
  have hdrop : c.querybuf.content.drop (1 + (decimal argv.length).length + 2) =
      argv.flatMap bulkText ++ [] := by
    have hhead : (ascii "*" ++ decimal argv.length ++ crlf).length =
        1 + (decimal argv.length).length + 2 := by
      simp [crlf, show ascii "*" = [42] by decide]
      omega
    rw [hcontent, commandText, ← hhead, List.drop_left, List.append_nil]
  -- behind the count there are the arguments and nothing else
  have hread := readBulks_flatMap (c := { c with multibulklen := argv.length }) junk hbulk hargs
    hdrop
  rw [processMultibulkBuffer, if_pos hmulti, if_neg (by simp [hargv]), hchr]
  simp only [hdigits, string2ll_decimal (show argv.length ≤ llongMax by unfold llongMax; omega),
    hstar]
  rw [if_neg (by omega), if_neg (by simp), if_neg (by omega), if_neg (by omega),
    Int.toNat_natCast, hread]
  simp only [finishMultibulk]
  rw [if_neg (by omega), hargv, hlength]
  simp [hmulti, hbulk]

end Blogd
