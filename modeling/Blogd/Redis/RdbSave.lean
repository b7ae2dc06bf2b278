import Blogd.Redis.RdbDump

/-! # Saving to a disk

`rdbSave` writes a dump to a temporary file and renames it when it is complete. Between its calls
of the system the process may end, the power may fail, and the server goes on with other work if
the dump is made by a child. A file has contents that every process sees and contents that outlive
a power failure. These are the same only after `fsync`, and a name may come back to an earlier file
when the power fails, since directories are not synchronised.
-/

namespace Blogd

/-- The contents of a file, and what a power failure leaves of them. -/
structure DiskFile where
  cached : Bytes
  durable : Bytes

/-- The files that `server.rdb_filename` has stood for, the last one first, and the temporary files
of processes. -/
structure Disk where
  dumps : List DiskFile
  temp : Nat → Option DiskFile

namespace Disk

def setTemp (disk : Disk) (pid : Nat) (file : Option DiskFile) : Disk :=
  { disk with temp := fun p => if p = pid then file else disk.temp p }

/-- `rdbRemoveTempFile`, and `unlink(tmpfile)` in `rdbSave`. -/
def removeTemp (disk : Disk) (pid : Nat) : Disk := disk.setTemp pid none

/-- `rename(tmpfile,filename)` -/
def rename (disk : Disk) (pid : Nat) : Option Disk :=
  (disk.temp pid).map fun file => { disk.setTemp pid none with dumps := file :: disk.dumps }

end Disk

/-- Where a process is in `rdbSave`, before the call that is named. From `fflush` on it has written
the text to the stream of the temporary file. -/
inductive SaveStage
  | opening
  | writing
  | flushing (text : Bytes)
  | syncing (text : Bytes)
  | closing (text : Bytes)
  | replacing (text : Bytes)
  | abandoning
  | returned (ok : Bool)

/-- A process in `rdbSave`, with the databases as they are in its memory. -/
structure Saver where
  pid : Nat
  save : SaveContext
  dbs : List RedisDb
  stage : SaveStage

/-- What happens next to a process in `rdbSave`: its call returns, with success or an error, where
a device that is full makes the writes fail; or the system writes some of the data back. -/
inductive SaveEvent
  | call (ok : Bool) (space : Nat)
  | writeback (file : DiskFile)

/-- What a call of `rdbSave` does. A stream that `fclose` failed on is closed once more. -/
def Saver.call (p : Saver) (disk : Disk) (ok : Bool) (space : Nat) : Except Fault (Saver × Disk) :=
  match p.stage with
  | .opening =>
      if ok then .ok ({ p with stage := .writing }, disk.setTemp p.pid (some ⟨[], []⟩))
      else .ok ({ p with stage := .returned false }, disk)
  | .writing => do
      match ← rdbSaveRio p.save p.dbs (.initWithFile space) with
      | none => return ({ p with stage := .abandoning }, disk)
      | some (dbs, rdb) => return ({ p with dbs := dbs, stage := .flushing rdb.written }, disk)
  | .flushing text =>
      if ok then
        .ok ({ p with stage := .syncing text },
          disk.setTemp p.pid ((disk.temp p.pid).map fun file => { file with cached := text }))
      else .ok ({ p with stage := .abandoning }, disk)
  | .syncing text =>
      if ok then
        .ok ({ p with stage := .closing text },
          disk.setTemp p.pid ((disk.temp p.pid).map fun file => ⟨file.cached, file.cached⟩))
      else .ok ({ p with stage := .abandoning }, disk)
  | .closing text => if ok then .ok ({ p with stage := .replacing text }, disk) else .error .freed
  | .replacing _ =>
      match if ok then disk.rename p.pid else none with
      | some disk => .ok ({ p with stage := .returned true }, disk)
      | none => .ok ({ p with stage := .returned false }, disk.removeTemp p.pid)
  | .abandoning =>
      .ok ({ p with stage := .returned false }, if ok then disk.removeTemp p.pid else disk)
  | .returned ok => .ok ({ p with stage := .returned ok }, disk)

/-- What the system may have written back. Before `fflush` the file holds anything, and between
`fflush` and `fsync` anything may be durable. -/
def Saver.writeback (p : Saver) (disk : Disk) (written : DiskFile) : Disk :=
  disk.setTemp p.pid ((disk.temp p.pid).map fun file =>
    match p.stage with
    | .writing | .flushing _ | .abandoning => written
    | .syncing _ => { file with durable := written.durable }
    | _ => file)

def Saver.step (p : Saver) (disk : Disk) : SaveEvent → Except Fault (Saver × Disk)
  | .call ok space => p.call disk ok space
  | .writeback file => .ok (p, p.writeback disk file)

/-! ## What reaches the name of the dump -/

/-- A text that `rdbSaveRio` wrote for the databases. -/
def IsDump (save : SaveContext) (dbs : List RedisDb) (text : Bytes) : Prop :=
  ∃ space dbs' rdb, rdbSaveRio save dbs (.initWithFile space) = .ok (some (dbs', rdb)) ∧
    rdb.written = text

/-- What the memory of the process and its temporary file have come to. -/
def SaveStage.Sound (save : SaveContext) (snapshot dbs : List RedisDb) (file : Option DiskFile) :
    SaveStage → Prop
  | .opening | .writing => dbs = snapshot
  | .flushing text => IsDump save snapshot text
  | .syncing text => IsDump save snapshot text ∧ ∀ f, file = some f → f.cached = text
  | .closing text | .replacing text =>
      IsDump save snapshot text ∧ ∀ f, file = some f → f = ⟨text, text⟩
  | .abandoning | .returned _ => True

/-- The process dumps the databases of a snapshot. -/
def Saver.Sound (snapshot : List RedisDb) (p : Saver) (disk : Disk) : Prop :=
  p.stage.Sound p.save snapshot p.dbs (disk.temp p.pid)

/-- What a step does to the names on the disk: the temporary file of the process changes, and a
whole dump that will outlive a power failure may take the place of the last one. -/
structure Saver.Moves (snapshot : List RedisDb) (p : Saver) (disk : Disk) (p' : Saver)
    (disk' : Disk) : Prop where
  pid : p'.pid = p.pid
  save : p'.save = p.save
  temp : ∀ q, q ≠ p.pid → disk'.temp q = disk.temp q
  sound : p'.Sound snapshot disk'
  dumps : disk'.dumps = disk.dumps ∧ (p'.stage = .returned true → p.stage = .returned true) ∨
    ∃ text, disk'.dumps = ⟨text, text⟩ :: disk.dumps ∧ IsDump p.save snapshot text ∧
      p'.stage = .returned true

theorem Disk.temp_setTemp_self (disk : Disk) (pid : Nat) (file : Option DiskFile) :
    (disk.setTemp pid file).temp pid = file := if_pos rfl

theorem Disk.temp_setTemp_ne {pid q : Nat} (hq : q ≠ pid) (disk : Disk)
    (file : Option DiskFile) : (disk.setTemp pid file).temp q = disk.temp q := if_neg hq

variable {snapshot : List RedisDb} {p p' : Saver} {disk disk' : Disk}

/-- A step that leaves the name of the dump alone. -/
theorem SaveStage.Sound.moves {stage : SaveStage} (dbs : List RedisDb) {file : Option DiskFile}
    (hstage : stage.Sound p.save snapshot dbs file)
    (hreturned : stage = .returned true → p.stage = .returned true) :
    Saver.Moves snapshot p disk { p with dbs := dbs, stage := stage }
      (disk.setTemp p.pid file) where
  pid := rfl
  save := rfl
  temp _ hq := Disk.temp_setTemp_ne hq disk file
  sound := by
    unfold Saver.Sound
    rwa [Disk.temp_setTemp_self]
  dumps := .inl ⟨rfl, hreturned⟩

theorem Disk.setTemp_temp (disk : Disk) (pid : Nat) : disk.setTemp pid (disk.temp pid) = disk := by
  unfold Disk.setTemp
  congr 1
  funext q
  split
  next hq => rw [hq]
  next => rfl

/-- A step that leaves the disk alone. -/
theorem SaveStage.Sound.moves_stage {stage : SaveStage} (dbs : List RedisDb)
    (hstage : stage.Sound p.save snapshot dbs (disk.temp p.pid))
    (hreturned : stage = .returned true → p.stage = .returned true) :
    Saver.Moves snapshot p disk { p with dbs := dbs, stage := stage } disk := by
  have h : Saver.Moves snapshot p disk { p with dbs := dbs, stage := stage }
      (disk.setTemp p.pid (disk.temp p.pid)) := SaveStage.Sound.moves dbs hstage hreturned
  rwa [Disk.setTemp_temp] at h

theorem Disk.rename_eq_some {pid : Nat} (h : disk.rename pid = some disk') :
    ∃ file, disk.temp pid = some file ∧
      disk' = { disk.setTemp pid none with dumps := file :: disk.dumps } := by
  obtain ⟨file, hfile, rfl⟩ := Option.map_eq_some_iff.mp h
  exact ⟨file, hfile, rfl⟩

/-- Only a file that is synchronised gets the name of the dump. -/
theorem Saver.Sound.moves_rename {text : Bytes} (hp : p.Sound snapshot disk)
    (hstage : p.stage = .replacing text) (h : disk.rename p.pid = some disk') :
    Saver.Moves snapshot p disk { p with stage := .returned true } disk' := by
  obtain ⟨file, hfile, rfl⟩ := Disk.rename_eq_some h
  have hsound := hp
  rw [Saver.Sound, hstage] at hsound
  obtain ⟨htext, hsynced⟩ := hsound
  obtain rfl := hsynced file hfile
  exact ⟨rfl, rfl, fun q hq => Disk.temp_setTemp_ne hq disk none, trivial,
    .inr ⟨text, rfl, htext, rfl⟩⟩

theorem Saver.Sound.moves_call {ok : Bool} {space : Nat} (hp : p.Sound snapshot disk)
    (h : p.call disk ok space = .ok (p', disk')) :
    Saver.Moves snapshot p disk p' disk' := by
  have hsound := hp
  unfold Saver.Sound at hsound
  unfold Saver.call at h
  split at h
  next hstage =>
    rw [hstage] at hsound
    split at h <;> cases h
    · exact SaveStage.Sound.moves p.dbs hsound (by simp)
    · exact SaveStage.Sound.moves_stage p.dbs trivial (by simp)
  next hstage =>
    rw [hstage] at hsound
    obtain ⟨saved, hsaved, h⟩ := bind_eq_ok.mp h
    split at h <;> cases h
    · exact SaveStage.Sound.moves_stage p.dbs trivial (by simp)
    · rename_i dbs rdb
      obtain rfl : p.dbs = snapshot := hsound
      exact SaveStage.Sound.moves_stage dbs ⟨space, dbs, rdb, hsaved, rfl⟩ (by simp)
  next text hstage =>
    rw [hstage] at hsound
    split at h <;> cases h
    · refine SaveStage.Sound.moves p.dbs ⟨hsound, fun f hf => ?_⟩ (by simp)
      obtain ⟨_, -, rfl⟩ := Option.map_eq_some_iff.mp hf
      rfl
    · exact SaveStage.Sound.moves_stage p.dbs trivial (by simp)
  next text hstage =>
    rw [hstage] at hsound
    split at h <;> cases h
    · refine SaveStage.Sound.moves p.dbs ⟨hsound.1, fun f hf => ?_⟩ (by simp)
      obtain ⟨file, hfile, rfl⟩ := Option.map_eq_some_iff.mp hf
      rw [hsound.2 file hfile]
    · exact SaveStage.Sound.moves_stage p.dbs trivial (by simp)
  next text hstage =>
    rw [hstage] at hsound
    split at h <;> cases h
    exact SaveStage.Sound.moves_stage p.dbs hsound (by simp)
  next text hstage =>
    split at h
    next renamed hrenamed =>
      cases h
      exact hp.moves_rename hstage (Option.ite_none_right_eq_some.mp hrenamed).2
    next =>
      cases h
      exact SaveStage.Sound.moves p.dbs trivial (by simp)
  next hstage =>
    cases h
    split
    · exact SaveStage.Sound.moves p.dbs trivial (by simp)
    · exact SaveStage.Sound.moves_stage p.dbs trivial (by simp)
  next returned hstage =>
    cases h
    exact SaveStage.Sound.moves_stage p.dbs trivial (by simp [hstage])

theorem Saver.Sound.moves_writeback (hp : p.Sound snapshot disk) (written : DiskFile) :
    Saver.Moves snapshot p disk p (p.writeback disk written) := by
  refine SaveStage.Sound.moves p.dbs ?_ id
  have hsound := hp
  unfold Saver.Sound at hsound
  cases hstage : p.stage with
  | opening | writing | flushing | abandoning | returned =>
      rw [hstage] at hsound
      exact hsound
  | syncing text =>
      rw [hstage] at hsound
      refine ⟨hsound.1, fun f hf => ?_⟩
      obtain ⟨file, hfile, rfl⟩ := Option.map_eq_some_iff.mp hf
      exact hsound.2 file hfile
  | closing text | replacing text =>
      rw [hstage] at hsound
      exact ⟨hsound.1, fun f hf => hsound.2 f (by simpa using hf)⟩

theorem Saver.Sound.moves_step {e : SaveEvent} (hp : p.Sound snapshot disk)
    (h : p.step disk e = .ok (p', disk')) : Saver.Moves snapshot p disk p' disk' := by
  cases e with
  | call => exact hp.moves_call h
  | writeback written =>
      cases h
      exact hp.moves_writeback written

/-- A process does not notice what happens to the files of others. -/
theorem Saver.Sound.of_temp (hp : p.Sound snapshot disk)
    (htemp : disk'.temp p.pid = disk.temp p.pid) : p.Sound snapshot disk' := by
  unfold Saver.Sound
  rwa [htemp]

/-- A process whose temporary file is removed finds out when it renames it. -/
theorem Saver.Sound.removeTemp (hp : p.Sound snapshot disk) (pid : Nat) :
    p.Sound snapshot (disk.removeTemp pid) := by
  by_cases hpid : p.pid = pid
  · unfold Saver.Sound at hp ⊢
    subst hpid
    rw [Disk.removeTemp, Disk.temp_setTemp_self]
    cases hstage : p.stage with
    | opening | writing | flushing | abandoning | returned =>
        rw [hstage] at hp
        exact hp
    | _ =>
        rw [hstage] at hp
        exact ⟨hp.1, by simp⟩
  · exact hp.of_temp (Disk.temp_setTemp_ne hpid disk none)

end Blogd
