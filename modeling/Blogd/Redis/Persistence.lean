import Blogd.Redis.RdbSave

/-! # The server, its child and the disk

The server answers commands while a child that it forked writes a dump of the memory as it was, or
it stops and writes the dump itself, for `SAVE`, `FLUSHALL` and before it exits. Both rename a file
over the last dump. The server counts in `server.dirty` the changes that no dump has, so that it
knows when to save. What it counts and what is on the disk are compared here after any order of
commands, calls of the system by either process, failed calls, signals and visits of `serverCron`.
-/

namespace Blogd

/-- `struct saveparam` -/
structure SaveParam where
  seconds : Int
  changes : Int

/-- What does not change while the server runs. -/
structure PersistConfig where
  hash : Bytes → UInt32
  pid : Nat
  saveparams : List SaveParam

/-- The settings of the server for one dump. -/
def PersistConfig.saving (cfg : PersistConfig) (save : SaveContext) : SaveContext :=
  { save with hash := cfg.hash }

/-- Why the server saves in its own process. `FLUSHALL` keeps `server.dirty` in an `int`. -/
inductive SaveReason
  | command
  | flushall (savedDirty : Int)
  | shutdown
deriving DecidableEq

/-- The child of `rdbSaveBackground`, and the signal that ended it, where `true` is `SIGUSR1`. -/
structure SaveChild where
  saver : Saver
  signal : Option Bool

/-- The fields of the server that saving uses, the disk, and the number of all changes since the
start, which is no field of the server. -/
structure PersistState where
  dbs : List RedisDb
  dirty : Int
  dirtyBeforeBgsave : Int
  lastsave : Int
  lastbgsaveTry : Int
  lastbgsaveStatus : Bool
  child : Option SaveChild
  foreground : Option (Saver × SaveReason)
  exited : Bool
  disk : Disk
  changes : Nat

/-- What happens next: the server is asked for something, `serverCron` runs, a call of the process
that saves returns, or the child gets a signal. -/
inductive PersistEvent
  | command (j : Nat) (ctx : DbContext) (op : DbOp)
  | flushdb (j : Nat)
  | flushall (save : SaveContext)
  | cron (unixtime : Int) (save : SaveContext) (fork : Option Nat)
  | bgsaveCommand (time : Int) (save : SaveContext) (fork : Option Nat)
  | saveCommand (save : SaveContext)
  | shutdown (save : SaveContext) (forced nosave : Bool)
  | foreground (time : Int) (e : SaveEvent)
  | child (e : SaveEvent)
  | signal (usr1 : Bool)

/-- `dictEmpty` of both dictionaries, in `flushdbCommand` and `emptyDb`. -/
def RedisDb.flush (db : RedisDb) : RedisDb := ⟨dictEmpty db.dict, dictEmpty db.expires⟩

/-- What a command adds to `server.dirty`. -/
def dirtied : DbOp → DbReply → Nat
  | .set _ _, _ => 1
  | _, .flag true => 1
  | _, _ => 0

def configBgsaveRetryDelay : Int := 5

/-- The settings of the dumps that an event may start. -/
def PersistEvent.Saves (cfg : PersistConfig) (fine : SaveContext → Prop) : PersistEvent → Prop
  | .flushall save | .cron _ save _ | .bgsaveCommand _ save _ | .saveCommand save
  | .shutdown save _ _ => fine (cfg.saving save)
  | _ => True

namespace PersistState

/-- The state in which the server starts to serve. -/
def boot (dbs : List RedisDb) (disk : Disk) (now : Int) : PersistState :=
  ⟨dbs, 0, 0, now, 0, true, none, none, false, disk, 0⟩

/-- The server answers nobody: it has exited, or it is in `rdbSave`. -/
def busy (s : PersistState) : Bool := s.exited || s.foreground.isSome

/-- Changes to the databases, counted. -/
def modify (s : PersistState) (dbs : List RedisDb) (n : Nat) : PersistState :=
  { s with dbs := dbs, dirty := s.dirty + n, changes := s.changes + n }

/-- `kill(server.rdb_child_pid,SIGUSR1)` and `rdbRemoveTempFile`. The child may go on until the
signal arrives. -/
def killChild (s : PersistState) : PersistState :=
  match s.child with
  | none => s
  | some child => { s with disk := s.disk.removeTemp child.saver.pid }

/-- `rdbSaveBackground` -/
def rdbSaveBackground (cfg : PersistConfig) (s : PersistState) (time : Int) (save : SaveContext)
    (fork : Option Nat) : PersistState :=
  if s.child.isSome then s
  else
    let s := { s with dirtyBeforeBgsave := s.dirty, lastbgsaveTry := time }
    match fork with
    | none => { s with lastbgsaveStatus := false }
    | some n =>
        -- `fork` returns a process that is not the caller
        let saver := ⟨cfg.pid + 1 + n, cfg.saving save, s.dbs, .opening⟩
        { s with child := some ⟨saver, none⟩ }

/-- `backgroundSaveDoneHandlerDisk` for a child that `wait3` returns. -/
def backgroundSaveDoneHandler (s : PersistState) (child : SaveChild) (time : Int) : PersistState :=
  match child.signal with
  | some usr1 =>
      { s with
        disk := s.disk.removeTemp child.saver.pid
        lastbgsaveStatus := s.lastbgsaveStatus && usr1
        child := none }
  | none =>
      match child.saver.stage with
      | .returned true =>
          { s with
            dirty := s.dirty - s.dirtyBeforeBgsave
            lastsave := time
            lastbgsaveStatus := true
            child := none }
      | .returned false => { s with lastbgsaveStatus := false, child := none }
      | _ => s

/-- Whether `serverCron` has to save now. -/
def saveDue (cfg : PersistConfig) (s : PersistState) (unixtime : Int) : Bool :=
  cfg.saveparams.any fun sp =>
    decide (s.dirty ≥ sp.changes) && decide (unixtime - s.lastsave > sp.seconds) &&
      (decide (unixtime - s.lastbgsaveTry > configBgsaveRetryDelay) || s.lastbgsaveStatus)

/-- `rdbSave` in the process of the server. -/
def startSave (cfg : PersistConfig) (s : PersistState) (save : SaveContext) (reason : SaveReason) :
    PersistState :=
  { s with foreground := some (⟨cfg.pid, cfg.saving save, s.dbs, .opening⟩, reason) }

/-- What follows `rdbSave` in the process of the server. -/
def endSave (s : PersistState) (time : Int) (ok : Bool) (reason : SaveReason) : PersistState :=
  let s := { s with foreground := none }
  let s := if ok then { s with dirty := 0, lastsave := time, lastbgsaveStatus := true } else s
  match reason with
  | .command => s
  | .flushall savedDirty => { s with dirty := savedDirty + 1, changes := s.changes + 1 }
  | .shutdown => { s with exited := ok }

def stepForeground (s : PersistState) (p : Saver) (reason : SaveReason) (time : Int)
    (e : SaveEvent) : Except Fault PersistState := do
  let (p, disk) ← p.step s.disk e
  let s := { s with dbs := p.dbs, disk := disk }
  match p.stage with
  | .returned ok => return s.endSave time ok reason
  | _ => return { s with foreground := some (p, reason) }

/-- A child that makes a fault is ended by a signal. -/
def stepChild (s : PersistState) (child : SaveChild) (e : SaveEvent) : PersistState :=
  if child.signal.isSome then s
  else
    match child.saver.step s.disk e with
    | .error _ => { s with child := some { child with signal := some false } }
    | .ok (p, disk) => { s with child := some { child with saver := p }, disk := disk }

/-- `flushallCommand` up to its call of `rdbSave`. -/
def flushallCommand (cfg : PersistConfig) (s : PersistState) (save : SaveContext) : PersistState :=
  let removed := (s.dbs.map fun db => dictSize db.dict).sum
  let s := (s.modify (s.dbs.map RedisDb.flush) removed).killChild
  if cfg.saveparams.isEmpty then s.modify s.dbs 1
  else s.startSave cfg save (.flushall (s.dirty.bmod (2 ^ 32)))

/-- `prepareForShutdown` up to its call of `rdbSave`. -/
def prepareForShutdown (cfg : PersistConfig) (s : PersistState) (save : SaveContext)
    (forced nosave : Bool) : PersistState :=
  let s := s.killChild
  if !cfg.saveparams.isEmpty && !nosave || forced then s.startSave cfg save .shutdown
  else { s with exited := true }

/-- What the server does when it is asked for something. -/
def serve (cfg : PersistConfig) (s : PersistState) : PersistEvent → Except Fault PersistState
  | .command j ctx op =>
      match s.dbs[j]? with
      | none => .ok s
      | some db => do
          let (reply, db) ← db.step cfg.hash ctx op
          return s.modify (s.dbs.set j db) (dirtied op reply)
  | .flushdb j =>
      match s.dbs[j]? with
      | none => .ok s
      | some db => .ok (s.modify (s.dbs.set j db.flush) (dictSize db.dict))
  | .flushall save => .ok (s.flushallCommand cfg save)
  | .cron unixtime save fork =>
      match s.child with
      | some child => .ok (s.backgroundSaveDoneHandler child unixtime)
      | none =>
          if s.saveDue cfg unixtime then .ok (s.rdbSaveBackground cfg unixtime save fork)
          else .ok s
  | .bgsaveCommand time save fork => .ok (s.rdbSaveBackground cfg time save fork)
  | .saveCommand save => .ok (if s.child.isSome then s else s.startSave cfg save .command)
  | .shutdown save forced nosave => .ok (s.prepareForShutdown cfg save forced nosave)
  | _ => .ok s

def step (cfg : PersistConfig) (s : PersistState) : PersistEvent → Except Fault PersistState
  | .foreground time e =>
      match s.foreground with
      | none => .ok s
      | some (p, reason) => s.stepForeground p reason time e
  | .child e => .ok (s.child.elim s fun child => s.stepChild child e)
  | .signal usr1 =>
      .ok (s.child.elim s fun child =>
        { s with child := some { child with signal := some (child.signal.getD usr1) } })
  | e => if s.busy then .ok s else s.serve cfg e

def run (cfg : PersistConfig) : List PersistEvent → PersistState → Except Fault PersistState
  | [], s => .ok s
  | e :: es, s => s.step cfg e >>= run cfg es

/-- What an event does. -/
inductive Steps (cfg : PersistConfig) (s : PersistState) : PersistEvent → PersistState → Prop
  | idle (e : PersistEvent) : Steps cfg s e s
  | command {j : Nat} {ctx : DbContext} {op : DbOp} {db db' : RedisDb} {reply : DbReply}
      (hbusy : s.busy = false) (hdb : s.dbs[j]? = some db)
      (hop : db.step cfg.hash ctx op = .ok (reply, db')) :
      Steps cfg s (.command j ctx op) (s.modify (s.dbs.set j db') (dirtied op reply))
  | flushdb {j : Nat} {db : RedisDb} (hbusy : s.busy = false) (hdb : s.dbs[j]? = some db) :
      Steps cfg s (.flushdb j) (s.modify (s.dbs.set j db.flush) (dictSize db.dict))
  | flushall {save : SaveContext} (hbusy : s.busy = false) :
      Steps cfg s (.flushall save) (s.flushallCommand cfg save)
  | done {unixtime : Int} {save : SaveContext} {fork : Option Nat} {child : SaveChild}
      (hbusy : s.busy = false) (hchild : s.child = some child) :
      Steps cfg s (.cron unixtime save fork) (s.backgroundSaveDoneHandler child unixtime)
  | fork {e : PersistEvent} {time : Int} {save : SaveContext} {fork : Option Nat}
      (hbusy : s.busy = false) (hsaves : ∀ fine, e.Saves cfg fine → fine (cfg.saving save)) :
      Steps cfg s e (s.rdbSaveBackground cfg time save fork)
  | save {save : SaveContext} (hbusy : s.busy = false) (hchild : s.child = none) :
      Steps cfg s (.saveCommand save) (s.startSave cfg save .command)
  | shutdown {save : SaveContext} {forced nosave : Bool} (hbusy : s.busy = false) :
      Steps cfg s (.shutdown save forced nosave) (s.prepareForShutdown cfg save forced nosave)
  | foreground {p : Saver} {reason : SaveReason} {time : Int} {e : SaveEvent} {s' : PersistState}
      (hp : s.foreground = some (p, reason))
      (hstep : s.stepForeground p reason time e = .ok s') :
      Steps cfg s (.foreground time e) s'
  | child {child : SaveChild} {e : SaveEvent} (hchild : s.child = some child) :
      Steps cfg s (.child e) (s.stepChild child e)
  | signal {child : SaveChild} {usr1 : Bool} (hchild : s.child = some child)
      (signal : Option Bool) :
      Steps cfg s (.signal usr1) { s with child := some { child with signal := signal } }

theorem steps_of_serve {cfg : PersistConfig} {s s' : PersistState} {e : PersistEvent}
    (hbusy : s.busy = false) (hserve : s.serve cfg e = .ok s') : Steps cfg s e s' := by
  cases e with
  | command j ctx op =>
      simp only [serve] at hserve
      split at hserve
      next =>
        cases hserve
        exact .idle _
      next db hdb =>
        obtain ⟨⟨reply, db'⟩, hop, hserve⟩ := bind_eq_ok.mp hserve
        cases hserve
        exact .command hbusy hdb hop
  | flushdb j =>
      simp only [serve] at hserve
      split at hserve
      next =>
        cases hserve
        exact .idle _
      next db hdb =>
        cases hserve
        exact .flushdb hbusy hdb
  | flushall save =>
      cases hserve
      exact .flushall hbusy
  | cron unixtime save fork =>
      simp only [serve] at hserve
      split at hserve
      next child hchild =>
        cases hserve
        exact .done hbusy hchild
      next =>
        split at hserve
        next =>
          cases hserve
          exact .fork hbusy fun _ h => h
        next =>
          cases hserve
          exact .idle _
  | bgsaveCommand time save fork =>
      cases hserve
      exact .fork hbusy fun _ h => h
  | saveCommand save =>
      cases hserve
      split
      next => exact .idle _
      next hchild => exact .save hbusy (Option.not_isSome_iff_eq_none.mp hchild)
  | shutdown save forced nosave =>
      cases hserve
      exact .shutdown hbusy
  | foreground | child | signal =>
      cases hserve
      exact .idle _

theorem steps_of_step {cfg : PersistConfig} {s s' : PersistState} {e : PersistEvent}
    (hstep : s.step cfg e = .ok s') : Steps cfg s e s' := by
  have hserving : (if s.busy then .ok s else s.serve cfg e) = .ok s' → Steps cfg s e s' := by
    intro hserve
    split at hserve
    next =>
      cases hserve
      exact .idle _
    next hbusy => exact steps_of_serve (Bool.eq_false_iff.mpr hbusy) hserve
  cases e with
  | foreground time e =>
      simp only [step] at hstep
      split at hstep
      next =>
        cases hstep
        exact .idle _
      next p reason hp => exact .foreground hp hstep
  | child e =>
      cases hstep
      cases hchild : s.child with
      | none => exact .idle _
      | some child => exact .child hchild
  | signal usr1 =>
      cases hstep
      cases hchild : s.child with
      | none => exact .idle _
      | some child => exact .signal hchild _
  | command | flushdb | flushall | cron | bgsaveCommand | saveCommand | shutdown =>
      exact hserving hstep

end PersistState

/-! ## Runs -/

variable {cfg : PersistConfig} {s s' : PersistState}

theorem PersistState.busy_killChild (s : PersistState) : s.killChild.busy = s.busy := by
  unfold PersistState.killChild
  split <;> rfl

namespace PersistState

/-- What does not touch the memory. -/
structure SameMemory (s s' : PersistState) : Prop where
  dbs : s'.dbs = s.dbs
  foreground : s'.foreground = s.foreground
  changes : s'.changes = s.changes

theorem sameMemory_killChild (s : PersistState) : SameMemory s s.killChild := by
  unfold killChild
  split <;> exact ⟨rfl, rfl, rfl⟩

theorem sameMemory_stepChild (s : PersistState) (child : SaveChild) (e : SaveEvent) :
    SameMemory s (s.stepChild child e) := by
  unfold stepChild
  split
  next => exact ⟨rfl, rfl, rfl⟩
  next => split <;> exact ⟨rfl, rfl, rfl⟩

theorem sameMemory_backgroundSaveDoneHandler (s : PersistState) (child : SaveChild) (time : Int) :
    SameMemory s (s.backgroundSaveDoneHandler child time) := by
  unfold backgroundSaveDoneHandler
  split
  next => exact ⟨rfl, rfl, rfl⟩
  next => split <;> exact ⟨rfl, rfl, rfl⟩

theorem sameMemory_rdbSaveBackground (s : PersistState) (time : Int) (save : SaveContext)
    (fork : Option Nat) : SameMemory s (s.rdbSaveBackground cfg time save fork) := by
  unfold rdbSaveBackground
  split
  next => exact ⟨rfl, rfl, rfl⟩
  next => cases fork <;> exact ⟨rfl, rfl, rfl⟩

theorem changes_endSave (s : PersistState) (time : Int) (ok : Bool) (reason : SaveReason) :
    s.changes ≤ (s.endSave time ok reason).changes := by
  cases reason with
  | flushall => cases ok <;> exact Nat.le_succ _
  | command | shutdown => cases ok <;> exact le_refl _

theorem changes_stepForeground {p : Saver} {reason : SaveReason} {time : Int} {e : SaveEvent}
    (hstep : s.stepForeground p reason time e = .ok s') : s.changes ≤ s'.changes := by
  obtain ⟨⟨p', disk⟩, -, hstep⟩ := bind_eq_ok.mp hstep
  dsimp only at hstep
  split at hstep
  next =>
    cases hstep
    exact changes_endSave { s with dbs := p'.dbs, disk := disk } _ _ _
  next =>
    cases hstep
    exact le_refl _

theorem changes_flushallCommand (s : PersistState) (save : SaveContext) :
    s.changes + (s.dbs.map fun db => dictSize db.dict).sum ≤
      (s.flushallCommand cfg save).changes := by
  have hkilled := (sameMemory_killChild (s.modify (s.dbs.map RedisDb.flush)
    (s.dbs.map fun db => dictSize db.dict).sum)).changes
  unfold flushallCommand
  dsimp only
  split
  next =>
    rw [modify, hkilled]
    exact Nat.le_succ _
  next =>
    rw [startSave, hkilled]
    exact le_refl _

theorem changes_prepareForShutdown (s : PersistState) (save : SaveContext)
    (forced nosave : Bool) :
    (s.prepareForShutdown cfg save forced nosave).changes = s.changes := by
  unfold prepareForShutdown
  dsimp only
  split
  next => exact (sameMemory_killChild s).changes
  next => exact (sameMemory_killChild s).changes

theorem changes_step {e : PersistEvent} (hstep : s.step cfg e = .ok s') :
    s.changes ≤ s'.changes := by
  cases steps_of_step hstep with
  | idle | save | signal => exact le_refl _
  | command | flushdb => exact Nat.le_add_right _ _
  | flushall => exact (Nat.le_add_right _ _).trans (changes_flushallCommand s _)
  | done => exact (sameMemory_backgroundSaveDoneHandler s _ _).changes.ge
  | fork => exact (sameMemory_rdbSaveBackground s _ _ _).changes.ge
  | shutdown => exact (changes_prepareForShutdown s _ _ _).ge
  | foreground _ hstep => exact changes_stepForeground hstep
  | child => exact (sameMemory_stepChild s _ _).changes.ge

theorem changes_run {es : List PersistEvent} (hrun : run cfg es s = .ok s') :
    s.changes ≤ s'.changes := by
  induction es generalizing s with
  | nil =>
      cases hrun
      exact le_refl _
  | cons e es ih =>
      obtain ⟨s₁, hstep, hrest⟩ := bind_eq_ok.mp hrun
      exact (changes_step hstep).trans (ih hrest)

theorem run_append (es es' : List PersistEvent) (s : PersistState) :
    run cfg (es ++ es') s = run cfg es s >>= run cfg es' := by
  induction es generalizing s with
  | nil => rfl
  | cons e es ih =>
      rw [List.cons_append, run, run, bind_assoc]
      exact bind_congr fun s₁ => ih s₁

end PersistState

/-- The states that a run goes through. -/
def Passes (cfg : PersistConfig) (es : List PersistEvent) (s past : PersistState) : Prop :=
  ∃ done rest, es = done ++ rest ∧ PersistState.run cfg done s = .ok past

theorem Passes.refl (es : List PersistEvent) (s : PersistState) : Passes cfg es s s :=
  ⟨[], es, rfl, rfl⟩

theorem Passes.cons {e : PersistEvent} {es : List PersistEvent} {s₁ past : PersistState}
    (hstep : s.step cfg e = .ok s₁) (h : Passes cfg es s₁ past) : Passes cfg (e :: es) s past := by
  obtain ⟨done, rest, rfl, hrun⟩ := h
  refine ⟨e :: done, rest, rfl, ?_⟩
  rw [PersistState.run, hstep]
  exact hrun

/-- What is left of a run behind a state that it goes through. -/
theorem Passes.rest {es : List PersistEvent} {past : PersistState} (h : Passes cfg es s past)
    (hrun : PersistState.run cfg es s = .ok s') :
    ∃ rest, PersistState.run cfg rest past = .ok s' := by
  obtain ⟨done, rest, rfl, hdone⟩ := h
  rw [PersistState.run_append, hdone] at hrun
  exact ⟨rest, hrun⟩

theorem Passes.changes_le {es : List PersistEvent} {past : PersistState}
    (h : Passes cfg es s past) (hrun : PersistState.run cfg es s = .ok s') :
    past.changes ≤ s'.changes := by
  obtain ⟨rest, hrest⟩ := h.rest hrun
  exact PersistState.changes_run hrest

end Blogd
