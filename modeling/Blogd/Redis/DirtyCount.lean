import Blogd.Redis.Persistence

/-! # What the server counts

A dump that gets its name is whole, and of a state that the server was in. The server counts the
changes behind it in `server.dirty`. It takes off what it had counted at the fork when it hears
that the child has succeeded, starts again at 0 when it saved by itself, and keeps its count when
`FLUSHALL` saves, since a child may still be at work then.
-/

namespace Blogd

section Accounts

variable (cfg : PersistConfig) (fine : SaveContext → Prop) (Past : PersistState → Prop)

/-- A file that holds a whole dump of the memory in a state, also after a power failure. -/
def Dumped (fine : SaveContext → Prop) (past : PersistState) (file : DiskFile) : Prop :=
  ∃ save, fine save ∧ IsDump save past.dbs file.cached ∧ file.durable = file.cached

/-- What holds of the child that was forked in a state, where the newest dump is of another. -/
structure ChildAccounts (s newest forked : PersistState) (child : SaveChild) : Prop where
  past : Past forked
  pid : child.saver.pid ≠ cfg.pid
  fine : fine child.saver.save
  sound : child.saver.Sound forked.dbs s.disk
  nonneg : 0 ≤ s.dirtyBeforeBgsave
  count : forked.changes ≤ s.changes
  dirty : s.exited = false → s.dirty - s.dirtyBeforeBgsave = s.changes - forked.changes
  returned : child.saver.stage = .returned true → forked.changes ≤ newest.changes

/-- What holds while the server itself is in `rdbSave`. Only where it goes on with a child does it
keep what it counted. -/
structure ForegroundAccounts (s : PersistState) (p : Saver) (reason : SaveReason) : Prop where
  snapshot : ∃ past, Past past ∧ past.changes = s.changes ∧ p.Sound past.dbs s.disk
  pid : p.pid = cfg.pid
  fine : fine p.save
  inside : ∀ ok, p.stage ≠ .returned ok
  running : s.exited = false
  alone : reason = .command → s.child = none
  saved : ∀ savedDirty, reason = .flushall savedDirty → savedDirty = s.dirty

/-- What holds after every event, where `newest` is the state that the newest dump is of, and
`forked` the one in which the child was forked. -/
structure Accounts (start s newest forked : PersistState) : Prop where
  past : Past newest
  onDisk : s.disk.dumps = start.disk.dumps ∧ newest = start ∨
    ∃ file rest, s.disk.dumps = file :: rest ∧ Dumped fine newest file
  dumps : ∀ file ∈ s.disk.dumps,
    file ∈ start.disk.dumps ∨ ∃ past, Past past ∧ Dumped fine past file
  count : newest.changes ≤ s.changes
  nonneg : 0 ≤ s.dirty
  dirty : s.dirty ≤ s.changes
  lost : s.exited = false ∨ s.child = none → (s.changes : Int) - newest.changes ≤ s.dirty
  child : ∀ child, s.child = some child → ChildAccounts cfg fine Past s newest forked child
  foreground : ∀ p reason, s.foreground = some (p, reason) →
    ForegroundAccounts cfg fine Past s p reason

end Accounts

variable {cfg : PersistConfig} {fine : SaveContext → Prop} {Past : PersistState → Prop}
variable {start s s' newest forked : PersistState}

theorem accounts_boot {dbs : List RedisDb} {disk : Disk} {now : Int}
    (hpast : Past (.boot dbs disk now)) :
    Accounts cfg fine Past (.boot dbs disk now) (.boot dbs disk now) (.boot dbs disk now)
      (.boot dbs disk now) where
  past := hpast
  onDisk := .inl ⟨rfl, rfl⟩
  dumps _ h := .inl h
  count := le_refl _
  nonneg := le_refl _
  dirty := le_refl _
  lost _ := le_refl _
  child _ h := by cases h
  foreground _ _ h := by cases h

theorem PersistState.foreground_of_busy (hbusy : s.busy = false) : s.foreground = none := by
  unfold PersistState.busy at hbusy
  simpa using (Bool.or_eq_false_iff.mp hbusy).2

theorem PersistState.exited_of_busy (hbusy : s.busy = false) : s.exited = false :=
  (Bool.or_eq_false_iff.mp hbusy).1

namespace Accounts

/-- The counters change while nobody writes. -/
theorem update (h : Accounts cfg fine Past start s newest forked) (hdisk : s'.disk = s.disk)
    (hchild : s'.child = s.child) (hforeground : s'.foreground = none)
    (hbefore : s'.dirtyBeforeBgsave = s.dirtyBeforeBgsave) (hcount : s.changes ≤ s'.changes)
    (hnonneg : 0 ≤ s'.dirty) (hbound : s'.dirty ≤ s'.changes)
    (hlost : s'.exited = false ∨ s.child = none →
      (s'.changes : Int) - newest.changes ≤ s'.dirty)
    (hforked : ∀ child, s.child = some child → s'.exited = false →
      s'.dirty - s.dirtyBeforeBgsave = s'.changes - forked.changes) :
    Accounts cfg fine Past start s' newest forked where
  past := h.past
  onDisk := by
    rw [hdisk]
    exact h.onDisk
  dumps := by
    rw [hdisk]
    exact h.dumps
  count := h.count.trans hcount
  nonneg := hnonneg
  dirty := hbound
  lost := by
    rw [hchild]
    exact hlost
  child child hc := by
    rw [hchild] at hc
    have haccounts := h.child child hc
    refine ⟨haccounts.past, haccounts.pid, haccounts.fine, ?_, ?_, haccounts.count.trans hcount,
      ?_, haccounts.returned⟩
    · rw [hdisk]
      exact haccounts.sound
    · rw [hbefore]
      exact haccounts.nonneg
    · rw [hbefore]
      exact hforked child hc
  foreground p reason hp := by cases hforeground.symm.trans hp

theorem modify (h : Accounts cfg fine Past start s newest forked) (hbusy : s.busy = false)
    (dbs : List RedisDb) (n : Nat) :
    Accounts cfg fine Past start (s.modify dbs n) newest forked := by
  have hnonneg := h.nonneg
  have hbound := h.dirty
  refine h.update rfl rfl (PersistState.foreground_of_busy hbusy) rfl (Nat.le_add_right _ _) ?_ ?_
    (fun hs => ?_) (fun child hchild hs => ?_)
  · simp only [PersistState.modify]
    omega
  · simp only [PersistState.modify]
    omega
  · have hlost := h.lost hs
    simp only [PersistState.modify]
    omega
  · have hdirty := (h.child child hchild).dirty hs
    simp only [PersistState.modify]
    omega

/-- The temporary file of a child is removed. -/
theorem removeTemp (h : Accounts cfg fine Past start s newest forked)
    (hbusy : s.busy = false) (pid : Nat) :
    Accounts cfg fine Past start { s with disk := s.disk.removeTemp pid } newest forked where
  past := h.past
  onDisk := h.onDisk
  dumps := h.dumps
  count := h.count
  nonneg := h.nonneg
  dirty := h.dirty
  lost := h.lost
  child child hchild := by
    have hc := h.child child hchild
    exact ⟨hc.past, hc.pid, hc.fine, hc.sound.removeTemp pid, hc.nonneg, hc.count, hc.dirty,
      hc.returned⟩
  foreground p reason hp := by
    rw [PersistState.foreground_of_busy hbusy] at hp
    cases hp

theorem killChild (h : Accounts cfg fine Past start s newest forked) (hbusy : s.busy = false) :
    Accounts cfg fine Past start s.killChild newest forked := by
  unfold PersistState.killChild
  split
  next => exact h
  next child _ => exact h.removeTemp hbusy child.saver.pid

theorem startSave {save : SaveContext} {reason : SaveReason}
    (h : Accounts cfg fine Past start s newest forked) (hrunning : s.exited = false)
    (hpast : Past (s.startSave cfg save reason)) (hfine : fine (cfg.saving save))
    (halone : reason = .command → s.child = none)
    (hsaved : ∀ savedDirty, reason = .flushall savedDirty → savedDirty = s.dirty) :
    Accounts cfg fine Past start (s.startSave cfg save reason) newest forked where
  past := h.past
  onDisk := h.onDisk
  dumps := h.dumps
  count := h.count
  nonneg := h.nonneg
  dirty := h.dirty
  lost := h.lost
  child child hchild := by
    have hc := h.child child hchild
    exact ⟨hc.past, hc.pid, hc.fine, hc.sound, hc.nonneg, hc.count, hc.dirty, hc.returned⟩
  foreground p reason hp := by
    cases hp
    exact ⟨⟨_, hpast, rfl, rfl⟩, rfl, hfine, fun _ => SaveStage.noConfusion, hrunning, halone,
      hsaved⟩

theorem rdbSaveBackground {save : SaveContext}
    (h : Accounts cfg fine Past start s newest forked) (hbusy : s.busy = false) (hpast : Past s)
    (hfine : fine (cfg.saving save)) (time : Int) (fork : Option Nat) :
    ∃ forked', Accounts cfg fine Past start (s.rdbSaveBackground cfg time save fork) newest
      forked' := by
  have hforeground := PersistState.foreground_of_busy hbusy
  unfold PersistState.rdbSaveBackground
  split
  next => exact ⟨forked, h⟩
  next hchild =>
    have hnone : s.child = none := Option.not_isSome_iff_eq_none.mp hchild
    cases fork with
    | none =>
        refine ⟨forked, h.past, h.onDisk, h.dumps, h.count, h.nonneg, h.dirty, h.lost,
          fun child hc => ?_, fun p reason hp => ?_⟩
        · cases hnone.symm.trans hc
        · cases hforeground.symm.trans hp
    | some n =>
        refine ⟨s, h.past, h.onDisk, h.dumps, h.count, h.nonneg, h.dirty,
          fun _ => h.lost (.inr hnone), fun child hc => ?_, fun p reason hp => ?_⟩
        · cases hc
          refine ⟨hpast, ?_, hfine, rfl, h.nonneg, le_refl _, fun _ => ?_, fun hstage => ?_⟩
          · dsimp only
            omega
          · dsimp only
            omega
          · cases hstage
        · cases hforeground.symm.trans hp

theorem backgroundSaveDoneHandler {child : SaveChild}
    (h : Accounts cfg fine Past start s newest forked) (hbusy : s.busy = false)
    (hchild : s.child = some child) (time : Int) :
    Accounts cfg fine Past start (s.backgroundSaveDoneHandler child time) newest forked := by
  have hc := h.child child hchild
  have hrunning := PersistState.exited_of_busy hbusy
  have hforeground := PersistState.foreground_of_busy hbusy
  have hlost := h.lost (.inl hrunning)
  unfold PersistState.backgroundSaveDoneHandler
  split
  next =>
    refine ⟨h.past, h.onDisk, h.dumps, h.count, h.nonneg, h.dirty, fun _ => hlost,
      fun _ hnone => ?_, fun p reason hp => ?_⟩
    · cases hnone
    · cases hforeground.symm.trans hp
  next =>
    split
    next hstage =>
      -- what was counted up to the fork is in the dump
      have hdirty := hc.dirty hrunning
      have hcount := hc.count
      have hreturned := hc.returned hstage
      have hnonneg := hc.nonneg
      have hbound := h.dirty
      refine ⟨h.past, h.onDisk, h.dumps, h.count, ?_, ?_, fun _ => ?_, fun _ hnone => ?_,
        fun p reason hp => ?_⟩
      · dsimp only
        omega
      · dsimp only
        omega
      · dsimp only
        omega
      · cases hnone
      · cases hforeground.symm.trans hp
    next =>
      refine ⟨h.past, h.onDisk, h.dumps, h.count, h.nonneg, h.dirty, fun _ => hlost,
        fun _ hnone => ?_, fun p reason hp => ?_⟩
      · cases hnone
      · cases hforeground.symm.trans hp
    next => exact h

/-- A signal for the child. -/
theorem signal {child : SaveChild} (h : Accounts cfg fine Past start s newest forked)
    (hchild : s.child = some child) (signal : Option Bool) :
    Accounts cfg fine Past start { s with child := some { child with signal := signal } } newest
      forked where
  past := h.past
  onDisk := h.onDisk
  dumps := h.dumps
  count := h.count
  nonneg := h.nonneg
  dirty := h.dirty
  lost hs := h.lost (hs.imp_right fun hnone => by cases hnone)
  child c hc := by
    cases hc
    have hc := h.child child hchild
    exact ⟨hc.past, hc.pid, hc.fine, hc.sound, hc.nonneg, hc.count, hc.dirty, hc.returned⟩
  foreground p reason hp := by
    have hf := h.foreground p reason hp
    refine ⟨hf.snapshot, hf.pid, hf.fine, hf.inside, hf.running, fun hr => ?_, hf.saved⟩
    cases hchild.symm.trans (hf.alone hr)

/-- What a dump that takes the name does to the files. -/
theorem dumps_cons {disk : Disk} {past : PersistState} {save : SaveContext} {text : Bytes}
    (h : Accounts cfg fine Past start s newest forked) (hpast : Past past) (hfine : fine save)
    (htext : IsDump save past.dbs text) (hdisk : disk.dumps = ⟨text, text⟩ :: s.disk.dumps) :
    (∃ file rest, disk.dumps = file :: rest ∧ Dumped fine past file) ∧
      ∀ file ∈ disk.dumps,
        file ∈ start.disk.dumps ∨ ∃ past, Past past ∧ Dumped fine past file := by
  have hdumped : Dumped fine past ⟨text, text⟩ := ⟨save, hfine, htext, rfl⟩
  refine ⟨⟨_, _, hdisk, hdumped⟩, fun file hfile => ?_⟩
  rw [hdisk] at hfile
  obtain rfl | hfile := List.mem_cons.mp hfile
  · exact .inr ⟨past, hpast, hdumped⟩
  · exact h.dumps file hfile

theorem stepChild {child : SaveChild} (h : Accounts cfg fine Past start s newest forked)
    (hchild : s.child = some child) (e : SaveEvent) :
    ∃ newest', Accounts cfg fine Past start (s.stepChild child e) newest' forked := by
  unfold PersistState.stepChild
  split
  next => exact ⟨newest, h⟩
  next =>
    split
    next => exact ⟨newest, h.signal hchild (some false)⟩
    next p disk hstep =>
      have hc := h.child child hchild
      have hmoves := hc.sound.moves_step hstep
      have hforeground : ∀ q reason, s.foreground = some (q, reason) →
          ForegroundAccounts cfg fine Past
            { s with child := some { child with saver := p }, disk := disk } q reason := by
        intro q reason hq
        have hf := h.foreground q reason hq
        obtain ⟨past, hpast, hchanges, hsound⟩ := hf.snapshot
        have htemp : disk.temp q.pid = s.disk.temp q.pid :=
          hmoves.temp q.pid (hf.pid ▸ hc.pid.symm)
        refine ⟨⟨past, hpast, hchanges, hsound.of_temp htemp⟩, hf.pid, hf.fine, hf.inside,
          hf.running, fun hr => ?_, hf.saved⟩
        cases hchild.symm.trans (hf.alone hr)
      have hpid : p.pid ≠ cfg.pid := hmoves.pid ▸ hc.pid
      have hfine : fine p.save := hmoves.save ▸ hc.fine
      obtain ⟨hdumps, hstage⟩ | ⟨text, hdumps, htext, -⟩ := hmoves.dumps
      · refine ⟨newest, h.past, ?_, ?_, h.count, h.nonneg, h.dirty,
          fun hs => h.lost (hs.imp_right fun hnone => ?_), fun c hc' => ?_, hforeground⟩
        · rw [hdumps]
          exact h.onDisk
        · rw [hdumps]
          exact h.dumps
        · cases hnone
        · cases hc'
          exact ⟨hc.past, hpid, hfine, hmoves.sound, hc.nonneg, hc.count, hc.dirty,
            fun hr => hc.returned (hstage hr)⟩
      · -- the dump of the child is the newest one now, and the server still counts from before it
        obtain ⟨honDisk, hall⟩ := h.dumps_cons hc.past hc.fine htext hdumps
        refine ⟨forked, hc.past, .inr honDisk, hall, hc.count, h.nonneg, h.dirty, fun hs => ?_,
          fun c hc' => ?_, hforeground⟩
        · have hrunning : s.exited = false := hs.resolve_right (by simp)
          have hdirty := hc.dirty hrunning
          have hnonneg := hc.nonneg
          dsimp only
          omega
        · cases hc'
          exact ⟨hc.past, hpid, hfine, hmoves.sound, hc.nonneg, hc.count, hc.dirty,
            fun _ => le_refl _⟩

/-- A step of the server in `rdbSave`. If it renames its file, the newest dump has every change. -/
theorem moveForeground {p p' : Saver} {reason : SaveReason} {disk : Disk} {e : SaveEvent}
    (h : Accounts cfg fine Past start s newest forked) (hp : s.foreground = some (p, reason))
    (hstep : p.step s.disk e = .ok (p', disk)) :
    ∃ newest', Accounts cfg fine Past start
        { s with dbs := p'.dbs, disk := disk, foreground := none } newest' forked ∧
      (p'.stage = .returned true → newest'.changes = s.changes) ∧
      ∃ past, Past past ∧ past.changes = s.changes ∧ p'.Sound past.dbs disk ∧
        p'.pid = cfg.pid ∧ fine p'.save := by
  have hf := h.foreground p reason hp
  obtain ⟨past, hpast, hchanges, hsound⟩ := hf.snapshot
  have hmoves := hsound.moves_step hstep
  have hself : p'.pid = cfg.pid ∧ fine p'.save :=
    ⟨hmoves.pid.trans hf.pid, hmoves.save ▸ hf.fine⟩
  have htemp : ∀ child, s.child = some child →
      disk.temp child.saver.pid = s.disk.temp child.saver.pid := by
    intro child hchild
    apply hmoves.temp
    rw [hf.pid]
    exact (h.child child hchild).pid
  obtain ⟨hdumps, hstage⟩ | ⟨text, hdumps, htext, -⟩ := hmoves.dumps
  · refine ⟨newest, ⟨h.past, ?_, ?_, h.count, h.nonneg, h.dirty, h.lost, fun child hchild => ?_,
      fun _ _ hnone => ?_⟩, fun hr => ?_, past, hpast, hchanges, hmoves.sound, hself⟩
    · rw [hdumps]
      exact h.onDisk
    · rw [hdumps]
      exact h.dumps
    · have hc := h.child child hchild
      exact ⟨hc.past, hc.pid, hc.fine, hc.sound.of_temp (htemp child hchild), hc.nonneg, hc.count,
        hc.dirty, hc.returned⟩
    · cases hnone
    · exact absurd (hstage hr) (hf.inside true)
  · obtain ⟨honDisk, hall⟩ := h.dumps_cons hpast hf.fine htext hdumps
    refine ⟨past, ⟨hpast, .inr honDisk, hall, hchanges.le, h.nonneg, h.dirty, fun _ => ?_,
      fun child hchild => ?_, fun _ _ hnone => ?_⟩, fun _ => hchanges, past, hpast, hchanges,
      hmoves.sound, hself⟩
    · have hnonneg := h.nonneg
      dsimp only
      omega
    · have hc := h.child child hchild
      exact ⟨hc.past, hc.pid, hc.fine, hc.sound.of_temp (htemp child hchild), hc.nonneg, hc.count,
        hc.dirty, fun _ => hchanges ▸ hc.count⟩
    · cases hnone

theorem endSave {reason : SaveReason} {ok : Bool}
    (h : Accounts cfg fine Past start s newest forked) (hrunning : s.exited = false)
    (hnewest : ok = true → newest.changes = s.changes)
    (halone : reason = .command → s.child = none)
    (hsaved : ∀ savedDirty, reason = .flushall savedDirty → savedDirty = s.dirty) (time : Int) :
    Accounts cfg fine Past start (s.endSave time ok reason) newest forked := by
  have hnonneg := h.nonneg
  have hbound := h.dirty
  have hlost := h.lost (.inl hrunning)
  have hchild := fun child hc => (h.child child hc).dirty hrunning
  cases reason with
  | command =>
      cases ok with
      | false =>
          exact h.update rfl rfl rfl rfl (le_refl _) hnonneg hbound (fun _ => hlost)
            (fun child hc _ => hchild child hc)
      | true =>
          have hcount := hnewest rfl
          refine h.update rfl rfl rfl rfl (le_refl _) (le_refl _) (Int.natCast_nonneg _)
            (fun _ => ?_) (fun child hc _ => ?_)
          · change (s.changes : Int) - newest.changes ≤ 0
            omega
          · cases (halone rfl).symm.trans hc
  | flushall savedDirty =>
      -- what `rdbSave` left in `server.dirty` is not kept
      obtain rfl := hsaved savedDirty rfl
      have hdirty : (s.endSave time ok (.flushall s.dirty)).dirty = s.dirty + 1 := by
        cases ok <;> rfl
      have hcount : (s.endSave time ok (.flushall s.dirty)).changes = s.changes + 1 := by
        cases ok <;> rfl
      refine h.update (by cases ok <;> rfl) (by cases ok <;> rfl) (by cases ok <;> rfl)
        (by cases ok <;> rfl) (hcount ▸ Nat.le_succ _) ?_ ?_ (fun _ => ?_) (fun child hc _ => ?_)
      · omega
      · omega
      · omega
      · have := hchild child hc
        omega
  | shutdown =>
      cases ok with
      | false =>
          exact h.update rfl rfl rfl rfl (le_refl _) hnonneg hbound (fun _ => hlost)
            (fun child hc _ => hchild child hc)
      | true =>
          have hcount := hnewest rfl
          refine h.update rfl rfl rfl rfl (le_refl _) (le_refl _) (Int.natCast_nonneg _)
            (fun _ => ?_) (fun child hc hs => ?_)
          · change (s.changes : Int) - newest.changes ≤ 0
            omega
          · cases hs

theorem stepForeground {p : Saver} {reason : SaveReason} {time : Int} {e : SaveEvent}
    (h : Accounts cfg fine Past start s newest forked) (hp : s.foreground = some (p, reason))
    (hstep : s.stepForeground p reason time e = .ok s') :
    ∃ newest', Accounts cfg fine Past start s' newest' forked := by
  have hf := h.foreground p reason hp
  obtain ⟨⟨p', disk⟩, hmove, hstep⟩ := bind_eq_ok.mp hstep
  obtain ⟨newest', h', hnewest, past, hpast, hchanges, hsound, hpid, hfine⟩ :=
    h.moveForeground hp hmove
  refine ⟨newest', ?_⟩
  dsimp only at hstep
  split at hstep
  next ok hstage =>
    cases hstep
    exact h'.endSave hf.running (fun hok => hnewest (by rw [hstage, hok])) hf.alone hf.saved time
  next hinside =>
    cases hstep
    refine ⟨h'.past, h'.onDisk, h'.dumps, h'.count, h'.nonneg, h'.dirty, h'.lost,
      fun child hchild => ?_, fun q r hq => ?_⟩
    · have hc := h'.child child hchild
      exact ⟨hc.past, hc.pid, hc.fine, hc.sound, hc.nonneg, hc.count, hc.dirty, hc.returned⟩
    cases hq
    exact ⟨⟨past, hpast, hchanges, hsound⟩, hpid, hfine, hinside, hf.running, hf.alone, hf.saved⟩

theorem flushallCommand {save : SaveContext} (h : Accounts cfg fine Past start s newest forked)
    (hbusy : s.busy = false) (hpast : Past (s.flushallCommand cfg save))
    (hsmall : (s.flushallCommand cfg save).changes < 2 ^ 31) (hfine : fine (cfg.saving save)) :
    Accounts cfg fine Past start (s.flushallCommand cfg save) newest forked := by
  have hflushed := (h.modify hbusy (s.dbs.map RedisDb.flush)
    (s.dbs.map fun db => dictSize db.dict).sum).killChild hbusy
  unfold PersistState.flushallCommand at hpast hsmall ⊢
  dsimp only at hpast hsmall ⊢
  have hidle := (PersistState.busy_killChild (s.modify (s.dbs.map RedisDb.flush)
    (s.dbs.map fun db => dictSize db.dict).sum)).trans hbusy
  split at hpast
  next hempty =>
    rw [if_pos hempty]
    exact hflushed.modify hidle _ 1
  next hempty =>
    rw [if_neg hempty] at hsmall ⊢
    refine hflushed.startSave (PersistState.exited_of_busy hidle) hpast hfine
      (fun hr => by cases hr) (fun savedDirty hsaved => ?_)
    cases hsaved
    have hnonneg := hflushed.nonneg
    have hbound := hflushed.dirty
    dsimp only [PersistState.startSave] at hsmall
    exact Int.bmod_eq_of_le (by omega) (by omega)

theorem prepareForShutdown {save : SaveContext} {forced nosave : Bool}
    (h : Accounts cfg fine Past start s newest forked) (hbusy : s.busy = false)
    (hpast : Past (s.prepareForShutdown cfg save forced nosave))
    (hfine : fine (cfg.saving save)) :
    Accounts cfg fine Past start (s.prepareForShutdown cfg save forced nosave) newest forked := by
  have hkilled := h.killChild hbusy
  have hidle := (PersistState.busy_killChild s).trans hbusy
  have hrunning := PersistState.exited_of_busy hidle
  unfold PersistState.prepareForShutdown at hpast ⊢
  dsimp only at hpast ⊢
  split at hpast
  next hsave =>
    rw [if_pos hsave]
    exact hkilled.startSave hrunning hpast hfine (fun hr => by cases hr) (fun _ hr => by cases hr)
  next hsave =>
    rw [if_neg hsave]
    have hforeground := PersistState.foreground_of_busy hidle
    refine hkilled.update rfl rfl hforeground rfl (le_refl _)
      hkilled.nonneg hkilled.dirty (fun _ => hkilled.lost (.inl hrunning)) (fun child hc hs => ?_)
    cases hs

theorem step {e : PersistEvent} (h : Accounts cfg fine Past start s newest forked)
    (hpast : Past s) (hpast' : Past s') (hsmall : s'.changes < 2 ^ 31)
    (hsaves : e.Saves cfg fine) (hstep : s.step cfg e = .ok s') :
    ∃ newest' forked', Accounts cfg fine Past start s' newest' forked' := by
  cases PersistState.steps_of_step hstep with
  | idle => exact ⟨newest, forked, h⟩
  | command hbusy | flushdb hbusy => exact ⟨newest, forked, h.modify hbusy _ _⟩
  | flushall hbusy => exact ⟨newest, forked, h.flushallCommand hbusy hpast' hsmall hsaves⟩
  | done hbusy hchild => exact ⟨newest, forked, h.backgroundSaveDoneHandler hbusy hchild _⟩
  | fork hbusy hfine => exact ⟨newest, h.rdbSaveBackground hbusy hpast (hfine fine hsaves) _ _⟩
  | save hbusy hchild =>
      exact ⟨newest, forked, h.startSave (PersistState.exited_of_busy hbusy) hpast' hsaves
        (fun _ => hchild) (fun _ hr => by cases hr)⟩
  | shutdown hbusy => exact ⟨newest, forked, h.prepareForShutdown hbusy hpast' hsaves⟩
  | foreground hp hstep =>
      obtain ⟨newest', h'⟩ := h.stepForeground hp hstep
      exact ⟨newest', forked, h'⟩
  | child hchild =>
      obtain ⟨newest', h'⟩ := h.stepChild hchild _
      exact ⟨newest', forked, h'⟩
  | signal hchild signal => exact ⟨newest, forked, h.signal hchild signal⟩

end Accounts

/-- What one event preserves, a run preserves. -/
theorem Accounts.run {es : List PersistEvent} (hPast : ∀ past, Passes cfg es s past → Past past)
    (hsmall : ∀ past, Passes cfg es s past → past.changes < 2 ^ 31)
    (hsaves : ∀ e ∈ es, e.Saves cfg fine) (h : Accounts cfg fine Past start s newest forked)
    (hrun : PersistState.run cfg es s = .ok s') :
    ∃ newest' forked', Accounts cfg fine Past start s' newest' forked' := by
  induction es generalizing s newest forked with
  | nil =>
      cases hrun
      exact ⟨newest, forked, h⟩
  | cons e es ih =>
      obtain ⟨s₁, hstep, hrest⟩ := bind_eq_ok.mp hrun
      have hpass : Passes cfg (e :: es) s s₁ := (Passes.refl es s₁).cons hstep
      obtain ⟨hsave, hsaves⟩ := List.forall_mem_cons.mp hsaves
      obtain ⟨newest₁, forked₁, h₁⟩ :=
        h.step (hPast s (Passes.refl _ s)) (hPast s₁ hpass) (hsmall s₁ hpass) hsave hstep
      exact ih (fun past hp => hPast past (hp.cons hstep))
        (fun past hp => hsmall past (hp.cons hstep)) hsaves h₁ hrest

/-- What holds after a run from the start. -/
theorem accounts_run {dbs : List RedisDb} {disk : Disk} {now : Int} {es : List PersistEvent}
    (hrun : PersistState.run cfg es (.boot dbs disk now) = .ok s) (hsmall : s.changes < 2 ^ 31)
    (hsaves : ∀ e ∈ es, e.Saves cfg fine) :
    ∃ newest forked, Accounts cfg fine (Passes cfg es (.boot dbs disk now))
      (.boot dbs disk now) s newest forked :=
  (accounts_boot (Passes.refl es _)).run (fun _ h => h)
    (fun _ h => (h.changes_le hrun).trans_lt hsmall) hsaves hrun

theorem PersistEvent.saves_hash (cfg : PersistConfig) (e : PersistEvent) :
    e.Saves cfg fun save => save.hash = cfg.hash := by
  cases e <;> first | rfl | trivial

/-- After any run in which fewer than `2 ^ 31` changes are made, what the memory has and the newest
dump has not is at most what `server.dirty` counts: the dump is of a state that the server was in,
and no more changes were made since. This holds while the server runs, also when a child or the
server is in the middle of a dump, and after it has exited without a child that still writes. -/
theorem lost_changes_le_dirty {dbs : List RedisDb} {disk : Disk} {now : Int}
    {es : List PersistEvent} (hrun : PersistState.run cfg es (.boot dbs disk now) = .ok s)
    (hsmall : s.changes < 2 ^ 31) (hlast : s.exited = false ∨ s.child = none) :
    ∃ newest, Passes cfg es (.boot dbs disk now) newest ∧
      (s.disk.dumps = disk.dumps ∧ newest = .boot dbs disk now ∨
        ∃ file rest, s.disk.dumps = file :: rest ∧
          Dumped (fun save => save.hash = cfg.hash) newest file) ∧
      newest.changes ≤ s.changes ∧ (s.changes : Int) - newest.changes ≤ s.dirty := by
  obtain ⟨newest, forked, h⟩ := accounts_run hrun hsmall fun e _ => e.saves_hash cfg
  exact ⟨newest, h.past, h.onDisk, h.count, h.lost hlast⟩

/-- A server with one child, and a change that the dump of the child does not have. -/
def savingConfig : PersistConfig := ⟨RedisDb.lengthHash, 1, [⟨900, 1⟩]⟩

/-- The calls of a dump that succeeds. -/
def saveCalls : List SaveEvent := List.replicate 6 (.call true 200)

def savingEvents : List PersistEvent :=
  [.command 0 (RedisDb.contextAt 5) (.set (ascii "a") (ascii "1")),
    .bgsaveCommand 7 dumpingServer (some 0),
    .command 0 (RedisDb.contextAt 6) (.set (ascii "b") (ascii "2"))] ++
  saveCalls.map .child ++ [.cron 8 dumpingServer none]

theorem lost_changes_le_dirty_saving :
    ∃ s newest file, PersistState.run savingConfig savingEvents
        (.boot [RedisDb.empty] ⟨[], fun _ => none⟩ 0) = .ok s ∧
      s.dirty = 1 ∧ s.changes = 2 ∧ s.disk.dumps = [file] ∧
      Dumped (fun save => save.hash = savingConfig.hash) newest file ∧ 1 ≤ newest.changes := by
  have heval : ((PersistState.run savingConfig savingEvents
      (.boot [RedisDb.empty] ⟨[], fun _ => none⟩ 0)).toOption.map fun s =>
        (s.dirty, s.changes, s.exited, s.disk.dumps.length)) = some (1, 2, false, 1) := by
    decide +kernel
  obtain ⟨s, hrun, hvalues⟩ := exists_ok_of_map heval
  obtain ⟨hdirty, hchanges, hexited, hdumps⟩ : s.dirty = 1 ∧ s.changes = 2 ∧
      s.exited = false ∧ s.disk.dumps.length = 1 := by
    simpa only [Prod.mk.injEq] using hvalues
  obtain ⟨newest, -, hdisk, -, hlost⟩ := lost_changes_le_dirty hrun (by omega) (.inl hexited)
  obtain ⟨hnil, -⟩ | ⟨file, rest, hfile, hdumped⟩ := hdisk
  · rw [hnil] at hdumps
    cases hdumps
  · rw [hfile, List.length_cons] at hdumps
    obtain rfl : rest = [] := List.length_eq_zero_iff.mp (by omega)
    exact ⟨s, newest, file, hrun, hdirty, hchanges, hfile, hdumped, by omega⟩

end Blogd
