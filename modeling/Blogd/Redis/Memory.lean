import Blogd.Redis.DirtyCount
import Mathlib.Algebra.Order.BigOperators.Group.List

/-! # What a run does to the memory

The events that a server goes through change its databases by commands and by flushes alone. Where
nothing is counted in `server.dirty`, nothing is gone but keys whose time lies in the past, since
these are deleted without being counted. What every command preserves, a whole run preserves.
-/

namespace Blogd

/-! ## Keyspaces that differ in keys whose time has passed -/

/-- Whether a time lies in the past, as the expire cycle sees it: -1 is a time like any other. -/
def elapsed (now : Nat) (when : Option Int) : Bool := when.any fun t => decide (t < (now : Int))

theorem elapsed_some {now : Nat} {t : Int} (h : t < now) : elapsed now (some t) = true :=
  decide_eq_true h

/-- What has elapsed has passed for a dump as well, unless it is the time -1. -/
theorem passed_of_elapsed {a b : Nat} (hab : a ≤ b) {when : Option Int}
    (helapsed : elapsed a when = true) (hwhen : when ≠ some (-1)) : passed b when = true := by
  cases when with
  | none => cases helapsed
  | some t =>
      have ht : t < a := of_decide_eq_true helapsed
      have hne : t ≠ -1 := fun h => hwhen (congrArg some h)
      exact decide_eq_true ⟨hne, by omega⟩

/-- What is left of a keyspace when only keys whose time has passed are gone. -/
def Kept (now : Nat) (db db' : Db) : Prop :=
  ∀ key, (db'.dict key = db.dict key ∧ db'.expires key = db.expires key) ∨
    (elapsed now (db.expires key) = true ∧ db'.dict key = none ∧ db'.expires key = none)

namespace Kept

variable {now : Nat} {db db' db'' : Db} {ctx : DbContext}

theorem refl (db : Db) : Kept now db db := fun _ => .inl ⟨rfl, rfl⟩

theorem trans (h : Kept now db db') (h' : Kept now db' db'') : Kept now db db'' := by
  intro key
  obtain ⟨hdict', hexpires'⟩ | ⟨helapsed', hdict', hexpires'⟩ := h' key
  · rw [hdict', hexpires']
    exact h key
  · obtain ⟨-, hexpires⟩ | ⟨helapsed, -, -⟩ := h key
    · rw [hexpires] at helapsed'
      exact .inr ⟨helapsed', hdict', hexpires'⟩
    · exact .inr ⟨helapsed, hdict', hexpires'⟩

theorem dbDelete {key : Bytes} (h : elapsed now (db.expires key) = true) :
    Kept now db (db.dbDelete key) := by
  intro k
  by_cases hk : k = key
  · subst hk
    exact .inr ⟨h, if_pos rfl, if_pos rfl⟩
  · exact .inl ⟨if_neg hk, if_neg hk⟩

theorem expire (hnow : ctx.mstime ≤ now) (db : Db) (key : Bytes) :
    Kept now db (db.expire ctx key) := by
  unfold Db.expire
  split
  next hexpired =>
    apply dbDelete
    have htime := hexpired.1
    unfold Db.expired at htime
    split at htime
    next => cases htime
    next deadline hdeadline =>
      obtain ⟨-, hlate⟩ := of_decide_eq_true (Bool.and_eq_true_iff.mp htime).2
      rw [hdeadline]
      exact elapsed_some (by omega)
  next => exact refl db

theorem draw (hnow : ctx.mstime ≤ now) (db : Db) (key : Bytes) :
    Kept now db (db.draw ctx key) := by
  unfold Db.draw
  split
  next => exact refl db
  next deadline hdeadline =>
    split
    next helapsed =>
      apply dbDelete
      rw [hdeadline]
      exact elapsed_some (by omega)
    next => exact refl db

theorem dbDelete_of_none {key : Bytes} (hdict : db.dict key = none)
    (hexpires : db.expires key = none) : Kept now db (db.dbDelete key) := by
  intro k
  left
  by_cases hk : k = key
  · subst hk
    exact ⟨(if_pos rfl).trans hdict.symm, (if_pos rfl).trans hexpires.symm⟩
  · exact ⟨if_neg hk, if_neg hk⟩

/-- A command that is not counted leaves the keyspace, but for keys whose time has passed. -/
theorem step {op : DbOp} (hbound : ∀ key, db.dict key = none → db.expires key = none)
    (hnow : ctx.mstime ≤ now) (hclean : dirtied op (db.step ctx op).1 = 0) :
    Kept now db (db.step ctx op).2 := by
  cases op with
  | set => cases hclean
  | get key => exact expire hnow db key
  | del key =>
      have hdict : (db.expire ctx key).dict key = none := by
        cases hkey : (db.expire ctx key).dict key with
        | none => rfl
        | some o => simp [Db.step, dirtied, hkey] at hclean
      have hexpires : (db.expire ctx key).expires key = none := by
        unfold Db.expire at hdict ⊢
        split at hdict
        next hexpired =>
          rw [if_pos hexpired]
          exact if_pos rfl
        next hexpired =>
          rw [if_neg hexpired]
          exact hbound key hdict
      exact (expire hnow db key).trans (dbDelete_of_none hdict hexpires)
  | expireAt key when =>
      have hfalse : (db.expireAt ctx key when).1 = false := by
        cases hflag : (db.expireAt ctx key when).1 with
        | false => rfl
        | true => simp [Db.step, dirtied, hflag] at hclean
      change Kept now db (db.expireAt ctx key when).2
      unfold Db.expireAt at hfalse ⊢
      split at hfalse
      next hnone =>
        rw [if_pos hnone]
        exact expire hnow db key
      next => split at hfalse <;> cases hfalse
  | expireDraw key => exact draw hnow db key
  | resize | rehash => exact refl db

/-- What is loaded at a later time does not show the difference. -/
theorem reloaded {save : SaveContext} {load : LoadContext} (h : Kept now db db')
    (htimed : ∀ key, db.expires key ≠ some (-1)) (hnow : now ≤ load.mstime)
    (hmaster : load.masterhost = none) : db'.reloaded save load = db.reloaded save load := by
  have hkey : ∀ key, (db'.reloaded save load).dict key = (db.reloaded save load).dict key ∧
      (db'.reloaded save load).expires key = (db.reloaded save load).expires key := by
    intro key
    unfold Db.reloaded
    dsimp only
    obtain ⟨hdict, hexpires⟩ | ⟨helapsed, hdict, hexpires⟩ := h key
    · rw [hdict, hexpires]
      exact ⟨rfl, rfl⟩
    · have hdropped : dropped save load (db.expires key) = true := by
        unfold dropped
        rw [hmaster, passed_of_elapsed hnow helapsed (htimed key)]
        exact Bool.or_true _
      rw [if_pos hdropped, if_pos hdropped, hdict, hexpires]
      split <;> exact ⟨rfl, rfl⟩
  unfold Db.reloaded at hkey ⊢
  congr 1
  · funext key
    exact (hkey key).1
  · funext key
    exact (hkey key).2

end Kept

section Forall₂

variable {α β : Type}

theorem forall₂_set {R : α → α → Prop} (hrefl : ∀ a, R a a) {l : List α} {j : Nat} {a b : α}
    (ha : l[j]? = some a) (h : R a b) : List.Forall₂ R l (l.set j b) := by
  induction l generalizing j with
  | nil => exact .nil
  | cons first rest ih =>
      cases j with
      | zero =>
          cases ha
          exact .cons h (List.forall₂_same.mpr fun a _ => hrefl a)
      | succ j => exact .cons (hrefl first) (ih ha)

theorem forall_right_of_forall₂ {R : α → β → Prop} {p : α → Prop} {q : β → Prop} {l : List α}
    {u : List β} (h : List.Forall₂ R l u) (hl : ∀ a ∈ l, p a) (hR : ∀ a b, p a → R a b → q b) :
    ∀ b ∈ u, q b := by
  induction h with
  | nil => exact fun _ hb => absurd hb List.not_mem_nil
  | @cons a b l u hab _ ih =>
      obtain ⟨ha, hl⟩ := List.forall_mem_cons.mp hl
      exact List.forall_mem_cons.mpr ⟨hR a b ha hab, ih hl⟩

end Forall₂

/-- Databases one by one. -/
def KeptAll (now : Nat) : List RedisDb → List RedisDb → Prop :=
  List.Forall₂ fun db db' => Kept now db.toDb db'.toDb

namespace KeptAll

variable {now : Nat} {dbs dbs' dbs'' : List RedisDb}

theorem refl (dbs : List RedisDb) : KeptAll now dbs dbs :=
  List.forall₂_same.mpr fun db _ => Kept.refl db.toDb

theorem trans (h : KeptAll now dbs dbs') (h' : KeptAll now dbs' dbs'') : KeptAll now dbs dbs'' := by
  induction h generalizing dbs'' with
  | nil => exact h'
  | cons hdb _ ih =>
      cases h' with
      | cons hdb' hrest => exact .cons (hdb.trans hdb') (ih hrest)

theorem set {j : Nat} {db db' : RedisDb} (hdb : dbs[j]? = some db)
    (h : Kept now db.toDb db'.toDb) : KeptAll now dbs (dbs.set j db') :=
  forall₂_set (fun db => Kept.refl db.toDb) hdb h

/-- What was loaded for the one list is what would be loaded for the other. -/
theorem reloaded {save : SaveContext} {load : LoadContext} {loaded : List RedisDb}
    (h : KeptAll now dbs dbs') (htimed : ∀ db ∈ dbs, ∀ key, db.toDb.expires key ≠ some (-1))
    (hnow : now ≤ load.mstime) (hmaster : load.masterhost = none)
    (hloaded : List.Forall₂ (Reloaded save load) dbs loaded) :
    List.Forall₂ (Reloaded save load) dbs' loaded := by
  induction h generalizing loaded with
  | nil => exact hloaded
  | cons hdb _ ih =>
      obtain ⟨hfirstTimed, htimed⟩ := List.forall_mem_cons.mp htimed
      cases hloaded with
      | cons hfirst hrest =>
          refine .cons ⟨hfirst.valid, ?_⟩ (ih htimed hrest)
          rw [hfirst.toDb, hdb.reloaded hfirstTimed hnow hmaster]

end KeptAll

/-! ## Events -/

/-- The clock of an event, the allocator and the settings of dumps it starts. -/
def PersistEvent.Timely (now : Nat) : PersistEvent → Prop
  | .command _ ctx _ => ctx.room ≤ 2 ^ 31 ∧ ctx.mstime ≤ now
  | .flushall save | .cron _ save _ | .bgsaveCommand _ save _ | .saveCommand save
  | .shutdown save _ _ => save.Fits ∧ save.mstime ≤ now
  | _ => True

instance (now : Nat) : (e : PersistEvent) → Decidable (e.Timely now)
  | .command _ ctx _ => inferInstanceAs (Decidable (ctx.room ≤ 2 ^ 31 ∧ ctx.mstime ≤ now))
  | .flushall save | .cron _ save _ | .bgsaveCommand _ save _ | .saveCommand save
  | .shutdown save _ _ => inferInstanceAs (Decidable (save.Fits ∧ save.mstime ≤ now))
  | .flushdb _ | .foreground _ _ | .child _ | .signal _ => inferInstanceAs (Decidable True)

/-- The settings of a dump by this server up to a time. -/
structure TimelySave (cfg : PersistConfig) (now : Nat) (save : SaveContext) : Prop where
  hashes : save.hash = cfg.hash
  fits : save.Fits
  mstime : save.mstime ≤ now

theorem PersistConfig.timelySave_saving (cfg : PersistConfig) {now : Nat} {save : SaveContext}
    (h : save.Fits ∧ save.mstime ≤ now) : TimelySave cfg now (cfg.saving save) :=
  ⟨rfl, ⟨h.1.time, h.1.usedMemory⟩, h.2⟩

theorem PersistEvent.Timely.saves (cfg : PersistConfig) {now : Nat} {e : PersistEvent}
    (h : e.Timely now) : e.Saves cfg (TimelySave cfg now) := by
  cases e with
  | flushall | cron | bgsaveCommand | saveCommand | shutdown => exact cfg.timelySave_saving h
  | command | flushdb | foreground | child | signal => trivial

/-- The databases are sound, and the server in `rdbSave` has no others. -/
structure Held (cfg : PersistConfig) (now dbnum : Nat) (s : PersistState) : Prop where
  dbs : ∀ db ∈ s.dbs, db.Valid cfg.hash
  count : s.dbs.length = dbnum
  foreground : ∀ p reason, s.foreground = some (p, reason) →
    p.dbs = s.dbs ∧ TimelySave cfg now p.save

variable {cfg : PersistConfig} {now dbnum : Nat} {s s' past : PersistState}

/-- The maps of a database on other tables. -/
def SameMaps (db db' : RedisDb) : Prop := db'.toDb = db.toDb

/-- What a process in `rdbSave` leaves in its memory. -/
theorem Saver.dbs_step (load : LoadContext) {p p' : Saver} {disk disk' : Disk} {e : SaveEvent}
    (hfits : p.save.Fits) (hlen : p.dbs.length < rdbLenErr)
    (hdbs : ∀ db ∈ p.dbs, db.Valid p.save.hash ∧ db.Storable)
    (hstep : p.step disk e = .ok (p', disk')) :
    p'.save = p.save ∧ List.Forall₂ (RedisDb.Same p.save.hash) p.dbs p'.dbs := by
  have hrefl : p.save = p.save ∧ List.Forall₂ (RedisDb.Same p.save.hash) p.dbs p.dbs :=
    ⟨rfl, List.forall₂_same.mpr fun db hdb => ⟨(hdbs db hdb).1, rfl, rfl⟩⟩
  cases e with
  | writeback =>
      cases hstep
      exact hrefl
  | call ok space =>
      simp only [Saver.step, Saver.call] at hstep
      split at hstep
      next => split at hstep <;> cases hstep <;> exact hrefl
      next =>
        obtain ⟨saved, hsaved, hstep⟩ := bind_eq_ok.mp hstep
        obtain ⟨dbs', body, -, hall, hrun⟩ := rdbSaveRio_spec load hfits hlen hdbs space
        rw [hrun] at hsaved
        split at hstep
        next =>
          cases hstep
          exact hrefl
        next dbs rdb =>
          cases hstep
          split at hsaved
          next =>
            cases hsaved
            exact ⟨rfl, hall.imp fun _ _ h => h.same⟩
          next => cases hsaved
      next => split at hstep <;> cases hstep <;> exact hrefl
      next => split at hstep <;> cases hstep <;> exact hrefl
      next =>
        split at hstep <;> cases hstep
        exact hrefl
      next => split at hstep <;> cases hstep <;> exact hrefl
      next =>
        cases hstep
        exact hrefl
      next =>
        cases hstep
        exact hrefl

namespace Held

theorem of_sameMemory (h : Held cfg now dbnum s) (hsame : PersistState.SameMemory s s') :
    Held cfg now dbnum s' := by
  refine ⟨?_, ?_, fun p reason hp => ?_⟩
  · rw [hsame.dbs]
    exact h.dbs
  · rw [hsame.dbs]
    exact h.count
  · rw [hsame.foreground] at hp
    rw [hsame.dbs]
    exact h.foreground p reason hp

/-- The server begins to save. -/
theorem startSave (h : Held cfg now dbnum s) {save : SaveContext}
    (hsave : save.Fits ∧ save.mstime ≤ now) (reason : SaveReason) :
    Held cfg now dbnum (s.startSave cfg save reason) := by
  refine ⟨h.dbs, h.count, fun p reason hp => ?_⟩
  cases hp
  exact ⟨rfl, cfg.timelySave_saving hsave⟩

theorem modify (h : Held cfg now dbnum s) (hbusy : s.busy = false) {dbs : List RedisDb}
    (hlen : dbs.length = s.dbs.length) (hdbs : ∀ db ∈ dbs, db.Valid cfg.hash) (n : Nat) :
    Held cfg now dbnum (s.modify dbs n) := by
  refine ⟨hdbs, hlen.trans h.count, fun p reason hp => ?_⟩
  rw [PersistState.modify, PersistState.foreground_of_busy hbusy] at hp
  cases hp

/-- A database that is replaced by one that is sound. -/
theorem modify_set (h : Held cfg now dbnum s) (hbusy : s.busy = false) {db : RedisDb}
    (hdb : db.Valid cfg.hash) (j n : Nat) : Held cfg now dbnum (s.modify (s.dbs.set j db) n) := by
  refine h.modify hbusy List.length_set (fun x hx => ?_) n
  obtain hx | rfl := List.mem_or_eq_of_mem_set hx
  · exact h.dbs x hx
  · exact hdb

theorem flushallCommand (h : Held cfg now dbnum s) (hbusy : s.busy = false) {save : SaveContext}
    (hsave : save.Fits ∧ save.mstime ≤ now) : Held cfg now dbnum (s.flushallCommand cfg save) := by
  have hmodified := h.modify hbusy (List.length_map RedisDb.flush) (fun db hdb => by
    obtain ⟨db, -, rfl⟩ := List.mem_map.mp hdb
    exact RedisDb.valid_empty cfg.hash) (s.dbs.map fun db => dictSize db.dict).sum
  have hflushed := hmodified.of_sameMemory (PersistState.sameMemory_killChild _)
  unfold PersistState.flushallCommand
  dsimp only
  split
  next =>
    exact hflushed.modify ((PersistState.busy_killChild _).trans hbusy) rfl hflushed.dbs 1
  next => exact hflushed.startSave hsave _

theorem prepareForShutdown (h : Held cfg now dbnum s) {save : SaveContext}
    (hsave : save.Fits ∧ save.mstime ≤ now) (forced nosave : Bool) :
    Held cfg now dbnum (s.prepareForShutdown cfg save forced nosave) := by
  have hkilled := h.of_sameMemory (PersistState.sameMemory_killChild s)
  unfold PersistState.prepareForShutdown
  dsimp only
  split
  next => exact hkilled.startSave hsave _
  next => exact ⟨hkilled.dbs, hkilled.count, hkilled.foreground⟩

end Held

theorem PersistState.dbs_endSave (s : PersistState) (time : Int) (ok : Bool)
    (reason : SaveReason) : (s.endSave time ok reason).dbs = s.dbs := by
  cases reason <;> cases ok <;> rfl

theorem PersistState.foreground_endSave (s : PersistState) (time : Int) (ok : Bool)
    (reason : SaveReason) : (s.endSave time ok reason).foreground = none := by
  cases reason <;> cases ok <;> rfl

/-- A step of the server in `rdbSave`. -/
theorem Held.stepForeground (load : LoadContext) (hdbnum : dbnum < rdbLenErr)
    (h : Held cfg now dbnum s)
    (hstorable : ∀ db ∈ s.dbs, db.Storable) {p : Saver} {reason : SaveReason} {time : Int}
    {e : SaveEvent} (hp : s.foreground = some (p, reason))
    (hstep : s.stepForeground p reason time e = .ok s') :
    Held cfg now dbnum s' ∧ List.Forall₂ SameMaps s.dbs s'.dbs := by
  obtain ⟨hdbs, hsave⟩ := h.foreground p reason hp
  obtain ⟨⟨p', disk⟩, hmove, hstep⟩ := bind_eq_ok.mp hstep
  obtain ⟨hsaving, hsame⟩ : p'.save = p.save ∧
      List.Forall₂ (RedisDb.Same cfg.hash) s.dbs p'.dbs := by
    rw [← hsave.hashes, ← hdbs]
    apply Saver.dbs_step load hsave.fits _ _ hmove
    · rw [hdbs, h.count]
      exact hdbnum
    · rw [hdbs, hsave.hashes]
      exact fun db hdb => ⟨h.dbs db hdb, hstorable db hdb⟩
  have hmaps : List.Forall₂ SameMaps s.dbs p'.dbs := hsame.imp fun _ _ hdb => hdb.toDb
  have hvalid : ∀ db ∈ p'.dbs, db.Valid cfg.hash :=
    ((List.forall₂_and_left _ _).mp (hsame.flip.imp fun _ _ hdb => ⟨hdb.valid, hdb⟩)).1
  have hcount : p'.dbs.length = dbnum := hsame.length_eq.symm.trans h.count
  dsimp only at hstep
  split at hstep
  next ok _ =>
    cases hstep
    have hend := PersistState.dbs_endSave { s with dbs := p'.dbs, disk := disk } time ok reason
    refine ⟨⟨?_, ?_, fun q r hq => ?_⟩, ?_⟩
    · rw [hend]
      exact hvalid
    · rw [hend]
      exact hcount
    · rw [PersistState.foreground_endSave] at hq
      cases hq
    · rw [hend]
      exact hmaps
  next =>
    cases hstep
    refine ⟨⟨hvalid, hcount, fun q r hq => ?_⟩, hmaps⟩
    cases hq
    exact ⟨rfl, hsaving ▸ hsave⟩

theorem PersistState.dbs_flushallCommand (s : PersistState) (save : SaveContext) :
    (s.flushallCommand cfg save).dbs = s.dbs.map RedisDb.flush := by
  have hkilled := (sameMemory_killChild (s.modify (s.dbs.map RedisDb.flush)
    (s.dbs.map fun db => dictSize db.dict).sum)).dbs
  unfold flushallCommand
  dsimp only
  split <;> exact hkilled

theorem PersistState.dbs_prepareForShutdown (s : PersistState) (save : SaveContext)
    (forced nosave : Bool) : (s.prepareForShutdown cfg save forced nosave).dbs = s.dbs := by
  unfold prepareForShutdown
  dsimp only
  split <;> exact (sameMemory_killChild s).dbs

/-- What an event does to the memory. What a flush removes is counted. -/
inductive MemoryStep (s : PersistState) : PersistEvent → PersistState → Prop
  | same {e : PersistEvent} {s' : PersistState} (hdbs : List.Forall₂ SameMaps s.dbs s'.dbs)
      (hcount : s.changes ≤ s'.changes) : MemoryStep s e s'
  | command {j : Nat} {ctx : DbContext} {op : DbOp} {db db' : RedisDb} {s' : PersistState}
      (hdb : s.dbs[j]? = some db) (hdbs : s'.dbs = s.dbs.set j db')
      (htoDb : db'.toDb = (db.toDb.step ctx op).2)
      (hcount : s'.changes = s.changes + dirtied op (db.toDb.step ctx op).1) :
      MemoryStep s (.command j ctx op) s'
  | flush {e : PersistEvent} {s' : PersistState}
      (hdbs : List.Forall₂ (fun db db' => db' = db ∨
        db' = db.flush ∧ s.changes + dictSize db.dict ≤ s'.changes) s.dbs s'.dbs)
      (hcount : s.changes ≤ s'.changes) : MemoryStep s e s'

theorem MemoryStep.of_dbs_eq {e : PersistEvent} (hdbs : s'.dbs = s.dbs)
    (hcount : s.changes ≤ s'.changes) : MemoryStep s e s' :=
  .same (hdbs ▸ List.forall₂_same.mpr fun _ _ => rfl) hcount

/-- One event. -/
theorem Held.step (load : LoadContext) (hdbnum : dbnum < rdbLenErr) (h : Held cfg now dbnum s)
    (hstorable : ∀ db ∈ s.dbs, db.Storable) {e : PersistEvent} (htimely : e.Timely now)
    (hstep : s.step cfg e = .ok s') : Held cfg now dbnum s' ∧ MemoryStep s e s' := by
  have hcount := PersistState.changes_step hstep
  have hidle : PersistState.SameMemory s s' → Held cfg now dbnum s' ∧ MemoryStep s e s' :=
    fun hsame => ⟨h.of_sameMemory hsame, .of_dbs_eq hsame.dbs hcount⟩
  cases PersistState.steps_of_step hstep with
  | idle => exact hidle ⟨rfl, rfl, rfl⟩
  | @command j ctx op db db' reply hbusy hdb hop =>
      have hvalid := h.dbs db (List.mem_of_getElem? hdb)
      obtain ⟨hvalid', hreply, htoDb⟩ := (RedisDb.step_spec htimely.1 hvalid op).of_ok hop
      refine ⟨h.modify_set hbusy hvalid' j _, .command hdb rfl htoDb ?_⟩
      rw [← hreply]
      rfl
  | @flushdb j db hbusy hdb =>
      refine ⟨h.modify_set hbusy (RedisDb.valid_empty cfg.hash) j _, .flush ?_ hcount⟩
      exact forall₂_set (fun _ => .inl rfl) hdb (.inr ⟨rfl, le_refl _⟩)
  | @flushall save hbusy =>
      refine ⟨h.flushallCommand hbusy htimely, .flush ?_ hcount⟩
      rw [PersistState.dbs_flushallCommand, List.forall₂_map_right_iff, List.forall₂_same]
      intro db hdb
      have hsize : dictSize db.dict ≤ (s.dbs.map fun db => dictSize db.dict).sum :=
        List.le_sum_of_mem (List.mem_map_of_mem hdb)
      have hcounted := @PersistState.changes_flushallCommand cfg s save
      exact .inr ⟨rfl, by omega⟩
  | done => exact hidle (PersistState.sameMemory_backgroundSaveDoneHandler s _ _)
  | fork => exact hidle (PersistState.sameMemory_rdbSaveBackground s _ _ _)
  | save => exact ⟨h.startSave htimely _, .of_dbs_eq rfl hcount⟩
  | shutdown =>
      exact ⟨h.prepareForShutdown htimely _ _,
        .of_dbs_eq (PersistState.dbs_prepareForShutdown s _ _ _) hcount⟩
  | foreground hp hstep =>
      obtain ⟨hheld, hmaps⟩ := h.stepForeground load hdbnum hstorable hp hstep
      exact ⟨hheld, .same hmaps hcount⟩
  | child => exact hidle (PersistState.sameMemory_stepChild s _ _)
  | signal => exact hidle ⟨rfl, rfl, rfl⟩

/-! ## What nothing was counted for -/

/-- What the memory has become: where nothing was counted, nothing is gone but keys whose time has
passed. -/
structure Since (now : Nat) (past s : PersistState) : Prop where
  count : past.changes ≤ s.changes
  kept : past.changes = s.changes → KeptAll now past.dbs s.dbs

theorem Since.refl (s : PersistState) : Since now s s := ⟨le_refl _, fun _ => KeptAll.refl s.dbs⟩

theorem Since.trans (h : Since now past s) (h' : Since now s s') : Since now past s' := by
  refine ⟨h.count.trans h'.count, fun hcount => ?_⟩
  have hfirst := h.count
  have hsecond := h'.count
  exact (h.kept (by omega)).trans (h'.kept (by omega))

theorem RedisDb.Valid.kept_flush {hash : Bytes → UInt32} {db : RedisDb} (hdb : db.Valid hash)
    (hsize : dictSize db.dict = 0) : Kept now db.toDb db.flush.toDb := by
  have hnil : db.dict.entries = [] := List.length_eq_zero_iff.mp (hdb.dict.dictSize_eq ▸ hsize)
  intro key
  have hdict : db.toDb.dict key = none := by
    change db.dict.contents.lookup key = none
    rw [Dict.contents_lookup, hnil]
    rfl
  exact .inl ⟨hdict.symm, (hdb.expires_eq_none hdict).symm⟩

theorem MemoryStep.since {e : PersistEvent} (hmove : MemoryStep s e s')
    (h : Held cfg now dbnum s) (htimely : e.Timely now) : Since now s s' := by
  cases hmove with
  | same hdbs hcount =>
      refine ⟨hcount, fun _ => hdbs.imp fun db db' hmaps => ?_⟩
      have htoDb : db'.toDb = db.toDb := hmaps
      rw [htoDb]
      exact Kept.refl _
  | @command j ctx op db db' _ hdb hdbs htoDb hcount =>
      have hvalid := h.dbs db (List.mem_of_getElem? hdb)
      refine ⟨by omega, fun hchanges => ?_⟩
      rw [hdbs]
      apply KeptAll.set hdb
      rw [htoDb]
      exact Kept.step (fun key => hvalid.expires_eq_none) htimely.2 (by omega)
  | flush hdbs hcount =>
      refine ⟨hcount, fun hchanges => ?_⟩
      apply ((List.forall₂_and_left _ _).mpr ⟨h.dbs, hdbs⟩).imp
      rintro db _ ⟨hvalid, rfl | ⟨rfl, hcounted⟩⟩
      · exact Kept.refl _
      · exact hvalid.kept_flush (by omega)

/-! ## Runs -/

theorem Passes.append_left {done : List PersistEvent} (h : Passes cfg done s past)
    (rest : List PersistEvent) : Passes cfg (done ++ rest) s past := by
  obtain ⟨before, after, rfl, hrun⟩ := h
  exact ⟨before, after ++ rest, List.append_assoc before after rest, hrun⟩

theorem Passes.append_right {done rest : List PersistEvent} {mid : PersistState}
    (hdone : PersistState.run cfg done s = .ok mid) (h : Passes cfg rest mid past) :
    Passes cfg (done ++ rest) s past := by
  obtain ⟨before, after, rfl, hrun⟩ := h
  refine ⟨done ++ before, after, (List.append_assoc done before after).symm, ?_⟩
  rw [PersistState.run_append, hdone]
  exact hrun

theorem Passes.eq_of_nil (h : Passes cfg [] s past) : past = s := by
  obtain ⟨done, rest, hsplit, hrun⟩ := h
  obtain ⟨rfl, -⟩ := List.append_eq_nil_iff.mp hsplit.symm
  cases hrun
  rfl

theorem Passes.cases_cons {e : PersistEvent} {es : List PersistEvent}
    (h : Passes cfg (e :: es) s past) :
    past = s ∨ ∃ s₁, s.step cfg e = .ok s₁ ∧ Passes cfg es s₁ past := by
  obtain ⟨done, rest, hsplit, hrun⟩ := h
  cases done with
  | nil =>
      cases hrun
      exact .inl rfl
  | cons first done =>
      obtain ⟨rfl, rfl⟩ := List.cons.inj hsplit
      obtain ⟨s₁, hstep, hrest⟩ := bind_eq_ok.mp hrun
      exact .inr ⟨s₁, hstep, done, rest, rfl, hrest⟩

theorem Held.run (load : LoadContext) (hdbnum : dbnum < rdbLenErr) (h : Held cfg now dbnum s)
    {es : List PersistEvent} (htimely : ∀ e ∈ es, e.Timely now)
    (hstorable : ∀ past, Passes cfg es s past → ∀ db ∈ past.dbs, db.Storable)
    (hrun : PersistState.run cfg es s = .ok s') : Held cfg now dbnum s' ∧ Since now s s' := by
  induction es generalizing s with
  | nil =>
      cases hrun
      exact ⟨h, Since.refl _⟩
  | cons e es ih =>
      obtain ⟨s₁, hstep, hrest⟩ := bind_eq_ok.mp hrun
      obtain ⟨he, htimely⟩ := List.forall_mem_cons.mp htimely
      obtain ⟨h₁, hmove⟩ := h.step load hdbnum (hstorable s (Passes.refl _ s)) he hstep
      obtain ⟨h', hsince⟩ :=
        ih h₁ htimely (fun past hp => hstorable past (hp.cons hstep)) hrest
      exact ⟨h', (hmove.since h he).trans hsince⟩

/-! ## Invariants of the databases -/

/-- What every command preserves, up to what it adds to the count, and an empty keyspace has. -/
structure MemoryInvariant (brings : DbContext → DbOp → Prop) (P : Nat → Db → Prop) : Prop where
  mono : ∀ {m n db}, m ≤ n → P m db → P n db
  step : ∀ {n ctx op db}, brings ctx op → P n db →
    P (n + dirtied op (db.step ctx op).1) (db.step ctx op).2
  empty : ∀ n, P n Db.empty

/-- The command of an event. -/
def PersistEvent.Brings (brings : DbContext → DbOp → Prop) : PersistEvent → Prop
  | .command _ ctx op => brings ctx op
  | _ => True

instance (brings : DbContext → DbOp → Prop) [∀ ctx op, Decidable (brings ctx op)] :
    (e : PersistEvent) → Decidable (e.Brings brings)
  | .command _ ctx op => inferInstanceAs (Decidable (brings ctx op))
  | .flushdb _ | .flushall _ | .cron _ _ _ | .bgsaveCommand _ _ _ | .saveCommand _
  | .shutdown _ _ _ | .foreground _ _ | .child _ | .signal _ => inferInstanceAs (Decidable True)

theorem PersistEvent.Brings.imp {brings brings' : DbContext → DbOp → Prop} {e : PersistEvent}
    (he : e.Brings brings) (h : ∀ ctx op, brings ctx op → brings' ctx op) : e.Brings brings' := by
  cases e with
  | command j ctx op => exact h ctx op he
  | flushdb | flushall | cron | bgsaveCommand | saveCommand | shutdown | foreground | child
  | signal => trivial

namespace MemoryInvariant

variable {brings : DbContext → DbOp → Prop} {P : Nat → Db → Prop}

theorem and {Q : Nat → Db → Prop} (hP : MemoryInvariant brings P) (hQ : MemoryInvariant brings Q) :
    MemoryInvariant brings fun n db => P n db ∧ Q n db where
  mono hmn h := ⟨hP.mono hmn h.1, hQ.mono hmn h.2⟩
  step hop h := ⟨hP.step hop h.1, hQ.step hop h.2⟩
  empty n := ⟨hP.empty n, hQ.empty n⟩

theorem of_memoryStep (hP : MemoryInvariant brings P) {e : PersistEvent}
    (hmove : MemoryStep s e s') (he : e.Brings brings) (hs : ∀ db ∈ s.dbs, P s.changes db.toDb) :
    ∀ db ∈ s'.dbs, P s'.changes db.toDb := by
  cases hmove with
  | same hdbs hcount =>
      refine forall_right_of_forall₂ hdbs hs ?_
      intro db db' hdb hmaps
      have htoDb : db'.toDb = db.toDb := hmaps
      rw [htoDb]
      exact hP.mono hcount hdb
  | @command j ctx op db db' _ hdb hdbs htoDb hcount =>
      rw [hdbs, hcount]
      intro x hx
      obtain hx | rfl := List.mem_or_eq_of_mem_set hx
      · exact hP.mono (Nat.le_add_right _ _) (hs x hx)
      · rw [htoDb]
        exact hP.step he (hs db (List.mem_of_getElem? hdb))
  | flush hdbs hcount =>
      refine forall_right_of_forall₂ hdbs hs ?_
      rintro db _ hdb (rfl | ⟨rfl, -⟩)
      · exact hP.mono hcount hdb
      · exact hP.empty _

/-- What holds at the start of a run holds in all its states. The databases have to be such that
they can be dumped, which may follow from the invariant. -/
theorem run (hP : MemoryInvariant brings P) (load : LoadContext) (hdbnum : dbnum < rdbLenErr)
    (h : Held cfg now dbnum s) {es : List PersistEvent} (htimely : ∀ e ∈ es, e.Timely now)
    (hes : ∀ e ∈ es, e.Brings brings)
    (hstorable : ∀ past, Passes cfg es s past → (∀ db ∈ past.dbs, db.Valid cfg.hash) →
      (∀ db ∈ past.dbs, P past.changes db.toDb) → ∀ db ∈ past.dbs, db.Storable)
    (hs : ∀ db ∈ s.dbs, P s.changes db.toDb) (hpast : Passes cfg es s past) :
    (∀ db ∈ past.dbs, db.Valid cfg.hash) ∧ ∀ db ∈ past.dbs, P past.changes db.toDb := by
  induction es generalizing s with
  | nil =>
      obtain rfl := hpast.eq_of_nil
      exact ⟨h.dbs, hs⟩
  | cons e es ih =>
      obtain rfl | ⟨s₁, hstep, hpast⟩ := hpast.cases_cons
      · exact ⟨h.dbs, hs⟩
      · obtain ⟨he, htimely⟩ := List.forall_mem_cons.mp htimely
        obtain ⟨hbrings, hes⟩ := List.forall_mem_cons.mp hes
        obtain ⟨h₁, hmove⟩ := h.step load hdbnum
          (hstorable s (Passes.refl _ s) h.dbs hs) he hstep
        exact ih h₁ htimely hes (fun past hp => hstorable past (hp.cons hstep))
          (hP.of_memoryStep hmove hbrings hs) hpast

end MemoryInvariant

end Blogd
