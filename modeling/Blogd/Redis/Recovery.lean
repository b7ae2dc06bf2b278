import Blogd.Redis.Capacity

/-! # Starting again from the disk

What a server that starts finds in the dump: the memory of a state that the one before it was in,
and its last memory when `server.dirty` was 0. A key whose time has passed makes no difference,
since it is deleted without being counted and is not loaded either. The time -1 is another matter:
a dump takes it for none, and the expire cycle for one that has passed.
-/

namespace Blogd

variable {cfg : PersistConfig} {now dbnum : Nat} {s s' past : PersistState}

/-- A run that a server makes, up to a time, with databases that the format has room for. -/
structure Lifetime (cfg : PersistConfig) (now : Nat) (start : PersistState)
    (es : List PersistEvent) (s : PersistState) : Prop where
  dbs : ∀ db ∈ start.dbs, db.Valid cfg.hash
  dbnum : start.dbs.length < rdbLenErr
  idle : start.foreground = none
  timely : ∀ e ∈ es, e.Timely now
  storable : ∀ past, Passes cfg es start past → ∀ db ∈ past.dbs, db.Storable
  changes : s.changes < 2 ^ 31
  run : PersistState.run cfg es start = .ok s

namespace Lifetime

variable {start : PersistState} {es : List PersistEvent}

theorem held_start (h : Lifetime cfg now start es s) :
    Held cfg now start.dbs.length start := by
  refine ⟨h.dbs, rfl, fun p reason hp => ?_⟩
  cases h.idle.symm.trans hp

/-- A state of the run is sound, and the end of the run is related to it. -/
theorem passes (load : LoadContext) (h : Lifetime cfg now start es s)
    (hpast : Passes cfg es start past) :
    Held cfg now start.dbs.length past ∧ Since now past s := by
  obtain ⟨done, rest, rfl, hdone⟩ := hpast
  have hheld := (h.held_start.run load h.dbnum
    (fun e he => h.timely e (List.mem_append_left rest he))
    (fun past hp => h.storable past (hp.append_left rest)) hdone).1
  have hrest : PersistState.run cfg rest past = .ok s := by
    have hrun := h.run
    rw [PersistState.run_append, hdone] at hrun
    exact hrun
  exact ⟨hheld, (hheld.run load h.dbnum (fun e he => h.timely e (List.mem_append_right done he))
    (fun later hp => h.storable later (Passes.append_right hdone hp)) hrest).2⟩

/-- A dump of a state that the run goes through is loaded as that state. -/
theorem loads {load : LoadContext} (h : Lifetime cfg now start es s) (hroom : load.room ≤ 2 ^ 31)
    (hpast : Passes cfg es start past) {save : SaveContext} (hsave : TimelySave cfg now save)
    {text : Bytes} (htext : IsDump save past.dbs text) (more : Nat) :
    Ensures outOfMemory
      (fun outcome => ∃ loaded,
        outcome = .loaded (loaded ++ List.replicate more RedisDb.empty) ∧
          List.Forall₂ (Reloaded save load) past.dbs loaded)
      (rdbLoad load (List.replicate (start.dbs.length + more) RedisDb.empty) text) := by
  have hheld := (h.passes load hpast).1
  have hvalid : ∀ db ∈ past.dbs, db.Valid save.hash := by
    rw [hsave.hashes]
    exact hheld.dbs
  have hlen : past.dbs.length < rdbLenErr := lt_of_eq_of_lt hheld.count h.dbnum
  obtain ⟨space, dbs', rdb, hrun, rfl⟩ := htext
  obtain ⟨dbs'', body, hbody, -, hspec⟩ := rdbSaveRio_spec load hsave.fits hlen
    (fun db hdb => ⟨hvalid db hdb, h.storable past hpast db hdb⟩) space
  rw [hspec] at hrun
  split at hrun
  next =>
    cases hrun
    rw [written_openFile_write, ← hheld.count]
    exact rdbLoad_dumpFile_reloads hroom hvalid hbody more
  next => cases hrun

/-- What commands preserve holds in all states. -/
theorem invariant (load : LoadContext) (h : Lifetime cfg now start es s)
    {brings : DbContext → DbOp → Prop} {P : Nat → Db → Prop} (hP : MemoryInvariant brings P)
    (hes : ∀ e ∈ es, e.Brings brings) (hstart : ∀ db ∈ start.dbs, P start.changes db.toDb)
    (hpast : Passes cfg es start past) : ∀ db ∈ past.dbs, P past.changes db.toDb :=
  (hP.run load h.dbnum h.held_start h.timely hes (fun past hp _ _ => h.storable past hp) hstart
    hpast).2

/-- Databases that can be dumped at the start can be dumped all along, if commands store nothing
too large, and there is room for as many keys as there are changes. -/
theorem of_start (load : LoadContext) {limit : Nat}
    (hdbs : ∀ db ∈ start.dbs, db.Valid cfg.hash ∧ db.Storable)
    (hlimit : ∀ db ∈ start.dbs, dictSize db.dict ≤ limit)
    (hsmall : limit + s.changes < rdbLenErr) (hdbnum : start.dbs.length < rdbLenErr)
    (hidle : start.foreground = none) (htimely : ∀ e ∈ es, e.Timely now)
    (hes : ∀ e ∈ es, e.Brings fun _ op => op.Storable) (hchanges : s.changes < 2 ^ 31)
    (hrun : PersistState.run cfg es start = .ok s) : Lifetime cfg now start es s := by
  have hP := (memoryInvariant_within StorableEntry (· < 2 ^ 63)).and
    (memoryInvariant_keysLe _ limit)
  have hheld : Held cfg now start.dbs.length start := by
    refine ⟨fun db hdb => (hdbs db hdb).1, rfl, fun p reason hp => ?_⟩
    cases hidle.symm.trans hp
  have hstart : ∀ db ∈ start.dbs, db.toDb.Within StorableEntry (· < 2 ^ 63) ∧
      db.toDb.KeysLe (limit + start.changes) := by
    intro db hdb
    obtain ⟨hvalid, hstorable⟩ := hdbs db hdb
    have hkeys := hlimit db hdb
    exact ⟨(hvalid.storable_iff.mp hstorable).1, (hvalid.keysLe_iff _).mpr (by omega)⟩
  have hstorable : ∀ past, Passes cfg es start past → (∀ db ∈ past.dbs, db.Valid cfg.hash) →
      (∀ db ∈ past.dbs, db.toDb.Within StorableEntry (· < 2 ^ 63) ∧
        db.toDb.KeysLe (limit + past.changes)) → ∀ db ∈ past.dbs, db.Storable := by
    intro past hpast hvalid hinv db hdb
    obtain ⟨hwithin, hkeys⟩ := hinv db hdb
    have hcount := hpast.changes_le hrun
    have hsize := ((hvalid db hdb).keysLe_iff _).mp hkeys
    exact (hvalid db hdb).storable_iff.mpr ⟨hwithin, by omega⟩
  refine ⟨fun db hdb => (hdbs db hdb).1, hdbnum, hidle, htimely, fun past hpast => ?_, hchanges,
    hrun⟩
  obtain ⟨hvalid, hinv⟩ := hP.run load hdbnum hheld htimely
    (fun e he => (hes e he).imp fun ctx _ hop => hop.stores ctx) hstorable hstart hpast
  exact hstorable past hpast hvalid hinv

end Lifetime

/-- Two keys, of which one is gone when it is read behind the dump. -/
def keepingEvents : List PersistEvent :=
  [.command 0 (RedisDb.contextAt 5) (.set (ascii "a") (ascii "1")),
    .command 0 (RedisDb.contextAt 5) (.set (ascii "soon") (ascii "2")),
    .command 0 (RedisDb.contextAt 5) (.expireAt (ascii "soon") 30),
    .bgsaveCommand 7 dumpingServer (some 0)] ++
  saveCalls.map .child ++
  [.cron 8 dumpingServer none, .command 0 (RedisDb.contextAt 35) (.get (ascii "soon"))]

theorem keeping_lifetime :
    ∃ s, Lifetime savingConfig 35 (.boot [RedisDb.empty] ⟨[], fun _ => none⟩ 0) keepingEvents s ∧
      s.dirty = 0 ∧ s.exited = false ∧ s.disk.dumps.length = 1 := by
  have heval : ((PersistState.run savingConfig keepingEvents
      (.boot [RedisDb.empty] ⟨[], fun _ => none⟩ 0)).toOption.map fun s =>
        (s.dirty, s.changes, s.exited, s.disk.dumps.length)) = some (0, 3, false, 1) := by
    decide +kernel
  obtain ⟨s, hrun, hvalues⟩ := exists_ok_of_map heval
  obtain ⟨hdirty, hchanges, hexited, hdumps⟩ : s.dirty = 0 ∧ s.changes = 3 ∧
      s.exited = false ∧ s.disk.dumps.length = 1 := by
    simpa only [Prod.mk.injEq] using hvalues
  have hempty : ∀ db ∈ [RedisDb.empty], db.Valid savingConfig.hash ∧ db.Storable :=
    List.forall_mem_singleton.mpr ⟨RedisDb.valid_empty _, by decide⟩
  have hlife := @Lifetime.of_start _ 35 s _ keepingEvents loadingServer 0 hempty (by decide)
    (by rw [hchanges]; decide) (by decide) rfl (by decide +kernel) (by decide +kernel) (by omega)
    hrun
  exact ⟨s, hlife, hdirty, hexited, hdumps⟩

/-- The power fails at any moment, or a process is killed. Whatever file the name of the dump then
stands for, it is one from before the start or a whole dump: a server that starts from what is left
of it has the memory that the one before had at some moment, but for keys whose time has passed. -/
theorem dump_survives_power_failure {load : LoadContext} {dbs : List RedisDb} {disk : Disk}
    {boot : Int} {es : List PersistEvent}
    (h : Lifetime cfg now (.boot dbs disk boot) es s) (hroom : load.room ≤ 2 ^ 31) (more : Nat) :
    ∀ file ∈ s.disk.dumps, file ∈ disk.dumps ∨
      ∃ past save, Passes cfg es (.boot dbs disk boot) past ∧ TimelySave cfg now save ∧
        Ensures outOfMemory
          (fun outcome => ∃ loaded,
            outcome = .loaded (loaded ++ List.replicate more RedisDb.empty) ∧
              List.Forall₂ (Reloaded save load) past.dbs loaded)
          (rdbLoad load (List.replicate (dbs.length + more) RedisDb.empty) file.durable) := by
  obtain ⟨newest, forked, haccounts⟩ :=
    accounts_run h.run h.changes fun e he => (h.timely e he).saves cfg
  intro file hfile
  obtain hold | ⟨past, hpast, save, hsave, htext, hdurable⟩ := haccounts.dumps file hfile
  · exact .inl hold
  · refine .inr ⟨past, save, hpast, hsave, ?_⟩
    rw [hdurable]
    exact h.loads hroom hpast hsave htext more

theorem dump_survives_power_failure_keeping :
    ∃ s file past save, PersistState.run savingConfig keepingEvents
        (.boot [RedisDb.empty] ⟨[], fun _ => none⟩ 0) = .ok s ∧ s.disk.dumps = [file] ∧
      Passes savingConfig keepingEvents (.boot [RedisDb.empty] ⟨[], fun _ => none⟩ 0) past ∧
      Ensures outOfMemory
        (fun outcome => ∃ loaded, outcome = .loaded (loaded ++ [RedisDb.empty]) ∧
          List.Forall₂ (Reloaded save loadingServer) past.dbs loaded)
        (rdbLoad loadingServer [RedisDb.empty, RedisDb.empty] file.durable) := by
  obtain ⟨s, hlife, -, -, hdumps⟩ := keeping_lifetime
  obtain ⟨file, hfile⟩ := List.length_eq_one_iff.mp hdumps
  obtain hold | ⟨past, save, hpast, -, hload⟩ := @dump_survives_power_failure _ _ _ loadingServer
    _ _ _ _ hlife (by decide) 1 file (hfile ▸ List.mem_singleton_self file)
  · cases hold
  · exact ⟨s, file, past, save, hlife.run, hfile, hpast, hload⟩

/-- When nothing is counted in `server.dirty`, a master that starts again at a later time has the
memory of the one that ended, but for keys whose time has passed: either no dump was made since the
start, and then the memory is still what it was, or the newest dump is loaded as a dump of the last
memory would be. No key may have the time -1, which no master stores. -/
theorem restart_loses_nothing {load : LoadContext} {dbs : List RedisDb} {disk : Disk} {boot : Int}
    {es : List PersistEvent} (h : Lifetime cfg now (.boot dbs disk boot) es s)
    (hroom : load.room ≤ 2 ^ 31) (hnow : now ≤ load.mstime) (hmaster : load.masterhost = none)
    (htimes : ∀ e ∈ es, e.Brings DbOp.Timed)
    (hstart : ∀ db ∈ dbs, ∀ key, db.toDb.expires key ≠ some (-1))
    (hlast : s.exited = false ∨ s.child = none) (hdirty : s.dirty = 0) (more : Nat) :
    (s.disk.dumps = disk.dumps ∧ KeptAll now dbs s.dbs) ∨
      ∃ file rest save, s.disk.dumps = file :: rest ∧ TimelySave cfg now save ∧
        Ensures outOfMemory
          (fun outcome => ∃ loaded,
            outcome = .loaded (loaded ++ List.replicate more RedisDb.empty) ∧
              List.Forall₂ (Reloaded save load) s.dbs loaded)
          (rdbLoad load (List.replicate (dbs.length + more) RedisDb.empty) file.cached) := by
  obtain ⟨newest, forked, haccounts⟩ :=
    accounts_run h.run h.changes fun e he => (h.timely e he).saves cfg
  have hlost := haccounts.lost hlast
  have hcount := haccounts.count
  have hkept : KeptAll now newest.dbs s.dbs :=
    (h.passes load haccounts.past).2.kept (by omega)
  have htimed : ∀ db ∈ newest.dbs, ∀ key, db.toDb.expires key ≠ some (-1) := by
    have hwithin := h.invariant load (memoryInvariant_within (fun _ _ => True) (· ≠ -1)) htimes
      (fun db hdb => ⟨fun _ _ _ => trivial, fun key t ht heq => hstart db hdb key (heq ▸ ht)⟩)
      haccounts.past
    exact fun db hdb key hkey => (hwithin db hdb).expires key (-1) hkey rfl
  obtain ⟨hdumps, rfl⟩ | ⟨file, rest, hdumps, save, hsave, htext, -⟩ := haccounts.onDisk
  · exact .inl ⟨hdumps, hkept⟩
  · refine .inr ⟨file, rest, save, hdumps, hsave, ?_⟩
    apply (h.loads hroom haccounts.past hsave htext more).mono
    rintro _ ⟨loaded, rfl, hloaded⟩
    refine ⟨loaded, rfl, ?_⟩
    exact hkept.reloaded htimed hnow hmaster hloaded

theorem restart_loses_nothing_keeping :
    ∃ s file save, PersistState.run savingConfig keepingEvents
        (.boot [RedisDb.empty] ⟨[], fun _ => none⟩ 0) = .ok s ∧ s.disk.dumps = [file] ∧
      Ensures outOfMemory
        (fun outcome => ∃ loaded, outcome = .loaded (loaded ++ [RedisDb.empty]) ∧
          List.Forall₂ (Reloaded save loadingServer) s.dbs loaded)
        (rdbLoad loadingServer [RedisDb.empty, RedisDb.empty] file.cached) := by
  obtain ⟨s, hlife, hdirty, hexited, hdumps⟩ := keeping_lifetime
  have hmasters : ∀ e ∈ keepingEvents, e.Brings fun ctx _ =>
      ctx.loading = false ∧ ctx.masterhost = none := by
    decide +kernel
  have htimes : ∀ e ∈ keepingEvents, e.Brings DbOp.Timed := fun e he =>
    (hmasters e he).imp fun _ op hmaster => op.timed_of_master hmaster.1 hmaster.2
  have hstart : ∀ db ∈ [RedisDb.empty], ∀ key, db.toDb.expires key ≠ some (-1) :=
    List.forall_mem_singleton.mpr fun _ h => by cases h
  obtain ⟨hnil, -⟩ | ⟨file, rest, save, hfile, -, hload⟩ := @restart_loses_nothing _ _ _
    loadingServer _ _ _ _ hlife (by decide) (by decide) rfl htimes hstart (.inl hexited) hdirty 1
  · rw [hnil] at hdumps
    cases hdumps
  · rw [hfile, List.length_cons] at hdumps
    obtain rfl : rest = [] := List.length_eq_zero_iff.mp (by omega)
    exact ⟨s, file, save, hlife.run, hfile, hload⟩

/-- A key gets the time -1 on a slave, is dumped, and is deleted by the expire cycle of a master. -/
def forgottenEvents : List PersistEvent :=
  [.command 0 (RedisDb.contextAt 5) (.set (ascii "a") (ascii "1")),
    .command 0 { RedisDb.contextAt 5 with masterhost := some (ascii "master") }
      (.expireAt (ascii "a") (-1)),
    .bgsaveCommand 7 dumpingServer (some 0)] ++
  saveCalls.map .child ++
  [.cron 8 dumpingServer none, .command 0 (RedisDb.contextAt 35) (.expireDraw (ascii "a"))]

/-- The key is gone, nothing is counted, and the dump brings it back. -/
example :
    ((PersistState.run savingConfig forgottenEvents
      (.boot [RedisDb.empty] ⟨[], fun _ => none⟩ 0)).toOption.map fun s =>
        (s.dirty, s.dbs.map fun db => db.toDb.dict (ascii "a"),
          s.disk.dumps.map fun file =>
            (rdbLoad loadingServer [RedisDb.empty] file.cached).toOption.map fun outcome =>
              match outcome with
              | .loaded dbs => dbs.map fun db => db.toDb.dict (ascii "a")
              | _ => [])) =
      some (0, [none], [some [some (.int 1)]]) := by
  decide +kernel

end Blogd
