import Telemetry.Proofs.Storage.BatchOrders
import Telemetry.Proofs.Storage.Reopening
/-!
Memory and a database side by side. Both start empty and are asked the same; the file of the database
may be closed and opened again at any time. They always give the same answers, but a negative zero
comes back from the database without its sign.
-/

namespace Telemetry

open Storage

namespace Snapshot

/-- The content as a database shows it. -/
def dropZeroSigns (s : Snapshot) : Snapshot :=
  { s with gauges := s.gauges.map fun _ x => x.dropZeroSign }

end Snapshot

/-- The answers of memory with the content `s` and of a database that holds it. -/
def Call.Agree (s : Snapshot) : (c : Call) → c.Reply → c.Reply → Prop
  | .backend, _, _ => True
  | .getGauge name, a, b =>
    a = .ok s.gauges[name]? ∧ b = .ok (s.gauges[name]?.map Binary64.dropZeroSign)
  | .getCounter name, a, b => a = .ok s.counters[name]? ∧ b = a
  | .getAll, a, b => a = .ok s.listing ∧ b = .ok s.dropZeroSigns.listing
  | .putGauge _ _, a, b => a = b
  | .putCounter _ _, a, b => a = b
  | .putGauges _, a, b => a = b
  | .putCounters _, a, b => a = b
  | .ping, a, b => a = b

variable {s : Snapshot}

theorem Database.listing_holding : (Database.holding s).listing = .ok s.dropZeroSigns.listing := by
  have gauges : NameMap.ofEntries (s.gauges.toList.map fun e => (e.1, e.2.dropZeroSign.text)) =
      (s.gauges.map fun _ x => x.dropZeroSign).map fun _ x => x.text := by
    rw [Std.ExtTreeMap.map_map, ← NameMap.ofEntries_toList (s.gauges.map _),
      Std.ExtTreeMap.toList_map]
  have counters : NameMap.ofEntries (s.counters.toList.map fun e => (e.1, e.2.text)) =
      s.counters.map fun _ c => c.text := by
    rw [← NameMap.ofEntries_toList (s.counters.map _), Std.ExtTreeMap.toList_map]
  rw [Database.listing, Database.holding, Relation.list_holding, ok_bind, Relation.list_holding,
    ok_bind, List.map_map, List.map_map]
  exact congrArg Except.ok (congrArg₂ Listing.mk gauges counters)

namespace Memory

theorem apply_unsaved {m : Memory} (h : m.snapshotPath = none) (files : FileTree)
    (change : Except Error Snapshot) : m.apply files change =
      (change.map fun _ => (), m.load (change.toOption.getD m.content), files) := by
  cases change with
  | error e => rfl
  | ok u => simp [apply, afterWrite, load, h, Except.map, Except.toOption]

theorem applyBatch_unsaved {α : Type} {m : Memory} (h : m.snapshotPath = none) (files : FileTree)
    {batch : List α} {change : Except Error Snapshot} (hb : batch = [] → change = .ok m.content) :
    m.applyBatch files batch change =
      (change.map fun _ => (), m.load (change.toOption.getD m.content), files) := by
  unfold applyBatch
  by_cases he : batch.isEmpty = true
  · rw [if_pos he, hb (List.isEmpty_iff.mp he)]
    rfl
  · rw [if_neg he, apply_unsaved h]

end Memory

namespace Connection

variable {k : Connection} {files : FileTree}

theorem apply_holding (change : Except Error Snapshot) :
    k.apply files (change.map Database.holding) = (change.map fun _ => (), match change with
      | .ok u => k.setDatabase files (.holding u)
      | .error _ => (k, files)) := by
  cases change <;> rfl

/-- What a call may do to a connection and its files. -/
def Committed (k : Connection) (files : FileTree) (o : Connection × FileTree) : Prop :=
  o = (k, files) ∨ ∃ db, o = k.setDatabase files db

theorem holding_ne_empty : Database.holding s ≠ .empty := by
  intro h
  cases congrArg Database.gauges h

theorem update_agree {m : Memory} (change : Except Error Snapshot)
    (h : k.database files = .holding m.content) :
    let o := k.apply files (change.map Database.holding)
    o.1 = change.map (fun _ => ()) ∧ k.Committed files o.2 ∧
      o.2.1.database o.2.2 = .holding (change.toOption.getD m.content) := by
  rw [apply_holding]
  cases change with
  | error e => exact ⟨rfl, .inl rfl, h⟩
  | ok u =>
    refine ⟨rfl, .inr ⟨_, rfl⟩, database_setDatabase (ne_of_database files ?_)⟩
    rw [h]
    exact holding_ne_empty

theorem perform_agree {m : Memory} (hm : m.snapshotPath = none) (own : FileTree)
    (h : k.database files = .holding m.content) (c : Call) :
    c.Agree m.content (m.perform own c).1 (k.perform files c).1 ∧
      (m.perform own c).2.1.snapshotPath = none ∧ k.Committed files (k.perform files c).2 ∧
      (k.perform files c).2.1.database (k.perform files c).2.2 =
        .holding (m.perform own c).2.1.content := by
  cases c with
  | backend => exact ⟨trivial, hm, .inl rfl, h⟩
  | ping => exact ⟨rfl, hm, .inl rfl, h⟩
  | getGauge name =>
    refine ⟨⟨rfl, ?_⟩, hm, .inl rfl, h⟩
    simp only [perform, h]
    exact Relation.lookup_holding name
  | getCounter name =>
    refine ⟨⟨rfl, ?_⟩, hm, .inl rfl, h⟩
    simp only [perform, h]
    refine (Relation.lookup_holding name).trans (congrArg Except.ok ?_)
    simp [counterColumn]
  | getAll =>
    refine ⟨⟨rfl, ?_⟩, hm, .inl rfl, h⟩
    simp only [perform, h]
    exact Database.listing_holding
  | putGauge name x =>
    have both := update_agree (m.content.putGauge name x) h
    rw [← Database.putGauge_holding, ← h] at both
    simp only [Memory.perform, Memory.apply_unsaved hm]
    exact ⟨both.1.symm, hm, both.2⟩
  | putCounter name d =>
    have both := update_agree (m.content.putCounter name d) h
    rw [← Database.putCounter_holding, ← h] at both
    simp only [Memory.perform, Memory.apply_unsaved hm]
    exact ⟨both.1.symm, hm, both.2⟩
  | putGauges batch =>
    have both := update_agree (m.content.putGauges batch.toList) h
    have none : batch.toList = [] → m.content.putGauges batch.toList = .ok m.content :=
      fun hb => by rw [hb]; rfl
    rw [← Database.putGauges_holding, ← h] at both
    simp only [Memory.perform, Memory.applyBatch_unsaved hm own none]
    exact ⟨both.1.symm, hm, both.2⟩
  | putCounters batch =>
    have both := update_agree (m.content.putCounters batch.toList) h
    have none : batch.toList = [] → m.content.putCounters batch.toList = .ok m.content :=
      fun hb => by rw [hb]; rfl
    rw [← Database.putCounters_holding, ← h] at both
    simp only [Memory.perform, Memory.applyBatch_unsaved hm own none]
    exact ⟨both.1.symm, hm, both.2⟩

theorem node?_of_database {place : List String} (h : (Connection.file place).database files = .holding s) :
    files.node? place = some (.database (.holding s)) := by
  simp only [database] at h
  cases hn : files.node? place with
  | none => exact absurd (by rw [← h, hn]) (holding_ne_empty (s := s))
  | some node =>
    cases node with
    | directory => exact absurd (by rw [← h, hn]) (holding_ne_empty (s := s))
    | data bytes => exact absurd (by rw [← h, hn]) (holding_ne_empty (s := s))
    | database db =>
      rw [hn] at h
      rw [← h]

theorem connect_file {dsn path : String} {t : FileTree} (hs : Source.ofDsn dsn = .ok (.file path)) :
    connect t dsn = match t.openDatabase (.ofText t.base path) with
      | (.opened place _, t) => (.ok (.file place), t)
      | (.barred, t) => (.ok (.own .barred), t)
      | (.refused, t) => (.error .unreachable, t) := by
  cases ho : t.openDatabase (.ofText t.base path) with
  | mk opened t' => cases opened <;> simp [connect, hs, ho]

end Connection

theorem Connection.connect_fresh {dsn path : String} {t opened : FileTree} {k : Connection}
    (h : connect t dsn = (.ok k, opened)) (fresh : k.database opened = .empty)
    (hs : Source.ofDsn dsn = .ok (.file path)) : ∃ place, k = .file place ∧
      t.databasePlace? (.ofText t.base path) = some place ∧ FileTree.ChangedAround place t opened ∧
        opened.Settled place := by
  rw [connect_file hs] at h
  have opening := t.openDatabase_opening (.ofText t.base path)
  cases ho : t.openDatabase (.ofText t.base path) with | mk result u =>
  rw [ho] at h opening
  cases opening with
  | nowhere absent => cases h
  | refused at' left => cases h
  | barred at' around kept =>
    -- A database that is out of reach does not look empty.
    obtain ⟨rfl, rfl⟩ : Connection.own .barred = k ∧ u = opened := by simpa using h
    cases congrArg Database.gauges fresh
  | @opened place _ at' around node settled =>
    obtain ⟨rfl, rfl⟩ : Connection.file place = k ∧ u = opened := by simpa using h
    exact ⟨place, rfl, at', around, settled⟩

theorem Connection.ne_of_connect {dsn : String} {t opened : FileTree} {k : Connection}
    (h : connect t dsn = (.ok k, opened)) (fresh : k.database opened = .empty) : k ≠ .file [] := by
  rintro rfl
  cases hs : Source.ofDsn dsn with
  | error e => simp [connect, hs] at h
  | ok source =>
    cases source with
    | ownMemory => simp [connect, hs] at h
    | file path =>
      obtain ⟨place, same, at', -, -⟩ := connect_fresh h fresh hs
      exact FileTree.place_ne_nil at' (Connection.file.inj same).symm

/-- Closes the file of a database and opens it again. A database of its own would be lost. -/
def Store.reopen (dsn : String) (s : Store) : Option Store :=
  match Source.ofDsn dsn, Connection.connect s.files dsn with
  | .ok (.file _), (.ok k, files) => some ⟨.relational k, files⟩
  | _, _ => none

def Store.initSchema (s : Store) : Store :=
  match s.engine with
  | .relational k => ⟨.relational (k.initSchema s.files).2.1, (k.initSchema s.files).2.2⟩
  | _ => s

structure Pair where
  memory : Store
  database : Store

namespace Pair

inductive Event where
  | call (c : Call)
  | schema
  | reopen

/-- Both sides are asked the same; only the database can be reopened, which need not succeed. -/
def next (dsn : String) (p : Pair) : Event → Option Pair
  | .call c => some ⟨(p.memory.perform c).2, (p.database.perform c).2⟩
  | .schema => some { p with database := p.database.initSchema }
  | .reopen => (p.database.reopen dsn).map fun t => { p with database := t }

def run (dsn : String) (p : Pair) (events : List Event) : Option Pair := events.foldlM (next dsn) p

/-- The connection is to the file that the name led to at first, which could be opened again, and no
other file was touched. -/
def Anchored (dsn : String) (origin : FileTree) (k : Connection) (files : FileTree) : Prop :=
  ∀ path, Source.ofDsn dsn = .ok (.file path) → ∃ place, k = .file place ∧
    origin.databasePlace? (.ofText origin.base path) = some place ∧
    FileTree.ChangedAround place origin files ∧ files.Settled place

variable {dsn : String} {origin files : FileTree} {k : Connection} {p : Pair}

theorem Anchored.committed {o : Connection × FileTree} (h : Anchored dsn origin k files)
    (hc : k.Committed files o) : Anchored dsn origin o.1 o.2 := by
  intro path hpath
  obtain ⟨place, rfl, at', around, settled⟩ := h path hpath
  rcases hc with rfl | ⟨db, rfl⟩
  · exact ⟨place, rfl, at', around, settled⟩
  · have free : files.isDirectoryAt place = false := by
      rw [around.same.directories]
      exact (FileTree.databasePlace?_eq_some at').2.2.2.1
    have put : FileTree.ChangedAround place files (files.put place (.database db)) :=
      FileTree.changedAround_put free (by simp) (FileTree.belongs_self place)
    exact ⟨place, rfl, at', around.trans put, settled.put _⟩

theorem Anchored.connect {opened : FileTree} (h : Connection.connect origin dsn = (.ok k, opened))
    (fresh : k.database opened = .empty) : Anchored dsn origin k opened :=
  fun _ hpath => Connection.connect_fresh h fresh hpath

theorem reopened {path : String} {place : List String} (hpath : Source.ofDsn dsn = .ok (.file path))
    (at' : files.databasePlace? (.ofText files.base path) = some place)
    (hk : (Connection.file place).database files = .holding s) (settled : files.Settled place) :
    Store.reopen dsn ⟨.relational (.file place), files⟩ = some ⟨.relational (.file place), files⟩ := by
  have again := FileTree.openDatabase_again at' (Connection.node?_of_database hk) settled
  have connected : Connection.connect files dsn = (.ok (.file place), files) := by
    rw [Connection.connect_file hpath, again]
  simp only [Store.reopen, hpath, connected]

theorem reopen_eq_some {t : Store} (h : Anchored dsn origin k files)
    (hk : k.database files = .holding s) (hr : Store.reopen dsn ⟨.relational k, files⟩ = some t) :
    t = ⟨.relational k, files⟩ := by
  cases hs : Source.ofDsn dsn with
  | error e => simp [Store.reopen, hs] at hr
  | ok source =>
    cases source with
    | ownMemory => simp [Store.reopen, hs] at hr
    | file path =>
      obtain ⟨place, rfl, at', around, settled⟩ := h path hs
      cases ht : files.databasePlace? (.ofText files.base path) with
      | none => simp [Store.reopen, hs, Connection.connect_file hs, FileTree.openDatabase, ht] at hr
      | some place' =>
        have later := (FileTree.databasePlace?_eq_some ht).2.1
        rw [around.same.base] at later
        obtain rfl : place' = place :=
          FileTree.takeBack_unique later (FileTree.databasePlace?_eq_some at').2.1
        rw [reopened hs ht hk settled] at hr
        exact (Option.some.inj hr).symm

theorem reopen_isSome {path : String} (h : Anchored dsn origin k files)
    (hk : k.database files = .holding s) (hpath : Source.ofDsn dsn = .ok (.file path))
    (hs : ".." ∉ (Path.ofText origin.base path).steps) :
    (Store.reopen dsn ⟨.relational k, files⟩).isSome := by
  obtain ⟨place, rfl, at', around, settled⟩ := h path hpath
  rw [← around.same.base] at hs at'
  rw [reopened hpath (FileTree.databasePlace?_changedAround around hs at') hk settled]
  rfl

structure Invariant (dsn : String) (origin : FileTree) (m : Memory) (p : Pair) : Prop where
  unsaved : m.snapshotPath = none
  memory : ∃ own, p.memory = ⟨.memory m, own⟩
  database : ∃ k files, p.database = ⟨.relational k, files⟩ ∧ Anchored dsn origin k files ∧
    k.database files = .holding m.content

theorem createTables_holding : (Database.holding s).createTables = .ok (.holding s, []) := rfl

theorem Invariant.call {m : Memory} (h : Invariant dsn origin m p) (c : Call) :
    c.Agree m.content (p.memory.perform c).1 (p.database.perform c).1 ∧
      ∃ u, Invariant dsn origin u ⟨(p.memory.perform c).2, (p.database.perform c).2⟩ := by
  obtain ⟨own, hm⟩ := h.memory
  obtain ⟨k, files, hd, anchored, holds⟩ := h.database
  obtain ⟨agree, unsaved, committed, holds'⟩ := Connection.perform_agree h.unsaved own holds c
  rw [hm, hd]
  exact ⟨agree, _, unsaved, ⟨_, rfl⟩, _, _, rfl, anchored.committed committed, holds'⟩

theorem Invariant.schema {m : Memory} (h : Invariant dsn origin m p) :
    Invariant dsn origin m { p with database := p.database.initSchema } := by
  obtain ⟨k, files, hd, anchored, holds⟩ := h.database
  have made : k.initSchema files = (.ok [], k.setDatabase files (.holding m.content)) := by
    rw [Connection.initSchema, holds, createTables_holding]
  have same : p.database.initSchema = ⟨.relational (k.setDatabase files (.holding m.content)).1,
      (k.setDatabase files (.holding m.content)).2⟩ := by
    simp only [hd, Store.initSchema, made]
  refine ⟨h.unsaved, h.memory, _, _, same, anchored.committed (.inr ⟨_, rfl⟩), ?_⟩
  refine Connection.database_setDatabase (Connection.ne_of_database files ?_)
  rw [holds]
  exact Connection.holding_ne_empty

theorem Invariant.reopen {m : Memory} {t : Store} (h : Invariant dsn origin m p)
    (hr : p.database.reopen dsn = some t) : Invariant dsn origin m { p with database := t } := by
  obtain ⟨k, files, hd, anchored, holds⟩ := h.database
  rw [hd] at hr
  exact ⟨h.unsaved, h.memory, k, files, reopen_eq_some anchored holds hr, anchored, holds⟩

theorem step_preserves_invariant {m : Memory} {q : Pair} {e : Event} (h : Invariant dsn origin m p)
    (he : p.next dsn e = some q) : ∃ u, Invariant dsn origin u q := by
  cases e with
  | call c =>
    obtain rfl := Option.some.inj he
    exact (h.call c).2
  | schema =>
    obtain rfl := Option.some.inj he
    exact ⟨m, h.schema⟩
  | reopen =>
    obtain ⟨t, ht, rfl⟩ := Option.map_eq_some_iff.mp he
    exact ⟨m, h.reopen ht⟩

theorem run_preserves_invariant {m : Memory} {q : Pair} {events : List Event}
    (h : Invariant dsn origin m p) (hr : p.run dsn events = some q) :
    ∃ u, Invariant dsn origin u q := by
  induction events generalizing p m with
  | nil =>
    obtain rfl := Option.some.inj hr
    exact ⟨m, h⟩
  | cons e events ih =>
    obtain ⟨t, ht, hr⟩ := Option.bind_eq_some_iff.mp hr
    obtain ⟨u, hu⟩ := step_preserves_invariant h ht
    exact ih hu hr

/-- A run that may not step back always goes on. -/
theorem run_isSome {m : Memory} {events : List Event} (h : Invariant dsn origin m p)
    (hfile : .reopen ∈ events → ∃ path, Source.ofDsn dsn = .ok (.file path) ∧
      ".." ∉ (Path.ofText origin.base path).steps) : (p.run dsn events).isSome := by
  induction events generalizing p m with
  | nil => rfl
  | cons e events ih =>
    have goes : ∃ q, p.next dsn e = some q := by
      cases e with
      | call c => exact ⟨_, rfl⟩
      | schema => exact ⟨_, rfl⟩
      | reopen =>
        obtain ⟨path, hpath, hs⟩ := hfile List.mem_cons_self
        obtain ⟨k, files, hd, anchored, holds⟩ := h.database
        obtain ⟨t, ht⟩ := Option.isSome_iff_exists.mp (reopen_isSome anchored holds hpath hs)
        exact ⟨_, by rw [next, hd, ht]; rfl⟩
    obtain ⟨q, hq⟩ := goes
    obtain ⟨u, hu⟩ := step_preserves_invariant h hq
    have rest := ih hu fun hm => hfile (List.mem_cons_of_mem e hm)
    rw [run, List.foldlM_cons, hq]
    exact rest

/-- Memory without a file, and a database whose tables were just made. -/
def start (mode : SaveMode) (k : Connection) (files : FileTree) : Pair :=
  ⟨⟨.memory (.new none mode), files⟩, Store.initSchema ⟨.relational k, files⟩⟩

theorem start_invariant {opened : FileTree} (mode : SaveMode)
    (hk : Connection.connect origin dsn = (.ok k, opened)) (fresh : k.database opened = .empty) :
    Invariant dsn origin (.new none mode) (start mode k opened) := by
  have made : k.initSchema opened =
      (.ok [gaugeColumn.table, counterColumn.table], k.setDatabase opened (.holding .empty)) := by
    rw [Connection.initSchema, fresh]
    rfl
  refine ⟨rfl, ⟨opened, rfl⟩, _, _, rfl, ?_, ?_⟩
  all_goals rw [made]
  · exact (Anchored.connect hk fresh).committed (.inr ⟨_, rfl⟩)
  · exact Connection.database_setDatabase (Connection.ne_of_connect hk fresh)

/-- After every run on a fresh database the two sides answer any call alike, and batches in whatever
orders they look at the entries. A run can go on unless it opens a file again whose path steps back. -/
theorem backends_agree (mode : SaveMode) {opened : FileTree}
    (hk : Connection.connect origin dsn = (.ok k, opened)) (fresh : k.database opened = .empty)
    (events : List Event) :
    (k.initSchema opened).1 = .ok [gaugeColumn.table, counterColumn.table] ∧
    (∀ p, (start mode k opened).run dsn events = some p → ∃ m own l files,
      p.memory = ⟨.memory m, own⟩ ∧ p.database = ⟨.relational l, files⟩ ∧
      (∀ c : Call, c.Agree m.content (p.memory.perform c).1 (p.database.perform c).1) ∧
      AlikeInAnyOrder m.content (l.database files)) ∧
    ((.reopen ∈ events → ∃ path, Source.ofDsn dsn = .ok (.file path) ∧
      ".." ∉ (Path.ofText origin.base path).steps) →
        ((start mode k opened).run dsn events).isSome) := by
  have first := start_invariant mode hk fresh
  refine ⟨?_, ?_, run_isSome first⟩
  · rw [Connection.initSchema, fresh]
    rfl
  · intro p hp
    obtain ⟨m, h⟩ := run_preserves_invariant first hp
    obtain ⟨own, hm⟩ := h.memory
    obtain ⟨l, files, hd, -, holds⟩ := h.database
    refine ⟨m, own, l, files, hm, hd, fun c => (h.call c).1, ?_⟩
    rw [holds]
    exact m.content.alike_in_any_order

def workFiles : FileTree := .empty "/work"

def openedFiles : FileTree := workFiles.put ["metrics.db"] (.database .empty)

def zeroEvents : List Event := [.call (.putGauge "Alloc" Binary64.zero.neg), .reopen]

theorem backends_agree_on_zero :
    Connection.connect workFiles "metrics.db" = (.ok (.file ["metrics.db"]), openedFiles) ∧
    Connection.database (.file ["metrics.db"]) openedFiles = .empty ∧
    ∃ p, (start .inline (.file ["metrics.db"]) openedFiles).run "metrics.db" zeroEvents = some p ∧
      ∃ m : Memory, (Call.getGauge "Alloc").Agree m.content (p.memory.perform (.getGauge "Alloc")).1
        (p.database.perform (.getGauge "Alloc")).1 := by
  have connected : Connection.connect workFiles "metrics.db" =
      (.ok (.file ["metrics.db"]), openedFiles) := by rfl
  have fresh : Connection.database (.file ["metrics.db"]) openedFiles = .empty := by rfl
  have agree := backends_agree .inline connected fresh zeroEvents
  have path : Source.ofDsn "metrics.db" = .ok (.file "metrics.db") := by decide +kernel
  have forward : ".." ∉ (Path.ofText workFiles.base "metrics.db").steps := by decide +kernel
  obtain ⟨p, hp⟩ := Option.isSome_iff_exists.mp (agree.2.2 fun _ => ⟨_, path, forward⟩)
  obtain ⟨m, -, -, -, -, -, hm, -⟩ := agree.2.1 p hp
  exact ⟨connected, fresh, p, hp, m, hm _⟩

end Pair

end Telemetry
