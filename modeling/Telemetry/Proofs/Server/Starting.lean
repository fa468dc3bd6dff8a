import Telemetry.Proofs.Server.Recovery
import Telemetry.Proofs.Retry
import Telemetry.Proofs.Storage.Reopening
/-!
Which storage a server starts with. A database that answers is taken or ends the start, and only one
that does not answer makes room for a memory. The tables are made in one transaction, which is tried
again while it fails; as a failure leaves nothing behind, all attempts end as the first one does. No
file but that of the database changes.
-/

namespace Telemetry

open Storage

/-! ### The tables of a database -/

namespace Relation

variable {α : Type} {col : Column α} {r after : Relation α} {made : Bool}

/-- Whether one is the table that the other was, or a new one in place of nothing. -/
def Completes (r after : Relation α) : Prop :=
  ∃ t, after = .table t ∧ (r = .table t ∨ r = .missing ∧ t = .empty)

theorem completes_of_create (h : r.create col = .ok (after, made)) : r.Completes after := by
  cases r with
  | missing =>
    obtain ⟨rfl, -⟩ := Prod.mk.inj (Except.ok.inj h)
    exact ⟨_, rfl, .inr ⟨rfl, rfl⟩⟩
  | barred => cases h
  | view => cases h
  | table t =>
    obtain ⟨rfl, -⟩ := Prod.mk.inj (Except.ok.inj h)
    exact ⟨_, rfl, .inl rfl⟩

theorem create_of_completes (h : r.Completes after) : after.create col = .ok (after, false) := by
  obtain ⟨t, rfl, -⟩ := h
  rfl

end Relation

namespace Database

variable {db after : Database} {created : List String}

/-- Whether both tables are there, the ones that were there before with the same rows. -/
structure Completes (db after : Database) : Prop where
  gauges : db.gauges.Completes after.gauges
  counters : db.counters.Completes after.counters

theorem completes_of_createTables (h : db.createTables = .ok (after, created)) :
    db.Completes after := by
  rw [createTables, bind_eq_ok_iff] at h
  obtain ⟨⟨gauges, newGauges⟩, hg, h⟩ := h
  rw [bind_eq_ok_iff] at h
  obtain ⟨⟨counters, newCounters⟩, hc, h⟩ := h
  obtain ⟨rfl, -⟩ := Prod.mk.inj (Except.ok.inj h)
  exact ⟨Relation.completes_of_create hg, Relation.completes_of_create hc⟩

theorem createTables_of_completes (h : db.Completes after) : after.createTables = .ok (after, []) := by
  rw [createTables, Relation.create_of_completes h.gauges,
    Relation.create_of_completes h.counters]
  rfl

end Database

/-! ### Opening a database -/

namespace FileTree

variable {t : FileTree} {p : Path} {place : List String}

theorem ChangedAround.find? {u : FileTree} (h : ChangedAround place t u)
    (other : ∀ q, t.locate p = some q → ¬Belongs place q) : u.find? p = t.find? p :=
  h.same.find? fun q hq => h.others q (other q hq)

theorem put_eq_self {node : Node} (h : t.node? place = some node) (hp : place ≠ []) :
    t.put place node = t := by
  have same : t.nodes.insert place node = t.nodes := by
    refine Std.ExtTreeMap.ext_getElem? fun q => ?_
    rw [node?, if_neg hp] at h
    rw [Std.ExtTreeMap.getElem?_insert]
    split
    · rename_i eq
      rw [← Std.LawfulEqCmp.compare_eq_iff_eq.mp eq, h]
    · rfl
  rw [put, same]

end FileTree

namespace Connection

variable {files opened : FileTree} {dsn : String} {c : Connection} {p : Path}

/-- The place of the file that a data source name means, if it means one and may. -/
def placeOf? (files : FileTree) (dsn : String) : Option (List String) :=
  match Source.ofDsn dsn with
  | .ok (.file path) => files.databasePlace? (.ofText files.base path)
  | _ => none

inductive Connecting (files : FileTree) (dsn : String) : Except Error Connection × FileTree → Prop where
  | refused (e : Error) : Connecting files dsn (.error e, files)
  | failed {place : List String} {u : FileTree} (e : Error) (at' : placeOf? files dsn = some place)
      (left : FileTree.Left place files u) : Connecting files dsn (.error e, u)
  | own : Connecting files dsn (.ok (.own .empty), files)
  | barred {place : List String} {u : FileTree} (at' : placeOf? files dsn = some place)
      (around : FileTree.ChangedAround place files u)
      (kept : u.tablesAt place = files.tablesAt place) :
      Connecting files dsn (.ok (.own .barred), u)
  | opened {place : List String} {u : FileTree} (at' : placeOf? files dsn = some place)
      (around : FileTree.ChangedAround place files u)
      (kept : u.tablesAt place = files.tablesAt place) : Connecting files dsn (.ok (.file place), u)

theorem connect_connecting (files : FileTree) (dsn : String) :
    Connecting files dsn (connect files dsn) := by
  unfold connect
  split
  · exact .refused _
  · exact .own
  · rename_i path hpath
    have place : placeOf? files dsn = files.databasePlace? (.ofText files.base path) := by
      rw [placeOf?, hpath]
    cases ho : files.openDatabase (.ofText files.base path) with
    | mk result opened =>
      have opening := files.openDatabase_opening (.ofText files.base path)
      rw [ho] at opening
      cases opening with
      | nowhere absent => exact .refused _
      | refused at' left => exact .failed _ (place.trans at') left
      | barred at' around kept => exact .barred (place.trans at') around kept
      | opened at' around node settled =>
        exact .opened (place.trans at') around (FileTree.tablesAt_of_node node)

theorem free_of_placeOf? {place : List String} (h : placeOf? files dsn = some place) :
    files.isDirectoryAt place = false := by
  unfold placeOf? at h
  split at h
  · exact (FileTree.databasePlace?_eq_some h).2.2.2.1
  · cases h

def Spares (files : FileTree) (dsn : String) (later : FileTree) : Prop :=
  later = files ∨ ∃ place, placeOf? files dsn = some place ∧ FileTree.ChangedAround place files later

theorem Spares.find? {later : FileTree} (h : Spares files dsn later)
    (other : ∀ place, placeOf? files dsn = some place → ∀ q, files.locate p = some q →
      ¬FileTree.Belongs place q) : later.find? p = files.find? p := by
  obtain rfl | ⟨place, at', around⟩ := h
  · rfl
  · exact around.find? (other place at')

theorem connect_spares (files : FileTree) (dsn : String) : Spares files dsn (connect files dsn).2 := by
  cases hc : connect files dsn with
  | mk result opened =>
    have connecting := connect_connecting files dsn
    rw [hc] at connecting
    cases connecting with
    | refused e => exact .inl rfl
    | failed e at' left => exact .inr ⟨_, at', left.around⟩
    | own => exact .inl rfl
    | barred at' around kept => exact .inr ⟨_, at', around⟩
    | opened at' around kept => exact .inr ⟨_, at', around⟩

/-- A database with both tables, which are those that were there before. -/
structure Prepared (before : Database) (c : Connection) (files : FileTree) : Prop where
  completes : before.Completes (c.database files)
  again : c.initSchema files = (.ok [], c, files)

theorem prepared_own {before after : Database} (h : before.Completes after) :
    Prepared before (.own after) files := by
  refine ⟨h, ?_⟩
  rw [initSchema, database, Database.createTables_of_completes h]
  rfl

theorem prepared_file {before after : Database} {place : List String} (hp : place ≠ [])
    (h : before.Completes after) :
    Prepared before (.file place) (files.put place (.database after)) := by
  have node := @FileTree.node?_put_self files place (.database after) hp
  have holds : (Connection.file place).database (files.put place (.database after)) = after := by
    rw [database, node]
  refine ⟨holds.symm ▸ h, ?_⟩
  rw [initSchema, holds, Database.createTables_of_completes h]
  dsimp only
  rw [setDatabase, FileTree.put_eq_self node hp]

/-- Making the tables after connecting: they cannot be made, and the database is as it was; or the
tables are there. -/
inductive Preparing (files opened : FileTree) (dsn : String) (c : Connection) :
    Except Error (List String) × Connection × FileTree → Prop where
  | failed (e : Error) (kept : ∀ place, placeOf? files dsn = some place →
      opened.tablesAt place = files.tablesAt place) : Preparing files opened dsn c (.error e, c, opened)
  | prepared {created : List String} {c' : Connection} {later : FileTree}
      (prepared : Prepared (c.database files) c' later) (spares : Spares files dsn later) :
      Preparing files opened dsn c (.ok created, c', later)

theorem initSchema_preparing (h : connect files dsn = (.ok c, opened)) :
    Preparing files opened dsn c (c.initSchema opened) := by
  have connecting := connect_connecting files dsn
  have spares := connect_spares files dsn
  rw [h] at connecting spares
  rw [initSchema]
  cases ht : (c.database opened).createTables with
  | error e =>
    refine .failed e fun place at' => ?_
    cases connecting with
    | own => rfl
    | barred there around kept =>
      obtain rfl := Option.some.inj (there.symm.trans at')
      exact kept
    | opened there around kept =>
      obtain rfl := Option.some.inj (there.symm.trans at')
      exact kept
  | ok result =>
    obtain ⟨after, created⟩ := result
    have completes := Database.completes_of_createTables ht
    cases connecting with
    | own => exact .prepared (prepared_own completes) spares
    | barred there around kept => cases ht
    | @opened place _ there around kept =>
      have free := free_of_placeOf? there
      have before : (Connection.file place).database opened = (Connection.file place).database files :=
        kept
      rw [before] at completes
      refine .prepared (prepared_file (FileTree.ne_nil_of_not_directory free) completes) ?_
      rw [← around.same.directories] at free
      have put : FileTree.ChangedAround place opened (opened.put place (.database after)) :=
        FileTree.changedAround_put free (by simp) (FileTree.belongs_self place)
      exact .inr ⟨_, there, around.trans put⟩

/-- Makes the missing tables, trying again while that fails. -/
def prepare (c : Connection) (files : FileTree) (b : Backoff) :
    Attempts (Connection × FileTree) Error (List String) :=
  Retry.silently (fun s => s.1.initSchema s.2) b (c, files)

end Connection

namespace Server.Startup

variable {config : StorageConfig} {files opened : FileTree} {c : Connection} {b : Backoff}

/-- A database is named, and this is the connection to it. -/
def Connects (config : StorageConfig) (files : FileTree) (c : Connection) (opened : FileTree) : Prop :=
  ∃ dsn, config.databaseDsn = some dsn ∧ Connection.connect files dsn = (.ok c, opened)

/-- The place of the database file that is named, if there is one. -/
def databaseAt? (config : StorageConfig) (files : FileTree) : Option (List String) :=
  config.databaseDsn.bind (Connection.placeOf? files)

def decoded? (files : FileTree) (p : Path) : Option Snapshot :=
  (files.read? p).bind fun bytes => (Snapshot.decode bytes).toOption

/-- The content of the snapshot that is to be restored, or nothing where there is none to be read. -/
def savedContent (config : StorageConfig) (files : FileTree) : Snapshot :=
  match config.restore, config.fileStoragePath with
  | true, some path => (decoded? files (.ofText files.base path)).getD .empty
  | _, _ => .empty

def startingMemory (config : StorageConfig) (files : FileTree) : Memory :=
  ⟨savedContent config files, config.fileStoragePath,
    .ofInterval (.ofSeconds config.storeInterval)⟩

theorem restoreInto_fresh (path : String) (mode : SaveMode) (files : FileTree) :
    (restoreInto (.new (some path) mode) files).1 =
      ⟨(decoded? files (.ofText files.base path)).getD .empty, some path, mode⟩ := by
  simp only [restoreInto, Memory.new, decoded?]
  cases hr : files.read? (.ofText files.base path) with
  | none =>
    split
    · rfl
    · simp only [Memory.restore, Memory.readSnapshot, hr]
      rfl
  | some bytes =>
    rw [pathExists_of_read? hr, if_neg (by simp)]
    simp only [Memory.restore, Memory.readSnapshot, hr, Option.bind_some]
    cases Snapshot.decode bytes <;> rfl

theorem startMemory_engine (config : StorageConfig) (files : FileTree) (logs : List Log.Event) :
    (startMemory config files logs).engine = .ok (.memory (startingMemory config files)) := by
  rw [startMemory, startingMemory, savedContent]
  cases config.restore with
  | false => rfl
  | true =>
    cases config.fileStoragePath with
    | none => rfl
    | some path =>
      dsimp only
      rw [if_pos rfl, restoreInto_fresh]

/-- Whether the snapshot has a place of its own, which is none of those beside the database. -/
def SnapshotApart (config : StorageConfig) (files : FileTree) : Prop :=
  ∀ path place q, config.fileStoragePath = some path → databaseAt? config files = some place →
    files.locate (.ofText files.base path) = some q → ∀ side : SideFile, q ≠ side.place place

theorem decoded?_of_absent {q : List String} (located : files.locate p = some q)
    (absent : files.node? q = none ∨ files.node? q = some (.data [])) : decoded? files p = none := by
  have nothing : files.read? p = none ∨ files.read? p = some [] := by
    rcases absent with absent | absent
    · left
      simp [FileTree.read?, FileTree.find?, located, absent]
    · simp only [FileTree.read?, FileTree.find?, located, Option.bind_eq_bind, Option.bind_some, absent]
      cases p.closed
      · exact .inr rfl
      · exact .inl rfl
  rcases nothing with nothing | nothing
  · rw [decoded?, nothing, Option.bind_none]
  · rw [decoded?, nothing]
    rfl

theorem decoded?_of_find? (same : opened.find? p = files.find? p) : decoded? opened p = decoded? files p := by
  rw [decoded?, decoded?, FileTree.read?, same, FileTree.read?]

/-- An attempt to connect that fails leaves nothing new that could be restored, and what is not beside
the database it leaves as it was. -/
theorem decoded?_of_left {place : List String} (left : FileTree.Left place files opened) (p : Path) :
    (decoded? opened p = decoded? files p ∨ decoded? opened p = none) ∧
      ((∀ q, files.locate p = some q → ∀ side : SideFile, q ≠ side.place place) →
        decoded? opened p = decoded? files p) := by
  have locate := left.around.same.locate p
  cases located : files.locate p with
  | none =>
    have same : decoded? opened p = decoded? files p :=
      decoded?_of_find? (left.around.same.find? fun q hq => by rw [located] at hq; cases hq)
    exact ⟨.inl same, fun _ => same⟩
  | some q =>
    rw [located] at locate
    have unchanged (same : opened.node? q = files.node? q) : decoded? opened p = decoded? files p := by
      refine decoded?_of_find? (left.around.same.find? fun r hr => ?_)
      obtain rfl := Option.some.inj (located.symm.trans hr)
      exact same
    by_cases here : q = place
    · subst here
      have same : decoded? opened p = decoded? files p := by
        obtain same | ⟨absent, empty⟩ := left.here
        · exact unchanged same
        · rw [decoded?_of_absent locate (.inr empty), decoded?_of_absent located (.inl absent)]
      exact ⟨.inl same, fun _ => same⟩
    · refine ⟨?_, fun apart => unchanged (left.around.others q ?_)⟩
      · obtain same | gone := left.beside q here
        · exact .inl (unchanged same)
        · exact .inr (decoded?_of_absent locate (.inl gone))
      · rintro (same | ⟨side, beside⟩)
        · exact here same
        · exact apart q rfl side beside

theorem savedContent_of_connect {dsn : String} {e : Error} (named : config.databaseDsn = some dsn)
    (h : Connection.connect files dsn = (.error e, opened)) :
    (savedContent config opened = savedContent config files ∨ savedContent config opened = .empty) ∧
      (SnapshotApart config files → savedContent config opened = savedContent config files) := by
  have connecting := Connection.connect_connecting files dsn
  rw [h] at connecting
  cases connecting with
  | refused e => exact ⟨.inl rfl, fun _ => rfl⟩
  | @failed place _ e at' left =>
    let orEmpty (content : Option Snapshot) : Snapshot := content.getD .empty
    unfold savedContent
    split
    · rename_i path on hpath
      obtain ⟨less, apart⟩ := decoded?_of_left left (.ofText files.base path)
      rw [left.around.same.base]
      refine ⟨less.imp (congrArg orEmpty) (congrArg orEmpty), fun snapshot => ?_⟩
      refine congrArg orEmpty (apart fun q hq => ?_)
      exact snapshot _ place q hpath (by rw [databaseAt?, named]; exact at') hq
    · exact ⟨.inl rfl, fun _ => rfl⟩

/-- The three ways a start can end, each where the database has led. -/
inductive Starting (config : StorageConfig) (files : FileTree) : Outcome → Prop where
  | unprepared {c : Connection} {e : Error} {opened : FileTree} {logs : List Log.Event}
      (connects : Connects config files c opened) (failed : c.initSchema opened = (.error e, c, opened))
      (kept : ∀ place, databaseAt? config files = some place →
        opened.tablesAt place = files.tablesAt place) : Starting config files ⟨.error e, opened, logs⟩
  | relational {c c' : Connection} {opened later : FileTree} {created : List String}
      {logs : List Log.Event} (connects : Connects config files c opened)
      (done : c.initSchema opened = (.ok created, c', later))
      (prepared : Connection.Prepared (c.database files) c' later) :
      Starting config files ⟨.ok (.relational c'), later, logs⟩
  | memory {later : FileTree} {logs : List Log.Event}
      (unconnected : ∀ c opened, ¬Connects config files c opened)
      (less : savedContent config later = savedContent config files ∨
        savedContent config later = .empty)
      (content : SnapshotApart config files → savedContent config later = savedContent config files) :
      Starting config files ⟨.ok (.memory (startingMemory config later)), later, logs⟩

theorem start_starting (config : StorageConfig) (files : FileTree) :
    Starting config files (start config files) := by
  cases hd : config.databaseDsn with
  | none =>
    have unconnected : ∀ c opened, ¬Connects config files c opened := by
      rintro c opened ⟨dsn, named, -⟩
      rw [hd] at named
      cases named
    have started : start config files =
        ⟨.ok (.memory (startingMemory config files)), files, (start config files).logs⟩ := by
      simp only [start, hd, ← startMemory_engine config files []]
      rfl
    rw [started]
    exact .memory unconnected (.inl rfl) fun _ => rfl
  | some dsn =>
    cases hc : Connection.connect files dsn with
    | mk result opened =>
      cases result with
      | error e =>
        have unconnected : ∀ c opened, ¬Connects config files c opened := by
          rintro c opened ⟨dsn', named, connected⟩
          obtain rfl := Option.some.inj (hd.symm.trans named)
          rw [hc] at connected
          cases connected
        have started : start config files =
            ⟨.ok (.memory (startingMemory config opened)), opened, (start config files).logs⟩ := by
          simp only [start, hd, hc, ← startMemory_engine config opened []]
          rfl
        rw [started]
        obtain ⟨less, content⟩ := savedContent_of_connect hd hc
        exact .memory unconnected less content
      | ok c =>
        have connects : Connects config files c opened := ⟨dsn, hd, hc⟩
        have started : start config files = startRelational c opened := by simp only [start, hd, hc]
        rw [started, startRelational]
        have preparing := Connection.initSchema_preparing hc
        cases hi : c.initSchema opened with
        | mk outcome rest =>
          rw [hi] at preparing
          cases preparing with
          | failed e kept =>
            refine .unprepared connects hi fun place at' => kept place ?_
            rwa [databaseAt?, hd] at at'
          | prepared prepared spares => exact .relational connects hi prepared

theorem Connects.unique {c c' : Connection} {opened opened' : FileTree}
    (h : Connects config files c opened) (k : Connects config files c' opened') :
    c = c' ∧ opened = opened' := by
  obtain ⟨dsn, named, connected⟩ := h
  obtain ⟨dsn', named', connected'⟩ := k
  obtain rfl := Option.some.inj (named.symm.trans named')
  obtain ⟨result, rfl⟩ := Prod.mk.inj (connected.symm.trans connected')
  exact ⟨Except.ok.inj result, rfl⟩

end Server.Startup

end Telemetry
