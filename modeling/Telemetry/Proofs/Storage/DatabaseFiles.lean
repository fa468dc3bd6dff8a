import Telemetry.Proofs.Storage.Paths
/-!
What opening a database does to the files around it. Only the file itself and the three that may stand
beside it change; a database that was there keeps its tables, and once it is open nothing beside it
awaits the next opening.
-/

namespace Telemetry

open Storage

namespace SideFile

variable {side : SideFile} {place : List String}

theorem place_ne (side : SideFile) (place : List String) : side.place place ≠ place := by
  intro same
  rcases List.eq_nil_or_concat place with rfl | ⟨before, last, rfl⟩
  · cases same
  · rw [place, List.concat_eq_append, List.dropLast_concat, List.getLastD_concat] at same
    have longer : last ++ side.suffix = last := by simpa using same
    have := congrArg String.length longer
    rw [String.length_append] at this
    cases side <;> simp [suffix] at this

theorem place_ne_nil (side : SideFile) (place : List String) : side.place place ≠ [] := by
  simp [SideFile.place]

end SideFile

namespace FileTree

variable {t u v : FileTree} {p : Path} {place q r : List String} {db : Database}

/-- The file of a database, or one that may be beside it. -/
def Belongs (place q : List String) : Prop := q = place ∨ ∃ side : SideFile, q = side.place place

theorem belongs_self (place : List String) : Belongs place place := .inl rfl

theorem belongs_side (side : SideFile) (place : List String) : Belongs place (side.place place) :=
  .inr ⟨side, rfl⟩

/-- Trees that differ in the file of a database and those beside it at most, and not in directories. -/
structure ChangedAround (place : List String) (t u : FileTree) : Prop where
  same : t.SameDirectories u
  others : ∀ q, ¬Belongs place q → u.node? q = t.node? q

theorem ChangedAround.refl (place : List String) (t : FileTree) : ChangedAround place t t :=
  ⟨⟨rfl, fun _ => rfl⟩, fun _ _ => rfl⟩

theorem ChangedAround.trans (h : ChangedAround place t u) (k : ChangedAround place u v) :
    ChangedAround place t v :=
  ⟨h.same.trans k.same, fun q hq => (k.others q hq).trans (h.others q hq)⟩

theorem changedAround_put {node : Node} (free : t.isDirectoryAt q = false) (hn : node ≠ .directory)
    (belongs : Belongs place q) : ChangedAround place t (t.put q node) := by
  refine ⟨sameDirectories_put_node free hn, fun r hr => node?_put_of_ne ?_⟩
  rintro rfl
  exact hr belongs

theorem clear_of_absent (h : t.node? q = none) : t.clear q = t := by rw [clear, h]

theorem clear_cases (t : FileTree) (q : List String) :
    t.clear q = t ∧ (t.node? q = none ∨ t.isDirectoryAt q = true) ∨
      t.isDirectoryAt q = false ∧ (t.clear q).base = t.base ∧ (t.clear q).node? q = none ∧
        ∀ r, r ≠ q → (t.clear q).node? r = t.node? r := by
  cases hn : t.node? q with
  | none => exact .inl ⟨clear_of_absent hn, .inl rfl⟩
  | some node =>
    by_cases hd : node = .directory
    · subst hd
      exact .inl ⟨by rw [clear, hn], .inr (by rw [isDirectoryAt, hn])⟩
    · have free : t.isDirectoryAt q = false := by
        rw [isDirectoryAt, hn]
        cases node with
        | directory => exact absurd rfl hd
        | data bytes => rfl
        | database db => rfl
      have removed : t.clear q = { t with nodes := t.nodes.erase q } := by
        rw [clear, hn]
        cases node with
        | directory => exact absurd rfl hd
        | data bytes => rfl
        | database db => rfl
      have hq := ne_nil_of_not_directory free
      rw [removed]
      refine .inr ⟨free, rfl, by simp [node?, hq], fun r hr => ?_⟩
      by_cases root : r = []
      · rw [node?, node?, if_pos root, if_pos root]
      · simp [node?, root, Std.ExtTreeMap.getElem?_erase, Ne.symm hr]

theorem node?_clear_of_ne (h : r ≠ q) : (t.clear q).node? r = t.node? r := by
  obtain ⟨same, -⟩ | ⟨-, -, -, others⟩ := clear_cases t q
  · rw [same]
  · exact others r h

theorem node?_clear_self (free : t.isDirectoryAt q = false) : (t.clear q).node? q = none := by
  obtain ⟨same, absent | directory⟩ | ⟨-, -, gone, -⟩ := clear_cases t q
  · rw [same, absent]
  · rw [free] at directory
    cases directory
  · exact gone

theorem node?_clear (t : FileTree) (q r : List String) :
    (t.clear q).node? r = t.node? r ∨ (t.clear q).node? r = none := by
  by_cases hr : r = q
  · subst hr
    obtain ⟨same, -⟩ | ⟨-, -, gone, -⟩ := clear_cases t r
    · exact .inl (by rw [same])
    · exact .inr gone
  · exact .inl (node?_clear_of_ne hr)

theorem node?_clear_of_absent (h : t.node? r = none) : (t.clear q).node? r = none := by
  by_cases hr : r = q
  · subst hr
    rw [clear_of_absent h, h]
  · rw [node?_clear_of_ne hr, h]

theorem sameDirectories_clear (t : FileTree) (q : List String) : t.SameDirectories (t.clear q) := by
  obtain ⟨same, -⟩ | ⟨free, base, gone, others⟩ := clear_cases t q
  · rw [same]
    exact ⟨rfl, fun _ => rfl⟩
  · refine ⟨base, fun r => ?_⟩
    by_cases hr : r = q
    · rw [hr, free, isDirectoryAt, gone]
    · rw [isDirectoryAt, others r hr, isDirectoryAt]

theorem changedAround_clear (t : FileTree) (belongs : Belongs place q) :
    ChangedAround place t (t.clear q) := by
  refine ⟨sameDirectories_clear t q, fun r hr => node?_clear_of_ne ?_⟩
  rintro rfl
  exact hr belongs

theorem changedAround_dropLog (t : FileTree) (place : List String) :
    ChangedAround place t (t.dropLog place) :=
  (changedAround_clear t (belongs_side .log place)).trans
    (changedAround_clear _ (belongs_side .memory place))

theorem node?_clear_side (t : FileTree) (side : SideFile) (place : List String) :
    (t.clear (side.place place)).node? place = t.node? place :=
  node?_clear_of_ne (side.place_ne place).symm

theorem node?_dropLog_place (t : FileTree) (place : List String) :
    (t.dropLog place).node? place = t.node? place := by
  rw [dropLog, node?_clear_side, node?_clear_side]

/-- What a vain attempt to open a file leaves: others beside it may be gone, and where it was not there
is an empty one at most. -/
structure Left (place : List String) (t u : FileTree) : Prop where
  around : ChangedAround place t u
  here : u.node? place = t.node? place ∨ t.node? place = none ∧ u.node? place = some (.data [])
  beside : ∀ q, q ≠ place → u.node? q = t.node? q ∨ u.node? q = none

theorem Left.refl (place : List String) (t : FileTree) : Left place t t :=
  ⟨.refl place t, .inl rfl, fun _ _ => .inl rfl⟩

theorem Left.clear (h : Left place t u) (side : SideFile) : Left place t (u.clear (side.place place)) := by
  refine ⟨h.around.trans (changedAround_clear u (belongs_side side place)), ?_, fun q hq => ?_⟩
  · rw [node?_clear_side]
    exact h.here
  · obtain same | gone := node?_clear u (side.place place) q
    · rw [same]
      exact h.beside q hq
    · exact .inr gone

theorem Left.dropLog (h : Left place t u) : Left place t (u.dropLog place) := (h.clear .log).clear .memory

theorem Left.touch (h : Left place t u) (free : t.isDirectoryAt place = false) :
    Left place t (u.touch place) := by
  have free' : u.isDirectoryAt place = false := by rw [h.around.same.directories, free]
  cases hn : u.node? place with
  | some node =>
    have same : u.touch place = u := by rw [FileTree.touch, hn]
    rw [same]
    exact h
  | none =>
    have put : u.touch place = u.put place (.data []) := by rw [FileTree.touch, hn]
    rw [put]
    refine ⟨h.around.trans (changedAround_put free' (by simp) (belongs_self place)), .inr ⟨?_, ?_⟩,
      fun q hq => ?_⟩
    · obtain same | ⟨absent, empty⟩ := h.here
      · rw [← same, hn]
      · exact absent
    · exact node?_put_self (ne_nil_of_not_directory free')
    · rw [node?_put_of_ne (Ne.symm hq)]
      exact h.beside q hq

/-! ### Looking beside a file -/

/-- There is no journal that would have to be undone. -/
def Quiet (t : FileTree) (place : List String) : Prop :=
  t.isDirectoryAt (SideFile.journal.place place) = false ∧ t.isHot place = false

theorem quiet_of_absent (h : t.node? (SideFile.journal.place place) = none) : t.Quiet place := by
  refine ⟨?_, ?_⟩
  · rw [isDirectoryAt, h]
  · rw [isHot, bytesAt, h]

theorem quiet_congr (h : u.node? (SideFile.journal.place place) = t.node? (SideFile.journal.place place)) :
    u.Quiet place ↔ t.Quiet place := by
  rw [Quiet, Quiet, isDirectoryAt, isDirectoryAt, isHot, isHot, bytesAt, bytesAt, h]

theorem Quiet.clear (h : t.Quiet place) (q : List String) : (t.clear q).Quiet place := by
  by_cases hq : SideFile.journal.place place = q
  · subst hq
    exact quiet_of_absent (node?_clear_self h.1)
  · exact (quiet_congr (node?_clear_of_ne hq)).mpr h

/-- Nothing beside a database awaits its next opening. -/
structure Settled (t : FileTree) (place : List String) : Prop where
  quiet : t.Quiet place
  named : isName (place.getLastD "" ++ SideFile.log.suffix) = true
  log : t.node? (SideFile.log.place place) = none
  memory : t.node? (SideFile.memory.place place) = none

theorem Settled.put (h : t.Settled place) (node : Node) : (t.put place node).Settled place := by
  have beside (side : SideFile) :
      (t.put place node).node? (side.place place) = t.node? (side.place place) :=
    node?_put_of_ne (side.place_ne place).symm
  exact ⟨(quiet_congr (beside .journal)).mpr h.quiet, h.named, (beside .log).trans h.log,
    (beside .memory).trans h.memory⟩

theorem look_left (t : FileTree) (place : List String) :
    Left place t (t.look place).1 ∧ (t.look place).1.node? place = t.node? place ∧
      ((t.look place).2 = true → (t.look place).1.Quiet place ∧
        (t.look place).1.admits .log place = true) := by
  unfold look
  cases directory : t.isDirectoryAt (SideFile.journal.place place) with
  | true => exact ⟨.refl place t, rfl, nofun⟩
  | false =>
    cases hot : t.isHot place with
    | false =>
      refine ⟨.refl place t, rfl, fun ok => ⟨⟨directory, hot⟩, ?_⟩⟩
      exact (Bool.and_eq_true_iff.mp ok).1
    | true =>
      refine ⟨(Left.refl place t).clear .journal, node?_clear_side t _ _,
        fun ok => ⟨quiet_of_absent (node?_clear_self directory), ?_⟩⟩
      exact (Bool.and_eq_true_iff.mp ok).1

/-! ### Opening -/

/-- What is read of a database file; where there is none nothing is. -/
def tablesAt (t : FileTree) (place : List String) : Database := (Connection.file place).database t

theorem tablesAt_of_node (h : t.node? place = some (.database db)) : t.tablesAt place = db := by
  simp only [tablesAt, Connection.database, h]

/-- What comes of opening a database. If it is found its tables are those that it had. -/
inductive Opening (t : FileTree) (p : Path) : Opened × FileTree → Prop where
  | nowhere (absent : t.databasePlace? p = none) : Opening t p (.refused, t)
  | refused {place : List String} {u : FileTree} (at' : t.databasePlace? p = some place)
      (left : Left place t u) : Opening t p (.refused, u)
  | barred {place : List String} {u : FileTree} (at' : t.databasePlace? p = some place)
      (around : ChangedAround place t u) (kept : u.tablesAt place = t.tablesAt place) :
      Opening t p (.barred, u)
  | opened {place : List String} {u : FileTree} (at' : t.databasePlace? p = some place)
      (around : ChangedAround place t u) (node : u.node? place = some (.database (t.tablesAt place)))
      (settled : u.Settled place) : Opening t p (.opened place (t.tablesAt place), u)

theorem databasePlace?_eq_some {q : List String} (h : t.databasePlace? p = some q) :
    p.outside = false ∧ t.takeBack [] p.steps = some q ∧ t.isDirectoryAt q.dropLast = true ∧
      t.isDirectoryAt q = false ∧ t.admitsJournal q = true := by
  unfold databasePlace? at h
  cases ho : p.outside with
  | true => simp [ho] at h
  | false => simpa [ho, Option.filter_eq_some_iff, and_assoc] using h

theorem place_ne_nil {q : List String} (h : t.databasePlace? p = some q) : q ≠ [] := by
  rintro rfl
  obtain ⟨-, -, -, hdir, -⟩ := databasePlace?_eq_some h
  simp [isDirectoryAt, node?] at hdir

theorem settled_dropLog (quiet : t.Quiet place) (admits : t.admits .log place = true)
    (shared : t.isDirectoryAt (SideFile.memory.place place) = false) : (t.dropLog place).Settled place := by
  obtain ⟨named, file⟩ := Bool.and_eq_true_iff.mp admits
  have log : (t.clear (SideFile.log.place place)).node? (SideFile.log.place place) = none :=
    node?_clear_self (by simpa using file)
  refine ⟨(quiet.clear _).clear _, named, node?_clear_of_absent log, node?_clear_self ?_⟩
  rw [(sameDirectories_clear t _).directories, shared]

theorem join_opening (at' : t.databasePlace? p = some place) (around : ChangedAround place t u)
    (node : u.node? place = some (.database (t.tablesAt place))) (quiet : u.Quiet place)
    (admits : u.admits .log place = true) : Opening t p (u.join place (t.tablesAt place)) := by
  unfold join
  cases shared : u.isDirectoryAt (SideFile.memory.place place) with
  | true =>
    have file : u.isDirectoryAt (SideFile.log.place place) = false := by
      simpa using (Bool.and_eq_true_iff.mp admits).2
    refine .barred at' (around.trans (changedAround_put file (by simp) (belongs_side .log place))) ?_
    have same : (u.put (SideFile.log.place place) (.data [])).node? place = u.node? place :=
      node?_put_of_ne (SideFile.place_ne .log place)
    exact tablesAt_of_node (same.trans node)
  | false =>
    refine .opened at' (around.trans (changedAround_dropLog u place)) ?_
      (settled_dropLog quiet admits shared)
    rw [node?_dropLog_place, node]

theorem isName_of_longer {a b : String} (h : isName (a ++ b) = true) {c : String}
    (shorter : c.utf8ByteSize ≤ b.utf8ByteSize) (hc : c.toList.contains (Char.ofNat 0) = false) :
    isName (a ++ c) = true := by
  unfold isName at h ⊢
  obtain ⟨size, clean⟩ := Bool.and_eq_true_iff.mp h
  refine Bool.and_eq_true_iff.mpr ⟨?_, ?_⟩
  · rw [String.utf8ByteSize_append] at size ⊢
    simp only [decide_eq_true_eq] at size ⊢
    omega
  · simp only [String.toList_append, List.contains_append, Bool.not_or, Bool.and_eq_true_iff] at clean ⊢
    exact ⟨clean.1, by rw [hc]; rfl⟩

theorem makeDatabase_opening (at' : t.databasePlace? p = some place)
    (fresh : t.tablesAt place = .empty) : Opening t p (t.makeDatabase place) := by
  have free := (databasePlace?_eq_some at').2.2.2.1
  have first : ∃ u, (if t.bytesAt (SideFile.log.place place) = [] then t
      else t.clear (SideFile.log.place place)) = u ∧ Left place t u := by
    by_cases filled : t.bytesAt (SideFile.log.place place) = []
    · exact ⟨t, if_pos filled, .refl place t⟩
    · exact ⟨_, if_neg filled, (Left.refl place t).clear .log⟩
  obtain ⟨u, hu, left⟩ := first
  simp only [makeDatabase, hu]
  by_cases named : u.admits .journal place = true
  · rw [if_neg (by simp [named])]
    obtain ⟨name, file⟩ := Bool.and_eq_true_iff.mp named
    by_cases directory : u.isDirectoryAt (SideFile.log.place place) = true
    · rw [if_pos directory]
      by_cases filled : u.bytesAt (SideFile.journal.place place) = []
      · rw [if_pos filled]
        exact .refused at' (left.touch free)
      · rw [if_neg filled]
        exact .refused at' ((left.clear .journal).touch free)
    · rw [if_neg directory]
      obtain ⟨v, hv⟩ : ∃ v, u.clear (SideFile.journal.place place) = v := ⟨_, rfl⟩
      have cleared : ChangedAround place t v := hv ▸ (left.clear .journal).around
      have vfree : v.isDirectoryAt place = false := by rw [cleared.same.directories, free]
      have put : ChangedAround place v (v.put place (.database .empty)) :=
        changedAround_put vfree (by simp) (belongs_self place)
      have node : (v.put place (.database .empty)).node? place =
          some (.database (t.tablesAt place)) := by
        rw [node?_put_self (ne_nil_of_not_directory vfree), fresh]
      have gone : v.node? (SideFile.journal.place place) = none :=
        hv ▸ node?_clear_self (by simpa using file)
      have quiet : (v.put place (.database .empty)).Quiet place := by
        refine quiet_of_absent ?_
        rw [node?_put_of_ne (SideFile.place_ne .journal place).symm, gone]
      have admits : (v.put place (.database .empty)).admits .log place = true := by
        refine Bool.and_eq_true_iff.mpr ⟨isName_of_longer name (by decide) (by decide), ?_⟩
        rw [put.same.directories, cleared.same.directories, ← left.around.same.directories]
        simpa using directory
      have joined := join_opening at' (cleared.trans put) node quiet admits
      rwa [fresh, ← hv] at joined
  · rw [if_pos (by simpa using named)]
    exact .refused at' (left.touch free)

theorem openDatabase_opening (t : FileTree) (p : Path) : Opening t p (t.openDatabase p) := by
  unfold openDatabase
  cases at' : t.databasePlace? p with
  | none => exact .nowhere at'
  | some place =>
    obtain ⟨left, same, looked⟩ := look_left t place
    have made (h : ∀ db, t.node? place ≠ some (.database db)) := makeDatabase_opening at'
      (show t.tablesAt place = .empty by simp only [tablesAt, Connection.database])
    dsimp only
    split
    · exact made (by simp [*])
    · exact made (by simp [*])
    · exact made (by simp [*])
    · exact .refused at' (.refl place t)
    · rename_i db node
      cases hl : t.look place with | mk u ok =>
      rw [hl] at left same looked
      cases ok with
      | false => exact .refused at' left
      | true =>
        obtain ⟨quiet, admits⟩ := looked rfl
        have kept := tablesAt_of_node node
        rw [← kept]
        refine join_opening at' left.around ?_ quiet admits
        rw [kept]
        exact same.trans node
    · cases hl : t.look place with | mk u ok =>
      rw [hl] at left
      cases ok with
      | false => exact .refused at' left
      | true =>
        by_cases filled : u.bytesAt (SideFile.log.place place) = []
        · simp only [if_pos filled]
          exact .refused at' left
        · simp only [if_neg filled]
          exact .refused at' left.dropLog

/-- A database that is settled opens without any change. -/
theorem openDatabase_again (at' : t.databasePlace? p = some place)
    (node : t.node? place = some (.database db)) (settled : t.Settled place) :
    t.openDatabase p = (.opened place db, t) := by
  have empty : t.bytesAt (SideFile.log.place place) = [] := by rw [bytesAt, settled.log]
  have admits : t.admits .log place = true := by
    rw [admits, settled.named, isDirectoryAt, settled.log]
    rfl
  have looked : t.look place = (t, true) := by
    rw [look, if_neg (by simp [settled.quiet.1])]
    simp only [settled.quiet.2, Bool.false_eq_true, if_false, admits, empty, decide_true,
      Bool.true_or, Bool.and_true]
  have shared : t.isDirectoryAt (SideFile.memory.place place) = false := by
    rw [isDirectoryAt, settled.memory]
  have joined : t.join place db = (.opened place db, t) := by
    rw [join, shared, dropLog, clear_of_absent settled.log, clear_of_absent settled.memory]
    rfl
  simp only [openDatabase, at', node, looked, joined]

end FileTree

end Telemetry
