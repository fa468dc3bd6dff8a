import Telemetry.Proofs.Storage.Connections
/-!
What a path leads to while directories are made and files come and go. Paths are followed through
directories only, so a file that is written, moved or removed changes what its own path leads to and
no other; and directories that were made once are there for good.
-/

namespace Telemetry

namespace Path

variable {p : Path} {name : String}

theorem steps_child (h : isStep name = true) : (p.child name).steps = p.steps ++ [name] := by
  simp [steps, child, h]

theorem filter_dropWhile (pieces : List String) :
    (pieces.dropWhile fun s => !isStep s).filter isStep = pieces.filter isStep := by
  induction pieces with
  | nil => rfl
  | cons s pieces ih => cases hs : isStep s <;> simp [hs, ih]

theorem filter_trimmed (pieces : List String) :
    (trimmed pieces).filter isStep = pieces.filter isStep := by
  rw [trimmed, List.filter_reverse, filter_dropWhile, ← List.filter_reverse, List.reverse_reverse]

theorem steps_parent (p : Path) : p.parent.steps = p.steps.dropLast := by
  have last := filter_trimmed p.pieces
  rw [steps, parent, filter_trimmed, steps, ← last, trimmed]
  cases hr : p.pieces.reverse.dropWhile fun s => !isStep s with
  | nil => rfl
  | cons s pieces =>
    have step : isStep s = true := by
      have head := List.head?_dropWhile_not (fun s => !isStep s) p.pieces.reverse
      rw [hr] at head
      simpa using head
    simp [step]

theorem isStep_temporary (name : String) : isStep (name ++ ".tmp") = true ∧ name ++ ".tmp" ≠ ".." := by
  have long : 4 ≤ (name ++ ".tmp").length := by
    rw [String.length_append]
    exact Nat.le_add_left 4 _
  have other (s : String) (hs : s.length < 4) : name ++ ".tmp" ≠ s := by
    rintro rfl
    omega
  exact ⟨by simp [isStep, other "" (by decide), other "." (by decide)], other ".." (by decide)⟩

end Path

namespace FileTree

open Telemetry.Path

variable {t u : FileTree} {p : Path} {place : List String} {node : Node} {bytes : Bytes}

/-- Directories stand at the same places. -/
structure SameDirectories (t u : FileTree) : Prop where
  base : u.base = t.base
  directories : ∀ place, u.isDirectoryAt place = t.isDirectoryAt place

theorem SameDirectories.trans {v : FileTree} (h : SameDirectories t u) (k : SameDirectories u v) :
    SameDirectories t v :=
  ⟨k.base.trans h.base, fun place => (k.directories place).trans (h.directories place)⟩

theorem SameDirectories.follow (h : SameDirectories t u) (here steps : List String) :
    u.follow here steps = t.follow here steps := by
  induction steps generalizing here with
  | nil => rfl
  | cons step rest ih => simp only [FileTree.follow, h.directories, ih]

theorem SameDirectories.locate (h : SameDirectories t u) (p : Path) : u.locate p = t.locate p := by
  rw [FileTree.locate, FileTree.locate, h.follow]

theorem SameDirectories.filePlace? (h : SameDirectories t u) (p : Path) :
    u.filePlace? p = t.filePlace? p := by
  simp only [FileTree.filePlace?, h.locate, h.directories]

theorem filePlace?_eq_some (h : t.filePlace? p = some place) :
    p.closed = false ∧ t.locate p = some place ∧ t.isDirectoryAt place = false := by
  unfold filePlace? at h
  split at h
  · cases h
  · rename_i hc
    obtain ⟨hl, hd⟩ := Option.filter_eq_some_iff.mp h
    exact ⟨by simpa using hc, hl, by simpa using hd⟩

theorem ne_nil_of_not_directory (h : t.isDirectoryAt place = false) : place ≠ [] := by
  rintro rfl
  simp [isDirectoryAt, node?] at h

theorem sameDirectories_put_node (h : t.isDirectoryAt place = false) (hn : node ≠ .directory) :
    SameDirectories t (t.put place node) := by
  refine ⟨rfl, fun q => ?_⟩
  by_cases hq : q = place
  · subst hq
    rw [h, isDirectoryAt, node?_put_self (ne_nil_of_not_directory h)]
    cases node with
    | directory => exact absurd rfl hn
    | data bytes => rfl
    | database db => rfl
  · rw [isDirectoryAt, node?_put_of_ne (Ne.symm hq), isDirectoryAt]

theorem sameDirectories_put (h : t.isDirectoryAt place = false) (bytes : Bytes) :
    SameDirectories t (t.put place (.data bytes)) := sameDirectories_put_node h (by simp)

theorem write?_eq_some (h : t.write? p bytes = some u) :
    ∃ place, t.filePlace? p = some place ∧ u = t.put place (.data bytes) ∧ SameDirectories t u := by
  obtain ⟨place, hp, rfl⟩ := Option.map_eq_some_iff.mp h
  exact ⟨place, hp, rfl, sameDirectories_put (filePlace?_eq_some hp).2.2 bytes⟩

theorem rename?_eq_some {source target : Path} (h : t.rename? source target = some u)
    {place : List String} (hs : t.filePlace? source = some place)
    (hn : t.node? place = some (.data bytes)) :
    SameDirectories t u ∧ u.read? target = some bytes := by
  obtain ⟨a, ha, h⟩ := Option.bind_eq_some_iff.mp h
  obtain ⟨b, hb, h⟩ := Option.bind_eq_some_iff.mp h
  obtain ⟨node, hnode, h⟩ := Option.bind_eq_some_iff.mp h
  obtain rfl : place = a := Option.some.inj (hs.symm.trans ha)
  obtain rfl : .data bytes = node := Option.some.inj (hn.symm.trans hnode)
  obtain rfl := Option.some.inj h
  obtain ⟨closed, located, notDirectory⟩ := filePlace?_eq_some hb
  have fromHere := (filePlace?_eq_some ha).2.2
  have here := ne_nil_of_not_directory fromHere
  have there := ne_nil_of_not_directory notDirectory
  have same : SameDirectories t { t with nodes := (t.nodes.erase place).insert b (.data bytes) } := by
    refine ⟨rfl, fun q => ?_⟩
    by_cases hq : q = b
    · subst hq
      rw [notDirectory]
      simp [isDirectoryAt, node?, there]
    · by_cases hp : q = place
      · subst hp
        rw [fromHere]
        simp [isDirectoryAt, node?, here, Ne.symm hq]
      · simp [isDirectoryAt, node?, Std.ExtTreeMap.getElem?_insert, Std.ExtTreeMap.getElem?_erase,
          Ne.symm hq, Ne.symm hp]
  refine ⟨same, ?_⟩
  have found : FileTree.find? { t with nodes := (t.nodes.erase place).insert b (.data bytes) } target =
      some (.data bytes) := by
    simp [find?, same.locate, located, node?, there, closed]
  rw [read?, found]

theorem makeDirectories_base (t : FileTree) (here steps : List String) :
    (t.makeDirectories here steps).1.base = t.base := by
  induction steps generalizing t here with
  | nil => rfl
  | cons step rest ih =>
    unfold makeDirectories
    split
    · split
      · rfl
      · exact ih t here.dropLast
    · split
      · rfl
      · dsimp only
        split
        · exact ih t _
        · rfl
        · exact ih _ _

theorem makeParents_base (t : FileTree) (p : Path) : (t.makeParents p).1.base = t.base := by
  unfold makeParents
  split
  · rfl
  · exact makeDirectories_base t [] _

theorem follow_append (here steps more : List String) :
    t.follow here (steps ++ more) = (t.follow here steps).bind fun there => t.follow there more := by
  induction steps generalizing here with
  | nil => rfl
  | cons step rest ih =>
    simp only [List.cons_append, follow, ih]
    split
    · rfl
    split
    · split <;> rfl
    · split <;> rfl

theorem follow_last {here steps : List String} {step : String} (hs : step ≠ "..")
    (h : t.follow here (steps ++ [step]) = some place) :
    ∃ there, t.follow here steps = some there ∧ place = there ++ [step] := by
  rw [follow_append] at h
  obtain ⟨there, found, h⟩ := Option.bind_eq_some_iff.mp h
  refine ⟨there, found, ?_⟩
  unfold follow at h
  rw [if_neg hs] at h
  split at h
  · cases h
  split at h
  · exact (Option.some.inj h).symm
  · cases h

theorem locate_eq_some (h : t.locate p = some place) : t.follow [] p.steps = some place := by
  unfold locate at h
  split at h
  · cases h
  · exact h

theorem locate_temporary_ne {a b : List String} (ha : t.locate p.temporary = some a)
    (hb : t.locate p = some b) : a ≠ b := by
  have ha := locate_eq_some ha
  have hb := locate_eq_some hb
  unfold temporary at ha
  cases hn : p.fileName? with
  | none =>
    rw [hn] at ha
    dsimp only at ha
    rw [steps_child (by decide)] at ha
    obtain ⟨there, found, rfl⟩ := follow_last (by decide) ha
    obtain rfl := Option.some.inj (found.symm.trans hb)
    simp
  | some name =>
    obtain ⟨step, notBack⟩ := isStep_temporary name
    rw [hn] at ha
    dsimp only at ha
    rw [steps_child step, steps_parent] at ha
    obtain ⟨there, found, rfl⟩ := follow_last notBack ha
    have last : p.steps.getLast? = some name ∧ name ≠ ".." := by
      unfold fileName? at hn
      split at hn
      · cases hn
      · rename_i other
        exact ⟨hn, fun h => other (h ▸ hn)⟩
    rw [← List.dropLast_append_getLast? name last.1] at hb
    obtain ⟨there', found', rfl⟩ := follow_last last.2 hb
    obtain rfl := Option.some.inj (found.symm.trans found')
    intro same
    simp at same

/-! ### Directories on the way -/

theorem isDirectoryAt_iff : t.isDirectoryAt place = true ↔ t.node? place = some .directory := by
  unfold isDirectoryAt
  split
  · simp [*]
  · simp_all

theorem makeDirectories_node? (here steps : List String) (h : t.node? place = some node) :
    (t.makeDirectories here steps).1.node? place = some node := by
  induction steps generalizing t here with
  | nil => exact h
  | cons step rest ih =>
    unfold makeDirectories
    split
    · split
      · exact h
      · exact ih _ h
    split
    · exact h
    dsimp only
    split
    · exact ih _ h
    · exact h
    · rename_i free
      refine ih _ ?_
      rw [node?_put_of_ne]
      · exact h
      · rintro rfl
        rw [free] at h
        cases h

theorem makeDirectories_again {here steps : List String}
    (hu : ∀ place node, (t.makeDirectories here steps).1.node? place = some node →
      u.node? place = some node) :
    u.makeDirectories here steps = (u, (t.makeDirectories here steps).2) := by
  induction steps generalizing t here with
  | nil => rfl
  | cons step rest ih =>
    unfold makeDirectories at hu ⊢
    split
    · rename_i back
      rw [if_pos back] at hu
      split
      · rfl
      · rename_i inside
        rw [if_neg inside] at hu
        exact ih hu
    rename_i forward
    rw [if_neg forward] at hu
    split
    · rfl
    rename_i named
    rw [if_neg named] at hu
    dsimp only at hu ⊢
    cases hn : t.node? (here ++ [step]) with
    | none =>
      -- `t` made this directory, so `u` has it.
      rw [hn] at hu
      have made : u.node? (here ++ [step]) = some .directory :=
        hu _ _ (makeDirectories_node? _ _ (node?_put_self (by simp)))
      rw [made]
      exact ih hu
    | some node =>
      rw [hn] at hu
      cases node with
      | directory =>
        rw [hu _ _ (makeDirectories_node? _ _ hn)]
        exact ih hu
      | data bytes => rw [hu _ _ hn]
      | database db => rw [hu _ _ hn]

/-- The directories that lead to a path are there. -/
def Ready (t : FileTree) (p : Path) : Prop := t.makeParents p = (t, true)

/-- What a path leads to once the directories on the way are made. -/
def reach? (t : FileTree) (p : Path) : Option Node := (t.makeParents p).1.find? p

theorem Ready.reach? (h : t.Ready p) : t.reach? p = t.find? p := by
  rw [FileTree.reach?, h]

theorem makeParents_again (t : FileTree) (p : Path) :
    (t.makeParents p).1.makeParents p = ((t.makeParents p).1, (t.makeParents p).2) := by
  unfold makeParents
  split
  · rfl
  · exact makeDirectories_again fun _ _ h => h

theorem reach?_makeParents (t : FileTree) (p : Path) : (t.makeParents p).1.reach? p = t.reach? p := by
  rw [reach?, makeParents_again, reach?]

theorem Ready.of_sameDirectories (h : t.Ready p) (same : SameDirectories t u) : u.Ready p := by
  have walk (here steps : List String) (ht : t.makeDirectories here steps = (t, true)) :
      u.makeDirectories here steps = (u, true) := by
    induction steps generalizing here with
    | nil => rfl
    | cons step rest ih =>
      unfold makeDirectories at ht ⊢
      split
      · rename_i back
        rw [if_pos back] at ht
        split
        · rename_i top
          rw [if_pos top] at ht
          cases ht
        · rename_i inside
          rw [if_neg inside] at ht
          exact ih _ ht
      rename_i forward
      rw [if_neg forward] at ht
      split
      · rename_i unnamed
        rw [if_pos unnamed] at ht
        cases ht
      rename_i named
      rw [if_neg named] at ht
      dsimp only at ht ⊢
      cases hn : t.node? (here ++ [step]) with
      | none =>
        -- The directory would have been made, but `t` stayed as it is.
        have made := makeDirectories_node? (t := t.put (here ++ [step]) .directory)
          (here ++ [step]) rest (node?_put_self (by simp))
        rw [hn] at ht
        dsimp only at ht
        rw [ht, hn] at made
        cases made
      | some node =>
        rw [hn] at ht
        cases node with
        | directory =>
          have there := isDirectoryAt_iff.mpr hn
          rw [← same.directories] at there
          rw [isDirectoryAt_iff.mp there]
          exact ih _ ht
        | data bytes => cases ht
        | database db => cases ht
  unfold Ready makeParents at h ⊢
  split at h
  · cases h
  · rw [if_neg ‹_›]
    exact walk _ _ h

theorem SameDirectories.find? (same : SameDirectories t u)
    (h : ∀ place, t.locate p = some place → u.node? place = t.node? place) : u.find? p = t.find? p := by
  rw [FileTree.find?, FileTree.find?, same.locate]
  cases hl : t.locate p with
  | none => rfl
  | some place =>
    show (u.node? place).bind _ = (t.node? place).bind _
    rw [h place hl]

theorem sameDirectories_removeFile (t : FileTree) (p : Path) : SameDirectories t (t.removeFile p) := by
  unfold removeFile
  split
  · rename_i place hp
    obtain ⟨-, -, notDirectory⟩ := filePlace?_eq_some hp
    have here := ne_nil_of_not_directory notDirectory
    refine ⟨rfl, fun q => ?_⟩
    by_cases hq : q = place
    · subst hq
      rw [notDirectory]
      simp [isDirectoryAt, node?, here]
    · simp [isDirectoryAt, node?, Std.ExtTreeMap.getElem?_erase, Ne.symm hq]
  · exact ⟨rfl, fun _ => rfl⟩

/-- A path leads to the same in a later tree, through the same directories or more. -/
structure Keeps (p : Path) (t u : FileTree) : Prop where
  base : u.base = t.base
  reach : u.reach? p = t.reach? p
  ready : t.Ready p → u.Ready p

theorem Keeps.refl (p : Path) (t : FileTree) : Keeps p t t := ⟨rfl, rfl, id⟩

theorem Keeps.trans {v : FileTree} (h : Keeps p t u) (k : Keeps p u v) : Keeps p t v :=
  ⟨k.base.trans h.base, k.reach.trans h.reach, fun ready => k.ready (h.ready ready)⟩

theorem Keeps.read? (h : Keeps p t u) (ready : t.Ready p) : u.read? p = t.read? p := by
  have same := h.reach
  rw [ready.reach?, (h.ready ready).reach?] at same
  rw [FileTree.read?, FileTree.read?, same]

theorem keeps_makeParents (t : FileTree) (p : Path) : Keeps p t (t.makeParents p).1 := by
  refine ⟨makeParents_base t p, reach?_makeParents t p, fun ready => ?_⟩
  have same : (t.makeParents p).1 = t := congrArg Prod.fst ready
  rw [same]
  exact ready

/-- A file that is not the one the path leads to may change. -/
theorem Ready.keeps (ready : t.Ready p) (same : SameDirectories t u)
    (h : ∀ place, t.locate p = some place → u.node? place = t.node? place) : Keeps p t u := by
  have ready' := ready.of_sameDirectories same
  exact ⟨same.base, by rw [ready'.reach?, ready.reach?, same.find? h], fun _ => ready'⟩

theorem Ready.keeps_write {bytes : Bytes} (ready : t.Ready p)
    (h : t.write? p.temporary bytes = some u) : Keeps p t u := by
  obtain ⟨a, ha, rfl, same⟩ := write?_eq_some h
  refine ready.keeps same fun b hb => ?_
  exact node?_put_of_ne (locate_temporary_ne (filePlace?_eq_some ha).2.1 hb)

theorem Ready.keeps_rewrite {bytes : Bytes} (ready : t.Ready p) :
    Keeps p t ((t.write? p.temporary bytes).getD t) := by
  cases h : t.write? p.temporary bytes with
  | none => exact .refl p t
  | some u => exact ready.keeps_write h

theorem Ready.keeps_removeFile (ready : t.Ready p) : Keeps p t (t.removeFile p.temporary) := by
  refine ready.keeps (sameDirectories_removeFile t _) fun b hb => ?_
  unfold removeFile
  split
  · rename_i a ha
    have other := locate_temporary_ne (filePlace?_eq_some ha).2.1 hb
    simp [node?, Std.ExtTreeMap.getElem?_erase, other]
  · rfl

end FileTree

end Telemetry
