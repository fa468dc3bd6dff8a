import Telemetry.Proofs.Storage.WriteTraces
/-!
Writing a file is atomic, whichever step fails and wherever everything stops: the path of the file
leads to what was there before or to the new bytes. Beside that file only the temporary file and
directories on the way are touched. A path may lead through its own end, as "a/b/../b" does; then the
directory that is made on the way stands where the file should be.
-/

namespace Telemetry

namespace FileTree

open Telemetry.Path

variable {t u v : FileTree} {p : Path} {place here steps : List String}

/-! ### Directories that are made on the way -/

def Standing (t : FileTree) (here : List String) : Prop :=
  ∀ place, place <+: here → t.isDirectoryAt place = true

structure Made (here steps : List String) (t u : FileTree) (place : List String) : Prop where
  absent : t.node? place = none
  directory : u.node? place = some .directory
  passed : ∃ n, u.follow here (steps.take n) = some place

/-- What was there stays, and what is new was made on the way. -/
structure Paved (here steps : List String) (t u : FileTree) : Prop where
  base : u.base = t.base
  kept : ∀ place node, t.node? place = some node → u.node? place = some node
  made : ∀ place, u.node? place = t.node? place ∨ Made here steps t u place

theorem standing_root (t : FileTree) : t.Standing [] := by
  intro place hp
  rw [List.prefix_nil.mp hp]
  rfl

theorem Standing.self (h : t.Standing here) : t.isDirectoryAt here = true := h here List.prefix_rfl

theorem Standing.dropLast (h : t.Standing here) : t.Standing here.dropLast :=
  fun place hp => h place (hp.trans here.dropLast_prefix)

theorem Standing.child {step : String} (h : t.Standing here)
    (hd : t.node? (here ++ [step]) = some .directory) : t.Standing (here ++ [step]) := by
  intro place hp
  rcases List.prefix_concat_iff.mp hp with rfl | hp
  · exact isDirectoryAt_iff.mpr hd
  · exact h place hp

theorem Standing.mono (h : t.Standing here)
    (kept : ∀ place node, t.node? place = some node → u.node? place = some node) :
    u.Standing here :=
  fun place hp => isDirectoryAt_iff.mpr (kept place _ (isDirectoryAt_iff.mp (h place hp)))

theorem Paved.refl (here steps : List String) (t : FileTree) : Paved here steps t t :=
  ⟨rfl, fun _ _ h => h, fun _ => .inl rfl⟩

/-- More directories lead no path elsewhere. -/
theorem follow_mono (kept : ∀ place, t.isDirectoryAt place = true → u.isDirectoryAt place = true)
    (h : t.follow here steps = some place) : u.follow here steps = some place := by
  induction steps generalizing here with
  | nil => exact h
  | cons step rest ih =>
    unfold follow at h ⊢
    cases hd : t.isDirectoryAt here with
    | false =>
      rw [hd] at h
      cases h
    | true =>
      rw [hd] at h
      rw [kept here hd]
      simp only [Bool.not_true, Bool.false_eq_true, if_false] at h ⊢
      by_cases back : step = ".."
      · rw [if_pos back] at h ⊢
        by_cases top : here = []
        · rw [if_pos top] at h
          cases h
        · rw [if_neg top] at h ⊢
          exact ih h
      · rw [if_neg back] at h ⊢
        by_cases named : isName step = true
        · rw [if_pos named] at h ⊢
          exact ih h
        · rw [if_neg named] at h
          cases h

theorem Paved.directories (h : Paved here steps t u) (place : List String)
    (hd : t.isDirectoryAt place = true) : u.isDirectoryAt place = true :=
  isDirectoryAt_iff.mpr (h.kept place _ (isDirectoryAt_iff.mp hd))

theorem paved_makeDirectories (t : FileTree) (here steps : List String) (standing : t.Standing here) :
    Paved here steps t (t.makeDirectories here steps).1 := by
  refine ⟨makeDirectories_base t here steps, fun _ _ => makeDirectories_node? here steps, ?_⟩
  induction steps generalizing t here with
  | nil => exact fun _ => .inl rfl
  | cons step rest ih =>
    intro place
    -- What is passed from the next place on is passed from here on.
    have onward {v : FileTree} {there : List String}
        (first : ∀ n, v.follow here (step :: rest.take n) = v.follow there (rest.take n))
        (passed : ∃ n, v.follow there (rest.take n) = some place) :
        ∃ n, v.follow here ((step :: rest).take n) = some place := by
      obtain ⟨n, hn⟩ := passed
      exact ⟨n + 1, (first n).trans hn⟩
    unfold makeDirectories
    by_cases back : step = ".."
    · rw [if_pos back]
      by_cases top : here = []
      · rw [if_pos top]
        exact .inl rfl
      · rw [if_neg top]
        refine (ih t here.dropLast standing.dropLast place).imp_right fun h => ?_
        have still := standing.mono fun _ _ => makeDirectories_node? here.dropLast rest
        refine ⟨h.absent, h.directory, onward (fun n => ?_) h.passed⟩
        rw [follow, still.self, if_pos back, if_neg top]
        rfl
    rw [if_neg back]
    cases named : isName step with
    | false => exact .inl rfl
    | true =>
      simp only [Bool.not_true, Bool.false_eq_true, if_false]
      have advance {v : FileTree} (still : v.Standing here) (n : Nat) :
          v.follow here (step :: rest.take n) = v.follow (here ++ [step]) (rest.take n) := by
        rw [follow, still.self, if_neg back, if_pos named]
        rfl
      cases hn : t.node? (here ++ [step]) with
      | none =>
        have put := @node?_put_self t (here ++ [step]) .directory (by simp)
        have before (q : List String) (node : Node) (hq : t.node? q = some node) :
            (t.put (here ++ [step]) .directory).node? q = some node := by
          rw [node?_put_of_ne, hq]
          rintro rfl
          rw [hn] at hq
          cases hq
        have standing' := (standing.mono before).child put
        have still := standing.mono fun q node hq =>
          makeDirectories_node? (here ++ [step]) rest (before q node hq)
        by_cases self : place = here ++ [step]
        · subst self
          refine .inr ⟨hn, makeDirectories_node? _ _ put, 1, ?_⟩
          exact advance still 0
        · have same := @node?_put_of_ne t (here ++ [step]) .directory place (Ne.symm self)
          rcases ih _ _ standing' place with h | h
          · exact .inl (h.trans same)
          · exact .inr ⟨same ▸ h.absent, h.directory, onward (advance still) h.passed⟩
      | some node =>
        cases node with
        | directory =>
          have standing' := standing.child hn
          have still := standing.mono fun _ _ => makeDirectories_node? (here ++ [step]) rest
          refine (ih t _ standing' place).imp_right fun h => ?_
          exact ⟨h.absent, h.directory, onward (advance still) h.passed⟩
        | data bytes => exact .inl rfl
        | database db => exact .inl rfl

/-- The first of the directories that lead to a path are made, and then everything stops. -/
def makeSome (t : FileTree) (p : Path) (count : Nat) : FileTree :=
  if p.outside || !p.parent.isValid then t else (t.makeDirectories [] (p.parent.steps.take count)).1

theorem paved_makeSome (t : FileTree) (p : Path) (count : Nat) :
    Paved [] p.steps.dropLast t (t.makeSome p count) := by
  unfold makeSome
  rw [steps_parent]
  split
  · exact .refl _ _ t
  · have first := paved_makeDirectories t [] (p.steps.dropLast.take count) t.standing_root
    refine ⟨first.base, first.kept, fun place => (first.made place).imp_right fun h => ?_⟩
    obtain ⟨n, hn⟩ := h.passed
    rw [List.take_take] at hn
    exact ⟨h.absent, h.directory, min n count, hn⟩

theorem paved_makeParents (t : FileTree) (p : Path) :
    Paved [] p.steps.dropLast t (t.makeParents p).1 := by
  have all := paved_makeSome t p p.parent.steps.length
  rw [makeSome, List.take_length] at all
  unfold makeParents
  split
  · exact .refl _ _ t
  · rwa [if_neg ‹_›] at all

/-! ### What a write may touch -/

/-- The path leads where it led, and what is there is the same. Where it led nowhere, for want of
directories, it may lead to a place by now; what is there is the same, or the path leads through its
own end and the directory there was made on the way. -/
structure Untouched (p : Path) (t u : FileTree) : Prop where
  located : ∀ place, t.locate p = some place →
    u.locate p = some place ∧ u.node? place = t.node? place
  opened : t.locate p = none → ∀ place, u.locate p = some place →
    u.node? place = t.node? place ∨ (".." ∈ p.steps ∧ Made [] p.steps.dropLast t u place)

/-- Nothing but the file, the temporary file and the directories on the way is touched. -/
def Spares (p : Path) (t u : FileTree) : Prop :=
  ∀ place, u.node? place = t.node? place ∨ u.locate p = some place ∨
    u.locate p.temporary = some place ∨ Made [] p.steps.dropLast t u place

structure Beside (p : Path) (t u : FileTree) : Prop where
  same : SameDirectories t u
  nodes : ∀ place, u.node? place = t.node? place ∨ t.locate p.temporary = some place

theorem follow_forward (forward : ".." ∉ steps) (h : t.follow here steps = some place) :
    place = here ++ steps := by
  induction steps generalizing here with
  | nil => simpa using (Option.some.inj h).symm
  | cons step rest ih =>
    obtain ⟨ne, forward⟩ := not_or.mp (mt List.mem_cons.mpr forward)
    unfold follow at h
    rw [if_neg (Ne.symm ne)] at h
    split at h
    · cases h
    split at h
    · simpa using ih forward h
    · cases h

theorem Made.steps_back (h : Made [] p.steps.dropLast t u place)
    (hl : u.locate p = some place) : ".." ∈ p.steps := by
  by_contra forward
  obtain ⟨n, passed⟩ := h.passed
  have whole := follow_forward forward (locate_eq_some hl)
  have before : ".." ∉ p.steps.dropLast.take n := fun hm =>
    forward (List.dropLast_subset _ (List.mem_of_mem_take hm))
  have part := follow_forward before passed
  rw [List.nil_append] at whole part
  have length := congrArg List.length (whole.symm.trans part)
  rw [List.length_take, List.length_dropLast] at length
  have top : p.steps = [] := List.length_eq_zero_iff.mp (by omega)
  have absent := h.absent
  rw [whole, top] at absent
  cases absent

theorem Made.not_located (h : Made [] p.steps.dropLast t u place)
    (directories : ∀ place, t.isDirectoryAt place = true → u.isDirectoryAt place = true)
    {there : List String} (hl : t.locate p = some there) : p.steps = [] := by
  obtain ⟨n, passed⟩ := h.passed
  by_contra filled
  obtain ⟨more, split⟩ := (List.take_prefix n _).trans p.steps.dropLast_prefix
  have some_more : more ≠ [] := by
    rintro rfl
    have length := congrArg List.length split
    have pos := List.length_pos_of_ne_nil filled
    rw [List.append_nil, List.length_take, List.length_dropLast] at length
    omega
  have whole := locate_eq_some hl
  rw [← split, follow_append] at whole
  obtain ⟨q, first, rest⟩ := Option.bind_eq_some_iff.mp whole
  obtain rfl : q = place := Option.some.inj ((follow_mono directories first).symm.trans passed)
  obtain ⟨step, more, rfl⟩ := List.exists_cons_of_ne_nil some_more
  have directory : t.isDirectoryAt q = true := by
    by_contra absent
    simp [follow, absent] at rest
  rw [isDirectoryAt_iff, h.absent] at directory
  cases directory

theorem Paved.untouched (h : Paved [] p.steps.dropLast t u) : Untouched p t u := by
  constructor
  · intro place hl
    have still : u.locate p = some place := by
      unfold locate at hl ⊢
      split at hl
      · cases hl
      · rw [if_neg ‹_›]
        exact follow_mono h.directories hl
    refine ⟨still, (h.made place).resolve_right fun made => ?_⟩
    have top := made.not_located h.directories hl
    have back := made.steps_back still
    rw [top] at back
    cases back
  · intro _ place hl
    exact (h.made place).imp_right fun made => ⟨made.steps_back hl, made⟩

theorem Made.later (h : Made here steps t u place) (same : SameDirectories u v)
    (hv : v.node? place = u.node? place) : Made here steps t v place := by
  obtain ⟨n, passed⟩ := h.passed
  exact ⟨h.absent, hv.trans h.directory, n, (same.follow _ _).trans passed⟩

theorem Beside.refl (p : Path) (t : FileTree) : Beside p t t :=
  ⟨⟨rfl, fun _ => rfl⟩, fun _ => .inl rfl⟩

theorem Beside.trans (h : Beside p t u) (k : Beside p u v) : Beside p t v := by
  refine ⟨h.same.trans k.same, fun place => ?_⟩
  rcases k.nodes place with hv | hv
  · exact (h.nodes place).imp_left hv.trans
  · exact .inr (h.same.locate _ ▸ hv)

theorem beside_write {bytes : Bytes} (h : t.write? p.temporary bytes = some u) : Beside p t u := by
  obtain ⟨a, ha, rfl, same⟩ := write?_eq_some h
  refine ⟨same, fun place => ?_⟩
  by_cases hp : a = place
  · exact .inr (hp ▸ (filePlace?_eq_some ha).2.1)
  · exact .inl (node?_put_of_ne hp)

theorem beside_rewrite (bytes : Bytes) : Beside p t ((t.write? p.temporary bytes).getD t) := by
  cases h : t.write? p.temporary bytes with
  | none => exact .refl p t
  | some u => exact beside_write h

theorem node?_removeFile (hf : t.filePlace? p = some place) (other : List String) :
    (t.removeFile p).node? other = if other = place then none else t.node? other := by
  have here := ne_nil_of_not_directory (filePlace?_eq_some hf).2.2
  rw [removeFile, hf]
  by_cases ho : other = place
  · subst ho
    simp [node?, here]
  · simp [node?, ho, Std.ExtTreeMap.getElem?_erase, Ne.symm ho]

theorem beside_removeFile : Beside p t (t.removeFile p.temporary) := by
  refine ⟨sameDirectories_removeFile t _, fun place => ?_⟩
  cases hf : t.filePlace? p.temporary with
  | none => exact .inl (by rw [removeFile, hf])
  | some a =>
    rw [node?_removeFile hf]
    by_cases hp : place = a
    · exact .inr (hp ▸ (filePlace?_eq_some hf).2.1)
    · exact .inl (if_neg hp)

theorem Untouched.beside (h : Untouched p t u) (k : Beside p u v) : Untouched p t v := by
  have kept (place : List String) (hl : u.locate p = some place) : v.node? place = u.node? place :=
    (k.nodes place).resolve_right fun ht => locate_temporary_ne ht hl rfl
  constructor
  · intro place hl
    obtain ⟨still, same⟩ := h.located place hl
    exact ⟨(k.same.locate p).trans still, (kept place still).trans same⟩
  · intro lost place hl
    rw [k.same.locate] at hl
    rcases h.opened lost place hl with same | ⟨back, made⟩
    · exact .inl ((kept place hl).trans same)
    · exact .inr ⟨back, made.later k.same (kept place hl)⟩

theorem Paved.spares (h : Paved [] p.steps.dropLast t u) (k : Beside p u v) : Spares p t v := by
  intro place
  rcases k.nodes place with hv | hv
  · rcases h.made place with hu | made
    · exact .inl (hv.trans hu)
    · exact .inr (.inr (.inr (made.later k.same hv)))
  · exact .inr (.inr (.inl ((k.same.locate _).trans hv)))

theorem closed_temporary (p : Path) : p.temporary.closed = false := by
  unfold temporary
  split
  · simp [closed, child, (isStep_temporary _).1]
  · simp [closed, child, isStep]

theorem node?_removeTemporary (hl : (t.removeFile p.temporary).locate p.temporary = some place) :
    (t.removeFile p.temporary).node? place = none ∨
      (t.removeFile p.temporary).node? place = some .directory := by
  rw [(sameDirectories_removeFile t p.temporary).locate] at hl
  cases hd : t.isDirectoryAt place with
  | true =>
    rw [← (sameDirectories_removeFile t p.temporary).directories] at hd
    exact .inr (isDirectoryAt_iff.mp hd)
  | false =>
    have file : t.filePlace? p.temporary = some place := by
      simp [filePlace?, closed_temporary, hl, hd]
    exact .inl ((node?_removeFile file place).trans (if_pos rfl))

theorem rename?_nodes {source target : Path} (h : t.rename? source target = some u) :
    ∃ a b node, t.filePlace? source = some a ∧ t.filePlace? target = some b ∧
      t.node? a = some node ∧ u.base = t.base ∧
      ∀ place, u.node? place =
        if place = b then some node else if place = a then none else t.node? place := by
  obtain ⟨a, ha, h⟩ := Option.bind_eq_some_iff.mp h
  obtain ⟨b, hb, h⟩ := Option.bind_eq_some_iff.mp h
  obtain ⟨node, hn, h⟩ := Option.bind_eq_some_iff.mp h
  obtain rfl := Option.some.inj h
  have from' := ne_nil_of_not_directory (filePlace?_eq_some ha).2.2
  have to' := ne_nil_of_not_directory (filePlace?_eq_some hb).2.2
  refine ⟨a, b, node, ha, hb, hn, rfl, fun place => ?_⟩
  by_cases top : place = []
  · simp [node?, top, Ne.symm from', Ne.symm to']
  · simp [node?, top, Std.ExtTreeMap.getElem?_insert, Std.ExtTreeMap.getElem?_erase, @eq_comm _ b,
      @eq_comm _ a]

end FileTree

namespace AtomicWrite

open FileTree

variable {fault : Option Step} {written : Nat} {t u : FileTree} {path : String} {bytes : Bytes}
  {p : Path} {o : Outcome}

/-- Nothing is in the way of a write, and no step of it is to fail. -/
structure Feasible (p : Path) (bytes : Bytes) (fault : Option Step) (t : FileTree) : Prop where
  filled : bytes ≠ []
  faultless : fault = none
  paved : (t.makeParents p).2 = true
  temporary : ((t.makeParents p).1.filePlace? p.temporary).isSome
  target : ((t.makeParents p).1.filePlace? p).isSome

/-- All that a write can do. Before each failure stands how far it came. -/
inductive Course (p : Path) (path : String) (bytes : Bytes) (fault : Option Step) (t : FileTree) :
    Outcome → Prop
  | refused (empty : bytes = []) : Course p path bytes fault t ⟨[], .error (.emptySnapshot path)⟩
  | unpaved {u : FileTree} (way : fault = some .parents ∧ u = t ∨
      (t.makeParents p).2 = false ∧ u = (t.makeParents p).1) :
      Course p path bytes fault t ⟨[u], .error (.persistence path)⟩
  | uncreated (blocked : ¬Feasible p bytes fault t) :
      Course p path bytes fault t
        (abandon path p.temporary [(t.makeParents p).1] (t.makeParents p).1)
  | unwritten {u v : FileTree} {part : Bytes} (blocked : ¬Feasible p bytes fault t)
      (created : (t.makeParents p).1.write? p.temporary [] = some u)
      (filled : v = (u.write? p.temporary part).getD u) :
      Course p path bytes fault t (abandon path p.temporary [(t.makeParents p).1, u, v] v)
  | renamed {u v w : FileTree} (free : Feasible p bytes fault t)
      (created : (t.makeParents p).1.write? p.temporary [] = some u)
      (filled : v = (u.write? p.temporary bytes).getD u) (moved : v.rename? p.temporary p = some w) :
      Course p path bytes fault t ⟨[(t.makeParents p).1, u, v, w], .ok ()⟩

theorem created_place {part : Bytes} (created : t.write? p.temporary [] = some u) :
    ∃ a, t.filePlace? p.temporary = some a ∧ SameDirectories t ((u.write? p.temporary part).getD u) ∧
      ((u.write? p.temporary part).getD u).node? a = some (.data part) := by
  obtain ⟨a, ha, rfl, same⟩ := write?_eq_some created
  have again := (same.filePlace? p.temporary).trans ha
  have notDirectory := (filePlace?_eq_some again).2.2
  rw [write?, again]
  exact ⟨a, ha, same.trans (sameDirectories_put notDirectory part),
    node?_put_self (ne_nil_of_not_directory notDirectory)⟩

theorem attempt_course (fault : Option Step) (written : Nat) (t : FileTree) (path : String)
    (bytes : Bytes) :
    Course (.ofText t.base path) path bytes fault t (attempt fault written t path bytes) := by
  generalize hp : Path.ofText t.base path = p
  unfold attempt
  by_cases hb : bytes = []
  · rw [if_pos hb]
    exact .refused hb
  rw [if_neg hb, hp]
  by_cases hparents : fault = some .parents
  · simp only [hparents, if_true, Bool.not_false]
    exact .unpaved (.inl ⟨rfl, rfl⟩)
  simp only [if_neg hparents]
  cases made : (t.makeParents p).2 with
  | false => exact .unpaved (.inr ⟨made, rfl⟩)
  | true =>
    simp only [Bool.not_true, Bool.false_eq_true, if_false]
    by_cases hcreate : fault = some .create
    · rw [if_pos hcreate]
      exact .uncreated fun free => by simp [free.faultless] at hcreate
    rw [if_neg hcreate]
    cases created : (t.makeParents p).1.write? p.temporary [] with
    | none =>
      refine .uncreated fun free => ?_
      obtain ⟨a, ha⟩ := Option.isSome_iff_exists.mp free.temporary
      rw [write?, ha] at created
      cases created
    | some u =>
      dsimp only
      by_cases hwrite : fault = some .write
      · rw [if_pos hwrite]
        exact .unwritten (fun free => by simp [free.faultless] at hwrite) created rfl
      rw [if_neg hwrite]
      by_cases hlate : fault = some .sync ∨ fault = some .rename
      · rw [if_pos (by simpa using hlate)]
        exact .unwritten (fun free => by simp [free.faultless] at hlate) created rfl
      rw [if_neg (by simpa using hlate)]
      obtain ⟨a, ha, same, holds⟩ := @created_place _ _ _ bytes created
      have there := (same.filePlace? p.temporary).trans ha
      have target := same.filePlace? p
      cases hb' : (t.makeParents p).1.filePlace? p with
      | none =>
        have unmoved : ((u.write? p.temporary bytes).getD u).rename? p.temporary p = none := by
          simp [rename?, there, target, hb']
        rw [unmoved]
        refine .unwritten (fun free => ?_) created rfl
        have target := free.target
        rw [hb'] at target
        cases target
      | some b =>
        cases moved : ((u.write? p.temporary bytes).getD u).rename? p.temporary p with
        | none => simp [rename?, there, target, hb', holds] at moved
        | some w =>
          have free : fault = none := by
            cases fault with
            | none => rfl
            | some step => cases step <;> simp_all
          exact .renamed ⟨hb, free, made, by simp [ha], by simp [hb']⟩ created rfl moved

/-- A tree in which everything may stop: after some of the directories on the way, or after a step of
a write, whichever of its steps fails and however much is written by then. -/
inductive Leaves (t : FileTree) (path : String) (bytes : Bytes) : FileTree → Prop
  | directories (count : Nat) (filled : bytes ≠ []) :
      Leaves t path bytes (t.makeSome (.ofText t.base path) count)
  | step (fault : Option Step) (written : Nat) {u : FileTree}
      (visited : u ∈ (attempt fault written t path bytes).trace) : Leaves t path bytes u

structure Done (p : Path) (bytes : Bytes) (t u : FileTree) : Prop where
  holds : u.find? p = some (.data bytes)
  cleared : ∀ place, u.locate p.temporary = some place → u.node? place = none
  spares : Spares p t u

theorem Course.renamed_done {u v w : FileTree}
    (created : (t.makeParents p).1.write? p.temporary [] = some u)
    (filled : v = (u.write? p.temporary bytes).getD u) (moved : v.rename? p.temporary p = some w) :
    Done p bytes t w := by
  obtain ⟨place, hplace, same, holds⟩ := @created_place _ _ _ bytes created
  rw [← filled] at same holds
  obtain ⟨a, b, node, ha, hb, hn, -, nodes⟩ := rename?_nodes moved
  obtain rfl : place = a := Option.some.inj (((same.filePlace? _).trans hplace).symm.trans ha)
  obtain rfl : .data bytes = node := Option.some.inj (holds.symm.trans hn)
  obtain ⟨moved, -⟩ := rename?_eq_some moved ha holds
  obtain ⟨closed, located, -⟩ := filePlace?_eq_some hb
  have target := (moved.locate p).trans located
  have source := (moved.locate p.temporary).trans (filePlace?_eq_some ha).2.1
  have apart := locate_temporary_ne source target
  constructor
  case holds =>
    have node := (nodes b).trans (if_pos rfl)
    simp [find?, target, node, closed]
  case cleared =>
    intro place' hl
    obtain rfl := Option.some.inj (source.symm.trans hl)
    rw [nodes, if_neg apart, if_pos rfl]
  case spares =>
    have second := (beside_write created).trans (filled ▸ beside_rewrite bytes)
    intro place'
    by_cases atTarget : place' = b
    · exact .inr (.inl (atTarget ▸ target))
    by_cases atSource : place' = place
    · exact .inr (.inr (.inl (atSource ▸ source)))
    have kept := (nodes place').trans ((if_neg atTarget).trans (if_neg atSource))
    rcases (paved_makeParents t p).spares second place' with h | h | h | h
    · exact .inl (kept.trans h)
    · exact .inr (.inl ((moved.locate p).trans h))
    · exact .inr (.inr (.inl ((moved.locate p.temporary).trans h)))
    · exact .inr (.inr (.inr (h.later moved kept)))

/-- Every tree of a write leaves the file untouched, but the last of one that succeeds. -/
theorem Course.visited (h : Course p path bytes fault t o) : ∀ u ∈ o.trace,
    (Untouched p t u ∧ Spares p t u) ∨ (o.result = .ok () ∧ Done p bytes t u) := by
  have paved := paved_makeParents t p
  have kept {u : FileTree} (k : Beside p (t.makeParents p).1 u) : Untouched p t u ∧ Spares p t u :=
    ⟨paved.untouched.beside k, paved.spares k⟩
  cases h with
  | refused => exact fun _ hu => nomatch hu
  | unpaved way =>
    intro u hu
    obtain rfl := List.mem_singleton.mp hu
    rcases way with ⟨-, rfl⟩ | ⟨-, rfl⟩
    · exact .inl ⟨(Paved.refl _ _ u).untouched, (Paved.refl _ _ u).spares (.refl p u)⟩
    · exact .inl (kept (.refl p _))
  | uncreated =>
    intro u hu
    simp only [abandon, List.cons_append, List.nil_append, List.mem_cons, List.not_mem_nil,
      or_false] at hu
    rcases hu with rfl | rfl
    · exact .inl (kept (.refl p _))
    · exact .inl (kept beside_removeFile)
  | @unwritten v w part _ created filled =>
    have second := beside_write created
    have third := second.trans (filled ▸ beside_rewrite part)
    intro u hu
    simp only [abandon, List.cons_append, List.nil_append, List.mem_cons, List.not_mem_nil,
      or_false] at hu
    rcases hu with rfl | rfl | rfl | rfl
    · exact .inl (kept (.refl p _))
    · exact .inl (kept second)
    · exact .inl (kept third)
    · exact .inl (kept (third.trans beside_removeFile))
  | @renamed v w x _ created filled moved =>
    have second := beside_write created
    have third := second.trans (filled ▸ beside_rewrite bytes)
    intro u hu
    simp only [List.mem_cons, List.not_mem_nil, or_false] at hu
    rcases hu with rfl | rfl | rfl | rfl
    · exact .inl (kept (.refl p _))
    · exact .inl (kept second)
    · exact .inl (kept third)
    · exact .inr ⟨rfl, renamed_done created filled moved⟩

theorem Course.result_iff (h : Course p path bytes fault t o) :
    o.result = .ok () ↔ Feasible p bytes fault t := by
  cases h with
  | refused empty => exact ⟨fun h => (nomatch h), fun free => absurd empty free.filled⟩
  | unpaved way =>
    refine ⟨fun h => (nomatch h), fun free => ?_⟩
    rcases way with ⟨failed, -⟩ | ⟨failed, -⟩
    · rw [free.faultless] at failed
      cases failed
    · rw [free.paved] at failed
      cases failed
  | uncreated blocked => exact ⟨fun h => (nomatch h), fun free => absurd free blocked⟩
  | unwritten blocked => exact ⟨fun h => (nomatch h), fun free => absurd free blocked⟩
  | renamed free => exact ⟨fun _ => free, fun _ => rfl⟩

theorem Course.done_of_ok (h : Course p path bytes fault t o) (ok : o.result = .ok ()) :
    Done p bytes t (o.final t) := by
  cases h with
  | refused => cases ok
  | unpaved => cases ok
  | uncreated => cases ok
  | unwritten => cases ok
  | renamed _ created filled moved => exact renamed_done created filled moved

theorem Course.cleared (h : Course p path bytes fault t o) (filled : bytes ≠ [])
    (made : (t.makeParents p).2 = true) (begun : fault ≠ some .parents)
    {e : Storage.Error} (failed : o.result = .error e) {place : List String}
    (hl : (o.final t).locate p.temporary = some place) :
    (o.final t).node? place = none ∨ (o.final t).node? place = some .directory := by
  cases h with
  | refused empty => exact absurd empty filled
  | unpaved way =>
    rcases way with ⟨h, -⟩ | ⟨h, -⟩
    · exact absurd h begun
    · rw [made] at h
      cases h
  | uncreated => exact node?_removeTemporary hl
  | unwritten => exact node?_removeTemporary hl
  | renamed => cases failed

theorem steps_temporary {name : String} (h : p.fileName? = some name) :
    p.steps = p.steps.dropLast ++ [name] ∧
      p.temporary.steps = p.steps.dropLast ++ [name ++ ".tmp"] := by
  constructor
  · unfold Path.fileName? at h
    split at h
    · cases h
    · exact (List.dropLast_append_getLast? name h).symm
  · rw [Path.temporary, h]
    exact (Path.steps_child (Path.isStep_temporary name).1).trans (by rw [Path.steps_parent])

/-- A write is atomic, whichever of its steps fails and wherever everything stops. -/
theorem atomic_at_every_step (t : FileTree) (path : String) (bytes : Bytes) :
    let p := Path.ofText t.base path
    (∀ name, p.fileName? = some name → p.steps = p.steps.dropLast ++ [name] ∧
      p.temporary.steps = p.steps.dropLast ++ [name ++ ".tmp"]) ∧
    (∀ u, Leaves t path bytes u →
      (Untouched p t u ∨ u.find? p = some (.data bytes)) ∧ Spares p t u) ∧
    ∀ fault written, let o := attempt fault written t path bytes
      let u := o.final t
      (o.result = .ok () ↔ Feasible p bytes fault t) ∧
      (o.result = .ok () → u.find? p = some (.data bytes) ∧
        ∀ place, u.locate p.temporary = some place → u.node? place = none) ∧
      ∀ e, o.result = .error e →
        (∀ v ∈ o.trace, Untouched p t v) ∧ (bytes = [] → o.trace = []) ∧
        (bytes ≠ [] → (t.makeParents p).2 = true → fault ≠ some .parents →
          ∀ place, u.locate p.temporary = some place →
            u.node? place = none ∨ u.node? place = some .directory) := by
  intro p
  refine ⟨fun name => steps_temporary, fun u hu => ?_, fun fault written => ?_⟩
  · cases hu with
    | directories count =>
      have paved := paved_makeSome t p count
      exact ⟨.inl paved.untouched, paved.spares (.refl p _)⟩
    | step fault written visited =>
      rcases (attempt_course fault written t path bytes).visited u visited with
        ⟨untouched, spares⟩ | ⟨-, done⟩
      · exact ⟨.inl untouched, spares⟩
      · exact ⟨.inr done.holds, done.spares⟩
  · intro o u
    have course : Course p path bytes fault t o := attempt_course fault written t path bytes
    refine ⟨course.result_iff, fun ok => ?_, fun e failed => ⟨fun v hv => ?_, fun empty => ?_, ?_⟩⟩
    · have done := course.done_of_ok ok
      exact ⟨done.holds, done.cleared⟩
    · rcases course.visited v hv with ⟨untouched, -⟩ | ⟨ok, -⟩
      · exact untouched
      · rw [failed] at ok
        cases ok
    · show (attempt fault written t path bytes).trace = []
      rw [attempt, if_pos empty]
    · exact fun filled made begun place hl => course.cleared filled made begun failed hl

def blankFiles : FileTree := .empty "/work"

/-- A write to "a/b" that works, and one whose bytes do not reach the disk. -/
theorem atomic_below_directory :
    (Feasible (.ofText "/work" "a/b") [0x78] none blankFiles ∧
      let u := (attempt none 0 blankFiles "a/b" [0x78]).final blankFiles
      u.find? (.ofText "/work" "a/b") = some (.data [0x78]) ∧ u.node? ["a", "b.tmp"] = none) ∧
    (attempt (some .sync) 1 blankFiles "a/b" [0x78]).result = .error (.persistence "a/b") ∧
      let u := (attempt (some .sync) 1 blankFiles "a/b" [0x78]).final blankFiles
      Untouched (.ofText "/work" "a/b") blankFiles u ∧ Spares (.ofText "/work" "a/b") blankFiles u ∧
        u.node? ["a", "b.tmp"] ≠ some (.data [0x78]) := by
  obtain ⟨names, trees, attempts⟩ := atomic_at_every_step blankFiles "a/b" [0x78]
  have free : Feasible (.ofText "/work" "a/b") [0x78] none blankFiles := by
    constructor
    case filled => decide
    case faultless => rfl
    case paved => rfl
    case temporary => rfl
    case target => rfl
  constructor
  · obtain ⟨accepted, written, -⟩ := attempts none 0
    obtain ⟨holds, cleared⟩ := written (accepted.mpr free)
    exact ⟨free, holds, cleared _ rfl⟩
  · have failed : (attempt (some .sync) 1 blankFiles "a/b" [0x78]).result =
        .error (.persistence "a/b") := rfl
    obtain ⟨-, -, rejected⟩ := attempts (some .sync) 1
    obtain ⟨kept, -, cleared⟩ := rejected _ failed
    have last : (attempt (some .sync) 1 blankFiles "a/b" [0x78]).final blankFiles ∈
        (attempt (some .sync) 1 blankFiles "a/b" [0x78]).trace := List.mem_of_getLast? rfl
    refine ⟨failed, kept _ last, (trees _ (.step _ _ last)).2, fun present => ?_⟩
    rcases cleared (by decide) rfl (by decide) ["a", "b.tmp"] rfl with gone | directory
    · rw [gone] at present
      cases present
    · rw [directory] at present
      cases present

/-- The path "a/b/../b" leads through its own end: the directory "a/b" is made on the way, and stands
there when the write has failed. -/
theorem directory_through_itself :
    let o := attempt none 0 blankFiles "a/b/../b" [0x78]
    (Path.ofText "/work" "a/b/../b").fileName? = some "b" ∧
      o.result = .error (.persistence "a/b/../b") ∧
      blankFiles.find? (.ofText "/work" "a/b/../b") = none ∧
      (o.final blankFiles).find? (.ofText "/work" "a/b/../b") = some .directory :=
  ⟨rfl, rfl, rfl, rfl⟩

end AtomicWrite

end Telemetry
