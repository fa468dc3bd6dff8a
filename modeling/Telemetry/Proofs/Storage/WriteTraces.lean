import Telemetry.Proofs.Storage.Paths
import Telemetry.Storage.AtomicWrite
/-!
The trees that the writing of a file passes through, whichever step of it fails. Until the temporary
file is renamed the path leads to what was there before, and after a failure it still does.
-/

namespace Telemetry

namespace AtomicWrite

open FileTree

variable {p : Path} {t : FileTree} {trace : List FileTree} {path : String} {bytes : Bytes}

/-- What a write may do to the file that a path leads to: the last tree of a write that succeeds
holds the bytes, all others keep the file. -/
structure Replaces (p : Path) (bytes : Bytes) (t : FileTree) (o : Outcome) : Prop where
  failed : ∀ e, o.result = .error e → (t :: o.trace).IsChain (Keeps p)
  written : o.result = .ok () → ∃ before last, o.trace = before ++ [last] ∧
    (t :: before).IsChain (Keeps p) ∧ last.base = t.base ∧ last.Ready p ∧ last.read? p = some bytes

theorem replaces_of_failed {e : Storage.Error} (h : (t :: trace).IsChain (Keeps p)) :
    Replaces p bytes t ⟨trace, .error e⟩ := ⟨fun _ _ => h, fun hok => nomatch hok⟩

theorem Replaces.step {trees : List FileTree} {u : FileTree} {result : Except Storage.Error Unit}
    (h : Replaces p bytes t ⟨u :: trees, result⟩) :
    (Keeps p t u ∧ Replaces p bytes u ⟨trees, result⟩) ∨
      (trees = [] ∧ result = .ok () ∧ u.base = t.base ∧ u.Ready p ∧ u.read? p = some bytes) := by
  cases result with
  | error e =>
    obtain ⟨kept, rest⟩ := List.isChain_cons_cons.mp (h.failed e rfl)
    exact .inl ⟨kept, replaces_of_failed rest⟩
  | ok _ =>
    obtain ⟨before, last, split, chain, holds⟩ := h.written rfl
    cases before with
    | nil =>
      obtain ⟨rfl, rfl⟩ := List.cons.inj split
      exact .inr ⟨rfl, rfl, holds⟩
    | cons v before =>
      obtain ⟨rfl, rfl⟩ := List.cons.inj split
      obtain ⟨kept, rest⟩ := List.isChain_cons_cons.mp chain
      refine .inl ⟨kept, (fun _ he => nomatch he), fun _ => ?_⟩
      exact ⟨before, last, rfl, rest, holds.1.trans kept.base.symm, holds.2⟩

theorem not_replaces_nil : ¬Replaces p bytes t ⟨[], .ok ()⟩ := by
  intro h
  obtain ⟨before, last, split, -⟩ := h.written rfl
  exact absurd split (by simp)

theorem renamed_ready {t1 t2 t4 : FileTree} (ready : t1.Ready p)
    (created : t1.write? p.temporary [] = some t2)
    (renamed : ((t2.write? p.temporary bytes).getD t2).rename? p.temporary p = some t4) :
    t4.base = t1.base ∧ t4.Ready p ∧ t4.read? p = some bytes := by
  obtain ⟨place, hplace, -, same⟩ := write?_eq_some created
  have again : t2.filePlace? p.temporary = some place := by
    rw [same.filePlace?, hplace]
  have notDirectory := (filePlace?_eq_some again).2.2
  have same' := same.trans (sameDirectories_put notDirectory bytes)
  have third : (t2.write? p.temporary bytes).getD t2 = t2.put place (.data bytes) := by
    rw [write?, again]
    rfl
  rw [third] at renamed
  obtain ⟨moved, read⟩ := rename?_eq_some renamed ((same'.filePlace? _).trans hplace)
    (node?_put_self (ne_nil_of_not_directory notDirectory))
  have all := same'.trans moved
  exact ⟨all.base, ready.of_sameDirectories all, read⟩

theorem attempt_replaces (fault : Option Step) (written : Nat) (t : FileTree) (path : String)
    (bytes : Bytes) :
    Replaces (.ofText t.base path) bytes t (attempt fault written t path bytes) := by
  generalize hp : Path.ofText t.base path = p
  unfold attempt
  by_cases hb : bytes = []
  · rw [if_pos hb]
    exact replaces_of_failed (by simp)
  rw [if_neg hb, hp]
  -- Either the directories are there now, or this is all that happens.
  have first : Keeps p t (if fault = some .parents then (t, false) else t.makeParents p).1 ∧
      ((if fault = some .parents then (t, false) else t.makeParents p).2 = true →
        (if fault = some .parents then (t, false) else t.makeParents p).1.Ready p) := by
    split
    · exact ⟨⟨rfl, rfl, id⟩, fun made => nomatch made⟩
    · refine ⟨keeps_makeParents t p, fun made => ?_⟩
      rw [Ready, makeParents_again, made]
  dsimp only
  generalize (if fault = some .parents then (t, false) else t.makeParents p) = parents at first ⊢
  obtain ⟨t1, made⟩ := parents
  obtain ⟨kept1, ready1⟩ := first
  dsimp only at kept1 ready1 ⊢
  cases made with
  | false => exact replaces_of_failed (by simp [kept1])
  | true =>
    have ready1 := ready1 rfl
    have removed1 := ready1.keeps_removeFile
    rw [if_neg (by simp)]
    by_cases hcreate : fault = some .create
    · rw [if_pos hcreate]
      exact replaces_of_failed (by simp [kept1, removed1])
    rw [if_neg hcreate]
    cases created : t1.write? p.temporary [] with
    | none => exact replaces_of_failed (by simp [kept1, removed1])
    | some t2 =>
      have kept2 := ready1.keeps_write created
      have ready2 := kept2.ready ready1
      -- However much of the bytes was written, the temporary file goes.
      have gaveUp (part : Bytes) : Replaces p bytes t (abandon path p.temporary
          [t1, t2, (t2.write? p.temporary part).getD t2] ((t2.write? p.temporary part).getD t2)) := by
        have kept3 : Keeps p t2 ((t2.write? p.temporary part).getD t2) := ready2.keeps_rewrite
        have removed3 := (kept3.ready ready2).keeps_removeFile
        exact replaces_of_failed (by simp [kept1, kept2, kept3, removed3])
      dsimp only
      by_cases hwrite : fault = some .write
      · rw [if_pos hwrite]
        exact gaveUp _
      rw [if_neg hwrite]
      split
      · exact gaveUp bytes
      cases renamed : ((t2.write? p.temporary bytes).getD t2).rename? p.temporary p with
      | none => exact gaveUp bytes
      | some t4 =>
        obtain ⟨base, ready4, read⟩ := renamed_ready ready1 created renamed
        have kept3 : Keeps p t2 ((t2.write? p.temporary bytes).getD t2) := ready2.keeps_rewrite
        constructor
        case failed => exact fun _ he => nomatch he
        case written =>
          intro _
          exact ⟨[t1, t2, (t2.write? p.temporary bytes).getD t2], t4, rfl,
            by simp [kept1, kept2, kept3], base.trans kept1.base, ready4, read⟩

theorem run_eq_ok {u : FileTree} (h : run t path bytes = (.ok (), u)) :
    u.base = t.base ∧ u.read? (.ofText t.base path) = some bytes := by
  obtain ⟨result, final⟩ := Prod.mk.inj h
  obtain ⟨before, last, trace, -, base, -, read⟩ :=
    (attempt_replaces none 0 t path bytes).written result
  obtain rfl : last = u := by
    rw [← final, Outcome.final, trace, List.getLastD_concat]
  exact ⟨base, read⟩

end AtomicWrite

end Telemetry
