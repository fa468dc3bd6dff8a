import Telemetry.Proofs.Storage.DatabaseFiles
/-!
Opening a database file again. While only the file itself changes and those beside it, its path leads to
the same place as before, or nowhere; and if the path never steps back it leads there for sure.
-/

namespace Telemetry

namespace FileTree

variable {place : List String} {t u : FileTree} {p : Path}

/-- Where steps lead does not depend on the tree; only whether they can be taken does. -/
theorem takeBack_unique {steps here a b : List String} (h : t.takeBack here steps = some a)
    (k : u.takeBack here steps = some b) : a = b := by
  induction steps generalizing here with
  | nil => exact (Option.some.inj h).symm.trans (Option.some.inj k)
  | cons step rest ih =>
    unfold takeBack at h k
    by_cases hs : step = ".."
    · simp only [hs, if_true] at h k
      by_cases hh : here = []
      · simp only [hh, if_true] at h
        cases h
      · simp only [hh, if_false] at h k
        exact ih h k
    · simp only [hs, if_false, Option.ite_none_right_eq_some] at h k
      exact ih h.2 k.2

theorem length_of_belongs {q : List String} (hp : place ≠ []) (h : Belongs place q) :
    q.length = place.length := by
  obtain rfl | ⟨side, rfl⟩ := h
  · rfl
  · have := List.length_pos_iff.mpr hp
    simp only [SideFile.place, List.length_append, List.length_dropLast, List.length_cons,
      List.length_nil]
    omega

/-- Steps that never go back are all taken before the place itself. -/
theorem takeBack_changedAround {steps here : List String} (h : ChangedAround place t u)
    (hs : ".." ∉ steps) (hp : here ++ steps = place) : u.takeBack here steps = t.takeBack here steps := by
  induction steps generalizing here with
  | nil => rfl
  | cons step rest ih =>
    obtain ⟨hstep, hrest⟩ := not_or.mp fun h => hs (List.mem_cons.mpr h)
    have before : ¬Belongs place here := by
      intro belongs
      have shorter := congrArg List.length hp
      have := length_of_belongs (by rintro rfl; simp at hp) belongs
      simp only [List.length_append, List.length_cons] at shorter
      omega
    have further : u.takeBack (here ++ [step]) rest = t.takeBack (here ++ [step]) rest :=
      ih hrest (by simpa using hp)
    simp only [takeBack, if_neg (Ne.symm hstep), h.same.directories, h.others here before, further]

theorem takeBack_steps {steps here a : List String} (hs : ".." ∉ steps)
    (h : t.takeBack here steps = some a) : here ++ steps = a := by
  induction steps generalizing here with
  | nil => simpa [takeBack] using h
  | cons step rest ih =>
    obtain ⟨hstep, hrest⟩ := not_or.mp fun h => hs (List.mem_cons.mpr h)
    simp only [takeBack, if_neg (Ne.symm hstep), Option.ite_none_right_eq_some] at h
    simpa using ih hrest h.2

theorem databasePlace?_changedAround (h : ChangedAround place t u) (hs : ".." ∉ p.steps)
    (ht : t.databasePlace? p = some place) : u.databasePlace? p = some place := by
  obtain ⟨houtside, hsteps, hparent, hfree, hjournal⟩ := databasePlace?_eq_some ht
  have taken : u.takeBack [] p.steps = some place :=
    (takeBack_changedAround h hs (takeBack_steps hs hsteps)).trans hsteps
  have journal : u.admitsJournal place = true := by
    rw [admitsJournal, h.same.base]
    exact hjournal
  simp [databasePlace?, houtside, taken, h.same.directories, hparent, hfree, journal]

end FileTree

end Telemetry
