import Mathlib.Data.List.Forall2
/-!
Lists that are checked or computed entry by entry, where the first failure ends the work.
-/

namespace Telemetry

variable {α β ε : Type}

@[simp] theorem ok_bind (a : α) (f : α → Except ε β) : (Except.ok a >>= f) = f a := rfl

theorem bind_eq_ok_iff {x : Except ε α} {f : α → Except ε β} {b : β} :
    x >>= f = .ok b ↔ ∃ a, x = .ok a ∧ f a = .ok b := by
  cases x <;> simp [bind, Except.bind]

theorem check_bind_eq_ok_iff {x : Except ε Unit} {f : Unit → Except ε β} {b : β} :
    x >>= f = .ok b ↔ x = .ok () ∧ f () = .ok b := by
  cases x <;> simp [bind, Except.bind]

theorem check_map_eq_ok_iff {x : Except ε Unit} {f : Unit → β} {b : β} :
    x.map f = .ok b ↔ x = .ok () ∧ f () = b := by
  cases x <;> simp [Except.map]

theorem bind_eq_error_iff {x : Except ε α} {f : α → Except ε β} {e : ε} :
    x >>= f = .error e ↔ x = .error e ∨ ∃ a, x = .ok a ∧ f a = .error e := by
  cases x <;> simp [bind, Except.bind]

@[simp] theorem pure_eq_ok_iff {a b : α} : (pure a : Except ε α) = .ok b ↔ a = b := by
  simp [pure, Except.pure]

@[simp] theorem pure_ne_error {a : α} {e : ε} : (pure a : Except ε α) ≠ .error e := by
  simp [pure, Except.pure]

theorem forM_cons (f : α → Except ε Unit) (x : α) (xs : List α) :
    (x :: xs).forM f = (f x).bind fun _ => xs.forM f := rfl

theorem forM_eq_ok_iff {f : α → Except ε Unit} {xs : List α} :
    xs.forM f = .ok () ↔ ∀ x ∈ xs, f x = .ok () := by
  induction xs with
  | nil => simp [pure, Except.pure]
  | cons x xs ih =>
    rw [forM_cons, List.forall_mem_cons, ← ih]
    cases f x <;> simp [Except.bind]

theorem error_of_forM {f : α → Except ε Unit} {xs : List α} {e : ε} (h : xs.forM f = .error e) :
    ∃ x ∈ xs, f x = .error e := by
  induction xs with
  | nil => simp [pure, Except.pure] at h
  | cons x xs ih =>
    rw [forM_cons] at h
    cases hx : f x with
    | error d => exact ⟨x, List.mem_cons_self, by simpa [hx, Except.bind] using h⟩
    | ok u =>
      obtain ⟨y, hy, he⟩ := ih (by simpa [hx, Except.bind] using h)
      exact ⟨y, List.mem_cons_of_mem x hy, he⟩

theorem mapM_cons (f : α → Except ε β) (x : α) (xs : List α) :
    (x :: xs).mapM f = (f x).bind fun y => (xs.mapM f).bind fun ys => .ok (y :: ys) := by
  rw [List.mapM_cons]
  rfl

theorem mapM_eq_ok_iff {f : α → Except ε β} {xs : List α} {ys : List β} :
    xs.mapM f = .ok ys ↔ List.Forall₂ (fun x y => f x = .ok y) xs ys := by
  induction xs generalizing ys with
  | nil => cases ys <;> simp [pure, Except.pure]
  | cons x xs ih =>
    rw [mapM_cons]
    cases hx : f x with
    | error d => cases ys <;> simp [Except.bind, hx]
    | ok y =>
      cases hxs : xs.mapM f with
      | error d =>
        have hno : ∀ zs, ¬ List.Forall₂ (fun x y => f x = .ok y) xs zs := fun zs h => by
          simpa [hxs] using ih.mpr h
        cases ys <;> simp [Except.bind, hno]
      | ok zs =>
        cases ys with
        | nil => simp [Except.bind]
        | cons w ws => simp [Except.bind, hx, ← ih, hxs]

theorem mapM_ok (xs : List α) : xs.mapM (fun x => (.ok x : Except ε α)) = .ok xs := by
  induction xs with
  | nil => rfl
  | cons x xs ih => rw [mapM_cons, ih]; rfl

theorem mapM_map_results {γ : Type} (f : α → Except ε β) (g : β → γ) (xs : List α) :
    xs.mapM (fun x => (f x).map g) = (xs.mapM f).map (List.map g) := by
  induction xs with
  | nil => rfl
  | cons x xs ih =>
    rw [mapM_cons, mapM_cons, ih]
    cases f x with
    | error e => rfl
    | ok y => cases xs.mapM f <;> rfl

theorem results_of_mapM {f : α → Except ε β} {xs : List α} {ys : List β} (h : xs.mapM f = .ok ys) :
    (∀ x ∈ xs, ∃ y ∈ ys, f x = .ok y) ∧ ∀ y ∈ ys, ∃ x ∈ xs, f x = .ok y := by
  have hf := mapM_eq_ok_iff.mp h
  clear h
  induction hf with
  | nil => simp
  | @cons x y xs ys hxy _ ih =>
    constructor
    · refine List.forall_mem_cons.mpr ⟨⟨y, List.mem_cons_self, hxy⟩, fun z hz => ?_⟩
      obtain ⟨w, hw, hzw⟩ := ih.1 z hz
      exact ⟨w, List.mem_cons_of_mem y hw, hzw⟩
    · refine List.forall_mem_cons.mpr ⟨⟨x, List.mem_cons_self, hxy⟩, fun w hw => ?_⟩
      obtain ⟨z, hz, hzw⟩ := ih.2 w hw
      exact ⟨z, List.mem_cons_of_mem x hz, hzw⟩

theorem split_of_mapM_error {f : α → Except ε β} {xs : List α} {e : ε} (h : xs.mapM f = .error e) :
    ∃ before x after, xs = before ++ x :: after ∧ (∀ y ∈ before, ∃ v, f y = .ok v) ∧ f x = .error e := by
  induction xs with
  | nil => exact absurd h pure_ne_error
  | cons x xs ih =>
    rw [mapM_cons] at h
    cases hx : f x with
    | error d =>
      rw [hx] at h
      obtain rfl : d = e := Except.error.inj h
      exact ⟨[], x, xs, rfl, by simp, hx⟩
    | ok v =>
      cases hxs : xs.mapM f with
      | error d =>
        rw [hx, hxs] at h
        obtain rfl : d = e := Except.error.inj h
        obtain ⟨before, y, after, rfl, hbefore, hy⟩ := ih hxs
        refine ⟨x :: before, y, after, rfl, ?_, hy⟩
        exact List.forall_mem_cons.mpr ⟨⟨v, hx⟩, hbefore⟩
      | ok vs =>
        rw [hx, hxs] at h
        cases h

theorem error_of_mapM {f : α → Except ε β} {xs : List α} {e : ε} (h : xs.mapM f = .error e) :
    ∃ x ∈ xs, f x = .error e := by
  obtain ⟨before, x, after, rfl, -, hx⟩ := split_of_mapM_error h
  exact ⟨x, List.mem_append_right _ List.mem_cons_self, hx⟩

theorem foldlM_eq_error_iff {f : β → α → Except ε β} {xs : List α} {b : β} {e : ε} :
    xs.foldlM f b = .error e ↔ ∃ front x rest c,
      xs = front ++ x :: rest ∧ front.foldlM f b = .ok c ∧ f c x = .error e := by
  constructor
  · intro h
    induction xs generalizing b with
    | nil => exact absurd h pure_ne_error
    | cons x xs ih =>
      rw [List.foldlM_cons, bind_eq_error_iff] at h
      rcases h with hx | ⟨d, hd, h⟩
      · exact ⟨[], x, xs, b, rfl, rfl, hx⟩
      · obtain ⟨front, y, rest, c, rfl, hc, hy⟩ := ih h
        refine ⟨x :: front, y, rest, c, rfl, ?_, hy⟩
        rw [List.foldlM_cons, hd, ok_bind, hc]
  · rintro ⟨front, x, rest, c, rfl, hc, hx⟩
    rw [List.foldlM_append, hc, ok_bind, List.foldlM_cons, hx]
    rfl

theorem mapM_eq_some_iff {f : α → Option β} {xs : List α} {ys : List β} :
    xs.mapM f = some ys ↔ List.Forall₂ (fun x y => f x = some y) xs ys := by
  induction xs generalizing ys with
  | nil => cases ys <;> simp
  | cons x xs ih =>
    rw [List.mapM_cons]
    cases ys with
    | nil => cases f x <;> cases xs.mapM f <;> simp
    | cons y ys =>
      rw [List.forall₂_cons, ← ih]
      cases f x <;> cases xs.mapM f <;> simp

theorem mem_of_mapM {f : α → Option β} {xs : List α} {ys : List β}
    (h : xs.mapM f = some ys) {y : β} : y ∈ ys ↔ ∃ x ∈ xs, f x = some y := by
  have each := mapM_eq_some_iff.mp h
  clear h
  induction each with
  | nil => simp
  | cons hx _ ih => simp [ih, hx, eq_comm]

theorem exists_of_mapM {f : α → Option β} {xs : List α} {ys : List β}
    (h : xs.mapM f = some ys) : ∀ x ∈ xs, ∃ y, f x = some y := by
  have each := mapM_eq_some_iff.mp h
  clear h
  induction each with
  | nil => simp
  | cons hx _ ih => exact List.forall_mem_cons.mpr ⟨⟨_, hx⟩, ih⟩

theorem forall_mem_of_mapM {f : α → Option β} {xs : List α} {ys : List β} {P : β → Prop}
    (h : xs.mapM f = some ys) (hP : ∀ x y, f x = some y → P y) : ∀ y ∈ ys, P y := by
  intro y hy
  obtain ⟨x, -, hx⟩ := (mem_of_mapM h).mp hy
  exact hP x y hx

theorem exists_mapM_of_isSome {f : α → Option β} {xs : List α}
    (h : ∀ x ∈ xs, (f x).isSome) : ∃ ys, xs.mapM f = some ys := by
  induction xs with
  | nil => exact ⟨[], rfl⟩
  | cons x xs ih =>
    obtain ⟨first, rest⟩ := List.forall_mem_cons.mp h
    obtain ⟨y, hy⟩ := Option.isSome_iff_exists.mp first
    obtain ⟨ys, hys⟩ := ih rest
    exact ⟨y :: ys, by simp [List.mapM_cons, hy, hys]⟩

end Telemetry
