import Telemetry.Proofs.Agent.Polls
/-!
Reports that take turns: none is begun before all others have ended. Then the polls of a report are
still with the agent when it takes them off, and what a server has counted, whatever its storage, is at
most what was recorded, save for posts that were applied and sent again.
-/

namespace Telemetry.Agent

open Server Http

theorem sum_map_eq_zero {α : Type} {f : α → Int} {l : List α} (h : ∀ x ∈ l, f x = 0) :
    (l.map f).sum = 0 := by
  refine List.sum_eq_zero fun y hy => ?_
  obtain ⟨x, hx, rfl⟩ := List.mem_map.mp hy
  exact h x hx

theorem sum_map_le {α : Type} (f : α → Int) {l : List α} {b : Int} (hb : 0 ≤ b)
    (h : ∀ i x, l[i]? = some x → f x = 0 ∨ (i + 1 = l.length ∧ f x ≤ b)) : (l.map f).sum ≤ b := by
  rcases List.eq_nil_or_concat l with rfl | ⟨front, last, rfl⟩
  · exact hb
  · have zeros : (front.map f).sum = 0 := by
      refine sum_map_eq_zero fun x hx => ?_
      obtain ⟨i, hi, rfl⟩ := List.mem_iff_getElem.mp hx
      refine (h i _ (List.getElem?_eq_some_iff.mpr ⟨by simp; omega, by simp [hi]⟩)).resolve_right ?_
      simp
      omega
    have bound : f last ≤ b := by
      rcases h front.length last (by simp) with zero | ⟨-, le⟩
      · omega
      · exact le
    rw [List.concat_eq_append, List.map_append, List.sum_append, zeros]
    simpa using bound

theorem Task.not_finished_of_call {t : Task} {action : Action} {next : action.Reply → Work Summary}
    (hw : t.work = .call action next) : ¬t.Finished := by
  rintro ⟨summary, ended⟩
  cases hw.symm.trans ended

theorem Attempt.Settling.added_le {a : Attempt} (h : a.Settling) :
    a.added ≤ (carried? a.request).getD 0 := by
  rcases h.added_eq with zero | ⟨n, carried, added⟩
  · rw [zero]
    cases carried : carried? a.request with
    | none => exact le_refl _
    | some n => exact h.polls n carried
  · rw [carried, added]
    exact le_refl _

theorem Task.Sound.added_add_owed {c : Client} {t : Task} (h : t.Sound c)
    (posted : ∀ a, t.attempt = some a → a.Settling) : t.added + t.owed = 0 ∨
      ∃ p, (t.phase = .carrying p ∨ t.phase = .owing p) ∧ t.added + t.owed ≤ p.val := by
  cases ha : t.attempt with
  | none =>
    have none : t.added = 0 := by rw [added, ha]; rfl
    cases hp : t.phase with
    | owing p => exact .inr ⟨p, .inr rfl, by simp only [owed, hp]; omega⟩
    | _ => exact .inl (by simp only [owed, hp]; omega)
  | some a =>
    obtain ⟨url, next, hw⟩ := h.waits a ha
    obtain ⟨p, hp, polls, -, carried⟩ := h.post hw
    have all : t.added = a.added := by rw [added, ha]; rfl
    have none : t.owed = 0 := by simp only [owed, hp]
    refine .inr ⟨p, .inl hp, ?_⟩
    rcases (posted a ha).added_eq with zero | ⟨n, hn, full⟩
    · omega
    · rw [hn] at carried
      have same : n = p.val := Option.some.inj (carried.resolve_left (by simp))
      omega

namespace Deliveries

variable {c : Client} {d : Site} {origin : Store} {s s' : Deliveries} {i : Nat} {t u : Task}
  {a : Attempt}

/-- Whenever a report is begun, all others have ended. -/
def TakesTurns (d : Site) : Deliveries → List Event → Prop
  | _, [] => True
  | s, e :: events => (e.begins → ∀ t ∈ s.tasks, t.Finished) ∧ TakesTurns d (s.next d e) events

instance decidableTakesTurns (d : Site) :
    (s : Deliveries) → (events : List Event) → Decidable (TakesTurns d s events)
  | _, [] => inferInstanceAs (Decidable True)
  | s, e :: events =>
    have := decidableTakesTurns d (s.next d e) events
    inferInstanceAs (Decidable (_ ∧ _))

structure Alone (s : Deliveries) : Prop where
  others : ∀ i t, s.tasks[i]? = some t → t.Finished ∨ i + 1 = s.tasks.length
  captured : ∀ t ∈ s.tasks, ∀ p, t.phase = .carrying p ∨ t.phase = .owing p →
    t.Finished ∨ p.val ≤ s.samples.pollCount.val
  bounded : s.delivered + s.samples.pollCount.val ≤ s.recorded + s.owed

theorem start_alone (origin : Store) : Alone (start origin) := by
  constructor <;> simp [start, owed, delivered, Samples.new, Count.zero]

theorem Alone.captured_of_active (h : Alone s) (ht : s.tasks[i]? = some t) (active : ¬t.Finished)
    (p : Count) (hp : t.phase = .carrying p ∨ t.phase = .owing p) :
    p.val ≤ s.samples.pollCount.val :=
  (h.captured t (List.mem_of_getElem? ht) p hp).resolve_left active

theorem Alone.others_put (h : Alone s) (ht : s.tasks[i]? = some t) (active : ¬t.Finished)
    (u : Task) (j : Nat) (v : Task) (hv : (s.put i u).tasks[j]? = some v) :
    v.Finished ∨ j + 1 = (s.put i u).tasks.length := by
  show _ ∨ j + 1 = (s.tasks.set i u).length
  rw [List.length_set]
  by_cases hj : i = j
  · exact .inr (hj ▸ (h.others i t ht).resolve_left active)
  · exact h.others j v (by rwa [put, List.getElem?_set_ne hj] at hv)

theorem Alone.put (h : Alone s) (ht : s.tasks[i]? = some t) (active : ¬t.Finished)
    (captured : ∀ p, u.phase = .carrying p ∨ u.phase = .owing p →
      u.Finished ∨ p.val ≤ s.samples.pollCount.val)
    (owed : u.owed = t.owed) : Alone (s.put i u) := by
  have owes := owed_put ht u
  rw [owed, sub_self, add_zero] at owes
  constructor
  case others => exact h.others_put ht active u
  case captured => exact forall_mem_put captured h.captured
  case bounded =>
    rw [owes]
    exact h.bounded

theorem Alone.record (h : Alone s) (kept : 0 ≤ s.samples.pollCount.val) (readings : List Metric) :
    Alone { s with samples := (s.samples.record readings).1, recorded := s.recorded + 1 } := by
  have count : (s.samples.record readings).1.pollCount.val = _ :=
    Count.val_addSaturating_one kept
  have upper := s.samples.pollCount.upper
  have bounded := h.bounded
  constructor
  case others => exact h.others
  case captured =>
    intro t ht p hp
    refine (h.captured t ht p hp).imp_right fun le => ?_
    rw [count]
    omega
  case bounded =>
    rw [count]
    show s.delivered + _ ≤ ((s.recorded + 1 : Nat) : Int) + s.owed
    omega

theorem Alone.report (h : Alone s) (ended : ∀ t ∈ s.tasks, t.Finished) : Alone (s.enlist d) := by
  have owing := owed_enlist d s
  constructor
  case others =>
    intro i t ht
    rcases Nat.lt_or_ge i s.tasks.length with lt | ge
    · rw [enlist, List.getElem?_append_left lt] at ht
      exact .inl (ended t (List.mem_of_getElem? ht))
    · have bound := (List.getElem?_eq_some_iff.mp ht).1
      simp only [enlist, List.length_append, List.length_singleton] at bound ⊢
      exact .inr (by omega)
  case captured =>
    intro t ht p hp
    rcases List.mem_append.mp ht with ht | ht
    · exact .inl (ended t ht)
    · rw [List.mem_singleton.mp ht] at hp
      rcases hp with hp | hp <;> cases hp
  case bounded =>
    rw [owing]
    exact h.bounded

theorem Alone.flush {p : Count} {rest : Unit → Work Summary} (h : Alone s) (sound : t.Sound c)
    (ht : s.tasks[i]? = some t) (hw : t.work = .call (.flush p) rest) :
    Alone { s.put i (t.answered c (.flush p) rest ()) with samples := s.samples.flush p } := by
  have active := Task.not_finished_of_call hw
  obtain ⟨owing, polls, phase⟩ := sound.owed_of_flush hw
  have there := h.captured_of_active ht active p phase
  have left : (s.samples.flush p).pollCount.val = max (s.samples.pollCount.val - p.val) 0 :=
    Count.val_drop polls
  have flushed : (t.answered c (.flush p) rest ()).phase = .flushed :=
    Task.after_flush c t.phase p
  have settled : (t.answered c (.flush p) rest ()).owed = 0 := by rw [Task.owed, flushed]
  have owes := owed_put ht (t.answered c (.flush p) rest ())
  rw [settled, owing] at owes
  have bounded := h.bounded
  constructor
  case others => exact h.others_put ht active _
  case captured =>
    intro v hv q hq
    obtain ⟨j, hj⟩ := List.mem_iff_getElem?.mp hv
    by_cases hij : i = j
    · have bound := (List.getElem?_eq_some_iff.mp ht).1
      rw [← hij] at hj
      rw [Deliveries.put, List.getElem?_set_self bound] at hj
      obtain rfl := Option.some.inj hj
      rw [flushed] at hq
      rcases hq with hq | hq <;> cases hq
    · -- The other reports have ended, so it does not matter what they have read.
      have last := (h.others i t ht).resolve_left active
      rw [Deliveries.put, List.getElem?_set_ne hij] at hj
      exact .inl ((h.others j v hj).resolve_right (by omega))
  case bounded =>
    rw [left]
    show s.delivered + _ ≤ (s.recorded : Int) + (s.put i _).owed
    rw [owes]
    omega

theorem Alone.settle {reply : Option (Option Response)} (h : Alone s)
    (inv : Invariant d.client origin s) (ht : s.tasks[i]? = some t) (ha : t.attempt = some a) :
    Alone (s.settle d i t a reply) := by
  have mem := List.mem_of_getElem? ht
  have sound := inv.tasks t mem
  obtain ⟨url, next, hw⟩ := sound.waits a ha
  have active := Task.not_finished_of_call hw
  obtain ⟨p, hp, -⟩ := sound.post hw
  have there := h.captured_of_active ht active p (.inl hp)
  have bounded := h.bounded
  have added := (inv.posted t mem a ha).added_le
  rw [settle_eq hw]
  constructor
  case others => exact h.others_put ht active _
  case captured =>
    refine forall_mem_put (fun q hq => ?_) h.captured
    obtain rfl : q = p := Task.eq_of_after_post (c := d.client) hp hq
    exact .inr there
  case bounded =>
    show List.sum (List.map _ _) + s.samples.pollCount.val ≤ (s.recorded : Int) + (s.put i _).owed
    rw [inv.owed_settle ht hw, delivered_settle]
    split <;> omega

theorem step_preserves_alone {e : Event} (h : Alone s) (inv : Invariant d.client origin s)
    (turns : e.begins → ∀ t ∈ s.tasks, t.Finished) (step : Step d s e s') : Alone s' := by
  cases step with
  | idle => exact h
  | record readings => exact h.record inv.kept.1 readings
  | report => exact h.report (turns rfl)
  | @log i t _ _ ht hw =>
    have active : ¬t.Finished := by simp [Task.Finished, hw]
    exact h.put ht active (fun p hp => .inr (h.captured_of_active ht active p hp)) rfl
  | @read i t rest ht hw =>
    obtain ⟨fresh, carrying⟩ := (inv.tasks t (List.mem_of_getElem? ht)).phase_read hw s.samples
    refine h.put ht (Task.not_finished_of_call hw) (fun p hp => .inr ?_) ?_
    · obtain rfl : s.samples.pollCount = p := by
        rcases hp with hp | hp <;> cases carrying.symm.trans hp
        rfl
      exact le_refl _
    · rw [Task.owed, Task.owed, carrying, fresh]
  | @pause _ i t _ _ ht hw reply =>
    have active := Task.not_finished_of_call hw
    have same := (inv.tasks t (List.mem_of_getElem? ht)).phase_pause hw reply
    refine h.put ht active (fun p hp => .inr ?_) ?_
    · exact h.captured_of_active ht active p (same ▸ hp)
    · rw [Task.owed, Task.owed, same]
  | @flush i t _ _ ht hw => exact h.flush (inv.tasks t (List.mem_of_getElem? ht)) ht hw
  | @post i t _ _ _ ht hw =>
    have active := Task.not_finished_of_call hw
    exact h.put ht active (fun p hp => .inr (h.captured_of_active ht active p hp)) rfl
  | @serve i t a ht ha files =>
    obtain ⟨url, rest, hw⟩ := (inv.tasks t (List.mem_of_getElem? ht)).waits a ha
    have active := Task.not_finished_of_call hw
    have same := h.put (u := { t with attempt := some (a.serve (s.store.amid files)).1 }) ht active
      (fun p hp => .inr (h.captured_of_active ht active p hp)) rfl
    exact ⟨same.others, same.captured, same.bounded⟩
  | serveLate => exact ⟨h.others, h.captured, h.bounded⟩
  | settle _ ht ha => exact h.settle inv ht ha
  | other => exact ⟨h.others, h.captured, h.bounded⟩

theorem run_preserves_alone {events : List Event} (h : Alone s) (inv : Invariant d.client origin s)
    (turns : TakesTurns d s events) : Alone (s.run d events) := by
  induction events generalizing s with
  | nil => exact h
  | cons e events ih =>
    have step := step_next d s e
    exact ih (step_preserves_alone h inv turns.1 step) (step_preserves_invariant inv step) turns.2

theorem Alone.pending_le (h : Alone s) (inv : Invariant c origin s) :
    s.pending + s.owed ≤ s.samples.pollCount.val := by
  have both : s.pending + s.owed = (s.tasks.map fun t => t.added + t.owed).sum :=
    (List.sum_map_add ..).symm
  rw [both]
  refine sum_map_le _ inv.kept.1 fun i t ht => ?_
  have mem := List.mem_of_getElem? ht
  have sound := inv.tasks t mem
  by_cases ended : t.Finished
  · obtain ⟨summary, hw⟩ := ended
    have added := sound.added_eq_zero (by simp [hw])
    have owed := sound.owed_eq_zero (by simp [Task.Flushing, hw, Program.nextCall?])
    exact .inl (by omega)
  · refine (sound.added_add_owed (inv.posted t mem)).imp_right ?_
    rintro ⟨p, hp, le⟩
    have last := (h.others i t ht).resolve_left ended
    have there := h.captured_of_active ht ended p hp
    exact ⟨last, by omega⟩

/-- Where reports take turns, what the server has counted is what was recorded at most, and what was
added for posts that were applied though the client has taken them for failures. -/
theorem counted_le_recorded (d : Site) (origin : Store)
    (absent : storedCounter origin Samples.pollCountName = none) (events : List Event)
    (turns : TakesTurns d (start origin) events) :
    let s := (start origin).run d events
    counted s.store ≤ s.recorded + s.stray := by
  intro s
  have inv : Invariant d.client origin s := run_preserves_invariant (start_invariant _ _) events
  have alone : Alone s := run_preserves_alone (start_alone origin) (start_invariant _ _) turns
  have before : counted origin = 0 := by
    rw [counted, Store.total, absent]
    rfl
  have total := inv.total
  have bounded := alone.bounded
  have pending := alone.pending_le inv
  omega

def emptyMemory : Store := ⟨.memory (.new none .inline), .empty ""⟩

/-- A post is applied, its answer is lost, and the next attempt is applied too. -/
def lostAnswer : List Event :=
  [.record [], .report, .advance 0, .advance 0] ++ List.replicate 5 (.serve 0 (.empty "")) ++
    .lose 0 (some none) :: List.replicate 3 (.advance 0) ++ List.replicate 5 (.serve 0 (.empty ""))

theorem lostAnswer_within_stray :
    storedCounter emptyMemory Samples.pollCountName = none ∧
      TakesTurns .standard (start emptyMemory) lostAnswer ∧
      counted ((start emptyMemory).run .standard lostAnswer).store ≤
        ((start emptyMemory).run .standard lostAnswer).recorded +
          ((start emptyMemory).run .standard lostAnswer).stray := by
  have absent : storedCounter emptyMemory Samples.pollCountName = none := by decide +kernel
  have turns : TakesTurns .standard (start emptyMemory) lostAnswer := by decide +kernel
  exact ⟨absent, turns, counted_le_recorded .standard emptyMemory absent lostAnswer turns⟩

/-- One poll was recorded, and the server has counted two. -/
theorem lostAnswer_counted_twice :
    TakesTurns .standard (start emptyMemory) lostAnswer ∧
      storedCounter emptyMemory Samples.pollCountName = none ∧
      ((start emptyMemory).run .standard lostAnswer).recorded = 1 ∧
      counted ((start emptyMemory).run .standard lostAnswer).store = 2 := by
  decide +kernel

end Deliveries

end Telemetry.Agent
