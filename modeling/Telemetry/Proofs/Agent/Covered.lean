import Telemetry.Proofs.Agent.Turns
/-!
The polls of an agent on a server that keeps its metrics in memory. There a post that is answered with
success has added all that it carries. So what was recorded is counted or still with the agent, and no
poll is lost; polls that the server has accepted and the agent has not taken off yet are in both places.
-/

namespace Telemetry.Agent

open Server Http

namespace Attempt

variable {a : Attempt}

/-- What the storage has taken was added. -/
def Faithful (a : Attempt) : Prop := ∀ n, a.asked = [(n, true)] → a.added = n

theorem Faithful.serve (h : a.Faithful) (settling : a.Settling) {s : Store} {m : Memory}
    (engine : s.engine = .memory m) : (a.serve s).1.Faithful := by
  cases hw : a.work with
  | done response =>
    rw [Attempt.serve, hw]
    exact h
  | log e rest =>
    rw [Attempt.serve, hw]
    exact h
  | call c rest =>
    rw [serve_call hw]
    intro n asked
    cases asks : c.delta? Samples.pollCountName with
    | none =>
      have change := s.grown_perform c Samples.pollCountName
      rw [asks] at change asked
      have unchanged := change.resolve_right (by rintro ⟨_, impossible, -⟩; cases impossible)
      have before : a.added = n := h n (by simpa using asked)
      show a.added + (Store.total _ _ - Store.total _ _) = n
      omega
    | some k =>
      -- Nothing was asked for before, so this is all that was added.
      rw [asks] at asked
      obtain ⟨first, single⟩ : a.asked = [] ∧ [(k, c.took (s.perform c).1)] = [(n, true)] :=
        (List.append_eq_singleton_iff.mp asked).resolve_right (by simp)
      obtain ⟨rfl, taken⟩ : k = n ∧ c.took (s.perform c).1 = true := by simpa using single
      have zero : a.added = 0 := by
        refine settling.grown.resolve_right ?_
        rintro ⟨_, _, some, -⟩
        cases first.symm.trans some
      have grown := Store.total_of_took engine asks taken
      show a.added + (Store.total _ _ - Store.total _ _) = k
      omega

/-- A post that the client has taken for success has added all that the request carries. -/
theorem Settling.added_of_takes (h : Settling a) (faithful : a.Faithful) {response : Response}
    (ended : a.work = .done response) (taken : Client.takes (some (some response)) = true) :
    a.added = (carried? a.request).getD 0 := by
  have asked := h.asked_of_takes ended taken
  cases carried : carried? a.request with
  | none =>
    refine h.grown.resolve_right ?_
    rintro ⟨_, _, some, -⟩
    rw [carried, some] at asked
    cases asked
  | some n => exact faithful n (by rw [asked, carried]; rfl)

end Attempt

namespace Deliveries

variable {d : Site} {origin : Store} {s s' : Deliveries} {i : Nat} {t u : Task} {a : Attempt}

structure Covered (s : Deliveries) : Prop where
  memory : ∃ m, s.store.engine = .memory m
  posted : ∀ t ∈ s.tasks, ∀ a, t.attempt = some a → a.Faithful
  covered : s.recorded < 2 ^ 63 → s.recorded + s.owed ≤ s.delivered + s.samples.pollCount.val

theorem start_covered (m : Memory) (files : FileTree) : Covered (start ⟨.memory m, files⟩) where
  memory := ⟨m, rfl⟩
  posted _ none := nomatch none
  covered _ := by simp [start, owed, delivered, Samples.new, Count.zero]

theorem memory_amid (h : ∃ m, s.store.engine = .memory m) (files : FileTree) :
    ∃ m, (s.store.amid files).engine = .memory m := by
  obtain ⟨m, engine⟩ := h
  exact ⟨m, by rw [Store.amid, engine]⟩

theorem memory_perform {store : Store} (h : ∃ m, store.engine = .memory m) (c : Call) :
    ∃ m, (store.perform c).2.engine = .memory m := by
  obtain ⟨m, engine⟩ := h
  exact ⟨(m.perform store.files c).2.1, by rw [Store.perform, engine]⟩

theorem memory_serve {store : Store} (h : ∃ m, store.engine = .memory m) (a : Attempt) :
    ∃ m, (a.serve store).2.engine = .memory m := by
  cases hw : a.work with
  | done response =>
    rw [Attempt.serve, hw]
    exact h
  | log e rest =>
    rw [Attempt.serve, hw]
    exact h
  | call c rest =>
    rw [Attempt.serve_call hw]
    exact memory_perform h c

theorem Covered.put (h : Covered s) (ht : s.tasks[i]? = some t)
    (posted : ∀ a, u.attempt = some a → a.Faithful) (owed : u.owed = t.owed) :
    Covered (s.put i u) := by
  have owing := owed_put ht u
  rw [owed, sub_self, add_zero] at owing
  constructor
  case memory => exact h.memory
  case posted => exact forall_mem_put posted h.posted
  case covered =>
    rw [owing]
    exact h.covered

theorem Covered.report (h : Covered s) : Covered (s.enlist d) := by
  constructor
  case memory => exact h.memory
  case posted => exact forall_mem_enlist (fun _ ha => absurd ha (Option.not_mem_none _)) h.posted
  case covered =>
    rw [owed_enlist]
    exact h.covered

theorem Covered.record (h : Covered s) (inv : Invariant d.client origin s)
    (readings : List Metric) : Covered
      { s with samples := (s.samples.record readings).1, recorded := s.recorded + 1 } := by
  have count : (s.samples.record readings).1.pollCount.val = _ :=
    Count.val_addSaturating_one inv.kept.1
  have kept := inv.kept
  have covered := h.covered
  constructor
  case memory => exact h.memory
  case posted => exact h.posted
  case covered =>
    rw [count]
    show s.recorded + 1 < 2 ^ 63 → ((s.recorded + 1 : Nat) : Int) + s.owed ≤ s.delivered + _
    omega

theorem Covered.flush {p : Count} {rest : Unit → Work Summary} (h : Covered s)
    (sound : t.Sound d.client) (ht : s.tasks[i]? = some t) (hw : t.work = .call (.flush p) rest) :
    Covered { s.put i (t.answered d.client (.flush p) rest ()) with
      samples := s.samples.flush p } := by
  obtain ⟨owing, polls, -⟩ := sound.owed_of_flush hw
  have flushed := Task.after_flush d.client t.phase p
  have settled : (t.answered d.client (.flush p) rest ()).owed = 0 := by
    rw [Task.owed, Task.answered, flushed]
  have left : (s.samples.flush p).pollCount.val = max (s.samples.pollCount.val - p.val) 0 :=
    Count.val_drop polls
  have owes := owed_put ht (t.answered d.client (.flush p) rest ())
  rw [settled, owing] at owes
  have covered := h.covered
  constructor
  case memory => exact h.memory
  case posted => exact forall_mem_put (fun _ ha => absurd ha (Option.not_mem_none _)) h.posted
  case covered =>
    rw [left]
    show s.recorded < 2 ^ 63 → (s.recorded : Int) + (s.put i _).owed ≤ s.delivered + _
    rw [owes]
    omega

theorem Covered.settle {reply : Option (Option Response)} (h : Covered s)
    (inv : Invariant d.client origin s) (ht : s.tasks[i]? = some t) (ha : t.attempt = some a)
    (honest : Client.takes reply = true →
      ∃ response, a.work = .done response ∧ reply = some (some response)) :
    Covered (s.settle d i t a reply) := by
  have mem := List.mem_of_getElem? ht
  obtain ⟨url, next, hw⟩ := (inv.tasks t mem).waits a ha
  have covered := h.covered
  rw [settle_eq hw]
  constructor
  case memory => exact h.memory
  case posted => exact forall_mem_put (fun _ ha => absurd ha (Option.not_mem_none _)) h.posted
  case covered =>
    show s.recorded < 2 ^ 63 → (s.recorded : Int) + (s.put i _).owed ≤
      List.sum (List.map _ _) + s.samples.pollCount.val
    rw [inv.owed_settle ht hw, delivered_settle]
    by_cases taken : Client.takes reply = true
    · obtain ⟨response, ended, rfl⟩ := honest taken
      have added := (inv.posted t mem a ha).added_of_takes (h.posted t mem a ha) ended taken
      rw [if_pos taken, if_pos taken, added]
      omega
    · rw [if_neg taken, if_neg taken]
      omega

theorem Covered.serve (h : Covered s) (inv : Invariant d.client origin s)
    (ht : s.tasks[i]? = some t) (ha : t.attempt = some a) (files : FileTree) :
    Covered { s.put i { t with attempt := some (a.serve (s.store.amid files)).1 } with
      store := (a.serve (s.store.amid files)).2 } := by
  have mem := List.mem_of_getElem? ht
  have memory := memory_amid h.memory files
  obtain ⟨m, engine⟩ := memory
  have faithful := (h.posted t mem a ha).serve (inv.posted t mem a ha) engine
  have step : Covered (s.put i { t with attempt := some (a.serve (s.store.amid files)).1 }) := by
    refine h.put ht (fun b hb => ?_) rfl
    obtain rfl := Option.some.inj hb
    exact faithful
  exact ⟨memory_serve ⟨m, engine⟩ a, step.posted, step.covered⟩

theorem step_preserves_covered {e : Event} (h : Covered s) (inv : Invariant d.client origin s)
    (step : Step d s e s') : Covered s' := by
  cases step with
  | idle => exact h
  | record readings => exact h.record inv readings
  | report => exact h.report
  | @log i t _ _ ht hw => exact h.put ht (h.posted t (List.mem_of_getElem? ht)) rfl
  | @read i t rest ht hw =>
    obtain ⟨fresh, carrying⟩ := (inv.tasks t (List.mem_of_getElem? ht)).phase_read hw s.samples
    refine h.put ht (fun _ ha => absurd ha (Option.not_mem_none _)) ?_
    rw [Task.owed, Task.owed, carrying, fresh]
  | @pause _ i t _ _ ht hw reply =>
    have same := (inv.tasks t (List.mem_of_getElem? ht)).phase_pause hw reply
    refine h.put ht (fun _ ha => absurd ha (Option.not_mem_none _)) ?_
    rw [Task.owed, Task.owed, same]
  | @flush i t _ _ ht hw => exact h.flush (inv.tasks t (List.mem_of_getElem? ht)) ht hw
  | post ht hw free =>
    refine h.put ht (fun a ha => ?_) rfl
    obtain rfl := Option.some.inj ha
    exact fun n asked => absurd asked.symm (List.cons_ne_nil _ _)
  | serve ht ha files => exact h.serve inv ht ha files
  | @serveLate k a hk files =>
    exact ⟨memory_serve (memory_amid h.memory files) a, h.posted, h.covered⟩
  | settle _ ht ha honest => exact h.settle inv ht ha honest
  | @other c foreign files =>
    exact ⟨memory_perform (memory_amid h.memory files) c, h.posted, h.covered⟩

theorem run_preserves_covered {events : List Event} (h : Covered s)
    (inv : Invariant d.client origin s) : Covered (s.run d events) := by
  induction events generalizing s with
  | nil => exact h
  | cons e events ih =>
    have step := step_next d s e
    exact ih (step_preserves_covered h inv step) (step_preserves_invariant inv step)

theorem Invariant.pending_nonneg {c : Client} (h : Invariant c origin s) : 0 ≤ s.pending := by
  refine List.sum_nonneg fun y hy => ?_
  obtain ⟨t, ht, rfl⟩ := List.mem_map.mp hy
  cases ha : t.attempt with
  | none => simp [Task.added, ha]
  | some a =>
    rw [Task.added, ha]
    exact (h.posted t ht a ha).added_nonneg

theorem Invariant.stray_nonneg {c : Client} (h : Invariant c origin s) : 0 ≤ s.stray := by
  refine List.sum_nonneg fun y hy => ?_
  obtain ⟨a, ha, rfl⟩ := List.mem_map.mp hy
  exact (h.late a ha).added_nonneg

/-- No poll is lost: while no report stands between the acceptance of its last chunk and the flush,
what was recorded is counted by the server or still with the agent. Where reports take turns, nothing
was added for a post that the client has taken for a failure and the server has no polls of a report
that are not taken off yet, each poll is in one of the two places only. -/
theorem no_poll_lost (d : Site) (m : Memory) (files : FileTree) (events : List Event) :
    let s := (start ⟨.memory m, files⟩).run d events
    let increase := counted s.store - counted ⟨.memory m, files⟩
    s.recorded < 2 ^ 63 → (∀ t ∈ s.tasks, ¬t.Flushing) →
      s.recorded ≤ increase + s.samples.pollCount.val ∧
      (TakesTurns d (start ⟨.memory m, files⟩) events → (∀ a ∈ s.failed, a.added = 0) →
        (∀ t ∈ s.tasks, ¬t.Unsettled) → s.recorded = increase + s.samples.pollCount.val) := by
  intro s increase few idle
  have inv : Invariant d.client ⟨.memory m, files⟩ s :=
    run_preserves_invariant (start_invariant _ _) events
  have covers : Covered s := run_preserves_covered (start_covered m files) (start_invariant d.client _)
  have settled : s.owed = 0 := sum_map_eq_zero fun t ht => (inv.tasks t ht).owed_eq_zero (idle t ht)
  have total := inv.total
  have covered := covers.covered few
  constructor
  · have pending := inv.pending_nonneg
    have stray := inv.stray_nonneg
    omega
  · intro turns unapplied quiet
    have alone : Alone s := run_preserves_alone (start_alone _) (start_invariant _ _) turns
    have bounded := alone.bounded
    have pending : s.pending = 0 :=
      sum_map_eq_zero fun t ht => not_not.mp fun some => quiet t ht (.inr some)
    have stray : s.stray = 0 := sum_map_eq_zero unapplied
    omega

/-- A post is lost on its way, and polls go on before the report ends. -/
def repeatedPost : List Event :=
  [.record [], .report, .advance 0, .advance 0, .record [], .lose 0 (some none)] ++
    List.replicate 3 (.advance 0) ++ List.replicate 5 (.serve 0 (.empty "")) ++
    [.answer 0, .advance 0, .advance 0]

theorem repeatedPost_keeps_polls :
    ((start emptyMemory).run .standard repeatedPost).recorded = 2 ∧
      (((start emptyMemory).run .standard repeatedPost).recorded : Int) =
        counted ((start emptyMemory).run .standard repeatedPost).store - counted emptyMemory +
          ((start emptyMemory).run .standard repeatedPost).samples.pollCount.val := by
  refine ⟨by decide +kernel, ?_⟩
  exact (no_poll_lost .standard (.new none .inline) (.empty "") repeatedPost (by decide +kernel)
    (by decide +kernel)).2 (by decide +kernel) (by decide +kernel) (by decide +kernel)

end Deliveries

end Telemetry.Agent
