import Telemetry.Proofs.Agent.Deliveries
import Telemetry.Proofs.Agent.Samples
/-!
The polls of an agent on a server with any storage. Every step keeps account of what the counter of the
polls has grown by: for posts whose answer is still awaited, for posts that the client has taken for
success, and for posts that it has taken for failures.
-/

namespace Telemetry

namespace Agent

open Server Http

theorem sum_map_set {α : Type} (f : α → Int) {l : List α} {i : Nat} {x : α} (h : l[i]? = some x)
    (y : α) : ((l.set i y).map f).sum = (l.map f).sum + (f y - f x) := by
  induction l generalizing i with
  | nil => cases h
  | cons z l ih =>
    cases i with
    | zero =>
      obtain rfl := Option.some.inj h
      simp only [List.set_cons_zero, List.map_cons, List.sum_cons]
      omega
    | succ i =>
      simp only [List.set_cons_succ, List.map_cons, List.sum_cons, ih h]
      omega

namespace Task

variable {c : Client} {t : Task}

theorem Sound.added_eq_zero (h : t.Sound c) (hw : ∀ url r next, t.work ≠ .call (.post url r) next) :
    t.added = 0 := by
  rw [added, h.attempt_eq_none hw]
  rfl

theorem Sound.phase_read {next : Samples → Work Summary} (h : t.Sound c)
    (hw : t.work = .call .read next) (samples : Samples) : t.phase = .fresh ∧
      (t.answered c .read next samples).phase = .carrying samples.pollCount := by
  have follows := h.follows
  rw [hw] at follows
  have allowed := follows.1
  rw [Task.answered]
  cases hp : t.phase with
  | fresh => exact ⟨rfl, rfl⟩
  | _ =>
    rw [hp] at allowed
    exact allowed.elim

theorem Sound.phase_pause {delay : Duration} {next : Option Unit → Work Summary} (h : t.Sound c)
    (hw : t.work = .call (.pause delay) next) (reply : Option Unit) :
    (t.answered c (.pause delay) next reply).phase = t.phase := by
  have follows := h.follows
  rw [hw] at follows
  have allowed := follows.1
  rw [Task.answered]
  cases hp : t.phase with
  | carrying p => rfl
  | _ =>
    rw [hp] at allowed
    exact allowed.elim

theorem Sound.owed_of_flush {p : Count} {next : Unit → Work Summary} (h : t.Sound c)
    (hw : t.work = .call (.flush p) next) :
    t.owed = p.val ∧ 0 ≤ p.val ∧ (t.phase = .carrying p ∨ t.phase = .owing p) := by
  have follows := h.follows
  rw [hw] at follows
  have allowed := follows.1
  cases hp : t.phase with
  | carrying q =>
    rw [hp] at allowed
    obtain ⟨rfl, none⟩ := allowed
    have polls := h.polls p (.inl hp)
    exact ⟨by simp only [owed, hp]; omega, polls, .inl rfl⟩
  | owing q =>
    rw [hp] at allowed
    obtain rfl := allowed
    exact ⟨by simp only [owed, hp], h.polls p (.inr hp), .inr rfl⟩
  | _ =>
    rw [hp] at allowed
    exact allowed.elim

theorem after_flush (c : Client) (phase : Phase) (p : Count) :
    (reporting c).after phase (.flush p) () = .flushed := by
  cases phase <;> rfl

/-- Between the acceptance of the last chunk and the flush nothing else is done. -/
theorem Sound.owed_eq_zero (h : t.Sound c) (idle : ¬t.Flushing) : t.owed = 0 := by
  cases hp : t.phase with
  | owing p =>
    have follows := h.follows
    rw [hp] at follows
    cases hc : t.work.nextCall? with
    | none => exact (follows.ended hc).elim fun _ ended => ended.elim
    | some action =>
      have allowed := follows.allows hc
      cases action with
      | flush q => exact absurd ⟨q, hc⟩ idle
      | _ => exact allowed.elim
  | _ => simp only [owed, hp]

variable {a : Attempt} {url : String} {reply : Option (Option Response)}
  {next : Option (Option Response) → Work Summary}

theorem phase_answered {p : Count} {r : Request} (hp : t.phase = .carrying p) :
    (t.answered c (.post url r) next reply).phase =
      if Client.takes reply && (carried? r).isSome then .owing p else .carrying p := by
  rw [answered, hp]
  rfl

theorem eq_of_after_post {p q : Count} {r : Request} (hp : t.phase = .carrying p)
    (hq : (reporting c).after t.phase (.post url r) reply = .carrying q ∨
      (reporting c).after t.phase (.post url r) reply = .owing q) : q = p := by
  rw [hp] at hq
  dsimp only [reporting] at hq
  split at hq <;> rcases hq with hq | hq <;> cases hq <;> rfl

theorem Sound.post_answered {r : Request} (h : t.Sound c) (hw : t.work = .call (.post url r) next)
    (reply : Option (Option Response)) : Sound c (t.answered c (.post url r) next reply) := by
  obtain ⟨p, hp, polls, -, -⟩ := h.post hw
  refine h.answered hw reply fun q hq => ?_
  obtain rfl : q = p := eq_of_after_post hp hq
  exact polls

theorem Sound.owed_answered {r : Request} (h : t.Sound c) (hw : t.work = .call (.post url r) next)
    (reply : Option (Option Response)) : (t.answered c (.post url r) next reply).owed =
      if Client.takes reply then (carried? r).getD 0 else 0 := by
  obtain ⟨p, hp, -, -, carried⟩ := h.post hw
  rw [owed, phase_answered hp]
  cases Client.takes reply with
  | false => rfl
  | true =>
    rcases carried with carried | carried
    · rw [carried]
      rfl
    · rw [carried]
      rfl

end Task

namespace Deliveries

variable {c : Client} {d : Site} {origin : Store} {s : Deliveries} {i : Nat} {t u : Task}
  {a : Attempt}

structure Invariant (c : Client) (origin : Store) (s : Deliveries) : Prop where
  tasks : ∀ t ∈ s.tasks, t.Sound c
  posted : ∀ t ∈ s.tasks, ∀ a, t.attempt = some a → a.Settling
  late : ∀ a ∈ s.failed, a.Settling
  total : counted s.store = counted origin + (s.pending + s.delivered + s.stray)
  kept : 0 ≤ s.samples.pollCount.val ∧ s.samples.pollCount.val ≤ s.recorded

theorem start_invariant (c : Client) (origin : Store) : Invariant c origin (start origin) := by
  constructor <;> simp [start, pending, delivered, stray, Samples.new, Count.zero]

theorem forall_mem_put {P : Task → Prop} (hu : P u) (h : ∀ v ∈ s.tasks, P v) :
    ∀ v ∈ (s.put i u).tasks, P v := fun v hv =>
  (List.mem_or_eq_of_mem_set hv).elim (h v) fun same => same ▸ hu

theorem pending_put (ht : s.tasks[i]? = some t) (u : Task) :
    (s.put i u).pending = s.pending + (u.added - t.added) := sum_map_set _ ht u

theorem owed_put (ht : s.tasks[i]? = some t) (u : Task) :
    (s.put i u).owed = s.owed + (u.owed - t.owed) := sum_map_set _ ht u

/-- A report takes a step that is seen by nobody else. -/
theorem Invariant.put (h : Invariant d.client origin s) (ht : s.tasks[i]? = some t)
    (sound : u.Sound d.client) (posted : ∀ a, u.attempt = some a → a.Settling)
    (added : u.added = t.added) : Invariant d.client origin (s.put i u) := by
  have pending := pending_put ht u
  rw [added, sub_self, add_zero] at pending
  constructor
  case tasks => exact forall_mem_put sound h.tasks
  case posted => exact forall_mem_put posted h.posted
  case late => exact h.late
  case total =>
    rw [pending]
    exact h.total
  case kept => exact h.kept

theorem owed_enlist (d : Site) (s : Deliveries) : (s.enlist d).owed = s.owed := by
  simp [enlist, owed, Task.owed]

theorem forall_mem_enlist {P : Task → Prop} (begun : P ⟨Reporter.report d.client d.batchSize, .fresh, none⟩)
    (h : ∀ t ∈ s.tasks, P t) : ∀ t ∈ (s.enlist d).tasks, P t := by
  intro t ht
  rcases List.mem_append.mp ht with ht | ht
  · exact h t ht
  · rw [List.mem_singleton.mp ht]
    exact begun

theorem Invariant.report (h : Invariant d.client origin s) :
    Invariant d.client origin (s.enlist d) := by
  have adding : (s.enlist d).pending = s.pending := by simp [enlist, pending, Task.added]
  constructor
  case tasks => exact forall_mem_enlist (Task.sound_new d.client d.batchSize) h.tasks
  case posted => exact forall_mem_enlist (fun a ha => nomatch ha) h.posted
  case late => exact h.late
  case total =>
    rw [adding]
    exact h.total
  case kept => exact h.kept

theorem Invariant.record (h : Invariant c origin s) (readings : List Metric) : Invariant c origin
    { s with samples := (s.samples.record readings).1, recorded := s.recorded + 1 } := by
  have count : (s.samples.record readings).1.pollCount.val = _ :=
    Count.val_addSaturating_one h.kept.1
  have kept := h.kept
  constructor
  case tasks => exact h.tasks
  case posted => exact h.posted
  case late => exact h.late
  case total => exact h.total
  case kept =>
    rw [count]
    show _ ∧ _ ≤ ((s.recorded + 1 : Nat) : Int)
    omega

theorem Invariant.flush {p : Count} {rest : Unit → Work Summary} (h : Invariant d.client origin s)
    (ht : s.tasks[i]? = some t) (hw : t.work = .call (.flush p) rest) :
    Invariant d.client origin { s.put i (t.answered d.client (.flush p) rest ()) with
      samples := s.samples.flush p } := by
  have sound := h.tasks t (List.mem_of_getElem? ht)
  obtain ⟨-, polls, -⟩ := sound.owed_of_flush hw
  have flushed := Task.after_flush d.client t.phase p
  have left : (s.samples.flush p).pollCount.val = max (s.samples.pollCount.val - p.val) 0 :=
    Count.val_drop polls
  have step : Invariant d.client origin (s.put i (t.answered d.client (.flush p) rest ())) := by
    refine h.put ht (sound.answered hw () fun q hq => ?_) (fun a ha => nomatch ha) ?_
    · rw [flushed] at hq
      rcases hq with hq | hq <;> cases hq
    · exact (sound.added_eq_zero (by simp [hw])).symm
  have kept := h.kept
  constructor
  case tasks => exact step.tasks
  case posted => exact step.posted
  case late => exact step.late
  case total => exact step.total
  case kept =>
    rw [left]
    show _ ∧ _ ≤ (s.recorded : Int)
    omega

theorem Invariant.read {rest : Samples → Work Summary} (h : Invariant d.client origin s)
    (ht : s.tasks[i]? = some t) (hw : t.work = .call .read rest) :
    Invariant d.client origin (s.put i (t.answered d.client .read rest s.samples)) := by
  have sound := h.tasks t (List.mem_of_getElem? ht)
  obtain ⟨-, carrying⟩ := sound.phase_read hw s.samples
  refine h.put ht (sound.answered hw s.samples fun p hp => ?_) (fun a ha => nomatch ha) ?_
  · obtain rfl : s.samples.pollCount = p := by
      rcases hp with hp | hp <;> cases carrying.symm.trans hp
      rfl
    exact h.kept.1
  · exact (sound.added_eq_zero (by simp [hw])).symm

theorem Invariant.pause {delay : Duration} {rest : Option Unit → Work Summary}
    (h : Invariant d.client origin s) (ht : s.tasks[i]? = some t)
    (hw : t.work = .call (.pause delay) rest) (reply : Option Unit) :
    Invariant d.client origin (s.put i (t.answered d.client (.pause delay) rest reply)) := by
  have sound := h.tasks t (List.mem_of_getElem? ht)
  have same := sound.phase_pause hw reply
  refine h.put ht (sound.answered hw reply fun p hp => ?_) (fun a ha => nomatch ha) ?_
  · exact sound.polls p (same ▸ hp)
  · exact (sound.added_eq_zero (by simp [hw])).symm

theorem Invariant.post {url : String} {r : Request} {rest : Option (Option Response) → Work Summary}
    (h : Invariant d.client origin s) (ht : s.tasks[i]? = some t)
    (hw : t.work = .call (.post url r) rest) (free : t.attempt = none) :
    Invariant d.client origin (s.put i { t with attempt := some (.new d.key r) }) := by
  have sound := h.tasks t (List.mem_of_getElem? ht)
  obtain ⟨p, -, polls, there, carried⟩ := sound.post hw
  refine h.put ht ⟨sound.follows, sound.polls, ?_⟩ ?_ ?_
  · rintro a ha
    obtain rfl := Option.some.inj ha
    exact ⟨url, rest, hw⟩
  · rintro a ha
    obtain rfl := Option.some.inj ha
    refine Attempt.settling_new d.key (there.trans d.path) fun n hn => ?_
    rw [hn] at carried
    rcases carried with no | same
    · cases no
    · rw [Option.some.inj same]
      exact polls
  · rw [Task.added, Task.added, free]
    rfl

theorem delivered_settle (s : Deliveries) (a : Attempt) (reply : Option (Option Response)) :
    ((if Client.takes reply then s.accepted ++ [a] else s.accepted).map Attempt.added).sum =
      s.delivered + if Client.takes reply then a.added else 0 := by
  split <;> simp [delivered]

theorem stray_settle (s : Deliveries) (a : Attempt) (reply : Option (Option Response)) :
    ((if Client.takes reply then s.failed else s.failed ++ [a]).map Attempt.added).sum =
      s.stray + if Client.takes reply then 0 else a.added := by
  split <;> simp [stray]

theorem Invariant.owed_settle {url : String} {rest : Option (Option Response) → Work Summary}
    (h : Invariant c origin s) (ht : s.tasks[i]? = some t)
    (hw : t.work = .call (.post url a.request) rest) (reply : Option (Option Response)) :
    (s.put i (t.answered c (.post url a.request) rest reply)).owed =
      s.owed + if Client.takes reply then (carried? a.request).getD 0 else 0 := by
  have sound := h.tasks t (List.mem_of_getElem? ht)
  obtain ⟨p, hp, -⟩ := sound.post hw
  have before : t.owed = 0 := by rw [Task.owed, hp]
  rw [owed_put ht, sound.owed_answered hw, before, sub_zero]

theorem forall_mem_settle {P : Attempt → Prop} (reply : Option (Option Response)) (ha : P a)
    (h : ∀ b ∈ s.failed, P b) :
    ∀ b ∈ (if Client.takes reply then s.failed else s.failed ++ [a]), P b := by
  intro b hb
  split at hb
  · exact h b hb
  · rcases List.mem_append.mp hb with hb | hb
    · exact h b hb
    · exact List.mem_singleton.mp hb ▸ ha

theorem Invariant.settle {reply : Option (Option Response)} (h : Invariant d.client origin s)
    (ht : s.tasks[i]? = some t) (ha : t.attempt = some a) :
    Invariant d.client origin (s.settle d i t a reply) := by
  have mem := List.mem_of_getElem? ht
  have sound := h.tasks t mem
  obtain ⟨url, next, hw⟩ := sound.waits a ha
  have pending := pending_put ht (t.answered d.client (.post url a.request) next reply)
  have before : t.added = a.added := by rw [Task.added, ha]; rfl
  have after : (t.answered d.client (.post url a.request) next reply).added = 0 := rfl
  rw [before, after] at pending
  have total := h.total
  rw [settle_eq hw]
  constructor
  case tasks => exact forall_mem_put (sound.post_answered hw reply) h.tasks
  case posted => exact forall_mem_put (fun a ha => nomatch ha) h.posted
  case late => exact forall_mem_settle reply (h.posted t mem a ha) h.late
  case total =>
    show counted s.store = counted origin + ((s.put i _).pending + List.sum (List.map _ _) +
      List.sum (List.map _ _))
    rw [pending, delivered_settle, stray_settle]
    split <;> omega
  case kept => exact h.kept

theorem counted_amid (s : Store) (files : FileTree) : counted (s.amid files) = counted s :=
  s.total_amid files _

theorem Invariant.serve (h : Invariant d.client origin s) (ht : s.tasks[i]? = some t)
    (ha : t.attempt = some a) (files : FileTree) : Invariant d.client origin
      { s.put i { t with attempt := some (a.serve (s.store.amid files)).1 } with
        store := (a.serve (s.store.amid files)).2 } := by
  have mem := List.mem_of_getElem? ht
  have sound := h.tasks t mem
  obtain ⟨settling, request, count⟩ := (h.posted t mem a ha).serve (s.store.amid files)
  rw [counted_amid] at count
  have pending := pending_put ht { t with attempt := some (a.serve (s.store.amid files)).1 }
  have before : t.added = a.added := by rw [Task.added, ha]; rfl
  have after : Task.added { t with attempt := some (a.serve (s.store.amid files)).1 } =
    (a.serve (s.store.amid files)).1.added := rfl
  rw [before, after] at pending
  have total := h.total
  constructor
  case tasks =>
    refine forall_mem_put ⟨sound.follows, sound.polls, fun b hb => ?_⟩ h.tasks
    obtain rfl := Option.some.inj hb
    rw [request]
    exact sound.waits a ha
  case posted =>
    refine forall_mem_put (fun b hb => ?_) h.posted
    obtain rfl := Option.some.inj hb
    exact settling
  case late => exact h.late
  case total =>
    show counted _ = counted origin + ((s.put i _).pending + s.delivered + s.stray)
    rw [count, pending]
    omega
  case kept => exact h.kept

theorem Invariant.serveLate {k : Nat} (h : Invariant d.client origin s) (hk : s.failed[k]? = some a)
    (files : FileTree) : Invariant d.client origin { s with
      store := (a.serve (s.store.amid files)).2
      failed := s.failed.set k (a.serve (s.store.amid files)).1 } := by
  obtain ⟨settling, -, count⟩ :=
    (h.late a (List.mem_of_getElem? hk)).serve (s.store.amid files)
  rw [counted_amid] at count
  have stray := sum_map_set Attempt.added hk (a.serve (s.store.amid files)).1
  have total := h.total
  constructor
  case tasks => exact h.tasks
  case posted => exact h.posted
  case late =>
    intro b hb
    rcases List.mem_or_eq_of_mem_set hb with hb | rfl
    · exact h.late b hb
    · exact settling
  case total =>
    show counted _ = counted origin + (s.pending + s.delivered + List.sum (List.map _ _))
    rw [count, stray]
    show counted s.store + _ = counted origin + (s.pending + s.delivered + (s.stray + _))
    omega
  case kept => exact h.kept

theorem Invariant.other {c : Call} (h : Invariant d.client origin s)
    (foreign : c.delta? Samples.pollCountName = none) (files : FileTree) :
    Invariant d.client origin { s with store := ((s.store.amid files).perform c).2 } := by
  have change := (s.store.amid files).grown_perform c Samples.pollCountName
  rw [foreign] at change
  have same : counted ((s.store.amid files).perform c).2 = counted s.store :=
    (change.resolve_right fun ⟨_, impossible, _⟩ => nomatch impossible).trans (counted_amid _ _)
  constructor
  case tasks => exact h.tasks
  case posted => exact h.posted
  case late => exact h.late
  case total =>
    rw [same]
    exact h.total
  case kept => exact h.kept

theorem step_preserves_invariant {e : Event} {s' : Deliveries} (h : Invariant d.client origin s)
    (step : Step d s e s') : Invariant d.client origin s' := by
  cases step with
  | idle => exact h
  | record readings => exact h.record readings
  | report => exact h.report
  | @log i t _ _ ht hw =>
    have mem := List.mem_of_getElem? ht
    exact h.put ht ((h.tasks t mem).log hw) (h.posted t mem) rfl
  | read ht hw => exact h.read ht hw
  | pause _ ht hw reply => exact h.pause ht hw reply
  | flush ht hw => exact h.flush ht hw
  | post ht hw free => exact h.post ht hw free
  | serve ht ha files => exact h.serve ht ha files
  | serveLate hk files => exact h.serveLate hk files
  | settle _ ht ha => exact h.settle ht ha
  | other foreign files => exact h.other foreign files

theorem run_preserves_invariant (h : Invariant d.client origin s) (events : List Event) :
    Invariant d.client origin (s.run d events) := by
  induction events generalizing s with
  | nil => exact h
  | cons e events ih => exact ih (step_preserves_invariant h (step_next d s e))

end Deliveries

end Agent

end Telemetry
