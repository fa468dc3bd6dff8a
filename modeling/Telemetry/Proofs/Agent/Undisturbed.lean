import Telemetry.Agent.Loopback
import Telemetry.Proofs.Agent.Deliveries
/-!
A report that nobody disturbs. If every post arrives and is answered, and nobody else acts, then the
events of a delivery do what the report and the server do when they are run one after the other.
-/

namespace Telemetry.Agent.Deliveries

open Server Http

variable {d : Site} {s s' : Deliveries} {i : Nat} {t : Task} {a : Attempt}

theorem put_self (ht : s.tasks[i]? = some t) : s.put i t = s := by
  obtain ⟨hi, rfl⟩ := List.getElem?_eq_some_iff.mp ht
  simp [put]

theorem getElem?_put (ht : s.tasks[i]? = some t) (u : Task) : (s.put i u).tasks[i]? = some u :=
  List.getElem?_set_self (List.getElem?_eq_some_iff.mp ht).1

theorem run_append (s : Deliveries) (before after : List Event) :
    s.run d (before ++ after) = (s.run d before).run d after := List.foldl_append

theorem next_serve (ht : s.tasks[i]? = some t) (ha : t.attempt = some a) :
    s.next d (.serve i s.store.files) =
      { s.put i { t with attempt := some (a.serve s.store).1 } with
        store := (a.serve s.store).2 } := by
  simp [next, waiting?, ht, ha, s.store.amid_self]

theorem exists_serve {w : Server.Work Response} (ht : s.tasks[i]? = some t)
    (ha : t.attempt = some a) (hw : a.work = w) (logs : List Log.Event) :
    let r := w.runFrom Store.perform logs s.store
    ∃ events b, b.work = .done r.1 ∧
      s.run d events = { s.put i { t with attempt := some b } with store := r.2.1 } := by
  induction w generalizing s t a logs with
  | done response =>
    have same : { t with attempt := some a } = t := by rw [← ha]
    refine ⟨[], a, hw, ?_⟩
    rw [same, put_self ht]
    rfl
  | call c rest ih =>
    have step := next_serve (d := d) ht ha
    rw [Attempt.serve_call hw] at step
    obtain ⟨events, b, ended, later⟩ := ih (s.store.perform c).1
      (s := s.next d (.serve i s.store.files)) (by rw [step]; exact getElem?_put ht _) rfl rfl logs
    rw [step] at ended later
    refine ⟨.serve i s.store.files :: events, b, ended, ?_⟩
    rw [run, List.foldl_cons, ← run, step, later]
    simp [put, Program.runFrom]
  | log e rest ih =>
    have step := next_serve (d := d) ht ha
    rw [Attempt.serve, hw] at step
    obtain ⟨events, b, ended, later⟩ := ih
      (s := s.next d (.serve i s.store.files)) (by rw [step]; exact getElem?_put ht _) rfl rfl
      (e :: logs)
    rw [step] at ended later
    refine ⟨.serve i s.store.files :: events, b, ended, ?_⟩
    rw [run, List.foldl_cons, ← run, step, later]
    simp [put, Program.runFrom]

theorem next_answer {response : Response} (ht : s.tasks[i]? = some t) (ha : t.attempt = some a)
    (ended : a.work = .done response) :
    s.next d (.answer i) = s.settle d i t a (some (some response)) := by
  simp [next, waiting?, ht, ha, ended]

theorem exists_post {url : String} {r : Request} {rest : Option (Option Response) → Work Summary}
    (ht : s.tasks[i]? = some t) (hw : t.work = .call (.post url r) rest) (free : t.attempt = none) :
    let handled := (Application.handle d.key r).run s.store
    let reply := some (some handled.1)
    ∃ events accepted failed, s.run d events =
      { s.put i (t.answered d.client (.post url r) rest reply) with
        store := handled.2.1, accepted, failed } := by
  intro handled reply
  let posted : Task := { t with attempt := some (.new d.key r) }
  have first : s.run d [.advance i] = s.put i posted := by
    simp [run, next, ht, advance, hw, free, posted]
  have ht' := getElem?_put ht posted
  obtain ⟨events, b, ended, served⟩ := exists_serve (d := d) ht' rfl rfl []
  refine ⟨[.advance i] ++ events ++ [.answer i],
    if Client.takes reply then s.accepted ++ [b] else s.accepted,
    if Client.takes reply then s.failed else s.failed ++ [b], ?_⟩
  rw [run_append, run_append, first, served]
  let waiting : Task := { posted with attempt := some b }
  refine (next_answer (s := { (s.put i posted).put i waiting with store := handled.2.1 })
    (getElem?_put ht' waiting) rfl ended).trans ?_
  rw [settle_eq (t := waiting) hw]
  simp only [put, List.set_set]
  rfl

/-- The report can come to its end with this summary, these samples and this storage, and nothing
else happens. -/
def Completes (d : Site) (s : Deliveries) (i : Nat) (summary : Summary) (samples : Samples)
    (store : Store) : Prop :=
  ∃ events u, u.work = .done summary ∧ (s.run d events).tasks = s.tasks.set i u ∧
    (s.run d events).samples = samples ∧ (s.run d events).store = store ∧
    (s.run d events).recorded = s.recorded

theorem Completes.after {first : List Event} {summary : Summary} {samples : Samples} {store : Store}
    (step : s.run d first = s') (tasks : s'.tasks = s.tasks.set i t)
    (recorded : s'.recorded = s.recorded) (h : Completes d s' i summary samples store) :
    Completes d s i summary samples store := by
  subst step
  obtain ⟨events, u, ended, rest, same, kept, count⟩ := h
  refine ⟨first ++ events, u, ended, ?_⟩
  rw [run_append]
  refine ⟨?_, same, kept, count.trans recorded⟩
  rw [rest, tasks, List.set_set]

theorem completes_of_runFrom {w : Work Summary} (ht : s.tasks[i]? = some t) (free : t.attempt = none)
    (hw : t.work = w) (logs : List Log.Event) :
    let r := w.runFrom (Work.answer (Link.toServer d.key)) logs (s.samples, s.store)
    Completes d s i r.1 r.2.1.1 r.2.1.2 := by
  induction w generalizing s t logs with
  | done summary => exact ⟨[], t, hw, (congrArg tasks (put_self ht)).symm, rfl, rfl, rfl⟩
  | log e rest ih =>
    have step : s.run d [.advance i] = s.put i { t with work := rest } := by
      simp [run, next, ht, advance, hw]
    refine .after step rfl rfl ?_
    exact ih (getElem?_put ht { t with work := rest }) free rfl (e :: logs)
  | call action rest ih =>
    cases action with
    | read =>
      have step : s.run d [.advance i] = s.put i (t.answered d.client .read rest s.samples) := by
        simp [run, next, ht, advance, hw]
      refine .after step rfl rfl ?_
      exact ih s.samples (getElem?_put ht (t.answered d.client .read rest s.samples)) rfl rfl logs
    | flush p =>
      have step : s.run d [.advance i] =
          { s.put i (t.answered d.client (.flush p) rest ()) with samples := s.samples.flush p } := by
        simp [run, next, ht, advance, hw]
      refine .after step rfl rfl ?_
      exact ih () (s := { s.put i (t.answered d.client (.flush p) rest ()) with
        samples := s.samples.flush p }) (getElem?_put ht _) rfl rfl logs
    | pause delay =>
      have step : s.run d [.advance i] =
          s.put i (t.answered d.client (.pause delay) rest (some ())) := by
        simp [run, next, ht, advance, hw]
      refine .after step rfl rfl ?_
      exact ih (some ()) (getElem?_put ht (t.answered d.client (.pause delay) rest (some ()))) rfl
        rfl logs
    | post url r =>
      let handled := (Application.handle d.key r).run s.store
      let answered := t.answered d.client (.post url r) rest (some (some handled.1))
      obtain ⟨events, accepted, failed, step⟩ := exists_post ht hw free
      refine .after step rfl rfl ?_
      exact ih (some (some handled.1))
        (s := { s.put i answered with store := handled.2.1, accepted, failed })
        (getElem?_put ht answered) rfl rfl logs

/-- A report that is run alone beside a server has a run of events that leaves the same samples, the
same storage and no more polls. -/
theorem exists_run_of_report (d : Site) (s : Deliveries) :
    let r := (Reporter.report d.client d.batchSize).run (Link.toServer d.key) s.samples s.store
    ∃ events t, t.work = .done r.1 ∧ (s.run d (.report :: events)).tasks = s.tasks ++ [t] ∧
      (s.run d (.report :: events)).samples = r.2.1.1 ∧
      (s.run d (.report :: events)).store = r.2.1.2 ∧
      (s.run d (.report :: events)).recorded = s.recorded := by
  let t : Task := ⟨Reporter.report d.client d.batchSize, .fresh, none⟩
  have begun : (s.enlist d).tasks[s.tasks.length]? = some t := by simp [enlist, t]
  obtain ⟨events, u, ended, tasks, rest⟩ :=
    completes_of_runFrom (s := s.enlist d) begun rfl rfl []
  refine ⟨events, u, ended, tasks.trans ?_, rest⟩
  simp [enlist]

end Telemetry.Agent.Deliveries
