import Mathlib.Algebra.BigOperators.Group.List.Basic
import Telemetry.Proofs.Agent.Reports
import Telemetry.Proofs.Server.Counting
/-!
Reports of an agent on their way to a server. Polls, reports and the server take their steps in any
order. The request of a post may reach the server or not, early or after the client has given up on
it; each of its storage calls is one step. The answer may arrive, or be lost, or be replaced by
something that the client cannot take for success, or the time for the batch runs out. Other clients may
change the metrics too, but not the counter of the polls.
-/

namespace Telemetry

/-- Others change the files meanwhile; a database keeps its own. -/
def Store.amid (s : Store) (files : FileTree) : Store :=
  match s.engine with
  | .relational _ => s
  | .memory _ | .faulty _ => { s with files }

theorem Store.total_amid (s : Store) (files : FileTree) (name : String) :
    (s.amid files).total name = s.total name := by
  obtain ⟨engine, own⟩ := s
  cases engine with
  | relational c => rfl
  | memory m => rfl
  | faulty f =>
    show total ⟨.faulty f, files⟩ name = total ⟨.faulty f, own⟩ name
    rw [total_faulty, total_faulty]

theorem Store.amid_self (s : Store) : s.amid s.files = s := by
  obtain ⟨engine, own⟩ := s
  cases engine <;> rfl

namespace Agent

open Http

/-- A post: its request, what the server has left to do for it, what it has asked to be added to the
counter of the polls, and by how much that has grown. -/
structure Attempt where
  request : Request
  work : Server.Work Response
  asked : List (Int × Bool)
  added : Int

/-- A report that was begun, how far it is, and the post whose answer it waits for. -/
structure Task where
  work : Work Summary
  phase : Phase
  attempt : Option Attempt

/-- Who sends to whom: a client of the batch route with the size of its chunks, and the key of the
server. -/
structure Site where
  client : Client
  batchSize : Nat
  key : Option String
  path : pathOfUrl client.url = "/updates"

def Site.standard : Site :=
  ⟨Client.ofConfig .standard .standard, Config.standard.batchSize, none, by decide +kernel⟩

/-- The samples and how often they were polled, the storage of the server, all reports, and the posts
that the client has taken for success or for failures. -/
structure Deliveries where
  samples : Samples
  recorded : Nat
  store : Store
  tasks : List Task
  accepted : List Attempt
  failed : List Attempt

def counted (s : Store) : Int := s.total Samples.pollCountName

namespace Attempt

def new (key : Option String) (r : Request) : Attempt :=
  ⟨r, Server.Application.handle key r, [], 0⟩

def serve (a : Attempt) (s : Store) : Attempt × Store :=
  match a.work with
  | .done _ => (a, s)
  | .log _ rest => ({ a with work := rest }, s)
  | .call c rest =>
    let (reply, after) := s.perform c
    ({ a with
      work := rest reply
      asked := a.asked ++ (c.delta? Samples.pollCountName).toList.map (·, c.took reply)
      added := a.added + (counted after - counted s) },
      after)

end Attempt

namespace Task

def answered (c : Client) (t : Task) (action : Action) (next : action.Reply → Work Summary)
    (reply : action.Reply) : Task :=
  ⟨next reply, (reporting c).after t.phase action reply, none⟩

/-- All polls of the report were accepted, and the next thing it does is to take them off. -/
def Flushing (t : Task) : Prop := ∃ p, t.work.nextCall? = some (.flush p)

instance : DecidablePred Flushing := fun t =>
  match h : t.work.nextCall? with
  | some (.flush p) => .isTrue ⟨p, h⟩
  | some .read | some (.post ..) | some (.pause _) | none =>
    .isFalse fun ⟨_, hw⟩ => nomatch h.symm.trans hw

def Finished (t : Task) : Prop := ∃ summary, t.work = .done summary

instance : DecidablePred Finished := fun t =>
  match h : t.work with
  | .done summary => .isTrue ⟨summary, h⟩
  | .call .. | .log .. => .isFalse fun ⟨_, hw⟩ => nomatch h.symm.trans hw

/-- The polls that were accepted and not taken off yet. -/
def owed (t : Task) : Int :=
  match t.phase with
  | .owing p => p.val
  | _ => 0

def added (t : Task) : Int := (t.attempt.map Attempt.added).getD 0

/-- The server has polls of the report that are not taken off yet. -/
def Unsettled (t : Task) : Prop := t.Flushing ∨ t.added ≠ 0

instance : DecidablePred Unsettled := fun _ => inferInstanceAs (Decidable (_ ∨ _))

end Task

namespace Deliveries

inductive Event where
  | record (readings : List Metric)
  | report
  | advance (task : Nat)
  | serve (task : Nat) (files : FileTree)
  | serveLate (post : Nat) (files : FileTree)
  | answer (task : Nat)
  | lose (task : Nat) (reply : Option (Option Response))
  | expire (task : Nat)
  | other (c : Call) (files : FileTree)

def Event.begins : Event → Bool
  | .report => true
  | _ => false

def start (s : Store) : Deliveries := ⟨.new, 0, s, [], [], []⟩

def enlist (d : Site) (s : Deliveries) : Deliveries :=
  { s with tasks := s.tasks ++ [⟨Reporter.report d.client d.batchSize, .fresh, none⟩] }

def put (s : Deliveries) (i : Nat) (t : Task) : Deliveries := { s with tasks := s.tasks.set i t }

def advance (d : Site) (s : Deliveries) (i : Nat) (t : Task) : Deliveries :=
  match t.work with
  | .done _ => s
  | .log _ rest => s.put i { t with work := rest }
  | .call .read next => s.put i (t.answered d.client .read next s.samples)
  | .call (.flush p) next =>
    { s.put i (t.answered d.client (.flush p) next ()) with samples := s.samples.flush p }
  | .call (.pause delay) next => s.put i (t.answered d.client (.pause delay) next (some ()))
  | .call (.post _ r) _ =>
    match t.attempt with
    | some _ => s
    | none => s.put i { t with attempt := some (.new d.key r) }

def settle (d : Site) (s : Deliveries) (i : Nat) (t : Task) (a : Attempt)
    (reply : Option (Option Response)) : Deliveries :=
  match t.work with
  | .call (.post url r) next =>
    { s.put i (t.answered d.client (.post url r) next reply) with
      accepted := if Client.takes reply then s.accepted ++ [a] else s.accepted
      failed := if Client.takes reply then s.failed else s.failed ++ [a] }
  | _ => s

def waiting? (s : Deliveries) (i : Nat) : Option (Task × Attempt) := do
  let t ← s.tasks[i]?
  return (t, ← t.attempt)

/-- A client takes no answer for success but one of the server. Where its time runs out, it gives up on a
post without an answer or on the wait before the next one. -/
def next (d : Site) (s : Deliveries) : Event → Deliveries
  | .record readings =>
    { s with samples := (s.samples.record readings).1, recorded := s.recorded + 1 }
  | .report => s.enlist d
  | .advance i =>
    match s.tasks[i]? with
    | some t => s.advance d i t
    | none => s
  | .serve i files =>
    match s.waiting? i with
    | some (t, a) =>
      let (served, store) := a.serve (s.store.amid files)
      { s.put i { t with attempt := some served } with store }
    | none => s
  | .serveLate k files =>
    match s.failed[k]? with
    | some a =>
      let (served, store) := a.serve (s.store.amid files)
      { s with store, failed := s.failed.set k served }
    | none => s
  | .answer i =>
    match s.waiting? i with
    | some (t, a) =>
      match a.work with
      | .done response => s.settle d i t a (some (some response))
      | _ => s
    | none => s
  | .lose i reply =>
    match s.waiting? i with
    | some (t, a) => if Client.takes reply then s else s.settle d i t a reply
    | none => s
  | .expire i =>
    match s.tasks[i]? with
    | some t =>
      match t.work with
      | .call (.pause delay) next => s.put i (t.answered d.client (.pause delay) next none)
      | _ => s
    | none => s
  | .other c files =>
    if c.delta? Samples.pollCountName = none then
      { s with store := ((s.store.amid files).perform c).2 }
    else s

def run (d : Site) (s : Deliveries) (events : List Event) : Deliveries := events.foldl (next d) s

theorem settle_eq {d : Site} {s : Deliveries} {i : Nat} {t : Task} {a : Attempt} {url : String}
    {r : Request} {rest : Option (Option Response) → Work Summary}
    (hw : t.work = .call (.post url r) rest) (reply : Option (Option Response)) :
    s.settle d i t a reply = { s.put i (t.answered d.client (.post url r) rest reply) with
      accepted := if Client.takes reply then s.accepted ++ [a] else s.accepted
      failed := if Client.takes reply then s.failed else s.failed ++ [a] } := by
  rw [settle, hw]

inductive Step (d : Site) (s : Deliveries) : Event → Deliveries → Prop
  | idle (e : Event) : Step d s e s
  | record (readings : List Metric) : Step d s (.record readings)
      { s with samples := (s.samples.record readings).1, recorded := s.recorded + 1 }
  | report : Step d s .report (s.enlist d)
  | log {i : Nat} {t : Task} {e : Log.Event} {rest : Work Summary} (there : s.tasks[i]? = some t)
      (work : t.work = .log e rest) : Step d s (.advance i) (s.put i { t with work := rest })
  | read {i : Nat} {t : Task} {rest : Samples → Work Summary} (there : s.tasks[i]? = some t)
      (work : t.work = .call .read rest) :
      Step d s (.advance i) (s.put i (t.answered d.client .read rest s.samples))
  | pause (e : Event) {i : Nat} {t : Task} {delay : Duration} {rest : Option Unit → Work Summary}
      (there : s.tasks[i]? = some t) (work : t.work = .call (.pause delay) rest)
      (reply : Option Unit) : Step d s e (s.put i (t.answered d.client (.pause delay) rest reply))
  | flush {i : Nat} {t : Task} {p : Count} {rest : Unit → Work Summary}
      (there : s.tasks[i]? = some t) (work : t.work = .call (.flush p) rest) :
      Step d s (.advance i)
        { s.put i (t.answered d.client (.flush p) rest ()) with samples := s.samples.flush p }
  | post {i : Nat} {t : Task} {url : String} {r : Request}
      {rest : Option (Option Response) → Work Summary} (there : s.tasks[i]? = some t)
      (work : t.work = .call (.post url r) rest) (free : t.attempt = none) :
      Step d s (.advance i) (s.put i { t with attempt := some (.new d.key r) })
  | serve {i : Nat} {t : Task} {a : Attempt} (there : s.tasks[i]? = some t)
      (waits : t.attempt = some a) (files : FileTree) : Step d s (.serve i files)
        { s.put i { t with attempt := some (a.serve (s.store.amid files)).1 } with
          store := (a.serve (s.store.amid files)).2 }
  | serveLate {k : Nat} {a : Attempt} (there : s.failed[k]? = some a) (files : FileTree) :
      Step d s (.serveLate k files)
        { s with
          store := (a.serve (s.store.amid files)).2
          failed := s.failed.set k (a.serve (s.store.amid files)).1 }
  | settle (e : Event) {i : Nat} {t : Task} {a : Attempt} {reply : Option (Option Response)}
      (there : s.tasks[i]? = some t) (waits : t.attempt = some a)
      (honest : Client.takes reply = true →
        ∃ response, a.work = .done response ∧ reply = some (some response)) :
      Step d s e (s.settle d i t a reply)
  | other {c : Call} (foreign : c.delta? Samples.pollCountName = none) (files : FileTree) :
      Step d s (.other c files) { s with store := ((s.store.amid files).perform c).2 }

theorem waiting?_eq_some {s : Deliveries} {i : Nat} {t : Task} {a : Attempt}
    (h : s.waiting? i = some (t, a)) : s.tasks[i]? = some t ∧ t.attempt = some a := by
  obtain ⟨u, hu, h⟩ := Option.bind_eq_some_iff.mp h
  obtain ⟨b, hb, h⟩ := Option.bind_eq_some_iff.mp h
  obtain ⟨rfl, rfl⟩ := Prod.mk.inj (Option.some.inj h)
  exact ⟨hu, hb⟩

theorem step_advance {d : Site} {s : Deliveries} {i : Nat} {t : Task} (ht : s.tasks[i]? = some t) :
    Step d s (.advance i) (s.advance d i t) := by
  unfold advance
  split
  case h_1 => exact .idle _
  case h_2 hw => exact .log ht hw
  case h_3 hw => exact .read ht hw
  case h_4 hw => exact .flush ht hw
  case h_5 hw => exact .pause _ ht hw (some ())
  case h_6 hw =>
    split
    · exact .idle _
    · exact .post ht hw ‹_›

theorem step_next (d : Site) (s : Deliveries) (e : Event) : Step d s e (s.next d e) := by
  cases e with
  | record readings => exact .record readings
  | report => exact .report
  | advance i =>
    rw [next]
    split
    · exact step_advance ‹_›
    · exact .idle _
  | serve i files =>
    rw [next]
    split
    · obtain ⟨ht, ha⟩ := waiting?_eq_some ‹_›
      exact .serve ht ha files
    · exact .idle _
  | serveLate k files =>
    rw [next]
    split
    · exact .serveLate ‹_› files
    · exact .idle _
  | answer i =>
    rw [next]
    split
    · obtain ⟨ht, ha⟩ := waiting?_eq_some ‹_›
      split
      · rename_i response ended
        exact .settle _ ht ha fun _ => ⟨response, ended, rfl⟩
      · exact .idle _
    · exact .idle _
  | lose i reply =>
    rw [next]
    split
    · obtain ⟨ht, ha⟩ := waiting?_eq_some ‹_›
      split
      · exact .idle _
      · exact .settle _ ht ha fun taken => absurd taken ‹_›
    · exact .idle _
  | expire i =>
    rw [next]
    split
    · split
      · exact .pause _ ‹_› ‹_› none
      · exact .idle _
    · exact .idle _
  | other c files =>
    rw [next]
    split
    · exact .other ‹_› files
    · exact .idle _

def pending (s : Deliveries) : Int := (s.tasks.map Task.added).sum
def owed (s : Deliveries) : Int := (s.tasks.map Task.owed).sum
def delivered (s : Deliveries) : Int := (s.accepted.map Attempt.added).sum

/-- The polls that were added for posts which the client has taken for failures. -/
def stray (s : Deliveries) : Int := (s.failed.map Attempt.added).sum

end Deliveries

/-! ### Posts -/

open Server

theorem carried?_of_updates {r : Request} {us : List Update} (path : r.path = "/updates")
    (h : updates? r = some us) :
    carried? r = Update.sum? (Update.deltas Samples.pollCountName us) := by
  have route : Route.ofPath? "/updates" = some .updateBatch := by decide +kernel
  rw [updates?, path, route, Option.bind_some] at h
  obtain ⟨content, hc, h⟩ := Option.bind_eq_some_iff.mp h
  obtain ⟨ms, hms, h⟩ := Option.bind_eq_some_iff.mp h
  rw [carried?, hc, Option.bind_eq_bind, Option.bind_some, hms]
  exact congrArg Update.sum? (Metric.filterMap_polls? h)

namespace Attempt

variable {a : Attempt}

/-- However a post goes on, it asks for its polls once at most, and if it is answered with success they
were taken. -/
structure Settling (a : Attempt) : Prop where
  path : a.request.path = "/updates"
  polls : ∀ n, carried? a.request = some n → 0 ≤ n
  ensures : a.work.Ensures (asking Samples.pollCountName) (fun response asked =>
    Told (carried? a.request) response.status asked ∧ Plain response.status asked) a.asked
  grown : a.added = 0 ∨ ∃ n taken, a.asked = [(n, taken)] ∧ a.added = n

theorem settling_new {r : Request} (key : Option String) (path : r.path = "/updates")
    (polls : ∀ n, carried? r = some n → 0 ≤ n) : Settling (.new key r) where
  path := path
  polls := polls
  ensures := (ensures_told path fun _ hus => (carried?_of_updates path hus).symm).and
    (ensures_plain key r)
  grown := .inl rfl

theorem asked_cases {w : Server.Work Response} {carried : Option Int} {asked : List (Int × Bool)}
    (h : w.Ensures (asking Samples.pollCountName) (fun response asked =>
      Told carried response.status asked ∧ Plain response.status asked) asked) :
    asked = [] ∨ ∃ n taken, carried = some n ∧ asked = [(n, taken)] := by
  obtain ⟨response, later, ⟨told, -⟩, first⟩ := exists_end h
  rcases told.1 with rfl | ⟨n, taken, carried, rfl⟩
  · exact .inl (List.prefix_nil.mp first)
  · rcases List.prefix_cons_iff.mp first with none | ⟨rest, whole, nil⟩
    · exact .inl none
    · rw [List.prefix_nil.mp nil] at whole
      exact .inr ⟨n, taken, carried, whole⟩

theorem Settling.added_eq (h : Settling a) :
    a.added = 0 ∨ ∃ n, carried? a.request = some n ∧ a.added = n := by
  rcases h.grown with zero | ⟨n, taken, asked, added⟩
  · exact .inl zero
  · rcases asked_cases h.ensures with none | ⟨m, _, carried, same⟩
    · cases none.symm.trans asked
    · obtain ⟨rfl, -⟩ : m = n ∧ _ = taken := by simpa using same.symm.trans asked
      exact .inr ⟨m, carried, added⟩

theorem Settling.added_nonneg (h : Settling a) : 0 ≤ a.added := by
  rcases h.added_eq with zero | ⟨n, hn, full⟩
  · omega
  · have := h.polls n hn
    omega

theorem Settling.asked_of_takes (h : Settling a) {response : Response}
    (ended : a.work = .done response) (taken : Client.takes (some (some response)) = true) :
    a.asked = ((carried? a.request).map (·, true)).toList := by
  have ensures := h.ensures
  rw [ended] at ensures
  obtain ⟨told, plain⟩ := ensures
  have success : response.status = 200 := by
    simp only [Client.takes, Bool.and_eq_true, decide_eq_true_eq] at taken
    exact plain.resolve_right (by omega)
  exact told.2 success

theorem serve_call {s : Store} {c : Call} {rest : c.Reply → Server.Work Response}
    (hw : a.work = .call c rest) : a.serve s = (⟨a.request, rest (s.perform c).1,
      a.asked ++ (c.delta? Samples.pollCountName).toList.map (·, c.took (s.perform c).1),
      a.added + (counted (s.perform c).2 - counted s)⟩, (s.perform c).2) := by
  rw [Attempt.serve, hw]

theorem Settling.serve (h : Settling a) (s : Store) :
    Settling (a.serve s).1 ∧ (a.serve s).1.request = a.request ∧
      counted (a.serve s).2 = counted s + ((a.serve s).1.added - a.added) := by
  obtain ⟨path, polls, ensures, grown⟩ := h
  cases hw : a.work with
  | done response =>
    have step : a.serve s = (a, s) := by rw [Attempt.serve, hw]
    rw [step]
    exact ⟨⟨path, polls, ensures, grown⟩, rfl, by simp⟩
  | log e rest =>
    have step : a.serve s = ({ a with work := rest }, s) := by rw [Attempt.serve, hw]
    rw [hw] at ensures
    rw [step]
    exact ⟨⟨path, polls, ensures, grown⟩, rfl, by simp⟩
  | call c rest =>
    rw [hw] at ensures
    have later := ensures _ rfl (s.perform c).1 _ rfl
    have change := s.grown_perform c Samples.pollCountName
    rw [serve_call hw]
    refine ⟨⟨path, polls, later, ?_⟩, rfl, by dsimp only; omega⟩
    cases asks : c.delta? Samples.pollCountName with
    | none =>
      have same : counted (s.perform c).2 = counted s := by
        rw [asks] at change
        exact change.resolve_right fun ⟨_, impossible, _⟩ => nomatch impossible
      simpa [same] using grown
    | some n =>
      -- What is asked for now is the first that the post asks for.
      rw [asks] at later
      have first : a.asked = [] := by
        rcases asked_cases later with none | ⟨m, taken, -, single⟩
        · exact absurd none (by simp)
        · exact (List.append_eq_singleton_iff.mp single).elim And.left fun h => nomatch h.2
      have zero : a.added = 0 := by
        refine grown.resolve_right ?_
        rintro ⟨m, taken, asked, -⟩
        cases first.symm.trans asked
      rw [asks] at change
      rw [first, zero]
      rcases change with same | ⟨m, asked, more⟩
      · refine .inl ?_
        show 0 + (Store.total _ _ - Store.total _ _) = (0 : Int)
        omega
      · obtain rfl := Option.some.inj asked
        refine .inr ⟨n, c.took (s.perform c).1, rfl, ?_⟩
        show 0 + (Store.total _ _ - Store.total _ _) = n
        omega

end Attempt

/-! ### Reports -/

namespace Task

variable {c : Client} {t : Task}

/-- The report keeps to its protocol, has no negative polls, and waits for an answer only if a post is
what it does next. -/
structure Sound (c : Client) (t : Task) : Prop where
  follows : t.work.Follows (reporting c) Ended t.phase
  polls : ∀ p, t.phase = .carrying p ∨ t.phase = .owing p → 0 ≤ p.val
  waits : ∀ a, t.attempt = some a → ∃ url next, t.work = .call (.post url a.request) next

theorem sound_new (c : Client) (batchSize : Nat) :
    Sound c ⟨Reporter.report c batchSize, .fresh, none⟩ :=
  ⟨Reporter.follows_report c batchSize, (fun p hp => by rcases hp with hp | hp <;> cases hp),
    fun a ha => nomatch ha⟩

theorem Sound.attempt_eq_none (h : t.Sound c)
    (hw : ∀ url r next, t.work ≠ .call (.post url r) next) : t.attempt = none := by
  cases ha : t.attempt with
  | none => rfl
  | some a =>
    obtain ⟨url, next, post⟩ := h.waits a ha
    exact absurd post (hw url a.request next)

theorem Sound.log {e : Log.Event} {rest : Work Summary} (h : t.Sound c)
    (hw : t.work = .log e rest) : Sound c { t with work := rest } := by
  have follows := h.follows
  rw [hw] at follows
  refine ⟨follows, h.polls, fun a ha => ?_⟩
  obtain ⟨url, next, post⟩ := h.waits a ha
  rw [hw] at post
  cases post

theorem Sound.answered {action : Action} {next : action.Reply → Work Summary} (h : t.Sound c)
    (hw : t.work = .call action next) (reply : action.Reply)
    (polls : ∀ p, (reporting c).after t.phase action reply = .carrying p ∨
      (reporting c).after t.phase action reply = .owing p → 0 ≤ p.val) :
    Sound c (t.answered c action next reply) := by
  have follows := h.follows
  rw [hw] at follows
  exact ⟨follows.2 reply, polls, fun a ha => nomatch ha⟩

theorem Sound.post {url : String} {r : Request} {next : Option (Option Response) → Work Summary}
    (h : t.Sound c) (hw : t.work = .call (.post url r) next) : ∃ p, t.phase = .carrying p ∧
      0 ≤ p.val ∧ r.path = pathOfUrl c.url ∧ (carried? r = none ∨ carried? r = some p.val) := by
  have follows := h.follows
  rw [hw] at follows
  cases hp : t.phase with
  | carrying p =>
    have allowed := follows.1
    rw [hp] at allowed
    obtain ⟨-, path, polls⟩ := allowed
    exact ⟨p, rfl, h.polls p (.inl hp), path, polls⟩
  | _ =>
    have allowed := follows.1
    rw [hp] at allowed
    exact allowed.elim

end Task

end Agent

end Telemetry
