import Mathlib.Data.List.Nodup
import Mathlib.Logic.Function.Basic
import Telemetry.Proofs.Server.Requests
/-!
Clients of one server on one memory. Every call of the storage is one step, and between two calls of
a request the other clients may take theirs. Which snapshots can be written is left open: every step
finds the files in a state of their own. A history of the accepted changes, each with the ticket of
its request, is kept beside the state.
-/

namespace Telemetry.Server

open Storage Http

structure Session where
  ticket : Nat
  request : Request
  work : Work Response

structure Exchange where
  ticket : Nat
  request : Request
  response : Response

/-- The updates that were promised with the answer: those of the request if it was answered 200. -/
def Exchange.updates (y : Exchange) : List Update :=
  if y.response.status = 200 then (updates? y.request).getD [] else []

/-- The accepted changes in order, each with the ticket of its request. -/
abbrev History := List (Nat × Call)

namespace History

variable (h : History)

def changesOf (ticket : Nat) : List Call := (h.filter fun e => e.1 = ticket).map Prod.snd

def deltas (name : String) : List Int := h.filterMap fun e => e.2.delta? name

def gauges (name : String) : List (Nat × Binary64) :=
  h.filterMap fun e => (e.2.gauge? name).map (e.1, ·)

variable {h}

theorem changesOf_append (k : History) (ticket : Nat) :
    changesOf (h ++ k) ticket = h.changesOf ticket ++ changesOf k ticket := by
  simp [changesOf]

theorem deltas_append (k : History) (name : String) :
    deltas (h ++ k) name = h.deltas name ++ deltas k name := List.filterMap_append

theorem gauges_append (k : History) (name : String) :
    gauges (h ++ k) name = h.gauges name ++ gauges k name := List.filterMap_append

theorem changesOf_eq_nil {ticket : Nat} (hn : ∀ e ∈ h, e.1 ≠ ticket) : h.changesOf ticket = [] := by
  simpa [changesOf] using hn

end History

structure System (ι : Type) where
  memory : Memory
  active : ι → Option Session
  issued : Nat
  history : History
  answered : List Exchange

namespace System

inductive Event (ι : Type) where
  | submit (client : ι) (r : Request)
  | advance (client : ι) (files : FileTree)

variable {ι : Type}

def start (m : Memory) : System ι := ⟨m, fun _ => none, 0, [], []⟩

def occupy [DecidableEq ι] (s : System ι) (i : ι) (session : Option Session) : System ι :=
  { s with active := Function.update s.active i session }

/-- A call is answered by the memory; if it changes the content it is noted in the history. -/
def call (s : System ι) (ticket : Nat) (c : Call) (files : FileTree) : System ι :=
  { s with
    memory := (s.memory.perform files c).2.1
    history := s.history ++
      if (s.memory.content.change? c).isSome then [(ticket, c)] else [] }

def proceed [DecidableEq ι] (s : System ι) (i : ι) (x : Session) (files : FileTree) : System ι :=
  match x.work with
  | .done response =>
    { s.occupy i none with answered := s.answered ++ [⟨x.ticket, x.request, response⟩] }
  | .log _ rest => s.occupy i (some { x with work := rest })
  | .call c rest =>
    (s.call x.ticket c files).occupy i
      (some { x with work := rest (s.memory.perform files c).1 })

/-- A client that waits for an answer submits nothing. -/
def next [DecidableEq ι] (s : System ι) : Event ι → System ι
  | .submit i r =>
    match s.active i with
    | some _ => s
    | none =>
      { s.occupy i (some ⟨s.issued, r, Application.handle none r⟩) with issued := s.issued + 1 }
  | .advance i files =>
    match s.active i with
    | some x => s.proceed i x files
    | none => s

def run [DecidableEq ι] (s : System ι) (events : List (Event ι)) : System ι := events.foldl next s

def Idle (s : System ι) : Prop := ∀ i, s.active i = none

def ledger (s : System ι) (ticket : Nat) : Ledger := ⟨s.memory.content, s.history.changesOf ticket⟩

/-- Every ticket belongs to one request, which is worked on or was answered once. -/
structure Tickets (s : System ι) : Prop where
  issued_active : ∀ i x, s.active i = some x → x.ticket < s.issued
  issued_answered : ∀ y ∈ s.answered, y.ticket < s.issued
  apart : ∀ i j x y, s.active i = some x → s.active j = some y → x.ticket = y.ticket → i = j
  open_or_answered : ∀ i x, s.active i = some x → ∀ y ∈ s.answered, x.ticket ≠ y.ticket
  answered_once : (s.answered.map Exchange.ticket).Nodup
  owned : ∀ e ∈ s.history,
    (∃ i x, s.active i = some x ∧ x.ticket = e.1) ∨ ∃ y ∈ s.answered, y.ticket = e.1

structure Invariant (c : Snapshot) (s : System ι) : Prop where
  tickets : Tickets s
  settling : ∀ i x, s.active i = some x →
    Program.Ensures sharedMemory (Answered (updates? x.request)) x.work (s.ledger x.ticket)
  settled : ∀ y ∈ s.answered, Answered (updates? y.request) y.response (s.ledger y.ticket)
  counters : ∀ name, s.memory.content.total? name =
    Update.plus (c.total? name) (Update.sum? (s.history.deltas name))
  gauges : ∀ name : String, s.memory.content.gauges[name]? =
    ((s.history.gauges name).getLast?.map Prod.snd).or c.gauges[name]?

variable {c : Snapshot} {s : System ι}

theorem start_invariant (m : Memory) : Invariant m.content (start m : System ι) := by
  refine ⟨?_, ?_, ?_, ?_, ?_⟩
  · constructor <;> simp [start]
  all_goals simp [start, History.deltas, History.gauges, Update.sum?]

theorem ledger_call_other {t u : Nat} (h : t ≠ u) (d : Call) (files : FileTree) :
    sharedMemory.Others (s.ledger u) ((s.call t d files).ledger u) := by
  constructor
  · show History.changesOf (s.history ++ _) u = _
    have added : History.changesOf (if (s.memory.content.change? d).isSome then [(t, d)] else [])
        u = [] := by
      split <;> simp [History.changesOf, h]
    rw [History.changesOf_append, added, List.append_nil]
    rfl
  · show s.memory.content.Within (s.memory.perform files d).2.1.content
    rw [Memory.perform_memory]
    cases hc : s.memory.content.change? d with
    | none => exact .refl _
    | some u => exact Snapshot.within_of_change hc

theorem ledger_call_self (t : Nat) (d : Call) (files : FileTree) :
    (s.call t d files).ledger t = (s.ledger t).record d := by
  unfold ledger call Ledger.record
  rw [Memory.perform_memory, History.changesOf_append]
  cases hc : s.memory.content.change? d with
  | none => simp [Memory.load, History.changesOf]
  | some u => simp [Memory.load, History.changesOf]

theorem call_counters {t : Nat} (d : Call) (files : FileTree)
    (h : ∀ name, s.memory.content.total? name =
      Update.plus (c.total? name) (Update.sum? (s.history.deltas name))) (name : String) :
    (s.call t d files).memory.content.total? name =
      Update.plus (c.total? name) (Update.sum? ((s.call t d files).history.deltas name)) := by
  unfold call
  rw [Memory.perform_memory]
  simp only [Memory.load, History.deltas_append]
  cases hc : s.memory.content.change? d with
  | none => simpa [hc, History.deltas] using h name
  | some u =>
    rw [Option.getD_some, Snapshot.total?_of_change hc, h]
    have added : Update.sum? (History.deltas [(t, d)] name) = d.delta? name := by
      cases hd : d.delta? name <;> simp [History.deltas, hd, Update.sum?]
    rw [Update.plus_assoc, ← added, ← Update.sum?_append]
    rfl

theorem call_gauges {t : Nat} (d : Call) (files : FileTree)
    (h : ∀ name : String, s.memory.content.gauges[name]? =
      ((s.history.gauges name).getLast?.map Prod.snd).or c.gauges[name]?) (name : String) :
    (s.call t d files).memory.content.gauges[name]? =
      (((s.call t d files).history.gauges name).getLast?.map Prod.snd).or c.gauges[name]? := by
  unfold call
  rw [Memory.perform_memory]
  simp only [Memory.load, History.gauges_append]
  cases hc : s.memory.content.change? d with
  | none => simpa [hc, History.gauges] using h name
  | some u =>
    rw [Option.getD_some, Snapshot.gauges_of_change hc, h]
    cases hd : d.gauge? name <;> simp [hd, History.gauges]

theorem Tickets.call {i : ι} {x : Session} (h : Tickets s) (hi : s.active i = some x) (d : Call)
    (files : FileTree) : Tickets (s.call x.ticket d files) := by
  refine ⟨h.issued_active, h.issued_answered, h.apart, h.open_or_answered, h.answered_once, ?_⟩
  intro e he
  rcases List.mem_append.mp he with he | he
  · exact h.owned e he
  · split at he
    · exact .inl ⟨i, x, hi, by rw [List.mem_singleton.mp he]⟩
    · cases he

theorem Tickets.history_lt (h : Tickets s) : ∀ e ∈ s.history, e.1 < s.issued := by
  intro e he
  rcases h.owned e he with ⟨j, y, hj, ht⟩ | ⟨y, hy, ht⟩
  · exact ht ▸ h.issued_active j y hj
  · exact ht ▸ h.issued_answered y hy

variable [DecidableEq ι] {i : ι} {x : Session}

theorem active_occupy_eq_some {j : ι} {o : Option Session} {y : Session} :
    (s.occupy i o).active j = some y ↔ (j = i ∧ o = some y) ∨ (j ≠ i ∧ s.active j = some y) := by
  simp only [occupy, Function.update_apply]
  by_cases hj : j = i <;> simp [hj]

theorem Tickets.submit (h : Tickets s) (hi : s.active i = none) (r : Request) :
    Tickets (s.next (.submit i r)) := by
  simp only [next, hi]
  refine ⟨?_, ?_, ?_, ?_, h.answered_once, ?_⟩
  · intro j x hj
    rcases active_occupy_eq_some.mp hj with ⟨rfl, hx⟩ | ⟨-, hj⟩
    · rw [← Option.some.inj hx]
      exact Nat.lt_succ_self _
    · exact Nat.lt_succ_of_lt (h.issued_active j x hj)
  · exact fun y hy => Nat.lt_succ_of_lt (h.issued_answered y hy)
  · intro j k x y hj hk hxy
    rcases active_occupy_eq_some.mp hj with ⟨rfl, hx⟩ | ⟨hji, hj⟩
    · rcases active_occupy_eq_some.mp hk with ⟨rfl, hy⟩ | ⟨-, hk⟩
      · rfl
      · rw [← Option.some.inj hx] at hxy
        exact absurd hxy (Nat.ne_of_gt (h.issued_active k y hk))
    · rcases active_occupy_eq_some.mp hk with ⟨-, hy⟩ | ⟨-, hk⟩
      · rw [← Option.some.inj hy] at hxy
        exact absurd hxy (Nat.ne_of_lt (h.issued_active j x hj))
      · exact h.apart j k x y hj hk hxy
  · intro j x hj y hy
    rcases active_occupy_eq_some.mp hj with ⟨rfl, hx⟩ | ⟨-, hj⟩
    · rw [← Option.some.inj hx]
      exact Nat.ne_of_gt (h.issued_answered y hy)
    · exact h.open_or_answered j x hj y hy
  · intro e he
    rcases h.owned e he with ⟨j, x, hj, ht⟩ | ha
    · have hji : j ≠ i := by
        rintro rfl
        rw [hi] at hj
        cases hj
      exact .inl ⟨j, x, active_occupy_eq_some.mpr (.inr ⟨hji, hj⟩), ht⟩
    · exact .inr ha

theorem Tickets.rework (h : Tickets s) (hi : s.active i = some x) (w : Work Response) :
    Tickets (s.occupy i (some { x with work := w })) := by
  have before (j : ι) (y : Session)
      (hj : (s.occupy i (some { x with work := w })).active j = some y) :
      ∃ z, s.active j = some z ∧ z.ticket = y.ticket := by
    rcases active_occupy_eq_some.mp hj with ⟨rfl, hy⟩ | ⟨-, hj⟩
    · exact ⟨x, hi, by rw [← Option.some.inj hy]⟩
    · exact ⟨y, hj, rfl⟩
  refine ⟨?_, h.issued_answered, ?_, ?_, h.answered_once, ?_⟩
  · intro j y hj
    obtain ⟨z, hz, ht⟩ := before j y hj
    exact ht ▸ h.issued_active j z hz
  · intro j k y y' hj hk ht
    obtain ⟨z, hz, hzt⟩ := before j y hj
    obtain ⟨z', hz', hzt'⟩ := before k y' hk
    exact h.apart j k z z' hz hz' (by rw [hzt, hzt', ht])
  · intro j y hj
    obtain ⟨z, hz, ht⟩ := before j y hj
    exact ht ▸ h.open_or_answered j z hz
  · intro e he
    rcases h.owned e he with ⟨j, y, hj, ht⟩ | ha
    · by_cases hji : j = i
      · subst hji
        obtain rfl := Option.some.inj (hi.symm.trans hj)
        exact .inl ⟨j, _, active_occupy_eq_some.mpr (.inl ⟨rfl, rfl⟩), ht⟩
      · exact .inl ⟨j, y, active_occupy_eq_some.mpr (.inr ⟨hji, hj⟩), ht⟩
    · exact .inr ha

theorem Tickets.finish (h : Tickets s) (hi : s.active i = some x) (response : Response) :
    Tickets { s.occupy i none with
      answered := s.answered ++ [⟨x.ticket, x.request, response⟩] } := by
  have before (j : ι) (y : Session) (hj : (s.occupy i none).active j = some y) :
      j ≠ i ∧ s.active j = some y := by
    rcases active_occupy_eq_some.mp hj with ⟨-, hy⟩ | hj
    · cases hy
    · exact hj
  refine ⟨?_, ?_, ?_, ?_, ?_, ?_⟩
  · exact fun j y hj => h.issued_active j y (before j y hj).2
  · intro y hy
    rcases List.mem_append.mp hy with hy | hy
    · exact h.issued_answered y hy
    · rw [List.mem_singleton.mp hy]
      exact h.issued_active i x hi
  · exact fun j k y z hj hk => h.apart j k y z (before j y hj).2 (before k z hk).2
  · intro j y hj z hz
    obtain ⟨hji, hj⟩ := before j y hj
    rcases List.mem_append.mp hz with hz | hz
    · exact h.open_or_answered j y hj z hz
    · rw [List.mem_singleton.mp hz]
      exact fun ht => hji (h.apart j i y x hj hi ht)
  · rw [List.map_append]
    refine List.Nodup.append h.answered_once (List.nodup_singleton _) ?_
    intro t ht hx
    obtain ⟨y, hy, hyt⟩ := List.mem_map.mp ht
    exact h.open_or_answered i x hi y hy (by rw [hyt, List.mem_singleton.mp hx])
  · intro e he
    rcases h.owned e he with ⟨j, y, hj, ht⟩ | ⟨y, hy, ht⟩
    · by_cases hji : j = i
      · subst hji
        obtain rfl := Option.some.inj (hi.symm.trans hj)
        exact .inr ⟨_, List.mem_append_right _ (List.mem_singleton_self _), ht⟩
      · exact .inl ⟨j, y, active_occupy_eq_some.mpr (.inr ⟨hji, hj⟩), ht⟩
    · exact .inr ⟨y, List.mem_append_left _ hy, ht⟩

theorem Invariant.submit (h : Invariant c s) (hi : s.active i = none) (r : Request) :
    Invariant c (s.next (.submit i r)) := by
  refine ⟨h.tickets.submit hi r, ?_, ?_, ?_, ?_⟩
  all_goals simp only [next, hi]
  · intro j y hj
    rcases active_occupy_eq_some.mp hj with ⟨-, hy⟩ | ⟨-, hj'⟩
    · obtain rfl := Option.some.inj hy
      refine ensures_settled none r (History.changesOf_eq_nil fun e he => ?_)
      exact Nat.ne_of_lt (h.tickets.history_lt e he)
    · exact h.settling j y hj'
  · exact h.settled
  · exact h.counters
  · exact h.gauges

theorem Invariant.proceed (h : Invariant c s) (hi : s.active i = some x) (files : FileTree) :
    Invariant c (s.proceed i x files) := by
  have hx := h.settling i x hi
  unfold System.proceed
  cases hw : x.work with
  | done response =>
    rw [hw, Program.ensures_done] at hx
    refine ⟨h.tickets.finish hi response, ?_, ?_, h.counters, h.gauges⟩
    · intro j y hj
      rcases active_occupy_eq_some.mp hj with ⟨-, hy⟩ | ⟨-, hj'⟩
      · cases hy
      · exact h.settling j y hj'
    · intro y hy
      rcases List.mem_append.mp hy with hy | hy
      · exact h.settled y hy
      · rw [List.mem_singleton.mp hy]
        exact hx
  | log e rest =>
    rw [hw] at hx
    refine ⟨h.tickets.rework hi rest, ?_, h.settled, h.counters, h.gauges⟩
    intro j y hj
    rcases active_occupy_eq_some.mp hj with ⟨-, hy⟩ | ⟨-, hj'⟩
    · obtain rfl := Option.some.inj hy
      exact hx
    · exact h.settling j y hj'
  | call d rest =>
    rw [hw] at hx
    refine ⟨(h.tickets.call hi d files).rework hi _, ?_, ?_, call_counters d files h.counters,
      call_gauges d files h.gauges⟩
    · intro j y hj
      rcases active_occupy_eq_some.mp hj with ⟨-, hy⟩ | ⟨hji, hj'⟩
      · obtain rfl := Option.some.inj hy
        -- The ledger after the call is the recorded one, so the answer is one that was foreseen.
        have answer := hx _ (Ledger.others_refl _) _ ((s.ledger x.ticket).record d)
          ⟨s.memory, files, rfl, rfl, rfl⟩
        rw [← ledger_call_self] at answer
        exact answer
      · have apart : x.ticket ≠ y.ticket := fun ht => hji (h.tickets.apart j i y x hj' hi ht.symm)
        exact (h.settling j y hj').others (ledger_call_other apart d files)
          (fun _ _ _ => Ledger.others_trans) fun _ _ _ hq ho => by rwa [Answered, Settled, ho.1]
    · intro y hy
      have apart := h.tickets.open_or_answered i x hi y hy
      have settled := h.settled y hy
      rwa [Answered, Settled, ← (ledger_call_other apart d files).1] at settled

theorem step_preserves_invariant (h : Invariant c s) (e : Event ι) : Invariant c (s.next e) := by
  cases e with
  | submit i r =>
    cases hi : s.active i with
    | none => exact h.submit hi r
    | some x => simpa only [next, hi] using h
  | advance i files =>
    cases hi : s.active i with
    | none => simpa only [next, hi] using h
    | some x => simpa only [next, hi] using h.proceed hi files

theorem run_preserves_invariant (h : Invariant c s) (events : List (Event ι)) :
    Invariant c (s.run events) := by
  induction events generalizing s with
  | nil => exact h
  | cons e events ih => exact ih (step_preserves_invariant h e)

end System

end Telemetry.Server
