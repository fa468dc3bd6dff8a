import Telemetry.Proofs.Metric.Aggregation
import Telemetry.Proofs.Server.Outcomes
import Telemetry.Proofs.Storage.Changes
/-!
One request on a memory that others use too. The ledger of a request holds the content of the memory
and the changes that the request made to it. Before each of its calls others may change the content,
but no name is ever taken away; which saves fail is left open. Whatever happens, a request that is
answered 200 has applied exactly what it asks for, any other has applied nothing, and no fault of
the storage is answered.
-/

namespace Telemetry.Server

open Storage Http

structure Ledger where
  content : Snapshot
  changes : List Call

def Ledger.record (l : Ledger) (c : Call) : Ledger :=
  match l.content.change? c with
  | some u => ⟨u, l.changes ++ [c]⟩
  | none => l

def sharedMemory : Surroundings Call.Reply Ledger where
  Answers l c r k := ∃ (m : Memory) (files : FileTree),
    m.content = l.content ∧ (m.perform files c).1 = r ∧ k = l.record c
  Others l k := k.changes = l.changes ∧ l.content.Within k.content

namespace Ledger

variable {l k : Ledger} {α : Type}

theorem others_refl (l : Ledger) : sharedMemory.Others l l := ⟨rfl, .refl _⟩

theorem others_trans {a b c : Ledger} (h : sharedMemory.Others a b) (k : sharedMemory.Others b c) :
    sharedMemory.Others a c := ⟨k.1.trans h.1, h.2.trans k.2⟩

/-- An update that is refused changes nothing; one that is accepted is in the ledger, and then an
error of the answer concerns the snapshot only. -/
def AnswersUpdate (c : Call) (l : Ledger) (r : Except Error Unit) (k : Ledger) : Prop :=
  (∃ e, e.isRefusal = true ∧ l.content.change? c = none ∧ r = .error e ∧ k = l) ∨
    ∃ u, l.content.change? c = some u ∧ k = ⟨u, l.changes ++ [c]⟩ ∧
      ∀ e, r = .error e → e.isPersistence = true

theorem answersUpdate_apply {m : Memory} {files : FileTree} {c : Call}
    {change : Except Error Snapshot} (hc : l.content.change? c = change.toOption)
    (he : ∀ e, change = .error e → e.isRefusal = true) :
    AnswersUpdate c l (m.apply files change).1 (l.record c) := by
  rcases m.apply_answer files change with ⟨e, rfl, hr⟩ | ⟨⟨u, rfl⟩, hr⟩
  · exact .inl ⟨e, he e rfl, hc, hr, by simp [record, hc, Except.toOption]⟩
  · exact .inr ⟨u, hc, by simp [record, hc, Except.toOption], hr⟩

theorem answersUpdate_applyBatch {m : Memory} {files : FileTree} {c : Call} {batch : List α}
    {change : Except Error Snapshot} (hc : l.content.change? c = change.toOption)
    (he : ∀ e, change = .error e → e.isRefusal = true)
    (hb : batch = [] → change = .ok l.content) :
    AnswersUpdate c l (m.applyBatch files batch change).1 (l.record c) := by
  unfold Memory.applyBatch
  split
  · rename_i hn
    obtain rfl := hb (List.isEmpty_iff.mp hn)
    exact .inr ⟨l.content, hc, by simp [record, hc, Except.toOption], fun _ h => by cases h⟩
  · exact answersUpdate_apply hc he

variable {c : Call} {R : Refusal → Ledger → Prop} {Q : Unit → Ledger → Prop}

theorem answers_putGauge {name : String} {x : Binary64} {r : Except Error Unit}
    (h : sharedMemory.Answers l (.putGauge name x) r k) :
    AnswersUpdate (.putGauge name x) l r k := by
  obtain ⟨m, files, hm, rfl, rfl⟩ := h
  exact answersUpdate_apply (by rw [hm]; rfl) fun _ => Snapshot.putGauge_error

theorem answers_putCounter {name : String} {d : Count} {r : Except Error Unit}
    (h : sharedMemory.Answers l (.putCounter name d) r k) :
    AnswersUpdate (.putCounter name d) l r k := by
  obtain ⟨m, files, hm, rfl, rfl⟩ := h
  exact answersUpdate_apply (by rw [hm]; rfl) fun _ => Snapshot.putCounter_error

theorem answers_putGauges {batch : NameMap Binary64} {r : Except Error Unit}
    (h : sharedMemory.Answers l (.putGauges batch) r k) :
    AnswersUpdate (.putGauges batch) l r k := by
  obtain ⟨m, files, hm, rfl, rfl⟩ := h
  refine answersUpdate_applyBatch (by rw [hm]; rfl) (fun _ => Snapshot.putGauges_error) ?_
  intro hb
  rw [hb, hm]
  rfl

theorem answers_putCounters {batch : NameMap Count} {r : Except Error Unit}
    (h : sharedMemory.Answers l (.putCounters batch) r k) :
    AnswersUpdate (.putCounters batch) l r k := by
  obtain ⟨m, files, hm, rfl, rfl⟩ := h
  refine answersUpdate_applyBatch (by rw [hm]; rfl) (fun _ => Snapshot.putCounters_error) ?_
  intro hb
  rw [hb, hm]
  rfl

end Ledger

end Telemetry.Server
