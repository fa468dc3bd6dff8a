import Mathlib.Logic.Function.Iterate
import Telemetry.Proofs.Storage.Changes
import Telemetry.Proofs.Storage.Snapshots
import Telemetry.Proofs.Storage.WriteTraces
/-!
Memories that are saved, restored and saved again. What a memory can hold is finite, so each save can
be restored; names and counters survive every restart. A gauge survives exactly if the reader of
numbers makes the same number of its text, which it need not: it rounds up to three times.
-/

namespace Telemetry

open Storage

structure Host where
  memory : Memory
  files : FileTree

namespace Host

inductive Event where
  | call (c : Call)
  | save
  | saveTo (path : String)
  | restore (path : String)
  | load (bytes : Bytes)
  | disk (files : FileTree)

def next (h : Host) : Event → Host
  | .call c => ⟨(h.memory.perform h.files c).2.1, (h.memory.perform h.files c).2.2⟩
  | .save => { h with files := (h.memory.save h.files).2 }
  | .saveTo path => { h with files := (h.memory.saveTo h.files path).2 }
  | .restore path => { h with memory := (h.memory.restore h.files path).2 }
  | .load bytes =>
    match Snapshot.decode bytes with
    | .ok s => { h with memory := h.memory.load s }
    | .error _ => h
  | .disk files => { h with files := files }

def run (h : Host) (events : List Event) : Host := events.foldl next h

/-- What a memory can come to from its start on. -/
def Reachable (h : Host) : Prop :=
  ∃ path mode files events, run ⟨.new path mode, files⟩ events = h

def restart (h : Host) (path : String) : Option Host :=
  match h.memory.saveTo h.files path with
  | (.error _, _) => none
  | (.ok (), files) =>
    match (Memory.new h.memory.snapshotPath h.memory.saveMode).restore files path with
    | (.error _, _) => none
    | (.ok (), m) => some ⟨m, files⟩

def restarts (h : Host) (paths : List String) : Option Host := paths.foldlM restart h

variable {h k : Host} {m : Memory} {files saved : FileTree} {path : String}

theorem finite_change {s u : Snapshot} {c : Call} (hs : s.Finite) (hu : s.change? c = some u) :
    u.Finite := by
  intro name x hx
  rw [Snapshot.gauges_of_change hu] at hx
  cases hg : c.gauge? name with
  | none =>
    rw [hg] at hx
    exact hs name x hx
  | some y =>
    rw [hg] at hx
    obtain rfl := Option.some.inj hx
    exact Snapshot.gauge_isFinite hu hg

theorem finite_restore (hm : m.content.Finite) : (m.restore files path).2.content.Finite := by
  unfold Memory.restore
  split
  · rename_i s hs
    unfold Memory.readSnapshot at hs
    split at hs
    · exact Snapshot.finite_of_decode hs
    · cases hs
  · exact hm

theorem step_preserves_finite (hm : h.memory.content.Finite) (e : Event) :
    (h.next e).memory.content.Finite := by
  cases e with
  | call c =>
    show (h.memory.perform h.files c).2.1.content.Finite
    rw [Memory.perform_memory]
    cases hu : h.memory.content.change? c with
    | none => exact hm
    | some u => exact finite_change hm hu
  | save => exact hm
  | saveTo path => exact hm
  | restore path => exact finite_restore hm
  | load bytes =>
    cases hs : Snapshot.decode bytes with
    | error e =>
      simp only [next, hs]
      exact hm
    | ok s =>
      simp only [next, hs]
      exact Snapshot.finite_of_decode hs
  | disk files => exact hm

theorem run_preserves_finite (hm : h.memory.content.Finite) (events : List Event) :
    (h.run events).memory.content.Finite := by
  induction events generalizing h with
  | nil => exact hm
  | cons e events ih => exact ih (step_preserves_finite hm e)

theorem Reachable.finite (h : Reachable k) : k.memory.content.Finite := by
  obtain ⟨path, mode, files, events, rfl⟩ := h
  refine run_preserves_finite (fun name x hx => ?_) events
  have none : (∅ : NameMap Binary64)[name]? = none := by simp
  exact absurd (none.symm.trans hx) (by simp)

/-! ### One restart and many -/

theorem restore_saved (hm : m.content.Finite) (hs : m.saveTo files path = (.ok (), saved))
    (fresh : Memory) :
    saved.read? (.ofText saved.base path) = some m.content.encode ∧
      fresh.restore saved path = (.ok (), fresh.load m.content.reread) := by
  obtain ⟨base, read⟩ := AtomicWrite.run_eq_ok hs
  rw [← base] at read
  refine ⟨read, ?_⟩
  have snapshot : Memory.readSnapshot saved path = .ok m.content.reread := by
    rw [Memory.readSnapshot, read]
    exact Snapshot.decode_encode hm
  rw [Memory.restore, snapshot]

theorem restart_eq (hm : h.memory.content.Finite)
    (hs : h.memory.saveTo h.files path = (.ok (), saved)) :
    h.restart path = some ⟨h.memory.load h.memory.content.reread, saved⟩ := by
  rw [restart, hs]
  dsimp only
  rw [(restore_saved hm hs _).2]
  rfl

theorem restart_eq_some (hm : h.memory.content.Finite) (hr : h.restart path = some k) :
    k.memory = h.memory.load h.memory.content.reread := by
  cases hs : h.memory.saveTo h.files path with
  | mk result saved =>
    cases result with
    | error e =>
      rw [restart, hs] at hr
      cases hr
    | ok =>
      rw [restart_eq hm hs] at hr
      obtain rfl := Option.some.inj hr
      rfl

theorem restarts_eq_some {paths : List String} (hm : h.memory.content.Finite)
    (hr : h.restarts paths = some k) :
    k.memory.content = Snapshot.reread^[paths.length] h.memory.content := by
  induction paths generalizing h with
  | nil =>
    obtain rfl := Option.some.inj hr
    rfl
  | cons path paths ih =>
    obtain ⟨l, hl, hr⟩ := Option.bind_eq_some_iff.mp hr
    have once := restart_eq_some hm hl
    have content : l.memory.content = h.memory.content.reread := by rw [once]; rfl
    have later := ih (content ▸ hm.reread) hr
    rw [later, content, List.length_cons, Function.iterate_succ_apply]

theorem reread_iterate {s : Snapshot} (hs : s.Exact) (n : Nat) : Snapshot.reread^[n] s = s :=
  Function.iterate_fixed (Snapshot.reread_eq_iff.mpr hs) n

/-- A second save writes the bytes of the first exactly where every gauge is read back as itself. -/
theorem saved_again_iff (hm : m.content.Finite) (hs : m.saveTo files path = (.ok (), saved))
    {fresh : Memory} {disk again : FileTree} {other : String}
    (ha : (fresh.load m.content.reread).saveTo disk other = (.ok (), again)) :
    again.read? (.ofText again.base other) = saved.read? (.ofText saved.base path) ↔
      m.content.Exact := by
  have first := (restore_saved hm hs fresh).1
  have second := (@restore_saved (fresh.load m.content.reread) _ _ _ hm.reread ha fresh).1
  rw [first, second, Option.some_inj]
  exact Snapshot.encode_reread_eq_iff hm

/-- Every snapshot without infinities is decoded from its bytes, with each gauge as the reader of
numbers has it; so saving, restoring and saving again changes nothing exactly if that reader makes
no gauge another. It does not where the digits, rounded and then scaled by a rounded power of ten,
give the gauge, and so never where the digits are short and the power of ten is small. -/
theorem fixpoint_iff_exact {s : Snapshot} (hs : s.Finite) (hh : Reachable h) :
    (Snapshot.decode s.encode = .ok s.reread ∧ (Snapshot.decode s.encode = .ok s ↔ s.Exact) ∧
      (s.Exact ↔ ∀ (name : String) (x : Binary64), s.gauges[name]? = some x →
        Binary64.scaledMagnitude (Binary64.ofNat x.kept.digits).value x.kept.exponent =
          x.magnitude) ∧
      (s.Short → s.Exact)) ∧
    (∀ path saved, h.memory.saveTo h.files path = (.ok (), saved) → ∀ fresh : Memory,
      fresh.restore saved path = (.ok (), fresh.load h.memory.content.reread) ∧
      ∀ disk other again,
        (fresh.load h.memory.content.reread).saveTo disk other = (.ok (), again) →
        (again.read? (.ofText again.base other) = saved.read? (.ofText saved.base path) ↔
          h.memory.content.Exact)) ∧
    (∀ path k, h.restart path = some k →
      (k.memory.content = h.memory.content ↔ h.memory.content.Exact)) ∧
    ∀ paths k, h.restarts paths = some k →
      k.memory.content = Snapshot.reread^[paths.length] h.memory.content ∧
      (h.memory.content.Exact → k.memory.content = h.memory.content) := by
  have hm := hh.finite
  refine ⟨⟨Snapshot.decode_encode hs, Snapshot.decode_encode_eq_iff hs, Snapshot.exact_iff hs,
    Snapshot.Short.exact hs⟩, fun path saved hsave fresh => ⟨(restore_saved hm hsave fresh).2, fun disk other again ha => ?_⟩,
    fun path k hr => ?_, fun paths k hr => ⟨restarts_eq_some hm hr, fun he => ?_⟩⟩
  · exact saved_again_iff hm hsave ha
  · rw [restart_eq_some hm hr]
    exact Snapshot.reread_eq_iff
  · rw [restarts_eq_some hm hr, reread_iterate he]

def driftingGauge : Binary64 := ⟨0x3FEFBC1DCF1EB125⟩

def driftingHost : Host :=
  run ⟨.new none .inline, .empty "/work"⟩ [.call (.putGauge "x" driftingGauge)]

/-- After one restart the gauge is another number, and the file is another file. -/
theorem drifting_gauge_drifts : Reachable driftingHost ∧
    Snapshot.decode driftingHost.memory.content.encode ≠ .ok driftingHost.memory.content ∧
    (driftingHost.restart "a.json").isSome ∧
    ∀ k, driftingHost.restart "a.json" = some k →
      k.memory.content ≠ driftingHost.memory.content := by
  have reachable : Reachable driftingHost := ⟨_, _, _, _, rfl⟩
  obtain ⟨⟨-, decoded, -, -⟩, -, restarted, -⟩ := fixpoint_iff_exact reachable.finite reachable
  have changed : ¬driftingHost.memory.content.Exact := fun h =>
    absurd (h "x" driftingGauge (by decide +kernel)) (by decide +kernel)
  exact ⟨reachable, mt decoded.mp changed, by decide +kernel,
    fun k hk => mt (restarted "a.json" k hk).mp changed⟩

end Host

end Telemetry
