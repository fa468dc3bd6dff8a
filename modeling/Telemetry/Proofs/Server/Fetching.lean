import Mathlib.Logic.Function.Basic
import Telemetry.Proofs.Server.MemoryLists
import Telemetry.Proofs.Server.Starting
/-!
A server in memory over its whole life: requests of many clients at once, saves, files that others
change, and starts from a snapshot that the server has written. Every name that is listed can be
asked for as it is listed, and what is answered is what is listed.
-/

namespace Telemetry.Server

open Storage Http

/-- A server with its files. The contents that the memory has had, the present one among them, are
kept beside it: a file that the server has saved holds one of them. -/
structure Lifetime (ι : Type) where
  memory : Memory
  files : FileTree
  active : ι → Option (Work Response)
  past : List Snapshot

namespace Lifetime

/-- What can happen: a client sends a request, the work on one takes its next step, the memory is
saved, others change the files, or the server is stopped and started again. -/
inductive Event (ι : Type) where
  | submit (client : ι) (key : Option String) (r : Request)
  | proceed (client : ι)
  | save
  | disk (files : FileTree)
  | restart (config : StorageConfig)

variable {ι : Type}

def start (path : Option String) (mode : SaveMode) (files : FileTree) : Lifetime ι :=
  ⟨.new path mode, files, fun _ => none, [.empty]⟩

/-- Whether what a start would restore, if anything, is a snapshot of this server. -/
def restoresOwn (s : Lifetime ι) (config : StorageConfig) : Bool :=
  match config.restore, config.fileStoragePath with
  | true, some path =>
    match s.files.read? (.ofText s.files.base path) with
    | some bytes => s.past.any fun content => content.encode = bytes
    | none => true
  | _, _ => true

def load (s : Lifetime ι) (m : Memory) (files : FileTree) : Lifetime ι :=
  { s with memory := m, files := files, past := s.past ++ [m.content] }

def occupy [DecidableEq ι] (s : Lifetime ι) (i : ι) (work : Option (Work Response)) : Lifetime ι :=
  { s with active := Function.update s.active i work }

/-- The server after an event; there is none after an event that cannot happen. -/
def next [DecidableEq ι] (s : Lifetime ι) : Event ι → Option (Lifetime ι)
  | .submit i key r =>
    match s.active i with
    | none => some (s.occupy i (some (Application.handle key r)))
    | some _ => none
  | .proceed i =>
    match s.active i with
    | none => none
    | some (.done _) => some (s.occupy i none)
    | some (.log _ rest) => some (s.occupy i (some rest))
    | some (.call c rest) =>
      let (reply, m, files) := s.memory.perform s.files c
      some ((s.load m files).occupy i (some (rest reply)))
  | .save => some { s with files := (s.memory.save s.files).2 }
  | .disk files => some { s with files := files }
  | .restart config =>
    match Startup.start config s.files with
    | ⟨.ok (.memory m), files, _⟩ =>
      if s.restoresOwn config then some { s.load m files with active := fun _ => none } else none
    | _ => none

def run [DecidableEq ι] (s : Lifetime ι) (events : List (Event ι)) : Option (Lifetime ι) :=
  events.foldlM next s

/-- What holds in every state: all contents so far have tidy names and finite gauges, the present one
is one of them, and whatever is worked on stores under tidy names. -/
structure Invariant (s : Lifetime ι) : Prop where
  tidy : ∀ content ∈ s.past, content.IsTidy
  finite : ∀ content ∈ s.past, content.Finite
  present : s.memory.content ∈ s.past
  working : ∀ i w, s.active i = some w →
    w.Follows (.allowing Call.IsTidy) (fun _ _ => True) ()

variable {s t : Lifetime ι}

theorem empty_tidy : Snapshot.empty.IsTidy := by
  rintro name (stored | stored)
  · simp [Snapshot.empty] at stored
  · simp [Snapshot.empty] at stored

theorem empty_finite : Snapshot.empty.Finite := by
  intro name x hx
  simp [Snapshot.empty] at hx

theorem reread_tidy {content : Snapshot} (h : content.IsTidy) : content.reread.IsTidy := by
  rintro name (stored | stored)
  · rw [Snapshot.reread, NameMap.getElem?_map, Option.isSome_map] at stored
    exact h name (.inl stored)
  · exact h name (.inr stored)

theorem start_invariant (path : Option String) (mode : SaveMode) (files : FileTree) :
    Invariant (start path mode files : Lifetime ι) := by
  have only {content : Snapshot} (h : content ∈ (start path mode files : Lifetime ι).past) :
      content = .empty := List.mem_singleton.mp h
  refine ⟨fun content h => ?_, fun content h => ?_, List.mem_singleton_self _, fun i w hw => ?_⟩
  · rw [only h]
    exact empty_tidy
  · rw [only h]
    exact empty_finite
  · cases hw

theorem Invariant.load (h : Invariant s) {m : Memory} (tidy : m.content.IsTidy)
    (finite : m.content.Finite) (files : FileTree) : Invariant (s.load m files) := by
  refine ⟨fun content hc => ?_, fun content hc => ?_, ?_, h.working⟩
  · rcases List.mem_append.mp hc with hc | hc
    · exact h.tidy content hc
    · rw [List.mem_singleton.mp hc]
      exact tidy
  · rcases List.mem_append.mp hc with hc | hc
    · exact h.finite content hc
    · rw [List.mem_singleton.mp hc]
      exact finite
  · exact List.mem_append_right _ (List.mem_singleton_self _)

theorem Invariant.perform (h : Invariant s) {c : Call} (hc : c.IsTidy) :
    Invariant (s.load (s.memory.perform s.files c).2.1 (s.memory.perform s.files c).2.2) := by
  have tidy := h.tidy _ h.present
  have finite := h.finite _ h.present
  rw [Memory.perform_memory]
  cases hu : s.memory.content.change? c with
  | none => exact h.load tidy finite _
  | some u => exact h.load (tidy.change hc hu) (Host.finite_change finite hu) _

theorem Invariant.restored (h : Invariant s) {config : StorageConfig}
    (own : s.restoresOwn config = true) :
    (Startup.savedContent config s.files).IsTidy ∧ (Startup.savedContent config s.files).Finite := by
  unfold restoresOwn at own
  unfold Startup.savedContent
  split
  · rename_i path restores named
    rw [restores, named] at own
    dsimp only at own
    rw [Startup.decoded?]
    cases hr : s.files.read? (.ofText s.files.base path) with
    | none => exact ⟨empty_tidy, empty_finite⟩
    | some bytes =>
      rw [hr] at own
      obtain ⟨content, past, rfl⟩ : ∃ content ∈ s.past, content.encode = bytes := by
        simpa using own
      have finite := h.finite content past
      rw [Option.bind_some, Snapshot.decode_encode finite]
      exact ⟨reread_tidy (h.tidy content past), finite.reread⟩
  · exact ⟨empty_tidy, empty_finite⟩

theorem Invariant.restoresOwn_saved (h : Invariant s) {path : String} {files : FileTree}
    {config : StorageConfig} (kept : s.memory.snapshotPath = some path)
    (saved : s.memory.save s.files = (.ok (), files)) (named : config.fileStoragePath = some path) :
    ({ s with files := files } : Lifetime ι).restoresOwn config = true := by
  unfold restoresOwn
  rw [named]
  split
  · rename_i same
    obtain rfl := Option.some.inj same
    rw [Memory.save, kept] at saved
    obtain ⟨base, read⟩ := AtomicWrite.run_eq_ok saved
    dsimp only
    rw [base, read]
    exact List.any_eq_true.mpr ⟨_, h.present, decide_eq_true rfl⟩
  · rfl

variable [DecidableEq ι] {i : ι}

theorem Invariant.occupy (h : Invariant s) {work : Option (Work Response)}
    (hw : ∀ w, work = some w → w.Follows (.allowing Call.IsTidy) (fun _ _ => True) ()) :
    Invariant (s.occupy i work) := by
  refine ⟨h.tidy, h.finite, h.present, fun j w hj => ?_⟩
  by_cases same : j = i
  · subst same
    exact hw w (by simpa [Lifetime.occupy] using hj)
  · exact h.working j w (by simpa [Lifetime.occupy, same] using hj)

theorem step_preserves_invariant {e : Event ι} (h : Invariant s) (he : s.next e = some t) :
    Invariant t := by
  cases e with
  | submit i key r =>
    cases hi : s.active i with
    | some w => simp only [next, hi] at he; cases he
    | none =>
      simp only [next, hi] at he
      obtain rfl := Option.some.inj he
      refine h.occupy fun w hw => ?_
      obtain rfl := Option.some.inj hw
      exact follows_tidy key r
  | proceed i =>
    cases hi : s.active i with
    | none => simp only [next, hi] at he; cases he
    | some w =>
      have follows := h.working i w hi
      cases w with
      | done response =>
        simp only [next, hi] at he
        obtain rfl := Option.some.inj he
        exact h.occupy fun w hw => nomatch hw
      | log e rest =>
        simp only [next, hi] at he
        obtain rfl := Option.some.inj he
        refine h.occupy fun w hw => ?_
        obtain rfl := Option.some.inj hw
        exact follows
      | call c rest =>
        simp only [next, hi] at he
        obtain rfl := Option.some.inj he
        refine (h.perform follows.1).occupy fun w hw => ?_
        obtain rfl := Option.some.inj hw
        exact follows.2 _
  | save =>
    obtain rfl := Option.some.inj he
    exact ⟨h.tidy, h.finite, h.present, h.working⟩
  | disk files =>
    obtain rfl := Option.some.inj he
    exact ⟨h.tidy, h.finite, h.present, h.working⟩
  | restart config =>
    have starting := Startup.start_starting config s.files
    rw [next] at he
    generalize Startup.start config s.files = o at he starting
    cases starting with
    | unprepared connects failed => cases he
    | relational connects done prepared => cases he
    | @memory later logs unconnected less content =>
      dsimp only at he
      split at he
      · rename_i own
        obtain rfl := Option.some.inj he
        obtain ⟨tidy, finite⟩ : (Startup.savedContent config later).IsTidy ∧
            (Startup.savedContent config later).Finite := by
          rcases less with same | gone
          · rw [same]
            exact h.restored own
          · rw [gone]
            exact ⟨empty_tidy, empty_finite⟩
        have loaded := h.load (m := Startup.startingMemory config later) tidy finite later
        exact ⟨loaded.tidy, loaded.finite, loaded.present, fun i w hw => nomatch hw⟩
      · cases he

theorem run_preserves_invariant {events : List (Event ι)} (h : Invariant s)
    (hr : s.run events = some t) : Invariant t := by
  induction events generalizing s with
  | nil =>
    obtain rfl := Option.some.inj hr
    exact h
  | cons e events ih =>
    obtain ⟨u, hu, hr⟩ := Option.bind_eq_some_iff.mp hr
    exact ih (step_preserves_invariant h hu) hr

end Lifetime

def listedText? (listing : Listing) (kind : Kind) (name : String) : Option String :=
  match kind with
  | .gauge => listing.gauges[name]?
  | .counter => listing.counters[name]?

theorem listedText?_listing (s : Snapshot) (kind : Kind) (name : String) :
    listedText? s.listing kind name = (s.payload? kind name).map Payload.text := by
  cases kind with
  | gauge => simp [listedText?, Snapshot.listing, Snapshot.payload?, Payload.text, Function.comp_def]
  | counter => simp [listedText?, Snapshot.listing, Snapshot.payload?, Payload.text, Function.comp_def]

/-- Asked for as it is listed, a metric with a tidy name is answered as it is listed. -/
theorem valueText_listed {m : Memory} {files : FileTree} {kind : Kind} {name text : String}
    (tidy : IsTidy name) (listed : listedText? m.content.listing kind name = some text) :
    ((Handler.valueText kind.text name).answer.run ⟨.memory m, files⟩).1 = .text 200 text := by
  have found : Handler.Ensures privateStore (fun _ _ => False) (fun a _ => a = .text 200 text)
      (Handler.valueText kind.text name) ⟨.memory m, files⟩ := by
    simp only [Handler.valueText, kindOf_text, tidy.nameOf, Handler.checked, pure_bind]
    rw [listedText?_listing] at listed
    obtain ⟨p, hp, rfl⟩ := Option.map_eq_some_iff.mp listed
    rw [Handler.ensures_bind]
    exact Handler.ensures_currentPayload_memory hp rfl
  have answered : Program.Ensures privateStore (fun a _ => a = .text 200 text)
      (Handler.valueText kind.text name).answer ⟨.memory m, files⟩ :=
    Handler.ensures_answer (found.mono (fun _ _ no => no.elim) fun _ _ h => h)
  exact Program.ensures_alone_iff.mp answered

namespace Lifetime

variable {ι : Type} [DecidableEq ι] {s : Lifetime ι}

/-- Whatever the clients of a server ask for and however often it is started from its own snapshots,
every name that it stores is trimmed and not empty; and whatever it lists can be asked for by the
name under which it is listed, and is answered with the text that is listed. -/
theorem listed_is_fetched {path : Option String} {mode : SaveMode} {files : FileTree}
    {events : List (Event ι)} (hr : (start path mode files).run events = some s) :
    (∀ name : String, s.memory.content.gauges[name]?.isSome ∨ s.memory.content.counters[name]?.isSome →
      name ≠ "" ∧ trim name = name) ∧
    ∃ listing, (s.memory.perform s.files .getAll).1 = .ok listing ∧
      ∀ kind name text, listedText? listing kind name = some text →
        ((Handler.valueText kind.text name).answer.run ⟨.memory s.memory, s.files⟩).1 =
          .text 200 text := by
  have h := run_preserves_invariant (start_invariant path mode files) hr
  have tidy := h.tidy _ h.present
  refine ⟨fun name stored => ⟨(tidy name stored).named, (tidy name stored).trimmed⟩, _, rfl,
    fun kind name text listed => valueText_listed (tidy name ?_) listed⟩
  rw [listedText?_listing] at listed
  obtain ⟨p, hp, -⟩ := Option.map_eq_some_iff.mp listed
  cases kind with
  | gauge =>
    obtain ⟨x, hx, -⟩ := Option.map_eq_some_iff.mp hp
    exact .inl (by rw [hx]; rfl)
  | counter =>
    obtain ⟨c, hc, -⟩ := Option.map_eq_some_iff.mp hp
    exact .inr (by rw [hc]; rfl)

def restartedEvents : List (Event Unit) :=
  .submit () none ⟨"POST", "/update/counter/%20PollCount%E3%80%80/5", [], .raw []⟩ ::
    List.replicate 4 (.proceed ()) ++ [.restart ⟨0, some "metrics.json", true, none⟩]

/-- The counter is back and can be asked for by its trimmed name. -/
theorem restarted_is_fetched : ∃ s : Lifetime Unit,
    (start (some "metrics.json") .inline (.empty "/work")).run restartedEvents = some s ∧
      s.memory.content.counters.keys = ["PollCount"] ∧ trim "PollCount" = "PollCount" ∧
      ((Handler.valueText "counter" "PollCount").answer.run ⟨.memory s.memory, s.files⟩).1 =
        .text 200 "5" := by
  have ran : ((start (some "metrics.json") .inline (.empty "/work")).run restartedEvents).map
      (fun s => (s.memory.content.counters.keys, s.memory.content.listing.counters["PollCount"]?)) =
        some (["PollCount"], some "5") := by decide +kernel
  obtain ⟨s, hs, seen⟩ := Option.map_eq_some_iff.mp ran
  obtain ⟨keys, listed⟩ := Prod.mk.inj seen
  obtain ⟨names, listing, answer, fetched⟩ := listed_is_fetched hs
  obtain rfl := Except.ok.inj answer
  have stored : s.memory.content.counters["PollCount"]?.isSome := by
    rw [← NameMap.mem_keys_iff, keys]
    exact List.mem_singleton_self _
  exact ⟨s, hs, keys, (names "PollCount" (.inr stored)).2, fetched .counter "PollCount" "5" listed⟩

end Lifetime

end Telemetry.Server
