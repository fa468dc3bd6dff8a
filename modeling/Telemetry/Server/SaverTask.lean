import Telemetry.Server.Saver
import Telemetry.Storage.AtomicWrite
import Telemetry.Storage.Store
/-!
The task that saves at intervals, step by step, beside others who change the memory.

Whenever the task is woken it makes a pass. It chooses between the order to stop and its work, which
is the next tick, or the save that a tick has begun: it looks at the two in either order, takes the
first that it finds ready, and rests when it finds neither. What it takes leads to another choice in
the same pass. A save is handed over to somebody else, who captures the content and writes it tree
after tree. Nothing of this is instantaneous: calls, time and the order to stop come in between, and a
save may be done before the task has looked at it for the first time. Once the task has stopped nobody
waits for a save that has begun, but it is written all the same.
-/

namespace Telemetry.Server

open Log Storage

/-- Where a save is that was handed over. A captured content is that after `count` calls. -/
inductive Job where
  | idle
  | handed
  | captured (path : String) (count : Nat) (bytes : Bytes)
  | writing (count : Nat) (trees : List FileTree) (result : Except Error Unit)
  | finished (result : Except Error Unit)

/-- A memory, its files and the save that was handed over. Beside them stand the calls that were
made, and how many of them each content that was saved takes in. -/
structure Saving where
  job : Job
  memory : Memory
  files : FileTree
  applied : List Call
  saves : List Nat

namespace Saving

def call (s : Saving) (c : Call) : Saving :=
  { s with
    memory := (s.memory.perform s.files c).2.1
    files := (s.memory.perform s.files c).2.2
    applied := s.applied ++ [c] }

/-- The last tree of a write that succeeds has the file in it. -/
def install (s : Saving) (count : Nat) (tree : FileTree) (trees : List FileTree)
    (result : Except Error Unit) : Saving :=
  { s with
    job := .writing count trees result
    files := tree
    saves := match trees, result with
      | [], .ok _ => s.saves ++ [count]
      | _, _ => s.saves }

/-- The next step of the save; a write that it begins may fail at any step of its own. -/
def work (s : Saving) (fault : Option AtomicWrite.Step) (written : Nat) : Saving :=
  match s.job with
  | .idle | .finished _ => s
  | .handed =>
    match s.memory.snapshotPath with
    | none => { s with job := .finished (.error .noSnapshotPath) }
    | some path => { s with job := .captured path s.applied.length s.memory.content.encode }
  | .captured path count bytes =>
    let o := AtomicWrite.attempt fault written s.files path bytes
    { s with job := .writing count o.trace o.result }
  | .writing count (tree :: trees) result => s.install count tree trees result
  | .writing _ [] result => { s with job := .finished result }

end Saving

/-- What the task has yet to look at in the choice before it. It rests when there is nothing. -/
structure Looks where
  order : Bool
  work : Bool
  deriving DecidableEq

/-- The task and the memory that it saves. An attempt is fresh until the task has looked at it once.
Beside them stands what was: when the task began, when the attempts began, how many of them were found
done when they were fresh, how many ticks have come, the results of every tick that is done with, and
those of the tick that is not. -/
structure SaverTask where
  saver : Saver
  saving : Saving
  looks : Looks
  fresh : Bool
  logs : List Event
  begun : Option Nat
  starts : List Nat
  prompt : Nat
  ticks : Nat
  rounds : List (List (Except Error Unit))
  round : List (Except Error Unit)

namespace SaverTask

/-- What happens next: a call, time that passes, the order to stop, a step of the save that was handed
over; or the task begins a pass, looks whether it was told to stop, or looks at its work. Work that is
ready need not be seen to be. -/
inductive Event where
  | call (c : Call)
  | elapse (span : Nat)
  | cancel
  | work (fault : Option AtomicWrite.Step) (written : Nat)
  | pass
  | heed
  | look (seen : Bool)

def start (content : Snapshot) (path : Option String) (mode : Duration) (files : FileTree)
    (interval : Nat) (backoff : Backoff) : SaverTask :=
  ⟨.new interval backoff, ⟨.idle, ⟨content, path, .periodic mode⟩, files, [], []⟩, ⟨false, false⟩,
    false, [], none, [], 0, 0, [], []⟩

def begin (s : SaverTask) : SaverTask :=
  { s with
    saver := s.saver.begin.1
    logs := s.logs ++ s.saver.begin.2
    begun := if s.saver.phase = .unstarted then some s.saver.now else s.begun }

/-- A task that rests is woken. -/
def pass (s : SaverTask) : SaverTask :=
  if s.looks = ⟨false, false⟩ then { s.begin with looks := ⟨true, true⟩ } else s

def stop (s : SaverTask) : SaverTask :=
  { s with
    saver := s.saver.stop.1
    logs := s.logs ++ s.saver.stop.2
    looks := ⟨false, false⟩ }

def heed (s : SaverTask) : SaverTask :=
  if !s.looks.order then s
  else if s.saver.cancelled then s.stop
  else { s with looks := ⟨false, s.looks.work⟩ }

/-- The tick that was due has come: an attempt is due at once. -/
def fire (s : SaverTask) (due : Nat) : SaverTask :=
  { s with
    saver := { s.saver with phase := .retrying s.saver.now 1 s.saver.backoff (s.saver.nextDue due) }
    looks := ⟨true, true⟩
    ticks := s.ticks + 1 }

def handOver (s : SaverTask) : SaverTask :=
  { s with
    saving := { s.saving with job := .handed }
    fresh := true
    starts := s.starts ++ [s.saver.now] }

/-- Takes the result of an attempt. It is the last of its tick, or another attempt will follow. -/
def take (s : SaverTask) (result : Except Error Unit) : SaverTask :=
  let s := { s with
    saver := (s.saver.attempt result).1
    saving := { s.saving with job := .idle }
    logs := s.logs ++ (s.saver.attempt result).2
    fresh := false
    prompt := if s.fresh then s.prompt + 1 else s.prompt
    round := s.round ++ [result] }
  match s.saver.phase with
  | .waiting _ => { s with looks := ⟨true, true⟩, rounds := s.rounds ++ [s.round], round := [] }
  | _ => s

def overlook (s : SaverTask) : SaverTask :=
  { s with looks := ⟨s.looks.order, false⟩, fresh := false }

def look (s : SaverTask) (seen : Bool) : SaverTask :=
  if !(s.looks.work && seen) then s.overlook
  else
    match s.saver.phase, s.saving.job with
    | .waiting due, _ => if due ≤ s.saver.now then s.fire due else s.overlook
    | .retrying wake _ _ _, .idle => if wake ≤ s.saver.now then s.handOver else s.overlook
    | .retrying _ _ _ _, .finished result => s.take result
    | _, _ => s.overlook

def next (s : SaverTask) : Event → SaverTask
  | .call c => { s with saving := s.saving.call c }
  | .elapse span => { s with saver := { s.saver with now := s.saver.now + span } }
  | .cancel => { s with saver := s.saver.cancel }
  | .work fault written => { s with saving := s.saving.work fault written }
  | .pass => s.pass
  | .heed => s.heed
  | .look seen => s.look seen

def run (s : SaverTask) (events : List Event) : SaverTask := events.foldl next s

end SaverTask

end Telemetry.Server
