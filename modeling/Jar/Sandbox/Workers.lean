import Mathlib.Logic.Function.Basic

/-! The parallel lanes of a sandbox: leases of lanes, workers that are started when they are
needed, and the slots through which host threads and guest workers talk. -/

namespace Jar.Sandbox

/-- The status word of a slot. -/
inductive Status
  | empty | ready | running | done | stop | starting | evictJitReady
  deriving DecidableEq, Repr

/-- What a worker can be asked for: a guest invocation, or to drop all compiled images. -/
inductive Command
  | invoke | evictJit
  deriving DecidableEq, Repr

/-- The status that hands a command to the worker of a slot. -/
def Command.ready : Command → Status
  | invoke => .ready
  | evictJit => .evictJitReady

/-- `ParallelInvokeWorkers`, with the state behind its locks. -/
structure Workers where
  laneCount : Nat
  available : List Nat
  started : Nat → Bool
  stopping : Bool
  handles : Nat → Bool

namespace Workers

/-- A pool of lanes of which the first was just started. -/
def new (laneCount firstLane : Nat) : Workers where
  laneCount
  available := [firstLane]
  started := Function.update (fun _ => false) firstLane true
  stopping := false
  handles := Function.update (fun _ => false) firstLane true

variable (w : Workers)

/-- Lease the lane that came back last, if there is one. -/
def tryAcquireLane : Option (Nat × Workers) :=
  if w.stopping then none
  else w.available.getLast?.map fun lane => (lane, { w with available := w.available.dropLast })

/-- Mark the first lane that is not started as started. -/
def reserveUnstartedLane : Option (Nat × Workers) :=
  if w.stopping then none
  else ((List.range w.laneCount).find? (!w.started ·)).map fun lane =>
    (lane, { w with started := Function.update w.started lane true })

def releaseLane (lane : Nat) : Workers := { w with available := w.available ++ [lane] }

/-- Make a started lane available; it must not have a handle yet. -/
def installStartedLane (lane : Nat) : Option Workers :=
  if w.laneCount ≤ lane ∨ w.handles lane then none
  else some (releaseLane { w with handles := Function.update w.handles lane true } lane)

def releaseStartReservation (lane : Nat) : Workers :=
  if lane < w.laneCount then { w with started := Function.update w.started lane false } else w

def startedCount : Nat := (List.range w.laneCount).countP (w.started ·)

/-- Lease all lanes, as soon as all that count as started are available. -/
def acquireAllLanes : Option (List Nat × Workers) :=
  if w.stopping ∨ w.available.length ≠ w.startedCount then none
  else some (w.available, { w with available := [] })

end Workers

/-- What the guest worker of a lane does. -/
inductive Guest
  | booting | polling | running (command : Command) | exited
  deriving DecidableEq, Repr

/-- Where a host thread is in `invoke_cached_parallel` or `evict_jit_all_parallel`, with the lanes
that it reserved or leased. -/
inductive Thread
  | idle
  | seeking
  | reserving
  | acquiring
  | starting (lane : Nat)
  | booting (lane : Nat)
  | booted (lane : Nat)
  | failed (lane : Nat)
  | acquiringAll
  | leased (command : Command) (lanes : List Nat)
  | waiting (command : Command) (lane : Nat) (rest : List Nat)
  | releasing (lanes : List Nat)

structure System where
  workers : Workers
  status : Nat → Status
  guests : Nat → Guest
  threads : Nat → Thread

namespace System

variable (s : System)

@[simp]
def goes (t : Nat) (thread : Thread) : System :=
  { s with threads := Function.update s.threads t thread }

@[simp]
def pools (w : Workers) : System := { s with workers := w }

@[simp]
def writes (lane : Nat) (status : Status) : System :=
  { s with status := Function.update s.status lane status }

@[simp]
def turns (lane : Nat) (guest : Guest) : System :=
  { s with guests := Function.update s.guests lane guest }

/-- The system right after `ensure_invoke_workers` made the pool. -/
def fresh (laneCount : Nat) : System where
  workers := .new laneCount 0
  status _ := .empty
  guests := Function.update (fun _ => .exited) 0 .polling
  threads _ := .idle

/-- One step of a host thread or of a guest worker: one locked section, or one exchange through the
status of a slot. -/
inductive Step : System → Prop
  | invoke {t : Nat} (at_ : s.threads t = .idle) : Step (s.goes t .seeking)
  | acquired {t lane : Nat} {w : Workers} (at_ : s.threads t = .seeking ∨ s.threads t = .acquiring)
      (got : s.workers.tryAcquireLane = some (lane, w)) :
      Step ((s.pools w).goes t (.leased .invoke [lane]))
  | unavailable {t : Nat} (at_ : s.threads t = .seeking)
      (got : s.workers.tryAcquireLane = none) : Step (s.goes t .reserving)
  | reserved {t lane : Nat} {w : Workers} (at_ : s.threads t = .reserving)
      (got : s.workers.reserveUnstartedLane = some (lane, w)) :
      Step ((s.pools w).goes t (.starting lane))
  | unreserved {t : Nat} (at_ : s.threads t = .reserving)
      (got : s.workers.reserveUnstartedLane = none) : Step (s.goes t .acquiring)
  | stopped {t : Nat} (at_ : s.threads t = .acquiring) (stopping : s.workers.stopping = true) :
      Step (s.goes t .seeking)
  -- The control lock is held until the start returns. A worker that outlived its own start would
  -- keep the vCPU.
  | spawned {t lane : Nat} (at_ : s.threads t = .starting lane)
      (lock : ∀ u lane, s.threads u ≠ .booting lane) :
      Step (((s.writes lane .starting).turns lane
        (if s.guests lane = .exited then .booting else s.guests lane)).goes t (.booting lane))
  | unspawned {t lane : Nat} (at_ : s.threads t = .starting lane)
      (lock : ∀ u lane, s.threads u ≠ .booting lane) :
      Step ((s.writes lane .starting).goes t (.failed lane))
  | booted {t lane : Nat} (at_ : s.threads t = .booting lane) (up : s.status lane = .empty) :
      Step (s.goes t (.booted lane))
  -- The worker exited, or the deadline passed.
  | unbooted {t lane : Nat} (at_ : s.threads t = .booting lane) (down : s.status lane ≠ .empty) :
      Step (s.goes t (.failed lane))
  | installed {t lane : Nat} {w : Workers} (at_ : s.threads t = .booted lane)
      (got : s.workers.installStartedLane lane = some w) : Step ((s.pools w).goes t .seeking)
  | uninstalled {t lane : Nat} (at_ : s.threads t = .booted lane)
      (got : s.workers.installStartedLane lane = none) : Step (s.goes t .idle)
  | unstarted {t lane : Nat} (at_ : s.threads t = .failed lane) :
      Step ((s.pools (s.workers.releaseStartReservation lane)).goes t .idle)
  | evict {t : Nat} (at_ : s.threads t = .idle) : Step (s.goes t .acquiringAll)
  | acquiredAll {t : Nat} {lanes : List Nat} {w : Workers} (at_ : s.threads t = .acquiringAll)
      (got : s.workers.acquireAllLanes = some (lanes, w)) :
      Step ((s.pools w).goes t (.leased .evictJit lanes))
  | refused {t : Nat} (at_ : s.threads t = .acquiringAll) (stopping : s.workers.stopping = true) :
      Step (s.goes t .idle)
  | submitted {t lane : Nat} {c : Command} {rest : List Nat}
      (at_ : s.threads t = .leased c (lane :: rest)) (free : s.status lane = .empty) :
      Step ((s.writes lane c.ready).goes t (.waiting c lane rest))
  | unsubmitted {t : Nat} {c : Command} {lanes : List Nat} (at_ : s.threads t = .leased c lanes)
      (busy : ∀ lane ∈ lanes.head?, s.status lane ≠ .empty) : Step (s.goes t (.releasing lanes))
  | completed {t lane : Nat} {c : Command} {rest : List Nat}
      (at_ : s.threads t = .waiting c lane rest) (done : s.status lane = .done) :
      Step ((s.writes lane .empty).goes t (.releasing (lane :: rest)))
  | unexpected {t lane : Nat} {c : Command} {rest : List Nat}
      (at_ : s.threads t = .waiting c lane rest)
      (other : s.status lane ∉ [.done, c.ready, .running]) :
      Step (s.goes t (.releasing (lane :: rest)))
  -- The status was seen earlier, so it may be any by now.
  | finished {t lane : Nat} {c : Command} {rest : List Nat}
      (at_ : s.threads t = .waiting c lane rest) (handle : s.workers.handles lane = true)
      (gone : s.guests lane = .exited) :
      Step ((s.pools { s.workers with handles := Function.update s.workers.handles lane false }).goes
        t (.releasing (lane :: rest)))
  | released {t lane : Nat} {rest : List Nat} (at_ : s.threads t = .releasing (lane :: rest)) :
      Step ((s.pools (s.workers.releaseLane lane)).goes t (.releasing rest))
  | returned {t : Nat} (at_ : s.threads t = .releasing []) : Step (s.goes t .idle)
  | up {lane : Nat} (at_ : s.guests lane = .booting) :
      Step ((s.writes lane (if s.status lane = .starting then .empty else s.status lane)).turns lane
        .polling)
  | claim {lane : Nat} {c : Command} (at_ : s.guests lane = .polling)
      (asked : s.status lane = c.ready) : Step ((s.writes lane .running).turns lane (.running c))
  | finish {lane : Nat} {c : Command} (at_ : s.guests lane = .running c) :
      Step ((s.writes lane .done).turns lane .polling)
  | stop {lane : Nat} (at_ : s.guests lane = .polling) (asked : s.status lane = .stop) :
      Step ((s.writes lane .empty).turns lane .exited)
  -- The call of the worker ends by itself, be it with an error.
  | exit {lane : Nat} : Step (s.turns lane .exited)

/-- An eviction is under way: a thread has handed it over, or a worker is at it. -/
def Evicting : Prop :=
  (∃ t lane rest, s.threads t = .waiting .evictJit lane rest) ∨
    ∃ lane, s.guests lane = .running .evictJit

def Invoking : Prop := ∃ lane, s.guests lane = .running .invoke

end System

end Jar.Sandbox
