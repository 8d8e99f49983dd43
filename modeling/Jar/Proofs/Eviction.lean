import Jar.Sandbox.Workers
import Mathlib.Data.List.Nodup
import Mathlib.Data.List.Perm.Subperm
import Mathlib.Logic.Relation

/-! No guest invocation runs while compiled images are dropped, provided that all lanes are started
by then. -/

namespace Jar.Sandbox

/-! ## What threads hold -/

namespace Thread

/-- The lanes that a thread has reserved or leased. -/
@[simp]
def held : Thread → List Nat
  | starting lane | booting lane | booted lane | failed lane => [lane]
  | leased _ lanes | releasing lanes => lanes
  | waiting _ lane rest => lane :: rest
  | _ => []

@[simp]
def vacant : Thread → Option Nat
  | starting lane | failed lane => some lane
  | _ => none

@[simp]
def awaits : Thread → Option (Command × Nat)
  | waiting c lane _ => some (c, lane)
  | _ => none

@[simp]
def evicts : Thread → Bool
  | leased .evictJit _ | waiting .evictJit _ _ => true
  | _ => false

theorem mem_held {th : Thread} {lane : Nat}
    (near : th.vacant = some lane ∨ ∃ c, th.awaits = some (c, lane)) : lane ∈ th.held := by
  cases th <;> simp_all

end Thread

/-- All lanes are started whenever all are leased; a start only fails once its worker is gone. -/
structure System.Careful (s s' : System) : Prop where
  whole : ∀ t lanes, s.threads t = .acquiringAll → s'.threads t = .leased .evictJit lanes →
    ∀ lane < s.workers.laneCount, s.workers.started lane = true
  gone : ∀ t lane, s.threads t = .booting lane → s'.threads t = .failed lane →
    s.guests lane = .exited

/-! ## The pool of lanes -/

section

variable {w w' : Workers} {lane : Nat}

theorem tryAcquireLane_eq_some (got : w.tryAcquireLane = some (lane, w')) :
    ∃ rest, w.available = rest ++ [lane] ∧ w' = { w with available := rest } := by
  unfold Workers.tryAcquireLane at got
  split at got
  · cases got
  obtain ⟨_, last, same⟩ := Option.map_eq_some_iff.mp got
  obtain ⟨rfl, rfl⟩ := Prod.mk.inj same
  exact ⟨_, (List.dropLast_append_getLast? _ last).symm, rfl⟩

theorem reserveUnstartedLane_eq_some (got : w.reserveUnstartedLane = some (lane, w')) :
    lane < w.laneCount ∧ w.started lane = false ∧
      w' = { w with started := Function.update w.started lane true } := by
  unfold Workers.reserveUnstartedLane at got
  split at got
  · cases got
  obtain ⟨_, found, same⟩ := Option.map_eq_some_iff.mp got
  obtain ⟨rfl, rfl⟩ := Prod.mk.inj same
  have valid := List.mem_of_find?_eq_some found
  have unstarted := List.find?_some found
  exact ⟨List.mem_range.mp valid, by simpa using unstarted, rfl⟩

theorem acquireAllLanes_eq_some {lanes : List Nat} (got : w.acquireAllLanes = some (lanes, w')) :
    w.available.length = w.startedCount ∧ lanes = w.available ∧
      w' = { w with available := [] } := by
  unfold Workers.acquireAllLanes at got
  split at got
  · cases got
  · next idle =>
    obtain ⟨rfl, rfl⟩ := Prod.mk.inj (Option.some.inj got)
    exact ⟨by simpa using (not_or.mp idle).2, rfl, rfl⟩

theorem installStartedLane_eq_some (got : w.installStartedLane lane = some w') :
    w' = { w with
      available := w.available ++ [lane], handles := Function.update w.handles lane true } := by
  unfold Workers.installStartedLane at got
  split at got
  · cases got
  · exact (Option.some.inj got).symm

end

/-! ## Lanes that are apart -/

section

variable {w w' : Workers} {threads : Nat → Thread} {lane t : Nat} {th : Thread} {s s' : System}

/-- A lane is available, or with one thread, never both and never twice; then it is started. -/
structure Apart (w : Workers) (threads : Nat → Thread) : Prop where
  nodup : w.available.Nodup ∧ ∀ t, (threads t).held.Nodup
  apart : ∀ t, ∀ lane ∈ (threads t).held, lane ∉ w.available ∧
    ∀ u, lane ∈ (threads u).held → t = u
  started : ∀ lane, (lane ∈ w.available ∨ ∃ t, lane ∈ (threads t).held) →
    lane < w.laneCount ∧ w.started lane = true

theorem apart_fresh {laneCount : Nat} (lanes : 0 < laneCount) :
    Apart (System.fresh laneCount).workers (System.fresh laneCount).threads where
  nodup := ⟨List.nodup_singleton 0, fun _ => List.nodup_nil⟩
  apart := nofun
  started lane held := by
    obtain rfl : lane = 0 := by simpa [System.fresh, Workers.new] using held
    exact ⟨lanes, rfl⟩

/-- A thread goes on with lanes that it had, that were available, or that it just started. -/
theorem Apart.trade (apart : Apart w threads)
    (count : w'.laneCount = w.laneCount) (nodup : (th.held ++ w'.available).Nodup)
    (origin : ∀ lane ∈ th.held ++ w'.available, w'.started lane = true ∧
      (lane ∈ (threads t).held ++ w.available ∨ lane < w.laneCount ∧ w.started lane = false))
    (started : ∀ lane, w.started lane = true → w'.started lane = true ∨ lane ∈ (threads t).held) :
    Apart w' (Function.update threads t th) := by
  obtain ⟨held, free, disjoint⟩ := List.nodup_append.mp nodup
  obtain ⟨nodup', own, started'⟩ := apart
  -- The lanes of the other threads are not among those that changed hands.
  have others : ∀ u ≠ t, ∀ lane ∈ (threads u).held, lane ∉ th.held ++ w'.available := by grind
  constructor
  case nodup =>
    refine ⟨free, fun u => ?_⟩
    rw [Function.update_apply]
    split
    · exact held
    · exact nodup'.2 u
  case apart =>
    intro u lane mine
    simp only [Function.update_apply] at mine ⊢
    grind
  case started =>
    intro lane held
    simp only [Function.update_apply] at held
    grind

/-- A thread goes on with the lanes that it had, or gives up on them. -/
theorem Apart.goes (apart : Apart w threads)
    (held : th.held = (threads t).held ∨ th.held = []) :
    Apart w (Function.update threads t th) := by
  obtain ⟨nodup, own, started⟩ := id apart
  have part : ∀ lane ∈ th.held, lane ∈ (threads t).held := by grind
  refine apart.trade rfl (List.nodup_append.mpr ⟨?_, nodup.1, ?_⟩) ?_ fun _ => .inl <;> grind

/-- Every step keeps the lanes apart. -/
theorem Apart.step (apart : Apart s.workers s.threads) (step : s.Step s') :
    Apart s'.workers s'.threads := by
  obtain ⟨nodup, own, started⟩ := id apart
  cases step with
  | up | claim | finish | stop | exit => exact apart
  | invoke at_ | evict at_ | returned at_ | stopped at_ | unavailable at_ | unreserved at_
  | refused at_ | uninstalled at_ | unsubmitted at_ | completed at_ | unexpected at_
  | booted at_ | unbooted at_ | spawned at_ | unspawned at_ | submitted at_ =>
    exact apart.goes (by simp [at_])
  | finished at_ | released at_ =>
    refine apart.trade rfl ?_ ?_ (fun _ => .inl) <;>
      simp only [System.pools, System.goes, Workers.releaseLane] <;> grind [Thread.held]
  | acquired at_ got =>
    obtain ⟨_, _, rfl⟩ := tryAcquireLane_eq_some got
    refine apart.trade rfl ?_ ?_ (fun _ => .inl) <;>
      simp only [System.pools, System.goes] <;> grind [Thread.held]
  | acquiredAll at_ got =>
    obtain ⟨-, rfl, rfl⟩ := acquireAllLanes_eq_some got
    refine apart.trade rfl ?_ ?_ (fun _ => .inl) <;>
      simp only [System.pools, System.goes] <;> grind [Thread.held]
  | installed at_ got =>
    obtain rfl := installStartedLane_eq_some got
    refine apart.trade rfl ?_ ?_ (fun _ => .inl) <;>
      simp only [System.pools, System.goes] <;> grind [Thread.held]
  | reserved at_ got =>
    obtain ⟨_, _, rfl⟩ := reserveUnstartedLane_eq_some got
    refine apart.trade rfl ?_ ?_ ?_ <;>
      simp only [System.pools, System.goes, Function.update_apply] <;> grind [Thread.held]
  | unstarted at_ =>
    unfold Workers.releaseStartReservation
    split
    · refine apart.trade rfl ?_ ?_ ?_ <;>
        simp only [System.pools, System.goes, Function.update_apply] <;> grind [Thread.held]
    · exact apart.goes (.inr rfl)

/-- In every run, however threads and workers interleave and fail, a lane is available or with one
thread, never both and never twice, and it counts as started. -/
theorem lanes_leased_once {laneCount : Nat} {s : System} (lanes : 0 < laneCount)
    (run : Relation.ReflTransGen System.Step (.fresh laneCount) s) :
    s.workers.available.Nodup ∧ ∀ t, (s.threads t).held.Nodup ∧ ∀ lane ∈ (s.threads t).held,
      s.workers.started lane = true ∧ lane ∉ s.workers.available ∧
        ∀ u, lane ∈ (s.threads u).held → t = u := by
  have apart : Apart s.workers s.threads := by
    induction run with
    | refl => exact apart_fresh lanes
    | tail _ step ih => exact ih.step step
  exact ⟨apart.nodup.1, fun t => ⟨apart.nodup.2 t, fun lane held =>
    ⟨(apart.started lane (.inr ⟨t, held⟩)).2, apart.apart t lane held⟩⟩⟩

/-- Two threads lease two lanes, one of which the second thread started. -/
theorem lanes_leased_once_pair : ∃ s : System, (s.threads 0).held = [1] ∧
    (s.threads 1).held = [0] ∧ 0 ∉ s.workers.available ∧ 0 ∉ (s.threads 0).held := by
  have run : Relation.ReflTransGen System.Step (.fresh 2) _ :=
    .head (.invoke (t := 1) rfl) <| .head (.acquired (t := 1) (.inl rfl) rfl) <|
    .head (.invoke (t := 0) rfl) <| .head (.unavailable (t := 0) rfl rfl) <|
    .head (.reserved (t := 0) rfl rfl) <| .head (.spawned (t := 0) rfl fun u => by
      rcases u with _ | _ | _ <;> exact nofun) <|
    .head (@System.Step.up _ 1 rfl) <| .head (.booted (t := 0) rfl rfl) <|
    .head (.installed (t := 0) rfl rfl) <| .single (.acquired (t := 0) (.inl rfl) rfl)
  obtain ⟨-, free, alone⟩ :=
    ((lanes_leased_once (by decide) run).2 1).2 0 (List.mem_singleton_self 0)
  exact ⟨_, rfl, rfl, free, fun mine => absurd (alone 0 mine) (by decide)⟩

/-- A thread that evicts has all lanes. -/
def Whole (w : Workers) (threads : Nat → Thread) : Prop :=
  ∀ t, (threads t).evicts = true → ∀ lane < w.laneCount, lane ∈ (threads t).held

theorem Apart.mem_available (apart : Apart w threads) (all : ∀ lane < w.laneCount, w.started lane)
    (idle : w.available.length = w.startedCount) (valid : lane < w.laneCount) :
    lane ∈ w.available := by
  have counted : w.startedCount = w.laneCount := by
    rw [Workers.startedCount, List.countP_eq_length.mpr (by simpa using all), List.length_range]
  have inside : w.available ⊆ List.range w.laneCount := fun lane free =>
    List.mem_range.mpr (apart.started lane (.inl free)).1
  have perm := (List.subperm_of_subset apart.nodup.1 inside).perm_of_length_le
    (by simp [idle, counted])
  exact perm.mem_iff.mpr (List.mem_range.mpr valid)

theorem Whole.goes (whole : Whole w threads) (count : w'.laneCount = w.laneCount)
    (all : th.evicts = true → ∀ lane < w.laneCount, lane ∈ th.held) :
    Whole w' (Function.update threads t th) := by
  intro u evicts lane valid
  rw [count] at valid
  by_cases here : u = t
  · rw [here, Function.update_self] at evicts ⊢
    exact all evicts lane valid
  · rw [Function.update_of_ne here] at evicts ⊢
    exact whole u evicts lane valid

/-- Evictions have all lanes, if all are started whenever all are leased. -/
theorem Whole.step (whole : Whole s.workers s.threads) (apart : Apart s.workers s.threads)
    (step : s.Step s') (careful : s.Careful s') : Whole s'.workers s'.threads := by
  cases step with
  | up | claim | finish | stop | exit => exact whole
  | acquired at_ got =>
    obtain ⟨_, _, rfl⟩ := tryAcquireLane_eq_some got
    exact whole.goes rfl nofun
  | reserved at_ got =>
    obtain ⟨_, _, rfl⟩ := reserveUnstartedLane_eq_some got
    exact whole.goes rfl nofun
  | installed at_ got =>
    obtain rfl := installStartedLane_eq_some got
    exact whole.goes rfl nofun
  | unstarted at_ =>
    refine whole.goes ?_ nofun
    unfold Workers.releaseStartReservation
    split <;> rfl
  | acquiredAll at_ got =>
    obtain ⟨idle, rfl, rfl⟩ := acquireAllLanes_eq_some got
    have all := careful.whole _ _ at_ (Function.update_self ..)
    exact whole.goes rfl fun _ _ => apart.mem_available all idle
  | @submitted t _ c _ at_ =>
    -- The thread had all lanes when it leased them.
    have evicts := whole t
    rw [at_] at evicts
    exact whole.goes rfl fun _ => evicts (by cases c <;> assumption)
  | _ => exact whole.goes rfl nofun

end

/-! ## What workers do -/

section

variable {s s' : System} {lane t : Nat} {th : Thread} {w : Workers}

/-- A worker that has something to do has a thread that waits for it; no one starts its lane. -/
structure Attended (s : System) : Prop where
  served : ∀ lane c, s.guests lane = .running c →
    s.status lane = .running ∧ ∃ t, (s.threads t).awaits = some (c, lane)
  asked : ∀ lane c, s.guests lane ≠ .exited → s.status lane = c.ready →
    ∃ t, (s.threads t).awaits = some (c, lane)
  live : ∀ lane, s.guests lane ≠ .exited →
    s.workers.started lane = true ∧ ∀ t, (s.threads t).vacant ≠ some lane

theorem attended_fresh (laneCount : Nat) : Attended (System.fresh laneCount) := by
  refine ⟨fun lane c runs => ?_, fun lane c _ => ?_, fun lane lives => ⟨?_, nofun⟩⟩
  · by_cases first : lane = 0 <;> simp [System.fresh, first] at runs
  · cases c <;> exact nofun
  · by_cases first : lane = 0 <;> simp_all [System.fresh, Workers.new]

/-- A lane that a thread starts has no worker yet. -/
theorem Attended.exited (attended : Attended s) (starts : (s.threads t).vacant = some lane) :
    s.guests lane = .exited :=
  by_contra fun lives => (attended.live lane lives).2 t starts

/-- A thread moves on: it leaves no worker that still has its command, and starts no lane that has
a worker. -/
theorem Attended.goes {old : Thread} (attended : Attended s) (at_ : s.threads t = old)
    (leaves : ∀ c lane, old.awaits = some (c, lane) →
      s.guests lane = .exited ∨ s.status lane ≠ .running ∧ s.status lane ≠ c.ready)
    (starts : ∀ lane, th.vacant = some lane → s.guests lane = .exited) :
    Attended (s.goes t th) := by
  obtain ⟨served, asked, live⟩ := attended
  constructor <;> simp only [System.goes, Function.update_apply]
  -- Who waits for a busy worker is another thread.
  case served => grind
  case asked => grind
  case live =>
    refine fun lane lives => ⟨(live lane lives).1, fun u starting => ?_⟩
    split at starting
    · exact lives (starts lane starting)
    · exact (live lane lives).2 u starting

/-- The pool changes, but lanes that have workers stay started. -/
theorem Attended.pools (attended : Attended s)
    (kept : ∀ lane, s.guests lane ≠ .exited → w.started lane = s.workers.started lane) :
    Attended (s.pools w) where
  served := attended.served
  asked := attended.asked
  live lane lives := ⟨(kept lane lives).trans (attended.live lane lives).1,
    (attended.live lane lives).2⟩

/-- The worker and the slot of one lane change. -/
theorem Attended.turns {guest : Guest} {status : Status} (attended : Attended s)
    (threads : s'.threads = s.threads) (pool : s'.workers = s.workers)
    (turns : s'.guests = Function.update s.guests lane guest)
    (writes : s'.status = Function.update s.status lane status)
    (served : ∀ c, guest = .running c →
      status = .running ∧ ∃ t, (s.threads t).awaits = some (c, lane))
    (asked : ∀ c, guest ≠ .exited → status = c.ready →
      ∃ t, (s.threads t).awaits = some (c, lane))
    (live : guest ≠ .exited →
      s.workers.started lane = true ∧ ∀ t, (s.threads t).vacant ≠ some lane) : Attended s' := by
  constructor <;> intro l <;> by_cases here : l = lane <;>
    simp only [threads, pool, turns, writes, Function.update_apply, here, if_true, if_false]
  · exact served
  · exact attended.served l
  · exact asked
  · exact attended.asked l
  · exact live
  · exact attended.live l

/-- Every step keeps the workers attended, if a start only fails once its worker is gone. -/
theorem Attended.step (attended : Attended s) (apart : Apart s.workers s.threads)
    (step : s.Step s') (careful : s.Careful s') : Attended s' := by
  cases step with
  | invoke at_ | evict at_ | returned at_ | stopped at_ | unavailable at_ | unreserved at_
  | refused at_ | uninstalled at_ | unsubmitted at_ | booted at_ =>
    exact attended.goes at_ nofun nofun
  | acquired at_ got =>
    obtain ⟨_, _, rfl⟩ := tryAcquireLane_eq_some got
    rcases at_ with at_ | at_ <;> exact .goes (attended.pools fun _ _ => rfl) at_ nofun nofun
  | acquiredAll at_ got =>
    obtain ⟨_, _, rfl⟩ := acquireAllLanes_eq_some got
    exact .goes (attended.pools fun _ _ => rfl) at_ nofun nofun
  | installed at_ got =>
    obtain rfl := installStartedLane_eq_some got
    exact .goes (attended.pools fun _ _ => rfl) at_ nofun nofun
  | released at_ => exact .goes (attended.pools fun _ _ => rfl) at_ nofun nofun
  | finished at_ handle gone =>
    refine .goes (attended.pools fun _ _ => rfl) at_ (fun c l waits => .inl ?_) nofun
    cases waits
    exact gone
  | reserved at_ got =>
    obtain ⟨valid, unstarted, rfl⟩ := reserveUnstartedLane_eq_some got
    -- A lane that is not started has no worker.
    have gone := by_contra fun lives =>
      Bool.false_ne_true (unstarted.symm.trans (attended.live _ lives).1)
    refine .goes (attended.pools fun l lives => Function.update_of_ne ?_ ..) at_ nofun fun l starts => ?_
    · rintro rfl
      exact lives gone
    · cases starts
      exact gone
  | @unstarted t lane at_ =>
    have gone := attended.exited (congrArg Thread.vacant at_)
    refine .goes (attended.pools fun l lives => ?_) at_ nofun nofun
    unfold Workers.releaseStartReservation
    split
    · exact Function.update_of_ne (fun same : l = lane => lives (same ▸ gone)) ..
    · rfl
  | @spawned t lane at_ lock =>
    have gone := attended.exited (congrArg Thread.vacant at_)
    have mine : lane ∈ (s.threads t).held := by simp [at_]
    have attended' : Attended (s.goes t (.booting lane)) := attended.goes at_ nofun nofun
    rw [if_pos gone]
    refine attended'.turns rfl rfl rfl rfl nofun (fun c _ => by cases c <;> exact nofun)
      fun _ => ⟨(apart.started lane (.inr ⟨t, mine⟩)).2, fun u starts => ?_⟩
    -- No other thread starts the lane, for this one has it.
    change (Function.update s.threads t (.booting lane) u).vacant = _ at starts
    by_cases here : u = t
    · rw [here, Function.update_self] at starts
      cases starts
    · rw [Function.update_of_ne here] at starts
      exact here ((apart.apart t lane mine).2 u (Thread.mem_held (.inl starts))).symm
  | @unspawned t lane at_ lock =>
    have gone := attended.exited (congrArg Thread.vacant at_)
    have attended' : Attended (s.goes t (.failed lane)) :=
      attended.goes at_ nofun fun l starts => by cases starts; exact gone
    exact attended'.turns rfl rfl (Function.update_eq_self ..).symm rfl
      (fun c runs => nomatch gone.symm.trans runs) (fun _ lives => absurd gone lives)
      fun lives => absurd gone lives
  | unbooted at_ down =>
    have gone := careful.gone _ _ at_ (Function.update_self ..)
    refine attended.goes at_ nofun fun l starts => ?_
    cases starts
    exact gone
  | @submitted t lane c rest at_ free =>
    have attended' : Attended (s.goes t (.waiting c lane rest)) := attended.goes at_ nofun nofun
    refine attended'.turns rfl rfl (Function.update_eq_self ..).symm rfl (fun c' runs => ?_)
      (fun c' lives ready => ⟨t, ?_⟩) (attended'.live lane)
    · have busy := (attended.served lane c' runs).1
      rw [free] at busy
      cases busy
    · obtain rfl : c = c' := by cases c <;> cases c' <;> first | rfl | cases ready
      simp
  | @completed t lane c rest at_ done =>
    have attended' : Attended (s.goes t (.releasing (lane :: rest))) := by
      refine attended.goes at_ (fun c' l waits => .inr ?_) nofun
      cases waits
      rw [done]
      exact ⟨nofun, by cases c <;> exact nofun⟩
    refine attended'.turns rfl rfl (Function.update_eq_self ..).symm rfl (fun c' runs => ?_)
      (fun c' _ => by cases c' <;> exact nofun) (attended'.live lane)
    have busy := (attended.served lane c' runs).1
    rw [done] at busy
    cases busy
  | unexpected at_ other =>
    refine attended.goes at_ (fun c l waits => .inr ?_) nofun
    cases waits
    simp only [List.mem_cons, List.not_mem_nil, or_false, not_or] at other
    exact ⟨other.2.2, other.2.1⟩
  | @up lane at_ =>
    have lives : s.guests lane ≠ .exited := by rw [at_]; exact nofun
    refine attended.turns rfl rfl rfl rfl nofun (fun c _ ready => ?_) fun _ => attended.live lane lives
    split at ready
    · cases c <;> cases ready
    · exact attended.asked lane c lives ready
  | @claim lane c at_ ready =>
    have lives : s.guests lane ≠ .exited := by rw [at_]; exact nofun
    refine attended.turns rfl rfl rfl rfl (fun c' runs => ⟨rfl, ?_⟩)
      (fun c' _ => by cases c' <;> exact nofun) fun _ => attended.live lane lives
    cases runs
    exact attended.asked lane c lives ready
  | @finish lane c at_ =>
    have lives : s.guests lane ≠ .exited := by rw [at_]; exact nofun
    exact attended.turns rfl rfl rfl rfl nofun (fun c' _ => by cases c' <;> exact nofun)
      fun _ => attended.live lane lives
  | stop at_ asked =>
    exact attended.turns rfl rfl rfl rfl nofun (fun _ lives => absurd rfl lives)
      fun lives => absurd rfl lives
  | exit =>
    exact attended.turns rfl rfl rfl (Function.update_eq_self ..).symm nofun
      (fun _ lives => absurd rfl lives) fun lives => absurd rfl lives

end

/-! ## Evictions -/

/-- The steps of a run in which all lanes are started whenever all are leased. -/
def CarefulStep (s s' : System) : Prop := s.Step s' ∧ s.Careful s'

/-- No guest invocation runs while an eviction is under way, if all lanes of the pool are started
whenever all are leased and no start runs into its deadline. -/
theorem eviction_exclusive {laneCount : Nat} {s : System} (lanes : 0 < laneCount)
    (run : Relation.ReflTransGen CarefulStep (.fresh laneCount) s) :
    s.Evicting → ¬ s.Invoking := by
  obtain ⟨apart, whole, attended⟩ :
      Apart s.workers s.threads ∧ Whole s.workers s.threads ∧ Attended s := by
    induction run with
    | refl => exact ⟨apart_fresh lanes, nofun, attended_fresh laneCount⟩
    | tail _ step ih =>
      obtain ⟨step, careful⟩ := step
      exact ⟨ih.1.step step, ih.2.1.step ih.1 step careful, ih.2.2.step ih.1 step careful⟩
  rintro evicting ⟨lane, runs⟩
  obtain ⟨-, t, waits⟩ := attended.served lane _ runs
  obtain ⟨u, evicts⟩ : ∃ u, (s.threads u).evicts = true := by
    rcases evicting with ⟨u, lane, rest, at_⟩ | ⟨lane, runs⟩
    · exact ⟨u, by simp [at_]⟩
    · obtain ⟨-, u, waits⟩ := attended.served lane _ runs
      exact ⟨u, by cases th : s.threads u <;> simp_all⟩
  -- The thread of the eviction has all lanes, also that of the invocation.
  have mine := Thread.mem_held (.inr ⟨_, waits⟩)
  have theirs := whole u evicts lane (apart.started lane (.inr ⟨t, mine⟩)).1
  obtain rfl := (apart.apart t lane mine).2 u theirs
  cases th : s.threads t <;> simp_all

/-- A thread neither leases all lanes nor fails to start one. -/
theorem CarefulStep.of_goes {s s' : System} {t : Nat} {th : Thread} (step : s.Step s')
    (goes : s'.threads = Function.update s.threads t th) (evicts : th.evicts = false)
    (fails : ∀ lane, th ≠ .failed lane) : CarefulStep s s' := by
  refine ⟨step, fun u lanes at_ leased => ?_, fun u lane at_ failed => ?_⟩ <;>
    rw [goes, Function.update_apply] at * <;> split at *
  · rw [leased] at evicts
    cases evicts
  · cases at_.symm.trans leased
  · exact absurd failed (fails lane)
  · cases at_.symm.trans failed

/-- Two threads invoke on two lanes; then one of them evicts while the other looks for a lane. -/
theorem eviction_exclusive_pair : ∃ s, Relation.ReflTransGen CarefulStep (.fresh 2) s ∧
    s.threads 0 = .waiting .evictJit 0 [1] ∧ s.threads 1 = .acquiring ∧
    s.guests 0 = .running .evictJit ∧ ¬ s.Invoking := by
  have same {threads : Nat → Thread} (t : Nat) := (Function.update_eq_self t threads).symm
  have run : Relation.ReflTransGen CarefulStep (.fresh 2) _ :=
    .head (.of_goes (.invoke (t := 1) rfl) rfl rfl nofun) <|
    .head (.of_goes (.acquired (t := 1) (.inl rfl) rfl) rfl rfl nofun) <|
    .head (.of_goes (.invoke (t := 0) rfl) rfl rfl nofun) <|
    .head (.of_goes (.unavailable (t := 0) rfl rfl) rfl rfl nofun) <|
    .head (.of_goes (.reserved (t := 0) rfl rfl) rfl rfl nofun) <|
    .head (.of_goes (.spawned (t := 0) rfl fun u => by
      rcases u with _ | _ | _ <;> exact nofun) rfl rfl nofun) <|
    .head (.of_goes (@System.Step.up _ 1 rfl) (same 2) rfl nofun) <|
    .head (.of_goes (.booted (t := 0) rfl rfl) rfl rfl nofun) <|
    .head (.of_goes (.installed (t := 0) rfl rfl) rfl rfl nofun) <|
    .head (.of_goes (.acquired (t := 0) (.inl rfl) rfl) rfl rfl nofun) <|
    .head (.of_goes (.submitted (t := 0) rfl rfl) rfl rfl nofun) <|
    .head (.of_goes (.submitted (t := 1) rfl rfl) rfl rfl nofun) <|
    .head (.of_goes (@System.Step.claim _ 0 .invoke rfl rfl) (same 2) rfl nofun) <|
    .head (.of_goes (@System.Step.claim _ 1 .invoke rfl rfl) (same 2) rfl nofun) <|
    .head (.of_goes (@System.Step.finish _ 1 .invoke rfl) (same 2) rfl nofun) <|
    .head (.of_goes (@System.Step.finish _ 0 .invoke rfl) (same 2) rfl nofun) <|
    .head (.of_goes (.completed (t := 1) rfl rfl) rfl rfl nofun) <|
    .head (.of_goes (.released (t := 1) rfl) rfl rfl nofun) <|
    .head (.of_goes (.returned (t := 1) rfl) rfl rfl nofun) <|
    .head (.of_goes (.completed (t := 0) rfl rfl) rfl rfl nofun) <|
    .head (.of_goes (.released (t := 0) rfl) rfl rfl nofun) <|
    .head (.of_goes (.returned (t := 0) rfl) rfl rfl nofun) <|
    .head (.of_goes (.evict (t := 0) rfl) rfl rfl nofun) <|
    .head ⟨.acquiredAll (t := 0) rfl rfl, fun _ _ _ _ lane valid => by
      obtain rfl | rfl : lane = 0 ∨ lane = 1 := Nat.le_one_iff_eq_zero_or_eq_one.mp
        (Nat.le_of_lt_succ valid) <;> rfl,
      fun u => by rcases u with _ | _ | _ <;> exact nofun⟩ <|
    .head (.of_goes (.invoke (t := 1) rfl) rfl rfl nofun) <|
    .head (.of_goes (.unavailable (t := 1) rfl rfl) rfl rfl nofun) <|
    .head (.of_goes (.unreserved (t := 1) rfl rfl) rfl rfl nofun) <|
    .head ⟨.submitted (t := 0) rfl rfl, fun u => by rcases u with _ | _ | _ <;> exact nofun,
      fun u => by rcases u with _ | _ | _ <;> exact nofun⟩ <|
    .single (.of_goes (@System.Step.claim _ 0 .evictJit rfl rfl) (same 2) rfl nofun)
  exact ⟨_, run, rfl, rfl, rfl, eviction_exclusive (by decide) run (.inr ⟨0, rfl⟩)⟩

/-- In a pool of two lanes, one thread starts the second lane and invokes on it while the worker of
the first lane drops the compiled images for another thread. -/
theorem eviction_shared : ∃ s, Relation.ReflTransGen System.Step (.fresh 2) s ∧
    s.Evicting ∧ s.Invoking := by
  refine ⟨_, .head (.evict (t := 0) rfl) <| .head (.acquiredAll (t := 0) rfl rfl) <|
    .head (.submitted (t := 0) rfl rfl) <| .head (@System.Step.claim _ 0 .evictJit rfl rfl) <|
    .head (.invoke (t := 1) rfl) <| .head (.unavailable (t := 1) rfl rfl) <|
    .head (.reserved (t := 1) rfl rfl) <| .head (.spawned (t := 1) rfl fun u => ?_) <|
    .head (@System.Step.up _ 1 rfl) <| .head (.booted (t := 1) rfl rfl) <|
    .head (.installed (t := 1) rfl rfl) <| .head (.acquired (t := 1) (.inl rfl) rfl) <|
    .head (.submitted (t := 1) rfl rfl) <| .single (@System.Step.claim _ 1 .invoke rfl rfl),
    .inr ⟨0, rfl⟩, 1, rfl⟩
  rcases u with _ | _ | _ <;> exact nofun

end Jar.Sandbox
