import HevTaskSystem.Reactor.Edge
import HevTaskSystem.Scheduler.Pool
import HevTaskSystem.Foundation.Script

/-! Tasks that are inside I/O functions.

An I/O function goes from one action to the next: it makes a non-blocking system call,
registers a descriptor, or yields. The kernel changes the readiness of descriptors at any
time, also between two actions. While no task runs, the scheduler polls the reactor and
wakes the tasks of the events; timers and other tasks may wake a task as well.

Beside the state of a function stand two lists that nothing in the program reads: what it
was told not to be ready or has just registered since it went on, and what it has
registered since then for the task.
-/

set_option autoImplicit false

namespace HevTaskSystem

open Foundation

abbrev Interest := Nat × KqueueFilter

/-- A call of `hev_task_mod_fd` or `hev_task_add_fd` by a task for itself. -/
structure FdRequest where
  modify : Bool
  fd : Nat
  events : PollEvents

def FdRequest.ofTask (request : FdRequest) (task : Addr) : FdCall :=
  if request.modify then .mod task request.fd request.events else .add task request.fd request.events

theorem FdRequest.owner_ofTask (request : FdRequest) (task : Addr) : (request.ofTask task).owner = some task := by
  unfold FdRequest.ofTask
  split <;> rfl

/-- An action of an I/O function, with what it does after it. A system call may be answered as
it `allows`; the answer tells that what it `denies` is not ready. -/
inductive IoAct (σ ρ : Type) : Type 1 where
  | call (α : Type) (allows : α → Prop) (denies : α → List Interest) (next : α → Flow σ ρ) : IoAct σ ρ
  | setup (request : FdRequest) (next : Bool → Flow σ ρ) : IoAct σ ρ
  | yield (type : YieldType) (α : Type) (next : α → Flow σ ρ) : IoAct σ ρ

structure IoMachine where
  State : Type
  Result : Type
  start : State → Prop
  act : State → IoAct State Result

def FdCall.interests (c : FdCall) : List Interest := (Kqueue.filters.filter c.selects).map fun k => (c.fd, k)

theorem FdCall.mem_interests {c : FdCall} {p : Interest} : p ∈ c.interests ↔ p.1 = c.fd ∧ c.selects p.2 = true := by
  obtain ⟨fd, k⟩ := p
  simp only [interests, List.mem_map, List.mem_filter, Prod.mk.injEq]
  constructor
  · rintro ⟨k, ⟨-, selected⟩, rfl, rfl⟩
    exact ⟨rfl, selected⟩
  · rintro ⟨rfl, selected⟩
    exact ⟨k, ⟨Kqueue.mem_filters k, selected⟩, rfl, rfl⟩

def FdCall.watching (c : FdCall) (ok : Bool) (watched : List Interest) : List Interest :=
  watched.filter (fun p => p.1 ≠ c.fd) ++ if ok then c.interests else []

/-! ## What a function waits for -/

/-- An action keeps an account of the two lists. When the function sleeps, it was told that what it
waits for is not ready. -/
def IoAct.Keeps {σ ρ : Type} (ok : σ → List Interest → List Interest → Prop) (needs blocked watched : List Interest) :
    IoAct σ ρ → Prop
  | .call _ allows denies next => ∀ a s, allows a → next a = .next s → ok s (blocked ++ denies a) watched
  | .setup request next => ∀ (t : Addr) (result : Bool) (s : σ), next result = .next s →
      ok s (blocked ++ if result then (request.ofTask t).interests else []) ((request.ofTask t).watching result watched)
  | .yield type _ next => (∀ a s, next a = .next s → ok s [] []) ∧ (type = .waitio → ∀ p ∈ needs, p ∈ blocked)

/-- For one function: what it waits for while it sleeps, and an account that every action keeps. -/
structure IoAccount (m : IoMachine) where
  needs : m.State → List Interest
  ok : m.State → List Interest → List Interest → Prop
  start : ∀ {s}, m.start s → ok s [] []
  keep : ∀ {s blocked watched}, ok s blocked watched → (m.act s).Keeps ok (needs s) blocked watched

/-! ## The system -/

variable {ι : Type}

structure IoFrame (M : ι → IoMachine) where
  index : ι
  state : (M index).State
  blocked : List Interest
  watched : List Interest

def IoFrame.go {M : ι → IoMachine} (frame : IoFrame M) (flow : Flow (M frame.index).State (M frame.index).Result)
    (blocked watched : List Interest) : Option (IoFrame M) :=
  match flow with
  | .next state => some ⟨frame.index, state, blocked, watched⟩
  | .done _ => none

theorem IoFrame.go_eq_some {M : ι → IoMachine} {frame after : IoFrame M}
    {flow : Flow (M frame.index).State (M frame.index).Result} {blocked watched : List Interest}
    (goes : frame.go flow blocked watched = some after) :
    ∃ state, flow = .next state ∧ after = ⟨frame.index, state, blocked, watched⟩ := by
  cases flow with
  | next state => exact ⟨state, rfl, (Option.some.inj goes).symm⟩
  | done result => cases goes

/-- The reactor, the tasks, the task that runs, and the I/O function that each task is in. -/
structure IoTasks (r : EdgeReactor) (M : ι → IoMachine) where
  reactor : r.State
  pool : TaskPool
  current : Option Addr
  frames : Addr → Option (IoFrame M)

inductive IoStep where
  | drift
  | deliver (t : Addr)
  | wake (t : Addr)
  | move
  | pick (t : Addr)
  | resume (t : Addr)
  | register (c : FdCall) (ok : Bool)
  | enter
  | call
  | setup (ok : Bool)
  | yield
  | pause (type : YieldType)
  | exit

variable {r : EdgeReactor} {M : ι → IoMachine}

def TaskPool.yield (pool : TaskPool) (t : Addr) : YieldType → TaskPool
  | .yield => pool
  | .waitio => pool.wait t

namespace IoTasks

def put (s : IoTasks r M) (t : Addr) (frame : Option (IoFrame M)) : IoTasks r M :=
  { s with frames := Function.update s.frames t frame }

theorem put_self {s : IoTasks r M} {t : Addr} {frame : Option (IoFrame M)} : (s.put t frame).frames t = frame :=
  Function.update_self ..

/-- The steps. Outside I/O functions a task registers descriptors as it likes, yields and
exits; tasks that are in no I/O function are created, started and freed. -/
inductive Step (s : IoTasks r M) : IoStep → IoTasks r M → Prop where
  | drift {reactor : r.State} : r.drift s.reactor reactor → Step s .drift { s with reactor := reactor }
  | deliver {t : Addr} {reactor : r.State} {pool : TaskPool} : s.current = none → r.deliver s.reactor t reactor →
      s.pool.wakeup t = some pool → Step s (.deliver t) { s with reactor := reactor, pool := pool }
  | wake {t : Addr} {pool : TaskPool} : s.pool.wakeup t = some pool → Step s (.wake t) { s with pool := pool }
  | new {t : Addr} : s.pool t = none → s.frames t = none →
      Step s .move { s with pool := Function.update s.pool t (some .stopped) }
  | start {t : Addr} : s.pool t = some .stopped → s.frames t = none →
      Step s .move { s with pool := Function.update s.pool t (some .running) }
  | free {t : Addr} : s.pool t = some .stopped → s.frames t = none →
      Step s .move { s with pool := Function.update s.pool t none }
  | pick {t : Addr} : s.current = none → s.pool t = some .running → s.frames t = none →
      Step s (.pick t) { s with current := some t }
  | resume {t : Addr} {frame : IoFrame M} {type : YieldType} {α : Type}
      {next : α → Flow (M frame.index).State (M frame.index).Result} {a : α} :
      s.current = none → s.pool t = some .running → s.frames t = some frame →
      (M frame.index).act frame.state = .yield type α next →
      Step s (.resume t) { s.put t (frame.go (next a) [] []) with current := some t }
  | register {t : Addr} {c : FdCall} {ok : Bool} {reactor : r.State} : s.current = some t → s.frames t = none →
      r.call s.reactor c ok reactor → Step s (.register c ok) { s with reactor := reactor }
  | enter {t : Addr} {i : ι} {state : (M i).State} : s.current = some t → s.frames t = none → (M i).start state →
      Step s .enter (s.put t (some ⟨i, state, [], []⟩))
  | call {t : Addr} {frame : IoFrame M} {α : Type} {allows : α → Prop} {denies : α → List Interest}
      {next : α → Flow (M frame.index).State (M frame.index).Result} {a : α} :
      s.current = some t → s.frames t = some frame →
      (M frame.index).act frame.state = .call α allows denies next → allows a →
      (∀ p ∈ denies a, r.level s.reactor p.1 p.2 = false) →
      Step s .call (s.put t (frame.go (next a) (frame.blocked ++ denies a) frame.watched))
  | setup {t : Addr} {frame : IoFrame M} {request : FdRequest}
      {next : Bool → Flow (M frame.index).State (M frame.index).Result} {ok : Bool} {reactor : r.State} :
      s.current = some t → s.frames t = some frame → (M frame.index).act frame.state = .setup request next →
      r.call s.reactor (request.ofTask t) ok reactor →
      Step s (.setup ok) { s.put t (frame.go (next ok) (frame.blocked ++ if ok then (request.ofTask t).interests else [])
        ((request.ofTask t).watching ok frame.watched)) with reactor := reactor }
  | yield {t : Addr} {frame : IoFrame M} {type : YieldType} {α : Type}
      {next : α → Flow (M frame.index).State (M frame.index).Result} :
      s.current = some t → s.frames t = some frame → (M frame.index).act frame.state = .yield type α next →
      Step s .yield { s with current := none, pool := s.pool.yield t type }
  | pause {t : Addr} {type : YieldType} : s.current = some t → s.frames t = none →
      Step s (.pause type) { s with current := none, pool := s.pool.yield t type }
  | exit {t : Addr} : s.current = some t → s.frames t = none →
      Step s .exit { s with current := none, pool := Function.update s.pool t (some .stopped) }

def Init (s : IoTasks r M) : Prop :=
  r.init s.reactor ∧ (∀ t, s.pool t = none) ∧ s.current = none ∧ ∀ t, s.frames t = none

end IoTasks

def ioSystem (r : EdgeReactor) (M : ι → IoMachine) : System (IoTasks r M) IoStep where
  init := IoTasks.Init
  step := IoTasks.Step

/-! ## The invariant -/

namespace TaskPool

variable {pool next : TaskPool} {t b : Addr}

theorem wakeup_self (woken : pool.wakeup t = some next) : next t = some .running := by
  unfold wakeup at woken
  split at woken
  · rename_i running
    cases woken
    exact running
  · cases woken
    exact Function.update_self ..
  · cases woken

theorem wakeup_or (woken : pool.wakeup t = some next) (b : Addr) : next b = pool b ∨ next b = some .running := by
  by_cases same : b = t
  · exact .inr (same ▸ wakeup_self woken)
  · unfold wakeup at woken
    split at woken
    · cases woken
      exact .inl rfl
    · cases woken
      exact .inl (Function.update_of_ne same ..)
    · cases woken

theorem waiting_of_wakeup (woken : pool.wakeup t = some next) (waiting : next b = some .waiting) :
    pool b = some .waiting := by
  rcases wakeup_or woken b with same | running
  · exact same ▸ waiting
  · cases running.symm.trans waiting

theorem running_wakeup (woken : pool.wakeup t = some next) (running : pool b = some .running) :
    next b = some .running := by
  rcases wakeup_or woken b with same | running
  · exact same.trans running
  · exact running

end TaskPool

theorem IoAccount.keep_act {m : IoMachine} (account : IoAccount m) {s : m.State} {blocked watched : List Interest}
    {act : IoAct m.State m.Result} (ok : account.ok s blocked watched) (acts : m.act s = act) :
    act.Keeps account.ok (account.needs s) blocked watched := acts ▸ account.keep ok

namespace IoTasks

variable {A : ∀ i, IoAccount (M i)} {s next : IoTasks r M}

/-- A task that sleeps in an I/O function, or runs in one, does not miss what it was told not to
be ready. -/
structure Inv (A : ∀ i, IoAccount (M i)) (tasks : IoTasks r M) : Prop where
  ok : ∀ t frame, tasks.frames t = some frame → (A frame.index).ok frame.state frame.blocked frame.watched
  safe : ∀ t frame, tasks.frames t = some frame → tasks.pool t = some .waiting ∨ tasks.current = some t →
    ∀ p ∈ frame.blocked, r.Safe tasks.reactor p.1 p.2 t
  watched : ∀ t frame, tasks.frames t = some frame → tasks.current = some t →
    ∀ p ∈ frame.watched, r.wakes tasks.reactor p.1 p.2 t
  asleep : ∀ t frame, tasks.frames t = some frame → tasks.pool t = some .waiting →
    ∃ α next, (M frame.index).act frame.state = .yield .waitio α next
  current : ∀ t, tasks.current = some t → tasks.pool t = some .running

theorem Init.inv (init : s.Init) : s.Inv A := by
  obtain ⟨-, -, idle, none⟩ := init
  constructor
  · intro t frame here
    cases (none t).symm.trans here
  · intro t frame here
    cases (none t).symm.trans here
  · intro t frame here
    cases (none t).symm.trans here
  · intro t frame here
    cases (none t).symm.trans here
  · intro t here
    cases idle.symm.trans here

/-- Steps that leave the tasks in their functions: a task falls asleep only at the end of its
turn, and what it waits for stays safe until it is woken. -/
theorem Inv.mono (inv : s.Inv A) (frames : next.frames = s.frames)
    (waiting : ∀ t frame, s.frames t = some frame → next.pool t = some .waiting → s.pool t = some .waiting ∨
      s.current = some t ∧ ∃ α next, (M frame.index).act frame.state = .yield .waitio α next)
    (turn : ∀ t frame, s.frames t = some frame → next.current = some t → s.current = some t)
    (safe : ∀ t fd k, next.pool t = some .waiting ∨ next.current = some t → r.Safe s.reactor fd k t →
      r.Safe next.reactor fd k t)
    (wakes : ∀ t frame fd k, s.frames t = some frame → next.current = some t → r.wakes s.reactor fd k t →
      r.wakes next.reactor fd k t)
    (current : ∀ t, next.current = some t → next.pool t = some .running) : next.Inv A := by
  constructor
  · rw [frames]
    exact inv.ok
  · intro t frame here active p member
    rw [frames] at here
    refine safe t p.1 p.2 active (inv.safe t frame here ?_ p member)
    rcases active with asleep | running
    · exact (waiting t frame here asleep).imp_right And.left
    · exact .inr (turn t frame here running)
  · intro t frame here running p member
    rw [frames] at here
    exact wakes t frame p.1 p.2 here running (inv.watched t frame here (turn t frame here running) p member)
  · intro t frame here asleep
    rw [frames] at here
    rcases waiting t frame here asleep with before | ⟨-, yields⟩
    · exact inv.asleep t frame here before
    · exact yields
  · exact current

theorem Inv.put (inv : s.Inv A) {t : Addr} (turn : s.current = none ∨ s.current = some t)
    (running : s.pool t = some .running) {frame : Option (IoFrame M)} {reactor : r.State}
    (keep : ∀ u fd k, r.Safe s.reactor fd k u → r.Safe reactor fd k u)
    (own : ∀ f, frame = some f → (A f.index).ok f.state f.blocked f.watched ∧
      (∀ p ∈ f.blocked, r.Safe reactor p.1 p.2 t) ∧ ∀ p ∈ f.watched, r.wakes reactor p.1 p.2 t) :
    { s.put t frame with current := some t, reactor := reactor }.Inv A := by
  have others {u : Addr} (other : u ≠ t) : (s.put t frame).frames u = s.frames u := Function.update_of_ne other ..
  constructor
  · intro u f found
    by_cases same : u = t
    · subst same
      exact (own f (put_self.symm.trans found)).1
    · exact inv.ok u f ((others same).symm.trans found)
  · intro u f found active p member
    by_cases same : u = t
    · subst same
      exact (own f (put_self.symm.trans found)).2.1 p member
    · refine keep u p.1 p.2 (inv.safe u f ((others same).symm.trans found) (.inl ?_) p member)
      exact active.resolve_right fun now => same (Option.some.inj now).symm
  · intro u f found now p member
    obtain rfl : t = u := Option.some.inj now
    exact (own f (put_self.symm.trans found)).2.2 p member
  · intro u f found asleep
    by_cases same : u = t
    · subst same
      cases running.symm.trans asleep
    · exact inv.asleep u f ((others same).symm.trans found) asleep
  · intro u now
    obtain rfl : t = u := Option.some.inj now
    exact running

theorem Inv.put_current (inv : s.Inv A) {t : Addr} (now : s.current = some t) {frame : Option (IoFrame M)}
    {reactor : r.State} (keep : ∀ u fd k, r.Safe s.reactor fd k u → r.Safe reactor fd k u)
    (own : ∀ f, frame = some f → (A f.index).ok f.state f.blocked f.watched ∧
      (∀ p ∈ f.blocked, r.Safe reactor p.1 p.2 t) ∧ ∀ p ∈ f.watched, r.wakes reactor p.1 p.2 t) :
    { s.put t frame with reactor := reactor }.Inv A := by
  have after := inv.put (.inr now) (inv.current t now) keep own
  rwa [← now] at after

theorem waiting_update {t u : Addr} {state : Option TaskState} (other : state ≠ some .waiting)
    (waiting : Function.update s.pool t state u = some .waiting) : s.pool u = some .waiting := by
  by_cases same : u = t
  · subst same
    rw [Function.update_self] at waiting
    exact absurd waiting other
  · rwa [Function.update_of_ne same] at waiting

theorem Inv.move (inv : s.Inv A) {t : Addr} {state : Option TaskState} (other : state ≠ some .waiting)
    (idle : s.pool t ≠ some .running) : { s with pool := Function.update s.pool t state }.Inv A := by
  refine inv.mono rfl (fun u frame _ waiting => .inl (waiting_update other waiting)) (fun _ _ _ now => now)
    (fun _ _ _ _ safe => safe) (fun _ _ _ _ _ _ wakes => wakes) fun u now => ?_
  have running := inv.current u now
  have apart : u ≠ t := by
    rintro rfl
    exact idle running
  exact (Function.update_of_ne apart ..).trans running

theorem Inv.leave (inv : s.Inv A) {t : Addr} (free : s.frames t = none) {pool : TaskPool}
    (others : ∀ u, u ≠ t → pool u = s.pool u) : { s with current := none, pool := pool }.Inv A := by
  refine inv.mono rfl (fun u frame here waiting => .inl ?_) (fun _ _ _ now => by cases now)
    (fun _ _ _ _ safe => safe) (fun _ _ _ _ _ now => by cases now) (fun _ now => by cases now)
  have apart : u ≠ t := by
    rintro rfl
    cases free.symm.trans here
  exact (others u apart).symm.trans waiting

theorem Inv.yield (inv : s.Inv A) {t : Addr} {frame : IoFrame M} {type : YieldType} {α : Type}
    {following : α → Flow (M frame.index).State (M frame.index).Result} (now : s.current = some t)
    (here : s.frames t = some frame) (acts : (M frame.index).act frame.state = .yield type α following) :
    { s with current := none, pool := s.pool.yield t type }.Inv A := by
  refine inv.mono rfl (fun u f there waiting => ?_) (fun _ _ _ now => by cases now)
    (fun _ _ _ _ safe => safe) (fun _ _ _ _ _ now => by cases now) (fun _ now => by cases now)
  cases type with
  | yield => exact .inl waiting
  | waitio =>
    by_cases same : u = t
    · subst same
      cases here.symm.trans there
      exact .inr ⟨now, _, _, acts⟩
    · exact .inl ((Function.update_of_ne same ..).symm.trans waiting)

theorem Inv.resume (inv : s.Inv A) {t : Addr} {frame : IoFrame M} {type : YieldType} {α : Type}
    {following : α → Flow (M frame.index).State (M frame.index).Result} {a : α} (idle : s.current = none)
    (running : s.pool t = some .running) (here : s.frames t = some frame)
    (acts : (M frame.index).act frame.state = .yield type α following) :
    { s.put t (frame.go (following a) [] []) with current := some t }.Inv A := by
  refine inv.put (.inl idle) running (fun _ _ _ safe => safe) fun f goes => ?_
  obtain ⟨state, flow, rfl⟩ := IoFrame.go_eq_some goes
  refine ⟨((A frame.index).keep_act (inv.ok t frame here) acts).1 a state flow, ?_, ?_⟩
  · exact fun p member => absurd member List.not_mem_nil
  · exact fun p member => absurd member List.not_mem_nil

theorem Inv.call (inv : s.Inv A) {t : Addr} {frame : IoFrame M} {α : Type} {allows : α → Prop}
    {denies : α → List Interest} {following : α → Flow (M frame.index).State (M frame.index).Result} {a : α}
    (now : s.current = some t) (here : s.frames t = some frame)
    (acts : (M frame.index).act frame.state = .call α allows denies following) (allowed : allows a)
    (low : ∀ p ∈ denies a, r.level s.reactor p.1 p.2 = false) :
    (s.put t (frame.go (following a) (frame.blocked ++ denies a) frame.watched)).Inv A := by
  refine inv.put_current now (fun _ _ _ safe => safe) fun f goes => ?_
  obtain ⟨state, flow, rfl⟩ := IoFrame.go_eq_some goes
  refine ⟨(A frame.index).keep_act (inv.ok t frame here) acts a state allowed flow, fun p member => ?_,
    inv.watched t frame here now⟩
  rcases List.mem_append.mp member with before | denied
  · exact inv.safe t frame here (.inr now) p before
  · exact EdgeReactor.safe_of_low (low p denied) t

theorem Inv.setup (inv : s.Inv A) (lawful : r.Lawful) {t : Addr} {frame : IoFrame M} {request : FdRequest}
    {following : Bool → Flow (M frame.index).State (M frame.index).Result} {ok : Bool} {reactor : r.State}
    (now : s.current = some t) (here : s.frames t = some frame)
    (acts : (M frame.index).act frame.state = .setup request following)
    (called : r.call s.reactor (request.ofTask t) ok reactor) :
    { s.put t (frame.go (following ok) (frame.blocked ++ if ok then (request.ofTask t).interests else [])
      ((request.ofTask t).watching ok frame.watched)) with reactor := reactor }.Inv A := by
  -- What a call that succeeded asks for is registered and safe.
  have asked (p : Interest) (member : p ∈ if ok then (request.ofTask t).interests else []) :
      r.wakes reactor p.1 p.2 t ∧ r.Safe reactor p.1 p.2 t := by
    cases ok with
    | false => exact absurd member List.not_mem_nil
    | true =>
      obtain ⟨fd, selected⟩ := FdCall.mem_interests.mp member
      rw [fd]
      exact lawful.watched called (request.owner_ofTask t) selected
  refine inv.put_current now (fun _ _ _ safe => lawful.call called safe) fun f goes => ?_
  obtain ⟨state, flow, rfl⟩ := IoFrame.go_eq_some goes
  refine ⟨(A frame.index).keep_act (inv.ok t frame here) acts t ok state flow, fun p member => ?_, fun p member => ?_⟩
  · rcases List.mem_append.mp member with before | new
    · exact lawful.call called (inv.safe t frame here (.inr now) p before)
    · exact (asked p new).2
  · rcases List.mem_append.mp member with before | new
    · obtain ⟨old, other⟩ := List.mem_filter.mp before
      exact (lawful.call_wakes called (by simpa using other)).mpr (inv.watched t frame here now p old)
    · exact (asked p new).1

theorem Inv.step (inv : s.Inv A) (lawful : r.Lawful) {label : IoStep} (step : s.Step label next) : next.Inv A := by
  cases step with
  | drift drift =>
    exact inv.mono rfl (fun _ _ _ waiting => .inl waiting) (fun _ _ _ now => now)
      (fun _ _ _ _ safe => lawful.drift drift safe) (fun _ _ _ _ _ _ wakes => (lawful.drift_wakes drift).mpr wakes)
      inv.current
  | @deliver t _ _ idle delivered woken =>
    refine inv.mono rfl (fun _ _ _ waiting => .inl (TaskPool.waiting_of_wakeup woken waiting)) (fun _ _ _ now => now)
      (fun u _ _ active safe => lawful.deliver delivered ?_ safe) (fun _ _ _ _ _ now => ?_) (fun _ now => ?_)
    · -- The task that is woken does not sleep any more.
      rintro rfl
      rcases active with waiting | now
      · cases (TaskPool.wakeup_self woken).symm.trans waiting
      · cases idle.symm.trans now
    · cases idle.symm.trans now
    · cases idle.symm.trans now
  | wake woken =>
    exact inv.mono rfl (fun _ _ _ waiting => .inl (TaskPool.waiting_of_wakeup woken waiting)) (fun _ _ _ now => now)
      (fun _ _ _ _ safe => safe) (fun _ _ _ _ _ _ wakes => wakes)
      fun t now => TaskPool.running_wakeup woken (inv.current t now)
  | new absent => exact inv.move (by simp) (by simp [absent])
  | start stopped | free stopped => exact inv.move (by simp) (by simp [stopped])
  | @pick t idle running free =>
    refine inv.mono rfl (fun _ _ _ waiting => .inl waiting) (fun u _ here now => ?_) (fun _ _ _ _ safe => safe)
      (fun _ _ _ _ _ _ wakes => wakes) fun u now => ?_
    · obtain rfl : t = u := Option.some.inj now
      cases free.symm.trans here
    · obtain rfl : t = u := Option.some.inj now
      exact running
  | resume idle running here acts => exact inv.resume idle running here acts
  | @register t _ _ _ now free called =>
    refine inv.mono rfl (fun _ _ _ waiting => .inl waiting) (fun _ _ _ now => now)
      (fun _ _ _ _ safe => lawful.call called safe) (fun u _ _ _ here now' => ?_) inv.current
    obtain rfl : t = u := Option.some.inj (now.symm.trans now')
    cases free.symm.trans here
  | @enter t i state now _ starts =>
    refine inv.put_current now (fun _ _ _ safe => safe) fun f same => ?_
    obtain rfl := Option.some.inj same
    refine ⟨(A i).start starts, ?_, ?_⟩
    · exact fun p member => absurd member List.not_mem_nil
    · exact fun p member => absurd member List.not_mem_nil
  | call now here acts allowed low => exact inv.call now here acts allowed low
  | setup now here acts called => exact inv.setup lawful now here acts called
  | yield now here acts => exact inv.yield now here acts
  | @pause t type now free =>
    refine inv.leave free fun u other => ?_
    cases type with
    | yield => rfl
    | waitio => exact Function.update_of_ne other ..
  | exit now free => exact inv.leave free fun u other => Function.update_of_ne other ..

end IoTasks

theorem ioSystem_inv {A : ∀ i, IoAccount (M i)} (lawful : r.Lawful) {labels : List IoStep} {s : IoTasks r M}
    (run : (ioSystem r M).Run labels s) : s.Inv A :=
  run.invariant (IoTasks.Inv A) (fun _ init => IoTasks.Init.inv init) fun _ _ _ inv step => inv.step lawful step

/-- A task asleep in an I/O function does not miss what it waits for: if the descriptor wakes the
task and is ready, the event is queued. -/
theorem IoTasks.asleep_safe {A : ∀ i, IoAccount (M i)} {s : IoTasks r M} (inv : s.Inv A) {t : Addr} {frame : IoFrame M}
    (here : s.frames t = some frame) (waiting : s.pool t = some .waiting) :
    ∀ p ∈ (A frame.index).needs frame.state, r.Safe s.reactor p.1 p.2 t := by
  intro p member
  obtain ⟨α, following, acts⟩ := inv.asleep t frame here waiting
  exact inv.safe t frame here (.inl waiting) p (((A frame.index).keep_act (inv.ok t frame here) acts).2 rfl p member)

end HevTaskSystem
