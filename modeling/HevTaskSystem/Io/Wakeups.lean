import HevTaskSystem.Io.Calls

/-! Tasks asleep in I/O functions are woken.

Both reactors report a descriptor once when it becomes ready. A task that sleeps in an I/O
function would not be woken by a descriptor that was ready before, so everything rests on
what the function was told before it slept. This is stated for all functions together, in
any interleaving of tasks, kernel and polls.
-/

set_option autoImplicit false

namespace HevTaskSystem

open Foundation

def IoFunction.account : (f : IoFunction) → IoAccount f.machine
  | .read .. => .retry
  | .readv .. => .retry
  | .write .. => .retry
  | .writev .. => .retry
  | .accept .. => .retry
  | .connect .. => .retry
  | .recv .. => .retry
  | .send .. => .retry
  | .recvfrom .. => .retry
  | .sendto .. => .retry
  | .recvmsg .. => .retry
  | .sendmsg .. => .retry
  | .recvmmsg .. => .retry
  | .sendmmsg .. => .retry
  | .poll .. => .poll
  | .splice .. => .splice

/-- What a function waits for at its yield: the descriptor of a call that is to be repeated, the
entries of a poll, and for each direction of a splice its source or its sink. -/
def IoFunction.needs (f : IoFunction) : f.machine.State → List Interest := f.account.needs

abbrev HevTasks (build : EdgeBuild) := IoTasks build.reactor IoFunction.machine

theorem hevTasks_inv {build : EdgeBuild} {labels : List IoStep} {s : HevTasks build}
    (run : (ioSystem build.reactor IoFunction.machine).Run labels s) : s.Inv IoFunction.account :=
  ioSystem_inv build.lawful run

theorem IoTasks.deliverable {r : EdgeReactor} (lawful : r.Lawful) {M : IoFunction → IoMachine} {s : IoTasks r M}
    {t : Addr} (idle : s.current = none) (waiting : s.pool t = some .waiting) {fd : Nat} {k : KqueueFilter}
    (watched : r.wakes s.reactor fd k t) (queued : r.queued s.reactor fd k) :
    ∃ next, s.Step (.deliver t) next ∧ next.pool t = some .running := by
  obtain ⟨reactor, delivered⟩ := lawful.delivers watched queued
  have woken := TaskPool.wakeup_eq (.inr waiting)
  exact ⟨_, .deliver idle delivered woken, Function.update_self ..⟩

/-- If a task sleeps in an I/O function and one of the descriptors that it waits for is
registered for it and ready, an event of the descriptor is queued; the next poll that
delivers it makes the task run. -/
theorem io_sleeper_is_announced (build : EdgeBuild) {labels : List IoStep} {s : HevTasks build}
    (run : (ioSystem build.reactor IoFunction.machine).Run labels s) {t : Addr} {frame : IoFrame IoFunction.machine}
    (here : s.frames t = some frame) (waiting : s.pool t = some .waiting) {fd : Nat} {k : KqueueFilter}
    (needed : (fd, k) ∈ frame.index.needs frame.state) (watched : build.reactor.wakes s.reactor fd k t)
    (ready : build.reactor.level s.reactor fd k = true) :
    build.reactor.queued s.reactor fd k ∧
      (s.current = none → ∃ next, s.Step (.deliver t) next ∧ next.pool t = some .running) := by
  have queued := IoTasks.asleep_safe (hevTasks_inv run) here waiting (fd, k) needed watched ready
  exact ⟨queued, fun idle => IoTasks.deliverable build.lawful idle waiting watched queued⟩

def EpollQueue.blank (ready : List Nat) : EpollQueue :=
  ⟨fun fd k => k = .read ∧ fd ∈ ready, fun _ => none, fun _ => false⟩

theorem hevTasks_task (ready : List Nat) (t : Addr) : ∃ labels pool frames,
    (ioSystem EdgeBuild.epoll.reactor IoFunction.machine).Run labels ⟨EpollQueue.blank ready, pool, some t, frames⟩ ∧
      pool t = some .running ∧ frames t = none := by
  let start : HevTasks .epoll := ⟨EpollQueue.blank ready, fun _ => none, none, fun _ => none⟩
  have init : (ioSystem EdgeBuild.epoll.reactor IoFunction.machine).Run [] start :=
    .init ⟨⟨fun _ => rfl, fun _ => rfl⟩, fun _ => rfl, rfl, fun _ => rfl⟩
  have new := init.step (.new (t := t) rfl rfl)
  have started := new.step (.start (t := t) (Function.update_self ..) rfl)
  have picked := started.step (.pick (t := t) rfl (Function.update_self ..) rfl)
  exact ⟨_, _, _, picked, Function.update_self .., rfl⟩

/-- A task reads from a descriptor that becomes ready after the task was told that it is not,
and before it sleeps. -/
theorem io_sleeper_is_announced_read : ∃ labels, ∃ s : HevTasks .epoll,
    (ioSystem EdgeBuild.epoll.reactor IoFunction.machine).Run labels s ∧ s.pool 100 = some .waiting ∧
      ∃ next, s.Step (.deliver 100) next ∧ next.pool 100 = some .running := by
  obtain ⟨labels, pool, frames, run, running, free⟩ := hevTasks_task [] 100
  let record : EpollEvent := ⟨⟨true, false, false⟩, 100⟩
  let watching : EpollQueue := (EpollQueue.blank []).watch EpollEvent.selects 3 record
  let frame (pc : RetryPc Unit IoAnswer) (blocked : List Interest) : IoFrame IoFunction.machine :=
    ⟨.read 3 false, pc, blocked, []⟩
  let calling : HevTasks .epoll := IoTasks.put ⟨watching, pool, some 100, frames⟩ 100 (some (frame (.calling ()) []))
  let yielding : HevTasks .epoll := calling.put 100 (some (frame (.yielding () (.again false)) [(3, .read)]))
  have added := run.step (show IoTasks.Step _ (.register (.add 100 3 ⟨true, false, false⟩) true)
    ⟨watching, pool, some 100, frames⟩ from .register rfl free ⟨true, rfl⟩)
  have entered := added.step (show IoTasks.Step _ .enter calling from .enter rfl free rfl)
  have low : ∀ p ∈ Repeats.denies 3 .read (IoAnswer.again false), watching.level p.1 p.2 = false := by
    intro p member
    rw [List.mem_singleton.mp member]
    rfl
  have called : calling.Step .call yielding := @IoTasks.Step.call _ _ _ calling 100 (frame (.calling ()) []) IoAnswer
    (fun _ => True) (Repeats.denies 3 .read) (RetryPc.called true (Io.retry false) ()) (.again false) rfl IoTasks.put_self
    rfl trivial low
  -- The descriptor becomes ready between the system call and the yield.
  let risen : EpollQueue := ⟨fun _ _ => true, watching.records, fun _ => true⟩
  have drift : watching.Drift EpollEvent.selects risen := .change (fun _ _ => rfl) fun _ _ _ _ _ _ _ => rfl
  let ready : HevTasks .epoll := { yielding with reactor := risen }
  have here : yielding.frames 100 = some (frame (.yielding () (.again false)) [(3, .read)]) := IoTasks.put_self
  have yields : ready.Step .yield { ready with current := none, pool := pool.wait 100 } := @IoTasks.Step.yield _ _ _
    ready 100 (frame (.yielding () (.again false)) [(3, .read)]) .waitio Bool
    (RetryPc.resumed (Io.retry false) () (.again false)) rfl here rfl
  have slept := ((entered.step called).step (.drift drift)).step yields
  have waiting : pool.wait 100 100 = some .waiting := Function.update_self ..
  have needed : ((3, .read) : Interest) ∈ [(3, .read)] := List.mem_singleton_self _
  obtain ⟨-, woken⟩ := @io_sleeper_is_announced .epoll _ _ slept 100 (frame (.yielding () (.again false)) [(3, .read)])
    here waiting 3 .read needed ⟨record, rfl, rfl, rfl⟩ rfl
  exact ⟨_, _, slept, waiting, woken rfl⟩

/-- When `hev_task_io_poll` goes to sleep without having looked at its entries, each entry that it
could register wakes the task, and if it was ready already, its event is queued. No
descriptor may stand in two entries. -/
theorem io_poll_registers (build : EdgeBuild) {labels : List IoStep} {s : HevTasks build}
    (run : (ioSystem build.reactor IoFunction.machine).Run labels s) {t : Addr} {fds : List PollFd} {timeout : Int}
    {left : Option Nat} {registered : List PollFd} {blocked watched : List Interest} (now : s.current = some t)
    (here : s.frames t = some ⟨.poll fds timeout, .sleep left registered false, blocked, watched⟩)
    (distinct : (fds.map PollFd.fd).Nodup) (e : PollFd) (member : e ∈ registered) (k : KqueueFilter)
    (selected : e.events.selects k = true) :
    e ∈ fds ∧ build.reactor.wakes s.reactor e.fd k t ∧
      (build.reactor.level s.reactor e.fd k = true → build.reactor.queued s.reactor e.fd k) := by
  have inv := hevTasks_inv run
  obtain ⟨⟨done, split, inside⟩, announced, watches⟩ := inv.ok t _ here
  have asked : (e.fd, k) ∈ e.interests :=
    List.mem_map.mpr ⟨k, List.mem_filter.mpr ⟨Kqueue.mem_filters k, selected⟩, rfl⟩
  have wakes := inv.watched t _ here now (e.fd, k) (watches distinct e member _ asked)
  refine ⟨?_, wakes, fun ready => ?_⟩
  · rw [split, List.append_nil]
    exact inside e member
  · exact inv.safe t _ here (.inr now) (e.fd, k) (announced e member _ asked) wakes ready

/-- A poll of a descriptor that was ready all along. -/
theorem io_poll_registers_ready : ∃ labels, ∃ s : HevTasks .epoll,
    (ioSystem EdgeBuild.epoll.reactor IoFunction.machine).Run labels s ∧ s.current = some 100 ∧
      epollEdge.wakes s.reactor 3 .read 100 ∧ epollEdge.queued s.reactor 3 .read := by
  obtain ⟨labels, pool, frames, run, running, free⟩ := hevTasks_task [3] 100
  let entry : PollFd := ⟨3, ⟨true, false, false⟩⟩
  let blank : EpollQueue := EpollQueue.blank [3]
  let frame (pc : PollPc) (listed : List Interest) : IoFrame IoFunction.machine := ⟨.poll [entry] (-1), pc, listed, listed⟩
  let first : HevTasks .epoll := IoTasks.put ⟨blank, pool, some 100, frames⟩ 100 (some (frame (.modify entry [] []) []))
  have entered := run.step (show IoTasks.Step _ .enter first from .enter rfl free rfl)
  let second : HevTasks .epoll := first.put 100 (some (frame (.insert entry [] []) []))
  have modified : first.Step (.setup false) second := @IoTasks.Step.setup _ _ _ first 100
    (frame (.modify entry [] []) []) ⟨true, 3, ⟨true, false, false⟩⟩
    (fun ok => .next (.modified (-1) entry [] [] ok)) false blank rfl IoTasks.put_self rfl ⟨true, rfl⟩
  let third : HevTasks .epoll := { second.put 100 (some (frame (.sleep none [entry] false) [(3, .read)])) with
    reactor := blank.watch EpollEvent.selects 3 ⟨⟨true, false, false⟩, 100⟩ }
  have inserted : second.Step (.setup true) third := @IoTasks.Step.setup _ _ _ second 100
    (frame (.insert entry [] []) []) ⟨false, 3, ⟨true, false, false⟩⟩
    (fun ok => .next (.inserted (-1) entry [] [] ok)) true _ rfl IoTasks.put_self rfl ⟨true, rfl⟩
  have here : third.frames 100 = some (frame (.sleep none [entry] false) [(3, .read)]) :=
    (IoTasks.put_self : (second.put 100 (some (frame (.sleep none [entry] false) [(3, .read)]))).frames 100 = _)
  have done := (entered.step modified).step inserted
  obtain ⟨-, wakes, queued⟩ := @io_poll_registers .epoll _ third done 100 [entry] (-1) none [entry] _ _ rfl here
    (List.nodup_singleton 3) entry (List.mem_singleton_self entry) .read rfl
  exact ⟨_, _, done, rfl, wakes, queued rfl⟩

end HevTaskSystem
