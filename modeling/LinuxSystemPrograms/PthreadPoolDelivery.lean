import LinuxSystemPrograms.PthreadPoolCustody

/-!
# Every connection of the thread pool is served once

The ring is `Formed`, and its contents followed by the acceptor's descriptor are upstream
of the workers in the sense of `Custody`. One lemma for each label shows that both stay
so; where a connection is held is read off them.
-/

namespace LinuxSystemPrograms.PthreadPoolDelivery

open LinuxSystemPrograms.PthreadPool
open LinuxSystemPrograms.PthreadPoolCustody
open LinuxSystemPrograms.RingBuffer
open LinuxSystemPrograms.Sockets
open LinuxSystemPrograms.Transition

set_option autoImplicit false

variable {threads : Nat}

def upstream (pool : Pool threads) : List Fd :=
  pool.queue.contents ++ pool.acceptor.held.toList

def serving (pool : Pool threads) (index : Fin threads) : Option Fd := (pool.worker index).serves

structure Sound (pool : Pool threads) : Prop where
  queue : pool.queue.Formed
  custody : Custody pool.kernel pool.handed (upstream pool) (serving pool)

theorem boot_sound (serverFd : Fd) (cells : Fin maxTask → Fd) :
    Sound (Pool.boot threads serverFd cells) where
  queue := Ring.formed_of_empty _ rfl rfl
  custody :=
    { formed := Kernel.boot_well_formed serverFd
      order := by
        have empty : (queueInit cells).contents = [] := Ring.contents_of_empty _ rfl
        simp only [Pool.boot, upstream, empty, AcceptorState.held]
        rfl
      served := by
        intro holder fd serves
        cases serves
      single := by
        intro holder other fd serves
        cases serves
      kept := by
        intro fd id _ inHanded
        cases inHanded }

theorem serving_set_worker (pool : Pool threads) (index : Fin threads) (state : WorkerState) :
    serving (pool.setWorker index state) =
      Function.update (serving pool) index state.serves := by
  funext other
  by_cases same : other = index
  · subst same
    simp [serving, Pool.setWorker]
  · simp [serving, Pool.setWorker, same]

theorem serving_set_worker_same {pool : Pool threads} {index : Fin threads} {state : WorkerState}
    (same : state.serves = (pool.worker index).serves) :
    serving (pool.setWorker index state) = serving pool := by
  rw [serving_set_worker, same]
  exact Function.update_eq_self index (serving pool)

/-- A worker moves on without taking or leaving a connection. -/
theorem set_worker_sound {pool : Pool threads} (sound : Sound pool) {index : Fin threads}
    {state : WorkerState} (same : state.serves = (pool.worker index).serves) :
    Sound (pool.setWorker index state) where
  queue := sound.queue
  custody := by
    rw [serving_set_worker_same same]
    exact sound.custody

theorem wake_serves (state : WorkerState) : state.wake.serves = state.serves := by
  cases state <;> rfl

theorem wake_held (state : AcceptorState) : state.wake.held = state.held := by
  cases state <;> rfl

/-- The acceptor moves on with the same descriptor in its hands. -/
theorem set_acceptor_sound {pool : Pool threads} (sound : Sound pool) {state : AcceptorState}
    (same : state.held = pool.acceptor.held) : Sound { pool with acceptor := state } where
  queue := sound.queue
  custody := by
    have unchanged : upstream { pool with acceptor := state } = upstream pool := by
      rw [upstream, same, upstream]
    rw [unchanged]
    exact sound.custody

theorem accept_sound {pool : Pool threads} (sound : Sound pool) {clientFd : Fd}
    (valid : 0 ≤ clientFd) (unused : pool.kernel.file clientFd = .closed)
    (free : pool.acceptor.held = none) : Sound (pool.accept clientFd) where
  queue := sound.queue
  custody := by
    have accepted := sound.custody.accept valid unused
    have same : upstream (pool.accept clientFd) = upstream pool ++ [clientFd] := by
      rw [upstream, upstream, free]
      simp [Pool.accept, AcceptorState.held]
    rw [same]
    exact accepted

theorem enqueue_sound {pool : Pool threads} (sound : Sound pool) {clientFd : Fd}
    (held : pool.acceptor.held = some clientFd) (signalled : Option (Fin threads)) :
    Sound (pool.enqueue clientFd signalled) := by
  unfold Pool.enqueue
  split_ifs with full
  · exact set_acceptor_sound sound held.symm
  · have room : pool.queue.count < maxTask := by
      have bounded := sound.queue.bounded
      omega
    have queued : Sound
        { pool with queue := pool.queue.push clientFd, acceptor := .accepting } :=
      { queue := Ring.push_formed sound.queue clientFd room
        custody := by
          have same : upstream
              { pool with queue := pool.queue.push clientFd, acceptor := .accepting } =
                upstream pool := by
            rw [upstream, upstream, held, Ring.push_contents sound.queue clientFd room]
            exact List.append_nil _
          rw [same]
          exact sound.custody }
    cases signalled with
    | none => exact queued
    | some index => exact set_worker_sound queued (wake_serves _)

theorem dequeue_sound {pool : Pool threads} (sound : Sound pool) {index : Fin threads}
    (free : (pool.worker index).serves = none) (message : List.Vector Byte messageSize) :
    Sound (pool.dequeue index message) := by
  unfold Pool.dequeue
  split_ifs with empty
  · exact set_worker_sound sound free.symm
  · have some : 0 < pool.queue.count := by
      have nonneg := sound.queue.nonneg
      omega
    have custody := sound.custody
    rw [upstream, Ring.pop_contents some, List.cons_append] at custody
    have taken := custody.hand free
    have served : Sound
        { pool.setWorker index (.serving pool.queue.pop.1 (Session.start message)) with
          queue := pool.queue.pop.2
          handed := pool.handed ++ [pool.kernel.file pool.queue.pop.1] } :=
      { queue := Ring.pop_formed sound.queue some
        custody := by
          have serves := serving_set_worker pool index
            (.serving pool.queue.pop.1 (Session.start message))
          exact serves ▸ taken }
    exact set_acceptor_sound served (wake_held _)

theorem on_send_no_close (session : Session) (msgLen n : Nat) (result : SendResult) :
    ConnEvent.close ∉ (session.onSend msgLen n result).2 := by
  unfold Session.onSend
  split
  · split_ifs
    · simp
    · simp
  · simp

/-- `handle_client` closes its descriptor when it returns, and only then. -/
theorem step_cases (session : Session) (ready : RecvResult) (room : SendResult) :
    session.step ready room = (none, [.close]) ∨
      ∃ after events, session.step ready room = (some after, events) ∧
        ConnEvent.close ∉ events := by
  unfold Session.step
  split
  · exact Or.inr ⟨_, _, rfl, by simp⟩
  · rename_i msgLen n position
    let offered := (session.part.take msgLen).drop n
    let result := send offered.length room
    refine Or.inr ⟨(session.onSend msgLen n result).1,
      .send offered result :: (session.onSend msgLen n result).2, rfl, ?_⟩
    have silent := on_send_no_close session msgLen n result
    simpa using silent
  · exact Or.inl rfl

theorem handle_sound {pool : Pool threads} (sound : Sound pool) {index : Fin threads}
    {clientFd : Fd} {session : Session} (serves : pool.worker index = .serving clientFd session)
    (ready : RecvResult) (room : SendResult) :
    Sound (pool.handle index clientFd session ready room) := by
  have holds : serving pool index = some clientFd := by rw [serving, serves]; rfl
  unfold Pool.handle
  rcases step_cases session ready room with returns | ⟨after, events, goesOn, noClose⟩
  · rw [returns]
    exact
      { queue := sound.queue
        custody := by
          have serves := serving_set_worker pool index .idle
          exact serves ▸ sound.custody.close holds }
  · rw [goesOn]
    exact
      { queue := sound.queue
        custody := by
          have same : (WorkerState.serving clientFd after).serves = (pool.worker index).serves := by
            rw [serves]
            rfl
          exact serving_set_worker_same same ▸ sound.custody.exchange holds noClose }

theorem step_sound {pool after : Pool threads} (sound : Sound pool) (taken : Taken pool after) :
    Sound after := by
  cases taken with
  | accepted clientFd free valid unused =>
      exact accept_sound sound valid unused (by rw [free]; rfl)
  | refused => exact sound
  | enqueued clientFd signalled held honest =>
      apply enqueue_sound sound
      rcases held with holding | woken
      · rw [holding]
        rfl
      · rw [woken]
        rfl
  | dequeued index message ready =>
      apply dequeue_sound sound
      rcases ready with idle | woken
      · rw [idle]
        rfl
      · rw [woken]
        rfl
  | handled index clientFd session ready room serves =>
      exact handle_sound sound serves ready room
  | workerWoken index blocked => exact set_worker_sound sound (by rw [blocked]; rfl)
  | acceptorWoken clientFd blocked => exact set_acceptor_sound sound (by rw [blocked]; rfl)

theorem reachable_sound {pool : Pool threads} (reached : Reachable (system threads) pool) :
    Sound pool := by
  apply reachable_invariant _ _ reached
  · rintro pool ⟨serverFd, cells, rfl⟩
    exact boot_sound serverFd cells
  · intro pool label after _ sound step
    exact step_sound sound (taken_of_step step)

theorem upstream_nodup {pool : Pool threads} (sound : Sound pool) : (upstream pool).Nodup :=
  (List.Nodup.of_append_right sound.custody.nodup).of_map _

theorem mem_contents_of_cell {pool : Pool threads} {fd : Fd} {index : Fin maxTask}
    (holds : Holds pool fd (.cell index)) : fd ∈ pool.queue.contents :=
  Ring.mem_contents.mpr ⟨index, holds⟩

theorem mem_held_of_acceptor {pool : Pool threads} {fd : Fd}
    (holds : Holds pool fd .acceptor) : fd ∈ pool.acceptor.held.toList :=
  Option.mem_toList.mpr holds

/-- The queue and the acceptor never have the same descriptor. -/
theorem queue_not_acceptor {pool : Pool threads} (sound : Sound pool) {fd : Fd}
    (queued : fd ∈ pool.queue.contents) (held : fd ∈ pool.acceptor.held.toList) : False :=
  List.disjoint_of_nodup_append (upstream_nodup sound) queued held

theorem served_nowhere_else {pool : Pool threads} (sound : Sound pool) {fd : Fd}
    {index : Fin threads} (serves : serving pool index = some fd) {place : Place threads}
    (holds : Holds pool fd place) : place = .worker index := by
  have notUpstream := sound.custody.served_not_upstream serves
  cases place with
  | cell cellIndex =>
      exact absurd (List.mem_append_left _ (mem_contents_of_cell holds)) notUpstream
  | worker other => rw [sound.custody.single other index fd holds serves]
  | acceptor => exact absurd (List.mem_append_right _ (mem_held_of_acceptor holds)) notUpstream

theorem queued_nowhere_else {pool : Pool threads} (sound : Sound pool) {fd : Fd}
    {index : Fin maxTask} (queued : Holds pool fd (.cell index)) {place : Place threads}
    (holds : Holds pool fd place) : place = .cell index := by
  have member := mem_contents_of_cell queued
  cases place with
  | cell other =>
      have distinct : pool.queue.contents.Nodup :=
        List.Nodup.of_append_left (upstream_nodup sound)
      rw [Ring.occupied_unique distinct holds.1 queued.1 (holds.2.trans queued.2.symm)]
  | worker other =>
      exact absurd (List.mem_append_left _ member) (sound.custody.served_not_upstream holds)
  | acceptor => exact absurd (mem_held_of_acceptor holds) (queue_not_acceptor sound member)

theorem held_nowhere_else {pool : Pool threads} (sound : Sound pool) {fd : Fd}
    (held : Holds pool fd .acceptor) {place : Place threads} (holds : Holds pool fd place) :
    place = .acceptor := by
  have member := mem_held_of_acceptor held
  cases place with
  | cell index =>
      exact (queue_not_acceptor sound (mem_contents_of_cell holds) member).elim
  | worker index =>
      exact absurd (List.mem_append_right _ member) (sound.custody.served_not_upstream holds)
  | acceptor => rfl

theorem unique_place {pool : Pool threads} (sound : Sound pool) {fd : Fd} {id : Nat}
    (owner : pool.kernel.file fd = .conn id) : ∃! place, Holds pool fd place := by
  have bound := (sound.custody.formed.owner fd id owner).2
  have known : File.conn id ∈ pool.handed ++ (upstream pool).map pool.kernel.file := by
    rw [sound.custody.order]
    exact List.mem_map_of_mem (List.mem_range.mpr bound)
  rcases List.mem_append.mp known with handed | waiting
  · obtain ⟨index, serves⟩ := sound.custody.kept fd id owner handed
    exact ⟨.worker index, serves, fun place holds => served_nowhere_else sound serves holds⟩
  · obtain ⟨other, member, otherOwner⟩ := List.mem_map.mp waiting
    have same : other = fd := sound.custody.formed.single other fd id otherOwner owner
    rw [same] at member
    rcases List.mem_append.mp member with queued | held
    · obtain ⟨index, holds⟩ := Ring.mem_contents.mp queued
      exact ⟨.cell index, holds, fun place other => queued_nowhere_else sound holds other⟩
    · have holds : Holds pool fd .acceptor := Option.mem_toList.mp held
      exact ⟨.acceptor, holds, fun place other => held_nowhere_else sound holds other⟩

theorem holds_open {pool : Pool threads} (sound : Sound pool) {fd : Fd} {place : Place threads}
    (holds : Holds pool fd place) : ∃ id, pool.kernel.file fd = .conn id := by
  cases place with
  | cell index =>
      exact sound.custody.upstream_open (List.mem_append_left _ (mem_contents_of_cell holds))
  | worker index =>
      obtain ⟨id, owner, _⟩ := sound.custody.served index fd holds
      exact ⟨id, owner⟩
  | acceptor =>
      exact sound.custody.upstream_open (List.mem_append_right _ (mem_held_of_acceptor holds))

/-- Every connection that is accepted and not yet closed is in exactly one place, nothing
else is in any place, and the workers take the connections in the order of `accept`. -/
theorem served_exactly_once {pool : Pool threads} (reached : Reachable (system threads) pool) :
    (0 ≤ pool.queue.count ∧ pool.queue.count ≤ maxTask ∧
        (pool.queue.rear : Int) = (pool.queue.front + pool.queue.count) % maxTask ∧
        ((Finset.univ.filter pool.queue.Occupied).card : Int) = pool.queue.count) ∧
      pool.handed <+: (List.range pool.kernel.accepted).map File.conn ∧
      (∀ id, id < pool.kernel.accepted → ConnEvent.close ∉ pool.kernel.log id →
        ∃ fd, pool.kernel.file fd = .conn id ∧ ∃! place, Holds pool fd place) ∧
      ∀ fd place, Holds pool fd place →
        ∃ id, id < pool.kernel.accepted ∧ ConnEvent.close ∉ pool.kernel.log id ∧
          pool.kernel.file fd = .conn id := by
  have sound := reachable_sound reached
  have formed := sound.custody.formed
  refine ⟨⟨sound.queue.nonneg, sound.queue.bounded, sound.queue.rear_value,
    Ring.occupied_card sound.queue⟩, ?_, ?_, ?_⟩
  · exact ⟨(upstream pool).map pool.kernel.file, sound.custody.order⟩
  · intro id bound notClosed
    have shut := formed.shut id bound
    obtain ⟨fd, owner⟩ : ∃ fd, pool.kernel.file fd = .conn id := by
      by_contra none
      exact notClosed (shut.mpr fun fd owner => none ⟨fd, owner⟩)
    exact ⟨fd, owner, unique_place sound owner⟩
  · intro fd place holds
    obtain ⟨id, owner⟩ := holds_open sound holds
    have bound := (formed.owner fd id owner).2
    exact ⟨id, bound, fun closed => (formed.shut id bound).mp closed fd owner, owner⟩

/-- Two workers; descriptor 5 is closed by the first one and comes back as the third
connection while the second connection is still queued. -/
def reuse : List (Label 2) :=
  let message := List.Vector.replicate messageSize 0
  let eof : Label 2 := .handle 0 (.ok []) (.ok 0)
  [.accept (.ok 5), .enqueue none, .dequeue 1 message, .dequeue 0 message, .wakeWorker 0,
    .accept (.ok 6), .enqueue none, .handle 1 (.ok []) (.ok 0), .handle 1 (.ok []) (.ok 0),
    .accept (.ok 5), .enqueue none, .dequeue 0 message, eof]

theorem served_exactly_once_reuse : ∃ pool : Pool 2, Reachable (system 2) pool ∧
    pool.handed = [.conn 0, .conn 1] ∧ pool.kernel.file 5 = .conn 2 ∧
      ∃! place, Holds pool 5 place := by
  obtain ⟨pool, reached, handed, owner, accepted, isOpen⟩ := exists_reachable_of_run next_sound
    ⟨3, fun _ => 0, rfl⟩ reuse
    (fun pool : Pool 2 => pool.handed = [.conn 0, .conn 1] ∧ pool.kernel.file 5 = .conn 2 ∧
      pool.kernel.accepted = 3 ∧ pool.kernel.log 2 = [])
    (by decide +kernel)
  obtain ⟨fd, fdOwner, unique⟩ := (served_exactly_once reached).2.2.1 2 (by omega) (by simp [isOpen])
  have same : fd = 5 := (reachable_sound reached).custody.formed.single fd 5 2 fdOwner owner
  exact ⟨pool, reached, handed, owner, same ▸ unique⟩

end LinuxSystemPrograms.PthreadPoolDelivery
