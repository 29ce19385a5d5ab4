import LinuxSystemPrograms.PthreadPoolDelivery

/-!
# What a connection of the thread pool is sent back

`Run` is one run of `handle_client`: its log and where it stands. As long as no `send` has
failed the log is `Upright`; the first failing `send` leaves a line `CutShort`, and the
function goes on as if it had been sent. `Logged` says that the log of every connection of
the pool is the log of such a run.
-/

namespace LinuxSystemPrograms.PthreadPoolEcho

open LinuxSystemPrograms.CharArray
open LinuxSystemPrograms.Framing
open LinuxSystemPrograms.PthreadPool
open LinuxSystemPrograms.PthreadPoolCustody
open LinuxSystemPrograms.PthreadPoolDelivery
open LinuxSystemPrograms.Sockets
open LinuxSystemPrograms.Transition

set_option autoImplicit false

def removedBytes : Event → List Byte
  | .note (.removed line _) => line
  | _ => []

def removed (log : List Event) : List Byte := log.flatMap removedBytes

@[simp] theorem removed_nil : removed [] = [] := rfl

@[simp] theorem removed_append (earlier later : List Event) :
    removed (earlier ++ later) = removed earlier ++ removed later :=
  List.flatMap_append

@[simp] theorem removed_cons (event : Event) (later : List Event) :
    removed (event :: later) = removedBytes event ++ removed later :=
  List.flatMap_cons

/-- The line leaves `message` while some byte of it, or of a line before it, has not been
sent. -/
def CutShort (earlier : List Event) (line : List Byte) : Prop :=
  sent earlier ≠ removed earlier ++ line

def GivenUp (later : List Event) : Prop := later.head? = some .close

structure Faithful (log : List Event) : Prop where
  prefixes : EchoesPrefix log
  whole : ∀ earlier line ret later, earlier ++ .note (.removed line ret) :: later = log →
    CutShort earlier line → GivenUp later
  noLater : ∀ earlier line ret later, earlier ++ .note (.removed line ret) :: later = log →
    CutShort earlier line → ∀ offered result, ConnEvent.send offered result ∉ later

def NoSendFailed (log : List Event) : Prop :=
  ∀ offered reason, ConnEvent.send offered (.error reason) ∉ log

/-! ## One run of `handle_client` -/

inductive Run : List Event → Option Session → Prop where
  | start (message : List.Vector Byte messageSize) : Run [] (some (Session.start message))
  | step {log : List Event} {session : Session} (ready : RecvResult) (room : SendResult)
      (prior : Run log (some session)) :
      Run (log ++ (session.step ready room).2) (session.step ready room).1

theorem append_part (session : Session) (chunk : List Byte)
    (fits : session.used + chunk.length ≤ messageSize) :
    (session.append chunk fits).part = session.part ++ chunk := by
  unfold Session.part Session.append
  exact slice_memcpy_append session.message (Nat.zero_le _) fits _ (by simp only [Nat.sub_zero])

theorem remove_line_part (session : Session) (msgLen : Nat) :
    (session.removeLine msgLen).part = session.part.drop msgLen := by
  have moved : slice (memcpy session.message 0 (session.part.drop msgLen)
      (session.rest_fits msgLen)) 0 (session.used - msgLen)
        (by rw [Nat.zero_add]; exact session.rest_bound msgLen) = session.part.drop msgLen :=
    slice_memcpy_same _ _ _ (by simp [Session.part])
  exact moved

/-- What the bytes say at each position, while every removed line was sent as a whole. -/
def Balanced (log : List Event) (session : Session) : Prop :=
  match session.position with
  | .receiving =>
      sent log = removed log ∧ received log = removed log ++ session.part
  | .sending msgLen n =>
      frameLength newline session.part = some msgLen ∧ n < msgLen ∧
        sent log = removed log ++ session.part.take n ∧
        received log = removed log ++ session.part
  | .closing => True

theorem next_line_balanced {log : List Event} {session : Session}
    (allSent : sent log = removed log) (rest : received log = removed log ++ session.part) :
    Balanced log session.nextLine := by
  unfold Balanced Session.nextLine
  cases found : frameLength newline session.part with
  | none => exact ⟨allSent, rest⟩
  | some msgLen =>
      have bounds := frame_length_bounds found
      exact ⟨found, bounds.1, by simpa using allSent, rest⟩

def Uncut (log : List Event) : Prop :=
  ∀ earlier line ret later, earlier ++ .note (.removed line ret) :: later = log →
    ¬ CutShort earlier line

theorem uncut_concat {log : List Event} {event : Event} (uncut : Uncut log)
    (now : ∀ line ret, event = .note (.removed line ret) → ¬ CutShort log line) :
    Uncut (log ++ [event]) := by
  intro earlier line ret later split
  rcases List.eq_nil_or_concat later with rfl | ⟨front, last, rfl⟩
  · obtain ⟨sameLog, sameEvent⟩ := List.append_inj' split rfl
    rw [sameLog]
    exact now line ret (List.cons.inj sameEvent).1.symm
  · rw [List.concat_eq_append, ← List.cons_append, ← List.append_assoc] at split
    exact uncut earlier line ret front (List.append_inj' split rfl).1

theorem uncut_silent {log : List Event} {event : Event} (uncut : Uncut log)
    (silent : ∀ line ret, event ≠ .note (.removed line ret)) : Uncut (log ++ [event]) :=
  uncut_concat uncut fun line ret same => absurd same (silent line ret)

structure Upright (log : List Event) (state : Option Session) : Prop where
  prefixes : EchoesPrefix log
  uncut : Uncut log
  balanced : ∀ session ∈ state, Balanced log session

theorem start_upright (message : List.Vector Byte messageSize) :
    Upright [] (some (Session.start message)) where
  prefixes := echoes_prefix_nil
  uncut earlier line ret later split := by simp at split
  balanced session member := by
    cases member
    exact ⟨rfl, by simp [Session.start, Session.part]⟩

/-- `recv` and the code up to the next call. -/
theorem recv_upright {log : List Event} {session : Session}
    (upright : Upright log (some session)) (receiving : session.position = .receiving)
    (result : RecvResult) : Upright (log ++ [.recv result]) (some (session.onRecv result)) where
  prefixes := echoes_prefix_of_silent upright.prefixes _ rfl
  uncut := uncut_silent upright.uncut fun line ret same => by cases same
  balanced after member := by
    rw [Option.mem_def, Option.some.injEq] at member
    subst member
    have before := upright.balanced session rfl
    unfold Balanced at before
    rw [receiving] at before
    obtain ⟨allSent, rest⟩ := before
    have closing : ∀ other : Session, other.position = .closing →
        Balanced (log ++ [.recv result]) other := by
      intro other isClosing
      unfold Balanced
      rw [isClosing]
      trivial
    cases result with
    | error reason =>
        have idle : Balanced (log ++ [.recv (.error reason)]) session.nextLine := by
          apply next_line_balanced
          · simpa [ConnEvent.sentBytes, removedBytes] using allSent
          · simpa [ConnEvent.receivedBytes, removedBytes] using rest
        cases reason with
        | eagain => exact idle
        | eintr => exact closing _ rfl
        | einprogress => exact closing _ rfl
        | emsgsize => exact closing _ rfl
        | eproto => exact closing _ rfl
        | econnreset => exact closing _ rfl
        | other code => exact closing _ rfl
    | ok chunk =>
        simp only [Session.onRecv]
        split_ifs with eof fits
        · exact closing _ rfl
        · apply next_line_balanced
          · simpa [ConnEvent.sentBytes, removedBytes] using allSent
          · rw [append_part]
            simp [ConnEvent.receivedBytes, removedBytes, rest]
        · exact closing _ rfl

/-- A `send` of `send_all` that does not fail. -/
theorem send_upright {log : List Event} {session : Session} {msgLen n count : Nat}
    (upright : Upright log (some session)) (sending : session.position = .sending msgLen n)
    (accepted : count ≤ ((session.part.take msgLen).drop n).length) :
    Upright
      (log ++ .send ((session.part.take msgLen).drop n) (.ok count) ::
        (session.onSend msgLen n (.ok count)).2)
      (some (session.onSend msgLen n (.ok count)).1) := by
  have before := upright.balanced session rfl
  unfold Balanced at before
  rw [sending] at before
  obtain ⟨found, unfinished, partly, rest⟩ := before
  have bounds := frame_length_bounds found
  have bound : n + count ≤ msgLen := by
    simp only [List.length_drop, List.length_take] at accepted
    omega
  have offered : ((session.part.take msgLen).drop n).take count =
      (session.part.take (n + count)).drop n := by
    rw [List.drop_take, List.take_take, List.drop_take]
    congr 1
    omega
  have sentNow : sent (log ++ [.send ((session.part.take msgLen).drop n) (.ok count)]) =
      removed log ++ session.part.take (n + count) := by
    have joined : session.part.take n ++ (session.part.take (n + count)).drop n =
        session.part.take (n + count) := by
      have short : session.part.take n = (session.part.take (n + count)).take n := by
        rw [List.take_take, Nat.min_eq_left (Nat.le_add_right n count)]
      rw [short]
      exact List.take_append_drop n _
    simp only [sent_append, sent_cons, sent_nil, ConnEvent.sentBytes, List.append_nil, partly,
      offered, List.append_assoc, joined]
  have receivedNow :
      received (log ++ [.send ((session.part.take msgLen).drop n) (.ok count)]) =
        removed log ++ session.part := by
    simpa [ConnEvent.receivedBytes] using rest
  have removedNow : removed (log ++ [.send ((session.part.take msgLen).drop n) (.ok count)]) =
      removed log := by
    simp [removedBytes]
  have prefixes : EchoesPrefix
      (log ++ [.send ((session.part.take msgLen).drop n) (.ok count)]) := by
    apply echoes_prefix_concat upright.prefixes
    rw [sentNow, receivedNow]
    exact (List.prefix_append_right_inj _).mpr (List.take_prefix _ _)
  have uncut : Uncut (log ++ [.send ((session.part.take msgLen).drop n) (.ok count)]) :=
    uncut_silent upright.uncut fun line ret same => by cases same
  simp only [Session.onSend]
  split_ifs with more
  · refine ⟨prefixes, uncut, ?_⟩
    intro after member
    rw [Option.mem_def, Option.some.injEq] at member
    subst member
    exact ⟨found, more, by rw [removedNow]; exact sentNow, by rw [removedNow]; exact receivedNow⟩
  · have whole : n + count = msgLen := by omega
    rw [whole] at sentNow
    have split : log ++ .send ((session.part.take msgLen).drop n) (.ok count) ::
        [.note (.removed (session.part.take msgLen) (Int.ofNat (n + count)))] =
          log ++ [.send ((session.part.take msgLen).drop n) (.ok count)] ++
            [.note (.removed (session.part.take msgLen) (Int.ofNat (n + count)))] := by
      simp
    rw [split]
    refine ⟨echoes_prefix_of_silent prefixes _ rfl, ?_, ?_⟩
    · apply uncut_concat uncut
      intro line ret same
      cases same
      rw [CutShort, removedNow]
      exact fun cut => cut sentNow
    · intro after member
      rw [Option.mem_def, Option.some.injEq] at member
      subst member
      apply next_line_balanced
      · rw [sent_append, removed_append, removedNow, sentNow]
        simp [ConnEvent.sentBytes, removedBytes]
      · rw [received_append, removed_append, removedNow, receivedNow, remove_line_part]
        simp [ConnEvent.receivedBytes, removedBytes]

/-- A line has been cut short, and `handle_client` does not give the connection up. -/
def Broken (log : List Event) (state : Option Session) : Prop :=
  ∃ earlier line ret later, earlier ++ .note (.removed line ret) :: later = log ∧
    CutShort earlier line ∧ ¬ GivenUp later ∧
    (later = [] → ∃ session, state = some session ∧ session.position ≠ .closing)

theorem next_line_not_closing (session : Session) : session.nextLine.position ≠ .closing := by
  unfold Session.nextLine
  cases frameLength newline session.part <;> simp

/-- The return value of `send_all` is not looked at. -/
theorem send_failure_breaks {log : List Event} {session : Session} {msgLen n : Nat}
    (upright : Upright log (some session)) (sending : session.position = .sending msgLen n)
    (reason : Errno) :
    Broken
      (log ++ .send ((session.part.take msgLen).drop n) (.error reason) ::
        (session.onSend msgLen n (.error reason)).2)
      (some (session.onSend msgLen n (.error reason)).1) := by
  have before := upright.balanced session rfl
  unfold Balanced at before
  rw [sending] at before
  obtain ⟨found, unfinished, partly, _⟩ := before
  have bounds := frame_length_bounds found
  refine ⟨log ++ [.send ((session.part.take msgLen).drop n) (.error reason)],
    session.part.take msgLen, -1, [], by simp [Session.onSend], ?_, by simp [GivenUp], ?_⟩
  · intro whole
    simp only [sent_append, sent_cons, sent_nil, ConnEvent.sentBytes, removed_append, removed_cons,
      removed_nil, removedBytes, List.append_nil, partly] at whole
    have lengths := congrArg List.length (List.append_cancel_left whole)
    simp only [List.length_take] at lengths
    omega
  · exact fun _ => ⟨_, rfl, next_line_not_closing _⟩

/-- Every call of `handle_client` is logged, and only `closing` logs a `close`. -/
theorem step_events (session : Session) (ready : RecvResult) (room : SendResult) :
    ∃ event rest, (session.step ready room).2 = event :: rest ∧
      (event = .close → session.position = .closing) := by
  unfold Session.step
  split
  · exact ⟨_, _, rfl, fun same => by cases same⟩
  · exact ⟨_, _, rfl, fun same => by cases same⟩
  · exact ⟨_, _, rfl, fun _ => by assumption⟩

theorem broken_step {log : List Event} {session : Session} (broken : Broken log (some session))
    (ready : RecvResult) (room : SendResult) :
    Broken (log ++ (session.step ready room).2) (session.step ready room).1 := by
  obtain ⟨earlier, line, ret, later, rfl, cut, goesOn, stands⟩ := broken
  obtain ⟨event, rest, events, closing⟩ := step_events session ready room
  refine ⟨earlier, line, ret, later ++ (session.step ready room).2, by simp, cut, ?_, ?_⟩
  · cases later with
    | nil =>
        obtain ⟨current, same, notClosing⟩ := stands rfl
        cases same
        rw [GivenUp, events]
        intro close
        exact notClosing (closing (Option.some.inj close))
    | cons head tail => exact goesOn
  · intro empty
    rw [events] at empty
    simp at empty

theorem no_send_failed_append {log later : List Event} :
    NoSendFailed (log ++ later) ↔ NoSendFailed log ∧ NoSendFailed later := by
  simp only [NoSendFailed, List.mem_append, not_or, forall_and]

/-- One call of a run that has been upright so far. -/
theorem step_upright {log : List Event} {session : Session} (upright : Upright log (some session))
    (ready : RecvResult) (room : SendResult) :
    (NoSendFailed (session.step ready room).2 ∧
        Upright (log ++ (session.step ready room).2) (session.step ready room).1) ∨
      (¬ NoSendFailed (session.step ready room).2 ∧
        Broken (log ++ (session.step ready room).2) (session.step ready room).1) := by
  unfold Session.step
  cases position : session.position with
  | receiving => exact Or.inl ⟨by simp [NoSendFailed], recv_upright upright position _⟩
  | closing =>
      refine Or.inl ⟨by simp [NoSendFailed], ?_⟩
      exact
        { prefixes := echoes_prefix_of_silent upright.prefixes _ rfl
          uncut := uncut_silent upright.uncut fun line ret same => by cases same
          balanced := fun after member => by cases member }
  | sending msgLen n =>
      dsimp only
      cases result : send ((session.part.take msgLen).drop n).length room with
      | ok count =>
          refine Or.inl ⟨?_, send_upright upright position (send_ok_le result)⟩
          simp only [Session.onSend]
          split_ifs <;> simp [NoSendFailed]
      | error reason =>
          refine Or.inr ⟨?_, send_failure_breaks upright position reason⟩
          intro none
          exact none _ reason List.mem_cons_self

theorem run_cases {log : List Event} {state : Option Session} (run : Run log state) :
    (NoSendFailed log ∧ Upright log state) ∨ (¬ NoSendFailed log ∧ Broken log state) := by
  induction run with
  | start message => exact Or.inl ⟨by simp [NoSendFailed], start_upright message⟩
  | step ready room prior ih =>
      rcases ih with ⟨none, upright⟩ | ⟨failed, broken⟩
      · rcases step_upright upright ready room with ⟨noneNow, after⟩ | ⟨failedNow, after⟩
        · exact Or.inl ⟨no_send_failed_append.mpr ⟨none, noneNow⟩, after⟩
        · exact Or.inr ⟨fun both => failedNow (no_send_failed_append.mp both).2, after⟩
      · exact Or.inr ⟨fun both => failed (no_send_failed_append.mp both).1,
          broken_step broken ready room⟩

theorem upright_faithful {log : List Event} {state : Option Session}
    (upright : Upright log state) : Faithful log where
  prefixes := upright.prefixes
  whole earlier line ret later split cut := absurd cut (upright.uncut earlier line ret later split)
  noLater earlier line ret later split cut :=
    absurd cut (upright.uncut earlier line ret later split)

theorem broken_not_faithful {log : List Event} {state : Option Session}
    (broken : Broken log state) : ¬ Faithful log := by
  intro faithful
  obtain ⟨earlier, line, ret, later, split, cut, goesOn, _⟩ := broken
  exact goesOn (faithful.whole earlier line ret later split cut)

theorem run_faithful_iff {log : List Event} {state : Option Session} (run : Run log state) :
    Faithful log ↔ NoSendFailed log := by
  rcases run_cases run with ⟨none, upright⟩ | ⟨failed, broken⟩
  · exact iff_of_true (upright_faithful upright) none
  · exact iff_of_false (broken_not_faithful broken) failed

/-! ## The runs of the pool's workers -/

variable {threads : Nat}

structure Logged (pool : Pool threads) : Prop where
  waiting : ∀ id, File.conn id ∉ pool.handed → pool.kernel.log id = []
  served : ∀ index clientFd session id, pool.worker index = .serving clientFd session →
    pool.kernel.file clientFd = .conn id → Run (pool.kernel.log id) (some session)
  finished : ∀ id, File.conn id ∈ pool.handed → (∀ fd, pool.kernel.file fd ≠ .conn id) →
    Run (pool.kernel.log id) none

theorem boot_logged (serverFd : Fd) (cells : Fin maxTask → Fd) :
    Logged (Pool.boot threads serverFd cells) where
  waiting id _ := rfl
  served index clientFd session id serves _ := by cases serves
  finished id handed _ := by cases handed

theorem accept_logged {pool : Pool threads} (sound : Sound pool) (logged : Logged pool)
    {clientFd : Fd} (unused : pool.kernel.file clientFd = .closed) :
    Logged (pool.accept clientFd) where
  waiting := logged.waiting
  served index fd session id serves owner := by
    obtain ⟨known, knownOwner, _⟩ := sound.custody.served index fd (by
      have holds : pool.worker index = .serving fd session := serves
      rw [serving, holds]
      rfl)
    have different : fd ≠ clientFd := by
      rintro rfl
      rw [unused] at knownOwner
      cases knownOwner
    have sameOwner : pool.kernel.file fd = .conn id :=
      (Kernel.open_file_other pool.kernel different).symm.trans owner
    exact logged.served index fd session id serves sameOwner
  finished id handed shut := by
    refine logged.finished id handed fun fd owner => ?_
    apply shut fd
    have different : fd ≠ clientFd := by
      rintro rfl
      rw [unused] at owner
      cases owner
    exact (Kernel.open_file_other pool.kernel different).trans owner

/-- A worker moves on while no connection is taken or left. -/
theorem logged_of_same {pool after : Pool threads} (logged : Logged pool)
    (kernel : after.kernel = pool.kernel) (handed : after.handed = pool.handed)
    (serves : ∀ index clientFd session, after.worker index = .serving clientFd session →
      pool.worker index = .serving clientFd session) : Logged after where
  waiting id absent := by
    rw [kernel]
    exact logged.waiting id (by rwa [handed] at absent)
  served index clientFd session id serving owner := by
    rw [kernel] at owner ⊢
    exact logged.served index clientFd session id (serves index clientFd session serving) owner
  finished id member shut := by
    rw [kernel] at shut ⊢
    exact logged.finished id (by rwa [handed] at member) shut

theorem set_worker_logged {pool : Pool threads} (logged : Logged pool) (index : Fin threads)
    {state : WorkerState} (idle : state.serves = none) : Logged (pool.setWorker index state) := by
  refine logged_of_same logged
    (show (pool.setWorker index state).kernel = pool.kernel from rfl) rfl ?_
  intro other clientFd session serves
  by_cases same : other = index
  · subst same
    simp only [Pool.setWorker, Function.update_self] at serves
    rw [serves] at idle
    cases idle
  · simpa [Pool.setWorker, same] using serves

theorem enqueue_logged {pool : Pool threads} (logged : Logged pool) (clientFd : Fd)
    {signalled : Option (Fin threads)} (honest : Honest pool (.enqueue signalled)) :
    Logged (pool.enqueue clientFd signalled) := by
  unfold Pool.enqueue
  split_ifs with full
  · exact logged_of_same logged rfl rfl fun _ _ _ serves => serves
  · have queued : Logged
        { pool with queue := pool.queue.push clientFd, acceptor := .accepting } :=
      logged_of_same logged rfl rfl fun _ _ _ serves => serves
    cases signalled with
    | none => exact queued
    | some index =>
        apply set_worker_logged queued
        have isWaiting : (pool.worker index).isWaiting = true := honest
        cases state : pool.worker index with
        | waiting => rfl
        | idle => rfl
        | woken => rfl
        | serving fd session => simp [state, WorkerState.isWaiting] at isWaiting

/-- A connection leaves the queue with an empty log. -/
theorem dequeue_logged {pool : Pool threads} (sound : Sound pool) (logged : Logged pool)
    (index : Fin threads) (message : List.Vector Byte messageSize) :
    Logged (pool.dequeue index message) := by
  unfold Pool.dequeue
  split_ifs with empty
  · exact set_worker_logged logged index rfl
  · have nonneg := sound.queue.nonneg
    have member : pool.queue.pop.1 ∈ upstream pool := by
      rw [upstream, RingBuffer.Ring.pop_contents (by omega)]
      exact List.mem_append_left _ List.mem_cons_self
    obtain ⟨taken, takenOwner⟩ := sound.custody.upstream_open member
    have notHanded := sound.custody.upstream_not_handed member
    rw [takenOwner] at notHanded
    constructor
    · intro id absent
      apply logged.waiting id
      intro inHanded
      exact absent (List.mem_append_left _ inHanded)
    · intro other fd session id serves owner
      simp only [Pool.signalNotFull, Pool.setWorker] at serves owner ⊢
      by_cases same : other = index
      · rw [same, Function.update_self] at serves
        cases serves
        rw [takenOwner, File.conn.injEq] at owner
        rw [← owner, logged.waiting taken notHanded]
        exact .start message
      · rw [Function.update_of_ne same] at serves
        exact logged.served other fd session id serves owner
    · intro id inHanded shut
      rcases List.mem_append.mp inHanded with old | new
      · exact logged.finished id old shut
      · rw [List.mem_singleton] at new
        exact absurd new.symm (shut pool.queue.pop.1)

theorem serves_other {pool : Pool threads} (sound : Sound pool) {index other : Fin threads}
    {clientFd otherFd : Fd} {session otherSession : Session} {id otherId : Nat}
    (serves : pool.worker index = .serving clientFd session)
    (otherServes : pool.worker other = .serving otherFd otherSession)
    (owner : pool.kernel.file clientFd = .conn id)
    (otherOwner : pool.kernel.file otherFd = .conn otherId) (different : other ≠ index) :
    otherFd ≠ clientFd ∧ otherId ≠ id := by
  have fds : otherFd ≠ clientFd := by
    rintro rfl
    exact different (sound.custody.single other index otherFd (by rw [serving, otherServes]; rfl)
      (by rw [serving, serves]; rfl))
  refine ⟨fds, ?_⟩
  rintro rfl
  exact fds (sound.custody.formed.single _ _ _ otherOwner owner)

/-- One system call of a worker is one step of its run. -/
theorem handle_logged {pool : Pool threads} (sound : Sound pool) (logged : Logged pool)
    {index : Fin threads} {clientFd : Fd} {session : Session}
    (serves : pool.worker index = .serving clientFd session) (ready : RecvResult)
    (room : SendResult) : Logged (pool.handle index clientFd session ready room) := by
  obtain ⟨id, owner, inHanded⟩ := sound.custody.served index clientFd (by
    rw [serving, serves]
    rfl)
  have advanced := Run.step ready room (logged.served index clientFd session id serves owner)
  unfold Pool.handle
  rcases step_cases session ready room with returns | ⟨after, events, goesOn, noClose⟩
  · rw [returns] at advanced ⊢
    have closed : pool.kernel.exec [.io clientFd .close] =
        (pool.kernel.record id ([] ++ [.close])).release clientFd :=
      Kernel.exec_io_close owner [] List.not_mem_nil
    constructor
    · intro other absent
      have different : other ≠ id := by
        rintro rfl
        exact absent inHanded
      change (pool.kernel.exec [.io clientFd .close]).log other = []
      rw [closed, Kernel.release_log, Kernel.record_log_other _ _ different]
      exact logged.waiting other absent
    · intro other fd otherSession otherId otherServes otherOwner
      simp only [List.map_cons, List.map_nil, closed] at otherServes otherOwner ⊢
      have different : other ≠ index := by
        rintro rfl
        simp [Pool.setWorker] at otherServes
      simp only [Pool.setWorker, Function.update_of_ne different] at otherServes
      obtain ⟨known, knownOwner, _⟩ := sound.custody.served other fd (by
        rw [serving, otherServes]
        rfl)
      have apart := serves_other sound serves otherServes owner knownOwner different
      rw [Kernel.release_file_other _ apart.1, Kernel.record_file, knownOwner,
        File.conn.injEq] at otherOwner
      subst otherOwner
      rw [Kernel.release_log, Kernel.record_log_other _ _ apart.2]
      exact logged.served other fd otherSession known otherServes knownOwner
    · intro other member shut
      simp only [List.map_cons, List.map_nil, closed] at shut ⊢
      by_cases same : other = id
      · rw [same, Kernel.release_log, Kernel.record_log_same]
        exact advanced
      · rw [Kernel.release_log, Kernel.record_log_other _ _ same]
        refine logged.finished other member fun fd fdOwner => ?_
        have different : fd ≠ clientFd := by
          rintro rfl
          rw [owner, File.conn.injEq] at fdOwner
          exact same fdOwner.symm
        exact shut fd (by rw [Kernel.release_file_other _ different, Kernel.record_file, fdOwner])
  · rw [goesOn] at advanced ⊢
    have recorded := Kernel.exec_io_open owner events noClose
    constructor
    · intro other absent
      have different : other ≠ id := by
        rintro rfl
        exact absent inHanded
      simp only [recorded, Kernel.record_log_other _ _ different]
      exact logged.waiting other absent
    · intro other fd otherSession otherId otherServes otherOwner
      simp only [recorded, Kernel.record_file] at otherServes otherOwner ⊢
      by_cases same : other = index
      · subst same
        simp only [Pool.setWorker, Function.update_self, WorkerState.serving.injEq] at otherServes
        obtain ⟨rfl, rfl⟩ := otherServes
        rw [owner, File.conn.injEq] at otherOwner
        rw [← otherOwner, Kernel.record_log_same]
        exact advanced
      · simp only [Pool.setWorker, Function.update_of_ne same] at otherServes
        have apart := serves_other sound serves otherServes owner otherOwner same
        rw [Kernel.record_log_other _ _ apart.2]
        exact logged.served other fd otherSession otherId otherServes otherOwner
    · intro other member shut
      simp only [recorded, Kernel.record_file] at shut ⊢
      have different : other ≠ id := by
        rintro rfl
        exact shut clientFd owner
      rw [Kernel.record_log_other _ _ different]
      exact logged.finished other member shut

theorem step_logged {pool after : Pool threads} (sound : Sound pool) (logged : Logged pool)
    (taken : Taken pool after) : Logged after := by
  cases taken with
  | accepted clientFd free valid unused => exact accept_logged sound logged unused
  | refused => exact logged
  | enqueued clientFd signalled held honest => exact enqueue_logged logged clientFd honest
  | dequeued index message ready => exact dequeue_logged sound logged index message
  | handled index clientFd session ready room serves =>
      exact handle_logged sound logged serves ready room
  | workerWoken index blocked => exact set_worker_logged logged index rfl
  | acceptorWoken clientFd blocked =>
      exact logged_of_same logged rfl rfl fun _ _ _ serves => serves

theorem reachable_logged {pool : Pool threads} (reached : Reachable (system threads) pool) :
    Logged pool := by
  apply reachable_invariant _ _ reached
  · rintro pool ⟨serverFd, cells, rfl⟩
    exact boot_logged serverFd cells
  · intro pool label after prior logged step
    exact step_logged (reachable_sound prior) logged (taken_of_step step)

/-- Every log is that of a run, or of a connection that no worker has taken yet. -/
theorem run_of_log {pool : Pool threads} (reached : Reachable (system threads) pool) (id : Nat) :
    pool.kernel.log id = [] ∨ ∃ state, Run (pool.kernel.log id) state := by
  have logged := reachable_logged reached
  by_cases handed : File.conn id ∈ pool.handed
  · right
    by_cases shut : ∀ fd, pool.kernel.file fd ≠ .conn id
    · exact ⟨none, logged.finished id handed shut⟩
    · push Not at shut
      obtain ⟨fd, owner⟩ := shut
      obtain ⟨index, serves⟩ := (reachable_sound reached).custody.kept fd id owner handed
      rw [serving] at serves
      cases state : pool.worker index with
      | serving clientFd session =>
          rw [state] at serves
          cases serves
          exact ⟨some session, logged.served index fd session id state owner⟩
      | idle => rw [state] at serves; cases serves
      | waiting => rw [state] at serves; cases serves
      | woken => rw [state] at serves; cases serves
  · exact Or.inl (logged.waiting id handed)

/-- On every connection, at every moment: the echo is faithful exactly as long as no `send`
has failed. -/
theorem echo_faithful_iff_no_send_failed {pool : Pool threads}
    (reached : Reachable (system threads) pool) (id : Nat) :
    Faithful (pool.kernel.log id) ↔ NoSendFailed (pool.kernel.log id) := by
  rcases run_of_log reached id with empty | ⟨state, run⟩
  · rw [empty]
    have whole : NoSendFailed [] := by simp [NoSendFailed]
    exact iff_of_true (upright_faithful (start_upright (List.Vector.replicate messageSize 0))) whole
  · exact run_faithful_iff run

/-- Two lines are received at once; the socket takes one byte of the first. -/
def twoLines (worker : Fin threads) (second : SendResult) : List (Label threads) :=
  let message := List.Vector.replicate messageSize 0
  [.accept (.ok 5), .enqueue none, .dequeue worker message,
    .handle worker (.ok [97, 98, newline, 99, newline]) (.ok 0),
    .handle worker (.ok []) (.ok 1), .handle worker (.ok []) second,
    .handle worker (.ok []) (.ok 2)]

theorem echo_faithful_iff_no_send_failed_two_lines : ∃ pool : Pool 1, Reachable (system 1) pool ∧
    sent (pool.kernel.log 0) = [97, 98, newline, 99, newline] ∧
      (Faithful (pool.kernel.log 0) ↔ NoSendFailed (pool.kernel.log 0)) := by
  obtain ⟨pool, reached, echoed⟩ := exists_reachable_of_run next_sound ⟨3, fun _ => 0, rfl⟩
    (twoLines 0 (.ok 2))
    (fun pool : Pool 1 => sent (pool.kernel.log 0) = [97, 98, newline, 99, newline])
    (by decide +kernel)
  exact ⟨pool, reached, echoed, echo_faithful_iff_no_send_failed reached 0⟩

/-- `EAGAIN` in the middle of the first line: the second one is sent behind its first byte. -/
theorem not_every_echo_is_faithful :
    ¬ ∀ (threads : Nat) (pool : Pool threads), Reachable (system threads) pool →
      ∀ id, Faithful (pool.kernel.log id) := by
  intro always
  obtain ⟨pool, reached, wrong⟩ := exists_reachable_of_run next_sound ⟨3, fun _ => 0, rfl⟩
    (twoLines 0 (.error .eagain))
    (fun pool : Pool 1 => ¬ sent (pool.kernel.log 0) <+: received (pool.kernel.log 0))
    (by decide +kernel)
  exact wrong ((always 1 pool reached 0).prefixes _ List.prefix_rfl)

end LinuxSystemPrograms.PthreadPoolEcho
