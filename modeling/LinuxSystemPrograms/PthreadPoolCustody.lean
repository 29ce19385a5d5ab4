import LinuxSystemPrograms.PthreadPool

/-!
# Who holds a connection of the thread pool

`Custody` is about the descriptors on their way to the workers (`upstream`: the queue, then
the one in the acceptor's hands) and those the workers serve. It knows nothing of ring
cells, of the mutex or of who is blocked: the four things that happen to a descriptor have
one lemma each, and every step of the pool is one of them or changes nothing here.
-/

namespace LinuxSystemPrograms.PthreadPoolCustody

open LinuxSystemPrograms.PthreadPool
open LinuxSystemPrograms.RingBuffer
open LinuxSystemPrograms.Sockets
open LinuxSystemPrograms.Transition

set_option autoImplicit false

variable {Holder : Type*} {kernel : Kernel Note} {handed : List File}
  {upstream : List Fd} {serving : Holder → Option Fd}

structure Custody (kernel : Kernel Note) (handed : List File) (upstream : List Fd)
    (serving : Holder → Option Fd) : Prop where
  formed : kernel.WellFormed
  order : handed ++ upstream.map kernel.file = (List.range kernel.accepted).map File.conn
  served : ∀ holder fd, serving holder = some fd →
    ∃ id, kernel.file fd = .conn id ∧ File.conn id ∈ handed
  single : ∀ holder other fd, serving holder = some fd → serving other = some fd → holder = other
  kept : ∀ fd id, kernel.file fd = .conn id → File.conn id ∈ handed →
    ∃ holder, serving holder = some fd

theorem conn_injective : Function.Injective File.conn := fun _ _ same => File.conn.inj same

namespace Custody

theorem nodup (custody : Custody kernel handed upstream serving) :
    (handed ++ upstream.map kernel.file).Nodup := by
  rw [custody.order]
  exact (List.nodup_map_iff conn_injective).mpr List.nodup_range

theorem handed_bound (custody : Custody kernel handed upstream serving) {id : Nat}
    (member : File.conn id ∈ handed) : id < kernel.accepted := by
  have known : File.conn id ∈ (List.range kernel.accepted).map File.conn := by
    rw [← custody.order]
    exact List.mem_append_left _ member
  obtain ⟨number, bound, same⟩ := List.mem_map.mp known
  rw [← conn_injective same]
  exact List.mem_range.mp bound

theorem upstream_open (custody : Custody kernel handed upstream serving) {fd : Fd}
    (member : fd ∈ upstream) : ∃ id, kernel.file fd = .conn id := by
  have known : kernel.file fd ∈ (List.range kernel.accepted).map File.conn := by
    rw [← custody.order]
    exact List.mem_append_right _ (List.mem_map_of_mem member)
  obtain ⟨id, _, same⟩ := List.mem_map.mp known
  exact ⟨id, same.symm⟩

theorem upstream_not_handed (custody : Custody kernel handed upstream serving) {fd : Fd}
    (member : fd ∈ upstream) : kernel.file fd ∉ handed := by
  intro inHanded
  exact List.disjoint_of_nodup_append custody.nodup inHanded (List.mem_map_of_mem member)

/-- What a worker serves is on its way to nobody else. -/
theorem served_not_upstream (custody : Custody kernel handed upstream serving) {holder : Holder}
    {fd : Fd} (serves : serving holder = some fd) : fd ∉ upstream := by
  intro member
  obtain ⟨id, owner, inHanded⟩ := custody.served holder fd serves
  rw [← owner] at inHanded
  exact custody.upstream_not_handed member inHanded

theorem accept (custody : Custody kernel handed upstream serving) {fd : Fd} (valid : 0 ≤ fd)
    (unused : kernel.file fd = .closed) :
    Custody (kernel.openConn fd) handed (upstream ++ [fd]) serving where
  formed := Kernel.open_well_formed custody.formed valid unused
  order := by
    have same : ∀ other ∈ upstream, (kernel.openConn fd).file other = kernel.file other := by
      intro other member
      obtain ⟨id, owner⟩ := custody.upstream_open member
      apply Kernel.open_file_other
      rintro rfl
      rw [unused] at owner
      cases owner
    rw [List.map_append, List.map_congr_left same, List.map_singleton, Kernel.open_file_same,
      Kernel.open_accepted, List.range_succ, List.map_append, List.map_singleton,
      ← custody.order, List.append_assoc]
  served holder other serves := by
    obtain ⟨id, owner, inHanded⟩ := custody.served holder other serves
    refine ⟨id, ?_, inHanded⟩
    rw [Kernel.open_file_other, owner]
    rintro rfl
    rw [unused] at owner
    cases owner
  single := custody.single
  kept other id owner inHanded := by
    by_cases same : other = fd
    · rw [same, Kernel.open_file_same, File.conn.injEq] at owner
      have bound := custody.handed_bound inHanded
      omega
    · rw [Kernel.open_file_other _ same] at owner
      exact custody.kept other id owner inHanded

/-- The oldest descriptor on its way goes to a worker that serves none. -/
theorem hand [DecidableEq Holder] {fd : Fd} {rest : List Fd}
    (custody : Custody kernel handed (fd :: rest) serving) {holder : Holder}
    (free : serving holder = none) :
    Custody kernel (handed ++ [kernel.file fd]) rest
      (Function.update serving holder (some fd)) where
  formed := custody.formed
  order := by
    rw [← custody.order, List.map_cons, List.append_assoc, List.singleton_append]
  served other otherFd serves := by
    by_cases same : other = holder
    · rw [same, Function.update_self, Option.some.injEq] at serves
      subst serves
      obtain ⟨id, owner⟩ := custody.upstream_open List.mem_cons_self
      exact ⟨id, owner, by simp [owner]⟩
    · rw [Function.update_of_ne same] at serves
      obtain ⟨id, owner, inHanded⟩ := custody.served other otherFd serves
      exact ⟨id, owner, List.mem_append_left _ inHanded⟩
  single first second otherFd firstServes secondServes := by
    have fresh : ∀ other, serving other ≠ some fd := fun other serves =>
      custody.served_not_upstream serves List.mem_cons_self
    by_cases firstNew : first = holder <;> by_cases secondNew : second = holder
    · rw [firstNew, secondNew]
    · rw [firstNew, Function.update_self, Option.some.injEq] at firstServes
      rw [Function.update_of_ne secondNew, ← firstServes] at secondServes
      exact absurd secondServes (fresh second)
    · rw [secondNew, Function.update_self, Option.some.injEq] at secondServes
      rw [Function.update_of_ne firstNew, ← secondServes] at firstServes
      exact absurd firstServes (fresh first)
    · rw [Function.update_of_ne firstNew] at firstServes
      rw [Function.update_of_ne secondNew] at secondServes
      exact custody.single first second otherFd firstServes secondServes
  kept otherFd id owner inHanded := by
    rcases List.mem_append.mp inHanded with old | new
    · obtain ⟨other, serves⟩ := custody.kept otherFd id owner old
      refine ⟨other, ?_⟩
      rw [Function.update_of_ne _ , serves]
      rintro rfl
      rw [free] at serves
      cases serves
    · rw [List.mem_singleton] at new
      have same : otherFd = fd := custody.formed.single otherFd fd id owner new.symm
      exact ⟨holder, by rw [Function.update_self, same]⟩

/-- A worker's calls on the connection it serves, none of them `close`. -/
theorem exchange (custody : Custody kernel handed upstream serving) {holder : Holder} {fd : Fd}
    (serves : serving holder = some fd) {events : List Event}
    (noClose : ConnEvent.close ∉ events) :
    Custody (kernel.exec (events.map (.io fd))) handed upstream serving := by
  obtain ⟨id, owner, _⟩ := custody.served holder fd serves
  rw [Kernel.exec_io_open owner events noClose]
  exact
    { formed := Kernel.record_well_formed custody.formed owner noClose
      order := custody.order
      served := custody.served
      single := custody.single
      kept := custody.kept }

/-- The worker closes the connection it serves, and its descriptor may be reused. -/
theorem close [DecidableEq Holder] (custody : Custody kernel handed upstream serving)
    {holder : Holder} {fd : Fd} (serves : serving holder = some fd) :
    Custody (kernel.exec [.io fd .close]) handed upstream
      (Function.update serving holder none) := by
  obtain ⟨id, owner, inHanded⟩ := custody.served holder fd serves
  have closed : kernel.exec [.io fd .close] = (kernel.record id ([] ++ [.close])).release fd :=
    Kernel.exec_io_close owner [] List.not_mem_nil
  rw [closed]
  have elsewhere : ∀ other, other ≠ fd →
      ((kernel.record id ([] ++ [.close])).release fd).file other = kernel.file other :=
    fun other different => Kernel.release_file_other _ different
  exact
    { formed := Kernel.close_well_formed custody.formed owner []
      order := by
        have same : ∀ other ∈ upstream,
            ((kernel.record id ([] ++ [.close])).release fd).file other = kernel.file other := by
          intro other member
          apply elsewhere
          rintro rfl
          exact custody.served_not_upstream serves member
        rw [List.map_congr_left same]
        exact custody.order
      served := by
        intro other otherFd otherServes
        by_cases same : other = holder
        · rw [same, Function.update_self] at otherServes
          cases otherServes
        · rw [Function.update_of_ne same] at otherServes
          obtain ⟨otherId, otherOwner, otherHanded⟩ := custody.served other otherFd otherServes
          refine ⟨otherId, ?_, otherHanded⟩
          rw [elsewhere, otherOwner]
          rintro rfl
          exact same (custody.single other holder otherFd otherServes serves)
      single := by
        intro first second otherFd firstServes secondServes
        by_cases firstSame : first = holder
        · rw [firstSame, Function.update_self] at firstServes
          cases firstServes
        · by_cases secondSame : second = holder
          · rw [secondSame, Function.update_self] at secondServes
            cases secondServes
          · rw [Function.update_of_ne firstSame] at firstServes
            rw [Function.update_of_ne secondSame] at secondServes
            exact custody.single first second otherFd firstServes secondServes
      kept := by
        intro otherFd otherId otherOwner otherHanded
        by_cases sameFd : otherFd = fd
        · rw [sameFd, Kernel.release_file_same] at otherOwner
          cases otherOwner
        · rw [elsewhere otherFd sameFd] at otherOwner
          obtain ⟨other, otherServes⟩ := custody.kept otherFd otherId otherOwner otherHanded
          refine ⟨other, ?_⟩
          rw [Function.update_of_ne, otherServes]
          rintro rfl
          rw [serves] at otherServes
          exact sameFd (Option.some.inj otherServes).symm }

end Custody

end LinuxSystemPrograms.PthreadPoolCustody
