import Mathlib.Data.List.Basic
import Mathlib.Data.List.Nodup
import Mathlib.Logic.Function.Basic

/-!
# Reader-writer locks

The lock knows its holders, so that it cannot have a writer beside anybody else. `Agrees`
relates it to what the parties believe, and is kept by each operation; exclusion is a
consequence of it.
-/

namespace LinuxSystemPrograms.RwLock

set_option autoImplicit false

variable {Party : Type*}

/-- Shared by nobody, the lock is free. -/
inductive Lock (Party : Type*) where
  | shared (readers : List Party)
  | exclusive (writer : Party)
  deriving DecidableEq, Repr

inductive Mode where
  | outside
  | reading
  | writing
  deriving DecidableEq, Repr

namespace Lock

def free : Lock Party := .shared []

/-- `none` stands for a caller that has to wait, here and in `wrlock`. -/
def rdlock (party : Party) : Lock Party → Option (Lock Party)
  | .shared readers => some (.shared (party :: readers))
  | .exclusive _ => none

def wrlock (party : Party) : Lock Party → Option (Lock Party)
  | .shared [] => some (.exclusive party)
  | .shared (_ :: _) => none
  | .exclusive _ => none

def unlock [DecidableEq Party] (party : Party) : Lock Party → Lock Party
  | .shared readers => .shared (readers.erase party)
  | .exclusive _ => free

theorem wrlock_eq_some {party : Party} {lock after : Lock Party}
    (granted : lock.wrlock party = some after) : lock = free ∧ after = .exclusive party := by
  match lock, granted with
  | .shared [], granted => exact ⟨rfl, (Option.some.inj granted).symm⟩

theorem rdlock_eq_some {party : Party} {lock after : Lock Party}
    (granted : lock.rdlock party = some after) :
    ∃ readers, lock = .shared readers ∧ after = .shared (party :: readers) := by
  match lock, granted with
  | .shared readers, granted => exact ⟨readers, rfl, (Option.some.inj granted).symm⟩

end Lock

/-- The holders of `lock` are the parties that are not outside, in the mode each is in. -/
structure Agrees (lock : Lock Party) (mode : Party → Mode) : Prop where
  writer : ∀ party, mode party = .writing ↔ lock = .exclusive party
  reader : ∀ party, mode party = .reading ↔ ∃ readers, lock = .shared readers ∧ party ∈ readers
  nodup : ∀ readers, lock = .shared readers → readers.Nodup

namespace Agrees

theorem free : Agrees (Lock.free : Lock Party) fun _ => .outside where
  writer party := by simp [Lock.free]
  reader party := by simp [Lock.free]
  nodup readers same := by
    cases same
    exact List.nodup_nil

/-- Beside a writer nobody is inside. -/
theorem exclusion {lock : Lock Party} {mode : Party → Mode} (agrees : Agrees lock mode)
    {party : Party} (writing : mode party = .writing) {other : Party} (different : other ≠ party) :
    mode other = .outside := by
  have holder := (agrees.writer party).mp writing
  cases case : mode other with
  | outside => rfl
  | reading =>
      obtain ⟨readers, same, -⟩ := (agrees.reader other).mp case
      rw [holder] at same
      cases same
  | writing =>
      rw [(agrees.writer other).mp case, Lock.exclusive.injEq] at holder
      exact absurd holder different

theorem eq_free {lock : Lock Party} {mode : Party → Mode} (agrees : Agrees lock mode)
    (empty : ∀ party, mode party = .outside) : lock = Lock.free := by
  cases lock with
  | exclusive writer =>
      have writing := (agrees.writer writer).mpr rfl
      rw [empty] at writing
      cases writing
  | shared readers =>
      cases readers with
      | nil => rfl
      | cons party rest =>
          have reading := (agrees.reader party).mpr ⟨_, rfl, List.mem_cons_self⟩
          rw [empty] at reading
          cases reading

variable [DecidableEq Party]

theorem rdlock {lock after : Lock Party} {mode : Party → Mode} {party : Party}
    (agrees : Agrees lock mode) (outside : mode party = .outside)
    (granted : lock.rdlock party = some after) :
    Agrees after (Function.update mode party .reading) := by
  obtain ⟨readers, rfl, rfl⟩ := Lock.rdlock_eq_some granted
  have members : ∀ query, mode query = .reading ↔ query ∈ readers := by
    intro query
    rw [agrees.reader query]
    simp
  refine ⟨?_, ?_, ?_⟩
  · intro query
    by_cases same : query = party
    · simp [same]
    · have unwritten := agrees.writer query
      simp only [reduceCtorEq, iff_false] at unwritten
      simp [same, unwritten]
  · intro query
    by_cases same : query = party
    · simp [same]
    · simp [same, members]
  · intro others same
    cases same
    have absent : party ∉ readers := by
      rw [← members, outside]
      simp
    exact List.nodup_cons.mpr ⟨absent, agrees.nodup readers rfl⟩

theorem wrlock {lock after : Lock Party} {mode : Party → Mode} {party : Party}
    (agrees : Agrees lock mode) (granted : lock.wrlock party = some after) :
    Agrees after (Function.update mode party .writing) := by
  obtain ⟨rfl, rfl⟩ := Lock.wrlock_eq_some granted
  refine ⟨?_, ?_, ?_⟩
  · intro query
    by_cases same : query = party
    · simp [same]
    · have unwritten := agrees.writer query
      simp only [Lock.free, reduceCtorEq, iff_false] at unwritten
      simp [same, unwritten, Ne.symm same]
  · intro query
    by_cases same : query = party
    · simp [same]
    · have unread := agrees.reader query
      simp only [Lock.free, Lock.shared.injEq] at unread
      simp [same, unread]
  · intro readers same
    cases same

theorem unlock {lock : Lock Party} {mode : Party → Mode} {party : Party}
    (agrees : Agrees lock mode) (inside : mode party ≠ .outside) :
    Agrees (lock.unlock party) (Function.update mode party .outside) := by
  cases lock with
  | exclusive writer =>
      have writing := (agrees.writer writer).mpr rfl
      have self : party = writer := by
        by_contra different
        exact inside (agrees.exclusion writing different)
      subst self
      have others : Function.update mode party .outside = fun _ => .outside := by
        funext query
        by_cases same : query = party
        · rw [same, Function.update_self]
        · rw [Function.update_of_ne same]
          exact agrees.exclusion writing same
      rw [others]
      exact free
  | shared readers =>
      have distinct := agrees.nodup readers rfl
      refine ⟨?_, ?_, ?_⟩
      · intro query
        have unwritten := agrees.writer query
        simp only [reduceCtorEq, iff_false] at unwritten
        by_cases same : query = party
        · simp [same, Lock.unlock]
        · simp [same, Lock.unlock, unwritten]
      · intro query
        have members := agrees.reader query
        simp only [Lock.shared.injEq, exists_eq_left'] at members
        by_cases same : query = party
        · simp [same, Lock.unlock, distinct.not_mem_erase]
        · simp [same, Lock.unlock, members, List.mem_erase_of_ne same]
      · intro others same
        cases same
        exact distinct.erase party

end Agrees

end LinuxSystemPrograms.RwLock
