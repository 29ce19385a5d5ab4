import LinuxSystemPrograms.Sockets
import LinuxSystemPrograms.Transition
import Mathlib.Logic.Function.Basic
import Mathlib.Tactic.SplitIfs

/-!
# `pthread_create.c`

A label says which thread makes its next step: one read or write of `flag` or `running`, or
one read or print of `BUF`. `thread_input` tells the end of the input with two writes,
`flag = 1` and then `running = 0`, and `thread_echo` leaves when it has seen both; it also
takes `flag = 1` for a line and resets it.
-/

namespace LinuxSystemPrograms.PthreadCreate

open LinuxSystemPrograms.Sockets
open LinuxSystemPrograms.Transition

set_option autoImplicit false

def bufLen : Nat := 1024

/-- `length` is the result of `read`. -/
inductive InputPlace where
  | testFlag
  | read
  | setFlag (length : Nat)
  | clearRunning
  | exited
  deriving DecidableEq, Repr

inductive EchoPlace where
  | testRunning
  | testFlag
  | loopFlag
  | print
  | clearFlag
  | exited
  deriving DecidableEq, Repr

/-- `buf` is what stands in `BUF` before the terminating zero. -/
structure State where
  buf : List Byte
  flag : Bool
  running : Bool
  input : InputPlace
  echo : EchoPlace
  printed : List (List Byte)
  deriving DecidableEq, Repr

def text (buf : List Byte) : List Byte := buf.takeWhile (· ≠ 0)

/-- `bytes` is what `read` can return; it is looked at in the step that reads. -/
inductive Label where
  | input (bytes : List Byte)
  | echo
  deriving DecidableEq, Repr

def advance (state : State) : Label → Option State
  | .input bytes =>
      match state.input with
      | .testFlag =>
          if state.flag = false then some { state with input := .read } else some state
      | .read =>
          let buf := bytes.take (bufLen - 1)
          some { state with buf := buf, input := .setFlag buf.length }
      | .setFlag length =>
          some { state with
            flag := true
            input := if length = 0 then .clearRunning else .testFlag }
      | .clearRunning => some { state with running := false, input := .exited }
      | .exited => none
  | .echo =>
      match state.echo with
      | .testRunning =>
          some { state with echo := if state.running = false then .testFlag else .loopFlag }
      | .testFlag => some { state with echo := if state.flag = true then .exited else .loopFlag }
      | .loopFlag => some { state with echo := if state.flag = true then .print else .testRunning }
      | .print => some { state with echo := .clearFlag, printed := state.printed ++ [text state.buf] }
      | .clearFlag => some { state with flag := false, echo := .loopFlag }
      | .exited => none

def boot : State where
  buf := []
  flag := false
  running := true
  input := .testFlag
  echo := .testRunning
  printed := []

def system : System State Label where
  init state := state = boot
  step state label after := advance state label = some after

/-- `thread_echo` can never leave its loop. -/
def Stranded (state : State) : Prop :=
  state.input = .exited ∧ state.echo ≠ .exited ∧ state.flag = false

instance (state : State) : Decidable (Stranded state) :=
  inferInstanceAs (Decidable (_ ∧ _ ∧ _))

def InputOver (state : State) : Prop :=
  state.input = .clearRunning ∨ state.input = .exited

instance (state : State) : Decidable (InputOver state) :=
  inferInstanceAs (Decidable (_ ∨ _))

/-- The inner loop of `thread_echo` does not take the end of the input for a line. -/
def Recognized (state : State) (label : Label) : Prop :=
  ¬ (label = .echo ∧ InputOver state ∧ state.echo = .loopFlag ∧ state.flag = true)

instance (state : State) (label : Label) : Decidable (Recognized state label) :=
  inferInstanceAs (Decidable (¬ _))

/-- `thread_echo` is behind its test of `flag`, and going to reset it. -/
def Resetting (state : State) : Prop :=
  state.echo = .print ∨ state.echo = .clearFlag

/-- While `thread_input` reads, there is no line to print. -/
structure Sound (state : State) : Prop where
  reading : state.input = .read → state.flag = false
  setting : ∀ length, state.input = .setFlag length → state.flag = false
  resetting : Resetting state → state.flag = true

theorem boot_sound : Sound boot where
  reading _ := rfl
  setting _ _ := rfl
  resetting resetting := by rcases resetting with print | clear <;> contradiction

theorem input_sound {state after : State} {bytes : List Byte} (sound : Sound state)
    (advanced : advance state (.input bytes) = some after) : Sound after := by
  obtain ⟨buf, flag, running, input, echo, printed⟩ := state
  have resetting := sound.resetting
  cases input with
  | testFlag =>
      simp only [advance] at advanced
      split_ifs at advanced with empty
      · cases advanced
        exact ⟨fun _ => empty, fun _ setting => InputPlace.noConfusion setting, resetting⟩
      · cases advanced
        exact sound
  | read =>
      cases advanced
      exact ⟨fun reading => InputPlace.noConfusion reading, fun _ _ => sound.reading rfl, resetting⟩
  | setFlag length =>
      cases advanced
      refine ⟨?_, ?_, fun _ => rfl⟩
      · intro reading
        simp only at reading
        split_ifs at reading
      · intro other setting
        simp only at setting
        split_ifs at setting
  | clearRunning =>
      cases advanced
      exact ⟨fun reading => InputPlace.noConfusion reading,
        fun _ setting => InputPlace.noConfusion setting, resetting⟩
  | exited => cases advanced

theorem echo_sound {state after : State} (sound : Sound state)
    (advanced : advance state .echo = some after) : Sound after := by
  obtain ⟨buf, flag, running, input, echo, printed⟩ := state
  cases echo with
  | testRunning =>
      cases advanced
      refine ⟨sound.reading, sound.setting, ?_⟩
      simp only [Resetting]
      split_ifs <;> simp
  | testFlag =>
      cases advanced
      refine ⟨sound.reading, sound.setting, ?_⟩
      simp only [Resetting]
      split_ifs <;> simp
  | loopFlag =>
      cases advanced
      refine ⟨sound.reading, sound.setting, ?_⟩
      simp only [Resetting]
      split_ifs with full
      · exact fun _ => full
      · simp
  | print =>
      cases advanced
      exact ⟨sound.reading, sound.setting, fun _ => sound.resetting (Or.inl rfl)⟩
  | clearFlag =>
      cases advanced
      refine ⟨fun _ => rfl, fun _ _ => rfl, ?_⟩
      simp [Resetting]
  | exited => cases advanced

theorem step_sound {state after : State} {label : Label} (sound : Sound state)
    (advanced : advance state label = some after) : Sound after := by
  cases label with
  | input bytes => exact input_sound sound advanced
  | echo => exact echo_sound sound advanced

/-- The reset of `flag` has swallowed the end of the input, or is about to. -/
def Swallowed (state : State) : Prop :=
  InputOver state ∧ state.echo ≠ .exited ∧ (state.flag = false ∨ Resetting state)

theorem input_swallowed {state after : State} {bytes : List Byte} (sound : Sound state)
    (advanced : advance state (.input bytes) = some after) :
    Swallowed after ↔ Swallowed state := by
  obtain ⟨buf, flag, running, input, echo, printed⟩ := state
  cases input with
  | testFlag =>
      simp only [advance] at advanced
      split_ifs at advanced <;> cases advanced
      · simp [Swallowed, InputOver]
      · rfl
  | read =>
      cases advanced
      simp [Swallowed, InputOver]
  | setFlag length =>
      -- nobody is behind a test that has found the old `flag` set
      have empty := sound.setting length rfl
      have notResetting : ¬ (echo = .print ∨ echo = .clearFlag) := fun resetting => by
        rw [sound.resetting resetting] at empty
        cases empty
      cases advanced
      simp [Swallowed, InputOver, Resetting, notResetting]
  | clearRunning =>
      cases advanced
      simp [Swallowed, InputOver, Resetting]
  | exited => cases advanced

theorem echo_swallowed {state after : State} (advanced : advance state .echo = some after) :
    Swallowed after ↔ Swallowed state ∨ ¬ Recognized state .echo := by
  obtain ⟨buf, flag, running, input, echo, printed⟩ := state
  cases echo with
  | testRunning =>
      cases advanced
      cases running <;> simp [Swallowed, InputOver, Resetting, Recognized]
  | testFlag =>
      cases advanced
      cases flag <;> simp [Swallowed, InputOver, Resetting, Recognized]
  | loopFlag =>
      cases advanced
      rw [Recognized, not_not]
      cases flag <;> simp [Swallowed, InputOver, Resetting]
  | print =>
      cases advanced
      simp [Swallowed, InputOver, Resetting, Recognized]
  | clearFlag =>
      cases advanced
      simp [Swallowed, InputOver, Resetting, Recognized]
  | exited => cases advanced

theorem step_swallowed {state after : State} {label : Label} (sound : Sound state)
    (advanced : advance state label = some after) :
    Swallowed after ↔ Swallowed state ∨ ¬ Recognized state label := by
  cases label with
  | input bytes =>
      rw [input_swallowed sound advanced]
      simp [Recognized]
  | echo => exact echo_swallowed advanced

theorem boot_unswallowed : ¬ Swallowed boot := by
  rintro ⟨ended | ended, _⟩ <;> cases ended

theorem reachable_sound {state : State} (reached : Reachable system state) : Sound state := by
  apply reachable_invariant _ _ reached
  · rintro _ rfl
    exact boot_sound
  · intro state label after _ sound taken
    exact step_sound sound taken

theorem guarded_unswallowed {state : State}
    (reached : Reachable (guarded system Recognized) state) : ¬ Swallowed state := by
  apply guarded_not_breached _ _ reached
  · rintro _ rfl
    exact boot_unswallowed
  · intro state label after prior taken
    exact step_swallowed (reachable_sound prior) taken

/-- `flag` is never set again, and the test for leaving needs it. -/
theorem stranded_forever {state after : State} {label : Label} (stranded : Stranded state)
    (advanced : advance state label = some after) : Stranded after := by
  obtain ⟨exited, looping, empty⟩ := stranded
  obtain ⟨buf, flag, running, input, echo, printed⟩ := state
  simp only at exited looping empty
  subst exited empty
  cases label with
  | input bytes => cases advanced
  | echo =>
      cases echo with
      | exited => exact absurd rfl looping
      | testRunning =>
          cases advanced
          cases running <;> simp [Stranded]
      | testFlag | loopFlag | print | clearFlag =>
          cases advanced
          simp [Stranded]

/-- `thread_echo` is never left behind in a run in which it recognizes the end of the input;
in every other run in which `thread_input` exits it is, once it has reset `flag`. -/
theorem never_stranded_iff_recognized (state : State) :
    (Reachable (guarded system Recognized) state → ¬ Stranded state) ∧
      ∀ labels, run advance boot labels = some state → state.input = .exited →
        ¬ Resetting state →
          (¬ Stranded state ↔
            run (guardedNext advance Recognized) boot labels = some state) := by
  constructor
  · rintro reached ⟨exited, looping, empty⟩
    exact guarded_unswallowed reached ⟨Or.inr exited, looping, Or.inl empty⟩
  · intro labels result exited settled
    have whole := run_guarded_iff (fun _ _ _ => step_sound) (fun _ _ _ => step_swallowed)
      boot_sound result
    rw [and_iff_right boot_unswallowed] at whole
    rw [← whole]
    simp [Stranded, Swallowed, InputOver, exited, settled]

/-- The input is empty, and `thread_echo` runs only when `thread_input` has exited. -/
theorem never_stranded_iff_recognized_empty_input :
    ∃ state, run advance boot
        [.input [], .input [], .input [], .input [], .echo, .echo] = some state ∧
      state.input = .exited ∧ ¬ Stranded state := by
  refine ⟨_, rfl, rfl, ?_⟩
  refine ((never_stranded_iff_recognized _).2
    [.input [], .input [], .input [], .input [], .echo, .echo] rfl rfl ?_).mpr rfl
  rintro (print | clear)
  · cases print
  · cases clear

/-- The input is empty; `thread_echo` prints it between the two writes. -/
theorem empty_input_strands_echo : ¬ ∀ state, Reachable system state → ¬ Stranded state := by
  intro never
  have sound : ∀ state label after, advance state label = some after →
      system.step state label after := fun _ _ _ taken => taken
  obtain ⟨state, reached, stranded⟩ := exists_reachable_of_run sound rfl
    [.input [], .input [], .input [], .echo, .echo, .echo, .echo, .input []] Stranded
    (by decide +kernel)
  exact never state reached stranded

end LinuxSystemPrograms.PthreadCreate
