import LinuxSystemPrograms.Transition

/-!
# What the runs of a system show

`logged` sets the lines that the steps of a run have shown beside its state. A function that
accepts lines one at a time says what may be shown: `lines_accepted` is the direction from the
runs to the lines, `lines_shown_ahead` the other one, where what a run does before it shows a
line may depend on the lines behind that line.
-/

namespace LinuxSystemPrograms.Transcripts

open LinuxSystemPrograms.Transition

set_option autoImplicit false

variable {State Label Line Position : Type*}

structure Logged (State Line : Type*) where
  state : State
  lines : List Line
  deriving DecidableEq, Repr

def logged (system : System State Label) (shows : State → Label → List Line) :
    System (Logged State Line) Label where
  init entry := system.init entry.state ∧ entry.lines = []
  step entry label after := system.step entry.state label after.state ∧
    after.lines = entry.lines ++ shows entry.state label

def loggedNext (next : State → Label → Option State) (shows : State → Label → List Line)
    (entry : Logged State Line) (label : Label) : Option (Logged State Line) :=
  (next entry.state label).map fun after => ⟨after, entry.lines ++ shows entry.state label⟩

variable {system : System State Label} {shows : State → Label → List Line}

theorem logged_next_sound {next : State → Label → Option State}
    (sound : ∀ state label after, next state label = some after → system.step state label after)
    (entry : Logged State Line) (label : Label) (after : Logged State Line)
    (result : loggedNext next shows entry label = some after) :
    (logged system shows).step entry label after := by
  obtain ⟨state, stepped, rfl⟩ := Option.map_eq_some_iff.mp result
  exact ⟨sound _ _ _ stepped, rfl⟩

theorem reachable_logged_state {entry : Logged State Line}
    (reached : Reachable (logged system shows) entry) : Reachable system entry.state := by
  have begins : ∀ entry : Logged State Line, (logged system shows).init entry →
      system.init entry.state := fun _ initial => initial.1
  apply reachable_map Logged.state begins _ reached
  intro before label after _ taken
  exact Or.inr ⟨label, taken.1⟩

variable {accept : Position → Line → Option Position} {start : Position}

/-- The lines of a run are accepted if those of each step are. -/
theorem lines_accepted {At : State → Position → Prop}
    (initial : ∀ state, system.init state → At state start)
    (answers : ∀ state label after position, Reachable system state → At state position →
      system.step state label after →
        ∃ later, run accept position (shows state label) = some later ∧ At after later)
    {entry : Logged State Line} (reached : Reachable (logged system shows) entry) :
    ∃ position, run accept start entry.lines = some position ∧ At entry.state position := by
  have base : ∀ entry : Logged State Line, (logged system shows).init entry →
      ∃ position, run accept start entry.lines = some position ∧ At entry.state position := by
    rintro entry ⟨begins, empty⟩
    rw [empty]
    exact ⟨start, rfl, initial _ begins⟩
  apply reachable_invariant base _ reached
  rintro before label after prior ⟨position, accepted, stands⟩ ⟨taken, lines⟩
  obtain ⟨later, further, standsLater⟩ :=
    answers _ label _ position (reachable_logged_state prior) stands taken
  refine ⟨later, ?_, standsLater⟩
  rw [lines, run_append, accepted, Option.bind_some]
  exact further

theorem shown_from {At : State → Position → List Line → Prop}
    (goesOn : ∀ (entry : Logged State Line) position line later rest,
      Reachable (logged system shows) entry → At entry.state position (line :: rest) →
      accept position line = some later →
        ∃ state, Reachable (logged system shows) ⟨state, entry.lines ++ [line]⟩ ∧
          At state later rest)
    {rest : List Line} {entry : Logged State Line} {position last : Position}
    (reached : Reachable (logged system shows) entry) (stands : At entry.state position rest)
    (accepted : run accept position rest = some last) :
    ∃ state, Reachable (logged system shows) ⟨state, entry.lines ++ rest⟩ ∧ At state last [] := by
  induction rest generalizing entry position with
  | nil =>
      cases accepted
      rw [List.append_nil]
      exact ⟨entry.state, reached, stands⟩
  | cons line rest ih =>
      rw [run, Option.bind_eq_some_iff] at accepted
      obtain ⟨later, stepped, further⟩ := accepted
      obtain ⟨state, extended, standsLater⟩ :=
        goesOn entry position line later rest reached stands stepped
      obtain ⟨final, whole, ends⟩ := ih extended standsLater further
      rw [List.append_assoc, List.singleton_append] at whole
      exact ⟨final, whole, ends⟩

/-- Accepted lines are those of a run, if a run that stands at a position with the lines that
are still to come can go on to show the first of them. -/
theorem lines_shown_ahead {At : State → Position → List Line → Prop}
    (begins : ∀ lines, ∃ state, system.init state ∧ At state start lines)
    (goesOn : ∀ (entry : Logged State Line) position line later rest,
      Reachable (logged system shows) entry → At entry.state position (line :: rest) →
      accept position line = some later →
        ∃ state, Reachable (logged system shows) ⟨state, entry.lines ++ [line]⟩ ∧
          At state later rest)
    {lines : List Line} {position : Position}
    (accepted : run accept start lines = some position) :
    ∃ state, Reachable (logged system shows) ⟨state, lines⟩ ∧ At state position [] := by
  obtain ⟨state, initial, stands⟩ := begins lines
  have reached : Reachable (logged system shows) ⟨state, []⟩ := .start ⟨initial, rfl⟩
  exact shown_from goesOn reached stands accepted

/-- The same where a run can go on without looking ahead. -/
theorem lines_shown {At : State → Position → Prop}
    (begins : ∃ state, system.init state ∧ At state start)
    (goesOn : ∀ (entry : Logged State Line) position line later,
      Reachable (logged system shows) entry → At entry.state position →
      accept position line = some later →
        ∃ state, Reachable (logged system shows) ⟨state, entry.lines ++ [line]⟩ ∧ At state later)
    {lines : List Line} {position : Position}
    (accepted : run accept start lines = some position) :
    ∃ state, Reachable (logged system shows) ⟨state, lines⟩ ∧ At state position :=
  @lines_shown_ahead _ _ _ _ _ _ _ _ (fun state position _ => At state position)
    (fun _ => begins) (fun entry position line later _ => goesOn entry position line later) _ _
    accepted

end LinuxSystemPrograms.Transcripts
