import LinuxSystemPrograms.Framing

/-!
# Output streams of the C library

What `printf` is given reaches the descriptor up to the last newline if the stream is a
terminal, and not before the stream is flushed otherwise. The buffer is taken to be larger
than what is printed.
-/

namespace LinuxSystemPrograms.Stdio

open LinuxSystemPrograms.Framing

set_option autoImplicit false

inductive Buffering where
  | line
  | full
  deriving DecidableEq, Repr

structure Stream (Cell : Type*) where
  buffering : Buffering
  pending : List Cell
  deriving DecidableEq, Repr

namespace Stream

variable {Cell : Type*}

def empty (buffering : Buffering) : Stream Cell := ⟨buffering, []⟩

/-- The cells that are written to the descriptor, and the stream behind. -/
def printf [DecidableEq Cell] (newline : Cell) (stream : Stream Cell) (text : List Cell) :
    List Cell × Stream Cell :=
  match stream.buffering with
  | .line =>
      let whole := stream.pending ++ text
      let written := complete newline whole
      (written, { stream with pending := whole.drop written.length })
  | .full => ([], { stream with pending := stream.pending ++ text })

def flush (stream : Stream Cell) : List Cell × Stream Cell :=
  (stream.pending, { stream with pending := [] })

variable [DecidableEq Cell]

/-- Nothing is lost and nothing is written twice. -/
theorem printf_written (newline : Cell) (stream : Stream Cell) (text : List Cell) :
    (stream.printf newline text).1 ++ (stream.printf newline text).2.pending =
      stream.pending ++ text := by
  unfold printf
  split
  · exact List.prefix_iff_eq_append.mp <| complete_prefix newline (stream.pending ++ text)
  · rfl

/-- On a terminal whole lines are written at once. -/
theorem printf_line {newline : Cell} {stream : Stream Cell} {text : List Cell}
    (terminal : stream.buffering = .line) (idle : stream.pending = [])
    (framed : Framed newline text) :
    stream.printf newline text = (text, stream) := by
  obtain ⟨buffering, pending⟩ := stream
  subst idle terminal
  simp only [printf, List.nil_append, framed_iff_complete.mp framed, List.drop_length]

theorem printf_full {newline : Cell} {stream : Stream Cell} {text : List Cell}
    (buffered : stream.buffering = .full) :
    stream.printf newline text = ([], { stream with pending := stream.pending ++ text }) := by
  simp only [printf, buffered]

end Stream

end LinuxSystemPrograms.Stdio
