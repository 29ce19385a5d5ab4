import Mathlib.Data.List.DropRight

/-!
# Streams framed by a delimiter

A frame is a run of symbols that ends with the delimiter and holds it nowhere else. A
stream splits into its longest framed prefix (`complete`) and an unfinished rest
without delimiters. `drain` moves leading frames out of a buffer while they fit in the
room that is left, which is what a line server does with the bytes it has received.
-/

namespace LinuxSystemPrograms.Framing

set_option autoImplicit false

variable {Symbol : Type*}

/-- Empty, or ended by the delimiter. -/
def Framed (delimiter : Symbol) (stream : List Symbol) : Prop :=
  stream = [] ∨ ∃ body, stream = body ++ [delimiter]

theorem framed_nil (delimiter : Symbol) : Framed delimiter [] := Or.inl rfl

theorem framed_append {delimiter : Symbol} {left right : List Symbol}
    (leftFramed : Framed delimiter left) (rightFramed : Framed delimiter right) :
    Framed delimiter (left ++ right) := by
  rcases rightFramed with rfl | ⟨body, rfl⟩
  · simpa using leftFramed
  · exact Or.inr ⟨left ++ body, by simp⟩

variable [DecidableEq Symbol]

/-- The longest prefix that is empty or ends with the delimiter. -/
def complete (delimiter : Symbol) (stream : List Symbol) : List Symbol :=
  stream.rdropWhile (· ≠ delimiter)

theorem complete_prefix (delimiter : Symbol) (stream : List Symbol) :
    complete delimiter stream <+: stream :=
  List.rdropWhile_prefix _ _

/-- A framed part followed by symbols without the delimiter is the canonical split. -/
theorem complete_append_unfinished {delimiter : Symbol} {framed rest : List Symbol}
    (isFramed : Framed delimiter framed) (noDelimiter : delimiter ∉ rest) :
    complete delimiter (framed ++ rest) = framed := by
  induction rest using List.reverseRecOn with
  | nil =>
      rcases isFramed with rfl | ⟨body, rfl⟩
      · rfl
      · simp [complete, List.rdropWhile_concat_neg]
  | append_singleton rest last ih =>
      simp only [List.mem_append, List.mem_singleton, not_or] at noDelimiter
      have skips : complete delimiter (framed ++ rest ++ [last]) =
          complete delimiter (framed ++ rest) :=
        List.rdropWhile_concat_pos _ _ last (by simpa using Ne.symm noDelimiter.2)
      rw [← List.append_assoc, skips]
      exact ih noDelimiter.1

/-- `complete` is the longest: every framed prefix is a prefix of it. -/
theorem framed_prefix_of_complete {delimiter : Symbol} {framed stream : List Symbol}
    (isFramed : Framed delimiter framed) (isPrefix : framed <+: stream) :
    framed <+: complete delimiter stream := by
  obtain ⟨rest, rfl⟩ := isPrefix
  induction rest using List.reverseRecOn with
  | nil =>
      have whole : complete delimiter (framed ++ []) = framed :=
        complete_append_unfinished isFramed (by simp)
      exact ⟨[], (List.append_nil framed).trans whole.symm⟩
  | append_singleton rest last ih =>
      rw [← List.append_assoc]
      by_cases same : last = delimiter
      · have keeps : complete delimiter (framed ++ rest ++ [last]) = framed ++ rest ++ [last] :=
          List.rdropWhile_concat_neg _ _ last (by simpa using same)
        rw [keeps, List.append_assoc]
        exact List.prefix_append _ _
      · have skips : complete delimiter (framed ++ rest ++ [last]) =
            complete delimiter (framed ++ rest) :=
          List.rdropWhile_concat_pos _ _ last (by simpa using same)
        rw [skips]
        exact ih

theorem framed_iff_complete {delimiter : Symbol} {stream : List Symbol} :
    Framed delimiter stream ↔ complete delimiter stream = stream := by
  constructor
  · intro framed
    have whole : complete delimiter (stream ++ []) = stream :=
      complete_append_unfinished framed List.not_mem_nil
    rwa [List.append_nil] at whole
  · intro whole
    rcases List.eq_nil_or_concat stream with rfl | ⟨body, last, rfl⟩
    · exact framed_nil delimiter
    · rw [List.concat_eq_append] at whole ⊢
      by_cases same : last = delimiter
      · exact Or.inr ⟨body, by rw [same]⟩
      · have skips : complete delimiter (body ++ [last]) = complete delimiter body :=
          List.rdropWhile_concat_pos _ _ last (by simpa using same)
        rw [skips] at whole
        have shorter : (complete delimiter body).length ≤ body.length :=
          List.IsPrefix.length_le <| complete_prefix delimiter body
        rw [whole, List.length_append, List.length_singleton] at shorter
        omega

instance (delimiter : Symbol) (stream : List Symbol) : Decidable (Framed delimiter stream) :=
  decidable_of_iff _ framed_iff_complete.symm

/-- One past the first delimiter: the length of the first frame. -/
def frameLength (delimiter : Symbol) (stream : List Symbol) : Option Nat :=
  (stream.findIdx? (· = delimiter)).map (· + 1)

theorem frame_length_none {delimiter : Symbol} {stream : List Symbol}
    (absent : frameLength delimiter stream = none) : delimiter ∉ stream := by
  have noIndex : stream.findIdx? (· = delimiter) = none := by
    simpa [frameLength] using absent
  rw [List.findIdx?_eq_none_iff] at noIndex
  intro member
  simpa using noIndex delimiter member

theorem frame_length_of_not_mem {delimiter : Symbol} {stream : List Symbol}
    (absent : delimiter ∉ stream) : frameLength delimiter stream = none := by
  simp only [frameLength, Option.map_eq_none_iff, List.findIdx?_eq_none_iff, decide_eq_false_iff_not]
  rintro symbol member rfl
  exact absent member

@[simp] theorem frame_length_nil (delimiter : Symbol) : frameLength delimiter [] = none := rfl

theorem frame_length_cons (delimiter head : Symbol) (rest : List Symbol) :
    frameLength delimiter (head :: rest) =
      if head = delimiter then some 1 else (frameLength delimiter rest).map (· + 1) := by
  unfold frameLength
  rw [List.findIdx?_cons]
  by_cases same : head = delimiter
  · simp [same]
  · simp [same]

/-- The first frame: a body without the delimiter, then the delimiter. -/
theorem frame_length_some {delimiter : Symbol} {stream : List Symbol} {length : Nat}
    (found : frameLength delimiter stream = some length) :
    ∃ body, delimiter ∉ body ∧ length = body.length + 1 ∧
      stream = body ++ [delimiter] ++ stream.drop length := by
  obtain ⟨index, located, rfl⟩ := Option.map_eq_some_iff.mp found
  obtain ⟨bound, hit, before⟩ := List.findIdx?_eq_some_iff_getElem.mp located
  have hitEq : stream[index] = delimiter := by simpa using hit
  refine ⟨stream.take index, ?_, ?_, ?_⟩
  · intro member
    obtain ⟨position, positionBound, same⟩ := List.mem_take_iff_getElem.mp member
    have earlier := before position (by omega)
    simp [same] at earlier
  · simp [Nat.min_eq_left (Nat.le_of_lt bound)]
  · calc
      stream = stream.take (index + 1) ++ stream.drop (index + 1) := (List.take_append_drop _ _).symm
      _ = stream.take index ++ [delimiter] ++ stream.drop (index + 1) := by
        rw [List.take_add_one, List.getElem?_eq_getElem bound, hitEq]
        rfl

theorem frame_length_bounds {delimiter : Symbol} {stream : List Symbol} {length : Nat}
    (found : frameLength delimiter stream = some length) :
    0 < length ∧ length ≤ stream.length := by
  obtain ⟨body, _, rfl, split⟩ := frame_length_some found
  have lengths := congrArg List.length split
  simp only [List.length_append, List.length_singleton, List.length_drop] at lengths
  omega

theorem frame_length_cons_body {delimiter : Symbol} {body rest : List Symbol}
    (noDelimiter : delimiter ∉ body) :
    frameLength delimiter (body ++ [delimiter] ++ rest) = some (body.length + 1) := by
  induction body with
  | nil => simp [frameLength, List.findIdx?_cons]
  | cons head body ih =>
      simp only [List.mem_cons, not_or] at noDelimiter
      have step := ih noDelimiter.2
      simp only [frameLength, Option.map_eq_some_iff] at step ⊢
      obtain ⟨index, located, same⟩ := step
      refine ⟨index + 1, ?_, by simpa using same⟩
      simp only [List.append_assoc, List.singleton_append] at located
      simp [List.findIdx?_cons, Ne.symm noDelimiter.1, located]

/-- A single frame: the delimiter stands at its end and nowhere else. -/
def Frame (delimiter : Symbol) (stream : List Symbol) : Prop :=
  ∃ body, delimiter ∉ body ∧ stream = body ++ [delimiter]

omit [DecidableEq Symbol] in
/-- A prefix of a frame that holds the delimiter is the whole frame. -/
theorem frame_prefix_complete {delimiter : Symbol} {stream start rest : List Symbol}
    (frame : Frame delimiter stream) (split : start ++ rest = stream)
    (member : delimiter ∈ start) : start = stream ∧ rest = [] := by
  obtain ⟨body, noDelimiter, rfl⟩ := frame
  have noRest : rest = [] := by
    by_contra nonempty
    obtain ⟨earlier, last, rfl⟩ := (List.eq_nil_or_concat rest).resolve_left nonempty
    rw [List.concat_eq_append, ← List.append_assoc] at split
    have same := (List.append_inj' split rfl).1
    apply noDelimiter
    rw [← same]
    exact List.mem_append_left _ member
  subst noRest
  exact ⟨by rw [← split, List.append_nil], rfl⟩

/-- A stream has one first frame. -/
theorem frame_unique {delimiter : Symbol} {first second tail other : List Symbol}
    (frame : Frame delimiter first) (otherFrame : Frame delimiter second)
    (same : first ++ tail = second ++ other) : first = second := by
  obtain ⟨body, absent, rfl⟩ := frame
  obtain ⟨otherBody, otherAbsent, rfl⟩ := otherFrame
  have located : frameLength delimiter (body ++ [delimiter] ++ tail) = some (body.length + 1) :=
    frame_length_cons_body absent
  rw [same, frame_length_cons_body otherAbsent, Option.some.injEq] at located
  exact (List.append_inj same (by simp [located])).1

/-- What stands before the last delimiter, and what stands behind it. -/
theorem last_delimiter_unique {delimiter : Symbol} {before after left right : List Symbol}
    (absent : delimiter ∉ left) (otherAbsent : delimiter ∉ right)
    (same : before ++ [delimiter] ++ left = after ++ [delimiter] ++ right) :
    before = after ∧ left = right := by
  have mirrored : left.reverse ++ [delimiter] ++ before.reverse =
      right.reverse ++ [delimiter] ++ after.reverse := by
    have reversed := congrArg List.reverse same
    simpa using reversed
  have frames : left.reverse ++ [delimiter] = right.reverse ++ [delimiter] :=
    frame_unique ⟨left.reverse, by simpa using absent, rfl⟩
      ⟨right.reverse, by simpa using otherAbsent, rfl⟩ mirrored
  have lefts : left = right := List.reverse_injective (List.append_cancel_right frames)
  rw [lefts] at same
  exact ⟨List.append_cancel_right (List.append_cancel_right same), lefts⟩

theorem frame_length_frame {delimiter : Symbol} {stream : List Symbol}
    (frame : Frame delimiter stream) : frameLength delimiter stream = some stream.length := by
  obtain ⟨body, noDelimiter, rfl⟩ := frame
  have located : frameLength delimiter (body ++ [delimiter] ++ []) = some (body.length + 1) :=
    frame_length_cons_body noDelimiter
  rw [List.append_nil] at located
  rw [located, List.length_append, List.length_singleton]

theorem take_frame_framed {delimiter : Symbol} {stream : List Symbol} {length : Nat}
    (found : frameLength delimiter stream = some length) :
    Framed delimiter (stream.take length) := by
  obtain ⟨body, _, rfl, split⟩ := frame_length_some found
  refine Or.inr ⟨body, ?_⟩
  rw [split, List.take_left']
  simp

/-- No frame of the stream is longer than `frameBound`, and its unfinished rest not longer than
`restBound`. -/
structure FramesWithin (delimiter : Symbol) (frameBound restBound : Nat) (stream : List Symbol) :
    Prop where
  frame : ∀ before frame after, stream = before ++ frame ++ after → Framed delimiter before →
    Frame delimiter frame → frame.length ≤ frameBound
  rest : ∀ before rest, stream = before ++ rest → Framed delimiter before → delimiter ∉ rest →
    rest.length ≤ restBound

theorem frames_within_of_frame {delimiter : Symbol} {frameBound restBound : Nat}
    {first rest : List Symbol} (frame : Frame delimiter first) (absent : delimiter ∉ rest)
    (short : first.length ≤ frameBound) (restShort : rest.length ≤ restBound) :
    FramesWithin delimiter frameBound restBound (first ++ rest) := by
  obtain ⟨body, _, firstEq⟩ := frame
  have whole : complete delimiter (first ++ rest) = first :=
    complete_append_unfinished (Or.inr ⟨body, firstEq⟩) absent
  constructor
  · intro before other after split framed otherFrame
    obtain ⟨otherBody, _, otherEq⟩ := otherFrame
    have longer := framed_append framed (Or.inr ⟨otherBody, otherEq⟩)
    have bound := (framed_prefix_of_complete longer ⟨after, split.symm⟩).length_le
    rw [whole, List.length_append] at bound
    omega
  · intro before other split framed otherAbsent
    have same : complete delimiter (before ++ other) = before :=
      complete_append_unfinished framed otherAbsent
    rw [← split, whole] at same
    rw [same] at split
    rw [← List.append_cancel_left split]
    exact restShort

/-- What stands unfinished in front of `more` belongs to a frame that ends in `more`, or to the
rest of the stream. -/
theorem FramesWithin.pending {delimiter : Symbol} {frameBound restBound : Nat}
    {stream before part more : List Symbol}
    (within : FramesWithin delimiter frameBound restBound stream)
    (split : stream = before ++ part ++ more) (framed : Framed delimiter before)
    (absent : delimiter ∉ part) :
    part.length + 1 ≤ frameBound ∨ part.length + more.length ≤ restBound := by
  cases found : frameLength delimiter more with
  | none =>
      have unfinished := frame_length_none found
      rw [List.append_assoc] at split
      have bound := within.rest before (part ++ more) split framed (by
        rw [List.mem_append]
        exact fun member => member.elim absent unfinished)
      rw [List.length_append] at bound
      exact Or.inr bound
  | some length =>
      obtain ⟨body, noDelimiter, _, moreEq⟩ := frame_length_some found
      have frame : Frame delimiter (part ++ body ++ [delimiter]) := by
        refine ⟨part ++ body, ?_, rfl⟩
        rw [List.mem_append]
        exact fun member => member.elim absent noDelimiter
      have bound := within.frame before (part ++ body ++ [delimiter]) (more.drop length)
        (by
          rw [split]
          nth_rewrite 1 [moreEq]
          simp only [List.append_assoc]) framed frame
      simp only [List.length_append, List.length_singleton] at bound
      exact Or.inl (by omega)

/-- Moves leading frames out of `pending` while they fit in `room`; the result is what
was moved and what stays. -/
def drain (delimiter : Symbol) (room : Nat) (pending : List Symbol) :
    List Symbol × List Symbol :=
  match _found : frameLength delimiter pending with
  | none => ([], pending)
  | some length =>
      if length ≤ room then
        (pending.take length ++ (drain delimiter (room - length) (pending.drop length)).1,
          (drain delimiter (room - length) (pending.drop length)).2)
      else ([], pending)
termination_by pending.length
decreasing_by
  all_goals
    have bounds := frame_length_bounds _found
    simp only [List.length_drop]
  omega

theorem drain_append (delimiter : Symbol) (room : Nat) (pending : List Symbol) :
    (drain delimiter room pending).1 ++ (drain delimiter room pending).2 = pending := by
  fun_induction drain delimiter room pending with
  | case1 => rfl
  | case2 room pending length found fits ih =>
      rw [List.append_assoc, ih]
      exact List.take_append_drop length pending
  | case3 => rfl

theorem drain_framed (delimiter : Symbol) (room : Nat) (pending : List Symbol) :
    Framed delimiter (drain delimiter room pending).1 := by
  fun_induction drain delimiter room pending with
  | case1 => exact framed_nil delimiter
  | case2 room pending length found fits ih =>
      exact framed_append (take_frame_framed found) ih
  | case3 => exact framed_nil delimiter

/-- What stays is unfinished, or its first frame is the one that did not fit. -/
theorem drain_stops (delimiter : Symbol) (room : Nat) (pending : List Symbol) :
    delimiter ∉ (drain delimiter room pending).2 ∨
      ∃ length, frameLength delimiter (drain delimiter room pending).2 = some length ∧
        room < (drain delimiter room pending).1.length + length := by
  fun_induction drain delimiter room pending with
  | case1 room pending absent => exact Or.inl (frame_length_none absent)
  | case2 room pending length found fits ih =>
      rcases ih with noDelimiter | ⟨next, nextFound, overflow⟩
      · exact Or.inl noDelimiter
      · refine Or.inr ⟨next, nextFound, ?_⟩
        have bounds := frame_length_bounds found
        simp only [List.length_append, List.length_take]
        omega
  | case3 room pending length found tooLong =>
      exact Or.inr ⟨length, found, by simpa using tooLong⟩

/-- With room for everything pending nothing is left behind but the unfinished rest. -/
theorem drain_of_room {delimiter : Symbol} {room : Nat} {pending : List Symbol}
    (enough : pending.length ≤ room) : delimiter ∉ (drain delimiter room pending).2 := by
  rcases drain_stops delimiter room pending with noDelimiter | ⟨length, found, overflow⟩
  · exact noDelimiter
  · have bounds := frame_length_bounds found
    have split := congrArg List.length (drain_append delimiter room pending)
    simp only [List.length_append] at split
    omega

theorem drain_length_le (delimiter : Symbol) (room : Nat) (pending : List Symbol) :
    (drain delimiter room pending).1.length ≤ room := by
  fun_induction drain delimiter room pending with
  | case1 => exact Nat.zero_le _
  | case2 room pending length found fits ih =>
      simp only [List.length_append, List.length_take]
      omega
  | case3 => exact Nat.zero_le _

/-- What was moved and the first frame that stays are frames at the front. -/
theorem drain_next {delimiter : Symbol} {room : Nat} {pending : List Symbol} {length : Nat}
    (found : frameLength delimiter (drain delimiter room pending).2 = some length) :
    ∃ frames, Framed delimiter frames ∧ frames <+: pending ∧
      frames.length = (drain delimiter room pending).1.length + length := by
  have split := drain_append delimiter room pending
  have bounds := frame_length_bounds found
  refine ⟨(drain delimiter room pending).1 ++ (drain delimiter room pending).2.take length,
    framed_append (drain_framed delimiter room pending) (take_frame_framed found), ?_, ?_⟩
  · nth_rewrite 3 [← split]
    exact (List.prefix_append_right_inj _).mpr (List.take_prefix _ _)
  · rw [List.length_append, List.length_take, Nat.min_eq_left bounds.2]

theorem drain_next_le {delimiter : Symbol} {room : Nat} {pending : List Symbol} {length : Nat}
    (found : frameLength delimiter (drain delimiter room pending).2 = some length) :
    (drain delimiter room pending).1.length + length ≤ (complete delimiter pending).length := by
  obtain ⟨frames, framed, isPrefix, total⟩ := drain_next found
  rw [← total]
  exact (framed_prefix_of_complete framed isPrefix).length_le

/-- Every frame is moved exactly when all of them fit together. -/
theorem drain_finishes_iff (delimiter : Symbol) (room : Nat) (pending : List Symbol) :
    delimiter ∉ (drain delimiter room pending).2 ↔
      (complete delimiter pending).length ≤ room := by
  constructor
  · intro noDelimiter
    have whole :=
      complete_append_unfinished (drain_framed delimiter room pending) noDelimiter
    rw [drain_append] at whole
    rw [whole]
    exact drain_length_le delimiter room pending
  · intro fits
    rcases drain_stops delimiter room pending with noDelimiter | ⟨length, found, overflow⟩
    · exact noDelimiter
    · have bounded := drain_next_le found
      omega

theorem drain_of_not_mem {delimiter : Symbol} {pending : List Symbol}
    (absent : delimiter ∉ pending) (room : Nat) : drain delimiter room pending = ([], pending) := by
  rw [drain]
  split
  · rfl
  · rename_i length found
    rw [frame_length_of_not_mem absent] at found
    cases found

theorem drain_of_too_long {delimiter : Symbol} {room length : Nat} {pending : List Symbol}
    (found : frameLength delimiter pending = some length) (tooLong : room < length) :
    drain delimiter room pending = ([], pending) := by
  rw [drain]
  split
  · rfl
  · rename_i otherLength otherFound
    rw [found, Option.some.injEq] at otherFound
    rw [if_neg (by omega)]

/-- Frames that reach beyond `moved` hold the first frame behind it. -/
theorem frames_beyond {delimiter : Symbol} {moved left frames : List Symbol}
    (framed : Framed delimiter frames) (isPrefix : frames <+: moved ++ left)
    (beyond : moved.length < frames.length) :
    ∃ length, frameLength delimiter left = some length ∧
      moved.length + length ≤ frames.length := by
  obtain ⟨more, rfl⟩ : ∃ more, frames = moved ++ more :=
    (List.prefix_of_prefix_length_le (List.prefix_append moved left) isPrefix
      (Nat.le_of_lt beyond)).imp fun _ same => same.symm
  rw [List.prefix_append_right_inj] at isPrefix
  rw [List.length_append] at beyond ⊢
  have nonempty : more ≠ [] := by
    rintro rfl
    simp at beyond
  have member : delimiter ∈ more := by
    obtain ⟨earlier, last, rfl⟩ := (List.eq_nil_or_concat more).resolve_left nonempty
    obtain empty | ⟨body, whole⟩ := framed
    · simp at empty
    · rw [List.concat_eq_append, ← List.append_assoc] at whole
      have lasts := (List.append_inj' whole rfl).2
      simp [lasts]
  cases found : frameLength delimiter more with
  | none => exact absurd member (frame_length_none found)
  | some length =>
      obtain ⟨head, absent, lengthEq, moreEq⟩ := frame_length_some found
      have bounds := frame_length_bounds found
      obtain ⟨rest, rfl⟩ := isPrefix
      refine ⟨length, ?_, by omega⟩
      rw [moreEq, List.append_assoc, frame_length_cons_body absent, lengthEq]

/-- What is moved is the longest run of leading frames that fits. -/
theorem drain_longest {delimiter : Symbol} {room : Nat} {pending frames : List Symbol}
    (framed : Framed delimiter frames) (isPrefix : frames <+: pending)
    (fits : frames.length ≤ room) : frames <+: (drain delimiter room pending).1 := by
  have movedPrefix : (drain delimiter room pending).1 <+: pending :=
    ⟨_, drain_append delimiter room pending⟩
  rcases Nat.lt_or_ge (drain delimiter room pending).1.length frames.length with beyond | within
  · rw [← drain_append delimiter room pending] at isPrefix
    obtain ⟨length, found, bound⟩ := frames_beyond framed isPrefix beyond
    rcases drain_stops delimiter room pending with absent | ⟨other, otherFound, overflow⟩
    · rw [frame_length_of_not_mem absent] at found
      cases found
    · rw [found, Option.some.injEq] at otherFound
      omega
  · exact List.prefix_of_prefix_length_le isPrefix movedPrefix within

/-- The frame that did not fit would have fitted into a larger room exactly when some leading
frames have a length between the two. -/
theorem drain_gap {delimiter : Symbol} {room larger : Nat} {pending : List Symbol} :
    (∃ length, frameLength delimiter (drain delimiter room pending).2 = some length ∧
        (drain delimiter room pending).1.length + length ≤ larger) ↔
      ∃ frames, Framed delimiter frames ∧ frames <+: pending ∧ room < frames.length ∧
        frames.length ≤ larger := by
  constructor
  · rintro ⟨length, found, fits⟩
    rcases drain_stops delimiter room pending with absent | ⟨other, otherFound, overflow⟩
    · rw [frame_length_of_not_mem absent] at found
      cases found
    · rw [found, Option.some.injEq] at otherFound
      obtain ⟨frames, framed, isPrefix, total⟩ := drain_next found
      exact ⟨frames, framed, isPrefix, by omega, by omega⟩
  · rintro ⟨frames, framed, isPrefix, tooLong, fits⟩
    have short := drain_length_le delimiter room pending
    rw [← drain_append delimiter room pending] at isPrefix
    obtain ⟨length, found, bound⟩ := frames_beyond framed isPrefix (by omega)
    exact ⟨length, found, by omega⟩

/-- A frame that fits is moved as a whole. -/
theorem drain_frame {delimiter : Symbol} {room : Nat} {stream : List Symbol}
    (frame : Frame delimiter stream) (fits : stream.length ≤ room) :
    drain delimiter room stream = (stream, []) := by
  have located := frame_length_frame frame
  rw [drain]
  split
  · rename_i absent
    rw [located] at absent
    cases absent
  · rename_i length found
    rw [located, Option.some.injEq] at found
    subst found
    rw [if_pos fits, List.take_length, List.drop_length, drain_of_not_mem (by simp),
      List.append_nil]

end LinuxSystemPrograms.Framing
