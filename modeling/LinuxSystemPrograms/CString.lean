import LinuxSystemPrograms.CharArray
import LinuxSystemPrograms.Framing

/-!
# Strings that end where a cell is zero

A program that passes an array on as a string finds its length in the array. `strlen` has no
value where no cell is zero: there the program reads behind the array. `overlay` is what the
array holds when a string is copied to its start without an end of its own, so that a reader
sees the rest of an earlier one behind it.
-/

namespace LinuxSystemPrograms.CString

open LinuxSystemPrograms.CharArray
open LinuxSystemPrograms.Framing

set_option autoImplicit false

variable {Cell : Type*} {capacity : Nat}

/-- What the cells hold after `body` has been copied to their start. -/
def overlay (cells body : List Cell) : List Cell := body ++ cells.drop body.length

theorem memcpy_cells (array : List.Vector Cell capacity) {body : List Cell}
    (inside : 0 + body.length ≤ capacity) :
    (memcpy array 0 body inside).toList = overlay array.toList body := by
  rw [memcpy, List.Vector.toList_mk, List.take_zero, List.nil_append, Nat.zero_add, overlay]

theorem overlay_length_of_le {cells body : List Cell} (short : body.length ≤ cells.length) :
    (overlay cells body).length = cells.length := by
  rw [overlay, List.length_append, List.length_drop]
  omega

theorem overlay_eq_right {cells body : List Cell} :
    overlay cells body = body ↔ cells.length ≤ body.length := by
  rw [overlay, List.append_right_eq_self, List.drop_eq_nil_iff]

/-- What the cells hold after each of the strings. -/
def displayed : List Cell → List (List Cell) → List (List Cell)
  | _, [] => []
  | cells, body :: rest => overlay cells body :: displayed (overlay cells body) rest

@[simp] theorem displayed_length (cells : List Cell) (bodies : List (List Cell)) :
    (displayed cells bodies).length = bodies.length := by
  induction bodies generalizing cells with
  | nil => rfl
  | cons body rest ih => rw [displayed, List.length_cons, List.length_cons, ih]

theorem displayed_append (cells : List Cell) (bodies more : List (List Cell)) :
    displayed cells (bodies ++ more) =
      displayed cells bodies ++ displayed (bodies.foldl overlay cells) more := by
  induction bodies generalizing cells with
  | nil => rfl
  | cons body rest ih =>
      rw [List.cons_append, displayed, ih, displayed, List.foldl_cons, List.cons_append]

theorem displayed_concat (cells last : List Cell) (bodies : List (List Cell)) :
    displayed cells (bodies ++ [last]) =
      displayed cells bodies ++ [overlay (bodies.foldl overlay cells) last] :=
  displayed_append cells bodies [last]

/-- Every string is seen as it is exactly when none is shorter than the one before it. -/
theorem displayed_eq_self_iff (shown : List Cell) (bodies : List (List Cell)) :
    displayed shown bodies = bodies ↔
      List.IsChain (fun earlier later => earlier.length ≤ later.length) (shown :: bodies) := by
  induction bodies generalizing shown with
  | nil => simp [displayed]
  | cons body rest ih =>
      rw [displayed, List.cons.injEq, List.isChain_cons_cons, overlay_eq_right]
      apply and_congr_right
      intro longer
      rw [overlay_eq_right.mpr longer, ih]

/-! ## Where the strings end -/

/-- A zero behind `skipped` cells is still there when it stands behind the copied string. -/
theorem mem_overlay_drop {nul : Cell} {cells body : List Cell} (absent : nul ∉ body)
    (skipped : Nat) :
    nul ∈ (overlay cells body).drop skipped ↔
      nul ∈ cells.drop body.length ∧ nul ∈ cells.drop skipped := by
  have later : ∀ first second : Nat, first ≤ second → nul ∈ cells.drop second →
      nul ∈ cells.drop first := by
    intro first second ordered member
    rw [← Nat.add_sub_cancel' ordered, ← List.drop_drop] at member
    exact List.mem_of_mem_drop member
  by_cases within : skipped ≤ body.length
  · have noneBefore : nul ∉ body.drop skipped := fun member => absent (List.mem_of_mem_drop member)
    rw [overlay, List.drop_append_of_le_length within, List.mem_append, or_iff_right noneBefore]
    exact ⟨fun member => ⟨member, later _ _ within member⟩, And.left⟩
  · have beyond : body.length + (skipped - body.length) = skipped := by omega
    rw [overlay, List.drop_append, List.drop_eq_nil_of_le (by omega), List.nil_append,
      List.drop_drop, beyond]
    exact ⟨fun member => ⟨later _ _ (by omega) member, member⟩, And.right⟩

/-- A zero is left after all the strings when there is one behind the length of each. -/
theorem mem_foldl_overlay {nul : Cell} {cells : List Cell} {bodies : List (List Cell)}
    (absent : ∀ body ∈ bodies, nul ∉ body) :
    nul ∈ bodies.foldl overlay cells ↔
      nul ∈ cells ∧ ∀ body ∈ bodies, nul ∈ cells.drop body.length := by
  induction bodies generalizing cells with
  | nil => simp
  | cons body rest ih =>
      have own : nul ∉ body := absent body List.mem_cons_self
      have whole : nul ∈ overlay cells body ↔ nul ∈ cells.drop body.length ∧ nul ∈ cells :=
        mem_overlay_drop own 0
      rw [List.foldl_cons, ih fun other member => absent other (List.mem_cons_of_mem _ member),
        whole, List.forall_mem_cons]
      simp only [mem_overlay_drop own]
      constructor
      · rintro ⟨⟨behind, member⟩, others⟩
        exact ⟨member, behind, fun other listed => (others other listed).2⟩
      · rintro ⟨member, behind, others⟩
        exact ⟨⟨behind, member⟩, fun other listed => ⟨behind, others other listed⟩⟩

variable [DecidableEq Cell] {nul : Cell}

/-- The cells before the first zero. -/
def text (nul : Cell) (cells : List Cell) : List Cell := cells.takeWhile (· ≠ nul)

theorem text_of_split {body tail : List Cell} (absent : nul ∉ body) :
    text nul (body ++ nul :: tail) = body := by
  have all : ∀ cell ∈ body, decide (cell ≠ nul) = true := by
    intro cell member
    rw [decide_eq_true_iff]
    rintro rfl
    exact absent member
  rw [text, List.takeWhile_append_of_pos all, List.takeWhile_cons_of_neg (by simp),
    List.append_nil]

theorem not_mem_text (nul : Cell) (cells : List Cell) : nul ∉ text nul cells := by
  intro member
  have different := List.mem_takeWhile_imp member
  simp at different

theorem text_split {cells : List Cell} (member : nul ∈ cells) :
    ∃ tail, cells = text nul cells ++ nul :: tail := by
  obtain ⟨before, tail, split, absent⟩ := List.eq_append_cons_of_mem member
  refine ⟨tail, ?_⟩
  nth_rewrite 2 [split]
  rw [text_of_split absent, split]

/-- A zero set behind the cells ends the text at the latest there. -/
theorem text_append_nul (nul : Cell) (cells tail : List Cell) :
    text nul (cells ++ nul :: tail) = text nul cells := by
  induction cells with
  | nil => simp [text]
  | cons cell rest ih =>
      by_cases isNul : cell = nul
      · simp [text, isNul]
      · have grows : ∀ more : List Cell, text nul (cell :: more) = cell :: text nul more :=
          fun more => List.takeWhile_cons_of_pos (by simpa using isNul)
        rw [List.cons_append, grows, grows, ih]

theorem text_eq_self_iff {cells : List Cell} : text nul cells = cells ↔ nul ∉ cells := by
  rw [text, List.takeWhile_eq_self_iff]
  constructor
  · intro all member
    have different := all nul member
    simp at different
  · intro absent cell member
    rw [decide_eq_true_iff]
    rintro rfl
    exact absent member

/-- A string that is not longer than the text leaves its end where it is. -/
theorem text_overlay {cells body : List Cell} (member : nul ∈ cells) (absent : nul ∉ body)
    (short : body.length ≤ (text nul cells).length) :
    nul ∈ overlay cells body ∧ text nul (overlay cells body) = overlay (text nul cells) body := by
  obtain ⟨tail, split⟩ := text_split member
  have laid : overlay cells body = overlay (text nul cells) body ++ nul :: tail := by
    nth_rewrite 1 [split]
    rw [overlay, List.drop_append_of_le_length short, overlay, List.append_assoc]
  have free : nul ∉ overlay (text nul cells) body := by
    rw [overlay, List.mem_append, not_or]
    exact ⟨absent, fun behind => not_mem_text nul cells (List.mem_of_mem_drop behind)⟩
  rw [laid, text_of_split free]
  exact ⟨List.mem_append_right _ List.mem_cons_self, rfl⟩

/-- The index of the first zero. -/
def strlen (nul : Cell) (array : List.Vector Cell capacity) : Option Nat :=
  array.toList.findIdx? (· = nul)

/-- What `printf` shows for `%s`. -/
def string (nul : Cell) (array : List.Vector Cell capacity) : Option (List Cell) :=
  (strlen nul array).map fun length => array.toList.take length

variable {array : List.Vector Cell capacity}

theorem strlen_of_mem (member : nul ∈ array.toList) :
    strlen nul array = some (text nul array.toList).length := by
  obtain ⟨tail, split⟩ := text_split member
  have located : frameLength nul (text nul array.toList ++ [nul] ++ tail) =
      some ((text nul array.toList).length + 1) :=
    frame_length_cons_body (not_mem_text nul _)
  rw [List.append_assoc, List.singleton_append, ← split, frameLength, Option.map_eq_some_iff]
    at located
  obtain ⟨length, found, same⟩ := located
  rw [strlen, found, Nat.add_right_cancel same]

theorem strlen_of_not_mem (absent : nul ∉ array.toList) : strlen nul array = none := by
  have located : frameLength nul array.toList = none := frame_length_of_not_mem absent
  rwa [frameLength, Option.map_eq_none_iff] at located

theorem string_eq_some {line : List Cell} :
    string nul array = some line ↔ nul ∈ array.toList ∧ text nul array.toList = line := by
  by_cases member : nul ∈ array.toList
  · have shown : array.toList.take (text nul array.toList).length = text nul array.toList :=
      (List.prefix_iff_eq_take.mp (List.takeWhile_prefix _)).symm
    rw [string, strlen_of_mem member, Option.map_some, shown, Option.some.injEq]
    exact (and_iff_right member).symm
  · simp [string, strlen_of_not_mem member, member]

/-! ## Zeros up to the end of the array -/

/-- A string with zeros behind it, at least one. -/
structure Padded (nul : Cell) (capacity : Nat) (cells body : List Cell) : Prop where
  cells : cells = body ++ List.replicate (capacity - body.length) nul
  absent : nul ∉ body
  short : body.length < capacity

namespace Padded

variable {cells shown body : List Cell}

omit [DecidableEq Cell] in
theorem zeros (nul : Cell) (nonempty : 0 < capacity) :
    Padded nul capacity (List.Vector.replicate capacity nul).toList [] where
  cells := rfl
  absent := List.not_mem_nil
  short := nonempty

omit [DecidableEq Cell] in
theorem split (padded : Padded nul capacity cells body) :
    ∃ tail, cells = body ++ nul :: tail := by
  have more : capacity - body.length = capacity - body.length - 1 + 1 := by
    have := padded.short
    omega
  refine ⟨List.replicate (capacity - body.length - 1) nul, ?_⟩
  rw [← List.replicate_succ, ← more]
  exact padded.cells

theorem text (padded : Padded nul capacity cells body) : CString.text nul cells = body := by
  obtain ⟨tail, rfl⟩ := padded.split
  exact text_of_split padded.absent

omit [DecidableEq Cell] in
theorem mem (padded : Padded nul capacity cells body) : nul ∈ cells := by
  obtain ⟨tail, rfl⟩ := padded.split
  exact List.mem_append_right body List.mem_cons_self

omit [DecidableEq Cell] in
theorem overlay (padded : Padded nul capacity cells shown) (absent : nul ∉ body)
    (short : body.length < capacity) :
    Padded nul capacity (CString.overlay cells body) (CString.overlay shown body) where
  cells := by
    have size : (CString.overlay shown body).length =
        body.length + (shown.length - body.length) := by
      rw [CString.overlay, List.length_append, List.length_drop]
    have left : capacity - shown.length - (body.length - shown.length) =
        capacity - (CString.overlay shown body).length := by omega
    nth_rewrite 1 [CString.overlay, padded.cells]
    rw [List.drop_append, List.drop_replicate, left, CString.overlay, List.append_assoc]
  absent := by
    rw [CString.overlay, List.mem_append, not_or]
    exact ⟨absent, fun member => padded.absent (List.mem_of_mem_drop member)⟩
  short := by
    have bound := padded.short
    rw [CString.overlay, List.length_append, List.length_drop]
    omega

/-- On a cleared array the strings are seen as if laid over each other. -/
theorem displayed (padded : Padded nul capacity cells shown) {bodies : List (List Cell)}
    (absent : ∀ body ∈ bodies, nul ∉ body) (short : ∀ body ∈ bodies, body.length < capacity) :
    (CString.displayed cells bodies).map (CString.text nul) = CString.displayed shown bodies := by
  induction bodies generalizing cells shown with
  | nil => rfl
  | cons body rest ih =>
      rw [List.forall_mem_cons] at absent short
      have next := padded.overlay absent.1 short.1
      rw [CString.displayed, List.map_cons, next.text, ih next absent.2 short.2,
        CString.displayed]

omit [DecidableEq Cell] in
/-- The next cell of a string that is copied cell by cell. -/
theorem store (padded : Padded nul capacity array.toList body) {cell : Cell}
    (visible : cell ≠ nul) (room : body.length + 1 < capacity)
    (inside : body.length + [cell].length ≤ capacity) :
    Padded nul capacity (memcpy array body.length [cell] inside).toList (body ++ [cell]) where
  cells := by
    have behind : capacity - body.length - 1 = capacity - (body ++ [cell]).length := by
      rw [List.length_append, List.length_singleton]
      omega
    rw [memcpy, List.Vector.toList_mk, padded.cells, List.take_left' rfl, ← behind,
      List.length_singleton, List.drop_append, List.drop_eq_nil_of_le (by omega),
      List.nil_append, Nat.add_sub_cancel_left, List.drop_replicate]
  absent := by
    rw [List.mem_append, List.mem_singleton, not_or]
    exact ⟨padded.absent, visible.symm⟩
  short := by
    rw [List.length_append, List.length_singleton]
    exact room

omit [DecidableEq Cell] in
/-- The end of the string is there already. -/
theorem store_end (padded : Padded nul capacity array.toList body)
    (inside : body.length + [nul].length ≤ capacity) :
    Padded nul capacity (memcpy array body.length [nul] inside).toList body where
  cells := by
    have more : capacity - body.length = (capacity - body.length - 1) + 1 := by
      have := padded.short
      omega
    rw [memcpy, List.Vector.toList_mk, padded.cells, List.take_left' rfl,
      List.length_singleton, List.drop_append, List.drop_eq_nil_of_le (by omega),
      List.nil_append, Nat.add_sub_cancel_left, List.drop_replicate, List.append_assoc,
      List.singleton_append, ← List.replicate_succ, ← more]
  absent := padded.absent
  short := padded.short

omit [DecidableEq Cell] in
theorem cell (padded : Padded nul capacity array.toList body) {index : Nat}
    (inside : index < capacity) :
    checkedCell array index = some ((body[index]?).getD nul) := by
  have short := padded.short
  rw [checkedCell, padded.cells]
  by_cases within : index < body.length
  · rw [List.getElem?_append_left within, List.getElem?_eq_getElem within]
    rfl
  · rw [List.getElem?_append_right (by omega), List.getElem?_replicate_of_lt (by omega),
      List.getElem?_eq_none (by omega)]
    rfl

end Padded

end LinuxSystemPrograms.CString
