import LinuxSystemPrograms.StressClientBytes
import LinuxSystemPrograms.StressClientExit
import LinuxSystemPrograms.StressClientPercentile
import Mathlib.Algebra.BigOperators.Ring.Finset

/-!
# The progress bar and the final report of the stress client

`Screen` is the main loop with what it prints. A `double` is an exact rational here, as in
`percentile_ms`.
-/

namespace LinuxSystemPrograms.StressClientReport

open LinuxSystemPrograms.Interpolation
open LinuxSystemPrograms.Sockets
open LinuxSystemPrograms.StressClient
open LinuxSystemPrograms.StressClientAccounting
open LinuxSystemPrograms.StressClientBytes
open LinuxSystemPrograms.StressClientExit
open LinuxSystemPrograms.StressClientIdentity
open LinuxSystemPrograms.StressClientPercentile
open LinuxSystemPrograms.Transition

set_option autoImplicit false

def progressWidth : Nat := 40

/-- The line that `print_progress` writes: the cells of the bar, and the number behind it. -/
structure Progress where
  bar : List Byte
  percent : Rat
  deriving DecidableEq

/-- `'#'` -/
def full : Byte := 35

/-- `'-'` -/
def empty : Byte := 45

def toInt (value : Rat) : Int := if 0 ≤ value then ⌊value⌋ else ⌈value⌉

def printProgress (completed total : UInt64) : Progress :=
  let percent := if total > 0 then toDouble completed / toDouble total * 100 else 0
  let percent := if percent > 100 then 100 else percent
  let filled := toInt (percent / 100 * progressWidth)
  let filled : Int := if filled > progressWidth then progressWidth else filled
  { bar := (List.range progressWidth).map fun (i : Nat) => if (i : Int) < filled then full else empty
    percent := percent }

structure Report where
  completed : UInt64
  failed : UInt64
  rps : Rat
  throughput : Rat
  avgMs : Rat
  p50 : Rat
  p95 : Rat
  p99 : Rat
  bytesSent : UInt64
  bytesReceived : UInt64
  elapsed : Rat

/-- The end of `main`; `seconds` is what `elapsed_seconds` returns. -/
def report (stats : Stats) (seconds : Rat) : Option Report := do
  let elapsed := if seconds ≤ 0 then 1 / 1000000000 else seconds
  let avgMs := if stats.completed > 0
    then toDouble stats.latencySumNs / toDouble stats.completed / 1000000 else 0
  let p50 ← percentileMs stats 50
  let p95 ← percentileMs stats 95
  let p99 ← percentileMs stats 99
  return {
    completed := stats.completed
    failed := stats.failed
    rps := toDouble stats.completed / elapsed
    throughput := toDouble stats.bytesReceived / elapsed / 1024 / 1024
    avgMs := avgMs
    p50 := p50
    p95 := p95
    p99 := p99
    bytesSent := stats.bytesSent
    bytesReceived := stats.bytesReceived
    elapsed := elapsed }

/-- `progress` are the lines written so far. -/
structure Screen (count : Nat) where
  world : World count
  lastProgress : UInt64
  progress : List Progress

namespace Screen

variable {count : Nat}

def refresh (total : UInt64) (screen : Screen count) : Screen count :=
  if screen.world.stats.completed ≠ screen.lastProgress then
    { screen with
      progress := screen.progress ++ [printProgress screen.world.stats.completed total]
      lastProgress := screen.world.stats.completed }
  else screen

/-- `continue` and `break` skip the end of the loop body when `poll` has failed. -/
def advance (requests : UInt64) (screen : Screen count) (label : Label count) :
    Option (Screen count) :=
  (screen.world.advance requests label).map fun world =>
    match label with
    | .connect _ _ => { screen with world := world }
    | .pass answers =>
        match answers.poll with
        | .error _ => { screen with world := world }
        | .ok _ => refresh (UInt64.ofNat count * requests) { screen with world := world }

/-- The line behind the loop, unless a signal has stopped it. -/
def lastLine (total : UInt64) (screen : Screen count) : Option Progress :=
  if screen.world.stopRequested then none
  else some (printProgress screen.world.stats.completed total)

def boot (count : Nat) (requests : UInt64) : Screen count :=
  ⟨World.boot count requests, 0, []⟩

def system (count : Nat) (requests : UInt64) : System (Screen count) (Label count) where
  init screen := screen = boot count requests
  step screen label after :=
    Honest screen.world label ∧ screen.advance requests label = some after

def next (requests : UInt64) (screen : Screen count) (label : Label count) :
    Option (Screen count) :=
  if Honest screen.world label then screen.advance requests label else none

theorem next_sound (requests : UInt64) (screen : Screen count) (label : Label count)
    (after : Screen count) (result : next requests screen label = some after) :
    (system count requests).step screen label after := by
  unfold next at result
  split_ifs at result with honest
  exact ⟨honest, result⟩

end Screen

/-! ## The bar -/

theorem bar_cells {width filled : Nat} (within : filled ≤ width) :
    ((List.range width).map fun (i : Nat) => if (i : Int) < filled then full else empty) =
      List.replicate filled full ++ List.replicate (width - filled) empty := by
  apply List.ext_getElem
  · simp [within]
  · intro index inside _
    simp only [List.length_map, List.length_range] at inside
    simp only [List.getElem_map, List.getElem_range, List.getElem_append, List.length_replicate,
      List.getElem_replicate, Nat.cast_lt]
    split_ifs <;> rfl

/-- A cell is filled for each fortieth of the requests that is complete. -/
def cells (completed total : Nat) : Nat := progressWidth * completed / total

theorem cells_le {completed total : Nat} (bound : completed ≤ total) :
    cells completed total ≤ progressWidth :=
  Nat.div_le_of_le_mul (by rw [Nat.mul_comm total]; exact Nat.mul_le_mul_left _ bound)

def line (completed total : Nat) : Progress where
  bar := List.replicate (cells completed total) full ++
    List.replicate (progressWidth - cells completed total) empty
  percent := (completed : Rat) / total * 100

theorem print_progress_eq {completed total : UInt64} (positive : 0 < total)
    (bound : completed ≤ total) :
    printProgress completed total = line completed.toNat total.toNat := by
  have below := UInt64.le_iff_toNat_le.mp bound
  have some : (0 : Rat) < toDouble total := by
    rw [toDouble, Nat.cast_pos]
    exact UInt64.lt_iff_toNat_lt.mp positive
  have part : toDouble completed / toDouble total ≤ 1 :=
    div_le_one_of_le₀ (to_double_le.mpr bound) some.le
  have notOver : ¬ toDouble completed / toDouble total * 100 > 100 := by linarith
  have position : toDouble completed / toDouble total * 100 / 100 * progressWidth =
      ((progressWidth * completed.toNat : Nat) : Rat) / (total.toNat : Nat) := by
    rw [mul_div_cancel_right₀ _ (by norm_num), toDouble, toDouble, Nat.cast_mul]
    ring
  have whole : toInt (toDouble completed / toDouble total * 100 / 100 * progressWidth) =
      (cells completed.toNat total.toNat : Nat) := by
    rw [position, toInt, if_pos (by positivity), Rat.floor_natCast_div_natCast, cells,
      Int.natCast_ediv]
  have width := cells_le below
  have inside : ¬ ((cells completed.toNat total.toNat : Nat) : Int) > progressWidth := by omega
  simp only [printProgress, if_pos (show total > 0 from positive), if_neg notOver, whole,
    if_neg inside, bar_cells width]
  rfl

theorem line_all {total : Nat} (positive : 0 < total) :
    line total total = ⟨List.replicate progressWidth full, 100⟩ := by
  have whole : cells total total = progressWidth := Nat.mul_div_cancel _ positive
  have share : (total : Rat) / total * 100 = 100 := by
    rw [div_self (Nat.cast_ne_zero.mpr positive.ne'), one_mul]
  rw [line, whole, share, Nat.sub_self, List.replicate_zero, List.append_nil]

/-! ## The numbers of the report -/

theorem extremes_unique {samples : List UInt64} {smallest largest other otherLargest : UInt64}
    (extremes : Extremes samples smallest largest)
    (others : Extremes samples other otherLargest) : smallest = other ∧ largest = otherLargest := by
  obtain ⟨least, greatest, bounds⟩ := extremes
  obtain ⟨otherLeast, otherGreatest, otherBounds⟩ := others
  constructor
  · exact UInt64.le_antisymm (bounds other otherLeast).1 (otherBounds smallest least).1
  · exact UInt64.le_antisymm (otherBounds largest greatest).2 (bounds otherLargest otherGreatest).2

theorem at_position_between {samples : List UInt64} (nonempty : samples ≠ [])
    {smallest largest : UInt64} (extremes : Extremes samples smallest largest) {pos : Rat}
    (nonneg : 0 ≤ pos) (bounded : pos ≤ (samples.length - 1 : Nat)) :
    toMs smallest ≤ atPosition samples nonempty pos ∧
      atPosition samples nonempty pos ≤ toMs largest := by
  obtain ⟨least, greatest, ends, first, last⟩ := exists_extremes nonempty
  obtain ⟨rfl, rfl⟩ := extremes_unique extremes ends
  have start : atPosition samples nonempty (0 : Nat) = toMs smallest := by
    rw [atPosition, interpolate_index, first, toMs]
  have stop : atPosition samples nonempty (samples.length - 1 : Nat) = toMs largest := by
    rw [atPosition, interpolate_index, last, toMs]
  constructor
  · rw [← start]
    apply at_position_mono
    · simp
    · simpa using nonneg
  · rw [← stop]
    exact at_position_mono nonempty nonneg bounded

/-- The three percentiles exist and are in order, between the extreme samples. -/
theorem percentiles_read (stats : Stats) :
    ∃ p50 p95 p99, percentileMs stats 50 = some p50 ∧ percentileMs stats 95 = some p95 ∧
      percentileMs stats 99 = some p99 ∧ p50 ≤ p95 ∧ p95 ≤ p99 ∧
      ∀ smallest largest, Extremes stats.latencies smallest largest →
        toMs smallest ≤ p50 ∧ p99 ≤ toMs largest := by
  by_cases nonempty : stats.latencies = []
  · have none : ∀ percentile, percentileMs stats percentile = some 0 := by
      intro percentile
      rw [percentileMs, nonempty]
      rfl
    refine ⟨0, 0, 0, none 50, none 95, none 99, le_refl 0, le_refl 0, ?_⟩
    rintro smallest largest ⟨member, _⟩
    rw [nonempty] at member
    exact absurd member List.not_mem_nil
  · have grows : ∀ low high : Rat, 0 ≤ low → low ≤ high →
        atPosition stats.latencies nonempty (position stats.latencies low) ≤
          atPosition stats.latencies nonempty (position stats.latencies high) := by
      intro low high nonneg ordered
      apply at_position_mono
      · rw [position]
        positivity
      · exact position_mono stats.latencies ordered
    refine ⟨_, _, _, percentile_ms_eq nonempty (by norm_num) (by norm_num),
      percentile_ms_eq nonempty (by norm_num) (by norm_num),
      percentile_ms_eq nonempty (by norm_num) (by norm_num), grows 50 95 (by norm_num) (by norm_num),
      grows 95 99 (by norm_num) (by norm_num), ?_⟩
    intro smallest largest extremes
    have between : ∀ percentile : Rat, 0 ≤ percentile → percentile ≤ 100 →
        toMs smallest ≤ atPosition stats.latencies nonempty (position stats.latencies percentile) ∧
          atPosition stats.latencies nonempty (position stats.latencies percentile) ≤
            toMs largest := by
      intro percentile from0 to100
      obtain ⟨nonneg, bounded⟩ := position_bounds stats.latencies from0 to100
      exact at_position_between nonempty extremes nonneg bounded
    exact ⟨(between 50 (by norm_num) (by norm_num)).1, (between 99 (by norm_num) (by norm_num)).2⟩

/-- An average lies between the extremes, as long as the sum has not wrapped. -/
theorem average_between {samples : List UInt64} {smallest largest : UInt64}
    (extremes : Extremes samples smallest largest) :
    toMs smallest ≤
        ((samples.map UInt64.toNat).sum : Rat) / samples.length / 1000000 ∧
      ((samples.map UInt64.toNat).sum : Rat) / samples.length / 1000000 ≤ toMs largest := by
  obtain ⟨least, _, bounds⟩ := extremes
  have some : (0 : Rat) < samples.length := by
    rw [Nat.cast_pos, List.length_pos_iff]
    exact List.ne_nil_of_mem least
  have below := List.card_nsmul_le_sum (samples.map UInt64.toNat) smallest.toNat (by
    intro value member
    obtain ⟨sample, known, rfl⟩ := List.mem_map.mp member
    exact UInt64.le_iff_toNat_le.mp (bounds sample known).1)
  have above := List.sum_le_card_nsmul (samples.map UInt64.toNat) largest.toNat (by
    intro value member
    obtain ⟨sample, known, rfl⟩ := List.mem_map.mp member
    exact UInt64.le_iff_toNat_le.mp (bounds sample known).2)
  rw [List.length_map, nsmul_eq_mul, Nat.cast_id] at below above
  have least' : toDouble smallest ≤ ((samples.map UInt64.toNat).sum : Rat) / samples.length := by
    rw [le_div_iff₀ some, toDouble, mul_comm]
    exact_mod_cast below
  have greatest' : ((samples.map UInt64.toNat).sum : Rat) / samples.length ≤ toDouble largest := by
    rw [div_le_iff₀ some, toDouble, mul_comm]
    exact_mod_cast above
  constructor
  · exact div_le_div_of_nonneg_right least' (by norm_num)
  · exact div_le_div_of_nonneg_right greatest' (by norm_num)

/-! ## Whole runs -/

variable {count : Nat} {requests : UInt64}

theorem reachable_accounted (product : count * requests.toNat < 2 ^ 64)
    (positive : 0 < requests.toNat) {world : World count}
    (reached : Reachable (system count requests) world) :
    ∃ pending, Accounted requests pending world := by
  have head := reachable_head product positive reached
  by_cases starting : world.phase = .starting
  · exact ⟨_, head.starting starting⟩
  · exact ⟨_, head.looping starting⟩

structure AddsUp (requests : UInt64) (world : World count) (samples : List UInt64) : Prop where
  completed : world.stats.completed.toNat = samples.length
  latencies : world.stats.latencies = samples.take 1000000
  latencySum : world.stats.latencySumNs.toNat = (samples.map UInt64.toNat).sum % 2 ^ 64
  bytesSent : world.stats.bytesSent.toNat =
    ∑ index, sentBy (world.clients index) (world.nextSequence index)
  answered : ∑ index, requestBytes (completedBy world index) ≤ world.stats.bytesReceived.toNat
  collected : world.stats.bytesReceived.toNat ≤
    bufSize * ∑ index, (world.nextSequence index).toNat

theorem total_to_nat (product : count * requests.toNat < 2 ^ 64) :
    (UInt64.ofNat count * requests).toNat = count * requests.toNat := by
  rw [UInt64.toNat_mul, UInt64.toNat_ofNat', Nat.mod_mul_mod, Nat.mod_eq_of_lt product]

theorem samples_le {world : World count} {pending : List (Fin count)} {samples : List UInt64}
    (accounted : Accounted requests pending world) (adds : Adds requests world samples) :
    world.stats.completed.toNat = samples.length ∧ samples.length ≤ count * requests.toNat := by
  obtain ⟨_, billed⟩ := adds
  have bound := sum_le_requests accounted.bounded
  have counted := billed.counted
  exact ⟨accounted.completed.trans counted.symm, by omega⟩

/-- With room for every byte the counters have not wrapped. -/
theorem adds_up (room : bufSize * (count * requests.toNat) < 2 ^ 64) {world : World count}
    {pending : List (Fin count)} {samples : List UInt64}
    (accounted : Accounted requests pending world) (adds : Adds requests world samples) :
    AddsUp requests world samples := by
  obtain ⟨completed, few⟩ := samples_le accounted adds
  have product : count * requests.toNat < 2 ^ 64 :=
    Nat.lt_of_le_of_lt (Nat.le_mul_of_pos_left _ (by decide)) room
  obtain ⟨received, billed⟩ := adds
  have most : ∑ index, (world.nextSequence index).toNat ≤ count * requests.toNat := by
    have each := Finset.sum_le_card_nsmul Finset.univ (fun index => (world.nextSequence index).toNat)
      requests.toNat fun index _ => (billed.ledger index).bound
    simpa using each
  have sentMost : ∑ index, sentBy (world.clients index) (world.nextSequence index) ≤
      bufSize * ∑ index, (world.nextSequence index).toNat := by
    rw [Finset.mul_sum]
    exact Finset.sum_le_sum fun index _ =>
      (billed.ledger index).sentMost.trans (request_bytes_le _)
  have receivedMost : ∑ index, received index ≤
      bufSize * ∑ index, (world.nextSequence index).toNat := by
    rw [Finset.mul_sum]
    exact Finset.sum_le_sum fun index _ => (billed.ledger index).receivedMost
  have receivedLeast : ∑ index, requestBytes (completedBy world index) ≤
      ∑ index, received index :=
    Finset.sum_le_sum fun index _ =>
      (Nat.le_add_right _ _).trans (billed.ledger index).receivedLeast
  have scaled := Nat.mul_le_mul_left bufSize most
  have bytesReceived : world.stats.bytesReceived.toNat = ∑ index, received index := by
    rw [billed.bytesReceived, UInt64.toNat_ofNat', Nat.mod_eq_of_lt (by omega)]
  constructor
  · exact completed
  · have capacity := accounted.capacity
    have total := total_to_nat product
    have large : UInt64.ofNat count * requests > 1000000 ↔ 1000000 < count * requests.toNat := by
      rw [← total]
      exact UInt64.lt_iff_toNat_lt
    rw [billed.sampled.latencies, capacity, statsInit]
    simp only [large, total]
    split_ifs with more
    · rfl
    · rw [List.take_of_length_le few, List.take_of_length_le (by omega)]
  · exact billed.sampled.sum
  · rw [billed.bytesSent, UInt64.toNat_ofNat', Nat.mod_eq_of_lt (by omega)]
  · rw [bytesReceived]
    exact receivedLeast
  · rw [bytesReceived]
    exact receivedMost

/-- When all is done every request has been sent, and its response has come back. -/
theorem bytes_of_success (product : count * requests.toNat < 2 ^ 64) {world : World count}
    {samples : List UInt64} (accounted : Accounted requests [] world)
    (adds : Adds requests world samples) (addsUp : AddsUp requests world samples)
    (noFailure : world.stats.failed = 0) (noSignal : world.stopRequested = false)
    (stopped : ¬ world.Running) :
    world.stats.bytesSent.toNat = count * requestBytes requests.toNat ∧
      count * requestBytes requests.toNat ≤ world.stats.bytesReceived.toNat := by
  obtain ⟨_, billed⟩ := adds
  have done := all_completed product accounted noFailure noSignal stopped
  have each : ∀ index, sentBy (world.clients index) (world.nextSequence index) =
      requestBytes requests.toNat := by
    intro index
    have ledger := billed.ledger index
    have started := ledger.started
    have bound := ledger.bound
    rw [done index] at started
    have last : world.nextSequence index = requests :=
      UInt64.toNat_inj.mp (Nat.le_antisymm bound started)
    rw [ledger.sent_all ((done index).trans last.symm), last]
  have answered := addsUp.answered
  simp only [completedBy, done, Finset.sum_const, Finset.card_univ, Fintype.card_fin,
    nsmul_eq_mul, Nat.cast_id] at answered
  constructor
  · rw [addsUp.bytesSent]
    simp only [each, Finset.sum_const, Finset.card_univ, Fintype.card_fin, nsmul_eq_mul,
      Nat.cast_id]
  · exact answered

structure Reads (samples : List UInt64) (result : Report) : Prop where
  ordered : result.p50 ≤ result.p95 ∧ result.p95 ≤ result.p99
  percentiles : ∀ smallest largest, Extremes (samples.take 1000000) smallest largest →
    toMs smallest ≤ result.p50 ∧ result.p99 ≤ toMs largest
  average : ∀ smallest largest, Extremes samples smallest largest →
    (samples.map UInt64.toNat).sum < 2 ^ 64 →
      toMs smallest ≤ result.avgMs ∧ result.avgMs ≤ toMs largest

theorem report_reads {world : World count} {samples : List UInt64}
    (addsUp : AddsUp requests world samples) (seconds : Rat) :
    ∃ result, report world.stats seconds = some result ∧ Reads samples result := by
  obtain ⟨p50, p95, p99, is50, is95, is99, low, high, between⟩ := percentiles_read world.stats
  refine ⟨_, by simp only [report, is50, is95, is99, Option.bind_eq_bind, Option.bind_some]; rfl,
    ⟨low, high⟩, ?_, ?_⟩
  · rw [addsUp.latencies] at between
    exact between
  · intro smallest largest extremes unwrapped
    have some : 0 < samples.length := List.length_pos_of_mem extremes.1
    have positive : world.stats.completed > 0 := by
      rw [gt_iff_lt, UInt64.lt_iff_toNat_lt, addsUp.completed]
      exact some
    have sum := addsUp.latencySum
    rw [Nat.mod_eq_of_lt unwrapped] at sum
    simp only [if_pos positive, toDouble, sum, addsUp.completed]
    exact average_between extremes

/-! ## The lines on the screen -/

/-- The lines are those of growing numbers of completed requests, up to the last one shown. -/
structure Shown (total : UInt64) (screen : Screen count) (counts : List UInt64) : Prop where
  lines : screen.progress = counts.map fun completed => printProgress completed total
  grows : counts.Pairwise (· < ·)
  bounds : ∀ completed ∈ counts, 0 < completed ∧ completed ≤ screen.lastProgress
  last : counts.getLast?.getD 0 = screen.lastProgress

theorem Shown.refresh {total : UInt64} {screen : Screen count} {counts : List UInt64}
    (shown : Shown total screen counts)
    (ordered : screen.lastProgress ≤ screen.world.stats.completed) :
    ∃ more, Shown total (screen.refresh total) more ∧
      (screen.refresh total).lastProgress = (screen.refresh total).world.stats.completed := by
  unfold Screen.refresh
  split_ifs with changed
  · have less : screen.lastProgress < screen.world.stats.completed :=
      UInt64.lt_of_le_of_ne ordered (Ne.symm changed)
    refine ⟨counts ++ [screen.world.stats.completed], ?_, rfl⟩
    constructor
    · simp only [List.map_append, List.map_singleton, shown.lines]
    · rw [List.pairwise_append]
      refine ⟨shown.grows, List.pairwise_singleton _ _, ?_⟩
      intro earlier member later isLast
      rw [List.mem_singleton] at isLast
      rw [isLast]
      exact UInt64.lt_of_le_of_lt (shown.bounds earlier member).2 less
    · intro completed member
      rcases List.mem_append.mp member with earlier | isLast
      · have bounds := shown.bounds completed earlier
        exact ⟨bounds.1, UInt64.le_trans bounds.2 ordered⟩
      · rw [List.mem_singleton] at isLast
        rw [isLast]
        exact ⟨UInt64.lt_of_le_of_lt (UInt64.zero_le) less, UInt64.le_refl _⟩
    · simp
  · exact ⟨counts, shown, (Classical.not_not.mp changed).symm⟩

/-- The world behind the screen takes no part in the lines. -/
theorem Shown.restate {total : UInt64} {screen : Screen count} {counts : List UInt64}
    (shown : Shown total screen counts) (world : World count) :
    Shown total { screen with world := world } counts :=
  ⟨shown.lines, shown.grows, shown.bounds, shown.last⟩

theorem advance_world {screen after : Screen count} {label : Label count}
    (advanced : screen.advance requests label = some after) :
    screen.world.advance requests label = some after.world := by
  obtain ⟨world, result, shows⟩ := Option.map_eq_some_iff.mp advanced
  rw [result, ← shows]
  cases label with
  | connect connected interrupt => rfl
  | pass answers =>
      simp only
      split
      · rfl
      · unfold Screen.refresh
        split_ifs <;> rfl

theorem screen_world {screen : Screen count}
    (reached : Reachable (Screen.system count requests) screen) :
    Reachable (system count requests) screen.world := by
  apply reachable_map Screen.world _ _ reached
  · rintro _ rfl
    rfl
  · intro state label after _ taken
    exact Or.inr ⟨label, taken.1, advance_world taken.2⟩

theorem connect_all_completed {world after : World count} {connected : Fin count → Except Errno Fd}
    (result : world.connectAll connected = some after) :
    after.stats.completed = world.stats.completed := by
  apply for_each_keeps (fun _ now => now.stats.completed = world.stats.completed) _
    (List.nodup_finRange count) rfl result
  intro index rest now served _ same body
  cases body
  unfold World.put Seat.connect World.seat
  cases connected index with
  | error reason => exact same
  | ok fd => exact same

theorem pass_without_poll {pending : List (Fin count)} {world after : World count}
    {answers : PassAnswers count} {reason : Errno} (accounted : Accounted requests pending world)
    (fails : answers.poll = .error reason) (result : world.pass requests answers = some after) :
    after.stats = world.stats := by
  unfold World.pass at result
  rw [set_up_all_same accounted, Option.bind_some, fails] at result
  split at result
  · cases result
    rfl
  · cases result
    rfl
  · cases ‹_ = Except.ok _›

/-- The last line shown is that of the present count. -/
def Current (requests : UInt64) (screen : Screen count) : Prop :=
  screen.lastProgress = screen.world.stats.completed ∧
    ∃ counts, Shown (UInt64.ofNat count * requests) screen counts

theorem step_current (product : count * requests.toNat < 2 ^ 64) (positive : 0 < requests.toNat)
    {screen after : Screen count} {label : Label count}
    (reached : Reachable (system count requests) screen.world) (current : Current requests screen)
    (taken : (Screen.system count requests).step screen label after) : Current requests after := by
  obtain ⟨honest, advanced⟩ := taken
  obtain ⟨last, counts, shown⟩ := current
  obtain ⟨samples, adds⟩ := reachable_adds product positive reached
  obtain ⟨pending, accounted⟩ := reachable_accounted product positive reached
  obtain ⟨world, result, shows⟩ := Option.map_eq_some_iff.mp advanced
  have stepped : (system count requests).step screen.world label world := ⟨honest, result⟩
  obtain ⟨more, grown⟩ := step_adds product positive reached adds stepped
  obtain ⟨_, afterAccounted⟩ := reachable_accounted product positive (.next label reached stepped)
  have ordered : screen.lastProgress ≤ world.stats.completed := by
    rw [last, UInt64.le_iff_toNat_le, (samples_le accounted adds).1,
      (samples_le afterAccounted grown).1, List.length_append]
    exact Nat.le_add_right _ _
  rw [← shows]
  cases label with
  | connect connected interrupt =>
      simp only [World.advance] at result
      split_ifs at result
      obtain ⟨opened, connects, rfl⟩ := Option.map_eq_some_iff.mp result
      exact ⟨last.trans (connect_all_completed connects).symm, counts, shown.restate _⟩
  | pass answers =>
      simp only
      split
      · rename_i reason fails
        simp only [World.advance] at result
        split_ifs at result
        obtain ⟨passed, passes, rfl⟩ := Option.map_eq_some_iff.mp result
        have same := pass_without_poll accounted fails passes
        refine ⟨?_, counts, shown.restate _⟩
        simp only [same]
        exact last
      · obtain ⟨later, refreshed, equal⟩ := (shown.restate world).refresh ordered
        exact ⟨equal, later, refreshed⟩

theorem reachable_current (product : count * requests.toNat < 2 ^ 64)
    (positive : 0 < requests.toNat) {screen : Screen count}
    (reached : Reachable (Screen.system count requests) screen) : Current requests screen := by
  apply reachable_invariant _ _ reached
  · rintro _ rfl
    refine ⟨rfl, [], rfl, List.Pairwise.nil, ?_, rfl⟩
    exact fun completed member => absurd member List.not_mem_nil
  · intro state label after prior current taken
    exact step_current product positive (screen_world prior) current taken

/-- The lines shown so far, by the numbers of completed requests they stand for. -/
structure Displays (requests : UInt64) (screen : Screen count) (counts : List Nat) : Prop where
  lines : screen.progress = counts.map fun completed => line completed (count * requests.toNat)
  grows : counts.Pairwise (· < ·)
  last : counts.getLast?.getD 0 = screen.world.stats.completed.toNat

theorem displays_of_current (product : count * requests.toNat < 2 ^ 64) {screen : Screen count}
    (few : screen.world.stats.completed.toNat ≤ count * requests.toNat)
    (current : Current requests screen) : ∃ counts, Displays requests screen counts := by
  obtain ⟨last, counts, shown⟩ := current
  have total := total_to_nat product
  refine ⟨counts.map UInt64.toNat, ?_, ?_, ?_⟩
  · rw [shown.lines, List.map_map]
    apply List.map_congr_left
    intro completed member
    obtain ⟨positive, bound⟩ := shown.bounds completed member
    have below : completed ≤ UInt64.ofNat count * requests := by
      rw [last] at bound
      have bound' := UInt64.le_iff_toNat_le.mp bound
      rw [UInt64.le_iff_toNat_le, total]
      omega
    have some : 0 < UInt64.ofNat count * requests := UInt64.lt_of_lt_of_le positive below
    rw [print_progress_eq some below, total]
    rfl
  · rw [List.pairwise_map]
    exact shown.grows.imp UInt64.lt_iff_toNat_lt.mp
  · rw [← last, ← shown.last, List.getLast?_map]
    cases counts.getLast? <;> rfl

/-- Whatever the kernel and the server do, the bar only grows, a cell for each fortieth that is
complete; the report counts every byte that the clients moved, and its times lie between the
extreme latencies, the average as long as the sum of them has not wrapped. When the condition
of the loop has ended it (not a failed `poll`), a success has sent every request, and received
as much. The `malloc` of `percentile_ms` succeeds. -/
theorem report_adds_up (requests : UInt64) (positive : 0 < requests.toNat)
    (room : bufSize * (count * requests.toNat) < 2 ^ 64) {screen : Screen count}
    (reached : Reachable (Screen.system count requests) screen) :
    ∃ samples counts, AddsUp requests screen.world samples ∧ Displays requests screen counts ∧
      (∀ seconds, ∃ result, report screen.world.stats seconds = some result ∧
        Reads samples result) ∧
      (screen.world.phase = .looping → ¬ screen.world.Running →
        exitStatus screen.world false = .success →
          (0 < count → screen.lastLine (UInt64.ofNat count * requests) =
              some ⟨List.replicate progressWidth full, 100⟩) ∧
            screen.world.stats.bytesSent.toNat = count * requestBytes requests.toNat ∧
            count * requestBytes requests.toNat ≤ screen.world.stats.bytesReceived.toNat) := by
  have product : count * requests.toNat < 2 ^ 64 :=
    Nat.lt_of_le_of_lt (Nat.le_mul_of_pos_left _ (by decide)) room
  have worldReached := screen_world reached
  obtain ⟨samples, adds⟩ := reachable_adds product positive worldReached
  obtain ⟨pending, accounted⟩ := reachable_accounted product positive worldReached
  have addsUp := adds_up room accounted adds
  obtain ⟨completed, few⟩ := samples_le accounted adds
  obtain ⟨counts, displays⟩ := displays_of_current product (by omega)
    (reachable_current product positive reached)
  refine ⟨samples, counts, addsUp, displays, report_reads addsUp, ?_⟩
  intro looping stopped success
  obtain ⟨noFailure, noSignal, _⟩ := (exit_success_iff _ _).mp success
  have head := (reachable_head product positive worldReached).looping (by rw [looping]; simp)
  have bytes := bytes_of_success product head adds addsUp noFailure noSignal stopped
  refine ⟨?_, bytes⟩
  intro clients
  have all : screen.world.stats.completed = UInt64.ofNat count * requests := by
    have done := all_completed product head noFailure noSignal stopped
    apply UInt64.toNat_inj.mp
    rw [total_to_nat product, head.completed]
    simp only [completedBy, done, Finset.sum_const, Finset.card_univ, Fintype.card_fin,
      nsmul_eq_mul, Nat.cast_id]
  have some : 0 < count * requests.toNat := Nat.mul_pos clients positive
  have total : 0 < UInt64.ofNat count * requests := by
    rw [UInt64.lt_iff_toNat_lt, total_to_nat product]
    exact some
  rw [Screen.lastLine, if_neg (by simp [noSignal]), all,
    print_progress_eq total (UInt64.le_refl _), total_to_nat product, line_all some]

theorem report_adds_up_one_request :
    ∃ screen : Screen 1, Reachable (Screen.system 1 1) screen ∧
      screen.lastLine 1 = some ⟨List.replicate progressWidth full, 100⟩ ∧
        screen.world.stats.bytesSent.toNat = 1 * requestBytes 1 := by
  obtain ⟨screen, reached, looping, stopped, success⟩ :=
    exists_reachable_of_run (Screen.next_sound 1) rfl oneRequest
      (fun screen : Screen 1 => screen.world.phase = .looping ∧ ¬ screen.world.Running ∧
        exitStatus screen.world false = .success)
      (by decide +kernel)
  obtain ⟨_, _, _, _, _, ends⟩ := report_adds_up 1 (by decide) (by decide) reached
  obtain ⟨lastLine, bytes, _⟩ := ends looping stopped success
  exact ⟨screen, reached, lastLine (by decide), bytes⟩

end LinuxSystemPrograms.StressClientReport
