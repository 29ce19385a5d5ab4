import LinuxSystemPrograms.Interpolation
import LinuxSystemPrograms.StressClient
import Mathlib.Data.Rat.Floor

/-!
# The latency percentiles of the stress client

`percentile_ms` sorts a copy of the samples and interpolates between two neighbours. A `double`
is an exact rational here. `none` is an index outside the sorted array, or a conversion to
`size_t` that has no value.
-/

namespace LinuxSystemPrograms.StressClientPercentile

open LinuxSystemPrograms.Interpolation
open LinuxSystemPrograms.StressClient

set_option autoImplicit false

def compareUint64 (x y : UInt64) : Int := if x < y then -1 else if x > y then 1 else 0

/-- `qsort` by `compare_uint64`. -/
def sortSamples (samples : List UInt64) : List UInt64 :=
  samples.mergeSort fun x y => decide (compareUint64 x y ≤ 0)

def toDouble (value : UInt64) : Rat := value.toNat

def toSize (pos : Rat) : Option Nat := if -1 < pos then some ⌊pos⌋₊ else none

def percentileMs (stats : Stats) (percentile : Rat) : Option Rat :=
  if stats.latencies.length = 0 then some 0
  else do
    let tmp := sortSamples stats.latencies
    let pos := percentile / 100 * (stats.latencies.length - 1 : Nat)
    let index ← toSize pos
    let fraction := pos - index
    let a ← tmp[index]?
    let b ← if index + 1 < stats.latencies.length then tmp[index + 1]? else some a
    return (toDouble a + (toDouble b - toDouble a) * fraction) / 1000000

/-! ## The sorted samples -/

theorem compare_uint64_le_zero {x y : UInt64} : compareUint64 x y ≤ 0 ↔ x ≤ y := by
  unfold compareUint64
  split_ifs with less greater
  · simp [UInt64.le_of_lt less]
  · simp [UInt64.not_le.mpr greater]
  · simp [UInt64.not_lt.mp greater]

theorem sort_samples_perm (samples : List UInt64) : (sortSamples samples).Perm samples :=
  List.mergeSort_perm _ _

theorem sort_samples_sorted (samples : List UInt64) :
    (sortSamples samples).Pairwise (· ≤ ·) := by
  have sorted : (sortSamples samples).Pairwise
      fun x y => decide (compareUint64 x y ≤ 0) = true := by
    apply List.pairwise_mergeSort
    · intro x y z
      simp only [decide_eq_true_iff, compare_uint64_le_zero]
      exact UInt64.le_trans
    · intro x y
      simp only [Bool.or_eq_true, decide_eq_true_iff, compare_uint64_le_zero]
      exact UInt64.le_total x y
  apply sorted.imp
  intro x y ordered
  exact compare_uint64_le_zero.mp (of_decide_eq_true ordered)

/-- The sorted array does not show in which order the samples came. -/
theorem sort_samples_eq {samples others : List UInt64} (perm : samples.Perm others) :
    sortSamples samples = sortSamples others := by
  have same : (sortSamples samples).Perm (sortSamples others) :=
    ((sort_samples_perm samples).trans perm).trans (sort_samples_perm others).symm
  exact List.Perm.eq_of_pairwise (fun _ _ _ _ => UInt64.le_antisymm)
    (sort_samples_sorted samples) (sort_samples_sorted others) same

theorem to_double_le {x y : UInt64} : toDouble x ≤ toDouble y ↔ x ≤ y := by
  rw [toDouble, toDouble, Nat.cast_le, UInt64.le_iff_toNat_le]

def doubles (samples : List UInt64) : List Rat := (sortSamples samples).map toDouble

@[simp] theorem doubles_length (samples : List UInt64) :
    (doubles samples).length = samples.length := by
  rw [doubles, List.length_map, (sort_samples_perm samples).length_eq]

theorem doubles_ne_nil {samples : List UInt64} (nonempty : samples ≠ []) :
    doubles samples ≠ [] := by
  rw [← List.length_pos_iff, doubles_length]
  exact List.length_pos_iff.mpr nonempty

theorem doubles_sorted (samples : List UInt64) : (doubles samples).Pairwise (· ≤ ·) := by
  rw [doubles, List.pairwise_map]
  exact (sort_samples_sorted samples).imp to_double_le.mpr

theorem doubles_get (samples : List UInt64) (index : Nat) :
    (doubles samples)[index]? = (sortSamples samples)[index]?.map toDouble :=
  List.getElem?_map

theorem mem_doubles {samples : List UInt64} {value : Rat} :
    value ∈ doubles samples ↔ ∃ sample ∈ samples, toDouble sample = value := by
  rw [doubles, List.mem_map]
  simp only [(sort_samples_perm samples).mem_iff]

/-! ## The percentiles -/

def position (samples : List UInt64) (percentile : Rat) : Rat :=
  percentile / 100 * (samples.length - 1 : Nat)

theorem position_bounds (samples : List UInt64) {percentile : Rat} (from0 : 0 ≤ percentile)
    (to100 : percentile ≤ 100) :
    0 ≤ position samples percentile ∧ position samples percentile ≤ (samples.length - 1 : Nat) := by
  have share : 0 ≤ percentile / 100 := by linarith
  have whole : percentile / 100 ≤ 1 := by linarith
  have last : (0 : Rat) ≤ (samples.length - 1 : Nat) := Nat.cast_nonneg _
  exact ⟨mul_nonneg share last, mul_le_of_le_one_left last whole⟩

theorem position_mono (samples : List UInt64) {low high : Rat} (ordered : low ≤ high) :
    position samples low ≤ position samples high := by
  have share : low / 100 ≤ high / 100 := by linarith
  exact mul_le_mul_of_nonneg_right share (Nat.cast_nonneg _)

/-- The percentile as a function of its position, in milliseconds. -/
def atPosition (samples : List UInt64) (nonempty : samples ≠ []) (pos : Rat) : Rat :=
  interpolate (extended (doubles samples) (doubles_ne_nil nonempty)) pos / 1000000

/-- Both indices are inside the array, and behind its end stands the last value again. -/
theorem percentile_ms_eq {stats : Stats} (nonempty : stats.latencies ≠ []) {percentile : Rat}
    (from0 : 0 ≤ percentile) (to100 : percentile ≤ 100) :
    percentileMs stats percentile =
      some (atPosition stats.latencies nonempty (position stats.latencies percentile)) := by
  obtain ⟨nonneg, bounded⟩ := position_bounds stats.latencies from0 to100
  have some : 0 < stats.latencies.length := List.length_pos_iff.mpr nonempty
  have notBelow : -1 < position stats.latencies percentile := by linarith
  have inside : ⌊position stats.latencies percentile⌋₊ < stats.latencies.length := by
    have floor := Nat.floor_le_of_le bounded
    omega
  have cells : ∀ index, index < stats.latencies.length →
      ∃ sample, (sortSamples stats.latencies)[index]? = Option.some sample ∧
        toDouble sample =
          extended (doubles stats.latencies) (doubles_ne_nil nonempty) index := by
    intro index indexInside
    have found := extended_inside (doubles_ne_nil nonempty)
      (indexInside.trans_eq (doubles_length stats.latencies).symm)
    rw [doubles_get, Option.map_eq_some_iff] at found
    exact found
  obtain ⟨a, aFound, aEq⟩ := cells _ inside
  have pos : percentile / 100 * (stats.latencies.length - 1 : Nat) =
      position stats.latencies percentile := rfl
  simp only [percentileMs, if_neg some.ne', pos, toSize, if_pos notBelow, Option.bind_eq_bind,
    Option.bind_some, aFound]
  by_cases more : ⌊position stats.latencies percentile⌋₊ + 1 < stats.latencies.length
  · obtain ⟨b, bFound, bEq⟩ := cells _ more
    rw [if_pos more, bFound, Option.bind_some, aEq, bEq]
    rfl
  · have last : (doubles stats.latencies).length ≤
        ⌊position stats.latencies percentile⌋₊ + 1 := by
      rw [doubles_length]
      omega
    have behind := extended_behind (doubles_ne_nil nonempty) last
    rw [if_neg more, aEq]
    simp only [atPosition, interpolate, behind]
    rfl

def toMs (sample : UInt64) : Rat := toDouble sample / 1000000

def Extremes (samples : List UInt64) (smallest largest : UInt64) : Prop :=
  smallest ∈ samples ∧ largest ∈ samples ∧
    ∀ sample ∈ samples, smallest ≤ sample ∧ sample ≤ largest

/-- The ends of the array that is interpolated are such samples. -/
theorem exists_extremes {samples : List UInt64} (nonempty : samples ≠ []) :
    ∃ smallest largest, Extremes samples smallest largest ∧
      extended (doubles samples) (doubles_ne_nil nonempty) 0 = toDouble smallest ∧
      extended (doubles samples) (doubles_ne_nil nonempty) (samples.length - 1) =
        toDouble largest := by
  obtain ⟨smallest, least, first⟩ :=
    mem_doubles.mp (extended_mem (doubles samples) (doubles_ne_nil nonempty) 0)
  obtain ⟨largest, greatest, last⟩ := mem_doubles.mp
    (extended_mem (doubles samples) (doubles_ne_nil nonempty) (samples.length - 1))
  refine ⟨smallest, largest, ⟨least, greatest, ?_⟩, first.symm, last.symm⟩
  intro sample member
  have bounds := extended_bounds (doubles_ne_nil nonempty) (doubles_sorted samples)
    (mem_doubles.mpr ⟨sample, member, rfl⟩)
  rwa [doubles_length, ← first, ← last, to_double_le, to_double_le] at bounds

theorem at_position_mono {samples : List UInt64} (nonempty : samples ≠ []) {low high : Rat}
    (nonneg : 0 ≤ low) (ordered : low ≤ high) :
    atPosition samples nonempty low ≤ atPosition samples nonempty high := by
  have grows := extended_mono (doubles_ne_nil nonempty) (doubles_sorted samples)
  have values := interpolate_mono grows nonneg ordered
  unfold atPosition
  linarith

/-- The percentiles of samples in any order grow from the smallest sample to the largest. -/
theorem percentiles_ordered {stats : Stats} (nonempty : stats.latencies ≠ []) {p q : Rat}
    (from0 : 0 ≤ p) (ordered : p ≤ q) (to100 : q ≤ 100) :
    ∃ smallest largest low high, Extremes stats.latencies smallest largest ∧
      percentileMs stats p = some low ∧ percentileMs stats q = some high ∧
      toMs smallest ≤ low ∧ low ≤ high ∧ high ≤ toMs largest ∧
      percentileMs stats 0 = some (toMs smallest) ∧
      percentileMs stats 100 = some (toMs largest) ∧
      ∀ other : Stats, other.latencies.Perm stats.latencies →
        percentileMs other p = percentileMs stats p := by
  obtain ⟨smallest, largest, extremes, first, last⟩ := exists_extremes nonempty
  have start : atPosition stats.latencies nonempty (position stats.latencies 0) =
      toMs smallest := by
    have zero : position stats.latencies 0 = (0 : Nat) := by simp [position]
    rw [atPosition, zero, interpolate_index, first, toMs]
  have stop : atPosition stats.latencies nonempty (position stats.latencies 100) =
      toMs largest := by
    have whole : position stats.latencies 100 = (stats.latencies.length - 1 : Nat) := by
      simp [position]
    rw [atPosition, whole, interpolate_index, last, toMs]
  have grows : ∀ low high : Rat, 0 ≤ low → low ≤ high →
      atPosition stats.latencies nonempty (position stats.latencies low) ≤
        atPosition stats.latencies nonempty (position stats.latencies high) := by
    intro low high nonneg lowHigh
    apply at_position_mono
    · rw [position]
      positivity
    · exact position_mono stats.latencies lowHigh
  refine ⟨smallest, largest, _, _, extremes,
    percentile_ms_eq nonempty from0 (ordered.trans to100),
    percentile_ms_eq nonempty (from0.trans ordered) to100, ?_, ?_, ?_, ?_, ?_, ?_⟩
  · rw [← start]
    exact grows 0 p (le_refl 0) from0
  · exact grows p q from0 ordered
  · rw [← stop]
    exact grows q 100 (from0.trans ordered) to100
  · rw [← start]
    exact percentile_ms_eq nonempty (le_refl 0) (by norm_num)
  · rw [← stop]
    exact percentile_ms_eq nonempty (by norm_num) (le_refl 100)
  · intro other perm
    rw [percentileMs, percentileMs, perm.length_eq, sort_samples_eq perm]

def twoSamples : Stats := recordLatency (recordLatency (statsInit 2) 5000000) 3000000

theorem percentiles_ordered_two_samples :
    ∃ smallest largest low high, Extremes twoSamples.latencies smallest largest ∧
      percentileMs twoSamples 50 = some low ∧ percentileMs twoSamples 95 = some high ∧
      toMs smallest ≤ low ∧ low ≤ high ∧ high ≤ toMs largest ∧
      percentileMs twoSamples 0 = some (toMs smallest) ∧
      percentileMs twoSamples 100 = some (toMs largest) ∧
      ∀ other : Stats, other.latencies.Perm twoSamples.latencies →
        percentileMs other 50 = percentileMs twoSamples 50 :=
  percentiles_ordered (by decide) (by norm_num) (by norm_num) (by norm_num)

end LinuxSystemPrograms.StressClientPercentile
