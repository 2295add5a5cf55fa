import Mathlib.Data.Rat.Floor
import Mathlib.Tactic.FieldSimp
import Mathlib.Tactic.Linarith
import Mathlib.Tactic.Positivity
import BibiCore.Base.Rounding
import BibiCore.Stt.Conversion

/-!
# Linear interpolation

`_resample`, `stt/utils/audio.py:87`. What it computes in floating point, the rounded length and
the interpolated samples, is a parameter; `exact` computes them in rational numbers.
-/

namespace BibiCore.Stt

open Rounding

/-- The floating-point arithmetic of `_resample`. -/
structure Arithmetic where
  /-- `round(duration * to_rate)`, from the number of samples and the two rates -/
  rounded : Nat → Int → Int → Int
  /-- the sample at the given of so many new times -/
  sampleAt : List Sample → Int → Nat → Nat → Sample

/-- The resampled audio: one sample for each of `new_times`. -/
def Arithmetic.interpolation (arithmetic : Arithmetic) : Interpolation :=
  fun samples fromRate toRate ↦
    let newLen := (max 1 (arithmetic.rounded samples.length fromRate toRate)).toNat
    (List.range newLen).map (arithmetic.sampleAt samples fromRate newLen)

/-! ### Exact arithmetic -/

/-- The truncation of `astype(np.int16)`. -/
def truncate (q : ℚ) : Int := q.num.tdiv q.den

/-- `np.interp` at one time, for points of increasing times. -/
def interpAt : List (ℚ × ℚ) → ℚ → ℚ
  | [], _ => 0
  | [(_, y)], _ => y
  | (t, y) :: (t', y') :: points, x =>
    if x < t then y
    else if x < t' then (y' - y) / (t' - t) * (x - t) + y
    else interpAt ((t', y') :: points) x

/-- The samples at their times, the first being the `first`-th of an equal spacing. -/
def timed (spacing : ℚ) (first : Nat) (samples : List Sample) : List (ℚ × ℚ) :=
  (samples.zipIdx first).map fun p ↦ (p.2 * spacing, p.1.toInt)

/-- The value of `resampled` at one of `newLen` times; `linspace` without its endpoint divides the
duration evenly. -/
def resampledAt (samples : List Sample) (fromRate : Int) (newLen j : Nat) : ℚ :=
  let duration : ℚ := samples.length / fromRate
  interpAt (timed (duration / samples.length) 0 samples) (j * (duration / newLen))

/-- Rational numbers in place of floats. -/
def exact : Arithmetic where
  rounded n fromRate toRate := roundHalfEven (n / fromRate * toRate)
  sampleAt samples fromRate newLen j :=
    BitVec.ofInt 16 (truncate (resampledAt samples fromRate newLen j))

variable {samples : List Sample}

/-! ### Rounding -/

/-- A rounded length of at least one is off by one at most. -/
theorem abs_max_roundHalfEven_sub_le {q : ℚ} (hq : 0 ≤ q) :
    |((max 1 (roundHalfEven q) : Int) : ℚ) - q| ≤ 1 := by
  obtain ⟨hlo, hhi⟩ := abs_le.mp (abs_roundHalfEven_sub_le q)
  rw [abs_le]
  by_cases hr : 1 ≤ roundHalfEven q
  · rw [max_eq_right hr]
    constructor <;> linarith
  · -- rounded to zero, the length was at most a half
    have hzero : ((roundHalfEven q : Int) : ℚ) ≤ 0 := by exact_mod_cast (by omega)
    rw [max_eq_left (by omega)]
    push_cast
    constructor <;> linarith

/-- What lies between whole numbers stays there when it is truncated. -/
theorem truncate_between {q : ℚ} {lo hi : Int} (hlo : (lo : ℚ) ≤ q) (hhi : q ≤ hi) :
    lo ≤ truncate q ∧ truncate q ≤ hi := by
  have hden : (0 : Int) < q.den := by exact_mod_cast q.den_pos
  have hnum : (q.num : ℚ) = q * q.den := (Rat.mul_den_eq_num q).symm
  have hpos : (0 : ℚ) < q.den := by exact_mod_cast q.den_pos
  refine tdiv_between hden ?_ ?_
  · have hle : (lo : ℚ) * q.den ≤ q.num := by
      rw [hnum]
      exact mul_le_mul_of_nonneg_right hlo hpos.le
    exact_mod_cast hle
  · have hle : (q.num : ℚ) ≤ hi * q.den := by
      rw [hnum]
      exact mul_le_mul_of_nonneg_right hhi hpos.le
    exact_mod_cast hle

/-! ### Interpolating -/

/-- The neighbour after a sample; the last one has none and stands for itself. -/
def nextIndex (samples : List Sample) (i : Nat) : Nat := min (i + 1) (samples.length - 1)

/-- The value of the `i`-th sample. -/
def levelAt (samples : List Sample) (i : Nat) : Int := (samples.getD i 0).toInt

/-- A point between two others, in proportion. -/
theorem lerp_between {y y' t t' x : ℚ} (ht : t ≤ x) (ht' : x < t') :
    min y y' ≤ (y' - y) / (t' - t) * (x - t) + y ∧
      (y' - y) / (t' - t) * (x - t) + y ≤ max y y' := by
  have hgap : 0 < t' - t := by linarith
  obtain ⟨r, hr⟩ : ∃ r, r = (x - t) / (t' - t) := ⟨_, rfl⟩
  have hr0 : 0 ≤ r := hr ▸ div_nonneg (by linarith) hgap.le
  have hr1 : r ≤ 1 := hr ▸ (div_le_one hgap).mpr (by linarith)
  have hvalue : (y' - y) / (t' - t) * (x - t) + y = y + r * (y' - y) := by
    rw [hr]
    field_simp
    ring
  rw [hvalue]
  rcases le_total y y' with hy | hy
  · rw [min_eq_left hy, max_eq_right hy]
    constructor <;> nlinarith
  · rw [min_eq_right hy, max_eq_left hy]
    constructor <;> nlinarith

/-- At a time between two samples the value lies between them; past the last it is the last. -/
theorem interpAt_between {spacing x : ℚ} (hspacing : 0 < spacing) {first i : Nat}
    (hi : i < samples.length) (hlo : (first + i : ℚ) * spacing ≤ x)
    (hhi : i + 1 < samples.length → x < (first + i + 1 : ℚ) * spacing) :
    (min (levelAt samples i) (levelAt samples (nextIndex samples i)) : ℚ) ≤
        interpAt (timed spacing first samples) x ∧
      interpAt (timed spacing first samples) x ≤
        max (levelAt samples i : ℚ) (levelAt samples (nextIndex samples i)) := by
  induction samples generalizing first i with
  | nil => cases hi
  | cons s samples ih =>
    cases samples with
    | nil =>
      obtain rfl : i = 0 := by simpa using hi
      simp [timed, interpAt, levelAt, nextIndex]
    | cons s' samples =>
      have htimed : timed spacing first (s :: s' :: samples) =
          (first * spacing, (s.toInt : ℚ)) :: ((first + 1 : ℕ) * spacing, (s'.toInt : ℚ)) ::
            (samples.zipIdx (first + 1 + 1)).map fun p ↦ (p.2 * spacing, (p.1.toInt : ℚ)) := rfl
      have hstart : ¬ x < first * spacing := by
        have hmono : (first : ℚ) * spacing ≤ (first + i : ℚ) * spacing :=
          mul_le_mul_of_nonneg_right (by simp) hspacing.le
        linarith
      rw [htimed, interpAt, if_neg hstart]
      cases i with
      | zero =>
        have hx : x < (first + 1 : ℕ) * spacing := by
          have h := hhi (by simp)
          push_cast at h ⊢
          simpa using h
        rw [if_pos hx]
        have hnext : nextIndex (s :: s' :: samples) 0 = 1 := by simp [nextIndex]
        rw [hnext]
        exact lerp_between (not_lt.mp hstart) hx
      | succ i =>
        have hx : ¬ x < (first + 1 : ℕ) * spacing := by
          have hmono : ((first + 1 : ℕ) : ℚ) * spacing ≤ (first + (i + 1 : ℕ) : ℚ) * spacing := by
            apply mul_le_mul_of_nonneg_right _ hspacing.le
            push_cast
            linarith [(Nat.cast_nonneg i : (0 : ℚ) ≤ i)]
          linarith
        have hnext : levelAt (s :: s' :: samples) (nextIndex (s :: s' :: samples) (i + 1)) =
            levelAt (s' :: samples) (nextIndex (s' :: samples) i) := by
          have hsucc : nextIndex (s :: s' :: samples) (i + 1) =
              nextIndex (s' :: samples) i + 1 := by
            simp only [nextIndex, List.length_cons]
            omega
          rw [hsucc]
          rfl
        rw [if_neg hx, hnext]
        refine @ih (first + 1) i (by simpa using hi) ?_ fun h ↦ ?_
        · push_cast at hlo ⊢
          linarith
        · have h' := hhi (by simpa using h)
          push_cast at h' ⊢
          linarith

/-- Each new time lies at or after the sample before it, and before the next one. -/
theorem resampledAt_between {fromRate : Int} {newLen j : Nat} (hne : samples ≠ [])
    (hrate : 0 < fromRate) (hj : j < newLen) :
    let i := j * samples.length / newLen
    (min (levelAt samples i) (levelAt samples (nextIndex samples i)) : ℚ) ≤
        resampledAt samples fromRate newLen j ∧
      resampledAt samples fromRate newLen j ≤
        max (levelAt samples i : ℚ) (levelAt samples (nextIndex samples i)) := by
  intro i
  have hn : 0 < samples.length := List.length_pos_of_ne_nil hne
  have hlen : 0 < newLen := by omega
  have hnq : (0 : ℚ) < samples.length := by exact_mod_cast hn
  have hlenq : (0 : ℚ) < newLen := by exact_mod_cast hlen
  have hrateq : (0 : ℚ) < fromRate := by exact_mod_cast hrate
  have hspacing : (samples.length / fromRate / samples.length : ℚ) = 1 / fromRate := by
    field_simp
  have htime : (j * (samples.length / fromRate / newLen) : ℚ) =
      j * samples.length / newLen * (1 / fromRate) := by
    field_simp
  have hi : i < samples.length :=
    (Nat.div_lt_iff_lt_mul hlen).mpr (by rw [Nat.mul_comm]; exact Nat.mul_lt_mul_of_pos_left hj hn)
  have hbefore : (i : ℚ) ≤ j * samples.length / newLen := by
    rw [le_div_iff₀ hlenq]
    exact_mod_cast Nat.div_mul_le_self _ _
  have hafter : (j * samples.length / newLen : ℚ) < i + 1 := by
    rw [div_lt_iff₀ hlenq]
    have hlt := Nat.lt_mul_div_succ (j * samples.length) hlen
    rw [Nat.mul_comm newLen] at hlt
    exact_mod_cast hlt
  have hpos : (0 : ℚ) < 1 / fromRate := by positivity
  simp only [resampledAt, hspacing, htime]
  refine interpAt_between hpos hi ?_ fun _ ↦ ?_
  · push_cast
    rw [zero_add]
    exact mul_le_mul_of_nonneg_right hbefore hpos.le
  · push_cast
    rw [zero_add]
    exact mul_lt_mul_of_pos_right hafter hpos

private theorem levelAt_range (samples : List Sample) (i : Nat) :
    -32768 ≤ levelAt samples i ∧ levelAt samples i ≤ 32767 := toInt_range _

/-- The cast to int16 keeps the truncated value, which lies between the neighbours. -/
theorem truncate_resampledAt {fromRate : Int} {newLen j : Nat} (hne : samples ≠ [])
    (hrate : 0 < fromRate) (hj : j < newLen) :
    let i := j * samples.length / newLen
    let value := truncate (resampledAt samples fromRate newLen j)
    (BitVec.ofInt 16 value).toInt = value ∧
      min (levelAt samples i) (levelAt samples (nextIndex samples i)) ≤ value ∧
      value ≤ max (levelAt samples i) (levelAt samples (nextIndex samples i)) := by
  intro i value
  obtain ⟨hlo, hhi⟩ := resampledAt_between hne hrate hj
  rw [← Int.cast_min] at hlo
  rw [← Int.cast_max] at hhi
  obtain ⟨hlo, hhi⟩ := truncate_between hlo hhi
  have hlevel := levelAt_range samples i
  have hnext := levelAt_range samples (nextIndex samples i)
  refine ⟨toInt_ofInt_of_range ?_ ?_, hlo, hhi⟩
  · exact (le_min hlevel.1 hnext.1).trans hlo
  · exact hhi.trans (max_le hlevel.2 hnext.2)

/-! ### One chunk -/

/-- The length that `_resample` returns. -/
theorem length_rerate_exact {fromRate toRate : Int} (hne : samples ≠ []) (hfrom : 0 < fromRate)
    (hto : 0 < toRate) :
    ((rerate exact.interpolation fromRate toRate samples).length : Int) =
      max 1 (roundHalfEven (samples.length * toRate / fromRate)) := by
  have hn : 0 < samples.length := List.length_pos_of_ne_nil hne
  unfold rerate
  split
  · next h =>
    obtain rfl := h.resolve_right (by omega)
    have hrateq : (fromRate : ℚ) ≠ 0 := by exact_mod_cast hfrom.ne'
    rw [mul_div_cancel_right₀ _ hrateq]
    have hround := roundHalfEven_intCast samples.length
    push_cast at hround
    rw [hround]
    omega
  · have hcomm : (samples.length / fromRate * toRate : ℚ) = samples.length * toRate / fromRate := by
      ring
    simp only [Arithmetic.interpolation, exact, List.length_map, List.length_range, hcomm]
    omega

/-- The number of samples of mono audio. -/
def AudioChunk.sampleCount (chunk : AudioChunk) : ℚ := chunk.data.length / chunk.sampleWidth

/-- The samples are counted by the bytes. -/
theorem sampleCount_eq {width : Int} {n : Nat} {chunk : AudioChunk} (hw : Supported width)
    (hwidth : chunk.sampleWidth = width) (hlen : (chunk.data.length : Int) = n * width) :
    chunk.sampleCount = n := by
  have hpos : (width : ℚ) ≠ 0 := by
    have hne : width ≠ 0 := by rcases hw with rfl | rfl | rfl <;> decide
    exact_mod_cast hne
  have hlenq : (chunk.data.length : ℚ) = n * width := by exact_mod_cast hlen
  rw [AudioChunk.sampleCount, hwidth, hlenq, mul_div_cancel_right₀ _ hpos]

/-- A nonempty mono chunk gains or loses one sample at most. -/
theorem sampleCount_convertChunk {target : AudioFormatSpec} {chunk : AudioChunk}
    (hmono : target.channels = 1) (hto : 0 < target.sampleRate)
    (htarget : Supported target.sampleWidth) (hwidth : Supported chunk.sampleWidth)
    (hfrom : 0 < chunk.sampleRate) (hchannels : chunk.channels = 1) (haligned : chunk.Aligned)
    (hne : chunk.data ≠ []) :
    ∃ out, convertChunk exact.interpolation target chunk = .ok out ∧
      |out.sampleCount - chunk.sampleCount * target.sampleRate / chunk.sampleRate| ≤ 1 := by
  have hfromq : (0 : ℚ) < chunk.sampleRate := by exact_mod_cast hfrom
  have htoq : (0 : ℚ) < target.sampleRate := by exact_mod_cast hto
  rw [convertChunk_of_aligned hmono htarget hwidth (.inr hfrom) (by omega) haligned]
  refine ⟨_, rfl, ?_⟩
  split
  · next h =>
    have hrate : chunk.sampleRate = target.sampleRate := congrArg AudioFormatSpec.sampleRate h
    rw [← hrate, mul_div_cancel_right₀ _ hfromq.ne', sub_self, abs_zero]
    exact zero_le_one
  · obtain ⟨hd, -⟩ := dvd_samples hwidth haligned
    obtain ⟨samples, hsamples⟩ :
        ∃ samples, samples = decodeSamples chunk.sampleWidth chunk.data := ⟨_, rfl⟩
    have hlen : (chunk.data.length : Int) = samples.length * chunk.sampleWidth := by
      rw [hsamples, length_decodeSamples hwidth hd]
    have hsome : samples ≠ [] := by
      rintro rfl
      exact hne (List.length_eq_zero_iff.mp (by simpa using hlen))
    have hout : recode exact.interpolation target chunk = encodeSamples target.sampleWidth
        (rerate exact.interpolation chunk.sampleRate target.sampleRate samples) := by
      rw [recode, downmix, if_pos hchannels, hsamples]
    rw [sampleCount_eq hwidth rfl hlen,
      sampleCount_eq htarget rfl (by rw [hout]; exact length_encodeSamples htarget _)]
    have hround := length_rerate_exact hsome hfrom hto
    have hcount : ((rerate exact.interpolation chunk.sampleRate target.sampleRate samples).length :
        ℚ) = (max 1 (roundHalfEven (samples.length * target.sampleRate / chunk.sampleRate)) :
          Int) := by exact_mod_cast hround
    rw [hcount]
    exact abs_max_roundHalfEven_sub_le (by positivity)

/-- Each sample of the output lies between its neighbours in the input. -/
theorem levelAt_rerate_exact {fromRate toRate : Int} (hne : samples ≠ []) (hfrom : 0 < fromRate)
    {j : Nat} (hj : j < (rerate exact.interpolation fromRate toRate samples).length) :
    let out := rerate exact.interpolation fromRate toRate samples
    let i := j * samples.length / out.length
    min (levelAt samples i) (levelAt samples (nextIndex samples i)) ≤ levelAt out j ∧
      levelAt out j ≤ max (levelAt samples i) (levelAt samples (nextIndex samples i)) := by
  intro out i
  by_cases hsame : fromRate = toRate ∨ samples.length = 0
  · have hout : out = samples := if_pos hsame
    have hi : i = j := by
      simp only [i, hout]
      exact Nat.mul_div_cancel j (List.length_pos_of_ne_nil hne)
    rw [hout, hi]
    exact ⟨min_le_left _ _, le_max_left _ _⟩
  · have hout : out = exact.interpolation samples fromRate toRate := if_neg hsame
    have hlevel : levelAt out j =
        (BitVec.ofInt 16 (truncate (resampledAt samples fromRate out.length j))).toInt := by
      obtain ⟨newLen, hnew⟩ : ∃ newLen, newLen =
        (max 1 (exact.rounded samples.length fromRate toRate)).toNat := ⟨_, rfl⟩
      have hmap : out = (List.range newLen).map (exact.sampleAt samples fromRate newLen) := by
        rw [hout, hnew]
        rfl
      have hlen : out.length = newLen := by rw [hmap, List.length_map, List.length_range]
      have hj' : j < newLen := hlen ▸ hj
      rw [hlen, levelAt, hmap, List.getD_eq_getElem?_getD, List.getElem?_map,
        List.getElem?_range hj']
      rfl
    obtain ⟨hcast, hlo, hhi⟩ := truncate_resampledAt hne hfrom hj
    rw [hlevel, hcast]
    exact ⟨hlo, hhi⟩

/-- Converted one by one, nonempty mono chunks of one rate gain or lose one sample each at most. -/
theorem sampleCount_convertChunks {target : AudioFormatSpec} {fromRate : Int}
    {chunks : List AudioChunk} (hmono : target.channels = 1) (hto : 0 < target.sampleRate)
    (htarget : Supported target.sampleWidth) (hfrom : 0 < fromRate)
    (hchunks : ∀ chunk ∈ chunks, chunk.sampleRate = fromRate ∧ chunk.channels = 1 ∧
      Supported chunk.sampleWidth ∧ chunk.Aligned ∧ chunk.data ≠ []) :
    ∃ outs, convertChunks exact.interpolation (some target) chunks = .ok outs ∧
      |(outs.map (·.sampleCount)).sum -
        (chunks.map (·.sampleCount)).sum * target.sampleRate / fromRate| ≤ chunks.length := by
  induction chunks with
  | nil => exact ⟨[], rfl, by simp⟩
  | cons chunk chunks ih =>
    obtain ⟨⟨hrate, hchannels, hwidth, haligned, hne⟩, hrest⟩ := List.forall_mem_cons.mp hchunks
    obtain ⟨outs, houts, hsum⟩ := ih hrest
    obtain ⟨out, hout, hone⟩ := sampleCount_convertChunk hmono hto htarget hwidth (hrate ▸ hfrom)
      hchannels haligned hne
    refine ⟨out :: outs, ?_, ?_⟩
    · simp only [convertChunks] at houts ⊢
      rw [List.mapM_cons, hout, houts]
      rfl
    · rw [hrate] at hone
      have hsplit : (out.sampleCount + (outs.map (·.sampleCount)).sum) -
            (chunk.sampleCount + (chunks.map (·.sampleCount)).sum) * target.sampleRate / fromRate =
          (out.sampleCount - chunk.sampleCount * target.sampleRate / fromRate) +
            ((outs.map (·.sampleCount)).sum -
              (chunks.map (·.sampleCount)).sum * target.sampleRate / fromRate) := by
        ring
      rw [List.map_cons, List.sum_cons, List.map_cons, List.sum_cons, List.length_cons, hsplit,
        Nat.cast_succ, add_comm (chunks.length : ℚ)]
      exact (abs_add_le _ _).trans (add_le_add hone hsum)

/-- In exact arithmetic `_resample` returns `max(1, round(n * to / from))` samples, each between the
two neighbours it is interpolated from, whose values the cast to int16 keeps; and nonempty mono
chunks, converted one by one, gain or lose at most one sample each. -/
theorem resample_exact :
    (∀ (samples : List Sample) (fromRate toRate : Int), samples ≠ [] → 0 < fromRate → 0 < toRate →
      ∃ out, resample exact.interpolation samples fromRate toRate = .ok out ∧
        (out.length : Int) = max 1 (roundHalfEven (samples.length * toRate / fromRate)) ∧
        ∀ j < out.length,
          let i := j * samples.length / out.length
          let value := truncate (resampledAt samples fromRate out.length j)
          min (levelAt samples i) (levelAt samples (nextIndex samples i)) ≤ levelAt out j ∧
            levelAt out j ≤ max (levelAt samples i) (levelAt samples (nextIndex samples i)) ∧
            (BitVec.ofInt 16 value).toInt = value) ∧
    ∀ (target : AudioFormatSpec) (fromRate : Int) (chunks : List AudioChunk),
      target.channels = 1 → 0 < target.sampleRate → Supported target.sampleWidth → 0 < fromRate →
      (∀ chunk ∈ chunks, chunk.sampleRate = fromRate ∧ chunk.channels = 1 ∧
        Supported chunk.sampleWidth ∧ chunk.Aligned ∧ chunk.data ≠ []) →
      ∃ outs, convertChunks exact.interpolation (some target) chunks = .ok outs ∧
        |(outs.map (·.sampleCount)).sum -
          (chunks.map (·.sampleCount)).sum * target.sampleRate / fromRate| ≤ chunks.length := by
  constructor
  · intro samples fromRate toRate hne hfrom hto
    refine ⟨_, resample_of_pos hfrom samples, length_rerate_exact hne hfrom hto, fun j hj ↦ ?_⟩
    obtain ⟨hlo, hhi⟩ := levelAt_rerate_exact hne hfrom hj
    exact ⟨hlo, hhi, (truncate_resampledAt hne hfrom hj).1⟩
  · intro target fromRate chunks hmono hto htarget hfrom hchunks
    exact sampleCount_convertChunks hmono hto htarget hfrom hchunks

/-- Three samples become two at two thirds of the rate, and three chunks of one sample stay three
although they last for less. -/
theorem resample_exact_thirds :
    (∃ out, resample exact.interpolation [100#16, -101#16, 50#16] 24000 16000 = .ok out ∧
      (out.length : Int) = 2) ∧
    ∃ outs, convertChunks exact.interpolation (some ⟨8000, 1, 2⟩)
        (List.replicate 3 ⟨[100, 0], 48000, 1, 2⟩) = .ok outs ∧
      |(outs.map (·.sampleCount)).sum - 1 / 2| ≤ 3 := by
  constructor
  · obtain ⟨out, hout, hlen, -⟩ := resample_exact.1 [100#16, -101#16, 50#16] 24000 16000
      (by simp) (by decide) (by decide)
    refine ⟨out, hout, hlen.trans ?_⟩
    norm_num [roundHalfEven]
  · obtain ⟨outs, houts, hsum⟩ := resample_exact.2 ⟨8000, 1, 2⟩ 48000
      (List.replicate 3 ⟨[100, 0], 48000, 1, 2⟩) rfl (by decide) (by decide) (by decide) (by decide)
    refine ⟨outs, houts, ?_⟩
    norm_num [AudioChunk.sampleCount, List.replicate] at hsum ⊢
    exact hsum

end BibiCore.Stt
