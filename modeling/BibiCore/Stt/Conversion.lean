import BibiCore.Stt.Audio

/-!
# Conversion of aligned audio

`_convert_chunk`, `stt/utils/audio.py:35`, on chunks of whole frames: decoding, averaging and
encoding go through, and each of them works frame by frame, so that it does not matter where the
audio is cut between two frames.
-/

namespace BibiCore.Stt

/-- A width that `_to_int16` and `_from_int16` know. -/
def Supported (sampleWidth : Int) : Prop := sampleWidth = 1 ∨ sampleWidth = 2 ∨ sampleWidth = 4

instance (sampleWidth : Int) : Decidable (Supported sampleWidth) :=
  inferInstanceAs (Decidable (_ ∨ _ ∨ _))

/-- The data is whole frames. -/
def AudioChunk.Aligned (chunk : AudioChunk) : Prop :=
  chunk.channels * chunk.sampleWidth ∣ (chunk.data.length : Int)

instance (chunk : AudioChunk) : Decidable chunk.Aligned := inferInstanceAs (Decidable (_ ∣ _))

/-- What `_to_int16` returns. -/
def decodeSamples (sampleWidth : Int) (data : List UInt8) : List Sample :=
  (toInt16 data sampleWidth).toOption.getD []

/-- What `_from_int16` returns. -/
def encodeSamples (sampleWidth : Int) (samples : List Sample) : List UInt8 :=
  (fromInt16 samples sampleWidth).toOption.getD []

/-- A byte in `_to_int16`. -/
def decode8 (u : UInt8) : Sample := (u.toBitVec.setWidth 16 - 128) * 256

/-- A word in `_to_int16`. -/
def decode32 (v : BitVec 32) : Sample := (v.sshiftRight 16).setWidth 16

/-- A sample in `_from_int16`, at width 1. -/
def encode8 (s : Sample) : UInt8 := UInt8.ofNat (min 255 (max 0 (s.toInt / 256 + 128))).toNat

/-- A sample in `_from_int16`, at width 4. -/
def encode32 (s : Sample) : BitVec 32 := (s.signExtend 32).shiftLeft 16

/-- One sample for each frame. -/
def downmix (channels : Int) (samples : List Sample) : List Sample :=
  if channels = 1 then samples
  else (rows channels.toNat (samples.length / channels.toNat) samples).map mean

variable {sampleWidth : Int} {data more : List UInt8} {samples : List Sample}

/-! ### Decoding -/

/-- Bytes that do not begin with a word are fewer than four. -/
theorem length_lt_four {bytes : List UInt8}
    (h : ∀ b₀ b₁ b₂ b₃ rest, bytes = b₀ :: b₁ :: b₂ :: b₃ :: rest → False) :
    bytes.length < 4 := by
  match bytes, h with
  | [], _ | [_], _ | [_, _], _ | [_, _, _], _ => simp
  | b₀ :: b₁ :: b₂ :: b₃ :: rest, h => exact (h b₀ b₁ b₂ b₃ rest rfl).elim

private theorem length_int32sOfBytes (bytes : List UInt8) :
    (int32sOfBytes bytes).length = bytes.length / 4 := by
  induction bytes using int32sOfBytes.induct with
  | case1 b₀ b₁ b₂ b₃ rest ih =>
    simp only [int32sOfBytes, List.length_cons, ih]
    omega
  | case2 bytes h =>
    rw [int32sOfBytes.eq_2 bytes h, Nat.div_eq_of_lt (length_lt_four h)]
    rfl

private theorem int32sOfBytes_append {bytes : List UInt8} (h4 : bytes.length % 4 = 0)
    (more : List UInt8) :
    int32sOfBytes (bytes ++ more) = int32sOfBytes bytes ++ int32sOfBytes more := by
  induction bytes using int32sOfBytes.induct with
  | case1 b₀ b₁ b₂ b₃ rest ih =>
    have hrest : rest.length % 4 = 0 := by
      simp only [List.length_cons] at h4
      omega
    simp only [List.cons_append, int32sOfBytes, ih hrest]
  | case2 bytes h =>
    have hlt := length_lt_four h
    obtain rfl : bytes = [] := List.length_eq_zero_iff.mp (by omega)
    rfl

/-- At one byte a sample, each byte is decoded. -/
theorem decodeSamples_one (data : List UInt8) : decodeSamples 1 data = data.map decode8 := rfl

/-- At two bytes a sample, whole samples are read as they are. -/
theorem decodeSamples_two (h : data.length % 2 = 0) :
    decodeSamples 2 data = int16sOfBytes data := by
  simp [decodeSamples, toInt16, frombuffer, h, Except.toOption]

/-- At four bytes a sample, whole samples are narrowed. -/
theorem decodeSamples_four (h : data.length % 4 = 0) :
    decodeSamples 4 data = (int32sOfBytes data).map decode32 := by
  simp [decodeSamples, toInt16, frombuffer, h, Except.toOption, Except.map, decode32]

/-- Whole samples of a supported width are decoded. -/
theorem toInt16_of_supported (hw : Supported sampleWidth)
    (hd : sampleWidth ∣ (data.length : Int)) :
    toInt16 data sampleWidth = .ok (decodeSamples sampleWidth data) := by
  rcases hw with rfl | rfl | rfl
  · rfl
  · have h2 : data.length % 2 = 0 := by omega
    simp [decodeSamples, toInt16, frombuffer, h2, Except.toOption]
  · have h4 : data.length % 4 = 0 := by omega
    simp [decodeSamples, toInt16, frombuffer, h4, Except.toOption, Except.map]

/-- Each sample is decoded from as many bytes as the width says. -/
theorem length_decodeSamples (hw : Supported sampleWidth) (hd : sampleWidth ∣ (data.length : Int)) :
    ((decodeSamples sampleWidth data).length : Int) * sampleWidth = data.length := by
  rcases hw with rfl | rfl | rfl
  · simp [decodeSamples_one]
  · rw [decodeSamples_two (by omega), length_int16sOfBytes]
    omega
  · rw [decodeSamples_four (by omega), List.length_map, length_int32sOfBytes]
    omega

/-- Whole samples are decoded apart or together. -/
theorem decodeSamples_append (hw : Supported sampleWidth) (hd : sampleWidth ∣ (data.length : Int))
    (hm : sampleWidth ∣ (more.length : Int)) :
    decodeSamples sampleWidth (data ++ more) =
      decodeSamples sampleWidth data ++ decodeSamples sampleWidth more := by
  rcases hw with rfl | rfl | rfl
  · exact List.map_append
  · have h2 : data.length % 2 = 0 := by omega
    have hdm : (data ++ more).length % 2 = 0 := by
      rw [List.length_append]
      omega
    rw [decodeSamples_two hdm, decodeSamples_two h2, decodeSamples_two (by omega),
      int16sOfBytes_append h2]
  · have h4 : data.length % 4 = 0 := by omega
    have hdm : (data ++ more).length % 4 = 0 := by
      rw [List.length_append]
      omega
    rw [decodeSamples_four hdm, decodeSamples_four h4, decodeSamples_four (by omega),
      int32sOfBytes_append h4, List.map_append]

/-! ### Encoding -/

/-- Samples are encoded in a supported width. -/
theorem fromInt16_of_supported (hw : Supported sampleWidth) (samples : List Sample) :
    fromInt16 samples sampleWidth = .ok (encodeSamples sampleWidth samples) := by
  rcases hw with rfl | rfl | rfl <;> rfl

/-- At one byte a sample, each sample is encoded. -/
theorem encodeSamples_one (samples : List Sample) :
    encodeSamples 1 samples = samples.map encode8 := rfl

/-- At two bytes a sample, samples are written as they are. -/
theorem encodeSamples_two (samples : List Sample) :
    encodeSamples 2 samples = samples.flatMap (bytesOf 2) := rfl

/-- At four bytes a sample, samples are widened. -/
theorem encodeSamples_four (samples : List Sample) :
    encodeSamples 4 samples = (samples.map encode32).flatMap (bytesOf 4) := by
  rw [List.flatMap_map]
  rfl

/-- `bytesOf` gives as many bytes as it is asked for. -/
@[simp] theorem length_bytesOf {w : Nat} (k : Nat) (s : BitVec w) : (bytesOf k s).length = k := by
  simp [bytesOf]

/-- Each sample is encoded to as many bytes as the width says. -/
theorem length_encodeSamples (hw : Supported sampleWidth) (samples : List Sample) :
    ((encodeSamples sampleWidth samples).length : Int) = samples.length * sampleWidth := by
  rcases hw with rfl | rfl | rfl <;>
    simp [encodeSamples_one, encodeSamples_two, encodeSamples_four, Function.comp_def,
      List.map_const']

/-- Samples are encoded apart or together. -/
theorem encodeSamples_append (hw : Supported sampleWidth) (samples more : List Sample) :
    encodeSamples sampleWidth (samples ++ more) =
      encodeSamples sampleWidth samples ++ encodeSamples sampleWidth more := by
  rcases hw with rfl | rfl | rfl <;>
    simp [encodeSamples_one, encodeSamples_two, encodeSamples_four]

/-! ### Averaging -/

/-- `rows` gives as many rows as it is asked for. -/
@[simp] theorem length_rows (channels n : Nat) (samples : List Sample) :
    (rows channels n samples).length = n := by
  induction n generalizing samples with
  | zero => rfl
  | succ n ih => rw [rows, List.length_cons, ih]

private theorem rows_append {channels n k : Nat} (hs : samples.length = n * channels)
    (more : List Sample) :
    rows channels (n + k) (samples ++ more) = rows channels n samples ++ rows channels k more := by
  induction n generalizing samples with
  | zero =>
    rw [Nat.zero_mul, List.length_eq_zero_iff] at hs
    simp [hs, rows]
  | succ n ih =>
    have hle : channels ≤ samples.length := by
      rw [hs, Nat.succ_mul]
      omega
    have hdrop : (samples.drop channels).length = n * channels := by
      rw [List.length_drop, hs, Nat.succ_mul]
      omega
    rw [Nat.succ_add, rows, rows, List.take_append_of_le_length hle,
      List.drop_append_of_le_length hle, ih hdrop, List.cons_append]

/-- Truncation toward zero stays between whole numbers. -/
theorem tdiv_between {a n lo hi : Int} (hn : 0 < n) (hlo : lo * n ≤ a) (hhi : a ≤ hi * n) :
    lo ≤ a.tdiv n ∧ a.tdiv n ≤ hi := by
  -- the quotient of a natural number
  have hfloor {b lo hi : Int} (hb : 0 ≤ b) (hlo : lo * n ≤ b) (hhi : b ≤ hi * n) :
      lo ≤ b.tdiv n ∧ b.tdiv n ≤ hi := by
    rw [Int.tdiv_eq_ediv_of_nonneg hb]
    refine ⟨(Int.le_ediv_iff_mul_le hn).mpr hlo, ?_⟩
    rw [← Int.lt_add_one_iff, Int.ediv_lt_iff_lt_mul hn, Int.add_mul]
    omega
  by_cases ha : 0 ≤ a
  · exact hfloor ha hlo hhi
  · have hneg := @hfloor (-a) (-hi) (-lo) (by omega) (by rw [Int.neg_mul]; omega)
      (by rw [Int.neg_mul]; omega)
    rw [Int.neg_tdiv] at hneg
    omega

/-- The values of a sample. -/
theorem toInt_range (s : Sample) : -32768 ≤ s.toInt ∧ s.toInt ≤ 32767 := by
  have hlo := BitVec.le_toInt s
  have hhi := BitVec.toInt_lt (x := s)
  omega

/-- A number among the values of a sample is kept by one. -/
theorem toInt_ofInt_of_range {i : Int} (hlo : -32768 ≤ i) (hhi : i ≤ 32767) :
    (BitVec.ofInt 16 i).toInt = i := by
  rw [BitVec.toInt_ofInt]
  exact Int.bmod_eq_of_le (by omega) (by omega)

private theorem sum_range (row : List Sample) :
    -32768 * row.length ≤ (row.map BitVec.toInt).sum ∧
      (row.map BitVec.toInt).sum ≤ 32767 * row.length := by
  induction row with
  | nil => simp
  | cons s row ih =>
    have hs := toInt_range s
    rw [List.map_cons, List.sum_cons, List.length_cons]
    omega

/-- The mean of samples is a sample: the cast to int16 keeps it. -/
theorem toInt_mean (row : List Sample) :
    -32768 ≤ (row.map BitVec.toInt).sum.tdiv row.length ∧
      (row.map BitVec.toInt).sum.tdiv row.length ≤ 32767 ∧
      (mean row).toInt = (row.map BitVec.toInt).sum.tdiv row.length := by
  have hrange : -32768 ≤ (row.map BitVec.toInt).sum.tdiv row.length ∧
      (row.map BitVec.toInt).sum.tdiv row.length ≤ 32767 := by
    cases row with
    | nil => decide
    | cons s row =>
      obtain ⟨hlo, hhi⟩ := sum_range (s :: row)
      exact tdiv_between (by simp) hlo hhi
  exact ⟨hrange.1, hrange.2, toInt_ofInt_of_range hrange.1 hrange.2⟩

/-! ### One chunk -/

private theorem exists_frames {channels : Int} (hc : 0 < channels)
    (hs : channels ∣ (samples.length : Int)) :
    ∃ n : Nat, samples.length = n * channels.toNat ∧ samples.length / channels.toNat = n := by
  obtain ⟨c, rfl⟩ := Int.eq_ofNat_of_zero_le hc.le
  obtain ⟨n, hn⟩ := Int.natCast_dvd_natCast.mp hs
  have hpos : 0 < c := by omega
  refine ⟨n, by rw [hn, Int.toNat_natCast, Nat.mul_comm], ?_⟩
  rw [hn, Int.toNat_natCast, Nat.mul_div_cancel_left n hpos]

/-- Each frame is mixed down to one sample. -/
theorem length_downmix {channels : Int} (hc : 0 < channels)
    (hs : channels ∣ (samples.length : Int)) :
    ((downmix channels samples).length : Int) * channels = samples.length := by
  unfold downmix
  split
  · next h => rw [h, Int.mul_one]
  · obtain ⟨n, hn, hdiv⟩ := exists_frames hc hs
    rw [List.length_map, length_rows, hdiv, hn, Int.natCast_mul, Int.toNat_of_nonneg hc.le]

/-- Whole frames are mixed down apart or together. -/
theorem downmix_append {channels : Int} (hc : 0 < channels)
    (hs : channels ∣ (samples.length : Int)) {more : List Sample}
    (hm : channels ∣ (more.length : Int)) :
    downmix channels (samples ++ more) = downmix channels samples ++ downmix channels more := by
  unfold downmix
  split
  · rfl
  · obtain ⟨n, hn, hdiv⟩ := exists_frames hc hs
    obtain ⟨k, hk, hdiv'⟩ := exists_frames hc hm
    have hpos : 0 < channels.toNat := by omega
    have hboth : (samples ++ more).length / channels.toNat = n + k := by
      rw [List.length_append, hn, hk, ← Nat.add_mul, Nat.mul_div_cancel _ hpos]
    rw [hboth, rows_append hn, hdiv, hdiv', List.map_append]

/-- What `_resample` returns. -/
def rerate (interp : Interpolation) (fromRate toRate : Int) (samples : List Sample) :
    List Sample :=
  if fromRate = toRate ∨ samples.length = 0 then samples else interp samples fromRate toRate

/-- What `_convert_chunk` makes of the data when it converts. -/
def recode (interp : Interpolation) (target : AudioFormatSpec) (chunk : AudioChunk) : List UInt8 :=
  encodeSamples target.sampleWidth (rerate interp chunk.sampleRate target.sampleRate
    (downmix chunk.channels (decodeSamples chunk.sampleWidth chunk.data)))

/-- The samples of whole frames are whole frames. -/
theorem dvd_samples {channels : Int} (hw : Supported sampleWidth)
    (h : channels * sampleWidth ∣ (data.length : Int)) :
    sampleWidth ∣ (data.length : Int) ∧
      channels ∣ ((decodeSamples sampleWidth data).length : Int) := by
  have hd : sampleWidth ∣ (data.length : Int) :=
    Int.dvd_trans (Int.dvd_mul_left channels sampleWidth) h
  have hpos : sampleWidth ≠ 0 := by
    rcases hw with hw | hw | hw <;> omega
  rw [← length_decodeSamples hw hd] at h
  exact ⟨hd, Int.dvd_of_mul_dvd_mul_right hpos h⟩

/-- Samples that are whole frames are reshaped. -/
theorem reshape_of_dvd {channels : Int} (hc : 0 < channels)
    (hs : channels ∣ (samples.length : Int)) :
    reshape samples channels =
      .ok (rows channels.toNat (samples.length / channels.toNat) samples) := by
  obtain ⟨n, hn, -⟩ := exists_frames hc hs
  rw [reshape, if_neg (by omega), if_neg]
  rw [hn, Nat.mul_mod_left]
  omega

/-- Positive rates are resampled. -/
theorem resample_of_pos {interp : Interpolation} {fromRate toRate : Int} (hr : 0 < fromRate)
    (samples : List Sample) :
    resample interp samples fromRate toRate = .ok (rerate interp fromRate toRate samples) := by
  unfold resample rerate
  split
  · rfl
  · rw [if_neg (by omega)]

/-- A chunk of whole frames is converted to every mono format of a supported width. -/
theorem convertChunk_of_aligned {interp : Interpolation} {target : AudioFormatSpec}
    {chunk : AudioChunk} (hmono : target.channels = 1) (htarget : Supported target.sampleWidth)
    (hwidth : Supported chunk.sampleWidth)
    (hrate : chunk.sampleRate = target.sampleRate ∨ 0 < chunk.sampleRate)
    (hchannels : 0 < chunk.channels) (haligned : chunk.Aligned) :
    convertChunk interp target chunk =
      .ok (if chunk.format = target then chunk
        else ⟨recode interp target chunk, target.sampleRate, target.channels,
          target.sampleWidth⟩) := by
  by_cases hformat : chunk.format = target
  · rw [convertChunk_of_format hformat, if_pos hformat]
  obtain ⟨hd, hs⟩ := dvd_samples hwidth haligned
  have hne : ¬ (chunk.sampleRate = target.sampleRate ∧ chunk.channels = 1 ∧
      chunk.sampleWidth = target.sampleWidth) := by
    rintro ⟨h1, h2, h3⟩
    apply hformat
    rw [AudioChunk.format, h1, h2, h3, ← hmono]
  have hresample (h : ¬ chunk.sampleRate = target.sampleRate) (samples : List Sample) :=
    @resample_of_pos interp _ target.sampleRate (hrate.resolve_left h) samples
  rw [convertChunk, toInt16_of_supported hwidth hd, hmono, if_neg hne, if_neg hformat]
  -- the channels and the rate are each kept or changed
  by_cases hc : chunk.channels = 1 <;> by_cases hr : chunk.sampleRate = target.sampleRate <;>
    simp [bind, Except.bind, Except.map, hc, hr, reshape_of_dvd hchannels hs, hresample,
      fromInt16_of_supported htarget, recode, downmix, rerate] <;>
    rfl

/-! ### All chunks -/

/-- A conversion that succeeds on every element. -/
theorem mapM_of_ok {α β : Type} {f : α → Except STTError β} {g : α → β} {l : List α}
    (h : ∀ a ∈ l, f a = .ok (g a)) : l.mapM f = .ok (l.map g) := by
  induction l with
  | nil => rfl
  | cons a l ih =>
    obtain ⟨ha, hl⟩ := List.forall_mem_cons.mp h
    rw [List.mapM_cons, ha, ih hl]
    rfl

/-- A chunk with the data of all. -/
def joined (format : AudioFormatSpec) (chunks : List AudioChunk) : AudioChunk :=
  ⟨chunks.flatMap (·.data), format.sampleRate, format.channels, format.sampleWidth⟩

/-- What becomes of the data at one rate. -/
def recodeFrames (target format : AudioFormatSpec) (data : List UInt8) : List UInt8 :=
  encodeSamples target.sampleWidth
    (downmix format.channels (decodeSamples format.sampleWidth data))

private theorem recode_of_rate {interp : Interpolation} {target : AudioFormatSpec}
    {chunk : AudioChunk} (hrate : chunk.sampleRate = target.sampleRate) :
    recode interp target chunk = recodeFrames target chunk.format chunk.data := by
  rw [recode, rerate, if_pos (.inl hrate)]
  rfl

section

variable {target format : AudioFormatSpec} (htarget : Supported target.sampleWidth)
  (hwidth : Supported format.sampleWidth) (hchannels : 0 < format.channels)
include htarget hwidth hchannels

/-- The data is converted frame by frame. -/
theorem recodeFrames_append (hd : format.channels * format.sampleWidth ∣ (data.length : Int))
    (hm : format.channels * format.sampleWidth ∣ (more.length : Int)) :
    recodeFrames target format (data ++ more) =
      recodeFrames target format data ++ recodeFrames target format more := by
  obtain ⟨hd, hsamples⟩ := dvd_samples hwidth hd
  obtain ⟨hm, hsamples'⟩ := dvd_samples hwidth hm
  rw [recodeFrames, decodeSamples_append hwidth hd hm, downmix_append hchannels hsamples hsamples',
    encodeSamples_append htarget]
  rfl

/-- One sample comes of each frame. -/
theorem length_recodeFrames (hd : format.channels * format.sampleWidth ∣ (data.length : Int)) :
    ∃ frames : Nat, (data.length : Int) = frames * (format.channels * format.sampleWidth) ∧
      ((recodeFrames target format data).length : Int) = frames * target.sampleWidth := by
  obtain ⟨hd, hsamples⟩ := dvd_samples hwidth hd
  refine ⟨_, ?_, length_encodeSamples htarget _⟩
  rw [← Int.mul_assoc, length_downmix hchannels hsamples, length_decodeSamples hwidth hd]

/-- Whole frames are recoded apart or together. -/
theorem recodeFrames_flatten {datas : List (List UInt8)}
    (h : ∀ data ∈ datas, format.channels * format.sampleWidth ∣ (data.length : Int)) :
    format.channels * format.sampleWidth ∣ (datas.flatten.length : Int) ∧
      recodeFrames target format datas.flatten = datas.flatMap (recodeFrames target format) := by
  induction datas with
  | nil =>
    have hnil : format.channels * format.sampleWidth ∣ (([] : List UInt8).length : Int) := by simp
    have htwice := recodeFrames_append htarget hwidth hchannels hnil hnil
    exact ⟨hnil, List.self_eq_append_left.mp htwice⟩
  | cons data datas ih =>
    obtain ⟨hd, hds⟩ := List.forall_mem_cons.mp h
    obtain ⟨hrest, heq⟩ := ih hds
    rw [List.flatten_cons, List.flatMap_cons, ← heq, List.length_append, Nat.cast_add]
    exact ⟨Int.dvd_add hd hrest, recodeFrames_append htarget hwidth hchannels hd hrest⟩

end

/-- Chunks of one format, converted one by one to a mono format of the same rate, have the data of
their concatenation converted as one chunk, with one sample for each frame; and the means of the
frames are samples. -/
theorem convertChunks_joined (interp : Interpolation) (target format : AudioFormatSpec)
    (chunks : List AudioChunk) (hmono : target.channels = 1)
    (hrate : format.sampleRate = target.sampleRate) (htarget : Supported target.sampleWidth)
    (hwidth : Supported format.sampleWidth) (hchannels : 0 < format.channels)
    (hformat : ∀ chunk ∈ chunks, chunk.format = format)
    (haligned : ∀ chunk ∈ chunks, chunk.Aligned) :
    (∃ outs out frames, convertChunks interp (some target) chunks = .ok outs ∧
      convertChunk interp target (joined format chunks) = .ok out ∧
      outs.flatMap (·.data) = out.data ∧
      ((joined format chunks).data.length : Int) =
        (frames : Nat) * (format.channels * format.sampleWidth) ∧
      (out.data.length : Int) = frames * target.sampleWidth) ∧
    ∀ row : List Sample, -32768 ≤ (row.map BitVec.toInt).sum.tdiv row.length ∧
      (row.map BitVec.toInt).sum.tdiv row.length ≤ 32767 ∧
      (mean row).toInt = (row.map BitVec.toInt).sum.tdiv row.length := by
  refine ⟨?_, toInt_mean⟩
  have hdata : ∀ data ∈ chunks.map (·.data),
      format.channels * format.sampleWidth ∣ (data.length : Int) := by
    intro data hd
    obtain ⟨chunk, hc, rfl⟩ := List.mem_map.mp hd
    have hf := hformat chunk hc
    subst hf
    exact haligned chunk hc
  have hjoined : (joined format chunks).data = (chunks.map (·.data)).flatten := List.flatMap_def
  obtain ⟨hdvd, hflat⟩ := recodeFrames_flatten htarget hwidth hchannels hdata
  rw [← hjoined] at hdvd hflat
  obtain ⟨frames, hframes, hlen⟩ := length_recodeFrames htarget hwidth hchannels hdvd
  by_cases hsame : format = target
  · -- everything passes as it is
    subst hsame
    refine ⟨chunks, joined format chunks, frames, convertChunks_of_format hformat,
      convertChunk_of_format rfl, rfl, hframes, ?_⟩
    rw [hframes, hmono, Int.one_mul]
  · have hchunk (chunk : AudioChunk) (hf : chunk.format = format) (ha : chunk.Aligned) :
        convertChunk interp target chunk = .ok ⟨recodeFrames target format chunk.data,
          target.sampleRate, target.channels, target.sampleWidth⟩ := by
      subst hf
      rw [convertChunk_of_aligned hmono htarget hwidth (.inl hrate) hchannels ha, if_neg hsame,
        recode_of_rate hrate]
    refine ⟨_, _, frames, mapM_of_ok fun chunk hc ↦ hchunk chunk (hformat chunk hc)
      (haligned chunk hc), hchunk (joined format chunks) rfl hdvd, ?_, hframes, hlen⟩
    rw [hflat, List.flatMap_map, List.flatMap_map]

/-- Two frames of stereo audio and an empty chunk between them. -/
def stereo : List AudioChunk :=
  [⟨[10, 0, 21, 0], 16000, 2, 2⟩, ⟨[], 16000, 2, 2⟩, ⟨[246, 255, 251, 255], 16000, 2, 2⟩]

/-- Both ways give the means 15 and -7. -/
theorem convertChunks_joined_stereo :
    ∃ outs out, convertChunks (fun samples _ _ ↦ samples) (some ⟨16000, 1, 2⟩) stereo = .ok outs ∧
      convertChunk (fun samples _ _ ↦ samples) ⟨16000, 1, 2⟩ (joined ⟨16000, 2, 2⟩ stereo) =
        .ok out ∧
      outs.flatMap (·.data) = out.data ∧ out.data = [15, 0, 249, 255] := by
  obtain ⟨⟨outs, out, frames, houts, hout, hdata, -⟩, -⟩ :=
    convertChunks_joined (fun samples _ _ ↦ samples) ⟨16000, 1, 2⟩ ⟨16000, 2, 2⟩ stereo rfl rfl
      (by decide) (by decide) (by decide) (by decide) (by decide)
  refine ⟨outs, out, houts, hout, hdata, ?_⟩
  obtain rfl := Except.ok.inj hout
  decide

end BibiCore.Stt
