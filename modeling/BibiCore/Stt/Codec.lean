import Mathlib.Data.List.Forall2
import Mathlib.Order.Bounds.Basic
import BibiCore.Stt.Conversion

/-!
# The sample codec

`_to_int16` and `_from_int16`, `stt/utils/audio.py:64`–`84`: which of their compositions give back
what went in, what the others lose, and that no step of either wraps around.
-/

namespace BibiCore.Stt

/-! ### One element -/

/-- The steps of `_to_int16` on a byte are exact in int16. -/
structure ByteExact (u : UInt8) : Prop where
  astype : (u.toBitVec.setWidth 16).toInt = u.toNat
  centred : (u.toBitVec.setWidth 16 - 128 : Sample).toInt = u.toNat - 128
  scaled : (decode8 u).toInt = (u.toNat - 128) * 256

/-- The steps of `_to_int16` on a word are exact in int32 and in int16. -/
structure WordExact (v : BitVec 32) : Prop where
  shifted : (v.sshiftRight 16).toInt = v.toInt / 65536
  astype : (decode32 v).toInt = v.toInt / 65536

/-- The steps of `_from_int16` on a sample are exact in int32 and in uint8, and `clip` changes
nothing. -/
structure SampleExact (s : Sample) : Prop where
  astype : (s.signExtend 32).toInt = s.toInt
  quotient : (BitVec.ofInt 32 (s.toInt / 256)).toInt = s.toInt / 256
  centred : (BitVec.ofInt 32 (s.toInt / 256 + 128)).toInt = s.toInt / 256 + 128
  clip : min 255 (max 0 (s.toInt / 256 + 128)) = s.toInt / 256 + 128
  unsigned : (encode8 s).toNat = s.toInt / 256 + 128
  shifted : (encode32 s).toInt = s.toInt * 65536

private theorem byteExact (u : UInt8) : ByteExact u := by
  have hlt := u.toNat_lt
  have hastype : (u.toBitVec.setWidth 16).toInt = u.toNat := by
    rw [BitVec.toInt_setWidth, UInt8.toNat_toBitVec]
    exact Int.bmod_eq_of_le (by omega) (by omega)
  have hcentred : (u.toBitVec.setWidth 16 - 128 : Sample).toInt = u.toNat - 128 := by
    have h128 : (128 : Sample).toInt = 128 := by decide
    rw [BitVec.toInt_sub, hastype, h128]
    exact Int.bmod_eq_of_le (by omega) (by omega)
  refine ⟨hastype, hcentred, ?_⟩
  have h256 : (256 : Sample).toInt = 256 := by decide
  rw [decode8, BitVec.toInt_mul, hcentred, h256]
  exact Int.bmod_eq_of_le (by omega) (by omega)

private theorem wordExact (v : BitVec 32) : WordExact v := by
  have hlo := BitVec.le_toInt v
  have hhi := BitVec.toInt_lt (x := v)
  have hshifted : (v.sshiftRight 16).toInt = v.toInt / 65536 := by
    rw [BitVec.toInt_sshiftRight, Int.shiftRight_eq_div_pow]
    rfl
  refine ⟨hshifted, ?_⟩
  rw [decode32, ← BitVec.signExtend_eq_setWidth_of_le _ (by omega), BitVec.toInt_signExtend,
    hshifted]
  change (v.toInt / 65536).bmod 65536 = _
  exact Int.bmod_eq_of_le (by omega) (by omega)

private theorem sampleExact (s : Sample) : SampleExact s := by
  obtain ⟨hlo, hhi⟩ := toInt_range s
  have hastype : (s.signExtend 32).toInt = s.toInt := BitVec.toInt_signExtend_of_le (by omega)
  have hclip : min 255 (max 0 (s.toInt / 256 + 128)) = s.toInt / 256 + 128 := by omega
  have hexact {i : Int} (hi : -32768 ≤ i ∧ i ≤ 32767) : (BitVec.ofInt 32 i).toInt = i := by
    rw [BitVec.toInt_ofInt]
    exact Int.bmod_eq_of_le (by omega) (by omega)
  refine ⟨hastype, hexact (by omega), hexact (by omega), hclip, ?_, ?_⟩
  · rw [encode8, hclip, UInt8.toNat_ofNat', Nat.mod_eq_of_lt (by omega),
      Int.toNat_of_nonneg (by omega)]
  · have hpow : (BitVec.twoPow 32 16).toInt = 65536 := by decide
    rw [encode32, BitVec.shiftLeft_eq, ← BitVec.mul_twoPow_eq_shiftLeft, BitVec.toInt_mul,
      hastype, hpow]
    exact Int.bmod_eq_of_le (by omega) (by omega)

/-! ### Bytes and words -/

private theorem bytesOf_two (s : Sample) : bytesOf 2 s =
    [UInt8.ofBitVec (s.extractLsb' 0 8), UInt8.ofBitVec (s.extractLsb' 8 8)] := rfl

private theorem bytesOf_four (v : BitVec 32) : bytesOf 4 v =
    [UInt8.ofBitVec (v.extractLsb' 0 8), UInt8.ofBitVec (v.extractLsb' 8 8),
      UInt8.ofBitVec (v.extractLsb' 16 8), UInt8.ofBitVec (v.extractLsb' 24 8)] := rfl

/-- A sample is put together of its bytes. -/
theorem int16sOfBytes_bytesOf (samples : List Sample) :
    int16sOfBytes (samples.flatMap (bytesOf 2)) = samples := by
  induction samples with
  | nil => rfl
  | cons s samples ih =>
    have hs : s.extractLsb' 8 8 ++ s.extractLsb' 0 8 = s := BitVec.extractLsb'_append_extractLsb'
    rw [List.flatMap_cons, bytesOf_two, List.cons_append, List.cons_append, List.nil_append,
      int16sOfBytes, ih]
    exact congrArg (· :: samples) hs

/-- Whole samples are taken apart into their bytes. -/
theorem flatMap_bytesOf_int16sOfBytes {data : List UInt8} (h : data.length % 2 = 0) :
    (int16sOfBytes data).flatMap (bytesOf 2) = data := by
  induction data using int16sOfBytes.induct with
  | case1 lo hi rest ih =>
    have hrest : rest.length % 2 = 0 := by
      simp only [List.length_cons] at h
      omega
    rw [int16sOfBytes, List.flatMap_cons, ih hrest, bytesOf_two,
      BitVec.extractLsb'_append_eq_right, BitVec.extractLsb'_append_eq_left]
    rfl
  | case2 data hshort =>
    have hlt := length_lt_two hshort
    obtain rfl : data = [] := List.length_eq_zero_iff.mp (by omega)
    rfl

/-- A word is put together of its bytes. -/
theorem int32sOfBytes_bytesOf (words : List (BitVec 32)) :
    int32sOfBytes (words.flatMap (bytesOf 4)) = words := by
  induction words with
  | nil => rfl
  | cons v words ih =>
    have hupper : v.extractLsb' 24 8 ++ v.extractLsb' 16 8 = v.extractLsb' 16 16 :=
      BitVec.extractLsb'_append_extractLsb'_eq_extractLsb' rfl
    have hmiddle : v.extractLsb' 16 16 ++ v.extractLsb' 8 8 = v.extractLsb' 8 24 :=
      BitVec.extractLsb'_append_extractLsb'_eq_extractLsb' rfl
    have hv : v.extractLsb' 8 24 ++ v.extractLsb' 0 8 = v := BitVec.extractLsb'_append_extractLsb'
    rw [← hmiddle, ← hupper] at hv
    rw [List.flatMap_cons, bytesOf_four]
    simp only [List.cons_append, List.nil_append, int32sOfBytes, ih]
    exact congrArg (· :: words) hv

/-! ### There and back -/

/-- A byte that is decoded is encoded as itself. -/
theorem encode8_decode8 (u : UInt8) : encode8 (decode8 u) = u := by
  have hvalue := (sampleExact (decode8 u)).unsigned
  rw [(byteExact u).scaled] at hvalue
  apply UInt8.toNat_inj.mp
  omega

/-- A sample that is widened to 32 bits is decoded as itself. -/
theorem decode32_encode32 (s : Sample) : decode32 (encode32 s) = s := by
  apply BitVec.eq_of_toInt_eq
  rw [(wordExact _).astype, (sampleExact s).shifted]
  exact Int.mul_ediv_cancel _ (by decide)

/-- A sample comes back from its byte as the multiple of 256 below it. -/
theorem isGreatest_decode8_encode8 (s : Sample) :
    IsGreatest {n : Int | 256 ∣ n ∧ n ≤ s.toInt} (decode8 (encode8 s)).toInt := by
  rw [(byteExact (encode8 s)).scaled, (sampleExact s).unsigned]
  refine ⟨⟨⟨s.toInt / 256, by omega⟩, by omega⟩, ?_⟩
  rintro n ⟨⟨k, rfl⟩, hk⟩
  omega

/-- The lower half of a word is lost. -/
theorem encode32_decode32 (v : BitVec 32) :
    encode32 (decode32 v) = v.extractLsb' 16 16 ++ 0#16 := by
  have hupper : ((decode32 v).signExtend 32).extractLsb' 0 16 = v.extractLsb' 16 16 := by
    ext i hi
    have hlo : i < 32 := by omega
    have hhi : 16 + i < 32 := by omega
    rw [BitVec.getElem_extractLsb', BitVec.getElem_extractLsb', Nat.zero_add,
      BitVec.getLsbD_signExtend, decode32, BitVec.getLsbD_setWidth, BitVec.getLsbD_sshiftRight]
    simp [hi, hlo, hhi, Nat.not_le_of_lt hlo]
  rw [encode32, BitVec.shiftLeft_eq, BitVec.shiftLeft_eq_concat_of_lt (by decide), hupper]
  rfl

/-! ### The compositions -/

variable {sampleWidth : Int} {data : List UInt8}

/-- Whole samples of a supported width pass `_to_int16` and then `_from_int16`. -/
theorem toInt16_bind_fromInt16 (hw : Supported sampleWidth)
    (hd : sampleWidth ∣ (data.length : Int)) :
    (toInt16 data sampleWidth).bind (fromInt16 · sampleWidth) =
      .ok (encodeSamples sampleWidth (decodeSamples sampleWidth data)) := by
  rw [toInt16_of_supported hw hd]
  exact fromInt16_of_supported hw _

/-- Samples pass `_from_int16` and then `_to_int16`. -/
theorem fromInt16_bind_toInt16 (hw : Supported sampleWidth) (samples : List Sample) :
    (fromInt16 samples sampleWidth).bind (toInt16 · sampleWidth) =
      .ok (decodeSamples sampleWidth (encodeSamples sampleWidth samples)) := by
  have hd : sampleWidth ∣ ((encodeSamples sampleWidth samples).length : Int) := by
    rw [length_encodeSamples hw]
    exact Int.dvd_mul_left _ _
  rw [fromInt16_of_supported hw]
  exact toInt16_of_supported hw hd

private theorem length_encodeSamples_decodeSamples (hw : Supported sampleWidth)
    (hd : sampleWidth ∣ (data.length : Int)) :
    (encodeSamples sampleWidth (decodeSamples sampleWidth data)).length = data.length :=
  Int.ofNat_inj.mp ((length_encodeSamples hw _).trans (length_decodeSamples hw hd))

/-- At one or two bytes a sample, bytes come back from their samples. -/
theorem encodeSamples_decodeSamples (hw : sampleWidth = 1 ∨ sampleWidth = 2)
    (hd : sampleWidth ∣ (data.length : Int)) :
    encodeSamples sampleWidth (decodeSamples sampleWidth data) = data := by
  rcases hw with rfl | rfl
  · rw [decodeSamples_one, encodeSamples_one, List.map_map]
    exact (List.map_congr_left fun u _ ↦ encode8_decode8 u).trans (List.map_id data)
  · have h2 : data.length % 2 = 0 := by omega
    rw [decodeSamples_two h2, encodeSamples_two, flatMap_bytesOf_int16sOfBytes h2]

/-- At two or four bytes a sample, samples come back from their bytes. -/
theorem decodeSamples_encodeSamples (hw : sampleWidth = 2 ∨ sampleWidth = 4)
    (samples : List Sample) :
    decodeSamples sampleWidth (encodeSamples sampleWidth samples) = samples := by
  rcases hw with rfl | rfl
  · have hlen := length_encodeSamples (.inr (.inl rfl) : Supported 2) samples
    rw [decodeSamples_two (by omega), encodeSamples_two, int16sOfBytes_bytesOf]
  · have hlen := length_encodeSamples (.inr (.inr rfl) : Supported 4) samples
    rw [decodeSamples_four (by omega), encodeSamples_four, int32sOfBytes_bytesOf, List.map_map]
    exact (List.map_congr_left fun s _ ↦ decode32_encode32 s).trans (List.map_id samples)

/-- At 8 bits each sample is rounded down to a multiple of 256. -/
theorem decodeSamples_one_encodeSamples (samples : List Sample) :
    List.Forall₂ (fun s t ↦ IsGreatest {n : Int | 256 ∣ n ∧ n ≤ s.toInt} t.toInt) samples
      (decodeSamples 1 (encodeSamples 1 samples)) := by
  rw [encodeSamples_one, decodeSamples_one, List.map_map, List.forall₂_map_right_iff,
    List.forall₂_same]
  exact fun s _ ↦ isGreatest_decode8_encode8 s

/-- At 32 bits each word loses its lower half. -/
theorem encodeSamples_four_decodeSamples (h : data.length % 4 = 0) :
    encodeSamples 4 (decodeSamples 4 data) =
      ((int32sOfBytes data).map fun v ↦ v.extractLsb' 16 16 ++ 0#16).flatMap (bytesOf 4) := by
  rw [decodeSamples_four h, encodeSamples_four, List.map_map]
  exact congrArg (List.flatMap (bytesOf 4))
    (List.map_congr_left fun v _ ↦ encode32_decode32 v)

/-- `_from_int16` undoes `_to_int16` on bytes of width 1 and 2, and `_to_int16` undoes
`_from_int16` on samples at width 2 and 4; at width 1 the latter rounds each sample down to a
multiple of 256, and at width 4 the former clears the lower half of each word. No step leaves its
integer type, and the clip changes nothing. -/
theorem codec_roundTrips :
    (∀ (sampleWidth : Int) (data : List UInt8), sampleWidth = 1 ∨ sampleWidth = 2 →
      sampleWidth ∣ (data.length : Int) →
      (toInt16 data sampleWidth).bind (fromInt16 · sampleWidth) = .ok data) ∧
    (∀ (sampleWidth : Int) (samples : List Sample), sampleWidth = 2 ∨ sampleWidth = 4 →
      (fromInt16 samples sampleWidth).bind (toInt16 · sampleWidth) = .ok samples) ∧
    (∀ samples : List Sample, ∃ out, (fromInt16 samples 1).bind (toInt16 · 1) = .ok out ∧
      List.Forall₂ (fun s t ↦ IsGreatest {n : Int | 256 ∣ n ∧ n ≤ s.toInt} t.toInt) samples
        out) ∧
    (∀ data : List UInt8, 4 ∣ (data.length : Int) →
      ∃ out, (toInt16 data 4).bind (fromInt16 · 4) = .ok out ∧ out.length = data.length ∧
        int32sOfBytes out =
          (int32sOfBytes data).map fun v ↦ v.extractLsb' 16 16 ++ 0#16) ∧
    (∀ u, ByteExact u) ∧ (∀ v, WordExact v) ∧ ∀ s, SampleExact s := by
  refine ⟨fun w data hw hd ↦ ?_, fun w samples hw ↦ ?_, fun samples ↦ ?_, fun data hd ↦ ?_,
    byteExact, wordExact, sampleExact⟩
  · have hsupported : Supported w := hw.imp_right .inl
    rw [toInt16_bind_fromInt16 hsupported hd, encodeSamples_decodeSamples hw hd]
  · have hsupported : Supported w := .inr hw
    rw [fromInt16_bind_toInt16 hsupported, decodeSamples_encodeSamples hw]
  · exact ⟨_, fromInt16_bind_toInt16 (.inl rfl) samples, decodeSamples_one_encodeSamples samples⟩
  · have hout := @encodeSamples_four_decodeSamples data (by omega)
    have hsupported : Supported 4 := .inr (.inr rfl)
    refine ⟨_, toInt16_bind_fromInt16 hsupported hd,
      length_encodeSamples_decodeSamples hsupported hd, ?_⟩
    rw [hout, int32sOfBytes_bytesOf]

/-- The bytes of the 8-bit test, the extreme samples, and a word of ones. -/
theorem codec_roundTrips_extremes :
    (toInt16 [128, 0, 255] 1).bind (fromInt16 · 1) = .ok [128, 0, 255] ∧
    (fromInt16 [0x8000, 0x7fff] 4).bind (toInt16 · 4) = .ok [0x8000, 0x7fff] ∧
    ∃ out, (toInt16 [255, 255, 255, 255] 4).bind (fromInt16 · 4) = .ok out ∧
      int32sOfBytes out = [0xffff0000] := by
  obtain ⟨hbytes, hsamples, -, hwords, -⟩ := codec_roundTrips
  refine ⟨hbytes 1 [128, 0, 255] (.inl rfl) (Int.one_dvd _), hsamples 4 _ (.inr rfl), ?_⟩
  obtain ⟨out, hout, -, hword⟩ := hwords [255, 255, 255, 255] (by decide)
  exact ⟨out, hout, hword⟩

end BibiCore.Stt
