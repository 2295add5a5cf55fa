import BibiCore.Base.WaveRead
import BibiCore.Stt.Audio

/-!
# Audio from a wave file

`WavFileAudioSource` of `src/stt/engines/audio_sources.py`: what `/transcribe` reads of an uploaded
file.
-/

namespace BibiCore.Stt

/-- The format that the source says its chunks have. -/
def audioFormat (format : WaveFormat) : AudioFormatSpec :=
  ⟨format.framerate, format.nchannels, format.sampwidth⟩

/-- The loop of `__iter__`, at most `n` times; every chunk has a byte at least. -/
def readChunks : Nat → WaveRead → List AudioChunk
  | 0, _ => []
  | n + 1, wav =>
    let (data, next) := wav.readframes 4096
    if data = [] then []
    else ⟨data, wav.format.framerate, wav.format.nchannels, wav.format.sampwidth⟩ ::
      readChunks n next

/-- `WavFileAudioSource.__iter__`, consumed to its end. -/
def wavFileAudioSource (bytes : List UInt8) : Option (List AudioChunk) :=
  (WaveRead.init bytes).map fun wav ↦ readChunks wav.samples.length wav

/-- The chunks are the data of a file, 4096 frames at a time. -/
structure CutFrom (format : WaveFormat) (data : List UInt8) (chunks : List AudioChunk) : Prop where
  joined : chunks.flatMap (·.data) = data
  formats : ∀ chunk ∈ chunks, chunk.format = audioFormat format
  nonempty : ∀ chunk ∈ chunks, chunk.data ≠ []
  full : ∀ chunk ∈ chunks.dropLast, chunk.data.length = 4096 * format.framesize

/-- No chunks are cut from no data alone. -/
theorem CutFrom.eq_nil_iff {format : WaveFormat} {data : List UInt8} {chunks : List AudioChunk}
    (h : CutFrom format data chunks) : chunks = [] ↔ data = [] := by
  rw [← h.joined]
  constructor
  · intro hnil
    rw [hnil]
    rfl
  · intro hnil
    rw [List.flatMap_eq_nil_iff] at hnil
    exact List.eq_nil_iff_forall_not_mem.mpr fun chunk hc ↦ h.nonempty chunk hc (hnil chunk hc)

/-- The loop reads all there is. -/
theorem cutFrom_readChunks {n : Nat} {wav : WaveRead} (hn : wav.samples.length ≤ n) :
    CutFrom wav.format wav.samples (readChunks n wav) := by
  induction n generalizing wav with
  | zero =>
    have hnil : wav.samples = [] := List.length_eq_zero_iff.mp (Nat.le_zero.mp hn)
    rw [hnil]
    exact ⟨rfl, by simp [readChunks], by simp [readChunks], by simp [readChunks]⟩
  | succ n ih =>
    obtain ⟨hdata, hrest, hformat⟩ := wav.readframes_eq 4096
    have hpos : 0 < 4096 * wav.format.framesize :=
      Nat.mul_pos (by decide) wav.format.framesize_pos
    simp only [readChunks]
    split
    · next hnil =>
      rw [hdata, List.take_eq_nil_iff] at hnil
      rw [hnil.resolve_left hpos.ne']
      exact ⟨rfl, by simp, by simp, by simp⟩
    · next hne =>
      have hlen : (wav.readframes 4096).2.samples.length ≤ n := by
        rw [hrest, List.length_drop]
        omega
      have hnext := ih hlen
      rw [hformat] at hnext
      refine ⟨?_, ?_, ?_, ?_⟩
      · rw [List.flatMap_cons, hnext.joined, hdata, hrest, List.take_append_drop]
      · exact List.forall_mem_cons.mpr ⟨rfl, hnext.formats⟩
      · exact List.forall_mem_cons.mpr ⟨hne, hnext.nonempty⟩
      · intro chunk hchunk
        -- a chunk that another one follows is not at the end of the data
        by_cases hend : readChunks n (wav.readframes 4096).2 = []
        · simp [hend] at hchunk
        · rw [List.dropLast_cons_of_ne_nil hend, List.mem_cons] at hchunk
          obtain rfl | hchunk := hchunk
          · have hmore := mt hnext.eq_nil_iff.mpr hend
            rw [hrest, List.drop_eq_nil_iff, not_le] at hmore
            simp only [hdata, List.length_take, Nat.min_eq_left hmore.le]
          · exact hnext.full chunk hchunk

/-- Every file that is accepted is read to its end. -/
theorem cutFrom_wavFileAudioSource {bytes : List UInt8} {chunks : List AudioChunk}
    (h : wavFileAudioSource bytes = some chunks) :
    ∃ wav, WaveRead.init bytes = some wav ∧ CutFrom wav.format wav.samples chunks := by
  obtain ⟨wav, hwav, rfl⟩ := Option.map_eq_some_iff.mp h
  exact ⟨wav, hwav, cutFrom_readChunks le_rfl⟩

end BibiCore.Stt
