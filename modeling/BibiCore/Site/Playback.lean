import Mathlib.Algebra.Order.Ring.Rat
import BibiCore.Gateway.Clients

/-!
# Playback in the assistant page

`site/assistant.html:689`–`769`: audio frames become sources that are scheduled back to back on
the clock of the audio context. Clock readings and durations are rationals.
-/

namespace BibiCore.Site

open BibiCore.Gateway (AudioFormatInfo)

/-- An `AudioBufferSourceNode` that has been started; `frame`, the place of its frame among the
frames the page has received, tells the sources apart. -/
structure Source where
  frame : Nat
  startAt : ℚ
  duration : ℚ
  deriving DecidableEq

/-- The playback variables of the page; `playbackCtx` is the clock of the audio context, once
there is one. -/
structure Playback where
  playbackCtx : Option ℚ
  playbackQueueTime : ℚ
  scheduledSourceCount : Nat
  isSpeaking : Bool
  activeSources : List Source
  playbackFormat : AudioFormatInfo
  deriving DecidableEq

/-- The value of `a || b` on numbers. -/
def orElse (a b : Int) : Int := if a = 0 then b else a

namespace Playback

/-- The variables as the page declares them. -/
def new : Playback where
  playbackCtx := none
  playbackQueueTime := 0
  scheduledSourceCount := 0
  isSpeaking := false
  activeSources := []
  playbackFormat := ⟨22050, 1, 2⟩

/-- `initPlaybackContext`; a new context's clock is at zero. -/
def initPlaybackContext (p : Playback) : Playback :=
  match p.playbackCtx with
  | some _ => p
  | none => { p with playbackCtx := some 0, playbackQueueTime := 0 }

/-- The clock reads `now`. -/
def advance (now : ℚ) (p : Playback) : Option Playback :=
  match p.playbackCtx with
  | some before => if before ≤ now then some { p with playbackCtx := some now } else none
  | none => none

/-- The clock of the context. -/
def currentTime (p : Playback) : ℚ := p.playbackCtx.getD 0

/-- The case `audio_format` of `handleControlMessage`: a zero keeps the old value. -/
def setFormat (msg : AudioFormatInfo) (p : Playback) : Playback :=
  { p with
    playbackFormat := ⟨orElse msg.sampleRate p.playbackFormat.sampleRate,
      orElse msg.channels p.playbackFormat.channels,
      orElse msg.sampleWidth p.playbackFormat.sampleWidth⟩ }

def setSpeaking (speaking : Bool) (p : Playback) : Playback := { p with isSpeaking := speaking }

/-- The part of `handleAudioFrame` that starts a source of `samples` samples. -/
def schedule (frame samples : Nat) (sampleRate : Int) (p : Playback) : Playback :=
  let startAt := max p.playbackQueueTime p.currentTime
  let duration : ℚ := samples / sampleRate
  let count := p.scheduledSourceCount + 1
  let p := { p with playbackQueueTime := startAt + duration, scheduledSourceCount := count }
  let p := if count = 1 then p.setSpeaking true else p
  { p with activeSources := p.activeSources ++ [⟨frame, startAt, duration⟩] }

/-- `handleAudioFrame`: an array buffer of odd length is no `Int16Array`, and `createBuffer` says
which channel counts, lengths and sample rates the audio context takes; in the other cases the
handler throws before it schedules anything. -/
def handleAudioFrame (createBuffer : Int → Nat → Int → Bool) (frame : Nat) (data : List UInt8)
    (p : Playback) : Playback :=
  let p := p.initPlaybackContext
  let channels := orElse p.playbackFormat.channels 1
  let sampleRate := orElse p.playbackFormat.sampleRate 22050
  if data.length % 2 = 0 ∧ createBuffer channels (data.length / 2) sampleRate = true then
    p.schedule frame (data.length / 2) sampleRate
  else p

/-- The `onended` callback of a source; `stopPlayback` takes it off the sources it stops. -/
def onended (frame : Nat) (p : Playback) : Option Playback :=
  if ∃ s ∈ p.activeSources, s.frame = frame then
    let count := p.scheduledSourceCount - 1
    let p := { p with
      activeSources := p.activeSources.filter (·.frame ≠ frame), scheduledSourceCount := count }
    some (if count = 0 then p.setSpeaking false else p)
  else none

/-- `stopPlayback`. -/
def stopPlayback (p : Playback) : Playback :=
  let p := { p with activeSources := [], scheduledSourceCount := 0 }
  let p := p.setSpeaking false
  { p with playbackQueueTime := p.playbackCtx.getD p.playbackQueueTime }

/-- The sources in `activeSources`, by their frames. -/
def playing (p : Playback) : List Nat := p.activeSources.map Source.frame

/-! ### What the operations change -/

/-- What starting a source changes. -/
theorem schedule_eq (frame samples : Nat) (sampleRate : Int) (p : Playback) :
    p.schedule frame samples sampleRate = { p with
      playbackQueueTime := max p.playbackQueueTime p.currentTime + samples / sampleRate
      scheduledSourceCount := p.scheduledSourceCount + 1
      isSpeaking := p.isSpeaking || decide (p.scheduledSourceCount = 0)
      activeSources := p.activeSources ++
        [⟨frame, max p.playbackQueueTime p.currentTime, samples / sampleRate⟩] } := by
  by_cases h : p.scheduledSourceCount = 0 <;> simp [schedule, setSpeaking, h]

/-- What the end of a source changes. -/
theorem onended_eq_some {frame : Nat} {p q : Playback} :
    p.onended frame = some q ↔
      (∃ s ∈ p.activeSources, s.frame = frame) ∧
        q = { p with
          activeSources := p.activeSources.filter (·.frame ≠ frame)
          scheduledSourceCount := p.scheduledSourceCount - 1
          isSpeaking := p.isSpeaking && decide (p.scheduledSourceCount - 1 ≠ 0) } := by
  unfold onended
  by_cases hs : ∃ s ∈ p.activeSources, s.frame = frame
  · rw [if_pos hs, and_iff_right hs, Option.some.injEq, eq_comm]
    by_cases hc : p.scheduledSourceCount - 1 = 0 <;> simp [hc, setSpeaking]
  · simp [hs]

/-- The clock of the context goes forward, and nothing else changes. -/
theorem advance_eq_some {now : ℚ} {p q : Playback} (h : p.advance now = some q) :
    ∃ before, p.playbackCtx = some before ∧ before ≤ now ∧
      q = { p with playbackCtx := some now } := by
  unfold advance at h
  split at h
  · next before hctx =>
    split at h <;> cases h
    next hle => exact ⟨before, hctx, hle, rfl⟩
  · cases h

/-- The context is there before a source is. -/
theorem initPlaybackContext_playbackCtx (p : Playback) :
    p.initPlaybackContext.playbackCtx ≠ none := by
  unfold initPlaybackContext
  split
  · next hctx => simp [hctx]
  · simp

/-! ### The frames of the sources -/

/-- `initPlaybackContext` plays nothing. -/
@[simp] theorem playing_initPlaybackContext (p : Playback) :
    p.initPlaybackContext.playing = p.playing := by
  unfold initPlaybackContext
  split <;> rfl

/-- A format plays nothing. -/
@[simp] theorem playing_setFormat (msg : AudioFormatInfo) (p : Playback) :
    (p.setFormat msg).playing = p.playing := rfl

/-- After `stopPlayback` nothing is playing. -/
@[simp] theorem playing_stopPlayback (p : Playback) : p.stopPlayback.playing = [] := rfl

/-- The clock alone stops no source and starts none. -/
theorem playing_advance {now : ℚ} {p q : Playback} (h : p.advance now = some q) :
    q.playing = p.playing := by
  obtain ⟨before, -, -, rfl⟩ := advance_eq_some h
  rfl

/-- A frame adds at most its own source. -/
theorem playing_handleAudioFrame {createBuffer : Int → Nat → Int → Bool} {frame : Nat}
    {data : List UInt8} (p : Playback) :
    (p.handleAudioFrame createBuffer frame data).playing = p.playing ∨
      (p.handleAudioFrame createBuffer frame data).playing = p.playing ++ [frame] := by
  simp only [handleAudioFrame]
  split
  · right
    rw [← playing_initPlaybackContext p, schedule_eq]
    simp [playing]
  · exact .inl (playing_initPlaybackContext p)

/-- An ended source is taken off the list. -/
theorem playing_onended {frame : Nat} {p q : Playback} (h : p.onended frame = some q) :
    q.playing.Sublist p.playing := by
  obtain ⟨-, rfl⟩ := onended_eq_some.mp h
  exact List.filter_sublist.map _

end Playback
end BibiCore.Site
