import BibiCore.Session.State
import BibiCore.Site.Playback

/-!
# The assistant page

`site/assistant.html`: the page of one connection, from `onopen` on: the frames it sends, the frames
it handles and its playback. The transcript it shows is modelled apart, since it outlives the
connection. The handlers run one at a time; `startRecording` is suspended while `getUserMedia` asks
for the microphone.
-/

namespace BibiCore.Site

open BibiCore.Session

/-- The variables of the page; `wsOpen` stands for `ws.readyState`, `asking` counts the calls of
`startRecording` in `getUserMedia`, `capturing` says that `processorNode` is there, and `received`
counts the frames `onmessage` has handled. -/
structure Page where
  wsOpen : Bool
  recording : Bool
  micPermissionDenied : Bool
  asking : Nat
  capturing : Bool
  playback : Playback
  received : Nat
  deriving DecidableEq

/-- What happens to the page, other than a message: the talk button, the end of `getUserMedia`,
captured audio, the voice menu, the end of a source, the clock, and the end of the connection. -/
inductive PageEvent where
  | press (secure : Bool)
  | release
  | micGranted
  | micFailed (denied : Bool)
  | audioProcess (pcm : List UInt8)
  | voiceChange (voice : String)
  | ended (frame : Nat)
  | clock (now : ℚ)
  | close
  deriving DecidableEq

namespace Page

/-- `onopen` has run. -/
def opened : Page where
  wsOpen := true
  recording := false
  micPermissionDenied := false
  asking := 0
  capturing := false
  playback := Playback.new.initPlaybackContext
  received := 0

/-- `ws.send` behind its `readyState` check. -/
def send (p : Page) (frame : ClientFrame) : List ClientFrame := if p.wsOpen then [frame] else []

/-- `startRecording` up to `getUserMedia`, with the frames it sends; `secure` says that there is a
`getUserMedia`. The `start` message carries no format. -/
def startRecording (secure : Bool) (p : Page) : Page × List ClientFrame :=
  if p.recording ∨ p.micPermissionDenied ∨ ¬ p.wsOpen then (p, [])
  else if secure then
    ({ p with recording := true, asking := p.asking + 1 }, [.text (.start ⟨0, 0, 0⟩)])
  else ({ p with micPermissionDenied := true }, [])

/-- The rest of `startRecording` when `getUserMedia` throws. -/
def micFailed (denied : Bool) (p : Page) : Page × List ClientFrame :=
  ({ p with
    asking := p.asking - 1
    recording := false
    micPermissionDenied := p.micPermissionDenied || denied }, p.send (.text .endUtterance))

/-- `stopRecording`. -/
def stopRecording (p : Page) : Page × List ClientFrame :=
  if p.recording then
    ({ p with recording := false, capturing := false }, p.send (.text .endUtterance))
  else (p, [])

/-- `ws.onclose`: `resetInFlightState` stops the playback. -/
def onclose (p : Page) : Page :=
  let (p, _) := { p with wsOpen := false }.stopRecording
  { p with playback := p.playback.stopPlayback }

/-- `sendVoiceSelection`, with the value of `voiceSelect`. -/
def sendVoiceSelection (voice : String) (p : Page) : List ClientFrame :=
  p.send (.text (.setVoice voice))

/-- One event, with the frames the page sends. -/
def handle (p : Page) : PageEvent → Option (Page × List ClientFrame)
  | .press secure => some (p.startRecording secure)
  | .release => some p.stopRecording
  | .micGranted =>
    if 0 < p.asking then some ({ p with asking := p.asking - 1, capturing := true }, []) else none
  | .micFailed denied => if 0 < p.asking then some (p.micFailed denied) else none
  | .audioProcess pcm =>
    if p.capturing ∧ p.recording then some (p, p.send (.binary pcm)) else none
  | .voiceChange voice => some (p, p.sendVoiceSelection voice)
  | .ended frame => (p.playback.onended frame).map fun q ↦ ({ p with playback := q }, [])
  | .clock now => (p.playback.advance now).map fun q ↦ ({ p with playback := q }, [])
  | .close => if p.wsOpen then some (p.onclose, []) else none

/-- `handleControlMessage`, as far as it touches the playback. -/
def handleControlMessage (p : Playback) : ControlMessage → Playback
  | .audioFormat format _ => p.setFormat format
  | .interrupted _ => p.stopPlayback
  | .partialTranscript _ _ | .finalTranscript _ _ | .llmChunk _ _ | .error _ _ => p

/-- `ws.onmessage`. -/
def onmessage (createBuffer : Int → Nat → Int → Bool) (p : Page) (message : OutboundMessage) :
    Option Page :=
  if p.wsOpen then
    let playback := match message with
      | .text msg => handleControlMessage p.playback msg
      | .binary data => p.playback.handleAudioFrame createBuffer p.received data
    some { p with playback := playback, received := p.received + 1 }
  else none

/-! ### What the handlers do to the sources -/

/-- `stopRecording` leaves the playback. -/
@[simp] theorem stopRecording_playback (p : Page) : p.stopRecording.1.playback = p.playback := by
  unfold stopRecording
  split <;> rfl

/-- `stopRecording` receives no frame. -/
@[simp] theorem stopRecording_received (p : Page) : p.stopRecording.1.received = p.received := by
  unfold stopRecording
  split <;> rfl

private theorem startRecording_keeps (secure : Bool) (p : Page) :
    (p.startRecording secure).1.playback = p.playback ∧
      (p.startRecording secure).1.received = p.received := by
  unfold startRecording
  repeat' split
  all_goals exact ⟨rfl, rfl⟩

/-- What an event other than a message can do to the playback. -/
inductive Played (p q : Playback) : Prop
  | same (h : q = p)
  | ended (frame : Nat) (h : p.onended frame = some q)
  | clock (now : ℚ) (h : p.advance now = some q)
  | stopped (h : q = p.stopPlayback)

/-- What an event of the page other than a message does to its playback. -/
theorem handle_played {p q : Page} {e : PageEvent} {frames : List ClientFrame}
    (h : p.handle e = some (q, frames)) :
    q.received = p.received ∧ Played p.playback q.playback := by
  cases e with
  | press secure =>
    obtain ⟨hp, hr⟩ := p.startRecording_keeps secure
    have he : p.startRecording secure = (q, frames) := Option.some.inj h
    rw [he] at hp hr
    exact ⟨hr, .same hp⟩
  | release =>
    have hp := p.stopRecording_playback
    have hr := p.stopRecording_received
    have he : p.stopRecording = (q, frames) := Option.some.inj h
    rw [he] at hp hr
    exact ⟨hr, .same hp⟩
  | micGranted | micFailed denied | audioProcess pcm =>
    simp only [handle] at h
    split at h <;> cases h
    exact ⟨rfl, .same rfl⟩
  | voiceChange voice =>
    cases h
    exact ⟨rfl, .same rfl⟩
  | ended frame =>
    obtain ⟨r, hr, he⟩ := Option.map_eq_some_iff.mp h
    cases he
    exact ⟨rfl, .ended frame hr⟩
  | clock now =>
    obtain ⟨r, hr, he⟩ := Option.map_eq_some_iff.mp h
    cases he
    exact ⟨rfl, .clock now hr⟩
  | close =>
    simp only [handle] at h
    split at h <;> cases h
    have hp := { p with wsOpen := false }.stopRecording_playback
    exact ⟨stopRecording_received _, .stopped (congrArg Playback.stopPlayback hp)⟩

/-- No event other than a message starts a source. -/
theorem playing_of_handle {p q : Page} {e : PageEvent} {frames : List ClientFrame}
    (h : p.handle e = some (q, frames)) :
    q.received = p.received ∧ q.playback.playing.Sublist p.playback.playing := by
  obtain ⟨hr, hp⟩ := handle_played h
  refine ⟨hr, ?_⟩
  cases hp with
  | same hp => rw [hp]
  | ended frame hq => exact Playback.playing_onended hq
  | clock now hq => rw [Playback.playing_advance hq]
  | stopped hp =>
    rw [hp]
    exact List.nil_sublist _

/-- A message starts at most the source of its own frame, and `interrupted` leaves none. -/
theorem playing_of_onmessage {createBuffer : Int → Nat → Int → Bool} {p q : Page}
    {message : OutboundMessage} (h : p.onmessage createBuffer message = some q) :
    q.received = p.received + 1 ∧
      (∀ f ∈ q.playback.playing, f ∈ p.playback.playing ∨ f = p.received) ∧
      ∀ n, message = .text (.interrupted n) → q.playback.playing = [] := by
  unfold onmessage at h
  split at h <;> cases h
  refine ⟨rfl, fun f hf ↦ ?_, fun n hn ↦ ?_⟩
  · cases message with
    | text msg =>
      cases msg with
      | interrupted => cases hf
      | _ => exact .inl hf
    | binary data =>
      rcases Playback.playing_handleAudioFrame p.playback with he | he
      · exact .inl (he ▸ hf)
      · simpa [he] using hf
  · subst hn
    rfl

end Page
end BibiCore.Site
