import Mathlib.Algebra.Order.Ring.Cast
import Mathlib.Order.CompletePartialOrder
import Mathlib.Order.Interval.Set.Disjoint
import BibiCore.Site.BargeIn

/-!
# The schedule of the playback

`site/assistant.html:689`–`769` over the whole life of the page, through every loss of the
connection: in whatever order frames, interruptions, ends of sources and clock readings come, the
sources in `activeSources` follow one another on the clock, and the queue time, the counter and
`isSpeaking` agree with them.
-/

namespace BibiCore.Site

open BibiCore.Session

/-- The end of a source that is not stopped. -/
def Source.endAt (s : Source) : ℚ := s.startAt + s.duration

/-- The time in which a source sounds. -/
def Source.interval (s : Source) : Set ℚ := Set.Ico s.startAt s.endAt

/-- A source that starts when another has ended does not sound with it. -/
theorem Source.disjoint_interval {s t : Source} (h : s.endAt ≤ t.startAt) :
    Disjoint s.interval t.interval :=
  Set.Ico_disjoint_Ico.mpr ((min_le_left _ _).trans (h.trans (le_max_right _ _)))

private theorem Source.nonempty_interval {s : Source} (h : 0 < s.duration) : s.interval.Nonempty :=
  Set.nonempty_Ico.mpr (lt_add_of_pos_right _ h)

/-- The playback of the page across its connections; `received` counts the frames `onmessage` has
handled. -/
structure Player where
  playback : Playback
  received : Nat
  deriving DecidableEq

/-- What reaches the playback: `onopen`, `onmessage`, the end of a source, the clock, and
`onclose`. -/
inductive PlayerEvent where
  | opened
  | message (message : OutboundMessage)
  | ended (frame : Nat)
  | clock (now : ℚ)
  | closed
  deriving DecidableEq

namespace Player

/-- One event. -/
def step (createBuffer : Int → Nat → Int → Bool) (p : Player) : PlayerEvent → Option Player
  | .opened => some { p with playback := p.playback.initPlaybackContext }
  | .message (.text msg) => some ⟨Page.handleControlMessage p.playback msg, p.received + 1⟩
  | .message (.binary data) =>
    some ⟨p.playback.handleAudioFrame createBuffer p.received data, p.received + 1⟩
  | .ended frame => (p.playback.onended frame).map fun q ↦ { p with playback := q }
  | .clock now => (p.playback.advance now).map fun q ↦ { p with playback := q }
  | .closed => some { p with playback := p.playback.stopPlayback }

/-- The playback from the load of the page on. -/
def system (createBuffer : Int → Nat → Int → Bool) : TransitionSystem Player PlayerEvent where
  init := ⟨.new, 0⟩
  step := step createBuffer

end Player

/-- The invariant of the playback: the sources, all of the first `received` frames and in their
order, each start when the one before has ended. -/
structure Scheduled (p : Playback) (received : Nat) : Prop where
  idle : p.playbackCtx = none → p.activeSources = []
  fresh : ∀ s ∈ p.activeSources, s.frame < received
  sound : ∀ s ∈ p.activeSources, 0 < s.duration
  inOrder : p.activeSources.Pairwise fun s t ↦ s.frame < t.frame ∧ s.endAt ≤ t.startAt
  queued : ∀ s ∈ p.activeSources, s.endAt ≤ p.playbackQueueTime
  counted : p.scheduledSourceCount = p.activeSources.length
  speaking : p.isSpeaking = true ↔ p.activeSources ≠ []

namespace Scheduled

variable {p q : Playback} {received : Nat}

/-- A playback at rest. -/
theorem of_nil (ha : p.activeSources = []) (hc : p.scheduledSourceCount = 0)
    (hs : p.isSpeaking = false) : Scheduled p received := by
  constructor <;> simp [ha, hc, hs]

private theorem new : Scheduled .new 0 := of_nil rfl rfl rfl

private theorem stopPlayback (p : Playback) (received : Nat) : Scheduled p.stopPlayback received :=
  of_nil rfl rfl rfl

/-- More frames may have been received. -/
theorem receive (h : Scheduled p received) : Scheduled p (received + 1) :=
  { h with fresh := fun s hs ↦ Nat.lt_succ_of_lt (h.fresh s hs) }

private theorem setFormat (h : Scheduled p received) (msg : Gateway.AudioFormatInfo) :
    Scheduled (p.setFormat msg) received :=
  { h with }

private theorem advance (h : Scheduled p received) {now : ℚ} (hq : p.advance now = some q) :
    Scheduled q received := by
  obtain ⟨before, -, -, rfl⟩ := Playback.advance_eq_some hq
  exact { h with idle := nofun }

private theorem initPlaybackContext (h : Scheduled p received) :
    Scheduled p.initPlaybackContext received := by
  unfold Playback.initPlaybackContext
  split
  · exact h
  · next hctx =>
    -- no source is there whose end the new queue time could miss
    have hnil := h.idle hctx
    exact { h with idle := fun _ ↦ hnil, queued := by simp [hnil] }

/-- A source starts no earlier than the queue time, which all ends precede. -/
theorem schedule (h : Scheduled p received) (hctx : p.playbackCtx ≠ none) {samples : Nat}
    {sampleRate : Int} (hs : 0 < samples) (hr : 0 < sampleRate) :
    Scheduled (p.schedule received samples sampleRate) (received + 1) := by
  have hduration : (0 : ℚ) < samples / sampleRate :=
    div_pos (Nat.cast_pos.mpr hs) (Int.cast_pos.mpr hr)
  have hqueue : p.playbackQueueTime ≤ max p.playbackQueueTime p.currentTime := le_max_left _ _
  rw [Playback.schedule_eq]
  constructor
  case idle => exact fun hnone ↦ absurd hnone hctx
  case fresh => exact List.forall_mem_concat h.receive.fresh (Nat.lt_succ_self received)
  case sound => exact List.forall_mem_concat h.sound hduration
  case inOrder =>
    refine List.pairwise_append.mpr ⟨h.inOrder, List.pairwise_singleton _ _, fun s hs t ht ↦ ?_⟩
    obtain rfl := List.mem_singleton.mp ht
    exact ⟨h.fresh s hs, (h.queued s hs).trans hqueue⟩
  case queued =>
    refine List.forall_mem_concat (fun s hs ↦ ?_) le_rfl
    calc s.endAt ≤ p.playbackQueueTime := h.queued s hs
      _ ≤ max p.playbackQueueTime p.currentTime := hqueue
      _ ≤ max p.playbackQueueTime p.currentTime + samples / sampleRate :=
        le_add_of_nonneg_right hduration.le
  case counted => rw [List.length_append, List.length_singleton, h.counted]
  case speaking =>
    have hspeaking : p.isSpeaking = true ∨ p.scheduledSourceCount = 0 := by
      rw [h.speaking, h.counted, List.length_eq_zero_iff]
      exact (em _).symm
    simpa using hspeaking

/-- The end of a source takes one off the list and off the counter. -/
theorem onended (h : Scheduled p received) {frame : Nat} (hq : p.onended frame = some q) :
    Scheduled q received := by
  obtain ⟨⟨s, hs, rfl⟩, rfl⟩ := Playback.onended_eq_some.mp hq
  have hsub : (p.activeSources.filter (·.frame ≠ s.frame)).Sublist p.activeSources :=
    List.filter_sublist
  have hnodup : (p.activeSources.map Source.frame).Nodup :=
    List.pairwise_map.mpr (h.inOrder.imp fun hst ↦ Nat.ne_of_lt hst.1)
  have hlen := List.length_filter_ne_add_one hnodup (List.mem_map_of_mem hs)
  have hcount : p.scheduledSourceCount - 1 =
      (p.activeSources.filter (·.frame ≠ s.frame)).length := by
    rw [h.counted]
    omega
  have hspeaking : p.isSpeaking = true := h.speaking.mpr (List.ne_nil_of_mem hs)
  constructor
  case idle => exact fun hnone ↦ absurd (h.idle hnone) (List.ne_nil_of_mem hs)
  case fresh => exact fun t ht ↦ h.fresh t (hsub.subset ht)
  case sound => exact fun t ht ↦ h.sound t (hsub.subset ht)
  case inOrder => exact h.inOrder.sublist hsub
  case queued => exact fun t ht ↦ h.queued t (hsub.subset ht)
  case counted => exact hcount
  case speaking =>
    rw [hspeaking, hcount, Bool.true_and, decide_eq_true_iff]
    exact not_congr List.length_eq_zero_iff

end Scheduled

/-! ### Whole runs -/

section

variable {createBuffer : Int → Nat → Int → Bool}
  (hcreate : ∀ channels length sampleRate, createBuffer channels length sampleRate = true →
    0 < length ∧ 0 < sampleRate)
include hcreate

private theorem Scheduled.handleAudioFrame {p : Playback} {received : Nat}
    (h : Scheduled p received) (data : List UInt8) :
    Scheduled (p.handleAudioFrame createBuffer received data) (received + 1) := by
  simp only [Playback.handleAudioFrame]
  split
  · next haccepted =>
    obtain ⟨hlength, hrate⟩ := hcreate _ _ _ haccepted.2
    exact h.initPlaybackContext.schedule p.initPlaybackContext_playbackCtx hlength hrate
  · exact h.initPlaybackContext.receive

namespace Player

/-- A step keeps the sources scheduled. -/
theorem step_scheduled {p q : Player} {e : PlayerEvent} (h : Scheduled p.playback p.received)
    (hq : (system createBuffer).step p e = some q) : Scheduled q.playback q.received := by
  cases e with
  | opened =>
    cases hq
    exact h.initPlaybackContext
  | message message =>
    cases message with
    | text msg =>
      cases hq
      cases msg with
      | audioFormat format turn => exact (h.setFormat format).receive
      | interrupted turn => exact .stopPlayback p.playback _
      | _ => exact h.receive
    | binary data =>
      cases hq
      exact h.handleAudioFrame hcreate data
  | ended frame =>
    obtain ⟨r, hr, rfl⟩ := Option.map_eq_some_iff.mp hq
    exact h.onended hr
  | clock now =>
    obtain ⟨r, hr, rfl⟩ := Option.map_eq_some_iff.mp hq
    exact h.advance hr
  | closed =>
    cases hq
    exact .stopPlayback p.playback _

/-- The sources of every reachable player are scheduled. -/
theorem scheduled_of_reachable {p : Player} (hr : (system createBuffer).Reachable p) :
    Scheduled p.playback p.received :=
  hr.invariant (I := fun p ↦ Scheduled p.playback p.received) .new
    fun _ _ _ _ h hq ↦ step_scheduled hcreate h hq

/-- After every run, when the context makes no buffer without samples or at no rate: the sources
in `activeSources` sound one after another in the order of their frames, all before the queue
time, the counter is their number, and `isSpeaking` says whether there are any. -/
theorem activeSources_in_order {events : List PlayerEvent} {p : Player}
    (h : (system createBuffer).run events = some p) :
    p.playback.activeSources.Pairwise (fun s t ↦
      s.frame < t.frame ∧ s.endAt ≤ t.startAt ∧ Disjoint s.interval t.interval) ∧
    (∀ s ∈ p.playback.activeSources,
      s.interval.Nonempty ∧ s.endAt ≤ p.playback.playbackQueueTime) ∧
    p.playback.scheduledSourceCount = p.playback.activeSources.length ∧
    (p.playback.isSpeaking = true ↔ p.playback.activeSources ≠ []) := by
  have hs := scheduled_of_reachable hcreate (TransitionSystem.reachable_of_run h)
  refine ⟨hs.inOrder.imp ?_, fun s hmem ↦ ?_, hs.counted, hs.speaking⟩
  · rintro s t ⟨hframe, hend⟩
    exact ⟨hframe, hend, Source.disjoint_interval hend⟩
  · exact ⟨Source.nonempty_interval (hs.sound s hmem), hs.queued s hmem⟩

end Player

end

namespace Player

open Conversation (createBuffer)

/-- An interruption stops the first source; of the three that then play back to back, the last at
another rate, the first has ended. -/
def playEvents : List PlayerEvent :=
  [.opened, .message (.binary [1, 0, 2, 0]), .message (.text (.interrupted 1)),
    .clock (1 / 22050), .message (.binary [3, 0, 4, 0]), .message (.binary [5, 0]),
    .message (.text (.audioFormat ⟨8000, 0, 0⟩ 2)), .message (.binary [6, 0]), .ended 2]

/-- The frames that are left after an interruption, of two rates, play one after the other. -/
theorem activeSources_in_order_play : ∃ p : Player,
    p.playback.activeSources = [⟨3, 3 / 22050, 1 / 22050⟩, ⟨5, 4 / 22050, 1 / 8000⟩] ∧
    Disjoint (Source.interval ⟨3, 3 / 22050, 1 / 22050⟩)
      (Source.interval ⟨5, 4 / 22050, 1 / 8000⟩) ∧
    p.playback.scheduledSourceCount = 2 ∧ p.playback.isSpeaking = true := by
  have hplay : ((system createBuffer).run playEvents).map (·.playback.activeSources) =
      some [⟨3, 3 / 22050, 1 / 22050⟩, ⟨5, 4 / 22050, 1 / 8000⟩] := by decide +kernel
  obtain ⟨p, hrun, hactive⟩ := Option.map_eq_some_iff.mp hplay
  have hcreate : ∀ channels length sampleRate, createBuffer channels length sampleRate = true →
      0 < length ∧ 0 < sampleRate := by
    intro channels length sampleRate h
    obtain ⟨-, -, hlength, hrate, -⟩ := of_decide_eq_true h
    exact ⟨hlength, by omega⟩
  obtain ⟨horder, -, hcount, hspeaking⟩ := activeSources_in_order hcreate hrun
  rw [hactive] at horder hcount hspeaking
  obtain ⟨-, -, hdisjoint⟩ := List.pairwise_pair.mp horder
  exact ⟨p, hactive, hdisjoint, hcount, hspeaking.mpr (List.cons_ne_nil _ _)⟩

end Player

/-! ### The page of a connection -/

section

variable {createBuffer : Int → Nat → Int → Bool}

/-- The playback of the page. -/
def Page.player (p : Page) : Player := ⟨p.playback, p.received⟩

private theorem Page.player_of_onmessage {p q : Page} {message : OutboundMessage}
    (h : p.onmessage createBuffer message = some q) :
    (Player.system createBuffer).step p.player (.message message) = some q.player := by
  unfold Page.onmessage at h
  split at h <;> cases h
  cases message <;> rfl

private theorem Page.player_of_handle (createBuffer : Int → Nat → Int → Bool) {p q : Page}
    {e : PageEvent} {frames : List ClientFrame} (h : p.handle e = some (q, frames)) :
    q.player = p.player ∨
      ∃ event, (Player.system createBuffer).step p.player event = some q.player := by
  obtain ⟨hr, hp⟩ := Page.handle_played h
  simp only [Page.player, hr]
  cases hp with
  | same hp => exact .inl (by rw [hp])
  | ended frame hq => exact .inr ⟨.ended frame, Option.map_eq_some_iff.mpr ⟨_, hq, rfl⟩⟩
  | clock now hq => exact .inr ⟨.clock now, Option.map_eq_some_iff.mpr ⟨_, hq, rfl⟩⟩
  | stopped hp => exact .inr ⟨.closed, by rw [hp]; rfl⟩

/-- The playback of every conversation is one of the page. -/
theorem Conversation.player_reachable {voice : String} {c : Conversation}
    (hr : (Conversation.system createBuffer voice).Reachable c) :
    (Player.system createBuffer).Reachable c.page.player := by
  refine hr.invariant (I := fun c ↦ (Player.system createBuffer).Reachable c.page.player) ?_
    fun c m c' _ hp h ↦ ?_
  · exact .next .init (rfl : (Player.system createBuffer).step ⟨.new, 0⟩ .opened = _)
  · cases Conversation.step_moved h with
    | gateway a fs w _ _ _ h =>
      subst h
      exact hp
    | page e q frames _ hq h =>
      subst h
      rcases Page.player_of_handle createBuffer hq with he | ⟨event, he⟩
      · exact he ▸ hp
      · exact hp.next he
    | receive put q _ _ hq h =>
      subst h
      exact hp.next (Page.player_of_onmessage hq)

/-- So the sources of the page in every conversation are in order. -/
theorem Conversation.page_scheduled
    (hcreate : ∀ channels length sampleRate, createBuffer channels length sampleRate = true →
      0 < length ∧ 0 < sampleRate)
    {voice : String} {c : Conversation}
    (hr : (Conversation.system createBuffer voice).Reachable c) :
    Scheduled c.page.playback c.page.received :=
  Player.scheduled_of_reachable hcreate (Conversation.player_reachable hr)

end

end BibiCore.Site
