import Mathlib.Data.List.Infix
import BibiCore.Site.Conversation

/-!
# Barge-in

A press of the talk button sends a `start` while the old answer plays. The page stops it when it
is told `interrupted`, and the session says `interrupted` when it has itself cut something off:
synthesis runs ahead of the playback, so there may be nothing left to cut.
-/

namespace BibiCore.Site

open BibiCore.Session

namespace Conversation

/-- The page has handled every frame enqueued until the start of a turn had been handled, and none
of the sources active when it sent that start is active any more. -/
def BargeInSilences (c : Conversation) : Prop :=
  ∀ (n m : Nat) (s : Start), (n + 1, m) ∈ c.handled → c.starts[n]? = some s →
    m ≤ c.page.received → ∀ f ∈ c.page.playback.playing, f ∉ s.sources

/-- An `interrupted` is among the first `k` frames enqueued and follows those the page had handled
when it sent the start, or no source of then is active any more. -/
def Stopped (c : Conversation) (s : Start) (k : Nat) : Prop :=
  (∃ p ∈ (c.gateway.puts.take k).drop s.received, isInterrupted p = true) ∨
    ∀ f ∈ c.page.playback.playing, f ∉ s.sources

instance (c : Conversation) (s : Start) (k : Nat) : Decidable (c.Stopped s k) :=
  inferInstanceAs (Decidable (_ ∨ _))

/-- When `interruptCurrentTurn` returns without an `interrupted` message, the sources of its start
are stopped already, or by an earlier message. -/
def LeavesNonePlaying (c : Conversation) : Move → Prop
  | .gateway a => c.gateway.notifying a = none → ∀ n ∈ c.gateway.returning a,
      ∀ s ∈ c.starts[n - 1]?, c.Stopped s c.gateway.puts.length
  | .page _ | .receive => True

instance (c : Conversation) (m : Move) : Decidable (c.LeavesNonePlaying m) :=
  match m with
  | .gateway _ => inferInstanceAs (Decidable (_ → _))
  | .page _ | .receive => inferInstanceAs (Decidable True)

/-! ### What the page has heard -/

/-- The page has handled frames that were written, its sources are of such frames and later than
every `interrupted` it has handled, and each of its starts is a turn or on its way. -/
structure Heard (c : Conversation) : Prop where
  received : c.page.received ≤ c.gateway.written.length
  playing : ∀ f ∈ c.page.playback.playing, f < c.page.received
  cleared : ∀ (l : Nat) (p : Put), c.gateway.puts[l]? = some p → isInterrupted p = true →
    l < c.page.received → ∀ f ∈ c.page.playback.playing, l < f
  starts : ∀ s ∈ c.starts, s.received ≤ c.page.received ∧ ∀ f ∈ s.sources, f < s.received
  count : startsRead c.gateway + c.uplink.countP isStart = c.starts.length

namespace Heard

variable {createBuffer : Int → Nat → Int → Bool} {c c' : Conversation} {m : Move}

private theorem received_puts (hc : c.Heard) : c.page.received ≤ c.gateway.puts.length := by
  have := hc.received
  rw [World.puts, List.length_append]
  omega

private theorem puts_of_lt {l : Nat} {p : Put} {w : World} (hc : c.Heard)
    (hp : c.gateway.puts <+: w.puts) (hl : l < c.page.received) (h : w.puts[l]? = some p) :
    c.gateway.puts[l]? = some p := by
  have hlt : l < c.gateway.puts.length := Nat.lt_of_lt_of_le hl hc.received_puts
  obtain ⟨new, hnew⟩ := hp
  rwa [← hnew, List.getElem?_append_left hlt] at h

/-- A step keeps what the page has heard. -/
theorem step (hc : c.Heard) (h : Moved createBuffer c c' m) : c'.Heard := by
  cases h with
  | gateway a fs w hm hf hw h =>
    subst h
    have hw' := step_written hw
    have hr := hc.received
    refine ⟨by dsimp only; omega, hc.playing, fun l p hp hi hl f hfp ↦ ?_, hc.starts, ?_⟩
    · exact hc.cleared l p (hc.puts_of_lt (step_puts hw) hl hp) hi hl f hfp
    · have hcount := hc.count
      have hread := step_startsRead hw
      have hup := countP_uplink hf
      dsimp only
      omega
  | page e p frames hm hp h =>
    subst h
    obtain ⟨hr, hsub⟩ := Page.playing_of_handle hp
    refine ⟨hr ▸ hc.received, fun f hf ↦ hr ▸ hc.playing f (hsub.subset hf),
      fun l q hq hi hl f hf ↦ ?_, fun s hs ↦ ?_, ?_⟩
    · exact hc.cleared l q hq hi (hr ▸ hl) f (hsub.subset hf)
    · dsimp only
      rw [hr]
      rcases List.mem_append.mp hs with hs | hs
      · exact hc.starts s hs
      · obtain ⟨-, -, rfl⟩ := List.mem_map.mp hs
        exact ⟨Nat.le_refl _, hc.playing⟩
    · have hcount := hc.count
      simp only [List.countP_append, List.length_append, startsIn, List.length_map,
        ← List.countP_eq_length_filter]
      omega
  | receive p q hm hp hq h =>
    subst h
    obtain ⟨hr, hnew, hint⟩ := Page.playing_of_onmessage hq
    have hlt := (List.getElem?_eq_some_iff.mp hp).1
    have hput : c.gateway.puts[c.page.received]? = some p := by
      rw [World.puts, List.getElem?_append_left hlt, hp]
    refine ⟨by dsimp only; omega, fun f hf ↦ ?_, fun l u hu hi hl f hf ↦ ?_, fun s hs ↦ ?_,
      hc.count⟩
    · rcases hnew f hf with hf | rfl
      · have := hc.playing f hf
        dsimp only
        omega
      · dsimp only
        omega
    · dsimp only at hl hf hu
      by_cases hlast : l = c.page.received
      · -- the frame just handled was an `interrupted`
        subst hlast
        obtain rfl : p = u := Option.some.inj (hput.symm.trans hu)
        unfold isInterrupted at hi
        split at hi
        · next n hmsg =>
          rw [hint n hmsg] at hf
          cases hf
        · cases hi
      · rcases hnew f hf with hf | rfl
        · exact hc.cleared l u hu hi (by omega) f hf
        · omega
    · obtain ⟨hle, hsrc⟩ := hc.starts s hs
      exact ⟨by dsimp only; omega, hsrc⟩

end Heard

/-- What the page of every reachable conversation has heard. -/
theorem heard_of_reachable {createBuffer : Int → Nat → Int → Bool} {voice : String}
    {c : Conversation} (hr : (system createBuffer voice).Reachable c) : c.Heard := by
  refine hr.invariant (I := Heard) ?_ fun c m c' _ hc h ↦ hc.step (step_moved h)
  constructor <;> simp [system, opened, World.new, Page.opened, Page.sendVoiceSelection, Page.send,
    isStart, startsRead, Playback.new,
    Playback.initPlaybackContext, Playback.playing]

/-! ### What a start has stopped -/

/-- What is stopped stays so: more is enqueued, and sources started later are not of the start. -/
theorem Stopped.mono {c c' : Conversation} {s : Start} {k k' : Nat} (h : c.Stopped s k)
    (hk : k ≤ k') (hp : c.gateway.puts <+: c'.gateway.puts)
    (hf : ∀ f ∈ c'.page.playback.playing, f ∈ c.page.playback.playing ∨ f ∉ s.sources) :
    c'.Stopped s k' := by
  rcases h with ⟨p, hmem, hi⟩ | hnone
  · refine .inl ⟨p, ?_, hi⟩
    have htake : c.gateway.puts.take k <+: c'.gateway.puts.take k' :=
      (hp.take k).trans (List.take_prefix_take_left hk)
    exact (htake.drop s.received).subset hmem
  · exact .inr fun f hmem ↦ (hf f hmem).elim (hnone f) id

/-- Once the page has handled those frames, none of the sources is active. -/
theorem Stopped.silent {c : Conversation} {s : Start} {k : Nat} (h : c.Stopped s k)
    (hc : c.Heard) (hs : s ∈ c.starts) (hk : k ≤ c.page.received) :
    ∀ f ∈ c.page.playback.playing, f ∉ s.sources := by
  rcases h with ⟨p, hmem, hi⟩ | hnone
  · intro f hf hsrc
    obtain ⟨i, hp⟩ := List.mem_iff_getElem?.mp hmem
    rw [List.getElem?_drop, List.getElem?_take] at hp
    split at hp
    · next hlt =>
      have hlater := hc.cleared _ p hp hi (by omega) f hf
      have := (hc.starts s hs).2 f hsrc
      omega
    · cases hp
  · exact hnone

/-- Every start whose interruption has returned has stopped its sources, and the frames enqueued
until it had been handled are enough for that. -/
structure Told (c : Conversation) : Prop where
  returned : ∀ (n : Nat) (s : Start), c.starts[n]? = some s →
    c.gateway.InterruptReturned (n + 1) → c.Stopped s c.gateway.puts.length
  handled : ∀ (n m : Nat) (s : Start), (n + 1, m) ∈ c.handled → c.starts[n]? = some s →
    c.Stopped s m
  turns : ∀ e ∈ c.handled, e.1 ≤ c.gateway.currentTurn

namespace Told

variable {createBuffer : Int → Nat → Int → Bool} {c : Conversation}

/-- A step of the session. -/
theorem gateway {a : Action} {fs : List ClientFrame} {w : World} (ht : c.Told) (hc : c.Heard)
    (hg : c.LeavesNonePlaying (.gateway a)) (hw : Session.system.step c.gateway a = some w) :
    Told { c with
      gateway := w
      uplink := fs
      handled := c.handled ++ (handling c.gateway a).toList.map fun n ↦ (n, w.puts.length) } := by
  have hp := step_puts hw
  have hlen : c.gateway.puts.length ≤ w.puts.length := hp.length_le
  have hturn := (step_chatStep hw).turn_le
  refine ⟨fun n s hs hret ↦ ?_, fun n m s hm hs ↦ ?_, fun e he ↦ ?_⟩
  · rcases (step_startStep hw).returned_or hret with hret | hret
    · exact (ht.returned n s hs hret).mono hlen hp fun f hf ↦ .inl hf
    · cases hn : c.gateway.notifying a with
      | some turn =>
        -- the message is enqueued now, after all the page had handled
        have hputs := puts_of_notifying hw hn
        have hle := (hc.starts s (List.mem_of_getElem? hs)).1
        have hrec := hc.received_puts
        refine .inl ⟨⟨.text (.interrupted turn), .readPump⟩, ?_, rfl⟩
        · dsimp only
          rw [List.take_length, hputs, List.drop_append_of_le_length (by omega)]
          exact List.mem_append_right _ (List.mem_singleton_self _)
      | none =>
        have hstop := hg hn (n + 1) hret s (by simpa using hs)
        exact hstop.mono hlen hp fun f hf ↦ .inl hf
  · rcases List.mem_append.mp hm with hm | hm
    · exact (ht.handled n m s hm hs).mono (Nat.le_refl _) hp fun f hf ↦ .inl hf
    · obtain ⟨k, hk, he⟩ := List.mem_map.mp hm
      cases he
      have hret := returned_of_handling (Option.mem_toList.mp hk)
      exact (ht.returned n s hs hret).mono hlen hp fun f hf ↦ .inl hf
  · rcases List.mem_append.mp he with he | he
    · exact Nat.le_trans (ht.turns e he) hturn
    · obtain ⟨k, hk, rfl⟩ := List.mem_map.mp he
      have hret := returned_of_handling (Option.mem_toList.mp hk)
      exact Nat.le_trans hret.1 hturn

/-- A step of the page: it sends starts that no turn has been made of. -/
theorem page {e : PageEvent} {p : Page} {frames : List ClientFrame} (ht : c.Told) (hc : c.Heard)
    (hp : c.page.handle e = some (p, frames)) :
    Told { c with
      page := p, uplink := c.uplink ++ frames, starts := c.starts ++ c.startsIn frames } := by
  have hsub := (Page.playing_of_handle hp).2
  have hcount := hc.count
  have hold {n : Nat} {s : Start} (hn : n < c.starts.length)
      (hs : (c.starts ++ c.startsIn frames)[n]? = some s) : c.starts[n]? = some s := by
    rwa [List.getElem?_append_left hn] at hs
  refine ⟨fun n s hs hret ↦ ?_, fun n m s hm hs ↦ ?_, ht.turns⟩
  · have hle := hret.1
    rw [startsRead] at hcount
    have hstop := ht.returned n s (hold (by dsimp only at hle; omega) hs) hret
    exact hstop.mono (Nat.le_refl _) List.prefix_rfl fun f hf ↦ .inl (hsub.subset hf)
  · have hle := ht.turns _ hm
    rw [startsRead] at hcount
    have hstop := ht.handled n m s hm (hold (by dsimp only at hle; omega) hs)
    exact hstop.mono (Nat.le_refl _) List.prefix_rfl fun f hf ↦ .inl (hsub.subset hf)

/-- A frame: a source it starts is of no start the page has sent. -/
theorem receive {p : Put} {q : Page} (ht : c.Told) (hc : c.Heard)
    (hq : c.page.onmessage createBuffer p.message = some q) : Told { c with page := q } := by
  have hnew := (Page.playing_of_onmessage hq).2.1
  have hf {s : Start} (hs : s ∈ c.starts) : ∀ f ∈ q.playback.playing,
      f ∈ c.page.playback.playing ∨ f ∉ s.sources := by
    intro f hf
    refine (hnew f hf).imp_right fun he hsrc ↦ ?_
    obtain ⟨hle, hlt⟩ := hc.starts s hs
    have := hlt f hsrc
    omega
  refine ⟨fun n s hs hret ↦ ?_, fun n m s hm hs ↦ ?_, ht.turns⟩
  · have hmem := List.mem_of_getElem? hs
    exact (ht.returned n s hs hret).mono (Nat.le_refl _) List.prefix_rfl (hf hmem)
  · have hmem := List.mem_of_getElem? hs
    exact (ht.handled n m s hm hs).mono (Nat.le_refl _) List.prefix_rfl (hf hmem)

end Told

/-- Where no start leaves anything playing, its sources are stopped when its interruption returns.
-/
theorem told_of_reachable {createBuffer : Int → Nat → Int → Bool} {voice : String}
    {c : Conversation} (hr : (system createBuffer voice).ReachableWith LeavesNonePlaying c) :
    c.Told := by
  refine hr.invariant (I := Told) ?_ fun c m c' hr ht hg h ↦ ?_
  · constructor <;> simp [system, opened]
  · have hc := heard_of_reachable hr.reachable
    cases step_moved h with
    | gateway a fs w hm hf hw he =>
      subst hm he
      exact ht.gateway hc hg hw
    | page e p frames hm hp he =>
      subst he
      exact ht.page hc hp
    | receive p q hm hp hq he =>
      subst he
      exact ht.receive hc hq

/-- As long as no `interruptCurrentTurn` returns without an `interrupted` message while sources of
its start play on, barge-in silences the old answer. -/
theorem bargeInSilences_of_leavesNonePlaying (createBuffer : Int → Nat → Int → Bool)
    (voice : String) (c : Conversation)
    (hr : (system createBuffer voice).ReachableWith LeavesNonePlaying c) :
    c.BargeInSilences := by
  intro n m s hm hs hle
  have hc := heard_of_reachable hr.reachable
  have ht := told_of_reachable hr
  exact (ht.handled n m s hm hs).silent hc (List.mem_of_getElem? hs) hle

/-- The page presses the talk button, and `actions` handle the start. -/
def pressMoves (actions : List Action) : List Move :=
  [.page (.press true), .gateway (.readPump (.frame (.text (.start ⟨0, 0, 0⟩))))] ++
    actions.map .gateway

/-- The session answers the first utterance with one sentence. -/
def answerActions : List Action :=
  endUtteranceActions ++ finalActions 0 "hi" ++ [.forwardTranscripts 0 .next] ++
    chunkActions 0 "hello" ++
    [.llmRecvPump 0 (.message ⟨.done, "", "", ""⟩), .llmRecvPump 0 .next] ++
    List.replicate 3 (.forwardLLMEvents 0 .next) ++ speakActions 0 ⟨[1, 2], 22050, 1, 2⟩ ++
    List.replicate 3 (.ttsWorker (.select .put)) ++ List.replicate 4 .write

/-- The synthesis of the sentence ends. -/
def finishActions : List Action :=
  [.ttsRecvPump 0 .eof, .ttsRecvPump 0 .next, .ttsWorker .next, .ttsWorker .next]

/-- The page asks something, with the default voice, and plays the answer. -/
def answerMoves : List Move :=
  [.gateway (.readPump (.frame (.text (.setVoice ""))))] ++
    pressMoves (List.replicate 6 (.readPump .next) ++ [.readPump .openOk, .readPump .next]) ++
    [.page .micGranted, .page .release] ++ answerActions.map .gateway ++
    List.replicate 4 .receive

/-- An audio context that takes what the Web Audio API asks for at least. -/
def createBuffer (channels : Int) (length : Nat) (sampleRate : Int) : Bool :=
  decide (1 ≤ channels ∧ channels ≤ 32 ∧ 0 < length ∧ 8000 ≤ sampleRate ∧ sampleRate ≤ 96000)

/-- The sentence is still being synthesised when the next start cuts it off. -/
theorem bargeInSilences_of_leavesNonePlaying_run : ∃ c : Conversation, c.BargeInSilences ∧
    (2, 5) ∈ c.handled ∧ c.starts[1]? = some ⟨[3], 4⟩ ∧ c.page.received = 5 := by
  have hc : ∃ c, (system createBuffer "").runGuarded LeavesNonePlaying (system createBuffer "").init
      (answerMoves ++ pressMoves (List.replicate 5 (Action.readPump .next) ++
        [Action.readPump (.select .put), .readPump .next, .readPump .openOk,
          .readPump .next, .write]) ++ [Move.receive]) = some c ∧
      (2, 5) ∈ c.handled ∧ c.starts[1]? = some ⟨[3], 4⟩ ∧ c.page.received = 5 :=
    ⟨_, rfl, by decide, rfl, rfl⟩
  obtain ⟨c, hrun, hh, hs, hr⟩ := hc
  have hr' := TransitionSystem.ReachableWith.runGuarded .init hrun
  exact ⟨c, bargeInSilences_of_leavesNonePlaying createBuffer "" c hr', hh, hs, hr⟩

/-- The session has sent all of the sentence when the next start arrives: there is nothing to
interrupt, and the page plays on. -/
theorem not_bargeInSilences : ∃ c, (system createBuffer "").run (answerMoves ++
      finishActions.map .gateway ++
      pressMoves (List.replicate 6 (.readPump .next) ++ [.readPump .openOk, .readPump .next])) =
        some c ∧
    (2, 4) ∈ c.handled ∧ c.starts[1]? = some ⟨[3], 4⟩ ∧ c.page.received = 4 ∧
      c.page.playback.playing = [3] ∧ ¬ c.BargeInSilences := by
  have hc : ∃ c, (system createBuffer "").run (answerMoves ++
      finishActions.map .gateway ++
      pressMoves (List.replicate 6 (Action.readPump .next) ++
        [Action.readPump .openOk, .readPump .next])) = some c ∧
      (2, 4) ∈ c.handled ∧ c.starts[1]? = some ⟨[3], 4⟩ ∧ c.page.received = 4 ∧
        c.page.playback.playing = [3] := ⟨_, rfl, by decide, rfl, rfl, rfl⟩
  obtain ⟨c, hrun, hh, hs, hr, hp⟩ := hc
  refine ⟨c, hrun, hh, hs, hr, hp, fun h ↦ ?_⟩
  exact h 1 4 ⟨[3], 4⟩ hh hs (Nat.le_of_eq hr.symm) 3 (by simp [hp]) (by simp)

end Conversation
end BibiCore.Site
