import BibiCore.Session.History
import BibiCore.Session.SentFrames

/-!
# The format of the microphone audio

`session.go:185`–`282`. The format a `start` declares is stored before the turn begins, and every
frame carries the one that is stored when the frame arrives. The stream of a turn is stored after
its format, so a frame that finds a stream carries the format of the start that opened the stream.
-/

namespace BibiCore.Session

open BibiCore.Gateway World

/-- The format `setAudioFormat` stores for a client's `start`. -/
def declaredBy : Action → Option AudioFormatInfo
  | .readPump (.frame (.text (.start format))) => some (setAudioFormat format)
  | _ => none

/-- The formats of the starts of a run, that of turn 1 first. -/
def declared (as : List Action) : List AudioFormatInfo := as.filterMap declaredBy

/-- Every field of a format is positive. -/
def Positive (format : AudioFormatInfo) : Prop :=
  0 < format.sampleRate ∧ 0 < format.channels ∧ 0 < format.sampleWidth

/-- `setAudioFormat` stores nothing else. -/
theorem positive_setAudioFormat (msg : AudioFormatInfo) : Positive (setAudioFormat msg) := by
  have field (x : Int) {d : Int} (hd : 0 < d) : 0 < if x > 0 then x else d := by
    split <;> assumption
  exact ⟨field _ (by decide), field _ (by decide), field _ (by decide)⟩

private theorem positive_of_mem_declared {as : List Action} {format : AudioFormatInfo}
    (h : format ∈ declared as) : Positive format := by
  obtain ⟨a, -, ha⟩ := List.mem_filterMap.mp h
  unfold declaredBy at ha
  split at ha <;> cases ha
  exact positive_setAudioFormat _

/-! ### What gives a frame its format -/

/-- The part of a session that gives a frame its stream and its format. -/
structure FormatView where
  turn : Nat
  reader : ReadPc
  format : Option AudioFormatInfo
  stored : Option Nat
  /-- the turns whose starts opened the streams -/
  turns : List Nat

def World.formats (w : World) : FormatView :=
  ⟨w.currentTurn, w.reader, w.audioFormat, w.sttStream, w.stt.map SttCall.startTurn⟩

/-- Only `readPump` moves it. -/
theorem step_sameFormats {w w' : World} {a : Action} (h : system.step w a = some w')
    (hr : ∀ b, a ≠ .readPump b) : w'.formats = w.formats := by
  have turns {i : Nat} {g : SttCall → SttCall} (hg : ∀ c, (g c).startTurn = c.startTurn) :
      (w.stt.modify i g).map SttCall.startTurn = w.stt.map SttCall.startTurn :=
    List.map_modify_of_eq fun c _ ↦ hg c
  cases a with
  | readPump b => exact absurd rfl (hr b)
  | audioSendWorker b =>
    obtain ⟨send, dropped, queue, pc, i, g, rfl, -, hg⟩ := audioSendWorker_footprint h
    exact congrArg (FormatView.mk _ _ _ _) (turns fun c ↦ (hg c).1)
  | forwardTranscripts i b =>
    obtain ⟨c, send, dropped, active, llm, g, hc, rfl, -, -, hg, -⟩ :=
      forwardTranscripts_footprint h
    refine congrArg (FormatView.mk _ _ _ _) (List.map_modify_of_eq fun d hd ↦ ?_)
    obtain rfl : c = d := Option.some.inj (hc.symm.trans hd)
    exact congrArg Prod.fst hg
  | forwardLLMEvents j b =>
    obtain ⟨send, dropped, active, queue, history, answered, g, rfl, -⟩ :=
      forwardLLMEvents_footprint h
    rfl
  | ttsWorker b =>
    obtain ⟨send, dropped, queue, taken, active, pc, tts, rfl, -⟩ := ttsWorkerStep_footprint h
    rfl
  | sttRecvPump i b =>
    obtain ⟨c, s, -, -, rfl⟩ := sttRecvPump_eq_some h
    exact congrArg (FormatView.mk _ _ _ _) (turns fun _ ↦ rfl)
  | llmRecvPump j b =>
    obtain ⟨c, s, -, -, rfl⟩ := llmRecvPump_eq_some h
    rfl
  | ttsRecvPump k b =>
    obtain ⟨c, s, -, -, rfl⟩ := ttsRecvPump_eq_some h
    rfl
  | write =>
    obtain ⟨send, written, rfl, -⟩ := write_eq_some h
    rfl
  | stopWriting =>
    obtain rfl := stopWriting_eq_some h
    rfl

/-- The stream the current turn has, once `startStream` has opened it and whether it has stored it
yet or not. -/
@[simp] def ReadPc.current (stored : Option Nat) : ReadPc → Option Nat
  | .store i => some i
  | .idle | .report _ _ | .offer _ | .finish _ | .returned | .done => stored
  | _ => none

/-- What a step of `readPump` can do to it, with the format it has declared. -/
inductive FormatStep (v v' : FormatView) : Option AudioFormatInfo → Prop
  | start (format : AudioFormatInfo) (hr : v.reader = .idle)
      (h : v' = { v with format := some format, reader := .addTurn }) :
      FormatStep v v' (some format)
  | addTurn (hr : v.reader = .addTurn)
      (h : v' = { v with turn := v.turn + 1, reader := .swap (v.turn + 1) }) : FormatStep v v' none
  | opened (turn : Nat) (hr : v.reader = .opening turn)
      (h : v' = { v with turns := v.turns ++ [turn], reader := .store v.turns.length }) :
      FormatStep v v' none
  | move (reader : ReadPc) (stored : Option Nat)
      (h : v' = { v with reader := reader, stored := stored })
      (hr : v.reader ≠ .addTurn) (hr' : reader ≠ .addTurn)
      (hs : ∀ n, reader.starting = some n → v.reader.starting = some n)
      (hc : ∀ i, reader.current stored = some i → v.reader.current v.stored = some i) :
      FormatStep v v' none

private theorem readPump_formatStep {w w' : World} {a : ReadAction} (h : w.readPump a = some w') :
    FormatStep w.formats w'.formats (declaredBy (.readPump a)) := by
  have turns {i : Nat} {g : SttCall → SttCall} (hg : ∀ c, (g c).startTurn = c.startTurn) :
      (w.stt.modify i g).map SttCall.startTurn = w.stt.map SttCall.startTurn :=
    List.map_modify_of_eq fun c _ ↦ hg c
  have stay (reader : ReadPc) (stored : Option Nat) {v : World}
      (hv : v.formats = { w.formats with reader := reader, stored := stored })
      (hr : w.reader ≠ .addTurn) (hr' : reader ≠ .addTurn)
      (hs : ∀ n, reader.starting = some n → w.reader.starting = some n)
      (hc : ∀ i, reader.current stored = some i → w.reader.current w.sttStream = some i) :
      FormatStep w.formats v.formats none := .move reader stored hv hr hr' hs hc
  cases readStep_of_readPump h with
  | start format hr => exact .start _ hr rfl
  | addTurn hr => exact .addTurn hr rfl
  | opened turn hr => exact .opened turn hr (by simp [World.formats, SttCall.opened])
  | closeOld turn i hr =>
    exact stay _ _ (congrArg (FormatView.mk _ _ _ _) (turns fun _ ↦ rfl)) (by simp [hr]) (by simp)
      (by simp [hr]) (by simp)
  | store i hr =>
    exact stay _ _ (congrArg (FormatView.mk _ _ _ _) (turns fun _ ↦ rfl)) (by simp [hr]) (by simp)
      (by simp) (by simp [hr])
  | report _ _ _ _ hr hv | notify _ _ _ hr hv | openFailed _ _ hr hv =>
    obtain ⟨send, dropped, rfl, -⟩ := sendJSON_eq_some hv
    exact stay _ _ rfl (by simp [hr]) (by simp) (by simp [hr]) (by simp [hr])
  | setVoice voice hr | noUtterance hr =>
    exact stay _ _ rfl (by simp [hr]) (by simp [hr]) (by simp) (by simp)
  | storeNil hr => exact stay _ none rfl (by simp [hr]) (by simp) (by simp) (by simp)
  | noStream _ hr | audio _ _ hr | malformed hr | other _ hr | endUtterance _ hr | readError hr
  | enqueue _ _ hr | dropFrame _ hr | swap _ hr | closeLLM _ _ _ hr | noLLM _ _ hr
  | closeTTS _ _ _ hr | noTTS _ _ hr | drainJob _ _ _ _ hr | interrupted _ hr
  | notInterrupted _ hr | noOld _ hr | openError _ hr | enqueueFinish _ _ hr | finishDone _ hr
  | returned hr =>
    exact stay _ _ rfl (by simp [hr]) (by simp) (by simp [hr]) (by simp [hr])

/-- The starts of a run have declared `formats`, and the stored format is the last one; each stream
was opened by one of them, and the stream frames are accepted for by the last one. -/
structure FormatView.Declared (formats : List AudioFormatInfo) (v : FormatView) : Prop where
  count : formats.length = v.turn + if v.reader = .addTurn then 1 else 0
  last : v.format = formats.getLast?
  turns : ∀ t ∈ v.turns, 0 < t ∧ t ≤ v.turn
  starting : ∀ n, v.reader.starting = some n → n = v.turn ∧ 0 < n
  current : ∀ i, v.reader.current v.stored = some i → v.turns[i]? = some v.turn

/-- Every step keeps the formats in their places. -/
theorem FormatView.Declared.step {formats : List AudioFormatInfo} {v v' : FormatView}
    {format : Option AudioFormatInfo} (hv : v.Declared formats) (h : FormatStep v v' format) :
    v'.Declared (formats ++ format.toList) := by
  have hcount := hv.count
  cases h with
  | start format hr h =>
    subst h
    refine ⟨?_, List.getLast?_concat.symm, hv.turns, by simp, by simp⟩
    simp only [hr, reduceCtorEq, if_false] at hcount
    simp [hcount]
  | addTurn hr h =>
    subst h
    simp only [hr, if_true] at hcount
    refine ⟨by simpa using hcount, by simpa using hv.last, fun t ht ↦ ?_, by simp, by simp⟩
    have := hv.turns t ht
    exact ⟨this.1, Nat.le_succ_of_le this.2⟩
  | opened turn hr h =>
    subst h
    obtain ⟨rfl, hpos⟩ := hv.starting turn (by simp [hr])
    simp only [hr, reduceCtorEq, if_false] at hcount
    refine ⟨by simpa using hcount, by simpa using hv.last, fun t ht ↦ ?_, by simp, by simp⟩
    rcases List.mem_append.mp ht with ht | ht
    · exact hv.turns t ht
    · obtain rfl := List.mem_singleton.mp ht
      exact ⟨hpos, le_rfl⟩
  | move reader stored h hr hr' hs hc =>
    subst h
    rw [if_neg hr] at hcount
    refine ⟨by simpa [hr'] using hcount, by simpa using hv.last, hv.turns, fun n hn ↦ ?_,
      fun i hi ↦ hv.current i (hc i hi)⟩
    exact hv.starting n (hs n hn)

/-- Before the next turn begins, the stored format is that of the current turn. -/
theorem FormatView.Declared.last_of_pos {formats : List AudioFormatInfo} {v : FormatView}
    (hv : v.Declared formats) (hr : v.reader ≠ .addTurn) (hpos : 0 < v.turn) :
    ∃ format, v.format = some format ∧ formats[v.turn - 1]? = some format := by
  have hcount := hv.count
  rw [if_neg hr, Nat.add_zero] at hcount
  have hlt : v.turn - 1 < formats.length := by omega
  refine ⟨formats[v.turn - 1], ?_, List.getElem?_eq_getElem hlt⟩
  rw [hv.last, List.getLast?_eq_getElem?, hcount, List.getElem?_eq_getElem hlt]

/-! ### The frames -/

/-- A frame is in the format that the start which opened its stream has declared. -/
def FormatView.InFormat (formats : List AudioFormatInfo) (v : FormatView) (f : AudioFrame) : Prop :=
  ∃ t, v.turns[f.enqueuedFor]? = some t ∧ 0 < t ∧ formats[t - 1]? = some f.format

/-- It stays so, for the formats and the streams are in their places. -/
theorem FormatView.InFormat.step {formats : List AudioFormatInfo} {v v' : FormatView}
    {format : Option AudioFormatInfo} {f : AudioFrame} (hf : v.InFormat formats f)
    (h : FormatStep v v' format) : v'.InFormat (formats ++ format.toList) f := by
  obtain ⟨t, ht, hpos, hformat⟩ := hf
  refine ⟨t, ?_, hpos, List.getElem?_append_of_eq_some hformat _⟩
  cases h with
  | opened turn hr h =>
    rw [h]
    exact List.getElem?_append_of_eq_some ht _
  | start _ _ h | addTurn _ h | move _ _ h =>
    rw [h]
    exact ht

/-- A frame that `readPump` comes to hold is of the stored stream and in the stored format. -/
theorem readPump_holds {w w' : World} {a : ReadAction} (h : w.readPump a = some w')
    {f : AudioFrame} (hf : w'.reader.Offers f) :
    w.reader = .idle ∧ w.sttStream = some f.enqueuedFor ∧ f.format = w.getAudioFormat := by
  cases readStep_of_readPump h with
  | audio data i hr hs | endUtterance i hr hs =>
    simp only [ReadPc.Offers, reduceCtorEq, ReadPc.offer.injEq, ReadPc.finish.injEq, or_false,
      false_or] at hf
    rw [← hf]
    exact ⟨hr, hs, rfl⟩
  | setVoice _ hr | noUtterance hr => simp [ReadPc.Offers, hr] at hf
  | _ => simp [ReadPc.Offers] at hf

/-- In every run, the formats are in their places, and the frames accepted and in hand in theirs. -/
theorem inFormat_of_run {as : List Action} {w : World} (h : system.run as = some w) :
    w.formats.Declared (declared as) ∧
      ∀ f, f ∈ accepted as ∨ w.reader.Offers f → w.formats.InFormat (declared as) f := by
  refine TransitionSystem.run_induction (J := fun as w ↦ w.formats.Declared (declared as) ∧
    ∀ f, f ∈ accepted as ∨ w.reader.Offers f → w.formats.InFormat (declared as) f) ?_ ?_ h
  · refine ⟨⟨rfl, rfl, ?_, ?_, ?_⟩, ?_⟩
    all_goals simp [system, World.new, World.formats, accepted, TransitionSystem.emitted,
      ReadPc.Offers]
  · rintro as s a t hrun ⟨hs, hframes⟩ hstep
    have he : accepted (as ++ [a]) = accepted as ++ acceptedBy s a :=
      TransitionSystem.emitted_concat hrun hstep
    have hd : declared (as ++ [a]) = declared as ++ (declaredBy a).toList := by
      cases ha : declaredBy a <;> simp [declared, ha]
    rw [he, hd]
    -- what was accepted now was in hand before
    have hold : ∀ f, f ∈ accepted as ++ acceptedBy s a → s.formats.InFormat (declared as) f :=
      fun f hf ↦ hframes f ((List.mem_append.mp hf).imp id offers_of_mem_acceptedBy)
    by_cases hr : ∃ b, a = .readPump b
    · obtain ⟨b, rfl⟩ := hr
      have hmove := readPump_formatStep hstep
      refine ⟨hs.step hmove, fun f hf ↦ ?_⟩
      rcases hf with hf | hf
      · exact (hold f hf).step hmove
      · obtain ⟨hidle, hstored, hformat⟩ := readPump_holds hstep hf
        have hturn := hs.current f.enqueuedFor (by simpa [World.formats, hidle] using hstored)
        have hpos := (hs.turns _ (List.mem_of_getElem? hturn)).1
        obtain ⟨format, hlast, hdeclared⟩ := hs.last_of_pos (by simp [World.formats, hidle]) hpos
        have hin : s.formats.InFormat (declared as) f := by
          refine ⟨_, hturn, hpos, ?_⟩
          rw [hdeclared, hformat, World.getAudioFormat, show s.audioFormat = some format from hlast]
          rfl
        exact hin.step hmove
    · have hr : ∀ b, a ≠ .readPump b := fun b hb ↦ hr ⟨b, hb⟩
      have hnone : declaredBy a = none := by
        unfold declaredBy
        split
        · exact absurd rfl (hr _)
        · rfl
      have hsame := step_sameFormats hstep hr
      rw [hsame, hnone, Option.toList_none, List.append_nil]
      refine ⟨hs, fun f hf ↦ ?_⟩
      rcases hf with hf | hf
      · exact hold f hf
      · have hreader : t.reader = s.reader := congrArg FormatView.reader hsame
        exact hframes f (.inr (hreader ▸ hf))

/-- What was sent on a stream was accepted. -/
theorem accepted_of_sent {as : List Action} {w : World} (h : system.run as = some w) {i : Nat}
    {c : SttCall} (hc : w.stt[i]? = some c) {f : AudioFrame} (hf : f ∈ c.sent) :
    f ∈ accepted as := by
  obtain ⟨taken, htaken, hsent⟩ := inOrder_of_run h
  rw [htaken]
  exact List.mem_append_left _ (List.mem_append_left _ ((hsent i c hc).subset hf))

/-- In every run, what was accepted is in a format whose fields are positive. -/
theorem positive_of_mem_accepted {as : List Action} {w : World} (h : system.run as = some w)
    {f : AudioFrame} (hf : f ∈ accepted as) : Positive f.format := by
  obtain ⟨t, -, -, hformat⟩ := (inFormat_of_run h).2 f (.inl hf)
  exact positive_of_mem_declared (List.mem_of_getElem? hformat)

/-! ### The frames of a stream -/

/-- Every frame on its way belongs to the stream it will meet, and every frame sent to the stream it
was sent on. -/
structure SentOnStream (w : World) : Prop where
  onStream : OnStream w
  sent : ∀ (i : Nat) (c : SttCall), w.stt[i]? = some c → ∀ f ∈ c.sent, f.enqueuedFor = i

private theorem SentOnStream.sent_of_givesNothing {w w' : World} (hw : SentOnStream w)
    (hg : GivesNothing w w') (i : Nat) (d : SttCall) (hd : w'.stt[i]? = some d) :
    ∀ f ∈ d.sent, f.enqueuedFor = i := by
  rcases hg i d hd with hg | ⟨c, hc, hg⟩ <;> simp only [SttCall.given, Prod.mk.injEq] at hg
  · simp [hg]
  · rw [hg.2.1]
    exact hw.sent i c hc

private theorem SentOnStream.sent_modify {w : World} (hw : SentOnStream w) {k : Nat}
    {g : SttCall → SttCall} (hg : ∀ c, ∀ f ∈ (g c).sent, f ∈ c.sent ∨ f.enqueuedFor = k) (i : Nat)
    (d : SttCall) (hd : (w.stt.modify k g)[i]? = some d) : ∀ f ∈ d.sent, f.enqueuedFor = i := by
  intro f hf
  rcases List.getElem?_modify_eq_some.mp hd with ⟨-, hd⟩ | ⟨rfl, c, hc, rfl⟩
  · exact hw.sent i d hd f hf
  · exact (hg c f hf).elim (hw.sent _ c hc f) id

private theorem SentOnStream.audioSendWorker {w w' : World} {a : AudioAction} (hw : SentOnStream w)
    (h : w.audioSendWorker a = some w') : SentOnStream w' := by
  refine ⟨hw.onStream.audioSendWorker h, ?_⟩
  cases audioStep_of_audioSendWorker h with
  | quit | dequeue | noStream | check | sendError => exact hw.sent
  | report message b v hp hv =>
    obtain ⟨send, dropped, rfl, -⟩ := sendJSON_eq_some hv
    exact hw.sent
  | pass frame i | closeSend frame i =>
    exact hw.sent_modify fun c f hf ↦ .inl hf
  | sendOk frame i hp =>
    have hlooked := hw.onStream.looked frame i (.inr (.inl hp))
    refine hw.sent_modify fun c f hf ↦ ?_
    refine (List.mem_append.mp hf).imp id fun hf ↦ ?_
    rw [List.mem_singleton.mp hf]
    exact hlooked

/-- As long as no start stores its stream over a waiting frame. -/
theorem sentOnStream_of_storesOnEmptyQueue {w : World}
    (hr : system.ReachableWith StoresOnEmptyQueue w) : SentOnStream w := by
  refine hr.invariant (I := SentOnStream) ?_ fun w a w' hr hw hp h ↦ ?_
  · refine ⟨?_, by simp [system, World.new]⟩
    constructor <;> simp [system, World.new, FramesStayOnStream]
  · cases a with
    | readPump b =>
      exact ⟨hw.onStream.readPump (tagsCurrent_of_reachable hr.reachable) hp h,
        hw.sent_of_givesNothing (readPump_mic h).2.1⟩
    | audioSendWorker b => exact hw.audioSendWorker h
    | _ =>
      obtain ⟨hq, hs, ha, -, hg⟩ := step_mic_same h (by simp) (by simp)
      exact ⟨hw.onStream.of_same hq hs ha hg, hw.sent_of_givesNothing hg⟩

/-- In every run: a frame accepted for a stream is in the format of the start that opened the
stream, in which no field is zero or negative; and as long as no start stores its stream over a
waiting frame, all that is sent on a stream is in that one format. -/
theorem frames_in_declared_format (as : List Action) (w : World) (h : system.run as = some w) :
    (∀ f ∈ accepted as, ∃ c, w.stt[f.enqueuedFor]? = some c ∧
      (declared as)[c.startTurn - 1]? = some f.format ∧ Positive f.format) ∧
    (system.Along StoresOnEmptyQueue system.init as → ∀ (i : Nat) (c : SttCall),
      w.stt[i]? = some c → ∀ f ∈ c.sent, (declared as)[c.startTurn - 1]? = some f.format) := by
  obtain ⟨-, hframes⟩ := inFormat_of_run h
  have hall : ∀ f ∈ accepted as, ∃ c, w.stt[f.enqueuedFor]? = some c ∧
      (declared as)[c.startTurn - 1]? = some f.format := by
    intro f hf
    obtain ⟨t, ht, -, hformat⟩ := hframes f (.inl hf)
    obtain ⟨c, hc, rfl⟩ := by simpa [World.formats] using ht
    exact ⟨c, hc, hformat⟩
  refine ⟨fun f hf ↦ ?_, fun halong i c hc f hf ↦ ?_⟩
  · obtain ⟨c, hc, hformat⟩ := hall f hf
    exact ⟨c, hc, hformat, positive_of_mem_accepted h hf⟩
  · have hsent := sentOnStream_of_storesOnEmptyQueue (.runFrom .init halong h)
    obtain ⟨d, hd, hformat⟩ := hall f (accepted_of_sent h hc hf)
    rw [hsent.sent i c hc f hf, hc] at hd
    obtain rfl := Option.some.inj hd
    exact hformat

/-- A client that declares 48 kHz for its first turn and nothing for its second. -/
def twoFormatsActions : List Action :=
  .readPump (.frame (.text (.start ⟨48000, 2, 2⟩))) :: startActions.tail ++
    [Action.readPump (.frame (.binary [1, 0])), .readPump .next, .audioSendWorker .dequeue,
      .audioSendWorker .next, .audioSendWorker .next, .audioSendWorker .sendOk] ++
    .readPump (.frame (.text (.start ⟨0, 0, 0⟩))) :: startActions.tail ++
    [Action.readPump (.frame (.binary [2, 0])), .readPump .next, .audioSendWorker .dequeue,
      .audioSendWorker .next, .audioSendWorker .next, .audioSendWorker .sendOk]

/-- Each of its streams is sent one frame, in the format of its own turn. -/
theorem frames_in_declared_format_two : ∃ (w : World) (c d : SttCall) (f g : AudioFrame),
    w.stt = [c, d] ∧ c.sent = [f] ∧ d.sent = [g] ∧
    (declared twoFormatsActions)[c.startTurn - 1]? = some f.format ∧
    (declared twoFormatsActions)[d.startTurn - 1]? = some g.format ∧
    f.format = ⟨48000, 2, 2⟩ ∧ g.format = ⟨16000, 1, 2⟩ := by
  have hw : ∃ w c d f g, system.runGuarded StoresOnEmptyQueue system.init twoFormatsActions =
      some w ∧ w.stt = [c, d] ∧ c.sent = [f] ∧ d.sent = [g] ∧
      f.format = ⟨48000, 2, 2⟩ ∧ g.format = ⟨16000, 1, 2⟩ :=
    ⟨_, _, _, _, _, rfl, rfl, rfl, rfl, rfl, rfl⟩
  obtain ⟨w, c, d, f, g, hrun, hstt, hc, hd, hf, hg⟩ := hw
  obtain ⟨hrun, halong⟩ := TransitionSystem.along_of_runGuarded hrun
  obtain ⟨-, hsent⟩ := frames_in_declared_format twoFormatsActions w hrun
  refine ⟨w, c, d, f, g, hstt, hc, hd, ?_, ?_, hf, hg⟩
  · exact hsent halong 0 c (by simp [hstt]) f (by simp [hc])
  · exact hsent halong 1 d (by simp [hstt]) g (by simp [hd])

end BibiCore.Session
