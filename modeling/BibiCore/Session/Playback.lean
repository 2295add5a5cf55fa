import BibiCore.Session.Footprint

/-!
# Audio formats and the audio they describe

`synthesizeAndSend`, `session.go:481`–`518`: the format of a job's first chunk goes through
`sendJSON`, which may drop it, and the audio through a blocking send, which may not.
-/

namespace BibiCore.Session

open BibiCore.Gateway World

/-- The format a message announces, with who announces it. -/
def Put.format? (p : Put) : Option (AudioFormatInfo × Origin) :=
  match p.message with
  | .text (.audioFormat format _) => some (format, p.origin)
  | _ => none

/-- The most recent announcement among messages. -/
def lastFormat (ps : List Put) : Option (AudioFormatInfo × Origin) :=
  (ps.filterMap Put.format?).getLast?

namespace World

/-- The chunks job `k` has taken off its stream. -/
def heard (w : World) (k : Nat) : Option (List AudioChunk) :=
  (w.tts[k]?).map fun c ↦ c.stream.consumed

/-- The format of job `k`'s first chunk. -/
def firstFormat (w : World) (k : Nat) : Option AudioFormatInfo :=
  match w.heard k with
  | some (.audio _ format :: _) => some format
  | _ => none

end World

/-- Every binary frame among the messages is some job's, and the most recent announcement
before it is that job's and carries the format of its first chunk. -/
def AnnouncedIn (first : Nat → Option AudioFormatInfo) (ps : List Put) : Prop :=
  ∀ (i : Nat) (data : List UInt8) (o : Origin), ps[i]? = some ⟨.binary data, o⟩ →
    ∃ k format, o = .synthesizeAndSend k ∧ first k = some format ∧
      lastFormat (ps.take i) = some (format, o)

/-- Every binary frame put on `s.send` is preceded by the announcement of its job. -/
def FormatsAnnounced (w : World) : Prop := AnnouncedIn w.firstFormat w.puts

/-- `synthesizeAndSend` is about to announce a format. -/
def TtsPc.announcing : TtsPc → Bool
  | .job _ (.sendFormat _ _) => true
  | _ => false

/-- An announcement is put on `s.send`, neither dropped nor given up on a done context. -/
def PutsFormat (w : World) (a : Action) : Prop :=
  w.ttsWorker.announcing = true →
    a ≠ .ttsWorker (.select .done) ∧ a ≠ .ttsWorker (.select .dropped)

instance (w : World) (a : Action) : Decidable (PutsFormat w a) :=
  inferInstanceAs (Decidable (_ → _))

/-! ### Announcements in a list of messages -/

/-- Messages that announce nothing keep the last announcement. -/
theorem lastFormat_append {ps new : List Put} (h : ∀ p ∈ new, p.format? = none) :
    lastFormat (ps ++ new) = lastFormat ps := by
  have hn : new.filterMap Put.format? = [] := List.filterMap_eq_nil_iff.mpr h
  rw [lastFormat, lastFormat, List.filterMap_append, hn, List.append_nil]

/-- An announcement is the last one once it is put. -/
theorem lastFormat_concat {ps : List Put} {format : AudioFormatInfo} {turn : Nat} {o : Origin} :
    lastFormat (ps ++ [⟨.text (.audioFormat format turn), o⟩]) = some (format, o) := by
  simp [lastFormat, Put.format?]

namespace AnnouncedIn

variable {first first' : Nat → Option AudioFormatInfo} {ps new : List Put}

/-- First formats, once known, stay. -/
theorem mono (h : AnnouncedIn first ps) (hf : ∀ k f, first k = some f → first' k = some f) :
    AnnouncedIn first' ps := by
  intro i data o hi
  obtain ⟨k, format, ho, hk, hl⟩ := h i data o hi
  exact ⟨k, format, ho, hf k format hk, hl⟩

/-- Text messages may follow. -/
theorem append_text (h : AnnouncedIn first ps)
    (hn : ∀ p ∈ new, ∀ data, p.message ≠ .binary data) : AnnouncedIn first (ps ++ new) := by
  intro i data o hi
  rcases Nat.lt_or_ge i ps.length with hlt | hge
  · rw [List.getElem?_append_left hlt] at hi
    rw [List.take_append_of_le_length (Nat.le_of_lt hlt)]
    exact h i data o hi
  · rw [List.getElem?_append_right hge] at hi
    exact absurd rfl (hn _ (List.mem_of_getElem? hi) data)

/-- A frame of the job that announced last may follow. -/
theorem append_binary {k : Nat} {format : AudioFormatInfo} {data : List UInt8}
    (h : AnnouncedIn first ps) (hf : first k = some format)
    (hl : lastFormat ps = some (format, .synthesizeAndSend k)) :
    AnnouncedIn first (ps ++ [⟨.binary data, .synthesizeAndSend k⟩]) := by
  intro i data' o hi
  rcases List.getElem?_concat_eq_some.mp hi with hi' | ⟨rfl, he⟩
  · have hlt : i < ps.length := (List.getElem?_eq_some_iff.mp hi').1
    rw [List.take_append_of_le_length (Nat.le_of_lt hlt)]
    exact h i data' o hi'
  · cases he
    exact ⟨k, format, rfl, hf, by rw [List.take_left']; exacts [hl, rfl]⟩

end AnnouncedIn

/-! ### The goroutines that play nothing -/

/-- A text message other than an announcement. -/
def Put.Silent (p : Put) : Prop := p.format? = none ∧ ∀ data, p.message ≠ .binary data

/-- What a step that is not `ttsWorker`'s leaves of the playback. -/
structure SamePlayback (w w' : World) : Prop where
  ttsWorker : w'.ttsWorker = w.ttsWorker
  heard : w'.heard = w.heard
  puts : ∃ new, w'.puts = w.puts ++ new ∧ ∀ p ∈ new, p.Silent

private theorem heard_of_map {w w' : World}
    (h : w'.tts.map (fun c ↦ c.stream.consumed) = w.tts.map fun c ↦ c.stream.consumed) :
    w'.heard = w.heard := by
  funext k
  rw [World.heard, World.heard, ← List.getElem?_map, ← List.getElem?_map, h]

private theorem Sends.silent {w w' : World} {dropped : List (ControlMessage × Nat)} {o : Origin}
    (h : Sends w w'.send dropped o ControlMessage.Plain) (hw : w'.written = w.written) :
    ∃ new, w'.puts = w.puts ++ new ∧ ∀ p ∈ new, p.Silent := by
  obtain ⟨new, hn, hp⟩ := h.puts
  refine ⟨new, by rw [World.puts, World.puts, hn, hw, List.append_assoc], fun p hm ↦ ?_⟩
  obtain ⟨-, m, hm, hplain⟩ := hp p hm
  constructor
  · rw [Put.format?, hm]
    cases m <;> first | rfl | cases hplain
  · simp [hm]

private theorem sendJSON_silent {w v : World} {o : Origin} {m : ControlMessage} {b : Branch}
    (hm : ∀ f t, m ≠ .audioFormat f t) (h : w.sendJSON o m b = some v) :
    v.ttsWorker = w.ttsWorker ∧ v.heard = w.heard ∧
      ∃ new, v.puts = w.puts ++ new ∧ ∀ p ∈ new, p.Silent := by
  obtain ⟨send, dropped, rfl, hs⟩ := sendJSON_eq_some h
  refine ⟨rfl, rfl, ?_⟩
  rcases hs with ⟨hs, -⟩ | ⟨rfl, -, -⟩ | ⟨rfl, -, -⟩
  · refine ⟨[⟨.text m, o⟩], by simp [puts, hs], fun p hp ↦ ?_⟩
    rw [List.mem_singleton.mp hp]
    exact ⟨by cases m <;> first | rfl | exact absurd rfl (hm _ _), by simp⟩
  · exact ⟨[], by simp [puts], by simp⟩
  · exact ⟨[], by simp [puts], by simp⟩

/-- No step but one of `ttsWorker` changes what is played. -/
theorem step_samePlayback {w w' : World} {a : Action} (h : system.step w a = some w')
    (ha : ∀ b, a ≠ .ttsWorker b) : SamePlayback w w' := by
  have same {w' : World} (hp : w'.puts = w.puts) :
      ∃ new, w'.puts = w.puts ++ new ∧ ∀ p ∈ new, p.Silent := ⟨[], by simp [hp], by simp⟩
  cases a with
  | readPump b =>
    cases readPump_effect h with
    | own _ _ _ _ _ _ _ _ _ _ h =>
      subst h
      exact ⟨rfl, rfl, same rfl⟩
    | report code message b v reader hs h =>
      subst h
      obtain ⟨ht, hh, hp⟩ := sendJSON_silent (by simp) hs
      exact ⟨ht, hh, hp⟩
    | cutLLM turn j tts hr h =>
      subst h
      exact ⟨rfl, rfl, same rfl⟩
    | cutTTS turn k b hr h =>
      subst h
      exact ⟨rfl, heard_of_map (List.map_modify_of_eq fun _ _ ↦ rfl), same rfl⟩
    | cutJob turn b job q hr hq h =>
      subst h
      exact ⟨rfl, rfl, same rfl⟩
    | notify turn b v hr hs h =>
      subst h
      obtain ⟨ht, hh, hp⟩ := sendJSON_silent (by simp) hs
      exact ⟨ht, hh, hp⟩
  | audioSendWorker b =>
    obtain ⟨send, dropped, queue, pc, i, g, rfl, hs, -⟩ := audioSendWorker_footprint h
    exact ⟨rfl, rfl, Sends.silent hs rfl⟩
  | forwardTranscripts i b =>
    obtain ⟨c, send, dropped, active, llm, g, -, rfl, hs, -⟩ := forwardTranscripts_footprint h
    exact ⟨rfl, rfl, Sends.silent hs rfl⟩
  | forwardLLMEvents j b =>
    obtain ⟨send, dropped, active, queue, history, answered, g, rfl, hs, -⟩ :=
      forwardLLMEvents_footprint h
    exact ⟨rfl, rfl, Sends.silent hs rfl⟩
  | ttsWorker b => exact absurd rfl (ha b)
  | sttRecvPump i b =>
    obtain ⟨c, s, -, -, rfl⟩ := sttRecvPump_eq_some h
    exact ⟨rfl, rfl, same rfl⟩
  | llmRecvPump j b =>
    obtain ⟨c, s, -, -, rfl⟩ := llmRecvPump_eq_some h
    exact ⟨rfl, rfl, same rfl⟩
  | ttsRecvPump k b =>
    obtain ⟨c, s, hc, hs, rfl⟩ := ttsRecvPump_eq_some h
    refine ⟨rfl, heard_of_map (List.map_modify_of_eq fun d hd ↦ ?_), same rfl⟩
    obtain rfl : c = d := Option.some.inj (hc.symm.trans hd)
    exact (Stream.recvPump_frame hs).2
  | write =>
    obtain ⟨send, written, rfl, hp⟩ := write_eq_some h
    exact ⟨rfl, rfl, same hp⟩
  | stopWriting =>
    obtain rfl := stopWriting_eq_some h
    exact ⟨rfl, rfl, same rfl⟩

/-! ### The invariant of the playback -/

/-- What is known at each statement of a job. -/
def JobFacts (w : World) (k : Nat) : JobPc → Prop
  | .publish | .store | .ranging false => w.heard k = some []
  | .check false chunk => w.heard k = some [chunk]
  | .sendText data format | .sendFormat data format => w.heard k = some [.audio data format]
  | .ranging true | .check true _ | .sendAudio _ =>
    ∃ format, w.firstFormat k = some format ∧
      lastFormat w.puts = some (format, .synthesizeAndSend k)
  | .closeStale | .report _ _ | .clear => True

/-- Frames are announced, and the running job knows what it has announced. -/
structure Playing (w : World) : Prop where
  announced : FormatsAnnounced w
  job : ∀ k pc, w.ttsWorker = .job k pc → JobFacts w k pc

private theorem JobFacts.of_same {w w' : World} {k : Nat} {pc : JobPc} {new : List Put}
    (hh : w'.heard = w.heard) (hp : w'.puts = w.puts ++ new) (hn : ∀ p ∈ new, p.Silent)
    (h : JobFacts w k pc) : JobFacts w' k pc := by
  have hf : w'.firstFormat = w.firstFormat := by
    funext k
    rw [World.firstFormat, World.firstFormat, hh]
  have hl : lastFormat w'.puts = lastFormat w.puts := by
    rw [hp, lastFormat_append fun p hm ↦ (hn p hm).1]
  unfold JobFacts at *
  rw [hh, hf, hl]
  exact h

private theorem Playing.of_silent {w w' : World} (new : List Put) (hw : Playing w)
    (hf : ∀ k f, w.firstFormat k = some f → w'.firstFormat k = some f)
    (hp : w'.puts = w.puts ++ new) (hn : ∀ p ∈ new, p.Silent)
    (hj : ∀ k pc, w'.ttsWorker = .job k pc → JobFacts w' k pc) : Playing w' := by
  refine ⟨?_, hj⟩
  rw [FormatsAnnounced, hp]
  exact (AnnouncedIn.mono hw.announced hf).append_text fun p hm ↦ (hn p hm).2

private theorem Playing.of_quiet {w w' : World} (hw : Playing w)
    (hf : ∀ k f, w.firstFormat k = some f → w'.firstFormat k = some f) (hp : w'.puts = w.puts)
    (hj : ∀ k pc, w'.ttsWorker = .job k pc → JobFacts w' k pc) : Playing w' :=
  hw.of_silent [] hf (by simp [hp]) (by simp) hj

private theorem Playing.of_same {w w' : World} (hw : Playing w) (h : SamePlayback w w') :
    Playing w' := by
  obtain ⟨new, hp, hn⟩ := h.puts
  refine hw.of_silent new (fun k f hk ↦ ?_) hp hn fun k pc hk ↦ ?_
  · rwa [World.firstFormat, h.heard]
  · rw [h.ttsWorker] at hk
    exact (hw.job k pc hk).of_same h.heard hp hn

private theorem Playing.move {w : World} {pc : TtsPc} (hw : Playing w)
    (hj : ∀ k jpc, pc = .job k jpc → JobFacts w k jpc) : Playing { w with ttsWorker := pc } :=
  ⟨hw.announced, hj⟩

private theorem Playing.update {w : World} {active : Option Nat} {k : Nat}
    {g : TtsCall → TtsCall} {pc : TtsPc} (hw : Playing w)
    (hg : ∀ c, (g c).stream.consumed = c.stream.consumed)
    (hj : ∀ k jpc, pc = .job k jpc → JobFacts w k jpc) :
    Playing { w with
      activeTTSStream := active, tts := w.tts.modify k g, ttsWorker := pc } := by
  have hh : (w.tts.modify k g).map (fun c ↦ c.stream.consumed) =
      w.tts.map fun c ↦ c.stream.consumed := List.map_modify_of_eq fun c _ ↦ hg c
  refine hw.of_quiet (fun k' f hk ↦ ?_) rfl fun k' jpc hk ↦ ?_
  · rwa [World.firstFormat, heard_of_map hh]
  · have hp : World.puts { w with
        activeTTSStream := active, tts := w.tts.modify k g, ttsWorker := pc } = w.puts ++ [] :=
      (List.append_nil _).symm
    exact (hj k' jpc hk).of_same (heard_of_map hh) hp (by simp)

private theorem Playing.sendJSON {w v : World} {o : Origin} {m : ControlMessage} {b : Branch}
    {pc : TtsPc} (hw : Playing w) (hm : ∀ f t, m ≠ .audioFormat f t)
    (h : w.sendJSON o m b = some v) (hj : ∀ k jpc, pc = .job k jpc → JobFacts w k jpc) :
    Playing { v with ttsWorker := pc } := by
  obtain ⟨-, hh, new, hp, hn⟩ := sendJSON_silent hm h
  refine hw.of_silent new (fun k f hk ↦ ?_) hp hn fun k jpc hk ↦ ?_
  · rwa [show World.firstFormat { v with ttsWorker := pc } k = v.firstFormat k from rfl,
      World.firstFormat, hh]
  · exact JobFacts.of_same (w := w) hh hp hn (hj k jpc hk)

private theorem heard_take {w : World} {k : Nat} {c : TtsCall} {s : TtsStream} {chunk : AudioChunk}
    {pc : TtsPc} (hc : w.tts[k]? = some c) (hs : c.stream.next? = some (chunk, s)) (k' : Nat) :
    World.heard { w with
      tts := w.tts.modify k fun c ↦ { c with stream := s }, ttsWorker := pc } k' =
        if k' = k then some (c.stream.consumed ++ [chunk]) else w.heard k' := by
  simp only [World.heard, List.getElem?_modify]
  by_cases hk : k' = k
  · subst hk
    simp [hc, Stream.consumed_next? hs]
  · simp [hk, Ne.symm hk]

private theorem Playing.take {w : World} {k : Nat} {c : TtsCall} {sent : Bool} {chunk : AudioChunk}
    {s : TtsStream} (hw : Playing w) (hp : w.ttsWorker = .job k (.ranging sent))
    (hc : w.tts[k]? = some c) (hs : c.stream.next? = some (chunk, s)) :
    Playing { w with
      tts := w.tts.modify k fun c ↦ { c with stream := s }
      ttsWorker := .job k (.check sent chunk) } := by
  have hj := hw.job k _ hp
  have hheard : w.heard k = some c.stream.consumed := by simp [World.heard, hc]
  have hfirst (k' : Nat) (f : AudioFormatInfo) (hk : w.firstFormat k' = some f) :
      World.firstFormat { w with
        tts := w.tts.modify k fun c ↦ { c with stream := s }
        ttsWorker := .job k (.check sent chunk) } k' = some f := by
    rw [World.firstFormat, heard_take hc hs]
    by_cases hkk : k' = k
    · subst hkk
      rw [World.firstFormat, hheard] at hk
      cases hcons : c.stream.consumed with
      | nil => simp [hcons] at hk
      | cons x xs =>
        cases x with
        | audio => simpa [hcons] using hk
        | error => simp [hcons] at hk
    · rw [if_neg hkk]
      exact hk
  refine hw.of_quiet hfirst rfl ?_
  rintro k' pc' ⟨⟩
  cases sent with
  | false =>
    have hnil : c.stream.consumed = [] := Option.some.inj (hheard.symm.trans hj)
    rw [JobFacts, heard_take hc hs, if_pos rfl, hnil, List.nil_append]
  | true =>
    obtain ⟨format, hf, hl⟩ := hj
    exact ⟨format, hfirst k format hf, hl⟩

private theorem Playing.announce {w : World} {k : Nat} {c : TtsCall} {data : List UInt8}
    {format : AudioFormatInfo} {q : Chan Put 32} (hw : Playing w)
    (hp : w.ttsWorker = .job k (.sendFormat data format))
    (hq : q.items =
      w.send.items ++ [⟨.text (.audioFormat format c.job.turn), .synthesizeAndSend k⟩]) :
    Playing { w with send := q, ttsWorker := .job k (.sendAudio data) } := by
  have hj := hw.job k _ hp
  have hputs : World.puts { w with send := q, ttsWorker := .job k (.sendAudio data) } =
      w.puts ++ [⟨.text (.audioFormat format c.job.turn), .synthesizeAndSend k⟩] := by
    simp [puts, hq]
  have hf : w.firstFormat k = some format := by
    rw [World.firstFormat, show w.heard k = some [.audio data format] from hj]
  refine ⟨?_, ?_⟩
  · rw [FormatsAnnounced, hputs]
    exact AnnouncedIn.append_text hw.announced (by simp)
  · rintro k' pc' ⟨⟩
    refine ⟨format, hf, ?_⟩
    rw [hputs, lastFormat_concat]

private theorem Playing.sendAudio {w : World} {k : Nat} {data : List UInt8} {q : Chan Put 32}
    (hw : Playing w) (hp : w.ttsWorker = .job k (.sendAudio data))
    (hq : q.items = w.send.items ++ [⟨.binary data, .synthesizeAndSend k⟩]) :
    Playing { w with send := q, ttsWorker := .job k (.ranging true) } := by
  obtain ⟨format, hf, hl⟩ := hw.job k _ hp
  have hputs : World.puts { w with send := q, ttsWorker := .job k (.ranging true) } =
      w.puts ++ [⟨.binary data, .synthesizeAndSend k⟩] := by
    simp [puts, hq]
  refine ⟨?_, ?_⟩
  · rw [FormatsAnnounced, hputs]
    exact AnnouncedIn.append_binary hw.announced hf hl
  · rintro k' pc' ⟨⟩
    refine ⟨format, hf, ?_⟩
    rw [hputs, lastFormat_append (by simp [Put.format?])]
    exact hl

private theorem Playing.opened {w : World} {job : TtsJob} {voice : String} (hw : Playing w) :
    Playing { w with
      tts := w.tts ++ [TtsCall.opened job voice], ttsWorker := .job w.tts.length .publish } := by
  have hold (k : Nat) (hk : k < w.tts.length) :
      (w.tts ++ [TtsCall.opened job voice])[k]? = w.tts[k]? := List.getElem?_append_left hk
  refine hw.of_quiet (fun k f hk ↦ ?_) rfl ?_
  · have hlt : k < w.tts.length := by
      by_contra hge
      simp [World.firstFormat, World.heard, List.getElem?_eq_none (Nat.le_of_not_lt hge)] at hk
    rwa [World.firstFormat, World.heard, hold k hlt]
  · rintro k pc ⟨⟩
    simp [JobFacts, World.heard, TtsCall.opened, Stream.opened]

/-- `ttsWorker` keeps the playback in order, as long as `synthesizeAndSend` puts its
announcement. -/
theorem Playing.ttsWorkerStep {w w' : World} {a : TtsAction} (hw : Playing w)
    (hp : PutsFormat w (.ttsWorker a)) (h : w.ttsWorkerStep a = some w') : Playing w' := by
  cases ttsStep_of_ttsWorkerStep h with
  | dequeue | clear => exact hw.of_quiet (fun _ _ hk ↦ hk) rfl (by simp)
  | opened => exact hw.opened
  | take k c sent chunk s hpc hc hs => exact hw.take hpc hc hs
  | recheckPassed k c hpc | store k c hpc =>
    have hj := hw.job k _ hpc
    exact hw.update (fun _ ↦ rfl) (by rintro k pc ⟨⟩; exact hj)
  | closeStale => exact hw.update (fun _ ↦ rfl) (by simp)
  | recheckFailed | rangeOver | gotError => exact hw.move (by rintro k pc ⟨⟩; trivial)
  | gotAudio k c sent data format hpc =>
    have hj := hw.job k _ hpc
    refine hw.move ?_
    cases sent with
    | false | true =>
      rintro k pc ⟨⟩
      exact hj
  | openFailed _ _ _ _ hv | report _ _ _ _ _ _ _ _ hv => exact hw.sendJSON (by simp) hv (by simp)
  | sendText k c data format b v hpc hc hv =>
    have hj := hw.job k _ hpc
    exact hw.sendJSON (by simp) hv (by rintro k pc ⟨⟩; exact hj)
  | sendFormat k c data format b v hpc hc hv =>
    obtain ⟨hdone, hdrop⟩ := hp (by rw [hpc]; rfl)
    obtain rfl : b = .put := by cases b <;> simp_all
    obtain ⟨q, rfl, hq⟩ := sendJSON_put_eq_some hv
    exact hw.announce hpc hq
  | sendAudio k c data q hpc hc hq => exact hw.sendAudio hpc (Chan.send?_eq_some.mp hq).2
  | quit | skipJob | startJob | loadVoice | openError | stopStale | sendDone =>
    exact hw.move (by simp)

/-- As long as every announcement finds its way onto `s.send`, the most recent announcement
before any binary frame is its own job's and carries the format of that job's first chunk. -/
theorem formatsAnnounced_of_putsFormat (w : World) (hr : system.ReachableWith PutsFormat w) :
    FormatsAnnounced w := by
  suffices Playing w from this.announced
  refine hr.invariant (I := Playing) ?_ fun w a w' _ hw hp h ↦ ?_
  · constructor <;> simp [system, World.new, FormatsAnnounced, AnnouncedIn, puts]
  · by_cases ha : ∃ b, a = .ttsWorker b
    · obtain ⟨b, rfl⟩ := ha
      exact hw.ttsWorkerStep hp h
    · exact hw.of_same (step_samePlayback h fun b hb ↦ ha ⟨b, hb⟩)

/-- One sentence with room on the channel: text, format, audio. -/
theorem formatsAnnounced_of_putsFormat_run : ∃ w : World, FormatsAnnounced w ∧
    ⟨.binary [1, 2], .synthesizeAndSend 0⟩ ∈ w.puts ∧
      w.firstFormat 0 = some ⟨22050, 1, 2⟩ := by
  have hw : ∃ w, system.runGuarded PutsFormat system.init (startActions ++ finalActions 0 "hi" ++
      [Action.forwardTranscripts 0 .next] ++ chunkActions 0 "hello" ++
      speakActions 0 ⟨[1, 2], 22050, 1, 2⟩ ++
      List.replicate 3 (Action.ttsWorker (.select .put))) = some w ∧
        ⟨.binary [1, 2], .synthesizeAndSend 0⟩ ∈ w.puts ∧
          w.firstFormat 0 = some ⟨22050, 1, 2⟩ :=
    ⟨_, rfl, by decide, rfl⟩
  obtain ⟨w, hrun, hput, hf⟩ := hw
  exact ⟨w, formatsAnnounced_of_putsFormat w (.runGuarded .init hrun), hput, hf⟩

/-- The channel is full when the job announces its format and has room again when it sends its
audio: the client gets audio without ever having been told a format. -/
theorem not_formatsAnnounced : ∃ w, system.run (startActions ++ finalActions 0 "hi" ++
      [.forwardTranscripts 0 .next] ++ chunkActions 0 "hello" ++
      speakActions 0 ⟨[1, 2], 22050, 1, 2⟩ ++ malformedActions 31 ++
      [.ttsWorker (.select .dropped), .ttsWorker (.select .dropped), .write,
        .ttsWorker (.select .put)]) = some w ∧
    w.puts[32]? = some ⟨.binary [1, 2], .synthesizeAndSend 0⟩ ∧ lastFormat w.puts = none ∧
      ¬ FormatsAnnounced w := by
  refine ⟨_, rfl, rfl, rfl, fun h ↦ ?_⟩
  obtain ⟨k, format, -, -, hl⟩ := h 32 [1, 2] (.synthesizeAndSend 0) rfl
  cases hl

end BibiCore.Session
