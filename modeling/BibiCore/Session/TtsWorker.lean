import BibiCore.Session.State

/-!
# `ttsWorker` and `synthesizeAndSend`

`session.go:440` and `459`: one goroutine takes the queued jobs in order and pushes each job's
audio to the client before it takes the next.
-/

namespace BibiCore.Session

open BibiCore.Gateway

/-- What makes `ttsWorker` take a step: the queue or the context in its select, the outcome of
`Synthesize`, the case of a select inside a job, or nothing but its own next statement. -/
inductive TtsAction where
  | dequeue
  | quit
  | startOk
  | startError
  | select (b : World.Branch)
  | next
  deriving DecidableEq

/-- The stream `Synthesize` returns. -/
def TtsCall.opened (job : TtsJob) (voice : String) : TtsCall where
  stream := .opened
  job := job
  voice := voice
  checked := none
  published := false
  abandoned := false
  closedBy := none

/-- `Stream.Close` by `synthesizeAndSend` itself. -/
def TtsCall.closeStale (c : TtsCall) : TtsCall :=
  { c with stream := c.stream.close, abandoned := true }

namespace World

/-- One step of `synthesizeAndSend` at `pc`, on tts stream `k` whose call is `c`. -/
def synthesizeStep (w : World) (k : Nat) (c : TtsCall) (pc : JobPc) (a : TtsAction) :
    Option World :=
  match pc, a with
  | .publish, .next =>
    if w.currentTurn ≠ c.job.turn then some { w with ttsWorker := .job k .closeStale }
    else some { w with
      tts := w.tts.modify k fun c ↦ { c with checked := some w.currentTurn }
      ttsWorker := .job k .store }
  | .store, .next =>
    some { w with
      activeTTSStream := some k
      tts := w.tts.modify k fun c ↦ { c with published := true }
      ttsWorker := .job k (.ranging false) }
  | .closeStale, .next =>
    some { w with tts := w.tts.modify k TtsCall.closeStale, ttsWorker := .idle }
  | .ranging formatSent, .next =>
    match c.stream.next? with
    | some (chunk, s) =>
      some { w with
        tts := w.tts.modify k fun c ↦ { c with stream := s }
        ttsWorker := .job k (.check formatSent chunk) }
    | none => if c.stream.rangeOver then some { w with ttsWorker := .job k .clear } else none
  | .check formatSent chunk, .next =>
    if w.currentTurn ≠ c.job.turn then some { w with ttsWorker := .idle }
    else match chunk with
      | .error code message => some { w with ttsWorker := .job k (.report code message) }
      | .audio data format =>
        some { w with
          ttsWorker := .job k (if formatSent then .sendAudio data else .sendText data format) }
  | .report code message, .select b =>
    (w.sendError (.synthesizeAndSend k) code message b).map fun w ↦ { w with ttsWorker := .idle }
  | .sendText data format, .select b =>
    (w.sendJSON (.synthesizeAndSend k) (.llmChunk c.job.text c.job.turn) b).map
      fun w ↦ { w with ttsWorker := .job k (.sendFormat data format) }
  | .sendFormat data format, .select b =>
    (w.sendJSON (.synthesizeAndSend k) (.audioFormat format c.job.turn) b).map
      fun w ↦ { w with ttsWorker := .job k (.sendAudio data) }
  | .sendAudio data, .select .put =>
    match w.send.send? ⟨.binary data, .synthesizeAndSend k⟩ with
    | some q => some { w with send := q, ttsWorker := .job k (.ranging true) }
    | none => none
  | .sendAudio _, .select .done =>
    if w.cancelled then some { w with ttsWorker := .idle } else none
  | .clear, .next =>
    some { w with
      activeTTSStream := if w.activeTTSStream = some k then none else w.activeTTSStream
      ttsWorker := .idle }
  | _, _ => none

/-- One step of `ttsWorker`. -/
def ttsWorkerStep (w : World) (a : TtsAction) : Option World :=
  match w.ttsWorker, a with
  | .idle, .quit => if w.cancelled then some { w with ttsWorker := .done } else none
  | .idle, .dequeue =>
    match w.ttsQueue.recv? with
    | some (job, q) =>
      some { w with ttsQueue := q, taken := w.taken ++ [job], ttsWorker := .got job }
    | none => none
  | .got job, .next =>
    some { w with ttsWorker := if w.currentTurn ≠ job.turn then .idle else .synthesize job }
  | .synthesize job, .next => some { w with ttsWorker := .opening job w.getVoice }
  | .opening job voice, .startOk =>
    some { w with
      tts := w.tts ++ [TtsCall.opened job voice], ttsWorker := .job w.tts.length .publish }
  | .opening job _, .startError => some { w with ttsWorker := .openFailed job }
  | .openFailed job, .select b =>
    (w.sendError (.ttsWorker job.turn) "tts_unavailable" "could not synthesize speech" b).map
      fun w ↦ { w with ttsWorker := .idle }
  | .job k pc, a =>
    match w.tts[k]? with
    | some c => w.synthesizeStep k c pc a
    | none => none
  | _, _ => none

/-! ### What a step of `ttsWorker` can do -/

/-- Every step `ttsWorker` can take, inside `synthesizeAndSend` or out, with the conditions under
which it is taken. -/
inductive TtsStep (w : World) : TtsAction → World → Prop
  | quit (hp : w.ttsWorker = .idle) (hc : w.cancelled = true) :
      TtsStep w .quit { w with ttsWorker := .done }
  | dequeue (job : TtsJob) (q : Chan TtsJob 32) (hp : w.ttsWorker = .idle)
      (hq : w.ttsQueue.items = job :: q.items) : TtsStep w .dequeue
      { w with ttsQueue := q, taken := w.taken ++ [job], ttsWorker := .got job }
  | skipJob (job : TtsJob) (hp : w.ttsWorker = .got job) (ht : w.currentTurn ≠ job.turn) :
      TtsStep w .next { w with ttsWorker := .idle }
  | startJob (job : TtsJob) (hp : w.ttsWorker = .got job) (ht : w.currentTurn = job.turn) :
      TtsStep w .next { w with ttsWorker := .synthesize job }
  | loadVoice (job : TtsJob) (hp : w.ttsWorker = .synthesize job) :
      TtsStep w .next { w with ttsWorker := .opening job w.getVoice }
  | opened (job : TtsJob) (voice : String) (hp : w.ttsWorker = .opening job voice) :
      TtsStep w .startOk { w with
        tts := w.tts ++ [TtsCall.opened job voice], ttsWorker := .job w.tts.length .publish }
  | openError (job : TtsJob) (voice : String) (hp : w.ttsWorker = .opening job voice) :
      TtsStep w .startError { w with ttsWorker := .openFailed job }
  | openFailed (job : TtsJob) (b : Branch) (v : World) (hp : w.ttsWorker = .openFailed job)
      (hv : w.sendError (.ttsWorker job.turn) "tts_unavailable" "could not synthesize speech" b =
        some v) :
      TtsStep w (.select b) { v with ttsWorker := .idle }
  | recheckFailed (k : Nat) (c : TtsCall) (hp : w.ttsWorker = .job k .publish)
      (hc : w.tts[k]? = some c) (ht : w.currentTurn ≠ c.job.turn) :
      TtsStep w .next { w with ttsWorker := .job k .closeStale }
  | recheckPassed (k : Nat) (c : TtsCall) (hp : w.ttsWorker = .job k .publish)
      (hc : w.tts[k]? = some c) (ht : w.currentTurn = c.job.turn) : TtsStep w .next { w with
        tts := w.tts.modify k fun c ↦ { c with checked := some w.currentTurn }
        ttsWorker := .job k .store }
  | store (k : Nat) (c : TtsCall) (hp : w.ttsWorker = .job k .store) (hc : w.tts[k]? = some c) :
      TtsStep w .next { w with
        activeTTSStream := some k
        tts := w.tts.modify k fun c ↦ { c with published := true }
        ttsWorker := .job k (.ranging false) }
  | closeStale (k : Nat) (c : TtsCall) (hp : w.ttsWorker = .job k .closeStale)
      (hc : w.tts[k]? = some c) :
      TtsStep w .next { w with tts := w.tts.modify k TtsCall.closeStale, ttsWorker := .idle }
  | take (k : Nat) (c : TtsCall) (formatSent : Bool) (chunk : AudioChunk) (s : TtsStream)
      (hp : w.ttsWorker = .job k (.ranging formatSent)) (hc : w.tts[k]? = some c)
      (hs : c.stream.next? = some (chunk, s)) : TtsStep w .next { w with
        tts := w.tts.modify k fun c ↦ { c with stream := s }
        ttsWorker := .job k (.check formatSent chunk) }
  | rangeOver (k : Nat) (c : TtsCall) (formatSent : Bool)
      (hp : w.ttsWorker = .job k (.ranging formatSent)) (hc : w.tts[k]? = some c)
      (ho : c.stream.rangeOver) : TtsStep w .next { w with ttsWorker := .job k .clear }
  | stopStale (k : Nat) (c : TtsCall) (formatSent : Bool) (chunk : AudioChunk)
      (hp : w.ttsWorker = .job k (.check formatSent chunk)) (hc : w.tts[k]? = some c)
      (ht : w.currentTurn ≠ c.job.turn) : TtsStep w .next { w with ttsWorker := .idle }
  | gotError (k : Nat) (c : TtsCall) (formatSent : Bool) (code message : String)
      (hp : w.ttsWorker = .job k (.check formatSent (.error code message)))
      (hc : w.tts[k]? = some c) (ht : w.currentTurn = c.job.turn) :
      TtsStep w .next { w with ttsWorker := .job k (.report code message) }
  | gotAudio (k : Nat) (c : TtsCall) (formatSent : Bool) (data : List UInt8)
      (format : AudioFormatInfo)
      (hp : w.ttsWorker = .job k (.check formatSent (.audio data format)))
      (hc : w.tts[k]? = some c) (ht : w.currentTurn = c.job.turn) : TtsStep w .next { w with
        ttsWorker := .job k (if formatSent then .sendAudio data else .sendText data format) }
  | report (k : Nat) (c : TtsCall) (code message : String) (b : Branch) (v : World)
      (hp : w.ttsWorker = .job k (.report code message)) (hc : w.tts[k]? = some c)
      (hv : w.sendError (.synthesizeAndSend k) code message b = some v) :
      TtsStep w (.select b) { v with ttsWorker := .idle }
  | sendText (k : Nat) (c : TtsCall) (data : List UInt8) (format : AudioFormatInfo) (b : Branch)
      (v : World) (hp : w.ttsWorker = .job k (.sendText data format)) (hc : w.tts[k]? = some c)
      (hv : w.sendJSON (.synthesizeAndSend k) (.llmChunk c.job.text c.job.turn) b = some v) :
      TtsStep w (.select b) { v with ttsWorker := .job k (.sendFormat data format) }
  | sendFormat (k : Nat) (c : TtsCall) (data : List UInt8) (format : AudioFormatInfo) (b : Branch)
      (v : World) (hp : w.ttsWorker = .job k (.sendFormat data format)) (hc : w.tts[k]? = some c)
      (hv : w.sendJSON (.synthesizeAndSend k) (.audioFormat format c.job.turn) b = some v) :
      TtsStep w (.select b) { v with ttsWorker := .job k (.sendAudio data) }
  | sendAudio (k : Nat) (c : TtsCall) (data : List UInt8) (q : Chan Put 32)
      (hp : w.ttsWorker = .job k (.sendAudio data)) (hc : w.tts[k]? = some c)
      (hq : w.send.send? ⟨.binary data, .synthesizeAndSend k⟩ = some q) :
      TtsStep w (.select .put) { w with send := q, ttsWorker := .job k (.ranging true) }
  | sendDone (k : Nat) (c : TtsCall) (data : List UInt8)
      (hp : w.ttsWorker = .job k (.sendAudio data)) (hc : w.tts[k]? = some c)
      (hd : w.cancelled = true) : TtsStep w (.select .done) { w with ttsWorker := .idle }
  | clear (k : Nat) (c : TtsCall) (hp : w.ttsWorker = .job k .clear) (hc : w.tts[k]? = some c) :
      TtsStep w .next { w with
        activeTTSStream := if w.activeTTSStream = some k then none else w.activeTTSStream
        ttsWorker := .idle }

private theorem synthesizeStep_ttsStep {w w' : World} {k : Nat} {c : TtsCall} {pc : JobPc}
    {a : TtsAction} (hp : w.ttsWorker = .job k pc) (hc : w.tts[k]? = some c)
    (h : w.synthesizeStep k c pc a = some w') : TtsStep w a w' := by
  unfold synthesizeStep at h
  split at h
  · split at h <;> cases h
    · next ht => exact .recheckFailed k c hp hc ht
    · next ht => exact .recheckPassed k c hp hc (not_not.mp ht)
  · cases h
    exact .store k c hp hc
  · cases h
    exact .closeStale k c hp hc
  · next sent =>
    split at h
    · next chunk s hs =>
      cases h
      exact .take k c sent chunk s hp hc hs
    · split at h <;> cases h
      next ho => exact .rangeOver k c sent hp hc ho
  · next sent chunk =>
    split at h
    · next ht =>
      cases h
      exact .stopStale k c sent chunk hp hc ht
    · next ht =>
      split at h <;> cases h
      · next code message => exact .gotError k c sent code message hp hc (not_not.mp ht)
      · next data format => exact .gotAudio k c sent data format hp hc (not_not.mp ht)
  · next code message b =>
    obtain ⟨v, hv, rfl⟩ := Option.map_eq_some_iff.mp h
    exact .report k c code message b v hp hc hv
  · next data format b =>
    obtain ⟨v, hv, rfl⟩ := Option.map_eq_some_iff.mp h
    exact .sendText k c data format b v hp hc hv
  · next data format b =>
    obtain ⟨v, hv, rfl⟩ := Option.map_eq_some_iff.mp h
    exact .sendFormat k c data format b v hp hc hv
  · next data =>
    split at h <;> cases h
    next q hq => exact .sendAudio k c data q hp hc hq
  · next data =>
    split at h <;> cases h
    next hd => exact .sendDone k c data hp hc hd
  · cases h
    exact .clear k c hp hc
  · cases h

/-- `ttsWorker` does nothing else. -/
theorem ttsStep_of_ttsWorkerStep {w w' : World} {a : TtsAction}
    (h : w.ttsWorkerStep a = some w') : TtsStep w a w' := by
  unfold ttsWorkerStep at h
  split at h
  · next hp =>
    split at h <;> cases h
    next hc => exact .quit hp hc
  · next hp =>
    split at h <;> cases h
    next job q hq => exact .dequeue job q hp (Chan.recv?_eq_some.mp hq)
  · next job hp =>
    cases h
    split
    · next ht => exact .skipJob job hp ht
    · next ht => exact .startJob job hp (not_not.mp ht)
  · next job hp =>
    cases h
    exact .loadVoice job hp
  · next job voice hp =>
    cases h
    exact .opened job voice hp
  · next job voice hp =>
    cases h
    exact .openError job voice hp
  · next job b hp =>
    obtain ⟨v, hv, rfl⟩ := Option.map_eq_some_iff.mp h
    exact .openFailed job b v hp hv
  · next hp =>
    split at h
    · next hc => exact synthesizeStep_ttsStep hp hc h
    · cases h
  · cases h

end World
end BibiCore.Session
