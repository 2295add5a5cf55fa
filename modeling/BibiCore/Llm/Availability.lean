import Mathlib.Algebra.Order.Ring.Rat
import Mathlib.Tactic.Linarith
import BibiCore.Base.ListUpdate
import BibiCore.Base.TransitionSystem
import BibiCore.Llm.Engine

/-!
# The availability check of the Ollama engine

`ensure_model_available` of `llm/engines/ollama_engine.py`, as `EngineManager.ensure_ready` calls it
for every request. The calls overlap: each reads the clock, and goes on where its own list request
is answered. Clock readings are rationals.
-/

namespace BibiCore.Llm

open PyStr

/-- `OllamaConfig`, `llm/config.py:7`, as `ensure_model_available` reads it. -/
structure AvailabilityConfig where
  model : Str
  availabilityCacheSeconds : ℚ
  deriving DecidableEq

/-- What `client.list` gives: the names of its models, an `httpx.ConnectError` or
`httpx.ConnectTimeout`, or any other exception. -/
inductive ListResponse where
  | models (names : List Str)
  | connectError
  | other (message : String)
  deriving DecidableEq

/-- `m.split(":")[0]`. -/
def untagged (m : Str) : Str := m.takeWhile (· ≠ ':')

/-- `matches` of `ensure_model_available`. -/
def matchesModel (model : Str) (available : List Str) : Bool :=
  available.any fun m ↦ model = m ∨ model = untagged m

/-- A model matches that has the name, or has it before its tag. -/
theorem matchesModel_eq_true_iff {model : Str} {available : List Str} :
    matchesModel model available = true ↔
      model ∈ available ∨ ∃ m ∈ available, untagged m = model := by
  simp only [matchesModel, List.any_eq_true, decide_eq_true_eq]
  constructor
  · rintro ⟨m, hm, rfl | hfamily⟩
    · exact .inl hm
    · exact .inr ⟨m, hm, hfamily.symm⟩
  · rintro (hmodel | ⟨m, hm, hfamily⟩)
    · exact ⟨model, hmodel, .inl rfl⟩
    · exact ⟨m, hm, .inr hfamily.symm⟩

/-- What `ensure_model_available` makes of a response. -/
def checkResponse (config : AvailabilityConfig) : ListResponse → Except LLMError Unit
  | .models names =>
    if matchesModel config.model names then .ok ()
    else .error (.modelNotFound (String.ofList config.model))
  | .connectError => .error .ollamaUnreachable
  | .other message => .error (.other message)

/-- Where a call of `ensure_model_available` stands that read the clock at `now`. -/
inductive AvailabilityCall where
  /-- before `client.list` -/
  | started (now : ℚ)
  /-- its list request was issued at a time and is not answered -/
  | listing (now issued : ℚ)
  | returned (now : ℚ)
  | raised (error : LLMError)
  deriving DecidableEq

/-- An `OllamaEngine` with every call of its `ensure_model_available`, and the time. -/
structure OllamaEngine where
  clock : ℚ
  lastCheckedAt : Option ℚ
  calls : List AvailabilityCall
  deriving DecidableEq

/-- A call that reads the clock at `now`, or what call `i` does next. -/
inductive AvailabilityAction where
  | call (now : ℚ)
  | issue (i : Nat) (time : ℚ)
  | respond (i : Nat) (response : ListResponse)
  deriving DecidableEq

/-- A list request that was answered with a set of models. -/
structure ListAnswer where
  call : Nat
  issued : ℚ
  models : List Str
  deriving DecidableEq

namespace OllamaEngine

/-- The last check is recent enough at `now`. -/
def checked (config : AvailabilityConfig) (w : OllamaEngine) (now : ℚ) : Bool :=
  match w.lastCheckedAt with
  | some t => now - t < config.availabilityCacheSeconds
  | none => false

/-- One step of a call of `ensure_model_available`, `llm/engines/ollama_engine.py:44`. -/
def step (config : AvailabilityConfig) (w : OllamaEngine) :
    AvailabilityAction → Option OllamaEngine
  | .call now =>
    if w.clock ≤ now then
      let call := if w.checked config now then .returned now else .started now
      some { w with clock := now, calls := w.calls ++ [call] }
    else none
  | .issue i time =>
    match w.calls[i]? with
    | some (.started now) =>
      if w.clock ≤ time then
        some { w with clock := time, calls := w.calls.set i (.listing now time) }
      else none
    | _ => none
  | .respond i response =>
    match w.calls[i]? with
    | some (.listing now _) =>
      match checkResponse config response with
      | .ok () => some { w with lastCheckedAt := some now, calls := w.calls.set i (.returned now) }
      | .error error => some { w with calls := w.calls.set i (.raised error) }
    | _ => none

/-- The call that takes a step. -/
def caller (w : OllamaEngine) : AvailabilityAction → Nat
  | .call _ => w.calls.length
  | .issue i _ | .respond i _ => i

/-- The request that a step answers with a set of models. -/
def answers (w : OllamaEngine) : AvailabilityAction → List ListAnswer
  | .respond i (.models names) =>
    match w.calls[i]? with
    | some (.listing _ issued) => [⟨i, issued, names⟩]
    | _ => []
  | _ => []

/-- Every step of a call, with the conditions under which it is taken. -/
inductive CallStep (config : AvailabilityConfig) (w : OllamaEngine) :
    AvailabilityAction → OllamaEngine → Prop
  | skipped (now t : ℚ) (hle : w.clock ≤ now) (ht : w.lastCheckedAt = some t)
      (hlt : now - t < config.availabilityCacheSeconds) :
      CallStep config w (.call now)
        { w with clock := now, calls := w.calls ++ [.returned now] }
  | started (now : ℚ) (hle : w.clock ≤ now) (hc : w.checked config now = false) :
      CallStep config w (.call now)
        { w with clock := now, calls := w.calls ++ [.started now] }
  | issued (i : Nat) (now time : ℚ) (hc : w.calls[i]? = some (.started now))
      (hle : w.clock ≤ time) :
      CallStep config w (.issue i time)
        { w with clock := time, calls := w.calls.set i (.listing now time) }
  | matched (i : Nat) (now issued : ℚ) (names : List Str)
      (hc : w.calls[i]? = some (.listing now issued))
      (hm : matchesModel config.model names = true) :
      CallStep config w (.respond i (.models names))
        { w with lastCheckedAt := some now, calls := w.calls.set i (.returned now) }
  | failed (i : Nat) (now issued : ℚ) (response : ListResponse) (error : LLMError)
      (hc : w.calls[i]? = some (.listing now issued))
      (he : checkResponse config response = .error error) :
      CallStep config w (.respond i response)
        { w with calls := w.calls.set i (.raised error) }

variable {config : AvailabilityConfig} {w w' : OllamaEngine} {a : AvailabilityAction}

/-- A check counts as long as it is younger than the cache time. -/
theorem checked_eq_true_iff {now : ℚ} : w.checked config now = true ↔
    ∃ t, w.lastCheckedAt = some t ∧ now - t < config.availabilityCacheSeconds := by
  unfold checked
  cases w.lastCheckedAt <;> simp

/-- Only a set of models is a success. -/
theorem checkResponse_eq_ok {response : ListResponse} (h : checkResponse config response = .ok ()) :
    ∃ names, response = .models names ∧ matchesModel config.model names = true := by
  cases response with
  | models names =>
    refine ⟨names, rfl, ?_⟩
    by_contra hm
    simp [checkResponse, hm] at h
  | connectError => cases h
  | other message => cases h

/-- Only a response with a set of models is an answer. -/
theorem respond_of_mem_answers {answer : ListAnswer} (h : answer ∈ w.answers a) :
    a = .respond answer.call (.models answer.models) := by
  cases a with
  | call now => cases h
  | issue i time => cases h
  | respond i response =>
    cases response with
    | models names =>
      simp only [answers] at h
      split at h
      · obtain rfl := List.mem_singleton.mp h
        rfl
      · cases h
    | connectError => cases h
    | other message => cases h

/-- The calls do nothing else. -/
theorem callStep_of_step (h : w.step config a = some w') : CallStep config w a w' := by
  cases a with
  | call now =>
    simp only [step] at h
    split at h
    · next hle =>
      split at h <;> cases h
      · next hc =>
        obtain ⟨t, ht, hlt⟩ := checked_eq_true_iff.mp hc
        exact .skipped now t hle ht hlt
      · next hc => exact .started now hle (Bool.not_eq_true _ ▸ hc)
    · cases h
  | issue i time =>
    simp only [step] at h
    split at h
    · next now hc =>
      split at h <;> cases h
      next hle => exact .issued i now time hc hle
    · cases h
  | respond i response =>
    simp only [step] at h
    split at h
    · next now issued hc =>
      split at h <;> cases h
      · next hok =>
        obtain ⟨names, rfl, hm⟩ := checkResponse_eq_ok hok
        exact .matched i now issued names hc hm
      · next error he => exact .failed i now issued response error hc he
    · cases h

/-- A step stores a time only for a call that it lets return. -/
theorem lastCheckedAt_step (h : w.step config a = some w') :
    w'.lastCheckedAt = w.lastCheckedAt ∨ ∃ now, w'.calls[w.caller a]? = some (.returned now) := by
  cases callStep_of_step h with
  | skipped | started | issued | failed => exact .inl rfl
  | matched i now issued names hc hm =>
    obtain ⟨hi, -⟩ := List.getElem?_eq_some_iff.mp hc
    exact .inr ⟨now, List.getElem?_set_self hi⟩

/-- A call that has returned stays so. -/
theorem returned_step {k : Nat} {t : ℚ} (h : w.step config a = some w')
    (hk : w.calls[k]? = some (.returned t)) : w'.calls[k]? = some (.returned t) := by
  cases callStep_of_step h with
  | skipped | started => exact List.getElem?_concat_eq_some.mpr (.inl hk)
  | issued i now time hc hle => exact List.getElem?_set_of_ne_entry hk hc nofun
  | matched i now issued names hc hm => exact List.getElem?_set_of_ne_entry hk hc nofun
  | failed i now issued response error hc he => exact List.getElem?_set_of_ne_entry hk hc nofun

end OllamaEngine

/-- The calls of the Ollama engine, in whatever order they take their steps, on a clock that
stands at `start`. -/
def availability (config : AvailabilityConfig) (start : ℚ) :
    TransitionSystem OllamaEngine AvailabilityAction where
  init := ⟨start, none, []⟩
  step := OllamaEngine.step config

section

variable {config : AvailabilityConfig} {start : ℚ}

/-- The times of a call lie in order, up to the clock. -/
def AvailabilityCall.Timed (clock : ℚ) : AvailabilityCall → Prop
  | .started now => now ≤ clock
  | .listing now issued => now ≤ issued ∧ issued ≤ clock
  | .returned _ | .raised _ => True

/-- They do so on a later clock. -/
theorem AvailabilityCall.Timed.mono {clock clock' : ℚ} {call : AvailabilityCall}
    (hle : clock ≤ clock') (h : call.Timed clock) : call.Timed clock' := by
  cases call with
  | started now => exact le_trans h hle
  | listing now issued => exact ⟨h.1, h.2.trans hle⟩
  | returned | raised => trivial

/-- The times of every call lie in order. -/
theorem OllamaEngine.timed_of_reachable {w : OllamaEngine}
    (h : (availability config start).Reachable w) : ∀ call ∈ w.calls, call.Timed w.clock := by
  refine TransitionSystem.Reachable.invariant
    (I := fun w : OllamaEngine ↦ ∀ call ∈ w.calls, call.Timed w.clock)
    (fun _ hmem ↦ absurd hmem List.not_mem_nil) ?_ h
  intro w a w' _ hw hstep
  have hmono {clock : ℚ} (hle : w.clock ≤ clock) : ∀ call ∈ w.calls, call.Timed clock :=
    fun call hmem ↦ (hw call hmem).mono hle
  cases OllamaEngine.callStep_of_step hstep with
  | skipped now t hle ht hlt => exact List.forall_mem_concat (hmono hle) trivial
  | started now hle hc => exact List.forall_mem_concat (hmono hle) le_rfl
  | issued i now time hc hle =>
    have hnow : now ≤ w.clock := hw _ (List.mem_of_getElem? hc)
    exact List.forall_mem_set (hmono hle) ⟨hnow.trans hle, le_rfl⟩
  | matched i now issued names hc hm => exact List.forall_mem_set (hmono le_rfl) trivial
  | failed i now issued response error hc he => exact List.forall_mem_set (hmono le_rfl) trivial

/-- The answer lets a call `i` that reads the clock at `now` return: it is its own, or it was asked
for less than the cache time before. -/
def ListAnswer.Backs (answer : ListAnswer) (config : AvailabilityConfig) (i : Nat) (now : ℚ) :
    Prop :=
  answer.call = i ∨
    answer.issued ≤ now ∧ now - answer.issued < config.availabilityCacheSeconds

/-- What the answers given so far tell: `_last_checked_at` is no later than the request of a
matching one, and there is a matching one behind every call that returned. -/
structure Matched (config : AvailabilityConfig) (given : List ListAnswer) (w : OllamaEngine) :
    Prop where
  lastCheckedAt : ∀ t, w.lastCheckedAt = some t → ∃ answer ∈ given,
    matchesModel config.model answer.models = true ∧ t ≤ answer.issued ∧ answer.issued ≤ w.clock
  returned : ∀ (i : Nat) now, w.calls[i]? = some (.returned now) → ∃ answer ∈ given,
    matchesModel config.model answer.models = true ∧ answer.Backs config i now

namespace Matched

variable {given given' : List ListAnswer} {w : OllamaEngine}

private theorem lastCheckedAt_mono (hw : Matched config given w) {clock : ℚ}
    (hg : given ⊆ given') (hle : w.clock ≤ clock) (t : ℚ) (ht : w.lastCheckedAt = some t) :
    ∃ answer ∈ given', matchesModel config.model answer.models = true ∧ t ≤ answer.issued ∧
      answer.issued ≤ clock := by
  obtain ⟨answer, hmem, hm, hti, hic⟩ := hw.lastCheckedAt t ht
  exact ⟨answer, hg hmem, hm, hti, hic.trans hle⟩

private theorem returned_mono (hw : Matched config given w) (hg : given ⊆ given') (i : Nat)
    (now : ℚ) (hi : w.calls[i]? = some (.returned now)) :
    ∃ answer ∈ given', matchesModel config.model answer.models = true ∧
      answer.Backs config i now := by
  obtain ⟨answer, hmem, hm, hb⟩ := hw.returned i now hi
  exact ⟨answer, hg hmem, hm, hb⟩

/-- A step of a call keeps it, with the answer it takes. -/
theorem step {w' : OllamaEngine} {a : AvailabilityAction} (hw : Matched config given w)
    (ht : ∀ call ∈ w.calls, call.Timed w.clock) (h : w.step config a = some w') :
    Matched config (given ++ w.answers a) w' := by
  have hg : given ⊆ given ++ w.answers a := List.subset_append_left _ _
  cases OllamaEngine.callStep_of_step h with
  | skipped now t hle hlast hlt =>
    refine ⟨hw.lastCheckedAt_mono hg hle, fun k now' hk ↦ ?_⟩
    rcases List.getElem?_concat_eq_some.mp hk with hk | ⟨-, hnow⟩
    · exact hw.returned_mono hg k now' hk
    · obtain rfl : now' = now := by simpa using hnow
      obtain ⟨answer, hmem, hm, hti, hic⟩ := hw.lastCheckedAt t hlast
      exact ⟨answer, hg hmem, hm, .inr ⟨hic.trans hle, by linarith⟩⟩
  | started now hle hc =>
    refine ⟨hw.lastCheckedAt_mono hg hle, fun k now' hk ↦ ?_⟩
    rcases List.getElem?_concat_eq_some.mp hk with hk | ⟨-, hnow⟩
    · exact hw.returned_mono hg k now' hk
    · cases hnow
  | issued i now time hc hle =>
    exact ⟨hw.lastCheckedAt_mono hg hle, fun k now' hk ↦
      hw.returned_mono hg k now' (List.getElem?_of_getElem?_set hk nofun)⟩
  | matched i now issued names hc hm =>
    have hmem : ListAnswer.mk i issued names ∈ given ++ w.answers (.respond i (.models names)) :=
      List.mem_append_right _ (by simp [OllamaEngine.answers, hc])
    obtain ⟨hni, hic⟩ : now ≤ issued ∧ issued ≤ w.clock := ht _ (List.mem_of_getElem? hc)
    refine ⟨?_, fun k now' hk ↦ ?_⟩
    · rintro t ⟨⟩
      exact ⟨_, hmem, hm, hni, hic⟩
    · rcases List.getElem?_set_eq_some.mp hk with ⟨-, hk⟩ | ⟨rfl, -, -⟩
      · exact hw.returned_mono hg k now' hk
      · exact ⟨_, hmem, hm, .inl rfl⟩
  | failed i now issued response error hc he =>
    exact ⟨hw.lastCheckedAt_mono hg le_rfl, fun k now' hk ↦
      hw.returned_mono hg k now' (List.getElem?_of_getElem?_set hk nofun)⟩

end Matched

/-- Behind every call that returned stands an answer that matched. -/
theorem matched_of_run {w : OllamaEngine} {as : List AvailabilityAction}
    (h : (availability config start).run as = some w) :
    Matched config
      ((availability config start).emitted OllamaEngine.answers (availability config start).init as)
      w := by
  refine TransitionSystem.run_induction (J := fun as w ↦ Matched config
    ((availability config start).emitted OllamaEngine.answers (availability config start).init as)
    w) ?_ ?_ h
  · exact ⟨nofun, nofun⟩
  · intro as s a t hrun hs hstep
    rw [TransitionSystem.emitted_concat hrun hstep]
    exact hs.step (OllamaEngine.timed_of_reachable (TransitionSystem.reachable_of_run hrun)) hstep

/-- The names have the model's, or its name with `:latest` where it has no tag. -/
def NamesModel (model : Str) (names : List Str) : Prop :=
  model ∈ names ∨ ':' ∉ model ∧ model ++ ":latest".toList ∈ names

instance (model : Str) (names : List Str) : Decidable (NamesModel model names) :=
  inferInstanceAs (Decidable (_ ∨ _))

/-- Some name among them, less its tag, is the model's. -/
def NamesFamily (model : Str) (names : List Str) : Prop := ∃ m ∈ names, untagged m = model

/-- Where every set of models with a name of the model's family names the model, a call returns
only if a request of its own, or one issued less than the cache time before it read the clock, was
answered with a set that names the model; and in every run no step of a call that raises changes
the time of the last check. -/
theorem ensureModelAvailable_returned_only_if {w : OllamaEngine} {as : List AvailabilityAction}
    (h : (availability config start).run as = some w) :
    ((∀ i names, .respond i (.models names) ∈ as → NamesFamily config.model names →
        NamesModel config.model names) →
      ∀ (i : Nat) now, w.calls[i]? = some (.returned now) →
        ∃ answer ∈ (availability config start).emitted OllamaEngine.answers
            (availability config start).init as,
          NamesModel config.model answer.models ∧ (answer.call = i ∨ answer.issued ≤ now ∧
            now - answer.issued < config.availabilityCacheSeconds)) ∧
    ∀ bs a cs u v, as = bs ++ a :: cs → (availability config start).run bs = some u →
      (availability config start).step u a = some v →
      ∀ error, w.calls[u.caller a]? = some (.raised error) →
        v.lastCheckedAt = u.lastCheckedAt := by
  constructor
  · intro hnames i now hi
    obtain ⟨answer, hmem, hm, hb⟩ := (matched_of_run h).returned i now hi
    refine ⟨answer, hmem, ?_, hb⟩
    rcases matchesModel_eq_true_iff.mp hm with hmodel | hfamily
    · exact .inl hmodel
    · obtain ⟨a, ha, s, hs⟩ := TransitionSystem.exists_of_mem_emitted hmem
      exact hnames _ _ (OllamaEngine.respond_of_mem_answers hs ▸ ha) hfamily
  · rintro bs a cs u v rfl hu hv error hi
    refine (OllamaEngine.lastCheckedAt_step hv).resolve_right ?_
    rintro ⟨now, hnow⟩
    have hrest : (availability config start).runFrom v cs = some w :=
      TransitionSystem.runFrom_of_run_append_cons h hu hv
    have hw : w.calls[u.caller a]? = some (.returned now) :=
      TransitionSystem.runFrom_preserves
        (I := fun x : OllamaEngine ↦ x.calls[u.caller a]? = some (.returned now))
        (fun _ _ _ hreturned hstep ↦ OllamaEngine.returned_step hstep hreturned) hnow hrest
    exact nomatch hi.symm.trans hw

end

/-- The defaults of `OllamaConfig`. -/
def llama : AvailabilityConfig := ⟨"llama3.1".toList, 10⟩

/-- Ollama has the model; the second call finds the first one's check, and the third, after the
cache time, finds no Ollama. -/
def modelLatest : List AvailabilityAction :=
  [AvailabilityAction.call 0, .issue 0 1, .respond 0 (.models ["llama3.1:latest".toList]), .call 5,
    .call 20, .issue 2 20, .respond 2 .connectError]

/-- Ollama has another model of the family only. -/
def modelOtherTag : List AvailabilityAction :=
  [AvailabilityAction.call 0, .issue 0 0, .respond 0 (.models ["llama3.1:70b".toList])]

/-- The second call returns on the answer to the first one's request. -/
theorem ensureModelAvailable_returned_only_if_latest :
    ∃ w, (availability llama 0).run modelLatest = some w ∧
      w.calls = [.returned 0, .returned 5, .raised .ollamaUnreachable] ∧
      ∃ answer ∈ (availability llama 0).emitted OllamaEngine.answers (availability llama 0).init
          modelLatest,
        NamesModel llama.model answer.models ∧ (answer.call = 1 ∨ answer.issued ≤ 5 ∧
          5 - answer.issued < llama.availabilityCacheSeconds) := by
  have hrun : (availability llama 0).run modelLatest =
      some ⟨20, some 0, [.returned 0, .returned 5, .raised .ollamaUnreachable]⟩ := by
    decide +kernel
  refine ⟨_, hrun, rfl, (ensureModelAvailable_returned_only_if hrun).1 ?_ 1 5 rfl⟩
  intro i names hmem _
  have hnames : i = 0 ∧ names = ["llama3.1:latest".toList] := by
    simpa [modelLatest] using hmem
  rw [hnames.2]
  decide

/-- A call returns, although no answer names the model. -/
theorem ensureModelAvailable_returns_otherTag :
    ∃ w, (availability llama 0).run modelOtherTag = some w ∧ w.calls = [.returned 0] ∧
      ∀ answer ∈ (availability llama 0).emitted OllamaEngine.answers (availability llama 0).init
          modelOtherTag, ¬ NamesModel llama.model answer.models :=
  ⟨⟨0, some 0, [.returned 0]⟩, by decide +kernel, rfl, by decide +kernel⟩

end BibiCore.Llm
