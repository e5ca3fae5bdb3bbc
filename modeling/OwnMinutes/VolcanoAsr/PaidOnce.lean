import OwnMinutes.VolcanoAsr.Recognition

/-! # A recognition is paid once

Requests that submit or recognize may cost money unless they are definitively rejected. Each part of a call is a
triple of `Ends`; a whole call is put together from them. -/

namespace OwnMinutes.VolcanoAsr.PaidOnce

open OwnMinutes.Lib.JsText OwnMinutes.Lib.Dialogue OwnMinutes.Lib.Dialogue.Asking OwnMinutes.VolcanoAsr.Config
open OwnMinutes.VolcanoAsr.Recognition

variable {Body : Type} {platform : Platform} {input : Input} {config : VolcanoAsrConfig}

abbrev CallWorld (Body : Type) := World (Answer Body) (Event Body) CallState

/-! ### Events -/

/-- A submit or a recognition. -/
def IsPaid : Event Body → Prop
  | .request request _ => request.kind ≠ .query
  | .before _ => False

/-- The provider answered, and definitively did not accept. -/
def IsRejected : Event Body → Prop
  | .request _ (some (.complete response)) => isDefinitiveVolcanoRejectionResponse response = true
  | _ => False

def IsRequest : Event Body → Prop
  | .request _ _ => True
  | .before _ => False

/-- All paid requests were rejected. -/
def Clean (events : List (Event Body)) : Prop := ∀ e ∈ events, IsPaid e → IsRejected e

/-- After a paid request that may have been accepted there is no paid request. -/
def PaidAtMostOnce (events : List (Event Body)) : Prop := events.Pairwise fun e f => IsPaid e → ¬ IsRejected e → ¬ IsPaid f

/-- The caller's check ran once, with success, before all requests. -/
def Checked (input : Input) (events : List (Event Body)) : Prop :=
  match input.beforeProviderRequest with
  | none => ∀ e ∈ events, IsRequest e
  | some ok => ok = true ∧ ∃ rest, events = .before true :: rest ∧ ∀ e ∈ rest, IsRequest e

/-- The check failed, and nothing was sent. -/
def CheckFailed (input : Input) (events : List (Event Body)) : Prop :=
  input.beforeProviderRequest = some false ∧ events = [.before false]

theorem Clean.paidOnce {events : List (Event Body)} (h : Clean events) : PaidAtMostOnce events := by
  refine List.Pairwise.imp_of_mem (R := fun _ _ => True) (fun {e f} he _ _ hpaid hnot => ?_)
    (List.pairwise_of_forall fun _ _ => trivial)
  exact absurd (h e he hpaid) hnot

theorem Clean.append {events new : List (Event Body)} (h : Clean events) (hnew : Clean new) : Clean (events ++ new) := by
  intro e he
  rcases List.mem_append.mp he with he | he
  · exact h e he
  · exact hnew e he

theorem Clean.paidOnce_append {events : List (Event Body)} (h : Clean events) (e : Event Body) :
    PaidAtMostOnce (events ++ [e]) := by
  refine List.pairwise_append.mpr ⟨h.paidOnce, List.pairwise_singleton _ _, fun f hf _ _ hpaid hnot => ?_⟩
  exact absurd (h f hf hpaid) hnot

theorem PaidAtMostOnce.append {events : List (Event Body)} (h : PaidAtMostOnce events) {e : Event Body} (he : ¬ IsPaid e) :
    PaidAtMostOnce (events ++ [e]) := by
  refine List.pairwise_append.mpr ⟨h, List.pairwise_singleton _ _, fun f _ g hg _ _ => ?_⟩
  rw [List.mem_singleton] at hg
  exact hg ▸ he

theorem Checked.append {events : List (Event Body)} (h : Checked input events) (request : Request)
    (answer : Option (Answer Body)) : Checked input (events ++ [.request request answer]) := by
  unfold Checked at h ⊢
  split at h
  · intro e he
    rcases List.mem_append.mp he with he | he
    · exact h e he
    · rw [List.mem_singleton] at he
      exact he ▸ trivial
  · obtain ⟨hok, rest, rfl, hrest⟩ := h
    refine ⟨hok, rest ++ [.request request answer], by rw [List.cons_append], fun e he => ?_⟩
    rcases List.mem_append.mp he with he | he
    · exact hrest e he
    · rw [List.mem_singleton] at he
      exact he ▸ trivial

theorem clean_nil : Clean ([] : List (Event Body)) := fun _ h => by cases h

/-- The caller's checks of a part. -/
def Checks (w : CallWorld Body) (checks : List (Event Body)) : Prop :=
  (w.state.providerRequestStarted = true → checks = []) ∧ ∀ e ∈ checks, ¬ IsRequest e

theorem Checks.nil (w : CallWorld Body) : Checks w [] := ⟨fun _ => rfl, fun _ h => by cases h⟩

variable {w : CallWorld Body}

theorem Checks.single (h : ¬ w.state.providerRequestStarted = true) (ok : Bool) : Checks w [.before ok] := by
  refine ⟨fun hs => absurd hs h, fun e he => ?_⟩
  rw [List.mem_singleton] at he
  exact he ▸ not_false

theorem Checks.clean {checks : List (Event Body)} (h : Checks w checks) : Clean checks := by
  intro e he hpaid
  cases e with
  | before ok => exact hpaid.elim
  | request request answer => exact absurd trivial (h.2 _ he)

/-! ### One request -/

/-- Before a request: nothing has happened, or the check has been made. -/
structure Begun (input : Input) (w : CallWorld Body) : Prop where
  idle : ¬ w.state.providerRequestStarted = true → w.events = []
  started : w.state.providerRequestStarted = true → Checked input w.events

/-- No request was sent. -/
def Unasked (w w' : CallWorld Body) : Prop := ∃ checks, Checks w checks ∧ w'.events = w.events ++ checks

/-- One request was sent, of this kind and with this resource id. -/
def Asked (kind : RequestKind) (resourceId : Text) (w w' : CallWorld Body) (answer : Option (Answer Body)) : Prop :=
  ∃ checks request, Checks w checks ∧ request.kind = kind ∧ request.resourceId = resourceId ∧
    w'.events = w.events ++ checks ++ [.request request answer] ∧ w'.state.providerRequestStarted = true

/-- The requests that were sent all meet `p`, and there are at most `n` where the check had run. -/
def Sent (n : ℕ) (p : Request → Prop) (w w' : CallWorld Body) : Prop :=
  ∃ new, w'.events = w.events ++ new ∧ (w.state.providerRequestStarted = true → new.length ≤ n) ∧
    ∀ request answer, .request request answer ∈ new → p request

/-- The check failed or the call goes on. -/
def Settled (input : Input) (w : CallWorld Body) : Prop := Begun input w ∨ CheckFailed input w.events

variable {w' w'' : CallWorld Body} {kind : RequestKind} {resourceId : Text} {response : Response Body}
  {p : Request → Prop}

theorem Unasked.clean (h : Unasked w w') (hw : Clean w.events) : Clean w'.events := by
  obtain ⟨checks, hchecks, hevents⟩ := h
  rw [hevents]
  exact hw.append hchecks.clean

theorem Asked.paid {answer : Option (Answer Body)} (h : Asked kind resourceId w w' answer) (hw : Clean w.events) :
    PaidAtMostOnce w'.events := by
  obtain ⟨checks, request, hchecks, -, -, hevents, -⟩ := h
  rw [hevents]
  exact (hw.append hchecks.clean).paidOnce_append _

theorem Asked.clean (h : Asked kind resourceId w w' (some (.complete response))) (hw : Clean w.events)
    (hrejected : isDefinitiveVolcanoRejectionResponse response = true) : Clean w'.events := by
  obtain ⟨checks, request, hchecks, -, -, hevents, -⟩ := h
  rw [hevents]
  refine (hw.append hchecks.clean).append fun e he _ => ?_
  rw [List.mem_singleton] at he
  exact he ▸ hrejected

theorem Unasked.sent (h : Unasked w w') (n : ℕ) (p : Request → Prop) : Sent n p w w' := by
  obtain ⟨checks, hchecks, hevents⟩ := h
  refine ⟨checks, hevents, fun hstarted => ?_, fun request answer hmem => absurd trivial (hchecks.2 _ hmem)⟩
  rw [hchecks.1 hstarted]
  exact Nat.zero_le n

theorem Sent.nil (w : CallWorld Body) (n : ℕ) (p : Request → Prop) : Sent n p w w :=
  Unasked.sent ⟨[], Checks.nil w, (List.append_nil _).symm⟩ n p

theorem Sent.mono {n : ℕ} {q : Request → Prop} (h : Sent n p w w') (hpq : ∀ request, p request → q request) :
    Sent n q w w' := by
  obtain ⟨new, hevents, hlength, hnew⟩ := h
  exact ⟨new, hevents, hlength, fun request answer hmem => hpq request (hnew request answer hmem)⟩

theorem Sent.trans {n m : ℕ} (h : Sent n p w w') (hstarted : w'.state.providerRequestStarted = true)
    (h' : Sent m p w' w'') : Sent (n + m) p w w'' := by
  obtain ⟨new, hevents, hlength, hnew⟩ := h
  obtain ⟨new', hevents', hlength', hnew'⟩ := h'
  refine ⟨new ++ new', ?_, fun hs => ?_, fun request answer hmem => ?_⟩
  · rw [hevents', hevents, List.append_assoc]
  · have h1 := hlength hs
    have h2 := hlength' hstarted
    rw [List.length_append]
    omega
  · rcases List.mem_append.mp hmem with hmem | hmem
    · exact hnew request answer hmem
    · exact hnew' request answer hmem

theorem Asked.sent {answer : Option (Answer Body)} (h : Asked kind resourceId w w' answer)
    (hp : ∀ request : Request, request.kind = kind → request.resourceId = resourceId → p request) (n : ℕ) :
    Sent (n + 1) p w w' := by
  obtain ⟨checks, request, hchecks, hkind, hresource, hevents, -⟩ := h
  refine ⟨checks ++ [.request request answer], by rw [hevents, List.append_assoc], fun hs => ?_, fun r a hmem => ?_⟩
  · rw [hchecks.1 hs]
    exact Nat.le_add_left 1 n
  · rcases List.mem_append.mp hmem with hmem | hmem
    · exact absurd trivial (hchecks.2 _ hmem)
    · rw [List.mem_singleton] at hmem
      cases hmem
      exact hp request hkind hresource

theorem Asked.started {answer : Option (Answer Body)} (h : Asked kind resourceId w w' answer) :
    w'.state.providerRequestStarted = true := by
  obtain ⟨-, -, -, -, -, -, hstarted⟩ := h
  exact hstarted

theorem ends_before (h : Begun input w) :
    Ends (beforeProviderRequest input : Call Body Unit) w
      (fun _ w' => Begun input w' ∧ w'.state.providerRequestStarted = true ∧ Unasked w w')
      (fun e w' => e = .failed .beforeProviderRequest ∧ CheckFailed input w'.events ∧ Unasked w w')
      fun _ => False := by
  unfold beforeProviderRequest
  rw [ends_bind, ends_getState]
  refine ends_ite (fun hstarted => ?_) fun hnot => ?_
  · rw [ends_pure]
    exact ⟨h, hstarted, [], Checks.nil w, (List.append_nil _).symm⟩
  have hidle := h.idle hnot
  cases hbefore : input.beforeProviderRequest with
  | none =>
    rw [ends_setState]
    refine ⟨⟨fun hs => absurd rfl hs, fun _ => ?_⟩, rfl, [], Checks.nil w, (List.append_nil _).symm⟩
    rw [hidle, Checked, hbefore]
    exact fun _ he => by cases he
  | some ok =>
    cases ok with
    | true =>
      rw [ends_bind, ends_note, ends_setState]
      refine ⟨⟨fun hs => absurd rfl hs, fun _ => ?_⟩, rfl, [.before true], Checks.single hnot true, rfl⟩
      rw [hidle, Checked, hbefore]
      exact ⟨rfl, [], rfl, fun _ he => by cases he⟩
    | false =>
      rw [ends_bind, ends_note, ends_fail]
      refine ⟨rfl, ⟨hbefore, ?_⟩, [.before false], Checks.single hnot false, rfl⟩
      rw [hidle, List.nil_append]

/-- **One request.** It is sent after the check; the call goes on with the answer, if that is complete. -/
theorem ends_request {α : Type} (h : Begun input w) {url : Option Text} {k : ℕ → Response Body → Call Body α}
    {R : α → CallWorld Body → Prop} {T : AsrError → CallWorld Body → Prop} {P : CallWorld Body → Prop}
    (hresponse : ∀ requestId response w', Begun input w' →
      Asked kind resourceId w w' (some (.complete response)) → Ends (k requestId response) w' R T P)
    (hfailed : ∀ failure w', Settled input w' →
      Unasked w w' ∨ Asked kind resourceId w w' (some .failed) → T (.failed failure) w')
    (hpending : ∀ w', Begun input w' → Asked kind resourceId w w' none → P w') :
    Ends (do
      let requestId ← drawId
      let url ← ofOption (.failed .endpoint) url
      beforeProviderRequest input
      let response ← fetch { kind, url, resourceId, requestId }
      k requestId response) w R T P := by
  have hdrawn : Begun input { w with state := { w.state with drawnIds := w.state.drawnIds + 1 } } :=
    ⟨h.idle, h.started⟩
  rw [ends_bind]
  change Ends _ { w with state := { w.state with drawnIds := w.state.drawnIds + 1 } } R T P
  rw [ends_bind]
  refine ends_ofOption (fun url _ => ?_) fun _ => ?_
  · rw [ends_bind]
    refine (ends_before hdrawn).mono (fun _ w' hw' => ?_) (fun e w' hw' => ?_) fun _ hw' => hw'.elim
    · obtain ⟨hbegun, hstarted, checks, hchecks, hevents⟩ := hw'
      have hasked (answer : Option (Answer Body)) (answers : List (Answer Body)) :
          Begun input ⟨answers, w'.events ++ [.request ⟨kind, url, resourceId, w.state.drawnIds, none⟩ answer],
            w'.state⟩ ∧
          Asked kind resourceId w
            ⟨answers, w'.events ++ [.request ⟨kind, url, resourceId, w.state.drawnIds, none⟩ answer], w'.state⟩
            answer := by
        refine ⟨⟨fun hs => absurd hstarted hs, fun _ => (hbegun.started hstarted).append _ _⟩, checks,
          ⟨kind, url, resourceId, w.state.drawnIds, none⟩, hchecks, rfl, rfl, ?_, hstarted⟩
        rw [hevents]
      rw [ends_bind]
      unfold fetch
      rw [ends_bind]
      refine ends_ask (fun answer rest _ => ?_) (hpending _ (hasked _ _).1 (hasked _ _).2)
      cases answer with
      | failed => exact hfailed _ _ (.inl (hasked _ _).1) (.inr (hasked _ _).2)
      | complete response =>
        rw [ends_pure]
        exact hresponse _ _ _ (hasked _ _).1 (hasked _ _).2
    · obtain ⟨rfl, hfail, hunasked⟩ := hw'
      exact hfailed _ _ (.inr hfail) (.inl hunasked)
  · exact hfailed _ _ (.inl hdrawn) (.inl ⟨[], Checks.nil w, (List.append_nil _).symm⟩)

/-! ### Recognitions -/

theorem definitive_of_retryable (h : isRetryableVolcanoFlashResponse response = true) :
    isDefinitiveVolcanoRejectionResponse response = true := by
  simp only [isRetryableVolcanoFlashResponse, Bool.or_eq_true, decide_eq_true_eq] at h
  simp only [isDefinitiveVolcanoRejectionResponse, Response.ok, Bool.or_eq_true, Bool.not_eq_true',
    Bool.and_eq_false_iff, decide_eq_false_iff_not]
  rcases h with (h | h) | h
  · exact .inl (.inr (by omega))
  · exact .inl (.inr (by omega))
  · rw [h]
    exact .inr (by decide)

/-- What recognitions leave behind. -/
structure Recognized (input : Input) (n : ℕ) (resourceId : Text) (w w' : CallWorld Body) : Prop where
  settled : Settled input w'
  paid : PaidAtMostOnce w'.events
  sent : Sent n (fun request => request.kind = .recognize ∧ request.resourceId = resourceId) w w'

theorem Recognized.after {n : ℕ} {answer : Option (Answer Body)} (h : Recognized input n resourceId w' w'')
    (hasked : Asked .recognize resourceId w w' answer) : Recognized input (n + 1) resourceId w w'' := by
  refine ⟨h.settled, h.paid, ?_⟩
  rw [Nat.add_comm]
  exact (hasked.sent (fun _ hkind hresource => ⟨hkind, hresource⟩) 0).trans hasked.started h.sent

theorem Asked.recognized {answer : Option (Answer Body)} (h : Asked .recognize resourceId w w' answer)
    (hsettled : Settled input w') (hw : Clean w.events) (n : ℕ) : Recognized input (n + 1) resourceId w w' :=
  ⟨hsettled, h.paid hw, h.sent (fun _ hkind hresource => ⟨hkind, hresource⟩) n⟩

/-- A response that is not accepted. -/
theorem ends_notAccepted {α : Type} {phase : RequestKind} {R : α → CallWorld Body → Prop}
    {T : AsrError → CallWorld Body → Prop} {P : CallWorld Body → Prop}
    (hrejected : isDefinitiveVolcanoRejectionResponse response = true →
      T (.rejected phase response.httpStatus response.statusCode) w) (hambiguous : T (.failed .ambiguous) w) :
    Ends (if isDefinitiveVolcanoRejectionResponse response then
        fail (.rejected phase response.httpStatus response.statusCode)
      else fail (.failed .ambiguous) : Call Body α) w R T P :=
  ends_ite hrejected fun _ => hambiguous

/-- **Recognitions are tried again only after a definitive rejection.** -/
theorem ends_recognizeFrom (platform : Platform) (config : VolcanoAsrConfig) (remaining : ℕ) :
    ∀ (attempt : ℕ) (w : CallWorld Body), Begun input w → Clean w.events →
    Ends (recognizeFrom platform input config remaining attempt) w
      (fun _ => Recognized input (remaining + 1) (resolveResourceId platform config) w)
      (fun e w' => Recognized input (remaining + 1) (resolveResourceId platform config) w w' ∧
        ∀ phase httpStatus statusCode, e = .rejected phase httpStatus statusCode →
          phase = .recognize ∧ Clean w'.events)
      (Recognized input (remaining + 1) (resolveResourceId platform config) w) := by
  induction remaining with
  | zero =>
    intro attempt w hbegun hclean
    unfold recognizeFrom
    refine ends_request hbegun (fun requestId response w' hbegun' hasked => ?_) (fun failure w' hsettled hone => ?_)
      fun w' hbegun' hasked => hasked.recognized (.inl hbegun') hclean 0
    · have hrecognized := hasked.recognized (.inl hbegun') hclean 0
      refine ends_ite (fun _ => hrecognized) fun _ => ends_ite (fun _ => ?_) fun _ => ?_ <;>
      · refine ends_notAccepted (fun hdefinitive => ⟨hrecognized, ?_⟩) ⟨hrecognized, fun _ _ _ h => by cases h⟩
        rintro phase httpStatus statusCode ⟨⟩
        exact ⟨rfl, hasked.clean hclean hdefinitive⟩
    · refine ⟨?_, fun _ _ _ h => by cases h⟩
      rcases hone with hunasked | hasked
      · exact ⟨hsettled, (hunasked.clean hclean).paidOnce, hunasked.sent _ _⟩
      · exact hasked.recognized hsettled hclean 0
  | succ remaining ih =>
    intro attempt w hbegun hclean
    unfold recognizeFrom
    refine ends_request hbegun (fun requestId response w' hbegun' hasked => ?_) (fun failure w' hsettled hone => ?_)
      fun w' hbegun' hasked => hasked.recognized (.inl hbegun') hclean _
    · have hrecognized := hasked.recognized (.inl hbegun') hclean (remaining + 1)
      refine ends_ite (fun _ => hrecognized) fun _ => ends_ite (fun hretryable => ?_) fun _ => ?_
      · have hclean' := hasked.clean hclean (definitive_of_retryable hretryable)
        refine (ih (attempt + 1) w' hbegun' hclean').mono (fun _ w'' h => h.after hasked) (fun e w'' h => ?_)
          fun w'' h => h.after hasked
        exact ⟨h.1.after hasked, h.2⟩
      · refine ends_notAccepted (fun hdefinitive => ⟨hrecognized, ?_⟩) ⟨hrecognized, fun _ _ _ h => by cases h⟩
        rintro phase httpStatus statusCode ⟨⟩
        exact ⟨rfl, hasked.clean hclean hdefinitive⟩
    · refine ⟨?_, fun _ _ _ h => by cases h⟩
      rcases hone with hunasked | hasked
      · exact ⟨hsettled, (hunasked.clean hclean).paidOnce, hunasked.sent _ _⟩
      · exact hasked.recognized hsettled hclean _

/-! ### Submit and poll -/

/-- What a submit and the queries after it leave behind. -/
structure Submitted (input : Input) (resourceId : Text) (w w' : CallWorld Body) : Prop where
  settled : Settled input w'
  paid : PaidAtMostOnce w'.events
  sent : ∃ n, Sent n (fun request => request.kind ≠ .recognize ∧ request.resourceId = resourceId) w w'

/-- The error is the definitive rejection of the submit, which is all that was sent. -/
def SubmitRejected (resourceId : Text) (w w' : CallWorld Body) (e : AsrError) : Prop :=
  ∃ response : Response Body, e = .rejected .submit response.httpStatus response.statusCode ∧
    isDefinitiveVolcanoRejectionResponse response = true ∧
    Asked .submit resourceId w w' (some (.complete response))

theorem Asked.submitted {answer : Option (Answer Body)} (h : Asked .submit resourceId w w' answer)
    (hsettled : Settled input w') (hw : Clean w.events) : Submitted input resourceId w w' :=
  ⟨hsettled, h.paid hw, 1, h.sent (fun _ hkind hresource => ⟨by rw [hkind]; decide, hresource⟩) 0⟩

theorem ends_submitAudio (platform : Platform) (config : VolcanoAsrConfig) (hbegun : Begun input w)
    (hclean : Clean w.events) :
    Ends (submitAudio platform input config) w
      (fun _ w' => Begun input w' ∧ w'.state.providerRequestStarted = true ∧
        Submitted input (resolveResourceId platform config) w w')
      (fun e w' => Submitted input (resolveResourceId platform config) w w' ∧
        ((∃ failure, e = .failed failure) ∨
          Begun input w' ∧ SubmitRejected (resolveResourceId platform config) w w' e))
      (Submitted input (resolveResourceId platform config) w) := by
  unfold submitAudio
  refine ends_request hbegun (fun requestId response w' hbegun' hasked => ?_) (fun failure w' hsettled hone => ?_)
    fun w' hbegun' hasked => hasked.submitted (.inl hbegun') hclean
  · have hsubmitted := hasked.submitted (.inl hbegun') hclean
    refine ends_ite (fun _ => ?_) fun _ => ⟨hbegun', hasked.started, hsubmitted⟩
    exact ends_notAccepted (fun hdefinitive => ⟨hsubmitted, .inr ⟨hbegun', response, rfl, hdefinitive, hasked⟩⟩)
      ⟨hsubmitted, .inl ⟨_, rfl⟩⟩
  · refine ⟨?_, .inl ⟨failure, rfl⟩⟩
    rcases hone with hunasked | hasked
    · exact ⟨hsettled, (hunasked.clean hclean).paidOnce, 0, hunasked.sent _ _⟩
    · exact hasked.submitted hsettled hclean

/-- What queries leave behind. -/
structure Queried (input : Input) (resourceId : Text) (w w' : CallWorld Body) : Prop where
  begun : Begun input w'
  started : w'.state.providerRequestStarted = true
  paid : PaidAtMostOnce w'.events
  sent : ∃ n, Sent n (fun request => request.kind = .query ∧ request.resourceId = resourceId) w w'

theorem ends_query {request : Request} (hbegun : Begun input w) (hstarted : w.state.providerRequestStarted = true)
    (hpaid : PaidAtMostOnce w.events) (hkind : request.kind = .query) :
    Ends (fetch request : Call Body (Response Body)) w (fun _ => Queried input request.resourceId w)
      (fun e w' => e = .failed .network ∧ Queried input request.resourceId w w')
      (Queried input request.resourceId w) := by
  have hqueried (answer : Option (Answer Body)) (answers : List (Answer Body)) :
      Queried input request.resourceId w ⟨answers, w.events ++ [.request request answer], w.state⟩ := by
    refine ⟨⟨fun hs => absurd hstarted hs, fun _ => (hbegun.started hstarted).append _ _⟩, hstarted,
      hpaid.append fun h => h hkind, 1, [.request request answer], rfl, fun _ => le_rfl, fun r a hmem => ?_⟩
    rw [List.mem_singleton] at hmem
    cases hmem
    exact ⟨hkind, rfl⟩
  unfold fetch
  rw [ends_bind]
  refine ends_ask (fun answer rest _ => ?_) (hqueried _ _)
  cases answer with
  | failed => exact ⟨rfl, hqueried _ _⟩
  | complete response => exact hqueried _ _

theorem Queried.trans (h : Queried input resourceId w w') (h' : Queried input resourceId w' w'') :
    Queried input resourceId w w'' := by
  obtain ⟨n, hn⟩ := h.sent
  obtain ⟨m, hm⟩ := h'.sent
  exact ⟨h'.begun, h'.started, h'.paid, n + m, hn.trans h.started hm⟩

theorem ends_pollFrom (platform : Platform) (config : VolcanoAsrConfig) (requestId fuel : ℕ) :
    ∀ (attempt : ℕ) (w : CallWorld Body), Begun input w → w.state.providerRequestStarted = true →
      PaidAtMostOnce w.events →
    Ends (pollFrom platform config requestId fuel attempt) w
      (fun _ => Queried input (resolveResourceId platform config) w)
      (fun e w' => (∃ failure, e = .failed failure) ∧ Queried input (resolveResourceId platform config) w w')
      (Queried input (resolveResourceId platform config) w) := by
  induction fuel with
  | zero => exact fun _ w hbegun hstarted hpaid => ⟨hbegun, hstarted, hpaid, 0, Sent.nil w 0 _⟩
  | succ fuel ih =>
    intro attempt w hbegun hstarted hpaid
    have hidle : Queried input (resolveResourceId platform config) w w :=
      ⟨hbegun, hstarted, hpaid, 0, Sent.nil w 0 _⟩
    -- the queries from the next attempt on
    have hrest {w' : CallWorld Body} (hqueried : Queried input (resolveResourceId platform config) w w') :
        Ends (pollFrom platform config requestId fuel (attempt + 1)) w'
          (fun _ => Queried input (resolveResourceId platform config) w)
          (fun e w'' => (∃ failure, e = .failed failure) ∧ Queried input (resolveResourceId platform config) w w'')
          (Queried input (resolveResourceId platform config) w) :=
      (ih (attempt + 1) w' hqueried.begun hqueried.started hqueried.paid).mono (fun _ _ => hqueried.trans)
        (fun _ _ h => ⟨h.1, hqueried.trans h.2⟩) fun _ => hqueried.trans
    unfold pollFrom
    refine ends_ite (fun _ => ?_) fun _ => ⟨⟨_, rfl⟩, hidle⟩
    rw [ends_bind]
    refine ends_ofOption (fun url _ => ?_) fun _ => ⟨⟨_, rfl⟩, hidle⟩
    rw [ends_bind]
    refine (ends_query hbegun hstarted hpaid rfl).mono (fun response w' hqueried => ?_) (fun e w' h => ⟨⟨_, h.1⟩, h.2⟩)
      fun _ => id
    refine ends_ite (fun _ => ⟨⟨_, rfl⟩, hqueried⟩) fun _ => ?_
    split
    · refine ends_ite (fun _ => hqueried) fun _ => ends_ite (fun _ => ⟨⟨_, rfl⟩, hqueried⟩) fun _ => hrest hqueried
    · exact hrest hqueried

theorem Submitted.queried (h : Submitted input resourceId w w') (hstarted : w'.state.providerRequestStarted = true)
    (hqueried : Queried input resourceId w' w'') : Submitted input resourceId w w'' := by
  obtain ⟨n, hn⟩ := h.sent
  obtain ⟨m, hm⟩ := hqueried.sent
  refine ⟨.inl hqueried.begun, hqueried.paid, n + m, hn.trans hstarted (hm.mono fun request hrequest => ?_)⟩
  exact ⟨by rw [hrequest.1]; decide, hrequest.2⟩

/-- **The standard mode submits once.** -/
theorem ends_recognizeStandardAudio (platform : Platform) (config : VolcanoAsrConfig) (hbegun : Begun input w)
    (hclean : Clean w.events) :
    Ends (recognizeStandardAudio platform input config) w
      (fun _ => Submitted input (resolveResourceId platform config) w)
      (fun e w' => Submitted input (resolveResourceId platform config) w w' ∧
        ((∃ failure, e = .failed failure) ∨
          Begun input w' ∧ SubmitRejected (resolveResourceId platform config) w w' e))
      (Submitted input (resolveResourceId platform config) w) := by
  unfold recognizeStandardAudio
  rw [ends_bind]
  refine (ends_submitAudio platform config hbegun hclean).mono (fun submitted w' h => ?_) (fun _ _ => id) fun _ => id
  obtain ⟨hbegun', hstarted, hsubmitted⟩ := h
  rw [ends_bind]
  exact (ends_pollFrom platform config submitted.1 _ 1 w' hbegun' hstarted hsubmitted.paid).mono
    (fun _ _ => hsubmitted.queried hstarted) (fun _ _ h => ⟨hsubmitted.queried hstarted h.2, .inl h.1⟩)
    fun _ => hsubmitted.queried hstarted

/-! ### The fallback -/

/-- The provider could not take the submit now; it did not refuse the account. -/
def Overloaded (response : Response Body) : Prop :=
  response.httpStatus ≠ 403 ∧ response.statusCode ≠ some "45000030".toList ∧
    (response.httpStatus = 429 ∨ 500 ≤ response.httpStatus ∧ response.httpStatus ≤ 599 ∨
      response.statusCode = some "45000000".toList)

/-- The audio is within the configured cap, which is at most 30 minutes. -/
def WithinCap (platform : Platform) (input : Input) : Prop :=
  ∃ (minutes : ℕ) (durationMs : ℚ), configuredMinutes platform input.config = some minutes ∧ minutes ≤ 30 ∧
    input.durationMs = .finite durationMs ∧ 0 < durationMs ∧ durationMs ≤ (minutes : ℚ) * 60000

/-- A request for a Turbo resource is the one recognition after the rejected submit, and the last request. -/
def TurboRule (platform : Platform) (input : Input) (events : List (Event Body)) : Prop :=
  ∀ before request answer after, events = before ++ .request request answer :: after →
    isTurboResourceId platform input.config request.resourceId = true →
    request.kind = .recognize ∧ after = [] ∧ isTurboFallbackEnabled platform input.config = true ∧
      WithinCap platform input ∧
      ∃ checks submit response, before = checks ++ [.request submit (some (.complete response))] ∧
        (∀ e ∈ checks, ¬ IsRequest e) ∧ submit.kind = .submit ∧
        isDefinitiveVolcanoRejectionResponse response = true ∧ Overloaded response

theorem overloaded_of_classify {reason : String}
    (h : classifyTurboFallbackReason (.rejected .submit response.httpStatus response.statusCode) = some reason) :
    Overloaded response := by
  simp only [classifyTurboFallbackReason] at h
  split_ifs at h with hrefused hlimited hserver hcode
  all_goals rw [not_or] at hrefused
  · exact ⟨hrefused.1, hrefused.2, .inl hlimited⟩
  · exact ⟨hrefused.1, hrefused.2, .inr (.inl hserver)⟩
  · exact ⟨hrefused.1, hrefused.2, .inr (.inr hcode)⟩

theorem configuredMinutes_le {minutes : ℕ} (h : configuredMinutes platform config = some minutes) : minutes ≤ 30 := by
  unfold configuredMinutes at h
  split at h
  · rename_i value _
    split at h
    · rename_i hvalue
      cases h
      obtain ⟨hden, -, hle⟩ := hvalue
      have hnum : (value.num : ℚ) = value := Rat.den_eq_one_iff value |>.mp hden
      have : value.num ≤ 30 := by exact_mod_cast hnum.trans_le hle
      omega
    · cases h
  · cases h

theorem withinCap_of_check
    (h : isWithinTurboFallbackDurationCap platform input.config input.durationMs = true) : WithinCap platform input := by
  unfold isWithinTurboFallbackDurationCap at h
  split at h
  · rename_i minutes durationMs hminutes hduration
    simp only [Bool.and_eq_true, decide_eq_true_eq] at h
    exact ⟨minutes, durationMs, hminutes, configuredMinutes_le hminutes, hduration, h.1, h.2⟩
  · cases h

theorem firstText_some {value : Text} (h : value ≠ []) (values : List (Option Text)) (default : Text) :
    firstText (some value :: values) default = value := by
  simp only [firstText, List.filterMap_cons, id_eq]
  rw [List.find?_cons_of_pos (by simpa using h)]

theorem standardResourceId_spec (h : resolveStandardResourceId platform config = some resourceId) :
    resourceId ≠ [] ∧ isTurboResourceId platform config resourceId = false := by
  unfold resolveStandardResourceId at h
  rcases hturbo : resolveTurboResourceId platform config with - | turboResourceId
  · rw [hturbo] at h
    cases h
  · rw [hturbo] at h
    simp only [Option.bind_eq_bind, Option.bind_some] at h
    split at h
    · cases h
    · rename_i hnot
      cases h
      rw [not_or, not_or, Bool.not_eq_true] at hnot
      exact ⟨hnot.1, hnot.2.1⟩

theorem turboRule_of_sent {n : ℕ} (hw : w.events = []) (h : Sent n p w w')
    (hp : ∀ request, p request → isTurboResourceId platform input.config request.resourceId = false) :
    TurboRule platform input w'.events := by
  obtain ⟨new, hevents, -, hnew⟩ := h
  intro before request answer after hsplit hturbo
  rw [hevents, hw, List.nil_append] at hsplit
  have hmem : .request request answer ∈ new := by
    rw [hsplit]
    exact List.mem_append_right _ List.mem_cons_self
  rw [hp request (hnew request answer hmem)] at hturbo
  cases hturbo

/-- A list with at most one element, after one that is not it. -/
theorem split_last {α : Type} {l new before after : List α} {x : α} (h : l ++ new = before ++ x :: after)
    (hx : x ∉ l) (hnew : new.length ≤ 1) : after = [] ∧ before = l := by
  rcases new with - | ⟨y, new⟩
  · rw [List.append_nil] at h
    exact absurd (h ▸ List.mem_append_right before List.mem_cons_self) hx
  · have hnil : new = [] := List.length_eq_zero_iff.mp (by simpa using hnew)
    rw [hnil] at h
    rcases List.eq_nil_or_concat after with rfl | ⟨after', z, rfl⟩
    · exact ⟨rfl, (List.append_inj_left' h rfl).symm⟩
    · rw [List.concat_eq_append, ← List.cons_append, ← List.append_assoc] at h
      have := List.append_inj_left' h rfl
      exact absurd (this ▸ List.mem_append_right before List.mem_cons_self) hx

theorem turboRule_of_recognized {standard turbo : Text} (hw : w.events = [])
    (hstandard : isTurboResourceId platform input.config standard = false)
    (hasked : Asked .submit standard w w' (some (.complete response)))
    (hdefinitive : isDefinitiveVolcanoRejectionResponse response = true) (hoverloaded : Overloaded response)
    (henabled : isTurboFallbackEnabled platform input.config = true) (hcap : WithinCap platform input)
    (hrecognized : Recognized input 1 turbo w' w'') : TurboRule platform input w''.events := by
  obtain ⟨new, hevents', hlength, hnew⟩ := hrecognized.sent
  obtain ⟨checks, submit, hchecks, hkind, hresource, hevents, hstarted⟩ := hasked
  intro before request answer after hsplit hturbo
  rw [hevents', hevents, hw, List.nil_append] at hsplit
  have hnot : .request request answer ∉ checks ++ [.request submit (some (.complete response))] := by
    intro hmem
    rcases List.mem_append.mp hmem with hmem | hmem
    · exact absurd trivial (hchecks.2 _ hmem)
    · rw [List.mem_singleton] at hmem
      cases hmem
      rw [hresource, hstandard] at hturbo
      cases hturbo
  obtain ⟨hafter, hbefore⟩ := split_last hsplit hnot (hlength hstarted)
  have hmem : .request request answer ∈ new := by
    have hmem : .request request answer ∈ before ++ .request request answer :: after :=
      List.mem_append_right _ List.mem_cons_self
    rw [← hsplit] at hmem
    exact (List.mem_append.mp hmem).resolve_left hnot
  exact ⟨(hnew request answer hmem).1, hafter, henabled, hcap, checks, submit, response, hbefore, hchecks.2, hkind,
    hdefinitive, hoverloaded⟩

/-! ### Whole calls -/

/-- What holds of the events wherever a call stops. -/
structure Guaranteed (platform : Platform) (input : Input) (w : CallWorld Body) : Prop where
  settled : Settled input w
  paid : PaidAtMostOnce w.events
  turbo : resolveStrategy platform input.config = .standardThenTurbo → TurboRule platform input w.events

/-- A rejection is thrown only where nothing may have been accepted. -/
def CleanIfRejected (e : AsrError) (events : List (Event Body)) : Prop :=
  ∀ phase httpStatus statusCode, e = .rejected phase httpStatus statusCode → Clean events

theorem cleanIfRejected_failed (failure : Failure) (events : List (Event Body)) :
    CleanIfRejected (.failed failure) events := fun _ _ _ h => by cases h

theorem ends_recognizeSingle (hbegun : Begun input w) (hclean : Clean w.events)
    (hsingle : resolveStrategy platform input.config = .single) :
    Ends (recognizeSingle platform input) w (fun _ => Guaranteed platform input)
      (fun e w' => Guaranteed platform input w' ∧ CleanIfRejected e w'.events) (Guaranteed platform input) := by
  have hturbo {events : List (Event Body)} (h : resolveStrategy platform input.config = .standardThenTurbo) :
      TurboRule platform input events := by
    rw [hsingle] at h
    cases h
  have hsubmitted {resourceId : Text} {w' : CallWorld Body} (h : Submitted input resourceId w w') :
      Guaranteed platform input w' := ⟨h.settled, h.paid, hturbo⟩
  have hrecognized {n : ℕ} {resourceId : Text} {w' : CallWorld Body} (h : Recognized input n resourceId w w') :
      Guaranteed platform input w' := ⟨h.settled, h.paid, hturbo⟩
  unfold recognizeSingle
  cases resolveMode platform input.config with
  | flash =>
    rw [ends_bind]
    refine (ends_recognizeFrom platform _ _ 1 w hbegun hclean).mono (fun _ _ => hrecognized) (fun e w' h => ?_)
      fun _ => hrecognized
    exact ⟨hrecognized h.1, fun phase httpStatus statusCode he => (h.2 phase httpStatus statusCode he).2⟩
  | standard =>
    rw [ends_bind]
    refine (ends_recognizeStandardAudio platform _ hbegun hclean).mono (fun _ _ => hsubmitted) (fun e w' h => ?_)
      fun _ => hsubmitted
    refine ⟨hsubmitted h.1, ?_⟩
    rcases h.2 with ⟨failure, rfl⟩ | ⟨-, response, -, hdefinitive, hasked⟩
    · exact cleanIfRejected_failed failure _
    · exact fun _ _ _ _ => hasked.clean hclean hdefinitive

/-- The resource id that a route sets is the one that its requests name. -/
theorem resolveResourceId_route (h : resourceId ≠ []) (hconfig : config.resourceId = some resourceId) :
    resolveResourceId platform config = resourceId := by
  rw [resolveResourceId, hconfig]
  exact firstText_some h _ _

theorem flashRecognitionMaxAttempts_one (hattempts : config.maxAttempts = some (.finite 1)) :
    flashRecognitionMaxAttempts platform config = 1 := by
  rw [flashRecognitionMaxAttempts, hattempts]
  change (min 5 (max 1 (Auth.ProcessingRoute.mathRound 1))).toNat = 1
  decide +kernel

/-- **After a rejected submit.** The fallback sends one recognition, or the rejection is thrown on. -/
theorem ends_fallBack {standard : Text} (hw : w.events = []) (hbegun : Begun input w') (hclean : Clean w'.events)
    (hstandard : isTurboResourceId platform input.config standard = false)
    (hsubmitted : Guaranteed platform input w') (hdefinitive : isDefinitiveVolcanoRejectionResponse response = true)
    (hasked : Asked .submit standard w w' (some (.complete response))) :
    Ends (fallBack platform input (.rejected .submit response.httpStatus response.statusCode)) w'
      (fun _ => Guaranteed platform input)
      (fun e w'' => Guaranteed platform input w'' ∧ CleanIfRejected e w''.events) (Guaranteed platform input) := by
  unfold fallBack
  split
  · exact ⟨hsubmitted, fun _ _ _ _ => hclean⟩
  · rename_i reason hreason
    refine ends_ite (fun hallowed => ?_) fun _ => ⟨hsubmitted, fun _ _ _ _ => hclean⟩
    rw [Bool.and_eq_true] at hallowed
    rw [ends_bind]
    refine ends_ofOption (fun turbo hturbo => ?_) fun _ => ⟨hsubmitted, cleanIfRejected_failed _ _⟩
    have hguaranteed {w'' : CallWorld Body} {resourceId : Text} (h : Recognized input 1 resourceId w' w'') :
        Guaranteed platform input w'' :=
      ⟨h.settled, h.paid, fun _ => turboRule_of_recognized hw hstandard hasked hdefinitive
        (overloaded_of_classify hreason) hallowed.1 (withinCap_of_check hallowed.2) h⟩
    rw [ends_bind, recognizeAudio, flashRecognitionMaxAttempts_one rfl]
    refine (ends_recognizeFrom platform _ 0 1 w' hbegun hclean).mono (fun _ _ => hguaranteed) (fun e w'' h => ?_)
      fun _ => hguaranteed
    exact ⟨hguaranteed h.1, fun phase httpStatus statusCode he => (h.2 phase httpStatus statusCode he).2⟩

theorem ends_recognizeStandardThenTurbo (hbegun : Begun input w) (hw : w.events = []) :
    Ends (recognizeStandardThenTurbo platform input) w (fun _ => Guaranteed platform input)
      (fun e w' => Guaranteed platform input w' ∧ CleanIfRejected e w'.events) (Guaranteed platform input) := by
  have hclean : Clean w.events := hw ▸ clean_nil
  unfold recognizeStandardThenTurbo
  rw [ends_bind]
  refine ends_ofOption (fun standard hresolved => ?_) fun _ => ?_
  · obtain ⟨hne, hstandard⟩ := standardResourceId_spec hresolved
    have hguaranteed {w' : CallWorld Body} (h : Submitted input standard w w') : Guaranteed platform input w' := by
      obtain ⟨n, hsent⟩ := h.sent
      exact ⟨h.settled, h.paid, fun _ => turboRule_of_sent hw hsent fun request hrequest => hrequest.2 ▸ hstandard⟩
    have hresource : resolveResourceId platform
        { input.config with mode := some .standard, resourceId := some standard } = standard :=
      resolveResourceId_route hne rfl
    have hends := ends_recognizeStandardAudio platform
      { input.config with mode := some .standard, resourceId := some standard } hbegun hclean
    rw [hresource] at hends
    rw [ends_handle, ends_bind]
    refine hends.mono (fun _ _ => hguaranteed) (fun e w' h => ?_) fun _ => hguaranteed
    rcases h.2 with ⟨failure, rfl⟩ | ⟨hbegun', response, rfl, hdefinitive, hasked⟩
    · exact ⟨hguaranteed h.1, cleanIfRejected_failed failure _⟩
    · exact ends_fallBack hw hbegun' (hasked.clean hclean hdefinitive) hstandard (hguaranteed h.1) hdefinitive hasked
  · refine ⟨⟨.inl hbegun, ?_, fun _ => turboRule_of_sent hw (Sent.nil w 0 fun _ => False) fun _ h => h.elim⟩,
      cleanIfRejected_failed _ _⟩
    exact hclean.paidOnce

/-- **A file recognition is never paid twice.** In one call, with whatever the provider answers and wherever the call
stops: after a submit or a recognition that may have been accepted there is no other; under `standard_then_turbo` a
Turbo resource is named by one recognition at most, after a rejected submit that could not be taken; the caller's
check runs once and before all requests; and a rejection is thrown only where all was definitively rejected. -/
theorem recognition_paid_once (platform : Platform) (input : Input) (answers : List (Answer Body)) :
    let (ending, w) := transcribeWithVolcanoFileAsr platform input ⟨answers, [], {}⟩
    PaidAtMostOnce w.events ∧
    (resolveStrategy platform input.config = .standardThenTurbo → TurboRule platform input w.events) ∧
    (w.events = [] ∨ Checked input w.events ∨ CheckFailed input w.events) ∧
    ∀ phase httpStatus statusCode, ending = .threw (.rejected phase httpStatus statusCode) → Clean w.events := by
  have hbegun : Begun input (⟨answers, [], {}⟩ : CallWorld Body) := ⟨fun _ => rfl, fun h => by cases h⟩
  have hidle : Guaranteed platform input (⟨answers, [], {}⟩ : CallWorld Body) :=
    ⟨.inl hbegun, clean_nil.paidOnce,
      fun _ => turboRule_of_sent rfl (Sent.nil _ 0 fun _ => False) fun _ h => h.elim⟩
  have hends : Ends (transcribeWithVolcanoFileAsr platform input : Call Body _) ⟨answers, [], {}⟩
      (fun _ => Guaranteed platform input)
      (fun e w' => Guaranteed platform input w' ∧ CleanIfRejected e w'.events) (Guaranteed platform input) := by
    unfold transcribeWithVolcanoFileAsr
    refine ends_ite (fun _ => ⟨hidle, cleanIfRejected_failed _ _⟩) fun _ => ?_
    refine ends_ite (fun _ => ⟨hidle, cleanIfRejected_failed _ _⟩) fun _ => ?_
    refine ends_ite (fun _ => ⟨hidle, cleanIfRejected_failed _ _⟩) fun _ => ?_
    split
    · exact ⟨hidle, cleanIfRejected_failed _ _⟩
    · unfold recognizeWithConfiguredStrategy
      split
      · exact ends_recognizeSingle hbegun clean_nil (by assumption)
      · exact ends_recognizeStandardThenTurbo hbegun rfl
  have hsettled {w : CallWorld Body} (h : Settled input w) :
      w.events = [] ∨ Checked input w.events ∨ CheckFailed input w.events := by
    rcases h with h | h
    · by_cases hstarted : w.state.providerRequestStarted = true
      · exact .inr (.inl (h.started hstarted))
      · exact .inl (h.idle hstarted)
    · exact .inr (.inr h)
  unfold Ends at hends
  rcases hcall : transcribeWithVolcanoFileAsr platform input ⟨answers, [], {}⟩ with ⟨ending, w⟩
  rw [hcall] at hends
  cases ending with
  | returned result | pending => exact ⟨hends.paid, hends.turbo, hsettled hends.settled, fun _ _ _ h => by cases h⟩
  | threw e =>
    refine ⟨hends.1.paid, hends.1.turbo, hsettled hends.1.settled, fun phase httpStatus statusCode h => ?_⟩
    exact hends.2 phase httpStatus statusCode (Ending.threw.inj h)

def officialPlatform : Platform where
  env _ := none
  number _ := .nan
  parseUrl text := some ⟨"https:".toList, officialVolcanoRuntimeHost, [], [], [], [], text⟩
  toLowerCase := id

def shortRecording : Input where
  audioUrl := none
  hasBuffer := true
  normalizes := true
  durationMs := .finite 90000
  config :=
    { apiKey := some "key".toList, strategy := some .standardThenTurbo, turboFallbackEnabled := some true }
  beforeProviderRequest := some true

def sentKinds (events : List (Event Body)) : List (Option RequestKind) :=
  events.map fun
    | .before _ => none
    | .request request _ => some request.kind

/-- A submit that is rejected with 429 is followed by the recognition, one that is rejected with 403 is not. -/
example :
    let sent (httpStatus : ℕ) := sentKinds (transcribeWithVolcanoFileAsr officialPlatform shortRecording
      ⟨[.complete ⟨httpStatus, none, ()⟩, .complete ⟨200, some "20000000".toList, ()⟩], [], {}⟩).2.events
    sent 429 = [none, some .submit, some .recognize] ∧ sent 403 = [none, some .submit] := by
  decide +kernel

end OwnMinutes.VolcanoAsr.PaidOnce
