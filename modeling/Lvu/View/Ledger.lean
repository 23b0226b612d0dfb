import Lvu.View.Fence

/-!
# The ledger of completions

A request is admitted while there is room for its completion, and leaves `admitted` when that is
pushed.  An entry is worth a place only while its request is still under way.

* `Flagged` : no view has a cancel flag that is set.
* `Ledger` : every admitted entry is that of a pending view, and is paid for by one completion.
* `ledger_conserved` : it is so while no view goes that is admitted, and nothing fails for a view
  that does not wait.
* `ledger_broken` : a refresh that fails takes a place that nobody admitted, and a view that closes
  keeps one.
-/

namespace Lvu.View.Adapter

open List

variable {D R M : Type}

/-! ### Cancel flags -/

/-- **No view has a cancel flag that is set**, and new flags are new. -/
structure Flagged (w : World D R M) : Prop where
  own : ∀ v view, w.views.lookup v = some view → view.cancel.1 = v ∧ view.cancel.2 < w.tokens
  past : ∀ token ∈ w.cancelled, token.2 < w.tokens
  unset : w.accepting = true → ∀ v view, w.views.lookup v = some view → view.cancel ∉ w.cancelled

variable {config : ViewConfig} {w w' : World D R M} {v : String} {view view' : ViewState D R M}
  {e : Event D R M}

theorem flagged_new : Flagged (World.new : World D R M) where
  own v view h := absurd h (by simp [World.new])
  past token h := absurd h (by simp [World.new])
  unset _ v view h := absurd h (by simp [World.new])

theorem Flagged.of_kept (h : Flagged w)
    (hviews : ∀ v view', w'.views.lookup v = some view' →
      ∃ view, w.views.lookup v = some view ∧ view'.cancel = view.cancel)
    (hcancelled : w'.cancelled = w.cancelled) (htokens : w.tokens ≤ w'.tokens)
    (haccepting : w'.accepting = w.accepting) : Flagged w' where
  own v view' hview' := by
    obtain ⟨view, hview, heq⟩ := hviews v view' hview'
    rw [heq]
    exact ⟨(h.own v view hview).1, (h.own v view hview).2.trans_le htokens⟩
  past token hmem := (h.past token (hcancelled ▸ hmem)).trans_le htokens
  unset hopen v view' hview' := by
    obtain ⟨view, hview, heq⟩ := hviews v view' hview'
    rw [heq, hcancelled]
    exact h.unset (haccepting ▸ hopen) v view hview

/-- A view gets a new flag, and at most its old one is set. -/
theorem Flagged.of_renewed {u : String} (h : Flagged w)
    (hviews : ∀ v, w'.views.lookup v = if v = u then some view' else w.views.lookup v)
    (hcancel : view'.cancel = w.token u) (htokens : w'.tokens = w.tokens + 1)
    (haccepting : w'.accepting = w.accepting)
    (hcancelled : w'.cancelled = w.cancelled ∨
      ∃ view ∈ w.views.lookup u, w'.cancelled = insert view.cancel w.cancelled) : Flagged w' := by
  have hpast : ∀ token ∈ w'.cancelled, token.2 < w.tokens ∧ (token ∈ w.cancelled ∨ token.1 = u) := by
    intro token hmem
    rcases hcancelled with heq | ⟨view, hview, heq⟩
    · rw [heq] at hmem
      exact ⟨h.past token hmem, .inl hmem⟩
    · rw [heq] at hmem
      rcases Finset.mem_insert.1 hmem with rfl | hmem
      · exact ⟨(h.own u view hview).2, .inr (h.own u view hview).1⟩
      · exact ⟨h.past token hmem, .inl hmem⟩
  refine ⟨fun v x hx => ?_, fun token hmem => ?_, fun hopen v x hx hmem => ?_⟩
  · rw [hviews] at hx
    rw [htokens]
    split_ifs at hx with hv
    · cases hx
      rw [hcancel]
      exact ⟨hv.symm, Nat.lt_succ_self _⟩
    · exact ⟨(h.own v x hx).1, (h.own v x hx).2.trans (Nat.lt_succ_self _)⟩
  · rw [htokens]
    exact (hpast token hmem).1.trans (Nat.lt_succ_self _)
  · rw [hviews] at hx
    obtain ⟨hlt, hold⟩ := hpast _ hmem
    split_ifs at hx with hv
    · cases hx
      rw [hcancel] at hlt
      exact hlt.ne rfl
    · rcases hold with hold | hown
      · exact h.unset (haccepting ▸ hopen) v x hx hold
      · exact hv ((h.own v x hx).1.symm.trans hown)

theorem mem_flagsOf {id : SourceId} {token : Token} (h : token ∈ w.flagsOf id) :
    ∃ v view, w.views.lookup v = some view ∧ view.concerns id = true ∧ token = view.cancel := by
  simp only [World.flagsOf, mem_toFinset, mem_filterMap] at h
  obtain ⟨⟨v, view⟩, hmem, heq⟩ := h
  split_ifs at heq with hconcerns
  exact ⟨v, view, AList.mem_lookup_iff.2 hmem, hconcerns, (Option.some.inj heq).symm⟩

variable [Inhabited D]

theorem Flagged.step [DecidableEq D] [DecidableEq R] (h : Flagged w)
    (hst : (adapter config).step w e w') : Flagged w' := by
  have heffect : Effect config w e w' := next_effect hst
  have hsame : ∀ v view', w.views.lookup v = some view' →
      ∃ view, w.views.lookup v = some view ∧ view'.cancel = view.cancel :=
    fun v view' hview' => ⟨view', hview', rfl⟩
  have hput : ∀ {u : String} {old new : ViewState D R M}, w.views.lookup u = some old →
      new.cancel = old.cancel → ∀ v view', (w.put u new).views.lookup v = some view' →
        ∃ view, w.views.lookup v = some view ∧ view'.cancel = view.cancel := by
    intro u old new hold heq v view' hview'
    rw [lookup_put] at hview'
    split_ifs at hview' with hv
    · cases hview'
      exact ⟨old, hv ▸ hold, heq⟩
    · exact ⟨view', hview', rfl⟩
  cases heffect with
  | nothing => exact h
  | asks | polls | enqueues | ignores | receives | starts | reports | ends | givesUp | informs =>
    exact h.of_kept hsame rfl le_rfl rfl
  | submits _ _ _ _ hmem _ =>
    exact h.of_renewed (fun v => lookup_put _ _ _ v) rfl rfl rfl (.inr ⟨_, hmem, rfl⟩)
  | @restarts id _ _ =>
    have hlookup : ∀ {v : String} {view' : ViewState D R M}, (w.views.map fun viewId view =>
        if view.concerns id then view.restarted id (w.token viewId) else view).lookup v =
          some view' → ∃ view, w.views.lookup v = some view ∧ view' =
            if view.concerns id then view.restarted id (w.token v) else view := by
      intro v view' hview'
      rw [Dict.lookup_map, Option.map_eq_some_iff] at hview'
      obtain ⟨view, hview, heq⟩ := hview'
      exact ⟨view, hview, heq.symm⟩
    have hpast : ∀ token ∈ w.cancelled ∪ w.flagsOf id, token.2 < w.tokens := by
      intro token hmem
      rcases Finset.mem_union.1 hmem with hmem | hmem
      · exact h.past token hmem
      · obtain ⟨u, view, hview, -, rfl⟩ := mem_flagsOf hmem
        exact (h.own u view hview).2
    refine ⟨fun v view' hview' => ?_, fun token hmem => (hpast token hmem).trans (Nat.lt_succ_self _),
      fun hopen v view' hview' hmem => ?_⟩
    · obtain ⟨view, hview, rfl⟩ := hlookup hview'
      split_ifs
      · exact ⟨rfl, Nat.lt_succ_self _⟩
      · exact ⟨(h.own v view hview).1, (h.own v view hview).2.trans (Nat.lt_succ_self _)⟩
    · obtain ⟨view, hview, rfl⟩ := hlookup hview'
      split_ifs at hmem with hconcerns
      · exact (hpast _ hmem).ne rfl
      · rcases Finset.mem_union.1 hmem with hmem | hmem
        · exact h.unset hopen v view hview hmem
        · -- the flag is that of the view itself
          obtain ⟨u, other, hother, hyes, heq⟩ := mem_flagsOf hmem
          obtain rfl : u = v := by
            rw [← (h.own u other hother).1, ← heq, (h.own v view hview).1]
          cases hview.symm.trans hother
          exact hconcerns hyes
  | @drops _ u sources cancelled _ _ _ hflags _ =>
    have hlookup : ∀ {v : String} {view' : ViewState D R M},
        (w.views.erase u).lookup v = some view' → v ≠ u ∧ w.views.lookup v = some view' := by
      intro v view' hview'
      rw [Dict.lookup_erase_eq] at hview'
      split_ifs at hview' with hv
      exact ⟨hv, hview'⟩
    refine ⟨fun v view' hview' => h.own v view' (hlookup hview').2, fun token hmem => ?_,
      fun hopen v view' hview' hmem => ?_⟩
    · rcases hflags with rfl | ⟨view, hview, rfl⟩
      · exact h.past token hmem
      · rcases Finset.mem_insert.1 hmem with rfl | hmem
        · exact (h.own u view hview).2
        · exact h.past token hmem
    · obtain ⟨hv, hview⟩ := hlookup hview'
      rcases hflags with rfl | ⟨old, hold, rfl⟩
      · exact h.unset hopen v view' hview hmem
      · rcases Finset.mem_insert.1 hmem with heq | hmem
        · exact hv (by rw [← (h.own v view' hview).1, heq, (h.own u old hold).1])
        · exact h.unset hopen v view' hview hmem
  | @enters _ u _ _ cancelled _ _ _ _ hflags _ =>
    exact h.of_renewed (fun v => lookup_put _ _ _ v) rfl rfl rfl hflags
  | installs _ hmem | progresses _ hmem | resubmits hmem _ | refreshes hmem =>
    exact h.of_kept (hput hmem rfl) rfl (Nat.le_succ _) rfl
  | shuts =>
    refine ⟨fun v view' hview' => ?_, fun token hmem => ?_, fun hopen => absurd hopen (by
      simp [shutdown])⟩
    · simp only [shutdown, Dict.lookup_map, Option.map_eq_some_iff] at hview'
      obtain ⟨view, hview, rfl⟩ := hview'
      exact h.own v view hview
    · rcases Finset.mem_union.1 hmem with hmem | hmem
      · exact h.past token hmem
      · simp only [mem_toFinset, mem_map] at hmem
        obtain ⟨⟨u, view⟩, hentry, rfl⟩ := hmem
        exact (h.own u view (AList.mem_lookup_iff.2 hentry)).2
  | fails _ _ _ _ => exact h.of_renewed (fun v => lookup_put _ _ _ v) rfl rfl rfl (.inl rfl)
  | publishes _ hlive _ heq =>
    subst heq
    split_ifs <;> exact h.of_kept (hput hlive.mem rfl) rfl (Nat.le_succ _) rfl

omit [Inhabited D]

/-! ### What an admitted entry stands for -/

/-- The first update is a failure, and its view would take it for an answer without waiting for
one. -/
def Unawaited (w : World D R M) : Prop :=
  match w.updates with
  | .failed request _ _ _ token :: _ => token ∉ w.cancelled ∧
    ∃ view ∈ w.views.lookup request.viewId, view.desiredRevision = request.revision ∧
      view.status.state ≠ .pending
  | _ => False

instance (w : World D R M) : Decidable (Unawaited w) :=
  match h : w.updates with
  | .failed request _ _ _ token :: _ => decidable_of_iff (token ∉ w.cancelled ∧
      ∃ view ∈ w.views.lookup request.viewId, view.desiredRevision = request.revision ∧
        view.status.state ≠ .pending) (by unfold Unawaited; rw [h])
  | .progress _ _ _ _ :: _ | .publish _ _ _ _ _ _ _ :: _ | .other :: _ | [] =>
    isFalse (by unfold Unawaited; rw [h]; exact id)

/-- An event applies an update. -/
def Event.applies : Event D R M → Bool
  | .apply _ => true
  | _ => false

/-- The revisions that are asked increase, no view goes that is admitted, and no failure is applied
that nobody waits for. -/
def Orderly (w : World D R M) (e : Event D R M) : Prop :=
  Monotonic w e ∧ (∀ v ∈ e.replaces, v ∉ w.admitted) ∧ (e.applies = true → ¬ Unawaited w)

instance (w : World D R M) (e : Event D R M) : Decidable (Orderly w e) :=
  inferInstanceAs (Decidable (_ ∧ _ ∧ _))

variable {request : QueryRequest D R}

/-- A request of a view is queued, running, answered but not applied, or to be submitted again. -/
def Ongoing (w : World D R M) (view : ViewState D R M) (request : QueryRequest D R) : Prop :=
  .query request ∈ w.queue ∨ w.worker = .received (.query request) ∨
    (∃ sources, w.worker = .running ⟨request, sources, view.cancel⟩) ∨
    (∃ update ∈ w.updates, update.answers = some (request, view.cancel)) ∨
    view.resubmitPending = true

/-- A view waits for the answer to its request, which is under way. -/
def Outstanding (w : World D R M) (v : String) (revision : ℕ) : Prop :=
  ∃ view request, w.views.lookup v = some view ∧ view.status.state = .pending ∧
    view.desiredRevision = revision ∧ view.pendingRequest = some request ∧ request.viewId = v ∧
    request.revision = revision ∧ Ongoing w view request

/-- What is admitted for a view, and whether the view waits. -/
structure Account (w : World D R M) (v : String) : Prop where
  union : v ∈ w.unionViews → w.admitted.lookup v = none
  pending : ∀ view, w.views.lookup v = some view → view.status.state = .pending →
    w.admitted.lookup v = some view.desiredRevision
  candidate : w.accepting = true → ∀ view, w.views.lookup v = some view →
    view.pendingSources ≠ none → view.status.state = .pending
  closed : w.accepting = false → ∀ view, w.views.lookup v = some view →
    view.cancel ∈ w.cancelled ∧ view.status.state ≠ .pending
  entry : w.accepting = true → ∀ revision, w.admitted.lookup v = some revision →
    Outstanding w v revision

/-- What an account looks at in a view. -/
def ViewState.account (view : ViewState D R M) :
    Option (List SourceId) × ScanState × ℕ × Token × Option (QueryRequest D R) :=
  (view.pendingSources, view.status.state, view.desiredRevision, view.cancel, view.pendingRequest)

theorem account_eq (h : view'.account = view.account) :
    view'.pendingSources = view.pendingSources ∧ view'.status.state = view.status.state ∧
    view'.desiredRevision = view.desiredRevision ∧ view'.cancel = view.cancel ∧
    view'.pendingRequest = view.pendingRequest := by
  simpa [ViewState.account] using h

/-- A view has, to its account, changed in nothing. -/
structure SameAccount (w w' : World D R M) (v : String) : Prop where
  back : ∀ view', w'.views.lookup v = some view' →
    ∃ view, w.views.lookup v = some view ∧ view'.account = view.account
  forth : ∀ view, w.views.lookup v = some view →
    ∃ view', w'.views.lookup v = some view' ∧ view'.account = view.account ∧
      ∀ request, view.pendingRequest = some request → request.viewId = v →
        view.desiredRevision = request.revision → (w.accepting = true → view.cancel ∉ w.cancelled) →
          w.accepting = true → Ongoing w view request → Ongoing w' view' request

/-- An account is kept where its view and its entry are. -/
theorem Account.kept (h : Account w v) (hflagged : Flagged w) (hsame : SameAccount w w' v)
    (hadmitted : w'.admitted.lookup v = w.admitted.lookup v)
    (haccepting : w'.accepting = w.accepting) (hcancelled : w.cancelled ⊆ w'.cancelled)
    (hunion : v ∈ w'.unionViews → v ∈ w.unionViews) : Account w' v := by
  refine ⟨fun hmem => ?_, fun view' hview' hstate => ?_, fun hopen view' hview' hsources => ?_,
    fun hclosed view' hview' => ?_, fun hopen revision hrevision => ?_⟩
  · rw [hadmitted]
    exact h.union (hunion hmem)
  · obtain ⟨view, hview, heq⟩ := hsame.back view' hview'
    obtain ⟨-, hstates, hdesired, -, -⟩ := account_eq heq
    rw [hadmitted, hdesired]
    exact h.pending view hview (hstates ▸ hstate)
  · obtain ⟨view, hview, heq⟩ := hsame.back view' hview'
    obtain ⟨hpendings, hstates, -⟩ := account_eq heq
    rw [hstates]
    exact h.candidate (haccepting ▸ hopen) view hview (hpendings ▸ hsources)
  · obtain ⟨view, hview, heq⟩ := hsame.back view' hview'
    obtain ⟨-, hstates, -, hcancel, -⟩ := account_eq heq
    obtain ⟨hset, hstate⟩ := h.closed (haccepting ▸ hclosed) view hview
    rw [hcancel, hstates]
    exact ⟨hcancelled hset, hstate⟩
  · have hopen' : w.accepting = true := haccepting ▸ hopen
    obtain ⟨view, request, hview, hstate, hdesired, hpending, hid, hrequest, hongoing⟩ :=
      h.entry hopen' revision (hadmitted ▸ hrevision)
    obtain ⟨view', hview', heq, hkeeps⟩ := hsame.forth view hview
    obtain ⟨-, hstates, hdesireds, -, hpendings⟩ := account_eq heq
    exact ⟨view', request, hview', hstates.trans hstate, hdesireds.trans hdesired,
      hpendings.trans hpending, hid, hrequest, hkeeps request hpending hid
        (hdesired.trans hrequest.symm) (fun _ => hflagged.unset hopen' v view hview) hopen' hongoing⟩

/-! ### What keeps an account -/

theorem Ongoing.mono (h : Ongoing w view request) (hqueue : ∀ work ∈ w.queue, work ∈ w'.queue)
    (hworker : w'.worker = w.worker) (hupdates : ∀ update ∈ w.updates, update ∈ w'.updates) :
    Ongoing w' view request := by
  rcases h with h | h | ⟨sources, h⟩ | ⟨update, hmem, hanswers⟩ | h
  · exact .inl (hqueue _ h)
  · exact .inr (.inl (hworker.trans h))
  · exact .inr (.inr (.inl ⟨sources, hworker.trans h⟩))
  · exact .inr (.inr (.inr (.inl ⟨update, hupdates update hmem, hanswers⟩)))
  · exact .inr (.inr (.inr (.inr h)))

theorem Ongoing.pop {update : Update D R M} {rest : List (Update D R M)}
    (h : Ongoing w view request) (hfirst : w.updates = update :: rest)
    (hother : update.answers ≠ some (request, view.cancel)) (hqueue : w'.queue = w.queue)
    (hworker : w'.worker = w.worker) (hupdates : w'.updates = rest) : Ongoing w' view request := by
  rcases h with h | h | ⟨sources, h⟩ | ⟨u, hmem, hanswers⟩ | h
  · exact .inl (hqueue ▸ h)
  · exact .inr (.inl (hworker.trans h))
  · exact .inr (.inr (.inl ⟨sources, hworker.trans h⟩))
  · rw [hfirst] at hmem
    rcases mem_cons.1 hmem with rfl | hmem
    · exact absurd hanswers hother
    · exact .inr (.inr (.inr (.inl ⟨u, hupdates ▸ hmem, hanswers⟩)))
  · exact .inr (.inr (.inr (.inr h)))

theorem SameAccount.of_lookup (hlookup : w'.views.lookup v = w.views.lookup v)
    (hongoing : ∀ view request, w.views.lookup v = some view → request.viewId = v →
      view.desiredRevision = request.revision → (w.accepting = true → view.cancel ∉ w.cancelled) →
        w.accepting = true → Ongoing w view request → Ongoing w' view request) :
    SameAccount w w' v :=
  ⟨fun view' hview' => ⟨view', hlookup ▸ hview', rfl⟩, fun view hview => ⟨view, hlookup ▸ hview, rfl,
    fun request _ hid hdesired hunset hopen h =>
      hongoing view request hview hid hdesired hunset hopen h⟩⟩

theorem SameAccount.of_put {u : String} {new : ViewState D R M}
    (hmem : w.views.lookup u = some view) (hviews : w'.views = (w.put u new).views)
    (haccount : new.account = view.account)
    (hongoing : ∀ request, view.pendingRequest = some request → Ongoing w view request →
      Ongoing w' new request)
    (hothers : ∀ other request, Ongoing w other request → Ongoing w' other request) :
    SameAccount w w' v := by
  constructor
  · intro view' hview'
    rw [hviews, lookup_put] at hview'
    split_ifs at hview' with hv
    · cases hview'
      exact ⟨view, hv ▸ hmem, haccount⟩
    · exact ⟨view', hview', rfl⟩
  · intro old hold
    simp only [hviews, lookup_put]
    split_ifs with hv
    · obtain rfl := Option.some.inj (hmem.symm.trans (hv ▸ hold))
      exact ⟨new, rfl, haccount, fun request hpending _ _ _ _ h => hongoing request hpending h⟩
    · exact ⟨old, hold, rfl, fun request _ _ _ _ _ h => hothers old request h⟩

theorem Account.of_flights (h : Account w v) (hflagged : Flagged w) (hviews : w'.views = w.views)
    (hadmitted : w'.admitted = w.admitted) (haccepting : w'.accepting = w.accepting)
    (hcancelled : w'.cancelled = w.cancelled) (hunions : w'.unionViews = w.unionViews)
    (hongoing : ∀ view request, w.views.lookup request.viewId = some view →
      view.desiredRevision = request.revision → view.cancel ∉ w.cancelled →
        Ongoing w view request → Ongoing w' view request) : Account w' v := by
  refine h.kept hflagged (.of_lookup (by rw [hviews]) fun view request hview hid hdesired hunset
    hopen hold => hongoing view request (hid ▸ hview) hdesired (hunset hopen) hold)
    (by rw [hadmitted]) haccepting (by rw [hcancelled]) (by rw [hunions]; exact id)

/-! ### Steps -/

theorem Account.of_idle (hnone : w.admitted.lookup v = none)
    (hview : ∀ view, w.views.lookup v = some view →
      view.pendingSources = none ∧ view.status.state ≠ .pending)
    (hclosed : w.accepting = false → ∀ view, w.views.lookup v = some view →
      view.cancel ∈ w.cancelled) : Account w v where
  union _ := hnone
  pending view hlookup hstate := absurd hstate (hview view hlookup).2
  candidate _ view hlookup hsources := absurd (hview view hlookup).1 hsources
  closed hnot view hlookup := ⟨hclosed hnot view hlookup, (hview view hlookup).2⟩
  entry _ revision hrevision := absurd (hnone.symm.trans hrevision) (by simp)

theorem Account.waits (h : Account w v) (hview : w.views.lookup v = some view)
    (hstate : view.status.state = .pending) :
    w.admitted.lookup v = some view.desiredRevision ∧ w.accepting = true := by
  refine ⟨h.pending view hview hstate, ?_⟩
  by_contra hnot
  exact (h.closed (by simpa using hnot) view hview).2 hstate

theorem Account.idle (h : Account w v) (hview : w.views.lookup v = some view)
    (hstate : view.status.state ≠ .pending) (hopen : w.accepting = true) :
    w.admitted.lookup v = none := by
  by_contra hsome
  obtain ⟨revision, hrevision⟩ := Option.ne_none_iff_exists'.1 hsome
  obtain ⟨view', request, hview', hpending, -⟩ := h.entry hopen revision hrevision
  cases hview.symm.trans hview'
  exact hstate hpending

theorem failed_state {message : String} {limited : Bool} {token : Token} :
    (view.failed message limited token).status.state ≠ .pending := by
  simp only [ViewState.failed]
  split_ifs
  · simp
  · cases view.published <;> simp

theorem publish_state {published : Published M} {scanned : ℕ}
    {watermarks : List (SourceId × Option ℕ)} {diagnostic : Option String} :
    (view.publish request published scanned watermarks diagnostic).status.state ≠ .pending := by
  cases published <;> simp [ViewState.publish]

theorem start_query (hview : w.views.lookup request.viewId = some view)
    (hdesired : view.desiredRevision = request.revision) :
    ∃ sources, start w (.query request) = .running ⟨request, sources, view.cancel⟩ := by
  refine ⟨(view.pendingSources.getD view.sources).filter (· ∈ w.sources), ?_⟩
  simp [start, hview, hdesired]

/-- A failure is applied to a view that waits. -/
theorem fails_awaited {update : Update D R M} {rest : List (Update D R M)} {token : Token}
    (haccounts : ∀ v, Account w v) (hawaited : ¬ Unawaited w) (hfirst : w.updates = update :: rest)
    (hanswers : update.answers = some (request, token)) (hlive : Live w view request token)
    (hpublished : update.scope ≠ none → view.pendingSources ≠ none ∧ view.cancel ∉ w.cancelled) :
    view.status.state = .pending := by
  have haccount := haccounts request.viewId
  cases update with
  | progress _ _ _ _ | other => simp [Update.answers] at hanswers
  | failed r purpose message limited token' =>
    cases hanswers
    by_contra hstate
    refine hawaited ?_
    unfold Unawaited
    rw [hfirst]
    exact ⟨hlive.unset, view, hlive.mem, hlive.desired, hstate⟩
  | publish r published scanned watermarks diagnostic token' scope =>
    obtain ⟨hsources, hunset⟩ := hpublished (by simp [Update.scope])
    refine haccount.candidate ?_ view hlive.mem hsources
    by_contra hnot
    exact hunset (haccount.closed (by simpa using hnot) view hlive.mem).1

theorem Event.replaces_of_registers (h : e.registers = some v) : e.replaces = some v := by
  cases e <;> simp_all [Event.registers, Event.replaces]

theorem subset_of_flags {u : String} {cancelled : Finset Token} (h : cancelled = w.cancelled ∨
    ∃ view ∈ w.views.lookup u, cancelled = insert view.cancel w.cancelled) :
    w.cancelled ⊆ cancelled := by
  rcases h with rfl | ⟨view, -, rfl⟩
  · exact Finset.Subset.refl _
  · exact Finset.subset_insert _ _

/-- A step that takes one view out of its entry and leaves it idle, if it leaves it, keeps every
account. -/
theorem Account.at_rest {u : String} (h : Account w v) (hflagged : Flagged w)
    (hentry : w'.admitted.lookup u = none)
    (hview : ∀ view, w'.views.lookup u = some view → w.accepting = true ∧
      view.pendingSources = none ∧ view.status.state ≠ .pending)
    (hviews : ∀ v ≠ u, w'.views.lookup v = w.views.lookup v)
    (hadmitted : ∀ v ≠ u, w'.admitted.lookup v = w.admitted.lookup v)
    (haccepting : w'.accepting = w.accepting) (hcancelled : w.cancelled ⊆ w'.cancelled)
    (hunions : ∀ v ≠ u, v ∈ w'.unionViews → v ∈ w.unionViews)
    (hongoing : ∀ view r, r.viewId ≠ u → Ongoing w view r → Ongoing w' view r) :
    Account w' v := by
  by_cases hv : v = u
  · subst hv
    refine .of_idle hentry (fun view hlookup => (hview view hlookup).2) fun hclosed view hlookup => ?_
    exact absurd (hclosed.symm.trans (haccepting.trans (hview view hlookup).1)) (by simp)
  · exact h.kept hflagged (.of_lookup (hviews v hv) fun view r _ hid _ _ _ hold =>
      hongoing view r (fun heq => hv (hid.symm.trans heq)) hold) (hadmitted v hv) haccepting
        hcancelled (hunions v hv)

theorem Account.submits (h : Account w v) (hflagged : Flagged w) (haccepting : w.accepting = true)
    (hordinary : request.viewId ∉ w.unionViews) (sources : Option (List SourceId))
    (accepted asked : List (QueryRequest D R)) :
    Account { w.put request.viewId (view.submitted request sources (w.token request.viewId)) with
      queue := w.queue ++ [.query request]
      cancelled := insert view.cancel w.cancelled
      admitted := w.admitted.insert request.viewId request.revision
      accepted, asked } v := by
  by_cases hv : v = request.viewId
  · subst hv
    have hlookup := lookup_put w request.viewId
      (view.submitted request sources (w.token request.viewId)) request.viewId
    rw [if_pos rfl] at hlookup
    have hview : ∀ view', (w.put request.viewId (view.submitted request sources
        (w.token request.viewId))).views.lookup request.viewId = some view' →
          view' = view.submitted request sources (w.token request.viewId) :=
      fun view' hview' => Option.some.inj (hview'.symm.trans hlookup)
    refine ⟨fun hunion => absurd hunion hordinary, fun view' hview' _ => ?_,
      fun _ view' hview' _ => ?_, fun hclosed => absurd (hclosed.symm.trans haccepting) (by simp),
      fun _ revision hrevision => ?_⟩
    · rw [hview view' hview']
      exact AList.lookup_insert _
    · rw [hview view' hview']
      rfl
    · have hinsert := AList.lookup_insert (b := request.revision) w.admitted
        (a := request.viewId)
      cases hinsert.symm.trans hrevision
      exact ⟨_, request, hlookup, rfl, rfl, rfl, rfl, rfl,
        Or.inl (mem_append_right _ (mem_singleton_self _))⟩
  · refine h.kept hflagged (.of_lookup ?_ fun view' r _ _ _ _ _ hold =>
      hold.mono (fun _ hx => mem_append_left _ hx) rfl fun _ hx => hx) ?_ rfl
        (Finset.subset_insert _ _) id
    · simp only [lookup_put, if_neg hv]
    · exact AList.lookup_insert_ne hv

theorem Account.restarts (h : Account w v) (haccepting : w.accepting = true) (id : SourceId) :
    Account { w with
      sources := insert id w.sources
      views := w.views.map fun viewId view =>
        if view.concerns id then view.restarted id (w.token viewId) else view
      cancelled := w.cancelled ∪ w.flagsOf id
      tokens := w.tokens + 1 } v := by
  have hlookup : (w.views.map fun viewId view =>
      if view.concerns id then view.restarted id (w.token viewId) else view).lookup v =
        (w.views.lookup v).map fun view =>
          if view.concerns id then view.restarted id (w.token v) else view :=
    Dict.lookup_map _ _ _
  have hview : ∀ {view'}, (w.views.map fun viewId view =>
      if view.concerns id then view.restarted id (w.token viewId) else view).lookup v =
        some view' → ∃ view, w.views.lookup v = some view ∧
          view'.pendingSources = view.pendingSources ∧
          view'.status.state = view.status.state ∧
          view'.desiredRevision = view.desiredRevision := by
    intro view' hview'
    rw [hlookup, Option.map_eq_some_iff] at hview'
    obtain ⟨view, hview, rfl⟩ := hview'
    refine ⟨view, hview, ?_⟩
    split_ifs <;> exact ⟨rfl, rfl, rfl⟩
  refine ⟨h.union, fun view' hview' hstate => ?_, fun hopen view' hview' hsources => ?_,
    fun hclosed => absurd (hclosed.symm.trans haccepting) (by simp), fun hopen revision hrevision => ?_⟩
  · obtain ⟨view, hold, -, hstates, hdesired⟩ := hview hview'
    rw [hdesired]
    exact h.pending view hold (hstates ▸ hstate)
  · obtain ⟨view, hold, hpendings, hstates, -⟩ := hview hview'
    rw [hstates]
    exact h.candidate hopen view hold (hpendings ▸ hsources)
  · obtain ⟨view, request, hold, hstate, hdesired, hpending, hid, hrevision', hongoing⟩ :=
      h.entry hopen revision hrevision
    refine ⟨_, request, hlookup.trans (by rw [hold]; rfl), ?_⟩
    beta_reduce
    by_cases hconcerns : view.concerns id = true
    · rw [if_pos hconcerns]
      -- the view submits its request again
      exact ⟨hstate, hdesired, hpending, hid, hrevision',
        Or.inr (.inr (.inr (.inr (by simp [ViewState.restarted, hpending]))))⟩
    · rw [if_neg hconcerns]
      exact ⟨hstate, hdesired, hpending, hid, hrevision', hongoing⟩

theorem Account.installs {u : String} (h : Account w v) (hflagged : Flagged w)
    (hunion : u ∈ w.unionViews) (hmem : w.views.lookup u = some view) (revision generation : ℕ)
    (membership : M) (scanned : ℕ) (watermarks : List (SourceId × Option ℕ)) [Inhabited D] :
    Account (w.put u (view.installed revision generation membership scanned watermarks)) v := by
  by_cases hv : v = u
  · subst hv
    have hfree := h.union hunion
    refine ⟨fun _ => hfree, fun view' hview' hstate => ?_, fun hopen view' hview' hsources => ?_,
      fun hclosed view' hview' => ?_, fun _ revision hrevision =>
        absurd (hfree.symm.trans hrevision) (by simp)⟩ <;>
    · rw [lookup_put, if_pos rfl] at hview'
      cases hview'
      first
        | exact absurd hstate (by simp [ViewState.installed])
        | exact absurd (hfree.symm.trans (h.pending view hmem
            (h.candidate hopen view hmem hsources))) (by simp)
        | exact ⟨(h.closed hclosed view hmem).1, by simp [ViewState.installed]⟩
  · refine h.kept hflagged (.of_lookup ?_ fun view' r _ _ _ _ _ hold =>
      hold.mono (fun _ hx => hx) rfl fun _ hx => hx) rfl rfl (Finset.Subset.refl _) id
    rw [lookup_put, if_neg hv]

theorem Account.shuts (h : Account w v) : Account (shutdown w) v := by
  have hview : ∀ {view'}, (shutdown w).views.lookup v = some view' →
      ∃ view, w.views.lookup v = some view ∧ view'.cancel = view.cancel ∧
        view'.status.state = .shutdown := by
    intro view' hview'
    simp only [shutdown, Dict.lookup_map, Option.map_eq_some_iff] at hview'
    obtain ⟨view, hold, rfl⟩ := hview'
    exact ⟨view, hold, rfl, rfl⟩
  refine ⟨h.union, fun view' hview' hstate => ?_, fun hopen => absurd hopen (by simp [shutdown]),
    fun _ view' hview' => ?_, fun hopen => absurd hopen (by simp [shutdown])⟩
  · obtain ⟨view, -, -, hshut⟩ := hview hview'
    exact absurd (hstate.symm.trans hshut) (by simp)
  · obtain ⟨view, hold, hcancel, hshut⟩ := hview hview'
    refine ⟨Finset.mem_union_right _ ?_, by simp [hshut]⟩
    rw [hcancel]
    exact mem_toFinset.2 (mem_map.2 ⟨⟨v, view⟩, AList.mem_lookup_iff.1 hold, rfl⟩)

/-- The answer that a view waits for is applied, and completed. -/
theorem Account.completes {update : Update D R M} {rest : List (Update D R M)} {token : Token}
    {new : ViewState D R M} (h : ∀ v, Account w v) (hflagged : Flagged w)
    (hfirst : w.updates = update :: rest) (hanswers : update.answers = some (request, token))
    (hlive : Live w view request token) (hstate : view.status.state = .pending)
    (hsources : new.pendingSources = none) (hidle : new.status.state ≠ .pending)
    (result : Except QueryFailure Unit) :
    Account (({ w with updates := rest }.put request.viewId new).complete
      (request.answer result)) v := by
  obtain ⟨hadmitted, haccepting⟩ := (h request.viewId).waits hlive.mem hstate
  rw [hlive.desired] at hadmitted
  have herased : (({ w with updates := rest }.put request.viewId new).complete
      (request.answer result)).admitted = w.admitted.erase request.viewId := by
    simp only [World.complete, World.put, QueryRequest.answer, hadmitted, if_true]
  refine (h v).at_rest (u := request.viewId) hflagged ?_ (fun view' hview' => ?_) (fun v hv => ?_)
    (fun v hv => ?_) rfl (Finset.Subset.refl _) (fun _ _ hmem => hmem) fun view' r hid hold =>
      hold.pop hfirst (fun heq => ?_) rfl rfl rfl
  · rw [herased, AList.lookup_erase]
  · obtain rfl : new = view' := by simpa [World.complete, lookup_put] using hview'
    exact ⟨haccepting, hsources, hidle⟩
  · simp only [World.complete, lookup_put, if_neg hv]
  · rw [herased, AList.lookup_erase_ne hv]
  · obtain ⟨rfl, -⟩ := Prod.mk.inj (Option.some.inj (hanswers.symm.trans heq))
    exact hid rfl

/-- A publication is applied to a view that does not wait, as after a refresh. -/
theorem Account.republishes {update : Update D R M} {rest : List (Update D R M)} {token : Token}
    {new : ViewState D R M} (h : ∀ v, Account w v) (hflagged : Flagged w)
    (hfirst : w.updates = update :: rest) (hanswers : update.answers = some (request, token))
    (hlive : Live w view request token) (hstate : view.status.state ≠ .pending)
    (hopen : w.accepting = true) (hsources : new.pendingSources = none)
    (hidle : new.status.state ≠ .pending) :
    Account ({ w with updates := rest }.put request.viewId new) v := by
  refine (h v).at_rest (u := request.viewId) hflagged
    ((h request.viewId).idle hlive.mem hstate hopen) (fun view' hview' => ?_) (fun v hv => ?_)
    (fun _ _ => rfl) rfl (Finset.Subset.refl _) (fun _ _ hmem => hmem) fun view' r hid hold =>
      hold.pop hfirst (fun heq => ?_) rfl rfl rfl
  · obtain rfl : new = view' := by simpa [lookup_put] using hview'
    exact ⟨hopen, hsources, hidle⟩
  · simp only [lookup_put, if_neg hv]
  · obtain ⟨rfl, -⟩ := Prod.mk.inj (Option.some.inj (hanswers.symm.trans heq))
    exact hid rfl

theorem Ongoing.receives {work : Work D R} {rest : List (Work D R)} (h : Ongoing w view request)
    (hidle : w.worker = .idle) (hfirst : w.queue = work :: rest) :
    Ongoing { w with worker := .received work, queue := rest } view request := by
  rcases h with hin | hreceived | ⟨sources, hrunning⟩ | hanswered | hagain
  · rw [hfirst] at hin
    rcases mem_cons.1 hin with rfl | hin
    · exact .inr (.inl rfl)
    · exact .inl hin
  · exact absurd (hidle.symm.trans hreceived) (by simp)
  · exact absurd (hidle.symm.trans hrunning) (by simp)
  · exact .inr (.inr (.inr (.inl hanswered)))
  · exact .inr (.inr (.inr (.inr hagain)))

theorem Ongoing.starts {work : Work D R} (h : Ongoing w view request)
    (hworker : w.worker = .received work) (hview : w.views.lookup request.viewId = some view)
    (hdesired : view.desiredRevision = request.revision) :
    Ongoing { w with worker := start w work } view request := by
  rcases h with hin | hreceived | ⟨sources, hrunning⟩ | hanswered | hagain
  · exact .inl hin
  · obtain rfl := Worker.received.inj (hworker.symm.trans hreceived)
    exact .inr (.inr (.inl (start_query hview hdesired)))
  · exact absurd (hworker.symm.trans hrunning) (by simp)
  · exact .inr (.inr (.inr (.inl hanswered)))
  · exact .inr (.inr (.inr (.inr hagain)))

/-- A job ends with its answer, or gives up where its flag is set. -/
theorem Ongoing.ends {job : Job D R} {updates : List (Update D R M)} (h : Ongoing w view request)
    (hrunning : w.worker = .running job) (hkept : ∀ update ∈ w.updates, update ∈ updates)
    (hanswers : job.request = request → job.token = view.cancel →
      ∃ update ∈ updates, update.answers = some (request, view.cancel)) :
    Ongoing { w with worker := .idle, updates } view request := by
  rcases h with hin | hreceived | ⟨sources, hruns⟩ | ⟨u, hu, hanswered⟩ | hagain
  · exact .inl hin
  · exact absurd (hrunning.symm.trans hreceived) (by simp)
  · obtain rfl := Worker.running.inj (hrunning.symm.trans hruns)
    exact .inr (.inr (.inr (.inl (hanswers rfl rfl))))
  · exact .inr (.inr (.inr (.inl ⟨u, hkept u hu, hanswered⟩)))
  · exact .inr (.inr (.inr (.inr hagain)))

theorem Account.step [Inhabited D] [DecidableEq D] [DecidableEq R] (h : ∀ v, Account w v)
    (hflagged : Flagged w) (horderly : Orderly w e) (hst : (adapter config).step w e w')
    (v : String) : Account w' v := by
  have heffect : Effect config w e w' := next_effect hst
  obtain ⟨-, hreplaces, hawaited⟩ := horderly
  have hnone : ∀ {u : String}, e.replaces = some u → w.admitted.lookup u = none := fun hu =>
    AList.lookup_eq_none.2 (hreplaces _ hu)
  cases heffect with
  | nothing => exact h v
  | asks | polls =>
    exact (h v).of_flights hflagged rfl rfl rfl rfl rfl fun view request _ _ _ hold =>
      hold.mono (fun _ hx => hx) rfl fun _ hx => hx
  | enqueues =>
    exact (h v).of_flights hflagged rfl rfl rfl rfl rfl fun view request _ _ _ hold =>
      hold.mono (fun _ hx => mem_append_left _ hx) rfl fun _ hx => hx
  | reports _ | informs =>
    exact (h v).of_flights hflagged rfl rfl rfl rfl rfl fun view request _ _ _ hold =>
      hold.mono (fun _ hx => hx) rfl fun _ hx => mem_append_left _ hx
  | submits haccepting _ _ hordinary _ _ => exact (h v).submits hflagged haccepting hordinary _ _ _
  | restarts haccepting => exact (h v).restarts haccepting _
  | drops hgoes _ hflags hunions =>
    refine (h v).at_rest hflagged (hnone hgoes) (fun view hview => absurd hview (by simp))
      (fun _ hv => AList.lookup_erase_ne hv) (fun _ _ => rfl) rfl (subset_of_flags hflags)
      (fun _ _ hmem => ?_) fun _ _ _ hold => hold.mono (fun _ hx => hx) rfl fun _ hx => hx
    rcases hunions with rfl | rfl
    · exact hmem
    · exact Finset.mem_of_mem_erase hmem
  | enters haccepting hregisters _ hflags hunions =>
    refine (h v).at_rest hflagged (hnone (Event.replaces_of_registers hregisters))
      (fun view hview => ?_) (fun _ hv => ?_) (fun _ _ => rfl) rfl (subset_of_flags hflags)
      (fun _ hv hmem => ?_) fun _ _ _ hold => hold.mono (fun _ hx => hx) rfl fun _ hx => hx
    · simp only [lookup_put, if_true, Option.some.injEq] at hview
      subst hview
      exact ⟨haccepting, rfl, by simp [ViewState.fresh]⟩
    · simp only [lookup_put, if_neg hv]
    · rcases hunions with rfl | rfl
      · exact hmem
      · exact (Finset.mem_insert.1 hmem).resolve_left hv
  | installs hunion hmem => exact (h v).installs hflagged hunion hmem _ _ _ _ _
  | shuts => exact (h v).shuts
  | ignores hfirst hstale =>
    refine (h v).of_flights hflagged rfl rfl rfl rfl rfl fun view request hview hdesired hunset hold =>
      hold.pop hfirst (fun hanswers => ?_) rfl rfl rfl
    exact hunset (hstale request _ view hanswers ⟨hview, hdesired, hunset⟩)
  | @progresses _ u _ scanned _ rest view hfirst hmem =>
    have hother : ∀ (other : ViewState D R M) (r : QueryRequest D R), Ongoing w other r →
        Ongoing ({ w with updates := rest }.put u { view with
          status := { view.status with scannedRecords := scanned } }) other r :=
      fun other r hold => hold.pop hfirst (by simp [Update.answers]) rfl rfl rfl
    exact (h v).kept hflagged (.of_put hmem rfl rfl (fun r _ hold => hother view r hold)
      fun other r hold => hother other r hold) rfl rfl (Finset.Subset.refl _) id
  | fails hfirst hanswers hlive hpublished =>
    exact .completes h hflagged hfirst hanswers hlive
      (fails_awaited h (hawaited rfl) hfirst hanswers hlive hpublished) rfl failed_state _
  | publishes hfirst hlive hunset heq =>
    subst heq
    split_ifs with hstate
    · exact .completes h hflagged hfirst rfl hlive hstate rfl publish_state _
    · refine .republishes h hflagged hfirst rfl hlive hstate ?_ rfl publish_state
      by_contra hnot
      exact hunset ((h _).closed (by simpa using hnot) _ hlive.mem).1
  | resubmits hmem hagain =>
    refine (h v).kept hflagged (.of_put hmem rfl rfl (fun r hpending _ => ?_) fun other r hold =>
      hold.mono (fun _ hx => mem_append_left _ hx) rfl fun _ hx => hx) rfl rfl
        (Finset.Subset.refl _) id
    exact .inl (mem_append_right _ (by simp [hagain, hpending]))
  | refreshes hmem =>
    exact (h v).kept hflagged (.of_put hmem rfl rfl (fun r _ hold =>
      hold.mono (fun _ hx => mem_append_left _ hx) rfl fun _ hx => hx) fun other r hold =>
      hold.mono (fun _ hx => mem_append_left _ hx) rfl fun _ hx => hx) rfl rfl
        (Finset.Subset.refl _) id
  | receives hidle hfirst =>
    exact (h v).of_flights hflagged rfl rfl rfl rfl rfl fun _ _ _ _ _ hold =>
      hold.receives hidle hfirst
  | starts hworker =>
    exact (h v).of_flights hflagged rfl rfl rfl rfl rfl fun _ _ hview hdesired _ hold =>
      hold.starts hworker hview hdesired
  | ends hrunning hanswers _ =>
    refine (h v).of_flights hflagged rfl rfl rfl rfl rfl fun _ _ _ _ _ hold =>
      hold.ends hrunning (fun _ hu => mem_append_left _ hu) fun hrequest htoken => ?_
    exact ⟨_, mem_append_right _ (mem_singleton_self _), hrequest ▸ htoken ▸ hanswers⟩
  | givesUp hrunning hset =>
    refine (h v).of_flights hflagged rfl rfl rfl rfl rfl fun _ _ _ _ hunset hold =>
      hold.ends hrunning (fun _ hu => hu) fun _ htoken => ?_
    -- a job whose flag is not set does not give up
    exact absurd (htoken ▸ hset) hunset

/-! ### The books -/

/-- The view and the revision that a request is for. -/
def QueryRequest.key (r : QueryRequest D R) : String × ℕ := (r.viewId, r.revision)

/-- What was completed, polled or not. -/
def World.answered (w : World D R M) : List (String × ℕ) :=
  (w.polled ++ w.completions).map fun c => (c.viewId, c.revision)

/-- What a step can do to the books. -/
inductive Booked (config : ViewConfig) (w : World D R M) (w' : World D R M) : Prop
  | same (completions : w'.completions = w.completions) (polled : w'.polled = w.polled)
      (admitted : w'.admitted = w.admitted) (accepted : w'.accepted = w.accepted)
      (asked : ∀ r ∈ w.asked, r ∈ w'.asked)
  | polled (answered : w'.answered = w.answered)
      (completions : w'.completions.length ≤ w.completions.length)
      (admitted : w'.admitted = w.admitted) (accepted : w'.accepted = w.accepted)
      (asked : w'.asked = w.asked)
  | admits {request : QueryRequest D R} (room : request.viewId ∈ w.admitted ∨
        w.completions.length + w.admitted.size < config.completionCapacity)
      (fresh : ∀ r ∈ w.asked, r.viewId = request.viewId → r.revision < request.revision)
      (completions : w'.completions = w.completions) (polled : w'.polled = w.polled)
      (admitted : w'.admitted = w.admitted.insert request.viewId request.revision)
      (accepted : w'.accepted = w.accepted ++ [request]) (asked : w'.asked = w.asked ++ [request])
  | completes {completion : QueryCompletion}
      (entry : w.admitted.lookup completion.viewId = some completion.revision)
      (completions : w'.completions = w.completions ++ [completion]) (polled : w'.polled = w.polled)
      (admitted : w'.admitted = w.admitted.erase completion.viewId)
      (accepted : w'.accepted = w.accepted) (asked : w'.asked = w.asked)

theorem booked_complete {completion : QueryCompletion} {w₁ : World D R M}
    (hentry : w.admitted.lookup completion.viewId = some completion.revision)
    (hadmitted : w₁.admitted = w.admitted) (hcompletions : w₁.completions = w.completions)
    (hpolled : w₁.polled = w.polled) (haccepted : w₁.accepted = w.accepted)
    (hasked : w₁.asked = w.asked) : Booked config w (w₁.complete completion) := by
  refine .completes hentry ?_ hpolled ?_ haccepted hasked
  · rw [World.complete, hcompletions]
  · simp only [World.complete, hadmitted, hentry, if_true]

/-- **A completion is always for the entry of its view.** -/
theorem booked [Inhabited D] [DecidableEq D] [DecidableEq R] (h : ∀ v, Account w v)
    (horderly : Orderly w e) (hst : (adapter config).step w e w') : Booked config w w' := by
  have heffect : Effect config w e w' := next_effect hst
  obtain ⟨hmono, -, hawaited⟩ := horderly
  cases heffect with
  | nothing | restarts | drops | enters | installs | shuts | enqueues | ignores | progresses | resubmits
    | refreshes | receives | starts | reports | ends | givesUp | informs =>
    exact .same rfl rfl rfl rfl fun r hr => hr
  | asks => exact .same rfl rfl rfl rfl fun r hr => mem_append_left _ hr
  | submits _ hroom _ _ _ _ => exact .admits hroom hmono rfl rfl rfl rfl rfl
  | polls hfirst =>
    refine .polled ?_ ?_ rfl rfl rfl
    · simp [World.answered, hfirst]
    · simp [hfirst]
  | fails hfirst hanswers hlive hpublished =>
    have hstate := fails_awaited h (hawaited rfl) hfirst hanswers hlive hpublished
    obtain ⟨hentry, -⟩ := (h _).waits hlive.mem hstate
    exact booked_complete (hentry.trans (congrArg some hlive.desired)) rfl rfl rfl rfl rfl
  | publishes hfirst hlive hunset heq =>
    subst heq
    split_ifs with hstate
    · obtain ⟨hentry, -⟩ := (h _).waits hlive.mem hstate
      exact booked_complete (hentry.trans (congrArg some hlive.desired)) rfl rfl rfl rfl rfl
    · exact .same rfl rfl rfl rfl fun r hr => hr

/-- **The books balance.** -/
structure Books (config : ViewConfig) (w : World D R M) : Prop where
  bound : w.completions.length + w.admitted.size ≤ config.completionCapacity
  asked : ∀ r ∈ w.accepted, r ∈ w.asked
  keys : (w.accepted.map QueryRequest.key).Nodup
  nodup : w.answered.Nodup
  taken : ∀ p ∈ w.answered, ∃ r ∈ w.accepted, r.key = p
  waiting : ∀ v revision, w.admitted.lookup v = some revision →
    (v, revision) ∉ w.answered ∧ ∃ r ∈ w.accepted, r.key = (v, revision)
  settled : ∀ r ∈ w.accepted, (∃ later ∈ w.accepted, later.viewId = r.viewId ∧
    r.revision < later.revision) ∨ w.admitted.lookup r.viewId = some r.revision ∨ r.key ∈ w.answered

theorem books_new : Books config (World.new : World D R M) where
  bound := by simp [World.new]
  asked r h := absurd h (by simp [World.new])
  keys := by simp [World.new]
  nodup := by simp [World.answered, World.new]
  taken p h := absurd h (by simp [World.answered, World.new])
  waiting v revision h := absurd h (by simp [World.new])
  settled r h := absurd h (by simp [World.new])

theorem Books.of_eq (h : Books config w) (hanswered : w'.answered = w.answered)
    (hcompletions : w'.completions.length ≤ w.completions.length)
    (hadmitted : w'.admitted = w.admitted) (haccepted : w'.accepted = w.accepted)
    (hasked : ∀ r ∈ w.asked, r ∈ w'.asked) : Books config w' := by
  refine ⟨?_, ?_, haccepted ▸ h.keys, hanswered ▸ h.nodup, ?_, ?_, ?_⟩
  · rw [hadmitted]
    exact (Nat.add_le_add_right hcompletions _).trans h.bound
  · rw [haccepted]
    exact fun r hr => hasked r (h.asked r hr)
  · rw [hanswered, haccepted]
    exact h.taken
  · rw [hanswered, haccepted, hadmitted]
    exact h.waiting
  · rw [hanswered, haccepted, hadmitted]
    exact h.settled

theorem Books.step (h : Books config w) (hbooked : Booked config w w') : Books config w' := by
  cases hbooked with
  | same hcompletions hpolled hadmitted haccepted hasked =>
    exact h.of_eq (by rw [World.answered, hcompletions, hpolled]; rfl) (by rw [hcompletions])
      hadmitted haccepted hasked
  | polled hanswered hcompletions hadmitted haccepted hasked =>
    exact h.of_eq hanswered hcompletions hadmitted haccepted (by rw [hasked]; exact fun r hr => hr)
  | @admits request hroom hfresh hcompletions hpolled hadmitted haccepted hasked =>
    have hanswered : w'.answered = w.answered := by
      rw [World.answered, hcompletions, hpolled]
      rfl
    -- the request is later than all that were accepted
    have hlater : ∀ r ∈ w.accepted, r.viewId = request.viewId → r.revision < request.revision :=
      fun r hr hid => hfresh r (h.asked r hr) hid
    refine ⟨?_, ?_, ?_, hanswered ▸ h.nodup, ?_, ?_, ?_⟩
    · rw [hcompletions, hadmitted]
      by_cases hin : request.viewId ∈ w.admitted
      · rw [Dict.size_insert_of_mem hin]
        exact h.bound
      · rw [Dict.size_insert_of_notMem hin]
        exact hroom.resolve_left hin
    · intro r hr
      rw [haccepted] at hr
      rw [hasked]
      rcases mem_append.1 hr with hr | hr
      · exact mem_append_left _ (h.asked r hr)
      · exact mem_append_right _ hr
    · rw [haccepted, map_append]
      refine nodup_append.2 ⟨h.keys, nodup_singleton _, fun p hp q hq heq => ?_⟩
      obtain ⟨r, hr, rfl⟩ := mem_map.1 hp
      obtain ⟨hid, hrevision⟩ := Prod.mk.inj (heq.trans (mem_singleton.1 hq))
      exact (hlater r hr hid).ne hrevision
    · intro p hp
      rw [hanswered] at hp
      obtain ⟨r, hr, hkey⟩ := h.taken p hp
      exact ⟨r, haccepted ▸ mem_append_left _ hr, hkey⟩
    · intro v revision hentry
      rw [hadmitted, Dict.lookup_insert_eq] at hentry
      rw [hanswered, haccepted]
      split_ifs at hentry with hv
      · cases hentry
        subst hv
        refine ⟨fun hp => ?_, request, mem_append_right _ (mem_singleton_self _), rfl⟩
        obtain ⟨r, hr, hkey⟩ := h.taken _ hp
        obtain ⟨hid, hrevision⟩ := Prod.mk.inj hkey
        exact (hlater r hr hid).ne hrevision
      · obtain ⟨hnot, r, hr, hkey⟩ := h.waiting v revision hentry
        exact ⟨hnot, r, mem_append_left _ hr, hkey⟩
    · intro r hr
      rw [haccepted] at hr
      rw [hanswered, haccepted, hadmitted, Dict.lookup_insert_eq]
      rcases mem_append.1 hr with hr | hr
      · by_cases hid : r.viewId = request.viewId
        · exact .inl ⟨request, mem_append_right _ (mem_singleton_self _), hid.symm,
            hlater r hr hid⟩
        · rw [if_neg hid]
          exact (h.settled r hr).imp_left fun ⟨later, hmem, hlater⟩ =>
            ⟨later, mem_append_left _ hmem, hlater⟩
      · obtain rfl := mem_singleton.1 hr
        exact .inr (.inl (by rw [if_pos rfl]))
  | @completes completion hentry hcompletions hpolled hadmitted haccepted hasked =>
    have hanswered : w'.answered = w.answered ++ [(completion.viewId, completion.revision)] := by
      rw [World.answered, hcompletions, hpolled, ← append_assoc, map_append]
      rfl
    obtain ⟨hnew, request, hrequest, hkey⟩ := h.waiting _ _ hentry
    refine ⟨?_, ?_, haccepted ▸ h.keys, ?_, ?_, ?_, ?_⟩
    · have hsize := Dict.size_erase_of_mem (Dict.mem_of_lookup hentry)
      rw [hcompletions, hadmitted, length_append, length_singleton]
      have hbound := h.bound
      omega
    · rw [haccepted, hasked]
      exact h.asked
    · rw [hanswered]
      exact nodup_append.2 ⟨h.nodup, nodup_singleton _, fun p hp q hq heq =>
        hnew (mem_singleton.1 hq ▸ heq ▸ hp)⟩
    · intro p hp
      rw [hanswered] at hp
      rw [haccepted]
      rcases mem_append.1 hp with hp | hp
      · exact h.taken p hp
      · exact ⟨request, hrequest, hkey.trans (mem_singleton.1 hp).symm⟩
    · intro v revision hentry'
      rw [hadmitted, Dict.lookup_erase_eq] at hentry'
      split_ifs at hentry' with hv
      obtain ⟨hnot, hwas⟩ := h.waiting v revision hentry'
      rw [hanswered, haccepted]
      refine ⟨fun hp => ?_, hwas⟩
      rcases mem_append.1 hp with hp | hp
      · exact hnot hp
      · exact hv (Prod.mk.inj (mem_singleton.1 hp)).1
    · intro r hr
      rw [haccepted] at hr
      rw [hanswered, haccepted, hadmitted, Dict.lookup_erase_eq]
      rcases h.settled r hr with hlater | hwaiting | hanswer
      · exact .inl hlater
      · by_cases hid : r.viewId = completion.viewId
        · have hrevision : r.revision = completion.revision :=
            Option.some.inj (hwaiting.symm.trans (hid ▸ hentry))
          exact .inr (.inr (mem_append_right _ (by simp [QueryRequest.key, hid, hrevision])))
        · rw [if_neg hid]
          exact .inr (.inl hwaiting)
      · exact .inr (.inr (mem_append_left _ hanswer))

/-! ### The ledger -/

/-- **Every admitted entry is that of a view that waits, and is paid for by one completion.** -/
structure Ledger (config : ViewConfig) (w : World D R M) : Prop where
  flagged : Flagged w
  accounts : ∀ v, Account w v
  books : Books config w

theorem ledger_new : Ledger config (World.new : World D R M) where
  flagged := flagged_new
  accounts v := .of_idle (by simp [World.new]) (fun view h => absurd h (by simp [World.new]))
    fun _ view h => absurd h (by simp [World.new])
  books := books_new

section
variable [Inhabited D] [DecidableEq D] [DecidableEq R]

theorem Ledger.step (h : Ledger config w) (horderly : Orderly w e)
    (hst : (adapter config).step w e w') : Ledger config w' where
  flagged := h.flagged.step hst
  accounts := Account.step h.accounts h.flagged horderly hst
  books := h.books.step (booked h.accounts horderly hst)

/-- **The ledger is conserved**, in every run in which the revisions that are asked increase, no
view goes that is admitted, and no failure is applied that nobody waits for: there is room for
what is admitted and what is not polled; every entry is that of a view whose request is under way;
each request that was accepted is completed once at most, and once if it is not under way any more
and no later one replaced it. -/
theorem ledger_conserved {es : List (Event D R M)}
    (h : ((adapter config).only Orderly).Run .new es w) :
    w.completions.length + w.admitted.size ≤ config.completionCapacity ∧
    (w.accepting = true → ∀ v revision, w.admitted.lookup v = some revision →
      Outstanding w v revision) ∧
    (w.accepted.map QueryRequest.key).Nodup ∧
    (∀ p ∈ w.answered, ∃ r ∈ w.accepted, r.key = p) ∧
    ∀ r ∈ w.accepted, w.answered.count r.key ≤ 1 ∧
      (w.accepting = true → ¬ Outstanding w r.viewId r.revision →
        (∀ later ∈ w.accepted, later.viewId = r.viewId → later.revision ≤ r.revision) →
          w.answered.count r.key = 1) := by
  have hledger : Ledger config w := h.invariant_only ledger_new
    fun _ _ _ hw horderly hst => hw.step horderly hst
  refine ⟨hledger.books.bound, fun hopen v => (hledger.accounts v).entry hopen, hledger.books.keys,
    hledger.books.taken, fun r hr => ⟨nodup_iff_count_le_one.1 hledger.books.nodup _,
      fun hopen hdone hlast => ?_⟩⟩
  rcases hledger.books.settled r hr with ⟨later, hmem, hid, hlt⟩ | hwaiting | hanswer
  · exact absurd hlt (Nat.not_lt.2 (hlast later hmem hid))
  · exact absurd ((hledger.accounts r.viewId).entry hopen _ hwaiting) hdone
  · exact count_eq_one_of_mem hledger.books.nodup hanswer

end

/-! ### Completions that nobody admitted, entries that nobody completes -/

/-- A query of a view runs and is answered. -/
def exampleAnswered : List (Event String String String) := exampleQuery ++ [.apply (.ok ())]

theorem ledger_conserved_query : ∃ w : World String String String,
    ((adapter exampleConfig).only Orderly).Run .new exampleAnswered w ∧
    w.completions.length + w.admitted.size ≤ exampleConfig.completionCapacity := by
  obtain ⟨w, hrun, -⟩ : ∃ w : World String String String,
      ((adapter exampleConfig).only Orderly).Run .new exampleAnswered w ∧ True :=
    Machine.exists_run_only (by decide +kernel)
  exact ⟨w, hrun, (ledger_conserved hrun).1⟩

/-- A view is refreshed, which fails. -/
def exampleRefresh : List (Event String String String) :=
  [.refresh "v" fun _ => some 1, .receive, .start, .fail .search "journal" false, .apply (.ok ())]

/-- A view is refreshed twice, and nothing is polled. -/
def exampleRefreshes : List (Event String String String) :=
  exampleAnswered ++ [.poll] ++ exampleRefresh ++ exampleRefresh

/-- A view is closed while its query is queued; the worker drops the query. -/
def exampleClosed : List (Event String String String) :=
  [.registerSource "a" (.ok ()), .registerView "v" ["a"] (.ok ()), .submit (exampleRequest 1) none,
    .unregisterView "v", .receive, .start]

/-- **A refresh that fails takes a place that nobody admitted, and a view that closes keeps one.** -/
theorem ledger_broken :
    (¬ ∀ (config : ViewConfig) (es : List (Event String String String))
      (w : World String String String), ((adapter config).only Monotonic).Run .new es w →
        w.completions.length + w.admitted.size ≤ config.completionCapacity) ∧
    ¬ ∀ (config : ViewConfig) (es : List (Event String String String))
      (w : World String String String), ((adapter config).only Monotonic).Run .new es w →
        w.accepting = true → ∀ v revision, w.admitted.lookup v = some revision →
          Outstanding w v revision := by
  constructor
  · intro hall
    obtain ⟨w, hrun, hlength⟩ : ∃ w : World String String String,
        ((adapter exampleConfig).only Monotonic).Run .new exampleRefreshes w ∧
        w.completions.length = 2 := Machine.exists_run_only (by decide +kernel)
    have hbound := hall _ _ w hrun
    rw [hlength] at hbound
    exact absurd ((Nat.le_add_right _ _).trans hbound) (by decide)
  · intro hall
    obtain ⟨w, hrun, hopen, hentry, hgone⟩ : ∃ w : World String String String,
        ((adapter exampleConfig).only Monotonic).Run .new exampleClosed w ∧
        w.accepting = true ∧ w.admitted.lookup "v" = some 1 ∧ (w.views.lookup "v").isNone = true :=
      Machine.exists_run_only (by decide +kernel)
    obtain ⟨view, request, hview, -⟩ := hall _ _ w hrun hopen "v" 1 hentry
    simp [hview] at hgone

end Lvu.View.Adapter
