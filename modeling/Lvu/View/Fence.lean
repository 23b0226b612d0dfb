import Lvu.View.Adapter

/-!
# Publication is fenced

A publication comes back some time after its job looked at the view.  In between the view may have
got another candidate, lost one, changed its sources or been restarted.

* `Monotonic` : the promise of `QueryRequest::revision`.
* `Fenced` : the work in flight is about the sources that the view has, or would get.
* `publication_fenced` : what is applied changes by one publication as a whole, unless the view is
  registered anew.
* `registered_anew` : a registration changes it without any publication.
-/

namespace Lvu.View.Adapter

open List

variable {D R M : Type}

/-- The revisions that are asked for a view increase. -/
def Monotonic (w : World D R M) : Event D R M → Prop
  | .submit request _ => ∀ r ∈ w.asked, r.viewId = request.viewId → r.revision < request.revision
  | _ => True

instance (w : World D R M) : (e : Event D R M) → Decidable (Monotonic w e)
  | .submit request _ => inferInstanceAs
    (Decidable (∀ r ∈ w.asked, r.viewId = request.viewId → r.revision < request.revision))
  | .registerSource _ _ | .rollbackSourceRegistration _ _ | .registerView _ _ _ | .unregisterView _
  | .registerUnionView _ _ _ | .unregisterUnionView _ | .installUnion _ _ _ _ _ _ | .poll
  | .shutdown | .enqueue | .apply _ | .resubmit _ | .refresh _ _ | .receive | .start | .progress _
  | .publish _ _ _ _ | .fail _ _ _ | .giveUp | .inform => isTrue trivial

/-! ### The invariant -/

/-- A query waits for the worker to look at its view. -/
def World.Working (w : World D R M) (request : QueryRequest D R) : Prop :=
  .query request ∈ w.queue ∨ w.worker = .received (.query request)

/-- A request runs over some sources, or its publication is still to be applied. -/
def World.Reads (w : World D R M) (request : QueryRequest D R) (scope : List SourceId) : Prop :=
  (∃ token, w.worker = .running ⟨request, scope, token⟩) ∨
    ∃ update ∈ w.updates, update.scope = some (request, scope)

/-- A request that was asked. -/
def World.Asked (w : World D R M) (request : QueryRequest D R) : Prop :=
  request ∈ w.asked ∧ 0 < request.revision

/-- A view, by what its publications depend on. -/
structure ViewFenced (w : World D R M) (viewId : String) (view : ViewState D R M) : Prop where
  known : ∀ id, view.concerns id = true → id ∈ w.sources
  pending : ∀ r ∈ view.pendingRequest, r.viewId = viewId ∧ w.Asked r
  last : ∀ r ∈ view.lastRequest,
    r.viewId = viewId ∧ w.Asked r ∧ r.revision = view.appliedRevision
  ordered : viewId ∉ w.unionViews → view.appliedRevision ≤ view.desiredRevision
  candidate : viewId ∉ w.unionViews → view.pendingSources ≠ none →
    view.appliedRevision ≠ view.desiredRevision

/-- A job, by the sources of its view. -/
structure JobFenced (w : World D R M) (request : QueryRequest D R) (scope : List SourceId) : Prop where
  asked : w.Asked request
  desired : ∀ view, w.views.lookup request.viewId = some view → request.viewId ∉ w.unionViews →
    request.revision = view.desiredRevision → scope = view.pendingSources.getD view.sources
  applied : ∀ view, w.views.lookup request.viewId = some view → request.viewId ∉ w.unionViews →
    request.revision = view.appliedRevision → scope = view.sources

/-- **The work in flight is about the sources that its views have, or would get.** -/
structure Fenced (w : World D R M) : Prop where
  views : ∀ v view, w.views.lookup v = some view → ViewFenced w v view
  work : ∀ r, w.Working r → w.Asked r
  jobs : ∀ r scope, w.Reads r scope → JobFenced w r scope

theorem fenced_new : Fenced (World.new : World D R M) where
  views v view h := absurd h (by simp [World.new])
  work r h := by simp [World.Working, World.new] at h
  jobs r scope h := by simp [World.Reads, World.new] at h

/-- What the fence looks at in a view. -/
def ViewState.fence (view : ViewState D R M) :
    List SourceId × Option (List SourceId) × Option (QueryRequest D R) × ℕ ×
      Option (QueryRequest D R) × ℕ :=
  (view.sources, view.pendingSources, view.pendingRequest, view.desiredRevision, view.lastRequest,
    view.appliedRevision)

/-- A view is, to the fence, what it was. -/
structure Alike (w w' : World D R M) (v : String) : Prop where
  view : ∀ view', w'.views.lookup v = some view' → ∃ view, w.views.lookup v = some view ∧
    view'.fence = view.fence ∧ ∀ id, view.concerns id = true → id ∈ w.sources → id ∈ w'.sources
  union : v ∈ w.unionViews ↔ v ∈ w'.unionViews

variable {w w' : World D R M} {v : String} {view view' : ViewState D R M}
  {request : QueryRequest D R} {scope : List SourceId}

theorem fence_eq (h : view'.fence = view.fence) : view'.sources = view.sources ∧
    view'.pendingSources = view.pendingSources ∧ view'.pendingRequest = view.pendingRequest ∧
    view'.desiredRevision = view.desiredRevision ∧ view'.lastRequest = view.lastRequest ∧
    view'.appliedRevision = view.appliedRevision := by
  simpa [ViewState.fence] using h

theorem concerns_iff {id : SourceId} : view.concerns id = true ↔
    id ∈ view.sources ∨ ∃ sources ∈ view.pendingSources, id ∈ sources := by
  rw [ViewState.concerns, Bool.or_eq_true, decide_eq_true_iff]
  refine or_congr Iff.rfl ?_
  cases view.pendingSources <;> simp

theorem concerns_settled {id : SourceId} (hnone : view.pendingSources = none)
    (h : view.concerns id = true) : id ∈ view.sources := by
  rcases concerns_iff.1 h with h | ⟨sources, hsources, -⟩
  · exact h
  · exact absurd hsources (by simp [hnone])

theorem concerns_of_fence (h : view'.fence = view.fence) (id : SourceId) :
    view'.concerns id = view.concerns id := by
  obtain ⟨hsources, hpending, -⟩ := fence_eq h
  rw [ViewState.concerns, ViewState.concerns, hsources, hpending]

theorem World.Asked.mono (hasked : ∀ r ∈ w.asked, r ∈ w'.asked) (h : w.Asked request) :
    w'.Asked request :=
  ⟨hasked _ h.1, h.2⟩

theorem ViewFenced.alike (hasked : ∀ r ∈ w.asked, r ∈ w'.asked) (halike : Alike w w' v)
    (h : ∀ view, w.views.lookup v = some view → ViewFenced w v view)
    (hview' : w'.views.lookup v = some view') : ViewFenced w' v view' := by
  obtain ⟨view, hview, hfence, hsources⟩ := halike.view view' hview'
  obtain ⟨-, hpendings, hpending, hdesired, hlast, happlied⟩ := fence_eq hfence
  have hold := h view hview
  refine ⟨fun id hid => ?_, fun r hr => ?_, fun r hr => ?_, fun hunion => ?_,
    fun hunion hsome => ?_⟩
  · rw [concerns_of_fence hfence] at hid
    exact hsources id hid (hold.known id hid)
  · rw [hpending] at hr
    exact ⟨(hold.pending r hr).1, (hold.pending r hr).2.mono hasked⟩
  · rw [hlast] at hr
    obtain ⟨hid, hr', hrevision⟩ := hold.last r hr
    exact ⟨hid, hr'.mono hasked, hrevision.trans happlied.symm⟩
  · rw [happlied, hdesired]
    exact hold.ordered fun hmem => hunion (halike.union.1 hmem)
  · rw [happlied, hdesired]
    exact hold.candidate (fun hmem => hunion (halike.union.1 hmem)) (hpendings ▸ hsome)

theorem JobFenced.alike (hasked : ∀ r ∈ w.asked, r ∈ w'.asked) (halike : Alike w w' request.viewId)
    (h : JobFenced w request scope) : JobFenced w' request scope := by
  refine ⟨h.asked.mono hasked, fun view' hview' hunion hrevision => ?_,
    fun view' hview' hunion hrevision => ?_⟩
  · obtain ⟨view, hview, hfence, -⟩ := halike.view view' hview'
    obtain ⟨hsources, hpendings, -, hdesired, -⟩ := fence_eq hfence
    rw [hsources, hpendings]
    exact h.desired view hview (fun hmem => hunion (halike.union.1 hmem)) (hrevision.trans hdesired)
  · obtain ⟨view, hview, hfence, -⟩ := halike.view view' hview'
    obtain ⟨hsources, -, -, -, -, happlied⟩ := fence_eq hfence
    rw [hsources]
    exact h.applied view hview (fun hmem => hunion (halike.union.1 hmem)) (hrevision.trans happlied)

/-- A step keeps the fence if each view is as before or is looked after, and so is what is new in
flight. -/
theorem Fenced.of_views (h : Fenced w) (hasked : ∀ r ∈ w.asked, r ∈ w'.asked)
    (hviews : ∀ v, Alike w w' v ∨
      (∀ view', w'.views.lookup v = some view' → ViewFenced w' v view') ∧
        ∀ r scope, JobFenced w r scope → r.viewId = v → JobFenced w' r scope)
    (hwork : ∀ r, w'.Working r → w.Working r ∨ w'.Asked r)
    (hjobs : ∀ r scope, w'.Reads r scope → w.Reads r scope ∨ JobFenced w' r scope) : Fenced w' := by
  refine ⟨fun v view' hview' => ?_, fun r hr => ?_, fun r scope hr => ?_⟩
  · rcases hviews v with halike | ⟨hview, -⟩
    · exact ViewFenced.alike hasked halike (h.views v) hview'
    · exact hview view' hview'
  · rcases hwork r hr with hold | hnew
    · exact (h.work r hold).mono hasked
    · exact hnew
  · rcases hjobs r scope hr with hold | hnew
    · rcases hviews r.viewId with halike | ⟨-, hjob⟩
      · exact (h.jobs r scope hold).alike hasked halike
      · exact hjob r scope (h.jobs r scope hold) rfl
    · exact hnew

/-! ### Steps -/

theorem lookup_put (w : World D R M) (v : String) (view : ViewState D R M) (j : String) :
    (w.put v view).views.lookup j = if j = v then some view else w.views.lookup j :=
  Dict.lookup_insert_eq _ _ _ _

theorem Alike.of_lookup (hlookup : w'.views.lookup v = w.views.lookup v)
    (hsources : ∀ view, w.views.lookup v = some view → ∀ id, view.concerns id = true →
      id ∈ w.sources → id ∈ w'.sources) (hunion : v ∈ w.unionViews ↔ v ∈ w'.unionViews) :
    Alike w w' v :=
  ⟨fun view' hview' => ⟨view', hlookup ▸ hview', rfl, hsources view' (hlookup ▸ hview')⟩, hunion⟩

theorem Alike.of_eq (hviews : w'.views = w.views) (hsources : w'.sources = w.sources)
    (hunions : w'.unionViews = w.unionViews) : Alike w w' v :=
  .of_lookup (by rw [hviews]) (fun _ _ id _ hid => hsources ▸ hid) (by rw [hunions])

theorem Alike.of_put {u : String} (hmem : w.views.lookup u = some view)
    (hviews : w'.views = (w.put u view').views) (hfence : view'.fence = view.fence)
    (hsources : w'.sources = w.sources) (hunions : w'.unionViews = w.unionViews) :
    Alike w w' v := by
  refine ⟨fun x hx => ?_, by rw [hunions]⟩
  rw [hviews, lookup_put] at hx
  split_ifs at hx with hv
  · cases hx
    exact ⟨view, hv ▸ hmem, hfence, fun id _ hid => hsources ▸ hid⟩
  · exact ⟨x, hx, rfl, fun id _ hid => hsources ▸ hid⟩

theorem Fenced.of_flights (h : Fenced w) (hviews : w'.views = w.views)
    (hsources : w'.sources = w.sources) (hunions : w'.unionViews = w.unionViews)
    (hasked : ∀ r ∈ w.asked, r ∈ w'.asked)
    (hwork : ∀ r, w'.Working r → w.Working r)
    (hjobs : ∀ r scope, w'.Reads r scope → w.Reads r scope ∨ JobFenced w r scope) : Fenced w' := by
  have halike : ∀ v, Alike w w' v := fun v => .of_eq hviews hsources hunions
  exact h.of_views hasked (fun v => Or.inl (halike v)) (fun r hr => Or.inl (hwork r hr))
    fun r scope hr => (hjobs r scope hr).imp_right fun hjob => hjob.alike hasked (halike _)

/-- A step that gives one view a new state keeps the fence if that state is looked after. -/
theorem Fenced.of_put {u : String} {new : ViewState D R M} (h : Fenced w)
    (hasked : ∀ r ∈ w.asked, r ∈ w'.asked) (hviews : w'.views = (w.put u new).views)
    (hsources : w'.sources = w.sources) (hunions : ∀ v ≠ u, v ∈ w.unionViews ↔ v ∈ w'.unionViews)
    (hnew : ViewFenced w' u new)
    (hdesired : ∀ r scope, JobFenced w r scope → r.viewId = u → u ∉ w'.unionViews →
      r.revision = new.desiredRevision → scope = new.pendingSources.getD new.sources)
    (happlied : ∀ r scope, JobFenced w r scope → r.viewId = u → u ∉ w'.unionViews →
      r.revision = new.appliedRevision → scope = new.sources)
    (hwork : ∀ r, w'.Working r → w.Working r ∨ w'.Asked r)
    (hjobs : ∀ r scope, w'.Reads r scope → w.Reads r scope) : Fenced w' := by
  have hlookup : ∀ v, w'.views.lookup v = if v = u then some new else w.views.lookup v :=
    fun v => by rw [hviews, lookup_put]
  have hself : ∀ view', w'.views.lookup u = some view' → new = view' := fun view' hview' => by
    rw [hlookup, if_pos rfl] at hview'
    exact Option.some.inj hview'
  refine h.of_views hasked (fun v => ?_) hwork fun r scope hr => .inl (hjobs r scope hr)
  by_cases hv : v = u
  · subst hv
    refine .inr ⟨fun view' hview' => hself view' hview' ▸ hnew, fun r scope hjob hid => ?_⟩
    subst hid
    exact ⟨hjob.asked.mono hasked,
      fun view' hview' hunion heq => hself view' hview' ▸ hdesired r scope hjob rfl hunion
        (hself view' hview' ▸ heq),
      fun view' hview' hunion heq => hself view' hview' ▸ happlied r scope hjob rfl hunion
        (hself view' hview' ▸ heq)⟩
  · exact .inl (.of_lookup (by rw [hlookup, if_neg hv]) (fun _ _ _ _ hid => hsources ▸ hid)
      (hunions v hv))

theorem filter_known {sources : List SourceId} (h : ∀ id ∈ sources, id ∈ w.sources) :
    sources.filter (· ∈ w.sources) = sources :=
  List.filter_eq_self.2 fun id hid => by simpa using h id hid

theorem ViewFenced.sources_known (h : ViewFenced w v view) : ∀ id ∈ view.sources, id ∈ w.sources :=
  fun id hid => h.known id (concerns_iff.2 (.inl hid))

theorem ViewFenced.candidate_known (h : ViewFenced w v view) :
    ∀ id ∈ view.pendingSources.getD view.sources, id ∈ w.sources := by
  intro id hid
  cases hpending : view.pendingSources with
  | none =>
    rw [hpending] at hid
    exact h.sources_known id hid
  | some sources =>
    rw [hpending] at hid
    exact h.known id (concerns_iff.2 (.inr ⟨sources, hpending, hid⟩))

theorem ViewFenced.settled (h : ViewFenced w v view) (hunion : v ∉ w.unionViews)
    (heq : view.appliedRevision = view.desiredRevision) :
    view.pendingSources.getD view.sources = view.sources := by
  have hnone : view.pendingSources = none := by
    by_contra hsome
    exact h.candidate hunion hsome heq
  rw [hnone]
  rfl

theorem World.Reads.pop {update : Update D R M} {rest : List (Update D R M)}
    (h : w'.Reads request scope) (hfirst : w.updates = update :: rest)
    (hworker : w'.worker = w.worker) (hupdates : w'.updates = rest) : w.Reads request scope := by
  rcases h with ⟨token, hrunning⟩ | ⟨x, hx, hscope⟩
  · exact .inl ⟨token, hworker.symm.trans hrunning⟩
  · exact .inr ⟨x, hfirst ▸ mem_cons_of_mem _ (hupdates ▸ hx), hscope⟩

theorem World.Reads.of_append {update : Update D R M} (h : w'.Reads request scope)
    (hworker : w'.worker = w.worker) (hupdates : w'.updates = w.updates ++ [update])
    (hnone : update.scope = none) : w.Reads request scope := by
  rcases h with ⟨token, hrunning⟩ | ⟨x, hx, hscope⟩
  · exact .inl ⟨token, hworker.symm.trans hrunning⟩
  · rw [hupdates] at hx
    rcases mem_append.1 hx with hold | hnew
    · exact .inr ⟨x, hold, hscope⟩
    · rw [mem_singleton.1 hnew, hnone] at hscope
      exact absurd hscope (by simp)

theorem start_ne_received (work : Work D R) {received : Work D R} :
    start w work ≠ .received received := by
  cases work with
  | other => simp [Adapter.start]
  | incremental v =>
    unfold Adapter.start
    simp only
    split
    · simp
    · split
      · simp
      · split_ifs <;> simp
  | query r =>
    unfold Adapter.start
    simp only
    split
    · simp
    · split_ifs <;> simp

/-- What the worker takes up is fenced. -/
theorem Fenced.start (h : Fenced w) {work : Work D R} (hreceived : w.worker = .received work)
    {token : Token} (hstart : start w work = .running ⟨request, scope, token⟩) :
    JobFenced w request scope := by
  cases work with
  | other => simp [Adapter.start] at hstart
  | incremental v =>
    unfold Adapter.start at hstart
    cases hview : w.views.lookup v with
    | none => simp [hview] at hstart
    | some view =>
      have hfenced := h.views v view hview
      cases hlast : view.lastRequest with
      | none => simp [hview, hlast] at hstart
      | some last =>
        simp only [hview, hlast] at hstart
        split_ifs at hstart with hdesired
        obtain ⟨rfl, rfl, -⟩ := Job.mk.inj (Worker.running.inj hstart)
        obtain ⟨rfl, hasked, hrevision⟩ := hfenced.last last hlast
        rw [filter_known hfenced.sources_known]
        refine ⟨hasked, fun view' hview' hunion _ => ?_, fun view' hview' _ _ => ?_⟩
        · cases hview.symm.trans hview'
          exact (hfenced.settled hunion (hrevision.symm.trans (not_not.1 hdesired).symm)).symm
        · rw [Option.some.inj (hview.symm.trans hview')]
  | query r =>
    unfold Adapter.start at hstart
    cases hview : w.views.lookup r.viewId with
    | none => simp [hview] at hstart
    | some view =>
      have hfenced := h.views _ view hview
      simp only [hview] at hstart
      split_ifs at hstart with hdesired
      obtain ⟨rfl, rfl, -⟩ := Job.mk.inj (Worker.running.inj hstart)
      rw [filter_known hfenced.candidate_known]
      refine ⟨h.work r (.inr hreceived), fun view' hview' hunion _ => ?_,
        fun view' hview' hunion hrevision => ?_⟩
      · rw [Option.some.inj (hview.symm.trans hview')]
      · cases hview.symm.trans hview'
        exact hfenced.settled hunion (hrevision.symm.trans (not_not.1 hdesired).symm)

variable {config : ViewConfig} {e : Event D R M}

/-- A candidate's view. -/
theorem ViewFenced.submitted (h : ViewFenced w request.viewId view)
    {sources : Option (List SourceId)} {token : Token}
    (hknown : ∀ list ∈ sources, ∀ id ∈ list, id ∈ w.sources)
    (hordinary : request.viewId ∉ w.unionViews)
    (hnewer : view.desiredRevision < request.revision) (hsources : w'.sources = w.sources)
    (hasked : w'.asked = w.asked ++ [request]) :
    ViewFenced w' request.viewId (view.submitted request sources token) where
  known id hid := by
    rw [hsources]
    rcases concerns_iff.1 hid with hid | ⟨list, hlist, hid⟩
    · exact h.sources_known id hid
    · exact hknown list hlist id hid
  pending r hr := by
    obtain rfl : request = r := Option.some.inj hr
    exact ⟨rfl, by rw [hasked]; simp, by omega⟩
  last r hr := by
    obtain ⟨hid, hold, hrevision⟩ := h.last r hr
    exact ⟨hid, hold.mono fun x hx => by rw [hasked]; exact mem_append_left _ hx, hrevision⟩
  ordered _ := ((h.ordered hordinary).trans_lt hnewer).le
  candidate _ _ := ((h.ordered hordinary).trans_lt hnewer).ne

theorem ViewFenced.failed (h : ViewFenced w v view) {message : String} {limited : Bool}
    {token : Token} (hsources : w'.sources = w.sources) (hasked : w'.asked = w.asked) :
    ViewFenced w' v (view.failed message limited token) where
  known id hid := by
    rw [hsources]
    have hmem : id ∈ (view.failed message limited token).sources := concerns_settled rfl hid
    exact h.sources_known id hmem
  pending r hr := absurd hr (by simp [ViewState.failed])
  last r hr := by
    obtain ⟨hid, hold, hrevision⟩ := h.last r hr
    exact ⟨hid, hold.mono fun x hx => hasked ▸ hx, hrevision⟩
  ordered _ := le_rfl
  candidate _ hsome := absurd rfl hsome

/-- A view that publishes. -/
theorem ViewFenced.publish (h : ViewFenced w request.viewId view) {published : Published M}
    {scanned : ℕ} {watermarks : List (SourceId × Option ℕ)} {diagnostic : Option String}
    (hrequest : w.Asked request) (hdesired : view.desiredRevision = request.revision)
    (hsources : w'.sources = w.sources) (hasked : w'.asked = w.asked) :
    ViewFenced w' request.viewId (view.publish request published scanned watermarks diagnostic) where
  known id hid := by
    rw [hsources]
    exact h.candidate_known id (concerns_settled rfl hid)
  pending r hr := absurd hr (by simp [ViewState.publish])
  last r hr := by
    obtain rfl : request = r := Option.some.inj hr
    exact ⟨rfl, hrequest.mono fun x hx => hasked ▸ hx, rfl⟩
  ordered _ := hdesired.ge
  candidate _ hsome := absurd rfl hsome

variable [Inhabited D]

theorem ViewFenced.fresh {sources : List SourceId} {token : Token} {revision : ℕ}
    (hknown : ∀ id ∈ sources, id ∈ w.sources) :
    ViewFenced w v (.fresh sources token revision : ViewState D R M) where
  known id hid := hknown id (concerns_settled rfl hid)
  pending r hr := absurd hr (by simp [ViewState.fresh])
  last r hr := absurd hr (by simp [ViewState.fresh])
  ordered _ := le_rfl
  candidate _ hsome := absurd rfl hsome

theorem Fenced.step [DecidableEq D] [DecidableEq R] (h : Fenced w) (hmono : Monotonic w e)
    (hst : (adapter config).step w e w') : Fenced w' := by
  have heffect : Effect config w e w' := next_effect hst
  cases heffect with
  | nothing => exact h
  | asks =>
    exact h.of_flights rfl rfl rfl (fun r hr => mem_append_left _ hr) (fun r hr => hr)
      fun r scope hr => Or.inl hr
  | @submits _ _ view _ _ hknown hordinary hmem hnewer =>
    refine h.of_put (fun r hr => mem_append_left _ hr) rfl rfl (fun _ _ => Iff.rfl)
      ((h.views _ _ hmem).submitted hknown hordinary hnewer rfl rfl)
      (fun r scope hjob hid _ heq => ?_)
      (fun r scope hjob hid hunion heq => hjob.applied view (hid ▸ hmem) (hid ▸ hunion) heq)
      (fun r hr => ?_) fun r scope hr => hr
    · -- the revision is a new one
      exact absurd heq (hmono r hjob.asked.1 hid).ne
    · rcases hr with hr | hr
      · rcases mem_append.1 hr with hold | hnew
        · exact .inl (.inl hold)
        · obtain rfl := Work.query.inj (mem_singleton.1 hnew)
          exact .inr ⟨by simp, by omega⟩
      · exact .inl (.inr hr)
  | @restarts id =>
    refine h.of_views (fun r hr => hr) (fun v => Or.inl ⟨fun view' hview' => ?_, Iff.rfl⟩)
      (fun r hr => Or.inl hr) fun r scope hr => Or.inl hr
    simp only [Dict.lookup_map, Option.map_eq_some_iff] at hview'
    obtain ⟨view, hview, rfl⟩ := hview'
    refine ⟨view, hview, ?_, fun source _ hsource => Finset.mem_insert_of_mem hsource⟩
    split_ifs <;> rfl
  | @drops _ u sources cancelled unionViews _ hkept _ hunions =>
    refine h.of_views (fun r hr => hr) (fun v => ?_) (fun r hr => Or.inl hr)
      fun r scope hr => Or.inl hr
    by_cases hv : v = u
    · subst hv
      have hgone : ∀ view' : ViewState D R M, (w.views.erase v).lookup v ≠ some view' :=
        fun view' => by simp
      refine .inr ⟨fun view' hview' => absurd hview' (hgone view'), fun r scope hjob hid => ?_⟩
      subst hid
      exact ⟨hjob.asked, fun view' hview' => absurd hview' (hgone view'),
        fun view' hview' => absurd hview' (hgone view')⟩
    · refine .inl (.of_lookup (AList.lookup_erase_ne hv) (fun view hview id hconcerns hid =>
        hkept v hv view hview id hid hconcerns) ?_)
      rcases hunions with rfl | rfl
      · exact Iff.rfl
      · simp [hv]
  | enters _ _ hknown _ hunions =>
    refine h.of_put (fun r hr => hr) rfl rfl (fun v hv => ?_) (.fresh hknown)
      (fun r scope hjob _ _ heq => absurd heq hjob.asked.2.ne')
      (fun r scope hjob _ _ heq => absurd heq hjob.asked.2.ne') (fun r hr => .inl hr)
      fun r scope hr => hr
    rcases hunions with rfl | rfl
    · exact Iff.rfl
    · simp [hv]
  | installs hunion hmem =>
    exact h.of_put (fun r hr => hr) rfl rfl (fun _ _ => Iff.rfl)
      ⟨(h.views _ _ hmem).known, fun r hr => absurd hr (by simp [ViewState.installed]),
        fun r hr => absurd hr (by simp [ViewState.installed]), fun hnot => absurd hunion hnot,
        fun hnot => absurd hunion hnot⟩
      (fun _ _ _ _ hnot => absurd hunion hnot) (fun _ _ _ _ hnot => absurd hunion hnot)
      (fun r hr => .inl hr) fun r scope hr => hr
  | polls =>
    exact h.of_flights rfl rfl rfl (fun r hr => hr) (fun r hr => hr) fun r scope hr => Or.inl hr
  | shuts =>
    refine h.of_views (fun r hr => hr) (fun v => Or.inl ⟨fun view' hview' => ?_, Iff.rfl⟩)
      (fun r hr => Or.inl hr) fun r scope hr => Or.inl hr
    simp only [shutdown, Dict.lookup_map, Option.map_eq_some_iff] at hview'
    obtain ⟨view, hview, rfl⟩ := hview'
    exact ⟨view, hview, rfl, fun source _ hsource => hsource⟩
  | enqueues =>
    refine h.of_flights rfl rfl rfl (fun r hr => hr) (fun r hr => ?_) fun r scope hr => Or.inl hr
    exact hr.imp_left fun hin => (mem_append.1 hin).resolve_right (by simp)
  | @ignores raw update rest hfirst _ =>
    exact h.of_flights rfl rfl rfl (fun r hr => hr) (fun r hr => hr)
      fun r scope hr => Or.inl (hr.pop hfirst rfl rfl)
  | @progresses raw u revision scanned token rest view hfirst hmem =>
    refine h.of_views (fun r hr => hr) (fun v => Or.inl (.of_put hmem rfl rfl rfl rfl))
      (fun r hr => Or.inl hr) fun r scope hr => Or.inl (hr.pop hfirst rfl rfl)
  | @fails _ _ _ _ _ view _ _ _ hfirst _ hlive _ =>
    have hold := h.views _ view hlive.mem
    exact h.of_put (fun r hr => hr) rfl rfl (fun _ _ => Iff.rfl) (hold.failed rfl rfl)
      (fun r scope hjob hid hunion heq => hjob.applied view (hid ▸ hlive.mem) (hid ▸ hunion) heq)
      (fun r scope hjob hid hunion heq => hjob.applied view (hid ▸ hlive.mem) (hid ▸ hunion) heq)
      (fun r hr => .inl hr) fun r scope hr => hr.pop hfirst rfl rfl
  | @publishes _ _ _ _ _ _ _ _ _ view w₁ hfirst hlive _ heq =>
    have hjob := h.jobs _ _ (.inr ⟨_, hfirst ▸ mem_cons_self, rfl⟩)
    have hdesired := hlive.desired
    -- the completion touches no view and nothing in flight
    have hkept : Fenced w₁ := by
      subst heq
      exact h.of_put (fun r hr => hr) rfl rfl (fun _ _ => Iff.rfl)
        ((h.views _ view hlive.mem).publish hjob.asked hdesired rfl rfl)
        (fun r scope hjob hid hunion heq => hjob.desired view (hid ▸ hlive.mem) (hid ▸ hunion) heq)
        (fun r scope hjob hid hunion heq => hjob.desired view (hid ▸ hlive.mem) (hid ▸ hunion)
          (heq.trans hdesired.symm))
        (fun r hr => .inl hr) fun r scope hr => hr.pop hfirst rfl rfl
    split_ifs
    · exact hkept.of_flights rfl rfl rfl (fun r hr => hr) (fun r hr => hr) fun r scope hr => Or.inl hr
    · exact hkept
  | @resubmits u view work hmem hagain =>
    refine h.of_views (fun r hr => hr) (fun v => Or.inl (.of_put hmem rfl rfl rfl rfl))
      (fun r hr => ?_) fun r scope hr => Or.inl hr
    rcases hr with hr | hr
    · rcases mem_append.1 hr with hold | hnew
      · exact .inl (.inl hold)
      · have hpending : view.pendingRequest = some r := by simpa [hagain] using hnew
        exact .inr ((h.views u view hmem).pending r hpending).2
    · exact .inl (.inr hr)
  | @refreshes u current view hmem =>
    refine h.of_views (fun r hr => hr) (fun v => Or.inl (.of_put hmem rfl rfl rfl rfl))
      (fun r hr => Or.inl ?_) fun r scope hr => Or.inl hr
    exact hr.imp_left fun hin => (mem_append.1 hin).resolve_right (by simp)
  | @receives work rest hidle hfirst =>
    refine h.of_flights rfl rfl rfl (fun r hr => hr) (fun r hr => ?_) fun r scope hr => Or.inl ?_
    · rcases hr with hr | hr
      · exact .inl (hfirst ▸ mem_cons_of_mem _ hr)
      · exact .inl (hfirst ▸ Worker.received.inj hr ▸ mem_cons_self)
    · rcases hr with ⟨token, hrunning⟩ | hr
      · exact absurd hrunning (by simp)
      · exact .inr hr
  | @starts work hreceived =>
    refine h.of_flights rfl rfl rfl (fun r hr => hr) (fun r hr => ?_) fun r scope hr => ?_
    · rcases hr with hr | hr
      · exact .inl hr
      · exact absurd hr (start_ne_received work)
    · rcases hr with ⟨token, hrunning⟩ | hr
      · exact .inr (h.start hreceived hrunning)
      · exact .inl (.inr hr)
  | @reports _ job scanned hrunning | informs =>
    exact h.of_flights rfl rfl rfl (fun r hr => hr) (fun r hr => hr)
      fun r scope hr => Or.inl (hr.of_append rfl rfl rfl)
  | @ends _ job update hrunning hanswers hscope =>
    refine h.of_flights rfl rfl rfl (fun r hr => hr) (fun r hr => ?_) fun r scope hr => Or.inl ?_
    · exact hr.imp_right fun hreceived => absurd hreceived (by simp)
    · rcases hr with ⟨token, hidle⟩ | ⟨x, hx, hxscope⟩
      · exact absurd hidle (by simp)
      · rcases mem_append.1 hx with hold | hnew
        · exact .inr ⟨x, hold, hxscope⟩
        · obtain rfl := mem_singleton.1 hnew
          obtain ⟨rfl, rfl⟩ := Prod.mk.inj (hscope _ hxscope)
          exact .inl ⟨job.token, hrunning⟩
  | givesUp hrunning _ =>
    refine h.of_flights rfl rfl rfl (fun r hr => hr) (fun r hr => ?_) fun r scope hr => Or.inl ?_
    · exact hr.imp_right fun hreceived => absurd hreceived (by simp)
    · rcases hr with ⟨token, hidle⟩ | hr
      · exact absurd hidle (by simp)
      · exact .inr hr

/-! ### What is applied -/

/-- What a view has applied. -/
structure Applied (D R M : Type) where
  published : Published M
  sources : List SourceId
  revision : ℕ
  constraints : QueryConstraints D R
  request : Option (QueryRequest D R)

/-- What a view has applied. -/
def ViewState.applied (view : ViewState D R M) : Applied D R M :=
  ⟨view.published, view.sources, view.appliedRevision, view.appliedConstraints, view.lastRequest⟩

/-- An event applies the publication of a view's candidate: for the revision that is desired, not
cancelled, and computed over the sources that become the view's. -/
def Publishes (w : World D R M) (e : Event D R M) (viewId : String) (view view' : ViewState D R M) :
    Prop :=
  ∃ raw request published scanned watermarks diagnostic token scope rest,
    e = .apply raw ∧
    w.updates = .publish request published scanned watermarks diagnostic token scope :: rest ∧
    request.viewId = viewId ∧ request.revision = view.desiredRevision ∧ token ∉ w.cancelled ∧
    view.cancel ∉ w.cancelled ∧ scope = view.pendingSources.getD view.sources ∧
    view'.applied = ⟨published, scope, request.revision, request.constraints, some request⟩

omit [Inhabited D] in
theorem applied_of_put {u : String} {new old view' : ViewState D R M}
    (hmem : w.views.lookup u = some view) (hold : w.views.lookup v = some old)
    (hnew : (w.put u new).views.lookup v = some view') (happlied : new.applied = view.applied) :
    view'.applied = old.applied := by
  rw [lookup_put] at hnew
  split_ifs at hnew with hv
  · cases hnew
    obtain rfl := Option.some.inj (hmem.symm.trans (hv ▸ hold))
    exact happlied
  · rw [Option.some.inj (hnew.symm.trans hold)]

/-- What a step changes of what a view has applied. -/
theorem Fenced.applied [DecidableEq D] [DecidableEq R] (h : Fenced w)
    (hst : (adapter config).step w e w') (hordinary : v ∉ w.unionViews)
    (hview : w.views.lookup v = some view) (hview' : w'.views.lookup v = some view') :
    view'.applied = view.applied ∨ e.registers = some v ∨ Publishes w e v view view' := by
  have hsame : w'.views = w.views → view'.applied = view.applied := by
    intro heq
    rw [heq] at hview'
    rw [Option.some.inj (hview'.symm.trans hview)]
  have heffect : Effect config w e w' := next_effect hst
  cases heffect with
  | nothing | asks | polls | enqueues | ignores | receives | starts | reports | ends | givesUp
    | informs => exact .inl (hsame rfl)
  | submits _ _ _ _ hmem _ => exact .inl (applied_of_put hmem hview hview' rfl)
  | restarts =>
    simp only [Dict.lookup_map, hview, Option.map_some, Option.some.injEq] at hview'
    subst hview'
    refine .inl ?_
    split_ifs <;> rfl
  | @drops _ u =>
    by_cases hv : v = u
    · subst hv
      exact absurd hview' (by simp)
    · rw [AList.lookup_erase_ne hv] at hview'
      exact .inl (by rw [Option.some.inj (hview'.symm.trans hview)])
  | @enters _ u _ _ _ _ _ hregisters =>
    by_cases hv : v = u
    · exact .inr (.inl (hv ▸ hregisters))
    · simp only [lookup_put, if_neg hv] at hview'
      exact .inl (by rw [Option.some.inj (hview'.symm.trans hview)])
  | @installs u _ _ _ _ _ _ hunion hmem =>
    have hv : v ≠ u := fun heq => hordinary (heq ▸ hunion)
    rw [lookup_put, if_neg hv] at hview'
    exact .inl (by rw [Option.some.inj (hview'.symm.trans hview)])
  | shuts =>
    simp only [shutdown, Dict.lookup_map, hview, Option.map_some, Option.some.injEq] at hview'
    subst hview'
    exact .inl rfl
  | progresses _ hmem | resubmits hmem _ | refreshes hmem =>
    exact .inl (applied_of_put hmem hview hview' rfl)
  | fails _ _ hlive _ => exact .inl (applied_of_put hlive.mem hview hview' rfl)
  | @publishes raw rest request published scanned watermarks diagnostic token scope view₁ w₁ hfirst
      hlive hunset heq =>
    have hjob : JobFenced w request scope :=
      h.jobs request scope (.inr ⟨_, hfirst ▸ mem_cons_self, rfl⟩)
    have hput : (w.put request.viewId (view₁.publish request published scanned watermarks
        diagnostic)).views.lookup v = some view' := by
      subst heq
      split_ifs at hview' <;> exact hview'
    by_cases hv : v = request.viewId
    · subst hv
      obtain rfl := Option.some.inj (hview.symm.trans hlive.mem)
      have hscope := hjob.desired view hview hordinary hlive.desired.symm
      rw [lookup_put, if_pos rfl] at hput
      cases hput
      refine .inr (.inr ⟨raw, request, published, scanned, watermarks, diagnostic, token, scope,
        rest, rfl, hfirst, rfl, hlive.desired.symm, hlive.unset, hunset, hscope, ?_⟩)
      rw [hscope]
      rfl
    · rw [lookup_put, if_neg hv] at hput
      exact .inl (by rw [Option.some.inj (hput.symm.trans hview)])

/-- **Publication is fenced to one accepted candidate.**  In every run in which the revisions that
are asked increase, what a view has applied changes by one publication as a whole, unless the view
is registered anew; and a submission that is refused changes nothing. -/
theorem publication_fenced [DecidableEq D] [DecidableEq R] {es : List (Event D R M)}
    (h : ((adapter config).only Monotonic).Run .new es w) (hst : (adapter config).step w e w') :
    (∀ v ∉ w.unionViews, ∀ view view', w.views.lookup v = some view →
      w'.views.lookup v = some view' →
        view'.applied = view.applied ∨ e.registers = some v ∨ Publishes w e v view view') ∧
    ∀ request sources refusal, e = .submit request sources →
      (submitQuery config w request sources).1 = .error refusal →
        w' = { w with asked := w.asked ++ [request] } := by
  have hfenced : Fenced w := h.invariant_only fenced_new fun _ _ _ hw hmono hst => hw.step hmono hst
  refine ⟨fun v hordinary view view' hview hview' => hfenced.applied hst hordinary hview hview', ?_⟩
  rintro request sources refusal rfl hrefused
  have hnext := Option.some.inj (show some _ = some w' from hst)
  rcases submitQuery_cases request sources with
    hsame | ⟨view, -, -, -, -, -, -, heq⟩
  · rw [← hnext, hsame]
  · rw [heq] at hrefused
    exact absurd hrefused (by simp)

/-! ### A query, and a view that is registered twice -/

def exampleConfig : ViewConfig := ⟨1, 1, 1, 1, 1⟩

/-- A request for the `revision` of a view that has applied none. -/
def exampleRequest (revision : ℕ) : QueryRequest String String :=
  ⟨"v", 0, revision, 0, ⟨"", []⟩, .search, ⟨"text", []⟩⟩

/-- A query of a view runs, up to its publication. -/
def exampleQuery : List (Event String String String) :=
  [.registerSource "a" (.ok ()), .registerView "v" ["a"] (.ok ()), .submit (exampleRequest 1) none,
    .receive, .start, .publish (.filtered "rows") 1 [("a", some 0)] none]

theorem publication_fenced_query : ∃ w w' : World String String String,
    ((adapter exampleConfig).only Monotonic).Run .new exampleQuery w ∧
    (adapter exampleConfig).step w (.apply (.ok ())) w' ∧
    ∀ v ∉ w.unionViews, ∀ view view', w.views.lookup v = some view →
      w'.views.lookup v = some view' →
        view'.applied = view.applied ∨ Publishes w (.apply (.ok ())) v view view' := by
  obtain ⟨w, hrun, hnext⟩ : ∃ w : World String String String,
      ((adapter exampleConfig).only Monotonic).Run .new exampleQuery w ∧
      (World.next exampleConfig w (.apply (.ok ()))).isSome = true :=
    Machine.exists_run_only (by decide +kernel)
  obtain ⟨w', hst⟩ := Option.isSome_iff_exists.1 hnext
  refine ⟨w, w', hrun, hst, fun v hordinary view view' hview hview' => ?_⟩
  rcases (publication_fenced hrun hst).1 v hordinary view view' hview hview' with h | h | h
  · exact .inl h
  · exact absurd h (by simp [Event.registers])
  · exact .inr h

/-- **A view that is registered anew starts over**, without any publication. -/
theorem registered_anew : ¬ ∀ (config : ViewConfig) (es : List (Event String String String))
    (w w' : World String String String) (e : Event String String String),
    (adapter config).Run .new es w → (adapter config).step w e w' →
      ∀ v ∉ w.unionViews, ∀ view view', w.views.lookup v = some view →
        w'.views.lookup v = some view' →
          view'.applied = view.applied ∨ Publishes w e v view view' := by
  intro hall
  have hends : (([.registerSource "a" (.ok ()), .registerView "v" ["a"] (.ok ())].foldlM
      (World.next exampleConfig) (World.new : World String String String)).bind fun w =>
        (World.next exampleConfig w (.registerView "v" [] (.ok ()))).map fun w' =>
          (("v" ∈ w.unionViews : Bool), (w.views.lookup "v").map (·.sources),
            (w'.views.lookup "v").map (·.sources))) = some (false, some ["a"], some []) := by
    decide +kernel
  obtain ⟨w, hw, hnext⟩ := Option.bind_eq_some_iff.1 hends
  obtain ⟨w', hw', heq⟩ := Option.map_eq_some_iff.1 hnext
  simp only [Prod.mk.injEq, decide_eq_false_iff_not, Option.map_eq_some_iff] at heq
  obtain ⟨hordinary, ⟨view, hview, hsources⟩, view', hview', hsources'⟩ := heq
  rcases hall _ _ w w' _ (Machine.run_ofFun.2 hw) hw' "v" hordinary view view' hview hview' with
    happlied | ⟨raw, _, _, _, _, _, _, _, _, hevent, -⟩
  · have := congrArg Applied.sources happlied
    simp [ViewState.applied, hsources, hsources'] at this
  · exact absurd hevent (by simp)

end Lvu.View.Adapter
