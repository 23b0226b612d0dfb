import Lvu.View.Ledger
import Lvu.View.UnionDigest

/-!
# When a view stops refreshing

`drain_updates` compares the high watermark of each source of a view with what the view's last
publication has scanned.  The worker notes the watermark of a source when it scans it; a source that
a correlation does not map is passed over before that (`run_query` of `lvu-view/src/lib.rs`).

* `FieldCorrelation` : a correlation, with the field of each source that is mapped.
* `watermarksOf` : what a scan notes.
* `Quiet` : the steps in which no source advances or restarts.
* `caughtUp_rests` : once a publication has scanned all sources and maps those that have records, the view
  is refreshed no more.
* `unmapped_refreshes` : with such a source the view is refreshed again.
-/

namespace Lvu.View.Adapter

open Digest List

/-! ### Correlations -/

/-- `ExactFieldError`, as far as a constraint is concerned. -/
inductive ExactFieldError
  | emptyField
  | fieldTooLarge
  | reservedField (field : String)
  | scalarTooLarge
  | nonFiniteFloat
deriving DecidableEq

def maxExactFieldBytes : ℕ := 64

def maxExactScalarBytes : ℕ := 16 * 1024

def maxCorrelationSources : ℕ := 32

/-- `f64::is_finite` of the number with these bits: its exponent is not all ones. -/
def isFinite (bits : UInt64) : Bool := (bits >>> 52) &&& 0x7ff ≠ 0x7ff

/-- `ExactScalar::validate`. -/
def validateScalar : ExactScalar → Except ExactFieldError Unit
  | .string value =>
    if value.1.utf8ByteSize > maxExactScalarBytes then .error .scalarTooLarge else .ok ()
  | .floatBits bits => if isFinite bits then .ok () else .error .nonFiniteFloat
  | .null | .bool _ | .signedInteger _ | .unsignedInteger _ => .ok ()

/-- `ExactFieldConstraint::validate`. -/
def validateConstraint (constraint : ExactFieldConstraint) : Except ExactFieldError Unit :=
  if constraint.field.1.isEmpty then .error .emptyField
  else if constraint.field.1.utf8ByteSize > maxExactFieldBytes then .error .fieldTooLarge
  else if constraint.field.1 = "raw" ∨ "_lvu_".toList.isPrefixOf constraint.field.1.toList then
    .error (.reservedField constraint.field.1)
  else validateScalar constraint.value

/-- `ExactFieldConstraint::new`. -/
def newConstraint (field : CandidateDigest.Text) (value : ExactScalar) :
    Except ExactFieldError ExactFieldConstraint :=
  (validateConstraint ⟨field, value⟩).map fun _ => ⟨field, value⟩

/-- `FieldCorrelation`, as `validate` lets it pass. -/
structure FieldCorrelation where
  originField : CandidateDigest.Text
  value : ExactScalar
  sources : BTreeMap CandidateDigest.Text
  origin : validateConstraint ⟨originField, value⟩ = .ok ()
  nonempty : sources.1.1 ≠ []
  few : sources.1.1.length ≤ maxCorrelationSources
  mapped : ∀ entry ∈ sources.1.1, 0 < entry.1.1.utf8ByteSize ∧ entry.1.1.utf8ByteSize ≤ 128 ∧
    validateConstraint ⟨entry.2, value⟩ = .ok ()
deriving DecidableEq

/-- The field that carries the value in a source. -/
def FieldCorrelation.field (correlation : FieldCorrelation) (source : SourceId) :
    Option CandidateDigest.Text :=
  (correlation.sources.1.1.find? (·.1.1 = source)).map Prod.snd

def FieldCorrelation.constraintFor (correlation : FieldCorrelation) (source : SourceId) :
    Option ExactFieldConstraint :=
  (correlation.field source).bind fun field => (newConstraint field correlation.value).toOption

/-- The rest of `QueryConstraints`, its texts in `T`. -/
structure Definition (T : Type) where
  text : Option T
  advancedPolars : Option T
  enrichments : List T
  captureTime : Option T
  grouping : Option T
  exactField : Option FieldCorrelation
deriving DecidableEq

instance {T : Type} : Inhabited (Definition T) := ⟨⟨none, none, [], none, none, none⟩⟩

variable {T R M : Type}

/-- A view with nothing to evaluate is published raw. -/
def evaluatesNothing (constraints : QueryConstraints (Definition T) R) : Bool :=
  constraints.definition.text.isNone && constraints.definition.advancedPolars.isNone &&
    constraints.definition.enrichments.isEmpty && constraints.definition.captureTime.isNone &&
    constraints.definition.grouping.isNone && constraints.definition.exactField.isNone &&
    constraints.colorRules.isEmpty

/-! ### What a scan notes -/

/-- A source is scanned, unless there is a correlation that does not map it. -/
def scans (correlation : Option FieldCorrelation) (source : SourceId) : Bool :=
  correlation.all fun correlation => (correlation.constraintFor source).isSome

/-- The `watermarks` of `run_query`, over the high watermarks `high` of the sources.  A source that
is not mapped is passed over before its watermark is noted; an empty one is passed over after. -/
def watermarksOf (correlation : Option FieldCorrelation) (high : SourceId → Option ℕ) :
    List SourceId → List (SourceId × Option ℕ)
  | [] => []
  | source :: rest =>
    if scans correlation source then (source, high source) :: watermarksOf correlation high rest
    else watermarksOf correlation high rest

/-- What `run_query` publishes for a job. -/
def IsAnswer (high : SourceId → Option ℕ) (job : Job (Definition T) R) (published : Published M)
    (watermarks : List (SourceId × Option ℕ)) : Prop :=
  if evaluatesNothing job.request.constraints then published = .raw ∧ watermarks = []
  else published ≠ .raw ∧
    watermarks = watermarksOf job.request.constraints.definition.exactField high job.sources

/-- The watermark that is noted for a source. -/
def noted (watermarks : List (SourceId × Option ℕ)) (source : SourceId) : Option ℕ :=
  (watermarks.find? (·.1 = source)).bind Prod.snd

theorem noted_watermarksOf (correlation : Option FieldCorrelation) (high : SourceId → Option ℕ)
    (sources : List SourceId) (source : SourceId) :
    noted (watermarksOf correlation high sources) source =
      if source ∈ sources ∧ scans correlation source = true then high source else none := by
  induction sources with
  | nil => simp [noted, watermarksOf]
  | cons first rest ih =>
    by_cases heq : first = source
    · subst heq
      by_cases hscans : scans correlation first = true
      · simp [noted, watermarksOf, hscans]
      · rw [watermarksOf, if_neg hscans, ih, if_neg fun h => hscans h.2, if_neg fun h => hscans h.2]
    · have hrest : noted (watermarksOf correlation high (first :: rest)) source =
          noted (watermarksOf correlation high rest) source := by
        rw [watermarksOf]
        split_ifs
        · simp [noted, heq]
        · rfl
      have hmem : source ∈ first :: rest ↔ source ∈ rest := by
        simp [mem_cons, Ne.symm heq]
      simp only [hrest, ih, hmem]

theorem watermarksOf_none (high : SourceId → Option ℕ) (sources : List SourceId) :
    watermarksOf none high sources = sources.map fun source => (source, high source) := by
  induction sources with
  | nil => rfl
  | cons source rest ih => simp [watermarksOf, scans, ih]

/-- **What a scan leaves behind**: a source that has records and is not mapped. -/
theorem newer_watermarksOf (correlation : Option FieldCorrelation) (high : SourceId → Option ℕ)
    {sources : List SourceId} {source : SourceId} (hmem : source ∈ sources) :
    newer (high source) (noted (watermarksOf correlation high sources) source) =
      ((high source).isSome && !scans correlation source) := by
  rw [noted_watermarksOf]
  by_cases hscans : scans correlation source = true
  · rw [if_pos ⟨hmem, hscans⟩, hscans]
    cases high source <;> simp [newer]
  · rw [if_neg fun h => hscans h.2, Bool.eq_false_iff.2 hscans]
    cases high source <;> rfl

/-! ### What every state keeps -/

/-- A view by its state. -/
structure ViewSound (unionViews : Finset String) (v : String)
    (view : ViewState (Definition T) R M) : Prop where
  /-- The view of a union has no candidate of its own. -/
  union : v ∈ unionViews → view.desiredRevision = 0
  ready : view.status.state = .ready → view.published ≠ .raw

/-- What holds in every state that is reached. -/
structure Sound (w : World (Definition T) R M) : Prop where
  fenced : Fenced w
  views : ∀ v view, w.views.lookup v = some view → ViewSound w.unionViews v view
  answers : ∀ u ∈ w.updates, ∀ r t, u.answers = some (r, t) → 0 < r.revision

theorem sound_new : Sound (World.new : World (Definition T) R M) where
  fenced := fenced_new
  views v view h := absurd h (by simp [World.new])
  answers u hu := absurd hu (by simp [World.new])

variable {config : ViewConfig} {w w' : World (Definition T) R M} {e : Event (Definition T) R M}

theorem put_forall {P : String → ViewState (Definition T) R M → Prop} {u : String}
    {new : ViewState (Definition T) R M} (h : ∀ v view, w.views.lookup v = some view → P v view)
    (hnew : P u new) : ∀ v view, (w.put u new).views.lookup v = some view → P v view := by
  intro v view hview
  rw [lookup_put] at hview
  split_ifs at hview with hv
  · exact hv ▸ Option.some.inj hview ▸ hnew
  · exact h v view hview

variable {view : ViewState (Definition T) R M} {scanned : ℕ} {es : List (Event (Definition T) R M)}

theorem ViewSound.of_eq {unionViews : Finset String} {v : String}
    {view' : ViewState (Definition T) R M} (h : ViewSound unionViews v view)
    (hdesired : view'.desiredRevision = view.desiredRevision)
    (hready : view'.status.state = .ready → view.status.state = .ready ∧
      view'.published = view.published) : ViewSound unionViews v view' where
  union hv := hdesired.trans (h.union hv)
  ready hstate := (hready hstate).2 ▸ h.ready (hready hstate).1

theorem Sound.ordinary (h : Sound w) {update : Update (Definition T) R M}
    (hmem : update ∈ w.updates) {request : QueryRequest (Definition T) R} {token : Token}
    (hanswers : update.answers = some (request, token))
    (hview : w.views.lookup request.viewId = some view)
    (hdesired : view.desiredRevision = request.revision) : request.viewId ∉ w.unionViews := by
  intro hunion
  have hzero := (h.views _ view hview).union hunion
  have hpos := h.answers update hmem request token hanswers
  omega

theorem Sound.views_step (h : Sound w) (heffect : Effect config w e w') :
    ∀ v view, w'.views.lookup v = some view → ViewSound w'.unionViews v view := by
  cases heffect with
  | nothing | asks | polls | enqueues | ignores | receives | starts | reports | ends | givesUp
    | informs => exact h.views
  | @submits request sources view _ _ _ hordinary hmem _ =>
    refine put_forall h.views ⟨fun hunion => absurd hunion hordinary, fun hready => ?_⟩
    exact absurd hready (by simp [ViewState.submitted, ViewState.asking])
  | @restarts id =>
    intro v view' hview'
    simp only [Dict.lookup_map, Option.map_eq_some_iff] at hview'
    obtain ⟨view, hview, rfl⟩ := hview'
    have hold := h.views v view hview
    split_ifs
    · exact hold.of_eq rfl fun hready => ⟨hready, rfl⟩
    · exact hold
  | @drops _ u _ _ unionViews _ _ _ hunions =>
    intro v view hview
    by_cases hv : v = u
    · subst hv
      exact absurd hview (by simp)
    · rw [AList.lookup_erase_ne hv] at hview
      have hold := h.views v view hview
      refine ⟨fun hunion => hold.union ?_, hold.ready⟩
      rcases hunions with rfl | rfl
      · exact hunion
      · exact Finset.mem_of_mem_erase hunion
  | @enters _ u sources revision _ unionViews _ _ _ _ hunions =>
    intro v view hview
    simp only [lookup_put] at hview
    split_ifs at hview with hv
    · cases hview
      exact ⟨fun _ => rfl, fun hready => absurd hready (by simp [ViewState.fresh])⟩
    · have hold := h.views v view hview
      refine ⟨fun hunion => hold.union ?_, hold.ready⟩
      rcases hunions with rfl | rfl
      · exact hunion
      · exact (Finset.mem_insert.1 hunion).resolve_left hv
  | @installs u view revision generation membership scanned watermarks hunion hmem =>
    refine put_forall h.views ⟨fun hv => (h.views u view hmem).union hv, fun _ => ?_⟩
    simp [ViewState.installed]
  | shuts =>
    intro v view' hview'
    simp only [shutdown, Dict.lookup_map, Option.map_eq_some_iff] at hview'
    obtain ⟨view, hview, rfl⟩ := hview'
    exact (h.views v view hview).of_eq rfl fun hready => absurd hready (by simp)
  | @progresses _ u _ _ _ _ view _ hmem =>
    exact put_forall h.views ((h.views u view hmem).of_eq rfl fun hready => ⟨hready, rfl⟩)
  | @fails raw update rest request token view purpose message limited hfirst hanswers hlive _ =>
    have hordinary := h.ordinary (hfirst ▸ mem_cons_self) hanswers hlive.mem hlive.desired
    refine put_forall h.views ⟨fun hunion => absurd hunion hordinary, fun hready => ?_⟩
    simp only [ViewState.failed] at hready
    cases hpublished : view.published with
    | raw =>
      rw [hpublished] at hready
      split_ifs at hready
    | filtered membership => simp [ViewState.failed, hpublished]
  | @publishes raw rest request published scanned watermarks diagnostic token scope view w₁ hfirst
      hlive _ heq =>
    have hordinary := h.ordinary (hfirst ▸ mem_cons_self) rfl hlive.mem hlive.desired
    have hput : ∀ v view, w₁.views.lookup v = some view → ViewSound w.unionViews v view := by
      subst heq
      refine put_forall h.views ⟨fun hunion => absurd hunion hordinary, fun hready => ?_⟩
      cases published with
      | raw => exact absurd hready (by simp [ViewState.publish])
      | filtered membership => simp [ViewState.publish]
    have hunions : w₁.unionViews = w.unionViews := by rw [heq]; rfl
    split_ifs
    · exact fun v view hview => (congrArg (ViewSound · v view) hunions).mpr (hput v view hview)
    · exact fun v view hview => (congrArg (ViewSound · v view) hunions).mpr (hput v view hview)
  | @resubmits u view _ hmem _ | @refreshes u _ view hmem =>
    exact put_forall h.views ((h.views u view hmem).of_eq rfl fun hready => ⟨hready, rfl⟩)

theorem Sound.answers_step (h : Sound w) (heffect : Effect config w e w') :
    ∀ u ∈ w'.updates, ∀ r t, u.answers = some (r, t) → 0 < r.revision := by
  have hrest : ∀ {update : Update (Definition T) R M} {rest : List (Update (Definition T) R M)},
      w.updates = update :: rest → ∀ u ∈ rest, ∀ r t, u.answers = some (r, t) → 0 < r.revision :=
    fun hfirst u hu => h.answers u (hfirst ▸ mem_cons_of_mem _ hu)
  have happend : ∀ {update : Update (Definition T) R M},
      (∀ r t, update.answers = some (r, t) → 0 < r.revision) →
      ∀ u ∈ w.updates ++ [update], ∀ r t, u.answers = some (r, t) → 0 < r.revision := by
    intro update hupdate u hu
    rcases mem_append.1 hu with hold | hnew
    · exact h.answers u hold
    · exact mem_singleton.1 hnew ▸ hupdate
  cases heffect with
  | nothing | asks | polls | enqueues | receives | starts | givesUp | submits | restarts | drops
    | enters | installs | shuts | resubmits | refreshes => exact h.answers
  | ignores hfirst | progresses hfirst | fails hfirst => exact hrest hfirst
  | publishes hfirst _ _ heq =>
    subst heq
    split_ifs <;> exact hrest hfirst
  | reports | informs =>
    exact happend fun r t hanswers => absurd hanswers (by simp [Update.answers])
  | ends hrunning hanswers =>
    refine happend fun r t heq => ?_
    obtain ⟨rfl, -⟩ := Prod.mk.inj (Option.some.inj (hanswers.symm.trans heq))
    exact (h.fenced.jobs _ _ (.inl ⟨_, hrunning⟩)).asked.2

theorem Sound.step [DecidableEq T] [DecidableEq R] (h : Sound w) (hmono : Monotonic w e)
    (hst : (adapter config).step w e w') : Sound w' :=
  ⟨h.fenced.step hmono hst, h.views_step (next_effect hst), h.answers_step (next_effect hst)⟩

/-! ### What is in flight -/

theorem applyUpdate_updates (raw : Except String Unit) (update : Update (Definition T) R M) :
    (applyUpdate w raw update).updates = w.updates := by
  have hfailed : ∀ (request : QueryRequest (Definition T) R) (purpose : QueryPurpose)
      (message : String) (limited : Bool) (token : Token),
      (applyFailed w request purpose message limited token).updates = w.updates := by
    intro request purpose message limited token
    unfold applyFailed
    split_ifs
    · rfl
    · cases w.views.lookup request.viewId with
      | none => rfl
      | some view =>
        simp only
        split_ifs <;> rfl
  cases update with
  | progress viewId revision scanned token =>
    simp only [applyUpdate, applyProgress]
    split_ifs
    · rfl
    · cases w.views.lookup viewId with
      | none => rfl
      | some view =>
        simp only
        split_ifs <;> rfl
  | publish request published scanned watermarks diagnostic token scope =>
    simp only [applyUpdate, applyPublish]
    split_ifs
    · rfl
    · cases w.views.lookup request.viewId with
      | none => rfl
      | some view =>
        simp only
        split_ifs
        · rfl
        · cases view.pendingSources <;> cases raw <;> first | rfl | exact hfailed _ _ _ _ _
        · cases view.pendingSources <;> cases raw <;> first | rfl | exact hfailed _ _ _ _ _
  | failed request purpose message limited token => exact hfailed _ _ _ _ _
  | other => rfl

section
variable [DecidableEq T] [DecidableEq R]

/-- **The updates after a step**: as before, without the first one, or with one more, which is a
publication only if the worker publishes. -/
theorem updates_cases (hst : (adapter config).step w e w') :
    (e.applies = false ∧ w'.updates = w.updates) ∨
    (e.applies = true ∧ w'.updates = w.updates.tail) ∨
    ∃ update, w'.updates = w.updates ++ [update] ∧ e.applies = false ∧ (update.scope = none ∨
      ∃ job published scanned watermarks diagnostic, w.worker = .running job ∧
        e = .publish published scanned watermarks diagnostic ∧
        update = .publish job.request published scanned watermarks diagnostic job.token
          job.sources) := by
  have hnext : w.next config e = some w' := hst
  cases e <;> simp only [World.next] at hnext
  case registerSource id raw =>
    refine .inl ⟨rfl, Option.some.inj hnext ▸ ?_⟩
    unfold registerSource
    split_ifs
    · rfl
    · cases raw <;> rfl
  case rollbackSourceRegistration id viewId => exact .inl ⟨rfl, Option.some.inj hnext ▸ rfl⟩
  case registerView viewId sources raw =>
    refine .inl ⟨rfl, Option.some.inj hnext ▸ ?_⟩
    unfold registerView World.enter
    split_ifs <;> try rfl
    cases w.views.lookup viewId <;> rfl
  case unregisterView viewId =>
    refine .inl ⟨rfl, Option.some.inj hnext ▸ ?_⟩
    unfold unregisterView
    cases w.views.lookup viewId <;> rfl
  case registerUnionView viewId sources raw =>
    refine .inl ⟨rfl, Option.some.inj hnext ▸ ?_⟩
    unfold registerUnionView World.enter
    split_ifs <;> try rfl
    cases w.views.lookup viewId <;> rfl
  case unregisterUnionView viewId =>
    refine .inl ⟨rfl, Option.some.inj hnext ▸ ?_⟩
    unfold unregisterUnionView unregisterView
    cases w.views.lookup viewId <;> rfl
  case installUnion viewId revision generation membership scanned watermarks =>
    split_ifs at hnext
    refine .inl ⟨rfl, Option.some.inj hnext ▸ ?_⟩
    unfold installUnion
    cases w.views.lookup viewId <;> rfl
  case submit request sources =>
    refine .inl ⟨rfl, Option.some.inj hnext ▸ ?_⟩
    have hcases : (submitQuery config w request sources).2 = w ∨ _ :=
      submitQuery_cases request sources
    rcases hcases with hsame | ⟨view, -, -, -, -, -, -, heq⟩
    · rw [hsame]
    · rw [heq]
      rfl
  case poll =>
    cases hcompletions : w.completions <;> rw [hcompletions] at hnext <;>
      exact .inl ⟨rfl, Option.some.inj hnext ▸ rfl⟩
  case shutdown => exact .inl ⟨rfl, Option.some.inj hnext ▸ rfl⟩
  case enqueue =>
    split_ifs at hnext
    exact .inl ⟨rfl, Option.some.inj hnext ▸ rfl⟩
  case apply raw =>
    cases hupdates : w.updates with
    | nil =>
      rw [hupdates] at hnext
      exact .inr (.inl ⟨rfl, Option.some.inj hnext ▸ hupdates⟩)
    | cons update rest =>
      rw [hupdates] at hnext
      exact .inr (.inl ⟨rfl, Option.some.inj hnext ▸ applyUpdate_updates raw update⟩)
  case resubmit viewId =>
    split_ifs at hnext
    refine .inl ⟨rfl, Option.some.inj hnext ▸ ?_⟩
    unfold resubmit
    cases w.views.lookup viewId with
    | none => rfl
    | some view =>
      simp only
      split_ifs <;> first | rfl | (cases view.pendingRequest <;> rfl)
  case refresh viewId current =>
    split_ifs at hnext
    refine .inl ⟨rfl, Option.some.inj hnext ▸ ?_⟩
    unfold refresh
    cases w.views.lookup viewId with
    | none => rfl
    | some view =>
      simp only
      split_ifs <;> rfl
  case receive =>
    split at hnext
    · exact .inl ⟨rfl, Option.some.inj hnext ▸ rfl⟩
    · cases hnext
  case start =>
    split at hnext
    · exact .inl ⟨rfl, Option.some.inj hnext ▸ rfl⟩
    · cases hnext
  case progress scanned =>
    split at hnext
    · split_ifs at hnext
      cases hnext
      exact .inr (.inr ⟨_, rfl, rfl, .inl rfl⟩)
    · cases hnext
  case publish published scanned watermarks diagnostic =>
    cases hworker : w.worker with
    | running job =>
      rw [hworker] at hnext
      simp only at hnext
      split_ifs at hnext
      exact .inr (.inr ⟨_, Option.some.inj hnext ▸ rfl, rfl,
        Or.inr ⟨job, published, scanned, watermarks, diagnostic, rfl, rfl, rfl⟩⟩)
    | idle | received _ => simp [hworker] at hnext
  case fail purpose message limited =>
    split at hnext
    · split_ifs at hnext
      cases hnext
      exact .inr (.inr ⟨_, rfl, rfl, .inl rfl⟩)
    · cases hnext
  case giveUp =>
    split at hnext
    · split_ifs at hnext
      exact .inl ⟨rfl, Option.some.inj hnext ▸ rfl⟩
    · cases hnext
  case inform =>
    split_ifs at hnext
    cases hnext
    exact .inr (.inr ⟨_, rfl, rfl, .inl rfl⟩)

end

/-! ### Quiet steps -/

/-- **No source advances or restarts**: a scan for the view reads the sources at `high`, so does a
union that is published; no source of the view is registered again.  A union is not closed. -/
def Quiet (high : SourceId → Option ℕ) (viewId : String) (w : World (Definition T) R M) :
    Event (Definition T) R M → Prop
  | .publish published _ watermarks _ => ∀ job, w.worker = .running job →
      job.request.viewId = viewId → IsAnswer high job published watermarks
  | .installUnion v _ _ _ _ watermarks => v = viewId → ∀ view, w.views.lookup v = some view →
      watermarks = view.sources.map fun source => (source, high source)
  | .registerSource id _ => ∀ view, w.views.lookup viewId = some view → view.concerns id = false
  | .unregisterUnionView v => v ≠ viewId
  | _ => True

/-- Every source with records that is scanned for the view is mapped. -/
def Mapped (high : SourceId → Option ℕ) (viewId : String) (w : World (Definition T) R M) :
    Event (Definition T) R M → Prop
  | .publish _ _ _ _ => ∀ job, w.worker = .running job → job.request.viewId = viewId →
      ∀ source ∈ job.sources, (high source).isSome = true →
        scans job.request.constraints.definition.exactField source = true
  | _ => True

/-- A publication that leaves nothing behind. -/
def Current (high : SourceId → Option ℕ) (viewId : String) (update : Update (Definition T) R M) :
    Prop :=
  ∀ request published scanned watermarks diagnostic token scope,
    update = .publish request published scanned watermarks diagnostic token scope →
    request.viewId = viewId → published ≠ .raw →
    ∀ source ∈ scope, newer (high source) (noted watermarks source) = false

/-- **A view that stands**: it is not behind, and what is in flight for it leaves nothing behind. -/
structure Stands (high : SourceId → Option ℕ) (viewId : String) (w : World (Definition T) R M) :
    Prop where
  view : ∀ view, w.views.lookup viewId = some view → view.published ≠ .raw →
    view.behind high = false
  updates : viewId ∉ w.unionViews → ∀ update ∈ w.updates, Current high viewId update

variable {high : SourceId → Option ℕ} {viewId : String}

theorem behind_eq_false : view.behind high = false ↔
    ∀ source ∈ view.sources,
      newer (high source) (noted view.status.highWatermarks source) = false := by
  simp [ViewState.behind, noted]

/-- What the worker publishes in a quiet step leaves nothing behind, if all is mapped. -/
theorem current_of_quiet {job : Job (Definition T) R} {published : Published M}
    {watermarks : List (SourceId × Option ℕ)} {diagnostic : Option String}
    (hworker : w.worker = .running job)
    (hquiet : Quiet high viewId w (.publish published scanned watermarks diagnostic))
    (hmapped : Mapped high viewId w (.publish published scanned watermarks diagnostic)) :
    Current high viewId
      (.publish job.request published scanned watermarks diagnostic job.token job.sources) := by
  rintro request published' scanned' watermarks' diagnostic' token scope heq hid hfiltered source
    hmem
  cases heq
  have hanswer := hquiet job hworker hid
  unfold IsAnswer at hanswer
  split_ifs at hanswer with hnothing
  · exact absurd hanswer.1 hfiltered
  · rw [hanswer.2, newer_watermarksOf _ _ hmem]
    cases hhigh : (high source).isSome with
    | false => rfl
    | true => rw [hmapped job hworker hid source hmem hhigh]; rfl

section
variable [DecidableEq T] [DecidableEq R]

/-- A step sends only publications that leave nothing behind. -/
theorem sent_current (hquiet : Quiet high viewId w e) (hmapped : Mapped high viewId w e)
    (hst : (adapter config).step w e w') :
    (e.applies = false ∧ w'.updates = w.updates) ∨
    (e.applies = true ∧ w'.updates = w.updates.tail) ∨
    ∃ update, w'.updates = w.updates ++ [update] ∧ e.applies = false ∧
      Current high viewId update := by
  rcases updates_cases hst with hsame | hpopped | ⟨update, hsent, hno, hscope⟩
  · exact .inl hsame
  · exact .inr (.inl hpopped)
  · refine .inr (.inr ⟨update, hsent, hno, ?_⟩)
    rcases hscope with hnone | ⟨job, published, scanned, watermarks, diagnostic, hworker, rfl, rfl⟩
    · rintro request published scanned watermarks diagnostic token scope rfl
      exact absurd hnone (by simp [Update.scope])
    · exact current_of_quiet hworker hquiet hmapped

omit [DecidableEq T] [DecidableEq R] in
theorem unregisterView_unions (v : String) : (unregisterView w v).unionViews = w.unionViews := by
  unfold unregisterView
  cases w.views.lookup v <;> rfl

omit [DecidableEq T] [DecidableEq R] in
theorem enter_unions (v : String) (sources : List SourceId) :
    (w.enter v sources).unionViews = w.unionViews := by
  unfold World.enter
  cases w.views.lookup v <;> rfl

/-- Only closing a union takes it away. -/
theorem union_replaced (hquiet : Quiet high viewId w e) (hst : (adapter config).step w e w')
    {u : String} (hreplaces : e.replaces = some u) (hunion : viewId ∈ w.unionViews) :
    viewId ∈ w'.unionViews := by
  have hnext : w.next config e = some w' := hst
  cases e <;> simp only [Event.replaces, reduceCtorEq] at hreplaces <;>
    simp only [World.next] at hnext <;> cases hnext
  case rollbackSourceRegistration => exact hunion
  case unregisterView v => rwa [unregisterView_unions]
  case unregisterUnionView v =>
    exact Finset.mem_erase.2 ⟨fun heq => hquiet heq.symm, hunion⟩
  case registerView v sources raw =>
    unfold registerView
    split_ifs <;> try exact hunion
    exact (enter_unions v _).symm ▸ hunion
  case registerUnionView v sources raw =>
    unfold registerUnionView
    split_ifs <;> try exact hunion
    exact Finset.mem_insert_of_mem hunion

theorem union_kept (hquiet : Quiet high viewId w e) (hst : (adapter config).step w e w')
    (hunion : viewId ∈ w.unionViews) : viewId ∈ w'.unionViews := by
  have heffect : Effect config w e w' := next_effect hst
  cases heffect with
  | nothing | asks | submits | restarts | installs | polls | shuts | enqueues | ignores | progresses
    | fails | resubmits | refreshes | receives | starts | reports | ends | givesUp | informs =>
    exact hunion
  | publishes _ _ _ heq =>
    subst heq
    split_ifs <;> exact hunion
  | enters _ _ _ _ hunions =>
    rcases hunions with rfl | rfl
    · exact hunion
    · exact Finset.mem_insert_of_mem hunion
  | drops hreplaces => exact union_replaced hquiet hst hreplaces hunion

omit [DecidableEq T] [DecidableEq R] in
/-- A publication that is applied leaves nothing behind. -/
theorem behind_publish (hsound : Sound w) {rest : List (Update (Definition T) R M)}
    {request : QueryRequest (Definition T) R} {published : Published M}
    {watermarks : List (SourceId × Option ℕ)} {diagnostic : Option String} {token : Token}
    {scope : List SourceId} (hfirst : w.updates =
      .publish request published scanned watermarks diagnostic token scope :: rest)
    (hmem : w.views.lookup request.viewId = some view)
    (hdesired : view.desiredRevision = request.revision)
    (hcurrent : request.viewId ∉ w.unionViews → ∀ update ∈ w.updates,
      Current high request.viewId update) (hfiltered : published ≠ .raw) :
    (view.publish request published scanned watermarks diagnostic).behind high = false := by
  have hordinary := hsound.ordinary (hfirst ▸ mem_cons_self) rfl hmem hdesired
  have hjob : JobFenced w request scope :=
    hsound.fenced.jobs request scope (.inr ⟨_, hfirst ▸ mem_cons_self, rfl⟩)
  -- the scan went over the sources that the view gets
  have hscope := hjob.desired view hmem hordinary hdesired.symm
  rw [behind_eq_false]
  intro source hsource
  exact hcurrent hordinary _ (hfirst ▸ mem_cons_self) _ _ _ _ _ _ _ rfl rfl hfiltered source
    (hscope ▸ hsource)

omit [DecidableEq T] [DecidableEq R] in
/-- A union that is published at `high` is not behind. -/
theorem behind_installed {revision generation : ℕ} {membership : M} :
    (view.installed revision generation membership scanned
      (view.sources.map fun source => (source, high source))).behind high = false := by
  rw [behind_eq_false]
  intro source hsource
  have hnewer := newer_watermarksOf none high (show source ∈ view.sources from hsource)
  rw [watermarksOf_none] at hnewer
  exact hnewer.trans (by simp [scans])

theorem Stands.view_step (h : Stands high viewId w) (hsound : Sound w)
    (hquiet : Quiet high viewId w e) (hst : (adapter config).step w e w') :
    ∀ view, w'.views.lookup viewId = some view → view.published ≠ .raw →
      view.behind high = false := by
  have hput : ∀ {u : String} {old new : ViewState (Definition T) R M},
      w.views.lookup u = some old → (new.published = old.published ∧ new.sources = old.sources ∧
        new.status.highWatermarks = old.status.highWatermarks) →
      ∀ view, (w.put u new).views.lookup viewId = some view → view.published ≠ .raw →
        view.behind high = false := by
    rintro u old new hold ⟨hpublished, hsources, hmarks⟩ view hview hfiltered
    rw [lookup_put] at hview
    split_ifs at hview with hv
    · cases hview
      have hbehind := h.view old (hv ▸ hold) (hpublished ▸ hfiltered)
      rw [behind_eq_false] at hbehind ⊢
      rw [hsources, hmarks]
      exact hbehind
    · exact h.view view hview hfiltered
  have heffect : Effect config w e w' := next_effect hst
  cases heffect with
  | nothing | asks | polls | enqueues | ignores | receives | starts | reports | ends | givesUp
    | informs => exact h.view
  | submits _ _ _ _ hmem _ | progresses _ hmem | resubmits hmem _ | refreshes hmem =>
    exact hput hmem ⟨rfl, rfl, rfl⟩
  | fails _ _ hlive _ => exact hput hlive.mem ⟨rfl, rfl, rfl⟩
  | @restarts id =>
    intro view' hview'
    simp only [Dict.lookup_map, Option.map_eq_some_iff] at hview'
    obtain ⟨view, hview, rfl⟩ := hview'
    rw [if_neg (by simp [hquiet view hview])]
    exact h.view view hview
  | @drops _ u =>
    intro view hview
    by_cases hv : viewId = u
    · subst hv
      exact absurd hview (by simp)
    · rw [AList.lookup_erase_ne hv] at hview
      exact h.view view hview
  | @enters _ u =>
    intro view hview hfiltered
    simp only [lookup_put] at hview
    split_ifs at hview with hv
    · exact absurd (Option.some.inj hview ▸ rfl) hfiltered
    · exact h.view view hview hfiltered
  | @installs u old revision generation membership scanned watermarks _ hmem =>
    intro view hview hfiltered
    rw [lookup_put] at hview
    split_ifs at hview with hv
    · cases hview
      rw [hquiet hv.symm old hmem]
      exact behind_installed
    · exact h.view view hview hfiltered
  | shuts =>
    intro view' hview' hfiltered
    simp only [shutdown, Dict.lookup_map, Option.map_eq_some_iff] at hview'
    obtain ⟨view, hview, rfl⟩ := hview'
    exact h.view view hview hfiltered
  | @publishes raw rest request published scanned watermarks diagnostic token scope old w₁ hfirst
      hlive _ heq =>
    have hpublish : ∀ view, w₁.views.lookup viewId = some view → view.published ≠ .raw →
        view.behind high = false := by
      subst heq
      intro view hview hfiltered
      rw [lookup_put] at hview
      split_ifs at hview with hv
      · cases hview
        subst hv
        exact behind_publish hsound hfirst hlive.mem hlive.desired h.updates hfiltered
      · exact h.view view hview hfiltered
    split_ifs <;> exact hpublish

theorem Stands.step (h : Stands high viewId w) (hsound : Sound w)
    (hquiet : Quiet high viewId w e) (hmapped : Mapped high viewId w e)
    (hst : (adapter config).step w e w') : Stands high viewId w' := by
  refine ⟨h.view_step hsound hquiet hst, fun hordinary update hupdate => ?_⟩
  have hold := h.updates fun hunion => hordinary (union_kept hquiet hst hunion)
  rcases sent_current hquiet hmapped hst with ⟨-, hsame⟩ | ⟨-, hpopped⟩ | ⟨sent, hsent, -, hcurrent⟩
  · exact hold update (hsame ▸ hupdate)
  · exact hold update (mem_of_mem_tail (hpopped ▸ hupdate))
  · rcases mem_append.1 (hsent ▸ hupdate) with hin | hnew
    · exact hold update hin
    · exact mem_singleton.1 hnew ▸ hcurrent

/-! ### Whole runs -/

/-- Steps that increase the revisions that are asked and meet a condition. -/
abbrev steps (config : ViewConfig)
    (C : World (Definition T) R M → Event (Definition T) R M → Prop) :
    Machine (World (Definition T) R M) (Event (Definition T) R M) :=
  (adapter config).only fun w e => Monotonic w e ∧ C w e

/-- **The view has caught up**: a publication of it, made in steps that meet `C`, is applied. -/
inductive CaughtUp (config : ViewConfig)
    (C : World (Definition T) R M → Event (Definition T) R M → Prop) (viewId : String) :
    World (Definition T) R M → Prop
  /-- A publication of the worker; all that had been in flight before is applied. -/
  | query {es₀ es : List (Event (Definition T) R M)} {w₀ w w' : World (Definition T) R M}
      {raw : Except String Unit} {rest : List (Update (Definition T) R M)}
      {request : QueryRequest (Definition T) R} {published : Published M} {scanned : ℕ}
      {watermarks : List (SourceId × Option ℕ)} {diagnostic : Option String} {token : Token}
      {scope : List SourceId} {view : ViewState (Definition T) R M}
      (reached : ((adapter config).only Monotonic).Run .new es₀ w₀)
      (run : (steps config C).Run w₀ es w)
      (drained : w₀.updates.length ≤ es.countP Event.applies)
      (first : w.updates =
        .publish request published scanned watermarks diagnostic token scope :: rest)
      (of : request.viewId = viewId) (mem : w.views.lookup viewId = some view)
      (desired : view.desiredRevision = request.revision)
      (step : (adapter config).step w (.apply raw) w')
      (applied : w'.views.lookup viewId =
        some (view.publish request published scanned watermarks diagnostic)) :
      CaughtUp config C viewId w'
  /-- The publication of a union. -/
  | union {es₀ : List (Event (Definition T) R M)} {w w' : World (Definition T) R M}
      {revision generation scanned : ℕ} {membership : M}
      {watermarks : List (SourceId × Option ℕ)}
      (reached : ((adapter config).only Monotonic).Run .new es₀ w)
      (union : viewId ∈ w.unionViews)
      (step : (steps config C).step w
        (.installUnion viewId revision generation membership scanned watermarks) w') :
      CaughtUp config C viewId w'

/-- The steps in which the sources rest and those with records are mapped. -/
def Settles (high : SourceId → Option ℕ) (viewId : String) (w : World (Definition T) R M)
    (e : Event (Definition T) R M) : Prop :=
  Quiet high viewId w e ∧ Mapped high viewId w e

theorem sound_run (h : ((adapter config).only Monotonic).Run .new es w) : Sound w :=
  h.invariant_only sound_new fun _ _ _ hsound hmono hst => hsound.step hmono hst

theorem Sound.run {C : World (Definition T) R M → Event (Definition T) R M → Prop}
    (hsound : Sound w) (h : (steps config C).Run w es w') : Sound w' :=
  h.invariant_only hsound fun _ _ _ hsound hC hst => hsound.step hC.1 hst

/-- **What is in flight was published in the run**, once the updates of its start are applied. -/
theorem current_run (h : (steps config (Settles high viewId)).Run w es w') :
    ∀ update ∈ w'.updates.drop (w.updates.length - es.countP Event.applies),
      Current high viewId update := by
  induction h with
  | nil => simp
  | @snoc es w₁ e w₂ hrun hst ih =>
    intro update hupdate
    rw [countP_append] at hupdate
    rcases sent_current hst.1.2.1 hst.1.2.2 hst.2 with ⟨hno, hsame⟩ | ⟨happlies, hpopped⟩ |
      ⟨sent, hsent, hno, hcurrent⟩
    · rw [countP_singleton, hno, hsame] at hupdate
      exact ih update hupdate
    · rw [countP_singleton, happlies, hpopped, ← drop_one, drop_drop] at hupdate
      refine ih update (drop_subset_drop_left _ ?_ hupdate)
      simp only [if_true]
      omega
    · rw [countP_singleton, hno, hsent, drop_append] at hupdate
      rcases mem_append.1 hupdate with hold | hnew
      · exact ih update hold
      · exact mem_singleton.1 (mem_of_mem_drop hnew) ▸ hcurrent

theorem stands_caughtUp (h : CaughtUp config (Settles high viewId) viewId w) :
    Sound w ∧ Stands high viewId w := by
  cases h with
  | @query es₀ es w₀ w _ raw rest request published scanned watermarks diagnostic token scope view
      hreached hrun hdrained hfirst hof hmem hdesired hst happlied =>
    have hsound := (sound_run hreached).run hrun
    have hcurrent : ∀ update ∈ w.updates, Current high viewId update := by
      have hall := current_run hrun
      rwa [Nat.sub_eq_zero_of_le hdrained, drop_zero] at hall
    refine ⟨hsound.step (e := .apply raw) trivial hst, fun view' hview' hfiltered => ?_,
      fun _ update hupdate => ?_⟩
    · subst hof
      cases happlied.symm.trans hview'
      exact behind_publish hsound hfirst hmem hdesired (fun _ => hcurrent) hfiltered
    · have hquiet : Quiet high viewId w (.apply raw) := trivial
      rcases sent_current hquiet trivial hst with ⟨hno, -⟩ | ⟨-, hpopped⟩ | ⟨_, _, hno, _⟩
      · exact absurd hno (by simp [Event.applies])
      · exact hcurrent update (mem_of_mem_tail (hpopped ▸ hupdate))
      · exact absurd hno (by simp [Event.applies])
  | @union es₀ w₀ _ revision generation scanned membership watermarks hreached hunion hst =>
    have hsound := sound_run hreached
    have hkept := union_kept hst.1.2.1 hst.2 hunion
    refine ⟨hsound.step hst.1.1 hst.2, fun view' hview' _ => ?_, fun hnot => absurd hkept hnot⟩
    have hnext : (if viewId ∈ w₀.unionViews then some (installUnion w₀ viewId revision generation
        membership scanned watermarks) else none) = some w := hst.2
    rw [if_pos hunion] at hnext
    cases hnext
    unfold installUnion at hview'
    cases hview : w₀.views.lookup viewId with
    | none =>
      simp only [hview] at hview'
      exact absurd hview' (by simp)
    | some view =>
      simp only [hview, lookup_put, if_true] at hview'
      cases hview'
      rw [hst.1.2.1 rfl view hview]
      exact behind_installed

/-- **A settled view stops refreshing.** -/
theorem caughtUp_rests {es : List (Event (Definition T) R M)}
    (h : CaughtUp config (Settles high viewId) viewId w)
    (hrun : (steps config (Settles high viewId)).Run w es w') :
    refresh config w' viewId high = w' := by
  obtain ⟨hsound, hstands⟩ := stands_caughtUp h
  have hkept : Sound w' ∧ Stands high viewId w' :=
    hrun.invariant_only (I := fun w => Sound w ∧ Stands high viewId w) ⟨hsound, hstands⟩
      fun _ _ _ hinv hC hst =>
      ⟨hinv.1.step hC.1 hst, hinv.2.step hinv.1 hC.2.1 hC.2.2 hst⟩
  unfold refresh
  cases hview : w'.views.lookup viewId with
  | none => rfl
  | some view =>
    simp only
    split_ifs with hrefreshes
    · have hfiltered := (hkept.1.views viewId view hview).ready hrefreshes.1
      exact absurd hrefreshes.2.2.1 (by simp [hkept.2.view view hview hfiltered])
    · rfl

end

/-! ### A view of two sources -/

/-- A view of two sources, and no room for more. -/
def pairConfig : ViewConfig := ⟨1, 1, 1, 1, 2⟩

/-- Each source has one record. -/
def pairHigh (_ : SourceId) : Option ℕ := some 0

/-- A correlation that maps the source `a` only. -/
def halfCorrelation : FieldCorrelation where
  originField := ⟨"id", by decide⟩
  value := .null
  sources := ⟨⟨[(⟨"a", by decide⟩, ⟨"id", by decide⟩)], by decide⟩, by simp⟩
  origin := by decide +kernel
  nonempty := by simp
  few := by decide
  mapped := by decide +kernel

/-- A search for a text, with a correlation. -/
def pairRequest (correlation : Option FieldCorrelation) :
    QueryRequest (Definition String) String where
  viewId := "v"
  generation := 0
  revision := 1
  baseRevision := 0
  baseConstraints := ⟨default, []⟩
  purpose := .search
  constraints := ⟨⟨some "text", none, [], none, none, correlation⟩, []⟩

/-- The query is taken up. -/
def pairStart (correlation : Option FieldCorrelation) :
    List (Event (Definition String) String String) :=
  [.registerSource "a" (.ok ()), .registerSource "b" (.ok ()),
    .registerView "v" ["a", "b"] (.ok ()), .submit (pairRequest correlation) none, .receive, .start]

/-- Its publication. -/
def pairPublish (correlation : Option FieldCorrelation) :
    Event (Definition String) String String :=
  .publish (.filtered "rows") 2 (watermarksOf correlation pairHigh ["a", "b"]) none

/-- The worlds in which the query runs, has published and is applied. -/
def pairWorlds (correlation : Option FieldCorrelation) :
    Option (World (Definition String) String String × World (Definition String) String String ×
      World (Definition String) String String) :=
  ((pairStart correlation).foldlM (fun w e => if Monotonic w e then World.next pairConfig w e
    else none) World.new).bind fun w₀ => (World.next pairConfig w₀ (pairPublish correlation)).bind
      fun w => (World.next pairConfig w (.apply (.ok ()))).map fun w' => (w₀, w, w')

/-- What is used of the three worlds. -/
structure PairFacts (correlation : Option FieldCorrelation)
    (worlds : World (Definition String) String String × World (Definition String) String String ×
      World (Definition String) String String) : Prop where
  waiting : worlds.1.updates = []
  running : worlds.1.worker = .running ⟨pairRequest correlation, ["a", "b"], ("v", 3)⟩
  first : worlds.2.1.updates = [.publish (pairRequest correlation) (.filtered "rows") 2
    (watermarksOf correlation pairHigh ["a", "b"]) none ("v", 3) ["a", "b"]]
  applied : ∃ view, worlds.2.1.views.lookup "v" = some view ∧ view.desiredRevision = 1 ∧
    worlds.2.2.views.lookup "v" = some (view.publish (pairRequest correlation) (.filtered "rows") 2
      (watermarksOf correlation pairHigh ["a", "b"]) none)

theorem pairFacts (correlation : Option FieldCorrelation) :
    ∃ worlds, pairWorlds correlation = some worlds ∧ PairFacts correlation worlds :=
  ⟨_, rfl, rfl, rfl, rfl, _, rfl, rfl, rfl⟩

/-- The publication is what the worker finds, and is applied. -/
theorem pair_caughtUp {correlation : Option FieldCorrelation}
    {C : World (Definition String) String String → Event (Definition String) String String → Prop}
    (hC : ∀ w e, Quiet pairHigh "v" w e → e = pairPublish correlation →
      (∀ job, w.worker = .running job → job.request = pairRequest correlation ∧
        job.sources = ["a", "b"]) → C w e) :
    ∃ w, pairWorlds correlation = some w ∧ CaughtUp pairConfig C "v" w.2.2 := by
  obtain ⟨⟨w₀, w, w'⟩, hworlds, hfacts⟩ := pairFacts correlation
  have hends := hworlds
  unfold pairWorlds at hends
  obtain ⟨v₀, hrun, hends⟩ := Option.bind_eq_some_iff.1 hends
  obtain ⟨v, hpublish, hends⟩ := Option.bind_eq_some_iff.1 hends
  obtain ⟨v', happly, heq⟩ := Option.map_eq_some_iff.1 hends
  cases heq
  have hrunning := hfacts.running
  obtain ⟨view, hmem, hdesired, happlied⟩ := hfacts.applied
  have hquiet : Quiet pairHigh "v" w₀ (pairPublish correlation) := by
    intro job hjob _
    cases hrunning.symm.trans hjob
    exact ⟨by simp, rfl⟩
  have hmeets : C w₀ (pairPublish correlation) := by
    refine hC w₀ _ hquiet rfl fun job hjob => ?_
    cases hrunning.symm.trans hjob
    exact ⟨rfl, rfl⟩
  have hstep : (steps pairConfig C).step w₀ (pairPublish correlation) w :=
    ⟨⟨show Monotonic w₀ (pairPublish correlation) from trivial, hmeets⟩, hpublish⟩
  refine ⟨_, hworlds, .query (Machine.run_only_ofFun hrun) (.single hstep) ?_ hfacts.first rfl hmem
    hdesired happly happlied⟩
  rw [show w₀.updates = [] from hfacts.waiting]
  exact Nat.zero_le _

/-- Without a correlation all sources are scanned. -/
theorem caughtUp_rests_pair : ∃ w, (pairWorlds none).map (·.2.2) = some w ∧
    refresh pairConfig w "v" pairHigh = w := by
  have hsettles : ∀ w e, Quiet pairHigh "v" w e → e = pairPublish none →
      (∀ job, w.worker = .running job → job.request = pairRequest none ∧ job.sources = ["a", "b"]) →
      Settles pairHigh "v" w e := by
    rintro w e hquiet rfl hjob
    refine ⟨hquiet, fun job hworker _ source _ _ => ?_⟩
    rw [(hjob job hworker).1]
    rfl
  obtain ⟨worlds, hworlds, hcaught⟩ := pair_caughtUp hsettles
  exact ⟨worlds.2.2, by rw [hworlds]; rfl, caughtUp_rests hcaught .nil⟩

/-- **A source that is not mapped is never noted**: the view has caught up, and is refreshed all the
same. -/
theorem unmapped_refreshes : ¬ ∀ (config : ViewConfig) (high : SourceId → Option ℕ)
    (viewId : String) (w w' : World (Definition String) String String)
    (es : List (Event (Definition String) String String)),
    CaughtUp config (Quiet high viewId) viewId w → (steps config (Quiet high viewId)).Run w es w' →
      refresh config w' viewId high = w' := by
  intro hall
  have hquiets : ∀ w e, Quiet pairHigh "v" w e → e = pairPublish (some halfCorrelation) →
      (∀ job, w.worker = .running job → job.request = pairRequest (some halfCorrelation) ∧
        job.sources = ["a", "b"]) → Quiet pairHigh "v" w e := fun _ _ hquiet _ _ => hquiet
  obtain ⟨worlds, hworlds, hcaught⟩ := pair_caughtUp hquiets
  have hsame := hall pairConfig pairHigh "v" _ _ [] hcaught .nil
  have hqueue : (pairWorlds (some halfCorrelation)).map (fun worlds =>
      (worlds.2.2.queue.length, (refresh pairConfig worlds.2.2 "v" pairHigh).queue.length)) =
        some (0, 1) := by decide +kernel
  rw [hworlds] at hqueue
  have hlengths := Option.some.inj hqueue
  simp only [hsame, Prod.mk.injEq] at hlengths
  omega

end Lvu.View.Adapter
