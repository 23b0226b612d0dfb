import Lvu.Shared.Sources
import Mathlib.Algebra.Group.Nat.Defs
import Mathlib.Data.List.TakeWhile
import Mathlib.Order.Nat

/-!
# Restart budgets and backoff

The arithmetic that command restarts and HTTP reconnection share (`lvu-core/src/restart.rs`): a
window of the attempts made, and a delay that doubles up to a ceiling.  Instants and durations are
in nanoseconds.

* `Backoff.delay_le` : no delay exceeds the configured maximum, or `MAXIMUM_BACKOFF`.
* `budget_iff` : **when no window of time holds more attempts than the budget**.  The window
  remembers `MAXIMUM_TRACKED_ATTEMPTS`; a larger budget is never spent.
-/

namespace Lvu

open List

open Shared (RestartPolicy)

namespace Restart

/-- `MAXIMUM_BACKOFF`: 300 s. -/
def MAXIMUM_BACKOFF : ℕ := 300 * 1000000000

def MAXIMUM_TRACKED_ATTEMPTS : ℕ := 1024

/-- The nanoseconds of a millisecond. -/
def milli : ℕ := 1000000

structure Backoff where
  initial : ℕ
  maximum : ℕ
  jitterPercent : UInt8

namespace Backoff

/-- `Backoff::base_delay`.  Durations are scaled in whole milliseconds. -/
def baseDelay (b : Backoff) (attempt : UInt32) : ℕ :=
  let ceiling := min b.maximum MAXIMUM_BACKOFF
  if attempt ≤ 1 then min b.initial ceiling
  else
    let shift := min (attempt - 1).toNat 32
    let scaled := min (min (b.initial / milli * 2 ^ shift) (2 ^ 128 - 1)) (2 ^ 64 - 1)
    min (scaled * milli) ceiling

/-- `Backoff::delay_with_jitter`: a part of the delay is taken away. -/
def delayWithJitter (b : Backoff) (attempt fraction : UInt32) : ℕ :=
  let base := b.baseDelay attempt
  let percent := min b.jitterPercent.toNat 100
  let fraction := min fraction.toNat 10000
  let millis := base / milli
  let removed := millis * percent * fraction / (100 * 10000)
  min (millis - removed) (2 ^ 64 - 1) * milli

end Backoff

structure Jitter where
  state : UInt64

namespace Jitter

def fromSeed (seed : UInt64) : Jitter := ⟨seed ||| 1⟩

/-- `Jitter::next_fraction` (splitmix64), and the generator after it. -/
def nextFraction (j : Jitter) : UInt32 × Jitter :=
  let state := j.state + 0x9E3779B97F4A7C15
  let z := (state ^^^ (state >>> 30)) * 0xBF58476D1CE4E5B9
  let z := (z ^^^ (z >>> 27)) * 0x94D049BB133111EB
  let z := z ^^^ (z >>> 31)
  ((z % 10001).toUInt32, ⟨state⟩)

end Jitter

def Backoff.delay (b : Backoff) (attempt : UInt32) (jitter : Jitter) : ℕ × Jitter :=
  let (fraction, jitter) := jitter.nextFraction
  (b.delayWithJitter attempt fraction, jitter)

structure AttemptWindow where
  maximum : UInt32
  window : ℕ
  attempts : List ℕ
  attempts_le : attempts.length ≤ MAXIMUM_TRACKED_ATTEMPTS

namespace AttemptWindow

def new (maximum : UInt32) (window : ℕ) : AttemptWindow := ⟨maximum, window, [], Nat.zero_le _⟩

def expire (w : AttemptWindow) (now : ℕ) : AttemptWindow :=
  { w with
    attempts := w.attempts.dropWhile fun oldest => w.window ≤ now - oldest
    attempts_le := Nat.le_trans (dropWhile_suffix _).length_le w.attempts_le }

def used (w : AttemptWindow) (now : ℕ) : UInt32 × AttemptWindow :=
  let w := w.expire now
  (UInt32.ofNat w.attempts.length, w)

def permits (w : AttemptWindow) (now : ℕ) : Bool × AttemptWindow :=
  let (used, w) := w.used now
  (used < w.maximum, w)

/-- The tail of `AttemptWindow::record`: at the cap the oldest attempt makes room. -/
def remember (w : AttemptWindow) (now : ℕ) : AttemptWindow :=
  { w with
    attempts := (if MAXIMUM_TRACKED_ATTEMPTS ≤ w.attempts.length then w.attempts.tail
      else w.attempts) ++ [now]
    attempts_le := by
      have := w.attempts_le
      split_ifs with h <;> simp [MAXIMUM_TRACKED_ATTEMPTS] at * <;> omega }

def record (w : AttemptWindow) (now : ℕ) : AttemptWindow := (w.expire now).remember now

end AttemptWindow

inductive RestartDecision
  | policyDeclines
  | budgetExhausted (used maximum : UInt32)
  | restart (attempt : UInt32) (delay : ℕ)

/-- A window of attempts and the jitter drawn beside it. -/
structure State where
  window : AttemptWindow
  jitter : Jitter

/-- The end of `decide_restart`, which `run_http` has as well: an attempt is recorded if the window
permits one, and delayed. -/
def attempt (backoff : Backoff) (s : State) (now : ℕ) : RestartDecision × State :=
  let (permitted, window) := s.window.permits now
  if permitted then
    let (attempt, window) := (window.record now).used now
    let (delay, jitter) := backoff.delay attempt s.jitter
    (.restart attempt delay, ⟨window, jitter⟩)
  else
    let (used, window) := window.used now
    (.budgetExhausted used window.maximum, { s with window })

/-- Whether the policy restarts a run that ended so. -/
def restarts (policy : RestartPolicy) (success : Option Bool) : Bool :=
  match policy with
  | .never => false
  | .onFailure => !success.getD false
  | .always => true

def decideRestart (policy : RestartPolicy) (success : Option Bool) (backoff : Backoff) (s : State)
    (now : ℕ) : RestartDecision × State :=
  if restarts policy success then attempt backoff s now else (.policyDeclines, s)

/-- What the owner of a window asks of it. -/
inductive Call
  /-- `run_command_supervised`: a run ended. -/
  | decide (policy : RestartPolicy) (success : Option Bool)
  /-- `run_http`: a connection ended. -/
  | reconnect
  /-- `permits` alone. -/
  | permits

/-- What a call answers. -/
def call (backoff : Backoff) (s : State) (c : Call) (now : ℕ) : RestartDecision × State :=
  match c with
  | .decide policy success => decideRestart policy success backoff s now
  | .reconnect => attempt backoff s now
  | .permits => (.policyDeclines, { s with window := (s.window.permits now).2 })

/-- An attempt that was granted: when, and after which delay it is made. -/
structure Grant where
  instant : ℕ
  delay : ℕ

/-- The attempt a decision grants. -/
def RestartDecision.grant (now : ℕ) : RestartDecision → List Grant
  | .restart _ delay => [⟨now, delay⟩]
  | _ => []

/-- The attempts that a sequence of calls, each at its instant, is granted. -/
def grants (backoff : Backoff) (s : State) : List (Call × ℕ) → List Grant
  | [] => []
  | (c, now) :: rest =>
    let (decision, s) := call backoff s c now
    decision.grant now ++ grants backoff s rest

/-- The instants do not decrease. -/
def Ordered (calls : List (Call × ℕ)) : Prop := calls.Pairwise fun a b => a.2 ≤ b.2

instance (calls : List (Call × ℕ)) : Decidable (Ordered calls) :=
  inferInstanceAs (Decidable (List.Pairwise _ _))

/-- The attempts made in the half-open interval of length `window` from `start`. -/
def within (start window : ℕ) (gs : List Grant) : List Grant :=
  gs.filter fun g => start ≤ g.instant ∧ g.instant < start + window

/-! ### Delays -/

theorem Backoff.baseDelay_le (b : Backoff) (attempt : UInt32) :
    b.baseDelay attempt ≤ min b.maximum MAXIMUM_BACKOFF := by
  unfold baseDelay
  split_ifs
  · exact Nat.min_le_right _ _
  · exact Nat.min_le_right _ _

theorem Backoff.delayWithJitter_le (b : Backoff) (attempt fraction : UInt32) :
    b.delayWithJitter attempt fraction ≤ b.baseDelay attempt :=
  calc b.delayWithJitter attempt fraction
      ≤ b.baseDelay attempt / milli * milli :=
        Nat.mul_le_mul_right _ (Nat.le_trans (Nat.min_le_left _ _) (Nat.sub_le _ _))
    _ ≤ b.baseDelay attempt := Nat.div_mul_le_self _ _

/-- **No delay exceeds the ceiling**, whatever is drawn. -/
theorem Backoff.delay_le (b : Backoff) (attempt : UInt32) (jitter : Jitter) :
    (b.delay attempt jitter).1 ≤ min b.maximum MAXIMUM_BACKOFF :=
  (b.delayWithJitter_le _ _).trans (b.baseDelay_le _)

/-! ### What a window remembers -/

namespace AttemptWindow

variable {w : AttemptWindow} {last now : ℕ} {made : List ℕ}

@[simp] theorem expire_window (w : AttemptWindow) (now : ℕ) : (w.expire now).window = w.window := rfl

theorem used_toNat (w : AttemptWindow) (now : ℕ) :
    (w.used now).1.toNat = (w.expire now).attempts.length := by
  have h := (w.expire now).attempts_le
  simp only [MAXIMUM_TRACKED_ATTEMPTS] at h
  simp only [used, UInt32.toNat_ofNat']
  omega

theorem permits_iff (w : AttemptWindow) (now : ℕ) :
    (w.permits now).1 = true ↔ (w.expire now).attempts.length < w.maximum.toNat := by
  have h : (w.permits now).1 = true ↔ (w.used now).1 < w.maximum := decide_eq_true_iff
  rw [h, UInt32.lt_iff_toNat_lt, used_toNat]

/-- Of the attempts made, those the window does not hold are older than its length. -/
def Remembers (w : AttemptWindow) (last : ℕ) (made : List ℕ) : Prop :=
  ∃ dropped, made = dropped ++ w.attempts ∧ ∀ t ∈ dropped, t + w.window ≤ last

theorem remembers_new (maximum : UInt32) (window last : ℕ) : (new maximum window).Remembers last [] :=
  ⟨[], rfl, fun _ h => absurd h not_mem_nil⟩

theorem Remembers.expire (h : w.Remembers last made) (hlast : last ≤ now)
    (hmade : ∀ t ∈ made, t ≤ now) : (w.expire now).Remembers now made := by
  obtain ⟨dropped, rfl, hdropped⟩ := h
  let expired := fun oldest => decide (w.window ≤ now - oldest)
  refine ⟨dropped ++ w.attempts.takeWhile expired, ?_, fun t ht => ?_⟩
  · rw [append_assoc]
    exact congrArg (dropped ++ ·) takeWhile_append_dropWhile.symm
  · rcases mem_append.1 ht with ht | ht
    · exact (hdropped t ht).trans hlast
    · have hle : w.window ≤ now - t := by
        simpa [expired] using mem_takeWhile_imp ht
      have := hmade t (mem_append_right _ (takeWhile_subset _ ht))
      simp only [expire_window]
      omega

theorem Remembers.remember (h : w.Remembers last made)
    (hroom : w.attempts.length < MAXIMUM_TRACKED_ATTEMPTS) :
    (w.remember now).Remembers last (made ++ [now]) := by
  obtain ⟨dropped, rfl, hdropped⟩ := h
  have hkept : (w.remember now).attempts = w.attempts ++ [now] :=
    congrArg (· ++ [now]) (if_neg (Nat.not_le_of_lt hroom))
  exact ⟨dropped, by rw [hkept, append_assoc], hdropped⟩

end AttemptWindow

/-! ### What an attempt does -/

variable {backoff : Backoff} {s s' : State} {now last : ℕ} {decision : RestartDecision}

/-- An attempt is granted while the window has room for it, and recorded; else nothing is. -/
theorem attempt_cases (backoff : Backoff) (s : State) (now : ℕ) :
    let kept := s.window.expire now
    (kept.attempts.length < s.window.maximum.toNat ∧ ∃ number jitter,
      attempt backoff s now = (.restart number (backoff.delay number s.jitter).1,
        ⟨((kept.expire now).remember now).expire now, jitter⟩)) ∨
    (s.window.maximum.toNat ≤ kept.attempts.length ∧ ∃ number,
      attempt backoff s now =
        (.budgetExhausted number s.window.maximum, { s with window := kept.expire now })) := by
  intro kept
  by_cases h : (s.window.permits now).1 = true
  · refine .inl ⟨(s.window.permits_iff now).1 h, ?_⟩
    rw [attempt]
    simp only [h, if_true]
    exact ⟨_, _, rfl⟩
  · refine .inr ⟨Nat.le_of_not_lt fun hlt => h ((s.window.permits_iff now).2 hlt), ?_⟩
    rw [attempt]
    simp only [h]
    exact ⟨_, rfl⟩

/-- The attempts granted stay within the budget of every interval, as long as the window remembers
those that count. -/
structure Within (maximum : UInt32) (window last : ℕ) (gs : List Grant)
    (s : State) : Prop where
  maximum_eq : s.window.maximum = maximum
  window_eq : s.window.window = window
  remembers : s.window.Remembers last (gs.map Grant.instant)
  instant_le : ∀ g ∈ gs, g.instant ≤ last
  within_le : ∀ start, (within start window gs).length ≤ maximum.toNat

variable {maximum : UInt32} {window : ℕ} {gs : List Grant}

theorem Within.expire (h : Within maximum window last gs s) (hlast : last ≤ now) :
    Within maximum window now gs { s with window := s.window.expire now } where
  maximum_eq := h.maximum_eq
  window_eq := h.window_eq
  remembers := h.remembers.expire hlast fun t ht => by
    obtain ⟨g, hg, rfl⟩ := mem_map.1 ht
    exact (h.instant_le g hg).trans hlast
  instant_le g hg := (h.instant_le g hg).trans hlast
  within_le := h.within_le

/-- What an interval that contains `now` counts is remembered. -/
theorem Within.within_le_attempts (h : Within maximum window now gs s) {start : ℕ}
    (hnow : now < start + window) : (within start window gs).length ≤ s.window.attempts.length := by
  obtain ⟨dropped, hmade, hdropped⟩ := h.remembers
  let counts := fun t => decide (start ≤ t ∧ t < start + window)
  have hnone : dropped.filter counts = [] := by
    rw [filter_eq_nil_iff]
    intro t ht
    have := hdropped t ht
    rw [h.window_eq] at this
    simp only [counts, decide_eq_true_eq]
    omega
  have hmap : (within start window gs).map Grant.instant = (gs.map Grant.instant).filter counts := by
    rw [filter_map]
    rfl
  calc (within start window gs).length
      = ((gs.map Grant.instant).filter counts).length := by rw [← hmap, length_map]
    _ = (s.window.attempts.filter counts).length := by
        rw [hmade, filter_append, hnone, nil_append]
    _ ≤ s.window.attempts.length := length_filter_le _ _

/-- An attempt for which there was room. -/
theorem Within.remember (h : Within maximum window now gs s) (jitter : Jitter) (delay : ℕ)
    (hroom : s.window.attempts.length < maximum.toNat)
    (hcap : maximum.toNat ≤ MAXIMUM_TRACKED_ATTEMPTS) :
    Within maximum window now (gs ++ [⟨now, delay⟩]) ⟨s.window.remember now, jitter⟩ where
  maximum_eq := h.maximum_eq
  window_eq := h.window_eq
  remembers := by
    rw [map_append]
    exact h.remembers.remember (hroom.trans_le hcap)
  instant_le g hg := by
    rcases mem_append.1 hg with hg | hg
    · exact h.instant_le g hg
    · exact (congrArg Grant.instant (mem_singleton.1 hg)).le
  within_le start := by
    rw [within, filter_append, length_append]
    by_cases hnow : start ≤ now ∧ now < start + window
    · have hold := h.within_le_attempts hnow.2
      have hnew := length_filter_le
        (fun g : Grant => decide (start ≤ g.instant ∧ g.instant < start + window)) [⟨now, delay⟩]
      rw [length_singleton] at hnew
      rw [within] at hold
      omega
    · rw [filter_cons_of_neg (by simpa using hnow)]
      exact h.within_le start

theorem Within.attempt (backoff : Backoff) (h : Within maximum window last gs s) (hlast : last ≤ now)
    (hcap : maximum.toNat ≤ MAXIMUM_TRACKED_ATTEMPTS) :
    Within maximum window now (gs ++ (attempt backoff s now).1.grant now)
      (attempt backoff s now).2 := by
  rcases attempt_cases backoff s now with ⟨hroom, number, jitter, heq⟩ | ⟨-, number, heq⟩
  · rw [heq]
    have htwice := (h.expire hlast).expire (le_refl now)
    have hlen : (((s.window.expire now).expire now).attempts).length < maximum.toNat :=
      Nat.lt_of_le_of_lt (dropWhile_suffix _).length_le (h.maximum_eq ▸ hroom)
    exact (htwice.remember jitter _ hlen hcap).expire (le_refl now)
  · rw [heq]
    have := (h.expire hlast).expire (le_refl now)
    rwa [← append_nil gs] at this

theorem Within.call (backoff : Backoff) (h : Within maximum window last gs s) (hlast : last ≤ now)
    (hcap : maximum.toNat ≤ MAXIMUM_TRACKED_ATTEMPTS) (c : Call) :
    Within maximum window now (gs ++ (call backoff s c now).1.grant now)
      (call backoff s c now).2 := by
  have hsame : Within maximum window now gs s :=
    { h with
      remembers := by
        obtain ⟨dropped, hmade, hdropped⟩ := h.remembers
        exact ⟨dropped, hmade, fun t ht => (hdropped t ht).trans hlast⟩
      instant_le := fun g hg => (h.instant_le g hg).trans hlast }
  cases c with
  | decide policy success =>
    simp only [Restart.call, decideRestart]
    split
    · exact h.attempt backoff hlast hcap
    · rwa [← append_nil gs] at hsame
  | reconnect => exact h.attempt backoff hlast hcap
  | permits =>
    have := h.expire hlast
    rwa [← append_nil gs] at this

theorem Within.grants (backoff : Backoff) (h : Within maximum window last gs s)
    (hcap : maximum.toNat ≤ MAXIMUM_TRACKED_ATTEMPTS) {calls : List (Call × ℕ)}
    (hordered : Ordered calls) (hlast : ∀ c ∈ calls, last ≤ c.2) :
    ∃ last' s', Within maximum window last' (gs ++ grants backoff s calls) s' := by
  induction calls generalizing last gs s with
  | nil => exact ⟨last, s, by rwa [← append_nil gs] at h⟩
  | cons c calls ih =>
    obtain ⟨hfirst, hrest⟩ := pairwise_cons.1 hordered
    have hstep := h.call backoff (hlast c mem_cons_self) hcap c.1
    obtain ⟨last', s', hrun⟩ := ih hstep hrest hfirst
    exact ⟨last', s', by rwa [append_assoc] at hrun⟩

/-- Whatever is granted is delayed no longer than the ceiling. -/
theorem call_delay_le (backoff : Backoff) (s : State) (c : Call) (now : ℕ) :
    ∀ g ∈ (call backoff s c now).1.grant now, g.delay ≤ min backoff.maximum MAXIMUM_BACKOFF := by
  have hattempt : ∀ g ∈ (attempt backoff s now).1.grant now,
      g.delay ≤ min backoff.maximum MAXIMUM_BACKOFF := by
    rcases attempt_cases backoff s now with ⟨-, number, jitter, heq⟩ | ⟨-, number, heq⟩
    · intro g hg
      rw [heq] at hg
      rw [mem_singleton.1 hg]
      exact backoff.delay_le _ _
    · rw [heq]
      exact fun g hg => absurd hg not_mem_nil
  cases c with
  | decide policy success =>
    simp only [call, decideRestart]
    split
    · exact hattempt
    · exact fun g hg => absurd hg not_mem_nil
  | reconnect => exact hattempt
  | permits => exact fun g hg => absurd hg not_mem_nil

theorem grants_delay_le (backoff : Backoff) (s : State) (calls : List (Call × ℕ)) :
    ∀ g ∈ grants backoff s calls, g.delay ≤ min backoff.maximum MAXIMUM_BACKOFF := by
  induction calls generalizing s with
  | nil => exact fun g hg => absurd hg not_mem_nil
  | cons c calls ih =>
    intro g hg
    rcases mem_append.1 hg with hg | hg
    · exact call_delay_le backoff s c.1 c.2 g hg
    · exact ih _ g hg

/-! ### Larger budgets -/

theorem grants_replicate_reconnect (backoff : Backoff) (s : State) (now n : ℕ)
    (h : MAXIMUM_TRACKED_ATTEMPTS < s.window.maximum.toNat) :
    (grants backoff s (List.replicate n (.reconnect, now))).map Grant.instant = List.replicate n now := by
  induction n generalizing s with
  | zero => rfl
  | succ n ih =>
    rcases attempt_cases backoff s now with ⟨-, number, jitter, heq⟩ | ⟨hfull, -⟩
    · have hcall : call backoff s .reconnect now = _ := heq
      rw [replicate_succ, grants, hcall]
      have htail := ih ⟨((((s.window.expire now).expire now).remember now).expire now), jitter⟩ h
      simp only [RestartDecision.grant, map_append]
      rw [htail]
      rfl
    · exact absurd hfull (Nat.not_le_of_lt ((s.window.expire now).attempts_le.trans_lt h))

theorem length_within_replicate {gs : List Grant} {n now window : ℕ}
    (h : gs.map Grant.instant = List.replicate n now) (hwindow : 0 < window) :
    (within now window gs).length = n := by
  have hall : within now window gs = gs := by
    rw [within, List.filter_eq_self]
    intro g hg
    have hnow : g.instant = now := eq_of_mem_replicate (h ▸ mem_map_of_mem hg)
    simp only [decide_eq_true_eq]
    omega
  rw [hall, ← length_map Grant.instant, h, length_replicate]

/-- **A budget is a bound for every interval exactly if it is no larger than what the window
remembers** (or the intervals are empty); the delays are bounded in any case. -/
theorem budget_iff (backoff : Backoff) (maximum : UInt32) (window : ℕ) :
    (∀ (jitter : Jitter) (calls : List (Call × ℕ)), Ordered calls →
      let gs := grants backoff ⟨.new maximum window, jitter⟩ calls
      (∀ start, (within start window gs).length ≤ maximum.toNat) ∧
        ∀ g ∈ gs, g.delay ≤ min backoff.maximum MAXIMUM_BACKOFF) ↔
    maximum.toNat ≤ MAXIMUM_TRACKED_ATTEMPTS ∨ window = 0 := by
  constructor
  · intro h
    by_contra hneg
    obtain ⟨hcap, hwindow⟩ := not_or.1 hneg
    -- one attempt too many, all of them at once
    let calls := List.replicate (maximum.toNat + 1) (Call.reconnect, 0)
    let gs := grants backoff ⟨.new maximum window, ⟨0⟩⟩ calls
    have hordered : Ordered calls := pairwise_replicate.2 (.inr (le_refl 0))
    have hlen : (within 0 window gs).length = maximum.toNat + 1 :=
      length_within_replicate (grants_replicate_reconnect backoff _ 0 _ (Nat.lt_of_not_le hcap))
        (Nat.pos_of_ne_zero hwindow)
    have hle : (within 0 window gs).length ≤ maximum.toNat := (h ⟨0⟩ calls hordered).1 0
    omega
  · intro h jitter calls hordered gs
    refine ⟨fun start => ?_, grants_delay_le backoff _ calls⟩
    rcases h with hcap | rfl
    · have hnew : Within maximum window 0 [] ⟨.new maximum window, jitter⟩ :=
        ⟨rfl, rfl, AttemptWindow.remembers_new _ _ _, fun _ h => absurd h not_mem_nil,
          fun _ => Nat.zero_le _⟩
      obtain ⟨last, s, hrun⟩ := hnew.grants backoff hcap hordered fun _ _ => Nat.zero_le _
      exact hrun.within_le start
    · have hnone : within start 0 gs = [] := by
        rw [within, filter_eq_nil_iff]
        intro g _
        simp only [decide_eq_true_eq]
        omega
      rw [hnone]
      exact Nat.zero_le _

/-- A budget of 1025 attempts a minute, and 1026 granted at once. -/
theorem budget_exceeded :
    let calls := List.replicate 1026 (Call.reconnect, 0)
    let gs := grants ⟨500 * milli, 30000 * milli, 25⟩ ⟨.new 1025 (60 * 1000000000), ⟨1⟩⟩ calls
    Ordered calls ∧ 1025 < (within 0 (60 * 1000000000) gs).length := by
  intro calls gs
  have hlen : (within 0 (60 * 1000000000) gs).length = 1026 :=
    length_within_replicate (grants_replicate_reconnect _ _ 0 1026 (by decide)) (by decide)
  exact ⟨pairwise_replicate.2 (.inr (le_refl 0)), by rw [hlen]; decide⟩

end Restart
end Lvu
