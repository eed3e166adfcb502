import Mathlib.Data.Nat.Find
import Mathlib.Order.Monotone.Basic
import Mathlib.Tactic.Common

/-! # A gate that remembers the value of the last event it let through

    Events happen at instants `0, 1, 2, …`; each carries a value.  The gate
    lets the first event through, remembers its value, and from then on lets
    an event through exactly when its value is DUE after the remembered one,
    which it then replaces.

    Over it stands what such a gate is for: with the instants divided into
    periods, after each event let through another one follows, and the next
    one of a later period is the first event at a given distance in periods.
    The rules below prove and refute that from single events: the next event
    is due (`keeps`), no event is due ever again (`stuck`), an event far
    enough away is passed over (`missed`), or one too near is let through
    (`early`). -/

namespace N8nValueGate

/-- What the gate lets through and remembers. -/
structure Gate (α : Type) where
  fires : ℕ → Bool
  value : ℕ → α
  due : α → α → Bool

/-- After each accepted event the next one of a later period is the first
    event at least `size` periods away, and events never stop being
    accepted. -/
structure KeepsFiring (fires : ℕ → Prop) (accepted : ℕ → ℕ → Prop)
    (period : ℕ → ℕ) (size : ℤ) : Prop where
  next : ∀ start t, accepted start t → ∃ v, t < v ∧ accepted start v ∧
    period t < period v ∧ size ≤ (period v : ℤ) - period t ∧
    ∀ u, t < u → u < v → period t < period u →
      ¬ accepted start u ∧ (fires u → (period u : ℤ) - period t < size)
  live : ∀ start t, start ≤ t → fires t → ∃ v, t ≤ v ∧ accepted start v

/-- When every event is accepted, one in each later period is enough. -/
theorem KeepsFiring.of_all {fires : ℕ → Prop} {accepted : ℕ → ℕ → Prop}
    {period : ℕ → ℕ} (hall : ∀ start t, accepted start t ↔ start ≤ t ∧ fires t)
    (hmono : Monotone period)
    (hmore : ∀ t, fires t → ∃ v, fires v ∧ period t < period v) :
    KeepsFiring fires accepted period 1 where
  next := by
    classical
    intro start t hacc
    obtain ⟨hstart, hfires⟩ := (hall start t).mp hacc
    have hex := hmore t hfires
    obtain ⟨hv, hlater⟩ := Nat.find_spec hex
    have htv : t < Nat.find hex := hmono.reflect_lt hlater
    refine ⟨Nat.find hex, htv, (hall _ _).mpr ⟨by omega, hv⟩, hlater, by omega, ?_⟩
    intro u _ huv hu
    have hnot : ¬ fires u := fun h => Nat.find_min hex huv ⟨h, hu⟩
    exact ⟨fun h => hnot ((hall start u).mp h).2, fun h => absurd h hnot⟩
  live := fun start t hle hfires =>
    ⟨t, le_refl t, (hall start t).mpr ⟨hle, hfires⟩⟩

/-- Where nothing fires, nothing is lost. -/
theorem KeepsFiring.of_none {fires : ℕ → Prop} {accepted : ℕ → ℕ → Prop}
    {period : ℕ → ℕ} {size : ℤ} (hsub : ∀ start t, accepted start t → fires t)
    (hnone : ∀ t, ¬ fires t) : KeepsFiring fires accepted period size where
  next := fun start t hacc => absurd (hsub start t hacc) (hnone t)
  live := fun _ t _ hfires => absurd hfires (hnone t)

variable {α : Type} (g : Gate α)

namespace Gate

/-- Whether the event at `t` passes a gate that holds `held`. -/
def passes (held : Option α) (t : ℕ) : Bool :=
  g.fires t && held.elim true fun last => g.due last (g.value t)

/-- What the gate, opened at `start`, holds `n` instants later. -/
def held (start : ℕ) : ℕ → Option α
  | 0 => none
  | n + 1 =>
    if g.passes (held start n) (start + n) then some (g.value (start + n))
    else held start n

/-- The gate opened at `start` lets the event at `t` through. -/
def Accepted (start t : ℕ) : Prop := start ≤ t ∧ g.passes (g.held start (t - start)) t = true

variable {g} {start t u v : ℕ}

theorem Accepted.fires (h : g.Accepted start t) : g.fires t = true :=
  (Bool.and_eq_true_iff.mp h.2).1

theorem held_succ (h : start ≤ t) : g.held start (t + 1 - start)
    = if g.passes (g.held start (t - start)) t then some (g.value t)
      else g.held start (t - start) := by
  rw [Nat.succ_sub h, held, Nat.add_sub_cancel' h]

theorem Accepted.held_succ (h : g.Accepted start t) :
    g.held start (t + 1 - start) = some (g.value t) := by
  rw [N8nValueGate.Gate.held_succ h.1, if_pos h.2]

theorem held_succ_of_not (hle : start ≤ t) (h : ¬ g.Accepted start t) :
    g.held start (t + 1 - start) = g.held start (t - start) := by
  rw [held_succ hle, if_neg fun hp => h ⟨hle, hp⟩]

/-- The gate holds nothing until it has let something through. -/
theorem held_eq_none (hle : start ≤ t) (hnone : ∀ u, start ≤ u → u < t → ¬ g.Accepted start u) :
    g.held start (t - start) = none := by
  induction t, hle using Nat.le_induction with
  | base => rw [Nat.sub_self, held]
  | succ t hle ih =>
    rw [held_succ_of_not hle (hnone t hle (Nat.lt_succ_self t))]
    exact ih fun u hu hut => hnone u hu (Nat.lt_succ_of_lt hut)

/-- Some event has been let through once one has happened. -/
theorem exists_accepted (hle : start ≤ t) (hfires : g.fires t = true) :
    ∃ u, u ≤ t ∧ g.Accepted start u := by
  by_contra hnone
  have hheld := held_eq_none (g := g) hle fun u _ hut hacc => hnone ⟨u, hut.le, hacc⟩
  refine hnone ⟨t, le_refl t, hle, ?_⟩
  rw [hheld, passes, hfires]
  rfl

theorem accepted_start (hfires : g.fires start = true) : g.Accepted start start := by
  obtain ⟨u, hu, hacc⟩ := exists_accepted (g := g) (le_refl start) hfires
  rwa [le_antisymm hu hacc.1] at hacc

section

variable (h : g.Accepted start t) (htu : t < u)
  (hsame : ∀ v, t < v → v < u → g.Accepted start v → g.value v = g.value t)
include h htu hsame

/-- What the gate holds does not change while all it lets through carries the
    same value. -/
theorem Accepted.held_of_same : g.held start (u - start) = some (g.value t) := by
  induction u, htu using Nat.le_induction with
  | base => exact h.held_succ
  | succ u htu ih =>
    have hle : start ≤ u := h.1.trans (Nat.le_of_lt htu)
    by_cases hacc : g.Accepted start u
    · rw [hacc.held_succ, hsame u htu (Nat.lt_succ_self u) hacc]
    · rw [held_succ_of_not hle hacc]
      exact ih fun v htv hvu => hsame v htv (Nat.lt_succ_of_lt hvu)

/-- **ONE STEP OF THE GATE**: after `t`, and after nothing of another value,
    the event at `u` is let through when its value is due after `t`'s. -/
theorem Accepted.accepted_iff :
    g.Accepted start u ↔ g.fires u = true ∧ g.due (g.value t) (g.value u) = true := by
  have hheld := h.held_of_same htu hsame
  have hle : start ≤ u := h.1.trans htu.le
  rw [Accepted, hheld, passes, Bool.and_eq_true]
  exact and_iff_right hle

end

/-- **A RUN OF THE GATE**: while every event that is due carries `t`'s own
    value, what is let through carries that value and is due after it. -/
theorem Accepted.run (h : g.Accepted start t) (hdue : ∀ v, t < v → v ≤ u → g.fires v = true →
      g.due (g.value t) (g.value v) = true → g.value v = g.value t) :
    ∀ v, t < v → v ≤ u → g.Accepted start v → g.value v = g.value t ∧ g.due (g.value t)
    (g.value v) = true := by
  intro v
  induction v using Nat.strong_induction_on with
  | h v ih =>
    intro htv hvu hacc
    have hstep := (h.accepted_iff htv fun w htw hwv hw =>
      (ih w hwv htw (hwv.le.trans hvu) hw).1).mp hacc
    exact ⟨hdue v htv hvu hstep.1 hstep.2, hstep.2⟩

variable {period : ℕ → ℕ} {size : ℤ}

/-- The gate keeps firing over its own events. -/
def Keeps (g : Gate α) (period : ℕ → ℕ) (size : ℤ) : Prop :=
  KeepsFiring (fun t => g.fires t = true) g.Accepted period size

/-- After one accepted event there is one at or after any instant. -/
theorem exists_later (hnext : ∀ t, g.Accepted start t → ∃ v, t < v ∧ g.Accepted start v)
    (h : g.Accepted start t) (u : ℕ) : ∃ v, u ≤ v ∧ g.Accepted start v := by
  induction u with
  | zero => exact ⟨t, Nat.zero_le t, h⟩
  | succ u ih =>
    obtain ⟨v, huv, hv⟩ := ih
    obtain ⟨w, hvw, hw⟩ := hnext v hv
    exact ⟨w, huv.trans_lt hvw, hw⟩

/-- **THE POSITIVE RULE**: the next event after each one lies `size` periods
    on and is due. -/
theorem keeps (h : ∀ t, g.fires t = true → ∃ v, t < v ∧ g.fires v = true ∧
      g.due (g.value t) (g.value v) = true ∧ period t < period v ∧
      size ≤ (period v : ℤ) - period t ∧ ∀ u, t < u → u < v → g.fires u = false) :
    g.Keeps period size := by
  have hnext : ∀ start t, g.Accepted start t → ∃ v, t < v ∧ g.Accepted start v ∧
      period t < period v ∧ size ≤ (period v : ℤ) - period t ∧
      ∀ u, t < u → u < v → period t < period u → ¬ g.Accepted start u ∧
        (g.fires u = true → (period u : ℤ) - period t < size) := by
    intro start t hacc
    obtain ⟨v, htv, hv, hdue, hlater, hsize, hquiet⟩ := h t hacc.fires
    have hnone : ∀ u, t < u → u < v → ¬ g.Accepted start u := by
      intro u htu huv hu
      exact Bool.false_ne_true ((hquiet u htu huv).symm.trans hu.fires)
    have hacc' : g.Accepted start v := (hacc.accepted_iff htv
      fun u htu huv hu => absurd hu (hnone u htu huv)).mpr ⟨hv, hdue⟩
    refine ⟨v, htv, hacc', hlater, hsize, fun u htu huv _ => ⟨hnone u htu huv, ?_⟩⟩
    intro hfires
    exact absurd ((hquiet u htu huv).symm.trans hfires) Bool.false_ne_true
  refine ⟨hnext, fun start t hle hfires => ?_⟩
  obtain ⟨u, _, hu⟩ := exists_accepted hle hfires
  refine exists_later (fun t hacc => ?_) hu t
  obtain ⟨v, htv, hv, _⟩ := hnext start t hacc
  exact ⟨v, htv, hv⟩

/-- **STUCK**: no later event is ever due. -/
theorem not_keeps_of_stuck (hacc : g.Accepted start t)
    (hnone : ∀ v, t < v → g.fires v = true → g.due (g.value t) (g.value v) = false) :
    ¬ g.Keeps period size := by
  intro hkeeps
  obtain ⟨v, htv, hv, _⟩ := hkeeps.next start t hacc
  have hrun := hacc.run (u := v) fun w htw _ hw hdue =>
    absurd ((hnone w htw hw).symm.trans hdue) Bool.false_ne_true
  exact Bool.false_ne_true ((hnone v htv hv.fires).symm.trans (hrun v htv (le_refl v) hv).2)

/-- **MISSED**: an event far enough away comes before any of a later period
    that is due. -/
theorem not_keeps_of_missed (hacc : g.Accepted start t) (htu : t < u) (hu : g.fires u = true)
    (hlater : period t < period u) (hfar : size ≤ (period u : ℤ) - period t)
    (hdue : ∀ v, t < v → v ≤ u → g.fires v = true →
      g.due (g.value t) (g.value v) = true → g.value v = g.value t)
    (hchange : ∀ v, t < v → v ≤ u → period t < period v → g.value v ≠ g.value t) :
    ¬ g.Keeps period size := by
  intro hkeeps
  obtain ⟨v, htv, hv, hlate, _, hbetween⟩ := hkeeps.next start t hacc
  rcases Nat.lt_or_ge u v with huv | hvu
  · have hnear := (hbetween u htu huv hlater).2 hu
    omega
  · exact hchange v htv hvu hlate (hacc.run hdue v htv hvu hv).1

/-- **EARLY**: an event of a later period is due while still too near. -/
theorem not_keeps_of_early (hmono : Monotone period) (hacc : g.Accepted start t)
    (htu : t < u) (hu : g.fires u = true) (hlater : period t < period u)
    (hnear : (period u : ℤ) - period t < size) (hdue : g.due (g.value t) (g.value u) = true)
    (hsame : ∀ v, t < v → v < u → period v = period t → g.value v = g.value t) :
    ¬ g.Keeps period size := by
  intro hkeeps
  obtain ⟨v, htv, hv, hlate, hfar, hbetween⟩ := hkeeps.next start t hacc
  have huv : u < v := by
    by_contra hvu
    have h := hmono (Nat.not_lt.mp hvu)
    omega
  refine (hbetween u htu huv hlater).1
    ((hacc.accepted_iff htu fun w htw hwu hw => ?_).mpr ⟨hu, hdue⟩)
  refine hsame w htw hwu (le_antisymm (Nat.not_lt.mp fun hlt => ?_) (hmono htw.le))
  exact (hbetween w htw (hwu.trans huv) hlt).1 hw

end Gate

end N8nValueGate
