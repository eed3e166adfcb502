import N8n.RunProofs

/-! # The data-table size check — one fetch for all who ask, and a reset

    A call that finds no fresh size starts a fetch, and calls that come while
    it is pending wait for the same fetch.  A reset clears the three fields,
    but not what a waiting call does when its fetch settles: it stores the
    size, and the time of its own start.

    Size data are named by the fetch that brings them, and the time of a call
    or of a fetch by the number of resets before it.  `validateSize` and
    `getSizeStatus` read the size in the same way, and are one event. -/

namespace N8nSizeValidator

open N8nRun List

structure Fetch where
  epoch : Nat
  resolved : Option Bool
deriving DecidableEq

/-- Where a call stands: it waits for a fetch, perhaps its own, it has read
    size data, or it was rejected with its fetch. -/
inductive Stage where
  | waiting (fetch : Nat) (own : Bool)
  | finished (size : Option Nat)
  | rejected
deriving DecidableEq

structure Call where
  epoch : Nat
  now : Int
  stage : Stage
deriving DecidableEq

structure DataTableSizeValidator where
  lastCheck : Option Int := none
  cachedSizeData : Option Nat := none
  pendingCheck : Option Nat := none
  fetches : List Fetch := []
  calls : List Call := []
  resets : Nat := 0
deriving DecidableEq

inductive Event where
  | call (now : Int)
  | settle (fetch : Nat) (resolved : Bool)
  | resume (call : Nat)
  | reset

namespace DataTableSizeValidator

def shouldRefresh (s : DataTableSizeValidator) (sizeCheckCacheDuration now : Int) : Bool :=
  match s.lastCheck, s.cachedSizeData with
  | some lastCheck, some _ => now - lastCheck ≥ sizeCheckCacheDuration
  | _, _ => true

def addCall (s : DataTableSizeValidator) (now : Int) (stage : Stage) : DataTableSizeValidator :=
  { s with calls := s.calls ++ [{ epoch := s.resets, now, stage }] }

/-- `getCachedSizeData`, up to its `await` or its `return`. -/
def getCachedSizeData (s : DataTableSizeValidator) (sizeCheckCacheDuration now : Int) :
    DataTableSizeValidator :=
  match s.pendingCheck with
  | some fetch => s.addCall now (.waiting fetch false)
  | none =>
    if s.shouldRefresh sizeCheckCacheDuration now then
      let started : DataTableSizeValidator := { s with
        pendingCheck := some s.fetches.length
        fetches := s.fetches ++ [{ epoch := s.resets, resolved := none }] }
      started.addCall now (.waiting s.fetches.length true)
    else s.addCall now (.finished s.cachedSizeData)

def setStage (s : DataTableSizeValidator) (i : Nat) (call : Call) (stage : Stage) :
    DataTableSizeValidator :=
  { s with calls := s.calls.set i { call with stage } }

/-- `getCachedSizeData` behind its `await`, with the `finally` of its own fetch. -/
def resume (s : DataTableSizeValidator) (i : Nat) (call : Call) (fetch : Nat)
    (own resolved : Bool) : DataTableSizeValidator :=
  let pendingCheck := if own then none else s.pendingCheck
  if resolved then
    { s with
      cachedSizeData := some fetch
      lastCheck := if own then some call.now else s.lastCheck
      pendingCheck }.setStage i call (.finished (some fetch))
  else { s with pendingCheck }.setStage i call .rejected

def reset (s : DataTableSizeValidator) : DataTableSizeValidator :=
  { s with
    lastCheck := none, cachedSizeData := none, pendingCheck := none
    resets := s.resets + 1 }

/-- One event, where it can happen. -/
def next (sizeCheckCacheDuration : Int) (s : DataTableSizeValidator) :
    Event → Option DataTableSizeValidator
  | .call now => some (s.getCachedSizeData sizeCheckCacheDuration now)
  | .settle i resolved =>
    match s.fetches[i]? with
    | some { epoch, resolved := none } =>
      some { s with fetches := s.fetches.set i { epoch, resolved := some resolved } }
    | _ => none
  | .resume i =>
    match s.calls[i]? with
    | some call =>
      match call.stage with
      | .waiting fetch own =>
        (s.fetches[fetch]?.bind Fetch.resolved).map (s.resume i call fetch own)
      | _ => none
    | none => none
  | .reset => some s.reset

end DataTableSizeValidator

open DataTableSizeValidator

def Step (sizeCheckCacheDuration : Int) (s : DataTableSizeValidator) (e : Event)
    (t : DataTableSizeValidator) : Prop :=
  s.next sizeCheckCacheDuration e = some t

/-- The fetch was started after so many resets. -/
def StartedAfter (s : DataTableSizeValidator) (resets fetch : Nat) : Prop :=
  ∃ f, s.fetches[fetch]? = some f ∧ resets ≤ f.epoch

/-- Calls read a size fetched after the last reset before them, none finds
    that there is no size, and the call that clears a pending fetch when it
    has failed is still to come. -/
structure Fresh (s : DataTableSizeValidator) : Prop where
  size : ∀ call ∈ s.calls, ∀ fetch, call.stage = .finished (some fetch) →
    StartedAfter s call.epoch fetch
  present : ∀ call ∈ s.calls, call.stage ≠ .finished none
  usable : ∀ fetch, s.pendingCheck = some fetch → ∃ call ∈ s.calls, call.stage = .waiting fetch true

def Stage.isWaiting : Stage → Bool
  | .waiting _ _ => true
  | _ => false

/-- A reset finds no call waiting. -/
def Quiet (s : DataTableSizeValidator) : Event → Prop
  | .reset => s.calls.any (fun call => call.stage.isWaiting) = false
  | _ => True

/-- A call reads a size fetched after the last reset before it, and waits for
    one fetched after the last reset. -/
def Call.Sound (s : DataTableSizeValidator) (call : Call) : Prop :=
  call.epoch ≤ s.resets ∧
    match call.stage with
    | .waiting fetch _ => StartedAfter s s.resets fetch
    | .finished (some fetch) => StartedAfter s call.epoch fetch
    | .finished none => False
    | .rejected => True

structure Sound (s : DataTableSizeValidator) : Prop where
  calls : ∀ call ∈ s.calls, call.Sound s
  current : ∀ fetch, s.cachedSizeData = some fetch ∨ s.pendingCheck = some fetch →
    StartedAfter s s.resets fetch
  usable : ∀ fetch, s.pendingCheck = some fetch → ∃ call ∈ s.calls, call.stage = .waiting fetch true

variable {s t : DataTableSizeValidator} {duration : Int} {fetch : Nat}

theorem Sound.fresh (h : Sound s) : Fresh s := by
  refine ⟨?_, ?_, h.usable⟩
  · intro call hcall fetch hstage
    have hsound := (h.calls call hcall).2
    rwa [hstage] at hsound
  · intro call hcall hstage
    have hsound := (h.calls call hcall).2
    rwa [hstage] at hsound

theorem Sound.of (h : Sound s) (hresets : t.resets = s.resets)
    (hfetches : ∀ n fetch, StartedAfter s n fetch → StartedAfter t n fetch)
    (hcalls : ∀ call ∈ t.calls, call ∈ s.calls ∨ call.Sound t)
    (hcurrent : ∀ fetch, t.cachedSizeData = some fetch ∨ t.pendingCheck = some fetch →
      StartedAfter t t.resets fetch)
    (husable : ∀ fetch, t.pendingCheck = some fetch →
      ∃ call ∈ t.calls, call.stage = .waiting fetch true) : Sound t := by
  refine ⟨fun call hcall => ?_, hcurrent, husable⟩
  rcases hcalls call hcall with hold | hnew
  · obtain ⟨hepoch, hstage⟩ := h.calls call hold
    refine ⟨hresets ▸ hepoch, ?_⟩
    rcases hc : call.stage with ⟨fetch, own⟩ | ⟨_ | fetch⟩ | _ <;> rw [hc] at hstage
    · exact hresets ▸ hfetches _ _ hstage
    · exact hstage
    · exact hfetches _ _ hstage
    · trivial
  · exact hnew

theorem Sound.addCall (h : Sound s) (now : Int) {stage : Stage}
    (hcall : Call.Sound s { epoch := s.resets, now, stage }) : Sound (s.addCall now stage) := by
  refine h.of rfl (fun _ _ => id) ?_ h.current ?_
  · intro call hmem
    rcases mem_append.mp hmem with hmem | hmem
    · exact .inl hmem
    · exact .inr (mem_singleton.mp hmem ▸ hcall)
  · intro fetch hpending
    obtain ⟨call, hmem, hstage⟩ := h.usable fetch hpending
    exact ⟨call, mem_append_left _ hmem, hstage⟩

theorem startedAfter_append {n fetch : Nat} (l : List Fetch) (h : StartedAfter s n fetch) :
    StartedAfter { s with fetches := s.fetches ++ l } n fetch := by
  obtain ⟨f, hf, hn⟩ := h
  refine ⟨f, ?_, hn⟩
  rw [getElem?_append_left (List.getElem?_eq_some_iff.mp hf).1]
  exact hf

theorem Sound.getCachedSizeData (h : Sound s) (now : Int) :
    Sound (s.getCachedSizeData duration now) := by
  rw [DataTableSizeValidator.getCachedSizeData]
  split
  · rename_i fetch hpending
    exact h.addCall now ⟨Nat.le_refl _, h.current fetch (.inr hpending)⟩
  · split
    · have hnew : StartedAfter { s with fetches := s.fetches ++ [⟨s.resets, none⟩] }
          s.resets s.fetches.length := ⟨_, getElem?_concat_length, Nat.le_refl _⟩
      refine h.of rfl (fun _ _ => startedAfter_append _) ?_ ?_ ?_
      · intro call hmem
        rcases mem_append.mp hmem with hmem | hmem
        · exact .inl hmem
        · exact .inr (mem_singleton.mp hmem ▸ ⟨Nat.le_refl _, hnew⟩)
      · rintro fetch (hcached | hpending)
        · exact startedAfter_append _ (h.current fetch (.inl hcached))
        · cases hpending
          exact hnew
      · intro fetch hpending
        cases hpending
        exact ⟨_, mem_append_right _ (mem_cons_self ..), rfl⟩
    · rename_i hkeep
      refine h.addCall now ⟨Nat.le_refl _, ?_⟩
      rw [shouldRefresh] at hkeep
      split at hkeep
      · rename_i last fetch hlast hcached
        rw [hcached]
        exact h.current fetch (.inl hcached)
      · exact absurd rfl hkeep

theorem Sound.resume (h : Sound s) {i fetch : Nat} {call : Call} {own : Bool}
    (hcall : s.calls[i]? = some call) (hstage : call.stage = .waiting fetch own)
    (resolved : Bool) : Sound (s.resume i call fetch own resolved) := by
  obtain ⟨hepoch, hfetch⟩ := h.calls call (mem_of_getElem? hcall)
  rw [hstage] at hfetch
  have hcalls : ∀ stage, Call.Sound s { call with stage } →
      ∀ other ∈ s.calls.set i { call with stage }, other ∈ s.calls ∨ other.Sound s := by
    intro stage hsound other hmem
    rcases mem_or_eq_of_mem_set hmem with hold | rfl
    · exact .inl hold
    · exact .inr hsound
  have hpending : ∀ f, (if own then none else s.pendingCheck) = some f →
      s.pendingCheck = some f := by
    cases own <;> simp
  -- the call that waits for its own fetch, where that is not this call
  have husable : ∀ stage f, (if own then none else s.pendingCheck) = some f →
      ∃ other ∈ s.calls.set i { call with stage }, other.stage = .waiting f true := by
    intro stage f hf
    cases own with
    | true => cases hf
    | false =>
      obtain ⟨other, hother, hwaits⟩ := h.usable f hf
      obtain ⟨j, hj⟩ := getElem?_of_mem hother
      refine ⟨other, mem_of_getElem? (i := j) ?_, hwaits⟩
      rw [getElem?_set_ne ?_, hj]
      rintro rfl
      cases hcall.symm.trans hj
      cases hstage.symm.trans hwaits
  cases resolved with
  | true =>
    obtain ⟨f, hf, hresets⟩ := hfetch
    refine h.of rfl (fun _ _ => id)
      (hcalls _ ⟨hepoch, f, hf, Nat.le_trans hepoch hresets⟩) ?_ (husable _)
    rintro g (hcached | hg)
    · cases hcached
      exact ⟨f, hf, hresets⟩
    · exact h.current g (.inr (hpending g hg))
  | false =>
    exact h.of rfl (fun _ _ => id) (hcalls _ ⟨hepoch, trivial⟩)
      (fun g hg => h.current g (hg.imp_right (hpending g))) (husable _)

theorem Sound.next {e : Event} (h : Sound s) (hstep : Step duration s e t) (hquiet : Quiet s e) :
    Sound t := by
  rw [Step] at hstep
  cases e with
  | call now =>
    cases hstep
    exact h.getCachedSizeData now
  | settle i resolved =>
    rw [DataTableSizeValidator.next] at hstep
    split at hstep
    · rename_i epoch hfetch
      cases hstep
      have hset : ∀ n fetch, StartedAfter s n fetch → StartedAfter
          { s with fetches := s.fetches.set i ⟨epoch, some resolved⟩ } n fetch := by
        rintro n fetch ⟨f, hf, hn⟩
        by_cases heq : i = fetch
        · subst heq
          cases hfetch.symm.trans hf
          exact ⟨_, getElem?_set_self (List.getElem?_eq_some_iff.mp hfetch).1, hn⟩
        · exact ⟨f, (getElem?_set_ne heq).trans hf, hn⟩
      exact h.of rfl hset (fun call hcall => .inl hcall)
        (fun fetch hfetch => hset _ _ (h.current fetch hfetch)) h.usable
    · cases hstep
  | resume i =>
    rw [DataTableSizeValidator.next] at hstep
    split at hstep
    · rename_i call hcall
      split at hstep
      · rename_i fetch own hstage
        obtain ⟨resolved, -, rfl⟩ := Option.map_eq_some_iff.mp hstep
        exact h.resume hcall hstage resolved
      · cases hstep
    · cases hstep
  | reset =>
    cases hstep
    refine ⟨fun call hcall => ?_, by rintro fetch (hf | hf) <;> (cases hf), nofun⟩
    obtain ⟨hepoch, hstage⟩ := h.calls call hcall
    refine ⟨Nat.le_succ_of_le hepoch, ?_⟩
    rcases hc : call.stage with ⟨fetch, own⟩ | ⟨_ | fetch⟩ | _ <;> rw [hc] at hstage
    · have hwaiting := any_eq_false.mp hquiet call hcall
      rw [hc] at hwaiting
      exact absurd rfl hwaiting
    · exact hstage
    · exact hstage
    · trivial

/-- **FRESH AFTER A RESET**: as long as resets come while no call waits, every
    call reads a size that was fetched after the last reset before it. -/
theorem fresh_of_quiet {path : List (Event × DataTableSizeValidator)}
    (hrun : IsRun (Step duration) {} path) (hquiet : EveryStep Quiet {} path) :
    EveryState Fresh {} path := by
  have hstart : Sound {} := ⟨nofun, by rintro fetch (h | h) <;> (cases h), nofun⟩
  have hsound : EveryState Sound {} path :=
    everyState_of_everyStep hrun hstart (fun s e t h hst hc => h.next hst hc) hquiet
  exact hsound.mono fun s h => h.fresh

/-- The states of a list of events that can all happen. -/
def states (duration : Int) (events : List Event) : List (Event × DataTableSizeValidator) :=
  pathOf (fun s e => (s.next duration e).getD s) {} events

/-- A fetch, a reset behind it, and another fetch. -/
def resetBetween : List Event :=
  [.call 0, .settle 0 true, .resume 0, .reset, .call 1, .settle 1 false, .resume 1]

theorem fresh_resetBetween : EveryState Fresh {} (states 10 resetBetween) :=
  fresh_of_quiet (show IsRun (Step 10) {} _ from ⟨rfl, rfl, rfl, rfl, rfl, rfl, rfl, trivial⟩)
    ⟨trivial, trivial, trivial, rfl, trivial, trivial, trivial, trivial⟩

def resetWhileWaiting : List Event := [.call 0, .reset, .settle 0 true, .resume 0, .call 1]

/-- The second call reads the size fetched before the reset. -/
theorem not_fresh_resetWhileWaiting :
    IsRun (Step 10) {} (states 10 resetWhileWaiting) ∧ ¬ EveryState Fresh {}
    (states 10 resetWhileWaiting) := by
  refine ⟨⟨rfl, rfl, rfl, rfl, rfl, trivial⟩, fun h => ?_⟩
  obtain ⟨f, hf, hepoch⟩ := h.last.size ⟨1, 1, .finished (some 0)⟩ (by decide) 0 rfl
  cases hf
  exact absurd hepoch (by decide)

end N8nSizeValidator
