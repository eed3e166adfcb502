import Mathlib.Data.List.Basic
import N8n.RunProofs

/-! # Leadership in multi-main mode

    The instances share one key, which holds the id of the leader and expires
    unless the leader refreshes it.  Each instance reads the key, acts on
    what it read and notes its own role, with an await between any two of
    these; the checks of one instance may overlap.

    `followsKey_of_timely` gives the condition on the steps under which only
    the holder refreshes or clears the key, takeovers and stepdowns take
    turns, and a takeover finds no rival. -/

namespace N8nMultiMainSetup

open N8nRun List

variable {Id : Type} [DecidableEq Id]

/-! ## Instances -/

inductive InstanceRole where
  | unset | leader | follower
deriving DecidableEq

/-- A call of `checkLeader`, or the `tryBecomeLeader` of `init`, at an await:
    a command is on its way, or its reply. -/
inductive Call (Id : Type) where
  | getting
  | got (leaderId : Option Id)
  | settingExpiration
  | settingIfNotExists (isInit : Bool)
  | setIfNotExists (keySet isInit : Bool)

/-- `clearing` says that `shutdown` waits for the key to be cleared. -/
structure Instance (Id : Type) where
  hasInit : Bool
  instanceRole : InstanceRole
  leaderCheckInterval : Bool
  calls : List (Call Id)
  clearing : Bool

def Instance.new : Instance Id :=
  { hasInit := false
    instanceRole := .unset
    leaderCheckInterval := false
    calls := []
    clearing := false }

/-- What is done to the key that is there, and what an instance emits.  A
    takeover notes another instance that is marked leader and holds the
    key. -/
inductive Entry (Id : Type) where
  | refresh (hostId holder : Id)
  | clear (hostId holder : Id)
  | takeover (hostId : Id) (rival : Option Id)
  | stepdown (hostId : Id)

structure MultiMain (Id : Type) where
  leaderKey : Option Id
  instances : Id → Instance Id
  log : List (Entry Id)

namespace MultiMain

def start : MultiMain Id :=
  { leaderKey := none, instances := fun _ => .new, log := [] }

def update (s : MultiMain Id) (hostId : Id) (f : Instance Id → Instance Id) : MultiMain Id :=
  { s with
    instances := Function.update s.instances hostId (f (s.instances hostId)) }

def record (s : MultiMain Id) (entry : Entry Id) : MultiMain Id :=
  { s with log := s.log ++ [entry] }

/-- The call waits for something else. -/
def setCall (s : MultiMain Id) (hostId : Id) (n : Nat) (call : Call Id) : MultiMain Id :=
  s.update hostId fun x => { x with calls := x.calls.set n call }

def endCall (s : MultiMain Id) (hostId : Id) (n : Nat) : MultiMain Id :=
  s.update hostId fun x => { x with calls := x.calls.eraseIdx n }

def markAs (s : MultiMain Id) (hostId : Id) (role : InstanceRole) : MultiMain Id :=
  s.update hostId fun x => { x with instanceRole := role }

/-- Another instance that is marked leader and holds the key. -/
def rivalOf (s : MultiMain Id) (hostId : Id) : Option Id :=
  s.leaderKey.filter fun id =>
    id ≠ hostId ∧ (s.instances id).instanceRole = .leader

/-! ## Commands -/

/-- `EXPIRE`; without the key it does nothing. -/
def setExpiration (s : MultiMain Id) (hostId : Id) : MultiMain Id :=
  match s.leaderKey with
  | none => s
  | some holder => s.record (.refresh hostId holder)

/-- `DEL`; without the key it does nothing. -/
def clear (s : MultiMain Id) (hostId : Id) : MultiMain Id :=
  match s.leaderKey with
  | none => s
  | some holder => { s.record (.clear hostId holder) with leaderKey := none }

/-- The command of a call is carried out. -/
def runCommand (s : MultiMain Id) (hostId : Id) (n : Nat) :
    Call Id → Option (MultiMain Id)
  | .getting => some (s.setCall hostId n (.got s.leaderKey))
  | .settingExpiration => some ((s.setExpiration hostId).endCall hostId n)
  | .settingIfNotExists isInit =>
    match s.leaderKey with
    | none => some ({ s with leaderKey := some hostId }.setCall hostId n
        (.setIfNotExists true isInit))
    | some _ => some (s.setCall hostId n (.setIfNotExists false isInit))
  | _ => none

/-! ## Calls -/

def stepDown (s : MultiMain Id) (hostId : Id) : MultiMain Id :=
  (s.markAs hostId .follower).record (.stepdown hostId)

def takeOver (s : MultiMain Id) (hostId : Id) : MultiMain Id :=
  (s.markAs hostId .leader).record (.takeover hostId (s.rivalOf hostId))

/-- `init` goes on after `tryBecomeLeader`. -/
def startInterval (s : MultiMain Id) (hostId : Id) (isInit : Bool) : MultiMain Id :=
  s.update hostId fun x =>
    { x with leaderCheckInterval := x.leaderCheckInterval || isInit }

/-- The reply to a command arrives. -/
def resume (s : MultiMain Id) (hostId : Id) (n : Nat) :
    Call Id → Option (MultiMain Id)
  | .got none => some ((s.stepDown hostId).setCall hostId n (.settingIfNotExists false))
  | .got (some leaderId) =>
    if leaderId = hostId then some (s.setCall hostId n .settingExpiration)
    else if (s.instances hostId).instanceRole = .leader then
      some ((s.stepDown hostId).endCall hostId n)
    else some (s.endCall hostId n)
  | .setIfNotExists keySet isInit =>
    let s := if keySet then s.takeOver hostId else s.markAs hostId .follower
    some ((s.startInterval hostId isInit).endCall hostId n)
  | _ => none

def init (s : MultiMain Id) (hostId : Id) : MultiMain Id :=
  s.update hostId fun x =>
    { x with hasInit := true, calls := x.calls ++ [.settingIfNotExists true] }

def shutdown (s : MultiMain Id) (hostId : Id) : MultiMain Id :=
  s.update hostId fun x =>
    { x with
      leaderCheckInterval := false
      clearing := x.clearing || x.instanceRole = .leader }

end MultiMain

/-! ## Runs -/

inductive Event (Id : Type) where
  | init (hostId : Id)
  | checkLeader (hostId : Id)
  | runsCommand (hostId : Id) (n : Nat)
  | resumes (hostId : Id) (n : Nat)
  | fails (hostId : Id) (n : Nat)
  | shutdown (hostId : Id)
  | clears (hostId : Id)
  | keyExpires

/-- The effect of an event, where it can happen. -/
def MultiMain.next (s : MultiMain Id) : Event Id → Option (MultiMain Id)
  | .init hostId => if (s.instances hostId).hasInit then none else some (s.init hostId)
  | .checkLeader hostId =>
    if (s.instances hostId).leaderCheckInterval then
      some (s.update hostId fun x => { x with calls := x.calls ++ [.getting] })
    else none
  | .runsCommand hostId n => (s.instances hostId).calls[n]?.bind (s.runCommand hostId n)
  | .resumes hostId n => (s.instances hostId).calls[n]?.bind (s.resume hostId n)
  | .fails hostId n => (s.instances hostId).calls[n]?.map fun _ => s.endCall hostId n
  | .shutdown hostId =>
    if (s.instances hostId).hasInit then some (s.shutdown hostId) else none
  | .clears hostId =>
    if (s.instances hostId).clearing then
      some ((s.clear hostId).update hostId fun x =>
        { x with clearing := false })
    else none
  | .keyExpires => some { s with leaderKey := none }

def Step (s : MultiMain Id) (e : Event Id) (t : MultiMain Id) : Prop := s.next e = some t

/-! ## The property and the condition -/

inductive LeaderEvent where
  | takeover | stepdown

/-- What an entry of the log says about an instance. -/
def eventOf (hostId : Id) : Entry Id → Option LeaderEvent
  | .takeover id _ => if id = hostId then some .takeover else none
  | .stepdown id => if id = hostId then some .stepdown else none
  | _ => none

/-- The events that an instance emitted. -/
def eventsOf (hostId : Id) (log : List (Entry Id)) : List LeaderEvent :=
  log.filterMap (eventOf hostId)

def dueAfter (n : Nat) : LeaderEvent :=
  if n % 2 = 0 then .takeover else .stepdown

structure FollowsKey (s : MultiMain Id) : Prop where
  refresh : ∀ hostId holder, .refresh hostId holder ∈ s.log → holder = hostId
  clear : ∀ hostId holder, .clear hostId holder ∈ s.log → holder = hostId
  alternate : ∀ hostId n event, (eventsOf hostId s.log)[n]? = some event → event = dueAfter n
  takeover : ∀ hostId rival, .takeover hostId rival ∈ s.log → rival = none

/-- The call goes by what it knows of the key: that it holds the id of its
    instance. -/
def Call.relies (hostId : Id) : Call Id → Bool
  | .got (some leaderId) => leaderId = hostId
  | .settingExpiration => true
  | .setIfNotExists keySet _ => keySet
  | _ => false

/-- The condition on a step.  The key does not expire while its holder goes
    by it, nor is it cleared then; it is the holder that is shut down as a
    leader; and only an instance that is marked leader finds the key gone. -/
def Timely (s : MultiMain Id) : Event Id → Prop
  | .keyExpires => ∀ hostId, s.leaderKey = some hostId → (s.instances hostId).clearing = false
        ∧ ∀ call ∈ (s.instances hostId).calls, call.relies hostId = false
  | .clears hostId => ∀ call ∈ (s.instances hostId).calls, call.relies hostId = false
  | .shutdown hostId => (s.instances hostId).instanceRole = .leader → s.leaderKey = some hostId
  | .resumes hostId n =>
    (s.instances hostId).calls[n]? = some (.got none) → (s.instances hostId).instanceRole = .leader
  | _ => True

/-! ## The invariant -/

def Call.tries : Call Id → Bool
  | .settingIfNotExists _ | .setIfNotExists _ _ => true
  | _ => false

/-- What is true of an instance, given the key and the log. -/
structure Fits (leaderKey : Option Id) (log : List (Entry Id)) (hostId : Id)
    (x : Instance Id) : Prop where
  relies : ∀ call ∈ x.calls, call.relies hostId = true → leaderKey = some hostId
  clearing : x.clearing = true → leaderKey = some hostId
  tries : x.instanceRole = .leader → x.calls.countP Call.tries = 0
  single : x.calls.countP Call.tries ≤ 1
  fresh : x.hasInit = false → x.calls = [] ∧ x.instanceRole ≠ .leader
    ∧ x.leaderCheckInterval = false
  events : x.instanceRole = .leader ↔ (eventsOf hostId log).length % 2 = 1

structure Good (s : MultiMain Id) : Prop where
  fits : ∀ hostId, Fits s.leaderKey s.log hostId (s.instances hostId)
  follows : FollowsKey s

section

variable {l : List (Call Id)} {n : Nat} {call : Call Id}

omit [DecidableEq Id] in
theorem countP_eraseIdx (h : l[n]? = some call) :
    (l.eraseIdx n).countP Call.tries + (if call.tries then 1 else 0) = l.countP Call.tries := by
  induction l generalizing n with
  | nil => cases h
  | cons first rest ih =>
    cases n with
    | zero =>
      cases h
      rw [eraseIdx_cons_zero, countP_cons]
    | succ n =>
      have hrest := ih (n := n) (by simpa using h)
      rw [eraseIdx_cons_succ, countP_cons, countP_cons]
      omega

omit [DecidableEq Id] in
theorem countP_set (h : l[n]? = some call) (new : Call Id) :
    (l.set n new).countP Call.tries + (if call.tries then 1 else 0)
      = l.countP Call.tries + (if new.tries then 1 else 0) := by
  induction l generalizing n with
  | nil => cases h
  | cons first rest ih =>
    cases n with
    | zero =>
      cases h
      rw [set_cons_zero, countP_cons, countP_cons]
      omega
    | succ n =>
      have hrest := ih (n := n) (by simpa using h)
      rw [set_cons_succ, countP_cons, countP_cons]
      omega

end

section

variable {s t : MultiMain Id} {hostId : Id} {n : Nat} {call : Call Id}
  {x : Instance Id} {key : Option Id} {log : List (Entry Id)}

theorem Good.change (hs : Good s) (hostId : Id)
    (hinstances : ∀ id, id ≠ hostId → t.instances id = s.instances id)
    (hkey : ∀ id, id ≠ hostId → s.leaderKey = some id → t.leaderKey = some id)
    (hevents : ∀ id, id ≠ hostId → eventsOf id t.log = eventsOf id s.log)
    (hfits : Fits t.leaderKey t.log hostId (t.instances hostId))
    (hfollows : FollowsKey t) : Good t := by
  refine ⟨?_, hfollows⟩
  intro id
  by_cases hid : id = hostId
  · subst hid
    exact hfits
  · have hold := hs.fits id
    rw [hinstances id hid]
    exact
      { hold with
        relies := fun call hmem h => hkey id hid (hold.relies call hmem h)
        clearing := fun h => hkey id hid (hold.clearing h)
        events := by rw [hevents id hid]; exact hold.events }

theorem FollowsKey.same (h : FollowsKey s) (hlog : t.log = s.log) : FollowsKey t := by
  obtain ⟨hrefresh, hclear, halternate, htakeover⟩ := h
  constructor <;> rw [hlog] <;> assumption

theorem Good.update (hs : Good s) {f : Instance Id → Instance Id}
    (hfits : Fits s.leaderKey s.log hostId (f (s.instances hostId))) :
    Good (s.update hostId f) := by
  refine hs.change hostId ?_ (fun _ _ h => h) (fun _ _ => rfl) ?_ (hs.follows.same rfl)
  · intro id hid
    exact Function.update_of_ne hid _ _
  · show Fits s.leaderKey s.log hostId
      (Function.update s.instances hostId (f (s.instances hostId)) hostId)
    rw [Function.update_self]
    exact hfits

theorem Fits.setCalls (h : Fits key log hostId x) (hsome : x.calls ≠ []) {calls : List (Call Id)}
    (hrelies : ∀ call ∈ calls, call.relies hostId = true → key = some hostId)
    (hcount : calls.countP Call.tries ≤ x.calls.countP Call.tries) :
    Fits key log hostId { x with calls } :=
  { h with
    relies := hrelies
    tries := fun hrole =>
      Nat.le_zero.mp (Nat.le_trans hcount (Nat.le_of_eq (h.tries hrole)))
    single := Nat.le_trans hcount h.single
    fresh := fun hinit => absurd (h.fresh hinit).1 hsome }

omit [DecidableEq Id] in
theorem ne_nil_of_getElem? (h : x.calls[n]? = some call) : x.calls ≠ [] :=
  ne_nil_of_mem (mem_of_getElem? h)

theorem Fits.setCall (h : Fits key log hostId x) (hcall : x.calls[n]? = some call)
    {new : Call Id} (hrelies : new.relies hostId = true → key = some hostId)
    (htries : new.tries = call.tries) :
    Fits key log hostId { x with calls := x.calls.set n new } := by
  refine h.setCalls (ne_nil_of_getElem? hcall) ?_ ?_
  · intro other hother
    rcases mem_or_eq_of_mem_set hother with hold | heq
    · exact h.relies other hold
    · subst heq
      exact hrelies
  · have hcount := countP_set hcall new
    rw [htries] at hcount
    omega

theorem Fits.endCall (h : Fits key log hostId x) (hcall : x.calls[n]? = some call) :
    Fits key log hostId { x with calls := x.calls.eraseIdx n } := by
  have hcount := countP_eraseIdx hcall
  refine h.setCalls (ne_nil_of_getElem? hcall) ?_ (by omega)
  intro other hother
  exact h.relies other (mem_of_mem_eraseIdx hother)

/-! ## The log -/

theorem eventsOf_append (id : Id) (entry : Entry Id) :
    eventsOf id (log ++ [entry]) = eventsOf id log ++ (eventOf id entry).toList := by
  rw [eventsOf, filterMap_append]
  rfl

variable {entry : Entry Id}

theorem eventsOf_silent {id : Id} (h : eventOf id entry = none) :
    eventsOf id (log ++ [entry]) = eventsOf id log := by
  rw [eventsOf_append, h]
  exact append_nil _

theorem FollowsKey.record (h : FollowsKey s)
    (hrefresh : ∀ id holder, entry = .refresh id holder → holder = id)
    (hclear : ∀ id holder, entry = .clear id holder → holder = id)
    (htakeover : ∀ id rival, entry = .takeover id rival → rival = none)
    (hevent : ∀ id event, eventOf id entry = some event →
      event = dueAfter (eventsOf id s.log).length)
    (hlog : t.log = s.log ++ [entry]) : FollowsKey t := by
  refine ⟨?_, ?_, ?_, ?_⟩
  · rw [hlog]
    intro id holder hmem
    rcases mem_append.mp hmem with hold | hnew
    · exact h.refresh id holder hold
    · exact hrefresh id holder (mem_singleton.mp hnew).symm
  · rw [hlog]
    intro id holder hmem
    rcases mem_append.mp hmem with hold | hnew
    · exact h.clear id holder hold
    · exact hclear id holder (mem_singleton.mp hnew).symm
  · intro id m event hget
    rw [hlog, eventsOf_append, getElem?_append] at hget
    split at hget
    · exact h.alternate id m event hget
    · rename_i hlength
      rcases hev : eventOf id entry with _ | last
      · rw [hev] at hget
        cases hget
      · rw [hev, Option.toList_some, getElem?_singleton] at hget
        split at hget
        · rename_i hzero
          cases hget
          have hm : m = (eventsOf id s.log).length := by omega
          rw [hm]
          exact hevent id event hev
        · cases hget
  · rw [hlog]
    intro id rival hmem
    rcases mem_append.mp hmem with hold | hnew
    · exact h.takeover id rival hold
    · exact htakeover id rival (mem_singleton.mp hnew).symm

theorem Good.recordUpdate (hs : Good s) {f : Instance Id → Instance Id}
    (hfits : Fits s.leaderKey (s.log ++ [entry]) hostId (f (s.instances hostId)))
    (hother : ∀ id, id ≠ hostId → eventOf id entry = none)
    (hfollows : FollowsKey ((s.update hostId f).record entry)) :
    Good ((s.update hostId f).record entry) := by
  refine hs.change hostId ?_ (fun _ _ h => h) ?_ ?_ hfollows
  · intro id hid
    exact Function.update_of_ne hid _ _
  · intro id hid
    exact eventsOf_silent (hother id hid)
  · show Fits s.leaderKey (s.log ++ [entry]) hostId
      (Function.update s.instances hostId (f (s.instances hostId)) hostId)
    rw [Function.update_self]
    exact hfits

theorem Fits.silent (h : Fits key log hostId x) (hentry : eventOf hostId entry = none) :
    Fits key (log ++ [entry]) hostId x :=
  { h with
    events := by
      rw [eventsOf_silent hentry]
      exact h.events }

theorem update_update (f g : Instance Id → Instance Id) :
    (s.update hostId f).update hostId g = s.update hostId fun x => g (f x) := by
  simp [MultiMain.update]

theorem record_update (entry : Entry Id) (f : Instance Id → Instance Id) :
    (s.record entry).update hostId f = (s.update hostId f).record entry := rfl

/-! ## Stepping down and taking over -/

/-- A leader steps down, and its call waits for the key or is through. -/
theorem Good.stepDown (hs : Good s) (hrole : (s.instances hostId).instanceRole = .leader)
    (hcalls : (s.instances hostId).calls ≠ [])
    {g : List (Call Id) → List (Call Id)}
    (hrelies : ∀ call ∈ g (s.instances hostId).calls,
      call.relies hostId = true → s.leaderKey = some hostId)
    (hcount : (g (s.instances hostId).calls).countP Call.tries ≤ 1) :
    Good ((s.stepDown hostId).update hostId fun x =>
      { x with calls := g x.calls }) := by
  have h := hs.fits hostId
  have hodd := h.events.mp hrole
  have hevent : eventOf hostId (.stepdown hostId) = some .stepdown := if_pos rfl
  have hshape : (s.stepDown hostId).update hostId (fun x => { x with calls := g x.calls })
      = (s.update hostId fun x =>
          { x with
            instanceRole := .follower
            calls := g x.calls }).record (.stepdown hostId) := by
    rw [MultiMain.stepDown, MultiMain.markAs, record_update, update_update]
  rw [hshape]
  refine hs.recordUpdate ?_ ?_ ?_
  · refine
      { relies := hrelies
        clearing := h.clearing
        tries := fun hleader => by cases hleader
        single := hcount
        fresh := fun hinit => absurd (h.fresh hinit).1 hcalls
        events := ?_ }
    rw [eventsOf_append, hevent, length_append]
    constructor
    · intro hleader
      cases hleader
    · intro hsum
      have hone : (some LeaderEvent.stepdown).toList.length = 1 := rfl
      omega
  · intro id hid
    exact if_neg (Ne.symm hid)
  · refine (hs.follows.same (t := s.update hostId _) rfl).record
      (fun _ _ heq => by cases heq) (fun _ _ heq => by cases heq)
      (fun _ _ heq => by cases heq) ?_ rfl
    intro id event hev
    by_cases hid : hostId = id
    · subst hid
      rw [hevent] at hev
      cases hev
      show _ = dueAfter (eventsOf hostId s.log).length
      rw [dueAfter, if_neg (by omega)]
    · rw [eventOf, if_neg hid] at hev
      cases hev

variable {isInit : Bool}

/-- An instance that has set the key takes over, and its call is through. -/
theorem Good.takeOver (hs : Good s) {keySet : Bool} (hcall : (s.instances hostId).calls[n]?
      = some (.setIfNotExists keySet isInit)) (hkey : s.leaderKey = some hostId) :
    Good (((s.takeOver hostId).startInterval hostId isInit).endCall hostId n) := by
  have h := hs.fits hostId
  have hcount := countP_eraseIdx hcall
  have hone : (if (Call.setIfNotExists keySet isInit : Call Id).tries then 1
      else 0) = 1 := rfl
  have hsingle := h.single
  have hrole : (s.instances hostId).instanceRole ≠ .leader := by
    intro hleader
    have hzero := h.tries hleader
    omega
  have heven : (eventsOf hostId s.log).length % 2 = 0 := by
    have hnot := mt h.events.mpr hrole
    omega
  have hrival : s.rivalOf hostId = none := by
    rw [MultiMain.rivalOf, hkey]
    simp
  have hevent : ∀ rival, eventOf hostId (.takeover hostId rival)
      = some .takeover := fun _ => if_pos rfl
  have hshape : ((s.takeOver hostId).startInterval hostId isInit).endCall hostId n
      = (s.update hostId fun x =>
          { x with
            instanceRole := .leader
            leaderCheckInterval := x.leaderCheckInterval || isInit
            calls := x.calls.eraseIdx n }).record
              (.takeover hostId (s.rivalOf hostId)) := by
    rw [MultiMain.takeOver, MultiMain.markAs, MultiMain.startInterval, MultiMain.endCall,
      record_update, record_update, update_update, update_update]
  rw [hshape, hrival]
  refine hs.recordUpdate ?_ ?_ ?_
  · refine
      { relies := fun call hmem => h.relies call (mem_of_mem_eraseIdx hmem)
        clearing := h.clearing
        tries := fun _ => ?_
        single := ?_
        fresh := fun hinit =>
          absurd (h.fresh hinit).1 (ne_nil_of_getElem? hcall)
        events := ?_ }
    · show ((s.instances hostId).calls.eraseIdx n).countP Call.tries = 0
      omega
    · show ((s.instances hostId).calls.eraseIdx n).countP Call.tries ≤ 1
      omega
    · rw [eventsOf_append, hevent, length_append]
      have hlast : (some LeaderEvent.takeover).toList.length = 1 := rfl
      constructor
      · intro _
        omega
      · intro _
        rfl
  · intro id hid
    exact if_neg (Ne.symm hid)
  · refine (hs.follows.same (t := s.update hostId _) rfl).record
      (fun _ _ heq => by cases heq) (fun _ _ heq => by cases heq) ?_ ?_ rfl
    · intro id rival heq
      cases heq
      rfl
    · intro id event hev
      by_cases hid : hostId = id
      · subst hid
        rw [hevent] at hev
        cases hev
        show _ = dueAfter (eventsOf hostId s.log).length
        rw [dueAfter, if_pos heven]
      · rw [eventOf, if_neg hid] at hev
        cases hev

/-! ## Steps -/

section

variable (hs : Good s) (hcall : (s.instances hostId).calls[n]? = some call)
include hs hcall

theorem Good.setCall
    {new : Call Id} (hrelies : new.relies hostId = true → s.leaderKey = some hostId)
    (htries : new.tries = call.tries) : Good (s.setCall hostId n new) :=
  hs.update ((hs.fits hostId).setCall hcall hrelies htries)

theorem Good.endCall : Good (s.endCall hostId n) := hs.update ((hs.fits hostId).endCall hcall)

end

theorem Good.recordSilent (hs : Good s) (hsilent : ∀ id, eventOf id entry = none)
    (hrefresh : ∀ id holder, entry = .refresh id holder → holder = id)
    (hclear : ∀ id holder, entry = .clear id holder → holder = id) :
    Good (s.record entry) := by
  refine ⟨fun id => (hs.fits id).silent (hsilent id), ?_⟩
  refine hs.follows.record hrefresh hclear ?_ ?_ rfl
  · intro id rival heq
    have hnone := hsilent id
    rw [heq, eventOf, if_pos rfl] at hnone
    cases hnone
  · intro id event hev
    rw [hsilent id] at hev
    cases hev

theorem Good.setExpiration (hs : Good s) (hkey : s.leaderKey = some hostId) :
    Good (s.setExpiration hostId) := by
  rw [MultiMain.setExpiration, hkey]
  refine hs.recordSilent (fun _ => rfl) ?_ (fun _ _ heq => by cases heq)
  intro id holder heq
  cases heq
  rfl

omit [DecidableEq Id] in
theorem setExpiration_instances (hostId : Id) :
    (s.setExpiration hostId).instances = s.instances := by
  rw [MultiMain.setExpiration]
  split <;> rfl

section

variable (hs : Good s)
include hs

theorem Good.setIfNotExists (hcall : (s.instances hostId).calls[n]?
      = some (.settingIfNotExists isInit)) (hfree : s.leaderKey = none) :
    Good ({ s with leaderKey := some hostId }.setCall hostId n (.setIfNotExists true isInit)) := by
  have hkeyed : Good { s with leaderKey := some hostId } := by
    refine hs.change hostId (fun _ _ => rfl) ?_ (fun _ _ => rfl) ?_ (hs.follows.same rfl)
    · intro id _ hheld
      rw [hfree] at hheld
      cases hheld
    · exact
        { hs.fits hostId with
          relies := fun _ _ _ => rfl
          clearing := fun _ => rfl }
  exact hkeyed.setCall hcall (fun _ => rfl) rfl

theorem Good.runCommand (hcall : (s.instances hostId).calls[n]? = some call)
    (h : s.runCommand hostId n call = some t) : Good t := by
  have hmem := mem_of_getElem? hcall
  have hrelies := (hs.fits hostId).relies call hmem
  cases call with
  | getting =>
    cases h
    refine hs.setCall hcall ?_ ?_
    · intro hkey
      rcases hheld : s.leaderKey with _ | holder
      · rw [hheld] at hkey
        cases hkey
      · rw [hheld] at hkey
        rw [of_decide_eq_true hkey]
    · rcases s.leaderKey with _ | holder <;> rfl
  | settingExpiration =>
    cases h
    have hsame : ((s.setExpiration hostId).instances hostId).calls[n]?
        = some .settingExpiration := by
      rw [setExpiration_instances]
      exact hcall
    exact (hs.setExpiration (hrelies rfl)).endCall hsame
  | settingIfNotExists isInit =>
    rw [MultiMain.runCommand] at h
    split at h
    · rename_i hfree
      cases h
      exact hs.setIfNotExists hcall hfree
    · cases h
      exact hs.setCall hcall (fun heq => by cases heq) rfl
  | got leaderId => cases h
  | setIfNotExists keySet isInit => cases h

theorem Good.notSet (hcall : (s.instances hostId).calls[n]? = some (.setIfNotExists false isInit)) :
    Good (((s.markAs hostId .follower).startInterval hostId isInit).endCall hostId n) := by
  have h := hs.fits hostId
  have hended := h.endCall hcall
  have hcount := countP_eraseIdx hcall
  have hone : (if (Call.setIfNotExists false isInit : Call Id).tries then 1
      else 0) = 1 := rfl
  have hrole : (s.instances hostId).instanceRole ≠ .leader := by
    intro hleader
    have hzero := h.tries hleader
    omega
  rw [MultiMain.markAs, MultiMain.startInterval, MultiMain.endCall, update_update, update_update]
  refine hs.update
    { relies := hended.relies
      clearing := h.clearing
      tries := fun hleader => by cases hleader
      single := hended.single
      fresh := fun hinit =>
        absurd (h.fresh hinit).1 (ne_nil_of_getElem? hcall)
      events := ?_ }
  constructor
  · intro hleader
    cases hleader
  · intro hodd
    exact absurd (h.events.mpr hodd) hrole

theorem Good.resume (hcall : (s.instances hostId).calls[n]? = some call)
    (hc : Timely s (.resumes hostId n)) (h : s.resume hostId n call = some t) : Good t := by
  have hfits := hs.fits hostId
  have hmem := mem_of_getElem? hcall
  have hsome := ne_nil_of_getElem? hcall
  cases call with
  | getting => cases h
  | settingExpiration => cases h
  | settingIfNotExists isInit => cases h
  | got leaderId =>
    rcases leaderId with _ | leaderId
    · cases h
      have hrole := hc hcall
      have hcount := countP_set hcall (.settingIfNotExists false)
      have hzero := hfits.tries hrole
      have hone : (if (Call.settingIfNotExists false : Call Id).tries then 1
        else 0) = 1 := rfl
      refine hs.stepDown (g := fun calls =>
        calls.set n (.settingIfNotExists false)) hrole hsome ?_ (by omega)
      intro other hother
      rcases mem_or_eq_of_mem_set hother with hold | heq
      · exact hfits.relies other hold
      · subst heq
        intro hrelies
        cases hrelies
    · rw [MultiMain.resume] at h
      split at h
      · rename_i heq
        cases h
        refine hs.setCall hcall (fun _ => ?_) rfl
        exact hfits.relies _ hmem (decide_eq_true heq)
      · split at h
        · rename_i hrole
          cases h
          have hcount := countP_eraseIdx hcall
          have hsingle := hfits.single
          refine hs.stepDown (g := fun calls => calls.eraseIdx n) hrole hsome ?_ (by omega)
          intro other hother
          exact hfits.relies other (mem_of_mem_eraseIdx hother)
        · cases h
          exact hs.endCall hcall
  | setIfNotExists keySet isInit =>
    cases h
    cases keySet with
    | true => exact hs.takeOver hcall (hfits.relies _ hmem rfl)
    | false => exact hs.notSet hcall

theorem Good.clears (hkey : s.leaderKey = some hostId) (hc : Timely s (.clears hostId)) :
    Good ((s.clear hostId).update hostId fun x =>
      { x with clearing := false }) := by
  have hrecorded : Good (s.record (.clear hostId hostId)) := by
    refine hs.recordSilent (fun _ => rfl) (fun _ _ heq => by cases heq) ?_
    intro id holder heq
    cases heq
    rfl
  have hclear : s.clear hostId = { s.record (.clear hostId hostId) with leaderKey := none } := by
    rw [MultiMain.clear, hkey]
  rw [hclear]
  refine hrecorded.change hostId ?_ ?_ (fun _ _ => rfl) ?_ (hrecorded.follows.same rfl)
  · intro id hid
    exact Function.update_of_ne hid _ _
  · intro id hid hheld
    have hsame : some hostId = some id := hkey.symm.trans hheld
    cases hsame
    exact absurd rfl hid
  · show Fits none _ hostId (Function.update s.instances hostId _ hostId)
    rw [Function.update_self]
    exact
      { hrecorded.fits hostId with
        relies := fun call hmem hrelies => by
          rw [hc call hmem] at hrelies
          cases hrelies
        clearing := fun h => by cases h }

theorem Good.keyExpires (hc : Timely s .keyExpires) : Good { s with leaderKey := none } := by
  refine ⟨?_, hs.follows.same rfl⟩
  intro id
  have hfits := hs.fits id
  refine { hfits with relies := ?_, clearing := ?_ }
  · intro call hmem hrelies
    have hnot := (hc id (hfits.relies call hmem hrelies)).2 call hmem
    rw [hnot] at hrelies
    cases hrelies
  · intro hclearing
    have hnot := (hc id (hfits.clearing hclearing)).1
    have hclearing' : (s.instances id).clearing = true := hclearing
    rw [hnot] at hclearing'
    cases hclearing'

theorem Good.init (hinit : (s.instances hostId).hasInit = false) : Good (s.init hostId) := by
  have hfits := hs.fits hostId
  obtain ⟨hcalls, hrole, -⟩ := hfits.fresh hinit
  refine hs.update
    { relies := ?_
      clearing := hfits.clearing
      tries := fun hleader => absurd hleader hrole
      single := ?_
      fresh := fun heq => by cases heq
      events := hfits.events }
  · rw [hcalls]
    intro call hmem hrelies
    cases mem_singleton.mp hmem
    cases hrelies
  · rw [hcalls]
    exact Nat.le_refl 1

theorem Good.checkLeader (hinterval : (s.instances hostId).leaderCheckInterval = true) :
    Good (s.update hostId fun x =>
      { x with calls := x.calls ++ [.getting] }) := by
  have hfits := hs.fits hostId
  refine hs.update
    { relies := ?_
      clearing := hfits.clearing
      tries := fun hleader => ?_
      single := ?_
      fresh := ?_
      events := hfits.events }
  · intro call hmem
    rcases mem_append.mp hmem with hold | hnew
    · exact hfits.relies call hold
    · cases mem_singleton.mp hnew
      intro hrelies
      cases hrelies
  · rw [countP_append, hfits.tries hleader]
    rfl
  · rw [countP_append]
    exact hfits.single
  · intro hfresh
    rw [(hfits.fresh hfresh).2.2] at hinterval
    cases hinterval

theorem Good.shutdown (hinit : (s.instances hostId).hasInit = true)
    (hc : Timely s (.shutdown hostId)) : Good (s.shutdown hostId) := by
  have hfits := hs.fits hostId
  refine hs.update
    { relies := hfits.relies
      clearing := ?_
      tries := hfits.tries
      single := hfits.single
      fresh := fun hfresh => ?_
      events := hfits.events }
  · intro hclearing
    rcases (Bool.or_eq_true ..).mp hclearing with hold | hleader
    · exact hfits.clearing hold
    · exact hc (of_decide_eq_true hleader)
  · rw [hinit] at hfresh
    cases hfresh

end

end

/-! ## Runs -/

/-- **ONE STEP**: the invariant survives every step that meets the
    condition. -/
theorem Good.step {s t : MultiMain Id} {e : Event Id} (hs : Good s)
    (h : Step s e t) (hc : Timely s e) : Good t := by
  cases e with
  | init hostId =>
    obtain ⟨hinit, heq⟩ := Option.ite_none_left_eq_some.mp h
    cases heq
    exact hs.init (Bool.eq_false_iff.mpr hinit)
  | checkLeader hostId =>
    obtain ⟨hinterval, rfl⟩ := Option.ite_some_none_eq_some.mp h
    exact hs.checkLeader hinterval
  | runsCommand hostId n =>
    obtain ⟨call, hcall, hrun⟩ := Option.bind_eq_some_iff.mp h
    exact hs.runCommand hcall hrun
  | resumes hostId n =>
    obtain ⟨call, hcall, hresume⟩ := Option.bind_eq_some_iff.mp h
    exact hs.resume hcall hc hresume
  | fails hostId n =>
    obtain ⟨call, hcall, rfl⟩ := Option.map_eq_some_iff.mp h
    exact hs.endCall hcall
  | shutdown hostId =>
    obtain ⟨hinit, rfl⟩ := Option.ite_some_none_eq_some.mp h
    exact hs.shutdown hinit hc
  | clears hostId =>
    obtain ⟨hclearing, rfl⟩ := Option.ite_some_none_eq_some.mp h
    exact hs.clears ((hs.fits hostId).clearing hclearing) hc
  | keyExpires =>
    cases h
    exact hs.keyExpires hc

theorem good_start : Good (.start : MultiMain Id) := by
  refine ⟨?_, ?_⟩
  · intro hostId
    exact
      { relies := fun _ hmem => by cases hmem
        clearing := fun h => by cases h
        tries := fun h => by cases h
        single := Nat.zero_le _
        fresh := fun _ => ⟨rfl, (fun h => by cases h), rfl⟩
        events := ⟨fun h => (by cases h), fun h => by cases h⟩ }
  · exact ⟨fun _ _ h => (by cases h), fun _ _ h => (by cases h),
      fun _ _ _ h => (by cases h), fun _ _ h => by cases h⟩

/-- **LEADERSHIP FOLLOWS THE KEY**: in a run in which the key stays while its
    holder goes by it and only a leader finds it gone, the holder alone
    refreshes and clears it, takeovers and stepdowns take turns, and no
    takeover finds a rival. -/
theorem followsKey_of_timely {path : List (Event Id × MultiMain Id)}
    (hrun : IsRun Step .start path) (hc : EveryStep Timely .start path) :
    EveryState FollowsKey .start path := by
  have hall : EveryState Good .start path :=
    everyState_of_everyStep hrun good_start (fun _ _ _ hs hstep hc => hs.step hstep hc) hc
  exact hall.mono fun _ hs => hs.follows

/-! ## Two runs -/

/-- The state after an event. -/
def after (s : MultiMain Nat) (e : Event Nat) : MultiMain Nat := (s.next e).getD s

/-- One instance becomes leader, another one finds the key taken. -/
def elects : List (Event Nat) :=
  [.init 0, .runsCommand 0 0, .resumes 0 0, .init 1, .runsCommand 1 0, .resumes 1 0]

/-- The leader refreshes the key and is shut down. -/
def refreshes : List (Event Nat) :=
  elects ++ [.checkLeader 0, .runsCommand 0 0, .resumes 0 0,
    .runsCommand 0 0, .shutdown 0, .clears 0]

/-- The key expires, and the follower looks for it. -/
def expires : List (Event Nat) :=
  elects ++ [.keyExpires, .checkLeader 1, .runsCommand 1 0, .resumes 1 0]

theorem refreshes_followsKey : EveryState FollowsKey .start (pathOf after .start refreshes) := by
  have hrun : IsRun Step .start (pathOf after .start refreshes) :=
    ⟨rfl, rfl, rfl, rfl, rfl, rfl, rfl, rfl, rfl, rfl, rfl, rfl, trivial⟩
  refine followsKey_of_timely hrun ?_
  exact ⟨trivial, trivial, (fun h => by cases h), trivial, trivial,
    (fun h => by cases h), trivial, trivial, (fun h => by cases h), trivial,
    fun _ => rfl, (fun call hmem => by cases hmem), trivial⟩

/-- A follower steps down that has never been leader. -/
theorem expires_stepsDown :
    ¬ ∀ path : List (Event Nat × MultiMain Nat), IsRun Step .start path →
      EveryState FollowsKey .start path := by
  intro hall
  have hrun : IsRun Step .start (pathOf after .start expires) :=
    ⟨rfl, rfl, rfl, rfl, rfl, rfl, rfl, rfl, rfl, rfl, trivial⟩
  have hlast := (hall _ hrun).last
  have hevents : (eventsOf 1 (lastState .start
      (pathOf after .start expires)).log)[0]? = some .stepdown := rfl
  have hdue := hlast.alternate 1 0 .stepdown hevents
  cases hdue

end N8nMultiMainSetup
