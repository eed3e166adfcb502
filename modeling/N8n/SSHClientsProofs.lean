import N8n.RunProofs
import N8n.OrderedMapProofs

/-! # SSH clients — registrations, their events and their abort controllers

    A client is registered under a hash of its credentials.  What its events
    and its abort controller clean up is whatever is registered under that
    hash when they come, and a controller that is shared takes along what its
    other listeners find.

    `ownCleanup_of_bound` gives the condition on the steps under which an
    event of a client cleans up no other client, and the controllers that
    were passed for a client are aborted with it. -/

namespace N8nSSHClients

open N8nRun N8nOrderedMap List OrderedMap

/-! ## Credentials -/

inductive SSHAuthentication where
  | password (sshPassword : String)
  | privateKey (privateKey : String) (passphrase : Option String)

structure SSHCredentials where
  sshHost : String
  sshPort : Nat
  sshUser : String
  sshAuthenticateWith : SSHAuthentication

structure ConnectConfig where
  host : String
  port : Nat
  username : String
  password : Option String
  privateKey : Option String
  passphrase : Option String
deriving DecidableEq

def SSHCredentials.sshConfig (credentials : SSHCredentials) : ConnectConfig :=
  match credentials.sshAuthenticateWith with
  | .password sshPassword =>
    { host := credentials.sshHost
      port := credentials.sshPort
      username := credentials.sshUser
      password := some sshPassword
      privateKey := none
      passphrase := none }
  | .privateKey privateKey passphrase =>
    { host := credentials.sshHost
      port := credentials.sshPort
      username := credentials.sshUser
      password := none
      privateKey := some privateKey
      passphrase }

/-! ## The manager -/

/-- Clients are numbered as they are created. -/
abbrev ClientId := Nat

/-- A controller that a caller passed, or the one that is made with a
    client. -/
inductive AbortController where
  | passed (id : Nat)
  | made (client : ClientId)
deriving DecidableEq

structure Registration where
  client : ClientId
  lastUsed : Nat
  abortController : AbortController

/-- A client that was ended, with the client whose event it was for, if it
    was one. -/
structure Ended where
  client : ClientId
  cause : Option ClientId

/-- `Key` is the type of the hashes, and `clientsReversed` has the key of
    every client that was created. -/
structure SSHClientsManager (Key : Type) where
  idleTimeout : Nat
  now : Nat
  clients : OrderedMap Key Registration
  clientsReversed : List Key
  /-- the listeners of the abort signals, in the order they were added -/
  listeners : List (AbortController × Key)
  aborted : List AbortController
  ended : List Ended
  /-- the controllers that were passed, each with the client it was for -/
  passed : List (ClientId × AbortController)

variable {Key : Type} [DecidableEq Key]

namespace SSHClientsManager

def start (idleTimeout now : Nat) : SSHClientsManager Key :=
  { idleTimeout
    now
    clients := .empty
    clientsReversed := []
    listeners := []
    aborted := []
    ended := []
    passed := [] }

/-- The keys that the listeners of a signal clean up. -/
def listenersOf (s : SSHClientsManager Key) (controller : AbortController) : List Key :=
  (s.listeners.filter fun p => p.1 = controller).map Prod.snd

def endClient (s : SSHClientsManager Key) (cause : Option ClientId)
    (key : Key) (registration : Registration) : SSHClientsManager Key :=
  { s with
    clients := s.clients.delete key
    ended := s.ended ++ [{ client := registration.client, cause }] }

def markAborted (s : SSHClientsManager Key) (controller : AbortController) :
    SSHClientsManager Key :=
  { s with aborted := s.aborted ++ [controller] }

/-- `cleanupClient`.  Aborting the controller calls its listeners, which call
    it again; as a registration is deleted each time, such calls are not
    nested deeper than there are registrations. -/
def cleanupNested (cause : Option ClientId) :
    Nat → SSHClientsManager Key → Key → SSHClientsManager Key
  | 0, s, _ => s
  | depth + 1, s, key =>
    match s.clients.get? key with
    | none => s
    | some registration =>
      let controller := registration.abortController
      let s := s.endClient cause key registration
      if controller ∈ s.aborted then s
      else
        (s.listenersOf controller).foldl (cleanupNested cause depth) (s.markAborted controller)

def cleanupClient (cause : Option ClientId) (s : SSHClientsManager Key)
    (key : Key) : SSHClientsManager Key :=
  cleanupNested cause s.clients.size s key

/-- The signal of a controller is aborted by one of its owners. -/
def abort (s : SSHClientsManager Key) (controller : AbortController) : SSHClientsManager Key :=
  if controller ∈ s.aborted then s
  else
    (s.listenersOf controller).foldl (cleanupClient none) (s.markAborted controller)

def touch (s : SSHClientsManager Key) (key : Key)
    (registration : Registration) : SSHClientsManager Key :=
  { s with
    clients := s.clients.set key { registration with lastUsed := s.now } }

def updateLastUsed (s : SSHClientsManager Key) (client : ClientId) : SSHClientsManager Key :=
  match s.clientsReversed[client]? with
  | none => s
  | some key =>
    match s.clients.get? key with
    | none => s
    | some registration => s.touch key registration

/-- A new client with its handlers, and its registration. -/
def register (s : SSHClientsManager Key) (key : Key)
    (controller : AbortController) : SSHClientsManager Key :=
  { s with
    clients := s.clients.set key
      { client := s.clientsReversed.length
        lastUsed := s.now
        abortController := controller }
    clientsReversed := s.clientsReversed ++ [key]
    listeners := s.listeners ++ [(controller, key)] }

def notePassed (s : SSHClientsManager Key) (client : ClientId)
    (abortController : Option Nat) : SSHClientsManager Key :=
  { s with
    passed := s.passed ++ (abortController.map fun id => (client, .passed id)).toList }

/-- The client of the result is that of the registration under the key. -/
def getClient (digest : ConnectConfig → Key) (s : SSHClientsManager Key)
    (credentials : SSHCredentials) (abortController : Option Nat) :
    SSHClientsManager Key :=
  let clientHash := digest credentials.sshConfig
  match s.clients.get? clientHash with
  | some existing =>
    (s.touch clientHash existing).notePassed existing.client abortController
  | none =>
    let client := s.clientsReversed.length
    let controller := (abortController.map .passed).getD (.made client)
    (s.register clientHash controller).notePassed client abortController

/-- One turn of the loop over the registrations; those that are gone by then
    are not visited. -/
def cleanupStale (s : SSHClientsManager Key) (key : Key) : SSHClientsManager Key :=
  match s.clients.get? key with
  | none => s
  | some registration =>
    if s.idleTimeout * 1000 < s.now - registration.lastUsed then
      s.cleanupClient none key
    else s

def cleanupStaleConnections (s : SSHClientsManager Key) : SSHClientsManager Key :=
  s.clients.keys.foldl cleanupStale s

def onShutdown (s : SSHClientsManager Key) : SSHClientsManager Key :=
  s.clients.keys.foldl (cleanupClient none) s

/-- An `error`, `end` or `close` of a client: its handler has the key. -/
def clientEvent (s : SSHClientsManager Key) (client : ClientId) : SSHClientsManager Key :=
  match s.clientsReversed[client]? with
  | none => s
  | some key => s.cleanupClient (some client) key

end SSHClientsManager

/-! ## Runs -/

inductive Event where
  | tick (millis : Nat)
  | getClient (credentials : SSHCredentials) (abortController : Option Nat)
  | updateLastUsed (client : ClientId)
  | clientEvent (client : ClientId)
  | abort (abortController : Nat)
  | cleanupStaleConnections
  | onShutdown

def SSHClientsManager.next (digest : ConnectConfig → Key)
    (s : SSHClientsManager Key) : Event → SSHClientsManager Key
  | .tick millis => { s with now := s.now + millis }
  | .getClient credentials abortController =>
    s.getClient digest credentials abortController
  | .updateLastUsed client => s.updateLastUsed client
  | .clientEvent client => s.clientEvent client
  | .abort abortController => s.abort (.passed abortController)
  | .cleanupStaleConnections => s.cleanupStaleConnections
  | .onShutdown => s.onShutdown

def Step (digest : ConnectConfig → Key) (s : SSHClientsManager Key)
    (e : Event) (t : SSHClientsManager Key) : Prop :=
  t = s.next digest e

/-! ## The property and the condition -/

structure OwnCleanup (s : SSHClientsManager Key) : Prop where
  /-- an event of a client ends no other client -/
  cause : ∀ ended ∈ s.ended, ∀ client, ended.cause = some client → ended.client = client
  /-- what is registered has not been ended -/
  registered : ∀ key registration, s.clients.get? key = some registration →
    ∀ ended ∈ s.ended, ended.client ≠ registration.client
  /-- a client that was ended has all its controllers aborted -/
  aborted : ∀ client controller, (client, controller) ∈ s.passed →
    (∃ ended ∈ s.ended, ended.client = client) → controller ∈ s.aborted

/-- The condition on a step.  When a client has an event, no other client is
    registered under its key, and its controller, if it is still to be
    aborted, listens for no other registration.  A controller that is passed
    for a client that is there already is the one it has, or is aborted. -/
def Bound (digest : ConnectConfig → Key) (s : SSHClientsManager Key) :
    Event → Prop
  | .clientEvent client => ∀ key registration, s.clientsReversed[client]? = some key →
      s.clients.get? key = some registration → registration.client = client
          ∧ (registration.abortController ∉ s.aborted →
            ∀ other ∈ s.listenersOf registration.abortController,
              other ≠ key → s.clients.get? other = none)
  | .getClient credentials (some id) => ∀ registration,
      s.clients.get? (digest credentials.sshConfig) = some registration →
        .passed id = registration.abortController ∨ .passed id ∈ s.aborted
  | _ => True

/-! ## Nested cleanups -/

section

variable {s : SSHClientsManager Key} {cause : Option ClientId} {key : Key}

open SSHClientsManager

theorem cleanupNested_none (depth : Nat) (h : s.clients.get? key = none) :
    cleanupNested cause depth s key = s := by
  cases depth with
  | zero => rfl
  | succ depth => rw [cleanupNested, h]

theorem size_endClient (cause : Option ClientId) {registration : Registration}
    (h : s.clients.get? key = some registration) :
    (s.endClient cause key registration).clients.size + 1 = s.clients.size :=
  size_delete_of_mem h

theorem size_cleanupNested_le (cause : Option ClientId) (depth : Nat)
    (s : SSHClientsManager Key) (key : Key) :
    (cleanupNested cause depth s key).clients.size ≤ s.clients.size := by
  induction depth generalizing s key with
  | zero => exact Nat.le_refl _
  | succ depth ih =>
    have hfold : ∀ (l : List Key) (t : SSHClientsManager Key),
        (l.foldl (cleanupNested cause depth) t).clients.size ≤ t.clients.size := fun l t =>
      List.foldlRecOn (motive := fun u => u.clients.size ≤ t.clients.size) l _
        (Nat.le_refl _) fun u hu first _ => Nat.le_trans (ih u first) hu
    rw [cleanupNested]
    split
    · exact Nat.le_refl _
    · rename_i registration hget
      have hsize := size_endClient cause hget
      show (if _ then _ else _ : SSHClientsManager Key).clients.size ≤ _
      split
      · omega
      · refine Nat.le_trans (hfold ..) ?_
        show (s.endClient cause key registration).clients.size ≤ _
        omega

theorem cleanupNested_depth {depth depth' : Nat}
    (h : s.clients.size ≤ depth) (h' : s.clients.size ≤ depth') :
    cleanupNested cause depth s key = cleanupNested cause depth' s key := by
  induction depth generalizing depth' s key with
  | zero =>
    have hnone : s.clients.get? key = none := by
      rcases hget : s.clients.get? key with _ | registration
      · rfl
      · have hsize := size_delete_of_mem hget
        omega
    rw [cleanupNested_none _ hnone, cleanupNested_none _ hnone]
  | succ depth ih =>
    rcases hget : s.clients.get? key with _ | registration
    · rw [cleanupNested_none _ hget, cleanupNested_none _ hget]
    · have hsize := size_endClient cause hget
      rcases depth' with _ | depth'
      · omega
      · have hfold : ∀ (l : List Key) (t : SSHClientsManager Key),
            t.clients.size ≤ depth → t.clients.size ≤ depth' →
            l.foldl (cleanupNested cause depth) t = l.foldl (cleanupNested cause depth') t := by
          intro l
          induction l with
          | nil => exact fun _ _ _ => rfl
          | cons first rest ihl =>
            intro t ht ht'
            have hless := size_cleanupNested_le cause depth' t first
            rw [foldl_cons, foldl_cons, ih ht ht']
            exact ihl _ (by omega) (by omega)
        rw [cleanupNested, cleanupNested, hget]
        show (if _ then _ else _) = (if _ then _ else _)
        split
        · rfl
        · refine hfold _ _ ?_ ?_
          · show (s.endClient cause key registration).clients.size ≤ _
            omega
          · show (s.endClient cause key registration).clients.size ≤ _
            omega

end

/-! ## The invariant -/

structure Good (s : SSHClientsManager Key) : Prop where
  reversed : ∀ key registration, s.clients.get? key = some registration →
    s.clientsReversed[registration.client]? = some key
  alive : ∀ key registration, s.clients.get? key = some registration →
    ∀ ended ∈ s.ended, ended.client ≠ registration.client
  created : ∀ ended ∈ s.ended, ended.client < s.clientsReversed.length
  cause : ∀ ended ∈ s.ended, ∀ client, ended.cause = some client → ended.client = client
  passed : ∀ client controller, (client, controller) ∈ s.passed →
    controller ∈ s.aborted ∨ ∃ key registration,
      s.clients.get? key = some registration ∧ registration.client = client
        ∧ registration.abortController = controller

section

variable {s : SSHClientsManager Key} {cause : Option ClientId} {key : Key}
  {registration : Registration} {client : ClientId}

open SSHClientsManager

theorem Good.ownCleanup (hs : Good s) : OwnCleanup s := by
  refine ⟨hs.cause, hs.alive, ?_⟩
  intro client controller hpassed hended
  rcases hs.passed client controller hpassed with
    haborted | ⟨key, registration, hget, hclient, -⟩
  · exact haborted
  · obtain ⟨ended, hmem, heq⟩ := hended
    exact absurd (heq.trans hclient.symm) (hs.alive key registration hget ended hmem)

/-- A registration goes together with its controller. -/
theorem Good.endClient (hs : Good s) (hget : s.clients.get? key = some registration)
    (hcause : ∀ client, cause = some client → registration.client = client)
    {aborted : List AbortController}
    (hmore : ∀ controller ∈ s.aborted, controller ∈ aborted)
    (hown : registration.abortController ∈ aborted) :
    Good { s.endClient cause key registration with aborted } := by
  have hother : ∀ other r, (s.clients.delete key).get? other = some r →
      other ≠ key ∧ s.clients.get? other = some r := by
    intro other r h
    rw [get?_delete] at h
    split at h
    · cases h
    · rename_i hne
      exact ⟨hne, h⟩
  have hcreated : registration.client < s.clientsReversed.length :=
    (List.getElem?_eq_some_iff.mp (hs.reversed key registration hget)).1
  refine ⟨?_, ?_, ?_, ?_, ?_⟩
  · intro other r h
    exact hs.reversed other r (hother other r h).2
  · intro other r h ended hmem
    obtain ⟨hne, hold⟩ := hother other r h
    rcases mem_append.mp hmem with hbefore | hnew
    · exact hs.alive other r hold ended hbefore
    · cases mem_singleton.mp hnew
      intro hsame
      have hkey := hs.reversed other r hold
      have hkey' := hs.reversed key registration hget
      rw [← hsame, hkey'] at hkey
      cases hkey
      exact hne rfl
  · intro ended hmem
    rcases mem_append.mp hmem with hbefore | hnew
    · exact hs.created ended hbefore
    · cases mem_singleton.mp hnew
      exact hcreated
  · intro ended hmem
    rcases mem_append.mp hmem with hbefore | hnew
    · exact hs.cause ended hbefore
    · cases mem_singleton.mp hnew
      exact hcause
  · intro client controller hpassed
    rcases hs.passed client controller hpassed with
      haborted | ⟨other, r, hold, hclient, hcontroller⟩
    · exact .inl (hmore controller haborted)
    · by_cases hkey : other = key
      · subst hkey
        rw [hget] at hold
        cases hold
        exact .inl (hcontroller ▸ hown)
      · refine .inr ⟨other, r, ?_, hclient, hcontroller⟩
        exact (get?_delete ..).trans ((if_neg hkey).trans hold)

theorem Good.markAborted (hs : Good s) (controller : AbortController) :
    Good (s.markAborted controller) :=
  { hs with
    passed := fun client other h =>
      (hs.passed client other h).imp_left (mem_append_left _) }

theorem good_foldl {f : SSHClientsManager Key → Key → SSHClientsManager Key}
    (hf : ∀ s key, Good s → Good (f s key)) (l : List Key) (hs : Good s) :
    Good (l.foldl f s) := by
  induction l generalizing s with
  | nil => exact hs
  | cons key rest ih => exact ih (hf s key hs)

theorem Good.cleanupNested (depth : Nat) (hs : Good s) (key : Key) :
    Good (cleanupNested none depth s key) := by
  induction depth generalizing s key with
  | zero => exact hs
  | succ depth ih =>
    rw [SSHClientsManager.cleanupNested]
    split
    · exact hs
    · rename_i registration hget
      have hnone : ∀ client, (none : Option ClientId) = some client →
          registration.client = client := fun _ h => by cases h
      show Good (if _ then _ else _)
      split
      · rename_i haborted
        exact hs.endClient hget hnone (fun _ h => h) haborted
      · refine good_foldl (fun s key hs => ih hs key) _ ?_
        exact hs.endClient hget hnone (fun _ => mem_append_left _)
          (mem_append_right _ (mem_singleton.mpr rfl))

theorem Good.cleanupClient (hs : Good s) (key : Key) :
    Good (s.cleanupClient none key) := hs.cleanupNested _ key

theorem foldl_cleanupNested_none {l : List Key} (depth : Nat)
    (h : ∀ key ∈ l, s.clients.get? key = none) :
    l.foldl (SSHClientsManager.cleanupNested cause depth) s = s := by
  induction l with
  | nil => rfl
  | cons key rest ih =>
    rw [foldl_cons, cleanupNested_none depth (h key (mem_cons_self ..))]
    exact ih fun other hmem => h other (mem_cons_of_mem _ hmem)

theorem Good.ownEvent (hs : Good s) (hget : s.clients.get? key = some registration)
    (halone : registration.abortController ∉ s.aborted →
      ∀ other ∈ s.listenersOf registration.abortController,
        other ≠ key → s.clients.get? other = none) :
    Good (s.cleanupClient (some registration.client) key) := by
  have hcause : ∀ client, some registration.client = some client →
      registration.client = client := fun _ h => by
    cases h
    rfl
  have hsize := size_delete_of_mem hget
  obtain ⟨depth, hdepth⟩ : ∃ depth, s.clients.size = depth + 1 := ⟨_, hsize.symm⟩
  rw [SSHClientsManager.cleanupClient, hdepth, SSHClientsManager.cleanupNested, hget]
  show Good (if _ then _ else _)
  split
  · rename_i haborted
    exact hs.endClient hget hcause (fun _ h => h) haborted
  · rename_i haborted
    rw [foldl_cleanupNested_none]
    · exact hs.endClient hget hcause (fun _ => mem_append_left _)
        (mem_append_right _ (mem_singleton.mpr rfl))
    · intro other hmem
      show (s.clients.delete key).get? other = none
      rw [get?_delete]
      split
      · rfl
      · rename_i hne
        exact halone haborted other hmem hne

theorem Good.clientEvent (hs : Good s) {digest : ConnectConfig → Key}
    (hc : Bound digest s (.clientEvent client)) :
    Good (s.clientEvent client) := by
  rw [SSHClientsManager.clientEvent]
  split
  · exact hs
  · rename_i key hkey
    rcases hget : s.clients.get? key with _ | registration
    · rw [SSHClientsManager.cleanupClient, cleanupNested_none _ hget]
      exact hs
    · obtain ⟨hclient, halone⟩ := hc key registration hkey hget
      subst hclient
      exact hs.ownEvent hget halone

theorem Good.abort (hs : Good s) (controller : AbortController) : Good (s.abort controller) := by
  rw [SSHClientsManager.abort]
  split
  · exact hs
  · exact good_foldl (fun _ key hs => hs.cleanupClient key) _ (hs.markAborted controller)

theorem Good.cleanupStaleConnections (hs : Good s) : Good s.cleanupStaleConnections := by
  refine good_foldl ?_ _ hs
  intro t key ht
  rw [SSHClientsManager.cleanupStale]
  split
  · exact ht
  · split
    · exact ht.cleanupClient key
    · exact ht

/-! ## Registering -/

theorem Good.touch (hs : Good s) (hget : s.clients.get? key = some registration) :
    Good (s.touch key registration) := by
  have hsame : ∀ other r, (s.touch key registration).clients.get? other
      = some r → ∃ r', s.clients.get? other = some r' ∧ r'.client = r.client := by
    intro other r h
    have hset := (get?_set ..).symm.trans h
    split at hset
    · rename_i heq
      subst heq
      cases hset
      exact ⟨registration, hget, rfl⟩
    · exact ⟨r, hset, rfl⟩
  refine ⟨?_, ?_, hs.created, hs.cause, ?_⟩
  · intro other r h
    obtain ⟨r', hr', hclient⟩ := hsame other r h
    rw [← hclient]
    exact hs.reversed other r' hr'
  · intro other r h
    obtain ⟨r', hr', hclient⟩ := hsame other r h
    rw [← hclient]
    exact hs.alive other r' hr'
  · intro client controller hpassed
    refine (hs.passed client controller hpassed).imp_right ?_
    rintro ⟨other, r, hr, hclient, hcontroller⟩
    by_cases hkey : key = other
    · subst hkey
      rw [hget] at hr
      cases hr
      exact ⟨key, { registration with lastUsed := s.now },
        (get?_set ..).trans (if_pos rfl), hclient, hcontroller⟩
    · exact ⟨other, r, (get?_set ..).trans ((if_neg hkey).trans hr), hclient, hcontroller⟩

theorem Good.register (hs : Good s) (hfree : s.clients.get? key = none)
    (controller : AbortController) : Good (s.register key controller) := by
  have hget : ∀ other r, (s.register key controller).clients.get? other
      = some r → (key = other ∧ r.client = s.clientsReversed.length)
        ∨ s.clients.get? other = some r := by
    intro other r h
    have hset := (get?_set ..).symm.trans h
    split at hset
    · rename_i heq
      cases hset
      exact .inl ⟨heq, rfl⟩
    · exact .inr hset
  refine ⟨?_, ?_, ?_, hs.cause, ?_⟩
  · intro other r h
    show (s.clientsReversed ++ [key])[r.client]? = some other
    rcases hget other r h with ⟨heq, hclient⟩ | hold
    · rw [hclient, getElem?_append_right (Nat.le_refl _), Nat.sub_self, heq]
      rfl
    · have hreversed := hs.reversed other r hold
      have hless := (List.getElem?_eq_some_iff.mp hreversed).1
      rw [getElem?_append_left hless]
      exact hreversed
  · intro other r h ended hmem
    rcases hget other r h with ⟨-, hclient⟩ | hold
    · rw [hclient]
      exact Nat.ne_of_lt (hs.created ended hmem)
    · exact hs.alive other r hold ended hmem
  · intro ended hmem
    show _ < (s.clientsReversed ++ [key]).length
    rw [length_append]
    exact Nat.lt_succ_of_lt (hs.created ended hmem)
  · intro client other hpassed
    refine (hs.passed client other hpassed).imp_right ?_
    rintro ⟨k, r, hr, hclient, hcontroller⟩
    have hne : key ≠ k := by
      rintro rfl
      rw [hfree] at hr
      cases hr
    exact ⟨k, r, (get?_set ..).trans ((if_neg hne).trans hr), hclient, hcontroller⟩

theorem Good.notePassed (hs : Good s) {abortController : Option Nat}
    (h : ∀ id, abortController = some id → .passed id ∈ s.aborted ∨ ∃ key registration,
        s.clients.get? key = some registration ∧ registration.client = client
          ∧ registration.abortController = .passed id) :
    Good (s.notePassed client abortController) :=
  { hs with
    passed := by
      intro other controller hmem
      rcases mem_append.mp hmem with hold | hnew
      · exact hs.passed other controller hold
      · rcases habort : abortController with _ | id
        · rw [habort] at hnew
          cases hnew
        · rw [habort] at hnew
          cases mem_singleton.mp hnew
          exact h id habort }

theorem Good.getClient (hs : Good s) {digest : ConnectConfig → Key}
    {credentials : SSHCredentials} {abortController : Option Nat}
    (hc : Bound digest s (.getClient credentials abortController)) :
    Good (s.getClient digest credentials abortController) := by
  show Good (match s.clients.get? (digest credentials.sshConfig) with
    | some existing => _
    | none => _)
  split
  · rename_i existing hget
    refine (hs.touch hget).notePassed ?_
    intro id heq
    subst heq
    rcases hc existing hget with hsame | haborted
    · exact .inr ⟨_, { existing with lastUsed := s.now },
        (get?_set ..).trans (if_pos rfl), rfl, hsame.symm⟩
    · exact .inl haborted
  · rename_i hfree
    refine (hs.register hfree _).notePassed ?_
    intro id heq
    subst heq
    exact .inr ⟨_, _, (get?_set ..).trans (if_pos rfl), rfl, rfl⟩

theorem Good.updateLastUsed (hs : Good s) (client : ClientId) : Good (s.updateLastUsed client) := by
  rw [SSHClientsManager.updateLastUsed]
  split
  · exact hs
  · split
    · exact hs
    · rename_i hget
      exact hs.touch hget

end

/-! ## Runs -/

/-- **ONE STEP**: the invariant survives every step that meets the
    condition. -/
theorem Good.step {digest : ConnectConfig → Key}
    {s t : SSHClientsManager Key} {e : Event} (hs : Good s)
    (h : Step digest s e t) (hc : Bound digest s e) : Good t := by
  subst h
  cases e with
  | tick millis => exact { hs with }
  | getClient credentials abortController => exact hs.getClient hc
  | updateLastUsed client => exact hs.updateLastUsed client
  | clientEvent client => exact hs.clientEvent hc
  | abort abortController => exact hs.abort _
  | cleanupStaleConnections => exact hs.cleanupStaleConnections
  | onShutdown => exact good_foldl (fun _ key hs => hs.cleanupClient key) _ hs

theorem good_start (idleTimeout now : Nat) :
    Good (.start idleTimeout now : SSHClientsManager Key) :=
  ⟨fun _ _ h => (by cases h), fun _ _ h => (by cases h),
    fun _ h => (by cases h), fun _ h => (by cases h), fun _ _ h => by cases h⟩

/-- **OWN CLEANUP**: in a run in which a client has its events while it is
    the one registered, and shares no controller with another one, its events
    clean up no other client, what is registered has not been ended, and what
    is ended has all its controllers aborted. -/
theorem ownCleanup_of_bound {digest : ConnectConfig → Key}
    {idleTimeout now : Nat} {path : List (Event × SSHClientsManager Key)}
    (hrun : IsRun (Step digest) (.start idleTimeout now) path)
    (hc : EveryStep (Bound digest) (.start idleTimeout now) path) :
    EveryState OwnCleanup (.start idleTimeout now) path := by
  have hall : EveryState Good (.start idleTimeout now) path :=
    everyState_of_everyStep hrun (good_start idleTimeout now)
      (fun _ _ _ hs hstep hc => hs.step hstep hc) hc
  exact hall.mono fun _ hs => hs.ownCleanup

/-! ## Two runs -/

def credentials : SSHCredentials :=
  { sshHost := "localhost"
    sshPort := 22
    sshUser := "user"
    sshAuthenticateWith := .password "password" }

/-- The manager with the configurations themselves for hashes. -/
abbrev Manager := SSHClientsManager ConnectConfig

def after (s : Manager) (e : Event) : Manager := s.next id e

/-- Two callers share a controller, and the client closes once. -/
def closesOnce : List Event :=
  [.getClient credentials (some 0), .getClient credentials (some 0),
    .clientEvent 0, .getClient credentials none]

/-- The client ends, another one takes its place, and the first one closes. -/
def closesLate : List Event :=
  [.getClient credentials none, .clientEvent 0, .getClient credentials none, .clientEvent 0]

theorem closesOnce_ownCleanup :
    EveryState OwnCleanup (.start 300 0) (pathOf after (.start 300 0) closesOnce) := by
  have hrun : IsRun (Step id) (.start 300 0) (pathOf after (.start 300 0) closesOnce) :=
    ⟨rfl, rfl, rfl, rfl, trivial⟩
  refine ownCleanup_of_bound hrun ⟨?_, ?_, ?_, trivial, trivial⟩
  · intro registration hget
    cases hget
  · intro registration hget
    cases hget
    exact .inl rfl
  · intro key registration hkey hget
    cases hkey
    cases hget
    refine ⟨rfl, ?_⟩
    intro _ other hmem hne
    cases mem_singleton.mp hmem
    exact absurd rfl hne

/-- The second client is ended for an event of the first one. -/
theorem closesLate_endsOther :
    ¬ ∀ idleTimeout now (path : List (Event × Manager)), IsRun (Step id)
    (.start idleTimeout now) path → EveryState OwnCleanup (.start idleTimeout now) path := by
  intro hall
  have hrun : IsRun (Step id) (.start 300 0) (pathOf after (.start 300 0) closesLate) :=
    ⟨rfl, rfl, rfl, rfl, trivial⟩
  have hlast := (hall 300 0 _ hrun).last
  have hended : { client := 1, cause := some 0 } ∈
      (lastState (.start 300 0 : Manager) (pathOf after (.start 300 0) closesLate)).ended :=
    mem_cons_of_mem _ (mem_singleton.mpr rfl)
  have hown := hlast.cause _ hended 0 rfl
  cases hown

end N8nSSHClients
