import Pgman.Construction.Relay.Steady

/-!
# The session table, and cancelling through it

A client is told a fake pid and a secret, and presents both on a new connection to cancel what its
session is doing.  `handleCancelRequest` finds the session in the table and compares the secret;
`cancelSession`, which the admin interface calls too, looks the pid up again, reads the session's
backend pointer, and sends the backend's own key to the server.

Three locks are involved, and none is held across two of these steps: the table's, the session's,
and the pool's.  A step of this machine is what happens under one of them.  In particular the relay
gives a connection back to the pool in one step and clears its session's pointer in the next
(`Seat.returned` is the state in between), and takes one from the pool before it sets the pointer
(`Seat.acquired`).

The table is split into shards by the pid, each a map with a lock of its own; a pid has one shard,
so this is one map, and every operation on it is a step.  `registerSession` draws pids until one is
free: here any free pid other than 0 may come up, and its panic after a hundred draws is left out.
What a cancellation sends is read off fields of the connection that never change (`addr`, `pid`,
`secretKey`, `cancelTLS`), so a key is its connection.  Of the pool this machine knows one thing:
`Acquire` hands out connections that nobody has checked out.

The relay's steps are those of `Construction/Relay/World.lean`, taken apart where it takes a lock:
`relay_refines`.
-/

namespace Pgman

/-- What a client is told, and presents to cancel. -/
structure Ident where
  pid : UInt32
  secret : List UInt8
  deriving DecidableEq, Repr

/-- Where a session's goroutine is between the pool and its backend pointer. -/
inductive Seat
  /-- Not registered yet. -/
  | absent
  | loose
  /-- `Acquire` examines a connection. -/
  | checking (c : Conn)
  /-- `Acquire` has returned; `setBackend` is next. -/
  | acquired (c : Conn)
  | bound (c : Conn)
  /-- `Release` or `Discard` has returned; `setBackend(nil)` is next. -/
  | returned (c : Conn)
  /-- Deregistered. -/
  | left
  deriving DecidableEq, Repr

/-- The connection a session has checked out. -/
def Seat.hand : Seat → Option Conn
  | .checking c | .acquired c | .bound c => some c
  | _ => none

/-- How a call to cancel ended. -/
inductive CancelOutcome
  | unknownSession
  | secretMismatch
  | failed (err : String)
  | forwarded
  deriving DecidableEq, Repr

/-- Where a call to cancel is.  `presenter` is what the client has presented; the admin interface
presents nothing. -/
inductive CancelCall
  /-- `handleCancelRequest` begins. -/
  | presented (id : Ident)
  /-- `cancelSession` begins. -/
  | cancels (pid : UInt32) (presenter : Option Ident)
  /-- `cancelSession` has its session. -/
  | found (k : Caller) (pid : UInt32) (presenter : Option Ident)
  /-- It has read the backend pointer.  `owner` is a history variable: who had the connection
  checked out at that moment. -/
  | holds (key : Conn) (presenter owner : Option Ident)
  | ended (outcome : CancelOutcome)
  deriving DecidableEq, Repr

/-- A `CancelRequest` on its way to a server. -/
structure SentCancel where
  key : Conn
  presenter : Option Ident
  owner : Option Ident
  deriving DecidableEq, Repr

structure Registry where
  /-- `globalSessions`. -/
  sessions : UInt32 → Option Caller
  /-- The session's `secret`, and the pid it was registered under. -/
  ident : Caller → Option Ident
  /-- `session.backend`. -/
  backend : Caller → Option Conn
  seat : Caller → Seat
  /-- Who has a connection checked out of the pool. -/
  holder : Conn → Option Caller
  calls : List CancelCall
  /-- What has been sent, a history variable. -/
  sent : List SentCancel

/-- A step of a session's relay. -/
inductive RelayTurn
  /-- `Acquire` pops a connection, to examine it. -/
  | take (c : Conn)
  /-- It closes the connection, and goes on. -/
  | retire
  /-- `Acquire` returns. -/
  | acquire (c : Conn)
  | setBackend
  /-- `Release` or `Discard`. -/
  | giveBack
  deriving DecidableEq, Repr

/-- A step of a call to cancel. -/
inductive CancelTurn
  | lookup
  | read
  | send (err : Option String)
  deriving DecidableEq, Repr

inductive RegistryEvent
  | register (k : Caller) (id : Ident)
  | deregister (k : Caller)
  | relay (k : Caller) (turn : RelayTurn)
  /-- A client's `CancelRequest` arrives. -/
  | request (id : Ident)
  /-- The admin interface cancels. -/
  | adminCancel (pid : UInt32)
  | cancel (j : ℕ) (turn : CancelTurn)
  deriving DecidableEq, Repr

namespace Registry

/-! ## The table -/

def lookupSession (s : Registry) (pid : UInt32) : Option Caller := s.sessions pid

def registerSession (s : Registry) (k : Caller) (id : Ident) : Option Registry :=
  if s.seat k = .absent ∧ id.pid ≠ 0 ∧ s.sessions id.pid = none then
    some { s with
      sessions := Function.update s.sessions id.pid (some k)
      ident := Function.update s.ident k (some id)
      seat := Function.update s.seat k .loose }
  else none

/-- Deferred until the relay has returned. -/
def deregisterSession (s : Registry) (k : Caller) : Option Registry :=
  match s.seat k, s.ident k with
  | .loose, some id =>
      some { s with
        sessions := Function.update s.sessions id.pid none
        seat := Function.update s.seat k .left }
  | _, _ => none

/-! ## The relay -/

/-- The session moves to another seat, and a connection into or out of its hands. -/
def move (s : Registry) (k : Caller) (seat : Seat) (c : Conn) (holder : Option Caller) : Registry :=
  { s with
    seat := Function.update s.seat k seat
    holder := Function.update s.holder c holder }

/-- `setBackend`, and what follows it. -/
def setBackend (s : Registry) (k : Caller) (b : Option Conn) (seat : Seat) : Registry :=
  { s with backend := Function.update s.backend k b, seat := Function.update s.seat k seat }

def relay (s : Registry) (k : Caller) : RelayTurn → Option Registry
  | .take c =>
      if s.seat k = .loose ∧ s.holder c = none then some (s.move k (.checking c) c (some k))
      else none
  | .retire =>
      match s.seat k with
      | .checking c => some (s.move k .loose c none)
      | _ => none
  | .acquire c =>
      if s.seat k = .loose ∧ s.holder c = none ∨ s.seat k = .checking c then
        some (s.move k (.acquired c) c (some k))
      else none
  | .setBackend =>
      match s.seat k with
      | .acquired c => some (s.setBackend k (some c) (.bound c))
      | .returned _ => some (s.setBackend k none .loose)
      | _ => none
  | .giveBack =>
      match s.seat k with
      | .bound c => some (s.move k (.returned c) c none)
      | _ => none

/-! ## Cancelling -/

/-- The identity of the session that has a connection checked out. -/
def owner (s : Registry) (c : Conn) : Option Ident := (s.holder c).bind s.ident

/-- `handleCancelRequest`, up to its call of `cancelSession`. -/
def handleCancelRequest (s : Registry) (id : Ident) : CancelCall :=
  match s.lookupSession id.pid with
  | none => .ended .unknownSession
  | some k =>
      if (s.ident k).map Ident.secret = some id.secret then .cancels id.pid (some id)
      else .ended .secretMismatch

/-- `cancelSession`, up to the session's lock. -/
def cancelSession (s : Registry) (pid : UInt32) (presenter : Option Ident) : CancelCall :=
  match s.lookupSession pid with
  | none => .ended (.failed s!"session {pid} not found")
  | some k => .found k pid presenter

/-- `cancelSession` under the session's lock. -/
def readBackend (s : Registry) (k : Caller) (pid : UInt32) (presenter : Option Ident) :
    CancelCall :=
  match s.backend k with
  | none => .ended (.failed s!"session {pid} has no in-flight transaction to cancel")
  | some c => .holds c presenter (s.owner c)

/-- A call goes on, until it sends. -/
def callNext (s : Registry) : CancelCall → CancelTurn → Option CancelCall
  | .presented id, .lookup => some (s.handleCancelRequest id)
  | .cancels pid presenter, .lookup => some (s.cancelSession pid presenter)
  | .found k pid presenter, .read => some (s.readBackend k pid presenter)
  | .holds _ _ _, .send none => some (.ended .forwarded)
  | .holds _ _ _, .send (some err) => some (.ended (.failed err))
  | _, _ => none

/-- What a step of a call sends; `sendRealCancelRequest` fails before it has written, or sends. -/
def sends : CancelCall → CancelTurn → List SentCancel
  | .holds key presenter owner, .send none => [⟨key, presenter, owner⟩]
  | _, _ => []

def cancel (s : Registry) (j : ℕ) (turn : CancelTurn) : Option Registry :=
  s.calls[j]?.bind fun call =>
    (s.callNext call turn).map fun call' =>
      { s with calls := s.calls.set j call', sent := s.sent ++ sends call turn }

/-! ## The machine -/

def step (s : Registry) : RegistryEvent → Option Registry
  | .register k id => s.registerSession k id
  | .deregister k => s.deregisterSession k
  | .relay k turn => s.relay k turn
  | .request id => some { s with calls := s.calls ++ [.presented id] }
  | .adminCancel pid => some { s with calls := s.calls ++ [.cancels pid none] }
  | .cancel j turn => s.cancel j turn

def start : Registry where
  sessions _ := none
  ident _ := none
  backend _ := none
  seat _ := .absent
  holder _ := none
  calls := []
  sent := []

def machine : Machine Registry RegistryEvent where
  init s := s = start
  step := step

/-! ## The table, the pointers and the hands -/

variable {s s' : Registry} {k : Caller} {c : Conn} {id : Ident} {turn : RelayTurn}
  {e : RegistryEvent}

/-- What every reachable state keeps, whatever calls are in progress. -/
structure Sound (s : Registry) : Prop where
  /-- Sessions are listed under their own pids. -/
  listed : ∀ pid k, s.sessions pid = some k → ∃ secret, s.ident k = some ⟨pid, secret⟩
  absent : ∀ k, s.seat k = .absent → s.ident k = none
  /-- A pointer leads to the connection its session uses, or has just given back. -/
  pointed : ∀ k c, s.backend k = some c → s.seat k = .bound c ∨ s.seat k = .returned c
  exclusive : ∀ k c, s.holder c = some k ↔ (s.seat k).hand = some c

lemma start_sound : start.Sound where
  listed _ _ h := by cases h
  absent _ _ := rfl
  pointed _ _ h := by cases h
  exclusive _ _ := by simp [start, Seat.hand]

/-- A session that is not registered is nowhere in the table. -/
lemma Sound.not_listed (h : s.Sound) (hk : s.seat k = .absent) (pid : UInt32) :
    s.sessions pid ≠ some k := by
  intro hpid
  obtain ⟨secret, hid⟩ := h.listed pid k hpid
  rw [h.absent k hk] at hid
  cases hid

/-- A session without a connection has no pointer. -/
lemma Sound.not_pointed (h : s.Sound) (hb : ∀ c, s.seat k ≠ .bound c)
    (hr : ∀ c, s.seat k ≠ .returned c) (c : Conn) : s.backend k ≠ some c := by
  intro hc
  rcases h.pointed k c hc with hb' | hr'
  · exact hb c hb'
  · exact hr c hr'

/-- Another seat with the same connection in hand. -/
lemma Sound.reseat (h : s.Sound) {seat : Seat} (hhand : seat.hand = (s.seat k).hand) (k' : Caller)
    (c : Conn) : s.holder c = some k' ↔ (Function.update s.seat k seat k').hand = some c := by
  by_cases hk : k' = k
  · subst hk
    rw [Function.update_self, hhand]
    exact h.exclusive k' c
  · rw [Function.update_of_ne hk]
    exact h.exclusive k' c

lemma absent_of_update {seat : Seat} (hseat : seat ≠ .absent) {k' : Caller}
    (h : Function.update s.seat k seat k' = .absent) : k' ≠ k ∧ s.seat k' = .absent := by
  have hne : k' ≠ k := by
    rintro rfl
    rw [Function.update_self] at h
    exact hseat h
  rw [Function.update_of_ne hne] at h
  exact ⟨hne, h⟩

lemma Sound.register (h : s.Sound) (hs : s.registerSession k id = some s') : s'.Sound := by
  unfold registerSession at hs
  split at hs <;> cases hs
  rename_i hnew
  refine ⟨fun pid k' hpid => ?_, fun k' hk' => ?_, fun k' c hc => ?_,
    h.reseat (by rw [hnew.1]; rfl)⟩
  · by_cases hp : pid = id.pid
    · subst hp
      obtain rfl : k = k' := by simpa using hpid
      exact ⟨id.secret, by simp⟩
    · simp only [Function.update_of_ne hp] at hpid
      have hne : k' ≠ k := fun heq => h.not_listed hnew.1 pid (heq ▸ hpid)
      simpa [Function.update_of_ne hne] using h.listed pid k' hpid
  · obtain ⟨hne, hk'⟩ := absent_of_update (by simp) hk'
    simpa only [Function.update_of_ne hne] using h.absent k' hk'
  · have hne : k' ≠ k := by
      rintro rfl
      exact h.not_pointed (by simp [hnew.1]) (by simp [hnew.1]) c hc
    simpa only [Function.update_of_ne hne] using h.pointed k' c hc

lemma Sound.deregister (h : s.Sound) (hs : s.deregisterSession k = some s') : s'.Sound := by
  unfold deregisterSession at hs
  split at hs
  · rename_i id hseat hid
    cases hs
    refine ⟨fun pid k' hpid => ?_, fun k' hk' => ?_, fun k' c hc => ?_,
      h.reseat (by rw [hseat]; rfl)⟩
    · by_cases hp : pid = id.pid
      · simp [hp] at hpid
      · simp only [Function.update_of_ne hp] at hpid
        exact h.listed pid k' hpid
    · exact h.absent k' (absent_of_update (by simp) hk').2
    · have hne : k' ≠ k := by
        rintro rfl
        exact h.not_pointed (by simp [hseat]) (by simp [hseat]) c hc
      simpa only [Function.update_of_ne hne] using h.pointed k' c hc
  · cases hs

/-- A session takes a connection nobody else has, or lets go of its own. -/
lemma Sound.move {seat : Seat} (h : s.Sound) (hseat : seat ≠ .absent)
    (hhand : ∀ c', (s.seat k).hand = some c' → c' = c) (hown : ∀ k', s.holder c = some k' → k' = k)
    (hpointed : ∀ c', s.backend k = some c' → seat = .bound c' ∨ seat = .returned c')
    (hafter : seat.hand = some c ∨ seat.hand = none) :
    (s.move k seat c (seat.hand.map fun _ => k)).Sound := by
  refine ⟨h.listed, fun k' hk' => h.absent k' (absent_of_update hseat hk').2,
    fun k' c' hc' => ?_, fun k' c' => ?_⟩
  · by_cases hk : k' = k
    · subst hk
      simpa [Registry.move] using hpointed c' hc'
    · simpa only [Registry.move, Function.update_of_ne hk] using h.pointed k' c' hc'
  · simp only [Registry.move]
    by_cases hk : k' = k
    · subst hk
      rw [Function.update_self]
      by_cases hc : c' = c
      · subst hc
        rw [Function.update_self]
        rcases hafter with hh | hh <;> simp [hh]
      · have hno : s.holder c' ≠ some k' := fun hp => hc (hhand c' ((h.exclusive k' c').mp hp))
        rw [Function.update_of_ne hc]
        rcases hafter with hh | hh <;> simp [hh, hno, Ne.symm hc]
    · rw [Function.update_of_ne hk]
      by_cases hc : c' = c
      · subst hc
        have hno : (s.seat k').hand ≠ some c' :=
          fun hh => hk (hown k' ((h.exclusive k' c').mpr hh))
        rw [Function.update_self]
        rcases hafter with hh | hh <;> simp [hh, hno, Ne.symm hk]
      · rw [Function.update_of_ne hc]
        exact h.exclusive k' c'

lemma Sound.setBackend {b : Option Conn} {seat : Seat} (h : s.Sound) (hseat : seat ≠ .absent)
    (hhand : seat.hand = (s.seat k).hand) (hb : ∀ c, b = some c → seat = .bound c) :
    (s.setBackend k b seat).Sound := by
  refine ⟨h.listed, fun k' hk' => h.absent k' (absent_of_update hseat hk').2, fun k' c hc => ?_,
    h.reseat hhand⟩
  simp only [Registry.setBackend] at hc ⊢
  by_cases hk : k' = k
  · subst hk
    rw [Function.update_self] at hc ⊢
    exact .inl (hb c hc)
  · rw [Function.update_of_ne hk] at hc ⊢
    exact h.pointed k' c hc

/-- A session's own connection is in nobody else's hands. -/
lemma Sound.own (h : s.Sound) (hc : (s.seat k).hand = some c) (k' : Caller)
    (hp : s.holder c = some k') : k' = k := by
  rw [(h.exclusive k c).mpr hc] at hp
  exact (Option.some.inj hp).symm

lemma Sound.relay (h : s.Sound) (hs : s.relay k turn = some s') : s'.Sound := by
  unfold Registry.relay at hs
  split at hs
  · split at hs <;> cases hs
    rename_i c hc
    exact h.move (by simp) (by simp [hc.1, Seat.hand]) (by simp [hc.2])
      (fun c' hc' => absurd hc' (h.not_pointed (by simp [hc.1]) (by simp [hc.1]) c')) (.inl rfl)
  · split at hs <;> cases hs
    rename_i c hc
    have hseat : Seat.loose ≠ .absent := by simp
    exact h.move hseat (by simp [hc, Seat.hand]) (h.own (by rw [hc]; rfl))
      (fun c' hc' => absurd hc' (h.not_pointed (by simp [hc]) (by simp [hc]) c')) (.inr rfl)
  · split at hs <;> cases hs
    rename_i c hc
    have hbound : ∀ c', s.seat k ≠ .bound c' := by rcases hc with hc | hc <;> simp [hc]
    have hreturned : ∀ c', s.seat k ≠ .returned c' := by rcases hc with hc | hc <;> simp [hc]
    refine h.move (by simp) (fun c' hc' => ?_) (fun k' hp => ?_)
      (fun c' hc' => absurd hc' (h.not_pointed hbound hreturned c')) (.inl rfl)
    · rcases hc with hc | hc
      · simp [hc.1, Seat.hand] at hc'
      · simpa [hc, Seat.hand, eq_comm] using hc'
    · rcases hc with hc | hc
      · simp [hc.2] at hp
      · exact h.own (by rw [hc]; rfl) k' hp
  · split at hs <;> cases hs
    · rename_i c hc
      exact h.setBackend (by simp) (by rw [hc]; rfl) (fun _ hb => by rw [Option.some.inj hb])
    · rename_i c hc
      exact h.setBackend (by simp) (by rw [hc]; rfl) (fun _ hb => by cases hb)
  · split at hs <;> cases hs
    rename_i c hc
    have hseat : Seat.returned c ≠ .absent := by simp
    refine h.move hseat (by simp [hc, Seat.hand]) (h.own (by rw [hc]; rfl))
      (fun c' hc' => ?_) (.inr rfl)
    simpa [hc] using h.pointed k c' hc'

lemma Sound.step (h : s.Sound) (hs : s.step e = some s') : s'.Sound := by
  cases e with
  | register k id => exact h.register hs
  | deregister k => exact h.deregister hs
  | relay k turn => exact h.relay hs
  | request id => cases hs; exact ⟨h.listed, h.absent, h.pointed, h.exclusive⟩
  | adminCancel pid => cases hs; exact ⟨h.listed, h.absent, h.pointed, h.exclusive⟩
  | cancel j turn =>
    obtain ⟨call, -, hs⟩ := Option.bind_eq_some_iff.mp hs
    obtain ⟨call', -, rfl⟩ := Option.map_eq_some_iff.mp hs
    exact ⟨h.listed, h.absent, h.pointed, h.exclusive⟩

theorem sound_of_reach {C : Registry → RegistryEvent → Prop} (h : machine.Reach C s) : s.Sound :=
  h.invariant (fun _ h0 => h0 ▸ start_sound) (fun _ _ _ hI _ hs => hI.step hs)

/-! ## The relay, taken apart at its locks -/

/-- The steps an act of the relay consists of. -/
def turns : Act → List RelayTurn
  | .take c => [.take c]
  | .retire _ => [.retire]
  | .acquire c => [.acquire c, .setBackend]
  | .release _ | .discard _ => [.giveBack, .setBackend]
  | _ => []

def seatOf : Grip → Seat
  | .loose => .loose
  | .checking c => .checking c
  | .holding c => .bound c

/-- Who has a connection, going by its place. -/
def holderOf : Place Caller → Option Caller
  | .held k => some k
  | _ => none

/-- The registry follows session `k`, in a step about `touch`: its seat, and who has which
connection. -/
structure Follows (s : Registry) (k : Caller) (touch : Option Conn) (g : Grip)
    (place : Conn → Place Caller) : Prop where
  seat : s.seat k = seatOf g
  holder : ∀ c, s.holder c = holderOf (place c)
  free : ∀ c, touch = some c → g = .loose → s.holder c = none

section Refine

variable {touch : Option Conn} {g g₁ : Grip} {a : Act} {place : Conn → Place Caller}

/-- Where the connections are after an act of `k`. -/
def placeNext (k : Caller) (place : Conn → Place Caller) (a : Act) (c : Conn) : Place Caller :=
  if a.on = some c then LeaseSem.moved k (place c) a.lease else place c

/-- A connection has changed hands. -/
lemma Follows.moved (hs : s.Follows k touch g place) (hon : a.on = some c) {x : Option Caller}
    (hx : holderOf (LeaseSem.moved k (place c) a.lease) = x) (hseat : s'.seat k = seatOf g₁)
    (hholder : s'.holder = Function.update s.holder c x) (htouch : touch = some c)
    (hfree : g₁ = .loose → x = none) : s'.Follows k touch g₁ (placeNext k place a) := by
  refine ⟨hseat, fun c' => ?_, fun c' hc' hg => ?_⟩
  · unfold placeNext
    rw [hon, hholder]
    by_cases hc : c = c'
    · subst hc
      rw [Function.update_self, if_pos rfl, hx]
    · rw [Function.update_of_ne (Ne.symm hc), if_neg (fun h => hc (Option.some.inj h))]
      exact hs.holder c'
  · obtain rfl : c = c' := Option.some.inj (htouch.symm.trans hc')
    rw [hholder, Function.update_self]
    exact hfree hg

lemma Follows.idle (hs : s.Follows k touch g place) (hl : a.lease = none) :
    s.Follows k touch g (placeNext k place a) := by
  refine ⟨hs.seat, fun c => ?_, hs.free⟩
  unfold placeNext
  rw [hl, hs.holder c]
  simp [LeaseSem.moved]

lemma run_acquire (h : s.seat k = .loose ∧ s.holder c = none ∨ s.seat k = .checking c) :
    machine.run s [.relay k (.acquire c), .relay k .setBackend] =
      some ((s.move k (.acquired c) c (some k)).setBackend k (some c) (.bound c)) := by
  have hacquire : s.relay k (.acquire c) = some (s.move k (.acquired c) c (some k)) := if_pos h
  have hset : (s.move k (.acquired c) c (some k)).relay k .setBackend =
      some ((s.move k (.acquired c) c (some k)).setBackend k (some c) (.bound c)) := by
    simp [relay, Registry.move]
  simp only [Machine.run, machine, step, hacquire, hset, Option.bind_some]

lemma run_giveBack (h : s.seat k = .bound c) :
    machine.run s [.relay k .giveBack, .relay k .setBackend] =
      some ((s.move k (.returned c) c none).setBackend k none .loose) := by
  have hback : s.relay k .giveBack = some (s.move k (.returned c) c none) := by simp [relay, h]
  have hset : (s.move k (.returned c) c none).relay k .setBackend =
      some ((s.move k (.returned c) c none).setBackend k none .loose) := by
    simp [relay, Registry.move]
  simp only [Machine.run, machine, step, hback, hset, Option.bind_some]

lemma seat_of_other {seat seat' : Seat} {x : Option Caller} {b : Option Conn} {k' : Caller}
    (hk : k' ≠ k) : ((s.move k seat c x).setBackend k b seat').seat k' = s.seat k' := by
  simp [Registry.move, Registry.setBackend, Function.update_of_ne hk]

/-- An act of the relay is the steps it consists of. -/
lemma turns_refine (h : Grip.next touch g a = some g₁) (hs : s.Follows k touch g place) :
    ∃ s', machine.run s ((turns a).map (.relay k)) = some s' ∧
      s'.Follows k touch g₁ (placeNext k place a) ∧ ∀ k', k' ≠ k → s'.seat k' = s.seat k' := by
  have hseat := hs.seat
  unfold Grip.next at h
  split at h
  · rename_i hon
    cases h
    have hnone : turns a = [] ∧ a.lease = none := by
      cases a <;> first | exact ⟨rfl, rfl⟩ | simp [Act.on] at hon
    exact ⟨s, by rw [hnone.1]; rfl, hs.idle hnone.2, fun _ _ => rfl⟩
  · rename_i c hon
    split at h
    · rename_i htouch
      split at h
      · split at h <;> cases h
        rename_i c' hg
        obtain rfl : c' = c := Option.some.inj hon
        subst hg
        refine ⟨s.move k (.checking c') c' (some k), ?_,
          hs.moved hon rfl (by simp [Registry.move, seatOf]) rfl htouch (by simp), fun k' hk' => ?_⟩
        · simp [turns, Machine.run, machine, step, relay, hseat, seatOf, hs.free c' htouch rfl]
        · simp [Registry.move, Function.update_of_ne hk']
      · split at h <;> cases h
        rename_i c' hg
        obtain rfl : c' = c := Option.some.inj hon
        subst hg
        refine ⟨s.move k .loose c' none, ?_, hs.moved hon rfl (by simp [Registry.move, seatOf]) rfl
          htouch (fun _ => rfl), fun k' hk' => ?_⟩
        · simp [turns, Machine.run, machine, step, relay, hseat, seatOf]
        · simp [Registry.move, Function.update_of_ne hk']
      · split at h <;> cases h
        rename_i c' hg
        obtain rfl : c' = c := Option.some.inj hon
        refine ⟨_, run_acquire ?_, hs.moved hon rfl (by simp [Registry.setBackend, seatOf]) rfl
          htouch (by simp), fun k' hk' => seat_of_other hk'⟩
        rcases hg with rfl | rfl
        · exact .inl ⟨hseat, hs.free c' htouch rfl⟩
        · exact .inr hseat
      · split at h <;> cases h
        rename_i c' hg
        obtain rfl : c' = c := Option.some.inj hon
        subst hg
        exact ⟨_, run_giveBack hseat, hs.moved hon rfl (by simp [Registry.setBackend, seatOf]) rfl
          htouch (fun _ => rfl), fun k' hk' => seat_of_other hk'⟩
      · split at h <;> cases h
        rename_i c' hg
        obtain rfl : c' = c := Option.some.inj hon
        subst hg
        exact ⟨_, run_giveBack hseat, hs.moved hon rfl (by simp [Registry.setBackend, seatOf]) rfl
          htouch (fun _ => rfl), fun k' hk' => seat_of_other hk'⟩
      · split at h <;> cases h
        have hnone : turns a = [] ∧ a.lease = none := by
          cases a <;> first | exact ⟨rfl, rfl⟩ | simp_all
        exact ⟨s, by rw [hnone.1]; rfl, hs.idle hnone.2, fun _ _ => rfl⟩
    · cases h

lemma run_append (es es' : List RegistryEvent) :
    machine.run s (es ++ es') = (machine.run s es).bind fun s₁ => machine.run s₁ es' := by
  induction es generalizing s with
  | nil => rfl
  | cons e es ih =>
    simp only [List.cons_append, Machine.run]
    cases machine.step s e with
    | none => rfl
    | some s₁ => exact ih

lemma acts_refine {acts : List Act} {g' : Grip} (h : Grip.Runs touch g acts g')
    (hs : s.Follows k touch g place) :
    ∃ s', machine.run s ((acts.flatMap turns).map (.relay k)) = some s' ∧
      s'.Follows k touch g' (fun c => relaySem.placeAfter k c (place c) acts) ∧
      ∀ k', k' ≠ k → s'.seat k' = s.seat k' := by
  induction acts generalizing g s place with
  | nil => exact ⟨s, rfl, h ▸ hs, fun _ _ => rfl⟩
  | cons a acts ih =>
    obtain ⟨g₁, ha, hr⟩ := h
    obtain ⟨s₁, hrun₁, hs₁, hseat₁⟩ := turns_refine ha hs
    obtain ⟨s₂, hrun₂, hs₂, hseat₂⟩ := ih hr hs₁
    refine ⟨s₂, ?_, hs₂, fun k' hk' => (hseat₂ k' hk').trans (hseat₁ k' hk')⟩
    rw [List.flatMap_cons, List.map_append, run_append, hrun₁]
    exact hrun₂

end Refine

/-- The registry follows a world: sessions that are registered sit where their relays are, and the
hands are the same. -/
structure Mirrors (s : Registry) (w : World) : Prop where
  seat : ∀ k, s.seat k ≠ .absent → s.seat k ≠ .left → s.seat k = seatOf (w.loc k).grip
  holder : ∀ c, s.holder c = holderOf (w.place c)

/-- **A step of a session's relay** is a sequence of steps of this machine, one for each lock it
takes. -/
theorem relay_refines {opts : RuntimeOpts} {w w' : World} {i : Input}
    (hs : World.step opts w (.relay k i) = some w') (h : s.Mirrors w) (hreg : s.seat k ≠ .absent)
    (hleft : s.seat k ≠ .left) :
    ∃ (ts : List RelayTurn) (s' : Registry),
      machine.run s (ts.map (.relay k)) = some s' ∧ s'.Mirrors w' := by
  simp only [World.step] at hs
  split at hs
  · rename_i hadmits
    obtain ⟨r, hr, rfl⟩ := Option.map_eq_some_iff.mp hs
    have hfollows : s.Follows k (Relay.touch (w.loc k) i) (w.loc k).grip w.place := by
      refine ⟨h.seat k hreg hleft, h.holder, fun c hc hg => ?_⟩
      have hhand : (w.loc k).hand = none := by rw [Local.hand, hg]; rfl
      have hconn : i.conn = some c := by simpa [Relay.touch, hhand] using hc
      rw [h.holder c, hadmits c hconn]
      rfl
    obtain ⟨s', hrun, hs', hothers⟩ := acts_refine (Relay.step_runs hr) hfollows
    refine ⟨_, s', hrun, ⟨fun k' hreg' hleft' => ?_, hs'.holder⟩⟩
    by_cases hk : k' = k
    · subst hk
      simpa [Leased.perform] using hs'.seat
    · rw [hothers k' hk] at hreg' hleft' ⊢
      simpa [Leased.perform, Function.update_of_ne hk] using h.seat k' hreg' hleft'
  · cases hs

/-- What the pool does on its own, and the issuing of ids, are no steps of this machine. -/
lemma Mirrors.pool {opts : RuntimeOpts} {w w' : World} {a : Happening} (h : s.Mirrors w)
    (ha : ∀ k i, a ≠ .relay k i) (hs : World.step opts w a = some w') : s.Mirrors w' := by
  cases a with
  | relay k i => exact absurd rfl (ha k i)
  | register k =>
    simp only [World.step] at hs
    split at hs <;> cases hs
    refine ⟨fun k' hreg hleft => ?_, h.holder⟩
    have hgrip : ((w.register k).loc k').grip = (w.loc k').grip := by
      by_cases hk : k' = k
      · subst hk
        simp [World.register, Local.grip]
      · simp [World.register, Function.update_of_ne hk]
    rw [hgrip]
    exact h.seat k' hreg hleft
  | dial c | retire c =>
    simp only [World.step] at hs
    split at hs <;> cases hs
    rename_i hc
    refine ⟨h.seat, fun c' => ?_⟩
    by_cases hcc : c' = c
    · subst hcc
      simp only [Function.update_self]
      rw [h.holder c', hc]
      rfl
    · simpa only [Function.update_of_ne hcc] using h.holder c'

end Registry

end Pgman
