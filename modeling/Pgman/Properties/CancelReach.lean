import Pgman.Construction.Session.Registry

/-!
# Who a cancellation reaches

A client's `CancelRequest` should reach the backend its own session has checked out, and no other.
Two gaps between locks let it reach another one (`cancel_reaches_a_stranger`):

* The relay clears its session's backend pointer after it has given the connection back.  In
  between, the pointer leads to a connection that may already serve another session.
* The secret is compared with the session found by one lookup, and the backend is read from the
  session found by another.  In between, the pid may have come to belong to somebody else.

`Careful` steps avoid the two: no pointer is read between `Release` or `Discard` and
`setBackend(nil)`, and no pid is registered while a cancellation of another session with that pid
stands between its lookups.  In runs of such steps every cancellation reaches its presenter's own
backend (`cancel_reaches_own_backend`).
-/

namespace Pgman

/-- Between the relay's giving a connection back and its clearing the pointer. -/
def Seat.isReturned : Seat → Bool
  | .returned _ => true
  | _ => false

/-- What was presented to a call that has compared the secret, and has yet to look its session up
again. -/
def CancelCall.admitted : CancelCall → Option Ident
  | .cancels _ presenter => presenter
  | _ => none

namespace Registry

variable {s s' : Registry} {e : RegistryEvent} {k : Caller} {call call' : CancelCall} {id : Ident}

/-! ## The condition -/

/-- No pid goes to a second session while a cancellation of the first stands between its lookups,
and no pointer is read while it is out of date. -/
def Careful (s : Registry) : RegistryEvent → Prop
  | .register _ id => ∀ call ∈ s.calls, ∀ id' ∈ call.admitted, id'.pid = id.pid → id' = id
  | .cancel j .read =>
      match s.calls[j]? with
      | some (.found k _ _) => (s.seat k).isReturned = false
      | _ => True
  | _ => True

instance (s : Registry) (e : RegistryEvent) : Decidable (s.Careful e) := by
  unfold Careful
  split
  · infer_instance
  · split <;> infer_instance
  · infer_instance

/-! ## What a call knows -/

/-- At each point of a call: what its session has to do with what was presented. -/
def CallOk (s : Registry) : CancelCall → Prop
  | .cancels pid (some id) => id.pid = pid ∧ ∀ k, s.sessions pid = some k → s.ident k = some id
  | .found k _ (some id) => s.ident k = some id
  | .holds _ (some id) owner => owner = some id
  | _ => True

/-- Calls have found the presenter's own session, and sent its own backend's key. -/
structure Faithful (s : Registry) : Prop where
  calls : ∀ call ∈ s.calls, s.CallOk call
  sent : ∀ m ∈ s.sent, ∀ id ∈ m.presenter, m.owner = some id

/-- Calls do not notice what changes neither the table nor the sessions' identities. -/
lemma CallOk.congr (h : s.CallOk call) (hsessions : s'.sessions = s.sessions)
    (hident : s'.ident = s.ident) : s'.CallOk call := by
  unfold CallOk at h ⊢
  rw [hsessions, hident]
  exact h

lemma Faithful.congr (h : s.Faithful) (hsessions : s'.sessions = s.sessions)
    (hident : s'.ident = s.ident) (hcalls : s'.calls = s.calls) (hsent : s'.sent = s.sent) :
    s'.Faithful :=
  ⟨fun call hc => (h.calls call (hcalls ▸ hc)).congr hsessions hident,
    fun m hm => h.sent m (hsent ▸ hm)⟩

/-! ## The steps -/

/-- A session found under a pid with the secret presented is the presenter's. -/
lemma handleCancelRequest_ok (hsound : s.Sound) (id : Ident) :
    s.CallOk (s.handleCancelRequest id) := by
  unfold handleCancelRequest lookupSession
  split
  · trivial
  · rename_i k hk
    split
    · rename_i hsecret
      refine ⟨rfl, fun k' hk' => ?_⟩
      obtain rfl : k = k' := Option.some.inj (hk.symm.trans hk')
      obtain ⟨secret, hid⟩ := hsound.listed id.pid k hk
      rw [hid] at hsecret ⊢
      simp only [Option.map_some, Option.some.injEq] at hsecret
      rw [hsecret]
    · trivial

lemma cancelSession_ok {pid : UInt32} {presenter : Option Ident}
    (h : s.CallOk (.cancels pid presenter)) : s.CallOk (s.cancelSession pid presenter) := by
  unfold cancelSession lookupSession
  split
  · trivial
  · rename_i k hk
    cases presenter with
    | none => trivial
    | some id => exact h.2 k hk

/-- A pointer that is not out of date leads to the connection its session has checked out. -/
lemma readBackend_ok {pid : UInt32} {presenter : Option Ident} (hsound : s.Sound)
    (hseat : (s.seat k).isReturned = false) (h : s.CallOk (.found k pid presenter)) :
    s.CallOk (s.readBackend k pid presenter) := by
  unfold readBackend
  split
  · trivial
  · rename_i c hc
    cases presenter with
    | none => trivial
    | some id =>
      have hbound : s.seat k = .bound c := by
        rcases hsound.pointed k c hc with hb | hb
        · exact hb
        · simp [hb, Seat.isReturned] at hseat
      have hholder : s.holder c = some k := (hsound.exclusive k c).mpr (by rw [hbound]; rfl)
      show s.owner c = some id
      rw [owner, hholder]
      exact h

lemma callNext_ok {j : ℕ} {turn : CancelTurn} (hsound : s.Sound) (hcall : s.calls[j]? = some call)
    (hcareful : s.Careful (.cancel j turn)) (h : s.CallOk call)
    (hs : s.callNext call turn = some call') : s.CallOk call' := by
  unfold callNext at hs
  split at hs <;> cases hs
  · exact handleCancelRequest_ok hsound _
  · exact cancelSession_ok h
  · simp only [Careful, hcall] at hcareful
    exact readBackend_ok hsound hcareful h
  · trivial
  · trivial

lemma sends_ok {turn : CancelTurn} (h : s.CallOk call) :
    ∀ m ∈ sends call turn, ∀ id ∈ m.presenter, m.owner = some id := by
  intro m hm id hid
  unfold sends at hm
  split at hm
  · obtain rfl := List.mem_singleton.mp hm
    rw [Option.mem_def] at hid
    simp only at hid
    subst hid
    exact h
  · cases hm

lemma Faithful.register (h : s.Faithful) (hsound : s.Sound) (hcareful : s.Careful (.register k id))
    (hs : s.registerSession k id = some s') : s'.Faithful := by
  unfold registerSession at hs
  split at hs <;> cases hs
  rename_i hnew
  refine ⟨fun call hc => ?_, h.sent⟩
  have hok := h.calls call hc
  have hother : ∀ k' id', s.ident k' = some id' →
      Function.update s.ident k (some id) k' = some id' := by
    intro k' id' hk'
    have hne : k' ≠ k := by
      rintro rfl
      rw [hsound.absent k' hnew.1] at hk'
      cases hk'
    rw [Function.update_of_ne hne]
    exact hk'
  unfold CallOk at hok ⊢
  split at hok
  · rename_i pid id'
    refine ⟨hok.1, fun k' hk' => ?_⟩
    by_cases hp : pid = id.pid
    · -- the new session itself: the same identity, by the condition
      subst hp
      obtain rfl : k = k' := by simpa using hk'
      have := hcareful _ hc id' rfl hok.1
      simp [this]
    · simp only [Function.update_of_ne hp] at hk'
      exact hother k' id' (hok.2 k' hk')
  · exact hother _ _ hok
  · exact hok
  · trivial

lemma Faithful.deregister (h : s.Faithful) (hs : s.deregisterSession k = some s') :
    s'.Faithful := by
  unfold deregisterSession at hs
  split at hs
  · rename_i id _ _
    cases hs
    refine ⟨fun call hc => ?_, h.sent⟩
    have hok := h.calls call hc
    unfold CallOk at hok ⊢
    split at hok
    · rename_i pid id'
      refine ⟨hok.1, fun k' hk' => ?_⟩
      by_cases hp : pid = id.pid
      · simp [hp] at hk'
      · simp only [Function.update_of_ne hp] at hk'
        exact hok.2 k' hk'
    · exact hok
    · exact hok
    · trivial
  · cases hs

/-- The relay's steps leave the table, the identities and the calls alone. -/
lemma relay_frame {turn : RelayTurn} (hs : s.relay k turn = some s') :
    s'.sessions = s.sessions ∧ s'.ident = s.ident ∧ s'.calls = s.calls ∧ s'.sent = s.sent := by
  unfold relay at hs
  split at hs <;> split at hs <;> cases hs <;> exact ⟨rfl, rfl, rfl, rfl⟩

lemma Faithful.arrive (h : s.Faithful) (hcall : s.CallOk call) :
    { s with calls := s.calls ++ [call] }.Faithful := by
  refine ⟨fun call' hc => ?_, h.sent⟩
  rcases List.mem_append.mp hc with hc | hc
  · exact (h.calls call' hc).congr rfl rfl
  · obtain rfl := List.mem_singleton.mp hc
    exact hcall.congr rfl rfl

/-- **Every careful step** keeps the calls faithful. -/
theorem Faithful.step (h : s.Faithful) (hsound : s.Sound) (hcareful : s.Careful e)
    (hs : s.step e = some s') : s'.Faithful := by
  cases e with
  | register k id => exact h.register hsound hcareful hs
  | deregister k => exact h.deregister hs
  | relay k turn =>
    obtain ⟨h1, h2, h3, h4⟩ := relay_frame hs
    exact h.congr h1 h2 h3 h4
  | request id =>
    cases hs
    have hcall : s.CallOk (.presented id) := trivial
    exact h.arrive hcall
  | adminCancel pid =>
    cases hs
    have hcall : s.CallOk (.cancels pid none) := trivial
    exact h.arrive hcall
  | cancel j turn =>
    obtain ⟨call, hcall, hs⟩ := Option.bind_eq_some_iff.mp hs
    obtain ⟨call', hnext, rfl⟩ := Option.map_eq_some_iff.mp hs
    have hok := h.calls call (List.mem_of_getElem? hcall)
    refine ⟨fun call'' hc => ?_, fun m hm => ?_⟩
    · rcases List.mem_or_eq_of_mem_set hc with hc | rfl
      · exact (h.calls call'' hc).congr rfl rfl
      · exact (callNext_ok hsound hcall hcareful hok hnext).congr rfl rfl
    · rcases List.mem_append.mp hm with hm | hm
      · exact h.sent m hm
      · exact sends_ok hok m hm

/-! ## The main result -/

/-- **A cancellation reaches its presenter's own backend.**  In every run of careful steps, whenever
a `CancelRequest` has been sent to a server for one that a client has presented, the connection
whose key was used had been checked out, at the moment it was read, by the session with the pid and
the secret presented. -/
theorem cancel_reaches_own_backend (h : machine.Reach Careful s) :
    ∀ m ∈ s.sent, ∀ id, m.presenter = some id → m.owner = some id := by
  have hfaithful : s.Faithful := by
    induction h with
    | init h0 => exact h0 ▸ ⟨by simp [start], by simp [start]⟩
    | step hreach hC hs ih => exact ih.step (sound_of_reach hreach) hC hs
  exact fun m hm id hid => hfaithful.sent m hm id hid

/-- A session with a transaction in progress. -/
def engaged (k : Caller) (id : Ident) (c : Conn) : List RegistryEvent :=
  [.register k id, .relay k (.acquire c), .relay k .setBackend]

/-- A client cancels, from its request to the sending of its `j`th call. -/
def cancelled (id : Ident) (j : ℕ) : List RegistryEvent :=
  [.request id, .cancel j .lookup, .cancel j .lookup, .cancel j .read, .cancel j (.send none)]

theorem cancel_reaches_own_backend_engaged :
    ∃ s, machine.Reach Careful s ∧ s.sent = [⟨7, some ⟨5, [1]⟩, some ⟨5, [1]⟩⟩] := by
  have hrun : ((machine.guarded Careful).run start
      (engaged 0 ⟨5, [1]⟩ 7 ++ cancelled ⟨5, [1]⟩ 0)).map
      (fun s => s.sent.map fun m => (m.key, m.presenter)) = some [(7, some ⟨5, [1]⟩)] := by
    decide
  obtain ⟨s, hs, hview⟩ := Option.map_eq_some_iff.mp hrun
  have hreach : machine.Reach Careful s := Machine.reach_of_guarded_run rfl hs
  obtain ⟨m, hm, heq⟩ := List.map_eq_singleton_iff.mp hview
  refine ⟨s, hreach, ?_⟩
  have howner := cancel_reaches_own_backend hreach m (by simp [hm]) ⟨5, [1]⟩ (congrArg Prod.snd heq)
  obtain ⟨key, presenter, owner⟩ := m
  simp only [Prod.mk.injEq] at heq howner
  rw [hm, heq.1, heq.2, howner]

/-- **A stranger is cancelled**, in two ways.  A session has given its connection back and not yet
cleared its pointer, the connection serves another session already, and the first one's client
cancels.  Or a client's session ends between the two lookups of its cancellation, and a new one is
registered under the same pid. -/
theorem cancel_reaches_a_stranger :
    (∃ s, machine.Reachable s ∧ s.sent = [⟨7, some ⟨5, [1]⟩, some ⟨6, [2]⟩⟩]) ∧
      ∃ s, machine.Reachable s ∧ s.sent = [⟨7, some ⟨5, [1]⟩, some ⟨5, [2]⟩⟩] := by
  constructor
  · have hrun : (machine.run start (engaged 0 ⟨5, [1]⟩ 7 ++ [RegistryEvent.relay 0 .giveBack] ++
        engaged 1 ⟨6, [2]⟩ 7 ++ cancelled ⟨5, [1]⟩ 0)).map (fun s => s.sent) =
        some [⟨7, some ⟨5, [1]⟩, some ⟨6, [2]⟩⟩] := by decide
    obtain ⟨s, hs, hsent⟩ := Option.map_eq_some_iff.mp hrun
    exact ⟨s, Machine.reach_of_run rfl hs, hsent⟩
  · have hrun : (machine.run start ([RegistryEvent.register 0 ⟨5, [1]⟩, .request ⟨5, [1]⟩,
        .cancel 0 .lookup, .deregister 0] ++ engaged 1 ⟨5, [2]⟩ 7 ++
        [RegistryEvent.cancel 0 .lookup, .cancel 0 .read, .cancel 0 (.send none)])).map
        (fun s => s.sent) =
        some [⟨7, some ⟨5, [1]⟩, some ⟨5, [2]⟩⟩] := by decide
    obtain ⟨s, hs, hsent⟩ := Option.map_eq_some_iff.mp hrun
    exact ⟨s, Machine.reach_of_run rfl hs, hsent⟩

end Registry

end Pgman
