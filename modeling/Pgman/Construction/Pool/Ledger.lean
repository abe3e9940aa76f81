import Mathlib.Data.List.Count
import Mathlib.Tactic.Push
import Pgman.Construction.Pool.Model
import Pgman.Framework.Tally

/-!
# The pool's ledger

Who has a connection in hand at a program point is read off the program point itself:
`Op.tagged` lists the connections in hand that still have a `connMeta` record, `Op.untagged`
those that do not (freshly dialed, or already deleted from the table and about to be
closed), and `Op.slots` is the number of semaphore slots the call has taken and not given
back.

`Ledger` is the accounting identity over these: every dialed connection is counted exactly
once among the idle stack, the callers, the running calls and the closed connections; the
record table knows exactly the connections that are idle, held or tagged; and the semaphore
holds one token per caller and per slot in a running call.

Each primitive of the shared state moves the ledger in one way.  `opStep_ledger` reads off
which of them a program point performs, so it is the only place that looks at the code of
the calls.
-/

namespace Pgman.Pool

/-- Semaphore slots a call has taken, or received with a connection, and not yet given
back.  A foreign connection comes without a slot. -/
def Op.slots : Op → ℕ
  | .acqRecheck _ | .acqPop _ | .acqExamine _ _ | .acqCheck _ _ | .acqHealth _ _
  | .acqRetire _ _ _ | .acqRetireClose _ _ _ | .acqDial _ _ | .acqBackoff _ _ _
  | .acqTag _ _ | .acqStore _ _ _ | .acqFree _ _ => 1
  | .circuit (.acquire _) | .circuitNow (.acquire _) _ | .circuitCas (.acquire _) _ _ => 1
  | .dialFailed _ _ | .okStore _ _ | .okSwap _ _ => 1
  | .release _ _ | .relClosed _ _ _ | .relGen _ _ _ | .relPark _ _ _ _ | .relDelete _ _ _
  | .relClose _ _ _ | .relFree _ _ | .discard _ _ => 1
  | .warmDial _ | .warmPark _ _ _ | .warmClose _ | .warmAbort | .warmFree _ => 1
  | _ => 0

/-- Connections in a call's hands that have a `connMeta` record. -/
def Op.tagged : Op → List Conn
  | .acqExamine _ ic | .acqCheck _ ic | .acqHealth _ ic => [ic.conn]
  | .acqRetire _ c _ => [c]
  | .release _ c | .relClosed _ c _ | .relGen _ c _ | .relPark _ c _ _ | .relDelete _ c _
  | .discard _ c => [c]
  | .closeDone cs | .retire cs _ | .retireClose _ cs _ => cs
  | _ => []

/-- Connections in a call's hands that have no `connMeta` record. -/
def Op.untagged : Op → List Conn
  | .acqRetireClose _ c _ | .acqTag _ c | .acqStore _ c _ | .okStore _ c | .okSwap _ c
  | .relClose _ c _ | .rejectForeign _ c _ | .retireClose c _ _ | .warmPark _ c _
  | .warmClose c => [c]
  | _ => []

/-- Occurrences of `c` in the idle stack. -/
def idleCount (s : Shared) (c : Conn) : ℕ := (s.idle.map (·.conn)).count c

/-- Number of callers holding `c`. -/
def heldCount (s : Shared) (c : Conn) : ℕ := (s.held.map (·.2)).count c

/-- The fields of the shared state that the ledger reads. -/
def Shared.accounts (s : Shared) :=
  (s.idle, s.held, s.connMeta, s.closes, s.dialed, s.sem, s.events)

/-- The accounting identity, with the running calls summarised by how many tagged and
untagged copies of each connection and how many slots they have in hand. -/
structure Ledger (limit : ℕ) (s : Shared) (tag unt : Conn → ℕ) (slots : ℕ) : Prop where
  once : ∀ c, idleCount s c + heldCount s c + tag c + unt c + s.closes c =
    if c ∈ s.dialed then 1 else 0
  record : ∀ c, (s.connMeta c).isSome ↔ 0 < idleCount s c + heldCount s c + tag c
  sem : s.sem = s.held.length + slots
  cap : s.sem ≤ limit
  noUnderflow : Event.slotUnderflow ∉ s.events

namespace Ledger

variable {limit : ℕ} {s s' : Shared} {tag unt tag' unt' : Conn → ℕ} {slots : ℕ}

/-- A step that touches none of the accounted fields. -/
lemma frame (h : Ledger limit s tag unt slots) (hs : s'.accounts = s.accounts) :
    Ledger limit s' tag unt slots := by
  simp only [Shared.accounts, Prod.mk.injEq] at hs
  obtain ⟨hi, hh, hm, hk, hd, hsem, he⟩ := hs
  refine ⟨fun x => ?_, fun x => ?_, ?_, ?_, ?_⟩
  · simpa [idleCount, heldCount, hi, hh, hk, hd] using h.once x
  · simpa [idleCount, heldCount, hi, hh, hm] using h.record x
  · rw [hsem, hh]; exact h.sem
  · rw [hsem]; exact h.cap
  · rw [he]; exact h.noUnderflow

lemma emit (h : Ledger limit s tag unt slots) {e : Event} (he : e ≠ .slotUnderflow) :
    Ledger limit (s.emit e) tag unt slots :=
  ⟨h.once, h.record, h.sem, h.cap, by
    simpa [Shared.emit] using ⟨h.noUnderflow, he.symm⟩⟩

lemma emit? (h : Ledger limit s tag unt slots) {e : Option Event}
    (he : e ≠ some .slotUnderflow) : Ledger limit (s.emit? e) tag unt slots := by
  cases e with
  | none => exact h
  | some e => exact h.emit (fun h' => he (congrArg some h'))

/-- A slot in hand guarantees that `releaseSlot` finds the semaphore non-empty. -/
lemma releaseSlot (h : Ledger limit s tag unt (slots + 1)) :
    Ledger limit s.releaseSlot tag unt slots := by
  have hsem := h.sem
  have hcap := h.cap
  have hne : s.sem ≠ 0 := by omega
  rw [Shared.releaseSlot, if_neg hne]
  exact ⟨h.once, h.record, by simp only; omega, by simp only; omega, h.noUnderflow⟩

lemma takeSlot (h : Ledger limit s tag unt slots) (hlt : s.sem < limit) :
    Ledger limit { s with sem := s.sem + 1 } tag unt (slots + 1) := by
  have hsem := h.sem
  exact ⟨h.once, h.record, by simp only; omega, hlt, h.noUnderflow⟩

/-- Deleting the record of a connection in hand: tagged becomes untagged. -/
lemma deleteMeta {c : Conn} (h : Ledger limit s tag unt slots)
    (ht : ∀ x, tag x = [c].count x + tag' x) (hu : ∀ x, unt' x = [c].count x + unt x) :
    Ledger limit (s.deleteMeta c) tag' unt' slots := by
  refine ⟨fun x => ?_, fun x => ?_, h.sem, h.cap, h.noUnderflow⟩
  · refine Eq.trans ?_ (h.once x)
    simp only [idleCount, heldCount, Shared.deleteMeta, ht, hu]
    omega
  · have hx := h.record x
    have h1 := h.once x
    rw [ht] at hx h1
    by_cases hc : x = c
    · subst hc
      simp only [idleCount, heldCount, Shared.deleteMeta, Function.update_self,
        List.count_singleton_self, Option.isSome_none, Bool.false_eq_true, false_iff] at h1 ⊢
      split at h1 <;> omega
    · have hcount : [c].count x = 0 := by simp [Ne.symm hc]
      simpa [idleCount, heldCount, Shared.deleteMeta, hc, hcount] using hx

/-- Storing the record of a connection in hand: untagged becomes tagged. -/
lemma storeMeta {c : Conn} {m : ConnMeta} (h : Ledger limit s tag unt slots)
    (ht : ∀ x, tag' x = [c].count x + tag x) (hu : ∀ x, unt x = [c].count x + unt' x) :
    Ledger limit (s.storeMeta c m) tag' unt' slots := by
  refine ⟨fun x => ?_, fun x => ?_, h.sem, h.cap, h.noUnderflow⟩
  · refine Eq.trans ?_ (h.once x)
    simp only [idleCount, heldCount, Shared.storeMeta, ht, hu]
    omega
  · rw [ht]
    by_cases hc : x = c
    · subst hc
      simp only [Shared.storeMeta, Function.update_self, Option.isSome_some,
        List.count_singleton_self, true_iff]
      omega
    · have hcount : [c].count x = 0 := by simp [Ne.symm hc]
      simpa [idleCount, heldCount, Shared.storeMeta, hc, hcount] using h.record x

/-- Closing an untagged connection in hand. -/
lemma closeConn {c : Conn} (h : Ledger limit s tag unt slots)
    (hu : ∀ x, unt x = [c].count x + unt' x) : Ledger limit (s.closeConn c) tag unt' slots := by
  refine ⟨fun x => ?_, h.record, h.sem, h.cap, h.noUnderflow⟩
  refine Eq.trans ?_ (h.once x)
  rw [hu]
  by_cases hc : x = c
  · subst hc
    simp only [idleCount, heldCount, Shared.closeConn, Function.update_self,
      List.count_singleton_self]
    omega
  · have hcount : [c].count x = 0 := by simp [Ne.symm hc]
    simp [idleCount, heldCount, Shared.closeConn, hc, hcount]

/-- A caller receives a tagged connection together with the slot of its call. -/
lemma handOut {k : Caller} {c : Conn} (h : Ledger limit s tag unt (slots + 1))
    (ht : ∀ x, tag x = [c].count x + tag' x) : Ledger limit (s.handOut k c) tag' unt slots := by
  have key : ∀ x, heldCount (s.handOut k c) x = [c].count x + heldCount s x := by
    intro x
    simp [heldCount, Shared.handOut, List.count_cons, Nat.add_comm]
  refine ⟨fun x => ?_, fun x => ?_, ?_, h.cap, h.noUnderflow⟩
  · refine Eq.trans ?_ (h.once x)
    rw [key, ht]
    simp only [idleCount, Shared.handOut]
    omega
  · refine (h.record x).trans ?_
    rw [key, ht]
    simp only [idleCount, Shared.handOut]
    omega
  · have := h.sem
    simp only [Shared.handOut, List.length_cons]
    omega

/-- The dialer returned a connection it had not returned before. -/
lemma dial {c : Conn} (h : Ledger limit s tag unt slots) (hc : c ∉ s.dialed)
    (hu : ∀ x, unt' x = [c].count x + unt x) : Ledger limit (s.dial c) tag unt' slots := by
  refine ⟨fun x => ?_, h.record, h.sem, h.cap, h.noUnderflow⟩
  have := h.once x
  rw [hu]
  by_cases hx : x = c
  · subst hx
    simp only [idleCount, heldCount, Shared.dial, if_neg hc, List.count_singleton_self,
      List.mem_cons, true_or, if_true] at this ⊢
    omega
  · have hcount : [c].count x = 0 := by simp [Ne.symm hx]
    simpa [idleCount, heldCount, Shared.dial, hx, hcount] using this

/-- Rearranging the idle stack against tagged connections in hand. -/
lemma moveIdle {idle' : List IdleConn} (h : Ledger limit s tag unt slots)
    (hmove : ∀ x, (idle'.map (·.conn)).count x + tag' x = idleCount s x + tag x) :
    Ledger limit { s with idle := idle' } tag' unt slots := by
  refine ⟨fun x => ?_, fun x => ?_, h.sem, h.cap, h.noUnderflow⟩
  · refine Eq.trans ?_ (h.once x)
    have := hmove x
    simp only [idleCount, heldCount] at *
    omega
  · refine (h.record x).trans ?_
    have := hmove x
    simp only [idleCount, heldCount] at *
    omega

end Ledger

/-! ## What one step of a call does to the ledger -/

/-- The ledger with one call singled out. -/
def Held (limit : ℕ) (s : Shared) (op : Op) (tag unt : Conn → ℕ) (slots : ℕ) : Prop :=
  Ledger limit s (fun x => op.tagged.count x + tag x) (fun x => op.untagged.count x + unt x)
    (op.slots + slots)

section

variable {o : Options} {limit : ℕ} {s s' : Shared} {op op' : Op} {ch : Choice}
  {tag unt : Conn → ℕ} {slots : ℕ}

lemma count_hand {l l' : List Conn} {c : Conn} (h : l = c :: l') (f : Conn → ℕ) (x : Conn) :
    l.count x + f x = [c].count x + (l'.count x + f x) := by
  rw [h, List.count_cons, List.count_singleton]
  omega

namespace Held

/-- Moving to a program point with the same hands, over fields nobody accounts for. -/
lemma frame (hL : Held limit s op tag unt slots) (hacc : s'.accounts = s.accounts)
    (ht : op'.tagged = op.tagged) (hu : op'.untagged = op.untagged)
    (hs : op'.slots = op.slots) : Held limit s' op' tag unt slots := by
  unfold Held
  rw [ht, hu, hs]
  exact Ledger.frame hL hacc

lemma goto (hL : Held limit s op tag unt slots) (ht : op'.tagged = op.tagged)
    (hu : op'.untagged = op.untagged) (hs : op'.slots = op.slots) :
    Held limit s op' tag unt slots :=
  hL.frame rfl ht hu hs

lemma releaseSlot (hL : Held limit s op tag unt slots) (ht : op'.tagged = op.tagged)
    (hu : op'.untagged = op.untagged) (hs : op.slots = op'.slots + 1) :
    Held limit s.releaseSlot op' tag unt slots := by
  unfold Held at hL ⊢
  rw [hs, Nat.add_right_comm] at hL
  rw [ht, hu]
  exact Ledger.releaseSlot hL

lemma takeSlot (hL : Held limit s op tag unt slots) (hlt : s.sem < limit)
    (ht : op'.tagged = op.tagged) (hu : op'.untagged = op.untagged)
    (hs : op'.slots = op.slots + 1) :
    Held limit { s with sem := s.sem + 1 } op' tag unt slots := by
  unfold Held
  rw [ht, hu, hs, Nat.add_right_comm]
  exact Ledger.takeSlot hL hlt

lemma deleteMeta {c : Conn} (hL : Held limit s op tag unt slots)
    (ht : op.tagged = c :: op'.tagged) (hu : op'.untagged = c :: op.untagged)
    (hs : op'.slots = op.slots) : Held limit (s.deleteMeta c) op' tag unt slots := by
  unfold Held
  rw [hs]
  exact Ledger.deleteMeta hL (count_hand ht tag) (count_hand hu unt)

lemma closeConn {c : Conn} (hL : Held limit s op tag unt slots)
    (ht : op'.tagged = op.tagged) (hu : op.untagged = c :: op'.untagged)
    (hs : op'.slots = op.slots) : Held limit (s.closeConn c) op' tag unt slots := by
  unfold Held
  rw [ht, hs]
  exact Ledger.closeConn hL (count_hand hu unt)

lemma dial {c : Conn} (hL : Held limit s op tag unt slots) (hc : c ∉ s.dialed)
    (ht : op'.tagged = op.tagged) (hu : op'.untagged = c :: op.untagged)
    (hs : op'.slots = op.slots) : Held limit (s.dial c) op' tag unt slots := by
  unfold Held
  rw [ht, hs]
  exact Ledger.dial hL hc (count_hand hu unt)

/-- `Acquire` returns a connection it has in hand. -/
lemma handOut {k : Caller} {c : Conn} (hL : Held limit s op tag unt slots)
    (ht : op.tagged = c :: op'.tagged) (hu : op'.untagged = op.untagged)
    (hs : op.slots = op'.slots + 1) : Held limit (s.handOut k c) op' tag unt slots := by
  unfold Held at hL ⊢
  rw [hs, Nat.add_right_comm] at hL
  rw [hu]
  exact Ledger.handOut hL (count_hand ht tag)

lemma storeMeta {c : Conn} {m : ConnMeta} (hL : Held limit s op tag unt slots)
    (ht : op'.tagged = c :: op.tagged) (hu : op.untagged = c :: op'.untagged)
    (hs : op'.slots = op.slots) : Held limit (s.storeMeta c m) op' tag unt slots := by
  unfold Held
  rw [hs]
  exact Ledger.storeMeta hL (count_hand ht tag) (count_hand hu unt)

lemma emit (hL : Held limit s op tag unt slots) {e : Event} (he : e ≠ .slotUnderflow) :
    Held limit (s.emit e) op tag unt slots :=
  Ledger.emit hL he

lemma emit? (hL : Held limit s op tag unt slots) {e : Option Event}
    (he : e ≠ some .slotUnderflow) : Held limit (s.emit? e) op tag unt slots :=
  Ledger.emit? hL he

/-- Rearranging the idle stack against the call's tagged connections. -/
lemma moveIdle {idle' : List IdleConn} (hL : Held limit s op tag unt slots)
    (hmove : ∀ x, (idle'.map (·.conn)).count x + op'.tagged.count x =
      (s.idle.map (·.conn)).count x + op.tagged.count x)
    (hu : op'.untagged = op.untagged) (hs : op'.slots = op.slots) :
    Held limit { s with idle := idle' } op' tag unt slots := by
  unfold Held
  rw [hu, hs]
  refine Ledger.moveIdle hL (fun x => ?_)
  have := hmove x
  simp only [idleCount]
  omega

lemma tag_pos {c : Conn} (hc : c ∈ op.tagged) : 0 < op.tagged.count c + tag c :=
  Nat.add_pos_left (List.count_pos_iff.mpr hc) _

/-- A tagged connection in hand has a record. -/
lemma record_of_tag {c : Conn} (hL : Held limit s op tag unt slots) (hc : c ∈ op.tagged) :
    s.connMeta c ≠ none := by
  intro hn
  have hpos : 0 < op.tagged.count c + tag c := tag_pos hc
  have := (hL.record c).mpr (by omega)
  simp [hn] at this

/-- A connection in hand is not in the idle stack. -/
lemma not_idle {c : Conn} (hL : Held limit s op tag unt slots) (hc : c ∈ op.tagged) :
    ∀ ic ∈ s.idle, ic.conn ≠ c := by
  have hpos : 0 < op.tagged.count c + tag c := tag_pos hc
  have hzero : idleCount s c = 0 := by
    have := hL.once c
    split at this <;> omega
  rw [idleCount, List.count_eq_zero] at hzero
  intro ic hic heq
  exact hzero (heq ▸ List.mem_map_of_mem hic)

end Held

/-- Popping the top of the idle stack into a call's hands. -/
lemma count_pop {l : List IdleConn} {ic : IdleConn} (h : l.getLast? = some ic) (x : Conn) :
    (l.dropLast.map (·.conn)).count x + [ic.conn].count x = (l.map (·.conn)).count x := by
  have hl : l.dropLast ++ [ic] = l := List.dropLast_append_getLast? ic h
  conv_rhs => rw [← hl]
  simp [List.count_append]

lemma acquireStep_ledger (hL : Held limit s op tag unt slots)
    (h : acquireStep o limit s op ch = some (s', op')) : Held limit s' op' tag unt slots := by
  unfold acquireStep at h
  split at h
  -- the admission checks, the pause gate and the semaphore
  · cases h; split <;> exact hL.goto rfl rfl rfl
  · cases h; split <;> exact hL.goto rfl rfl rfl
  · cases h; exact hL.goto rfl rfl rfl
  · split at h <;> cases h; exact hL.goto rfl rfl rfl
  · cases h; exact hL.goto rfl rfl rfl
  · split at h <;> cases h; exact hL.goto rfl rfl rfl
  · split at h <;> cases h
    rename_i hlt
    exact hL.takeSlot hlt rfl rfl rfl
  · split at h <;> cases h; exact hL.goto rfl rfl rfl
  · cases h; exact hL.goto rfl rfl rfl
  · cases h; split <;> exact hL.goto rfl rfl rfl
  -- the scan of the idle stack
  · split at h <;> cases h
    · exact hL.goto rfl rfl rfl
    · rename_i ic hic
      refine hL.moveIdle (fun x => ?_) rfl rfl
      simpa [Op.tagged] using count_pop hic x
  · cases h; split <;> exact hL.goto rfl rfl rfl
  · split at h <;> cases h
    · exact hL.handOut rfl rfl rfl
    · exact hL.goto rfl rfl rfl
  · cases h; exact hL.handOut rfl rfl rfl
  · cases h; exact hL.goto rfl rfl rfl
  · cases h; exact hL.deleteMeta rfl rfl rfl
  · cases h
    rename_i k c why
    have hc : Held limit (s.closeConn c) (.acqPop k) tag unt slots := hL.closeConn rfl rfl rfl
    exact hc.emit (by cases why <;> simp [Unfit.event])
  -- dialing
  · split at h <;> cases h
    rename_i hc
    exact hL.dial hc rfl rfl rfl
  · cases h; split
    · exact hL.goto rfl rfl rfl
    · split <;> exact hL.goto rfl rfl rfl
  · split at h <;> cases h; exact hL.goto rfl rfl rfl
  · cases h; exact hL.goto rfl rfl rfl
  · split at h <;> cases h; exact hL.goto rfl rfl rfl
  -- tagging and handing out the fresh connection
  · cases h; exact hL.goto rfl rfl rfl
  · cases h
    rename_i k c m
    have hs : Held limit (s.storeMeta c m) (.acqCheck k ⟨c, 0, 0⟩) tag unt slots :=
      hL.storeMeta rfl rfl rfl
    exact hs.handOut rfl rfl rfl
  · cases h; exact hL.releaseSlot rfl rfl rfl
  · cases h

lemma circuitStep_ledger (hL : Held limit s op tag unt slots)
    (h : circuitStep o s op ch = some (s', op')) : Held limit s' op' tag unt slots := by
  unfold circuitStep at h
  split at h
  -- `circuitAllows`
  · cases h; rename_i d
    split <;> cases d <;> exact hL.goto rfl rfl rfl
  · cases h; rename_i d _
    split <;> cases d <;> exact hL.goto rfl rfl rfl
  · rename_i d _ _
    split at h <;> cases h <;> cases d <;> exact hL.frame rfl rfl rfl rfl
  -- `circuitRecordFailure`
  · cases h
    rename_i d err
    have hr : Held limit s.releaseSlot (.failAdd d err) tag unt slots :=
      hL.releaseSlot rfl rfl rfl
    exact hr.emit (by simp)
  · rename_i d err
    split at h <;> cases h
    · cases d <;> exact hL.goto rfl rfl rfl
    · split
      · cases d <;> exact hL.frame rfl rfl rfl rfl
      · exact hL.frame rfl rfl rfl rfl
  · cases h; exact hL.goto rfl rfl rfl
  · cases h
    rename_i d _ _
    refine Held.emit? ?_ (by split <;> simp)
    cases d <;> exact hL.frame rfl rfl rfl rfl
  -- `circuitRecordSuccess`
  · rename_i d c
    split at h <;> cases h
    · cases d <;> exact hL.goto rfl rfl rfl
    · exact hL.frame rfl rfl rfl rfl
  · cases h
    rename_i d c
    refine Held.emit? ?_ (by split <;> simp)
    cases d <;> exact hL.frame rfl rfl rfl rfl
  · cases h

lemma returnStep_ledger (hL : Held limit s op tag unt slots)
    (h : returnStep s op ch = some (s', op')) : Held limit s' op' tag unt slots := by
  unfold returnStep at h
  split at h
  -- `Release`: a connection in hand has a record, so `rejectForeign` is out of reach
  · split at h <;> cases h
    · rename_i hn
      exact absurd hn (hL.record_of_tag (List.mem_singleton_self _))
    · exact hL.goto rfl rfl rfl
  · cases h; split <;> exact hL.goto rfl rfl rfl
  · cases h; split <;> exact hL.goto rfl rfl rfl
  · rename_i k c m now
    split at h
    · cases h; exact hL.goto rfl rfl rfl
    · split at h <;> cases h
      · rename_i hdouble
        -- the connection is in this call's hands, so it cannot be idle already
        obtain ⟨ic, hic, heq⟩ := List.any_eq_true.mp hdouble
        exact absurd (eq_of_beq heq) (hL.not_idle (List.mem_singleton_self c) ic hic)
      · refine hL.moveIdle (fun x => ?_) rfl rfl
        simp [Op.tagged]
  · cases h; exact hL.deleteMeta rfl rfl rfl
  · cases h; exact hL.closeConn rfl rfl rfl
  · cases h
    rename_i k why
    have hr : Held limit s.releaseSlot .returned tag unt slots := hL.releaseSlot rfl rfl rfl
    refine hr.emit? ?_
    rcases why with _ | _ | _ | _ <;> simp [Drop.event]
  -- `Discard`
  · split at h <;> cases h
    · rename_i hn
      exact absurd hn (hL.record_of_tag (List.mem_singleton_self _))
    · exact hL.goto rfl rfl rfl
  · cases h
    rename_i k c by'
    have hc : Held limit (s.closeConn c) .returned tag unt slots := hL.closeConn rfl rfl rfl
    exact hc.emit (by cases by' <;> simp [Foreign.event])
  · cases h

/-- Sweeping the idle stack by a test loses no connection. -/
lemma count_sweep (p : IdleConn → Bool) (l : List IdleConn) (x : Conn) :
    ((l.filter (fun ic => !p ic)).map (·.conn)).count x +
      ((l.filter p).map (·.conn)).count x = (l.map (·.conn)).count x := by
  induction l with
  | nil => rfl
  | cons ic l ih =>
    cases hp : p ic <;> simp only [hp, List.filter_cons, List.map_cons, List.count_cons,
      Bool.not_true, Bool.not_false, if_true, Bool.false_eq_true, if_false] <;> omega

lemma drainStep_ledger (hL : Held limit s op tag unt slots)
    (h : drainStep o s op ch = some (s', op')) : Held limit s' op' tag unt slots := by
  unfold drainStep at h
  split at h
  -- `reapExpired`
  · cases h; split <;> exact hL.goto rfl rfl rfl
  · split at h <;> cases h
    · exact hL.goto rfl rfl rfl
    · rename_i now _
      refine hL.moveIdle (fun x => ?_) rfl rfl
      simpa [Op.tagged] using count_sweep (expired o now) s.idle x
  -- `Reconnect`
  · cases h; exact hL.frame rfl rfl rfl rfl
  · cases h
    exact hL.moveIdle (fun x => by simp [Op.tagged]) rfl rfl
  -- `Close`
  · split at h <;> cases h <;> exact hL.frame rfl rfl rfl rfl
  · cases h
    exact hL.moveIdle (fun x => by simp [Op.tagged]) rfl rfl
  · cases h; split <;> exact hL.frame rfl rfl rfl rfl
  · cases h; split <;> exact hL.goto rfl rfl rfl
  · cases h; exact hL.goto rfl rfl rfl
  -- the loops over the connections to retire
  · cases h; exact hL.goto rfl rfl rfl
  · cases h
    have hr : Held limit s .returned tag unt slots := hL.goto rfl rfl rfl
    exact hr.emit (by simp)
  · cases h; exact hL.goto rfl rfl rfl
  · cases h; exact hL.deleteMeta rfl rfl rfl
  · cases h
    rename_i c cs fin
    have hc : Held limit (s.closeConn c) (.retire cs fin) tag unt slots :=
      hL.closeConn rfl rfl rfl
    exact hc.emit? (by cases fin <;> simp [After.event])
  · cases h; exact hL.goto rfl rfl rfl
  · cases h

lemma warmUpStep_ledger (hL : Held limit s op tag unt slots)
    (h : warmUpStep o limit s op ch = some (s', op')) : Held limit s' op' tag unt slots := by
  unfold warmUpStep at h
  split at h
  · cases h; split <;> exact hL.goto rfl rfl rfl
  · split at h <;> cases h
    rename_i hlt
    exact hL.takeSlot hlt rfl rfl rfl
  · split at h <;> cases h; exact hL.goto rfl rfl rfl
  · split at h <;> cases h
    rename_i hc
    exact hL.dial hc rfl rfl rfl
  · cases h; exact hL.goto rfl rfl rfl
  · rename_i i c now
    split at h <;> cases h
    · exact hL.goto rfl rfl rfl
    · -- tagged and parked in one critical section; `acqCheck` is a point with `c` in hand
      have hm : Held limit (s.storeMeta c ⟨s.reconnectGen, now⟩) (.acqCheck 0 ⟨c, 0, 0⟩)
          tag unt slots := hL.storeMeta rfl rfl rfl
      exact hm.moveIdle (fun x => by simp [Op.tagged, Shared.storeMeta]) rfl rfl
  · cases h; exact hL.closeConn rfl rfl rfl
  · cases h; exact hL.releaseSlot rfl rfl rfl
  · cases h; exact hL.releaseSlot rfl rfl rfl
  · cases h

lemma pauseStep_ledger (hL : Held limit s op tag unt slots)
    (h : pauseStep s op ch = some (s', op')) : Held limit s' op' tag unt slots := by
  unfold pauseStep at h
  split at h
  · split at h <;> cases h
    · exact hL.goto rfl rfl rfl
    · have hp : Held limit (s.swapResumeCh true) .returned tag unt slots :=
        hL.frame rfl rfl rfl rfl
      exact hp.emit (by simp)
  · split at h <;> cases h
    · exact hL.frame rfl rfl rfl rfl
    · exact hL.goto rfl rfl rfl
  · cases h
    refine Held.emit (hL.frame ?_ rfl rfl rfl) (by simp)
    unfold Shared.closeChan
    split <;> rfl
  · cases h

/-- One step of any call keeps the ledger. -/
lemma opStep_ledger (hL : Held limit s op tag unt slots)
    (h : opStep o limit s op ch = some (s', op')) : Held limit s' op' tag unt slots := by
  simp only [opStep, Option.orElse_eq_orElse, Option.orElse_eq_or, Option.or_eq_some_iff] at h
  obtain h | ⟨-, h | ⟨-, h | ⟨-, h | ⟨-, h | ⟨-, h⟩⟩⟩⟩⟩ := h
  · exact acquireStep_ledger hL h
  · exact circuitStep_ledger hL h
  · exact returnStep_ledger hL h
  · exact drainStep_ledger hL h
  · exact warmUpStep_ledger hL h
  · exact pauseStep_ledger hL h

end

end Pgman.Pool
