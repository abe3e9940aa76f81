import Mathlib.Data.List.Count
import Pgman.Construction.Pool.Ledger

/-!
# Every pooled connection has exactly one owner

The ledger of `Construction/Pool/Ledger.lean` is kept by one step of one call.  Here it is
summed over all running calls (`Accounted`), shown to hold in every reachable state of the
pool (`reachable_accounted`), and read back as the ownership partition: in every
interleaving each dialed connection is idle, held by one caller, in the hands of one running
call, or closed once.

`OwnershipPartition` is the statement a user of the pool needs; the tagged and untagged
halves of the ledger are bookkeeping behind it.
-/

namespace Pgman.Pool

variable {o : Options} {limit : ℕ} {p p' : Pool}

/-- Connections in a call's hands. -/
def Op.hands (op : Op) : List Conn := op.tagged ++ op.untagged

/-- Occurrences of `c` in the hands of running calls. -/
def handCount (p : Pool) (c : Conn) : ℕ := tally (fun op => op.hands.count c) p.ops

/-- The call owns a semaphore slot. -/
def Op.holdsSlot (op : Op) : Bool := op.slots == 1

/-- What holds of connections, slots and records at every moment. -/
structure OwnershipPartition (limit : ℕ) (p : Pool) : Prop where
  /-- A dialed connection is in exactly one place, once. -/
  onePlace : ∀ c ∈ p.sh.dialed,
    idleCount p.sh c + heldCount p.sh c + handCount p c + p.sh.closes c = 1
  /-- A connection nobody dialed is nowhere. -/
  noPlace : ∀ c, c ∉ p.sh.dialed →
    idleCount p.sh c + heldCount p.sh c + handCount p c + p.sh.closes c = 0
  oneHolder : ∀ k k' c, (k, c) ∈ p.sh.held → (k', c) ∈ p.sh.held → k = k'
  slots : p.sh.sem = p.sh.held.length + p.ops.countP Op.holdsSlot
  cap : p.sh.sem ≤ limit
  noUnderflow : Event.slotUnderflow ∉ p.sh.events
  idleRecord : ∀ ic ∈ p.sh.idle, (p.sh.connMeta ic.conn).isSome
  heldRecord : ∀ k c, (k, c) ∈ p.sh.held → (p.sh.connMeta c).isSome
  closedRecord : ∀ c, 0 < p.sh.closes c → p.sh.connMeta c = none

/-! ## The ledger over all running calls -/

/-- The ledger, summed over the running calls. -/
def Accounted (limit : ℕ) (p : Pool) : Prop :=
  Ledger limit p.sh (fun c => tally (fun op => op.tagged.count c) p.ops)
    (fun c => tally (fun op => op.untagged.count c) p.ops) (tally Op.slots p.ops)

lemma accounted_new (limit : ℕ) : Accounted limit new :=
  ⟨fun _ => rfl, fun _ => by simp [new, idleCount, heldCount], rfl, Nat.zero_le _, by simp [new]⟩

/-- A call that starts with empty hands. -/
lemma Accounted.start (h : Accounted limit p) {op : Op} (ht : op.tagged = [])
    (hu : op.untagged = []) (hs : op.slots = 0) : Accounted limit (p.start op) := by
  unfold Accounted Pool.start
  simp only [tally_append, tally_cons, tally_nil, ht, hu, hs, List.count_nil, Nat.add_zero]
  exact h

/-- A caller's connection and slot pass to the call it is given back in. -/
lemma Accounted.giveBack (h : Accounted limit p) {k : Caller} {c : Conn} {op : Op}
    (ht : op.tagged = [c]) (hu : op.untagged = []) (hs : op.slots = 1)
    (hg : p.giveBack k c op = some p') : Accounted limit p' := by
  unfold Pool.giveBack at hg
  split at hg <;> cases hg
  rename_i hmem
  have hlen : (p.sh.held.erase (k, c)).length + 1 = p.sh.held.length := by
    have := List.length_pos_of_mem hmem
    rw [List.length_erase_of_mem hmem]
    omega
  have hcount : ∀ x, ((p.sh.held.erase (k, c)).map (·.2)).count x + [c].count x =
      heldCount p.sh x := by
    intro x
    have hperm := (List.perm_cons_erase hmem).map (·.2)
    have := hperm.count_eq x
    rw [List.map_cons, List.count_cons] at this
    rw [heldCount, this, List.count_singleton]
  unfold Accounted
  simp only [tally_append, tally_cons, tally_nil, ht, hu, hs, List.count_nil, Nat.add_zero]
  refine ⟨fun x => ?_, fun x => ?_, ?_, h.cap, h.noUnderflow⟩
  · refine Eq.trans ?_ (h.once x)
    have := hcount x
    simp only [idleCount, heldCount] at *
    omega
  · refine (h.record x).trans ?_
    have := hcount x
    simp only [idleCount, heldCount] at *
    omega
  · have := h.sem
    simp only
    omega

/-- Singling out the call at position `i`. -/
lemma accounted_set {sh : Shared} {i : ℕ} {op op' : Op} (hi : p.ops[i]? = some op)
    (hstep : ∀ tag unt slots, Held limit p.sh op tag unt slots → Held limit sh op' tag unt slots)
    (h : Accounted limit p) : Accounted limit ⟨sh, p.ops.set i op'⟩ := by
  have hmem : op ∈ p.ops := List.mem_of_getElem? hi
  have htag := fun x => tally_set (fun op => op.tagged.count x) hi op'
  have hunt := fun x => tally_set (fun op => op.untagged.count x) hi op'
  have hslots := tally_set Op.slots hi op'
  -- the other calls' share of each sum
  let tag := fun x => tally (fun op => op.tagged.count x) p.ops - op.tagged.count x
  let unt := fun x => tally (fun op => op.untagged.count x) p.ops - op.untagged.count x
  let slots := tally Op.slots p.ops - op.slots
  have ht : ∀ x, op.tagged.count x + tag x = tally (fun op => op.tagged.count x) p.ops :=
    fun x => Nat.add_sub_cancel' (le_tally (fun op => op.tagged.count x) hmem)
  have hu : ∀ x, op.untagged.count x + unt x = tally (fun op => op.untagged.count x) p.ops :=
    fun x => Nat.add_sub_cancel' (le_tally (fun op => op.untagged.count x) hmem)
  have hs : op.slots + slots = tally Op.slots p.ops :=
    Nat.add_sub_cancel' (le_tally Op.slots hmem)
  have hheld : Held limit p.sh op tag unt slots := by
    unfold Held
    simp only [ht, hu, hs]
    exact h
  have hnext := hstep tag unt slots hheld
  unfold Held at hnext
  unfold Accounted
  have ht' : ∀ x, tally (fun op => op.tagged.count x) (p.ops.set i op') =
      op'.tagged.count x + tag x := fun x => by have := htag x; have := ht x; omega
  have hu' : ∀ x, tally (fun op => op.untagged.count x) (p.ops.set i op') =
      op'.untagged.count x + unt x := fun x => by have := hunt x; have := hu x; omega
  have hs' : tally Op.slots (p.ops.set i op') = op'.slots + slots := by omega
  simpa only [ht', hu', hs'] using hnext

/-- Every step of the pool keeps the accounts. -/
theorem step_accounted (h : Accounted limit p) {a : Action} (hs : step o limit p a = some p') :
    Accounted limit p' := by
  cases a with
  | acquire k => cases hs; exact h.start rfl rfl rfl
  | release k c => exact h.giveBack rfl rfl rfl hs
  | discard k c => exact h.giveBack rfl rfl rfl hs
  | reapExpired => cases hs; exact h.start rfl rfl rfl
  | reconnect => cases hs; exact h.start rfl rfl rfl
  | warmUp => cases hs; exact h.start rfl rfl rfl
  | close => cases hs; exact h.start rfl rfl rfl
  | pause => cases hs; exact h.start rfl rfl rfl
  | resume => cases hs; exact h.start rfl rfl rfl
  | run i ch =>
    simp only [step] at hs
    split at hs
    · cases hs
    · rename_i op hop
      obtain ⟨⟨sh, op'⟩, hstep, rfl⟩ := Option.map_eq_some_iff.mp hs
      exact accounted_set hop (fun _ _ _ hL => opStep_ledger hL hstep) h
  | tick d => cases hs; exact Ledger.frame h rfl

/-- The accounts balance in every reachable state. -/
theorem reachable_accounted (h : (machine o limit).Reachable p) : Accounted limit p :=
  h.invariant (fun _ h0 => h0 ▸ accounted_new limit) (fun _ _ _ hI _ hs => step_accounted hI hs)

/-! ## The ownership partition -/

lemma Op.slots_le_one (op : Op) : op.slots ≤ 1 := by
  unfold Op.slots
  split <;> decide

lemma tally_slots (ops : List Op) : tally Op.slots ops = ops.countP Op.holdsSlot := by
  refine tally_eq_countP (fun op => ?_) ops
  have := op.slots_le_one
  unfold Op.holdsSlot
  split <;> simp_all; omega

lemma handCount_eq (p : Pool) (c : Conn) : handCount p c =
    tally (fun op => op.tagged.count c) p.ops + tally (fun op => op.untagged.count c) p.ops := by
  rw [handCount, ← tally_add]
  simp only [Op.hands, List.count_append]

lemma heldCount_pos {s : Shared} {k : Caller} {c : Conn} (h : (k, c) ∈ s.held) :
    0 < heldCount s c :=
  List.count_pos_iff.mpr (List.mem_map_of_mem (f := (·.2)) h)

/-- A connection counted once among the holders has one holder. -/
lemma holder_unique {l : List (Caller × Conn)} {k k' : Caller} {c : Conn}
    (hone : (l.map (·.2)).count c ≤ 1) (h : (k, c) ∈ l) (h' : (k', c) ∈ l) : k = k' := by
  by_contra hne
  have hperm := (List.perm_cons_erase h).map (·.2)
  have hmem : (k', c) ∈ l.erase (k, c) := (List.mem_erase_of_ne (by simpa using Ne.symm hne)).mpr h'
  have hpos : 0 < ((l.erase (k, c)).map (·.2)).count c :=
    List.count_pos_iff.mpr (List.mem_map_of_mem (f := (·.2)) hmem)
  have := hperm.count_eq c
  rw [List.map_cons, List.count_cons_self] at this
  omega

theorem Accounted.partition (h : Accounted limit p) : OwnershipPartition limit p := by
  have once : ∀ c, idleCount p.sh c + heldCount p.sh c + handCount p c + p.sh.closes c =
      if c ∈ p.sh.dialed then 1 else 0 := by
    intro c
    rw [handCount_eq]
    have := h.once c
    omega
  have le_one : ∀ c, idleCount p.sh c + heldCount p.sh c + handCount p c + p.sh.closes c ≤ 1 :=
    fun c => by rw [once]; split <;> omega
  have held_le_one : ∀ c, heldCount p.sh c ≤ 1 := fun c => by have := le_one c; omega
  refine
    { onePlace := fun c hc => by rw [once, if_pos hc]
      noPlace := fun c hc => by rw [once, if_neg hc]
      oneHolder := fun k k' c hk hk' => holder_unique (held_le_one c) hk hk'
      slots := by rw [← tally_slots]; exact h.sem
      cap := h.cap
      noUnderflow := h.noUnderflow
      idleRecord := fun ic hic => ?_
      heldRecord := fun k c hk => ?_
      closedRecord := fun c hc => ?_ }
  · have : 0 < idleCount p.sh ic.conn :=
      List.count_pos_iff.mpr (List.mem_map_of_mem (f := (·.conn)) hic)
    exact (h.record _).mpr (by omega)
  · have := heldCount_pos hk
    exact (h.record _).mpr (by omega)
  · -- a closed connection is nowhere else, so the record table does not know it
    have hle := le_one c
    rw [handCount_eq] at hle
    have hnot := mt (h.record c).mp (by omega)
    simpa using hnot

/-- A connection in a call's hands is nowhere else. -/
lemma OwnershipPartition.exclusive (h : OwnershipPartition limit p) {i : ℕ} {op : Op} {c : Conn}
    (hop : p.ops[i]? = some op) (hc : c ∈ op.hands) :
    p.sh.closes c = 0 ∧ (∀ ic ∈ p.sh.idle, ic.conn ≠ c) ∧
      ∀ j op', p.ops[j]? = some op' → i ≠ j → c ∉ op'.hands := by
  have hle : idleCount p.sh c + heldCount p.sh c + handCount p c + p.sh.closes c ≤ 1 := by
    by_cases hd : c ∈ p.sh.dialed
    · exact Nat.le_of_eq (h.onePlace c hd)
    · rw [h.noPlace c hd]
      exact Nat.zero_le 1
  have hpos : 0 < op.hands.count c := List.count_pos_iff.mpr hc
  have hhand : op.hands.count c ≤ handCount p c :=
    le_tally (fun op => op.hands.count c) (List.mem_of_getElem? hop)
  refine ⟨by omega, fun ic hic heq => ?_, fun j op' hj hij hc' => ?_⟩
  · have : 0 < idleCount p.sh c :=
      List.count_pos_iff.mpr (heq ▸ List.mem_map_of_mem (f := (·.conn)) hic)
    omega
  · have hpos' : 0 < op'.hands.count c := List.count_pos_iff.mpr hc'
    have := add_le_tally (fun op => op.hands.count c) hop hj hij
    simp only [handCount] at hle
    omega

/-- **Ownership partition.**  Under every option setting and limit, in every interleaving of
pool calls, every dialed connection has exactly one place, and the slots and records agree
with the places. -/
theorem ownership_partition (o : Options) (limit : ℕ) (p : Pool)
    (h : (machine o limit).Reachable p) : OwnershipPartition limit p :=
  (reachable_accounted h).partition

/-- Two callers race for a pool of one slot: the first dials, gives its connection back and
the second pops it, while a reconnect bumps the generation. -/
def handover : List Action :=
  [.acquire 1, .acquire 2, .run 0 .go, .run 0 .go, .run 0 .ready, .run 0 .go, .run 0 .go,
    .run 0 .go, .run 0 (.dialOk 7), .run 0 .go, .run 0 .go, .run 0 .go, .release 1 7,
    .run 2 .go, .run 2 .go, .run 2 .go, .run 2 .go, .run 2 .go, .run 1 .go, .run 1 .go,
    .run 1 .ready, .run 1 .go, .run 1 .go, .run 1 .go, .run 1 .go, .reconnect, .run 3 .go]

theorem ownership_partition_handover :
    ∃ p, (machine ⟨0, 0, 0, 0, 0, 0, 0, 0, false⟩ 1).run new handover = some p ∧
      p.sh.held = [(2, 7)] ∧ OwnershipPartition 1 p := by
  have hheld : ((machine ⟨0, 0, 0, 0, 0, 0, 0, 0, false⟩ 1).run new handover).map (·.sh.held) =
      some [(2, 7)] := by decide
  obtain ⟨p, hrun, hp⟩ := Option.map_eq_some_iff.mp hheld
  exact ⟨p, hrun, hp, ownership_partition _ _ p (Machine.reach_of_run rfl hrun)⟩

end Pgman.Pool
