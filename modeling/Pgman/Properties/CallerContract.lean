import Mathlib.Data.List.Induction
import Pgman.Construction.Relay.Steady

/-!
# The relay honours the pool's caller contract

The pool's accounting (`Properties/PoolOwnership.lean`) assumes callers that return every
connection exactly once.  `relayImpl` is such a caller, for every behaviour of its client and
of its backends: each connection it gets from `Acquire` goes back by one `Release` or one
`Discard`, nothing is held when it returns, and nothing is read from, written to or sent on a
connection outside the lease.

The diary of a session is the connection it has acquired and not given back.  That every
step writes the diary correctly is the grip discipline of `Construction/Relay/Discipline.lean`;
here it is turned into a statement about counts in the log.
-/

namespace Pgman

/-- `relayImpl`'s variable `backend`. -/
def Grip.backend : Grip → Option Conn
  | .holding c => some c
  | .loose | .checking _ => none

/-- Reading from a connection, writing to it, or sending on its `Frontend`, by the relay or
one of its goroutines (a health check is `Acquire`'s own). -/
def Act.uses : Act → Option Conn
  | .send c src _ => if src = .health then none else some c
  | .flush c site _ | .flushErr c site | .recv c site _ _ | .recvErr c site =>
      if site = .health then none else some c
  | _ => none

/-- How often `Acquire` has returned `c` to session `k`. -/
def acquires (k : Caller) (c : Conn) (log : List (Caller × Act)) : ℕ := log.count (k, .acquire c)

/-- How often session `k` has called `Release(c)` or `Discard(c)`. -/
def giveBacks (k : Caller) (c : Conn) (log : List (Caller × Act)) : ℕ :=
  log.count (k, .release c) + log.count (k, .discard c)

/-- `k` has `c` on lease at the end of `log`: handed out once more than given back. -/
def OnLease (k : Caller) (c : Conn) (log : List (Caller × Act)) : Prop :=
  acquires k c log = giveBacks k c log + 1

/-- `k` has given back `c` as often as it got it. -/
def OffLease (k : Caller) (c : Conn) (log : List (Caller × Act)) : Prop :=
  acquires k c log = giveBacks k c log

/-- What the pool expects of its callers. -/
structure CallerContract (w : World) : Prop where
  /-- `Acquire`s and give-backs of a connection alternate. -/
  alternate : Always (fun pre e => ∀ c,
    (e.2 = .acquire c → OffLease e.1 c pre) ∧
    (e.2 = .release c ∨ e.2 = .discard c → OnLease e.1 c pre)) w.log
  /-- Nothing is used outside its lease. -/
  within : Always (fun pre e => ∀ c, e.2.uses = some c → OnLease e.1 c pre) w.log
  /-- What is on lease is what the session holds. -/
  holds : ∀ k c, if (w.loc k).grip.backend = some c then OnLease k c w.log else OffLease k c w.log
  /-- A session that has returned holds nothing. -/
  returned : ∀ k, (w.loc k).pc = .done → ∀ c, OffLease k c w.log

/-! ## The diary -/

/-- The connection acquired and not given back. -/
def leaseDiary : Diary Local Act (Option Conn) where
  init := none
  next s
    | .acquire c => some c
    | .release _ | .discard _ => none
    | _ => s
  good s a :=
    (∀ c, a = .acquire c → s = none) ∧
    (∀ c, a = .release c ∨ a = .discard c → s = some c) ∧
    (∀ c, a.uses = some c → s = some c)
  at' l s := l.grip.backend = s

/-- The diary changes with the three moves of a lease only. -/
lemma leaseDiary_next_of_plain (s : Option Conn) {a : Act} (hacq : ∀ c, a ≠ .acquire c)
    (hrel : ∀ c, a ≠ .release c) (hdis : ∀ c, a ≠ .discard c) : leaseDiary.next s a = s := by
  cases a with
  | acquire c => exact absurd rfl (hacq c)
  | release c => exact absurd rfl (hrel c)
  | discard c => exact absurd rfl (hdis c)
  | _ => rfl

/-- An act of the health check is no use, and one that works on a connection uses no other. -/
lemma Act.uses_of_checks {a : Act} (h : a.checks = true) : a.uses = none := by
  unfold Act.checks at h
  split at h <;> simp_all [Act.uses]

lemma Act.uses_of_on_none {a : Act} (hon : a.on = none) : a.uses = none := by
  cases a with
  | send | flush | flushErr | recv | recvErr => cases hon
  | _ => rfl

lemma Act.uses_of_on {a : Act} {c c' : Conn} (hon : a.on = some c) (h : a.uses = some c') :
    c = c' := by
  unfold Act.uses at h
  split at h <;> simp_all [Act.on]

/-- One act: the grip's backend is what the diary says. -/
lemma Grip.next_diary {touch : Option Conn} {g g' : Grip} {a : Act}
    (h : Grip.next touch g a = some g') :
    leaseDiary.good g.backend a ∧ leaseDiary.next g.backend a = g'.backend := by
  unfold Grip.next at h
  split at h
  · -- about no connection
    rename_i hon
    cases h
    have hacq : ∀ c, a ≠ .acquire c := fun c ha => by rw [ha] at hon; cases hon
    have hrel : ∀ c, a ≠ .release c := fun c ha => by rw [ha] at hon; cases hon
    have hdis : ∀ c, a ≠ .discard c := fun c ha => by rw [ha] at hon; cases hon
    refine ⟨⟨fun c ha => absurd ha (hacq c), fun c ha => ?_, fun c hu => ?_⟩,
      leaseDiary_next_of_plain _ hacq hrel hdis⟩
    · exact ha.elim (fun ha => absurd ha (hrel c)) (fun ha => absurd ha (hdis c))
    · rw [Act.uses_of_on_none hon] at hu
      cases hu
  · rename_i c hon
    split at h
    · split at h
      all_goals split at h <;> cases h
      · simp_all [leaseDiary, Act.uses, Grip.backend]
      · simp_all [leaseDiary, Act.uses, Grip.backend]
      · rename_i hg
        rcases hg with rfl | rfl <;> simp_all [Act.on, leaseDiary, Act.uses, Grip.backend]
      · simp_all [Act.on, leaseDiary, Act.uses, Grip.backend]
      · simp_all [Act.on, leaseDiary, Act.uses, Grip.backend]
      · -- a use of the connection in hand, or a move of the health check
        rename_i htake hretire hacq hrel hdis hg
        have hnext : ∀ s, leaseDiary.next s a = s :=
          fun s => leaseDiary_next_of_plain s hacq hrel hdis
        refine ⟨⟨fun c' h' => (hacq c' h').elim, fun c' h' => ?_, fun c' hu => ?_⟩, hnext _⟩
        · rcases h' with h' | h'
          · exact (hrel c' h').elim
          · exact (hdis c' h').elim
        · rcases hg with ⟨rfl, -⟩ | ⟨rfl, hc⟩
          · rw [Act.uses_of_on hon hu]
            rfl
          · simp [Act.uses_of_checks hc] at hu
    · cases h

/-- A step's acts, read by the diary. -/
lemma Grip.Runs.diary {touch : Option Conn} {g g' : Grip} {acts : List Act}
    (h : Grip.Runs touch g acts g') :
    leaseDiary.GoodRun g.backend acts ∧ acts.foldl leaseDiary.next g.backend = g'.backend := by
  induction acts generalizing g with
  | nil => exact ⟨trivial, congrArg Grip.backend h⟩
  | cons a acts ih =>
    obtain ⟨g₁, ha, hr⟩ := h
    obtain ⟨hgood, hnext⟩ := Grip.next_diary ha
    rw [List.foldl_cons, hnext]
    exact ⟨⟨hgood, hnext ▸ (ih hr).1⟩, (ih hr).2⟩

variable {opts : RuntimeOpts} {mode : PoolMode} {params : Caller → List TrackedParam} {w : World}

theorem leaseDiary_holds (h : (World.machine opts mode params).Reachable w) :
    leaseDiary.Holds w := by
  refine World.diary_rule (fun _ _ _ => rfl) (fun w k s _ hs => ?_)
    (fun w k i r s _ _ hr hs => ?_) h
  · simpa [World.register, leaseDiary, Local.grip] using hs
  · obtain ⟨hgood, hfold⟩ := (Relay.step_runs hr).diary
    rw [← show (w.loc k).grip.backend = s from hs]
    exact ⟨hgood, hfold.symm⟩

/-! ## From the diary to the counts -/

/-- Only the three moves of a lease count. -/
lemma counts_of_plain (k : Caller) (c : Conn) {a : Act} (hacq : ∀ c, a ≠ .acquire c)
    (hrel : ∀ c, a ≠ .release c) (hdis : ∀ c, a ≠ .discard c) :
    acquires k c [(k, a)] = 0 ∧ giveBacks k c [(k, a)] = 0 := by
  have hcount : ∀ a', a ≠ a' → [(k, a)].count (k, a') = 0 := by
    intro a' hne
    rw [List.count_eq_zero, List.mem_singleton]
    exact fun he => hne (Prod.mk.inj he).2.symm
  exact ⟨hcount _ (hacq c), by rw [giveBacks, hcount _ (hrel c), hcount _ (hdis c)]⟩

/-- Only a hand-out or a give-back moves the counts, and the diary moves with them. -/
lemma counts_step {s : Option Conn} {k : Caller} {a : Act} {c : Conn} {acq give : ℕ}
    (hgood : leaseDiary.good s a) (h : acq = give + if s = some c then 1 else 0) :
    acq + acquires k c [(k, a)] = give + giveBacks k c [(k, a)] +
        if leaseDiary.next s a = some c then 1 else 0 := by
  obtain ⟨hacq, hgive, -⟩ := hgood
  by_cases hplain : (∀ c, a ≠ .acquire c) ∧ (∀ c, a ≠ .release c) ∧ ∀ c, a ≠ .discard c
  · obtain ⟨h1, h2⟩ := counts_of_plain k c hplain.1 hplain.2.1 hplain.2.2
    rw [h1, h2, leaseDiary_next_of_plain s hplain.1 hplain.2.1 hplain.2.2]
    exact h
  · cases a with
    | acquire c' =>
      obtain rfl := hacq c' rfl
      simpa [leaseDiary, acquires, giveBacks, List.count_singleton] using h
    | release c' =>
      obtain rfl := hgive c' (.inl rfl)
      simpa [leaseDiary, acquires, giveBacks, List.count_singleton] using h
    | discard c' =>
      obtain rfl := hgive c' (.inr rfl)
      simpa [leaseDiary, acquires, giveBacks, List.count_singleton] using h
    | _ => exact absurd ⟨fun _ => nofun, fun _ => nofun, fun _ => nofun⟩ hplain

lemma acquires_append (k : Caller) (c : Conn) (log log' : List (Caller × Act)) :
    acquires k c (log ++ log') = acquires k c log + acquires k c log' := List.count_append

lemma giveBacks_append (k : Caller) (c : Conn) (log log' : List (Caller × Act)) :
    giveBacks k c (log ++ log') = giveBacks k c log + giveBacks k c log' := by
  simp only [giveBacks, List.count_append]
  omega

/-- A log whose every act is good for its session's diary has balanced counts. -/
lemma counts_of_diary {log : List (Caller × Act)}
    (h : Always (fun pre e => leaseDiary.good (leaseDiary.ghost e.1 pre) e.2) log)
    (k : Caller) (c : Conn) :
    acquires k c log = giveBacks k c log +
      if leaseDiary.ghost k log = some c then 1 else 0 := by
  induction log using List.reverseRecOn with
  | nil => rfl
  | append_singleton log e ih =>
    obtain ⟨k', a⟩ := e
    have hold := ih (fun pre e post heq => h pre e (post ++ [(k', a)]) (by simp [heq]))
    have hgood := h log (k', a) [] rfl
    have hghost : leaseDiary.ghost k (log ++ [(k', a)]) =
        if k' = k then leaseDiary.next (leaseDiary.ghost k log) a else leaseDiary.ghost k log := by
      simp [Diary.ghost, List.foldl_append]
    rw [hghost, acquires_append, giveBacks_append]
    by_cases hk : k' = k
    · subst hk
      rw [if_pos rfl]
      exact counts_step hgood hold
    · rw [if_neg hk]
      simpa [acquires, giveBacks, List.count_singleton, hk] using hold

/-- **The caller contract.**  Whatever clients and backends do, in every mode and under every
option setting, each connection the relay obtains goes back exactly once, and is used only
in between. -/
theorem caller_contract (opts : RuntimeOpts) (mode : PoolMode)
    (params : Caller → List TrackedParam) (w : World)
    (h : (World.machine opts mode params).Reachable w) : CallerContract w := by
  have hd := leaseDiary_holds h
  -- the diary at an event, as a count
  have hcount : ∀ pre e post, w.log = pre ++ e :: post → ∀ c,
      acquires e.1 c pre = giveBacks e.1 c pre +
        if leaseDiary.ghost e.1 pre = some c then 1 else 0 := by
    intro pre e post heq c
    refine counts_of_diary (fun pre' e' post' heq' => ?_) e.1 c
    exact hd.good pre' e' (post' ++ e :: post) (by simp [heq, heq'])
  have hholds : ∀ k c, if (w.loc k).grip.backend = some c then OnLease k c w.log
      else OffLease k c w.log := by
    intro k c
    have hc := counts_of_diary hd.good k c
    rw [← show (w.loc k).grip.backend = leaseDiary.ghost k w.log from hd.asserts k] at hc
    unfold OnLease OffLease
    split <;> simp_all
  refine ⟨fun pre e post heq c => ?_, fun pre e post heq c hu => ?_, hholds, fun k hdone c => ?_⟩
  · obtain ⟨hacq, hgive, -⟩ := hd.good pre e post heq
    have := hcount pre e post heq c
    refine ⟨fun ha => ?_, fun ha => ?_⟩
    · simpa [OffLease, hacq c ha] using this
    · simpa [OnLease, hgive c ha] using this
  · obtain ⟨-, -, huse⟩ := hd.good pre e post heq
    have := hcount pre e post heq c
    simpa [OnLease, huse c hu] using this
  · simpa [Local.grip, hdone, PC.grip, Grip.backend] using hholds k c

/-- A session runs a query, gives the connection back, gets it again for a transaction and
vanishes in the middle of it. -/
def vanishingClient : List Happening :=
  [.dial 7, .relay 1 (.client (.query "select 1")), .relay 1 (.draining false),
    .relay 1 (.acquired 7), .relay 1 (.feFlush none), .relay 1 (.reply (.readyForQuery 'I')),
    .relay 1 (.flushClient true), .relay 1 (.client (.query "begin")),
    .relay 1 (.draining false), .relay 1 (.acquired 7), .relay 1 (.feFlush none),
    .relay 1 (.reply (.readyForQuery 'T')), .relay 1 (.flushClient true), .relay 1 .clientErr]

theorem caller_contract_vanishing_client :
    let opts : RuntimeOpts := ⟨"DISCARD ALL", true, 0, 0, 0⟩
    ∃ w, (World.machine opts .transaction (fun _ => [])).run
        (World.start .transaction (fun _ => []) (fun _ => 0)) vanishingClient = some w ∧
      (w.loc 1).pc = .done ∧ acquires 1 7 w.log = 2 ∧ CallerContract w := by
  intro opts
  have hrun : ((World.machine opts .transaction (fun _ => [])).run
      (World.start .transaction (fun _ => []) (fun _ => 0)) vanishingClient).map
        (fun w => ((w.loc 1).pc, acquires 1 7 w.log)) = some (PC.done, 2) := by decide
  obtain ⟨w, hw, hview⟩ := Option.map_eq_some_iff.mp hrun
  simp only [Prod.mk.injEq] at hview
  exact ⟨w, hw, hview.1, hview.2,
    caller_contract opts .transaction _ w (Machine.reach_of_run ⟨_, rfl⟩ hw)⟩

end Pgman
