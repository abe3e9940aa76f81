import Pgman.Construction.Relay.Machine
import Pgman.Construction.Wire.Server

/-!
# Counting acknowledgements

The reply loop keeps two counters of acknowledgements to drop, one for `ParseComplete` and one
for `CloseComplete`, and drops the first ones that arrive.  Which acknowledgement belongs to
which message is not recorded.  This module compares the fates the counters give (`fates`)
with the fates the replies should have (`dueFates`), for the answers of a conforming server to
an extended-protocol batch.

The counters are right exactly when no acknowledged message of the client comes before an
injected one of the same kind (`fates_eq_due_iff`).  Acknowledgements of one kind look alike, so the
client may not see the difference; it does where another reply comes between the two messages
(`passed_ne_of_displaced`).
-/

namespace Pgman

/-- The acknowledgements the relay counts. -/
def BackendMsg.isAck : BackendMsg → Bool
  | .parseComplete | .closeComplete => true
  | _ => false

/-- A message, on whose initiative it was sent, and the replies to it. -/
abbrev Answer := (Source × FrontendMsg) × List BackendMsg

/-- The message has been acknowledged. -/
def Answer.acked (g : Answer) : Bool := g.2.any BackendMsg.isAck

/-- The counter for a kind of acknowledgement. -/
def PsSwallow.of (s : PsSwallow) : BackendMsg → ℕ
  | .parseComplete => s.parseComplete
  | .closeComplete => s.closeComplete
  | _ => 0

/-- The counted acknowledgement a message may expect. -/
def FrontendMsg.countedAck (m : FrontendMsg) : List BackendMsg :=
  (Server.ack m).filter BackendMsg.isAck

namespace Relay

/-- The fates the counters give to a list of replies. -/
def fates : PsSwallow → List BackendMsg → List Fate
  | _, [] => []
  | s, r :: rs =>
      match swallowReply s r with
      | some s' => .swallow :: fates s' rs
      | none => .forward :: fates s rs

/-- The fates the replies should have: exactly the acknowledgements of injected messages are
dropped. -/
def dueFates (gs : List Answer) : List Fate :=
  gs.flatMap fun g => g.2.map fun r => if g.1.1 = .inject ∧ r.isAck then .swallow else .forward

/-- What a message adds to the counters. -/
def swallowOf : FrontendMsg → PsSwallow
  | .parse _ _ _ => ⟨1, 0⟩
  | .close _ _ => ⟨0, 1⟩
  | _ => .zero

/-- The acknowledgements to drop for the injected messages of a batch. -/
def injectedAcks (wire : List (Source × FrontendMsg)) : PsSwallow :=
  wire.foldr (fun e s => if e.1 = .inject then (swallowOf e.2).add s else s) .zero

/-- An acknowledged message of the client in front of an injected one of its kind. -/
def Confuses (g h : Answer) : Prop :=
  g.1.1 ≠ .inject ∧ g.acked = true ∧ h.1.1 = .inject ∧ g.1.2.countedAck = h.1.2.countedAck

/-- No acknowledged message of the client comes before an injected one of its kind. -/
def Unconfused (gs : List Answer) : Prop := gs.Pairwise fun g h => ¬Confuses g h

/-! ## The counters on replies without acknowledgements -/

variable {s : PsSwallow} {rs : List BackendMsg} {g : Answer} {gs : List Answer}

lemma swallowReply_of_not_ack {r : BackendMsg} (h : r.isAck = false) : swallowReply s r = none := by
  cases r <;> simp_all [swallowReply, BackendMsg.isAck]

/-- Replies that are no acknowledgements are all forwarded. -/
lemma fates_append_of_no_ack (h : ∀ r ∈ rs, r.isAck = false) (rest : List BackendMsg) :
    fates s (rs ++ rest) = rs.map (fun _ => Fate.forward) ++ fates s rest := by
  induction rs with
  | nil => rfl
  | cons r rs ih =>
    simp only [List.cons_append, fates, swallowReply_of_not_ack (h r (by simp)), List.map_cons]
    rw [ih (fun r' hr' => h r' (by simp [hr']))]

lemma due_of_no_ack (src : Source) (h : ∀ r ∈ rs, r.isAck = false) :
    rs.map (fun r => if src = .inject ∧ r.isAck then Fate.swallow else .forward) =
      rs.map (fun _ => Fate.forward) := by
  refine List.map_congr_left (fun r hr => ?_)
  simp [h r hr]

lemma dueFates_cons (g : Answer) (gs : List Answer) : dueFates (g :: gs) =
    g.2.map (fun r => if g.1.1 = .inject ∧ r.isAck then Fate.swallow else .forward) ++
      dueFates gs := rfl

lemma no_ack_of_not_acked (h : g.acked = false) : ∀ r ∈ g.2, r.isAck = false := by
  intro r hr
  by_contra hne
  have : g.acked = true := List.any_eq_true.mpr ⟨r, hr, by simpa using hne⟩
  simp [h] at this

/-- Without acknowledgements the counters do not matter. -/
lemma fates_of_unacked (h : ∀ g ∈ gs, g.acked = false) :
    fates s (gs.flatMap Prod.snd) = dueFates gs := by
  induction gs with
  | nil => rfl
  | cons g gs ih =>
    have hg := no_ack_of_not_acked (h g (by simp))
    rw [List.flatMap_cons, fates_append_of_no_ack hg, dueFates_cons, due_of_no_ack _ hg,
      ih (fun g' hg' => h g' (by simp [hg']))]

lemma unconfused_of_unacked (h : ∀ g ∈ gs, g.acked = false) : Unconfused gs := by
  refine List.pairwise_of_forall_mem_list (fun g hg g' _ hc => ?_)
  exact absurd hc.2.1 (by simp [h g hg])

/-! ## Regular answers -/

/-- The replies to a message contain its own acknowledgement, once, or none. -/
def Regular (g : Answer) : Prop :=
  g.acked = false ∨ g.2.filter BackendMsg.isAck = g.1.2.countedAck

/-- After a message that goes without its acknowledgement, no acknowledgement comes. -/
def Breaks (g h : Answer) : Prop := g.1.2.countedAck ≠ [] → g.acked = false → h.acked = false

lemma countedAck_cases (m : FrontendMsg) :
    (m.countedAck = [] ∧ swallowOf m = .zero) ∨
    (m.countedAck = [.parseComplete] ∧ swallowOf m = ⟨1, 0⟩) ∨
    (m.countedAck = [.closeComplete] ∧ swallowOf m = ⟨0, 1⟩) := by
  cases m <;> simp [FrontendMsg.countedAck, Server.ack, BackendMsg.isAck, swallowOf]

/-- One acknowledgement among other replies. -/
lemma fates_of_acked {a : BackendMsg} (h : g.2.filter BackendMsg.isAck = [a]) :
    fates s (g.2 ++ gs.flatMap Prod.snd) = dueFates (g :: gs) ↔
      (if g.1.1 = .inject then
        ∃ s', swallowReply s a = some s' ∧ fates s' (gs.flatMap Prod.snd) = dueFates gs
      else swallowReply s a = none ∧ fates s (gs.flatMap Prod.snd) = dueFates gs) := by
  obtain ⟨xs, ys, hout, hxs, ha, hys⟩ := List.filter_eq_cons_iff.mp h
  have hxs' : ∀ r ∈ xs, r.isAck = false := fun r hr => by simpa using hxs r hr
  have hys' : ∀ r ∈ ys, r.isAck = false := by simpa [List.filter_eq_nil_iff] using hys
  rw [hout, dueFates_cons, hout, List.append_assoc, fates_append_of_no_ack hxs', List.map_append,
    due_of_no_ack _ hxs', List.append_assoc, List.append_cancel_left_eq]
  simp only [List.cons_append, fates, List.map_cons, ha, and_true, due_of_no_ack _ hys']
  cases hsw : swallowReply s a with
  | none => split <;> simp_all [fates_append_of_no_ack hys']
  | some s' => split <;> simp_all [fates_append_of_no_ack hys']

/-- The counters after the acknowledgement of the first message. -/
lemma swallowReply_injected {m : FrontendMsg} {a : BackendMsg} (hm : m.countedAck = [a]) :
    swallowReply ((swallowOf m).add s) a = some s := by
  rcases countedAck_cases m with ⟨h, -⟩ | ⟨h, hs⟩ | ⟨h, hs⟩
  · simp [h] at hm
  · obtain rfl : a = .parseComplete := by simpa [hm] using h
    simp [hs, swallowReply, PsSwallow.add]
  · obtain rfl : a = .closeComplete := by simpa [hm] using h
    simp [hs, swallowReply, PsSwallow.add]

/-- The counters let the client's acknowledgement pass exactly if nothing of its kind has been
injected. -/
lemma swallowReply_client {m : FrontendMsg} {a : BackendMsg} (hm : m.countedAck = [a])
    (wire : List (Source × FrontendMsg)) : swallowReply (injectedAcks wire) a = none ↔
      ∀ e ∈ wire, e.1 = .inject → m.countedAck ≠ e.2.countedAck := by
  induction wire with
  | nil =>
    rcases countedAck_cases m with ⟨h, -⟩ | ⟨h, -⟩ | ⟨h, -⟩
    · simp [h] at hm
    · obtain rfl : a = .parseComplete := by simpa [hm] using h
      simp [injectedAcks, swallowReply, PsSwallow.zero]
    · obtain rfl : a = .closeComplete := by simpa [hm] using h
      simp [injectedAcks, swallowReply, PsSwallow.zero]
  | cons e wire ih =>
    rw [List.forall_mem_cons, ← ih]
    by_cases he : e.1 = .inject
    · have hcons : injectedAcks (e :: wire) = (swallowOf e.2).add (injectedAcks wire) := by
        simp [injectedAcks, he]
      rw [hcons]
      rcases countedAck_cases m with ⟨h, -⟩ | ⟨h, -⟩ | ⟨h, -⟩
      · simp [h] at hm
      all_goals
        rcases countedAck_cases e.2 with ⟨h', hs⟩ | ⟨h', hs⟩ | ⟨h', hs⟩ <;>
        · rw [h] at hm
          cases hm
          simp [h, h', hs, he, swallowReply, PsSwallow.add, PsSwallow.zero]
    · have hcons : injectedAcks (e :: wire) = injectedAcks wire := by
        simp [injectedAcks, he]
      simp [hcons, he]

/-- A message that adds nothing to the counters. -/
lemma injectedAcks_cons_zero {e : Source × FrontendMsg} (h : swallowOf e.2 = .zero)
    (wire : List (Source × FrontendMsg)) : injectedAcks (e :: wire) = injectedAcks wire := by
  simp only [injectedAcks, List.foldr_cons, h]
  split <;> simp [PsSwallow.add, PsSwallow.zero]

lemma injectedAcks_append (wire wire' : List (Source × FrontendMsg)) :
    injectedAcks (wire ++ wire') = (injectedAcks wire).add (injectedAcks wire') := by
  induction wire with
  | nil => simp [injectedAcks, PsSwallow.add, PsSwallow.zero]
  | cons e wire ih =>
    simp only [injectedAcks, List.cons_append, List.foldr_cons] at ih ⊢
    rw [ih]
    split <;> simp [PsSwallow.add, Nat.add_assoc]

/-- The client's own messages do not count. -/
lemma injectedAcks_snoc_own (wire : List (Source × FrontendMsg)) {src : Source} (m : FrontendMsg)
    (h : src ≠ .inject) : injectedAcks (wire ++ [(src, m)]) = injectedAcks wire := by
  rw [injectedAcks_append]
  simp [injectedAcks, h, PsSwallow.add, PsSwallow.zero]

/-! ## What the replay counts -/

lemma injectedAcks_closes (victims : List String) :
    injectedAcks ((victims.map (FrontendMsg.close 'S' ·)).map (Prod.mk .inject)) =
      ⟨0, victims.length⟩ := by
  induction victims with
  | nil => rfl
  | cons victim victims ih =>
    simp only [List.map_cons, injectedAcks, List.foldr_cons] at ih ⊢
    rw [ih]
    simp [swallowOf, PsSwallow.add, Nat.add_comm]

lemma markBackendHasStmt_swallow (stmts : BackendPSCache) (sess : Session) (name : String) :
    (markBackendHasStmt stmts sess name).swallow =
      injectedAcks ((markBackendHasStmt stmts sess name).injected.map (Prod.mk .inject)) :=
  (injectedAcks_closes _).symm

lemma ensureBackendHasStmt_swallow (stmts : BackendPSCache) (sess : Session) (name : String) :
    (ensureBackendHasStmt stmts sess name).swallow =
      injectedAcks ((ensureBackendHasStmt stmts sess name).injected.map (Prod.mk .inject)) := by
  unfold ensureBackendHasStmt
  split
  · rfl
  · split
    · rfl
    · split
      · rfl
      · simp only [List.map_append, List.map_cons, List.map_nil, injectedAcks_append,
          ← markBackendHasStmt_swallow]
        simp [injectedAcks, swallowOf, PsSwallow.add, PsSwallow.zero]

/-- `processClientMsg` asks for one acknowledgement to be swallowed per message it injects. -/
theorem processClientMsg_swallow {stmts : BackendPSCache} {sess : Session} {msg : FrontendMsg}
    {p : Processed} (h : processClientMsg stmts sess msg = .ok p) :
    p.swallow = injectedAcks (p.injected.map (Prod.mk .inject)) := by
  unfold processClientMsg at h
  split at h
  · split at h
    · cases h; rfl
    · split at h <;> cases h
      rename_i hp
      unfold trackClientParse at hp
      split at hp <;> cases hp
      exact markBackendHasStmt_swallow _ _ _
  · cases h; exact ensureBackendHasStmt_swallow _ _ _
  · split at h <;> cases h
    · exact ensureBackendHasStmt_swallow _ _ _
    · rfl
  · split at h <;> cases h <;> rfl
  · cases h; rfl
  · cases h; rfl

/-- **When counting is enough.**  For regular answers that break off at most once, the counters
give every reply its due fate exactly if no acknowledged message of the client comes before an
injected one of its kind. -/
theorem fates_eq_due_iff (hreg : ∀ g ∈ gs, Regular g) (hbreak : gs.Pairwise Breaks) :
    fates (injectedAcks (gs.map Prod.fst)) (gs.flatMap Prod.snd) = dueFates gs ↔
      Unconfused gs := by
  induction gs with
  | nil => simp [fates, dueFates, Unconfused]
  | cons g gs ih =>
    obtain ⟨hhead, htail⟩ := List.pairwise_cons.mp hbreak
    have ih := ih (fun g' hg' => hreg g' (by simp [hg'])) htail
    have hcons : Unconfused (g :: gs) ↔ (∀ h ∈ gs, ¬Confuses g h) ∧ Unconfused gs :=
      List.pairwise_cons
    rw [List.flatMap_cons, List.map_cons]
    cases hacked : g.acked with
    | false =>
      have hg := no_ack_of_not_acked hacked
      have hquiet : ∀ h ∈ gs, ¬Confuses g h :=
        fun h _ hc => absurd hc.2.1 (by simp [hacked])
      rw [fates_append_of_no_ack hg, dueFates_cons, due_of_no_ack _ hg, List.append_cancel_left_eq,
        hcons]
      rcases countedAck_cases g.1.2 with ⟨-, hs⟩ | ⟨hne, -⟩ | ⟨hne, -⟩
      · rw [injectedAcks_cons_zero hs, ih]
        exact (and_iff_right hquiet).symm
      all_goals
        -- nothing more is acknowledged
        have hrest : ∀ h ∈ gs, h.acked = false := fun h hh => hhead h hh (by simp [hne]) hacked
        exact iff_of_true (fates_of_unacked hrest) ⟨hquiet, unconfused_of_unacked hrest⟩
    | true =>
      have hown : g.2.filter BackendMsg.isAck = g.1.2.countedAck :=
        (hreg g (by simp)).resolve_left (by simp [hacked])
      obtain ⟨a, hm⟩ : ∃ a, g.1.2.countedAck = [a] := by
        rcases countedAck_cases g.1.2 with ⟨h, -⟩ | ⟨h, -⟩ | ⟨h, -⟩
        · obtain ⟨r, hr, hack⟩ := List.any_eq_true.mp hacked
          rw [h, List.filter_eq_nil_iff] at hown
          exact absurd hack (hown r hr)
        · exact ⟨_, h⟩
        · exact ⟨_, h⟩
      have hfilter : g.2.filter BackendMsg.isAck = [a] := hown.trans hm
      rw [fates_of_acked hfilter, hcons]
      by_cases hinj : g.1.1 = .inject
      · have hadd : injectedAcks (g.1 :: gs.map Prod.fst) =
            (swallowOf g.1.2).add (injectedAcks (gs.map Prod.fst)) := by
          simp [injectedAcks, hinj]
        rw [if_pos hinj, hadd, swallowReply_injected hm]
        simp only [Option.some.injEq, exists_eq_left', ih]
        exact (and_iff_right (fun h _ hc => hc.1 hinj)).symm
      · have hadd : injectedAcks (g.1 :: gs.map Prod.fst) = injectedAcks (gs.map Prod.fst) := by
          simp [injectedAcks, hinj]
        rw [if_neg hinj, hadd, ih, swallowReply_client hm]
        refine and_congr_left' ⟨fun h g' hg' hc => ?_, fun h e he hinj' heq => ?_⟩
        · exact h g'.1 (List.mem_map_of_mem hg') hc.2.2.1 hc.2.2.2
        · obtain ⟨g', hg', rfl⟩ := List.mem_map.mp he
          exact h g' hg' ⟨hinj, hacked, hinj', heq⟩

/-! ## The stream the client is sent -/

/-- The replies that the counters let pass. -/
def passed : PsSwallow → List BackendMsg → List BackendMsg
  | _, [] => []
  | s, r :: rs =>
      match swallowReply s r with
      | some s' => passed s' rs
      | none => r :: passed s rs

/-- The replies that are due: all but the acknowledgements of injected messages. -/
def duePassed (gs : List Answer) : List BackendMsg :=
  gs.flatMap fun g => g.2.filter fun r => !(g.1.1 = .inject && r.isAck)

/-- A reply other than an acknowledgement comes between an acknowledged message of the client and an
injected one of its kind. -/
def Displaced (gs : List Answer) : Prop :=
  ∃ gs₁ g gs₂ g' gs₃ h gs₄, gs = gs₁ ++ g :: gs₂ ++ g' :: gs₃ ++ h :: gs₄ ∧ Confuses g h ∧
    ∃ r ∈ g'.2, r.isAck = false

/-- The replies whose fate it is to be forwarded. -/
def kept (rs : List BackendMsg) (fs : List Fate) : List BackendMsg :=
  ((rs.zip fs).filter fun e => e.2 = .forward).map Prod.fst

lemma kept_fates (s : PsSwallow) (rs : List BackendMsg) : kept rs (fates s rs) = passed s rs := by
  induction rs generalizing s with
  | nil => rfl
  | cons r rs ih =>
    unfold fates passed
    cases swallowReply s r with
    | none => exact congrArg (r :: ·) (ih s)
    | some s' => exact ih s'

lemma kept_append {rs rs' : List BackendMsg} {fs fs' : List Fate} (h : rs.length = fs.length) :
    kept (rs ++ rs') (fs ++ fs') = kept rs fs ++ kept rs' fs' := by
  simp [kept, List.zip_append h]

lemma kept_map (f : BackendMsg → Fate) (rs : List BackendMsg) :
    kept rs (rs.map f) = rs.filter fun r => f r = .forward := by
  induction rs with
  | nil => rfl
  | cons r rs ih =>
    unfold kept at ih ⊢
    by_cases hr : f r = .forward <;> simp [hr, ih]

lemma kept_dueFates (gs : List Answer) :
    kept (gs.flatMap Prod.snd) (dueFates gs) = duePassed gs := by
  induction gs with
  | nil => rfl
  | cons g gs ih =>
    rw [List.flatMap_cons, dueFates_cons, kept_append (by simp), ih, kept_map]
    congr 1
    refine List.filter_congr (fun r _ => ?_)
    by_cases hinj : g.1.1 = .inject <;> cases r.isAck <;> simp [hinj]

/-- **The due stream**, if no acknowledgement is taken for another. -/
lemma passed_of_fates_eq (h : fates s (gs.flatMap Prod.snd) = dueFates gs) :
    passed s (gs.flatMap Prod.snd) = duePassed gs := by
  rw [← kept_fates, h, kept_dueFates]

/-! ### Replies out of place -/

lemma passed_append (s : PsSwallow) (rs rs' : List BackendMsg) :
    ∃ s', passed s (rs ++ rs') = passed s rs ++ passed s' rs' := by
  induction rs generalizing s with
  | nil => exact ⟨s, rfl⟩
  | cons r rs ih =>
    simp only [List.cons_append, passed]
    cases swallowReply s r with
    | none =>
      obtain ⟨s', h⟩ := ih s
      exact ⟨s', congrArg (r :: ·) h⟩
    | some s₁ => exact ih s₁

/-- What is no acknowledgement passes. -/
lemma filter_passed (s : PsSwallow) (rs : List BackendMsg) :
    ((passed s rs).filter fun r => !r.isAck) = rs.filter fun r => !r.isAck := by
  induction rs generalizing s with
  | nil => rfl
  | cons r rs ih =>
    unfold passed
    cases hack : r.isAck with
    | false =>
      simp only [swallowReply_of_not_ack hack]
      rw [List.filter_cons_of_pos (by simp [hack]), List.filter_cons_of_pos (by simp [hack]), ih]
    | true =>
      rw [List.filter_cons_of_neg (a := r) (l := rs) (by simp [hack])]
      cases swallowReply s r with
      | none =>
        simp only
        rw [List.filter_cons_of_neg (by simp [hack]), ih]
      | some s' => exact ih s'

lemma filter_duePassed (gs : List Answer) : ((duePassed gs).filter fun r => !r.isAck) =
    (gs.flatMap Prod.snd).filter fun r => !r.isAck := by
  simp only [duePassed, List.filter_flatMap, List.filter_filter]
  refine List.flatMap_congr (fun g _ => List.filter_congr (fun r _ => ?_))
  cases r.isAck <;> simp

lemma of_swallowReply {s s' : PsSwallow} {r : BackendMsg} (h : swallowReply s r = some s') :
    s.of r = s'.of r + 1 ∧ ∀ a, a ≠ r → s'.of a = s.of a := by
  cases r with
  | parseComplete | closeComplete =>
    simp only [swallowReply] at h
    split at h <;> cases h
    refine ⟨by simp only [PsSwallow.of]; omega, fun a ha => ?_⟩
    cases a <;> first | rfl | exact absurd rfl ha
  | _ => cases h

lemma of_eq_zero {s : PsSwallow} {r : BackendMsg} (h : swallowReply s r = none) : s.of r = 0 := by
  cases r with
  | parseComplete | closeComplete =>
    simp only [swallowReply] at h
    split at h
    · cases h
    · simp only [PsSwallow.of]
      omega
  | _ => rfl

/-- The first acknowledgements of a kind are withheld, as many as the counter says. -/
lemma count_passed (s : PsSwallow) (rs : List BackendMsg) (a : BackendMsg) :
    (passed s rs).count a = rs.count a - s.of a := by
  induction rs generalizing s with
  | nil => simp [passed]
  | cons r rs ih =>
    unfold passed
    cases hsw : swallowReply s r with
    | none =>
      simp only [List.count_cons, ih]
      by_cases hr : r = a
      · subst hr
        simp [of_eq_zero hsw]
      · simp [hr]
    | some s' =>
      obtain ⟨hof, hother⟩ := of_swallowReply hsw
      simp only [List.count_cons, ih]
      by_cases hr : r = a
      · subst hr
        simp only [beq_self_eq_true, if_true, hof]
        omega
      · simp [hr, hother a (Ne.symm hr)]

lemma of_add (s s' : PsSwallow) (a : BackendMsg) : (s.add s').of a = s.of a + s'.of a := by
  cases a <;> rfl

/-- The injected messages of a batch are acknowledged as often as they are counted, at most. -/
lemma count_flatMap_le {a : BackendMsg}
    (hreg : ∀ g ∈ gs, g.2.count a ≤ (swallowOf g.1.2).of a) :
    (gs.flatMap Prod.snd).count a ≤
      (duePassed gs).count a + (injectedAcks (gs.map Prod.fst)).of a := by
  induction gs with
  | nil => simp
  | cons g gs ih =>
    have ih := ih (fun g' hg' => hreg g' (by simp [hg']))
    have hg := hreg g (by simp)
    simp only [duePassed, List.flatMap_cons, List.count_append] at ih ⊢
    by_cases hinj : g.1.1 = .inject
    · have hadd : injectedAcks ((g :: gs).map Prod.fst) =
          (swallowOf g.1.2).add (injectedAcks (gs.map Prod.fst)) := by
        simp [injectedAcks, hinj]
      rw [hadd, of_add]
      omega
    · have hadd : injectedAcks ((g :: gs).map Prod.fst) = injectedAcks (gs.map Prod.fst) := by
        simp [injectedAcks, hinj]
      have hall : (g.2.filter fun r => !(decide (g.1.1 = .inject) && r.isAck)) = g.2 := by
        simp [hinj]
      rw [hadd, hall]
      omega

lemma Regular.count_le {a : BackendMsg} (ha : a.isAck = true) (h : Regular g) :
    g.2.count a ≤ (swallowOf g.1.2).of a := by
  have hcount : g.2.count a = (g.2.filter BackendMsg.isAck).count a := by
    rw [List.count_filter ha]
  rcases h with h | h
  · have : g.2.count a = 0 := List.count_eq_zero.mpr fun hmem => by
      simp [no_ack_of_not_acked h a hmem] at ha
    omega
  · rw [hcount, h]
    rcases countedAck_cases g.1.2 with ⟨h, hs⟩ | ⟨h, hs⟩ | ⟨h, hs⟩ <;> rw [h, hs]
    · simp
    all_goals
      cases a with
      | parseComplete | closeComplete => decide
      | _ => cases ha

/-- Two streams with as many other replies before one that is no acknowledgement. -/
lemma prefix_eq {xs ys xs' ys' : List BackendMsg} {r r' : BackendMsg} (hr : r.isAck = false)
    (hr' : r'.isAck = false) (h : xs ++ r :: xs' = ys ++ r' :: ys')
    (hcount : (xs.filter fun r => !r.isAck).length = (ys.filter fun r => !r.isAck).length) :
    xs = ys := by
  induction xs generalizing ys with
  | nil =>
    cases ys with
    | nil => rfl
    | cons y ys =>
      obtain ⟨rfl, -⟩ := List.cons.inj h
      simp [hr] at hcount
  | cons x xs ih =>
    cases ys with
    | nil =>
      obtain ⟨rfl, -⟩ := List.cons.inj h
      simp [hr'] at hcount
    | cons y ys =>
      obtain ⟨rfl, htail⟩ := List.cons.inj h
      refine congrArg (x :: ·) (ih htail ?_)
      cases hx : x.isAck <;> simpa [hx] using hcount

/-- A message that expects the acknowledgement counts for it. -/
lemma of_swallowOf {m : FrontendMsg} {a : BackendMsg} (h : m.countedAck = [a]) :
    (swallowOf m).of a = 1 := by
  rcases countedAck_cases m with ⟨h', -⟩ | ⟨h', hs⟩ | ⟨h', hs⟩
  · simp [h'] at h
  all_goals
    obtain rfl : _ = a := List.singleton_inj.mp (h'.symm.trans h)
    rw [hs]
    rfl

/-- The acknowledgement of an acknowledged message. -/
lemma Regular.exists_ack (h : Regular g) (hacked : g.acked = true) :
    ∃ a ∈ g.2, a.isAck = true ∧ g.1.2.countedAck = [a] := by
  have hown := h.resolve_left (by simp [hacked])
  obtain ⟨a, ha, hack⟩ := List.any_eq_true.mp hacked
  have hmem : a ∈ g.1.2.countedAck := hown ▸ List.mem_filter.mpr ⟨ha, hack⟩
  refine ⟨a, ha, hack, ?_⟩
  rcases countedAck_cases g.1.2 with ⟨h, -⟩ | ⟨h, -⟩ | ⟨h, -⟩ <;> rw [h] at hmem ⊢
  · cases hmem
  all_goals rw [List.mem_singleton.mp hmem]

/-- At a reply `r` that is no acknowledgement the client should have had what is due of the answers
`front`.  Where one acknowledgement more is counted than these have injected, it has had fewer. -/
lemma passed_ne_of_late {front : List Answer} {s : PsSwallow} {a r : BackendMsg}
    {rest due : List BackendMsg} (hr : r.isAck = false)
    (hle : ∀ g ∈ front, g.2.count a ≤ (swallowOf g.1.2).of a)
    (hdue : a ∈ duePassed front) (hmore : (injectedAcks (front.map Prod.fst)).of a < s.of a) :
    passed s (front.flatMap Prod.snd ++ r :: rest) ≠ duePassed front ++ r :: due := by
  intro heq
  obtain ⟨s', hpassed⟩ := passed_append s (front.flatMap Prod.snd) (r :: rest)
  rw [hpassed, passed, swallowReply_of_not_ack hr] at heq
  have hfront := prefix_eq hr hr heq (by rw [filter_passed, filter_duePassed])
  have hcount := congrArg (List.count a) hfront
  rw [count_passed] at hcount
  have hall := count_flatMap_le hle
  have hpos := List.count_pos_iff.mpr hdue
  omega

/-- **A stream that is not due**: an acknowledgement that the client is owed comes too late, or not
at all. -/
theorem passed_ne_of_displaced (hreg : ∀ g ∈ gs, Regular g) (h : Displaced gs) :
    passed (injectedAcks (gs.map Prod.fst)) (gs.flatMap Prod.snd) ≠ duePassed gs := by
  obtain ⟨gs₁, g, gs₂, g', gs₃, h, gs₄, rfl, ⟨hown, hacked, hinj, hkind⟩, r, hr, hrack⟩ := h
  obtain ⟨xs, ys, hsplit⟩ := List.append_of_mem hr
  obtain ⟨a, ha, hack, hcounted⟩ := (hreg g (by simp)).exists_ack hacked
  -- the answer that has `r` is split there
  have hreplies : (gs₁ ++ g :: gs₂ ++ g' :: gs₃ ++ h :: gs₄).flatMap Prod.snd =
      (gs₁ ++ g :: gs₂ ++ [(g'.1, xs)]).flatMap Prod.snd ++
        r :: (ys ++ (gs₃ ++ h :: gs₄).flatMap Prod.snd) := by
    simp [hsplit]
  have hdue : duePassed (gs₁ ++ g :: gs₂ ++ g' :: gs₃ ++ h :: gs₄) =
      duePassed (gs₁ ++ g :: gs₂ ++ [(g'.1, xs)]) ++
        r :: duePassed ((g'.1, ys) :: (gs₃ ++ h :: gs₄)) := by
    simp [duePassed, hsplit, hrack]
  rw [hreplies, hdue]
  refine passed_ne_of_late hrack (a := a) (fun g₀ hg₀ => ?_) ?_ ?_
  · rcases List.mem_append.mp hg₀ with hg₀ | hg₀
    · exact (hreg g₀ (by simp at hg₀ ⊢; tauto)).count_le hack
    · obtain rfl := List.mem_singleton.mp hg₀
      have hwhole := (hreg g' (by simp)).count_le hack
      rw [hsplit, List.count_append] at hwhole
      exact le_trans (Nat.le_add_right _ _) hwhole
  · refine List.mem_flatMap.mpr ⟨g, by simp, ?_⟩
    simp [ha, hown]
  · -- the later message is counted from the start
    have hlater : injectedAcks (h.1 :: gs₄.map Prod.fst) =
        (swallowOf h.1.2).add (injectedAcks (gs₄.map Prod.fst)) := by simp [injectedAcks, hinj]
    have hwire : (gs₁ ++ g :: gs₂ ++ g' :: gs₃ ++ h :: gs₄).map Prod.fst =
        (gs₁ ++ g :: gs₂ ++ [(g'.1, xs)]).map Prod.fst ++
          (gs₃.map Prod.fst ++ h.1 :: gs₄.map Prod.fst) := by simp
    rw [hwire, injectedAcks_append, injectedAcks_append, hlater, of_add, of_add, of_add,
      of_swallowOf (hkind ▸ hcounted)]
    omega

end Relay

/-! ## The answers of a server -/

/-- The messages of an extended-protocol batch before its `Sync`. -/
def FrontendMsg.isExtended : FrontendMsg → Bool
  | .parse _ _ _ | .bind _ _ | .describe _ _ | .execute _ | .close _ _ => true
  | _ => false

namespace Server

/-- A server answers messages one after the other; asynchronous messages may come in between. -/
inductive Answers (quiet : String → Bool) :
    Server → List (Source × FrontendMsg) → List Answer → Prop
  | nil (s : Server) : Answers quiet s [] []
  | cons {s s' : Server} {e : Source × FrontendMsg} {es : List (Source × FrontendMsg)}
      {gs : List Answer} (v : Verdict) (ns ns' : List BackendMsg)
      (hns : ∀ m ∈ ns, m.isNotice = true) (hns' : ∀ m ∈ ns', m.isNotice = true)
      (h : serve quiet { s with inbox := [e.2], outbox := [] } v = some s')
      (hrest : Answers quiet s' es gs) :
      Answers quiet s (e :: es) ((e, ns ++ s'.outbox ++ ns') :: gs)

/-- Answers computed from verdicts. -/
def script (quiet : String → Bool) :
    Server → List ((Source × FrontendMsg) × Verdict) → Option (List Answer)
  | _, [] => some []
  | s, (e, v) :: es =>
      (serve quiet { s with inbox := [e.2], outbox := [] } v).bind fun s' =>
        (script quiet s' es).map ((e, s'.outbox) :: ·)

lemma answers_of_script {quiet : String → Bool} {s : Server}
    {es : List ((Source × FrontendMsg) × Verdict)} {gs : List Answer}
    (h : script quiet s es = some gs) : Answers quiet s (es.map Prod.fst) gs := by
  induction es generalizing s gs with
  | nil => cases h; exact .nil s
  | cons e es ih =>
    obtain ⟨s', hserve, hmap⟩ := Option.bind_eq_some_iff.mp h
    obtain ⟨gs', hgs', rfl⟩ := Option.map_eq_some_iff.mp hmap
    have hcons := Answers.cons e.2 [] [] (by simp) (by simp) hserve (ih hgs')
    simpa using hcons

/-- Somewhere between a failed or suspended message and the next `Sync`. -/
def Phase.Behind (p : Phase) : Prop := p = .skipping ∨ p = .copyIn false ∨ p = .dead

/-- No counted acknowledgement among the messages. -/
def NoAck (out : List BackendMsg) : Prop := ∀ r ∈ out, r.isAck = false

variable {quiet : String → Bool} {s s' : Server} {v : Verdict} {m : FrontendMsg}

lemma NoAck.append {out out' : List BackendMsg} (h : NoAck out) (h' : NoAck out') :
    NoAck (out ++ out') := by
  intro r hr
  rcases List.mem_append.mp hr with hr | hr
  · exact h r hr
  · exact h' r hr

lemma noAck_of_body {out : List BackendMsg} (h : out.all BackendMsg.isBody = true) : NoAck out := by
  intro r hr
  have := List.all_eq_true.mp h r hr
  cases r <;> simp_all [BackendMsg.isBody, BackendMsg.isAck]

lemma noAck_of_notice {out : List BackendMsg} (h : ∀ r ∈ out, r.isNotice = true) : NoAck out := by
  intro r hr
  have := h r hr
  cases r <;> simp_all [BackendMsg.isNotice, BackendMsg.isAck]

lemma NoAck.filter {out : List BackendMsg} (h : NoAck out) :
    out.filter BackendMsg.isAck = [] := by
  simpa [List.filter_eq_nil_iff, NoAck] using h

/-- A message of the extended protocol is acknowledged, or everything after it is skipped. -/
lemma serveExtended_acks (hp : s.phase = .ready) (hout : s.outbox = [])
    (h : serveExtended s m v = some s') :
    (s'.phase = .ready ∧ s'.outbox.filter BackendMsg.isAck = m.countedAck) ∨
      (Phase.Behind s'.phase ∧ NoAck s'.outbox) := by
  unfold serveExtended at h
  split at h
  · split at h <;> cases h
    rename_i hok
    rw [Bool.and_eq_true] at hok
    refine .inl ⟨hp, ?_⟩
    simp [emit, hout, List.filter_append, (noAck_of_body hok.1).filter, FrontendMsg.countedAck]
  · split at h <;> cases h
    rename_i hok
    refine .inr ⟨.inl rfl, ?_⟩
    simp only [emit, hout, List.nil_append]
    exact (noAck_of_body hok).append (by simp [NoAck, BackendMsg.isAck])
  · split at h <;> cases h
    rename_i hok
    rw [Bool.and_eq_true] at hok
    refine .inr ⟨.inr (.inl rfl), ?_⟩
    simp only [emit, hout, List.nil_append]
    exact (noAck_of_body hok.2).append (by simp [NoAck, BackendMsg.isAck])
  · cases h
    refine .inr ⟨.inr (.inr rfl), ?_⟩
    simp [emit, hout, NoAck, BackendMsg.isAck]
  · cases h

lemma serve_ready (hm : m.isExtended = true) (hp : s.phase = .ready)
    (h : serve quiet { s with inbox := [m], outbox := [] } v = some s') :
    (s'.phase = .ready ∧ s'.outbox.filter BackendMsg.isAck = m.countedAck) ∨
      (Phase.Behind s'.phase ∧ NoAck s'.outbox) := by
  simp only [serve, hp] at h
  unfold serveReady at h
  split at h <;> simp only [FrontendMsg.isExtended, Bool.false_eq_true] at hm
  exact serveExtended_acks rfl rfl h

/-- Behind a failed message nothing is acknowledged. -/
lemma serve_behind (hm : m.isExtended = true) (hp : Phase.Behind s.phase)
    (h : serve quiet { s with inbox := [m], outbox := [] } v = some s') :
    Phase.Behind s'.phase ∧ NoAck s'.outbox := by
  rcases hp with hp | hp | hp <;> simp only [serve, hp] at h
  · unfold serveSkipping at h
    split at h <;> simp only [FrontendMsg.isExtended, Bool.false_eq_true] at hm
    cases h
    exact ⟨.inl rfl, by simp [NoAck]⟩
  · unfold serveCopyIn at h
    split at h <;> simp only [FrontendMsg.isExtended, Bool.false_eq_true] at hm
    unfold serveUnexpected at h
    split at h <;> cases h
    · exact ⟨.inl rfl, by simp [copyError, emit, NoAck, BackendMsg.isAck]⟩
    · exact ⟨.inr (.inr rfl), by simp [emit, NoAck, BackendMsg.isAck]⟩
  · cases h
    exact ⟨.inr (.inr rfl), by simp [NoAck]⟩

lemma serveCycle_noAck (hout : s.outbox = []) (h : serveCycle s v = some s') :
    NoAck s'.outbox := by
  unfold serveCycle at h
  split at h
  · split at h <;> cases h
    rename_i hok
    simp only [finish, emit, hout, List.nil_append]
    exact (noAck_of_body hok).append (by simp [NoAck, BackendMsg.isAck])
  · cases h
    simp [finish, emit, hout, NoAck, BackendMsg.isAck]
  · cases h

lemma serve_sync (h : serve quiet { s with inbox := [.sync], outbox := [] } v = some s') :
    NoAck s'.outbox := by
  simp only [serve] at h
  split at h
  · exact serveCycle_noAck rfl h
  · exact serveCycle_noAck rfl h
  · cases h; simp [NoAck]
  · cases h; simp [NoAck]
  · cases h; simp [NoAck]

/-- The answer to one message, with the asynchronous messages around it. -/
lemma acked_answer {e : Source × FrontendMsg} {ns ns' out : List BackendMsg}
    (hns : ∀ m ∈ ns, m.isNotice = true) (hns' : ∀ m ∈ ns', m.isNotice = true) :
    (NoAck out → Answer.acked (e, ns ++ out ++ ns') = false) ∧
      (ns ++ out ++ ns').filter BackendMsg.isAck = out.filter BackendMsg.isAck := by
  refine ⟨fun h => ?_, ?_⟩
  · have hall := ((noAck_of_notice hns).append h).append (noAck_of_notice hns')
    refine List.any_eq_false.mpr (fun r hr => ?_)
    simpa using hall r hr
  · simp [List.filter_append, (noAck_of_notice hns).filter, (noAck_of_notice hns').filter]

/-- A batch: extended-protocol messages, then `Sync`. -/
def ExtendedBatch (wire : List (Source × FrontendMsg)) : Prop :=
  ∃ es src, wire = es ++ [(src, FrontendMsg.sync)] ∧ ∀ e ∈ es, e.2.isExtended = true

lemma Answers.sync {src : Source} {gs : List Answer} (h : Answers quiet s [(src, .sync)] gs) :
    ∀ g ∈ gs, g.acked = false := by
  cases h with
  | cons v ns ns' hns hns' h hrest =>
    cases hrest
    simpa using (acked_answer (e := (src, .sync)) hns hns').1 (serve_sync h)

lemma Answers.behind {es : List (Source × FrontendMsg)} {src : Source} {gs : List Answer}
    (hes : ∀ e ∈ es, e.2.isExtended = true) (hp : Phase.Behind s.phase)
    (h : Answers quiet s (es ++ [(src, FrontendMsg.sync)]) gs) : ∀ g ∈ gs, g.acked = false := by
  induction es generalizing s gs with
  | nil => exact h.sync
  | cons e es ih =>
    cases h with
    | cons v ns ns' hns hns' h hrest =>
      obtain ⟨hp', hno⟩ := serve_behind (hes e (by simp)) hp h
      rw [List.forall_mem_cons]
      exact ⟨(acked_answer hns hns').1 hno, ih (fun e' he' => hes e' (by simp [he'])) hp' hrest⟩

/-- **The answers to a batch** are regular, and break off at most once. -/
theorem Answers.regular {wire : List (Source × FrontendMsg)} {gs : List Answer}
    (hwire : ExtendedBatch wire) (hp : s.phase = .ready) (h : Answers quiet s wire gs) :
    (∀ g ∈ gs, Relay.Regular g) ∧ gs.Pairwise Relay.Breaks := by
  obtain ⟨es, src, rfl, hes⟩ := hwire
  induction es generalizing s gs with
  | nil =>
    have hno := h.sync
    refine ⟨fun g hg => .inl (hno g hg), ?_⟩
    exact List.pairwise_of_forall_mem_list (fun _ _ g' hg' _ _ => hno g' hg')
  | cons e es ih =>
    have hes' : ∀ e' ∈ es, e'.2.isExtended = true := fun e' he' => hes e' (by simp [he'])
    cases h with
    | cons v ns ns' hns hns' h hrest =>
      rw [List.forall_mem_cons, List.pairwise_cons]
      rcases serve_ready (hes e (by simp)) hp h with ⟨hp', hack⟩ | ⟨hp', hno⟩
      · obtain ⟨hreg, hbreak⟩ := ih hp' hes' hrest
        have hown := (acked_answer (e := e) hns hns').2.trans hack
        refine ⟨⟨.inr hown, hreg⟩, fun g' _ hne hacked => absurd ?_ hne, hbreak⟩
        -- an unacknowledged message expected nothing
        rw [← hown, List.filter_eq_nil_iff]
        intro r hr
        simpa using Relay.no_ack_of_not_acked hacked r hr
      · have hunacked := hrest.behind hes' hp'
        refine ⟨⟨.inl ((acked_answer hns hns').1 hno), fun g hg => .inl (hunacked g hg)⟩,
          fun g' hg' _ _ => hunacked g' hg', ?_⟩
        exact List.pairwise_of_forall_mem_list (fun _ _ g' hg' _ _ => hunacked g' hg')

lemma Answers.map_fst {wire : List (Source × FrontendMsg)} {gs : List Answer}
    (h : Answers quiet s wire gs) : gs.map Prod.fst = wire := by
  induction h with
  | nil => rfl
  | cons v ns ns' _ _ _ _ ih => rw [List.map_cons, ih]

end Server

end Pgman
