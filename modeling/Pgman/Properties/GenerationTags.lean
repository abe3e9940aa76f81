import Pgman.Properties.ConnLifetime
import Pgman.Properties.Reconnect

/-!
# Whether a generation is that of the dial

A connection is tagged with the generation that is current when its dial is over.  What the tag is
for is the other end of the dial: a connection whose dial began before a `Reconnect` may lead to the
host that the `Reconnect` is to get away from.  A `Reconnect` that falls into the dial leaves no
trace on the connection, which is parked like any other (`dialed_across_reconnect_is_parked`).

`DialLog` is the pool together with the number of `Reconnect` calls begun so far and what that
number was when a dial began.  `bumpsApart` leaves out the runs in which a `Reconnect` bumps the
generation while some call is between the beginning of its dial and the tag.  In the others three
bounds hold of all generations that are recorded or about to be.  They differ in two relations only,
between generations and numbers of `Reconnect` calls, and are kept for the same reason: `TagLaw` is
what the two relations must satisfy, and `TagLaw.Holds.step` is that reason.
-/

namespace Pgman.Pool

variable {o : Options} {limit : ℕ} {s s' : Shared} {op op' : Op} {ch : Choice} {p p' : Pool}
  {c : Conn} {m : ConnMeta}

/-! ## From the dial to the record -/

/-- The call is dialing. -/
def Op.dials : Op → Bool
  | .acqDial _ _ | .warmDial _ => true
  | _ => false

/-- The connection that the call has dialed and not tagged. -/
def Op.fresh : Op → Option Conn
  | .okStore _ c | .okSwap _ c | .acqTag _ c | .warmPark _ c _ => some c
  | _ => none

/-- The tag that the call has made and not recorded. -/
def Op.tagMade : Op → Option (Conn × ConnMeta)
  | .acqStore _ c m => some (c, m)
  | _ => none

/-- Where what a call has dialed, what it has tagged and what is recorded come from. -/
structure Carries (s : Shared) (op : Op) (ch : Choice) (s' : Shared) (op' : Op) : Prop where
  fresh : ∀ c, op'.fresh = some c →
    op.dials = true ∧ ch = .dialOk c ∧ c ∉ s.dialed ∨ op.fresh = some c
  tag : ∀ c m, op'.tagMade = some (c, m) → op.fresh = some c ∧ m.gen = s.reconnectGen
  record : ∀ c m, s'.connMeta c = some m → s.connMeta c = some m ∨ op.tagMade = some (c, m) ∨
    op.fresh = some c ∧ m.gen = s.reconnectGen

lemma Carries.plain (hfresh : op'.fresh = none) (htag : op'.tagMade = none)
    (hmeta : s'.connMeta = s.connMeta) : Carries s op ch s' op' where
  fresh c h := by
    rw [hfresh] at h
    cases h
  tag c m h := by
    rw [htag] at h
    cases h
  record c m h := .inl (hmeta ▸ h)

lemma Carries.deletes {d : Conn} (hfresh : op'.fresh = none) (htag : op'.tagMade = none)
    (hmeta : s'.connMeta = Function.update s.connMeta d none) : Carries s op ch s' op' where
  fresh c h := by
    rw [hfresh] at h
    cases h
  tag c m h := by
    rw [htag] at h
    cases h
  record c m h := by
    rw [hmeta] at h
    by_cases hd : c = d
    · rw [hd, Function.update_self] at h
      cases h
    · rw [Function.update_of_ne hd] at h
      exact .inl h

/-- A dial has returned. -/
lemma Carries.dialed {d : Conn} (hdials : op.dials = true) (hch : ch = .dialOk d)
    (hnew : d ∉ s.dialed) (hfresh : op'.fresh = some d) (htag : op'.tagMade = none)
    (hmeta : s'.connMeta = s.connMeta) : Carries s op ch s' op' where
  fresh c h := by
    obtain rfl := Option.some.inj (hfresh.symm.trans h)
    exact .inl ⟨hdials, hch, hnew⟩
  tag c m h := by
    rw [htag] at h
    cases h
  record c m h := .inl (hmeta ▸ h)

/-- The connection stays untagged. -/
lemma Carries.passes (hfresh : op'.fresh = op.fresh) (htag : op'.tagMade = none)
    (hmeta : s'.connMeta = s.connMeta) : Carries s op ch s' op' where
  fresh c h := .inr (hfresh ▸ h)
  tag c m h := by
    rw [htag] at h
    cases h
  record c m h := .inl (hmeta ▸ h)

lemma acquireStep_carries (h : acquireStep o limit s op ch = some (s', op')) :
    Carries s op ch s' op' := by
  unfold acquireStep at h
  split at h
  -- the dial returns, the connection is tagged, the tag is recorded
  case h_18 =>
    split at h <;> cases h
    exact .dialed rfl rfl ‹_› rfl rfl rfl
  case h_23 k d =>
    cases h
    refine ⟨nofun, fun c m htag => ?_, fun c m hmeta => .inl hmeta⟩
    cases htag
    exact ⟨rfl, rfl⟩
  case h_24 k d md =>
    cases h
    refine ⟨nofun, nofun, fun c m hmeta => ?_⟩
    change Function.update s.connMeta d (some md) c = some m at hmeta
    by_cases hd : c = d
    · rw [hd, Function.update_self] at hmeta
      cases hmeta
      exact .inr (.inl (hd ▸ rfl))
    · rw [Function.update_of_ne hd] at hmeta
      exact .inl hmeta
  all_goals try split at h
  all_goals cases h
  all_goals first
    | exact .plain rfl rfl rfl
    | exact .deletes rfl rfl rfl
    | exact .plain rfl rfl (congrArg Goods.connMeta (goods_releaseSlot s))
    | (split <;> exact .plain rfl rfl rfl)

lemma circuitStep_carries (h : circuitStep o s op ch = some (s', op')) :
    Carries s op ch s' op' := by
  have hmeta : s'.connMeta = s.connMeta := congrArg Goods.connMeta (circuitStep_goods h)
  cases circuitStep_moves h with
  | asks d _ hop' =>
    obtain (_ | _ | _) | rfl | rfl := hop' <;> cases d <;> exact .plain rfl rfl hmeta
  | frees => exact .plain rfl rfl hmeta
  | records d err _ hop' =>
    obtain (_ | _ | _) | rfl := hop' <;> cases d <;> exact .plain rfl rfl hmeta
  | succeeds d c hop hop' =>
    have hfresh : some c = op.fresh := by cases hop <;> rfl
    obtain (_ | _) | rfl := hop' <;> cases d <;> exact .passes hfresh rfl hmeta

lemma warmUpStep_carries (h : warmUpStep o limit s op ch = some (s', op')) :
    Carries s op ch s' op' := by
  unfold warmUpStep at h
  split at h
  case h_4 =>
    split at h <;> cases h
    exact .dialed rfl rfl ‹_› rfl rfl rfl
  case h_6 i d now =>
    split at h <;> cases h
    · exact .plain rfl rfl rfl
    · refine ⟨nofun, nofun, fun c m hmeta => ?_⟩
      change Function.update s.connMeta d (some ⟨s.reconnectGen, now⟩) c = some m at hmeta
      by_cases hd : c = d
      · rw [hd, Function.update_self] at hmeta
        cases hmeta
        exact .inr (.inr ⟨hd ▸ rfl, rfl⟩)
      · rw [Function.update_of_ne hd] at hmeta
        exact .inl hmeta
  all_goals try split at h
  all_goals cases h
  all_goals first
    | exact .plain rfl rfl rfl
    | exact .plain rfl rfl (congrArg Goods.connMeta (goods_releaseSlot s))

lemma opStep_carries (h : opStep o limit s op ch = some (s', op')) : Carries s op ch s' op' := by
  obtain h | h | h | h | h | h := opStep_cases h
  · exact acquireStep_carries h
  · exact circuitStep_carries h
  · unfold returnStep at h
    split at h
    all_goals try split at h
    all_goals try split at h
    all_goals cases h
    all_goals first
      | exact .plain rfl rfl rfl
      | exact .deletes rfl rfl rfl
      | exact .plain rfl rfl
          (congrArg Goods.connMeta ((goods_emit? _ _).trans (goods_releaseSlot s)))
  · unfold drainStep at h
    split at h
    all_goals try split at h
    all_goals cases h
    all_goals first
      | exact .plain rfl rfl rfl
      | exact .deletes rfl rfl rfl
      | exact .plain rfl rfl (congrArg Goods.connMeta (goods_emit? _ _))
  · exact warmUpStep_carries h
  · unfold pauseStep at h
    split at h
    all_goals try split at h
    all_goals cases h
    all_goals first
      | exact .plain rfl rfl rfl
      | exact .plain rfl rfl (congrArg Goods.connMeta (goods_closeChan s _))

/-- A dial returns a connection that there was not. -/
lemma opStep_dialOk (h : opStep o limit s op (.dialOk c) = some (s', op')) (hop : op.dials = true) :
    c ∉ s.dialed := by
  cases op with
  | acqDial k i =>
    obtain h | h | h | h | h | h := opStep_cases h
    case inl =>
      simp only [acquireStep] at h
      split at h
      · cases h
      · assumption
    all_goals cases h
  | warmDial i =>
    obtain h | h | h | h | h | h := opStep_cases h
    case inr.inr.inr.inr.inl =>
      simp only [warmUpStep] at h
      split at h
      · cases h
      · assumption
    all_goals cases h
  | _ => cases hop

/-- Nobody comes to the first line of `Reconnect`. -/
lemma opStep_ne_reconnect (h : opStep o limit s op ch = some (s', op')) : op' ≠ .reconnect := by
  rintro rfl
  have h := drainStep_of_draining h rfl
  unfold drainStep at h
  split at h
  all_goals try split at h
  all_goals cases h

lemma Op.untagged_of_fresh (h : op.fresh = some c) : c ∈ op.untagged := by
  cases op <;> cases h <;> exact List.mem_singleton_self _

lemma Op.untagged_of_tagMade (h : op.tagMade = some (c, m)) : c ∈ op.untagged := by
  cases op <;> cases h
  exact List.mem_singleton_self _

/-- What is in a call's hands was dialed. -/
lemma Accounted.dialed_of_hands (h : Accounted limit p) (hop : op ∈ p.ops)
    (hc : c ∈ op.tagged ∨ c ∈ op.untagged) : c ∈ p.sh.dialed := by
  have honce := h.once c
  have htag := le_tally (fun op => op.tagged.count c) hop
  have hunt := le_tally (fun op => op.untagged.count c) hop
  have hpos : 0 < op.tagged.count c + op.untagged.count c :=
    hc.elim (fun hc => Nat.add_pos_left (List.count_pos_iff.mpr hc) _)
      fun hc => Nat.add_pos_right _ (List.count_pos_iff.mpr hc)
  by_contra hnot
  rw [if_neg hnot] at honce
  omega

lemma Accounted.dialed_of_record (h : Accounted limit p) (hc : p.sh.connMeta c = some m) :
    c ∈ p.sh.dialed := by
  have hpos := (h.record c).mp (by simp [hc])
  have honce := h.once c
  by_contra hnot
  rw [if_neg hnot] at honce
  omega

/-! ## The pool with the beginnings of its dials -/

/-- The pool, with the `Reconnect` calls begun so far and at the beginning of each dial. -/
structure DialLog where
  pool : Pool
  /-- how many `Reconnect` calls have begun -/
  begun : ℕ
  /-- how many had when the last dial of the call at a position began -/
  dialing : ℕ → ℕ
  /-- how many had when the dial of a connection began -/
  began : Conn → ℕ

/-- No `Reconnect` bumps the generation while a call is between the beginning of its dial and the
tag. -/
def bumpsApart (p : Pool) : Action → Bool
  | .run i _ => !(p.ops[i]? == some .reconnect) || p.ops.all fun op => !op.dials && op.fresh.isNone
  | _ => true

/-- The calls of `Reconnect` that have begun and not bumped the generation. -/
def Op.pending (op : Op) : ℕ := if op = .reconnect then 1 else 0

lemma Op.pending_of_ne (h : op ≠ .reconnect) : op.pending = 0 := if_neg h

namespace DialLog

variable {w w' : DialLog} {i j : ℕ} {a : Action}

def start : DialLog := ⟨new, 0, fun _ => 0, fun _ => 0⟩

/-- What is seen when the call at `i` goes from `op` to `op'`. -/
def observe (w : DialLog) (i : ℕ) (op : Op) (ch : Choice) (op' : Op) (p : Pool) : DialLog where
  pool := p
  begun := w.begun
  dialing := if op'.dials then Function.update w.dialing i w.begun else w.dialing
  began :=
    if op.dials then
      match ch with
      | .dialOk c => Function.update w.began c (w.dialing i)
      | _ => w.began
    else w.began

def step (o : Options) (limit : ℕ) (w : DialLog) (a : Action) : Option DialLog :=
  (w.pool.step o limit a).map fun p =>
    match a with
    | .run i ch =>
      match w.pool.ops[i]?, p.ops[i]? with
      | some op, some op' => w.observe i op ch op' p
      | _, _ => { w with pool := p }
    | .reconnect => { w with pool := p, begun := w.begun + 1 }
    | _ => { w with pool := p }

def machine (o : Options) (limit : ℕ) : Machine DialLog Action where
  init w := w = start
  step := step o limit

/-- A step runs a call, or else it leaves the generations alone; a call it begins has dialed
nothing, and is counted if it is a `Reconnect`. -/
inductive Moves (o : Options) (limit : ℕ) (w : DialLog) : Action → DialLog → Prop
  | runs (i : ℕ) (ch : Choice) (op op' : Op) (sh : Shared) (hop : w.pool.ops[i]? = some op)
      (hstep : opStep o limit w.pool.sh op ch = some (sh, op')) :
      Moves o limit w (.run i ch) (w.observe i op ch op' ⟨sh, w.pool.ops.set i op'⟩)
  | others {a : Action} (sh : Shared) (ops : List Op) (n : ℕ)
      (hgen : sh.reconnectGen = w.pool.sh.reconnectGen) (hmeta : sh.connMeta = w.pool.sh.connMeta)
      (hcloses : sh.closes = w.pool.sh.closes)
      (hops : ∀ op ∈ ops, op.dials = false ∧ op.fresh = none ∧ op.tagMade = none)
      (hn : n = w.begun + tally Op.pending ops) :
      Moves o limit w a ⟨⟨sh, w.pool.ops ++ ops⟩, n, w.dialing, w.began⟩

lemma moves_of_step (h : w.step o limit a = some w') : Moves o limit w a w' := by
  obtain ⟨p, hp, hw⟩ := Option.map_eq_some_iff.mp h
  have begins : ∀ (sh : Shared) (op : Op) (n : ℕ),
      sh.reconnectGen = w.pool.sh.reconnectGen → sh.connMeta = w.pool.sh.connMeta →
      sh.closes = w.pool.sh.closes →
      (op.dials = false ∧ op.fresh = none ∧ op.tagMade = none) → n = w.begun + op.pending →
      Moves o limit w a ⟨⟨sh, w.pool.ops ++ [op]⟩, n, w.dialing, w.began⟩ := by
    intro sh op n hgen hmeta hcloses hop hn
    refine .others sh [op] n hgen hmeta hcloses (fun op' hop' => ?_) (by simpa using hn)
    rw [List.mem_singleton.mp hop']
    exact hop
  cases a with
  | run i ch =>
    obtain ⟨op, op', sh, hop, hstep, rfl⟩ := run_moves hp
    have hlt : i < w.pool.ops.length := (List.getElem?_eq_some_iff.mp hop).1
    dsimp only at hw
    rw [hop, List.getElem?_set_self hlt] at hw
    rw [← hw]
    exact .runs i ch op op' sh hop hstep
  | release k c | discard k c =>
    simp only [Pool.step, Pool.giveBack] at hp
    split at hp <;> cases hp
    rw [← hw]
    exact begins _ _ _ rfl rfl rfl ⟨rfl, rfl, rfl⟩ rfl
  | tick d =>
    cases hp
    have htick : Moves o limit w (.tick d)
        ⟨⟨{ w.pool.sh with clock := w.pool.sh.clock + d }, w.pool.ops ++ []⟩, w.begun, w.dialing,
          w.began⟩ := .others _ [] _ rfl rfl rfl (List.forall_mem_nil _) rfl
    rw [List.append_nil] at htick
    rw [← hw]
    exact htick
  | _ =>
    cases hp
    rw [← hw]
    exact begins _ _ _ rfl rfl rfl ⟨rfl, rfl, rfl⟩ rfl

lemma pool_step (h : w.step o limit a = some w') : w.pool.step o limit a = some w'.pool := by
  obtain ⟨p, hp, rfl⟩ := Option.map_eq_some_iff.mp h
  rw [hp]
  congr 1
  cases a with
  | run i ch =>
    dsimp only
    split <;> rfl
  | _ => rfl

lemma reachable_pool (h : (DialLog.machine o limit).Reachable w) :
    (Pool.machine o limit).Reachable w.pool := by
  induction h with
  | init hi =>
    obtain rfl : _ = start := hi
    exact .init rfl
  | step _ _ hs ih => exact reachable_step ih (pool_step hs)

/-- The dial of a connection is over when the connection is there. -/
lemma observe_began (hstep : opStep o limit w.pool.sh op ch = some (s', op')) {q : Pool}
    (hc : c ∈ w.pool.sh.dialed) : (w.observe i op ch op' q).began c = w.began c := by
  simp only [observe]
  split
  case isFalse => rfl
  case isTrue hdials =>
    split
    · rename_i d
      have hd : c ≠ d := fun hd => opStep_dialOk hstep hdials (hd ▸ hc)
      rw [Function.update_of_ne hd]
    · rfl

/-- The generation is at most the number of `Reconnect` calls begun. -/
lemma gen_le_begun (h : (DialLog.machine o limit).Reachable w) :
    w.pool.sh.reconnectGen + tally Op.pending w.pool.ops ≤ w.begun := by
  induction h with
  | init hi =>
    obtain rfl : _ = start := hi
    exact Nat.le_refl _
  | step _ _ hs ih =>
    cases moves_of_step hs with
    | runs i ch op op' sh hop hstep =>
      have hset := tally_set Op.pending hop op'
      rw [Op.pending_of_ne (opStep_ne_reconnect hstep)] at hset
      simp only [observe]
      rcases opStep_gen hstep with hgen | ⟨rfl, -, hgen⟩
      · omega
      · have hone : Op.pending .reconnect = 1 := rfl
        omega
    | others sh ops n hgen _ _ _ hn =>
      simp only [tally_append]
      omega

end DialLog

/-! ## The bounds on generations -/

/-- Two relations, of the current generation with the beginning of a dial, and of both with a tag:
the tag is the current generation, and a bump does no harm to the tags there are. -/
structure TagLaw where
  dial : ℕ → ℕ → Prop
  record : ℕ → ℕ → ℕ → Prop
  tag : ∀ g d, dial g d → record g d g
  bump : ∀ g d t, record g d t → record (g + 1) d t

/-- A tag is at most the number of `Reconnect` calls at the beginning of the dial. -/
def atMostBegun : TagLaw where
  dial g d := g ≤ d
  record _ d t := t ≤ d
  tag _ _ h := h
  bump _ _ _ h := h

/-- A tag is at most the current generation. -/
def atMostCurrent : TagLaw where
  dial _ _ := True
  record g _ t := t ≤ g
  tag _ _ _ := Nat.le_refl _
  bump _ _ _ h := Nat.le_succ_of_le h

/-- The tags of dials begun when there were at most `b` calls of `Reconnect` are outdated, and no
such dial is under way. -/
def outdated (b : ℕ) : TagLaw where
  dial _ d := b < d
  record g d t := d ≤ b → t < g
  tag _ _ h hle := absurd hle (Nat.not_le.mpr h)
  bump _ _ _ h hle := Nat.lt_succ_of_lt (h hle)

/-- The law holds of the dials under way and of the tags made and recorded. -/
structure TagLaw.Holds (L : TagLaw) (w : DialLog) : Prop where
  dials : ∀ i op, w.pool.ops[i]? = some op → op.dials = true →
    L.dial w.pool.sh.reconnectGen (w.dialing i)
  fresh : ∀ op ∈ w.pool.ops, ∀ c, op.fresh = some c → L.dial w.pool.sh.reconnectGen (w.began c)
  tags : ∀ op ∈ w.pool.ops, ∀ c m, op.tagMade = some (c, m) →
    L.record w.pool.sh.reconnectGen (w.began c) m.gen
  records : ∀ c m, w.pool.sh.connMeta c = some m →
    L.record w.pool.sh.reconnectGen (w.began c) m.gen

namespace TagLaw

variable {L : TagLaw} {w w' : DialLog} {i : ℕ} {a : Action} {sh : Shared}

/-- Nobody is between the beginning of a dial and the tag when the generation is bumped. -/
lemma apart_of_bump (hC : bumpsApart w.pool (.run i ch) = true)
    (hop : w.pool.ops[i]? = some .reconnect) {x : Op} (hx : x ∈ w.pool.ops) :
    x.dials = false ∧ x.fresh = none := by
  simp only [bumpsApart, hop, BEq.rfl, Bool.not_true, Bool.false_or, List.all_eq_true,
    Bool.and_eq_true, Bool.not_eq_true', Option.isNone_iff_eq_none] at hC
  exact hC x hx

/-- The bump leaves only tags to look after. -/
lemma holds_bump (hC : bumpsApart w.pool (.run i ch) = true)
    (hop : w.pool.ops[i]? = some .reconnect)
    (hstep : opStep o limit w.pool.sh .reconnect ch = some (sh, .reconnectDrain))
    (htags : ∀ op ∈ w.pool.ops, ∀ c m, op.tagMade = some (c, m) →
      L.record sh.reconnectGen (w.began c) m.gen)
    (hrecords : ∀ c m, w.pool.sh.connMeta c = some m → L.record sh.reconnectGen (w.began c) m.gen) :
    L.Holds (w.observe i .reconnect ch .reconnectDrain
      ⟨sh, w.pool.ops.set i .reconnectDrain⟩) where
  dials j x hj hx := by
    rcases getElem?_set_cases hj with ⟨-, hj⟩ | ⟨-, rfl⟩
    · rw [(apart_of_bump hC hop (List.mem_of_getElem? hj)).1] at hx
      cases hx
    · cases hx
  fresh x hx c hc := by
    rcases List.mem_or_eq_of_mem_set hx with hx | rfl
    · rw [(apart_of_bump hC hop hx).2] at hc
      cases hc
    · cases hc
  tags x hx c m hc := by
    rcases List.mem_or_eq_of_mem_set hx with hx | rfl
    · exact htags x hx c m hc
    · cases hc
  records c m hc := by
    rcases (opStep_carries hstep).record c m hc with hc | hc | ⟨hc, -⟩
    · exact hrecords c m hc
    · cases hc
    · cases hc

/-- Any other step of a call tags with the current generation what the law holds of. -/
lemma Holds.run (h : L.Holds w) (hacc : Accounted limit w.pool)
    (hop : w.pool.ops[i]? = some op)
    (hstep : opStep o limit w.pool.sh op ch = some (sh, op'))
    (hgen : sh.reconnectGen = w.pool.sh.reconnectGen)
    (hnew : L.dial w.pool.sh.reconnectGen w.begun) :
    L.Holds (w.observe i op ch op' ⟨sh, w.pool.ops.set i op'⟩) := by
  have hcarries := opStep_carries hstep
  have hmem : op ∈ w.pool.ops := List.mem_of_getElem? hop
  -- what is known by now was dialed, so that its dial stays the same
  have hbegan : ∀ {x : Op} {c : Conn}, x ∈ w.pool.ops → c ∈ x.untagged →
      (w.observe i op ch op' ⟨sh, w.pool.ops.set i op'⟩).began c = w.began c := fun hx hc =>
    DialLog.observe_began hstep (hacc.dialed_of_hands hx (.inr hc))
  have hfresh : ∀ {x : Op} {c : Conn}, x ∈ w.pool.ops → x.fresh = some c →
      L.dial w.pool.sh.reconnectGen
        ((w.observe i op ch op' ⟨sh, w.pool.ops.set i op'⟩).began c) := by
    intro x c hx hc
    rw [hbegan hx (Op.untagged_of_fresh hc)]
    exact h.fresh x hx c hc
  constructor
  · intro j x hj hx
    change L.dial sh.reconnectGen _
    rw [hgen]
    simp only [DialLog.observe]
    rcases getElem?_set_cases hj with ⟨hne, hj⟩ | ⟨rfl, rfl⟩
    · split
      · rw [Function.update_of_ne (Ne.symm hne)]
        exact h.dials j x hj hx
      · exact h.dials j x hj hx
    · rw [if_pos hx, Function.update_self]
      exact hnew
  · intro x hx c hc
    change L.dial sh.reconnectGen _
    rw [hgen]
    rcases List.mem_or_eq_of_mem_set hx with hx | rfl
    · exact hfresh hx hc
    · rcases hcarries.fresh c hc with ⟨hdials, rfl, -⟩ | hc
      · -- the dial that this step ends
        simp only [DialLog.observe, if_pos hdials, Function.update_self]
        exact h.dials i op hop hdials
      · exact hfresh hmem hc
  · intro x hx c m hc
    change L.record sh.reconnectGen _ _
    rw [hgen]
    rcases List.mem_or_eq_of_mem_set hx with hx | rfl
    · rw [hbegan hx (Op.untagged_of_tagMade hc)]
      exact h.tags x hx c m hc
    · obtain ⟨hc, htag⟩ := hcarries.tag c m hc
      rw [htag]
      exact L.tag _ _ (hfresh hmem hc)
  · intro c m hc
    change L.record sh.reconnectGen _ _
    rw [hgen]
    rcases hcarries.record c m hc with hc | hc | ⟨hc, htag⟩
    · rw [DialLog.observe_began hstep (hacc.dialed_of_record hc)]
      exact h.records c m hc
    · rw [hbegan hmem (Op.untagged_of_tagMade hc)]
      exact h.tags op hmem c m hc
    · rw [htag]
      exact L.tag _ _ (hfresh hmem hc)

lemma Holds.others (h : L.Holds w) {ops : List Op} (n : ℕ)
    (hgen : sh.reconnectGen = w.pool.sh.reconnectGen) (hmeta : sh.connMeta = w.pool.sh.connMeta)
    (hops : ∀ op ∈ ops, op.dials = false ∧ op.fresh = none ∧ op.tagMade = none) :
    L.Holds ⟨⟨sh, w.pool.ops ++ ops⟩, n, w.dialing, w.began⟩ := by
  constructor
  · intro j x hj hx
    change L.dial sh.reconnectGen _
    rw [hgen]
    by_cases hlt : j < w.pool.ops.length
    · exact h.dials j x (List.getElem?_append_left hlt ▸ hj) hx
    · rw [List.getElem?_append_right (Nat.not_lt.mp hlt)] at hj
      rw [(hops x (List.mem_of_getElem? hj)).1] at hx
      cases hx
  · intro x hx c hc
    change L.dial sh.reconnectGen _
    rw [hgen]
    rcases List.mem_append.mp hx with hx | hx
    · exact h.fresh x hx c hc
    · rw [(hops x hx).2.1] at hc
      cases hc
  · intro x hx c m hc
    change L.record sh.reconnectGen _ _
    rw [hgen]
    rcases List.mem_append.mp hx with hx | hx
    · exact h.tags x hx c m hc
    · rw [(hops x hx).2.2] at hc
      cases hc
  · intro c m hc
    change L.record sh.reconnectGen _ _
    rw [hgen]
    exact h.records c m (hmeta ▸ hc)

/-- A law that new dials obey is kept. -/
lemma Holds.step (h : L.Holds w) (hacc : Accounted limit w.pool)
    (hC : bumpsApart w.pool a = true) (hnew : L.dial w.pool.sh.reconnectGen w.begun)
    (hs : w.step o limit a = some w') : L.Holds w' := by
  cases DialLog.moves_of_step hs with
  | runs i ch op op' sh hop hstep =>
    rcases opStep_gen hstep with hgen | ⟨rfl, rfl, hgen⟩
    · exact h.run hacc hop hstep hgen hnew
    · refine holds_bump hC hop hstep (fun x hx c m hc => ?_) (fun c m hc => ?_)
      · rw [hgen]
        exact L.bump _ _ _ (h.tags x hx c m hc)
      · rw [hgen]
        exact L.bump _ _ _ (h.records c m hc)
  | others sh ops n hgen hmeta _ hops _ => exact h.others n hgen hmeta hops

lemma holds_start (L : TagLaw) : L.Holds DialLog.start where
  dials _ _ h := by cases h
  fresh _ h := by cases h
  tags _ h := by cases h
  records _ _ h := by cases h

/-- A run in which the bumps stay apart from the dials keeps a law that new dials obey. -/
lemma holds_of_reach
    (hnew : ∀ w, (DialLog.machine o limit).Reachable w → L.dial w.pool.sh.reconnectGen w.begun)
    (h : (DialLog.machine o limit).Reach (fun w a => bumpsApart w.pool a = true) w) :
    L.Holds w := by
  induction h with
  | init hi =>
    obtain rfl : _ = DialLog.start := hi
    exact holds_start L
  | step hr hC hs ih =>
    have hreach := hr.mono fun _ _ _ => trivial
    exact ih.step (reachable_accounted (DialLog.reachable_pool hreach)) hC (hnew _ hreach) hs

end TagLaw

/-! ## After a `Reconnect` -/

section AfterReconnect

variable {w w' : DialLog} {a : Action} {b j n : ℕ}

lemma opStep_reconnect (h : opStep o limit s .reconnect ch = some (s', op')) :
    op' = .reconnectDrain ∧ s'.reconnectGen = s.reconnectGen + 1 := by
  obtain h | h | h | h | h | h := opStep_cases h
  case inr.inr.inr.inl =>
    cases ch <;> cases h
    exact ⟨rfl, rfl⟩
  all_goals cases ch <;> cases h

/-- Only `Release` and `Discard` leave their program points. -/
lemma returnStep_from_giving (h : opStep o limit s op ch = some (s', op'))
    (hop : op.family = .giving) : returnStep s op ch = some (s', op') := by
  obtain h | h | h | h | h | h := opStep_cases h
  case inr.inr.inl => exact h
  · unfold acquireStep at h
    split at h <;> first | cases hop | cases h
  · unfold circuitStep at h
    split at h <;> first | cases hop | cases h
  · unfold drainStep at h
    split at h <;> first | cases hop | cases h
  · unfold warmUpStep at h
    split at h <;> first | cases hop | cases h
  · unfold pauseStep at h
    split at h <;> first | cases hop | cases h

lemma begun_le_of_step (hs : w.step o limit a = some w') : w.begun ≤ w'.begun := by
  cases DialLog.moves_of_step hs with
  | runs => exact Nat.le_refl _
  | others sh ops n _ _ _ _ hn => exact hn ▸ Nat.le_add_right _ _

/-- The `Reconnect` at `j` began when `b` had begun: it has yet to bump the generation, or the tags
of the dials before it are outdated. -/
structure Overtaken (b j : ℕ) (w : DialLog) : Prop where
  begun : b < w.begun
  current : atMostCurrent.Holds w
  outdated : w.pool.ops[j]? = some .reconnect ∨ (outdated b).Holds w

lemma Overtaken.step (h : Overtaken b j w) (hacc : Accounted limit w.pool)
    (hC : bumpsApart w.pool a = true) (hs : w.step o limit a = some w') : Overtaken b j w' := by
  refine ⟨Nat.lt_of_lt_of_le h.begun (begun_le_of_step hs), h.current.step hacc hC trivial hs, ?_⟩
  rcases h.outdated with hj | hout
  · cases DialLog.moves_of_step hs with
    | runs i ch op op' sh hop hstep =>
      by_cases hij : i = j
      · -- the bump: what is tagged has at most the generation before it
        subst hij
        obtain rfl := Option.some.inj (hj.symm.trans hop)
        obtain ⟨rfl, hgen⟩ := opStep_reconnect hstep
        refine .inr (TagLaw.holds_bump hC hop hstep (fun x hx c m hc _ => ?_) fun c m hc _ => ?_)
        · rw [hgen]
          exact Nat.lt_succ_of_le (h.current.tags x hx c m hc)
        · rw [hgen]
          exact Nat.lt_succ_of_le (h.current.records c m hc)
      · exact .inl ((List.getElem?_set_ne hij).trans hj)
    | others =>
      have hlt : j < w.pool.ops.length := (List.getElem?_eq_some_iff.mp hj).1
      exact .inl ((List.getElem?_append_left hlt).trans hj)
  · exact .inr (hout.step hacc hC h.begun hs)

/-- A `Release` of `c`, dialed when at most `b` calls of `Reconnect` had begun, on its way to
`Close`. -/
def Op.Leaves (c : Conn) (b : ℕ) (w : DialLog) : Op → Prop
  | .release _ d => d = c ∧ w.began c ≤ b
  | .relClosed _ d m | .relGen _ d m => d = c ∧ m.gen < w.pool.sh.reconnectGen
  | .relDelete _ d _ | .relClose _ d _ | .rejectForeign _ d _ => d = c
  | .relFree _ _ | .returned => 0 < w.pool.sh.closes c
  | _ => False

lemma Op.Leaves.mono (h : op.Leaves c b w)
    (hgen : w.pool.sh.reconnectGen ≤ w'.pool.sh.reconnectGen)
    (hcloses : w.pool.sh.closes c ≤ w'.pool.sh.closes c)
    (hbegan : c ∈ op.tagged → w'.began c = w.began c) : op.Leaves c b w' := by
  cases op with
  | release k d =>
    obtain ⟨rfl, hb⟩ := h
    exact ⟨rfl, hbegan (List.mem_singleton_self _) ▸ hb⟩
  | relClosed | relGen => exact ⟨h.1, Nat.lt_of_lt_of_le h.2 hgen⟩
  | relFree | returned => exact Nat.lt_of_lt_of_le h hcloses
  | _ => exact h

/-- The step of the `Release` itself. -/
lemma Op.Leaves.step (h : op.Leaves c b w) (hout : (outdated b).Holds w) {sh : Shared}
    (hstep : opStep o limit w.pool.sh op ch = some (sh, op')) {q : Pool} (hq : q.sh = sh) :
    op'.Leaves c b (w.observe j op ch op' q) := by
  have hclosed : ∀ s : Shared, 0 < (s.closeConn c).closes c := by
    intro s
    change 0 < Function.update s.closes c (s.closes c + 1) c
    rw [Function.update_self]
    exact Nat.succ_pos _
  subst hq
  have hret : op = .returned ∨ op.family = .giving := by
    cases op with
    | returned => exact .inl rfl
    | release | relClosed | relGen | relDelete | relClose | relFree | rejectForeign =>
      exact .inr rfl
    | _ => exact False.elim h
  rcases hret with rfl | hfam
  · obtain h | h | h | h | h | h := opStep_cases hstep
    all_goals cases ch <;> cases h
  replace hstep := returnStep_from_giving hstep hfam
  unfold returnStep at hstep
  split at hstep
  case h_1 k d =>
    obtain ⟨rfl, hb⟩ := h
    split at hstep
    · obtain ⟨-, rfl⟩ := Prod.mk.inj (Option.some.inj hstep)
      rfl
    · rename_i m hm
      obtain ⟨hsh, rfl⟩ := Prod.mk.inj (Option.some.inj hstep)
      refine ⟨rfl, ?_⟩
      change m.gen < q.sh.reconnectGen
      rw [← hsh]
      exact hout.records d m hm hb
  case h_2 k d m =>
    obtain ⟨rfl, hm⟩ := h
    obtain ⟨hsh, rfl⟩ := Prod.mk.inj (Option.some.inj hstep)
    split
    · rfl
    · refine ⟨rfl, ?_⟩
      change m.gen < q.sh.reconnectGen
      rwa [← hsh]
  case h_3 k d m =>
    obtain ⟨rfl, hm⟩ := h
    obtain ⟨-, rfl⟩ := Prod.mk.inj (Option.some.inj hstep)
    rw [if_pos hm]
    rfl
  case h_4 => exact False.elim h
  case h_5 =>
    obtain ⟨-, rfl⟩ := Prod.mk.inj (Option.some.inj hstep)
    exact h
  case h_6 =>
    obtain ⟨hsh, rfl⟩ := Prod.mk.inj (Option.some.inj hstep)
    obtain rfl := h
    change 0 < q.sh.closes _
    rw [← hsh]
    exact hclosed _
  case h_7 k why =>
    obtain ⟨hsh, rfl⟩ := Prod.mk.inj (Option.some.inj hstep)
    have hsame : (w.pool.sh.releaseSlot.emit? (why.bind Drop.event)).closes = w.pool.sh.closes :=
      congrArg Goods.closes ((goods_emit? _ _).trans (goods_releaseSlot w.pool.sh))
    change 0 < q.sh.closes _
    rw [← hsh, hsame]
    exact h
  case h_8 => exact False.elim h
  case h_9 =>
    obtain ⟨hsh, rfl⟩ := Prod.mk.inj (Option.some.inj hstep)
    obtain rfl := h
    change 0 < q.sh.closes _
    rw [← hsh]
    exact hclosed _
  case h_10 => cases hstep

/-- The call at `n` is such a `Release`. -/
structure Leaving (c : Conn) (b n : ℕ) (w : DialLog) : Prop where
  begun : b < w.begun
  outdated : (outdated b).Holds w
  leaves : ∃ op, w.pool.ops[n]? = some op ∧ op.Leaves c b w

lemma Leaving.step (h : Leaving c b n w) (hacc : Accounted limit w.pool)
    (hC : bumpsApart w.pool a = true) (hs : w.step o limit a = some w') : Leaving c b n w' := by
  refine ⟨Nat.lt_of_lt_of_le h.begun (begun_le_of_step hs), h.outdated.step hacc hC h.begun hs, ?_⟩
  obtain ⟨op, hn, hop⟩ := h.leaves
  cases DialLog.moves_of_step hs with
  | runs i ch x x' sh hx hstep =>
    by_cases hin : i = n
    · subst hin
      obtain rfl := Option.some.inj (hn.symm.trans hx)
      have hlt : i < w.pool.ops.length := (List.getElem?_eq_some_iff.mp hn).1
      exact ⟨x', List.getElem?_set_self hlt, hop.step h.outdated hstep rfl⟩
    · refine ⟨op, (List.getElem?_set_ne hin).trans hn, hop.mono ?_ (opStep_closes hstep c) ?_⟩
      · rcases opStep_gen hstep with hgen | ⟨-, -, hgen⟩
        · exact Nat.le_of_eq hgen.symm
        · exact hgen ▸ Nat.le_succ _
      · exact fun hc => DialLog.observe_began hstep
          (hacc.dialed_of_hands (List.mem_of_getElem? hn) (.inl hc))
  | others sh ops m hgen _ hcloses _ _ =>
    have hlt : n < w.pool.ops.length := (List.getElem?_eq_some_iff.mp hn).1
    refine ⟨op, (List.getElem?_append_left hlt).trans hn, hop.mono ?_ ?_ fun _ => rfl⟩
    · exact Nat.le_of_eq hgen.symm
    · exact Nat.le_of_eq (congrFun hcloses c).symm

end AfterReconnect

/-- **Generations are those of the dials.**  In every run in which no `Reconnect` bumps the
generation while a call is between the beginning of its dial and the tag: the generation recorded
for a connection is at most the number of `Reconnect` calls that had begun when its dial began; and
a connection whose dial began before a `Reconnect` is, when it is released after that `Reconnect`
has returned, on no way to the idle stack, and is closed when the `Release` returns. -/
theorem generations_of_dials (o : Options) (limit : ℕ) {w : DialLog}
    (h : (DialLog.machine o limit).Reach (fun w a => bumpsApart w.pool a = true) w) :
    (∀ c m, w.pool.sh.connMeta c = some m → m.gen ≤ w.began c) ∧
    ∀ w₁ w₂ w₃ w₄ c k, w.step o limit .reconnect = some w₁ →
      ((DialLog.machine o limit).startingAt w₁).Reach (fun w a => bumpsApart w.pool a = true) w₂ →
      w₂.pool.ops[w.pool.ops.length]? = some .returned → w₂.began c ≤ w.begun →
      w₂.step o limit (.release k c) = some w₃ →
      ((DialLog.machine o limit).startingAt w₃).Reach (fun w a => bumpsApart w.pool a = true) w₄ →
      (∀ k' d m now, w₄.pool.ops[w₂.pool.ops.length]? ≠ some (.relPark k' d m now)) ∧
      (w₄.pool.ops[w₂.pool.ops.length]? = some .returned → 0 < w₄.pool.sh.closes c) := by
  refine ⟨(TagLaw.holds_of_reach (L := atMostBegun) (fun w hw => ?_) h).records, ?_⟩
  · exact Nat.le_trans (Nat.le_add_right _ _) (DialLog.gen_le_begun hw)
  intro w₁ w₂ w₃ w₄ c k hbegin hw₂ hret hc hrel hw₄
  have hw : (DialLog.machine o limit).Reachable w := h.mono fun _ _ _ => trivial
  have hstep : ∀ {v v' : DialLog} {a : Action}, (DialLog.machine o limit).Reachable v →
      v.step o limit a = some v' → (DialLog.machine o limit).Reachable v' :=
    fun hv hs => Machine.Reach.step hv trivial hs
  have hw₁ : (DialLog.machine o limit).Reachable w₁ := hstep hw hbegin
  have hw₂' : (DialLog.machine o limit).Reachable w₂ := hw₁.trans hw₂ fun _ _ _ => trivial
  have hw₃ : (DialLog.machine o limit).Reachable w₃ := hstep hw₂' hrel
  have hacc : ∀ {v : DialLog}, (DialLog.machine o limit).Reachable v → Accounted limit v.pool :=
    fun hv => reachable_accounted (DialLog.reachable_pool hv)
  -- the `Reconnect` has returned, so it has bumped the generation
  have hover : Overtaken w.begun w.pool.ops.length w₂ := by
    refine hw₂.invariant_startingAt hw₁ ⟨?_, ?_, .inl ?_⟩
      fun v a v' hv hI hC hs => hI.step (hacc hv) hC hs
    · cases hbegin
      exact Nat.lt_succ_self _
    · exact (TagLaw.holds_of_reach (fun _ _ => trivial) h).step (hacc hw) rfl trivial hbegin
    · cases hbegin
      exact List.getElem?_concat_length
  have hout : (outdated w.begun).Holds w₂ := by
    refine hover.outdated.resolve_left fun hj => ?_
    rw [hret] at hj
    cases hj
  -- and the `Release` that begins then finds the connection outdated
  have hleaving : Leaving c w.begun w₂.pool.ops.length w₄ := by
    refine hw₄.invariant_startingAt hw₃ ⟨?_, hout.step (hacc hw₂') rfl hover.begun hrel, ?_⟩
      fun v a v' hv hI hC hs => hI.step (hacc hv) hC hs
    · exact Nat.lt_of_lt_of_le hover.begun (begun_le_of_step hrel)
    · simp only [DialLog.step, Pool.step, Pool.giveBack] at hrel
      split at hrel <;> cases hrel
      exact ⟨.release k c, List.getElem?_concat_length, rfl, hc⟩
  obtain ⟨op, hn, hop⟩ := hleaving.leaves
  refine ⟨fun k' d m now hpark => ?_, fun hdone => ?_⟩
  · obtain rfl := Option.some.inj (hn.symm.trans hpark)
    exact hop
  · obtain rfl := Option.some.inj (hn.symm.trans hdone)
    exact hop

/-- A connection is dialed and handed out before a `Reconnect`, and released after it. -/
theorem generations_of_dials_released_after :
    let o : Options := ⟨0, 0, 0, 0, 0, 0, 0, 0, false⟩
    ∃ w w₁ w₂ w₃ w₄ : DialLog,
      (DialLog.machine o 1).Reach (fun w a => bumpsApart w.pool a = true) w ∧
      w.step o 1 .reconnect = some w₁ ∧
      ((DialLog.machine o 1).startingAt w₁).Reach (fun w a => bumpsApart w.pool a = true) w₂ ∧
      w₂.began 7 ≤ w.begun ∧ w₂.step o 1 (.release 1 7) = some w₃ ∧
      ((DialLog.machine o 1).startingAt w₃).Reach (fun w a => bumpsApart w.pool a = true) w₄ ∧
      w₄.pool.ops = [.returned, .returned, .returned] ∧ 0 < w₄.pool.sh.closes 7 := by
  intro o
  have hrun : (((DialLog.machine o 1).guarded fun w a => bumpsApart w.pool a = true).run
      DialLog.start [.acquire 1, .run 0 .go, .run 0 .go, .run 0 .ready, .run 0 .go, .run 0 .go,
        .run 0 .go, .run 0 (.dialOk 7), .run 0 .go, .run 0 .go, .run 0 .go]).bind (fun w =>
      (w.step o 1 .reconnect).bind fun w₁ =>
      ((((DialLog.machine o 1).startingAt w₁).guarded fun w a => bumpsApart w.pool a = true).run w₁
        [.run 1 .go, .run 1 .go, .run 1 .go]).bind fun w₂ =>
      (w₂.step o 1 (.release 1 7)).bind fun w₃ =>
      ((((DialLog.machine o 1).startingAt w₃).guarded fun w a => bumpsApart w.pool a = true).run w₃
        [.run 2 .go, .run 2 .go, .run 2 .go, .run 2 .go, .run 2 .go, .run 2 .go]).map fun w₄ =>
      decide (w.pool.ops.length = 1 ∧ w₂.pool.ops = [.returned, .returned] ∧
        w₂.began 7 ≤ w.begun ∧ w₄.pool.ops = [.returned, .returned, .returned])) = some true := by
    decide
  obtain ⟨w, hw, hrun⟩ := Option.bind_eq_some_iff.mp hrun
  obtain ⟨w₁, hbegin, hrun⟩ := Option.bind_eq_some_iff.mp hrun
  obtain ⟨w₂, hw₂, hrun⟩ := Option.bind_eq_some_iff.mp hrun
  obtain ⟨w₃, hrel, hrun⟩ := Option.bind_eq_some_iff.mp hrun
  obtain ⟨w₄, hw₄, hview⟩ := Option.map_eq_some_iff.mp hrun
  obtain ⟨hlen, hops, hbegan, hdone⟩ := of_decide_eq_true hview
  replace hw := Machine.reach_of_guarded_run rfl hw
  replace hw₂ := Machine.reach_of_guarded_run rfl hw₂
  replace hw₄ := Machine.reach_of_guarded_run rfl hw₄
  refine ⟨w, w₁, w₂, w₃, w₄, hw, hbegin, hw₂, hbegan, hrel, hw₄, hdone, ?_⟩
  refine ((generations_of_dials o 1 hw).2 w₁ w₂ w₃ w₄ 7 1 hbegin hw₂ ?_ hbegan hrel hw₄).2 ?_
  · rw [hlen, hops]
    rfl
  · rw [hops, hdone]
    rfl

/-- A `Reconnect` comes and goes while a connection is being dialed, by an `Acquire` or by `warmUp`.
The dial began when no `Reconnect` had, the connection is tagged with generation one, and it ends in
the idle stack: by a `Release` that began after the `Reconnect` had returned, or at once. -/
theorem dialed_across_reconnect_is_parked :
    (∃ w, (DialLog.machine ⟨0, 0, 0, 0, 0, 0, 0, 0, false⟩ 1).Reachable w ∧ w.began 7 = 0 ∧
      (w.pool.sh.connMeta 7).map ConnMeta.gen = some 1 ∧
      w.pool.ops = [.returned, .returned, .returned] ∧
      w.pool.sh.idle.map IdleConn.conn = [7] ∧ w.pool.sh.closes 7 = 0) ∧
    ∃ w, (DialLog.machine ⟨0, 0, 0, 1, 0, 0, 0, 0, false⟩ 1).Reachable w ∧ w.began 7 = 0 ∧
      (w.pool.sh.connMeta 7).map ConnMeta.gen = some 1 ∧
      w.pool.sh.idle.map IdleConn.conn = [7] := by
  have hacquire : ((DialLog.machine ⟨0, 0, 0, 0, 0, 0, 0, 0, false⟩ 1).run DialLog.start
      [.acquire 1, .run 0 .go, .run 0 .go, .run 0 .ready, .run 0 .go, .run 0 .go, .run 0 .go,
        .reconnect, .run 1 .go, .run 1 .go, .run 1 .go, .run 0 (.dialOk 7), .run 0 .go, .run 0 .go,
        .run 0 .go, .release 1 7, .run 2 .go, .run 2 .go, .run 2 .go, .run 2 .go, .run 2 .go]).map
      (fun w => decide (w.began 7 = 0 ∧ (w.pool.sh.connMeta 7).map ConnMeta.gen = some 1 ∧
        w.pool.ops = [.returned, .returned, .returned] ∧
        w.pool.sh.idle.map IdleConn.conn = [7] ∧ w.pool.sh.closes 7 = 0)) = some true := by decide
  have hwarm : ((DialLog.machine ⟨0, 0, 0, 1, 0, 0, 0, 0, false⟩ 1).run DialLog.start
      [.warmUp, .run 0 .go, .run 0 .go, .run 0 .ready, .reconnect, .run 1 .go, .run 1 .go,
        .run 1 .go, .run 0 (.dialOk 7), .run 0 .go, .run 0 .go]).map
      (fun w => decide (w.began 7 = 0 ∧ (w.pool.sh.connMeta 7).map ConnMeta.gen = some 1 ∧
        w.pool.sh.idle.map IdleConn.conn = [7])) = some true := by decide
  obtain ⟨w, hw, hview⟩ := Option.map_eq_some_iff.mp hacquire
  obtain ⟨v, hv, hview'⟩ := Option.map_eq_some_iff.mp hwarm
  exact ⟨⟨w, Machine.reach_of_run rfl hw, of_decide_eq_true hview⟩,
    v, Machine.reach_of_run rfl hv, of_decide_eq_true hview'⟩

end Pgman.Pool
