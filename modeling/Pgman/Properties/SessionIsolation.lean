import Pgman.Construction.Relay.Isolation
import Pgman.Construction.Relay.Moments

/-!
# Session isolation

Between two sessions on a connection the relay runs `server_reset_query`, empties its record of
prepared statements and replays the parameters of the second session.  In orderly runs these are
round trips of the server's as well: each query goes out alone to a server that owes nothing, and
with the `ReadyForQuery` that the relay reads it owes nothing again.

Without the restriction to orderly runs the scrub can be void.  A `FunctionCall` does not end a
batch for the relay but has a `ReadyForQuery` of its own.  A client that leaves after one puts the
connection back with the call in the write buffer; it goes out in front of the next session's reset
query, and its `ReadyForQuery` is taken for the reset's.
-/

namespace Pgman

/-! ## What a scrub is -/

/-- A query that makes its round trip, alone, at a server that owes nothing before it and after. -/
structure RoundTrip (k : Caller) (c : Conn) (src : Source) (site : Site) (sql : String)
    (ms : List Moment) : Prop where
  trip : LogTrip k c src site sql (ms.map Moment.entry)
  alone : ∀ m ∈ ms, ∀ sent, m.act = .flush c site sent →
    sent = [(src, .query sql)] ∧ m.server.Settled
  answered : ∀ m ∈ ms, ∀ st how, m.act = .recv c site (.readyForQuery st) how →
    (m.server.hear m.act).Settled

/-- The reset query made its round trip, and the statement record was emptied after it. -/
def Purged (k : Caller) (c : Conn) (resetQuery : String) (ms : List Moment) : Prop :=
  ∃ x reset y, ms = x ++ reset ++ y ∧ RoundTrip k c .reset .reset resetQuery reset ∧
    ∃ m ∈ y, m.caller = k ∧ m.act = .clearStmts c

/-- After a purge, the parameters of `k`, if it has any, made their round trip. -/
def Scrubbed (k : Caller) (c : Conn) (resetQuery : String) (ps : List TrackedParam)
    (ms : List Moment) : Prop :=
  ∃ purge replay rest, ms = purge ++ replay ++ rest ∧ Purged k c resetQuery purge ∧
    (ps ≠ [] → RoundTrip k c .params .params (Relay.setBatch ps) replay)

/-- What isolation means for the connections of a world with servers. -/
structure Isolated (q : String) (params : Caller → List TrackedParam) (v : Witnessed) : Prop where
  /-- Between a client message of one session and a later client message of another, or a reply
  forwarded to it, the connection has been scrubbed for the latter. -/
  scrubbed : ∀ c A m s mid B a s' pre post,
    v.moments c = pre ++ ⟨A, Act.send c .client m, s⟩ :: mid ++ ⟨B, a, s'⟩ :: post → A ≠ B →
    a.isClient = true ∨ a.isForward = true → Scrubbed B c q (params B) mid
  /-- A connection on which the scrub failed is discarded and carries no client message again. -/
  discarded : ∀ c m pre post, v.moments c = pre ++ m :: post → m.act.failsAdoption = true →
    v.served.place c = .gone ∧ (∃ m' ∈ post, m'.act = .discard c) ∧
      ∀ m' ∈ post, m'.act.isClient = false

/-! ## From the log to the servers -/

section Transfer

variable {k : Caller} {c : Conn} {src : Source} {site : Site} {sql q : String}
  {ps : List TrackedParam} {ms : List Moment}

/-- In calm moments a round trip in the log is one of the server's. -/
lemma RoundTrip.of_log (hsite : site.probes = true) (hcalm : ∀ m ∈ ms, m.Calm c)
    (h : LogTrip k c src site sql (ms.map Moment.entry)) : RoundTrip k c src site sql ms := by
  refine ⟨h, fun m hm sent hact => ?_, fun m hm st how hact =>
    (hcalm m hm).answered site st how hact hsite⟩
  obtain ⟨hone, hsettled⟩ := (hcalm m hm).flushed site sent hact hsite
  refine ⟨?_, hsettled⟩
  obtain ⟨sent', replies, st, hlog, hmem, hreplies⟩ := h
  have hentry : (m.caller, Act.flush c site sent) ∈ ms.map Moment.entry :=
    List.mem_map.mpr ⟨m, hm, by rw [Moment.entry, hact]⟩
  -- the trip has one flush only
  have hsent : sent = sent' := by
    simp only [hlog, List.cons_append, List.mem_cons, List.mem_append, Prod.mk.injEq, reduceCtorEq,
      and_false, Act.flush.injEq, true_and, List.not_mem_nil, or_false, false_or] at hentry
    rcases hentry with ⟨-, hsent⟩ | hentry
    · exact hsent
    · obtain ⟨r, heq, -⟩ := hreplies _ hentry
      cases heq
  subst hsent
  obtain ⟨e, rfl⟩ := List.length_eq_one_iff.mp hone
  rw [List.mem_singleton.mp hmem]

lemma Purged.of_log (hcalm : ∀ m ∈ ms, m.Calm c) (h : LogPurged k c q (ms.map Moment.entry)) :
    Purged k c q ms := by
  obtain ⟨x, reset, y, heq, htrip, hclear⟩ := h
  obtain ⟨ms', y, rfl, hms', rfl⟩ := List.map_eq_append_iff.mp heq
  obtain ⟨x, reset, rfl, rfl, rfl⟩ := List.map_eq_append_iff.mp hms'
  obtain ⟨m, hm, hentry⟩ := List.mem_map.mp hclear
  refine ⟨x, reset, y, rfl, .of_log rfl (fun m hm => hcalm m (by simp [hm])) htrip, m, hm, ?_⟩
  simpa [Moment.entry] using hentry

lemma Scrubbed.of_log (hcalm : ∀ m ∈ ms, m.Calm c)
    (h : LogScrubbed k c q ps (ms.map Moment.entry)) : Scrubbed k c q ps ms := by
  obtain ⟨purge, replay, rest, heq, hpurge, htrip⟩ := h
  obtain ⟨ms', rest, rfl, hms', rfl⟩ := List.map_eq_append_iff.mp heq
  obtain ⟨purge, replay, rfl, rfl, rfl⟩ := List.map_eq_append_iff.mp hms'
  exact ⟨purge, replay, rest, rfl, .of_log (fun m hm => hcalm m (by simp [hm])) hpurge,
    fun hps => .of_log rfl (fun m hm => hcalm m (by simp [hm])) (htrip hps)⟩

/-- A scrub has a reset query that went out alone. -/
lemma Scrubbed.reset_alone (h : Scrubbed k c q ps ms) :
    (k, Act.flush c .reset [(.reset, .query q)]) ∈ ms.map Moment.entry := by
  obtain ⟨purge, replay, rest, rfl, ⟨x, reset, y, rfl, htrip, -⟩, -⟩ := h
  obtain ⟨sent, replies, st, hlog, -⟩ := htrip.trip
  have hflush : (k, Act.flush c .reset sent) ∈ reset.map Moment.entry := by simp [hlog]
  obtain ⟨m, hm, hentry⟩ := List.mem_map.mp hflush
  obtain ⟨rfl, hact⟩ : m.caller = k ∧ m.act = .flush c .reset sent := by
    simpa [Moment.entry] using hentry
  have hsent := (htrip.alone m hm sent hact).1
  rw [hsent] at hflush
  simp only [List.map_append, List.mem_append]
  exact .inl (.inl (.inl (.inr hflush)))

/-- Between the messages of two sessions there is such a query. -/
lemma Isolated.reset_alone {params : Caller → List TrackedParam} {v : Witnessed} {A B : Caller}
    {m : FrontendMsg} {a : Act} (h : Isolated q params v) (hAB : A ≠ B)
    (ha : a.isClient = true ∨ a.isForward = true)
    (hsub : [(A, Act.send c .client m), (B, a)].Sublist ((v.moments c).map Moment.entry)) :
    (B, Act.flush c .reset [(.reset, .query q)]) ∈ (v.moments c).map Moment.entry := by
  obtain ⟨r₁, r₂, heq, hA, hB⟩ := List.cons_sublist_iff.mp hsub
  obtain ⟨ms₁, ms₂, hms, rfl, rfl⟩ := List.map_eq_append_iff.mp heq
  obtain ⟨mA, hmA, hentryA⟩ := List.mem_map.mp hA
  obtain ⟨mB, hmB, hentryB⟩ := List.mem_map.mp (List.singleton_sublist.mp hB)
  obtain ⟨pre, mid₁, rfl⟩ := List.append_of_mem hmA
  obtain ⟨mid₂, post, rfl⟩ := List.append_of_mem hmB
  obtain ⟨rfl, hactA⟩ : mA.caller = A ∧ mA.act = .send c .client m := by
    simpa [Moment.entry] using hentryA
  obtain ⟨rfl, rfl⟩ : mB.caller = B ∧ mB.act = a := by simpa [Moment.entry] using hentryB
  have hscrub := h.scrubbed c mA.caller m mA.server (mid₁ ++ mid₂) mB.caller mB.act mB.server pre
    post (by simp [hms, ← hactA]) hAB ha
  rw [hms]
  have hmem := hscrub.reset_alone
  simp only [List.map_append, List.map_cons, List.mem_append, List.mem_cons] at hmem ⊢
  tauto

/-- An entry about a connection has its place in the log. -/
lemma about_eq_append {es xs ys : List (Caller × Act)} {e : Caller × Act}
    (h : about c es = xs ++ e :: ys) :
    ∃ pre post, es = pre ++ e :: post ∧ about c pre = xs ∧ about c post = ys := by
  obtain ⟨es₁, es₂, rfl, hxs, h₂⟩ := List.filter_eq_append_iff.mp h
  obtain ⟨es₃, post, rfl, hes₃, -, hys⟩ := List.filter_eq_cons_iff.mp h₂
  refine ⟨es₁ ++ es₃, post, by simp, ?_, hys⟩
  rw [about, List.filter_append, hxs, List.filter_eq_nil_iff.mpr hes₃, List.append_nil]

end Transfer

/-- **Session isolation.**  With a non-empty `server_reset_query`, in every run whose steps are
orderly, in every mode, with any number of sessions and connections, whatever the pool assigns and
against every conforming server. -/
theorem session_isolation (opts : RuntimeOpts) (quiet : String → Bool) (mode : PoolMode)
    (params : Caller → List TrackedParam) (v : Witnessed) (hne : opts.serverResetQuery ≠ "")
    (h : (Witnessed.machine opts quiet mode params).Reach (fun v e => Orderly v.served e) v) :
    Isolated opts.serverResetQuery params v := by
  have hcalm := Witnessed.calm h
  have hlog := World.logIsolated_of_reach hne (Served.reach_world (Witnessed.reach_served h))
  have habout := Witnessed.map_entry_moments h
  refine ⟨fun c A m s mid B a s' pre post hms hAB ha => ?_, fun c m pre post hms ha => ?_⟩
  · have hentries := habout c
    rw [hms] at hentries
    simp only [List.map_append, List.map_cons] at hentries
    obtain ⟨pre₁, post', hw, hpre₁, -⟩ := about_eq_append hentries.symm
    obtain ⟨pre', mid', rfl, -, hmid⟩ := about_eq_append hpre₁
    have hmem : (B, a) ∈ about c v.served.log := by rw [← hentries]; simp [Moment.entry]
    have hon : a.on = some c := (mem_about.mp hmem).2
    have hscrub := hlog.scrubbed c A m mid' B a pre' post' hw hAB hon ha
    rw [hmid] at hscrub
    exact .of_log (fun m' hm' => hcalm c m' (by rw [hms]; simp [hm'])) hscrub
  · have hentries := habout c
    rw [hms] at hentries
    simp only [List.map_append, List.map_cons] at hentries
    obtain ⟨pre', post', hw, -, hpost⟩ := about_eq_append hentries.symm
    have hmem : m.entry ∈ about c v.served.log := by rw [← hentries]; simp
    have hon : m.act.on = some c := (mem_about.mp hmem).2
    obtain ⟨hgone, ⟨k', hdiscard⟩, hnone⟩ := hlog.discarded c m.caller m.act pre' post' hw hon ha
    refine ⟨hgone, ?_, fun m' hm' => ?_⟩
    · have hmem : (k', Act.discard c) ∈ post.map Moment.entry := by
        rw [← hpost]
        exact mem_about.mpr ⟨hdiscard, rfl⟩
      obtain ⟨m', hm', hentry⟩ := List.mem_map.mp hmem
      exact ⟨m', hm', congrArg Prod.snd hentry⟩
    · obtain ⟨hpost', hon'⟩ := mem_about.mp (hpost ▸ List.mem_map_of_mem hm')
      by_contra hclient
      obtain ⟨c', msg, hact⟩ : ∃ c' msg, m'.act = .send c' .client msg := by
        cases hact : m'.act with
        | send c' src msg => cases src <;> simp_all [Act.isClient]
        | _ => simp [hact, Act.isClient] at hclient
      rw [Moment.entry, hact] at hpost' hon'
      obtain rfl : c' = c := Option.some.inj hon'
      exact hnone m'.caller msg hpost'

/-- Session 2 receives the connection session 1 has just used. -/
def handover : List Event :=
  [.world (.dial 7), .world (.relay 1 (.client (.query "select 1"))),
    .world (.relay 1 (.draining false)), .world (.relay 1 (.acquired 7)),
    .world (.relay 1 (.feFlush none)), .server 7 (.serve (.done [] 'I' [])),
    .world (.relay 1 (.reply (.readyForQuery 'I'))), .world (.relay 1 (.flushClient true)),
    .world (.relay 2 (.client (.query "select 2"))), .world (.relay 2 (.draining false)),
    .world (.relay 2 (.acquired 7)), .world (.relay 2 (.armed none)),
    .world (.relay 2 (.feFlush none)),
    .server 7 (.serve (.done [.commandComplete "DISCARD ALL"] 'I' [])),
    .world (.relay 2 (.reply (.commandComplete "DISCARD ALL"))),
    .world (.relay 2 (.reply (.readyForQuery 'I'))), .world (.relay 2 (.feFlush none)),
    .server 7 (.serve (.done [.commandComplete "SET"] 'I' [])),
    .world (.relay 2 (.reply (.commandComplete "SET"))),
    .world (.relay 2 (.reply (.readyForQuery 'I')))]

theorem session_isolation_handover :
    let opts : RuntimeOpts := ⟨"DISCARD ALL", true, 0, 0, 0⟩
    let params : Caller → List TrackedParam :=
      fun k => if k = 2 then [⟨"application_name", "b"⟩] else []
    let M := Witnessed.machine opts (fun _ => true) .transaction params
    ∃ v, (M.guarded fun v e => Orderly v.served e).run
        (Witnessed.start .transaction params (fun _ => 0)) handover = some v ∧
      (1, .send 7 .client (.query "select 1")) ∈ v.served.log ∧
      (2, .send 7 .client (.query "select 2")) ∈ v.served.log ∧
      Isolated "DISCARD ALL" params v := by
  intro opts params M
  have hrun : ((M.guarded fun v e => Orderly v.served e).run
      (Witnessed.start .transaction params (fun _ => 0)) handover).map
        (fun v => (v.served.log.contains (1, .send 7 .client (.query "select 1")),
          v.served.log.contains (2, .send 7 .client (.query "select 2")))) =
      some (true, true) := by
    decide
  obtain ⟨v, hv, hview⟩ := Option.map_eq_some_iff.mp hrun
  simp only [Prod.mk.injEq, List.contains_iff_mem] at hview
  exact ⟨v, hv, hview.1, hview.2, session_isolation opts _ .transaction params v (by decide)
    (Machine.reach_of_guarded_run ⟨_, rfl⟩ hv)⟩

/-- Session 1 leaves after a function call, on a connection it has used before; session 2 receives
the connection. -/
def abandonedCall : List Event :=
  [.world (.dial 7), .world (.relay 1 (.client (.query "select 1"))),
    .world (.relay 1 (.draining false)), .world (.relay 1 (.acquired 7)),
    .world (.relay 1 (.feFlush none)), .server 7 (.serve (.done [] 'I' [])),
    .world (.relay 1 (.reply (.readyForQuery 'I'))), .world (.relay 1 (.flushClient true)),
    .world (.relay 1 (.client .functionCall)), .world (.relay 1 (.draining false)),
    .world (.relay 1 (.acquired 7)), .world (.relay 1 .clientErr),
    .world (.relay 2 (.client (.query "select 2"))), .world (.relay 2 (.draining false)),
    .world (.relay 2 (.acquired 7)), .world (.relay 2 (.armed none)),
    .world (.relay 2 (.feFlush none)), .server 7 (.serve (.done [] 'I' [])),
    .world (.relay 2 (.reply (.readyForQuery 'I'))), .world (.relay 2 (.feFlush none)),
    .server 7 (.serve (.done [.commandComplete "DISCARD ALL"] 'I' [])),
    .world (.relay 2 (.reply (.commandComplete "DISCARD ALL")))]

/-- The function call's `ReadyForQuery` ends the scrub, and session 2 is sent the reply to the reset
query. -/
theorem reset_reply_forwarded :
    let opts : RuntimeOpts := ⟨"DISCARD ALL", true, 0, 0, 0⟩
    let M := Witnessed.machine opts (fun _ => true) .transaction fun _ => []
    ∃ v, M.Reachable v ∧
      (2, .flush 7 .reset [(.client, .functionCall), (.reset, .query "DISCARD ALL")]) ∈
        v.served.log ∧
      (2, .send 7 .client (.query "select 2")) ∈ v.served.log ∧
      (2, .recv 7 .reply (.commandComplete "DISCARD ALL") .forward) ∈ v.served.log ∧
      ¬Isolated "DISCARD ALL" (fun _ => []) v := by
  intro opts M
  have hrun : (M.run (Witnessed.start .transaction (fun _ => []) (fun _ => 0)) abandonedCall).map
      (fun v => (v.served.log.contains (2, .flush 7 .reset [(.client, .functionCall),
          (.reset, .query "DISCARD ALL")]),
        v.served.log.contains (2, .send 7 .client (.query "select 2")),
        v.served.log.contains (2, .recv 7 .reply (.commandComplete "DISCARD ALL") .forward),
        [(1, Act.send 7 .client .functionCall), (2, .send 7 .client (.query "select 2"))].isSublist
          ((v.moments 7).map Moment.entry),
        ((v.moments 7).map Moment.entry).contains
          (2, .flush 7 .reset [(.reset, .query "DISCARD ALL")]))) =
      some (true, true, true, true, false) := by
    decide
  obtain ⟨v, hv, hview⟩ := Option.map_eq_some_iff.mp hrun
  simp only [Prod.mk.injEq, List.contains_iff_mem, List.isSublist_iff_sublist] at hview
  obtain ⟨hflush, hsend, hforward, hsub, hnone⟩ := hview
  refine ⟨v, Machine.reach_of_run ⟨_, rfl⟩ hv, hflush, hsend, hforward, fun hisolated => ?_⟩
  have halone := hisolated.reset_alone (by decide) (.inl rfl) hsub
  rw [← List.contains_iff_mem, hnone] at halone
  cases halone

end Pgman
