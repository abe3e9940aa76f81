import Pgman.Construction.Relay.PreparedStatements

/-!
# What the replay puts on the wire

`processClientMsg` injects two kinds of messages: a `Close` for each statement it evicts from
the backend, and a `Parse` for the statement the backend lacks.
-/

namespace Pgman

/-- The kinds of messages the proxy injects. -/
inductive Injectable : FrontendMsg → Prop
  | close (name : String) : Injectable (.close 'S' name)
  | parse (name sql : String) (oids : List UInt32) : Injectable (.parse name sql oids)

variable {stmts : BackendPSCache} {sess : Session} {msg : FrontendMsg} {p : Processed}

lemma markBackendHasStmt_injected (stmts : BackendPSCache) (sess : Session) (name : String) :
    ∀ m ∈ (markBackendHasStmt stmts sess name).injected, Injectable m := by
  intro m hm
  simp only [markBackendHasStmt, List.mem_map] at hm
  obtain ⟨victim, -, rfl⟩ := hm
  exact .close victim

lemma ensureBackendHasStmt_injected (stmts : BackendPSCache) (sess : Session) (name : String) :
    ∀ m ∈ (ensureBackendHasStmt stmts sess name).injected, Injectable m := by
  unfold ensureBackendHasStmt
  split
  · simp
  · split
    · simp
    · split
      · simp
      · intro m hm
        rcases List.mem_append.mp hm with hm | hm
        · exact markBackendHasStmt_injected _ _ _ m hm
        · obtain rfl := List.mem_singleton.mp hm
          exact .parse _ _ _

/-- Everything the proxy injects is a `Close` or a `Parse` of a statement. -/
theorem processClientMsg_injected (h : processClientMsg stmts sess msg = .ok p) :
    ∀ m ∈ p.injected, Injectable m := by
  unfold processClientMsg at h
  split at h
  · split at h
    · cases h; simp
    · split at h <;> cases h
      rename_i hp
      unfold trackClientParse at hp
      split at hp <;> cases hp
      exact markBackendHasStmt_injected _ _ _
  · cases h; exact ensureBackendHasStmt_injected _ _ _
  · split at h <;> cases h
    · exact ensureBackendHasStmt_injected _ _ _
    · simp
  · split at h <;> cases h <;> simp
  · cases h; simp
  · cases h; simp

end Pgman
