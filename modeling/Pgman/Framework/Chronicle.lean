import Mathlib.Data.Nat.Notation

/-!
# Chronicles: properties of every event in its history

A machine that logs what it does turns "whenever this happens, that has happened before"
into a property of its log.  `Always P log` says that every event of the log satisfies `P`
relative to the events before it.  It is kept by appending events one at a time
(`Always.snoc`) or a batch at a time (`Always.append`), which is how a step of a machine
extends its log.
-/

namespace Pgman

variable {α : Type*} {P Q : List α → α → Prop} {log es : List α}

/-- Every event satisfies `P` relative to its history. -/
def Always (P : List α → α → Prop) (log : List α) : Prop :=
  ∀ pre e post, log = pre ++ e :: post → P pre e

lemma always_nil : Always P [] := by
  intro pre e post h
  simp at h

lemma Always.append (h : Always P log)
    (hes : ∀ pre e post, es = pre ++ e :: post → P (log ++ pre) e) : Always P (log ++ es) := by
  intro pre e post heq
  -- the event sits in the old log or in the new batch
  rcases List.append_eq_append_iff.mp heq with ⟨mid, hpre, hes'⟩ | ⟨mid, hlog, hpost⟩
  · rw [hpre]
    exact hes mid e post hes'
  · cases mid with
    | nil =>
      rw [List.append_nil] at hlog
      rw [List.nil_append] at hpost
      have := hes [] e post hpost.symm
      rwa [List.append_nil, hlog] at this
    | cons x mid =>
      rw [List.cons_append, List.cons.injEq] at hpost
      obtain ⟨rfl, -⟩ := hpost
      exact h pre e mid hlog

lemma Always.snoc {e : α} (h : Always P log) (he : P log e) : Always P (log ++ [e]) := by
  refine h.append (fun pre e' post heq => ?_)
  cases pre with
  | nil =>
    rw [List.nil_append, List.cons.injEq] at heq
    obtain ⟨rfl, -⟩ := heq
    rwa [List.append_nil]
  | cons x pre => simp at heq

/-- A batch is checked event by event. -/
lemma Always.cons_append {e : α} (h : Always P log) (he : P log e)
    (hes : Always P (log ++ [e]) → Always P (log ++ [e] ++ es)) : Always P (log ++ e :: es) := by
  have := hes (h.snoc he)
  rwa [List.append_assoc, List.singleton_append] at this

end Pgman
