import Centrifuge.Transport.Writer

/-!
# The writer delivers every frame it accepted

`runWriteRoutine` has one branch that drops frames: in the drain loop, when `Remove`
finds the queue empty and the queue is closed, it returns with the batch it holds. That
branch is dead. The routine counts `messageCount := w.messages.Len()` and then removes at
most that many, and it is the queue's only consumer: producers only append, and `Close`
keeps the items. So in every reachable state the count is covered by the queue
(`Writer.Keeps`), and

> `writer_no_drop`: once the routine has returned it holds no frame, so every accepted
> frame has been passed to `writeFn` or is still queued;
>
> `writer_drains`: from every reachable state where the routine has not returned, routine
> steps alone, with `writeFn` succeeding, pass every accepted frame to `writeFn`, in
> order, and leave the routine waiting on an empty queue, or returned if the writer is
> closed.

The second is a bound on work, not a fairness assumption: each routine step lowers
`Writer.work`, four per queued frame plus what the routine's place still costs.

Both rest on `Queue` keeping its items at `Close`, as spec 4.1 has it; the repository's
`internal/queue` (not in the source) discards them there, so these are results about the
spec's queue.
-/

namespace Centrifuge.Transport

open Centrifuge.Control (Bytes)

/-- The frames the drain loop still counts are in the queue, and a routine that returned
dropped nothing. -/
structure Writer.Keeps (w : Writer) : Prop where
  counted : ∀ msgs n, w.routine = .drain msgs n → n ≤ w.messages.items.length
  dropped : ∀ d, w.routine = .stopped d → d = []

theorem Writer.keeps_init : Writer.init.Keeps :=
  ⟨fun _ _ h => (nomatch h), fun _ h => (nomatch h)⟩

theorem Writer.keeps_flush (w : Writer) (msgs : List Bytes) (writeOk : Bool) :
    (w.flush msgs writeOk).Keeps := by
  cases writeOk
  · exact ⟨fun _ _ h => (nomatch h), fun _ h => by cases h; rfl⟩
  · exact ⟨fun _ _ h => (nomatch h), fun _ h => (nomatch h)⟩

theorem Writer.Keeps.write {w : Writer} (h : w.Keeps) (maxQueueSize : Nat) (data : Bytes) :
    (w.write maxQueueSize data).2.Keeps := by
  rw [Writer.write_snd]
  split
  · exact h
  · refine ⟨fun msgs n hr => ?_, h.dropped⟩
    have := h.counted msgs n hr
    simp only [Writer.accept, List.length_append, List.length_singleton]
    omega

theorem Writer.Keeps.close {w : Writer} (h : w.Keeps) : w.close.Keeps := by
  unfold Writer.close
  split
  · exact h
  · exact ⟨h.counted, h.dropped⟩

theorem Writer.Keeps.routineStep {w w' : Writer} (h : w.Keeps) {writeOk : Bool}
    (hs : w.routineStep writeOk = some w') : w'.Keeps := by
  unfold Writer.routineStep at hs
  split at hs
  · split at hs
    · cases hs
      exact ⟨fun _ _ h => (nomatch h), fun _ h => (nomatch h)⟩
    · split at hs <;> cases hs
      exact ⟨fun _ _ h => (nomatch h), fun _ h => by cases h; rfl⟩
  · dsimp only at hs
    split at hs <;> cases hs
    · exact ⟨fun _ _ h => by cases h; exact le_rfl, fun _ h => (nomatch h)⟩
    · exact w.keeps_flush _ _
  · rename_i msgs n hr
    have hn := h.counted msgs n hr
    split at hs
    · split at hs
      · cases hs
        exact w.keeps_flush _ _
      · rcases hq : w.messages.items with _ | ⟨m, t⟩
        · rw [hq, List.length_nil] at hn
          omega
        · simp only [Queue.remove, hq] at hs
          cases hs
          rw [hq, List.length_cons] at hn
          exact ⟨fun _ _ h => by cases h; simp only; omega, fun _ h => (nomatch h)⟩
    · split at hs <;> cases hs
      · exact w.keeps_flush _ _
      · exact ⟨fun _ _ h => (nomatch h), fun _ h => (nomatch h)⟩
  · cases hs

theorem Writer.Keeps.step {w w' : Writer} (h : w.Keeps) {maxQueueSize : Nat} (a : Act)
    (hs : w.step maxQueueSize a = some w') : w'.Keeps := by
  cases a with
  | write data => cases hs; exact h.write maxQueueSize data
  | close => cases hs; exact h.close
  | routine writeOk => exact h.routineStep hs

theorem Writer.keeps_reachable {maxQueueSize : Nat} {w : Writer}
    (h : Reachable maxQueueSize w) : w.Keeps := by
  induction h with
  | init => exact Writer.keeps_init
  | step a _ hs ih => exact ih.step a hs

/-- In every reachable state, whatever the interleaving and whatever `writeFn` returned:
once the routine has returned it holds no frame, and every accepted frame has been passed
to `writeFn` or is still in the queue, in order. -/
theorem writer_no_drop {maxQueueSize : Nat} {w : Writer} (h : Reachable maxQueueSize w)
    {d : List Bytes} (hs : w.routine = .stopped d) :
    d = [] ∧ w.written.flatten ++ w.messages.items = w.accepted := by
  have hd := (Writer.keeps_reachable h).dropped d hs
  have hf := (Writer.inv_reachable h).fifo
  rw [hs, hd] at hf
  exact ⟨hd, by simpa [Routine.held] using hf⟩

/-- A writer whose first `writeFn` call fails: the routine returns holding nothing, and the
frame is in the failed batch. -/
theorem writer_no_drop_failed_write :
    let w : Writer := ⟨⟨[], false⟩, false, .stopped [], [[1]], [[[1]]]⟩
    [] = ([] : List Bytes) ∧ w.written.flatten ++ w.messages.items = w.accepted :=
  writer_no_drop ((@Reachable.init 1024).run [.write [1], .routine true, .routine false] rfl) rfl

/-! ## Routine steps alone drain the queue -/

/-- Routine steps still to go, at most: four per queued frame, and what the routine's
place costs. -/
def Writer.work (w : Writer) : Nat :=
  4 * w.messages.items.length +
    match w.routine with
    | .wait => 1
    | .len _ => 3
    | .drain _ _ => 2
    | .stopped _ => 0

/-- Where the routine rests for good: waiting on an empty open queue, or returned from a
closed empty one. -/
def Writer.Rests (w : Writer) : Prop :=
  w.messages.items = [] ∧ w.routine = if w.messages.closed then .stopped [] else .wait

/-- With `writeFn` succeeding, a routine that has not returned and does not rest takes a
step that lowers its work, accepts nothing and keeps the queue open or closed. A step
that returns leaves it resting. -/
theorem Writer.Keeps.progress {w : Writer} (h : w.Keeps) (hs : ∀ d, w.routine ≠ .stopped d)
    (hr : ¬ w.Rests) :
    ∃ w', w.routineStep true = some w' ∧ w'.work < w.work ∧ w'.accepted = w.accepted ∧
      w'.messages.closed = w.messages.closed ∧ (∀ d, w'.routine = .stopped d → w'.Rests) := by
  rcases hw : w.routine with _ | msg | ⟨msgs, n⟩ | d
  · rcases hq : w.messages.items with _ | ⟨m, t⟩
    · cases hc : w.messages.closed
      · exact absurd ⟨hq, by rw [hw, hc]; rfl⟩ hr
      · exact ⟨{ w with routine := .stopped [] }, by simp [Writer.routineStep, hw, hq, hc],
          by simp [Writer.work, hw, hq], rfl, hc, fun _ _ => ⟨hq, by simp [hc]⟩⟩
    · exact ⟨{ w with messages := { w.messages with items := t }, routine := .len m },
        by simp [Writer.routineStep, hw, hq], by simp [Writer.work, hw, hq]; omega, rfl, rfl,
        fun _ h => (nomatch h)⟩
  · by_cases hq : 0 < w.messages.items.length
    · exact ⟨{ w with routine := .drain [msg] w.messages.len },
        by simp [Writer.routineStep, hw, hq, mergeQueueMessages, Queue.len],
        by simp [Writer.work, hw], rfl, rfl, fun _ h => (nomatch h)⟩
    · exact ⟨w.flush [msg] true,
        by simp [Writer.routineStep, hw, hq, mergeQueueMessages, Queue.len],
        by simp [Writer.work, Writer.flush, hw], rfl, rfl, fun _ h => (nomatch h)⟩
  · have hn := h.counted msgs n hw
    by_cases hn0 : 0 < n
    · by_cases hfull : maxMessagesInFrame ≤ msgs.length
      · exact ⟨w.flush msgs true, by simp [Writer.routineStep, hw, hn0, hfull],
          by simp [Writer.work, Writer.flush, hw], rfl, rfl, fun _ h => (nomatch h)⟩
      · rcases hq : w.messages.items with _ | ⟨m, t⟩
        · rw [hq, List.length_nil] at hn
          omega
        · let q : Queue := { w.messages with items := t }
          exact ⟨{ w with messages := q, routine := .drain (msgs ++ [m]) (n - 1) },
            by simp [Writer.routineStep, hw, hn0, hfull, Queue.remove, hq],
            by simp [Writer.work, q, hw, hq], rfl, rfl, fun _ h => (nomatch h)⟩
    · by_cases hm : 0 < msgs.length
      · exact ⟨w.flush msgs true, by simp [Writer.routineStep, hw, hn0, hm],
          by simp [Writer.work, Writer.flush, hw], rfl, rfl, fun _ h => (nomatch h)⟩
      · exact ⟨{ w with routine := .wait }, by simp [Writer.routineStep, hw, hn0, hm],
          by simp [Writer.work, hw], rfl, rfl, fun _ h => (nomatch h)⟩
  · exact absurd hw (hs d)

/-- From a state that keeps the count, with work at most `k`, routine steps that all
succeed bring the routine to rest, accepting nothing. -/
theorem Writer.Keeps.drains (maxQueueSize : Nat) :
    ∀ (k : Nat) {w : Writer}, w.Keeps → w.work ≤ k → (∀ d, w.routine ≠ .stopped d) →
      ∃ acts w', (∀ a ∈ acts, a = .routine true) ∧ w.run maxQueueSize acts = some w' ∧
        w'.accepted = w.accepted ∧ w'.messages.closed = w.messages.closed ∧ w'.Rests
  | k, w, h, hk, hs => by
    by_cases hr : w.Rests
    · exact ⟨[], w, by simp, rfl, rfl, rfl, hr⟩
    obtain ⟨w', hstep, hlt, hacc, hcl, hstop⟩ := h.progress hs hr
    have hrun : ∀ acts, w.run maxQueueSize (.routine true :: acts) = w'.run maxQueueSize acts :=
      fun acts => by simp [Writer.run, Writer.step, hstep]
    by_cases hs' : ∃ d, w'.routine = .stopped d
    · obtain ⟨d, hd⟩ := hs'
      exact ⟨[.routine true], w', by simp, by rw [hrun]; rfl, hacc, hcl, hstop d hd⟩
    obtain ⟨acts, w'', hacts, hrun', hacc', hcl', hrest⟩ :=
      Writer.Keeps.drains maxQueueSize (k - 1) (h.routineStep hstep) (by omega)
        (fun d hd => hs' ⟨d, hd⟩)
    refine ⟨.routine true :: acts, w'', ?_, by rw [hrun, hrun'], hacc'.trans hacc,
      hcl'.trans hcl, hrest⟩
    simpa using hacts
termination_by k => k
decreasing_by omega

/-- From every reachable state where `runWriteRoutine` has not returned, whatever the
producers did before: routine steps alone, with `writeFn` succeeding, pass every accepted
frame to `writeFn`, in order, and leave the queue empty and the routine waiting on it, or
returned if the writer has been closed. -/
theorem writer_drains {maxQueueSize : Nat} {w : Writer} (h : Reachable maxQueueSize w)
    (hs : ∀ d, w.routine ≠ .stopped d) :
    ∃ acts w', (∀ a ∈ acts, a = .routine true) ∧ w.run maxQueueSize acts = some w' ∧
      w'.written.flatten = w.accepted ∧ w'.messages.items = [] ∧
      w'.routine = if w.messages.closed then .stopped [] else .wait := by
  obtain ⟨acts, w', hacts, hrun, hacc, hcl, hitems, hrest⟩ :=
    (Writer.keeps_reachable h).drains maxQueueSize _ le_rfl hs
  have hf := (Writer.inv_reachable (h.run acts hrun)).fifo
  rw [hcl] at hrest
  refine ⟨acts, w', hacts, hrun, ?_, hitems, hrest⟩
  rw [hitems, hacc, hrest] at hf
  split at hf <;> simpa [Routine.held] using hf

/-- Three frames accepted, then `close`: the routine writes all three and returns. -/
theorem writer_drains_closed :
    let w : Writer := ⟨⟨[[1], [2], [3]], true⟩, true, .wait, [[1], [2], [3]], []⟩
    (∀ d, w.routine ≠ .stopped d) ∧
    ∃ acts w', (∀ a ∈ acts, a = .routine true) ∧ w.run 1024 acts = some w' ∧
      w'.written.flatten = w.accepted ∧ w'.messages.items = [] ∧
      w'.routine = if w.messages.closed then .stopped [] else .wait :=
  ⟨fun _ h => (nomatch h), writer_drains ((@Reachable.init 1024).run
    [.write [1], .write [2], .write [3], .close] rfl) fun _ h => nomatch h⟩

end Centrifuge.Transport
