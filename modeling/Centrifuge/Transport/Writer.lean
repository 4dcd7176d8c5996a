import Centrifuge.Control.Wire

/-!
# The per-connection writer

`writer` owns a queue of frames. Any number of producers call `writer.write`
(`handleClientData` with each frame's replies, `Transport.Send` with pushes), and one
`runWriteRoutine` loop takes frames out: `Wait` for the head, `Len` for how many
follow, then up to `maxMessagesInFrame - 1` more by `Remove`, and the batch goes to
`writeFn` in one call.

The routine is a program counter (`Routine`), every producer call, `close` and every
routine step one atomic action (`Act`), and `Reachable` the states some interleaving
of them reaches. The invariant (`Writer.Inv`) is

> the batches passed to `writeFn`, then what the routine holds, then the queue, are
> the accepted frames in order; every batch has 1 to `maxMessagesInFrame` frames,

kept by every step (`Writer.inv_step`), so it holds in every reachable state
(`writer_fifo`), whatever the interleaving, the closes and the outcomes of `writeFn`.

Mirroring notes vs the Go source:
- `internal/queue` is not in the source; `Queue` follows spec 4.1's queue: a FIFO with
  `Add` refused after `Close`, `Wait` blocking until an item is available or the queue is
  closed, so that frames queued before `Close` are still handed out (drain after close),
  `Remove` non-blocking, `Len` the count and `Size` the bytes. The repository's
  `internal/queue` differs there: its `Close` discards the queued frames and its `Wait`
  then reports false. What holds of every run here about frames in the queue at a close
  (`writer_no_drop`, `writer_drains` in `Transport/Drain.lean`) is a result about spec
  4.1's queue, not about `internal/queue`.
- `accepted` is a ghost record of the `Add`s that returned true; `written` records the
  `writeFn` calls, which is what the transport sees.
- A blocked `Wait` is a step that is not enabled (`routineStep` returns `none`).
-/

namespace Centrifuge.Transport

open Centrifuge.Control (Bytes)

/-- Modelled from the spec: `proto.Disconnect`, the reason and the reconnect advice sent
to a client that is being closed (the `proto` package is not in the source). -/
structure Disconnect where
  reason : String
  reconnect : Bool
deriving DecidableEq, Repr

/-- Modelled from spec 4.1: the FIFO of frames a writer owns, which still hands out after
`Close` the frames queued before it (the repository's `internal/queue` discards them). -/
structure Queue where
  items : List Bytes
  closed : Bool
deriving DecidableEq, Repr

namespace Queue

/-- `Add(frame)`: appended unless the queue is closed. -/
def add (q : Queue) (data : Bytes) : Bool × Queue :=
  if q.closed then (false, q) else (true, { q with items := q.items ++ [data] })

/-- `Remove()`: the head, if any, without blocking. -/
def remove (q : Queue) : Option Bytes × Queue :=
  match q.items with
  | [] => (none, q)
  | h :: t => (some h, { q with items := t })

/-- `Len()`: how many frames are queued. -/
def len (q : Queue) : Nat := q.items.length

/-- `Size()`: how many bytes are queued. -/
def size (q : Queue) : Nat := (q.items.map List.length).sum

/-- `Close()`, idempotent. -/
def close (q : Queue) : Queue := { q with closed := true }

end Queue

/-- `mergeQueueMessages`. -/
def mergeQueueMessages : Bool := true

/-- `maxMessagesInFrame`. -/
def maxMessagesInFrame : Nat := 4

/-- Where `runWriteRoutine` is. -/
inductive Routine
  /-- At `msg, ok := w.messages.Wait()`. -/
  | wait
  /-- Holding `msg`, at `messageCount := w.messages.Len()`. -/
  | len (msg : Bytes)
  /-- In `for messageCount > 0 { … }`, holding `msgs`. -/
  | drain (msgs : List Bytes) (messageCount : Nat)
  /-- Returned, dropping what it held. -/
  | stopped (dropped : List Bytes)
deriving DecidableEq, Repr

/-- The frames the routine holds: taken from the queue, not yet passed to `writeFn`. -/
def Routine.held : Routine → List Bytes
  | .wait => []
  | .len msg => [msg]
  | .drain msgs _ => msgs
  | .stopped dropped => dropped

/-- One connection's `writer`. -/
structure Writer where
  messages : Queue
  closed : Bool
  routine : Routine
  /-- Ghost: the frames whose `Add` returned true, in order. -/
  accepted : List Bytes
  /-- The batches passed to `writeFn`, in order. -/
  written : List (List Bytes)
deriving DecidableEq, Repr

/-- `newWriter`: an empty queue and the routine about to `Wait`. -/
def Writer.init : Writer :=
  { messages := ⟨[], false⟩, closed := false, routine := .wait, accepted := [], written := [] }

/-- `writer.write(data)`: `Add`, then a `slow` disconnect when the queue holds more than
`MaxQueueSize` bytes. -/
def Writer.write (w : Writer) (maxQueueSize : Nat) (data : Bytes) : Option Disconnect × Writer :=
  match w.messages.add data with
  | (false, _) => (none, w)
  | (true, q) =>
    let w := { w with messages := q, accepted := w.accepted ++ [data] }
    if w.messages.size > maxQueueSize then (some ⟨"slow", true⟩, w) else (none, w)

/-- `writer.close()`: closes the queue once. -/
def Writer.close (w : Writer) : Writer :=
  if w.closed then w else { w with messages := w.messages.close, closed := true }

/-- `writeErr = w.writeFn(msgs...)`: the batch is passed, then the routine goes back to
`Wait`, or returns when `writeFn` failed. -/
def Writer.flush (w : Writer) (msgs : List Bytes) (writeOk : Bool) : Writer :=
  { w with written := w.written ++ [msgs], routine := if writeOk then .wait else .stopped [] }

@[simp] theorem Writer.flush_written (w : Writer) (msgs : List Bytes) (writeOk : Bool) :
    (w.flush msgs writeOk).written = w.written ++ [msgs] := rfl

@[simp] theorem Writer.flush_messages (w : Writer) (msgs : List Bytes) (writeOk : Bool) :
    (w.flush msgs writeOk).messages = w.messages := rfl

@[simp] theorem Writer.flush_accepted (w : Writer) (msgs : List Bytes) (writeOk : Bool) :
    (w.flush msgs writeOk).accepted = w.accepted := rfl

@[simp] theorem Writer.flush_held (w : Writer) (msgs : List Bytes) (writeOk : Bool) :
    (w.flush msgs writeOk).routine.held = [] := by
  cases writeOk <;> rfl

theorem Writer.flush_not_drain (w : Writer) (msgs : List Bytes) (writeOk : Bool)
    (msgs' : List Bytes) (n : Nat) : (w.flush msgs writeOk).routine ≠ .drain msgs' n := by
  cases writeOk <;> simp [Writer.flush]

/-- The writer after `Add(data)` returned true. -/
def Writer.accept (w : Writer) (data : Bytes) : Writer :=
  { w with
    messages := ⟨w.messages.items ++ [data], w.messages.closed⟩
    accepted := w.accepted ++ [data] }

/-- `Add` takes `data` unless the queue is closed; the slow check changes nothing. -/
@[simp] theorem Writer.write_snd (w : Writer) (maxQueueSize : Nat) (data : Bytes) :
    (w.write maxQueueSize data).2 = if w.messages.closed then w else w.accept data := by
  unfold Writer.write Queue.add
  by_cases hc : w.messages.closed
  · simp [hc]
  · simp only [hc, if_false, Bool.false_eq_true]
    split <;> simp [Writer.accept, hc]

/-- One step of `runWriteRoutine`; `writeOk` is the outcome of a `writeFn` call the step
makes. `none` when the routine is blocked in `Wait` or has returned. -/
def Writer.routineStep (w : Writer) (writeOk : Bool) : Option Writer :=
  match w.routine with
  | .wait =>
    match w.messages.items with
    | h :: t => some { w with messages := { w.messages with items := t }, routine := .len h }
    | [] => if w.messages.closed then some { w with routine := .stopped [] } else none
  | .len msg =>
    let messageCount := w.messages.len
    if mergeQueueMessages && 0 < messageCount then
      some { w with routine := .drain [msg] messageCount }
    else some (w.flush [msg] writeOk)
  | .drain msgs messageCount =>
    if 0 < messageCount then
      if maxMessagesInFrame ≤ msgs.length then some (w.flush msgs writeOk)
      else
        match w.messages.remove with
        | (some msg, q) =>
          some { w with messages := q, routine := .drain (msgs ++ [msg]) (messageCount - 1) }
        | (none, _) =>
          if w.messages.closed then some { w with routine := .stopped msgs }
          else some (w.flush msgs writeOk)
    else if 0 < msgs.length then some (w.flush msgs writeOk)
    else some { w with routine := .wait }
  | .stopped _ => none

/-- What can happen to a writer. -/
inductive Act
  /-- A producer's `writer.write(data)`. -/
  | write (data : Bytes)
  /-- `writer.close()`. -/
  | close
  /-- One step of `runWriteRoutine`, with the outcome of a `writeFn` call it makes. -/
  | routine (writeOk : Bool)
deriving DecidableEq, Repr

/-- One action, when it is enabled. -/
def Writer.step (maxQueueSize : Nat) (w : Writer) : Act → Option Writer
  | .write data => some (w.write maxQueueSize data).2
  | .close => some w.close
  | .routine writeOk => w.routineStep writeOk

/-- The actions one after another, each of which must be enabled. -/
def Writer.run (maxQueueSize : Nat) : Writer → List Act → Option Writer
  | w, [] => some w
  | w, a :: acts => (w.step maxQueueSize a).bind fun w' => w'.run maxQueueSize acts

/-- The states some interleaving of actions reaches from `newWriter`. -/
inductive Reachable (maxQueueSize : Nat) : Writer → Prop
  | init : Reachable maxQueueSize Writer.init
  | step {w w' : Writer} (a : Act) :
    Reachable maxQueueSize w → w.step maxQueueSize a = some w' → Reachable maxQueueSize w'

theorem Reachable.run {maxQueueSize : Nat} {w : Writer} (h : Reachable maxQueueSize w) :
    ∀ (acts : List Act) {w' : Writer}, w.run maxQueueSize acts = some w' →
      Reachable maxQueueSize w'
  | [], _, hr => by cases hr; exact h
  | a :: acts, _, hr => by
    simp only [Writer.run, Option.bind_eq_some] at hr
    obtain ⟨w₁, h₁, h₂⟩ := hr
    exact (Reachable.step a h h₁).run acts h₂

/-! ## The invariant -/

/-- Nothing lost, duplicated or reordered, and batches of 1 to `maxMessagesInFrame`. -/
structure Writer.Inv (w : Writer) : Prop where
  fifo : w.written.flatten ++ w.routine.held ++ w.messages.items = w.accepted
  batches : ∀ b ∈ w.written, 0 < b.length ∧ b.length ≤ maxMessagesInFrame
  draining : ∀ msgs n, w.routine = .drain msgs n → 0 < msgs.length ∧ msgs.length ≤ maxMessagesInFrame

theorem Writer.inv_init : Writer.init.Inv :=
  ⟨rfl, by simp [Writer.init], by simp [Writer.init]⟩

/-- Passing a held batch of the right size to `writeFn` keeps the invariant. -/
theorem Writer.Inv.flush {w : Writer} (h : w.Inv) {msgs : List Bytes} (writeOk : Bool)
    (hheld : w.routine.held = msgs) (hlen : 0 < msgs.length ∧ msgs.length ≤ maxMessagesInFrame) :
    (w.flush msgs writeOk).Inv := by
  refine ⟨?_, fun b hb => ?_, fun _ _ hr => absurd hr (w.flush_not_drain _ _ _ _)⟩
  · rw [Writer.flush_written, Writer.flush_held, Writer.flush_messages, Writer.flush_accepted,
      ← h.fifo, ← hheld]
    simp
  · rw [Writer.flush_written, List.mem_append, List.mem_singleton] at hb
    rcases hb with hb | rfl
    · exact h.batches b hb
    · exact hlen

theorem Writer.Inv.write {w : Writer} (h : w.Inv) (maxQueueSize : Nat) (data : Bytes) :
    (w.write maxQueueSize data).2.Inv := by
  rw [Writer.write_snd]
  split
  · exact h
  · exact ⟨by simp [Writer.accept, ← h.fifo], h.batches, h.draining⟩

theorem Writer.Inv.close {w : Writer} (h : w.Inv) : w.close.Inv := by
  unfold Writer.close
  split
  · exact h
  · exact ⟨h.fifo, h.batches, h.draining⟩

theorem Writer.Inv.routineStep {w w' : Writer} (h : w.Inv) {writeOk : Bool}
    (hs : w.routineStep writeOk = some w') : w'.Inv := by
  unfold Writer.routineStep at hs
  split at hs
  · rename_i hr
    split at hs
    · rename_i m t hq
      cases hs
      refine ⟨?_, h.batches, by simp⟩
      rw [← h.fifo, hr, hq]
      simp [Routine.held]
    · split at hs
      · cases hs
        exact ⟨by rw [← h.fifo, hr]; rfl, h.batches, by simp⟩
      · cases hs
  · rename_i msg hr
    dsimp only at hs
    split at hs <;> cases hs
    · exact ⟨by rw [← h.fifo, hr]; rfl, h.batches, by simp [maxMessagesInFrame]⟩
    · exact h.flush writeOk (by rw [hr]; rfl) (by simp [maxMessagesInFrame])
  · rename_i msgs n hr
    have hd := h.draining msgs n hr
    split at hs
    · split at hs
      · cases hs
        exact h.flush writeOk (by rw [hr]; rfl) hd
      · rename_i hlt
        rcases hq : w.messages.items with _ | ⟨m, t⟩
        · simp only [Queue.remove, hq] at hs
          split at hs <;> cases hs
          · exact ⟨by rw [← h.fifo, hr]; rfl, h.batches, by simp⟩
          · exact h.flush writeOk (by rw [hr]; rfl) hd
        · simp only [Queue.remove, hq] at hs
          cases hs
          refine ⟨?_, h.batches, ?_⟩
          · rw [← h.fifo, hr, hq]
            simp [Routine.held]
          · intro msgs' n' he
            cases he
            simp only [List.length_append, List.length_singleton]
            omega
    · split at hs <;> cases hs
      · exact h.flush writeOk (by rw [hr]; rfl) hd
      · exact absurd hd.1 ‹_›
  · cases hs

/-- Every action keeps the invariant. -/
theorem Writer.inv_step {w w' : Writer} (h : w.Inv) {maxQueueSize : Nat} (a : Act)
    (hs : w.step maxQueueSize a = some w') : w'.Inv := by
  cases a with
  | write data => cases hs; exact h.write maxQueueSize data
  | close => cases hs; exact h.close
  | routine writeOk => exact h.routineStep hs

theorem Writer.inv_reachable {maxQueueSize : Nat} {w : Writer} (h : Reachable maxQueueSize w) :
    w.Inv := by
  induction h with
  | init => exact Writer.inv_init
  | step a _ hs ih => exact Writer.inv_step ih a hs

/-- In every state that an interleaving of producers, closes and routine steps reaches,
whatever `writeFn` returns: the batches passed to `writeFn`, then what the routine
holds, then the queue, are the accepted frames in order, and each batch has 1 to
`maxMessagesInFrame` frames. So frames reach `writeFn` in the order their `Add`s were
accepted, and those of one producer, such as `handleClientData` for successive command
frames, in the order it added them. -/
theorem writer_fifo {maxQueueSize : Nat} {w : Writer} (h : Reachable maxQueueSize w) :
    w.written.flatten ++ w.routine.held ++ w.messages.items = w.accepted ∧
    (∀ b ∈ w.written, 0 < b.length ∧ b.length ≤ maxMessagesInFrame) ∧
    w.written.flatten <+: w.accepted :=
  have hi := Writer.inv_reachable h
  ⟨hi.fifo, hi.batches, ⟨_, by rw [← List.append_assoc]; exact hi.fifo⟩⟩

theorem writer_fifo_batch :
    let w : Writer := ⟨⟨[[3]], false⟩, false, .wait, [[1], [2], [3]], [[[1], [2]]]⟩
    w.written.flatten ++ w.routine.held ++ w.messages.items = w.accepted ∧
    (∀ b ∈ w.written, 0 < b.length ∧ b.length ≤ maxMessagesInFrame) ∧
    w.written.flatten <+: w.accepted :=
  writer_fifo ((@Reachable.init 1024).run [.write [1], .write [2], .routine true,
    .routine true, .routine true, .write [3], .routine true] rfl)

end Centrifuge.Transport
