import Centrifuge.Transport.Writer

/-!
# Closing a transport while pings and writes run

`websocketTransport` and `sockjsTransport` are used by several goroutines at once:
`Close` is called from `handleClientData`, from the goroutine `Send` starts on a `slow`
disconnect, from `write` after a failed call and from `ping` after a failed ping; the
ping timer's callbacks, `addPing` and the writer routine's `write` run beside them.

Each goroutine is a program counter (`Pc`); each critical section under `t.mu`, each
`select` on `t.closeCh` and each call on the connection is one atomic step (`Act`),
and `Reachable` is every state some interleaving of them reaches. Every step records
what it does that is seen outside (`Effect`) in a ghost log, tagged with the goroutine.
The payoff is

> `close_once`: in every reachable state, `closeCh` has been closed exactly once if
> `t.closed` is set and never otherwise; every `close(closeCh)`, timer stop, close frame
> and connection close was made by the first `Close`; every other `Close` returned nil;
> after the first `Close` has run its critical section, no ping timer is armed and no
> `write` that starts touches the connection; and every `Close` returns: run by its own
> steps, whatever its calls return, within four steps and with `closeCh` closed, at once
> and with nil when `t.closed` is already set.

The last half rests on `exec_inClose`: each step past the critical section returns or
moves to a place with fewer steps left (`Pc.closeLeft`).

Mirroring notes vs the Go source:
- `sockjsTransport.Close` holds `t.mu` across `json.Marshal` and `t.session.Close`; here
  its critical section ends at `close(t.closeCh)`, which admits more interleavings, so
  what holds here holds of the code.
- Past its `select`, `write` makes some calls on the connection (`NextWriter`, `Write`,
  `Close` of the frame writer, `EnableWriteCompression`, `SetWriteDeadline`, or
  `session.Send`), any of which may fail and lead to `Close`: `writeBody` makes a given
  number of such calls. `websocketTransport.write` as the code computes it is in
  `Transport/Write.lean`.
- The `Disconnect` passed to `Close` matters only through `disconnect != nil`.
-/

namespace Centrifuge.Transport

/-- Which transport. -/
inductive Kind
  | websocket
  | sockjs
deriving DecidableEq, Repr

/-- A call on `t.conn` or `t.session`. -/
inductive ConnOp
  /-- `t.conn.WriteControl(websocket.PingMessage, …)`. -/
  | ping
  /-- `t.conn.WriteControl(websocket.CloseMessage, …)`. -/
  | closeFrame
  /-- `t.conn.Close()` or `t.session.Close(…)`. -/
  | close
  /-- A call of `write` past its `select`. -/
  | write
deriving DecidableEq, Repr

/-- What a step does that is seen outside the transport. -/
inductive Effect
  /-- `close(t.closeCh)`. -/
  | closeCh
  /-- `t.pingTimer.Stop()`. -/
  | stopTimer
  /-- `time.AfterFunc(t.opts.pingInterval, t.ping)`. -/
  | armTimer
  | conn (op : ConnOp)
  /-- A `write` call starts. -/
  | writeStart
  /-- A `Close` call returns, with an error or with nil. -/
  | closeReturn (err : Bool)
deriving DecidableEq, Repr

/-- The effects only `Close` makes. -/
def Effect.ofClose : Effect → Bool
  | .closeCh | .stopTimer | .conn .closeFrame | .conn .close => true
  | _ => false

/-- An effect of goroutine `tid`. -/
structure Event where
  tid : Nat
  effect : Effect
deriving DecidableEq, Repr

/-- Where a goroutine is. -/
inductive Pc
  /-- `Close(disconnect)`, at `t.mu.Lock()`; `disconnect` says `disconnect != nil`. -/
  | close (disconnect : Bool)
  /-- `Close`, at `json.Marshal(disconnect)`. -/
  | closeMarshal
  /-- `websocketTransport.Close`, at `t.conn.WriteControl(websocket.CloseMessage, …)`. -/
  | closeFrame
  /-- `Close`, at `t.conn.Close()` or `t.session.Close(…)`. -/
  | closeConn
  /-- `ping`, at its `select`. -/
  | ping
  /-- `ping`, at `t.conn.WriteControl(websocket.PingMessage, …)`. -/
  | pingWrite
  /-- `addPing`, at `t.mu.Lock()`. -/
  | addPing
  /-- `write(data...)`, at its `select`, with the calls it will make past it. -/
  | write (calls : Nat)
  /-- `write`, past its `select`, with the calls it has left. -/
  | writeBody (calls : Nat)
  /-- Returned. -/
  | done
deriving DecidableEq, Repr

/-- The places in `Close` past its critical section. -/
def Pc.inClose : Pc → Bool
  | .closeMarshal | .closeFrame | .closeConn => true
  | _ => false

/-- The steps `Close` has left past its critical section, the one that returns included. -/
def Pc.closeLeft : Pc → Nat
  | .closeMarshal => 3
  | .closeFrame => 2
  | .closeConn => 1
  | _ => 0

/-- One transport and the goroutines using it. -/
structure TransportState where
  closed : Bool
  /-- Whether `t.closeCh` has been closed. -/
  closeCh : Bool
  /-- `t.pingTimer`, by the number of the timer. -/
  pingTimer : Option Nat
  /-- The timers armed and neither fired nor stopped. -/
  timers : List Nat
  /-- How many timers were armed. -/
  armed : Nat
  /-- The goroutines, by number. -/
  threads : List Pc
  /-- Ghost: the goroutine whose `Close` found `t.closed` false. -/
  firstCloser : Option Nat
  /-- Ghost: every effect, in order. -/
  log : List Event
deriving DecidableEq, Repr

namespace TransportState

variable {s : TransportState} {tid : Nat} {pc : Pc} {es : List Effect}

/-- `newWebsocketTransport` and `newSockjsTransport`: open, with no goroutine yet. -/
def init : TransportState :=
  { closed := false, closeCh := false, pingTimer := none, timers := [], armed := 0,
    threads := [], firstCloser := none, log := [] }

/-- Goroutine `tid` moves to `pc` with the effects `es`. -/
def goto (s : TransportState) (tid : Nat) (pc : Pc) (es : List Effect) : TransportState :=
  { s with threads := s.threads.set tid pc, log := s.log ++ es.map (Event.mk tid) }

/-- A new goroutine starts at `pc` with the effects `es`. -/
def spawn (s : TransportState) (pc : Pc) (es : List Effect) : TransportState :=
  { s with threads := s.threads ++ [pc], log := s.log ++ es.map (Event.mk s.threads.length) }

@[simp] theorem goto_closed : (s.goto tid pc es).closed = s.closed := rfl
@[simp] theorem goto_closeCh : (s.goto tid pc es).closeCh = s.closeCh := rfl
@[simp] theorem goto_firstCloser : (s.goto tid pc es).firstCloser = s.firstCloser := rfl
@[simp] theorem goto_threads : (s.goto tid pc es).threads = s.threads.set tid pc := rfl
@[simp] theorem goto_log : (s.goto tid pc es).log = s.log ++ es.map (Event.mk tid) := rfl

@[simp] theorem spawn_closed : (s.spawn pc es).closed = s.closed := rfl
@[simp] theorem spawn_closeCh : (s.spawn pc es).closeCh = s.closeCh := rfl
@[simp] theorem spawn_firstCloser : (s.spawn pc es).firstCloser = s.firstCloser := rfl
@[simp] theorem spawn_threads : (s.spawn pc es).threads = s.threads ++ [pc] := rfl
@[simp] theorem spawn_log :
    (s.spawn pc es).log = s.log ++ es.map (Event.mk s.threads.length) := rfl

/-- One step of goroutine `tid` at `pc`; `ok` is the outcome of the call it makes. -/
def exec (kind : Kind) (s : TransportState) (tid : Nat) (ok : Bool) : Pc → TransportState
  | .close disconnect =>
    if s.closed then s.goto tid .done [.closeReturn false]
    else
      let s := { s with closeCh := true, closed := true, firstCloser := some tid }
      match kind with
      | .websocket =>
        let pc := if disconnect then .closeMarshal else .closeConn
        match s.pingTimer with
        | none => s.goto tid pc [.closeCh]
        | some id => { s with timers := s.timers.erase id }.goto tid pc [.closeCh, .stopTimer]
      | .sockjs => s.goto tid .closeMarshal [.closeCh]
  | .closeMarshal =>
    if ok then s.goto tid (match kind with | .websocket => .closeFrame | .sockjs => .closeConn) []
    else s.goto tid .done [.closeReturn true]
  | .closeFrame => s.goto tid .closeConn [.conn .closeFrame]
  | .closeConn => s.goto tid .done [.conn .close, .closeReturn !ok]
  | .ping => s.goto tid (if s.closeCh then .done else .pingWrite) []
  | .pingWrite => s.goto tid (if ok then .addPing else .close true) [.conn .ping]
  | .addPing =>
    if s.closed then s.goto tid .done []
    else
      { s with pingTimer := some s.armed, timers := s.timers ++ [s.armed], armed := s.armed + 1 }.goto
        tid .done [.armTimer]
  | .write calls => s.goto tid (if s.closeCh then .done else .writeBody calls) []
  | .writeBody 0 => s.goto tid .done []
  | .writeBody (calls + 1) => s.goto tid (if ok then .writeBody calls else .close true) [.conn .write]
  | .done => s

end TransportState

/-- What can happen to a transport. -/
inductive TransportAct
  /-- A goroutine calls `t.Close(disconnect)`. -/
  | close (disconnect : Bool)
  /-- `newWebsocketTransport` calls `t.addPing()`. -/
  | addPing
  /-- The writer routine calls `t.write(data...)`. -/
  | write (calls : Nat)
  /-- A timer fires and runs `t.ping` in its own goroutine. -/
  | fire (timer : Nat)
  /-- Goroutine `tid` takes its next step, with the outcome `ok` of the call it makes. -/
  | step (tid : Nat) (ok : Bool)
deriving DecidableEq, Repr

namespace TransportState

/-- One action, when it is enabled. -/
def step (kind : Kind) (s : TransportState) : TransportAct → Option TransportState
  | .close disconnect => some (s.spawn (.close disconnect) [])
  | .addPing => if kind = .websocket then some (s.spawn .addPing []) else none
  | .write calls => some (s.spawn (.write calls) [.writeStart])
  | .fire id => if id ∈ s.timers then some ({ s with timers := s.timers.erase id }.spawn .ping []) else none
  | .step tid ok =>
    match s.threads[tid]? with
    | none | some .done => none
    | some pc => some (s.exec kind tid ok pc)

/-- The actions one after another, each of which must be enabled. -/
def run (kind : Kind) : TransportState → List TransportAct → Option TransportState
  | s, [] => some s
  | s, a :: acts => (s.step kind a).bind fun s' => s'.run kind acts

end TransportState

/-! ## What a step can do -/

namespace TransportState

variable {kind : Kind} {s : TransportState} {tid : Nat} {ok : Bool}

/-- The first `Close`'s critical section: it sets `t.closed`, closes `closeCh`, maybe stops
the timer, and goes on to the rest of `Close`. -/
theorem exec_first {d : Bool} (h : s.closed = false) :
    let s' := s.exec kind tid ok (.close d)
    s'.closed = true ∧ s'.closeCh = true ∧ s'.firstCloser = some tid ∧
    ∃ pc' es, s'.threads = s.threads.set tid pc' ∧ s'.log = s.log ++ es.map (Event.mk tid) ∧
      pc'.inClose = true ∧ (es = [.closeCh] ∨ es = [.closeCh, .stopTimer]) := by
  cases kind
  · rcases hp : s.pingTimer with _ | id <;>
      simp only [exec, h, hp, Bool.false_eq_true, ↓reduceIte] <;>
      exact ⟨rfl, rfl, rfl, _, _, rfl, rfl, by split <;> rfl, by simp⟩
  · simp only [exec, h, Bool.false_eq_true, ↓reduceIte]
    exact ⟨rfl, rfl, rfl, _, _, rfl, rfl, rfl, by simp⟩

/-- Every other step keeps `t.closed`, `closeCh` and the first closer; it reaches the rest
of `Close` only from inside it, makes `Close`'s effects only there, arms a timer only while
`t.closed` is false, starts no `write`, and ends a `Close` call with an error only in the
rest of the first `Close`. -/
theorem exec_other {pc : Pc} (hpc : pc ≠ .done) (h : ∀ d, pc = .close d → s.closed = true) :
    let s' := s.exec kind tid ok pc
    s'.closed = s.closed ∧ s'.closeCh = s.closeCh ∧ s'.firstCloser = s.firstCloser ∧
    ∃ (pc' : Pc) (es : List Effect), s'.threads = s.threads.set tid pc' ∧
      s'.log = s.log ++ es.map (Event.mk tid) ∧ (pc'.inClose → pc.inClose) ∧
      Effect.closeCh ∉ es ∧ Effect.writeStart ∉ es ∧ (∀ e ∈ es, e.ofClose → pc.inClose) ∧
      (∀ err, Effect.closeReturn err ∈ es → pc.inClose ∨ err = false ∧ s.closed = true) ∧
      (Effect.armTimer ∈ es → s.closed = false) := by
  rcases pc with d | _ | _ | _ | _ | _ | _ | n | (_ | n) | _
  case done => exact absurd rfl hpc
  · simp only [exec]
    rw [if_pos (h d rfl)]
    exact ⟨rfl, rfl, rfl, _, _, rfl, rfl, by simp [Pc.inClose, Effect.ofClose, h d rfl]⟩
  all_goals simp only [exec]
  all_goals (try split_ifs) <;>
    exact ⟨rfl, rfl, rfl, _, _, rfl, rfl, by simp_all [Pc.inClose, Effect.ofClose]⟩

/-- A `write` that finds `closeCh` closed returns at once. -/
theorem exec_write_closed {n : Nat} (h : s.closeCh = true) :
    s.exec kind tid ok (.write n) = s.goto tid .done [] := by
  simp [exec, h]

end TransportState

/-! ## The invariant -/

/-- In the log, an event satisfying `b` comes after one satisfying `a`. -/
def Later (log : List Event) (a b : Event → Prop) : Prop :=
  ∃ pre post, log = pre ++ post ∧ (∃ e ∈ pre, a e) ∧ ∃ e ∈ post, b e

/-- An event that is later in a longer log is later in the shorter one, or it is new. -/
theorem later_append {l new : List Event} {a b : Event → Prop} (h : Later (l ++ new) a b) :
    Later l a b ∨ (∃ e ∈ l ++ new, a e) ∧ ∃ e ∈ new, b e := by
  obtain ⟨pre, post, heq, ⟨x, hx, ha⟩, y, hy, hb⟩ := h
  rcases List.append_eq_append_iff.1 heq with ⟨m, rfl, rfl⟩ | ⟨c, rfl, rfl⟩
  · exact .inr ⟨⟨x, by simp_all; tauto, ha⟩, y, by simp_all, hb⟩
  · rcases List.mem_append.1 hy with hy | hy
    · exact .inl ⟨pre, c, rfl, ⟨x, hx, ha⟩, y, hy, hb⟩
    · exact .inr ⟨⟨x, by simp_all, ha⟩, y, hy, hb⟩

theorem Later.exists_left {log : List Event} {a b : Event → Prop} (h : Later log a b) :
    ∃ e ∈ log, a e := by
  obtain ⟨pre, post, rfl, ⟨e, he, ha⟩, -⟩ := h
  exact ⟨e, List.mem_append_left post he, ha⟩

theorem Later.exists_right {log : List Event} {a b : Event → Prop} (h : Later log a b) :
    ∃ e ∈ log, b e := by
  obtain ⟨pre, post, rfl, -, e, he, hb⟩ := h
  exact ⟨e, List.mem_append_right pre he, hb⟩

theorem mem_append_map_mk {e : Event} {l : List Event} {t : Nat} {es : List Effect} :
    e ∈ l ++ es.map (Event.mk t) ↔ e ∈ l ∨ e.tid = t ∧ e.effect ∈ es := by
  rcases e with ⟨tid, eff⟩
  simp only [List.mem_append, List.mem_map, Event.mk.injEq]
  refine or_congr_right ⟨?_, ?_⟩
  · rintro ⟨a, ha, rfl, rfl⟩
    exact ⟨rfl, ha⟩
  · rintro ⟨rfl, h⟩
    exact ⟨_, h, rfl, rfl⟩

theorem countP_closeCh_map_mk {t : Nat} {es : List Effect} (h : Effect.closeCh ∉ es) :
    (es.map (Event.mk t)).countP (·.effect = .closeCh) = 0 := by
  simp only [List.countP_eq_zero, List.mem_map]
  rintro _ ⟨e, he, rfl⟩
  simp only [decide_eq_true_eq]
  rintro rfl
  exact h he

theorem getElem?_append_singleton {α : Type} {l : List α} {a b : α} {t : Nat}
    (h : (l ++ [a])[t]? = some b) : l[t]? = some b ∨ t = l.length ∧ b = a := by
  rcases Nat.lt_or_ge t l.length with hlt | hge
  · rw [List.getElem?_append_left hlt] at h
    exact .inl h
  · rw [List.getElem?_append_right hge] at h
    cases hk : t - l.length <;> simp_all
    omega

theorem getElem?_set_some {α : Type} {l : List α} {i j : Nat} {a b : α}
    (h : (l.set i a)[j]? = some b) : j = i ∧ b = a ∨ j ≠ i ∧ l[j]? = some b := by
  rw [List.getElem?_set] at h
  split_ifs at h with h1 <;> simp_all [eq_comm]

namespace TransportState

/-- What holds of every reachable state. -/
structure Inv (s : TransportState) : Prop where
  closeCh_eq : s.closeCh = s.closed
  firstCloser_eq_none : s.firstCloser = none ↔ s.closed = false
  count_closeCh : s.log.countP (·.effect = .closeCh) = if s.closed then 1 else 0
  ofClose_first : ∀ e ∈ s.log, e.effect.ofClose → s.firstCloser = some e.tid
  return_nil : ∀ e ∈ s.log, ∀ err, e.effect = .closeReturn err →
    s.firstCloser = some e.tid ∨ err = false
  closed_of_return : ∀ e ∈ s.log, ∀ err, e.effect = .closeReturn err → s.closed = true
  inClose_first : ∀ t pc, s.threads[t]? = some pc → pc.inClose → s.firstCloser = some t
  tid_lt : ∀ e ∈ s.log, e.tid < s.threads.length
  not_late_arm : ¬ Later s.log (·.effect = .closeCh) (·.effect = .armTimer)
  late_write : ∀ t, Later s.log (·.effect = .closeCh) (· = ⟨t, .writeStart⟩) →
    (s.threads[t]? = some .done ∨ ∃ n, s.threads[t]? = some (.write n)) ∧
    ∀ e ∈ s.log, e.tid = t → e.effect = .writeStart

variable {s : TransportState}

theorem Inv.closed_of_closeCh (h : s.Inv) (he : ∃ e ∈ s.log, e.effect = .closeCh) :
    s.closed = true := by
  have := h.count_closeCh
  have hpos : 0 < s.log.countP (·.effect = .closeCh) := List.countP_pos_iff.2 (by simpa using he)
  split at this <;> simp_all

theorem Inv.closed_of_firstCloser (h : s.Inv) {t : Nat} (hf : s.firstCloser = some t) :
    s.closed = true := by
  cases hc : s.closed
  · simp [h.firstCloser_eq_none.2 hc] at hf
  · rfl

theorem inv_init : init.Inv where
  closeCh_eq := rfl
  firstCloser_eq_none := by simp [init]
  count_closeCh := rfl
  ofClose_first := by simp [init]
  return_nil := by simp [init]
  closed_of_return := by simp [init]
  inClose_first := by simp [init]
  tid_lt := by simp [init]
  not_late_arm h := absurd h.exists_left (by simp [init])
  late_write _ h := absurd h.exists_left (by simp [init])

/-- A timer that fires or is stopped leaves the invariant as it is. -/
theorem Inv.eraseTimer (h : s.Inv) (id : Nat) : Inv { s with timers := s.timers.erase id } := by
  obtain ⟨⟩ := h
  constructor <;> assumption

/-- A goroutine that starts outside the rest of `Close`, with no effect, or with
`writeStart` when it is a `write`, keeps the invariant. -/
theorem Inv.spawn (h : s.Inv) {pc : Pc} (hpc : pc.inClose = false) {es : List Effect}
    (hes : es = [] ∨ ∃ n, pc = .write n ∧ es = [.writeStart]) : (s.spawn pc es).Inv := by
  have hnew : ∀ e ∈ es, e = .writeStart := by rcases hes with rfl | ⟨n, -, rfl⟩ <;> simp
  have hlog : ∀ {e}, e ∈ (s.spawn pc es).log →
      e ∈ s.log ∨ e.tid = s.threads.length ∧ e.effect = .writeStart := fun he =>
    (mem_append_map_mk.1 he).imp_right fun ⟨h1, h2⟩ => ⟨h1, hnew _ h2⟩
  refine ⟨h.closeCh_eq, h.firstCloser_eq_none, ?_, fun e he hc => ?_, fun e he err hr => ?_,
    fun e he err hr => ?_, fun t pc' ht hc => ?_, fun e he => ?_, fun hl => ?_, fun t hl => ?_⟩
  · rw [spawn_log, List.countP_append, countP_closeCh_map_mk fun hc => nomatch hnew _ hc]
    exact h.count_closeCh
  · rcases hlog he with he | ⟨-, he'⟩
    · exact h.ofClose_first e he hc
    · simp [he', Effect.ofClose] at hc
  · rcases hlog he with he | ⟨-, he'⟩
    · exact h.return_nil e he err hr
    · simp [he'] at hr
  · rcases hlog he with he | ⟨-, he'⟩
    · exact h.closed_of_return e he err hr
    · simp [he'] at hr
  · rcases getElem?_append_singleton ht with ht | ⟨-, rfl⟩
    · exact h.inClose_first t pc' ht hc
    · simp [hpc] at hc
  · rcases hlog he with he | ⟨he, -⟩ <;> simp only [spawn_threads, List.length_append]
    · exact Nat.lt_succ_of_lt (h.tid_lt e he)
    · simp [he]
  · rcases later_append hl with hl | ⟨-, e, he, he'⟩
    · exact h.not_late_arm hl
    · obtain ⟨a, ha, rfl⟩ := List.mem_map.1 he
      simp [hnew a ha] at he'
  · rcases later_append hl with hl | ⟨-, e, he, rfl⟩
    · have ht : t < s.threads.length := by
        obtain ⟨e, he, rfl⟩ := hl.exists_right
        exact h.tid_lt _ he
      obtain ⟨hpc', hev⟩ := h.late_write t hl
      exact ⟨by simpa [List.getElem?_append_left ht] using hpc',
        fun e he het => (hlog he).elim (hev e · het) (·.2)⟩
    · obtain ⟨a, ha, hat⟩ := List.mem_map.1 he
      obtain ⟨rfl, -⟩ := Event.mk.inj hat
      rcases hes with rfl | ⟨n, rfl, -⟩
      · simp at ha
      · exact ⟨.inr ⟨n, by simp⟩,
          fun e he het => (hlog he).elim (fun he => absurd het (h.tid_lt e he).ne) (·.2)⟩

section Exec

variable {kind : Kind} {tid : Nat} {ok : Bool}

/-- A step of goroutine `tid` keeps every event's goroutine among those started. -/
theorem Inv.tid_lt_goto (h : s.Inv) {pc pc' : Pc} (ht : s.threads[tid]? = some pc)
    {s' : TransportState} {es : List Effect} (hth : s'.threads = s.threads.set tid pc')
    (hlog : s'.log = s.log ++ es.map (Event.mk tid)) : ∀ e ∈ s'.log, e.tid < s'.threads.length := by
  intro e he
  rw [hlog, mem_append_map_mk] at he
  rw [hth, List.length_set]
  rcases he with he | ⟨het, -⟩
  · exact h.tid_lt e he
  · rw [het]
    exact (List.getElem?_eq_some_iff.1 ht).1

/-- The first `Close`'s critical section keeps the invariant. -/
theorem Inv.exec_first (h : s.Inv) {d : Bool} (ht : s.threads[tid]? = some (.close d))
    (hc : s.closed = false) : (s.exec kind tid ok (.close d)).Inv := by
  obtain ⟨h1, h2, h3, pc', es, hth, hlog, hin, hes⟩ := @TransportState.exec_first kind s tid ok d hc
  have hnone : s.firstCloser = none := h.firstCloser_eq_none.2 hc
  have hes' : ∀ e ∈ es, e.ofClose ∧ (e = .closeCh ∨ e = .stopTimer) := by
    rcases hes with rfl | rfl <;> simp [Effect.ofClose]
  have hno : ¬ ∃ e ∈ s.log, e.effect = .closeCh := fun he => by
    simp [h.closed_of_closeCh he] at hc
  refine ⟨by rw [h1, h2], by simp [h1, h3], ?_, fun e he hof => ?_, fun e he err hr => ?_,
    fun _ _ _ _ => h1, fun t p htp hp => ?_, h.tid_lt_goto ht hth hlog, fun hl => ?_,
    fun t hl => ?_⟩
  · rw [hlog, h1, List.countP_append, h.count_closeCh]
    rcases hes with rfl | rfl <;> simp [hc]
  · rw [hlog, mem_append_map_mk] at he
    rcases he with he | ⟨het, -⟩
    · simpa [hnone] using h.ofClose_first e he hof
    · rw [h3, het]
  · rw [hlog, mem_append_map_mk] at he
    rcases he with he | ⟨-, he⟩
    · exact .inr (by simpa [hnone] using h.return_nil e he err hr)
    · simpa [hr, Effect.ofClose] using (hes' _ he).1
  · rw [hth] at htp
    rcases getElem?_set_some htp with ⟨rfl, -⟩ | ⟨-, htp⟩
    · exact h3
    · simpa [hnone] using h.inClose_first t p htp hp
  · rw [hlog] at hl
    rcases later_append hl with hl | ⟨-, e, he, harm⟩
    · exact h.not_late_arm hl
    · obtain ⟨a, ha, rfl⟩ := List.mem_map.1 he
      rcases (hes' a ha).2 with rfl | rfl <;> simp at harm
  · rw [hlog] at hl
    rcases later_append hl with hl | ⟨-, e, he, rfl⟩
    · exact absurd hl.exists_left hno
    · obtain ⟨a, ha, hat⟩ := List.mem_map.1 he
      obtain ⟨-, rfl⟩ := Event.mk.inj hat
      simpa [Effect.ofClose] using (hes' _ ha).1

/-- Every other step of a goroutine keeps the invariant. -/
theorem Inv.exec_other (h : s.Inv) {pc : Pc} (ht : s.threads[tid]? = some pc) (hpc : pc ≠ .done)
    (hcl : ∀ d, pc = .close d → s.closed = true) : (s.exec kind tid ok pc).Inv := by
  obtain ⟨h1, h2, h3, pc', es, hth, hlog, hin, hcc, hws, hof, hret, harm⟩ :=
    @TransportState.exec_other kind s tid ok pc hpc hcl
  have htid : tid < s.threads.length := (List.getElem?_eq_some_iff.1 ht).1
  refine ⟨by rw [h1, h2, h.closeCh_eq], by rw [h1, h3, h.firstCloser_eq_none], ?_,
    fun e he hofc => ?_, fun e he err hr => ?_, fun e he err hr => ?_, fun t p htp hp => ?_,
    h.tid_lt_goto ht hth hlog, fun hl => ?_, fun t hl => ?_⟩
  · rw [hlog, h1, List.countP_append, countP_closeCh_map_mk hcc, h.count_closeCh]
    rfl
  · rw [hlog, mem_append_map_mk] at he
    rw [h3]
    rcases he with he | ⟨het, he⟩
    · exact h.ofClose_first e he hofc
    · rw [het]
      exact h.inClose_first tid pc ht (hof _ he hofc)
  · rw [hlog, mem_append_map_mk] at he
    rw [h3]
    rcases he with he | ⟨het, he⟩
    · exact h.return_nil e he err hr
    · rw [het]
      rw [hr] at he
      exact (hret err he).imp (h.inClose_first tid pc ht) (·.1)
  · rw [hlog, mem_append_map_mk] at he
    rw [h1]
    rcases he with he | ⟨-, he⟩
    · exact h.closed_of_return e he err hr
    · rw [hr] at he
      exact (hret err he).elim (fun hi => h.closed_of_firstCloser (h.inClose_first tid pc ht hi))
        (·.2)
  · rw [hth] at htp
    rw [h3]
    rcases getElem?_set_some htp with ⟨rfl, rfl⟩ | ⟨-, htp⟩
    · exact h.inClose_first _ pc ht (hin hp)
    · exact h.inClose_first t p htp hp
  · rw [hlog] at hl
    rcases later_append hl with hl | ⟨⟨e, he, hce⟩, e', he', harm'⟩
    · exact h.not_late_arm hl
    · obtain ⟨a, ha, rfl⟩ := List.mem_map.1 he'
      have hopen : s.closed = false := harm ((show a = .armTimer from harm') ▸ ha)
      rcases mem_append_map_mk.1 he with he | ⟨-, he⟩
      · simp [h.closed_of_closeCh ⟨e, he, hce⟩] at hopen
      · exact hcc (hce ▸ he)
  · rw [hlog] at hl
    rcases later_append hl with hl | ⟨-, e, he, rfl⟩
    · obtain ⟨hst, hev⟩ := h.late_write t hl
      have hcl' : s.closeCh = true := h.closeCh_eq ▸ h.closed_of_closeCh hl.exists_left
      by_cases htt : t = tid
      · subst htt
        rw [ht] at hst
        rcases hst with hst | ⟨n, hst⟩
        · exact absurd (Option.some.inj hst) hpc
        · cases hst
          rw [exec_write_closed hcl']
          exact ⟨.inl (by simp [htid]), by simpa using hev⟩
      · rw [hth, List.getElem?_set_ne (Ne.symm htt)]
        refine ⟨hst, fun e he het => ?_⟩
        rw [hlog, mem_append_map_mk] at he
        rcases he with he | ⟨het', -⟩
        · exact hev e he het
        · exact absurd (het.symm.trans het') htt
    · obtain ⟨a, ha, hat⟩ := List.mem_map.1 he
      obtain ⟨-, rfl⟩ := Event.mk.inj hat
      exact absurd ha hws

/-- Every enabled action keeps the invariant. -/
theorem Inv.step (h : s.Inv) {a : TransportAct} {s' : TransportState}
    (hs : s.step kind a = some s') : s'.Inv := by
  cases a with
  | close d => cases hs; exact h.spawn (by rfl) (.inl rfl)
  | addPing =>
    simp only [TransportState.step] at hs
    split at hs <;> cases hs
    exact h.spawn (by rfl) (.inl rfl)
  | write n => cases hs; exact h.spawn (by rfl) (.inr ⟨n, rfl, rfl⟩)
  | fire id =>
    simp only [TransportState.step] at hs
    split at hs <;> cases hs
    exact (h.eraseTimer id).spawn (by rfl) (.inl rfl)
  | step tid ok =>
    simp only [TransportState.step] at hs
    split at hs
    · cases hs
    · cases hs
    · rename_i pc hpc ht
      cases hs
      by_cases hf : ∃ d, pc = .close d ∧ s.closed = false
      · obtain ⟨d, rfl, hc⟩ := hf
        exact h.exec_first ht hc
      · exact h.exec_other ht hpc fun d hd => by simpa [hd] using hf

end Exec

/-! ## Every `Close` returns -/

section Returns

variable {kind : Kind} {tid : Nat} {ok : Bool}

/-- A goroutine that has not returned takes its step. -/
theorem step_step {pc : Pc} (ht : s.threads[tid]? = some pc) (hpc : pc ≠ .done) :
    s.step kind (.step tid ok) = some (s.exec kind tid ok pc) := by
  simp only [step, ht]

theorem goto_threads_self {pc pc' : Pc} {es : List Effect} (ht : s.threads[tid]? = some pc) :
    (s.goto tid pc' es).threads[tid]? = some pc' :=
  List.getElem?_set_self (List.getElem?_eq_some_iff.1 ht).1

/-- Running `n + 1` own steps of a goroutine that has not returned is its step, then the
other `n`. -/
theorem run_steps_succ {pc : Pc} (oks : Nat → Bool) (n : Nat) (ht : s.threads[tid]? = some pc)
    (hpc : pc ≠ .done) :
    s.run kind ((List.range (n + 1)).map fun i => .step tid (oks i)) =
      (s.exec kind tid (oks 0) pc).run kind ((List.range n).map fun i => .step tid (oks (i + 1))) := by
  rw [List.range_succ_eq_map, List.map_cons, List.map_map, run, step_step ht hpc, Option.some_bind]
  rfl

theorem ne_done_of_inClose {pc : Pc} (hpc : pc.inClose = true) : pc ≠ .done := by
  rintro rfl
  exact absurd hpc (by decide)

/-- A step in the rest of `Close` returns from it, or moves to a later place in it. -/
theorem exec_inClose {pc : Pc} (hpc : pc.inClose = true) :
    ∃ pc' es, s.exec kind tid ok pc = s.goto tid pc' es ∧
      ((pc' = .done ∧ ∃ err, Effect.closeReturn err ∈ es) ∨
        (pc'.inClose = true ∧ pc'.closeLeft < pc.closeLeft)) := by
  cases pc <;> simp only [Pc.inClose, Bool.false_eq_true] at hpc
  case closeMarshal =>
    cases ok
    · exact ⟨_, _, rfl, .inl ⟨rfl, _, List.mem_singleton_self _⟩⟩
    · cases kind <;> exact ⟨_, _, rfl, .inr ⟨rfl, by decide⟩⟩
  case closeFrame => exact ⟨_, _, rfl, .inr ⟨rfl, by decide⟩⟩
  case closeConn => exact ⟨_, _, rfl, .inl ⟨rfl, !ok, by simp⟩⟩

/-- The rest of a `Close`, run by its own steps whatever its calls return, ends the call
within `closeLeft` steps and leaves `closeCh` as it is. -/
theorem run_close_rest : ∀ (k : Nat) {s : TransportState} {pc : Pc} (oks : Nat → Bool),
    s.threads[tid]? = some pc → pc.inClose = true → pc.closeLeft ≤ k →
    ∃ n ≤ k, ∃ s', s.run kind ((List.range n).map fun i => .step tid (oks i)) = some s' ∧
      s'.threads[tid]? = some .done ∧ (∃ err, Event.mk tid (.closeReturn err) ∈ s'.log) ∧
      s'.closeCh = s.closeCh
  | 0, _, pc, _, _, hpc, hk => by cases pc <;> simp_all [Pc.inClose, Pc.closeLeft]
  | k + 1, s, pc, oks, ht, hpc, hk => by
    obtain ⟨pc', es, hex, ⟨rfl, err, herr⟩ | ⟨hin, hlt⟩⟩ := @exec_inClose s kind tid (oks 0) pc hpc
    · refine ⟨1, by omega, s.goto tid .done es, ?_, goto_threads_self ht, ⟨err, ?_⟩, rfl⟩
      · rw [run_steps_succ oks 0 ht (ne_done_of_inClose hpc), hex]
        rfl
      · exact List.mem_append_right _ (List.mem_map_of_mem _ herr)
    · obtain ⟨n, hn, s', hrun, hd, herr, hc⟩ :=
        run_close_rest k (fun i => oks (i + 1)) (goto_threads_self ht) hin (by omega)
      refine ⟨n + 1, by omega, s', ?_, hd, herr, hc⟩
      rw [run_steps_succ oks n ht (ne_done_of_inClose hpc), hex]
      exact hrun

/-- A `Close` that finds `t.closed` set returns nil at once, with no other effect. -/
theorem step_close_closed {d : Bool} (ht : s.threads[tid]? = some (.close d))
    (hc : s.closed = true) :
    s.step kind (.step tid ok) = some (s.goto tid .done [.closeReturn false]) := by
  rw [step_step ht (by simp)]
  simp only [exec, hc, if_true]

/-- From a state of the invariant, a goroutine at the start of `Close`, run by its own steps
whatever its calls return, returns within four steps, with `closeCh` closed. -/
theorem Inv.close_returns (h : s.Inv) {d : Bool} (oks : Nat → Bool)
    (ht : s.threads[tid]? = some (.close d)) :
    ∃ n ≤ 4, ∃ s', s.run kind ((List.range n).map fun i => .step tid (oks i)) = some s' ∧
      s'.threads[tid]? = some .done ∧ (∃ err, Event.mk tid (.closeReturn err) ∈ s'.log) ∧
      s'.closeCh = true := by
  cases hc : s.closed
  · obtain ⟨-, hcc, -, pc', es, hth, -, hin, -⟩ := @TransportState.exec_first kind s tid (oks 0) d hc
    have ht' : (s.exec kind tid (oks 0) (.close d)).threads[tid]? = some pc' := by
      rw [hth]
      exact List.getElem?_set_self (List.getElem?_eq_some_iff.1 ht).1
    obtain ⟨n, hn, s', hrun, hd, herr, hc'⟩ :=
      run_close_rest 3 (fun i => oks (i + 1)) ht' hin (by cases pc' <;> simp [Pc.closeLeft])
    refine ⟨n + 1, by omega, s', ?_, hd, herr, hc'.trans hcc⟩
    rw [run_steps_succ oks n ht (by simp)]
    exact hrun
  · refine ⟨1, by omega, s.goto tid .done [.closeReturn false], ?_, goto_threads_self ht,
      ⟨false, by simp⟩, h.closeCh_eq.trans hc⟩
    rw [run_steps_succ oks 0 ht (by simp)]
    simp only [exec, hc, if_true]
    rfl

end Returns

end TransportState

/-- The states some interleaving reaches from a new transport. -/
inductive TransportReachable (kind : Kind) : TransportState → Prop
  | init : TransportReachable kind .init
  | step {s s' : TransportState} (a : TransportAct) :
    TransportReachable kind s → s.step kind a = some s' → TransportReachable kind s'

theorem TransportReachable.run {kind : Kind} {s : TransportState} (h : TransportReachable kind s) :
    ∀ (acts : List TransportAct) {s' : TransportState}, s.run kind acts = some s' →
      TransportReachable kind s'
  | [], _, hr => by cases hr; exact h
  | a :: acts, _, hr => by
    simp only [TransportState.run, Option.bind_eq_some] at hr
    obtain ⟨s₁, h₁, h₂⟩ := hr
    exact (TransportReachable.step a h h₁).run acts h₂

theorem TransportState.inv_reachable {kind : Kind} {s : TransportState}
    (h : TransportReachable kind s) : s.Inv := by
  induction h with
  | init => exact inv_init
  | step _ _ hs ih => exact ih.step hs

/-- Over every interleaving of `Close` calls, ping timers, `addPing` and `write` calls on a
WebSocket or SockJS transport: `closeCh` has been closed once if `t.closed` is set and
never otherwise, and `t.closed` is set once a `Close` call has returned; every effect only
`Close` makes was made by the first `Close`, and every other `Close` returned nil; after
the first `Close` closed `closeCh`, no timer is armed, and no `write` that starts makes a
call on the connection. And every `Close` returns: run by its own steps, whatever its calls
return, it ends within four steps with `closeCh` closed exactly once; one that finds
`t.closed` set returns nil at its first step, with no other effect. -/
theorem close_once {kind : Kind} {s : TransportState} (h : TransportReachable kind s) :
    s.log.countP (·.effect = .closeCh) = (if s.closed then 1 else 0) ∧
    (∀ e ∈ s.log, e.effect.ofClose → s.firstCloser = some e.tid) ∧
    (∀ e ∈ s.log, ∀ err, e.effect = .closeReturn err →
      s.closed = true ∧ (s.firstCloser ≠ some e.tid → err = false)) ∧
    ¬ Later s.log (·.effect = .closeCh) (·.effect = .armTimer) ∧
    (∀ t, Later s.log (·.effect = .closeCh) (· = ⟨t, .writeStart⟩) →
      ∀ e ∈ s.log, e.tid = t → ∀ op, e.effect ≠ .conn op) ∧
    (∀ tid d (oks : Nat → Bool), s.threads[tid]? = some (.close d) →
      ∃ n ≤ 4, ∃ s', s.run kind ((List.range n).map fun i => .step tid (oks i)) = some s' ∧
        s'.threads[tid]? = some .done ∧ (∃ err, Event.mk tid (.closeReturn err) ∈ s'.log) ∧
        s'.closeCh = true ∧ s'.log.countP (·.effect = .closeCh) = 1) ∧
    ∀ tid d ok, s.threads[tid]? = some (.close d) → s.closed = true →
      s.step kind (.step tid ok) = some (s.goto tid .done [.closeReturn false]) := by
  have hi := TransportState.inv_reachable h
  refine ⟨hi.count_closeCh, hi.ofClose_first, fun e he err hr =>
    ⟨hi.closed_of_return e he err hr, (hi.return_nil e he err hr).resolve_left⟩,
    hi.not_late_arm, fun t hl e he het op hop => ?_, fun tid d oks ht => ?_,
    fun tid d ok ht hc => TransportState.step_close_closed ht hc⟩
  · simp [(hi.late_write t hl).2 e he het] at hop
  · obtain ⟨n, hn, s', hrun, hd, herr, hcc⟩ :=
      @TransportState.Inv.close_returns s kind tid hi d oks ht
    have hi' := TransportState.inv_reachable (h.run _ hrun)
    refine ⟨n, hn, s', hrun, hd, herr, hcc, ?_⟩
    rw [hi'.count_closeCh, ← hi'.closeCh_eq, hcc, if_pos rfl]

/-- A WebSocket transport with a ping timer armed and a `write` started: two `Close` calls,
the first with a `Disconnect` and run to its end, the second yet to take its step; the
`write` reaches its `select` in between. -/
theorem close_once_run :
    ∃ s, TransportState.init.run .websocket
      [.addPing, .step 0 true, .write 2, .close true, .step 2 true, .close false,
        .step 1 true, .step 2 true, .step 2 true, .step 2 true] = some s ∧
    s.log.countP (·.effect = .closeCh) = (if s.closed then 1 else 0) ∧
    (∀ e ∈ s.log, e.effect.ofClose → s.firstCloser = some e.tid) ∧
    (∀ e ∈ s.log, ∀ err, e.effect = .closeReturn err →
      s.closed = true ∧ (s.firstCloser ≠ some e.tid → err = false)) ∧
    ¬ Later s.log (·.effect = .closeCh) (·.effect = .armTimer) ∧
    (∀ t, Later s.log (·.effect = .closeCh) (· = ⟨t, .writeStart⟩) →
      ∀ e ∈ s.log, e.tid = t → ∀ op, e.effect ≠ .conn op) ∧
    (∀ tid d (oks : Nat → Bool), s.threads[tid]? = some (.close d) →
      ∃ n ≤ 4, ∃ s', s.run .websocket ((List.range n).map fun i => .step tid (oks i)) = some s' ∧
        s'.threads[tid]? = some .done ∧ (∃ err, Event.mk tid (.closeReturn err) ∈ s'.log) ∧
        s'.closeCh = true ∧ s'.log.countP (·.effect = .closeCh) = 1) ∧
    ∀ tid d ok, s.threads[tid]? = some (.close d) → s.closed = true →
      s.step .websocket (.step tid ok) = some (s.goto tid .done [.closeReturn false]) :=
  ⟨_, rfl, close_once ((@TransportReachable.init .websocket).run [.addPing, .step 0 true,
    .write 2, .close true, .step 2 true, .close false, .step 1 true, .step 2 true,
    .step 2 true, .step 2 true] rfl)⟩

end Centrifuge.Transport
