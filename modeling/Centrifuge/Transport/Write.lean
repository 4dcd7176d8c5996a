import Centrifuge.Transport.Writer

/-!
# `websocketTransport.write` and `sockjsTransport.write`

The writer routine hands each batch to the transport's `write`. On a WebSocket it is
one frame: `NextWriter`, one `Write` per payload, then `Close` of the frame writer; any
failure closes the transport. On SockJS each payload is one `session.Send`.

What the connection answers is the environment: `WsConn` gives the outcome of
`NextWriter`, of the `i`-th `Write` and of the frame's `Close`, so every sequence of
outcomes is covered. Each run returns the calls made in order, how it ended and what it
added to the two metrics. The payoff is

> `websocketTransport_write_result`: with `closeCh` closed, `write` returns nil and makes
> no call; otherwise, once `NextWriter` succeeds and `Write` is short only with an error,
> it returns nil exactly when every payload went whole into the one frame and the frame
> closed, and in every other case it closes the transport and returns an error.

Both loops add `len(data)`, the number of payloads, to the bytes counter once per payload,
where the payload's own length is meant: a batch of `n` payloads sent whole adds `n` to
`transportMessagesSent` and `n * n` to `transportBytesOut`, whatever the payloads hold
(`websocketTransport_write_metrics`, `sockjsTransport_write_metrics`).

Mirroring notes vs the Go source:
- After a failed `NextWriter` the code calls `t.Close` and goes on: the next call, `Write`
  or `Close` of the frame writer, is made on the nil writer `NextWriter` returned, which
  panics (`nextWriter_failed`).
- The counters are `float64` in Go; the amounts added are counts of bytes and payloads,
  exact as naturals.
-/

namespace Centrifuge.Transport

open Centrifuge.Control (Bytes)

/-- An error value, by its text. -/
abbrev GoError := String

/-- `proto.Encoding`. -/
inductive Encoding
  | json
  | protobuf
deriving DecidableEq, Repr

/-- `websocket.TextMessage` and `websocket.BinaryMessage`. -/
inductive MessageType
  | text
  | binary
deriving DecidableEq, Repr

/-- The fields of `websocketTransportOptions` that `write` reads. -/
structure WsOptions where
  enc : Encoding
  writeTimeout : Int
  compressionMinSize : Int
deriving DecidableEq, Repr

/-- What the connection and the frame writer answer. -/
structure WsConn where
  /-- `t.conn.NextWriter(messageType)`: its error, if any. -/
  nextWriter : Option GoError
  /-- The `i`-th `writer.Write(payload)`: the count written and the error. -/
  write : Nat → Bytes → Nat × Option GoError
  /-- `writer.Close()`: its error, if any. -/
  close : Option GoError

/-- A call `write` makes. -/
inductive WsCall
  /-- `t.conn.EnableWriteCompression(enable)`. -/
  | enableWriteCompression (enable : Bool)
  /-- `t.conn.SetWriteDeadline(…)`: a deadline, or `time.Time{}` to clear it. -/
  | setWriteDeadline (clear : Bool)
  | nextWriter (messageType : MessageType)
  /-- `writer.Write(payload)`. -/
  | frameWrite (payload : Bytes)
  /-- `writer.Close()`. -/
  | frameClose
  /-- `t.Close(disconnect)`. -/
  | close (d : Disconnect)
  /-- `t.session.Send(string(payload))`. -/
  | send (payload : Bytes)
deriving DecidableEq, Repr

/-- How a `write` call ends: it returns its error, or it calls a method on the nil frame
writer and panics. -/
inductive WriteEnd
  | returned (err : Option GoError)
  | nilWriter
deriving DecidableEq, Repr

/-- A `write` call: the calls made, in order, how it ended, and what it added to
`transportMessagesSent` and `transportBytesOut`. -/
structure WriteRun where
  calls : List WsCall
  ending : WriteEnd
  messagesSent : Nat
  bytesOut : Nat
deriving DecidableEq, Repr

/-- The `Disconnect` a failed send closes the transport with. -/
def errorSendingMessage : Disconnect := ⟨"error sending message", true⟩

/-- `t.Encoding()` picks the message type. -/
def WsOptions.messageType (opts : WsOptions) : MessageType :=
  if opts.enc = .protobuf then .binary else .text

/-- The calls before `NextWriter`. -/
def WsOptions.prepare (opts : WsOptions) (data : List Bytes) : List WsCall :=
  (if opts.compressionMinSize > 0 then
    [.enableWriteCompression ((data.length : Int) > opts.compressionMinSize)] else []) ++
  (if opts.writeTimeout > 0 then [.setWriteDeadline false] else [])

/-- The `for _, payload := range data` loop from the `i`-th payload, with `bytesOut` so far
and `n = len(data)`: the calls made, then `bytesOut` when the loop ends, or the error it
returns. -/
def writePayloads (conn : WsConn) (n : Nat) :
    Nat → Nat → List Bytes → List WsCall × Except (Option GoError) Nat
  | _, bytesOut, [] => ([], .ok bytesOut)
  | i, bytesOut, payload :: rest =>
    let (k, err) := conn.write i payload
    if k ≠ payload.length ∨ err.isSome then
      ([.frameWrite payload, .close errorSendingMessage], .error err)
    else
      let (calls, r) := writePayloads conn n (i + 1) (bytesOut + n) rest
      (.frameWrite payload :: calls, r)

/-- `websocketTransport.write(data...)`, with whether `t.closeCh` is closed. -/
def websocketTransport.write (opts : WsOptions) (conn : WsConn) (closeCh : Bool)
    (data : List Bytes) : WriteRun :=
  if closeCh then ⟨[], .returned none, 0, 0⟩
  else
    let pre := opts.prepare data ++ [.nextWriter opts.messageType]
    match conn.nextWriter with
    | some _ =>
      ⟨pre ++ [.close errorSendingMessage,
        match data with | p :: _ => .frameWrite p | [] => .frameClose], .nilWriter, 0, 0⟩
    | none =>
      match writePayloads conn data.length 0 0 data with
      | (calls, .error err) => ⟨pre ++ calls, .returned err, 0, 0⟩
      | (calls, .ok bytesOut) =>
        match conn.close with
        | some err => ⟨pre ++ calls ++ [.frameClose, .close errorSendingMessage], .returned (some err), 0, 0⟩
        | none =>
          ⟨pre ++ calls ++ .frameClose :: (if opts.writeTimeout > 0 then [.setWriteDeadline true] else []),
            .returned none, data.length, bytesOut⟩

/-- With `closeCh` closed, a batch is dropped: `write` returns nil and writes nothing. -/
theorem websocketTransport_write_closed_cases :
    let r := websocketTransport.write ⟨.json, 0, 0⟩ ⟨none, fun _ p => (p.length, none), none⟩ true
      [[1]]
    r.ending = .returned none ∧ WsCall.frameWrite [1] ∉ r.calls :=
  ⟨rfl, by simp [websocketTransport.write]⟩

/-- The `for _, payload := range data` loop of `sockjsTransport.write`, where `send` is the
`i`-th `t.session.Send`'s error and `n = len(data)`. -/
def sockjsSend (send : Nat → Bytes → Option GoError) (n : Nat) : Nat → List Bytes → WriteRun
  | _, [] => ⟨[], .returned none, 0, 0⟩
  | i, payload :: rest =>
    match send i payload with
    | some err => ⟨[.send payload, .close errorSendingMessage], .returned (some err), 1, n⟩
    | none =>
      let r := sockjsSend send n (i + 1) rest
      { r with calls := .send payload :: r.calls, messagesSent := r.messagesSent + 1,
               bytesOut := r.bytesOut + n }

/-- `sockjsTransport.write(data...)`, with whether `t.closeCh` is closed. -/
def sockjsTransport.write (send : Nat → Bytes → Option GoError) (closeCh : Bool)
    (data : List Bytes) : WriteRun :=
  if closeCh then ⟨[], .returned none, 0, 0⟩ else sockjsSend send data.length 0 data

/-! ## One frame -/

/-- Every payload, from the `i`-th `Write` on, is written whole and without an error. -/
def WsConn.writesWhole (conn : WsConn) : Nat → List Bytes → Prop
  | _, [] => True
  | i, p :: rest => conn.write i p = (p.length, none) ∧ conn.writesWhole (i + 1) rest

/-- `Write` is short only with an error, as `io.Writer` asks. -/
def WsConn.ShortOnlyWithError (conn : WsConn) : Prop :=
  ∀ i p, (conn.write i p).1 ≠ p.length → (conn.write i p).2.isSome

/-- When every payload is written whole, the loop writes them all into the frame and adds
`len(data)` to `bytesOut` per payload. -/
theorem writePayloads_writesWhole {conn : WsConn} (n : Nat) :
    ∀ (data : List Bytes) (i bytesOut : Nat), conn.writesWhole i data →
      writePayloads conn n i bytesOut data =
        (data.map .frameWrite, .ok (bytesOut + n * data.length))
  | [], _, _, _ => by simp [writePayloads]
  | p :: rest, i, b, ⟨hp, hrest⟩ => by
    simp [writePayloads, hp, writePayloads_writesWhole n rest (i + 1) (b + n) hrest, Nat.mul_succ]
    omega

/-- The loop writes every payload into the frame when each is written whole, adding
`len(data)` to `bytesOut` per payload; otherwise it closes the transport and returns the
failed `Write`'s error, which is not nil. -/
theorem writePayloads_spec {conn : WsConn} (hw : conn.ShortOnlyWithError) (n : Nat) :
    ∀ (data : List Bytes) (i bytesOut : Nat),
      (conn.writesWhole i data → writePayloads conn n i bytesOut data =
        (data.map .frameWrite, .ok (bytesOut + n * data.length))) ∧
      (¬ conn.writesWhole i data → ∃ calls err,
        writePayloads conn n i bytesOut data = (calls, .error (some err)) ∧
        .close errorSendingMessage ∈ calls)
  | [], _, _ => ⟨writePayloads_writesWhole n [] _ _, fun h => absurd trivial h⟩
  | p :: rest, i, b => by
    refine ⟨writePayloads_writesWhole n _ i b, fun hn => ?_⟩
    rcases hc : conn.write i p with ⟨k, err⟩
    by_cases hbad : k ≠ p.length ∨ err.isSome
    · have hsome : err.isSome :=
        hbad.elim (fun hk => by simpa [hc] using hw i p (by rw [hc]; exact hk)) id
      obtain ⟨e, rfl⟩ := Option.isSome_iff_exists.1 hsome
      exact ⟨[.frameWrite p, .close errorSendingMessage], e,
        by simp only [writePayloads, hc, if_pos hbad], by simp⟩
    · obtain ⟨rfl, rfl⟩ : k = p.length ∧ err = none := by simpa using hbad
      obtain ⟨calls, err, he, hm⟩ :=
        (writePayloads_spec hw n rest (i + 1) (b + n)).2 fun h => hn ⟨hc, h⟩
      exact ⟨.frameWrite p :: calls, err, by simp only [writePayloads, hc, if_neg hbad, he],
        List.mem_cons_of_mem _ hm⟩

/-- For every batch and every outcome of the connection's calls, where `Write` is short
only with an error: with `closeCh` closed, `write` returns nil and makes no call; with it
open and `NextWriter` successful, `write` returns nil exactly when every payload was
written whole and the frame closed without an error, and then it made one frame of all the
payloads in order; in every other case it closed the transport and returns an error. -/
theorem websocketTransport_write_result (opts : WsOptions) (conn : WsConn) (data : List Bytes)
    (hw : conn.ShortOnlyWithError) :
    websocketTransport.write opts conn true data = ⟨[], .returned none, 0, 0⟩ ∧
    (conn.nextWriter = none →
      let r := websocketTransport.write opts conn false data
      (r.ending = .returned none ↔ conn.writesWhole 0 data ∧ conn.close = none) ∧
      (r.ending = .returned none → r.calls = opts.prepare data ++ .nextWriter opts.messageType ::
          data.map .frameWrite ++ .frameClose ::
          (if opts.writeTimeout > 0 then [.setWriteDeadline true] else [])) ∧
      (r.ending ≠ .returned none →
        (∃ err, r.ending = .returned (some err)) ∧ .close errorSendingMessage ∈ r.calls)) := by
  refine ⟨rfl, fun hn => ?_⟩
  obtain ⟨h1, h2⟩ := writePayloads_spec hw data.length data 0 0
  by_cases hs : conn.writesWhole 0 data
  · cases hc : conn.close <;> simp [websocketTransport.write, hn, h1 hs, hc, hs]
  · obtain ⟨calls, err, he, hm⟩ := h2 hs
    simp [websocketTransport.write, hn, he, hs, hm]

/-- A protobuf batch of two payloads on a connection where every call succeeds. -/
theorem websocketTransport_write_result_frame :
    (⟨none, fun _ p => (p.length, none), none⟩ : WsConn).ShortOnlyWithError ∧
    (websocketTransport.write ⟨.protobuf, 1, 0⟩ ⟨none, fun _ p => (p.length, none), none⟩ false
      [[1, 2], [3]]).ending = .returned none :=
  have hw : (⟨none, fun _ p => (p.length, none), none⟩ : WsConn).ShortOnlyWithError :=
    fun _ _ h => absurd rfl h
  ⟨hw, ((websocketTransport_write_result ⟨.protobuf, 1, 0⟩ _ [[1, 2], [3]] hw).2 rfl).1.2
    ⟨⟨rfl, rfl, trivial⟩, rfl⟩⟩

/-- After a failed `NextWriter`, `write` closes the transport and goes on to call `Write`
or `Close` on the nil frame writer, which panics. -/
theorem nextWriter_failed (opts : WsOptions) (conn : WsConn) (data : List Bytes) {e : GoError}
    (hn : conn.nextWriter = some e) :
    let r := websocketTransport.write opts conn false data
    r.ending = .nilWriter ∧ ∃ c, (c = .frameClose ∨ ∃ p ∈ data, c = .frameWrite p) ∧
      r.calls = opts.prepare data ++ [.nextWriter opts.messageType, .close errorSendingMessage, c] := by
  cases data <;> simp [websocketTransport.write, hn]

/-! ## What `write` adds to the metrics -/

/-- A batch sent whole in one frame adds its number of payloads to `transportMessagesSent`
and, per payload, that number again to `transportBytesOut`. -/
theorem websocketTransport_write_metrics (opts : WsOptions) (conn : WsConn) (data : List Bytes)
    (hn : conn.nextWriter = none) (hw : conn.writesWhole 0 data) (hc : conn.close = none) :
    let r := websocketTransport.write opts conn false data
    r.ending = .returned none ∧ r.messagesSent = data.length ∧
      r.bytesOut = data.length * data.length := by
  simp [websocketTransport.write, hn, writePayloads_writesWhole data.length data 0 0 hw, hc]

/-- The `Send` loop, once every `Send` succeeded, has counted each payload once in
`transportMessagesSent` and added `n` to `transportBytesOut` per payload. -/
theorem sockjsSend_metrics (send : Nat → Bytes → Option GoError) (n : Nat) :
    ∀ (i : Nat) (data : List Bytes), (sockjsSend send n i data).ending = .returned none →
      (sockjsSend send n i data).messagesSent = data.length ∧
      (sockjsSend send n i data).bytesOut = n * data.length
  | _, [] => fun _ => ⟨rfl, rfl⟩
  | i, p :: rest => by
    unfold sockjsSend
    split
    · exact fun h => nomatch h
    · intro h
      obtain ⟨h1, h2⟩ := sockjsSend_metrics send n (i + 1) rest h
      exact ⟨by simp [h1], by simp [h2, Nat.mul_succ]⟩

/-- A batch every `Send` of which succeeded adds its number of payloads to
`transportMessagesSent` and, per payload, that number again to `transportBytesOut`. -/
theorem sockjsTransport_write_metrics (send : Nat → Bytes → Option GoError) (data : List Bytes)
    (hs : (sockjsTransport.write send false data).ending = .returned none) :
    let r := sockjsTransport.write send false data
    r.messagesSent = data.length ∧ r.bytesOut = data.length * data.length :=
  sockjsSend_metrics send data.length 0 data hs

/-- One payload of three bytes, sent whole: each transport adds 1 to `transportBytesOut`,
where the payload's length is 3. -/
theorem write_bytesOut_one_payload :
    let data : List Bytes := [[1, 2, 3]]
    let ws := websocketTransport.write ⟨.json, 0, 0⟩ ⟨none, fun _ p => (p.length, none), none⟩
      false data
    let sj := sockjsTransport.write (fun _ _ => none) false data
    (data.map List.length).sum = 3 ∧
    ws.ending = .returned none ∧ ws.messagesSent = 1 ∧ ws.bytesOut = 1 ∧
    sj.ending = .returned none ∧ sj.messagesSent = 1 ∧ sj.bytesOut = 1 :=
  ⟨rfl, rfl, rfl, rfl, rfl, rfl, rfl⟩

end Centrifuge.Transport
