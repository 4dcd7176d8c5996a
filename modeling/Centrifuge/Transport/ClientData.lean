import Centrifuge.Transport.Writer

/-!
# `handleClientData` and the reader loops

Each WebSocket or SockJS connection has one reader goroutine: it reads frame after
frame and hands each to `handleClientData`, and stops at the first read error or the
first `false`. `handleClientData` decodes the frame's commands one by one, passes
each to `Client.Handle`, encodes the replies, and writes them as one frame. It returns
false, after closing the transport or the client, on an empty frame, a decode error,
a command with ID 0, a `Disconnect` from `Handle`, a reply that does not encode, or
a `slow` verdict from the writer.

What the code cannot see inside (the codec, `Handle`, the writer's verdict and the
`proto` constants) is the environment `Env`; each behaviour may depend on the
connection's history, so every behaviour of a client along one run is covered. The
payoff is

> `handleClientData_contract`: per frame, `true` means every decoded command was
> passed to `Handle` exactly once, in order, and none of the six failures occurred,
> and a frame with none of them returns `true`; `false` means one close was made and
> only a prefix of the frame's commands was handled; over a connection, the commands
> handled are those of the frames before the first `false`, then a prefix of that
> frame's, and nothing after it.

Mirroring notes vs the Go source:
- The decoder is the list of commands `Decode()` returns and whether it then stops at
  `io.EOF`; the encoder is `Encode` per reply and `Finish` over the encoded replies.
- The `proto.Put*` calls return buffers to pools and change nothing modelled.
-/

namespace Centrifuge.Transport

open Centrifuge.Control (Bytes)

/-- A close made by `handleClientData`: `transport.Close(d)` or `c.Close(d)`. -/
inductive Closed
  | transport (d : Disconnect)
  | client (d : Disconnect)
deriving DecidableEq, Repr

/-- What `handleClientData` calls but cannot see inside, as parameters. -/
structure Env (Cmd Rep : Type) where
  /-- `cmd.ID`. -/
  commandId : Cmd → Nat
  /-- `GetCommandDecoder(enc, data)`, then `Decode()` until it fails: the commands it
  returned, and whether it then failed with `io.EOF`. -/
  decode : Bytes → List Cmd × Bool
  /-- `c.Handle(cmd)`, after the commands handled before on the connection. -/
  handle : List Cmd → Cmd → Option Rep × Option Disconnect
  /-- `encoder.Encode(rep)`: the encoded reply, or `none` on an error. -/
  encode : Rep → Option Bytes
  /-- `encoder.Finish()` over the encoded replies. -/
  finish : List Bytes → Bytes
  /-- `writer.write(data)`, after the frames written before: its `Disconnect`, if any. -/
  write : List Bytes → Bytes → Option Disconnect
  /-- `proto.ErrBadRequest.Error()`. -/
  errBadRequest : String
  /-- `proto.DisconnectBadRequest`. -/
  disconnectBadRequest : Disconnect

/-- One connection, as `handleClientData` changes it. -/
structure Conn (Cmd : Type) where
  /-- Every command passed to `c.Handle`, in order. -/
  handled : List Cmd
  /-- Every frame passed to `writer.write`, in order. -/
  frames : List Bytes
  /-- Every close made. -/
  closes : List Closed

/-- A close is recorded. -/
def Conn.close {Cmd : Type} (s : Conn Cmd) (c : Closed) : Conn Cmd :=
  { s with closes := s.closes ++ [c] }

@[simp] theorem Conn.close_handled {Cmd : Type} (s : Conn Cmd) (c : Closed) :
    (s.close c).handled = s.handled := rfl

@[simp] theorem Conn.close_closes {Cmd : Type} (s : Conn Cmd) (c : Closed) :
    (s.close c).closes = s.closes ++ [c] := rfl

@[simp] theorem Conn.close_frames {Cmd : Type} (s : Conn Cmd) (c : Closed) :
    (s.close c).frames = s.frames := rfl

variable {Cmd Rep : Type} (env : Env Cmd Rep)

/-- The `for { cmd, err := decoder.Decode() … }` loop over the commands the decoder has
left and whether it then reaches `io.EOF`, with the replies encoded so far: `some` the
encoded replies at `io.EOF` (`break`), `none` where it returns false. -/
def decodeLoop : List Cmd → Bool → List Bytes → Conn Cmd → Option (List Bytes) × Conn Cmd
  | [], eof, encoded, s =>
    if eof then (some encoded, s) else (none, s.close (.transport env.disconnectBadRequest))
  | cmd :: cmds, eof, encoded, s =>
    if env.commandId cmd = 0 then (none, s.close (.client env.disconnectBadRequest))
    else
      match env.handle s.handled cmd with
      | (_, some d) => (none, { s with handled := s.handled ++ [cmd] }.close (.transport d))
      | (none, none) => decodeLoop cmds eof encoded { s with handled := s.handled ++ [cmd] }
      | (some rep, none) =>
        match env.encode rep with
        | none =>
          (none, { s with handled := s.handled ++ [cmd] }.close (.transport ⟨"internal error", true⟩))
        | some b => decodeLoop cmds eof (encoded ++ [b]) { s with handled := s.handled ++ [cmd] }

/-- `handleClientData(n, c, data, transport, writer)`. -/
def handleClientData (data : Bytes) (s : Conn Cmd) : Bool × Conn Cmd :=
  if data.length = 0 then (false, s.close (.transport ⟨env.errBadRequest, false⟩))
  else
    match decodeLoop env (env.decode data).1 (env.decode data).2 [] s with
    | (none, s) => (false, s)
    | (some encoded, s) =>
      let frame := env.finish encoded
      match env.write s.frames frame with
      | some d => (false, { s with frames := s.frames ++ [frame] }.close (.transport d))
      | none => (true, { s with frames := s.frames ++ [frame] })

/-- A reader goroutine's loop: frame after frame until a read fails (the end of the
list) or `handleClientData` returns false. -/
def readLoop : List Bytes → Conn Cmd → Conn Cmd
  | [], s => s
  | data :: frames, s =>
    match handleClientData env data s with
    | (true, s) => readLoop frames s
    | (false, s) => s

/-- `WebsocketHandler.ServeHTTP`'s loop: `conn.ReadMessage()`, then `handleClientData`. -/
def websocketReadLoop : List Bytes → Conn Cmd → Conn Cmd := readLoop env

/-- `SockjsHandler.sockJSHandler`'s loop: `sess.Recv()`, then `handleClientData`. -/
def sockjsReadLoop : List Bytes → Conn Cmd → Conn Cmd := readLoop env

/-! ## One frame -/

/-- Every command of the list, handled after the ones before it, has a nonzero ID, gets
no `Disconnect` from `Handle`, and has a reply, if any, that encodes. -/
def AllClean : List Cmd → List Cmd → Prop
  | _, [] => True
  | hist, c :: cs => env.commandId c ≠ 0 ∧ (env.handle hist c).2 = none ∧
      (∀ r, (env.handle hist c).1 = some r → (env.encode r).isSome) ∧ AllClean (hist ++ [c]) cs

/-- The decode loop reaches `io.EOF` only after handling every command cleanly, once
each and in order, and without closing anything. -/
theorem decodeLoop_some : ∀ {cmds : List Cmd} {eof : Bool} {encoded e : List Bytes}
    {s s' : Conn Cmd}, decodeLoop env cmds eof encoded s = (some e, s') →
      eof = true ∧ s'.handled = s.handled ++ cmds ∧ s'.closes = s.closes ∧
      s'.frames = s.frames ∧ AllClean env s.handled cmds
  | [], eof, encoded, e, s, s', h => by
    unfold decodeLoop at h
    split at h <;> cases h
    exact ⟨‹_›, by simp, rfl, rfl, trivial⟩
  | cmd :: cmds, eof, encoded, e, s, s', h => by
    unfold decodeLoop at h
    split at h
    · cases h
    rename_i h0
    split at h
    · cases h
    · rename_i hh
      obtain ⟨he, hd, hc, hf, hcl⟩ := decodeLoop_some h
      exact ⟨he, by simp [hd], hc, hf, h0, by rw [hh], by simp [hh], hcl⟩
    · rename_i rep hh
      split at h
      · cases h
      · rename_i b hb
        obtain ⟨he, hd, hc, hf, hcl⟩ := decodeLoop_some h
        exact ⟨he, by simp [hd], hc, hf, h0, by rw [hh], by simp [hh, hb], hcl⟩

/-- Where the decode loop returns false, it has made one close, after handling a prefix
of the commands once each and in order. -/
theorem decodeLoop_none : ∀ {cmds : List Cmd} {eof : Bool} {encoded : List Bytes}
    {s s' : Conn Cmd}, decodeLoop env cmds eof encoded s = (none, s') →
      (∃ pre, pre <+: cmds ∧ s'.handled = s.handled ++ pre) ∧
      (∃ c, s'.closes = s.closes ++ [c]) ∧ s'.frames = s.frames
  | [], eof, encoded, s, s', h => by
    unfold decodeLoop at h
    split at h <;> cases h
    exact ⟨⟨[], List.nil_prefix, by simp⟩, ⟨_, rfl⟩, rfl⟩
  | cmd :: cmds, eof, encoded, s, s', h => by
    have hcons : ((∃ pre, pre <+: cmds ∧ s'.handled = (s.handled ++ [cmd]) ++ pre) ∧
        (∃ c, s'.closes = s.closes ++ [c]) ∧ s'.frames = s.frames) →
        (∃ pre, pre <+: cmd :: cmds ∧ s'.handled = s.handled ++ pre) ∧
        (∃ c, s'.closes = s.closes ++ [c]) ∧ s'.frames = s.frames := by
      rintro ⟨⟨pre, hp, hh⟩, hc, hf⟩
      exact ⟨⟨cmd :: pre, (List.prefix_cons_inj cmd).2 hp, by simp [hh]⟩, hc, hf⟩
    unfold decodeLoop at h
    split at h
    · cases h
      exact ⟨⟨[], List.nil_prefix, by simp⟩, ⟨_, rfl⟩, rfl⟩
    split at h
    · cases h
      exact ⟨⟨[cmd], by simp, rfl⟩, ⟨_, rfl⟩, rfl⟩
    · exact hcons (decodeLoop_none h)
    · split at h
      · cases h
        exact ⟨⟨[cmd], by simp, rfl⟩, ⟨_, rfl⟩, rfl⟩
      · exact hcons (decodeLoop_none h)

/-- A `true` from `handleClientData`: the frame was not empty, the decoder reached
`io.EOF`, every command was handled cleanly, once and in order, and the writer took the
frame without a `Disconnect`; nothing was closed. -/
theorem handleClientData_true {data : Bytes} {s s' : Conn Cmd}
    (h : handleClientData env data s = (true, s')) :
    data ≠ [] ∧ (env.decode data).2 = true ∧ AllClean env s.handled (env.decode data).1 ∧
    (∃ frame, s'.frames = s.frames ++ [frame] ∧ env.write s.frames frame = none) ∧
    s'.handled = s.handled ++ (env.decode data).1 ∧ s'.closes = s.closes := by
  unfold handleClientData at h
  split at h
  · cases h
  rename_i hne
  split at h
  · cases h
  · rename_i encoded s₁ hd
    obtain ⟨he, hh, hc, hf, hcl⟩ := decodeLoop_some env hd
    dsimp only at h
    split at h
    · cases h
    · rename_i hw
      cases h
      exact ⟨fun h => hne (by simp [h]), he, hcl, ⟨_, by rw [hf], by rw [← hf]; exact hw⟩, hh, hc⟩

/-- A `false` from `handleClientData`: one close was made, after a prefix of the frame's
commands was handled, once each and in order. -/
theorem handleClientData_false {data : Bytes} {s s' : Conn Cmd}
    (h : handleClientData env data s = (false, s')) :
    (∃ c, s'.closes = s.closes ++ [c]) ∧
    ∃ pre, pre <+: (env.decode data).1 ∧ s'.handled = s.handled ++ pre := by
  unfold handleClientData at h
  split at h
  · cases h
    exact ⟨⟨_, rfl⟩, [], List.nil_prefix, by simp⟩
  split at h
  · rename_i s₁ hd
    cases h
    obtain ⟨hp, hc, -⟩ := decodeLoop_none env hd
    exact ⟨hc, hp⟩
  · rename_i encoded s₁ hd
    obtain ⟨-, hh, hc, -, -⟩ := decodeLoop_some env hd
    dsimp only at h
    split at h <;> cases h
    exact ⟨by simp [hc], _, List.prefix_refl _, hh⟩

/-- Commands handled cleanly, up to `io.EOF`, bring the decode loop to its `break` without
a close and without a frame written. -/
theorem decodeLoop_clean : ∀ {cmds : List Cmd} {encoded : List Bytes} {s : Conn Cmd},
    AllClean env s.handled cmds →
      ∃ e s', decodeLoop env cmds true encoded s = (some e, s') ∧ s'.frames = s.frames
  | [], encoded, s, _ => ⟨encoded, s, rfl, rfl⟩
  | cmd :: cmds, encoded, s, ⟨h0, hd, he, hc⟩ => by
    unfold decodeLoop
    rw [if_neg h0]
    rcases hh : env.handle s.handled cmd with ⟨_ | rep, _ | d⟩
    · exact decodeLoop_clean hc
    · simp [hh] at hd
    · obtain ⟨b, hb⟩ := Option.isSome_iff_exists.1 (he rep (by rw [hh]))
      simp only [hb]
      exact decodeLoop_clean hc
    · simp [hh] at hd

/-- A frame with none of the first five failures: `handleClientData` writes one frame, and
returns `true` exactly when the writer takes it without a `Disconnect`. -/
theorem handleClientData_clean {data : Bytes} {s : Conn Cmd} (hne : data ≠ [])
    (heof : (env.decode data).2 = true) (hc : AllClean env s.handled (env.decode data).1) :
    ∃ frame, (handleClientData env data s).2.frames = s.frames ++ [frame] ∧
      ((handleClientData env data s).1 = true ↔ env.write s.frames frame = none) := by
  obtain ⟨e, s₁, hd, hf⟩ := @decodeLoop_clean Cmd Rep env _ [] _ hc
  refine ⟨env.finish e, ?_⟩
  unfold handleClientData
  rw [if_neg (by simpa using hne), heof, hd]
  dsimp only
  rw [hf]
  cases env.write s.frames (env.finish e) <;> simp

/-! ## A connection -/

/-- What a reader loop leaves: either every frame was handled in full and nothing was
closed, or some frame returned false after the frames `done` before it, with one close,
the commands of `done`, then a prefix of its own, and nothing of the frames after it. -/
def ReadOutcome (frames : List Bytes) (s s' : Conn Cmd) : Prop :=
  (s'.handled = s.handled ++ (frames.map fun f => (env.decode f).1).flatten ∧
    s'.closes = s.closes) ∨
  ∃ done data rest, frames = done ++ data :: rest ∧ (∃ c, s'.closes = s.closes ++ [c]) ∧
    ∃ pre, pre <+: (env.decode data).1 ∧
      s'.handled = s.handled ++ (done.map fun f => (env.decode f).1).flatten ++ pre

theorem readLoop_outcome : ∀ (frames : List Bytes) (s : Conn Cmd),
    ReadOutcome env frames s (readLoop env frames s)
  | [], s => .inl ⟨by simp [readLoop], rfl⟩
  | data :: frames, s => by
    unfold readLoop
    rcases hd : handleClientData env data s with ⟨_ | _, s₁⟩
    · obtain ⟨hc, pre, hp, hh⟩ := handleClientData_false env hd
      exact .inr ⟨[], data, frames, rfl, hc, pre, hp, by simp [hh]⟩
    · obtain ⟨-, -, -, -, hh, hc⟩ := handleClientData_true env hd
      rcases readLoop_outcome frames s₁ with ⟨hh', hc'⟩ | ⟨done, d, rest, rfl, hc', pre, hp, hh'⟩
      · exact .inl ⟨by simp [hh', hh], hc'.trans hc⟩
      · exact .inr ⟨data :: done, d, rest, rfl, by simpa [hc] using hc', pre, hp,
          by simp [hh', hh]⟩

/-- Over every frame sequence and every behaviour of the codec, of `Handle` and of the
writer: a `true` from `handleClientData` means the frame was not empty, the decoder
reached `io.EOF`, no command had ID 0, `Handle` returned no `Disconnect`, every reply
encoded and the writer returned no `Disconnect`, and then every decoded command was
passed to `Handle` exactly once, in decode order, with nothing closed; a `false` means
the transport or the client was closed, and only a prefix of the frame's commands was
handled. Conversely, a frame with none of the first five failures is written as one frame,
and the result is `true` exactly when the writer takes it without a `Disconnect`. Both
reader loops stop at a `false`, so no later command is handled. -/
theorem handleClientData_contract :
    (∀ (data : Bytes) (s : Conn Cmd),
      match handleClientData env data s with
      | (true, s') => data ≠ [] ∧ (env.decode data).2 = true ∧
          AllClean env s.handled (env.decode data).1 ∧
          (∃ frame, s'.frames = s.frames ++ [frame] ∧ env.write s.frames frame = none) ∧
          s'.handled = s.handled ++ (env.decode data).1 ∧ s'.closes = s.closes
      | (false, s') => (∃ c, s'.closes = s.closes ++ [c]) ∧
          ∃ pre, pre <+: (env.decode data).1 ∧ s'.handled = s.handled ++ pre) ∧
    (∀ (data : Bytes) (s : Conn Cmd), data ≠ [] → (env.decode data).2 = true →
      AllClean env s.handled (env.decode data).1 →
      ∃ frame, (handleClientData env data s).2.frames = s.frames ++ [frame] ∧
        ((handleClientData env data s).1 = true ↔ env.write s.frames frame = none)) ∧
    ∀ (frames : List Bytes) (s : Conn Cmd),
      ReadOutcome env frames s (websocketReadLoop env frames s) ∧
      ReadOutcome env frames s (sockjsReadLoop env frames s) := by
  refine ⟨fun data s => ?_, fun data s => handleClientData_clean env,
    fun frames s => ⟨readLoop_outcome env frames s, readLoop_outcome env frames s⟩⟩
  rcases h : handleClientData env data s with ⟨_ | _, s'⟩
  · exact handleClientData_false env h
  · exact handleClientData_true env h

end Centrifuge.Transport
