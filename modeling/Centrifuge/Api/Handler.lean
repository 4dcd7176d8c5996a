import Centrifuge.Control.Wire

/-!
# `APIHandler`: the HTTP API

`APIHandler.ServeHTTP` checks the API key (`checkAuth`), reads the body, picks the
encoding from `Content-Type`, and then decodes commands one by one: each goes through
`handleAPICommand`, its reply through the reply encoder, and the encoder's output is the
response. `handleAPICommand` switches on the method: seven methods decode their params
first, `Channels` and `Info` take none, and any other method gets `ErrMethodNotFound`.

The `apiproto` package and the executor are not in the source: their codecs, the
executor's answers and the two error values are the environment `ApiEnv`; the executor
sees the commands handled before, so a stateful node is covered. The payoff is

> `serveHTTP_replies`: a request that fails `checkAuth` gets 401 and an empty body 400,
> with no command handled; for a body the decoder splits into `c₁ … cₙ` up to `io.EOF`,
> where every result and every reply encodes, the response is the encoder's output for
> `n` replies in order, the `i`-th with `cᵢ`'s ID, `ErrMethodNotFound` for a method that
> is not handled and `ErrBadRequest` for params that do not decode.

Mirroring notes vs the Go source:
- `strings.ToLower` is a parameter; `strings.Fields` is computed, over header values as
  Unicode text.
- An encoder's output is taken as non-nil, as `json.Marshal` and the generated
  `Marshal` return it.
-/

namespace Centrifuge.Api

open Centrifuge.Control (Bytes)

/-! ## Requests and responses -/

/-- What the handlers read of an `*http.Request`. -/
structure Request where
  /-- `r.Header.Get(name)`. -/
  header : String → String
  /-- `r.URL.Path`. -/
  path : String
  /-- `ioutil.ReadAll(r.Body)`: the body, or `none` on a read error. -/
  body : Option Bytes
  /-- `r.FormValue(name)`. -/
  form : String → String

/-- What a handler writes. -/
inductive Response
  /-- `w.WriteHeader(code)` and nothing else. -/
  | status (code : Nat)
  /-- `http.Error(w, text, code)`. -/
  | error (code : Nat) (text : String)
  /-- A `200` with `Content-Type` set and the body. -/
  | ok (contentType : String) (body : Bytes)
deriving DecidableEq, Repr

/-- `unicode.IsSpace`. -/
def isSpace (c : Char) : Bool :=
  c = '\t' || c = '\n' || c.val = 0x0b || c.val = 0x0c || c = '\r' || c = ' ' ||
  c.val = 0x85 || c.val = 0xa0 || c.val = 0x1680 || (0x2000 ≤ c.val && c.val ≤ 0x200a) ||
  c.val = 0x2028 || c.val = 0x2029 || c.val = 0x202f || c.val = 0x205f || c.val = 0x3000

/-- `strings.Fields` over the characters left, with the field being read, reversed. -/
def fieldsLoop : List Char → List Char → List String
  | [], cur => if cur = [] then [] else [String.mk cur.reverse]
  | c :: cs, cur =>
    if isSpace c then
      if cur = [] then fieldsLoop cs [] else String.mk cur.reverse :: fieldsLoop cs []
    else fieldsLoop cs (c :: cur)

/-- `strings.Fields(s)`: the runs of non-space characters. -/
def fields (s : String) : List String := fieldsLoop s.toList []

example : fields "  apikey\tsecret " = ["apikey", "secret"] := by decide

/-- A header word: not empty, and no character `strings.Fields` splits at. -/
def IsWord (s : String) : Prop := s.toList ≠ [] ∧ s.toList.all (fun c => !isSpace c) = true

instance (s : String) : Decidable (IsWord s) := inferInstanceAs (Decidable (_ ∧ _))

/-- A run of non-space characters goes onto the field being read. -/
theorem fieldsLoop_word : ∀ (cs cur rest : List Char), cs.all (fun c => !isSpace c) = true →
    fieldsLoop (cs ++ rest) cur = fieldsLoop rest (cs.reverse ++ cur)
  | [], _, _, _ => rfl
  | c :: cs, cur, rest, h => by
    simp only [List.all_cons, Bool.and_eq_true, Bool.not_eq_true'] at h
    rw [List.cons_append, fieldsLoop, if_neg (by simp [h.1]), fieldsLoop_word cs (c :: cur) rest h.2]
    simp

/-- `strings.Fields` splits `a b` back into its two words: the header an `Authorization`
scheme is sent in. -/
theorem fields_two_words {a b : String} (ha : IsWord a) (hb : IsWord b) :
    fields (a ++ " " ++ b) = [a, b] := by
  have e : (a ++ " " ++ b).toList = a.toList ++ ' ' :: b.toList := by simp
  unfold fields
  rw [e, fieldsLoop_word _ [] _ ha.2, List.append_nil, fieldsLoop,
    if_pos (by decide), if_neg (by simpa using ha.1), ← List.append_nil b.toList,
    fieldsLoop_word _ [] _ hb.2, List.append_nil, fieldsLoop, if_neg (by simpa using hb.1)]
  simp

/-- `APIConfig`. -/
structure APIConfig where
  key : String
  insecure : Bool
deriving DecidableEq, Repr

/-- `APIHandler.checkAuth(r)`, with `strings.ToLower` as `toLower`. -/
def checkAuth (toLower : String → String) (config : APIConfig) (r : Request) : Bool :=
  if config.key = "" && !config.insecure then false
  else if !config.insecure then
    match fields (r.header "Authorization") with
    | [authMethod, key] => toLower authMethod = "apikey" && key = config.key
    | _ => false
  else true

/-- With the check on, a request passes exactly when a key is set and the header is two
fields: a method that lowers to `apikey`, then the key itself. -/
theorem checkAuth_secure {toLower : String → String} {config : APIConfig} (r : Request)
    (hs : config.insecure = false) :
    checkAuth toLower config r = true ↔ config.key ≠ "" ∧
      ∃ authMethod, fields (r.header "Authorization") = [authMethod, config.key] ∧
        toLower authMethod = "apikey" := by
  unfold checkAuth
  by_cases hk : config.key = ""
  · simp [hk, hs]
  · rw [if_neg (by simp [hk]), if_pos (by simp [hs])]
    rcases fields (r.header "Authorization") with _ | ⟨a, _ | ⟨b, _ | ⟨c, t⟩⟩⟩ <;> simp [hk]
    exact ⟨fun ⟨h1, h2⟩ => ⟨a, ⟨rfl, h2⟩, h1⟩, fun ⟨_, ⟨rfl, h2⟩, h1⟩ => ⟨h1, h2⟩⟩

/-! ## Commands -/

/-- Modelled from the spec: `apiproto.MethodType`, the nine methods `handleAPICommand`
names and any other value. -/
inductive MethodType
  | publish
  | broadcast
  | unsubscribe
  | disconnect
  | presence
  | presenceStats
  | history
  | channels
  | info
  | other (value : Int)
deriving DecidableEq, Repr

/-- `apiproto.EncodingJSON` and `apiproto.EncodingProtobuf`. -/
inductive Encoding
  | json
  | protobuf
deriving DecidableEq, Repr

/-- Modelled from the spec: `apiproto.Command`, `{id, method, params}`. -/
structure Command where
  id : Nat
  method : MethodType
  params : Bytes
deriving DecidableEq, Repr

/-- Modelled from the spec: `apiproto.Error`. -/
structure Error where
  code : Nat
  message : String
deriving DecidableEq, Repr

/-- Modelled from the spec: `apiproto.Reply`, `{id, error?, result?}`. -/
structure Reply where
  id : Nat
  error : Option Error
  result : Option Bytes
deriving DecidableEq, Repr

/-- What an executor call returns: `resp.Error` and `resp.Result`. -/
structure ExecResponse (Res : Type) where
  error : Option Error
  result : Option Res

/-- What `APIHandler` calls but cannot see inside, as parameters. -/
structure ApiEnv (Req Res : Type) where
  /-- `strings.ToLower`. -/
  toLower : String → String
  /-- `GetCommandDecoder(enc, data)`, then `Decode()` until it fails: the commands it
  returned, and whether it then failed with `io.EOF`. -/
  decode : Encoding → Bytes → List Command × Bool
  /-- `decoder.DecodePublish(params)` and the others: the request, or `none` on an error. -/
  decodeParams : MethodType → Encoding → Bytes → Option Req
  /-- `s.api.Publish(ctx, cmd)` and the others, after the commands handled before; the
  request is `none` for `Channels` and `Info`. -/
  execute : List Command → MethodType → Option Req → ExecResponse Res
  /-- `encoder.EncodePublish(resp.Result)` and the others: the bytes, or `none` on an
  error. -/
  encodeResult : MethodType → Encoding → Res → Option Bytes
  /-- `encoder.Encode(rep)` of the reply encoder. -/
  encodeReply : Encoding → Reply → Option Bytes
  /-- `encoder.Finish()` over the encoded replies. -/
  finish : Encoding → List Bytes → Bytes
  /-- `apiproto.ErrBadRequest`. -/
  errBadRequest : Error
  /-- `apiproto.ErrMethodNotFound`. -/
  errMethodNotFound : Error

variable {Req Res : Type} (env : ApiEnv Req Res)

/-- The tail of each arm of `handleAPICommand`'s switch: call the executor, and set the
reply's error, or its result once encoded; `none` where the arm returns `nil, err`. -/
def execArm (hist : List Command) (enc : Encoding) (cmd : Command) (req : Option Req) :
    Option Reply :=
  let rep : Reply := ⟨cmd.id, none, none⟩
  let resp := env.execute hist cmd.method req
  match resp.error with
  | some e => some { rep with error := some e }
  | none =>
    match resp.result with
    | none => some rep
    | some res =>
      match env.encodeResult cmd.method enc res with
      | none => none
      | some replyRes => some { rep with result := some replyRes }

/-- An arm whose params are decoded first: `ErrBadRequest` if they do not decode. -/
def paramsArm (hist : List Command) (enc : Encoding) (cmd : Command) : Option Reply :=
  match env.decodeParams cmd.method enc cmd.params with
  | none => some ⟨cmd.id, some env.errBadRequest, none⟩
  | some req => execArm env hist enc cmd (some req)

/-- `handleAPICommand(ctx, enc, cmd)`, after the commands `hist`: the reply, or `none`
where it returns an error. -/
def handleAPICommand (hist : List Command) (enc : Encoding) (cmd : Command) : Option Reply :=
  match cmd.method with
  | .publish => paramsArm env hist enc cmd
  | .broadcast => paramsArm env hist enc cmd
  | .unsubscribe => paramsArm env hist enc cmd
  | .disconnect => paramsArm env hist enc cmd
  | .presence => paramsArm env hist enc cmd
  | .presenceStats => paramsArm env hist enc cmd
  | .history => paramsArm env hist enc cmd
  | .channels => execArm env hist enc cmd none
  | .info => execArm env hist enc cmd none
  | .other _ => some ⟨cmd.id, some env.errMethodNotFound, none⟩

/-- The methods whose params `handleAPICommand` decodes. -/
def MethodType.hasParams : MethodType → Bool
  | .channels | .info | .other _ => false
  | _ => true

/-- The methods `handleAPICommand` handles. -/
def MethodType.handled : MethodType → Bool
  | .other _ => false
  | _ => true

/-- A reply that answers `cmd`: it carries the command's ID, `ErrMethodNotFound` when the
method is not one `handleAPICommand` handles, and `ErrBadRequest` when the method takes
params and they do not decode. -/
def ReplyFor (enc : Encoding) (cmd : Command) (rep : Reply) : Prop :=
  rep.id = cmd.id ∧ (cmd.method.handled = false → rep.error = some env.errMethodNotFound) ∧
    (cmd.method.hasParams = true → env.decodeParams cmd.method enc cmd.params = none →
      rep.error = some env.errBadRequest)

theorem execArm_id {hist : List Command} {enc : Encoding} {cmd : Command} {req : Option Req}
    {rep : Reply} (h : execArm env hist enc cmd req = some rep) : rep.id = cmd.id := by
  unfold execArm at h
  dsimp only at h
  split at h
  · cases h; rfl
  · split at h
    · cases h; rfl
    · split at h <;> cases h; rfl

section Replies

variable {env} {hist : List Command} {enc : Encoding} {cmd : Command} {rep : Reply}

theorem paramsArm_replyFor (hm : cmd.method.handled = true)
    (h : paramsArm env hist enc cmd = some rep) : ReplyFor env enc cmd rep := by
  unfold paramsArm at h
  split at h
  · cases h
    exact ⟨rfl, by simp [hm], fun _ _ => rfl⟩
  · rename_i req hd
    exact ⟨execArm_id env h, by simp [hm], fun _ hd' => by simp [hd'] at hd⟩

theorem execArm_replyFor (hm : cmd.method.handled = true) (hp : cmd.method.hasParams = false)
    (h : execArm env hist enc cmd none = some rep) : ReplyFor env enc cmd rep :=
  ⟨execArm_id env h, by simp [hm], by simp [hp]⟩

/-- Every reply `handleAPICommand` returns answers its command: same ID,
`ErrMethodNotFound` for an unhandled method, `ErrBadRequest` for params that do not
decode. -/
theorem handleAPICommand_replyFor (h : handleAPICommand env hist enc cmd = some rep) :
    ReplyFor env enc cmd rep := by
  rcases cmd with ⟨id, m, params⟩
  cases m <;> simp only [handleAPICommand] at h <;>
    first
    | exact paramsArm_replyFor rfl h
    | exact execArm_replyFor rfl rfl h
    | cases h; exact ⟨rfl, fun _ => rfl, by simp [MethodType.hasParams]⟩

end Replies

/-! ## `ServeHTTP` -/

/-- What `APIHandler.ServeHTTP` does: its response, and the commands passed to
`handleAPICommand`, in order. -/
structure ApiRun where
  response : Response
  handled : List Command
deriving DecidableEq, Repr

/-- `strings.HasPrefix(strings.ToLower(contentType), "application/octet-stream")` picks
protobuf, anything else JSON. -/
def requestEncoding (r : Request) : Encoding :=
  if "application/octet-stream".toList.isPrefixOf (env.toLower (r.header "Content-Type")).toList
  then .protobuf else .json

/-- The `for { command, err := decoder.Decode() … }` loop over the commands the decoder
has left and whether it then reaches `io.EOF`, with the commands handled and the replies
encoded so far. -/
def commandLoop (enc : Encoding) (contentType : String) :
    List Command → Bool → List Command → List Bytes → ApiRun
  | [], eof, hist, encoded =>
    if eof then ⟨.ok contentType (env.finish enc encoded), hist⟩
    else ⟨.error 400 "Bad Request", hist⟩
  | cmd :: cmds, eof, hist, encoded =>
    match handleAPICommand env hist enc cmd with
    | none => ⟨.error 500 "Internal Server Error", hist ++ [cmd]⟩
    | some rep =>
      match env.encodeReply enc rep with
      | none => ⟨.error 500 "Internal Server Error", hist ++ [cmd]⟩
      | some b => commandLoop enc contentType cmds eof (hist ++ [cmd]) (encoded ++ [b])

/-- `APIHandler.ServeHTTP(w, r)`. -/
def APIHandler.serveHTTP (config : APIConfig) (r : Request) : ApiRun :=
  if !checkAuth env.toLower config r then ⟨.status 401, []⟩
  else
    match r.body with
    | none => ⟨.error 500 "Internal Server Error", []⟩
    | some data =>
      if data.length = 0 then ⟨.error 400 "Bad Request", []⟩
      else
        let enc := requestEncoding env r
        commandLoop env enc (r.header "Content-Type") (env.decode enc data).1
          (env.decode enc data).2 [] []

/-- A request that fails `checkAuth`, or has an empty body, is refused before any
command is decoded, even an empty body the decoder would read as no command at all. -/
theorem serveHTTP_refused_cases :
    let env : ApiEnv Unit Unit := ⟨id, fun _ _ => ([], true), fun _ _ _ => none,
      fun _ _ _ => ⟨none, none⟩, fun _ _ _ => none, fun _ _ => none, fun _ _ => [],
      ⟨1, "bad request"⟩, ⟨2, "method not found"⟩⟩
    env.decode .json [] = ([], true) ∧
    APIHandler.serveHTTP env ⟨"", true⟩ ⟨fun _ => "", "/api", some [], fun _ => ""⟩ =
      ⟨.error 400 "Bad Request", []⟩ ∧
    APIHandler.serveHTTP env ⟨"key", false⟩ ⟨fun _ => "", "/api", some [1], fun _ => ""⟩ =
      ⟨.status 401, []⟩ :=
  ⟨rfl, rfl, rfl⟩

/-- The executor's result for `cmd`, when it returns one without an error, encodes. -/
def ResultEncodes (hist : List Command) (enc : Encoding) (cmd : Command) : Prop :=
  ∀ req res, (env.execute hist cmd.method req).error = none →
    (env.execute hist cmd.method req).result = some res →
    (env.encodeResult cmd.method enc res).isSome

/-- Along the batch, no executor result and no reply fails to encode. -/
def BatchEncodes (enc : Encoding) : List Command → List Command → Prop
  | _, [] => True
  | hist, cmd :: cmds => ResultEncodes env hist enc cmd ∧
      (∀ rep, handleAPICommand env hist enc cmd = some rep → (env.encodeReply enc rep).isSome) ∧
      BatchEncodes enc (hist ++ [cmd]) cmds

section Batch

variable {env} {hist : List Command} {enc : Encoding} {cmd : Command}

theorem execArm_isSome {req : Option Req} (h : ResultEncodes env hist enc cmd) :
    (execArm env hist enc cmd req).isSome := by
  unfold execArm
  dsimp only
  split
  · rfl
  · rename_i herr
    split
    · rfl
    · rename_i res hres
      have := h req res herr hres
      split <;> simp_all

/-- `handleAPICommand` returns an error only when an executor result does not encode. -/
theorem handleAPICommand_isSome (h : ResultEncodes env hist enc cmd) :
    (handleAPICommand env hist enc cmd).isSome := by
  rcases cmd with ⟨id, m, params⟩
  cases m <;> simp only [handleAPICommand, paramsArm] <;> (try split) <;>
    first | rfl | exact execArm_isSome h

/-- At `io.EOF`, a batch that encodes is handled whole: one reply per command, in order,
each answering its command (`ReplyFor`), and the response is the encoder's output over
them. -/
theorem commandLoop_eof (ct : String) : ∀ (cmds hist : List Command) (encoded : List Bytes),
    BatchEncodes env enc hist cmds →
    ∃ replies bs, List.Forall₂ (ReplyFor env enc) cmds replies ∧
      List.Forall₂ (fun rep b => env.encodeReply enc rep = some b) replies bs ∧
      commandLoop env enc ct cmds true hist encoded =
        ⟨.ok ct (env.finish enc (encoded ++ bs)), hist ++ cmds⟩
  | [], hist, encoded, _ => ⟨[], [], .nil, .nil, by simp [commandLoop]⟩
  | cmd :: cmds, hist, encoded, ⟨hr, hrep, hb⟩ => by
    obtain ⟨rep, hh⟩ := Option.isSome_iff_exists.1 (handleAPICommand_isSome hr)
    obtain ⟨b, he⟩ := Option.isSome_iff_exists.1 (hrep rep hh)
    obtain ⟨replies, bs, h1, h2, h3⟩ := commandLoop_eof ct cmds (hist ++ [cmd]) (encoded ++ [b]) hb
    refine ⟨rep :: replies, b :: bs, .cons (handleAPICommand_replyFor hh) h1, .cons he h2, ?_⟩
    simp [commandLoop, hh, he, h3]

end Batch

/-- For every environment, configuration and request: a request that fails `checkAuth`
gets 401 and an empty body 400, with no command handled; a body the decoder splits into
commands up to `io.EOF`, where no executor result and no reply fails to encode, gets the
encoder's output for one reply per command, in order, each with its command's ID, with
`ErrMethodNotFound` for a method not handled and `ErrBadRequest` for params that do not
decode, and every command is handled. -/
theorem serveHTTP_replies (config : APIConfig) (r : Request) :
    (checkAuth env.toLower config r = false →
      APIHandler.serveHTTP env config r = ⟨.status 401, []⟩) ∧
    (checkAuth env.toLower config r = true → r.body = some [] →
      APIHandler.serveHTTP env config r = ⟨.error 400 "Bad Request", []⟩) ∧
    ∀ data cmds, checkAuth env.toLower config r = true → r.body = some data → data ≠ [] →
      env.decode (requestEncoding env r) data = (cmds, true) →
      BatchEncodes env (requestEncoding env r) [] cmds →
      ∃ replies bs, List.Forall₂ (ReplyFor env (requestEncoding env r)) cmds replies ∧
        List.Forall₂ (fun rep b => env.encodeReply (requestEncoding env r) rep = some b)
          replies bs ∧
        APIHandler.serveHTTP env config r =
          ⟨.ok (r.header "Content-Type") (env.finish (requestEncoding env r) bs), cmds⟩ := by
  refine ⟨fun h => by simp [APIHandler.serveHTTP, h], fun h hb => by
    simp [APIHandler.serveHTTP, h, hb], fun data cmds h hb hne hd he => ?_⟩
  obtain ⟨replies, bs, h1, h2, h3⟩ := commandLoop_eof (r.header "Content-Type") cmds [] [] he
  refine ⟨replies, bs, h1, h2, ?_⟩
  simpa [APIHandler.serveHTTP, h, hb, hne, hd] using h3

/-- A JSON body with one command of an unknown method, on an insecure handler: the
command is handled and answered. -/
theorem serveHTTP_replies_unknown_method :
    let env : ApiEnv Unit Unit := ⟨id, fun _ _ => ([⟨7, .other 99, []⟩], true),
      fun _ _ _ => none, fun _ _ _ => ⟨none, none⟩, fun _ _ _ => none, fun _ _ => some [1],
      fun _ => List.flatten, ⟨1, "bad request"⟩, ⟨2, "method not found"⟩⟩
    let r : Request := ⟨fun _ => "", "/api", some [1], fun _ => ""⟩
    BatchEncodes env .json [] [⟨7, .other 99, []⟩] ∧
    (APIHandler.serveHTTP env ⟨"", true⟩ r).handled = [⟨7, .other 99, []⟩] := by
  intro env r
  have hb : BatchEncodes env .json [] [⟨7, .other 99, []⟩] := by
    simp only [BatchEncodes]
    exact ⟨fun _ _ _ h => Option.noConfusion h, fun _ _ => rfl, trivial⟩
  obtain ⟨_, _, _, _, h⟩ := (serveHTTP_replies env ⟨"", true⟩ r).2.2 [1] _ rfl rfl (by decide) rfl hb
  exact ⟨hb, by rw [h]⟩

end Centrifuge.Api
