import Centrifuge.Control.Merge

/-!
# Decoding a cut encoding

A control message can reach `Unmarshal` cut short. The decoders never turn such a slice
into a wrong message: for each of the four messages and every cut of `MarshalTo`'s output,

> `unmarshal_truncated`: the first `k` bytes of `x`'s encoding, decoded into `m`, give `m`
> with the fields of `x` that lie wholly in them when the cut falls between two fields, and
> `io.ErrUnexpectedEOF` when it falls inside one.

A cut inside a field falls in its tag-less rest: in the length varint, in the string, or in
a value varint, and each runs the loop off the end of the slice (`varintLoop_take`,
`stringCase_take`, `varint32Case_take`). `Chunk.Truncates` says so of a chunk, as
`Chunk.Reads` says that a pass reads it whole; `unmarshalLoop_truncated` chains the passes
over the whole chunks before the cut, and `take_flatten_cases` finds the chunk a cut falls
in.
-/

namespace Centrifuge.Control

/-! ## A field cut after its tag -/

/-- The loop runs off the end of a slice that ends inside `varint v`, before `shift`
reaches 64. -/
theorem varintLoop_take {w : Nat} {d : Bytes} {v : Nat} :
    ∀ {r s a i : Nat}, d.drop i = (varint v).take r → r < (varint v).length → s + 7 * r < 64 →
      varintLoop w d s a i = .error (.error .unexpectedEOF) := by
  induction v using Nat.strong_induction_on with
  | _ v ih =>
  intro r s a i hd hr hs
  rcases r with _ | r
  · rw [List.take_zero, List.drop_eq_nil_iff] at hd
    rw [varintLoop, if_neg (by omega), if_pos (by exact_mod_cast hd)]
  · have hv : 0x80 ≤ v := by
      by_contra hv
      rw [varint_of_lt (by omega)] at hr
      simp at hr
    rw [varint_of_ge hv, List.take_succ_cons] at hd
    rw [varint_of_ge hv, List.length_cons] at hr
    have hb : (v % 0x80 + 0x80).toUInt8.toNat = v % 0x80 + 0x80 := toNat_toUInt8 (by omega)
    rw [varintLoop, if_neg (by omega), if_neg (by have := lt_length_of_drop hd; omega),
      byteAt_of_drop hd]
    simp only [hb, if_neg (by omega : ¬ v % 0x80 + 0x80 < 0x80)]
    rw [show (i : Int) + 1 = ((i + 1 : Nat) : Int) by push_cast; rfl]
    exact ih _ (by omega) (drop_succ_of_drop hd) (by omega) (by omega)

/-- A string's length and bytes cut short: `stringCase` returns `io.ErrUnexpectedEOF`, from
the varint or from the check `postIndex > l`. -/
theorem stringCase_take {d s : Bytes} {i r : Nat} (field : String)
    (hd : d.drop i = (varint s.length ++ s).take r) (hr : r < (varint s.length ++ s).length)
    (hl : i + (varint s.length ++ s).length < 2 ^ 63) :
    stringCase field 2 d i = .error (.error .unexpectedEOF) := by
  rw [List.length_append] at hr hl
  have hten := length_varint_le_ten (v := s.length) (by omega)
  rw [stringCase, if_neg (by decide), pure_bind]
  rcases Nat.lt_or_ge r (varint s.length).length with hv | hv
  · rw [List.take_append_of_le_length hv.le] at hd
    rw [varintLoop_take hd hv (by omega), Res.error_bind]
  · have hlen := congrArg List.length hd
    simp only [List.length_drop, List.length_take, List.length_append] at hlen
    rw [List.take_append_eq_append_take, List.take_of_length_le hv] at hd
    rw [varintLoop_uint64 (by omega) hd, Res.ok_bind]
    dsimp only
    rw [goInt_natCast (by omega), if_neg (by omega), ← Nat.cast_add, goInt_natCast (by omega),
      if_pos (by have := length_varint_pos s.length; omega)]
    rfl

/-- A varint value cut short: `varint32Case` returns `io.ErrUnexpectedEOF`. -/
theorem varint32Case_take {d : Bytes} {v i r : Nat} (field : String) (hv : v < 2 ^ 64)
    (hd : d.drop i = (varint v).take r) (hr : r < (varint v).length) :
    varint32Case field 0 d i = .error (.error .unexpectedEOF) := by
  rw [varint32Case, if_neg (by decide), pure_bind,
    varintLoop_take hd hr (by have := length_varint_le_ten hv; omega)]

/-! ## Chunks cut short -/

section Cuts

variable {M : Type} (name : String) (fc : FieldCase M) (d : Bytes)

/-- Wherever a chunk starts in `d` and `d` ends strictly inside it, the pass there returns
`io.ErrUnexpectedEOF`; the chunk ends where an `int` can still count. -/
def Chunk.Truncates (c : Chunk M) : Prop :=
  ∀ j r m, 0 < r → r < c.bytes.length → d.drop j = c.bytes.take r →
    j + c.bytes.length < 2 ^ 63 →
    ∀ fuel, unmarshalLoop name fc d (fuel + 1) j m = .error (.error .unexpectedEOF)

/-- The tag `key` of field `n` and the rest `tl`, the slice ending inside `tl`: the pass
goes to the field's case past the one-byte tag. -/
theorem unmarshalLoop_key {key : UInt8} {n wt : Nat} {tl : Bytes} {j r fuel : Nat} {m : M}
    (hk : key.toNat < 0x80) (hkey : key.toNat = n * 8 + wt) (hn : 0 < n) (hwt : wt < 4)
    (hd : d.drop j = (key :: tl).take (r + 1)) :
    unmarshalLoop name fc d (fuel + 1) j m =
      match fc n wt d ((j + 1 : Nat) : Int) m with
      | some r => r >>= fun p => unmarshalLoop name fc d fuel p.1 p.2
      | none => skipCase d j >>= fun i => unmarshalLoop name fc d fuel i m := by
  have hvk : varint key.toNat = [key] := by rw [varint_of_lt hk, toUInt8_toNat]
  obtain ⟨hnum, hwt'⟩ := @tag_fieldNum n wt (by omega) (by omega)
  rw [← hkey] at hnum hwt'
  have hd' : d.drop j = varint key.toNat ++ tl.take r := by rw [hd, hvk]; rfl
  rw [unmarshalLoop_tag (by omega) hd' (by rw [hwt']; omega) (by rw [hnum]; omega), hnum, hwt',
    hvk]
  rfl

/-- A string field cut after its tag: its case runs off the end. -/
theorem truncates_string (n : Nat) {key : UInt8} {field : String} (set : M → Bytes → M)
    (s : Bytes) (hk : key.toNat < 0x80) (hkey : key.toNat = n * 8 + 2) (hn : 0 < n)
    (hfc : ∀ i m, fc n 2 d i m = some do let (s, i) ← stringCase field 2 d i; pure (i, set m s)) :
    Chunk.Truncates name fc d ⟨key :: varint s.length ++ s, fun x => set x s⟩ := by
  intro j r m hr hrl hd hl fuel
  obtain ⟨r, rfl⟩ : ∃ r', r = r' + 1 := ⟨r - 1, by omega⟩
  dsimp only at hrl hd hl
  rw [List.cons_append] at hrl hd hl
  rw [unmarshalLoop_key name fc d hk hkey hn (by decide) hd, hfc]
  rw [List.take_succ_cons] at hd
  simp only [List.length_cons] at hrl hl
  rw [stringCase_take field (drop_succ_of_drop hd) (by omega) (by omega)]
  rfl

/-- A 32-bit varint field cut after its tag: its case runs off the end. -/
theorem truncates_varint32 (n : Nat) {key : UInt8} {v : Nat} {field : String} (set : M → Nat → M)
    (upd : M → M) (hk : key.toNat < 0x80) (hkey : key.toNat = n * 8) (hn : 0 < n)
    (hv : v < 2 ^ 64)
    (hfc : ∀ i m, fc n 0 d i m = some do let (v, i) ← varint32Case field 0 d i; pure (i, set m v)) :
    Chunk.Truncates name fc d ⟨key :: varint v, upd⟩ := by
  intro j r m hr hrl hd _ fuel
  obtain ⟨r, rfl⟩ : ∃ r', r = r' + 1 := ⟨r - 1, by omega⟩
  dsimp only at hrl hd
  rw [unmarshalLoop_key name fc d hk (by rw [hkey, Nat.add_zero]) hn (by decide) hd, hfc]
  rw [List.take_succ_cons] at hd
  simp only [List.length_cons] at hrl
  rw [varint32Case_take field hv (drop_succ_of_drop hd) (by omega)]
  rfl

/-- A string field's chunk, when cut, runs off the end. -/
theorem truncates_bytesField (n : Nat) {key : UInt8} {field : String} (set : M → Bytes → M)
    (s : Bytes) (hk : key.toNat < 0x80) (hkey : key.toNat = n * 8 + 2) (hn : 0 < n)
    (hfc : ∀ i m, fc n 2 d i m = some do let (s, i) ← stringCase field 2 d i; pure (i, set m s)) :
    Chunk.Truncates name fc d ⟨bytesField key s, fun x => set x s⟩ := by
  intro j r m hr hrl
  dsimp only at hrl
  have hne : bytesField key s ≠ [] := List.ne_nil_of_length_pos (by omega)
  rw [bytesField_of_ne_nil hne] at hrl ⊢
  exact truncates_string name fc d n set s hk hkey hn hfc j r m hr hrl

/-- A 32-bit varint field's chunk, when cut, runs off the end. -/
theorem truncates_varintField (n : Nat) {key : UInt8} {field : String} (set : M → Nat → M)
    (v : Nat) (upd : M → M) (hk : key.toNat < 0x80) (hkey : key.toNat = n * 8) (hn : 0 < n)
    (hv : v < 2 ^ 64)
    (hfc : ∀ i m, fc n 0 d i m = some do let (v, i) ← varint32Case field 0 d i; pure (i, set m v)) :
    Chunk.Truncates name fc d ⟨varintField key v, upd⟩ := by
  intro j r m hr hrl
  dsimp only at hrl
  have hne : varintField key v ≠ [] := List.ne_nil_of_length_pos (by omega)
  rw [varintField_of_ne_nil hne] at hrl ⊢
  exact truncates_varint32 name fc d n set upd hk hkey hn hv hfc j r m hr hrl

/-- The loop over whole chunks, then a chunk cut short, returns `io.ErrUnexpectedEOF`. -/
theorem unmarshalLoop_truncated {c : Chunk M} (hc : c.Truncates name fc d) {r : Nat}
    (hr : 0 < r) (hrl : r < c.bytes.length) :
    ∀ (cs : List (Chunk M)) (j fuel : Nat) (m : M), (∀ c ∈ cs, c.Reads name fc d) →
      d.drop j = (cs.map Chunk.bytes).flatten ++ c.bytes.take r →
      j + (cs.map Chunk.bytes).flatten.length + c.bytes.length < 2 ^ 63 → d.length < j + fuel →
      unmarshalLoop name fc d fuel j m = .error (.error .unexpectedEOF)
  | [], j, fuel, m, _, hd, hl, hf => by
    have hlen := congrArg List.length hd
    simp only [List.length_drop, List.map_nil, List.flatten_nil, List.nil_append,
      List.length_take] at hlen hd hl
    obtain ⟨fuel, rfl⟩ : ∃ f, fuel = f + 1 := ⟨fuel - 1, by omega⟩
    exact hc j r m hr hrl hd (by omega) fuel
  | c' :: cs, j, fuel, m, hcs, hd, hl, hf => by
    have hcs' : ∀ c ∈ cs, c.Reads name fc d := fun c h => hcs c (List.mem_cons_of_mem _ h)
    simp only [List.map_cons, List.flatten_cons, List.length_append, List.append_assoc] at hd hl
    by_cases he : c'.bytes = []
    · rw [he, List.nil_append] at hd
      exact unmarshalLoop_truncated hc hr hrl cs j fuel m hcs' hd (by rw [he] at hl; simpa using hl) hf
    · have hlen := congrArg List.length hd
      have hpos := List.length_pos.2 he
      simp only [List.length_drop, List.length_append, List.length_take] at hlen
      obtain ⟨fuel, rfl⟩ : ∃ f, fuel = f + 1 := ⟨fuel - 1, by omega⟩
      rw [hcs c' (List.mem_cons_self _ _) he j _ m hd fuel]
      exact unmarshalLoop_truncated hc hr hrl cs (j + c'.bytes.length) fuel (c'.update m) hcs'
        (by rw [← List.drop_drop, hd, List.drop_left]) (by omega) (by omega)

end Cuts

/-- A cut of the chunks' bytes falls between two chunks or strictly inside one. -/
theorem take_flatten_cases {M : Type} :
    ∀ (cs : List (Chunk M)) (k : Nat), k ≤ (cs.map Chunk.bytes).flatten.length →
      (∃ j, k = ((cs.take j).map Chunk.bytes).flatten.length) ∨
      ∃ pre c post r, cs = pre ++ c :: post ∧ 0 < r ∧ r < c.bytes.length ∧
        (cs.map Chunk.bytes).flatten.take k = (pre.map Chunk.bytes).flatten ++ c.bytes.take r
  | [], k, hk => .inl ⟨0, by simpa using hk⟩
  | c :: cs, k, hk => by
    simp only [List.map_cons, List.flatten_cons, List.length_append] at hk ⊢
    by_cases h0 : k = 0
    · exact .inl ⟨0, by simp [h0]⟩
    by_cases h1 : k < c.bytes.length
    · exact .inr ⟨[], c, cs, k, rfl, by omega, h1, by
        rw [List.take_append_of_le_length h1.le]; simp⟩
    rcases take_flatten_cases cs (k - c.bytes.length) (by omega) with
      ⟨j, hj⟩ | ⟨pre, c', post, r, rfl, hr, hrl, ht⟩
    · exact .inl ⟨j + 1, by simp only [List.take_succ_cons, List.map_cons, List.flatten_cons,
        List.length_append]; omega⟩
    · refine .inr ⟨c :: pre, c', post, r, rfl, hr, hrl, ?_⟩
      rw [List.take_append_eq_append_take, List.take_of_length_le (by omega), ht]
      simp

/-! ## Decoding the first `k` bytes -/

section Take

variable {M : Type} {name : String} {fc : FieldCase M} (cs : List (Chunk M))

/-- Cut between two chunks, the loop returns the message the chunks before the cut build. -/
theorem unmarshalLoop_take_between (hr : ∀ d : Bytes, d.length < 2 ^ 63 → ∀ c ∈ cs, c.Reads name fc d)
    (hl : (cs.map Chunk.bytes).flatten.length < 2 ^ 63) {k : Nat} (j : Nat)
    (hk : k = ((cs.map Chunk.bytes).take j).flatten.length) (m : M) :
    unmarshalLoop name fc ((cs.map Chunk.bytes).flatten.take k)
      (((cs.map Chunk.bytes).flatten.take k).length + 1) 0 m = .ok (Chunk.run (cs.take j) m) := by
  have he : (cs.map Chunk.bytes).flatten =
      ((cs.map Chunk.bytes).take j).flatten ++ ((cs.map Chunk.bytes).drop j).flatten := by
    rw [← List.flatten_append, List.take_append_drop]
  have hd : (cs.map Chunk.bytes).flatten.take k = ((cs.take j).map Chunk.bytes).flatten := by
    rw [he, hk, List.take_left, List.map_take]
  have hdl : ((cs.take j).map Chunk.bytes).flatten.length < 2 ^ 63 := by
    rw [← hd]; exact Nat.lt_of_le_of_lt (List.length_take_le' _ _) hl
  rw [hd]
  have h := unmarshalLoop_run name fc _ (cs.take j) 0
    (((cs.take j).map Chunk.bytes).flatten.length + 1) m
    (fun c hc => hr _ hdl c (List.mem_of_mem_take hc)) (List.drop_zero _) (Nat.zero_le _)
    (by omega)
  rwa [Nat.cast_zero] at h

/-- Cut strictly inside a chunk, the loop returns `io.ErrUnexpectedEOF`. -/
theorem unmarshalLoop_take_inside (hr : ∀ d : Bytes, d.length < 2 ^ 63 → ∀ c ∈ cs, c.Reads name fc d)
    (ht : ∀ d : Bytes, ∀ c ∈ cs, c.Truncates name fc d)
    (hl : (cs.map Chunk.bytes).flatten.length < 2 ^ 63) {k : Nat}
    (hk : k ≤ (cs.map Chunk.bytes).flatten.length)
    (hb : ∀ j, k ≠ ((cs.map Chunk.bytes).take j).flatten.length) (m : M) :
    unmarshalLoop name fc ((cs.map Chunk.bytes).flatten.take k)
      (((cs.map Chunk.bytes).flatten.take k).length + 1) 0 m = .error (.error .unexpectedEOF) := by
  obtain ⟨j, hj⟩ | ⟨pre, c, post, r, rfl, hr0, hrl, hd⟩ := take_flatten_cases cs k hk
  · exact absurd (by rw [hj, List.map_take]) (hb j)
  · have hlen : (pre.map Chunk.bytes).flatten.length + c.bytes.length ≤
        ((pre ++ c :: post).map Chunk.bytes).flatten.length := by simp
    have hdl := Nat.lt_of_le_of_lt (List.length_take_le' k _) hl
    exact unmarshalLoop_truncated name fc _ (ht _ c (by simp)) hr0 hrl pre 0 _ m
      (fun c' hc' => hr _ hdl c' (List.mem_append_left _ hc')) (by rw [List.drop_zero, hd])
      (by omega) (by omega)

end Take

/-! ## The four messages -/

theorem Command.chunks_truncate (x : Command) (d : Bytes) :
    ∀ c ∈ x.chunks, c.Truncates "Command" Command.fieldCase d := by
  simp only [Command.chunks, List.mem_cons, List.mem_singleton, List.not_mem_nil, or_false]
  rintro c (rfl | rfl | rfl)
  · exact truncates_bytesField _ Command.fieldCase _ 1 (fun x s => { x with uid := s }) _
      (by decide) (by decide) (by decide) (fun _ _ => rfl)
  · exact truncates_varintField _ Command.fieldCase _ 2
      (fun x v => { x with method := BitVec.ofNat 32 v }) _ _ (by decide) (by decide) (by decide)
      x.method.toUint64_lt (fun _ _ => rfl)
  · exact truncates_string _ Command.fieldCase _ 3 (fun x s => { x with params := rawUnmarshal x.params s }) _
      (by decide) (by decide) (by decide) (fun _ _ => rfl)

theorem Node.chunks_truncate (x : Node) (d : Bytes) :
    ∀ c ∈ x.chunks, c.Truncates "Node" Node.fieldCase d := by
  simp only [Node.chunks, List.mem_cons, List.mem_singleton, List.not_mem_nil, or_false]
  rintro c (rfl | rfl | rfl | rfl | rfl | rfl | rfl)
  · exact truncates_bytesField _ Node.fieldCase _ 1 (fun x s => { x with uid := s }) _
      (by decide) (by decide) (by decide) (fun _ _ => rfl)
  · exact truncates_bytesField _ Node.fieldCase _ 2 (fun x s => { x with name := s }) _
      (by decide) (by decide) (by decide) (fun _ _ => rfl)
  · exact truncates_bytesField _ Node.fieldCase _ 3 (fun x s => { x with version := s }) _
      (by decide) (by decide) (by decide) (fun _ _ => rfl)
  · exact truncates_varintField _ Node.fieldCase _ 4
      (fun x v => { x with numClients := UInt32.ofNat v }) _ _ (by decide) (by decide)
      (by decide) (toNat_lt_uint64 _) (fun _ _ => rfl)
  · exact truncates_varintField _ Node.fieldCase _ 5
      (fun x v => { x with numUsers := UInt32.ofNat v }) _ _ (by decide) (by decide)
      (by decide) (toNat_lt_uint64 _) (fun _ _ => rfl)
  · exact truncates_varintField _ Node.fieldCase _ 6
      (fun x v => { x with numChannels := UInt32.ofNat v }) _ _ (by decide) (by decide)
      (by decide) (toNat_lt_uint64 _) (fun _ _ => rfl)
  · exact truncates_varintField _ Node.fieldCase _ 7
      (fun x v => { x with uptime := UInt32.ofNat v }) _ _ (by decide) (by decide)
      (by decide) (toNat_lt_uint64 _) (fun _ _ => rfl)

theorem Unsubscribe.chunks_truncate (x : Unsubscribe) (d : Bytes) :
    ∀ c ∈ x.chunks, c.Truncates "Unsubscribe" Unsubscribe.fieldCase d := by
  simp only [Unsubscribe.chunks, List.mem_cons, List.mem_singleton, List.not_mem_nil, or_false]
  rintro c (rfl | rfl)
  · exact truncates_bytesField _ Unsubscribe.fieldCase _ 1 (fun x s => { x with channel := s }) _
      (by decide) (by decide) (by decide) (fun _ _ => rfl)
  · exact truncates_bytesField _ Unsubscribe.fieldCase _ 2 (fun x s => { x with user := s }) _
      (by decide) (by decide) (by decide) (fun _ _ => rfl)

theorem Disconnect.chunks_truncate (x : Disconnect) (d : Bytes) :
    ∀ c ∈ x.chunks, c.Truncates "Disconnect" Disconnect.fieldCase d := by
  simp only [Disconnect.chunks, List.mem_singleton]
  rintro c rfl
  exact truncates_bytesField _ Disconnect.fieldCase _ 1 (fun x s => { x with user := s }) _
    (by decide) (by decide) (by decide) (fun _ _ => rfl)

/-- A cut of `MarshalTo`'s output never decodes to a wrong message, for each of the four
messages: the first `k` bytes of `x`'s encoding, decoded into `m`, give `m` with the fields of
`x` that lie wholly in them when the cut falls between two fields, and `io.ErrUnexpectedEOF`
when it falls strictly inside one. Only the encoding's length, an `int`, is bounded. -/
theorem unmarshal_truncated :
    (∀ (x m : Command) (k : Nat), x.encode.length < 2 ^ 63 →
      (∀ j, k = (x.fields.take j).flatten.length →
        m.unmarshal (x.encode.take k) = .ok (Chunk.run (x.chunks.take j) m)) ∧
      (k ≤ x.encode.length → (∀ j, k ≠ (x.fields.take j).flatten.length) →
        m.unmarshal (x.encode.take k) = .error (.error .unexpectedEOF))) ∧
    (∀ (x m : Node) (k : Nat), x.encode.length < 2 ^ 63 →
      (∀ j, k = (x.fields.take j).flatten.length →
        m.unmarshal (x.encode.take k) = .ok (Chunk.run (x.chunks.take j) m)) ∧
      (k ≤ x.encode.length → (∀ j, k ≠ (x.fields.take j).flatten.length) →
        m.unmarshal (x.encode.take k) = .error (.error .unexpectedEOF))) ∧
    (∀ (x m : Unsubscribe) (k : Nat), x.encode.length < 2 ^ 63 →
      (∀ j, k = (x.fields.take j).flatten.length →
        m.unmarshal (x.encode.take k) = .ok (Chunk.run (x.chunks.take j) m)) ∧
      (k ≤ x.encode.length → (∀ j, k ≠ (x.fields.take j).flatten.length) →
        m.unmarshal (x.encode.take k) = .error (.error .unexpectedEOF))) ∧
    (∀ (x m : Disconnect) (k : Nat), x.encode.length < 2 ^ 63 →
      (∀ j, k = (x.fields.take j).flatten.length →
        m.unmarshal (x.encode.take k) = .ok (Chunk.run (x.chunks.take j) m)) ∧
      (k ≤ x.encode.length → (∀ j, k ≠ (x.fields.take j).flatten.length) →
        m.unmarshal (x.encode.take k) = .error (.error .unexpectedEOF))) := by
  refine ⟨fun x m k hl => ?_, fun x m k hl => ?_, fun x m k hl => ?_, fun x m k hl => ?_⟩
  all_goals
    rw [x.encode_eq_fields, show x.fields = x.chunks.map Chunk.bytes from rfl] at hl ⊢
    exact ⟨fun j hk => unmarshalLoop_take_between x.chunks (fun _ hd => x.chunks_read hd) hl j hk m,
      fun hk hb => unmarshalLoop_take_inside x.chunks (fun _ hd => x.chunks_read hd)
        x.chunks_truncate hl hk hb m⟩

unseal varint in
/-- `Command { UID: "A", Method: 3, Params: [7] }` is `0a 01 41 10 03 1a 01 07`: cut after
its second field it decodes to `UID` and `Method` alone, cut after the third field's tag it
is an unexpected EOF. -/
theorem unmarshal_truncated_command :
    Command.unmarshal {} (({ uid := [0x41], method := 3, params := [7] } : Command).encode.take 5) =
      .ok { uid := [0x41], method := 3 } ∧
    Command.unmarshal {} (({ uid := [0x41], method := 3, params := [7] } : Command).encode.take 6) =
      .error (.error .unexpectedEOF) := by
  refine ⟨((unmarshal_truncated.1 _ {} 5 (by decide)).1 2 (by decide)).trans rfl,
    (unmarshal_truncated.1 _ {} 6 (by decide)).2 (by decide) fun j => ?_⟩
  rcases j with _ | _ | _ | j <;> simp only [Command.fields, List.take, List.take_nil] <;> decide

end Centrifuge.Control
