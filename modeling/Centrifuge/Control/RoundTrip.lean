import Centrifuge.Control.Unmarshal

/-!
# Decoding what `Marshal` wrote

Two facts about the four decoders, both over every message:

> the round trip: `Unmarshal` of `Marshal(m)` into a zero message gives back `m`;
>
> forward compatibility: well-formed fields with undeclared numbers, inserted
> anywhere between the fields of `Marshal(m)`, are stepped over and change nothing.

The proof follows the loop. A `Chunk` is a run of input bytes with what one pass of
the loop over it does to the message; `Chunk.Reads` says a pass reads the chunk
wherever it starts, and `unmarshalLoop_run` chains the passes over a list of chunks
that fills the input (step lemma, then the run by induction on the list). Every
declared field's chunk is read by its case (`pass_string`, `pass_varint32`) and
every unknown field by `default` (`pass_skip`); each message's encoding is the
join of its field chunks (`X.chunks`), and those chunks set the message's fields
one by one (`X.run_chunks`).
-/

namespace Centrifuge.Control

/-- A run of a decoder's input bytes and what reading it does to the message. -/
structure Chunk (M : Type) where
  bytes : Bytes
  update : M → M

/-- The message after reading `cs` from `m`: an empty chunk is no pass at all. -/
def Chunk.run {M : Type} (cs : List (Chunk M)) (m : M) : M :=
  cs.foldl (fun m c => if c.bytes = [] then m else c.update m) m

@[simp] theorem Chunk.run_nil {M : Type} (m : M) : Chunk.run [] m = m := rfl

@[simp] theorem Chunk.run_cons {M : Type} (c : Chunk M) (cs : List (Chunk M)) (m : M) :
    Chunk.run (c :: cs) m = Chunk.run cs (if c.bytes = [] then m else c.update m) := rfl

section Passes

variable {M : Type} (name : String) (fc : FieldCase M) (d : Bytes)

/-- One pass of the loop at `j` reads the bytes `c`, turns `m` into `m'` and goes on
right after `c`. -/
def Pass (j : Nat) (c : Bytes) (m m' : M) : Prop :=
  ∀ fuel, unmarshalLoop name fc d (fuel + 1) j m =
    unmarshalLoop name fc d fuel ((j + c.length : Nat) : Int) m'

/-- Wherever a non-empty chunk starts in `d`, one pass reads it. -/
def Chunk.Reads (c : Chunk M) : Prop :=
  c.bytes ≠ [] → ∀ j rest m, d.drop j = c.bytes ++ rest → Pass name fc d j c.bytes m (c.update m)

/-- The loop over chunks that fill `d` from `j` to its end, with fuel for a pass per
byte left, returns the message they build. -/
theorem unmarshalLoop_run : ∀ (cs : List (Chunk M)) (j fuel : Nat) (m : M),
    (∀ c ∈ cs, c.Reads name fc d) → d.drop j = (cs.map Chunk.bytes).flatten → j ≤ d.length →
    d.length < j + fuel → unmarshalLoop name fc d fuel j m = .ok (Chunk.run cs m)
  | [], j, fuel + 1, m, _, hd, hj, _ => by
    obtain rfl : j = d.length := by
      have := congrArg List.length hd
      simp only [List.length_drop, List.map_nil, List.flatten_nil, List.length_nil] at this
      omega
    exact unmarshalLoop_end
  | c :: cs, j, fuel + 1, m, hr, hd, hj, hf => by
    have hr' : ∀ c ∈ cs, c.Reads name fc d := fun c h => hr c (List.mem_cons_of_mem _ h)
    simp only [List.map_cons, List.flatten_cons] at hd
    rw [Chunk.run_cons]
    by_cases hc : c.bytes = []
    · rw [if_pos hc]
      exact unmarshalLoop_run cs j (fuel + 1) m hr' (by rw [hd, hc, List.nil_append]) hj hf
    · have hlen := congrArg List.length hd
      have hpos := List.length_pos.2 hc
      simp only [List.length_drop, List.length_append] at hlen
      rw [if_neg hc, hr c (List.mem_cons_self _ _) hc j _ m hd fuel]
      exact unmarshalLoop_run cs (j + c.bytes.length) fuel (c.update m) hr'
        (by rw [← List.drop_drop, hd, List.drop_left]) (by omega) (by omega)
  | _, j, 0, _, _, _, hj, hf => absurd hf (by omega)

/-- A declared string field, whose case reads the string with `stringCase` and stores
it with `set`: one pass reads the whole field. -/
theorem pass_string {key : UInt8} {n : Nat} {field : String} {set : M → Bytes → M}
    {s rest : Bytes} {j : Nat} {m : M} (hk : key.toNat < 0x80) (hkey : key.toNat = n * 8 + 2)
    (hn : 0 < n)
    (hfc : ∀ i m, fc n 2 d i m = some do let (s, i) ← stringCase field 2 d i; pure (i, set m s))
    (hd : d.drop j = (key :: varint s.length ++ s) ++ rest) (hl : d.length < 2 ^ 63) :
    Pass name fc d j (key :: varint s.length ++ s) m (set m s) := by
  intro fuel
  have hvk : varint key.toNat = [key] := by rw [varint_of_lt hk, toUInt8_toNat]
  obtain ⟨hnum, hwt⟩ := @tag_fieldNum n 2 (by omega) (by decide)
  rw [← hkey] at hnum hwt
  have hd' : d.drop j = varint key.toNat ++ (varint s.length ++ s ++ rest) := by
    rw [hd, hvk]; simp
  rw [unmarshalLoop_tag (by omega) hd' (by rw [hwt]; decide) (by rw [hnum]; omega), hnum, hwt,
    hfc]
  rw [stringCase_eq field (by rw [← List.drop_drop, hd', List.drop_left]) hl, Res.ok_bind]
  simp only [hvk, List.length_cons, List.length_append, List.length_nil, pure_bind]
  exact congrArg (fun i : Nat => unmarshalLoop name fc d fuel i (set m s)) (by omega)

/-- A declared 32-bit varint field, whose case reads the varint with `varint32Case`
and stores it with `set`: one pass reads the whole field. -/
theorem pass_varint32 {key : UInt8} {n v : Nat} {field : String} {set : M → Nat → M}
    {rest : Bytes} {j : Nat} {m : M} (hk : key.toNat < 0x80) (hkey : key.toNat = n * 8)
    (hn : 0 < n) (hv : v < 2 ^ 64)
    (hfc : ∀ i m, fc n 0 d i m = some do let (v, i) ← varint32Case field 0 d i; pure (i, set m v))
    (hd : d.drop j = (key :: varint v) ++ rest) :
    Pass name fc d j (key :: varint v) m (set m (v % 2 ^ 32)) := by
  intro fuel
  have hvk : varint key.toNat = [key] := by rw [varint_of_lt hk, toUInt8_toNat]
  obtain ⟨hnum, hwt⟩ := @tag_fieldNum n 0 (by omega) (by decide)
  rw [Nat.add_zero, ← hkey] at hnum hwt
  have hd' : d.drop j = varint key.toNat ++ (varint v ++ rest) := by
    rw [hd, hvk]; simp
  rw [unmarshalLoop_tag (by omega) hd' (by rw [hwt]; decide) (by rw [hnum]; omega), hnum, hwt,
    hfc]
  rw [varint32Case_eq field hv (by rw [← List.drop_drop, hd', List.drop_left]), Res.ok_bind]
  simp only [hvk, List.length_cons, List.length_nil, pure_bind]
  exact congrArg (fun i : Nat => unmarshalLoop name fc d fuel i (set m (v % 2 ^ 32))) (by omega)

/-- A well-formed field whose number no case declares: `default` steps over it in one
pass and the message is unchanged. -/
theorem pass_skip {f : WireField} {rest : Bytes} {j : Nat} {m : M} (hf : f.WellFormed)
    (hfc : ∀ wt i m, fc f.num wt d i m = none) (hd : d.drop j = f.encode ++ rest)
    (hl : d.length < 2 ^ 63) :
    Pass name fc d j f.encode m m := by
  intro fuel
  obtain ⟨wt, tl, hwt, hwt4, hft⟩ := f.encode_eq_tag
  obtain ⟨hnum, hwt'⟩ := tag_fieldNum hf.num_lt.2 hwt
  have hd' : d.drop j = varint (f.num * 8 + wt) ++ (tl ++ rest) := by
    rw [hd, hft, List.append_assoc]
  rw [unmarshalLoop_tag (tag_lt hf.num_lt.2 hwt) hd' (by rw [hwt']; exact hwt4)
    (by rw [hnum]; exact_mod_cast hf.num_lt.1), hnum, hwt', hfc]
  dsimp only
  rw [skipCase_encode hf hd hl, Res.ok_bind]

/-- A string field's chunk is read by its case. -/
theorem reads_bytesField (n : Nat) {key : UInt8} {field : String} (set : M → Bytes → M)
    (s : Bytes) (hk : key.toNat < 0x80) (hkey : key.toNat = n * 8 + 2) (hn : 0 < n)
    (hfc : ∀ i m, fc n 2 d i m = some do let (s, i) ← stringCase field 2 d i; pure (i, set m s))
    (hl : d.length < 2 ^ 63) :
    Chunk.Reads name fc d ⟨bytesField key s, fun x => set x s⟩ := by
  intro hne j rest m hd
  dsimp only at hne hd ⊢
  rw [bytesField_of_ne_nil hne] at hd ⊢
  exact pass_string name fc d hk hkey hn hfc hd hl

/-- A `proto.Raw` field's chunk is read by its case. -/
theorem reads_rawField (n : Nat) {key : UInt8} {field : String} (set : M → Bytes → M)
    (p : Bytes) (hk : key.toNat < 0x80) (hkey : key.toNat = n * 8 + 2) (hn : 0 < n)
    (hfc : ∀ i m, fc n 2 d i m = some do let (s, i) ← stringCase field 2 d i; pure (i, set m s))
    (hl : d.length < 2 ^ 63) :
    Chunk.Reads name fc d ⟨rawField key p, fun x => set x p⟩ :=
  fun _ _ _ _ hd => pass_string name fc d hk hkey hn hfc hd hl

/-- A 32-bit varint field's chunk is read by its case, which stores the value modulo
`2^32`; `upd` is what that store does. -/
theorem reads_varintField (n : Nat) {key : UInt8} {field : String} (set : M → Nat → M)
    (v : Nat) (upd : M → M) (hk : key.toNat < 0x80) (hkey : key.toNat = n * 8) (hn : 0 < n)
    (hv : v < 2 ^ 64)
    (hfc : ∀ i m, fc n 0 d i m = some do let (v, i) ← varint32Case field 0 d i; pure (i, set m v))
    (hupd : ∀ x, set x (v % 2 ^ 32) = upd x) :
    Chunk.Reads name fc d ⟨varintField key v, upd⟩ := by
  intro hne j rest m hd
  dsimp only at hne hd ⊢
  rw [varintField_of_ne_nil hne] at hd ⊢
  rw [← hupd]
  exact pass_varint32 name fc d hk hkey hn hv hfc hd

/-- An unknown field's chunk, which changes nothing, is read by `default`. -/
theorem reads_unknown {f : WireField} (hf : f.WellFormed)
    (hfc : ∀ wt i m, fc f.num wt d i m = none) (hl : d.length < 2 ^ 63) :
    Chunk.Reads name fc d ⟨f.encode, id⟩ :=
  fun _ _ _ _ hd => pass_skip name fc d hf hfc hd hl

end Passes

/-! ## Fields of a message, known and unknown -/

section Splice

variable {M : Type}

/-- Reading a chunk whose update would leave `x` alone when the chunk is empty. -/
theorem Chunk.run_cons_of {c : Chunk M} {cs : List (Chunk M)} {x : M}
    (h : c.bytes = [] → c.update x = x) : Chunk.run (c :: cs) x = Chunk.run cs (c.update x) := by
  rw [Chunk.run_cons]
  split_ifs with hc
  · rw [h hc]
  · rfl

/-- The bytes of fields of a message interleaved with unknown fields. -/
def splice (pieces : List (Bytes ⊕ WireField)) : Bytes :=
  (pieces.map (Sum.elim id WireField.encode)).flatten

/-- An unknown field as a chunk: it changes nothing. -/
def unknownChunk (f : WireField) : Chunk M := ⟨f.encode, id⟩

/-- Interleaved pieces whose known ones are the bytes of chunks `cs` come from pieces
over the chunks themselves. -/
theorem exists_chunks_of_getLeft : ∀ (pieces : List (Bytes ⊕ WireField)) (cs : List (Chunk M)),
    pieces.filterMap Sum.getLeft? = cs.map Chunk.bytes →
      ∃ ps : List (Chunk M ⊕ WireField), ps.map (Sum.map Chunk.bytes id) = pieces ∧
        ps.filterMap Sum.getLeft? = cs
  | [], cs, h => ⟨[], rfl, by cases cs <;> simp_all⟩
  | .inr f :: pieces, cs, h => by
    obtain ⟨ps, h1, h2⟩ := exists_chunks_of_getLeft pieces cs (by simpa using h)
    exact ⟨.inr f :: ps, by simp [h1], by simpa using h2⟩
  | .inl b :: pieces, [], h => by simp at h
  | .inl b :: pieces, c :: cs, h => by
    simp only [List.filterMap_cons, Sum.getLeft?_inl, List.map_cons, List.cons.injEq] at h
    obtain ⟨ps, h1, h2⟩ := exists_chunks_of_getLeft pieces cs h.2
    exact ⟨.inl c :: ps, by simp [h1, h.1], by simpa using h2⟩

/-- Unknown fields between the chunks change nothing. -/
theorem Chunk.run_interleave : ∀ (ps : List (Chunk M ⊕ WireField)) (x : M),
    Chunk.run (ps.map (Sum.elim id unknownChunk)) x = Chunk.run (ps.filterMap Sum.getLeft?) x
  | [], _ => rfl
  | .inl c :: ps, x => by
    simp only [List.map_cons, Sum.elim_inl, id, List.filterMap_cons, Sum.getLeft?_inl,
      Chunk.run_cons]
    exact Chunk.run_interleave ps _
  | .inr f :: ps, x => by
    simp only [List.map_cons, Sum.elim_inr, List.filterMap_cons, Sum.getLeft?_inr,
      Chunk.run_cons, unknownChunk, id, ite_self]
    exact Chunk.run_interleave ps x

/-- Decoding pieces: the known ones are chunks `cs` a pass reads, the unknown ones
well-formed fields no case declares. The loop returns what `cs` builds. -/
theorem unmarshalLoop_splice {name : String} {fc : FieldCase M} {cs : List (Chunk M)}
    (pieces : List (Bytes ⊕ WireField)) (m : M)
    (hcs : pieces.filterMap Sum.getLeft? = cs.map Chunk.bytes)
    (hr : ∀ c ∈ cs, c.Reads name fc (splice pieces))
    (hu : ∀ f ∈ pieces.filterMap Sum.getRight?, f.WellFormed ∧ ∀ wt d i m, fc f.num wt d i m = none)
    (hl : (splice pieces).length < 2 ^ 63) :
    unmarshalLoop name fc (splice pieces) ((splice pieces).length + 1) 0 m = .ok (Chunk.run cs m) := by
  obtain ⟨ps, rfl, rfl⟩ := exists_chunks_of_getLeft pieces cs hcs
  set d := splice (ps.map (Sum.map Chunk.bytes id)) with hd
  have hsplice : d = ((ps.map (Sum.elim id unknownChunk)).map Chunk.bytes).flatten := by
    simp only [hd, splice, List.map_map]
    congr 2
    funext p
    cases p <;> rfl
  have hr' : ∀ c ∈ ps.map (Sum.elim id unknownChunk), c.Reads name fc d := by
    intro c hc
    obtain ⟨p, hp, rfl⟩ := List.mem_map.1 hc
    cases p with
    | inl c => exact hr c (List.mem_filterMap.2 ⟨_, hp, rfl⟩)
    | inr f =>
      obtain ⟨hf, hn⟩ := hu f (List.mem_filterMap.2 ⟨_, List.mem_map_of_mem _ hp, rfl⟩)
      exact reads_unknown _ fc _ hf (fun wt => hn wt _) hl
  have h := unmarshalLoop_run name fc d _ 0 (d.length + 1) m hr'
    (by rw [List.drop_zero, hsplice]) (Nat.zero_le _) (by omega)
  rw [Nat.cast_zero, Chunk.run_interleave] at h
  exact h

end Splice

/-! ## The four messages

For each message: its fields as `MarshalTo` writes them (`X.fields`, whose join is
`X.encode`), the same fields as chunks with the message field each one sets, that
every chunk is read by its case, that the chunks build the message from the zero
message, and that every undeclared field number falls to `default`. -/

/-- `Command`'s fields on the wire, in `MarshalTo`'s order. -/
def Command.fields (m : Command) : List Bytes :=
  [bytesField 0x0a m.uid, varintField 0x10 m.method.toUint64, rawField 0x1a m.params]

/-- `Command`'s fields with the message field each one sets. -/
def Command.chunks (m : Command) : List (Chunk Command) :=
  [⟨bytesField 0x0a m.uid, fun x => { x with uid := m.uid }⟩,
   ⟨varintField 0x10 m.method.toUint64, fun x => { x with method := m.method }⟩,
   ⟨rawField 0x1a m.params, fun x => { x with params := rawUnmarshal x.params m.params }⟩]

theorem Command.encode_eq_fields (m : Command) : m.encode = m.fields.flatten := by
  simp [Command.encode, Command.fields]

theorem Command.chunks_read (m : Command) {d : Bytes} (hl : d.length < 2 ^ 63) :
    ∀ c ∈ m.chunks, c.Reads "Command" Command.fieldCase d := by
  simp only [Command.chunks, List.mem_cons, List.mem_singleton, List.not_mem_nil, or_false]
  rintro c (rfl | rfl | rfl)
  · exact reads_bytesField _ Command.fieldCase _ 1 (fun x s => { x with uid := s }) _
      (by decide) (by decide) (by decide) (fun _ _ => rfl) hl
  · exact reads_varintField _ Command.fieldCase _ 2 (fun x v => { x with method := BitVec.ofNat 32 v })
      _ _ (by decide) (by decide) (by decide) m.method.toUint64_lt (fun _ _ => rfl)
      (fun _ => by dsimp only; rw [MethodType.ofNat_toUint64])
  · exact reads_rawField _ Command.fieldCase _ 3 (fun x s => { x with params := rawUnmarshal x.params s }) _
      (by decide) (by decide) (by decide) (fun _ _ => rfl) hl

theorem Command.run_chunks (m : Command) : Chunk.run m.chunks {} = m := by
  rw [Command.chunks, Chunk.run_cons_of, Chunk.run_cons_of, Chunk.run_cons_of, Chunk.run_nil]
  · exact congrArg (fun p => { m with params := p }) (rawUnmarshal_nil_left m.params)
  all_goals intro h
  · exact absurd h (List.cons_ne_nil _ _)
  · rw [MethodType.toUint64_eq_zero.1 (eq_zero_of_varintField h)]
  · rw [eq_nil_of_bytesField h]

theorem Command.fieldCase_undeclared {n : Nat} (h : n ∉ [1, 2, 3]) (wt : Nat) (d : Bytes)
    (i : Int) (m : Command) : Command.fieldCase n wt d i m = none := by
  simp only [List.mem_cons, List.mem_singleton, List.not_mem_nil, or_false, not_or] at h
  unfold Command.fieldCase
  split <;> first | rfl | omega

/-- `Node`'s fields on the wire, in `MarshalTo`'s order. -/
def Node.fields (m : Node) : List Bytes :=
  [bytesField 0x0a m.uid, bytesField 0x12 m.name, bytesField 0x1a m.version,
    varintField 0x20 m.numClients.toNat, varintField 0x28 m.numUsers.toNat,
    varintField 0x30 m.numChannels.toNat, varintField 0x38 m.uptime.toNat]

/-- `Node`'s fields with the message field each one sets. -/
def Node.chunks (m : Node) : List (Chunk Node) :=
  [⟨bytesField 0x0a m.uid, fun x => { x with uid := m.uid }⟩,
   ⟨bytesField 0x12 m.name, fun x => { x with name := m.name }⟩,
   ⟨bytesField 0x1a m.version, fun x => { x with version := m.version }⟩,
   ⟨varintField 0x20 m.numClients.toNat, fun x => { x with numClients := m.numClients }⟩,
   ⟨varintField 0x28 m.numUsers.toNat, fun x => { x with numUsers := m.numUsers }⟩,
   ⟨varintField 0x30 m.numChannels.toNat, fun x => { x with numChannels := m.numChannels }⟩,
   ⟨varintField 0x38 m.uptime.toNat, fun x => { x with uptime := m.uptime }⟩]

theorem Node.encode_eq_fields (m : Node) : m.encode = m.fields.flatten := by
  simp [Node.encode, Node.fields]

theorem toNat_lt_uint64 (x : UInt32) : x.toNat < 2 ^ 64 :=
  Nat.lt_trans x.toNat_lt_size (by decide)

theorem Node.chunks_read (m : Node) {d : Bytes} (hl : d.length < 2 ^ 63) :
    ∀ c ∈ m.chunks, c.Reads "Node" Node.fieldCase d := by
  simp only [Node.chunks, List.mem_cons, List.mem_singleton, List.not_mem_nil, or_false]
  rintro c (rfl | rfl | rfl | rfl | rfl | rfl | rfl)
  · exact reads_bytesField _ Node.fieldCase _ 1 (fun x s => { x with uid := s }) _
      (by decide) (by decide) (by decide) (fun _ _ => rfl) hl
  · exact reads_bytesField _ Node.fieldCase _ 2 (fun x s => { x with name := s }) _
      (by decide) (by decide) (by decide) (fun _ _ => rfl) hl
  · exact reads_bytesField _ Node.fieldCase _ 3 (fun x s => { x with version := s }) _
      (by decide) (by decide) (by decide) (fun _ _ => rfl) hl
  · exact reads_varintField _ Node.fieldCase _ 4 (fun x v => { x with numClients := UInt32.ofNat v })
      _ _ (by decide) (by decide) (by decide) (toNat_lt_uint64 _) (fun _ _ => rfl)
      (fun _ => by dsimp only; rw [ofNat_toNat_uint32])
  · exact reads_varintField _ Node.fieldCase _ 5 (fun x v => { x with numUsers := UInt32.ofNat v })
      _ _ (by decide) (by decide) (by decide) (toNat_lt_uint64 _) (fun _ _ => rfl)
      (fun _ => by dsimp only; rw [ofNat_toNat_uint32])
  · exact reads_varintField _ Node.fieldCase _ 6 (fun x v => { x with numChannels := UInt32.ofNat v })
      _ _ (by decide) (by decide) (by decide) (toNat_lt_uint64 _) (fun _ _ => rfl)
      (fun _ => by dsimp only; rw [ofNat_toNat_uint32])
  · exact reads_varintField _ Node.fieldCase _ 7 (fun x v => { x with uptime := UInt32.ofNat v })
      _ _ (by decide) (by decide) (by decide) (toNat_lt_uint64 _) (fun _ _ => rfl)
      (fun _ => by dsimp only; rw [ofNat_toNat_uint32])

theorem Node.run_chunks (m : Node) : Chunk.run m.chunks {} = m := by
  rw [Node.chunks, Chunk.run_cons_of, Chunk.run_cons_of, Chunk.run_cons_of, Chunk.run_cons_of,
    Chunk.run_cons_of, Chunk.run_cons_of, Chunk.run_cons_of, Chunk.run_nil]
  all_goals intro h
  all_goals first
    | rw [eq_nil_of_bytesField h]
    | rw [eq_zero_of_toNat_uint32 (eq_zero_of_varintField h)]

theorem Node.fieldCase_undeclared {n : Nat} (h : n ∉ [1, 2, 3, 4, 5, 6, 7]) (wt : Nat)
    (d : Bytes) (i : Int) (m : Node) : Node.fieldCase n wt d i m = none := by
  simp only [List.mem_cons, List.mem_singleton, List.not_mem_nil, or_false, not_or] at h
  unfold Node.fieldCase
  split <;> first | rfl | omega

/-- `Unsubscribe`'s fields on the wire, in `MarshalTo`'s order. -/
def Unsubscribe.fields (m : Unsubscribe) : List Bytes :=
  [bytesField 0x0a m.channel, bytesField 0x12 m.user]

/-- `Unsubscribe`'s fields with the message field each one sets. -/
def Unsubscribe.chunks (m : Unsubscribe) : List (Chunk Unsubscribe) :=
  [⟨bytesField 0x0a m.channel, fun x => { x with channel := m.channel }⟩,
   ⟨bytesField 0x12 m.user, fun x => { x with user := m.user }⟩]

theorem Unsubscribe.encode_eq_fields (m : Unsubscribe) : m.encode = m.fields.flatten := by
  simp [Unsubscribe.encode, Unsubscribe.fields]

theorem Unsubscribe.chunks_read (m : Unsubscribe) {d : Bytes} (hl : d.length < 2 ^ 63) :
    ∀ c ∈ m.chunks, c.Reads "Unsubscribe" Unsubscribe.fieldCase d := by
  simp only [Unsubscribe.chunks, List.mem_cons, List.mem_singleton, List.not_mem_nil, or_false]
  rintro c (rfl | rfl)
  · exact reads_bytesField _ Unsubscribe.fieldCase _ 1 (fun x s => { x with channel := s }) _
      (by decide) (by decide) (by decide) (fun _ _ => rfl) hl
  · exact reads_bytesField _ Unsubscribe.fieldCase _ 2 (fun x s => { x with user := s }) _
      (by decide) (by decide) (by decide) (fun _ _ => rfl) hl

theorem Unsubscribe.run_chunks (m : Unsubscribe) : Chunk.run m.chunks {} = m := by
  rw [Unsubscribe.chunks, Chunk.run_cons_of, Chunk.run_cons_of, Chunk.run_nil]
  all_goals intro h
  all_goals rw [eq_nil_of_bytesField h]

theorem Unsubscribe.fieldCase_undeclared {n : Nat} (h : n ∉ [1, 2]) (wt : Nat) (d : Bytes)
    (i : Int) (m : Unsubscribe) : Unsubscribe.fieldCase n wt d i m = none := by
  simp only [List.mem_cons, List.mem_singleton, List.not_mem_nil, or_false, not_or] at h
  unfold Unsubscribe.fieldCase
  split <;> first | rfl | omega

/-- `Disconnect`'s one field on the wire. -/
def Disconnect.fields (m : Disconnect) : List Bytes := [bytesField 0x0a m.user]

/-- `Disconnect`'s field with the message field it sets. -/
def Disconnect.chunks (m : Disconnect) : List (Chunk Disconnect) :=
  [⟨bytesField 0x0a m.user, fun x => { x with user := m.user }⟩]

theorem Disconnect.encode_eq_fields (m : Disconnect) : m.encode = m.fields.flatten := by
  simp [Disconnect.encode, Disconnect.fields]

theorem Disconnect.chunks_read (m : Disconnect) {d : Bytes} (hl : d.length < 2 ^ 63) :
    ∀ c ∈ m.chunks, c.Reads "Disconnect" Disconnect.fieldCase d := by
  simp only [Disconnect.chunks, List.mem_singleton]
  rintro c rfl
  exact reads_bytesField _ Disconnect.fieldCase _ 1 (fun x s => { x with user := s }) _
    (by decide) (by decide) (by decide) (fun _ _ => rfl) hl

theorem Disconnect.run_chunks (m : Disconnect) : Chunk.run m.chunks {} = m := by
  rw [Disconnect.chunks, Chunk.run_cons_of, Chunk.run_nil]
  intro h
  rw [eq_nil_of_bytesField h]

theorem Disconnect.fieldCase_undeclared {n : Nat} (h : n ∉ [1]) (wt : Nat) (d : Bytes)
    (i : Int) (m : Disconnect) : Disconnect.fieldCase n wt d i m = none := by
  simp only [List.mem_singleton] at h
  unfold Disconnect.fieldCase
  split <;> first | rfl | omega

/-! ## Decoding `Marshal`'s output, with and without unknown fields -/

@[simp] theorem splice_known (bs : List Bytes) : splice (bs.map Sum.inl) = bs.flatten := by
  induction bs <;> simp_all [splice]

@[simp] theorem getLeft_known (bs : List Bytes) :
    (bs.map Sum.inl : List (Bytes ⊕ WireField)).filterMap Sum.getLeft? = bs := by
  induction bs <;> simp_all

@[simp] theorem getRight_known (bs : List Bytes) :
    (bs.map Sum.inl : List (Bytes ⊕ WireField)).filterMap Sum.getRight? = [] := by
  induction bs <;> simp_all

theorem Command.unmarshal_splice (m : Command) (pieces : List (Bytes ⊕ WireField))
    (hcs : pieces.filterMap Sum.getLeft? = m.fields)
    (hu : ∀ f ∈ pieces.filterMap Sum.getRight?, f.WellFormed ∧ f.num ∉ [1, 2, 3])
    (hl : (splice pieces).length < 2 ^ 63) :
    Command.unmarshal {} (splice pieces) = .ok m := by
  rw [Command.unmarshal, @unmarshalLoop_splice _ _ _ m.chunks pieces {} hcs (m.chunks_read hl)
    (fun f hf => ⟨(hu f hf).1, Command.fieldCase_undeclared (hu f hf).2⟩) hl, m.run_chunks]

theorem Node.unmarshal_splice (m : Node) (pieces : List (Bytes ⊕ WireField))
    (hcs : pieces.filterMap Sum.getLeft? = m.fields)
    (hu : ∀ f ∈ pieces.filterMap Sum.getRight?, f.WellFormed ∧ f.num ∉ [1, 2, 3, 4, 5, 6, 7])
    (hl : (splice pieces).length < 2 ^ 63) :
    Node.unmarshal {} (splice pieces) = .ok m := by
  rw [Node.unmarshal, @unmarshalLoop_splice _ _ _ m.chunks pieces {} hcs (m.chunks_read hl)
    (fun f hf => ⟨(hu f hf).1, Node.fieldCase_undeclared (hu f hf).2⟩) hl, m.run_chunks]

theorem Unsubscribe.unmarshal_splice (m : Unsubscribe) (pieces : List (Bytes ⊕ WireField))
    (hcs : pieces.filterMap Sum.getLeft? = m.fields)
    (hu : ∀ f ∈ pieces.filterMap Sum.getRight?, f.WellFormed ∧ f.num ∉ [1, 2])
    (hl : (splice pieces).length < 2 ^ 63) :
    Unsubscribe.unmarshal {} (splice pieces) = .ok m := by
  rw [Unsubscribe.unmarshal, @unmarshalLoop_splice _ _ _ m.chunks pieces {} hcs
    (m.chunks_read hl) (fun f hf => ⟨(hu f hf).1, Unsubscribe.fieldCase_undeclared (hu f hf).2⟩)
    hl, m.run_chunks]

theorem Disconnect.unmarshal_splice (m : Disconnect) (pieces : List (Bytes ⊕ WireField))
    (hcs : pieces.filterMap Sum.getLeft? = m.fields)
    (hu : ∀ f ∈ pieces.filterMap Sum.getRight?, f.WellFormed ∧ f.num ∉ [1])
    (hl : (splice pieces).length < 2 ^ 63) :
    Disconnect.unmarshal {} (splice pieces) = .ok m := by
  rw [Disconnect.unmarshal, @unmarshalLoop_splice _ _ _ m.chunks pieces {} hcs
    (m.chunks_read hl) (fun f hf => ⟨(hu f hf).1, Disconnect.fieldCase_undeclared (hu f hf).2⟩)
    hl, m.run_chunks]

/-- Every message decodes from `Marshal(m)` into the zero message and is `Equal` to what
was marshalled; `Size()` fitting an `int` is all it takes. -/
theorem unmarshal_marshal_equal :
    (∀ m : Command, m.size < 2 ^ 63 →
      ∃ b m', m.marshal = some b ∧ Command.unmarshal {} b = .ok m' ∧ m'.equal m = true) ∧
    (∀ m : Node, m.size < 2 ^ 63 →
      ∃ b m', m.marshal = some b ∧ Node.unmarshal {} b = .ok m' ∧ m'.equal m = true) ∧
    (∀ m : Unsubscribe, m.size < 2 ^ 63 →
      ∃ b m', m.marshal = some b ∧ Unsubscribe.unmarshal {} b = .ok m' ∧ m'.equal m = true) ∧
    (∀ m : Disconnect, m.size < 2 ^ 63 →
      ∃ b m', m.marshal = some b ∧ Disconnect.unmarshal {} b = .ok m' ∧ m'.equal m = true) := by
  refine ⟨fun m hl => ⟨_, m, m.marshal_eq, ?_, Command.equal_iff.2 rfl⟩,
    fun m hl => ⟨_, m, m.marshal_eq, ?_, Node.equal_iff.2 rfl⟩,
    fun m hl => ⟨_, m, m.marshal_eq, ?_, Unsubscribe.equal_iff.2 rfl⟩,
    fun m hl => ⟨_, m, m.marshal_eq, ?_, Disconnect.equal_iff.2 rfl⟩⟩
  all_goals
    rw [m.size_eq, m.encode_eq_fields] at hl
    rw [m.encode_eq_fields, ← splice_known]
    exact m.unmarshal_splice _ (getLeft_known _) (by simp) (by simpa using hl)

unseal sovControl in
theorem unmarshal_marshal_equal_cases :
    (∃ b m', ({ uid := [0x41], method := 3, params := [7] } : Command).marshal = some b ∧
      Command.unmarshal {} b = .ok m' ∧
      m'.equal { uid := [0x41], method := 3, params := [7] } = true) ∧
    (∃ b m', ({ name := [0x6e], uptime := 300 } : Node).marshal = some b ∧
      Node.unmarshal {} b = .ok m' ∧ m'.equal { name := [0x6e], uptime := 300 } = true) ∧
    (∃ b m', ({} : Unsubscribe).marshal = some b ∧ Unsubscribe.unmarshal {} b = .ok m' ∧
      m'.equal {} = true) ∧
    (∃ b m', ({ user := [0x75] } : Disconnect).marshal = some b ∧
      Disconnect.unmarshal {} b = .ok m' ∧ m'.equal { user := [0x75] } = true) :=
  ⟨unmarshal_marshal_equal.1 _ (by decide), unmarshal_marshal_equal.2.1 _ (by decide),
    unmarshal_marshal_equal.2.2.1 _ (by decide), unmarshal_marshal_equal.2.2.2 _ (by decide)⟩

/-- Well-formed fields with numbers no case declares, inserted anywhere between the
fields of `Marshal(m)`, are stepped over: the zero message still decodes to a message
`Equal` to `m`. It rests on `skipControl` returning exactly the length of a well-formed
field, whatever follows it. -/
theorem unmarshal_skips_unknown_fields :
    (∀ (f : WireField) (s : Bytes), f.WellFormed → (f.encode ++ s).length < 2 ^ 63 →
      skipControl (f.encode ++ s) = .ok f.encode.length) ∧
    (∀ (m : Command) (pieces : List (Bytes ⊕ WireField)), m.marshal = some m.fields.flatten ∧
      (pieces.filterMap Sum.getLeft? = m.fields →
        (∀ f ∈ pieces.filterMap Sum.getRight?, f.WellFormed ∧ f.num ∉ [1, 2, 3]) →
        (splice pieces).length < 2 ^ 63 →
        ∃ m', Command.unmarshal {} (splice pieces) = .ok m' ∧ m'.equal m = true)) ∧
    (∀ (m : Node) (pieces : List (Bytes ⊕ WireField)), m.marshal = some m.fields.flatten ∧
      (pieces.filterMap Sum.getLeft? = m.fields →
        (∀ f ∈ pieces.filterMap Sum.getRight?, f.WellFormed ∧ f.num ∉ [1, 2, 3, 4, 5, 6, 7]) →
        (splice pieces).length < 2 ^ 63 →
        ∃ m', Node.unmarshal {} (splice pieces) = .ok m' ∧ m'.equal m = true)) ∧
    (∀ (m : Unsubscribe) (pieces : List (Bytes ⊕ WireField)),
      m.marshal = some m.fields.flatten ∧
      (pieces.filterMap Sum.getLeft? = m.fields →
        (∀ f ∈ pieces.filterMap Sum.getRight?, f.WellFormed ∧ f.num ∉ [1, 2]) →
        (splice pieces).length < 2 ^ 63 →
        ∃ m', Unsubscribe.unmarshal {} (splice pieces) = .ok m' ∧ m'.equal m = true)) ∧
    (∀ (m : Disconnect) (pieces : List (Bytes ⊕ WireField)),
      m.marshal = some m.fields.flatten ∧
      (pieces.filterMap Sum.getLeft? = m.fields →
        (∀ f ∈ pieces.filterMap Sum.getRight?, f.WellFormed ∧ f.num ∉ [1]) →
        (splice pieces).length < 2 ^ 63 →
        ∃ m', Disconnect.unmarshal {} (splice pieces) = .ok m' ∧ m'.equal m = true)) :=
  ⟨fun _ s hf hl => skipControl_encode s hf hl,
    fun m pieces => ⟨by rw [m.marshal_eq, m.encode_eq_fields],
      fun hcs hu hl => ⟨m, m.unmarshal_splice pieces hcs hu hl, Command.equal_iff.2 rfl⟩⟩,
    fun m pieces => ⟨by rw [m.marshal_eq, m.encode_eq_fields],
      fun hcs hu hl => ⟨m, m.unmarshal_splice pieces hcs hu hl, Node.equal_iff.2 rfl⟩⟩,
    fun m pieces => ⟨by rw [m.marshal_eq, m.encode_eq_fields],
      fun hcs hu hl => ⟨m, m.unmarshal_splice pieces hcs hu hl, Unsubscribe.equal_iff.2 rfl⟩⟩,
    fun m pieces => ⟨by rw [m.marshal_eq, m.encode_eq_fields],
      fun hcs hu hl => ⟨m, m.unmarshal_splice pieces hcs hu hl, Disconnect.equal_iff.2 rfl⟩⟩⟩

unseal varint in
theorem unmarshal_skips_unknown_fields_cases :
    skipControl ((WireField.group 3 [.varint 1 300, .fixed32 2 [0, 0, 0, 0]]).encode ++ [0x0a]) =
      .ok (WireField.group 3 [.varint 1 300, .fixed32 2 [0, 0, 0, 0]]).encode.length ∧
    (∃ m', Disconnect.unmarshal {}
      (splice [.inr (.varint 2 7), .inl (bytesField 0x0a [0x75]), .inr (.bytes 9 [1, 2])]) =
        .ok m' ∧ m'.equal { user := [0x75] } = true) ∧
    (∃ m', Command.unmarshal {}
      (splice [.inl (bytesField 0x0a []), .inr (.group 4 [.varint 1 1]),
        .inl (varintField 0x10 (3 : MethodType).toUint64), .inl (rawField 0x1a [])]) =
        .ok m' ∧ m'.equal { method := 3 } = true) :=
  ⟨unmarshal_skips_unknown_fields.1 _ _
      (by simp [WireField.WellFormed, WireField.AllWellFormed]) (by decide),
    (unmarshal_skips_unknown_fields.2.2.2.2 { user := [0x75] } _).2 rfl
      (by simp [WireField.WellFormed, WireField.num]) (by decide),
    (unmarshal_skips_unknown_fields.2.1 { method := 3 } _).2 rfl
      (by simp [WireField.WellFormed, WireField.AllWellFormed, WireField.num]) (by decide)⟩

end Centrifuge.Control
