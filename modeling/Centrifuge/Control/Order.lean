import Centrifuge.Control.Truncate

/-!
# Fields in any order

`MarshalTo` writes a message's fields in the order of their numbers, but the protobuf wire
format lets a sender write them in any order, with fields the receiver does not know between
them. The generated `Unmarshal` loop dispatches on each tag as it comes, so

> `unmarshal_fields_any_order`: `x`'s fields written in any order, with well-formed unknown
> fields anywhere between them, decode into `m` as `x`'s own encoding does: `m` merged with `x`.

A permutation of the fields' bytes is the bytes of a permutation of their chunks
(`exists_perm_chunks`); the loop reads whatever order it meets (`unmarshalLoop_splice`); and
each chunk sets its own field of the message, so any two chunks of one message commute
(`X.chunks_comm`) and every order builds the same message (`Chunk.run_perm`).
-/

namespace Centrifuge.Control

section Perm

variable {M : Type}

/-- A permutation of the chunks' bytes is the bytes of a permutation of the chunks. -/
theorem exists_perm_chunks : ∀ {bs : List Bytes} {cs : List (Chunk M)},
    bs.Perm (cs.map Chunk.bytes) → ∃ cs' : List (Chunk M), cs'.Perm cs ∧ cs'.map Chunk.bytes = bs
  | [], cs, h => ⟨[], by rw [List.map_eq_nil_iff.1 (List.perm_nil.1 h.symm)], rfl⟩
  | b :: bs, cs, h => by
    classical
    obtain ⟨c, hc, rfl⟩ := List.mem_map.1 (h.subset (List.mem_cons_self b bs))
    have hp : cs.Perm (c :: cs.erase c) := List.perm_cons_erase hc
    obtain ⟨cs', hp', hm⟩ := exists_perm_chunks (h.trans (hp.map Chunk.bytes)).cons_inv
    exact ⟨c :: cs', (hp'.cons c).trans hp.symm, by rw [List.map_cons, hm]⟩

/-- Two chunks whose updates commute are read in either order to the same message. -/
theorem Chunk.run_pair_comm {c₁ c₂ : Chunk M}
    (h : ∀ z, c₁.update (c₂.update z) = c₂.update (c₁.update z)) (z : M) :
    Chunk.run [c₁, c₂] z = Chunk.run [c₂, c₁] z := by
  simp only [Chunk.run_cons, Chunk.run_nil]
  split_ifs <;> first | rfl | exact (h z).symm

/-- Reading chunks any two of which commute builds the same message in every order. -/
theorem Chunk.run_perm {cs cs' : List (Chunk M)} (hp : cs'.Perm cs)
    (hc : ∀ c₁ ∈ cs, ∀ c₂ ∈ cs, ∀ z, Chunk.run [c₁, c₂] z = Chunk.run [c₂, c₁] z) (m : M) :
    Chunk.run cs' m = Chunk.run cs m :=
  hp.foldl_eq' (fun c₁ h₁ c₂ h₂ z => hc c₁ (hp.subset h₁) c₂ (hp.subset h₂) z) m

/-- The loop over a message's chunks in any order, with unknown fields between them, builds
what the chunks build in their own order. -/
theorem unmarshalLoop_any_order {name : String} {fc : FieldCase M} {cs : List (Chunk M)}
    (hr : ∀ d : Bytes, d.length < 2 ^ 63 → ∀ c ∈ cs, c.Reads name fc d)
    (hc : ∀ c₁ ∈ cs, ∀ c₂ ∈ cs, ∀ z, Chunk.run [c₁, c₂] z = Chunk.run [c₂, c₁] z)
    (pieces : List (Bytes ⊕ WireField)) (m : M)
    (hperm : (pieces.filterMap Sum.getLeft?).Perm (cs.map Chunk.bytes))
    (hu : ∀ f ∈ pieces.filterMap Sum.getRight?, f.WellFormed ∧ ∀ wt d i m, fc f.num wt d i m = none)
    (hl : (splice pieces).length < 2 ^ 63) :
    unmarshalLoop name fc (splice pieces) ((splice pieces).length + 1) 0 m = .ok (Chunk.run cs m) := by
  obtain ⟨cs', hp, hm⟩ := exists_perm_chunks hperm
  rw [unmarshalLoop_splice pieces m hm.symm (fun c h => hr _ hl c (hp.subset h)) hu hl,
    Chunk.run_perm hp hc]

end Perm

/-! ## The four messages -/

theorem Command.chunks_comm (x : Command) :
    ∀ c₁ ∈ x.chunks, ∀ c₂ ∈ x.chunks, ∀ z, Chunk.run [c₁, c₂] z = Chunk.run [c₂, c₁] z := by
  simp only [Command.chunks, List.mem_cons, List.mem_singleton, List.not_mem_nil, or_false]
  rintro c₁ (rfl | rfl | rfl) c₂ (rfl | rfl | rfl) <;> exact Chunk.run_pair_comm fun _ => rfl

theorem Node.chunks_comm (x : Node) :
    ∀ c₁ ∈ x.chunks, ∀ c₂ ∈ x.chunks, ∀ z, Chunk.run [c₁, c₂] z = Chunk.run [c₂, c₁] z := by
  simp only [Node.chunks, List.mem_cons, List.mem_singleton, List.not_mem_nil, or_false]
  rintro c₁ (rfl | rfl | rfl | rfl | rfl | rfl | rfl) c₂ (rfl | rfl | rfl | rfl | rfl | rfl | rfl) <;>
    exact Chunk.run_pair_comm fun _ => rfl

theorem Unsubscribe.chunks_comm (x : Unsubscribe) :
    ∀ c₁ ∈ x.chunks, ∀ c₂ ∈ x.chunks, ∀ z, Chunk.run [c₁, c₂] z = Chunk.run [c₂, c₁] z := by
  simp only [Unsubscribe.chunks, List.mem_cons, List.mem_singleton, List.not_mem_nil, or_false]
  rintro c₁ (rfl | rfl) c₂ (rfl | rfl) <;> exact Chunk.run_pair_comm fun _ => rfl

theorem Disconnect.chunks_comm (x : Disconnect) :
    ∀ c₁ ∈ x.chunks, ∀ c₂ ∈ x.chunks, ∀ z, Chunk.run [c₁, c₂] z = Chunk.run [c₂, c₁] z := by
  simp only [Disconnect.chunks, List.mem_singleton]
  rintro c₁ rfl c₂ rfl
  exact Chunk.run_pair_comm fun _ => rfl

/-- Fields in any order, for each of the four messages: `x`'s fields written in any order,
with well-formed fields of undeclared numbers anywhere between them, decode into `m` as `m`
merged with `x`, as `x`'s own encoding does. Only the slice's length, an `int`, is bounded. -/
theorem unmarshal_fields_any_order :
    (∀ (m x : Command) (pieces : List (Bytes ⊕ WireField)),
      (pieces.filterMap Sum.getLeft?).Perm x.fields →
      (∀ f ∈ pieces.filterMap Sum.getRight?, f.WellFormed ∧ f.num ∉ [1, 2, 3]) →
      (splice pieces).length < 2 ^ 63 → m.unmarshal (splice pieces) = .ok (m.merge x)) ∧
    (∀ (m x : Node) (pieces : List (Bytes ⊕ WireField)),
      (pieces.filterMap Sum.getLeft?).Perm x.fields →
      (∀ f ∈ pieces.filterMap Sum.getRight?, f.WellFormed ∧ f.num ∉ [1, 2, 3, 4, 5, 6, 7]) →
      (splice pieces).length < 2 ^ 63 → m.unmarshal (splice pieces) = .ok (m.merge x)) ∧
    (∀ (m x : Unsubscribe) (pieces : List (Bytes ⊕ WireField)),
      (pieces.filterMap Sum.getLeft?).Perm x.fields →
      (∀ f ∈ pieces.filterMap Sum.getRight?, f.WellFormed ∧ f.num ∉ [1, 2]) →
      (splice pieces).length < 2 ^ 63 → m.unmarshal (splice pieces) = .ok (m.merge x)) ∧
    (∀ (m x : Disconnect) (pieces : List (Bytes ⊕ WireField)),
      (pieces.filterMap Sum.getLeft?).Perm x.fields →
      (∀ f ∈ pieces.filterMap Sum.getRight?, f.WellFormed ∧ f.num ∉ [1]) →
      (splice pieces).length < 2 ^ 63 → m.unmarshal (splice pieces) = .ok (m.merge x)) := by
  refine ⟨fun m x pieces hp hu hl => ?_, fun m x pieces hp hu hl => ?_,
    fun m x pieces hp hu hl => ?_, fun m x pieces hp hu hl => ?_⟩
  · rw [Command.unmarshal, unmarshalLoop_any_order (fun _ hd => x.chunks_read hd) x.chunks_comm
      pieces m hp (fun f hf => ⟨(hu f hf).1, Command.fieldCase_undeclared (hu f hf).2⟩) hl,
      Command.run_chunks_merge]
  · rw [Node.unmarshal, unmarshalLoop_any_order (fun _ hd => x.chunks_read hd) x.chunks_comm
      pieces m hp (fun f hf => ⟨(hu f hf).1, Node.fieldCase_undeclared (hu f hf).2⟩) hl,
      Node.run_chunks_merge]
  · rw [Unsubscribe.unmarshal, unmarshalLoop_any_order (fun _ hd => x.chunks_read hd)
      x.chunks_comm pieces m hp
      (fun f hf => ⟨(hu f hf).1, Unsubscribe.fieldCase_undeclared (hu f hf).2⟩) hl,
      Unsubscribe.run_chunks_merge]
  · rw [Disconnect.unmarshal, unmarshalLoop_any_order (fun _ hd => x.chunks_read hd)
      x.chunks_comm pieces m hp
      (fun f hf => ⟨(hu f hf).1, Disconnect.fieldCase_undeclared (hu f hf).2⟩) hl,
      Disconnect.run_chunks_merge]

unseal varint in
/-- `Unsubscribe { Channel: "c", User: "u" }` with `User` first and an unknown varint field
between the two decodes into the zero message as the message itself. -/
theorem unmarshal_fields_any_order_unsubscribe :
    Unsubscribe.unmarshal {}
      (splice [.inl (bytesField 0x12 [0x75]), .inr (.varint 3 7), .inl (bytesField 0x0a [0x63])]) =
      .ok { channel := [0x63], user := [0x75] } :=
  (unmarshal_fields_any_order.2.2.1 {} { channel := [0x63], user := [0x75] } _ (by decide)
    (by simp [WireField.WellFormed, WireField.num]) (by decide)).trans rfl

end Centrifuge.Control
