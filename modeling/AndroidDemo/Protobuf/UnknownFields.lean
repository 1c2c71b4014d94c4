import AndroidDemo.Protobuf.Wire

/-! # Unknown fields

What the parser keeps of a field it does not know is the field in its shortest
form: read again, it gives itself.
-/

namespace AndroidDemo.Protobuf.Wire

open AndroidDemo.Base128
open AndroidDemo.Readers

/-! ## What was written is read -/

theorem varint_encode {n : Nat} (h : n < 2 ^ 64) (more : List UInt8) :
    varint (encode n ++ more) = some (n, more) :=
  decode_encode (by omega) more

theorem tag_encode {t : UInt32} (ht : t ≠ 0) (more : List UInt8) :
    tag (encode t.toNat ++ more) = some (t, more) := by
  have hLt := t.toNat_lt
  exact tag_eq_some_iff.mpr ⟨t.toNat, decode_encode (by omega) more, UInt32.ofNat_toNat, ht⟩

theorem fixed_again {size : Nat} {bytes raw rest : List UInt8}
    (h : fixed size bytes = some (raw, rest)) (more : List UInt8) :
    fixed size (raw ++ more) = some (raw, more) :=
  fixed_eq_some_iff.mpr ⟨(fixed_eq_some_iff.mp h).1, rfl⟩

theorem string_encode {raw : List UInt8} (h : raw.length < 2 ^ 31) (more : List UInt8) :
    string (encode raw.length ++ raw ++ more) = some (raw, more) := by
  have hMod : raw.length % 2 ^ 32 = raw.length := Nat.mod_eq_of_lt (by omega)
  refine string_eq_some_iff.mpr ⟨raw.length, raw ++ more, ?_, by omega, hMod.symm, rfl⟩
  rw [List.append_assoc]
  exact decode_encode (by omega) (raw ++ more)

theorem message_encode {body : List UInt8} (h : body.length < 2 ^ 31) (more : List UInt8) :
    message (encode body.length ++ body ++ more) = some (body, more) := by
  have hMod : body.length % 2 ^ 64 = body.length := Nat.mod_eq_of_lt (by omega)
  refine message_eq_some_iff.mpr ⟨body.length, body ++ more, ?_, by omega, ?_, ?_⟩
  · rw [List.append_assoc]
    exact decode_encode (by omega) (body ++ more)
  · rw [hMod, List.take_left]
  · rw [hMod, List.drop_left]

/-! ## What was kept is kept again -/

/-- The bytes kept of a field: its tag, and what is read behind it with the same result. -/
def KeptAgain (skip : UInt32 → List UInt8 → Option (List UInt8 × List UInt8)) : Prop :=
  ∀ {t bytes raw rest}, skip t bytes = some (raw, rest) →
    ∃ body, raw = encode t.toNat ++ body ∧ ∀ more, skip t (body ++ more) = some (raw, more)

theorem skipWith_keptAgain {group : List UInt8 → Option ((List UInt8 × UInt32) × List UInt8)}
    (hGroup : ∀ {bytes raw last rest}, group bytes = some ((raw, last), rest) →
      ∀ more, group (raw ++ more) = some ((raw, last), more)) :
    KeptAgain (skipWith group) := by
  intro t bytes raw rest h
  rw [skipWith, Option.ite_none_left_eq_some] at h
  obtain ⟨hField, h⟩ := h
  split at h
  · rename_i hType
    obtain ⟨⟨n, left⟩, -, hEq⟩ := Option.map_eq_some_iff.mp h
    cases hEq
    refine ⟨_, rfl, fun more => ?_⟩
    have hLt : n % 2 ^ 64 < 2 ^ 64 := Nat.mod_lt _ (by decide)
    simp only [skipWith, if_neg hField, hType, varint_encode hLt, Option.map_some, Nat.mod_mod]
  · rename_i hType
    obtain ⟨⟨raw, left⟩, hRead, hEq⟩ := Option.map_eq_some_iff.mp h
    cases hEq
    refine ⟨_, rfl, fun more => ?_⟩
    rw [skipWith, if_neg hField, hType, fixed_again hRead more, Option.map_some]
  · rename_i hType
    obtain ⟨⟨raw, left⟩, hRead, hEq⟩ := Option.map_eq_some_iff.mp h
    cases hEq
    obtain ⟨n, -, -, hSize, hLength, -⟩ := string_eq_some_iff.mp hRead
    refine ⟨_, rfl, fun more => ?_⟩
    rw [skipWith, if_neg hField, hType, string_encode (by omega), Option.map_some]
  · rename_i hType
    obtain ⟨⟨⟨raw, last⟩, left⟩, hRead, hEq⟩ := Option.bind_eq_some_iff.mp h
    rw [Option.ite_none_right_eq_some] at hEq
    obtain ⟨hLast, hEq⟩ := hEq
    cases hEq
    refine ⟨_, rfl, fun more => ?_⟩
    simp only [skipWith, if_neg hField, hType, hGroup hRead more, Option.bind_some, if_pos hLast]
  · rename_i hType
    obtain ⟨⟨raw, left⟩, hRead, hEq⟩ := Option.map_eq_some_iff.mp h
    cases hEq
    refine ⟨_, rfl, fun more => ?_⟩
    rw [skipWith, if_neg hField, hType, fixed_again hRead more, Option.map_some]
  · cases h
  · cases h

/-- A group from any bytes kept so far, where its fields are kept again. -/
theorem group_again {skip : UInt32 → List UInt8 → Option (List UInt8 × List UInt8)}
    (hSkip : KeptAgain skip) {bytes kept raw rest : List UInt8} {last : UInt32}
    (h : upTo (groupTurn skip) kept bytes = some ((raw, last), rest)) :
    ∃ body, raw = kept ++ body ∧ ∀ kept' more,
      upTo (groupTurn skip) kept' (body ++ more) = some ((kept' ++ body, last), more) := by
  induction hLength : bytes.length using Nat.strongRecOn generalizing bytes kept with
  | ind n ih =>
    subst hLength
    rcases upTo_cases h with hTurn | ⟨kept', left, hTurn, hLt, hRest⟩
    · obtain ⟨t, left, hTag, ⟨hEnd, hNext, rfl⟩ | ⟨-, _, -, hNext⟩⟩ := groupTurn_eq_some hTurn
      · cases hNext
        obtain ⟨-, -, -, hNonzero⟩ := tag_eq_some_iff.mp hTag
        refine ⟨encode last.toNat, rfl, fun kept' more => upTo_stop ?_⟩
        rw [groupTurn, tag_encode hNonzero, Option.bind_some]
        exact if_pos hEnd
      · cases hNext
    · obtain ⟨t, behind, hTag, ⟨-, hNext, -⟩ | ⟨hEnd, piece, hPiece, hNext⟩⟩ :=
        groupTurn_eq_some hTurn
      · cases hNext
      · cases hNext
        obtain ⟨-, -, -, hNonzero⟩ := tag_eq_some_iff.mp hTag
        obtain ⟨field, rfl, hField⟩ := hSkip hPiece
        obtain ⟨body, rfl, hBody⟩ := ih left.length hLt hRest rfl
        refine ⟨encode t.toNat ++ field ++ body, List.append_assoc _ _ _, fun kept' more => ?_⟩
        have hStep : groupTurn skip kept' (encode t.toNat ++ field ++ body ++ more) =
            some (.inl (kept' ++ (encode t.toNat ++ field)), body ++ more) := by
          rw [List.append_assoc, List.append_assoc, groupTurn, tag_encode hNonzero,
            Option.bind_some]
          dsimp only
          rw [if_neg hEnd, hField, Option.map_some]
        have hPos := encode_length_pos t.toNat
        rw [upTo_step hStep (by simp only [List.length_append]; omega), hBody, List.append_assoc]

theorem skip_keptAgain (depth : Nat) : KeptAgain (skip depth) := by
  induction depth with
  | zero => exact skipWith_keptAgain fun {_ _ _ _} hNone => by cases hNone
  | succ depth ih =>
    refine skipWith_keptAgain fun h more => ?_
    obtain ⟨body, hRaw, hAgain⟩ := group_again ih h
    rw [List.nil_append] at hRaw
    subst hRaw
    exact hAgain [] more

/-- The bytes of an unknown field act on a message as the field did. -/
theorem skip_acts {M : Type} {field : UInt32 → Option (M → List UInt8 → Option (M × List UInt8))}
    {addUnknown : M → List UInt8 → M} {depth : Nat} {t : UInt32} {bytes raw rest : List UInt8}
    (hTag : t ≠ 0) (hField : field t = none) (h : skip depth t bytes = some (raw, rest)) :
    Acts (toEnd (turn field addUnknown depth)) raw (addUnknown · raw) := by
  obtain ⟨body, hRaw, hAgain⟩ := skip_keptAgain depth h
  refine toEnd_acts ?_ fun m more => ?_
  · rw [hRaw]
    exact List.append_ne_nil_of_left_ne_nil (encode_ne_nil _) body
  · conv_lhs => rw [hRaw, List.append_assoc]
    rw [turn, tag_encode hTag, Option.bind_some]
    dsimp only
    rw [hField]
    dsimp only
    rw [hAgain, Option.map_some]

end AndroidDemo.Protobuf.Wire
