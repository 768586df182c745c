import Starnet.Seri.Follow
import Starnet.Seri.RoundTrip
import Starnet.Seri.Trace

/-! `Unserialize` on a proper prefix of what `Serialize` writes. A run on the first bytes of a value
follows the run on all of them until a read fails. -/

namespace Starnet.LuaSeri

open Lib

variable {h : Heap}

/-- The error of `invalid_stream`, with the number of bytes that are left and a line. -/
def InvalidStream (f : Failure) : Prop :=
  ∃ (len : Int) (line : Nat), f = .raised s!"Invalid serialize stream {len} (line:{line})"

/-! ### A missing end -/

/-- The second run lacks the bytes `missing` at the end. -/
def Shorter (missing : List UInt8) (rb rb' : ReadBlock) : Prop :=
  ∃ bytes, rb'.Holds bytes ∧ rb.Holds (bytes ++ missing)

theorem Shorter.follows (missing : List UInt8) :
    Follows (fun f => f = .outOfFuel ∨ InvalidStream f) (Shorter missing) where
  fuel := Or.inl rfl
  len := by
    rintro rb rb' ⟨bytes, holds, holds'⟩
    exact ⟨holds'.len ▸ Int.natCast_nonneg _, holds.len ▸ Int.natCast_nonneg _⟩
  read := by
    rintro rb rb' ⟨bytes, holds, holds'⟩ sz line
    by_cases short : rb'.len < sz
    · have refused : rb'.readOrFail sz line = rb'.invalidStream line := by
        rw [ReadBlock.readOrFail, ReadBlock.read, if_pos short]
      rw [refused]
      exact .excused (Or.inr ⟨rb'.len, line, rfl⟩)
    · have enough : sz ≤ bytes.length := by
        have := holds.len
        omega
      -- Both runs read the first bytes, and the rest is still shorter.
      have length : (bytes.take sz).length = sz := List.length_take_of_le enough
      rw [← List.take_append_drop sz bytes] at holds holds'
      rw [List.append_assoc] at holds'
      obtain ⟨rb₁, read, holds₁⟩ := holds'.read
      obtain ⟨rb₁', read', holds₁'⟩ := holds.read
      rw [length] at read read'
      rw [ReadBlock.readOrFail, ReadBlock.readOrFail, read, read']
      exact .returned ⟨rfl, _, holds₁', holds₁⟩
  invalid := by
    intro rb rb' _ line α S
    exact .excused (Or.inr ⟨rb'.len, line, rfl⟩)

/-- A value that is cut is not decoded. -/
theorem Pushes.cut {fuel fuel' : Nat} (le : fuel' ≤ fuel) (rounds : Nat) {q missing : List UInt8}
    {tree : Tree} (pushes : Pushes fuel (q ++ missing) tree) (begun : q ≠ []) (cut : missing ≠ [])
    {rb : ReadBlock} (holds : rb.Holds q) :
    ∃ f, unpackAll fuel' (rounds + 1) rb = .error f ∧ (f = .outOfFuel ∨ InvalidStream f) := by
  obtain ⟨byte, payload, eq, reads⟩ := pushes
  obtain ⟨byte', q, rfl⟩ := List.exists_cons_of_ne_nil begun
  obtain ⟨rfl, rfl⟩ := List.cons.inj eq
  obtain ⟨rb₁, read, holds₁⟩ := ReadBlock.Holds.read (show rb.Holds ([byte'] ++ q) from holds)
  change rb.read 1 = _ at read
  have whole : (⟨q ++ missing, (q ++ missing).length, 0⟩ : ReadBlock).Holds (q ++ missing) :=
    ⟨le_rfl, rfl, rfl⟩
  obtain ⟨rb₂, ok, ended⟩ := reads _ [] (by rwa [List.append_nil])
  have agrees := (Shorter.follows missing).pushValue
    (fun related => (Shorter.follows missing).unpackOne le related) le
    (⟨q, holds₁, whole⟩ : Shorter missing _ rb₁) (typeOf byte') (cookieOf byte')
  have failed : ∃ f, pushValue (LuaSeri.unpackOne fuel') fuel' rb₁ (typeOf byte') (cookieOf byte') =
      .error f ∧ (f = .outOfFuel ∨ InvalidStream f) := by
    generalize pushValue (LuaSeri.unpackOne fuel') fuel' rb₁ _ _ = y at agrees ⊢
    dsimp only at ok
    rw [ok] at agrees
    cases agrees with
    | excused excuse => exact ⟨_, rfl, excuse⟩
    | returned related =>
      -- The whole run ends with nothing left.
      obtain ⟨-, bytes, -, holds₂⟩ := related
      have none : (bytes ++ missing).length = 0 := by
        have len := holds₂.len.symm.trans ended.len
        rw [List.length_nil] at len
        omega
      exact absurd (List.append_eq_nil_iff.mp (List.length_eq_zero_iff.mp none)).2 cut
  obtain ⟨f, eq, excuse⟩ := failed
  refine ⟨f, ?_, excuse⟩
  rw [unpackAll, read]
  change (pushValue (LuaSeri.unpackOne fuel') fuel' rb₁ (typeOf byte') (cookieOf byte') >>= _) = _
  rw [eq]
  rfl

/-! ### Values before the cut -/

/-- The loop of `unpack_buffer` decodes the values before the rest one after another. -/
theorem unpackAll_before {fuel : Nat} (rounds : Nat) {rest : List UInt8} {vs : List Value}
    {blocks : List (List UInt8)} {rb : ReadBlock}
    (all : List.Forall₂ (fun v block => ∃ tree, DeepEq h v tree ∧ Pushes fuel block tree) vs blocks)
    (holds : rb.Holds (blocks.flatten ++ rest)) :
    ∃ ws rb', rb'.Holds rest ∧ List.Forall₂ (DeepEq h) vs ws ∧
      unpackAll fuel (vs.length + rounds) rb = (do return ws ++ (← unpackAll fuel rounds rb')) := by
  induction all generalizing rb with
  | nil =>
    refine ⟨[], rb, holds, .nil, ?_⟩
    rw [List.length_nil, Nat.zero_add]
    cases unpackAll fuel rounds rb <;> rfl
  | @cons v block vs blocks first others ih =>
    obtain ⟨tree, same, byte, payload, rfl, reads⟩ := first
    have holds : rb.Holds ([byte] ++ (payload ++ (blocks.flatten ++ rest))) := by
      simpa using holds
    obtain ⟨rb₁, eq₁, holds₁⟩ := holds.read
    obtain ⟨rb₂, eq₂, holds₂⟩ := reads rb₁ _ holds₁
    obtain ⟨ws, rb', holds', all, eq₃⟩ := ih holds₂
    change rb.read 1 = _ at eq₁
    change pushValue (unpackOne fuel) fuel rb₁ (typeOf byte) (cookieOf byte) = _ at eq₂
    refine ⟨tree :: ws, rb', holds', .cons same all, ?_⟩
    rw [List.length_cons, Nat.add_right_comm, unpackAll, eq₁]
    change (pushValue (unpackOne fuel) fuel rb₁ (typeOf byte) (cookieOf byte) >>= _) = _
    rw [eq₂]
    change (unpackAll fuel (vs.length + rounds) rb₂ >>= _) = _
    rw [eq₃]
    cases unpackAll fuel rounds rb' <;> rfl

/-- A proper prefix ends inside one of the blocks, or before it. -/
theorem forall₂_cut {α β : Type} {P : α → List β → Prop} : ∀ {xs : List α} {blocks : List (List β)}
    {p : List β}, List.Forall₂ P xs blocks → p <+: blocks.flatten → p ≠ blocks.flatten →
    ∃ ys x zs before q missing, xs = ys ++ x :: zs ∧ List.Forall₂ P ys before ∧
      P x (q ++ missing) ∧ p = before.flatten ++ q ∧ missing ≠ []
  | [], _, p, .nil, cut, ne => absurd (List.prefix_nil.mp cut) ne
  | x :: xs, block :: blocks, p, .cons first others, cut, ne => by
    obtain ⟨t, eq⟩ := cut
    rw [List.flatten_cons] at eq ne
    have later {p' : List β} (eq : p = block ++ p') (cut : p' <+: blocks.flatten) :
        ∃ ys x' zs before q missing, x :: xs = ys ++ x' :: zs ∧ List.Forall₂ P ys before ∧
          P x' (q ++ missing) ∧ p = before.flatten ++ q ∧ missing ≠ [] := by
      subst eq
      obtain ⟨ys, x', zs, before, q, missing, rfl, all, piece, rfl, some⟩ :=
        forall₂_cut others cut fun eq => ne (by rw [eq])
      refine ⟨x :: ys, x', zs, block :: before, q, missing, rfl, .cons first all, piece, ?_, some⟩
      rw [List.flatten_cons, List.append_assoc]
    rcases List.append_eq_append_iff.mp eq with ⟨missing, rfl, -⟩ | ⟨p', eq, eq'⟩
    · by_cases whole : missing = []
      · subst whole
        rw [List.append_nil] at later
        exact later (List.append_nil p).symm List.nil_prefix
      · exact ⟨[], x, xs, [], p, missing, rfl, .nil, first, rfl, whole⟩
    · exact later eq ⟨t, eq'.symm⟩

/-! ### Proper prefixes -/

theorem serialize_of_forall₂ {vs : List Value} {blocks : List (List UInt8)}
    (packed : List.Forall₂ (fun v block => packOne h (maxDepth + 1) v = .ok block) vs blocks) :
    serialize h vs = .ok blocks.flatten := by
  have all : vs.mapM (packOne h (maxDepth + 1)) = .ok blocks := by
    induction packed with
    | nil => rfl
    | cons first _ ih =>
      simp only [List.mapM_cons, first, ih]
      rfl
  rw [serialize, all]
  rfl

/-- `Unserialize` on a prefix that is shorter than 2^31 bytes: the values whose bytes are complete
are decoded if no others have begun. -/
theorem unserialize_cut {vs : List Value} {bytes p : List UInt8}
    (serialized : serialize h vs = .ok bytes) (sized : ∀ v, Reached h vs v → IntSized h v)
    (cut : p <+: bytes) (ne : p ≠ bytes) (short : p.length < 2 ^ 31) :
    (∃ f, unserialize p = .error f ∧ InvalidStream f) ∨
      ∃ us, us <+: vs ∧ us ≠ vs ∧ serialize h us = .ok p ∧
        ∃ ws, unserialize p = .ok ws ∧ List.Forall₂ (DeepEq h) us ws := by
  obtain ⟨blocks, rfl, packed⟩ := serialize_blocks serialized
  obtain ⟨us, v, others, before, q, missing, rfl, first, piece, rfl, some⟩ :=
    forall₂_cut packed cut ne
  have len : (Int32.ofNat (before.flatten ++ q).length).toInt = (before.flatten ++ q).length :=
    Int32.toInt_ofNat_of_lt short
  have pushes : List.Forall₂ (fun v block => ∃ tree, DeepEq h v tree ∧
      Pushes ((before.flatten ++ q).length + 1) block tree) us before := by
    refine forall₂_mem first le_rfl fun u mem block packed short => ?_
    have root := List.mem_append_left (v :: others) mem
    rw [List.length_append]
    exact packOne_pushes packed (fun w inner => sized w (inner.trans (.root root))) (by omega)
  have count := length_le_flatten (fun _ _ ⟨_, _, pushes⟩ => pushes.ne_nil) pushes
  by_cases begun : q = []
  · subst begun
    simp only [List.append_nil] at *
    refine Or.inr ⟨us, List.prefix_append _ _, ?_, serialize_of_forall₂ first, ?_⟩
    · intro eq
      have := congrArg List.length eq
      rw [List.length_append, List.length_cons] at this
      omega
    · refine unserialize_flatten first short fun w inner => sized w ?_
      exact inner.mono fun u mem => List.mem_append_left _ mem
  · -- The rounds that are left after the values before.
    obtain ⟨rounds, total⟩ : ∃ rounds, (before.flatten ++ q).length + 1 =
        us.length + (rounds + 1) := by
      refine ⟨(before.flatten ++ q).length - us.length, ?_⟩
      rw [List.length_append] at *
      omega
    have start : (⟨before.flatten ++ q, (before.flatten ++ q).length, 0⟩ : ReadBlock).Holds
        (before.flatten ++ q) := ⟨le_rfl, rfl, rfl⟩
    obtain ⟨ws, rb, holds, -, run⟩ := unpackAll_before (rounds + 1) pushes start
    obtain ⟨tree, -, whole⟩ := packOne_pushes piece
      (fun w inner => sized w (inner.trans (.root (by simp))))
      (show (q ++ missing).length ≤ (before.flatten ++ q).length + 1 + (q ++ missing).length + 1 by
        omega)
    obtain ⟨f, failed, excuse⟩ := whole.cut (Nat.le_add_right _ _) rounds begun some holds
    have result : unserialize (before.flatten ++ q) = .error f := by
      have nonempty : ((before.flatten ++ q).length : Int) ≠ 0 := by
        have := List.length_pos_of_ne_nil begun
        rw [List.length_append]
        omega
      unfold unserialize
      simp only [len]
      rw [if_neg nonempty]
      conv_lhs => arg 2; rw [total]
      rw [run, failed]
      rfl
    refine Or.inl ⟨f, result, excuse.resolve_left fun out => ?_⟩
    exact unserialize_ne_outOfFuel short (out ▸ result)

end Starnet.LuaSeri
