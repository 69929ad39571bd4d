import StackMachine.Program.Assembler
import StackMachine.Proofs.Phases

/-!
# Code in memory

The bytes that an assembler emits for instructions are put into memory by a
load, and a machine that fetches there reads the same instructions again.

## Main definitions

* `Instruction.encodeAll` — the bytes of instructions, one after another
* `Memory.Holds` — bytes that stand in memory from an offset on

## Main statements

* `Assembler.emitAll_eq_bytes`, `Assembler.here_emitAll` — what is emitted, and
  where
* `Memory.holds_overwrite`, `Machine.holds_of_loadProgram` — loading puts code
  where it was emitted
* `Memory.itemAt_of_holds` — the code of an instruction is read as that
  instruction

## Design notes

**Offsets and addresses.**  Code stands at offsets, which are natural numbers,
and is fetched at addresses, which wrap around.  Code that lies in the address
space as a whole is fetched where it stands: only the address behind its last
byte may have wrapped, and nothing is fetched there.
-/

namespace StackMachine

open Listing (Item)

namespace Instruction

/-- The bytes of instructions, one after another. -/
def encodeAll (instructions : List Instruction) : List UInt8 :=
  instructions.flatMap encode

theorem encodeAll_cons (i : Instruction) (instructions : List Instruction) :
    encodeAll (i :: instructions) = i.encode ++ encodeAll instructions :=
  List.flatMap_cons

theorem encodeAll_append (instructions others : List Instruction) :
    encodeAll (instructions ++ others) =
      encodeAll instructions ++ encodeAll others :=
  List.flatMap_append

end Instruction

open Instruction (encodeAll encodeAll_cons)

namespace Assembler

theorem bytes_append (asm : Assembler) (values others : List UInt8) :
    asm.bytes (values ++ others) = (asm.bytes values).bytes others :=
  List.foldl_append

/-- Instructions are emitted as their bytes.  What an assembler does with code
comes down to what it does with bytes. -/
theorem emitAll_eq_bytes (asm : Assembler) (instructions : List Instruction) :
    asm.emitAll instructions = asm.bytes (encodeAll instructions) := by
  induction instructions generalizing asm with
  | nil => rfl
  | cons i instructions ih =>
    rw [encodeAll_cons, bytes_append, ← ih]
    rfl

/-- The next byte will stand as far behind the start of the segment as there are
bytes in it, modulo the number of addresses. -/
theorem here_eq (asm : Assembler) :
    asm.here =
      UInt16.ofNat (asm.current.origin.toNat + asm.current.bytes.size) := by
  rw [here, UInt16.ofNat_add, UInt16.ofNat_toNat]

/-- Behind instructions it is as much further on as their code is long. -/
theorem here_emitAll (asm : Assembler) (instructions : List Instruction) :
    (asm.emitAll instructions).here =
      asm.here + UInt16.ofNat (encodeAll instructions).length := by
  obtain ⟨-, horigin, hbytes⟩ := asm.current_bytes (encodeAll instructions)
  have hsize := congrArg List.length hbytes
  rw [List.length_append, Array.length_toList, Array.length_toList] at hsize
  rw [emitAll_eq_bytes, here, horigin, hsize, here, UInt16.ofNat_add,
    UInt16.add_assoc]

end Assembler

namespace Memory

/-- Bytes stand one after another from an offset on. -/
def Holds (m : Memory) : (offset : Nat) → List UInt8 → Prop
  | _, [] => True
  | offset, byte :: bytes => m.readByte offset = .ok byte ∧
      m.Holds (offset + 1) bytes

variable {m m' : Memory} {offset : Nat} {bytes others : List UInt8}

/-- Code stands in memory if its parts do, one behind the other. -/
theorem holds_append :
    m.Holds offset (bytes ++ others) ↔
      m.Holds offset bytes ∧ m.Holds (offset + bytes.length) others := by
  induction bytes generalizing offset with
  | nil => exact ⟨fun h => ⟨trivial, h⟩, fun h => h.2⟩
  | cons byte bytes ih =>
    have hoffset :
        offset + (bytes.length + 1) = offset + 1 + bytes.length := by omega
    rw [List.cons_append, Holds, Holds, ih, and_assoc, List.length_cons, hoffset]

/-- Only the bytes of the code itself make it stand there.  A step that writes
elsewhere leaves it to be executed. -/
theorem Holds.congr (h : m.Holds offset bytes)
    (hsame : ∀ a, offset ≤ a → a < offset + bytes.length →
      m'.readByte a = m.readByte a) :
    m'.Holds offset bytes := by
  induction bytes generalizing offset with
  | nil => trivial
  | cons byte bytes ih =>
    rw [List.length_cons] at hsame
    refine ⟨?_, ih h.2 fun a hmin hmax => hsame a (by omega) (by omega)⟩
    rw [hsame offset (Nat.le_refl _) (by omega), h.1]

/-- Bytes that stand in memory lie inside it, if there are any. -/
theorem Holds.le_size (h : m.Holds offset bytes) (hbytes : bytes ≠ []) :
    offset + bytes.length ≤ m.size := by
  induction bytes generalizing offset with
  | nil => exact absurd rfl hbytes
  | cons byte bytes ih =>
    obtain ⟨hfirst, hrest⟩ := h
    obtain ⟨hfits, -⟩ := readByte_eq_ok.1 hfirst
    cases bytes with
    | nil => exact hfits
    | cons next bytes =>
      have hall := ih hrest (List.cons_ne_nil _ _)
      simp only [List.length_cons] at hall ⊢
      omega

/-! ### Loading -/

/-- The first byte is written where it fits, and the others behind it. -/
theorem overwrite_cons_of_le {value : UInt8} {rest : List UInt8}
    (h : offset + 1 ≤ m.size) :
    m.overwrite offset (value :: rest) =
      (m.setByte offset value h).overwrite (offset + 1) rest :=
  congrArg (fun bytes => overwrite ⟨bytes⟩ (offset + 1) rest) (dif_pos h)

/-- Where it does not fit it is left out. -/
theorem overwrite_cons_of_lt {value : UInt8} {rest : List UInt8}
    (h : m.size < offset + 1) :
    m.overwrite offset (value :: rest) = m.overwrite (offset + 1) rest :=
  congrArg (fun bytes => overwrite ⟨bytes⟩ (offset + 1) rest)
    (dif_neg (Nat.not_le.2 h))

/-- What is in front of the bytes that are written stays as it is. -/
theorem readByte_overwrite_of_lt {a : Nat} (data : List UInt8) (h : a < offset) :
    (m.overwrite offset data).readByte a = m.readByte a := by
  induction data generalizing m offset with
  | nil => rfl
  | cons value rest ih =>
    rcases Nat.lt_or_ge m.size (offset + 1) with hfits | hfits
    · rw [overwrite_cons_of_lt hfits, ih (Nat.lt_succ_of_lt h)]
    · rw [overwrite_cons_of_le hfits, ih (Nat.lt_succ_of_lt h),
        readByte_setByte_of_ne m value hfits (Nat.ne_of_gt h)]

/-- Bytes that fit stand in memory once they are written. -/
theorem holds_overwrite (data : List UInt8) (h : offset + data.length ≤ m.size) :
    (m.overwrite offset data).Holds offset data := by
  induction data generalizing m offset with
  | nil => trivial
  | cons value rest ih =>
    rw [List.length_cons] at h
    have hfits : offset + 1 ≤ m.size := by omega
    rw [overwrite_cons_of_le hfits]
    refine ⟨?_, ih ?_⟩
    · rw [readByte_overwrite_of_lt rest (Nat.lt_succ_self offset),
        readByte_setByte_self]
    · rw [size_setByte]
      omega

/-! ### Fetching -/

theorem readWord_of_holds {word : UInt16} (h : m.Holds offset (Word.toBytes word)) :
    m.readWord offset = .ok word := by
  obtain ⟨hhigh, hlow, -⟩ := h
  obtain ⟨_, hhigh⟩ := readByte_eq_ok.1 hhigh
  obtain ⟨hfits, hlow⟩ := readByte_eq_ok.1 hlow
  rw [readWord_of_le hfits]
  refine congrArg Except.ok ?_
  rw [← Word.ofBytes_high_low word, ← hhigh, ← hlow]
  rfl

theorem operandAt_of_holds {address : UInt16} {operand : Operand}
    (h : m.Holds address.toNat operand.encode) :
    m.operandAt address operand.kind = .ok operand := by
  cases operand with
  | literal word | address word =>
    rw [Operand.kind, operandAt, readWord_of_holds h]
    rfl
  | register r =>
    rw [Operand.kind, operandAt, h.1]
    exact congrArg (Except.ok ∘ Operand.register) (Register.ofSelector_selector r)
  | registerIndex i =>
    rw [Operand.kind, operandAt, h.1]
    rfl

/-- Operands whose code stands in memory are read from there, as long as they do
not run over the end of the address space. -/
theorem operandsAt_of_holds {operands : List Operand}
    (h : m.Holds offset (operands.flatMap Operand.encode))
    (hfits : offset + OperandKind.totalWidth (operands.map Operand.kind) ≤ 65536) :
    m.operandsAt (UInt16.ofNat offset) (operands.map Operand.kind) =
      .ok (operands,
        UInt16.ofNat (offset + OperandKind.totalWidth
          (operands.map Operand.kind))) := by
  induction operands generalizing offset with
  | nil => rfl
  | cons operand operands ih =>
    rw [List.flatMap_cons, holds_append, Operand.length_encode] at h
    rw [List.map_cons, OperandKind.totalWidth] at hfits ⊢
    -- As there is an operand here, the offset is short of the end and is an
    -- address.
    have hwidth := operand.kind.width_pos
    have hoffset : (UInt16.ofNat offset).toNat = offset :=
      UInt16.toNat_ofNat_of_lt' (show offset < 65536 by omega)
    have hfirst : m.operandAt (UInt16.ofNat offset) operand.kind = .ok operand :=
      operandAt_of_holds (by rw [hoffset]; exact h.1)
    have hrest := ih h.2 (by omega)
    rw [operandsAt, hfirst, ← UInt16.ofNat_add]
    simp only [hrest, Nat.add_assoc]

/-- The code of an instruction is read as that instruction.  This is the
converse of encoding, for a step instead of a decoder. -/
theorem itemAt_of_holds {i : Instruction} (h : m.Holds offset i.encode)
    (hfits : offset + i.opcode.length ≤ 65536) :
    m.itemAt (UInt16.ofNat offset) =
      .ok (.instruction i, UInt16.ofNat (offset + i.opcode.length)) := by
  obtain ⟨hcode, hoperands⟩ := h
  rw [Opcode.length, ← i.map_kind_operands] at hfits ⊢
  have hoffset : (UInt16.ofNat offset).toNat = offset :=
    UInt16.toNat_ofNat_of_lt' (show offset < 65536 by omega)
  have hnext : UInt16.ofNat offset + 1 = UInt16.ofNat (offset + 1) :=
    (UInt16.ofNat_add _ _).symm
  refine itemAt_of_instruction (by rw [hoffset]; exact hcode) ?_
  rw [hnext, ← i.map_kind_operands, operandsAt_of_holds hoperands (by omega),
    Nat.add_assoc]

end Memory

namespace Machine

variable {m m' : Machine}

/-- Bytes that were loaded did fit, and stand in memory from their origin on. -/
theorem load_eq_ok {origin : UInt16} {bytes : List UInt8}
    (h : load origin bytes m = .ok () m') :
    origin.toNat + bytes.length ≤ m.memory.size ∧
      m' = m.mapMemory (·.overwrite origin.toNat bytes) := by
  unfold load at h
  rw [Memory.check] at h
  split at h <;> cases h
  next hcheck =>
  split at hcheck <;> cases hcheck
  next hfits => exact ⟨hfits, rfl⟩

theorem load_of_le {origin : UInt16} {bytes : List UInt8}
    (h : origin.toNat + bytes.length ≤ m.memory.size) :
    load origin bytes m =
      .ok () (m.mapMemory (·.overwrite origin.toNat bytes)) := by
  unfold load
  rw [Memory.check, if_pos h]

theorem loadProgram_append (segments others : List Segment) :
    loadProgram ⟨segments ++ others⟩ =
      loadProgram ⟨segments⟩ >>= fun _ => loadProgram ⟨others⟩ := List.forM_append

/-- After a program has been loaded, its last segment is in memory.  The ones
before may have been written over. -/
theorem holds_of_loadProgram {asm : Assembler}
    (h : loadProgram asm.build m = .ok () m') :
    m'.memory.Holds asm.current.origin.toNat asm.current.bytes.toList := by
  cases hempty : asm.current.bytes.isEmpty with
  | true =>
    rw [Array.isEmpty_iff.1 hempty]
    trivial
  | false =>
    have hbuild : asm.build =
        ⟨asm.finished.reverse.filter (fun segment => !segment.bytes.isEmpty) ++
          [asm.current]⟩ := by
      rw [Assembler.build, Assembler.segments, List.filter_append,
        List.filter_cons_of_pos (by rw [hempty]; rfl), List.filter_nil]
    rw [hbuild, loadProgram_append] at h
    obtain ⟨_, m₁, -, hlast⟩ := Action.bind_eq_ok.1 h
    obtain ⟨_, m₂, hload, hend⟩ := Action.bind_eq_ok.1 hlast
    cases hend
    obtain ⟨hfits, rfl⟩ := load_eq_ok hload
    exact Memory.holds_overwrite _ hfits

end Machine

end StackMachine
