import StackMachine.Proofs.Code
import StackMachine.Proofs.Flow

/-!
# Running what was emitted

A machine at the start of code that an assembler has emitted executes the
instructions of the code in their order, for as long as none of them sends it
elsewhere, stops it or writes over code that is still to come.

## Main definitions

* `Machine.Proceeds` — a machine has executed instructions, one behind the other
* `Machine.effect` — the step that executes an instruction of some length

## Main statements

* `Machine.Proceeds.reaches` — the machine is where the rest of the code stands
* `Machine.executes_emitted` — its next step executes the instruction that was
  emitted there

## Design notes

**What may go wrong** is said of each step as it is made: that it failed or
halted the machine, that the instruction redirects it (`Instruction.Redirects`),
or that a byte behind the instruction has changed.  That the code is right is
not assumed of any step but follows from the load.
-/

namespace StackMachine.Machine

open Instruction (encodeAll encodeAll_cons encodeAll_append)

/-- A machine executes instructions, one behind the other, with others still to
come.  No step fails or halts the machine, none of the instructions redirects
it, and no byte of the code behind the instruction is changed. -/
inductive Proceeds (others : List Instruction) :
    List Instruction → Machine → Machine → Prop
  /-- Nothing has been executed. -/
  | refl (m : Machine) : Proceeds others [] m m
  /-- One instruction is executed before the rest. -/
  | head {i : Instruction} {rest : List Instruction}
      {m m₁ m₂ : Machine} {done : Step}
      (hstep : step m = .ok done m₁) (hrunning : m₁.state = .running)
      (hstraight : ¬ i.Redirects m.acc)
      (hintact : ∀ a, m.ip.toNat + i.opcode.length ≤ a →
        a < m.ip.toNat + (encodeAll (i :: rest ++ others)).length →
          m₁.memory.readByte a = m.memory.readByte a)
      (hrest : Proceeds others rest m₁ m₂) : Proceeds others (i :: rest) m m₂

/-- A machine that has fetched an instruction: its pointer is behind the
instruction. -/
def fetched (m : Machine) (i : Instruction) : Machine :=
  m.setRegister .ip (m.ip + UInt16.ofNat i.opcode.length)

/-- The step of a machine that executes an instruction: the effect of the
instruction on the machine that has fetched it, or a fault. -/
def effect (m : Machine) (i : Instruction) : EStateM.Result Fault Machine Step :=
  match (m.fetched i).apply i with
  | .error e _ => .error e { m with state := .faulted }
  | .ok () m' =>
    .ok (.executed i.opcode)
      { m' with cycles := m'.cycles + 1, lastOpcode := some i.opcode }

variable {m m' : Machine} {i : Instruction}
  {rest others : List Instruction} {offset : Nat}

/-- A step of a machine at an instruction has the effect of the instruction, and
the record of the step. -/
theorem step_eq_effect (hstate : m.state = .running)
    (hitem : m.memory.itemAt m.ip =
      .ok (.instruction i, m.ip + UInt16.ofNat i.opcode.length)) :
    step m = m.effect i := by
  rw [step_in_phases hstate, stepInPhases, hitem]
  rfl

/-- An instruction whose code stands at the instruction pointer is the next. -/
theorem itemAt_of_code (hip : m.ip = UInt16.ofNat offset)
    (hcode : m.memory.Holds offset i.encode)
    (hfits : offset + i.opcode.length ≤ 65536) :
    m.memory.itemAt m.ip =
      .ok (.instruction i, m.ip + UInt16.ofNat i.opcode.length) := by
  rw [hip, ← UInt16.ofNat_add]
  exact Memory.itemAt_of_holds hcode hfits

/-- A machine behind an instruction that does not redirect it goes on where
the next one stands. -/
theorem ip_of_step {done : Step} (hstate : m.state = .running)
    (hitem : m.memory.itemAt m.ip =
      .ok (.instruction i, m.ip + UInt16.ofNat i.opcode.length))
    (hstep : step m = .ok done m') (hstraight : ¬ i.Redirects m.acc) :
    m'.ip = m.ip + UInt16.ofNat i.opcode.length := by
  rw [step_eq_effect hstate hitem, effect] at hstep
  have hip : (m.fetched i).ip = m.ip + UInt16.ofNat i.opcode.length :=
    register_setRegister_self ..
  have hacc : (m.fetched i).acc = m.acc :=
    register_setRegister_of_ne _ _ (by decide)
  rw [← hacc] at hstraight
  split at hstep <;> cases hstep
  next m₁ happly => exact (ip_of_apply happly hstraight).trans hip

/-- A machine that has executed part of its code is at the rest, which
stands there as before.  That its own steps do not write over the rest is
part of proceeding. -/
theorem Proceeds.reaches (h : Proceeds others rest m m')
    (hstate : m.state = .running) (hip : m.ip = UInt16.ofNat offset)
    (hcode : m.memory.Holds offset (encodeAll (rest ++ others)))
    (hfits : offset + (encodeAll (rest ++ others)).length ≤ 65536) :
    m'.state = .running ∧ m'.ip = UInt16.ofNat (offset + (encodeAll rest).length) ∧
      m'.memory.Holds (offset + (encodeAll rest).length) (encodeAll others) := by
  induction h generalizing offset with
  | refl m => exact ⟨hstate, hip, hcode⟩
  | @head i rest m m₁ m₂ done hstep hrunning hstraight hintact _ ih =>
    rw [List.cons_append, encodeAll_cons, List.length_append,
      i.length_encode] at hfits hintact
    rw [List.cons_append, encodeAll_cons, Memory.holds_append,
      i.length_encode] at hcode
    obtain ⟨hfirst, hbehind⟩ := hcode
    have hlength := i.opcode.length_pos
    have hoffset : m.ip.toNat = offset := by
      rw [hip]
      exact UInt16.toNat_ofNat_of_lt' (show offset < 65536 by omega)
    have hitem := itemAt_of_code hip hfirst (by omega)
    have hnext := ip_of_step hstate hitem hstep hstraight
    rw [hip, ← UInt16.ofNat_add] at hnext
    rw [hoffset] at hintact
    have hkept :
        m₁.memory.Holds (offset + i.opcode.length) (encodeAll (rest ++ others)) :=
      hbehind.congr fun a hmin hmax => hintact a hmin (by omega)
    have hall := ih hrunning hnext hkept (by omega)
    rw [encodeAll_cons, List.length_append, i.length_encode, ← Nat.add_assoc]
    exact hall

/-- An addition that was emitted for two registers adds these.  Only their
positions are in the code, and they are read back as the registers. -/
theorem apply_add (m : Machine) (r s : Register) :
    m.apply (.add r s) =
      .ok () (m.setRegister .acc (m.register r + m.register s)) := by
  simp only [Instruction.add, apply, Bank.readIndex_eq, Register.toNat_selector,
    Register.ofIndex?_index]
  rfl

/-- When a machine starts at code that an assembler has emitted and a load
has put into memory, and has executed some of the instructions
undisturbed, its pointer is where the next one was emitted, and its next
step reads that instruction there and has its effect; an addition adds the
registers that it was emitted for. -/
theorem executes_emitted {asm : Assembler} {before after : List Instruction}
    {i : Instruction} {m₀ m m' : Machine}
    (hload : loadProgram (asm.emitAll (before ++ i :: after)).build m₀ = .ok () m)
    (hsize : m.memory.size ≤ 65536) (hstate : m.state = .running)
    (hip : m.ip = asm.here) (h : Proceeds (i :: after) before m m') :
    m'.ip = (asm.emitAll before).here ∧
      m'.memory.itemAt m'.ip =
        .ok (.instruction i, m'.ip + UInt16.ofNat i.opcode.length) ∧
      step m' = m'.effect i ∧
      ∀ r s, i = .add r s → (m'.fetched i).apply i =
        .ok () ((m'.fetched i).setRegister .acc
          ((m'.fetched i).register r + (m'.fetched i).register s)) := by
  -- The code stands in memory behind whatever the segment held before.
  obtain ⟨-, horigin, hbytes⟩ :=
    asm.current_bytes (encodeAll (before ++ i :: after))
  have hcode := holds_of_loadProgram hload
  rw [Assembler.emitAll_eq_bytes, horigin, hbytes, Memory.holds_append,
    Array.length_toList] at hcode
  rw [Assembler.here_eq] at hip
  generalize hoffset : asm.current.origin.toNat + asm.current.bytes.size =
    offset at hcode hip
  have hall : encodeAll (before ++ i :: after) =
      encodeAll before ++ (i.encode ++ encodeAll after) := by
    rw [encodeAll_append, encodeAll_cons]
  have hlength : (encodeAll (before ++ i :: after)).length =
      (encodeAll before).length + (i.opcode.length + (encodeAll after).length) := by
    rw [hall, List.length_append, List.length_append, i.length_encode]
  have hpos := i.opcode.length_pos
  have hfits : offset + (encodeAll (before ++ i :: after)).length ≤ 65536 := by
    refine Nat.le_trans (hcode.2.le_size ?_) hsize
    rw [← List.length_pos_iff]
    omega
  obtain ⟨hstate', hip', hcode'⟩ := h.reaches hstate hip hcode.2 hfits
  rw [encodeAll_cons, Memory.holds_append] at hcode'
  have hitem := itemAt_of_code hip' hcode'.1 (by omega)
  refine ⟨?_, hitem, step_eq_effect hstate' hitem, ?_⟩
  · rw [hip', Assembler.here_emitAll, Assembler.here_eq, hoffset, UInt16.ofNat_add]
  · rintro r s rfl
    exact apply_add _ r s

/-- A machine at code that doubles a word. -/
def doubling : Machine :=
  (fresh ((Memory.zeroed 64).overwrite 4 [0x10, 0, 5, 2, 0x14, 2, 2, 0xff])
    .strict).setRegister .ip 4

/-- The machine when the word is in its register. -/
def doublingNext : Machine :=
  { (doubling.fetched (.movLitReg 5 .r1)).setRegister .r1 5 with
    cycles := 1, lastOpcode := some .movLitReg }

theorem proceeds_doubling :
    Proceeds [.add .r1 .r1, .hlt] [.movLitReg 5 .r1] doubling doublingNext := by
  have hitem : doubling.memory.itemAt doubling.ip =
      .ok (.instruction (.movLitReg 5 .r1), 8) := by
    decide +kernel
  have hstep : step doubling = .ok (.executed .movLitReg) doublingNext :=
    step_of_instruction rfl hitem rfl
  refine .head hstep rfl ?_ (fun _ _ _ => rfl) (.refl _)
  show Register.r1 ≠ .ip
  decide

/-- The addition that was emitted second is the second to be executed. -/
theorem second_executes_addition :
    doublingNext.ip = 8 ∧ step doublingNext =
      doublingNext.effect (.add .r1 .r1) := by
  have hload : loadProgram
      ((Assembler.start.org 4).emitAll
        ([.movLitReg 5 .r1] ++ .add .r1 .r1 :: [.hlt])).build
      ((fresh (Memory.zeroed 64) .strict).setRegister .ip 4) =
        .ok () doubling := rfl
  have hsize : doubling.memory.size ≤ 65536 := by decide
  obtain ⟨hip, -, hstep, -⟩ :=
    executes_emitted hload hsize rfl rfl proceeds_doubling
  exact ⟨hip, hstep⟩

end StackMachine.Machine
