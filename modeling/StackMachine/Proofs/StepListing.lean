import StackMachine.Proofs.Flow
import StackMachine.Proofs.Sweep

/-!
# What a listing shows of a step

A listing decodes a window of five bytes; a step fetches field by field and
wraps around behind every field.  Here the two are compared at the address of a
step.

## Main statements

* `Memory.item?_window` — an item of memory that does not run over the end of
  the address space is the first in the window at its address
* `Memory.item?_window_of_wrap` — of an instruction that does, the window shows
  the opcode as data
* `Memory.size_of_itemAt_of_wrap` — only in the largest memory is there such an
  instruction
* `Machine.listing_shows_step` — a listing shows the instruction that the next
  step executes, or the byte that it skips

## Design notes

**Where the two part.**  A window ends with the memory, and a step that has read
the last byte of a memory of 65536 goes on at address zero.  No smaller memory
has an instruction that goes on there: its fields would have to lie outside
before the address wraps.  A listing is of a stretch of bytes and has no address
to go on at, so it keeps to its window.
-/

namespace StackMachine

open Listing (Item)

namespace Memory

/-! ### An item and the window at its address -/

/-- An operand that stands at an offset is the first in the window there.
The machine reads it field by field and a listing off the bytes, and this
is where they meet. -/
theorem read?_window {m : Memory} {address : UInt16} {kind : OperandKind}
    {operand : Operand} (h : m.operandAt address kind = .ok operand)
    (limit : Nat) :
    Operand.read? kind (m.window address.toNat (limit + kind.width)) =
      some (operand, m.window (address.toNat + kind.width) limit) := by
  cases kind with
  | literal | address =>
    obtain ⟨word, hword, rfl⟩ := map_eq_ok h
    obtain ⟨high, low, rfl, hwindow⟩ := window_of_readWord hword limit
    rw [OperandKind.width, hwindow]
    rfl
  | register | registerIndex =>
    obtain ⟨byte, hbyte, rfl⟩ := map_eq_ok h
    rw [OperandKind.width, window_of_readByte hbyte limit]
    rfl

/-- Operands that do not run over the end of the address space are the
first in the window.  Behind the end the machine goes on at address zero,
where no window leads. -/
theorem readAll?_window {m : Memory} {offset : Nat} {kinds : List OperandKind}
    {operands : List Operand} {next : UInt16}
    (h : m.operandsAt (UInt16.ofNat offset) kinds = .ok (operands, next))
    (hfit : offset + OperandKind.totalWidth kinds ≤ 65536) (limit : Nat) :
    Operand.readAll? kinds
      (m.window offset (limit + OperandKind.totalWidth kinds)) =
      some (operands, m.window (offset + OperandKind.totalWidth kinds) limit) := by
  induction kinds generalizing offset operands with
  | nil =>
    cases h
    rfl
  | cons kind kinds ih =>
    -- As there is a field here, the offset is short of the end and stands for
    -- its own address.
    have hwidth : 0 < kind.width := by cases kind <;> decide
    rw [OperandKind.totalWidth] at hfit ⊢
    have hoffset : (UInt16.ofNat offset).toNat = offset := by
      refine UInt16.toNat_ofNat_of_lt' ?_
      show offset < 65536
      omega
    obtain ⟨operand, others, rfl, hfirst, hrest⟩ := operandsAt_cons_eq_ok h
    rw [← UInt16.ofNat_add] at hrest
    have hread := read?_window hfirst (limit + OperandKind.totalWidth kinds)
    rw [hoffset] at hread
    have hothers := ih hrest (by omega)
    rw [Nat.add_comm kind.width, ← Nat.add_assoc, Operand.readAll?, hread]
    simp only [Option.bind_eq_bind, Option.bind_some, hothers]
    rw [Nat.add_comm (OperandKind.totalWidth kinds), Nat.add_assoc]
    rfl

/-- The operands of an instruction are read from the address behind its opcode
on, which as an offset may be that of the end of the address space. -/
theorem operandsAt_behind {m : Memory} {address next : UInt16} {i : Instruction}
    (h : m.itemAt address = .ok (.instruction i, next)) :
    m.operandsAt (UInt16.ofNat (address.toNat + 1)) i.opcode.layout =
      .ok (i.operands, next) := by
  have hbehind : UInt16.ofNat (address.toNat + 1) = address + 1 := by
    rw [UInt16.ofNat_add, UInt16.ofNat_toNat]
    rfl
  rw [hbehind]
  exact (itemAt_eq_instruction h).2.1

/-- An item that does not run over the end of the address space is the first in
the window.  Five bytes are enough, as no instruction is longer. -/
theorem item?_window {m : Memory} {address next : UInt16} {item : Item}
    (h : m.itemAt address = .ok (item, next))
    (hfit : address.toNat + item.length ≤ 65536) :
    Listing.item? (m.window address.toNat 5) = some item := by
  cases item with
  | data byte =>
    obtain ⟨hcode, hop, -⟩ := itemAt_eq_data h
    rw [window_of_readByte hcode 4]
    refine Listing.item?_of_none (Instruction.decode?_eq_none.2 fun op hfound => ?_)
    cases hop.symm.trans hfound
  | instruction i =>
    have hlength :
        i.opcode.length = 1 + OperandKind.totalWidth i.opcode.layout := rfl
    have hshort := i.opcode.length_le_five
    simp only [Item.length] at hfit
    have hread := readAll?_window (operandsAt_behind h) (by omega)
      (4 - OperandKind.totalWidth i.opcode.layout)
    rw [Nat.sub_add_cancel (by omega)] at hread
    have hdecode := Instruction.decode?_cons.2 ⟨Opcode.ofByte?_byte i.opcode, hread⟩
    rw [window_of_readByte (itemAt_eq_instruction h).1 4]
    exact Listing.item?_of_some hdecode

/-- Of an instruction that runs over the end of the address space, the window
holds too little.  The listing therefore shows its first byte as data. -/
theorem item?_window_of_wrap {m : Memory} {address next : UInt16} {i : Instruction}
    (h : m.itemAt address = .ok (.instruction i, next)) (hsize : m.size ≤ 65536)
    (hwrap : 65536 < address.toNat + i.opcode.length) :
    Listing.item? (m.window address.toNat 5) = some (.data i.opcode.byte) := by
  obtain ⟨hcode, -, -⟩ := itemAt_eq_instruction h
  have hlength : i.opcode.length = 1 + OperandKind.totalWidth i.opcode.layout := rfl
  have haddress := address.toNat_lt
  -- A window has no bytes behind the end of memory, which is no further than
  -- that of addresses.
  rw [window_of_readByte hcode 4]
  refine Listing.item?_of_none (Instruction.decode?_eq_none.2 fun op hop => ?_)
  rw [Opcode.ofByte?_byte] at hop
  rw [← Option.some.inj hop, List.length_cons, length_window]
  omega

/-- An operand that is read lies in memory, as a whole. -/
theorem fits_of_operandAt {m : Memory} {address : UInt16} {kind : OperandKind}
    {operand : Operand} (h : m.operandAt address kind = .ok operand) :
    address.toNat + kind.width ≤ m.size := by
  cases kind with
  | literal | address =>
    obtain ⟨word, hword, -⟩ := map_eq_ok h
    exact fits_of_readWord hword
  | register | registerIndex =>
    obtain ⟨byte, hbyte, -⟩ := map_eq_ok h
    exact (readByte_eq_ok.1 hbyte).1

/-- Operands that are read over the end of the address space have the last
address among them, or just in front of them.  No field lies across the end, so
what is read up to there is what memory has to hold. -/
theorem size_of_operandsAt_of_wrap {m : Memory} {offset : Nat}
    {kinds : List OperandKind} {operands : List Operand} {next : UInt16}
    (h : m.operandsAt (UInt16.ofNat offset) kinds = .ok (operands, next))
    (hsize : m.size ≤ 65536) (hbefore : offset ≤ m.size)
    (hwrap : 65536 < offset + OperandKind.totalWidth kinds) : m.size = 65536 := by
  induction kinds generalizing offset operands with
  | nil =>
    rw [OperandKind.totalWidth] at hwrap
    omega
  | cons kind kinds ih =>
    rw [OperandKind.totalWidth] at hwrap
    rcases Nat.lt_or_ge offset 65536 with hlt | hge
    · -- This field lies in memory, and with it all that is in front of the next
      -- one.
      obtain ⟨operand, others, rfl, hfirst, hrest⟩ := operandsAt_cons_eq_ok h
      have hfits := fits_of_operandAt hfirst
      rw [UInt16.toNat_ofNat_of_lt' hlt] at hfits
      rw [← UInt16.ofNat_add] at hrest
      exact ih hrest hfits (by omega)
    · omega

/-- An instruction runs over the end of the address space in the largest memory
only.  In a smaller one the field at the end of memory, or the one behind it,
could not be read. -/
theorem size_of_itemAt_of_wrap {m : Memory} {address next : UInt16}
    {i : Instruction} (h : m.itemAt address = .ok (.instruction i, next))
    (hsize : m.size ≤ 65536) (hwrap : 65536 < address.toNat + i.opcode.length) :
    m.size = 65536 := by
  have hlength : i.opcode.length = 1 + OperandKind.totalWidth i.opcode.layout := rfl
  obtain ⟨hfits, -⟩ := readByte_eq_ok.1 (itemAt_eq_instruction h).1
  exact size_of_operandsAt_of_wrap (operandsAt_behind h) hsize hfits (by omega)

end Memory

namespace Machine

/-- An addition that succeeds has read registers that have names.  So the text
that a listing shows for it is that of the two registers. -/
theorem add_of_apply {m m' : Machine} {a b : UInt8}
    (h : m.apply (.addRegReg a b) = .ok () m') :
    ∃ r s, Instruction.addRegReg a b = .add r s := by
  obtain ⟨r, s, hr, hs, -⟩ := delivers_of_apply h
  have hselector :
      ∀ {i : UInt8} {r : Register}, Register.ofIndex? i.toNat = some r →
      i = r.selector := by
    intro i r hi
    rw [Register.selector, Register.ofIndex?_eq_some_iff.1 hi, UInt8.ofNat_toNat]
  exact ⟨r, s, by rw [Instruction.add, ← hselector hr, ← hselector hs]⟩

/-- A listing shows what the next step does: an instruction with the operands
that the step reads, unless it runs over the end of the address space, and a
byte that is skipped as data.  Only the largest memory, which ends where the
addresses do, has an instruction that runs over. -/
theorem listing_shows_step {m : Machine} (hstate : m.state = .running)
    (hsize : m.memory.size ≤ 65536) :
    (∀ op m', step m = .ok (.executed op) m' →
      ∃ i m₁, i.opcode = op ∧
        m.memory.itemAt m.ip = .ok (.instruction i, m.ip + UInt16.ofNat op.length) ∧
        (m.setRegister .ip (m.ip + UInt16.ofNat op.length)).apply i = .ok () m₁ ∧
        m' = { m₁ with cycles := m₁.cycles + 1, lastOpcode := some op } ∧
        (op = .addRegReg → ∃ r s, i = .add r s) ∧
        (m.ip.toNat + op.length ≤ 65536 →
          Listing.atAddress m.memory m.ip = .ok (i.text, op.length)) ∧
        (65536 < m.ip.toNat + op.length → m.memory.size = 65536 ∧
          Listing.atAddress m.memory m.ip = .ok ("db " ++ Hex.byte op.byte, 1))) ∧
    (∀ byte m', step m = .ok (.skipped byte) m' →
      Listing.atAddress m.memory m.ip = .ok ("db " ++ Hex.byte byte, 1)) := by
  constructor
  · intro op m' hstep
    obtain ⟨i, m₁, rfl, hitem, happly, hm'⟩ := step_executed hstate hstep
    refine ⟨i, m₁, rfl, hitem, happly, hm', ?_, ?_, ?_⟩
    · intro hop
      cases i with
      | addRegReg a b => exact add_of_apply happly
      | _ => cases hop
    · intro hfit
      exact Listing.atAddress_of_item? (Memory.item?_window hitem hfit)
    · intro hwrap
      refine ⟨Memory.size_of_itemAt_of_wrap hitem hsize hwrap, ?_⟩
      exact Listing.atAddress_of_item?
        (Memory.item?_window_of_wrap hitem hsize hwrap)
  · intro byte m' hstep
    obtain ⟨hbyte, hop⟩ := step_skipped hstate hstep
    have hitem := Memory.itemAt_of_data hbyte hop
    have hfit : m.ip.toNat + (Item.data byte).length ≤ 65536 := m.ip.toNat_lt
    exact Listing.atAddress_of_item? (Memory.item?_window hitem hfit)

/-- The call through a register is shown with the name of the register,
and takes two bytes. -/
theorem listing_shows_call :
    Listing.atAddress callingOnward.memory callingOnward.ip =
      .ok ("cal ip", 2) := by
  have hstate : callingOnward.state = .running := rfl
  have hsize : callingOnward.memory.size ≤ 65536 := by decide
  obtain ⟨m', hstep⟩ := step_callingOnward
  obtain ⟨i, m₁, -, hitem, -, -, -, hshown, -⟩ :=
    (listing_shows_step hstate hsize).1 _ m' hstep
  rw [itemAt_callingOnward] at hitem
  cases hitem
  exact hshown (by decide)

/-- The largest memory, with the opcode of a push in its last byte. -/
def straddled : Memory :=
  (Memory.zeroed 65536).setByte 65535 0x18
    (Nat.le_of_eq (Memory.size_zeroed 65536).symm)

theorem size_straddled : straddled.size = 65536 := by
  rw [straddled, Memory.size_setByte, Memory.size_zeroed]

/-- A machine at the last byte of the largest memory. -/
def straddling : Machine := (fresh straddled .strict).setRegister .ip 65535

theorem ip_straddling : straddling.ip = 65535 := register_setRegister_self ..

/-- The operand of the push at the last address is read at address zero. -/
theorem itemAt_straddling :
    straddling.memory.itemAt straddling.ip =
      .ok (.instruction (.pushReg .ip), 1) := by
  have hcode :
      straddled.readByte (65535 : UInt16).toNat = .ok Opcode.pushReg.byte :=
    Memory.readByte_setByte_self ..
  have hoperand : straddled.readByte (0 : UInt16).toNat = .ok 0 := by
    refine (Memory.readByte_setByte_of_ne _ _ _ (by decide)).trans ?_
    exact Memory.readByte_zeroed (by decide)
  have hoperands : ∀ {memory : Memory}, memory.readByte (0 : UInt16).toNat = .ok 0 →
      memory.operandsAt (65535 + 1) [.register] = .ok ([.register .ip], 1) := by
    intro memory h
    rw [show (65535 + 1 : UInt16) = 0 from rfl]
    simp only [Memory.operandsAt, Memory.operandAt, h]
    rfl
  rw [ip_straddling]
  exact Memory.itemAt_of_instruction hcode (hoperands hoperand)

/-- The push is executed, as the byte at address zero names a register and
the stack has room. -/
theorem step_straddling : ∃ m', step straddling = .ok (.executed .pushReg) m' := by
  have hsp : (straddling.setRegister .ip 1).sp = 65534 := by
    refine (register_setRegister_of_ne _ _ (by decide)).trans ?_
    refine (register_setRegister_of_ne _ _ (by decide)).trans ?_
    refine (sp_fresh straddled .strict).trans ?_
    rw [stackTop, size_straddled]
    rfl
  have hfits : (straddling.setRegister .ip 1).sp.toNat + 2 ≤ straddled.size := by
    rw [hsp, size_straddled]
    decide
  exact ⟨_, step_of_instruction rfl itemAt_straddling (push_eq_pushed _ hfits)⟩

/-- The push at the end of the largest memory is executed, and a listing shows
its opcode alone.  So what a listing says at an address is not in all cases what
a step would do there. -/
theorem listing_misses_straddling_push :
    ¬ ∀ (m m' : Machine) (op : Opcode), m.state = .running → 2 ≤ m.memory.size →
      m.memory.size ≤ 65536 → step m = .ok (.executed op) m' →
        ∃ text, Listing.atAddress m.memory m.ip = .ok (text, op.length) := by
  intro hall
  have hsize : straddling.memory.size = 65536 := size_straddled
  have hwrap :
      65536 < straddling.ip.toNat + (Instruction.pushReg .ip).opcode.length := by
    rw [ip_straddling]
    decide
  have hshown := Listing.atAddress_of_item?
    (Memory.item?_window_of_wrap itemAt_straddling (Nat.le_of_eq hsize) hwrap)
  obtain ⟨m', hstep⟩ := step_straddling
  obtain ⟨text, htext⟩ :=
    hall straddling m' .pushReg rfl (by rw [hsize]; decide)
      (Nat.le_of_eq hsize) hstep
  rw [hshown] at htext
  have hlength : 1 = 2 := congrArg Prod.snd (Except.ok.inj htext)
  exact absurd hlength (by decide)

end Machine

end StackMachine
