import StackMachine.Machine.View
import StackMachine.Proofs.InstructionText
import StackMachine.Proofs.StackCapacity
import StackMachine.Text.Numeral

/-!
# Views and what they show

A view of memory is written out as an address and bytes.  Both are read off it
again, so a view says no more and no less than they do.  The view of a stack is
the free slot and the words above it.

## Main definitions

* `Hex.digit?`, `Hex.number?` — the number that is written in base sixteen
* `View.read?` — the address and the bytes that a view shows
* `Machine.stackBytes` — the bytes that the view of a stack is about

## Main statements

* `Hex.number?_eq_some_iff` — digits are read as the number that they are
  written for
* `View.read?_eq_some_iff` — a view is read as what it is written for, and no
  other text is read
* `Machine.viewStack_eq_ok_iff`, `Machine.viewMemory_eq_ok_iff` — when there is
  a view, and of what
* `Memory.EndsWith.window_eq` — the bytes of the words at the end of a memory
* `Machine.viewStack_of_pushAll` — the view of the words that were pushed
* `Machine.views_are_faithful` — all of this for every machine

## Design notes

**Nothing is read that is not written.**  Capital letters, other widths and
other blanks are refused.  So a text has at most one reading, and a reading has
only one text.
-/

namespace StackMachine

/-! ### Numbers in base sixteen -/

namespace Hex

variable {c : Char} {d n : Nat} {digits : List Char}

/-- The value of a digit in base sixteen, if it is one and no capital letter. -/
def digit? (c : Char) : Option Nat :=
  (Numeral.digitValue? 16 c).filter fun d => Nat.digitChar d = c

/-- The number that digits in base sixteen denote. -/
def number? (digits : List Char) : Option Nat :=
  digits.foldlM (fun n c => (16 * n + ·) <$> digit? c) 0

/-- The small letters only are digits of a view, although words are elsewhere
read with either. -/
theorem digit?_eq_some_iff : digit? c = some d ↔ d < 16 ∧ Nat.digitChar d = c := by
  rw [digit?, Option.filter_eq_some_iff, decide_eq_true_iff]
  constructor
  · rintro ⟨hvalue, hc⟩
    exact ⟨of_decide_eq_true (Option.filter_eq_some_iff.1 hvalue).2, hc⟩
  · have table : ∀ d < 16, Numeral.digitValue? 16 (Nat.digitChar d) =
        some d := by decide
    rintro ⟨hd, rfl⟩
    exact ⟨table d hd, rfl⟩

/-- One digit more at the end of a number.  Digits are written from the front,
but the last one is the remainder. -/
theorem number?_concat (digits : List Char) (c : Char) :
    number? (digits ++ [c]) = (number? digits).bind fun n =>
      (16 * n + ·) <$> digit? c := by
  rw [number?, List.foldlM_append]
  simp only [List.foldlM_cons, List.foldlM_nil, bind_pure]
  rfl

/-- Digits denote a number if they are how the number is written at their
length.  For that length the number must not be too large. -/
theorem number?_eq_some_iff {width : Nat} (hwidth : digits.length = width) :
    number? digits = some n ↔ n < Nat.pow 16 width ∧ fixed width n = digits := by
  subst hwidth
  induction digits using List.reverseRecOn generalizing n with
  | nil =>
    have hpow : Nat.pow 16 ([] : List Char).length = 1 := rfl
    rw [hpow]
    constructor
    · intro h
      cases h
      exact ⟨Nat.one_pos, rfl⟩
    · rintro ⟨h, -⟩
      obtain rfl : n = 0 := by omega
      rfl
  | append_singleton digits c ih =>
    have hpow :
        Nat.pow 16 (digits.length + 1) = Nat.pow 16 digits.length * 16 := rfl
    rw [number?_concat, List.length_append, List.length_singleton, hpow, fixed]
    simp only [Option.bind_eq_some_iff, ih, Option.map_eq_map,
      Option.map_eq_some_iff, digit?_eq_some_iff]
    constructor
    · rintro ⟨m, ⟨hm, hdigits⟩, d, ⟨hd, rfl⟩, rfl⟩
      have hdiv : (16 * m + d) / 16 = m := by omega
      have hmod : (16 * m + d) % 16 = d := by omega
      rw [hdiv, hmod, hdigits]
      exact ⟨by omega, rfl⟩
    · rintro ⟨hn, hdigits⟩
      obtain ⟨hfront, hlast⟩ := List.append_inj hdigits (length_fixed ..)
      have hdigit : n % 16 < 16 := Nat.mod_lt _ (by decide)
      exact ⟨n / 16, ⟨by omega, hfront⟩, n % 16,
        ⟨hdigit, List.singleton_inj.1 hlast⟩,
        Nat.div_add_mod n 16⟩

end Hex

/-! ### Reading a view -/

namespace View

variable {text : String} {address : UInt16} {values : List UInt8}
  {chars : List Char}

/-- A byte behind a blank. -/
def byteText (value : UInt8) : List Char :=
  ' ' :: '0' :: 'x' :: Hex.fixed 2 value.toNat

/-- The bytes that are shown, each behind a blank. -/
def readBytes? : List Char → Option (List UInt8)
  | [] => some []
  | ' ' :: '0' :: 'x' :: high :: low :: rest => do
    let n ← Hex.number? [high, low]
    let values ← readBytes? rest
    return UInt8.ofNat n :: values
  | _ => none

/-- The address and the bytes that a text shows. -/
def read? (text : String) : Option (UInt16 × List UInt8) :=
  match text.toList with
  | '0' :: 'x' :: a :: b :: c :: d :: ':' :: rest => do
    let n ← Hex.number? [a, b, c, d]
    let values ← readBytes? rest
    return (UInt16.ofNat n, values)
  | _ => none

/-- The characters of a view: four digits, a colon, and the same five characters
for each byte but for its two digits. -/
theorem toList_bytes (address : UInt16) (values : List UInt8) :
    (bytes address values).toList =
      '0' :: 'x' :: Hex.fixed 4 address.toNat ++
        ':' :: values.flatMap byteText := by
  have hfold : ∀ start : String,
      (values.foldl (fun text value =>
        text ++ " " ++ Hex.byte value) start).toList =
        start.toList ++ values.flatMap byteText := by
    induction values with
    | nil => simp
    | cons value values ih =>
      intro start
      rw [List.foldl_cons, ih, Hex.byte]
      simp only [String.toList_append, Hex.toList_pair, List.flatMap_cons,
        List.append_assoc]
      rfl
  rw [bytes, hfold, String.toList_append, Hex.toList_word]
  simp

theorem exists_byteText (value : UInt8) :
    ∃ high low, byteText value = [' ', '0', 'x', high, low] ∧
      Hex.number? [high, low] = some value.toNat := by
  obtain ⟨high, low, hfixed⟩ :=
    List.length_eq_two.1 (Hex.length_fixed 2 value.toNat)
  refine ⟨high, low, by rw [byteText, hfixed], ?_⟩
  exact (Hex.number?_eq_some_iff rfl).2 ⟨value.toNat_lt, hfixed⟩

theorem readBytes?_flatMap (values : List UInt8) :
    readBytes? (values.flatMap byteText) = some values := by
  induction values with
  | nil => rfl
  | cons value values ih =>
    obtain ⟨high, low, htext, hnumber⟩ := exists_byteText value
    rw [List.flatMap_cons, htext]
    simp only [List.cons_append, List.nil_append, readBytes?, hnumber, ih]
    simp

/-- Characters are read as bytes exactly if they are written for them. -/
theorem readBytes?_eq_some_iff :
    readBytes? chars = some values ↔ chars = values.flatMap byteText := by
  constructor
  · intro h
    fun_induction readBytes? chars generalizing values with
    | case1 =>
      cases h
      rfl
    | case2 high low rest ih =>
      simp only [Option.bind_eq_bind, Option.bind_eq_some_iff, Option.pure_def,
        Option.some_inj] at h
      obtain ⟨n, hnumber, others, hothers, rfl⟩ := h
      have hwidth : [high, low].length = 2 := rfl
      obtain ⟨hn, hdigits⟩ := (Hex.number?_eq_some_iff hwidth).1 hnumber
      have hback : (UInt8.ofNat n).toNat = n := UInt8.toNat_ofNat_of_lt' hn
      rw [List.flatMap_cons, byteText, hback, hdigits, ih hothers]
      rfl
    | case3 => cases h
  · rintro rfl
    exact readBytes?_flatMap values

/-- A text is read as an address and bytes exactly if it is the text that is
written for them.  Nothing else is accepted, so that reading is the inverse of
writing and not only undoes it. -/
theorem read?_eq_some_iff :
    read? text = some (address, values) ↔ text = bytes address values := by
  rw [← String.toList_inj, toList_bytes]
  unfold read?
  constructor
  · intro h
    split at h
    · next a b c d rest htext =>
      simp only [Option.bind_eq_bind, Option.bind_eq_some_iff, Option.pure_def,
        Option.some_inj] at h
      obtain ⟨n, hnumber, others, hothers, hpair⟩ := h
      cases hpair
      have hwidth : [a, b, c, d].length = 4 := rfl
      obtain ⟨hn, hdigits⟩ := (Hex.number?_eq_some_iff hwidth).1 hnumber
      have hback : (UInt16.ofNat n).toNat = n := UInt16.toNat_ofNat_of_lt' hn
      rw [htext, hback, hdigits, readBytes?_eq_some_iff.1 hothers]
      rfl
    · cases h
  · intro htext
    obtain ⟨a, b, c, d, hfixed⟩ :
        ∃ a b c d, Hex.fixed 4 address.toNat = [a, b, c, d] :=
      ⟨_, _, _, _, rfl⟩
    have hwidth : [a, b, c, d].length = 4 := rfl
    have hnumber : Hex.number? [a, b, c, d] = some address.toNat :=
      (Hex.number?_eq_some_iff hwidth).2 ⟨address.toNat_lt, hfixed⟩
    rw [htext, hfixed]
    simp [hnumber, readBytes?_flatMap]

/-- Different addresses, and different bytes, have different views.  How many
bytes there are can be told as well. -/
theorem bytes_inj {address' : UInt16} {values' : List UInt8} :
    bytes address values = bytes address' values' ↔
      address = address' ∧ values = values' := by
  rw [← read?_eq_some_iff, read?_eq_some_iff.2 rfl, Option.some_inj,
    Prod.mk.injEq, eq_comm]

end View

/-! ### Bytes of a memory -/

namespace Memory

variable {m m' : Memory} {offset count : Nat} {words : List UInt16}

theorem window_eq_take_drop (m : Memory) (offset count : Nat) :
    m.window offset count = (m.bytes.toList.drop offset).take count := by
  rw [window, Array.toList_extract, List.extract_eq_take_drop,
    Nat.add_sub_cancel_left]

theorem window_eq_drop (m : Memory) (offset : Nat) :
    m.window offset (m.size - offset) = m.bytes.toList.drop offset := by
  rw [window_eq_take_drop, List.take_of_length_le]
  rw [List.length_drop, Array.length_toList, size]

theorem window_add (m : Memory) (offset count others : Nat) :
    m.window offset (count + others) =
      m.window offset count ++ m.window (offset + count) others := by
  rw [window_eq_take_drop, window_eq_take_drop, window_eq_take_drop,
    List.take_add, List.drop_drop]

/-- A slice is the window there, if that lies in memory, and an error that
names both otherwise. -/
theorem slice_eq (m : Memory) (offset count : Nat) :
    m.slice offset count =
      if offset + count ≤ m.size then .ok (m.window offset count)
      else .error ⟨offset, count, m.size⟩ := by
  unfold slice check
  split <;> rfl

/-- Memories with the same bytes in a place have the same window there.  The
rest of the two may be different, and so may their sizes. -/
theorem window_congr (hfits : offset + count ≤ m.size)
    (h : ∀ i, offset ≤ i → i < offset + count → m'.readByte i = m.readByte i) :
    m'.window offset count = m.window offset count := by
  induction count generalizing offset with
  | zero =>
    rw [window_eq_take_drop, window_eq_take_drop, List.take_zero, List.take_zero]
  | succ count ih =>
    have hbyte : m.readByte offset = .ok (m.byteAt offset (by omega)) :=
      readByte_eq_ok.2 ⟨by omega, rfl⟩
    have hsame := (h offset (Nat.le_refl _) (by omega)).trans hbyte
    rw [window_of_readByte hsame, window_of_readByte hbyte, ih (by omega)]
    intro i hge hlt
    exact h i (by omega) (by omega)

/-- The words at the end of a memory are its last bytes, each word with
its high byte first. -/
theorem EndsWith.window_eq (h : m.EndsWith words)
    (hfits : 2 * words.length ≤ m.size) :
    m.window (m.size - 2 * words.length) (2 * words.length) =
      words.flatMap Word.toBytes := by
  induction words with
  | nil =>
    rw [List.length_nil, window_eq_take_drop, List.take_zero, List.flatMap_nil]
  | cons word words ih =>
    obtain ⟨hword, hwords⟩ := h
    rw [List.length_cons] at hfits
    obtain ⟨high, low, rfl, hwindow⟩ := window_of_readWord hword (2 * words.length)
    have hnext :
        m.size - 2 * (words.length + 1) + 2 = m.size - 2 * words.length := by omega
    rw [hnext, ih hwords (by omega)] at hwindow
    rw [List.flatMap_cons, Word.toBytes, Word.high_ofBytes, Word.low_ofBytes]
    exact hwindow

end Memory

/-! ### Views of a machine -/

/-- What succeeds where a condition holds, and fails elsewhere, has succeeded
exactly if the condition holds.  Both views are of this form. -/
theorem ite_eq_ok_iff {ε α : Type} {p : Prop} [Decidable p] {a b : α} {e : ε} :
    (if p then .ok a else .error e : Except ε α) = .ok b ↔ p ∧ b = a := by
  by_cases h : p
  · rw [if_pos h, Except.ok.injEq, and_iff_right h, eq_comm]
  · rw [if_neg h]
    exact iff_of_false (fun hok => nomatch hok) fun hok => h hok.1

namespace Machine

variable {m m' : Machine} {address : UInt16} {words : List UInt16} {text : String}

/-- The view of memory from an address on, for all addresses. -/
theorem viewMemory_eq (m : Machine) (address : UInt16) :
    m.viewMemory address =
      if address.toNat + 8 ≤ m.memory.size then
        .ok (View.bytes address ((m.memory.bytes.toList.drop address.toNat).take 8))
      else .error ⟨address.toNat, 8, m.memory.size⟩ := by
  rw [viewMemory, Memory.slice_eq, Memory.window_eq_take_drop]
  split <;> rfl

/-- The bytes of memory from the stack pointer on. -/
def stackBytes (m : Machine) : List UInt8 := m.memory.bytes.toList.drop m.sp.toNat

/-- The view of a stack, for all pointers.  A pointer at the end of memory is
not behind it, and there is nothing to show. -/
theorem viewStack_eq (m : Machine) :
    m.viewStack =
      if m.sp.toNat ≤ m.memory.size then .ok (View.bytes m.sp m.stackBytes)
      else .error ⟨m.sp.toNat, 0, m.memory.size⟩ := by
  unfold viewStack
  by_cases h : m.sp.toNat ≤ m.memory.size
  · have hend :
        m.sp.toNat + (m.memory.size - m.sp.toNat) ≤ m.memory.size := by omega
    simp only
    rw [if_neg (Nat.not_lt.2 h), if_pos h, Memory.slice_eq, if_pos hend,
      Memory.window_eq_drop]
    rfl
  · simp only
    rw [if_pos (Nat.not_le.1 h), if_neg h]

/-- Eight bytes from an address on can be viewed exactly if all of
them lie in memory. -/
theorem viewMemory_eq_ok_iff :
    m.viewMemory address = .ok text ↔
      address.toNat + 8 ≤ m.memory.size ∧
        text = View.bytes address
          ((m.memory.bytes.toList.drop address.toNat).take 8) := by
  rw [viewMemory_eq, ite_eq_ok_iff]

/-- A stack can be viewed exactly if its pointer is not behind the end
of memory.  That of a full stack has wrapped around, and is behind the
end of most memories. -/
theorem viewStack_eq_ok_iff :
    m.viewStack = .ok text ↔ m.sp.toNat ≤ m.memory.size ∧
      text = View.bytes m.sp m.stackBytes := by
  rw [viewStack_eq, ite_eq_ok_iff]

/-- Two machines have the same view of their stacks if it is of the same bytes
in the same place.  Machines with no view are not the same in this. -/
theorem same_viewStack_iff :
    (∃ text, m.viewStack = .ok text ∧ m'.viewStack = .ok text) ↔
      m.sp.toNat ≤ m.memory.size ∧ m'.sp.toNat ≤ m'.memory.size ∧ m.sp = m'.sp ∧
        m.stackBytes = m'.stackBytes := by
  simp only [viewStack_eq_ok_iff]
  constructor
  · rintro ⟨text, ⟨hm, rfl⟩, hm', hsame⟩
    exact ⟨hm, hm', View.bytes_inj.1 hsame⟩
  · rintro ⟨hm, hm', hsp, hbytes⟩
    exact ⟨_, ⟨hm, rfl⟩, hm', by rw [hsp, hbytes]⟩

/-- The words that are pushed on a fresh machine do not reach its free slot. The
bytes in it are those that were there at first. -/
theorem freeSlot_untouched {memory : Memory} (policy : OpcodePolicy)
    (hmax : memory.size ≤ 65536) (hroom : 2 * (words.length + 1) ≤ memory.size) :
    ((fresh memory policy).pushedAll words).memory.window
      (memory.size - 2 * (words.length + 1)) 2 =
      memory.window (memory.size - 2 * (words.length + 1)) 2 := by
  refine Memory.window_congr (m := memory) (by omega) fun offset hge hlt => ?_
  refine readByte_pushedAll fun i hi => ?_
  have hslot :
      (slot (fresh memory policy).sp i).toNat = memory.size - 2 * (i + 1) := by
    rw [sp_fresh, ← freeSlot_eq_slot (by omega) (by omega),
      toNat_freeSlot hmax (by omega)]
  rw [hslot]
  omega

/-- The view of a stack that has never been full: the free slot with the bytes
that it had at first, and the words, the last one that was pushed in front. -/
theorem viewStack_of_pushAll {memory : Memory} (policy : OpcodePolicy)
    (hmax : memory.size ≤ 65536) (hroom : words.length < memory.size / 2) :
    ∃ m, Machine.pushAll words (fresh memory policy) = .ok () m ∧
      m.sp.toNat = memory.size - 2 * (words.length + 1) ∧
      m.viewStack = .ok (View.bytes m.sp
        (memory.window m.sp.toNat 2 ++ words.reverse.flatMap Word.toBytes)) := by
  have hfits : 2 * (words.length + 1) ≤ memory.size := by omega
  have hempty : (fresh memory policy).StackIs [] :=
    (StackOf.fresh memory policy).stackIs (by omega) hmax (Nat.zero_le _)
  have hsize : ((fresh memory policy).pushedAll words).memory.size = memory.size :=
    size_memory_pushedAll ..
  have hall : 2 * (([] : List UInt16).length + words.length) ≤ memory.size := by
    rw [List.length_nil]
    omega
  obtain ⟨hcheck, hstack⟩ := hempty.pushAll words hall
  rw [List.append_nil] at hstack
  have hsp : ((fresh memory policy).pushedAll words).sp.toNat =
      memory.size - 2 * (words.length + 1) := by
    rw [hstack.sp_eq, hsize, List.length_reverse, toNat_freeSlot hmax hfits]
  have hwords := hstack.holds.window_eq hstack.fits
  rw [hsize, List.length_reverse] at hwords
  refine ⟨_, pushAll_of_room hcheck, hsp, ?_⟩
  -- From the pointer to the end of memory there is room for the words and for
  -- one word more.
  have hcount : memory.size - (memory.size - 2 * (words.length + 1)) =
      2 + 2 * words.length := by
    omega
  have hnext : memory.size - 2 * (words.length + 1) + 2 =
      memory.size - 2 * words.length := by
    omega
  rw [viewStack_eq, if_pos (by rw [hsp, hsize]; omega), stackBytes,
    ← Memory.window_eq_drop, hsize, hsp, hcount, Memory.window_add,
    freeSlot_untouched policy hmax hfits, hnext, hwords]

/-- A stack can be viewed if its pointer is not behind the end of memory, and
eight bytes from an address on if they all lie in memory.  A view is read back
as the place where it starts and the bytes that are there, and nothing else is
written for them; so the views of two stacks are the same exactly if their
pointers are and the bytes from there on.  Behind pushes that leave a fresh
machine with fewer words than half its bytes, the view shows the free slot and
then the words, the last one first and the high byte of each in front. -/
theorem views_are_faithful :
    (∀ (m : Machine) address,
      ((∃ text, m.viewStack = .ok text) ↔ m.sp.toNat ≤ m.memory.size) ∧
        ((∃ text, m.viewMemory address = .ok text) ↔
          address.toNat + 8 ≤ m.memory.size) ∧
        (∀ text, m.viewStack = .ok text →
          View.read? text = some (m.sp, m.stackBytes)) ∧
        ∀ text, m.viewMemory address = .ok text →
          View.read? text =
            some (address, (m.memory.bytes.toList.drop address.toNat).take 8)) ∧
      (∀ text address bytes,
        View.read? text = some (address, bytes) ↔ text = View.bytes address bytes) ∧
      (∀ m m' : Machine, (∃ text, m.viewStack = .ok text ∧
        m'.viewStack = .ok text) ↔
        m.sp.toNat ≤ m.memory.size ∧ m'.sp.toNat ≤ m'.memory.size ∧ m.sp = m'.sp ∧
          m.stackBytes = m'.stackBytes) ∧
      ∀ (memory : Memory) policy (words : List UInt16), memory.size ≤ 65536 →
        words.length < memory.size / 2 →
          ∃ m, Machine.pushAll words (fresh memory policy) = .ok () m ∧
            m.sp.toNat = memory.size - 2 * (words.length + 1) ∧
            m.viewStack = .ok (View.bytes m.sp
              ((memory.bytes.toList.drop m.sp.toNat).take 2 ++
                words.reverse.flatMap Word.toBytes)) := by
  refine ⟨fun m address => ⟨?_, ?_, ?_, ?_⟩, fun text address bytes =>
    View.read?_eq_some_iff,
    fun m m' => same_viewStack_iff, ?_⟩
  · simp only [viewStack_eq_ok_iff, exists_and_left, exists_eq, and_true]
  · simp only [viewMemory_eq_ok_iff, exists_and_left, exists_eq, and_true]
  · exact fun text h => View.read?_eq_some_iff.2 (viewStack_eq_ok_iff.1 h).2
  · exact fun text h => View.read?_eq_some_iff.2 (viewMemory_eq_ok_iff.1 h).2
  · intro memory policy words hmax hroom
    simp only [← Memory.window_eq_take_drop]
    exact viewStack_of_pushAll policy hmax hroom

/-- A word in five bytes is shown behind its free slot, and the byte
below them is not. -/
theorem odd_stack_shown : ∃ m,
    Machine.pushAll [0x1234] (fresh (Memory.zeroed 5) .strict) = .ok () m ∧
      m.viewStack = .ok "0x0001: 0x00 0x00 0x12 0x34" := by
  obtain ⟨-, -, -, hpushes⟩ := views_are_faithful
  obtain ⟨m, hrun, hsp, hview⟩ :=
    hpushes (Memory.zeroed 5) .strict [0x1234] (by decide) (by decide)
  obtain hone : m.sp = 1 := UInt16.toNat_inj.1 hsp
  rw [hone] at hview
  exact ⟨m, hrun, hview⟩

end Machine

end StackMachine
