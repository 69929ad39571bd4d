/-!
# Words and their two bytes

A word of the machine is sixteen bits.  In memory it takes two bytes, the high
one at the lower address.

## Main definitions

* `Word.ofBytes` — the word with a given high and low byte
* `Word.high`, `Word.low` — the two bytes of a word
* `Word.toBytes` — both bytes in the order in which memory holds them

## Main statements

* `Word.ofBytes_high_low` — a word is recovered from its bytes
* `Word.high_ofBytes`, `Word.low_ofBytes` — bytes are recovered from their word
-/

namespace StackMachine.Word

/-- The word whose high byte is `high` and whose low byte is `low`. -/
def ofBytes (high low : UInt8) : UInt16 :=
  UInt16.ofNat (256 * high.toNat + low.toNat)

/-- The more significant byte of a word. -/
def high (word : UInt16) : UInt8 := UInt8.ofNat (word.toNat / 256)

/-- The less significant byte of a word. -/
def low (word : UInt16) : UInt8 := UInt8.ofNat (word.toNat % 256)

/-- The bytes of a word in memory order: the high byte comes first. -/
def toBytes (word : UInt16) : List UInt8 := [high word, low word]

/-- The value of a word by those of its bytes, so that arithmetic decides
what depends on it. -/
theorem toNat_ofBytes (high low : UInt8) :
    (ofBytes high low).toNat = 256 * high.toNat + low.toNat := by
  have h₁ := high.toNat_lt
  have h₂ := low.toNat_lt
  simp only [ofBytes, UInt16.toNat_ofNat']
  omega

theorem toNat_high (word : UInt16) : (high word).toNat = word.toNat / 256 := by
  have h := word.toNat_lt
  simp only [high, UInt8.toNat_ofNat']
  omega

theorem toNat_low (word : UInt16) : (low word).toNat = word.toNat % 256 := by
  simp only [low, UInt8.toNat_ofNat']
  omega

@[simp] theorem ofBytes_high_low (word : UInt16) :
    ofBytes (high word) (low word) = word := by
  apply UInt16.toNat_inj.1
  rw [toNat_ofBytes, toNat_high, toNat_low]
  omega

@[simp] theorem high_ofBytes (a b : UInt8) : high (ofBytes a b) = a := by
  have h := b.toNat_lt
  apply UInt8.toNat_inj.1
  rw [toNat_high, toNat_ofBytes]
  omega

@[simp] theorem low_ofBytes (a b : UInt8) : low (ofBytes a b) = b := by
  have h := b.toNat_lt
  apply UInt8.toNat_inj.1
  rw [toNat_low, toNat_ofBytes]
  omega

@[simp] theorem length_toBytes (word : UInt16) : (toBytes word).length = 2 := rfl

end StackMachine.Word
