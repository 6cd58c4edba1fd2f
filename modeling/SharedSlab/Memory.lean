import Std.Data.HashMap

set_option autoImplicit false

/-!
# Memory

Memory is a sparse array of 64-bit words. A word that was never written repeats the fill byte.
Bytes are a little-endian view of the words, so byte `a` belongs to word `a / 8`. Every write is
described by what it does to `word` and `byte`; how the words are stored is of no concern
elsewhere.
-/

namespace SharedSlab

structure Memory where
  fill : UInt8
  cells : Std.HashMap Nat UInt64

namespace Memory

def filled (fill : UInt8) : Memory := ⟨fill, ∅⟩

def zeroed : Memory := filled 0

def spread (b : UInt8) : UInt64 := b.toUInt64 * 0x0101010101010101

def word (m : Memory) (i : Nat) : UInt64 := m.cells.getD i (spread m.fill)

def setWord (m : Memory) (i : Nat) (w : UInt64) : Memory :=
  { m with cells := m.cells.insert i w }

/-- How far byte `a` stands above the low end of its word. -/
def lane (a : Nat) : UInt64 := UInt64.ofNat (8 * (a % 8))

def byte (m : Memory) (a : Nat) : UInt8 := (m.word (a / 8) >>> lane a).toUInt8

def putByte (w : UInt64) (a : Nat) (b : UInt8) : UInt64 :=
  (w &&& ~~~(0xff <<< lane a)) ||| (b.toUInt64 <<< lane a)

def setByte (m : Memory) (a : Nat) (b : UInt8) : Memory :=
  m.setWord (a / 8) (putByte (m.word (a / 8)) a b)

def fillBytes (m : Memory) (a : Nat) (b : UInt8) : Nat → Memory
  | 0 => m
  | len + 1 => (m.setByte a b).fillBytes (a + 1) b len

def fillWords (m : Memory) (i : Nat) (w : UInt64) : Nat → Memory
  | 0 => m
  | count + 1 => (m.setWord i w).fillWords (i + 1) w count

/-- Writes `b` to every byte of `[a, a + len)`, by whole words between the first and the last word
boundary. -/
def blanket (m : Memory) (a : Nat) (b : UInt8) (len : Nat) : Memory :=
  let head := min len ((8 - a % 8) % 8)
  let words := (len - head) / 8
  let tail := a + head + 8 * words
  let m := m.fillBytes a b head
  let m := m.fillWords ((a + head) / 8) (spread b) words
  m.fillBytes tail b (len - head - 8 * words)

def copy (m : Memory) (src dst : Nat) : Nat → Memory
  | 0 => m
  | len + 1 => (m.setByte dst (m.byte src)).copy (src + 1) (dst + 1) len

theorem word_setWord (m : Memory) (i j : Nat) (w : UInt64) :
    (m.setWord i w).word j = if i = j then w else m.word j := by
  simp [word, setWord, Std.HashMap.getD_insert]

@[simp] theorem word_setWord_self (m : Memory) (i : Nat) (w : UInt64) :
    (m.setWord i w).word i = w := by
  rw [word_setWord, if_pos rfl]

theorem word_setWord_of_ne (m : Memory) {i j : Nat} (w : UInt64) (h : i ≠ j) :
    (m.setWord i w).word j = m.word j := by
  rw [word_setWord, if_neg h]

theorem word_fillWords (m : Memory) (i j : Nat) (w : UInt64) (count : Nat) :
    (m.fillWords i w count).word j = if i ≤ j ∧ j < i + count then w else m.word j := by
  induction count generalizing m i with
  | zero => rw [fillWords, if_neg (by omega)]
  | succ count ih =>
    rw [fillWords, ih, word_setWord]
    split
    · rw [if_pos (by omega)]
    · split
      · rw [if_pos (by omega)]
      · rw [if_neg (by omega)]

end Memory

end SharedSlab
