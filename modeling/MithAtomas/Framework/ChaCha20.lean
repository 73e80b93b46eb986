import MithAtomas.Framework.BlockStream

/-!
# The ChaCha20 block function

RFC 8439 §2.1 to §2.3, over a matrix of words: a column round works on the columns, and a diagonal
round on the diagonals, which are the columns of the matrix whose rows are turned by their number.
Words are bit vectors, and words and bytes are related by their numbers.
-/

namespace ChaCha20

abbrev Word := BitVec 32

/-- Rows of columns. -/
abbrev State := Fin 4 → Fin 4 → Word

/-! ### Words and bytes -/

/-- The word with the digits `b`, the least first. -/
def word (b : Fin 4 → UInt8) : Word :=
  BitVec.ofNat 32 ((b 0).toNat + 2 ^ 8 * (b 1).toNat + 2 ^ 16 * (b 2).toNat + 2 ^ 24 * (b 3).toNat)

/-- Digit `i` of a word. -/
def byte (w : Word) (i : ℕ) : UInt8 :=
  UInt8.ofNat (w.toNat / 2 ^ (8 * i))

/-! ### Rounds -/

/-- §2.1 -/
def quarterRound (q : Fin 4 → Word) : Fin 4 → Word :=
  let a := q 0 + q 1
  let d := (q 3 ^^^ a).rotateLeft 16
  let c := q 2 + d
  let b := (q 1 ^^^ c).rotateLeft 12
  let a := a + b
  let d := (d ^^^ a).rotateLeft 8
  let c := c + d
  let b := (b ^^^ c).rotateLeft 7
  ![a, b, c, d]

def columnRound (s : State) : State :=
  fun r c => quarterRound (fun r' => s r' c) r

/-- Row `r` turned left by `r`: the diagonals become columns. -/
def turn (s : State) : State :=
  fun r c => s r (c + r)

/-- Row `r` turned right by `r`. -/
def turnBack (s : State) : State :=
  fun r c => s r (c - r)

def diagonalRound (s : State) : State :=
  turnBack (columnRound (turn s))

/-- `inner_block` -/
def innerBlock (s : State) : State :=
  diagonalRound (columnRound s)

/-! ### The block function -/

/-- `"expand 32-byte k"` -/
def constants : Fin 4 → Word :=
  ![0x61707865, 0x3320646e, 0x79622d32, 0x6b206574]

/-- §2.3: constants, key, counter and nonce. -/
def initialState (key : Fin 32 → UInt8) (counter : Word) (nonce : Fin 12 → UInt8) : State :=
  ![constants,
    fun c => word fun i => key ⟨4 * c + i, by omega⟩,
    fun c => word fun i => key ⟨16 + 4 * c + i, by omega⟩,
    ![counter, word fun i => nonce ⟨i, by omega⟩, word fun i => nonce ⟨4 + i, by omega⟩,
      word fun i => nonce ⟨8 + i, by omega⟩]]

/-- The state, after 20 rounds, is added to the one before them. -/
def finalState (s : State) : State :=
  fun r c => innerBlock^[10] s r c + s r c

/-- Row by row, each word from its least byte on. -/
def serialize (s : State) (i : Fin 64) : UInt8 :=
  byte (s ⟨i / 16, by omega⟩ ⟨i / 4 % 4, by omega⟩) (i % 4)

/-- The block of counter `c`. -/
def block (key : Fin 32 → UInt8) (nonce : Fin 12 → UInt8) (c : ℕ) : Fin 64 → UInt8 :=
  serialize (finalState (initialState key (BitVec.ofNat 32 c) nonce))

/-- The keystream from counter 0 on: a block for each value that the counter has. -/
def keystream (key : Fin 32 → UInt8) (nonce : Fin 12 → UInt8) : List UInt8 :=
  BlockStream.blocks (block key nonce) (2 ^ 32)

/-! ### Rounds by column -/

theorem columnRound_apply (s : State) (r c : Fin 4) :
    columnRound s r c = quarterRound ![s 0 c, s 1 c, s 2 c, s 3 c] r := by
  -- column `c`, entry by entry
  refine congrArg (fun q => quarterRound q r) (funext fun r' => ?_)
  fin_cases r' <;> rfl

theorem diagonalRound_apply (s : State) (r c : Fin 4) : diagonalRound s r c =
    quarterRound ![s 0 (c - r), s 1 (c - r + 1), s 2 (c - r + 2), s 3 (c - r + 3)] r := by
  -- entry `(r, c)` is in the column `c - r` of the turned matrix
  refine (columnRound_apply (turn s) r (c - r)).trans ?_
  simp only [turn, add_zero]

end ChaCha20
