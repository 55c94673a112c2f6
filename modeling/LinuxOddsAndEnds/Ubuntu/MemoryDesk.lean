import LinuxOddsAndEnds.Ubuntu.MemoryClient

/-!
# One editor at a time

Seen from outside, the clients of the memory module are visitors of a desk with one seat and
an array of bytes on it. Who sits there moves along the array, stores bytes and prints the
first sixteen; what was printed is what lay on the desk at that moment, and the next visitor
finds what the last one left. Page tables, physical memory, the text of the proc file and the
interleaving of the accesses cannot be told apart from this, and no byte outside the buffer
changes.
-/

namespace LinuxOddsAndEnds.Ubuntu.MemoryClient

open Foundation Memory

/-- Where the visitor is and what he writes; without a mapping there is nothing to write to. -/
@[ext]
structure Editor (size : ℕ) where
  mapped : Bool
  offset : Fin size
  val : Byte
  deriving DecidableEq

/-- The array, and the visitor with his editor once it is set up. -/
structure Desk (C : Type*) (size : ℕ) where
  cells : Fin size → Byte
  session : Option (C × Option (Editor size))

inductive Command where
  | down
  | up
  | right
  | left
  | dump

inductive DeskAction (C : Type*) where
  | enter (c : C)
  | look (c : C)
  | begin (c : C) (mapped : Bool)
  | command (c : C) (k : Command)
  | leave (c : C)

variable {C : Type*} {size : ℕ}

section Commands

def Editor.fillLine (e : Editor size) (offset : ℕ) : List Char :=
  showHex offset ++ ':' :: showHex e.val.toNat

def dumpLine (cells : Fin size → Byte) : List Char := ((List.ofFn cells).take 16).flatMap showChar

/-- The byte is stored and the visitor moves to another one. -/
def Editor.fill (c : C) (cells : Fin size → Byte) (e : Editor size) (offset : Fin size) :
    (Fin size → Byte) × Editor size × List (Seen C) :=
  if e.mapped then
    (Function.update cells e.offset e.val, { e with offset := offset },
      [.line c (e.fillLine offset)])
  else (cells, e, [.faulted c])

/-- The array and the editor after a command of `c`, and what is seen of it. -/
def Editor.run (c : C) (cells : Fin size → Byte) (e : Editor size) :
    Command → (Fin size → Byte) × Editor size × List (Seen C)
  | .down =>
    if e.offset.val ≠ 0 then e.fill c cells ⟨e.offset - 1, by omega⟩ else (cells, e, [])
  | .up =>
    if h : e.offset.val + 1 < size then e.fill c cells ⟨e.offset + 1, h⟩ else (cells, e, [])
  | .right => (cells, { e with val := e.val + 1 }, [.line c (showHex (e.val + 1).toNat)])
  | .left => (cells, { e with val := e.val - 1 }, [.line c (showHex (e.val - 1).toNat)])
  | .dump => (cells, e, if e.mapped then [.line c (dumpLine cells)] else [.faulted c])

end Commands

variable [DecidableEq C]

/-- The editor of `c`, if it is his turn. -/
def Desk.seat (d : Desk C size) (c : C) : Option (Option (Editor size)) :=
  d.session.bind fun p => if p.1 = c then some p.2 else none

/-- A size that is no `int` ends the visit before it is printed. -/
def desk : Machine (Desk C size) (DeskAction C) (Seen C)
  | d, .enter c =>
    if d.session.isSome then some (d, [.busy c])
    else some ({ d with session := some (c, none) }, [.opened c])
  | d, .look c =>
    if d.seat c = some none then some (d, if size < 2 ^ 31 then [.size c size] else []) else none
  | d, .begin c mapped =>
    if h : 0 < size then
      match d.seat c with
      | some none => some ({ d with session := some (c, some ⟨mapped, ⟨0, h⟩, 0⟩) }, [])
      | _ => none
    else none
  | d, .command c k =>
    match d.seat c with
    | some (some e) =>
      let out := e.run c d.cells k
      some (⟨out.1, some (c, some out.2.1)⟩, out.2.2)
    | _ => none
  | d, .leave c =>
    match d.seat c with
    | some _ => some ({ d with session := none }, [.closed c])
    | none => none

section Visits

variable {pageShift : ℕ}

/-- The kernel makes the mapping that a client asks for. -/
def granted (b : PageBuffer pageShift) : Option (VmAreaStruct × ℤ) → Bool
  | none => false
  | some (vma, answer) => (memoryMmap b.toKmallocBuffer (fun _ => answer) vma).ret = 0

/-- What the third character of an arrow key asks for. -/
def arrowCommand (ch : ℤ) : Option Command :=
  if ch = 66 then some .down
  else if ch = 65 then some .up
  else if ch = 67 then some .right
  else if ch = 68 then some .left
  else none

/-- What a step of a client is at the desk. A dump counts where its line ends, or at its first
byte if there is no mapping. -/
def visit (b : PageBuffer pageShift) (s : State C) : Action C → List (DeskAction C)
  | .openDevice c => [.enter c]
  | .readProc c isOpen => if isOpen then [.look c] else []
  | .mmap c area => [.begin c (granted b area)]
  | .getchar c ch =>
    if (s.client c).pc = .bracket then ((arrowCommand ch).map (.command c)).toList else []
  | .load c =>
    match (s.client c).pc with
    | .dump i => if i < 16 ∧ (s.client c).kernelBuff.isSome then [] else [.command c .dump]
    | _ => []
  | .close c => [.leave c]
  | .start _ | .munmap _ | .kill _ => []

end Visits

def PageBuffer.cells {pageShift : ℕ} (b : PageBuffer pageShift) (memory : ℕ → Byte) :
    Fin (bufferSize pageShift) → Byte := fun i => memory (b.base + i)

theorem Desk.seat_eq_some {d : Desk C size} {c : C} {e : Option (Editor size)} :
    d.seat c = some e ↔ d.session = some (c, e) := by
  rw [Desk.seat, Option.bind_eq_some_iff]
  constructor
  · rintro ⟨⟨c', e'⟩, hsession, h⟩
    by_cases hc : c' = c
    · rw [if_pos hc] at h
      obtain rfl := Option.some.inj h
      rw [hsession, hc]
    · rw [if_neg hc] at h
      cases h
  · exact fun h => ⟨(c, e), h, if_pos rfl⟩

section Size

variable {pageShift : ℕ}

/-- Sixteen pages, or nothing of them is left in an `unsigned long`. -/
theorem bufferSize_eq (pageShift : ℕ) :
    bufferSize pageShift = if pageShift < 60 then 2 ^ (pageShift + 4) else 0 := by
  have hmul : bufferSize pageShift = 2 ^ (pageShift + 4) % 2 ^ 64 := by
    rw [bufferSize, kmallocMmpBufferSize, BitVec.toNat_mul, BitVec.toNat_shiftLeft,
      Nat.shiftLeft_eq, pow_add]
    simp [Nat.mul_mod, Nat.mul_comm]
  rw [hmul]
  split_ifs with h
  · exact Nat.mod_eq_of_lt (Nat.pow_lt_pow_right (by decide) (by omega))
  · exact Nat.mod_eq_zero_of_dvd (pow_dvd_pow 2 (by omega))

theorem pow_dvd_bufferSize (pageShift : ℕ) : 2 ^ pageShift ∣ bufferSize pageShift := by
  rw [bufferSize_eq]
  split_ifs
  · exact pow_dvd_pow 2 (by omega)
  · exact dvd_zero _

theorem sixteen_le_bufferSize (h : 0 < bufferSize pageShift) : 16 ≤ bufferSize pageShift := by
  rw [bufferSize_eq] at h ⊢
  split_ifs at h ⊢
  · have hpow := Nat.pow_le_pow_right (n := 2) (by decide) (Nat.le_add_left 4 pageShift)
    omega
  · omega

theorem toInt_bufferSize (h : -2 ^ 31 ≤ (kmallocMmpBufferSize pageShift).toInt) :
    (kmallocMmpBufferSize pageShift).toInt = bufferSize pageShift := by
  have hsize := bufferSize_eq pageShift
  rw [BitVec.toInt_eq_toNat_cond] at h ⊢
  split_ifs at h ⊢ with hsmall
  · rfl
  · split_ifs at hsize with hshift
    · have hpow : 2 ^ (pageShift + 4) ≤ 2 ^ 63 := Nat.pow_le_pow_right (by decide) (by omega)
      rw [bufferSize] at hsize
      omega
    · rw [bufferSize] at hsize
      omega

theorem toInt_bufferSize_iff (pageShift : ℕ) :
    (-2 ^ 31 ≤ (kmallocMmpBufferSize pageShift).toInt ∧
      (kmallocMmpBufferSize pageShift).toInt < 2 ^ 31) ↔ bufferSize pageShift < 2 ^ 31 := by
  constructor
  · rintro ⟨hlow, hhigh⟩
    rw [toInt_bufferSize hlow] at hhigh
    omega
  · intro h
    have hint : (kmallocMmpBufferSize pageShift).toInt = bufferSize pageShift := by
      refine BitVec.toInt_eq_toNat_of_lt ?_
      rw [bufferSize] at h
      omega
    omega

theorem newline_notMem_decimal (n : ℤ) : '\n' ∉ Ipc.decimal n := by
  have hdigits : '\n' ∉ Nat.toDigits 10 n.natAbs := fun hmem =>
    absurd (Nat.isDigit_of_mem_toDigits (by decide) (by decide) hmem) (by decide)
  unfold Ipc.decimal
  split_ifs
  · simpa using hdigits
  · exact hdigits

theorem stoi_decimal (n : ℤ) :
    stoi (Ipc.decimal n) = if -2 ^ 31 ≤ n ∧ n < 2 ^ 31 then some n else none := by
  have hread : readInt (Ipc.decimal n) = some n := by
    unfold Ipc.decimal
    split_ifs with h
    · have hminus : readInt ('-' :: (Nat.toDigits 10 n.natAbs ++ [])) = some (-(n.natAbs : ℤ)) :=
        readInt_minus_toDigits n.natAbs (by simp)
      rw [List.append_nil] at hminus
      rw [hminus]
      congr 1
      omega
    · have hplus : readInt (Nat.toDigits 10 n.natAbs ++ []) = some (n.natAbs : ℤ) :=
        readInt_toDigits n.natAbs (by simp)
      rw [List.append_nil] at hplus
      rw [hplus]
      congr 1
      omega
  rw [stoi, hread]
  rfl

theorem lines_procText (pageShift : ℕ) : lines (procText pageShift) =
    [sizeText ++ Ipc.decimal (kmallocMmpBufferSize pageShift).toInt,
      ['b', 'l', 'a', 'a', ' ', '=', ' ', '.', '.', '.']] := by
  have hline : '\n' ∉ sizeText ++ Ipc.decimal (kmallocMmpBufferSize pageShift).toInt := by
    have hdecimal := newline_notMem_decimal (kmallocMmpBufferSize pageShift).toInt
    simp [sizeText, hdecimal]
  have htext : procText pageShift =
      (sizeText ++ Ipc.decimal (kmallocMmpBufferSize pageShift).toInt) ++ '\n' ::
        ['b', 'l', 'a', 'a', ' ', '=', ' ', '.', '.', '.', '\n'] := by
    simp [procText, procMemoryRead, filebufSize]
  rw [htext, lines_append hline]
  rfl

/-- What the client reads from the proc file is the size of the buffer, unless `stoi` throws. -/
theorem parseSize_procText (size : ℤ) (pageShift : ℕ) :
    parseSize size (lines (procText pageShift)) =
      if bufferSize pageShift < 2 ^ 31 then some (bufferSize pageShift : ℤ) else none := by
  have hfits := toInt_bufferSize_iff pageShift
  rw [lines_procText, parseSize, if_pos (by simp), List.drop_left', stoi_decimal]
  · split_ifs with hrange hsmall hsmall
    · rw [Option.bind_some, parseSize, if_neg (by decide), parseSize, toInt_bufferSize hrange.1]
    · exact absurd (hfits.mp hrange) hsmall
    · exact absurd (hfits.mpr hsmall) hrange
    · rfl
  · rfl

end Size

end LinuxOddsAndEnds.Ubuntu.MemoryClient
