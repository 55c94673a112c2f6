import LinuxOddsAndEnds.Foundation.Memory

/-!
# Records of the interprocess demonstrations

The text `"PID: %d, val: %d\n"` that the writers produce with `sprintf`, as bytes
and without the terminating NUL.
-/

namespace LinuxOddsAndEnds.Ipc

open Foundation

/-- `%d`. -/
def decimal (n : ℤ) : List Char :=
  if n < 0 then '-' :: Nat.toDigits 10 n.natAbs else Nat.toDigits 10 n.natAbs

def ascii (text : List Char) : List Byte := text.map fun c => BitVec.ofNat 8 c.toNat

/-- `sprintf(.., "PID: %d, val: %d\n", pid, file_val)`. -/
def record (pid fileVal : BitVec 32) : List Byte :=
  ascii (['P', 'I', 'D', ':', ' '] ++ decimal pid.toInt ++ [',', ' ', 'v', 'a', 'l', ':', ' '] ++
    decimal fileVal.toInt ++ ['\n'])

end LinuxOddsAndEnds.Ipc
