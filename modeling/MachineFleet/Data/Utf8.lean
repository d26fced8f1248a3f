namespace MachineFleet.Utf8

def encode (text : List Char) : List UInt8 :=
  text.flatMap String.utf8EncodeChar

def ofString (text : String) : List UInt8 :=
  encode text.toList

def replacement : Char := '\ufffd'

/-- Reads the last `more` bytes of a character whose first bytes carry `value`; the next of them
lies between `low` and `high`. Stops at the first byte that does not fit. -/
def scanTail (low high : UInt8) : (more : Nat) → (value : Nat) → List UInt8 →
    Option Char × List UInt8
  | 0, value, rest => (some (Char.ofNat value), rest)
  | _ + 1, _, [] => (none, [])
  | more + 1, value, b :: rest =>
    if low ≤ b ∧ b ≤ high then
      scanTail 0x80 0xBF more (value * 64 + (b.toNat - 0x80)) rest
    else (none, b :: rest)

def scan (b : UInt8) (rest : List UInt8) : Option Char × List UInt8 :=
  if b < 0x80 then (some (Char.ofNat b.toNat), rest)
  else if b < 0xC2 then (none, rest)
  else if b < 0xE0 then scanTail 0x80 0xBF 1 (b.toNat - 0xC0) rest
  else if b = 0xE0 then scanTail 0xA0 0xBF 2 0 rest
  else if b = 0xED then scanTail 0x80 0x9F 2 (b.toNat - 0xE0) rest
  else if b < 0xF0 then scanTail 0x80 0xBF 2 (b.toNat - 0xE0) rest
  else if b = 0xF0 then scanTail 0x90 0xBF 3 0 rest
  else if b < 0xF4 then scanTail 0x80 0xBF 3 (b.toNat - 0xF0) rest
  else if b = 0xF4 then scanTail 0x80 0x8F 3 (b.toNat - 0xF0) rest
  else (none, rest)

theorem length_scanTail_le (low high : UInt8) (more value : Nat) (bytes : List UInt8) :
    (scanTail low high more value bytes).2.length ≤ bytes.length := by
  induction more generalizing low high value bytes with
  | zero => simp [scanTail]
  | succ more ih =>
    cases bytes with
    | nil => simp [scanTail]
    | cons b rest =>
      rw [scanTail]
      split
      · exact Nat.le_succ_of_le (ih ..)
      · simp

theorem length_scan_le (b : UInt8) (rest : List UInt8) :
    (scan b rest).2.length ≤ rest.length := by
  unfold scan
  repeat' split
  all_goals first | exact length_scanTail_le .. | exact Nat.le_refl _

def decodeLossy : List UInt8 → List Char
  | [] => []
  | b :: rest => (scan b rest).1.getD replacement :: decodeLossy (scan b rest).2
termination_by bytes => bytes.length
decreasing_by
  have := length_scan_le b rest
  simp only [List.length_cons]
  omega

def decode? : List UInt8 → Option (List Char)
  | [] => some []
  | b :: rest =>
    match (scan b rest).1 with
    | none => none
    | some c => (decode? (scan b rest).2).map (c :: ·)
termination_by bytes => bytes.length
decreasing_by
  have := length_scan_le b rest
  simp only [List.length_cons]
  omega

def toString? (bytes : List UInt8) : Option String :=
  (decode? bytes).map String.ofList

def toStringLossy (bytes : List UInt8) : String :=
  String.ofList (decodeLossy bytes)

end MachineFleet.Utf8
