import MachineFleet.Data.Utf8

namespace MachineFleet.Utf8

theorem scan_ofNat {n : Nat} (hn : n < 256) (rest : List UInt8) :
    scan (.ofNat n) rest =
      if n < 0x80 then (some (Char.ofNat n), rest)
      else if n < 0xC2 then (none, rest)
      else if n < 0xE0 then scanTail 0x80 0xBF 1 (n - 0xC0) rest
      else if n = 0xE0 then scanTail 0xA0 0xBF 2 0 rest
      else if n = 0xED then scanTail 0x80 0x9F 2 (n - 0xE0) rest
      else if n < 0xF0 then scanTail 0x80 0xBF 2 (n - 0xE0) rest
      else if n = 0xF0 then scanTail 0x90 0xBF 3 0 rest
      else if n < 0xF4 then scanTail 0x80 0xBF 3 (n - 0xF0) rest
      else if n = 0xF4 then scanTail 0x80 0x8F 3 (n - 0xF0) rest
      else (none, rest) := by
  have hbyte : (UInt8.ofNat n).toNat = n := UInt8.toNat_ofNat_of_lt' hn
  simp only [scan, UInt8.lt_iff_toNat_lt, ← UInt8.toNat_inj, hbyte]
  rfl

theorem scanTail_ofNat {low high : UInt8} {more value n : Nat} {rest : List UInt8} (hn : n < 256)
    (hlow : low.toNat ≤ n) (hhigh : n ≤ high.toNat) :
    scanTail low high (more + 1) value (.ofNat n :: rest) =
      scanTail 0x80 0xBF more (value * 64 + (n - 0x80)) rest := by
  have hbyte : (UInt8.ofNat n).toNat = n := UInt8.toNat_ofNat_of_lt' hn
  rw [scanTail, if_pos, hbyte]
  rw [UInt8.le_iff_toNat_le, UInt8.le_iff_toNat_le, hbyte]
  exact ⟨hlow, hhigh⟩

/-- The bytes of a character are read as that character, whatever follows them. -/
theorem scan_utf8EncodeChar (c : Char) :
    ∃ b bytes, String.utf8EncodeChar c = b :: bytes ∧
      ∀ rest, scan b (bytes ++ rest) = (some c, rest) := by
  have hvalid : c.val.toNat < 0xD800 ∨ 0xDFFF < c.val.toNat ∧ c.val.toNat < 0x110000 := c.valid
  have hc {n : Nat} (hn : n = c.val.toNat) : Char.ofNat n = c := by
    rw [hn]
    exact Char.ofNat_toNat c
  have hread {low high : UInt8} {value n : Nat} {rest : List UInt8}
      (hv : value * 64 + (n - 0x80) = c.val.toNat) (hn : n < 256) (hlow : low.toNat ≤ n)
      (hhigh : n ≤ high.toNat) :
      scanTail low high 1 value (.ofNat n :: rest) = (some c, rest) := by
    rw [scanTail_ofNat hn hlow hhigh, scanTail, hc hv]
  fun_cases String.utf8EncodeChar c with
  | case1 v h1 =>
    refine ⟨_, _, rfl, fun rest => ?_⟩
    rw [scan_ofNat (by omega), if_pos (by omega), hc rfl]
    rfl
  | case2 v h1 h2 =>
    refine ⟨_, _, rfl, fun rest => ?_⟩
    rw [scan_ofNat (by omega), if_neg (by omega), if_neg (by omega), if_pos (by omega),
      List.singleton_append, hread (by omega) (by omega) (by simp) (by simp; omega)]
  | case3 v h1 h2 h3 =>
    refine ⟨_, _, rfl, fun rest => ?_⟩
    have htail {low high : UInt8} {value : Nat} (hv : value = v / 4096)
        (hlow : low.toNat ≤ v / 64 % 64 + 128) (hhigh : v / 64 % 64 + 128 ≤ high.toNat) :
        scanTail low high 2 value
          ([.ofNat (v / 64 % 64 + 128), .ofNat (v % 64 + 128)] ++ rest) = (some c, rest) := by
      rw [List.cons_append, scanTail_ofNat (by omega) hlow hhigh, List.singleton_append,
        hread (by omega) (by omega) (by simp) (by simp; omega)]
    rw [scan_ofNat (by omega), if_neg (by omega), if_neg (by omega), if_neg (by omega)]
    -- Three of the first bytes leave less room to the second one.
    split
    · exact htail (by omega) (by simp; omega) (by simp; omega)
    · split
      · exact htail (by omega) (by simp) (by simp; omega)
      · rw [if_pos (by omega)]
        exact htail (by omega) (by simp) (by simp; omega)
  | case4 v h1 h2 h3 =>
    refine ⟨_, _, rfl, fun rest => ?_⟩
    have htail {low high : UInt8} {value : Nat} (hv : value = v / 262144)
        (hlow : low.toNat ≤ v / 4096 % 64 + 128) (hhigh : v / 4096 % 64 + 128 ≤ high.toNat) :
        scanTail low high 3 value
          ([.ofNat (v / 4096 % 64 + 128), .ofNat (v / 64 % 64 + 128), .ofNat (v % 64 + 128)] ++
            rest) = (some c, rest) := by
      rw [List.cons_append, scanTail_ofNat (by omega) hlow hhigh, List.cons_append,
        scanTail_ofNat (by omega) (by simp) (by simp; omega), List.singleton_append,
        hread (by omega) (by omega) (by simp) (by simp; omega)]
    rw [scan_ofNat (by omega), if_neg (by omega), if_neg (by omega), if_neg (by omega),
      if_neg (by omega), if_neg (by omega), if_neg (by omega)]
    split
    · exact htail (by omega) (by simp; omega) (by simp; omega)
    · split
      · exact htail (by omega) (by simp) (by simp; omega)
      · rw [if_pos (by omega)]
        exact htail (by omega) (by simp) (by simp; omega)

theorem encode_cons (c : Char) (text : List Char) :
    encode (c :: text) = String.utf8EncodeChar c ++ encode text := rfl

theorem decode?_encode (text : List Char) : decode? (encode text) = some text := by
  induction text with
  | nil => rw [encode, List.flatMap_nil, decode?]
  | cons c rest ih =>
    obtain ⟨b, bytes, hbytes, hscan⟩ := scan_utf8EncodeChar c
    rw [encode_cons, hbytes, List.cons_append, decode?, hscan]
    simp [ih]

theorem decodeLossy_encode (text : List Char) : decodeLossy (encode text) = text := by
  induction text with
  | nil => rw [encode, List.flatMap_nil, decodeLossy]
  | cons c rest ih =>
    obtain ⟨b, bytes, hbytes, hscan⟩ := scan_utf8EncodeChar c
    rw [encode_cons, hbytes, List.cons_append, decodeLossy, hscan, ih]
    rfl

@[simp] theorem toStringLossy_ofString (text : String) : toStringLossy (ofString text) = text := by
  rw [toStringLossy, ofString, decodeLossy_encode, String.ofList_toList]

theorem utf8EncodeChar_ofNat {b : UInt8} (hb : b < 0x80) :
    String.utf8EncodeChar (Char.ofNat b.toNat) = [b] := by
  have hlt : b.toNat < 128 := UInt8.lt_iff_toNat_lt.1 hb
  have hvalid : b.toNat.isValidChar := .inl (by omega)
  have hval : (Char.ofNat b.toNat).val.toNat = b.toNat := by
    rw [Char.ofNat, dif_pos hvalid]
    rfl
  rw [String.utf8EncodeChar]
  simp only [hval]
  rw [if_pos (by omega)]
  simp

theorem exists_ofString {bytes : List UInt8} (h : ∀ b ∈ bytes, b < 0x80) :
    ∃ text, bytes = ofString text := by
  induction bytes with
  | nil => exact ⟨"", rfl⟩
  | cons b bytes ih =>
    obtain ⟨hb, hmore⟩ := List.forall_mem_cons.1 h
    obtain ⟨text, rfl⟩ := ih hmore
    refine ⟨String.ofList (Char.ofNat b.toNat :: text.toList), ?_⟩
    rw [ofString, ofString, String.toList_ofList, encode_cons, utf8EncodeChar_ofNat hb,
      List.singleton_append]

end MachineFleet.Utf8
