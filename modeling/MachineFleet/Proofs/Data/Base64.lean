import Mathlib.Algebra.Group.Nat.Defs
import MachineFleet.Data.Base64
import MachineFleet.Proofs.Data.Lists
import MachineFleet.Proofs.Data.Utf8

namespace MachineFleet.Base64

variable {d offset k : Nat} {ds : List Nat}

theorem digit?_symbol (hd : d < 64) : digit? (symbol d) = some d := by
  revert d
  decide

theorem symbol_ne_pad (hd : d < 64) : symbol d ≠ pad := by
  revert d
  decide

theorem digits_map_symbol (hds : ∀ d ∈ ds, d < 64) : digits offset (ds.map symbol) = .ok ds := by
  induction ds generalizing offset with
  | nil => rfl
  | cons d ds ih =>
    obtain ⟨hd, hmore⟩ := List.forall_mem_cons.1 hds
    rw [List.map_cons, digits, digit?_symbol hd, ih hmore]
    rfl

theorem splitPadding_map_symbol (hds : ∀ d ∈ ds, d < 64) (hlength : 2 ≤ ds.length) :
    splitPadding offset (ds.map symbol ++ List.replicate k pad) = .ok (ds.map symbol, k) := by
  have hsymbols : ∀ s ∈ ds.map symbol, (s != pad) = true := by
    simpa using fun d hd => symbol_ne_pad (hds d hd)
  have hpadding : ∀ s ∈ (List.replicate k pad).head?, (s != pad) = false := by
    intro s hs
    simpa using (List.eq_of_mem_replicate (List.mem_of_mem_head? hs))
  have hshort : ¬ ds.length < 2 := Nat.not_lt.2 hlength
  simp only [splitPadding, takeWhile_append hsymbols hpadding, dropWhile_append hsymbols hpadding,
    digits_map_symbol hds]
  cases k with
  | zero => simp
  | succ k => simp [hshort, List.replicate_succ]

/-- The bytes that the digits of a last group stand for: one fewer than there are digits. -/
def unpack (ds : List Nat) : List UInt8 :=
  match ds.length with
  | 2 => [.ofNat (value ds / 16)]
  | 3 => [.ofNat (value ds / 1024), .ofNat (value ds / 4 % 256)]
  | _ => [.ofNat (value ds / 65536), .ofNat (value ds / 256 % 256), .ofNat (value ds % 256)]

theorem decodeLast_map_symbol (hds : ∀ d ∈ ds, d < 64) (hlength : 2 ≤ ds.length)
    (hgroup : ds.length + k = 4) (hzero : value ds % 4 ^ k = 0) :
    decodeLast offset (ds.map symbol ++ List.replicate k pad) = .ok (unpack ds) := by
  have hne : ds.map symbol ++ List.replicate k pad ≠ [] := by
    intro h
    have hlen := congrArg List.length h
    simp only [List.length_append, List.length_map, List.length_replicate, List.length_nil] at hlen
    omega
  have hcases : ds.length = 2 ∧ k = 2 ∨ ds.length = 3 ∧ k = 1 ∨ ds.length = 4 ∧ k = 0 := by omega
  rw [decodeLast, if_neg (by simpa using hne), splitPadding_map_symbol hds hlength]
  simp only [bind, Except.bind, digits_map_symbol hds]
  rcases hcases with ⟨hlen, rfl⟩ | ⟨hlen, rfl⟩ | ⟨hlen, rfl⟩
  · have hrest : value ds % 16 = 0 := hzero
    simp [hlen, unpack, hrest]
    rfl
  · have hrest : value ds % 4 = 0 := hzero
    simp [hlen, unpack, hrest]
    rfl
  · simp [hlen, unpack]
    rfl

theorem decodeLast_one (a : UInt8) : decodeLast offset (encode [a]) = .ok [a] := by
  have ha := a.toNat_lt
  have hvalue : value [a.toNat * 16 / 64, a.toNat * 16 % 64] = a.toNat * 16 := by
    simp [value]; omega
  have hread : decodeLast offset
      ([a.toNat * 16 / 64, a.toNat * 16 % 64].map symbol ++ List.replicate 2 pad) =
        .ok (unpack [a.toNat * 16 / 64, a.toNat * 16 % 64]) :=
    decodeLast_map_symbol (by simp; omega) (by simp) rfl (by rw [hvalue]; omega)
  simpa [encode, unpack, hvalue] using hread

theorem decodeLast_two (a b : UInt8) : decodeLast offset (encode [a, b]) = .ok [a, b] := by
  have ha := a.toNat_lt
  have hb := b.toNat_lt
  let v := (a.toNat * 256 + b.toNat) * 4
  have hvalue : value [v / 4096, v / 64 % 64, v % 64] = v := by
    simp [value]; omega
  have hread : decodeLast offset
      ([v / 4096, v / 64 % 64, v % 64].map symbol ++ List.replicate 1 pad) =
        .ok (unpack [v / 4096, v / 64 % 64, v % 64]) :=
    decodeLast_map_symbol (by simp; omega) (by simp) rfl (by rw [hvalue]; omega)
  have hfirst : v / 1024 = a.toNat := by omega
  have hsecond : v / 4 % 256 = b.toNat := by omega
  simpa [encode, v, unpack, hvalue, hfirst, hsecond] using hread

def digitsOf (a b c : UInt8) : List Nat :=
  let v := a.toNat * 65536 + b.toNat * 256 + c.toNat
  [v / 262144, v / 4096 % 64, v / 64 % 64, v % 64]

theorem encode_three (a b c : UInt8) (rest : List UInt8) :
    encode (a :: b :: c :: rest) = (digitsOf a b c).map symbol ++ encode rest := rfl

theorem lt_of_mem_digitsOf {a b c : UInt8} : ∀ d ∈ digitsOf a b c, d < 64 := by
  have ha := a.toNat_lt
  have hb := b.toNat_lt
  have hc := c.toNat_lt
  simp only [digitsOf, List.mem_cons, List.not_mem_nil, or_false, forall_eq_or_imp, forall_eq]
  omega

theorem unpack_digitsOf (a b c : UInt8) : unpack (digitsOf a b c) = [a, b, c] := by
  have ha := a.toNat_lt
  have hb := b.toNat_lt
  have hc := c.toNat_lt
  let v := a.toNat * 65536 + b.toNat * 256 + c.toNat
  have hvalue : value (digitsOf a b c) = v := by
    simp [value, digitsOf]; omega
  have hfirst : v / 65536 = a.toNat := by omega
  have hsecond : v / 256 % 256 = b.toNat := by omega
  have hthird : v % 256 = c.toNat := by omega
  rw [unpack, hvalue, hfirst, hsecond, hthird]
  simp [digitsOf]

theorem encode_eq_nil {bytes : List UInt8} (h : encode bytes = []) : bytes = [] := by
  cases bytes using encode.fun_cases with
  | case1 => rfl
  | case2 | case3 | case4 => simp [encode] at h

theorem decodeGroups_three (a b c : UInt8) {rest : List UInt8} (hrest : rest ≠ []) :
    decodeGroups offset ((digitsOf a b c).map symbol ++ rest) =
      (decodeGroups (offset + 4) rest).map (a :: b :: c :: ·) := by
  obtain ⟨next, more, rfl⟩ := List.exists_cons_of_ne_nil hrest
  have hdigits : digits offset ((digitsOf a b c).map symbol) = .ok (digitsOf a b c) :=
    digits_map_symbol lt_of_mem_digitsOf
  have hbytes := unpack_digitsOf a b c
  simp only [digitsOf, List.map_cons, List.map_nil] at hdigits
  simp only [unpack, digitsOf, List.length_cons, List.length_nil, List.cons.injEq] at hbytes
  simp only [digitsOf, List.map_cons, List.map_nil, List.cons_append, List.nil_append, decodeGroups,
    hdigits, bind, Except.bind, hbytes]
  cases decodeGroups (offset + 4) (next :: more) <;> rfl

theorem decodeGroups_last (a b c : UInt8) :
    decodeGroups offset ((digitsOf a b c).map symbol) = .ok [a, b, c] := by
  have hread : decodeLast offset ((digitsOf a b c).map symbol ++ List.replicate 0 pad) =
      .ok (unpack (digitsOf a b c)) :=
    decodeLast_map_symbol lt_of_mem_digitsOf (by simp [digitsOf]) rfl (Nat.mod_one _)
  rw [unpack_digitsOf, List.replicate_zero, List.append_nil] at hread
  exact hread

theorem decodeGroups_encode (bytes : List UInt8) :
    decodeGroups offset (encode bytes) = .ok bytes := by
  induction bytes using encode.induct generalizing offset with
  | case1 => rfl
  | case2 a => exact decodeLast_one a
  | case3 a b => exact decodeLast_two a b
  | case4 a b c rest ih =>
    rw [encode_three]
    by_cases hrest : encode rest = []
    · rw [hrest, List.append_nil, decodeGroups_last, encode_eq_nil hrest]
    · rw [decodeGroups_three a b c hrest, ih]
      rfl

theorem length_encode_mod_four (bytes : List UInt8) : (encode bytes).length % 4 = 0 := by
  induction bytes using encode.induct with
  | case1 => rfl
  | case2 => simp [encode]
  | case3 => simp [encode]
  | case4 a b c rest ih =>
    rw [encode_three, List.length_append, List.length_map]
    simp only [digitsOf, List.length_cons, List.length_nil]
    omega

/-- Bytes are read back from their encoding. -/
theorem decode_encode (bytes : List UInt8) : decode (encode bytes) = .ok bytes := by
  have hmod := length_encode_mod_four bytes
  unfold decode
  split
  · rw [if_neg (by omega), decodeGroups_encode]
  · rename_i hnone
    rw [encode_eq_nil (List.getLast?_eq_none_iff.1 hnone)]

theorem symbol_lt (hd : d < 64) : symbol d < 0x80 := by
  revert d
  decide

theorem lt_of_mem_map_symbol (hds : ∀ d ∈ ds, d < 64) : ∀ s ∈ ds.map symbol, s < 0x80 := by
  simpa using fun d hd => symbol_lt (hds d hd)

theorem lt_of_mem_encode (bytes : List UInt8) : ∀ s ∈ encode bytes, s < 0x80 := by
  induction bytes using encode.induct with
  | case1 => simp [encode]
  | case2 a =>
    have ha := a.toNat_lt
    have hfirst : a.toNat * 16 / 64 < 64 := by omega
    simp [encode, symbol_lt, hfirst, Nat.mod_lt, pad]
  | case3 a b =>
    have ha := a.toNat_lt
    have hb := b.toNat_lt
    have hfirst : (a.toNat * 256 + b.toNat) * 4 / 4096 < 64 := by omega
    simp [encode, symbol_lt, hfirst, Nat.mod_lt, pad]
  | case4 a b c rest ih =>
    intro s hs
    rw [encode_three] at hs
    rcases List.mem_append.1 hs with hs | hs
    · exact lt_of_mem_map_symbol lt_of_mem_digitsOf s hs
    · exact ih s hs

end MachineFleet.Base64
