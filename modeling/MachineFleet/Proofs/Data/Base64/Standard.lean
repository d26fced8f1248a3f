import MachineFleet.Proofs.Data.Base64
import MachineFleet.Proofs.Data.Outcome

/-!
The standard encoding as a rule about bits, and the reader measured by it. Digits of six bits carry
the bits of the bytes and zeros where the last digit has room left, each is written by its letter of
the alphabet, and padding fills the last group of four. A text is read as bytes only if it is their
encoding by this rule.
-/
namespace MachineFleet.Base64

variable {bytes text group : List UInt8} {ds ds' : List Nat} {d offset k n x y : Nat}

def bits : (width : Nat) → Nat → List Bool
  | 0, _ => []
  | width + 1, n => bits width (n / 2) ++ [n % 2 == 1]

@[simp] theorem length_bits (width n : Nat) : (bits width n).length = width := by
  induction width generalizing n with
  | zero => rfl
  | succ width ih => simp [bits, ih]

theorem bits_add (m x : Nat) (hy : y < 2 ^ n) :
    bits (m + n) (x * 2 ^ n + y) = bits m x ++ bits n y := by
  induction n generalizing y with
  | zero =>
    obtain rfl : y = 0 := by simpa using hy
    simp [bits]
  | succ n ih =>
    have hhalf : (x * 2 ^ (n + 1) + y) / 2 = x * 2 ^ n + y / 2 := by
      rw [Nat.pow_succ, ← Nat.mul_assoc]
      omega
    have hlast : (x * 2 ^ (n + 1) + y) % 2 = y % 2 := by
      rw [Nat.pow_succ, ← Nat.mul_assoc]
      omega
    rw [← Nat.add_assoc, bits, hhalf, hlast, ih (by rw [Nat.pow_succ] at hy; omega), bits,
      List.append_assoc]

theorem bits_inj (hx : x < 2 ^ n) (hy : y < 2 ^ n) (h : bits n x = bits n y) : x = y := by
  induction n generalizing x y with
  | zero => simp at hx hy; omega
  | succ n ih =>
    rw [Nat.pow_succ] at hx hy
    obtain ⟨hfront, hlast⟩ := List.append_inj h (by simp)
    have hhalf := ih (by omega) (by omega) hfront
    have hparity : (x % 2 == 1) = (y % 2 == 1) := by simpa using hlast
    rw [Bool.eq_iff_iff, beq_iff_eq, beq_iff_eq] at hparity
    omega

theorem bits_zero (width : Nat) : bits width 0 = List.replicate width false := by
  induction width with
  | zero => rfl
  | succ width ih => simp [bits, ih, List.replicate_succ']

theorem eq_of_flatMap_bits (hds : ∀ d ∈ ds, d < 2 ^ n) (hds' : ∀ d ∈ ds', d < 2 ^ n)
    (hn : 0 < n) (h : ds.flatMap (bits n) = ds'.flatMap (bits n)) : ds = ds' := by
  induction ds generalizing ds' with
  | nil =>
    cases ds' with
    | nil => rfl
    | cons d' ds' =>
      have hlength := congrArg List.length h
      simp at hlength
      omega
  | cons d ds ih =>
    cases ds' with
    | nil =>
      have hlength := congrArg List.length h
      simp at hlength
      omega
    | cons d' ds' =>
      rw [List.forall_mem_cons] at hds hds'
      obtain ⟨hfirst, hmore⟩ := List.append_inj h (by simp)
      rw [bits_inj hds.1 hds'.1 hfirst, ih hds.2 hds'.2 hmore]

def alphabet : List UInt8 :=
  Utf8.ofString "ABCDEFGHIJKLMNOPQRSTUVWXYZabcdefghijklmnopqrstuvwxyz0123456789+/"

/-- The digits carry the bits of the bytes, with zeros where `k` symbols of padding follow. -/
def Carry (ds : List Nat) (k : Nat) (bytes : List UInt8) : Prop :=
  ds.flatMap (bits 6) = bytes.flatMap (bits 8 ·.toNat) ++ List.replicate (2 * k) false

/-- The text is the standard encoding of the bytes. -/
def IsStandard (text bytes : List UInt8) : Prop :=
  ∃ ds k, (∀ d ∈ ds, d < 64) ∧ k < 3 ∧ (ds.length + k) % 4 = 0 ∧ Carry ds k bytes ∧
    text = ds.map (alphabet.getD · 0) ++ List.replicate k pad

theorem getD_alphabet (hd : d < 64) : alphabet.getD d 0 = symbol d := by
  revert d
  decide

theorem map_getD_alphabet (hds : ∀ d ∈ ds, d < 64) :
    ds.map (alphabet.getD · 0) = ds.map symbol :=
  List.map_congr_left fun d hd => getD_alphabet (hds d hd)

theorem bits_add_six (m n : Nat) : bits (m + 6) n = bits m (n / 64) ++ bits 6 (n % 64) := by
  have hadd : bits (m + 6) (n / 64 * 2 ^ 6 + n % 64) = _ :=
    bits_add m (n / 64) (Nat.mod_lt n (by decide))
  have hn : n / 64 * 2 ^ 6 + n % 64 = n := Nat.div_add_mod' n 64
  rwa [hn] at hadd

theorem carry_one (a : UInt8) : Carry [a.toNat * 16 / 64, a.toNat * 16 % 64] 2 [a] := by
  have hbyte : bits 12 (a.toNat * 16) = bits 8 a.toNat ++ bits 4 0 :=
    bits_add 8 a.toNat (y := 0) (n := 4) (by decide)
  have hdigits : bits 12 (a.toNat * 16) = _ := bits_add_six 6 _
  simpa [Carry, bits_zero] using hdigits.symm.trans hbyte

theorem carry_two (a b : UInt8) :
    let v := (a.toNat * 256 + b.toNat) * 4
    Carry [v / 4096, v / 64 % 64, v % 64] 1 [a, b] := by
  intro v
  have hbytes : bits 18 v = bits 8 a.toNat ++ bits 8 b.toNat ++ bits 2 0 := by
    rw [← bits_add 8 a.toNat b.toNat_lt, ← bits_add 16 _ (y := 0) (n := 2) (by decide)]
    rfl
  have hdigits : bits 18 v = bits 6 (v / 64 / 64) ++ bits 6 (v / 64 % 64) ++ bits 6 (v % 64) := by
    rw [← bits_add_six 6, ← bits_add_six 12]
  rw [Nat.div_div_eq_div_mul] at hdigits
  simpa [Carry, bits_zero] using hdigits.symm.trans hbytes

theorem carry_three (a b c : UInt8) : Carry (digitsOf a b c) 0 [a, b, c] := by
  let v := a.toNat * 65536 + b.toNat * 256 + c.toNat
  have hbytes : bits 24 v = bits 8 a.toNat ++ bits 8 b.toNat ++ bits 8 c.toNat := by
    have hv : v = (a.toNat * 256 + b.toNat) * 256 + c.toNat := by omega
    rw [← bits_add 8 a.toNat b.toNat_lt, ← bits_add 16 _ c.toNat_lt, hv]
    rfl
  have hdigits : bits 24 v =
      bits 6 (v / 64 / 64 / 64) ++ bits 6 (v / 64 / 64 % 64) ++ bits 6 (v / 64 % 64) ++
        bits 6 (v % 64) := by
    rw [← bits_add_six 6, ← bits_add_six 12, ← bits_add_six 18]
  simp only [Nat.div_div_eq_div_mul] at hdigits
  simpa [Carry, digitsOf, v] using hdigits.symm.trans hbytes

theorem Carry.append {more : List UInt8} (h : Carry ds 0 bytes) (h' : Carry ds' k more) :
    Carry (ds ++ ds') k (bytes ++ more) := by
  simp only [Carry, List.flatMap_append] at *
  rw [h, h']
  simp

/-- What is written follows the rule. -/
theorem isStandard_encode (bytes : List UInt8) : IsStandard (encode bytes) bytes := by
  induction bytes using encode.induct with
  | case1 => exact ⟨[], 0, by simp, by decide, rfl, rfl, rfl⟩
  | case2 a =>
    have ha := a.toNat_lt
    have hds : ∀ d ∈ [a.toNat * 16 / 64, a.toNat * 16 % 64], d < 64 := by simp; omega
    refine ⟨_, 2, hds, by decide, by simp, carry_one a, ?_⟩
    rw [map_getD_alphabet hds]
    rfl
  | case3 a b =>
    have ha := a.toNat_lt
    have hb := b.toNat_lt
    let v := (a.toNat * 256 + b.toNat) * 4
    have hds : ∀ d ∈ [v / 4096, v / 64 % 64, v % 64], d < 64 := by simp; omega
    refine ⟨_, 1, hds, by decide, by simp, carry_two a b, ?_⟩
    rw [map_getD_alphabet hds]
    rfl
  | case4 a b c rest ih =>
    obtain ⟨ds, k, hds, hk, hlength, hcarry, htext⟩ := ih
    refine ⟨digitsOf a b c ++ ds, k, ?_, hk, ?_, (carry_three a b c).append hcarry, ?_⟩
    · exact List.forall_mem_append.2 ⟨lt_of_mem_digitsOf, hds⟩
    · simp only [digitsOf, List.length_append, List.length_cons, List.length_nil]
      omega
    · rw [encode_three, htext, List.map_append, map_getD_alphabet lt_of_mem_digitsOf,
        List.append_assoc]

theorem IsStandard.eq {other : List UInt8} (h : IsStandard text bytes)
    (h' : IsStandard other bytes) : text = other := by
  obtain ⟨ds, k, hds, hk, -, hcarry, rfl⟩ := h
  obtain ⟨ds', k', hds', hk', -, hcarry', rfl⟩ := h'
  -- Six bits for each digit are eight for each byte and two for each symbol of padding.
  have hlength := congrArg List.length hcarry
  have hlength' := congrArg List.length hcarry'
  simp at hlength hlength'
  obtain rfl : k = k' := by omega
  rw [eq_of_flatMap_bits hds hds' (by decide) (hcarry.trans hcarry'.symm)]

theorem isStandard_iff : IsStandard text bytes ↔ text = encode bytes :=
  ⟨fun h => h.eq (isStandard_encode bytes), fun h => h ▸ isStandard_encode bytes⟩

theorem eq_symbol_of_digit? {s : UInt8} (h : digit? s = some d) : d < 64 ∧ s = symbol d := by
  have hbyte : s = .ofNat s.toNat := UInt8.ofNat_toNat.symm
  simp only [digit?] at h
  split at h
  · obtain rfl := Option.some.inj h
    refine ⟨by omega, ?_⟩
    rw [symbol, if_pos (by omega), Nat.add_sub_cancel' (by omega), ← hbyte]
  split at h
  · obtain rfl := Option.some.inj h
    refine ⟨by omega, ?_⟩
    rw [symbol, if_neg (by omega), if_pos (by omega), Nat.add_sub_cancel,
      Nat.add_sub_cancel' (by omega), ← hbyte]
  split at h
  · obtain rfl := Option.some.inj h
    refine ⟨by omega, ?_⟩
    rw [symbol, if_neg (by omega), if_neg (by omega), if_pos (by omega), Nat.add_sub_cancel,
      Nat.add_sub_cancel' (by omega), ← hbyte]
  split at h
  · rename_i hplus
    obtain rfl := Option.some.inj h
    rw [hbyte, hplus]
    decide
  split at h
  · rename_i hslash
    obtain rfl := Option.some.inj h
    rw [hbyte, hslash]
    decide
  · cases h

theorem eq_map_symbol_of_digits (h : digits offset text = .ok ds) :
    (∀ d ∈ ds, d < 64) ∧ text = ds.map symbol := by
  induction text generalizing offset ds with
  | nil =>
    cases h
    simp
  | cons s rest ih =>
    rw [digits] at h
    split at h
    · cases h
    · rename_i d hd
      cases hmore : digits (offset + 1) rest with
      | error fault =>
        rw [hmore] at h
        cases h
      | ok more =>
        rw [hmore] at h
        cases h
        obtain ⟨hlt, rfl⟩ := eq_symbol_of_digit? hd
        obtain ⟨hall, rfl⟩ := ih hmore
        exact ⟨List.forall_mem_cons.2 ⟨hlt, hall⟩, rfl⟩

theorem eq_append_of_splitPadding {symbols : List UInt8}
    (h : splitPadding offset group = .ok (symbols, k)) :
    group = symbols ++ List.replicate k pad := by
  have hsplit : group.takeWhile (· != pad) ++ group.dropWhile (· != pad) = group :=
    List.takeWhile_append_dropWhile
  unfold splitPadding at h
  simp only at h
  split at h
  · rename_i hnone
    cases h
    simpa [List.isEmpty_iff.1 hnone] using hsplit.symm
  · split at h
    · cases h
    · split at h
      · cases h
      · rename_i hpadding
        cases h
        rw [not_or] at hpadding
        have hall : ∀ s ∈ group.dropWhile (· != pad), s = pad := by simpa using hpadding.2
        rw [← List.eq_replicate_of_mem hall, hsplit]

theorem unpack_four (hlength : ds.length = 4) : unpack ds =
    [.ofNat (value ds / 65536), .ofNat (value ds / 256 % 256), .ofNat (value ds % 256)] := by
  simp [unpack, hlength]

theorem toNat_ofNat_byte (hn : n < 256) : (UInt8.ofNat n).toNat = n :=
  UInt8.toNat_ofNat_of_lt' hn

theorem encode_unpack_two {p q : Nat} (hp : p < 64) (hq : q < 64)
    (hzero : value [p, q] % 16 = 0) : encode (unpack [p, q]) = [symbol p, symbol q, pad, pad] := by
  let v := p * 64 + q
  have hunpack : unpack [p, q] = [.ofNat (v / 16)] := by simp [unpack, value, v]
  have hbyte : (UInt8.ofNat (v / 16)).toNat = v / 16 := toNat_ofNat_byte (by omega)
  -- The four bits that the byte has no room for are zero, so none are lost.
  have hv : v / 16 * 16 = v := by
    simp only [value, List.foldl_cons, List.foldl_nil] at hzero
    omega
  have hfirst : v / 64 = p := by omega
  have hsecond : v % 64 = q := by omega
  simp only [hunpack, encode, hbyte, hv, hfirst, hsecond]

theorem encode_unpack_three {p q r : Nat} (hp : p < 64) (hq : q < 64) (hr : r < 64)
    (hzero : value [p, q, r] % 4 = 0) :
    encode (unpack [p, q, r]) = [symbol p, symbol q, symbol r, pad] := by
  let v := (p * 64 + q) * 64 + r
  have hunpack : unpack [p, q, r] = [.ofNat (v / 1024), .ofNat (v / 4 % 256)] := by
    simp [unpack, value, v]
  have hbyte : (UInt8.ofNat (v / 1024)).toNat = v / 1024 := toNat_ofNat_byte (by omega)
  have hbyte' : (UInt8.ofNat (v / 4 % 256)).toNat = v / 4 % 256 := toNat_ofNat_byte (by omega)
  have hv : (v / 1024 * 256 + v / 4 % 256) * 4 = v := by
    simp only [value, List.foldl_cons, List.foldl_nil] at hzero
    omega
  have hfirst : v / 4096 = p := by omega
  have hsecond : v / 64 % 64 = q := by omega
  have hthird : v % 64 = r := by omega
  simp only [hunpack, encode, hbyte, hbyte', hv, hfirst, hsecond, hthird]

theorem encode_unpack_four {p q r t : Nat} (hp : p < 64) (hq : q < 64) (hr : r < 64)
    (ht : t < 64) : encode (unpack [p, q, r, t]) = [symbol p, symbol q, symbol r, symbol t] := by
  let v := ((p * 64 + q) * 64 + r) * 64 + t
  have hunpack : unpack [p, q, r, t] =
      [.ofNat (v / 65536), .ofNat (v / 256 % 256), .ofNat (v % 256)] := by
    rw [unpack_four rfl]
    simp [value, v]
  have hbyte : (UInt8.ofNat (v / 65536)).toNat = v / 65536 := toNat_ofNat_byte (by omega)
  have hbyte' : (UInt8.ofNat (v / 256 % 256)).toNat = v / 256 % 256 := toNat_ofNat_byte (by omega)
  have hbyte'' : (UInt8.ofNat (v % 256)).toNat = v % 256 := toNat_ofNat_byte (by omega)
  have hv : v / 65536 * 65536 + v / 256 % 256 * 256 + v % 256 = v := by omega
  have hfirst : v / 262144 = p := by omega
  have hsecond : v / 4096 % 64 = q := by omega
  have hthird : v / 64 % 64 = r := by omega
  have hfourth : v % 64 = t := by omega
  simp only [hunpack, encode, hbyte, hbyte', hbyte'', hv, hfirst, hsecond, hthird, hfourth]

theorem encode_unpack (hds : ∀ d ∈ ds, d < 64) (hlength : 2 ≤ ds.length)
    (hgroup : ds.length + k = 4) (hzero : value ds % 4 ^ k = 0) :
    encode (unpack ds) = ds.map symbol ++ List.replicate k pad := by
  -- A group has two, three or four digits, and padding in the other places.
  match ds, hlength, hgroup with
  | [p, q], _, hgroup =>
    obtain rfl : k = 2 := Nat.add_left_cancel (hgroup : 2 + k = 2 + 2)
    exact encode_unpack_two (hds p (by simp)) (hds q (by simp)) hzero
  | [p, q, r], _, hgroup =>
    obtain rfl : k = 1 := Nat.add_left_cancel (hgroup : 3 + k = 3 + 1)
    exact encode_unpack_three (hds p (by simp)) (hds q (by simp)) (hds r (by simp)) hzero
  | [p, q, r, t], _, hgroup =>
    obtain rfl : k = 0 := Nat.add_left_cancel (hgroup : 4 + k = 4 + 0)
    exact encode_unpack_four (hds p (by simp)) (hds q (by simp)) (hds r (by simp))
      (hds t (by simp))
  | _ :: _ :: _ :: _ :: _ :: _, _, hgroup =>
    simp only [List.length_cons] at hgroup
    omega

/-- What a last group is read as comes from as many digits as leave room for its padding alone, and
the bits that stand for nothing are zero. -/
theorem decodeLast_eq_ok (hne : group ≠ []) (h : decodeLast offset group = .ok bytes) :
    ∃ symbols k ds, splitPadding offset group = .ok (symbols, k) ∧
      digits offset symbols = .ok ds ∧ 2 ≤ ds.length ∧ (ds.length + k) % 4 = 0 ∧
      (ds.length = 2 → value ds % 16 = 0) ∧ (ds.length = 3 → value ds % 4 = 0) ∧
      bytes = unpack ds := by
  rw [decodeLast, if_neg (by simpa using hne)] at h
  obtain ⟨⟨symbols, k⟩, hsplit, h⟩ := bind_eq_ok.1 h
  obtain ⟨ds, hdigits, h⟩ := bind_eq_ok.1 h
  simp only at h
  split at h
  · cases h
  rename_i htwo
  split at h
  · cases h
  rename_i hfull
  refine ⟨symbols, k, ds, hsplit, hdigits, by omega, by omega, ?_⟩
  split at h
  · rename_i hlength
    split at h
    · cases h
    · rename_i hzero
      cases h
      simpa [hlength, unpack] using hzero
  · rename_i hlength
    split at h
    · cases h
    · rename_i hzero
      cases h
      simpa [hlength, unpack] using hzero
  · rename_i hnotTwo hnotThree
    cases h
    refine ⟨fun hlength => absurd hlength hnotTwo, fun hlength => absurd hlength hnotThree, ?_⟩
    unfold unpack
    split
    · exact absurd ‹_› hnotTwo
    · exact absurd ‹_› hnotThree
    · rfl

theorem exists_digits_of_decodeLast (hgroup : group.length ≤ 4) (hne : group ≠ [])
    (h : decodeLast offset group = .ok bytes) :
    ∃ ds k, (∀ d ∈ ds, d < 64) ∧ 2 ≤ ds.length ∧ ds.length + k = 4 ∧ value ds % 4 ^ k = 0 ∧
      group = ds.map symbol ++ List.replicate k pad ∧ bytes = unpack ds := by
  obtain ⟨symbols, k, ds, hsplit, hdigits, htwo, hfull, hlastTwo, hlastThree, rfl⟩ :=
    decodeLast_eq_ok hne h
  obtain rfl := eq_append_of_splitPadding hsplit
  obtain ⟨hds, rfl⟩ := eq_map_symbol_of_digits hdigits
  simp only [List.length_append, List.length_map, List.length_replicate] at hgroup
  have hsum : ds.length + k = 4 := by omega
  have hzero : value ds % 4 ^ k = 0 := by
    have hcases : k = 2 ∨ k = 1 ∨ k = 0 := by omega
    rcases hcases with rfl | rfl | rfl
    · exact hlastTwo (by omega)
    · exact hlastThree (by omega)
    · exact Nat.mod_one _
  exact ⟨ds, k, hds, htwo, hsum, hzero, rfl, rfl⟩

theorem eq_encode_of_decodeLast (hgroup : group.length ≤ 4)
    (h : decodeLast offset group = .ok bytes) : group = encode bytes := by
  by_cases hne : group = []
  · subst hne
    cases h
    rfl
  · obtain ⟨ds, k, hds, hlength, hfull, hzero, rfl, rfl⟩ :=
      exists_digits_of_decodeLast hgroup hne h
    exact (encode_unpack hds hlength hfull hzero).symm

theorem encode_unpack_append (hds : ∀ d ∈ ds, d < 64) (hlength : ds.length = 4)
    (more : List UInt8) : encode (unpack ds ++ more) = ds.map symbol ++ encode more := by
  have hfull := encode_unpack hds (by omega) (by omega : ds.length + 0 = 4) (Nat.mod_one _)
  rw [unpack_four hlength] at hfull ⊢
  rw [encode_three, encode, List.append_nil, List.replicate_zero, List.append_nil] at hfull
  rw [List.cons_append, List.cons_append, List.cons_append, List.nil_append, encode_three, hfull]

theorem eq_encode_of_decodeGroups (h : decodeGroups offset text = .ok bytes) :
    text = encode bytes := by
  fun_induction decodeGroups offset text generalizing bytes with
  | case1 offset a b c d e rest ih =>
    obtain ⟨ds, hdigits, h⟩ := bind_eq_ok.1 h
    obtain ⟨more, hmore, h⟩ := bind_eq_ok.1 h
    cases h
    obtain ⟨hds, hgroup⟩ := eq_map_symbol_of_digits hdigits
    have hlength : ds.length = 4 := by simpa using (congrArg List.length hgroup).symm
    have htext := encode_unpack_append hds hlength more
    rw [unpack_four hlength, ← hgroup, ← ih hmore] at htext
    exact htext.symm
  | case2 offset group hshort =>
    refine eq_encode_of_decodeLast ?_ h
    rcases group with _ | ⟨a, _ | ⟨b, _ | ⟨c, _ | ⟨d, _ | ⟨e, rest⟩⟩⟩⟩⟩
    · simp
    · simp
    · simp
    · simp
    · simp
    · exact absurd rfl (hshort a b c d e rest)

/-- Reading accepts exactly what writing produces. -/
theorem decode_eq_ok_iff : decode text = .ok bytes ↔ text = encode bytes := by
  constructor
  · intro h
    unfold decode at h
    split at h
    · split at h
      · cases h
      · exact eq_encode_of_decodeGroups h
    · rename_i hnone
      cases h
      exact List.getLast?_eq_none_iff.1 hnone
  · rintro rfl
    exact decode_encode bytes

/-- A text is read as bytes exactly if it is their encoding by the rule. -/
theorem decode_eq_ok_iff_isStandard : decode text = .ok bytes ↔ IsStandard text bytes := by
  rw [decode_eq_ok_iff, isStandard_iff]

example : decode (Utf8.ofString "Zg==") = .ok [102] ∧
    decode (Utf8.ofString "Zh==") = .error (.invalidLastSymbol 104 1) := by
  decide

end MachineFleet.Base64
