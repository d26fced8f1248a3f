import MachineFleet.Net.Url.Parser
import MachineFleet.Proofs.Data.Utf8
import MachineFleet.Proofs.Net.Address

namespace MachineFleet

/-- The host that a URL takes from the text of an address. -/
def UrlHost.ofAddress (special : Bool) : IpAddress → UrlHost
  | .v4 ip => if special then .v4 ip else .name ip.renderChars
  | .v6 ip => .v6 ip

def UrlHost.address? : UrlHost → Option IpAddress
  | .name text => (Ipv4.parseChars? text).map .v4
  | .v4 ip => some (.v4 ip)
  | .v6 ip => some (.v6 ip)

theorem UrlHost.address?_ofAddress (special : Bool) (a : IpAddress) :
    (UrlHost.ofAddress special a).address? = some a := by
  cases a with
  | v4 ip => cases special <;> simp [ofAddress, address?, Ipv4.parseChars?_renderChars]
  | v6 ip => rfl

theorem Percent.decode_of_not_mem {text : List Char} (h : '%' ∉ text) :
    decode text = Utf8.encode text := by
  induction text with
  | nil => rfl
  | cons c text ih =>
    have hc : c ≠ '%' := fun hc => h (hc ▸ List.mem_cons_self)
    rw [decode, ih fun hmem => h (List.mem_cons_of_mem c hmem), Utf8.encode_cons]
    rintro a b rest rfl
    exact absurd rfl hc

theorem Percent.encode_of_forall {inSet : Char → Bool} {text : List Char}
    (h : ∀ c ∈ text, inSet c = false) : encode inSet text = text := by
  induction text with
  | nil => rfl
  | cons c text ih =>
    rw [encode, List.flatMap_cons, ← encode, ih fun c' hc' => h c' (List.mem_cons_of_mem c hc'),
      encodeChar, if_neg (by simp [h c List.mem_cons_self]), List.singleton_append]

namespace Url

theorem labels_of_not_mem {text : List Char} (h : '.' ∉ text) : labels text = [text] := by
  induction text with
  | nil => rfl
  | cons c text ih =>
    have hc : c ≠ '.' := fun hc => h (hc ▸ List.mem_cons_self)
    rw [labels, if_neg hc, ih fun hmem => h (List.mem_cons_of_mem c hmem)]

theorem labels_append_dot {front : List Char} (h : '.' ∉ front) (text : List Char) :
    labels (front ++ '.' :: text) = front :: labels text := by
  induction front with
  | nil => simp [labels]
  | cons c front ih =>
    have hc : c ≠ '.' := fun hc => h (hc ▸ List.mem_cons_self)
    rw [List.cons_append, labels, if_neg hc, ih fun hmem => h (List.mem_cons_of_mem c hmem)]

variable {n : Nat}

theorem isDigit_of_mem_toDigits {c : Char} (h : c ∈ Nat.toDigits 10 n) : c.isDigit = true :=
  Nat.isDigit_of_mem_toDigits (by decide) (by decide) h

theorem dot_not_mem_toDigits : '.' ∉ Nat.toDigits 10 n :=
  fun h => absurd (isDigit_of_mem_toDigits h) (by decide)

theorem ipv4Part?_toDigits (n : Nat) : ipv4Part? (Nat.toDigits 10 n) = some n := by
  have hall : (Nat.toDigits 10 n).all Char.isDigit = true :=
    List.all_eq_true.2 fun c hc => isDigit_of_mem_toDigits hc
  unfold ipv4Part?
  split
  · rename_i hnil
    exact absurd hnil Nat.toDigits_ne_nil
  · -- A zero in front of a further digit would be octal.
    rename_i x digits hzero
    have hn : n = 0 := toDigits_of_head?_zero (by rw [hzero]; rfl)
    rw [hn] at hzero
    exact absurd hzero (by simp [Nat.toDigits_zero])
  · rw [if_pos hall, digitsValue_toDigits (by decide) (by decide)]

theorem labels_renderChars (ip : Ipv4) :
    labels ip.renderChars =
      [Nat.toDigits 10 (ip.byte 3), Nat.toDigits 10 (ip.byte 2), Nat.toDigits 10 (ip.byte 1),
        Nat.toDigits 10 (ip.byte 0)] := by
  simp only [Ipv4.renderChars, List.append_assoc, List.cons_append,
    labels_append_dot dot_not_mem_toDigits, labels_of_not_mem dot_not_mem_toDigits]

theorem ipv4Labels_renderChars (ip : Ipv4) :
    ipv4Labels ip.renderChars =
      [Nat.toDigits 10 (ip.byte 3), Nat.toDigits 10 (ip.byte 2), Nat.toDigits 10 (ip.byte 1),
        Nat.toDigits 10 (ip.byte 0)] := by
  simp [ipv4Labels, labels_renderChars, Nat.toDigits_ne_nil]

theorem endsInNumber_renderChars (ip : Ipv4) : endsInNumber ip.renderChars = true := by
  simp [endsInNumber, ipv4Labels_renderChars, ipv4Part?_toDigits]

theorem readIpv4_renderChars (ip : Ipv4) : readIpv4 ip.renderChars = .ok ip := by
  have hbyte : ∀ places, ip.byte places < 256 := fun places => Nat.mod_lt _ (by decide)
  have hvalue : ip.byte 0 + ip.byte 3 <<< 24 + ip.byte 2 <<< 16 + ip.byte 1 <<< 8 = ip.value := by
    have hlt := ip.value_lt
    simp only [Ipv4.byte, Nat.shiftRight_eq_div_pow, Nat.shiftLeft_eq]
    omega
  have hnumbers : (ipv4Labels ip.renderChars).mapM ipv4Part? =
      some [ip.byte 3, ip.byte 2, ip.byte 1, ip.byte 0] := by
    simp [ipv4Labels_renderChars, ipv4Part?_toDigits]
  have hlength : (ipv4Labels ip.renderChars).length = 4 := by
    rw [ipv4Labels_renderChars]; rfl
  have hfront : [ip.byte 3, ip.byte 2, ip.byte 1].any (255 < ·) = false := by
    have hnot : ∀ places, ¬ 255 < ip.byte places := fun places => by have := hbyte places; omega
    simp [hnot]
  simp only [readIpv4, hnumbers, hlength]
  rw [if_neg]
  · simp [List.zipIdx, Ipv4.ofNat, hvalue, Nat.mod_eq_of_lt ip.value_lt]
  · simpa [hfront] using hbyte 0

theorem forall_mem_dotted {p : Char → Bool} (h : "0123456789.".toList.all p = true)
    (ip : Ipv4) : ∀ c ∈ ip.renderChars, p c = true :=
  fun c hc => List.all_eq_true.1 h c (Ipv4.mem_of_mem_renderChars hc)

theorem dotted_ne_nil (ip : Ipv4) : ip.renderChars ≠ [] := by
  simp [Ipv4.renderChars]

theorem map_toLower_dotted (ip : Ipv4) : ip.renderChars.map Char.toLower = ip.renderChars := by
  have h := forall_mem_dotted (p := fun c => c.toLower == c) (by decide) ip
  exact (List.map_congr_left fun c hc => by simpa using h c hc).trans (List.map_id _)

theorem readSpecialHost_v4 (ip : Ipv4) : readSpecialHost ip.renderChars = .ok (.v4 ip) := by
  have hpercent : '%' ∉ ip.renderChars :=
    fun h => absurd (Ipv4.mem_of_mem_renderChars h) (by decide)
  have hname : ip.renderChars.any (fun c => isForbiddenInName c || 0x7F < c.toNat) = false := by
    have h := forall_mem_dotted
      (p := fun c => !(isForbiddenInName c || decide (0x7F < c.toNat))) (by decide) ip
    exact List.any_eq_false.2 fun c hc => by simpa using h c hc
  unfold readSpecialHost
  split
  · rename_i inner hinner
    have hmem : '[' ∈ ip.renderChars := hinner ▸ List.mem_cons_self
    exact absurd (Ipv4.mem_of_mem_renderChars hmem) (by decide)
  · simp only [Percent.decode_of_not_mem hpercent, Utf8.decode?_encode, map_toLower_dotted,
      List.isEmpty_iff, dotted_ne_nil, hname, endsInNumber_renderChars, readIpv4_renderChars,
      if_true, Bool.false_eq_true, if_false]
    rfl

theorem readIpv6_renderChars (ip : Ipv6) :
    readIpv6 (ip.renderChars ++ [']']) = .ok (.v6 ip) := by
  simp [readIpv6, Ipv6.parseChars?_renderChars]

theorem readSpecialHost_renderHost (a : IpAddress) :
    readSpecialHost a.renderHost = .ok (.ofAddress true a) := by
  cases a with
  | v4 ip => exact readSpecialHost_v4 ip
  | v6 ip => exact readIpv6_renderChars ip

theorem readPlainHost_renderHost (a : IpAddress) :
    readPlainHost a.renderHost = .ok (.ofAddress false a) := by
  cases a with
  | v4 ip =>
    have hplain : ip.renderChars.any isForbiddenInHost = false := by
      have h := forall_mem_dotted (p := fun c => !isForbiddenInHost c) (by decide) ip
      exact List.any_eq_false.2 fun c hc => by simpa using h c hc
    have hcontrols := forall_mem_dotted (p := fun c => !Percent.inControls c) (by decide) ip
    have hencode : Percent.encode Percent.inControls ip.renderChars = ip.renderChars :=
      Percent.encode_of_forall fun c hc => by simpa using hcontrols c hc
    change readPlainHost ip.renderChars = _
    unfold readPlainHost
    split
    · rename_i inner hinner
      have hmem : '[' ∈ ip.renderChars := hinner ▸ List.mem_cons_self
      exact absurd (Ipv4.mem_of_mem_renderChars hmem) (by decide)
    · rw [hplain, hencode]
      rfl
  | v6 ip => exact readIpv6_renderChars ip

end Url

end MachineFleet
