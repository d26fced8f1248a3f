import MachineFleet.Net.Address.Parser
import MachineFleet.Net.Address.Printer
import MachineFleet.Proofs.Data.Lists
import MachineFleet.Proofs.Net.Address.ZeroRun
import MachineFleet.Proofs.Net.Subnet

namespace MachineFleet

section Digits

variable {base n : Nat}

theorem hexValue_digitChar (hn : n < 16) : digitsValue.hexValue n.digitChar = n := by
  revert n
  decide

theorem isHexDigit_digitChar (hn : n < 16) : isHexDigit n.digitChar = true := by
  revert n
  decide

theorem digitsValue_concat (base : Nat) (digits : List Char) (c : Char) :
    digitsValue base (digits ++ [c]) =
      digitsValue base digits * base + digitsValue.hexValue c := by
  simp [digitsValue, List.foldl_append]

theorem digitsValue_toDigits (hbase : 1 < base) (hle : base ≤ 16) (n : Nat) :
    digitsValue base (Nat.toDigits base n) = n := by
  induction n using Nat.strongRecOn with
  | ind n ih =>
    rw [Nat.toDigits_eq_if hbase]
    split
    · rename_i hlt
      rw [← List.nil_append [n.digitChar], digitsValue_concat,
        hexValue_digitChar (Nat.lt_of_lt_of_le hlt hle)]
      simp [digitsValue]
    · have hmod : n % base < base := Nat.mod_lt _ (by omega)
      rw [digitsValue_concat, ih _ (Nat.div_lt_self (by omega) hbase),
        hexValue_digitChar (Nat.lt_of_lt_of_le hmod hle), Nat.mul_comm]
      exact Nat.div_add_mod n base

theorem exists_digitChar_of_mem_toDigits (hbase : 1 < base) {c : Char}
    (hc : c ∈ Nat.toDigits base n) : ∃ d < base, c = d.digitChar := by
  induction n using Nat.strongRecOn with
  | ind n ih =>
    rw [Nat.toDigits_eq_if hbase] at hc
    split at hc
    · rename_i hlt
      exact ⟨n, hlt, List.mem_singleton.1 hc⟩
    · rcases List.mem_append.1 hc with hc | hc
      · exact ih _ (Nat.div_lt_self (by omega) hbase) hc
      · exact ⟨n % base, Nat.mod_lt _ (by omega), List.mem_singleton.1 hc⟩

theorem mem_decimals_of_mem_toDigits {c : Char} (hc : c ∈ Nat.toDigits 10 n) :
    c ∈ "0123456789".toList := by
  obtain ⟨d, hd, rfl⟩ := exists_digitChar_of_mem_toDigits (by decide) hc
  clear hc
  revert d
  decide

theorem mem_hexDigits_of_mem_toDigits {c : Char} (hc : c ∈ Nat.toDigits 16 n) :
    c ∈ "0123456789abcdef".toList := by
  obtain ⟨d, hd, rfl⟩ := exists_digitChar_of_mem_toDigits (by decide) hc
  clear hc
  revert d
  decide

theorem isHexDigit_of_mem_toDigits {c : Char} (hc : c ∈ Nat.toDigits 16 n) :
    isHexDigit c = true := by
  obtain ⟨d, hd, rfl⟩ := exists_digitChar_of_mem_toDigits (by decide) hc
  exact isHexDigit_digitChar hd

theorem toDigits_of_head?_zero (h : (Nat.toDigits 10 n).head? = some '0') : n = 0 := by
  induction n using Nat.strongRecOn with
  | ind n ih =>
    rw [Nat.toDigits_eq_if (by decide)] at h
    split at h
    · rename_i hlt
      clear ih
      revert n
      decide
    · rename_i hge
      obtain ⟨first, more, heq⟩ := List.exists_cons_of_ne_nil
        (Nat.toDigits_ne_nil (b := 10) (n := n / 10))
      rw [heq, List.cons_append, List.head?_cons] at h
      have hdiv := ih (n / 10) (Nat.div_lt_self (by omega) (by decide)) (by rw [heq]; exact h)
      omega

end Digits

namespace Ipv4

variable {n : Nat} {ip : Ipv4} {cs rest : List Char}

/-- The text after a number in decimal begins with no further digit. -/
def EndsDigits (rest : List Char) : Prop := ∀ c ∈ rest.head?, c.isDigit = false

theorem endsDigits_nil : EndsDigits [] := by
  simp [EndsDigits]

theorem endsDigits_dot : EndsDigits ('.' :: rest) := by
  simp [EndsDigits]

theorem readByte?_toDigits (hn : n < 256) (hrest : EndsDigits rest) :
    readByte? (Nat.toDigits 10 n ++ rest) = some (.ofNat n, rest) := by
  have hdigits : ∀ c ∈ Nat.toDigits 10 n, c.isDigit = true :=
    fun c hc => Nat.isDigit_of_mem_toDigits (by decide) (by decide) hc
  have hlength : (Nat.toDigits 10 n).length ≤ 3 :=
    (Nat.length_toDigits_le_iff (by decide) (by decide)).2 (by omega)
  have hzero : ¬ ((Nat.toDigits 10 n).head? = some '0' ∧ 1 < (Nat.toDigits 10 n).length) := by
    rintro ⟨hhead, hmore⟩
    rw [toDigits_of_head?_zero hhead] at hmore
    exact absurd hmore (by decide)
  simp only [readByte?, takeWhile_append hdigits hrest, dropWhile_append hdigits hrest,
    digitsValue_toDigits (by decide : 1 < 10) (by decide)]
  rw [if_neg]
  simp only [Bool.or_eq_true, Bool.and_eq_true, List.isEmpty_iff, Nat.toDigits_ne_nil,
    decide_eq_true_eq, beq_iff_eq, hzero, or_false, false_or, not_or]
  omega

theorem ofBytes_byte (ip : Ipv4) :
    ofBytes (.ofNat (ip.byte 3)) (.ofNat (ip.byte 2)) (.ofNat (ip.byte 1)) (.ofNat (ip.byte 0)) =
      ip := by
  obtain ⟨value, hlt⟩ := ip
  simp only [ofBytes, byte, Nat.shiftRight_eq_div_pow, UInt8.toNat_ofNat', mk.injEq]
  omega

theorem read?_renderChars (hrest : EndsDigits rest) :
    read? (ip.renderChars ++ rest) = some (ip, rest) := by
  have hbyte : ∀ places, ip.byte places < 256 := fun places => Nat.mod_lt _ (by decide)
  simp only [renderChars, List.append_assoc, List.cons_append, read?, read?.afterDot?,
    readByte?_toDigits (hbyte _) endsDigits_dot, readByte?_toDigits (hbyte _) hrest,
    Option.bind_eq_bind, Option.bind_some, ofBytes_byte, Option.pure_def]

theorem parseChars?_renderChars (ip : Ipv4) : parseChars? ip.renderChars = some ip := by
  rw [parseChars?, ← List.append_nil ip.renderChars, read?_renderChars endsDigits_nil]

theorem read?_of_not_mem (h : '.' ∉ cs) : read? cs = none := by
  unfold read?
  cases hbyte : readByte? cs with
  | none => rfl
  | some first =>
    obtain ⟨a, after⟩ := first
    have hafter : '.' ∉ after := by
      simp only [readByte?] at hbyte
      split at hbyte
      · simp at hbyte
      · obtain ⟨-, rfl⟩ := by simpa using hbyte
        exact fun hmem => h ((List.dropWhile_sublist _).mem hmem)
    have hdot : read?.afterDot? after = none := by
      unfold read?.afterDot?
      split
      · exact absurd List.mem_cons_self hafter
      · rfl
    simp [hdot]

theorem mem_of_mem_renderChars {c : Char} (h : c ∈ ip.renderChars) :
    c ∈ "0123456789.".toList := by
  have hdigits : ∀ places, c ∈ Nat.toDigits 10 (ip.byte places) → c ∈ "0123456789.".toList :=
    fun places hc => List.mem_append_left ['.'] (mem_decimals_of_mem_toDigits hc)
  have hdot : c = '.' → c ∈ "0123456789.".toList := by rintro rfl; decide
  simp only [renderChars, List.mem_append, List.mem_cons] at h
  rcases h with ((h | h | h) | h | h) | h | h
  all_goals first | exact hdigits _ h | exact hdot h

end Ipv4

namespace Ipv6

variable {room : Nat} {g : UInt16} {gs groups : List UInt16} {run : Nat × Nat} {rest : List Char}

def EndsGroups (rest : List Char) : Prop := rest = [] ∨ ∃ after, rest = ':' :: ':' :: after

def colonGroups (gs : List UInt16) : List Char :=
  gs.flatMap fun g => ':' :: Nat.toDigits 16 g.toNat

theorem colonGroups_cons (g : UInt16) (gs : List UInt16) :
    colonGroups (g :: gs) = ':' :: (Nat.toDigits 16 g.toNat ++ colonGroups gs) := by
  simp [colonGroups]

theorem renderGroups_cons (g : UInt16) (gs : List UInt16) :
    renderGroups (g :: gs) = Nat.toDigits 16 g.toNat ++ colonGroups gs := by
  induction gs generalizing g with
  | nil => simp [renderGroups, colonGroups]
  | cons next gs ih => rw [renderGroups, ih, colonGroups_cons]

theorem mem_of_mem_renderGroups {c : Char} (h : c ∈ renderGroups gs) :
    c ∈ "0123456789abcdef:".toList := by
  have hdigits : ∀ g : UInt16, c ∈ Nat.toDigits 16 g.toNat → c ∈ "0123456789abcdef:".toList :=
    fun g hc => List.mem_append_left [':'] (mem_hexDigits_of_mem_toDigits hc)
  fun_induction renderGroups gs with
  | case1 => simp at h
  | case2 g => exact hdigits g h
  | case3 g next rest ih =>
    rcases List.mem_append.1 h with h | h
    · exact hdigits g h
    · rcases List.mem_cons.1 h with rfl | h
      · decide
      · exact ih h

theorem readGroup?_toDigits (g : UInt16) (hrest : ∀ c ∈ rest.head?, isHexDigit c = false) :
    readGroup? (Nat.toDigits 16 g.toNat ++ rest) = some (g, rest) := by
  have hdigits : ∀ c ∈ Nat.toDigits 16 g.toNat, isHexDigit c = true :=
    fun c hc => isHexDigit_of_mem_toDigits hc
  have hlength : (Nat.toDigits 16 g.toNat).length ≤ 4 :=
    (Nat.length_toDigits_le_iff (by decide) (by decide)).2 g.toNat_lt
  simp only [readGroup?, takeWhile_append hdigits hrest, dropWhile_append hdigits hrest,
    digitsValue_toDigits (by decide : 1 < 16) (by decide)]
  rw [if_neg]
  · simp
  · simp only [Bool.or_eq_true, List.isEmpty_iff, Nat.toDigits_ne_nil, decide_eq_true_eq, false_or]
    omega

theorem read?_colon (after : List Char) : Ipv4.read? (':' :: after) = none := rfl

theorem readGroup?_nil : readGroup? [] = none := rfl

theorem readGroup?_colon (after : List Char) : readGroup? (':' :: after) = none := rfl

theorem readGroups_of_endsGroups (first : Bool) (hrest : EndsGroups rest) :
    readGroups room first rest = ([], false, rest) := by
  rcases room with _ | room
  · rfl
  · rcases hrest with rfl | ⟨after, rfl⟩ <;> cases first <;>
      simp [readGroups, readGroups.afterColon?, read?_colon, readGroup?_colon,
        Ipv4.read?_of_not_mem (List.not_mem_nil), readGroup?_nil]

theorem readGroups_toDigits {first : Bool} {cs : List Char}
    (hcs : readGroups.afterColon? first cs = some (Nat.toDigits 16 g.toNat ++ rest))
    (hdot : '.' ∉ rest) (hrest : ∀ c ∈ rest.head?, isHexDigit c = false) :
    readGroups (room + 1) first cs =
      (g :: (readGroups room false rest).1, (readGroups room false rest).2) := by
  have hbody : '.' ∉ Nat.toDigits 16 g.toNat ++ rest := by
    intro hmem
    rcases List.mem_append.1 hmem with hmem | hmem
    · exact absurd (isHexDigit_of_mem_toDigits hmem) (by decide)
    · exact hdot hmem
  rw [readGroups, hcs]
  simp only [Ipv4.read?_of_not_mem hbody, ite_self, readGroup?_toDigits g hrest]

theorem dot_not_mem_colonGroups (gs : List UInt16) : '.' ∉ colonGroups gs := by
  simp only [colonGroups, List.mem_flatMap, List.mem_cons, not_exists, not_and, not_or]
  exact fun g _ => ⟨by decide, fun h => absurd (isHexDigit_of_mem_toDigits h) (by decide)⟩

theorem not_isHexDigit_head? (gs : List UInt16) (hrest : EndsGroups rest) :
    ∀ c ∈ (colonGroups gs ++ rest).head?, isHexDigit c = false := by
  cases gs with
  | nil => rcases hrest with rfl | ⟨after, rfl⟩ <;> simp [colonGroups, isHexDigit]
  | cons g gs => simp [colonGroups, isHexDigit]

theorem readGroups_colonGroups (hroom : gs.length ≤ room) (hrest : EndsGroups rest)
    (hdot : '.' ∉ rest) :
    readGroups room false (colonGroups gs ++ rest) = (gs, false, rest) := by
  -- The room shrinks with the groups, so it is general in the induction.
  induction gs generalizing room with
  | nil => exact readGroups_of_endsGroups false hrest
  | cons g gs ih =>
    obtain _ | room := room
    · simp at hroom
    · have hmore : '.' ∉ colonGroups gs ++ rest := by
        simpa using ⟨dot_not_mem_colonGroups gs, hdot⟩
      rw [colonGroups_cons, List.cons_append, List.append_assoc, readGroups_toDigits rfl hmore
        (not_isHexDigit_head? gs hrest), ih (by simpa using hroom)]

theorem readGroups_renderGroups (hroom : gs.length ≤ room) (hrest : EndsGroups rest)
    (hdot : '.' ∉ rest) :
    readGroups room true (renderGroups gs ++ rest) = (gs, false, rest) := by
  cases gs with
  | nil => exact readGroups_of_endsGroups true hrest
  | cons g gs =>
    obtain _ | room := room
    · simp at hroom
    · have hmore : '.' ∉ colonGroups gs ++ rest := by
        simpa using ⟨dot_not_mem_colonGroups gs, hdot⟩
      rw [renderGroups_cons, List.append_assoc, readGroups_toDigits rfl hmore
        (not_isHexDigit_head? gs hrest), readGroups_colonGroups (by simpa using hroom) hrest hdot]

/-- The groups around a run of zeros, with the zeros put back. -/
theorem take_append_replicate_append_drop (h : IsZeroRun groups run) :
    groups.take run.1 ++ (List.replicate run.2 0 ++ groups.drop (run.1 + run.2)) = groups := by
  have hzeros : (groups.drop run.1).take run.2 = List.replicate run.2 0 := by
    apply List.ext_getElem?
    intro i
    rw [List.getElem?_take, List.getElem?_replicate]
    split
    · rename_i hi
      rw [List.getElem?_drop, h i hi]
    · rfl
  rw [← hzeros, ← List.drop_drop, List.take_append_drop, List.take_append_drop]

theorem ofGroups?_groups (ip : Ipv6) : ofGroups? ip.groups = some ip := by
  simp [ofGroups?, ip.length_groups]

theorem dot_not_mem_renderGroups (gs : List UInt16) : '.' ∉ renderGroups gs :=
  fun h => absurd (mem_of_mem_renderGroups h) (by decide)

theorem parseChars?_compress (ip : Ipv6) : parseChars? (compress ip.groups) = some ip := by
  have hlength := ip.length_groups
  have hzero := (isFirstLongest_longestRun ip.groups).zeros
  rw [compress]
  generalize longestRun 0 0 (0, 0) ip.groups = run at hzero ⊢
  split
  rename_i start length
  split
  · rename_i hlong
    have hend := end_le_length hzero (by omega)
    dsimp only at hend
    have hhead : readGroups 8 true (renderGroups (ip.groups.take start) ++
        ':' :: ':' :: renderGroups (ip.groups.drop (start + length))) =
          (ip.groups.take start, false,
            ':' :: ':' :: renderGroups (ip.groups.drop (start + length))) :=
      readGroups_renderGroups (by simp; omega) (.inr ⟨_, rfl⟩)
        (by simpa using dot_not_mem_renderGroups _)
    have htail : readGroups (7 - (ip.groups.take start).length) true
        (renderGroups (ip.groups.drop (start + length)) ++ []) =
          (ip.groups.drop (start + length), false, []) :=
      readGroups_renderGroups (by simp; omega) (.inl rfl) (by simp)
    rw [List.append_nil] at htail
    have hgroups : ip.groups.take start ++ List.replicate (8 - (ip.groups.take start).length -
        (ip.groups.drop (start + length)).length) 0 ++ ip.groups.drop (start + length) =
        ip.groups := by
      rw [show 8 - (ip.groups.take start).length - (ip.groups.drop (start + length)).length =
        length by simp; omega, List.append_assoc]
      exact take_append_replicate_append_drop hzero
    have hshort : (ip.groups.take start).length ≠ 8 := by simp; omega
    simp only [parseChars?, hhead, if_neg hshort, htail, hgroups, ofGroups?_groups, if_neg,
      Bool.false_eq_true, not_false_eq_true]
  · have hall : readGroups 8 true (renderGroups ip.groups ++ []) = (ip.groups, false, []) :=
      readGroups_renderGroups (by omega) (.inl rfl) (by simp)
    rw [List.append_nil] at hall
    simp [parseChars?, hall, hlength, ofGroups?_groups]

theorem groups_of_mapped? {ip : Ipv6} {v4 : Ipv4} (h : ip.mapped? = some v4) :
    ip.groups =
      List.replicate 5 0 ++ [0xFFFF, .ofNat (v4.value / 0x10000), .ofNat (v4.value % 0x10000)] := by
  unfold mapped? at h
  split at h
  · rename_i high low hgroups
    obtain rfl := Option.some.inj h
    have hhigh := high.toNat_lt
    have hlow := low.toNat_lt
    have hvalue : (Ipv4.ofNat (high.toNat * 0x10000 + low.toNat)).value =
        high.toNat * 0x10000 + low.toNat := Nat.mod_eq_of_lt (by omega)
    have hdiv : (high.toNat * 0x10000 + low.toNat) / 0x10000 = high.toNat := by omega
    have hmod : (high.toNat * 0x10000 + low.toNat) % 0x10000 = low.toNat := by omega
    rw [hgroups, hvalue, hdiv, hmod, UInt16.ofNat_toNat, UInt16.ofNat_toNat]
    rfl
  · simp at h

/-- A dotted address takes the room of the last two groups. -/
theorem readGroups_dotted (v4 : Ipv4) :
    readGroups (room + 2) false (':' :: v4.renderChars) =
      ([.ofNat (v4.value / 0x10000), .ofNat (v4.value % 0x10000)], true, []) := by
  have hread : Ipv4.read? v4.renderChars = some (v4, []) := by
    rw [← List.append_nil v4.renderChars, Ipv4.read?_renderChars Ipv4.endsDigits_nil]
  rw [readGroups]
  simp only [readGroups.afterColon?, Nat.zero_lt_succ, if_true, hread]

theorem readGroups_mapped (v4 : Ipv4) :
    readGroups (room + 3) true ("ffff:".toList ++ v4.renderChars) =
      ([0xFFFF, .ofNat (v4.value / 0x10000), .ofNat (v4.value % 0x10000)], true, []) := by
  have hdigits : "ffff:".toList ++ v4.renderChars =
      Nat.toDigits 16 (0xFFFF : UInt16).toNat ++ ':' :: v4.renderChars := rfl
  have hgroup : readGroup? ("ffff:".toList ++ v4.renderChars) =
      some (0xFFFF, ':' :: v4.renderChars) := by
    rw [hdigits]
    exact readGroup?_toDigits 0xFFFF (by simp [isHexDigit])
  have hnone : Ipv4.read? ("ffff:".toList ++ v4.renderChars) = none := rfl
  rw [readGroups]
  simp only [readGroups.afterColon?, hnone, ite_self, hgroup, readGroups_dotted]

theorem parseChars?_renderChars (ip : Ipv6) : parseChars? ip.renderChars = some ip := by
  rw [renderChars]
  split
  · rename_i v4 hmapped
    have hstart : readGroups 8 true ("::ffff:".toList ++ v4.renderChars) =
        ([], false, "::ffff:".toList ++ v4.renderChars) :=
      readGroups_of_endsGroups true (.inr ⟨_, rfl⟩)
    have hrest : "::ffff:".toList ++ v4.renderChars =
      ':' :: ':' :: ("ffff:".toList ++ v4.renderChars) := rfl
    rw [parseChars?, hstart, hrest]
    have htail : readGroups 7 true ("ffff:".toList ++ v4.renderChars) =
        ([0xFFFF, .ofNat (v4.value / 0x10000), .ofNat (v4.value % 0x10000)], true, []) :=
      readGroups_mapped v4
    simp only [List.length_nil, Nat.sub_zero, htail]
    rw [← ofGroups?_groups ip, groups_of_mapped? hmapped]
    rfl
  · exact parseChars?_compress ip

theorem mem_of_mem_compress {c : Char} (h : c ∈ compress groups) :
    c ∈ "0123456789abcdef:".toList := by
  unfold compress at h
  split at h
  split at h
  · rcases List.mem_append.1 h with h | h
    · exact mem_of_mem_renderGroups h
    · rcases List.mem_cons.1 h with rfl | h
      · decide
      · rcases List.mem_cons.1 h with rfl | h
        · decide
        · exact mem_of_mem_renderGroups h
  · exact mem_of_mem_renderGroups h

theorem mem_of_mem_renderChars {ip : Ipv6} {c : Char} (h : c ∈ ip.renderChars) :
    c ∈ "0123456789abcdef:.".toList := by
  unfold renderChars at h
  split at h
  · rcases List.mem_append.1 h with h | h
    · exact (by decide : "::ffff:".toList ⊆ "0123456789abcdef:.".toList) h
    · exact (by decide : "0123456789.".toList ⊆ "0123456789abcdef:.".toList)
        (Ipv4.mem_of_mem_renderChars h)
  · exact List.mem_append_left ['.'] (mem_of_mem_compress h)

theorem read?_renderChars_eq_none (ip : Ipv6) : Ipv4.read? ip.renderChars = none := by
  unfold renderChars
  split
  · rfl
  · exact Ipv4.read?_of_not_mem fun h => absurd (mem_of_mem_compress h) (by decide)

end Ipv6

namespace IpAddress

theorem parseChars?_renderChars (a : IpAddress) : parseChars? a.renderChars = some a := by
  cases a with
  | v4 ip => simp [parseChars?, renderChars, Ipv4.parseChars?_renderChars]
  | v6 ip =>
    have hnone : Ipv4.parseChars? ip.renderChars = none := by
      simp [Ipv4.parseChars?, Ipv6.read?_renderChars_eq_none]
    simp [parseChars?, renderChars, hnone, Ipv6.parseChars?_renderChars]

theorem parse?_render (a : IpAddress) : parse? a.render = some a := by
  simp [parse?, render, parseChars?_renderChars]

/-- The standard text of an address. An IPv6 address that stands for an IPv4 address ends in its
dotted form; in any other the first longest run of at least two zero groups is left out. -/
inductive IsStandardText : IpAddress → List Char → Prop
  | dotted (ip : Ipv4) : IsStandardText (.v4 ip) ip.renderChars
  | mapped {ip : Ipv6} {v4 : Ipv4} (stands : ip.mapped? = some v4) :
      IsStandardText (.v6 ip) ("::ffff:".toList ++ v4.renderChars)
  | shortened {ip : Ipv6} {run : Nat × Nat} (plain : ip.mapped? = none)
      (first : Ipv6.IsFirstLongest ip.groups run) (long : 1 < run.2) :
      IsStandardText (.v6 ip) (Ipv6.renderGroups (ip.groups.take run.1) ++ "::".toList ++
        Ipv6.renderGroups (ip.groups.drop (run.1 + run.2)))
  | full {ip : Ipv6} (plain : ip.mapped? = none)
      (short : ∀ run, Ipv6.IsZeroRun ip.groups run → run.2 ≤ 1) :
      IsStandardText (.v6 ip) (Ipv6.renderGroups ip.groups)

theorem isStandardText_renderChars (a : IpAddress) : IsStandardText a a.renderChars := by
  cases a with
  | v4 ip => exact .dotted ip
  | v6 ip =>
    rw [renderChars, Ipv6.renderChars]
    split
    · rename_i v4 hmapped
      exact .mapped hmapped
    · rename_i hplain
      have hfirst := Ipv6.isFirstLongest_longestRun ip.groups
      rw [Ipv6.compress]
      generalize Ipv6.longestRun 0 0 (0, 0) ip.groups = run at hfirst ⊢
      split
      rename_i start length
      split
      · rename_i hlong
        have htext := IsStandardText.shortened hplain hfirst hlong
        simpa using htext
      · rename_i hshort
        refine .full hplain fun other hother => ?_
        have hprecedes := hfirst.precedes other hother
        unfold Ipv6.Precedes at hprecedes
        dsimp only at hprecedes
        omega

/-- Of two runs of the same length the first one is left out, and a zero by itself stays. -/
example : render (.v6 ⟨[0x2001, 0xDB8, 0, 0, 1, 0, 0, 1], rfl⟩) = "2001:db8::1:0:0:1" ∧
    render (.v6 ⟨[1, 0, 2, 3, 4, 5, 6, 7], rfl⟩) = "1:0:2:3:4:5:6:7" := by
  decide

end IpAddress

namespace Subnet

theorem parseByte?_toDigits {n : Nat} (hn : n ≤ 255) : parseByte? (Nat.toDigits 10 n) = some n := by
  have hdigits : ∀ c ∈ Nat.toDigits 10 n, c.isDigit = true :=
    fun c hc => Nat.isDigit_of_mem_toDigits (by decide) (by decide) hc
  have hunsigned : ∀ rest, Nat.toDigits 10 n ≠ '+' :: rest := by
    intro rest heq
    exact absurd (hdigits '+' (heq ▸ List.mem_cons_self)) (by decide)
  have hall : (Nat.toDigits 10 n).all Char.isDigit = true := List.all_eq_true.2 hdigits
  have hvalue := digitsValue_toDigits (by decide : 1 < 10) (by decide) n
  have hfits : ¬ 255 < n := by omega
  unfold parseByte?
  split
  · rename_i rest heq
    exact absurd heq (hunsigned rest)
  · simp [Nat.toDigits_ne_nil, hall, hvalue, hfits]

theorem parse?_render (s : Subnet) : parse? s.render = some s := by
  have htext : s.render.toList = s.address.renderChars ++ '/' :: Nat.toDigits 10 s.bits := by
    simp [render, Ipv4.render, Nat.repr]
  have hslash : ∀ c ∈ s.address.renderChars, (c != '/') = true := by
    intro c hc
    have hplain : ("0123456789.".toList.all fun c => c != '/') = true := by decide
    exact List.all_eq_true.1 hplain c (Ipv4.mem_of_mem_renderChars hc)
  have hrest : ∀ c ∈ ('/' :: Nat.toDigits 10 s.bits).head?, (c != '/') = false := by
    simp
  have htake := takeWhile_append hslash hrest
  have hdrop := dropWhile_append hslash hrest
  have hle := s.bits_le
  have hbits : parseBits? (Nat.toDigits 10 s.bits) = some s.bits := by
    rw [parseBits?, parseByte?_toDigits (by omega)]
  simp [parse?, htext, htake, hdrop, Ipv4.parseChars?_renderChars, hbits, ofBits?, hle]

end Subnet

end MachineFleet
