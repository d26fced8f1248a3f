import MachineFleet.Data.Json.Parser
import MachineFleet.Data.Json.Printer
import MachineFleet.Proofs.Net.Address
import Mathlib.Data.List.Basic

namespace MachineFleet.Json

variable {c : Char} {rest : List Char} {n : Nat}

theorem hexValue?_hexDigit (hn : n < 16) : hexValue? (hexDigit n) = some n := by
  revert n
  decide

theorem unit?_hexDigits (hc : c.toNat < 0x20) :
    unit? '0' '0' (hexDigit (c.toNat / 16)) (hexDigit (c.toNat % 16)) = some c.toNat := by
  have hhigh := hexValue?_hexDigit (n := c.toNat / 16) (by omega)
  have hlow := hexValue?_hexDigit (n := c.toNat % 16) (by omega)
  have hzero : hexValue? '0' = some 0 := rfl
  simp only [unit?, hzero, hhigh, hlow, Option.bind_eq_bind, Option.bind_some, Option.pure_def]
  have hsum : 0 * 4096 + 0 * 256 + c.toNat / 16 * 16 + c.toNat % 16 = c.toNat := by omega
  rw [hsum]

theorem scanText?_backslash {after : List Char} (h : unescape? rest = some (c, after)) :
    scanText? ('\\' :: rest) = (scanText? after).map fun (cs, tail) => (c :: cs, tail) := by
  rw [scanText?]
  split
  · rename_i hnone
    rw [h] at hnone
    cases hnone
  · rename_i hsome
    rw [h] at hsome
    cases hsome
    rfl

theorem scanText?_escape (c : Char) (rest : List Char) :
    scanText? (escape c ++ rest) =
      (scanText? rest).map fun (cs, tail) => (c :: cs, tail) := by
  -- Seven characters have an escape of their own; then come the other control characters.
  unfold escape
  iterate 7
    split
    · rename_i h
      subst h
      exact scanText?_backslash rfl
  split
  · rename_i hc
    have hread : unescape? ('u' :: '0' :: '0' :: hexDigit (c.toNat / 16) ::
        hexDigit (c.toNat % 16) :: rest) = some (c, rest) := by
      have hhigh : ¬ (0xD800 ≤ c.toNat ∧ c.toNat < 0xDC00) := by omega
      have hlow : ¬ (0xDC00 ≤ c.toNat ∧ c.toNat < 0xE000) := by omega
      simp only [unescape?, unit?_hexDigits hc, if_neg hhigh, if_neg hlow, Char.ofNat_toNat]
    exact scanText?_backslash hread
  · rename_i hquote hslash _ _ _ _ _ hc
    rw [List.singleton_append, scanText?.eq_4 c rest hquote hslash, if_neg hc]

theorem scanText?_flatMap_escape (cs rest : List Char) :
    scanText? (cs.flatMap escape ++ '"' :: rest) = some (cs, rest) := by
  induction cs with
  | nil => rw [List.flatMap_nil, List.nil_append, scanText?]
  | cons c cs ih =>
    rw [List.flatMap_cons, List.append_assoc, scanText?_escape, ih, Option.map_some]

theorem scanText?_quote (s : String) (rest : List Char) :
    ∃ more, quote s ++ rest = '"' :: more ∧ scanText? more = some (s.toList, rest) := by
  refine ⟨s.toList.flatMap escape ++ '"' :: rest, ?_, scanText?_flatMap_escape s.toList rest⟩
  simp [quote]

/-- A number ends before this text: no digit, point or exponent is next. -/
def EndsNumber (rest : List Char) : Prop :=
  ∀ c ∈ rest.head?, c.isDigit = false ∧ c ≠ '.' ∧ c ≠ 'e' ∧ c ≠ 'E'

theorem endsNumber_nil : EndsNumber [] := by
  intro c hc
  cases hc

theorem endsNumber_cons (h : c ∈ [',', ']', '}']) : EndsNumber (c :: rest) := by
  intro d hd
  obtain rfl : c = d := by simpa using hd
  simp only [List.mem_cons, List.not_mem_nil, or_false] at h
  rcases h with rfl | rfl | rfl
  all_goals decide

theorem decimalValue_eq_digitsValue {digits : List Char}
    (h : ∀ c ∈ digits, c.isDigit = true) : decimalValue digits = digitsValue 10 digits := by
  unfold decimalValue digitsValue
  apply List.foldl_ext
  intro n c hc
  rw [digitsValue.hexValue, if_pos (h c hc)]

theorem decimalValue_toDigits (n : Nat) : decimalValue (Nat.toDigits 10 n) = n := by
  have hdigits : ∀ c ∈ Nat.toDigits 10 n, c.isDigit = true :=
    fun c hc => Nat.isDigit_of_mem_toDigits (by decide) (by decide) hc
  rw [decimalValue_eq_digitsValue hdigits]
  exact digitsValue_toDigits (by decide) (by decide) n

theorem scanFraction?_of_ends (h : EndsNumber rest) : scanFraction? rest = some ([], rest) := by
  unfold scanFraction?
  split
  · exact absurd rfl (h '.' rfl).2.1
  · rfl

theorem scanExponent?_of_ends (h : EndsNumber rest) : scanExponent? rest = some ([], rest) := by
  cases rest with
  | nil => rfl
  | cons c rest =>
    obtain ⟨-, -, he, hE⟩ := h c rfl
    exact if_neg (not_or.2 ⟨he, hE⟩)

theorem scanNumber?_digits (negative : Bool) (n : Nat) (hrest : EndsNumber rest) :
    scanNumber? ((if negative then ['-'] else []) ++ Nat.toDigits 10 n ++ rest) =
      some (integerOrReal negative (Nat.toDigits 10 n), rest) := by
  have hdigits : ∀ c ∈ Nat.toDigits 10 n, c.isDigit = true :=
    fun c hc => Nat.isDigit_of_mem_toDigits (by decide) (by decide) hc
  have hends : ∀ c ∈ rest.head?, c.isDigit = false := fun c hc => (hrest c hc).1
  have htake := takeWhile_append hdigits hends
  have hdrop := dropWhile_append hdigits hends
  -- A number is written without needless zeros.
  have hzero : ¬ ((Nat.toDigits 10 n).head? = some '0' ∧ 1 < (Nat.toDigits 10 n).length) := by
    rintro ⟨hhead, hmore⟩
    rw [toDigits_of_head?_zero hhead] at hmore
    exact absurd hmore (by decide)
  have hwhole : ((Nat.toDigits 10 n).isEmpty ||
      ((Nat.toDigits 10 n).head? == some '0' && decide (1 < (Nat.toDigits 10 n).length))) =
        false := by
    simpa [Nat.toDigits_ne_nil] using hzero
  have hunsigned : ∀ more, Nat.toDigits 10 n ++ rest ≠ '-' :: more := by
    intro more heq
    obtain ⟨first, digits, hcons⟩ := List.exists_cons_of_ne_nil
      (Nat.toDigits_ne_nil (b := 10) (n := n))
    rw [hcons, List.cons_append] at heq
    obtain rfl := (List.cons.inj heq).1
    exact absurd (hdigits '-' (hcons ▸ List.mem_cons_self)) (by decide)
  rw [List.append_assoc]
  cases negative with
  | true =>
    simp [scanNumber?, htake, hdrop, hwhole, scanFraction?_of_ends hrest,
      scanExponent?_of_ends hrest]
  | false =>
    -- That there is no sign decides the first match.
    unfold scanNumber?
    simp [htake, hdrop, hwhole, scanFraction?_of_ends hrest,
      scanExponent?_of_ends hrest]

theorem integerOrReal_toDigits {n : Int} (hlow : -0x8000000000000000 ≤ n)
    (hhigh : n < 0x10000000000000000) :
    integerOrReal (decide (n < 0)) (Nat.toDigits 10 n.natAbs) = .integer n := by
  have hsize : UInt64.size = 0x10000000000000000 := rfl
  simp only [integerOrReal, decimalValue_toDigits, decide_eq_true_eq]
  by_cases hn : n < 0
  · have hfits : 0 < n.natAbs ∧ n.natAbs ≤ 0x8000000000000000 := by omega
    have habs : -(n.natAbs : Int) = n := by omega
    rw [if_pos hn, if_pos hfits, habs]
  · have hfits : n.natAbs < UInt64.size := by omega
    have habs : (n.natAbs : Int) = n := by omega
    rw [if_neg hn, if_pos hfits, habs]

theorem scanNumber?_renderInteger {n : Int} (hlow : -0x8000000000000000 ≤ n)
    (hhigh : n < 0x10000000000000000) (hrest : EndsNumber rest) :
    scanNumber? (renderInteger n ++ rest) = some (.integer n, rest) := by
  have hwritten : renderInteger n =
      (if decide (n < 0) then ['-'] else []) ++ Nat.toDigits 10 n.natAbs := by
    unfold renderInteger
    by_cases hn : n < 0
    · simp [hn]
    · simp [hn]
  rw [hwritten, scanNumber?_digits _ _ hrest, integerOrReal_toDigits hlow hhigh]

mutual

/-- All numbers in the value are integers of 64 bits, with or without a sign. -/
def IsExact : Json → Prop
  | null => True
  | bool _ => True
  | integer n => -0x8000000000000000 ≤ n ∧ n < 0x10000000000000000
  | real _ => False
  | text _ => True
  | list items => AreExact items
  | record fields => FieldsExact fields

def AreExact : List Json → Prop
  | [] => True
  | item :: rest => item.IsExact ∧ AreExact rest

def FieldsExact : List (String × Json) → Prop
  | [] => True
  | (_, value) :: rest => value.IsExact ∧ FieldsExact rest

end

theorem head_renderInteger (n : Int) :
    ∃ c more, renderInteger n = c :: more ∧ c ∈ "-0123456789".toList := by
  by_cases hn : n < 0
  · exact ⟨'-', _, by rw [renderInteger, if_pos hn], by decide⟩
  · obtain ⟨c, more, hcons⟩ := List.exists_cons_of_ne_nil
      (Nat.toDigits_ne_nil (b := 10) (n := n.natAbs))
    have hc : c ∈ "0123456789".toList :=
      mem_decimals_of_mem_toDigits (n := n.natAbs) (hcons ▸ List.mem_cons_self)
    exact ⟨c, more, by rw [renderInteger, if_neg hn, hcons], List.mem_cons_of_mem '-' hc⟩

theorem head_renderChars {v : Json} (h : v.IsExact) :
    ∃ c more, v.renderChars = c :: more ∧ isBlank c = false ∧ c ≠ ']' := by
  cases v with
  | null => exact ⟨'n', _, by rw [renderChars], by decide, by decide⟩
  | bool b =>
    cases b with
    | true => exact ⟨'t', _, by rw [renderChars], by decide, by decide⟩
    | false => exact ⟨'f', _, by rw [renderChars], by decide, by decide⟩
  | integer n =>
    obtain ⟨c, more, hcons, hc⟩ := head_renderInteger n
    have hplain : ("-0123456789".toList.all fun c => !isBlank c && c != ']') = true := by decide
    have hstart := List.all_eq_true.1 hplain c hc
    exact ⟨c, more, by rw [renderChars, hcons], by simpa using hstart⟩
  | real written => exact absurd h (by simp [IsExact])
  | text s => exact ⟨'"', _, by rw [renderChars, quote], by decide, by decide⟩
  | list items => exact ⟨'[', _, by rw [renderChars], by decide, by decide⟩
  | record fields => exact ⟨'{', _, by rw [renderChars], by decide, by decide⟩

theorem skipBlank_cons (hc : isBlank c = false) : skipBlank (c :: rest) = c :: rest := by
  rw [skipBlank, List.dropWhile_cons_of_neg (by simp [hc])]

theorem skipBlank_renderChars {v : Json} (h : v.IsExact) :
    skipBlank (v.renderChars ++ rest) = v.renderChars ++ rest := by
  obtain ⟨c, more, hcons, hblank, -⟩ := head_renderChars h
  rw [hcons, List.cons_append, skipBlank_cons hblank]

theorem readValue_number {v : Json} {cs : List Char} {fuel : Nat} (hc : c ∈ "-0123456789".toList)
    (h : scanNumber? (c :: cs) = some (v, rest)) :
    readValue (fuel + 1) (c :: cs) = .ok (v, rest) := by
  have hblank : isBlank c = false := by
    have hplain : ("-0123456789".toList.all fun c => !isBlank c) = true := by decide
    simpa using List.all_eq_true.1 hplain c hc
  rw [readValue, skipBlank_cons hblank]
  -- No other value begins with a digit or a sign.
  split
  case h_7 => rw [h]
  all_goals
    rename_i heq
    obtain rfl := (List.cons.inj heq).1
    exact absurd hc (by decide)

theorem length_pos_of_exact {v : Json} (h : v.IsExact) : 0 < v.renderChars.length := by
  obtain ⟨c, more, hcons, -⟩ := head_renderChars h
  rw [hcons]
  exact Nat.succ_pos _

theorem skipBlank_renderItems (rest : List Char) {item : Json} (items : List Json)
    (h : item.IsExact) :
    ∃ c more, skipBlank (renderItems (item :: items) ++ rest) = c :: more ∧ c ≠ ']' := by
  have htail : ∃ tail, renderItems (item :: items) = item.renderChars ++ tail := by
    cases items with
    | nil => exact ⟨_, by rw [renderItems]⟩
    | cons next items => exact ⟨_, by rw [renderItems]⟩
  obtain ⟨tail, htail⟩ := htail
  obtain ⟨c, more, hcons, -, hc⟩ := head_renderChars h
  refine ⟨c, more ++ (tail ++ rest), ?_, hc⟩
  rw [htail, List.append_assoc, skipBlank_renderChars h, hcons, List.cons_append]

theorem renderFields_cons (name : String) (value : Json) (fields : List (String × Json)) :
    ∃ tail, renderFields ((name, value) :: fields) =
      quote name ++ ':' :: (value.renderChars ++ tail) := by
  cases fields with
  | nil => exact ⟨_, by rw [renderFields]⟩
  | cons next fields => exact ⟨_, by rw [renderFields]⟩

mutual

/-- A value is read back by as many steps as its text has characters. -/
theorem readValue_renderChars {fuel : Nat} (rest : List Char) : ∀ v : Json, v.IsExact →
    EndsNumber rest → v.renderChars.length ≤ fuel →
      readValue fuel (v.renderChars ++ rest) = .ok (v, rest)
  | v, h, hrest, hfuel => by
    -- Every value takes a character at least, so that there is a step for its first one.
    have hpos := length_pos_of_exact h
    obtain ⟨fuel, rfl⟩ : ∃ k, fuel = k + 1 := ⟨fuel - 1, by omega⟩
    cases v with
    | null => rfl
    | bool b =>
      cases b with
      | true => rfl
      | false => rfl
    | integer n =>
      obtain ⟨c, more, hcons, hc⟩ := head_renderInteger n
      have hread := scanNumber?_renderInteger h.1 h.2 hrest
      rw [renderChars]
      rw [hcons, List.cons_append] at hread ⊢
      exact readValue_number hc hread
    | real written => exact absurd h (by simp [IsExact])
    | text s =>
      obtain ⟨more, hcons, hread⟩ := scanText?_quote s rest
      rw [renderChars, hcons, readValue, skipBlank_cons (by decide)]
      simp [hread]
    | list items =>
      rw [renderChars, List.length_cons] at hfuel
      rw [renderChars, List.cons_append, readValue, skipBlank_cons (by decide)]
      rcases items with - | ⟨item, items⟩
      · rw [renderItems]
        rfl
      · have hread := readItems_renderItems rest (item :: items) (by simp) h
          (by omega : _ ≤ fuel)
        -- What comes after the bracket begins an item, since no item begins with a bracket.
        obtain ⟨c, more, hcons, hc⟩ := skipBlank_renderItems rest items h.1
        simp only [hread]
        split
        · rename_i heq
          exact absurd (List.cons.inj (hcons.symm.trans heq)).1 hc
        · rfl
    | record fields =>
      rw [renderChars, List.length_cons] at hfuel
      rw [renderChars, List.cons_append, readValue, skipBlank_cons (by decide)]
      rcases fields with - | ⟨⟨name, value⟩, fields⟩
      · rw [renderFields]
        rfl
      · have hread := readFields_renderFields rest ((name, value) :: fields) (by simp) h
          (by omega : _ ≤ fuel)
        obtain ⟨tail, htail⟩ := renderFields_cons name value fields
        have hquote : ∃ more, skipBlank (renderFields ((name, value) :: fields) ++ rest) =
            '"' :: more := by
          rw [htail, quote]
          exact ⟨_, skipBlank_cons (by decide)⟩
        -- What comes after the brace begins a name.
        obtain ⟨more, hcons⟩ := hquote
        simp only [hread]
        split
        · rename_i heq
          exact absurd (List.cons.inj (hcons.symm.trans heq)).1 (by decide)
        · rfl

theorem readItems_renderItems {fuel : Nat} (rest : List Char) :
    ∀ items : List Json, items ≠ [] → AreExact items → (renderItems items).length ≤ fuel →
      readItems fuel (renderItems items ++ rest) = .ok (items, rest)
  | [], hne, _, _ => absurd rfl hne
  | [item], _, h, hfuel => by
    rw [renderItems, List.length_append, List.length_singleton] at hfuel
    obtain ⟨fuel, rfl⟩ : ∃ k, fuel = k + 1 := ⟨fuel - 1, by omega⟩
    have hread := readValue_renderChars (']' :: rest) item h.1
      (endsNumber_cons (by decide)) (by omega : _ ≤ fuel)
    rw [renderItems, List.append_assoc, List.singleton_append, readItems, hread]
    rfl
  | item :: next :: more, _, h, hfuel => by
    rw [renderItems, List.length_append, List.length_cons] at hfuel
    obtain ⟨fuel, rfl⟩ : ∃ k, fuel = k + 1 := ⟨fuel - 1, by omega⟩
    have hitem := readValue_renderChars (',' :: (renderItems (next :: more) ++ rest)) item
      h.1 (endsNumber_cons (by decide)) (by omega : _ ≤ fuel)
    have hmore := readItems_renderItems rest (next :: more) (by simp) h.2
      (by omega : _ ≤ fuel)
    rw [renderItems, List.append_assoc, List.cons_append, readItems, hitem]
    simp only [skipBlank_cons (by decide : isBlank ',' = false), hmore]

theorem readFields_renderFields {fuel : Nat} (rest : List Char) :
    ∀ fields : List (String × Json), fields ≠ [] → FieldsExact fields →
      (renderFields fields).length ≤ fuel →
        readFields fuel (renderFields fields ++ rest) = .ok (fields, rest)
  | [], hne, _, _ => absurd rfl hne
  | [(name, value)], _, h, hfuel => by
    simp only [renderFields, List.length_append, List.length_cons] at hfuel
    obtain ⟨fuel, rfl⟩ : ∃ k, fuel = k + 1 := ⟨fuel - 1, by omega⟩
    have hvalue := readValue_renderChars ('}' :: rest) value h.1
      (endsNumber_cons (by decide)) (by omega : _ ≤ fuel)
    obtain ⟨more, hcons, hname⟩ :=
      scanText?_quote name (':' :: (value.renderChars ++ '}' :: rest))
    have htext : renderFields [(name, value)] ++ rest = '"' :: more := by
      rw [← hcons, renderFields]
      simp
    rw [htext, readFields, skipBlank_cons (by decide)]
    simp only [hname, skipBlank_cons (by decide : isBlank ':' = false), hvalue,
      skipBlank_cons (by decide : isBlank '}' = false), String.ofList_toList]
  | (name, value) :: next :: more, _, h, hfuel => by
    simp only [renderFields, List.length_append, List.length_cons] at hfuel
    obtain ⟨fuel, rfl⟩ : ∃ k, fuel = k + 1 := ⟨fuel - 1, by omega⟩
    have hvalue := readValue_renderChars (',' :: (renderFields (next :: more) ++ rest))
      value h.1 (endsNumber_cons (by decide)) (by omega : _ ≤ fuel)
    have hmore := readFields_renderFields rest (next :: more) (by simp) h.2
      (by omega : _ ≤ fuel)
    obtain ⟨after, hcons, hname⟩ := scanText?_quote name
      (':' :: (value.renderChars ++ ',' :: (renderFields (next :: more) ++ rest)))
    have htext : renderFields ((name, value) :: next :: more) ++ rest = '"' :: after := by
      rw [← hcons, renderFields]
      simp
    rw [htext, readFields, skipBlank_cons (by decide)]
    simp only [hname, skipBlank_cons (by decide : isBlank ':' = false), hvalue,
      skipBlank_cons (by decide : isBlank ',' = false), hmore, String.ofList_toList]

end

/-- What is written for a value is read as that value. -/
theorem parse?_render {v : Json} (h : v.IsExact) : parse? v.render = some v := by
  have hread : readValue (2 * v.renderChars.length + 2) v.renderChars = .ok (v, []) := by
    have := readValue_renderChars [] v h endsNumber_nil
      (by omega : _ ≤ 2 * v.renderChars.length + 2)
    rwa [List.append_nil] at this
  have htext : v.render.toList = v.renderChars := String.toList_ofList
  rw [parse?, read, htext]
  simp only [hread]
  rfl

end MachineFleet.Json
