import MachineFleet.Proofs.Net.Url.Host

namespace MachineFleet

theorem Endpoint.mem_of_mem_renderChars {e : Endpoint} {c : Char} (h : c ∈ e.renderChars) :
    c ∈ "0123456789abcdef:.[]".toList := by
  have hchars : "0123456789abcdef:.".toList ⊆ "0123456789abcdef:.[]".toList := by decide
  rcases List.mem_append.1 h with h | h
  · cases hva : e.address with
    | v4 ip =>
      rw [hva] at h
      have hdotted : "0123456789.".toList ⊆ "0123456789abcdef:.[]".toList := by decide
      exact hdotted (Ipv4.mem_of_mem_renderChars h)
    | v6 ip =>
      rw [hva] at h
      rcases (by simpa [IpAddress.renderHost] using h : c = '[' ∨ c ∈ ip.renderChars ∨ c = ']')
        with rfl | h | rfl
      · decide
      · exact hchars (Ipv6.mem_of_mem_renderChars h)
      · decide
  · rcases List.mem_cons.1 h with rfl | h
    · decide
    · have hdecimals : "0123456789".toList ⊆ "0123456789abcdef:.[]".toList := by decide
      exact hdecimals (mem_decimals_of_mem_toDigits h)

theorem Endpoint.forall_mem_renderChars {p : Char → Bool}
    (h : "0123456789abcdef:.[]".toList.all p = true) (e : Endpoint) :
    ∀ c ∈ e.renderChars, p c = true :=
  fun c hc => List.all_eq_true.1 h c (mem_of_mem_renderChars hc)

theorem Endpoint.not_mem_renderChars {c : Char} (h : c ∉ "0123456789abcdef:.[]".toList)
    (e : Endpoint) : c ∉ e.renderChars :=
  fun hc => h (mem_of_mem_renderChars hc)

namespace Url

variable {scheme text rest : List Char} {e : Endpoint}

def ofEndpoint (scheme : List Char) (e : Endpoint) : Url where
  scheme
  username := []
  password := []
  host := some (.ofAddress (isSpecial scheme) e.address)
  port := if defaultPort? scheme = some e.port then none else some e.port
  path := .segments []
  query := none
  fragment := none

theorem knownPort?_ofEndpoint (scheme : List Char) (e : Endpoint) :
    (ofEndpoint scheme e).knownPort? = some e.port := by
  by_cases h : defaultPort? scheme = some e.port <;> simp [knownPort?, ofEndpoint, h]

theorem splitHost_of_not_mem (hcolon : ':' ∉ text) (hbracket : '[' ∉ text) (digits : List Char) :
    splitHost false (text ++ ':' :: digits) = (text, ':' :: digits) := by
  induction text with
  | nil => simp [splitHost]
  | cons c text ih =>
    obtain ⟨hc, htext⟩ := not_or.1 (by simpa using hcolon : ¬ (':' = c ∨ ':' ∈ text))
    obtain ⟨hopen, hmore⟩ := not_or.1 (by simpa using hbracket : ¬ ('[' = c ∨ '[' ∈ text))
    rw [List.cons_append, splitHost, if_neg fun h => hc h.1.symm]
    have hstate : (c == '[' || (false && c != ']')) = false := by
      simpa using fun h => hopen h.symm
    rw [hstate, ih htext hmore]

theorem splitHost_brackets {inner : List Char} (hclose : ']' ∉ inner) (digits : List Char) :
    splitHost true (inner ++ ']' :: ':' :: digits) = (inner ++ [']'], ':' :: digits) := by
  induction inner with
  | nil => simp [splitHost]
  | cons c inner ih =>
    obtain ⟨hc, hinner⟩ := not_or.1 (by simpa using hclose : ¬ (']' = c ∨ ']' ∈ inner))
    have hstate : (c == '[' || (true && c != ']')) = true := by
      simpa using .inr fun h => hc h.symm
    rw [List.cons_append, splitHost, if_neg (by simp), hstate, ih hinner, List.cons_append]

theorem splitHost_renderHost (a : IpAddress) (digits : List Char) :
    splitHost false (a.renderHost ++ ':' :: digits) = (a.renderHost, ':' :: digits) := by
  cases a with
  | v4 ip =>
    exact splitHost_of_not_mem (fun h => absurd (Ipv4.mem_of_mem_renderChars h) (by decide))
      (fun h => absurd (Ipv4.mem_of_mem_renderChars h) (by decide)) digits
  | v6 ip =>
    have hclose : ']' ∉ ip.renderChars :=
      fun h => absurd (Ipv6.mem_of_mem_renderChars h) (by decide)
    simp [IpAddress.renderHost, splitHost, splitHost_brackets hclose]

theorem splitUser_of_not_mem (h : '@' ∉ text) : splitUser text = (none, text) := by
  have hdrop : text.reverse.dropWhile (· != '@') = [] := by
    have hkeep : ∀ c ∈ text.reverse, (c != '@') = true := fun c hc => by
      simpa using fun heq : c = '@' => h (heq ▸ List.mem_reverse.1 hc)
    rw [← List.append_nil text.reverse, dropWhile_append hkeep (by simp)]
  simp [splitUser, hdrop]

theorem readPort_toDigits (scheme : List Char) (port : UInt16) :
    readPort scheme (':' :: Nat.toDigits 10 port.toNat) =
      .ok (if defaultPort? scheme = some port then none else some port) := by
  have hall : (Nat.toDigits 10 port.toNat).all Char.isDigit = true :=
    List.all_eq_true.2 fun c hc => isDigit_of_mem_toDigits hc
  have hport : ¬ 65535 < port.toNat := Nat.not_lt.2 (Nat.le_of_lt_succ port.toNat_lt)
  simp [readPort, hall, digitsValue_toDigits, hport, Nat.toDigits_ne_nil]

theorem readAuthority_renderChars (scheme : List Char) (e : Endpoint) :
    readAuthority scheme e.renderChars = .ok (ofEndpoint scheme e) := by
  have huser : splitUser e.renderChars = (none, e.renderChars) :=
    splitUser_of_not_mem (e.not_mem_renderChars (by decide))
  have hhost : splitHost false e.renderChars =
      (e.address.renderHost, ':' :: Nat.toDigits 10 e.port.toNat) :=
    splitHost_renderHost e.address _
  have hne : e.address.renderHost ≠ [] := by
    cases e.address <;> simp [IpAddress.renderHost, Ipv4.renderChars]
  simp only [readAuthority, huser, hhost, readPort_toDigits]
  -- Special schemes read the host as an address, others as a name.
  cases hspecial : isSpecial scheme <;>
    simp [hne, hspecial, readSpecialHost_renderHost, readPlainHost_renderHost, ofEndpoint] <;> rfl

/-- The URL with the path, the query and the fragment that a text writes. -/
def withRest (u : Url) (text : List Char) : Url :=
  { u with
    path := readPath (isSpecial u.scheme) [] (text.takeWhile isPathChar)
    query := (readEnd (isSpecial u.scheme) (text.dropWhile isPathChar)).1
    fragment := (readEnd (isSpecial u.scheme) (text.dropWhile isPathChar)).2 }

theorem readHostAndRest_renderChars (scheme : List Char) (e : Endpoint)
    (hrest : ∀ c ∈ rest.head?, c = '/') :
    readHostAndRest scheme (e.renderChars ++ rest) = .ok ((ofEndpoint scheme e).withRest rest) := by
  have hinside : ∀ c ∈ e.renderChars, (!endsAuthority (isSpecial scheme) c) = true := by
    cases isSpecial scheme <;> exact e.forall_mem_renderChars (by decide)
  have hend : ∀ c ∈ rest.head?, (!endsAuthority (isSpecial scheme) c) = false := fun c hc => by
    simp [hrest c hc, endsAuthority, isSlash]
  simp only [readHostAndRest, takeWhile_append hinside hend, dropWhile_append hinside hend,
    readAuthority_renderChars]
  rfl

theorem head?_renderChars (e : Endpoint) :
    ∀ c ∈ (e.renderChars ++ rest).head?, isSlash true c = false := by
  have hne : e.renderChars ≠ [] := by simp [Endpoint.renderChars]
  obtain ⟨first, more, heq⟩ := List.exists_cons_of_ne_nil hne
  have hfirst := e.forall_mem_renderChars (p := fun c => !isSlash true c) (by decide) first
    (heq ▸ List.mem_cons_self)
  simpa [heq] using hfirst

/-- A scheme is followed by the endpoint that stands after two slashes, unless the scheme is
`file`. -/
theorem readAfterScheme_renderChars (hfile : isFile scheme = false) (e : Endpoint)
    (hrest : ∀ c ∈ rest.head?, c = '/') :
    readAfterScheme scheme ('/' :: '/' :: (e.renderChars ++ rest)) =
      .ok ((ofEndpoint scheme e).withRest rest) := by
  have hslashes : ('/' :: '/' :: (e.renderChars ++ rest)).dropWhile (isSlash true) =
      e.renderChars ++ rest :=
    show (['/', '/'] ++ (e.renderChars ++ rest)).dropWhile (isSlash true) = _ from
      dropWhile_append (by simp [isSlash]) (head?_renderChars e)
  rw [readAfterScheme, hfile, hslashes, ← readHostAndRest_renderChars scheme e hrest]
  simp [readPlainUrl]

def isSchemeName (text : List Char) : Bool :=
  text.head?.any Char.isAlpha && text.all isSchemeChar

theorem splitScheme?_append {name : List Char} {x : Char}
    (hname : ∀ c ∈ name, isSchemeChar c = true) (hx : isSchemeChar x = false) (rest : List Char) :
    splitScheme? (name ++ x :: rest) =
      if x = ':' ∧ name.head?.any Char.isAlpha = true then
        some (name.map Char.toLower, rest) else none := by
  have hstop : ∀ c ∈ (x :: rest).head?, isSchemeChar c = false := by simpa using hx
  rw [splitScheme?, takeWhile_append hname hstop, dropWhile_append hname hstop]
  by_cases hcolon : x = ':'
  · subst hcolon
    cases name with
    | nil => simp
    | cons first more => simp
  · rw [if_neg fun h => hcolon h.1]
    split
    · rename_i heq
      cases heq
      exact absurd rfl hcolon
    · rfl

theorem splitScheme?_append_colon (h : isSchemeName scheme = true) (rest : List Char) :
    splitScheme? (scheme ++ ':' :: rest) = some (scheme.map Char.toLower, rest) := by
  obtain ⟨hhead, hall⟩ := Bool.and_eq_true_iff.1 h
  rw [splitScheme?_append (List.all_eq_true.1 hall) (by simp [isSchemeChar]), if_pos ⟨rfl, hhead⟩]

def isEdge (c : Char) : Bool := c.toNat ≤ 0x20

def cleanFront (text : List Char) : List Char :=
  (text.dropWhile isEdge).filter (!isIgnored ·)

def cleanEnd (text : List Char) : List Char :=
  ((text.reverse.dropWhile isEdge).reverse).filter (!isIgnored ·)

theorem isEdge_of_isIgnored {c : Char} (h : isIgnored c = true) : isEdge c = true := by
  rcases (by simpa [isIgnored, or_assoc] using h : c = '\t' ∨ c = '\n' ∨ c = '\r')
    with rfl | rfl | rfl <;> decide

/-- What stands in the middle of a text, free of spaces and controls, is kept. -/
theorem clean_append (front : List Char) {body : List Char} (hne : body ≠ [])
    (hbody : ∀ c ∈ body, isEdge c = false) (rest : List Char) :
    clean (front ++ (body ++ rest)) = cleanFront front ++ (body ++ cleanEnd rest) := by
  have hhead : ∀ c ∈ (body ++ rest).head?, isEdge c = false := by
    obtain ⟨first, more, rfl⟩ := List.exists_cons_of_ne_nil hne
    simpa using hbody first List.mem_cons_self
  have hlast : ∀ c ∈ (body.reverse ++ (front.dropWhile isEdge).reverse).head?,
      isEdge c = false := by
    obtain ⟨last, more, heq⟩ := List.exists_cons_of_ne_nil (List.reverse_ne_nil_iff.2 hne)
    rw [heq]
    simpa using hbody last (List.mem_reverse.1 (heq ▸ List.mem_cons_self))
  have hkept : body.filter (!isIgnored ·) = body := by
    rw [List.filter_eq_self]
    intro c hc
    cases hignored : isIgnored c with
    | true => exact absurd (isEdge_of_isIgnored hignored) (by simp [hbody c hc])
    | false => rfl
  calc clean (front ++ (body ++ rest))
      = ((((front ++ (body ++ rest)).dropWhile isEdge).reverse.dropWhile isEdge).reverse).filter
          (!isIgnored ·) := rfl
    _ = ((rest.reverse ++ (body.reverse ++ (front.dropWhile isEdge).reverse)).dropWhile
          isEdge).reverse.filter (!isIgnored ·) := by
        rw [dropWhile_append_of_head front hhead]
        simp
    _ = cleanFront front ++ (body ++ cleanEnd rest) := by
        rw [dropWhile_append_of_head rest.reverse hlast]
        simp [cleanFront, cleanEnd, hkept]

theorem isEdge_slash : isEdge '/' = false := by decide

theorem head?_cleanEnd (hrest : ∀ c ∈ rest.head?, c = '/') :
    ∀ c ∈ (cleanEnd rest).head?, c = '/' := by
  cases rest with
  | nil => simp [cleanEnd]
  | cons first rest =>
    obtain rfl : first = '/' := hrest first rfl
    have hcut : (rest.reverse ++ ['/']).dropWhile isEdge = rest.reverse.dropWhile isEdge ++ ['/'] :=
      dropWhile_append_of_head rest.reverse (by simp [isEdge_slash])
    simp [cleanEnd, hcut, isIgnored]

theorem clean_renderChars (front : List Char) (e : Endpoint) (rest : List Char) :
    clean (front ++ ("://".toList ++ e.renderChars ++ rest)) =
      cleanFront front ++ ':' :: '/' :: '/' :: (e.renderChars ++ cleanEnd rest) := by
  have hslashes : "://".toList.all (fun c => !isEdge c) = true := by decide
  have hbody : ∀ c ∈ "://".toList ++ e.renderChars, isEdge c = false := by
    have hendpoint := e.forall_mem_renderChars (p := fun c => !isEdge c) (by decide)
    intro c hc
    rcases List.mem_append.1 hc with hc | hc
    · simpa using List.all_eq_true.1 hslashes c hc
    · simpa using hendpoint c hc
  rw [clean_append front (by simp) hbody rest]
  rfl

/-- The text of a scheme, an endpoint and a path is read as a URL that names the endpoint. -/
theorem parse_renderChars {front : List Char}
    (hname : isSchemeName (cleanFront front) = true)
    (hfile : isFile ((cleanFront front).map Char.toLower) = false) (e : Endpoint)
    (hrest : ∀ c ∈ rest.head?, c = '/') :
    parse (String.ofList (front ++ ("://".toList ++ e.renderChars ++ rest))) =
      .ok ((ofEndpoint ((cleanFront front).map Char.toLower) e).withRest (cleanEnd rest)) := by
  rw [parse, String.toList_ofList, clean_renderChars]
  simp only [splitScheme?_append_colon hname]
  exact readAfterScheme_renderChars hfile e (head?_cleanEnd hrest)

variable {p : Char → Prop}

theorem forall_mem_encodeByte (hp : ∀ c ∈ "%0123456789ABCDEF".toList, p c) (b : UInt8) :
    ∀ c ∈ Percent.encodeByte b, p c := by
  have hdigit : ∀ n < 16, Percent.hexDigit n ∈ "%0123456789ABCDEF".toList := by decide
  have hb := b.toNat_lt
  simp only [Percent.encodeByte, List.mem_cons, List.not_mem_nil, or_false, forall_eq_or_imp,
    forall_eq]
  exact ⟨hp _ (by decide), hp _ (hdigit _ (by omega)), hp _ (hdigit _ (by omega))⟩

theorem forall_mem_encodeChar {inSet : Char → Bool} {c : Char}
    (hp : ∀ c ∈ "%0123456789ABCDEF".toList, p c) (hc : inSet c = false → p c) :
    ∀ c' ∈ Percent.encodeChar inSet c, p c' := by
  unfold Percent.encodeChar
  split
  · intro c' hmem
    obtain ⟨b, -, hb⟩ := List.mem_flatMap.1 hmem
    exact forall_mem_encodeByte hp b c' hb
  · rename_i hkept
    simpa using hc (by simpa using hkept)

theorem forall_mem_encode {inSet : Char → Bool} {text : List Char}
    (hp : ∀ c ∈ "%0123456789ABCDEF".toList, p c) (htext : ∀ c, inSet c = false → p c) :
    ∀ c ∈ Percent.encode inSet text, p c := by
  intro c hc
  obtain ⟨c', -, hc'⟩ := List.mem_flatMap.1 hc
  exact forall_mem_encodeChar hp (htext c') c hc'

def AllSegments (p : Char → Prop) (segments : List (List Char)) : Prop :=
  ∀ segment ∈ segments, ∀ c ∈ segment, p c

theorem allSegments_pushSegment {last : Bool} {segment : List Char} {above : List (List Char)}
    (hsegment : ∀ c ∈ segment, p c) (habove : AllSegments p above) :
    AllSegments p (pushSegment last segment above) := by
  have htail : AllSegments p above.tail := fun s hs => habove s (List.mem_of_mem_tail hs)
  have hcons : ∀ {s : List Char} {l : List (List Char)}, (∀ c ∈ s, p c) → AllSegments p l →
      AllSegments p (s :: l) := fun hs hl => List.forall_mem_cons.2 ⟨hs, hl⟩
  unfold pushSegment
  split
  · split
    · exact hcons (by simp) htail
    · exact htail
  · split
    · split
      · exact hcons (by simp) habove
      · exact habove
    · exact hcons hsegment habove

theorem allSegments_scanSegments {special : Bool} {piece text : List Char}
    {above : List (List Char)} (hp : ∀ c ∈ "%0123456789ABCDEF".toList, p c)
    (hkept : ∀ c, Percent.inPath c = false → isSlash special c = false → p c)
    (hpiece : ∀ c ∈ piece, p c) (habove : AllSegments p above) :
    AllSegments p (scanSegments special piece above text) := by
  have hreverse : ∀ c ∈ piece.reverse, p c := by simpa using hpiece
  -- The piece that is being read and the segments before it both keep the property.
  induction text generalizing piece above with
  | nil =>
    intro segment hsegment
    exact allSegments_pushSegment hreverse habove segment (List.mem_reverse.1 hsegment)
  | cons c text ih =>
    rw [scanSegments]
    split
    · exact ih (by simp) (allSegments_pushSegment hreverse habove) (by simp)
    · rename_i hslash
      have hencoded : ∀ c' ∈ Percent.encodeChar Percent.inPath c, p c' :=
        forall_mem_encodeChar hp fun hc => hkept c hc (by simpa using hslash)
      have hnext : ∀ c' ∈ (Percent.encodeChar Percent.inPath c).reverse ++ piece, p c' := by
        intro c' hc'
        rcases List.mem_append.1 hc' with hc' | hc'
        · exact hencoded c' (List.mem_reverse.1 hc')
        · exact hpiece c' hc'
      exact ih hnext habove (by simpa [or_comm] using hnext)

theorem pushSegment_ne_nil (segment : List Char) (above : List (List Char)) :
    pushSegment true segment above ≠ [] := by
  simp only [pushSegment, if_true]
  repeat' split
  all_goals simp

theorem scanSegments_ne_nil (special : Bool) (piece text : List Char) (above : List (List Char)) :
    scanSegments special piece above text ≠ [] := by
  induction text generalizing piece above with
  | nil => simpa [scanSegments] using pushSegment_ne_nil piece.reverse above
  | cons c text ih =>
    rw [scanSegments]
    split
    · exact ih _ _
    · exact ih _ _

theorem exists_segments_readPath (text : List Char) :
    ∃ segments, readPath true [] text = .segments segments ∧ segments ≠ [] ∧
      AllSegments (fun c => c ≠ '?' ∧ c ≠ '#') segments := by
  have hkept : ∀ c, Percent.inPath c = false → isSlash true c = false → c ≠ '?' ∧ c ≠ '#' := by
    intro c hc _
    constructor <;> rintro rfl <;> exact absurd hc (by decide)
  have hquestion : '?' ∉ "%0123456789ABCDEF".toList := by decide
  have hnumber : '#' ∉ "%0123456789ABCDEF".toList := by decide
  cases text with
  | nil => exact ⟨[[]], rfl, by simp, by simp [AllSegments]⟩
  | cons c text =>
    exact ⟨_, rfl, scanSegments_ne_nil _ _ _ _,
      allSegments_scanSegments (fun c hc => ⟨fun h => hquestion (h ▸ hc), fun h => hnumber (h ▸ hc)⟩)
        hkept (by simp) (by simp [AllSegments])⟩

theorem renderPath_readPath (text : List Char) :
    (renderPath (readPath true [] text)).head? = some '/' ∧
      '?' ∉ renderPath (readPath true [] text) ∧ '#' ∉ renderPath (readPath true [] text) := by
  obtain ⟨segments, hread, hne, hall⟩ := exists_segments_readPath text
  rw [hread, renderPath]
  refine ⟨?_, ?_, ?_⟩
  · obtain ⟨first, more, rfl⟩ := List.exists_cons_of_ne_nil hne
    simp
  · simpa using fun segment hsegment hmem => (hall segment hsegment '?' hmem).1 rfl
  · simpa using fun segment hsegment hmem => (hall segment hsegment '#' hmem).2 rfl

end Url

end MachineFleet
