import MachineFleet.Probe
import MachineFleet.Proofs.Config
import MachineFleet.Proofs.Net.Url
import MachineFleet.Proofs.Probe

/-!
Where the URL of a probe points. Scheme, address, port and path are put together as text and read
again as a URL. The URL names the address and the port exactly if the scheme, once cleaned, is the
name of a scheme with servers; any other text in its place ends the URL's host before the address is
reached.
-/
namespace MachineFleet

namespace Url

variable {u : Url} {front rest after : List Char} {e : Endpoint}

structure Names (u : Url) (address : IpAddress) (port : UInt16) : Prop where
  host : u.host.bind UrlHost.address? = some address
  port : u.knownPort? = some port

theorem names_withRest (scheme : List Char) (e : Endpoint) (rest : List Char) :
    ((ofEndpoint scheme e).withRest rest).Names e.address e.port where
  host := UrlHost.address?_ofAddress (isSpecial scheme) e.address
  port := knownPort?_ofEndpoint scheme e

/-- Whether the text, without what counts for nothing at its front, is the name of a scheme whose
URLs name a server and its port. The URLs of `file` name no port. -/
def isServerScheme (text : String) : Bool :=
  let name := cleanFront text.toList
  isSchemeName name && !isFile (name.map Char.toLower)

/-- The host that is read depends on what stands in front of a colon and a slash alone. -/
def FixesHost (read : List Char → Except Fault Url) (front : List Char) : Prop :=
  ∃ host, ∀ after, (read (front ++ ':' :: '/' :: after)).map (·.host) = host

theorem takeWhile_colon_slash (special : Bool) (front after : List Char) :
    (front ++ ':' :: '/' :: after).takeWhile (!endsAuthority special ·) =
      (front ++ [':']).takeWhile (!endsAuthority special ·) := by
  have h := takeWhile_append_of_not (p := (!endsAuthority special ·)) (x := '/') (front ++ [':'])
    (by simp [endsAuthority, isSlash]) after
  simpa using h

theorem fixesHost_readHostAndRest (scheme front : List Char) :
    FixesHost (readHostAndRest scheme) front := by
  refine ⟨(readAuthority scheme ((front ++ [':']).takeWhile
    (!endsAuthority (isSpecial scheme) ·))).map (·.host), fun after => ?_⟩
  rw [readHostAndRest, takeWhile_colon_slash]
  cases readAuthority scheme ((front ++ [':']).takeWhile (!endsAuthority (isSpecial scheme) ·)) <;>
    rfl

def fileHost : List Char → List Char
  | a :: b :: rest =>
    if isSlash true a && isSlash true b then rest.takeWhile (!endsAuthority true ·) else []
  | _ => []

def readFileHost (text : List Char) : Except Fault (Option UrlHost) :=
  (if text.isEmpty then .ok (.name []) else readSpecialHost text).map fun host =>
    some (if host = .name "localhost".toList then .name [] else host)

theorem host_readFileUrl (text : List Char) :
    (readFileUrl text).map (·.host) = readFileHost (fileHost text) := by
  match text with
  | [] => rfl
  | [a] => rfl
  | a :: b :: rest =>
    unfold readFileUrl fileHost readFileHost
    dsimp only
    by_cases hslashes : (isSlash true a && isSlash true b) = true
    · simp only [hslashes, if_true]
      by_cases hempty : (rest.takeWhile (!endsAuthority true ·)).isEmpty = true
      · simp only [hempty, if_true]
        rfl
      · simp only [hempty]
        cases readSpecialHost (rest.takeWhile (!endsAuthority true ·)) <;> rfl
    · simp only [hslashes]
      rfl

theorem readSpecialHost_of_colon {text : List Char} (hcolon : ':' ∈ text) (hpercent : '%' ∉ text)
    (hbracket : text.head? ≠ some '[') : readSpecialHost text = .error .invalidName := by
  have hmem : ':' ∈ text.map Char.toLower := List.mem_map.2 ⟨':', hcolon, by decide⟩
  have hforbidden : (text.map Char.toLower).any
      (fun c => isForbiddenInName c || decide (0x7F < c.toNat)) = true :=
    List.any_eq_true.2 ⟨':', hmem, by decide⟩
  have hne : (text.map Char.toLower).isEmpty = false := by
    simpa using List.ne_nil_of_mem hcolon
  unfold readSpecialHost
  split
  · exact absurd rfl hbracket
  · simp only [Percent.decode_of_not_mem hpercent, Utf8.decode?_encode, hforbidden, hne, if_true,
      Bool.false_eq_true, if_false]

theorem host_readFileUrl_renderChars (ip : Ipv4) (port : UInt16)
    (hrest : ∀ c ∈ rest.head?, c = '/') :
    (readFileUrl ('/' :: '/' :: ((⟨.v4 ip, port⟩ : Endpoint).renderChars ++ rest))).map (·.host) =
      .error .invalidName := by
  have hbracket : '[' ∉ (⟨.v4 ip, port⟩ : Endpoint).renderChars := by
    have hdots : '[' ∉ ip.renderChars :=
      fun h => absurd (Ipv4.mem_of_mem_renderChars h) (by decide)
    have hdigits : '[' ∉ Nat.toDigits 10 port.toNat :=
      fun h => absurd (mem_decimals_of_mem_toDigits h) (by decide)
    simp [Endpoint.renderChars, IpAddress.renderHost, hdots, hdigits]
  generalize (⟨.v4 ip, port⟩ : Endpoint) = e at hbracket ⊢
  have hhost : fileHost ('/' :: '/' :: (e.renderChars ++ rest)) = e.renderChars :=
    takeWhile_append (e.forall_mem_renderChars (by decide)) fun c hc => by
      simp [hrest c hc, endsAuthority, isSlash]
  have hcolon : ':' ∈ e.renderChars := by simp [Endpoint.renderChars]
  rw [host_readFileUrl, hhost, readFileHost, readSpecialHost_of_colon hcolon
    (e.not_mem_renderChars (by decide)) fun h => hbracket (List.mem_of_mem_head? h),
    if_neg (by simpa using List.ne_nil_of_mem hcolon)]
  rfl

theorem fixesHost_readFileUrl (front : List Char) : FixesHost readFileUrl front := by
  have hcolon : isSlash true ':' = false := by decide
  have hfixed : ∃ host, ∀ after, fileHost (front ++ ':' :: '/' :: after) = host := by
    match front with
    | [] => exact ⟨[], fun after => by simp [fileHost, hcolon]⟩
    | [a] => exact ⟨[], fun after => by simp [fileHost, hcolon]⟩
    | a :: b :: front =>
      refine ⟨fileHost (a :: b :: (front ++ [':'])), fun after => ?_⟩
      rw [List.cons_append, List.cons_append, fileHost, fileHost, takeWhile_colon_slash]
  obtain ⟨host, hhost⟩ := hfixed
  exact ⟨readFileHost host, fun after => by rw [host_readFileUrl, hhost]⟩

theorem fixesHost_readPlainUrl (scheme front : List Char) :
    FixesHost (readPlainUrl scheme) front := by
  match front with
  | [] => exact ⟨.ok none, fun after => rfl⟩
  | [a] =>
    refine ⟨.ok none, fun after => ?_⟩
    unfold readPlainUrl
    split
    · rename_i heq
      cases heq
    · rfl
  | a :: b :: front =>
    by_cases hslashes : a = '/' ∧ b = '/'
    · obtain ⟨rfl, rfl⟩ := hslashes
      obtain ⟨host, hhost⟩ := fixesHost_readHostAndRest scheme front
      exact ⟨host, hhost⟩
    · refine ⟨.ok none, fun after => ?_⟩
      unfold readPlainUrl
      split
      · rename_i heq
        cases heq
        exact absurd ⟨rfl, rfl⟩ hslashes
      · rfl

theorem fixesHost_readAfterScheme (scheme front : List Char) :
    FixesHost (readAfterScheme scheme) front := by
  by_cases hfile : isFile scheme = true
  · obtain ⟨host, hhost⟩ := fixesHost_readFileUrl front
    exact ⟨host, fun after => by rw [readAfterScheme, if_pos hfile, hhost]⟩
  · by_cases hspecial : isSpecial scheme = true
    · -- However many slashes are dropped, the colon stops them.
      obtain ⟨host, hhost⟩ := fixesHost_readHostAndRest scheme (front.dropWhile (isSlash true))
      refine ⟨host, fun after => ?_⟩
      rw [readAfterScheme, if_neg hfile, if_pos hspecial,
        dropWhile_append_of_head front (by simp [isSlash]), hhost]
    · obtain ⟨host, hhost⟩ := fixesHost_readPlainUrl scheme front
      exact ⟨host, fun after => by rw [readAfterScheme, if_neg hfile, if_neg hspecial, hhost]⟩

/-- A text that is no name of a scheme has none in front, or one that a colon of the text ends. -/
theorem splitScheme?_of_not_isSchemeName (h : isSchemeName front = false) :
    (∀ after, splitScheme? (front ++ ':' :: after) = none) ∨
      ∃ scheme more, ∀ after,
        splitScheme? (front ++ ':' :: after) = some (scheme, more ++ ':' :: after) := by
  have hsplit := List.takeWhile_append_dropWhile (p := isSchemeChar) (l := front)
  have hname : ∀ c ∈ front.takeWhile isSchemeChar, isSchemeChar c = true :=
    List.all_eq_true.1 List.all_takeWhile
  generalize front.takeWhile isSchemeChar = name at hsplit hname
  -- What decides is the first character that cannot stand in a name.
  cases hrest : front.dropWhile isSchemeChar with
  | nil =>
    obtain rfl : name = front := by simpa [hrest] using hsplit
    -- All characters may stand in a name, so no letter begins the text.
    have hfirst : ¬ (name.head?.any Char.isAlpha = true) := by
      simpa [isSchemeName, List.all_eq_true.2 hname] using h
    exact .inl fun after => by
      rw [splitScheme?_append hname (by simp [isSchemeChar]), if_neg fun h => hfirst h.2]
  | cons x more =>
    have hx : isSchemeChar x = false := by
      have hhead := List.head?_dropWhile_not isSchemeChar front
      rw [hrest] at hhead
      exact hhead
    have htext (after : List Char) :
        front ++ ':' :: after = name ++ x :: (more ++ ':' :: after) := by
      rw [← hsplit, hrest]
      simp
    by_cases hscheme : x = ':' ∧ name.head?.any Char.isAlpha = true
    · exact .inr ⟨_, more, fun after => by
        rw [htext, splitScheme?_append hname hx, if_pos hscheme]⟩
    · exact .inl fun after => by rw [htext, splitScheme?_append hname hx, if_neg hscheme]

def parseClean (text : List Char) : Except Fault Url :=
  match splitScheme? text with
  | some (scheme, rest) => readAfterScheme scheme rest
  | none => .error .noBase

theorem fixesHost_parseClean (h : isSchemeName front = false) : FixesHost parseClean front := by
  rcases splitScheme?_of_not_isSchemeName h with hnone | ⟨scheme, more, hsome⟩
  · exact ⟨.error .noBase, fun after => by rw [parseClean, hnone]; rfl⟩
  · obtain ⟨host, hhost⟩ := fixesHost_readAfterScheme scheme more
    exact ⟨host, fun after => by rw [parseClean, hsome, ← hhost]⟩

end Url

namespace HttpGet

open Url

variable {g : HttpGet}

def pathChars (g : HttpGet) : List Char :=
  if g.path.toList.head? = some '/' then g.path.toList else '/' :: g.path.toList

theorem head?_pathChars (g : HttpGet) : ∀ c ∈ g.pathChars.head?, c = '/' := by
  unfold pathChars
  split
  · rename_i h
    simp [h]
  · simp

def endpoint (g : HttpGet) : Endpoint := ⟨g.host, g.port⟩

theorem urlText_eq (g : HttpGet) :
    g.urlText = String.ofList
      (g.scheme.toList ++ ("://".toList ++ g.endpoint.renderChars ++ g.pathChars)) := by
  rw [← String.ofList_toList (s := g.urlText)]
  congr 1
  unfold urlText pathChars
  split <;> simp [endpoint, Endpoint.renderChars, Nat.repr_eq_ofList_toDigits, *]

theorem url_eq_ok {u : Url} : g.url = .ok u ↔ Url.parse g.urlText = .ok u :=
  mapError_eq_ok

theorem names_of_isServerScheme (h : isServerScheme g.scheme = true) :
    ∃ u, g.url = .ok u ∧ u.Names g.host g.port := by
  obtain ⟨hname, hfile⟩ := Bool.and_eq_true_iff.1 h
  have hread := parse_renderChars hname (by simpa using hfile) g.endpoint g.head?_pathChars
  rw [← urlText_eq] at hread
  exact ⟨_, url_eq_ok.2 hread, names_withRest _ g.endpoint _⟩

theorem parse_urlText (g : HttpGet) :
    Url.parse g.urlText = parseClean (cleanFront g.scheme.toList ++
      ':' :: '/' :: '/' :: (g.endpoint.renderChars ++ cleanEnd g.pathChars)) := by
  rw [urlText_eq, Url.parse, String.toList_ofList, clean_renderChars]
  rfl

theorem isServerScheme_of_names
    (h : ∀ host, ∃ u, { g with host }.url = .ok u ∧ u.Names host g.port) :
    isServerScheme g.scheme = true := by
  by_cases hname : isSchemeName (cleanFront g.scheme.toList) = true
  · cases hfile : isFile ((cleanFront g.scheme.toList).map Char.toLower) with
    | false => simp [isServerScheme, hname, hfile]
    | true =>
      obtain ⟨u, hu, -⟩ := h (.v4 default)
      rw [url_eq_ok, parse_urlText] at hu
      simp only [parseClean, splitScheme?_append_colon hname, readAfterScheme, hfile, if_true] at hu
      have hhost := host_readFileUrl_renderChars default g.port (head?_cleanEnd g.head?_pathChars)
      cases hhost.symm.trans (congrArg (Except.map (·.host)) hu)
  · -- The host is read before the address is reached, so two addresses would be one.
    obtain ⟨fixed, hfixed⟩ := fixesHost_parseClean (by simpa using hname)
    have hsame (host : IpAddress) :
        ∃ found, fixed = .ok found ∧ found.bind UrlHost.address? = some host := by
      obtain ⟨u, hu, hnames⟩ := h host
      rw [url_eq_ok, parse_urlText] at hu
      refine ⟨u.host, ?_, hnames.host⟩
      rw [← hfixed, hu]
      rfl
    obtain ⟨found, hfound, hone⟩ := hsame (.v4 (.ofNat 0))
    obtain ⟨found', hfound', hother⟩ := hsame (.v4 (.ofNat 1))
    obtain rfl := Except.ok.inj (hfound.symm.trans hfound')
    exact absurd (hone.symm.trans hother) (by decide)

end HttpGet

theorem Probe.exists_spawn {spec : ProbeSpec} {u : Url} (hu : spec.url = .ok u)
    (hperiod : 0 < spec.period) (machine : Metadata) (now : Instant) :
    ∃ p, Probe.spawn spec machine now = .ok p ∧ p.url = u := by
  have hticker : Ticker.new spec.period spec.initialDelay =
      .ok ⟨spec.initialDelay, spec.period, hperiod, .idle⟩ := by
    rw [Ticker.new, dif_pos hperiod]
  simp only [spawn, hu, hticker, bind, Except.bind]
  exact ⟨_, rfl, rfl⟩

namespace ProbeConfig

variable {c : ProbeConfig}

def httpGet (c : ProbeConfig) (host : IpAddress) : HttpGet := ⟨c.scheme, host, c.port, c.path⟩

theorem url_toSpec (c : ProbeConfig) (host : IpAddress) :
    (c.toSpec host).url = (c.httpGet host).url := rfl

/-- Every machine can be probed, at its own address and at the port of the settings. -/
def Reaches (c : ProbeConfig) : Prop :=
  ∀ (machine : Metadata) (now : Instant), ∃ p,
    Probe.spawn (c.toSpec machine.address) machine now = .ok p ∧
      p.url.Names machine.address c.port

theorem reaches_iff (hperiod : 0 < c.periodMs.toNat) :
    c.Reaches ↔ Url.isServerScheme c.scheme = true := by
  have hpositive (host : IpAddress) : 0 < (c.toSpec host).period := by
    simp only [toSpec, Duration.ofMillis]
    exact Nat.mul_pos hperiod (by decide)
  constructor
  · intro h
    refine HttpGet.isServerScheme_of_names (g := c.httpGet default) fun host => ?_
    obtain ⟨p, hspawn, hnames⟩ := h ⟨"", host⟩ 0
    have hurl := (Probe.spawn_eq_ok hspawn).1
    rw [url_toSpec] at hurl
    exact ⟨p.url, hurl, hnames⟩
  · intro h machine now
    obtain ⟨u, hu, hnames⟩ :=
      HttpGet.names_of_isServerScheme (g := c.httpGet machine.address) h
    rw [← url_toSpec] at hu
    obtain ⟨p, hspawn, rfl⟩ := Probe.exists_spawn hu (hpositive _) machine now
    exact ⟨p, hspawn, hnames⟩

end ProbeConfig

end MachineFleet
