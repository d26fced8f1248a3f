import MachineFleet.Proofs.Probe.Target

namespace MachineFleet

/-- The text names the address as the host of a URL does: an IPv4 address in dotted form, an IPv6
address in brackets, by some text that is read as that address. -/
def IsHostText (text : List Char) : IpAddress → Prop
  | .v4 ip => text = ip.renderChars
  | .v6 ip => ∃ inner, text = '[' :: inner ++ [']'] ∧ Ipv6.parseChars? inner = some ip

theorem isHostText_renderHost_ofAddress (address : IpAddress) :
    IsHostText (Url.renderHost (.ofAddress true address)) address := by
  cases address with
  | v4 ip => rfl
  -- A URL writes an IPv4-mapped address in groups, other than the text that it was read from.
  | v6 ip => exact ⟨Ipv6.compress ip.groups, rfl, Ipv6.parseChars?_compress ip⟩

namespace Url

variable {scheme : String}

def IsWebScheme (scheme : String) : Prop := scheme = "http" ∨ scheme = "https"

/-- The URL asks the server at the endpoint under the scheme of this name, with nobody's
credentials. Its text says the same: the host stands between the two slashes and the port or, where
the port is the default of the scheme and left out, the slash of the path. -/
structure Asks (u : Url) (name : String) (e : Endpoint) : Prop where
  scheme : u.scheme = name.toList
  host : ∃ host, u.host = some host ∧ host.address? = some e.address ∧
    IsHostText (renderHost host) e.address
  port : u.knownPort? = some e.port
  username : u.username = []
  password : u.password = []
  text : ∃ host path, u.host = some host ∧ path.head? = some '/' ∧
    u.renderChars = name.toList ++ "://".toList ++ renderHost host ++
      (if defaultPort? name.toList = some e.port then [] else renderPort (some e.port)) ++ path

theorem cleanFront_of_isWebScheme (h : IsWebScheme scheme) :
    cleanFront scheme.toList = scheme.toList := by
  rcases h with rfl | rfl <;> decide

theorem special_of_isWebScheme (h : IsWebScheme scheme) :
    isSchemeName scheme.toList = true ∧ scheme.toList.map Char.toLower = scheme.toList ∧
      isFile scheme.toList = false ∧ isSpecial scheme.toList = true := by
  rcases h with rfl | rfl <;> decide

theorem asks_withRest (h : IsWebScheme scheme) (e : Endpoint) (rest : List Char) :
    ((ofEndpoint scheme.toList e).withRest rest).Asks scheme e where
  scheme := rfl
  host := by
    have hspecial : isSpecial scheme.toList = true := (special_of_isWebScheme h).2.2.2
    have haddress := UrlHost.address?_ofAddress true e.address
    have htext := isHostText_renderHost_ofAddress e.address
    exact ⟨.ofAddress true e.address, by simp [withRest, ofEndpoint, hspecial], haddress, htext⟩
  port := knownPort?_ofEndpoint _ e
  username := rfl
  password := rfl
  text := by
    -- A special URL has a path of segments, whose text begins with a slash.
    have hspecial : isSpecial scheme.toList = true := (special_of_isWebScheme h).2.2.2
    obtain ⟨hslash, -, -⟩ := renderPath_readPath (rest.takeWhile isPathChar)
    have hport : renderPort (ofEndpoint scheme.toList e).port =
        if defaultPort? scheme.toList = some e.port then [] else renderPort (some e.port) := by
      rw [ofEndpoint]
      split <;> rfl
    refine ⟨.ofAddress true e.address,
      renderPath (readPath true [] (rest.takeWhile isPathChar)) ++
        renderQuery (readEnd true (rest.dropWhile isPathChar)).1 ++
        renderFragment (readEnd true (rest.dropWhile isPathChar)).2,
      by simp [withRest, ofEndpoint, hspecial], ?_, ?_⟩
    · rw [List.append_assoc, List.head?_append, hslash, Option.some_or]
    · rw [← hport]
      simp [renderChars, renderAuthority, renderUser, withRest, ofEndpoint, hspecial]

end Url

namespace HttpGet

open Url

theorem url_of_isWebScheme {g : HttpGet} (h : IsWebScheme g.scheme) :
    g.url = .ok ((ofEndpoint g.scheme.toList g.endpoint).withRest (cleanEnd g.pathChars)) := by
  obtain ⟨hname, hlower, hfile, -⟩ := special_of_isWebScheme h
  -- Neither the cleaning of the text nor the lowering of the scheme changes its name.
  have hclean := cleanFront_of_isWebScheme h
  have hnamed : isSchemeName (cleanFront g.scheme.toList) = true := by rwa [hclean]
  have hserver : isFile ((cleanFront g.scheme.toList).map Char.toLower) = false := by
    rwa [hclean, hlower]
  have hread := parse_renderChars hnamed hserver g.endpoint g.head?_pathChars
  rw [hclean, hlower, ← urlText_eq] at hread
  exact url_eq_ok.2 hread

theorem pathChars_slash_append (g : HttpGet) (h : g.path.toList.head? ≠ some '/') :
    { g with path := "/" ++ g.path }.pathChars = g.pathChars := by
  simp [pathChars, h]

/-- Under `http` and `https` there is a URL for every address, every port and every path, and it
asks that address and port under that scheme and with nobody's credentials, whatever the path holds.
A path that is given without its leading slash gives the URL of the path that has it. -/
theorem webUrl_asks_its_server {scheme : String} (hscheme : IsWebScheme scheme) (host : IpAddress)
    (port : UInt16) (path : String) :
    (∃ u, (HttpGet.mk scheme host port path).url = .ok u ∧ u.Asks scheme ⟨host, port⟩) ∧
      (path.toList.head? ≠ some '/' →
        (HttpGet.mk scheme host port path).url =
          (HttpGet.mk scheme host port ("/" ++ path)).url) := by
  constructor
  · exact ⟨_, url_of_isWebScheme hscheme, asks_withRest hscheme ⟨host, port⟩ _⟩
  · intro hbare
    have hsame := pathChars_slash_append ⟨scheme, host, port, path⟩ hbare
    rw [url_of_isWebScheme (g := ⟨scheme, host, port, path⟩) hscheme,
      url_of_isWebScheme (g := ⟨scheme, host, port, "/" ++ path⟩) hscheme, hsame]
    rfl

/-- The hardest case: an IPv4-mapped address, the default port, and a path without a slash that
writes dots, a backslash, a user, another host and port, a query, a fragment and a control. -/
theorem webUrl_of_mapped_address :
    let mapped : IpAddress := .v6 ⟨[0, 0, 0, 0, 0, 0xFFFF, 0x0A00, 2], by decide⟩
    let path := "..\\@10.9.9.9:1/?q=a b#f\t"
    (∃ u, (HttpGet.mk "https" mapped 443 path).url = .ok u ∧ u.Asks "https" ⟨mapped, 443⟩) ∧
      (HttpGet.mk "https" mapped 443 path).url = (HttpGet.mk "https" mapped 443 ("/" ++ path)).url :=
  have h := webUrl_asks_its_server (.inr rfl) (.v6 ⟨[0, 0, 0, 0, 0, 0xFFFF, 0x0A00, 2], by decide⟩) 443
    "..\\@10.9.9.9:1/?q=a b#f\t"
  ⟨h.1, h.2 (by decide)⟩

end HttpGet

end MachineFleet
