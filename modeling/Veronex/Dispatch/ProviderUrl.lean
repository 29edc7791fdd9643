import Mathlib
import Veronex.Domain.Values
import Veronex.Foundation.IpText

/-! # The URL of a provider

`validate_provider_url` and `make_adapter` of `provider_router.rs`. The parser of URLs is a parameter:
it finds the host, a domain, an IPv4 address however that is written, or an IPv6 address between
brackets.

`guarded_iff`: for which URLs the hosts that are to be blocked are.
-/
namespace Veronex.ProviderRouter
set_option autoImplicit false
open IpText

/-! ## Hosts -/

inductive Host
  | domain (name : List Char) (hname : ':' ∉ name)
  | ipv4 (addr : Ipv4Addr)
  | ipv6 (addr : Ipv6Addr)

def isIpv6Char (c : Char) : Bool := c = ':' || c = '.' || (digitOf 16 c).isSome

structure UrlParser where
  /-- `none`: no URL. Not every URL has a host. -/
  host : String → Option (Option Host)
  ipv6Text : Ipv6Addr → List Char
  ipv6Text_chars : ∀ addr, (ipv6Text addr).all isIpv6Char = true

def metadataHost : List Char := "metadata.google.internal".toList

/-- In lower case, without the dot of the root. -/
def canonicalName (name : List Char) : List Char :=
  let lower := name.map Char.toLower
  if lower.getLast? = some '.' then lower.dropLast else lower

/-- An IPv6 address of a host that is to be blocked. -/
def BlockedIpv6 (addr : Ipv6Addr) : Prop :=
  addr.isLinkLocal = true ∨
    ((addr.isMapped = true ∨ addr.isCompatible = true) ∧ addr.low.isLinkLocal = true)

/-- The link-local addresses and the names of metadata services, in every form. -/
def Host.Blocked : Host → Prop
  | .domain name _ => canonicalName name = metadataHost ∨
      ∃ addr, parseIp name = some (.v4 addr) ∧ addr.isLinkLocal = true
  | .ipv4 addr => addr.isLinkLocal = true
  | .ipv6 addr => BlockedIpv6 addr

/-- Hosts to be blocked in a form that is not looked for. -/
def Host.Overlooked : Host → Prop
  | .domain name _ => canonicalName name = metadataHost ∧ name ≠ metadataHost
  | .ipv4 _ => False
  | .ipv6 addr => BlockedIpv6 addr

section Router
variable (parser : UrlParser)

/-- `Url::host_str` -/
def hostStr : Host → List Char
  | .domain name _ => name
  | .ipv4 addr => addr.text
  | .ipv6 addr => '[' :: (parser.ipv6Text addr ++ [']'])

/-! ## The check and the adapters -/

def validateProviderUrl (urlStr : String) : Except String Unit := do
  let parsed ← match parser.host urlStr with
    | some parsed => pure parsed
    | none => throw "invalid provider URL"
  let host ← match parsed with
    | some host => pure (hostStr parser host)
    | none => throw "provider URL has no host"
  if host = "169.254.169.254".toList ∨ host = metadataHost then
    throw "metadata service URLs are not allowed as provider endpoints"
  if ".svc.cluster.local".toList <:+: host then
    throw "internal Kubernetes service URLs are not allowed as provider endpoints"
  match parseIp host with
  | some (.v4 v4) =>
    if v4.isLinkLocal then throw "link-local addresses are not allowed as provider endpoints"
  | some (.v6 v6) =>
    if v6.isLinkLocal then throw "IPv6 link-local addresses are not allowed as provider endpoints"
  | none => pure ()

structure LlmProvider where
  id : Uuid
  providerType : ProviderType
  url : String
  apiKeyEncrypted : Option String

/-- `Valkey` and `Vram` are the pools an adapter may share. -/
inductive Adapter (Valkey Vram : Type)
  | blocked (reason : String)
  | ollama (url : String) (ctxCache : Option (Valkey × Uuid)) (vramPool : Option Vram)
  | gemini (key : String)

def makeAdapter {Valkey Vram : Type} (cfg : LlmProvider) (valkey : Option Valkey)
    (vramPool : Option Vram) : Adapter Valkey Vram :=
  match cfg.providerType with
  | .ollama =>
    match validateProviderUrl parser cfg.url with
    | .error e => .blocked e
    | .ok _ => .ollama cfg.url (valkey.map fun pool => (pool, cfg.id)) vramPool
  | .gemini => .gemini (cfg.apiKeyEncrypted.getD "")

/-- The adapter sends requests to the URL. -/
def Adapter.SendsTo {Valkey Vram : Type} (url : String) : Adapter Valkey Vram → Prop
  | .ollama base _ _ => base = url
  | .blocked _ | .gemini _ => False

/-- A URL with a host that is to be blocked is refused, and gets no adapter. -/
def Guarded (url : String) : Prop :=
  ∀ host, parser.host url = some (some host) → host.Blocked →
    validateProviderUrl parser url ≠ .ok () ∧
      ∀ (Valkey Vram : Type) (cfg : LlmProvider) (valkey : Option Valkey) (vramPool : Option Vram),
        ¬ (makeAdapter parser cfg valkey vramPool).SendsTo url

/-! ## What the check accepts -/

variable {parser} {url : String} {host : Host}

theorem validate_eq (hhost : parser.host url = some (some host)) :
    validateProviderUrl parser url =
      if hostStr parser host = "169.254.169.254".toList ∨ hostStr parser host = metadataHost then
        .error "metadata service URLs are not allowed as provider endpoints"
      else if ".svc.cluster.local".toList <:+: hostStr parser host then
        .error "internal Kubernetes service URLs are not allowed as provider endpoints"
      else match parseIp (hostStr parser host) with
        | some (.v4 v4) =>
          if v4.isLinkLocal then .error "link-local addresses are not allowed as provider endpoints"
          else .ok ()
        | some (.v6 v6) =>
          if v6.isLinkLocal then
            .error "IPv6 link-local addresses are not allowed as provider endpoints"
          else .ok ()
        | none => .ok () := by
  unfold validateProviderUrl
  rw [hhost]
  dsimp only [pure, bind, Except.pure, Except.bind]
  split
  · rfl
  · split
    · rfl
    · split
      · split <;> rfl
      · split <;> rfl
      · rfl

/-- A host that is no address is accepted by its name. -/
theorem validate_of_name (hhost : parser.host url = some (some host))
    (hip : hostStr parser host ≠ "169.254.169.254".toList) (hmeta : hostStr parser host ≠ metadataHost)
    (hsvc : ¬ ".svc.cluster.local".toList <:+: hostStr parser host)
    (hparse : parseIp (hostStr parser host) = none) : validateProviderUrl parser url = .ok () := by
  rw [validate_eq hhost, if_neg (not_or.mpr ⟨hip, hmeta⟩), if_neg hsvc, hparse]

/-- A link-local IPv4 address is refused. -/
theorem validate_of_v4 (hhost : parser.host url = some (some host)) {addr : Ipv4Addr}
    (hparse : parseIp (hostStr parser host) = some (.v4 addr)) (hlocal : addr.isLinkLocal = true) :
    validateProviderUrl parser url ≠ .ok () := by
  rw [validate_eq hhost, hparse]
  split
  · simp
  · split
    · simp
    · simp [hlocal]

theorem validate_of_metadata (hhost : parser.host url = some (some host))
    (hmeta : hostStr parser host = metadataHost) : validateProviderUrl parser url ≠ .ok () := by
  rw [validate_eq hhost, if_pos (.inr hmeta)]
  simp

theorem metadataHost_chars : metadataHost =
    ['m', 'e', 't', 'a', 'd', 'a', 't', 'a', '.', 'g', 'o', 'o', 'g', 'l', 'e', '.', 'i', 'n', 't', 'e',
      'r', 'n', 'a', 'l'] := by
  decide +kernel

/-- The brackets hide an IPv6 address from the check. -/
theorem validate_of_ipv6 {addr : Ipv6Addr} (hhost : parser.host url = some (some (.ipv6 addr))) :
    validateProviderUrl parser url = .ok () := by
  have hs : 's' ∉ hostStr parser (.ipv6 addr) := by
    intro hmem
    have htext : 's' ∈ parser.ipv6Text addr := by simpa [hostStr] using hmem
    exact absurd (List.all_eq_true.mp (parser.ipv6Text_chars addr) 's' htext) (by decide)
  have hsvc : ¬ ".svc.cluster.local".toList <:+: hostStr parser (.ipv6 addr) := fun h =>
    hs (h.subset (by decide +kernel))
  have hparse : parseIp (hostStr parser (.ipv6 addr)) = none := by
    unfold hostStr
    exact parseIp_of_head (by decide) (by decide) (by decide)
  exact validate_of_name hhost (by simp [hostStr]) (by simp [hostStr, metadataHost_chars]) hsvc hparse

/-! ## Names -/

/-- Where a name begins with `m` in lower case. -/
theorem eq_of_toLower {c : Char} (h : c.toLower = 'm') : c = 'm' ∨ c = 'M' := by
  unfold Char.toLower at h
  split at h
  · have hval : c.val + ('a'.val - 'A'.val) = 'm'.val := congrArg Char.val h
    have hm : c.val = 'M'.val := by
      calc c.val = c.val + ('a'.val - 'A'.val) - ('a'.val - 'A'.val) :=
            (UInt32.add_sub_cancel _ _).symm
        _ = 'm'.val - ('a'.val - 'A'.val) := by rw [hval]
        _ = 'M'.val := by decide
    exact .inr (Char.ext hm)
  · exact .inl h

theorem lower_of_canonical {name : List Char} (h : canonicalName name = metadataHost) :
    name.map Char.toLower = metadataHost ∨ name.map Char.toLower = metadataHost ++ ['.'] := by
  unfold canonicalName at h
  dsimp only at h
  split at h
  · next hdot =>
    right
    rw [← h]
    exact (List.dropLast_append_getLast? '.' hdot).symm
  · exact .inl h

/-- A spelling of a metadata name begins with `m` and has no `v`. -/
theorem spelling_chars {name : List Char} (h : canonicalName name = metadataHost) :
    (∃ c rest, name = c :: rest ∧ (c = 'm' ∨ c = 'M')) ∧ 'v' ∉ name.map Char.toLower := by
  have hlower := lower_of_canonical h
  constructor
  · cases name with
    | nil => simp [metadataHost_chars] at hlower
    | cons c rest =>
      have hfirst : c.toLower = 'm' := by
        rcases hlower with h | h
        · rw [metadataHost_chars, List.map_cons, List.cons.injEq] at h
          exact h.1
        · rw [metadataHost_chars, List.map_cons, List.cons_append, List.cons.injEq] at h
          exact h.1
      exact ⟨c, rest, rfl, eq_of_toLower hfirst⟩
  · rcases hlower with h | h
    · rw [h, metadataHost_chars]
      decide
    · rw [h, metadataHost_chars]
      decide

/-- Another spelling of a metadata name is accepted. -/
theorem validate_of_spelling {name : List Char} {hname : ':' ∉ name}
    (hhost : parser.host url = some (some (.domain name hname)))
    (hcanonical : canonicalName name = metadataHost) (hne : name ≠ metadataHost) :
    validateProviderUrl parser url = .ok () := by
  obtain ⟨⟨c, rest, rfl, hc⟩, hv⟩ := spelling_chars hcanonical
  have hsvc : ¬ ".svc.cluster.local".toList <:+: c :: rest := fun h =>
    hv ((h.map Char.toLower).subset (by decide +kernel))
  have hip : c :: rest ≠ "169.254.169.254".toList := by
    rcases hc with rfl | rfl
    · simp
    · simp
  have hparse : parseIp (c :: rest) = none := by
    rcases hc with rfl | rfl
    · exact parseIp_of_head (by decide) (by decide) (by decide)
    · exact parseIp_of_head (by decide) (by decide) (by decide)
  exact validate_of_name hhost hip hne hsvc hparse

/-! ## Hosts that are blocked -/

theorem sendsTo_iff {Valkey Vram : Type} {cfg : LlmProvider} {valkey : Option Valkey}
    {vramPool : Option Vram} :
    (makeAdapter parser cfg valkey vramPool).SendsTo url ↔
      cfg.providerType = .ollama ∧ cfg.url = url ∧ validateProviderUrl parser url = .ok () := by
  unfold makeAdapter
  split
  · next htype =>
    split
    · next e he =>
      simp only [Adapter.SendsTo, false_iff]
      rintro ⟨-, rfl, hok⟩
      rw [he] at hok
      cases hok
    · next hok =>
      simp only [Adapter.SendsTo, htype, true_and]
      constructor
      · rintro rfl
        exact ⟨rfl, hok⟩
      · exact fun h => h.1
  · next htype => simp [Adapter.SendsTo, htype]

/-- A host that is overlooked is one to be blocked. -/
theorem Host.Overlooked.blocked (h : host.Overlooked) : host.Blocked := by
  cases host with
  | domain name hname => exact .inl h.1
  | ipv4 addr => exact h.elim
  | ipv6 addr => exact h

theorem Host.Overlooked.accepted (hhost : parser.host url = some (some host)) (h : host.Overlooked) :
    validateProviderUrl parser url = .ok () := by
  cases host with
  | domain name hname => exact validate_of_spelling hhost h.1 h.2
  | ipv4 addr => exact h.elim
  | ipv6 addr => exact validate_of_ipv6 hhost

/-- Every other host that is to be blocked is refused. -/
theorem Host.Blocked.refused (hhost : parser.host url = some (some host)) (hblocked : host.Blocked)
    (h : ¬ host.Overlooked) : validateProviderUrl parser url ≠ .ok () := by
  cases host with
  | domain name hname =>
    rcases hblocked with hcanonical | ⟨addr, hparse, hlocal⟩
    · have hmeta : name = metadataHost := by
        by_contra hne
        exact h ⟨hcanonical, hne⟩
      exact validate_of_metadata hhost hmeta
    · exact validate_of_v4 hhost hparse hlocal
  | ipv4 addr => exact validate_of_v4 hhost (parseIp_showIpv4 addr) hblocked
  | ipv6 addr => exact (h hblocked).elim

end Router

theorem guarded_iff (parser : UrlParser) (url : String) :
    Guarded parser url ↔ ∀ host, parser.host url = some (some host) → ¬ host.Overlooked := by
  constructor
  · intro hguarded host hhost h
    exact (hguarded host hhost h.blocked).1 (h.accepted hhost)
  · intro hnone host hhost hblocked
    have hrefused := hblocked.refused hhost (hnone host hhost)
    refine ⟨hrefused, fun Valkey Vram cfg valkey vramPool hsends => ?_⟩
    exact hrefused (sendsTo_iff.mp hsends).2.2

/-! ## Three spellings -/

def linkLocalOne : Ipv6Addr := ⟨![0xfe80, 0, 0, 0, 0, 0, 0, 1]⟩

def mappedMetadata : Ipv6Addr := ⟨![0, 0, 0, 0, 0, 0xffff, 0xa9fe, 0xa9fe]⟩

theorem metadataDot_chars : ':' ∉ metadataHost ++ ['.'] := by
  rw [metadataHost_chars]
  decide

def spelledHost (url : String) : Option (Option Host) :=
  if url = "http://[fe80::1]:11434" then some (some (Host.ipv6 linkLocalOne))
  else if url = "http://[::ffff:169.254.169.254]/" then some (some (Host.ipv6 mappedMetadata))
  else if url = "http://Metadata.Google.Internal./" then
    some (some (Host.domain (metadataHost ++ ['.']) metadataDot_chars))
  else none

/-- What the parser does on these URLs. -/
def spellingParser : UrlParser where
  host := spelledHost
  ipv6Text addr := if addr.segments 0 = 0 then "::ffff:a9fe:a9fe".toList else "fe80::1".toList
  ipv6Text_chars addr := by
    split
    · decide +kernel
    · decide +kernel

theorem spellings_not_guarded :
    ¬ Guarded spellingParser "http://[fe80::1]:11434" ∧
      ¬ Guarded spellingParser "http://[::ffff:169.254.169.254]/" ∧
        ¬ Guarded spellingParser "http://Metadata.Google.Internal./" := by
  have hhost : spellingParser.host = spelledHost := rfl
  have hlocal : spellingParser.host "http://[fe80::1]:11434" = some (some (.ipv6 linkLocalOne)) := by
    rw [hhost, spelledHost, if_pos rfl]
  have hmapped : spellingParser.host "http://[::ffff:169.254.169.254]/" =
      some (some (.ipv6 mappedMetadata)) := by
    rw [hhost, spelledHost, if_neg (by decide +kernel), if_pos rfl]
  have hmeta : spellingParser.host "http://Metadata.Google.Internal./" =
      some (some (.domain (metadataHost ++ ['.']) metadataDot_chars)) := by
    rw [hhost, spelledHost, if_neg (by decide +kernel), if_neg (by decide +kernel), if_pos rfl]
  have hcanonical : canonicalName (metadataHost ++ ['.']) = metadataHost := by
    rw [metadataHost_chars]
    decide
  refine ⟨fun h => ?_, fun h => ?_, fun h => ?_⟩
  · exact (h _ hlocal (.inl (by decide))).1 (validate_of_ipv6 hlocal)
  · exact (h _ hmapped (.inr ⟨.inl (by decide), by decide⟩)).1 (validate_of_ipv6 hmapped)
  · have hne : metadataHost ++ ['.'] ≠ metadataHost := by simp
    exact (h _ hmeta (.inl hcanonical)).1 (validate_of_spelling hmeta hcanonical hne)

end Veronex.ProviderRouter
