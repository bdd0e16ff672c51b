import UnifiedDns.Engine.IpText
import UnifiedDns.Engine.RateLimit

/-!
# The address a DoH client is known by

`extract_client_ip` behind the proxy of `nginx_vhost.example`.

* `extractClientIp` — the precedence of the three headers.
* `proxied` — the headers that the proxy passes on.
* `claimedAddress` — the address that the client's own header gives, if it reads as one.
* `proxied_identity_iff` — when the client is known by its real address.
-/

namespace UnifiedDns
namespace Engine

abbrev HeaderValue := List Byte

/-- The headers of a request by their lower-case names, the first value of each. -/
abbrev HeaderMap := Text → Option HeaderValue

def cfConnectingIp : Text := asciiText "cf-connecting-ip"

def xRealIp : Text := asciiText "x-real-ip"

def xForwardedFor : Text := asciiText "x-forwarded-for"

section

variable (toStr : HeaderValue → Option Text)

/-- The address in a header value; `toStr` is `HeaderValue::to_str`. -/
def valueIp (value : HeaderValue) : Option IpAddr :=
  (toStr value).bind fun text => parseIpAddr (trim text)

/-- The first address of a list, as `split(',').next()` cuts it off. -/
def firstIp (value : HeaderValue) : Option IpAddr :=
  (toStr value).bind fun text => parseIpAddr (trim (text.takeWhile fun b => decide (b ≠ 44)))

/-- `extract_client_ip`; of the peer it reads the address alone. -/
def extractClientIp (headers : HeaderMap) (peer : IpAddr) : IpAddr :=
  if isLoopback peer then
    match (headers cfConnectingIp).bind (valueIp toStr) with
    | some ip => ip
    | none =>
        match (headers xRealIp).bind (valueIp toStr) with
        | some ip => ip
        | none =>
            match (headers xForwardedFor).bind (firstIp toStr) with
            | some ip => ip
            | none => peer
  else peer

/-- What the client claims to be: the header that the proxy copies. An empty value is no header. -/
def claimedAddress (client : HeaderMap) : Option IpAddr :=
  ((client cfConnectingIp).filter fun value => !value.isEmpty).bind (valueIp toStr)

end

/-- The headers that reach the server when a client at `r` sends `client` through the proxy; `remoteAddr`
prints `$remote_addr`. The headers for the proxied connection itself are left out, nothing here reads
them. -/
def proxied (remoteAddr : IpAddr → HeaderValue) (r : IpAddr) (client : HeaderMap) : HeaderMap :=
  fun name =>
    if name = cfConnectingIp then (client cfConnectingIp).filter fun value => !value.isEmpty
    else if name = xRealIp then some (remoteAddr r)
    else if name = xForwardedFor then
      match client xForwardedFor with
      | some value => some (value ++ [44, 32] ++ remoteAddr r)
      | none => some (remoteAddr r)
    else client name

theorem xRealIp_ne_cfConnectingIp : xRealIp ≠ cfConnectingIp := by decide

/-- Of the three headers the claimed address comes first, then the one that the proxy has set. -/
theorem extractClientIp_proxied (toStr : HeaderValue → Option Text) {remoteAddr : IpAddr → HeaderValue}
    {peer r : IpAddr} (hpeer : isLoopback peer = true)
    (hremote : valueIp toStr (remoteAddr r) = some r) (client : HeaderMap) :
    extractClientIp toStr (proxied remoteAddr r client) peer =
      (claimedAddress toStr client).getD r := by
  have hcf : (proxied remoteAddr r client cfConnectingIp).bind (valueIp toStr) =
      claimedAddress toStr client := by
    rw [proxied, if_pos rfl]
    rfl
  have hreal : (proxied remoteAddr r client xRealIp).bind (valueIp toStr) = some r := by
    rw [proxied, if_neg xRealIp_ne_cfConnectingIp, if_pos rfl]
    exact hremote
  rw [extractClientIp, if_pos hpeer, hcf, hreal]
  cases claimedAddress toStr client with
  | none => rfl
  | some ip => rfl

theorem checkQuery_of_loopback {clientIp : IpAddr} (hloopback : isLoopback clientIp = true)
    (config : LimiterConfig) (nowMillis : Nat) (protocol : Protocol) (qname : Name) (qtype : RecordType)
    (limiter : RateLimiter) :
    checkQuery config nowMillis protocol clientIp qname qtype limiter = (.allow, limiter) :=
  if_pos hloopback

/-- **When a proxied client keeps its identity.** A client at `r` is known as `r`, is charged as `r` and
gets no exemption that `r` does not have, whatever headers it sends, just when its `CF-Connecting-IP` is
missing, is no address, or is `r`. A client at an address that is not loopback is exempt just when that
header is a loopback address. -/
theorem proxied_identity_iff (toStr : HeaderValue → Option Text) (remoteAddr : IpAddr → HeaderValue)
    (peer r : IpAddr) (hpeer : isLoopback peer = true)
    (hremote : valueIp toStr (remoteAddr r) = some r) (client : HeaderMap) :
    ((extractClientIp toStr (proxied remoteAddr r client) peer = r ∧
        (∀ config nowMillis qname qtype limiter,
          checkQuery config nowMillis .doh (extractClientIp toStr (proxied remoteAddr r client) peer)
              qname qtype limiter =
            checkQuery config nowMillis .doh r qname qtype limiter) ∧
        (isLoopback r = false →
          isLoopback (extractClientIp toStr (proxied remoteAddr r client) peer) = false)) ↔
      ∀ ip, claimedAddress toStr client = some ip → ip = r) ∧
    (isLoopback r = false →
      (isLoopback (extractClientIp toStr (proxied remoteAddr r client) peer) = true ↔
        ∃ ip, claimedAddress toStr client = some ip ∧ isLoopback ip = true)) := by
  rw [extractClientIp_proxied toStr hpeer hremote]
  cases hclaimed : claimedAddress toStr client with
  | none =>
      rw [Option.getD_none]
      constructor
      · exact ⟨fun _ ip hip => absurd hip (Option.some_ne_none ip).symm,
          fun _ => ⟨rfl, fun _ _ _ _ _ => rfl, id⟩⟩
      · intro hremoteClient
        rw [hremoteClient]
        constructor
        · exact fun h => absurd h Bool.false_ne_true
        · rintro ⟨ip, hip, -⟩
          exact absurd hip (Option.some_ne_none ip).symm
  | some claimed =>
      rw [Option.getD_some]
      constructor
      · constructor
        · rintro ⟨hsame, -⟩ ip hip
          rw [← Option.some.inj hip, hsame]
        · intro hsame
          obtain rfl := hsame claimed rfl
          exact ⟨rfl, fun _ _ _ _ _ => rfl, id⟩
      · intro _
        constructor
        · exact fun hexempt => ⟨claimed, rfl, hexempt⟩
        · rintro ⟨ip, hip, hexempt⟩
          rw [Option.some.inj hip]
          exact hexempt

/-! ### A proxy on the same host -/

/-- `HeaderValue::to_str` as its documentation has it: visible ASCII and tabs. -/
def visibleAscii (value : HeaderValue) : Option Text :=
  if value.all fun b => decide (b = 9) || (decide (32 ≤ b) && decide (b < 127)) then some value else none

/-- `$remote_addr` of an IPv4 client. -/
def dottedAddr : IpAddr → HeaderValue
  | .v4 a => ipv4Text a
  | .v6 _ => []

/-- The address of every IPv4 client reads back. -/
theorem valueIp_dottedAddr (a : Ipv4Addr) : valueIp visibleAscii (dottedAddr (.v4 a)) = some (.v4 a) := by
  have hoctet : ∀ o : Byte, (octetText o).all
      (fun b => decide (b = 9) || (decide (32 ≤ b) && decide (b < 127))) = true := by decide +kernel
  have hvisible : visibleAscii (ipv4Text a) = some (ipv4Text a) := by
    refine if_pos ?_
    simp only [ipv4Text, List.all_append, List.all_cons, hoctet]
    decide
  show (visibleAscii (ipv4Text a)).bind _ = _
  rw [hvisible]
  show parseIpAddr (trim (ipv4Text a)) = _
  rw [trim_of_no_space (isSpace_ipv4Text a), parseIpAddr_ipv4Text]

def localProxy : IpAddr := .v4 ⟨127, 0, 0, 1⟩

def remoteClient : IpAddr := .v4 ⟨198, 51, 100, 7⟩

/-- A request with one header. -/
def oneHeader (name value : Text) : HeaderMap := fun own => if own = name then some value else none

/-- A forged `X-Forwarded-For` does not help. -/
theorem proxied_identity_iff_forwarded :
    extractClientIp visibleAscii
        (proxied dottedAddr remoteClient (oneHeader xForwardedFor (asciiText "127.0.0.1"))) localProxy =
      remoteClient := by
  have hiff := proxied_identity_iff visibleAscii dottedAddr localProxy remoteClient (by decide)
    (valueIp_dottedAddr _) (oneHeader xForwardedFor (asciiText "127.0.0.1"))
  have hnone : claimedAddress visibleAscii (oneHeader xForwardedFor (asciiText "127.0.0.1")) = none := by
    decide
  refine (hiff.1.mpr fun ip hip => ?_).1
  rw [hnone] at hip
  exact absurd hip (Option.some_ne_none ip).symm

/-- A client that sends `CF-Connecting-IP: 127.0.0.1` is taken for the host itself, and no limit applies
to it. -/
theorem forged_identity_exempt :
    valueIp visibleAscii (dottedAddr remoteClient) = some remoteClient ∧
      isLoopback remoteClient = false ∧
      extractClientIp visibleAscii
          (proxied dottedAddr remoteClient (oneHeader cfConnectingIp (asciiText "127.0.0.1"))) localProxy =
        .v4 ⟨127, 0, 0, 1⟩ ∧
      ∀ config nowMillis qname qtype limiter,
        checkQuery config nowMillis .doh (extractClientIp visibleAscii
          (proxied dottedAddr remoteClient (oneHeader cfConnectingIp (asciiText "127.0.0.1"))) localProxy)
            qname qtype limiter = (.allow, limiter) := by
  have hforged : extractClientIp visibleAscii
      (proxied dottedAddr remoteClient (oneHeader cfConnectingIp (asciiText "127.0.0.1"))) localProxy =
        .v4 ⟨127, 0, 0, 1⟩ := by decide
  refine ⟨valueIp_dottedAddr _, by decide, hforged, ?_⟩
  rw [hforged]
  exact fun config nowMillis qname qtype limiter =>
    checkQuery_of_loopback (by decide) config nowMillis .doh qname qtype limiter

end Engine
end UnifiedDns
