import UnifiedDns.Engine.ClientIdentity
import UnifiedDns.Engine.Transports
import UnifiedDns.Lib.Base64
import UnifiedDns.Lib.TextLines

/-!
# DNS over HTTPS

The handlers of `/dns-query`.  A query arrives in the `dns` parameter of a GET request or in the body of a POST
request.  The router, the parsing of the query string and the base64 decoder come from libraries: the handlers
get the parameter as characters, and the decoder is a parameter.

* `decodeDnsParam` — the text of the parameter, with or without padding, in either alphabet.
* `handleDohGet`, `handleDohPost`, `handleDohOptions`, `dnsQueryRoute` — the handlers.
* `HttpRequest.Asks` — the query that a request carries.
* `doh_reply_iff` — when a query is answered, refused by the rate limiter, or not looked at.
-/

namespace UnifiedDns
namespace Engine

/-! ### The `dns` parameter -/

/-- The digits of the alphabet for URLs in the standard alphabet. -/
def standardDigit (c : Char) : Char := if c = '-' then '+' else if c = '_' then '/' else c

/-- `str::len`: the octets of the text in UTF-8. -/
def utf8Length (text : List Char) : Nat := (text.map Char.utf8Size).sum

/-- `decode_dns_param`; `decode` is `BASE64_STANDARD.decode`. -/
def decodeDnsParam (decode : List Char → Option (List Byte)) (input : List Char) : Option (List Byte) :=
  let s := (trimText input).map standardDigit
  let padLen := (4 - utf8Length s % 4) % 4
  decode (s ++ List.replicate padLen '=')

/-! ### Requests and responses -/

inductive Method
  | get
  | post
  | options
deriving DecidableEq

structure HttpRequest where
  method : Method
  headers : HeaderMap
  /-- The `dns` parameter of the query string. -/
  dns : Option (List Char)
  body : List Byte
  peer : IpAddr

structure HttpResponse where
  status : Nat
  headers : List (Text × Text)
  body : List Byte
deriving DecidableEq

structure DohEnv where
  server : ServerEnv (List Byte)
  limiter : LimiterConfig
  /-- `HeaderValue::to_str`. -/
  toStr : HeaderValue → Option Text
  /-- `BASE64_STANDARD.decode`. -/
  base64Decode : List Char → Option (List Byte)

/-- `MAX_DOH_PAYLOAD`. -/
def maxDohPayload : Nat := 4096

def contentType : Text := asciiText "content-type"

def dnsMessageType : Text := asciiText "application/dns-message"

/-- A status with a line of text. -/
def textResponse (status : Nat) (text : String) : HttpResponse :=
  ⟨status, [(contentType, asciiText "text/plain; charset=utf-8")], asciiText text⟩

/-- `make_dns_response`. -/
def makeDnsResponse (bytes : List Byte) : HttpResponse where
  status := 200
  headers :=
    [(contentType, dnsMessageType), (asciiText "cache-control", asciiText "no-cache"),
      (asciiText "access-control-allow-origin", asciiText "*"),
      (asciiText "access-control-allow-methods", asciiText "GET, POST, OPTIONS")]
  body := bytes

/-- `handle_dns_outcome`. -/
def handleDnsOutcome : ProcessOutcome (List Byte) → HttpResponse
  | .success wire => makeDnsResponse wire
  | .servFail wire => makeDnsResponse (wire.getD [])
  | .truncated wire => makeDnsResponse (wire.getD [])
  | .malformed => textResponse 400 "Malformed or invalid DNS message"
  | .dropped => textResponse 429 "Rate limit exceeded"

/-- `is_acceptable_media_type`. -/
def isAcceptableMediaType (toStr : HeaderValue → Option Text) (headers : HeaderMap) : Bool :=
  match (headers (asciiText "accept")).bind toStr with
  | some accept =>
      let accept := (trim accept).map lowerByte
      decide (dnsMessageType <:+: accept) || decide (asciiText "*/*" <:+: accept) ||
        decide (asciiText "application/*" <:+: accept)
  | none => true

/-- The `Content-Type` that a POST request needs. -/
def hasDnsContentType (toStr : HeaderValue → Option Text) (headers : HeaderMap) : Bool :=
  (((headers contentType).bind toStr).map fun ct =>
    dnsMessageType.isPrefixOf ((trim ct).map lowerByte)).getD false

section Handlers

variable (env : DohEnv) (c : Circumstances (List Byte)) (req : HttpRequest)

/-- `process_dns_query` for the client that `extract_client_ip` finds. -/
def dohOutcome (wire : List Byte) : ProcessOutcome (List Byte) :=
  processDnsQuery env.server env.limiter
    { c with
      protocol := .doh
      clientIp := extractClientIp env.toStr req.headers req.peer } wire

def notAcceptable : HttpResponse :=
  textResponse 406 "Accept header must include application/dns-message or */*"

/-- `handle_doh_get`. -/
def handleDohGet : HttpResponse :=
  if isAcceptableMediaType env.toStr req.headers = false then notAcceptable
  else
    match req.dns with
    | none => textResponse 400 "Missing 'dns' query parameter"
    | some d =>
        if (trimText d).isEmpty then textResponse 400 "Empty 'dns' query parameter"
        else
          match decodeDnsParam env.base64Decode (trimText d) with
          | none => textResponse 400 "Invalid base64url encoding"
          | some rawBytes =>
              if rawBytes.isEmpty then textResponse 400 "Empty decoded DNS query payload"
              else if maxDohPayload < rawBytes.length then
                textResponse 413 "DNS query exceeds size limit"
              else handleDnsOutcome (dohOutcome env c req rawBytes)

/-- `handle_doh_post`. -/
def handleDohPost : HttpResponse :=
  if hasDnsContentType env.toStr req.headers = false then
    textResponse 415 "Content-Type must be application/dns-message"
  else if isAcceptableMediaType env.toStr req.headers = false then notAcceptable
  else if req.body.isEmpty then textResponse 400 "Empty request body"
  else if maxDohPayload < req.body.length then textResponse 413 "DNS query exceeds size limit"
  else handleDnsOutcome (dohOutcome env c req req.body)

/-- `handle_doh_options`. -/
def handleDohOptions : HttpResponse where
  status := 200
  headers :=
    [(asciiText "access-control-allow-origin", asciiText "*"),
      (asciiText "access-control-allow-methods", asciiText "GET, POST, OPTIONS"),
      (asciiText "access-control-allow-headers", asciiText "content-type, accept"),
      (asciiText "access-control-max-age", asciiText "86400")]
  body := []

/-- The route `/dns-query`.  A body over the limit of the router never reaches the handler: the 413 stands for the
rejection of axum, whose text is not the program's. -/
def dnsQueryRoute : HttpResponse :=
  match req.method with
  | .get => handleDohGet env c req
  | .post =>
      if maxDohPayload < req.body.length then
        textResponse 413 "Failed to buffer the request body: length limit exceeded"
      else handleDohPost env c req
  | .options => handleDohOptions

end Handlers

/-! ### What the parameter says -/

theorem utf8Length_eq {text : List Char} (h : ∀ c ∈ text, c.utf8Size = 1) : utf8Length text = text.length := by
  induction text with
  | nil => rfl
  | cons c rest ih =>
      obtain ⟨hc, hrest⟩ := List.forall_mem_cons.mp h
      have hlater := ih hrest
      unfold utf8Length at hlater ⊢
      rw [List.map_cons, List.sum_cons, hc, hlater, List.length_cons, Nat.add_comm]

/-- The parameter is the text of the octets: in either alphabet, within white space, and with as much of the
padding as one likes. -/
def IsParamOf (d : List Char) (wire : List Byte) : Prop :=
  ∃ missing, missing ≤ Base64.padCount wire ∧
    (trimText d).map standardDigit ++ List.replicate missing '=' = Base64.encode wire

section Decoder

variable {decode : List Char → Option (List Byte)}

/-- Missing padding is made up for, and nothing else is accepted. -/
theorem decodeDnsParam_eq_some_iff
    (hdecode : ∀ text wire, decode text = some wire ↔ text = Base64.encode wire) {d : List Char}
    {wire : List Byte} : decodeDnsParam decode d = some wire ↔ IsParamOf d wire := by
  unfold decodeDnsParam IsParamOf
  simp only [hdecode]
  generalize (trimText d).map standardDigit = s
  constructor
  · intro h
    refine ⟨_, ?_, h⟩
    -- All characters that were added are padding of the text.
    have hcount := congrArg (List.count '=') h
    rw [Base64.count_pad_encode, List.count_append, List.count_replicate_self] at hcount
    omega
  · rintro ⟨missing, hmissing, h⟩
    have hascii : ∀ c ∈ s, c.utf8Size = 1 := fun c hc =>
      Base64.utf8Size_of_mem_encode (h ▸ List.mem_append_left _ hc)
    have hlength := congrArg List.length h
    have hwhole := Base64.length_encode wire
    have hpad := Base64.padCount_lt wire
    rw [← hlength, List.length_append, List.length_replicate] at hwhole
    have hsame : (4 - utf8Length s % 4) % 4 = missing := by
      rw [utf8Length_eq hascii]
      omega
    rw [hsame, h]

theorem IsParamOf.trim_ne_nil {d : List Char} {wire : List Byte} (h : IsParamOf d wire) (hne : wire ≠ []) :
    (trimText d).isEmpty = false := by
  obtain ⟨missing, hmissing, h⟩ := h
  cases htrim : trimText d with
  | nil =>
      have hlength := congrArg List.length h
      have hpad := Base64.padCount_lt wire
      have hpositive := List.length_pos_iff.mpr hne
      rw [htrim, List.map_nil, List.nil_append, List.length_replicate, Base64.encode, List.length_append,
        Base64.length_digits, List.length_replicate] at hlength
      omega
  | cons c rest => rfl

theorem isParamOf_trimText {d : List Char} {wire : List Byte} : IsParamOf (trimText d) wire ↔ IsParamOf d wire := by
  unfold IsParamOf
  rw [trimText_trimText]

end Decoder

/-! ### When a query is answered -/

/-- The request carries the query: in the parameter, or in the body with the content type for it. -/
def HttpRequest.Carries (toStr : HeaderValue → Option Text) (req : HttpRequest) (wire : List Byte) : Prop :=
  match req.method with
  | .get => ∃ d, req.dns = some d ∧ IsParamOf d wire
  | .post => hasDnsContentType toStr req.headers = true ∧ req.body = wire
  | .options => False

/-- The request asks for an answer that it can take to a query of 1 to 4096 octets. -/
structure HttpRequest.Asks (toStr : HeaderValue → Option Text) (req : HttpRequest) (wire : List Byte) :
    Prop where
  acceptable : isAcceptableMediaType toStr req.headers = true
  carries : req.Carries toStr wire
  nonempty : wire ≠ []
  size : wire.length ≤ maxDohPayload

section Replies

variable {env : DohEnv} {c : Circumstances (List Byte)} {req : HttpRequest}

/-- A response that stands for no outcome: the status says that the request was not looked at further. -/
def HttpResponse.Refusal (response : HttpResponse) : Prop :=
  response.status = 400 ∨ response.status = 406 ∨ response.status = 413 ∨ response.status = 415

/-- A request is either refused before the query is looked at, or gets what there is for its query. -/
def HttpRequest.Treated (env : DohEnv) (c : Circumstances (List Byte)) (req : HttpRequest)
    (response : HttpResponse) : Prop :=
  (∃ wire, req.Asks env.toStr wire ∧ response = handleDnsOutcome (dohOutcome env c req wire)) ∨
    ((∀ wire, ¬ req.Asks env.toStr wire) ∧ response.Refusal)

/-- The checks on the octets of the only query that the request carries. -/
theorem HttpRequest.treated_of_carries {wire : List Byte} {empty large : HttpResponse}
    (hempty : empty.Refusal) (hlarge : large.Refusal)
    (hacceptable : isAcceptableMediaType env.toStr req.headers = true) (hcarries : req.Carries env.toStr wire)
    (honly : ∀ wire', req.Carries env.toStr wire' → wire' = wire) :
    req.Treated env c (if wire.isEmpty then empty else if maxDohPayload < wire.length then large
      else handleDnsOutcome (dohOutcome env c req wire)) := by
  split
  · rename_i hnil
    refine Or.inr ⟨fun wire' hasks => hasks.nonempty ?_, hempty⟩
    rw [honly wire' hasks.carries]
    exact List.isEmpty_iff.mp hnil
  · rename_i hnonempty
    split
    · rename_i hsize
      refine Or.inr ⟨fun wire' hasks => ?_, hlarge⟩
      have hfits := hasks.size
      rw [honly wire' hasks.carries] at hfits
      exact absurd hsize (Nat.not_lt.mpr hfits)
    · rename_i hsize
      exact Or.inl ⟨wire, ⟨hacceptable, hcarries, fun hnil => hnonempty (List.isEmpty_iff.mpr hnil),
        Nat.not_lt.mp hsize⟩, rfl⟩

theorem HttpRequest.treated_notAcceptable (h : isAcceptableMediaType env.toStr req.headers = false) :
    req.Treated env c notAcceptable := by
  refine Or.inr ⟨fun wire hasks => ?_, Or.inr (Or.inl rfl)⟩
  rw [hasks.acceptable] at h
  cases h

theorem handleDohGet_treated
    (hdecode : ∀ text wire, env.base64Decode text = some wire ↔ text = Base64.encode wire)
    (hmethod : req.method = .get) : req.Treated env c (handleDohGet env c req) := by
  have hcarries : ∀ wire, req.Carries env.toStr wire ↔ ∃ d, req.dns = some d ∧ IsParamOf d wire := by
    intro wire
    simp only [HttpRequest.Carries, hmethod]
  unfold handleDohGet
  split
  · rename_i hunacceptable
    exact HttpRequest.treated_notAcceptable hunacceptable
  · rename_i hacceptable
    split
    · rename_i hmissing
      refine Or.inr ⟨fun wire hasks => ?_, Or.inl rfl⟩
      obtain ⟨d, hd, -⟩ := (hcarries wire).mp hasks.carries
      rw [hmissing] at hd
      cases hd
    · rename_i d hd
      -- The octets that the parameter may stand for.
      have honly : ∀ wire, req.Carries env.toStr wire → IsParamOf d wire := by
        intro wire hwire
        obtain ⟨d', hd', hparam⟩ := (hcarries wire).mp hwire
        rw [hd] at hd'
        cases hd'
        exact hparam
      have hvalid : ∀ wire, req.Carries env.toStr wire →
          decodeDnsParam env.base64Decode (trimText d) = some wire := fun wire hwire =>
        (decodeDnsParam_eq_some_iff hdecode).mpr (isParamOf_trimText.mpr (honly wire hwire))
      split
      · rename_i hempty
        refine Or.inr ⟨fun wire hasks => ?_, Or.inl rfl⟩
        rw [(honly wire hasks.carries).trim_ne_nil hasks.nonempty] at hempty
        cases hempty
      · split
        · rename_i hinvalid
          refine Or.inr ⟨fun wire hasks => ?_, Or.inl rfl⟩
          rw [hvalid wire hasks.carries] at hinvalid
          cases hinvalid
        · rename_i rawBytes hraw
          have hparam := isParamOf_trimText.mp ((decodeDnsParam_eq_some_iff hdecode).mp hraw)
          exact HttpRequest.treated_of_carries (Or.inl rfl) (Or.inr (Or.inr (Or.inl rfl)))
            (by simpa using hacceptable) ((hcarries rawBytes).mpr ⟨d, hd, hparam⟩)
            fun wire hwire => Option.some.inj ((hvalid wire hwire).symm.trans hraw)

theorem handleDohPost_treated (hmethod : req.method = .post) :
    req.Treated env c (handleDohPost env c req) := by
  have hcarries : ∀ wire, req.Carries env.toStr wire ↔
      hasDnsContentType env.toStr req.headers = true ∧ req.body = wire := by
    intro wire
    simp only [HttpRequest.Carries, hmethod]
  unfold handleDohPost
  split
  · rename_i htype
    refine Or.inr ⟨fun wire hasks => ?_, Or.inr (Or.inr (Or.inr rfl))⟩
    rw [((hcarries wire).mp hasks.carries).1] at htype
    cases htype
  · rename_i htype
    split
    · rename_i hunacceptable
      exact HttpRequest.treated_notAcceptable hunacceptable
    · rename_i hacceptable
      exact HttpRequest.treated_of_carries (Or.inl rfl) (Or.inr (Or.inr (Or.inl rfl)))
        (by simpa using hacceptable) ((hcarries req.body).mpr ⟨by simpa using htype, rfl⟩)
        fun wire hwire => ((hcarries wire).mp hwire).2.symm

/-- The route treats every GET and POST request. -/
theorem dnsQueryRoute_treated
    (hdecode : ∀ text wire, env.base64Decode text = some wire ↔ text = Base64.encode wire)
    (hmethod : req.method ≠ .options) : req.Treated env c (dnsQueryRoute env c req) := by
  unfold dnsQueryRoute
  cases hcase : req.method with
  | get => exact handleDohGet_treated hdecode hcase
  | post =>
      simp only
      split
      · rename_i hlarge
        refine Or.inr ⟨fun wire hasks => ?_, Or.inr (Or.inr (Or.inl rfl))⟩
        have hcarries := hasks.carries
        simp only [HttpRequest.Carries, hcase] at hcarries
        have hsize := hasks.size
        rw [← hcarries.2] at hsize
        exact absurd hlarge (Nat.not_lt.mpr hsize)
      · exact handleDohPost_treated hcase
  | options => exact absurd hcase hmethod

/-- A request asks one query. -/
theorem HttpRequest.Asks.unique {toStr : HeaderValue → Option Text} {wire wire' : List Byte}
    (h : req.Asks toStr wire) (h' : req.Asks toStr wire') : wire = wire' := by
  have hcarries := h.carries
  have hcarries' := h'.carries
  unfold HttpRequest.Carries at hcarries hcarries'
  cases hcase : req.method with
  | get =>
      simp only [hcase] at hcarries hcarries'
      obtain ⟨d, hd, hparam⟩ := hcarries
      obtain ⟨d', hd', hparam'⟩ := hcarries'
      cases hd.symm.trans hd'
      have hread := (decodeDnsParam_eq_some_iff fun _ _ => Base64.decode_eq_some_iff).mpr hparam
      have hread' := (decodeDnsParam_eq_some_iff fun _ _ => Base64.decode_eq_some_iff).mpr hparam'
      exact Option.some.inj (hread.symm.trans hread')
  | post =>
      simp only [hcase] at hcarries hcarries'
      exact hcarries.2.symm.trans hcarries'.2
  | options =>
      simp only [hcase] at hcarries

theorem handleDnsOutcome_eq_iff {outcome : ProcessOutcome (List Byte)} {reply : List Byte} :
    handleDnsOutcome outcome = makeDnsResponse reply ↔ outcome.buffer = some reply := by
  have hbody : ∀ bytes, makeDnsResponse bytes = makeDnsResponse reply ↔ some bytes = some reply := by
    intro bytes
    rw [Option.some_inj]
    exact ⟨congrArg HttpResponse.body, congrArg makeDnsResponse⟩
  cases outcome with
  | success wire => exact hbody wire
  | servFail wire => exact hbody (wire.getD [])
  | truncated wire => exact hbody (wire.getD [])
  | dropped => exact iff_of_false (fun h => by cases congrArg HttpResponse.status h) nofun
  | malformed => exact iff_of_false (fun h => by cases congrArg HttpResponse.status h) nofun

theorem handleDnsOutcome_status (outcome : ProcessOutcome (List Byte)) :
    ((handleDnsOutcome outcome).status = 429 ↔ outcome = .dropped) ∧
      ((handleDnsOutcome outcome).status = 200 ∨ (handleDnsOutcome outcome).status = 429 ∨
        (handleDnsOutcome outcome).Refusal) := by
  have hanswered : ¬ (200 : Nat) = 429 := by decide
  cases outcome with
  | success wire => exact ⟨iff_of_false hanswered nofun, Or.inl rfl⟩
  | servFail wire => exact ⟨iff_of_false hanswered nofun, Or.inl rfl⟩
  | truncated wire => exact ⟨iff_of_false hanswered nofun, Or.inl rfl⟩
  | dropped => exact ⟨iff_of_true rfl rfl, Or.inr (Or.inl rfl)⟩
  | malformed => exact ⟨iff_of_false (show ¬ (400 : Nat) = 429 by decide) nofun, Or.inr (Or.inr (Or.inl rfl))⟩

theorem HttpResponse.Refusal.status {response : HttpResponse} (h : response.Refusal) :
    response.status ≠ 200 ∧ response.status ≠ 429 := by
  unfold HttpResponse.Refusal at h
  omega

/-- **DNS over HTTPS.**  With a decoder that accepts the canonical texts and nothing else: a GET or POST request
gets a DNS message just when it asks a query for which `process_dns_query` has a reply, and then exactly that
reply; it gets the status 429 just when that query is dropped; and a refusal in all other cases.  The two methods
get the same response for the same query. -/
theorem doh_reply_iff
    (hdecode : ∀ text wire, env.base64Decode text = some wire ↔ text = Base64.encode wire)
    (c : Circumstances (List Byte)) (hmethod : req.method ≠ .options) :
    (∀ reply, dnsQueryRoute env c req = makeDnsResponse reply ↔
        ∃ wire, req.Asks env.toStr wire ∧ (dohOutcome env c req wire).buffer = some reply) ∧
      ((dnsQueryRoute env c req).status = 429 ↔
        ∃ wire, req.Asks env.toStr wire ∧ dohOutcome env c req wire = .dropped) ∧
      ((dnsQueryRoute env c req).status = 200 ∨ (dnsQueryRoute env c req).status = 429 ∨
        (dnsQueryRoute env c req).Refusal) ∧
      ∀ (other : HttpRequest) (wire : List Byte), other.headers = req.headers → other.peer = req.peer →
        req.Asks env.toStr wire → other.Asks env.toStr wire →
          dnsQueryRoute env c other = dnsQueryRoute env c req := by
  -- The response to a query depends on nothing else of the request.
  have hasked : ∀ (own : HttpRequest) (wire : List Byte), own.Asks env.toStr wire →
      dnsQueryRoute env c own = handleDnsOutcome (dohOutcome env c own wire) := by
    intro own wire hasks
    have hown : own.method ≠ .options := by
      intro hoptions
      have hcarries := hasks.carries
      simp only [HttpRequest.Carries, hoptions] at hcarries
    rcases dnsQueryRoute_treated (c := c) hdecode hown with ⟨wire', hasks', hroute⟩ | ⟨hnone, -⟩
    · rw [hroute, hasks.unique hasks']
    · exact absurd hasks (hnone wire)
  refine ⟨fun reply => ?_, ?_, ?_, fun other wire hheaders hpeer hasks hother => ?_⟩
  · rcases dnsQueryRoute_treated (c := c) hdecode hmethod with ⟨wire, hasks, hroute⟩ | ⟨hnone, hrefusal⟩
    · rw [hroute, handleDnsOutcome_eq_iff]
      refine ⟨fun hreply => ⟨wire, hasks, hreply⟩, ?_⟩
      rintro ⟨wire', hasks', hreply⟩
      rwa [hasks.unique hasks']
    · constructor
      · intro hroute
        rw [hroute] at hrefusal
        exact absurd rfl hrefusal.status.1
      · rintro ⟨wire, hasks, -⟩
        exact absurd hasks (hnone wire)
  · rcases dnsQueryRoute_treated (c := c) hdecode hmethod with ⟨wire, hasks, hroute⟩ | ⟨hnone, hrefusal⟩
    · rw [hroute, (handleDnsOutcome_status _).1]
      refine ⟨fun hdropped => ⟨wire, hasks, hdropped⟩, ?_⟩
      rintro ⟨wire', hasks', hdropped⟩
      rwa [hasks.unique hasks']
    · refine iff_of_false hrefusal.status.2 ?_
      rintro ⟨wire, hasks, -⟩
      exact hnone wire hasks
  · rcases dnsQueryRoute_treated (c := c) hdecode hmethod with ⟨wire, hasks, hroute⟩ | ⟨-, hrefusal⟩
    · rw [hroute]
      exact (handleDnsOutcome_status _).2
    · exact Or.inr (Or.inr hrefusal)
  · rw [hasked other wire hother, hasked req wire hasks]
    unfold dohOutcome
    rw [hheaders, hpeer]

end Replies

/-- The stub behind HTTP. -/
def questionDoh : DohEnv where
  server := questionServer
  limiter := sampleNode.limiter
  toStr := visibleAscii
  base64Decode := Base64.decode

/-- The question in the parameter, within blanks. -/
def paramRequest : HttpRequest where
  method := .get
  headers := oneHeader (asciiText "accept") (asciiText "application/dns-message")
  dns := some ([' '] ++ Base64.encode (questionWire plainClient.message leafQuery) ++ [' '])
  body := []
  peer := .v4 ⟨192, 0, 2, 1⟩

theorem paramRequest_asks :
    paramRequest.Asks questionDoh.toStr (questionWire plainClient.message leafQuery) where
  acceptable := by decide
  carries := ⟨_, rfl, 0, Nat.zero_le _, by decide +kernel⟩
  nonempty := by decide
  size := by decide

/-- The resolver fails, and the client gets the SERVFAIL with status 200. -/
theorem doh_reply_iff_param :
    dnsQueryRoute questionDoh (questionCall .doh) paramRequest =
      makeDnsResponse (questionWire (servfailResponse 0 leafQuery) leafQuery) := by
  have hiff := @doh_reply_iff questionDoh paramRequest
    (fun text wire => Base64.decode_eq_some_iff) (questionCall .doh) (by decide)
  refine (hiff.1 _).mpr ⟨_, paramRequest_asks, ?_⟩
  exact congrArg ProcessOutcome.buffer (questionCall_fails .doh)

end Engine
end UnifiedDns
