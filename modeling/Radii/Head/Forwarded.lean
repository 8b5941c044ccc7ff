import Radii.Foundations.HeaderFields
import Radii.Proto.Address

/-!
# The headers of a proxied request

`add_forwarded_headers` of `crates/head/src/http.rs` and then `strip_hop_by_hop` of
`crates/head/src/proxy.rs` rewrite the headers of a request on its way to the backend.  Both look at
the first line of a name only, and the second removes what the client's `Connection` names, also
where the first has just put it there.

* `told_iff` — exactly for which requests the backend is told all there is to tell of the client.
* `connection_suppresses` — a client that suppresses what Head records of it.
-/

namespace Radii

open Wire Http

/-! ## Names -/

/-- A name the code gives in lower case. -/
def headerName (name : String) (h : name.toList ≠ [] ∧ name.toList.length < 65536 ∧
    name.toList.all nameChar = true) : HeaderName := ⟨name.toList, h.2.2, h.1, h.2.1⟩

def connection : HeaderName := headerName "connection" (by decide)
def hostName : HeaderName := headerName "host" (by decide)
def xForwardedFor : HeaderName := headerName "x-forwarded-for" (by decide)
def xForwardedProto : HeaderName := headerName "x-forwarded-proto" (by decide)
def xForwardedHost : HeaderName := headerName "x-forwarded-host" (by decide)

/-- Headers that describe a single transport hop and must never be forwarded. -/
def hopByHop : List HeaderName :=
  [connection, headerName "keep-alive" (by decide), headerName "proxy-authenticate" (by decide),
    headerName "proxy-authorization" (by decide), headerName "te" (by decide),
    headerName "trailer" (by decide), headerName "transfer-encoding" (by decide),
    headerName "upgrade" (by decide)]

variable (H : HeaderMap)

/-! ## The two passes -/

/-- The `host` of `proxy_request`: the first `Host` line, if it is text. -/
def requestHost (headers : H.Map) : Option (List Char) := (H.get headers hostName).bind H.toStr

/-- `if let Ok(value) = text.parse()`. -/
def insertText (headers : H.Map) (name : HeaderName) (text : List Char) : H.Map :=
  match H.parse text with
  | some value => H.insert headers name value
  | none => headers

def forwardedChain (headers : H.Map) (peer : SocketAddr) : List Char :=
  match (H.get headers xForwardedFor).bind H.toStr with
  | some prior => prior ++ ", ".toList ++ peer.ip.chars
  | none => peer.ip.chars

def addForwardedHeaders (headers : H.Map) (peer : SocketAddr) (host : Option (List Char)) : H.Map :=
  let headers := insertText H headers xForwardedFor (forwardedChain H headers peer)
  let headers := insertText H headers xForwardedProto "http".toList
  match host with
  | some host => insertText H headers xForwardedHost host
  | none => headers

/-- The tokens of a `Connection` value. -/
def connectionTokens (value : List Char) : List (List Char) :=
  (value.splitOnP (· == ',')).map fun token => lowerCase (trim isWhitespace token)

/-- The headers that the first `Connection` line names, if it is text. -/
def connectionNamed (headers : H.Map) : List HeaderName :=
  match (H.get headers connection).bind H.toStr with
  | some value => (connectionTokens value).filterMap H.tryName
  | none => []

def stripHopByHop (headers : H.Map) : H.Map :=
  hopByHop.foldl H.remove ((connectionNamed H headers).foldl H.remove headers)

/-- The headers that Head sends to the backend. -/
def backendHeaders (headers : H.Map) (peer : SocketAddr) : H.Map :=
  stripHopByHop H (addForwardedHeaders H headers peer (requestHost H headers))

variable {H} {headers : H.Map} {peer : SocketAddr}

/-! ## What they do to the lines of a name -/

lemma getAll_stripHopByHop (headers : H.Map) (name : HeaderName) :
    H.getAll (stripHopByHop H headers) name =
      if name ∈ hopByHop ∨ name ∈ connectionNamed H headers then [] else H.getAll headers name := by
  rw [stripHopByHop, HeaderMap.getAll_foldl_remove, HeaderMap.getAll_foldl_remove]
  by_cases hfixed : name ∈ hopByHop
  · simp [hfixed]
  · simp [hfixed]

lemma getAll_insertText {text : List Char} (htext : VisibleText text) (headers : H.Map)
    (name : HeaderName) : ∃ value, H.bytes value = ascii text ∧ ∀ name',
      H.getAll (insertText H headers name text) name' =
        if name' = name then [value] else H.getAll headers name' := by
  rcases H.parse_visible text htext with ⟨value, hparse, hbytes⟩
  refine ⟨value, hbytes, ?_⟩
  intro name'
  rw [insertText, hparse]
  exact H.getAll_insert headers name value name'

/-- The characters of an address can stand in a value, and are neither blanks nor commas. -/
lemma address_chars (ip : IpAddr) : ∀ c ∈ ip.chars,
    (c.toNat < 128 ∧ visible (UInt8.ofNat c.toNat) = true) ∧
      blankByte (UInt8.ofNat c.toNat) = false ∧ commaByte (UInt8.ofNat c.toNat) = false := by
  have hwritten : Net.WrittenWith fun c => (c.toNat < 128 ∧ visible (UInt8.ofNat c.toNat) = true) ∧
      blankByte (UInt8.ofNat c.toNat) = false ∧ commaByte (UInt8.ofNat c.toNat) = false :=
    ⟨by decide, by decide, by decide⟩
  exact IpAddr.writtenWith hwritten ip

lemma visibleText_address (ip : IpAddr) : VisibleText ip.chars :=
  fun c hc => (address_chars ip c hc).1

lemma elements_address (blanks : Bytes) (hblanks : ∀ b ∈ blanks, b = 32) (ip : IpAddr) :
    elements (blanks ++ ascii ip.chars) = [ascii ip.chars] := by
  refine elementsBy_word ?_ ?_ (by simpa [ascii] using ip.chars_ne_nil)
  · intro b hb
    rw [hblanks b hb]
    exact ⟨rfl, rfl⟩
  · intro b hb
    rcases List.mem_map.mp hb with ⟨c, hc, rfl⟩
    exact (address_chars ip c hc).2

lemma visibleText_forwardedChain (headers : H.Map) (peer : SocketAddr) :
    VisibleText (forwardedChain H headers peer) := by
  rw [forwardedChain]
  cases hprior : (H.get headers xForwardedFor).bind H.toStr with
  | none => exact visibleText_address peer.ip
  | some prior =>
      rcases Option.bind_eq_some_iff.mp hprior with ⟨value, -, htext⟩
      rcases HeaderMap.toStr_eq_some.mp htext with ⟨hvisible, rfl⟩
      have hcomma : VisibleText ", ".toList := by
        intro c hc
        have hcases : c = ',' ∨ c = ' ' := by simpa using hc
        rcases hcases with rfl | rfl <;> decide
      exact ((visibleText_chars hvisible).append hcomma).append (visibleText_address peer.ip)

lemma visibleText_requestHost {text : List Char} (h : requestHost H headers = some text) :
    VisibleText text := by
  rcases Option.bind_eq_some_iff.mp h with ⟨value, -, htext⟩
  rcases HeaderMap.toStr_eq_some.mp htext with ⟨hvisible, rfl⟩
  exact visibleText_chars hvisible

/-- **What the first pass does**: it sets the lines of two names, and those of a third if there is a
`Host` to show. -/
theorem getAll_addForwardedHeaders (headers : H.Map) (peer : SocketAddr) : ∃ chain proto shown,
    H.bytes chain = ascii (forwardedChain H headers peer) ∧ H.bytes proto = ascii "http".toList ∧
    shown.map H.bytes = (match requestHost H headers with
      | some text => [ascii text]
      | none => (H.getAll headers xForwardedHost).map H.bytes) ∧
    ∀ name, H.getAll (addForwardedHeaders H headers peer (requestHost H headers)) name =
      if name = xForwardedHost then shown else if name = xForwardedProto then [proto]
      else if name = xForwardedFor then [chain] else H.getAll headers name := by
  have hhttp : VisibleText "http".toList := by
    intro c hc
    have hcases : c = 'h' ∨ c = 't' ∨ c = 'p' := by simpa using hc
    rcases hcases with rfl | rfl | rfl <;> decide
  rcases getAll_insertText (visibleText_forwardedChain headers peer) headers xForwardedFor with
    ⟨chain, hchain, hfor⟩
  rcases getAll_insertText hhttp
    (insertText H headers xForwardedFor (forwardedChain H headers peer)) xForwardedProto with
    ⟨proto, hproto, hset⟩
  have htwo := fun name => (hset name).trans (congrArg _ (hfor name))
  cases hhost : requestHost H headers with
  | none =>
      refine ⟨chain, proto, H.getAll headers xForwardedHost, hchain, hproto, rfl, ?_⟩
      intro name
      by_cases hname : name = xForwardedHost
      · subst hname
        rw [if_pos rfl]
        exact htwo xForwardedHost
      · rw [if_neg hname]
        exact htwo name
  | some text =>
      rcases getAll_insertText (visibleText_requestHost hhost)
        (insertText H (insertText H headers xForwardedFor (forwardedChain H headers peer))
          xForwardedProto "http".toList) xForwardedHost with ⟨value, hvalue, hshown⟩
      refine ⟨chain, proto, [value], hchain, hproto, by simp [hvalue], ?_⟩
      intro name
      exact (hshown name).trans (congrArg _ (htwo name))

/-- The client's `Connection` names a header. -/
def ClientNames (headers : H.Map) (name : HeaderName) : Prop :=
  ∃ value, (H.get headers connection).bind H.toStr = some value ∧ name.text ∈ connectionTokens value

lemma mem_connectionNamed {name : HeaderName} :
    name ∈ connectionNamed H headers ↔ ClientNames headers name := by
  rw [connectionNamed, ClientNames]
  cases (H.get headers connection).bind H.toStr with
  | none => simp
  | some value =>
      simp only [List.mem_filterMap, Option.some.injEq, exists_eq_left']
      constructor
      · rintro ⟨token, htoken, hname⟩
        rcases List.mem_map.mp htoken with ⟨piece, -, rfl⟩
        rw [H.tryName_text _ _ hname, lowerCase_lowerCase]
        exact htoken
      · intro htoken
        exact ⟨name.text, htoken, H.tryName_self name⟩

instance (headers : H.Map) (name : HeaderName) : Decidable (ClientNames headers name) :=
  decidable_of_iff _ mem_connectionNamed

/-! ## What the backend is told -/

/-- The lines of the names that are about the client, after both passes. -/
lemma getAll_backendHeaders (headers : H.Map) (peer : SocketAddr) : ∃ chain proto shown,
    H.bytes chain = ascii (forwardedChain H headers peer) ∧ H.bytes proto = ascii "http".toList ∧
    shown.map H.bytes = (match requestHost H headers with
      | some text => [ascii text]
      | none => (H.getAll headers xForwardedHost).map H.bytes) ∧
    H.getAll (backendHeaders H headers peer) xForwardedFor =
      (if xForwardedFor ∈ connectionNamed H headers then [] else [chain]) ∧
    H.getAll (backendHeaders H headers peer) xForwardedProto =
      (if xForwardedProto ∈ connectionNamed H headers then [] else [proto]) ∧
    H.getAll (backendHeaders H headers peer) xForwardedHost =
      (if xForwardedHost ∈ connectionNamed H headers then [] else shown) ∧
    H.getAll (backendHeaders H headers peer) hostName =
      (if hostName ∈ connectionNamed H headers then [] else H.getAll headers hostName) := by
  rcases getAll_addForwardedHeaders headers peer with
    ⟨chain, proto, shown, hchain, hproto, hshown, h⟩
  have hget : H.get (addForwardedHeaders H headers peer (requestHost H headers)) connection =
      H.get headers connection := by
    rw [HeaderMap.get, h, if_neg (by decide), if_neg (by decide), if_neg (by decide)]
    rfl
  have hnamed : connectionNamed H (addForwardedHeaders H headers peer (requestHost H headers)) =
      connectionNamed H headers := by
    rw [connectionNamed, connectionNamed, hget]
  have hout : ∀ name ∉ hopByHop, H.getAll (backendHeaders H headers peer) name =
      if name ∈ connectionNamed H headers then [] else
        H.getAll (addForwardedHeaders H headers peer (requestHost H headers)) name := by
    intro name hname
    rw [backendHeaders, getAll_stripHopByHop, hnamed]
    simp only [hname, false_or]
  refine ⟨chain, proto, shown, hchain, hproto, hshown, ?_, ?_, ?_, ?_⟩
  · rw [hout _ (by decide), h, if_neg (by decide : xForwardedFor ≠ xForwardedHost),
      if_neg (by decide : xForwardedFor ≠ xForwardedProto), if_pos rfl]
  · rw [hout _ (by decide), h, if_neg (by decide : xForwardedProto ≠ xForwardedHost), if_pos rfl]
  · rw [hout _ (by decide), h, if_pos rfl]
  · rw [hout _ (by decide), h, if_neg (by decide : hostName ≠ xForwardedHost),
      if_neg (by decide : hostName ≠ xForwardedProto),
      if_neg (by decide : hostName ≠ xForwardedFor)]

/-- All there is to tell the backend of a client, in the headers it gets. -/
structure Told (headers : H.Map) (peer : SocketAddr) (out : H.Map) : Prop where
  /-- All elements of all lines, in order, and the peer. -/
  forwardedFor : H.allElements out xForwardedFor =
    H.allElements headers xForwardedFor ++ [ascii peer.ip.chars]
  proto : (H.getAll out xForwardedProto).map H.bytes = [ascii "http".toList]
  forwardedHost : ∀ host rest, H.getAll headers hostName = host :: rest →
    (H.getAll out xForwardedHost).map H.bytes = [H.bytes host]
  host : H.getAll out hostName = H.getAll headers hostName

/-- Headers that do not get in the way of the two passes. -/
structure Unspoiled (headers : H.Map) : Prop where
  /-- The first line is text, and no other has an element. -/
  forwardedFor : ∀ first rest, H.getAll headers xForwardedFor = first :: rest →
    H.Visible first ∧ ∀ value ∈ rest, elements (H.bytes value) = []
  keepsFor : ¬ ClientNames headers xForwardedFor
  keepsProto : ¬ ClientNames headers xForwardedProto
  /-- The `Host` is text, or the client's `X-Forwarded-Host` happens to be the same. -/
  host : ∀ host rest, H.getAll headers hostName = host :: rest →
    H.Visible host ∨ (H.getAll headers xForwardedHost).map H.bytes = [H.bytes host]
  keepsForwardedHost : H.getAll headers hostName ≠ [] → ¬ ClientNames headers xForwardedHost
  keepsHost : H.getAll headers hostName ≠ [] → ¬ ClientNames headers hostName

/-- The elements of the chain. -/
lemma elements_forwardedChain (headers : H.Map) (peer : SocketAddr) :
    elements (ascii (forwardedChain H headers peer)) =
      (match H.getAll headers xForwardedFor with
        | first :: _ => if H.Visible first then elements (H.bytes first) else []
        | [] => []) ++ [ascii peer.ip.chars] := by
  rw [forwardedChain, HeaderMap.get]
  cases H.getAll headers xForwardedFor with
  | nil => exact elements_address [] (by simp) peer.ip
  | cons first rest =>
      simp only [List.head?_cons, Option.bind_some]
      by_cases hvisible : H.Visible first
      · rw [HeaderMap.toStr, if_pos hvisible, if_pos hvisible]
        simp only [ascii_append, ascii_chars hvisible]
        have hcomma : ascii ", ".toList = [44, 32] := by decide
        rw [hcomma, List.append_assoc, List.cons_append, elements_append_comma]
        exact congrArg _ (elements_address [32] (by simp) peer.ip)
      · rw [HeaderMap.toStr, if_neg hvisible, if_neg hvisible]
        exact elements_address [] (by simp) peer.ip

/-- The chain is complete exactly when one line of text holds all there was. -/
lemma elements_forwardedChain_iff (headers : H.Map) (peer : SocketAddr) :
    elements (ascii (forwardedChain H headers peer)) =
        H.allElements headers xForwardedFor ++ [ascii peer.ip.chars] ↔
      ∀ first rest, H.getAll headers xForwardedFor = first :: rest →
        H.Visible first ∧ ∀ value ∈ rest, elements (H.bytes value) = [] := by
  rw [elements_forwardedChain, List.append_left_inj, HeaderMap.allElements]
  cases H.getAll headers xForwardedFor with
  | nil => simp
  | cons first rest =>
      rw [List.flatMap_cons]
      by_cases hvisible : H.Visible first
      · simp only [hvisible, if_true]
        constructor
        · rintro h _ _ ⟨rfl, rfl⟩
          exact ⟨hvisible, List.flatMap_eq_nil_iff.mp (List.self_eq_append_right.mp h)⟩
        · intro h
          rw [List.flatMap_eq_nil_iff.mpr (h first rest rfl).2, List.append_nil]
      · simp only [hvisible, if_false]
        constructor
        · intro h
          have hnone := (List.append_eq_nil_iff.mp h.symm).1
          exact absurd hnone (elements_ne_nil_of_not_visible hvisible)
        · intro h
          exact absurd (h first rest rfl).1 hvisible

/-- The host is shown as it is exactly when it is text, or was there already. -/
lemma shown_iff {host : H.Value} {rest : List H.Value}
    (hhost : H.getAll headers hostName = host :: rest) :
    (match requestHost H headers with
      | some text => [ascii text]
      | none => (H.getAll headers xForwardedHost).map H.bytes) = [H.bytes host] ↔
    H.Visible host ∨ (H.getAll headers xForwardedHost).map H.bytes = [H.bytes host] := by
  have hrequest : requestHost H headers = H.toStr host := by
    rw [requestHost, HeaderMap.get, hhost]
    rfl
  rw [hrequest]
  by_cases hvisible : H.Visible host
  · simp only [HeaderMap.toStr, hvisible, if_true, ascii_chars hvisible, true_or]
  · simp only [HeaderMap.toStr, hvisible, if_false, false_or]

/-! ### What the passes leave of each -/

lemma allElements_forwardedFor_iff (headers : H.Map) (peer : SocketAddr) :
    H.allElements (backendHeaders H headers peer) xForwardedFor =
        H.allElements headers xForwardedFor ++ [ascii peer.ip.chars] ↔
      (∀ first rest, H.getAll headers xForwardedFor = first :: rest →
        H.Visible first ∧ ∀ value ∈ rest, elements (H.bytes value) = []) ∧
      ¬ ClientNames headers xForwardedFor := by
  rcases getAll_backendHeaders headers peer with ⟨chain, -, -, hchain, -, -, hout, -⟩
  rw [← elements_forwardedChain_iff headers peer, HeaderMap.allElements, hout]
  simp only [mem_connectionNamed]
  by_cases hnamed : ClientNames headers xForwardedFor
  · simp [hnamed]
  · simp [hnamed, hchain]

lemma getAll_proto_iff (headers : H.Map) (peer : SocketAddr) :
    (H.getAll (backendHeaders H headers peer) xForwardedProto).map H.bytes = [ascii "http".toList] ↔
      ¬ ClientNames headers xForwardedProto := by
  rcases getAll_backendHeaders headers peer with ⟨-, proto, -, -, hproto, -, -, hout, -⟩
  rw [hout]
  simp only [mem_connectionNamed]
  by_cases hnamed : ClientNames headers xForwardedProto
  · simp [hnamed]
  · simp [hnamed, hproto]

lemma getAll_forwardedHost_iff (peer : SocketAddr) {host : H.Value} {rest : List H.Value}
    (hhost : H.getAll headers hostName = host :: rest) :
    (H.getAll (backendHeaders H headers peer) xForwardedHost).map H.bytes = [H.bytes host] ↔
      (H.Visible host ∨ (H.getAll headers xForwardedHost).map H.bytes = [H.bytes host]) ∧
      ¬ ClientNames headers xForwardedHost := by
  rcases getAll_backendHeaders headers peer with ⟨-, -, shown, -, -, hshown, -, -, hout, -⟩
  rw [← shown_iff hhost, ← hshown, hout]
  simp only [mem_connectionNamed]
  by_cases hnamed : ClientNames headers xForwardedHost
  · simp [hnamed]
  · simp [hnamed]

lemma getAll_host_iff (headers : H.Map) (peer : SocketAddr) :
    H.getAll (backendHeaders H headers peer) hostName = H.getAll headers hostName ↔
      (H.getAll headers hostName ≠ [] → ¬ ClientNames headers hostName) := by
  rcases getAll_backendHeaders headers peer with ⟨-, -, -, -, -, -, -, -, -, hout⟩
  rw [hout]
  simp only [mem_connectionNamed]
  by_cases hnamed : ClientNames headers hostName
  · rw [if_pos hnamed]
    constructor
    · intro hkept hne
      exact absurd hkept.symm hne
    · intro h
      by_contra hne
      exact h (Ne.symm hne) hnamed
  · simp [hnamed]

/-- **What the backend is told.**  It is told all there is to tell exactly when at most the first
`X-Forwarded-For` line says anything and is text, the `Host` is text, and the client's first
`Connection` line names none of the headers that are to tell it. -/
theorem told_iff (H : HeaderMap) (headers : H.Map) (peer : SocketAddr) :
    Told headers peer (backendHeaders H headers peer) ↔ Unspoiled headers := by
  constructor
  · intro h
    have hfor := (allElements_forwardedFor_iff headers peer).mp h.forwardedFor
    have hshown := fun host rest heq =>
      (getAll_forwardedHost_iff peer heq).mp (h.forwardedHost host rest heq)
    refine ⟨hfor.1, hfor.2, (getAll_proto_iff headers peer).mp h.proto,
      fun host rest heq => (hshown host rest heq).1, ?_, (getAll_host_iff headers peer).mp h.host⟩
    intro hne
    rcases List.exists_cons_of_ne_nil hne with ⟨host, rest, heq⟩
    exact (hshown host rest heq).2
  · intro h
    refine ⟨(allElements_forwardedFor_iff headers peer).mpr ⟨h.forwardedFor, h.keepsFor⟩,
      (getAll_proto_iff headers peer).mpr h.keepsProto, ?_,
      (getAll_host_iff headers peer).mpr h.keepsHost⟩
    intro host rest heq
    have hne : H.getAll headers hostName ≠ [] := by
      rw [heq]
      simp
    exact (getAll_forwardedHost_iff peer heq).mpr
      ⟨h.host host rest heq, h.keepsForwardedHost hne⟩

/-- A client of a host that sends what it likes in `X-Forwarded-For` and `Connection`. -/
def clientHeaders (named : List Char) (prior : List (List Char)) : fieldLines.Map :=
  (hostName, ascii "example.com".toList) :: (connection, ascii named) ::
    prior.map fun text => (xForwardedFor, ascii text)

def localhost : SocketAddr := .v4 (BitVec.ofNat 32 0x7f000001) 8080

/-- The headers of a client that names the header in `Connection`. -/
def suppressing : fieldLines.Map := clientHeaders "X-Forwarded-For".toList ["203.0.113.7".toList]

/-- The headers of a client that came through two proxies. -/
def twoLines : fieldLines.Map :=
  clientHeaders "close".toList ["203.0.113.7".toList, "198.51.100.2".toList]

/-- **A client suppresses what Head records of it**: the backend gets no `X-Forwarded-For` from the
first of these, and from the second one that lacks an element. -/
theorem connection_suppresses :
    (fieldLines.getAll (backendHeaders fieldLines suppressing localhost) xForwardedFor = [] ∧
      ¬ Told suppressing localhost (backendHeaders fieldLines suppressing localhost)) ∧
    (fieldLines.allElements (backendHeaders fieldLines twoLines localhost) xForwardedFor =
        [ascii "203.0.113.7".toList, ascii "127.0.0.1".toList] ∧
      ¬ Told twoLines localhost (backendHeaders fieldLines twoLines localhost)) := by
  refine ⟨⟨by decide, ?_⟩, ⟨by decide, ?_⟩⟩
  · intro h
    exact absurd h.forwardedFor (by decide)
  · intro h
    exact absurd h.forwardedFor (by decide)

end Radii
