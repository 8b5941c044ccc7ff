import Radii.Foundations.Codec
import Radii.Proto.ServerName

/-!
# Who is at the other end

`accept_on`, `dial_expecting` and `connect_on` of `crates/proto/src/tls.rs`, and what they read off
a certificate.  The handshakes are rustls's and the reading of a certificate is x509_parser's;
`Rustls` is what comes of them.

* `connectOn_named` — a connection that expects a node is to somebody who holds a certificate for
  it.
* `acceptOn_named` — and the name an accepted connection comes with is its client's.

Both rest on `Rustls.Genuine`: nobody completes a handshake under a certificate that is not his.
-/

namespace Radii

open Wire

namespace Tls

/-- A certificate, in DER. -/
abbrev Certificate := Bytes

/-- What a handshake leaves behind: the verified certificates of the peer, its own first. -/
structure Session where
  peerCertificates : Option (List Certificate)

inductive TlsError where
  /-- An error of the connection, or of the handshake. -/
  | handshake
  /-- `invalid TLS server name in address …`. -/
  | serverName (addr : String)
  | certificate (text : String)
  /-- `upstream … authenticated as node …, expected …`. -/
  | authenticatedAs (sniAddr actual expected : String)
  deriving DecidableEq

/-- The libraries: `I` is a loaded identity, `σ` a stream that a session can be run over. -/
structure Rustls (I σ : Type) where
  isServerName : List Char → Bool
  connect : I → List Char → σ → Except TlsError Session
  accept : I → σ → Except TlsError Session
  /-- The common names of the subject, `none` for one that is no text; `none` if it does not parse.
  -/
  commonNames : Certificate → Option (List (Option String))

/-- A stream, in a session or not. -/
inductive BoxedStream (σ : Type) where
  | plain (stream : σ)
  | tls (session : Session) (stream : σ)

variable {I σ : Type} (tls : Rustls I σ)

/-! ## The code -/

/-- `peer_common_name`. -/
def peerCommonName (cert : Certificate) : Except TlsError String :=
  match tls.commonNames cert with
  | none => .error (.certificate "parsing peer certificate")
  | some names =>
      match names.head?.join with
      | some commonName => .ok commonName
      | none => .error (.certificate "peer certificate has no Subject CN")

/-- What `client_identity_of` and `server_identity_of` do. -/
def identityOf (missing empty : String) (session : Session) : Except TlsError String :=
  match session.peerCertificates with
  | none => .error (.certificate missing)
  | some [] => .error (.certificate empty)
  | some (leaf :: _) => peerCommonName tls leaf

def clientIdentityOf (session : Session) : Except TlsError String :=
  identityOf tls "no client certificate presented" "empty client certificate chain" session

def serverIdentityOf (session : Session) : Except TlsError String :=
  identityOf tls "no server certificate presented" "empty server certificate chain" session

/-- `accept_on`. -/
def acceptOn (stream : σ) (identity : Option I) :
    Except TlsError (BoxedStream σ × Option String) :=
  match identity with
  | some identity => do
      let session ← tls.accept identity stream
      let peer ← clientIdentityOf tls session
      pure (.tls session stream, some peer)
  | none => .ok (.plain stream, none)

/-- `connect_on`. -/
def connectOn (stream : σ) (sniAddr : String) (identity : Option I) (expected : Option String) :
    Except TlsError (BoxedStream σ) :=
  match identity with
  | some identity =>
      match serverNameForAddr tls.isServerName sniAddr.toList with
      | none => .error (.serverName sniAddr)
      | some serverName => do
          let session ← tls.connect identity serverName stream
          match expected with
          | none => pure (.tls session stream)
          | some expected => do
              let actual ← serverIdentityOf tls session
              if actual ≠ expected then .error (.authenticatedAs sniAddr actual expected)
              else pure (.tls session stream)
  | none => .ok (.plain stream)

/-- `dial_expecting`; `tcp` is the connection it opens. -/
def dialExpecting (tcp : String → Except TlsError σ) (addr : String) (identity : Option I)
    (expected : Option String) : Except TlsError (BoxedStream σ) := do
  let stream ← tcp addr
  connectOn tls stream addr identity expected

/-! ## Whom a session is with -/

/-- Whoever is at the other end of a stream holds the certificate under which a handshake on it
completes. -/
structure Rustls.Genuine (holds : σ → Certificate → Prop) : Prop where
  connect : ∀ identity serverName stream session leaf issuers,
    tls.connect identity serverName stream = .ok session →
      session.peerCertificates = some (leaf :: issuers) → holds stream leaf
  accept : ∀ identity stream session leaf issuers, tls.accept identity stream = .ok session →
    session.peerCertificates = some (leaf :: issuers) → holds stream leaf

variable {tls} {holds : σ → Certificate → Prop}

/-- An identity is read off the certificate of the peer itself. -/
lemma identityOf_eq_ok {missing empty nodeId : String} {session : Session}
    (h : identityOf tls missing empty session = .ok nodeId) :
    ∃ leaf issuers, session.peerCertificates = some (leaf :: issuers) ∧
      peerCommonName tls leaf = .ok nodeId := by
  rw [identityOf] at h
  split at h
  · simp at h
  · simp at h
  · rename_i leaf issuers hcerts
    exact ⟨leaf, issuers, hcerts, h⟩

/-- **Whoever answers as a node holds a certificate for it**, wherever the address leads. -/
theorem connectOn_named (hgenuine : tls.Genuine holds) {stream : σ} {sniAddr nodeId : String}
    {identity : I} {secured : BoxedStream σ}
    (h : connectOn tls stream sniAddr (some identity) (some nodeId) = .ok secured) :
    ∃ leaf, holds stream leaf ∧ peerCommonName tls leaf = .ok nodeId := by
  rw [connectOn] at h
  cases hname : serverNameForAddr tls.isServerName sniAddr.toList with
  | none => simp [hname] at h
  | some serverName =>
      rw [hname] at h
      cases hsession : tls.connect identity serverName stream with
      | error e => simp [hsession, bind, Except.bind] at h
      | ok session =>
          cases hactual : serverIdentityOf tls session with
          | error e => simp [hsession, hactual, bind, Except.bind] at h
          | ok actual =>
              simp only [hsession, hactual, bind, Except.bind] at h
              split_ifs at h with hother
              rw [not_ne_iff] at hother
              subst hother
              rcases identityOf_eq_ok hactual with ⟨leaf, issuers, hcerts, hcommon⟩
              exact ⟨leaf, hgenuine.connect _ _ _ _ _ _ hsession hcerts, hcommon⟩

/-- **A client comes under its own name.** -/
theorem acceptOn_named (hgenuine : tls.Genuine holds) {stream : σ} {peer : String}
    {identity : I} {secured : BoxedStream σ}
    (h : acceptOn tls stream (some identity) = .ok (secured, some peer)) :
    ∃ leaf, holds stream leaf ∧ peerCommonName tls leaf = .ok peer := by
  rw [acceptOn] at h
  cases hsession : tls.accept identity stream with
  | error e => simp [hsession, bind, Except.bind] at h
  | ok session =>
      cases hclient : clientIdentityOf tls session with
      | error e => simp [hsession, hclient, bind, Except.bind] at h
      | ok client =>
          simp only [hsession, hclient, bind, Except.bind, pure, Except.pure, Except.ok.injEq,
            Prod.mk.injEq, Option.some.injEq] at h
          obtain rfl := h.2
          rcases identityOf_eq_ok hclient with ⟨leaf, issuers, hcerts, hcommon⟩
          exact ⟨leaf, hgenuine.accept _ _ _ _ _ hsession hcerts, hcommon⟩

end Tls

end Radii
