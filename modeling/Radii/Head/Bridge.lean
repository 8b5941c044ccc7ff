import Radii.Crawl.Stored

/-!
# Head's bridge to Crawl

`handle_connection` and `relay` of `crates/head/src/radii.rs`, together with the Crawl of
`Radii.Crawl.Server`: a client that sends a message once its last one is acknowledged, Head that
relays it over one upstream session and sends it again on a new session when the first attempt
fails, and Crawl that serves each of Head's sessions as a connection of its own.  A session Head
has given up may still hold a frame, and Crawl may still be at work on it.

Frames carry no number, so Crawl cannot tell a late first copy from a new message; `Orderly` says
of a step that it is not the late application of such a copy.
-/

namespace Radii

open Sync Collections

/-! ## The system -/

/-- Who the bridge's frames come from: the identity Crawl authenticated Head as, the one Head
authenticated its client as, and the client's address. -/
structure Via where
  peer : Option String
  clientIdentity : Option String
  source : String

/-- The envelope of a message. -/
def Via.wrap (via : Via) (r : RelayedMessage) : RadiiMessage :=
  .fromHead via.source via.clientIdentity r

/-- A session between Head and Crawl; messages are numbered in the order the client sent them. -/
structure Session where
  /-- Frames Head wrote and Crawl has not read. -/
  toCrawl : List ℕ
  /-- Replies Crawl wrote and Head has not read. -/
  toHead : List RadiiMessage
  /-- The frame Crawl read last. -/
  reading : Option ℕ

def Session.blank : Session := ⟨[], [], none⟩

/-- Where Head's loop stands. -/
inductive HeadState where
  /-- Waiting for the client, with or without an upstream session. -/
  | idle (upstream : Option ℕ)
  /-- Waiting in `relay` for the reply to the client's last message. -/
  | relaying (retried : Bool) (session : ℕ)
  /-- The client's connection has ended. -/
  | closed

/-- The client, Head and Crawl.  Head's sessions are the connections of Crawl in `dialled`. -/
structure Bridge where
  sent : List RelayedMessage
  /-- How many acknowledgements the client has received. -/
  acked : ℕ
  head : HeadState
  dialled : Finset ℕ
  sessions : ℕ → Session
  crawl : CrawlConfig
  /-- The messages Crawl has applied, in the order it did. -/
  handled : List ℕ

inductive BridgeEvent where
  | head
  | crawl (e : CrawlEvent)

namespace Bridge

def initial (crawl : CrawlConfig) : Bridge :=
  ⟨[], 0, .idle none, ∅, fun _ => .blank, crawl, []⟩

/-- The client sends a message. -/
def submit (b : Bridge) (r : RelayedMessage) : Bridge := { b with sent := b.sent ++ [r] }

/-- Head has a new session, connection `i` of Crawl. -/
def dial (b : Bridge) (i : ℕ) (c : CrawlConfig) : Bridge :=
  { b with dialled := insert i b.dialled, crawl := c }

def putSession (b : Bridge) (i : ℕ) (s : Session) : Bridge :=
  { b with sessions := Function.update b.sessions i s }

/-- Head writes the client's last message on session `i`, or fails to. -/
def relay (b : Bridge) (retried : Bool) (i : ℕ) (written : Bool) : Bridge :=
  { b with
    head := .relaying retried i
    sessions := Function.update b.sessions i
      { b.sessions i with
        toCrawl := (b.sessions i).toCrawl ++ if written then [b.sent.length - 1] else [] } }

/-- Head has read the reply, and the client the acknowledgement. -/
def acknowledge (b : Bridge) (i : ℕ) (rest : List RadiiMessage) : Bridge :=
  { b with
    acked := b.acked + 1
    head := .idle (some i)
    sessions := Function.update b.sessions i { b.sessions i with toHead := rest } }

def close (b : Bridge) : Bridge := { b with head := .closed }

def withCrawl (b : Bridge) (c : CrawlConfig) : Bridge := { b with crawl := c }

def record (b : Bridge) (n : ℕ) : Bridge := { b with handled := b.handled ++ [n] }

/-- Crawl's task for session `i` is about to apply message `n`, which is `r`. -/
def Applying (b : Bridge) (i n : ℕ) (r : RelayedMessage) : Prop :=
  i ∈ b.dialled ∧ (b.sessions i).reading = some n ∧ b.sent[n]? = some r ∧
    ∃ conn rest, b.crawl.conns i = some conn ∧ conn.prog = .access (applyUpdate r) rest

/-- The steps of Crawl that neither open a connection, read a frame, nor answer or apply one of
Head's. -/
def Other (b : Bridge) : CrawlEvent → Prop
  | .accept _ _ => False
  | .recv _ _ => False
  | .drain i => i ∉ b.dialled
  | .access i _ => ∀ n r, ¬ b.Applying i n r
  | _ => True

/-- Whether the client's message `n` is about the key. -/
def Concerns (b : Bridge) (key : StoreKey) (n : ℕ) : Prop :=
  ∃ r, b.sent[n]? = some r ∧ r.About key

end Bridge

/-- One step of the system.  Nobody but the client writes `key`. -/
inductive BridgeStep (via : Via) (key : StoreKey) : Bridge → BridgeEvent → Bridge → Prop where
  /-- Not a message Head relays: it is refused, and nothing is sent to Crawl. -/
  | refuse {b : Bridge} {upstream m err} (hhead : b.head = .idle upstream)
      (hm : RelayedMessage.tryFrom m = .error err) : BridgeStep via key b .head b
  | send {b : Bridge} {m r i} (written : Bool) (hhead : b.head = .idle (some i))
      (hm : RelayedMessage.tryFrom m = .ok r) :
      BridgeStep via key b .head ((b.submit r).relay false i written)
  | sendFirst {b : Bridge} {m r i c} (written : Bool) (hhead : b.head = .idle none)
      (hm : RelayedMessage.tryFrom m = .ok r) (hnew : i ∉ b.dialled)
      (hstep : Step crawl b.crawl (.accept i via.peer) c) :
      BridgeStep via key b .head (((b.submit r).dial i c).relay false i written)
  /-- The first attempt failed: the session is dropped, with what it still carries. -/
  | resend {b : Bridge} {i j c} (written : Bool) (hhead : b.head = .relaying false i)
      (hnew : j ∉ b.dialled) (hstep : Step crawl b.crawl (.accept j via.peer) c) :
      BridgeStep via key b .head ((b.dial j c).relay true j written)
  | ack {b : Bridge} {retried i out rest} (hhead : b.head = .relaying retried i)
      (hreply : (b.sessions i).toHead = out :: rest) :
      BridgeStep via key b .head (b.acknowledge i rest)
  /-- The client has gone, a dial failed, or the second attempt did. -/
  | close {b : Bridge} : BridgeStep via key b .head b.close
  | accept {b : Bridge} {i peer c} (hi : i ∉ b.dialled)
      (hstep : Step crawl b.crawl (.accept i peer) c) :
      BridgeStep via key b (.crawl (.accept i peer)) (b.withCrawl c)
  | recv {b : Bridge} {i n rest r c} (hi : i ∈ b.dialled)
      (hqueue : (b.sessions i).toCrawl = n :: rest) (hr : b.sent[n]? = some r)
      (hstep : Step crawl b.crawl (.recv i (via.wrap r)) c) :
      BridgeStep via key b (.crawl (.recv i (via.wrap r)))
        ((b.withCrawl c).putSession i ⟨rest, (b.sessions i).toHead, some n⟩)
  | recvOther {b : Bridge} {i m c} (hi : i ∉ b.dialled)
      (hm : ∀ r, m.claim = some r → ¬ r.About key) (hstep : Step crawl b.crawl (.recv i m) c) :
      BridgeStep via key b (.crawl (.recv i m)) (b.withCrawl c)
  | reply {b : Bridge} {i conn out rest c} (hi : i ∈ b.dialled)
      (hconn : b.crawl.conns i = some conn) (hprog : conn.prog = .reply out rest)
      (hstep : Step crawl b.crawl (.drain i) c) :
      BridgeStep via key b (.crawl (.drain i)) ((b.withCrawl c).putSession i
        { b.sessions i with toHead := (b.sessions i).toHead ++ [out] })
  | apply {b : Bridge} {i n r env c} (happ : b.Applying i n r)
      (hstep : Step crawl b.crawl (.access i env) c) :
      BridgeStep via key b (.crawl (.access i env)) ((b.withCrawl c).record n)
  | other {b : Bridge} {e c} (he : b.Other e) (hstep : Step crawl b.crawl e c) :
      BridgeStep via key b (.crawl e) (b.withCrawl c)

/-- A run all of whose steps satisfy `ok`. -/
def BridgeRun (via : Via) (key : StoreKey) (ok : Bridge → BridgeEvent → Prop) :
    Bridge → Bridge → Prop :=
  Relation.ReflTransGen fun b b' => ∃ e, ok b e ∧ BridgeStep via key b e b'

/-- Crawl applies no frame about the key from a session Head has given up once it has applied a
later message about it. -/
def Orderly (key : StoreKey) (b : Bridge) (e : BridgeEvent) : Prop :=
  ∀ i env n r, e = .crawl (.access i env) → b.Applying i n r → r.About key →
    (∀ retried, b.head ≠ .relaying retried i) →
    ∀ m ∈ b.handled, b.Concerns key m → m ≤ n

end Radii
