import Radii.Foundations.ByteStream
import Radii.Proto.Validate

/-!
# Frames

`write_message` and `read_message`: a frame is the payload's length, four bytes big-endian, and
then the postcard encoding of the message.  The writer checks the length only; the reader checks
the length, the hop count and every bound of `validate_message`.

The two results here are about whole streams:

* **what is written is read** (`readMessages_frames`): a list of messages written one after
  another is read back as that list, from any chunking, and nothing beyond it is consumed;
* **what is read can be written** (`readMessage_sound`, `fits_of_readMessage`): whatever bytes the
  reader accepted, the message they stand for is within every bound, and fits a frame again.
-/

namespace Radii

open Wire

/-! ## Length prefix -/

/-- `u32::to_be_bytes`. -/
def toBeBytes (n : ℕ) : Bytes :=
  [UInt8.ofNat (n / 2 ^ 24 % 256), UInt8.ofNat (n / 2 ^ 16 % 256), UInt8.ofNat (n / 2 ^ 8 % 256),
    UInt8.ofNat (n % 256)]

/-- `u32::from_be_bytes`. -/
def fromBeBytes (bytes : Bytes) : ℕ := bytes.foldl (fun acc b => 256 * acc + b.toNat) 0

@[simp] lemma toBeBytes_length (n : ℕ) : (toBeBytes n).length = 4 := rfl

lemma fromBeBytes_toBeBytes {n : ℕ} (h : n < 2 ^ 32) : fromBeBytes (toBeBytes n) = n := by
  simp only [toBeBytes, fromBeBytes, List.foldl_cons, List.foldl_nil]
  rw [toNat_ofNat_of_lt (by omega), toNat_ofNat_of_lt (by omega), toNat_ofNat_of_lt (by omega),
    toNat_ofNat_of_lt (by omega)]
  omega

/-! ## Writer and reader -/

/-- Why a frame was not written or not read.  `bail` carries the source's own text. -/
inductive WireError where
  | unexpectedEof
  | postcard
  | bail (text : String)
  deriving DecidableEq, Repr

/-- The two pieces `write_message` hands to `write_all`: length prefix and payload. -/
def frameParts (message : RadiiMessage) : Except WireError (Bytes × Bytes) :=
  let payload := encodeMessage message
  let len := payload.length
  if 2 ^ 32 ≤ len then .error (.bail "frame too large")
  else if len > maxFrameLen then
    .error (.bail s!"frame length {len} exceeds max {maxFrameLen}")
  else .ok (toBeBytes len, payload)

/-- `write_message` into a sink that takes every byte. -/
def writeMessage (sink : Bytes) (message : RadiiMessage) : Except WireError Bytes :=
  (frameParts message).map fun parts => sink ++ parts.1 ++ parts.2

def writeMessages (sink : Bytes) : List RadiiMessage → Except WireError Bytes
  | [] => .ok sink
  | m :: ms => (writeMessage sink m).bind fun sink => writeMessages sink ms

/-- Turns an exhausted stream into the reader's error. -/
def orEof {α : Type} : Option α → Except WireError α
  | some a => .ok a
  | none => .error .unexpectedEof

/-- What the reader does with a complete payload: decode it, ignoring trailing bytes, and check
the result. -/
def decodePayload (payload : Bytes) : Except WireError RadiiMessage :=
  match decodeMessage payload with
  | none => .error .postcard
  | some (message, _) =>
      match andThen (validateHopCount message) (validateMessage message) with
      | .error text => .error (.bail text)
      | .ok () => .ok message

/-- `read_message`. -/
def readMessage (cs : Chunks) : Except WireError (RadiiMessage × Chunks) :=
  (orEof (readExact 4 cs)).bind fun r =>
    let len := fromBeBytes r.1
    if len > maxFrameLen then
      .error (.bail s!"frame length {len} exceeds max {maxFrameLen}")
    else
      (orEof (readExact len r.2)).bind fun s =>
        (decodePayload s.1).map fun message => (message, s.2)

/-- `read_message` called `n` times. -/
def readMessages : ℕ → Chunks → Except WireError (List RadiiMessage × Chunks)
  | 0, cs => .ok ([], cs)
  | n + 1, cs => (readMessage cs).bind fun r =>
      (readMessages n r.2).map fun s => (r.1 :: s.1, s.2)

/-! ## One frame -/

/-- The bytes of a message's frame. -/
def frame (message : RadiiMessage) : Bytes :=
  toBeBytes (encodeMessage message).length ++ encodeMessage message

/-- A message whose encoding fits is written, as its frame. -/
lemma frameParts_eq_ok {m : RadiiMessage} (h : (encodeMessage m).length ≤ maxFrameLen) :
    frameParts m = .ok (toBeBytes (encodeMessage m).length, encodeMessage m) := by
  have h32 : ¬ 2 ^ 32 ≤ (encodeMessage m).length := by
    have : maxFrameLen < 2 ^ 32 := by decide
    omega
  simp only [frameParts, if_neg h32, gt_iff_lt, if_neg (Nat.not_lt.mpr h)]

lemma frameParts_sound {m : RadiiMessage} {parts : Bytes × Bytes} (h : frameParts m = .ok parts) :
    (encodeMessage m).length ≤ maxFrameLen ∧ parts.1 ++ parts.2 = frame m := by
  simp only [frameParts] at h
  split_ifs at h
  simp only [Except.ok.injEq] at h
  subst h
  exact ⟨by omega, rfl⟩

lemma writeMessage_eq_ok (sink : Bytes) {m : RadiiMessage}
    (h : (encodeMessage m).length ≤ maxFrameLen) :
    writeMessage sink m = .ok (sink ++ frame m) := by
  simp [writeMessage, frameParts_eq_ok h, Except.map, frame]

lemma decodePayload_eq_ok {payload : Bytes} {m : RadiiMessage} :
    decodePayload payload = .ok m ↔
      (∃ rest, decodeMessage payload = some (m, rest)) ∧ Readable m := by
  rw [decodePayload, Readable]
  cases hd : decodeMessage payload with
  | none => simp
  | some r =>
      rcases r with ⟨m', rest⟩
      simp only [Option.some.injEq, Prod.mk.injEq]
      cases hv : andThen (validateHopCount m') (validateMessage m') with
      | error text =>
          simp only [reduceCtorEq, false_iff, not_and]
          rintro ⟨rest', rfl, rfl⟩ hh hm
          rw [andThen_eq_ok.mpr ⟨hh, hm⟩] at hv
          simp at hv
      | ok u =>
          have hok := andThen_eq_ok.mp hv
          simp only [Except.ok.injEq]
          constructor
          · rintro rfl
            exact ⟨⟨rest, rfl, rfl⟩, hok⟩
          · rintro ⟨⟨rest', rfl, -⟩, -⟩
            rfl

/-- **The reader, in terms of the concatenated stream.**  It returns a message exactly when the
stream starts with a length prefix within the limit, that many payload bytes follow, and they
decode to a message within every bound; it leaves what comes after. -/
lemma readMessage_append {header payload tail : Bytes} {cs : Chunks} {m : RadiiMessage}
    (hheader : header.length = 4) (hlen : fromBeBytes header = payload.length)
    (hfit : payload.length ≤ maxFrameLen) (hm : decodePayload payload = .ok m)
    (hcs : cs.flatten = header ++ payload ++ tail) :
    ∃ rest, readMessage cs = .ok (m, rest) ∧ rest.flatten = tail := by
  obtain ⟨mid, hread, hmid⟩ := readExact_append
    (show cs.flatten = header ++ (payload ++ tail) by rw [hcs, List.append_assoc])
  rcases readExact_append hmid with ⟨rest, hread', hrest⟩
  rw [hheader] at hread
  refine ⟨rest, ?_, hrest⟩
  simp only [readMessage, hread, orEof, Except.bind, hlen, gt_iff_lt,
    if_neg (Nat.not_lt.mpr hfit), hread', hm, Except.map]

theorem readMessage_sound {cs rest : Chunks} {m : RadiiMessage}
    (h : readMessage cs = .ok (m, rest)) :
    ∃ header payload, cs.flatten = header ++ payload ++ rest.flatten ∧ header.length = 4 ∧
      fromBeBytes header = payload.length ∧ payload.length ≤ maxFrameLen ∧
      decodePayload payload = .ok m := by
  rw [readMessage] at h
  cases hh : readExact 4 cs with
  | none => simp [hh, orEof, Except.bind] at h
  | some r =>
      rcases r with ⟨header, mid⟩
      rcases readExact_sound hh with ⟨hlen4, hcs⟩
      simp only [hh, orEof, Except.bind] at h
      split_ifs at h with hbig
      cases hp : readExact (fromBeBytes header) mid with
      | none => simp [hp] at h
      | some s =>
          rcases s with ⟨payload, rest'⟩
          rcases readExact_sound hp with ⟨hlen, hmid⟩
          simp only [hp] at h
          cases hm : decodePayload payload with
          | error e => simp [hm, Except.map] at h
          | ok m' =>
              simp only [hm, Except.map, Except.ok.injEq, Prod.mk.injEq] at h
              rcases h with ⟨rfl, rfl⟩
              exact ⟨header, payload, by rw [hcs, hmid, List.append_assoc], hlen4, hlen.symm,
                by omega, hm⟩

/-- The reader takes the frame of a readable message and nothing else. -/
lemma readMessage_frame {m : RadiiMessage} (hm : Readable m)
    (hfit : (encodeMessage m).length ≤ maxFrameLen) {cs : Chunks} {tail : Bytes}
    (hcs : cs.flatten = frame m ++ tail) :
    ∃ rest, readMessage cs = .ok (m, rest) ∧ rest.flatten = tail := by
  have hmax : maxFrameLen < 2 ^ 32 := by decide
  have hdec : decodeMessage (encodeMessage m) = some (m, []) := by
    have := messageCodec.decode_encode m [] (by show (encodeMessage m).length < _; omega)
    rwa [List.append_nil] at this
  exact readMessage_append (toBeBytes_length _) (fromBeBytes_toBeBytes (by omega)) hfit
    (decodePayload_eq_ok.mpr ⟨⟨[], hdec⟩, hm⟩) (by rw [hcs, frame])

/-- A reader that has a frame only in part waits for the rest of it. -/
lemma readMessage_cut_short {m : RadiiMessage} (hfit : (encodeMessage m).length ≤ maxFrameLen)
    {cs : Chunks} {missing : Bytes} (hcs : cs.flatten ++ missing = frame m)
    (hmissing : missing ≠ []) : readMessage cs = .error .unexpectedEof := by
  have hmax : maxFrameLen < 2 ^ 32 := by decide
  have hlen := congrArg List.length hcs
  have hpos := List.length_pos_iff.mpr hmissing
  rw [List.length_append, frame, List.length_append, toBeBytes_length] at hlen
  rw [readMessage]
  by_cases hheader : cs.flatten.length < 4
  · rw [(readExact_eq 4 cs).2 hheader]
    rfl
  · rw [frame] at hcs
    obtain ⟨payload, hpayload⟩ :
      ∃ payload, cs.flatten = toBeBytes (encodeMessage m).length ++ payload := by
      rcases List.append_eq_append_iff.mp hcs with ⟨c, hc, -⟩ | ⟨c, hc, -⟩
      · have := congrArg List.length hc
        rw [List.length_append, toBeBytes_length] at this
        obtain rfl : c = [] := List.eq_nil_of_length_eq_zero (by omega)
        exact ⟨[], by rw [List.append_nil, hc, List.append_nil]⟩
      · exact ⟨c, hc⟩
    rcases readExact_append hpayload with ⟨mid, hread, hmid⟩
    rw [toBeBytes_length] at hread
    have hshort : mid.flatten.length < (encodeMessage m).length := by
      rw [hpayload, List.length_append, toBeBytes_length] at hlen
      rw [hmid]
      omega
    simp only [hread, orEof, Except.bind, fromBeBytes_toBeBytes (show (encodeMessage m).length < _
      by omega), gt_iff_lt, if_neg (Nat.not_lt.mpr hfit), (readExact_eq _ mid).2 hshort]

/-- A message that was read is readable, and its own encoding fits a frame: the reader accepts
non-canonical varints, but writing the message again never takes more bytes. -/
lemma fits_of_readMessage {cs rest : Chunks} {m : RadiiMessage}
    (h : readMessage cs = .ok (m, rest)) :
    Readable m ∧ (encodeMessage m).length ≤ maxFrameLen := by
  rcases readMessage_sound h with ⟨header, payload, -, -, -, hfit, hdec⟩
  rcases decodePayload_eq_ok.mp hdec with ⟨⟨trailing, hdec⟩, hm⟩
  obtain ⟨used, hused, hle⟩ := messageCodec.encode_le _ _ _ hdec
  have hlen := congrArg List.length hused
  rw [List.length_append] at hlen
  have hle' : (encodeMessage m).length ≤ used.length := hle
  exact ⟨hm, by omega⟩

/-- A message that crosses a connection: the writer takes it and the reader accepts it. -/
def Sendable (m : RadiiMessage) : Prop :=
  (encodeMessage m).length ≤ maxFrameLen ∧ Readable m

instance (m : RadiiMessage) : Decidable (Sendable m) :=
  inferInstanceAs (Decidable (_ ∧ _ ∧ _))

/-- That is what `Sendable` means. -/
lemma sendable_iff {m : RadiiMessage} :
    Sendable m ↔ ∃ stream rest, writeMessage [] m = .ok stream ∧
      readMessage [stream] = .ok (m, rest) := by
  constructor
  · rintro ⟨hfit, hm⟩
    obtain ⟨rest, hread, -⟩ := readMessage_frame hm hfit
      (show [frame m].flatten = frame m ++ [] by simp)
    exact ⟨frame m, rest, by simpa using writeMessage_eq_ok [] hfit, hread⟩
  · rintro ⟨stream, rest, -, hread⟩
    exact (fits_of_readMessage hread).symm

/-- What is read of a written message is that message, if anything is. -/
lemma readMessage_written {m m' : RadiiMessage} {written : Bytes} {rest : Chunks}
    (hwrite : writeMessage [] m = .ok written) (hread : readMessage [written] = .ok (m', rest)) :
    m' = m ∧ Readable m := by
  rw [writeMessage] at hwrite
  cases hparts : frameParts m with
  | error e => simp [hparts, Except.map] at hwrite
  | ok parts =>
      rcases frameParts_sound hparts with ⟨hfit, hframe⟩
      have hwritten : written = frame m := by
        rw [hparts, Except.map, Except.ok.injEq, List.nil_append, hframe] at hwrite
        exact hwrite.symm
      rcases readMessage_sound hread with ⟨header, payload, hsplit, hheader, hlen, -, hdec⟩
      rw [List.flatten_singleton, hwritten, frame, List.append_assoc] at hsplit
      rcases List.append_inj hsplit (by rw [toBeBytes_length, hheader]) with ⟨rfl, hpayload⟩
      have hmax : maxFrameLen < 2 ^ 32 := by decide
      rw [fromBeBytes_toBeBytes (by omega)] at hlen
      obtain ⟨rfl, -⟩ := List.append_inj
        ((List.append_nil _).trans hpayload : encodeMessage m ++ [] = payload ++ rest.flatten) hlen
      rcases decodePayload_eq_ok.mp hdec with ⟨⟨trailing, hdecoded⟩, hreadable⟩
      have hround := messageCodec.decode_encode m []
        (by show (encodeMessage m).length < _; omega)
      rw [List.append_nil] at hround
      have hsame := hdecoded.symm.trans hround
      simp only [Option.some.injEq, Prod.mk.injEq] at hsame
      exact ⟨hsame.1, hsame.1 ▸ hreadable⟩

/-- Nor is anything else read where a sendable message was written, whatever follows it and however
much of that has come. -/
lemma readMessage_of_frame {m m' : RadiiMessage} (hm : Sendable m) {cs rest : Chunks}
    {coming tail : Bytes} (hcs : cs.flatten ++ coming = frame m ++ tail)
    (hread : readMessage cs = .ok (m', rest)) : m' = m := by
  rcases readMessage_sound hread with ⟨header, payload, hsplit, hheader, hlen, -, hdec⟩
  rw [hsplit, frame, List.append_assoc, List.append_assoc, List.append_assoc] at hcs
  rcases List.append_inj hcs (by rw [toBeBytes_length, hheader]) with ⟨rfl, hpayload⟩
  have hfit := hm.1
  have hmax : maxFrameLen < 2 ^ 32 := by decide
  rw [fromBeBytes_toBeBytes (by omega)] at hlen
  obtain ⟨rfl, -⟩ := List.append_inj hpayload hlen.symm
  rcases decodePayload_eq_ok.mp hdec with ⟨⟨trailing, hdecoded⟩, -⟩
  have hround := messageCodec.decode_encode m [] (by show (encodeMessage m).length < _; omega)
  rw [List.append_nil] at hround
  have hsame := hdecoded.symm.trans hround
  simp only [Option.some.injEq, Prod.mk.injEq] at hsame
  exact hsame.1

lemma sendable_ack {status : String} (h : status.utf8ByteSize ≤ 256) : Sendable (.ack status) := by
  have hmax : maxFrameLen = 1048576 := rfl
  have h1 := Codec.str_length_le (s := status) (by omega)
  have h2 := putVarint_length_le_five u32 (n := 6) (by decide)
  refine ⟨?_, rfl, rfl⟩
  simp only [encodeMessage, Codec.putVariant, List.length_append]
  omega

/-- The bounds on the hops alone make a `TunnelOpen` fit a frame. -/
lemma sendable_tunnelOpen {hops : List RouteHop} :
    Sendable (.tunnelOpen hops) ↔ Readable (.tunnelOpen hops) := by
  refine ⟨fun h => h.2, fun h => ⟨?_, h⟩⟩
  rcases h with ⟨hcount, hbounds⟩
  have hcount : hops.length ≤ 32 := (validateHopCount_tunnelOpen.mp hcount).2
  simp only [validateMessage, forAll_eq_ok, andThen_eq_ok, validateNodeId, bounded_eq_ok] at hbounds
  have hhop : ∀ hop ∈ hops, (routeHopCodec.encode hop).length ≤ 522 := by
    intro hop hmem
    obtain ⟨hid, haddr⟩ := hbounds hop hmem
    have hid : hop.nodeId.utf8ByteSize ≤ 256 := hid
    have haddr : hop.addr.utf8ByteSize ≤ 256 := haddr
    have h1 := Codec.str_length_le (s := hop.nodeId) (by omega)
    have h2 := Codec.str_length_le (s := hop.addr) (by omega)
    simp only [routeHopCodec, Codec.imap, Codec.prod, List.length_append]
    omega
  have hmax : maxFrameLen = 1048576 := rfl
  have hseq := routeHopCodec.seq_length_le (fun _ => 522) (by omega) hhop
  have htag := putVarint_length_le_five u32 (n := 7) (by decide)
  simp only [List.map_const', List.sum_replicate, smul_eq_mul] at hseq
  simp only [encodeMessage, Codec.putVariant, List.length_append]
  omega

/-! ### Envelopes -/

/-- A string within a bound of the wire takes five bytes more at most. -/
lemma str_encode_le {s : String} {n : ℕ} (h : s.utf8ByteSize ≤ n) (hn : n < 2 ^ 35) :
    (Codec.str.encode s).length ≤ n + 5 :=
  (Codec.str_length_le (h.trans_lt hn)).trans (Nat.add_le_add_right h 5)

lemma optionStr_encode_le {o : Option String} {n : ℕ} (h : ∀ s ∈ o, s.utf8ByteSize ≤ n)
    (hn : n < 2 ^ 35) : (Codec.str.option.encode o).length ≤ n + 6 := by
  cases o with
  | none => exact Nat.le_add_left 1 (n + 5)
  | some s => exact Nat.add_le_add_right (str_encode_le (h s rfl) hn) 1

lemma hello_encode_le {nodeId : String} {roles : List String} {listenAddrs : List ListenAddr}
    (h : ValidHello nodeId roles listenAddrs) :
    (helloCodec.encode (nodeId, roles, listenAddrs)).length ≤ 7000 := by
  have hid : (Codec.str.encode nodeId).length ≤ 261 := str_encode_le h.nodeId_le (by decide)
  have hroles := Codec.str.seq_length_le (fun _ => 69) (h.roles_le.trans_lt (by decide))
    fun role hrole => str_encode_le (h.role_le role hrole) (by decide)
  have haddrs := listenAddrCodec.seq_length_le (fun _ => 330) (h.addrs_le.trans_lt (by decide))
    fun entry hentry => by
      have haddr : (Codec.str.encode entry.addr).length ≤ 261 :=
        str_encode_le (h.addr_le entry hentry).1 (by decide)
      have hrole : (Codec.str.encode entry.role).length ≤ 69 :=
        str_encode_le (h.addr_le entry hentry).2 (by decide)
      simp only [listenAddrCodec, Codec.imap, Codec.prod, List.length_append]
      omega
  have hrolesCount : roles.length ≤ 16 := h.roles_le
  have haddrsCount : listenAddrs.length ≤ 16 := h.addrs_le
  simp only [List.map_const', List.sum_replicate, smul_eq_mul] at hroles haddrs
  simp only [helloCodec, Codec.prod, List.length_append]
  omega

/-- A relayed message is far smaller than a frame. -/
lemma relayed_encode_le {r : RelayedMessage} (h : validateRelayed r = .ok ()) :
    (encodeRelayed r).length ≤ 8000 := by
  cases r with
  | nodeHello nodeId roles listenAddrs =>
      have hfields := hello_encode_le (validateHello_eq_ok.mp h)
      have htag := putVarint_length_le_five u32 (n := 0) (by decide)
      simp only [encodeRelayed, Codec.putVariant, List.length_append]
      omega
  | reachabilityProbe fromId toId sentAt =>
      simp only [validateRelayed, validateProbe, andThen_eq_ok, validateNodeId,
        bounded_eq_ok] at h
      have hfrom : (Codec.str.encode fromId).length ≤ 261 := str_encode_le h.1 (by decide)
      have hto : (Codec.str.encode toId).length ≤ 261 := str_encode_le h.2 (by decide)
      have htime : (Codec.uint64.encode sentAt).length ≤ 10 :=
        varintBytes_length_le _ 9 _ (sentAt.toNat_lt.trans (by norm_num))
      have htag := putVarint_length_le_five u32 (n := 1) (by decide)
      simp only [encodeRelayed, Codec.putVariant, probeCodec, Codec.prod, List.length_append]
      omega
  | reachabilityReport fromId target protocol reachable rttMs observedAddr =>
      have hvalid := validateReport_eq_ok.mp h
      have hfrom : (Codec.str.encode fromId).length ≤ 261 :=
        str_encode_le hvalid.from_le (by decide)
      have htarget : (Codec.str.encode target).length ≤ 261 :=
        str_encode_le hvalid.target_le (by decide)
      have hprotocol : (Codec.str.encode protocol).length ≤ 69 :=
        str_encode_le hvalid.protocol_le (by decide)
      have hobserved : (Codec.str.option.encode observedAddr).length ≤ 262 :=
        optionStr_encode_le hvalid.observed_le (by decide)
      have hrtt : (Codec.uint32.option.encode rttMs).length ≤ 6 := by
        cases rttMs with
        | none => exact Nat.le_add_left 1 5
        | some rtt =>
            have := putVarint_length_le_five u32 (n := rtt.toNat)
              (rtt.toNat_lt.trans (by norm_num))
            exact Nat.add_le_add_right this 1
      have hreachable : (Codec.bool.encode reachable).length = 1 := rfl
      have htag := putVarint_length_le_five u32 (n := 2) (by decide)
      simp only [encodeRelayed, Codec.putVariant, reportCodec, Codec.prod, List.length_append]
      omega

/-- An envelope within its bounds fits a frame. -/
lemma sendable_fromHead {source : String} {clientIdentity : Option String} {r : RelayedMessage}
    (hsource : source.utf8ByteSize ≤ maxListenAddrLen)
    (hidentity : ∀ identity ∈ clientIdentity, ValidNodeId identity)
    (h : validateRelayed r = .ok ()) : Sendable (.fromHead source clientIdentity r) := by
  refine ⟨?_, rfl, ?_⟩
  · have hmax : maxFrameLen = 1048576 := rfl
    have h1 : (Codec.str.encode source).length ≤ 261 := str_encode_le hsource (by decide)
    have h2 : (Codec.str.option.encode clientIdentity).length ≤ 262 :=
      optionStr_encode_le hidentity (by decide)
    have h3 : (relayedCodec.encode r).length ≤ 8000 := relayed_encode_le h
    have htag := putVarint_length_le_five u32 (n := 3) (by decide)
    simp only [encodeMessage, Codec.putVariant, fromHeadCodec, Codec.prod, List.length_append]
    omega
  · simp only [validateMessage, andThen_eq_ok, bounded_eq_ok]
    refine ⟨hsource, ?_, h⟩
    cases clientIdentity with
    | none => rfl
    | some identity => exact bounded_eq_ok.mpr (hidentity identity rfl)

/-! ## Whole streams -/

lemma writeMessages_eq_ok (ms : List RadiiMessage) : ∀ sink : Bytes,
    (∀ m ∈ ms, (encodeMessage m).length ≤ maxFrameLen) →
      writeMessages sink ms = .ok (sink ++ ms.flatMap frame) := by
  induction ms with
  | nil => intro sink _; simp [writeMessages]
  | cons m ms ih =>
      intro sink h
      rw [writeMessages, writeMessage_eq_ok sink (h m (by simp)), Except.bind,
        ih _ (fun x hx => h x (by simp [hx])), List.flatMap_cons, List.append_assoc]

lemma readMessages_frames (ms : List RadiiMessage) : ∀ (tail : Bytes) (cs : Chunks),
    (∀ m ∈ ms, Readable m ∧ (encodeMessage m).length ≤ maxFrameLen) →
    cs.flatten = ms.flatMap frame ++ tail →
      ∃ rest, readMessages ms.length cs = .ok (ms, rest) ∧ rest.flatten = tail := by
  induction ms with
  | nil => intro tail cs _ hcs; exact ⟨cs, rfl, hcs⟩
  | cons m ms ih =>
      intro tail cs h hcs
      rw [List.flatMap_cons, List.append_assoc] at hcs
      obtain ⟨mid, hread, hmid⟩ := readMessage_frame (h m (by simp)).1 (h m (by simp)).2 hcs
      obtain ⟨rest, hreads, hrest⟩ := ih tail mid (fun x hx => h x (by simp [hx])) hmid
      exact ⟨rest, by simp only [List.length_cons, readMessages, hread, Except.bind, hreads,
        Except.map], hrest⟩

/-- **Framing round-trips over whole streams, in both directions.**  Messages within the bounds
whose encodings fit a frame are read back as written, from any chunking, and the bytes after them
are left.  And a message the reader returned was exactly a length prefix and that many bytes, is
within every bound, and can be written and read again. -/
theorem framing_round_trips :
    (∀ (ms : List RadiiMessage) (tail : Bytes),
      (∀ m ∈ ms, validateMessage m = .ok () ∧
        (∀ hops, m = .tunnelOpen hops → 1 ≤ hops.length ∧ hops.length ≤ maxTunnelHops) ∧
        (encodeMessage m).length ≤ maxFrameLen) →
      ∃ stream, writeMessages [] ms = .ok stream ∧
        ∀ cs : Chunks, cs.flatten = stream ++ tail →
          ∃ rest, readMessages ms.length cs = .ok (ms, rest) ∧ rest.flatten = tail) ∧
    (∀ (cs : Chunks) (m : RadiiMessage) (rest : Chunks), readMessage cs = .ok (m, rest) →
      (∃ header payload, cs.flatten = header ++ payload ++ rest.flatten ∧ header.length = 4 ∧
        fromBeBytes header = payload.length) ∧
      validateMessage m = .ok () ∧
      (∀ hops, m = .tunnelOpen hops → 1 ≤ hops.length ∧ hops.length ≤ maxTunnelHops) ∧
      ∃ stream, writeMessage [] m = .ok stream ∧
        ∀ cs' : Chunks, cs'.flatten = stream →
          ∃ rest', readMessage cs' = .ok (m, rest') ∧ rest'.flatten = []) := by
  constructor
  · intro ms tail h
    have hms : ∀ m ∈ ms, Readable m ∧ (encodeMessage m).length ≤ maxFrameLen := by
      intro m hm
      obtain ⟨hv, hh, hfit⟩ := h m hm
      exact ⟨⟨validateHopCount_eq_ok.mpr hh, hv⟩, hfit⟩
    refine ⟨_, writeMessages_eq_ok ms [] fun m hm => (hms m hm).2, ?_⟩
    intro cs hcs
    exact readMessages_frames ms tail cs hms (by rw [hcs, List.nil_append])
  · intro cs m rest h
    rcases readMessage_sound h with ⟨header, payload, hcs, h4, hlen, -, -⟩
    rcases fits_of_readMessage h with ⟨hm, hfit⟩
    refine ⟨⟨header, payload, hcs, h4, hlen⟩, hm.2, validateHopCount_eq_ok.mp hm.1, _,
      writeMessage_eq_ok [] hfit, ?_⟩
    intro cs' hcs'
    exact readMessage_frame hm hfit (by rw [hcs', List.nil_append, List.append_nil])

/-- A hello and an acknowledgement on one stream, delivered a byte short of the first frame's end
and then the rest; and a non-canonical encoding of an acknowledgement, with a trailing byte. -/
theorem framing_round_trips_hello :
    (∃ stream, writeMessages [] [.nodeHello "n" ["r"] [⟨"a", "relay"⟩], .ack "ok"] = .ok stream ∧
      ∀ cs : Chunks, cs.flatten = stream ++ [7] →
        ∃ rest, readMessages 2 cs
            = .ok ([.nodeHello "n" ["r"] [⟨"a", "relay"⟩], .ack "ok"], rest) ∧
          rest.flatten = [7]) ∧
    (readMessage [[0, 0], [0, 6, 0x86, 0x00, 2], [111, 107, 9, 1]] = .ok (.ack "ok", [[1]]) ∧
      ∃ stream, writeMessage [] (.ack "ok") = .ok stream) := by
  have hread :
      readMessage [[0, 0], [0, 6, 0x86, 0x00, 2], [111, 107, 9, 1]] = .ok (.ack "ok", [[1]]) := by
    decide
  refine ⟨framing_round_trips.1 [.nodeHello "n" ["r"] [⟨"a", "relay"⟩], .ack "ok"] [7] ?_, hread,
    ?_⟩
  · intro m hm
    simp only [List.mem_cons, List.not_mem_nil, or_false] at hm
    rcases hm with rfl | rfl
    · exact ⟨by decide, by simp, by decide⟩
    · exact ⟨by decide, by simp, by decide⟩
  · obtain ⟨-, -, -, stream, hwrite, -⟩ := framing_round_trips.2 _ _ _ hread
    exact ⟨stream, hwrite⟩

end Radii
