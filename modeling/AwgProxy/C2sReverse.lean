import AwgProxy.Lib.Machine
import AwgProxy.Decoder
import AwgProxy.SessionFollow
import AwgProxy.SessionUniqueness

/-!
# Packets of the Clients in Reverse and Server Mode

The c2s thread of `proxy.c` in reverse and server mode takes a datagram of a client, decodes
it, by the transport fast path or under the stages of the profile chain in turn, and queues
what it finds for the local WireGuard (`c2sThreadReversePkt`). On the way it follows moved
clients and records handshakes in the session table, and it adopts the stage that decodes.

* `c2sSlowPath_frame` — what the slow path queues is what its decoder returns.
* `followsClient_iff` — for which datagrams forwarded as transport data the session of the
  datagram is followed: the fast path does it, the other two routes do not.
-/

namespace AwgProxy

/-! ### The state of the thread -/

/-- `sa_family`. -/
inductive AddrFamily
  /-- `AF_INET`. -/
  | inet
  /-- `AF_INET6`. -/
  | inet6
  deriving DecidableEq

/-- The family of an address. -/
def CliAddr.family : CliAddr → AddrFamily
  | .v4 _ _ => .inet
  | .v6 _ _ => .inet6

/-- `PROF_CACHE_SIZE`. -/
abbrev profCacheSize : ℕ := 64

/-- There is an entry zero. -/
instance neZero_profCacheSize : NeZero profCacheSize := ⟨by decide⟩

/-- `prof_cache_entry_t`. -/
structure ProfCacheEntry where
  /-- The key of an address, 0 when empty. -/
  key : UInt32
  /-- The stage of that address. -/
  prof : Fin awgMaxProfiles

/-- `prof_cache_key`: the words of the address and the port, folded to one that is not 0. -/
def profCacheKey (a : CliAddr) : UInt32 :=
  let k := match a with
    | .v6 addr port =>
        let w := fun i => UInt32.ofBitVec ((addr >>> (32 * i)).setWidth 32)
        w 0 ^^^ w 1 ^^^ w 2 ^^^ w 3 ^^^ (port.toUInt32 <<< 16) ^^^ port.toUInt32
    | .v4 addr port => addr ^^^ (port.toUInt32 <<< 16) ^^^ port.toUInt32
  if k ≠ 0 then k else 1

/-- `(k ^ (k >> 16)) & PROF_CACHE_MASK`. -/
def profCacheSlot (k : UInt32) : Fin profCacheSize :=
  ⟨(k ^^^ (k >>> 16)).toNat % 64, Nat.mod_lt _ (by decide)⟩

/-- `proxy_t`, as far as the c2s thread reads and writes it for a datagram in reverse and
server mode. -/
structure C2sProxy where
  /-- The configuration. -/
  cfg : AwgConfig
  /-- The session table. -/
  table : SessionTable
  /-- `prof_cache`. -/
  profCache : Fin profCacheSize → ProfCacheEntry
  /-- The family of the listening socket. -/
  listenFamily : AddrFamily
  /-- The buffers of the thread. -/
  mem : Mem PktBuf
  /-- The messages queued for the local WireGuard. -/
  queue : List (Ptr PktBuf × ℕ)
  /-- The messages handed to the kernel, oldest first. -/
  sent : List Bytes

/-- `profile_for_addr`. -/
def profileForAddr (p : C2sProxy) (a : CliAddr) : Fin awgMaxProfiles :=
  if p.cfg.profileCount = 1 then 0
  else
    let k := profCacheKey a
    let e := p.profCache (profCacheSlot k)
    if e.key = k then e.prof else p.cfg.activeProfile

/-- `profile_remember`. -/
def profileRemember (p : C2sProxy) (a : CliAddr) (prof : Fin awgMaxProfiles) : C2sProxy :=
  let k := profCacheKey a
  { p with profCache := Function.update p.profCache (profCacheSlot k) ⟨k, prof⟩ }

/-- A message queued for the local WireGuard. -/
def C2sProxy.queueSend (p : C2sProxy) (base : Ptr PktBuf) (len : ℕ) : C2sProxy :=
  { p with queue := p.queue ++ [(base, len)] }

/-- The queue is handed to the kernel, which reads the messages now. -/
def C2sProxy.flush (p : C2sProxy) : C2sProxy :=
  { p with queue := [], sent := p.sent ++ p.queue.map fun e => p.mem.read e.1 e.2 }

/-! ### One datagram -/

/-- The fast path looks at a datagram that is long enough for transport data and cannot be
a handshake by its size. -/
def c2sChecksTransport (pr : AwgProfile) (n : ℕ) : Bool :=
  (n : ℤ) ≥ pr.s4 + wgTransportMin &&
    (!pr.transportSizeAmbiguous ||
      ((n : ℤ) ≠ pr.initTotal && (n : ℤ) ≠ pr.respTotal && (n : ℤ) ≠ pr.cookieTotal))

/-- The keystream block the fast path computes, if it looks at the datagram. -/
def c2sFastKs (p : C2sProxy) (pkt : Ptr PktBuf) (n : ℕ) (pr : AwgProfile) : Option Bytes :=
  if c2sChecksTransport pr n && pr.hpOn then some (hpRecvKs p.cfg p.mem pkt none) else none

/-- The fast path takes the datagram: it looks at it and finds a header of transport data. -/
def takesFastPath (p : C2sProxy) (pkt : Ptr PktBuf) (n : ℕ) (pr : AwgProfile) : Bool :=
  c2sChecksTransport pr n &&
    hrangeContains pr.h4 (read32Le p.mem (pkt.add pr.s4.toNat) ^^^
      typeMask (c2sFastKs p pkt n pr))

/-- A little-endian word of eight bytes. -/
def read64Le (m : Mem PktBuf) (p : Ptr PktBuf) : UInt64 :=
  UInt64.ofNat (Bytes.leNat (m.read p 8))

/-- The fast path: the datagram of `n` bytes at `pkt` is opened in place and queued; in
server mode its session follows the client. -/
def c2sFastPath (p : C2sProxy) (src : CliAddr) (pkt : Ptr PktBuf) (n : ℕ) (pr : AwgProfile) :
    C2sProxy :=
  let data := pkt.add pr.s4.toNat
  let m := openTransport p.mem data (c2sFastKs p pkt n pr)
  let p := { p with mem := m, cfg := awgWindowNote p.cfg n }
  let p :=
    if p.cfg.mode = .server ∧ src.family = p.listenFamily then
      { p with
        table := (sessionFollowClient p.table (read32Le m (data.add 4)) src
          (read64Le m (data.add 8))).1 }
    else p
  p.queueSend data (n - pr.s4.toNat)

/-- The walk of the chain after stage `prof` has found nothing: the first other stage that
decodes, and what it leaves. -/
def c2sWalk (pkt : Ptr PktBuf) (n : ℕ) (cfg : AwgConfig) (prof : Fin awgMaxProfiles) :
    List (Fin awgMaxProfiles) → InboundResult → Fin awgMaxProfiles × InboundResult
  | [], r => (prof, r)
  | k :: stages, r =>
      if k = prof then c2sWalk pkt n cfg prof stages r
      else
        let r' := transformInboundProfile r.mem pkt n cfg (cfg.profiles k) r.ks
        if r'.out.isSome then (k, r') else c2sWalk pkt n cfg prof stages r'

/-- The stages of the chain. -/
def AwgConfig.stages (cfg : AwgConfig) : List (Fin awgMaxProfiles) :=
  (List.finRange awgMaxProfiles).take cfg.profileCount

/-- The slow path's decoder: stage `prof`, then the rest of the chain. -/
def c2sDecode (m : Mem PktBuf) (pkt : Ptr PktBuf) (n : ℕ) (cfg : AwgConfig)
    (prof : Fin awgMaxProfiles) (ks : Option Bytes) : Fin awgMaxProfiles × InboundResult :=
  let r := transformInboundProfile m pkt n cfg (cfg.profiles prof) ks
  if r.out.isNone ∧ cfg.profileCount > 1 then c2sWalk pkt n cfg prof cfg.stages r else (prof, r)

/-- Another stage than the expected one has decoded: it is adopted, for the client in server
mode, for the proxy (`switch_profile`) in reverse mode. -/
def c2sAdopt (p : C2sProxy) (src : CliAddr) (k : Fin awgMaxProfiles) : C2sProxy :=
  if p.cfg.mode = .server then profileRemember p src k
  else { p with cfg := configApplyProfile p.cfg k }

/-- The client's index in a handshake of `len` bytes at `out`, if it is one to record: an
init or a response. -/
def recordedIndex (m : Mem PktBuf) (out : Ptr PktBuf) (len : ℕ) : Option UInt32 :=
  let msgType := read32Le m out
  if (msgType = wgHandshakeInit ∧ len = wgInitSize) ∨
      (msgType = wgHandshakeResponse ∧ len = wgRespSize) then
    some (read32Le m (out.add 4))
  else none

/-- The handshake step of server mode: the sender of an init or a response is recorded
under the stage; a response also names the session of our WireGuard it answers. -/
def c2sRecord (p : C2sProxy) (src : CliAddr) (out : Ptr PktBuf) (len : ℕ)
    (prof : Fin awgMaxProfiles) : C2sProxy :=
  match recordedIndex p.mem out len with
  | none => p
  | some senderIdx =>
      let put := sessionPutProf p.table senderIdx src prof
      let t :=
        if read32Le p.mem out = wgHandshakeResponse then
          sessionSetServerIndex put.1 (some put.2) (read32Le p.mem (out.add 8))
        else put.1
      let p := { p with table := t }
      if p.cfg.profileCount > 1 then profileRemember p src prof else p

/-- The slow path: the datagram goes through the decoder, and what it finds is recorded and
queued. -/
def c2sSlowPath (p : C2sProxy) (src : CliAddr) (pkt : Ptr PktBuf) (n : ℕ)
    (prof : Fin awgMaxProfiles) (ks : Option Bytes) : C2sProxy :=
  let d := c2sDecode p.mem pkt n p.cfg prof ks
  let p := { p with mem := d.2.mem }
  match d.2.out with
  | none => p
  | some (out, outLen) =>
      -- the walk skips `prof`, so a stage of its own means that it was adopted
      let p := if d.1 = prof then p else c2sAdopt p src d.1
      let p :=
        if p.cfg.mode = .server ∧ src.family = p.listenFamily then
          c2sRecord p src out outLen d.1
        else p
      p.queueSend out outLen

/-- The stage a datagram from `src` is expected under. -/
def c2sExpectedStage (p : C2sProxy) (src : CliAddr) : Fin awgMaxProfiles :=
  if p.cfg.profileCount > 1 ∧ p.cfg.mode = .server then profileForAddr p src
  else p.cfg.activeProfile

/-- The loop body of `c2s_thread_reverse`, on the datagram of `n` bytes at `pkt` from
`src`. -/
def c2sThreadReversePkt (p : C2sProxy) (src : CliAddr) (pkt : Ptr PktBuf) (n : ℕ) : C2sProxy :=
  if n = 0 then p
  else
    let prof := c2sExpectedStage p src
    let pr := p.cfg.profiles prof
    if takesFastPath p pkt n pr then c2sFastPath p src pkt n pr
    else c2sSlowPath p.flush src pkt n prof (c2sFastKs p pkt n pr)

/-! ### Following a client -/

section

variable {p : C2sProxy} {src : CliAddr} {pkt : Ptr PktBuf} {n : ℕ}

@[simp] theorem table_queueSend (p : C2sProxy) (base : Ptr PktBuf) (len : ℕ) :
    (p.queueSend base len).table = p.table := rfl

@[simp] theorem cfg_queueSend (p : C2sProxy) (base : Ptr PktBuf) (len : ℕ) :
    (p.queueSend base len).cfg = p.cfg := rfl

/-- The message queued last. -/
@[simp] theorem getLast?_queueSend (p : C2sProxy) (base : Ptr PktBuf) (len : ℕ) :
    (p.queueSend base len).queue.getLast? = some (base, len) :=
  List.getLast?_concat

/-- Adopting a stage leaves the table, the buffers and the queue alone. -/
theorem c2sAdopt_frame (p : C2sProxy) (src : CliAddr) (k : Fin awgMaxProfiles) :
    (c2sAdopt p src k).table = p.table ∧ (c2sAdopt p src k).mem = p.mem ∧
      (c2sAdopt p src k).queue = p.queue ∧ (c2sAdopt p src k).cfg.mode = p.cfg.mode := by
  rw [c2sAdopt]
  split
  · exact ⟨rfl, rfl, rfl, rfl⟩
  · exact ⟨rfl, rfl, rfl, rfl⟩

/-- Recording a handshake leaves the buffers, the queue and the configuration alone. -/
theorem c2sRecord_frame (p : C2sProxy) (src : CliAddr) (out : Ptr PktBuf) (len : ℕ)
    (prof : Fin awgMaxProfiles) :
    (c2sRecord p src out len prof).mem = p.mem ∧ (c2sRecord p src out len prof).queue = p.queue ∧
      (c2sRecord p src out len prof).cfg = p.cfg := by
  rw [c2sRecord]
  split
  · exact ⟨rfl, rfl, rfl⟩
  · dsimp only
    split
    · exact ⟨rfl, rfl, rfl⟩
    · exact ⟨rfl, rfl, rfl⟩

/-- Transport data is no handshake to record. -/
theorem c2sRecord_of_transport {out : Ptr PktBuf} (src : CliAddr) (len : ℕ)
    (prof : Fin awgMaxProfiles) (ht : read32Le p.mem out = wgTransportData) :
    c2sRecord p src out len prof = p := by
  obtain ⟨h1, h2, -⟩ := wgTransportData_ne
  have hnone : recordedIndex p.mem out len = none := by
    rw [recordedIndex, ht]
    exact if_neg fun h => h.elim (fun h => h1 h.1) fun h => h2 h.1
  rw [c2sRecord, hnone]

/-- What the slow path leaves in the buffers, and what it queues. -/
theorem c2sSlowPath_frame (p : C2sProxy) (src : CliAddr) (pkt : Ptr PktBuf) (n : ℕ)
    (prof : Fin awgMaxProfiles) (ks : Option Bytes) :
    let d := c2sDecode p.mem pkt n p.cfg prof ks
    (c2sSlowPath p src pkt n prof ks).mem = d.2.mem ∧
      (c2sSlowPath p src pkt n prof ks).queue = p.queue ++ d.2.out.toList := by
  dsimp only
  rw [c2sSlowPath]
  generalize c2sDecode p.mem pkt n p.cfg prof ks = d
  dsimp only
  rcases d.2.out with _ | ⟨out, len⟩
  · exact ⟨rfl, (List.append_nil _).symm⟩
  · dsimp only
    obtain ⟨-, hm, hq, -⟩ := c2sAdopt_frame { p with mem := d.2.mem } src d.1
    -- adopting and recording only touch the rest of the state
    have hadopt : ∀ p', p' = (if d.1 = prof then { p with mem := d.2.mem }
        else c2sAdopt { p with mem := d.2.mem } src d.1) →
          p'.mem = d.2.mem ∧ p'.queue = p.queue := by
      rintro p' rfl
      split
      · exact ⟨rfl, rfl⟩
      · exact ⟨hm, hq⟩
    generalize hp' : (if d.1 = prof then { p with mem := d.2.mem }
      else c2sAdopt { p with mem := d.2.mem } src d.1) = p'
    obtain ⟨hm', hq'⟩ := hadopt p' hp'.symm
    split
    · obtain ⟨hrm, hrq, -⟩ := c2sRecord_frame p' src out len d.1
      exact ⟨hrm.trans hm', by rw [C2sProxy.queueSend, hrq, hq']; rfl⟩
    · exact ⟨hm', by rw [C2sProxy.queueSend, hq']; rfl⟩

/-- The slow path sends nothing itself. -/
theorem c2sSlowPath_sent (p : C2sProxy) (src : CliAddr) (pkt : Ptr PktBuf) (n : ℕ)
    (prof : Fin awgMaxProfiles) (ks : Option Bytes) :
    (c2sSlowPath p src pkt n prof ks).sent = p.sent := by
  have hadopt : ∀ (q : C2sProxy) (k : Fin awgMaxProfiles), (c2sAdopt q src k).sent = q.sent := by
    intro q k
    rw [c2sAdopt]
    split
    · rfl
    · rfl
  have hrecord : ∀ (q : C2sProxy) (out : Ptr PktBuf) (len : ℕ) (k : Fin awgMaxProfiles),
      (c2sRecord q src out len k).sent = q.sent := by
    intro q out len k
    rw [c2sRecord]
    split
    · rfl
    · dsimp only
      split
      · rfl
      · rfl
  rw [c2sSlowPath]
  dsimp only
  split
  · rfl
  · simp only [C2sProxy.queueSend]
    split_ifs
    · exact hrecord ..
    · rfl
    · exact (hrecord ..).trans (hadopt ..)
    · exact hadopt ..

/-- The slow path does not touch the table for transport data. -/
theorem table_c2sSlowPath_of_transport {prof : Fin awgMaxProfiles} {ks : Option Bytes}
    {out : Ptr PktBuf} {len : ℕ}
    (hout : (c2sDecode p.mem pkt n p.cfg prof ks).2.out = some (out, len))
    (ht : read32Le (c2sDecode p.mem pkt n p.cfg prof ks).2.mem out = wgTransportData) :
    (c2sSlowPath p src pkt n prof ks).table = p.table := by
  rw [c2sSlowPath]
  generalize c2sDecode p.mem pkt n p.cfg prof ks = d at hout ht
  dsimp only
  rw [hout]
  dsimp only
  obtain ⟨htab, hm, -⟩ := c2sAdopt_frame { p with mem := d.2.mem } src d.1
  rw [table_queueSend]
  by_cases hd : d.1 = prof
  · rw [if_pos hd]
    split
    · rw [c2sRecord_of_transport src len d.1 ht]
    · rfl
  · rw [if_neg hd]
    split
    · rw [c2sRecord_of_transport src len d.1 (by rw [hm]; exact ht)]
      exact htab
    · exact htab

/-- **Following a moved client.** The table after a datagram that is forwarded as transport
data is the one `session_follow_client` gives for the decoded packet, if and only if the
fast path has taken the datagram, from an address of the listening socket's family, or
following would change nothing. -/
theorem followsClient_iff (hserver : p.cfg.mode = .server) (hn : 0 < n) {out : Ptr PktBuf}
    {len : ℕ} {p' : C2sProxy} (hp' : p' = c2sThreadReversePkt p src pkt n)
    (hfwd : p'.queue.getLast? = some (out, len)) (ht : read32Le p'.mem out = wgTransportData) :
    p'.table = (sessionFollowClient p.table (read32Le p'.mem (out.add 4)) src
        (read64Le p'.mem (out.add 8))).1 ↔
      takesFastPath p pkt n (p.cfg.profiles (c2sExpectedStage p src)) = true ∧
          src.family = p.listenFamily ∨
        FollowsNothing p.table (read32Le p'.mem (out.add 4)) src (read64Le p'.mem (out.add 8)) := by
  have hmode : (awgWindowNote p.cfg n).mode = .server := by
    rw [awgWindowNote]
    split
    · exact hserver
    · exact hserver
  rw [c2sThreadReversePkt, if_neg hn.ne'] at hp'
  dsimp only at hp'
  generalize p.cfg.profiles (c2sExpectedStage p src) = pr at hp' ⊢
  by_cases hfast : takesFastPath p pkt n pr = true
  · rw [if_pos hfast, c2sFastPath] at hp'
    dsimp only at hp'
    rw [hfast]
    by_cases hfam : src.family = p.listenFamily
    · rw [if_pos ⟨hmode, hfam⟩] at hp'
      subst hp'
      rw [getLast?_queueSend] at hfwd
      obtain ⟨rfl, -⟩ := Prod.mk.inj (Option.some.inj hfwd)
      exact iff_of_true rfl (Or.inl ⟨rfl, hfam⟩)
    · rw [if_neg fun h => hfam h.2] at hp'
      have htab : p'.table = p.table := by rw [hp']; rfl
      rw [htab, eq_comm, sessionFollowClient_fst_eq_self_iff]
      simp [hfam]
  · rw [if_neg hfast] at hp'
    obtain ⟨hm, hq⟩ := c2sSlowPath_frame p.flush src pkt n (c2sExpectedStage p src)
      (c2sFastKs p pkt n pr)
    have hout : (c2sDecode p.flush.mem pkt n p.flush.cfg (c2sExpectedStage p src)
        (c2sFastKs p pkt n pr)).2.out = some (out, len) := by
      rw [hp', hq] at hfwd
      generalize (c2sDecode p.flush.mem pkt n p.flush.cfg (c2sExpectedStage p src)
        (c2sFastKs p pkt n pr)).2.out = o at hfwd ⊢
      rcases o with _ | e
      · contradiction
      · exact hfwd
    have htab : p'.table = p.table := by
      rw [hp', table_c2sSlowPath_of_transport hout (by rw [← hm, ← hp']; exact ht)]
      rfl
    rw [htab, eq_comm, sessionFollowClient_fst_eq_self_iff]
    simp [hfast]

end

/-! ### A packet that is not followed -/

/-- A profile whose transport data goes by the header 5, without padding. -/
def unpaddedProfile : AcceptedProfile :=
  AcceptedProfile.ofValidated
    { s1 := 0, s2 := 0, s3 := 0, s4 := 0
      h1 := .single 1, h2 := .single 2, h3 := .single 3, h4 := .single 5
      cps := fun _ => none, hpOn := false, rt := false, h4Fixed := 0, h4Noop := false
      initTotal := 0, respTotal := 0, cookieTotal := 0, transportSizeAmbiguous := false }
    (by decide)

/-- A configuration of server mode with that profile alone. -/
def unpaddedConfig : AwgConfig where
  toAwgProfile := unpaddedProfile.toAwgProfile
  mode := .server
  jc := 0
  jmin := 0
  jmax := 0
  serverPeerMac1keys := []
  hpKey := []
  rtAny := false
  disableCookies := false
  udpWindow := 500
  mac1keyOut := none
  mac1keyIn := none
  profiles := fun _ => unpaddedProfile.toAwgProfile
  profileCount := 1
  activeProfile := 0
  maxS4 := 0

/-- A table in which the client 9 at 10.0.0.1 has the session 7 of our WireGuard. -/
def oneSession : SessionTable where
  sessions := Function.update SessionTable.empty.sessions 9
    ⟨9, .v4 0x0A000001 51820, 7, -1, 0, true, 0, 0⟩
  sidxMap := Function.update SessionTable.empty.sidxMap 7 (some 9)

/-- The proxy with that table, a datagram `d` in its first buffer. -/
def oneSessionProxy (d : Bytes) : C2sProxy where
  cfg := unpaddedConfig
  table := oneSession
  profCache := fun _ => ⟨0, 0⟩
  listenFamily := .inet
  mem
    | .recv _ => d
    | .gro => []
    | .hsBuf => []
  queue := []
  sent := []

/-- Transport data of session 7 with counter 0 and `n` more bytes. -/
def sessionPacket (n : ℕ) : Bytes :=
  Bytes.leBytes 4 5 ++ Bytes.leBytes 4 7 ++ Bytes.leBytes 8 0 ++ List.replicate n 0

/-- From another address, a packet of 160 bytes makes the session follow. -/
theorem follows_sessionPacket :
    let p := oneSessionProxy (sessionPacket 144)
    let p' := c2sThreadReversePkt p (.v4 0x0A000002 51820) ⟨.recv 0, 0⟩ 160
    p'.table = (sessionFollowClient p.table (read32Le p'.mem (Ptr.add ⟨.recv 0, 0⟩ 4))
      (.v4 0x0A000002 51820) (read64Le p'.mem (Ptr.add ⟨.recv 0, 0⟩ 8))).1 := by
  intro p p'
  have hp' : p' = c2sThreadReversePkt p (.v4 0x0A000002 51820) ⟨.recv 0, 0⟩ 160 := rfl
  have hfwd : p'.queue.getLast? = some (⟨.recv 0, 0⟩, 160) := by decide
  have ht : read32Le p'.mem ⟨.recv 0, 0⟩ = wgTransportData := by decide
  have hserver : p.cfg.mode = .server := rfl
  exact (followsClient_iff hserver (by decide) hp' hfwd ht).mpr
    (Or.inl ⟨by decide, rfl⟩)

/-- A packet of 148 bytes, the size of an init, is forwarded as transport data all the same,
but the session stays at the old address. -/
theorem not_follows_sessionPacket :
    let p := oneSessionProxy (sessionPacket 132)
    let p' := c2sThreadReversePkt p (.v4 0x0A000002 51820) ⟨.recv 0, 0⟩ 148
    p'.queue.getLast? = some (⟨.recv 0, 0⟩, 148) ∧
      read32Le p'.mem ⟨.recv 0, 0⟩ = wgTransportData ∧
      p'.table ≠ (sessionFollowClient p.table (read32Le p'.mem (Ptr.add ⟨.recv 0, 0⟩ 4))
        (.v4 0x0A000002 51820) (read64Le p'.mem (Ptr.add ⟨.recv 0, 0⟩ 8))).1 := by
  intro p p'
  refine ⟨by decide, by decide, fun h => ?_⟩
  have hstays : (p'.table.sessions 9).addr = .v4 0x0A000001 51820 := by decide
  rw [h] at hstays
  have hfollows : ((sessionFollowClient p.table (read32Le p'.mem (Ptr.add ⟨.recv 0, 0⟩ 4))
      (.v4 0x0A000002 51820) (read64Le p'.mem (Ptr.add ⟨.recv 0, 0⟩ 8))).1.sessions 9).addr =
        .v4 0x0A000002 51820 := by
    decide
  rw [hstays] at hfollows
  exact absurd hfollows (by decide)

end AwgProxy
