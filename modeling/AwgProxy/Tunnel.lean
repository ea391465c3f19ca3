import AwgProxy.Lib.Machine
import AwgProxy.Senders

/-!
# Both Ends of a Tunnel

A client's proxy in normal mode and a server's proxy in reverse mode, with one chain and one
header protection key, and the network between them. The network keeps every datagram it was
given and hands over any of them at any time, any number of times or never: it loses, repeats
and reorders. Other datagrams may reach the server's end as well, of strangers and the decoys
that go ahead of a handshake; the client's end may move to another stage and to another address
whenever it likes, and each end works through its threads as they are.

* `Tunnel` — the two ends, the datagrams on the way, and what has become of them.
* `tunnelMachine` — what may happen next.
* `tunnel_transparent` — in every run the local WireGuards get the messages of the datagrams that
  arrive, one each and in the order of arrival. The server's end follows the stage of what has
  arrived last; its replies are read at the client's end exactly while that is at their stage.

This is what the source relies on where it switches stages: only the initiator chooses one, and
the responder learns it from what it can decode.
-/

namespace AwgProxy

/-! ### The two ends and the network -/

/-- A datagram on the way, with the message it was made from, the stage it was made under and the
client's address it comes from or goes to. The ends read its bytes and its address alone. -/
structure Flight where
  /-- Its bytes. -/
  data : Bytes
  /-- The message. -/
  msg : Bytes
  /-- The stage. -/
  stage : Fin awgMaxProfiles
  /-- The client's address. -/
  peer : CliAddr

/-- A tunnel. The threads of each end share its configuration. -/
structure Tunnel where
  /-- The c2s thread of the client's end. -/
  client : C2sNormal
  /-- The client's address. -/
  clientAddr : CliAddr
  /-- The c2s thread of the server's end; `sent` is what its WireGuard has been handed. -/
  server : C2sProxy
  /-- The s2c thread of the server's end. -/
  back : Proxy
  /-- What the client's end has sent. -/
  up : List Flight
  /-- What the server's end has sent. -/
  down : List Flight
  /-- What has reached the server's end, oldest first: the address, and the datagram where it
  carries a message. -/
  heard : List (CliAddr × Option Flight)
  /-- What has reached the client's end, oldest first, with the stage that was at then. -/
  returned : List (Flight × Fin awgMaxProfiles)
  /-- What the client's WireGuard has been handed. -/
  toClient : List Bytes

/-- `note_client_addr`: reverse mode has one client, the source of what came last. -/
def noteClientAddr (family : AddrFamily) (p : Proxy) (a : CliAddr) : Proxy :=
  if a.family ≠ family then p
  else if p.hasClient ∧ cliaddrEq p.clientAddr a then p
  else { p with clientAddr := a, hasClient := true }

/-- The s2c thread of the client's end on one datagram. -/
def clientReceives (cfg : AwgConfig) (w : Bytes) : Proxy :=
  processS2cPktNormal (.zeroed cfg (aloneMem w)) ⟨.gro, 0⟩ w.length

/-- A datagram reaches the server's end, in receive buffer `slot`. -/
def Tunnel.hears (s : Tunnel) (slot : ℕ) (src : CliAddr) (w : Bytes) (f : Option Flight) :
    Tunnel :=
  let server := s.server.arrives ⟨slot, src, w⟩
  { s with
    server := server
    back := { noteClientAddr s.server.listenFamily s.back src with cfg := server.cfg }
    heard := s.heard ++ [(src, f)] }

/-- What may happen. -/
inductive TunnelEvent
  /-- The client's WireGuard hands over a message. -/
  | send (d : Bytes)
  /-- The client's end moves to another stage (`switch_profile`). -/
  | switch (k : Fin awgMaxProfiles)
  /-- The client gets another address. -/
  | move (a : CliAddr)
  /-- A datagram of the client's end reaches the server's. -/
  | reach (i slot : ℕ)
  /-- A stranger's datagram, or a decoy, reaches the server's end. -/
  | stray (src : CliAddr) (slot : ℕ) (w : Bytes)
  /-- The server's WireGuard hands over a message. -/
  | reply (d : Bytes)
  /-- A datagram of the server's end reaches the client's. -/
  | comeBack (i : ℕ)

instance (d : Bytes) : Decidable (IsWireGuard d) :=
  inferInstanceAs (Decidable (_ ∨ _))

/-- The tunnel. Its WireGuards send messages of the protocol that fit into a receive buffer; a
datagram that does not is cut off by the kernel, and does not arrive as what it was. -/
def tunnelMachine : Machine Tunnel TunnelEvent where
  step s
    | .send d =>
        if IsWireGuard d ∧ d.length ≤ awgPacketBufSize then
          some { s with
            client := s.client.takes d
            up := s.up ++ (s.client.datagrams d).map fun w =>
              ⟨w, d, s.client.cfg.activeProfile, s.clientAddr⟩ }
        else none
    | .switch k =>
        if (k : ℕ) < s.client.cfg.profileCount then
          some { s with client := { s.client with cfg := configApplyProfile s.client.cfg k } }
        else none
    | .move a => if a.family = s.server.listenFamily then some { s with clientAddr := a } else none
    | .reach i slot =>
        (s.up[i]?).bind fun f =>
          if slot < batchSize ∧ f.data.length ≤ awgPacketBufSize then
            some (s.hears slot f.peer f.data (some f))
          else none
    | .stray src slot w =>
        if slot < batchSize ∧ w.length ≤ awgPacketBufSize ∧ src.family = s.server.listenFamily then
          some (s.hears slot src w none)
        else none
    | .reply d =>
        if IsWireGuard d ∧ d.length ≤ awgPacketBufSize then
          some { s with
            back := s.back.gives d
            server := { s.server with cfg := (s.back.gives d).cfg }
            down := s.down ++ (s.back.datagrams d).map fun w =>
              ⟨w.1, d, s.server.cfg.activeProfile, w.2⟩ }
        else none
    | .comeBack i =>
        (s.down[i]?).map fun f =>
          { s with
            client := { s.client with cfg := (clientReceives s.client.cfg f.data).cfg }
            toClient := s.toClient ++ (normalDecode s.client.cfg f.data).toList
            returned := s.returned ++ [(f, s.client.cfg.activeProfile)] }

/-- What carries no message is noise: no stage of the server's end finds anything in it. -/
def StrayIsNoise (s : Tunnel) : TunnelEvent → Prop
  | .stray src slot w =>
      let e : C2sDatagram := ⟨slot, src, w⟩
      ∀ j : Fin awgMaxProfiles, (j : ℕ) < s.server.cfg.profileCount →
        stageFinds (s.server.receive e).mem e.pkt w.length s.server.cfg j = none
  | _ => True

/-- The datagrams of the client's end that have reached the server's, in this order. -/
def Tunnel.arrived (s : Tunnel) : List Flight :=
  s.heard.filterMap Prod.snd

/-- The replies that have reached the client's end while it was at their stage. -/
def Tunnel.accepted (s : Tunnel) : List Flight :=
  (s.returned.filter fun r => r.1.stage = r.2).map Prod.fst

/-! ### The ends as they run -/

/-- A tunnel before anything has happened: one chain, told apart, at both ends, which are ready
and at some stage each. -/
structure Tunnel.Starts (s : Tunnel) : Prop where
  client : C2sReady s.client
  clientRings : RingsReady s.client.toProxy
  clientQueue : s.client.sendC2s = []
  clientFamily : s.clientAddr.family = s.server.listenFamily
  server : s.server.cfg.AcceptedChain
  serverMode : s.server.cfg.mode = .reverse
  serverBufs : ∀ i, i < batchSize →
    (s.server.mem (.recv i)).length = awgPacketBufSize + awgPacketHeadroom
  serverQueue : s.server.queue = []
  back : S2cLayout s.back
  backRings : RingsReady s.back
  backCfg : s.back.cfg = s.server.cfg
  noClient : s.back.hasClient = false
  same : SameTunnel s.client.cfg s.server.cfg
  fresh : s.up = [] ∧ s.down = [] ∧ s.heard = [] ∧ s.returned = [] ∧ s.toClient = [] ∧
    s.server.sent = []

/-- What the messages of the client's end come back as at the server's. -/
def Tunnel.Upward (s : Tunnel) (f : Flight) (d' : Bytes) : Prop :=
  ComesBack s.server.cfg.mac1keyIn s.client.cfg.mac1keyOut (s.client.cfg.profiles f.stage) f.msg d'

/-- What the messages of the server's end come back as at the client's. -/
def Tunnel.Downward (s : Tunnel) (f : Flight) (d' : Bytes) : Prop :=
  ComesBack s.client.cfg.mac1keyIn s.server.cfg.mac1keyOut (s.server.cfg.profiles f.stage) f.msg d'

/-- The stage of the client's datagram that has arrived last, else the one the server's end began
at. -/
def Tunnel.lastStage (s t : Tunnel) : Fin awgMaxProfiles :=
  (t.arrived.getLast?.map Flight.stage).getD s.server.cfg.activeProfile

/-- **What a tunnel does** from its start `s` up to `t`. -/
structure Tunnel.Transparent (s t : Tunnel) : Prop where
  /-- The server's WireGuard has been handed the message of every datagram that has arrived. -/
  toServer : List.Forall₂ s.Upward t.arrived t.server.sent
  /-- The server's end is at the stage of the last of them. -/
  stage : t.server.cfg.activeProfile = s.lastStage t
  /-- Its next reply goes to where it has heard from last. -/
  peer : (if t.back.hasClient then some t.back.clientAddr else none) =
    t.heard.getLast?.map Prod.fst
  /-- No reply has gone anywhere else than to somebody it has heard from. -/
  peers : ∀ f ∈ t.down, f.peer ∈ t.heard.map Prod.fst
  /-- The client's WireGuard has been handed the message of every reply that came back while the
  client's end was at its stage, and nothing for the others. -/
  toClient : List.Forall₂ s.Downward t.accepted t.toClient

/-- A datagram that is on its way carries its message under its stage. -/
def Flight.Sound (cfg : AwgConfig) (f : Flight) : Prop :=
  IsWireGuard f.msg ∧ (f.stage : ℕ) < cfg.profileCount ∧
    Carries cfg (cfg.profiles f.stage) cfg.mac1keyOut f.msg f.data

/-- What holds of the tunnel in every state `t` it reaches from `s`. -/
structure Tunnel.Runs (s t : Tunnel) : Prop extends Tunnel.Transparent s t where
  client : C2sReady t.client
  clientRings : RingsReady t.client.toProxy
  clientQueue : t.client.sendC2s = []
  clientFamily : t.clientAddr.family = t.server.listenFamily
  clientSite : SameSite s.client.cfg t.client.cfg
  server : t.server.cfg.AcceptedChain
  serverMode : t.server.cfg.mode = .reverse
  serverBufs : ∀ i, i < batchSize →
    (t.server.mem (.recv i)).length = awgPacketBufSize + awgPacketHeadroom
  serverQueue : t.server.queue = []
  serverSite : SameSite s.server.cfg t.server.cfg
  back : S2cLayout t.back
  backRings : RingsReady t.back
  backCfg : t.back.cfg = t.server.cfg
  upSound : ∀ f ∈ t.up, f.Sound s.client.cfg ∧ f.peer.family = t.server.listenFamily
  downSound : ∀ f ∈ t.down, f.Sound s.server.cfg

/-- The start is one of these states. -/
theorem Tunnel.Starts.runs {s : Tunnel} (h : s.Starts) : s.Runs s := by
  obtain ⟨hup, hdown, hheard, hret, hcl, hsent⟩ := h.fresh
  refine ⟨⟨?_, ?_, ?_, ?_, ?_⟩, h.client, h.clientRings, h.clientQueue, h.clientFamily, .refl _,
    h.server, h.serverMode, h.serverBufs, h.serverQueue, .refl _, h.back, h.backRings, h.backCfg,
    ?_, ?_⟩
  · rw [Tunnel.arrived, hheard, hsent]
    exact .nil
  · rw [Tunnel.lastStage, Tunnel.arrived, hheard]
    rfl
  · rw [hheard, h.noClient]
    rfl
  · rw [hdown]
    exact List.forall_mem_nil _
  · rw [Tunnel.accepted, hret, hcl]
    exact .nil
  · rw [hup]
    exact List.forall_mem_nil _
  · rw [hdown]
    exact List.forall_mem_nil _

/-! ### Configurations along a run -/

/-- Carrying is a matter of the header protection key. -/
theorem Carries.congr {cfg cfg' : AwgConfig} {pr : AwgProfile} {outKey : Option Bytes}
    {d w : Bytes} (h : Carries cfg pr outKey d w) (hkey : cfg'.hpKey = cfg.hpKey) :
    Carries cfg' pr outKey d w := by
  have hp : ∀ pad x, protect cfg' pr pad x = protect cfg pr pad x := by
    intro pad x
    rw [protect, protect, hkey]
  have hh : ∀ pad x, protectHeader cfg' pr pad x = protectHeader cfg pr pad x := by
    intro pad x
    rw [protectHeader, protectHeader, hkey]
  simp only [Carries, hp, hh]
  exact h

/-- The datagrams that go out for a message are sound. -/
theorem sound_of_goesOut {cfg cfg' : AwgConfig} {k : Fin awgMaxProfiles} {d : Bytes}
    {ws : List Bytes} (hsite : SameSite cfg cfg') (hk : (k : ℕ) < cfg'.profileCount)
    (hd : IsWireGuard d) (h : GoesOut cfg' (cfg'.profiles k) cfg'.mac1keyOut d ws) {w : Bytes}
    (hw : w ∈ ws) (a : CliAddr) : (Flight.mk w d k a).Sound cfg := by
  rw [GoesOut] at h
  split at h
  · rw [h] at hw
    exact absurd hw List.not_mem_nil
  · obtain ⟨x, rfl, hx⟩ := h
    obtain rfl := List.mem_singleton.mp hw
    refine ⟨hd, hsite.chain.count ▸ hk, ?_⟩
    rw [hsite.chain.profiles, hsite.mac1keyOut] at hx
    exact hx.congr hsite.hpKey.symm

/-- The two ends stay those of one tunnel. -/
theorem SameTunnel.of_sameSite {cfgS cfgS' cfgR cfgR' : AwgConfig} (h : SameTunnel cfgS cfgR)
    (hs : SameSite cfgS cfgS') (hr : SameSite cfgR cfgR') : SameTunnel cfgS' cfgR' where
  accepted k hk := by
    rw [hs.chain.profiles]
    exact h.accepted k (hs.chain.count ▸ hk)
  apart := h.apart.congr hs.chain.profiles hs.chain.count
  profiles := by rw [hr.chain.profiles, h.profiles, hs.chain.profiles]
  count := by rw [hr.chain.count, h.count, hs.chain.count]
  hpKey := by rw [hr.hpKey, h.hpKey, hs.hpKey]

theorem SameTunnel.symm {cfgS cfgR : AwgConfig} (h : SameTunnel cfgS cfgR) :
    SameTunnel cfgR cfgS where
  accepted k hk := by
    rw [h.profiles]
    exact h.accepted k (h.count ▸ hk)
  apart := h.apart.congr h.profiles h.count
  profiles := h.profiles.symm
  count := h.count.symm
  hpKey := h.hpKey.symm

/-- The s2c thread of the server's end under the configuration the c2s thread leaves. -/
theorem S2cLayout.of_sameSite {p : Proxy} (h : S2cLayout p) {cfg : AwgConfig}
    (hsite : SameSite p.cfg cfg) (hact : (cfg.activeProfile : ℕ) < cfg.profileCount) :
    S2cLayout { p with cfg := cfg } where
  accepted i hi := by
    rw [show ({ p with cfg := cfg } : Proxy).cfg.profiles = p.cfg.profiles from
      hsite.chain.profiles]
    exact h.accepted i (hsite.chain.count ▸ hi)
  count := by
    rw [show ({ p with cfg := cfg } : Proxy).cfg.profileCount = p.cfg.profileCount from
      hsite.chain.count]
    exact h.count
  active := hact
  entries i := by
    rw [show ({ p with cfg := cfg } : Proxy).cfg.profileCount = p.cfg.profileCount from
      hsite.chain.count]
    exact h.entries i
  maxS4 := by
    rw [show ({ p with cfg := cfg } : Proxy).cfg.maxS4 = p.cfg.maxS4 from hsite.maxS4, h.maxS4,
      configComputeMaxS4, configComputeMaxS4]
    dsimp only
    rw [hsite.chain.profiles, hsite.chain.count]
  bufs := h.bufs
  hs := h.hs

/-- The c2s thread of the client's end at another stage. -/
theorem C2sReady.switch {p : C2sNormal} (h : C2sReady p) (hr : RingsReady p.toProxy)
    {k : Fin awgMaxProfiles} (hk : (k : ℕ) < p.cfg.profileCount) :
    C2sReady { p with cfg := configApplyProfile p.cfg k } where
  accepted := h.accepted
  active := hk
  mirrored := mirrored_configApplyProfile p.cfg k
  maxS4 := h.maxS4
  bufs := h.bufs
  hs := h.hs
  ring := (hr k hk).congr rfl rfl rfl

/-- The window is no concern of the c2s thread of the client's end. -/
theorem C2sReady.udpWindow {p : C2sNormal} (h : C2sReady p) (w : UInt32) :
    C2sReady { p with cfg := { p.cfg with udpWindow := w } } where
  accepted := h.accepted
  active := h.active
  mirrored := h.mirrored
  maxS4 := h.maxS4
  bufs := h.bufs
  hs := h.hs
  ring := h.ring.congr rfl rfl rfl

/-! ### Steps -/

section

variable {s t : Tunnel}

/-- The accepted profile at a stage of the chain. -/
theorem Tunnel.Runs.profile (hs : s.Starts) (h : s.Runs t) {k : Fin awgMaxProfiles}
    (hk : (k : ℕ) < t.client.cfg.profileCount) :
    ∃ pr : AcceptedProfile, t.client.cfg.profiles k = pr.toAwgProfile ∧ pr.h4Noop = false := by
  have hk' : (k : ℕ) < s.client.cfg.profileCount := h.clientSite.chain.count ▸ hk
  obtain ⟨pr, hpr⟩ := hs.same.accepted k hk'
  have hnoop := hs.same.apart.changed k hk'
  rw [hpr] at hnoop
  exact ⟨pr, by rw [h.clientSite.chain.profiles, hpr], hnoop⟩

/-- The client's WireGuard hands over a message. -/
theorem Tunnel.Runs.send (hs : s.Starts) (h : s.Runs t) {d : Bytes} (hd : IsWireGuard d)
    (hlen : d.length ≤ awgPacketBufSize) :
    s.Runs { t with
      client := t.client.takes d
      up := t.up ++ (t.client.datagrams d).map fun w =>
        ⟨w, d, t.client.cfg.activeProfile, t.clientAddr⟩ } := by
  obtain ⟨pr, hpr, hnoop⟩ := h.profile hs h.client.active
  obtain ⟨hout, hready, hrings, hqueue, w, hcfg⟩ :=
    goesOut_takes h.client h.clientRings h.clientQueue hpr hnoop hd hlen
  rw [← hpr] at hout
  refine { h with
    client := hready, clientRings := hrings, clientQueue := hqueue
    clientSite := ?_, upSound := fun f hf => ?_ }
  · dsimp only
    rw [hcfg]
    exact h.clientSite.trans (sameSite_udpWindow _ _)
  · rcases List.mem_append.mp hf with hf | hf
    · exact h.upSound f hf
    · obtain ⟨x, hx, rfl⟩ := List.mem_map.mp hf
      exact ⟨sound_of_goesOut h.clientSite h.client.active hd hout hx _, h.clientFamily⟩

/-- The client is the source of what came last. -/
theorem noteClientAddr_eq {family : AddrFamily} {a : CliAddr} (p : Proxy)
    (ha : a.family = family) :
    noteClientAddr family p a = { p with clientAddr := a, hasClient := true } := by
  rw [noteClientAddr, if_neg (not_not.mpr ha)]
  split
  · rename_i h
    obtain ⟨hc, ha⟩ := h
    rw [cliaddrEq, decide_eq_true_eq] at ha
    rw [← ha, ← hc]
  · rfl

/-- What reaches the server's end leaves both its threads as they run. -/
theorem Tunnel.Runs.hears_frame (h : s.Runs t) {slot : ℕ} {src : CliAddr} {w : Bytes}
    (hslot : slot < batchSize) (hlen : w.length ≤ awgPacketBufSize)
    (hfamily : src.family = t.server.listenFamily) (f : Option Flight) :
    let u := t.hears slot src w f
    SameSite t.server.cfg u.server.cfg ∧ u.server.cfg.AcceptedChain ∧
      (∀ i, i < batchSize →
        (u.server.mem (.recv i)).length = awgPacketBufSize + awgPacketHeadroom) ∧
      u.server.listenFamily = t.server.listenFamily ∧ S2cLayout u.back ∧ RingsReady u.back ∧
      u.back.cfg = u.server.cfg ∧ u.back.hasClient = true ∧ u.back.clientAddr = src := by
  have hbuf : w.length ≤ (t.server.mem (.recv slot)).length := by
    rw [h.serverBufs slot hslot]
    exact hlen.trans (Nat.le_add_right _ _)
  obtain ⟨hshape, hsite, -⟩ := arrives_frame (e := ⟨slot, src, w⟩) h.server h.serverMode
    h.serverQueue hbuf
  have hchain : (t.server.arrives ⟨slot, src, w⟩).cfg.AcceptedChain :=
    (reverse_step (e := .datagram ⟨slot, src, w⟩) ⟨h.serverMode, h.server⟩ (if_pos hbuf)).1.2
  have hback : SameSite t.back.cfg (t.server.arrives ⟨slot, src, w⟩).cfg := h.backCfg ▸ hsite
  have hlayout := h.back.of_sameSite hback hchain.active
  dsimp only [Tunnel.hears]
  rw [noteClientAddr_eq t.back hfamily]
  refine ⟨hsite, hchain, fun i hi => (hshape _).trans (h.serverBufs i hi),
    listenFamily_c2sThreadReversePkt h.serverMode, ?_, h.backRings.congr rfl rfl hback.chain, rfl,
    rfl, rfl⟩
  exact ⟨hlayout.accepted, hlayout.count, hlayout.active, hlayout.entries, hlayout.maxS4,
    hlayout.bufs, hlayout.hs⟩

/-- The history of the server's end after one more datagram. -/
theorem Tunnel.arrived_hears (slot : ℕ) (src : CliAddr) (w : Bytes) (f : Option Flight) :
    (t.hears slot src w f).arrived = t.arrived ++ f.toList := by
  rw [Tunnel.arrived, Tunnel.hears, List.filterMap_append]
  cases f with
  | none => rfl
  | some f => rfl

/-- What is received in a buffer of the server's end. -/
theorem Tunnel.Runs.received (h : s.Runs t) {slot : ℕ} {w : Bytes} (hslot : slot < batchSize)
    (hlen : w.length ≤ awgPacketBufSize) (src : CliAddr) :
    let e : C2sDatagram := ⟨slot, src, w⟩
    (t.server.receive e).mem.Fits e.pkt w.length ∧
      (t.server.receive e).mem.read e.pkt w.length = w := by
  have hbuf : w.length ≤ (t.server.mem (.recv slot)).length := by
    rw [h.serverBufs slot hslot]
    exact hlen.trans (Nat.le_add_right _ _)
  refine ⟨fits_receive (d := ⟨slot, src, w⟩) hbuf, Mem.read_write_self ?_⟩
  rw [Mem.Fits, C2sDatagram.pkt, Nat.zero_add]
  exact hbuf

/-- **A datagram of the client's end reaches the server's.** -/
theorem Tunnel.Runs.reach (hs : s.Starts) (h : s.Runs t) {f : Flight} (hf : f ∈ t.up) {slot : ℕ}
    (hslot : slot < batchSize) (hlen : f.data.length ≤ awgPacketBufSize) :
    s.Runs (t.hears slot f.peer f.data (some f)) := by
  obtain ⟨⟨hwire, hstage, hcar⟩, hfamily⟩ := h.upSound f hf
  obtain ⟨hsite, hchain, hbufs, hlisten, hlayout, hrings, hcfg, hclient, haddr⟩ :=
    h.hears_frame hslot hlen hfamily (some f)
  obtain ⟨hfits, hread⟩ := h.received hslot hlen f.peer
  have hsame : SameTunnel s.client.cfg t.server.cfg :=
    hs.same.of_sameSite (.refl _) h.serverSite
  obtain ⟨⟨d', e, hback, hqueue, hbytes⟩, hact⟩ := c2sThreadReversePkt_of_carries
    (p := t.server.receive ⟨slot, f.peer, f.data⟩) hsame h.server h.serverMode
    hfits h.serverQueue hread hstage hwire hcar rfl
  have hsent := (c2sThreadReversePkt_frame (p := t.server.receive ⟨slot, f.peer, f.data⟩)
    f.peer h.server h.serverMode hfits h.serverQueue).2.2
  have hsent' : (t.server.arrives ⟨slot, f.peer, f.data⟩).sent = t.server.sent ++ [d'] := by
    rw [C2sProxy.arrives, C2sProxy.flush]
    dsimp only
    rw [hqueue, hsent, List.map_singleton, hbytes]
    rfl
  refine { h with
    toServer := ?_, stage := ?_, peer := ?_, peers := fun f' hf' => ?_, toClient := h.toClient
    server := hchain, serverMode := hsite.chain.mode.trans h.serverMode, serverBufs := hbufs
    serverQueue := rfl, serverSite := h.serverSite.trans hsite, back := hlayout
    backRings := hrings, backCfg := hcfg, clientFamily := hlisten ▸ h.clientFamily
    upSound := fun f' hf' => hlisten ▸ h.upSound f' hf' }
  · rw [Tunnel.arrived_hears, show (t.hears slot f.peer f.data (some f)).server.sent =
      t.server.sent ++ [d'] from hsent']
    have hkey : (t.server.receive ⟨slot, f.peer, f.data⟩).cfg.mac1keyIn = s.server.cfg.mac1keyIn :=
      h.serverSite.mac1keyIn
    rw [hkey] at hback
    exact List.rel_append h.toServer (.cons hback .nil)
  · rw [Tunnel.lastStage, Tunnel.arrived_hears, Option.toList_some, List.getLast?_concat]
    exact hact
  · rw [hclient, haddr, if_pos rfl, Tunnel.hears]
    dsimp only
    rw [List.getLast?_concat]
    rfl
  · rw [Tunnel.hears, List.map_append]
    exact List.mem_append_left _ (h.peers f' hf')

/-- **A stranger's datagram** that is noise changes nothing but where replies go. -/
theorem Tunnel.Runs.stray (h : s.Runs t) {src : CliAddr} {slot : ℕ} {w : Bytes}
    (hslot : slot < batchSize) (hlen : w.length ≤ awgPacketBufSize)
    (hfamily : src.family = t.server.listenFamily)
    (hnoise : StrayIsNoise t (.stray src slot w)) : s.Runs (t.hears slot src w none) := by
  obtain ⟨hsite, hchain, hbufs, hlisten, hlayout, hrings, hcfg, hclient, haddr⟩ :=
    h.hears_frame hslot hlen hfamily none
  obtain ⟨hfits, -⟩ := h.received hslot hlen src
  have hprof : (c2sExpectedStage (t.server.receive ⟨slot, src, w⟩) src : ℕ) <
      t.server.cfg.profileCount := by
    rw [c2sExpectedStage_of_reverse (p := t.server.receive ⟨slot, src, w⟩) h.serverMode]
    exact h.server.active
  obtain ⟨m, heq, -⟩ := c2sThreadReversePkt_of_noise
    (p := t.server.receive ⟨slot, src, w⟩) src h.server hprof hfits h.serverQueue hnoise
  have harrives : t.server.arrives ⟨slot, src, w⟩ = { t.server with mem := m } := by
    rw [C2sProxy.arrives, heq]
    exact flush_of_queue_eq_nil h.serverQueue
  have hserver : (t.hears slot src w none).server = { t.server with mem := m } := harrives
  refine { h with
    toServer := ?_, stage := ?_, peer := ?_, peers := fun f' hf' => ?_, toClient := h.toClient
    server := hchain, serverMode := hsite.chain.mode.trans h.serverMode, serverBufs := hbufs
    serverQueue := rfl, serverSite := h.serverSite.trans hsite, back := hlayout
    backRings := hrings, backCfg := hcfg, clientFamily := hlisten ▸ h.clientFamily
    upSound := fun f' hf' => hlisten ▸ h.upSound f' hf' }
  · rw [Tunnel.arrived_hears, Option.toList_none, List.append_nil, hserver]
    exact h.toServer
  · rw [Tunnel.lastStage, Tunnel.arrived_hears, Option.toList_none, List.append_nil,
      hserver]
    exact h.stage
  · rw [hclient, haddr, if_pos rfl, Tunnel.hears]
    dsimp only
    rw [List.getLast?_concat]
    rfl
  · rw [Tunnel.hears, List.map_append]
    exact List.mem_append_left _ (h.peers f' hf')

/-- What goes out for a message of the server's WireGuard is sound, and goes to where it has
heard from last. -/
theorem Tunnel.Runs.datagrams (hs : s.Starts) (h : s.Runs t) {d : Bytes} (hd : IsWireGuard d)
    (hlen : d.length ≤ awgPacketBufSize) {x : Bytes × CliAddr} (hx : x ∈ t.back.datagrams d) :
    (Flight.mk x.1 d t.server.cfg.activeProfile x.2).Sound s.server.cfg ∧
      x.2 ∈ t.heard.map Prod.fst := by
  have hmode : t.back.cfg.mode = .reverse := by rw [h.backCfg]; exact h.serverMode
  cases hclient : t.back.hasClient with
  | false =>
      rw [datagrams_of_noClient hmode hclient] at hx
      exact absurd hx List.not_mem_nil
  | true =>
      have hact : (t.server.cfg.activeProfile : ℕ) < s.server.cfg.profileCount := by
        rw [← h.serverSite.chain.count]
        exact h.server.active
      obtain ⟨pr, hpr⟩ := hs.same.symm.accepted _ hact
      have hnoop := hs.same.symm.apart.changed _ hact
      rw [← h.serverSite.chain.profiles] at hpr hnoop
      rw [hpr] at hnoop
      have hprofile : t.back.cfg.profiles t.back.cfg.activeProfile = pr.toAwgProfile := by
        rw [h.backCfg, hpr]
      have hs4 : pr.s4 ≤ t.back.cfg.maxS4 := by
        have hle := s4_le_maxS4_configComputeMaxS4 (i := t.back.cfg.activeProfile) h.back.active
        rwa [← h.back.maxS4, hprofile] at hle
      obtain ⟨hout, hpeer⟩ := goesTo_gives h.back h.backRings hmode hclient hprofile hnoop hs4 hd
        (h.back.receivable hd hlen)
      rw [← hpr, h.backCfg] at hout
      refine ⟨sound_of_goesOut h.serverSite h.server.active hd hout (List.mem_map_of_mem hx) _, ?_⟩
      have hlast := h.peer
      rw [hclient, if_pos rfl, eq_comm, Option.map_eq_some_iff] at hlast
      obtain ⟨last, hlast, hfst⟩ := hlast
      rw [hpeer x hx, ← hfst]
      exact List.mem_map_of_mem (List.mem_of_getLast? hlast)

/-- **The server's WireGuard hands over a message.** -/
theorem Tunnel.Runs.reply (hs : s.Starts) (h : s.Runs t) {d : Bytes} (hd : IsWireGuard d)
    (hlen : d.length ≤ awgPacketBufSize) :
    s.Runs { t with
      back := t.back.gives d
      server := { t.server with cfg := (t.back.gives d).cfg }
      down := t.down ++ (t.back.datagrams d).map fun w =>
        ⟨w.1, d, t.server.cfg.activeProfile, w.2⟩ } := by
  have hmode : t.back.cfg.mode = .reverse := by rw [h.backCfg]; exact h.serverMode
  obtain ⟨hlayout, hrings, ⟨hclient, haddr⟩, w, hcfg⟩ :=
    gives_frame h.back h.backRings hmode (h.back.receivable hd hlen)
  rw [h.backCfg] at hcfg
  refine { h with
    back := hlayout, backRings := hrings, backCfg := rfl, stage := ?_, peer := ?_
    peers := fun f hf => ?_, server := ?_, serverMode := ?_, serverSite := ?_
    downSound := fun f hf => ?_ }
  · dsimp only
    rw [hcfg]
    exact h.stage
  · dsimp only
    rw [hclient, haddr]
    exact h.peer
  · rcases List.mem_append.mp hf with hf | hf
    · exact h.peers f hf
    · obtain ⟨x, hx, rfl⟩ := List.mem_map.mp hf
      exact (h.datagrams hs hd hlen hx).2
  · dsimp only
    rw [hcfg]
    exact ⟨h.server.accepted, h.server.active⟩
  · dsimp only
    rw [hcfg]
    exact h.serverMode
  · dsimp only
    rw [hcfg]
    exact h.serverSite.trans (sameSite_udpWindow _ _)
  · rcases List.mem_append.mp hf with hf | hf
    · exact h.downSound f hf
    · obtain ⟨x, hx, rfl⟩ := List.mem_map.mp hf
      exact (h.datagrams hs hd hlen hx).1

/-- What reaches the client's end leaves its configuration as it is, but for the window. -/
theorem clientReceives_cfg {cfg : AwgConfig} {pr : AcceptedProfile}
    (hpr : cfg.profiles cfg.activeProfile = pr.toAwgProfile) (hmir : cfg.Mirrored) (w : Bytes) :
    ∃ win, (clientReceives cfg w).cfg = { cfg with udpWindow := win } := by
  have hfits : (aloneMem w).Fits (⟨.gro, 0⟩ : Ptr PktBuf) w.length := (Nat.zero_add _).le
  obtain ⟨win, hwin⟩ :=
    (processS2cPktNormal_spec (p := .zeroed cfg (aloneMem w)) hpr hmir hfits).rest
  refine ⟨win, ?_⟩
  rw [clientReceives, hwin]
  rfl

/-- **A datagram of the server's end reaches the client's**, where it is read if the client's end
is at its stage and dropped otherwise. -/
theorem Tunnel.Runs.comeBack (hs : s.Starts) (h : s.Runs t) {f : Flight} (hf : f ∈ t.down) :
    s.Runs { t with
      client := { t.client with cfg := (clientReceives t.client.cfg f.data).cfg }
      toClient := t.toClient ++ (normalDecode t.client.cfg f.data).toList
      returned := t.returned ++ [(f, t.client.cfg.activeProfile)] } := by
  obtain ⟨hwire, hstage, hcar⟩ := h.downSound f hf
  have hsame : SameTunnel s.server.cfg t.client.cfg :=
    hs.same.symm.of_sameSite (.refl _) h.clientSite
  have hmir := h.client.mirrored
  obtain ⟨pr, hpr, -⟩ := h.profile hs h.client.active
  obtain ⟨w, hcfg⟩ := clientReceives_cfg hpr hmir f.data
  rw [hcfg]
  have hready := h.client.udpWindow w
  refine { h with
    client := hready, clientRings := h.clientRings.congr rfl rfl ⟨rfl, rfl, rfl⟩
    clientQueue := h.clientQueue, clientSite := h.clientSite.trans (sameSite_udpWindow _ _)
    toClient := ?_ }
  rw [Tunnel.accepted, List.filter_append, List.map_append]
  by_cases hat : f.stage = t.client.cfg.activeProfile
  · obtain ⟨d', hdec, hback⟩ := normalDecode_of_carries hsame hmir hstage hat.symm hwire hcar
    rw [List.filter_cons_of_pos (by simpa using hat), hdec]
    rw [h.clientSite.mac1keyIn] at hback
    exact List.rel_append h.toClient (.cons hback .nil)
  · have hj : (t.client.cfg.activeProfile : ℕ) < s.server.cfg.profileCount := by
      rw [← hsame.count]
      exact h.client.active
    rw [List.filter_cons_of_neg (by simpa using hat),
      normalDecode_of_carries_of_ne hsame hmir hstage hj (Ne.symm hat) rfl hwire hcar,
      List.filter_nil, List.map_nil, List.append_nil, Option.toList_none, List.append_nil]
    exact h.toClient

/-- **One step** of the tunnel. -/
theorem Tunnel.Runs.step (hs : s.Starts) {u : Tunnel} {e : TunnelEvent} (h : s.Runs t)
    (hnoise : StrayIsNoise t e) (hstep : tunnelMachine.step t e = some u) : s.Runs u := by
  cases e with
  | send d =>
      obtain ⟨hc, rfl⟩ := Option.ite_some_none_eq_some.mp hstep
      exact h.send hs hc.1 hc.2
  | switch k =>
      obtain ⟨hk, rfl⟩ := Option.ite_some_none_eq_some.mp hstep
      exact { h with
        client := h.client.switch h.clientRings hk
        clientRings := h.clientRings.congr rfl rfl ⟨rfl, rfl, rfl⟩
        clientSite := h.clientSite.trans (sameSite_configApplyProfile _ k) }
  | move a =>
      obtain ⟨ha, rfl⟩ := Option.ite_some_none_eq_some.mp hstep
      exact { h with clientFamily := ha }
  | reach i slot =>
      obtain ⟨f, hf, hstep⟩ := Option.bind_eq_some_iff.mp hstep
      obtain ⟨hc, rfl⟩ := Option.ite_some_none_eq_some.mp hstep
      exact h.reach hs (List.mem_of_getElem? hf) hc.1 hc.2
  | stray src slot w =>
      obtain ⟨hc, rfl⟩ := Option.ite_some_none_eq_some.mp hstep
      exact h.stray hc.1 hc.2.1 hc.2.2 hnoise
  | reply d =>
      obtain ⟨hc, rfl⟩ := Option.ite_some_none_eq_some.mp hstep
      exact h.reply hs hc.1 hc.2
  | comeBack i =>
      obtain ⟨f, hf, rfl⟩ := Option.map_eq_some_iff.mp hstep
      exact h.comeBack hs (List.mem_of_getElem? hf)

/-- A run leaves the tunnel as it runs. -/
theorem Tunnel.Runs.run (hs : s.Starts) {es : List TunnelEvent}
    (hrun : tunnelMachine.run s es = some t)
    (hnoise : tunnelMachine.Meets StrayIsNoise s es) : s.Runs t := by
  have hstep : ∀ t e u, s.Runs t → StrayIsNoise t e → tunnelMachine.step t e = some u → s.Runs u :=
    fun _ _ _ h hn hu => h.step hs hn hu
  exact Machine.guarded_induction hstep hs.runs hnoise hrun

end

/-- **A tunnel is transparent**, whatever the network does: over an accepted chain whose stages
are told apart, and with noise from strangers alone, every run from a start ends in a state where
each WireGuard has been handed the messages of the datagrams that have arrived, at the client's
end of those that arrived while it was at their stage; the server's end is at the stage of the
last datagram of the client's it has heard. -/
theorem tunnel_transparent {s t : Tunnel} {es : List TunnelEvent} (hs : s.Starts)
    (hrun : tunnelMachine.run s es = some t)
    (hnoise : tunnelMachine.Meets StrayIsNoise s es) : s.Transparent t :=
  (Tunnel.Runs.run hs hrun hnoise).toTransparent

/-! ### A run with reordering -/

/-- A second stage, with headers of its own. -/
def secondStageProfile : AcceptedProfile :=
  AcceptedProfile.ofValidated
    { equalPaddingsProfile.toAwgProfile with
      h1 := .single 5, h2 := .single 6, h3 := .single 7, h4 := .single 8 }
    (by decide)

/-- A chain of both, in normal mode at the first of them. -/
def apartConfig : AwgConfig :=
  { equalPaddingsConfig with
    profiles := fun k => if k = 0 then equalPaddingsProfile.toAwgProfile
      else secondStageProfile.toAwgProfile
    profileCount := 2
    maxS4 := 8 }

/-- The same chain at the other end. -/
def apartReverseConfig : AwgConfig :=
  { apartConfig with mode := .reverse }

theorem apartConfig_accepted (k : Fin awgMaxProfiles) :
    ∃ pr : AcceptedProfile, apartConfig.profiles k = pr.toAwgProfile := by
  by_cases hk : k = 0
  · exact ⟨equalPaddingsProfile, if_pos hk⟩
  · exact ⟨secondStageProfile, if_neg hk⟩

theorem sameTunnel_apartConfig : SameTunnel apartConfig apartReverseConfig where
  accepted k _ := apartConfig_accepted k
  apart :=
    { equal := fun k hk => ⟨by revert k; decide, by revert k; decide, by revert k; decide⟩
      pads := by decide
      changed := by decide
      apart := by decide }
  profiles := rfl
  count := rfl
  hpKey := rfl

/-- Both ends after `proxy_init`. -/
def apartTunnel : Tunnel where
  client := ⟨fillH4Rings (.zeroed apartConfig zeroBufs), 1, false, [], []⟩
  clientAddr := .v4 0x0A000002 51820
  server :=
    { cfg := apartReverseConfig
      table := .empty
      profCache := fun _ => ⟨0, 0⟩
      listenFamily := .inet
      mem := zeroBufs
      queue := []
      sent := [] }
  back := fillH4Rings (.zeroed apartReverseConfig zeroBufs)
  up := []
  down := []
  heard := []
  returned := []
  toClient := []

instance (s : Tunnel) : (e : TunnelEvent) → Decidable (StrayIsNoise s e)
  | .stray _ _ _ => inferInstanceAs (Decidable (∀ _, _ → _ = _))
  | .send _ | .switch _ | .move _ | .reach _ _ | .reply _ | .comeBack _ =>
      inferInstanceAs (Decidable True)

/-- Transport data of zeros. -/
def zeroData : Bytes :=
  Bytes.leBytes 4 4 ++ List.replicate 28 0

/-- The second datagram overtakes the first, which arrives twice. -/
def overtaking : List TunnelEvent :=
  [.send zeroInit, .switch 1, .send zeroData, .reach 1 0, .reply zeroData, .reach 0 1,
    .reply zeroData, .stray (.v4 0x0A000003 4000) 2 [1, 2, 3], .reach 0 3, .comeBack 1,
    .comeBack 0]

theorem apartTunnel_starts : apartTunnel.Starts where
  client := c2sReady_fillH4Rings (p := ⟨.zeroed apartConfig zeroBufs, 1, false, [], []⟩)
    (fun k _ => apartConfig_accepted k) Nat.zero_lt_two rfl (by decide)
    (fun _ _ => List.length_replicate) List.length_replicate fun _ => rfl
  clientRings := ringsReady_fillH4Rings (fun _ => Nat.zero_lt_succ _) rfl
  clientQueue := rfl
  clientFamily := rfl
  server := ⟨fun k _ => apartConfig_accepted k, Nat.zero_lt_two⟩
  serverMode := rfl
  serverBufs _ _ := List.length_replicate
  serverQueue := rfl
  back :=
    { accepted := fun k _ => apartConfig_accepted k
      count := Nat.zero_lt_two
      active := Nat.zero_lt_two
      entries := fun _ => Nat.zero_lt_two
      maxS4 := by decide
      bufs := fun _ _ => List.length_replicate
      hs := List.length_replicate }
  backRings := ringsReady_fillH4Rings (fun _ => Nat.zero_lt_succ _) rfl
  backCfg := rfl
  noClient := rfl
  same := sameTunnel_apartConfig
  fresh := ⟨rfl, rfl, rfl, rfl, rfl, rfl⟩

/-- The tunnel is transparent to it. -/
theorem tunnel_transparent_overtaking : ∃ t,
    tunnelMachine.run apartTunnel overtaking = some t ∧ apartTunnel.Transparent t := by
  have hsome : (tunnelMachine.run apartTunnel overtaking).isSome = true := by
    decide +kernel
  have hguard : tunnelMachine.guarded StrayIsNoise apartTunnel overtaking = true := by
    decide +kernel
  obtain ⟨t, ht⟩ := Option.isSome_iff_exists.mp hsome
  exact ⟨t, ht, tunnel_transparent apartTunnel_starts ht (Machine.meets_of_guarded hguard)⟩

end AwgProxy
