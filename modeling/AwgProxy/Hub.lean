import AwgProxy.HubWire
import AwgProxy.Tunnel

/-!
# A Hub and Its Clients

A server in server mode, any number of clients, each with a proxy in normal mode and at a stage
of its own, and the network between them. As between the two ends of one tunnel the network
loses, repeats and reorders; clients switch stages and addresses whenever they like, a datagram
of the hub may reach any of them, and strangers send noise. The two threads of the hub share the
session table.

* `hubMachine` — what may happen next.
* `hub_transparent` — in every run the hub's WireGuard gets the messages of the datagrams that
  arrive, one each and in order, whatever the cache of expected stages says. A reply goes out
  once or not at all: by the entry of its session, to where a client was heard, in the stage its
  session was introduced in, and it is read by a client that is at that stage.
* `hub_keepsApart` — as long as the clients do not share their indices and addresses, no reply
  goes to another client than the one its session belongs to, however clients move about.

The second is what the source relies on where it moves every entry at an address at once: one
address is one client.
-/

namespace AwgProxy

/-! ### The hub, its clients and the network -/

/-- A datagram of a client on its way to the hub. -/
structure Uplink (ι : Type*) extends Flight where
  /-- The client that has sent it. -/
  sender : ι

/-- A message of the hub's WireGuard, and what the hub has made of it. -/
structure Reply where
  /-- The message. -/
  msg : Bytes
  /-- The entry of the session table it goes by, if it has one. -/
  entry : Option SessionEntry
  /-- The key its sum is made under. -/
  key : Option Bytes
  /-- The datagrams that have gone out for it, and where. -/
  data : List (Bytes × CliAddr)

/-- A hub and its clients. -/
structure Hub (ι : Type*) where
  /-- The c2s threads of the clients' ends. -/
  client : ι → C2sNormal
  /-- The clients' addresses. -/
  addr : ι → CliAddr
  /-- The c2s thread of the hub; `sent` is what its WireGuard has been handed. -/
  server : C2sProxy
  /-- The s2c thread of the hub. -/
  back : Proxy
  /-- What the clients have sent. -/
  up : List (Uplink ι)
  /-- What the hub's WireGuard has handed over, oldest first. -/
  replies : List Reply
  /-- What has reached the hub of its clients, oldest first. -/
  arrived : List (Uplink ι)
  /-- What has reached each client, oldest first, with the stage it was at then. -/
  returned : ι → List (Reply × Fin awgMaxProfiles)
  /-- What each client's WireGuard has been handed. -/
  toClient : ι → List Bytes

/-- What may happen. -/
inductive HubEvent (ι : Type*)
  /-- A client's WireGuard hands over a message. -/
  | send (i : ι) (d : Bytes)
  /-- A client moves to another stage. -/
  | switch (i : ι) (k : Fin awgMaxProfiles)
  /-- A client gets another address. -/
  | move (i : ι) (a : CliAddr)
  /-- A client's datagram reaches the hub. -/
  | reach (j slot : ℕ)
  /-- A stranger's datagram, or a decoy, reaches the hub. -/
  | stray (src : CliAddr) (slot : ℕ) (w : Bytes)
  /-- The hub's WireGuard hands over a message. -/
  | reply (d : Bytes)
  /-- A datagram of the hub reaches a client. -/
  | comeBack (j : ℕ) (i : ι)

section

variable {ι : Type*}

/-- A datagram reaches the hub, in receive buffer `slot`. -/
def Hub.hears (s : Hub ι) (slot : ℕ) (src : CliAddr) (w : Bytes) : Hub ι :=
  let server := s.server.arrives ⟨slot, src, w⟩
  { s with server := server, back := { s.back with cfg := server.cfg, table := server.table } }

/-- The hub's WireGuard hands over the message `d`. -/
def Hub.answers (s : Hub ι) (d : Bytes) : Hub ι :=
  let back := s.back.gives d
  { s with
    back := back
    server := { s.server with cfg := back.cfg, table := back.table }
    replies := s.replies ++
      [⟨d, s.back.replyEntry d, s.back.replyKey d, s.back.datagrams d⟩] }

variable [DecidableEq ι]

/-- The client `i` hands over the message `d`. -/
def Hub.sends (s : Hub ι) (i : ι) (d : Bytes) : Hub ι :=
  { s with
    client := Function.update s.client i ((s.client i).takes d)
    up := s.up ++ ((s.client i).datagrams d).map fun w =>
      ⟨⟨w, d, (s.client i).cfg.activeProfile, s.addr i⟩, i⟩ }

/-- The datagram `w` of the reply `r` reaches the client `i`. -/
def Hub.comesBack (s : Hub ι) (r : Reply) (w : Bytes) (i : ι) : Hub ι :=
  { s with
    client := Function.update s.client i
      { s.client i with cfg := (clientReceives (s.client i).cfg w).cfg }
    toClient := Function.update s.toClient i
      (s.toClient i ++ (normalDecode (s.client i).cfg w).toList)
    returned := Function.update s.returned i
      (s.returned i ++ [(r, (s.client i).cfg.activeProfile)]) }

/-- The hub with its clients. As in a tunnel, the WireGuards send messages that fit into a
receive buffer. -/
def hubMachine : Machine (Hub ι) (HubEvent ι) where
  step s
    | .send i d =>
        if IsWireGuard d ∧ d.length ≤ awgPacketBufSize then some (s.sends i d) else none
    | .switch i k =>
        if (k : ℕ) < (s.client i).cfg.profileCount then
          some { s with
            client := Function.update s.client i
              { s.client i with cfg := configApplyProfile (s.client i).cfg k } }
        else none
    | .move i a =>
        if a.family = s.server.listenFamily then
          some { s with addr := Function.update s.addr i a }
        else none
    | .reach j slot =>
        (s.up[j]?).bind fun f =>
          if slot < batchSize ∧ f.data.length ≤ awgPacketBufSize then
            some { s.hears slot f.peer f.data with arrived := s.arrived ++ [f] }
          else none
    | .stray src slot w =>
        if slot < batchSize ∧ w.length ≤ awgPacketBufSize then some (s.hears slot src w) else none
    | .reply d =>
        if IsWireGuard d ∧ d.length ≤ awgPacketBufSize then some (s.answers d) else none
    | .comeBack j i =>
        (s.replies[j]?).bind fun r => r.data.head?.map fun w => s.comesBack r w.1 i

end

section

variable {ι : Type*}

/-- What carries no message is noise: no stage of the hub finds anything in it. -/
def HubNoise (s : Hub ι) : HubEvent ι → Prop
  | .stray src slot w =>
      let e : C2sDatagram := ⟨slot, src, w⟩
      ∀ j : Fin awgMaxProfiles, (j : ℕ) < s.server.cfg.profileCount →
        stageFinds (s.server.receive e).mem e.pkt w.length s.server.cfg j = none
  | _ => True

/-- A hub serves a client: the client's stages are stages of the hub, up to the decoys that go
ahead of a handshake, and the header protection key is the same. -/
structure Serves (hub cli : AwgConfig) : Prop where
  count : cli.profileCount ≤ hub.profileCount
  profiles : ∀ k : Fin awgMaxProfiles, (k : ℕ) < cli.profileCount →
    cli.profiles k = { hub.profiles k with cps := (cli.profiles k).cps }
  hpKey : cli.hpKey = hub.hpKey

/-- A hub before anything has happened: ready, with an empty table and stages that are told
apart, and clients that are ready and served by it. -/
structure Hub.Starts (s : Hub ι) : Prop where
  client : ∀ i, C2sReady (s.client i)
  clientRings : ∀ i, RingsReady (s.client i).toProxy
  clientQueue : ∀ i, (s.client i).sendC2s = []
  clientFamily : ∀ i, (s.addr i).family = s.server.listenFamily
  server : HubReady s.server
  back : ServerRuns s.back
  backRings : RingsReady s.back
  shared : s.back.cfg = s.server.cfg ∧ s.back.table = s.server.table
  vacant : s.server.table.Vacant
  apart : s.server.cfg.ToldApart
  serves : ∀ i, Serves s.server.cfg (s.client i).cfg
  fresh : s.up = [] ∧ s.replies = [] ∧ s.arrived = [] ∧ (∀ i, s.returned i = []) ∧
    (∀ i, s.toClient i = []) ∧ s.server.sent = []

/-- What the messages of the clients come back as at the hub. -/
def Hub.Upward (s : Hub ι) (f : Uplink ι) (d' : Bytes) : Prop :=
  ComesBack s.server.cfg.mac1keyIn (s.client f.sender).cfg.mac1keyOut
    (s.server.cfg.profiles f.stage) f.msg d'

/-- What a reply comes back as at the client `i`. -/
def Hub.Downward (s : Hub ι) (i : ι) (r : Reply) (d' : Bytes) : Prop :=
  ∃ e, r.entry = some e ∧
    ComesBack (s.client i).cfg.mac1keyIn r.key (s.server.cfg.profiles e.prof) r.msg d'

/-- The replies that have reached the client `i` while it was at their stage. -/
def Hub.accepted (s : Hub ι) (i : ι) : List Reply :=
  ((s.returned i).filter fun r => r.1.entry.map SessionEntry.prof = some r.2).map Prod.fst

/-- The handshake that has introduced the session `index` under stage `k`. -/
def Uplink.Introduces (f : Uplink ι) (index : UInt32) (k : Fin awgMaxProfiles) : Prop :=
  (handshakeKind? f.msg = some .init ∨ handshakeKind? f.msg = some .response) ∧
    load32Le f.msg 4 = index ∧ f.stage = k

/-- What the hub has heard bears an entry out: its session was introduced under its stage, and
somebody was heard at its address. -/
def Hub.Knows (s : Hub ι) (e : SessionEntry) : Prop :=
  (∃ f ∈ s.arrived, f.Introduces e.senderIndex e.prof) ∧ ∃ f ∈ s.arrived, f.peer = e.addr

/-- **How a reply goes**: not at all without an entry, and otherwise by an entry the hub knows,
that of its session unless it is an init, in one datagram to its address, unless it is a cookie
reply that is not forwarded. -/
def Hub.Goes (s t : Hub ι) (r : Reply) : Prop :=
  match r.entry with
  | none => r.data = []
  | some e => t.Knows e ∧
      (handshakeKind? r.msg ≠ some .init → e.senderIndex = receiverIndex r.msg) ∧
      GoesTo s.server.cfg (s.server.cfg.profiles e.prof) r.key r.msg e.addr r.data

/-- **What a hub does** from its start `s` up to `t`. -/
structure Hub.Transparent (s t : Hub ι) : Prop where
  /-- The hub's WireGuard has been handed the message of every datagram that has arrived. -/
  toServer : List.Forall₂ s.Upward t.arrived t.server.sent
  /-- Its replies have gone out as they should. -/
  replies : ∀ r ∈ t.replies, s.Goes t r
  /-- The client's WireGuard has been handed the message of every reply that reached it while it
  was at its stage, and nothing for the others. -/
  toClient : ∀ i, List.Forall₂ (s.Downward i) (t.accepted i) (t.toClient i)

/-- What holds of the hub in every state `t` it reaches from `s`. -/
structure Hub.Runs (s t : Hub ι) : Prop extends Hub.Transparent s t where
  client : ∀ i, C2sReady (t.client i)
  clientRings : ∀ i, RingsReady (t.client i).toProxy
  clientQueue : ∀ i, (t.client i).sendC2s = []
  clientFamily : ∀ i, (t.addr i).family = t.server.listenFamily
  clientSite : ∀ i, SameSite (s.client i).cfg (t.client i).cfg
  server : HubReady t.server
  serverSite : SameSite s.server.cfg t.server.cfg
  back : ServerRuns t.back
  backRings : RingsReady t.back
  backCfg : t.back.cfg = t.server.cfg
  backTable : t.back.table = t.server.table
  known : ∀ x, (t.server.table.sessions x).valid = true → t.Knows (t.server.table.sessions x)
  arrivedUp : ∀ f ∈ t.arrived, f ∈ t.up
  upSound : ∀ f ∈ t.up, f.Sound (s.client f.sender).cfg ∧ f.peer.family = t.server.listenFamily
  replySound : ∀ r ∈ t.replies, IsWireGuard r.msg

end

/-! ### A hub and one of its clients -/

section

variable {hub cli : AwgConfig} {k : Fin awgMaxProfiles} {key : Option Bytes} {d w : Bytes}

/-- A datagram of a common stage is the same to both. -/
theorem Serves.carries_iff (h : Serves hub cli) (hk : (k : ℕ) < cli.profileCount) :
    Carries cli (cli.profiles k) key d w ↔ Carries hub (hub.profiles k) key d w := by
  rw [h.profiles k hk]
  exact ⟨fun hc => hc.congr h.hpKey.symm, fun hc => hc.congr h.hpKey⟩

/-- Its message comes back as the same. -/
theorem Serves.comesBack_iff (h : Serves hub cli) (hk : (k : ℕ) < cli.profileCount)
    {inKey : Option Bytes} {d' : Bytes} :
    ComesBack inKey key (cli.profiles k) d d' ↔ ComesBack inKey key (hub.profiles k) d d' := by
  rw [h.profiles k hk]
  exact Iff.rfl

/-- Serving a client is a matter of what no datagram changes. -/
theorem Serves.of_sameSite {hub' cli' : AwgConfig} (h : Serves hub cli) (hs : SameSite hub hub')
    (hc : SameSite cli cli') : Serves hub' cli' where
  count := by
    rw [hc.chain.count, hs.chain.count]
    exact h.count
  profiles k hk := by
    rw [hc.chain.profiles, hs.chain.profiles]
    exact h.profiles k (hc.chain.count ▸ hk)
  hpKey := by rw [hc.hpKey, hs.hpKey, h.hpKey]

/-- The stages of the client are told apart as those of the hub are. -/
theorem Serves.sameTunnel (h : Serves hub cli) (hap : hub.ToldApart)
    (hacc : ∀ k : Fin awgMaxProfiles, (k : ℕ) < cli.profileCount →
      ∃ pr : AcceptedProfile, cli.profiles k = pr.toAwgProfile) : SameTunnel cli cli where
  accepted := hacc
  apart :=
    { equal := fun k hk => by
        have heq := hap.equal k (hk.trans_le h.count)
        rw [h.profiles k hk]
        exact ⟨heq.1, heq.2, heq.3⟩
      pads := fun j k hj hk => by
        rw [h.profiles j hj, h.profiles k hk]
        exact hap.pads j k (hj.trans_le h.count) (hk.trans_le h.count)
      changed := fun k hk => by
        rw [h.profiles k hk]
        exact hap.changed k (hk.trans_le h.count)
      apart := fun j k hj hk hjk => by
        rw [h.profiles j hj, h.profiles k hk]
        exact hap.apart j k (hj.trans_le h.count) (hk.trans_le h.count) hjk }
  profiles := rfl
  count := rfl
  hpKey := rfl

/-- **A datagram of the hub at a client**: it is read at its stage, and dropped at another. -/
theorem normalDecode_of_serves (h : Serves hub cli) (hhub : SameTunnel hub hub)
    (hready : ∀ k : Fin awgMaxProfiles, (k : ℕ) < cli.profileCount →
      ∃ pr : AcceptedProfile, cli.profiles k = pr.toAwgProfile)
    (hmir : cli.Mirrored) (hact : (cli.activeProfile : ℕ) < cli.profileCount)
    (hk : (k : ℕ) < hub.profileCount) (hd : IsWireGuard d)
    (hc : Carries hub (hub.profiles k) key d w) :
    if k = cli.activeProfile then
      ∃ d', normalDecode cli w = some d' ∧ ComesBack cli.mac1keyIn key (hub.profiles k) d d'
    else normalDecode cli w = none := by
  by_cases hat : k = cli.activeProfile
  · rw [if_pos hat]
    rw [hat] at hc ⊢
    obtain ⟨d', hdec, hback⟩ := normalDecode_of_carries (h.sameTunnel hhub.apart hready) hmir hact
      rfl hd ((h.carries_iff hact).mpr hc)
    exact ⟨d', hdec, (h.comesBack_iff hact).mp hback⟩
  · rw [if_neg hat]
    obtain ⟨pr, hpr⟩ := hready _ hact
    refine normalDecode_eq_none hmir hpr ?_
    rw [← hpr, h.profiles _ hact]
    -- the client with the chain of the hub finds what it finds with its own
    have hsame : SameTunnel hub
        { cli with profiles := hub.profiles, profileCount := hub.profileCount } :=
      ⟨hhub.accepted, hhub.apart, rfl, rfl, h.hpKey⟩
    have hnone := stageFinds_eq_none_of_carries hsame hk (hact.trans_le h.count) (Ne.symm hat) hd
      hc (m := aloneMem w) (p := ⟨.gro, 0⟩) (Nat.zero_add _).le (Bytes.slice_zero_length w)
    exact hnone

end

/-- What goes out is a matter of what no datagram changes. -/
theorem GoesTo.of_sameSite {cfg cfg' : AwgConfig} {pr : AwgProfile} {key : Option Bytes}
    {d : Bytes} {dest : CliAddr} {ws : List (Bytes × CliAddr)} (h : GoesTo cfg' pr key d dest ws)
    (hsite : SameSite cfg cfg') : GoesTo cfg pr key d dest ws := by
  refine ⟨?_, h.2⟩
  have hout := h.1
  rw [GoesOut] at hout ⊢
  rw [hsite.disableCookies] at hout
  by_cases hdrop : handshakeKind? d = some .cookie ∧ cfg.disableCookies = true
  · rw [if_pos hdrop] at hout ⊢
    exact hout
  · rw [if_neg hdrop] at hout ⊢
    obtain ⟨w, hw, hc⟩ := hout
    exact ⟨w, hw, hc.congr hsite.hpKey.symm⟩

/-- The datagram that has gone out for a message carries it. -/
theorem GoesTo.carries {cfg : AwgConfig} {pr : AwgProfile} {key : Option Bytes} {d : Bytes}
    {dest : CliAddr} {ws : List (Bytes × CliAddr)} (h : GoesTo cfg pr key d dest ws)
    {w : Bytes × CliAddr} (hw : w ∈ ws) : Carries cfg pr key d w.1 := by
  have hout := h.1
  have hmem : w.1 ∈ ws.map Prod.fst := List.mem_map_of_mem hw
  rw [GoesOut] at hout
  split at hout
  · rw [hout] at hmem
    exact absurd hmem List.not_mem_nil
  · obtain ⟨x, hx, hc⟩ := hout
    rw [hx] at hmem
    rw [List.mem_singleton.mp hmem]
    exact hc

/-! ### What holds along a run -/

section

variable {ι : Type*} {s t : Hub ι}

/-- The hub and itself are the ends of one tunnel. -/
theorem Hub.Starts.sameTunnel (h : s.Starts) : SameTunnel s.server.cfg s.server.cfg :=
  ⟨h.server.chain.accepted, h.apart, rfl, rfl, rfl⟩

/-- The start is one of the states of its runs. -/
theorem Hub.Starts.runs (h : s.Starts) : s.Runs s := by
  obtain ⟨hup, hreplies, harr, hret, hcl, hsent⟩ := h.fresh
  refine ⟨⟨?_, ?_, fun i => ?_⟩, h.client, h.clientRings, h.clientQueue, h.clientFamily,
    fun i => .refl _, h.server, .refl _, h.back, h.backRings, h.shared.1, h.shared.2,
    fun x hx => ?_, ?_, ?_, ?_⟩
  · rw [harr, hsent]
    exact .nil
  · rw [hreplies]
    exact List.forall_mem_nil _
  · rw [Hub.accepted, hret, hcl]
    exact .nil
  · rw [h.vacant x] at hx
    contradiction
  · rw [harr]
    exact List.forall_mem_nil _
  · rw [hup]
    exact List.forall_mem_nil _
  · rw [hreplies]
    exact List.forall_mem_nil _

/-- What is known stays known as more arrives. -/
theorem Hub.Knows.mono {e : SessionEntry} (h : t.Knows e) {u : Hub ι}
    (harr : ∀ f ∈ t.arrived, f ∈ u.arrived) : u.Knows e := by
  obtain ⟨⟨f, hf, hintro⟩, g, hg, haddr⟩ := h
  exact ⟨⟨f, harr f hf, hintro⟩, g, harr g hg, haddr⟩

/-- What has gone out has gone by an entry. -/
theorem Hub.Goes.entry {r : Reply} (h : s.Goes t r) {w : Bytes × CliAddr} (hw : w ∈ r.data) :
    ∃ e, r.entry = some e := by
  rw [← Option.isSome_iff_exists, ← Option.ne_none_iff_isSome]
  intro hnone
  rw [Hub.Goes, hnone] at h
  rw [h] at hw
  exact absurd hw List.not_mem_nil

theorem Hub.Goes.mono {r : Reply} (h : s.Goes t r) {u : Hub ι}
    (harr : ∀ f ∈ t.arrived, f ∈ u.arrived) : s.Goes u r := by
  rw [Hub.Goes] at h ⊢
  split
  · rename_i hnone
    rw [hnone] at h
    exact h
  · rename_i e hsome
    rw [hsome] at h
    exact ⟨h.1.mono harr, h.2⟩

/-- The client of another entry knows as much. -/
theorem Hub.Knows.of_staysClient {e e' : SessionEntry} (h : t.Knows e)
    (hstays : StaysClient e e') : t.Knows e' := by
  rw [Hub.Knows, hstays.index, hstays.addr, hstays.prof]
  exact h

/-- The hub's s2c thread with what its c2s thread has left. -/
theorem ServerRuns.shares {p : Proxy} (h : ServerRuns p) {cfg : AwgConfig} {table : SessionTable}
    {w : UInt32} (hcfg : cfg = { p.cfg with udpWindow := w })
    (htable : ∀ x, ((table.sessions x).prof : ℕ) < p.cfg.profileCount) :
    ServerRuns { p with cfg := cfg, table := table } := by
  subst hcfg
  exact ⟨⟨h.layout.accepted, h.layout.count, h.layout.active, htable, h.layout.maxS4,
    h.layout.bufs, h.layout.hs⟩, h.mode⟩

/-- What the hub makes of a datagram of a client. -/
theorem Hub.Runs.heard (hs : s.Starts) (h : s.Runs t) {f : Uplink ι} (hf : f ∈ t.up) {slot : ℕ}
    (hslot : slot < batchSize) (hlen : f.data.length ≤ awgPacketBufSize) :
    let p := t.server.arrives ⟨slot, f.peer, f.data⟩
    HubReady p ∧ p.listenFamily = t.server.listenFamily ∧
      (∃ win, p.cfg = { t.server.cfg with udpWindow := win }) ∧
      (∃ d', p.sent = t.server.sent ++ [d'] ∧ s.Upward f d') ∧
      Hears t.server.table f.peer f.stage f.msg p.table := by
  obtain ⟨⟨hwire, hstage, hcar⟩, hfamily⟩ := h.upSound f hf
  have hserves := hs.serves f.sender
  have hsame : SameTunnel s.server.cfg t.server.cfg :=
    hs.sameTunnel.of_sameSite (.refl _) h.serverSite
  have hall := arrives_of_carries (e := ⟨slot, f.peer, f.data⟩) h.server hslot hlen hfamily hsame
    (hstage.trans_le hserves.count) hwire ((hserves.carries_iff hstage).mp hcar)
  rw [h.serverSite.mac1keyIn] at hall
  exact hall

/-- **A datagram of a client reaches the hub.** -/
theorem Hub.Runs.reach (hs : s.Starts) (h : s.Runs t) {f : Uplink ι} (hf : f ∈ t.up) {slot : ℕ}
    (hslot : slot < batchSize) (hlen : f.data.length ≤ awgPacketBufSize) :
    s.Runs { t.hears slot f.peer f.data with arrived := t.arrived ++ [f] } := by
  have hk := (h.upSound f hf).1.2.1.trans_le (hs.serves f.sender).count
  obtain ⟨hready, hlisten, ⟨win, hcfg⟩, ⟨d', hsent, hback⟩, hears⟩ := h.heard hs hf hslot hlen
  have hsite : SameSite t.server.cfg (t.server.arrives ⟨slot, f.peer, f.data⟩).cfg :=
    hcfg ▸ sameSite_udpWindow _ _
  have hmono : ∀ g ∈ t.arrived, g ∈ t.arrived ++ [f] := fun g hg => List.mem_append_left _ hg
  have hlast : f ∈ t.arrived ++ [f] := List.mem_append_right _ List.mem_cons_self
  have hprofs : ∀ x, (((t.server.arrives ⟨slot, f.peer, f.data⟩).table.sessions x).prof : ℕ) <
      t.back.cfg.profileCount := by
    intro x
    rcases hears.prof x with hx | hx
    · rw [hx, ← h.backTable]
      exact h.back.layout.entries x
    · rw [hx, h.backCfg, h.serverSite.chain.count]
      exact hk
  refine { h with
    toServer := ?_, replies := fun r hr => (h.replies r hr).mono hmono
    toClient := h.toClient, clientFamily := hlisten ▸ h.clientFamily, server := hready
    serverSite := h.serverSite.trans hsite
    back := h.back.shares (hcfg.trans (by rw [h.backCfg])) hprofs
    backRings := h.backRings.congr rfl rfl (h.backCfg ▸ hsite.chain), backCfg := rfl
    backTable := rfl, known := fun x hx => ?_, arrivedUp := fun g hg => ?_
    upSound := fun g hg => hlisten ▸ h.upSound g hg }
  · dsimp only [Hub.hears]
    rw [hsent]
    exact List.rel_append h.toServer (.cons hback .nil)
  · rcases hears.cases hx with hrec | hfol
    · refine ⟨⟨f, hlast, hrec.kind, hrec.index.symm, hrec.prof.symm⟩, f, hlast, hrec.addr.symm⟩
    · have hold := (h.known x hfol.valid).mono (u := { t with arrived := t.arrived ++ [f] }) hmono
      obtain ⟨⟨g, hg, hintro⟩, g', hg', haddr⟩ := hold
      refine ⟨⟨g, hg, ?_⟩, ?_⟩
      · rw [← hfol.index, ← hfol.prof] at hintro
        exact hintro
      · rcases hfol.addr with ha | ⟨-, ha, -⟩
        · exact ⟨g', hg', haddr.trans ha.symm⟩
        · exact ⟨f, hlast, ha.symm⟩
  · rcases List.mem_append.mp hg with hg | hg
    · exact h.arrivedUp g hg
    · rw [List.mem_singleton.mp hg]
      exact hf

/-- The stage a client is at is accepted and changes the message types. -/
theorem Hub.Runs.profile (hs : s.Starts) (h : s.Runs t) {i : ι} {k : Fin awgMaxProfiles}
    (hk : (k : ℕ) < (t.client i).cfg.profileCount) :
    ∃ pr : AcceptedProfile, (t.client i).cfg.profiles k = pr.toAwgProfile ∧ pr.h4Noop = false := by
  obtain ⟨pr, hpr⟩ := (h.client i).accepted k hk
  have hserves := (hs.serves i).of_sameSite (.refl _) (h.clientSite i)
  have hnoop := hs.apart.changed k (hk.trans_le hserves.count)
  rw [show (s.server.cfg.profiles k).h4Noop = ((t.client i).cfg.profiles k).h4Noop by
    rw [hserves.profiles k hk], hpr] at hnoop
  exact ⟨pr, hpr, hnoop⟩

/-- **Noise** changes nothing. -/
theorem Hub.Runs.stray (h : s.Runs t) {src : CliAddr} {slot : ℕ} {w : Bytes}
    (hslot : slot < batchSize) (hlen : w.length ≤ awgPacketBufSize)
    (hnoise : HubNoise t (.stray src slot w)) : s.Runs (t.hears slot src w) := by
  obtain ⟨m, heq, hready⟩ := arrives_of_noise (e := ⟨slot, src, w⟩) h.server hslot hlen hnoise
  have hback : { t.back with cfg := t.server.cfg, table := t.server.table } = t.back := by
    rw [← h.backCfg, ← h.backTable]
  rw [heq] at hready
  rw [Hub.hears, heq]
  dsimp only
  rw [hback]
  exact { h with server := hready }

/-- What goes out for a message of the hub's WireGuard goes as it should. -/
theorem Hub.Runs.goes (hs : s.Starts) (h : s.Runs t) {d : Bytes} (hd : IsWireGuard d)
    (hrecv : Receivable t.back 0 d) :
    s.Goes t ⟨d, t.back.replyEntry d, t.back.replyKey d, t.back.datagrams d⟩ := by
  have hsite : SameSite s.server.cfg t.back.cfg := h.backCfg ▸ h.serverSite
  have hnoop : ∀ k : Fin awgMaxProfiles, (k : ℕ) < t.back.cfg.profileCount →
      (t.back.cfg.profiles k).h4Noop = false := by
    intro k hk
    rw [hsite.chain.profiles]
    exact hs.apart.changed k (hsite.chain.count ▸ hk)
  rw [Hub.Goes]
  dsimp only
  split
  · rename_i hnone
    exact datagrams_of_replyEntry_eq_none h.back.mode hd hrecv hnone
  · rename_i e hsome
    obtain ⟨⟨x, hstays⟩, hindex⟩ := replyEntry_spec hsome hd
    have hout := goesTo_gives_of_server h.back h.backRings hnoop hd hrecv hsome
    rw [hsite.chain.profiles] at hout
    rw [h.backTable] at hstays
    exact ⟨(h.known x hstays.valid).of_staysClient hstays, hindex, hout.of_sameSite hsite⟩

/-- **The hub's WireGuard hands over a message.** -/
theorem Hub.Runs.reply (hs : s.Starts) (h : s.Runs t) {d : Bytes} (hd : IsWireGuard d)
    (hlen : d.length ≤ awgPacketBufSize) : s.Runs (t.answers d) := by
  have hrecv := h.back.layout.receivable hd hlen
  obtain ⟨hruns, hrings, w, hcfg⟩ := gives_frame_of_server h.back h.backRings hd hrecv
  rw [h.backCfg] at hcfg
  have hsite : SameSite t.server.cfg (t.back.gives d).cfg := hcfg ▸ sameSite_udpWindow _ _
  have hready : HubReady
      { t.server with cfg := (t.back.gives d).cfg, table := (t.back.gives d).table } := by
    rw [hcfg]
    exact ⟨h.server.mode, ⟨h.server.chain.accepted, h.server.chain.active⟩, h.server.cache,
      h.server.bufs, h.server.queue⟩
  refine { h with
    toServer := h.toServer, replies := fun r hr => ?_, toClient := h.toClient, server := hready
    serverSite := h.serverSite.trans hsite, back := hruns, backRings := hrings, backCfg := rfl
    backTable := rfl, known := fun x hx => ?_, replySound := fun r hr => ?_ }
  · rcases List.mem_append.mp hr with hr | hr
    · exact (h.replies r hr).mono fun f hf => hf
    · rw [List.mem_singleton.mp hr]
      exact (h.goes hs hd hrecv).mono fun f hf => hf
  · obtain ⟨hstays, -⟩ := staysClient_gives h.back.mode hrecv hx
    rw [h.backTable] at hstays
    exact (h.known x hstays.valid).of_staysClient hstays
  · rcases List.mem_append.mp hr with hr | hr
    · exact h.replySound r hr
    · rw [List.mem_singleton.mp hr]
      exact hd

variable [DecidableEq ι]

/-- What a client does is a matter of that client. -/
theorem Hub.Runs.of_client (h : s.Runs t) {i : ι} {p : C2sNormal} (hready : C2sReady p)
    (hrings : RingsReady p.toProxy) (hqueue : p.sendC2s = [])
    (hsite : SameSite (t.client i).cfg p.cfg) :
    s.Runs { t with client := Function.update t.client i p } :=
  { h with
    client := (Function.forall_update_iff t.client fun _ q => C2sReady q).mpr
      ⟨hready, fun j _ => h.client j⟩
    clientRings := (Function.forall_update_iff t.client fun _ q => RingsReady q.toProxy).mpr
      ⟨hrings, fun j _ => h.clientRings j⟩
    clientQueue := (Function.forall_update_iff t.client fun _ q => q.sendC2s = []).mpr
      ⟨hqueue, fun j _ => h.clientQueue j⟩
    clientSite := (Function.forall_update_iff t.client
      fun j q => SameSite (s.client j).cfg q.cfg).mpr
      ⟨(h.clientSite i).trans hsite, fun j _ => h.clientSite j⟩ }

/-- **A client hands over a message.** -/
theorem Hub.Runs.send (hs : s.Starts) (h : s.Runs t) (i : ι) {d : Bytes} (hd : IsWireGuard d)
    (hlen : d.length ≤ awgPacketBufSize) : s.Runs (t.sends i d) := by
  obtain ⟨pr, hpr, hnoop⟩ := h.profile hs (h.client i).active
  obtain ⟨hout, hready, hrings, hqueue, w, hcfg⟩ :=
    goesOut_takes (h.client i) (h.clientRings i) (h.clientQueue i) hpr hnoop hd hlen
  rw [← hpr] at hout
  have hsite : SameSite (t.client i).cfg ((t.client i).takes d).cfg :=
    hcfg ▸ sameSite_udpWindow _ _
  refine { h.of_client hready hrings hqueue hsite with
    arrivedUp := fun f hf => List.mem_append_left _ (h.arrivedUp f hf)
    upSound := fun f hf => ?_ }
  rcases List.mem_append.mp hf with hf | hf
  · exact h.upSound f hf
  · obtain ⟨x, hx, rfl⟩ := List.mem_map.mp hf
    exact ⟨sound_of_goesOut (h.clientSite i) (h.client i).active hd hout hx _, h.clientFamily i⟩

/-- **A datagram of the hub reaches a client**, where it is read if the client is at its stage
and dropped otherwise. -/
theorem Hub.Runs.comeBack (hs : s.Starts) (h : s.Runs t) {r : Reply} (hr : r ∈ t.replies)
    {w : Bytes × CliAddr} (hw : w ∈ r.data) (i : ι) : s.Runs (t.comesBack r w.1 i) := by
  have hgoes := h.replies r hr
  obtain ⟨e, he⟩ := hgoes.entry hw
  rw [Hub.Goes, he] at hgoes
  obtain ⟨⟨⟨f, hf, -, -, hintro⟩, -⟩, -, hto⟩ := hgoes
  have hstage : (e.prof : ℕ) < s.server.cfg.profileCount := by
    rw [← hintro]
    exact (h.upSound f (h.arrivedUp f hf)).1.2.1.trans_le (hs.serves f.sender).count
  have hserves := (hs.serves i).of_sameSite (.refl _) (h.clientSite i)
  have hmir := (h.client i).mirrored
  have hread := normalDecode_of_serves hserves hs.sameTunnel (h.client i).accepted hmir
    (h.client i).active hstage (h.replySound r hr) (hto.carries hw)
  obtain ⟨pr, hpr, -⟩ := h.profile hs (h.client i).active
  obtain ⟨win, hcfg⟩ := clientReceives_cfg hpr hmir w.1
  have hruns := h.of_client ((h.client i).udpWindow win)
    ((h.clientRings i).congr rfl rfl ⟨rfl, rfl, rfl⟩) (h.clientQueue i) (sameSite_udpWindow _ win)
  rw [Hub.comesBack, hcfg]
  refine { hruns with toClient := fun j => ?_ }
  rw [Hub.accepted]
  dsimp only
  by_cases hj : j = i
  · subst hj
    rw [Function.update_self, Function.update_self, List.filter_append, List.map_append]
    by_cases hat : e.prof = (t.client j).cfg.activeProfile
    · rw [if_pos hat] at hread
      obtain ⟨d', hdec, hback⟩ := hread
      rw [List.filter_cons_of_pos (by simpa [he] using hat), hdec]
      rw [(h.clientSite j).mac1keyIn] at hback
      exact List.rel_append (h.toClient j) (.cons ⟨e, he, hback⟩ .nil)
    · rw [if_neg hat] at hread
      rw [List.filter_cons_of_neg (by simpa [he] using hat), hread, List.filter_nil,
        List.map_nil, List.append_nil, Option.toList_none, List.append_nil]
      exact h.toClient j
  · rw [Function.update_of_ne hj, Function.update_of_ne hj]
    exact h.toClient j

/-- **One step** of the hub. -/
theorem Hub.Runs.step (hs : s.Starts) {u : Hub ι} {e : HubEvent ι} (h : s.Runs t)
    (hnoise : HubNoise t e) (hstep : hubMachine.step t e = some u) : s.Runs u := by
  cases e with
  | send i d =>
      obtain ⟨hc, rfl⟩ := Option.ite_some_none_eq_some.mp hstep
      exact h.send hs i hc.1 hc.2
  | switch i k =>
      obtain ⟨hk, rfl⟩ := Option.ite_some_none_eq_some.mp hstep
      exact h.of_client ((h.client i).switch (h.clientRings i) hk)
        ((h.clientRings i).congr rfl rfl ⟨rfl, rfl, rfl⟩) (h.clientQueue i)
        (sameSite_configApplyProfile _ k)
  | move i a =>
      obtain ⟨ha, rfl⟩ := Option.ite_some_none_eq_some.mp hstep
      exact { h with
        clientFamily := (Function.forall_update_iff t.addr
          fun _ b => b.family = t.server.listenFamily).mpr ⟨ha, fun j _ => h.clientFamily j⟩ }
  | reach j slot =>
      obtain ⟨f, hf, hstep⟩ := Option.bind_eq_some_iff.mp hstep
      obtain ⟨hc, rfl⟩ := Option.ite_some_none_eq_some.mp hstep
      exact h.reach hs (List.mem_of_getElem? hf) hc.1 hc.2
  | stray src slot w =>
      obtain ⟨hc, rfl⟩ := Option.ite_some_none_eq_some.mp hstep
      exact h.stray hc.1 hc.2 hnoise
  | reply d =>
      obtain ⟨hc, rfl⟩ := Option.ite_some_none_eq_some.mp hstep
      exact h.reply hs hc.1 hc.2
  | comeBack j i =>
      obtain ⟨r, hr, hstep⟩ := Option.bind_eq_some_iff.mp hstep
      obtain ⟨w, hw, rfl⟩ := Option.map_eq_some_iff.mp hstep
      exact h.comeBack hs (List.mem_of_getElem? hr) (List.mem_of_head? hw) i

/-- A run leaves the hub as it runs. -/
theorem Hub.Runs.run (hs : s.Starts) {es : List (HubEvent ι)} (hrun : hubMachine.run s es = some t)
    (hnoise : hubMachine.Meets HubNoise s es) : s.Runs t := by
  have hstep : ∀ t e u, s.Runs t → HubNoise t e → hubMachine.step t e = some u → s.Runs u :=
    fun _ _ _ h hn hu => h.step hs hn hu
  exact Machine.guarded_induction hstep hs.runs hnoise hrun

end

/-- **A hub is transparent**, whatever the network and its clients do: over an accepted chain
whose stages are told apart, and with noise from strangers alone, every run from a start ends in
a state where the hub's WireGuard has been handed the messages of the clients' datagrams that
have arrived, every reply has gone by an entry the hub has heard of or not at all, and each
client's WireGuard has been handed the messages of the replies that reached it while it was at
their stage. -/
theorem hub_transparent {ι : Type*} [DecidableEq ι] {s t : Hub ι} {es : List (HubEvent ι)}
    (hs : s.Starts) (hrun : hubMachine.run s es = some t)
    (hnoise : hubMachine.Meets HubNoise s es) : s.Transparent t :=
  (Hub.Runs.run hs hrun hnoise).toTransparent

/-! ### Whose replies are whose -/

/-- Who has which index, which session and which address. -/
structure Owners (ι : Type*) where
  /-- The client that has told the hub this index. -/
  index : UInt32 → ι
  /-- The client the hub has given this index to. -/
  session : UInt32 → ι
  /-- The client at this address. -/
  addr : CliAddr → ι

section

variable {ι : Type*}

/-- A client's message names nothing of another client. -/
structure Owners.Sends (o : Owners ι) (i : ι) (d : Bytes) : Prop where
  index : handshakeKind? d = some .init ∨ handshakeKind? d = some .response →
    o.index (load32Le d 4) = i
  answered : handshakeKind? d = some .response → o.session (load32Le d 8) = i
  session : IsTransport d → o.session (load32Le d 4) = i

/-- Clients share no index, no session and no address, and the hub's WireGuard gives a session to
the client it answers. -/
def Owners.Obeys (o : Owners ι) : HubEvent ι → Prop
  | .send i d => o.Sends i d
  | .move i a => o.addr a = i
  | .reply d =>
      handshakeKind? d = some .response → o.session (load32Le d 4) = o.index (load32Le d 8)
  | _ => True

/-- An entry is all of one client. -/
structure Owners.Whole (o : Owners ι) (e : SessionEntry) : Prop where
  addr : o.addr e.addr = o.index e.senderIndex
  session : e.serverIndex ≠ 0 → o.session e.serverIndex = o.index e.senderIndex

/-- **Replies are kept apart**: what goes out for a session goes to its client. -/
def Owners.KeepsApart (o : Owners ι) (t : Hub ι) : Prop :=
  ∀ r ∈ t.replies, handshakeKind? r.msg ≠ some .init →
    ∀ w ∈ r.data, o.addr w.2 = o.index (receiverIndex r.msg)

/-- What holds along a run whose clients share nothing. -/
structure Owners.Kept (o : Owners ι) (t : Hub ι) : Prop where
  addr : ∀ i, o.addr (t.addr i) = i
  up : ∀ f ∈ t.up, o.addr f.peer = f.sender ∧ o.Sends f.sender f.msg
  table : ∀ x, (t.server.table.sessions x).valid = true → o.Whole (t.server.table.sessions x)
  replies : ∀ r ∈ t.replies, ∀ e ∈ r.entry, o.addr e.addr = o.index e.senderIndex

variable {o : Owners ι} {f : Uplink ι} {t : SessionTable} {k : Fin awgMaxProfiles} {d : Bytes}
  {e e' : SessionEntry}

/-- A client's handshake is recorded in an entry of its own. -/
theorem Owners.Whole.of_recorded (hpeer : o.addr f.peer = f.sender)
    (hsends : o.Sends f.sender f.msg)
    (hwhole : e.valid = true → o.Whole e) (h : RecordedFor f.peer k f.msg e e') : o.Whole e' := by
  have hindex := hsends.index h.kind
  refine ⟨?_, fun hne => ?_⟩
  · rw [h.addr, h.index, hpeer, hindex]
  · rw [h.index, hindex]
    rcases h.session with h0 | ⟨hresp, hsession⟩ | ⟨hv, hidx, hsession⟩
    · exact absurd h0 hne
    · rw [hsession]
      exact hsends.answered hresp
    · rw [hsession] at hne ⊢
      rw [(hwhole hv).session hne, hidx, hindex]

/-- An address is followed by the entries of the client that has moved to it. -/
theorem Owners.Whole.of_followed (hpeer : o.addr f.peer = f.sender)
    (hsends : o.Sends f.sender f.msg)
    (hwhole : ∀ x, (t.sessions x).valid = true → o.Whole (t.sessions x)) (he : o.Whole e)
    (h : FollowedFor t f.peer f.msg e e') : o.Whole e' := by
  refine ⟨?_, fun hne => ?_⟩
  · rw [h.index]
    rcases h.addr with haddr | ⟨htr, haddr, hne, x, hv, hsession, hat⟩
    · rw [haddr]
      exact he.addr
    · -- the session is the sender's, and so is the address it was used at
      have hx := hwhole x hv
      rw [← hsession] at hne
      calc o.addr e'.addr = f.sender := by rw [haddr, hpeer]
        _ = o.session (load32Le f.msg 4) := (hsends.session htr).symm
        _ = o.index (t.sessions x).senderIndex := by rw [← hsession, hx.session hne]
        _ = o.addr (t.sessions x).addr := hx.addr.symm
        _ = o.index e.senderIndex := by rw [hat, he.addr]
  · rw [h.session] at hne ⊢
    rw [h.index]
    exact he.session hne

/-- What the hub's WireGuard hands over leaves an entry with its client. -/
theorem Owners.Whole.of_keepsSession (he : o.Whole e) (hobeys : o.Obeys (.reply d))
    (hstays : StaysClient e e') (hkeeps : KeepsSession d e e') : o.Whole e' := by
  refine ⟨?_, fun hne => ?_⟩
  · rw [hstays.addr, hstays.index]
    exact he.addr
  · rw [hstays.index]
    rcases hkeeps with hsame | ⟨hresp, hsession, hidx⟩
    · rw [hsame] at hne ⊢
      exact he.session hne
    · rw [hsession, hidx]
      exact hobeys hresp

end

section

variable {ι : Type*} {s t : Hub ι} {o : Owners ι}

/-- Nothing has been said yet. -/
theorem Hub.Starts.kept (hs : s.Starts) (haddr : ∀ i, o.addr (s.addr i) = i) : o.Kept s := by
  obtain ⟨hup, hreplies, -⟩ := hs.fresh
  refine ⟨haddr, ?_, fun x hx => ?_, ?_⟩
  · rw [hup]
    exact List.forall_mem_nil _
  · rw [hs.vacant x] at hx
    contradiction
  · rw [hreplies]
    exact List.forall_mem_nil _

/-- A datagram of a client is heard as that client's. -/
theorem Owners.Kept.reach (hs : s.Starts) (h : s.Runs t) (hk : o.Kept t) {f : Uplink ι}
    (hf : f ∈ t.up) {slot : ℕ} (hslot : slot < batchSize)
    (hlen : f.data.length ≤ awgPacketBufSize) :
    o.Kept { t.hears slot f.peer f.data with arrived := t.arrived ++ [f] } := by
  obtain ⟨-, -, -, -, hears⟩ := h.heard hs hf hslot hlen
  obtain ⟨hpeer, hsends⟩ := hk.up f hf
  refine { hk with table := fun x hx => ?_ }
  rcases hears.cases hx with hrec | hfol
  · exact .of_recorded hpeer hsends (hk.table x) hrec
  · exact .of_followed hpeer hsends hk.table (hk.table x hfol.valid) hfol

/-- A message of the hub's WireGuard leaves every entry with its client. -/
theorem Owners.Kept.reply (h : s.Runs t) (hk : o.Kept t) {d : Bytes} (hd : IsWireGuard d)
    (hlen : d.length ≤ awgPacketBufSize) (hobeys : o.Obeys (.reply d)) :
    o.Kept (t.answers d) := by
  have hrecv := h.back.layout.receivable hd hlen
  have htable := hk.table
  rw [← h.backTable] at htable
  refine { hk with table := fun x hx => ?_, replies := fun r hr e he => ?_ }
  · obtain ⟨hstays, hkeeps⟩ := staysClient_gives h.back.mode hrecv hx
    exact (htable x hstays.valid).of_keepsSession hobeys hstays hkeeps
  · rcases List.mem_append.mp hr with hr | hr
    · exact hk.replies r hr e he
    · rw [List.mem_singleton.mp hr] at he
      obtain ⟨⟨x, hstays⟩, -⟩ := replyEntry_spec he hd
      rw [hstays.addr, hstays.index]
      exact (htable x hstays.valid).addr

variable [DecidableEq ι]

/-- **One step** keeps every entry with its client. -/
theorem Owners.Kept.step (hs : s.Starts) (h : s.Runs t) (hk : o.Kept t) {u : Hub ι}
    {e : HubEvent ι} (hnoise : HubNoise t e) (hobeys : o.Obeys e)
    (hstep : hubMachine.step t e = some u) : o.Kept u := by
  cases e with
  | send i d =>
      obtain ⟨-, rfl⟩ := Option.ite_some_none_eq_some.mp hstep
      refine { hk with up := fun f hf => ?_ }
      rcases List.mem_append.mp hf with hf | hf
      · exact hk.up f hf
      · obtain ⟨x, hx, rfl⟩ := List.mem_map.mp hf
        exact ⟨hk.addr i, hobeys⟩
  | switch i k =>
      obtain ⟨-, rfl⟩ := Option.ite_some_none_eq_some.mp hstep
      exact ⟨hk.addr, hk.up, hk.table, hk.replies⟩
  | move i a =>
      obtain ⟨-, rfl⟩ := Option.ite_some_none_eq_some.mp hstep
      exact { hk with
        addr := (Function.forall_update_iff t.addr fun j b => o.addr b = j).mpr
          ⟨hobeys, fun j _ => hk.addr j⟩ }
  | reach j slot =>
      obtain ⟨f, hf, hstep⟩ := Option.bind_eq_some_iff.mp hstep
      obtain ⟨hc, rfl⟩ := Option.ite_some_none_eq_some.mp hstep
      exact hk.reach hs h (List.mem_of_getElem? hf) hc.1 hc.2
  | stray src slot w =>
      obtain ⟨hc, rfl⟩ := Option.ite_some_none_eq_some.mp hstep
      obtain ⟨m, heq, -⟩ := arrives_of_noise (e := ⟨slot, src, w⟩) h.server hc.1 hc.2 hnoise
      refine { hk with table := ?_ }
      dsimp only [Hub.hears]
      rw [heq]
      exact hk.table
  | reply d =>
      obtain ⟨hc, rfl⟩ := Option.ite_some_none_eq_some.mp hstep
      exact hk.reply h hc.1 hc.2 hobeys
  | comeBack j i =>
      obtain ⟨r, -, hstep⟩ := Option.bind_eq_some_iff.mp hstep
      obtain ⟨w, -, rfl⟩ := Option.map_eq_some_iff.mp hstep
      exact ⟨hk.addr, hk.up, hk.table, hk.replies⟩

end

/-- **A hub keeps its clients apart**: where they share no index, no session and no address,
every run from a start sends what goes out for a session to the client that session is with,
wherever the clients have moved meanwhile. -/
theorem hub_keepsApart {ι : Type*} [DecidableEq ι] {s t : Hub ι} {es : List (HubEvent ι)}
    {o : Owners ι} (hs : s.Starts) (haddr : ∀ i, o.addr (s.addr i) = i)
    (hrun : hubMachine.run s es = some t) (hnoise : hubMachine.Meets HubNoise s es)
    (hobeys : ∀ e ∈ es, o.Obeys e) : o.KeepsApart t := by
  have hstep : ∀ t e u, s.Runs t ∧ o.Kept t → HubNoise t e ∧ o.Obeys e →
      hubMachine.step t e = some u → s.Runs u ∧ o.Kept u :=
    fun _ _ _ h hc hu => ⟨h.1.step hs hc.1 hu, h.2.step hs h.1 hc.1 hc.2 hu⟩
  have hmeets : hubMachine.Meets (fun t e => HubNoise t e ∧ o.Obeys e) s es := by
    intro pre e post t hsplit hpre
    refine ⟨hnoise pre e post t hsplit hpre, hobeys e ?_⟩
    rw [hsplit]
    exact List.mem_append_right pre List.mem_cons_self
  obtain ⟨hruns, hkept⟩ :=
    Machine.guarded_induction hstep ⟨hs.runs, hs.kept haddr⟩ hmeets hrun
  intro r hr hne w hw
  have hgoes := hruns.replies r hr
  obtain ⟨e, he⟩ := hgoes.entry hw
  rw [Hub.Goes, he] at hgoes
  obtain ⟨-, hindex, hto⟩ := hgoes
  rw [hto.2 w hw, hkept.replies r hr e he, hindex hne]

/-! ### A client that moves -/

/-- The chain with two stages, in server mode. -/
def hubConfig : AwgConfig :=
  { apartConfig with mode := .server }

/-- A hub and two clients after `proxy_init`. -/
def twoClients : Hub Bool where
  client := fun _ => ⟨fillH4Rings (.zeroed apartConfig zeroBufs), 1, false, [], []⟩
  addr := fun i => if i then .v4 0x0A000003 51820 else .v4 0x0A000002 51820
  server :=
    { cfg := hubConfig
      table := .empty
      profCache := fun _ => ⟨0, 0⟩
      listenFamily := .inet
      mem := zeroBufs
      queue := []
      sent := [] }
  back := fillH4Rings (.zeroed hubConfig zeroBufs)
  up := []
  replies := []
  arrived := []
  returned := fun _ => []
  toClient := fun _ => []

/-- An init of zeros that tells an index. -/
def initFrom (index : ℕ) : Bytes :=
  Bytes.leBytes 4 1 ++ Bytes.leBytes 4 index ++ List.replicate 140 0

/-- A response of zeros that tells the index of a session to the client at an index. -/
def answerTo (session index : ℕ) : Bytes :=
  Bytes.leBytes 4 2 ++ Bytes.leBytes 4 session ++ Bytes.leBytes 4 index ++ List.replicate 80 0

/-- Transport data of zeros for an index. -/
def dataFor (index : ℕ) : Bytes :=
  Bytes.leBytes 4 4 ++ Bytes.leBytes 4 index ++ List.replicate 24 0

/-- The second client is answered and moves, the first is at a stage of its own and its init
overtaken. -/
def roaming : List (HubEvent Bool) :=
  [.switch false 1, .send false (initFrom 1), .send true (initFrom 2), .reach 1 0,
    .reply (answerTo 8 2), .move true (.v4 0x0A000004 4000), .send true (dataFor 8),
    .stray (.v4 0x0A000005 4000) 2 [1, 2, 3], .reach 2 0, .reach 0 1, .reply (dataFor 2),
    .reply (answerTo 7 1), .comeBack 2 false, .comeBack 1 true, .comeBack 0 false]

/-- The first client has the index 1 and its address, all others are the second's. -/
def roamingOwners : Owners Bool where
  index n := decide (n ≠ 1)
  session n := decide (n ≠ 7)
  addr a := decide (a ≠ .v4 0x0A000002 51820)

instance {ι : Type*} (s : Hub ι) : (e : HubEvent ι) → Decidable (HubNoise s e)
  | .stray _ _ _ => inferInstanceAs (Decidable (∀ _, _ → _ = _))
  | .send _ _ | .switch _ _ | .move _ _ | .reach _ _ | .reply _ | .comeBack _ _ =>
      inferInstanceAs (Decidable True)

section

variable {ι : Type*} [DecidableEq ι]

instance (o : Owners ι) (i : ι) (d : Bytes) : Decidable (o.Sends i d) :=
  decidable_of_iff
    ((handshakeKind? d = some .init ∨ handshakeKind? d = some .response →
        o.index (load32Le d 4) = i) ∧
      (handshakeKind? d = some .response → o.session (load32Le d 8) = i) ∧
      (IsTransport d → o.session (load32Le d 4) = i))
    ⟨fun h => ⟨h.1, h.2.1, h.2.2⟩, fun h => ⟨h.index, h.answered, h.session⟩⟩

instance (o : Owners ι) : (e : HubEvent ι) → Decidable (o.Obeys e)
  | .send i d => inferInstanceAs (Decidable (o.Sends i d))
  | .move _ _ => inferInstanceAs (Decidable (_ = _))
  | .reply _ => inferInstanceAs (Decidable (_ → _))
  | .switch _ _ | .reach _ _ | .stray _ _ _ | .comeBack _ _ => inferInstanceAs (Decidable True)

end

theorem twoClients_starts : twoClients.Starts where
  client _ := c2sReady_fillH4Rings (p := ⟨.zeroed apartConfig zeroBufs, 1, false, [], []⟩)
    (fun k _ => apartConfig_accepted k) Nat.zero_lt_two rfl (by decide)
    (fun _ _ => List.length_replicate) List.length_replicate fun _ => rfl
  clientRings _ := ringsReady_fillH4Rings (fun _ => Nat.zero_lt_succ _) rfl
  clientQueue _ := rfl
  clientFamily := by decide
  server := ⟨rfl, ⟨fun k _ => apartConfig_accepted k, Nat.zero_lt_two⟩, fun _ => Nat.zero_lt_two,
    fun _ _ => List.length_replicate, rfl⟩
  back :=
    ⟨{ accepted := fun k _ => apartConfig_accepted k
       count := Nat.zero_lt_two
       active := Nat.zero_lt_two
       entries := fun _ => Nat.zero_lt_two
       maxS4 := by decide
       bufs := fun _ _ => List.length_replicate
       hs := List.length_replicate }, rfl⟩
  backRings := ringsReady_fillH4Rings (fun _ => Nat.zero_lt_succ _) rfl
  shared := ⟨rfl, rfl⟩
  vacant _ := rfl
  apart := sameTunnel_apartConfig.apart.congr rfl rfl
  serves _ := ⟨le_refl 2, fun _ _ => rfl, rfl⟩
  fresh := ⟨rfl, rfl, rfl, fun _ => rfl, fun _ => rfl, rfl⟩

/-- The hub is transparent to it. -/
theorem hub_transparent_roaming : ∃ t,
    hubMachine.run twoClients roaming = some t ∧ twoClients.Transparent t := by
  have hsome : (hubMachine.run twoClients roaming).isSome = true := by
    decide +kernel
  have hguard : hubMachine.guarded HubNoise twoClients roaming = true := by
    decide +kernel
  obtain ⟨t, ht⟩ := Option.isSome_iff_exists.mp hsome
  exact ⟨t, ht, hub_transparent twoClients_starts ht (Machine.meets_of_guarded hguard)⟩

/-- Every reply has reached the client it was for, the second one where that client has moved. -/
theorem hub_keepsApart_roaming : ∃ t,
    hubMachine.run twoClients roaming = some t ∧ roamingOwners.KeepsApart t ∧
      t.replies.flatMap (fun r => r.data.map Prod.snd) =
        [.v4 0x0A000003 51820, .v4 0x0A000004 4000, .v4 0x0A000002 51820] := by
  have hgone : (hubMachine.run twoClients roaming).map
      (fun t => t.replies.flatMap fun r => r.data.map Prod.snd) =
        some [.v4 0x0A000003 51820, .v4 0x0A000004 4000, .v4 0x0A000002 51820] := by
    decide +kernel
  have hguard : hubMachine.guarded HubNoise twoClients roaming = true := by
    decide +kernel
  have hobeys : (roaming.all fun e => decide (roamingOwners.Obeys e)) = true := by
    decide +kernel
  have haddr : ∀ i, roamingOwners.addr (twoClients.addr i) = i := by
    decide
  obtain ⟨t, ht, hgone⟩ := Option.map_eq_some_iff.mp hgone
  exact ⟨t, ht, hub_keepsApart twoClients_starts haddr ht (Machine.meets_of_guarded hguard)
    (fun e he => of_decide_eq_true (List.all_eq_true.mp hobeys e he)), hgone⟩

end AwgProxy
