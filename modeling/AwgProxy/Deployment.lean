import AwgProxy.Environment
import AwgProxy.Tunnel

/-!
# A Deployed Tunnel

Two hosts that each run the proxy, one in normal mode and one in reverse mode, under environments
that agree on the chain and on the keys. Their other variables are their own business: where they
listen, which junk goes ahead of a handshake, whether cookies are sent, how they are tuned.

* `sameTunnel_of_sharesTunnel`, `mac1keys_of_sharesTunnel` — the two configurations are those of one
  tunnel, and the key one end signs with is the one the other end signs with.
* `started_starts` — the two ends begin in a state of `tunnelMachine` that a tunnel begins in.
* `deployed_tunnel` — when the local WireGuards seal their handshakes for each other, as they do,
  the tunnel hands over every message that arrives as it was, byte for byte.
-/

namespace AwgProxy

/-! ### One tunnel in two environments -/

/-- The ends of the names of a stage's variables. -/
def stageSuffixes : List String :=
  ["S1", "S2", "S3", "S4", "HP", "RANDOM_TRAILERS", "H1", "H2", "H3", "H4", "I1", "I2", "I3", "I4",
    "I5"]

/-- Two environments say the same of the chain and of the keys. -/
structure Host.SharesTunnel (a b : Host) : Prop where
  stages : ∀ k < awgMaxProfiles, ∀ suffix ∈ stageSuffixes,
    b.value (fbName k suffix) = a.value (fbName k suffix)
  hpKey : b.value "AWG_HEADER_PROTECTION_KEY" = a.value "AWG_HEADER_PROTECTION_KEY"
  serverPub : b.value "AWG_SERVER_PUB" = a.value "AWG_SERVER_PUB"
  clientPub : b.value "AWG_CLIENT_PUB" = a.value "AWG_CLIENT_PUB"

section

variable {a b h : Host} {hpKeySet : Bool} {stage : ℕ} {pr pr' : AwgProfile}
  {cfgA cfgB : MainConfig}

theorem Host.Numbers.unique {name : String} {v v' : ℤ} (hv : h.Numbers name v)
    (hv' : h.Numbers name v') : v = v' := by
  obtain ⟨s, hs, hr⟩ := hv
  obtain ⟨s', hs', hr'⟩ := hv'
  obtain rfl := Option.some.inj (hs.symm.trans hs')
  exact Option.some.inj (hr.symm.trans hr')

theorem Host.Ranges.unique {name : String} {r r' : HRange} (hr : h.Ranges name r)
    (hr' : h.Ranges name r') : r = r' := by
  obtain ⟨s, hs, hp⟩ := hr
  obtain ⟨s', hs', hp'⟩ := hr'
  obtain rfl := Option.some.inj (hs.symm.trans hs')
  exact Option.some.inj (hp.symm.trans hp')

theorem Host.Protects.unique {on on' : Bool} (hp : h.Protects hpKeySet stage on)
    (hp' : h.Protects hpKeySet stage on') : on = on' := by
  rw [Host.Protects] at hp hp'
  split at hp
  · rename_i hstage
    rw [if_pos hstage] at hp'
    rw [hp, hp']
  · rename_i hstage
    rw [if_neg hstage] at hp'
    obtain ⟨v, hv, rfl, -⟩ := hp
    obtain ⟨v', hv', rfl, -⟩ := hp'
    rw [Except.ok.inj (hv.symm.trans hv')]

/-- A profile is all computed from what is written of it. -/
theorem configComputeProfile_congr (pr : AwgProfile) :
    configComputeProfile pr = configComputeProfile { Configurator.zeroProfile with
      s1 := pr.s1, s2 := pr.s2, s3 := pr.s3, s4 := pr.s4
      h1 := pr.h1, h2 := pr.h2, h3 := pr.h3, h4 := pr.h4
      cps := pr.cps, hpOn := pr.hpOn, rt := pr.rt } :=
  rfl

/-- The variables of a stage say one profile at most. -/
theorem StageWritten.unique (hw : StageWritten h hpKeySet stage pr)
    (hw' : StageWritten h hpKeySet stage pr') : pr = pr' := by
  rw [← hw.derived, ← hw'.derived, configComputeProfile_congr pr, configComputeProfile_congr pr',
    hw.s1.unique hw'.s1, hw.s2.unique hw'.s2, Except.ok.inj (hw.s3.symm.trans hw'.s3),
    Except.ok.inj (hw.s4.symm.trans hw'.s4), hw.hp.unique hw'.hp,
    Except.ok.inj (hw.rt.symm.trans hw'.rt), hw.h1.unique hw'.h1, hw.h2.unique hw'.h2,
    hw.h3.unique hw'.h3, hw.h4.unique hw'.h4, Except.ok.inj (hw.cps.symm.trans hw'.cps)]

/-- What a stage is depends on its variables alone. -/
theorem StageWritten.congr (hw : StageWritten a hpKeySet stage pr)
    (hshare : ∀ suffix ∈ stageSuffixes,
      b.value (fbName stage suffix) = a.value (fbName stage suffix)) :
    StageWritten b hpKeySet stage pr := by
  have hnum : ∀ suffix ∈ stageSuffixes, ∀ v, a.Numbers (fbName stage suffix) v →
      b.Numbers (fbName stage suffix) v := by
    intro suffix hs v hv
    rwa [Host.Numbers, hshare suffix hs]
  have hran : ∀ suffix ∈ stageSuffixes, ∀ r, a.Ranges (fbName stage suffix) r →
      b.Ranges (fbName stage suffix) r := by
    intro suffix hs r hr
    rwa [Host.Ranges, hshare suffix hs]
  have hint : ∀ suffix ∈ stageSuffixes,
      readInt b (fbName stage suffix) = readInt a (fbName stage suffix) := by
    intro suffix hs
    rw [readInt, readInt, hshare suffix hs]
  have hcps : ∀ suffix ∈ stageSuffixes,
      readCps b (fbName stage suffix) = readCps a (fbName stage suffix) := by
    intro suffix hs
    rw [readCps, readCps, hshare suffix hs]
  have hprot : b.Protects hpKeySet stage pr.hpOn := by
    have := hw.hp
    rwa [Host.Protects, hint "HP" (by decide)]
  have hload : loadCpsStage b stage = loadCpsStage a stage := by
    simp only [loadCpsStage, hcps "I1" (by decide), hcps "I2" (by decide), hcps "I3" (by decide),
      hcps "I4" (by decide), hcps "I5" (by decide)]
  refine ⟨hnum _ (by decide) _ hw.s1, hnum _ (by decide) _ hw.s2, ?_, ?_, hprot, ?_,
    hran _ (by decide) _ hw.h1, hran _ (by decide) _ hw.h2, hran _ (by decide) _ hw.h3,
    hran _ (by decide) _ hw.h4, hload.trans hw.cps, hw.valid, hw.derived⟩
  · exact (hint _ (by decide)).trans hw.s3
  · exact (hint _ (by decide)).trans hw.s4
  · rw [readBool, hshare _ (by decide), ← readBool]
    exact hw.rt

/-- A stage behind the chain of one is behind the chain of the other. -/
theorem profileCount_le_of_sharesTunnel (hshare : a.SharesTunnel b) (ha : MainWritten a cfgA)
    (hb : MainWritten b cfgB) : cfgB.profileCount ≤ cfgA.profileCount := by
  by_contra hlt
  have hk : cfgA.profileCount < awgMaxProfiles := by
    have := hb.count
    omega
  obtain ⟨s, hs, -⟩ := (hb.stages ⟨cfgA.profileCount, hk⟩ (not_le.mp hlt)).h1
  rw [hshare.stages _ hk "H1" (by decide), ha.ends hk] at hs
  cases hs

theorem Host.SharesTunnel.symm (hshare : a.SharesTunnel b) : b.SharesTunnel a :=
  ⟨fun k hk suffix hs => (hshare.stages k hk suffix hs).symm, hshare.hpKey.symm,
    hshare.serverPub.symm, hshare.clientPub.symm⟩

theorem hpKey_of_sharesTunnel (hshare : a.SharesTunnel b) (ha : MainWritten a cfgA)
    (hb : MainWritten b cfgB) : cfgB.hpKey = cfgA.hpKey := by
  have hread := hb.hpKey
  rw [readHpKey, hshare.hpKey, ← readHpKey] at hread
  exact Except.ok.inj (hread.symm.trans ha.hpKey)

/-- The two ends have one chain. -/
theorem chain_of_sharesTunnel (hshare : a.SharesTunnel b) (ha : MainWritten a cfgA)
    (hb : MainWritten b cfgB) :
    cfgB.profiles = cfgA.profiles ∧ cfgB.profileCount = cfgA.profileCount := by
  have hcount : cfgB.profileCount = cfgA.profileCount :=
    le_antisymm (profileCount_le_of_sharesTunnel hshare ha hb)
      (profileCount_le_of_sharesTunnel hshare.symm hb ha)
  refine ⟨?_, hcount⟩
  funext k
  by_cases hk : (k : ℕ) < cfgA.profileCount
  · have hwA := (ha.stages k hk).congr (hshare.stages k k.isLt)
    have hwB := hb.stages k (hcount ▸ hk)
    rw [hpKey_of_sharesTunnel hshare ha hb] at hwB
    exact hwB.unique hwA
  · rw [ha.unset k (by omega), hb.unset k (by omega)]

/-- With stages that are told apart, they are those of one tunnel. -/
theorem sameTunnel_of_sharesTunnel (hshare : a.SharesTunnel b) (ha : MainWritten a cfgA)
    (hb : MainWritten b cfgB) (hapart : cfgA.ToldApart) :
    SameTunnel cfgA.toAwgConfig cfgB.toAwgConfig := by
  obtain ⟨hprofiles, hcount⟩ := chain_of_sharesTunnel hshare ha hb
  exact ⟨fun k hk => (ha.stages k hk).accepted, hapart, hprofiles, hcount,
    hpKey_of_sharesTunnel hshare ha hb⟩

/-- The two ends have the same peers. -/
theorem pubs_of_sharesTunnel (hshare : a.SharesTunnel b) (ha : MainWritten a cfgA)
    (hb : MainWritten b cfgB) :
    cfgB.serverPub = cfgA.serverPub ∧ cfgB.clientPub = cfgA.clientPub := by
  obtain ⟨s, hs, hk⟩ := ha.serverPub
  obtain ⟨s', hs', hk'⟩ := hb.serverPub
  rw [hshare.serverPub, hs] at hs'
  obtain rfl := Option.some.inj hs'
  have hread := hb.clientPub
  rw [readClientPub, hshare.clientPub, ← readClientPub] at hread
  exact ⟨Option.some.inj (hk'.symm.trans hk), Except.ok.inj (hread.symm.trans ha.clientPub)⟩

/-- The MAC1 key of a public key, none for a key of zeros. -/
def mac1KeyOf (pub : Bytes) : Option Bytes :=
  if keySet pub then some (computeMac1Key pub) else none

/-- What goes to the server is signed for it at both ends, and what goes to the client for it. -/
theorem mac1keys_of_sharesTunnel (hshare : a.SharesTunnel b) (ha : MainWritten a cfgA)
    (hb : MainWritten b cfgB) (hnormal : readMode a = .normal) (hreverse : readMode b = .reverse) :
    cfgA.mac1keyOut = mac1KeyOf cfgA.serverPub ∧ cfgB.mac1keyIn = mac1KeyOf cfgA.serverPub ∧
      cfgB.mac1keyOut = mac1KeyOf cfgA.clientPub ∧ cfgA.mac1keyIn = mac1KeyOf cfgA.clientPub := by
  obtain ⟨hserver, hclient⟩ := pubs_of_sharesTunnel hshare ha hb
  have hmA : cfgA.mode = .normal := ha.mode.trans hnormal
  have hmB : ¬ cfgB.mode = .normal := by
    rw [hb.mode, hreverse]
    rintro ⟨⟩
  refine ⟨?_, ?_, ?_, ?_⟩
  · rw [ha.keyOut, if_pos hmA, mac1KeyOf]
  · rw [hb.keyIn, if_neg hmB, hserver, mac1KeyOf]
  · rw [hb.keyOut, if_neg hmB, hclient, mac1KeyOf]
  · rw [ha.keyIn, if_pos hmA, mac1KeyOf]

end

/-! ### The two ends as they are started -/

/-- Both ends after `proxy_init`, and nothing on the way. -/
def Tunnel.started (cfgA cfgB : AwgConfig) (seedA seedB : UInt64) (family : AddrFamily)
    (addr : CliAddr) : Tunnel where
  client := proxyInitC2s cfgA seedA
  clientAddr := addr
  server :=
    { cfg := cfgB
      table := .empty
      profCache := fun _ => ⟨0, 0⟩
      listenFamily := family
      mem := zeroBufs
      queue := []
      sent := [] }
  back := proxyInit cfgB seedB
  up := []
  down := []
  heard := []
  returned := []
  toClient := []

/-- Two hosts that run one tunnel: an end in normal mode and an end in reverse mode, under
environments that share it, with a chain whose stages are told apart. -/
structure Deployed (a b : Host) (cfgA cfgB : MainConfig) : Prop where
  client : mainConfig a = .ok cfgA
  server : mainConfig b = .ok cfgB
  normal : readMode a = .normal
  reverse : readMode b = .reverse
  shares : a.SharesTunnel b
  apart : cfgA.ToldApart

section

variable {a b : Host} {cfgA cfgB : MainConfig} {seedA seedB : UInt64} {family : AddrFamily}
  {addr : CliAddr}

/-- **Two hosts that run one tunnel** begin as a tunnel begins. -/
theorem started_starts (hdep : Deployed a b cfgA cfgB) (haddr : addr.family = family) :
    (Tunnel.started cfgA.toAwgConfig cfgB.toAwgConfig seedA seedB family addr).Starts := by
  have hA := started_of_mainConfig hdep.client seedA
  have hB := started_of_mainConfig hdep.server seedB
  have hwA := mainConfig_eq_ok_iff.mp hdep.client
  have hwB := mainConfig_eq_ok_iff.mp hdep.server
  obtain ⟨ringA, rngA, heqA⟩ := proxyInit_eq cfgA.toAwgConfig seedA
  obtain ⟨ringB, rngB, heqB⟩ := proxyInit_eq cfgB.toAwgConfig seedB
  have hcfgA : (proxyInitC2s cfgA.toAwgConfig seedA).cfg = cfgA.toAwgConfig := by
    rw [proxyInitC2s, heqA]
    rfl
  exact {
    client := hA.c2s
    clientRings := hA.rings
    clientQueue := rfl
    clientFamily := haddr
    server := hB.chain
    serverMode := hwB.mode.trans hdep.reverse
    serverBufs := fun _ _ => List.length_replicate
    serverQueue := rfl
    back := hB.s2c
    backRings := hB.rings
    backCfg := by
      rw [Tunnel.started, heqB]
      rfl
    noClient := by
      rw [Tunnel.started, heqB]
      rfl
    same := by
      rw [Tunnel.started, hcfgA]
      exact sameTunnel_of_sharesTunnel hdep.shares hwA hwB hdep.apart
    fresh := ⟨rfl, rfl, rfl, rfl, rfl, rfl⟩ }

end

/-! ### Sealed messages -/

/-- A handshake carries the sum of its receiver, of the bytes ahead of it. -/
def SealedFor (pub d : Bytes) : Prop :=
  ∀ k off, handshakeKind? d = some k → k.macOff = some off →
    d.slice off 16 = blake2s128mac (computeMac1Key pub) (d.take off)

/-- A message that was sealed for its receiver comes back as it was. -/
theorem eq_of_comesBack_of_sealedFor {pub d d' : Bytes} {pr : AwgProfile}
    (h : ComesBack (mac1KeyOf pub) (mac1KeyOf pub) pr d d') (hs : SealedFor pub d) : d' = d := by
  obtain ⟨randVal, rfl⟩ := h
  rw [returned]
  cases hk : handshakeKind? d with
  | none => rfl
  | some k =>
      dsimp only
      cases hoff : k.macOff with
      | none => rfl
      | some off =>
          have hfits : off + 16 ≤ d.length := by
            rw [(handshakeKind?_eq_some_iff.mp hk).2]
            cases k <;> cases hoff <;> decide
          rw [Option.elim_some]
          by_cases hset : keySet pub = true
          · rw [mac1KeyOf, if_pos hset, returnedMac1, ← hs k off hk hoff]
            exact Bytes.patch_slice_self hfits
          · rw [mac1KeyOf, if_neg hset]
            rfl

/-- The local WireGuards seal their handshakes for one another. -/
def TunnelEvent.Sealed (serverPub clientPub : Bytes) : TunnelEvent → Prop
  | .send d => SealedFor serverPub d
  | .reply d => SealedFor clientPub d
  | _ => True

/-- What the datagrams of a tunnel carry is sealed. -/
structure Tunnel.SealedOn (serverPub clientPub : Bytes) (t : Tunnel) : Prop where
  up : ∀ f ∈ t.up, SealedFor serverPub f.msg
  down : ∀ f ∈ t.down, SealedFor clientPub f.msg
  arrived : ∀ f ∈ t.arrived, SealedFor serverPub f.msg
  returned : ∀ r ∈ t.returned, SealedFor clientPub r.1.msg

section

variable {serverPub clientPub : Bytes} {s t : Tunnel}

/-- A step keeps what is on the way sealed. -/
theorem Tunnel.SealedOn.step (h : s.SealedOn serverPub clientPub) {e : TunnelEvent}
    (he : e.Sealed serverPub clientPub) (hstep : tunnelMachine.step s e = some t) :
    t.SealedOn serverPub clientPub := by
  cases e with
  | send d =>
      obtain ⟨-, rfl⟩ := Option.ite_some_none_eq_some.mp hstep
      refine { h with up := fun f hf => ?_ }
      rcases List.mem_append.mp hf with hf | hf
      · exact h.up f hf
      · obtain ⟨w, -, rfl⟩ := List.mem_map.mp hf
        exact he
  | switch k =>
      obtain ⟨-, rfl⟩ := Option.ite_some_none_eq_some.mp hstep
      exact { h with }
  | move a =>
      obtain ⟨-, rfl⟩ := Option.ite_some_none_eq_some.mp hstep
      exact { h with }
  | reach i slot =>
      obtain ⟨f, hf, hstep⟩ := Option.bind_eq_some_iff.mp hstep
      obtain ⟨-, rfl⟩ := Option.ite_some_none_eq_some.mp hstep
      refine { h with arrived := fun g hg => ?_ }
      rw [Tunnel.arrived_hears] at hg
      rcases List.mem_append.mp hg with hg | hg
      · exact h.arrived g hg
      · obtain rfl := List.mem_singleton.mp hg
        exact h.up g (List.mem_of_getElem? hf)
  | stray src slot w =>
      obtain ⟨-, rfl⟩ := Option.ite_some_none_eq_some.mp hstep
      refine { h with arrived := fun g hg => ?_ }
      rw [Tunnel.arrived_hears] at hg
      exact h.arrived g (by simpa using hg)
  | reply d =>
      obtain ⟨-, rfl⟩ := Option.ite_some_none_eq_some.mp hstep
      refine { h with down := fun f hf => ?_ }
      rcases List.mem_append.mp hf with hf | hf
      · exact h.down f hf
      · obtain ⟨w, -, rfl⟩ := List.mem_map.mp hf
        exact he
  | comeBack i =>
      obtain ⟨f, hf, rfl⟩ := Option.map_eq_some_iff.mp hstep
      refine { h with returned := fun r hr => ?_ }
      rcases List.mem_append.mp hr with hr | hr
      · exact h.returned r hr
      · obtain rfl := List.mem_singleton.mp hr
        exact h.down f (List.mem_of_getElem? hf)

/-- A run of sealed messages has nothing else on the way. -/
theorem Tunnel.SealedOn.run (h : s.SealedOn serverPub clientPub) {es : List TunnelEvent}
    (hes : ∀ e ∈ es, e.Sealed serverPub clientPub) (hrun : tunnelMachine.run s es = some t) :
    t.SealedOn serverPub clientPub := by
  refine Machine.guarded_induction (C := fun _ e => e.Sealed serverPub clientPub)
    (fun s e s' hi hc hs => hi.step hc hs) h (fun pre e post s' hsplit _ => hes e ?_) hrun
  rw [hsplit]
  exact List.mem_append_right pre List.mem_cons_self

end

/-! ### The deployed tunnel -/

/-- Messages that come back as they were are the messages. -/
theorem eq_map_msg_of_forall₂ {pub : Bytes} {R : Flight → Bytes → Prop} {fs : List Flight}
    {ds : List Bytes} (h : List.Forall₂ R fs ds) (hs : ∀ f ∈ fs, SealedFor pub f.msg)
    (hR : ∀ f d, SealedFor pub f.msg → R f d → d = f.msg) : ds = fs.map Flight.msg := by
  induction h with
  | nil => rfl
  | cons hfd hrest ih =>
      obtain ⟨hf, hfs⟩ := List.forall_mem_cons.mp hs
      rw [List.map_cons, ← ih hfs, hR _ _ hf hfd]

/-- **A deployed tunnel**, between WireGuards that seal their handshakes for one another, hands
over every message that arrives, as it was and in the order of arrival: at the server's end all of
them, at the client's end those of its stage. -/
theorem deployed_tunnel {a b : Host} {cfgA cfgB : MainConfig} {seedA seedB : UInt64}
    {family : AddrFamily} {addr : CliAddr} {t : Tunnel} {es : List TunnelEvent}
    (hdep : Deployed a b cfgA cfgB) (haddr : addr.family = family)
    (hrun : tunnelMachine.run
      (.started cfgA.toAwgConfig cfgB.toAwgConfig seedA seedB family addr) es = some t)
    (hnoise : tunnelMachine.Meets StrayIsNoise
      (.started cfgA.toAwgConfig cfgB.toAwgConfig seedA seedB family addr) es)
    (hsealed : ∀ e ∈ es, e.Sealed cfgA.serverPub cfgA.clientPub) :
    t.server.sent = t.arrived.map Flight.msg ∧ t.toClient = t.accepted.map Flight.msg ∧
      t.server.cfg.activeProfile = (t.arrived.getLast?.map Flight.stage).getD 0 ∧
      (if t.back.hasClient then some t.back.clientAddr else none) =
        t.heard.getLast?.map Prod.fst := by
  have hstarts : (Tunnel.started cfgA.toAwgConfig cfgB.toAwgConfig seedA seedB family
      addr).Starts := started_starts hdep haddr
  have htrans := (Tunnel.Runs.run hstarts hrun hnoise).toTransparent
  have hfresh : (Tunnel.started cfgA.toAwgConfig cfgB.toAwgConfig seedA seedB family addr).SealedOn
      cfgA.serverPub cfgA.clientPub :=
    ⟨List.forall_mem_nil _, List.forall_mem_nil _, List.forall_mem_nil _, List.forall_mem_nil _⟩
  have hon := hfresh.run hsealed hrun
  have hwA := mainConfig_eq_ok_iff.mp hdep.client
  have hwB := mainConfig_eq_ok_iff.mp hdep.server
  obtain ⟨houtA, hinB, houtB, hinA⟩ :=
    mac1keys_of_sharesTunnel hdep.shares hwA hwB hdep.normal hdep.reverse
  have hcfgA : (Tunnel.started cfgA.toAwgConfig cfgB.toAwgConfig seedA seedB family
      addr).client.cfg = cfgA.toAwgConfig := by
    obtain ⟨ring, rng, heq⟩ := proxyInit_eq cfgA.toAwgConfig seedA
    rw [Tunnel.started, proxyInitC2s, heq]
    rfl
  refine ⟨?_, ?_, ?_, htrans.peer⟩
  · refine eq_map_msg_of_forall₂ htrans.toServer hon.arrived fun f d hf hR => ?_
    rw [Tunnel.Upward, hcfgA, houtA] at hR
    exact eq_of_comesBack_of_sealedFor (hinB ▸ hR) hf
  · have haccepted : ∀ f ∈ t.accepted, SealedFor cfgA.clientPub f.msg := by
      intro f hf
      obtain ⟨r, hr, rfl⟩ := List.mem_map.mp hf
      exact hon.returned r (List.mem_of_mem_filter hr)
    refine eq_map_msg_of_forall₂ htrans.toClient haccepted fun f d hf hR => ?_
    rw [Tunnel.Downward, hcfgA, hinA] at hR
    exact eq_of_comesBack_of_sealedFor (houtB ▸ hR) hf
  · rw [htrans.stage, Tunnel.lastStage]
    exact congrArg _ hwB.active

/-! ### Two hosts -/

/-- A message under the sum of its receiver. -/
def sealFor (pub : Bytes) (off : ℕ) (d : Bytes) : Bytes :=
  d.patch off (blake2s128mac (computeMac1Key pub) (d.take off))

theorem sealedFor_sealFor {pub d : Bytes} {k : HandshakeKind} {off : ℕ}
    (hk : handshakeKind? (sealFor pub off d) = some k) (hoff : k.macOff = some off)
    (hle : off ≤ d.length) : SealedFor pub (sealFor pub off d) := by
  intro k' off' hk' hoff'
  obtain rfl := Option.some.inj (hk.symm.trans hk')
  obtain rfl := Option.some.inj (hoff.symm.trans hoff')
  have hself := Bytes.slice_patch_self (d := blake2s128mac (computeMac1Key pub) (d.take off)) hle
  rw [length_blake2s128mac] at hself
  rw [sealFor, hself, Bytes.take_patch hle]

instance (pr : AwgProfile) : Decidable pr.EqualPaddings :=
  decidable_of_iff (pr.s1 = pr.s2 ∧ pr.s2 = pr.s3 ∧ pr.s3 = pr.s4)
    ⟨fun h => ⟨h.1, h.2.1, h.2.2⟩, fun h => ⟨h.1, h.2, h.3⟩⟩

instance (cfg : AwgConfig) : Decidable cfg.ToldApart :=
  decidable_of_iff
    ((∀ k : Fin awgMaxProfiles, (k : ℕ) < cfg.profileCount → (cfg.profiles k).EqualPaddings) ∧
      (∀ j k : Fin awgMaxProfiles, (j : ℕ) < cfg.profileCount → (k : ℕ) < cfg.profileCount →
        (cfg.profiles j).s4 = (cfg.profiles k).s4 ∧
          (cfg.profiles j).hpOn = (cfg.profiles k).hpOn) ∧
      (∀ k : Fin awgMaxProfiles, (k : ℕ) < cfg.profileCount →
        (cfg.profiles k).h4Noop = false) ∧
      ∀ j k : Fin awgMaxProfiles, (j : ℕ) < cfg.profileCount → (k : ℕ) < cfg.profileCount →
        j ≠ k → ∀ a ∈ (cfg.profiles j).headers, ∀ b ∈ (cfg.profiles k).headers,
          hrangeOverlaps a b = false)
    ⟨fun h => ⟨h.1, h.2.1, h.2.2.1, h.2.2.2⟩, fun h => ⟨h.1, h.2, h.3, h.4⟩⟩

/-- The environment of the other end of the tunnel. -/
def twoStageReverseVars : List (String × List Char) :=
  ("AWG_MODE", "reverse".toList) :: ("AWG_DISABLE_COOKIES", "1".toList) :: twoStageVars

/-- An init for the server behind them. -/
def sealedInit : Bytes :=
  sealFor (List.replicate 32 1) 116 zeroInit

/-- The init overtakes nothing, but arrives twice, once behind a later datagram. -/
def repeatedInit : List TunnelEvent :=
  [.send sealedInit, .switch 1, .send zeroData, .reach 0 0, .reach 1 1, .reply zeroData,
    .reach 0 2, .reply zeroData, .comeBack 0, .comeBack 1]

/-- The state those two ends start in. -/
def twoStageTunnel (cfgA cfgB : AwgConfig) : Tunnel :=
  .started cfgA cfgB 7 8 .inet (.v4 0x0A000002 51820)

/-- What is computed of the two hosts and of the run. -/
def twoStageChecks (cfgA cfgB : MainConfig) : Bool :=
  let s := twoStageTunnel cfgA.toAwgConfig cfgB.toAwgConfig
  decide cfgA.ToldApart && decide (cfgA.serverPub = List.replicate 32 1) &&
    (tunnelMachine.run s repeatedInit).isSome &&
    tunnelMachine.guarded StrayIsNoise s repeatedInit

/-- Every message arrives there as it was. -/
theorem deployed_tunnel_twoStage : ∃ cfgA cfgB t,
    Deployed (.ofVars twoStageVars) (.ofVars twoStageReverseVars) cfgA cfgB ∧
      tunnelMachine.run (twoStageTunnel cfgA.toAwgConfig cfgB.toAwgConfig) repeatedInit = some t ∧
      t.server.sent = t.arrived.map Flight.msg ∧ t.toClient = t.accepted.map Flight.msg := by
  have hok : ((mainConfig (.ofVars twoStageVars)).toOption.bind fun cfgA =>
      (mainConfig (.ofVars twoStageReverseVars)).toOption.map fun cfgB =>
        twoStageChecks cfgA cfgB) = some true := by
    decide +kernel
  obtain ⟨cfgA, hA, hok⟩ := Option.bind_eq_some_iff.mp hok
  obtain ⟨cfgB, hB, hok⟩ := Option.map_eq_some_iff.mp hok
  have hA := Start.eq_ok_of_toOption hA
  have hB := Start.eq_ok_of_toOption hB
  simp only [twoStageChecks, Bool.and_eq_true, decide_eq_true_eq] at hok
  obtain ⟨⟨⟨hapart, hpub⟩, hsome⟩, hguard⟩ := hok
  have hshares : (Host.ofVars twoStageVars).SharesTunnel (.ofVars twoStageReverseVars) :=
    ⟨by decide +kernel, by decide +kernel, by decide +kernel, by decide +kernel⟩
  have hdep : Deployed (.ofVars twoStageVars) (.ofVars twoStageReverseVars) cfgA cfgB :=
    ⟨hA, hB, by decide +kernel, by decide +kernel, hshares, hapart⟩
  have hinit : SealedFor cfgA.serverPub sealedInit := by
    rw [hpub]
    exact sealedFor_sealFor (k := .init) (by decide +kernel) rfl (by decide +kernel)
  have hdata : ∀ pub, SealedFor pub zeroData := by
    intro pub k off hk
    rw [show handshakeKind? zeroData = none by decide] at hk
    cases hk
  have hsealed : ∀ e ∈ repeatedInit, e.Sealed cfgA.serverPub cfgA.clientPub := by
    simp [repeatedInit, TunnelEvent.Sealed, hinit, hdata]
  obtain ⟨t, ht⟩ := Option.isSome_iff_exists.mp hsome
  obtain ⟨hserver, hclient, -⟩ :=
    deployed_tunnel hdep rfl ht (Machine.meets_of_guarded hguard) hsealed
  exact ⟨cfgA, cfgB, t, hdep, ht, hserver, hclient⟩

end AwgProxy
