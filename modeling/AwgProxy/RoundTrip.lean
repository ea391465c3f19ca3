import AwgProxy.Encoder
import AwgProxy.Decoder

/-!
# Round Trips

The decoder on what the encoder sends. One site encodes a WireGuard message under a
profile, the other decodes the datagram under the same profile and header protection key;
the two have their own memories, MAC1 keys and buffers.

* `decode_handshake`, `decode_transport` — the dispatch finds the message the encoder put
  behind the padding and opens it to the message itself, up to its sum.
* `roundTrips_iff` — the round trip, with the exact condition on the
  inputs under which it succeeds. The one obstacle is the decoder's fast path for
  unchanged transport data, which it takes before it looks at sizes: a padding that begins
  like a transport message hides a handshake from it.
-/

namespace AwgProxy

/-! ### Protection and its inverse -/

section

variable {cfgS cfgR : AwgConfig} (pr : AcceptedProfile) {m : Mem PktBuf} {buf : Ptr PktBuf}
  {n : ℕ} {ks : Option Bytes} {pad : Bytes}

/-- The nonce of a datagram is the start of its padding. -/
theorem read_nonce {rest : Bytes} (hw : m.read buf n = pad ++ rest) (h12 : 12 ≤ pad.length)
    (hn : pad.length ≤ n) : m.read buf 12 = pad.take 12 := by
  have hslice := m.read_add_eq_slice buf (i := 0) (n := 12) (k := n) (by omega)
  rw [Ptr.add_zero, hw, Bytes.slice, List.drop_zero, List.take_append_of_le_length h12] at hslice
  exact hslice

/-- What stands between the padding of a datagram and its trailer. -/
theorem read_behind_pad {d tr : Bytes} (hw : m.read buf n = pad ++ d ++ tr)
    (hn : n = pad.length + d.length + tr.length) :
    m.read (buf.add pad.length) d.length = d := by
  rw [m.read_add_eq_slice buf (i := pad.length) (n := d.length) (k := n) (by omega), hw,
    List.append_assoc, Bytes.slice_append_right _ _ le_rfl, Nat.sub_self, Bytes.slice,
    List.drop_zero, List.take_left]

/-- The mask takes the protection off the type word. -/
theorem load32Le_protect_xor_typeMask {d : Bytes} (hkey : cfgR.hpKey = cfgS.hpKey)
    (hnonce : pr.hpOn = true → m.read buf 12 = pad.take 12) (hks : KsValid cfgR m buf ks)
    (h4 : 4 ≤ d.length) :
    load32Le (protect cfgS pr.toAwgProfile pad d) 0 ^^^
      typeMask (recvKs cfgR m buf pr.toAwgProfile ks) = load32Le d 0 := by
  rw [recvKs_eq pr.toAwgProfile hks, protect]
  cases hon : pr.hpOn with
  | false => simp [typeMask]
  | true =>
      rw [if_pos rfl, if_pos rfl, load32Le_chacha20Xor _ _ h4, hkey, hnonce hon, typeMask,
        Option.elim_some, UInt32.xor_assoc, UInt32.xor_self, UInt32.xor_zero]

theorem length_protectHeader (cfg : AwgConfig) (pr : AwgProfile) (pad d : Bytes) :
    (protectHeader cfg pr pad d).length = d.length := by
  have h16 : awgHpTransportHdr = 16 := rfl
  rw [protectHeader]
  split
  · refine Bytes.length_patch ?_
    rw [length_chacha20Xor, List.length_take]
    omega
  · rfl

/-- The mask takes the protection off the type word of transport data. -/
theorem load32Le_protectHeader_xor_typeMask {d : Bytes} (hkey : cfgR.hpKey = cfgS.hpKey)
    (hnonce : pr.hpOn = true → m.read buf 12 = pad.take 12) (hks : KsValid cfgR m buf ks)
    (hd : 32 ≤ d.length) :
    load32Le (protectHeader cfgS pr.toAwgProfile pad d) 0 ^^^
      typeMask (recvKs cfgR m buf pr.toAwgProfile ks) = load32Le d 0 := by
  have h16 : awgHpTransportHdr = 16 := rfl
  have hhead : load32Le (protectHeader cfgS pr.toAwgProfile pad d) 0 =
      load32Le (protect cfgS pr.toAwgProfile pad (d.take awgHpTransportHdr)) 0 := by
    rw [protectHeader, protect]
    cases pr.hpOn with
    | false =>
        refine load32Le_congr ?_
        simp only [Bool.false_eq_true, if_false]
        rw [List.take_take, Nat.min_eq_left (by omega)]
    | true =>
        refine load32Le_congr ?_
        rw [if_pos rfl, if_pos rfl, Bytes.patch, List.take_zero, List.nil_append,
          List.take_append_of_le_length]
        rw [length_chacha20Xor, List.length_take]
        omega
  have hhdr : load32Le (d.take awgHpTransportHdr) 0 = load32Le d 0 := by
    refine load32Le_congr ?_
    rw [List.take_take, Nat.min_eq_left (by omega)]
  rw [hhead, load32Le_protect_xor_typeMask pr hkey hnonce hks, hhdr]
  rw [List.length_take]
  omega

/-- The decoder takes the protection off the message. -/
theorem unprotect_protect {d : Bytes} (hkey : cfgR.hpKey = cfgS.hpKey)
    (hnonce : pr.hpOn = true → m.read buf 12 = pad.take 12) :
    unprotect cfgR (recvKs cfgR m buf pr.toAwgProfile ks) (m.read buf 12)
      (protect cfgS pr.toAwgProfile pad d) = d := by
  rw [recvKs, protect]
  cases hon : pr.hpOn with
  | false => simp [unprotect]
  | true =>
      rw [if_pos rfl, if_pos rfl, unprotect, Option.isSome_some, if_pos rfl, hkey, hnonce hon,
        chacha20Xor_chacha20Xor]

/-- The decoder takes the protection off the header of transport data. -/
theorem unprotectHeader_protectHeader {d : Bytes} (hkey : cfgR.hpKey = cfgS.hpKey)
    (hnonce : pr.hpOn = true → m.read buf 12 = pad.take 12) (hks : KsValid cfgR m buf ks)
    (hd : 32 ≤ d.length) :
    unprotectHeader (recvKs cfgR m buf pr.toAwgProfile ks)
      (protectHeader cfgS pr.toAwgProfile pad d) = d := by
  rw [recvKs_eq pr.toAwgProfile hks, protectHeader]
  cases hon : pr.hpOn with
  | false => rfl
  | true =>
      have h16 : awgHpTransportHdr = 16 := rfl
      have hhdr : (d.take awgHpTransportHdr).length = 16 := by
        rw [List.length_take]
        omega
      rw [if_pos rfl, if_pos rfl, hkey, hnonce hon,
        chacha20Xor_eq_xorBytes_chacha20Block _ _ (by omega)]
      simp only [unprotectHeader, Option.elim_some, chacha20XorKs]
      set block := chacha20Block cfgS.hpKey (pad.take 12) 0 with hblock
      have hxlen : (Bytes.xorBytes (d.take awgHpTransportHdr) block).length = 16 := by
        rw [Bytes.length_xorBytes, hhdr, hblock, length_chacha20Block]
        omega
      have htake : (d.patch 0 (Bytes.xorBytes (d.take awgHpTransportHdr) block)).take
          awgHpTransportHdr = Bytes.xorBytes (d.take awgHpTransportHdr) block := by
        have hself : (d.patch 0 (Bytes.xorBytes (d.take awgHpTransportHdr) block)).slice 0
            (Bytes.xorBytes (d.take awgHpTransportHdr) block).length = _ :=
          Bytes.slice_patch_self (Nat.zero_le _)
        rwa [hxlen, Bytes.slice, List.drop_zero] at hself
      rw [htake, Bytes.xorBytes_xorBytes (by rw [hhdr, hblock, length_chacha20Block]; omega),
        Bytes.patch_patch_self (Nat.zero_le _) (by rw [hxlen, hhdr])]
      have hwhole : d.patch 0 (d.slice 0 awgHpTransportHdr) = d :=
        Bytes.patch_slice_self (by omega)
      rwa [Bytes.slice, List.drop_zero] at hwhole

end

/-! ### The dispatch finds the message -/

/-- The padded handshakes have three different sizes. -/
def DistinctTotals (pr : AwgProfile) : Prop :=
  pr.initTotal ≠ pr.respTotal ∧ pr.initTotal ≠ pr.cookieTotal ∧ pr.respTotal ≠ pr.cookieTotal

theorem DistinctTotals.total_ne {pr : AwgProfile} (h : DistinctTotals pr)
    {j k : HandshakeKind} (hjk : j ≠ k) : j.total pr ≠ k.total pr := by
  obtain ⟨h12, h13, h23⟩ := h
  cases j <;> cases k
  case init.init => exact absurd rfl hjk
  case response.response => exact absurd rfl hjk
  case cookie.cookie => exact absurd rfl hjk
  case init.response => exact h12
  case init.cookie => exact h13
  case response.init => exact h12.symm
  case response.cookie => exact h23
  case cookie.init => exact h13.symm
  case cookie.response => exact h23.symm

/-- Without trailers only the exact size qualifies. -/
theorem sizeMatches_eq_decide {pr : AwgProfile} (hrt : pr.rt = false) (n : ℕ) (total : ℤ) :
    sizeMatches pr n total = decide ((n : ℤ) = total) := by
  rw [sizeMatches, hrt, Bool.false_and, Bool.or_false]

/-- Without trailers a datagram of another size matches no kind. -/
theorem matchesKind_eq_false_of_ne {pr : AwgProfile} {m : Mem PktBuf} {buf : Ptr PktBuf} {n : ℕ}
    {kstream : Option Bytes} {j : HandshakeKind} (hrt : pr.rt = false)
    (hne : (n : ℤ) ≠ j.total pr) : matchesKind m buf n pr kstream j = false := by
  rw [matchesKind, sizeMatches_eq_decide hrt, decide_eq_false hne, Bool.false_and]

section

variable {cfgS cfgR : AwgConfig} {pr : AcceptedProfile} {m : Mem PktBuf} {buf : Ptr PktBuf}
  {n : ℕ} {ks : Option Bytes} {pad : Bytes}

/-- The first word behind the padding of a handshake has a header of its kind, and with
its trailer it qualifies for the size. -/
theorem matchesKind_protect {k : HandshakeKind} {d tr : Bytes} (hd : d.length = k.size)
    (hin : hrangeContains (k.header pr.toAwgProfile) (load32Le d 0) = true)
    (htr : pr.rt = true ∨ tr = []) (hkey : cfgR.hpKey = cfgS.hpKey) (hf : m.Fits buf n)
    (hpad : pad.length = (k.pad pr.toAwgProfile).toNat)
    (hw : m.read buf n = pad ++ protect cfgS pr.toAwgProfile pad d ++ tr)
    (hks : KsValid cfgR m buf ks) :
    (n : ℤ) = k.total pr.toAwgProfile + tr.length ∧
      m.read (buf.add (k.pad pr.toAwgProfile).toNat) k.size =
        protect cfgS pr.toAwgProfile pad d ∧
      (pr.hpOn = true → m.read buf 12 = pad.take 12) ∧
      matchesKind m buf n pr.toAwgProfile (recvKs cfgR m buf pr.toAwgProfile ks) k = true := by
  have h4 := k.four_le_size
  have hplen : (protect cfgS pr.toAwgProfile pad d).length = d.length := length_protect ..
  have hn : n = pad.length + d.length + tr.length := by
    have := congrArg List.length hw
    rwa [Mem.length_read hf, List.length_append, List.length_append, hplen] at this
  have hbehind := read_behind_pad hw (by rw [hplen]; exact hn)
  rw [hplen, hd, hpad] at hbehind
  have hnonce : pr.hpOn = true → m.read buf 12 = pad.take 12 := by
    intro hon
    have := HandshakeKind.twelve_le_pad pr.valid k hon
    rw [List.append_assoc] at hw
    exact read_nonce hw (by omega) (by omega)
  have htotal : (n : ℤ) = k.total pr.toAwgProfile + tr.length := by
    have := (HandshakeKind.pad_mem pr.valid k).1
    rw [k.total_eq]
    omega
  have hsize : sizeMatches pr.toAwgProfile n (k.total pr.toAwgProfile) = true := by
    rw [sizeMatches, Bool.or_eq_true, Bool.and_eq_true, decide_eq_true_eq, decide_eq_true_eq]
    rcases htr with hrt | rfl
    · rcases Nat.eq_zero_or_pos tr.length with h0 | hpos
      · exact Or.inl (by omega)
      · exact Or.inr ⟨hrt, by omega⟩
    · exact Or.inl (by simpa using htotal)
  refine ⟨htotal, hbehind, hnonce, ?_⟩
  rw [matchesKind, hsize, Bool.true_and, read32Le_eq m _ k.four_le_size, hbehind,
    load32Le_protect_xor_typeMask pr hkey hnonce hks (by omega)]
  exact hin

/-- **Decoding a handshake.** Beside the fast path, and where no kind before its own
matches, the decoder returns the message between the padding and the trailer under its
WireGuard type and the receiver's sum. -/
theorem decode_handshake_of_first {k : HandshakeKind} {d tr : Bytes} (hd : d.length = k.size)
    (hin : hrangeContains (k.header pr.toAwgProfile) (load32Le d 0) = true)
    (htr : pr.rt = true ∨ tr = []) (hkey : cfgR.hpKey = cfgS.hpKey) (hf : m.Fits buf n)
    (hpad : pad.length = (k.pad pr.toAwgProfile).toNat)
    (hw : m.read buf n = pad ++ protect cfgS pr.toAwgProfile pad d ++ tr)
    (hks : KsValid cfgR m buf ks) (hfast : ¬ fastPath m buf n pr.toAwgProfile)
    (hbefore : ∀ j : HandshakeKind, j.rank < k.rank →
      matchesKind m buf n pr.toAwgProfile (recvKs cfgR m buf pr.toAwgProfile ks) j = false)
    {r : InboundResult} (hr : r = transformInboundProfile m buf n cfgR pr.toAwgProfile ks) :
    r.out = some (buf.add pad.length, d.length) ∧
      r.mem.read (buf.add pad.length) d.length =
        k.putMac cfgR.mac1keyIn (retype k.type d) := by
  obtain ⟨htotal, hbehind, hnonce, hmatch⟩ :=
    matchesKind_protect hd hin htr hkey hf hpad hw hks
  have h4 := k.four_le_size
  have hpad0 := (HandshakeKind.pad_mem pr.valid k).1
  rw [k.total_eq] at htotal
  have hres := transformInboundProfile_eq cfgR ks (by omega : 4 ≤ n) hfast
    (fun hon => by
      have := HandshakeKind.twelve_le_pad pr.valid k hon
      omega)
  rw [inboundDispatch_of_first hmatch hbefore, ← hr] at hres
  obtain ⟨hmem, hout⟩ := Prod.mk.inj hres
  have hfk : m.Fits (buf.add (k.pad pr.toAwgProfile).toNat) k.size := hf.add (by omega)
  obtain ⟨hread, -⟩ := openAs_spec cfgR (recvKs cfgR m buf pr.toAwgProfile ks) hfk
  rw [hbehind, unprotect_protect pr hkey hnonce] at hread
  rw [hout, hmem, hd, hpad]
  exact ⟨rfl, hread⟩

/-- Where the padded handshakes differ in size, no other kind matches. -/
theorem decode_handshake {k : HandshakeKind} {d : Bytes} (hd : d.length = k.size)
    (hin : hrangeContains (k.header pr.toAwgProfile) (load32Le d 0) = true)
    (hrt : pr.rt = false) (hdist : DistinctTotals pr.toAwgProfile)
    (hkey : cfgR.hpKey = cfgS.hpKey) (hf : m.Fits buf n)
    (hpad : pad.length = (k.pad pr.toAwgProfile).toNat)
    (hw : m.read buf n = pad ++ protect cfgS pr.toAwgProfile pad d)
    (hks : KsValid cfgR m buf ks) (hfast : ¬ fastPath m buf n pr.toAwgProfile)
    {r : InboundResult} (hr : r = transformInboundProfile m buf n cfgR pr.toAwgProfile ks) :
    r.out = some (buf.add pad.length, d.length) ∧
      r.mem.read (buf.add pad.length) d.length =
        k.putMac cfgR.mac1keyIn (retype k.type d) := by
  have hw' := hw.trans (List.append_nil _).symm
  have htotal := (matchesKind_protect hd hin (Or.inr rfl) hkey hf hpad hw' hks).1
  rw [List.length_nil, Nat.cast_zero, add_zero] at htotal
  refine decode_handshake_of_first hd hin (Or.inr rfl) hkey hf hpad hw' hks hfast
    (fun j hj => ?_) hr
  have hjk : j ≠ k := fun h => absurd hj (h ▸ lt_irrefl _)
  exact matchesKind_eq_false_of_ne hrt fun h => hdist.total_ne hjk (h.symm.trans htotal)

/-- **Decoding transport data.** Beside the fast path, and where no kind of handshake
matches, the decoder returns the message behind the padding under the WireGuard type. -/
theorem decode_transport {d : Bytes} (hd : 32 ≤ d.length)
    (hin : hrangeContains pr.h4 (load32Le d 0) = true)
    (hkey : cfgR.hpKey = cfgS.hpKey) (hf : m.Fits buf n) (hpad : pad.length = pr.s4.toNat)
    (hw : m.read buf n = pad ++ protectHeader cfgS pr.toAwgProfile pad d)
    (hother : matchesTransport m buf n pr.toAwgProfile
      (recvKs cfgR m buf pr.toAwgProfile ks) = true → ∀ j,
        matchesKind m buf n pr.toAwgProfile (recvKs cfgR m buf pr.toAwgProfile ks) j = false)
    (hks : KsValid cfgR m buf ks) (hfast : ¬ fastPath m buf n pr.toAwgProfile)
    {r : InboundResult} (hr : r = transformInboundProfile m buf n cfgR pr.toAwgProfile ks) :
    r.out = some (buf.add pad.length, d.length) ∧
      r.mem.read (buf.add pad.length) d.length = retype wgTransportData d := by
  obtain ⟨hs0, -⟩ := pr.valid.s4_mem
  have hlen := length_protectHeader cfgS pr.toAwgProfile pad d
  have hn : n = pad.length + d.length := by
    have := congrArg List.length hw
    rwa [Mem.length_read hf, List.length_append, hlen] at this
  have hbehind := read_behind_pad (hw.trans (List.append_nil _).symm) (by rw [hlen]; exact hn)
  rw [hlen] at hbehind
  have hnonce : pr.hpOn = true → m.read buf 12 = pad.take 12 := by
    intro hon
    have := (pr.valid.hp hon).2.2.2
    exact read_nonce hw (by omega) (by omega)
  have hmatch : matchesTransport m buf n pr.toAwgProfile
      (recvKs cfgR m buf pr.toAwgProfile ks) = true := by
    rw [matchesTransport, ← hpad, read32Le_eq m _ (by omega : 4 ≤ d.length), hbehind,
      load32Le_protectHeader_xor_typeMask pr hkey hnonce hks hd, hin, Bool.and_true,
      decide_eq_true_eq]
    simp only [wgTransportMin]
    omega
  have hres := transformInboundProfile_eq cfgR ks (by omega : 4 ≤ n) hfast
    (fun hon => by
      have := (pr.valid.hp hon).2.2.2
      omega)
  rw [inboundDispatch_of_not_matchesKind (hother hmatch), if_pos hmatch, ← hr] at hres
  obtain ⟨hmem, hout⟩ := Prod.mk.inj hres
  have hft : m.Fits (buf.add pad.length) d.length := hf.add (by omega)
  obtain ⟨hread, -⟩ := openTransport_spec (recvKs cfgR m buf pr.toAwgProfile ks) hft hd
  rw [hbehind, unprotectHeader_protectHeader pr hkey hnonce hks hd] at hread
  rw [hout, hmem, ← hpad]
  refine ⟨?_, hread⟩
  rw [hn, Nat.add_sub_cancel_left]

end

/-! ### The round trip -/

/-- A message of the WireGuard protocol that the encoder pads: a handshake, a cookie reply
only where they are forwarded, or transport data with the headroom for its padding that is
not as long, padded, as a padded handshake. -/
def WireMessage (cfg : AwgConfig) (pr : AwgProfile) (dataoff : ℕ) (d : Bytes) : Prop :=
  match handshakeKind? d with
  | some k => k = .cookie → cfg.disableCookies = false
  | none => load32Le d 0 = wgTransportData ∧ 32 ≤ d.length ∧ pr.s4 ≤ dataoff ∧
      ∀ k : HandshakeKind, pr.s4 + d.length ≠ k.total pr

/-- A message `d` with the sum the receiver has: its own or, where it has no key, the
sender's, computed over the header `hdr` the message was sent with. -/
def returnedMac1 (off : ℕ) (inKey outKey : Option Bytes) (hdr : UInt32) (d : Bytes) : Bytes :=
  match inKey with
  | some key => d.patch off (blake2s128mac key (d.take off))
  | none => outKey.elim d fun key => d.patch off (blake2s128mac key ((retype hdr d).take off))

/-- What the receiver has of a message `d`: a handshake under the sum of `returnedMac1`,
every other message as it was. -/
def returned (inKey outKey : Option Bytes) (pr : AwgProfile) (randVal : UInt64) (d : Bytes) :
    Bytes :=
  match handshakeKind? d with
  | some k => k.macOff.elim d fun off =>
      returnedMac1 off inKey outKey (hrangePick (k.header pr) randVal) d
  | none => d

/-- The decoder returns the message `d`. -/
def Returns (r : InboundResult) (d : Bytes) : Prop :=
  ∃ p, r.out = some (p, d.length) ∧ r.mem.read p d.length = d

/-- Under an unpadded transport profile, the first word of a handshake on the wire, which
is the start of its padding or header, reads as the type of transport data. -/
def leadsAsTransport (pr : AwgProfile) (randVal : UInt64) (d : Bytes) : Prop :=
  pr.h4Noop = true ∧ ∃ k, handshakeKind? d = some k ∧
    load32Le (fillPadding (k.pad pr).toNat (k.seed randVal) ++
      Bytes.leBytes 4 (hrangePick (k.header pr) randVal).toNat) 0 = wgTransportData

/-- The type word of a message does not interfere with what stands behind it. -/
theorem retype_patch_retype {t hdr : UInt32} {d x : Bytes} {off : ℕ} (ht : load32Le d 0 = t)
    (hoff : 4 ≤ off) (hlen : off ≤ d.length) :
    retype t ((retype hdr d).patch off x) = d.patch off x := by
  have h4 : 4 ≤ d.length := by omega
  have hcomm := Bytes.patch_patch_comm (b := retype hdr d) (i := 0) (e := x)
    (d := Bytes.leBytes 4 t.toNat) (by simpa using hoff)
    (by rw [length_retype h4]; exact hlen)
  rw [retype, ← hcomm, ← retype, retype_retype, retype_of_load32Le h4 ht]

/-- The receiver's sum over a message that went out under the sender's. -/
theorem putMac1_retype_putMac1 {t hdr : UInt32} {d : Bytes} {off : ℕ} (inKey outKey : Option Bytes)
    (ht : load32Le d 0 = t) (hoff : 4 ≤ off) (hlen : off + 16 ≤ d.length) :
    putMac1 off inKey (retype t (putMac1 off outKey (retype hdr d))) =
      returnedMac1 off inKey outKey hdr d := by
  cases outKey with
  | none =>
      have hback : retype t (putMac1 off none (retype hdr d)) = d := by
        rw [putMac1, Option.elim_none, retype_retype, retype_of_load32Le (by omega) ht]
      rw [hback]
      cases inKey with
      | none => simp only [putMac1, returnedMac1, Option.elim_none]
      | some key => simp only [putMac1, returnedMac1, Option.elim_some]
  | some out =>
      have hback : retype t (putMac1 off (some out) (retype hdr d)) =
          d.patch off (blake2s128mac out ((retype hdr d).take off)) := by
        rw [putMac1, Option.elim_some, retype_patch_retype ht hoff (by omega)]
      rw [hback]
      cases inKey with
      | none => simp only [putMac1, returnedMac1, Option.elim_none, Option.elim_some]
      | some key =>
          simp only [putMac1, returnedMac1, Option.elim_some]
          rw [Bytes.take_patch (by omega), Bytes.patch_patch_self (by omega) (by simp)]

/-- The receiver's rewrite of a handshake that was rewritten by the sender. -/
theorem putMac_retype_rewrite {pr : AwgProfile} (inKey outKey : Option Bytes)
    (randVal : UInt64) {k : HandshakeKind} {d : Bytes} (hk : handshakeKind? d = some k) :
    k.putMac inKey (retype k.type (k.rewrite pr outKey randVal d)) =
      returned inKey outKey pr randVal d := by
  obtain ⟨hty, hsz⟩ := handshakeKind?_eq_some_iff.mp hk
  have h4 : 4 ≤ d.length := hsz ▸ k.four_le_size
  simp only [returned, hk, HandshakeKind.putMac, HandshakeKind.rewrite]
  cases k with
  | init =>
      simp only [HandshakeKind.macOff, Option.elim_some]
      exact putMac1_retype_putMac1 inKey outKey hty (by decide) (by rw [hsz]; decide)
  | response =>
      simp only [HandshakeKind.macOff, Option.elim_some]
      exact putMac1_retype_putMac1 inKey outKey hty (by decide) (by rw [hsz]; decide)
  | cookie =>
      simp only [HandshakeKind.macOff, Option.elim_none]
      rw [retype_retype, retype_of_load32Le h4 hty]

theorem length_returned (inKey outKey : Option Bytes) (pr : AwgProfile) (randVal : UInt64)
    (d : Bytes) : (returned inKey outKey pr randVal d).length = d.length := by
  rcases hk : handshakeKind? d with _ | k
  · simp only [returned, hk]
  · obtain ⟨hty, hsz⟩ := handshakeKind?_eq_some_iff.mp hk
    have h4 : 4 ≤ d.length := hsz ▸ k.four_le_size
    have hrw : (k.rewrite pr outKey randVal d).length = k.size :=
      HandshakeKind.length_rewrite hsz
    have hret : (retype k.type (k.rewrite pr outKey randVal d)).length = k.size := by
      rw [length_retype (by rw [hrw]; exact k.four_le_size), hrw]
    rw [← putMac_retype_rewrite inKey outKey randVal hk, HandshakeKind.length_putMac hret, hret,
      hsz]

/-- The header a rewritten handshake goes out with. -/
theorem load32Le_rewrite {pr : AwgProfile} (key : Option Bytes) {randVal : UInt64}
    {k : HandshakeKind} {d : Bytes} (hsz : d.length = k.size) :
    load32Le (k.rewrite pr key randVal d) 0 = hrangePick (k.header pr) randVal := by
  have h4 : 4 ≤ d.length := hsz ▸ k.four_le_size
  have hret : (retype (hrangePick (k.header pr) randVal) d).length = k.size := by
    rw [length_retype h4, hsz]
  rw [HandshakeKind.rewrite, HandshakeKind.load32Le_putMac hret, load32Le_retype h4]

/-- Without trailers a padded handshake is padding and protected message. -/
theorem encodeHandshake_of_rt_eq_false (cfg : AwgConfig) {pr : AwgProfile} (hrt : pr.rt = false)
    (s : ℕ) (seed : UInt64) (d : Bytes) :
    encodeHandshake cfg pr s seed d =
      fillPadding s seed ++ protect cfg pr (fillPadding s seed) d := by
  have hnil : trailer cfg pr (s + d.length) seed = [] := by
    refine List.eq_nil_of_length_eq_zero ?_
    rw [length_trailer, trailerLen, hrt]
    rfl
  rw [encodeHandshake, hnil, List.append_nil]

/-- The fast path is taken exactly when the handshake leads as transport data. -/
theorem fastPath_iff_leadsAsTransport {cfgS : AwgConfig} {pr : AcceptedProfile}
    {key : Option Bytes} {randVal : UInt64} {k : HandshakeKind} {d : Bytes}
    (hk : handshakeKind? d = some k) {m : Mem PktBuf} {p : Ptr PktBuf} {n : ℕ}
    (hf : m.Fits p n) (hrt : pr.rt = false)
    (hw : m.read p n = encodeHandshake cfgS pr.toAwgProfile (k.pad pr.toAwgProfile).toNat
      (k.seed randVal) (k.rewrite pr.toAwgProfile key randVal d)) :
    fastPath m p n pr.toAwgProfile ↔ leadsAsTransport pr.toAwgProfile randVal d := by
  obtain ⟨hty, hsz⟩ := handshakeKind?_eq_some_iff.mp hk
  have h32 : 32 ≤ k.size := by cases k <;> decide
  have hrw : (k.rewrite pr.toAwgProfile key randVal d).length = k.size :=
    HandshakeKind.length_rewrite hsz
  have hn : n = (k.pad pr.toAwgProfile).toNat + k.size := by
    have := congrArg List.length hw
    rwa [Mem.length_read hf, encodeHandshake_of_rt_eq_false cfgS hrt, List.length_append,
      length_protect, length_fillPadding, hrw] at this
  have hword : pr.h4Noop = true → read32Le m p =
      load32Le (fillPadding (k.pad pr.toAwgProfile).toNat (k.seed randVal) ++
        Bytes.leBytes 4 (hrangePick (k.header pr.toAwgProfile) randVal).toNat) 0 := by
    intro hnoop
    have hoff : pr.hpOn = false := (pr.h4Noop_iff.mp hnoop).2.2.2
    rw [read32Le_eq m p (by omega : 4 ≤ n), hw, encodeHandshake_of_rt_eq_false cfgS hrt,
      protect, hoff]
    refine load32Le_congr ?_
    simp only [Bool.false_eq_true, if_false]
    rw [List.take_append, List.take_append]
    congr 1
    rw [← load32Le_rewrite key hsz, ← take_four_eq (by omega), List.take_take]
    congr 1
    omega
  constructor
  · rintro ⟨hnoop, hread, -⟩
    exact ⟨hnoop, k, hk, (hword hnoop).symm.trans hread⟩
  · rintro ⟨hnoop, j, hj, hlead⟩
    obtain rfl := Option.some.inj (hk.symm.trans hj)
    have hge : n ≥ wgTransportMin := by
      simp only [wgTransportMin]
      omega
    exact ⟨hnoop, (hword hnoop).trans hlead, hge⟩

/-- An unpadded handshake does not lead as transport data: its header is no transport
header. -/
theorem pad_pos_of_leadsAsTransport {pr : AcceptedProfile} {randVal : UInt64} {d : Bytes}
    {k : HandshakeKind} (hk : handshakeKind? d = some k)
    (h : leadsAsTransport pr.toAwgProfile randVal d) : 0 < (k.pad pr.toAwgProfile).toNat := by
  obtain ⟨hnoop, j, hj, hlead⟩ := h
  obtain rfl := Option.some.inj (hk.symm.trans hj)
  by_contra hpos
  have h0 : (k.pad pr.toAwgProfile).toNat = 0 := by omega
  have hnil : fillPadding 0 (k.seed randVal) = [] := List.eq_nil_of_length_eq_zero (by simp)
  have hhdr : hrangePick (k.header pr.toAwgProfile) randVal = wgTransportData := by
    rw [h0, hnil, List.nil_append] at hlead
    have hlen : (Bytes.leBytes 4 (hrangePick (k.header pr.toAwgProfile) randVal).toNat).length =
        4 := Bytes.length_leBytes ..
    have hword : load32Le (retype (hrangePick (k.header pr.toAwgProfile) randVal)
        (Bytes.leBytes 4 (hrangePick (k.header pr.toAwgProfile) randVal).toNat)) 0 =
        hrangePick (k.header pr.toAwgProfile) randVal := load32Le_retype hlen.ge
    rw [retype, Bytes.patch_zero_of_length le_rfl] at hword
    exact hword.symm.trans hlead
  have hin := hrangeContains_hrangePick (k.header pr.toAwgProfile) randVal
  have hout := HandshakeKind.not_hrangeContains_h4 pr.valid k hin
  obtain ⟨hmin, hmax, -⟩ := pr.h4Noop_iff.mp hnoop
  rw [hhdr, hrangeContains, hmin, hmax] at hout
  contradiction

section

variable {pr : AcceptedProfile} {cfgS cfgR : AwgConfig} {outKey : Option Bytes}
  {randVal : UInt64} {m : Mem PktBuf} {p : Ptr PktBuf} {n : ℕ} {ks : Option Bytes} {d : Bytes}

/-- Transport data comes back where it is no handshake too. -/
theorem returns_of_encodeTransport (hkey : cfgR.hpKey = cfgS.hpKey)
    (hty : load32Le d 0 = wgTransportData) (h32 : 32 ≤ d.length)
    (hother : matchesTransport m p n pr.toAwgProfile
      (recvKs cfgR m p pr.toAwgProfile ks) = true → ∀ j,
        matchesKind m p n pr.toAwgProfile (recvKs cfgR m p pr.toAwgProfile ks) j = false)
    (hf : m.Fits p n) (hn : n = pr.s4.toNat + d.length)
    (hw : m.read p n = encodeTransport cfgS pr.toAwgProfile randVal d)
    (hks : KsValid cfgR m p ks) :
    Returns (transformInboundProfile m p n cfgR pr.toAwgProfile ks) d := by
  have hs0 := pr.valid.s4_mem.1
  cases hnoop : pr.h4Noop with
  | true =>
      have h0 : pr.s4 = 0 := (pr.h4Noop_iff.mp hnoop).2.2.1
      rw [encodeTransport, hnoop, if_pos rfl] at hw
      have hlen : n = d.length := by
        rw [hn, h0]
        omega
      have hfast : fastPath m p n pr.toAwgProfile := by
        refine ⟨hnoop, ?_, ?_⟩
        · rw [read32Le_eq m p (by omega : 4 ≤ n), hw, hty]
        · simp only [wgTransportMin]
          omega
      rw [transformInboundProfile_of_fastPath hfast]
      exact ⟨p, by rw [hlen], by rw [← hlen]; exact hw⟩
  | false =>
      have hnofast : ¬ fastPath m p n pr.toAwgProfile := not_fastPath_of_h4Noop hnoop
      rw [encodeTransport, hnoop, if_neg Bool.false_ne_true] at hw
      have hretlen : (retype (transportHeader pr.toAwgProfile randVal) d).length = d.length :=
        length_retype (by omega)
      have hhdr : hrangeContains pr.h4
          (load32Le (retype (transportHeader pr.toAwgProfile randVal) d) 0) = true := by
        rw [load32Le_retype (by omega), transportHeader, pr.h4Fixed_eq]
        split
        · rw [hrangeContains_iff]
          exact ⟨UInt32.le_refl _, pr.h4.le⟩
        · exact hrangeContains_hrangePick _ _
      obtain ⟨hout, hread⟩ := decode_transport (by rw [hretlen]; exact h32) hhdr hkey hf
        (length_fillPadding _ _) hw hother hks hnofast rfl
      rw [hretlen, retype_retype, retype_of_load32Le (by omega) hty] at hread
      rw [hretlen] at hout
      exact ⟨_, hout, hread⟩

/-- A handshake comes back unless it leads as transport data: then the fast path returns
it with its padding. -/
theorem returns_of_encodeHandshake_iff (hrt : pr.rt = false)
    (hdist : DistinctTotals pr.toAwgProfile) (hkey : cfgR.hpKey = cfgS.hpKey)
    {k : HandshakeKind} (hk : handshakeKind? d = some k) (hf : m.Fits p n)
    (hw : m.read p n = encodeHandshake cfgS pr.toAwgProfile (k.pad pr.toAwgProfile).toNat
      (k.seed randVal) (k.rewrite pr.toAwgProfile outKey randVal d))
    (hks : KsValid cfgR m p ks) :
    Returns (transformInboundProfile m p n cfgR pr.toAwgProfile ks)
        (returned cfgR.mac1keyIn outKey pr.toAwgProfile randVal d) ↔
      ¬ leadsAsTransport pr.toAwgProfile randVal d := by
  obtain ⟨hty, hsz⟩ := handshakeKind?_eq_some_iff.mp hk
  have hrw : (k.rewrite pr.toAwgProfile outKey randVal d).length = k.size :=
    HandshakeKind.length_rewrite hsz
  have hfast := fastPath_iff_leadsAsTransport hk hf hrt hw
  rw [encodeHandshake_of_rt_eq_false cfgS hrt] at hw
  constructor
  · rintro ⟨q, hq, -⟩ hlead
    have hpos := pad_pos_of_leadsAsTransport hk hlead
    rw [transformInboundProfile_of_fastPath (hfast.mpr hlead)] at hq
    have hlen : n = (returned cfgR.mac1keyIn outKey pr.toAwgProfile randVal d).length :=
      congrArg Prod.snd (Option.some.inj hq)
    have hwlen := congrArg List.length hw
    rw [Mem.length_read hf, List.length_append, length_protect, length_fillPadding, hrw] at hwlen
    rw [length_returned] at hlen
    omega
  · intro hlead
    obtain ⟨hout, hread⟩ := decode_handshake (by rw [hrw])
      (by rw [load32Le_rewrite _ hsz]; exact hrangeContains_hrangePick _ _) hrt hdist hkey hf
      (length_fillPadding _ _) hw hks (fun h => hlead (hfast.mp h)) rfl
    rw [putMac_retype_rewrite _ _ _ hk, hrw] at hread
    rw [hrw] at hout
    rw [Returns, length_returned, hsz]
    exact ⟨_, hout, hread⟩

end

/-- Whatever buffer the receiver has the encoded message in, its decoder returns `d'`. -/
def RoundTrips (cfgS cfgR : AwgConfig) (pr : AwgProfile) (outKey : Option Bytes)
    (randVal : UInt64) (m : Mem PktBuf) (buf : Ptr PktBuf) (dataoff n : ℕ) (d' : Bytes) : Prop :=
  let r := transformOutboundProfile m buf dataoff n cfgS pr outKey randVal
  ∃ out, r.out = some out ∧
    ∀ (m' : Mem PktBuf) (p : Ptr PktBuf) (ks : Option Bytes), m'.Fits p r.outLen →
      m'.read p r.outLen = r.mem.read out r.outLen → KsValid cfgR m' p ks →
      Returns (transformInboundProfile m' p r.outLen cfgR pr ks) d'

/-- The message the receiver has begins with the type word it had. -/
theorem load32Le_returned (inKey outKey : Option Bytes) (pr : AwgProfile) (randVal : UInt64)
    (d : Bytes) : load32Le (returned inKey outKey pr randVal d) 0 = load32Le d 0 := by
  rcases hk : handshakeKind? d with _ | k
  · simp only [returned, hk]
  · obtain ⟨hty, hsz⟩ := handshakeKind?_eq_some_iff.mp hk
    have hrw : (k.rewrite pr outKey randVal d).length = k.size :=
      HandshakeKind.length_rewrite hsz
    have h4 : 4 ≤ (k.rewrite pr outKey randVal d).length := hrw ▸ k.four_le_size
    rw [← putMac_retype_rewrite inKey outKey randVal hk,
      HandshakeKind.load32Le_putMac ((length_retype h4).trans hrw), load32Le_retype h4, hty]

/-- Some receiver has the encoded message. -/
theorem exists_received (w : Bytes) :
    ∃ (m : Mem PktBuf) (p : Ptr PktBuf), m.Fits p w.length ∧ m.read p w.length = w :=
  ⟨fun _ => w, ⟨.gro, 0⟩, by simp [Mem.Fits], Bytes.slice_zero_length w⟩

/-- **Site-to-site round trip.** Under an accepted profile without trailers whose padded
handshakes differ in size, the decoder returns a message the encoder sends, in place or in
`hs_buf`, with any header protection key, random value and headroom, if and only if the
message does not lead as transport data. -/
theorem roundTrips_iff (pr : AcceptedProfile) (hrt : pr.rt = false)
    (hdist : DistinctTotals pr.toAwgProfile) (cfgS cfgR : AwgConfig)
    (hkey : cfgR.hpKey = cfgS.hpKey) (outKey : Option Bytes) (randVal : UInt64)
    {m : Mem PktBuf} {buf : Ptr PktBuf} {dataoff n : ℕ}
    (L : PktLayout m (buf.add dataoff) dataoff n)
    (hd : WireMessage cfgS pr.toAwgProfile dataoff (m.read (buf.add dataoff) n)) :
    RoundTrips cfgS cfgR pr.toAwgProfile outKey randVal m buf dataoff n
        (returned cfgR.mac1keyIn (outKey <|> cfgS.mac1keyOut) pr.toAwgProfile randVal
          (m.read (buf.add dataoff) n)) ↔
      ¬ leadsAsTransport pr.toAwgProfile randVal (m.read (buf.add dataoff) n) := by
  obtain ⟨d, hm⟩ : ∃ d, m.read (buf.add dataoff) n = d := ⟨_, rfl⟩
  rw [hm] at hd ⊢
  have hdlen : d.length = n := by rw [← hm, Mem.length_read L.fits]
  rw [RoundTrips]
  generalize hr : transformOutboundProfile m buf dataoff n cfgS pr.toAwgProfile outKey randVal = r
  rcases hk : handshakeKind? d with _ | k
  · rw [WireMessage, hk] at hd
    obtain ⟨hty, h32, hs4, hother⟩ := hd
    have hty' : read32Le m (buf.add dataoff) = wgTransportData := by
      rw [read32Le_eq m _ (by omega : 4 ≤ n), hm, hty]
    obtain ⟨hout, henc, hlen⟩ :=
      transformOutboundProfile_transport outKey randVal L.fits hs4 hty' (by omega) hr.symm
    rw [hm] at henc
    rw [← hdlen] at hlen
    have hno : ¬ leadsAsTransport pr.toAwgProfile randVal d := by
      rintro ⟨-, j, hj, -⟩
      rw [hk] at hj
      contradiction
    have hret : returned cfgR.mac1keyIn (outKey <|> cfgS.mac1keyOut) pr.toAwgProfile randVal d
        = d := by
      simp only [returned, hk]
    rw [iff_true_right hno, hret]
    have hs0 := pr.valid.s4_mem.1
    exact ⟨_, hout, fun m' p ks hf hrecv hks =>
      returns_of_encodeTransport hkey hty h32
        (fun _ j => matchesKind_eq_false_of_ne hrt fun hj => hother j (by rw [← hj]; omega))
        hf hlen (hrecv.trans henc) hks⟩
  · obtain ⟨hty, hsz⟩ := handshakeKind?_eq_some_iff.mp hk
    rw [WireMessage, hk] at hd
    have hn : n = k.size := hdlen.symm.trans hsz
    have hty' : read32Le m (buf.add dataoff) = k.type := by
      rw [read32Le_eq m _ (by rw [hn]; exact k.four_le_size : 4 ≤ n), hm, hty]
    obtain ⟨out, hout, henc, hfit, -⟩ :=
      transformOutboundProfile_handshake outKey randVal L pr.valid hty' hn hd hr.symm
    rw [hm] at henc
    constructor
    · rintro ⟨out', hout', hall⟩
      obtain rfl := Option.some.inj (hout.symm.trans hout')
      obtain ⟨m', p, hf, hrecv⟩ := exists_received (r.mem.read out r.outLen)
      rw [Mem.length_read hfit] at hf hrecv
      have hks : KsValid cfgR m' p none := fun _ h => nomatch h
      exact (returns_of_encodeHandshake_iff hrt hdist hkey hk hf (hrecv.trans henc) hks).mp
        (hall m' p none hf hrecv hks)
    · intro hlead
      exact ⟨out, hout, fun m' p ks hf hrecv hks =>
        (returns_of_encodeHandshake_iff hrt hdist hkey hk hf (hrecv.trans henc) hks).mpr hlead⟩

/-! ### An init that is taken for transport data -/

/-- A profile with a padded init whose transport data passes unchanged. -/
def paddedInitProfile : AcceptedProfile :=
  AcceptedProfile.ofValidated
    { s1 := 8, s2 := 0, s3 := 0, s4 := 0
      h1 := .single 1, h2 := .single 2, h3 := .single 3, h4 := .single 4
      cps := fun _ => none, hpOn := false, rt := false, h4Fixed := 0, h4Noop := false
      initTotal := 0, respTotal := 0, cookieTotal := 0, transportSizeAmbiguous := false }
    (by decide)

/-- A configuration of that profile without MAC1 keys. -/
def paddedInitConfig : AwgConfig where
  toAwgProfile := paddedInitProfile.toAwgProfile
  mode := .normal
  jc := 0
  jmin := 0
  jmax := 0
  serverPeerMac1keys := []
  hpKey := []
  rtAny := false
  disableCookies := false
  udpWindow := 500
  mac1keyOut := none
  mac1keyIn := none
  profiles := fun _ => paddedInitProfile.toAwgProfile
  profileCount := 1
  activeProfile := 0
  maxS4 := 0

/-- An init of zeros. -/
def zeroInit : Bytes :=
  Bytes.leBytes 4 1 ++ List.replicate 144 0

/-- A thread whose receive buffers hold that init behind eight bytes of headroom. -/
def zeroInitMem : Mem PktBuf
  | .recv _ => List.replicate 8 0 ++ zeroInit ++ List.replicate 1600 0
  | .gro => []
  | .hsBuf => List.replicate 1500 0

theorem zeroInitMem_layout :
    PktLayout zeroInitMem ((⟨.recv 0, 0⟩ : Ptr PktBuf).add 8) 8 148 := by
  have hinit : zeroInit.length = 148 := rfl
  have hlen : (zeroInitMem (.recv 0)).length = 8 + 148 + 1600 := by
    simp only [zeroInitMem, List.length_append, List.length_replicate, hinit]
  exact .recv (by omega) (by omega) List.length_replicate

theorem read_zeroInitMem : zeroInitMem.read ((⟨.recv 0, 0⟩ : Ptr PktBuf).add 8) 148 = zeroInit := by
  decide

theorem handshakeKind?_zeroInit : handshakeKind? zeroInit = some .init := by
  decide +kernel

theorem returned_zeroInit (pr : AwgProfile) (randVal : UInt64) :
    returned none none pr randVal zeroInit = zeroInit := by
  simp only [returned, handshakeKind?_zeroInit, HandshakeKind.macOff, Option.elim_some,
    returnedMac1, Option.elim_none]

/-- The round trip of that init under a padding that does not read as a message type. -/
theorem roundTrips_zeroInit :
    RoundTrips paddedInitConfig paddedInitConfig paddedInitProfile.toAwgProfile none 7
      zeroInitMem ⟨.recv 0, 0⟩ 8 148 zeroInit := by
  have hiff := roundTrips_iff paddedInitProfile rfl (by unfold DistinctTotals; decide)
    paddedInitConfig paddedInitConfig rfl none 7 zeroInitMem_layout
    (by rw [read_zeroInitMem, WireMessage, handshakeKind?_zeroInit]; decide)
  rw [read_zeroInitMem] at hiff
  have hret := returned_zeroInit paddedInitProfile.toAwgProfile 7
  refine (hret ▸ hiff).mpr ?_
  rintro ⟨-, k, hk, hlead⟩
  obtain rfl := Option.some.inj (handshakeKind?_zeroInit.symm.trans hk)
  exact absurd hlead (by decide)

/-- A receiver of the datagram that carries that init under a random value whose padding
reads as the type of transport data. -/
def zeroInitReceived : Mem PktBuf :=
  fun _ => (transformOutboundProfile zeroInitMem ⟨.recv 0, 0⟩ 8 148 paddedInitConfig
    paddedInitProfile.toAwgProfile none 0x920ace9f82d4637c).mem.read ⟨.recv 0, 0⟩ 156

/-- Under this random value the padding of an init begins with the bytes `4, 0, 0, 0`: the
decoder returns the datagram of 156 bytes as transport data, not the init of 148. -/
theorem not_roundTrips_zeroInit :
    paddedInitProfile.rt = false ∧ DistinctTotals paddedInitProfile.toAwgProfile ∧
    WireMessage paddedInitConfig paddedInitProfile.toAwgProfile 8 zeroInit ∧
    ¬ RoundTrips paddedInitConfig paddedInitConfig paddedInitProfile.toAwgProfile none
      0x920ace9f82d4637c zeroInitMem ⟨.recv 0, 0⟩ 8 148 zeroInit := by
  refine ⟨rfl, by unfold DistinctTotals; decide,
    by rw [WireMessage, handshakeKind?_zeroInit]; decide, ?_⟩
  rintro ⟨out, hout, hall⟩
  have hsent : (transformOutboundProfile zeroInitMem ⟨.recv 0, 0⟩ 8 148 paddedInitConfig
      paddedInitProfile.toAwgProfile none 0x920ace9f82d4637c).out = some ⟨.recv 0, 0⟩ := by
    decide
  obtain rfl := Option.some.inj (hsent.symm.trans hout)
  obtain ⟨q, hq, -⟩ := hall zeroInitReceived ⟨.gro, 0⟩ none (by decide +kernel) (by decide +kernel)
    (fun _ h => nomatch h)
  have hback : (transformInboundProfile zeroInitReceived ⟨.gro, 0⟩ 156 paddedInitConfig
      paddedInitProfile.toAwgProfile none).out = some (⟨.gro, 0⟩, 156) := by
    decide
  have hlen : 156 = zeroInit.length := congrArg Prod.snd (Option.some.inj (hback.symm.trans hq))
  exact absurd hlen (by decide +kernel)

end AwgProxy
