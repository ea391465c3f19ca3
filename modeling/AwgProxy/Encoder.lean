import AwgProxy.Transform

/-!
# The Encoder

What `transform_outbound_profile` leaves in the region it returns, and what else it
touches.

* `padHandshake_spec` — a padded handshake region holds padding, protected message and
  trailer.
* `transformOutboundProfile_handshake` — every handshake comes out as `encodeHandshake` of
  the message with its new type word and sum.
* `transformOutboundProfile_transport` — transport data comes out as `encodeTransport`.
* `transformOutboundProfile_frame` — the encoder writes only into the packet's own buffer
  and, exactly when a handshake does not fit in front of it (`usesHsBuf`), into `hs_buf`.
-/

namespace AwgProxy

/-! ### The padded handshake -/

/-- Where the encoder works: a message of `n` bytes at `data`, with `dataoff` bytes of
headroom in front of it and room for a full packet from it on, apart from the `hs_buf` of
the thread. -/
structure PktLayout (m : Mem PktBuf) (data : Ptr PktBuf) (dataoff n : ℕ) : Prop where
  headroom : dataoff ≤ data.off
  fits : m.Fits data n
  room : m.Fits data 1500
  hs : (m .hsBuf).length = 1500
  notHs : data.buf ≠ .hsBuf

/-- The layout depends on the lengths of the buffers alone. -/
theorem PktLayout.of_sameShape {m m' : Mem PktBuf} {data : Ptr PktBuf} {dataoff n : ℕ}
    (L : PktLayout m data dataoff n) (h : m.SameShape m') : PktLayout m' data dataoff n :=
  ⟨L.headroom, h.fits_iff.mpr L.fits, h.fits_iff.mpr L.room, (h _).trans L.hs, L.notHs⟩

/-- A datagram behind the headroom of its receive buffer. -/
theorem PktLayout.recv {m : Mem PktBuf} {i dataoff n : ℕ}
    (hn : dataoff + n ≤ (m (.recv i)).length) (hroom : dataoff + 1500 ≤ (m (.recv i)).length)
    (hs : (m .hsBuf).length = 1500) :
    PktLayout m ((⟨.recv i, 0⟩ : Ptr PktBuf).add dataoff) dataoff n := by
  have hoff : ((⟨.recv i, 0⟩ : Ptr PktBuf).add dataoff).off = dataoff := Nat.zero_add _
  refine ⟨hoff.ge, ?_, ?_, hs, nofun⟩
  · rw [Mem.Fits, hoff]
    exact hn
  · rw [Mem.Fits, hoff]
    exact hroom

/-- Header protection of a message whose padding is `pad`. -/
def protect (cfg : AwgConfig) (pr : AwgProfile) (pad d : Bytes) : Bytes :=
  if pr.hpOn then chacha20Xor cfg.hpKey (pad.take 12) d else d

@[simp] theorem length_protect (cfg : AwgConfig) (pr : AwgProfile) (pad d : Bytes) :
    (protect cfg pr pad d).length = d.length := by
  unfold protect
  split <;> simp

/-- The trailer behind a packet of `size` bytes. -/
def trailer (cfg : AwgConfig) (pr : AwgProfile) (size : ℕ) (seed : UInt64) : Bytes :=
  fillPadding (trailerLen cfg pr size seed) (seed ^^^ 0xFEED1)

@[simp] theorem length_trailer (cfg : AwgConfig) (pr : AwgProfile) (size : ℕ)
    (seed : UInt64) : (trailer cfg pr size seed).length = trailerLen cfg pr size seed :=
  length_fillPadding _ _

/-- A padded handshake: padding, message under header protection, trailer. -/
def encodeHandshake (cfg : AwgConfig) (pr : AwgProfile) (s : ℕ) (seed : UInt64) (d : Bytes) :
    Bytes :=
  fillPadding s seed ++ protect cfg pr (fillPadding s seed) d ++
    trailer cfg pr (s + d.length) seed

/-- Header protection loses nothing. -/
theorem protect_protect (cfg : AwgConfig) (pr : AwgProfile) (pad d : Bytes) :
    protect cfg pr pad (protect cfg pr pad d) = d := by
  unfold protect
  split
  · exact chacha20Xor_chacha20Xor ..
  · rfl

/-- The encoding determines the message. -/
theorem encodeHandshake_inj {cfg : AwgConfig} {pr : AwgProfile} {s : ℕ} {seed : UInt64}
    {d d' : Bytes} (hlen : d.length = d'.length)
    (h : encodeHandshake cfg pr s seed d = encodeHandshake cfg pr s seed d') : d = d' := by
  rw [encodeHandshake, encodeHandshake] at h
  obtain ⟨h, -⟩ := List.append_inj h (by simp [hlen])
  have hprot := List.append_cancel_left h
  rw [← protect_protect cfg pr (fillPadding s seed) d, hprot, protect_protect]

/-- A trailer never carries a packet beyond the packet buffer. -/
theorem add_trailerLen_le (cfg : AwgConfig) (pr : AwgProfile) {size : ℕ} (seed : UInt64)
    (h : size ≤ 1500) : size + trailerLen cfg pr size seed ≤ 1500 := by
  simp only [trailerLen, awgPacketBufSize]
  split
  · exact h
  · by_cases hwin : min cfg.udpWindow.toNat 1500 ≤ size
    · rw [if_pos hwin]
      exact h
    · have hmod := Nat.mod_lt (mix64 (seed ^^^ 0x7A11E45)).toNat
        (show min cfg.udpWindow.toNat 1500 - size > 0 by omega)
      rw [if_neg hwin]
      omega

/-- A trailer stays short of the window. -/
theorem add_trailerLen_lt (cfg : AwgConfig) (pr : AwgProfile) (size : ℕ) (seed : UInt64) :
    size + trailerLen cfg pr size seed < max (size + 1) (min cfg.udpWindow.toNat 1500) := by
  simp only [trailerLen, awgPacketBufSize]
  split
  · exact lt_max_of_lt_left (Nat.lt_succ_self _)
  · by_cases hwin : min cfg.udpWindow.toNat 1500 ≤ size
    · rw [if_pos hwin]
      exact lt_max_of_lt_left (Nat.lt_succ_self _)
    · have hmod := Nat.mod_lt (mix64 (seed ^^^ 0x7A11E45)).toNat
        (show min cfg.udpWindow.toNat 1500 - size > 0 by omega)
      rw [if_neg hwin]
      exact lt_max_of_lt_right (by omega)

/-- Where a padded handshake is built there is a full packet's room, the message stands
behind the padding, and nothing outside that room has changed. -/
theorem handshakeOut_spec {m : Mem PktBuf} {data : Ptr PktBuf} {dataoff n s : ℕ}
    (L : PktLayout m data dataoff n) (hs : s + n ≤ 1500) :
    (handshakeOut m data dataoff n s).1.Fits (handshakeOut m data dataoff n s).2 1500 ∧
    (handshakeOut m data dataoff n s).1.read ((handshakeOut m data dataoff n s).2.add s) n =
      m.read data n ∧
    m.ChangesIn (handshakeOut m data dataoff n s).1 (handshakeOut m data dataoff n s).2 1500 ∧
    (handshakeOut m data dataoff n s).2.buf =
      if s ≤ dataoff then data.buf else .hsBuf := by
  have hhead := L.headroom
  by_cases hin : s ≤ dataoff
  · have hroom := L.room
    simp only [handshakeOut, if_pos hin]
    refine ⟨?_, ?_, Mem.ChangesIn.refl _ _ _, rfl⟩
    · simp only [Mem.Fits, Ptr.sub_buf, Ptr.sub_off] at hroom ⊢
      omega
    · rw [Ptr.sub_add_cancel (by omega)]
  · have hfits : m.Fits (⟨.hsBuf, 0⟩ : Ptr PktBuf) 1500 := by
      rw [Mem.Fits, L.hs, Nat.zero_add]
    have hlen : (m.read data n).length = n := Mem.length_read L.fits
    have hpart : m.Fits (⟨.hsBuf, s⟩ : Ptr PktBuf) (m.read data n).length := by
      simp only [Mem.Fits, L.hs]
      omega
    have hptr : (⟨.hsBuf, 0⟩ : Ptr PktBuf).add s = ⟨.hsBuf, s⟩ :=
      Ptr.ext rfl (Nat.zero_add s)
    simp only [handshakeOut, if_neg hin]
    refine ⟨(Mem.fits_write hpart).mpr hfits, ?_, ?_, trivial⟩
    · have hself := Mem.read_write_self hpart
      rw [hlen] at hself
      rw [hptr, hself]
    · rw [← hptr]
      exact Mem.ChangesIn.write hfits (by omega)

/-- The trailer goes behind the packet. -/
theorem appendTrailer_spec {m : Mem PktBuf} (cfg : AwgConfig) (pr : AwgProfile)
    {out : Ptr PktBuf} {size : ℕ} (seed : UInt64) (hf : m.Fits out 1500) (hs : size ≤ 1500) :
    (appendTrailer m cfg pr out size seed).2 = size + trailerLen cfg pr size seed ∧
    (appendTrailer m cfg pr out size seed).1.read out (size + trailerLen cfg pr size seed) =
      m.read out size ++ trailer cfg pr size seed ∧
    m.ChangesIn (appendTrailer m cfg pr out size seed).1 out 1500 := by
  have hle := add_trailerLen_le cfg pr seed hs
  refine ⟨rfl, ?_⟩
  rcases Nat.eq_zero_or_pos (trailerLen cfg pr size seed) with h0 | hpos
  · have hnil : trailer cfg pr size seed = [] :=
      List.eq_nil_of_length_eq_zero (by rw [length_trailer, h0])
    simp only [appendTrailer, h0, Nat.lt_irrefl, gt_iff_lt, if_false, hnil, List.append_nil,
      Nat.add_zero, true_and]
    exact Mem.ChangesIn.refl _ _ _
  · simp only [appendTrailer, gt_iff_lt, if_pos hpos]
    have hlen : (trailer cfg pr size seed).length = trailerLen cfg pr size seed := by simp
    have hread : (m.write (out.add size) (trailer cfg pr size seed)).read out
        (size + (trailer cfg pr size seed).length) = m.read out size ++ trailer cfg pr size seed :=
      Mem.read_write_add (hf.mono (by omega))
    rw [hlen] at hread
    exact ⟨hread, Mem.ChangesIn.write hf (by rw [length_fillPadding]; omega)⟩

/-- Padding in front of a message and header protection over it. -/
theorem sealMessage_spec {m : Mem PktBuf} (cfg : AwgConfig) (pr : AwgProfile)
    {out : Ptr PktBuf} {s n : ℕ} (seed : UInt64) (hf : m.Fits out 1500) (hs : s + n ≤ 1500)
    (hhp : pr.hpOn = true → 12 ≤ s) {m' m'' : Mem PktBuf}
    (hm' : m' = m.write out (fillPadding s seed))
    (hm'' : m'' = if pr.hpOn then m'.write (out.add s)
      (chacha20Xor cfg.hpKey (m'.read out 12) (m'.read (out.add s) n)) else m') :
    m''.read out (s + n) =
      fillPadding s seed ++ protect cfg pr (fillPadding s seed) (m.read (out.add s) n) ∧
    m.ChangesIn m'' out 1500 := by
  have hpad : (fillPadding s seed).length = s := length_fillPadding s seed
  have hread : m'.read out (s + n) = fillPadding s seed ++ m.read (out.add s) n := by
    have happ := Mem.read_write_append (d := fillPadding s seed) (n := n)
      (hf.mono (by rw [hpad]; exact hs))
    rwa [hpad, ← hm'] at happ
  have hchg : m.ChangesIn m' out 1500 := by
    rw [hm']
    exact Mem.ChangesIn.write (i := 0) hf (by rw [hpad]; omega)
  have hf' : m'.Fits out 1500 := hchg.shape.fits_iff.mpr hf
  cases hon : pr.hpOn with
  | false =>
      rw [hon] at hm''
      simp only [Bool.false_eq_true, if_false] at hm''
      rw [hm'', protect, hon]
      exact ⟨hread, hchg⟩
  | true =>
      rw [hon, if_pos rfl] at hm''
      have h12 : 12 ≤ s := hhp hon
      have hmlen : (m.read (out.add s) n).length = n :=
        Mem.length_read (hf.add (by omega))
      have hnonce : m'.read out 12 = (fillPadding s seed).take 12 := by
        have hslice := m'.read_add_eq_slice out (i := 0) (n := 12) (k := s + n) (by omega)
        rw [Ptr.add_zero] at hslice
        rw [hslice, hread, Bytes.slice, List.drop_zero,
          List.take_append_of_le_length (by omega)]
      have hmsg : m'.read (out.add s) n = m.read (out.add s) n := by
        rw [m'.read_add_eq_slice out (i := s) (n := n) (k := s + n) le_rfl, hread,
          Bytes.slice_append_right _ _ (by omega), hpad, Nat.sub_self]
        have hwhole := Bytes.slice_zero_length (m.read (out.add s) n)
        rwa [hmlen] at hwhole
      have hpre : m'.read out s = fillPadding s seed := by
        have hslice := m'.read_add_eq_slice out (i := 0) (n := s) (k := s + n) (by omega)
        rw [Ptr.add_zero] at hslice
        rw [hslice, hread, Bytes.slice, List.drop_zero,
          List.take_append_of_le_length (by omega), List.take_of_length_le (by omega)]
      rw [hnonce, hmsg] at hm''
      have hxlen : (chacha20Xor cfg.hpKey ((fillPadding s seed).take 12)
          (m.read (out.add s) n)).length = n := by
        rw [length_chacha20Xor, hmlen]
      have hwrite := Mem.read_write_add (k := s) (hf'.mono (n := 1500) (by rw [hxlen]; exact hs))
      rw [hxlen, ← hm'', hpre] at hwrite
      refine ⟨?_, hchg.trans ?_⟩
      · rw [hwrite, protect, hon, if_pos rfl]
      · rw [hm'']
        exact Mem.ChangesIn.write hf' (by rw [hxlen]; exact hs)

/-- **The padded handshake.** The region returned holds padding, protected message and
trailer; the region lies in the packet's own buffer or, without the headroom for the
padding, in `hs_buf`; and no other buffer has changed. -/
theorem padHandshake_spec {m : Mem PktBuf} {data : Ptr PktBuf} {dataoff n : ℕ}
    {cfg : AwgConfig} {pr : AwgProfile} {s : ℤ} {seed : UInt64}
    (L : PktLayout m data dataoff n) (hn : n ≤ 1500) (hs0 : 0 ≤ s) (hs : s.toNat + n ≤ 1500)
    (hhp : pr.hpOn = true → 12 ≤ s) {m' : Mem PktBuf} {out : Ptr PktBuf} {len : ℕ}
    (h : padHandshake m data dataoff n cfg pr s seed = (m', out, len)) :
    m'.read out len = encodeHandshake cfg pr s.toNat seed (m.read data n) ∧
    len = s.toNat + n + trailerLen cfg pr (s.toNat + n) seed ∧
    m.ChangesIn m' out 1500 ∧ m'.Fits out 1500 ∧
    out.buf = if s.toNat ≤ dataoff then data.buf else .hsBuf := by
  have hlen : (m.read data n).length = n := Mem.length_read L.fits
  by_cases hpos : s > 0
  · obtain ⟨hfit, hmsg, hchg, hbuf⟩ := handshakeOut_spec L hs
    obtain ⟨hseal, hchg₁⟩ := sealMessage_spec cfg pr seed hfit hs (fun hon => by
      have := hhp hon
      omega) rfl rfl
    have hfit₁ := hchg₁.shape.fits_iff.mpr hfit
    obtain ⟨-, htrail, hchg₂⟩ := appendTrailer_spec cfg pr seed hfit₁ hs
    simp only [padHandshake, if_pos hpos, Prod.mk.injEq] at h
    obtain ⟨rfl, rfl, rfl⟩ := h
    refine ⟨?_, rfl, hchg.trans (hchg₁.trans hchg₂), hchg₂.shape.fits_iff.mpr hfit₁, hbuf⟩
    rw [hmsg] at hseal
    rw [encodeHandshake, hlen, ← hseal]
    exact htrail
  · obtain rfl : s = 0 := by omega
    have hoff : pr.hpOn = false := by
      by_contra hon
      have := hhp (by simpa using hon)
      omega
    obtain ⟨-, htrail, hchg⟩ := appendTrailer_spec cfg pr seed L.room hn
    have hnil : fillPadding 0 seed = [] := List.eq_nil_of_length_eq_zero (by simp)
    simp only [padHandshake, if_neg hpos, Prod.mk.injEq] at h
    obtain ⟨rfl, rfl, rfl⟩ := h
    refine ⟨?_, ?_, hchg, hchg.shape.fits_iff.mpr L.room, ?_⟩
    · rw [encodeHandshake, hlen, Int.toNat_zero, hnil, protect, hoff, List.nil_append,
        Nat.zero_add]
      exact htrail
    · rw [Int.toNat_zero, Nat.zero_add]
      rfl
    · rw [Int.toNat_zero, if_pos (Nat.zero_le _)]

/-! ### Handshakes -/

/-- The memory with the handshake at `data` under its new type word and sum. -/
def rewriteHandshake (m : Mem PktBuf) (data : Ptr PktBuf) (pr : AwgProfile)
    (key : Option Bytes) (randVal : UInt64) (k : HandshakeKind) : Mem PktBuf :=
  let m := write32Le m data (hrangePick (k.header pr) randVal)
  k.macOff.elim m fun off => key.elim m fun key => recomputeMac1At off m data key

/-- The message of a handshake under its new type word and sum. -/
def HandshakeKind.rewrite (k : HandshakeKind) (pr : AwgProfile) (key : Option Bytes)
    (randVal : UInt64) (d : Bytes) : Bytes :=
  k.putMac key (retype (hrangePick (k.header pr) randVal) d)

theorem HandshakeKind.length_rewrite {k : HandshakeKind} {pr : AwgProfile}
    {key : Option Bytes} {randVal : UInt64} {d : Bytes} (h : d.length = k.size) :
    (k.rewrite pr key randVal d).length = k.size := by
  have h4 : 4 ≤ d.length := h ▸ k.four_le_size
  have hret : (retype (hrangePick (k.header pr) randVal) d).length = d.length :=
    length_retype h4
  rw [rewrite, length_putMac (hret.trans h), hret, h]

theorem rewriteHandshake_spec {m : Mem PktBuf} {data : Ptr PktBuf} (pr : AwgProfile)
    (key : Option Bytes) (randVal : UInt64) {k : HandshakeKind} (hf : m.Fits data k.size) :
    (rewriteHandshake m data pr key randVal k).read data k.size =
      k.rewrite pr key randVal (m.read data k.size) ∧
    m.ChangesIn (rewriteHandshake m data pr key randVal k) data k.size := by
  have h4 := k.four_le_size
  have hread := read_write32Le (hrangePick (k.header pr) randVal) hf h4
  have hchg := changesIn_write32Le (hrangePick (k.header pr) randVal) hf h4
  have hf' := hchg.shape.fits_iff.mpr hf
  have hmac : ∀ off key, off + 16 ≤ k.size →
      (recomputeMac1At off (write32Le m data (hrangePick (k.header pr) randVal)) data
        key).read data k.size =
        putMac1 off (some key) (retype (hrangePick (k.header pr) randVal) (m.read data k.size)) ∧
      m.ChangesIn (recomputeMac1At off (write32Le m data (hrangePick (k.header pr) randVal))
        data key) data k.size := by
    intro off key hoff
    rw [read_recomputeMac1At key hf' hoff, hread]
    exact ⟨rfl, hchg.trans (changesIn_recomputeMac1At key hf' hoff)⟩
  cases key with
  | none => cases k <;> exact ⟨hread, hchg⟩
  | some key =>
      cases k with
      | init => exact hmac 116 key (by decide)
      | response => exact hmac 60 key (by decide)
      | cookie => exact ⟨hread, hchg⟩

/-- Junk goes out before an init when there is junk or an I-packet to send. -/
def HandshakeKind.junk (cfg : AwgConfig) (pr : AwgProfile) : HandshakeKind → Bool
  | init => cfg.jc > 0 || (pr.cps 0).isSome || (pr.cps 1).isSome || (pr.cps 2).isSome ||
      (pr.cps 3).isSome || (pr.cps 4).isSome
  | response => false
  | cookie => false

/-- The three handshake branches of the encoder. -/
theorem transformOutboundProfile_eq_padHandshake {m : Mem PktBuf} {buf : Ptr PktBuf}
    {dataoff n : ℕ} {cfg : AwgConfig} {pr : AwgProfile} {key : Option Bytes}
    {randVal : UInt64} {k : HandshakeKind} (ht : read32Le m (buf.add dataoff) = k.type)
    (hn : n = k.size) (hc : k = .cookie → cfg.disableCookies = false) :
    transformOutboundProfile m buf dataoff n cfg pr key randVal =
      let r := padHandshake
        (rewriteHandshake m (buf.add dataoff) pr (key <|> cfg.mac1keyOut) randVal k)
        (buf.add dataoff) dataoff n cfg pr (k.pad pr) (k.seed randVal)
      ⟨r.1, some r.2.1, r.2.2, k.junk cfg pr⟩ := by
  subst hn
  have h4 := k.four_le_size
  have h12 := wgHandshakeResponse_ne
  obtain ⟨h13, h23⟩ := wgCookieReply_ne
  rw [transformOutboundProfile, if_neg (by omega)]
  cases k with
  | init =>
      rw [if_pos ⟨ht, rfl⟩]
      rfl
  | response =>
      rw [if_neg fun hi => h12 (ht.symm.trans hi.1), if_pos ⟨ht, rfl⟩]
      rfl
  | cookie =>
      rw [if_neg fun hi => h13 (ht.symm.trans hi.1), if_neg fun hi => h23 (ht.symm.trans hi.1),
        if_pos ⟨ht, rfl⟩, if_neg (by simp [hc rfl])]
      rfl

/-- **A handshake on its way out.** The region returned holds the padded encoding of the
rewritten message; only the packet's own buffer and the buffer of the region have
changed. -/
theorem transformOutboundProfile_handshake {m : Mem PktBuf} {buf : Ptr PktBuf}
    {dataoff n : ℕ} {cfg : AwgConfig} {pr : AwgProfile} (key : Option Bytes)
    (randVal : UInt64) {k : HandshakeKind} (L : PktLayout m (buf.add dataoff) dataoff n)
    (hv : pr.Valid) (ht : read32Le m (buf.add dataoff) = k.type) (hn : n = k.size)
    (hc : k = .cookie → cfg.disableCookies = false) {r : OutboundResult}
    (hr : r = transformOutboundProfile m buf dataoff n cfg pr key randVal) :
    ∃ out, r.out = some out ∧
      r.mem.read out r.outLen = encodeHandshake cfg pr (k.pad pr).toNat (k.seed randVal)
        (k.rewrite pr (key <|> cfg.mac1keyOut) randVal (m.read (buf.add dataoff) n)) ∧
      r.mem.Fits out r.outLen ∧
      out.buf = (if (k.pad pr).toNat ≤ dataoff then buf.buf else .hsBuf) ∧
      m.SameShape r.mem ∧ ∀ b, b ≠ buf.buf → b ≠ out.buf → r.mem b = m b := by
  subst hn
  obtain ⟨hpad0, hpad⟩ := HandshakeKind.pad_mem hv k
  obtain ⟨hread, hchg⟩ :=
    rewriteHandshake_spec pr (key <|> cfg.mac1keyOut) randVal L.fits
  have hsz := k.size_le
  rw [transformOutboundProfile_eq_padHandshake ht rfl hc] at hr
  rcases hp : padHandshake
    (rewriteHandshake m (buf.add dataoff) pr (key <|> cfg.mac1keyOut) randVal k)
    (buf.add dataoff) dataoff k.size cfg pr (k.pad pr) (k.seed randVal) with ⟨m', out, len⟩
  obtain ⟨henc, hlen, hchg', hfit, hbuf⟩ := padHandshake_spec (L.of_sameShape hchg.shape)
    (by omega) hpad0 hpad (HandshakeKind.twelve_le_pad hv k) hp
  have hle := add_trailerLen_le cfg pr (k.seed randVal) hpad
  rw [hp] at hr
  subst hr
  refine ⟨out, rfl, ?_, hfit.mono (hlen ▸ hle), hbuf, hchg.shape.trans hchg'.shape,
    fun b hb hb' => ?_⟩
  · rw [hread] at henc
    exact henc
  · exact (hchg'.buf_eq hb').trans (hchg.buf_eq hb)

/-- A cookie reply the configuration forbids is dropped without a trace. -/
theorem transformOutboundProfile_cookie_disabled {m : Mem PktBuf} {buf : Ptr PktBuf}
    {dataoff : ℕ} {cfg : AwgConfig} {pr : AwgProfile} {key : Option Bytes}
    {randVal : UInt64} (ht : read32Le m (buf.add dataoff) = wgCookieReply)
    (hc : cfg.disableCookies = true) :
    transformOutboundProfile m buf dataoff wgCookieSize cfg pr key randVal =
      ⟨m, none, 0, false⟩ := by
  obtain ⟨h13, h23⟩ := wgCookieReply_ne
  rw [transformOutboundProfile, if_neg (by decide),
    if_neg fun hi => h13 (ht.symm.trans hi.1), if_neg fun hi => h23 (ht.symm.trans hi.1),
    if_pos ⟨ht, rfl⟩, if_pos hc]

/-! ### Transport data -/

/-- The header of an outbound transport message. -/
def transportHeader (pr : AwgProfile) (randVal : UInt64) : UInt32 :=
  if pr.h4.min = pr.h4.max then pr.h4Fixed else hrangePick pr.h4 randVal

/-- Header protection of a transport message whose padding is `pad`: the message header
alone is encrypted. -/
def protectHeader (cfg : AwgConfig) (pr : AwgProfile) (pad d : Bytes) : Bytes :=
  if pr.hpOn then
    d.patch 0 (chacha20Xor cfg.hpKey (pad.take 12) (d.take awgHpTransportHdr))
  else d

/-- Transport data on its way out. -/
def encodeTransport (cfg : AwgConfig) (pr : AwgProfile) (randVal : UInt64) (d : Bytes) :
    Bytes :=
  if pr.h4Noop then d
  else
    let pad := fillPadding pr.s4.toNat (randVal ^^^ 0xABCDE)
    pad ++ protectHeader cfg pr pad (retype (transportHeader pr randVal) d)

/-- The transport branch of the encoder. -/
theorem transformOutboundProfile_eq_transport {m : Mem PktBuf} {buf : Ptr PktBuf}
    {dataoff n : ℕ} {cfg : AwgConfig} {pr : AwgProfile} {key : Option Bytes}
    {randVal : UInt64} (ht : read32Le m (buf.add dataoff) = wgTransportData) (hn : 32 ≤ n) :
    transformOutboundProfile m buf dataoff n cfg pr key randVal =
      let data := buf.add dataoff
      if pr.h4Noop then ⟨m, some data, n, false⟩
      else
        let m := write32Le m data (transportHeader pr randVal)
        if pr.s4 > 0 ∧ (dataoff : ℤ) ≥ pr.s4 then
          let out := data.sub pr.s4.toNat
          let m := m.write out (fillPadding pr.s4.toNat (randVal ^^^ 0xABCDE))
          let m := if pr.hpOn then
              m.write data (chacha20Xor cfg.hpKey (m.read out 12) (m.read data awgHpTransportHdr))
            else m
          ⟨m, some out, pr.s4.toNat + n, false⟩
        else ⟨m, some data, n, false⟩ := by
  obtain ⟨h14, h24, h34⟩ := wgTransportData_ne
  rw [transformOutboundProfile, if_neg (by omega),
    if_neg fun hi => h14 (ht.symm.trans hi.1), if_neg fun hi => h24 (ht.symm.trans hi.1),
    if_neg fun hi => h34 (ht.symm.trans hi.1), if_pos ⟨ht, hn⟩]
  rfl

/-- The header of transport data under protection. -/
theorem read_protectHeader {m : Mem PktBuf} (cfg : AwgConfig) {pr : AwgProfile}
    {out : Ptr PktBuf} {s n : ℕ} {pad : Bytes} (hf : m.Fits out (s + n)) (hn : 32 ≤ n)
    (hpre : m.read out s = pad) (h12 : pr.hpOn = true → 12 ≤ s)
    {m' : Mem PktBuf}
    (hm' : m' = if pr.hpOn then m.write (out.add s)
      (chacha20Xor cfg.hpKey (m.read out 12) (m.read (out.add s) awgHpTransportHdr)) else m) :
    m'.read out (s + n) = pad ++ protectHeader cfg pr pad (m.read (out.add s) n) ∧
    m.ChangesIn m' out (s + n) := by
  have hsplit : m.read out (s + n) = pad ++ m.read (out.add s) n := by
    rw [Mem.read_add, hpre]
  cases hon : pr.hpOn with
  | false =>
      rw [hon] at hm'
      simp only [Bool.false_eq_true, if_false] at hm'
      rw [hm', protectHeader, hon]
      exact ⟨hsplit, Mem.ChangesIn.refl _ _ _⟩
  | true =>
      rw [hon, if_pos rfl] at hm'
      have hs := h12 hon
      have h16 : awgHpTransportHdr = 16 := rfl
      have hnonce : m.read out 12 = pad.take 12 := by
        have hslice := m.read_add_eq_slice out (i := 0) (n := 12) (k := s) (by omega)
        rwa [Ptr.add_zero, hpre, Bytes.slice, List.drop_zero] at hslice
      have hhdr : m.read (out.add s) awgHpTransportHdr =
          (m.read (out.add s) n).take awgHpTransportHdr := by
        have hslice := m.read_add_eq_slice (out.add s) (i := 0) (n := awgHpTransportHdr)
          (k := n) (by omega)
        rwa [Ptr.add_zero, Bytes.slice, List.drop_zero] at hslice
      have hf' : m.Fits (out.add s) n := hf.add le_rfl
      rw [hnonce, hhdr] at hm'
      have hlen : (m.read (out.add s) n).length = n := Mem.length_read hf'
      have hxlen : (chacha20Xor cfg.hpKey (pad.take 12)
          ((m.read (out.add s) n).take awgHpTransportHdr)).length = 16 := by
        rw [length_chacha20Xor, List.length_take, hlen]
        omega
      have hchg : m.ChangesIn m' out (s + n) := by
        rw [hm']
        exact Mem.ChangesIn.write hf (by rw [hxlen]; omega)
      refine ⟨?_, hchg⟩
      have hmsg : m'.read (out.add s) n =
          (m.read (out.add s) n).patch 0 (chacha20Xor cfg.hpKey (pad.take 12)
            ((m.read (out.add s) n).take awgHpTransportHdr)) := by
        rw [hm']
        exact Mem.read_write_of_subset (i := 0) hf' (by rw [hxlen]; omega)
      have hpre' : m'.read out s = pad := by
        rw [hm', Mem.read_write_of_apart (hf'.mono (by rw [hxlen]; omega))
          (Or.inr (Or.inl le_rfl)), hpre]
      rw [Mem.read_add, hpre', hmsg, protectHeader, hon, if_pos rfl]

/-- The padding in front of a message, and the protection of its header under it. -/
theorem padTransport_spec {m : Mem PktBuf} {data : Ptr PktBuf} {n : ℕ} (cfg : AwgConfig)
    {pr : AwgProfile} (randVal : UInt64) (hv : pr.Valid) (hf : m.Fits data n)
    (hs : pr.s4.toNat ≤ data.off) (hn : 32 ≤ n) {m' : Mem PktBuf}
    (hm' : m' =
      let out := data.sub pr.s4.toNat
      let m := m.write out (fillPadding pr.s4.toNat (randVal ^^^ 0xABCDE))
      if pr.hpOn then
        m.write data (chacha20Xor cfg.hpKey (m.read out 12) (m.read data awgHpTransportHdr))
      else m) :
    m'.read (data.sub pr.s4.toNat) (pr.s4.toNat + n) =
        fillPadding pr.s4.toNat (randVal ^^^ 0xABCDE) ++
          protectHeader cfg pr (fillPadding pr.s4.toNat (randVal ^^^ 0xABCDE)) (m.read data n) ∧
      m.ChangesIn m' (data.sub pr.s4.toNat) (pr.s4.toNat + n) := by
  have hback : (data.sub pr.s4.toNat).add pr.s4.toNat = data := Ptr.sub_add_cancel hs
  have hpadlen : (fillPadding pr.s4.toNat (randVal ^^^ 0xABCDE)).length = pr.s4.toNat :=
    length_fillPadding _ _
  have hnonce : pr.hpOn = true → 12 ≤ pr.s4.toNat := fun hon => by
    have := (hv.hp hon).2.2.2
    omega
  generalize fillPadding pr.s4.toNat (randVal ^^^ 0xABCDE) = pad at hm' hpadlen ⊢
  have hfit : m.Fits (data.sub pr.s4.toNat) (pr.s4.toNat + n) := by
    simp only [Mem.Fits, Ptr.sub_buf, Ptr.sub_off] at hf ⊢
    omega
  have hfitp : m.Fits (data.sub pr.s4.toNat) pad.length := hfit.mono (by omega)
  have hself := Mem.read_write_self hfitp
  rw [hpadlen] at hself
  -- the padding ends where the message starts
  have hrest : (m.write (data.sub pr.s4.toNat) pad).read data n = m.read data n :=
    Mem.read_write_of_apart hfitp (Or.inr (Or.inr (by rw [Ptr.sub_off, hpadlen]; omega)))
  obtain ⟨hread, hchg⟩ :=
    read_protectHeader cfg ((Mem.fits_write hfitp).mpr hfit) hn hself hnonce rfl
  rw [hback, hrest] at hread
  rw [hback] at hchg
  subst hm'
  exact ⟨hread, (Mem.ChangesIn.write (i := 0) hfit (by omega)).trans hchg⟩

/-- **Transport data on its way out.** With the headroom for the padding, the region
returned starts right in front of the message and holds its encoding. -/
theorem transformOutboundProfile_transport {m : Mem PktBuf} {buf : Ptr PktBuf}
    {dataoff n : ℕ} {cfg : AwgConfig} {pr : AcceptedProfile} (key : Option Bytes)
    (randVal : UInt64) (hf : m.Fits (buf.add dataoff) n) (hs : pr.s4 ≤ dataoff)
    (ht : read32Le m (buf.add dataoff) = wgTransportData) (hn : 32 ≤ n) {r : OutboundResult}
    (hr : r = transformOutboundProfile m buf dataoff n cfg pr.toAwgProfile key randVal) :
    r.out = some ((buf.add dataoff).sub pr.s4.toNat) ∧
      r.mem.read ((buf.add dataoff).sub pr.s4.toNat) r.outLen =
        encodeTransport cfg pr.toAwgProfile randVal (m.read (buf.add dataoff) n) ∧
      r.outLen = pr.s4.toNat + n := by
  obtain ⟨hs0, hs256⟩ := pr.valid.s4_mem
  rw [transformOutboundProfile_eq_transport ht hn] at hr
  cases hnoop : pr.h4Noop with
  | true =>
      have h0 : pr.s4 = 0 := (pr.h4Noop_iff.mp hnoop).2.2.1
      simp only [hnoop, if_true] at hr
      subst hr
      simp [encodeTransport, hnoop, h0, Ptr.sub, Ptr.add]
  | false =>
      have hret := read_write32Le (transportHeader pr.toAwgProfile randVal) hf (by omega)
      have hchg := changesIn_write32Le (transportHeader pr.toAwgProfile randVal) hf (by omega)
      have hf₁ := hchg.shape.fits_iff.mpr hf
      rcases Int.lt_or_eq_of_le hs0 with hpos | h0
      · have hoff : pr.s4.toNat ≤ (buf.add dataoff).off := by
          rw [Ptr.add_off]
          omega
        obtain ⟨henc, -⟩ := padTransport_spec cfg randVal pr.valid hf₁ hoff hn rfl
        rw [hret] at henc
        rw [hnoop] at hr
        simp only [Bool.false_eq_true, if_false, gt_iff_lt, hpos, ge_iff_le, hs, and_self,
          if_true] at hr
        subst hr
        refine ⟨rfl, ?_, rfl⟩
        rw [encodeTransport, hnoop]
        exact henc
      · have hoff : pr.hpOn = false := by
          by_contra hon
          have := (pr.valid.hp (by simpa using hon)).2.2.2
          omega
        have hnil : fillPadding 0 (randVal ^^^ 0xABCDE) = [] :=
          List.eq_nil_of_length_eq_zero (by simp)
        rw [hnoop] at hr
        simp only [Bool.false_eq_true, if_false, gt_iff_lt, ← h0, lt_irrefl, false_and] at hr
        subst hr
        refine ⟨by rw [← h0]; rfl, ?_, by simp [← h0]⟩
        simp only [encodeTransport, hnoop, Bool.false_eq_true, if_false, ← h0,
          Int.toNat_zero, hnil, protectHeader, hoff, List.nil_append]
        exact hret

/-! ### The frame of the encoder -/

/-- The message is a handshake that is forwarded and has no headroom for its padding. -/
def usesHsBuf (cfg : AwgConfig) (pr : AwgProfile) (dataoff : ℕ) (d : Bytes) : Bool :=
  match handshakeKind? d with
  | some k => !(cfg.disableCookies && k = .cookie) && dataoff < (k.pad pr).toNat
  | none => false

/-- Transport data stays in its own buffer. -/
theorem transformOutboundProfile_transport_frame {m : Mem PktBuf} {buf : Ptr PktBuf}
    {dataoff n : ℕ} {cfg : AwgConfig} {pr : AwgProfile} (key : Option Bytes)
    (randVal : UInt64) (hf : m.Fits (buf.add dataoff) n) (hv : pr.Valid)
    (ht : read32Le m (buf.add dataoff) = wgTransportData) (hn : 32 ≤ n) {r : OutboundResult}
    (hr : r = transformOutboundProfile m buf dataoff n cfg pr key randVal) :
    m.SameShape r.mem ∧ (∀ b, b ≠ buf.buf → r.mem b = m b) ∧
      ∀ out, r.out = some out → out.buf = buf.buf := by
  obtain ⟨hs0, -⟩ := hv.s4_mem
  have hchg := changesIn_write32Le (transportHeader pr randVal) hf (by omega)
  have hf₁ := hchg.shape.fits_iff.mpr hf
  rw [transformOutboundProfile_eq_transport ht hn] at hr
  cases hnoop : pr.h4Noop with
  | true =>
      simp only [hnoop, if_true] at hr
      subst hr
      refine ⟨Mem.SameShape.refl m, fun _ _ => rfl, fun out hout => ?_⟩
      obtain rfl := Option.some.inj hout
      rfl
  | false =>
      rw [hnoop] at hr
      simp only [Bool.false_eq_true, if_false] at hr
      by_cases hin : pr.s4 > 0 ∧ (dataoff : ℤ) ≥ pr.s4
      · have hoff : pr.s4.toNat ≤ (buf.add dataoff).off := by
          rw [Ptr.add_off]
          omega
        obtain ⟨-, hchg₂⟩ := padTransport_spec cfg randVal hv hf₁ hoff hn rfl
        rw [if_pos hin] at hr
        subst hr
        refine ⟨hchg.shape.trans hchg₂.shape, fun b hb => ?_, fun out hout => ?_⟩
        · exact (hchg₂.buf_eq hb).trans (hchg.buf_eq hb)
        · obtain rfl := Option.some.inj hout
          rfl
      · rw [if_neg hin] at hr
        subst hr
        refine ⟨hchg.shape, fun b hb => hchg.buf_eq hb, fun out hout => ?_⟩
        obtain rfl := Option.some.inj hout
        rfl

/-- Neither a handshake nor transport data: the message passes through. -/
theorem transformOutboundProfile_unknown {m : Mem PktBuf} {buf : Ptr PktBuf}
    {dataoff n : ℕ} {cfg : AwgConfig} {pr : AwgProfile} (key : Option Bytes)
    (randVal : UInt64) (hf : m.Fits (buf.add dataoff) n)
    (hk : handshakeKind? (m.read (buf.add dataoff) n) = none)
    (ht : ¬ (read32Le m (buf.add dataoff) = wgTransportData ∧ 32 ≤ n)) :
    transformOutboundProfile m buf dataoff n cfg pr key randVal =
      ⟨m, some (buf.add dataoff), n, false⟩ := by
  have hkind : ∀ k : HandshakeKind,
      ¬ (read32Le m (buf.add dataoff) = k.type ∧ n = k.size) := by
    rintro k ⟨hty, rfl⟩
    rw [read32Le_eq m _ k.four_le_size] at hty
    have hsome := handshakeKind?_eq_some_iff.mpr ⟨hty, Mem.length_read hf⟩
    rw [hk] at hsome
    contradiction
  have h1 : ¬ (read32Le m (buf.add dataoff) = wgHandshakeInit ∧ n = wgInitSize) := hkind .init
  have h2 : ¬ (read32Le m (buf.add dataoff) = wgHandshakeResponse ∧ n = wgRespSize) :=
    hkind .response
  have h3 : ¬ (read32Le m (buf.add dataoff) = wgCookieReply ∧ n = wgCookieSize) :=
    hkind .cookie
  rw [transformOutboundProfile]
  by_cases h4 : n < 4
  · rw [if_pos h4]
  · rw [if_neg h4, if_neg h1, if_neg h2, if_neg h3, if_neg ht]

/-- **The frame of the encoder.** No buffer changes its length; only the packet's own
buffer and `hs_buf` change, `hs_buf` only for a handshake without headroom; and the region
returned lies in the one the packet was built in. -/
theorem transformOutboundProfile_frame {m : Mem PktBuf} {buf : Ptr PktBuf}
    {dataoff n : ℕ} {cfg : AwgConfig} {pr : AwgProfile} (key : Option Bytes)
    (randVal : UInt64) (L : PktLayout m (buf.add dataoff) dataoff n) (hv : pr.Valid)
    {r : OutboundResult}
    (hr : r = transformOutboundProfile m buf dataoff n cfg pr key randVal) :
    m.SameShape r.mem ∧
    (∀ b, b ≠ buf.buf →
      (b = .hsBuf → usesHsBuf cfg pr dataoff (m.read (buf.add dataoff) n) = false) →
      r.mem b = m b) ∧
    ∀ out, r.out = some out → out.buf =
      if usesHsBuf cfg pr dataoff (m.read (buf.add dataoff) n) then .hsBuf else buf.buf := by
  rcases hk : handshakeKind? (m.read (buf.add dataoff) n) with _ | k
  · have hno : usesHsBuf cfg pr dataoff (m.read (buf.add dataoff) n) = false := by
      rw [usesHsBuf, hk]
    rw [hno]
    by_cases ht : read32Le m (buf.add dataoff) = wgTransportData ∧ 32 ≤ n
    · obtain ⟨hshape, hbuf, hout⟩ :=
        transformOutboundProfile_transport_frame key randVal L.fits hv ht.1 ht.2 hr
      exact ⟨hshape, fun b hb _ => hbuf b hb, hout⟩
    · rw [transformOutboundProfile_unknown key randVal L.fits hk ht] at hr
      subst hr
      refine ⟨Mem.SameShape.refl m, fun _ _ _ => rfl, fun out hout => ?_⟩
      obtain rfl := Option.some.inj hout
      rfl
  · obtain ⟨hty, hsz⟩ := handshakeKind?_eq_some_iff.mp hk
    rw [Mem.length_read L.fits] at hsz
    subst hsz
    rw [← read32Le_eq m _ k.four_le_size] at hty
    by_cases hc : cfg.disableCookies = true ∧ k = .cookie
    · obtain ⟨hdis, rfl⟩ := hc
      obtain rfl := hr.trans (transformOutboundProfile_cookie_disabled hty hdis)
      exact ⟨Mem.SameShape.refl m, fun _ _ _ => rfl, by simp⟩
    · have huses : usesHsBuf cfg pr dataoff (m.read (buf.add dataoff) k.size) =
          decide (dataoff < (k.pad pr).toNat) := by
        have hdrop : (cfg.disableCookies && decide (k = .cookie)) = false := by
          rw [Bool.and_eq_false_iff, decide_eq_false_iff_not, ← Bool.not_eq_true]
          exact not_and_or.mp hc
        rw [usesHsBuf, hk]
        simp only [hdrop, Bool.not_false, Bool.true_and]
      have hcook : k = .cookie → cfg.disableCookies = false := by
        intro hkc
        rw [← Bool.not_eq_true]
        exact fun h => hc ⟨h, hkc⟩
      obtain ⟨out, hout, -, -, hbuf, hshape, hframe⟩ :=
        transformOutboundProfile_handshake key randVal L hv hty rfl hcook hr
      rw [huses]
      refine ⟨hshape, fun b hb hhs => hframe b hb ?_, fun out' hout' => ?_⟩
      · rw [hbuf]
        split
        · exact hb
        · intro hbhs
          have := hhs hbhs
          simp only [decide_eq_false_iff_not] at this
          omega
      · obtain rfl := Option.some.inj (hout.symm.trans hout')
        rw [hbuf]
        by_cases hle : (k.pad pr).toNat ≤ dataoff
        · rw [if_pos hle, if_neg (by simpa using hle)]
        · rw [if_neg hle, if_pos (by simpa using hle)]

end AwgProxy
