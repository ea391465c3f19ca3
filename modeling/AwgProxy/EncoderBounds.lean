import AwgProxy.RoundTrip

/-!
# The Bounds of the Encoder

The encoder once more, on accesses that fail outside a buffer. The source has no such checks:
it relies on the bounds `config_validate_profile` puts on the paddings, on the headroom
`config_compute_max_s4` computes from them and on the cap `trailer_len` puts on the trailer.

* `transformOutboundProfile?_eq_some` — with these the checked encoder succeeds, with what the
  encoder returns.
* `transformOutboundProfile_inBounds` — every write and the region returned lie in the buffer
  of the packet or in `hs_buf`, a handshake is as long as its padding, message and trailer
  allow, and under header protection transport data is padded and encrypted.
-/

namespace AwgProxy

/-! ### The checked encoder -/

/-- `read32_le` with a check. -/
def read32Le? (m : Mem PktBuf) (p : Ptr PktBuf) : Option UInt32 := do
  let d ← m.read? p 4
  some (UInt32.ofNat (Bytes.leNat d))

/-- `write32_le` with a check. -/
def write32Le? (m : Mem PktBuf) (p : Ptr PktBuf) (v : UInt32) : Option (Mem PktBuf) :=
  m.write? p (Bytes.leBytes 4 v.toNat)

/-- `recompute_mac1` and `recompute_mac1_response` with checks. -/
def recomputeMac1At? (off : ℕ) (m : Mem PktBuf) (buf : Ptr PktBuf) (key : Bytes) :
    Option (Mem PktBuf) := do
  let d ← m.read? buf off
  m.write? (buf.add off) (blake2s128mac key d)

/-- `append_trailer` with a check. -/
def appendTrailer? (m : Mem PktBuf) (cfg : AwgConfig) (pr : AwgProfile) (pkt : Ptr PktBuf)
    (size : ℕ) (seed : UInt64) : Option (Mem PktBuf × ℕ) := do
  let tl := trailerLen cfg pr size seed
  let m ← if tl > 0 then m.write? (pkt.add size) (fillPadding tl (seed ^^^ 0xFEED1)) else some m
  some (m, size + tl)

/-- The place of a handshake with padding `s`, with checks. -/
def handshakeOut? (m : Mem PktBuf) (data : Ptr PktBuf) (dataoff n : ℕ) (s : ℕ) :
    Option (Mem PktBuf × Ptr PktBuf) :=
  if s ≤ dataoff then do
    let out ← data.sub? s
    some (m, out)
  else do
    let d ← m.read? data n
    let m ← m.write? ⟨.hsBuf, s⟩ d
    some (m, ⟨.hsBuf, 0⟩)

/-- `chacha20_xor` over `n` bytes at `p` under the nonce at `out`, with checks. -/
def chacha20XorAt? (m : Mem PktBuf) (key : Bytes) (out p : Ptr PktBuf) (n : ℕ) :
    Option (Mem PktBuf) := do
  let nonce ← m.read? out 12
  let d ← m.read? p n
  m.write? p (chacha20Xor key nonce d)

/-- The common end of the handshake branches, with checks. -/
def padHandshake? (m : Mem PktBuf) (data : Ptr PktBuf) (dataoff n : ℕ) (cfg : AwgConfig)
    (pr : AwgProfile) (s : ℤ) (seed : UInt64) : Option (Mem PktBuf × Ptr PktBuf × ℕ) :=
  if s > 0 then do
    let s := s.toNat
    let (m, out) ← handshakeOut? m data dataoff n s
    let m ← m.write? out (fillPadding s seed)
    let m ← if pr.hpOn then chacha20XorAt? m cfg.hpKey out (out.add s) n else some m
    let (m, len) ← appendTrailer? m cfg pr out (s + n) seed
    some (m, out, len)
  else do
    let (m, len) ← appendTrailer? m cfg pr data n seed
    some (m, data, len)

/-- The new type word and sum of a handshake, with checks. -/
def rewriteHandshake? (m : Mem PktBuf) (data : Ptr PktBuf) (pr : AwgProfile)
    (key : Option Bytes) (randVal : UInt64) (k : HandshakeKind) : Option (Mem PktBuf) := do
  let m ← write32Le? m data (hrangePick (k.header pr) randVal)
  k.macOff.elim (some m) fun off =>
    key.elim (some m) fun key => recomputeMac1At? off m data key

/-- A handshake branch with checks. -/
def sendHandshake? (m : Mem PktBuf) (data : Ptr PktBuf) (dataoff n : ℕ) (cfg : AwgConfig)
    (pr : AwgProfile) (outKey : Option Bytes) (randVal : UInt64) (k : HandshakeKind) :
    Option OutboundResult := do
  let m ← rewriteHandshake? m data pr outKey randVal k
  let (m, out, len) ← padHandshake? m data dataoff n cfg pr (k.pad pr) (k.seed randVal)
  some ⟨m, some out, len, k.junk cfg pr⟩

/-- The transport branch with checks. -/
def sendTransport? (m : Mem PktBuf) (data : Ptr PktBuf) (dataoff n : ℕ) (cfg : AwgConfig)
    (pr : AwgProfile) (randVal : UInt64) : Option OutboundResult :=
  if pr.h4Noop then some ⟨m, some data, n, false⟩
  else do
    let m ← write32Le? m data (transportHeader pr randVal)
    if pr.s4 > 0 ∧ (dataoff : ℤ) ≥ pr.s4 then
      let out ← data.sub? pr.s4.toNat
      let m ← m.write? out (fillPadding pr.s4.toNat (randVal ^^^ 0xABCDE))
      let m ← if pr.hpOn then chacha20XorAt? m cfg.hpKey out data awgHpTransportHdr else some m
      some ⟨m, some out, pr.s4.toNat + n, false⟩
    else some ⟨m, some data, n, false⟩

/-- `transform_outbound_profile` with a check before every access and every step towards the
start of a buffer. -/
def transformOutboundProfile? (m : Mem PktBuf) (buf : Ptr PktBuf) (dataoff n : ℕ)
    (cfg : AwgConfig) (pr : AwgProfile) (mac1keyOut : Option Bytes) (randVal : UInt64) :
    Option OutboundResult :=
  let outKey := mac1keyOut <|> cfg.mac1keyOut
  let data := buf.add dataoff
  if n < 4 then some ⟨m, some data, n, false⟩
  else do
    let msgType ← read32Le? m data
    if msgType = wgHandshakeInit ∧ n = wgInitSize then
      sendHandshake? m data dataoff n cfg pr outKey randVal .init
    else if msgType = wgHandshakeResponse ∧ n = wgRespSize then
      sendHandshake? m data dataoff n cfg pr outKey randVal .response
    else if msgType = wgCookieReply ∧ n = wgCookieSize then
      if cfg.disableCookies then some ⟨m, none, 0, false⟩
      else sendHandshake? m data dataoff n cfg pr outKey randVal .cookie
    else if msgType = wgTransportData ∧ n ≥ wgTransportMin then
      sendTransport? m data dataoff n cfg pr randVal
    else some ⟨m, some data, n, false⟩

/-! ### The checks pass -/

section

variable {m : Mem PktBuf} {p out data : Ptr PktBuf} {dataoff n : ℕ} {cfg : AwgConfig}
  {pr : AwgProfile}

theorem read32Le?_eq_some (h : m.Fits p 4) : read32Le? m p = some (read32Le m p) := by
  rw [read32Le?, Mem.read?_eq_some h]
  rfl

theorem write32Le?_eq_some (v : UInt32) (h : m.Fits p 4) :
    write32Le? m p v = some (write32Le m p v) :=
  Mem.write?_eq_some (by simpa using h)

theorem recomputeMac1At?_eq_some {off : ℕ} (key : Bytes) (h : m.Fits p (off + 16)) :
    recomputeMac1At? off m p key = some (recomputeMac1At off m p key) := by
  have hsum : m.Fits (p.add off) (blake2s128mac key (m.read p off)).length := by
    simpa using h.add (i := off) (k := 16) le_rfl
  rw [recomputeMac1At?, Mem.read?_eq_some (h.mono (by omega))]
  exact Mem.write?_eq_some hsum

theorem appendTrailer?_eq_some (seed : UInt64) {size : ℕ} (hf : m.Fits out 1500)
    (hs : size ≤ 1500) :
    appendTrailer? m cfg pr out size seed = some (appendTrailer m cfg pr out size seed) := by
  have hle := add_trailerLen_le cfg pr seed hs
  have hfit : m.Fits (out.add size)
      (fillPadding (trailerLen cfg pr size seed) (seed ^^^ 0xFEED1)).length := by
    rw [length_fillPadding]
    exact hf.add hle
  rw [appendTrailer?, Mem.write?_eq_some hfit]
  simp only [appendTrailer]
  split <;> rfl

/-- In front of the packet there is the headroom, in `hs_buf` there is room. -/
theorem handshakeOut?_eq_some {s : ℕ} (L : PktLayout m data dataoff n) (hs : s + n ≤ 1500) :
    handshakeOut? m data dataoff n s = some (handshakeOut m data dataoff n s) := by
  rw [handshakeOut?, handshakeOut]
  by_cases hin : s ≤ dataoff
  · rw [if_pos hin, if_pos hin, Ptr.sub?_eq_some (hin.trans L.headroom)]
    rfl
  · have hfit : m.Fits ⟨.hsBuf, s⟩ (m.read data n).length := by
      rw [Mem.length_read L.fits, Mem.Fits, L.hs]
      exact hs
    rw [if_neg hin, if_neg hin, Mem.read?_eq_some L.fits, Option.bind_eq_bind, Option.bind_some,
      Mem.write?_eq_some hfit]
    rfl

theorem chacha20XorAt?_eq_some (key : Bytes) (hout : m.Fits out 12) (hp : m.Fits p n) :
    chacha20XorAt? m key out p n =
      some (m.write p (chacha20Xor key (m.read out 12) (m.read p n))) := by
  have hfit : m.Fits p (chacha20Xor key (m.read out 12) (m.read p n)).length := by
    rw [length_chacha20Xor, Mem.length_read hp]
    exact hp
  rw [chacha20XorAt?, Mem.read?_eq_some hout, Mem.read?_eq_some hp]
  exact Mem.write?_eq_some hfit

/-- A padded handshake stays inside the place it is built in. -/
theorem padHandshake?_eq_some {s : ℤ} {seed : UInt64} (L : PktLayout m data dataoff n)
    (hn : n ≤ 1500) (hs : s.toNat + n ≤ 1500) (hhp : pr.hpOn = true → 12 ≤ s) :
    padHandshake? m data dataoff n cfg pr s seed =
      some (padHandshake m data dataoff n cfg pr s seed) := by
  by_cases hpos : s > 0
  · obtain ⟨hfit, -, -, -⟩ := handshakeOut_spec L hs
    simp only [padHandshake?, padHandshake, if_pos hpos, handshakeOut?_eq_some L hs,
      Option.bind_eq_bind, Option.bind_some]
    rcases hp : handshakeOut m data dataoff n s.toNat with ⟨m₁, out⟩
    rw [hp] at hfit
    have hpad : m₁.Fits out (fillPadding s.toNat seed).length := by
      rw [length_fillPadding]
      exact hfit.mono (by omega)
    have hfit₂ : (m₁.write out (fillPadding s.toNat seed)).Fits out 1500 :=
      (Mem.fits_write hpad).mpr hfit
    simp only [Mem.write?_eq_some hpad, Option.bind_some]
    generalize m₁.write out (fillPadding s.toNat seed) = m₂ at hfit₂ ⊢
    cases hon : pr.hpOn with
    | false =>
        simp only [Bool.false_eq_true, if_false, Option.bind_some,
          appendTrailer?_eq_some seed hfit₂ hs]
    | true =>
        have h12 := hhp hon
        have hmsg : m₂.Fits (out.add s.toNat) n := hfit₂.add hs
        have hfit₃ : (m₂.write (out.add s.toNat) (chacha20Xor cfg.hpKey (m₂.read out 12)
            (m₂.read (out.add s.toNat) n))).Fits out 1500 := by
          refine (Mem.fits_write ?_).mpr hfit₂
          rw [length_chacha20Xor, Mem.length_read hmsg]
          exact hmsg
        simp only [if_true, chacha20XorAt?_eq_some cfg.hpKey (hfit₂.mono (by omega)) hmsg,
          Option.bind_some, appendTrailer?_eq_some seed hfit₃ hs]
  · rw [padHandshake?, padHandshake, if_neg hpos, if_neg hpos,
      appendTrailer?_eq_some seed L.room hn]
    rfl

/-- A handshake is rewritten in place. -/
theorem rewriteHandshake?_eq_some (key : Option Bytes) (randVal : UInt64) {k : HandshakeKind}
    (hf : m.Fits data k.size) :
    rewriteHandshake? m data pr key randVal k =
      some (rewriteHandshake m data pr key randVal k) := by
  have h4 : m.Fits data 4 := hf.mono k.four_le_size
  have hf' : (write32Le m data (hrangePick (k.header pr) randVal)).Fits data k.size :=
    (changesIn_write32Le _ hf k.four_le_size).shape.fits_iff.mpr hf
  rw [rewriteHandshake?, write32Le?_eq_some _ h4, rewriteHandshake, Option.bind_eq_bind,
    Option.bind_some]
  cases key with
  | none => cases k <;> rfl
  | some key =>
      cases k with
      | init => exact recomputeMac1At?_eq_some key (hf'.mono (by decide))
      | response => exact recomputeMac1At?_eq_some key (hf'.mono (by decide))
      | cookie => rfl

/-- The handshake branches. -/
theorem sendHandshake?_eq_some (key : Option Bytes) (randVal : UInt64) {k : HandshakeKind}
    (L : PktLayout m data dataoff k.size) (hv : pr.Valid) :
    sendHandshake? m data dataoff k.size cfg pr key randVal k =
      let r := padHandshake (rewriteHandshake m data pr key randVal k) data dataoff k.size cfg pr
        (k.pad pr) (k.seed randVal)
      some ⟨r.1, some r.2.1, r.2.2, k.junk cfg pr⟩ := by
  have hpad := (HandshakeKind.pad_mem hv k).2
  have hsize := k.size_le
  obtain ⟨-, hchg⟩ := rewriteHandshake_spec pr key randVal L.fits
  rw [sendHandshake?, rewriteHandshake?_eq_some key randVal L.fits, Option.bind_eq_bind,
    Option.bind_some, padHandshake?_eq_some (L.of_sameShape hchg.shape) (by omega) hpad
      (HandshakeKind.twelve_le_pad hv k)]
  rfl

/-- The transport branch. -/
theorem sendTransport?_eq_some (randVal : UInt64) (hhead : dataoff ≤ data.off)
    (hf : m.Fits data n) (hv : pr.Valid) (hn : 32 ≤ n) :
    sendTransport? m data dataoff n cfg pr randVal =
      some (if pr.h4Noop then ⟨m, some data, n, false⟩
        else
          let m := write32Le m data (transportHeader pr randVal)
          if pr.s4 > 0 ∧ (dataoff : ℤ) ≥ pr.s4 then
            let out := data.sub pr.s4.toNat
            let m := m.write out (fillPadding pr.s4.toNat (randVal ^^^ 0xABCDE))
            let m := if pr.hpOn then
                m.write data (chacha20Xor cfg.hpKey (m.read out 12) (m.read data awgHpTransportHdr))
              else m
            ⟨m, some out, pr.s4.toNat + n, false⟩
          else ⟨m, some data, n, false⟩) := by
  rw [sendTransport?]
  by_cases hnoop : pr.h4Noop = true
  · rw [if_pos hnoop, if_pos hnoop]
  have hf₁ : (write32Le m data (transportHeader pr randVal)).Fits data n :=
    (changesIn_write32Le _ hf (by omega)).shape.fits_iff.mpr hf
  rw [if_neg hnoop, if_neg hnoop, write32Le?_eq_some _ (hf.mono (by omega)), Option.bind_eq_bind,
    Option.bind_some]
  generalize write32Le m data (transportHeader pr randVal) = m₁ at hf₁ ⊢
  by_cases hin : pr.s4 > 0 ∧ (dataoff : ℤ) ≥ pr.s4
  swap
  · rw [if_neg hin]
    simp only [if_neg hin]
  have hoff : pr.s4.toNat ≤ data.off := by omega
  have hfit : m₁.Fits (data.sub pr.s4.toNat) (pr.s4.toNat + n) := by
    simp only [Mem.Fits, Ptr.sub_buf, Ptr.sub_off] at hf₁ ⊢
    omega
  have hpad : m₁.Fits (data.sub pr.s4.toNat)
      (fillPadding pr.s4.toNat (randVal ^^^ 0xABCDE)).length := by
    rw [length_fillPadding]
    exact hfit.mono (by omega)
  have hf₂ : (m₁.write (data.sub pr.s4.toNat)
      (fillPadding pr.s4.toNat (randVal ^^^ 0xABCDE))).Fits data n :=
    (Mem.fits_write hpad).mpr hf₁
  have hfit₂ : (m₁.write (data.sub pr.s4.toNat)
      (fillPadding pr.s4.toNat (randVal ^^^ 0xABCDE))).Fits (data.sub pr.s4.toNat)
        (pr.s4.toNat + n) :=
    (Mem.fits_write hpad).mpr hfit
  simp only [if_pos hin, Ptr.sub?_eq_some hoff, Option.bind_eq_bind, Option.bind_some,
    Mem.write?_eq_some hpad]
  cases hon : pr.hpOn with
  | false => simp only [Bool.false_eq_true, if_false]
  | true =>
      have h12 := (hv.hp hon).2.2.2
      have h16 : awgHpTransportHdr = 16 := rfl
      simp only [if_true, chacha20XorAt?_eq_some cfg.hpKey (hfit₂.mono (by omega))
        (hf₂.mono (by omega : awgHpTransportHdr ≤ n)), Option.bind_some]

end

/-- **No access outside a buffer.** Under an accepted profile the checked encoder succeeds,
with what the encoder returns. -/
theorem transformOutboundProfile?_eq_some {m : Mem PktBuf} {buf : Ptr PktBuf} {dataoff n : ℕ}
    {cfg : AwgConfig} {pr : AwgProfile} (key : Option Bytes) (randVal : UInt64)
    (L : PktLayout m (buf.add dataoff) dataoff n) (hv : pr.Valid) :
    transformOutboundProfile? m buf dataoff n cfg pr key randVal =
      some (transformOutboundProfile m buf dataoff n cfg pr key randVal) := by
  by_cases h4 : n < 4
  · rw [transformOutboundProfile?, transformOutboundProfile, if_pos h4, if_pos h4]
  have hread := read32Le?_eq_some (L.fits.mono (by omega : 4 ≤ n))
  have hsend : ∀ k : HandshakeKind, read32Le m (buf.add dataoff) = k.type → n = k.size →
      (k = .cookie → cfg.disableCookies = false) →
      sendHandshake? m (buf.add dataoff) dataoff n cfg pr (key <|> cfg.mac1keyOut) randVal k =
        some (transformOutboundProfile m buf dataoff n cfg pr key randVal) := by
    rintro k hty rfl hc
    rw [sendHandshake?_eq_some _ randVal L hv, transformOutboundProfile_eq_padHandshake hty rfl hc]
  rw [transformOutboundProfile?, if_neg h4, hread, Option.bind_eq_bind, Option.bind_some]
  by_cases h1 : read32Le m (buf.add dataoff) = wgHandshakeInit ∧ n = wgInitSize
  · rw [if_pos h1]
    refine hsend .init h1.1 h1.2 ?_
    rintro ⟨⟩
  by_cases h2 : read32Le m (buf.add dataoff) = wgHandshakeResponse ∧ n = wgRespSize
  · rw [if_neg h1, if_pos h2]
    refine hsend .response h2.1 h2.2 ?_
    rintro ⟨⟩
  by_cases h3 : read32Le m (buf.add dataoff) = wgCookieReply ∧ n = wgCookieSize
  · rw [if_neg h1, if_neg h2, if_pos h3]
    cases hdis : cfg.disableCookies with
    | true =>
        obtain ⟨hty, rfl⟩ := h3
        rw [if_pos rfl, transformOutboundProfile_cookie_disabled hty hdis]
    | false => exact hsend .cookie h3.1 h3.2 fun _ => hdis
  rw [if_neg h1, if_neg h2, if_neg h3]
  by_cases h5 : read32Le m (buf.add dataoff) = wgTransportData ∧ n ≥ wgTransportMin
  · rw [if_pos h5, sendTransport?_eq_some randVal L.headroom L.fits hv h5.2,
      transformOutboundProfile_eq_transport h5.1 h5.2]
  · rw [if_neg h5, transformOutboundProfile, if_neg h4, if_neg h1, if_neg h2, if_neg h3,
      if_neg h5]

/-! ### The region returned -/

section

variable {m : Mem PktBuf} {buf : Ptr PktBuf} {dataoff n : ℕ} {cfg : AwgConfig}
  {pr : AcceptedProfile} {key : Option Bytes} {randVal : UInt64} {r : OutboundResult}
  {out : Ptr PktBuf}

/-- A forwarded handshake is as long as its padding, message and trailer. -/
theorem outLen_of_handshake (L : PktLayout m (buf.add dataoff) dataoff n) {k : HandshakeKind}
    (hk : handshakeKind? (m.read (buf.add dataoff) n) = some k)
    (hr : r = transformOutboundProfile m buf dataoff n cfg pr.toAwgProfile key randVal)
    (hout : r.out = some out) :
    r.mem.Fits out r.outLen ∧
      r.outLen = (k.pad pr.toAwgProfile).toNat + k.size + trailerLen cfg pr.toAwgProfile
        ((k.pad pr.toAwgProfile).toNat + k.size) (k.seed randVal) := by
  obtain ⟨hty, hsz⟩ := handshakeKind?_eq_some_iff.mp hk
  rw [Mem.length_read L.fits] at hsz
  subst hsz
  rw [← read32Le_eq m _ k.four_le_size] at hty
  have hc : k = .cookie → cfg.disableCookies = false := by
    rintro rfl
    rw [← Bool.not_eq_true]
    intro hdis
    rw [hr.trans (transformOutboundProfile_cookie_disabled hty hdis)] at hout
    contradiction
  obtain ⟨out', hout', hread, hfit, -⟩ :=
    transformOutboundProfile_handshake key randVal L pr.valid hty rfl hc hr
  obtain rfl := Option.some.inj (hout'.symm.trans hout)
  refine ⟨hfit, ?_⟩
  have hmsg : (k.rewrite pr.toAwgProfile (key <|> cfg.mac1keyOut) randVal
      (m.read (buf.add dataoff) k.size)).length = k.size :=
    HandshakeKind.length_rewrite (Mem.length_read L.fits)
  have hlen := congrArg List.length hread
  rwa [Mem.length_read hfit, encodeHandshake, List.length_append, List.length_append,
    length_fillPadding, length_protect, length_trailer, hmsg] at hlen

/-- With the headroom for transport data every region returned lies in its buffer. -/
theorem fits_out (L : PktLayout m (buf.add dataoff) dataoff n)
    (hs4 : handshakeKind? (m.read (buf.add dataoff) n) = none → pr.s4 ≤ dataoff)
    (hr : r = transformOutboundProfile m buf dataoff n cfg pr.toAwgProfile key randVal)
    (hout : r.out = some out) : r.mem.Fits out r.outLen := by
  rcases hk : handshakeKind? (m.read (buf.add dataoff) n) with _ | k
  swap
  · exact (outLen_of_handshake L hk hr hout).1
  by_cases ht : read32Le m (buf.add dataoff) = wgTransportData ∧ 32 ≤ n
  · obtain ⟨hout', -, hlen⟩ :=
      transformOutboundProfile_transport key randVal L.fits (hs4 hk) ht.1 ht.2 hr
    obtain rfl := Option.some.inj (hout'.symm.trans hout)
    obtain ⟨hshape, -⟩ :=
      transformOutboundProfile_transport_frame key randVal L.fits pr.valid ht.1 ht.2 hr
    have hfits := L.fits
    have hhead := L.headroom
    have hle := hs4 hk
    rw [hshape.fits_iff, hlen]
    simp only [Mem.Fits, Ptr.sub_buf, Ptr.sub_off] at hfits ⊢
    omega
  · rw [transformOutboundProfile_unknown key randVal L.fits hk ht] at hr
    subst hr
    obtain rfl := Option.some.inj hout
    exact L.fits

end

/-- A chain of accepted profiles, with the headroom computed from them. -/
structure SizedChain (cfg : AwgConfig) : Prop where
  count : 0 < cfg.profileCount
  accepted : ∀ i : Fin awgMaxProfiles, (i : ℕ) < cfg.profileCount →
    ∃ pr : AcceptedProfile, cfg.profiles i = pr.toAwgProfile
  maxS4 : cfg.maxS4 = (configComputeMaxS4 cfg).maxS4

/-- **The encoder inside its buffers.** For every stage of an accepted chain, a message of at
most 1500 bytes behind the headroom of a buffer with room for 1500 more, or a handshake in a
buffer of 1500 without headroom, and any window and random value: no access is outside the
buffer of the packet or `hs_buf`, and no other buffer changes; the region returned lies in one
of them; a handshake that is sent is at least as long as padding and message and, with
trailers, shorter than the window; and under header protection transport data goes out behind
its padding with its header encrypted. -/
theorem transformOutboundProfile_inBounds {cfg : AwgConfig} (hchain : SizedChain cfg)
    {i : Fin awgMaxProfiles} (hi : (i : ℕ) < cfg.profileCount) (key : Option Bytes)
    (randVal : UInt64) {m : Mem PktBuf} {b : PktBuf} {dataoff n : ℕ} (hn : n ≤ 1500)
    (hb : b ≠ .hsBuf) (hs : (m .hsBuf).length = 1500) (hlen : (m b).length = dataoff + 1500)
    (hoff : dataoff = cfg.maxS4 ∨
      dataoff = 0 ∧ (handshakeKind? (m.read ⟨b, dataoff⟩ n)).isSome = true) :
    let pr := cfg.profiles i
    let d := m.read ⟨b, dataoff⟩ n
    let r := transformOutboundProfile m ⟨b, 0⟩ dataoff n cfg pr key randVal
    transformOutboundProfile? m ⟨b, 0⟩ dataoff n cfg pr key randVal = some r ∧
    (m.SameShape r.mem ∧ ∀ c, c ≠ b → c ≠ .hsBuf → r.mem c = m c) ∧
    (∀ out, r.out = some out → (out.buf = b ∨ out.buf = .hsBuf) ∧ r.mem.Fits out r.outLen) ∧
    (∀ k out, handshakeKind? d = some k → r.out = some out →
      (k.pad pr).toNat + k.size ≤ r.outLen ∧
      (pr.rt = true → r.outLen <
        max ((k.pad pr).toNat + k.size + 1) (min cfg.udpWindow.toNat 1500))) ∧
    (pr.hpOn = true → load32Le d 0 = wgTransportData → 32 ≤ n →
      let pad := fillPadding pr.s4.toNat (randVal ^^^ 0xABCDE)
      let msg := retype (transportHeader pr randVal) d
      12 ≤ pad.length ∧ r.out = some ⟨b, dataoff - pad.length⟩ ∧ r.outLen = pad.length + n ∧
      r.mem.read ⟨b, dataoff - pad.length⟩ r.outLen =
        pad ++ msg.patch 0 (chacha20Xor cfg.hpKey (pad.take 12) (msg.take awgHpTransportHdr))) := by
  obtain ⟨pr, hpr⟩ := hchain.accepted i hi
  have hdata : (⟨b, 0⟩ : Ptr PktBuf).add dataoff = ⟨b, dataoff⟩ :=
    Ptr.ext rfl (Nat.zero_add dataoff)
  have L : PktLayout m ((⟨b, 0⟩ : Ptr PktBuf).add dataoff) dataoff n := by
    rw [hdata]
    exact ⟨le_rfl, by simp only [Mem.Fits]; omega, by simp only [Mem.Fits]; omega, hs, hb⟩
  have hs4 : handshakeKind? (m.read ⟨b, dataoff⟩ n) = none → pr.s4 ≤ dataoff := by
    intro hk
    rcases hoff with rfl | ⟨-, hsome⟩
    · rw [hchain.maxS4, ← show (cfg.profiles i).s4 = pr.s4 by rw [hpr]]
      exact s4_le_maxS4_configComputeMaxS4 hi
    · rw [hk] at hsome
      contradiction
  rw [hpr]
  intro pr' d r
  obtain ⟨hshape, hframe, hbuf⟩ := transformOutboundProfile_frame key randVal L pr.valid rfl
  refine ⟨transformOutboundProfile?_eq_some key randVal L pr.valid,
    ⟨hshape, fun c hc hhs => hframe c hc fun h => absurd h hhs⟩, fun out hout => ⟨?_, ?_⟩,
    fun k out hk hout => ?_, fun (hon : pr.hpOn = true) hty h32 => ?_⟩
  · rw [hbuf out hout]
    split
    · exact Or.inr rfl
    · exact Or.inl rfl
  · exact fits_out L (by rwa [hdata]) rfl hout
  · have hout' := (outLen_of_handshake L (by rwa [hdata]) rfl hout).2
    rw [hout']
    exact ⟨Nat.le_add_right _ _, fun _ => add_trailerLen_lt ..⟩
  · have hd : d.length = n := Mem.length_read (hdata ▸ L.fits)
    have hty' : read32Le m ((⟨b, 0⟩ : Ptr PktBuf).add dataoff) = wgTransportData := by
      rw [hdata, read32Le_eq m _ (by omega : 4 ≤ n)]
      exact hty
    have hk : handshakeKind? d = none := by
      rcases hk : handshakeKind? d with _ | k
      · rfl
      · have hkt := (handshakeKind?_eq_some_iff.mp hk).1
        exact absurd (hkt.symm.trans hty) k.type_ne_transport
    have h12 := (pr.valid.hp hon).2.2.2
    have hnoop : pr.h4Noop = false := by
      rw [← Bool.not_eq_true]
      intro hnoop
      exact Bool.false_ne_true ((pr.h4Noop_iff.mp hnoop).2.2.2.symm.trans hon)
    obtain ⟨hout, hread, hlen'⟩ :=
      transformOutboundProfile_transport key randVal L.fits (hs4 hk) hty' h32 rfl
    intro pad msg
    have hpad : pad.length = pr.s4.toNat := length_fillPadding _ _
    have hptr : ((⟨b, 0⟩ : Ptr PktBuf).add dataoff).sub pr.s4.toNat =
        ⟨b, dataoff - pad.length⟩ := by
      rw [hdata, hpad]
      rfl
    rw [hptr] at hout hread
    refine ⟨by omega, hout, by rw [hpad]; exact hlen', hread.trans ?_⟩
    simp only [encodeTransport, hnoop, Bool.false_eq_true, if_false, protectHeader, hon, if_true,
      hdata]
    rfl

/-! ### An init that goes through `hs_buf` -/

/-- A profile with header protection and trailers whose handshakes have larger paddings than
its transport data. -/
def maskedProfile : AcceptedProfile :=
  AcceptedProfile.ofValidated
    { s1 := 20, s2 := 20, s3 := 20, s4 := 12
      h1 := .single 1, h2 := .single 2, h3 := .single 3, h4 := .single 4
      cps := fun _ => none, hpOn := true, rt := true, h4Fixed := 0, h4Noop := false
      initTotal := 0, respTotal := 0, cookieTotal := 0, transportSizeAmbiguous := false }
    (by decide)

/-- A configuration of that profile. -/
def maskedConfig : AwgConfig :=
  { paddedInitConfig with
    toAwgProfile := maskedProfile.toAwgProfile
    hpKey := List.replicate 32 1
    rtAny := true
    profiles := fun _ => maskedProfile.toAwgProfile
    maxS4 := 12 }

theorem sizedChain_maskedConfig : SizedChain maskedConfig where
  count := by decide
  accepted := fun _ _ => ⟨maskedProfile, rfl⟩
  maxS4 := by decide

/-- A buffer with that headroom and room for a packet, and an init of zeros in it. -/
def maskedMem : Mem PktBuf
  | .recv _ => List.replicate 12 0 ++ zeroInit ++ List.replicate 1352 0
  | .gro => []
  | .hsBuf => List.replicate 1500 0

/-- The init is sent within the bounds, from `hs_buf`. -/
theorem transformOutboundProfile_inBounds_zeroInit :
    let r := transformOutboundProfile maskedMem ⟨.recv 0, 0⟩ 12 148 maskedConfig
      maskedProfile.toAwgProfile none 7
    transformOutboundProfile? maskedMem ⟨.recv 0, 0⟩ 12 148 maskedConfig
        maskedProfile.toAwgProfile none 7 = some r ∧
      ∀ out, r.out = some out → r.mem.Fits out r.outLen ∧ 168 ≤ r.outLen ∧ r.outLen < 500 := by
  have hread : maskedMem.read ⟨.recv 0, 12⟩ 148 = zeroInit := by decide
  have hbuf : (maskedMem (.recv 0)).length = 12 + 1500 := by
    have hinit : zeroInit.length = 148 := rfl
    simp only [maskedMem, List.length_append, List.length_replicate, hinit]
  obtain ⟨hchecked, -, hregion, hlen, -⟩ := transformOutboundProfile_inBounds
    sizedChain_maskedConfig (by decide : ((0 : Fin awgMaxProfiles) : ℕ) < 1) none 7
    (by decide : 148 ≤ 1500) (nofun : PktBuf.recv 0 ≠ .hsBuf) (m := maskedMem)
    List.length_replicate hbuf (Or.inl rfl)
  refine ⟨hchecked, fun out hout => ⟨(hregion out hout).2, ?_⟩⟩
  have hkind : handshakeKind? (maskedMem.read ⟨.recv 0, maskedConfig.maxS4⟩ 148) = some .init :=
    (congrArg handshakeKind? hread).trans handshakeKind?_zeroInit
  obtain ⟨hge, hlt⟩ := hlen .init out hkind hout
  exact ⟨hge, hlt rfl⟩

end AwgProxy
