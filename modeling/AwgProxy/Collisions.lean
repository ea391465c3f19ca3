import AwgProxy.RoundTrip

/-!
# Colliding Handshakes

The decoder tells the three padded handshakes apart by their sizes and by the header each
has behind its own padding. `config_validate_profile` keeps the header ranges disjoint, but
it accepts paddings under which two of the sizes are equal. The header of the kind that is
tried first is then read inside the padding of the other, where any word may stand.

* `Collides` — the word the sender's padding has in the place of an earlier kind's header
  is such a header.
* `decodedOnlyAs_iff` — a handshake on the wire is taken for another message exactly when
  it collides.
-/

namespace AwgProxy

/-! ### Words of the padding -/

/-- The padding in front of a handshake. -/
def HandshakeKind.padding (k : HandshakeKind) (pr : AwgProfile) (randVal : UInt64) : Bytes :=
  fillPadding (k.pad pr).toNat (k.seed randVal)

/-- The keystream block of a datagram that begins with the padding `pad`. -/
def paddingKs (cfg : AwgConfig) (pr : AwgProfile) (pad : Bytes) : Option Bytes :=
  if pr.hpOn then some (chacha20Block cfg.hpKey (pad.take 12) 0) else none

/-- A kind that is tried before `k` has the same padded size, and in the place of its
header the padding of `k` reads as one of its headers. -/
def Collides (cfg : AwgConfig) (pr : AwgProfile) (randVal : UInt64) (k : HandshakeKind) :
    Prop :=
  ∃ j : HandshakeKind, j.rank < k.rank ∧ j.total pr = k.total pr ∧
    hrangeContains (j.header pr) (load32Le (k.padding pr randVal) (j.pad pr).toNat ^^^
      typeMask (paddingKs cfg pr (k.padding pr randVal))) = true

/-- A kind that is tried earlier is larger, by more than a header. -/
theorem HandshakeKind.size_add_four_le {j k : HandshakeKind} (h : j.rank < k.rank) :
    k.size + 4 ≤ j.size := by
  cases j <;> cases k <;> revert h <;> decide

/-- Messages of different kinds differ in size. -/
theorem HandshakeKind.size_injective : Function.Injective HandshakeKind.size := by
  intro j k h
  cases j <;> cases k <;> revert h <;> decide

/-- A word inside the region read. -/
theorem read32Le_add (m : Mem PktBuf) (p : Ptr PktBuf) {i n : ℕ} (h : i + 4 ≤ n) :
    read32Le m (p.add i) = load32Le (m.read p n) i := by
  rw [read32Le, load32Le, m.read_add_eq_slice p h]

/-- A word of the first of two strings. -/
theorem load32Le_append_left {a : Bytes} (b : Bytes) {i : ℕ} (h : i + 4 ≤ a.length) :
    load32Le (a ++ b) i = load32Le a i := by
  rw [load32Le, load32Le, Bytes.slice_append_left b h]

/-! ### The dispatch on an encoded handshake -/

section

variable {cfgS cfgR : AwgConfig} {pr : AcceptedProfile} {outKey : Option Bytes}
  {randVal : UInt64} {m : Mem PktBuf} {p : Ptr PktBuf} {n : ℕ} {ks : Option Bytes}
  {k : HandshakeKind} {d : Bytes}

/-- The decoder finds the keystream block of the padding. -/
theorem recvKs_eq_paddingKs {pad rest : Bytes} (hkey : cfgR.hpKey = cfgS.hpKey)
    (h12 : pr.hpOn = true → 12 ≤ pad.length) (hn : pad.length ≤ n)
    (hw : m.read p n = pad ++ rest) (hks : KsValid cfgR m p ks) :
    recvKs cfgR m p pr.toAwgProfile ks = paddingKs cfgS pr.toAwgProfile pad := by
  rw [recvKs_eq pr.toAwgProfile hks, paddingKs, hkey]
  by_cases hon : pr.hpOn = true
  · rw [if_pos hon, if_pos hon, read_nonce hw (h12 hon) hn]
  · rw [if_neg hon, if_neg hon]

/-- An earlier kind matches an encoded handshake when the sizes agree and the padding has
one of its headers. -/
theorem matchesKind_iff_of_rank_lt {pad rest : Bytes} (hrt : pr.rt = false)
    (hkey : cfgR.hpKey = cfgS.hpKey) (hf : m.Fits p n)
    (hpad : pad.length = (k.pad pr.toAwgProfile).toNat) (hrest : rest.length = k.size)
    (hw : m.read p n = pad ++ rest) (hks : KsValid cfgR m p ks) {j : HandshakeKind}
    (hj : j.rank < k.rank) :
    matchesKind m p n pr.toAwgProfile (recvKs cfgR m p pr.toAwgProfile ks) j = true ↔
      j.total pr.toAwgProfile = k.total pr.toAwgProfile ∧
        hrangeContains (j.header pr.toAwgProfile)
          (load32Le pad (j.pad pr.toAwgProfile).toNat ^^^
            typeMask (paddingKs cfgS pr.toAwgProfile pad)) = true := by
  have hpadk := (HandshakeKind.pad_mem pr.valid k).1
  have hpadj := (HandshakeKind.pad_mem pr.valid j).1
  have hn : n = pad.length + k.size := by
    have := congrArg List.length hw
    rwa [Mem.length_read hf, List.length_append, hrest] at this
  have hmask : recvKs cfgR m p pr.toAwgProfile ks = paddingKs cfgS pr.toAwgProfile pad := by
    refine recvKs_eq_paddingKs hkey (fun hon => ?_) (by omega) hw hks
    have := HandshakeKind.twelve_le_pad pr.valid k hon
    omega
  have htotal : (n : ℤ) = k.total pr.toAwgProfile := by
    rw [k.total_eq]
    omega
  rw [matchesKind, sizeMatches_eq_decide hrt, htotal, hmask, Bool.and_eq_true,
    decide_eq_true_eq, eq_comm (a := k.total pr.toAwgProfile)]
  refine and_congr_right fun hsame => ?_
  have hsize := HandshakeKind.size_add_four_le hj
  rw [j.total_eq, k.total_eq] at hsame
  -- the earlier kind is the larger one, so its padding ends inside that of `k`
  have hinside : (j.pad pr.toAwgProfile).toNat + 4 ≤ pad.length := by omega
  rw [read32Le_add m p (n := n) (by omega), hw, load32Le_append_left _ hinside]

/-- A handshake that does not collide comes back as what it is. -/
theorem decoded_of_not_collides (hsz : d.length = k.size) (hrt : pr.rt = false)
    (hnoop : pr.h4Noop = false) (hkey : cfgR.hpKey = cfgS.hpKey) (hf : m.Fits p n)
    (hw : m.read p n = encodeHandshake cfgS pr.toAwgProfile (k.pad pr.toAwgProfile).toNat
      (k.seed randVal) (k.rewrite pr.toAwgProfile outKey randVal d))
    (hks : KsValid cfgR m p ks) (hno : ¬ Collides cfgS pr.toAwgProfile randVal k)
    {r : InboundResult} (hr : r = transformInboundProfile m p n cfgR pr.toAwgProfile ks) :
    ∃ q, r.out = some (q, k.size) ∧ read32Le r.mem q = k.type := by
  have hrw : (k.rewrite pr.toAwgProfile outKey randVal d).length = k.size :=
    HandshakeKind.length_rewrite hsz
  have hplen := (length_protect cfgS pr.toAwgProfile (k.padding pr.toAwgProfile randVal)
    (k.rewrite pr.toAwgProfile outKey randVal d)).trans hrw
  rw [encodeHandshake_of_rt_eq_false cfgS hrt] at hw
  have hbefore : ∀ j : HandshakeKind, j.rank < k.rank →
      matchesKind m p n pr.toAwgProfile (recvKs cfgR m p pr.toAwgProfile ks) j = false := by
    intro j hj
    rw [← Bool.not_eq_true]
    intro hmatch
    exact hno ⟨j, hj, (matchesKind_iff_of_rank_lt hrt hkey hf (length_fillPadding _ _) hplen hw
      hks hj).mp hmatch⟩
  obtain ⟨hout, hread⟩ := decode_handshake_of_first hrw
    (by rw [load32Le_rewrite _ hsz]; exact hrangeContains_hrangePick _ _) (Or.inr rfl) hkey hf
    (length_fillPadding _ _) (hw.trans (List.append_nil _).symm) hks
    (not_fastPath_of_h4Noop hnoop) hbefore hr
  rw [hrw] at hout hread
  have h4 := k.four_le_size
  have hret : (retype k.type (k.rewrite pr.toAwgProfile outKey randVal d)).length = k.size := by
    rw [length_retype (by omega), hrw]
  refine ⟨_, hout, ?_⟩
  rw [read32Le_eq r.mem _ h4, hread, HandshakeKind.load32Le_putMac hret,
    load32Le_retype (by omega)]

/-- A handshake that collides comes back with the size of another kind. -/
theorem decoded_of_collides (hsz : d.length = k.size) (hrt : pr.rt = false)
    (hnoop : pr.h4Noop = false) (hkey : cfgR.hpKey = cfgS.hpKey) (hf : m.Fits p n)
    (hw : m.read p n = encodeHandshake cfgS pr.toAwgProfile (k.pad pr.toAwgProfile).toNat
      (k.seed randVal) (k.rewrite pr.toAwgProfile outKey randVal d))
    (hks : KsValid cfgR m p ks) (hcol : Collides cfgS pr.toAwgProfile randVal k)
    {r : InboundResult} (hr : r = transformInboundProfile m p n cfgR pr.toAwgProfile ks) :
    ∃ i q, i ≠ k ∧ r.out = some (q, HandshakeKind.size i) := by
  have hrw : (k.rewrite pr.toAwgProfile outKey randVal d).length = k.size :=
    HandshakeKind.length_rewrite hsz
  have h4 := k.four_le_size
  rw [encodeHandshake_of_rt_eq_false cfgS hrt] at hw
  have hn : n = (k.pad pr.toAwgProfile).toNat + k.size := by
    have := congrArg List.length hw
    rwa [Mem.length_read hf, List.length_append, length_protect, length_fillPadding, hrw] at this
  obtain ⟨j, hj, hcol⟩ := hcol
  have hmatch := (matchesKind_iff_of_rank_lt hrt hkey hf (length_fillPadding _ _)
    ((length_protect ..).trans hrw) hw hks hj).mpr hcol
  obtain ⟨i, hi, himatch, hfirst⟩ := exists_first_of_matchesKind hmatch
  have hnofast : ¬ fastPath m p n pr.toAwgProfile := not_fastPath_of_h4Noop hnoop
  have hres := transformInboundProfile_eq cfgR ks (by omega : 4 ≤ n) hnofast (fun hon => by
    have := HandshakeKind.twelve_le_pad pr.valid k hon
    omega)
  rw [inboundDispatch_of_first himatch hfirst, ← hr] at hres
  refine ⟨i, _, ?_, (Prod.mk.inj hres).2⟩
  rintro rfl
  omega

end

/-! ### Validation does not rule collisions out -/

/-- Whatever buffer a receiver has the encoded handshake in, its decoder returns nothing
but a message of kind `k`. -/
def DecodedOnlyAs (k : HandshakeKind) (cfgS cfgR : AwgConfig) (pr : AwgProfile)
    (outKey : Option Bytes) (randVal : UInt64) (m : Mem PktBuf) (buf : Ptr PktBuf)
    (dataoff n : ℕ) : Prop :=
  let r := transformOutboundProfile m buf dataoff n cfgS pr outKey randVal
  ∀ out, r.out = some out →
    ∀ (m' : Mem PktBuf) (p : Ptr PktBuf) (ks : Option Bytes), m'.Fits p r.outLen →
      m'.read p r.outLen = r.mem.read out r.outLen → KsValid cfgR m' p ks →
      let i := transformInboundProfile m' p r.outLen cfgR pr ks
      ∀ q l, i.out = some (q, l) → l = k.size ∧ read32Le i.mem q = k.type

/-- **Colliding handshakes.** Under an accepted profile without trailers whose transport
data is rewritten, a handshake the encoder sends, with any header protection key, MAC1
keys, random value and headroom, is decoded only as what it is, if and only if it is not
sent (a cookie reply that is not forwarded) or does not collide. -/
theorem decodedOnlyAs_iff (pr : AcceptedProfile) (hrt : pr.rt = false)
    (hnoop : pr.h4Noop = false) (cfgS cfgR : AwgConfig) (hkey : cfgR.hpKey = cfgS.hpKey)
    (outKey : Option Bytes) (randVal : UInt64) {m : Mem PktBuf} {buf : Ptr PktBuf}
    {dataoff n : ℕ} (L : PktLayout m (buf.add dataoff) dataoff n) {k : HandshakeKind}
    (hk : handshakeKind? (m.read (buf.add dataoff) n) = some k) :
    DecodedOnlyAs k cfgS cfgR pr.toAwgProfile outKey randVal m buf dataoff n ↔
      ((k = .cookie → cfgS.disableCookies = false) →
        ¬ Collides cfgS pr.toAwgProfile randVal k) := by
  obtain ⟨hty, hsz⟩ := handshakeKind?_eq_some_iff.mp hk
  have hn : n = k.size := by rwa [Mem.length_read L.fits] at hsz
  have hty' : read32Le m (buf.add dataoff) = k.type := by
    rw [read32Le_eq m _ (by rw [hn]; exact k.four_le_size : 4 ≤ n), hty]
  rw [DecodedOnlyAs]
  generalize hr : transformOutboundProfile m buf dataoff n cfgS pr.toAwgProfile outKey randVal = r
  by_cases hsent : k = .cookie → cfgS.disableCookies = false
  · rw [forall_prop_of_true hsent]
    obtain ⟨out, hout, henc, hfit, -⟩ :=
      transformOutboundProfile_handshake outKey randVal L pr.valid hty' hn hsent hr.symm
    constructor
    · intro hall hcol
      obtain ⟨m', p, hf, hrecv⟩ := exists_received (r.mem.read out r.outLen)
      rw [Mem.length_read hfit] at hf hrecv
      have hks : KsValid cfgR m' p none := fun _ h => nomatch h
      obtain ⟨i, q, hik, hi⟩ := decoded_of_collides hsz hrt hnoop hkey hf
        (hrecv.trans henc) hks hcol rfl
      exact hik (HandshakeKind.size_injective (hall out hout m' p none hf hrecv hks q _ hi).1)
    · intro hno out' hout' m' p ks hf hrecv hks i q l hq
      obtain rfl := Option.some.inj (hout.symm.trans hout')
      obtain ⟨q', hq', htype⟩ := decoded_of_not_collides hsz hrt hnoop hkey hf
        (hrecv.trans henc) hks hno rfl
      obtain ⟨rfl, rfl⟩ := Prod.mk.inj (Option.some.inj (hq'.symm.trans hq))
      exact ⟨rfl, htype⟩
  · rw [Classical.not_imp, Bool.not_eq_false] at hsent
    obtain ⟨rfl, hoff⟩ := hsent
    have hnone : r.out = none := by
      rw [← hr, hn]
      exact congrArg OutboundResult.out (transformOutboundProfile_cookie_disabled hty' hoff)
    refine iff_of_true (fun out hout => ?_) fun h => ?_
    · rw [hnone] at hout
      contradiction
    · rw [h rfl] at hoff
      contradiction

/-! ### A response that is taken for an init -/

/-- The headers of the range that generated configurations draw from are in order. -/
theorem five_le_maxHeader : (5 : UInt32) ≤ 2147483647 := by decide

/-- An accepted profile under which a padded init and a padded response have 148 bytes. -/
def collidingProfile : AcceptedProfile :=
  AcceptedProfile.ofValidated
    { s1 := 0, s2 := 56, s3 := 0, s4 := 8
      h1 := ⟨5, 2147483647, five_le_maxHeader⟩, h2 := .single 1, h3 := .single 2, h4 := .single 3
      cps := fun _ => none, hpOn := false, rt := false, h4Fixed := 0, h4Noop := false
      initTotal := 0, respTotal := 0, cookieTotal := 0, transportSizeAmbiguous := false }
    (by decide +kernel)

/-- A configuration of that profile. -/
def collidingConfig : AwgConfig :=
  { paddedInitConfig with
    toAwgProfile := collidingProfile.toAwgProfile
    profiles := fun _ => collidingProfile.toAwgProfile
    maxS4 := 8 }

/-- A response of zeros. -/
def zeroResponse : Bytes :=
  Bytes.leBytes 4 2 ++ List.replicate 88 0

/-- A thread whose receive buffers hold that response behind eight bytes of headroom. -/
def zeroResponseMem : Mem PktBuf
  | .recv _ => List.replicate 8 0 ++ zeroResponse ++ List.replicate 1656 0
  | .gro => []
  | .hsBuf => List.replicate 1500 0

theorem zeroResponseMem_layout :
    PktLayout zeroResponseMem ((⟨.recv 0, 0⟩ : Ptr PktBuf).add 8) 8 92 := by
  have hresp : zeroResponse.length = 92 := rfl
  have hlen : (zeroResponseMem (.recv 0)).length = 8 + 92 + 1656 := by
    simp only [zeroResponseMem, List.length_append, List.length_replicate, hresp]
  exact .recv (by omega) (by omega) List.length_replicate

theorem handshakeKind?_zeroResponseMem :
    handshakeKind? (zeroResponseMem.read ((⟨.recv 0, 0⟩ : Ptr PktBuf).add 8) 92) =
      some .response := by
  decide

/-- Whether a response collides under that profile is a matter of the first word of its
padding. -/
theorem collides_collidingProfile_iff (cfg : AwgConfig) (randVal : UInt64) :
    Collides cfg collidingProfile.toAwgProfile randVal .response ↔
      hrangeContains collidingProfile.h1 (load32Le (fillPadding 56 (randVal ^^^ 0x12345)) 0) =
        true := by
  have hmask : typeMask (paddingKs cfg collidingProfile.toAwgProfile
      (HandshakeKind.response.padding collidingProfile.toAwgProfile randVal)) = 0 := rfl
  rw [Collides, hmask]
  constructor
  · rintro ⟨j, hj, -, hin⟩
    cases j with
    | init =>
        rw [UInt32.xor_zero] at hin
        exact hin
    | response => exact absurd hj (by decide)
    | cookie => exact absurd hj (by decide)
  · intro hin
    refine ⟨.init, by decide, by decide, ?_⟩
    rw [UInt32.xor_zero]
    exact hin

/-- Under a random value whose padding begins with no header of an init, the response comes
back as what it is. -/
theorem decodedOnlyAs_zeroResponse :
    DecodedOnlyAs .response collidingConfig collidingConfig collidingProfile.toAwgProfile none 5
      zeroResponseMem ⟨.recv 0, 0⟩ 8 92 := by
  refine (decodedOnlyAs_iff collidingProfile rfl rfl collidingConfig collidingConfig rfl none 5
    zeroResponseMem_layout handshakeKind?_zeroResponseMem).mpr fun _ => ?_
  rw [collides_collidingProfile_iff]
  decide

/-- A receiver of the datagram that carries that response under a random value whose
padding begins with a header of an init. -/
def zeroResponseReceived : Mem PktBuf :=
  fun _ => (transformOutboundProfile zeroResponseMem ⟨.recv 0, 0⟩ 8 92 collidingConfig
    collidingProfile.toAwgProfile none 0).mem.read ⟨.hsBuf, 0⟩ 148

/-- Under this random value the decoder returns the datagram as an init of 148 bytes, not
as the response of 92. -/
theorem not_decodedOnlyAs_zeroResponse :
    configValidateProfile collidingProfile.toAwgProfile = .ok () ∧
    collidingProfile.rt = false ∧ collidingProfile.h4Noop = false ∧
    handshakeKind? (zeroResponseMem.read ((⟨.recv 0, 0⟩ : Ptr PktBuf).add 8) 92) =
      some .response ∧
    ¬ DecodedOnlyAs .response collidingConfig collidingConfig collidingProfile.toAwgProfile
      none 0 zeroResponseMem ⟨.recv 0, 0⟩ 8 92 := by
  refine ⟨collidingProfile.accepted, rfl, rfl, handshakeKind?_zeroResponseMem, fun hall => ?_⟩
  have hsent : (transformOutboundProfile zeroResponseMem ⟨.recv 0, 0⟩ 8 92 collidingConfig
      collidingProfile.toAwgProfile none 0).out = some ⟨.hsBuf, 0⟩ := by
    decide
  have hback : (transformInboundProfile zeroResponseReceived ⟨.gro, 0⟩ 148 collidingConfig
      collidingProfile.toAwgProfile none).out = some (⟨.gro, 0⟩, 148) := by
    decide
  obtain ⟨hlen, -⟩ := hall ⟨.hsBuf, 0⟩ hsent zeroResponseReceived ⟨.gro, 0⟩ none
    (by decide +kernel) (by decide +kernel) (fun _ h => nomatch h) _ 148 hback
  exact absurd hlen (by decide)

end AwgProxy
