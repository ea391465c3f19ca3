import AwgProxy.RoundTrip
import AwgProxy.C2sNormal

/-!
# The Advised MTU

Before a batch is sent, the size its first datagram has on the path is compared with what the
path takes; a datagram too large is warned of once, with the MTU to set on the WireGuard
interface. The interface pads a packet to a multiple of 16 and adds 32 bytes of its own, the
proxy `S4` bytes of padding, and UDP and IP their headers.

* `length_of_encodesTransport` — an encoding is `S4` bytes longer than the message.
* `outerSize_le_iff` — a packet fits the path if and only if it fits the MTU.
* `advisedMtu_exact` — the advice is followed without a warning, and is the largest such.
-/

namespace AwgProxy

/-! ### The code -/

/-- `INT_MAX`, the value of `frag_lim` once it has been warned of. -/
abbrev fragLimOff : ℤ := 2147483647

/-- `awg_max_wg_mtu`. -/
def awgMaxWgMtu (pathMtu s4 : ℤ) (ipv6 : Bool) : ℤ :=
  let room := pathMtu - (if ipv6 then 80 else 60) - s4
  let room := if room < 0 then 0 else room
  room / 16 * 16

/-- What the warning is made from. -/
structure FragWatch where
  /-- `frag_lim`. -/
  fragLim : ℤ
  /-- `c2s_headroom`. -/
  c2sHeadroom : ℤ
  /-- `g_log_level` is at least `LOG_ERROR`. -/
  logs : Bool

/-- A number as `u32_to_str` has it, converted to 32 bits. -/
def u32Text (v : ℤ) : String :=
  toString (v % 2 ^ 32).toNat

/-- `log_frag_warn`: the line it logs, in parts. -/
def logFragWarn (p : FragWatch) (v6 : Bool) (outer : ℤ) : FragWatch × Option (List String) :=
  let lim := p.fragLim
  let p := { p with fragLim := fragLimOff }
  if outer ≤ lim ∨ p.logs = false then (p, none)
  else
    (p, some ["WARN: ", "set the WireGuard interface MTU to ",
      u32Text (awgMaxWgMtu lim p.c2sHeadroom v6),
      " or lower: packets to the server are ", u32Text outer,
      " bytes, the path takes ", u32Text lim, ", each one is fragmented"])

/-- The size on the path that `send_batch_remote` computes for a datagram of `iovLen` bytes. -/
def outerSize (iovLen : ℕ) (v6 : Bool) : ℤ :=
  iovLen + if v6 then 48 else 28

/-- The part of `send_batch_remote` that compares it with `frag_lim`. -/
def sizeCheck (p : FragWatch) (v6 : Bool) (iovLen : ℕ) : FragWatch × Option (List String) :=
  if outerSize iovLen v6 > p.fragLim then logFragWarn p v6 (outerSize iovLen v6) else (p, none)

/-! ### Sizes -/

/-- The transport message of WireGuard for a packet of `n` bytes: a header and a tag of 16
bytes, and the packet padded to a multiple of 16. -/
def wgTransportLen (n : ℕ) : ℕ :=
  16 + (n + 15) / 16 * 16 + 16

/-- An encoding of transport data is `S4` bytes longer, under an accepted profile. -/
theorem length_of_encodesTransport {cfg : AwgConfig} {pr : AcceptedProfile} {d w : Bytes}
    (hpr : configActiveProfile cfg = pr.toAwgProfile) (hd : 4 ≤ d.length)
    (h : EncodesTransport cfg d w) : w.length = pr.s4.toNat + d.length := by
  rw [EncodesTransport, hpr] at h
  by_cases hnoop : pr.h4Noop = true
  · obtain ⟨-, -, hs4, -⟩ := pr.h4Noop_iff.mp hnoop
    rw [if_pos hnoop] at h
    rw [h, hs4, Int.toNat_zero, Nat.zero_add]
  · rw [if_neg hnoop] at h
    obtain ⟨v, pad, -, hpad, rfl⟩ := h
    rw [List.length_append, length_protectHeader, length_retype hd, hpad]

/-- A packet fits the path if and only if it fits the MTU. -/
theorem outerSize_le_iff {pathMtu s4 : ℤ} {v6 : Bool} (hs4 : 0 ≤ s4)
    (hroom : s4 + (if v6 then 80 else 60) ≤ pathMtu) (n : ℕ) :
    outerSize (s4.toNat + wgTransportLen n) v6 ≤ pathMtu ↔ n ≤ awgMaxWgMtu pathMtu s4 v6 := by
  rw [outerSize, awgMaxWgMtu, wgTransportLen]
  cases v6
  · simp only [Bool.false_eq_true, if_false] at hroom ⊢
    rw [if_neg (by omega)]
    push_cast
    omega
  · simp only [if_true] at hroom ⊢
    rw [if_neg (by omega)]
    push_cast
    omega

/-! ### The advice -/

/-- The MTU that is advised for a path and a padding is the largest whose packets fit. -/
structure AdviceExact (pathMtu s4 : ℤ) (v6 : Bool) : Prop where
  /-- A packet within the MTU fits the path. -/
  fits : ∀ n : ℕ, n ≤ awgMaxWgMtu pathMtu s4 v6 →
    outerSize (s4.toNat + wgTransportLen n) v6 ≤ pathMtu
  /-- It is not warned of, as long as the limit is that of the path. -/
  silent : ∀ n : ℕ, n ≤ awgMaxWgMtu pathMtu s4 v6 → ∀ p : FragWatch, p.fragLim = pathMtu →
    sizeCheck p v6 (s4.toNat + wgTransportLen n) = (p, none) ∧
      (logFragWarn p v6 (outerSize (s4.toNat + wgTransportLen n) v6)).2 = none
  /-- A packet one byte larger does not fit. -/
  exceeds : ∀ n : ℕ, n = awgMaxWgMtu pathMtu s4 v6 + 1 →
    pathMtu < outerSize (s4.toNat + wgTransportLen n) v6
  /-- The warning of one that does not fit names this MTU. -/
  warned : ∀ n : ℕ, n > awgMaxWgMtu pathMtu s4 v6 → ∀ p : FragWatch, p.fragLim = pathMtu →
    p.c2sHeadroom = s4 → p.logs = true →
      ∃ parts, (sizeCheck p v6 (s4.toNat + wgTransportLen n)).2 = some parts ∧
        parts[2]? = some (u32Text (awgMaxWgMtu pathMtu s4 v6))
  /-- These are the sizes of what the proxy makes of the message of a packet. -/
  encoded : ∀ (cfg : AwgConfig) (pr : AcceptedProfile),
    configActiveProfile cfg = pr.toAwgProfile → pr.s4 = s4 →
      ∀ (n : ℕ) (d w : Bytes), d.length = wgTransportLen n → EncodesTransport cfg d w →
        (outerSize w.length v6 ≤ pathMtu ↔ n ≤ awgMaxWgMtu pathMtu s4 v6)

/-- **The advised MTU is exact.** -/
theorem advisedMtu_exact {pathMtu s4 : ℤ} {v6 : Bool} (hs4 : 0 ≤ s4)
    (hroom : s4 + (if v6 then 80 else 60) ≤ pathMtu) : AdviceExact pathMtu s4 v6 where
  fits n hn := (outerSize_le_iff hs4 hroom n).mpr hn
  silent n hn p hlim := by
    have hfits := (outerSize_le_iff hs4 hroom n).mpr hn
    rw [← hlim] at hfits
    refine ⟨if_neg (not_lt.mpr hfits), ?_⟩
    rw [logFragWarn]
    dsimp only
    rw [if_pos (Or.inl hfits)]
  exceeds n hn := by
    by_contra hle
    have hfits := (outerSize_le_iff hs4 hroom n).mp (not_lt.mp hle)
    omega
  warned n hn p hlim hhead hlogs := by
    have hover : ¬ outerSize (s4.toNat + wgTransportLen n) v6 ≤ p.fragLim := by
      rw [hlim, outerSize_le_iff hs4 hroom]
      omega
    rw [sizeCheck, if_pos (not_le.mp hover), logFragWarn]
    dsimp only
    rw [if_neg (by simp [hover, hlogs]), hlim, hhead]
    exact ⟨_, rfl, rfl⟩
  encoded cfg pr hpr hs n d w hd hw := by
    have hlen : 4 ≤ d.length := by
      rw [hd, wgTransportLen]
      omega
    rw [length_of_encodesTransport hpr hlen hw, hs, hd]
    exact outerSize_le_iff hs4 hroom n

/-- A path over PPPoE, and a padding of 16 bytes. -/
theorem advisedMtu_exact_pppoe :
    awgMaxWgMtu 1492 16 false = 1408 ∧ AdviceExact 1492 16 false :=
  ⟨rfl, advisedMtu_exact (by decide) (by decide)⟩

end AwgProxy
