import Mathlib.Algebra.Order.BigOperators.Group.List
import AwgProxy.Lib.Machine
import AwgProxy.FastPath
import AwgProxy.Keystream
import AwgProxy.PortDraw

/-!
# Junk Packets

The junk ahead of a handshake: the sizes of the packets are drawn, the packets are laid end
to end in one buffer, which is filled anew for every flow. Buffer, filling and sizes are
computed in three places from the same two settings; here every access is checked.

* `generateJunkLoop_eq` — the sizes are written one after another, each within its bounds.
* `sendJunkLoop_eq` — slices end to end that fit are read within the buffer.
* `junkContained` — in any run of flows the junk sent is what was just filled in.
-/

namespace AwgProxy

open Configurator

/-! ### The code -/

/-- `checked_mul_size`, where `SIZE_MAX` is `sizeMax`. -/
def checkedMulSize (sizeMax a b : ℕ) : Option ℕ :=
  if a ≠ 0 ∧ b > sizeMax / a then none else some (a * b)

/-- `junk_layout_sizes`: the bytes of `junk_buf` and of `junk_sizes`. Both settings are
positive where it is called. -/
def junkLayoutSizes (sizeMax : ℕ) (cfg : AwgConfig) : Option (ℕ × ℕ) :=
  match checkedMulSize sizeMax cfg.jc.toNat cfg.jmax.toNat with
  | none => none
  | some junkBytes =>
      match checkedMulSize sizeMax cfg.jc.toNat 4 with
      | none => none
      | some junkSizesBytes => some (junkBytes, junkSizesBytes)

/-- `junk_buf` and `junk_sizes`. -/
structure JunkBuffers where
  buf : Bytes
  sizes : List ℤ

/-- The junk buffers of `proxy_init`, which holds `heap` and `ints` when it has allocated
them; `none` where it gives up. -/
def proxyInitJunk (sizeMax : ℕ) (cfg : AwgConfig) (heap : ℕ → UInt8) (ints : ℕ → ℤ) :
    Option JunkBuffers :=
  if cfg.jc > 0 ∧ cfg.jmax > 0 then
    match junkLayoutSizes sizeMax cfg with
    | none => none
    | some (junkBytes, junkSizesBytes) =>
        some ⟨(List.range junkBytes).map heap, (List.range (junkSizesBytes / 4)).map ints⟩
  else some ⟨[], []⟩

/-- The loop of `generate_junk` from `sizes[i]` on, with `n` turns to go. -/
def generateJunkLoop (jmin span : ℤ) : ℕ → ℕ → UInt64 → List ℤ → Except CpsFault (List ℤ)
  | 0, _, _, sizes => .ok sizes
  | n + 1, i, r, sizes =>
      let (size, r) :=
        if span > 0 then
          let (v, r) := fastrandIntn r span.toNat
          (jmin + v, r)
        else (jmin, r)
      if i < sizes.length then generateJunkLoop jmin span n (i + 1) r (sizes.set i size)
      else .error .bounds

/-- `generate_junk`: the number of sizes, and the array behind it. -/
def generateJunk (cfg : AwgConfig) (seed : UInt64) (sizes : List ℤ) :
    Except CpsFault (ℤ × List ℤ) :=
  if cfg.jc ≤ 0 ∨ cfg.jmax ≤ 0 then .ok (0, sizes)
  else
    let jmax := cfg.jmax
    let jmin := if cfg.jmin > 0 then cfg.jmin else 1
    let jmin := if jmin > jmax then jmax else jmin
    let span := jmax - jmin
    (generateJunkLoop jmin span cfg.jc.toNat 0 (fastrandInit seed) sizes).map (cfg.jc, ·)

/-- The `len` bytes at `off`, handed to the socket. -/
def readPacket (buf : Bytes) (off : ℕ) (len : ℤ) : Except CpsFault Bytes :=
  if 0 ≤ len ∧ off + len.toNat ≤ buf.length then .ok (buf.slice off len.toNat)
  else .error .bounds

/-- The loop that sends the junk, from packet `i` at `off` on, with `n` turns to go. -/
def sendJunkLoop (b : JunkBuffers) : ℕ → ℕ → ℕ → Except CpsFault (List Bytes)
  | 0, _, _ => .ok []
  | n + 1, i, off =>
      match b.sizes[i]? with
      | none => .error .bounds
      | some size =>
          match readPacket b.buf off size with
          | .error e => .error e
          | .ok d => (sendJunkLoop b n (i + 1) (off + size.toNat)).map (d :: ·)

/-- What is sent, and left behind. -/
structure JunkSent where
  sent : List Bytes
  buffers : JunkBuffers
  rng : Csprng

/-- The junk packets of `send_junk_and_cps` and of `send_junk_and_cps_to`, which differ in
the generator and in the destination. -/
def sendJunk (sizeMax : ℕ) (cfg : AwgConfig) (rng : Csprng) (b : JunkBuffers) :
    Except CpsFault JunkSent :=
  if cfg.jc > 0 ∧ cfg.jmax > 0 then
    match junkLayoutSizes sizeMax cfg with
    | none => .ok ⟨[], b, rng⟩
    | some (junkBytes, _) =>
        let seed := csprngFillBlocks rng 8
        let fill := csprngFillBlocks seed.2 junkBytes
        match writeAt b.buf 0 fill.1.1 with
        | .error e => .error e
        | .ok buf =>
            match generateJunk cfg (.ofNat (Bytes.leNat seed.1.1)) b.sizes with
            | .error e => .error e
            | .ok (njunk, sizes) =>
                (sendJunkLoop ⟨buf, sizes⟩ njunk.toNat 0 0).map (⟨·, ⟨buf, sizes⟩, fill.2⟩)
  else .ok ⟨[], b, rng⟩

/-- The junk of one flow after another. What else is drawn from the generator leaves it
anywhere. -/
def junkMachine (sizeMax : ℕ) (cfg : AwgConfig) : Machine JunkBuffers Csprng where
  step b rng := (sendJunk sizeMax cfg rng b).toOption.map JunkSent.buffers

/-! ### What is meant -/

/-- The sizes of the junk, as configured. -/
structure JunkSizes (cfg : AwgConfig) (sizes : List ℤ) : Prop where
  length : sizes.length = cfg.jc
  mem : ∀ size ∈ sizes, 1 ≤ size ∧ size ≤ cfg.jmax
  /-- With a range of sizes none is below it or at its end. -/
  range : 1 ≤ cfg.jmin → cfg.jmin < cfg.jmax → ∀ size ∈ sizes, cfg.jmin ≤ size ∧ size < cfg.jmax

/-- Junk that stays within what was filled in for it. -/
structure JunkContained (cfg : AwgConfig) (rng : Csprng) (r : JunkSent) : Prop where
  /-- The whole buffer is keystream, drawn behind the seed. -/
  filled : r.buffers.buf = (csprngFill (csprngFill rng 8).2 (cfg.jc * cfg.jmax).toNat).1
  length : r.buffers.buf.length = cfg.jc * cfg.jmax
  sizes : JunkSizes cfg r.buffers.sizes
  /-- A packet for every size. -/
  packets : r.sent.map (fun d => (d.length : ℤ)) = r.buffers.sizes
  /-- Laid end to end they are the start of the buffer. -/
  inside : r.sent.flatten <+: r.buffers.buf

/-! ### The sizes -/

/-- A size that may be drawn. -/
def DrawnSize (jmin span size : ℤ) : Prop :=
  jmin ≤ size ∧ size ≤ jmin + span ∧ (0 < span → size < jmin + span)

/-- A turn of the loop draws a size. -/
theorem drawnSize (jmin : ℤ) {span : ℤ} (hspan : 0 ≤ span) (r : UInt64) :
    ∃ size r', DrawnSize jmin span size ∧
      (if span > 0 then (jmin + (fastrandIntn r span.toNat).1, (fastrandIntn r span.toNat).2)
        else (jmin, r)) = (size, r') := by
  by_cases h : span > 0
  · have hlt : (fastrandU64 r).toNat % span.toNat < span.toNat := Nat.mod_lt _ (by omega)
    refine ⟨_, _, ?_, if_pos h⟩
    rw [DrawnSize, fastrandIntn]
    dsimp only
    omega
  · refine ⟨jmin, r, ?_, if_neg h⟩
    rw [DrawnSize]
    omega

/-- **The sizes** are written one after another, over what the array held. -/
theorem generateJunkLoop_eq (jmin : ℤ) {span : ℤ} (hspan : 0 ≤ span) (n : ℕ) {i : ℕ}
    (r : UInt64) {sizes : List ℤ} (hlen : sizes.length = i + n) :
    ∃ drawn, generateJunkLoop jmin span n i r sizes = .ok (sizes.take i ++ drawn) ∧
      drawn.length = n ∧ ∀ size ∈ drawn, DrawnSize jmin span size := by
  induction n generalizing i r sizes with
  | zero =>
      refine ⟨[], ?_, rfl, nofun⟩
      rw [generateJunkLoop, List.append_nil, List.take_of_length_le (by omega)]
  | succ n ih =>
      obtain ⟨size, r', hsize, hturn⟩ := drawnSize jmin hspan r
      have hi : i < sizes.length := by omega
      have hset : (sizes.set i size).length = i + 1 + n := by
        rw [List.length_set]
        omega
      obtain ⟨drawn, hrun, hdrawn, hmem⟩ := ih r' hset
      refine ⟨size :: drawn, ?_, congrArg (· + 1) hdrawn, List.forall_mem_cons.mpr ⟨hsize, hmem⟩⟩
      have htake : (sizes.set i size).take (i + 1) = sizes.take i ++ [size] := by
        rw [List.take_add_one, List.take_set_of_le (le_refl i), List.getElem?_set_self hi]
        rfl
      rw [generateJunkLoop]
      simp only [hturn, if_pos hi, hrun, htake, List.append_assoc, List.singleton_append]

/-- The sizes of `generate_junk`, for any array of `jc` of them. -/
theorem generateJunk_eq {cfg : AwgConfig} (hjc : 0 < cfg.jc) (hjmax : 0 < cfg.jmax)
    (seed : UInt64) {sizes : List ℤ} (hlen : sizes.length = cfg.jc) :
    ∃ drawn, generateJunk cfg seed sizes = .ok (cfg.jc, drawn) ∧ JunkSizes cfg drawn := by
  have hpos : ¬ (cfg.jc ≤ 0 ∨ cfg.jmax ≤ 0) := by omega
  obtain ⟨jmin, hjmin⟩ : ∃ m, m = (if cfg.jmin > 0 then cfg.jmin else 1) := ⟨_, rfl⟩
  obtain ⟨lo, hlo⟩ : ∃ m, m = (if jmin > cfg.jmax then cfg.jmax else jmin) := ⟨_, rfl⟩
  have hlo1 : 1 ≤ lo ∧ lo ≤ cfg.jmax ∧ (1 ≤ cfg.jmin → cfg.jmin < cfg.jmax → lo = cfg.jmin) := by
    split at hjmin <;> split at hlo <;> omega
  have hspan : 0 ≤ cfg.jmax - lo := by omega
  have hcount : sizes.length = 0 + cfg.jc.toNat := by omega
  obtain ⟨drawn, hrun, hdrawn, hmem⟩ :=
    generateJunkLoop_eq lo hspan cfg.jc.toNat (fastrandInit seed) hcount
  refine ⟨drawn, ?_, by omega, fun size hsize => ?_, fun h1 hlt size hsize => ?_⟩
  · rw [generateJunk, if_neg hpos]
    dsimp only
    rw [← hjmin, ← hlo, hrun, List.take_zero, List.nil_append]
    rfl
  · have := hmem size hsize
    rw [DrawnSize] at this
    omega
  · have := hmem size hsize
    rw [DrawnSize] at this
    omega

/-! ### The packets -/

/-- The bytes read of a packet that lies in the buffer. -/
theorem readPacket_eq {buf : Bytes} {off : ℕ} {len : ℤ} (hlen : 0 ≤ len)
    (hfit : off + len ≤ buf.length) : readPacket buf off len = .ok (buf.slice off len.toNat) :=
  if_pos ⟨hlen, by omega⟩

/-- **The packets** are slices of the buffer, one behind the other. -/
theorem sendJunkLoop_eq {b : JunkBuffers} (hsizes : ∀ size ∈ b.sizes, 0 ≤ size) (n : ℕ)
    {i off : ℕ} (hlen : b.sizes.length = i + n)
    (hfit : off + (b.sizes.drop i).sum ≤ b.buf.length) :
    ∃ ds, sendJunkLoop b n i off = .ok ds ∧
      ds.map (fun d => (d.length : ℤ)) = b.sizes.drop i ∧ ds.flatten <+: b.buf.drop off := by
  induction n generalizing i off with
  | zero =>
      refine ⟨[], rfl, ?_, ⟨_, rfl⟩⟩
      rw [List.drop_of_length_le (by omega)]
      rfl
  | succ n ih =>
      have hi : i < b.sizes.length := by omega
      obtain ⟨size, hget⟩ : ∃ size, b.sizes[i]? = some size := ⟨_, List.getElem?_eq_getElem hi⟩
      have hdrop : b.sizes.drop i = size :: b.sizes.drop (i + 1) := by
        obtain ⟨-, rfl⟩ := List.getElem?_eq_some_iff.mp hget
        exact List.drop_eq_getElem_cons hi
      have hsize : 0 ≤ size := hsizes size (List.mem_of_getElem? hget)
      have hrest : 0 ≤ (b.sizes.drop (i + 1)).sum :=
        List.sum_nonneg fun size h => hsizes size (List.mem_of_mem_drop h)
      rw [hdrop, List.sum_cons] at hfit
      have hread : readPacket b.buf off size = .ok (b.buf.slice off size.toNat) :=
        readPacket_eq hsize (by omega)
      have hlen' : b.sizes.length = i + 1 + n := by omega
      have hfit' : ((off + size.toNat : ℕ) : ℤ) + (b.sizes.drop (i + 1)).sum ≤ b.buf.length := by
        omega
      obtain ⟨ds, hrun, hmap, hin⟩ := ih hlen' hfit'
      refine ⟨b.buf.slice off size.toNat :: ds, ?_, ?_, ?_⟩
      · rw [sendJunkLoop, hget]
        simp only [hread, hrun]
        rfl
      · rw [hdrop, List.map_cons, hmap, Bytes.length_slice_of_le (by omega),
          Int.toNat_of_nonneg hsize]
      · have hsplit : b.buf.drop off =
            b.buf.slice off size.toNat ++ b.buf.drop (off + size.toNat) := by
          rw [Bytes.slice, ← List.drop_drop, List.take_append_drop]
        rw [List.flatten_cons, hsplit]
        exact (List.prefix_append_right_inj _).mpr hin

/-! ### A flow -/

/-- The buffers are as large as `proxy_init` allocates them. -/
structure JunkFits (sizeMax : ℕ) (cfg : AwgConfig) (b : JunkBuffers) : Prop where
  layout : ∃ n, junkLayoutSizes sizeMax cfg = some ((cfg.jc * cfg.jmax).toNat, n)
  buf : b.buf.length = cfg.jc * cfg.jmax
  sizes : b.sizes.length = cfg.jc

/-- The products of the layout are those of the settings. -/
theorem junkLayoutSizes_eq_some {sizeMax : ℕ} {cfg : AwgConfig} (hjc : 0 < cfg.jc)
    (hjmax : 0 < cfg.jmax) {x : ℕ × ℕ} (h : junkLayoutSizes sizeMax cfg = some x) :
    x = ((cfg.jc * cfg.jmax).toNat, cfg.jc.toNat * 4) := by
  have hprod : (cfg.jc * cfg.jmax).toNat = cfg.jc.toNat * cfg.jmax.toNat :=
    Int.toNat_mul hjc.le hjmax.le
  rw [hprod]
  simp only [junkLayoutSizes, checkedMulSize] at h
  split at h
  · contradiction
  · rename_i hbytes
    split at h
    · contradiction
    · rename_i hints
      split at hbytes
      · contradiction
      · split at hints
        · contradiction
        · cases hbytes
          cases hints
          exact (Option.some.inj h).symm

/-- What `proxy_init` allocates fits. -/
theorem junkFits_proxyInitJunk {sizeMax : ℕ} {cfg : AwgConfig} (hjc : 0 < cfg.jc)
    (hjmax : 0 < cfg.jmax) {heap : ℕ → UInt8} {ints : ℕ → ℤ} {b : JunkBuffers}
    (h : proxyInitJunk sizeMax cfg heap ints = some b) : JunkFits sizeMax cfg b := by
  rw [proxyInitJunk, if_pos ⟨hjc, hjmax⟩] at h
  split at h
  · contradiction
  · rename_i junkBytes junkSizesBytes hlayout
    obtain ⟨rfl, rfl⟩ := Prod.mk.inj (junkLayoutSizes_eq_some hjc hjmax hlayout)
    obtain rfl := Option.some.inj h
    have hprod : 0 < cfg.jc * cfg.jmax := Int.mul_pos hjc hjmax
    refine ⟨⟨_, hlayout⟩, ?_, ?_⟩
    · rw [List.length_map, List.length_range, Int.toNat_of_nonneg hprod.le]
    · rw [List.length_map, List.length_range]
      omega

/-- Sizes that keep to their bound add up to no more than the buffer. -/
theorem JunkSizes.sum_le {cfg : AwgConfig} {sizes : List ℤ} (h : JunkSizes cfg sizes) :
    sizes.sum ≤ cfg.jc * cfg.jmax := by
  have hsum := List.sum_le_card_nsmul sizes cfg.jmax fun size hsize => (h.mem size hsize).2
  rwa [nsmul_eq_mul, h.length] at hsum

/-- **One flow**: the buffer is filled as far as the call writes, the sizes are drawn, and
packets of these sizes are read from the buffer. -/
theorem exists_sendJunk {sizeMax : ℕ} {cfg : AwgConfig} (hjc : 0 < cfg.jc)
    (hjmax : 0 < cfg.jmax) {b : JunkBuffers} (h : JunkFits sizeMax cfg b) (rng : Csprng) :
    ∃ r, sendJunk sizeMax cfg rng b = .ok r ∧
      r.buffers.buf = b.buf.patch 0
        (csprngFillBlocks (csprngFillBlocks rng 8).2 (cfg.jc * cfg.jmax).toNat).1.1 ∧
      JunkSizes cfg r.buffers.sizes ∧
      r.sent.map (fun d => (d.length : ℤ)) = r.buffers.sizes ∧
      r.sent.flatten <+: r.buffers.buf ∧ JunkFits sizeMax cfg r.buffers := by
  obtain ⟨n, hlayout⟩ := h.layout
  have hprod : 0 < cfg.jc * cfg.jmax := Int.mul_pos hjc hjmax
  have hle := length_csprngFillBlocks_le (csprngFillBlocks rng 8).2 (cfg.jc * cfg.jmax).toNat
  generalize hout :
    csprngFillBlocks (csprngFillBlocks rng 8).2 (cfg.jc * cfg.jmax).toNat = out at hle ⊢
  have hbuf := h.buf
  have hfit : 0 + out.1.1.length ≤ b.buf.length := by omega
  have hwrite : writeAt b.buf 0 out.1.1 = .ok (b.buf.patch 0 out.1.1) := if_pos hfit
  have hpatch : ((b.buf.patch 0 out.1.1).length : ℤ) = cfg.jc * cfg.jmax := by
    rw [Bytes.length_patch hfit, hbuf]
  generalize hb' : b.buf.patch 0 out.1.1 = buf at hwrite hpatch ⊢
  obtain ⟨sizes, hgen, hsizes⟩ := generateJunk_eq hjc hjmax
    (.ofNat (Bytes.leNat (csprngFillBlocks rng 8).1.1)) h.sizes
  have hsum := hsizes.sum_le
  have hjclen := hsizes.length
  have hcount : sizes.length = 0 + cfg.jc.toNat := by omega
  have hroom : ((0 : ℕ) : ℤ) + (sizes.drop 0).sum ≤ buf.length := by
    rw [List.drop_zero]
    omega
  have hnonneg : ∀ size ∈ sizes, 0 ≤ size := fun size hsize =>
    zero_le_one.trans (hsizes.mem size hsize).1
  obtain ⟨ds, hsend, hpackets, hinside⟩ :=
    @sendJunkLoop_eq ⟨buf, sizes⟩ hnonneg cfg.jc.toNat 0 0 hcount hroom
  have hrun : sendJunk sizeMax cfg rng b = .ok ⟨ds, ⟨buf, sizes⟩, out.2⟩ := by
    rw [sendJunk, if_pos ⟨hjc, hjmax⟩, hlayout]
    simp only [hout, hwrite, hgen, hsend]
    rfl
  exact ⟨_, hrun, rfl, hsizes, hpackets, hinside, ⟨n, hlayout⟩, hpatch, hjclen⟩

/-- A flow whose buffer is below `2 ^ 31` bytes fills all of it anew. -/
theorem sendJunk_eq {sizeMax : ℕ} {cfg : AwgConfig} (hjc : 0 < cfg.jc) (hjmax : 0 < cfg.jmax)
    (hsmall : cfg.jc * cfg.jmax < 2 ^ 31) {b : JunkBuffers} (h : JunkFits sizeMax cfg b)
    (rng : Csprng) :
    ∃ r, sendJunk sizeMax cfg rng b = .ok r ∧ JunkContained cfg rng r ∧
      JunkFits sizeMax cfg r.buffers := by
  obtain ⟨r, hrun, hbuf, hsizes, hpackets, hinside, hfits⟩ := exists_sendJunk hjc hjmax h rng
  have hprod : 0 < cfg.jc * cfg.jmax := Int.mul_pos hjc hjmax
  have hlen := h.buf
  rw [csprngFillBlocks_eq rng (by omega), csprngFillBlocks_eq _ (by omega)] at hbuf
  have hfilled := hbuf.trans (Bytes.patch_zero_of_length (by rw [length_csprngFill]; omega))
  exact ⟨r, hrun, ⟨hfilled, hfits.buf, hsizes, hpackets, hinside⟩, hfits⟩

/-- **Junk never leaves its allocation.** After any run of flows, for every seed the sizes are
those configured, and the next flow sends nothing but the keystream just filled in. -/
theorem junkContained {sizeMax : ℕ} {cfg : AwgConfig} (hjc : 0 < cfg.jc) (hjmax : 0 < cfg.jmax)
    (hsmall : cfg.jc * cfg.jmax < 2 ^ 31) {heap : ℕ → UInt8} {ints : ℕ → ℤ}
    {b₀ b : JunkBuffers} (hinit : proxyInitJunk sizeMax cfg heap ints = some b₀)
    {rngs : List Csprng} (hrun : (junkMachine sizeMax cfg).run b₀ rngs = some b) :
    (∀ seed, ∃ sizes, generateJunk cfg seed b.sizes = .ok (cfg.jc, sizes) ∧
      JunkSizes cfg sizes) ∧
    ∀ rng, ∃ r, sendJunk sizeMax cfg rng b = .ok r ∧ JunkContained cfg rng r := by
  have hstep : ∀ b rng b', JunkFits sizeMax cfg b →
      (junkMachine sizeMax cfg).step b rng = some b' → JunkFits sizeMax cfg b' := by
    intro b rng b' hb hs
    obtain ⟨r, hr, -, hfits⟩ := sendJunk_eq hjc hjmax hsmall hb rng
    simp only [junkMachine, hr] at hs
    obtain rfl := Option.some.inj hs
    exact hfits
  have hfits := Machine.run_induction hstep (junkFits_proxyInitJunk hjc hjmax hinit) hrun
  refine ⟨fun seed => generateJunk_eq hjc hjmax seed hfits.sizes, fun rng => ?_⟩
  obtain ⟨r, hr, hcontained, -⟩ := sendJunk_eq hjc hjmax hsmall hfits rng
  exact ⟨r, hr, hcontained⟩

/-- A client's configuration with junk. -/
def junkConfig : AwgConfig :=
  { trailerConfig with jc := 2, jmin := 1, jmax := 3 }

/-- Its buffers after `proxy_init`. -/
def junkBuffers : JunkBuffers :=
  ⟨List.replicate 6 0xaa, List.replicate 2 (-1)⟩

/-- Behind the first flow. -/
theorem junkContained_second :
    proxyInitJunk (2 ^ 64 - 1) junkConfig (fun _ => 0xaa) (fun _ => -1) = some junkBuffers ∧
      ∃ b, (junkMachine (2 ^ 64 - 1) junkConfig).run junkBuffers
          [csprngInit (List.replicate 32 7) 1] = some b ∧
        ∀ rng, ∃ r, sendJunk (2 ^ 64 - 1) junkConfig rng b = .ok r ∧
          JunkContained junkConfig rng r := by
  have hinit : proxyInitJunk (2 ^ 64 - 1) junkConfig (fun _ => 0xaa) (fun _ => -1) =
      some junkBuffers := rfl
  have hjc : 0 < junkConfig.jc := by decide
  obtain ⟨r, hflow, -⟩ := sendJunk_eq hjc (by decide) (by decide)
    (junkFits_proxyInitJunk hjc (by decide) hinit) (csprngInit (List.replicate 32 7) 1)
  have hstep : (junkMachine (2 ^ 64 - 1) junkConfig).step junkBuffers
      (csprngInit (List.replicate 32 7) 1) = some r.buffers := by
    simp only [junkMachine, hflow]
    rfl
  have hrun : (junkMachine (2 ^ 64 - 1) junkConfig).run junkBuffers
      [csprngInit (List.replicate 32 7) 1] = some r.buffers := by
    rw [Machine.run_cons, hstep]
    rfl
  exact ⟨hinit, _, hrun, (junkContained (by decide) (by decide) (by decide) hinit hrun).2⟩

end AwgProxy
