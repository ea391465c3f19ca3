import Mathlib.Data.List.ReduceOption
import AwgProxy.Junk
import AwgProxy.Server

/-!
# Decoys of the Stages

In server mode every client is answered in the profile it speaks. Whether an init needs decoys
is decided by that profile; which I-packets go out is read from the flat fields, which mirror
the active one, and whether there is junk from the junk settings. Every I-packet is kept here
with the template it is generated from.

* `sendJunkAndCpsTo_spec` — what is sent ahead, by the flat templates and the junk settings.
* `sent_packet_init` — an init asks for decoys by the profile of its client.
* `decoysMatch_iff` — for which settings the decoys are those of the client's stage.
-/

namespace AwgProxy

open Configurator

/-! ### The code -/

/-- A packet sent ahead of an init. -/
inductive Decoy
  /-- An I-packet, generated from the template `t`. -/
  | iPacket (t : CpsTemplate) (d : Bytes)
  /-- A junk packet. -/
  | junk (d : Bytes)

/-- `cps_bufs`, and the packets generated into the first of them, each with its template and
its length. -/
structure CpsPackets where
  counter : UInt32
  rng : Csprng
  bufs : List Bytes
  made : List (CpsTemplate × ℕ)

/-- The loop of `cps_generate_all` from template `i` on. The clock is read at the timestamps of
every packet. -/
def cpsGenerateAllLoop (fuel : ℕ) (clock : ℕ → ℕ → UInt32) :
    ℕ → List (Option CpsTemplate) → CpsPackets → Except CpsFault CpsPackets
  | _, [], a => .ok a
  | i, none :: ts, a => cpsGenerateAllLoop fuel clock (i + 1) ts a
  | i, some t :: ts, a =>
      match a.bufs[a.made.length]? with
      | none => .error .bounds
      | some buf =>
          match cpsGenerate fuel t a.counter (clock i) a.rng buf with
          | .error e => .error e
          | .ok r =>
              cpsGenerateAllLoop fuel clock (i + 1) ts
                ⟨a.counter + 1, r.rng, a.bufs.set a.made.length r.buf, a.made ++ [(t, r.len)]⟩

/-- The loop that sends the I-packets, from the one in buffer `i` on. -/
def sendCpsLoop (bufs : List Bytes) : ℕ → List (CpsTemplate × ℕ) → Except CpsFault (List Decoy)
  | _, [] => .ok []
  | i, (t, len) :: made =>
      match bufs[i]? with
      | none => .error .bounds
      | some buf =>
          match readPacket buf 0 len with
          | .error e => .error e
          | .ok d => (sendCpsLoop bufs (i + 1) made).map (.iPacket t d :: ·)

/-- What the decoys of the s2c thread are made with. -/
structure DecoyState where
  /-- `cps_counter`. -/
  counter : UInt32
  /-- `cs_s2c`. -/
  rng : Csprng
  /-- `cps_bufs`. -/
  bufs : List Bytes
  junk : JunkBuffers

/-- `send_junk_and_cps_to`: I-packets of the flat templates, then junk. -/
def sendJunkAndCpsTo (sizeMax fuel : ℕ) (clock : ℕ → ℕ → UInt32) (cfg : AwgConfig)
    (st : DecoyState) : Except CpsFault (List Decoy × DecoyState) :=
  match cpsGenerateAllLoop fuel clock 0 (List.ofFn cfg.cps) ⟨st.counter, st.rng, st.bufs, []⟩ with
  | .error e => .error e
  | .ok a =>
      match sendCpsLoop a.bufs 0 a.made with
      | .error e => .error e
      | .ok cps =>
          (sendJunk sizeMax cfg a.rng st.junk).map fun r =>
            (cps ++ r.sent.map .junk, ⟨a.counter, r.rng, a.bufs, r.buffers⟩)

/-- The call of `send_junk_and_cps_to`, among what was sent. -/
def Sent.isDecoys : Sent → Bool
  | .junkAndCps _ => true
  | .packet _ _ => false

/-- What is sent ahead while the proxy goes from `p` to `p'`. -/
def sentAhead (sizeMax fuel : ℕ) (clock : ℕ → ℕ → UInt32) (p p' : Proxy) (st : DecoyState) :
    Except CpsFault (List Decoy × DecoyState) :=
  if (p'.sent.drop p.sent.length).any Sent.isDecoys then
    sendJunkAndCpsTo sizeMax fuel clock p.cfg st
  else .ok ([], st)

/-! ### What is meant -/

/-- The templates of a profile that are configured, in order. -/
def AwgProfile.templates (pr : AwgProfile) : List CpsTemplate := (List.ofFn pr.cps).reduceOption

/-- The template a decoy is generated from. -/
def Decoy.template? : Decoy → Option CpsTemplate
  | .iPacket t _ => some t
  | .junk _ => none

/-- The templates of the I-packets sent. -/
def iTemplates (ds : List Decoy) : List CpsTemplate := ds.filterMap Decoy.template?

/-- Decoys that match stage `k`. -/
structure DecoysMatch (cfg : AwgConfig) (k : Fin awgMaxProfiles) (ds : List Decoy) : Prop where
  /-- The I-packets are those of the stage. -/
  own : iTemplates ds ≠ [] → iTemplates ds = (cfg.profiles k).templates
  /-- Something is sent exactly when there is junk, or a template of the stage. -/
  sent_iff : ds ≠ [] ↔ 0 < cfg.jc ∨ (cfg.profiles k).templates ≠ []

/-- The flat settings decide for stage `k` as its own would: what asks for decoys finds some,
and the templates, where there are any, are the stage's. -/
def DecoysAgree (cfg : AwgConfig) (k : Fin awgMaxProfiles) : Prop :=
  0 < cfg.jc ∨ (cfg.profiles k).templates ≠ [] →
    (cfg.toAwgProfile.templates ≠ [] → cfg.toAwgProfile.templates = (cfg.profiles k).templates) ∧
      (cfg.toAwgProfile.templates ≠ [] ∨ 0 < cfg.jc ∧ 0 < cfg.jmax)

/-- The buffers are there. -/
structure DecoyState.Ready (sizeMax : ℕ) (cfg : AwgConfig) (st : DecoyState) : Prop where
  count : st.bufs.length = awgCpsCount
  size : ∀ buf ∈ st.bufs, buf.length = awgPacketBufSize
  junk : 0 < cfg.jc → 0 < cfg.jmax → JunkFits sizeMax cfg st.junk

/-- The templates are those of texts that were parsed. -/
def AwgProfile.TemplatesParsed (pr : AwgProfile) : Prop :=
  ∀ i t, pr.cps i = some t → ∃ s, cpsParse s = some t

/-! ### One I-packet -/

section Packet

variable {t : CpsTemplate} {counter : UInt32} {clock : ℕ → UInt32}

/-- Generating a packet keeps the key and the nonce of the generator. -/
theorem rng_cpsGenerateLoop {fuel : ℕ} {segs : List CpsSegment} (hok : ∀ seg ∈ segs, SegOk t seg)
    {i : ℕ} {rng : Csprng} {buf : Bytes} {off : ℕ} {r : CpsOut}
    (h : cpsGenerateLoop fuel t counter clock i segs rng buf off = .ok r) :
    r.rng.key = rng.key ∧ r.rng.nonce = rng.nonce := by
  induction segs generalizing i rng buf off with
  | nil =>
      cases h
      exact ⟨rfl, rfl⟩
  | cons seg segs ih =>
      rw [cpsGenerateLoop] at h
      split at h
      · cases h
        exact ⟨rfl, rfl⟩
      · next hfit =>
          rcases @cpsSegment_spec t counter (clock i) seg rng buf off fuel
            (hok seg List.mem_cons_self) (Nat.not_lt.mp hfit) with hrun | ⟨r', hrun, hfilled⟩
          · rw [hrun] at h
            cases h
          · obtain ⟨-, -, -, -, hkey, hnonce⟩ := hfilled
            rw [hrun] at h
            obtain ⟨hkey', hnonce'⟩ := ih (fun s hs => hok s (List.mem_cons_of_mem _ hs)) h
            exact ⟨hkey'.trans hkey, hnonce'.trans hnonce⟩

/-- The symbols of a segment are letters or digits. -/
theorem symbols?_eq_some {kind : CpsKind} {set : Bytes} (h : symbols? kind = some set) :
    set = chars52 ∨ set = digits10 := by
  cases kind <;> simp_all [symbols?]

/-- **One I-packet.** With a keystream that has symbols a packet is generated, within its
buffer. -/
theorem exists_cpsGenerate {s : List Char} (ht : cpsParse s = some t) (counter : UInt32)
    (clock : ℕ → UInt32) (rng : Csprng) (hdraws : Draws rng chars52 ∧ Draws rng digits10)
    (buf : Bytes) :
    ∃ fuel r, cpsGenerate fuel t counter clock rng buf = .ok r ∧ r.len ≤ r.buf.length ∧
      r.rng.key = rng.key ∧ r.rng.nonce = rng.nonce := by
  have hok := segOk_of_cpsParse ht
  obtain ⟨fuel, r, hrun⟩ := (cpsGenerate_spec ht counter clock rng buf).returns.mpr
    fun j seg _ _ _ set hset => by
      rcases symbols?_eq_some hset with rfl | rfl
      · exact hdraws.1
      · exact hdraws.2
  refine ⟨fuel, r, hrun, ?_, rng_cpsGenerateLoop hok hrun⟩
  rcases @cpsGenerateLoop_spec t counter clock fuel t.segs hok 0 rng buf 0 (Nat.zero_le _) with
    hrun' | ⟨r', k, hrun', hfilled⟩
  · cases hrun.symm.trans hrun'
  · cases hrun.symm.trans hrun'
    obtain ⟨ds, hpieces, hbuf⟩ := hfilled.pieces
    have hlen := hfilled.len
    have hfits := hfilled.fits
    have hflat : ds.flatten.length = prefixLen t.segs k := hpieces.length_flatten
    rw [hbuf, Bytes.length_patch (by omega)]
    exact hfits

end Packet

/-! ### All I-packets -/

section All

variable {clock : ℕ → ℕ → UInt32}

/-- The packets are made from the templates that are configured, in order. -/
theorem made_cpsGenerateAllLoop {fuel : ℕ} {ts : List (Option CpsTemplate)} {i : ℕ}
    {a a' : CpsPackets} (h : cpsGenerateAllLoop fuel clock i ts a = .ok a') :
    a'.made.map Prod.fst = a.made.map Prod.fst ++ ts.reduceOption := by
  induction ts generalizing i a with
  | nil =>
      cases h
      exact (List.append_nil _).symm
  | cons t ts ih =>
      cases t with
      | none => exact ih h
      | some t =>
          rw [cpsGenerateAllLoop] at h
          split at h
          · cases h
          · split at h
            · cases h
            · rw [ih h, List.map_append, List.append_assoc, List.reduceOption_cons_of_some]
              rfl

/-- Packets of which `n` more find a buffer, and symbols. -/
structure CpsRoom (a : CpsPackets) (n : ℕ) : Prop where
  room : a.made.length + n ≤ a.bufs.length
  /-- Those that are made lie in their buffers. -/
  reads : ∀ (j : ℕ) t len, a.made[j]? = some (t, len) →
    ∃ buf : Bytes, a.bufs[j]? = some buf ∧ len ≤ buf.length
  draws : Draws a.rng chars52 ∧ Draws a.rng digits10

/-- A packet made leaves room for the others. -/
theorem CpsRoom.push {a : CpsPackets} {n : ℕ} (h : CpsRoom a (n + 1)) {t : CpsTemplate}
    {r : CpsOut} (hlen : r.len ≤ r.buf.length) (hkey : r.rng.key = a.rng.key)
    (hnonce : r.rng.nonce = a.rng.nonce) :
    CpsRoom ⟨a.counter + 1, r.rng, a.bufs.set a.made.length r.buf, a.made ++ [(t, r.len)]⟩ n := by
  have hroom := h.room
  refine ⟨?_, fun j t' len hj => ?_, ?_⟩
  · rw [List.length_append, List.length_set, List.length_singleton]
    omega
  · rcases Nat.lt_trichotomy j a.made.length with hlt | rfl | hgt
    · rw [List.getElem?_append_left hlt] at hj
      obtain ⟨buf, hbuf, hle⟩ := h.reads j t' len hj
      exact ⟨buf, (List.getElem?_set_ne (ne_of_gt hlt)).trans hbuf, hle⟩
    · rw [List.getElem?_concat_length] at hj
      cases hj
      exact ⟨r.buf, List.getElem?_set_self (by omega), hlen⟩
    · rw [List.getElem?_eq_none (by rw [List.length_append, List.length_singleton]; omega)] at hj
      cases hj
  · simp only [Draws, hkey, hnonce]
    exact h.draws

/-- More fuel makes the same packets. -/
theorem cpsGenerateAllLoop_mono {fuel fuel' : ℕ} (hle : fuel ≤ fuel')
    {ts : List (Option CpsTemplate)} (hparsed : ∀ t, some t ∈ ts → ∃ s, cpsParse s = some t)
    {i : ℕ} {a a' : CpsPackets} (h : cpsGenerateAllLoop fuel clock i ts a = .ok a') :
    cpsGenerateAllLoop fuel' clock i ts a = .ok a' := by
  induction ts generalizing i a with
  | nil => exact h
  | cons t ts ih =>
      have htail : ∀ t, some t ∈ ts → ∃ s, cpsParse s = some t := fun t ht =>
        hparsed t (List.mem_cons_of_mem _ ht)
      cases t with
      | none => exact ih htail h
      | some t =>
          obtain ⟨s, ht⟩ := hparsed t List.mem_cons_self
          rw [cpsGenerateAllLoop] at h ⊢
          cases hbuf : a.bufs[a.made.length]? with
          | none =>
              rw [hbuf] at h
              cases h
          | some buf =>
              rw [hbuf] at h
              dsimp only at h ⊢
              cases hrun : cpsGenerate fuel t a.counter (clock i) a.rng buf with
              | error e =>
                  rw [hrun] at h
                  cases h
              | ok r =>
                  rw [hrun] at h
                  have hmore : cpsGenerate fuel' t a.counter (clock i) a.rng buf = .ok r :=
                    cpsGenerateLoop_mono hle (segOk_of_cpsParse ht) hrun
                  rw [hmore]
                  exact ih htail h

/-- **All I-packets** are made when there is a buffer for each and the keystream has symbols. -/
theorem exists_cpsGenerateAllLoop (clock : ℕ → ℕ → UInt32) {ts : List (Option CpsTemplate)}
    (hparsed : ∀ t, some t ∈ ts → ∃ s, cpsParse s = some t) (i : ℕ) {a : CpsPackets}
    (h : CpsRoom a ts.reduceOption.length) :
    ∃ fuel a', cpsGenerateAllLoop fuel clock i ts a = .ok a' ∧ CpsRoom a' 0 := by
  induction ts generalizing i a with
  | nil => exact ⟨0, a, rfl, h⟩
  | cons t ts ih =>
      have htail : ∀ t, some t ∈ ts → ∃ s, cpsParse s = some t := fun t ht =>
        hparsed t (List.mem_cons_of_mem _ ht)
      cases t with
      | none => exact ih htail (i + 1) h
      | some t =>
          obtain ⟨s, ht⟩ := hparsed t List.mem_cons_self
          rw [List.reduceOption_cons_of_some, List.length_cons] at h
          have hroom := h.room
          obtain ⟨buf, hbuf⟩ : ∃ buf, a.bufs[a.made.length]? = some buf :=
            ⟨_, List.getElem?_eq_getElem (by omega)⟩
          obtain ⟨fuel, r, hrun, hlen, hkey, hnonce⟩ :=
            exists_cpsGenerate ht a.counter (clock i) a.rng h.draws buf
          obtain ⟨fuel', a', hrun', hroom'⟩ := ih htail (i + 1) (h.push (t := t) hlen hkey hnonce)
          have hgen : cpsGenerate (max fuel fuel') t a.counter (clock i) a.rng buf = .ok r :=
            cpsGenerateLoop_mono (le_max_left _ _) (segOk_of_cpsParse ht) hrun
          refine ⟨max fuel fuel', a', ?_, hroom'⟩
          rw [cpsGenerateAllLoop, hbuf]
          simp only [hgen]
          exact cpsGenerateAllLoop_mono (le_max_right _ _) htail hrun'

end All

/-- Packets that lie in their buffers are sent. -/
theorem exists_sendCpsLoop {bufs : List Bytes} {made : List (CpsTemplate × ℕ)} {i : ℕ}
    (h : ∀ j t len, made[j]? = some (t, len) →
      ∃ buf, bufs[i + j]? = some buf ∧ len ≤ buf.length) :
    ∃ ds, sendCpsLoop bufs i made = .ok ds := by
  induction made generalizing i with
  | nil => exact ⟨[], rfl⟩
  | cons x made ih =>
      obtain ⟨t, len⟩ := x
      obtain ⟨buf, hbuf, hle⟩ := h 0 t len rfl
      obtain ⟨ds, hds⟩ := ih (i := i + 1) fun j t len hj => by
        rw [Nat.add_right_comm]
        exact h (j + 1) t len hj
      have hread : readPacket buf 0 len = .ok (buf.slice 0 len) :=
        readPacket_eq (Int.natCast_nonneg len) (by omega)
      refine ⟨.iPacket t (buf.slice 0 len) :: ds, ?_⟩
      rw [sendCpsLoop, show bufs[i]? = some buf from hbuf]
      simp only [hread, hds]
      rfl

/-- An I-packet is sent for every packet made. -/
theorem template?_sendCpsLoop {bufs : List Bytes} {made : List (CpsTemplate × ℕ)} {i : ℕ}
    {ds : List Decoy} (h : sendCpsLoop bufs i made = .ok ds) :
    ds.map Decoy.template? = made.map fun x => some x.1 := by
  induction made generalizing i ds with
  | nil =>
      cases h
      rfl
  | cons x made ih =>
      rw [sendCpsLoop] at h
      split at h
      · cases h
      · split at h
        · cases h
        · cases hrun : sendCpsLoop bufs (i + 1) made with
          | error e =>
              rw [hrun] at h
              cases h
          | ok ds' =>
              rw [hrun] at h
              cases h
              exact congrArg (some x.1 :: ·) (ih hrun)

/-! ### The decoys -/

/-- Junk is sent exactly when there is some to send. -/
theorem exists_sendJunk_iff {sizeMax : ℕ} {cfg : AwgConfig} {b : JunkBuffers}
    (h : 0 < cfg.jc → 0 < cfg.jmax → JunkFits sizeMax cfg b) (rng : Csprng) :
    ∃ r, sendJunk sizeMax cfg rng b = .ok r ∧ (r.sent ≠ [] ↔ 0 < cfg.jc ∧ 0 < cfg.jmax) := by
  by_cases hpos : 0 < cfg.jc ∧ 0 < cfg.jmax
  · obtain ⟨r, hrun, -, hsizes, hpackets, -⟩ :=
      exists_sendJunk hpos.1 hpos.2 (h hpos.1 hpos.2) rng
    refine ⟨r, hrun, iff_of_true (fun hnil => ?_) hpos⟩
    have hlen := hsizes.length
    rw [← hpackets, hnil] at hlen
    exact hpos.1.ne hlen
  · exact ⟨⟨[], b, rng⟩, if_neg hpos, iff_of_false (fun hne => hne rfl) hpos⟩

/-- **What is sent ahead**, by the flat templates and the junk settings. -/
theorem sendJunkAndCpsTo_spec {sizeMax fuel : ℕ} {clock : ℕ → ℕ → UInt32} {cfg : AwgConfig}
    {st : DecoyState} (h : st.Ready sizeMax cfg) {x : List Decoy × DecoyState}
    (hrun : sendJunkAndCpsTo sizeMax fuel clock cfg st = .ok x) :
    iTemplates x.1 = cfg.toAwgProfile.templates ∧
      (x.1 ≠ [] ↔ cfg.toAwgProfile.templates ≠ [] ∨ 0 < cfg.jc ∧ 0 < cfg.jmax) := by
  rw [sendJunkAndCpsTo] at hrun
  split at hrun
  · cases hrun
  · next a hmade =>
      split at hrun
      · cases hrun
      · next cps hcps =>
          obtain ⟨r, hr, hiff⟩ := exists_sendJunk_iff h.junk a.rng
          rw [hr] at hrun
          cases hrun
          have hall : a.made.map Prod.fst = cfg.toAwgProfile.templates :=
            made_cpsGenerateAllLoop hmade
          have htmpl := template?_sendCpsLoop hcps
          have hown : iTemplates cps = cfg.toAwgProfile.templates := by
            have hsome : iTemplates cps = (cps.map Decoy.template?).reduceOption := by
              rw [List.reduceOption, List.filterMap_map]
              rfl
            rw [hsome, htmpl, ← hall, List.reduceOption, List.filterMap_map]
            exact congrFun List.filterMap_eq_map a.made
          have hnil : cps = [] ↔ cfg.toAwgProfile.templates = [] := by
            rw [← hall, List.map_eq_nil_iff, ← List.map_eq_nil_iff (f := Decoy.template?), htmpl,
              List.map_eq_nil_iff]
          have hjunk : iTemplates (r.sent.map .junk) = [] := by
            simp [iTemplates, Decoy.template?]
          dsimp only
          refine ⟨?_, ?_⟩
          · rw [iTemplates, List.filterMap_append]
            exact (congrArg₂ _ hown hjunk).trans (List.append_nil _)
          · rw [ne_eq, List.append_eq_nil_iff, List.map_eq_nil_iff, hnil, not_and_or, ← hiff]

/-- The keystream of the key of zeros has letters and digits in its first block. -/
theorem draws_zero : Draws ⟨[], [], 0⟩ chars52 ∧ Draws ⟨[], [], 0⟩ digits10 := by
  have hbyte : ∃ b ∈ chacha20Block [] [] 0, b.toNat < 208 := by decide +kernel
  obtain ⟨b, hb, hlt⟩ := hbyte
  exact ⟨⟨0, b, hb, hlt⟩, ⟨0, b, hb, hlt.trans (by decide)⟩⟩

/-- Decoys are sent, with some generator and some clock. -/
theorem exists_sendJunkAndCpsTo {sizeMax : ℕ} {cfg : AwgConfig}
    (hparsed : cfg.toAwgProfile.TemplatesParsed) {b : JunkBuffers}
    (hb : 0 < cfg.jc → 0 < cfg.jmax → JunkFits sizeMax cfg b) :
    ∃ fuel clock st x, DecoyState.Ready sizeMax cfg st ∧
      sendJunkAndCpsTo sizeMax fuel clock cfg st = .ok x := by
  have hts : ∀ t, some t ∈ List.ofFn cfg.cps → ∃ s, cpsParse s = some t := by
    intro t ht
    obtain ⟨i, hi⟩ := List.mem_ofFn.mp ht
    exact hparsed i t hi
  have hcount : (List.ofFn cfg.cps).reduceOption.length ≤ awgCpsCount :=
    (List.reduceOption_length_le _).trans_eq List.length_ofFn
  generalize hst : DecoyState.mk 0 ⟨[], [], 0⟩
    (List.replicate awgCpsCount (List.replicate awgPacketBufSize 0)) b = st
  have hready : st.Ready sizeMax cfg := by
    subst hst
    refine ⟨List.length_replicate, fun buf hbuf => ?_, hb⟩
    rw [List.eq_of_mem_replicate hbuf, List.length_replicate]
  have hroom : CpsRoom ⟨st.counter, st.rng, st.bufs, []⟩
      (List.ofFn cfg.cps).reduceOption.length := by
    refine ⟨?_, nofun, ?_⟩
    · rw [hready.count]
      dsimp only [List.length_nil]
      omega
    · subst hst
      exact draws_zero
  obtain ⟨fuel, a, hmade, hreads⟩ :=
    exists_cpsGenerateAllLoop (fun _ _ => 0) hts 0 hroom
  obtain ⟨cps, hcps⟩ := exists_sendCpsLoop (i := 0) fun j t len hj => by
    rw [Nat.zero_add]
    exact hreads.reads j t len hj
  obtain ⟨r, hr, -⟩ := exists_sendJunk_iff hready.junk a.rng
  refine ⟨fuel, fun _ _ => 0, st, (cps ++ r.sent.map .junk, ⟨a.counter, r.rng, a.bufs, r.buffers⟩),
    hready, ?_⟩
  rw [sendJunkAndCpsTo, hmade]
  simp only [hcps, hr]
  rfl

/-! ### The init -/

/-- An init asks for decoys when there is junk, or a template of its profile. -/
theorem junk_init_iff {cfg : AwgConfig} {pr : AwgProfile} :
    HandshakeKind.init.junk cfg pr = true ↔ 0 < cfg.jc ∨ pr.templates ≠ [] := by
  have hnil : pr.templates = [] ↔ ∀ i, pr.cps i = none := by
    rw [AwgProfile.templates, List.reduceOption, List.filterMap_eq_nil_iff]
    simp only [List.mem_ofFn, id_eq, forall_exists_index, forall_apply_eq_imp_iff]
  rw [ne_eq, hnil, not_forall]
  simp only [HandshakeKind.junk, Bool.or_eq_true, decide_eq_true_eq, or_assoc,
    Fin.exists_fin_succ, ← ne_eq, Option.ne_none_iff_isSome, IsEmpty.exists_iff, or_false]
  rfl

/-- The encoder sends an init at once when it asks for decoys, behind them. -/
theorem sent_s2cTransform_init {q : Proxy} {base : Ptr PktBuf} {n headroom : ℕ}
    (prof : Fin awgMaxProfiles) (key : Option Bytes) (dest : CliAddr)
    {d : Bytes} (hread : q.mem.read (base.add headroom) n = d) (hn : d.length = n)
    (hd : handshakeKind? d = some .init) :
    (((s2cTransform q base n headroom prof key dest).sent.drop q.sent.length).any
      Sent.isDecoys) = HandshakeKind.init.junk q.cfg (q.cfg.profiles prof) := by
  obtain ⟨hty, hsz⟩ := handshakeKind?_eq_some_iff.mp hd
  have hsize : n = HandshakeKind.init.size := hn.symm.trans hsz
  have hty' : read32Le q.mem (base.add headroom) = HandshakeKind.init.type := by
    rw [read32Le_eq q.mem _ (by rw [hsize]; exact HandshakeKind.four_le_size _ : 4 ≤ n), hread, hty]
  rw [s2cTransform]
  dsimp only
  have hkind : HandshakeKind.init = .cookie → q.cfg.disableCookies = false := by
    rintro ⟨⟩
  rw [transformOutboundProfile_eq_padHandshake hty' hsize hkind]
  dsimp only
  cases hjunk : HandshakeKind.init.junk q.cfg (q.cfg.profiles prof) with
  | false =>
      rw [if_neg Bool.false_ne_true, Proxy.queueSend]
      dsimp only
      rw [List.drop_length]
      rfl
  | true =>
      rw [if_pos rfl, List.drop_left]
      rfl

/-- **An init** asks for decoys by the profile of the client it is routed to. -/
theorem sent_packet_init {p : Proxy} {i : ℕ} {d : Bytes} {s : Slot}
    (hmode : p.cfg.mode = .server) (hr : Receivable p i d) (hd : handshakeKind? d = some .init)
    (hs : (s2cRoute p.cfg p.table d).entry = some s) :
    (((p.packet i d).sent.drop p.sent.length).any Sent.isDecoys) = true ↔
      0 < p.cfg.jc ∨ (p.cfg.profiles (serverProf p.cfg p.table s)).templates ≠ [] := by
  have htable : (s2cRoute p.cfg p.table d).table = p.table := by
    rw [s2cRoute_init p.table hd]
    dsimp only
    split <;> rfl
  have hpacket := Proxy.packet_handshake hmode hr hd
  dsimp only at hpacket
  rw [hs] at hpacket
  dsimp only at hpacket
  rw [htable] at hpacket
  have hsent := sent_s2cTransform_init
    (q := { p.receive i d with
      table := (s2cIdentify p.cfg p.table s (s2cRoute p.cfg p.table d).initPeer d).1 })
    (serverProf p.cfg p.table s)
    (s2cIdentify p.cfg p.table s (s2cRoute p.cfg p.table d).initPeer d).2
    (p.table.sessions s).addr hr.read rfl hd
  rw [← hpacket] at hsent
  exact (Bool.eq_iff_iff.mp hsent).trans junk_init_iff

/-! ### Decoys that match -/

/-- What is sent matches the stage when the templates and the numbers do. -/
theorem decoysMatch_iff_of_templates {cfg : AwgConfig} {k : Fin awgMaxProfiles} {ds : List Decoy}
    {ts : List CpsTemplate} {junk : Prop} (hts : iTemplates ds = ts)
    (hds : ds ≠ [] ↔ ts ≠ [] ∨ junk) :
    DecoysMatch cfg k ds ↔ (ts ≠ [] → ts = (cfg.profiles k).templates) ∧
      (ts ≠ [] ∨ junk ↔ 0 < cfg.jc ∨ (cfg.profiles k).templates ≠ []) := by
  constructor
  · rintro ⟨hown, hsent⟩
    rw [hts] at hown
    exact ⟨hown, hds.symm.trans hsent⟩
  · rintro ⟨hown, hsent⟩
    exact ⟨by rwa [hts], hds.trans hsent⟩

/-- **Decoys of the client's stage.** For every init in server mode that is routed to a
client, the decoys ahead of it match the client's stage exactly when the flat settings agree
with it. -/
theorem decoysMatch_iff {sizeMax : ℕ} {p : Proxy} (h : ServerRuns p)
    (hparsed : p.cfg.toAwgProfile.TemplatesParsed) {heap : ℕ → UInt8} {ints : ℕ → ℤ}
    {b : JunkBuffers} (hinit : proxyInitJunk sizeMax p.cfg heap ints = some b) {i : ℕ} {d : Bytes}
    (hr : Receivable p i d) (hd : handshakeKind? d = some .init) {s : Slot}
    (hs : (s2cRoute p.cfg p.table d).entry = some s) :
    (∀ fuel clock st x, DecoyState.Ready sizeMax p.cfg st →
      sentAhead sizeMax fuel clock p (p.packet i d) st = .ok x →
        DecoysMatch p.cfg (serverProf p.cfg p.table s) x.1) ↔
      DecoysAgree p.cfg (serverProf p.cfg p.table s) := by
  have hasks := sent_packet_init h.mode hr hd hs
  by_cases hask : 0 < p.cfg.jc ∨ (p.cfg.profiles (serverProf p.cfg p.table s)).templates ≠ []
  · simp only [sentAhead, if_pos (hasks.mpr hask)]
    rw [DecoysAgree, imp_iff_right hask]
    constructor
    · intro hall
      obtain ⟨fuel, clock, st, x, hready, hrun⟩ := exists_sendJunkAndCpsTo hparsed
        fun hjc hjmax => junkFits_proxyInitJunk hjc hjmax hinit
      obtain ⟨hts, hne⟩ := sendJunkAndCpsTo_spec hready hrun
      obtain ⟨hown, hsent⟩ :=
        (decoysMatch_iff_of_templates hts hne).mp (hall fuel clock st x hready hrun)
      exact ⟨hown, hsent.mpr hask⟩
    · rintro ⟨hown, hsome⟩ fuel clock st x hready hrun
      obtain ⟨hts, hne⟩ := sendJunkAndCpsTo_spec hready hrun
      exact (decoysMatch_iff_of_templates hts hne).mpr ⟨hown, iff_of_true hsome hask⟩
  · simp only [sentAhead, if_neg fun hany => hask (hasks.mp hany)]
    refine iff_of_true (fun fuel clock st x _ hrun => ?_) fun h => absurd h hask
    cases hrun
    exact ⟨fun hne => absurd rfl hne, iff_of_false (fun hne => hne rfl) hask⟩

/-! ### A hub of stages with an I-packet each -/

/-- A profile with the I-packet `<b v>`. -/
def decoyProfile (v : UInt8) : AcceptedProfile :=
  AcceptedProfile.ofValidated
    { plainProfile.toAwgProfile with
      cps := fun i => if i = 0 then some ⟨[⟨.static, 0, 0, 1⟩], [v]⟩ else none }
    plainProfile.accepted

/-- The hub, with byte `k` as the I-packet of stage `k`. -/
def decoyHub : Proxy :=
  { hubProxy with
    cfg := { hubProxy.cfg with
      toAwgProfile := (decoyProfile 0).toAwgProfile
      profiles := fun k => (decoyProfile (.ofNat k)).toAwgProfile } }

theorem decoyHub_runs : ServerRuns decoyHub where
  layout :=
    { accepted := fun k _ => ⟨decoyProfile (.ofNat k), rfl⟩
      count := by decide
      active := by decide
      entries := fun s => (decoyHub.table.sessions s).prof.isLt
      maxS4 := by decide
      bufs := fun _ _ => List.length_replicate
      hs := List.length_replicate }
  mode := rfl

theorem decoyHub_templatesParsed : decoyHub.cfg.toAwgProfile.TemplatesParsed := by
  intro i t ht
  have hparse : cpsParse "<b 0x00>".toList = some ⟨[⟨.static, 0, 0, 1⟩], [0]⟩ := by decide
  refine ⟨"<b 0x00>".toList, hparse.trans ?_⟩
  have hcps : decoyHub.cfg.toAwgProfile.cps i =
      if i = 0 then some ⟨[⟨.static, 0, 0, 1⟩], [0]⟩ else none := rfl
  rw [hcps] at ht
  split at ht
  · exact ht
  · cases ht

/-- The hub after the init of its first client, on stage `k`. The next init goes to it. -/
theorem decoyHub_client (k : Fin awgMaxProfiles) : ∃ p s,
    serverMachine.run decoyHub [.clientInit 0 5 (.v4 1 1) k] = some p ∧ p.cfg = decoyHub.cfg ∧
      ServerRuns p ∧ Receivable p 0 (initFor 0) ∧
      (s2cRoute p.cfg p.table (initFor 0)).entry = some s ∧ serverProf p.cfg p.table s = k := by
  have hvacant : decoyHub.table.Vacant := fun _ => rfl
  have hrun : serverMachine.run decoyHub [.clientInit 0 5 (.v4 1 1) k] =
      some { decoyHub with table := (sessionPutProf decoyHub.table 5 (.v4 1 1) k).1 } := by
    have hstep : serverMachine.step decoyHub (.clientInit 0 5 (.v4 1 1) k) =
        some { decoyHub with table := (sessionPutProf decoyHub.table 5 (.v4 1 1) k).1 } :=
      if_pos k.isLt
    rw [Machine.run_cons, hstep]
    rfl
  have hsole := hvacant.put 5 (.v4 1 1) k
  have hruns := decoyHub_runs.run hrun
  refine ⟨_, homeSlot 5, hrun, rfl, hruns,
    hruns.receivable (by decide) (handshakeKind?_initFor 0), ?_, ?_⟩
  · rw [hsole.route_init _ (handshakeKind?_initFor 0)]
  · have hmany : decoyHub.cfg.profileCount > 1 := by decide
    refine (if_pos hmany).trans ?_
    rw [prof_sessionPutProf, if_pos (hvacant.putSlot_eq 5).symm]

/-- A client on the active stage gets its own decoys. -/
theorem decoysMatch_active : ∃ p s,
    serverMachine.run decoyHub [.clientInit 0 5 (.v4 1 1) 0] = some p ∧
      (s2cRoute p.cfg p.table (initFor 0)).entry = some s ∧
      ∀ fuel clock st x, DecoyState.Ready (2 ^ 64 - 1) p.cfg st →
        sentAhead (2 ^ 64 - 1) fuel clock p (p.packet 0 (initFor 0)) st = .ok x →
          DecoysMatch p.cfg (serverProf p.cfg p.table s) x.1 := by
  obtain ⟨p, s, hrun, hcfg, hruns, hr, hs, hprof⟩ := decoyHub_client 0
  have hparsed : p.cfg.toAwgProfile.TemplatesParsed := hcfg ▸ decoyHub_templatesParsed
  have hinit : proxyInitJunk (2 ^ 64 - 1) p.cfg (fun _ => 0) (fun _ => 0) = some ⟨[], []⟩ := by
    rw [hcfg]
    rfl
  refine ⟨p, s, hrun, hs,
    (decoysMatch_iff hruns hparsed hinit hr (handshakeKind?_initFor 0) hs).mpr ?_⟩
  rw [hprof, hcfg]
  exact fun _ => ⟨fun _ => rfl, Or.inl nofun⟩

/-- A client on stage 1 gets the I-packet of stage 0. -/
theorem not_decoysMatch_stage : ∃ p s,
    serverMachine.run decoyHub [.clientInit 0 5 (.v4 1 1) 1] = some p ∧ ServerRuns p ∧
      p.cfg.toAwgProfile.TemplatesParsed ∧
      proxyInitJunk (2 ^ 64 - 1) p.cfg (fun _ => 0) (fun _ => 0) = some ⟨[], []⟩ ∧
      Receivable p 0 (initFor 0) ∧ handshakeKind? (initFor 0) = some .init ∧
      (s2cRoute p.cfg p.table (initFor 0)).entry = some s ∧ serverProf p.cfg p.table s = 1 ∧
      ∃ fuel clock st x, DecoyState.Ready (2 ^ 64 - 1) p.cfg st ∧
        sentAhead (2 ^ 64 - 1) fuel clock p (p.packet 0 (initFor 0)) st = .ok x ∧
        iTemplates x.1 = [⟨[⟨.static, 0, 0, 1⟩], [0]⟩] ∧
        (p.cfg.profiles 1).templates = [⟨[⟨.static, 0, 0, 1⟩], [1]⟩] ∧
        ¬ DecoysMatch p.cfg 1 x.1 := by
  obtain ⟨p, s, hrun, hcfg, hruns, hr, hs, hprof⟩ := decoyHub_client 1
  have hparsed : p.cfg.toAwgProfile.TemplatesParsed := hcfg ▸ decoyHub_templatesParsed
  have hinit : proxyInitJunk (2 ^ 64 - 1) p.cfg (fun _ => 0) (fun _ => 0) = some ⟨[], []⟩ := by
    rw [hcfg]
    rfl
  have hstage : (p.cfg.profiles 1).templates = [⟨[⟨.static, 0, 0, 1⟩], [1]⟩] := by
    rw [hcfg]
    rfl
  have hflat : p.cfg.toAwgProfile.templates = [⟨[⟨.static, 0, 0, 1⟩], [0]⟩] := by
    rw [hcfg]
    rfl
  obtain ⟨fuel, clock, st, x, hready, hsend⟩ := exists_sendJunkAndCpsTo hparsed
    fun hjc hjmax => junkFits_proxyInitJunk hjc hjmax hinit
  obtain ⟨hts, -⟩ := sendJunkAndCpsTo_spec hready hsend
  rw [hflat] at hts
  have hasks := sent_packet_init hruns.mode hr (handshakeKind?_initFor 0) hs
  rw [hprof, hstage] at hasks
  refine ⟨p, s, hrun, hruns, hparsed, hinit, hr, handshakeKind?_initFor 0, hs, hprof,
    fuel, clock, st, x, hready, ?_, hts, hstage, fun hmatch => ?_⟩
  · rw [sentAhead, if_pos (hasks.mpr (Or.inr nofun)), hsend]
  · have hown := hmatch.own (by rw [hts]; exact nofun)
    rw [hts, hstage] at hown
    exact absurd hown (by decide)

end AwgProxy
