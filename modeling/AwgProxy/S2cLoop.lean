import AwgProxy.Lib.Machine
import AwgProxy.S2cDecode

/-!
# The Receive Loop of the s2c Thread

`s2c_thread` in normal mode, one turn of the loop a step. With GRO a read returns a run of
datagrams merged into one buffer, of which a turn forwards at most a batch; the rest stays
pending for the next turn. Without GRO a read returns a batch of datagrams in buffers of
their own. The loop leaves GRO when reads do not merge and returns to it after a while. A
reconnect replaces the socket between two turns.

What the kernel does with a turn, how many datagrams it hands over and which of them it
merges, is part of the event, and so is what the other threads do between two turns.

* `s2cMachine` — the loop, the kernel and the other threads.
* `judgedByItsOwn` — as long as no reconnect succeeds while segments are pending, and no
  batch read of a connection yet unheard is woken by a `shutdown`, what marks a connection
  as answered is a datagram read from it.
-/

namespace AwgProxy

/-- `GRO_BUF_SIZE`. -/
abbrev groBufSize : ℕ := 65536

/-- `GRO_REARM_MIN`. -/
abbrev groRearmMin : ℕ := 512

/-- `GRO_REARM_MAX`. -/
abbrev groRearmMax : ℕ := 32768

/-- `AWG_DEFAULT_UDP_WINDOW`. -/
abbrev awgDefaultUdpWindow : UInt32 := 500

/-- `UDP_GRO_CNT_MAX`: the most datagrams the kernel merges. -/
abbrev udpGroCntMax : ℕ := 64

/-- `proxy_t` and the locals of `s2c_thread`, as far as the loop reads and writes them in
normal mode, beside the socket it reads from and what it has sent. A connection is named by
its number. -/
structure S2cLoop where
  /-- What the packet function works on. -/
  proxy : Proxy
  /-- `remote_fd`, the connection it belongs to; `none` for `-1`. -/
  remoteFd : Option ℕ
  /-- The number of the next connection. -/
  nextConn : ℕ
  /-- `reconnect_needed`. -/
  reconnectNeeded : Bool
  /-- The server is Cloudflare WARP. -/
  warp : Bool
  /-- `AWG_NO_GRO`. -/
  noGro : Bool
  /-- `gro_enabled`. -/
  groEnabled : Bool
  /-- `gro_no_coalesce`: reads in a row that merged nothing. -/
  groNoCoalesce : ℕ
  /-- `gro_rearm_in`: batch reads to wait through. -/
  groRearmIn : ℕ
  /-- `gro_rearm_gap`. -/
  groRearmGap : ℕ
  /-- `gro_pend_off`. -/
  groPendOff : ℕ
  /-- `gro_pend_total`. -/
  groPendTotal : ℕ
  /-- `gro_pend_seg`. -/
  groPendSeg : ℕ
  /-- `last_remote_rx`. -/
  lastRemoteRx : Bool
  /-- `fe_remote_pkt`. -/
  feRemotePkt : Bool
  /-- `port_keep`. -/
  portKeep : Bool
  /-- The datagrams on the socket, oldest first. -/
  arrived : List Bytes
  /-- What was sent to the client. -/
  delivered : List (Bytes × CliAddr)
  /-- The connections a datagram has been read from. -/
  heard : List ℕ
  /-- The connections `warp_keep` has been called on. -/
  kept : List ℕ

/-- How `do_reconnect` and the probe behind it end. -/
inductive DialOutcome
  /-- The dial fails. -/
  | failed
  /-- The probe gives the new socket up. -/
  | lost
  /-- The connection stands, with or without GRO on its socket. -/
  | connected (gro : Bool)
  deriving DecidableEq

/-- What a turn of the loop meets. -/
inductive TurnRead
  /-- Segments are pending: nothing is read. -/
  | pending
  /-- `recv_gro` returns the first `k` datagrams. -/
  | gro (k : ℕ)
  /-- `recvmmsg` returns the first `k` datagrams. -/
  | mmsg (k : ℕ)
  /-- The wait is over and GRO is back: nothing is read. -/
  | rearm
  /-- A `shutdown` ends the read: it returns with no bytes. -/
  | woken
  /-- The read fails, for good or not. -/
  | failed (fatal : Bool)
  deriving DecidableEq

/-- A step of the loop, the kernel or another thread. -/
inductive S2cEvent
  /-- A datagram arrives on the socket. -/
  | arrive (d : Bytes)
  /-- The c2s thread notes the address of the client. -/
  | client (a : CliAddr)
  /-- A tick of the main loop takes `last_remote_rx`. -/
  | tick
  /-- Another thread asks for a reconnect. -/
  | needReconnect
  /-- The turn reconnects; the dial finds a dead verdict or not. -/
  | reconnect (dead : Bool) (o : DialOutcome)
  /-- The turn reads. -/
  | turn (r : TurnRead)
  deriving DecidableEq

/-! ### The segments of a merged read -/

/-- The datagrams of the `n` bytes in the buffer of a merged read from `off` on, in
segments of `seg` bytes; `fuel` bounds their number. -/
def groSegments (m : Mem PktBuf) (n seg : ℕ) : ℕ → ℕ → List Bytes
  | 0, _ => []
  | fuel + 1, off =>
      if off < n then
        m.read ⟨.gro, off⟩ (min seg (n - off)) :: groSegments m n seg fuel (off + seg)
      else []

/-- The loop of the coalesced branch over the segments from `off` on: each goes through the
packet function until the queue is full. Returns where it stopped. -/
def groSplit (n seg : ℕ) : ℕ → Proxy → ℕ → Proxy × ℕ
  | 0, p, off => (p, off)
  | fuel + 1, p, off =>
      if off < n ∧ p.queue.length < batchSize then
        groSplit n seg fuel (processS2cPktNormal p ⟨.gro, off⟩ (min seg (n - off))) (off + seg)
      else (p, off)

/-- Datagrams as long as `seg`, the last one possibly shorter but not empty. -/
def Segmented (seg : ℕ) : List Bytes → Prop
  | [] => True
  | [d] => 0 < d.length ∧ d.length ≤ seg
  | d :: e :: ds => d.length = seg ∧ Segmented seg (e :: ds)

instance instDecidableSegmented (seg : ℕ) : ∀ ds, Decidable (Segmented seg ds)
  | [] => inferInstanceAs (Decidable True)
  | [d] => inferInstanceAs (Decidable (0 < d.length ∧ d.length ≤ seg))
  | d :: e :: ds =>
      have := instDecidableSegmented seg (e :: ds)
      inferInstanceAs (Decidable (d.length = seg ∧ Segmented seg (e :: ds)))

/-- The kernel may merge these datagrams into one read: one datagram, or a run of as long
ones that are not empty, the last possibly shorter, up to the bounds on a read. -/
def Coalescible : List Bytes → Prop
  | [] => False
  | [_] => True
  | d :: e :: ds => 0 < d.length ∧ Segmented d.length (d :: e :: ds) ∧
      (d :: e :: ds).length ≤ udpGroCntMax ∧ (d :: e :: ds).flatten.length ≤ groBufSize

instance (ds : List Bytes) : Decidable (Coalescible ds) :=
  match ds with
  | [] => inferInstanceAs (Decidable False)
  | [_] => inferInstanceAs (Decidable True)
  | _ :: _ :: _ => inferInstanceAs (Decidable (_ ∧ _))

/-- The segment size a merged read reports, 0 when nothing was merged. -/
def reportedSeg : List Bytes → ℕ
  | d :: _ :: _ => d.length
  | _ => 0

/-! ### A turn of the loop -/

/-- The queued packets, as they stand in the buffers, with their destinations. -/
def Proxy.toClient (p : Proxy) : List (Bytes × CliAddr) :=
  p.queue.map fun e => (p.mem.read e.base e.len, e.addr)

/-- The queue of the turn is sent to the client. -/
def S2cLoop.send (s : S2cLoop) : S2cLoop :=
  { s with
    proxy := { s.proxy with queue := [] }
    delivered := s.delivered ++ s.proxy.toClient }

/-- A packet of the connection `c`: the flags, and `warp_keep` at the first one when
`keep`. -/
def S2cLoop.noteRx (s : S2cLoop) (c : ℕ) (keep : Bool) : S2cLoop :=
  let keeps := !s.feRemotePkt && s.warp && keep
  { s with
    lastRemoteRx := true
    feRemotePkt := true
    portKeep := s.portKeep || keeps
    kept := if keeps then s.kept ++ [c] else s.kept }

/-- The GRO branch on `n` bytes of the buffer in segments of `seg`, from `gro_pend_off`
on. -/
def S2cLoop.groForward (s : S2cLoop) (c n seg : ℕ) : S2cLoop :=
  let s := s.noteRx c true
  if !s.proxy.hasClient then s
  else if seg > 0 ∧ n > seg then
    let split := groSplit n seg (n - s.groPendOff) s.proxy s.groPendOff
    let s := { s with groNoCoalesce := 0, proxy := split.1 }
    let s :=
      if split.2 < n then
        { s with groPendOff := split.2, groPendTotal := n, groPendSeg := seg }
      else { s with groPendOff := 0, groPendTotal := 0 }
    s.send
  else
    let s := { s with groNoCoalesce := s.groNoCoalesce + 1 }
    let s :=
      if s.groNoCoalesce ≥ 8 then { s with groEnabled := false, groRearmIn := s.groRearmGap }
      else s
    let s := { s with proxy := processS2cPktNormal s.proxy ⟨.gro, 0⟩ n }
    s.send

/-- `recv_gro` and the GRO branch: the kernel returns `ds` merged. A read of no bytes is
left to `note_remote_read_err`, which passes over it. -/
def S2cLoop.groRead (s : S2cLoop) (c : ℕ) (ds : List Bytes) : S2cLoop :=
  let data := ds.flatten
  let s := { s with
    proxy := { s.proxy with mem := s.proxy.mem.write ⟨.gro, 0⟩ data }
    heard := s.heard ++ [c] }
  if data.length = 0 then s
  else ({ s with groPendOff := 0, groPendTotal := 0 }).groForward c data.length (reportedSeg ds)

/-- The buffers of a batch read, filled with `ds` from buffer `i` on. -/
def mmsgFill (m : Mem PktBuf) : ℕ → List Bytes → Mem PktBuf
  | _, [] => m
  | i, d :: ds => mmsgFill (m.write ⟨.recv i, 0⟩ d) (i + 1) ds

/-- The loop over a batch read, on the lengths received from buffer `i` on. -/
def mmsgLoop (p : Proxy) : ℕ → List ℕ → Proxy
  | _, [] => p
  | i, n :: ns => mmsgLoop (if n = 0 then p else processS2cPktNormal p ⟨.recv i, 0⟩ n) (i + 1) ns

/-- The recvmmsg branch on the messages `ds`. -/
def S2cLoop.mmsgForward (s : S2cLoop) (c : ℕ) (ds : List Bytes) : S2cLoop :=
  let s := { s with proxy := { s.proxy with mem := mmsgFill s.proxy.mem 0 ds } }
  let s := s.noteRx c ((ds.head?.elim 0 List.length) > 0)
  if !s.proxy.hasClient then s
  else ({ s with proxy := mmsgLoop s.proxy 0 (ds.map List.length) }).send

/-- The countdown of the recvmmsg branch has run out: GRO is due. -/
def S2cLoop.rearmDue (s : S2cLoop) : Bool :=
  s.groRearmIn = 1 && !s.noGro

/-- A turn that reads, on the connection `c`, with what the kernel does. -/
def S2cLoop.turn (s : S2cLoop) (c : ℕ) (r : TurnRead) : Option S2cLoop :=
  if s.groEnabled then
    if s.groPendOff < s.groPendTotal then
      if r = .pending then some (s.groForward c s.groPendTotal s.groPendSeg) else none
    else
      match r with
      | .gro k =>
          if k ≤ s.arrived.length ∧ Coalescible (s.arrived.take k) then
            some ({ s with arrived := s.arrived.drop k }.groRead c (s.arrived.take k))
          else none
      | .woken => some s
      | .failed fatal => some { s with reconnectNeeded := s.reconnectNeeded || fatal }
      | _ => none
  else
    let waited := { s with groRearmIn := s.groRearmIn - 1 }
    match r with
    | .rearm =>
        if s.rearmDue then
          some { waited with
            groEnabled := true
            groNoCoalesce := 0
            groRearmGap := if s.groRearmGap < groRearmMax then s.groRearmGap * 2
              else s.groRearmGap }
        else none
    | .mmsg k =>
        if 0 < k ∧ k ≤ batchSize ∧ k ≤ s.arrived.length then
          some (({ waited with
            arrived := s.arrived.drop k
            heard := s.heard ++ [c] }).mmsgForward c (s.arrived.take k))
        else none
    | .woken => some (waited.mmsgForward c [[]])
    | .failed fatal => some { waited with reconnectNeeded := s.reconnectNeeded || fatal }
    | _ => none

/-- What a turn can do. -/
inductive TurnStep (s : S2cLoop) (c : ℕ) : TurnRead → S2cLoop → Prop
  /-- Pending segments are forwarded. -/
  | pending (hgro : s.groEnabled = true) (hp : s.groPendOff < s.groPendTotal) :
      TurnStep s c .pending (s.groForward c s.groPendTotal s.groPendSeg)
  /-- A merged read. -/
  | gro (k : ℕ) (hgro : s.groEnabled = true) (hp : ¬ s.groPendOff < s.groPendTotal)
      (hk : k ≤ s.arrived.length) (hco : Coalescible (s.arrived.take k)) :
      TurnStep s c (.gro k) ({ s with arrived := s.arrived.drop k }.groRead c (s.arrived.take k))
  /-- Waking, or failing, without a read. -/
  | idle (r : TurnRead) (hr : r = .woken ∧ s.groEnabled = true ∨ ∃ fatal, r = .failed fatal)
      (wait : ℕ) (need : Bool) :
      TurnStep s c r { s with groRearmIn := wait, reconnectNeeded := need }
  /-- GRO is back. -/
  | rearm (hgro : s.groEnabled ≠ true) (hdue : s.rearmDue = true) (gap : ℕ) :
      TurnStep s c .rearm { s with
        groRearmIn := s.groRearmIn - 1
        groEnabled := true
        groNoCoalesce := 0
        groRearmGap := gap }
  /-- A batch read. -/
  | mmsg (k : ℕ) (hgro : s.groEnabled ≠ true) (hk : 0 < k ∧ k ≤ batchSize ∧ k ≤ s.arrived.length) :
      TurnStep s c (.mmsg k) (({ s with
        groRearmIn := s.groRearmIn - 1
        arrived := s.arrived.drop k
        heard := s.heard ++ [c] }).mmsgForward c (s.arrived.take k))
  /-- A batch read that is woken. -/
  | woken (hgro : s.groEnabled ≠ true) :
      TurnStep s c .woken ({ s with groRearmIn := s.groRearmIn - 1 }.mmsgForward c [[]])

/-- A turn does one of these. -/
theorem turnStep_of_turn {s s' : S2cLoop} {c : ℕ} {r : TurnRead} (hs : s.turn c r = some s') :
    TurnStep s c r s' := by
  by_cases hgro : s.groEnabled = true
  · by_cases hp : s.groPendOff < s.groPendTotal
    · simp only [S2cLoop.turn, if_pos hgro, if_pos hp] at hs
      obtain ⟨rfl, rfl⟩ := Option.ite_some_none_eq_some.mp hs
      exact .pending hgro hp
    · cases r <;> simp only [S2cLoop.turn, if_pos hgro, if_neg hp] at hs
      case gro k =>
        obtain ⟨⟨hk, hco⟩, rfl⟩ := Option.ite_some_none_eq_some.mp hs
        exact .gro k hgro hp hk hco
      case woken =>
        obtain rfl := Option.some.inj hs
        exact .idle _ (Or.inl ⟨rfl, hgro⟩) s.groRearmIn s.reconnectNeeded
      case failed fatal =>
        obtain rfl := Option.some.inj hs
        exact .idle _ (Or.inr ⟨fatal, rfl⟩) s.groRearmIn _
      all_goals contradiction
  · cases r <;> simp only [S2cLoop.turn, if_neg hgro] at hs
    case rearm =>
      obtain ⟨hdue, rfl⟩ := Option.ite_some_none_eq_some.mp hs
      exact .rearm hgro hdue _
    case mmsg k =>
      obtain ⟨hk, rfl⟩ := Option.ite_some_none_eq_some.mp hs
      exact .mmsg k hgro hk
    case woken =>
      obtain rfl := Option.some.inj hs
      exact .woken hgro
    case failed fatal =>
      obtain rfl := Option.some.inj hs
      exact .idle _ (Or.inr ⟨fatal, rfl⟩) _ _
    all_goals contradiction

/-- What a successful `do_reconnect` leaves of the old connection. -/
def S2cLoop.reset (s : S2cLoop) : S2cLoop :=
  { s with
    proxy := { s.proxy with
      hasClient := false
      cfg := { s.proxy.cfg with udpWindow := awgDefaultUdpWindow } }
    reconnectNeeded := false
    lastRemoteRx := false
    feRemotePkt := false }

/-- The turn that reconnects: `do_reconnect`, which drops the port to keep when a dead
verdict is there to be consumed, the probe, and GRO on the new socket. -/
def S2cLoop.reconnect (s : S2cLoop) (dead : Bool) (o : DialOutcome) : S2cLoop :=
  let s := { s with portKeep := s.portKeep && !dead, remoteFd := none, arrived := [] }
  match o with
  | .failed => s
  | .lost => s.reset
  | .connected gro => { s.reset with
      remoteFd := some s.nextConn
      nextConn := s.nextConn + 1
      groEnabled := if s.noGro then s.groEnabled else gro }

/-- A step of the loop, the kernel or another thread. -/
def s2cStep (s : S2cLoop) : S2cEvent → Option S2cLoop
  | .arrive d => if s.remoteFd.isSome then some { s with arrived := s.arrived ++ [d] } else none
  | .client a => some { s with proxy := { s.proxy with clientAddr := a, hasClient := true } }
  | .tick => some { s with lastRemoteRx := false }
  | .needReconnect => some { s with reconnectNeeded := true }
  | .reconnect dead o =>
      if s.remoteFd = none ∨ s.reconnectNeeded = true then some (s.reconnect dead o) else none
  | .turn r => if s.reconnectNeeded then none else s.remoteFd.bind fun c => s.turn c r

/-- The loop, the kernel and the other threads. -/
def s2cMachine : Machine S2cLoop S2cEvent :=
  ⟨s2cStep⟩

/-! ### A connection is judged by its own packets -/

/-- What marks the connection as answered, and what `warp_keep` has recorded of any, rests
on a datagram read from that connection. -/
structure JudgedByItsOwn (s : S2cLoop) : Prop where
  /-- `last_remote_rx` and `fe_remote_pkt`. -/
  flags : ∀ c, s.remoteFd = some c → s.lastRemoteRx = true ∨ s.feRemotePkt = true → c ∈ s.heard
  /-- `port_keep = 1` by `warp_keep`. -/
  keep : ∀ c ∈ s.kept, c ∈ s.heard

/-- No connection begins while segments are pending, and no batch read is woken before a
datagram has been read from its connection. -/
def LeavesNothingBehind (s : S2cLoop) : S2cEvent → Prop
  | .reconnect _ (.connected _) => ¬ s.groPendOff < s.groPendTotal
  | .turn .woken => s.groEnabled = true ∨ ∀ c, s.remoteFd = some c → c ∈ s.heard
  | _ => True

/-- The loop as it starts. -/
structure S2cLoop.Started (s : S2cLoop) : Prop where
  lastRemoteRx : s.lastRemoteRx = false
  feRemotePkt : s.feRemotePkt = false
  pend : s.groPendOff = 0 ∧ s.groPendTotal = 0
  kept : s.kept = []

/-- Pending segments come from the connection that is open. -/
structure JudgedInv (s : S2cLoop) : Prop extends JudgedByItsOwn s where
  pend : s.groPendOff < s.groPendTotal → ∀ c, s.remoteFd = some c → c ∈ s.heard

/-- What a turn on the connection `c` leaves: its marks are on `c` alone. -/
structure MarksOnly (s s' : S2cLoop) (c : ℕ) : Prop where
  remoteFd : s'.remoteFd = s.remoteFd
  heard : ∀ x ∈ s.heard, x ∈ s'.heard
  kept : ∀ x ∈ s'.kept, x ∈ s.kept ∨ x = c

/-- A turn on a connection that has been heard keeps the invariant. -/
theorem JudgedInv.of_marksOnly {s s' : S2cLoop} {c : ℕ} (h : JudgedInv s)
    (hm : MarksOnly s s' c) (hfd : s.remoteFd = some c) (hc : c ∈ s'.heard) : JudgedInv s' := by
  have honly : ∀ x, s'.remoteFd = some x → x ∈ s'.heard := by
    intro x hx
    rw [hm.remoteFd, hfd] at hx
    exact Option.some.inj hx ▸ hc
  refine ⟨⟨fun x hx _ => honly x hx, fun x hx => ?_⟩, fun _ x hx => honly x hx⟩
  rcases hm.kept x hx with hx | rfl
  · exact hm.heard x (h.keep x hx)
  · exact hc

/-- Noting a packet marks the connection it came on. -/
theorem marksOnly_noteRx (s : S2cLoop) (c : ℕ) (keep : Bool) : MarksOnly s (s.noteRx c keep) c := by
  refine ⟨rfl, fun _ hx => hx, fun x hx => ?_⟩
  rw [S2cLoop.noteRx] at hx
  dsimp only at hx
  split at hx
  · rcases List.mem_append.mp hx with hx | hx
    · exact Or.inl hx
    · exact Or.inr (List.mem_singleton.mp hx)
  · exact Or.inl hx

/-- The GRO branch marks the connection it reads from. -/
theorem marksOnly_groForward (s : S2cLoop) (c n seg : ℕ) :
    MarksOnly s (s.groForward c n seg) c := by
  have hm := marksOnly_noteRx s c true
  rw [S2cLoop.groForward]
  dsimp only
  split
  · exact hm
  split
  · split
    · exact ⟨hm.remoteFd, hm.heard, hm.kept⟩
    · exact ⟨hm.remoteFd, hm.heard, hm.kept⟩
  · split
    · exact ⟨hm.remoteFd, hm.heard, hm.kept⟩
    · exact ⟨hm.remoteFd, hm.heard, hm.kept⟩

/-- The recvmmsg branch marks the connection it reads from. -/
theorem marksOnly_mmsgForward (s : S2cLoop) (c : ℕ) (ds : List Bytes) :
    MarksOnly s (s.mmsgForward c ds) c := by
  have hm := marksOnly_noteRx
    { s with proxy := { s.proxy with mem := mmsgFill s.proxy.mem 0 ds } } c
    ((ds.head?.elim 0 List.length) > 0)
  rw [S2cLoop.mmsgForward]
  dsimp only
  split
  · exact ⟨hm.remoteFd, hm.heard, hm.kept⟩
  · exact ⟨hm.remoteFd, hm.heard, hm.kept⟩

/-- A turn marks the connection it reads from, and what it marks has been heard. -/
theorem JudgedInv.turn {s s' : S2cLoop} {c : ℕ} {r : TurnRead} (h : JudgedInv s)
    (hfd : s.remoteFd = some c) (hg : LeavesNothingBehind s (.turn r))
    (hs : s.turn c r = some s') : JudgedInv s' := by
  have hlast : c ∈ s.heard ++ [c] := List.mem_append_right _ (List.mem_singleton.mpr rfl)
  cases turnStep_of_turn hs with
  | pending hgro hp =>
      have hm := marksOnly_groForward s c s.groPendTotal s.groPendSeg
      exact h.of_marksOnly hm hfd (hm.heard c (h.pend hp c hfd))
  | gro k hgro hp hk hco =>
      rw [S2cLoop.groRead]
      dsimp only
      split
      · exact h.of_marksOnly ⟨rfl, fun x hx => List.mem_append_left _ hx, fun _ hx => Or.inl hx⟩
          hfd hlast
      · have hm := marksOnly_groForward { s with
          proxy := { s.proxy with mem := s.proxy.mem.write ⟨.gro, 0⟩ (s.arrived.take k).flatten }
          arrived := s.arrived.drop k
          heard := s.heard ++ [c], groPendOff := 0, groPendTotal := 0 } c
          (s.arrived.take k).flatten.length (reportedSeg (s.arrived.take k))
        exact h.of_marksOnly
          ⟨hm.remoteFd, fun x hx => hm.heard x (List.mem_append_left _ hx), hm.kept⟩ hfd
          (hm.heard c hlast)
  | idle _ hr wait need => exact ⟨⟨h.flags, h.keep⟩, h.pend⟩
  | rearm hgro hdue gap => exact ⟨⟨h.flags, h.keep⟩, h.pend⟩
  | mmsg k hgro hk =>
      have hm := marksOnly_mmsgForward { s with
        groRearmIn := s.groRearmIn - 1
        arrived := s.arrived.drop k
        heard := s.heard ++ [c] } c (s.arrived.take k)
      exact h.of_marksOnly
        ⟨hm.remoteFd, fun x hx => hm.heard x (List.mem_append_left _ hx), hm.kept⟩ hfd
        (hm.heard c hlast)
  | woken hgro =>
      have hm := marksOnly_mmsgForward { s with groRearmIn := s.groRearmIn - 1 } c [[]]
      have hheard : c ∈ s.heard := hg.resolve_left hgro c hfd
      exact h.of_marksOnly ⟨hm.remoteFd, hm.heard, hm.kept⟩ hfd (hm.heard c hheard)

/-- A step that leaves nothing behind keeps the invariant. -/
theorem JudgedInv.step {s s' : S2cLoop} {e : S2cEvent} (h : JudgedInv s)
    (hg : LeavesNothingBehind s e) (hs : s2cStep s e = some s') : JudgedInv s' := by
  cases e with
  | arrive d =>
      obtain ⟨-, rfl⟩ := Option.ite_some_none_eq_some.mp hs
      exact ⟨⟨h.flags, h.keep⟩, h.pend⟩
  | client a =>
      obtain rfl := Option.some.inj hs
      exact ⟨⟨h.flags, h.keep⟩, h.pend⟩
  | tick =>
      obtain rfl := Option.some.inj hs
      refine ⟨⟨fun c hc hflag => h.flags c hc (Or.inr ?_), h.keep⟩, h.pend⟩
      exact hflag.resolve_left Bool.false_ne_true
  | needReconnect =>
      obtain rfl := Option.some.inj hs
      exact ⟨⟨h.flags, h.keep⟩, h.pend⟩
  | reconnect dead o =>
      obtain ⟨-, rfl⟩ := Option.ite_some_none_eq_some.mp hs
      cases o with
      | failed => exact ⟨⟨nofun, h.keep⟩, fun _ => nofun⟩
      | lost => exact ⟨⟨nofun, h.keep⟩, fun _ => nofun⟩
      | connected gro =>
          refine ⟨⟨fun _ _ hflag => ?_, h.keep⟩, fun hp => absurd hp hg⟩
          rcases hflag with hflag | hflag <;> contradiction
  | turn r =>
      obtain ⟨-, hs⟩ := Option.ite_none_left_eq_some.mp hs
      obtain ⟨c, hfd, hs⟩ := Option.bind_eq_some_iff.mp hs
      exact h.turn hfd hg hs

/-- **A connection is judged by its own packets**, in every state reached by a run of the
loop in which no connection begins while segments are pending and a `shutdown` wakes no
batch read of a connection that nothing has been read from. -/
theorem judgedByItsOwn {s t : S2cLoop} {es : List S2cEvent} (h0 : s.Started)
    (hC : s2cMachine.Meets LeavesNothingBehind s es) (hrun : s2cMachine.run s es = some t) :
    JudgedByItsOwn t := by
  have hinit : JudgedInv s := by
    refine ⟨⟨fun c _ hflag => ?_, ?_⟩, fun hp => ?_⟩
    · rw [h0.lastRemoteRx, h0.feRemotePkt] at hflag
      rcases hflag with hflag | hflag <;> contradiction
    · rw [h0.kept]
      exact nofun
    · rw [h0.pend.1, h0.pend.2] at hp
      contradiction
  have hstep : ∀ q e q', JudgedInv q → LeavesNothingBehind q e → s2cMachine.step q e = some q' →
      JudgedInv q' := fun q e q' hq hg hs => hq.step hg hs
  exact (Machine.guarded_induction hstep hinit hC hrun).toJudgedByItsOwn

/-! ### Segments that outlive their connection -/

/-- A configuration that changes nothing. -/
def bareConfig : AwgConfig where
  toAwgProfile := plainProfile.toAwgProfile
  mode := .normal
  jc := 0
  jmin := 0
  jmax := 0
  serverPeerMac1keys := []
  hpKey := []
  rtAny := false
  disableCookies := false
  udpWindow := 500
  mac1keyOut := none
  mac1keyIn := none
  profiles := fun _ => plainProfile.toAwgProfile
  profileCount := 1
  activeProfile := 0
  maxS4 := 0

/-- The loop with a known client, on a connection to Cloudflare WARP with GRO. -/
def warpLoop : S2cLoop where
  proxy := { Proxy.zeroed bareConfig (fun _ => List.replicate 1056 0) with hasClient := true }
  remoteFd := some 0
  nextConn := 1
  reconnectNeeded := false
  warp := true
  noGro := false
  groEnabled := true
  groNoCoalesce := 0
  groRearmIn := 0
  groRearmGap := groRearmMin
  groPendOff := 0
  groPendTotal := 0
  groPendSeg := 0
  lastRemoteRx := false
  feRemotePkt := false
  portKeep := false
  arrived := []
  delivered := []
  heard := []
  kept := []

theorem started_warpLoop : warpLoop.Started :=
  ⟨rfl, rfl, ⟨rfl, rfl⟩, rfl⟩

/-- The keepalive of a tunnel. -/
def keepalivePkt : Bytes :=
  Bytes.leBytes 4 4 ++ List.replicate 28 0

/-- A reconnect, and a datagram of the new connection. -/
theorem judgedByItsOwn_reconnected : ∃ t, s2cMachine.run warpLoop
    [.needReconnect, .reconnect false (.connected true), .arrive keepalivePkt, .turn (.gro 1)] =
      some t ∧ JudgedByItsOwn t := by
  have hC : s2cMachine.Meets LeavesNothingBehind warpLoop
      [.needReconnect, .reconnect false (.connected true), .arrive keepalivePkt,
        .turn (.gro 1)] := by
    refine .cons trivial rfl (.cons ?_ rfl (.cons trivial rfl (.cons trivial rfl
      (Machine.meets_nil _ _))))
    exact Nat.lt_irrefl 0
  exact ⟨_, rfl, judgedByItsOwn started_warpLoop hC rfl⟩

/-- 33 keepalives arrive and are read as one; a turn forwards 32 of them. A reconnect
follows, and a turn on the new connection. -/
def leftoverEvents : List S2cEvent :=
  List.replicate 33 (.arrive keepalivePkt) ++
    [.turn (.gro 33), .needReconnect, .reconnect false (.connected true), .turn .pending]

/-- The last segment of the old connection marks the new one as answered, and `warp_keep`
keeps its port, although nothing has been read from it. -/
theorem not_judgedByItsOwn_leftover :
    warpLoop.Started ∧ ∃ t, s2cMachine.run warpLoop leftoverEvents = some t ∧
      ¬ JudgedByItsOwn t ∧ t.remoteFd = some 1 ∧ t.lastRemoteRx = true ∧ t.feRemotePkt = true ∧
      1 ∈ t.kept ∧ 1 ∉ t.heard := by
  have hend : (s2cMachine.run warpLoop leftoverEvents).map
      (fun t => (t.remoteFd, t.lastRemoteRx, t.feRemotePkt, t.kept, t.heard)) =
        some (some 1, true, true, [0, 1], [0]) := by
    decide +kernel
  obtain ⟨t, ht, hmarks⟩ := Option.map_eq_some_iff.mp hend
  simp only [Prod.mk.injEq] at hmarks
  obtain ⟨hfd, hrx, hfe, hkept, hheard⟩ := hmarks
  refine ⟨started_warpLoop, t, ht, fun hj => ?_, hfd, hrx, hfe, ?_, ?_⟩
  · have hmem := hj.flags 1 hfd (Or.inl hrx)
    rw [hheard] at hmem
    exact absurd hmem (by decide)
  · rw [hkept]
    decide
  · rw [hheard]
    decide

end AwgProxy
